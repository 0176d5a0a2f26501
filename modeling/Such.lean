import Such.Runtime.IndexRootService.BatchBound
import Such.Runtime.IndexRootService.HiddenPaths
import Such.Runtime.IndexRootService.Maintenance
import Such.Runtime.IndexRootService.Termination
import Such.Runtime.IndexSnapshot.Agreement
import Such.Runtime.IndexSnapshot.Checksum
import Such.Runtime.IndexSnapshot.Confinement
import Such.Runtime.IndexSnapshot.Publication
import Such.Runtime.IndexWorkerLauncher.CommandLine
import Such.Runtime.RuntimeClient.CandidateScope
import Such.Runtime.RuntimeClient.CappedSearch
import Such.Runtime.RuntimeClient.ErrorSlots
import Such.Runtime.RuntimeClient.Handles.Refinement
import Such.Runtime.RuntimeClient.Narrowing
import Such.Runtime.SearchableFiles.BuiltInFilters
import Such.Runtime.IndexPathPolicy.PlanSet
import Such.Runtime.DailyIndexRefresh.Sharing
import Such.Ui.SearchDialect.Reparse
import Such.Ui.SearchDialect.Stages
import Such.Ui.HangulQueryNfc.Composition
import Such.Ui.QueryCommands.QuotedPaths
import Such.Cli.CliApp
import Such.Platform.FailedLaunch
import Such.Platform.X11Frontend.Backspace
import Such.Platform.X11Frontend.Boundary
import Such.Cli.ProcessControl
import Such.Platform.X11Frontend.ResultRows
import Such.Runtime.IndexPathPolicy.Spelling
import Such.Runtime.RuntimeClient.StageJoin
import Such.Ui.AgentLauncher.PowerShellLiterals
import Such.Ui.AgentLauncher.ShellWords
import Such.Ui.SearchDialect.DateControls
import Such.Ui.SearchDialect.TokenOrder
import Such.Ui.SwipeActions.Mirror
import Such.Ui.FrontendLease.Exclusion
import Such.Cli.IndexWorker.Drain
import Such.Platform.LinuxIndexRoots.MountTable
import Such.Platform.X11Frontend.Picker
import Such.Cli.ProcessControl.Stop.Accounts
import Such.Cli.CliApp.Roots
import Such.Cli.CliApp.Fonts
import Such.Runtime.IndexPathPolicy.NoiseDiscovery

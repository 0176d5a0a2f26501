import Such.Cli.IndexWorker
import Such.Runtime.IndexRootService.Maintenance
import Such.Runtime.IndexRootService.Preservation

/-! The worker gives its maintenance a fixed number of polls. They are enough for every runtime
whose noise trees and planned exclusions are few enough for the batches they come in. -/
namespace Such.IndexRootService.Service
open ByteText LexicalPath IndexPathPolicy RuntimeClient
variable {σ : Type} {platform : Platform} {library : Library σ} {s t : Service σ}

theorem andThen_maintenance {α β : Type} {first : Except Bytes α × Service σ}
    {next : α → Service σ → Except Bytes β × Service σ} {m : Maintenance}
    (before : first.2.maintenance = m)
    (after : ∀ a u, u.maintenance = m → (next a u).2.maintenance = m) :
    (andThen first next).2.maintenance = m := by
  obtain ⟨result, u⟩ := first
  cases result with
  | error e => exact before
  | ok a => exact after a u before

theorem applyExclusions_maintenance (exclusions : List Bytes) (s : Service σ) :
    (s.applyExclusions library exclusions).2.maintenance = s.maintenance := by
  induction exclusions generalizing s with
  | nil => rfl
  | cons excluded rest ih =>
    refine andThen_maintenance ?_ fun _ u same => (ih u).trans same
    simp only [applyExclusion]
    split <;> rename_i made <;> exact congrArg (·.2.maintenance) made.symm

theorem addRoots_maintenance (roots : List ResolvedRoot) (s : Service σ) :
    (s.addRoots library roots).2.maintenance = s.maintenance := by
  induction roots generalizing s with
  | nil => rfl
  | cons root rest ih => exact andThen_maintenance rfl fun _ u same => (ih u).trans same

theorem applyPreparedRootSet_maintenance (prepared : PreparedRootSet) (s : Service σ) :
    (s.applyPreparedRootSet library prepared).2.maintenance = s.maintenance :=
  andThen_maintenance rfl fun _ _ cleared =>
    andThen_maintenance ((applyExclusions_maintenance _ _).trans cleared) fun _ _ excluded =>
      (addRoots_maintenance _ _).trans excluded

/-- Success asks for maintenance from its start. -/
theorem succeed_maintenance (enabled : s.maintenance.enabled = true)
    (done : s.succeed = (.ok (), t)) : t.maintenance = { enabled := true, pending := true } := by
  have after : t = s.requestMaintenance := (congrArg Prod.snd done).symm
  simp only [after, requestMaintenance, enabled, Bool.not_true, Bool.false_eq_true, if_false]

theorem seedRootSet_maintenance {prepared : PreparedRootSet} {previous : List Bytes}
    (enabled : s.maintenance.enabled = true)
    (done : s.seedRootSet platform library prepared previous = (.ok (), t)) :
    t.maintenance = { enabled := true, pending := true } := by
  have kept := @applyPreparedRootSet_maintenance σ library prepared s
  simp only [seedRootSet] at done
  split at done
  · cases congrArg Prod.fst done
  · rename_i u applied
    rw [applied] at kept
    exact succeed_maintenance (kept ▸ enabled) done

theorem addRoot_maintenance {root : Bytes} (enabled : s.maintenance.enabled = true)
    (done : s.addRoot platform library root = (.ok (), t)) :
    t.maintenance = { enabled := true, pending := true } := by
  obtain ⟨values, u, listed, done⟩ := andThen_eq_ok done
  have listedKept : u.maintenance = s.maintenance := congrArg (·.2.maintenance) listed.symm
  dsimp only at done
  split at done
  · cases congrArg Prod.fst done
  · rename_i prepared planned
    split at done
    · exact seedRootSet_maintenance (listedKept ▸ enabled) done
    · obtain ⟨_, v, excluded, done⟩ := andThen_eq_ok done
      have excludedKept := @applyExclusions_maintenance σ library prepared.exclusions u
      rw [excluded] at excludedKept
      split at done
      · exact succeed_maintenance ((excludedKept.trans listedKept) ▸ enabled) done
      · obtain ⟨_, w, added, done⟩ := andThen_eq_ok done
        have addedKept : w.maintenance = v.maintenance := congrArg (·.2.maintenance) added.symm
        exact succeed_maintenance ((addedKept.trans (excludedKept.trans listedKept)) ▸ enabled) done

theorem replaceRoots_maintenance {roots : List Bytes} (enabled : s.maintenance.enabled = true)
    (done : s.replaceRoots platform library roots = (.ok (), t)) :
    t.maintenance = { enabled := true, pending := true } := by
  simp only [replaceRoots] at done
  split at done
  · cases congrArg Prod.fst done
  · obtain ⟨values, u, listed, done⟩ := andThen_eq_ok done
    have listedKept : u.maintenance = s.maintenance := congrArg (·.2.maintenance) listed.symm
    exact seedRootSet_maintenance (listedKept ▸ enabled) done

theorem reindexAsync_maintenance (enabled : s.maintenance.enabled = true)
    (done : s.reindexAsync platform library = (.ok (), t)) :
    t.maintenance = { enabled := true, pending := true } := by
  obtain ⟨values, u, listed, done⟩ := andThen_eq_ok done
  have listedKept : u.maintenance = s.maintenance := congrArg (·.2.maintenance) listed.symm
  split at done
  · exact succeed_maintenance (s := { u with runtime := u.runtime.reindexAsync library })
      (listedKept ▸ enabled) done
  · split at done
    · cases congrArg Prod.fst done
    · exact seedRootSet_maintenance (listedKept ▸ enabled) done

end Such.IndexRootService.Service

namespace Such.IndexWorker
open ByteText LexicalPath IndexPathPolicy RuntimeClient IndexRootService IndexWorkerLauncher
open SearchDialect DrivenMachine
variable {W σ : Type} (host : WorkerHost W σ)

/-- One poll of a worker as a tick. -/
def tick (iterates : ∀ poll texts, (host.around poll).iterate texts ⊆ texts) (poll : Nat) : Tick σ where
  library := host.library
  between := crawled host poll
  around := host.around poll
  iterate_subset := iterates poll

/-- A runtime whose states all report only `known` noise prefixes, under a policy that plans at
most `F` exclusions for any root list. Waiting for it ends its crawl, and it begins none by
itself. `Fits` is what all its states have in common. -/
structure Bounded (Fits : σ → Prop) (F : Nat) (known : List Bytes) : Prop where
  iterates : ∀ poll texts, (host.around poll).iterate texts ⊆ texts
  plans : ∀ values prepared, prepareRootSet host.platform (resolvePersistedRoots host.platform values) =
    .ok prepared → prepared.exclusions.length ≤ F
  kept : KeptByCalls host.library Fits
  loads : ∀ w runtime w', ({} : Client σ).ensureReady host.library host.look w = (.ok runtime, w') →
    Fits runtime.runtime
  crawls : ∀ {r} poll, Fits r → Fits (host.crawl poll r)
  waited : ∀ {r}, Fits r → Fits (host.waitForIdle r)
  reports : ∀ poll (s : Service σ), s.Has Fits → Service.Reported host.platform known
    s.maintenance.noiseTermIndex (s.shownRows host.platform (tick host iterates poll))
  waits : ∀ poll (l : Loaded σ), Fits l.runtime → (Loaded.status host.library
    (crawled host poll { l with runtime := host.waitForIdle l.runtime })).1.indexing = false
  rests : ∀ poll (l : Loaded σ), Fits l.runtime →
    (Loaded.status host.library l).1.indexing = false →
    (Loaded.status host.library (crawled host poll (Loaded.status host.library l).2)).1.indexing = false

variable {host} {Fits : σ → Prop} {F : Nat} {known : List Bytes} {s : Service σ} {poll : Nat}

/-- The exclusions of a service are those it had, or the plan for some root list. -/
def Replanned (host : WorkerHost W σ) (s t : Service σ) : Prop :=
  t.maintenance.fixedExclusions = s.maintenance.fixedExclusions ∨
    ∃ values prepared, prepareRootSet host.platform (resolvePersistedRoots host.platform values) =
      .ok prepared ∧ t.maintenance.fixedExclusions = prepared.exclusions

theorem prepareFixedMaintenance_replanned (s : Service σ) :
    Replanned host s (s.prepareFixedMaintenance host.platform host.library).2 := by
  simp only [Service.prepareFixedMaintenance]
  split
  · rename_i e u listed
    exact .inl (congrArg (·.2.maintenance.fixedExclusions) listed.symm)
  · rename_i values u listed
    split
    · exact .inl (congrArg (·.2.maintenance.fixedExclusions) listed.symm)
    · rename_i prepared planned
      exact .inr ⟨values, prepared, planned, rfl⟩

theorem scrubFixed_replanned (s : Service σ) :
    Replanned host s (s.scrubFixed host.platform host.library).2 := by
  have batch : ∀ u : Service σ, (u.applyFixed host.library
      Service.maintenanceMutationLimit).maintenance.fixedExclusions = u.maintenance.fixedExclusions := by
    intro u
    rw [Service.applyFixed_maintenance]
  have prepared := @prepareFixedMaintenance_replanned _ _ host s
  simp only [Service.scrubFixed]
  cases s.maintenance.fixedReady with
  | true => exact .inl (batch s)
  | false =>
    simp only [Bool.false_eq_true, if_false]
    generalize s.prepareFixedMaintenance host.platform host.library = outcome at prepared
    obtain ⟨ready, u⟩ := outcome
    cases ready with
    | true =>
      simp only [Replanned, if_true, batch]
      exact prepared
    | false => exact prepared

/-- A poll plans no more than `F` exclusions. -/
theorem Bounded.planned (bounded : Bounded host Fits F known)
    (before : s.maintenance.fixedExclusions.length ≤ F) :
    (s.tick host.platform (tick host bounded.iterates poll)).maintenance.fixedExclusions.length ≤ F := by
  simp only [Service.tick, Service.scrubOneBatch]
  split
  · exact before
  · split
    · exact before
    · rw [Service.scrubIdle_exclusions]
      rcases @scrubFixed_replanned _ _ host _ with same | ⟨values, prepared, planned, same⟩
      · exact (congrArg List.length same).trans_le before
      · exact (congrArg List.length same).trans_le (bounded.plans values prepared planned)

theorem pollMaintenance_eq (iterates : ∀ poll texts, (host.around poll).iterate texts ⊆ texts)
    (poll : Nat) (s : Service σ) :
    pollMaintenance host poll s =
      let u := s.tick host.platform (tick host iterates poll)
      if (u.runtime.status host.library).1.indexing then
        waitForIdle host { u with runtime := (u.runtime.status host.library).2 }
      else { u with runtime := (u.runtime.status host.library).2 } := rfl

theorem pollMaintenance_maintenance (iterates : ∀ poll texts, (host.around poll).iterate texts ⊆ texts)
    (poll : Nat) (s : Service σ) : (pollMaintenance host poll s).maintenance =
      (s.tick host.platform (tick host iterates poll)).maintenance := by
  rw [pollMaintenance_eq iterates]
  dsimp only
  split <;> rfl

theorem Bounded.tick_has (bounded : Bounded host Fits F known) (poll : Nat) (has : s.Has Fits) :
    (s.tick host.platform (tick host bounded.iterates poll)).Has Fits :=
  Service.scrubOneBatch_has (s := { s with runtime := crawled host poll s.runtime })
    bounded.kept.toKeptByPolls (host.around poll) (bounded.crawls poll has)

theorem Bounded.poll_has (bounded : Bounded host Fits F known) (poll : Nat) (has : s.Has Fits) :
    (pollMaintenance host poll s).Has Fits := by
  have seen := Service.status_has bounded.kept.toKeptByPolls (bounded.tick_has poll has)
  rw [pollMaintenance_eq bounded.iterates]
  dsimp only
  split
  · exact bounded.waited seen
  · exact seen

theorem Bounded.idle (bounded : Bounded host Fits F known) (poll next : Nat) (has : s.Has Fits) :
    (Loaded.status host.library (crawled host next (pollMaintenance host poll s).runtime)).1.indexing =
      false := by
  have ticked := bounded.tick_has poll has
  rw [pollMaintenance_eq bounded.iterates]
  dsimp only
  split
  · exact bounded.waits next _ (Service.status_has bounded.kept.toKeptByPolls ticked)
  · rename_i settled
    exact bounded.rests next _ ticked (Bool.eq_false_iff.2 settled)

/-- Between two polls the runtime is idle, and as many polls as the service has potential for
end its maintenance. -/
theorem drain_ends (bounded : Bounded host Fits F known) (left : Nat) {poll : Nat} {s : Service σ}
    (has : s.Has Fits) (accounted : s.maintenance.Accounted known)
    (few : s.maintenance.fixedExclusions.length ≤ F)
    (idle : ∀ poll, (Loaded.status host.library (crawled host poll s.runtime)).1.indexing = false)
    (enough : s.maintenance.pending = true → s.maintenance.potential F known ≤ left) :
    (drain host left poll s).maintenance.pending = false := by
  induction left generalizing poll s with
  | zero =>
    cases pending : s.maintenance.pending with
    | false => exact pending
    | true =>
      have index := accounted.index pending
      have spent := enough pending
      simp only [Maintenance.potential] at spent
      omega
  | succ left ih =>
    cases pending : s.maintenance.pending with
    | false => simp only [drain, pending, Bool.not_false, if_true]
    | true =>
      simp only [drain, pending, Bool.not_true, Bool.false_eq_true, if_false]
      have now : Service.idleAt s (tick host bounded.iterates poll) = true := by
        simp only [Service.idleAt, tick, idle poll, Bool.not_false]
      have few' := @Bounded.planned _ _ _ _ _ _ _ poll bounded few
      have used := Service.tick_uses host.platform accounted
        (t := tick host bounded.iterates poll) ⟨bounded.reports poll s has, few'⟩
      rw [now] at used
      have kept := pollMaintenance_maintenance bounded.iterates poll s
      apply ih (bounded.poll_has poll has)
      · rw [kept]
        exact used.accounted
      · rw [kept]
        exact few'
      · exact fun next => bounded.idle poll next has
      · intro still
        rw [kept] at still ⊢
        have spent := used.spends still
        have fits := enough pending
        simp only [Bool.toNat_true] at spent
        omega

theorem perform_maintenance {operation : IndexWorkerOperation} {roots : List Bytes} {t : Service σ}
    (enabled : s.maintenance.enabled = true)
    (done : perform host operation roots s = (.ok (), t)) :
    t.maintenance = { enabled := true, pending := true } := by
  cases operation with
  | reindex => exact Service.reindexAsync_maintenance enabled done
  | addRoot => exact Service.addRoot_maintenance enabled done
  | replaceRoots => exact Service.replaceRoots_maintenance enabled done

theorem Bounded.perform_has (bounded : Bounded host Fits F known) (operation : IndexWorkerOperation)
    (roots : List Bytes) (has : s.Has Fits) : (perform host operation roots s).2.Has Fits := by
  cases operation with
  | reindex => exact Service.reindexAsync_has bounded.kept has
  | addRoot => exact Service.addRoot_has bounded.kept _ has
  | replaceRoots => exact Service.replaceRoots_has bounded.kept _ has

/-- A worker that got its request accepted always sees its maintenance through. -/
theorem finish_code (bounded : Bounded host Fits F known)
    (enough : (F + 15) / 16 + known.length + 3 ≤ maintenancePollLimit)
    (diagnostic : Option (Stream W)) (w : W) (has : s.Has Fits)
    (fresh : s.maintenance = { enabled := true, pending := true }) :
    (finish host diagnostic s w).1.code = 0 ∨ (finish host diagnostic s w).1.code = 8 := by
  simp only [finish]
  split
  · exact .inr rfl
  rename_i settled
  have idle : ((waitForIdle host s).runtime.status host.library).1.indexing = false := by
    rw [Bool.or_eq_true, not_or] at settled
    exact Bool.eq_false_iff.2 settled.1
  have start : (((waitForIdle host s).call (Loaded.status host.library)).2).maintenance =
      { enabled := true, pending := true } := fresh
  have ends : (drain host maintenancePollLimit 0
      ((waitForIdle host s).call (Loaded.status host.library)).2).maintenance.pending = false := by
    have sound : ({} : Maintenance).pending = true → ({} : Maintenance).enabled = true := fun _ => rfl
    have counted := @Service.requestMaintenance_accounted _ F known
      { s with maintenance := {} } sound rfl
    have asked : ({ s with maintenance := {} } : Service σ).requestMaintenance.maintenance =
        { enabled := true, pending := true } := rfl
    rw [asked] at counted
    have waited : (waitForIdle host s).Has Fits := bounded.waited has
    refine drain_ends bounded _ (Service.status_has bounded.kept.toKeptByPolls waited) ?_ ?_
      (fun poll => bounded.rests poll _ waited idle) ?_
    · rw [start]
      exact counted.1
    · rw [start]
      exact Nat.zero_le F
    · rw [start]
      exact fun _ => counted.2.trans_le enough
  rw [ends, if_neg Bool.false_ne_true]
  split
  · exact .inr rfl
  · exact .inl rfl

/-- An idle runtime over fixed rows, on a system without fixed exclusions. -/
def catalogHost (rows : List AbiResult) : WorkerHost Unit Catalog where
  platform := .posix some
  dialect := .unixLike
  library := Catalog.library (.posix some) plainPoll
  look w := ({ libraryPath := lit "libsuch_private_runtime.so"
               create := fun _ => some { rows := rows }
               load := fun r => (true, r) }, w)
  waitForIdle r := r
  crawl _ r := r
  around _ := plainPoll.around
  openTrunc _ w := some ({ write := fun _ w => w }, w)

theorem planDefaultIndexPolicySet_posix {absolute : Bytes → Option Bytes}
    (requests : List IndexPolicyRootRequest) :
    (planDefaultIndexPolicySet (.posix absolute) requests).exclusions = [] := by
  have plain : ∀ root mode, (planDefaultIndexPolicy (.posix absolute) root mode).exclusions = [] := by
    intro root mode
    simp only [planDefaultIndexPolicy]
    split_ifs <;> rfl
  have gathered : ∀ (requests : List IndexPolicyRootRequest) (acc : Gathered), acc.out = [] →
      (∀ item, combinePlans (.posix absolute) acc requests = .error item → item.exclusions = []) ∧
        ∀ combined, combinePlans (.posix absolute) acc requests = .ok combined →
          combined.out = [] := by
    intro requests
    induction requests with
    | nil =>
      intro acc none
      simp only [combinePlans]
      refine ⟨?_, ?_⟩
      · rintro item ⟨⟩
      · rintro combined ⟨⟩
        exact none
    | cons request rest ih =>
      intro acc none
      simp only [combinePlans]
      split_ifs
      · refine ⟨?_, ?_⟩
        · rintro item ⟨⟩
          exact plain _ _
        · rintro combined ⟨⟩
      · rw [plain]
        exact ih acc none
  simp only [planDefaultIndexPolicySet]
  split <;> rename_i combined made
  · exact (gathered requests {} rfl).1 combined made
  · simp only [(gathered requests {} rfl).2 combined made, List.filter_nil]

/-- A maintenance query presents rows of the index. -/
theorem queriedRows_catalog {platform : Platform} {p : Poll} {s : Service Catalog} {row : ResultItem}
    (shown : row ∈ s.queriedRows (Catalog.library platform p) p.around) :
    ∃ listed ∈ s.rows, row = appendResult listed := by
  simp only [Service.queriedRows] at shown
  split at shown
  · cases shown
  rename_i term named
  obtain ⟨outcome, called, -, items⟩ :=
    @search_noise platform p s _ (List.mem_of_getElem? named)
  rw [called, items] at shown
  obtain ⟨listed, taken, rfl⟩ := List.mem_map.1 shown
  have found := List.mem_of_mem_filter (List.mem_of_mem_take taken)
  exact ⟨listed, List.mem_of_mem_filter ((p.order_perm _).mem_iff.1 found), rfl⟩

/-- No call of a catalog changes its rows. -/
theorem catalog_kept (platform : Platform) (p : Poll) (rows : List AbiResult) :
    KeptByCalls (Catalog.library platform p) (·.rows = rows) where
  listRoots held := held
  setIndexed _ _ held := held
  status held := held
  addRoot _ held := held
  removeRoot _ held := held
  replaceRoots _ held := held
  reindexAsync held := held

/-- Rows whose noise prefixes are all known keep a worker's polls within its budget. -/
theorem catalogHost_bounded {rows : List AbiResult} {known : List Bytes}
    (covered : ∀ term ∈ Service.noiseTerms, ∀ row ∈ rows, ∀ noisePath ∈
      defaultNoiseDirectoryPrefix .posix (abiText row.path) term, noisePath ∈ known) :
    Bounded (catalogHost rows) (·.rows = rows) 0 known where
  iterates _ _ := List.Subset.refl _
  plans values prepared planned := by
    simp only [prepareRootSet] at planned
    split_ifs at planned
    cases planned
    exact (congrArg List.length (planDefaultIndexPolicySet_posix _)).le
  kept := catalog_kept (.posix some) plainPoll rows
  loads w runtime w' loaded := by
    cases loaded
    rfl
  crawls _ held := held
  waited held := held
  reports poll s has := by
    intro term named row shown noisePath found
    simp only [Service.shownRows] at shown
    split at shown
    · simp only [Service.idleRows] at shown
      split at shown
      · cases shown
      · obtain ⟨listed, member, rfl⟩ := queriedRows_catalog shown
        have kept := (catalog_kept (.posix some) plainPoll rows).toKeptByPolls
        have held : (Service.scrubFixed (.posix some) (Catalog.library (.posix some) plainPoll)
            { s with runtime := (Loaded.status (Catalog.library (.posix some) plainPoll)
              s.runtime).2 }).2.rows = rows :=
          Service.scrubFixed_has kept (Service.status_has kept has)
        exact covered term (List.mem_of_getElem? named) listed (held ▸ member) noisePath found
    · cases shown
  waits _ _ _ := rfl
  rests _ _ _ _ := rfl

theorem readWorker_error {argv : List Bytes} {code : Int} (rejected : readWorker argv = .error code) :
    code = 2 := by
  simp only [readWorker] at rejected
  split at rejected
  · exact (Except.error.inj rejected).symm
  split at rejected
  · exact (Except.error.inj rejected).symm
  split_ifs at rejected <;> exact (Except.error.inj rejected).symm

/-- With at most `F` planned exclusions and a known stock of noise trees that together fit into
the polls a worker makes, no request ends in unfinished maintenance. -/
theorem maintenance_finishes (bounded : Bounded host Fits F known)
    (enough : (F + 15) / 16 + known.length + 3 ≤ maintenancePollLimit) (argv : List Bytes) (w : W) :
    (runIndexWorker host argv w).1.code ∈ ([0, 2, 5, 6, 8] : List Int) := by
  simp only [runIndexWorker]
  split
  · rename_i code rejected
    simp [readWorker_error rejected]
  rename_i operation options asked
  split
  · simp [fail]
  rename_i runtime w' loaded
  have performed := bounded.perform_has (s := serve host runtime) operation options.roots
    (bounded.loads _ runtime w' loaded)
  simp only [carryOut]
  split
  · simp [fail]
  rename_i t accepted
  rw [accepted] at performed
  have fresh := perform_maintenance (s := serve host runtime) rfl accepted
  rcases finish_code bounded enough (openDiagnostic host options w).1 w' performed fresh with
    code | code <;> simp [code]

/-- Five polls would do for two noise directories. -/
theorem two_noise_files_finish :
    (runIndexWorker (catalogHost [namedRow 2 "config.txt" "/r/.git/config.txt",
      namedRow 3 "main.js" "/r/node_modules/a/main.js"])
      [lit "SuchCLI", lit "--index-worker", lit "reindex"] ()).1.code ∈
        ([0, 2, 5, 6, 8] : List Int) :=
  maintenance_finishes (@catalogHost_bounded _ [lit "/r/.git", lit "/r/node_modules"]
    (by decide +kernel)) (by decide) _ ()

end Such.IndexWorker

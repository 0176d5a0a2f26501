import Such.Runtime.RuntimeClient

/-! The result rows a frontend shows without a runtime, in its demonstration mode. -/
namespace Such.ResultView
open ByteText CivilTime SearchDialect RuntimeClient

def demoItem (fileId : UInt64) (filename path ext : String) (pinned : Bool) : ResultItem where
  fileId := fileId
  filename := lit filename
  path := lit path
  extension := lit ext
  pinned := pinned

def demoSeed : PlatformDialect → List ResultItem
  | .windows => [
    demoItem 1 "project_report.pdf" "X:\\Project\\Reports\\2026\\project_report.pdf" "pdf" true,
    demoItem 2 "hospital_plan.dwg" "X:\\Architecture\\Competition\\hospital_plan.dwg" "dwg" false,
    demoItem 3 "SearchRuntime.cpp" "X:\\Such\\src\\runtime\\SearchRuntime.cpp" "cpp" false,
    demoItem 4 "budget_summary.xlsx" "X:\\Finance\\Q3\\budget_summary.xlsx" "xlsx" true,
    demoItem 5 "weekly_notes.txt" "X:\\Notes\\weekly_notes.txt" "txt" false]
  | .unixLike => [
    demoItem 1 "project_report.pdf" "/Project/Reports/2026/project_report.pdf" "pdf" true,
    demoItem 2 "hospital_plan.dwg" "/Architecture/Competition/hospital_plan.dwg" "dwg" false,
    demoItem 3 "SearchRuntime.cpp" "/Such/src/runtime/SearchRuntime.cpp" "cpp" false,
    demoItem 4 "budget_summary.xlsx" "/Finance/Q3/budget_summary.xlsx" "xlsx" true,
    demoItem 5 "weekly_notes.txt" "/Notes/weekly_notes.txt" "txt" false]

def containsCi (haystack needle : Bytes) : Bool := occursIn (lower needle) (lower haystack)

def makeDemoResults (zone : Zone) (query : Bytes) (dialect : PlatformDialect) (now : Int) :
    List ResultItem :=
  let filter := parseSearchQuery zone dialect now [] query
  ((demoSeed dialect).filter fun item =>
    item.authorized && (!filter.pinnedOnly || item.pinned) &&
      (filter.extensions.isEmpty || filter.extensions.contains (lower item.extension)) &&
      containsCi (item.filename ++ 32 :: item.path) filter.text).take 5

end Such.ResultView

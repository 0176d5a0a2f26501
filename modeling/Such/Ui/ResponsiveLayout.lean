import Mathlib.Data.Rat.Defs
import Mathlib.Algebra.Order.Ring.Rat

/-! Sizes and rectangles of the search window, in exact arithmetic. The square root of
the C library is a parameter. -/
namespace Such.ResponsiveLayout

/-- `std::clamp`. -/
def clamp {α : Type*} [LT α] [DecidableLT α] (v lo hi : α) : α :=
  if v < lo then lo else if hi < v then hi else v

theorem clamp_bounds {v lo hi : ℚ} (order : lo ≤ hi) : lo ≤ clamp v lo hi ∧ clamp v lo hi ≤ hi := by
  simp only [clamp]
  split_ifs with low high
  · exact ⟨le_rfl, order⟩
  · exact ⟨order, le_rfl⟩
  · exact ⟨not_lt.1 low, not_lt.1 high⟩

theorem clamp_of_mem {v lo hi : ℚ} (low : lo ≤ v) (high : v ≤ hi) : clamp v lo hi = v := by
  simp only [clamp]
  rw [if_neg (not_lt.2 low), if_neg (not_lt.2 high)]

structure RectF where
  x : ℚ
  y : ℚ
  width : ℚ
  height : ℚ
deriving DecidableEq, Repr

structure ResponsiveMetrics where
  width : ℚ
  height : ℚ
  sidePadding : ℚ
  topPadding : ℚ
  bottomPadding : ℚ
  searchHeight : ℚ
  searchToResultsGap : ℚ
  statusHeight : ℚ
  statusToResultsGap : ℚ
  rowHeight : ℚ
  rowGap : ℚ
  swipeActionWidth : ℚ
  visibleResults : Int
deriving DecidableEq, Repr

structure WindowLayout where
  metrics : ResponsiveMetrics
  search : RectF
  status : RectF
  resultsViewport : RectF
deriving DecidableEq, Repr

/-- How many rows of one stride fit, the last gap not counted. -/
def visibleRows (height rowHeight rowGap : ℚ) : Int :=
  if 0 < rowHeight + rowGap then max 0 ((height + rowGap) / (rowHeight + rowGap)).floor else 0

section Layout
variable (sqrt : ℚ → ℚ)

def computeResponsiveMetrics (widthDip heightDip : ℚ) : ResponsiveMetrics :=
  let width := max widthDip 360
  let height := max heightDip 300
  let softScale := sqrt (clamp (width / 760) (72 / 100) (165 / 100))
  let topPadding := clamp (height * (28 / 1000)) 12 22
  let bottomPadding := clamp (height * (20 / 1000)) 10 18
  let searchHeight := clamp (48 * softScale) 44 58
  let searchToResultsGap := clamp (6 * softScale) 5 8
  let statusHeight := clamp (22 * softScale) 20 26
  let statusToResultsGap := clamp (8 * softScale) 7 11
  let rowGap := clamp (7 * softScale) 5 9
  let rowHeight := clamp (64 * softScale) 54 74
  let resultsTop := topPadding + searchHeight + searchToResultsGap + statusHeight + statusToResultsGap
  { width, height, topPadding, bottomPadding, searchHeight, searchToResultsGap, statusHeight,
    statusToResultsGap, rowGap, rowHeight,
    sidePadding := clamp (width * (26 / 1000)) 14 26
    swipeActionWidth := clamp (72 * softScale) 66 82
    visibleResults := visibleRows (max 0 (height - resultsTop - bottomPadding)) rowHeight rowGap }

def computeWindowLayout (widthDip heightDip : ℚ) : WindowLayout :=
  let m := computeResponsiveMetrics sqrt widthDip heightDip
  let inner := max 1 (m.width - m.sidePadding * 2)
  let statusY := m.topPadding + m.searchHeight + m.searchToResultsGap
  let resultsY := statusY + m.statusHeight + m.statusToResultsGap
  { metrics := m
    search := ⟨m.sidePadding, m.topPadding, inner, m.searchHeight⟩
    status := ⟨m.sidePadding, statusY, inner, m.statusHeight⟩
    resultsViewport := ⟨m.sidePadding, resultsY, inner, max 0 (m.height - resultsY - m.bottomPadding)⟩ }

end Layout

def resultRowRect (layout : WindowLayout) (index : Nat) (scrollOffset : ℚ) : RectF where
  x := layout.resultsViewport.x
  y := layout.resultsViewport.y + index * (layout.metrics.rowHeight + layout.metrics.rowGap) -
    max 0 scrollOffset
  width := layout.resultsViewport.width
  height := layout.metrics.rowHeight

def resultContentHeight (layout : WindowLayout) (count : Nat) : ℚ :=
  if count = 0 then 0
  else count * layout.metrics.rowHeight + (count - 1 : Nat) * layout.metrics.rowGap

def maxResultScroll (layout : WindowLayout) (count : Nat) : ℚ :=
  max 0 (resultContentHeight layout count - layout.resultsViewport.height)

end Such.ResponsiveLayout

import Mathlib.Tactic.Ring
import Such.Base.RowStrip
import Such.Platform.X11Frontend

/-! Result rows under the pointer, on the screen and in sight: the three computations of the X11
frontend are about the same rectangles, in every layout it can have. -/
namespace Such.X11Frontend
open ByteText ResponsiveLayout SearchDialect RowStrip

def rowStride (layout : WindowLayout) : ℚ := layout.metrics.rowHeight + layout.metrics.rowGap

/-- `hit_row` for a list of `count` results scrolled by `scroll`. -/
def hitRowIn (layout : WindowLayout) (count : Nat) (scroll x y : ℚ) : Int :=
  let viewport := layout.resultsViewport
  if x < viewport.x ∨ viewport.x + viewport.width ≤ x ∨ y < viewport.y ∨
      viewport.y + viewport.height ≤ y then -1
  else if rowStride layout ≤ 0 then -1
  else
    let index := ((y - viewport.y + scroll) / rowStride layout).floor
    if index < 0 ∨ (count : Int) ≤ index then -1
    else
      let row := resultRowRect layout index.toNat scroll
      if row.y ≤ y ∧ y < row.y + row.height then index else -1

/-- The first row that drawing visits. -/
def firstRow (layout : WindowLayout) (scroll : ℚ) : Int :=
  if 0 < rowStride layout then max 0 (scroll / rowStride layout).floor else 0

/-- The row that drawing stops before. -/
def lastRow (layout : WindowLayout) (count : Nat) (scroll : ℚ) : Int :=
  min count (firstRow layout scroll + max 2 (layout.metrics.visibleResults + 2))

/-- The scroll offset after `ensure_selected_visible`. -/
def shownScroll (layout : WindowLayout) (count : Nat) (scroll : ℚ) (selected : Nat) : ℚ :=
  let viewport := layout.resultsViewport
  let row := resultRowRect layout selected scroll
  let moved :=
    if row.y < viewport.y then selected * rowStride layout
    else if viewport.y + viewport.height < row.y + row.height then
      scroll + (row.y + row.height - (viewport.y + viewport.height))
    else scroll
  clamp moved 0 (maxResultScroll layout count)

/-- Rectangles hold their left and upper edges. -/
def Inside (r : RectF) (x y : ℚ) : Prop :=
  r.x ≤ x ∧ x < r.x + r.width ∧ r.y ≤ y ∧ y < r.y + r.height

/-- Two rectangles have a point in common. -/
def Meets (r q : RectF) : Prop := ∃ x y, Inside r x y ∧ Inside q x y

/-- What the rows of a list under one layout and offset have to satisfy together. -/
structure RowsAgree (layout : WindowLayout) (count : Nat) (scroll : ℚ) : Prop where
  hits : ∀ (x y : ℚ) (i : Nat), hitRowIn layout count scroll x y = i ↔
    i < count ∧ Inside layout.resultsViewport x y ∧ Inside (resultRowRect layout i scroll) x y
  drawn : ∀ i < count, Meets (resultRowRect layout i scroll) layout.resultsViewport →
    firstRow layout scroll ≤ i ∧ (i : Int) < lastRow layout count scroll
  range : ∀ i < count, 0 ≤ shownScroll layout count scroll i ∧
    shownScroll layout count scroll i ≤ maxResultScroll layout count
  shown : ∀ i < count, layout.metrics.rowHeight ≤ layout.resultsViewport.height →
    layout.resultsViewport.y ≤ (resultRowRect layout i (shownScroll layout count scroll i)).y ∧
      (resultRowRect layout i (shownScroll layout count scroll i)).y + layout.metrics.rowHeight ≤
        layout.resultsViewport.y + layout.resultsViewport.height

/-- What the computations need of a layout. -/
structure HasRows (layout : WindowLayout) : Prop where
  height : 0 < layout.metrics.rowHeight
  gap : 0 ≤ layout.metrics.rowGap
  visible : layout.metrics.visibleResults =
    visibleRows layout.resultsViewport.height layout.metrics.rowHeight layout.metrics.rowGap

theorem hasRows_computeWindowLayout (sqrt : ℚ → ℚ) (width height : ℚ) :
    HasRows (computeWindowLayout sqrt width height) where
  height := by
    have order : (54 : ℚ) ≤ 74 := by norm_num
    have bound := (clamp_bounds (v := 64 * sqrt (clamp (max width 360 / 760)
      (72 / 100) (165 / 100))) order).1
    simp only [computeWindowLayout, computeResponsiveMetrics]
    linarith
  gap := by
    have order : (5 : ℚ) ≤ 9 := by norm_num
    have bound := (clamp_bounds (v := 7 * sqrt (clamp (max width 360 / 760)
      (72 / 100) (165 / 100))) order).1
    simp only [computeWindowLayout, computeResponsiveMetrics]
    linarith
  visible := rfl

theorem visibleRows_scale {k : ℚ} (positive : 0 < k) (height rowHeight rowGap : ℚ) :
    visibleRows (height * k) (rowHeight * k) (rowGap * k) = visibleRows height rowHeight rowGap := by
  have stride : rowHeight * k + rowGap * k = (rowHeight + rowGap) * k := by ring
  have room : height * k + rowGap * k = (height + rowGap) * k := by ring
  have sign : 0 < (rowHeight + rowGap) * k ↔ 0 < rowHeight + rowGap := mul_pos_iff_of_pos_right positive
  simp only [visibleRows, stride, room, sign, mul_div_mul_right _ _ positive.ne']

theorem hasRows_x11Layout {W σ : Type} (host : X11Host W σ) (s : UiState W σ) :
    HasRows (s.x11Layout host) := by
  have scale : 0 < max (1 / 2) s.uiScale := lt_of_lt_of_le (by norm_num) (le_max_left _ _)
  have plain := hasRows_computeWindowLayout host.sqrt (s.width / max (1 / 2) s.uiScale)
    (s.height / max (1 / 2) s.uiScale)
  have height := mul_pos plain.height scale
  have gap := mul_nonneg plain.gap scale.le
  simp only [UiState.x11Layout]
  split
  · exact ⟨height, gap, rfl⟩
  · refine ⟨height, gap, plain.visible.trans ?_⟩
    exact (visibleRows_scale scale _ _ _).symm

section Rows
variable {layout : WindowLayout} (rows : HasRows layout) {count : Nat} {scroll : ℚ}

def HasRows.strip : Strip where
  height := layout.metrics.rowHeight
  gap := layout.metrics.rowGap
  height_pos := rows.height
  gap_nonneg := rows.gap

theorem HasRows.row_y (low : 0 ≤ scroll) (i : Nat) : (resultRowRect layout i scroll).y =
    layout.resultsViewport.y + rows.strip.top i - scroll := by
  have offset : max 0 scroll = scroll := max_eq_right low
  simp only [resultRowRect, offset]
  rfl

include rows

theorem HasRows.rowStride_pos : 0 < rowStride layout := rows.strip.stride_pos

theorem HasRows.hitRowIn_iff (low : 0 ≤ scroll) (x y : ℚ) (i : Nat) :
    hitRowIn layout count scroll x y = i ↔
      i < count ∧ Inside layout.resultsViewport x y ∧ Inside (resultRowRect layout i scroll) x y := by
  have noRow : (-1 : Int) ≠ i := by omega
  have top := rows.row_y low i
  have inStrip : layout.resultsViewport.y + rows.strip.top i - scroll ≤ y ∧
      y < layout.resultsViewport.y + rows.strip.top i - scroll + layout.metrics.rowHeight →
        ((y - layout.resultsViewport.y + scroll) / rowStride layout).floor = i := by
    rintro ⟨above, below⟩
    refine rows.strip.floor_of_inside ?_ ?_
    · linarith
    · change _ < rows.strip.top i + layout.metrics.rowHeight
      linarith
  have inside : ∀ index : Int, index = i → index.toNat = i := by
    intro index same
    omega
  simp only [hitRowIn, if_neg (not_le.2 rows.rowStride_pos)]
  split
  · rename_i outside
    refine iff_of_false noRow ?_
    rintro ⟨-, ⟨left, right, upper, lower⟩, -⟩
    rcases outside with h | h | h | h <;> linarith
  rename_i seen
  simp only [not_or, not_lt, not_le] at seen
  obtain ⟨left, right, upper, lower⟩ := seen
  split
  · rename_i beyond
    refine iff_of_false noRow ?_
    rintro ⟨valid, -, -, -, rowTop, rowBottom⟩
    rw [top] at rowTop rowBottom
    have index := inStrip ⟨rowTop, rowBottom⟩
    rw [index] at beyond
    omega
  rename_i valid
  split
  · rename_i onRow
    constructor
    · intro index
      rw [inside _ index] at onRow
      exact ⟨by omega, ⟨left, right, upper, lower⟩, left, right, onRow⟩
    · rintro ⟨-, -, -, -, rowTop, rowBottom⟩
      rw [top] at rowTop rowBottom
      exact inStrip ⟨rowTop, rowBottom⟩
  · rename_i inGap
    refine iff_of_false noRow ?_
    rintro ⟨-, -, -, -, rowTop, rowBottom⟩
    rw [inside _ (inStrip ⟨top ▸ rowTop, top ▸ rowBottom⟩)] at inGap
    exact inGap ⟨rowTop, rowBottom⟩

theorem HasRows.drawn (low : 0 ≤ scroll) {i : Nat} (inside : i < count)
    (meets : Meets (resultRowRect layout i scroll) layout.resultsViewport) :
    firstRow layout scroll ≤ i ∧ (i : Int) < lastRow layout count scroll := by
  obtain ⟨x, y, ⟨-, -, rowTop, rowBottom⟩, -, -, viewTop, viewBottom⟩ := meets
  rw [rows.row_y low] at rowTop rowBottom
  have height : (resultRowRect layout i scroll).height = rows.strip.height := rfl
  rw [height] at rowBottom
  have first : (scroll / rowStride layout).floor ≤ i := rows.strip.first_le (by linarith)
  have last : (i : Int) < (scroll / rowStride layout).floor +
      ((layout.resultsViewport.height + layout.metrics.rowGap) / rowStride layout).floor + 2 :=
    rows.strip.lt_last (by linarith)
  have visible : layout.metrics.visibleResults = max 0
      ((layout.resultsViewport.height + layout.metrics.rowGap) / rowStride layout).floor := by
    rw [rows.visible]
    exact if_pos rows.rowStride_pos
  have start : firstRow layout scroll = max 0 (scroll / rowStride layout).floor :=
    if_pos rows.rowStride_pos
  have reach : ((layout.resultsViewport.height + layout.metrics.rowGap) / rowStride layout).floor + 2 ≤
      max 2 (layout.metrics.visibleResults + 2) := by
    refine le_max_of_le_right ?_
    rw [visible]
    exact Int.add_le_add_right (le_max_right _ _) 2
  rw [lastRow, start]
  refine ⟨max_le (by omega) first, lt_min (by omega) ?_⟩
  have begin_ := le_max_right 0 (scroll / rowStride layout).floor
  omega

theorem HasRows.shownScroll_eq (low : 0 ≤ scroll) (high : scroll ≤ maxResultScroll layout count)
    {i : Nat} (inside : i < count) : shownScroll layout count scroll i =
      rows.strip.reveal scroll layout.resultsViewport.height i := by
  obtain ⟨least, most⟩ := rows.strip.reveal_range low high inside
  have height : (resultRowRect layout i scroll).height = rows.strip.height := rfl
  have moved : (i : ℚ) * rowStride layout = rows.strip.top i := rfl
  have above : layout.resultsViewport.y + rows.strip.top i - scroll < layout.resultsViewport.y ↔
      rows.strip.top i < scroll := by
    constructor <;> intro order <;> linarith
  have below : layout.resultsViewport.y + layout.resultsViewport.height <
      layout.resultsViewport.y + rows.strip.top i - scroll + rows.strip.height ↔
        scroll + layout.resultsViewport.height < rows.strip.top i + rows.strip.height := by
    constructor <;> intro order <;> linarith
  have shift : scroll + (layout.resultsViewport.y + rows.strip.top i - scroll + rows.strip.height -
      (layout.resultsViewport.y + layout.resultsViewport.height)) =
        rows.strip.top i + rows.strip.height - layout.resultsViewport.height := by
    ring
  simp only [shownScroll, rows.row_y low, height, moved, above, below, shift]
  exact clamp_of_mem least most

/-- Hit testing, drawing and scrolling agree on the rows of every list. -/
theorem HasRows.agree (low : 0 ≤ scroll) (high : scroll ≤ maxResultScroll layout count) :
    RowsAgree layout count scroll where
  hits := rows.hitRowIn_iff low
  drawn i inside meets := rows.drawn low inside meets
  range i inside := by
    rw [rows.shownScroll_eq low high inside]
    exact rows.strip.reveal_range low high inside
  shown i inside fits := by
    have range := rows.strip.reveal_range low high inside
    have shows : rows.strip.reveal scroll layout.resultsViewport.height i ≤ rows.strip.top i ∧
        rows.strip.top i + rows.strip.height ≤
          rows.strip.reveal scroll layout.resultsViewport.height i +
            layout.resultsViewport.height := rows.strip.reveal_shows fits
    obtain ⟨top, bottom⟩ := shows
    have height : layout.metrics.rowHeight = rows.strip.height := rfl
    rw [rows.shownScroll_eq low high inside, rows.row_y range.1, height]
    constructor <;> linarith

end Rows

section Frontend
variable {W σ : Type} (host : X11Host W σ) (s : UiState W σ)

theorem hitRow_eq (x y : Int) : s.hitRow host x y =
    hitRowIn (s.x11Layout host) s.results.length s.scrollDip x y := rfl

theorem ensureSelectedVisible_eq (chosen : 0 ≤ s.selected) :
    s.ensureSelectedVisible host = { s with
      scrollDip := shownScroll (s.x11Layout host) s.results.length s.scrollDip s.selected.toNat } := by
  have cast : (s.selected : ℚ) = (s.selected.toNat : ℚ) := by
    rw [← Int.cast_natCast, Int.toNat_of_nonneg chosen]
  simp only [UiState.ensureSelectedVisible, if_neg (not_lt.2 chosen), cast]
  rfl

/-- In every layout the window can have, scaled and drilled or not, and at every offset in range:
a point hits the row whose rectangle it is in, drawing visits every row in sight, and a selected
row is brought into sight. -/
theorem resultRows_agree :
    (∀ (sqrt : ℚ → ℚ) (width height : ℚ) (count : Nat) (scroll : ℚ), 0 ≤ scroll →
      scroll ≤ maxResultScroll (computeWindowLayout sqrt width height) count →
      RowsAgree (computeWindowLayout sqrt width height) count scroll) ∧
    (0 ≤ s.scrollDip → s.scrollDip ≤ maxResultScroll (s.x11Layout host) s.results.length →
      RowsAgree (s.x11Layout host) s.results.length s.scrollDip) ∧
    (∀ x y : Int, s.hitRow host x y =
      hitRowIn (s.x11Layout host) s.results.length s.scrollDip x y) ∧
    (0 ≤ s.selected → s.ensureSelectedVisible host = { s with
      scrollDip := shownScroll (s.x11Layout host) s.results.length s.scrollDip s.selected.toNat }) := by
  refine ⟨?_, ?_, hitRow_eq host s, ensureSelectedVisible_eq host s⟩
  · intro sqrt width height count scroll low high
    exact (hasRows_computeWindowLayout sqrt width height).agree low high
  · intro low high
    exact (hasRows_x11Layout host s).agree low high

end Frontend
end Such.X11Frontend

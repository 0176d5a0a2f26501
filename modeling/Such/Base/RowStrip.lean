import Mathlib.Algebra.Order.Field.Rat
import Mathlib.Tactic.Linarith

/-! Rows of one height, one gap apart, seen through a window that is scrolled along them: which
row a point is in, which rows a window can show, and how far to scroll for one row. -/
namespace RowStrip

structure Strip where
  height : ℚ
  gap : ℚ
  height_pos : 0 < height
  gap_nonneg : 0 ≤ gap

namespace Strip
variable (s : Strip)

def stride : ℚ := s.height + s.gap

/-- Where a row begins. -/
def top (i : Nat) : ℚ := i * s.stride

/-- The end of the last of `n` rows. -/
def content (n : Nat) : ℚ := if n = 0 then 0 else n * s.height + (n - 1 : Nat) * s.gap

theorem stride_pos : 0 < s.stride := by
  have height := s.height_pos
  have gap := s.gap_nonneg
  simp only [stride]
  linarith

theorem height_le_stride : s.height ≤ s.stride := by
  have gap := s.gap_nonneg
  simp only [stride]
  linarith

theorem top_nonneg (i : Nat) : 0 ≤ s.top i :=
  mul_nonneg (Nat.cast_nonneg i) s.stride_pos.le

theorem top_succ (i : Nat) : s.top (i + 1) = s.top i + s.stride := by
  simp only [top]
  push_cast
  linarith

theorem top_mono {i j : Nat} (order : i ≤ j) : s.top i ≤ s.top j :=
  mul_le_mul_of_nonneg_right (Nat.cast_le.2 order) s.stride_pos.le

theorem content_succ (n : Nat) : s.content (n + 1) = s.top n + s.height := by
  simp only [content, top, stride, Nat.add_one_ne_zero, if_false, Nat.add_sub_cancel]
  push_cast
  linarith

/-- Every row ends within the content. -/
theorem bottom_le_content {i n : Nat} (inside : i < n) : s.top i + s.height ≤ s.content n := by
  obtain ⟨m, rfl⟩ := Nat.exists_eq_succ_of_ne_zero (Nat.ne_zero_of_lt inside)
  have order := s.top_mono (Nat.lt_succ_iff.1 inside)
  rw [Nat.succ_eq_add_one, content_succ]
  linarith

/-- The strides a distance is made of number the row it ends in. -/
theorem floor_eq_iff {p : ℚ} {i : Nat} :
    (p / s.stride).floor = i ↔ s.top i ≤ p ∧ p < s.top (i + 1) := by
  have below : (i : Int) ≤ (p / s.stride).floor ↔ s.top i ≤ p := by
    rw [Rat.le_floor_iff, le_div_iff₀ s.stride_pos]
    rfl
  have above : (p / s.stride).floor < (i + 1 : Nat) ↔ p < s.top (i + 1) := by
    rw [Rat.floor_lt_iff, div_lt_iff₀ s.stride_pos]
    rfl
  rw [← below, ← above]
  omega

/-- A point inside a row is in no other. -/
theorem floor_of_inside {p : ℚ} {i : Nat} (low : s.top i ≤ p) (high : p < s.top i + s.height) :
    (p / s.stride).floor = i := by
  have height := s.height_le_stride
  rw [floor_eq_iff, top_succ]
  exact ⟨low, by linarith⟩

/-- A row that ends behind the scroll offset is not before the first one visited. -/
theorem first_le {scroll : ℚ} {i : Nat} (ends : scroll < s.top i + s.height) :
    (scroll / s.stride).floor ≤ i := by
  have height := s.height_le_stride
  have before : (scroll / s.stride).floor < (i + 1 : Nat) := by
    rw [Rat.floor_lt_iff, div_lt_iff₀ s.stride_pos]
    change scroll < s.top (i + 1)
    rw [top_succ]
    linarith
  omega

/-- A row that begins before the window's end is among the whole strides that fit and two more. -/
theorem lt_last {scroll window : ℚ} {i : Nat} (begins : s.top i < scroll + window) :
    (i : Int) < (scroll / s.stride).floor + ((window + s.gap) / s.stride).floor + 2 := by
  have positive := s.stride_pos
  have first := Rat.lt_floor_add_one (scroll / s.stride)
  have second := Rat.lt_floor_add_one ((window + s.gap) / s.stride)
  rw [div_lt_iff₀ positive] at first second
  by_contra late
  have rows : ((scroll / s.stride).floor + 1 : Int) + (((window + s.gap) / s.stride).floor + 1 : Int) ≤
      ((i : Int) : ℚ) := by
    exact_mod_cast (by omega)
  have far := mul_le_mul_of_nonneg_right rows positive.le
  have gap := s.gap_nonneg
  simp only [top] at begins
  push_cast at first second far
  linarith

/-- The scroll offset that shows a row: its top, if it is above the window, or the offset that
puts its bottom on the window's, if it is below. -/
def reveal (scroll window : ℚ) (i : Nat) : ℚ :=
  if s.top i < scroll then s.top i
  else if scroll + window < s.top i + s.height then s.top i + s.height - window
  else scroll

/-- The largest offset at which the window does not run past the content. -/
def maxScroll (window : ℚ) (n : Nat) : ℚ := max 0 (s.content n - window)

variable {scroll window : ℚ} {i n : Nat}

theorem reveal_range (low : 0 ≤ scroll) (high : scroll ≤ s.maxScroll window n) (inside : i < n) :
    0 ≤ s.reveal scroll window i ∧ s.reveal scroll window i ≤ s.maxScroll window n := by
  have ends := s.bottom_le_content inside
  have begins := s.top_nonneg i
  have room : s.content n - window ≤ s.maxScroll window n := le_max_right _ _
  simp only [reveal]
  split_ifs with above below
  · exact ⟨begins, by linarith⟩
  · exact ⟨by linarith, by linarith⟩
  · exact ⟨low, high⟩

/-- A row no higher than the window is then wholly inside it. -/
theorem reveal_shows (fits : s.height ≤ window) :
    s.reveal scroll window i ≤ s.top i ∧
      s.top i + s.height ≤ s.reveal scroll window i + window := by
  simp only [reveal]
  split_ifs with above below
  · exact ⟨le_rfl, by linarith⟩
  · exact ⟨by linarith, by linarith⟩
  · exact ⟨not_lt.1 above, not_lt.1 below⟩

end Strip
end RowStrip

import Mathlib.Tactic.Linarith
import Such.Base.DrivenMachine
import Such.Ui.SwipeActions

/-! A swipe controller without leading actions, over every sequence of calls: the row never
moves to the right or past the overdrag of the widest tray, and an open row at rest shows the
whole tray. -/
namespace Such.SwipeActions
open ResponsiveLayout DrivenMachine

inductive Call where
  | start (row : Int) (x y : ℚ)
  | update (x y dt : ℚ)
  | finish (rowWidth : ℚ)
  | close
  | setActionTrayWidth (width : ℚ)
deriving DecidableEq, Repr

def Call.apply (c : SwipeController) : Call → SwipeController
  | .start row x y => c.start row x y
  | .update x y dt => c.update x y dt
  | .finish rowWidth => (c.finish rowWidth).2
  | .close => c.close
  | .setActionTrayWidth width => c.setActionTrayWidth width

/-- A controller beside the largest tray width it has had so far. -/
structure Session where
  controller : SwipeController
  widest : ℚ
deriving DecidableEq, Repr

def Session.begin (c : SwipeController) : Session := ⟨c, c.trayWidth⟩

def Session.step (s : Session) (call : Call) : Option Session :=
  some ⟨call.apply s.controller, max s.widest (call.apply s.controller).trayWidth⟩

/-- What every call keeps holds in every session. -/
theorem forall_session (Inv : Session → Prop)
    (keeps : ∀ (s : Session) (call : Call), Inv s →
      Inv ⟨call.apply s.controller, max s.widest (call.apply s.controller).trayWidth⟩)
    {s : Session} (begun : Inv s) (calls : List Call) : ∀ t ∈ trail Session.step s calls, Inv t := by
  refine forall_trail_of_keeps ?_ begun
  intro s call t kept steps
  obtain rfl := Option.some.inj steps
  exact keeps s call kept

/-- What every call keeps, with `widest` a bound on the tray widths. -/
structure WithinTray (widest : ℚ) (c : SwipeController) : Prop where
  trailingOnly : c.allowLeadingActions = false
  positive : 1 ≤ c.trayWidth
  tray : c.trayWidth ≤ widest
  side : c.state.side ≠ .leading
  low : -(widest * (145 / 100)) ≤ c.state.offset
  high : c.state.offset ≤ 0
  startLow : -(widest * (145 / 100)) ≤ c.initialOffset
  startHigh : c.initialOffset ≤ 0
  rests : c.isOpen = true → c.state.dragging = false → c.state.offset = -c.trayWidth

variable {widest : ℚ} {c : SwipeController}

theorem sideOf_ne_leading {offset : ℚ} (high : offset ≤ 0) : sideOf offset ≠ .leading := by
  simp only [sideOf]
  split_ifs with trailing leading
  · simp
  · linarith
  · simp

theorem overdrag_nonneg {trayWidth : ℚ} (positive : 1 ≤ trayWidth) :
    0 ≤ trayWidth * (145 / 100) := by
  linarith

theorem isOpen_of_row {c : SwipeController} (row : c.state.row = -1) : c.isOpen = false := by
  simp [SwipeController.isOpen, row]

namespace WithinTray

theorem widest_nonneg (within : WithinTray widest c) : 0 ≤ widest * (145 / 100) :=
  overdrag_nonneg (within.positive.trans within.tray)

theorem mono {wider : ℚ} (within : WithinTray widest c) (order : widest ≤ wider) :
    WithinTray wider c := by
  have low := within.low
  have startLow := within.startLow
  exact { within with
    tray := within.tray.trans order
    low := by linarith
    startLow := by linarith }

theorem close (within : WithinTray widest c) : WithinTray widest c.close where
  trailingOnly := within.trailingOnly
  positive := within.positive
  tray := within.tray
  side := by simp [SwipeController.close]
  low := neg_nonpos.2 within.widest_nonneg
  high := le_rfl
  startLow := neg_nonpos.2 within.widest_nonneg
  startHigh := le_rfl
  rests isOpen := by simp [isOpen_of_row (c := c.close) rfl] at isOpen

/-- A drag given up leaves no row open. -/
theorem release (within : WithinTray widest c) : WithinTray widest c.release where
  trailingOnly := within.trailingOnly
  positive := within.positive
  tray := within.tray
  side := by simp [SwipeController.release]
  low := within.low
  high := within.high
  startLow := within.startLow
  startHigh := within.startHigh
  rests isOpen := by simp [isOpen_of_row (c := c.release) rfl] at isOpen

theorem start (within : WithinTray widest c) (row : Int) (x y : ℚ) :
    WithinTray widest (c.start row x y) := by
  have bounds : ∀ same : Prop, [Decidable same] →
      -(widest * (145 / 100)) ≤ (if same then c.state.offset else 0) ∧
        (if same then c.state.offset else 0) ≤ 0 := by
    intro same _
    split_ifs
    · exact ⟨within.low, within.high⟩
    · exact ⟨neg_nonpos.2 within.widest_nonneg, le_rfl⟩
  obtain ⟨low, high⟩ := bounds (c.isOpen ∧ c.state.row = row)
  exact {
    trailingOnly := within.trailingOnly
    positive := within.positive
    tray := within.tray
    side := sideOf_ne_leading high
    low := low
    high := high
    startLow := low
    startHigh := high
    rests := fun _ resting => by cases resting }

/-- The pointer is followed up to the overdrag of the present tray. -/
theorem follow (within : WithinTray widest c) (dragging : c.state.dragging = true) (x dt : ℚ) :
    WithinTray widest (c.follow x dt) := by
  have positive := within.positive
  have tray := within.tray
  have order : -(c.trayWidth * (145 / 100)) ≤ 0 := neg_nonpos.2 (overdrag_nonneg positive)
  have bounds := clamp_bounds (v := c.initialOffset + (x - c.startX)) order
  have offset : (c.follow x dt).state.offset =
      clamp (c.initialOffset + (x - c.startX)) (-(c.trayWidth * (145 / 100))) 0 := by
    simp only [SwipeController.follow, within.trailingOnly]
    rfl
  have side : (c.follow x dt).state.side = sideOf (c.follow x dt).state.offset := rfl
  rw [← offset] at bounds
  exact {
    trailingOnly := within.trailingOnly
    positive := positive
    tray := tray
    side := side ▸ sideOf_ne_leading bounds.2
    low := by linarith
    high := bounds.2
    startLow := within.startLow
    startHigh := within.startHigh
    rests := by
      intro _ resting
      have kept : (c.follow x dt).state.dragging = c.state.dragging := rfl
      rw [kept, dragging] at resting
      cases resting }

theorem update (within : WithinTray widest c) (x y dt : ℚ) : WithinTray widest (c.update x y dt) := by
  simp only [SwipeController.update]
  split
  · exact within
  rename_i drag
  have dragging : c.state.dragging = true := by simpa using drag
  split
  · exact within.follow dragging x dt
  split
  · exact within
  split
  · exact within.release
  split
  · exact within.release
  · have latched : WithinTray widest { c with latched := true, state.horizontalLocked := true } := {
      within with rests := fun _ resting => by simp [dragging] at resting }
    exact latched.follow dragging x dt

/-- A swipe ends closed or with the whole tray shown. -/
theorem finish (within : WithinTray widest c) (rowWidth : ℚ) :
    WithinTray widest (c.finish rowWidth).2 := by
  have rest : c.restOffset = -c.trayWidth := if_neg within.side
  have positive := within.positive
  have tray := within.tray
  have shown : WithinTray widest
      { c with state.dragging := false, state.offset := c.restOffset } := {
    within with
    low := by
      change -(widest * (145 / 100)) ≤ c.restOffset
      linarith
    high := by
      change c.restOffset ≤ 0
      linarith
    rests := fun _ _ => rest }
  have plain : (c.allowLeadingActions && decide (c.state.side = .leading)) = false := by
    rw [within.trailingOnly, Bool.false_and]
  simp only [SwipeController.finish, plain, Bool.false_and, Bool.false_eq_true, if_false]
  split
  · exact within
  split
  · exact within.close
  split
  · exact within.close
  split
  · exact shown
  · exact within.close

theorem setActionTrayWidth (within : WithinTray widest c) (width : ℚ) :
    WithinTray (max widest (c.setActionTrayWidth width).trayWidth) (c.setActionTrayWidth width) := by
  have wider := within.mono (le_max_left widest (c.setActionTrayWidth width).trayWidth)
  have tray : (c.setActionTrayWidth width).trayWidth = max 1 width := by
    simp only [SwipeController.setActionTrayWidth]
    split <;> rfl
  rw [tray] at wider ⊢
  have positive : 1 ≤ max 1 width := le_max_left _ _
  have reach : max 1 width ≤ max widest (max 1 width) := le_max_right _ _
  have rest : { c with trayWidth := max 1 width }.restOffset = -max 1 width := if_neg within.side
  simp only [SwipeController.setActionTrayWidth]
  split
  · exact { wider with
      positive := positive
      tray := reach
      low := by
        change _ ≤ { c with trayWidth := max 1 width }.restOffset
        linarith
      high := by
        change { c with trayWidth := max 1 width }.restOffset ≤ 0
        linarith
      rests := fun _ _ => rest }
  · rename_i unmoved
    refine { wider with positive := positive, tray := reach, rests := ?_ }
    intro isOpen resting
    exact absurd (by rw [isOpen, resting]; rfl) unmoved

theorem apply (within : WithinTray widest c) (call : Call) :
    WithinTray (max widest (call.apply c).trayWidth) (call.apply c) := by
  cases call with
  | start row x y => exact (within.start row x y).mono (le_max_left _ _)
  | update x y dt => exact (within.update x y dt).mono (le_max_left _ _)
  | finish rowWidth => exact (within.finish rowWidth).mono (le_max_left _ _)
  | close => exact within.close.mono (le_max_left _ _)
  | setActionTrayWidth width => exact within.setActionTrayWidth width

theorem construct (width : ℚ) : WithinTray (SwipeController.construct width false).trayWidth
    (SwipeController.construct width false) where
  trailingOnly := rfl
  positive := le_max_left _ _
  tray := le_rfl
  side := by simp [SwipeController.construct]
  low := neg_nonpos.2 (overdrag_nonneg (le_max_left 1 width))
  high := le_rfl
  startLow := neg_nonpos.2 (overdrag_nonneg (le_max_left 1 width))
  startHigh := le_rfl
  rests isOpen := by
    simp [isOpen_of_row (c := SwipeController.construct width false) rfl] at isOpen

end WithinTray

/-- After any calls on a new controller without leading actions, no leading side has come up, the
offset is between the overdrag of the widest tray so far and nothing, and a row that is open
with no drag active shows exactly the tray. -/
theorem trail_withinTray (width : ℚ) (calls : List Call) :
    ∀ s ∈ trail Session.step (.begin (SwipeController.construct width false)) calls,
      s.controller.state.side ≠ .leading ∧
      -(145 / 100 * s.widest) ≤ s.controller.state.offset ∧ s.controller.state.offset ≤ 0 ∧
      (s.controller.isOpen = true → s.controller.state.dragging = false →
        s.controller.state.offset = -s.controller.trayWidth) := by
  intro s member
  have within := forall_session (fun s => WithinTray s.widest s.controller)
    (fun _ call within => within.apply call) (WithinTray.construct width) calls s member
  have low := within.low
  exact ⟨within.side, by linarith, within.high, within.rests⟩

/-- A swipe over half a tray. -/
theorem trail_withinTray_swipe :
    let calls := [.start 0 300 20, .update 190 20 (1 / 2), .finish 1000]
    let s := outcome Session.step (.begin (.construct 216 false)) calls
    s.controller.isOpen = true ∧ s.controller.state.offset = -s.controller.trayWidth := by
  intro calls s
  have within := trail_withinTray 216 calls s (outcome_mem_trail _ calls)
  have isOpen : s.controller.isOpen = true := by decide +kernel
  have resting : s.controller.state.dragging = false := by decide +kernel
  exact ⟨isOpen, within.2.2.2 isOpen resting⟩

end Such.SwipeActions

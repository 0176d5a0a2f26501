import Such.Ui.SwipeActions.TrayBounds

/-! A swipe controller with leading actions, under a gesture and its mirror image. Dragging is
symmetric; lifting the pointer is not, as the leading side never opens. -/
namespace Such.SwipeActions
open ResponsiveLayout DrivenMachine

structure Move where
  x : ℚ
  y : ℚ
  dt : ℚ
deriving DecidableEq, Repr

/-- The pointer goes down on a row, moves, and is lifted. -/
structure Gesture where
  row : Int
  x : ℚ
  y : ℚ
  moves : List Move
  rowWidth : ℚ
deriving DecidableEq, Repr

/-- The point as far on the other side of the axis. -/
def reflect (axis x : ℚ) : ℚ := axis - (x - axis)

def Move.mirror (axis : ℚ) (m : Move) : Move := { m with x := reflect axis m.x }

/-- All horizontal displacements are negated. -/
def Gesture.mirror (g : Gesture) : Gesture := { g with moves := g.moves.map (Move.mirror g.x) }

def Move.apply (c : SwipeController) (m : Move) : SwipeController := c.update m.x m.y m.dt

/-- The controller before the pointer is lifted. -/
def Gesture.drag (c : SwipeController) (g : Gesture) : SwipeController :=
  g.moves.foldl Move.apply (c.start g.row g.x g.y)

def Gesture.run (c : SwipeController) (g : Gesture) : Option ResultAction × SwipeController :=
  (g.drag c).finish g.rowWidth

def SwipeSide.exchange : SwipeSide → SwipeSide
  | .inactive => .inactive
  | .leading => .trailing
  | .trailing => .leading

structure Mirrored (s t : ResultSwipeState) : Prop where
  row : t.row = s.row
  dragging : t.dragging = s.dragging
  side : t.side = s.side.exchange
  offset : t.offset = -s.offset

/-- The point has left the box in which a gesture has no direction yet. -/
def Gesture.leavesBox (g : Gesture) (m : Move) : Bool :=
  decide (9 ≤ |m.x - g.x|) || decide (9 ≤ |m.y - g.y|)

def Gesture.horizontal (g : Gesture) (m : Move) : Bool :=
  decide (|m.y - g.y| * (115 / 100) < |m.x - g.x|)

/-- The gesture is mainly horizontal where it first leaves the box. -/
def Gesture.locksOn (g : Gesture) : Bool :=
  (g.moves.find? g.leavesBox).any g.horizontal

/-- How far from its start the gesture ends. -/
def Gesture.reach (g : Gesture) : ℚ :=
  |(g.moves.map Move.x).getLastD g.x - g.x|

/-- The gesture asks for an open row: it locks on, and its end shows a third of a tray. -/
def Gesture.pullsOpen (trayWidth : ℚ) (g : Gesture) : Bool :=
  g.locksOn && decide (1 / 2 < g.reach) && decide (trayWidth * (34 / 100) ≤ g.reach)

theorem reflect_sub (axis x y : ℚ) : reflect axis x - reflect axis y = -(x - y) := by
  simp only [reflect]
  linarith

theorem reflect_self (axis : ℚ) : reflect axis axis = axis := by
  simp only [reflect, sub_self, sub_zero]

theorem clamp_neg {v bound : ℚ} (positive : 0 ≤ bound) :
    clamp (-v) (-bound) bound = -clamp v (-bound) bound := by
  simp only [clamp]
  split_ifs <;> linarith

theorem sideOf_neg (offset : ℚ) : sideOf (-offset) = (sideOf offset).exchange := by
  simp only [sideOf]
  split_ifs <;> first | rfl | linarith

/-- What a controller with leading actions keeps. -/
structure TwoSided (c : SwipeController) : Prop where
  leading : c.allowLeadingActions = true
  positive : 1 ≤ c.trayWidth

def ResultSwipeState.mirror (s : ResultSwipeState) : ResultSwipeState :=
  { s with offset := -s.offset, velocity := -s.velocity, side := s.side.exchange }

def SwipeController.mirror (axis : ℚ) (c : SwipeController) : SwipeController :=
  { c with
    initialOffset := -c.initialOffset
    startX := reflect axis c.startX
    lastX := reflect axis c.lastX
    state := c.state.mirror }

variable {c : SwipeController} {axis : ℚ}

theorem TwoSided.mirror (sides : TwoSided c) : TwoSided (c.mirror axis) :=
  ⟨sides.leading, sides.positive⟩

theorem TwoSided.lock (sides : TwoSided c) :
    TwoSided { c with latched := true, state.horizontalLocked := true } :=
  ⟨sides.leading, sides.positive⟩

theorem mirror_side {side : SwipeSide} (shown : c.state.side = side) :
    (c.mirror axis).state.side = side.exchange := congrArg SwipeSide.exchange shown

theorem follow_mirror (sides : TwoSided c) (axis x dt : ℚ) :
    (c.mirror axis).follow (reflect axis x) dt = (c.follow x dt).mirror axis := by
  have positive : 0 ≤ c.trayWidth * (145 / 100) := overdrag_nonneg sides.positive
  have reached : -c.initialOffset + (reflect axis x - reflect axis c.startX) =
      -(c.initialOffset + (x - c.startX)) := by
    rw [reflect_sub]
    linarith
  have velocity : (if 1 / 10000 < dt then (reflect axis x - reflect axis c.lastX) / dt
      else -c.state.velocity) = -(if 1 / 10000 < dt then (x - c.lastX) / dt
      else c.state.velocity) := by
    rw [reflect_sub, neg_div]
    split_ifs <;> rfl
  simp only [SwipeController.follow, SwipeController.mirror, ResultSwipeState.mirror,
    sides.leading, if_true, reached, clamp_neg positive, sideOf_neg, velocity]

/-- A move and its reflection take mirrored controllers to mirrored controllers. -/
theorem update_mirror (sides : TwoSided c) (axis x y dt : ℚ) :
    (c.mirror axis).update (reflect axis x) y dt = (c.update x y dt).mirror axis := by
  have across : |reflect axis x - reflect axis c.startX| = |x - c.startX| := by
    rw [reflect_sub, abs_neg]
  have start : (c.mirror axis).startX = reflect axis c.startX := rfl
  have height : (c.mirror axis).startY = c.startY := rfl
  have dragging : (c.mirror axis).state.dragging = c.state.dragging := rfl
  have latched : (c.mirror axis).latched = c.latched := rfl
  have both : (!c.allowLeadingActions) = false := by rw [sides.leading, Bool.not_true]
  have either : (!(c.mirror axis).allowLeadingActions) = false := both
  simp only [SwipeController.update, start, height, dragging, latched, both, either, across,
    Bool.false_eq_true, false_and, if_false]
  split
  · rfl
  split
  · exact follow_mirror sides axis x dt
  split
  · rfl
  split
  · rfl
  · exact follow_mirror sides.lock axis x dt

theorem TwoSided.update (sides : TwoSided c) (x y dt : ℚ) : TwoSided (c.update x y dt) := by
  have positive := sides.positive
  simp only [SwipeController.update]
  split_ifs <;> exact ⟨sides.leading, positive⟩

theorem foldl_mirror (sides : TwoSided c) (axis : ℚ) (moves : List Move) :
    (moves.map (Move.mirror axis)).foldl Move.apply (c.mirror axis) =
      (moves.foldl Move.apply c).mirror axis := by
  induction moves generalizing c with
  | nil => rfl
  | cons m rest ih =>
    have moved : (m.mirror axis).apply (c.mirror axis) = (m.apply c).mirror axis :=
      update_mirror sides axis m.x m.y m.dt
    have further := ih (sides.update m.x m.y m.dt)
    rw [List.map_cons, List.foldl_cons, List.foldl_cons, moved]
    exact further

theorem start_closed (closed : c.isOpen = false) (row : Int) (x y : ℚ) :
    c.start row x y = { c with
      initialOffset := 0, startX := x, lastX := x, startY := y, latched := false
      state := { row := row, dragging := true } } := by
  have fresh : ¬ (c.isOpen = true ∧ c.state.row = row) := by simp [closed]
  have middle : sideOf 0 = .inactive := by norm_num [sideOf]
  simp only [SwipeController.start, if_neg fresh, middle]

/-- A closed controller is dragged by the mirrored gesture to the mirrored controller. -/
theorem drag_mirror (sides : TwoSided c) (closed : c.isOpen = false) (g : Gesture) :
    g.mirror.drag c = (g.drag c).mirror g.x := by
  have begun := start_closed closed g.row g.x g.y
  have unmoved : (c.start g.row g.x g.y).mirror g.x = c.start g.row g.x g.y := by
    simp only [begun, SwipeController.mirror, ResultSwipeState.mirror, reflect_self, neg_zero,
      SwipeSide.exchange]
  have two : TwoSided (c.start g.row g.x g.y) := ⟨sides.leading, sides.positive⟩
  have dragged := foldl_mirror two g.x g.moves
  rw [unmoved] at dragged
  exact dragged

/-- The drag of a closed row has no direction yet. -/
structure Waiting (g : Gesture) (c : SwipeController) : Prop extends TwoSided c where
  dragging : c.state.dragging = true
  unlatched : c.latched = false
  origin : c.startX = g.x ∧ c.startY = g.y ∧ c.initialOffset = 0
  offset : c.state.offset = 0
  side : c.state.side = .inactive

/-- The row follows the pointer. -/
structure Following (g : Gesture) (c : SwipeController) : Prop extends TwoSided c where
  dragging : c.state.dragging = true
  latched : c.latched = true
  origin : c.startX = g.x ∧ c.initialOffset = 0
  offset : c.state.offset =
    clamp (c.lastX - g.x) (-(c.trayWidth * (145 / 100))) (c.trayWidth * (145 / 100))
  side : c.state.side = sideOf c.state.offset

/-- The row has not moved, and is not going to when the pointer is lifted. -/
structure Still (c : SwipeController) : Prop where
  offset : c.state.offset = 0
  side : c.state.side = .inactive
  unlatched : c.state.dragging = true → c.latched = false

variable {g : Gesture}

theorem following_follow (sides : TwoSided c) (dragging : c.state.dragging = true)
    (latched : c.latched = true) (origin : c.startX = g.x ∧ c.initialOffset = 0) (x dt : ℚ) :
    Following g (c.follow x dt) where
  leading := sides.leading
  positive := sides.positive
  dragging := dragging
  latched := latched
  origin := origin
  offset := by
    simp only [SwipeController.follow, sides.leading, if_true, origin.1, origin.2, zero_add]
  side := rfl

theorem Following.apply (following : Following g c) (m : Move) :
    Following g (m.apply c) ∧ (m.apply c).lastX = m.x := by
  have moved : m.apply c = c.follow m.x m.dt := by
    simp only [Move.apply, SwipeController.update, following.dragging, following.latched,
      Bool.not_true, Bool.false_eq_true, if_false, if_true]
  rw [moved]
  exact ⟨following_follow following.toTwoSided following.dragging following.latched
    following.origin m.x m.dt, rfl⟩

theorem Following.foldl (following : Following g c) (moves : List Move) :
    Following g (moves.foldl Move.apply c) ∧
      (moves.foldl Move.apply c).lastX = (moves.map Move.x).getLastD c.lastX := by
  induction moves generalizing c with
  | nil => exact ⟨following, rfl⟩
  | cons m rest ih =>
    obtain ⟨kept, last⟩ := following.apply m
    obtain ⟨ends, reached⟩ := ih kept
    refine ⟨ends, ?_⟩
    rw [List.foldl_cons, reached, last, List.map_cons, List.getLastD_cons]

/-- A drag that was given up stays so. -/
theorem foldl_released (released : c.state.dragging = false) (moves : List Move) :
    moves.foldl Move.apply c = c := by
  induction moves with
  | nil => rfl
  | cons m rest ih =>
    have unmoved : m.apply c = c := by
      simp only [Move.apply, SwipeController.update, released, Bool.not_false, if_true]
    rw [List.foldl_cons, unmoved, ih]

theorem leavesBox_iff (m : Move) :
    g.leavesBox m = true ↔ ¬ (|m.x - g.x| < 9 ∧ |m.y - g.y| < 9) := by
  simp only [Gesture.leavesBox, Bool.or_eq_true, decide_eq_true_iff, not_and_or, not_lt]

theorem Waiting.stay (waiting : Waiting g c) {m : Move} (inside : g.leavesBox m = false) :
    m.apply c = c := by
  obtain ⟨startX, startY, -⟩ := waiting.origin
  have near : |m.x - c.startX| < 9 ∧ |m.y - c.startY| < 9 := by
    by_contra far
    rw [startX, startY, ← leavesBox_iff, inside] at far
    cases far
  simp only [Move.apply, SwipeController.update, waiting.dragging, waiting.unlatched, near,
    Bool.not_true, Bool.false_eq_true, and_self, if_false, if_true]

theorem Waiting.follow (waiting : Waiting g c) {m : Move} (outside : g.leavesBox m = true)
    (horizontal : g.horizontal m = true) :
    Following g (m.apply c) ∧ (m.apply c).lastX = m.x := by
  obtain ⟨startX, startY, initial⟩ := waiting.origin
  have far : ¬ (|m.x - c.startX| < 9 ∧ |m.y - c.startY| < 9) := by
    rw [startX, startY, ← leavesBox_iff]
    exact outside
  have flat : ¬ |m.x - c.startX| ≤ |m.y - c.startY| * (115 / 100) := by
    rw [startX, startY, not_le]
    exact of_decide_eq_true horizontal
  have both : (!c.allowLeadingActions) = false := by rw [waiting.leading, Bool.not_true]
  have moved : m.apply c =
      { c with latched := true, state.horizontalLocked := true }.follow m.x m.dt := by
    simp only [Move.apply, SwipeController.update, waiting.dragging, waiting.unlatched, far, flat,
      both, Bool.not_true, Bool.false_eq_true, false_and, if_false]
  rw [moved]
  exact ⟨following_follow waiting.toTwoSided.lock waiting.dragging rfl ⟨startX, initial⟩ m.x m.dt,
    rfl⟩

theorem Waiting.release (waiting : Waiting g c) {m : Move} (outside : g.leavesBox m = true)
    (vertical : g.horizontal m = false) : m.apply c = c.release := by
  obtain ⟨startX, startY, -⟩ := waiting.origin
  have far : ¬ (|m.x - c.startX| < 9 ∧ |m.y - c.startY| < 9) := by
    rw [startX, startY, ← leavesBox_iff]
    exact outside
  have steep : |m.x - c.startX| ≤ |m.y - c.startY| * (115 / 100) := by
    rw [startX, startY]
    exact not_lt.1 (of_decide_eq_false vertical)
  simp only [Move.apply, SwipeController.update, waiting.dragging, waiting.unlatched, far, steep,
    Bool.not_true, Bool.false_eq_true, if_false, if_true]

/-- The first point outside the box decides what becomes of a drag. -/
theorem Waiting.foldl (waiting : Waiting g c) (moves : List Move) :
    ((moves.find? g.leavesBox).any g.horizontal = true →
      Following g (moves.foldl Move.apply c) ∧
        ∀ x, (moves.foldl Move.apply c).lastX = (moves.map Move.x).getLastD x) ∧
    ((moves.find? g.leavesBox).any g.horizontal = false → Still (moves.foldl Move.apply c)) := by
  induction moves with
  | nil =>
    constructor
    · intro none
      cases none
    · intro _
      exact ⟨waiting.offset, waiting.side, fun _ => waiting.unlatched⟩
  | cons m rest ih =>
    rw [List.foldl_cons]
    cases leaves : g.leavesBox m with
    | false =>
      rw [List.find?_cons_of_neg (by simp [leaves]), waiting.stay leaves]
      obtain ⟨follows, still⟩ := ih
      refine ⟨fun locks => ⟨(follows locks).1, fun x => ?_⟩, still⟩
      rw [List.map_cons, List.getLastD_cons]
      exact (follows locks).2 m.x
    | true =>
      rw [List.find?_cons_of_pos leaves, Option.any_some]
      constructor
      · intro horizontal
        obtain ⟨first, moved⟩ := waiting.follow leaves horizontal
        obtain ⟨ends, last⟩ := first.foldl rest
        refine ⟨ends, fun x => ?_⟩
        rw [last, moved, List.map_cons, List.getLastD_cons]
      · intro vertical
        rw [waiting.release leaves vertical, foldl_released (c := c.release) rfl]
        exact ⟨waiting.offset, rfl, fun dragging => by cases dragging⟩

theorem waiting_start (sides : TwoSided c) (closed : c.isOpen = false) (g : Gesture) :
    Waiting g (c.start g.row g.x g.y) := by
  rw [start_closed closed]
  exact {
    leading := sides.leading
    positive := sides.positive
    dragging := rfl
    unlatched := rfl
    origin := ⟨rfl, rfl, rfl⟩
    offset := rfl
    side := rfl }

theorem exchange_exchange (side : SwipeSide) : side.exchange.exchange = side := by
  cases side <;> rfl

theorem Mirrored.symm {s t : ResultSwipeState} (mirrored : Mirrored s t) : Mirrored t s where
  row := mirrored.row.symm
  dragging := mirrored.dragging.symm
  side := by rw [mirrored.side, exchange_exchange]
  offset := by rw [mirrored.offset, neg_neg]

theorem mirrored_closed : Mirrored {} {} where
  row := rfl
  dragging := rfl
  side := rfl
  offset := neg_zero.symm

theorem Still.finish (still : Still c) (rowWidth : ℚ) :
    (c.finish rowWidth).2.state = if c.state.dragging then {} else c.state := by
  cases dragging : c.state.dragging with
  | false =>
    simp only [SwipeController.finish, dragging, Bool.not_false, Bool.false_eq_true, if_true,
      if_false]
  | true =>
    simp only [SwipeController.finish, dragging, still.unlatched dragging, Bool.not_true,
      Bool.false_eq_true, Bool.not_false, if_true, if_false, SwipeController.close]

theorem Still.mirrored (still : Still c) (axis rowWidth : ℚ) :
    Mirrored (c.finish rowWidth).2.state ((c.mirror axis).finish rowWidth).2.state := by
  have reflected : Still (c.mirror axis) := {
    offset := by
      change -c.state.offset = 0
      rw [still.offset, neg_zero]
    side := mirror_side still.side
    unlatched := still.unlatched }
  have dragging : (c.mirror axis).state.dragging = c.state.dragging := rfl
  rw [still.finish, reflected.finish, dragging]
  split
  · exact mirrored_closed
  · exact ⟨rfl, rfl, rfl, rfl⟩

variable {rowWidth : ℚ}

/-- A row let go on the leading side is closed, unless its action was armed. -/
theorem finish_leading (sides : TwoSided c) (dragging : c.state.dragging = true)
    (latched : c.latched = true) (side : c.state.side = .leading) (right : 0 < c.state.offset)
    (unarmed : (c.finish rowWidth).1 = none) : (c.finish rowWidth).2.state = {} := by
  have positive := sides.positive
  have beyond : -c.trayWidth * (34 / 100) < c.state.offset := by linarith
  simp only [SwipeController.finish, dragging, latched, side, sides.leading, beyond, Bool.not_true,
    Bool.false_eq_true, if_false, decide_true, Bool.true_and, or_true, if_true] at unarmed ⊢
  split at unarmed
  · cases unarmed
  · rename_i armed
    rw [if_neg armed]
    rfl

theorem finish_inactive (dragging : c.state.dragging = true) (latched : c.latched = true)
    (side : c.state.side = .inactive) (rowWidth : ℚ) : (c.finish rowWidth).2.state = {} := by
  simp [SwipeController.finish, dragging, latched, side, SwipeController.close]

/-- A row let go on the trailing side is opened from a third of the tray on. -/
theorem finish_trailing (dragging : c.state.dragging = true)
    (latched : c.latched = true) (side : c.state.side = .trailing) (left : c.state.offset < 0)
    (rowWidth : ℚ) :
    (c.finish rowWidth).2.state =
      if c.trayWidth * (34 / 100) ≤ |c.state.offset| then
        { c.state with dragging := false, offset := -c.trayWidth }
      else {} := by
  have width : |c.state.offset| = -c.state.offset := abs_of_neg left
  by_cases far : c.trayWidth * (34 / 100) ≤ |c.state.offset|
  · have shown : ¬ -(c.trayWidth * (34 / 100)) < c.state.offset := by linarith
    simp [SwipeController.finish, dragging, latched, side, far, shown, SwipeController.restOffset]
  · have short : -(c.trayWidth * (34 / 100)) < c.state.offset := by linarith
    simp [SwipeController.finish, dragging, latched, side, far, short, SwipeController.close]

theorem sideOf_cases (offset : ℚ) :
    (sideOf offset = .trailing ∧ offset < 0 ∧ 1 / 2 < |offset|) ∨
    (sideOf offset = .leading ∧ 0 < offset ∧ 1 / 2 < |offset|) ∨
    (sideOf offset = .inactive ∧ |offset| ≤ 1 / 2) := by
  simp only [sideOf]
  split_ifs with left right
  · have negative : offset < 0 := by linarith
    refine Or.inl ⟨rfl, negative, ?_⟩
    rw [abs_of_neg negative]
    linarith
  · have positive : 0 < offset := by linarith
    refine Or.inr (Or.inl ⟨rfl, positive, ?_⟩)
    rw [abs_of_pos positive]
    exact right
  · exact Or.inr (Or.inr ⟨rfl, abs_le.2 ⟨not_lt.1 left, not_lt.1 right⟩⟩)

/-- A trailing row and its mirror image end alike exactly if the trailing one is not opened. -/
theorem mirrored_trailing_iff (sides : TwoSided c) (dragging : c.state.dragging = true)
    (latched : c.latched = true) (side : c.state.side = .trailing) (left : c.state.offset < 0)
    (axis rowWidth : ℚ) (unarmed : ((c.mirror axis).finish rowWidth).1 = none) :
    Mirrored (c.finish rowWidth).2.state ((c.mirror axis).finish rowWidth).2.state ↔
      ¬ c.trayWidth * (34 / 100) ≤ |c.state.offset| := by
  have leading : (c.mirror axis).state.side = .leading := mirror_side side
  have right : 0 < (c.mirror axis).state.offset := neg_pos.2 left
  have closed := finish_leading sides.mirror dragging latched leading right unarmed
  have opened := finish_trailing dragging latched side left rowWidth
  rw [closed, opened]
  split
  · rename_i far
    have positive := sides.positive
    refine ⟨fun mirrored => ?_, fun short => absurd far short⟩
    have offset : (0 : ℚ) = -(-c.trayWidth) := mirrored.offset
    linarith
  · rename_i short
    exact ⟨fun _ => short, fun _ => mirrored_closed⟩

theorem mirror_mirror (axis : ℚ) (c : SwipeController) : (c.mirror axis).mirror axis = c := by
  have twice : ∀ x, reflect axis (reflect axis x) = x := by
    intro x
    simp only [reflect]
    linarith
  simp only [SwipeController.mirror, ResultSwipeState.mirror, neg_neg, exchange_exchange, twice]

/-- A latched row and its mirror image end alike exactly if neither shows a third of a tray. -/
theorem mirrored_following_iff (following : Following g c) (axis : ℚ)
    (unarmed : (c.finish rowWidth).1 = none)
    (mirrorUnarmed : ((c.mirror axis).finish rowWidth).1 = none) :
    Mirrored (c.finish rowWidth).2.state ((c.mirror axis).finish rowWidth).2.state ↔
      ¬ (1 / 2 < |c.state.offset| ∧ c.trayWidth * (34 / 100) ≤ |c.state.offset|) := by
  have sides := following.toTwoSided
  have dragging := following.dragging
  have latched := following.latched
  have shown := following.side
  rcases sideOf_cases c.state.offset with ⟨side, left, wide⟩ | ⟨side, right, wide⟩ | ⟨side, narrow⟩
  · rw [mirrored_trailing_iff sides dragging latched (shown.trans side) left axis rowWidth
      mirrorUnarmed]
    simp only [wide, true_and]
  · have trailing : (c.mirror axis).state.side = .trailing := mirror_side (shown.trans side)
    have left : (c.mirror axis).state.offset < 0 := neg_neg_iff_pos.2 right
    have width : |(c.mirror axis).state.offset| = |c.state.offset| := abs_neg c.state.offset
    have tray : (c.mirror axis).trayWidth = c.trayWidth := rfl
    have back := mirrored_trailing_iff sides.mirror dragging latched trailing left axis rowWidth
      (by rw [mirror_mirror]; exact unarmed)
    rw [mirror_mirror, width, tray] at back
    simp only [wide, true_and, ← back]
    exact ⟨Mirrored.symm, Mirrored.symm⟩
  · have inactive : (c.mirror axis).state.side = .inactive := mirror_side (shown.trans side)
    rw [finish_inactive dragging latched (shown.trans side),
      finish_inactive (c := c.mirror axis) dragging latched inactive]
    simp only [not_lt.2 narrow, false_and, not_false_eq_true, iff_true]
    exact mirrored_closed

theorem abs_clamp {v bound : ℚ} (positive : 0 ≤ bound) :
    |clamp v (-bound) bound| = min |v| bound := by
  simp only [clamp]
  split_ifs with low high
  · rw [abs_neg, abs_of_nonneg positive, min_eq_right]
    exact le_trans (by linarith) (neg_le_abs v)
  · rw [abs_of_nonneg positive, min_eq_right]
    exact high.le.trans (le_abs_self v)
  · rw [min_eq_left]
    exact abs_le.2 ⟨not_lt.1 low, not_lt.1 high⟩

theorem trayWidth_update (c : SwipeController) (x y dt : ℚ) :
    (c.update x y dt).trayWidth = c.trayWidth := by
  simp only [SwipeController.update]
  split_ifs <;> rfl

theorem trayWidth_drag (c : SwipeController) (g : Gesture) :
    (g.drag c).trayWidth = c.trayWidth := by
  have kept : ∀ (moves : List Move) (c : SwipeController),
      (moves.foldl Move.apply c).trayWidth = c.trayWidth := by
    intro moves
    induction moves with
    | nil => exact fun _ => rfl
    | cons m rest ih => exact fun c => (ih (m.apply c)).trans (trayWidth_update c m.x m.y m.dt)
  exact kept g.moves (c.start g.row g.x g.y)

/-- The overdrag is far beyond what opens a tray. -/
theorem Following.le_abs_offset (following : Following g c) {least : ℚ}
    (within : least ≤ c.trayWidth * (145 / 100)) :
    least ≤ |c.state.offset| ↔ least ≤ |c.lastX - g.x| := by
  rw [following.offset, abs_clamp (overdrag_nonneg following.positive), le_min_iff,
    and_iff_left within]

theorem Following.lt_abs_offset (following : Following g c) :
    1 / 2 < |c.state.offset| ↔ 1 / 2 < |c.lastX - g.x| := by
  have positive := following.positive
  have within : 1 / 2 < c.trayWidth * (145 / 100) := by linarith
  rw [following.offset, abs_clamp (overdrag_nonneg positive), lt_min_iff, and_iff_left within]

/-- A gesture on a closed row and its mirror image end alike exactly if the gesture does not
pull the tray open. -/
theorem mirrored_run_iff (sides : TwoSided c) (closed : c.isOpen = false) (g : Gesture)
    (unarmed : (g.run c).1 = none) (mirrorUnarmed : (g.mirror.run c).1 = none) :
    Mirrored (g.run c).2.state (g.mirror.run c).2.state ↔ g.pullsOpen c.trayWidth = false := by
  have reflected : g.mirror.run c = ((g.drag c).mirror g.x).finish g.rowWidth := by
    rw [← drag_mirror sides closed]
    rfl
  rw [reflected] at mirrorUnarmed ⊢
  obtain ⟨follows, still⟩ := (waiting_start sides closed g).foldl g.moves
  cases locks : g.locksOn with
  | false =>
    simp only [Gesture.pullsOpen, locks, Bool.false_and, iff_true]
    exact (still locks).mirrored g.x g.rowWidth
  | true =>
    obtain ⟨following, last⟩ : Following g (g.drag c) ∧
        ∀ x, (g.drag c).lastX = (g.moves.map Move.x).getLastD x := follows locks
    have positive := sides.positive
    have tray := trayWidth_drag c g
    have reach : |(g.drag c).lastX - g.x| = g.reach := by rw [last g.x, Gesture.reach]
    have within : c.trayWidth * (34 / 100) ≤ (g.drag c).trayWidth * (145 / 100) := by
      rw [tray]
      linarith
    have third := following.le_abs_offset within
    have half := following.lt_abs_offset
    have ends := mirrored_following_iff following g.x unarmed mirrorUnarmed
    rw [reach] at third half
    rw [tray, third, half] at ends
    rw [Gesture.run, ends]
    simp only [Gesture.pullsOpen, locks, Bool.true_and, Bool.and_eq_false_iff,
      decide_eq_false_iff_not, not_and_or]

theorem TwoSided.apply (sides : TwoSided c) (call : Call) : TwoSided (call.apply c) := by
  cases call with
  | start row x y => exact ⟨sides.leading, sides.positive⟩
  | update x y dt => exact sides.update x y dt
  | finish rowWidth =>
    have leading := sides.leading
    have positive := sides.positive
    simp only [Call.apply, SwipeController.finish]
    split_ifs <;> exact ⟨leading, positive⟩
  | close => exact ⟨sides.leading, sides.positive⟩
  | setActionTrayWidth width =>
    have leading := sides.leading
    simp only [Call.apply, SwipeController.setActionTrayWidth]
    split <;> exact ⟨leading, le_max_left 1 width⟩

/-- With leading actions, a gesture on a closed row that arms no full action, nor does its
mirror image, ends in the mirrored state exactly if it does not pull the tray open: pulled to
the left it opens the row, pulled to the right it closes it. -/
theorem run_mirrored_iff (width : ℚ) (calls : List Call) :
    ∀ s ∈ trail Session.step (.begin (.construct width true)) calls,
      s.controller.isOpen = false →
      ∀ g : Gesture, (g.run s.controller).1 = none → (g.mirror.run s.controller).1 = none →
        (Mirrored (g.run s.controller).2.state (g.mirror.run s.controller).2.state ↔
          g.pullsOpen s.controller.trayWidth = false) := by
  have begun : TwoSided (Session.begin (.construct width true)).controller :=
    ⟨rfl, le_max_left 1 width⟩
  intro s member closed g
  have sides := forall_session (fun s => TwoSided s.controller)
    (fun _ call sides => sides.apply call) begun calls s member
  exact mirrored_run_iff sides closed g

/-- Fifty dips to the left are less than a third of the tray: both ways the row is closed. -/
theorem run_mirrored_iff_fifty :
    let c := SwipeController.construct 216 true
    let g : Gesture := ⟨0, 300, 20, [⟨250, 20, 1 / 2⟩], 1000⟩
    Mirrored (g.run c).2.state (g.mirror.run c).2.state := by
  intro c g
  have member : Session.begin c ∈ trail Session.step (.begin c) [] := mem_trail_self _ _
  have closed : (Session.begin c).controller.isOpen = false := by decide +kernel
  have unarmed : (g.run c).1 = none := by decide +kernel
  have mirrorUnarmed : (g.mirror.run c).1 = none := by decide +kernel
  have short : g.pullsOpen c.trayWidth = false := by decide +kernel
  exact (run_mirrored_iff 216 [] (.begin c) member closed g unarmed mirrorUnarmed).2 short

/-- A hundred dips open the row to the left and close it to the right. -/
theorem leading_never_opens :
    let c := SwipeController.construct 216 true
    let g : Gesture := ⟨0, 300, 20, [⟨200, 20, 1 / 2⟩], 1000⟩
    c.isOpen = false ∧ (g.run c).1 = none ∧ (g.mirror.run c).1 = none ∧
      (g.run c).2.state.row = 0 ∧ (g.run c).2.state.side = .trailing ∧
      (g.run c).2.state.offset = -216 ∧ (g.mirror.run c).2.state = {} ∧
      ¬ Mirrored (g.run c).2.state (g.mirror.run c).2.state := by
  intro c g
  have opened : (g.run c).2.state.row = 0 := by decide +kernel
  have closed : (g.mirror.run c).2.state = {} := by decide +kernel
  refine ⟨by decide +kernel, by decide +kernel, by decide +kernel, opened, by decide +kernel,
    by decide +kernel, closed, fun mirrored => ?_⟩
  have row := mirrored.row
  rw [opened, closed] at row
  cases row

end Such.SwipeActions

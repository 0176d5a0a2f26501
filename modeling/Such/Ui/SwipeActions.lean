import Such.Ui.ResponsiveLayout

/-! The swipe gesture over a result row, in exact arithmetic. -/
namespace Such.SwipeActions
open ResponsiveLayout

inductive SwipeSide where
  | inactive
  | leading
  | trailing
deriving DecidableEq, Repr

inductive ResultAction where
  | openLocation
  | toggleIndex
  | togglePin
  | openProperties
  | editAppearance
deriving DecidableEq, Repr

structure ResultSwipeState where
  row : Int := -1
  offset : ℚ := 0
  velocity : ℚ := 0
  side : SwipeSide := .inactive
  dragging : Bool := false
  horizontalLocked : Bool := false
  armedFullAction : Bool := false
deriving DecidableEq, Repr

structure SwipeController where
  trayWidth : ℚ
  allowLeadingActions : Bool
  initialOffset : ℚ := 0
  startX : ℚ := 0
  startY : ℚ := 0
  lastX : ℚ := 0
  latched : Bool := false
  state : ResultSwipeState := {}
deriving DecidableEq, Repr

def actionsForSide : SwipeSide → List ResultAction
  | .leading => [.togglePin, .openProperties, .editAppearance]
  | _ => [.openLocation, .toggleIndex, .togglePin]

/-- The side an offset shows, with a dead zone around the closed position. -/
def sideOf (offset : ℚ) : SwipeSide :=
  if offset < -(1 / 2) then .trailing else if 1 / 2 < offset then .leading else .inactive

namespace SwipeController

def construct (actionTrayWidth : ℚ) (allowLeadingActions : Bool) : SwipeController where
  trayWidth := max 1 actionTrayWidth
  allowLeadingActions := allowLeadingActions

def isOpen (c : SwipeController) : Bool :=
  decide (0 ≤ c.state.row) && decide (c.state.side ≠ .inactive) && decide (1 / 2 < |c.state.offset|)

def close (c : SwipeController) : SwipeController :=
  { c with state := {}, initialOffset := 0, latched := false }

/-- Where an open row rests. -/
def restOffset (c : SwipeController) : ℚ :=
  if c.state.side = .leading then c.trayWidth else -c.trayWidth

def setActionTrayWidth (actionTrayWidth : ℚ) (c : SwipeController) : SwipeController :=
  let c := { c with trayWidth := max 1 actionTrayWidth }
  if c.isOpen && !c.state.dragging then { c with state.offset := c.restOffset } else c

/-- `begin`. -/
def start (row : Int) (x y : ℚ) (c : SwipeController) : SwipeController :=
  let initialOffset := if c.isOpen ∧ c.state.row = row then c.state.offset else 0
  { c with
    initialOffset := initialOffset
    startX := x
    lastX := x
    startY := y
    latched := false
    state := {
      row := row, offset := initialOffset, side := sideOf initialOffset, dragging := true } }

/-- The drag is given up; the offset stays where it was. -/
def release (c : SwipeController) : SwipeController :=
  { c with state := { c.state with dragging := false, row := -1, side := .inactive } }

/-- Follows the pointer of a latched drag. -/
def follow (x dt : ℚ) (c : SwipeController) : SwipeController :=
  let hard := c.trayWidth * (145 / 100)
  let reached := c.initialOffset + (x - c.startX)
  let candidate := clamp reached (-hard) (if c.allowLeadingActions then hard else 0)
  { c with
    lastX := x
    state := { c.state with
      offset := candidate
      side := sideOf candidate
      velocity := if 1 / 10000 < dt then (x - c.lastX) / dt else c.state.velocity } }

def update (x y dt : ℚ) (c : SwipeController) : SwipeController :=
  let dx := x - c.startX
  let dy := y - c.startY
  if !c.state.dragging then c
  else if c.latched then c.follow x dt
  else if |dx| < 9 ∧ |dy| < 9 then c
  else if |dx| ≤ |dy| * (115 / 100) then c.release
  -- A closed row only opens to the left, unless leading actions are allowed.
  else if !c.allowLeadingActions ∧ -(1 / 2) ≤ c.initialOffset ∧ 0 < dx then c.release
  else { c with latched := true, state.horizontalLocked := true }.follow x dt

/-- The pointer is lifted: an armed leading swipe acts, any other opens or closes the row.
The source's `end`. -/
def finish (rowWidth : ℚ) (c : SwipeController) : Option ResultAction × SwipeController :=
  if !c.state.dragging then (none, c)
  else
    let c := { c with state.dragging := false }
    if !c.latched then (none, c.close)
    else
      let distance := |c.state.offset|
      let fling := decide (900 ≤ |c.state.velocity|)
      let experimental := c.allowLeadingActions && decide (c.state.side = .leading)
      let armed := decide (max (c.trayWidth * (110 / 100)) (rowWidth * (60 / 100)) ≤ distance) ||
        (fling && decide (c.trayWidth * (72 / 100) ≤ distance))
      if experimental && armed then (some .togglePin, c.close)
      else
        let c := if experimental then { c with state.armedFullAction := armed } else c
        if c.state.side = .inactive ∨ -c.trayWidth * (34 / 100) < c.state.offset then (none, c.close)
        else if c.trayWidth * (34 / 100) ≤ distance ∨
            (fling ∧ c.trayWidth * (22 / 100) ≤ distance) then
          (none, { c with state.offset := c.restOffset })
        else (none, c.close)

end SwipeController
end Such.SwipeActions

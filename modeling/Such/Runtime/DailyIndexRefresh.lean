import Such.Base.ByteText

/-! When the graphical frontends refresh the index by themselves. Clock readings and the
two recorded times are UTC seconds. -/
namespace Such

structure DailyIndexRefresh where
  lastSuccess : Int := 0
  lastAttempt : Int := 0
deriving DecidableEq, Repr

namespace DailyIndexRefresh
open ByteText

def kRefreshSeconds : Int := 24 * 60 * 60

def kRetrySeconds : Int := 60 * 60

/-- What a load finds at the state file's place. -/
inductive StateFile where
  | noDirectory
  | uninspectable
  | absent
  | unopened
  | content (text : Bytes)
deriving DecidableEq, Repr

/-- A formatted extraction of a word. -/
def extractWord (text : Bytes) : Option (Bytes × Bytes) :=
  let text := text.dropWhile isSpace
  let word := text.takeWhile (!isSpace ·)
  if word.isEmpty then none else some (word, text.drop word.length)

/-- A formatted extraction of a 64-bit integer; a value out of range fails it. -/
def extractInt64 (text : Bytes) : Option (Int × Bytes) :=
  let text := text.dropWhile isSpace
  let signed := text.head? = some 43 ∨ text.head? = some 45
  let unsigned := if signed then text.drop 1 else text
  let digits := unsigned.takeWhile isDigit
  let magnitude : Int := digitsValue digits
  let value := if text.head? = some 45 then -magnitude else magnitude
  if digits.isEmpty ∨ value < -2 ^ 63 ∨ 2 ^ 63 ≤ value then none
  else some (value, unsigned.drop digits.length)

def magic : Bytes := lit "SUCH_DAILY_1"

/-- The magic word and two times, and what is left behind them. -/
def extractTimes (text : Bytes) : Option (Bytes × Int × Int × Bytes) := do
  let (word, text) ← extractWord text
  let (success, text) ← extractInt64 text
  let (attempt, text) ← extractInt64 text
  return (word, success, attempt, text)

/-- An absent file is a first use. A file that is refused stays as it is. -/
def load : StateFile → Except Bytes DailyIndexRefresh
  | .noDirectory => .error (lit "No persistent user state directory")
  | .uninspectable => .error (lit "Cannot inspect daily refresh state")
  | .absent => .ok {}
  | .unopened => .error (lit "Malformed daily refresh state (preserved, not overwritten)")
  | .content text =>
    match extractTimes text with
    | none => .error (lit "Malformed daily refresh state (preserved, not overwritten)")
    | some (word, success, attempt, rest) =>
      if word ≠ magic ∨ success < 0 ∨ attempt < 0 then
        .error (lit "Malformed daily refresh state (preserved, not overwritten)")
      else if !(rest.dropWhile isSpace).isEmpty then
        .error (lit "Trailing data in daily refresh state")
      else .ok ⟨success, attempt⟩

/-- A clock that went back never makes a refresh due. -/
def due (now : Int) (hasRoots workerActive : Bool) (r : DailyIndexRefresh) : Bool :=
  if now ≤ 0 ∨ !hasRoots ∨ workerActive then false
  else if now < r.lastSuccess then false
  else if r.lastSuccess ≠ 0 ∧ now - r.lastSuccess < kRefreshSeconds then false
  else if now < r.lastAttempt then false
  else decide (r.lastAttempt = 0 ∨ kRetrySeconds ≤ now - r.lastAttempt)

def stateText (r : DailyIndexRefresh) : Bytes :=
  magic ++ 32 :: decimalInt r.lastSuccess ++ 32 :: decimalInt r.lastAttempt ++ [10]

section Record
variable {W : Type} (persist : Bytes → W → Except Bytes Unit × W)

/-- A time that is not positive is refused without a message and without a write. -/
def record (now : Int) (next : DailyIndexRefresh) (r : DailyIndexRefresh) (w : W) :
    Except Bytes Unit × DailyIndexRefresh × W :=
  if now ≤ 0 then (.error [], r, w)
  else
    let (saved, w) := persist (stateText next) w
    (saved, next, w)

def recordAttempt (now : Int) (r : DailyIndexRefresh) : W → Except Bytes Unit × DailyIndexRefresh × W :=
  record persist now { r with lastAttempt := now } r

def recordSuccess (now : Int) (r : DailyIndexRefresh) : W → Except Bytes Unit × DailyIndexRefresh × W :=
  record persist now { r with lastSuccess := now, lastAttempt := now } r

def recordFailure (now : Int) (r : DailyIndexRefresh) : W → Except Bytes Unit × DailyIndexRefresh × W :=
  record persist now { r with lastAttempt := now } r

end Record
end DailyIndexRefresh
end Such

import Such.Base.OpenFiles
import Such.Base.DrivenMachine
import Such.Base.LexicalPath

/-! The lease that keeps a second desktop frontend from starting. Its processes share a lock
file, or a named mutex; between its system calls the other processes run. -/
namespace Such.FrontendLease
open ByteText LexicalPath OpenFiles

inductive FrontendMode where
  | gui
  | cli
  | mcp
deriving DecidableEq, Repr

/-- The descriptor of the lock file, or the mutex's handle, stands for the open description
it refers to. -/
structure Lease where
  mode : FrontendMode := .gui
  acquired : Bool := false
  error : Bytes := []
  fd : Option Nat := none
deriving DecidableEq, Repr

structure FileStatus where
  directory : Bool
  regular : Bool
  uid : Nat
  mode : Nat
deriving DecidableEq, Repr

/-- What a POSIX system answers during one call. Directories are made before the second
`lstat`. -/
structure Answers (File : Type*) where
  uid : Nat
  runtimeDirectory : Option Bytes
  lstat : Bytes → Option FileStatus
  access : Bytes → Bool
  /-- Also when the directory is there already. -/
  mkdir : Bytes → Bool
  lstatMade : Bytes → Option FileStatus
  openLock : Bytes → Option File
  fstat : File → Option FileStatus

/-- A mutex belongs to the session of its process. -/
inductive Host (File : Type*) where
  | posix (answers : Answers File)
  | windows (mutex : Option File)

variable {File : Type*}

def Host.convention : Host File → Convention
  | .posix _ => .posix
  | .windows _ => .windows

section Acquiring

def secureRuntimeDirectory (a : Answers File) (value : Option Bytes) : Bytes :=
  match value with
  | none => []
  | some [] => []
  | some (b :: rest) =>
    let value := b :: rest
    match a.lstat value with
    | none => []
    | some st =>
      if !st.directory || st.uid ≠ a.uid then []
      else if st.mode &&& 0o22 ≠ 0 || !a.access value then []
      else value

def lockDirectory (a : Answers File) : Except Bytes Bytes :=
  let directory := secureRuntimeDirectory a a.runtimeDirectory
  if !directory.isEmpty then .ok directory
  else
    let directory := lit "/tmp/heritage-such-" ++ decimal a.uid
    if !a.mkdir directory then .error (lit "create private frontend-lock directory failed")
    else
      let notPrivate := lit "frontend-lock directory is not private to the current user"
      match a.lstatMade directory with
      | none => .error notPrivate
      | some st =>
        if !st.directory || st.uid ≠ a.uid || st.mode &&& 0o77 ≠ 0 then .error notPrivate
        else .ok directory

theorem secureRuntimeDirectory_private {a : Answers File} {value : Option Bytes} {b : UInt8}
    {rest : Bytes} (found : secureRuntimeDirectory a value = b :: rest) :
    ∃ st, a.lstat (b :: rest) = some st ∧ st.directory = true ∧ st.uid = a.uid ∧
      st.mode &&& 0o22 = 0 := by
  simp only [secureRuntimeDirectory] at found
  split at found
  · cases found
  · cases found
  split at found
  · cases found
  rename_i st asked
  split at found
  · cases found
  split at found
  · cases found
  rename_i own closed
  rw [found] at asked
  simp only [Bool.or_eq_true, Bool.not_eq_true', decide_eq_true_eq, ne_eq, not_or, not_not,
    Bool.not_eq_false] at own closed
  exact ⟨st, asked, own.1, own.2, closed.1⟩

/-- The directory of the lock file is the user's own, and nobody else may write in it. -/
theorem lockDirectory_private {a : Answers File} {directory : Bytes}
    (found : lockDirectory a = .ok directory) :
    ∃ st, (a.lstat directory = some st ∨ a.lstatMade directory = some st) ∧
      st.directory = true ∧ st.uid = a.uid ∧ st.mode &&& 0o22 = 0 := by
  simp only [lockDirectory] at found
  split at found
  · rename_i secure
    cases found
    cases value : secureRuntimeDirectory a a.runtimeDirectory with
    | nil => simp [value] at secure
    | cons b rest =>
      obtain ⟨st, asked, private_⟩ := secureRuntimeDirectory_private value
      exact ⟨st, .inl asked, private_⟩
  split at found
  · cases found
  split at found
  · cases found
  rename_i st asked
  split at found
  · cases found
  rename_i own
  cases found
  simp only [Bool.or_eq_true, Bool.not_eq_true', decide_eq_true_eq, ne_eq, not_or, not_not,
    Bool.not_eq_false] at own
  refine ⟨st, .inr asked, own.1.1, own.1.2, ?_⟩
  have wider : st.mode &&& 0o22 = (st.mode &&& 0o77) &&& 0o22 := by
    rw [Nat.and_assoc]
    rfl
  rw [wider, own.2, Nat.zero_and]

def lockPath (directory : Bytes) : Bytes := directory ++ lit "/heritage-such-frontend.lock"

/-- The call gets as far as this lock file, or this mutex. -/
def Host.opens (f : File) : Host File → Prop
  | .posix a => ∃ directory, lockDirectory a = .ok directory ∧ a.openLock (lockPath directory) = some f
  | .windows mutex => mutex = some f

variable [DecidableEq File]

def openLock (a : Answers File) (p : Nat) (t : Table File Nat) :
    Except Bytes Nat × Table File Nat :=
  match lockDirectory a with
  | .error error => (.error error, t)
  | .ok directory =>
    match a.openLock (lockPath directory) with
    | none => (.error (lit "open frontend lock failed"), t)
    | some f =>
      let fd := t.next
      let t := t.openFile f p
      if (a.fstat f).any fun st => st.regular && st.uid == a.uid then (.ok fd, t)
      else (.error (lit "frontend lock is not a regular file owned by the current user"),
        t.close p fd)

def createMutex (mutex : Option File) (p : Nat) (t : Table File Nat) :
    Except Bytes Nat × Table File Nat :=
  match mutex with
  | none => (.error (lit "CreateMutexW failed"), t)
  | some f => (.ok t.next, t.openExclusively f p)

/-- A variable of a process: nothing yet, a call that has its descriptor, or a lease. -/
inductive Slot where
  | vacant
  | opening (fd : Nat)
  | lease (lease : Lease)
deriving DecidableEq, Repr

def Slot.fd : Slot → Option Nat
  | .vacant => none
  | .opening fd => some fd
  | .lease l => l.fd

def opened : Except Bytes Nat × Table File Nat → Slot × Table File Nat
  | (.error error, t) => (.lease { error := error }, t)
  | (.ok fd, t) => (.opening fd, t)

/-- The call up to its descriptor. Only a desktop frontend asks for the lock. -/
def beginAcquire (mode : FrontendMode) (host : Host File) (p : Nat) (t : Table File Nat) :
    Slot × Table File Nat :=
  if mode ≠ .gui then (.lease { mode := mode, acquired := true }, t)
  else
    match host with
    | .posix answers => opened (openLock answers p t)
    | .windows mutex => opened (createMutex mutex p t)

def anotherRuns : Bytes := lit "another Such frontend is already running"

/-- The call from its descriptor on. A mutex was made by this call when nobody had it open. -/
def concludeAcquire (c : Convention) (interrupted : Bool) (p fd : Nat) (t : Table File Nat) :
    Lease × Table File Nat :=
  match c with
  | .posix =>
    if interrupted then ({ error := lit "flock frontend lock failed" }, t.close p fd)
    else
      match t.tryLock fd with
      | none => ({ error := anotherRuns }, t.close p fd)
      | some t => ({ acquired := true, fd := some fd }, t)
  | .windows =>
    if (t.find fd).any (·.locked) then ({ acquired := true, fd := some fd }, t)
    else ({ error := anotherRuns }, t.close p fd)

/-- The whole call, when no other process runs during it. -/
def tryAcquire (mode : FrontendMode) (host : Host File) (interrupted : Bool) (p : Nat)
    (t : Table File Nat) : Slot × Table File Nat :=
  match beginAcquire mode host p t with
  | (.opening fd, t) =>
    let (lease, t) := concludeAcquire host.convention interrupted p fd t
    (.lease lease, t)
  | done => done

end Acquiring

def closeLock (c : Convention) (p fd : Nat) (t : Table File Nat) : Table File Nat :=
  match c with
  | .posix => (t.unlock fd).close p fd
  | .windows => t.close p fd

def release (c : Convention) (p : Nat) (lease : Lease) (t : Table File Nat) :
    Lease × Table File Nat :=
  if !lease.acquired then (lease, t)
  else
    ({ lease with acquired := false, fd := none },
      match lease.fd with
      | none => t
      | some fd => closeLock c p fd t)

/-- Move assignment between two leases. The text moved out of the second one leaves it empty. -/
def moveAssign (c : Convention) (p : Nat) (lease other : Lease) (t : Table File Nat) :
    Lease × Lease × Table File Nat :=
  let (_, t) := release c p lease t
  (other, { other with acquired := false, error := [], fd := none }, t)

section Processes

/-- A forked process has its parent's descriptors until it runs another program; those of a
lease close then. -/
inductive Status where
  | absent
  | frontend
  | forked
deriving DecidableEq, Repr

structure System (File : Type*) where
  table : Table File Nat := Table.empty
  status : Nat → Status := fun _ => .absent
  slots : Nat × Nat → Slot := fun _ => .vacant

inductive Event (File : Type*) where
  | start (p : Nat)
  | construct (p v : Nat)
  | begin_ (p v : Nat) (mode : FrontendMode) (host : Host File)
  | conclude (p v : Nat) (interrupted : Bool)
  | move (p v w : Nat)
  | destroy (p v : Nat)
  | fork (p child : Nat)
  | exec (p : Nat)
  | exit (p : Nat)

def Event.opens (f : File) : Event File → Prop
  | .begin_ _ _ _ host => host.opens f
  | _ => False

def System.put (s : System File) (k : Nat × Nat) (slot : Slot) (t : Table File Nat) : System File :=
  { s with table := t, slots := Function.update s.slots k slot }

def System.setStatus (s : System File) (p : Nat) (status : Status) (t : Table File Nat) :
    System File :=
  { s with
    table := t
    status := Function.update s.status p status
    slots := fun k => if k.1 = p then .vacant else s.slots k }

variable [DecidableEq File]

/-- One step of one process. A killed process exits without giving its leases back first. -/
def step (c : Convention) (s : System File) : Event File → Option (System File)
  | .start p => if s.status p = .absent then some (s.setStatus p .frontend s.table) else none
  | .construct p v =>
    if s.status p = .frontend ∧ s.slots (p, v) = .vacant then some (s.put (p, v) (.lease {}) s.table)
    else none
  | .begin_ p v mode host =>
    if s.status p = .frontend ∧ s.slots (p, v) = .vacant ∧ host.convention = c then
      let (slot, t) := beginAcquire mode host p s.table
      some (s.put (p, v) slot t)
    else none
  | .conclude p v interrupted =>
    match s.slots (p, v) with
    | .opening fd =>
      let (lease, t) := concludeAcquire c interrupted p fd s.table
      some (s.put (p, v) (.lease lease) t)
    | _ => none
  | .move p v w =>
    match s.slots (p, v), s.slots (p, w) with
    | .lease lease, .lease other =>
      if v = w then some s
      else
        let (lease, other, t) := moveAssign c p lease other s.table
        some ((s.put (p, v) (.lease lease) t).put (p, w) (.lease other) t)
    | _, _ => none
  | .destroy p v =>
    match s.slots (p, v) with
    | .lease lease => some (s.put (p, v) .vacant (release c p lease s.table).2)
    | _ => none
  | .fork p child =>
    if c = .posix ∧ s.status p ≠ .absent ∧ s.status child = .absent then
      some (s.setStatus child .forked (s.table.duplicate p child))
    else none
  | .exec p =>
    if s.status p = .forked then some (s.setStatus p .absent (s.table.closeAll p)) else none
  | .exit p =>
    if s.status p ≠ .absent then some (s.setStatus p .absent (s.table.closeAll p)) else none

omit [DecidableEq File] in
theorem System.put_put (s : System File) (k : Nat × Nat) (a b : Slot) (t u : Table File Nat) :
    (s.put k a t).put k b u = s.put k b u := by
  simp only [System.put, Function.update_idem]

/-- With nothing in between, the steps of a call are the call. -/
theorem steps_tryAcquire {s : System File} {p v : Nat} (mode : FrontendMode) (host : Host File)
    (interrupted : Bool) (running : s.status p = .frontend) (vacant : s.slots (p, v) = .vacant) :
    ∃ s₁, step host.convention s (.begin_ p v mode host) = some s₁ ∧
      (s₁ = s.put (p, v) (tryAcquire mode host interrupted p s.table).1
          (tryAcquire mode host interrupted p s.table).2 ∨
        step host.convention s₁ (.conclude p v interrupted) =
          some (s.put (p, v) (tryAcquire mode host interrupted p s.table).1
            (tryAcquire mode host interrupted p s.table).2)) := by
  refine ⟨s.put (p, v) (beginAcquire mode host p s.table).1 (beginAcquire mode host p s.table).2,
    if_pos ⟨running, vacant, rfl⟩, ?_⟩
  rcases acquiring : beginAcquire mode host p s.table with ⟨slot, t⟩
  cases slot with
  | opening fd =>
    right
    have opening : (s.put (p, v) (.opening fd) t).slots (p, v) = .opening fd :=
      Function.update_self ..
    simp only [step, opening, tryAcquire, acquiring, System.put_put]
    rfl
  | vacant => exact .inl (by simp only [tryAcquire, acquiring])
  | lease lease => exact .inl (by simp only [tryAcquire, acquiring])

end Processes

end Such.FrontendLease

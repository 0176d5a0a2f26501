import Mathlib.Data.List.Basic

/-! Deterministic machines driven by a list of inputs. A step without a next state ends
the run, whatever inputs are left. -/
namespace DrivenMachine
variable {S I : Type*} (step : S → I → Option S)

/-- The states of a run, the first one included. -/
def trail : S → List I → List S
  | s, [] => [s]
  | s, i :: rest =>
    s :: match step s i with
      | none => []
      | some t => trail t rest

/-- Every step the run takes meets a condition on the state before it and its input. -/
def Throughout (P : S → I → Prop) : S → List I → Prop
  | _, [] => True
  | s, i :: rest => P s i ∧ ∀ t, step s i = some t → Throughout P t rest

variable {step} {P : S → I → Prop} {Inv : S → Prop}

theorem mem_trail_self (s : S) (inputs : List I) : s ∈ trail step s inputs := by
  cases inputs with
  | nil => exact List.mem_cons_self
  | cons i rest => exact List.mem_cons_self

theorem trail_cons_of_some {s t : S} {i : I} (steps : step s i = some t) (rest : List I) :
    trail step s (i :: rest) = s :: trail step t rest := by
  rw [trail, steps]

/-- What every permitted step keeps holds in every state of a permitted run. -/
theorem forall_trail (keeps : ∀ s i t, Inv s → P s i → step s i = some t → Inv t)
    {s : S} {inputs : List I} (start : Inv s) (permitted : Throughout step P s inputs) :
    ∀ t ∈ trail step s inputs, Inv t := by
  induction inputs generalizing s with
  | nil =>
    intro t member
    rw [List.mem_singleton.mp member]
    exact start
  | cons i rest ih =>
    intro t member
    obtain ⟨allowed, later⟩ := permitted
    cases steps : step s i with
    | none =>
      rw [trail, steps] at member
      rw [List.mem_singleton.mp member]
      exact start
    | some u =>
      rw [trail_cons_of_some steps] at member
      rcases List.mem_cons.mp member with rfl | further
      · exact start
      · exact ih (keeps s i u start allowed steps) (later u steps) t further

/-- What every step keeps holds in every state of a run. -/
theorem forall_trail_of_keeps (keeps : ∀ s i t, Inv s → step s i = some t → Inv t)
    {s : S} {inputs : List I} (start : Inv s) : ∀ t ∈ trail step s inputs, Inv t := by
  have permitted : ∀ (inputs : List I) (s : S), Throughout step (fun _ _ => True) s inputs := by
    intro inputs
    induction inputs with
    | nil => exact fun _ => trivial
    | cons i rest ih => exact fun s => ⟨trivial, fun t _ => ih t⟩
  exact forall_trail (fun s i t kept _ steps => keeps s i t kept steps) start (permitted inputs s)

theorem Throughout.imp {Q : S → I → Prop} {s : S} {inputs : List I}
    (weaker : ∀ s, ∀ i ∈ inputs, P s i → Q s i) (permitted : Throughout step P s inputs) :
    Throughout step Q s inputs := by
  induction inputs generalizing s with
  | nil => exact trivial
  | cons i rest ih =>
    constructor
    · exact weaker s i List.mem_cons_self permitted.1
    · intro t steps
      exact ih (fun s j member => weaker s j (List.mem_cons_of_mem i member)) (permitted.2 t steps)

/-- A condition on the inputs alone is met by every run they drive. -/
theorem throughout_of_forall_mem {s : S} {inputs : List I} (all : ∀ s, ∀ i ∈ inputs, P s i) :
    Throughout step P s inputs := by
  induction inputs generalizing s with
  | nil => exact trivial
  | cons i rest ih =>
    exact ⟨all s i List.mem_cons_self, fun t _ => ih fun s j member =>
      all s j (List.mem_cons_of_mem i member)⟩

/-- Two conditions that agree wherever an invariant holds are met by the same runs. -/
theorem throughout_congr {Q : S → I → Prop} (keeps : ∀ s i t, Inv s → step s i = some t → Inv t)
    (agree : ∀ s i, Inv s → (P s i ↔ Q s i)) {s : S} {inputs : List I} (start : Inv s) :
    Throughout step P s inputs ↔ Throughout step Q s inputs := by
  induction inputs generalizing s with
  | nil => exact Iff.rfl
  | cons i rest ih =>
    have later : (∀ t, step s i = some t → Throughout step P t rest) ↔
        ∀ t, step s i = some t → Throughout step Q t rest :=
      forall_congr' fun t => forall_congr' fun steps => ih (keeps s i t start steps)
    exact and_congr (agree s i start) later

/-- A run whose states all satisfy `Inv` takes permitted steps only, when each step
between such states is permitted. -/
theorem throughout_of_forall_trail
    (needs : ∀ s i, Inv s → (∀ t, step s i = some t → Inv t) → P s i)
    {s : S} {inputs : List I} (states : ∀ t ∈ trail step s inputs, Inv t) :
    Throughout step P s inputs := by
  induction inputs generalizing s with
  | nil => exact trivial
  | cons i rest ih =>
    have here : Inv s := states s (mem_trail_self s (i :: rest))
    have onward : ∀ t, step s i = some t → ∀ u ∈ trail step t rest, Inv u := by
      intro t steps u member
      apply states
      rw [trail_cons_of_some steps]
      exact List.mem_cons_of_mem _ member
    constructor
    · exact needs s i here fun t steps => onward t steps t (mem_trail_self t rest)
    · intro t steps
      exact ih (onward t steps)

/-- The states of a run satisfy `Inv` exactly when its steps are permitted. -/
theorem forall_trail_iff (keeps : ∀ s i t, Inv s → P s i → step s i = some t → Inv t)
    (needs : ∀ s i, Inv s → (∀ t, step s i = some t → Inv t) → P s i)
    {s : S} (start : Inv s) (inputs : List I) :
    (∀ t ∈ trail step s inputs, Inv t) ↔ Throughout step P s inputs :=
  ⟨throughout_of_forall_trail needs, forall_trail keeps start⟩

variable (step) in
/-- The state a run ends in. -/
def outcome : S → List I → S
  | s, [] => s
  | s, i :: rest =>
    match step s i with
    | none => s
    | some t => outcome t rest

theorem outcome_mem_trail (s : S) (inputs : List I) :
    outcome step s inputs ∈ trail step s inputs := by
  induction inputs generalizing s with
  | nil => exact List.mem_cons_self
  | cons i rest ih =>
    simp only [outcome, trail]
    cases step s i with
    | none => exact List.mem_cons_self
    | some t => exact List.mem_cons_of_mem _ (ih t)

variable (step) in
/-- How many steps of a run count. -/
def tally (counts : S → I → Bool) : S → List I → Nat
  | _, [] => 0
  | s, i :: rest =>
    match step s i with
    | none => 0
    | some t => (counts s i).toNat + tally counts t rest

variable {counts : S → I → Bool} {Active : S → Prop} {potential : S → Nat}

/-- What is left of the potential while the machine is active, and what was counted, fit
into the potential at the start. -/
theorem tally_add_potential_le (keeps : ∀ s i t, Inv s → P s i → step s i = some t → Inv t)
    (stays : ∀ s i t, ¬ Active s → step s i = some t → ¬ Active t)
    (drops : ∀ s i t, Inv s → P s i → step s i = some t → Active t →
      (counts s i).toNat + potential t ≤ potential s)
    {s : S} {inputs : List I} (start : Inv s) (permitted : Throughout step P s inputs)
    (active : Active (outcome step s inputs)) :
    tally step counts s inputs + potential (outcome step s inputs) ≤ potential s := by
  have never : ∀ {s : S} {inputs : List I}, ¬ Active s → ¬ Active (outcome step s inputs) := by
    intro s inputs
    induction inputs generalizing s with
    | nil => exact id
    | cons i rest ih =>
      intro idle
      simp only [outcome]
      cases steps : step s i with
      | none => exact idle
      | some t => exact ih (stays s i t idle steps)
  induction inputs generalizing s with
  | nil => simp only [tally, outcome, Nat.zero_add, Nat.le_refl]
  | cons i rest ih =>
    obtain ⟨allowed, later⟩ := permitted
    simp only [tally, outcome]
    simp only [outcome] at active
    cases steps : step s i with
    | none => exact Nat.le_of_eq (Nat.zero_add _)
    | some t =>
      rw [steps] at active
      have lively : Active t := by
        by_contra idle
        exact never idle active
      have spent := drops s i t start allowed steps lively
      have rest := ih (keeps s i t start allowed steps) (later t steps) active
      dsimp only at rest ⊢
      omega

/-- A machine that spends its potential on every counted step is inactive once as many
steps were counted. -/
theorem not_active_of_tally (keeps : ∀ s i t, Inv s → P s i → step s i = some t → Inv t)
    (stays : ∀ s i t, ¬ Active s → step s i = some t → ¬ Active t)
    (drops : ∀ s i t, Inv s → P s i → step s i = some t → Active t →
      (counts s i).toNat + potential t ≤ potential s)
    (positive : ∀ s, Active s → Inv s → 0 < potential s)
    {s : S} {inputs : List I} (start : Inv s) (permitted : Throughout step P s inputs)
    (enough : potential s ≤ tally step counts s inputs) :
    ¬ Active (outcome step s inputs) := by
  intro active
  have bounded := tally_add_potential_le keeps stays drops start permitted active
  have ends := forall_trail keeps start permitted _ (outcome_mem_trail s inputs)
  have left := positive _ active ends
  omega

end DrivenMachine

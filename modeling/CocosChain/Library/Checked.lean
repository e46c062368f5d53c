import Mathlib.Logic.Basic

/-!
# Computations that may be refused

A computation in `Except` either returns or is refused as a whole.  A success
is taken apart into the successes of its parts.
-/

namespace CocosChain

variable {ε α β : Type}

/-- Refuses unless the condition holds. -/
def ensure (condition : Bool) (fault : ε) : Except ε Unit :=
  if condition then .ok () else .error fault

/-- The value that is there, or a refusal. -/
def found (value : Option α) (fault : ε) : Except ε α :=
  match value with
  | some value => .ok value
  | none => .error fault

variable {action : Except ε α} {next : α → Except ε β} {result : α} {fault : ε}

theorem bind_eq_ok {result : β} : (action >>= next) = .ok result ↔
      ∃ value, action = .ok value ∧ next value = .ok result := by
  constructor
  · intro accepted
    cases action with
    | error fault => cases accepted
    | ok value => exact ⟨value, rfl, accepted⟩
  · rintro ⟨_, rfl, accepted⟩
    exact accepted

theorem bind_eq_error : (action >>= next) = .error fault ↔ action = .error fault ∨
        ∃ value, action = .ok value ∧ next value = .error fault := by
  constructor
  · intro refused
    cases action with
    | error other =>
      cases refused
      exact .inl rfl
    | ok value => exact .inr ⟨value, rfl, refused⟩
  · rintro (rfl | ⟨_, rfl, refused⟩)
    · rfl
    · exact refused

@[simp] theorem ensure_eq_ok {result : Unit} :
    ensure condition fault = .ok result ↔ condition = true := by
  cases condition with
  | false => simp [ensure]
  | true => simp [ensure]

@[simp] theorem ensure_eq_error :
    ensure condition fault = .error other ↔ condition = false ∧ fault = other := by
  cases condition with
  | false => simp [ensure]
  | true => simp [ensure]

@[simp] theorem found_eq_ok : found value fault = .ok result ↔ value = some result := by
  cases value with
  | none => simp [found]
  | some value => simp [found]

@[simp] theorem found_eq_error {value : Option α} :
    found value fault = .error other ↔ value = none ∧ fault = other := by
  cases value with
  | none => simp [found]
  | some value => simp [found]

theorem exists_of_isOk (accepted : action.isOk = true) : ∃ value, action = .ok value := by
  cases action with
  | error fault => cases accepted
  | ok value => exact ⟨value, rfl⟩

theorem mapError_eq_ok {δ : Type} {change : ε → δ} :
    action.mapError change = .ok result ↔ action = .ok result := by
  constructor
  · intro accepted
    cases action with
    | error fault => cases accepted
    | ok value => exact congrArg _ (Except.ok.inj accepted)
  · rintro rfl
    rfl

@[simp] theorem pure_eq_ok : (pure value : Except ε α) = .ok result ↔ value = result := by
  constructor
  · rintro ⟨⟩
    rfl
  · rintro rfl
    rfl

end CocosChain

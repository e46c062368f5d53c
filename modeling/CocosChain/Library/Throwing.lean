import Mathlib.Logic.Basic

/-!
# Computations that keep their state when they throw

An exception leaves behind whatever was done before it was thrown; only an
explicit handler takes things back.  A computation therefore returns the state
it has reached in either case.  An invariant that every step keeps is kept by a
whole computation, however it ends.
-/

/-- A computation over the state `σ` that may throw an `ε`. -/
def Throwing (ε σ α : Type) := σ → Except ε α × σ

namespace Throwing

variable {ε σ α β : Type}

protected def pure (value : α) : Throwing ε σ α :=
  fun state => (.ok value, state)

protected def bind (action : Throwing ε σ α) (next : α → Throwing ε σ β) : Throwing ε σ β :=
  fun state =>
    match action state with
    | (.ok value, reached) => next value reached
    | (.error fault, reached) => (.error fault, reached)

instance : Monad (Throwing ε σ) where
  pure := Throwing.pure
  bind := Throwing.bind

def throw (fault : ε) : Throwing ε σ α := fun state => (.error fault, state)

def get : Throwing ε σ σ := fun state => (.ok state, state)

def modify (change : σ → σ) : Throwing ε σ Unit := fun state => (.ok (), change state)

/-- Continues with `handler` in the state an exception left behind. -/
def handle (action : Throwing ε σ α) (handler : ε → Throwing ε σ α) : Throwing ε σ α :=
  fun state =>
    match action state with
    | (.ok value, reached) => (.ok value, reached)
    | (.error fault, reached) => handler fault reached

/-- Makes the exception a value. -/
def attempt (action : Throwing ε σ α) : Throwing ε σ (Except ε α) :=
  fun state => (.ok (action state).1, (action state).2)

/-- The state reached, whether or not the computation throws. -/
def after (action : Throwing ε σ α) (state : σ) : σ := (action state).2

def Throws (action : Throwing ε σ α) (state : σ) : Prop :=
  ∃ fault, (action state).1 = .error fault

def Returns (action : Throwing ε σ α) (state : σ) : Prop :=
  ∃ value, (action state).1 = .ok value

instance (action : Throwing ε σ α) (state : σ) : Decidable (action.Throws state) :=
  match result : (action state).1 with
  | .ok value => isFalse fun ⟨fault, failure⟩ => by
      cases failure.symm.trans result
  | .error fault => isTrue ⟨fault, result⟩

instance (action : Throwing ε σ α) (state : σ) : Decidable (action.Returns state) :=
  match result : (action state).1 with
  | .ok value => isTrue ⟨value, result⟩
  | .error fault => isFalse fun ⟨value, success⟩ => by
      cases success.symm.trans result

variable {action : Throwing ε σ α} {next : α → Throwing ε σ β} {body : Throwing ε σ Unit}

theorem bind_of_ok (success : action state = (.ok value, reached)) :
    (action >>= next) state = next value reached := by
  change Throwing.bind action next state = _
  unfold Throwing.bind
  rw [success]

theorem bind_of_error (failure : action state = (.error fault, reached)) :
    (action >>= next) state = (.error fault, reached) := by
  change Throwing.bind action next state = _
  unfold Throwing.bind
  rw [failure]

theorem bind_eq_ok (success : (action >>= next) state = (.ok result, final)) :
    ∃ value reached, action state = (.ok value, reached) ∧
      next value reached = (.ok result, final) := by
  change Throwing.bind action next state = _ at success
  unfold Throwing.bind at success
  split at success
  · rename_i value reached ran
    exact ⟨value, reached, ran, success⟩
  · cases success

theorem bind_assoc {γ : Type} (action : Throwing ε σ α)
    (next : α → Throwing ε σ β) (last : β → Throwing ε σ γ) :
    (action >>= next) >>= last = action >>= fun value => next value >>= last := by
  funext state
  cases result : action state with
  | mk outcome reached =>
    cases outcome with
    | error fault =>
      rw [bind_of_error result]
      exact bind_of_error (bind_of_error result)
    | ok value =>
      rw [bind_of_ok result]
      change Throwing.bind _ _ state = _
      unfold Throwing.bind
      rw [bind_of_ok result]
      rfl

@[simp] theorem modify_bind (change : σ → σ) (next : Unit → Throwing ε σ β) (state : σ) :
    ((modify change : Throwing ε σ Unit) >>= next) state = next () (change state) := rfl

@[simp] theorem get_bind (next : σ → Throwing ε σ β) (state : σ) :
    ((get : Throwing ε σ σ) >>= next) state = next state state := rfl

@[simp] theorem attempt_bind (action : Throwing ε σ α) (next : Except ε α → Throwing ε σ β)
    (state : σ) : (attempt action >>= next) state = next (action state).1 (action state).2 := rfl

theorem handle_of_ok (success : action state = (.ok value, reached)) :
    handle action handler state = (.ok value, reached) := by
  unfold handle
  rw [success]

theorem handle_of_error (failure : action state = (.error fault, reached)) :
    handle action handler state = handler fault reached := by
  unfold handle
  rw [failure]

/-- Repeats `body` while `goOn` holds, at most `fuel` times. -/
def repeatWhile (goOn : σ → Bool) (body : Throwing ε σ Unit) (spent : ε) : Nat → Throwing ε σ Unit
  | 0 => fun state =>
      if goOn state then (.error spent, state) else (.ok (), state)
  | fuel + 1 => fun state =>
      if goOn state then
        (body >>= fun _ => repeatWhile goOn body spent fuel) state
      else (.ok (), state)

theorem repeatWhile_stop (fuel : Nat) (stop : goOn state = false) :
    repeatWhile goOn body spent fuel state = (.ok (), state) := by
  cases fuel with
  | zero => simp [repeatWhile, stop]
  | succ fuel => simp [repeatWhile, stop]

theorem repeatWhile_step (fuel : Nat) (continues : goOn state = true) :
    repeatWhile goOn body spent (fuel + 1) state =
      (body >>= fun _ => repeatWhile goOn body spent fuel) state := by
  simp [repeatWhile, continues]

/-- Runs `body` on each item in turn. -/
def forEach (body : α → Throwing ε σ Unit) : List α → Throwing ε σ Unit
  | [] => pure ()
  | item :: items => do
      body item
      forEach body items

theorem forEach_append (body : α → Throwing ε σ Unit) (first second : List α) (state : σ) :
    forEach body (first ++ second) state =
      (forEach body first >>= fun _ => forEach body second) state := by
  induction first generalizing state with
  | nil => rfl
  | cons item items induction =>
    have later : forEach body (items ++ second) =
        forEach body items >>= fun _ => forEach body second :=
      funext induction
    rw [List.cons_append, forEach, forEach, bind_assoc, later]

theorem Throws.bind (throws : ∀ value state, (next value).Throws state) (state : σ) :
    (action >>= next).Throws state := by
  unfold Throws
  cases result : action state with
  | mk outcome reached =>
    cases outcome with
    | error fault =>
      rw [bind_of_error result]
      exact ⟨fault, rfl⟩
    | ok value =>
      rw [bind_of_ok result]
      exact throws value reached

theorem throw_throws (fault : ε) (state : σ) : (throw fault : Throwing ε σ α).Throws state :=
  ⟨fault, rfl⟩

/-- The computation keeps `P`, whether or not it throws. -/
def Keeps (P : σ → Prop) (action : Throwing ε σ α) : Prop :=
  ∀ state, P state → P (action.after state)

namespace Keeps

theorem pure (value : α) : Keeps P (pure value : Throwing ε σ α) :=
  fun _ holds => holds

theorem throw (fault : ε) : Keeps P (throw fault : Throwing ε σ α) :=
  fun _ holds => holds

theorem modify (kept : ∀ state, P state → P (change state)) :
    Keeps P (modify change : Throwing ε σ Unit) :=
  kept

theorem bind (first : Keeps P action) (second : ∀ value, Keeps P (next value)) :
    Keeps P (action >>= next) := by
  intro state holds
  have kept := first state holds
  unfold after at kept ⊢
  generalize result : action state = outcome at kept
  obtain ⟨_ | _, reached⟩ := outcome
  · rw [bind_of_error result]
    exact kept
  · rw [bind_of_ok result]
    exact second _ reached kept

theorem get {next : σ → Throwing ε σ β} (kept : ∀ state, P state → P ((next state).after state)) :
    Keeps P ((get : Throwing ε σ σ) >>= next) :=
  kept

theorem handle (first : Keeps P action) (second : ∀ fault, Keeps P (handler fault)) :
    Keeps P (handle action handler) := by
  intro state holds
  have kept := first state holds
  unfold after at kept ⊢
  generalize result : action state = outcome at kept
  obtain ⟨fault | _, reached⟩ := outcome
  · rw [handle_of_error result]
    exact second fault reached kept
  · rw [handle_of_ok result]
    exact kept

theorem attempt (kept : Keeps P action) : Keeps P (attempt action) :=
  kept

theorem repeatWhile (spent : ε) (kept : ∀ state, P state → goOn state = true → P (body.after state))
    (fuel : Nat) : Keeps P (repeatWhile goOn body spent fuel) := by
  induction fuel with
  | zero =>
    intro state holds
    unfold after Throwing.repeatWhile
    split
    · exact holds
    · exact holds
  | succ fuel induction =>
    intro state holds
    unfold after
    by_cases continues : goOn state = true
    · have once := kept state holds continues
      rw [repeatWhile_step fuel continues]
      unfold after at once
      generalize result : body state = outcome at once
      obtain ⟨_ | _, reached⟩ := outcome
      · rw [bind_of_error result]
        exact once
      · rw [bind_of_ok result]
        exact induction reached once
    · rw [repeatWhile_stop (fuel + 1) (Bool.eq_false_iff.mpr continues)]
      exact holds

theorem forEach {body : α → Throwing ε σ Unit} (kept : ∀ item ∈ items, Keeps P (body item)) :
    Keeps P (forEach body items) := by
  induction items with
  | nil => exact Keeps.pure ()
  | cons item items induction =>
    apply Keeps.bind (kept item List.mem_cons_self)
    intro _
    apply induction
    intro later member
    exact kept later (List.mem_cons_of_mem item member)

end Keeps

/-- From states with `Q`, the outer computation does what the inner one does,
seen through `embed`, and `Q` is kept. -/
def Mirrors {τ : Type} (Q : σ → Prop) (embed : σ → τ) (outer : Throwing ε τ α)
    (inside : Throwing ε σ α) : Prop :=
  ∀ state, Q state →
    outer (embed state) = ((inside state).1, embed (inside state).2) ∧ Q (inside state).2

namespace Mirrors

variable {τ : Type} {embed : σ → τ} {outer : Throwing ε τ α} {inside : Throwing ε σ α}

theorem bind {outerNext : α → Throwing ε τ β} {next : α → Throwing ε σ β}
    (first : Mirrors Q embed outer inside)
    (second : ∀ value, Mirrors Q embed (outerNext value) (next value)) :
    Mirrors Q embed (outer >>= outerNext) (inside >>= next) := by
  intro state holds
  obtain ⟨same, kept⟩ := first state holds
  generalize result : inside state = outcome at same kept
  obtain ⟨_ | value, reached⟩ := outcome
  · rw [bind_of_error same, bind_of_error result]
    exact ⟨rfl, kept⟩
  · rw [bind_of_ok same, bind_of_ok result]
    exact second value reached kept

theorem attempt (first : Mirrors Q embed outer inside) :
    Mirrors Q embed outer.attempt inside.attempt := by
  intro state holds
  obtain ⟨same, kept⟩ := first state holds
  simp only [Throwing.attempt, same]
  exact ⟨trivial, kept⟩

theorem forEach {outerBody : α → Throwing ε τ Unit} {body : α → Throwing ε σ Unit}
    (each : ∀ item ∈ items, Mirrors Q embed (outerBody item) (body item)) :
    Mirrors Q embed (Throwing.forEach outerBody items) (Throwing.forEach body items) := by
  induction items with
  | nil => exact fun _ holds => ⟨rfl, holds⟩
  | cons item items induction =>
    apply Mirrors.bind (each item List.mem_cons_self)
    intro _
    apply induction
    intro later member
    exact each later (List.mem_cons_of_mem item member)

end Mirrors

end Throwing

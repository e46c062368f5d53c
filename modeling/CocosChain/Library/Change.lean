import Mathlib.Logic.Basic

/-!
# What happened to one key

A change record says how the value stored under one key was affected between
two moments, keeping just enough to go back.  Two consecutive records compose
to the record of the whole interval; the composition is undefined exactly on
the pairs that no sequence of events can produce when a key, once deleted, is
never created again.
-/

/-- The effect of an interval of time on the value under one key. -/
inductive Change (α : Type*) where
  | same
  | created
  | updated (was : α)
  | deleted (was : α)
  deriving DecidableEq, Repr

namespace Change

variable {α : Type*}

/-- `change.Holds before after` when the record describes a key that held
`before` at the start of the interval and `after` at its end. -/
def Holds : Change α → Option α → Option α → Prop
  | same, before, after => before = after
  | created, before, after => before = none ∧ after.isSome
  | updated was, before, after => before = some was ∧ after.isSome
  | deleted was, before, after => before = some was ∧ after = none

/-- The record of two consecutive intervals. -/
def compose : Change α → Change α → Option (Change α)
  | created, updated _ => some created
  | created, deleted _ => some same
  | created, same => some created
  | updated was, updated _ => some (updated was)
  | updated was, deleted _ => some (deleted was)
  | updated was, same => some (updated was)
  | deleted was, same => some (deleted was)
  | same, change => some change
  | _, created => none
  | deleted _, _ => none

/-- The record of two consecutive intervals that can follow each other. -/
def andThen (first second : Change α) : Change α := (first.compose second).getD first

@[simp] theorem compose_same (change : Change α) : change.compose same = some change := by
  cases change <;> rfl

@[simp] theorem andThen_same (change : Change α) : change.andThen same = change := by
  simp [andThen]

theorem created_of_andThen {second : Change α} (whole : first.andThen second = created) :
    first = created ∨ second = created := by
  cases first <;> cases second <;> simp_all [andThen, compose]

/-- Records of consecutive intervals compose to the record of their union,
provided a key created in the second one did not exist before the first. -/
theorem Holds.trans {second : Change α} (left : first.Holds before middle)
    (right : second.Holds middle after) (unused : second = created → before = none) :
    compose first second = some (first.andThen second) ∧
      (first.andThen second).Holds before after := by
  cases first <;> cases second <;> simp_all [Holds, andThen, compose]

theorem holds_created (present : after.isSome) : (created : Change α).Holds none after :=
  ⟨rfl, present⟩

theorem holds_updated (was : α) (present : after.isSome) : (updated was).Holds (some was) after :=
  ⟨rfl, present⟩

theorem holds_deleted (was : α) : (deleted was).Holds (some was) none :=
  ⟨rfl, rfl⟩

end Change

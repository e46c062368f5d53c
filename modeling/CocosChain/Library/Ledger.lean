import Mathlib.Algebra.Order.BigOperators.Group.List
import Mathlib.Algebra.Order.Ring.Int

/-!
# Keyed amounts

A ledger lists amounts under keys; a key that is not listed has the amount
zero.  Adjusting a key changes the sum over any set of keys by the adjustment
or not at all.
-/

namespace CocosChain

abbrev Ledger (Key : Type) := List (Key × Int)

namespace Ledger

variable {Key : Type} [DecidableEq Key]

def find? : Ledger Key → Key → Option Int
  | [], _ => none
  | (listed, amount) :: rest, key =>
      if listed = key then some amount else find? rest key

def amount (ledger : Ledger Key) (key : Key) : Int := (ledger.find? key).getD 0

def adjust : Ledger Key → Key → Int → Ledger Key
  | [], key, delta => [(key, delta)]
  | (listed, amount) :: rest, key, delta =>
      if listed = key then (listed, amount + delta) :: rest
      else (listed, amount) :: adjust rest key delta

/-- The sum over the keys that are counted. -/
def total (ledger : Ledger Key) (counts : Key → Bool) : Int :=
  (ledger.map fun entry => if counts entry.1 then entry.2 else 0).sum

variable {ledger : Ledger Key}

theorem find?_adjust_self : (ledger.adjust key delta).find? key =
      some (ledger.amount key + delta) := by
  induction ledger with
  | nil => simp [adjust, amount, find?]
  | cons entry rest induction =>
    obtain ⟨listed, _⟩ := entry
    by_cases same : listed = key
    · simp [adjust, amount, find?, same]
    · simpa [adjust, amount, find?, same] using induction

theorem find?_adjust_of_ne (different : other ≠ key) :
    (ledger.adjust key delta).find? other = ledger.find? other := by
  induction ledger with
  | nil => simp [adjust, find?, different.symm]
  | cons entry rest induction =>
    obtain ⟨listed, _⟩ := entry
    by_cases same : listed = key
    · simp [adjust, find?, same, different.symm]
    · by_cases here : listed = other
      · simp [adjust, find?, here, different]
      · simpa [adjust, find?, same, here] using induction

theorem amount_adjust : (ledger.adjust key delta).amount other =
      ledger.amount other + if other = key then delta else 0 := by
  by_cases same : other = key
  · subst same
    simp [amount, find?_adjust_self]
  · simp [amount, find?_adjust_of_ne same, same]

theorem total_adjust : (ledger.adjust key delta).total counts =
      ledger.total counts + if counts key then delta else 0 := by
  induction ledger with
  | nil => simp [adjust, total]
  | cons entry rest induction =>
    obtain ⟨listed, held⟩ := entry
    by_cases same : listed = key
    · subst same
      by_cases counted : counts listed
      · simp [adjust, total, counted]
        omega
      · simp [adjust, total, counted]
    · have unfolded : adjust ((listed, held) :: rest) key delta =
          (listed, held) :: adjust rest key delta := by
        simp [adjust, same]
      rw [unfolded]
      simp only [total, List.map_cons, List.sum_cons] at induction ⊢
      omega

/-- No entry is negative. -/
def Nonneg (ledger : Ledger Key) : Prop := ∀ entry ∈ ledger, 0 ≤ entry.2

theorem Nonneg.adjust (nonneg : ledger.Nonneg) (covered : 0 ≤ ledger.amount key + delta) :
    (ledger.adjust key delta).Nonneg := by
  induction ledger with
  | nil =>
    intro entry member
    simp only [Ledger.adjust, List.mem_singleton] at member
    subst member
    simpa [amount, find?] using covered
  | cons entry rest induction =>
    obtain ⟨listed, held⟩ := entry
    obtain ⟨here, later⟩ := List.forall_mem_cons.mp nonneg
    by_cases same : listed = key
    · have sum : 0 ≤ held + delta := by
        simpa [amount, find?, same] using covered
      simp only [Ledger.adjust, same, if_true]
      exact List.forall_mem_cons.mpr ⟨sum, later⟩
    · have rest_covered : 0 ≤ Ledger.amount rest key + delta := by
        simpa [amount, find?, same] using covered
      simp only [Ledger.adjust, same, if_false]
      exact List.forall_mem_cons.mpr ⟨here, induction later rest_covered⟩

omit [DecidableEq Key] in
theorem Nonneg.total (nonneg : ledger.Nonneg) : 0 ≤ ledger.total counts := by
  apply List.sum_nonneg
  intro counted member
  obtain ⟨entry, listed, rfl⟩ := List.mem_map.mp member
  by_cases counts_it : counts entry.1
  · simpa [counts_it] using nonneg entry listed
  · simp [counts_it]

theorem Nonneg.amount (nonneg : ledger.Nonneg) : 0 ≤ ledger.amount key := by
  induction ledger with
  | nil => simp [Ledger.amount, find?]
  | cons entry rest induction =>
    obtain ⟨listed, _⟩ := entry
    obtain ⟨here, later⟩ := List.forall_mem_cons.mp nonneg
    by_cases same : listed = key
    · simpa [Ledger.amount, find?, same] using here
    · simpa [Ledger.amount, find?, same] using induction later

end Ledger

end CocosChain

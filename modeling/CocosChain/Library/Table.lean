import Mathlib.Algebra.BigOperators.Intervals
import Mathlib.Algebra.Order.BigOperators.Group.Finset
import Mathlib.Algebra.Order.Ring.Int
import Mathlib.Data.List.Sort

/-!
# Tables of numbered objects

Objects are kept under consecutive numbers, and a number is never given out a
second time.  A slot may be left empty.  Amounts carried by the objects are
added up over the table; the lemmas say how each change of the table moves
such a total.
-/

namespace CocosChain

@[ext]
structure Table (Object : Type) where
  next : Nat
  get : Nat → Option Object
  fresh : ∀ id, next ≤ id → get id = none

namespace Table

variable {Object : Type}

def empty : Table Object where
  next := 0
  get _ := none
  fresh _ _ := rfl

/-- Gives out the next number, to an object or to nothing. -/
def append (table : Table Object) (slot : Option Object) : Table Object where
  next := table.next + 1
  get id := if id = table.next then slot else table.get id
  fresh id beyond := by
    have other : id ≠ table.next := by omega
    rw [if_neg other]
    exact table.fresh id (by omega)

def create (table : Table Object) (object : Object) : Table Object := table.append (some object)

/-- Changes the object under the number, if there is one. -/
def update (table : Table Object) (id : Nat) (change : Object → Option Object) : Table Object where
  next := table.next
  get other := if other = id then (table.get id).bind change
    else table.get other
  fresh other beyond := by
    have empty : table.get other = none := table.fresh other beyond
    by_cases same : other = id
    · subst same
      simp [empty]
    · simpa [same] using empty

def modify (table : Table Object) (id : Nat) (change : Object → Object) : Table Object :=
  table.update id fun object => some (change object)

def remove (table : Table Object) (id : Nat) : Table Object := table.update id fun _ => none

/-- The objects with their numbers, in the order of the numbers. -/
def rows (table : Table Object) : List (Nat × Object) :=
  (List.range table.next).filterMap fun id =>
    (table.get id).map fun object => (id, object)

/-- The sum of an amount that objects carry. -/
def total (table : Table Object) (weight : Object → Int) : Int :=
  ∑ id ∈ Finset.range table.next, (table.get id).elim 0 weight

variable {table : Table Object} {id : Nat}

theorem lt_next (held : table.get id = some object) : id < table.next := by
  apply Nat.lt_of_not_le
  intro beyond
  rw [table.fresh id beyond] at held
  cases held

@[simp] theorem get_next : table.get table.next = none := table.fresh _ (Nat.le_refl _)

@[simp] theorem next_create : (table.create object).next = table.next + 1 := rfl

theorem get_append : (table.append slot).get id =
      if id = table.next then slot else table.get id := rfl

theorem get_create : (table.create object).get id =
      if id = table.next then some object else table.get id := rfl

theorem get_modify : (table.modify id change).get other =
      if other = id then (table.get id).map change else table.get other := by
  by_cases same : other = id
  · subst same
    cases held : table.get other with
    | none => simp [modify, update, held]
    | some object => simp [modify, update, held]
  · simp [modify, update, same]

theorem get_remove : (table.remove id).get other =
      if other = id then none else table.get other := by
  by_cases same : other = id
  · simp [remove, update, same]
  · simp [remove, update, same]

theorem remove_modify : (table.modify id change).remove id = table.remove id := by
  apply Table.ext
  · rfl
  · funext other
    rw [get_remove, get_remove, get_modify]
    split
    · rfl
    · rfl

theorem mem_rows : (id, object) ∈ table.rows ↔ table.get id = some object := by
  constructor
  · intro member
    obtain ⟨_, -, row⟩ := List.mem_filterMap.mp member
    obtain ⟨_, held, same⟩ := Option.map_eq_some_iff.mp row
    cases same
    exact held
  · intro held
    apply List.mem_filterMap.mpr
    exact ⟨id, List.mem_range.mpr (lt_next held), by simp [held]⟩

theorem rows_sorted : table.rows.Pairwise fun left right => left.1 < right.1 := by
  apply List.pairwise_filterMap.mpr
  apply List.pairwise_lt_range.imp
  intro first second less left here right there
  obtain ⟨_, -, rfl⟩ := Option.map_eq_some_iff.mp here
  obtain ⟨_, -, rfl⟩ := Option.map_eq_some_iff.mp there
  exact less

theorem nodup_sorted_rows [DecidableRel before] :
    (((table.rows.filter selects).insertionSort before).map Prod.fst).Nodup := by
  apply ((List.perm_insertionSort _ _).map Prod.fst).nodup_iff.mpr
  apply (List.filter_sublist.map Prod.fst).nodup
  apply List.pairwise_map.mpr
  exact rows_sorted.imp Nat.ne_of_lt

/-- Every object satisfies the property. -/
def Forall (table : Table Object) (property : Nat → Object → Prop) : Prop :=
  ∀ id object, table.get id = some object → property id object

variable {property : Nat → Object → Prop}

section

variable (every : table.Forall property)
include every

theorem Forall.create (new : property table.next object) :
    (table.create object).Forall property := by
  intro number found held
  rw [get_create] at held
  by_cases same : number = table.next
  · subst same
    rw [if_pos rfl] at held
    cases held
    exact new
  · rw [if_neg same] at held
    exact every number found held

theorem Forall.modify
    (changes : ∀ object, table.get id = some object → property id (change object)) :
    (table.modify id change).Forall property := by
  intro number found held
  rw [get_modify] at held
  by_cases same : number = id
  · subst same
    rw [if_pos rfl] at held
    obtain ⟨object, before, rfl⟩ := Option.map_eq_some_iff.mp held
    exact changes object before
  · rw [if_neg same] at held
    exact every number found held

theorem Forall.remove : (table.remove id).Forall property := by
  intro number found held
  rw [get_remove] at held
  by_cases same : number = id
  · simp [same] at held
  · rw [if_neg same] at held
    exact every number found held

theorem Forall.mono (implies : ∀ id object, property id object → weaker id object) :
    table.Forall weaker :=
  fun id object held => implies id object (every id object held)

end

@[simp] theorem total_empty : (empty : Table Object).total weight = 0 := by
  simp [total, empty]

theorem total_append : (table.append slot).total weight =
      table.total weight + slot.elim 0 weight := by
  have earlier : ∀ id ∈ Finset.range table.next,
      ((table.append slot).get id).elim 0 weight = (table.get id).elim 0 weight := by
    intro id within
    have other : id ≠ table.next := by
      have bound := Finset.mem_range.mp within
      omega
    rw [get_append, if_neg other]
  have last : (table.append slot).get table.next = slot := by
    rw [get_append, if_pos rfl]
  show ∑ id ∈ Finset.range (table.next + 1), _ = _
  rw [Finset.sum_range_succ, Finset.sum_congr rfl earlier, last]
  rfl

theorem total_create : (table.create object).total weight = table.total weight + weight object :=
  total_append

theorem total_update (held : table.get id = some object) : (table.update id change).total weight =
      table.total weight - weight object + (change object).elim 0 weight := by
  have within : id ∈ Finset.range table.next := Finset.mem_range.mpr (lt_next held)
  have others : ∀ other ∈ (Finset.range table.next).erase id,
      ((table.update id change).get other).elim 0 weight = (table.get other).elim 0 weight := by
    intro other member
    simp [update, Finset.ne_of_mem_erase member]
  have here : (table.update id change).get id = change object := by
    simp [update, held]
  have before := Finset.add_sum_erase (Finset.range table.next)
    (fun id => (table.get id).elim 0 weight) within
  have after := Finset.add_sum_erase (Finset.range table.next)
    (fun other => ((table.update id change).get other).elim 0 weight) within
  rw [Finset.sum_congr rfl others] at after
  simp only [here, held, Option.elim_some] at before after
  show ∑ id ∈ Finset.range table.next, _ = _ - _ + _
  unfold total
  omega

theorem total_modify (held : table.get id = some object) : (table.modify id change).total weight =
      table.total weight - weight object + weight (change object) :=
  total_update held

theorem total_modify_of_same
    (same : ∀ object, table.get id = some object → weight (change object) = weight object) :
    (table.modify id change).total weight = table.total weight := by
  apply Finset.sum_congr rfl
  intro other _
  rw [get_modify]
  split
  · rename_i here
    cases held : table.get id with
    | none => simp [here, held]
    | some object => simp [here, held, same object held]
  · rfl

theorem total_remove (held : table.get id = some object) :
    (table.remove id).total weight = table.total weight - weight object := by
  rw [remove, total_update held]
  simp

theorem total_eq_zero (zero : table.Forall fun _ object => weight object = 0) :
    table.total weight = 0 := by
  apply Finset.sum_eq_zero
  intro id _
  cases held : table.get id with
  | none => rfl
  | some object => exact zero id object held

theorem total_nonneg (nonneg : table.Forall fun _ object => 0 ≤ weight object) :
    0 ≤ table.total weight := by
  apply Finset.sum_nonneg
  intro id _
  cases held : table.get id with
  | none => exact Int.le_refl 0
  | some object => exact nonneg id object held

theorem le_total (nonneg : table.Forall fun _ object => 0 ≤ weight object)
    (held : table.get id = some object) : weight object ≤ table.total weight := by
  have others : 0 ≤ (table.remove id).total weight := total_nonneg nonneg.remove
  rw [total_remove held] at others
  omega

def used (table : Table Object) : Finset Nat :=
  (Finset.range table.next).filter fun id => (table.get id).isSome

theorem mem_used : id ∈ table.used ↔ ∃ object, table.get id = some object := by
  rw [used, Finset.mem_filter, Finset.mem_range, Option.isSome_iff_exists]
  exact ⟨fun both => both.2, fun held => ⟨lt_next held.choose_spec, held⟩⟩

theorem card_used_le : table.used.card ≤ table.next :=
  (Finset.card_filter_le _ _).trans (Finset.card_range _).le

theorem card_used_lt {fewer : Table Object}
    (old : ∀ id object, fewer.get id = some object → ∃ before, table.get id = some before)
    (held : table.get id = some object) (gone : fewer.get id = none) :
    fewer.used.card < table.used.card := by
  apply Finset.card_lt_card
  refine ⟨fun other member => ?_, fun all => ?_⟩
  · obtain ⟨found, there⟩ := mem_used.mp member
    exact mem_used.mpr (old other found there)
  · obtain ⟨_, there⟩ := mem_used.mp (all (mem_used.mpr ⟨object, held⟩))
    rw [gone] at there
    cases there

end Table

end CocosChain

import Mathlib.Data.List.Sort

/-!
# Sorting by a relation that orders the members

A relation that is total and transitive on the members of a list orders the
list when it is sorted, whatever it is on other values.  A sorted list starts
with a member that comes before all others.
-/

namespace CocosChain.Sorting

variable {Value : Type} {before : Value → Value → Prop}

/-- The relation orders the members of the list. -/
structure Orders (before : Value → Value → Prop) (values : List Value) : Prop where
  total : ∀ left ∈ values, ∀ right ∈ values,
    before left right ∨ before right left
  trans : ∀ left ∈ values, ∀ middle ∈ values, ∀ right ∈ values,
    before left middle → before middle right → before left right

theorem Orders.mono (orders : Orders before values) (among : ∀ value ∈ fewer, value ∈ values) :
    Orders before fewer where
  total left here right there := orders.total left (among left here) right (among right there)
  trans left here middle between right there :=
    orders.trans left (among left here) middle (among middle between) right (among right there)

theorem orders_of_key {Key : Type} [LinearOrder Key] (key : Value → Key)
    (compares : ∀ left ∈ values, ∀ right ∈ values, (before left right ↔ key left ≤ key right)) :
    Orders before values where
  total left here right there := by
    rw [compares left here right there, compares right there left here]
    exact le_total (key left) (key right)
  trans left here middle between right there := by
    rw [compares left here middle between, compares middle between right
      there, compares left here right there]
    exact le_trans

variable [DecidableRel before]

theorem pairwise_orderedInsert (orders : Orders before (value :: values))
    (sorted : values.Pairwise before) : (values.orderedInsert before value).Pairwise before := by
  induction values with
  | nil => simp
  | cons head rest induction =>
    obtain ⟨first, later⟩ := List.pairwise_cons.mp sorted
    rw [List.orderedInsert_cons]
    split
    · rename_i earlier
      refine List.pairwise_cons.mpr ⟨?_, sorted⟩
      intro other member
      rcases List.mem_cons.mp member with rfl | further
      · exact earlier
      · exact orders.trans value (by simp) head (by simp) other
          (by simp [further]) earlier (first other further)
    · rename_i notEarlier
      have headFirst : before head value :=
        (orders.total value (by simp) head (by simp)).resolve_left notEarlier
      have restOrders : Orders before (value :: rest) := orders.mono (by simp +contextual)
      refine List.pairwise_cons.mpr ⟨?_, induction restOrders later⟩
      intro other member
      rcases List.mem_cons.mp ((List.perm_orderedInsert before value rest).mem_iff.mp member)
        with rfl | further
      · exact headFirst
      · exact first other further

theorem pairwise_insertionSort (orders : Orders before values) :
    (values.insertionSort before).Pairwise before := by
  induction values with
  | nil => simp
  | cons head rest induction =>
    apply pairwise_orderedInsert
    · apply orders.mono
      intro value member
      rcases List.mem_cons.mp member with rfl | later
      · exact List.mem_cons_self
      · exact List.mem_cons_of_mem _ ((List.mem_insertionSort before).mp later)
    · exact induction (orders.mono fun value => List.mem_cons_of_mem _)

theorem head_insertionSort (orders : Orders before values)
    (head : (values.insertionSort before).head? = some first)
    (member : value ∈ values) : before first value := by
  have sorted := pairwise_insertionSort orders
  have there := (List.mem_insertionSort before).mpr member
  cases list : values.insertionSort before with
  | nil =>
    rw [list] at there
    cases there
  | cons least rest =>
    rw [list] at head sorted there
    cases head
    rcases List.mem_cons.mp there with rfl | later
    · exact (orders.total value member value member).elim id id
    · exact (List.pairwise_cons.mp sorted).1 value later

end CocosChain.Sorting

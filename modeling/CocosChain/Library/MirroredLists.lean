import Mathlib.Data.List.Nodup
import Mathlib.Logic.Function.Basic

/-!
# A relation listed at both ends

Each member lists the members below it and those above it.  The two lists
mirror each other if a member is below another exactly if that one is above it,
and no list has a member twice.
-/

namespace CocosChain

structure MirroredLists {Id : Type} (down up : Id → List Id) : Prop where
  mem_iff : ∀ {parent child}, child ∈ down parent ↔ parent ∈ up child
  down_nodup : ∀ parent, (down parent).Nodup
  up_nodup : ∀ child, (up child).Nodup

namespace MirroredLists

variable {Id : Type} [DecidableEq Id] {down up : Id → List Id}

omit [DecidableEq Id] in
theorem empty : MirroredLists (fun _ : Id => []) fun _ => [] :=
  ⟨by simp, fun _ => List.nodup_nil, fun _ => List.nodup_nil⟩

variable {lists : Id → List Id}

theorem nodup_update (nodup : ∀ id, (lists id).Nodup) (here : changed.Nodup) (id : Id) :
    (Function.update lists member changed id).Nodup := by
  by_cases same : id = member
  · subst same
    rwa [Function.update_self]
  · rw [Function.update_of_ne same]
    exact nodup id

theorem mem_update_concat {id : Id} :
    other ∈ Function.update lists member (lists member ++ [new]) id ↔
      other ∈ lists id ∨ id = member ∧ other = new := by
  by_cases same : id = member
  · subst same
    simp
  · simp [same]

theorem mem_update_erase {id : Id} (nodup : (lists member).Nodup) :
    other ∈ Function.update lists member ((lists member).erase old) id ↔
      other ∈ lists id ∧ ¬ (id = member ∧ other = old) := by
  by_cases same : id = member
  · subst same
    simp [nodup.mem_erase_iff, and_comm]
  · simp [same]

variable (mirrored : MirroredLists down up)
include mirrored

theorem concat (new : child ∉ down parent) :
    MirroredLists (Function.update down parent (down parent ++ [child]))
      (Function.update up child (up child ++ [parent])) where
  mem_iff := by
    intro other below
    rw [mem_update_concat, mem_update_concat, mirrored.mem_iff]
    exact or_congr_right and_comm
  down_nodup := nodup_update mirrored.down_nodup
    (List.concat_eq_append ▸ (mirrored.down_nodup parent).concat new)
  up_nodup := nodup_update mirrored.up_nodup
    (List.concat_eq_append ▸ (mirrored.up_nodup child).concat fun above =>
      new (mirrored.mem_iff.mpr above))

/-- A pair that is listed at one end only is not mirrored. -/
theorem not_concat_down (new : child ∉ down parent) :
    ¬ MirroredLists (Function.update down parent (down parent ++ [child]))
      up := by
  intro after
  have above : parent ∈ up child := after.mem_iff.mp (mem_update_concat.mpr (.inr ⟨rfl, rfl⟩))
  exact new (mirrored.mem_iff.mpr above)

theorem erase : MirroredLists (Function.update down parent ((down parent).erase child))
      (Function.update up child ((up child).erase parent)) where
  mem_iff := by
    intro other below
    rw [mem_update_erase (mirrored.down_nodup parent),
      mem_update_erase (mirrored.up_nodup child), mirrored.mem_iff]
    exact and_congr_right fun _ => not_congr and_comm
  down_nodup := nodup_update mirrored.down_nodup ((mirrored.down_nodup parent).erase child)
  up_nodup := nodup_update mirrored.up_nodup ((mirrored.up_nodup child).erase parent)

/-- A member's lists can go exactly if they list nobody else. -/
theorem clear_iff : MirroredLists (Function.update down member []) (Function.update up member []) ↔
      (∀ child ∈ down member, child = member) ∧ ∀ parent ∈ up member, parent = member := by
  constructor
  · intro after
    constructor
    · intro child below
      by_contra other
      have above : member ∈ Function.update up member [] child := by
        rw [Function.update_of_ne other]
        exact mirrored.mem_iff.mp below
      simpa using after.mem_iff.mpr above
    · intro parent above
      by_contra other
      have below : member ∈ Function.update down member [] parent := by
        rw [Function.update_of_ne other]
        exact mirrored.mem_iff.mpr above
      simpa using after.mem_iff.mp below
  · rintro ⟨alone, single⟩
    refine ⟨?_, nodup_update mirrored.down_nodup List.nodup_nil,
      nodup_update mirrored.up_nodup List.nodup_nil⟩
    intro parent child
    by_cases here : parent = member
    · subst here
      by_cases there : child = parent
      · simp [there]
      · rw [Function.update_self, Function.update_of_ne there]
        constructor
        · intro below
          cases below
        · intro above
          exact absurd (alone child (mirrored.mem_iff.mpr above)) there
    · rw [Function.update_of_ne here]
      by_cases there : child = member
      · subst there
        rw [Function.update_self]
        constructor
        · intro below
          exact absurd (single parent (mirrored.mem_iff.mp below)) here
        · intro above
          cases above
      · rw [Function.update_of_ne there]
        exact mirrored.mem_iff

end MirroredLists

end CocosChain

import Mathlib.Algebra.Order.Group.Nat
import Mathlib.Data.List.Basic
import Mathlib.Data.Set.List
import Mathlib.Logic.Function.Iterate

/-!
# Hashing a list in pairs

The digests of a list are hashed in pairs, round by round, until one is left;
the last one of an odd number waits for the next round.  If a digest tells what
has been hashed, the digest that is left tells the whole list: it is that of a
tree whose leaves, from left to right, are the list.
-/

namespace CocosChain.Library

variable {α δ : Type}

/-- One round. -/
def pairUp (pair : δ → δ → δ) : List δ → List δ
  | [] => []
  | [last] => [last]
  | first :: second :: rest => pair first second :: pairUp pair rest

/-- The rounds.  There is nothing to do once a single digest is left, so as
many rounds as there are digests are enough. -/
def collapse (pair : δ → δ → δ) (digests : List δ) : List δ :=
  (pairUp pair)^[digests.length] digests

theorem length_pairUp (pair : δ → δ → δ) (digests : List δ) :
    (pairUp pair digests).length = (digests.length + 1) / 2 := by
  fun_induction pairUp pair digests with
  | case1 => simp
  | case2 last => simp
  | case3 first second rest induction =>
    simp only [List.length_cons, induction]
    omega

theorem length_collapse (pair : δ → δ → δ) (nonempty : digests ≠ []) :
    (collapse pair digests).length = 1 := by
  have rounds (count : Nat) : ((pairUp pair)^[count] digests).length ≤
          max 1 (digests.length - count) ∧ 0 < ((pairUp pair)^[count] digests).length := by
    induction count with
    | zero =>
      have := List.length_pos_of_ne_nil nonempty
      simp only [Function.iterate_zero, id_eq]
      omega
    | succ count induction =>
      rw [Function.iterate_succ_apply', length_pairUp]
      omega
  have := rounds digests.length
  unfold collapse
  omega

inductive HashTree (α : Type) where
  | leaf (value : α)
  | node (left right : HashTree α)

namespace HashTree

/-- The leaves, from left to right. -/
def fringe : HashTree α → List α
  | leaf value => [value]
  | node left right => left.fringe ++ right.fringe

def digest (single : α → δ) (pair : δ → δ → δ) : HashTree α → δ
  | leaf value => single value
  | node left right =>
      pair (left.digest single pair) (right.digest single pair)

variable {single : α → δ} {pair : δ → δ → δ}

theorem digest_injective (singles : Function.Injective single) (pairs : Function.Injective2 pair)
    (apart : ∀ value left right, single value ≠ pair left right) :
    Function.Injective (digest single pair) := by
  intro first
  induction first with
  | leaf value =>
    intro second same
    cases second with
    | leaf other => rw [singles same]
    | node left right => exact absurd same (apart _ _ _)
  | node left right leftInduction rightInduction =>
    intro second same
    cases second with
    | leaf other => exact absurd same.symm (apart _ _ _)
    | node otherLeft otherRight =>
      obtain ⟨sameLeft, sameRight⟩ := pairs same
      rw [leftInduction sameLeft, rightInduction sameRight]

theorem pairUp_digest : Function.Semiconj
    (List.map (digest single pair)) (pairUp node) (pairUp pair) := by
  intro trees
  fun_induction pairUp node trees with
  | case1 => rfl
  | case2 last => rfl
  | case3 first second rest induction =>
    simp only [List.map_cons, pairUp, induction, digest]

theorem pairUp_fringe (trees : List (HashTree α)) :
    (pairUp node trees).flatMap fringe = trees.flatMap fringe := by
  fun_induction pairUp node trees with
  | case1 => rfl
  | case2 last => rfl
  | case3 first second rest induction =>
    simp only [List.flatMap_cons, induction, fringe, List.append_assoc]

/-- What is left is the digest of the tree that is built in the same rounds. -/
theorem collapse_eq_tree (nonempty : values ≠ []) : ∃ tree : HashTree α,
      collapse node (values.map leaf) = [tree] ∧ tree.fringe = values ∧
      collapse pair (values.map single) = [tree.digest single pair] := by
  let trees := values.map leaf
  have start : values.map single = trees.map (digest single pair) := by
    simp only [trees, List.map_map]
    rfl
  have fringes (count : Nat) : ((pairUp node)^[count] trees).flatMap fringe = values := by
    induction count with
    | zero => simp [trees, List.flatMap_map, fringe]
    | succ count induction =>
      rw [Function.iterate_succ_apply', pairUp_fringe, induction]
  have some_ : trees ≠ [] := by simpa [trees] using nonempty
  obtain ⟨tree, isTree⟩ := List.length_eq_one_iff.mp (length_collapse node some_)
  refine ⟨tree, isTree, ?_, ?_⟩
  · have only := fringes trees.length
    rw [← collapse, isTree] at only
    simpa using only
  · rw [start, collapse, List.length_map, ← pairUp_digest.iterate_right trees.length trees,
      ← collapse, isTree]
    rfl

/-- The digest that is left tells the list, if no member is that of a pair. -/
theorem collapse_injective (pairs : Function.Injective2 pair)
    (firstApart : ∀ digest ∈ first, ∀ left right, digest ≠ pair left right)
    (secondApart : ∀ digest ∈ second, ∀ left right, digest ≠ pair left right)
    (firstNonempty : first ≠ []) (secondNonempty : second ≠ [])
    (same : collapse pair first = collapse pair second) : first = second := by
  lift first to List { digest // ∀ left right, digest ≠ pair left right } using firstApart
  lift second to List { digest // ∀ left right, digest ≠ pair left right } using secondApart
  obtain ⟨_, -, rfl, firstTree⟩ := collapse_eq_tree (mt (congrArg _) firstNonempty)
  obtain ⟨_, -, rfl, secondTree⟩ := collapse_eq_tree (mt (congrArg _) secondNonempty)
  rw [firstTree, secondTree] at same
  rw [digest_injective Subtype.val_injective pairs Subtype.prop (List.singleton_injective same)]

end HashTree

end CocosChain.Library

import Mathlib.Data.Set.Lattice
import Mathlib.Algebra.Order.BigOperators.Group.List
import Mathlib.Algebra.Order.Ring.Nat
import Mathlib.Order.CompletePartialOrder

/-!
# Weighted approval

Somebody's consent may be given by others, each of whom carries a weight, as
soon as the weights of those who consent reach a threshold.  Consent is then
derived in levels: at each level, members count whose own consent has been
derived below it.  Since nobody names infinitely many members, whatever can be
derived at all is derived at some level.
-/

namespace CocosChain

variable {α : Type}

open Classical in
/-- The weight of the members for whom `P` holds. -/
noncomputable def weightOf (P : α → Prop) (members : List (α × Nat)) : Nat :=
  (members.map fun member => if P member.1 then member.2 else 0).sum

namespace weightOf

variable {P : α → Prop}

@[simp] theorem nil : weightOf P [] = 0 := rfl

theorem cons_of (holds : P member.1) :
    weightOf P (member :: members) = member.2 + weightOf P members := by
  unfold weightOf
  rw [List.map_cons, if_pos holds, List.sum_cons]

theorem cons_of_not (fails : ¬ P member.1) :
    weightOf P (member :: members) = weightOf P members := by
  unfold weightOf
  rw [List.map_cons, if_neg fails, List.sum_cons, Nat.zero_add]

theorem le_cons : weightOf P members ≤ weightOf P (member :: members) := by
  by_cases holds : P member.1
  · exact Nat.le_add_left _ _
  · rw [cons_of_not holds]

theorem mono (implies : ∀ member ∈ members, P member.1 → Q member.1) :
    weightOf P members ≤ weightOf Q members := by
  induction members with
  | nil => exact le_rfl
  | cons member members induction =>
    have below := induction fun other within =>
      implies other (List.mem_cons_of_mem _ within)
    by_cases holds : P member.1
    · rw [cons_of holds, cons_of (implies member List.mem_cons_self holds)]
      exact Nat.add_le_add_left below _
    · rw [cons_of_not holds]
      exact below.trans le_cons

theorem eq_sum (all : ∀ member ∈ members, P member.1) :
    weightOf P members = (members.map Prod.snd).sum := by
  unfold weightOf
  congr 1
  exact List.map_congr_left fun member within => if_pos (all member within)

theorem add_le_sum (disjoint : ∀ member ∈ members, P member.1 → ¬ Q member.1) :
    weightOf P members + weightOf Q members ≤ (members.map Prod.snd).sum := by
  unfold weightOf
  rw [← List.sum_map_add]
  apply List.sum_le_sum
  intro member within
  have apart := disjoint member within
  split_ifs with left right
  · exact (apart left right).elim
  · exact le_rfl
  · rw [Nat.zero_add]
  · exact Nat.zero_le _

theorem le_sum : weightOf P members ≤ (members.map Prod.snd).sum :=
  le_self_add.trans (add_le_sum (Q := fun _ => False) fun _ _ _ => id)

end weightOf

/-- What consent needs: `own` is there already, the members may add to it. -/
structure Ballot (α : Type) where
  own : Nat
  members : List (α × Nat)
  threshold : Nat

namespace Ballot

variable {ballot : Ballot α}

/-- The members in `granted` carry the ballot. -/
def CarriedBy (ballot : Ballot α) (granted : Set α) : Prop :=
  ballot.threshold ≤ ballot.own + weightOf (· ∈ granted) ballot.members

theorem CarriedBy.mono (carried : ballot.CarriedBy granted)
    (implies : granted ⊆ wider) : ballot.CarriedBy wider :=
  carried.trans (Nat.add_le_add_left (weightOf.mono fun _ _ holds => implies holds) _)

/-- Finitely many members are reached by a member of a growing family. -/
theorem CarriedBy.exists_level {level : Nat → Set α} (rises : Monotone level)
    (carried : ballot.CarriedBy (⋃ depth, level depth)) :
    ∃ depth, ballot.CarriedBy (level depth) := by
  have reached : ∃ depth, ∀ member ∈ ballot.members,
      member.1 ∈ ⋃ depth, level depth → member.1 ∈ level depth := by
    induction ballot.members with
    | nil => exact ⟨0, nofun⟩
    | cons member members induction =>
      obtain ⟨depth, below⟩ := induction
      by_cases known : member.1 ∈ ⋃ depth, level depth
      · obtain ⟨own, holds⟩ := Set.mem_iUnion.mp known
        refine ⟨max depth own, ?_⟩
        intro other within isKnown
        rcases List.mem_cons.mp within with rfl | within
        · exact rises (le_max_right _ _) holds
        · exact rises (le_max_left _ _) (below other within isKnown)
      · refine ⟨depth, ?_⟩
        intro other within isKnown
        rcases List.mem_cons.mp within with rfl | within
        · exact absurd isKnown known
        · exact below other within isKnown
  obtain ⟨depth, below⟩ := reached
  exact ⟨depth, carried.trans (Nat.add_le_add_left (weightOf.mono below) _)⟩

end Ballot

section Levels

variable (ballots : α → Option (Ballot α)) (approved : Set α)

/-- Those who consent within `depth` levels, if `approved` do so anyway. -/
def approvedWithin : Nat → Set α
  | 0 => approved
  | depth + 1 =>
      approved ∪ {member | ∃ ballot, ballots member = some ballot ∧
        ballot.CarriedBy (approvedWithin depth)}

/-- Those who consent within any number of levels. -/
def approvedAtAll : Set α := ⋃ depth, approvedWithin ballots approved depth

variable {ballots} {approved}

theorem subset_approvedWithin (depth : Nat) : approved ⊆ approvedWithin ballots approved depth := by
  cases depth with
  | zero => exact subset_rfl
  | succ depth => exact Set.subset_union_left

theorem approvedWithin_mono : Monotone (approvedWithin ballots approved) := by
  apply monotone_nat_of_le_succ
  intro depth
  induction depth with
  | zero => exact subset_approvedWithin 1
  | succ depth induction =>
    apply Set.union_subset_union_right
    rintro _ ⟨ballot, isBallot, carried⟩
    exact ⟨ballot, isBallot, carried.mono induction⟩

theorem subset_approvedAtAll : approved ⊆ approvedAtAll ballots approved :=
  Set.subset_iUnion (approvedWithin ballots approved) 0

theorem mem_approvedAtAll (isBallot : ballots member = some ballot)
    (carried : ballot.CarriedBy (approvedAtAll ballots approved)) :
    member ∈ approvedAtAll ballots approved := by
  obtain ⟨depth, within⟩ := carried.exists_level approvedWithin_mono
  exact Set.mem_iUnion.mpr ⟨depth + 1, .inr ⟨ballot, isBallot, within⟩⟩

end Levels

/-- Adds up, in a machine word, the weights of the members that `ask` says yes
to.  Without a result the threshold has been reached on the way. -/
def tally {S : Type} (ask : α → S → Bool × S) (threshold : UInt32) :
    List (α × UInt16) → UInt32 → S → Option UInt32 × S
  | [], total, state => (some total, state)
  | (member, weight) :: members, total, state =>
      let (yes, state) := ask member state
      if yes then
        let total := total + weight.toUInt32
        if threshold ≤ total then (none, state)
        else tally ask threshold members total state
      else tally ask threshold members total state

/-- The members with their weights as numbers. -/
def weights (members : List (α × UInt16)) : List (α × Nat) :=
  members.map fun member => (member.1, member.2.toNat)

/-- What a tally says: with the threshold reached on the way, and without. -/
structure Tallied (threshold : UInt32) (members : List (α × UInt16))
    (total : UInt32) (lower upper : α → Prop) (result : Option UInt32) : Prop where
  reached : result = none → threshold.toNat ≤ total.toNat + weightOf upper (weights members)
  atMost : ∀ final, result = some final →
    final.toNat ≤ total.toNat + weightOf upper (weights members)
  atLeast : ∀ final, result = some final →
    total.toNat + ((weights members).map Prod.snd).sum < 2 ^ 32 →
      total.toNat + weightOf lower (weights members) ≤ final.toNat

section Tally

variable {S : Type} {ask : α → S → Bool × S} {upper : α → Prop} {Inv : S → Prop}

theorem add_weight_le (total : UInt32) (weight : UInt16) :
    (total + weight.toUInt32).toNat ≤ total.toNat + weight.toNat := by
  exact Nat.mod_le _ _

theorem add_weight_eq {weight : UInt16} (fits : total.toNat + weight.toNat < 2 ^ 32) :
    (total + weight.toUInt32).toNat = total.toNat + weight.toNat := by
  rw [UInt32.toNat_add, UInt16.toNat_toUInt32, Nat.mod_eq_of_lt fits]

namespace Tallied

theorem nil : Tallied threshold ([] : List (α × UInt16)) total lower upper (some total) where
  reached := nofun
  atMost := by
    rintro final ⟨⟩
    exact Nat.le_add_right _ _
  atLeast := by
    rintro _ ⟨⟩ _
    exact le_rfl

theorem skip (tallied : Tallied threshold members total lower upper result)
    (notLower : ¬ lower member) :
    Tallied threshold ((member, weight) :: members) total lower upper result where
  reached isNone := (tallied.reached isNone).trans (Nat.add_le_add_left weightOf.le_cons _)
  atMost final isSome :=
    (tallied.atMost final isSome).trans (Nat.add_le_add_left weightOf.le_cons _)
  atLeast final isSome fits := by
    have below : total.toNat + ((weights members).map Prod.snd).sum < 2 ^ 32 :=
      (Nat.add_le_add_left (Nat.le_add_left _ _) _).trans_lt fits
    have counted : weightOf lower (weights ((member, weight) :: members)) =
        weightOf lower (weights members) := weightOf.cons_of_not notLower
    rw [counted]
    exact tallied.atLeast final isSome below

theorem stop (isUpper : upper member) (reached : threshold ≤ total + weight.toUInt32) :
    Tallied threshold ((member, weight) :: members) total lower upper none where
  reached _ := by
    have bound := (UInt32.le_iff_toNat_le.mp reached).trans (add_weight_le total weight)
    have counted : weightOf upper (weights ((member, weight) :: members)) =
        weight.toNat + weightOf upper (weights members) :=
      weightOf.cons_of isUpper
    omega
  atMost := nofun
  atLeast := nofun

theorem add (isUpper : upper member)
    (tallied : Tallied threshold members (total + weight.toUInt32) lower upper result) :
    Tallied threshold ((member, weight) :: members) total lower upper
      result := by
  have bound := add_weight_le total weight
  have counted : weightOf upper (weights ((member, weight) :: members)) =
      weight.toNat + weightOf upper (weights members) :=
    weightOf.cons_of isUpper
  constructor
  · intro isNone
    have reached := tallied.reached isNone
    omega
  · intro final isSome
    have atMost := tallied.atMost final isSome
    omega
  · intro final isSome fits
    change total.toNat + (weight.toNat + ((weights members).map Prod.snd).sum) < 2 ^ 32 at fits
    have sum := add_weight_eq (by omega : total.toNat + weight.toNat < 2 ^ 32)
    have atLeast := tallied.atLeast final isSome (by omega)
    have counts : weightOf lower (weights ((member, weight) :: members)) ≤
        weight.toNat + weightOf lower (weights members) := by
      by_cases isLower : lower member
      · exact (weightOf.cons_of isLower).le
      · exact (weightOf.cons_of_not isLower).le.trans (Nat.le_add_left _ _)
    omega

end Tallied

/-- If everybody in `lower` is answered yes and only those in `upper` are, the
total lies between their weights. -/
theorem tally_spec (threshold : UInt32) (members : List (α × UInt16))
    (asked : ∀ member ∈ members.map Prod.fst, ∀ state, Inv state →
      Inv (ask member state).2 ∧ ((ask member state).1 = true → upper member) ∧
        (lower member → (ask member state).1 = true))
    (total : UInt32) {state : S} (holds : Inv state) :
    Inv (tally ask threshold members total state).2 ∧ Tallied threshold members total lower upper
        (tally ask threshold members total state).1 := by
  induction members generalizing total state with
  | nil => exact ⟨holds, .nil⟩
  | cons first members induction =>
    obtain ⟨member, weight⟩ := first
    have later := induction fun other within =>
      asked other (List.mem_cons_of_mem _ within)
    obtain ⟨kept, isUpper, isLower⟩ := asked member List.mem_cons_self state holds
    unfold tally
    generalize ask member state = answer at kept isUpper isLower
    obtain ⟨yes, _⟩ := answer
    cases yes with
    | false =>
      obtain ⟨inv, tallied⟩ := later total kept
      exact ⟨inv, tallied.skip fun counts => nomatch isLower counts⟩
    | true =>
      dsimp only
      by_cases reached : threshold ≤ total + weight.toUInt32
      · rw [if_pos reached]
        exact ⟨kept, .stop (isUpper rfl) reached⟩
      · rw [if_neg reached]
        obtain ⟨inv, tallied⟩ := later (total + weight.toUInt32) kept
        exact ⟨inv, tallied.add (isUpper rfl)⟩

/-- Every question that a tally asks satisfies `Q`. -/
def Asks (Q : α → S → Prop) (ask : α → S → Bool × S) (threshold : UInt32) :
    List (α × UInt16) → UInt32 → S → Prop
  | [], _, _ => True
  | (member, weight) :: members, total, state =>
      Q member state ∧ match ask member state with
        | (true, state) =>
            threshold ≤ total + weight.toUInt32 ∨
              Asks Q ask threshold members (total + weight.toUInt32) state
        | (false, state) => Asks Q ask threshold members total state

theorem tally_congr (agree : ∀ member state, Q member state → other member state = ask member state)
    (asks : Asks Q ask threshold members total state) : tally other threshold members total state =
      tally ask threshold members total state := by
  induction members generalizing total state with
  | nil => rfl
  | cons first members induction =>
    obtain ⟨member, weight⟩ := first
    obtain ⟨asked, rest⟩ := asks
    unfold tally
    rw [agree member state asked]
    generalize ask member state = answer at rest
    obtain ⟨yes, _⟩ := answer
    cases yes with
    | false => exact induction rest
    | true =>
      dsimp only at rest ⊢
      rw [if_pos rfl, if_pos rfl]
      by_cases reached : threshold ≤ total + weight.toUInt32
      · rw [if_pos reached, if_pos reached]
      · rw [if_neg reached, if_neg reached]
        exact induction (rest.resolve_left reached)

end Tally

end CocosChain

import CocosChain.Chain.Maintenance

/-!
# Majorities of votes

`vote_counter` turns votes, the largest first, into an authority.  The first
votes fix the scale, so later weights fit as well, and two sets of members that
each reach the threshold overlap.
-/

namespace CocosChain.Chain

theorem assign_perm {Value : Type} {entries : List (Nat × Value)} (value : Option Value → Value)
    (absent : key ∉ entries.map Prod.fst) :
    (assign key value entries).Perm ((key, value none) :: entries) := by
  induction entries with
  | nil => exact .refl _
  | cons entry entries induction =>
    rw [List.map_cons, List.mem_cons, not_or] at absent
    unfold assign
    split
    · exact .refl _
    · rw [if_neg absent.1]
      exact ((induction absent.2).cons entry).trans (.swap ..)

namespace VoteCounter

/-- The weight of votes that are shifted by so many bits. -/
def weight (shift votes : Nat) : Nat := max (votes >>> shift) 1

/-- The members are added one by one. -/
def feed (counter : VoteCounter) (members : List (AccountId × Nat)) : VoteCounter :=
  members.foldl (fun counter member => counter.add member.1 member.2) counter

/-- What the counter holds after these members. -/
structure Counted (shift : Nat) (members : List (AccountId × Nat)) (counter : VoteCounter) :
    Prop where
  bitshift : counter.bitshift = some shift
  total : counter.totalVotes = ((members.filter (0 < ·.2)).map (weight shift ·.2)).sum
  entries : counter.accountAuths.Perm <| (members.filter (0 < ·.2)).map fun member =>
    (member.1, .ofNat (weight shift member.2))

variable {counter : VoteCounter}

section

variable (counted : Counted shift members counter)
include counted

theorem Counted.subset : counter.accountAuths.map Prod.fst ⊆ members.map Prod.fst := by
  intro who present
  rw [(counted.entries.map Prod.fst).mem_iff, List.map_map] at present
  exact (List.filter_sublist.map _).subset present

theorem Counted.add (fresh : who ∉ members.map Prod.fst) :
    Counted shift (members ++ [(who, votes)]) (counter.add who votes) := by
  unfold VoteCounter.add
  split
  next zero =>
    refine ⟨counted.bitshift, ?_, ?_⟩
    · simpa [zero] using counted.total
    · simpa [zero] using counted.entries
  next positive =>
    have counts := Nat.pos_of_ne_zero positive
    refine ⟨?_, ?_, ?_⟩
    · simp [counted.bitshift]
    · simp [counted.bitshift, counted.total, counts, weight]
    · simp only [counted.bitshift, Option.getD_some, List.filter_append, List.filter_singleton,
        counts, decide_true, List.map_append]
      apply (assign_perm _ fun present => fresh (counted.subset present)).trans
      exact (counted.entries.cons _).trans (List.perm_append_singleton _ _).symm

theorem Counted.feed (distinct : ((members ++ more).map Prod.fst).Nodup) :
    Counted shift (members ++ more) (counter.feed more) := by
  induction more generalizing members counter with
  | nil =>
    rw [List.append_nil]
    exact counted
  | cons member more induction =>
    rw [List.append_cons] at distinct ⊢
    apply induction (counted.add fun again => ?_) distinct
    rw [List.map_append, List.map_append] at distinct
    exact List.disjoint_of_nodup_append distinct.of_append_left again (List.mem_singleton_self _)

theorem Counted.mem_iff (distinct : (members.map Prod.fst).Nodup) (within : member ∈ members) :
    (member.1, given) ∈ counter.accountAuths ↔
      0 < member.2 ∧ given = .ofNat (weight shift member.2) := by
  rw [counted.entries.mem_iff, List.mem_map]
  constructor
  · rintro ⟨other, present, same⟩
    obtain ⟨named, rfl⟩ := Prod.mk.inj same
    obtain ⟨listed, positive⟩ := List.mem_filter.mp present
    obtain rfl := List.inj_on_of_nodup_map distinct listed within named
    exact ⟨of_decide_eq_true positive, rfl⟩
  · rintro ⟨positive, rfl⟩
    exact ⟨member, List.mem_filter.mpr ⟨within, decide_eq_true positive⟩, rfl⟩

theorem Counted.sum_weights (fits : ∀ member ∈ members, weight shift member.2 < 2 ^ 16) :
    ((weights counter.accountAuths).map Prod.snd).sum = counter.totalVotes := by
  have sum := (counted.entries.map (·.2.toNat)).sum_eq
  rw [List.map_map] at sum
  rw [counted.total, weights, List.map_map]
  refine sum.trans (congrArg List.sum (List.map_congr_left fun member within => ?_))
  exact UInt16.toNat_ofNat_of_lt' (fits member (List.mem_of_mem_filter within))

end

theorem shifted_lt (first : Nat) : first >>> (first.log2 - 15) < 2 ^ 16 := by
  rw [Nat.shiftRight_eq_div_pow]
  apply Nat.div_lt_of_lt_mul
  rw [← pow_add]
  exact Nat.lt_log2_self.trans_le (Nat.pow_le_pow_right (by decide) (by omega))

theorem weight_mono (le : fewer ≤ more) : weight shift fewer ≤ weight shift more := by
  unfold weight
  simp only [Nat.shiftRight_eq_div_pow]
  exact max_le_max (Nat.div_le_div_right le) le_rfl

theorem Counted.initial (positive : 0 < votes) :
    Counted (votes.log2 - 15) [(who, votes)] (VoteCounter.initial.add who votes) := by
  have nonzero := positive.ne'
  refine ⟨?_, ?_, ?_⟩
  · simp [VoteCounter.add, nonzero, VoteCounter.initial]
  · simp [VoteCounter.add, nonzero, VoteCounter.initial, positive, weight]
  · simp [VoteCounter.add, nonzero, VoteCounter.initial, positive, weight, assign]

theorem finish_carriedBy (signs : Key → Prop) (previous : Authority Key)
    (positive : 0 < counter.totalVotes) (fits : counter.totalVotes < 2 ^ 32) :
    ((counter.finish majority previous).ballot signs).CarriedBy granted ↔
      counter.totalVotes < 2 * weightOf (· ∈ granted) (weights counter.accountAuths) := by
  have threshold : (UInt32.ofNat (majority counter.totalVotes)).toNat =
      counter.totalVotes / 2 + 1 := by
    apply UInt32.toNat_ofNat_of_lt'
    change counter.totalVotes / 2 + 1 < 2 ^ 32
    omega
  unfold finish Ballot.CarriedBy Authority.ballot
  simp only [if_neg positive.ne', threshold, weights, List.map_nil, weightOf.nil]
  omega

theorem feed_counted (falling : members.Pairwise fun left right => right.2 ≤ left.2)
    (distinct : (members.map Prod.fst).Nodup) (within : member ∈ members)
    (positive : 0 < member.2) : ∃ shift, Counted shift members (initial.feed members) ∧
      ∀ member ∈ members, weight shift member.2 < 2 ^ 16 := by
  cases members with
  | nil => cases within
  | cons first rest =>
    have largest : ∀ member ∈ first :: rest, member.2 ≤ first.2 := by
      intro member within
      obtain rfl | later := List.mem_cons.mp within
      · exact le_rfl
      · exact (List.pairwise_cons.mp falling).1 member later
    refine ⟨first.2.log2 - 15, ?_, fun other within => ?_⟩
    · exact (Counted.initial (positive.trans_le (largest member within))).feed distinct
    · apply (weight_mono (largest other within)).trans_lt
      exact max_lt (shifted_lt first.2) (by decide)

/-- Votes in falling order make an authority of majorities. -/
theorem finish_majorities {members : List (AccountId × Nat)} (few : members.length < 65536)
    (falling : members.Pairwise fun left right => right.2 ≤ left.2)
    (distinct : (members.map Prod.fst).Nodup) (positive : ∃ member ∈ members, 0 < member.2)
    (signs : Key → Prop) (previous : Authority Key) :
    let authority := (initial.feed members).finish majority previous
    (∀ member ∈ members, 0 < member.2 → ∃ weight : UInt16, weight.toNat ∈ Set.Icc 1 65535 ∧
      ∀ given, (member.1, given) ∈ authority.accountAuths ↔ given = weight) ∧
    (∀ more ∈ members, ∀ fewer ∈ members, fewer.2 < more.2 → ∀ high low,
      (more.1, high) ∈ authority.accountAuths → (fewer.1, low) ∈ authority.accountAuths →
        low ≤ high) ∧
    (authority.ballot signs).CarriedBy { account | account ∈ members.map Prod.fst } ∧
    ∀ left right, (authority.ballot signs).CarriedBy left →
      (authority.ballot signs).CarriedBy right →
        ∃ account ∈ members.map Prod.fst, account ∈ left ∧ account ∈ right := by
  obtain ⟨member, within, positive⟩ := positive
  obtain ⟨shift, counted, fits⟩ := feed_counted falling distinct within positive
  generalize initial.feed members = counter at counted ⊢
  have sum := counted.sum_weights fits
  have positiveTotal : 0 < counter.totalVotes := by
    rw [counted.total]
    apply (Nat.lt_of_succ_le (le_max_right _ 1)).trans_le
    apply List.le_sum_of_mem
    exact List.mem_map_of_mem (List.mem_filter.mpr ⟨within, decide_eq_true positive⟩)
  have fitsTotal : counter.totalVotes < 2 ^ 32 := by
    have listed := counted.entries.length_eq.trans_le
      ((List.length_map _).trans_le (List.length_filter_le _ _))
    have bounded := sum_weights_le counter.accountAuths
    omega
  have written : (counter.finish majority previous).accountAuths = counter.accountAuths := by
    rw [finish, if_neg positiveTotal.ne']
  have known : ∀ member ∈ weights counter.accountAuths, member.1 ∈ members.map Prod.fst := by
    intro member within
    apply counted.subset
    obtain ⟨entry, present, rfl⟩ := List.mem_map.mp within
    exact List.mem_map_of_mem present
  simp only [written, finish_carriedBy signs previous positiveTotal fitsTotal]
  refine ⟨fun member within positive => ?_, ?_, ?_, fun left right leftCarried rightCarried => ?_⟩
  · refine ⟨.ofNat (weight shift member.2), ?_, fun given => ?_⟩
    · rw [UInt16.toNat_ofNat_of_lt' (fits member within)]
      exact ⟨le_max_right _ _, Nat.le_of_lt_succ (fits member within)⟩
    · rw [counted.mem_iff distinct within, and_iff_right positive]
  · intro more moreWithin fewer fewerWithin less high low highGiven lowGiven
    obtain ⟨-, rfl⟩ := (counted.mem_iff distinct moreWithin).mp highGiven
    obtain ⟨-, rfl⟩ := (counted.mem_iff distinct fewerWithin).mp lowGiven
    rw [UInt16.le_iff_toNat_le, UInt16.toNat_ofNat_of_lt' (fits more moreWithin),
      UInt16.toNat_ofNat_of_lt' (fits fewer fewerWithin)]
    exact weight_mono less.le
  · have all := weightOf.eq_sum (P := (· ∈ members.map Prod.fst)) known
    change _ < 2 * weightOf (· ∈ members.map Prod.fst) _
    omega
  · by_contra apart
    have disjoint := weightOf.add_le_sum (P := (· ∈ left)) (Q := (· ∈ right))
      fun member within inLeft inRight => apart ⟨member.1, known member within, inLeft, inRight⟩
    omega

theorem finish_majorities_three : (((initial.feed [(1, 70000), (2, 7), (3, 0)]).finish majority
      (⟨0, [], []⟩ : Authority Nat)).ballot fun _ => False).CarriedBy
      { account | account ∈ [(1, 70000), (2, 7), (3, 0)].map Prod.fst } :=
  (finish_majorities (by decide) (by decide) (by decide) ⟨(2, 7), by decide, by decide⟩ _ _).2.2.1

end VoteCounter

end CocosChain.Chain

import CocosChain.Chain.ForkLinks

/-!
# The two sides of a fork

Two blocks of the tree with a common ancestor, neither of which is an ancestor
of the other, have their branches fetched: the walks down from them get to one
height, go on in step, and stop before the first block that they share.
-/

namespace CocosChain.Chain.ForkDatabase

variable {Hash Rest Tx : Type} {digests : Digests Hash Rest Tx} {fork : ForkDatabase Hash Rest Tx}
variable {first second item last : ForkItem Hash Rest Tx}

/-- Pointers lead from one item to the other. -/
def Reaches (fork : ForkDatabase Hash Rest Tx) :
    ForkItem Hash Rest Tx → ForkItem Hash Rest Tx → Prop :=
  Relation.ReflTransGen fun newer older => fork.lock [] newer.prev = some older

namespace Reaches

theorem alive (path : fork.Reaches item last)
    (start : item ∈ fork.owned []) : last ∈ fork.owned [] := by
  induction path with
  | refl => exact start
  | tail _ found _ => exact (lock_eq_some found).2

variable (sound : fork.Sound digests [])
include sound

variable (path : fork.Reaches item last)
include path

theorem num_lt (start : item ∈ fork.owned []) : last = item ∨ last.num < item.num := by
  induction path with
  | refl => exact .inl rfl
  | tail before found induction =>
    have number := num_of_lock sound (alive before start) found
    rcases induction with rfl | _
    · exact .inr (by omega)
    · exact .inr (by omega)

theorem num_le (start : item ∈ fork.owned []) : last.num ≤ item.num := by
  rcases path.num_lt sound start with rfl | lower
  · exact le_rfl
  · exact lower.le

theorem eq_of_num (start : item ∈ fork.owned []) (same : last.num = item.num) : last = item := by
  rcases path.num_lt sound start with equal | _
  · exact equal
  · omega

end Reaches

theorem Sound.id_number (sound : fork.Sound digests [])
    (alive : item ∈ fork.owned []) : item.id.number = item.num :=
  (sound.items.identified item alive).number

theorem num_eq_of_previousId (siblings : first.previousId = second.previousId) :
    first.num = second.num :=
  congrArg (fun id : BlockId Hash => id.number + 1) siblings

/-- A walk towards an ancestor that is low enough stops between the two. -/
theorem descend_towards (sound : fork.Sound digests []) (path : fork.Reaches item ancestor)
    (alive : item ∈ fork.owned []) (low : ancestor.num ≤ target) :
    ∃ passed last, fork.descend target item.num item = .ok (passed, last) ∧
      fork.Reaches item last ∧ fork.Reaches last ancestor ∧
      last.num = min target item.num ∧
      ∀ other ∈ passed, target < other.id.number ∧ other.id.number ≤ item.num := by
  induction path using Relation.ReflTransGen.head_induction_on with
  | refl =>
    rw [descend_unbounded sound target alive, if_neg (not_lt.mpr low)]
    exact ⟨[], ancestor, rfl, .refl, .refl, by omega, by simp⟩
  | @head item prev found rest induction =>
    rw [descend_unbounded sound target alive]
    by_cases above : target < item.num
    · obtain ⟨passed, last, walked, down, onwards, _, higher⟩ :=
        induction (lock_eq_some found).2
      have number := num_of_lock sound alive found
      rw [if_pos above, found]
      refine ⟨item :: passed, last, by simp only [walked], .head found down, onwards, by omega, ?_⟩
      have itself := sound.id_number alive
      rintro other (_ | ⟨_, member⟩)
      · omega
      · have := higher other member
        omega
    · rw [if_neg above]
      exact ⟨[], item, rfl, .refl, .head found rest, by omega, by simp⟩

/-- The walks have got two branches without a common block, up to a height. -/
def Met (height : Nat) (walked : Except ForkFault
    (List (ForkItem Hash Rest Tx) × List (ForkItem Hash Rest Tx))) : Prop :=
  ∃ firsts seconds, walked = .ok (firsts, seconds) ∧ (∀ one ∈ firsts, one.id.number ≤ height) ∧
    (∀ other ∈ seconds, other.id.number ≤ height) ∧
    ∀ one ∈ firsts, ∀ other ∈ seconds, one.id ≠ other.id

variable [DecidableEq Hash]

/-- Two walks in step towards siblings stop before they share a block, if they
do not start from one. -/
theorem meet_towards (sound : fork.Sound digests []) (firstPath : fork.Reaches first firstAncestor)
    (secondPath : fork.Reaches second secondAncestor)
    (siblings : firstAncestor.previousId = secondAncestor.previousId)
    (firstAlive : first ∈ fork.owned []) (secondAlive : second ∈ fork.owned [])
    (level : first.num = second.num) (apart : first.id ≠ second.id) :
    Met first.num (fork.meet first.num first second) := by
  have ancestors := num_eq_of_previousId siblings
  have stop {first second : ForkItem Hash Rest Tx} (firstAlive : first ∈ fork.owned [])
      (secondAlive : second ∈ fork.owned []) (level : first.num = second.num)
      (apart : first.id ≠ second.id) :
      Met first.num (.ok ([first], [second]) : Except ForkFault _) := by
    have firstNumber := sound.id_number firstAlive
    have secondNumber := sound.id_number secondAlive
    refine ⟨[first], [second], rfl, ?_, ?_, ?_⟩
    · exact List.forall_mem_singleton.mpr firstNumber.le
    · exact List.forall_mem_singleton.mpr (secondNumber.trans level.symm).le
    · simpa using apart
  induction firstPath using Relation.ReflTransGen.head_induction_on generalizing second with
  | refl =>
    cases secondPath.eq_of_num sound secondAlive (by omega)
    rw [meet_unbounded sound firstAlive, if_pos siblings]
    exact stop firstAlive secondAlive level apart
  | @head first firstPrev firstFound firstRest induction =>
    rw [meet_unbounded sound firstAlive]
    by_cases met : first.previousId = second.previousId
    · rw [if_pos met]
      exact stop firstAlive secondAlive level apart
    rw [if_neg met, firstFound]
    have firstNumber := sound.id_number firstAlive
    have secondNumber := sound.id_number secondAlive
    obtain ⟨firstPoints, firstPrevAlive⟩ := lock_eq_some firstFound
    have firstNum := num_of_lock sound firstAlive firstFound
    rcases secondPath.cases_head with rfl | ⟨secondPrev, secondFound, rest⟩
    · -- The walk from the second item is over, the other one is lower.
      have := Reaches.num_le sound firstRest firstPrevAlive
      omega
    obtain ⟨secondPoints, secondPrevAlive⟩ := lock_eq_some secondFound
    have secondNum := num_of_lock sound secondAlive secondFound
    have prevApart : firstPrev.id ≠ secondPrev.id := by
      rw [← sound.items.linked first firstAlive _ firstPrevAlive firstPoints,
        ← sound.items.linked second secondAlive _ secondPrevAlive secondPoints]
      exact met
    obtain ⟨firsts, seconds, walked, firstsLow, secondsLow, disjoint⟩ :=
      induction rest firstPrevAlive secondPrevAlive (by omega) prevApart
    refine ⟨first :: firsts, second :: seconds, by simp only [secondFound, walked], ?_, ?_, ?_⟩
    · rintro one (_ | ⟨_, member⟩)
      · exact firstNumber.le
      · have := firstsLow one member
        omega
    · rintro other (_ | ⟨_, member⟩)
      · omega
      · have := secondsLow other member
        omega
    · rintro one (_ | ⟨_, firstMember⟩) other (_ | ⟨_, secondMember⟩) same
      · exact apart same
      · have := secondsLow other secondMember
        rw [same] at firstNumber
        omega
      · have := firstsLow one firstMember
        rw [← same] at secondNumber
        omega
      · exact disjoint one firstMember other secondMember same

variable [Inhabited Hash]

/-- The two sides of the fork at `first` and `second`. -/
structure Sides (fork : ForkDatabase Hash Rest Tx) (first second : ForkItem Hash Rest Tx)
    (firsts seconds : List (ForkItem Hash Rest Tx)) : Prop extends
    Branches fork first second firsts seconds where
  firstChildren : firsts.IsChain fun child parent =>
    child.previousId = parent.id
  secondChildren : seconds.IsChain fun child parent =>
    child.previousId = parent.id
  disjoint : ∀ one ∈ firsts, ∀ other ∈ seconds, one.id ≠ other.id

omit [DecidableEq Hash] [Inhabited Hash] in
theorem IsBranch.children (sound : fork.Sound digests [])
    (isBranch : fork.IsBranch branch) (alive : branch ⊆ fork.owned []) :
    branch.IsChain fun child parent => child.previousId = parent.id := by
  apply List.IsChain.imp_of_mem_imp _ isBranch
  intro child parent childMember parentMember found
  exact sound.items.linked child (alive childMember) parent
    (alive parentMember) (lock_eq_some found).1

/-- Two blocks with an ancestor in common, known to the tree or not, neither of
which is an ancestor of the other. -/
theorem fetchBranchFrom_sides (sound : fork.Sound digests []) {firstId secondId : BlockId Hash}
    (firstKnown : fork.fetchBlock firstId = some first)
    (secondKnown : fork.fetchBlock secondId = some second)
    (common : ∃ one other, fork.Reaches first one ∧
      fork.Reaches second other ∧ one.previousId = other.previousId)
    (notAbove : ∀ one, fork.Reaches first one → one.id ≠ second.id)
    (notBelow : ∀ other, fork.Reaches second other → other.id ≠ first.id) :
    ∃ firsts seconds, fork.fetchBranchFrom firstId secondId = .ok (firsts, seconds) ∧
      fork.Sides first second firsts seconds := by
  obtain ⟨one, other, firstPath, secondPath, siblings⟩ := common
  have firstAlive : first ∈ fork.owned [] := mem_owned_of_index (fetchBlock_eq_some firstKnown).2
  have secondAlive : second ∈ fork.owned [] := mem_owned_of_index (fetchBlock_eq_some secondKnown).2
  have level := num_eq_of_previousId siblings
  have otherLow : other.num ≤ second.num := secondPath.num_le sound secondAlive
  obtain ⟨firsts, firstLow, firstWalk, firstDown, firstOn, _,
    firstsHigh⟩ := descend_towards sound firstPath firstAlive (level.trans_le otherLow)
  have firstLowAlive := firstDown.alive firstAlive
  have oneLow : one.num ≤ firstLow.num := firstOn.num_le sound firstLowAlive
  obtain ⟨seconds, secondLow, secondWalk, secondDown, secondOn, _,
    secondsHigh⟩ := descend_towards sound secondPath secondAlive (level.symm.trans_le oneLow)
  have apart : firstLow.id ≠ secondLow.id := by
    -- One of the two walks has not moved.
    rcases le_total second.num first.num with _ | _
    · rw [secondDown.eq_of_num sound secondAlive (by omega)]
      exact notAbove firstLow firstDown
    · rw [firstDown.eq_of_num sound firstAlive (by omega)]
      exact (notBelow secondLow secondDown).symm
  obtain ⟨metFirst, metSecond, met, metFirstLow, metSecondLow, disjoint⟩ :=
    meet_towards sound firstOn secondOn siblings firstLowAlive
      (secondDown.alive secondAlive) (by omega) apart
  have success : fork.fetchBranchFrom firstId secondId =
      .ok (firsts ++ metFirst, seconds ++ metSecond) := by
    simp only [fetchBranchFrom, firstKnown, secondKnown, firstWalk, secondWalk, met]
  obtain ⟨_, _, firstFound, secondFound, branches⟩ := fetchBranchFrom_eq_ok success
  cases firstKnown.symm.trans firstFound
  cases secondKnown.symm.trans secondFound
  refine ⟨_, _, success, branches, ?_, ?_, ?_⟩
  · apply branches.firstBranch.children sound
    apply branches.firstBranch.alive
    rw [branches.firstTip]
    simpa using firstAlive
  · apply branches.secondBranch.children sound
    apply branches.secondBranch.alive
    rw [branches.secondTip]
    simpa using secondAlive
  · intro newer newerMember older olderMember same
    have number := congrArg BlockId.number same
    rcases List.mem_append.mp newerMember with newerMember | newerMember
    · have := firstsHigh newer newerMember
      rcases List.mem_append.mp olderMember with olderMember | olderMember
      · have := secondsHigh older olderMember
        omega
      · have := metSecondLow older olderMember
        omega
    · rcases List.mem_append.mp olderMember with olderMember | olderMember
      · have := metFirstLow newer newerMember
        have := secondsHigh older olderMember
        omega
      · exact disjoint newer newerMember older olderMember same

/-- One side has two blocks and the other one. -/
theorem fetchBranchFrom_sides_uneven :
    let base : SignedBlock (SymbolicHash Unit Unit) Unit Unit :=
      Digests.symbolic.assemble default 0 () []
    let left := Digests.symbolic.assemble base.blockId 0 () []
    let right := Digests.symbolic.assemble base.blockId 1 () []
    let top := Digests.symbolic.assemble left.blockId 0 () []
    let low : ForkItem _ _ _ := ⟨1, some 0, left⟩
    let second : ForkItem _ _ _ := ⟨2, some 0, right⟩
    let first : ForkItem _ _ _ := ⟨3, some 1, top⟩
    let fork : ForkDatabase _ _ _ :=
      { index := [⟨0, none, base⟩, low, second, first], head := some first
        maxSize := 4, nextRef := 4 }
    ∃ firsts seconds, fork.fetchBranchFrom top.blockId right.blockId =
        .ok (firsts, seconds) ∧ fork.Sides first second firsts seconds := by
  intro base left right top low second first fork
  have empty : (initial.setMaxSize 4).Sound (Digests.symbolic : Digests _ Unit Unit) [] :=
    ⟨⟨nofun, nofun, nofun, nofun, nofun⟩, List.nodup_nil⟩
  have started := empty.pushBlock (Digests.assemble_identified ..)
    (rfl : (initial.setMaxSize 4).pushBlock base = .ok _)
  have extended := started.pushBlock (Digests.assemble_identified ..)
    (rfl : pushBlock left _ = .ok _)
  let siblings : ForkDatabase _ _ _ :=
    { index := [⟨0, none, base⟩, low, second], head := some low, maxSize := 4, nextRef := 3 }
  have forked : siblings.Sound Digests.symbolic [] :=
    extended.pushBlock (Digests.assemble_identified ..) (rfl : pushBlock right _ = .ok siblings)
  have sound : fork.Sound Digests.symbolic [] :=
    forked.pushBlock (Digests.assemble_identified ..) (rfl : siblings.pushBlock top = .ok fork)
  have apart {item other : ForkItem _ _ _} (alive : item ∈ fork.owned [])
      (otherAlive : other ∈ fork.owned []) (level : item.num ≤ other.num)
      (different : item.id ≠ other.id) : ∀ one, fork.Reaches item one → one.id ≠ other.id := by
    intro one path same
    rcases path.num_lt sound alive with rfl | _
    · exact different same
    · have number := sound.id_number (path.alive alive)
      rw [same, sound.id_number otherAlive] at number
      omega
  have firstAlive : first ∈ fork.owned [] := by decide
  have secondAlive : second ∈ fork.owned [] := by decide
  refine fetchBranchFrom_sides sound (by rfl) (by rfl) ⟨low, second, .single rfl, .refl, rfl⟩ ?_
    (apart secondAlive firstAlive (by decide) (by decide))
  intro one path
  rcases path.cases_head with rfl | ⟨next, found, rest⟩
  · decide
  · cases found
    exact apart (by decide : low ∈ fork.owned []) secondAlive (by decide) (by decide) one rest

end CocosChain.Chain.ForkDatabase

import CocosChain.Chain.ForkDatabase
import Mathlib.Data.List.Chain
import Mathlib.Data.List.Nodup

/-!
# Links in the tree of recent blocks

The items that are alive carry the identifiers of their blocks, are told apart
by their references, and point to items of the block they name as their
predecessor.  Every operation keeps this, and branches fetched from the tree
are therefore chains of blocks.
-/

namespace CocosChain.Chain

variable {Hash Rest Tx : Type}

/-- What holds of the items that are alive. -/
structure SoundItems (digests : Digests Hash Rest Tx) (nextRef : Nat)
    (items : List (ForkItem Hash Rest Tx)) : Prop where
  identified : ∀ item ∈ items, digests.Identified item.data
  fresh : ∀ item ∈ items, item.ref < nextRef
  freshPrev : ∀ item ∈ items, ∀ ref, item.prev = some ref → ref < nextRef
  unique : ∀ first ∈ items, ∀ second ∈ items,
    first.ref = second.ref → first = second
  linked : ∀ item ∈ items, ∀ prev ∈ items, item.prev = some prev.ref → item.previousId = prev.id

namespace SoundItems

variable {digests : Digests Hash Rest Tx}

theorem mono (sound : SoundItems digests nextRef items) (subset : fewer ⊆ items) :
    SoundItems digests nextRef fewer where
  identified item member := sound.identified item (subset member)
  fresh item member := sound.fresh item (subset member)
  freshPrev item member := sound.freshPrev item (subset member)
  unique first firstMember second secondMember :=
    sound.unique first (subset firstMember) second (subset secondMember)
  linked item member prev prevMember := sound.linked item (subset member) prev (subset prevMember)

theorem allocate (sound : SoundItems digests nextRef items) (identified : digests.Identified block)
    (known : ∀ ref, prev = some ref → ∃ item ∈ items, item.ref = ref ∧ block.previous = item.id) :
    SoundItems digests (nextRef + 1) (⟨nextRef, prev, block⟩ :: items) where
  identified item member := by
    rcases List.mem_cons.mp member with rfl | old
    · exact identified
    · exact sound.identified item old
  fresh item member := by
    rcases List.mem_cons.mp member with rfl | old
    · exact Nat.lt_succ_self nextRef
    · exact Nat.lt_succ_of_lt (sound.fresh item old)
  freshPrev item member ref points := by
    rcases List.mem_cons.mp member with rfl | old
    · obtain ⟨target, targetMember, rfl, _⟩ := known ref points
      exact Nat.lt_succ_of_lt (sound.fresh target targetMember)
    · exact Nat.lt_succ_of_lt (sound.freshPrev item old ref points)
  unique first firstMember second secondMember same := by
    rcases List.mem_cons.mp firstMember with rfl | firstOld
    · rcases List.mem_cons.mp secondMember with rfl | secondOld
      · rfl
      · exact absurd same (Nat.ne_of_gt (sound.fresh second secondOld))
    · rcases List.mem_cons.mp secondMember with rfl | secondOld
      · exact absurd same (Nat.ne_of_lt (sound.fresh first firstOld))
      · exact sound.unique first firstOld second secondOld same
  linked item member target targetMember points := by
    have older : target ∈ items → item ∈ items → item.previousId = target.id := fun targetOld old =>
      sound.linked item old target targetOld points
    rcases List.mem_cons.mp member with rfl | old
    · obtain ⟨found, foundMember, ref, previous⟩ := known target.ref points
      rcases List.mem_cons.mp targetMember with rfl | targetOld
      · exact absurd ref (Nat.ne_of_lt (sound.fresh found foundMember))
      · rw [← sound.unique found foundMember target targetOld ref]
        exact previous
    · rcases List.mem_cons.mp targetMember with rfl | targetOld
      · exact absurd (sound.freshPrev item old _ points) (Nat.lt_irrefl _)
      · exact older targetOld old

end SoundItems

namespace ForkDatabase

/-- What holds of the tree while `pinned` is held by a caller. -/
structure Sound (digests : Digests Hash Rest Tx) (pinned : List (ForkItem Hash Rest Tx))
    (fork : ForkDatabase Hash Rest Tx) : Prop where
  items : SoundItems digests fork.nextRef (fork.owned pinned)
  distinct : (fork.index.map ForkItem.id).Nodup

namespace Sound

variable {digests : Digests Hash Rest Tx} {pinned : List (ForkItem Hash Rest Tx)}
variable {fork : ForkDatabase Hash Rest Tx}

section

variable (sound : fork.Sound digests pinned)
include sound

theorem shrink {next : ForkDatabase Hash Rest Tx} (same : next.nextRef = fork.nextRef)
    (alive : next.owned fewer ⊆ fork.owned pinned)
    (index : next.index.Sublist fork.index) : next.Sound digests fewer where
  items := by
    rw [same]
    exact sound.items.mono alive
  distinct := sound.distinct.sublist (index.map ForkItem.id)

theorem release (subset : fewer ⊆ pinned) : fork.Sound digests fewer := by
  apply sound.shrink rfl _ (List.Sublist.refl _)
  intro item member
  rcases List.mem_append.mp member with before | held
  · exact List.mem_append_left _ before
  · exact List.mem_append_right _ (subset held)

theorem unpin : fork.Sound digests [] :=
  sound.release (List.nil_subset pinned)

end

theorem pin (sound : fork.Sound digests [])
    (alive : pinned ⊆ fork.owned []) : fork.Sound digests pinned := by
  apply sound.shrink rfl _ (List.Sublist.refl _)
  intro item member
  rcases List.mem_append.mp member with before | held
  · rw [owned, List.append_nil]
    exact before
  · exact alive held

variable (sound : fork.Sound digests pinned)
include sound

theorem filter (keep : ForkItem Hash Rest Tx → Bool) :
    { fork with index := fork.index.filter keep }.Sound digests pinned := by
  apply sound.shrink
  · rfl
  · intro item member
    unfold owned at member ⊢
    simp only [List.mem_append, List.mem_filter] at member ⊢
    tauto
  · exact List.filter_sublist

theorem prune (minNum : Nat) : (fork.prune minNum).Sound digests pinned := by
  apply sound.filter

theorem setMaxSize (size : Nat) : (fork.setMaxSize size).Sound digests pinned := by
  have resized : { fork with maxSize := size }.Sound digests pinned :=
    sound.shrink rfl (fun _ member => member) (List.Sublist.refl _)
  unfold ForkDatabase.setMaxSize
  dsimp only
  split
  · exact resized
  · exact resized.prune _

theorem setHead {head : Option (ForkItem Hash Rest Tx)}
    (alive : ∀ item, head = some item → item ∈ fork.owned pinned) :
    (fork.setHead head).Sound digests pinned := by
  apply sound.shrink
  · rfl
  · intro item member
    unfold owned ForkDatabase.setHead at member
    simp only [List.mem_append, Option.mem_toList] at member
    rcases member with (indexed | isHead) | held
    · exact List.mem_append_left _ (List.mem_append_left _ indexed)
    · exact alive item isHead
    · exact List.mem_append_right _ held
  · exact List.Sublist.refl _

end Sound

variable {fork : ForkDatabase Hash Rest Tx}

variable {item : ForkItem Hash Rest Tx}

theorem mem_owned_of_index (indexed : item ∈ fork.index) : item ∈ fork.owned pinned :=
  List.mem_append_left _ (List.mem_append_left _ indexed)

theorem lock_eq_some (found : fork.lock pinned prev = some item) :
    prev = some item.ref ∧ item ∈ fork.owned pinned := by
  cases prev with
  | none => cases found
  | some ref =>
    unfold lock at found
    have same := List.find?_some found
    rw [beq_iff_eq] at same
    rw [same]
    exact ⟨rfl, List.mem_of_find?_eq_some found⟩

theorem lock_of_mem (sound : fork.Sound digests pinned) (alive : item ∈ fork.owned pinned) :
    fork.lock pinned (some item.ref) = some item := by
  cases found : fork.lock pinned (some item.ref) with
  | none =>
    have none_ := List.find?_eq_none.mp found item alive
    simp at none_
  | some other =>
    obtain ⟨same, otherAlive⟩ := lock_eq_some found
    rw [sound.items.unique item alive other otherAlive (Option.some.inj same)]

namespace Sound

theorem advance (sound : fork.Sound digests pinned) (alive : item ∈ fork.owned pinned) :
    (fork.advance item).Sound digests pinned := by
  have moved : (fork.setHead (some item)).Sound digests pinned := by
    apply sound.setHead
    intro other same
    cases same
    exact alive
  unfold ForkDatabase.advance
  split
  · exact moved
  · split
    · exact moved.prune _
    · exact sound

theorem popBlock (sound : fork.Sound digests pinned) (popped : fork.popBlock pinned = .ok next) :
    next.Sound digests pinned := by
  unfold ForkDatabase.popBlock at popped
  split at popped
  · cases popped
  · split at popped
    · cases popped
    · rename_i prev found
      cases popped
      apply sound.setHead
      intro item same
      cases same
      exact (lock_eq_some found).2

variable [DecidableEq Hash]

theorem remove (sound : fork.Sound digests pinned) (id : BlockId Hash) :
    (fork.remove id).Sound digests pinned := by
  apply sound.filter

theorem removeAll (sound : fork.Sound digests pinned) (items : List (ForkItem Hash Rest Tx)) :
    (fork.removeAll items).Sound digests pinned := by
  unfold ForkDatabase.removeAll
  induction items generalizing fork with
  | nil => exact sound
  | cons item items induction => exact induction (sound.remove item.id)

end Sound

variable [DecidableEq Hash]

theorem fetchBlock_eq_some {id : BlockId Hash} (found : fork.fetchBlock id = some item) :
    item.id = id ∧ item ∈ fork.index := by
  unfold fetchBlock at found
  have same := List.find?_some found
  rw [beq_iff_eq] at same
  exact ⟨same, List.mem_of_find?_eq_some found⟩

theorem fetchBlock_eq_none {id : BlockId Hash} (missing : fork.fetchBlock id = none) :
    id ∉ fork.index.map ForkItem.id := by
  intro member
  obtain ⟨item, indexed, same⟩ := List.mem_map.mp member
  have different := List.find?_eq_none.mp missing item indexed
  rw [same, beq_self_eq_true] at different
  exact different rfl

theorem fetchBlock_of_mem (distinct : (fork.index.map ForkItem.id).Nodup)
    (indexed : item ∈ fork.index) : fork.fetchBlock item.id = some item := by
  cases found : fork.fetchBlock item.id with
  | none =>
    exact absurd (List.mem_map_of_mem indexed) (fetchBlock_eq_none found)
  | some other =>
    obtain ⟨same, otherIndexed⟩ := fetchBlock_eq_some found
    rw [List.inj_on_of_nodup_map distinct indexed otherIndexed same.symm]

variable [Inhabited Hash]

theorem link_eq_ok (linked : fork.link block = .ok prev) (points : prev = some ref) :
    ∃ item ∈ fork.index, item.ref = ref ∧ block.previous = item.id := by
  unfold link at linked
  subst points
  split at linked
  · cases linked
  · split at linked
    · cases linked
    · split at linked
      · cases linked
      · split at linked
        · cases linked
        · rename_i item found
          cases linked
          obtain ⟨same, indexed⟩ := fetchBlock_eq_some found
          exact ⟨item, indexed, rfl, same.symm⟩

theorem pushBlock_eq_ok (pushed : fork.pushBlock block = .ok next) :
    ∃ prev, fork.link block = .ok prev ∧ next = advance ⟨fork.nextRef, prev, block⟩
        (insert ⟨fork.nextRef, prev, block⟩ { fork with nextRef := fork.nextRef + 1 }) := by
  unfold pushBlock at pushed
  split at pushed
  · cases pushed
  · rename_i prev linked
    cases pushed
    exact ⟨prev, linked, rfl⟩

namespace Sound

omit [Inhabited Hash] in
theorem insert (sound : fork.Sound digests pinned) (alive : item ∈ fork.owned pinned) :
    (fork.insert item).Sound digests pinned := by
  unfold ForkDatabase.insert
  split
  · rename_i missing
    constructor
    · apply sound.items.mono
      intro other member
      unfold owned at member
      simp only [List.mem_append, List.mem_singleton] at member
      rcases member with ((indexed | rfl) | isHead) | held
      · exact mem_owned_of_index indexed
      · exact alive
      · exact List.mem_append_left _ (List.mem_append_right _ isHead)
      · exact List.mem_append_right _ held
    · rw [List.map_append]
      apply sound.distinct.append (List.nodup_singleton _)
      apply List.disjoint_singleton.mpr
      exact fetchBlock_eq_none missing
  · exact sound

theorem pushBlock_held (sound : fork.Sound digests pinned) (identified : digests.Identified block)
    (linked : fork.link block = .ok prev) (pushed : fork.pushBlock block = .ok next) :
    next.Sound digests (⟨fork.nextRef, prev, block⟩ :: pinned) := by
  obtain ⟨_, sameLinked, rfl⟩ := pushBlock_eq_ok pushed
  cases linked.symm.trans sameLinked
  let item : ForkItem Hash Rest Tx := ⟨fork.nextRef, prev, block⟩
  have allocated : { fork with nextRef := fork.nextRef + 1 }.Sound digests (item :: pinned) := by
    constructor
    · apply (sound.items.allocate identified _).mono _
      · exact prev
      · intro ref points
        obtain ⟨known, indexed, same, previous⟩ := link_eq_ok linked points
        exact ⟨known, mem_owned_of_index indexed, same, previous⟩
      · intro other member
        unfold owned at member ⊢
        simp only [List.mem_append, List.mem_cons] at member ⊢
        tauto
    · exact sound.distinct
  have alive {other : ForkDatabase Hash Rest Tx} : item ∈ other.owned (item :: pinned) :=
    List.mem_append_right _ List.mem_cons_self
  exact (allocated.insert alive).advance alive

theorem pushBlock (sound : fork.Sound digests []) (identified : digests.Identified block)
    (pushed : fork.pushBlock block = .ok next) : next.Sound digests [] := by
  obtain ⟨_, linked, _⟩ := pushBlock_eq_ok pushed
  exact (sound.pushBlock_held identified linked pushed).unpin

end Sound

section

omit [DecidableEq Hash] [Inhabited Hash]

theorem prune_subset (minNum : Nat) : (fork.prune minNum).index ⊆ fork.index :=
  List.filter_subset_self _

theorem mem_prune (indexed : item ∈ fork.index) (high : minNum ≤ item.num) :
    item ∈ (fork.prune minNum).index :=
  List.mem_filter.mpr ⟨indexed, decide_eq_true high⟩

@[simp] theorem setMaxSize_head (size : Nat) : (fork.setMaxSize size).head = fork.head := by
  unfold setMaxSize
  dsimp only
  split
  · rfl
  · rfl

@[simp] theorem setMaxSize_maxSize (size : Nat) : (fork.setMaxSize size).maxSize = size := by
  unfold setMaxSize
  dsimp only
  split
  · rfl
  · rfl

theorem setMaxSize_subset (size : Nat) : (fork.setMaxSize size).index ⊆ fork.index := by
  unfold setMaxSize
  dsimp only
  split
  · exact List.Subset.refl _
  · exact prune_subset _

theorem mem_setMaxSize {head : ForkItem Hash Rest Tx} (isHead : fork.head = some head)
    (indexed : item ∈ fork.index) (within : head.num - size ≤ item.num) :
    item ∈ (fork.setMaxSize size).index := by
  unfold setMaxSize
  dsimp only
  rw [isHead]
  exact mem_prune indexed within

end

section

omit [Inhabited Hash]

@[simp] theorem insert_head (item : ForkItem Hash Rest Tx) :
    (fork.insert item).head = fork.head := by
  unfold insert
  split
  · rfl
  · rfl

@[simp] theorem insert_maxSize (item : ForkItem Hash Rest Tx) :
    (fork.insert item).maxSize = fork.maxSize := by
  unfold insert
  split
  · rfl
  · rfl

theorem subset_insert (item : ForkItem Hash Rest Tx) : fork.index ⊆ (fork.insert item).index := by
  unfold insert
  split
  · exact List.subset_append_left _ _
  · exact List.Subset.refl _

theorem mem_insert_cases (indexed : other ∈ (fork.insert item).index) :
    other ∈ fork.index ∨ other = item := by
  unfold insert at indexed
  split at indexed
  · rcases List.mem_append.mp indexed with old | new
    · exact .inl old
    · exact .inr (List.mem_singleton.mp new)
  · exact .inl indexed

theorem mem_insert (new : fork.fetchBlock item.id = none) : item ∈ (fork.insert item).index := by
  unfold insert
  rw [new]
  exact List.mem_append_right _ (List.mem_singleton_self item)

end

section

omit [DecidableEq Hash] [Inhabited Hash]

theorem advance_subset (item : ForkItem Hash Rest Tx) : (fork.advance item).index ⊆ fork.index := by
  unfold advance
  split
  · exact List.Subset.refl _
  · split
    · exact prune_subset _
    · exact List.Subset.refl _

theorem mem_advance (indexed : other ∈ fork.index) (high : item.num ≤ other.num) :
    other ∈ (fork.advance item).index := by
  unfold advance
  split
  · exact indexed
  · split
    · exact mem_prune indexed ((Nat.sub_le _ _).trans high)
    · exact indexed

theorem advance_head (higher : ∀ head, fork.head = some head → head.num < item.num) :
    (fork.advance item).head = some item := by
  unfold advance
  split
  · rfl
  · rename_i head isHead
    rw [if_pos (higher head isHead)]
    rfl

theorem advance_of_lower {head : ForkItem Hash Rest Tx} (isHead : fork.head = some head)
    (lower : item.num ≤ head.num) : fork.advance item = fork := by
  unfold advance
  rw [isHead]
  exact if_neg (not_lt.mpr lower)

end

/-- A block that is not higher than the head is remembered below it. -/
theorem pushBlock_of_lower (linked : fork.link block = .ok prev) {head : ForkItem Hash Rest Tx}
    (isHead : fork.head = some head) (lower : block.blockNum ≤ head.num) :
    let after := { fork with nextRef := fork.nextRef + 1 }.insert ⟨fork.nextRef, prev, block⟩
    fork.pushBlock block = .ok after ∧ after.head = some head := by
  intro after
  have stays : after.head = some head := (insert_head _).trans isHead
  refine ⟨?_, stays⟩
  unfold pushBlock
  rw [linked]
  exact congrArg Except.ok (advance_of_lower stays lower)

omit [DecidableEq Hash] [Inhabited Hash] in
/-- Each item points to the next one. -/
def IsBranch (fork : ForkDatabase Hash Rest Tx) (branch : List (ForkItem Hash Rest Tx)) : Prop :=
  branch.IsChain fun newer older => fork.lock [] newer.prev = some older

/-- The branches from two items to where they have one predecessor. -/
structure Branches (fork : ForkDatabase Hash Rest Tx) (first second : ForkItem Hash Rest Tx)
    (firsts seconds : List (ForkItem Hash Rest Tx)) : Prop where
  firstBranch : fork.IsBranch firsts
  firstTip : firsts.head? = some first
  secondBranch : fork.IsBranch seconds
  secondTip : seconds.head? = some second
  met : forkPoint firsts = forkPoint seconds

section

omit [DecidableEq Hash] [Inhabited Hash]

theorem IsBranch.cons (isBranch : fork.IsBranch branch) (tip : branch.head? = some prev)
    (found : fork.lock [] item.prev = some prev) : fork.IsBranch (item :: branch) := by
  cases branch with
  | nil => cases tip
  | cons first rest =>
    cases tip
    exact List.isChain_cons_cons.mpr ⟨found, isBranch⟩

theorem IsBranch.append (first : fork.IsBranch (newer ++ [item])) (second : fork.IsBranch older)
    (tip : older.head? = some item) : fork.IsBranch (newer ++ older) := by
  cases older with
  | nil => cases tip
  | cons top rest =>
    cases tip
    exact List.isChain_split.mpr ⟨first, second⟩

theorem descend_eq_ok (success : fork.descend target fuel item = .ok (passed, last)) :
    fork.IsBranch (passed ++ [last]) ∧ (passed ++ [last]).head? = some item := by
  induction fuel generalizing item passed with
  | zero =>
    unfold descend at success
    split at success
    · cases success
    · cases success
      exact ⟨.singleton _, rfl⟩
  | succ fuel induction =>
    unfold descend at success
    split at success
    · split at success
      · cases success
      · rename_i prev found
        split at success
        · rename_i more final rest
          cases success
          obtain ⟨chain, tip⟩ := induction rest
          exact ⟨chain.cons tip found, rfl⟩
        · cases success
    · cases success
      exact ⟨.singleton _, rfl⟩

end

section

omit [DecidableEq Hash]

theorem forkPoint_cons (nonempty : branch ≠ []) :
    forkPoint (item :: branch) = forkPoint branch := by
  unfold forkPoint
  rw [List.getLast?_cons, List.getLast?_eq_some_getLast nonempty]
  rfl

theorem Branches.firsts_ne (branches : fork.Branches first second firsts seconds) :
    firsts ≠ [] := by
  rintro rfl
  cases branches.firstTip

theorem Branches.seconds_ne (branches : fork.Branches first second firsts seconds) :
    seconds ≠ [] := by
  rintro rfl
  cases branches.secondTip

end

theorem meet_eq_ok (success : fork.meet fuel first second = .ok (firsts, seconds)) :
    fork.Branches first second firsts seconds := by
  have stop (same : first.previousId = second.previousId) :
      fork.Branches first second [first] [second] :=
    ⟨.singleton _, rfl, .singleton _, rfl, same⟩
  induction fuel generalizing first second firsts seconds with
  | zero =>
    unfold meet at success
    split at success
    · rename_i same
      cases success
      exact stop same
    · cases success
  | succ fuel induction =>
    unfold meet at success
    split at success
    · rename_i same
      cases success
      exact stop same
    · split at success
      · rename_i firstPrev secondPrev firstFound secondFound
        split at success
        · rename_i olderFirsts olderSeconds rest
          cases success
          have older := induction rest fun same =>
            ⟨.singleton _, rfl, .singleton _, rfl, same⟩
          refine ⟨older.firstBranch.cons older.firstTip firstFound, rfl,
            older.secondBranch.cons older.secondTip secondFound, rfl, ?_⟩
          rw [forkPoint_cons older.firsts_ne, forkPoint_cons older.seconds_ne]
          exact older.met
        · cases success
      · cases success

omit [DecidableEq Hash] in
theorem forkPoint_append (newer : List (ForkItem Hash Rest Tx)) (nonempty : older ≠ []) :
    forkPoint (newer ++ older) = forkPoint older := by
  unfold forkPoint
  rw [List.getLast?_append_of_ne_nil newer nonempty]

omit [DecidableEq Hash] [Inhabited Hash] in
private theorem head?_continue (start : (newer ++ [item]).head? = some tip)
    (continues : older.head? = some item) : (newer ++ older).head? = some tip := by
  cases newer with
  | nil =>
    cases start
    exact continues
  | cons top rest => exact start

theorem fetchBranchFrom_eq_ok {first second : BlockId Hash}
    (success : fork.fetchBranchFrom first second = .ok (firsts, seconds)) :
    ∃ firstItem secondItem, fork.fetchBlock first = some firstItem ∧
      fork.fetchBlock second = some secondItem ∧
      fork.Branches firstItem secondItem firsts seconds := by
  unfold fetchBranchFrom at success
  split at success
  · rename_i firstItem secondItem firstFound secondFound
    refine ⟨firstItem, secondItem, firstFound, secondFound, ?_⟩
    split at success
    · cases success
    · rename_i firstPassed firstLow firstDown
      split at success
      · cases success
      · rename_i secondPassed secondLow secondDown
        split at success
        · cases success
        · rename_i metFirst metSecond met
          cases success
          obtain ⟨firstChain, firstStart⟩ := descend_eq_ok firstDown
          obtain ⟨secondChain, secondStart⟩ := descend_eq_ok secondDown
          have low := meet_eq_ok met
          refine ⟨firstChain.append low.firstBranch low.firstTip,
            head?_continue firstStart low.firstTip,
            secondChain.append low.secondBranch low.secondTip,
            head?_continue secondStart low.secondTip, ?_⟩
          rw [forkPoint_append _ low.firsts_ne, forkPoint_append _ low.seconds_ne]
          exact low.met
  · cases success

section

omit [DecidableEq Hash] [Inhabited Hash]

theorem IsBranch.alive (isBranch : fork.IsBranch branch)
    (tip : ∀ item, branch.head? = some item → item ∈ fork.owned []) : branch ⊆ fork.owned [] := by
  induction branch with
  | nil => exact List.nil_subset _
  | cons item rest induction =>
    apply List.cons_subset.mpr
    refine ⟨tip item rfl, induction isBranch.tail ?_⟩
    intro next same
    cases rest with
    | nil => cases same
    | cons other rest =>
      cases same
      exact (lock_eq_some (List.isChain_cons_cons.mp isBranch).1).2

theorem num_of_lock (sound : fork.Sound digests []) (alive : item ∈ fork.owned [])
    (found : fork.lock [] item.prev = some prev) : item.num = prev.num + 1 := by
  obtain ⟨points, prevAlive⟩ := lock_eq_some found
  change item.previousId.number + 1 = prev.num + 1
  rw [sound.items.linked item alive prev prevAlive points]
  exact congrArg Nat.succ (sound.items.identified prev prevAlive).number

theorem descend_unbounded (sound : fork.Sound digests []) (target : Nat)
    (alive : item ∈ fork.owned []) : fork.descend target item.num item = if target < item.num then
        match fork.lock [] item.prev with
        | none => .error .expiredLink
        | some prev =>
          match fork.descend target prev.num prev with
          | .ok (passed, last) => .ok (item :: passed, last)
          | .error fault => .error fault
      else .ok ([], item) := by
  change fork.descend target (item.previousId.number + 1) item = _
  unfold descend
  cases found : fork.lock [] item.prev with
  | none => rfl
  | some prev =>
    have number : item.previousId.number = prev.num := Nat.succ.inj (num_of_lock sound alive found)
    generalize item.previousId.number = fuel at number ⊢
    subst number
    rfl

end

omit [Inhabited Hash] in
theorem meet_unbounded (sound : fork.Sound digests [])
    (alive : first ∈ fork.owned []) (second : ForkItem Hash Rest Tx) :
    fork.meet first.num first second =
      if first.previousId = second.previousId then .ok ([first], [second])
      else
        match fork.lock [] first.prev, fork.lock [] second.prev with
        | some firstPrev, some secondPrev =>
          match fork.meet firstPrev.num firstPrev secondPrev with
          | .ok (firsts, seconds) =>
            .ok (first :: firsts, second :: seconds)
          | .error fault => .error fault
        | _, _ => .error .expiredLink := by
  cases found : fork.lock [] first.prev with
  | none =>
    change fork.meet (first.previousId.number + 1) first second = _
    rw [meet, found]
  | some prev =>
    rw [num_of_lock sound alive found, meet, found]
    cases fork.lock [] second.prev with
    | none => rfl
    | some _ => rfl

end ForkDatabase

end CocosChain.Chain

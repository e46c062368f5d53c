import CocosChain.Chain.ForkHead

/-!
# Switching forks from a state in which the heads agree

A block that makes such a database switch forks is one higher than the head.
The old branch consists of the newest items of the chain, and the new one is
one block longer.  Popping the old branch walks the head of the tree down the
new one, and is possible exactly if the undo history is long enough.
-/

namespace CocosChain.Chain

open ForkDatabase Throwing

variable {Hash Rest Tx Byte σ : Type}

namespace ForkDatabase

variable {fork : ForkDatabase Hash Rest Tx}

theorem IsBranch.along (sound : fork.Sound digests pinned) (held : trail ⊆ pinned)
    (links : trail.IsChain fun newer older => newer.prev = some older.ref)
    (root : ∀ oldest, trail.getLast? = some oldest → oldest.prev = none)
    (isBranch : fork.IsBranch branch) (tip : branch.head? = trail.head?) : branch <+: trail := by
  induction branch generalizing trail with
  | nil => exact List.nil_prefix
  | cons item rest induction =>
    obtain ⟨older, rfl⟩ := List.head?_eq_some_iff.mp tip.symm
    apply List.cons_prefix_cons.mpr
    refine ⟨rfl, ?_⟩
    cases rest with
    | nil => exact List.nil_prefix
    | cons next rest =>
      obtain ⟨found, later⟩ := List.isChain_cons_cons.mp isBranch
      obtain ⟨points, alive⟩ := lock_eq_some found
      cases older with
      | nil => cases (root item rfl).symm.trans points
      | cons below oldest =>
        obtain ⟨pointsBelow, laterLinks⟩ := List.isChain_cons_cons.mp links
        have same : next = below := by
          apply sound.items.unique next _ below _
          · exact Option.some.inj (points.symm.trans pointsBelow)
          · unfold owned at alive ⊢
            rw [List.append_nil] at alive
            exact List.mem_append_left _ alive
          · apply List.mem_append_right
            exact held (List.mem_cons_of_mem _ List.mem_cons_self)
        apply induction _ laterLinks _ later (congrArg some same)
        · exact fun other member => held (List.mem_cons_of_mem _ member)
        · intro last isLast
          exact root last (List.getLast?_cons_cons.trans isLast)

variable [DecidableEq Hash] [Inhabited Hash]

theorem meet_apart (sound : fork.Sound digests []) (firstAlive : first ∈ fork.owned [])
    (secondAlive : second ∈ fork.owned []) (apart : first.id ≠ second.id)
    (success : fork.meet fuel first second = .ok (firsts, seconds)) :
    firsts.length = seconds.length ∧ ∀ lastFirst lastSecond, firsts.getLast? = some lastFirst →
        seconds.getLast? = some lastSecond →
        lastFirst.id ≠ lastSecond.id := by
  have stop {firsts seconds : List (ForkItem Hash Rest Tx)}
      {first second : ForkItem Hash Rest Tx} (apart : first.id ≠ second.id)
      (success : (.ok ([first], [second]) :
        Except ForkFault (List _ × List _)) = .ok (firsts, seconds)) :
      firsts.length = seconds.length ∧ ∀ lastFirst lastSecond, firsts.getLast? = some lastFirst →
          seconds.getLast? = some lastSecond → lastFirst.id ≠ lastSecond.id := by
    cases success
    refine ⟨rfl, ?_⟩
    rintro _ _ ⟨⟩ ⟨⟩
    exact apart
  induction fuel generalizing first second firsts seconds with
  | zero =>
    unfold meet at success
    split at success
    · exact stop apart success
    · cases success
  | succ fuel induction =>
    unfold meet at success
    split at success
    · exact stop apart success
    · rename_i different
      split at success
      · rename_i firstPrev secondPrev firstFound secondFound
        split at success
        · rename_i olderFirsts olderSeconds rest
          cases success
          obtain ⟨firstPoints, firstPrevAlive⟩ := lock_eq_some firstFound
          obtain ⟨secondPoints, secondPrevAlive⟩ := lock_eq_some secondFound
          rw [sound.items.linked first firstAlive firstPrev firstPrevAlive
            firstPoints, sound.items.linked second secondAlive secondPrev
            secondPrevAlive secondPoints] at different
          obtain ⟨length, last⟩ := induction firstPrevAlive secondPrevAlive different rest
          have branches := meet_eq_ok rest
          refine ⟨congrArg Nat.succ length, ?_⟩
          intro lastFirst lastSecond firstLast secondLast
          apply last
          · rw [List.getLast?_cons_of_ne_nil branches.firsts_ne] at firstLast
            exact firstLast
          · rw [List.getLast?_cons_of_ne_nil branches.seconds_ne] at secondLast
            exact secondLast
        · cases success
      · cases success

/-- A block is at most one higher than the tree. -/
theorem Sound.link_blockNum_le (sound : fork.Sound digests pinned)
    (low : ∀ item ∈ fork.index, item.num ≤ bound) {head : ForkItem Hash Rest Tx}
    (isHead : fork.head = some head) (linked : fork.link block = .ok prev) :
    block.blockNum ≤ bound + 1 := by
  unfold SignedBlockHeader.blockNum
  unfold link at linked
  rw [isHead] at linked
  dsimp only at linked
  split at linked
  · cases linked
  · split at linked
    · rename_i named
      rw [named]
      exact Nat.succ_le_succ (Nat.zero_le _)
    · split at linked
      · cases linked
      · rename_i item found
        obtain ⟨same, indexed⟩ := fetchBlock_eq_some found
        have least := low item indexed
        have number := (sound.items.identified item (mem_owned_of_index indexed)).number
        change item.id.number = item.num at number
        rw [← same]
        omega

omit [Inhabited Hash] in
theorem fetchBranchFrom_next (sound : fork.Sound digests [])
    (firstFound : fork.fetchBlock first.id = some first)
    (secondFound : fork.fetchBlock second.id = some second) (next : first.num = second.num + 1)
    (success : fork.fetchBranchFrom first.id second.id = .ok (firsts, seconds)) :
    ∃ prev rest, fork.lock [] first.prev = some prev ∧ firsts = first :: rest ∧
      fork.meet prev.num prev second = .ok (rest, seconds) := by
  have alive : first ∈ fork.owned [] := mem_owned_of_index (fetchBlock_eq_some firstFound).2
  have higher : second.num < first.num := by
    omega
  unfold fetchBranchFrom at success
  rw [firstFound, secondFound] at success
  dsimp only at success
  rw [descend_unbounded sound second.num alive, if_pos higher] at success
  cases found : fork.lock [] first.prev with
  | none =>
    rw [found] at success
    cases success
  | some prev =>
    have number := num_of_lock sound alive found
    have level : prev.num = second.num := by
      omega
    have stop {target fuel : Nat} {item : ForkItem Hash Rest Tx} (low : item.num ≤ target) :
        fork.descend target fuel item = .ok ([], item) := by
      cases fuel with
      | zero => exact if_neg (not_lt.mpr low)
      | succ fuel => exact if_neg (not_lt.mpr low)
    rw [found] at success
    dsimp only at success
    rw [stop level.le] at success
    dsimp only at success
    rw [stop level.ge] at success
    dsimp only at success
    split at success
    · cases success
    · rename_i metFirst metSecond met
      cases success
      exact ⟨prev, metFirst, rfl, rfl, met⟩

end ForkDatabase

namespace Database

variable [DecidableEq Hash] [Inhabited Hash] (protocol : Protocol Hash Rest Tx Byte σ)

/-- What a fork switch starts from: `news` leads from the new block to the
fork, and `olds` are as many of the newest items of the chain. -/
structure Turn (trail : List (ForkItem Hash Rest Tx))
    (db : Database Hash Rest Tx Byte σ) (newBlock : SignedBlock Hash Rest Tx)
    (fork : ForkDatabase Hash Rest Tx) (newHead : ForkItem Hash Rest Tx)
    (news olds : List (ForkItem Hash Rest Tx)) : Prop where
  data : newHead.data = newBlock
  number : newBlock.blockNum = db.headBlockNum + 1
  head : fork.head = news.head?
  tip : news.head? = some newHead
  linked : news.IsChain fun newer older => newer.prev = some older.ref
  length : news.length = olds.length + 1
  along : olds <+: trail
  nonempty : olds ≠ []
  held : fork.Sound protocol.digests (news ++ olds)
  found : ∀ item ∈ olds, fork.fetchBlock item.id = some item
  apart : ∀ lastNew lastOld, news.getLast? = some lastNew →
    olds.getLast? = some lastOld → lastNew.id ≠ lastOld.id

variable {protocol} {trail news olds : List (ForkItem Hash Rest Tx)}
variable {db : Database Hash Rest Tx Byte σ}
variable {newBlock : SignedBlock Hash Rest Tx}
variable {fork : ForkDatabase Hash Rest Tx} {newHead : ForkItem Hash Rest Tx}

namespace Switches

variable (switches : Switches protocol db newBlock fork newHead news olds)
include switches

variable (inSync : InSync protocol trail db)
include inSync

theorem newHead_eq : ∃ head prev, db.fork.head = some head ∧ db.fork.link newBlock = .ok prev ∧
      newHead = ⟨db.fork.nextRef, prev, newBlock⟩ ∧
      ∀ other ∈ fork.index, other ∈ db.fork.index ∨ other = newHead := by
  obtain ⟨prev, linked, isFork⟩ := pushBlock_eq_ok switches.pushed
  let item : ForkItem Hash Rest Tx := ⟨db.fork.nextRef, prev, newBlock⟩
  let allocated := { db.fork with nextRef := db.fork.nextRef + 1 }
  have known : ∀ other ∈ fork.index, other ∈ db.fork.index ∨ other = item := by
    intro other indexed
    rw [isFork] at indexed
    have cases : other ∈ allocated.index ∨ other = item :=
      mem_insert_cases (advance_subset item indexed)
    exact cases
  cases isHead : db.fork.head with
  | none =>
    have head : fork.head = some item := by
      rw [isFork]
      apply advance_head
      intro head other
      rw [insert_head] at other
      cases isHead.symm.trans other
    have isNew : newHead = item := Option.some.inj (switches.head.symm.trans head)
    obtain ⟨_, second, _, secondFound, _⟩ := fetchBranchFrom_eq_ok switches.fetched
    obtain ⟨same, indexed⟩ := fetchBlock_eq_some secondFound
    have trailEmpty : trail = [] := List.head?_eq_none_iff.mp (inSync.head.symm.trans isHead)
    rcases known second indexed with old | rfl
    · rw [inSync.empty trailEmpty] at old
      cases old
    · have higher := switches.higher
      rw [isNew] at higher
      have number := switches.identified.number
      have headNumber := inSync.history.objects_sound.headId_number
      change item.id = db.objects.headBlockId at same
      change db.objects.headBlockNumber < newBlock.blockNum at higher
      change item.id.number = newBlock.blockNum at number
      rw [same, headNumber] at number
      omega
  | some head =>
    refine ⟨head, prev, rfl, linked, ?_⟩
    have stays : (allocated.insert item).head = some head := by
      rw [insert_head]
      exact isHead
    by_cases lower : item.num ≤ head.num
    · have same : fork.head = some head := by
        rw [isFork, advance_of_lower stays lower]
        exact stays
      cases switches.head.symm.trans same
      have higher := switches.higher
      rw [inSync.head_num isHead] at higher
      exact absurd higher (Nat.lt_irrefl _)
    · have isItem : fork.head = some item := by
        rw [isFork]
        apply advance_head
        intro other isOther
        cases stays.symm.trans isOther
        exact not_le.mp lower
      have isNew : newHead = item := Option.some.inj (switches.head.symm.trans isItem)
      rw [isNew]
      exact ⟨rfl, known⟩

theorem number : newBlock.blockNum = db.headBlockNum + 1 := by
  obtain ⟨head, prev, isHead, linked, rfl, _⟩ := switches.newHead_eq inSync
  have higher : db.headBlockNum < newBlock.blockNum := switches.higher
  have least := inSync.fork.link_blockNum_le inSync.low isHead linked
  omega

theorem turn : Turn protocol trail db newBlock fork newHead news olds := by
  have number := switches.number inSync
  obtain ⟨head, prev, isHead, linked, isNew, known⟩ := switches.newHead_eq inSync
  have held := inSync.fork.pushBlock_held switches.identified linked switches.pushed
  rw [← isNew] at held
  have sound := held.unpin
  have data : newHead.data = newBlock := by
    rw [isNew]
  have newNumber : newHead.num = db.headBlockNum + 1 := by
    rw [isNew]
    exact number
  obtain ⟨first, second, firstFound, secondFound, branches⟩ :=
    fetchBranchFrom_eq_ok switches.fetched
  have numbered {item : ForkItem Hash Rest Tx} (indexed : item ∈ fork.index) :
      item.id.number = item.num :=
    (sound.items.identified item (mem_owned_of_index indexed)).number
  have newId : newHead.id.number = newHead.num := by
    rw [isNew]
    exact switches.identified.number
  have headId := inSync.head_id isHead
  have headNumber := inSync.history.objects_sound.headId_number
  have firstIs : first = newHead := by
    obtain ⟨same, indexed⟩ := fetchBlock_eq_some firstFound
    rcases known first indexed with old | new
    · have low := inSync.low first old
      have firstNumber := numbered indexed
      rw [same] at firstNumber
      omega
    · exact new
  have secondIs : second = head := by
    obtain ⟨same, indexed⟩ := fetchBlock_eq_some secondFound
    rcases known second indexed with old | new
    · have headIndexed : head ∈ db.fork.index :=
        inSync.indexed head (inSync.head.symm.trans isHead)
      exact List.inj_on_of_nodup_map inSync.fork.distinct old headIndexed (same.trans headId.symm)
    · rw [← new, same] at newId
      rw [← new] at newNumber
      change db.objects.headBlockId.number = _ at newId
      change second.num = db.objects.headBlockNumber + 1 at newNumber
      omega
  subst firstIs
  subst secondIs
  have trailTip : trail.head? = some second := inSync.head.symm.trans isHead
  have next : first.num = second.num + 1 := by
    rw [newNumber, inSync.head_num isHead]
  have fetched := switches.fetched
  rw [← headId] at secondFound fetched
  obtain ⟨prev, rest, found, rfl, met⟩ :=
    fetchBranchFrom_next sound firstFound secondFound next fetched
  obtain ⟨points, prevAlive⟩ := lock_eq_some found
  have firstAlive : first ∈ fork.owned [] :=
    mem_owned_of_index (fetchBlock_eq_some firstFound).2
  have secondAlive : second ∈ fork.owned [] :=
    mem_owned_of_index (fetchBlock_eq_some secondFound).2
  have apart : prev.id ≠ second.id := by
    rw [← sound.items.linked first firstAlive prev prevAlive points, headId]
    exact switches.offHead
  obtain ⟨length, last⟩ := meet_apart sound prevAlive secondAlive apart met
  have restNonempty := (meet_eq_ok met).firsts_ne
  have newsAlive : first :: rest ⊆ fork.owned [] := by
    apply branches.firstBranch.alive
    rintro _ ⟨⟩
    exact firstAlive
  have oldsAlive : olds ⊆ fork.owned [] := by
    apply branches.secondBranch.alive
    intro item isTip
    cases branches.secondTip.symm.trans isTip
    exact secondAlive
  have along : olds <+: trail :=
    branches.secondBranch.along held (List.subset_cons_self first trail)
      inSync.links inSync.root (branches.secondTip.trans trailTip.symm)
  refine ⟨data, number, switches.head.trans rfl, rfl, ?_,
    congrArg Nat.succ length, along, branches.seconds_ne,
    sound.pin (List.append_subset.mpr ⟨newsAlive, oldsAlive⟩), ?_, ?_⟩
  · apply branches.firstBranch.imp
    intro newer older step
    exact (lock_eq_some step).1
  · intro item member
    apply fetchBlock_of_mem sound.distinct
    have alive := oldsAlive member
    have fresh := inSync.fork.items.fresh item (List.mem_append_right _ (along.subset member))
    unfold ForkDatabase.owned at alive
    rw [switches.head] at alive
    simp only [List.append_nil, List.mem_append, Option.mem_toList, Option.some.injEq] at alive
    rcases alive with indexed | isFirst
    · exact indexed
    · rw [← isFirst, isNew] at fresh
      exact absurd fresh (Nat.lt_irrefl _)
  · intro lastNew lastOld newLast oldLast
    rw [List.getLast?_cons_of_ne_nil restNonempty] at newLast
    exact last lastNew lastOld newLast oldLast

end Switches

/-- The database after the blocks of `olds` have been popped.  Only the
transactions of the last block popped are kept. -/
def rewound (undo : SnapshotStack (Objects Hash Rest Tx σ)) (head : Option (ForkItem Hash Rest Tx))
    (olds : List (ForkItem Hash Rest Tx))
    (db : Database Hash Rest Tx Byte σ) : Database Hash Rest Tx Byte σ :=
  { db with
    undo := undo
    fork := db.fork.setHead head
    poppedTx := (olds.getLast?.map (·.data.transactions)).getD db.poppedTx }

theorem History.popCommit_chain (history : History protocol db)
    {undo : SnapshotStack (Objects Hash Rest Tx σ)} (restored : db.undo.popCommit = some undo)
    (chain : db.objects.mainChain = block :: older) :
    undo.current.applyBlock protocol block = some db.objects ∧ undo.current.mainChain = older := by
  obtain ⟨_, _, replayed⟩ := history.popCommit_replays restored
  have ext := (Objects.applyBlock_extends replayed).chain
  rw [chain] at ext
  cases ext
  exact ⟨replayed, rfl⟩

omit [DecidableEq Hash] [Inhabited Hash] in
theorem rewound_rewound (first second : SnapshotStack (Objects Hash Rest Tx σ))
    (head : Option (ForkItem Hash Rest Tx)) (old : ForkItem Hash Rest Tx)
    {older : ForkItem Hash Rest Tx} :
    rewound second (older :: news).getLast? olds (rewound first head [old] db) =
      rewound second (newer :: older :: news).getLast? (old :: olds) db := by
  unfold rewound
  rw [List.getLast?_cons_cons]
  cases olds with
  | nil => rfl
  | cons next rest =>
    rw [List.getLast?_cons_cons]
    cases isLast : (next :: rest).getLast? with
    | none => cases List.getLast?_eq_none_iff.mp isLast
    | some last => rfl

variable (protocol) in
/-- The blocks of `olds` are to be popped, down to the block `target`, while
the head of the tree goes down `news`. -/
structure Descent (pinned : List (ForkItem Hash Rest Tx))
    (target : BlockId Hash) (news olds : List (ForkItem Hash Rest Tx))
    (db : Database Hash Rest Tx Byte σ) : Prop where
  history : History protocol db
  sound : db.fork.Sound protocol.digests pinned
  blocks : olds.map ForkItem.data <+: db.objects.mainChain
  isTarget : target = tipId (db.objects.mainChain.drop olds.length)
  found : ∀ item ∈ olds, db.fork.fetchBlock item.id = some item
  head : db.fork.head = news.head?
  linked : news.IsChain fun newer older => newer.prev = some older.ref
  length : news.length = olds.length + 1
  held : news ⊆ pinned

namespace Descent

variable {pinned later rest : List (ForkItem Hash Rest Tx)}
variable {old newer older : ForkItem Hash Rest Tx} {target : BlockId Hash}

theorem stops (descent : Descent protocol pinned target news [] db) :
    db.headBlockId = target ∧ rewound db.undo news.getLast? [] db = db := by
  constructor
  · rw [descent.isTarget]
    exact descent.history.objects_sound.tip
  · obtain ⟨item, rfl⟩ := List.length_eq_one_iff.mp descent.length
    unfold rewound
    change { db with fork := db.fork.setHead ([item].head?) } = db
    rw [← descent.head]
    rfl

theorem continues (descent : Descent protocol pinned target news (old :: rest) db) :
    db.headBlockId ≠ target := by
  obtain ⟨_, chain⟩ := descent.blocks
  rw [descent.isTarget]
  apply descent.history.objects_sound.tip_ne (Nat.succ_pos _)
  rw [← chain, List.length_append, List.length_map]
  exact Nat.le_add_right _ _

section

variable (descent : Descent protocol pinned target (newer :: older :: later) (old :: rest) db)
include descent

theorem popBlock : popBlock protocol pinned db = match db.undo.popCommit with
      | none => (.error .noUndoHistory, { db with fork := db.fork.setHead (some older) })
      | some undo => (.ok (), rewound undo (some older) [old] db) := by
  obtain ⟨_, chain⟩ := descent.blocks
  have isTip : db.headBlockId = old.id := by
    unfold headBlockId
    rw [descent.history.objects_sound.tip, ← chain]
    rfl
  have fetched : db.fetchBlockById protocol db.headBlockId = some old.data := by
    unfold fetchBlockById
    rw [isTip, descent.found old List.mem_cons_self]
  have locked : db.fork.lock pinned newer.prev = some older := by
    rw [(List.isChain_cons_cons.mp descent.linked).1]
    apply lock_of_mem descent.sound
    apply List.mem_append_right
    exact descent.held (List.mem_cons_of_mem _ List.mem_cons_self)
  have moved : db.fork.popBlock pinned = .ok (db.fork.setHead (some older)) := by
    unfold ForkDatabase.popBlock
    rw [descent.head]
    dsimp only [List.head?_cons]
    rw [locked]
    rfl
  have reset : db.resetPendingSession = db := by
    unfold resetPendingSession
    rw [descent.history.quiet]
    rfl
  unfold Database.popBlock
  rw [modify_bind, reset, get_bind, fetched]
  dsimp only
  rw [moved]
  dsimp only
  rw [modify_bind]
  cases db.undo.popCommit with
  | none => rfl
  | some undo => rfl

theorem next {undo : SnapshotStack (Objects Hash Rest Tx σ)}
    (restored : db.undo.popCommit = some undo) :
    Descent protocol pinned target (older :: later) rest (rewound undo (some older) [old] db) := by
  obtain ⟨_, chain⟩ := descent.blocks
  obtain ⟨_, olderChain⟩ := descent.history.popCommit_chain restored chain.symm
  have held : older :: later ⊆ pinned :=
    fun item member => descent.held (List.mem_cons_of_mem _ member)
  constructor
  · exact (descent.history.popCommit restored).of_undo rfl rfl
  · apply descent.sound.setHead
    rintro _ ⟨⟩
    exact List.mem_append_right _ (held List.mem_cons_self)
  · change _ <+: undo.current.mainChain
    rw [olderChain]
    exact List.prefix_append _ _
  · change _ = tipId (undo.current.mainChain.drop _)
    rw [olderChain, descent.isTarget, ← chain]
    rfl
  · intro item member
    exact descent.found item (List.mem_cons_of_mem old member)
  · rfl
  · exact (List.isChain_cons_cons.mp descent.linked).2
  · exact Nat.succ.inj descent.length
  · exact held

end

theorem popped (descent : Descent protocol pinned target news olds db) (fuel : Nat) :
    (∀ undo, db.undo.popCommits olds.length = some undo → olds.length ≤ fuel →
      repeatWhile (fun db => db.headBlockId ≠ target)
          (Database.popBlock protocol pinned) .unfinished fuel db =
        (.ok (), rewound undo news.getLast? olds db)) ∧
    (db.undo.popCommits olds.length = none → Throwing.Throws
        (repeatWhile (fun db => db.headBlockId ≠ target)
          (Database.popBlock protocol pinned) .unfinished fuel) db) := by
  induction olds generalizing db news fuel with
  | nil =>
    obtain ⟨stop, same⟩ := descent.stops
    refine ⟨?_, fun short => by cases short⟩
    rintro _ ⟨⟩ _
    rw [same]
    exact repeatWhile_stop fuel (decide_eq_false (not_not.mpr stop))
  | cons old rest induction =>
    have unroll (fuel : Nat) : repeatWhile (fun db => decide (db.headBlockId ≠ target))
            (Database.popBlock protocol pinned) .unfinished (fuel + 1) db = (do
            Database.popBlock protocol pinned
            repeatWhile (fun db => decide (db.headBlockId ≠ target))
              (Database.popBlock protocol pinned) .unfinished fuel) db :=
      repeatWhile_step fuel (decide_eq_true descent.continues)
    match news, descent, descent.length with
    | newer :: older :: later, descent, _ =>
      have step := descent.popBlock
      cases fuel with
      | zero =>
        refine ⟨?_, fun _ => ⟨.unfinished, ?_⟩⟩
        · intro undo _ enough
          cases enough
        · exact congrArg Prod.fst (if_pos (decide_eq_true descent.continues))
      | succ fuel =>
        unfold Throwing.Throws
        rw [unroll, List.length_cons, SnapshotStack.popCommits]
        cases restored : db.undo.popCommit with
        | none =>
          rw [restored] at step
          rw [bind_of_error step]
          refine ⟨?_, fun _ => ⟨_, rfl⟩⟩
          rintro _ ⟨⟩
        | some undo =>
          rw [restored] at step
          rw [bind_of_ok step]
          obtain ⟨returns, throws⟩ := induction (descent.next restored) fuel
          refine ⟨?_, throws⟩
          intro final popped enough
          rw [returns final popped (Nat.le_of_succ_le_succ enough), rewound_rewound]

end Descent

omit [DecidableEq Hash] in
theorem forkPoint_chained (nonempty : olds ≠ [])
    (chained : Chained digests (olds.map ForkItem.data ++ older)) :
    forkPoint olds = tipId older := by
  induction olds with
  | nil => exact absurd rfl nonempty
  | cons item rest induction =>
    cases rest with
    | nil => exact chained.1
    | cons next rest =>
      rw [forkPoint_cons (List.cons_ne_nil _ _)]
      exact induction (List.cons_ne_nil _ _) chained.2.2

namespace Turn

variable (turn : Turn protocol trail db newBlock fork newHead news olds)
include turn

variable (inSync : InSync protocol trail db)
include inSync

theorem blocks : olds.map ForkItem.data <+: db.objects.mainChain :=
  (turn.along.map ForkItem.data).trans inSync.blocks

theorem descent : Descent protocol (news ++ olds) (forkPoint olds) news olds
      { db with fork := fork } := by
  refine ⟨inSync.history.of_undo rfl rfl, turn.held, turn.blocks inSync, ?_,
    turn.found, turn.head, turn.linked, turn.length, List.subset_append_left _ _⟩
  obtain ⟨_, chain⟩ := turn.blocks inSync
  have chained := inSync.history.objects_sound.chained
  change _ = tipId (db.objects.mainChain.drop _)
  rw [← chain] at chained ⊢
  rw [forkPoint_chained turn.nonempty chained]
  congr 1
  rw [← List.length_map (f := ForkItem.data), List.drop_left]

theorem popTo : (∀ undo, db.undo.popCommits olds.length = some undo →
      popTo protocol (news ++ olds) (forkPoint olds) { db with fork := fork } =
        (.ok (), rewound undo news.getLast? olds { db with fork := fork })) ∧
    (db.undo.popCommits olds.length = none → (Database.popTo protocol (news ++ olds)
        (forkPoint olds)).Throws { db with fork := fork }) := by
  obtain ⟨returns, throws⟩ := (turn.descent inSync).popped (db.undo.saved.length + 1)
  refine ⟨?_, throws⟩
  intro undo popped
  apply returns undo popped
  exact (SnapshotStack.popCommits_le popped).trans (Nat.le_succ _)

end Turn

end Database

end CocosChain.Chain

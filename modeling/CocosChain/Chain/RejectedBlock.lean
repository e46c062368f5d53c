import CocosChain.Chain.ElectingNode
import CocosChain.Chain.ForkSwitch

/-!
# What a rejected block leaves behind

A block for the head block that cannot be applied is taken out of the tree of
recent blocks again, and the objects are rolled back.  It still is the head of
the tree, and if it has been stopped in the middle of the maintenance, the
candidates and results collected by then are still in the members of the
database.  If they are not, the next block for the head block is accepted or
rejected as if there had been no other block, and with the same effect.
-/

namespace CocosChain.Chain

open ForkDatabase

namespace ForkDatabase

variable {Hash Rest Tx : Type} {fork : ForkDatabase Hash Rest Tx}

theorem mem_advance_below (indexed : other ∈ fork.index) (below : item.num ≤ other.num + 1)
    (room : 0 < fork.maxSize) : other ∈ (fork.advance item).index := by
  unfold advance
  split
  · exact indexed
  · split
    · apply mem_prune indexed
      omega
    · exact indexed

@[simp] theorem advance_maxSize (item : ForkItem Hash Rest Tx) :
    (fork.advance item).maxSize = fork.maxSize := by
  unfold advance
  split
  · rfl
  · split
    · rfl
    · rfl

end ForkDatabase

variable {Hash Rest Tx Byte σ : Type} [DecidableEq Hash] [Inhabited Hash]

variable (protocol : Protocol Hash Rest Tx Byte σ)

omit [Inhabited Hash] in
/-- The objects after a block that carries the identifier of its header and
can be applied. -/
def Objects.acceptBlock (block : SignedBlock Hash Rest Tx)
    (objects : Objects Hash Rest Tx σ) : Option (Objects Hash Rest Tx σ) :=
  if block.blockId = protocol.digests.makeId block.toSignedBlockHeader then
    objects.applyBlock protocol block
  else none

namespace Database

/-- Pushing the block does what the objects alone say. -/
structure Follows (db : Database Hash Rest Tx Byte σ)
    (block : SignedBlock Hash Rest Tx) : Prop where
  returns : (pushBlockOnHead protocol block).Returns db ↔
    (db.objects.acceptBlock protocol block).isSome
  objects : ((pushBlockOnHead protocol block).after db).objects =
    (db.objects.acceptBlock protocol block).getD db.objects

/-- The head of the tree is not the head block, but a block for it that is no
longer in the index. -/
structure Stale (db : Database Hash Rest Tx Byte σ) : Prop extends
    Sound protocol [] db where
  room : 0 < db.fork.maxSize
  head : ∃ item, db.fork.head = some item ∧ item.data.previous = db.headBlockId
  low : ∀ item ∈ db.fork.index, item.num ≤ db.headBlockNum
  linked : db.headBlockId = default ∨ ∃ item ∈ db.fork.index, item.id = db.headBlockId

variable {protocol} {db : Database Hash Rest Tx Byte σ}

omit [Inhabited Hash] in
theorem acceptBlock_offHead (offHead : block.previous ≠ db.headBlockId) :
    db.objects.acceptBlock protocol block = none := by
  unfold Objects.acceptBlock
  split
  · cases applied : db.objects.applyBlock protocol block with
    | none => rfl
    | some next =>
      exact absurd (Objects.applyBlock_onHead protocol applied).symm offHead
  · rfl

theorem Follows.of_refused (refused : pushBlockOnHead protocol block db = (.error fault, db))
    (fails : db.objects.acceptBlock protocol block = none) : Follows protocol db block := by
  constructor
  · simp [Throwing.Returns, refused, fails]
  · simp [Throwing.after, refused, fails]

variable {fork : ForkDatabase Hash Rest Tx} {head : ForkItem Hash Rest Tx}

theorem pushBlockOnHead_extends (identified : protocol.digests.Identified block)
    (pushed : db.fork.pushBlock block = .ok fork) (isHead : fork.head = some head)
    (onHead : head.data.previous = db.headBlockId) :
    pushBlockOnHead protocol block db = extendHead protocol block { db with fork := fork } := by
  rw [pushBlockOnHead_pushed protocol identified pushed isHead, if_neg (not_not.mpr onHead)]

theorem extendHead_returns (positive : 0 < db.undo.maxSize)
    (applied : db.objects.applyBlock protocol block = some next) :
    ∃ after, extendHead protocol block db = (.ok false, after) ∧ after.objects = next := by
  obtain ⟨kept, _, ran⟩ := applyAndStore_returns protocol positive block.blockId applied
  refine ⟨extended protocol block.blockId block next kept db, ?_, rfl⟩
  unfold extendHead
  exact Throwing.bind_of_ok (Throwing.handle_of_ok ran)

theorem extendHead_throws (positive : 0 < db.undo.maxSize)
    (failed : db.objects.applyBlock protocol block = none) :
    ∃ fault kept after, Reverted block db kept after ∧ extendHead protocol block db =
        (.error fault, { after with fork := after.fork.remove block.blockId }) := by
  obtain ⟨fault, kept, after, _, reverted, ran⟩ :=
    applyAndStore_throws protocol positive block.blockId failed
  refine ⟨fault, kept, after, reverted, ?_⟩
  unfold extendHead
  exact Throwing.bind_of_error (Throwing.handle_of_error ran)

omit [DecidableEq Hash] [Inhabited Hash] in
theorem Reverted.objects_eq (reverted : Reverted block db kept after) :
    after.objects = db.objects := by
  cases reverted with
  | early => rfl
  | late onHead => rfl

theorem Follows.of_extends (positive : 0 < db.undo.maxSize)
    (identified : protocol.digests.Identified block) (pushed : db.fork.pushBlock block = .ok fork)
    (isHead : fork.head = some head) (onHead : head.data.previous = db.headBlockId) :
    Follows protocol db block := by
  let pushedDb := { db with fork := fork }
  have room : 0 < pushedDb.undo.maxSize := positive
  have ran := pushBlockOnHead_extends identified pushed isHead onHead
  have accepts : db.objects.acceptBlock protocol block =
      db.objects.applyBlock protocol block := if_pos identified
  cases applied : db.objects.applyBlock protocol block with
  | some next =>
    obtain ⟨after, extended, objects⟩ := extendHead_returns room applied
    rw [extended] at ran
    rw [applied] at accepts
    constructor
    · simp [Throwing.Returns, ran, accepts]
    · simp [Throwing.after, ran, accepts, objects]
  | none =>
    obtain ⟨_, _, after, reverted, extended⟩ := extendHead_throws room applied
    rw [extended] at ran
    rw [applied] at accepts
    constructor
    · simp [Throwing.Returns, ran, accepts]
    · rw [accepts]
      unfold Throwing.after
      rw [ran]
      exact reverted.objects_eq

theorem Follows.of_unidentified (bad : ¬ protocol.digests.Identified block) :
    Follows protocol db block :=
  .of_refused (pushBlockOnHead_unidentified bad) (if_neg bad)

theorem InSync.follows (inSync : InSync protocol trail db)
    (next : block.previous = db.headBlockId ∨ ¬ Admits protocol db.fork block) :
    Follows protocol db block := by
  by_cases identified : protocol.digests.Identified block
  · by_cases onHead : block.previous = db.headBlockId
    · obtain ⟨fork, pushed, isHead, _⟩ :=
        inSync.pushBlock_onHead identified onHead rfl
      exact .of_extends inSync.history.positive identified pushed isHead onHead
    · have refused := next.resolve_left onHead
      cases linked : db.fork.link block with
      | error fault =>
        exact .of_refused (pushBlockOnHead_refused identified linked) (acceptBlock_offHead onHead)
      | ok prev => exact absurd ⟨identified, prev, linked⟩ refused
  · exact .of_unidentified identified

theorem InSync.admits_iff (inSync : InSync protocol trail db)
    (onHead : block.previous = db.headBlockId) :
    Admits protocol db.fork block ↔ protocol.digests.Identified block :=
  ⟨And.left, fun identified => ⟨identified, _, inSync.link_onHead onHead⟩⟩

omit [DecidableEq Hash] [Inhabited Hash] in
theorem Reverted.fork_eq (reverted : Reverted block db kept after) :
    after.fork = db.fork ∨ ∃ size, 0 < size ∧ after.fork = db.fork.setMaxSize size := by
  cases reverted with
  | early => exact .inl rfl
  | late onHead => exact .inr ⟨_, Nat.succ_pos _, rfl⟩

/-- The tree with a new head for the head block, before and after its sizes
are set. -/
structure Raised (item : ForkItem Hash Rest Tx)
    (db : Database Hash Rest Tx Byte σ) (fork : ForkDatabase Hash Rest Tx) : Prop where
  room : 0 < fork.maxSize
  head : fork.head = some item
  known : ∀ other ∈ fork.index, other ∈ db.fork.index ∨ other = item
  kept : ∀ other ∈ db.fork.index, item.num ≤ other.num + 1 → other ∈ fork.index

omit [DecidableEq Hash] [Inhabited Hash] in
theorem Raised.setMaxSize (raised : Raised item db fork) (room : 0 < size) :
    Raised item db (fork.setMaxSize size) where
  room := by
    rw [setMaxSize_maxSize]
    exact room
  head := (setMaxSize_head size).trans raised.head
  known other indexed := raised.known other (setMaxSize_subset size indexed)
  kept other indexed below :=
    mem_setMaxSize raised.head (raised.kept other indexed below) (by omega)

theorem InSync.raises (inSync : InSync protocol trail db) (room : 0 < db.fork.maxSize)
    (identified : protocol.digests.Identified block) (onHead : block.previous = db.headBlockId) :
    ∃ fork item, db.fork.pushBlock block = .ok fork ∧ item.data = block ∧ Raised item db fork := by
  obtain ⟨fork, pushed, isHead, _, known, _⟩ := inSync.pushBlock_onHead identified onHead rfl
  refine ⟨fork, _, pushed, rfl, ?_, isHead, known, ?_⟩
  · obtain ⟨prev, _, rfl⟩ := pushBlock_eq_ok pushed
    simpa using room
  · intro other indexed below
    obtain ⟨_, _, rfl⟩ := pushBlock_eq_ok pushed
    apply mem_advance_below
    · exact subset_insert _ indexed
    · exact below
    · simpa using room

theorem Sound.pushed (sound : Sound protocol [] db) (block : SignedBlock Hash Rest Tx) :
    Sound protocol [] ((Database.pushBlockOnHead protocol block).after db) := by
  have closed : HistoryClosed protocol fun _ => True := by constructor <;> intros <;> trivial
  exact (closed.pushBlockOnHead sound trivial block).1

theorem InSync.sound (inSync : InSync protocol trail db) : Sound protocol [] db :=
  ⟨inSync.history, inSync.fork.unpin⟩

theorem InSync.rejects (inSync : InSync protocol trail db) (room : 0 < db.fork.maxSize)
    (rooted : db.fork.head = none → db.headBlockId = default)
    (identified : protocol.digests.Identified block) (onHead : block.previous = db.headBlockId)
    (failed : db.objects.applyBlock protocol block = none) :
    Stale protocol ((Database.pushBlockOnHead protocol block).after db) := by
  obtain ⟨fork, item, pushed, data, raised⟩ := inSync.raises room identified onHead
  have itemOnHead : item.data.previous = db.headBlockId := by
    rw [data]
    exact onHead
  let pushedDb := { db with fork := fork }
  have positive : 0 < pushedDb.undo.maxSize := inSync.history.positive
  obtain ⟨_, kept, after, reverted, ran⟩ := extendHead_throws positive failed
  have reverts : Raised item db after.fork := by
    rcases reverted.fork_eq with same | ⟨_, positive, same⟩
    · rw [same]
      exact raised
    · rw [same]
      exact raised.setMaxSize positive
  have sound := inSync.sound.pushed block
  have same : after.headBlockId = db.headBlockId := congrArg Objects.headBlockId reverted.objects_eq
  have sameNum : after.headBlockNum = db.headBlockNum :=
    congrArg Objects.headBlockNumber reverted.objects_eq
  unfold Throwing.after at sound ⊢
  rw [pushBlockOnHead_extends identified pushed raised.head itemOnHead, ran] at sound ⊢
  have number : block.blockId.number = db.headBlockNum + 1 :=
    identified.number.trans (inSync.history.objects_sound.blockNum_of_previous onHead.symm)
  refine ⟨sound, reverts.room, ⟨item, reverts.head, ?_⟩, ?_, ?_⟩
  · exact itemOnHead.trans same.symm
  · intro other indexed
    obtain ⟨member, notRemoved⟩ := List.mem_filter.mp indexed
    rcases reverts.known other member with old | rfl
    · exact (inSync.low other old).trans sameNum.ge
    · rw [← data] at notRemoved
      simp [ForkItem.id] at notRemoved
  · cases trail with
    | nil => exact .inl (same.trans (rooted inSync.head))
    | cons top rest =>
      have isTop := inSync.head_id inSync.head
      refine .inr ⟨top, List.mem_filter.mpr ⟨?_, ?_⟩, isTop.trans same.symm⟩
      · apply reverts.kept top (inSync.indexed top rfl)
        have topNumber := inSync.head_num inSync.head
        have itemNumber : item.num = db.headBlockNum + 1 := by
          unfold ForkItem.num
          rw [data]
          exact inSync.history.objects_sound.blockNum_of_previous onHead.symm
        omega
      · apply decide_eq_true
        intro isBlock
        have headNumber := inSync.history.objects_sound.headId_number
        rw [← isBlock, isTop] at number
        change db.objects.headBlockId.number = db.objects.headBlockNumber + 1 at number
        omega

namespace Stale

variable (stale : Stale protocol db)
include stale

theorem headBlockId_number : db.headBlockId.number = db.headBlockNum :=
  stale.history.objects_sound.headId_number

theorem links (onHead : block.previous = db.headBlockId) :
    ∃ prev, db.fork.link block = .ok prev := by
  obtain ⟨item, isHead, itemOnHead⟩ := stale.head
  have recent : ¬ block.blockNum ≤ item.num - db.fork.maxSize := by
    have room := stale.room
    have same : item.num = block.blockNum := by
      unfold ForkItem.num SignedBlockHeader.blockNum
      rw [itemOnHead, onHead]
    have positive : 0 < block.blockNum := Nat.succ_pos _
    omega
  unfold ForkDatabase.link
  rw [isHead]
  dsimp only
  rw [if_neg recent]
  by_cases named : block.previous = default
  · exact ⟨none, if_pos named⟩
  · rw [if_neg named]
    rcases stale.linked with genesis | ⟨_, indexed, same⟩
    · exact absurd (onHead.trans genesis) named
    · have found := fetchBlock_of_mem stale.fork.distinct indexed
      rw [same, ← onHead] at found
      rw [found]
      exact ⟨_, rfl⟩

theorem admits_iff (onHead : block.previous = db.headBlockId) :
    Admits protocol db.fork block ↔ protocol.digests.Identified block :=
  ⟨And.left, fun identified => ⟨identified, stale.links onHead⟩⟩

theorem lower (isHead : db.fork.head = some item) (itemOnHead : item.data.previous = db.headBlockId)
    (linked : db.fork.link block = .ok prev) : block.blockNum ≤ item.num := by
  have itemNumber : item.num = db.headBlockNum + 1 := by
    unfold ForkItem.num SignedBlockHeader.blockNum
    rw [itemOnHead, stale.headBlockId_number]
  rw [itemNumber]
  exact stale.fork.link_blockNum_le stale.low isHead linked

theorem follows (block : SignedBlock Hash Rest Tx) : Follows protocol db block := by
  by_cases identified : protocol.digests.Identified block
  · cases linked : db.fork.link block with
    | error fault =>
      apply Follows.of_refused (pushBlockOnHead_refused identified linked)
      apply acceptBlock_offHead
      intro onHead
      obtain ⟨prev, admitted⟩ := stale.links onHead
      cases linked.symm.trans admitted
    | ok prev =>
      obtain ⟨item, isHead, itemOnHead⟩ := stale.head
      obtain ⟨pushed, stays⟩ := pushBlock_of_lower linked isHead
        (stale.lower isHead itemOnHead linked)
      exact .of_extends stale.history.positive identified pushed stays itemOnHead
  · exact .of_unidentified identified

theorem of_same (history : History protocol other) (objects : other.objects = db.objects)
    (fork : other.fork = db.fork) : Stale protocol other := by
  have id : other.headBlockId = db.headBlockId := congrArg Objects.headBlockId objects
  have num : other.headBlockNum = db.headBlockNum := congrArg Objects.headBlockNumber objects
  refine ⟨⟨history, fork ▸ stale.fork⟩, fork ▸ stale.room, ?_, ?_, ?_⟩
  · rw [fork, id]
    exact stale.head
  · rw [fork, num]
    exact stale.low
  · rw [fork, id]
    exact stale.linked

end Stale

theorem pushBlock_follows (sound : Sound protocol [] { settled with pendingTx := [] })
    (isSettled : settled.Settled) (awaits : Awaits settled db)
    (follows : Follows protocol { settled with pendingTx := [] } block) :
    ((pushBlock protocol block).Returns db ↔ (settled.objects.acceptBlock protocol block).isSome) ∧
      ((pushBlock protocol block).after db).clearPending.objects =
        (settled.objects.acceptBlock protocol block).getD settled.objects := by
  constructor
  · unfold Throwing.Returns
    rw [pushBlock_eq protocol isSettled awaits]
    exact follows.returns
  · obtain ⟨_, after, history, objects, _⟩ :=
      ForkHead.pushBlock_awaits isSettled awaits (sound.pushed block).history
    rw [after.clearPending history.toSettled]
    exact objects.trans follows.objects

theorem InSync.sized (inSync : InSync protocol trail db)
    (harmless : Harmless protocol db block) (room : 0 < db.fork.maxSize) :
    0 < ((Database.pushBlockOnHead protocol block).after db).fork.maxSize := by
  unfold Throwing.after
  by_cases identified : protocol.digests.Identified block
  · cases linked : db.fork.link block with
    | error fault =>
      rw [pushBlockOnHead_refused identified linked]
      exact room
    | ok prev =>
      cases harmless with
      | unidentified bad => exact absurd identified bad
      | refused refused => cases refused.symm.trans linked
      | lower isHead lower =>
        obtain ⟨_, ran, same, _⟩ := inSync.lower identified linked isHead lower
        rw [ran]
        exact same ▸ room
      | applies onHead applied =>
        obtain ⟨_, applied⟩ := Option.isSome_iff_exists.mp applied
        obtain ⟨_, _, ran, sized, _⟩ := inSync.applies identified onHead applied
        rw [ran]
        exact sized
  · rw [pushBlockOnHead_unidentified identified]
    exact room

end Database

namespace ForkHead

variable {protocol : Protocol Hash Rest Tx Byte σ} {db : Database Hash Rest Tx Byte σ}

variable (reached : Reachable protocol db)
include reached

theorem reachable_sized : 0 < db.fork.maxSize := by
  induction reached with
  | initialized initialized =>
    cases initialized with
    | opened _ _ _ fork =>
      rw [fork]
      exact Nat.succ_pos _
    | started _ _ _ _ fork =>
      rw [fork]
      exact Nat.succ_pos _
  | @pushBlock db reached newBlock harmless induction =>
    obtain ⟨_, _, awaits, inSync⟩ := reachable_inSync reached
    have isSettled := inSync.history.toSettled
    rw [awaits.clearPending isSettled] at harmless
    rw [awaits.fork_eq] at induction
    have cleared := inSync.cleared
    obtain ⟨_, after, _, _, fork⟩ := pushBlock_awaits isSettled awaits
      (cleared.sound.pushed newBlock).history
    rw [after.fork_eq, fork]
    exact cleared.sized harmless induction

theorem reachable_settled : ∃ settled trail, settled.Settled ∧ Database.Awaits settled db ∧
      Database.InSync protocol trail { settled with pendingTx := [] } ∧
      db.clearPending.objects = settled.objects ∧
      db.headBlockId = settled.headBlockId ∧ db.fork = settled.fork := by
  obtain ⟨settled, trail, awaits, inSync⟩ := reachable_inSync reached
  have isSettled := inSync.history.toSettled
  refine ⟨settled, trail, isSettled, awaits, inSync.cleared, ?_, ?_, awaits.fork_eq⟩
  · rw [awaits.clearPending isSettled]
    rfl
  · unfold Database.headBlockId
    rw [awaits.sameChain]

/-- A block for the head block that cannot be applied is rejected; only the
tree and the histories may have changed. -/
theorem pushBlock_rejects (rooted : db.fork.head = none → db.headBlockId = default)
    (identified : protocol.digests.Identified rejected)
    (onHead : rejected.previous = db.headBlockId)
    (throws : db.clearPending.objects.applyBlock protocol rejected = none) :
    (Database.pushBlock protocol rejected).Throws db ∧ ∃ next, next.Settled ∧
        Database.Awaits next ((Database.pushBlock protocol rejected).after db) ∧
        next.objects = db.clearPending.objects ∧
        Database.Stale protocol { next with pendingTx := [] } := by
  have room := reachable_sized reached
  obtain ⟨settled, _, isSettled, awaits, inSync, clears, sameId,
    sameFork⟩ := reachable_settled reached
  rw [clears] at throws ⊢
  rw [sameId] at rooted onHead
  rw [sameFork] at rooted room
  have follows := inSync.follows (.inl onHead)
  have rejects : settled.objects.acceptBlock protocol rejected = none :=
    (if_pos identified).trans throws
  constructor
  · have returns := (Database.pushBlock_follows inSync.sound isSettled awaits follows).1
    rw [rejects] at returns
    cases ran : (Database.pushBlock protocol rejected db).1 with
    | error fault => exact ⟨fault, ran⟩
    | ok switched => cases returns.mp ⟨switched, ran⟩
  · have stale := inSync.rejects room rooted identified onHead throws
    obtain ⟨next, nextAwaits, history, objects, fork⟩ :=
      pushBlock_awaits isSettled awaits stale.history
    refine ⟨next, history.toSettled, nextAwaits, ?_,
      stale.of_same (history.of_undo rfl rfl) objects fork⟩
    have same := follows.objects
    change _ = (settled.objects.acceptBlock protocol rejected).getD settled.objects at same
    rw [rejects] at same
    exact objects.trans same

end ForkHead

instance {protocol : Protocol Hash Rest Tx Byte σ}
    (fork : ForkDatabase Hash Rest Tx) (block : SignedBlock Hash Rest Tx) :
    Decidable (Database.Admits protocol fork block) :=
  match linked : fork.link block with
  | .ok prev =>
      decidable_of_iff (block.blockId = protocol.digests.makeId block.toSignedBlockHeader)
        ⟨fun identified => ⟨identified, prev, linked⟩, And.left⟩
  | .error fault => isFalse fun ⟨_, prev, admitted⟩ => by
      cases linked.symm.trans admitted

namespace ElectingProtocol

variable {Key ρ : Type}

/-- Pushes a block that is applied, if any, in no company: a fork switch would
apply other blocks as well, each with the members the one before it left. -/
def push (chain : ElectingProtocol Hash Rest Tx Byte Key ρ) (block : SignedBlock Hash Rest Tx) :
    Throwing Fault (ElectingNode Hash Rest Tx Byte Key ρ) Bool :=
  fun node =>
    let protocol := chain.protocol node.members
    let pushed := Database.pushBlock protocol block node.db
    let members :=
      if Database.Admits protocol node.db.fork block then
        chain.membersAfter block node.members node.db.clearPending.objects
      else node.members
    (pushed.1, ⟨pushed.2, members⟩)

variable {chain : ElectingProtocol Hash Rest Tx Byte Key ρ}

omit [Inhabited Hash] in
theorem membersAfter_offHead (offHead : objects.headBlockId ≠ block.previous) (members : Members) :
    chain.membersAfter block members objects = members := by
  unfold membersAfter
  cases before : objects.beforeMaintenance chain.toProtocol block with
  | none => rfl
  | some reached =>
    exact absurd (Objects.beforeMaintenance_onHead before) offHead

/-- A block for the head block whose application throws, but not in the
middle of the maintenance, makes no difference to the next block for the head
block, nor to one that may not enter the tree. -/
theorem rejected_block_leaves_nothing (reached : ForkHead.Reachable (chain.protocol .cleared) db)
    (rooted : db.fork.head = none → db.headBlockId = default)
    {rejected other : SignedBlock Hash Rest Tx}
    (identified : chain.digests.Identified rejected)
    (onHead : rejected.previous = db.headBlockId)
    (throws : db.clearPending.objects.applyBlock (chain.protocol .cleared) rejected = none)
    (completed : chain.interrupts rejected db.clearPending.objects = false)
    (next : other.previous = db.headBlockId ∨
      ¬ Database.Admits (chain.protocol .cleared) db.fork other) :
    let before : ElectingNode Hash Rest Tx Byte Key ρ := ⟨db, .cleared⟩
    let after := (chain.push rejected).after before
    (chain.push rejected).Throws before ∧ after.members = before.members ∧
      after.db.clearPending.objects = before.db.clearPending.objects ∧
      ((chain.push other).Returns after ↔ (chain.push other).Returns before) ∧
      ((chain.push other).after after).members = ((chain.push other).after before).members ∧
      ((chain.push other).after after).db.clearPending.objects =
        ((chain.push other).after before).db.clearPending.objects := by
  intro before after
  obtain ⟨rejects, _, isSettled, nextAwaits, same, stale⟩ :=
    ForkHead.pushBlock_rejects reached rooted identified onHead throws
  obtain ⟨settled, _, wasSettled, awaits, inSync, objects, sameId,
    sameFork⟩ := ForkHead.reachable_settled reached
  rw [sameId, sameFork] at next
  have isAfter : after = ⟨(Database.pushBlock (chain.protocol .cleared) rejected).after db,
        .cleared⟩ := by
    unfold after push Throwing.after before
    dsimp only
    rw [membersAfter_cleared completed, ite_self]
  obtain ⟨beforeReturns, beforeObjects⟩ := Database.pushBlock_follows
    inSync.sound wasSettled awaits (inSync.follows next)
  obtain ⟨afterReturns, afterObjects⟩ := Database.pushBlock_follows
    stale.toSound isSettled nextAwaits (stale.follows other)
  rw [same, objects] at afterReturns afterObjects
  have afterSame : ((Database.pushBlock (chain.protocol .cleared)
      rejected).after db).clearPending.objects = settled.objects := by
    rw [nextAwaits.clearPending isSettled]
    exact same.trans objects
  rw [isAfter]
  refine ⟨rejects, rfl, afterSame.trans objects.symm, afterReturns.trans beforeReturns.symm, ?_,
    afterObjects.trans beforeObjects.symm⟩
  unfold push Throwing.after before at *
  dsimp only
  rw [afterSame, objects]
  by_cases otherOnHead : other.previous = settled.headBlockId
  · apply if_congr _ rfl rfl
    rw [nextAwaits.fork_eq, sameFork]
    exact (stale.admits_iff (otherOnHead.trans
      (congrArg Objects.headBlockId (same.trans objects)).symm)).trans
      (inSync.admits_iff otherOnHead).symm
  · rw [membersAfter_offHead (Ne.symm otherOnHead), ite_self, ite_self]

/-- A protocol in which a transaction sets the pay of a worker who destroys
reserves of five, and a block whose workers are paid three cannot be ended. -/
def reserving : ElectingProtocol (SymbolicHash Nat Nat) Nat Nat
    (SignedBlock (SymbolicHash Nat Nat) Nat Nat) Unit Nat where
  digests := .symbolic
  packing := .whole
  headerValid _ _ := true
  sharesFee _ := false
  evaluate _ objects tx :=
    { sessions := []
      outcome := some { objects.others with rest := tx }
      invoked := false }
  timely _ _ := true
  maintain objects _ :=
    { sessions := []
      outcome :=
        if objects.others.rest = 3 then none
        else some
          { others := objects.others
            activeWitnesses := objects.activeWitnesses
            transactions := objects.transactions } }
  agreedTasks _ := []
  timestamp := id
  updateTopNAuthorities objects := some objects.others
  updateParameters objects := objects.others
  processBids objects := some objects.others
  processBudget _ _ objects := if objects.others.rest ≤ 5 then some objects.others else none

/-- Three witnesses, of whom two are elected. -/
def twoOfThree : Electorate Unit Nat where
  witnesses := [⟨0, 10, 0, 30, true⟩, ⟨1, 11, 1, 20, true⟩, ⟨2, 12, 2, 10, true⟩]
  committeeMembers := []
  witnessNumberOfElection := 2
  committeeNumberOfElection := 2
  witnessAccount := ⟨1, [], []⟩
  committeeAccount := ⟨1, [], []⟩
  relaxedCommitteeAccount := ⟨1, [], []⟩
  activeCommitteeMembers := []
  unsuccessfulCandidates := []
  nextMaintenanceTime := 100
  maintenanceInterval := 100
  rest := 0

/-- A block that cannot be ended has completed its maintenance. -/
theorem rejected_block_leaves_nothing_after_maintenance :
    let rejected := Digests.symbolic.assemble default 0 100 [3]
    let other := Digests.symbolic.assemble default 1 100 []
    let node : ElectingNode (SymbolicHash Nat Nat) Nat Nat
        (SignedBlock (SymbolicHash Nat Nat) Nat Nat) Unit Nat :=
      ⟨.initial (.genesis [0, 1] twoOfThree), .cleared⟩
    (reserving.push rejected).Throws node ∧ (reserving.push other).Returns
        ((reserving.push rejected).after node) := by
  intro rejected other node
  have opened : ForkHead.Reachable (reserving.protocol .cleared) node.db :=
    .initialized (.opened ⟨rfl, rfl, by decide⟩ rfl (Objects.genesis_sound _ _ _) rfl)
  have unchanged := rejected_block_leaves_nothing opened (fun _ => rfl)
    (rfl : reserving.digests.Identified rejected) rfl
    (Option.isNone_iff_eq_none.mp (by decide +kernel)) (by decide +kernel)
    (.inl rfl : other.previous = _ ∨ _)
  exact ⟨unchanged.1, unchanged.2.2.2.1.mpr (by decide +kernel)⟩

/-- A block whose workers cannot be paid leaves the candidates it collected.
The next election counts them twice, and elects one witness fewer. -/
theorem interrupted_block_changes_election :
    let interrupted := Digests.symbolic.assemble default 0 100 [7]
    let other := Digests.symbolic.assemble default 1 100 []
    let node : ElectingNode (SymbolicHash Nat Nat) Nat Nat
        (SignedBlock (SymbolicHash Nat Nat) Nat Nat) Unit Nat :=
      ⟨.initial (.genesis [0, 1] twoOfThree), .cleared⟩
    let after := (reserving.push interrupted).after node
    (reserving.push interrupted).Throws node ∧ after.members.witnessRefs = [0, 1, 2] ∧
      ((reserving.push other).after node).db.objects.activeWitnesses = [0, 1] ∧
      ((reserving.push other).after after).db.objects.activeWitnesses = [0] := by
  decide +kernel

end ElectingProtocol

end CocosChain.Chain

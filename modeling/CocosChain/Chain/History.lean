import CocosChain.Chain.BlockPushing
import CocosChain.Chain.ForkLinks

/-!
# Object states and their history

An object state is that of a chain of blocks: its head is the newest of them,
and neither the last irreversible block nor any confirmed block is above it.
While no transactions are pending the undo history consists of the states that
were left behind block by block, so each saved state leads to the next newer
one by applying a block.  Applying and popping blocks keep this.
-/

namespace CocosChain.Chain

open ForkDatabase

variable {Hash Rest Tx Byte σ : Type} [DecidableEq Hash] [Inhabited Hash]

namespace Objects

structure Sound (digests : Digests Hash Rest Tx) (objects : Objects Hash Rest Tx σ) : Prop where
  chained : Chained digests objects.mainChain
  tip : objects.headBlockId = tipId objects.mainChain
  number : objects.headBlockNumber = objects.mainChain.length
  irreversible : objects.lastIrreversibleBlockNum ≤ objects.headBlockNumber
  confirmed : ∀ witness,
    objects.lastConfirmedBlockNum witness ≤ objects.headBlockNumber

/-- What a block that has been applied tells about the states around it. -/
structure Extends (block : SignedBlock Hash Rest Tx)
    (older newer : Objects Hash Rest Tx σ) : Prop where
  previous : older.headBlockId = block.previous
  chain : newer.mainChain = block :: older.mainChain
  headId : newer.headBlockId = block.blockId
  headNumber : newer.headBlockNumber = block.blockNum
  confirmed : newer.lastConfirmedBlockNum =
    Function.update older.lastConfirmedBlockNum block.witness block.blockNum
  advances : newer.lastIrreversibleBlockNum = older.lastIrreversibleBlockNum ∨
    older.lastIrreversibleBlockNum < newer.lastIrreversibleBlockNum ∧
      ∃ witness, newer.lastIrreversibleBlockNum = newer.lastConfirmedBlockNum witness

omit [DecidableEq Hash] [Inhabited Hash] in
theorem updateLastIrreversibleBlock_cases (objects : Objects Hash Rest Tx σ) :
    objects.updateLastIrreversibleBlock = objects ∨
      ∃ witness, objects.lastIrreversibleBlockNum < objects.lastConfirmedBlockNum witness ∧
        objects.updateLastIrreversibleBlock =
          { objects with
            lastIrreversibleBlockNum :=
              objects.lastConfirmedBlockNum witness } := by
  unfold updateLastIrreversibleBlock
  dsimp only
  split
  · exact .inl rfl
  · rename_i number found
    split
    · rename_i higher
      have member := List.mem_of_getElem? found
      rw [List.mem_insertionSort, List.mem_map] at member
      obtain ⟨witness, _, rfl⟩ := member
      exact .inr ⟨witness, higher, rfl⟩
    · exact .inl rfl

/-- What a block that is applied does, whichever of its checks are skipped. -/
structure Follows (block : SignedBlock Hash Rest Tx)
    (older newer : Objects Hash Rest Tx σ) : Prop where
  previous : older.headBlockId = block.previous
  updated : ∃ objects kept, SameChain older objects ∧
    newer = ((objects.advanceHead block).updateSigningWitness
      block).updateLastIrreversibleBlock.keep kept

variable {protocol : Protocol Hash Rest Tx Byte σ} {block : SignedBlock Hash Rest Tx}
variable {newer : Objects Hash Rest Tx σ}

omit [DecidableEq Hash] [Inhabited Hash] in
theorem Follows.extended (follows : Follows block older newer) : Extends block older newer := by
  obtain ⟨previous, objects, _, same, rfl⟩ := follows
  rw [same]
  rcases updateLastIrreversibleBlock_cases
      ((objects.advanceHead block).updateSigningWitness block) with
    stays | ⟨witness, higher, moved⟩
  · rw [same] at stays
    rw [stays]
    exact ⟨previous, rfl, rfl, rfl, rfl, .inl rfl⟩
  · rw [same] at moved higher
    rw [moved]
    exact ⟨previous, rfl, rfl, rfl, rfl, .inr ⟨higher, witness, rfl⟩⟩

section

omit [Inhabited Hash]

theorem applyBlock_follows (applied : older.applyBlock protocol block = some newer) :
    Follows block older newer := by
  unfold applyBlock at applied
  split at applied
  · cases applied
  · split at applied
    · cases applied
    · rename_i onHead
      split at applied
      · cases applied
      · split at applied
        · cases applied
        · rename_i objects transactions
          unfold finishBlock at applied
          dsimp only at applied
          split at applied
          · cases applied
          · obtain ⟨kept, _, rfl⟩ := Option.map_eq_some_iff.mp applied
            exact ⟨not_not.mp onHead, objects, kept,
              applyTransactions_sameChain protocol transactions, rfl⟩

theorem applyBlock_extends (applied : older.applyBlock protocol block = some newer) :
    Extends block older newer :=
  (applyBlock_follows applied).extended

end

omit [DecidableEq Hash] in
theorem genesis_sound (digests : Digests Hash Rest Tx)
    (activeWitnesses : List WitnessId) (others : σ) :
    (genesis activeWitnesses others : Objects Hash Rest Tx σ).Sound digests where
  chained := trivial
  tip := rfl
  number := rfl
  irreversible := le_rfl
  confirmed _ := le_rfl

variable {objects : Objects Hash Rest Tx σ}

omit [DecidableEq Hash]

theorem Sound.headId_number (sound : objects.Sound digests) :
    objects.headBlockId.number = objects.headBlockNumber := by
  rw [sound.tip, sound.chained.tipId_number, sound.number]

theorem Sound.blockNum_of_previous (sound : objects.Sound digests)
    (previous : objects.headBlockId = block.previous) :
    block.blockNum = objects.headBlockNumber + 1 := by
  unfold SignedBlockHeader.blockNum
  rw [← previous, sound.headId_number]

theorem Sound.tip_ne (sound : objects.Sound digests) (positive : 0 < count)
    (within : count ≤ objects.mainChain.length) :
    objects.headBlockId ≠ tipId (objects.mainChain.drop count) := by
  intro same
  have number := sound.headId_number
  have dropped := (sound.chained.of_suffix (List.drop_suffix count _)).tipId_number
  rw [same, dropped, List.length_drop, sound.number] at number
  omega

theorem Extends.sound (ext : Extends block older newer) (sound : older.Sound digests)
    (identified : digests.Identified block) : newer.Sound digests := by
  have number := sound.blockNum_of_previous ext.previous
  have confirmed (witness : WitnessId) :
      newer.lastConfirmedBlockNum witness ≤ newer.headBlockNumber := by
    rw [ext.confirmed, ext.headNumber, number]
    by_cases signer : witness = block.witness
    · rw [signer, Function.update_self]
    · rw [Function.update_of_ne signer]
      exact (sound.confirmed witness).trans (Nat.le_succ _)
  refine ⟨?_, ?_, ?_, ?_, confirmed⟩
  · rw [ext.chain]
    refine ⟨?_, identified, sound.chained⟩
    rw [← ext.previous, sound.tip]
  · rw [ext.headId, ext.chain]
    rfl
  · rw [ext.headNumber, ext.chain, number, sound.number, List.length_cons]
  · rcases ext.advances with same | ⟨_, witness, reached⟩
    · rw [same, ext.headNumber, number]
      exact sound.irreversible.trans (Nat.le_succ _)
    · rw [reached]
      exact confirmed witness

end Objects

namespace Database

variable (protocol : Protocol Hash Rest Tx Byte σ)

/-- One state leads to the next by applying a block. -/
def Replays (older newer : Objects Hash Rest Tx σ) : Prop :=
  ∃ block, protocol.digests.Identified block ∧ older.applyBlock protocol block = some newer

theorem Replays.number (replays : Replays protocol older newer)
    (sound : older.Sound protocol.digests) : newer.headBlockNumber = older.headBlockNumber + 1 := by
  obtain ⟨_, _, applied⟩ := replays
  have ext := Objects.applyBlock_extends applied
  rw [ext.headNumber, sound.blockNum_of_previous ext.previous]

/-- The undo history while no transactions are pending. -/
structure History (db : Database Hash Rest Tx Byte σ) : Prop extends
    db.Settled where
  sound : db.undo.Forall (Objects.Sound protocol.digests)
  replays : SnapshotStack.Linked (Replays protocol) db.undo.current
    db.undo.saved

namespace History

variable {protocol} {db : Database Hash Rest Tx Byte σ}

theorem initial (activeWitnesses : List WitnessId) (others : σ) : History protocol (Database.initial
      (.genesis activeWitnesses others) : Database Hash Rest Tx Byte σ) where
  quiet := rfl
  idle := rfl
  room := Nat.le_of_ble_eq_true rfl
  sound := ⟨Objects.genesis_sound _ _ _, nofun⟩
  replays := trivial

section

variable (history : History protocol db)
include history

theorem of_undo (undo : other.undo = db.undo)
    (quiet : other.pendingTxSession = db.pendingTxSession) : History protocol other where
  quiet := quiet.trans history.quiet
  idle := undo ▸ history.idle
  room := undo ▸ history.room
  sound := undo ▸ history.sound
  replays := undo ▸ history.replays

theorem objects_sound : db.objects.Sound protocol.digests :=
  history.sound.1

theorem trim (kept : Nat) : History protocol (db.moved db.objects kept) where
  quiet := history.quiet
  idle := history.idle
  room := history.room
  sound := by
    refine ⟨history.sound.1, ?_⟩
    intro state member
    exact history.sound.2 state (List.mem_of_mem_take member)
  replays := history.replays.take kept

theorem resize (room : 2 ≤ size) : History protocol (db.setHistorySize size) where
  quiet := history.quiet
  idle := history.idle
  room := room
  sound := history.sound
  replays := history.replays

end

variable {undo : SnapshotStack (Objects Hash Rest Tx σ)}

theorem sizeAfter_room (history : History protocol db)
    (previous : db.objects.headBlockId = block.previous) : 2 ≤ sizeAfter block db.objects := by
  unfold sizeAfter
  rw [history.objects_sound.blockNum_of_previous previous]
  have bounded := history.objects_sound.irreversible
  omega

theorem extended (history : History protocol db) (identified : protocol.digests.Identified block)
    (applied : db.objects.applyBlock protocol block = some next) (id : BlockId Hash) (kept : Nat) :
    History protocol (Database.extended protocol id block next kept db) where
  quiet := history.quiet
  idle := history.idle
  room := history.sizeAfter_room (Objects.applyBlock_extends applied).previous
  sound := by
    refine ⟨(Objects.applyBlock_extends applied).sound history.objects_sound identified, ?_⟩
    intro state member
    rcases List.mem_cons.mp member with rfl | older
    · exact history.sound.1
    · exact history.sound.2 state (List.mem_of_mem_take older)
  replays := ⟨⟨block, identified, applied⟩, history.replays.take kept⟩

theorem reverted (history : History protocol db)
    (reverted : Reverted block db kept after) : History protocol after := by
  cases reverted with
  | early => exact history.trim kept
  | late onHead =>
    exact (history.resize (history.sizeAfter_room onHead)).trim kept

theorem applyAndStore (identified : protocol.digests.Identified block) (id : BlockId Hash) :
    Throwing.Keeps (History protocol) (applyAndStore protocol id block) := by
  intro db history
  apply applyAndStore_after protocol history.positive id
  · intro next kept applied _
    exact history.extended identified applied id kept
  · intro kept after reverted _
    exact history.reverted reverted

theorem popCommit (history : History protocol db) (restored : db.undo.popCommit = some undo) :
    History protocol { db with undo := undo } := by
  rw [SnapshotStack.popCommit_of_idle history.idle] at restored
  split at restored
  · cases restored
  · rename_i top below saved
    cases restored
    have linked := history.replays
    rw [saved] at linked
    refine ⟨⟨history.quiet, history.idle, history.room⟩, ⟨?_, ?_⟩, linked.2⟩
    · apply history.sound.2
      rw [saved]
      exact List.mem_cons_self
    · intro state member
      apply history.sound.2
      rw [saved]
      exact List.mem_cons_of_mem top member

theorem popCommit_replays (history : History protocol db)
    (restored : db.undo.popCommit = some undo) : Replays protocol undo.current db.objects := by
  have linked := history.replays
  rw [SnapshotStack.popCommit_saved restored] at linked
  exact linked.1

/-- As many blocks can be undone as there are snapshots. -/
theorem popCommits_succeeds (history : History protocol db)
    (enough : count ≤ db.undo.saved.length) : ∃ undo, db.undo.popCommits count = some undo ∧
      undo.current.headBlockNumber + count = db.headBlockNum := by
  induction count generalizing db with
  | zero => exact ⟨db.undo, rfl, rfl⟩
  | succ count induction =>
    cases restored : db.undo.popCommit with
    | none =>
      rw [SnapshotStack.popCommit_of_idle history.idle] at restored
      split at restored
      · rename_i empty
        rw [empty] at enough
        cases enough
      · cases restored
    | some next =>
      rw [SnapshotStack.popCommit_saved restored] at enough
      have older := history.popCommit restored
      obtain ⟨undo, popped, head⟩ := induction older (Nat.le_of_succ_le_succ enough)
      have number := (history.popCommit_replays restored).number protocol older.objects_sound
      refine ⟨undo, ?_, ?_⟩
      · rw [SnapshotStack.popCommits, restored]
        exact popped
      · change undo.current.headBlockNumber + (count + 1) = db.objects.headBlockNumber
        rw [number, ← Nat.add_assoc, head]
        rfl

theorem popBlock (pinned : List (ForkItem Hash Rest Tx)) :
    Throwing.Keeps (History protocol) (popBlock protocol pinned) := by
  intro db history
  apply popBlock_after protocol history.quiet history
  · intro fork _
    exact history.of_undo rfl rfl
  · intro fork undo poppedTx _ restored
    exact (history.popCommit restored).of_undo rfl rfl

end History

/-- The database while no transactions are pending and `pinned` is held. -/
structure Sound (pinned : List (ForkItem Hash Rest Tx))
    (db : Database Hash Rest Tx Byte σ) : Prop where
  history : History protocol db
  fork : db.fork.Sound protocol.digests pinned

namespace Sound

variable {protocol} {pinned : List (ForkItem Hash Rest Tx)}

theorem initial (activeWitnesses : List WitnessId) (others : σ) :
    Sound protocol [] (Database.initial
      (.genesis activeWitnesses others) : Database Hash Rest Tx Byte σ) where
  history := .initial activeWitnesses others
  fork := ⟨⟨nofun, nofun, nofun, nofun, nofun⟩, List.nodup_nil⟩

theorem popBlock : Throwing.Keeps (Sound protocol pinned) (popBlock protocol pinned) := by
  intro db sound
  apply popBlock_after protocol sound.history.quiet sound
  · intro fork moved
    exact ⟨sound.history.of_undo rfl rfl, sound.fork.popBlock moved⟩
  · intro fork undo poppedTx moved restored
    exact ⟨(sound.history.popCommit restored).of_undo rfl rfl, sound.fork.popBlock moved⟩

theorem applyAndStore (identified : protocol.digests.Identified block) (id : BlockId Hash) :
    Throwing.Keeps (Sound protocol pinned) (applyAndStore protocol id block) := by
  intro db sound
  apply applyAndStore_after protocol sound.history.positive id
  · intro next kept applied _
    exact ⟨sound.history.extended identified applied id kept, sound.fork.setMaxSize _⟩
  · intro kept after reverted _
    refine ⟨sound.history.reverted reverted, ?_⟩
    cases reverted with
    | early => exact sound.fork
    | late => exact sound.fork.setMaxSize _

variable {db : Database Hash Rest Tx Byte σ}

section

variable (sound : Sound protocol pinned db)
include sound

theorem trim (kept : Nat) : Sound protocol pinned (db.moved db.objects kept) :=
  ⟨sound.history.trim kept, sound.fork⟩

theorem setPendingTx (pendingTx : List Tx) :
    Sound protocol pinned { db with pendingTx := pendingTx } :=
  ⟨sound.history.of_undo rfl rfl, sound.fork⟩

theorem setPoppedTx (poppedTx : List Tx) : Sound protocol pinned { db with poppedTx := poppedTx } :=
  ⟨sound.history.of_undo rfl rfl, sound.fork⟩

theorem unpin : Sound protocol [] db :=
  ⟨sound.history, sound.fork.unpin⟩

end

theorem fetched (sound : Sound protocol [] db)
    (fetched : db.fork.fetchBranchFrom first second = .ok (firsts, seconds)) :
    Sound protocol (firsts ++ seconds) db := by
  obtain ⟨_, _, firstFound, secondFound, branches⟩ :=
    fetchBranchFrom_eq_ok fetched
  refine ⟨sound.history, sound.fork.pin (List.append_subset.mpr ⟨?_, ?_⟩)⟩
  · apply branches.firstBranch.alive
    intro item tip
    rw [branches.firstTip] at tip
    cases tip
    exact mem_owned_of_index (fetchBlock_eq_some firstFound).2
  · apply branches.secondBranch.alive
    intro item tip
    rw [branches.secondTip] at tip
    cases tip
    exact mem_owned_of_index (fetchBlock_eq_some secondFound).2

theorem identified (sound : Sound protocol pinned db) (held : item ∈ pinned) :
    protocol.digests.Identified item.data :=
  sound.fork.items.identified item (List.mem_append_right _ held)

theorem edit (sound : Sound protocol (firsts ++ seconds) db)
    (failed : List (ForkItem Hash Rest Tx)) :
    Sound protocol (firsts ++ seconds) { db with
      fork := (db.fork.removeAll failed).setHead seconds.head? } := by
  refine ⟨sound.history.of_undo rfl rfl, (sound.fork.removeAll failed).setHead ?_⟩
  intro item tip
  apply List.mem_append_right
  apply List.mem_append_right
  exact List.mem_of_mem_head? tip

end Sound

/-- The property is one of the undo history and of the highest irreversible
block.  It is kept where a block is undone, applied or fails to apply. -/
structure HistoryClosed (Q : Database Hash Rest Tx Byte σ → Prop) : Prop where
  of_undo : ∀ {db other}, Q db → other.undo = db.undo →
    other.irreversiblePeak = db.irreversiblePeak → Q other
  popCommit : ∀ {db undo}, Q db → History protocol db → db.undo.popCommit = some undo →
    Q { db with undo }
  extended : ∀ {db block next kept}, Q db → History protocol db →
    db.objects.applyBlock protocol block = some next → ∀ id, spared block db ≤ kept + 1 →
    Q (extended protocol id block next kept db)
  reverted : ∀ {db block kept after}, Q db → History protocol db →
    Reverted block db kept after → spared block db ≤ kept + 1 → Q after

namespace HistoryClosed

variable {protocol} {Q : Database Hash Rest Tx Byte σ → Prop} {db : Database Hash Rest Tx Byte σ}
variable (closed : HistoryClosed protocol Q)
include closed

theorem popBlock (pinned : List (ForkItem Hash Rest Tx)) (history : History protocol db)
    (holds : Q db) : Q ((Database.popBlock protocol pinned).after db) := by
  apply popBlock_after protocol history.quiet holds
  · intro fork _
    exact closed.of_undo holds rfl rfl
  · intro fork undo poppedTx _ restored
    exact closed.of_undo (closed.popCommit holds history restored) rfl rfl

theorem applyAndStore (history : History protocol db) (holds : Q db) (id : BlockId Hash)
    (block : SignedBlock Hash Rest Tx) :
    Q ((Database.applyAndStore protocol id block).after db) := by
  apply applyAndStore_after protocol history.positive id
  · intro next kept applied enough
    exact closed.extended holds history applied id enough
  · intro kept after reverted enough
    exact closed.reverted holds history reverted enough

variable (sound : Sound protocol [] db) (holds : Q db)
include sound holds

theorem switchFork : Sound protocol [] ((switchFork protocol newBlock newHead).after db) ∧
      Q ((Database.switchFork protocol newBlock newHead).after db) := by
  cases fetched : db.fork.fetchBranchFrom newHead.id db.headBlockId with
  | error fault =>
    unfold Database.switchFork Throwing.after
    rw [Throwing.get_bind, fetched]
    exact ⟨sound, holds⟩
  | ok branches =>
    obtain ⟨firsts, seconds⟩ := branches
    have pinned := sound.fetched fetched
    have kept : Sound protocol (firsts ++ seconds)
          ((Database.switchFork protocol newBlock newHead).after db) ∧
        Q ((Database.switchFork protocol newBlock newHead).after db) := by
      apply switchFork_keeps (P := fun reached =>
        Sound protocol (firsts ++ seconds) reached ∧ Q reached)
        protocol _ _ fetched _ ⟨pinned, holds⟩
      · intro reached both
        exact ⟨Sound.popBlock reached both.1, closed.popBlock _ both.1.history both.2⟩
      · intro failed reached both
        exact ⟨both.1.edit failed, closed.of_undo both.2 rfl rfl⟩
      · intro id item held reached both
        exact ⟨Sound.applyAndStore (pinned.identified held) id reached both.1,
          closed.applyAndStore both.1.history both.2 id item.data⟩
    exact ⟨kept.1.unpin, kept.2⟩

theorem extendHead (identified : protocol.digests.Identified newBlock) :
    Sound protocol [] ((extendHead protocol newBlock).after db) ∧
      Q ((Database.extendHead protocol newBlock).after db) := by
  have kept : Throwing.Keeps (fun reached => Sound protocol [] reached ∧ Q reached)
      (Database.extendHead protocol newBlock) := by
    apply Throwing.Keeps.bind
    · apply Throwing.Keeps.handle
      · intro reached both
        exact ⟨Sound.applyAndStore identified _ reached both.1,
          closed.applyAndStore both.1.history both.2 _ newBlock⟩
      · intro fault
        apply Throwing.Keeps.bind
        · apply Throwing.Keeps.modify
          intro reached both
          exact ⟨⟨both.1.history.of_undo rfl rfl,
            both.1.fork.remove newBlock.blockId⟩, closed.of_undo both.2 rfl rfl⟩
        · intro _
          exact Throwing.Keeps.throw fault
    · intro _
      exact Throwing.Keeps.pure false
  exact kept db ⟨sound, holds⟩

theorem pushBlockOnHead (newBlock : SignedBlock Hash Rest Tx) :
    Sound protocol [] ((pushBlockOnHead protocol newBlock).after db) ∧
      Q ((Database.pushBlockOnHead protocol newBlock).after db) := by
  apply pushBlockOnHead_after (P := fun reached => Sound protocol [] reached ∧ Q reached)
    protocol ⟨sound, holds⟩
  intro fork identified pushed
  have remembered : Sound protocol [] { db with fork } :=
    ⟨sound.history.of_undo rfl rfl, sound.fork.pushBlock identified pushed⟩
  have still : Q { db with fork } := closed.of_undo holds rfl rfl
  exact ⟨⟨remembered, still⟩, closed.extendHead remembered still identified,
    fun _ => closed.switchFork remembered still⟩

end HistoryClosed

end Database

end CocosChain.Chain

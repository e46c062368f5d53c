import CocosChain.Chain.BlockApplication

/-!
# Pushing a block, step by step

Pushing a block pops and applies blocks and edits the tree of recent blocks.
An invariant that survives each of these steps survives the whole push, whether
or not it throws.
-/

namespace CocosChain.Chain

open Throwing

namespace Database

variable {Hash Rest Tx Byte σ : Type} [DecidableEq Hash] (protocol : Protocol Hash Rest Tx Byte σ)

variable {fork : ForkDatabase Hash Rest Tx}

section Ends

variable {P : Database Hash Rest Tx Byte σ → Prop} {db : Database Hash Rest Tx Byte σ}

/-- What holds however popping a block ends, while no transactions are
pending. -/
theorem popBlock_after (quiet : db.pendingTxSession = false) (refused : P db)
    (unable : ∀ fork, db.fork.popBlock pinned = .ok fork → P { db with fork })
    (popped : ∀ fork undo poppedTx, db.fork.popBlock pinned = .ok fork →
      db.undo.popCommit = some undo → P { db with undo, fork, poppedTx }) :
    P ((popBlock protocol pinned).after db) := by
  have reset : db.resetPendingSession = db := by
    unfold resetPendingSession
    rw [quiet]
    rfl
  unfold Throwing.after popBlock
  rw [modify_bind, reset, get_bind]
  cases db.fetchBlockById protocol db.headBlockId with
  | none => exact refused
  | some block =>
    cases moved : db.fork.popBlock pinned with
    | error fault => exact refused
    | ok fork =>
      cases restored : db.undo.popCommit with
      | none => exact unable fork moved
      | some undo => exact popped fork undo _ moved restored

variable [Inhabited Hash]

theorem applyAndStore_after (room : 0 < db.undo.maxSize) (id : BlockId Hash)
    (stored : ∀ next kept, db.objects.applyBlock protocol block = some next →
      spared block db ≤ kept + 1 → P (extended protocol id block next kept db))
    (failed : ∀ kept after, Reverted block db kept after → spared block db ≤ kept + 1 → P after) :
    P ((applyAndStore protocol id block).after db) := by
  unfold Throwing.after
  cases applied : db.objects.applyBlock protocol block with
  | some next =>
    obtain ⟨kept, enough, ran⟩ := applyAndStore_returns protocol room id applied
    rw [ran]
    exact stored next kept applied enough
  | none =>
    obtain ⟨_, kept, after, enough, reverted, ran⟩ := applyAndStore_throws protocol room id applied
    rw [ran]
    exact failed kept after reverted enough

end Ends

section Rules

theorem popTo_keeps (pop : Throwing.Keeps P (popBlock protocol pinned)) :
    Throwing.Keeps P (popTo protocol pinned target) := by
  apply Throwing.Keeps.get
  intro db holds
  apply Throwing.Keeps.repeatWhile _ _ _ db holds
  intro reached reachedHolds _
  exact pop reached reachedHolds

variable [Inhabited Hash]

variable {P : Database Hash Rest Tx Byte σ → Prop} {newBlock : SignedBlock Hash Rest Tx}
  {firsts seconds : List (ForkItem Hash Rest Tx)}
  (pop : Throwing.Keeps P (popBlock protocol (firsts ++ seconds)))
  (edit : ∀ failed db, P db → P { db with
    fork := (db.fork.removeAll failed).setHead seconds.head? })
include pop edit

section

variable (restored : ∀ item ∈ seconds,
    Throwing.Keeps P (applyAndStore protocol newBlock.blockId item.data))
include restored

theorem recover_keeps (failed : List (ForkItem Hash Rest Tx)) (fault : Fault) :
    Throwing.Keeps P (recover protocol newBlock firsts seconds failed fault) := by
  apply Throwing.Keeps.bind (Throwing.Keeps.modify (edit failed))
  intro _
  apply Throwing.Keeps.bind (popTo_keeps protocol pop)
  intro _
  apply Throwing.Keeps.bind
  · apply Throwing.Keeps.forEach
    intro item member
    exact restored item (List.mem_reverse.mp member)
  · intro _
    exact Throwing.Keeps.throw fault

theorem applyBranch_keeps
    (applied : ∀ item ∈ remaining, Throwing.Keeps P (applyAndStore protocol item.id item.data)) :
    Throwing.Keeps P (applyBranch protocol newBlock firsts seconds remaining) := by
  induction remaining with
  | nil => exact Throwing.Keeps.pure true
  | cons item rest induction =>
    apply Throwing.Keeps.bind
    · apply Throwing.Keeps.attempt
      exact applied item List.mem_cons_self
    · intro except
      cases except with
      | error fault =>
        exact recover_keeps protocol pop edit restored (item :: rest) fault
      | ok _ =>
        apply induction
        intro later member
        exact applied later (List.mem_cons_of_mem item member)

end

theorem switchFork_keeps
    (fetched : db.fork.fetchBranchFrom newHead.id db.headBlockId = .ok (firsts, seconds))
    (applied : ∀ id, ∀ item ∈ firsts ++ seconds,
      Throwing.Keeps P (applyAndStore protocol id item.data))
    (holds : P db) : P ((switchFork protocol newBlock newHead).after db) := by
  unfold switchFork Throwing.after
  rw [get_bind, fetched]
  have kept : Throwing.Keeps P (do
      popTo protocol (firsts ++ seconds) (ForkDatabase.forkPoint seconds)
      applyBranch protocol newBlock firsts seconds firsts.reverse) := by
    apply Throwing.Keeps.bind (popTo_keeps protocol pop)
    intro _
    apply applyBranch_keeps protocol pop edit
    · intro item member
      exact applied newBlock.blockId item (List.mem_append_right _ member)
    · intro item member
      exact applied item.id item (List.mem_append_left _ (List.mem_reverse.mp member))
  exact kept db holds

end Rules

variable [Inhabited Hash]

theorem pushBlock_head (pushed : fork.pushBlock block = .ok next) :
    ∃ head, next.head = some head := by
  unfold ForkDatabase.pushBlock at pushed
  split at pushed
  · cases pushed
  · cases pushed
    unfold ForkDatabase.advance
    split
    · exact ⟨_, rfl⟩
    · rename_i head known
      split
      · exact ⟨_, rfl⟩
      · exact ⟨head, known⟩

/-- Pushing the block makes the database switch from the branch `seconds` to
the branch `firsts`. -/
structure Switches (db : Database Hash Rest Tx Byte σ) (newBlock : SignedBlock Hash Rest Tx)
    (fork : ForkDatabase Hash Rest Tx) (newHead : ForkItem Hash Rest Tx)
    (firsts seconds : List (ForkItem Hash Rest Tx)) : Prop where
  identified : protocol.digests.Identified newBlock
  pushed : db.fork.pushBlock newBlock = .ok fork
  head : fork.head = some newHead
  offHead : newHead.data.previous ≠ db.headBlockId
  higher : db.headBlockNum < newHead.num
  fetched : fork.fetchBranchFrom newHead.id db.headBlockId = .ok (firsts, seconds)

theorem pushBlockOnHead_pushed
    (identified : protocol.digests.Identified newBlock)
    (pushed : db.fork.pushBlock newBlock = .ok fork) (head : fork.head = some newHead) :
    pushBlockOnHead protocol newBlock db = if newHead.data.previous ≠ db.headBlockId then
        if db.headBlockNum < newHead.num then
          switchFork protocol newBlock newHead { db with fork := fork }
        else (.ok false, { db with fork := fork })
      else extendHead protocol newBlock { db with fork := fork } := by
  unfold pushBlockOnHead
  rw [get_bind, if_neg (c := _ ≠ _) (not_not.mpr identified), pushed]
  dsimp only
  rw [modify_bind, head]
  dsimp only
  split_ifs <;> rfl

theorem pushBlockOnHead_after {P : Database Hash Rest Tx Byte σ → Prop} (holds : P db)
    (pushed : ∀ fork, protocol.digests.Identified newBlock → db.fork.pushBlock newBlock = .ok fork →
      P { db with fork } ∧ P ((extendHead protocol newBlock).after { db with fork }) ∧
        ∀ newHead, P ((switchFork protocol newBlock newHead).after { db with fork })) :
    P ((pushBlockOnHead protocol newBlock).after db) := by
  unfold Throwing.after
  by_cases identified : protocol.digests.Identified newBlock
  · cases remembered : db.fork.pushBlock newBlock with
    | error fault =>
      unfold pushBlockOnHead
      rw [get_bind, if_neg (c := _ ≠ _) (not_not.mpr identified), remembered]
      exact holds
    | ok fork =>
      obtain ⟨newHead, head⟩ := pushBlock_head remembered
      obtain ⟨kept, extended, switched⟩ := pushed fork identified remembered
      rw [pushBlockOnHead_pushed protocol identified remembered head]
      split_ifs
      · exact switched newHead
      · exact kept
      · exact extended
  · unfold pushBlockOnHead
    rw [get_bind, if_pos (c := _ ≠ _) identified]
    exact holds

theorem pushBlockOnHead_switches
    (switches : Switches protocol db newBlock fork newHead firsts seconds) :
    pushBlockOnHead protocol newBlock db = (do
        popTo protocol (firsts ++ seconds) (ForkDatabase.forkPoint seconds)
        applyBranch protocol newBlock firsts seconds firsts.reverse)
        { db with fork := fork } := by
  obtain ⟨identified, pushed, head, offHead, higher, fetched⟩ := switches
  rw [pushBlockOnHead_pushed protocol identified pushed head, if_pos offHead, if_pos higher]
  unfold switchFork
  rw [get_bind]
  have found : ({ db with fork := fork } :
      Database Hash Rest Tx Byte σ).fork.fetchBranchFrom newHead.id
        ({ db with fork := fork } : Database Hash Rest Tx Byte σ).headBlockId =
      .ok (firsts, seconds) := fetched
  rw [found]

end Database

end CocosChain.Chain

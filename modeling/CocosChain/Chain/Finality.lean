import CocosChain.Chain.ForkHead

/-!
# Finality

Nothing compares where a fork switch leaves the chain with the last irreversible
block.  What is to keep irreversible blocks is that the undo history has been
cut off above them.  The bound of the history is taken before the last
irreversible block is updated, and one more, so the history may still reach
below it, and then a fork switch may too.  What the history does not reach stays
for good, whatever is pushed.
-/

namespace CocosChain.Chain

variable {Hash Rest Tx Byte σ : Type} [DecidableEq Hash] [Inhabited Hash]
variable {protocol : Protocol Hash Rest Tx Byte σ}

namespace Database

/-- The blocks are the oldest ones of the chain, and the history does not reach
them. -/
structure Buried (base : List (SignedBlock Hash Rest Tx))
    (db : Database Hash Rest Tx Byte σ) : Prop where
  suffix : base <:+ db.objects.mainChain
  deep : base.length + db.undo.saved.length ≤ db.objects.mainChain.length

variable {db : Database Hash Rest Tx Byte σ} {base : List (SignedBlock Hash Rest Tx)}

namespace Buried

section

omit [DecidableEq Hash] [Inhabited Hash]

theorem of_undo (buried : Buried base db) (undo : other.undo = db.undo) : Buried base other := by
  obtain ⟨suffix, deep⟩ := buried
  constructor
  · unfold objects
    rw [undo]
    exact suffix
  · unfold objects
    rw [undo]
    exact deep

theorem trim (buried : Buried base db) (kept : Nat) : Buried base (db.trimmed kept) := by
  refine ⟨buried.suffix, le_trans ?_ buried.deep⟩
  exact Nat.add_le_add_left (List.length_take_le' _ _) _

theorem reverted (buried : Buried base db) (reverted : Reverted block db kept after) :
    Buried base after := by
  cases reverted with
  | early => exact buried.trim kept
  | late => exact ⟨buried.suffix, (buried.trim kept).deep⟩

end

/-- A block is popped together with the snapshot below it. -/
theorem popCommit (history : History protocol db) (buried : Buried base db)
    (restored : db.undo.popCommit = some next) : Buried base { db with undo := next } := by
  obtain ⟨_, _, replayed⟩ := history.popCommit_replays restored
  have chain := (Objects.applyBlock_extends replayed).chain
  obtain ⟨suffix, deep⟩ := buried
  rw [SnapshotStack.popCommit_saved restored, chain, List.length_cons, List.length_cons] at deep
  rw [chain] at suffix
  have shorter : base.length + next.saved.length ≤ next.current.mainChain.length := by omega
  refine ⟨?_, shorter⟩
  rcases List.suffix_cons_iff.mp suffix with rfl | within
  · rw [List.length_cons] at shorter
    omega
  · exact within

theorem extended (buried : Buried base db)
    (applied : db.objects.applyBlock protocol block = some next) (id : BlockId Hash) (kept : Nat) :
    Buried base (Database.extended protocol id block next kept db) := by
  have chain := (Objects.applyBlock_extends applied).chain
  obtain ⟨suffix, deep⟩ := buried.trim kept
  constructor
  · change base <:+ next.mainChain
    rw [chain]
    exact suffix.trans (List.suffix_cons _ _)
  · change _ + (List.length (_ :: db.undo.saved.take kept)) ≤ next.mainChain.length
    rw [chain]
    exact Nat.succ_le_succ deep

theorem historyClosed : HistoryClosed protocol (Buried base) where
  of_undo buried undo _ := buried.of_undo undo
  popCommit buried history restored := popCommit history buried restored
  extended buried _ applied id _ := buried.extended applied id _
  reverted buried _ reverted _ := buried.reverted reverted

end Buried

end Database

namespace Finality

variable {db : Database Hash Rest Tx Byte σ} {base : List (SignedBlock Hash Rest Tx)}

/-- The blocks are buried in the state without the pending transactions. -/
def Holds (protocol : Protocol Hash Rest Tx Byte σ) (base : List (SignedBlock Hash Rest Tx))
    (db : Database Hash Rest Tx Byte σ) : Prop :=
  ∃ settled, Database.Awaits settled db ∧ Database.Sound protocol [] settled ∧
    Database.Buried base settled

theorem step_keeps (holds : Holds protocol base db) (newBlock : SignedBlock Hash Rest Tx) :
    Holds protocol base ((Database.pushBlock protocol newBlock).after db) := by
  obtain ⟨settled, awaits, sound, buried⟩ := holds
  obtain ⟨pushed, pushedBuried⟩ := Database.Buried.historyClosed.pushBlockOnHead
    (sound.setPendingTx []) (buried.of_undo rfl) newBlock
  have room := pushed.history.room
  obtain ⟨kept, _, reached⟩ := pushed.history.toSettled.restorePending
    protocol db.pendingTx (Nat.le_of_succ_le room) (.inl room)
  refine ⟨_, ?_, (pushed.trim kept).setPoppedTx [], (pushedBuried.trim kept).of_undo rfl⟩
  change Database.Awaits _ (Database.pushBlock protocol newBlock db).2
  rw [Database.pushBlock_eq protocol sound.history.toSettled awaits]
  exact reached

theorem run_keeps (holds : Holds protocol base db) (blocks : List (SignedBlock Hash Rest Tx)) :
    Holds protocol base (ForkHead.pushBlocks protocol blocks db) := by
  induction blocks generalizing db with
  | nil => exact holds
  | cons block _ induction => exact induction (step_keeps holds block)

theorem holds_nil (initialized : Database.Initialized protocol db) : Holds protocol [] db := by
  obtain ⟨_, inSync⟩ := Database.InSync.of_initialized initialized
  refine ⟨db, .refl db, ⟨inSync.history, inSync.fork.unpin⟩, List.nil_suffix, ?_⟩
  cases initialized with
  | opened _ saved =>
    rw [saved]
    exact Nat.zero_le _
  | started _ saved =>
    rw [saved]
    exact Nat.zero_le _

theorem Holds.blockAt (holds : Holds protocol base db) (low : number ≤ base.length) :
    Chain.blockAt db.objects.mainChain number = Chain.blockAt base number := by
  obtain ⟨settled, awaits, _, buried⟩ := holds
  rw [awaits.sameChain]
  exact blockAt_of_suffix buried.suffix low

end Finality

end CocosChain.Chain

import CocosChain.Chain.TransactionApplication

/-!
# Applying the transactions of a block

`_apply_block` checks the header, applies the transactions with the results
that the producer has recorded, moves the head and does the upkeep at the end
of a block.  Of the upkeep, the removal of expired transactions is spelt out;
the rest of it is a parameter that sees neither the skip flags nor the index of
transactions.
-/

namespace CocosChain.Chain

open SkipFlags

structure ProcessedBlock (Key Hash : Type) where
  blockId : BlockId Hash
  previous : BlockId Hash
  timestamp : Nat
  witness : WitnessId
  transactions : List (ProcessedTransaction Key)

def ProcessedBlock.blockNum {Key Hash : Type} (block : ProcessedBlock Key Hash) : Nat :=
  block.previous.number + 1

structure BlockEnvironment (Key Hash Id ρ : Type) extends
    Environment Key Hash Id ρ where
  headerHash : ProcessedBlock Key Hash → Hash
  /-- The root in the header is that of the transactions. -/
  merkleValid : ProcessedBlock Key Hash → Bool
  witnessExists : World Key ρ → ProcessedBlock Key Hash → Bool
  signeeValid : World Key ρ → ProcessedBlock Key Hash → Bool
  /-- The witness is scheduled for the slot, counted from the head time. -/
  witnessScheduled : Nat → World Key ρ → ProcessedBlock Key Hash → Bool
  undoHistoryFits : World Key ρ → ProcessedBlock Key Hash → Bool
  upkeep : ProcessedBlock Key Hash → World Key ρ → Option (World Key ρ)
  summaryPrefix : BlockId Hash → UInt32

inductive BlockFault (Key : Type) where
  | merkleMismatch
  | previousMismatch
  | timestampNotLater
  | unknownWitness
  | badSignee
  | wrongWitness
  | noResults
  | transaction (fault : TransactionFault Key)
  | undoHistoryFull
  | upkeepFailed

variable {Key Hash Id ρ : Type}

/-- Expired transactions come first in the index, so that removing from its
front removes all of them. -/
def clearExpiredTransactions (headBlockTime : Nat)
    (transactions : List (TransactionObject Key Hash Id)) : List (TransactionObject Key Hash Id) :=
  transactions.filter fun object => headBlockTime ≤ object.trx.expiration

namespace BlockEnvironment

variable [LinearOrder Key] [DecidableEq Hash] [DecidableEq Id]
variable (env : BlockEnvironment Key Hash Id ρ)

def validateBlockHeader (skip : SkipFlags) (block : ProcessedBlock Key Hash)
    (state : ChainState Key Hash Id ρ) : Except (BlockFault Key) Unit := do
  ensure (state.headBlockId = block.previous) .previousMismatch
  ensure (state.headBlockTime < block.timestamp) .timestampNotLater
  ensure (env.witnessExists state.world block) .unknownWitness
  ensure (skip.skips skipWitnessSignature ||
    env.signeeValid state.world block) .badSignee
  ensure (skip.skips skipWitnessScheduleCheck ||
    env.witnessScheduled state.headBlockTime state.world block) .wrongWitness

/-- The loop over the transactions.  Authority is not checked again. -/
def applyTransactions (skip : SkipFlags) (blockNum : Nat) :
    Nat → List (ProcessedTransaction Key) → ChainState Key Hash Id ρ →
      Except (BlockFault Key) (ChainState Key Hash Id ρ)
  | _, [], state => .ok state
  | trxInBlock, trx :: trxs, state => do
      ensure (0 < trx.operationResults.length) .noResults
      let applied ← (env.applyTransaction
        (skip ||| skipAuthorityCheck) .applyBlock false
        ⟨blockNum, trxInBlock⟩ trx state).mapError .transaction
      applyTransactions skip blockNum (trxInBlock + 1) trxs applied.state

def finishBlock (skip : SkipFlags) (block : ProcessedBlock Key Hash)
    (state : ChainState Key Hash Id ρ) : Except (BlockFault Key) (ChainState Key Hash Id ρ) := do
  ensure (skip.skips skipUndoHistoryCheck ||
    env.undoHistoryFits state.world block) .undoHistoryFull
  let world ← found (env.upkeep block state.world) .upkeepFailed
  pure
    { state with
      headBlockNum := block.blockNum
      headBlockId := block.blockId
      headBlockTime := block.timestamp
      blockSummaries := Function.update state.blockSummaries
        (UInt16.ofNat block.blockNum) (env.summaryPrefix block.blockId)
      transactions := clearExpiredTransactions block.timestamp state.transactions
      world := world }

def applyBlock (skip : SkipFlags) (block : ProcessedBlock Key Hash)
    (state : ChainState Key Hash Id ρ) : Except (BlockFault Key) (ChainState Key Hash Id ρ) := do
  ensure (skip.skips skipMerkleCheck || env.merkleValid block) .merkleMismatch
  env.validateBlockHeader skip block state
  let state ← env.applyTransactions skip block.blockNum 0 block.transactions state
  env.finishBlock skip block state

def applyBlocks (skip : SkipFlags) : List (ProcessedBlock Key Hash) → ChainState Key Hash Id ρ →
      Except (BlockFault Key) (ChainState Key Hash Id ρ)
  | [], state => .ok state
  | block :: blocks, state => do
      let state ← env.applyBlock skip block state
      applyBlocks skip blocks state

variable {env}
omit [LinearOrder Key] [DecidableEq Id] in
theorem validateBlockHeader_later (valid : env.validateBlockHeader skip block state = .ok ()) :
    state.headBlockTime < block.timestamp := by
  simp only [validateBlockHeader, bind_eq_ok, ensure_eq_ok, decide_eq_true_eq] at valid
  obtain ⟨_, _, _, later, _⟩ := valid
  exact later

theorem applyTransactions_cons_eq_ok :
    env.applyTransactions skip blockNum trxInBlock (trx :: trxs) state = .ok next ↔
      0 < trx.operationResults.length ∧ ∃ applied, env.applyTransaction
            (skip ||| skipAuthorityCheck) .applyBlock false
            ⟨blockNum, trxInBlock⟩ trx state = .ok applied ∧
          env.applyTransactions skip blockNum (trxInBlock + 1) trxs applied.state = .ok next := by
  simp only [applyTransactions, bind_eq_ok, mapError_eq_ok, ensure_eq_ok,
    decide_eq_true_eq, exists_and_left, exists_const]

omit [LinearOrder Key] [DecidableEq Hash] [DecidableEq Id] in
theorem finishBlock_eq_ok : env.finishBlock skip block state = .ok next ↔
      (skip.skips skipUndoHistoryCheck ||
          env.undoHistoryFits state.world block) = true ∧
        env.upkeep block state.world = some next.world ∧
        next = { state with
          headBlockNum := block.blockNum
          headBlockId := block.blockId
          headBlockTime := block.timestamp
          blockSummaries := Function.update state.blockSummaries
            (UInt16.ofNat block.blockNum) (env.summaryPrefix block.blockId)
          transactions := clearExpiredTransactions block.timestamp state.transactions
          world := next.world } := by
  simp only [finishBlock, bind_eq_ok, ensure_eq_ok, found_eq_ok, pure_eq_ok,
    exists_and_left, exists_const]
  constructor
  · rintro ⟨fits, world, kept, rfl⟩
    exact ⟨fits, kept, rfl⟩
  · rintro ⟨fits, kept, same⟩
    exact ⟨fits, next.world, kept, same.symm⟩

theorem applyBlock_eq_ok : env.applyBlock skip block state = .ok next ↔
      (skip.skips skipMerkleCheck || env.merkleValid block) = true ∧
        env.validateBlockHeader skip block state = .ok () ∧
        ∃ applied, env.applyTransactions skip block.blockNum 0
            block.transactions state = .ok applied ∧
          env.finishBlock skip block applied = .ok next := by
  simp only [applyBlock, bind_eq_ok, ensure_eq_ok, Unique.exists_iff]

theorem applyBlocks_cons_eq_ok : env.applyBlocks skip (block :: blocks) state = .ok next ↔
      ∃ middle, env.applyBlock skip block state = .ok middle ∧
        env.applyBlocks skip blocks middle = .ok next := by
  simp only [applyBlocks, bind_eq_ok]

theorem applyTransactions_head
    (accepted : env.applyTransactions skip blockNum trxInBlock trxs state = .ok next) :
    next.headBlockNum = state.headBlockNum ∧ next.headBlockTime = state.headBlockTime := by
  induction trxs generalizing trxInBlock state with
  | nil =>
    cases accepted
    exact ⟨rfl, rfl⟩
  | cons trx trxs induction =>
    obtain ⟨_, _, accepted, rest⟩ := applyTransactions_cons_eq_ok.mp accepted
    obtain ⟨_, _, admits, frame⟩ := Environment.applyTransaction_frame accepted
    obtain ⟨number, time⟩ := induction rest
    rw [number, time, frame, admits.written]
    exact ⟨rfl, rfl⟩

end BlockEnvironment

end CocosChain.Chain

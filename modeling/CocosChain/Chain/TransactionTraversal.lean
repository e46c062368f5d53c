import CocosChain.Chain.BlockExecution

/-!
# What transactions keep

The operations of a transaction are evaluated one after the other, some with a
withdrawal of GAS between them, and an operation of an agreed task that throws
leaves the objects as they were.  What every evaluation keeps is therefore kept
by the loop over the operations, and by a transaction if its authorization and
the settling of a timed task keep it as well.
-/

namespace CocosChain.Chain

variable {Key Hash Id ρ : Type}

/-- A failed `FC_ASSERT` -/
def assertionFault (message : String) : EvaluationFault := .exception 10 message 0

/-- Evaluating an operation that is allowed keeps the property, while the head
block has the given time.  Withdrawals are always allowed. -/
structure Preserves (evaluate : Evaluator Key ρ) (headBlockTime : Nat)
    (allowed : Operation Key → Prop) (property : World Key ρ → Prop) : Prop where
  withdrawal : ∀ vestingBalance owner amount,
    allowed (.vestingBalanceWithdraw vestingBalance owner amount)
  evaluates : ∀ {context op world result after},
    context.headBlockTime = headBlockTime → allowed op → property world →
      evaluate context op world = .ok (result, after) → property after

namespace Preserves

variable {evaluate : Evaluator Key ρ}
  {allowed : Operation Key → Prop} {property : World Key ρ → Prop}
  {context : EvaluationContext Key}

variable {loop : OperationLoop Key ρ}

variable (preserves : Preserves evaluate headBlockTime allowed property)
include preserves

variable (time : context.headBlockTime = headBlockTime)
include time

theorem applyOperation (may : allowed op) (holds : property world)
    (applied : Chain.applyOperation evaluate context op isAgreedTask world = .ok (result, after)) :
    property after := by
  unfold Chain.applyOperation at applied
  split at applied
  · rename_i evaluated accepted
    cases applied
    exact preserves.evaluates time may holds accepted
  · split at applied
    · cases applied
      exact holds
    · cases applied
  · cases applied

theorem autoGas (holds : property world) :
    property (Chain.autoGas evaluate context account world).2 := by
  unfold Chain.autoGas
  split
  · exact holds
  · dsimp only
    split
    · split
      · exact holds
      · rename_i result after applied
        have kept := preserves.applyOperation time (preserves.withdrawal _ _ _) holds applied
        split
        · exact kept
        · exact kept
    · exact holds

theorem gasUp (holds : property loop.world) :
    property (loop.gasUp evaluate context op result).world := by
  unfold OperationLoop.gasUp
  split
  · split
    · exact holds
    · rename_i account _
      split
      · exact holds
      · have later : EvaluationContext.headBlockTime
            { context with currentOp := loop.currentOp } = headBlockTime :=
          time
        have kept : property (Chain.autoGas evaluate _ account loop.world).2 :=
          preserves.autoGas later holds
        exact kept
  · exact holds

theorem step (may : allowed op) (holds : property loop.world)
    (stepped : loop.step evaluate context op = .ok next) : property next.world := by
  unfold OperationLoop.step at stepped
  split at stepped
  · cases stepped
  · rename_i result world applied
    simp only [bind_eq_ok, ensure_eq_ok, pure_eq_ok] at stepped
    obtain ⟨_, -, _, -, rfl⟩ := stepped
    apply preserves.gasUp time
    have kept : property world := preserves.applyOperation (by simpa using time) may holds applied
    exact kept

theorem run (may : ∀ op ∈ operations, allowed op) (holds : property loop.world)
    (finished : loop.run evaluate context operations = .ok final) : property final.world := by
  induction operations generalizing loop with
  | nil =>
    cases finished
    exact holds
  | cons op operations induction =>
    obtain ⟨_, stepped, rest⟩ := bind_eq_ok.mp finished
    refine induction (fun other member =>
      may other (List.mem_cons_of_mem _ member)) ?_ rest
    exact preserves.step time (may op List.mem_cons_self) holds stepped

end Preserves

namespace Environment

variable [LinearOrder Key] [DecidableEq Hash] [DecidableEq Id] {env : Environment Key Hash Id ρ}

theorem applyTransaction_parts
    (accepted : env.applyTransaction nodeSkip mode false position trx state = .ok applied) :
    ∃ authorization context loop, env.authorize (effectiveSkip nodeSkip trx.toTransaction)
          state.headBlockTime trx.toSignedTransaction state.world =
        .ok authorization ∧
      context.headBlockTime = state.headBlockTime ∧
      OperationLoop.run env.evaluate context trx.operations
          (.start mode authorization.world) = .ok loop ∧
      applied.state.headBlockTime = state.headBlockTime ∧
      applied.state.world = settleCrontab state.headBlockTime
        loop.resultContainsError authorization.crontab loop.world := by
  obtain ⟨authorization, admitted, admits, evaluated⟩ := applyTransaction_eq_ok.mp accepted
  obtain ⟨loop, finished, rfl⟩ := evaluateOperations_eq_ok.mp evaluated
  have world : admitted.world = authorization.world := by
    rw [admits.written]
  have time : admitted.headBlockTime = state.headBlockTime := by
    rw [admits.written]
  refine ⟨authorization, evaluationContext nodeSkip
    (effectiveSkip nodeSkip trx.toTransaction) mode trx authorization.sigkeys
    state, loop, admits.authorized, rfl, ?_, time, ?_⟩
  · rw [← world]
    exact finished
  · rw [← time]

end Environment

/-- How often the transactions execute the task. -/
def executions (task : AgreedTaskId) (trxs : List (ProcessedTransaction Key)) : Nat :=
  trxs.countP fun trx => trx.agreedTask = some task

variable {trxs : List (ProcessedTransaction Key)}

theorem executions_cons_other (other : trx.agreedTask ≠ some task) :
    executions task (trx :: trxs) = executions task trxs :=
  List.countP_cons_of_neg (by simpa using other)

theorem executions_cons_same (same : trx.agreedTask = some task) :
    executions task (trx :: trxs) = executions task trxs + 1 :=
  List.countP_cons_of_pos (by simpa using same)

theorem executions_append :
    executions task (trxs ++ others) = executions task trxs + executions task others :=
  List.countP_append

namespace BlockEnvironment

variable [LinearOrder Key] [DecidableEq Hash] [DecidableEq Id]
variable (env : BlockEnvironment Key Hash Id ρ) (skip : SkipFlags)
  (condition : ChainState Key Hash Id ρ → ProcessedTransaction Key → Bool)

/-- The transactions meet the condition in the states that they find. -/
def transactionsMeet (blockNum : Nat) : Nat →
    List (ProcessedTransaction Key) → ChainState Key Hash Id ρ → Bool
  | _, [], _ => true
  | trxInBlock, trx :: trxs, state => condition state trx &&
      match env.applyTransaction (skip ||| SkipFlags.skipAuthorityCheck)
          .applyBlock false ⟨blockNum, trxInBlock⟩ trx state with
      | .ok applied =>
          transactionsMeet blockNum (trxInBlock + 1) trxs applied.state
      | .error _ => true

/-- So do all transactions of a chain of blocks. -/
def blocksMeet : List (ProcessedBlock Key Hash) → ChainState Key Hash Id ρ → Bool
  | [], _ => true
  | block :: blocks, state =>
      env.transactionsMeet skip condition block.blockNum 0 block.transactions state &&
      match env.applyBlock skip block state with
      | .ok next => blocksMeet blocks next
      | .error _ => true

variable {env skip condition}

/-- Transactions that meet the condition and the ends of blocks keep what holds of
the transactions so far and the state. -/
structure Keeps (env : BlockEnvironment Key Hash Id ρ) (skip : SkipFlags)
    (condition : ChainState Key Hash Id ρ → ProcessedTransaction Key → Bool)
    (property : List (ProcessedTransaction Key) → ChainState Key Hash Id ρ → Prop) : Prop where
  transaction : ∀ {past state trx position applied}, property past state →
    condition state trx = true →
    env.applyTransaction (skip ||| SkipFlags.skipAuthorityCheck) .applyBlock false position
      trx state = .ok applied → property (past ++ [trx]) applied.state
  finish : ∀ {past state block next}, property past state →
    state.headBlockTime < block.timestamp → env.finishBlock skip block state = .ok next →
      property past next

namespace Keeps

variable {property : List (ProcessedTransaction Key) → ChainState Key Hash Id ρ → Prop}
  (keeps : env.Keeps skip condition property)
include keeps

theorem transactions (past : List (ProcessedTransaction Key)) (holds : property past state)
    (meet : env.transactionsMeet skip condition blockNum trxInBlock trxs state = true)
    (accepted : env.applyTransactions skip blockNum trxInBlock trxs state = .ok next) :
    property (past ++ trxs) next := by
  induction trxs generalizing past trxInBlock state with
  | nil =>
    cases accepted
    rwa [List.append_nil]
  | cons trx trxs induction =>
    obtain ⟨-, _, accepted, rest⟩ := applyTransactions_cons_eq_ok.mp accepted
    rw [transactionsMeet, accepted, Bool.and_eq_true] at meet
    have later := induction _ (keeps.transaction holds meet.1 accepted) meet.2 rest
    rwa [List.append_assoc] at later

theorem blocks {blocks : List (ProcessedBlock Key Hash)} (past : List (ProcessedTransaction Key))
    (holds : property past state) (meet : env.blocksMeet skip condition blocks state = true)
    (accepted : env.applyBlocks skip blocks state = .ok next) :
    property (past ++ blocks.flatMap ProcessedBlock.transactions) next := by
  induction blocks generalizing past state with
  | nil =>
    cases accepted
    rwa [List.flatMap_nil, List.append_nil]
  | cons block blocks induction =>
    obtain ⟨_, accepted, rest⟩ := applyBlocks_cons_eq_ok.mp accepted
    rw [blocksMeet, accepted, Bool.and_eq_true] at meet
    obtain ⟨-, valid, _, accepted, finished⟩ := applyBlock_eq_ok.mp accepted
    have time := validateBlockHeader_later valid
    rw [← (applyTransactions_head accepted).2] at time
    have ended := keeps.finish (keeps.transactions past holds meet.1 accepted) time finished
    have later := induction _ ended meet.2 rest
    rwa [List.append_assoc, ← List.flatMap_cons] at later

end Keeps

theorem transactionsMeet_true :
    env.transactionsMeet skip (fun _ _ => true) blockNum trxInBlock trxs state = true := by
  induction trxs generalizing trxInBlock state with
  | nil => rfl
  | cons trx trxs induction =>
    rw [transactionsMeet, Bool.true_and]
    split
    · exact induction
    · rfl

theorem blocksMeet_true : env.blocksMeet skip (fun _ _ => true) blocks state = true := by
  induction blocks generalizing state with
  | nil => rfl
  | cons block blocks induction =>
    rw [blocksMeet, transactionsMeet_true, Bool.true_and]
    split
    · exact induction
    · rfl

end BlockEnvironment

/-- A hash for blocks that are told apart by their numbers. -/
def blankHash : Transaction Nat := ⟨0, 0, 0, [], []⟩

/-- A chain in which transactions are their own hashes and operations do
nothing. -/
def blankChain (ρ : Type) : BlockEnvironment Nat (Transaction Nat) (Transaction Nat) ρ where
  digest trx := trx
  transactionId hash := hash
  packSize _ := 1
  opMaxsizeProportionPercent := none
  operationValidate _ := true
  getSignatureKeys _ := some []
  reread cells _ := cells
  evaluate _ _ world := .ok (⟨.void, 0⟩, world)
  headerHash _ := blankHash
  merkleValid _ := true
  witnessExists _ _ := true
  signeeValid _ _ := true
  witnessScheduled _ _ _ := true
  undoHistoryFits _ _ := true
  upkeep _ world := some world
  summaryPrefix _ := 0

def blankGenesis {ρ : Type} (headBlockTime : Nat) (others : ρ) :
    ChainState Nat (Transaction Nat) (Transaction Nat) ρ where
  headBlockNum := 0
  headBlockId := ⟨0, blankHash⟩
  headBlockTime := headBlockTime
  blockSummaries := fun _ => 0
  transactions := []
  transactionInfos := []
  world := .numbered others

def blankBlock (number timestamp : Nat) (transactions : List (ProcessedTransaction Nat)) :
    ProcessedBlock Nat (Transaction Nat) where
  blockId := ⟨number + 1, blankHash⟩
  previous := ⟨number, blankHash⟩
  timestamp := timestamp
  witness := 0
  transactions := transactions

/-- A transaction of one operation, which is recorded to have returned
nothing. -/
def blankTransaction (expiration : Nat) (op : Operation Nat) : ProcessedTransaction Nat where
  refBlockNum := 0
  refBlockPrefix := 0
  expiration := expiration
  operations := [op]
  extensions := []
  agreedTask := none
  signatures := []
  operationResults := [⟨.void, 0⟩]

/-- The agreed task that executes a transaction. -/
def blankTask (task : AgreedTaskId) (trx : Transaction Nat) : ProcessedTransaction Nat :=
  { toTransaction := trx
    agreedTask := some task
    signatures := []
    operationResults := [⟨.void, 0⟩] }

end CocosChain.Chain

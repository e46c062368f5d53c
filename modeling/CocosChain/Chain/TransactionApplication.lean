import CocosChain.Chain.Block
import CocosChain.Chain.Transaction
import CocosChain.Library.Checked

/-!
# Applying a transaction

`_apply_transaction` checks a transaction, records it and evaluates its
operations one after the other.  Which checks it makes depends on the skip
flags, which it first rewrites from the kind of the first operation.  What
evaluating an operation does is a parameter.

A transaction that is refused leaves nothing behind, since it is applied in an
undo session; so refusals carry no state.
-/

namespace CocosChain.Chain

open SkipFlags

inductive TransactionApplyMode where
  | push
  | productionBlock
  | applyBlock
  | validateTransaction
  | invoke
  | justTry
  deriving DecidableEq, Repr

namespace TransactionApplyMode

/-- Transactions of blocks, produced or applied. -/
def inBlock : TransactionApplyMode → Bool
  | productionBlock => true
  | applyBlock => true
  | _ => false

end TransactionApplyMode

structure ChainParameters where
  blockInterval : Nat
  maximumBlockSize : Nat
  maximumTimeUntilExpiration : Nat
  maxAuthorityDepth : Nat
  assignedTaskLifeCycle : Nat
  crontabSuspendThreshold : Nat
  crontabSuspendExpiration : Nat
  deriving DecidableEq, Repr

/-- The fields of a proposal that are read when it is executed. -/
structure ProposalTask (Key : Type) where
  proposedTransaction : Transaction Key
  expirationTime : Nat
  allowExecution : Bool

structure Crontab (Key : Type) where
  timedTransaction : Transaction Key
  lastExecteTime : Nat
  nextExecteTime : Nat
  executeInterval : Nat
  expirationTime : Nat
  scheduledExecuteTimes : Nat
  alreadyExecuteTimes : Nat
  continuousFailureTimes : Nat
  isSuspended : Bool
  allowExecution : Bool

structure VestingBalance where
  id : Nat
  owner : AccountId
  /-- `get_allowed_withdraw`, which depends on the balance's policy. -/
  allowedWithdraw : Nat → Asset

/-- The objects that operations may change. -/
structure World (Key ρ : Type) where
  parameters : ChainParameters
  accounts : AccountGraph Key
  proposals : Nat → Option (ProposalTask Key)
  crontabs : Nat → Option (Crontab Key)
  vestingBalances : AccountId → List VestingBalance
  others : ρ

namespace World

variable {Key ρ : Type}

def setProposal (instance_ : Nat) (proposal : ProposalTask Key)
    (world : World Key ρ) : World Key ρ :=
  { world with
    proposals := Function.update world.proposals instance_ (some proposal) }

def setCrontab (instance_ : Nat) (crontab : Crontab Key) (world : World Key ρ) : World Key ρ :=
  { world with
    crontabs := Function.update world.crontabs instance_ (some crontab) }

/-- A world in which each account has the key of its own number. -/
def numbered (others : ρ) : World Nat ρ where
  parameters :=
    { blockInterval := 3
      maximumBlockSize := 1000
      maximumTimeUntilExpiration := 60
      maxAuthorityDepth := 2
      assignedTaskLifeCycle := 0
      crontabSuspendThreshold := 3
      crontabSuspendExpiration := 0 }
  accounts :=
    { active := fun account => ⟨1, [], [(account, 1)]⟩
      owner := fun account => ⟨1, [], [(account, 1)]⟩
      temporaryActive := fun _ => [] }
  proposals := fun _ => none
  crontabs := fun _ => none
  vestingBalances := fun _ => []
  others := others

end World

structure TransactionObject (Key Hash Id : Type) where
  trxHash : Hash
  trxId : Id
  trx : SignedTransaction Key

structure TransactionInBlockInfo (Hash : Type) where
  trxHash : Hash
  blockNum : Nat
  trxInBlock : Nat

structure ChainState (Key Hash Id ρ : Type) where
  headBlockNum : Nat
  headBlockId : BlockId Hash
  headBlockTime : Nat
  /-- The second word of the identifiers in the block summaries. -/
  blockSummaries : UInt16 → UInt32
  transactions : List (TransactionObject Key Hash Id)
  transactionInfos : List (TransactionInBlockInfo Hash)
  world : World Key ρ

/-- What an evaluator knows of the transaction.  Evaluators look at the skip
flags only to see whether keys are to be checked. -/
structure EvaluationContext (Key : Type) where
  trx : ProcessedTransaction Key
  runMode : TransactionApplyMode
  isAgreedTask : Bool
  sigkeys : List Key
  checksContractKeys : Bool
  checksProposalKeys : Bool
  checksBalanceKeys : Bool
  headBlockNum : Nat
  headBlockTime : Nat
  currentOp : Nat

/-- What an evaluator may throw; only `fc::exception` is ever caught. -/
inductive EvaluationFault where
  | exception (code : Int) (message : String) (runningTime : Nat)
  | foreign
  deriving DecidableEq, Repr

abbrev Evaluator (Key ρ : Type) :=
  EvaluationContext Key → Operation Key → World Key ρ →
    Except EvaluationFault (OperationResult × World Key ρ)

structure Environment (Key Hash Id ρ : Type) where
  digest : Transaction Key → Hash
  transactionId : Hash → Id
  packSize : SignedTransaction Key → Nat
  /-- The option of the node. -/
  opMaxsizeProportionPercent : Option Nat
  /-- `operation_validate`, with the kinds that no transaction may hold. -/
  operationValidate : Operation Key → Bool
  /-- Refuses signatures from which no key, or one key twice, is recovered. -/
  getSignatureKeys : SignedTransaction Key → Option (List Key)
  reread : Reread Key
  evaluate : Evaluator Key ρ

inductive TransactionFault (Key : Type) where
  | tooLarge
  | invalid
  | duplicate
  | badSignatures
  | unauthorized (fault : AuthorityFault Key)
  | unknownTask
  | taskNotDue
  | unexpectedSystemTransaction
  | wrongReferenceBlock
  | expiresTooLate
  | expired
  | alreadyInBlock
  | operationFailed (fault : EvaluationFault)
  | tookTooLong
  | resultDiffers
  deriving Repr

variable {Key Hash Id ρ : Type}

def shareFlag : SkipFlags := skipTransactionSignatures ||| skipTaposCheck

/-- The flags that count for a transaction. -/
def effectiveSkip (skip : SkipFlags) (trx : Transaction Key) : SkipFlags :=
  if trx.sharesFee && skip != shareFlag then shareFlag else skip

namespace Environment

variable (env : Environment Key Hash Id ρ)

def trxId (trx : Transaction Key) : Id := env.transactionId (env.digest trx)

def maximumTransactionSize (parameters : ChainParameters) : Nat :=
  let percent :=
    match env.opMaxsizeProportionPercent with
    | some percent => if percent ≤ 100 then percent else 1
    | none => 1
  parameters.maximumBlockSize * percent / 100

def validate (trx : Transaction Key) : Bool :=
  0 < trx.operations.length && trx.operations.length ≤ 1000 &&
    trx.operations.all env.operationValidate

def isKnownTransaction [DecidableEq Id] (id : Id) (state : ChainState Key Hash Id ρ) : Bool :=
  state.transactions.any fun object => object.trxId = id

/-- The checks before anything is written. -/
def precheck [DecidableEq Id] (skip : SkipFlags)
    (trx : SignedTransaction Key) (state : ChainState Key Hash Id ρ) :
    Except (TransactionFault Key) Unit := do
  ensure (env.packSize trx < env.maximumTransactionSize state.world.parameters) .tooLarge
  ensure (skip.skips skipValidate ||
    env.validate trx.toTransaction) .invalid
  ensure (trx.sharesFee || skip.skips skipTransactionDupeCheck ||
    !isKnownTransaction (env.trxId trx.toTransaction) state) .duplicate

end Environment

/-- The keys recovered, the timed task that is executed, and the objects with
the task marked. -/
structure Authorization (Key ρ : Type) where
  sigkeys : List Key
  crontab : Option Nat
  world : World Key ρ

/-- `time_point_sec + uint32_t`; what is added is cut off to 32 bits as
well. -/
def secondsAfter (time seconds : Nat) : Nat := (time + seconds) % 2 ^ 32

/-- `scheduled_execute_times - already_execute_times`, in 64 bits. -/
def Crontab.remaining (crontab : Crontab Key) : Nat :=
  (crontab.scheduledExecuteTimes + (2 ^ 64 - crontab.alreadyExecuteTimes % 2 ^ 64)) % 2 ^ 64

/-- The marks that executing a timed task leaves on it. -/
def Crontab.executed (now : Nat) (parameters : ChainParameters)
    (crontab : Crontab Key) : Crontab Key :=
  { crontab with
    lastExecteTime := now
    nextExecteTime := secondsAfter now crontab.executeInterval
    expirationTime := secondsAfter now (crontab.remaining * crontab.executeInterval)
    alreadyExecuteTimes := (crontab.alreadyExecuteTimes + 1) % 2 ^ 64
    timedTransaction := { crontab.timedTransaction with
      expiration := secondsAfter (secondsAfter now crontab.executeInterval)
        (min parameters.assignedTaskLifeCycle 7200) } }

namespace Environment

variable [LinearOrder Key] [DecidableEq Hash] (env : Environment Key Hash Id ρ)

/-- `verify_authority` of a signed transaction. -/
def verifyAuthority (accounts : AccountGraph Key)
    (parameters : ChainParameters) (trx : SignedTransaction Key) :
    Except (TransactionFault Key) (List Key) :=
  match env.getSignatureKeys trx with
  | none => .error .badSignatures
  | some sigkeys =>
      match Chain.verifyAuthority (sharedChecker env.reread accounts) accounts.getOwner
          (Transaction.getRequiredAuthorities trx.operations) sigkeys
          parameters.maxAuthorityDepth false [] [] with
      | .ok () => .ok sigkeys
      | .error fault => .error (.unauthorized fault)

/-- Agreed tasks are checked whatever the flags are. -/
def authorize (skip : SkipFlags) (now : Nat) (trx : SignedTransaction Key) (world : World Key ρ) :
    Except (TransactionFault Key) (Authorization Key ρ) :=
  match trx.agreedTask with
  | some (.proposal instance_) => do
      let proposal ← found (world.proposals instance_) .unknownTask
      ensure (env.digest trx.toTransaction = env.digest proposal.proposedTransaction &&
        proposal.expirationTime ≤ now && proposal.allowExecution) .taskNotDue
      pure
        { sigkeys := []
          crontab := none
          world := world.setProposal instance_
            { proposal with allowExecution := false } }
  | some (.crontab instance_) => do
      let crontab ← found (world.crontabs instance_) .unknownTask
      ensure (env.digest trx.toTransaction = env.digest crontab.timedTransaction &&
        crontab.nextExecteTime ≤ now && crontab.allowExecution) .taskNotDue
      pure
        { sigkeys := []
          crontab := some instance_
          world := world.setCrontab instance_
            (crontab.executed now world.parameters) }
  | some .unexpected => .error .unexpectedSystemTransaction
  | none =>
      if skip.skips (skipTransactionSignatures |||
          skipAuthorityCheck) then
        pure { sigkeys := [], crontab := none, world := world }
      else do
        let sigkeys ← env.verifyAuthority world.accounts world.parameters trx
        pure { sigkeys := sigkeys, crontab := none, world := world }

end Environment

/-- The reference block and the expiration, from the first block on. -/
def checkTimes (skip : SkipFlags) (trx : SignedTransaction Key)
    (parameters : ChainParameters) (state : ChainState Key Hash Id ρ) :
    Except (TransactionFault Key) Unit :=
  if 0 < state.headBlockNum && !trx.agreedTask.isSome then do
    ensure (skip.skips skipTaposCheck ||
      trx.refBlockPrefix = state.blockSummaries trx.refBlockNum)
      .wrongReferenceBlock
    ensure (trx.expiration ≤ state.headBlockTime +
      parameters.maximumTimeUntilExpiration) .expiresTooLate
    ensure (state.headBlockTime ≤ trx.expiration) .expired
  else pure ()

/-- Where a transaction stands in its block. -/
structure BlockPosition where
  blockNum : Nat
  trxInBlock : Nat
  deriving DecidableEq, Repr

section Records

variable [DecidableEq Hash] [DecidableEq Id]

/-- Transactions of blocks are recorded for good, under unique hashes. -/
def recordInBlock (mode : TransactionApplyMode) (position : BlockPosition)
    (trxHash : Hash) (infos : List (TransactionInBlockInfo Hash)) :
    Except (TransactionFault Key) (List (TransactionInBlockInfo Hash)) :=
  if mode.inBlock then do
    ensure (!infos.any fun info => info.trxHash = trxHash) .alreadyInBlock
    pure (infos ++ [{ trxHash := trxHash
                      blockNum := position.blockNum
                      trxInBlock := position.trxInBlock }])
  else pure infos

/-- Creates a transaction object, unless its keys are taken: the exception is
caught. -/
def createTransactionObject (object : TransactionObject Key Hash Id)
    (transactions : List (TransactionObject Key Hash Id)) : List (TransactionObject Key Hash Id) :=
  if transactions.any fun other =>
      other.trxId = object.trxId || other.trxHash = object.trxHash then
    transactions
  else transactions ++ [object]

def recordTransaction (env : Environment Key Hash Id ρ) (skip : SkipFlags)
    (trx : SignedTransaction Key) (transactions : List (TransactionObject Key Hash Id)) :
    List (TransactionObject Key Hash Id) :=
  if !skip.skips skipTransactionDupeCheck || trx.sharesFee then
    createTransactionObject
      { trxHash := env.digest trx.toTransaction
        trxId := env.trxId trx.toTransaction
        trx := trx } transactions
  else transactions

end Records

/-- The session of one operation.  Exceptions of agreed tasks become results,
with the session undone. -/
def applyOperation (evaluate : Evaluator Key ρ)
    (context : EvaluationContext Key) (op : Operation Key)
    (isAgreedTask : Bool) (world : World Key ρ) :
    Except EvaluationFault (OperationResult × World Key ρ) :=
  match evaluate context op world with
  | .ok evaluated => .ok evaluated
  | .error (.exception code message runningTime) =>
      if isAgreedTask then
        .ok ({ content := .error code message
               realRunningTime := runningTime }, world)
      else .error (.exception code message runningTime)
  | .error .foreign => .error .foreign

/-- `AUTO_GAS_TIMEPOINT` -/
def autoGasTimepoint : Nat := 1585826672

/-- Withdraws the first vesting balance of an account, if it is in GAS and
large enough.  Nothing is thrown. -/
def autoGas (evaluate : Evaluator Key ρ) (context : EvaluationContext Key)
    (fromAccount : AccountId) (world : World Key ρ) : Option OperationResult × World Key ρ :=
  match world.vestingBalances fromAccount with
  | [] => (none, world)
  | balance :: _ =>
      let amount := balance.allowedWithdraw context.headBlockTime
      if amount.assetId = assetGas ∧ 100000 < amount.amount then
        match applyOperation evaluate context
            (.vestingBalanceWithdraw balance.id balance.owner amount) false
            world with
        | .error _ => (none, world)
        | .ok (result, world) =>
            if result.isError then (none, world) else (some result, world)
      else (none, world)

/-- The account that an operation makes `auto_gas` look at. -/
def autoGasFrom : Operation Key → OperationResult → Option AccountId
  | .callContractFunction caller _ _, result =>
      if result.contractResult.isSome then some caller else none
  | .transfer fromAccount _, result =>
      if result.isVoid then some fromAccount else none
  | _, _ => none

/-- The variables of the loop over the operations. -/
structure OperationLoop (Key ρ : Type) where
  world : World Key ρ
  operationResults : List OperationResult
  currentOp : Nat
  realRunTime : Nat
  runMode : TransactionApplyMode
  resultContainsError : Bool
  lastFrom : AccountId

namespace OperationLoop

variable (evaluate : Evaluator Key ρ) (context : EvaluationContext Key)

/-- After a result has been stored. -/
def store (result : OperationResult) (world : World Key ρ)
    (loop : OperationLoop Key ρ) : OperationLoop Key ρ :=
  { world := world
    operationResults := loop.operationResults ++ [result]
    currentOp := loop.currentOp + 1
    realRunTime := loop.realRunTime + result.realRunningTime
    runMode :=
      match result.contractResult with
      | some contract => if contract.existedPv then .invoke else loop.runMode
      | none => loop.runMode
    resultContainsError := loop.resultContainsError || result.isError
    lastFrom := loop.lastFrom }

/-- The `auto_gas` of one operation. -/
def gasUp (op : Operation Key) (result : OperationResult)
    (loop : OperationLoop Key ρ) : OperationLoop Key ρ :=
  if autoGasTimepoint < context.headBlockTime then
    match autoGasFrom op result with
    | none => loop
    | some fromAccount =>
        if loop.lastFrom = fromAccount then loop
        else
          let (gas, world) := autoGas evaluate
            { context with currentOp := loop.currentOp } fromAccount
            loop.world
          { loop with
            world := world
            operationResults := loop.operationResults ++ gas.toList
            lastFrom := fromAccount }
  else loop

/-- Blocks that are applied are not held to the time limit, and have the
results of agreed tasks compared. -/
def inTime (result : OperationResult) (world : World Key ρ) (loop : OperationLoop Key ρ) : Bool :=
  loop.runMode = .applyBlock ||
    loop.realRunTime + result.realRunningTime < world.parameters.blockInterval * 75000

def asRecorded (result : OperationResult) (loop : OperationLoop Key ρ) : Bool :=
  !(loop.runMode = .applyBlock && context.isAgreedTask) ||
    (context.trx.operationResults[loop.currentOp]?).any result.sameKind

def step (op : Operation Key) (loop : OperationLoop Key ρ) :
    Except (TransactionFault Key) (OperationLoop Key ρ) :=
  match applyOperation evaluate { context with currentOp := loop.currentOp } op
      context.isAgreedTask loop.world with
  | .error fault => .error (.operationFailed fault)
  | .ok (result, world) => do
      ensure (loop.inTime result world) .tookTooLong
      ensure (loop.asRecorded context result) .resultDiffers
      pure ((loop.store result world).gasUp evaluate context op result)

def run : List (Operation Key) → OperationLoop Key ρ →
    Except (TransactionFault Key) (OperationLoop Key ρ)
  | [], loop => .ok loop
  | op :: operations, loop => do
      let loop ← loop.step evaluate context op
      loop.run operations

/-- The variables before the first operation. -/
def start (mode : TransactionApplyMode) (world : World Key ρ) : OperationLoop Key ρ :=
  { world := world
    operationResults := []
    currentOp := 0
    realRunTime := 0
    runMode := mode
    resultContainsError := false
    lastFrom := 0 }

end OperationLoop

/-- `time_point_sec::maximum()` -/
def maximumTime : Nat := 2 ^ 32 - 1

/-- A timed task is suspended when it fails too often in a row. -/
def settleCrontab (now : Nat) (containsError : Bool) (crontab : Option Nat)
    (world : World Key ρ) : World Key ρ :=
  match crontab with
  | none => world
  | some instance_ =>
      match world.crontabs instance_ with
      | none => world
      | some task =>
          if task.scheduledExecuteTimes ≤ task.alreadyExecuteTimes then world
          else if containsError then
            let task := { task with
              continuousFailureTimes :=
                (task.continuousFailureTimes + 1) % 2 ^ 32 }
            world.setCrontab instance_ (if world.parameters.crontabSuspendThreshold =
                  task.continuousFailureTimes then
                { task with
                  nextExecteTime := maximumTime
                  isSuspended := true
                  expirationTime := secondsAfter now
                    world.parameters.crontabSuspendExpiration }
              else task)
          else if task.continuousFailureTimes ≠ 0 then
            world.setCrontab instance_ { task with continuousFailureTimes := 0 }
          else world

/-- What `_apply_transaction` returns, with the mode it leaves. -/
structure AppliedTransaction (Key Hash Id ρ : Type) where
  trx : ProcessedTransaction Key
  state : ChainState Key Hash Id ρ
  runMode : TransactionApplyMode

namespace Environment

variable [LinearOrder Key] [DecidableEq Hash] [DecidableEq Id] (env : Environment Key Hash Id ρ)

/-- What the evaluators are told.  `nodeSkip` are the flags of the node, which
are not rewritten. -/
def evaluationContext (nodeSkip skip : SkipFlags)
    (mode : TransactionApplyMode) (trx : ProcessedTransaction Key)
    (sigkeys : List Key) (state : ChainState Key Hash Id ρ) : EvaluationContext Key where
  trx := trx
  runMode := mode
  isAgreedTask := trx.agreedTask.isSome
  sigkeys := sigkeys
  checksContractKeys := !skip.skips (skipTransactionSignatures |||
    skipAuthorityCheck)
  checksProposalKeys := !nodeSkip.skips skipAuthorityCheck
  checksBalanceKeys := !nodeSkip.skips (skipAuthorityCheck |||
    skipTransactionSignatures)
  headBlockNum := state.headBlockNum
  headBlockTime := state.headBlockTime
  currentOp := 0

/-- The part of `_apply_transaction` that writes the records. -/
def admission (skip : SkipFlags) (mode : TransactionApplyMode)
    (position : BlockPosition) (trx : SignedTransaction Key) (state : ChainState Key Hash Id ρ) :
    Except (TransactionFault Key) (Authorization Key ρ × ChainState Key Hash Id ρ) := do
  env.precheck skip trx state
  let authorization ← env.authorize skip state.headBlockTime trx state.world
  checkTimes skip trx state.world.parameters state
  let infos ← recordInBlock mode position (env.digest trx.toTransaction) state.transactionInfos
  pure (authorization,
    { state with
      world := authorization.world
      transactionInfos := infos
      transactions := recordTransaction env skip trx state.transactions })

/-- The part that evaluates the operations. -/
def evaluateOperations (context : EvaluationContext Key)
    (crontab : Option Nat) (state : ChainState Key Hash Id ρ) :
    Except (TransactionFault Key) (AppliedTransaction Key Hash Id ρ) := do
  let loop ← OperationLoop.run env.evaluate context context.trx.operations
    (.start context.runMode state.world)
  pure
    { trx := { context.trx with operationResults := loop.operationResults }
      state := { state with
        world := settleCrontab state.headBlockTime loop.resultContainsError
          crontab loop.world }
      runMode := loop.runMode }

def applyTransaction (nodeSkip : SkipFlags) (mode : TransactionApplyMode)
    (onlyTryPermissions : Bool) (position : BlockPosition)
    (trx : ProcessedTransaction Key) (state : ChainState Key Hash Id ρ) :
    Except (TransactionFault Key) (AppliedTransaction Key Hash Id ρ) := do
  let skip := effectiveSkip nodeSkip trx.toTransaction
  let (authorization, admitted) ← env.admission skip mode position trx.toSignedTransaction state
  if onlyTryPermissions then
    pure
      { trx := { trx with operationResults := [] }
        state := admitted
        runMode := mode }
  else
    env.evaluateOperations
      (evaluationContext nodeSkip skip mode trx authorization.sigkeys state)
      authorization.crontab admitted

/-- The checks that an admitted transaction has passed, and what is written. -/
structure Admits (skip : SkipFlags) (mode : TransactionApplyMode)
    (position : BlockPosition) (trx : SignedTransaction Key)
    (state : ChainState Key Hash Id ρ) (authorization : Authorization Key ρ)
    (admitted : ChainState Key Hash Id ρ) : Prop where
  prechecked : env.precheck skip trx state = .ok ()
  authorized : env.authorize skip state.headBlockTime trx state.world = .ok authorization
  timely : checkTimes skip trx state.world.parameters state = .ok ()
  recorded : (recordInBlock mode position (env.digest trx.toTransaction)
    state.transactionInfos : Except (TransactionFault Key) _) = .ok admitted.transactionInfos
  written : admitted =
    { state with
      world := authorization.world
      transactionInfos := admitted.transactionInfos
      transactions := recordTransaction env skip trx state.transactions }

variable {env}
theorem admission_eq_ok :
    env.admission skip mode position trx state = .ok (authorization, admitted) ↔
      env.Admits skip mode position trx state authorization admitted := by
  constructor
  · intro accepted
    simp only [admission, bind_eq_ok, pure_eq_ok] at accepted
    obtain ⟨_, prechecked, _, authorized, _, timely, _, recorded, same⟩ := accepted
    cases same
    exact ⟨prechecked, authorized, timely, recorded, rfl⟩
  · rintro ⟨prechecked, authorized, timely, recorded, written⟩
    simp only [admission, bind_eq_ok, pure_eq_ok]
    refine ⟨(), prechecked, authorization, authorized, (), timely,
      admitted.transactionInfos, recorded, ?_⟩
    rw [← written]

omit [LinearOrder Key] [DecidableEq Hash] [DecidableEq Id] in
theorem evaluateOperations_eq_ok : env.evaluateOperations context crontab state = .ok applied ↔
      ∃ loop, OperationLoop.run env.evaluate context context.trx.operations
          (.start context.runMode state.world) = .ok loop ∧
        { trx := { context.trx with
            operationResults := loop.operationResults }
          state := { state with
            world := settleCrontab state.headBlockTime
              loop.resultContainsError crontab loop.world }
          runMode := loop.runMode } = applied := by
  simp only [evaluateOperations, bind_eq_ok, pure_eq_ok]

theorem applyTransaction_eq_ok :
    env.applyTransaction nodeSkip mode onlyTryPermissions position trx state = .ok applied ↔
      ∃ authorization admitted, env.Admits (effectiveSkip nodeSkip trx.toTransaction) mode position
          trx.toSignedTransaction state authorization admitted ∧
        (if onlyTryPermissions then
            .ok
              { trx := { trx with operationResults := [] }
                state := admitted
                runMode := mode }
          else
            env.evaluateOperations (evaluationContext nodeSkip
                (effectiveSkip nodeSkip trx.toTransaction) mode trx
                authorization.sigkeys state)
              authorization.crontab admitted) = .ok applied := by
  simp only [applyTransaction, bind_eq_ok, Prod.exists, admission_eq_ok]
  cases onlyTryPermissions with
  | false => rfl
  | true => rfl

omit [LinearOrder Key] [DecidableEq Hash] [DecidableEq Id] in
theorem evaluateOperations_frame
    (accepted : env.evaluateOperations context crontab state = .ok applied) :
    applied.state = { state with world := applied.state.world } := by
  obtain ⟨_, _, rfl⟩ := evaluateOperations_eq_ok.mp accepted
  rfl

theorem applyTransaction_frame
    (accepted : env.applyTransaction nodeSkip mode onlyTryPermissions position
      trx state = .ok applied) :
    ∃ authorization admitted, env.Admits (effectiveSkip nodeSkip trx.toTransaction) mode position
        trx.toSignedTransaction state authorization admitted ∧
      applied.state = { admitted with world := applied.state.world } := by
  obtain ⟨authorization, admitted, admits, rest⟩ := applyTransaction_eq_ok.mp accepted
  refine ⟨authorization, admitted, admits, ?_⟩
  cases onlyTryPermissions with
  | false => exact evaluateOperations_frame rest
  | true =>
    cases rest
    rfl

end Environment

end CocosChain.Chain

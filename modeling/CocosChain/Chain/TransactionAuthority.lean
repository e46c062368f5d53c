import CocosChain.Chain.Database
import CocosChain.Chain.TransactionApplication

/-!
# Authority for pending transactions

A transaction enters the pending pool through `_push_transaction`.  Unless it
is pushed again after a block, it is applied to the pending state first, which
verifies its authorities.  A transaction that starts with `contract_share_fee`
is the exception: nodes make such transactions themselves and sign none of
them, so that the first operation turns the verification off.
-/

namespace CocosChain.Chain

open SkipFlags

variable {Key Hash Id ρ : Type}

/-- The pending state and the transactions that led to it, with the members
that bound their number. -/
structure PendingPool (Key Hash Id ρ : Type) where
  state : ChainState Key Hash Id ρ
  pendingTx : List (ProcessedTransaction Key)
  pendingSize : Nat
  messageCacheSizeLimit : Nat
  deduceInVerificationMode : Bool

inductive PushFault (Key : Type) where
  | cacheFull
  | refused (fault : TransactionFault Key)
  | objectExists

namespace Environment

variable [LinearOrder Key] [DecidableEq Hash] [DecidableEq Id] (env : Environment Key Hash Id ρ)

/-- A transaction as it is pushed, without results. -/
def unprocessed (trx : SignedTransaction Key) : ProcessedTransaction Key :=
  { trx with operationResults := [] }

/-- Operations are only evaluated if the transaction is the node's own, or the
node has been told to. -/
def tryTransaction (skip : SkipFlags) (pushState : PushState)
    (trx : SignedTransaction Key) (pool : PendingPool Key Hash Id ρ) :
    Except (TransactionFault Key) (AppliedTransaction Key Hash Id ρ) :=
  match pushState with
  | .fromMe =>
      env.applyTransaction skip .push false ⟨0, 0⟩ (unprocessed trx) pool.state
  | .rePush => do
      checkTimes (effectiveSkip skip trx.toTransaction) trx
        pool.state.world.parameters pool.state
      pure
        { trx := unprocessed trx
          state := pool.state
          runMode := .validateTransaction }
  | _ =>
      env.applyTransaction skip .validateTransaction
        (!pool.deduceInVerificationMode) ⟨0, 0⟩ (unprocessed trx) pool.state

/-- What stays of a transaction that is pushed again, or that a contract asks
not to keep, is its transaction object. -/
def keepObject (trx : SignedTransaction Key) (state : ChainState Key Hash Id ρ) :
    Except (PushFault Key) (ChainState Key Hash Id ρ) :=
  let object : TransactionObject Key Hash Id :=
    { trxHash := env.digest trx.toTransaction
      trxId := env.trxId trx.toTransaction
      trx := trx }
  if state.transactions.any fun other =>
      other.trxId = object.trxId || other.trxHash = object.trxHash then
    .error .objectExists
  else
    .ok { state with transactions := state.transactions ++ [object] }

def pushTransaction (skip : SkipFlags) (pushState : PushState)
    (trx : SignedTransaction Key) (pool : PendingPool Key Hash Id ρ) :
    Except (PushFault Key) (ProcessedTransaction Key × PendingPool Key Hash Id ρ) := do
  let pendingSize :=
    if pushState = .fromMe then max pool.pendingSize pool.pendingTx.length
    else pool.pendingSize
  ensure (pushState ≠ .fromMe || pool.messageCacheSizeLimit = 0 ||
    pendingSize ≤ pool.messageCacheSizeLimit) .cacheFull
  let applied ← (env.tryTransaction skip pushState trx pool).mapError .refused
  let state ← if pushState = .rePush ∨ applied.runMode = .invoke then
      env.keepObject trx pool.state
    else pure applied.state
  pure (applied.trx,
    { pool with
      state := state
      pendingTx := pool.pendingTx ++ [applied.trx]
      pendingSize := pendingSize })

/-- The keys recovered from the signatures meet what the operations of the
transaction require, in the sense of `verify_authority`. -/
def Authorized (trx : SignedTransaction Key) (world : World Key ρ) : Prop :=
  ∃ sigkeys, env.getSignatureKeys trx = some sigkeys ∧
    Chain.verifyAuthority (sharedChecker env.reread world.accounts) world.accounts.getOwner
      (Transaction.getRequiredAuthorities trx.operations) sigkeys
      world.parameters.maxAuthorityDepth false [] [] = .ok ()

variable {env}

omit [DecidableEq Hash] [DecidableEq Id] in
theorem verifyAuthority_authorized
    (verified : env.verifyAuthority world.accounts world.parameters trx = .ok sigkeys) :
    env.Authorized trx world := by
  unfold verifyAuthority at verified
  cases recovered : env.getSignatureKeys trx with
  | none =>
    rw [recovered] at verified
    cases verified
  | some keys =>
    simp only [recovered] at verified
    cases checked : Chain.verifyAuthority
        (sharedChecker env.reread world.accounts) world.accounts.getOwner
        (Transaction.getRequiredAuthorities trx.operations) keys
        world.parameters.maxAuthorityDepth false [] [] with
    | error fault =>
      rw [checked] at verified
      cases verified
    | ok _ =>
      exact ⟨keys, recovered, checked⟩

theorem applyTransaction_authorized (ordinary : trx.agreedTask = none)
    (checks : (effectiveSkip skip trx.toTransaction).skips
      (skipTransactionSignatures ||| skipAuthorityCheck) =
      false)
    (accepted : env.applyTransaction skip mode onlyTryPermissions position trx
      state = .ok applied) :
    env.Authorized trx.toSignedTransaction state.world := by
  obtain ⟨_, _, admits, _⟩ := applyTransaction_frame accepted
  have authorized := admits.authorized
  simp only [authorize, ordinary, checks, Bool.false_eq_true, if_false, bind_eq_ok] at authorized
  obtain ⟨_, verified, _⟩ := authorized
  exact verifyAuthority_authorized verified

omit [LinearOrder Key] in
theorem effectiveSkip_of_not_sharesFee {trx : Transaction Key}
    (notShared : trx.sharesFee = false) : effectiveSkip skip trx = skip := by
  simp [effectiveSkip, notShared]

/-- Unless it starts with `contract_share_fee`, no transaction enters the pool
without the authorities that all its operations require. -/
theorem pushTransaction_authorized (pushState : PushState)
    (trx : SignedTransaction Key) (pool : PendingPool Key Hash Id ρ)
    (pushed : ProcessedTransaction Key × PendingPool Key Hash Id ρ)
    (ordinary : trx.agreedTask = none) (notAgain : pushState ≠ .rePush)
    (notShared : trx.sharesFee = false)
    (accepted : env.pushTransaction skipNothing pushState trx pool = .ok pushed) :
    env.Authorized trx pool.state.world ∧ ∀ op ∈ trx.operations,
        (Transaction.getRequiredAuthorities trx.operations).Covers op.requiredAuthorities := by
  refine ⟨?_, fun op member => .getRequiredAuthorities member⟩
  simp only [pushTransaction, bind_eq_ok, mapError_eq_ok] at accepted
  obtain ⟨_, _, _, tried, _⟩ := accepted
  have unskipped : (effectiveSkip skipNothing trx.toTransaction).skips
      (skipTransactionSignatures ||| skipAuthorityCheck) = false := by
    rw [effectiveSkip_of_not_sharesFee notShared]
    rfl
  have isOrdinary : (unprocessed trx).agreedTask = none := ordinary
  cases pushState with
  | fromMe =>
    rw [tryTransaction] at tried
    exact applyTransaction_authorized isOrdinary unskipped tried
  | fromNet =>
    rw [tryTransaction] at tried
    · exact applyTransaction_authorized isOrdinary unskipped tried
    · nofun
    · nofun
  | popBlock =>
    rw [tryTransaction] at tried
    · exact applyTransaction_authorized isOrdinary unskipped tried
    · nofun
    · nofun
  | rePush => exact absurd rfl notAgain

/-- A signature is the key it is made with. -/
def sample : Environment Nat Nat Nat Unit where
  digest trx := trx.expiration
  transactionId hash := hash
  packSize _ := 1
  opMaxsizeProportionPercent := none
  operationValidate _ := true
  getSignatureKeys trx :=
    let sigkeys := trx.signatures.map fun signature =>
      signature.foldl (fun key byte => 256 * key + byte.toNat) 0
    if sigkeys.Nodup then some sigkeys else none
  reread cells _ := cells
  evaluate _ _ world := .ok (⟨.void, 0⟩, world)

def samplePool : PendingPool Nat Nat Nat Unit where
  state :=
    { headBlockNum := 0
      headBlockId := default
      headBlockTime := 0
      blockSummaries := fun _ => 0
      transactions := []
      transactionInfos := []
      world := .numbered () }
  pendingTx := []
  pendingSize := 0
  messageCacheSizeLimit := 0
  deduceInVerificationMode := false

def sampleTransaction (operations : List (Operation Nat))
    (signatures : List Packed) : SignedTransaction Nat where
  refBlockNum := 0
  refBlockPrefix := 0
  expiration := 60
  operations := operations
  extensions := []
  agreedTask := none
  signatures := signatures

theorem pushTransaction_authorized_transfer :
    sample.Authorized (sampleTransaction [.transfer 7 []] [[7]]) samplePool.state.world := by
  have accepted : ∃ pushed, sample.pushTransaction skipNothing
      .fromNet (sampleTransaction [.transfer 7 []] [[7]]) samplePool = .ok pushed := ⟨_, rfl⟩
  obtain ⟨pushed, accepted⟩ := accepted
  exact (pushTransaction_authorized .fromNet _ samplePool pushed rfl nofun rfl accepted).1

/-- A transaction that starts with `contract_share_fee` needs no signature,
and neither does one that is pushed again. -/
theorem unsigned_enters_pool : ((∃ pushed, sample.pushTransaction skipNothing .fromNet
        (sampleTransaction [.contractShareFee 7 []] []) samplePool = .ok pushed) ∧
      ¬ sample.Authorized (sampleTransaction [.contractShareFee 7 []] []) samplePool.state.world) ∧
    (∃ pushed, sample.pushTransaction skipNothing .rePush
        (sampleTransaction [.transfer 7 []] []) samplePool = .ok pushed) ∧
      ¬ sample.Authorized (sampleTransaction [.transfer 7 []] []) samplePool.state.world := by
  refine ⟨⟨⟨_, rfl⟩, ?_⟩, ⟨_, rfl⟩, ?_⟩
  · rintro ⟨sigkeys, recovered, verified⟩
    cases recovered
    cases verified
  · rintro ⟨_, recovered, verified⟩
    cases recovered
    cases verified

end Environment

end CocosChain.Chain

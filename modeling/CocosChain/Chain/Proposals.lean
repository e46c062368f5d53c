import CocosChain.Chain.TransactionTraversal

/-!
# Proposals

A proposal collects approvals for a transaction.  Each update decides anew
whether the approvals are enough; if they are, the proposal may be executed by
an agreed task as soon as its time has come.  Executing it takes the permission
away, and the block at whose end its time has come and it has no permission
removes it.

An update that follows the execution in the same block gives the permission
back, under a new reference block and expiration.  The proposal then stays and
is executed once more.
-/

namespace CocosChain.Chain

open BlockEnvironment

/-- Inserting into a sorted set. -/
def insertSorted {α : Type} [LinearOrder α] (members : List α) (member : α) : List α :=
  if members.contains member then members
  else members.orderedInsert (· ≤ ·) member

structure ProposalCreate (Key : Type) where
  feePayingAccount : AccountId
  expirationTime : Nat
  proposedOps : List (Operation Key)
  reviewPeriodSeconds : Option Nat

structure ProposalUpdate (Key : Type) where
  proposal : Nat
  activeApprovalsToAdd : List AccountId
  activeApprovalsToRemove : List AccountId
  ownerApprovalsToAdd : List AccountId
  ownerApprovalsToRemove : List AccountId
  keyApprovalsToAdd : List Key
  keyApprovalsToRemove : List Key

structure ProposalDelete where
  feePayingAccount : AccountId
  usingOwnerAuthority : Bool
  proposal : Nat

inductive ProposalOperation (Key : Type) where
  | create (op : ProposalCreate Key)
  | update (op : ProposalUpdate Key)
  | delete (op : ProposalDelete)

/-- The fields of a proposal that its execution does not read. -/
structure ProposalApprovals (Key : Type) where
  reviewPeriodTime : Option Nat
  requiredActiveApprovals : List AccountId
  availableActiveApprovals : List AccountId
  requiredOwnerApprovals : List AccountId
  availableOwnerApprovals : List AccountId
  availableKeyApprovals : List Key

/-- The approvals of the proposals that there are, with the number of the next
one and what else their evaluators read. -/
structure ProposalRoll (Key ρ : Type) where
  approvals : Nat → ProposalApprovals Key
  nextProposal : Nat
  /-- The second word of the identifier of the head block. -/
  headBlockPrefix : UInt32
  nextMaintenanceTime : Nat
  maximumProposalLifetime : Nat
  committeeProposalReviewPeriod : Nat
  rest : ρ

/-- What the evaluators of proposals depend on. -/
structure ProposalSystem (Key ρ : Type) where
  unpack : Packed → Option (ProposalOperation Key)
  /-- The extension that tells proposed transactions apart. -/
  idText : Nat → Packed
  /-- The accounts that the operations concern exist, and the world views that
  they relate to belong to whom they should. -/
  impactedKnown : ProposalCreate Key → World Key (ProposalRoll Key ρ) → Bool

/-- `GRAPHENE_WITNESS_ACCOUNT` -/
def witnessAccount : AccountId := 2

variable {Key Hash Id ρ : Type}

namespace ProposalApprovals

variable [LinearOrder Key]

def update (op : ProposalUpdate Key) (approvals : ProposalApprovals Key) : ProposalApprovals Key :=
  { approvals with
    availableActiveApprovals :=
      (op.activeApprovalsToAdd.foldl insertSorted approvals.availableActiveApprovals).filter
          (!op.activeApprovalsToRemove.contains ·)
    availableOwnerApprovals :=
      (op.ownerApprovalsToAdd.foldl insertSorted approvals.availableOwnerApprovals).filter
          (!op.ownerApprovalsToRemove.contains ·)
    availableKeyApprovals :=
      (op.keyApprovalsToAdd.foldl insertSorted approvals.availableKeyApprovals).filter
          (!op.keyApprovalsToRemove.contains ·) }

/-- `is_authorized_to_execute`, which looks up active authorities without the
temporary keys. -/
def isAuthorizedToExecute (accounts : AccountGraph Key)
    (parameters : ChainParameters) (trx : Transaction Key)
    (approvals : ProposalApprovals Key) : Bool :=
  let getActive := fun account => some (accounts.active account)
  let checker : Checker Key :=
    { checkAccount := SignState.checkAccount getActive
      checkAuthority := SignState.checkAuthority getActive }
  (verifyAuthority checker accounts.getOwner (Transaction.getRequiredAuthorities trx.operations)
    approvals.availableKeyApprovals parameters.maxAuthorityDepth true
    approvals.availableActiveApprovals
    approvals.availableOwnerApprovals).isOk

end ProposalApprovals

namespace World

variable (world : World Key (ProposalRoll Key ρ))

/-- Writes a proposal with its approvals. -/
def storeProposal (id : Nat) (task : ProposalTask Key)
    (approvals : ProposalApprovals Key) : World Key (ProposalRoll Key ρ) :=
  { world with
    proposals := Function.update world.proposals id (some task)
    others := { world.others with
      approvals := Function.update world.others.approvals id approvals } }

def removeProposal (id : Nat) : World Key (ProposalRoll Key ρ) :=
  { world with proposals := Function.update world.proposals id none }

def takeProposalId : World Key (ProposalRoll Key ρ) :=
  { world with
    others := { world.others with
      nextProposal := world.others.nextProposal + 1 } }

/-- The loop over the proposals without permission, in the order of their
times, removes those whose time has come. -/
def clearExpiredProposals (headBlockTime : Nat) : World Key (ProposalRoll Key ρ) :=
  { world with
    proposals := fun id => (world.proposals id).filter fun task =>
      task.allowExecution || headBlockTime < task.expirationTime }

end World

namespace ProposalSystem

variable [LinearOrder Key] (system : ProposalSystem Key ρ)

/-- What the committee or the witnesses have to agree to is reviewed for long
enough and decided before the next maintenance. -/
def reviewed (op : ProposalCreate Key) (world : World Key (ProposalRoll Key ρ)) : Bool :=
  let required := Transaction.getRequiredAuthorities op.proposedOps
  let concerned := fun account =>
    account ∈ required.active ∨ account ∈ required.owner
  if concerned committeeAccount ∨ concerned witnessAccount then
    match op.reviewPeriodSeconds with
    | none => false
    | some period =>
        world.others.committeeProposalReviewPeriod ≤ period &&
          op.expirationTime ≤ world.others.nextMaintenanceTime
  else true

def create (validate : Transaction Key → Bool)
    (context : EvaluationContext Key) (op : ProposalCreate Key)
    (world : World Key (ProposalRoll Key ρ)) :
    Except EvaluationFault (OperationResult × World Key (ProposalRoll Key ρ)) := do
  let required := Transaction.getRequiredAuthorities op.proposedOps
  let id := world.others.nextProposal
  let trx : Transaction Key :=
    { refBlockNum := 0
      refBlockPrefix := 0
      expiration := op.expirationTime
      operations := op.proposedOps
      extensions := system.idText id }
  ensure (context.headBlockTime < op.expirationTime)
    (assertionFault "Proposal has already expired on creation.")
  ensure (op.expirationTime ≤ secondsAfter context.headBlockTime
      world.others.maximumProposalLifetime)
    (assertionFault "Proposal expiration time is too far in the future.")
  ensure (op.reviewPeriodSeconds.all fun period =>
      period < op.expirationTime - context.headBlockTime)
    (assertionFault "Proposal review period must be less than its overall lifetime.")
  ensure required.other.isEmpty (assertionFault "required other authorities")
  ensure (reviewed op world) (assertionFault "Review period not given or insufficient")
  ensure (system.impactedKnown op world) (assertionFault "can't find account")
  ensure (validate trx) (assertionFault "invalid transaction")
  pure ({ content := .objectId id, realRunningTime := 0 }, (world.storeProposal id
        { proposedTransaction := trx
          expirationTime := op.expirationTime
          allowExecution := false }
        { reviewPeriodTime :=
            op.reviewPeriodSeconds.map (op.expirationTime - ·)
          requiredActiveApprovals := required.active.filter (· ∉ required.owner)
          availableActiveApprovals := []
          requiredOwnerApprovals := required.owner
          availableOwnerApprovals := []
          availableKeyApprovals := [] }).takeProposalId)

/-- The checks of an update. -/
def mayUpdate (headBlockTime : Nat) (op : ProposalUpdate Key)
    (approvals : ProposalApprovals Key) : Bool :=
  (approvals.reviewPeriodTime.all fun time =>
      headBlockTime < time ||
        (op.activeApprovalsToAdd.isEmpty && op.ownerApprovalsToAdd.isEmpty)) &&
    op.activeApprovalsToRemove.all (· ∈ approvals.availableActiveApprovals) &&
    op.ownerApprovalsToRemove.all (· ∈ approvals.availableOwnerApprovals)

/-- The proposal after it has been found to be authorized: without a review its
time has come. -/
def authorized (context : EvaluationContext Key) (reviewed : Bool)
    (world : World Key (ProposalRoll Key ρ)) (task : ProposalTask Key) : ProposalTask Key :=
  let expirationTime := if reviewed then task.expirationTime else context.headBlockTime
  { proposedTransaction := { task.proposedTransaction with
      refBlockNum := .ofNat context.headBlockNum
      refBlockPrefix := world.others.headBlockPrefix
      expiration := secondsAfter expirationTime
        (min world.parameters.assignedTaskLifeCycle 7200) }
    expirationTime := expirationTime
    allowExecution := true }

def update (validate : Transaction Key → Bool)
    (context : EvaluationContext Key) (op : ProposalUpdate Key)
    (world : World Key (ProposalRoll Key ρ)) :
    Except EvaluationFault (OperationResult × World Key (ProposalRoll Key ρ)) := do
  let task ← found (world.proposals op.proposal) (assertionFault "Unable to find Object")
  let approvals := world.others.approvals op.proposal
  ensure (mayUpdate context.headBlockTime op approvals) (assertionFault
      "This proposal is in its review period. No new approvals may be added.")
  let approvals := approvals.update op
  let result : OperationResult := { content := .void, realRunningTime := 0 }
  if approvals.isAuthorizedToExecute world.accounts world.parameters
      task.proposedTransaction then do
    let task := authorized context approvals.reviewPeriodTime.isSome world task
    ensure (validate task.proposedTransaction) (assertionFault "invalid transaction")
    pure (result, world.storeProposal op.proposal task approvals)
  else
    pure (result, world.storeProposal op.proposal
      { task with allowExecution := false } approvals)

def delete (op : ProposalDelete) (world : World Key (ProposalRoll Key ρ)) :
    Except EvaluationFault (OperationResult × World Key (ProposalRoll Key ρ)) := do
  let _ ← found (world.proposals op.proposal) (assertionFault "Unable to find Object")
  let approvals := world.others.approvals op.proposal
  ensure (op.feePayingAccount ∈ if op.usingOwnerAuthority then approvals.requiredOwnerApprovals
      else approvals.requiredActiveApprovals)
    (assertionFault "Provided authority is not authoritative for this proposal.")
  pure ({ content := .void, realRunningTime := 0 }, world.removeProposal op.proposal)

/-- The proposal operation that an operation is. -/
def read : Operation Key → Option (ProposalOperation Key)
  | .other _ packed => system.unpack packed
  | _ => none

/-- Operations that are not about proposals are left to `others`. -/
def evaluate (validate : Transaction Key → Bool) (others : Evaluator Key (ProposalRoll Key ρ)) :
    Evaluator Key (ProposalRoll Key ρ) :=
  fun context op world =>
    match system.read op with
    | some (.create op) => system.create validate context op world
    | some (.update op) => update validate context op world
    | some (.delete op) => delete op world
    | none => others context op world

/-- The upkeep of a block, with the proposals. -/
def upkeep (summaryPrefix : BlockId Hash → UInt32)
    (others : ProcessedBlock Key Hash → World Key (ProposalRoll Key ρ) →
      Option (World Key (ProposalRoll Key ρ)))
    (block : ProcessedBlock Key Hash) (world : World Key (ProposalRoll Key ρ)) :
    Option (World Key (ProposalRoll Key ρ)) :=
  (others block world).map fun world =>
    World.clearExpiredProposals
      { world with others := { world.others with
          headBlockPrefix := summaryPrefix block.blockId } } block.timestamp

/-- The chain in which proposals are handled, and all else is as in `base`. -/
def chain (base : BlockEnvironment Key Hash Id (ProposalRoll Key ρ)) :
    BlockEnvironment Key Hash Id (ProposalRoll Key ρ) :=
  { base with
    evaluate := system.evaluate base.validate base.evaluate
    upkeep := upkeep base.summaryPrefix base.upkeep }

end ProposalSystem

/-- The proposals that can be executed, and the number of the next one, are the
same. -/
structure SameProposals (before after : World Key (ProposalRoll Key ρ)) : Prop where
  proposals : after.proposals = before.proposals
  next : after.others.nextProposal = before.others.nextProposal

namespace ProposalSystem

variable (system : ProposalSystem Key ρ)

/-- The operation updates the proposal. -/
def Updates (proposal : Nat) (op : Operation Key) : Prop :=
  ∃ update, system.read op = some (.update update) ∧ update.proposal = proposal

/-- What an operation does to the proposals. -/
inductive Changes (op : Operation Key) (before after : World Key (ProposalRoll Key ρ)) : Prop where
  | kept (same : SameProposals before after)
  | created (task : ProposalTask Key)
      (proposals : after.proposals = Function.update before.proposals
        before.others.nextProposal (some task))
      (next : after.others.nextProposal = before.others.nextProposal + 1)
  | updated (id : Nat) (updates : system.Updates id op)
      (old task : ProposalTask Key) (known : before.proposals id = some old)
      (proposals : after.proposals =
        Function.update before.proposals id (some task))
      (next : after.others.nextProposal = before.others.nextProposal)
  | deleted (id : Nat)
      (proposals : after.proposals = Function.update before.proposals id none)
      (next : after.others.nextProposal = before.others.nextProposal)

/-- What is not about proposals leaves them as they are. -/
structure LeavesProposals
    (base : BlockEnvironment Key Hash Id (ProposalRoll Key ρ)) : Prop where
  evaluate : ∀ {context op world result after},
    base.evaluate context op world = .ok (result, after) → SameProposals world after
  upkeep : ∀ {block world after}, base.upkeep block world = some after → SameProposals world after

variable {system} {after : World Key (ProposalRoll Key ρ)}

theorem create_changes {create : ProposalCreate Key}
    (accepted : system.create validate context create world = .ok (result, after)) :
    system.Changes op world after := by
  simp only [ProposalSystem.create, bind_eq_ok, pure_eq_ok, Prod.mk.injEq] at accepted
  obtain ⟨_, -, _, -, _, -, _, -, _, -, _, -, _, -, -, rfl⟩ := accepted
  exact .created _ rfl rfl

theorem delete_changes {delete : ProposalDelete}
    (accepted : ProposalSystem.delete delete world = .ok (result, after)) :
    system.Changes op world after := by
  simp only [ProposalSystem.delete, bind_eq_ok, pure_eq_ok, Prod.mk.injEq] at accepted
  obtain ⟨_, -, _, -, -, rfl⟩ := accepted
  exact .deleted _ rfl rfl

variable [LinearOrder Key]

theorem update_eq_ok {op : ProposalUpdate Key}
    (accepted : update validate context op world = .ok (result, after)) :
    let approvals := (world.others.approvals op.proposal).update op
    ∃ old, world.proposals op.proposal = some old ∧ after = world.storeProposal op.proposal
        (if approvals.isAuthorizedToExecute world.accounts world.parameters
            old.proposedTransaction then
          authorized context approvals.reviewPeriodTime.isSome world old
        else { old with allowExecution := false }) approvals := by
  simp only [update, bind_eq_ok, found_eq_ok] at accepted
  obtain ⟨old, known, _, -, rest⟩ := accepted
  refine ⟨old, known, ?_⟩
  split at rest
  · rename_i enough
    simp only [bind_eq_ok, pure_eq_ok, Prod.mk.injEq] at rest
    obtain ⟨_, -, -, rfl⟩ := rest
    rw [if_pos enough]
  · rename_i short
    simp only [pure_eq_ok, Prod.mk.injEq] at rest
    obtain ⟨-, rfl⟩ := rest
    rw [if_neg short]

theorem evaluate_changes (leaves : LeavesProposals base)
    (accepted : (system.chain base).evaluate context op world = .ok (result, after)) :
    system.Changes op world after := by
  change system.evaluate base.validate base.evaluate context op world = _ at accepted
  unfold ProposalSystem.evaluate at accepted
  split at accepted
  · exact create_changes accepted
  · rename_i update read
    obtain ⟨old, known, rfl⟩ := update_eq_ok accepted
    exact .updated update.proposal ⟨update, read, rfl⟩ old _ known rfl rfl
  · exact delete_changes accepted
  · exact .kept (leaves.evaluate accepted)

end ProposalSystem

namespace World

variable (world : World Key (ProposalRoll Key ρ))

/-- Proposals have numbers that have been given out. -/
def Numbered : Prop :=
  ∀ id task, world.proposals id = some task → id < world.others.nextProposal

/-- The proposal will not be executed in this block, and not survive it. -/
structure Spent (proposal headBlockTime : Nat) : Prop where
  issued : proposal < world.others.nextProposal
  idle : ∀ task, world.proposals proposal = some task →
    task.allowExecution = false ∧ task.expirationTime ≤ headBlockTime

/-- The proposal has been removed. -/
structure Gone (proposal : Nat) : Prop where
  issued : proposal < world.others.nextProposal
  absent : world.proposals proposal = none

variable {world}

section Changes

variable {system : ProposalSystem Key ρ}

theorem Numbered.changes (numbered : world.Numbered)
    (changes : system.Changes op world after) : after.Numbered := by
  intro id task known
  cases changes with
  | kept same =>
    rw [same.proposals] at known
    rw [same.next]
    exact numbered id task known
  | created new proposals next =>
    rw [next]
    by_cases latest : id = world.others.nextProposal
    · omega
    · rw [proposals, Function.update_of_ne latest] at known
      exact Nat.lt_succ_of_lt (numbered id task known)
  | updated other updates old new found proposals next =>
    rw [next]
    by_cases same : id = other
    · rw [same]
      exact numbered other old found
    · rw [proposals, Function.update_of_ne same] at known
      exact numbered id task known
  | deleted other proposals next =>
    rw [next]
    by_cases same : id = other
    · rw [proposals, same, Function.update_self] at known
      cases known
    · rw [proposals, Function.update_of_ne same] at known
      exact numbered id task known

theorem changes_issued (issued : proposal < world.others.nextProposal)
    (changes : system.Changes op world after) :
    proposal < after.others.nextProposal ∧ (after.proposals proposal = world.proposals proposal ∨
        after.proposals proposal = none ∨
        (system.Updates proposal op ∧ world.proposals proposal ≠ none)) := by
  cases changes with
  | kept same =>
    rw [same.next, same.proposals]
    exact ⟨issued, .inl rfl⟩
  | created new proposals next =>
    rw [next, proposals, Function.update_of_ne (Nat.ne_of_lt issued)]
    exact ⟨Nat.lt_succ_of_lt issued, .inl rfl⟩
  | updated id updates old new found proposals next =>
    rw [next, proposals]
    refine ⟨issued, ?_⟩
    by_cases same : proposal = id
    · subst same
      refine .inr (.inr ⟨updates, ?_⟩)
      rw [found]
      exact Option.some_ne_none old
    · exact .inl (Function.update_of_ne same _ _)
  | deleted id proposals next =>
    rw [next, proposals]
    refine ⟨issued, ?_⟩
    by_cases same : proposal = id
    · subst same
      exact .inr (.inl (Function.update_self ..))
    · exact .inl (Function.update_of_ne same _ _)

theorem Spent.changes (spent : world.Spent proposal headBlockTime)
    (other : ¬ system.Updates proposal op) (changes : system.Changes op world after) :
    after.Spent proposal headBlockTime := by
  obtain ⟨issued, same | removed | ⟨updates, -⟩⟩ := changes_issued spent.issued changes
  · exact ⟨issued, by rw [same]; exact spent.idle⟩
  · refine ⟨issued, fun task known => ?_⟩
    rw [removed] at known
    cases known
  · exact absurd updates other

theorem Gone.changes (gone : world.Gone proposal)
    (changes : system.Changes op world after) : after.Gone proposal := by
  obtain ⟨issued, same | removed | ⟨-, there⟩⟩ := changes_issued gone.issued changes
  · exact ⟨issued, by rw [same]; exact gone.absent⟩
  · exact ⟨issued, removed⟩
  · exact absurd gone.absent there

end Changes

end World

theorem settleCrontab_sameProposals :
    SameProposals world (settleCrontab now containsError crontab world) := by
  unfold settleCrontab
  repeat' split
  all_goals exact ⟨rfl, rfl⟩

namespace Environment

variable [LinearOrder Key] [DecidableEq Hash]
variable {env : Environment Key Hash Id ρ} {trx : SignedTransaction Key} {world : World Key ρ}
  {authorization : Authorization Key ρ}

variable (accepted : env.authorize skip now trx world = .ok authorization)
include accepted

theorem authorize_proposal (agreed : trx.agreedTask = some (.proposal proposal)) :
    ∃ task, world.proposals proposal = some task ∧
      task.allowExecution = true ∧ task.expirationTime ≤ now ∧
      authorization.world = world.setProposal proposal { task with allowExecution := false } := by
  unfold authorize at accepted
  rw [agreed] at accepted
  simp only [bind_eq_ok, found_eq_ok, ensure_eq_ok, Bool.and_eq_true,
    decide_eq_true_eq, pure_eq_ok] at accepted
  obtain ⟨task, known, _, ⟨⟨_, due⟩, allowed⟩, rfl⟩ := accepted
  exact ⟨task, known, allowed, due, rfl⟩

theorem authorize_other (other : trx.agreedTask ≠ some (.proposal proposal)) :
    authorization.world.proposals proposal = world.proposals proposal ∧
      authorization.world.others = world.others := by
  unfold authorize at accepted
  split at accepted
  · rename_i id agreed
    simp only [bind_eq_ok, pure_eq_ok] at accepted
    obtain ⟨task, -, _, -, rfl⟩ := accepted
    refine ⟨Function.update_of_ne ?_ _ _, rfl⟩
    rintro rfl
    exact other agreed
  · simp only [bind_eq_ok, pure_eq_ok] at accepted
    obtain ⟨_, -, _, -, rfl⟩ := accepted
    exact ⟨rfl, rfl⟩
  · cases accepted
  · split at accepted
    · cases accepted
      exact ⟨rfl, rfl⟩
    · simp only [bind_eq_ok, pure_eq_ok] at accepted
      obtain ⟨_, -, rfl⟩ := accepted
      exact ⟨rfl, rfl⟩

end Environment

namespace ProposalSystem

variable [LinearOrder Key] [DecidableEq Hash] [DecidableEq Id] (system : ProposalSystem Key ρ)

/-- From the transaction that executes the proposal on, no operation updates
it. -/
def SettledBy (proposal : Nat) (trxs : List (ProcessedTransaction Key)) : Prop :=
  ∀ trx later, trx :: later <:+ trxs → trx.agreedTask = some (.proposal proposal) →
      ∀ other ∈ trx :: later, ∀ op ∈ other.operations, ¬ system.Updates proposal op

variable {system}
variable {base : BlockEnvironment Key Hash Id (ProposalRoll Key ρ)} {trx : ProcessedTransaction Key}
  {state : ChainState Key Hash Id (ProposalRoll Key ρ)}
  {applied : AppliedTransaction Key Hash Id (ProposalRoll Key ρ)}

section

variable (leaves : LeavesProposals base)
  (accepted : (system.chain base).applyTransaction nodeSkip mode false position trx state =
    .ok applied)
include leaves accepted

/-- What changes of proposals keep is kept by a transaction, if it holds once
the transaction is authorized. -/
theorem applyTransaction_keeps {P : World Key (ProposalRoll Key ρ) → Prop}
    (allowed : Operation Key → Prop)
    (withdrawal : ∀ vestingBalance owner amount,
      allowed (.vestingBalanceWithdraw vestingBalance owner amount))
    (changes : ∀ {op before after}, allowed op → P before →
      system.Changes op before after → P after)
    (may : ∀ op ∈ trx.operations, allowed op)
    (starts : ∀ skip authorization, (system.chain base).authorize skip
      state.headBlockTime trx.toSignedTransaction state.world = .ok
      authorization → P authorization.world) : P applied.state.world := by
  obtain ⟨_, _, _, authorized, time, finished, -,
    world⟩ := Environment.applyTransaction_parts accepted
  have preserves : Preserves (system.chain base).evaluate state.headBlockTime allowed P := by
    refine ⟨withdrawal, ?_⟩
    intro context op world result after _ may holds evaluated
    exact changes may holds (evaluate_changes leaves evaluated)
  rw [world]
  apply changes (withdrawal 0 0 ⟨0, 0⟩) _ (.kept settleCrontab_sameProposals)
  exact preserves.run time may (starts _ _ authorized) finished

theorem applyTransaction_numbered (numbered : state.world.Numbered) :
    applied.state.world.Numbered := by
  refine applyTransaction_keeps leaves accepted (fun _ => True) (fun _ _ _ => trivial)
    (fun _ => World.Numbered.changes) (fun _ _ => trivial) ?_
  intro skip authorization authorized id task known
  by_cases agreed : trx.agreedTask = some (.proposal id)
  · obtain ⟨old, found, _, _, world⟩ :=
      Environment.authorize_proposal authorized agreed
    rw [world]
    exact numbered id old found
  · obtain ⟨same, others⟩ := Environment.authorize_other authorized agreed
    rw [same] at known
    rw [others]
    exact numbered id task known

theorem applyTransaction_gone (gone : state.world.Gone proposal) :
    trx.agreedTask ≠ some (.proposal proposal) ∧ applied.state.world.Gone proposal := by
  have refused : trx.agreedTask ≠ some (.proposal proposal) := by
    intro agreed
    obtain ⟨authorization, _, _, authorized, -⟩ := Environment.applyTransaction_parts accepted
    obtain ⟨_, known, -⟩ := Environment.authorize_proposal authorized agreed
    rw [gone.absent] at known
    cases known
  refine ⟨refused, applyTransaction_keeps leaves accepted (fun _ => True) (fun _ _ _ => trivial)
    (fun _ => World.Gone.changes) (fun _ _ => trivial) ?_⟩
  intro skip authorization authorized
  obtain ⟨same, others⟩ := Environment.authorize_other authorized refused
  exact ⟨by rw [others]; exact gone.issued, by rw [same]; exact gone.absent⟩

/-- What the authorization leaves spent stays so, unless an operation updates
the proposal. -/
theorem applyTransaction_spent (starts : ∀ skip authorization, (system.chain base).authorize skip
      state.headBlockTime trx.toSignedTransaction state.world = .ok
      authorization → authorization.world.Spent proposal state.headBlockTime)
    (settled : ∀ op ∈ trx.operations, ¬ system.Updates proposal op) :
    applied.state.world.Spent proposal state.headBlockTime := by
  refine applyTransaction_keeps leaves accepted (fun op => ¬ system.Updates proposal op) ?_
    (fun other spent => World.Spent.changes spent other) settled starts
  rintro _ _ _ ⟨_, read, -⟩
  cases read

end

section

omit [DecidableEq Id]

theorem authorize_spent (spent : state.world.Spent proposal state.headBlockTime)
    (authorized : (system.chain base).authorize skip state.headBlockTime
      trx.toSignedTransaction state.world = .ok authorization) :
    trx.agreedTask ≠ some (.proposal proposal) ∧
      authorization.world.Spent proposal state.headBlockTime := by
  have refused : trx.agreedTask ≠ some (.proposal proposal) := by
    intro agreed
    obtain ⟨task, known, allowed, -⟩ := Environment.authorize_proposal authorized agreed
    rw [(spent.idle task known).1] at allowed
    cases allowed
  obtain ⟨same, others⟩ := Environment.authorize_other authorized refused
  exact ⟨refused, by rw [others]; exact spent.issued, by rw [same]; exact spent.idle⟩

theorem authorize_spends (numbered : state.world.Numbered)
    (agreed : trx.agreedTask = some (.proposal proposal))
    (authorized : (system.chain base).authorize skip state.headBlockTime
      trx.toSignedTransaction state.world = .ok authorization) :
    authorization.world.Spent proposal state.headBlockTime := by
  obtain ⟨task, known, -, due, world⟩ := Environment.authorize_proposal authorized agreed
  rw [world]
  refine ⟨numbered proposal task known, fun marked found => ?_⟩
  simp only [World.setProposal, Function.update_self, Option.some.injEq] at found
  subst found
  exact ⟨rfl, due⟩

end

section

variable (leaves : LeavesProposals base)
include leaves

theorem applyTransactions_spent (spent : state.world.Spent proposal state.headBlockTime)
    (settled : ∀ trx ∈ trxs, ∀ op ∈ trx.operations, ¬ system.Updates proposal op)
    (accepted : (system.chain base).applyTransactions skip blockNum trxInBlock
      trxs state = .ok next) :
    executions (.proposal proposal) trxs = 0 ∧ next.world.Spent proposal state.headBlockTime := by
  induction trxs generalizing state trxInBlock with
  | nil =>
    cases accepted
    exact ⟨rfl, spent⟩
  | cons trx trxs induction =>
    obtain ⟨-, _, accepted, rest⟩ := applyTransactions_cons_eq_ok.mp accepted
    obtain ⟨_, _, _, authorized, -, -, time, -⟩ := Environment.applyTransaction_parts accepted
    have other := (authorize_spent spent authorized).1
    have still := applyTransaction_spent leaves accepted
      (fun _ _ authorized => (authorize_spent spent authorized).2) (settled trx List.mem_cons_self)
    rw [executions_cons_other other, ← time]
    rw [← time] at still
    exact induction still (fun other member =>
      settled other (List.mem_cons_of_mem _ member)) rest

/-- The transactions of a block execute the proposal once at most, and leave it
spent if they do. -/
theorem applyTransactions_once (numbered : state.world.Numbered)
    (settled : system.SettledBy proposal trxs)
    (accepted : (system.chain base).applyTransactions skip blockNum trxInBlock
      trxs state = .ok next) :
    next.world.Numbered ∧ (executions (.proposal proposal) trxs = 0 ∨
        executions (.proposal proposal) trxs = 1 ∧
          next.world.Spent proposal state.headBlockTime) := by
  induction trxs generalizing state trxInBlock with
  | nil =>
    cases accepted
    exact ⟨numbered, .inl rfl⟩
  | cons trx trxs induction =>
    obtain ⟨-, _, accepted, rest⟩ := applyTransactions_cons_eq_ok.mp accepted
    obtain ⟨_, _, _, -, -, -, time, -⟩ := Environment.applyTransaction_parts accepted
    have later := applyTransaction_numbered leaves accepted numbered
    have settledLater : system.SettledBy proposal trxs :=
      fun other after suffix =>
        settled other after (suffix.trans (List.suffix_cons trx trxs))
    obtain ⟨numberedNext, outcome⟩ := induction later settledLater rest
    refine ⟨numberedNext, ?_⟩
    by_cases agreed : trx.agreedTask = some (.proposal proposal)
    · have quiet := settled trx trxs (List.suffix_refl _) agreed
      have spent := applyTransaction_spent leaves accepted
        (fun _ _ authorized => authorize_spends numbered agreed authorized)
        (quiet trx List.mem_cons_self)
      rw [← time] at spent
      obtain ⟨none, spent⟩ := applyTransactions_spent leaves spent
        (fun other member => quiet other (List.mem_cons_of_mem _ member)) rest
      rw [executions_cons_same agreed, none, ← time]
      exact .inr ⟨rfl, spent⟩
    · rw [executions_cons_other agreed, ← time]
      exact outcome

end

omit [DecidableEq Hash] [DecidableEq Id] in
theorem finishBlock_clears (leaves : LeavesProposals base)
    (later : state.headBlockTime < block.timestamp)
    (finished : (system.chain base).finishBlock skip block state = .ok next) :
    (state.world.Numbered → next.world.Numbered) ∧
      (state.world.Spent proposal state.headBlockTime → next.world.Gone proposal) ∧
      (state.world.Gone proposal → next.world.Gone proposal) := by
  obtain ⟨-, kept, -⟩ := finishBlock_eq_ok.mp finished
  obtain ⟨world, upkept, cleared⟩ := Option.map_eq_some_iff.mp kept
  obtain ⟨proposals, numbers⟩ := leaves.upkeep upkept
  rw [← cleared]
  refine ⟨fun numbered id task known => ?_, fun spent => ⟨?_, ?_⟩, fun gone => ⟨?_, ?_⟩⟩
  · have present := Option.eq_some_of_filter_eq_some known
    rw [proposals] at present
    exact (numbered id task present).trans_eq numbers.symm
  · exact spent.issued.trans_eq numbers.symm
  · apply Option.filter_eq_none_iff.mpr
    intro task known
    rw [proposals] at known
    obtain ⟨idle, _⟩ := spent.idle task known
    rw [idle]
    simp only [Bool.false_or, decide_eq_true_eq]
    omega
  · exact gone.issued.trans_eq numbers.symm
  · show Option.filter _ (world.proposals proposal) = none
    rw [proposals, gone.absent]
    rfl

theorem keeps_gone (leaves : LeavesProposals base) :
    (system.chain base).Keeps skip (fun _ _ => true) fun past state =>
      executions (.proposal proposal) past = 0 ∧ state.world.Gone proposal where
  transaction := by
    rintro past state _ _ _ ⟨none, gone⟩ - accepted
    obtain ⟨other, gone⟩ := applyTransaction_gone leaves accepted gone
    rw [executions_append, none, executions_cons_other other]
    exact ⟨rfl, gone⟩
  finish := by
    rintro _ _ _ _ ⟨none, gone⟩ later finished
    exact ⟨none, (finishBlock_clears leaves later finished).2.2 gone⟩

/-- Along every chain of blocks in which no update of the proposal follows its
execution within a block, the proposal is executed once at most. -/
theorem proposal_executes_once (base : BlockEnvironment Key Hash Id (ProposalRoll Key ρ))
    (leaves : LeavesProposals base) (proposal : Nat) (blocks : List (ProcessedBlock Key Hash))
    (state final : ChainState Key Hash Id (ProposalRoll Key ρ)) (numbered : state.world.Numbered)
    (accepted : (system.chain base).applyBlocks skip blocks state = .ok final)
    (settled : ∀ block ∈ blocks, system.SettledBy proposal block.transactions) :
    executions (.proposal proposal) (blocks.flatMap ProcessedBlock.transactions) ≤ 1 := by
  induction blocks generalizing state with
  | nil => exact Nat.zero_le 1
  | cons block blocks induction =>
    obtain ⟨middle, accepted, rest⟩ := applyBlocks_cons_eq_ok.mp accepted
    obtain ⟨-, valid, _, transacted, finished⟩ :=
      applyBlock_eq_ok.mp accepted
    have later := validateBlockHeader_later valid
    have time := (applyTransactions_head transacted).2
    rw [← time] at later
    obtain ⟨clearedNumbers, clears, -⟩ := finishBlock_clears leaves later finished
    obtain ⟨numbered, outcome⟩ := applyTransactions_once leaves numbered
      (settled block List.mem_cons_self) transacted
    rw [List.flatMap_cons, executions_append]
    -- Either the proposal is still to be executed, or it is removed now.
    rcases outcome with none | ⟨once, spent⟩
    · rw [none, Nat.zero_add]
      exact induction middle (clearedNumbers numbered) rest
        (fun other member => settled other (List.mem_cons_of_mem _ member))
    · rw [← time] at spent
      obtain ⟨none, -⟩ := (keeps_gone leaves).blocks [] ⟨rfl, clears spent⟩ blocksMeet_true rest
      rw [List.nil_append] at none
      rw [once, none]

omit [DecidableEq Id] in
/-- Conversely an update after which the approvals are enough makes a proposal
without a review due again, whether or not it has been executed. -/
theorem update_revives {env : Environment Key Hash Id (ProposalRoll Key ρ)}
    (updated : update validate context op world = .ok (result, after))
    (known : world.proposals op.proposal = some old)
    (enough : ((world.others.approvals op.proposal).update
      op).isAuthorizedToExecute world.accounts world.parameters
      old.proposedTransaction = true)
    (unreviewed : (world.others.approvals op.proposal).reviewPeriodTime = none) :
    ∃ task, after.proposals op.proposal = some task ∧ ∀ skip (trx : SignedTransaction Key),
        trx.agreedTask = some (.proposal op.proposal) →
        trx.toTransaction = task.proposedTransaction →
          ∃ authorization, env.authorize skip context.headBlockTime trx after =
            .ok authorization := by
  obtain ⟨same, stored, rfl⟩ := update_eq_ok updated
  cases known.symm.trans stored
  rw [if_pos enough]
  refine ⟨_, Function.update_self .., fun skip trx agreed same => ?_⟩
  unfold Environment.authorize
  rw [agreed]
  simp only [bind_eq_ok, found_eq_ok, ensure_eq_ok, pure_eq_ok]
  refine ⟨_, _, Function.update_self .., (), ?_, rfl⟩
  have still : ((world.others.approvals op.proposal).update
      op).reviewPeriodTime = none := unreviewed
  simp [authorized, same, still]

/-- The first byte tells creations and updates apart; the second is the account
that approves. -/
def bytewise : ProposalSystem Nat Unit where
  unpack
    | [0] => some (.create
        { feePayingAccount := 5
          expirationTime := 50
          proposedOps := [.transfer 7 []]
          reviewPeriodSeconds := none })
    | [1, account] => some (.update
        { proposal := 0
          activeApprovalsToAdd := [account.toNat]
          activeApprovalsToRemove := []
          ownerApprovalsToAdd := []
          ownerApprovalsToRemove := []
          keyApprovalsToAdd := []
          keyApprovalsToRemove := [] })
    | _ => none
  idText id := [.ofNat id]
  impactedKnown _ _ := true

def emptyRoll : ProposalRoll Nat Unit where
  approvals := fun _ => ⟨none, [], [], [], [], []⟩
  nextProposal := 0
  headBlockPrefix := 0
  nextMaintenanceTime := 1000
  maximumProposalLifetime := 100
  committeeProposalReviewPeriod := 10
  rest := ()

def createTransfer : ProcessedTransaction Nat := blankTransaction 40 (.other ⟨[5], [], []⟩ [0])

def approveTransfer (account : UInt8) : ProcessedTransaction Nat :=
  blankTransaction 40 (.other ⟨[account.toNat], [], []⟩ [1, account])

def executeTransfer (refBlockNum : UInt16) (expiration : Nat) : ProcessedTransaction Nat :=
  blankTask (.proposal 0) ⟨refBlockNum, 0, expiration, [.transfer 7 []], [0]⟩

theorem blankChain_leaves : LeavesProposals (blankChain (ProposalRoll Nat Unit)) := by
  refine ⟨fun evaluated => ?_, fun kept => ?_⟩
  · cases evaluated
    exact ⟨rfl, rfl⟩
  · cases kept
    exact ⟨rfl, rfl⟩

def approvedOnce : List (ProcessedBlock Nat (Transaction Nat)) :=
  [blankBlock 0 10 [createTransfer, approveTransfer 7],
    blankBlock 1 20 [executeTransfer 0 0], blankBlock 2 30 []]

theorem proposal_executes_once_transfer :
    ((bytewise.chain (blankChain _)).applyBlocks 0 approvedOnce
        (blankGenesis 0 emptyRoll)).isOk = true ∧
      executions (.proposal 0) (approvedOnce.flatMap ProcessedBlock.transactions) ≤ 1 := by
  have accepted : ((bytewise.chain (blankChain _)).applyBlocks 0 approvedOnce
      (blankGenesis 0 emptyRoll)).isOk = true := by decide +kernel
  refine ⟨accepted, ?_⟩
  obtain ⟨final, run⟩ := exists_of_isOk accepted
  refine proposal_executes_once (blankChain _) blankChain_leaves 0
    approvedOnce (blankGenesis 0 emptyRoll) final ?_ run ?_
  · intro id task known
    cases known
  · intro block member trx later suffix agreed other inside op within
    have here := suffix.subset List.mem_cons_self
    have there := suffix.subset inside
    simp only [approvedOnce, List.mem_cons, List.not_mem_nil, or_false] at member
    rcases member with rfl | rfl | rfl
    · simp only [blankBlock, List.mem_cons, List.not_mem_nil, or_false] at here
      rcases here with rfl | rfl
      · cases agreed
      · cases agreed
    · cases List.mem_singleton.mp there
      cases List.mem_singleton.mp within
      rintro ⟨_, read, -⟩
      cases read
    · cases here

/-- An approval that follows the execution in its block has the proposal
executed again in the next one. -/
theorem proposal_executed_twice : ∃ blocks, ((bytewise.chain (blankChain _)).applyBlocks 0 blocks
        (blankGenesis 0 emptyRoll)).isOk = true ∧
      executions (.proposal 0) (blocks.flatMap ProcessedBlock.transactions) = 2 :=
  ⟨[blankBlock 0 10 [createTransfer, approveTransfer 7],
      blankBlock 1 20 [executeTransfer 0 0, approveTransfer 8],
      blankBlock 2 30 [executeTransfer 1 10]], by decide +kernel, by decide +kernel⟩

end ProposalSystem

end CocosChain.Chain

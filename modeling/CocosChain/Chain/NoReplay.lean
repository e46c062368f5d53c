import CocosChain.Chain.TransactionTraversal

/-!
# No transaction is applied twice

An ordinary transaction that has been applied is barred from then on: as long
as it has not expired its identifier is in the index of transactions, and once
it has been removed the expiration check refuses it.  The check compares with
the time of the old head block and the removal with that of the new one, and
the two comparisons leave no gap.
-/

namespace CocosChain.Chain

open SkipFlags Environment

variable {Key Hash Id ρ : Type}

/-- Neither an agreed task nor started by `contract_share_fee`. -/
def ProcessedTransaction.ordinary (trx : ProcessedTransaction Key) : Bool :=
  !trx.agreedTask.isSome && !trx.sharesFee

namespace Environment

variable (env : Environment Key Hash Id ρ)

/-- Different transactions have different identifiers. -/
def CollisionFree : Prop := Function.Injective env.trxId

/-- A transaction object carries the hash and the identifier of its
transaction. -/
structure Labelled (object : TransactionObject Key Hash Id) : Prop where
  hash : object.trxHash = env.digest object.trx.toTransaction
  id : object.trxId = env.transactionId object.trxHash

def IndexSound (transactions : List (TransactionObject Key Hash Id)) : Prop :=
  ∀ object ∈ transactions, env.Labelled object

/-- The expiration check refuses whatever expires then. -/
def Expired (expiration : Nat) (state : ChainState Key Hash Id ρ) : Prop :=
  0 < state.headBlockNum ∧ expiration < state.headBlockTime

variable [DecidableEq Id]

/-- What keeps a transaction from being applied. -/
def Barred (trx : ProcessedTransaction Key) (state : ChainState Key Hash Id ρ) : Prop :=
  isKnownTransaction (env.trxId trx.toTransaction) state = true ∨ Expired trx.expiration state

variable {env}

variable {state : ChainState Key Hash Id ρ}

omit [DecidableEq Id] in
theorem Expired.refuses (expired : Expired trx.expiration state) (own : trx.agreedTask = none) :
    checkTimes skip trx parameters state ≠ .ok () := by
  intro timely
  have active : (0 < state.headBlockNum && !trx.agreedTask.isSome) = true := by
    simp [own, expired.1]
  rw [checkTimes, if_pos active] at timely
  simp only [bind_eq_ok, ensure_eq_ok, decide_eq_true_eq] at timely
  obtain ⟨_, _, _, _, notYet⟩ := timely
  exact absurd notYet (Nat.not_le_of_lt expired.2)

theorem isKnownTransaction_iff {id : Id} : isKnownTransaction id state = true ↔
      ∃ object ∈ state.transactions, object.trxId = id := by
  simp [isKnownTransaction]

section Index

variable [DecidableEq Hash]

variable {object : TransactionObject Key Hash Id}

theorem mem_createTransactionObject (member : other ∈ createTransactionObject object transactions) :
    other ∈ transactions ∨ other = object := by
  unfold createTransactionObject at member
  split at member
  · exact .inl member
  · simpa using member

theorem subset_recordTransaction (transactions : List (TransactionObject Key Hash Id)) :
    transactions ⊆ recordTransaction env skip trx transactions := by
  unfold recordTransaction createTransactionObject
  split
  · split
    · exact List.Subset.refl _
    · exact List.subset_append_left _ _
  · exact List.Subset.refl _

theorem recordTransaction_sound (sound : env.IndexSound transactions) :
    env.IndexSound (recordTransaction env skip trx transactions) := by
  intro object member
  unfold recordTransaction at member
  split at member
  · rcases mem_createTransactionObject member with known | rfl
    · exact sound object known
    · exact ⟨rfl, rfl⟩
  · exact sound object member

/-- Creating an object under a new identifier succeeds, because a hash that is
taken would have been found under its identifier. -/
theorem createTransactionObject_fresh (sound : env.IndexSound transactions)
    (labelled : env.Labelled object) (fresh : ∀ other ∈ transactions, other.trxId ≠ object.trxId) :
    createTransactionObject object transactions = transactions ++ [object] := by
  apply if_neg
  simp only [List.any_eq_true, Bool.or_eq_true, decide_eq_true_eq, not_exists, not_and, not_or]
  intro other member
  refine ⟨fresh other member, ?_⟩
  intro sameHash
  apply fresh other member
  rw [(sound other member).id, sameHash, labelled.id]

theorem recordTransaction_known (sound : env.IndexSound transactions)
    (checked : skip.skips skipTransactionDupeCheck = false)
    (fresh : ∀ other ∈ transactions, other.trxId ≠ env.trxId trx.toTransaction) :
    ∃ object ∈ recordTransaction env skip trx transactions,
      object.trxId = env.trxId trx.toTransaction := by
  have recorded : recordTransaction env skip trx transactions = createTransactionObject
        { trxHash := env.digest trx.toTransaction
          trxId := env.trxId trx.toTransaction
          trx := trx } transactions := by
    simp [recordTransaction, checked]
  rw [recorded, createTransactionObject_fresh sound ⟨rfl, rfl⟩ fresh]
  exact ⟨_, List.mem_append_right _ List.mem_cons_self, rfl⟩

end Index

section Step

variable [LinearOrder Key] [DecidableEq Hash] {trx : ProcessedTransaction Key}

theorem applyTransaction_keeps_barred
    (accepted : env.applyTransaction nodeSkip mode onlyTryPermissions position
      trx state = .ok applied)
    (barred : env.Barred other state) : env.Barred other applied.state := by
  obtain ⟨_, _, admits, frame⟩ := applyTransaction_frame accepted
  rw [frame, admits.written]
  rcases barred with known | expired
  · left
    rw [isKnownTransaction_iff] at known ⊢
    obtain ⟨object, member, same⟩ := known
    exact ⟨object, subset_recordTransaction _ member, same⟩
  · exact .inr expired

theorem applyTransaction_keeps_sound
    (accepted : env.applyTransaction nodeSkip mode onlyTryPermissions position
      trx state = .ok applied) (sound : env.IndexSound state.transactions) :
    env.IndexSound applied.state.transactions := by
  obtain ⟨_, _, admits, frame⟩ := applyTransaction_frame accepted
  rw [frame, admits.written]
  exact recordTransaction_sound sound

omit [DecidableEq Id] [LinearOrder Key] [DecidableEq Hash] in
theorem ordinary_iff : trx.ordinary = true ↔ trx.agreedTask = none ∧ trx.sharesFee = false := by
  simp [ProcessedTransaction.ordinary]

theorem Admits.unknown
    (admits : env.Admits skip mode position trx.toSignedTransaction state authorization admitted)
    (checked : skip.skips skipTransactionDupeCheck = false) (notShared : trx.sharesFee = false) :
    isKnownTransaction (env.trxId trx.toTransaction) state = false := by
  have passed := admits.prechecked
  simp only [precheck, bind_eq_ok, ensure_eq_ok] at passed
  obtain ⟨_, _, _, _, fresh⟩ := passed
  simpa [notShared, checked] using fresh

theorem applyTransaction_bars (checked : nodeSkip.skips skipTransactionDupeCheck = false)
    (isOrdinary : trx.ordinary = true) (sound : env.IndexSound state.transactions)
    (accepted : env.applyTransaction nodeSkip mode onlyTryPermissions position
      trx state = .ok applied) : env.Barred trx applied.state := by
  obtain ⟨_, notShared⟩ := ordinary_iff.mp isOrdinary
  obtain ⟨_, _, admits, frame⟩ := applyTransaction_frame accepted
  rw [effectiveSkip, notShared, Bool.false_and, if_neg Bool.false_ne_true] at admits
  have unknown := admits.unknown checked notShared
  left
  rw [frame, admits.written, isKnownTransaction_iff]
  apply recordTransaction_known sound checked
  intro object member same
  rw [isKnownTransaction_iff.mpr ⟨object, member, same⟩] at unknown
  cases unknown

theorem Barred.refuses (collisionFree : env.CollisionFree) (barred : env.Barred other state)
    (checked : nodeSkip.skips skipTransactionDupeCheck = false) (isOrdinary : trx.ordinary = true)
    (accepted : env.applyTransaction nodeSkip mode onlyTryPermissions position
      trx state = .ok applied) : env.trxId other.toTransaction ≠ env.trxId trx.toTransaction := by
  intro same
  obtain ⟨own, notShared⟩ := ordinary_iff.mp isOrdinary
  obtain ⟨_, _, admits, _⟩ := applyTransaction_frame accepted
  rw [effectiveSkip, notShared, Bool.false_and, if_neg Bool.false_ne_true] at admits
  rcases barred with known | expired
  · rw [same, admits.unknown checked notShared] at known
    cases known
  · rw [collisionFree same] at expired
    exact expired.refuses own admits.timely

end Step

end Environment

namespace BlockEnvironment

variable [LinearOrder Key] [DecidableEq Hash] [DecidableEq Id]

/-- The transactions applied so far have different identifiers, and those that
are ordinary are barred. -/
structure Barring (env : BlockEnvironment Key Hash Id ρ) (past : List (ProcessedTransaction Key))
    (state : ChainState Key Hash Id ρ) : Prop where
  sound : env.IndexSound state.transactions
  barred : ∀ trx ∈ past, trx.ordinary = true → env.Barred trx state
  distinct : (past.filter (·.ordinary)).Pairwise fun first second =>
    env.trxId first.toTransaction ≠ env.trxId second.toTransaction

variable {env : BlockEnvironment Key Hash Id ρ}

theorem Barring.transaction (collisionFree : env.CollisionFree)
    (checked : skip.skips skipTransactionDupeCheck = false) (barring : env.Barring past state)
    (accepted : env.applyTransaction skip mode onlyTryPermissions position trx
      state = .ok applied) :
    env.Barring (past ++ [trx]) applied.state where
  sound := applyTransaction_keeps_sound accepted barring.sound
  barred := by
    intro other member isOrdinary
    rcases List.mem_append.mp member with member | member
    · exact applyTransaction_keeps_barred accepted (barring.barred other member isOrdinary)
    · cases List.mem_singleton.mp member
      exact applyTransaction_bars checked isOrdinary barring.sound accepted
  distinct := by
    rw [List.filter_append, List.pairwise_append]
    refine ⟨barring.distinct, ?_, ?_⟩
    · cases isOrdinary : trx.ordinary with
      | false => simp [isOrdinary]
      | true => simp [isOrdinary]
    · intro other member last isLast
      obtain ⟨member, otherOrdinary⟩ := List.mem_filter.mp member
      obtain ⟨isLast, isOrdinary⟩ := List.mem_filter.mp isLast
      cases List.mem_singleton.mp isLast
      exact (barring.barred other member otherOrdinary).refuses collisionFree
        checked isOrdinary accepted

omit [LinearOrder Key] [DecidableEq Hash] in
/-- What is removed from the index has expired by the new head. -/
theorem Barring.finish (collisionFree : env.CollisionFree)
    (later : state.headBlockTime < block.timestamp) (barring : env.Barring past state)
    (accepted : env.finishBlock skip block state = .ok next) : env.Barring past next := by
  obtain ⟨_, _, same⟩ := finishBlock_eq_ok.mp accepted
  have cleared : next.transactions =
      clearExpiredTransactions block.timestamp state.transactions := by
    rw [same]
  have number : 0 < next.headBlockNum := by
    rw [same]
    exact Nat.succ_pos _
  have time : next.headBlockTime = block.timestamp := by
    rw [same]
  refine ⟨?_, ?_, barring.distinct⟩
  · intro object member
    rw [cleared] at member
    exact barring.sound object (List.mem_filter.mp member).1
  · intro trx member isOrdinary
    rcases barring.barred trx member isOrdinary with known | expired
    · obtain ⟨object, indexed, isTrx⟩ :=
        isKnownTransaction_iff.mp known
      have labelled := barring.sound object indexed
      have isSame : object.trx.toTransaction = trx.toTransaction := by
        apply collisionFree
        rw [← isTrx, labelled.id, labelled.hash]
        rfl
      by_cases stays : block.timestamp ≤ object.trx.expiration
      · left
        rw [isKnownTransaction_iff, cleared]
        exact ⟨object, List.mem_filter.mpr ⟨indexed, by simpa using stays⟩, isTrx⟩
      · right
        rw [isSame] at stays
        exact ⟨number, by omega⟩
    · right
      exact ⟨number, by rw [time]; exact expired.2.trans later⟩

theorem keeps_barring (collisionFree : env.CollisionFree)
    (checked : skip.skips skipTransactionDupeCheck = false) :
    env.Keeps skip (fun _ _ => true) env.Barring where
  transaction barring _ accepted :=
    barring.transaction collisionFree (by rw [skips_or, checked]; rfl) accepted
  finish barring later finished := barring.finish collisionFree later finished

/-- At any moment of a chain, between blocks or between the transactions of
one, no two ordinary transactions that have been applied have the same
identifier; each of them is in the index until the head time has passed its
expiration, and the expiration check refuses it from the moment it is not. -/
theorem no_replay (collisionFree : env.CollisionFree)
    (checked : skip.skips skipTransactionDupeCheck = false)
    {start middle now : ChainState Key Hash Id ρ} (genesis : start.transactions = [])
    {blocks : List (ProcessedBlock Key Hash)}
    (chain : env.applyBlocks skip blocks start = .ok middle) {blockNum : Nat}
    {trxs : List (ProcessedTransaction Key)}
    (going : env.applyTransactions skip blockNum 0 trxs middle = .ok now) :
    ((blocks.flatMap (·.transactions) ++ trxs).filter (·.ordinary)).Pairwise (fun first second =>
      env.trxId first.toTransaction ≠ env.trxId second.toTransaction) ∧
    ∀ trx ∈ blocks.flatMap (·.transactions) ++ trxs, trx.ordinary = true →
      (now.headBlockTime ≤ trx.expiration →
        isKnownTransaction (env.trxId trx.toTransaction) now = true) ∧
      (isKnownTransaction (env.trxId trx.toTransaction) now = false →
        ∀ flags parameters, checkTimes flags trx.toSignedTransaction parameters now ≠ .ok ()) := by
  have initial : env.Barring [] start := by
    refine ⟨?_, nofun, List.Pairwise.nil⟩
    rw [genesis]
    exact nofun
  have keeps := keeps_barring collisionFree checked
  have barring := keeps.transactions _ (keeps.blocks [] initial blocksMeet_true chain)
    transactionsMeet_true going
  rw [List.nil_append] at barring
  refine ⟨barring.distinct, ?_⟩
  intro trx member isOrdinary
  constructor
  · intro alive
    rcases barring.barred trx member isOrdinary with known | expired
    · exact known
    · exact absurd expired.2 (Nat.not_lt_of_le alive)
  · intro unknown flags parameters
    rcases barring.barred trx member isOrdinary with known | expired
    · rw [known] at unknown
      cases unknown
    · exact expired.refuses (ordinary_iff.mp isOrdinary).1

def plainTransfer (expiration : Nat) : ProcessedTransaction Nat where
  refBlockNum := 0
  refBlockPrefix := 0
  expiration := expiration
  operations := [.transfer 7 []]
  extensions := []
  agreedTask := none
  signatures := []
  operationResults := [⟨.void, 0⟩]

def plainHash : Transaction Nat := (plainTransfer 0).toTransaction

/-- Transactions are their own hashes, operations do nothing, and every header
is valid. -/
def plain : BlockEnvironment Nat (Transaction Nat) (Transaction Nat) Unit where
  headerHash _ := plainHash
  digest trx := trx
  transactionId hash := hash
  packSize _ := 1
  opMaxsizeProportionPercent := none
  operationValidate _ := true
  getSignatureKeys _ := some []
  reread cells _ := cells
  evaluate _ _ world := .ok (⟨.void, 0⟩, world)
  merkleValid _ := true
  witnessExists _ _ := true
  signeeValid _ _ := true
  witnessScheduled _ _ _ := true
  undoHistoryFits _ _ := true
  upkeep _ world := some world
  summaryPrefix _ := 0

def plainGenesis : ChainState Nat (Transaction Nat) (Transaction Nat) Unit where
  headBlockNum := 0
  headBlockId := ⟨0, plainHash⟩
  headBlockTime := 0
  blockSummaries := fun _ => 0
  transactions := []
  transactionInfos := []
  world := .numbered ()

def plainBlock (number timestamp : Nat) (transactions : List (ProcessedTransaction Nat)) :
    ProcessedBlock Nat (Transaction Nat) where
  blockId := ⟨number, plainHash⟩
  previous := ⟨number - 1, plainHash⟩
  timestamp := timestamp
  witness := 0
  transactions := transactions

theorem no_replay_two_blocks : ∃ middle now, plain.applyBlocks skipNothing
      [plainBlock 1 10 [plainTransfer 9, plainTransfer 20]] plainGenesis = .ok middle ∧
    plain.applyTransactions skipNothing 2 0 [plainTransfer 30] middle = .ok now ∧
    isKnownTransaction (plainTransfer 20).toTransaction now =
      true := by
  have chain : ∃ middle, plain.applyBlocks skipNothing
      [plainBlock 1 10 [plainTransfer 9, plainTransfer 20]] plainGenesis = .ok middle := ⟨_, rfl⟩
  obtain ⟨middle, chain⟩ := chain
  have going : ∃ now, plain.applyTransactions skipNothing 2 0
      [plainTransfer 30] middle = .ok now := by
    cases chain
    exact ⟨_, rfl⟩
  obtain ⟨now, going⟩ := going
  refine ⟨middle, now, chain, going, ?_⟩
  have collisionFree : plain.CollisionFree := fun _ _ same => same
  have guarded := no_replay collisionFree rfl rfl chain going
  apply (guarded.2 (plainTransfer 20) (by simp [plainBlock]) rfl).1
  cases chain
  cases going
  decide

end BlockEnvironment

end CocosChain.Chain

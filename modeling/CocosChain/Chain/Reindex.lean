import CocosChain.Chain.NoReplay

/-!
# Rebuilding the state from the stored blocks

`reindex` applies the blocks that a node has stored once more, from the genesis
state, with most checks skipped and, up to the last fifty blocks, without an
undo history.  One of the flags skips a change as well: with the duplicate
check, the recording of transactions is left out, except for those that start
with `contract_share_fee`.  Everything else comes out as it was.
-/

namespace CocosChain.Chain

open SkipFlags Environment

variable {Key Hash Id ρ : Type}

structure Node (Key Hash Id ρ : Type) where
  state : ChainState Key Hash Id ρ
  /-- The blocks on disk, in the order of their numbers. -/
  stored : List (ProcessedBlock Key Hash)
  undoEnabled : Bool

/-- Storing a block replaces the one of the same number. -/
def storeBlock (block : ProcessedBlock Key Hash) (stored : List (ProcessedBlock Key Hash)) :
    List (ProcessedBlock Key Hash) :=
  stored.filter (·.blockNum < block.blockNum) ++
    block :: stored.filter (block.blockNum < ·.blockNum)

/-- The flags of `reindex`. -/
def replayFlags : SkipFlags :=
  skipWitnessSignature ||| skipTransactionSignatures |||
    skipTransactionDupeCheck ||| skipTaposCheck |||
    skipWitnessScheduleCheck ||| skipAuthorityCheck

inductive PushBlockFault (Key : Type) where
  | badBlockId
  | refused (fault : BlockFault Key)

namespace BlockEnvironment

variable [LinearOrder Key] [DecidableEq Hash] [DecidableEq Id]
variable (env : BlockEnvironment Key Hash Id ρ)

def makeId (block : ProcessedBlock Key Hash) : BlockId Hash :=
  ⟨block.blockNum, env.headerHash block⟩

/-- `_push_block` of a block that extends the head. -/
def pushBlock (skip : SkipFlags) (block : ProcessedBlock Key Hash) (node : Node Key Hash Id ρ) :
    Except (PushBlockFault Key) (Node Key Hash Id ρ) := do
  ensure (block.blockId = env.makeId block) .badBlockId
  let state ← (env.applyBlock skip block node.state).mapError .refused
  pure
    { node with
      state := state
      stored := storeBlock block node.stored }

def pushBlocks (skip : SkipFlags) : List (ProcessedBlock Key Hash) → Node Key Hash Id ρ →
      Except (PushBlockFault Key) (Node Key Hash Id ρ)
  | [], node => .ok node
  | block :: blocks, node => do
      let node ← env.pushBlock skip block node
      pushBlocks skip blocks node

end BlockEnvironment

def Node.fetchByNumber (number : Nat) (node : Node Key Hash Id ρ) :
    Option (ProcessedBlock Key Hash) :=
  node.stored.find? (·.blockNum = number)

namespace BlockEnvironment

variable [LinearOrder Key] [DecidableEq Hash] [DecidableEq Id]
variable (env : BlockEnvironment Key Hash Id ρ)

/-- The loop of `reindex`, which ends at the first block that is missing. -/
def replay (undoPoint : Nat) : (remaining number : Nat) →
    Node Key Hash Id ρ → Except (PushBlockFault Key) (Node Key Hash Id ρ)
  | 0, _, node => .ok node
  | remaining + 1, number, node =>
      match node.fetchByNumber number with
      | none =>
          .ok { node with
            stored := node.stored.filter (·.blockNum ≤ number) }
      | some block => do
          let node ← if number < undoPoint then do
              let state ← (env.applyBlock replayFlags block node.state).mapError .refused
              pure { node with state := state }
            else
              env.pushBlock replayFlags block { node with undoEnabled := true }
          replay undoPoint remaining (number + 1) node

def reindex (node : Node Key Hash Id ρ) : Except (PushBlockFault Key) (Node Key Hash Id ρ) :=
  match node.stored.getLast? with
  | none => .ok node
  | some last =>
      if last.blockNum ≤ node.state.headBlockNum then .ok node
      else do
        let undoPoint := if last.blockNum < 50 then 0 else last.blockNum - 50
        let node ← env.replay undoPoint (last.blockNum - node.state.headBlockNum)
          (node.state.headBlockNum + 1)
          { node with
            undoEnabled := node.undoEnabled &&
              undoPoint ≤ node.state.headBlockNum }
        pure { node with undoEnabled := true }

/-- The states agree but for the transactions that replaying leaves out. -/
def Replayed (live rebuilt : ChainState Key Hash Id ρ) : Prop :=
  rebuilt = { live with
    transactions := live.transactions.filter (·.trx.sharesFee) }

variable {env} {rebuilt : ChainState Key Hash Id ρ}

omit [LinearOrder Key] in
theorem filter_createTransactionObject (collisionFree : env.CollisionFree)
    (sound : env.IndexSound transactions) (labelled : env.Labelled object)
    (shared : object.trx.sharesFee = true) :
    (createTransactionObject object transactions).filter (·.trx.sharesFee) =
      createTransactionObject object (transactions.filter (·.trx.sharesFee)) := by
  by_cases taken : ∃ other ∈ transactions, other.trxId = object.trxId
  · obtain ⟨other, member, same⟩ := taken
    have isSame : other.trx.toTransaction = object.trx.toTransaction := by
      apply collisionFree
      have otherLabelled := sound other member
      rw [otherLabelled.id, labelled.id, otherLabelled.hash, labelled.hash] at same
      exact same
    have otherShared : other.trx.sharesFee = true := by
      rw [isSame]
      exact shared
    have clash : (fun candidate : TransactionObject Key Hash Id =>
        candidate.trxId = object.trxId ||
          candidate.trxHash = object.trxHash) other = true := by
      simp [same]
    unfold createTransactionObject
    rw [if_pos (List.any_eq_true.mpr ⟨other, member, clash⟩), if_pos (List.any_eq_true.mpr
        ⟨other, List.mem_filter.mpr ⟨member, otherShared⟩, clash⟩)]
  · have fresh : ∀ other ∈ transactions, other.trxId ≠ object.trxId := by
      intro other member same
      exact taken ⟨other, member, same⟩
    have kept : env.IndexSound (transactions.filter (·.trx.sharesFee)) :=
      fun other member => sound other (List.mem_filter.mp member).1
    have alone : [object].filter (·.trx.sharesFee) = [object] := by
      simp [shared]
    rw [createTransactionObject_fresh sound labelled fresh,
      createTransactionObject_fresh kept labelled
        (fun other member => fresh other (List.mem_filter.mp member).1),
      List.filter_append, alone]

/-- The flags under which the transactions of a block are applied: live, and
while replaying. -/
def liveSkip : SkipFlags := skipNothing ||| skipAuthorityCheck

def replaySkip : SkipFlags := replayFlags ||| skipAuthorityCheck

omit [LinearOrder Key] [DecidableEq Hash] [DecidableEq Id] in
theorem effectiveSkip_sharesFee (shared : trx.sharesFee = true) :
    effectiveSkip liveSkip trx = shareFlag ∧ effectiveSkip replaySkip trx = shareFlag := by
  constructor
  · rw [effectiveSkip, shared]
    rfl
  · rw [effectiveSkip, shared]
    rfl

omit [LinearOrder Key] [DecidableEq Hash] in
theorem precheck_replayed (replayed : Replayed live rebuilt)
    (passed : env.precheck (effectiveSkip liveSkip trx.toTransaction) trx live = .ok ()) :
    env.precheck (effectiveSkip replaySkip trx.toTransaction) trx rebuilt = .ok () := by
  simp only [precheck, bind_eq_ok, ensure_eq_ok] at passed ⊢
  obtain ⟨_, small, _, valid, _⟩ := passed
  refine ⟨(), ?_, (), ?_, ?_⟩
  · rw [replayed]
    exact small
  · cases shared : trx.sharesFee with
    | true =>
      rw [(effectiveSkip_sharesFee shared).1] at valid
      rw [(effectiveSkip_sharesFee shared).2]
      exact valid
    | false =>
      simp only [effectiveSkip, shared] at valid ⊢
      exact valid
  · cases shared : trx.sharesFee with
    | true => rfl
    | false =>
      simp only [effectiveSkip, shared]
      rfl

omit [DecidableEq Id] in
theorem authorize_replayed :
    env.authorize (effectiveSkip replaySkip trx.toTransaction) now trx world =
      env.authorize (effectiveSkip liveSkip trx.toTransaction) now trx
        world := by
  cases shared : trx.sharesFee with
  | true =>
    rw [(effectiveSkip_sharesFee shared).1, (effectiveSkip_sharesFee shared).2]
  | false =>
    simp only [effectiveSkip, shared]
    rfl

omit [LinearOrder Key] [DecidableEq Hash] [DecidableEq Id] in
theorem checkTimes_replayed (replayed : Replayed live rebuilt)
    (timely : checkTimes (effectiveSkip liveSkip trx.toTransaction) trx parameters live = .ok ()) :
    checkTimes (effectiveSkip replaySkip trx.toTransaction) trx parameters rebuilt = .ok () := by
  rw [replayed]
  unfold checkTimes at timely ⊢
  split at timely
  · rename_i active
    rw [if_pos active]
    simp only [bind_eq_ok, ensure_eq_ok] at timely ⊢
    obtain ⟨_, _, _, soon, alive⟩ := timely
    refine ⟨(), ?_, (), soon, alive⟩
    cases shared : trx.sharesFee with
    | true =>
      rw [(effectiveSkip_sharesFee shared).2]
      rfl
    | false =>
      simp only [effectiveSkip, shared]
      rfl
  · rename_i inactive
    rw [if_neg inactive]
    rfl

omit [LinearOrder Key] in
theorem recordTransaction_replayed (collisionFree : env.CollisionFree)
    (sound : env.IndexSound transactions) :
    recordTransaction env.toEnvironment (effectiveSkip replaySkip trx.toTransaction) trx
        (transactions.filter (·.trx.sharesFee)) =
      (recordTransaction env.toEnvironment
        (effectiveSkip liveSkip trx.toTransaction) trx transactions).filter (·.trx.sharesFee) := by
  cases shared : trx.sharesFee with
  | true =>
    have created : ∀ skip (index : List (TransactionObject Key Hash Id)),
        recordTransaction env.toEnvironment skip trx index = createTransactionObject
            { trxHash := env.digest trx.toTransaction
              trxId := env.trxId trx.toTransaction
              trx := trx } index := by
      intro skip index
      simp [recordTransaction, shared]
    rw [created, created]
    exact (filter_createTransactionObject collisionFree sound ⟨rfl, rfl⟩ shared).symm
  | false =>
    have skipped : recordTransaction env.toEnvironment
        (effectiveSkip replaySkip trx.toTransaction) trx
        (transactions.filter (·.trx.sharesFee)) = transactions.filter (·.trx.sharesFee) := by
      rw [effectiveSkip, recordTransaction, shared]
      rfl
    rw [skipped]
    unfold recordTransaction createTransactionObject
    split
    · split
      · rfl
      · simp [shared]
    · rfl

theorem Admits.replayed (collisionFree : env.CollisionFree)
    (sound : env.IndexSound live.transactions) (replayed : Replayed live rebuilt)
    (admits : env.Admits (effectiveSkip liveSkip trx.toTransaction) mode
      position trx live authorization admitted) :
    ∃ readmitted, env.Admits (effectiveSkip replaySkip trx.toTransaction) mode
        position trx rebuilt authorization readmitted ∧
      Replayed admitted readmitted := by
  obtain ⟨prechecked, authorized, timely, recorded, written⟩ := admits
  refine ⟨{ admitted with
    transactions := admitted.transactions.filter (·.trx.sharesFee) },
    ⟨precheck_replayed replayed prechecked, ?_, ?_, ?_, ?_⟩, rfl⟩
  · rw [authorize_replayed, replayed]
    exact authorized
  · have again := checkTimes_replayed replayed timely
    rw [replayed] at again ⊢
    exact again
  · rw [replayed]
    exact recorded
  · generalize admitted.transactionInfos = infos at written
    rw [replayed, written, recordTransaction_replayed collisionFree sound]

section

omit [LinearOrder Key] [DecidableEq Hash] [DecidableEq Id]

theorem evaluationContext_replayed (replayed : Replayed live rebuilt) : evaluationContext replaySkip
        (effectiveSkip replaySkip trx.toTransaction) mode trx sigkeys
        rebuilt =
      evaluationContext liveSkip
        (effectiveSkip liveSkip trx.toTransaction) mode trx sigkeys live := by
  rw [replayed]
  cases shared : trx.sharesFee with
  | true =>
    rw [(effectiveSkip_sharesFee shared).1, (effectiveSkip_sharesFee shared).2]
    rfl
  | false =>
    simp only [effectiveSkip, shared]
    rfl

theorem evaluateOperations_replayed (replayed : Replayed live rebuilt)
    (accepted : env.evaluateOperations context crontab live = .ok applied) :
    ∃ reapplied, env.evaluateOperations context crontab rebuilt = .ok reapplied ∧
        Replayed applied.state reapplied.state := by
  obtain ⟨loop, ran, rfl⟩ := evaluateOperations_eq_ok.mp accepted
  refine ⟨_, evaluateOperations_eq_ok.mpr ⟨loop, ?_, rfl⟩, ?_⟩
  · rw [replayed]
    exact ran
  · rw [replayed]
    rfl

end

theorem applyTransaction_replayed (collisionFree : env.CollisionFree)
    (sound : env.IndexSound live.transactions) (replayed : Replayed live rebuilt)
    (accepted : env.applyTransaction liveSkip mode false position trx live = .ok applied) :
    ∃ reapplied, env.applyTransaction replaySkip mode false position trx rebuilt = .ok reapplied ∧
      Replayed applied.state reapplied.state := by
  obtain ⟨authorization, _, admits, evaluated⟩ :=
    applyTransaction_eq_ok.mp accepted
  obtain ⟨readmitted, readmits, samePart⟩ := Admits.replayed collisionFree sound replayed admits
  obtain ⟨reapplied, reevaluated, same⟩ := evaluateOperations_replayed samePart evaluated
  refine ⟨reapplied, applyTransaction_eq_ok.mpr
    ⟨authorization, readmitted, readmits, ?_⟩, same⟩
  rw [evaluationContext_replayed replayed]
  exact reevaluated

theorem applyTransactions_replayed (collisionFree : env.CollisionFree)
    {applied : ChainState Key Hash Id ρ} (sound : env.IndexSound live.transactions)
    (replayed : Replayed live rebuilt) (accepted : env.applyTransactions skipNothing blockNum
      trxInBlock trxs live = .ok applied) :
    ∃ reapplied, env.applyTransactions replayFlags blockNum trxInBlock trxs
        rebuilt = .ok reapplied ∧
      Replayed applied reapplied ∧ env.IndexSound applied.transactions := by
  induction trxs generalizing trxInBlock live rebuilt with
  | nil =>
    cases accepted
    exact ⟨rebuilt, rfl, replayed, sound⟩
  | cons trx trxs induction =>
    obtain ⟨results, _, accepted, rest⟩ := applyTransactions_cons_eq_ok.mp accepted
    obtain ⟨refirst, reaccepted, same⟩ :=
      applyTransaction_replayed collisionFree sound replayed accepted
    obtain ⟨reapplied, again, final⟩ := induction
      (applyTransaction_keeps_sound accepted sound) same rest
    exact ⟨reapplied, applyTransactions_cons_eq_ok.mpr ⟨results, refirst, reaccepted, again⟩, final⟩

omit [LinearOrder Key] [DecidableEq Id] in
theorem validateBlockHeader_replayed (replayed : Replayed live rebuilt)
    (valid : env.validateBlockHeader skipNothing block live = .ok ()) :
    env.validateBlockHeader replayFlags block rebuilt = .ok () := by
  rw [replayed]
  simp only [validateBlockHeader, bind_eq_ok, ensure_eq_ok] at valid ⊢
  obtain ⟨_, onHead, _, later, _, known, _⟩ := valid
  exact ⟨(), onHead, (), later, (), known, (), rfl, rfl⟩

omit [LinearOrder Key] [DecidableEq Hash] [DecidableEq Id] in
theorem finishBlock_replayed (replayed : Replayed live rebuilt)
    (accepted : env.finishBlock skipNothing block live = .ok next) :
    ∃ renext, env.finishBlock replayFlags block rebuilt = .ok renext ∧ Replayed next renext := by
  obtain ⟨fits, kept, same⟩ := finishBlock_eq_ok.mp accepted
  refine ⟨{ next with
    transactions := next.transactions.filter (·.trx.sharesFee) },
    finishBlock_eq_ok.mpr ⟨?_, ?_, ?_⟩, rfl⟩
  · rw [replayed]
    exact fits
  · rw [replayed]
    exact kept
  · generalize next.world = world at same
    rw [replayed, same]
    simp only [clearExpiredTransactions, List.filter_filter, Bool.and_comm]

theorem applyBlock_replayed (collisionFree : env.CollisionFree)
    (sound : env.IndexSound live.transactions) (replayed : Replayed live rebuilt)
    (accepted : env.applyBlock skipNothing block live = .ok next) :
    ∃ renext, env.applyBlock replayFlags block rebuilt = .ok renext ∧
      Replayed next renext ∧ env.IndexSound next.transactions := by
  obtain ⟨merkle, valid, _, accepted, finished⟩ := applyBlock_eq_ok.mp accepted
  obtain ⟨reapplied, reaccepted, same, soundLater⟩ :=
    applyTransactions_replayed collisionFree sound replayed accepted
  obtain ⟨renext, refinished, final⟩ := finishBlock_replayed same finished
  refine ⟨renext, applyBlock_eq_ok.mpr ⟨merkle,
    validateBlockHeader_replayed replayed valid, reapplied, reaccepted,
    refinished⟩, final, ?_⟩
  obtain ⟨_, _, cleared⟩ := finishBlock_eq_ok.mp finished
  rw [cleared]
  intro object member
  exact soundLater object (List.mem_filter.mp member).1

end BlockEnvironment

/-- The numbers of the blocks go on from `number`. -/
def Consecutive : Nat → List (ProcessedBlock Key Hash) → Prop
  | _, [] => True
  | number, block :: blocks =>
      block.blockNum = number + 1 ∧ Consecutive (number + 1) blocks

theorem filter_below {stored : List (ProcessedBlock Key Hash)}
    (below : ∀ other ∈ stored, other.blockNum < number) :
    stored.filter (·.blockNum < number) = stored ∧ stored.filter (number < ·.blockNum) = [] := by
  constructor
  · exact List.filter_eq_self.mpr fun other member => by simpa using below other member
  · exact List.filter_eq_nil_iff.mpr fun other member => by simpa using (below other member).le

namespace Consecutive

variable {block : ProcessedBlock Key Hash} {done blocks : List (ProcessedBlock Key Hash)}

theorem split (consecutive : Consecutive number (done ++ blocks)) :
    (∀ other ∈ done, other.blockNum ≤ number + done.length) ∧
      Consecutive (number + done.length) blocks := by
  induction done generalizing number with
  | nil => exact ⟨nofun, consecutive⟩
  | cons first done induction =>
    obtain ⟨_, rest⟩ := consecutive
    obtain ⟨low, later⟩ := induction rest
    rw [List.length_cons, Nat.add_comm done.length 1, ← Nat.add_assoc]
    refine ⟨?_, later⟩
    intro other member
    rcases List.mem_cons.mp member with rfl | member
    · omega
    · exact low other member

theorem lower (consecutive : Consecutive number blocks) :
    ∀ other ∈ blocks, number < other.blockNum := by
  induction blocks generalizing number with
  | nil => exact nofun
  | cons first blocks induction =>
    obtain ⟨_, rest⟩ := consecutive
    intro other member
    rcases List.mem_cons.mp member with rfl | member
    · omega
    · exact Nat.lt_of_succ_lt (induction rest other member)

theorem append (first : Consecutive number done)
    (second : Consecutive (number + done.length) blocks) : Consecutive number (done ++ blocks) := by
  induction done generalizing number with
  | nil => exact second
  | cons block done induction =>
    obtain ⟨isNext, rest⟩ := first
    rw [List.length_cons, Nat.add_comm done.length 1, ← Nat.add_assoc] at second
    exact ⟨isNext, induction rest second⟩

variable (consecutive : Consecutive 0 (done ++ block :: blocks))
include consecutive

theorem around : block.blockNum = done.length + 1 ∧
      (∀ other ∈ done, other.blockNum < block.blockNum) ∧
      ∀ other ∈ blocks, block.blockNum < other.blockNum := by
  obtain ⟨low, isNext, rest⟩ := consecutive.split
  rw [Nat.zero_add] at low isNext rest
  refine ⟨isNext, ?_, ?_⟩
  · intro other member
    have bound := low other member
    omega
  · intro other member
    have bound := rest.lower other member
    omega

theorem find : (done ++ block :: blocks).find? (·.blockNum = done.length + 1) = some block := by
  obtain ⟨isNext, below, _⟩ := consecutive.around
  have absent : done.find? (·.blockNum = done.length + 1) = none := by
    rw [List.find?_eq_none]
    intro other member
    have lower := below other member
    simp only [decide_eq_true_eq]
    omega
  rw [List.find?_append, absent, Option.none_or]
  exact List.find?_cons_of_pos (by simpa using isNext)

theorem store : storeBlock block (done ++ block :: blocks) = done ++ block :: blocks := by
  obtain ⟨_, below, above⟩ := consecutive.around
  unfold storeBlock
  rw [List.filter_append, List.filter_append, List.filter_cons, List.filter_cons]
  have laterDropped : blocks.filter (·.blockNum < block.blockNum) = [] :=
    List.filter_eq_nil_iff.mpr fun other member => by
      simpa using (above other member).le
  have laterKept : blocks.filter (block.blockNum < ·.blockNum) = blocks :=
    List.filter_eq_self.mpr fun other member => by
      simpa using above other member
  simp [filter_below below, laterDropped, laterKept]

end Consecutive

namespace BlockEnvironment

variable [LinearOrder Key] [DecidableEq Hash] [DecidableEq Id]
variable {env : BlockEnvironment Key Hash Id ρ}

theorem pushBlock_eq_ok : env.pushBlock skip block node = .ok next ↔
      block.blockId = env.makeId block ∧ env.applyBlock skip block node.state = .ok next.state ∧
        next = { node with
          state := next.state
          stored := storeBlock block node.stored } := by
  simp only [pushBlock, bind_eq_ok, ensure_eq_ok, mapError_eq_ok, pure_eq_ok,
    decide_eq_true_eq, exists_and_left, exists_const]
  constructor
  · rintro ⟨identified, state, applied, rfl⟩
    exact ⟨identified, applied, rfl⟩
  · rintro ⟨identified, applied, same⟩
    exact ⟨identified, next.state, applied, same.symm⟩

theorem applyBlock_moves {next : ChainState Key Hash Id ρ}
    (accepted : env.applyBlock skip block state = .ok next) :
    block.blockNum = state.headBlockId.number + 1 ∧ next.headBlockId = block.blockId := by
  obtain ⟨_, valid, _, _, finished⟩ := applyBlock_eq_ok.mp accepted
  obtain ⟨_, _, same⟩ := finishBlock_eq_ok.mp finished
  constructor
  · simp only [validateBlockHeader, bind_eq_ok, ensure_eq_ok, decide_eq_true_eq] at valid
    obtain ⟨_, onHead, _⟩ := valid
    rw [ProcessedBlock.blockNum, onHead]
  · rw [same]

theorem pushBlocks_stored (consecutive : Consecutive 0 done)
    (head : node.state.headBlockId.number = done.length) (onDisk : node.stored = done)
    (accepted : env.pushBlocks skip blocks node = .ok next) :
    env.applyBlocks skip blocks node.state = .ok next.state ∧ Consecutive 0 (done ++ blocks) ∧
      (∀ block ∈ blocks, block.blockId = env.makeId block) ∧
      next.stored = done ++ blocks := by
  induction blocks generalizing done node with
  | nil =>
    cases accepted
    rw [List.append_nil]
    exact ⟨rfl, consecutive, nofun, onDisk⟩
  | cons block blocks induction =>
    simp only [pushBlocks, bind_eq_ok] at accepted
    obtain ⟨middle, first, rest⟩ := accepted
    obtain ⟨identified, applied, same⟩ := pushBlock_eq_ok.mp first
    obtain ⟨number, moved⟩ := applyBlock_moves applied
    rw [head] at number
    have extended : Consecutive 0 (done ++ [block]) := by
      apply consecutive.append
      rw [Nat.zero_add]
      exact ⟨number, trivial⟩
    have stored : middle.stored = done ++ [block] := by
      have below := filter_below extended.around.2.1
      rw [same, onDisk, storeBlock, below.1, below.2]
    have nextHead : middle.state.headBlockId.number = (done ++ [block]).length := by
      rw [moved, identified, List.length_append]
      exact number
    obtain ⟨later, consecutiveLater, identifiedLater, storedLater⟩ :=
      induction extended nextHead stored rest
    rw [List.append_assoc] at consecutiveLater storedLater
    refine ⟨applyBlocks_cons_eq_ok.mpr ⟨middle.state, applied, later⟩,
      consecutiveLater, ?_, storedLater⟩
    intro other member
    rcases List.mem_cons.mp member with rfl | member
    · exact identified
    · exact identifiedLater other member

theorem replay_rebuilds (collisionFree : env.CollisionFree)
    (consecutive : Consecutive 0 (done ++ blocks))
    (identified : ∀ block ∈ blocks, block.blockId = env.makeId block)
    (onDisk : node.stored = done ++ blocks) (sound : env.IndexSound live.transactions)
    (replayed : Replayed live node.state)
    (accepted : env.applyBlocks skipNothing blocks live = .ok final) :
    ∃ rebuilt, env.replay undoPoint blocks.length (done.length + 1) node = .ok rebuilt ∧
      Replayed final rebuilt.state ∧ rebuilt.stored = done ++ blocks := by
  induction blocks generalizing done node live with
  | nil =>
    cases accepted
    exact ⟨node, rfl, replayed, onDisk⟩
  | cons block blocks induction =>
    obtain ⟨_, accepted, rest⟩ := applyBlocks_cons_eq_ok.mp accepted
    obtain ⟨remiddle, reaccepted, same, soundLater⟩ :=
      applyBlock_replayed collisionFree sound replayed accepted
    have fetched : node.fetchByNumber (done.length + 1) = some block := by
      rw [Node.fetchByNumber, onDisk]
      exact consecutive.find
    have split : done ++ block :: blocks = (done ++ [block]) ++ blocks := by
      rw [List.append_assoc, List.singleton_append]
    have continued : ∀ next : Node Key Hash Id ρ, next.state = remiddle →
        next.stored = done ++ block :: blocks →
        ∃ rebuilt, env.replay undoPoint blocks.length (done.length + 1 + 1) next = .ok rebuilt ∧
          Replayed final rebuilt.state ∧
          rebuilt.stored = done ++ block :: blocks := by
      intro next isState isStored
      rw [split] at isStored consecutive ⊢
      have later := induction consecutive
        (fun other member => identified other (List.mem_cons_of_mem _ member))
        isStored soundLater (by rw [isState]; exact same) rest
      rwa [List.length_append] at later
    rw [List.length_cons, replay, fetched]
    by_cases early : done.length + 1 < undoPoint
    · obtain ⟨rebuilt, ran, final⟩ := continued { node with state := remiddle } rfl onDisk
      refine ⟨rebuilt, ?_, final⟩
      simp only [if_pos early, reaccepted]
      exact ran
    · have pushed : env.pushBlock replayFlags block { node with undoEnabled := true } = .ok
            { state := remiddle
              stored := done ++ block :: blocks
              undoEnabled := true } := by
        apply pushBlock_eq_ok.mpr
        refine ⟨identified block List.mem_cons_self, reaccepted, ?_⟩
        rw [onDisk, consecutive.store]
      obtain ⟨rebuilt, ran, final⟩ := continued
        { state := remiddle
          stored := done ++ block :: blocks
          undoEnabled := true } rfl rfl
      refine ⟨rebuilt, ?_, final⟩
      simp only [if_neg early, pushed]
      exact ran

/-- A node that has just been opened, with these blocks on disk. -/
def opened (genesis : ChainState Key Hash Id ρ)
    (stored : List (ProcessedBlock Key Hash)) : Node Key Hash Id ρ where
  state := genesis
  stored := stored
  undoEnabled := true

/-- Replaying the blocks that a node has accepted one by one rebuilds its
state, except that of the transactions it knew only those are known that start
with `contract_share_fee`. -/
theorem reindex_rebuilds (collisionFree : env.CollisionFree) {genesis : ChainState Key Hash Id ρ}
    (headNum : genesis.headBlockNum = 0)
    (headId : genesis.headBlockId.number = 0)
    (unused : genesis.transactions = [])
    {blocks : List (ProcessedBlock Key Hash)} {node : Node Key Hash Id ρ}
    (accepted : env.pushBlocks skipNothing blocks (opened genesis []) = .ok node) :
    ∃ rebuilt, env.reindex (opened genesis node.stored) = .ok rebuilt ∧
      rebuilt.state = { node.state with
        transactions := node.state.transactions.filter (·.trx.sharesFee) } ∧
      rebuilt.stored = node.stored ∧ rebuilt.undoEnabled = true := by
  have none : Consecutive 0 ([] : List (ProcessedBlock Key Hash)) := trivial
  obtain ⟨applied, consecutive, identified, stored⟩ := pushBlocks_stored none headId rfl accepted
  rw [List.nil_append] at consecutive stored
  have sound : env.IndexSound genesis.transactions := by
    rw [unused]
    exact nofun
  have replayed : Replayed genesis genesis := by
    rw [Replayed, unused, List.filter_nil, ← unused]
  rcases List.eq_nil_or_concat' blocks with rfl | ⟨front, last, rfl⟩
  · cases accepted
    exact ⟨opened genesis [], rfl, replayed, rfl, rfl⟩
  · obtain ⟨number, _⟩ := consecutive.around
    have behind : ¬ last.blockNum ≤ genesis.headBlockNum := by omega
    have remaining : last.blockNum - genesis.headBlockNum = (front ++ [last]).length := by
      rw [List.length_append, number, headNum]
      rfl
    have again : ∀ undoPoint undoEnabled, ∃ rebuilt, env.replay undoPoint (front ++ [last]).length 1
          { state := genesis
            stored := front ++ [last]
            undoEnabled := undoEnabled } = .ok rebuilt ∧
        Replayed node.state rebuilt.state ∧
        rebuilt.stored = front ++ [last] := by
      intro undoPoint undoEnabled
      rw [← List.nil_append (front ++ [last])] at consecutive
      exact replay_rebuilds collisionFree consecutive identified rfl sound replayed applied
    have first : genesis.headBlockNum + 1 = 1 := by rw [headNum]
    simp only [reindex, opened, stored, List.getLast?_concat, if_neg behind,
      remaining, first, bind_eq_ok, pure_eq_ok]
    obtain ⟨rebuilt, ran, same, onDisk⟩ := again _ _
    exact ⟨_, ⟨rebuilt, ran, rfl⟩, same, onDisk, rfl⟩

/-- The duplicate check of a rebuilt node does not know a transaction that has
not expired. -/
theorem reindex_forgets_transaction : ∃ node rebuilt, plain.pushBlocks skipNothing
      [plainBlock 1 10 [plainTransfer 20]] (opened plainGenesis []) = .ok node ∧
    plain.reindex (opened plainGenesis node.stored) = .ok rebuilt ∧
    isKnownTransaction (plainTransfer 20).toTransaction node.state = true ∧
    isKnownTransaction (plainTransfer 20).toTransaction rebuilt.state = false :=
  ⟨_, _, rfl, rfl, rfl, rfl⟩

theorem reindex_rebuilds_two_blocks : ∃ node rebuilt, plain.pushBlocks skipNothing
      [plainBlock 1 10 [plainTransfer 20], plainBlock 2 13 []]
      (opened plainGenesis []) = .ok node ∧
    plain.reindex (opened plainGenesis node.stored) = .ok rebuilt ∧
    rebuilt.state.headBlockNum = 2 := by
  have accepted : ∃ node, plain.pushBlocks skipNothing
      [plainBlock 1 10 [plainTransfer 20], plainBlock 2 13 []]
      (opened plainGenesis []) = .ok node := ⟨_, rfl⟩
  obtain ⟨node, accepted⟩ := accepted
  have collisionFree : plain.CollisionFree := fun _ _ same => same
  obtain ⟨rebuilt, ran, same, _⟩ := reindex_rebuilds collisionFree rfl rfl rfl accepted
  refine ⟨node, rebuilt, accepted, ran, ?_⟩
  rw [same]
  cases accepted
  rfl

end BlockEnvironment

end CocosChain.Chain

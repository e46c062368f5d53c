import CocosChain.Chain.Database

/-!
# What applying a block does

Applying a block changes the objects by a function of the objects alone.  On
the way it opens and ends sessions, each of which may cost the undo history its
oldest snapshots, and it sizes the histories anew.  The main result says what a
block applied in a session of its own leaves behind, both when it succeeds and
when it fails.
-/

namespace CocosChain.Chain

variable {Hash Rest Tx Byte σ : Type}

namespace Objects

variable [DecidableEq Hash] (protocol : Protocol Hash Rest Tx Byte σ)

def applyTransaction (mode : ApplyMode) (tx : Tx) (objects : Objects Hash Rest Tx σ) :
    Option (Objects Hash Rest Tx σ × Bool) :=
  let id := protocol.digests.transactionId tx
  if !protocol.sharesFee tx && objects.isKnownTransaction id then none
  else
    let evaluation := protocol.evaluate mode objects tx
    evaluation.outcome.map fun others =>
      ((objects.recordTransaction id).setOthers others, evaluation.invoked)

def applyTransactions (objects : Objects Hash Rest Tx σ) : List Tx → Option (Objects Hash Rest Tx σ)
  | [] => some objects
  | tx :: txs =>
      match objects.applyTransaction protocol .applyBlock tx with
      | none => none
      | some (next, _) => next.applyTransactions txs

/-- Transactions change nothing that the handling of blocks depends on. -/
def SameChain (before after : Objects Hash Rest Tx σ) : Prop :=
  after = { before with
    transactions := after.transactions
    others := after.others }

omit [DecidableEq Hash] in
theorem SameChain.trans (first : SameChain before middle) (second : SameChain middle after) :
    SameChain before after := by
  rw [SameChain, second, first]

/-- What a transaction may do to the objects that the handling of blocks
depends on: the chain is the same, and no other transaction becomes known. -/
structure Records (tx : Tx) (before after : Objects Hash Rest Tx σ) : Prop where
  chain : SameChain before after
  known : ∀ id, after.isKnownTransaction id = true → before.isKnownTransaction id = true ∨
      id = protocol.digests.transactionId tx

theorem Records.refl (tx : Tx) (objects : Objects Hash Rest Tx σ) :
    Records protocol tx objects objects :=
  ⟨rfl, fun _ known => .inl known⟩

theorem recordTransaction_records (tx : Tx) (objects : Objects Hash Rest Tx σ) :
    Records protocol tx objects
      (objects.recordTransaction (protocol.digests.transactionId tx)) := by
  refine ⟨rfl, ?_⟩
  intro id known
  unfold isKnownTransaction recordTransaction at known
  rw [decide_eq_true_iff, List.mem_insert_iff] at known
  exact known.symm.imp_left decide_eq_true

variable {objects : Objects Hash Rest Tx σ}

theorem applyTransaction_records
    (applied : objects.applyTransaction protocol mode tx = some (next, invoked)) :
    Records protocol tx objects next := by
  unfold applyTransaction at applied
  by_cases duplicate : (!protocol.sharesFee tx && objects.isKnownTransaction
      (protocol.digests.transactionId tx)) = true
  · rw [if_pos duplicate] at applied
    cases applied
  · rw [if_neg duplicate] at applied
    obtain ⟨_, _, same⟩ := Option.map_eq_some_iff.mp applied
    cases same
    exact ⟨rfl, (recordTransaction_records protocol tx objects).known⟩

theorem applyTransactions_sameChain (applied : objects.applyTransactions protocol txs = some next) :
    SameChain objects next := by
  induction txs generalizing objects with
  | nil =>
    cases applied
    rfl
  | cons tx txs induction =>
    unfold applyTransactions at applied
    split at applied
    · cases applied
    · rename_i middle invoked first
      exact (applyTransaction_records protocol first).chain.trans (induction applied)

def performMaintenance (block : SignedBlock Hash Rest Tx)
    (objects : Objects Hash Rest Tx σ) : Option (Objects Hash Rest Tx σ) :=
  (protocol.maintain objects block).outcome.map fun kept => objects.keep kept

/-- The part of applying a block that follows its transactions. -/
def finishBlock (block : SignedBlock Hash Rest Tx)
    (objects : Objects Hash Rest Tx σ) : Option (Objects Hash Rest Tx σ) :=
  let objects := objects.advanceHead block
  if Database.maxUndoHistory ≤ objects.headBlockNumber - objects.lastIrreversibleBlockNum then none
  else
    performMaintenance protocol block
      (objects.updateSigningWitness block).updateLastIrreversibleBlock

def applyBlock (block : SignedBlock Hash Rest Tx)
    (objects : Objects Hash Rest Tx σ) : Option (Objects Hash Rest Tx σ) :=
  if block.transactionMerkleRoot ≠ protocol.digests.calculateMerkleRoot block then none
  else if objects.headBlockId ≠ block.previous then none
  else if !protocol.headerValid objects block then none
  else
    match objects.applyTransactions protocol block.transactions with
    | none => none
    | some objects => objects.finishBlock protocol block

theorem applyBlock_onHead (applied : objects.applyBlock protocol block = some next) :
    objects.headBlockId = block.previous := by
  by_contra offHead
  unfold applyBlock at applied
  rw [if_pos offHead, ite_self] at applied
  cases applied

end Objects

namespace Database

/-- Only the current objects have changed, and all but the newest `kept`
snapshots may be gone. -/
def moved (db : Database Hash Rest Tx Byte σ) (current : Objects Hash Rest Tx σ) (kept : Nat) :
    Database Hash Rest Tx Byte σ :=
  { db with
    undo := { db.undo with
      current := current
      saved := db.undo.saved.take kept } }

/-- No session is open, and the bound leaves room for two. -/
structure Settled (db : Database Hash Rest Tx Byte σ) : Prop where
  quiet : db.pendingTxSession = false
  idle : db.undo.active = 0
  room : 2 ≤ db.undo.maxSize

theorem Settled.positive {db : Database Hash Rest Tx Byte σ}
    (settled : db.Settled) : 0 < db.undo.maxSize :=
  Nat.zero_lt_of_lt settled.room

/-- A session is open, and the bound leaves room for its snapshot. -/
structure InSession (db : Database Hash Rest Tx Byte σ) : Prop where
  saved : db.undo.saved ≠ []
  room : 0 < db.undo.maxSize

section Moved

variable {db : Database Hash Rest Tx Byte σ}

@[simp] theorem moved_objects (current : Objects Hash Rest Tx σ)
    (kept : Nat) : (db.moved current kept).objects = current := rfl

theorem moved_self (enough : db.undo.saved.length ≤ kept) : db.moved db.objects kept = db := by
  unfold moved
  rw [List.take_of_length_le enough]
  rfl

theorem moved_moved (first second : Objects Hash Rest Tx σ) (kept keptLater : Nat) :
    (db.moved first kept).moved second keptLater = db.moved second (min keptLater kept) := by
  simp only [moved, List.take_take]

theorem InSession.moved (opened : db.InSession)
    (current : Objects Hash Rest Tx σ) (positive : 0 < kept) :
    (db.moved current kept).InSession where
  saved := by
    intro empty
    rcases List.take_eq_nil_iff.mp empty with _ | empty
    · omega
    · exact opened.saved empty
  room := opened.room

theorem writeObjects_eq (opened : db.InSession)
    (change : Objects Hash Rest Tx σ → Objects Hash Rest Tx σ)
    (enough : db.undo.saved.length ≤ kept) :
    db.writeObjects change = db.moved (change db.objects) kept := by
  obtain ⟨_, _, saved⟩ := List.exists_cons_of_ne_nil opened.saved
  unfold writeObjects moved SnapshotStack.write
  rw [List.take_of_length_le enough, saved]
  rfl

theorem startSession_merge (opened : db.InSession)
    (change : Objects Hash Rest Tx σ → Objects Hash Rest Tx σ) :
    (db.startSession.writeObjects change).endSession SnapshotStack.merge =
      db.moved (change db.objects) db.undo.maxSize := by
  obtain ⟨_, _, saved⟩ := List.exists_cons_of_ne_nil opened.saved
  obtain ⟨room, bound⟩ := Nat.exists_eq_succ_of_ne_zero (Nat.pos_iff_ne_zero.mp opened.room)
  simp [startSession, writeObjects, endSession, moved, objects,
    SnapshotStack.start, SnapshotStack.write, SnapshotStack.merge,
    SnapshotStack.rooted, saved, bound]

/-- What a session of an operation does to the objects. -/
def afterOperation (objects : Objects Hash Rest Tx σ) : Option σ → Objects Hash Rest Tx σ
  | some others => objects.setOthers others
  | none => objects

theorem operationSession_eq (opened : db.InSession) (session : Option σ) :
    db.operationSession session = db.moved (afterOperation db.objects session) db.undo.maxSize := by
  cases session with
  | some others => exact startSession_merge opened (·.setOthers others)
  | none => rfl

end Moved

/-- Inside a session the computation changes the objects by `effect`, throwing
where that is undefined, and the newest `bound` snapshots stay. -/
structure Effects {α : Type} (action : Throwing Fault (Database Hash Rest Tx Byte σ) α)
    (db : Database Hash Rest Tx Byte σ)
    (effect : Option (Objects Hash Rest Tx σ × α)) (bound : Nat) : Prop where
  returns : ∀ next value, effect = some (next, value) →
    ∃ kept, bound ≤ kept ∧ action db = (.ok value, db.moved next kept)
  throws : effect = none → ∃ fault current kept, bound ≤ kept ∧
    action db = (.error fault, db.moved current kept)

namespace Effects

variable {α β : Type} {db : Database Hash Rest Tx Byte σ}

theorem pure (value : α) : Effects (pure value) db (some (db.objects, value)) bound where
  returns next value' success := by
    cases success
    refine ⟨max bound db.undo.saved.length, le_max_left _ _, ?_⟩
    rw [moved_self (le_max_right _ _)]
    rfl
  throws := nofun

theorem throw (fault : Fault) : Effects (α := α) (Throwing.throw fault) db none bound where
  returns := nofun
  throws _ := by
    refine ⟨fault, db.objects, max bound db.undo.saved.length, le_max_left _ _, ?_⟩
    rw [moved_self (le_max_right _ _)]
    rfl

theorem write (opened : db.InSession) (change : Objects Hash Rest Tx σ → Objects Hash Rest Tx σ) :
    Effects (Throwing.modify (writeObjects change)) db (some (change db.objects, ())) bound where
  returns next value success := by
    cases success
    refine ⟨max bound db.undo.saved.length, le_max_left _ _, ?_⟩
    rw [← writeObjects_eq opened change (le_max_right _ _)]
    rfl
  throws := nofun

theorem get (later : Effects (next db) db effect bound) :
    Effects (Throwing.get >>= next) db effect bound where
  returns := later.returns
  throws := later.throws

variable {next : α → Throwing Fault (Database Hash Rest Tx Byte σ) β}

theorem seq (first : Effects action db (some (current, value)) bound)
    (second : ∀ kept, bound ≤ kept → Effects (next value) (db.moved current kept) later bound) :
    Effects (action >>= next) db later bound := by
  obtain ⟨kept, enough, ran⟩ := first.returns current value rfl
  constructor
  · intro final result success
    obtain ⟨keptLater, enoughLater, ranLater⟩ := (second kept enough).returns final result success
    refine ⟨min keptLater kept, le_min enoughLater enough, ?_⟩
    rw [Throwing.bind_of_ok ran, ranLater, moved_moved]
  · intro failure
    obtain ⟨fault, final, keptLater, enoughLater, ranLater⟩ := (second kept enough).throws failure
    refine ⟨fault, final, min keptLater kept, le_min enoughLater enough, ?_⟩
    rw [Throwing.bind_of_ok ran, ranLater, moved_moved]

theorem stop (first : Effects action db none bound) : Effects (action >>= next) db none bound where
  returns := nofun
  throws _ := by
    obtain ⟨fault, current, kept, enough, ran⟩ := first.throws rfl
    exact ⟨fault, current, kept, enough, Throwing.bind_of_error ran⟩

/-- The sessions of operations change the parameter part of the objects only.
Each one trims the history once. -/
theorem operationSessions (opened : db.InSession) (sessions : List (Option σ))
    (room : sessions = [] ∨ bound ≤ db.undo.maxSize) :
    ∃ others, Effects (Throwing.modify fun db => sessions.foldl operationSession db) db
      (some (db.objects.setOthers others, ())) bound := by
  induction sessions generalizing db with
  | nil => exact ⟨db.objects.others, Effects.pure ()⟩
  | cons session sessions induction =>
    have bounded : bound ≤ db.undo.maxSize := room.resolve_left nofun
    have once := operationSession_eq opened session
    obtain ⟨others, later⟩ := induction
      (opened.moved (afterOperation db.objects session) opened.room) (.inr bounded)
    refine ⟨others, ?_, nofun⟩
    intro next value success
    cases success
    obtain ⟨kept, enough, ran⟩ := later.returns _ () rfl
    have final : (afterOperation db.objects session).setOthers others =
        db.objects.setOthers others := by
      cases session with
      | some _ => rfl
      | none => rfl
    refine ⟨min kept db.undo.maxSize, le_min enough bounded, ?_⟩
    rw [moved_moved, moved_objects, final] at ran
    change (Except.ok (), sessions.foldl operationSession (db.operationSession session)) = _
    rw [once]
    exact ran

end Effects

section Blocks

variable [DecidableEq Hash] (protocol : Protocol Hash Rest Tx Byte σ)
variable {db : Database Hash Rest Tx Byte σ}

theorem applyTransaction_effects (opened : db.InSession)
    (positive : 0 < bound) (mode : ApplyMode) (tx : Tx)
    (room : (protocol.evaluate mode db.objects tx).sessions = [] ∨ bound ≤ db.undo.maxSize) :
    Effects (applyTransaction protocol mode tx) db
      (db.objects.applyTransaction protocol mode tx) bound := by
  apply Effects.get
  by_cases duplicate : (!protocol.sharesFee tx && db.isKnownTransaction protocol tx) = true
  · have refused : db.objects.applyTransaction protocol mode tx = none :=
      if_pos duplicate
    rw [if_pos duplicate, refused]
    exact Effects.throw _
  · have accepted : db.objects.applyTransaction protocol mode tx =
        (protocol.evaluate mode db.objects tx).outcome.map fun others =>
          ((db.objects.recordTransaction (protocol.digests.transactionId tx)).setOthers others,
              (protocol.evaluate mode db.objects tx).invoked) :=
      if_neg duplicate
    rw [if_neg duplicate, accepted]
    generalize protocol.evaluate mode db.objects tx = evaluation at room
    apply Effects.seq (Effects.write opened _)
    intro kept enough
    have recorded := opened.moved (db.objects.recordTransaction
      (protocol.digests.transactionId tx)) (positive.trans_le enough)
    obtain ⟨others, sessions⟩ := Effects.operationSessions recorded evaluation.sessions room
    apply Effects.seq sessions
    intro keptLater enoughLater
    have ran := recorded.moved (((db.objects.recordTransaction
      (protocol.digests.transactionId tx))).setOthers others) (positive.trans_le enoughLater)
    cases evaluation.outcome with
    | none => exact Effects.throw _
    | some final =>
      apply Effects.seq (Effects.write ran _)
      intro keptLast enoughLast
      exact Effects.pure evaluation.invoked

theorem applyTransactions_effects (opened : db.InSession)
    (positive : 0 < bound) (room : bound ≤ db.undo.maxSize) (txs : List Tx) :
    Effects (Throwing.forEach (fun tx => do
          let _ ← applyTransaction protocol .applyBlock tx
          pure ())
        txs) db
      ((db.objects.applyTransactions protocol txs).map (·, ())) bound := by
  induction txs generalizing db with
  | nil => exact Effects.pure ()
  | cons tx txs induction =>
    have first := applyTransaction_effects protocol opened positive .applyBlock tx (.inr room)
    unfold Objects.applyTransactions
    cases applied : db.objects.applyTransaction protocol .applyBlock tx with
    | none =>
      rw [applied] at first
      exact first.stop.stop
    | some reached =>
      obtain ⟨next, _⟩ := reached
      rw [applied] at first
      apply Effects.seq (first.seq fun kept _ => Effects.pure ())
      intro kept enough
      exact induction (opened.moved next (positive.trans_le enough)) room

/-- The size that applying `block` gives the histories. -/
def sizeAfter (block : SignedBlock Hash Rest Tx) (objects : Objects Hash Rest Tx σ) : Nat :=
  block.blockNum - objects.lastIrreversibleBlockNum + 1

section

omit [DecidableEq Hash]

theorem performMaintenance_effects (opened : db.InSession) (positive : 0 < bound)
    (room : bound ≤ db.undo.maxSize) (block : SignedBlock Hash Rest Tx) :
    Effects (performMaintenance protocol block) db
      ((db.objects.performMaintenance protocol block).map (·, ()))
      bound := by
  unfold performMaintenance Objects.performMaintenance
  apply Effects.get
  generalize protocol.maintain db.objects block = maintenance
  obtain ⟨_, sessions⟩ := Effects.operationSessions opened maintenance.sessions (.inr room)
  apply Effects.seq sessions
  intro kept enough
  cases maintenance.outcome with
  | none => exact Effects.throw _
  | some upkeep =>
    exact Effects.write (opened.moved _ (positive.trans_le enough)) _

theorem InSession.sized (opened : db.InSession)
    (positive : 0 < size) : (db.setHistorySize size).InSession where
  saved := opened.saved
  room := positive

theorem moved_sized (current : Objects Hash Rest Tx σ) (kept size : Nat) :
    (db.moved current kept).setHistorySize size = (db.setHistorySize size).moved current kept := rfl

end

/-- As `Effects`, for a computation that gives the histories a new size and
may throw before or after it does. -/
structure Resizes (action : Throwing Fault (Database Hash Rest Tx Byte σ) Unit)
    (db : Database Hash Rest Tx Byte σ)
    (effect : Option (Objects Hash Rest Tx σ)) (size bound : Nat) : Prop where
  returns : ∀ next, effect = some next → ∃ kept, bound ≤ kept ∧
    action db = (.ok (), (db.setHistorySize size).moved next kept)
  throws : effect = none → ∃ fault current kept, bound ≤ kept ∧
    (action db = (.error fault, db.moved current kept) ∨ action db =
        (.error fault, (db.setHistorySize size).moved current kept))

namespace Resizes

omit [DecidableEq Hash] in
theorem of_throws (effects : Effects action db none bound) : Resizes action db none size bound where
  returns := nofun
  throws _ := by
    obtain ⟨fault, current, kept, enough, ran⟩ := effects.throws rfl
    exact ⟨fault, current, kept, enough, .inl ran⟩

omit [DecidableEq Hash]

theorem seq (before : Effects first db (some (current, ())) bound)
    (after : ∀ kept, bound ≤ kept → Resizes action (db.moved current kept) effect size bound) :
    Resizes (first >>= fun _ => action) db effect size bound := by
  obtain ⟨kept, enough, ran⟩ := before.returns current () rfl
  constructor
  · intro next success
    obtain ⟨keptLater, enoughLater, ranLater⟩ := (after kept enough).returns next success
    refine ⟨min keptLater kept, le_min enoughLater enough, ?_⟩
    rw [Throwing.bind_of_ok ran, ranLater, moved_sized, moved_moved]
  · intro failure
    obtain ⟨fault, final, keptLater, enoughLater, ranLater⟩ := (after kept enough).throws failure
    refine ⟨fault, final, min keptLater kept, le_min enoughLater enough, ?_⟩
    rw [Throwing.bind_of_ok ran]
    rcases ranLater with ranLater | ranLater
    · left
      rw [ranLater, moved_moved]
    · right
      rw [ranLater, moved_sized, moved_moved]

theorem get (later : Resizes (next db) db effect size bound) :
    Resizes (Throwing.get >>= next) db effect size bound where
  returns := later.returns
  throws := later.throws

theorem of_sized (enough : bound ≤ kept)
    (ran : first db = (.ok (), (db.setHistorySize size).moved current kept))
    (after : Effects action ((db.setHistorySize size).moved current kept)
      (effect.map (·, ())) bound) : Resizes (first >>= fun _ => action) db effect size bound := by
  constructor
  · intro next success
    obtain ⟨keptLater, enoughLater, ranLater⟩ := after.returns next () (by rw [success]; rfl)
    refine ⟨min keptLater kept, le_min enoughLater enough, ?_⟩
    rw [Throwing.bind_of_ok ran, ranLater, moved_moved]
  · intro failure
    obtain ⟨fault, final, keptLater, enoughLater, ranLater⟩ := after.throws (by rw [failure]; rfl)
    refine ⟨fault, final, min keptLater kept, le_min enoughLater enough, .inr ?_⟩
    rw [Throwing.bind_of_ok ran, ranLater, moved_moved]

end Resizes

section

omit [DecidableEq Hash]

theorem updateGlobalDynamicData_throws (opened : db.InSession) (block : SignedBlock Hash Rest Tx)
    (missed : maxUndoHistory ≤ block.blockNum - db.objects.lastIrreversibleBlockNum) :
    Effects (updateGlobalDynamicData block) db none bound := by
  apply Effects.seq (Effects.write opened _)
  intro kept enough
  apply Effects.get
  have refused : maxUndoHistory ≤ (db.moved (db.objects.advanceHead block) kept).headBlockNum -
        (db.moved (db.objects.advanceHead block) kept).objects.lastIrreversibleBlockNum := missed
  rw [if_pos refused]
  exact Effects.throw _

theorem updateGlobalDynamicData_returns (opened : db.InSession) (block : SignedBlock Hash Rest Tx)
    (enough : db.undo.saved.length ≤ kept)
    (recent : ¬ maxUndoHistory ≤ block.blockNum - db.objects.lastIrreversibleBlockNum) :
    updateGlobalDynamicData block db =
      (.ok (), (db.setHistorySize (sizeAfter block db.objects)).moved
        (db.objects.advanceHead block) kept) := by
  let start := db.moved (db.objects.advanceHead block) kept
  have accepted : ¬ maxUndoHistory ≤
      start.headBlockNum - start.objects.lastIrreversibleBlockNum := recent
  unfold updateGlobalDynamicData
  rw [Throwing.modify_bind, writeObjects_eq opened _ enough, Throwing.get_bind, if_neg accepted]
  rfl

theorem finishBlock_resizes (opened : db.InSession) (positive : 0 < bound)
    (block : SignedBlock Hash Rest Tx) (room : bound ≤ sizeAfter block db.objects) :
    Resizes (finishBlock protocol block) db (db.objects.finishBlock protocol block)
      (sizeAfter block db.objects) bound := by
  by_cases missed : maxUndoHistory ≤ block.blockNum - db.objects.lastIrreversibleBlockNum
  · have refused : db.objects.finishBlock protocol block = none :=
      if_pos missed
    rw [refused]
    apply Resizes.of_throws
    exact (updateGlobalDynamicData_throws opened block missed).stop
  · have accepted : db.objects.finishBlock protocol block =
        Objects.performMaintenance protocol block
          (((db.objects.advanceHead block).updateSigningWitness
            block).updateLastIrreversibleBlock) :=
      if_neg missed
    rw [accepted]
    apply Resizes.of_sized (le_max_left bound db.undo.saved.length)
    · exact updateGlobalDynamicData_returns opened block (le_max_right _ _) missed
    · have sized := (opened.sized (positive.trans_le room)).moved (db.objects.advanceHead block)
        (positive.trans_le (le_max_left bound db.undo.saved.length))
      apply Effects.seq (Effects.write sized _)
      intro kept enough
      have signed := sized.moved ((db.objects.advanceHead block).updateSigningWitness block)
        (positive.trans_le enough)
      apply Effects.seq (Effects.write signed _)
      intro keptLater enoughLater
      exact performMaintenance_effects protocol
        (signed.moved _ (positive.trans_le enoughLater)) positive room block

end

theorem applyBlock_resizes (opened : db.InSession) (positive : 0 < bound)
    (block : SignedBlock Hash Rest Tx) (roomBefore : bound ≤ db.undo.maxSize)
    (roomAfter : bound ≤ sizeAfter block db.objects) :
    Resizes (applyBlock protocol block) db (db.objects.applyBlock protocol block)
      (sizeAfter block db.objects) bound := by
  unfold applyBlock Objects.applyBlock
  apply Resizes.get
  by_cases merkle : block.transactionMerkleRoot ≠ protocol.digests.calculateMerkleRoot block
  · rw [if_pos merkle, if_pos merkle]
    exact Resizes.of_throws (Effects.throw _)
  rw [if_neg merkle, if_neg merkle]
  by_cases previous : db.objects.headBlockId ≠ block.previous
  · have previous' : db.headBlockId ≠ block.previous := previous
    rw [if_pos previous', if_pos previous]
    exact Resizes.of_throws (Effects.throw _)
  have previous' : ¬ db.headBlockId ≠ block.previous := previous
  rw [if_neg previous', if_neg previous]
  by_cases header : (!protocol.headerValid db.objects block) = true
  · rw [if_pos header, if_pos header]
    exact Resizes.of_throws (Effects.throw _)
  rw [if_neg header, if_neg header]
  have transactions := applyTransactions_effects protocol opened positive
    roomBefore block.transactions
  cases applied : db.objects.applyTransactions protocol block.transactions with
  | none =>
    rw [applied] at transactions
    exact Resizes.of_throws transactions.stop
  | some next =>
    rw [applied] at transactions
    apply Resizes.seq transactions
    intro kept enough
    have same : sizeAfter block next = sizeAfter block db.objects := by
      unfold sizeAfter
      rw [Objects.applyTransactions_sameChain protocol applied]
    rw [← same] at roomAfter ⊢
    exact finishBlock_resizes protocol (opened.moved next (positive.trans_le enough)) positive block
      roomAfter

theorem applyBlock_offHead (block : SignedBlock Hash Rest Tx)
    (offHead : db.objects.headBlockId ≠ block.previous) :
    Effects (applyBlock protocol block) db none bound := by
  have offHead' : db.headBlockId ≠ block.previous := offHead
  apply Effects.get
  by_cases merkle : block.transactionMerkleRoot ≠ protocol.digests.calculateMerkleRoot block
  · rw [if_pos merkle]
    exact Effects.throw _
  · rw [if_neg merkle, if_pos offHead']
    exact Effects.throw _

variable [Inhabited Hash]

/-- The database after a block has been applied and stored. -/
def extended (id : BlockId Hash) (block : SignedBlock Hash Rest Tx)
    (next : Objects Hash Rest Tx σ) (kept : Nat)
    (db : Database Hash Rest Tx Byte σ) : Database Hash Rest Tx Byte σ :=
  { db with
    undo :=
      { current := next
        saved := db.objects :: db.undo.saved.take kept
        active := db.undo.active
        maxSize := sizeAfter block db.objects }
    fork := db.fork.setMaxSize (sizeAfter block db.objects)
    blocks := db.blocks.store protocol.digests protocol.packing id block
    irreversiblePeak :=
      max db.irreversiblePeak next.lastIrreversibleBlockNum }

/-- The number of snapshots that applying a block spares at least, with the
one of its own session. -/
def spared (block : SignedBlock Hash Rest Tx) (db : Database Hash Rest Tx Byte σ) : Nat :=
  if db.objects.headBlockId = block.previous then
    min db.undo.maxSize (sizeAfter block db.objects)
  else db.undo.maxSize

/-- The database after a block has failed to apply: the oldest snapshots may
be gone, and the histories may have been sized for the block. -/
inductive Reverted (block : SignedBlock Hash Rest Tx)
    (db : Database Hash Rest Tx Byte σ) (kept : Nat) : Database Hash Rest Tx Byte σ → Prop where
  | early : Reverted block db kept (db.moved db.objects kept)
  | late (onHead : db.objects.headBlockId = block.previous) :
      Reverted block db kept
      ((db.setHistorySize (sizeAfter block db.objects)).moved
        db.objects kept)

section

omit [DecidableEq Hash] [Inhabited Hash]

theorem startSession_opened (room : 0 < db.undo.maxSize) : db.startSession.InSession where
  saved := nofun
  room := room

theorem startSession_take (kept : Nat) : db.startSession.undo.saved.take (kept + 1) =
      db.objects :: db.undo.saved.take (min kept db.undo.maxSize) := by
  change (db.undo.current :: db.undo.saved.take db.undo.maxSize).take (kept + 1) = _
  rw [List.take_succ_cons, List.take_take]
  rfl

theorem undoSession_moved (current : Objects Hash Rest Tx σ) (kept : Nat) :
    (db.startSession.moved current (kept + 1)).undoSession =
      db.moved db.objects (min kept db.undo.maxSize) := by
  unfold undoSession endSession moved
  rw [startSession_take]
  rfl

end

section

omit [DecidableEq Hash] [Inhabited Hash]

theorem guarded_of_ok {α : Type} {action : Throwing Fault (Database Hash Rest Tx Byte σ) α}
    {value : α} (ran : action db = (.ok value, reached)) :
    guarded action db = (.ok value, reached) :=
  Throwing.handle_of_ok ran

theorem guarded_of_error {α : Type} {action : Throwing Fault (Database Hash Rest Tx Byte σ) α}
    (ran : action db = (.error fault, reached)) :
    guarded action db = (.error fault, reached.undoSession) :=
  Throwing.handle_of_error ran

end

theorem applyAndStore_returns (room : 0 < db.undo.maxSize) (id : BlockId Hash)
    (applied : db.objects.applyBlock protocol block = some next) :
    ∃ kept, spared block db ≤ kept + 1 ∧ applyAndStore protocol id block db =
        (.ok (), extended protocol id block next kept db) := by
  have positive : 0 < min db.undo.maxSize (sizeAfter block db.objects) :=
    lt_min room (Nat.succ_pos _)
  obtain ⟨_, enough, ran⟩ := (applyBlock_resizes protocol
    (startSession_opened room) positive block (min_le_left _ _)
    (min_le_right _ _)).returns next applied
  obtain ⟨below, rfl⟩ := Nat.exists_eq_succ_of_ne_zero
    (Nat.pos_iff_ne_zero.mp (positive.trans_le enough))
  refine ⟨min below db.undo.maxSize, ?_, ?_⟩
  · unfold spared
    rw [if_pos (Objects.applyBlock_onHead protocol applied)]
    omega
  · unfold applyAndStore
    rw [Throwing.modify_bind, Throwing.bind_of_ok (guarded_of_ok ran)]
    unfold extended
    rw [← startSession_take]
    rfl

theorem applyAndStore_throws (room : 0 < db.undo.maxSize) (id : BlockId Hash)
    (failed : db.objects.applyBlock protocol block = none) :
    ∃ fault kept after, spared block db ≤ kept + 1 ∧ Reverted block db kept after ∧
      applyAndStore protocol id block db = (.error fault, after) := by
  have positive : 0 < min db.undo.maxSize (sizeAfter block db.objects) :=
    lt_min room (Nat.succ_pos _)
  have undone {reached : Database Hash Rest Tx Byte σ} {fault : Fault}
      (ran : applyBlock protocol block db.startSession = (.error fault, reached)) :
      applyAndStore protocol id block db = (.error fault, reached.undoSession) := by
    unfold applyAndStore
    rw [Throwing.modify_bind]
    exact Throwing.bind_of_error (guarded_of_error ran)
  unfold spared
  by_cases onHead : db.objects.headBlockId = block.previous
  · rw [if_pos onHead]
    obtain ⟨fault, current, kept, enough, ran⟩ :=
      (applyBlock_resizes protocol (startSession_opened room) positive block
        (min_le_left _ _) (min_le_right _ _)).throws failed
    obtain ⟨below, rfl⟩ := Nat.exists_eq_succ_of_ne_zero
      (Nat.pos_iff_ne_zero.mp (positive.trans_le enough))
    have bounded : min db.undo.maxSize (sizeAfter block db.objects) ≤
        min below db.undo.maxSize + 1 := by
      omega
    rcases ran with ran | ran
    · refine ⟨fault, _, _, bounded, .early, ?_⟩
      rw [undone ran, undoSession_moved]
    · refine ⟨fault, _, _, bounded, .late onHead, ?_⟩
      rw [undone ran]
      exact congrArg (Prod.mk (Except.error fault) ∘ setHistorySize _)
        (undoSession_moved current below)
  · rw [if_neg onHead]
    have offHead : db.startSession.objects.headBlockId ≠ block.previous := onHead
    have refused : Effects (applyBlock protocol block) db.startSession none db.undo.maxSize :=
      applyBlock_offHead protocol block offHead
    obtain ⟨fault, _, _, enough, ran⟩ := refused.throws rfl
    obtain ⟨below, rfl⟩ := Nat.exists_eq_succ_of_ne_zero
      (Nat.pos_iff_ne_zero.mp (room.trans_le enough))
    have bounded : db.undo.maxSize ≤ min below db.undo.maxSize + 1 := by
      omega
    refine ⟨fault, _, _, bounded, .early, ?_⟩
    rw [undone ran, undoSession_moved]

end Blocks

end Database

end CocosChain.Chain

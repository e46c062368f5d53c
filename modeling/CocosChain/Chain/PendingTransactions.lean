import CocosChain.Chain.BlockApplication

/-!
# Pending transactions

Pending transactions live in a session of their own on top of a settled state.
Pushing one more opens a session inside that session, and evaluating its
operations opens a third one.  All of this is undone before the next block is
handled: what remains is that the undo history of the settled state may have
lost its oldest snapshots.
-/

namespace CocosChain.Chain

open Throwing

namespace Database

variable {Hash Rest Tx Byte σ : Type} [DecidableEq Hash] (protocol : Protocol Hash Rest Tx Byte σ)

/-- The database with a pending session on top of `settled`. -/
def withPending (settled : Database Hash Rest Tx Byte σ)
    (current : Objects Hash Rest Tx σ) (pendingTx : List Tx) : Database Hash Rest Tx Byte σ :=
  { settled with
    undo :=
      { current := current
        saved := settled.objects :: settled.undo.saved
        active := 1
        maxSize := settled.undo.maxSize }
    pendingTxSession := true
    pendingTx := pendingTx }

/-- The database is `settled`, or `settled` with pending transactions. -/
inductive Awaits (settled : Database Hash Rest Tx Byte σ) :
    Database Hash Rest Tx Byte σ → Prop where
  | idle (pendingTx : List Tx) :
      Awaits settled { settled with pendingTx := pendingTx }
  | pending {current : Objects Hash Rest Tx σ} (pendingTx : List Tx)
      (same : Objects.SameChain settled.objects current) :
      Awaits settled (settled.withPending current pendingTx)

omit [DecidableEq Hash] in
theorem Awaits.refl (settled : Database Hash Rest Tx Byte σ) : Awaits settled settled :=
  .idle settled.pendingTx

/-- The settled state after its history has been trimmed. -/
def trimmed (settled : Database Hash Rest Tx Byte σ) (kept : Nat) : Database Hash Rest Tx Byte σ :=
  settled.moved settled.objects kept

section

variable {settled db : Database Hash Rest Tx Byte σ}

section

omit [DecidableEq Hash]

theorem Settled.trimmed (isSettled : settled.Settled) (kept : Nat) :
    (settled.trimmed kept).Settled :=
  ⟨isSettled.quiet, isSettled.idle, isSettled.room⟩

theorem trimmed_trimmed (settled : Database Hash Rest Tx Byte σ) (kept keptLater : Nat) :
    (settled.trimmed kept).trimmed keptLater = settled.trimmed (min keptLater kept) :=
  moved_moved _ _ _ _

theorem trimmed_self (settled : Database Hash Rest Tx Byte σ)
    (enough : settled.undo.saved.length ≤ kept) : settled.trimmed kept = settled :=
  moved_self enough

section

variable (awaits : Awaits settled db)
include awaits

theorem Awaits.sameChain : Objects.SameChain settled.objects db.objects := by
  cases awaits with
  | idle pendingTx => rfl
  | pending pendingTx same => exact same

theorem Awaits.maxSize : db.undo.maxSize = settled.undo.maxSize := by
  cases awaits with
  | idle pendingTx => rfl
  | pending pendingTx same => rfl

theorem Awaits.irreversiblePeak : db.irreversiblePeak = settled.irreversiblePeak := by
  cases awaits with
  | idle pendingTx => rfl
  | pending pendingTx same => rfl

section

variable (isSettled : settled.Settled)
include isSettled

theorem Awaits.committed : db.undo.committed = settled.undo.saved.length := by
  cases awaits with
  | idle pendingTx =>
    change settled.undo.saved.length - settled.undo.active = _
    rw [isSettled.idle]
    rfl
  | pending pendingTx same => rfl

theorem Awaits.resetPendingSession :
    ∃ pendingTx, db.resetPendingSession = { settled with pendingTx := pendingTx } := by
  obtain ⟨⟨_, _, _, _⟩, _, _, _, _, _⟩ := settled
  obtain ⟨quiet, idle, _⟩ := isSettled
  cases quiet
  cases idle
  cases awaits with
  | idle pendingTx => exact ⟨pendingTx, rfl⟩
  | pending pendingTx same => exact ⟨pendingTx, rfl⟩

theorem Awaits.clearPending : db.clearPending = { settled with pendingTx := [] } := by
  obtain ⟨_, reset⟩ := awaits.resetPendingSession isSettled
  unfold Database.clearPending
  rw [reset]

theorem Awaits.startPendingSession : Objects.SameChain settled.objects db.objects ∧
      ∃ pendingTx kept, settled.undo.maxSize ≤ kept ∧ db.startPendingSession =
          (settled.trimmed kept).withPending db.objects pendingTx := by
  cases awaits with
  | idle pendingTx =>
    refine ⟨rfl, pendingTx, settled.undo.maxSize, le_rfl, ?_⟩
    unfold Database.startPendingSession
    rw [if_neg (by rw [isSettled.quiet]; exact Bool.false_ne_true)]
    unfold withPending trimmed moved startSession SnapshotStack.start
    rw [isSettled.idle]
    rfl
  | @pending current pendingTx same =>
    refine ⟨same, pendingTx, max settled.undo.maxSize settled.undo.saved.length,
      le_max_left _ _, ?_⟩
    rw [trimmed_self settled (le_max_right _ _)]
    rfl

end

end

theorem withPending_take (room : 2 ≤ settled.undo.maxSize)
    (current : Objects Hash Rest Tx σ) (pendingTx : List Tx) (kept : Nat) :
    (settled.withPending current pendingTx).startSession.undo.saved.take (kept + 2) =
      current :: settled.objects ::
        settled.undo.saved.take (min kept (settled.undo.maxSize - 1)) := by
  have bound : min (kept + 1) settled.undo.maxSize = min kept (settled.undo.maxSize - 1) + 1 := by
    omega
  rw [startSession_take]
  change current :: (settled.objects :: settled.undo.saved).take
    (min (kept + 1) settled.undo.maxSize) = _
  rw [bound, List.take_succ_cons]

theorem withPending_undo (room : 2 ≤ settled.undo.maxSize) (current next : Objects Hash Rest Tx σ)
    (pendingTx : List Tx) (kept : Nat) :
    ((settled.withPending current pendingTx).startSession.moved next (kept + 2)).undoSession =
      (settled.trimmed (min kept (settled.undo.maxSize - 1))).withPending
        current pendingTx := by
  unfold undoSession endSession moved
  rw [withPending_take room]
  rfl

theorem withPending_merge (room : 2 ≤ settled.undo.maxSize) (current next : Objects Hash Rest Tx σ)
    (pendingTx : List Tx) (kept : Nat) :
    ((settled.withPending current pendingTx).startSession.moved next
        (kept + 2)).endSession SnapshotStack.merge =
      (settled.trimmed (min kept (settled.undo.maxSize - 1))).withPending
        next pendingTx := by
  unfold endSession moved
  rw [withPending_take room]
  rfl

end

/-- The sessions that evaluating a pushed transaction opens. -/
def pushedSessions (tx : Tx) (state : PushState)
    (objects : Objects Hash Rest Tx σ) : List (Option σ) :=
  match state.mode with
  | some mode => (protocol.evaluate mode objects tx).sessions
  | none => []

theorem evaluatePushed_effects (opened : db.InSession) (positive : 0 < bound)
    (tx : Tx) (state : PushState)
    (room : pushedSessions protocol tx state db.objects = [] ∨ bound ≤ db.undo.maxSize) :
    ∃ effect, Effects (evaluatePushed protocol tx state) db effect bound ∧
      ∀ next discard, effect = some (next, discard) →
        Objects.Records protocol tx db.objects next := by
  unfold evaluatePushed
  unfold pushedSessions at room
  cases evaluated : state.mode with
  | some mode =>
    rw [evaluated] at room
    exact ⟨_, applyTransaction_effects protocol opened positive mode tx room, fun _ _ applied =>
        Objects.applyTransaction_records protocol applied⟩
  | none =>
    by_cases timely : protocol.timely db.objects tx = true
    · refine ⟨some (db.objects, true), Effects.get ?_, ?_⟩
      · rw [if_pos timely]
        exact Effects.pure true
      · intro next discard same
        cases same
        exact .refl protocol tx db.objects
    · refine ⟨none, Effects.get ?_, nofun⟩
      rw [if_neg timely]
      exact Effects.throw _

theorem createTransactionObject_pending
    (current : Objects Hash Rest Tx σ) (pendingTx : List Tx) (tx : Tx) :
    ∃ next, (createTransactionObject protocol tx).after
        (settled.withPending current pendingTx) = settled.withPending next pendingTx ∧
      Objects.Records protocol tx current next := by
  unfold createTransactionObject Throwing.after
  rw [get_bind]
  split
  · exact ⟨current, rfl, .refl protocol tx current⟩
  · exact ⟨_, rfl, Objects.recordTransaction_records protocol tx current⟩

omit [DecidableEq Hash] in
theorem pushedSessions_bound (maxSize : Nat) (tx : Tx) (state : PushState)
    (current : Objects Hash Rest Tx σ) : ∃ bound, maxSize ≤ bound ∧
      (pushedSessions protocol tx state current = [] → maxSize + 1 ≤ bound) ∧
      (pushedSessions protocol tx state current = [] ∨ bound ≤ maxSize) := by
  by_cases none_ : pushedSessions protocol tx state current = []
  · exact ⟨_, Nat.le_succ _, fun _ => le_rfl, .inl none_⟩
  · exact ⟨_, le_rfl, fun empty => absurd empty none_, .inr le_rfl⟩

theorem pushTransaction_pending (room : 2 ≤ settled.undo.maxSize) {pendingTx : List Tx} (tx : Tx)
    (state : PushState) (started : db.startPendingSession = settled.withPending current pendingTx) :
    ∃ kept next queue, settled.undo.maxSize ≤ kept + 2 ∧
      (pushedSessions protocol tx state current = [] → settled.undo.maxSize ≤ kept + 1) ∧
      (pushTransaction protocol tx state).after db = (settled.trimmed kept).withPending next queue ∧
      Objects.Records protocol tx current next := by
  let inner := (settled.withPending current pendingTx).startSession
  have opened : inner.InSession := startSession_opened (by change 0 < settled.undo.maxSize; omega)
  obtain ⟨bound, large, spared, allowed⟩ :=
    pushedSessions_bound protocol settled.undo.maxSize tx state current
  obtain ⟨effect, effects, records⟩ := evaluatePushed_effects protocol
    opened (by omega : 0 < bound) tx state allowed
  have enough {below : Nat} (kept : bound ≤ below + 2) : settled.undo.maxSize ≤
          min below (settled.undo.maxSize - 1) + 2 ∧
        (pushedSessions protocol tx state current = [] → settled.undo.maxSize ≤
            min below (settled.undo.maxSize - 1) + 1) := by
    refine ⟨by omega, ?_⟩
    intro empty
    have := spared empty
    omega
  unfold pushTransaction Throwing.after
  rw [modify_bind, started, modify_bind]
  cases outcome : effect with
  | none =>
    obtain ⟨_, _, kept, bounded, ran⟩ := effects.throws outcome
    obtain ⟨below, rfl⟩ := Nat.exists_eq_add_of_le' ((room.trans large).trans bounded)
    refine ⟨_, current, pendingTx, (enough bounded).1, (enough bounded).2,
      ?_, .refl protocol tx current⟩
    rw [bind_of_error (guarded_of_error ran)]
    exact withPending_undo room _ _ _ _
  | some reached =>
    obtain ⟨next, discard⟩ := reached
    obtain ⟨_, bounded, ran⟩ := effects.returns next discard outcome
    obtain ⟨below, rfl⟩ := Nat.exists_eq_add_of_le' ((room.trans large).trans bounded)
    rw [bind_of_ok (guarded_of_ok ran), modify_bind]
    let queue := pendingTx ++ [tx]
    have requeue {settled inner : Database Hash Rest Tx Byte σ} {current : Objects Hash Rest Tx σ}
        (same : inner = settled.withPending current pendingTx) :
        { inner with pendingTx := queue } = settled.withPending current queue :=
      congrArg (fun db : Database Hash Rest Tx Byte σ =>
        { db with pendingTx := queue }) same
    cases discard with
    | true =>
      obtain ⟨recorded, created, known⟩ := createTransactionObject_pending protocol current queue tx
      refine ⟨_, recorded, queue, (enough bounded).1, (enough bounded).2, ?_, known⟩
      rw [← created, ← requeue (withPending_undo room current next pendingTx below)]
      rfl
    | false =>
      refine ⟨_, next, queue, (enough bounded).1, (enough bounded).2, ?_,
        records next false outcome⟩
      rw [← requeue (withPending_merge room current next pendingTx below)]
      rfl

theorem Awaits.pushTransaction_known (isSettled : settled.Settled)
    (awaits : Awaits settled db) (tx : Tx) (state : PushState) {id : Hash}
    (known : ((Database.pushTransaction protocol tx state).after
      db).objects.isKnownTransaction id = true) :
    db.objects.isKnownTransaction id = true ∨ id = protocol.digests.transactionId tx := by
  obtain ⟨_, _, kept, _, started⟩ := awaits.startPendingSession isSettled
  obtain ⟨_, _, _, _, _, after, records⟩ := pushTransaction_pending
    protocol (isSettled.trimmed kept).room tx state started
  rw [after] at known
  exact records.known id known

/-- Pushing a transaction keeps the newest `floor` snapshots, if the bound
leaves room for the sessions it opens. -/
theorem Awaits.pushTransaction (isSettled : settled.Settled) (awaits : Awaits settled db) (tx : Tx)
    (state : PushState) (low : floor + 1 ≤ settled.undo.maxSize)
    (room : floor + 2 ≤ settled.undo.maxSize ∨ pushedSessions protocol tx state db.objects = []) :
    ∃ kept, floor ≤ kept ∧ Awaits (settled.trimmed kept)
      ((pushTransaction protocol tx state).after db) := by
  obtain ⟨same, _, kept, _, started⟩ := awaits.startPendingSession isSettled
  obtain ⟨keptLater, _, queue, bounded, spared, after, records⟩ :=
    pushTransaction_pending protocol (isSettled.trimmed kept).room tx state started
  rw [trimmed_trimmed] at after
  refine ⟨min keptLater kept, ?_, after ▸ .pending queue (same.trans records.chain)⟩
  have maxSize : (settled.trimmed kept).undo.maxSize = settled.undo.maxSize := rfl
  rw [maxSize] at bounded spared
  rcases room with _ | empty
  · omega
  · have := spared empty
    omega

/-- None of the transactions that is pushed opens a session when it is
evaluated. -/
def Quiet (state : PushState) : List Tx → Database Hash Rest Tx Byte σ → Prop
  | [], _ => True
  | tx :: txs, db =>
      (db.isKnownTransaction protocol tx = true ∨
        pushedSessions protocol tx state db.objects = []) ∧
      Quiet state txs ((offer protocol state tx).after db)

theorem Awaits.offer (isSettled : settled.Settled) (awaits : Awaits settled db)
    (tx : Tx) (state : PushState) (low : floor + 1 ≤ settled.undo.maxSize)
    (room : floor + 2 ≤ settled.undo.maxSize ∨ db.isKnownTransaction protocol tx
      = true ∨ pushedSessions protocol tx state db.objects = []) :
    ∃ kept, floor ≤ kept ∧ Awaits (settled.trimmed kept) ((offer protocol state tx).after db) := by
  unfold Database.offer Throwing.after
  rw [get_bind]
  by_cases known : db.isKnownTransaction protocol tx = true
  · rw [if_pos known]
    refine ⟨max floor settled.undo.saved.length, le_max_left _ _, ?_⟩
    rw [trimmed_self settled (le_max_right _ _)]
    exact awaits
  · rw [if_neg known]
    apply awaits.pushTransaction protocol isSettled tx state low
    tauto

theorem offer_apply (tx : Tx) (state : PushState) (db : Database Hash Rest Tx Byte σ) :
    offer protocol state tx db = (.ok (), (offer protocol state tx).after db) := by
  unfold Throwing.after Database.offer
  rw [get_bind]
  by_cases known : db.isKnownTransaction protocol tx = true
  · rw [if_pos known]
    rfl
  · rw [if_neg known]
    rfl

theorem Awaits.offers (isSettled : settled.Settled) (awaits : Awaits settled db)
    (txs : List Tx) (state : PushState) (low : floor + 1 ≤ settled.undo.maxSize)
    (room : floor + 2 ≤ settled.undo.maxSize ∨ Quiet protocol state txs db) :
    ∃ kept, floor ≤ kept ∧ Awaits (settled.trimmed kept)
      ((Throwing.forEach (Database.offer protocol state) txs).after db) := by
  induction txs generalizing settled db with
  | nil =>
    refine ⟨max floor settled.undo.saved.length, le_max_left _ _, ?_⟩
    rw [trimmed_self settled (le_max_right _ _)]
    exact awaits
  | cons tx txs induction =>
    obtain ⟨kept, enough, reached⟩ := awaits.offer protocol isSettled tx
      state low (room.imp_right And.left)
    obtain ⟨keptLater, enoughLater, final⟩ := induction
      (isSettled.trimmed kept) reached low (room.imp_right And.right)
    rw [trimmed_trimmed] at final
    refine ⟨min keptLater kept, le_min enoughLater enough, ?_⟩
    unfold Throwing.forEach Throwing.after
    rw [bind_of_ok (offer_apply protocol tx state db)]
    exact final

theorem offers_apply (txs : List Tx) (state : PushState) (db : Database Hash Rest Tx Byte σ) :
    Throwing.forEach (offer protocol state) txs db =
      (.ok (), (Throwing.forEach (offer protocol state) txs).after db) := by
  induction txs generalizing db with
  | nil => rfl
  | cons tx txs induction =>
    unfold Throwing.forEach Throwing.after
    rw [bind_of_ok (offer_apply protocol tx state db)]
    exact induction _

theorem quiet_of_sessions (none : ∀ tx objects, pushedSessions protocol tx state objects = [])
    (txs : List Tx) (db : Database Hash Rest Tx Byte σ) : Quiet protocol state txs db := by
  induction txs generalizing db with
  | nil => trivial
  | cons tx txs induction => exact ⟨.inr (none tx db.objects), induction _⟩

/-- None of the transactions that a push of a block pushes again opens a
session when it is evaluated. -/
def QuietRestore (pending : List Tx) (db : Database Hash Rest Tx Byte σ) : Prop :=
  let popped := { (Throwing.forEach (Database.offer protocol .popBlock)
    db.poppedTx).after db with poppedTx := [] }
  let repushed := (Throwing.forEach (Database.offer protocol .rePush) pending).after popped
  Quiet protocol .popBlock db.poppedTx db ∧
    Quiet protocol .fromNet (protocol.agreedTasks repushed.objects) repushed

omit [DecidableEq Hash] in
theorem Awaits.setPoppedTx (awaits : Awaits settled db) (poppedTx : List Tx) :
    Awaits { settled with poppedTx := poppedTx } { db with poppedTx := poppedTx } := by
  cases awaits with
  | idle pendingTx => exact .idle pendingTx
  | pending pendingTx same => exact .pending pendingTx same

theorem Settled.restorePending (isSettled : settled.Settled) (pending : List Tx)
    (low : floor + 1 ≤ settled.undo.maxSize)
    (room : floor + 2 ≤ settled.undo.maxSize ∨ QuietRestore protocol pending settled) :
    ∃ kept, floor ≤ kept ∧ Awaits { settled.trimmed kept with poppedTx := [] }
        ((restorePending protocol pending).after settled) := by
  have emptied (kept : Nat) : { settled.trimmed kept with poppedTx := [] }.Settled :=
    ⟨isSettled.quiet, isSettled.idle, isSettled.room⟩
  obtain ⟨kept₁, enough₁, popped⟩ := (Awaits.refl settled).offers protocol
    isSettled settled.poppedTx .popBlock low (room.imp_right And.left)
  have cleared := popped.setPoppedTx []
  obtain ⟨kept₂, enough₂, repushed⟩ := cleared.offers protocol (emptied kept₁) pending .rePush low
    (.inr (quiet_of_sessions protocol (fun _ _ => rfl) pending _))
  obtain ⟨kept₃, enough₃, agreed⟩ := repushed.offers protocol
    ((emptied kept₁).trimmed kept₂) _ .fromNet low (room.imp_right And.right)
  refine ⟨min kept₃ (min kept₂ kept₁), le_min enough₃ (le_min enough₂ enough₁), ?_⟩
  unfold Database.restorePending Throwing.after
  rw [get_bind, bind_of_ok (offers_apply protocol settled.poppedTx .popBlock _),
    modify_bind, bind_of_ok (offers_apply protocol pending .rePush _),
    get_bind, ← trimmed_trimmed, ← trimmed_trimmed]
  exact agreed

theorem restorePending_apply (pending : List Tx) (db : Database Hash Rest Tx Byte σ) :
    restorePending protocol pending db = (.ok (), (restorePending protocol pending).after db) := by
  unfold Throwing.after restorePending
  rw [get_bind, bind_of_ok (offers_apply protocol db.poppedTx .popBlock _),
    modify_bind, bind_of_ok (offers_apply protocol pending .rePush _), get_bind]
  exact offers_apply protocol _ .fromNet _

theorem pushBlock_eq [Inhabited Hash] (isSettled : settled.Settled)
    (awaits : Awaits settled db) (newBlock : SignedBlock Hash Rest Tx) :
    pushBlock protocol newBlock db =
      ((pushBlockOnHead protocol newBlock { settled with pendingTx := [] }).1,
        (restorePending protocol db.pendingTx).after ((pushBlockOnHead protocol newBlock).after
            { settled with pendingTx := [] })) := by
  unfold pushBlock
  rw [get_bind, modify_bind, awaits.clearPending isSettled, attempt_bind,
    bind_of_ok (restorePending_apply protocol _ _)]
  cases (pushBlockOnHead protocol newBlock { settled with pendingTx := [] }).1 with
  | error fault => rfl
  | ok switched => rfl

theorem popBlock_eq (isSettled : settled.Settled)
    (awaits : Awaits settled db) (pinned : List (ForkItem Hash Rest Tx)) :
    ∃ pendingTx, popBlock protocol pinned db =
      popBlock protocol pinned { settled with pendingTx := pendingTx } := by
  obtain ⟨pendingTx, reset⟩ := awaits.resetPendingSession isSettled
  refine ⟨pendingTx, ?_⟩
  have again : resetPendingSession { settled with pendingTx := pendingTx } =
      { settled with pendingTx := pendingTx } := by
    unfold Database.resetPendingSession
    rw [if_neg (by rw [isSettled.quiet]; exact Bool.false_ne_true)]
  unfold popBlock
  rw [modify_bind, modify_bind, reset, again]

end

end Database

end CocosChain.Chain

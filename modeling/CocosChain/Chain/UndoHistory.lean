import CocosChain.Chain.History
import CocosChain.Chain.PendingTransactions

/-!
# How far back the undo history reaches

Each block sizes the undo history by the distance from the head to the last
irreversible block before it, and one more.  Blocks are applied in one session
with the sessions of operations inside, for which there is room; the sessions
of operations inside those of a pending transaction may find too little.
Popping blocks takes the last irreversible block back as well, but what was
forgotten stays forgotten: the history reaches back to the highest last
irreversible block there has been.
-/

namespace CocosChain.Chain

namespace UndoHistory

variable {Hash Rest Tx Byte σ : Type} [DecidableEq Hash] [Inhabited Hash]
variable (protocol : Protocol Hash Rest Tx Byte σ)

inductive Event (Hash Rest Tx : Type) where
  | pushTransaction (tx : Tx) (state : PushState)
  | pushBlock (block : SignedBlock Hash Rest Tx)
  | popBlock

/-- The state after an event, whether or not it throws. -/
def step (db : Database Hash Rest Tx Byte σ) : Event Hash Rest Tx → Database Hash Rest Tx Byte σ
  | .pushTransaction tx state =>
      (Database.pushTransaction protocol tx state).after db
  | .pushBlock block => (Database.pushBlock protocol block).after db
  | .popBlock => (Database.popBlock protocol []).after db

/-- The state after a run from the genesis state. -/
def run (activeWitnesses : List WitnessId) (others : σ)
    (events : List (Event Hash Rest Tx)) : Database Hash Rest Tx Byte σ :=
  events.foldl (step protocol) (.initial (.genesis activeWitnesses others))

/-- The number of blocks above the highest last irreversible block. -/
def depth (db : Database Hash Rest Tx Byte σ) : Nat := db.headBlockNum - db.irreversiblePeak

/-- The bound leaves room for two open sessions, or no transaction opens a
third one inside them. -/
def Roomy (db : Database Hash Rest Tx Byte σ) : Event Hash Rest Tx → Prop
  | .pushTransaction tx state =>
      depth db + 2 ≤ db.undo.maxSize ∨ Database.pushedSessions protocol tx state db.objects = []
  | .pushBlock block =>
      let pushed := (Database.pushBlockOnHead protocol block).after db.clearPending
      depth pushed + 2 ≤ pushed.undo.maxSize ∨ Database.QuietRestore protocol db.pendingTx pushed
  | .popBlock => True

/-- The states that runs of such events reach from the genesis state. -/
inductive Reachable (activeWitnesses : List WitnessId) (others : σ) :
    Database Hash Rest Tx Byte σ → Prop where
  | initial : Reachable activeWitnesses others
      (.initial (.genesis activeWitnesses others))
  | step {db : Database Hash Rest Tx Byte σ} (event : Event Hash Rest Tx)
      (reached : Reachable activeWitnesses others db)
      (roomy : Roomy protocol db event) :
      Reachable activeWitnesses others (step protocol db event)

/-- The history of a settled state reaches the highest last irreversible
block, and so will it when the next block is applied. -/
structure Reaches (db : Database Hash Rest Tx Byte σ) : Prop where
  bounded : db.undo.Forall
    (fun objects => objects.lastIrreversibleBlockNum ≤ db.irreversiblePeak)
  deep : depth db ≤ db.undo.saved.length
  room : depth db + 1 ≤ db.undo.maxSize

namespace Reaches

variable {protocol} {db : Database Hash Rest Tx Byte σ}

omit [DecidableEq Hash] [Inhabited Hash] in
theorem of_undo (reaches : Reaches db) (undo : other.undo = db.undo)
    (peak : other.irreversiblePeak = db.irreversiblePeak) : Reaches other where
  bounded := by
    rw [undo, peak]
    exact reaches.bounded
  deep := by
    unfold depth Database.headBlockNum Database.objects
    rw [undo, peak]
    exact reaches.deep
  room := by
    unfold depth Database.headBlockNum Database.objects
    rw [undo, peak]
    exact reaches.room

omit [DecidableEq Hash] [Inhabited Hash] in
theorem trim (reaches : Reaches db) (enough : depth db ≤ kept) : Reaches (db.trimmed kept) where
  bounded := by
    refine ⟨reaches.bounded.1, ?_⟩
    intro state member
    exact reaches.bounded.2 state (List.mem_of_mem_take member)
  deep := by
    change depth db ≤ (db.undo.saved.take kept).length
    rw [List.length_take]
    exact le_min enough reaches.deep
  room := reaches.room

section

variable (reaches : Reaches db) (history : Database.History protocol db)
include reaches history

theorem sizeAfter_ge (onHead : db.objects.headBlockId = block.previous) :
    depth db + 1 ≤ Database.sizeAfter block db.objects := by
  have number := history.objects_sound.blockNum_of_previous onHead
  have bounded := reaches.bounded.1
  unfold depth Database.headBlockNum Database.sizeAfter
  change db.objects.lastIrreversibleBlockNum ≤ _ at bounded
  omega

theorem spared (enough : Database.spared block db ≤ kept + 1) : depth db ≤ kept := by
  have room := reaches.room
  unfold Database.spared at enough
  split at enough
  · rename_i onHead
    have sized := reaches.sizeAfter_ge history onHead
    omega
  · omega

theorem extended (applied : db.objects.applyBlock protocol block = some next) (id : BlockId Hash)
    (enough : Database.spared block db ≤ kept + 1) :
    Reaches (Database.extended protocol id block next kept db) := by
  have onHead := Objects.applyBlock_onHead protocol applied
  have number := history.objects_sound.blockNum_of_previous onHead
  have head := (Objects.applyBlock_extends applied).headNumber
  have spared := reaches.spared history enough
  have deep := reaches.deep
  have bounded : db.objects.lastIrreversibleBlockNum ≤ db.irreversiblePeak := reaches.bounded.1
  have advanced : depth (Database.extended protocol id block next kept db) =
      db.headBlockNum + 1 - max db.irreversiblePeak next.lastIrreversibleBlockNum := by
    change next.headBlockNumber - _ = _
    rw [head, number]
    rfl
  have larger : db.irreversiblePeak ≤ max db.irreversiblePeak next.lastIrreversibleBlockNum :=
    le_max_left _ _
  unfold depth at spared deep
  refine ⟨⟨le_max_right _ _, ?_⟩, ?_, ?_⟩
  · intro state member
    rcases List.mem_cons.mp member with rfl | older
    · exact bounded.trans larger
    · exact (reaches.bounded.2 state (List.mem_of_mem_take older)).trans larger
  · change _ ≤ (db.objects :: db.undo.saved.take kept).length
    rw [advanced, List.length_cons, List.length_take]
    omega
  · change _ ≤ Database.sizeAfter block db.objects
    unfold Database.sizeAfter
    rw [advanced, number]
    change db.headBlockNum + 1 - _ + 1 ≤ db.headBlockNum + 1 - _ + 1
    omega

theorem reverted (reverted : Database.Reverted block db kept after)
    (enough : Database.spared block db ≤ kept + 1) : Reaches after := by
  have spared := reaches.spared history enough
  cases reverted with
  | early => exact reaches.trim spared
  | late onHead =>
    have sized : Reaches (db.setHistorySize (Database.sizeAfter block db.objects)) :=
      ⟨reaches.bounded, reaches.deep, reaches.sizeAfter_ge history onHead⟩
    exact sized.trim spared

theorem popCommit (restored : db.undo.popCommit = some undo) :
    Reaches { db with undo := undo } ∧ undo.current.headBlockNumber + 1 = db.headBlockNum := by
  have number := (history.popCommit_replays restored).number protocol
    (history.popCommit restored).objects_sound
  rw [SnapshotStack.popCommit_of_idle history.idle] at restored
  split at restored
  · cases restored
  · rename_i top below saved
    cases restored
    change db.objects.headBlockNumber = top.headBlockNumber + 1 at number
    have deep := reaches.deep
    have room := reaches.room
    have bounded := reaches.bounded.2
    rw [saved] at deep bounded
    rw [List.length_cons] at deep
    unfold depth Database.headBlockNum at deep room
    rw [number] at deep room
    refine ⟨⟨⟨?_, ?_⟩, ?_, ?_⟩, number.symm⟩
    · exact bounded top List.mem_cons_self
    · intro state member
      exact bounded state (List.mem_cons_of_mem top member)
    · change top.headBlockNumber - db.irreversiblePeak ≤ below.length
      omega
    · change top.headBlockNumber - db.irreversiblePeak + 1 ≤ db.undo.maxSize
      omega

end

theorem historyClosed : Database.HistoryClosed protocol Reaches where
  of_undo := of_undo
  popCommit reaches history restored := (reaches.popCommit history restored).1
  extended reaches history := reaches.extended history
  reverted reaches history := reaches.reverted history

omit [DecidableEq Hash] in
theorem initial (activeWitnesses : List WitnessId) (others : σ) :
    Reaches (.initial (.genesis activeWitnesses others) : Database Hash Rest Tx Byte σ) where
  bounded := ⟨le_rfl, nofun⟩
  deep := le_rfl
  room := Nat.le_of_ble_eq_true rfl

end Reaches

variable {protocol} {db : Database Hash Rest Tx Byte σ}

omit [DecidableEq Hash] [Inhabited Hash] in
theorem depth_awaits (awaits : Database.Awaits settled db) : depth db = depth settled := by
  unfold depth Database.headBlockNum
  rw [awaits.sameChain, awaits.irreversiblePeak]

/-- Every state reached is settled, or has transactions pending on top of a
settled one, whose history is deep enough. -/
theorem reachable_settled (reached : Reachable protocol activeWitnesses others db) :
    ∃ settled, Database.Awaits settled db ∧
      Database.Sound protocol [] settled ∧ Reaches settled := by
  induction reached with
  | initial =>
    exact ⟨_, .idle [], .initial activeWitnesses others, .initial activeWitnesses others⟩
  | @step db event _ roomy induction =>
    obtain ⟨_, awaits, sound, reaches⟩ := induction
    have isSettled := sound.history.toSettled
    cases event with
    | pushTransaction tx state =>
      unfold Roomy at roomy
      rw [depth_awaits awaits, awaits.maxSize] at roomy
      obtain ⟨kept, enough, after⟩ := awaits.pushTransaction protocol
        isSettled tx state reaches.room roomy
      exact ⟨_, after, sound.trim kept, reaches.trim enough⟩
    | pushBlock block =>
      unfold Roomy at roomy
      rw [awaits.clearPending isSettled] at roomy
      obtain ⟨pushedSound, pushedReaches⟩ :=
        Reaches.historyClosed.pushBlockOnHead (sound.setPendingTx []) (reaches.of_undo rfl rfl)
          block
      obtain ⟨kept, enough, after⟩ :=
        pushedSound.history.toSettled.restorePending protocol db.pendingTx pushedReaches.room roomy
      refine ⟨_, ?_, (pushedSound.trim kept).setPoppedTx [],
        (pushedReaches.trim enough).of_undo rfl rfl⟩
      change Database.Awaits _ (Database.pushBlock protocol block db).2
      rw [Database.pushBlock_eq protocol isSettled awaits]
      exact after
    | popBlock =>
      obtain ⟨pendingTx, same⟩ := Database.popBlock_eq protocol isSettled awaits []
      have setSound := sound.setPendingTx pendingTx
      refine ⟨_, ?_, Database.Sound.popBlock _ setSound,
        Reaches.historyClosed.popBlock [] setSound.history (reaches.of_undo rfl rfl)⟩
      change Database.Awaits _ (Database.popBlock protocol [] db).2
      rw [same]
      exact .idle _

/-- In every state that a run reaches, there is a committed snapshot for each
block above the highest last irreversible block there has been, and so the
blocks can be undone down to it. -/
theorem history_reaches_irreversible_peak (reached : Reachable protocol activeWitnesses others db) :
    db.headBlockNum - db.irreversiblePeak ≤ db.undo.committed ∧
      db.objects.lastIrreversibleBlockNum ≤ db.irreversiblePeak ∧
      ∀ count, count ≤ db.headBlockNum - db.irreversiblePeak →
        ∃ undo, db.resetPendingSession.undo.popCommits count = some undo ∧
          undo.current.headBlockNumber = db.headBlockNum - count := by
  obtain ⟨settled, awaits, sound, reaches⟩ := reachable_settled reached
  have isSettled := sound.history.toSettled
  obtain ⟨_, reset⟩ := awaits.resetPendingSession isSettled
  have same : db.headBlockNum = settled.headBlockNum := by
    unfold Database.headBlockNum
    rw [awaits.sameChain]
  rw [awaits.committed isSettled, awaits.irreversiblePeak, same, reset]
  refine ⟨reaches.deep, ?_, ?_⟩
  · rw [awaits.sameChain]
    exact reaches.bounded.1
  · intro count enough
    obtain ⟨undo, popped, head⟩ := sound.history.popCommits_succeeds (enough.trans reaches.deep)
    exact ⟨undo, popped, by omega⟩

/-- A protocol in which each transaction opens a session for its operation. -/
def nesting : Protocol (SymbolicHash Bool Nat) Bool Nat
    (SignedBlock (SymbolicHash Bool Nat) Bool Nat) Unit :=
  { Protocol.symbolic with
    evaluate := fun _ _ _ => { sessions := [some ()], outcome := some (), invoked := false } }

/-- Of two blocks one is popped, and there is room for the sessions of a
transaction. -/
theorem history_reaches_irreversible_peak_popped :
    let first := Digests.symbolic.assemble default 0 true [7]
    let second := Digests.symbolic.assemble first.blockId 1 true []
    let db := run nesting [0, 1, 2] () [.pushBlock first, .pushBlock second, .popBlock,
      .pushTransaction 5 .fromMe]
    db.headBlockNum = 1 ∧ db.irreversiblePeak = 0 ∧
      db.headBlockNum - db.irreversiblePeak ≤ db.undo.committed := by
  intro first second db
  have roomy {db : Database _ _ _ _ _} {block : SignedBlock _ _ _}
      (none : ((Database.pushBlockOnHead nesting block).after db.clearPending).poppedTx = []) :
      Roomy nesting db (.pushBlock block) := by
    refine .inr ⟨?_, trivial⟩
    rw [none]
    trivial
  have one : Reachable nesting [0, 1, 2] () (run nesting [0, 1, 2] () [.pushBlock first]) :=
    .step _ .initial (roomy (by decide +kernel))
  have two := one.step (.pushBlock second) (roomy (by decide +kernel))
  have reached : Reachable nesting [0, 1, 2] () db :=
    .step (.pushTransaction 5 .fromMe) (two.step .popBlock trivial) (.inl (by decide +kernel))
  exact ⟨by decide +kernel, by decide +kernel, (history_reaches_irreversible_peak reached).1⟩

/-- Nine blocks make the sixth one irreversible.  When three of them have been
popped none is, but only two blocks can be undone. -/
theorem history_too_short_after_pops :
    let blocks := (Digests.symbolic : Digests _ Bool Nat).assembleChain default
      ([0, 1, 0, 1, 0, 1, 2, 0, 0].map (·, true, []))
    let db := run Protocol.symbolic [0, 1, 2] ()
      (blocks.map .pushBlock ++ [.popBlock, .popBlock, .popBlock])
    db.undo.active = 0 ∧ db.headBlockNum = 6 ∧
      db.objects.lastIrreversibleBlockNum = 0 ∧ db.undo.committed = 2 := by
  decide +kernel

end UndoHistory

end CocosChain.Chain

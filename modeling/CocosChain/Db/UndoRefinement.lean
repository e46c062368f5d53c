import CocosChain.Db.UndoRestore
import CocosChain.Library.SnapshotStack

/-!
# The undo database is a stack of snapshots

The abstract machine keeps whole copies of the store; the undo database keeps
differences.  Every undo state represents the difference between the copy on
the same level of the abstract stack and the next newer copy, and each
operation of the object database simulates the corresponding operation on
copies.
-/

namespace CocosChain.Db

variable {V K S : Type} [DecidableEq K]

/-- An elementary step of a session. -/
inductive Action (V : Type) where
  | create (index : IndexId) (value : V)
  | modify (id : ObjectId) (change : V → V)
  | remove (id : ObjectId)

/-- The step on the bare store. -/
def Action.perform : Action V → Store V → Option (Store V)
  | create index value, store =>
      some
        { objects :=
            store.objects.insert ⟨index, store.nextId index⟩ value
          nextId := Function.update store.nextId index
            (store.nextId index + 1) }
  | modify id change, store =>
      (store.objects.lookup id).map fun value =>
        { store with objects := store.objects.insert id (change value) }
  | remove id, store =>
      (store.objects.lookup id).map fun _ =>
        { store with objects := store.objects.erase id }

variable {store : Store V}

theorem not_mem_of_wellFormed (wellFormed : store.WellFormed) (index : IndexId) :
    ⟨index, store.nextId index⟩ ∉ store.objects := by
  intro taken
  obtain ⟨_, found⟩ := Finmap.mem_iff.mp taken
  have below := wellFormed ⟨index, store.nextId index⟩ (by simp [found])
  exact lt_irrefl _ below

namespace UndoState

theorem represents_empty (store : Store V) :
    (UndoState.empty : UndoState V).Represents store store := by
  refine ⟨recorded_empty, ?_, ?_, ?_, ?_⟩
  · intro id
    exact rfl
  · intro id created
    cases created
  · intro index
    simp [empty]
  · intro index
    exact le_rfl

section Extend

variable {state next : UndoState V} {before middle after : Store V}

section

variable (represents : state.Represents before middle)
include represents

theorem Represents.unused (wellFormed : before.WellFormed) {id : ObjectId}
    (fresh : middle.nextId id.index ≤ id.number) : before.objects.lookup id = none := by
  cases found : before.objects.lookup id with
  | none => rfl
  | some value =>
    have numbered := wellFormed id (by simp [found])
    have grown := represents.grows id.index
    omega

variable {second : ObjectId → Change V}

theorem Represents.composable (wellFormed : before.WellFormed)
    (holds : ∀ id, (second id).Holds (middle.objects.lookup id) (after.objects.lookup id))
    (fresh : ∀ id, second id = .created → middle.nextId id.index ≤ id.number) (id : ObjectId) :
    Composable (state.changeAt id) (second id) ∧ ((state.changeAt id).andThen (second id)).Holds
        (before.objects.lookup id) (after.objects.lookup id) := by
  apply (represents.holds id).trans (holds id)
  intro created
  exact represents.unused wellFormed (fresh id created)

theorem Represents.extend (wellFormed : before.WellFormed)
    (holds : ∀ id, (second id).Holds (middle.objects.lookup id) (after.objects.lookup id))
    (fresh : ∀ id, second id = .created → middle.nextId id.index ≤ id.number)
    (recorded : next.Recorded)
    (composed : ∀ id, next.changeAt id = (state.changeAt id).andThen (second id))
    (grows : ∀ index, middle.nextId index ≤ after.nextId index)
    (counters : ∀ index, before.nextId index =
      (next.oldIndexNextIds.lookup index).getD (after.nextId index)) :
    next.Represents before after := by
  refine ⟨recorded, ?_, ?_, counters, ?_⟩
  · intro id
    rw [composed]
    exact (represents.composable wellFormed holds fresh id).2
  · intro id created
    rw [composed] at created
    rcases Change.created_of_andThen created with first | later
    · exact represents.fresh id first
    · exact le_trans (represents.grows id.index) (fresh id later)
  · intro index
    exact le_trans (represents.grows index) (grows index)

end

end Extend

/-- The change made to one id, and none elsewhere. -/
def only (id : ObjectId) (change : Change V) (other : ObjectId) : Change V :=
  if other = id then change else .same

theorem only_self (id : ObjectId) (change : Change V) : only id change id = change := by
  simp [only]

theorem only_of_ne {id : ObjectId} (different : other ≠ id)
    (change : Change V) : only id change other = .same := by
  simp [only, different]

/-- The rule for the three callbacks: one id changes, and the state composes
its record there with the change. -/
theorem Represents.step {state next : UndoState V} {id : ObjectId}
    (represents : state.Represents before middle) (wellFormed : before.WellFormed)
    (change : Change V) (own : change.Holds (middle.objects.lookup id) (after.objects.lookup id))
    (others : ∀ other, other ≠ id → after.objects.lookup other = middle.objects.lookup other)
    (fresh : change = .created → middle.nextId id.index ≤ id.number)
    (slotOwn : Composable (state.changeAt id) change → next.slot id = slotOf
      ((state.changeAt id).andThen change))
    (slotOthers : ∀ other, other ≠ id → next.slot other = state.slot other)
    (grows : ∀ index, middle.nextId index ≤ after.nextId index)
    (counters : ∀ index, before.nextId index = (next.oldIndexNextIds.lookup
      index).getD (after.nextId index)) : next.Represents before after := by
  have holds : ∀ other, (only id change other).Holds
      (middle.objects.lookup other) (after.objects.lookup other) := by
    intro other
    by_cases same : other = id
    · subst same
      rw [only_self]
      exact own
    · rw [only_of_ne same]
      exact (others other same).symm
  have numbered : ∀ other, only id change other = .created →
      middle.nextId other.index ≤ other.number := by
    intro other created
    by_cases same : other = id
    · subst same
      rw [only_self] at created
      exact fresh created
    · rw [only_of_ne same] at created
      cases created
  have composable := (represents.composable wellFormed holds numbered id).1
  rw [only_self] at composable
  obtain ⟨recorded, rewritten, kept⟩ := represents.recorded.of_slot (slotOwn composable) slotOthers
  apply represents.extend wellFormed holds numbered recorded _ grows counters
  intro other
  by_cases same : other = id
  · subst same
    rw [only_self, rewritten]
  · rw [only_of_ne same, Change.andThen_same, kept other same]

section Callbacks

variable {state : UndoState V} {before middle : Store V}

variable (represents : state.Represents before middle)
include represents

variable (wellFormed : before.WellFormed)
include wellFormed

theorem Represents.onCreate (numbered : middle.WellFormed) (index : IndexId) (value : V) :
    (state.onCreate ⟨index, middle.nextId index⟩).Represents before
      { objects := middle.objects.insert ⟨index, middle.nextId index⟩ value
        nextId := Function.update middle.nextId index
          (middle.nextId index + 1) } := by
  have absent : middle.objects.lookup ⟨index, middle.nextId index⟩ = none :=
    Finmap.lookup_eq_none.mpr (not_mem_of_wellFormed numbered index)
  apply represents.step wellFormed .created
  · rw [absent, Finmap.lookup_insert]
    exact Change.holds_created rfl
  · intro other different
    exact Finmap.lookup_insert_of_ne _ different
  · intro _
    exact le_rfl
  · intro composable
    have untouched := same_of_composable_created composable
    have record := represents.recorded ⟨index, middle.nextId index⟩
    rw [untouched] at record ⊢
    exact slot_onCreate _ state record
  · intro other different
    exact slot_onCreate_of_ne state different
  · intro other
    by_cases same : other = index
    · subst same
      simp
    · simp [Function.update_of_ne same]
  · intro other
    have counter := represents.counters other
    by_cases same : other = index
    · subst same
      cases saved : state.oldIndexNextIds.lookup other with
      | none =>
        have missing := Finmap.lookup_eq_none.mp saved
        simpa [UndoState.onCreate, missing, saved] using counter
      | some number =>
        have present := Finmap.mem_of_lookup_eq_some saved
        simpa [UndoState.onCreate, present, saved] using counter
    · have kept : (state.onCreate ⟨index, middle.nextId index⟩ ).oldIndexNextIds.lookup other =
          state.oldIndexNextIds.lookup other := by
        simp only [UndoState.onCreate]
        split
        · rfl
        · exact Finmap.lookup_insert_of_ne _ same
      rw [kept]
      simpa [Function.update_of_ne same] using counter

theorem Represents.onModify {id : ObjectId}
    (found : middle.objects.lookup id = some value) (next : V) :
    (state.onModify id value).Represents before
      { middle with objects := middle.objects.insert id next } := by
  apply represents.step wellFormed (.updated value)
  · rw [found, Finmap.lookup_insert]
    exact Change.holds_updated value rfl
  · intro other different
    exact Finmap.lookup_insert_of_ne _ different
  · intro created
    cases created
  · exact slot_onModify (represents.recorded id)
  · intro other different
    exact slot_onModify_of_ne state different
  · intro index
    exact le_rfl
  · intro index
    rw [oldIndexNextIds_onModify]
    exact represents.counters index

theorem Represents.onRemove {id : ObjectId} (found : middle.objects.lookup id = some value) :
    (state.onRemove id value).Represents before
      { middle with objects := middle.objects.erase id } := by
  apply represents.step wellFormed (.deleted value)
  · rw [found, Finmap.lookup_erase]
    exact Change.holds_deleted value
  · intro other different
    exact Finmap.lookup_erase_ne different
  · intro created
    cases created
  · exact slot_onRemove (represents.recorded id)
  · intro other different
    exact slot_onRemove_of_ne state different
  · intro index
    exact le_rfl
  · intro index
    rw [oldIndexNextIds_onRemove]
    exact represents.counters index

theorem Represents.mergeInto (later : newer.Represents middle after)
    (enumerates : iteration.Enumerates newer) :
    ∃ merged, state.mergeInto iteration = .ok merged ∧ merged.Represents before after := by
  have composable := represents.composable wellFormed later.holds later.fresh
  obtain ⟨merged, success, recorded, composed, counted⟩ :=
    mergeInto_spec enumerates represents.recorded later.recorded (fun id => (composable id).1)
  refine ⟨merged, success, ?_⟩
  apply represents.extend wellFormed later.holds later.fresh recorded composed later.grows
  intro index
  rw [counted, represents.counters index]
  cases state.oldIndexNextIds.lookup index with
  | none => simpa using later.counters index
  | some number => rfl

end Callbacks

end UndoState

theorem wellFormed_create (wellFormed : store.WellFormed) (index : IndexId) (value : V) :
    Store.WellFormed
      { objects := store.objects.insert ⟨index, store.nextId index⟩ value
        nextId := Function.update store.nextId index
          (store.nextId index + 1) } := by
  intro id live
  by_cases same : id = ⟨index, store.nextId index⟩
  · subst same
    simp
  · rw [Finmap.lookup_insert_of_ne _ same] at live
    have numbered := wellFormed id live
    by_cases sameIndex : id.index = index
    · rw [sameIndex] at numbered ⊢
      simp only [Function.update_self]
      omega
    · simpa [Function.update_of_ne sameIndex] using numbered

theorem wellFormed_modify (wellFormed : store.WellFormed) {id : ObjectId}
    (found : store.objects.lookup id = some value) (next : V) :
    Store.WellFormed { store with objects := store.objects.insert id next } := by
  intro other live
  apply wellFormed other
  by_cases same : other = id
  · subst same
    simp [found]
  · simpa [Finmap.lookup_insert_of_ne _ same] using live

theorem wellFormed_remove (wellFormed : store.WellFormed) (id : ObjectId) :
    Store.WellFormed { store with objects := store.objects.erase id } := by
  intro other live
  apply wellFormed other
  by_cases same : other = id
  · subst same
    simp at live
  · simpa [Finmap.lookup_erase_ne same] using live

/-- Each undo state represents the way from one saved store to the next. -/
def Tracks : List (UndoState V) → List (Store V) → Store V → Prop
  | [], [], _ => True
  | state :: states, before :: saved, after =>
      state.Represents before after ∧ before.WellFormed ∧ Tracks states saved before
  | _, _, _ => False

namespace Tracks

variable {states : List (UndoState V)} {saved : List (Store V)} {after : Store V}

section

variable (tracks : Tracks states saved after)
include tracks

theorem length_eq : states.length = saved.length := by
  induction states generalizing saved after with
  | nil =>
    cases saved with
    | nil => rfl
    | cons before saved => exact tracks.elim
  | cons state states induction =>
    cases saved with
    | nil => exact tracks.elim
    | cons before saved =>
      rw [List.length_cons, List.length_cons, induction tracks.2.2]

theorem inversion : (states = [] ∧ saved = []) ∨ ∃ state rest before below, states = state :: rest ∧
      saved = before :: below ∧ Tracks (state :: rest) (before :: below) after
      := by
  cases states with
  | nil =>
    cases saved with
    | nil => exact .inl ⟨rfl, rfl⟩
    | cons before below => exact tracks.elim
  | cons state rest =>
    cases saved with
    | nil => exact tracks.elim
    | cons before below => exact .inr ⟨_, _, _, _, rfl, rfl, tracks⟩

theorem recorded : ∀ state ∈ states, state.Recorded := by
  induction states generalizing saved after with
  | nil =>
    intro state member
    cases member
  | cons state states induction =>
    cases saved with
    | nil => exact tracks.elim
    | cons before saved =>
      intro other member
      rcases List.mem_cons.mp member with rfl | later
      · exact tracks.1.recorded
      · exact induction tracks.2.2 other later

theorem wellFormed : ∀ before ∈ saved, before.WellFormed := by
  induction saved generalizing states after with
  | nil =>
    intro before member
    cases member
  | cons before saved induction =>
    rcases tracks.inversion with ⟨_, impossible⟩ | ⟨_, _, _, _, rfl, same, older⟩
    · cases impossible
    · cases same
      intro other member
      rcases List.mem_cons.mp member with rfl | later
      · exact older.2.1
      · exact induction older.2.2 other later

theorem take (bound : Nat) : Tracks (states.take bound) (saved.take bound) after := by
  induction bound generalizing states saved after with
  | zero => trivial
  | succ bound induction =>
    rcases tracks.inversion with ⟨rfl, rfl⟩ | ⟨_, _, _, _, rfl, rfl, same⟩
    · trivial
    · exact ⟨same.1, same.2.1, induction same.2.2⟩

end

theorem updateBack {undoDb : UndoDatabase V} (tracks : Tracks undoDb.stack saved middle)
    (numbered : middle.WellFormed) (enabled : undoDb.disabled = false)
    (step : ∀ state before, state.Represents before middle → before.WellFormed →
      (update state).Represents before after) :
    Tracks (undoDb.updateBack update).stack (SnapshotStack.rooted middle saved) after := by
  cases stack : undoDb.stack with
  | nil =>
    rw [stack] at tracks
    cases saved with
    | nil =>
      simp only [UndoDatabase.updateBack, enabled, stack]
      exact ⟨step _ _ (UndoState.represents_empty middle) numbered, numbered, trivial⟩
    | cons before saved => exact tracks.elim
  | cons state states =>
    rw [stack] at tracks
    cases saved with
    | nil => exact tracks.elim
    | cons before saved =>
      simp only [UndoDatabase.updateBack, enabled, stack]
      exact ⟨step _ _ tracks.1 tracks.2.1, tracks.2⟩

end Tracks

/-- The database stands where the abstract machine stands. -/
structure Refines (db : ObjectDatabase V S) (stack : SnapshotStack (Store V)) : Prop where
  store : db.store = stack.current
  wellFormed : db.store.WellFormed
  tracks : Tracks db.undoDb.stack stack.saved db.store
  active : db.undoDb.activeSessions = stack.active
  maxSize : db.undoDb.maxSize = stack.maxSize
  enabled : db.undoDb.disabled = false

/-- Why a run leaves the scope of the exactness results: the stack was
trimmed, or an assertion failed. -/
inductive Stop where
  | trimmed
  | fault (fault : Fault)
  deriving DecidableEq, Repr

namespace ObjectDatabase

variable (config : IndexConfig V K S)

def act (db : ObjectDatabase V S) : Action V → Except Fault (ObjectDatabase V S)
  | .create index value => create config index value db
  | .modify id change => modify config id change db
  | .remove id => remove config id db

def orStop (result : Except Fault (ObjectDatabase V S)) : Except Stop (ObjectDatabase V S) :=
  match result with
  | .ok db => .ok db
  | .error fault => .error (.fault fault)

theorem orStop_eq_ok : orStop result = .ok db ↔ result = .ok db := by
  cases result <;> simp [orStop]

/-- One event.  A step on an object that does not exist is not issued. -/
def react (db : ObjectDatabase V S) : SessionEvent (Action V) (Iterator V) →
      Except Stop (ObjectDatabase V S)
  | .start =>
      if db.undoDb.maxSize < db.undoDb.stack.length then .error .trimmed
      else .ok db.startUndoSession
  | .act action =>
      match act config db action with
      | .error .unableToFindObject => .ok db
      | result => orStop result
  | .finish (.undo iterator) => orStop (undo config iterator db)
  | .finish (.merge iterator) => orStop (merge iterator db)
  | .finish .commit => orStop (commit db)
  | .pop iterator => orStop (popCommit config iterator db)

/-- One event of a database that may trim its stack. -/
def step (db : ObjectDatabase V S) : SessionEvent (Action V) (Iterator V) →
      Except Stop (ObjectDatabase V S)
  | .start => .ok db.startUndoSession
  | .act action => react config db (.act action)
  | .finish ending => react config db (.finish ending)
  | .pop iterator => react config db (.pop iterator)

def run (events : List (SessionEvent (Action V) (Iterator V)))
    (db : ObjectDatabase V S) : Except Stop (ObjectDatabase V S) :=
  events.foldlM (react config) db

end ObjectDatabase

/-- There was no session to end, or nothing to pop. -/
def Fault.Refusal : Fault → Prop
  | noActiveSession | sessionActive | stackEmpty | stackTooSmall => True
  | _ => False

/-- The outcomes of the database that agree with an abstract outcome.  Only a
collision of unique keys is unknown to the abstract machine. -/
inductive Simulates (config : IndexConfig V K S) :
    Except Stop (ObjectDatabase V S) →
    Except SnapshotStack.Stop (SnapshotStack (Store V)) → Prop
  | done {db : ObjectDatabase V S} {stack : SnapshotStack (Store V)}
      (refines : Refines db stack) : Simulates config (.ok db) (.ok stack)
  | trimmed : Simulates config (.error .trimmed) (.error .trimmed)
  | refused {fault : Fault} (refusal : fault.Refusal) :
      Simulates config (.error (.fault fault)) (.error .refused)
  | collided (keyed : config.Keyed)
      (abstract : Except SnapshotStack.Stop (SnapshotStack (Store V))) :
      Simulates config (.error (.fault .uniquenessViolated)) abstract

namespace Refines

open ObjectDatabase

variable (config : IndexConfig V K S) {db : ObjectDatabase V S} {stack : SnapshotStack (Store V)}

theorem write (refines : Refines db stack) {sindex : S} (numbered : after.WellFormed)
    (step : ∀ state before, state.Represents before db.store → before.WellFormed
      → (update state).Represents before after) :
    Refines { store := after, sindex, undoDb := db.undoDb.updateBack update }
      (stack.write after) := by
  have enabled := refines.enabled
  have tracks := refines.tracks.updateBack refines.wellFormed enabled step
  refine ⟨rfl, numbered, ?_, ?_, ?_, ?_⟩
  · rw [refines.store] at tracks
    exact tracks
  · simpa [UndoDatabase.updateBack, enabled, SnapshotStack.write] using refines.active
  · simpa [UndoDatabase.updateBack, enabled, SnapshotStack.write] using refines.maxSize
  · simp [UndoDatabase.updateBack, enabled]

theorem act_simulates (refines : Refines db stack) (action : Action V) :
    Simulates config (react config db (.act action)) (SnapshotStack.react Action.perform stack
        (.act action : SessionEvent (Action V) (Iterator V))) := by
  cases action with
  | create index value =>
    simp only [react, act, SnapshotStack.react, Action.perform]
    cases result : create config index value db with
    | error fault =>
      obtain ⟨rfl, taken | conflict⟩ := create_eq_error result
      · exact (not_mem_of_wellFormed refines.wellFormed index taken).elim
      · exact .collided conflict.keyed _
    | ok next =>
      obtain ⟨-, -, rfl⟩ := create_eq_ok.mp result
      rw [← refines.store]
      exact .done (refines.write (wellFormed_create refines.wellFormed index value)
        (fun state before represents wellFormed =>
          represents.onCreate wellFormed refines.wellFormed index value))
  | modify id change =>
    simp only [react, act, SnapshotStack.react, Action.perform]
    rw [← refines.store]
    cases found : db.store.objects.lookup id with
    | none =>
      simp only [ObjectDatabase.modify, found]
      exact .done refines
    | some value =>
      cases result : modify config id change db with
      | error fault =>
        obtain ⟨rfl, conflict⟩ := modify_eq_error found result
        exact .collided conflict.keyed _
      | ok next =>
        obtain ⟨_, found', -, rfl⟩ := modify_eq_ok.mp result
        rw [found] at found'
        cases found'
        exact .done (refines.write (wellFormed_modify refines.wellFormed found (change value))
          (fun state before represents wellFormed =>
            represents.onModify wellFormed found (change value)))
  | remove id =>
    simp only [react, act, SnapshotStack.react, Action.perform]
    rw [← refines.store]
    cases found : db.store.objects.lookup id with
    | none =>
      simp only [remove, found]
      exact .done refines
    | some value =>
      simp only [remove, found]
      exact .done (refines.write (wellFormed_remove refines.wellFormed id)
        (fun state before represents wellFormed =>
          represents.onRemove wellFormed found))

theorem start_simulates (refines : Refines db stack) :
    Simulates config (react config db .start) (SnapshotStack.react Action.perform stack
        (.start : SessionEvent (Action V) (Iterator V))) := by
  have length := refines.tracks.length_eq
  simp only [react, SnapshotStack.react]
  rw [refines.maxSize, length]
  by_cases full : stack.maxSize < stack.saved.length
  · rw [if_pos full, if_pos full]
    exact .trimmed
  · rw [if_neg full, if_neg full]
    apply Simulates.done
    have room : stack.saved.length ≤ stack.maxSize := Nat.le_of_not_lt full
    rw [SnapshotStack.start_of_room room]
    have states : db.undoDb.stack.take db.undoDb.maxSize = db.undoDb.stack := by
      apply List.take_of_length_le
      rw [length, refines.maxSize]
      exact room
    simp only [startUndoSession, UndoDatabase.startUndoSession, refines.enabled, states]
    refine ⟨refines.store, refines.wellFormed, ?_, ?_, refines.maxSize, rfl⟩
    · rw [← refines.store]
      exact ⟨UndoState.represents_empty db.store, refines.wellFormed, refines.tracks⟩
    · exact congrArg (· + 1) refines.active

theorem restore_newest (iterator : Iterator V)
    (tracks : Tracks (state :: states) (before :: saved) db.store) :
    (∃ restored, restore config (iterator.order state)
        { db with undoDb := db.undoDb.disable } = .ok restored ∧
      restored.undoDb = db.undoDb.disable ∧ restored.store = before ∧
      before.WellFormed ∧ Tracks states saved before) ∨
    restore config (iterator.order state) { db with undoDb := db.undoDb.disable } =
        .error .uniquenessViolated ∧ config.Keyed := by
  have represents : state.Represents before
      (ObjectDatabase.store { db with undoDb := db.undoDb.disable }) :=
    tracks.1
  rcases restore_spec config represents (iterator.enumerates state) rfl with
    ⟨restored, success, store, undoDb⟩ | ⟨failure, clash⟩
  · exact .inl ⟨restored, success, undoDb, store, tracks.2⟩
  · exact .inr ⟨failure, clash.keyed⟩

variable (refines : Refines db stack)
include refines

theorem undo_simulates (iterator : Iterator V) :
    Simulates config (react config db (.finish (.undo iterator)))
      (SnapshotStack.react Action.perform stack (.finish (.undo iterator))) := by
  obtain ⟨_, saved, active, maxSize⟩ := stack
  have count := refines.active
  simp only [react, undo, SnapshotStack.react, SnapshotStack.undo,
    refines.enabled, Bool.false_eq_true, if_false]
  cases active with
  | zero =>
    rw [if_pos count]
    exact .refused trivial
  | succ active =>
    rw [if_neg (by rw [count]; exact Nat.succ_ne_zero active)]
    rcases refines.tracks.inversion with ⟨states, saved⟩ | ⟨_, _, _, _, states, saved, tracks⟩
    · simp only at saved
      subst saved
      rw [states]
      exact .refused trivial
    · simp only at saved
      subst saved
      rw [states]
      rcases restore_newest config iterator tracks with
        ⟨restored, success, undoDb, store, wellFormed, older⟩ |
        ⟨failure, keyed⟩
      · simp only [success]
        refine .done ⟨store, store ▸ wellFormed, store ▸ older, ?_, ?_, rfl⟩
        · exact Nat.pred_eq_of_eq_succ count
        · exact (congrArg UndoDatabase.maxSize undoDb).trans refines.maxSize
      · simp only [failure]
        exact .collided keyed _

theorem pop_simulates (iterator : Iterator V) : Simulates config (react config db (.pop iterator))
      (SnapshotStack.react Action.perform stack (.pop iterator)) := by
  obtain ⟨_, saved, active, maxSize⟩ := stack
  have count := refines.active
  simp only [react, popCommit, SnapshotStack.react, SnapshotStack.popCommit]
  cases active with
  | succ active =>
    rw [if_pos (by rw [count]; exact Nat.succ_ne_zero active)]
    exact .refused trivial
  | zero =>
    rw [if_neg (not_not.mpr count)]
    rcases refines.tracks.inversion with ⟨states, saved⟩ | ⟨_, _, _, _, states, saved, tracks⟩
    · simp only at saved
      subst saved
      rw [states]
      exact .refused trivial
    · simp only at saved
      subst saved
      rw [states]
      rcases restore_newest config iterator tracks with
        ⟨restored, success, undoDb, store, wellFormed, older⟩ |
        ⟨failure, keyed⟩
      · simp only [success]
        refine .done ⟨store, store ▸ wellFormed, store ▸ older, ?_, ?_, rfl⟩
        · exact (congrArg UndoDatabase.activeSessions undoDb).trans count
        · exact (congrArg UndoDatabase.maxSize undoDb).trans refines.maxSize
      · simp only [failure]
        exact .collided keyed _

theorem commit_simulates : Simulates config (react config db (.finish .commit))
      (SnapshotStack.react Action.perform stack
        (.finish .commit : SessionEvent (Action V) (Iterator V))) := by
  obtain ⟨_, _, active, maxSize⟩ := stack
  have count := refines.active
  simp only [react, commit, UndoDatabase.commit, SnapshotStack.react, SnapshotStack.commit]
  cases active with
  | zero =>
    rw [if_pos count]
    exact .refused trivial
  | succ active =>
    rw [if_neg (by rw [count]; exact Nat.succ_ne_zero active)]
    exact .done ⟨refines.store, refines.wellFormed, refines.tracks,
      Nat.pred_eq_of_eq_succ count, refines.maxSize, refines.enabled⟩

theorem merge_simulates (iterator : Iterator V) :
    Simulates config (react config db (.finish (.merge iterator)))
      (SnapshotStack.react Action.perform stack (.finish (.merge iterator))) := by
  obtain ⟨_, saved, active, maxSize⟩ := stack
  have count := refines.active
  simp only [react, merge, UndoDatabase.merge, SnapshotStack.react]
  cases active with
  | zero =>
    rw [if_pos count]
    exact .refused trivial
  | succ active =>
    rw [if_neg (by rw [count]; exact Nat.succ_ne_zero active)]
    rcases refines.tracks.inversion with ⟨states, saved⟩ |
      ⟨state, rest, _, below, states, saved, tracks⟩
    · simp only at saved
      subst saved
      rw [states]
      simp only [List.length_nil, Nat.zero_ne_one, and_false, if_false]
      cases active <;> exact .refused trivial
    · simp only at saved
      subst saved
      rw [states]
      rcases tracks.2.2.inversion with ⟨rfl, rfl⟩ | ⟨_, _, _, _, rfl, rfl, older⟩
      · cases active with
        | zero =>
          rw [if_pos ⟨count, rfl⟩]
          exact .done ⟨refines.store, refines.wellFormed, trivial, rfl,
            refines.maxSize, refines.enabled⟩
        | succ active =>
          have several : db.undoDb.activeSessions ≠ 1 := by
            rw [count]
            exact Nat.succ_succ_ne_one active
          rw [if_neg (fun lone => several lone.1)]
          exact .refused trivial
      · rw [if_neg (by simp)]
        obtain ⟨_, success, represents⟩ := older.1.mergeInto
          older.2.1 tracks.1 (iterator.enumerates state)
        simp only [success]
        cases active <;> exact .done ⟨refines.store, refines.wellFormed,
            ⟨represents, older.2⟩, Nat.pred_eq_of_eq_succ count, refines.maxSize, refines.enabled⟩

theorem react_simulates (event : SessionEvent (Action V) (Iterator V)) :
    Simulates config (react config db event) (SnapshotStack.react Action.perform stack event) := by
  cases event with
  | start => exact start_simulates config refines
  | act action => exact act_simulates config refines action
  | pop iterator => exact pop_simulates config refines iterator
  | finish ending =>
    cases ending with
    | undo iterator => exact undo_simulates config refines iterator
    | merge iterator => exact merge_simulates config refines iterator
    | commit => exact commit_simulates config refines

theorem step_simulates (event : SessionEvent (Action V) (Iterator V)) :
    Simulates config (step config db event) (SnapshotStack.step Action.perform stack event) := by
  cases event with
  | act action => exact react_simulates config refines (.act action)
  | pop iterator => exact react_simulates config refines (.pop iterator)
  | finish ending => exact react_simulates config refines (.finish ending)
  | start =>
    apply Simulates.done
    simp only [startUndoSession, UndoDatabase.startUndoSession,
      refines.enabled, SnapshotStack.start]
    refine ⟨refines.store, refines.wellFormed, ?_, ?_, refines.maxSize, rfl⟩
    · rw [← refines.store, ← refines.maxSize]
      exact ⟨UndoState.represents_empty db.store, refines.wellFormed,
        refines.tracks.take db.undoDb.maxSize⟩
    · exact congrArg (· + 1) refines.active

/-- Whole runs of the database simulate runs on copies of the store. -/
theorem run_simulates (events : List (SessionEvent (Action V) (Iterator V))) :
    Simulates config (run config events db) (SnapshotStack.run Action.perform events stack) := by
  induction events generalizing db stack with
  | nil => exact .done refines
  | cons event events induction =>
    rw [run, SnapshotStack.run, List.foldlM_cons, List.foldlM_cons]
    have step := react_simulates config refines event
    generalize react config db event = result at step
    generalize SnapshotStack.react Action.perform stack event = abstract at step
    cases step with
    | done reached => exact induction reached
    | trimmed => exact .trimmed
    | refused refusal => exact .refused refusal
    | collided keyed abstract => exact .collided keyed _

end Refines

end CocosChain.Db

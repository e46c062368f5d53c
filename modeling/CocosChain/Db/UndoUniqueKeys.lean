import CocosChain.Db.UndoExactness

/-!
# Undo in the presence of unique keys

`undo` puts the old values of modified objects back first, while the objects
created in the session are still there and in whatever order the container of
old values is visited.  Putting a value back fails when its unique key is held
by another object at that moment.  So undo succeeds for every order exactly
when no object that lived through the session had, at the start, a key that
another object has at the end.
-/

namespace CocosChain.Db

variable {V K S : Type} [DecidableEq K]

namespace IndexConfig

variable (config : IndexConfig V K S)

variable {db : ObjectDatabase V S}

theorem unique_insert {id : ObjectId} (unique : config.Unique objects)
    (free : ¬ config.Conflicts objects id value) : config.Unique (objects.insert id value) := by
  intro left leftValue leftFound conflict
  obtain ⟨right, rightValue, rightFound, different, sameIndex, sameKey⟩ :=
    config.conflicts_iff.mp conflict
  by_cases atLeft : left = id
  · subst atLeft
    rw [Finmap.lookup_insert] at leftFound
    cases leftFound
    rw [Finmap.lookup_insert_of_ne _ different] at rightFound
    exact free (config.conflicts_iff.mpr
      ⟨right, rightValue, rightFound, different, sameIndex, sameKey⟩)
  · rw [Finmap.lookup_insert_of_ne _ atLeft] at leftFound
    by_cases atRight : right = id
    · subst atRight
      rw [Finmap.lookup_insert] at rightFound
      cases rightFound
      exact free (config.conflicts_iff.mpr
        ⟨left, leftValue, leftFound, different.symm, sameIndex.symm,
          ⟨sameKey.2 ▸ sameKey.1, sameKey.2.symm⟩⟩)
    · rw [Finmap.lookup_insert_of_ne _ atRight] at rightFound
      exact unique left leftValue leftFound (config.conflicts_iff.mpr
        ⟨right, rightValue, rightFound, different, sameIndex, sameKey⟩)

theorem unique_erase (unique : config.Unique objects) (id : ObjectId) :
    config.Unique (objects.erase id) := by
  have survives : ∀ other value, (objects.erase id).lookup other = some value →
        objects.lookup other = some value := by
    intro other value found
    by_cases same : other = id
    · subst same
      rw [Finmap.lookup_erase] at found
      cases found
    · rwa [Finmap.lookup_erase_ne same] at found
  intro left value found conflict
  obtain ⟨right, held, heldFound, different, sameIndex, sameKey⟩ := config.conflicts_iff.mp conflict
  exact unique left value (survives left value found)
    (config.conflicts_iff.mpr ⟨right, held, survives right held heldFound,
      different, sameIndex, sameKey⟩)

theorem act_unique (unique : config.Unique db.store.objects)
    (success : db.act config action = .ok next) : config.Unique next.store.objects := by
  cases action with
  | create index value =>
    obtain ⟨_, free, rfl⟩ := ObjectDatabase.create_eq_ok.mp success
    exact config.unique_insert unique free
  | modify id change =>
    obtain ⟨value, _, free, rfl⟩ := ObjectDatabase.modify_eq_ok.mp success
    exact config.unique_insert unique free
  | remove id =>
    obtain ⟨_, _, rfl⟩ := ObjectDatabase.remove_eq_ok.mp success
    exact config.unique_erase unique id

theorem react_act_unique (unique : config.Unique db.store.objects)
    (success : db.react config (.act action) = .ok next) : config.Unique next.store.objects := by
  simp only [ObjectDatabase.react] at success
  cases result : db.act config action with
  | ok after =>
    rw [result] at success
    cases success
    exact config.act_unique unique result
  | error fault =>
    rw [result] at success
    cases fault <;> cases success
    exact unique

end IndexConfig

namespace ObjectDatabase

variable (config : IndexConfig V K S)

/-- Keys are unique in the store and in everything it can be rolled back
to. -/
def UniqueThroughout (stack : SnapshotStack (Store V)) : Prop :=
  stack.Forall fun store => config.Unique store.objects

theorem react_unique (refines : Refines db stack) (unique : UniqueThroughout config stack)
    (success : react config db event = .ok next) :
    ∃ final, SnapshotStack.react Action.perform stack event = .ok final ∧
      Refines next final ∧ UniqueThroughout config final := by
  have simulates := Refines.react_simulates config refines event
  rw [success] at simulates
  generalize abstract : SnapshotStack.react Action.perform stack event = outcome at simulates
  cases simulates with
  | done reached =>
    refine ⟨_, rfl, reached, ?_⟩
    by_cases structural : ∀ action, event ≠ .act action
    · exact SnapshotStack.structural_forall Action.perform unique structural abstract
    · push Not at structural
      obtain ⟨action, rfl⟩ := structural
      simp only [SnapshotStack.react] at abstract
      cases performed : action.perform stack.current with
      | none =>
        rw [performed] at abstract
        cases abstract
        exact unique
      | some after =>
        rw [performed] at abstract
        cases abstract
        apply SnapshotStack.write_forall unique
        have current : next.store = after := reached.store
        rw [← current]
        apply config.react_act_unique _ success
        rw [refines.store]
        exact unique.1

theorem run_unique (refines : Refines db stack) (unique : UniqueThroughout config stack)
    (success : run config events db = .ok next) :
    ∃ final, SnapshotStack.run Action.perform events stack = .ok final ∧
      Refines next final ∧ UniqueThroughout config final := by
  induction events generalizing db stack with
  | nil =>
    cases success
    exact ⟨stack, rfl, refines, unique⟩
  | cons event events induction =>
    rw [run, List.foldlM_cons] at success
    obtain ⟨_, step, success⟩ := bind_eq_ok.mp success
    obtain ⟨_, abstract, reached, still⟩ := react_unique config refines unique step
    obtain ⟨final, rest, there, everywhere⟩ := induction reached still success
    refine ⟨final, ?_, there, everywhere⟩
    rw [SnapshotStack.run, List.foldlM_cons, abstract]
    exact rest

/-- The database just before a session is ended. -/
structure AtEnd (start inner : ObjectDatabase V S) (state : UndoState V)
    (states : List (UndoState V)) : Prop where
  stack : inner.undoDb.stack = state :: states
  represents : state.Represents start.store inner.store
  enabled : inner.undoDb.disabled = false
  active : inner.undoDb.activeSessions ≠ 0
  uniqueStart : config.Unique start.store.objects
  uniqueEnd : config.Unique inner.store.objects

theorem atEnd_of_run {inner : ObjectDatabase V S} (refines : Refines start stack)
    (framed : stack.Framed) (unique : UniqueThroughout config stack)
    (quiet : SessionScript.UncommittedAll body)
    (success : run config (.start :: SessionScript.eventsAll body) start = .ok inner) :
    ∃ state states, AtEnd config start inner state states := by
  obtain ⟨final, abstract, reached, everywhere⟩ := run_unique config refines unique success
  rw [SnapshotStack.run, List.foldlM_cons] at abstract
  by_cases full : stack.maxSize < stack.saved.length
  · rw [SnapshotStack.react, if_pos full] at abstract
    cases abstract
  · rw [SnapshotStack.react, if_neg full] at abstract
    have room : stack.saved.length ≤ stack.maxSize := Nat.le_of_not_lt full
    have framedStart : stack.start.Framed := by
      rw [SnapshotStack.start_of_room room]
      exact Nat.succ_le_succ framed
    rcases SnapshotStack.runAll_keeps Action.perform body quiet stack.start
      (List.cons_ne_nil _ _) framedStart with
      ⟨kept, ran, saved, active, _⟩ | trimmed
    · have same : final = kept := by
        have equal : Except.ok final = Except.ok kept := abstract.symm.trans ran
        cases equal
        rfl
      subst same
      have tracks := reached.tracks
      rw [saved] at tracks
      rcases tracks.inversion with ⟨_, impossible⟩ |
        ⟨state, states, before, _, newest, history, older⟩
      · cases impossible
      · have first : before = start.store := by
          rw [refines.store]
          exact (List.cons.inj history).1.symm
        subst first
        refine ⟨state, states, newest, older.1, reached.enabled, ?_, ?_, ?_⟩
        · rw [reached.active, active]
          exact Nat.succ_ne_zero _
        · rw [refines.store]
          exact unique.1
        · rw [reached.store]
          exact everywhere.1
    · have wrong : Except.ok final = Except.error _ :=
        abstract.symm.trans trimmed
      cases wrong

variable {inner : ObjectDatabase V S}

theorem undo_of_not_blocks (ready : AtEnd config start inner state states)
    (free : ¬ config.Blocks start.store.objects inner.store.objects) (iterator : Iterator V) :
    ∃ next, undo config iterator inner = .ok next ∧ next.store = start.store := by
  have represents : state.Represents start.store
      (ObjectDatabase.store { inner with undoDb := inner.undoDb.disable }) :=
    ready.represents
  rcases restore_spec config represents (iterator.enumerates state) rfl with
    ⟨restored, success, store, _⟩ | ⟨_, blocks | shared⟩
  · simp only [undo, ready.enabled, ready.active, ready.stack, success]
    exact ⟨_, rfl, store⟩
  · exact (free blocks).elim
  · exact (shared ready.uniqueStart).elim

theorem undo_of_blocks (ready : AtEnd config start inner state states)
    (blocks : config.Blocks start.store.objects inner.store.objects) :
    ∃ iterator, undo config iterator inner = .error .uniquenessViolated := by
  obtain ⟨id, was, before, kept, conflict⟩ := blocks
  have modified : state.changeAt id = .updated was := by
    have holds := ready.represents.holds id
    rw [before] at holds
    cases change : state.changeAt id with
    | same =>
      rw [change] at holds
      exact (ready.uniqueEnd id was holds.symm conflict).elim
    | created =>
      rw [change] at holds
      cases holds.1
    | updated first =>
      rw [change] at holds
      cases holds.1
      rfl
    | deleted last =>
      rw [change] at holds
      rw [holds.2] at kept
      cases kept
  have recorded := ready.represents.recorded
  obtain ⟨rest, listed⟩ := KeyedFold.ListsMap.exists_head
    ((UndoState.lookup_oldValues_iff (recorded id) was).mpr modified)
  obtain ⟨iteration, enumerates⟩ := Iterator.exists_iteration state
  have visitedFirst : Iteration.Enumerates
      { iteration with oldValues := (id, was) :: rest } state :=
    ⟨listed, enumerates.oldIndexNextIds, enumerates.newIds, enumerates.removed⟩
  obtain ⟨iterator, order⟩ := Iterator.exists_order visitedFirst
  refine ⟨iterator, ?_⟩
  obtain ⟨_, found⟩ := Option.isSome_iff_exists.mp kept
  have failure : modify config id (fun _ => was) { inner with undoDb := inner.undoDb.disable } =
      .error .uniquenessViolated := by
    simp [modify, found, conflict]
  simp only [undo, ready.enabled, ready.active, ready.stack, order]
  simp only [restore, List.foldlM_cons, failure]
  rfl

/-- Undo succeeds and restores the store for every iteration order exactly
when no object that lived through the session had, at its start, a unique key
that another object holds at its end. -/
theorem undo_succeeds_iff (store : Store V) (wellFormed : store.WellFormed)
    (unique : config.Unique store.objects) (sindex : S) (maxSize : Nat)
    (events : List (SessionEvent (Action V) (Iterator V)))
    (start inner : ObjectDatabase V S) (body : List (Script V))
    (reached : run config events (tracking store sindex maxSize) = .ok start)
    (quiet : SessionScript.UncommittedAll body)
    (ran : run config (.start :: SessionScript.eventsAll body) start = .ok inner) :
    (∀ iterator, ∃ next, undo config iterator inner = .ok next ∧ next.store = start.store) ↔
    ¬ config.Blocks start.store.objects inner.store.objects := by
  have unused : UniqueThroughout config ⟨store, [], 0, maxSize⟩ := ⟨unique, nofun⟩
  obtain ⟨_, abstract, refines, everywhere⟩ := run_unique config
    (refines_tracking wellFormed sindex maxSize) unused reached
  have unframed : (⟨store, [], 0, maxSize⟩ : SnapshotStack (Store V)).Framed := Nat.le_refl 0
  have framed := SnapshotStack.run_framed Action.perform unframed abstract
  obtain ⟨_, _, ready⟩ := atEnd_of_run config refines framed everywhere quiet ran
  constructor
  · intro succeeds blocks
    obtain ⟨iterator, failure⟩ := undo_of_blocks config ready blocks
    obtain ⟨_, success, _⟩ := succeeds iterator
    rw [failure] at success
    cases success
  · intro free iterator
    exact undo_of_not_blocks config ready free iterator

/-- An index whose objects are numbers that must differ. -/
def distinctNumbers : IndexConfig Nat Nat Unit :=
  { (IndexConfig.plain : IndexConfig Nat Empty Unit) with uniqueKey := some }

/-- A store with the single object 1. -/
def singleNumber : Store Nat :=
  { objects := Finmap.insert ⟨⟨1, 0⟩, 0⟩ 1 ∅
    nextId := fun _ => 1 }

theorem singleNumber_wellFormed : singleNumber.WellFormed := by
  intro id live
  by_cases same : id = ⟨⟨1, 0⟩, 0⟩
  · subst same
    decide
  · simp [singleNumber, Finmap.lookup_insert_of_ne _ same] at live

theorem singleNumber_unique : distinctNumbers.Unique singleNumber.objects := by
  apply distinctNumbers.unique_insert
  · intro id value found
    simp at found
  · decide

/-- A session that only renumbers the object can be undone. -/
theorem undo_succeeds_iff_renumbered : ∃ inner, run distinctNumbers
        [.start, .act (.modify ⟨⟨1, 0⟩, 0⟩ fun _ => 2)]
        (tracking singleNumber () 10) = .ok inner ∧
      ((∀ iterator, ∃ next, undo distinctNumbers iterator inner = .ok next ∧
        next.store = singleNumber) ↔
      ¬ distinctNumbers.Blocks singleNumber.objects inner.store.objects) :=
  ⟨_, rfl, undo_succeeds_iff distinctNumbers singleNumber
    singleNumber_wellFormed singleNumber_unique () 10 [] _ _
    [.step (.modify ⟨⟨1, 0⟩, 0⟩ fun _ => 2)] rfl ⟨trivial, trivial⟩ rfl⟩

def reuseNumber : List (Script Nat) :=
  [.step (.modify ⟨⟨1, 0⟩, 0⟩ fun _ => 2), .step (.create ⟨1, 0⟩ 1)]

/-- Renumbering the object and giving its number to a new one never collides,
but cannot be undone: the old number is put back while the new object still
has it. -/
theorem undo_fails_on_reused_key : ∃ inner iterator, run distinctNumbers
        (.start :: SessionScript.eventsAll reuseNumber)
        (tracking singleNumber () 10) = .ok inner ∧
      undo distinctNumbers iterator inner = .error .uniquenessViolated := by
  have unique : UniqueThroughout distinctNumbers ⟨singleNumber, [], 0, 10⟩ :=
    ⟨singleNumber_unique, nofun⟩
  have quiet : SessionScript.UncommittedAll reuseNumber := ⟨trivial, trivial, trivial⟩
  have ran : run distinctNumbers (.start :: SessionScript.eventsAll reuseNumber)
      (tracking singleNumber () 10) = .ok _ := rfl
  obtain ⟨_, _, ready⟩ := atEnd_of_run distinctNumbers
    (refines_tracking singleNumber_wellFormed () 10) (Nat.le_refl 0) unique quiet ran
  obtain ⟨iterator, failure⟩ := undo_of_blocks distinctNumbers ready
    ⟨⟨⟨1, 0⟩, 0⟩, 1, rfl, rfl, by decide⟩
  exact ⟨_, iterator, ran, failure⟩

end ObjectDatabase

end CocosChain.Db

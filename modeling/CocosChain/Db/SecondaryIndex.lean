import CocosChain.Db.UndoRefinement

/-!
# Secondary indices along the mutation paths

A secondary index is kept in step with the objects by callbacks, and the four
mutation paths fire different ones.  `Maintains` collects what the callbacks
of one kind of index achieve; from it follows what every event of the object
database, undo included, does to the agreement between index and objects.
-/

namespace CocosChain.Db

open UndoState

variable {V K S : Type} [DecidableEq K]

/-- The callbacks keep the secondary index in agreement with the objects, for
modifications that satisfy `Keeps`; objects that satisfy `Silent` need no
callback. -/
structure IndexConfig.Maintains (config : IndexConfig V K S)
    (Agree : ObjectMap V → S → Prop) (Keeps : V → V → Prop) (Silent : V → Prop) : Prop where
  inserted : ∀ objects sindex id value, Agree objects sindex → objects.lookup id = none →
    Agree (objects.insert id value) (config.objectInserted id value sindex)
  modified : ∀ objects sindex id value after, Agree objects sindex →
    objects.lookup id = some value → Keeps value after →
    Agree (objects.insert id after)
      (config.objectModified id after
        (config.aboutToModify id value sindex))
  removed : ∀ objects sindex id value, Agree objects sindex → objects.lookup id = some value →
    Agree (objects.erase id) (config.objectRemoved id value sindex)
  silent : ∀ objects sindex id value, Agree objects sindex →
    objects.lookup id = none → Silent value →
    Agree (objects.insert id value) sindex

namespace ObjectDatabase

variable {config : IndexConfig V K S} {Agree : ObjectMap V → S → Prop}
variable {Keeps : V → V → Prop} {Silent : V → Prop}

/-- The secondary index agrees with the live objects. -/
def Agrees (Agree : ObjectMap V → S → Prop) (db : ObjectDatabase V S) : Prop :=
  Agree db.store.objects db.sindex

variable {db : ObjectDatabase V S} {undoDb : UndoDatabase V}

omit [DecidableEq K] in
theorem foldlM_agrees {Item : Type} {items : List Item}
    (body : ObjectDatabase V S → Item → Except Fault (ObjectDatabase V S))
    (step : ∀ db item next, item ∈ items → db.Agrees Agree → body db item = .ok
      next → next.Agrees Agree) (agrees : db.Agrees Agree)
    (success : items.foldlM body db = .ok final) : final.Agrees Agree := by
  induction items generalizing db with
  | nil =>
    cases success
    exact agrees
  | cons item items induction =>
    obtain ⟨next, first, success⟩ := bind_eq_ok.mp success
    apply induction _ (step db item next List.mem_cons_self agrees first) success
    intro db later next member
    exact step db later next (List.mem_cons_of_mem _ member)

/-- What the callbacks of an undo state's restoration have to follow. -/
structure StateFollowed (Keeps : V → V → Prop) (Silent : V → Prop)
    (objects : ObjectMap V) (state : UndoState V) : Prop where
  keeps : ∀ id was now, state.oldValues.lookup id = some was →
    objects.lookup id = some now → Keeps now was
  silent : ∀ id was, state.removed.lookup id = some was → Silent was

/-- The event changes objects only in ways that the callbacks follow. -/
def Followed (Keeps : V → V → Prop) (Silent : V → Prop) (db : ObjectDatabase V S) :
    SessionEvent (Action V) (Iterator V) → Prop
  | .act (.modify id change) => ∀ value,
      db.store.objects.lookup id = some value → Keeps value (change value)
  | .finish (.undo _) | .pop _ => ∀ state rest, db.undoDb.stack = state :: rest →
        StateFollowed Keeps Silent db.store.objects state
  | _ => True

section Steps

variable (maintains : config.Maintains Agree Keeps Silent) {next : ObjectDatabase V S}

include maintains

section

variable (agrees : db.Agrees Agree)
include agrees

theorem create_agrees (success : create config index value db = .ok next) : next.Agrees Agree := by
  obtain ⟨absent, _, rfl⟩ := create_eq_ok.mp success
  exact maintains.inserted _ _ _ _ agrees (Finmap.lookup_eq_none.mpr absent)

variable {id : ObjectId}

theorem modify_agrees
    (keeps : ∀ value, db.store.objects.lookup id = some value → Keeps value (change value))
    (success : modify config id change db = .ok next) : next.Agrees Agree := by
  obtain ⟨value, found, _, rfl⟩ := modify_eq_ok.mp success
  exact maintains.modified _ _ _ _ _ agrees found (keeps value found)

omit [DecidableEq K] in
theorem remove_agrees (success : remove config id db = .ok next) : next.Agrees Agree := by
  obtain ⟨_, found, rfl⟩ := remove_eq_ok.mp success
  exact maintains.removed _ _ _ _ agrees found

theorem insert_agrees (silent : Silent value) (success : insert config id value db = .ok next) :
    next.Agrees Agree := by
  obtain ⟨absent, _, rfl⟩ := insert_eq_ok.mp success
  exact maintains.silent _ _ _ _ agrees (Finmap.lookup_eq_none.mpr absent) silent

/-- The restoration keeps the agreement when it puts back values that the
callbacks of a modification can follow and reinserts silent objects only. -/
theorem restore_agrees (enumerates : iteration.Enumerates state)
    (followed : StateFollowed Keeps Silent db.store.objects state)
    (success : restore config iteration db = .ok next) : next.Agrees Agree := by
  simp only [restore, bind_eq_ok] at success
  obtain ⟨modified, first, stripped, second, third⟩ := success
  have modifiedAgrees : modified.Agrees Agree := by
    apply KeyedFold.foldlM_preserves lookup Prod.fst _
      (fun item held => ∀ now, held = some now → Keeps now item.2) _ _
      iteration.oldValues enumerates.oldValues.distinct db modified agrees
      _ first
    · intro db item next agrees ready success
      refine ⟨modify_agrees maintains agrees ready success, ?_⟩
      intro other different
      obtain ⟨_, _, _, rfl⟩ := modify_eq_ok.mp success
      simp [lookup, Finmap.lookup_insert_of_ne _ different]
    · intro item listed now found
      exact followed.keeps item.1 item.2 now ((enumerates.oldValues.mem_iff _ _).mp listed) found
  have strippedAgrees : stripped.Agrees Agree := by
    apply foldlM_agrees _ _ modifiedAgrees second
    intro db id next _ agrees success
    exact remove_agrees maintains agrees success
  have counters := (setNextIds_runsTo iteration.oldIndexNextIds
    enumerates.oldIndexNextIds.distinct stripped).inv
  have countedAgrees : Agrees Agree (iteration.oldIndexNextIds.foldl
      (fun db item => setNextId item.1 item.2 db) stripped) := by
    rw [Agrees, counters.2.1, counters.2.2]
    exact strippedAgrees
  apply foldlM_agrees _ _ countedAgrees third
  intro db item next listed agrees success
  exact insert_agrees maintains agrees
    (followed.silent _ _ ((enumerates.removed.mem_iff _ _).mp listed)) success

theorem react_act_agrees (followed : Followed Keeps Silent db (.act action))
    (success : react config db (.act action) = .ok next) : next.Agrees Agree := by
  cases result : act config db action with
  | error fault =>
    simp only [react, result] at success
    cases fault <;> cases success
    exact agrees
  | ok after =>
    simp only [react, result] at success
    cases success
    cases action with
    | create index value => exact create_agrees maintains agrees result
    | modify id change =>
      exact modify_agrees maintains agrees followed result
    | remove id => exact remove_agrees maintains agrees result

theorem restored_agrees {iterator : Iterator V}
    (followed : StateFollowed Keeps Silent db.store.objects state)
    (success : restore config (iterator.order state)
      { db with undoDb :=  db.undoDb.disable } = .ok restored)
    (store : next.store = restored.store)
    (sindex : next.sindex = restored.sindex) : next.Agrees Agree := by
  have disabled : Agrees Agree { db with undoDb := db.undoDb.disable } := agrees
  have kept := restore_agrees maintains disabled (iterator.enumerates state) followed success
  rw [Agrees, store, sindex]
  exact kept

theorem step_agrees (followed : Followed Keeps Silent db event)
    (success : step config db event = .ok next) : next.Agrees Agree := by
  cases event with
  | start =>
    cases success
    exact agrees
  | act action => exact react_act_agrees maintains agrees followed success
  | pop iterator =>
    obtain ⟨state, rest, restored, stack, result, store, sindex, _⟩ :=
      popCommit_restores (orStop_eq_ok.mp success)
    exact restored_agrees maintains agrees (followed state rest stack) result store sindex
  | finish ending =>
    cases ending with
    | undo iterator =>
      obtain ⟨state, rest, _, stack, result, store, sindex, _⟩ :=
        undo_restores (orStop_eq_ok.mp success)
      exact restored_agrees maintains agrees (followed state rest stack) result store sindex
    | merge iterator =>
      obtain ⟨undoDb, _, rfl⟩ := merge_eq_ok (orStop_eq_ok.mp success)
      exact agrees
    | commit =>
      obtain ⟨_, _, rfl⟩ := commit_eq_ok (orStop_eq_ok.mp success)
      exact agrees

end

end Steps

/-- How a store evolves when modifications satisfy `Keeps`: numbers are not
used twice, and surviving objects keep what the index reads. -/
structure Evolves (Keeps : V → V → Prop) (before after : Store V) : Prop where
  grows : ∀ index, before.nextId index ≤ after.nextId index
  buried : ∀ id, before.objects.lookup id = none →
    id.number < before.nextId id.index → after.objects.lookup id = none
  keeps : ∀ id was now, before.objects.lookup id = some was →
    after.objects.lookup id = some now → Keeps now was

section Evolution

variable (equivalence : Equivalence Keeps)

include equivalence

theorem Evolves.refl (store : Store V) : Evolves Keeps store store := by
  refine ⟨fun _ => le_rfl, fun _ absent _ => absent, ?_⟩
  intro id was now before after
  rw [before] at after
  cases after
  exact equivalence.refl was

theorem Evolves.trans (wellFormed : first.WellFormed) (earlier : Evolves Keeps first second)
    (later : Evolves Keeps second third) : Evolves Keeps first third := by
  refine ⟨fun index => le_trans (earlier.grows index) (later.grows index), ?_, ?_⟩
  · intro id absent numbered
    apply later.buried id (earlier.buried id absent numbered)
    exact lt_of_lt_of_le numbered (earlier.grows id.index)
  · intro id was now before after
    cases middle : second.objects.lookup id with
    | none =>
      have numbered := wellFormed id (by simp [before])
      have gone := later.buried id middle (lt_of_lt_of_le numbered (earlier.grows id.index))
      rw [gone] at after
      cases after
    | some between =>
      exact equivalence.trans (later.keeps id between now middle after)
        (earlier.keeps id was between before middle)

variable {store : Store V}

theorem create_evolves (wellFormed : store.WellFormed) (index : IndexId) (value : V) :
    Evolves Keeps store
      { objects := store.objects.insert ⟨index, store.nextId index⟩ value
        nextId := Function.update store.nextId index
          (store.nextId index + 1) } := by
  refine ⟨?_, ?_, ?_⟩
  · intro other
    by_cases sameIndex : other = index
    · subst sameIndex
      simp
    · simp [Function.update_of_ne sameIndex]
  · intro id absent numbered
    have different : id ≠ ⟨index, store.nextId index⟩ := by
      rintro rfl
      exact lt_irrefl _ numbered
    simpa [Finmap.lookup_insert_of_ne _ different] using absent
  · intro id was now before after
    have different : id ≠ ⟨index, store.nextId index⟩ := by
      rintro rfl
      exact lt_irrefl _ (wellFormed _ (by rw [before]; rfl))
    rw [Finmap.lookup_insert_of_ne _ different] at after
    exact (Evolves.refl equivalence store).keeps id was now before after

theorem modify_evolves {id : ObjectId}
    (found : store.objects.lookup id = some value) (keeps : Keeps value after) :
    Evolves Keeps store { store with objects := store.objects.insert id after } := by
  refine ⟨fun _ => le_rfl, ?_, ?_⟩
  · intro other absent _
    have different : other ≠ id := by
      rintro rfl
      rw [found] at absent
      cases absent
    simpa [Finmap.lookup_insert_of_ne _ different] using absent
  · intro other was now before later
    by_cases same : other = id
    · subst same
      rw [found] at before
      cases before
      rw [Finmap.lookup_insert] at later
      cases later
      exact equivalence.symm keeps
    · rw [Finmap.lookup_insert_of_ne _ same] at later
      exact (Evolves.refl equivalence store).keeps other was now before later

theorem remove_evolves (store : Store V) (id : ObjectId) : Evolves Keeps store
      { store with objects := store.objects.erase id } := by
  refine ⟨fun _ => le_rfl, ?_, ?_⟩
  · intro other absent _
    by_cases same : other = id
    · subst same
      exact Finmap.lookup_erase other store.objects
    · simpa [Finmap.lookup_erase_ne same] using absent
  · intro other was now before after
    by_cases same : other = id
    · subst same
      rw [Finmap.lookup_erase] at after
      cases after
    · rw [Finmap.lookup_erase_ne same] at after
      exact (Evolves.refl equivalence store).keeps other was now before after

theorem perform_evolves {action : Action V} (wellFormed : store.WellFormed)
    (keeps : ∀ id change value, action = .modify id change →
      store.objects.lookup id = some value → Keeps value (change value))
    (success : action.perform store = some next) : Evolves Keeps store next := by
  cases action with
  | create index value =>
    cases success
    exact create_evolves equivalence wellFormed index value
  | modify id change =>
    obtain ⟨value, found, rfl⟩ := Option.map_eq_some_iff.mp success
    exact modify_evolves equivalence found (keeps id change value rfl found)
  | remove id =>
    obtain ⟨_, _, rfl⟩ := Option.map_eq_some_iff.mp success
    exact remove_evolves equivalence store id

omit equivalence

/-- The database, with every store it can be rolled back to, evolves by steps
that keep what the index reads. -/
structure Tame (Keeps : V → V → Prop) (db : ObjectDatabase V S)
    (stack : SnapshotStack (Store V)) : Prop where
  refines : Refines db stack
  linked : SnapshotStack.Linked (Evolves Keeps) stack.current stack.saved

include equivalence

theorem step_tame (tame : Tame Keeps db stack)
    (keeps : ∀ id change value, event = .act (.modify id change) →
      db.store.objects.lookup id = some value → Keeps value (change value))
    (success : step config db event = .ok next) : ∃ final, Tame Keeps next final := by
  have simulates := Refines.step_simulates config tame.refines event
  rw [success] at simulates
  generalize abstract : SnapshotStack.step Action.perform stack event = outcome at simulates
  have everywhere : stack.Forall Store.WellFormed :=
    ⟨tame.refines.store ▸ tame.refines.wellFormed, tame.refines.tracks.wellFormed⟩
  cases simulates with
  | done reached =>
    refine ⟨_, reached, ?_⟩
    by_cases structural : ∀ action, event ≠ .act action
    · exact SnapshotStack.structural_linked Action.perform (Evolves.refl equivalence)
        (fun _ _ _ => Evolves.trans equivalence) everywhere tame.linked structural abstract
    · push Not at structural
      obtain ⟨action, rfl⟩ := structural
      simp only [SnapshotStack.step, SnapshotStack.react] at abstract
      cases performed : action.perform stack.current with
      | none =>
        rw [performed] at abstract
        cases abstract
        exact tame.linked
      | some after =>
        rw [performed] at abstract
        cases abstract
        have evolves : Evolves Keeps stack.current after := by
          apply perform_evolves equivalence everywhere.1 _ performed
          intro id change value isModify
          subst isModify
          rw [← tame.refines.store]
          exact keeps id change value rfl
        apply tame.linked.rooted evolves
        intro older member earlier
        exact Evolves.trans equivalence (everywhere.2 older member) earlier evolves

omit equivalence in
theorem Tame.stateFollowed (tame : Tame Keeps db stack) (newest : db.undoDb.stack = state :: rest)
    (silent : ∀ id was, state.removed.lookup id = some was → Silent was) :
    StateFollowed Keeps Silent db.store.objects state := by
  refine ⟨?_, silent⟩
  intro id was now saved found
  have tracks := tame.refines.tracks
  have linked := tame.linked
  rw [newest] at tracks
  rcases tracks.inversion with ⟨impossible, _⟩ | ⟨_, _, _, _, same, older, inverted⟩
  · cases impossible
  · cases same
    rw [older] at linked
    have represents := inverted.1
    have holds := represents.holds id
    rw [(lookup_oldValues_iff (represents.recorded id) was).mp saved] at holds
    rw [tame.refines.store] at found
    exact linked.1.keeps id was now holds.1 found

end Evolution

/-- No undo state holds a removed object. -/
def NothingRemoved (undoDb : UndoDatabase V) : Prop := ∀ state ∈ undoDb.stack, state.removed = ∅

theorem updateBack_nothingRemoved (kept : ∀ state, (update state).removed = state.removed)
    (nothing : NothingRemoved undoDb) : NothingRemoved (undoDb.updateBack update) := by
  intro state member
  by_cases disabled : undoDb.disabled = true
  · rw [updateBack_of_disabled disabled] at member
    exact nothing state member
  · simp only [UndoDatabase.updateBack, disabled] at member
    cases stack : undoDb.stack with
    | nil =>
      rw [stack] at member
      simp only [Bool.false_eq_true, if_false, List.mem_singleton] at member
      subst member
      rw [kept]
      rfl
    | cons newest rest =>
      rw [stack] at member
      rcases List.mem_cons.mp member with rfl | older
      · rw [kept]
        exact nothing newest (stack ▸ List.mem_cons_self)
      · exact nothing state (stack ▸ List.mem_cons_of_mem _ older)

theorem removed_onModify (id : ObjectId) (value : V) (state : UndoState V) :
    (state.onModify id value).removed = state.removed := by
  unfold onModify
  split <;> [rfl; split <;> rfl]

theorem removed_mergeOldValues {items : List (ObjectId × V)}
    (success : items.foldlM mergeOldValue prev = .ok merged) : merged.removed = prev.removed := by
  induction items generalizing prev with
  | nil =>
    cases success
    rfl
  | cons item items induction =>
    obtain ⟨_, first, success⟩ := bind_eq_ok.mp success
    rw [induction success]
    unfold mergeOldValue at first
    split at first
    · cases first
      rfl
    · split at first
      · cases first
        rfl
      · split at first <;> cases first
        rfl

theorem removed_mergeNewIds (ids : List ObjectId) (prev : UndoState V) :
    (ids.foldl mergeNewId prev).removed = prev.removed := by
  induction ids generalizing prev with
  | nil => rfl
  | cons id ids induction => exact induction (prev.mergeNewId id)

theorem removed_mergeInto {prev : UndoState V} (enumerates : iteration.Enumerates newer)
    (nothing : newer.removed = ∅) (success : prev.mergeInto iteration = .ok merged) :
    merged.removed = prev.removed := by
  have empty : iteration.removed = [] := by
    apply List.eq_nil_iff_forall_not_mem.mpr
    intro item listed
    have found := (enumerates.removed.mem_iff item.1 item.2).mp listed
    rw [nothing] at found
    simp at found
  obtain ⟨next, first, success⟩ := bind_eq_ok.mp success
  rw [empty] at success
  obtain ⟨_, counted, _⟩ := mergeNextIds_eq
    iteration.oldIndexNextIds newer.oldIndexNextIds enumerates.oldIndexNextIds
    (iteration.newIds.foldl mergeNewId next)
  change Except.ok (iteration.oldIndexNextIds.foldl mergeNextId
    (iteration.newIds.foldl mergeNewId next)) = _ at success
  rw [counted] at success
  cases success
  exact (removed_mergeNewIds _ _).trans (removed_mergeOldValues first)

theorem merge_nothingRemoved (nothing : NothingRemoved undoDb)
    (success : undoDb.merge iterator = .ok next) : NothingRemoved next := by
  unfold UndoDatabase.merge at success
  split at success
  · cases success
  · split at success
    · cases success
      intro state member
      exact nothing state (List.mem_of_mem_tail member)
    · split at success
      · rename_i state prev rest stack
        have newest := nothing state (stack ▸ List.mem_cons_self)
        obtain ⟨_, merged, ⟨⟩⟩ := bind_eq_ok.mp success
        have kept := removed_mergeInto (iterator.enumerates state) newest merged
        intro other member
        rcases List.mem_cons.mp member with rfl | older
        · rw [kept]
          exact nothing prev (stack ▸ by simp)
        · exact nothing other (stack ▸ by simp [older])
      · cases success

theorem step_nothingRemoved (nothing : NothingRemoved db.undoDb)
    (keeping : ∀ id, event ≠ .act (.remove id)) (success : step config db event = .ok next) :
    NothingRemoved next.undoDb := by
  cases event with
  | start =>
    cases success
    intro state member
    simp only [startUndoSession, UndoDatabase.startUndoSession] at member
    split at member
    · exact nothing state member
    · rcases List.mem_cons.mp member with rfl | older
      · rfl
      · exact nothing state (List.mem_of_mem_take older)
  | act action =>
    cases result : act config db action with
    | error fault =>
      simp only [step, react, result] at success
      cases fault <;> cases success
      exact nothing
    | ok after =>
      simp only [step, react, result] at success
      cases success
      cases action with
      | create index value =>
        obtain ⟨_, _, rfl⟩ := create_eq_ok.mp result
        exact updateBack_nothingRemoved (fun _ => rfl) nothing
      | modify id change =>
        obtain ⟨value, _, _, rfl⟩ := modify_eq_ok.mp result
        exact updateBack_nothingRemoved (removed_onModify id value) nothing
      | remove id => exact (keeping id rfl).elim
  | pop iterator =>
    obtain ⟨state, rest, restored, stack, _, _, _, left⟩ :=
      popCommit_restores (orStop_eq_ok.mp success)
    intro other member
    rw [left] at member
    exact nothing other (stack ▸ List.mem_cons_of_mem _ member)
  | finish ending =>
    cases ending with
    | undo iterator =>
      obtain ⟨_, _, _, stack, _, _, _, left⟩ :=
        undo_restores (orStop_eq_ok.mp success)
      intro other member
      rw [left] at member
      exact nothing other (stack ▸ List.mem_cons_of_mem _ member)
    | merge iterator =>
      obtain ⟨undoDb, merged, rfl⟩ := merge_eq_ok (orStop_eq_ok.mp success)
      exact merge_nothingRemoved nothing merged
    | commit =>
      obtain ⟨_, committed, rfl⟩ := commit_eq_ok (orStop_eq_ok.mp success)
      unfold UndoDatabase.commit at committed
      split at committed <;> cases committed
      exact nothing

theorem openSaved_agrees (maintains : config.Maintains Agree Keeps Silent)
    (items : List (ObjectId × V)) (agrees : db.Agrees Agree) :
    (openSaved config db items).Agrees Agree := by
  induction items generalizing db with
  | nil => exact agrees
  | cons item items induction =>
    rw [openSaved]
    cases result : load config db item with
    | error fault => exact agrees
    | ok next =>
      apply induction
      obtain ⟨_, inserted, ⟨⟩⟩ := bind_eq_ok.mp result
      obtain ⟨absent, _, rfl⟩ := insert_eq_ok.mp inserted
      exact maintains.inserted _ _ _ _ agrees (Finmap.lookup_eq_none.mpr absent)

theorem load_unkeyed (unkeyed : ¬ config.Keyed) (absent : db.store.objects.lookup item.1 = none) :
    load config db item = .ok
      { db with
        store := { db.store with
          objects := db.store.objects.insert item.1 item.2 }
        sindex := config.objectInserted item.1 item.2 db.sindex } := by
  have free : ¬ config.Conflicts db.store.objects item.1 item.2 :=
    fun conflict => unkeyed conflict.keyed
  have inserted := insert_eq_ok.mpr ⟨Finmap.lookup_eq_none.mp absent, free, rfl⟩
  rw [load, inserted]
  rfl

theorem openSaved_store (unkeyed : ¬ config.Keyed) (items : List (ObjectId × V))
    (distinct : (items.map Prod.fst).Nodup) (db : ObjectDatabase V S)
    (absent : ∀ item ∈ items, db.store.objects.lookup item.1 = none) :
    (openSaved config db items).undoDb = db.undoDb ∧
    (openSaved config db items).store.nextId = db.store.nextId ∧
    ∀ id value, (openSaved config db items).store.objects.lookup id = some value ↔
        (id, value) ∈ items ∨ db.store.objects.lookup id = some value := by
  induction items generalizing db with
  | nil => exact ⟨rfl, rfl, by simp [openSaved]⟩
  | cons item items induction =>
    obtain ⟨fresh, distinctTail⟩ := List.nodup_cons.mp distinct
    have missing := absent item List.mem_cons_self
    rw [openSaved, load_unkeyed unkeyed missing]
    obtain ⟨undoDb, nextId, objects⟩ := induction distinctTail { db with
        store := { db.store with
          objects := db.store.objects.insert item.1 item.2 }
        sindex := config.objectInserted item.1 item.2 db.sindex } (by
      intro later member
      have different : later.1 ≠ item.1 := by
        intro equality
        exact fresh (equality ▸ List.mem_map_of_mem member)
      rw [Finmap.lookup_insert_of_ne _ different]
      exact absent later (List.mem_cons_of_mem _ member))
    refine ⟨undoDb, nextId, ?_⟩
    intro id value
    rw [objects, List.mem_cons]
    by_cases same : id = item.1
    · subst same
      have unlisted : (item.1, value) ∉ items := fun member =>
        fresh (List.mem_map.mpr ⟨_, member, rfl⟩)
      simp only [Finmap.lookup_insert, unlisted, missing, false_or,
        Option.some.injEq, reduceCtorEq, or_false]
      constructor
      · rintro rfl
        rfl
      · intro equality
        rw [← equality]
    · have other : (id, value) ≠ item := by
        rintro rfl
        exact same rfl
      simp [Finmap.lookup_insert_of_ne _ same, other]

theorem reload_store (unkeyed : ¬ config.Keyed)
    (lists : KeyedFold.ListsMap saved db.store.objects) (empty : S) :
    (reload config empty saved db).store = db.store ∧
      (reload config empty saved db).undoDb = UndoDatabase.initial := by
  obtain ⟨undoDb, nextId, objects⟩ := openSaved_store unkeyed saved lists.distinct
    { store := { objects := ∅, nextId := db.store.nextId }
      sindex := empty
      undoDb := UndoDatabase.initial }
    (fun _ _ => Finmap.lookup_empty _)
  refine ⟨Store.ext (Finmap.ext_lookup fun id => ?_) nextId, undoDb⟩
  apply Option.ext
  intro value
  rw [reload, objects id value, lists.mem_iff]
  simp

theorem reload_tame (unkeyed : ¬ config.Keyed) (wellFormed : db.store.WellFormed)
    (lists : KeyedFold.ListsMap saved db.store.objects) (empty : S) :
    Tame Keeps (reload config empty saved db) ⟨db.store, [], 0, 256⟩ := by
  obtain ⟨store, undoDb⟩ := reload_store unkeyed lists empty
  refine ⟨⟨store, ?_, ?_, ?_, ?_, ?_⟩, trivial⟩
  · rw [store]
    exact wellFormed
  · rw [undoDb]
    trivial
  · rw [undoDb]
    rfl
  · rw [undoDb]
    rfl
  · rw [undoDb]
    rfl

end ObjectDatabase

end CocosChain.Db

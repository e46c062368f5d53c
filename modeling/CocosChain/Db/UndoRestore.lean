import CocosChain.Db.UndoFrame

/-!
# Restoring a store from an undo state

`undo` and `pop_commit` put the old values of modified objects back, remove
created objects, reset the counters and reinsert removed objects, in this
order and each group in the order its container is visited.  The groups are
disjoint, so the result does not depend on the orders; but a modification can
fail when another object holds the unique key the old value had.
-/

namespace CocosChain.Db

variable {V K S : Type} [DecidableEq K]

/-- Every live object was numbered by the counter of its index. -/
def Store.WellFormed (store : Store V) : Prop :=
  ∀ id, (store.objects.lookup id).isSome → id.number < store.nextId id.index

/-- The state records how `before` became `after`. -/
structure UndoState.Represents (state : UndoState V) (before after : Store V) : Prop where
  recorded : state.Recorded
  holds : ∀ id, (state.changeAt id).Holds
    (before.objects.lookup id) (after.objects.lookup id)
  fresh : ∀ id, state.changeAt id = .created → before.nextId id.index ≤ id.number
  counters : ∀ index, before.nextId index =
    (state.oldIndexNextIds.lookup index).getD (after.nextId index)
  grows : ∀ index, before.nextId index ≤ after.nextId index

namespace IndexConfig

variable (config : IndexConfig V K S)

/-- No two live objects of an index share their unique key. -/
def Unique (objects : ObjectMap V) : Prop :=
  ∀ id value, objects.lookup id = some value → ¬ config.Conflicts objects id value

/-- An object that is live in both stores had a key that another object holds
in the second store. -/
def Blocks (before after : ObjectMap V) : Prop :=
  ∃ id was, before.lookup id = some was ∧ (after.lookup id).isSome ∧ config.Conflicts after id was

/-- Why putting objects back can fail. -/
def Clash (before after : ObjectMap V) : Prop :=
  config.Blocks before after ∨ ¬ config.Unique before

theorem Clash.keyed (clash : config.Clash before after) : config.Keyed := by
  rcases clash with ⟨_, _, _, _, conflict⟩ | shared
  · exact conflict.keyed
  · by_contra unkeyed
    apply shared
    intro id value _ conflict
    exact unkeyed conflict.keyed

end IndexConfig

/-- Every object is as in one of the two stores. -/
def Between (before after objects : ObjectMap V) : Prop :=
  ∀ id, objects.lookup id = before.lookup id ∨ objects.lookup id = after.lookup id

namespace ObjectDatabase

variable (config : IndexConfig V K S)

@[simp] theorem updateBack_of_disabled {undoDb : UndoDatabase V} (disabled : undoDb.disabled = true)
    (update : UndoState V → UndoState V) : undoDb.updateBack update = undoDb := by
  simp [UndoDatabase.updateBack, disabled]

/-- A database in the middle of a restoration. -/
structure Restoring (undoDb : UndoDatabase V) (nextId : IndexId → Nat)
    (before after : ObjectMap V) (db : ObjectDatabase V S) : Prop where
  undoDb : db.undoDb = undoDb
  nextId : db.store.nextId = nextId
  between : Between before after db.store.objects

def lookup (db : ObjectDatabase V S) (id : ObjectId) : Option V := db.store.objects.lookup id

variable {before after objects : ObjectMap V} {id : ObjectId} {db : ObjectDatabase V S}

section

variable (between : Between before after objects)
include between

theorem conflict_is_clash (live : before.lookup id = some was) (kept : (after.lookup id).isSome)
    (conflict : config.Conflicts objects id was) : config.Clash before after := by
  obtain ⟨other, held, found, different, sameIndex, sameKey⟩ := config.conflicts_iff.mp conflict
  rcases between other with old | new
  · right
    intro unique
    exact unique id was live (config.conflicts_iff.mpr
      ⟨other, held, old ▸ found, different, sameIndex, sameKey⟩)
  · left
    exact ⟨id, was, live, kept, config.conflicts_iff.mpr
      ⟨other, held, new ▸ found, different, sameIndex, sameKey⟩⟩

theorem between_insert (live : before.lookup id = some was) :
    Between before after (objects.insert id was) := by
  intro other
  by_cases same : other = id
  · subst same
    left
    rw [Finmap.lookup_insert, live]
  · rw [Finmap.lookup_insert_of_ne _ same]
    exact between other

theorem between_erase (absent : before.lookup id = none) :
    Between before after (objects.erase id) := by
  intro other
  by_cases same : other = id
  · subst same
    left
    rw [Finmap.lookup_erase, absent]
  · rw [Finmap.lookup_erase_ne same]
    exact between other

end

section Loops

variable {undoDb : UndoDatabase V}

/-- The errors of a restoration. -/
def Refused (before after : ObjectMap V) (fault : Fault) : Prop :=
  fault = .uniquenessViolated ∧ config.Clash before after

theorem modify_stepsTo (disabled : undoDb.disabled = true) (item : ObjectId × V)
    (inv : Restoring undoDb nextId before after db) (present : (db.lookup item.1).isSome)
    (live : before.lookup item.1 = some item.2) (kept : (after.lookup item.1).isSome) :
    (∃ next, modify config item.1 (fun _ => item.2) db = .ok next ∧
      KeyedFold.StepsTo lookup Prod.fst (fun item _ => some item.2)
        (Restoring undoDb nextId before after) db item next) ∨
    ∃ fault, modify config item.1 (fun _ => item.2) db = .error fault ∧
      Refused config before after fault := by
  obtain ⟨value, found⟩ := Option.isSome_iff_exists.mp present
  unfold lookup at found
  by_cases conflict : config.Conflicts db.store.objects item.1 item.2
  · right
    refine ⟨.uniquenessViolated, ?_, rfl, conflict_is_clash config inv.between live kept conflict⟩
    simp [modify, found, conflict]
  · left
    refine ⟨_, modify_eq_ok.mpr ⟨value, found, conflict, rfl⟩,
      ⟨?_, inv.nextId, between_insert inv.between live⟩, ?_, ?_⟩
    · simp [UndoDatabase.onModify, inv.undoDb, disabled]
    · simp [lookup]
    · intro other different
      simp [lookup, Finmap.lookup_insert_of_ne _ different]

omit [DecidableEq K] in
theorem remove_stepsTo (disabled : undoDb.disabled = true) (id : ObjectId)
    (inv : Restoring undoDb nextId before after db)
    (present : (db.lookup id).isSome) (absent : before.lookup id = none) :
    ∃ next, remove config id db = .ok next ∧ KeyedFold.StepsTo lookup (fun id => id)
        (fun _ _ => none)
        (Restoring undoDb nextId before after) db id next := by
  obtain ⟨value, found⟩ := Option.isSome_iff_exists.mp present
  refine ⟨_, remove_eq_ok.mpr ⟨value, found, rfl⟩,
    ⟨?_, inv.nextId, between_erase inv.between absent⟩, ?_, ?_⟩
  · simp [UndoDatabase.onRemove, inv.undoDb, disabled]
  · simp [lookup]
  · intro other different
    simp [lookup, Finmap.lookup_erase_ne different]

theorem insert_stepsTo (item : ObjectId × V) (inv : Restoring undoDb nextId before ∅ db)
    (absent : db.lookup item.1 = none) (live : before.lookup item.1 = some item.2) :
    (∃ next, insert config item.1 item.2 db = .ok next ∧ KeyedFold.StepsTo lookup Prod.fst
        (fun item _ => some item.2)
        (Restoring undoDb nextId before ∅) db item next) ∨
    ∃ fault, insert config item.1 item.2 db = .error fault ∧ Refused config before after fault := by
  by_cases conflict : config.Conflicts db.store.objects item.1 item.2
  · right
    refine ⟨.uniquenessViolated, by simp [insert, conflict], rfl, ?_⟩
    right
    intro unique
    obtain ⟨other, held, found, different, sameIndex, sameKey⟩ := config.conflicts_iff.mp conflict
    rcases inv.between other with old | new
    · exact unique item.1 item.2 live (config.conflicts_iff.mpr
        ⟨other, held, old ▸ found, different, sameIndex, sameKey⟩)
    · rw [new, Finmap.lookup_empty] at found
      cases found
  · left
    refine ⟨_, insert_eq_ok.mpr ⟨Finmap.lookup_eq_none.mp absent, conflict, rfl⟩,
      ⟨inv.undoDb, inv.nextId, between_insert inv.between live⟩, ?_, ?_⟩
    · simp [lookup]
    · intro other different
      simp [lookup, Finmap.lookup_insert_of_ne _ different]

theorem setNextIds_runsTo (items : List (IndexId × Nat))
    (distinct : (items.map Prod.fst).Nodup) (db : ObjectDatabase V S) :
    KeyedFold.RunsTo (fun (db : ObjectDatabase V S) => db.store.nextId)
      Prod.fst (fun item _ => item.2)
      (fun next => next.undoDb = db.undoDb ∧
        next.store.objects = db.store.objects ∧ next.sindex = db.sindex)
      items db
      (items.foldl (fun db item => setNextId item.1 item.2 db) db) := by
  apply KeyedFold.foldl_runsTo _ _ _ _ (fun _ _ => True) _ _ items distinct
    db ⟨rfl, rfl, rfl⟩ (fun _ _ => trivial)
  intro state item inv _
  refine ⟨inv, ?_, ?_⟩
  · simp [setNextId]
  · intro other different
    simp [setNextId, Function.update_of_ne different]

end Loops

theorem setNextIds_nextId {before after : Store V} {iteration : Iteration V}
    (represents : state.Represents before after) (enumerates : iteration.Enumerates state)
    (counted : db.store.nextId = after.nextId) :
    (iteration.oldIndexNextIds.foldl (fun db item => setNextId item.1 item.2 db) db).store.nextId =
      before.nextId := by
  have effect := setNextIds_runsTo iteration.oldIndexNextIds enumerates.oldIndexNextIds.distinct db
  have lists := enumerates.oldIndexNextIds
  funext index
  rw [represents.counters index]
  cases saved : state.oldIndexNextIds.lookup index with
  | none =>
    have absent : index ∉ iteration.oldIndexNextIds.map Prod.fst := by
      rw [lists.mem_keys, ← Finmap.lookup_eq_none]
      exact saved
    rw [effect.untouched index absent, counted]
    rfl
  | some number =>
    exact effect.visited (index, number) ((lists.mem_iff index number).mpr saved)

/-- The store before the removed objects are put back. -/
structure Stripped (state : UndoState V) (before : ObjectMap V)
    (db : ObjectDatabase V S) : Prop where
  gone : ∀ id was, state.changeAt id = .deleted was → db.lookup id = none
  kept : ∀ id, (∀ was, state.changeAt id ≠ .deleted was) → db.lookup id = before.lookup id

theorem Stripped.between (stripped : Stripped state before db) :
    Between before ∅ db.store.objects := by
  intro id
  by_cases deleted : ∃ was, state.changeAt id = .deleted was
  · obtain ⟨was, change⟩ := deleted
    exact .inr (stripped.gone id was change)
  · exact .inl (stripped.kept id (not_exists.mp deleted))

section Restore

variable {before : Store V} {iteration : Iteration V}

/-- The first two loops: old values back, created objects out. -/
theorem strip_spec (represents : state.Represents before db.store)
    (enumerates : iteration.Enumerates state) (disabled : db.undoDb.disabled = true) :
    (∃ modified stripped, iteration.oldValues.foldlM
        (fun db item => modify config item.1 (fun _ => item.2) db) db = .ok modified ∧
      iteration.newIds.foldlM (fun db id => remove config id db) modified = .ok stripped ∧
      stripped.undoDb = db.undoDb ∧
      stripped.store.nextId = db.store.nextId ∧
      Stripped state before.objects stripped) ∨
    iteration.oldValues.foldlM (fun db item => modify config item.1 (fun _ => item.2) db) db =
        .error .uniquenessViolated ∧
      config.Clash before.objects db.store.objects := by
  have split := enumerates.splits represents.recorded
  have holds := represents.holds
  have oldLoop := KeyedFold.foldlM_runsTo lookup Prod.fst _
    (Restoring db.undoDb db.store.nextId before.objects db.store.objects)
    (fun item held => held.isSome ∧ before.objects.lookup item.1 = some item.2 ∧
      (db.store.objects.lookup item.1).isSome) (Refused config before.objects db.store.objects) _
    (fun db item inv ready => modify_stepsTo config disabled item inv ready.1 ready.2.1 ready.2.2)
    iteration.oldValues enumerates.oldValues.distinct db ⟨rfl, rfl, fun _ => .inr rfl⟩ (by
      intro item listed
      have record := holds item.1
      rw [(split.oldValues item).mp listed] at record
      exact ⟨record.2, record.1, record.2⟩)
  rcases oldLoop with ⟨modified, run, old⟩ | ⟨_, run, rfl, clash⟩
  · obtain ⟨stripped, runNew, new⟩ :=
      KeyedFold.foldlM_total lookup (fun id => id) _
        (Restoring db.undoDb db.store.nextId before.objects db.store.objects)
        (fun id held => held.isSome ∧ before.objects.lookup id = none) _
        (fun db id inv ready => remove_stepsTo config disabled id inv ready.1 ready.2)
        iteration.newIds (by simpa using enumerates.newIds.distinct) modified old.inv (by
          intro id listed
          have created := (split.newIds id).mp listed
          have record := holds id
          rw [created] at record
          rw [old.untouched id (split.skipsOld (by simp [created]))]
          exact ⟨record.2, record.1⟩)
    left
    refine ⟨modified, stripped, run, runNew, new.inv.undoDb, new.inv.nextId, ?_, ?_⟩
    · intro id was change
      have record := holds id
      rw [change] at record
      rw [new.untouched id (split.skipsNew (by simp [change])),
        old.untouched id (split.skipsOld (by simp [change]))]
      exact record.2
    · intro id other
      have record := holds id
      cases change : state.changeAt id with
      | same =>
        rw [change] at record
        rw [new.untouched id (split.skipsNew (by simp [change])),
          old.untouched id (split.skipsOld (by simp [change]))]
        exact record.symm
      | created =>
        rw [change] at record
        rw [new.visited id ((split.newIds id).mpr change), record.1]
      | updated was =>
        rw [change] at record
        rw [new.untouched id (split.skipsNew (by simp [change])),
          old.visited (id, was) ((split.oldValues (id, was)).mpr change), record.1]
      | deleted was => exact (other was change).elim
  · exact .inr ⟨run, clash⟩

theorem reinsert_spec (after : ObjectMap V) (split : iteration.Splits state.changeAt)
    (distinct : (iteration.removed.map Prod.fst).Nodup)
    (live : ∀ id was, state.changeAt id = .deleted was → before.objects.lookup id = some was)
    (stripped : Stripped state before.objects db) (counted : db.store.nextId = before.nextId) :
    (∃ restored, iteration.removed.foldlM
        (fun db item => insert config item.1 item.2 db) db = .ok restored ∧
      restored.store = before ∧ restored.undoDb = db.undoDb) ∨
    iteration.removed.foldlM (fun db item => insert config item.1 item.2 db) db =
        .error .uniquenessViolated ∧ config.Clash before.objects after := by
  have loop := KeyedFold.foldlM_runsTo lookup Prod.fst _
    (Restoring db.undoDb before.nextId before.objects ∅)
    (fun item held => held = none ∧ before.objects.lookup item.1 = some item.2)
    (Refused config before.objects after) _
    (fun db item inv ready => insert_stepsTo config item inv ready.1 ready.2)
    iteration.removed distinct db ⟨rfl, counted, stripped.between⟩ (by
      intro item listed
      have deleted := (split.removed item).mp listed
      exact ⟨stripped.gone _ _ deleted, live _ _ deleted⟩)
  rcases loop with ⟨restored, run, removed⟩ | ⟨_, run, rfl, clash⟩
  · left
    refine ⟨restored, run, ?_, removed.inv.undoDb⟩
    refine Store.ext (Finmap.ext_lookup fun id => ?_) removed.inv.nextId
    change restored.lookup id = _
    by_cases deleted : ∃ was, state.changeAt id = .deleted was
    · obtain ⟨was, change⟩ := deleted
      rw [removed.visited (id, was) ((split.removed (id, was)).mpr change), live id was change]
    · rw [removed.untouched id (split.skipsRemoved (not_exists.mp deleted))]
      exact stripped.kept id (not_exists.mp deleted)
  · exact .inr ⟨run, clash⟩

/-- Restoring from a state that represents the way from `before` to the
present store gives `before` back, whatever the iteration order; the only
possible failure is a clash of unique keys. -/
theorem restore_spec (represents : state.Represents before db.store)
    (enumerates : iteration.Enumerates state) (disabled : db.undoDb.disabled = true) :
    (∃ restored, restore config iteration db = .ok restored ∧
      restored.store = before ∧ restored.undoDb = db.undoDb) ∨
    restore config iteration db = .error .uniquenessViolated ∧
      config.Clash before.objects db.store.objects := by
  have split := enumerates.splits represents.recorded
  rcases strip_spec config represents enumerates disabled with
    ⟨modified, stripped, run, runNew, sameUndoDb, sameNextId, rest⟩ |
    ⟨run, clash⟩
  · have counted := setNextIds_nextId represents enumerates sameNextId
    have next := setNextIds_runsTo iteration.oldIndexNextIds
      enumerates.oldIndexNextIds.distinct stripped
    have unfolded : restore config iteration db = iteration.removed.foldlM
          (fun db item => insert config item.1 item.2 db) (iteration.oldIndexNextIds.foldl
            (fun db item => setNextId item.1 item.2 db) stripped) := by
      rw [restore, run]
      change (iteration.newIds.foldlM (fun db id => remove config id db) modified >>= _) = _
      rw [runNew]
      rfl
    have sameLookup : ∀ id, lookup (iteration.oldIndexNextIds.foldl
        (fun db item => setNextId item.1 item.2 db) stripped) id = stripped.lookup id := by
      intro id
      rw [lookup, next.inv.2.1, lookup]
    rw [unfolded]
    have live : ∀ id was, state.changeAt id = .deleted was →
        before.objects.lookup id = some was := by
      intro id was change
      have record := represents.holds id
      rw [change] at record
      exact record.1
    have reinserted := reinsert_spec config db.store.objects split enumerates.removed.distinct live
      ⟨fun id was change => (sameLookup id).trans (rest.gone id was change),
        fun id other => (sameLookup id).trans (rest.kept id other)⟩ counted
    rw [next.inv.1, sameUndoDb] at reinserted
    exact reinserted
  · right
    refine ⟨?_, clash⟩
    rw [restore, run]
    rfl

end Restore

end ObjectDatabase

end CocosChain.Db

import CocosChain.Db.UndoDatabase
import CocosChain.Library.Checked

/-!
# The object database

Objects of all indices live in one map keyed by object id, next to one next-id
counter per index.  `create`, `modify` and `remove` are those of
`primary_index`: they fire the secondary-index callbacks and save undo
information.  `insert` is the one of `generic_index`, which `primary_index`
does not override, so it does neither.

An index may have a unique key besides the id.  Inserting or modifying an
object so that two live objects of the index share that key fails.
-/

namespace CocosChain.Db

@[ext] structure Store (V : Type) where
  objects : ObjectMap V
  nextId : IndexId → Nat

/-- The order in which the objects of a store are saved. -/
structure Enumeration (V : Type) where
  order : ObjectMap V → List (ObjectId × V)
  lists : ∀ objects, KeyedFold.ListsMap (order objects) objects

/-- What distinguishes one kind of index from another: its unique secondary
key, if any, and the callbacks of its secondary index. -/
structure IndexConfig (V K S : Type) where
  uniqueKey : V → Option K
  objectInserted : ObjectId → V → S → S
  objectRemoved : ObjectId → V → S → S
  aboutToModify : ObjectId → V → S → S
  objectModified : ObjectId → V → S → S

@[ext] structure ObjectDatabase (V S : Type) where
  store : Store V
  sindex : S
  undoDb : UndoDatabase V

variable {V K S : Type} [DecidableEq K]

namespace IndexConfig

variable (config : IndexConfig V K S)

def SameKey (left right : V) : Prop :=
  (config.uniqueKey left).isSome ∧ config.uniqueKey left = config.uniqueKey right

instance (left right : V) : Decidable (config.SameKey left right) :=
  inferInstanceAs (Decidable (_ ∧ _))

/-- Another live object of the index of `id` already has the key of
`value`. -/
def Conflicts (objects : ObjectMap V) (id : ObjectId) (value : V) : Prop :=
  ∃ other ∈ objects.keys, other ≠ id ∧ other.index = id.index ∧ (objects.lookup other).any
      (fun held => decide (config.SameKey held value)) = true

instance (objects : ObjectMap V) (id : ObjectId) (value : V) :
    Decidable (config.Conflicts objects id value) :=
  inferInstanceAs (Decidable (∃ other ∈ objects.keys, _))

/-- Some objects have a unique key. -/
def Keyed : Prop := ∃ value, (config.uniqueKey value).isSome

/-- An index without unique key and without secondary index. -/
def plain : IndexConfig V Empty Unit :=
  { uniqueKey := fun _ => none
    objectInserted := fun _ _ _ => ()
    objectRemoved := fun _ _ _ => ()
    aboutToModify := fun _ _ _ => ()
    objectModified := fun _ _ _ => () }

theorem conflicts_iff {id : ObjectId} : config.Conflicts objects id value ↔
      ∃ other held, objects.lookup other = some held ∧ other ≠ id ∧
        other.index = id.index ∧ config.SameKey held value := by
  constructor
  · rintro ⟨other, _, different, sameIndex, same⟩
    cases found : objects.lookup other with
    | none => simp [found] at same
    | some held =>
      exact ⟨other, held, found, different, sameIndex, by simpa [found] using same⟩
  · rintro ⟨other, _, found, different, sameIndex, sameKey⟩
    refine ⟨other, ?_, different, sameIndex, by simpa [found] using sameKey⟩
    exact Finmap.mem_keys.mpr (Finmap.mem_of_lookup_eq_some found)

theorem Conflicts.keyed {id : ObjectId}
    (conflict : config.Conflicts objects id value) : config.Keyed := by
  obtain ⟨_, held, _, _, _, sameKey⟩ := config.conflicts_iff.mp conflict
  exact ⟨held, sameKey.1⟩

end IndexConfig

namespace ObjectDatabase

variable (config : IndexConfig V K S)

def create (index : IndexId) (value : V) (db : ObjectDatabase V S) :
    Except Fault (ObjectDatabase V S) :=
  let id : ObjectId := ⟨index, db.store.nextId index⟩
  if id ∈ db.store.objects ∨ config.Conflicts db.store.objects id value then
    .error .uniquenessViolated
  else
    .ok
      { store :=
          { objects := db.store.objects.insert id value
            nextId := Function.update db.store.nextId index
              (db.store.nextId index + 1) }
        sindex := config.objectInserted id value db.sindex
        undoDb := db.undoDb.onCreate id }

def modify (id : ObjectId) (change : V → V) (db : ObjectDatabase V S) :
    Except Fault (ObjectDatabase V S) :=
  match db.store.objects.lookup id with
  | none => .error .unableToFindObject
  | some value =>
      if config.Conflicts db.store.objects id (change value) then
        .error .uniquenessViolated
      else
        .ok
          { store := { db.store with
              objects := db.store.objects.insert id (change value) }
            sindex := config.objectModified id (change value)
              (config.aboutToModify id value db.sindex)
            undoDb := db.undoDb.onModify id value }

def remove (id : ObjectId) (db : ObjectDatabase V S) : Except Fault (ObjectDatabase V S) :=
  match db.store.objects.lookup id with
  | none => .error .unableToFindObject
  | some value =>
      .ok
        { store := { db.store with objects := db.store.objects.erase id }
          sindex := config.objectRemoved id value db.sindex
          undoDb := db.undoDb.onRemove id value }

def insert (id : ObjectId) (value : V) (db : ObjectDatabase V S) :
    Except Fault (ObjectDatabase V S) :=
  if id ∈ db.store.objects ∨ config.Conflicts db.store.objects id value then
    .error .uniquenessViolated
  else
    .ok { db with store := { db.store with
      objects := db.store.objects.insert id value } }

section Specifications

variable {config : IndexConfig V K S} {id : ObjectId}

theorem create_eq_ok : create config index value db = .ok next ↔
      ⟨index, db.store.nextId index⟩ ∉ db.store.objects ∧
      ¬ config.Conflicts db.store.objects ⟨index, db.store.nextId index⟩ value ∧
      next =
        { store :=
            { objects := db.store.objects.insert ⟨index, db.store.nextId index⟩ value
              nextId := Function.update db.store.nextId index (db.store.nextId index + 1) }
          sindex := config.objectInserted ⟨index, db.store.nextId index⟩ value db.sindex
          undoDb := db.undoDb.onCreate ⟨index, db.store.nextId index⟩ } := by
  simp only [create]
  split
  · tauto
  · rename_i free
    rw [not_or] at free
    simp only [Except.ok.injEq, free, not_false_eq_true, true_and]
    exact eq_comm

theorem create_eq_error (failure : create config index value db = .error fault) :
    fault = .uniquenessViolated ∧ (⟨index, db.store.nextId index⟩ ∈ db.store.objects ∨
        config.Conflicts db.store.objects ⟨index, db.store.nextId index⟩ value) := by
  simp only [create] at failure
  split at failure <;> cases failure
  rename_i taken
  exact ⟨rfl, taken⟩

theorem modify_eq_error (found : db.store.objects.lookup id = some value)
    (failure : modify config id change db = .error fault) :
    fault = .uniquenessViolated ∧ config.Conflicts db.store.objects id (change value) := by
  simp only [modify, found] at failure
  split at failure <;> cases failure
  rename_i conflict
  exact ⟨rfl, conflict⟩

theorem modify_eq_ok : modify config id change db = .ok next ↔
      ∃ value, db.store.objects.lookup id = some value ∧
        ¬ config.Conflicts db.store.objects id (change value) ∧
        next =
          { store := { db.store with
              objects := db.store.objects.insert id (change value) }
            sindex := config.objectModified id (change value)
              (config.aboutToModify id value db.sindex)
            undoDb := db.undoDb.onModify id value } := by
  cases found : db.store.objects.lookup id with
  | none => simp [modify, found]
  | some value =>
    by_cases conflict : config.Conflicts db.store.objects id (change value)
    · simp [modify, found, conflict]
    · simp [modify, found, conflict, eq_comm]

omit [DecidableEq K] in
theorem remove_eq_ok : remove config id db = .ok next ↔
      ∃ value, db.store.objects.lookup id = some value ∧ next =
          { store := { db.store with objects := db.store.objects.erase id }
            sindex := config.objectRemoved id value db.sindex
            undoDb := db.undoDb.onRemove id value } := by
  cases found : db.store.objects.lookup id with
  | none => simp [remove, found]
  | some value => simp [remove, found, eq_comm]

theorem insert_eq_ok : insert config id value db = .ok next ↔ id ∉ db.store.objects ∧
      ¬ config.Conflicts db.store.objects id value ∧
      next = { db with store := { db.store with
        objects := db.store.objects.insert id value } } := by
  simp only [insert]
  split
  · tauto
  · rename_i free
    rw [not_or] at free
    simp only [Except.ok.injEq, free, not_false_eq_true, true_and]
    exact eq_comm

end Specifications

def setNextId (index : IndexId) (number : Nat) (db : ObjectDatabase V S) :
    ObjectDatabase V S :=
  { db with store := { db.store with
    nextId := Function.update db.store.nextId index number } }

/-- Reading one saved object back: unlike `insert`, this tells the secondary
index. -/
def load (db : ObjectDatabase V S) (item : ObjectId × V) :
    Except Fault (ObjectDatabase V S) := do
  let db ← insert config item.1 item.2 db
  .ok { db with sindex := config.objectInserted item.1 item.2 db.sindex }

/-- `primary_index::open` reads objects until something throws. -/
def openSaved (db : ObjectDatabase V S) : List (ObjectId × V) → ObjectDatabase V S
  | [] => db
  | item :: items =>
      match load config db item with
      | .ok next => openSaved next items
      | .error _ => db

/-- Saving all objects and opening them in a new process, whose secondary
index starts empty. -/
def reload (empty : S) (saved : List (ObjectId × V))
    (db : ObjectDatabase V S) : ObjectDatabase V S :=
  openSaved config
    { store := { objects := ∅, nextId := db.store.nextId }
      sindex := empty
      undoDb := UndoDatabase.initial } saved

/-- The loops that `undo` and `pop_commit` share. -/
def restore (iteration : Iteration V) (db : ObjectDatabase V S) :
    Except Fault (ObjectDatabase V S) := do
  let db ← iteration.oldValues.foldlM
    (fun db item => modify config item.1 (fun _ => item.2) db) db
  let db ← iteration.newIds.foldlM (fun db id => remove config id db) db
  let db := iteration.oldIndexNextIds.foldl (fun db item => setNextId item.1 item.2 db) db
  iteration.removed.foldlM (fun db item => insert config item.1 item.2 db) db

variable {next : ObjectDatabase V S}

def undo (iterator : Iterator V) (db : ObjectDatabase V S) :
    Except Fault (ObjectDatabase V S) :=
  if db.undoDb.disabled then .error .undoDisabled
  else if db.undoDb.activeSessions = 0 then .error .noActiveSession
  else
    match db.undoDb.stack with
    | [] => .error .stackEmpty
    | state :: rest => do
        let restored ← restore config (iterator.order state)
          { db with undoDb := db.undoDb.disable }
        .ok { restored with undoDb :=
          { restored.undoDb with
            disabled := false
            stack := rest
            activeSessions := db.undoDb.activeSessions - 1 } }

def popCommit (iterator : Iterator V) (db : ObjectDatabase V S) :
    Except Fault (ObjectDatabase V S) :=
  if db.undoDb.activeSessions ≠ 0 then .error .sessionActive
  else
    match db.undoDb.stack with
    | [] => .error .stackEmpty
    | state :: rest => do
        let restored ← restore config (iterator.order state)
          { db with undoDb := db.undoDb.disable }
        .ok { restored with undoDb :=
          { restored.undoDb with disabled := false, stack := rest } }

section Inversions

variable {config : IndexConfig V K S} {iterator : Iterator V} {db next : ObjectDatabase V S}

variable (config iterator db next) in
def Restores : Prop :=
  ∃ state rest restored, db.undoDb.stack = state :: rest ∧
    restore config (iterator.order state) { db with undoDb := db.undoDb.disable } = .ok restored ∧
    next.store = restored.store ∧ next.sindex = restored.sindex ∧ next.undoDb.stack = rest

theorem undo_restores (success : undo config iterator db = .ok next) :
    Restores config iterator db next := by
  simp only [undo] at success
  split at success
  · cases success
  · split at success
    · cases success
    · cases stack : db.undoDb.stack with
      | nil =>
        rw [stack] at success
        cases success
      | cons state rest =>
        rw [stack] at success
        obtain ⟨restored, result, ⟨⟩⟩ := bind_eq_ok.mp success
        exact ⟨state, rest, restored, stack, result, rfl, rfl, rfl⟩

theorem popCommit_restores (success : popCommit config iterator db = .ok next) :
    Restores config iterator db next := by
  simp only [popCommit] at success
  split at success
  · cases success
  · cases stack : db.undoDb.stack with
    | nil =>
      rw [stack] at success
      cases success
    | cons state rest =>
      rw [stack] at success
      obtain ⟨restored, result, ⟨⟩⟩ := bind_eq_ok.mp success
      exact ⟨state, rest, restored, stack, result, rfl, rfl, rfl⟩

end Inversions

def startUndoSession (db : ObjectDatabase V S) : ObjectDatabase V S :=
  { db with undoDb := db.undoDb.startUndoSession false }

def merge (iterator : Iterator V) (db : ObjectDatabase V S) :
    Except Fault (ObjectDatabase V S) := do
  let undoDb ← db.undoDb.merge iterator
  .ok { db with undoDb }

def commit (db : ObjectDatabase V S) : Except Fault (ObjectDatabase V S) := do
  let undoDb ← db.undoDb.commit
  .ok { db with undoDb }

theorem merge_eq_ok (success : merge iterator db = .ok next) :
    ∃ undoDb, db.undoDb.merge iterator = .ok undoDb ∧ next = { db with undoDb } := by
  obtain ⟨undoDb, result, ⟨⟩⟩ := bind_eq_ok.mp success
  exact ⟨undoDb, result, rfl⟩

theorem commit_eq_ok (success : commit db = .ok next) :
    ∃ undoDb, db.undoDb.commit = .ok undoDb ∧ next = { db with undoDb } := by
  obtain ⟨undoDb, result, ⟨⟩⟩ := bind_eq_ok.mp success
  exact ⟨undoDb, result, rfl⟩

end ObjectDatabase

end CocosChain.Db

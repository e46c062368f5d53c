import CocosChain.Library.KeyedFold

/-!
# Undo states and the undo stack

`undo_state` keeps, for one session, the previous values of modified objects,
the ids of created objects, the previous values of removed objects and the
next-id counters before the first creation in each index.  The callbacks
`on_create`, `on_modify` and `on_remove` maintain the newest state; `merge`
folds the newest state into the one below it.

The containers are hash maps, so a loop over one visits its entries in an
order the program does not control.  An `Iterator` is one choice of such
orders; every result holds for each of them.
-/

namespace CocosChain.Db

structure IndexId where
  space : Nat
  type : Nat
  deriving DecidableEq, Repr

structure ObjectId where
  index : IndexId
  number : Nat
  deriving DecidableEq, Repr

abbrev ObjectMap (V : Type) := Finmap fun _ : ObjectId => V

/-- The failed assertions of the object database. -/
inductive Fault where
  | unableToFindObject
  | uniquenessViolated
  | undoDisabled
  | noActiveSession
  | sessionActive
  | stackEmpty
  | stackTooSmall
  | illegalMerge
  deriving DecidableEq, Repr

@[ext] structure UndoState (V : Type) where
  oldValues : ObjectMap V
  oldIndexNextIds : Finmap fun _ : IndexId => Nat
  newIds : Finset ObjectId
  removed : ObjectMap V

variable {V : Type}

namespace UndoState

def empty : UndoState V := { oldValues := ∅, oldIndexNextIds := ∅, newIds := ∅, removed := ∅ }

def onCreate (id : ObjectId) (state : UndoState V) : UndoState V :=
  { state with
    oldIndexNextIds :=
      if id.index ∈ state.oldIndexNextIds then state.oldIndexNextIds
      else state.oldIndexNextIds.insert id.index id.number
    newIds := insert id state.newIds }

def onModify (id : ObjectId) (value : V) (state : UndoState V) : UndoState V :=
  if id ∈ state.newIds then state
  else if id ∈ state.oldValues then state
  else { state with oldValues := state.oldValues.insert id value }

def onRemove (id : ObjectId) (value : V) (state : UndoState V) : UndoState V :=
  if id ∈ state.newIds then
    { state with newIds := state.newIds.erase id }
  else
    match state.oldValues.lookup id with
    | some was =>
        { state with
          removed := state.removed.insert id was
          oldValues := state.oldValues.erase id }
    | none =>
        if id ∈ state.removed then state
        else { state with removed := state.removed.insert id value }

end UndoState

/-- The orders in which the loops over one undo state visit its entries. -/
structure Iteration (V : Type) where
  oldValues : List (ObjectId × V)
  oldIndexNextIds : List (IndexId × Nat)
  newIds : List ObjectId
  removed : List (ObjectId × V)

structure Iteration.Enumerates (iteration : Iteration V) (state : UndoState V) : Prop where
  oldValues : KeyedFold.ListsMap iteration.oldValues state.oldValues
  oldIndexNextIds : KeyedFold.ListsMap iteration.oldIndexNextIds state.oldIndexNextIds
  newIds : KeyedFold.ListsSet iteration.newIds state.newIds
  removed : KeyedFold.ListsMap iteration.removed state.removed

structure Iterator (V : Type) where
  order : UndoState V → Iteration V
  enumerates : ∀ state, (order state).Enumerates state

namespace Iterator

theorem exists_iteration (state : UndoState V) :
    ∃ iteration : Iteration V, iteration.Enumerates state := by
  obtain ⟨oldValues, oldListed⟩ := KeyedFold.ListsMap.exists state.oldValues
  obtain ⟨nextIds, nextListed⟩ := KeyedFold.ListsMap.exists state.oldIndexNextIds
  obtain ⟨newIds, newListed⟩ := KeyedFold.ListsSet.exists state.newIds
  obtain ⟨removed, removedListed⟩ := KeyedFold.ListsMap.exists state.removed
  exact ⟨⟨oldValues, nextIds, newIds, removed⟩, oldListed, nextListed, newListed, removedListed⟩

noncomputable def arbitrary : Iterator V :=
  { order := fun state => (exists_iteration state).choose
    enumerates := fun state => (exists_iteration state).choose_spec }

theorem exists_order (enumerates : iteration.Enumerates state) :
    ∃ iterator : Iterator V, iterator.order state = iteration := by
  classical
  refine ⟨⟨Function.update arbitrary.order state iteration, ?_⟩, by simp⟩
  intro other
  by_cases same : other = state
  · subst other
    simpa using enumerates
  · simpa [Function.update_of_ne same] using arbitrary.enumerates other

end Iterator

namespace UndoState

def mergeOldValue (prev : UndoState V) (item : ObjectId × V) : Except Fault (UndoState V) :=
  if item.1 ∈ prev.newIds then .ok prev
  else if item.1 ∈ prev.oldValues then .ok prev
  else if item.1 ∈ prev.removed then .error .illegalMerge
  else .ok { prev with oldValues := prev.oldValues.insert item.1 item.2 }

def mergeNewId (prev : UndoState V) (id : ObjectId) : UndoState V :=
  { prev with newIds := insert id prev.newIds }

def mergeNextId (prev : UndoState V) (item : IndexId × Nat) : UndoState V :=
  if item.1 ∈ prev.oldIndexNextIds then prev
  else { prev with
    oldIndexNextIds := prev.oldIndexNextIds.insert item.1 item.2 }

def mergeRemoved (prev : UndoState V) (item : ObjectId × V) : Except Fault (UndoState V) :=
  if item.1 ∈ prev.newIds then
    .ok { prev with newIds := prev.newIds.erase item.1 }
  else
    match prev.oldValues.lookup item.1 with
    | some was =>
        .ok { prev with
          removed := prev.removed.insert item.1 was
          oldValues := prev.oldValues.erase item.1 }
    | none =>
        if item.1 ∈ prev.removed then .error .illegalMerge
        else .ok { prev with removed := prev.removed.insert item.1 item.2 }

/-- The four loops of `undo_database::merge`, over the newer state in the
given order. -/
def mergeInto (prev : UndoState V) (iteration : Iteration V) : Except Fault (UndoState V) := do
  let prev ← iteration.oldValues.foldlM mergeOldValue prev
  let prev := iteration.newIds.foldl mergeNewId prev
  let prev := iteration.oldIndexNextIds.foldl mergeNextId prev
  iteration.removed.foldlM mergeRemoved prev

end UndoState

/-- The head of the list is the back of the deque. -/
@[ext] structure UndoDatabase (V : Type) where
  activeSessions : Nat
  disabled : Bool
  stack : List (UndoState V)
  maxSize : Nat

namespace UndoDatabase

/-- As constructed by `object_database`, which enables it at once. -/
def initial : UndoDatabase V :=
  { activeSessions := 0, disabled := false, stack := [], maxSize := 256 }

def enable (undoDb : UndoDatabase V) : UndoDatabase V := { undoDb with disabled := false }

def disable (undoDb : UndoDatabase V) : UndoDatabase V := { undoDb with disabled := true }

/-- The trimming loop pops the oldest states until the stack fits the bound,
counting the states of open sessions like those of committed ones. -/
def startUndoSession (forceEnable : Bool) (undoDb : UndoDatabase V) : UndoDatabase V :=
  if undoDb.disabled && !forceEnable then undoDb
  else
    { undoDb with
      disabled := false
      stack := UndoState.empty :: undoDb.stack.take undoDb.maxSize
      activeSessions := undoDb.activeSessions + 1 }

def updateBack (update : UndoState V → UndoState V) (undoDb : UndoDatabase V) : UndoDatabase V :=
  if undoDb.disabled then undoDb
  else
    { undoDb with
      stack := match undoDb.stack with
        | [] => [update UndoState.empty]
        | state :: rest => update state :: rest }

def onCreate (id : ObjectId) (undoDb : UndoDatabase V) : UndoDatabase V :=
  undoDb.updateBack (UndoState.onCreate id)

def onModify (id : ObjectId) (value : V) (undoDb : UndoDatabase V) : UndoDatabase V :=
  undoDb.updateBack (UndoState.onModify id value)

def onRemove (id : ObjectId) (value : V) (undoDb : UndoDatabase V) : UndoDatabase V :=
  undoDb.updateBack (UndoState.onRemove id value)

def merge (iterator : Iterator V) (undoDb : UndoDatabase V) : Except Fault (UndoDatabase V) :=
  if undoDb.activeSessions = 0 then .error .noActiveSession
  else if undoDb.activeSessions = 1 ∧ undoDb.stack.length = 1 then
    .ok { undoDb with stack := undoDb.stack.tail, activeSessions := 0 }
  else
    match undoDb.stack with
    | state :: prev :: rest => do
        let merged ← prev.mergeInto (iterator.order state)
        .ok { undoDb with
          stack := merged :: rest
          activeSessions := undoDb.activeSessions - 1 }
    | _ => .error .stackTooSmall

def commit (undoDb : UndoDatabase V) : Except Fault (UndoDatabase V) :=
  if undoDb.activeSessions = 0 then .error .noActiveSession
  else .ok { undoDb with activeSessions := undoDb.activeSessions - 1 }

def setMaxSize (size : Nat) (undoDb : UndoDatabase V) : UndoDatabase V :=
  { undoDb with maxSize := size }

end UndoDatabase

end CocosChain.Db

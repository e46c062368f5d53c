import CocosChain.Db.ObjectDatabase
import CocosChain.Library.Change

/-!
# What an undo state says about the store

An undo state represents the difference between the store at the moment its
session was started and a later store.  At every object id its three object
containers together hold one change record; in particular they never share an
id.  The callbacks of the undo database compose the record with the change at
hand, and merging two consecutive states composes their records, which is the
table in the comment of `undo_database::merge`.
-/

namespace CocosChain.Db

variable {V : Type}

/-- The part of the three object containers that concerns one id. -/
abbrev Slot (V : Type) := Prop × Option V × Option V

def UndoState.slot (state : UndoState V) (id : ObjectId) : Slot V :=
  (id ∈ state.newIds, state.oldValues.lookup id, state.removed.lookup id)

def slotOf : Change V → Slot V
  | .same => (False, none, none)
  | .created => (True, none, none)
  | .updated was => (False, some was, none)
  | .deleted was => (False, none, some was)

namespace UndoState

/-- The change that the containers hold for one id, when they are disjoint
there. -/
def changeAt (state : UndoState V) (id : ObjectId) : Change V :=
  if id ∈ state.newIds then .created
  else
    match state.oldValues.lookup id, state.removed.lookup id with
    | some was, _ => .updated was
    | none, some was => .deleted was
    | none, none => .same

/-- At every id the containers hold exactly one change record. -/
def Recorded (state : UndoState V) : Prop := ∀ id, state.slot id = slotOf (state.changeAt id)

/-- No id is in two of the three object containers. -/
structure Disjoint (state : UndoState V) : Prop where
  newOld : ∀ id ∈ state.newIds, id ∉ state.oldValues
  newRemoved : ∀ id ∈ state.newIds, id ∉ state.removed
  oldRemoved : ∀ id ∈ state.oldValues, id ∉ state.removed

section Records

variable {state : UndoState V} {id : ObjectId} {change : Change V}

section

variable (record : state.slot id = slotOf change)
include record

theorem mem_newIds_iff : id ∈ state.newIds ↔ change = .created := by
  cases change <;> simp_all [slot, slotOf]

theorem lookup_oldValues_iff (was : V) : state.oldValues.lookup id = some was ↔
      change = .updated was := by
  cases change <;> simp_all [slot, slotOf]

theorem lookup_removed_iff (was : V) : state.removed.lookup id = some was ↔
      change = .deleted was := by
  cases change <;> simp_all [slot, slotOf]

theorem changeAt_of_slot : state.changeAt id = change := by
  cases change <;> simp_all [slot, slotOf, changeAt]

end

theorem Recorded.disjoint (recorded : state.Recorded) : state.Disjoint := by
  constructor
  · intro id created modified
    obtain ⟨was, found⟩ := Finmap.mem_iff.mp modified
    have asCreated := (mem_newIds_iff (recorded id)).mp created
    have asUpdated := (lookup_oldValues_iff (recorded id) was).mp found
    rw [asCreated] at asUpdated
    cases asUpdated
  · intro id created gone
    obtain ⟨was, found⟩ := Finmap.mem_iff.mp gone
    have asCreated := (mem_newIds_iff (recorded id)).mp created
    have asDeleted := (lookup_removed_iff (recorded id) was).mp found
    rw [asCreated] at asDeleted
    cases asDeleted
  · intro id modified gone
    obtain ⟨was, found⟩ := Finmap.mem_iff.mp modified
    obtain ⟨last, lost⟩ := Finmap.mem_iff.mp gone
    have asUpdated := (lookup_oldValues_iff (recorded id) was).mp found
    have asDeleted := (lookup_removed_iff (recorded id) last).mp lost
    rw [asUpdated] at asDeleted
    cases asDeleted

end Records

@[simp] theorem slot_empty (id : ObjectId) :
    (UndoState.empty : UndoState V).slot id = slotOf .same := by
  simp [slot, empty, slotOf]

@[simp] theorem changeAt_empty (id : ObjectId) :
    (UndoState.empty : UndoState V).changeAt id = .same :=
  changeAt_of_slot (slot_empty id)

theorem recorded_empty : (UndoState.empty : UndoState V).Recorded := by
  intro id
  rw [changeAt_empty, slot_empty]

variable {state : UndoState V} {id : ObjectId}

theorem Recorded.of_slot {next : UndoState V} (recorded : state.Recorded)
    (own : next.slot id = slotOf whole)
    (others : ∀ other, other ≠ id → next.slot other = state.slot other) :
    next.Recorded ∧ next.changeAt id = whole ∧
      ∀ other, other ≠ id → next.changeAt other = state.changeAt other := by
  have kept : ∀ other, other ≠ id → next.changeAt other = state.changeAt other := by
    intro other different
    exact changeAt_of_slot ((others other different).trans (recorded other))
  have rewritten : next.changeAt id = whole := changeAt_of_slot own
  refine ⟨?_, rewritten, kept⟩
  intro other
  by_cases same : other = id
  · subst same
    rw [rewritten, own]
  · rw [kept other same, others other same, recorded other]

theorem slot_onCreate (id : ObjectId) (state : UndoState V)
    (record : state.slot id = slotOf .same) : (state.onCreate id).slot id = slotOf .created := by
  simp_all [slot, slotOf, onCreate]

theorem slot_onCreate_of_ne (state : UndoState V) (different : other ≠ id) :
    (state.onCreate id).slot other = state.slot other := by
  simp [slot, onCreate, different]

theorem slot_onModify (record : state.slot id = slotOf change)
    (composed : change.compose (.updated value) = some whole) :
    (state.onModify id value).slot id = slotOf whole := by
  cases change with
  | same =>
    cases composed
    have absent : id ∉ state.oldValues := by
      rw [← Finmap.lookup_eq_none]
      exact congrArg (fun slot => slot.2.1) record
    have fresh : id ∉ state.newIds := by
      simpa [slotOf] using mem_newIds_iff record
    have kept : state.removed.lookup id = none := congrArg (fun slot => slot.2.2) record
    simp [slot, slotOf, onModify, absent, fresh, kept]
  | created =>
    cases composed
    have created : id ∈ state.newIds := (mem_newIds_iff record).mpr rfl
    simpa [onModify, created] using record
  | updated was =>
    cases composed
    have modified : id ∈ state.oldValues :=
      Finmap.mem_of_lookup_eq_some ((lookup_oldValues_iff record was).mpr rfl)
    simpa [onModify, modified] using record
  | deleted was => simp [Change.compose] at composed

theorem slot_onModify_of_ne (state : UndoState V) (different : other ≠ id) :
    (state.onModify id value).slot other = state.slot other := by
  unfold onModify
  split
  · rfl
  · split
    · rfl
    · simp [slot, Finmap.lookup_insert_of_ne _ different]

theorem slot_onRemove (record : state.slot id = slotOf change)
    (composed : change.compose (.deleted value) = some whole) :
    (state.onRemove id value).slot id = slotOf whole := by
  cases change with
  | same =>
    cases composed
    have fresh : id ∉ state.newIds := by
      simpa [slotOf] using mem_newIds_iff record
    have unmodified : state.oldValues.lookup id = none := congrArg (fun slot => slot.2.1) record
    have kept : id ∉ state.removed := by
      rw [← Finmap.lookup_eq_none]
      exact congrArg (fun slot => slot.2.2) record
    simp [slot, slotOf, onRemove, fresh, unmodified, kept]
  | created =>
    cases composed
    simp_all [slot, slotOf, onRemove]
  | updated was =>
    cases composed
    simp_all [slot, slotOf, onRemove]
  | deleted was => simp [Change.compose] at composed

theorem slot_onRemove_of_ne (state : UndoState V) (different : other ≠ id) :
    (state.onRemove id value).slot other = state.slot other := by
  unfold onRemove
  split
  · simp [slot, different]
  · split
    · simp [slot, Finmap.lookup_insert_of_ne _ different, Finmap.lookup_erase_ne different]
    · split
      · rfl
      · simp [slot, Finmap.lookup_insert_of_ne _ different]

end UndoState

/-- The three object loops partition the changed ids by kind of change. -/
structure Iteration.Splits (iteration : Iteration V) (changeAt : ObjectId → Change V) : Prop where
  oldValues : ∀ item, item ∈ iteration.oldValues ↔ changeAt item.1 = .updated item.2
  newIds : ∀ id, id ∈ iteration.newIds ↔ changeAt id = .created
  removed : ∀ item, item ∈ iteration.removed ↔ changeAt item.1 = .deleted item.2

namespace Iteration

variable {iteration : Iteration V} {changeAt : ObjectId → Change V} {id : ObjectId}

theorem Enumerates.splits (enumerates : iteration.Enumerates state)
    (recorded : state.Recorded) : iteration.Splits state.changeAt := by
  constructor
  · intro item
    exact (enumerates.oldValues.mem_iff item.1 item.2).trans
      (UndoState.lookup_oldValues_iff (recorded item.1) item.2)
  · intro id
    exact (enumerates.newIds.mem_iff id).trans (UndoState.mem_newIds_iff (recorded id))
  · intro item
    exact (enumerates.removed.mem_iff item.1 item.2).trans
      (UndoState.lookup_removed_iff (recorded item.1) item.2)

variable (split : iteration.Splits changeAt)
include split

theorem Splits.skipsOld (other : ∀ was, changeAt id ≠ .updated was) :
    id ∉ iteration.oldValues.map Prod.fst := by
  intro member
  obtain ⟨item, listed, rfl⟩ := List.mem_map.mp member
  exact other item.2 ((split.oldValues item).mp listed)

theorem Splits.skipsRemoved (other : ∀ was, changeAt id ≠ .deleted was) :
    id ∉ iteration.removed.map Prod.fst := by
  intro member
  obtain ⟨item, listed, rfl⟩ := List.mem_map.mp member
  exact other item.2 ((split.removed item).mp listed)

theorem Splits.skipsNew (other : changeAt id ≠ .created) :
    id ∉ iteration.newIds.map (fun id => id) := by
  intro member
  exact other ((split.newIds id).mp (by simpa using member))

end Iteration

namespace UndoState

section Merge

variable {prev : UndoState V}

variable {id : ObjectId}

theorem not_removed_of_compose (record : prev.slot id = slotOf change) (changed : second ≠ .same)
    (composed : change.compose second = some whole) : id ∉ prev.removed := by
  intro gone
  obtain ⟨was, found⟩ := Finmap.mem_iff.mp gone
  have deleted := (lookup_removed_iff record was).mp found
  cases second <;> simp_all [Change.compose]

theorem mergeOldValue_eq (record : prev.slot item.1 = slotOf change)
    (composed : change.compose (.updated item.2) = some whole) :
    prev.mergeOldValue item = .ok (prev.onModify item.1 item.2) := by
  have kept := not_removed_of_compose record (by simp) composed
  unfold mergeOldValue onModify
  split
  · rfl
  · split <;> rfl

theorem mergeRemoved_eq (record : prev.slot item.1 = slotOf change)
    (composed : change.compose (.deleted item.2) = some whole) :
    prev.mergeRemoved item = .ok (prev.onRemove item.1 item.2) := by
  have kept := not_removed_of_compose record (by simp) composed
  unfold mergeRemoved onRemove
  split
  · rfl
  · split <;> rfl

theorem slot_mergeNewId (record : prev.slot id = slotOf .same) :
    (prev.mergeNewId id).slot id = slotOf .created := by
  simp_all [slot, slotOf, mergeNewId]

theorem slot_mergeNewId_of_ne (different : other ≠ id) :
    (prev.mergeNewId id).slot other = prev.slot other := by
  simp [slot, mergeNewId, different]

end Merge

/-- The two records at an id can follow each other. -/
def Composable (first second : Change V) : Prop :=
  first.compose second = some (first.andThen second)

/-- A recorded state with the given counters. -/
def RecordedWith (counters : Finmap fun _ : IndexId => Nat) (state : UndoState V) : Prop :=
  state.Recorded ∧ state.oldIndexNextIds = counters

theorem oldIndexNextIds_onModify (id : ObjectId) (value : V) (state : UndoState V) :
    (state.onModify id value).oldIndexNextIds = state.oldIndexNextIds := by
  unfold onModify
  split <;> [rfl; split <;> rfl]

theorem oldIndexNextIds_onRemove (id : ObjectId) (value : V) (state : UndoState V) :
    (state.onRemove id value).oldIndexNextIds = state.oldIndexNextIds := by
  unfold onRemove
  split
  · rfl
  · split <;> [rfl; split <;> rfl]

theorem RecordedWith.stepsTo {change : α → Change V} (recorded : state.RecordedWith counters)
    (own : next.slot (key item) = slotOf ((state.changeAt (key item)).andThen (change item)))
    (others : ∀ other, other ≠ key item → next.slot other = state.slot other)
    (same : next.oldIndexNextIds = state.oldIndexNextIds) :
    KeyedFold.StepsTo changeAt key (fun item was => was.andThen (change item))
      (RecordedWith counters) state item next := by
  obtain ⟨inv, own, others⟩ := recorded.1.of_slot own others
  exact ⟨⟨inv, same.trans recorded.2⟩, own, others⟩

theorem same_of_composable_created {change : Change V}
    (composable : Composable change .created) : change = .same := by
  cases change <;> simp_all [Composable, Change.compose]

section Loops

variable {prev : UndoState V}

section

variable (recorded : prev.RecordedWith counters)
include recorded

theorem mergeValues_runsTo {merge : UndoState V → ObjectId × V → Except Fault (UndoState V)}
    (change : V → Change V) (step : ∀ state (item : ObjectId × V), state.Recorded →
      Composable (state.changeAt item.1) (change item.2) → ∃ next, merge state item = .ok next ∧
        next.slot item.1 = slotOf ((state.changeAt item.1).andThen (change item.2)) ∧
        (∀ other, other ≠ item.1 → next.slot other = state.slot other) ∧
        next.oldIndexNextIds = state.oldIndexNextIds)
    (items : List (ObjectId × V)) (distinct : (items.map Prod.fst).Nodup)
    (composable : ∀ item ∈ items, Composable (prev.changeAt item.1) (change item.2)) :
    ∃ next, items.foldlM merge prev = .ok next ∧ KeyedFold.RunsTo changeAt Prod.fst
        (fun item was => was.andThen (change item.2)) (RecordedWith counters) items prev next := by
  apply KeyedFold.foldlM_total _ _ _ _ (fun item was => Composable was (change item.2)) _ _
    items distinct prev recorded composable
  intro state item inv ready
  obtain ⟨next, merged, own, others, same⟩ := step state item inv.1 ready
  exact ⟨next, merged, inv.stepsTo own others same⟩

theorem mergeNewIds_runsTo (ids : List ObjectId) (distinct : ids.Nodup)
    (composable : ∀ id ∈ ids, Composable (prev.changeAt id) .created) :
    KeyedFold.RunsTo changeAt (fun id => id) (fun _ change => change.andThen .created)
      (RecordedWith counters) ids prev (ids.foldl mergeNewId prev) := by
  apply KeyedFold.foldl_runsTo _ _ _ _ (fun _ change => Composable change .created) _ _ ids
    (by simpa using distinct) prev recorded composable
  intro state id inv ready
  have untouched := same_of_composable_created ready
  have record := inv.1 id
  rw [untouched] at record
  apply inv.stepsTo _ (fun other different => slot_mergeNewId_of_ne different) rfl
  rw [untouched]
  exact slot_mergeNewId record

end

theorem mergeNextIds_eq (items : List (IndexId × Nat)) (newer : Finmap fun _ : IndexId => Nat)
    (lists : KeyedFold.ListsMap items newer) (prev : UndoState V) :
    ∃ merged, items.foldl mergeNextId prev = { prev with oldIndexNextIds := merged } ∧
      ∀ index, merged.lookup index =
        (prev.oldIndexNextIds.lookup index).or (newer.lookup index) := by
  have effect := KeyedFold.foldl_runsTo
    (fun (state : UndoState V) index => state.oldIndexNextIds.lookup index)
    Prod.fst (fun (item : IndexId × Nat) saved => saved.or (some item.2))
    (fun state => ∃ merged, state = { prev with oldIndexNextIds := merged })
    (fun _ _ => True) mergeNextId (by
      rintro _ ⟨index, number⟩ ⟨merged, rfl⟩ -
      unfold mergeNextId
      split
      · rename_i present
        obtain ⟨_, found⟩ := Finmap.mem_iff.mp present
        exact ⟨⟨merged, rfl⟩, by simp_all, fun _ _ => rfl⟩
      · refine ⟨⟨_, rfl⟩, ?_, ?_⟩
        · simp_all [Finmap.lookup_eq_none.mpr]
        · intro other different
          simp [Finmap.lookup_insert_of_ne _ different])
    items lists.distinct prev ⟨_, rfl⟩ (fun _ _ => trivial)
  obtain ⟨merged, final⟩ := effect.inv
  refine ⟨merged, final, ?_⟩
  intro index
  have lookupFinal : merged.lookup index =
      (items.foldl mergeNextId prev).oldIndexNextIds.lookup index := by
    rw [final]
  rw [lookupFinal]
  cases found : newer.lookup index with
  | none =>
    have absent : index ∉ items.map Prod.fst := by
      rw [lists.mem_keys, ← Finmap.lookup_eq_none]
      exact found
    rw [effect.untouched index absent, Option.or_none]
  | some number =>
    exact effect.visited (index, number) ((lists.mem_iff index number).mpr found)

end Loops

/-- Merging a recorded state into the one below it never trips an assertion,
whatever the iteration order, and composes the two records at every id. -/
theorem mergeInto_spec {prev : UndoState V} (enumerates : iteration.Enumerates newer)
    (recorded : prev.Recorded) (recordedNewer : newer.Recorded)
    (composable : ∀ id, Composable (prev.changeAt id) (newer.changeAt id)) :
    ∃ merged, prev.mergeInto iteration = .ok merged ∧ merged.Recorded ∧
      (∀ id, merged.changeAt id = (prev.changeAt id).andThen (newer.changeAt id)) ∧
      ∀ index, merged.oldIndexNextIds.lookup index = (prev.oldIndexNextIds.lookup index).or
          (newer.oldIndexNextIds.lookup index) := by
  have split := enumerates.splits recordedNewer
  obtain ⟨afterOld, runOld, old⟩ :=
    mergeValues_runsTo ⟨recorded, rfl⟩ .updated (fun state item recorded ready =>
      ⟨_, mergeOldValue_eq (recorded item.1) ready, slot_onModify (recorded item.1) ready,
        fun _ => slot_onModify_of_ne state, oldIndexNextIds_onModify ..⟩) iteration.oldValues
      enumerates.oldValues.distinct (fun item listed => by
        rw [← (split.oldValues item).mp listed]
        exact composable item.1)
  have new := mergeNewIds_runsTo old.inv iteration.newIds
    enumerates.newIds.distinct (fun id listed => by
      have created := (split.newIds id).mp listed
      rw [old.untouched id (split.skipsOld (by simp [created])), ← created]
      exact composable id)
  obtain ⟨counters, runNext, counted⟩ :=
    mergeNextIds_eq iteration.oldIndexNextIds newer.oldIndexNextIds
      enumerates.oldIndexNextIds (iteration.newIds.foldl mergeNewId afterOld)
  have recordedNext : RecordedWith counters { iteration.newIds.foldl mergeNewId afterOld with
        oldIndexNextIds := counters } :=
    ⟨new.inv.1, rfl⟩
  obtain ⟨merged, runRemoved, removed⟩ :=
    mergeValues_runsTo recordedNext .deleted (fun state item recorded ready =>
      ⟨_, mergeRemoved_eq (recorded item.1) ready, slot_onRemove (recorded item.1) ready,
        fun _ => slot_onRemove_of_ne state, oldIndexNextIds_onRemove ..⟩) iteration.removed
      enumerates.removed.distinct (fun item listed => by
        have deleted := (split.removed item).mp listed
        change Composable ((iteration.newIds.foldl mergeNewId afterOld).changeAt item.1) _
        rw [new.untouched _ (split.skipsNew (by simp [deleted])),
          old.untouched _ (split.skipsOld (by simp [deleted])), ← deleted]
        exact composable item.1)
  refine ⟨merged, ?_, removed.inv.1, ?_, ?_⟩
  · rw [mergeInto, runOld]
    change (iteration.oldIndexNextIds.foldl mergeNextId
      (iteration.newIds.foldl mergeNewId afterOld) |> iteration.removed.foldlM mergeRemoved) = _
    rw [runNext]
    exact runRemoved
  · intro id
    have afterNew : ∀ id, UndoState.changeAt { iteration.newIds.foldl mergeNewId afterOld with
          oldIndexNextIds := counters } id =
        (iteration.newIds.foldl mergeNewId afterOld).changeAt id :=
      fun _ => rfl
    cases change : newer.changeAt id with
    | same =>
      rw [removed.untouched id (split.skipsRemoved (by simp [change])),
        afterNew, new.untouched id (split.skipsNew (by simp [change])),
        old.untouched id (split.skipsOld (by simp [change])), Change.andThen_same]
    | created =>
      rw [removed.untouched id (split.skipsRemoved (by simp [change])),
        afterNew, new.visited id ((split.newIds id).mpr change),
        old.untouched id (split.skipsOld (by simp [change]))]
    | updated was =>
      rw [removed.untouched id (split.skipsRemoved (by simp [change])),
        afterNew, new.untouched id (split.skipsNew (by simp [change])),
        old.visited (id, was) ((split.oldValues (id, was)).mpr change)]
    | deleted was =>
      rw [removed.visited (id, was) ((split.removed (id, was)).mpr change),
        afterNew, new.untouched id (split.skipsNew (by simp [change])),
        old.untouched id (split.skipsOld (by simp [change]))]
  · intro index
    rw [removed.inv.2, counted, new.inv.2]

end UndoState

end CocosChain.Db

import CocosChain.Db.UndoRefinement

/-!
# Undo exactness

A session ended by `undo`, at any depth, gives back the store it was started
on; `pop_commit` gives back the store the popped session was started on;
merging a session into its parent is invisible once the parent is undone.  All
of it follows from the simulation by copies of the store.

A session committed inside another one leaves its own undo state on top of its
parent's, so the end of the parent finds the wrong state.  The program commits
outermost sessions only, and so do the bodies considered here.
-/

namespace CocosChain.Db

open SessionScript

variable {V K S : Type} [DecidableEq K]

abbrev Script (V : Type) := SessionScript (Action V) (Iterator V)

/-- A database with undo tracking enabled and no history. -/
def ObjectDatabase.tracking (store : Store V) (sindex : S) (maxSize : Nat) : ObjectDatabase V S :=
  { store, sindex
    undoDb := { activeSessions := 0, disabled := false, stack := [], maxSize } }

/-- The run met a collision of unique keys or trimmed the stack. -/
def Excluded {Result : Type} (result : Except Stop Result) : Prop :=
  result = .error .trimmed ∨ result = .error (.fault .uniquenessViolated)

namespace ObjectDatabase

variable (config : IndexConfig V K S)

/-- Undoing a session restores the store it was started on. -/
def UndoesExactly (db : ObjectDatabase V S) : Prop :=
  ∀ (body : List (Script V)) (iterator : Iterator V), SessionScript.UncommittedAll body →
      (∃ next, run config (session body (.undo iterator)).events
        db = .ok next ∧ next.store = db.store) ∨
      Excluded (run config (session body (.undo iterator)).events db)

def committedStart (ending : Ending (Iterator V)) (store : Store V)
    (starts : List (Store V)) : List (Store V) :=
  match ending with
  | .undo _ | .merge _ => starts
  | .commit => store :: starts

/-- Sessions one after the other, collecting the stores on which the committed
ones were started, newest first. -/
def runSessions : List (List (Script V) × Ending (Iterator V)) → ObjectDatabase V S →
      List (Store V) → Except Stop (ObjectDatabase V S × List (Store V))
  | [], db, starts => .ok (db, starts)
  | (body, ending) :: sessions, db, starts => do
      let next ← run config (session body ending).events db
      runSessions sessions next (committedStart ending db.store starts)

/-- Popping committed sessions goes back through the stores on which they
were started. -/
def PopsExactly (db : ObjectDatabase V S) : Prop :=
  db.undoDb.activeSessions = 0 →
  ∀ sessions : List (List (Script V) × Ending (Iterator V)),
    (∀ session ∈ sessions, SessionScript.UncommittedAll session.1) →
      (∃ last starts, runSessions config sessions db [] = .ok (last, starts) ∧
        ∀ iterators : List (Iterator V), iterators.length ≤ starts.length →
          (∃ next, run config (iterators.map .pop) last = .ok next ∧
            (last.store :: starts)[iterators.length]? = some next.store) ∨
          Excluded (run config (iterators.map .pop) last)) ∨
      Excluded (runSessions config sessions db [])

/-- Merging a session into its parent and undoing the parent gives the same
store as undoing both. -/
def MergesLikeUndo (db : ObjectDatabase V S) : Prop :=
  ∀ (earlier inner later : List (Script V))
    (first second outer : Iterator V) (merged undone : ObjectDatabase V S),
    SessionScript.UncommittedAll earlier →
    SessionScript.UncommittedAll inner →
    SessionScript.UncommittedAll later →
    run config (session (earlier ++ .session inner (.merge first) :: later)
      (.undo outer)).events db = .ok merged →
    run config (session (earlier ++ .session inner (.undo second) :: later)
      (.undo outer)).events db = .ok undone →
    merged.store = undone.store

/-- The containers of every undo state are disjoint, and no event trips an
assertion of `merge` or misses an object. -/
def FramesSound (db : ObjectDatabase V S) : Prop :=
  (∀ state ∈ db.undoDb.stack, state.Disjoint) ∧
    ∀ event, react config db event ≠ .error (.fault .illegalMerge) ∧
      react config db event ≠ .error (.fault .unableToFindObject)

theorem refines_tracking {store : Store V} (wellFormed : store.WellFormed) (sindex : S)
    (maxSize : Nat) : Refines (tracking store sindex maxSize) ⟨store, [], 0, maxSize⟩ :=
  ⟨rfl, wellFormed, trivial, rfl, rfl, rfl⟩

theorem session_outcome (refines : Refines db stack) (framed : stack.Framed)
    (quiet : SessionScript.UncommittedAll body) (ending : Ending (Iterator V)) :
    (∃ next last, run config (session body ending).events db =
      .ok next ∧ Refines next (stack.ended ending last)) ∨
    Excluded (run config (session body ending).events db) := by
  have simulates := Refines.run_simulates config refines (session body ending).events
  rcases SnapshotStack.run_session_of_body Action.perform body ending stack framed (fun room =>
    SnapshotStack.runAll_keeps _ body quiet stack.start (by simp [SnapshotStack.start])
      (SnapshotStack.framed_start framed room)) with ⟨last, abstract⟩ | abstract
  · rw [abstract] at simulates
    generalize run config _ db = result at simulates
    cases simulates with
    | done reached => exact .inl ⟨_, last, rfl, reached⟩
    | collided keyed abstract => exact .inr (.inr rfl)
  · rw [abstract] at simulates
    generalize run config _ db = result at simulates
    cases simulates with
    | trimmed => exact .inr (.inl rfl)
    | collided keyed abstract => exact .inr (.inr rfl)

theorem undoesExactly (refines : Refines db stack) (framed : stack.Framed) :
    UndoesExactly config db := by
  intro body iterator quiet
  rcases session_outcome config refines framed quiet (.undo iterator) with
    ⟨next, last, success, reached⟩ | excluded
  · exact .inl ⟨next, success, reached.store.trans refines.store.symm⟩
  · exact .inr excluded

theorem uncommittedAll_insert {earlier inner later : List (Script V)}
    (uncommitted : ¬ ending.IsCommit) (quietEarlier : SessionScript.UncommittedAll earlier)
    (quietInner : SessionScript.UncommittedAll inner)
    (quietLater : SessionScript.UncommittedAll later) :
    SessionScript.UncommittedAll (earlier ++ .session inner ending :: later) := by
  induction earlier with
  | nil => exact ⟨⟨uncommitted, quietInner⟩, quietLater⟩
  | cons item items induction =>
    exact ⟨quietEarlier.1, induction quietEarlier.2⟩

variable {config} in
theorem UndoesExactly.store_eq (exactness : UndoesExactly config db)
    (quiet : SessionScript.UncommittedAll body)
    (success : run config (session body (.undo iterator)).events db = .ok next) :
    next.store = db.store := by
  rcases exactness body iterator quiet with
    ⟨other, reached, same⟩ | trimmed | collided
  · rw [success] at reached
    cases reached
    exact same
  · rw [success] at trimmed
    cases trimmed
  · rw [success] at collided
    cases collided

theorem mergesLikeUndo (refines : Refines db stack)
    (framed : stack.Framed) : MergesLikeUndo config db := by
  intro earlier inner later first second outer merged undone quietEarlier
    quietInner quietLater successMerged successUndone
  have exactness := undoesExactly config refines framed
  have leftStore := exactness.store_eq (uncommittedAll_insert id quietEarlier quietInner quietLater)
    successMerged
  have rightStore := exactness.store_eq
    (uncommittedAll_insert id quietEarlier quietInner quietLater) successUndone
  rw [leftStore, rightStore]

theorem framesSound (refines : Refines db stack) : FramesSound config db := by
  constructor
  · intro state member
    exact (refines.tracks.recorded state member).disjoint
  · intro event
    have simulates := Refines.react_simulates config refines event
    generalize react config db event = result at simulates
    generalize SnapshotStack.react Action.perform stack event = abstract at simulates
    cases simulates with
    | done reached => exact ⟨nofun, nofun⟩
    | trimmed => exact ⟨nofun, nofun⟩
    | collided keyed abstract => exact ⟨nofun, nofun⟩
    | refused refusal =>
      constructor
      · intro equality
        cases equality
        exact refusal
      · intro equality
        cases equality
        exact refusal

theorem runSessions_outcome (sessions : List (List (Script V) × Ending (Iterator V)))
    (quiet : ∀ session ∈ sessions, SessionScript.UncommittedAll session.1)
    (refines : Refines db stack) (framed : stack.Framed) (starts : List (Store V))
    (older : List (Store V)) (saved : stack.saved = starts ++ older) :
    (∃ last collected final, runSessions config sessions db starts = .ok (last, collected) ∧
      Refines last final ∧ final.active = stack.active ∧
      final.saved = collected ++ older) ∨
    Excluded (runSessions config sessions db starts) := by
  induction sessions generalizing db stack starts with
  | nil => exact .inl ⟨db, starts, stack, rfl, refines, rfl, saved⟩
  | cons session sessions induction =>
    obtain ⟨body, ending⟩ := session
    have quietBody := quiet (body, ending) List.mem_cons_self
    have quietRest : ∀ session ∈ sessions,
        SessionScript.UncommittedAll session.1 := fun session member =>
      quiet session (List.mem_cons_of_mem _ member)
    rw [runSessions]
    rcases session_outcome config refines framed quietBody
      ending with ⟨_, last, success, reached⟩ | excluded
    · rw [success]
      cases ending with
      | undo iterator => exact induction quietRest reached framed starts saved
      | merge iterator =>
        exact induction quietRest reached framed starts saved
      | commit =>
        have collected : (stack.ended (.commit : Ending (Iterator V))
            last).saved = (db.store :: starts) ++ older := by
          rw [refines.store, List.cons_append, ← saved]
          rfl
        exact induction quietRest reached (Nat.le_succ_of_le framed)
          _ collected
    · right
      rcases excluded with trimmed | collided
      · rw [trimmed]
        exact .inl rfl
      · rw [collided]
        exact .inr rfl

theorem popsExactly (refines : Refines db stack) (framed : stack.Framed) :
    PopsExactly config db := by
  intro idle sessions quiet
  rcases runSessions_outcome config sessions quiet refines framed [] stack.saved rfl with
    ⟨last, starts, final, success, reached, active, saved⟩ | excluded
  · left
    refine ⟨last, starts, success, ?_⟩
    intro iterators enough
    have enoughSaved : iterators.length ≤ final.saved.length := by
      rw [saved, List.length_append]
      omega
    obtain ⟨abstract, popped, found⟩ :=
      SnapshotStack.run_pops Action.perform iterators final
        (active.trans (refines.active.symm.trans idle)) enoughSaved
    have simulates := Refines.run_simulates config reached (iterators.map .pop)
    rw [popped] at simulates
    generalize run config _ last = result at simulates
    cases simulates with
    | collided keyed abstract => exact .inr (.inr rfl)
    | done there =>
      left
      refine ⟨_, rfl, ?_⟩
      rw [there.store, ← found, saved, ← reached.store, ← List.cons_append,
        List.getElem?_append_left (by simp; omega)]
  · exact .inr excluded

theorem undo_exactness (config : IndexConfig V K S) (store : Store V)
    (wellFormed : store.WellFormed) (sindex : S) (maxSize : Nat)
    (events : List (SessionEvent (Action V) (Iterator V))) (db : ObjectDatabase V S)
    (reached : run config events (tracking store sindex maxSize) = .ok db) :
    UndoesExactly config db ∧ PopsExactly config db ∧
      MergesLikeUndo config db ∧ FramesSound config db := by
  have simulates := Refines.run_simulates config (refines_tracking wellFormed sindex maxSize) events
  rw [reached] at simulates
  generalize run : SnapshotStack.run Action.perform events
    ⟨store, [], 0, maxSize⟩ = abstract at simulates
  cases simulates with
  | done refines =>
    have start : (⟨store, [], 0, maxSize⟩ : SnapshotStack (Store V)).Framed := Nat.le_refl 0
    have framed := SnapshotStack.run_framed Action.perform start run
    exact ⟨undoesExactly config refines framed, popsExactly config refines framed,
      mergesLikeUndo config refines framed, framesSound config refines⟩

def vacant : Store V := { objects := ∅, nextId := fun _ => 0 }

theorem vacant_wellFormed : (vacant : Store V).WellFormed := by
  intro id live
  simp [vacant] at live

/-- The theorem applies in the middle of a session. -/
theorem undo_exactness_after_create : ∃ db, run (IndexConfig.plain : IndexConfig Nat Empty Unit)
        [.start, .act (.create ⟨1, 0⟩ 7)] (tracking vacant () 10) = .ok db ∧
      UndoesExactly IndexConfig.plain db ∧
      PopsExactly IndexConfig.plain db ∧
      MergesLikeUndo IndexConfig.plain db ∧
      FramesSound IndexConfig.plain db :=
  ⟨_, rfl, undo_exactness IndexConfig.plain vacant vacant_wellFormed () 10
    [.start, .act (.create ⟨1, 0⟩ 7)] _ rfl⟩

/-- Without unique keys, a run of the database and one on copies of the store
end at the same store, or both stop. -/
theorem run_refines_snapshots (config : IndexConfig V K S) (unkeyed : ¬ config.Keyed)
    (store : Store V) (wellFormed : store.WellFormed) (sindex : S) (maxSize : Nat)
    (events : List (SessionEvent (Action V) (Iterator V))) :
    (run config events (tracking store sindex maxSize)).toOption.map (·.store) =
      (SnapshotStack.run Action.perform events
        ⟨store, [], 0, maxSize⟩).toOption.map (·.current) := by
  have simulates := Refines.run_simulates config (refines_tracking wellFormed sindex maxSize) events
  generalize run config events _ = result at simulates ⊢
  generalize SnapshotStack.run _ events _ = abstract at simulates ⊢
  cases simulates with
  | done refines => exact congrArg some refines.store
  | trimmed => rfl
  | refused => rfl
  | collided keyed => exact absurd keyed unkeyed

theorem run_refines_snapshots_created :
    let events : List (SessionEvent (Action Nat) (Iterator Nat)) :=
      [.start, .act (.create ⟨1, 0⟩ 7)]
    (run (IndexConfig.plain : IndexConfig Nat Empty Unit) events
      (tracking vacant () 10)).toOption.map (·.store) =
      (SnapshotStack.run Action.perform events ⟨vacant, [], 0, 10⟩).toOption.map (·.current) :=
  run_refines_snapshots _ (fun ⟨_, keyed⟩ => nomatch keyed) vacant vacant_wellFormed () 10 _

/-- A session that creates an object and then commits another session inside:
undoing it takes back the inner session only. -/
def committingInside (iterator : Iterator Nat) : Script Nat :=
  .session [.step (.create ⟨1, 0⟩ 7),
    .session [.step (.create ⟨1, 0⟩ 8)] .commit] (.undo iterator)

/-- Without the restriction to bodies without commits, undoing a session does
not restore the store it was started on. -/
theorem undo_after_inner_commit_not_exact : ¬ ∀ (body : List (Script Nat)) (iterator : Iterator Nat)
      (next : ObjectDatabase Nat Unit),
      run IndexConfig.plain (session body (.undo iterator)).events
        (tracking vacant () 10) = .ok next → next.store = vacant := by
  intro restores
  have simulates := Refines.run_simulates IndexConfig.plain
    (refines_tracking vacant_wellFormed () 10) (committingInside .arbitrary).events
  generalize success : run IndexConfig.plain
    (committingInside .arbitrary).events (tracking vacant () 10) = result at simulates
  have abstract : SnapshotStack.run Action.perform
      (committingInside .arbitrary).events ⟨vacant, [], 0, 10⟩ = .ok _ := rfl
  rw [abstract] at simulates
  cases simulates with
  | collided keyed abstract =>
    obtain ⟨_, keyed⟩ := keyed
    cases keyed
  | done refines =>
    have unchanged := restores _ _ _ success
    have found := congrArg (fun store => store.objects.lookup ⟨⟨1, 0⟩, 0⟩) refines.store
    rw [unchanged] at found
    revert found
    decide

end ObjectDatabase

end CocosChain.Db

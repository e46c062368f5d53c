import CocosChain.Db.ObjectDatabase

/-!
# Undo tracking around an operation

`apply_operation` turns undo tracking on, performs the operation in a session
and sets the flag back by hand.  Evaluators apply operations themselves, and
some callers catch whatever is thrown.  Of the undo database only the flag and
the number of sessions are looked at.
-/

namespace CocosChain.Chain

/-- The flag and the counter of the undo database. -/
structure Tracking where
  disabled : Bool
  activeSessions : Nat
deriving DecidableEq

/-- Only `fc::exception` is turned into a result. -/
inductive Exit where
  | returned
  | thrown (foreign : Bool)
deriving DecidableEq

/-- What an evaluator or a caller does, as far as it applies operations.  It
goes on differently after an operation that has thrown; `merges` tells whether
merging the session passes its assertions. -/
inductive Applications where
  | ends (exit : Exit)
  | apply (isAgreedTask merges : Bool) (evaluator : Applications)
      (returned thrown : Applications)

namespace Tracking

variable (tracking : Tracking)

def startUndoSession : Tracking :=
  if tracking.disabled then tracking
  else { tracking with activeSessions := tracking.activeSessions + 1 }

def merge : Tracking := { tracking with activeSessions := tracking.activeSessions - 1 }

/-- Undoing leaves the tracking on. -/
def undo : Tracking := { disabled := false, activeSessions := tracking.activeSessions - 1 }

/-- A session that is still open is undone as it goes out of scope; the flag is
set back only after that. -/
def applyOperation (isAgreedTask merges : Bool)
    (evaluate : Tracking → Exit × Tracking) : Exit × Tracking :=
  let opened := { tracking with disabled := false }.startUndoSession
  match evaluate opened with
  | (.returned, evaluated) =>
      if merges then
        (.returned, { evaluated.merge with disabled := tracking.disabled })
      else (.thrown false, evaluated.undo)
  | (.thrown foreign, evaluated) =>
      if isAgreedTask && !foreign then
        (.returned, { evaluated.undo with disabled := tracking.disabled })
      else (.thrown foreign, evaluated.undo)

end Tracking

namespace Applications

def perform : Applications → Tracking → Exit × Tracking
  | .ends exit, tracking => (exit, tracking)
  | .apply isAgreedTask merges evaluator returned thrown, tracking =>
      match tracking.applyOperation isAgreedTask merges evaluator.perform with
      | (.returned, left) => returned.perform left
      | (.thrown _, left) => thrown.perform left

/-- How an application ends, by how its evaluator does. -/
def applied (isAgreedTask merges : Bool) : Exit → Exit
  | .returned => if merges then .returned else .thrown false
  | .thrown foreign =>
      if isAgreedTask && !foreign then .returned else .thrown foreign

/-- How it ends, whatever is tracked. -/
def ending : Applications → Exit
  | .ends exit => exit
  | .apply isAgreedTask merges evaluator returned thrown =>
      match applied isAgreedTask merges evaluator.ending with
      | .returned => returned.ending
      | .thrown _ => thrown.ending

/-- No operation that is applied directly throws, caught or not. -/
def NoneThrows : Applications → Prop
  | .ends _ => True
  | .apply isAgreedTask merges evaluator returned _ =>
      applied isAgreedTask merges evaluator.ending = .returned ∧ returned.NoneThrows

theorem applyOperation_eq (tracking : Tracking) {evaluator : Applications}
    (kept : ∀ sessions, evaluator.perform ⟨false, sessions⟩ =
      (evaluator.ending, ⟨false, sessions⟩)) :
    tracking.applyOperation isAgreedTask merges evaluator.perform =
      (applied isAgreedTask merges evaluator.ending, ⟨tracking.disabled && decide
            (applied isAgreedTask merges evaluator.ending = .returned),
          tracking.activeSessions⟩) := by
  simp only [Tracking.applyOperation, Tracking.startUndoSession, Bool.false_eq_true, if_false, kept]
  cases evaluator.ending with
  | returned => cases merges <;> simp [applied, Tracking.merge, Tracking.undo]
  | thrown foreign =>
    cases isAgreedTask <;> cases foreign <;> simp [applied, Tracking.undo]

theorem perform_of_enabled (applications : Applications) (sessions : Nat) :
    applications.perform ⟨false, sessions⟩ = (applications.ending, ⟨false, sessions⟩) := by
  induction applications generalizing sessions with
  | ends exit => rfl
  | apply isAgreedTask merges evaluator returned thrown evaluated afterwards caught =>
    simp only [perform, applyOperation_eq _ evaluated, ending, Bool.false_and]
    cases applied isAgreedTask merges evaluator.ending with
    | returned => exact afterwards sessions
    | thrown foreign => exact caught sessions

theorem perform_of_disabled (applications : Applications) (sessions : Nat) :
    (applications.perform ⟨true, sessions⟩).2 = ⟨true, sessions⟩ ↔ applications.NoneThrows := by
  induction applications with
  | ends exit => exact iff_of_true rfl trivial
  | apply isAgreedTask merges evaluator returned thrown evaluated afterwards caught =>
    simp only [perform, applyOperation_eq _ (perform_of_enabled evaluator), NoneThrows]
    cases applied isAgreedTask merges evaluator.ending with
    | returned => simpa using afterwards
    | thrown foreign => simp [perform_of_enabled]

/-- An operation leaves as many sessions as it has found.  It leaves the flag
exactly if the tracking was on or nothing is thrown; and a replay without
tracking stays so exactly if none of its operations throws, caught or not. -/
theorem tracking_left_iff (tracking : Tracking) (isAgreedTask merges : Bool)
    (evaluator replay : Applications) :
    (tracking.applyOperation isAgreedTask merges evaluator.perform).2.activeSessions =
      tracking.activeSessions ∧
    ((tracking.applyOperation isAgreedTask merges evaluator.perform).2.disabled =
        tracking.disabled ↔
      (tracking.disabled = true → applied isAgreedTask merges evaluator.ending = .returned)) ∧
    ((replay.perform { tracking with disabled := true }).2 =
        { tracking with disabled := true } ↔ replay.NoneThrows) := by
  rw [applyOperation_eq tracking (perform_of_enabled evaluator)]
  refine ⟨rfl, ?_, perform_of_disabled replay tracking.activeSessions⟩
  cases tracking.disabled with
  | false => simp
  | true => simp

/-- The withdrawal for gas fails, and nobody takes notice. -/
theorem tracking_turned_on : (Applications.perform
      (.apply false true (.ends (.thrown false)) (.ends .returned) (.ends .returned))
      ⟨true, 0⟩) = (.returned, ⟨false, 0⟩) := by
  decide

end Applications

namespace Tracking

open Db

variable {V K S : Type}

/-- What is tracked of an undo database. -/
def of (undoDb : UndoDatabase V) : Tracking := ⟨undoDb.disabled, undoDb.activeSessions⟩

theorem of_startUndoSession (undoDb : UndoDatabase V) :
    of (undoDb.startUndoSession false) = (of undoDb).startUndoSession := by
  cases disabled : undoDb.disabled with
  | false => simp [of, UndoDatabase.startUndoSession, startUndoSession, disabled]
  | true => simp [of, UndoDatabase.startUndoSession, startUndoSession, disabled]

theorem of_merge (merged : undoDb.merge iterator = .ok next) : of next = (of undoDb).merge := by
  simp only [UndoDatabase.merge] at merged
  split_ifs at merged with none last
  · cases merged
    simp [of, merge, last.1]
  · split at merged
    · obtain ⟨_, -, ⟨⟩⟩ := bind_eq_ok.mp merged
      rfl
    · cases merged

theorem of_undo [DecidableEq K] {config : IndexConfig V K S}
    (undone : ObjectDatabase.undo config iterator db = .ok next) :
    of next.undoDb = (of db.undoDb).undo := by
  simp only [ObjectDatabase.undo] at undone
  split_ifs at undone
  split at undone
  · cases undone
  · obtain ⟨_, -, ⟨⟩⟩ := bind_eq_ok.mp undone
    rfl

end Tracking

end CocosChain.Chain

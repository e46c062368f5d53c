import Mathlib.Data.List.Basic

/-!
# A state with a bounded stack of snapshots

Starting a session saves the current state; undoing the session goes back to
it, merging drops it, and committing leaves it behind as a point of return for
later.  The stack is bounded: opening a session first forgets the oldest
snapshots in excess of the bound, whoever they belong to.

Runs are sequences of events; scripts are well-nested trees of sessions around
elementary steps, and unfold to such sequences.  The main fact says what a
whole session does to the stack, for every body in which no session is
committed.
-/

/-- A current state with saved earlier states, newest first. -/
@[ext] structure SnapshotStack (σ : Type*) where
  current : σ
  saved : List σ
  active : Nat
  maxSize : Nat
  deriving DecidableEq, Repr

namespace SnapshotStack

variable {σ : Type*}

/-- A change made while nothing is saved opens a point of return. -/
def rooted (current : σ) : List σ → List σ
  | [] => [current]
  | top :: below => top :: below

def write (next : σ) (stack : SnapshotStack σ) : SnapshotStack σ :=
  { stack with
    current := next
    saved := rooted stack.current stack.saved }

def start (stack : SnapshotStack σ) : SnapshotStack σ :=
  { stack with
    saved := stack.current :: stack.saved.take stack.maxSize
    active := stack.active + 1 }

def undo (stack : SnapshotStack σ) : Option (SnapshotStack σ) :=
  match stack.active, stack.saved with
  | active + 1, top :: below =>
      some { stack with current := top, saved := below, active := active }
  | _, _ => none

/-- Merging needs a snapshot to merge into, except for a lone outermost
session, which is simply forgotten. -/
def merge (stack : SnapshotStack σ) : Option (SnapshotStack σ) :=
  match stack.active, stack.saved with
  | 1, [_] => some { stack with saved := [], active := 0 }
  | active + 1, _ :: parent :: below =>
      some { stack with saved := parent :: below, active := active }
  | _, _ => none

def commit (stack : SnapshotStack σ) : Option (SnapshotStack σ) :=
  match stack.active with
  | active + 1 => some { stack with active := active }
  | 0 => none

def popCommit (stack : SnapshotStack σ) : Option (SnapshotStack σ) :=
  match stack.active, stack.saved with
  | 0, top :: below => some { stack with current := top, saved := below }
  | _, _ => none

/-- Pops `count` snapshots in turn. -/
def popCommits : Nat → SnapshotStack σ → Option (SnapshotStack σ)
  | 0, stack => some stack
  | count + 1, stack =>
      match stack.popCommit with
      | none => none
      | some next => popCommits count next

/-- The number of snapshots that belong to no open session. -/
def committed (stack : SnapshotStack σ) : Nat := stack.saved.length - stack.active

/-- Every open session still owns a snapshot. -/
def Framed (stack : SnapshotStack σ) : Prop := stack.active ≤ stack.saved.length

end SnapshotStack

/-- How a session ends.  An end that has to visit a container carries the
order `ι` in which it does so. -/
inductive Ending (ι : Type*) where
  | undo (order : ι)
  | merge (order : ι)
  | commit

inductive SessionEvent (α ι : Type*) where
  | start
  | act (action : α)
  | finish (ending : Ending ι)
  | pop (order : ι)

/-- A well-nested tree of sessions over elementary steps. -/
inductive SessionScript (α ι : Type*) where
  | step (action : α)
  | session (body : List (SessionScript α ι)) (ending : Ending ι)

def Ending.IsCommit {ι : Type*} : Ending ι → Prop
  | .commit => True
  | _ => False

namespace SessionScript

variable {α ι : Type*}

mutual

def events : SessionScript α ι → List (SessionEvent α ι)
  | step action => [.act action]
  | session body ending => .start :: (eventsAll body ++ [.finish ending])

def eventsAll : List (SessionScript α ι) → List (SessionEvent α ι)
  | [] => []
  | item :: items => events item ++ eventsAll items

end

mutual

/-- No session of the tree is committed. -/
def Uncommitted : SessionScript α ι → Prop
  | step _ => True
  | session body ending => ¬ ending.IsCommit ∧ UncommittedAll body

def UncommittedAll : List (SessionScript α ι) → Prop
  | [] => True
  | item :: items => Uncommitted item ∧ UncommittedAll items

end

end SessionScript

namespace SnapshotStack

variable {α ι σ : Type*}

/-- Why a run leaves the scope of the exactness results: a snapshot was
forgotten, or there was no session to end. -/
inductive Stop where
  | trimmed
  | refused
  deriving DecidableEq, Repr

def orRefuse (next : Option (SnapshotStack σ)) : Except Stop (SnapshotStack σ) :=
  match next with
  | some stack => .ok stack
  | none => .error .refused

/-- One event; an elementary step that does not apply changes nothing. -/
def react (perform : α → σ → Option σ) (stack : SnapshotStack σ) :
    SessionEvent α ι → Except Stop (SnapshotStack σ)
  | .start =>
      if stack.maxSize < stack.saved.length then .error .trimmed
      else .ok stack.start
  | .act action =>
      match perform action stack.current with
      | some next => .ok (stack.write next)
      | none => .ok stack
  | .finish (.undo _) => orRefuse stack.undo
  | .finish (.merge _) => orRefuse stack.merge
  | .finish .commit => orRefuse stack.commit
  | .pop _ => orRefuse stack.popCommit

def run (perform : α → σ → Option σ) (events : List (SessionEvent α ι))
    (stack : SnapshotStack σ) : Except Stop (SnapshotStack σ) :=
  events.foldlM (react perform) stack

variable (perform : α → σ → Option σ)

theorem run_append (first second : List (SessionEvent α ι)) (stack : SnapshotStack σ) :
    run perform (first ++ second) stack = (run perform first stack >>= run perform second) :=
  List.foldlM_append

variable {next stack : SnapshotStack σ} {event : SessionEvent α ι}

theorem orRefuse_eq_ok {next : Option (SnapshotStack σ)} :
    orRefuse next = .ok stack ↔ next = some stack := by
  cases next <;> simp [orRefuse]

theorem start_of_room (room : stack.saved.length ≤ stack.maxSize) :
    stack.start = { stack with
      saved := stack.current :: stack.saved
      active := stack.active + 1 } := by
  simp [start, List.take_of_length_le room]

theorem framed_start (framed : stack.Framed) (room : stack.saved.length ≤ stack.maxSize) :
    stack.start.Framed := by
  simpa [start_of_room room, Framed] using framed

section

variable (framed : stack.Framed)
include framed

theorem write_framed (next : σ) : (stack.write next).Framed := by
  unfold Framed write at *
  cases saved : stack.saved with
  | nil => simp_all
  | cons top below => simpa [saved, rooted] using framed

theorem undo_framed (success : stack.undo = some next) : next.Framed := by
  unfold undo at success
  split at success <;> simp_all [Framed]
  subst success
  omega

theorem merge_framed (success : stack.merge = some next) : next.Framed := by
  unfold merge at success
  split at success <;> simp_all [Framed]
  all_goals
    subst success
    simp_all

theorem commit_framed (success : stack.commit = some next) : next.Framed := by
  unfold commit at success
  split at success <;> simp_all [Framed]
  subst success
  simp
  omega

end

theorem popCommit_framed (success : stack.popCommit = some next) : next.Framed := by
  unfold popCommit at success
  split at success <;> simp_all [Framed]
  subst success
  simp_all

theorem react_framed (framed : stack.Framed)
    (success : react perform stack event = .ok next) : next.Framed := by
  cases event with
  | start =>
    by_cases full : stack.maxSize < stack.saved.length
    · simp [react, full] at success
    · simp only [react, full, if_false, Except.ok.injEq] at success
      subst success
      exact framed_start framed (Nat.le_of_not_lt full)
  | act action =>
    simp only [react] at success
    split at success
    · cases success
      exact write_framed framed _
    · cases success
      exact framed
  | finish ending =>
    cases ending with
    | undo order => exact undo_framed framed (orRefuse_eq_ok.mp success)
    | merge order => exact merge_framed framed (orRefuse_eq_ok.mp success)
    | commit => exact commit_framed framed (orRefuse_eq_ok.mp success)
  | pop order => exact popCommit_framed (orRefuse_eq_ok.mp success)

theorem run_framed (framed : stack.Framed)
    (success : run perform events stack = .ok next) : next.Framed := by
  induction events generalizing stack with
  | nil =>
    cases success
    exact framed
  | cons event events induction =>
    rw [run, List.foldlM_cons] at success
    cases step : react perform stack event with
    | error stop =>
      rw [step] at success
      cases success
    | ok middle =>
      rw [step] at success
      exact induction (react_framed perform framed step) success

/-- Every state of the machine, saved or current, satisfies `P`. -/
def Forall (P : σ → Prop) (stack : SnapshotStack σ) : Prop :=
  P stack.current ∧ ∀ saved ∈ stack.saved, P saved

theorem write_forall (all : stack.Forall P) {next : σ} (holds : P next) :
    (stack.write next).Forall P := by
  refine ⟨holds, ?_⟩
  cases saved : stack.saved with
  | nil =>
    intro state member
    simp only [write, saved, rooted, List.mem_singleton] at member
    subst member
    exact all.1
  | cons top below =>
    intro state member
    simp only [write, saved, rooted] at member
    exact all.2 state (saved ▸ member)

theorem undo_saved (success : stack.undo = some next) :
    stack.saved = next.current :: next.saved := by
  unfold undo at success
  split at success
  · rename_i saved
    cases success
    exact saved
  · cases success

theorem popCommit_saved (success : stack.popCommit = some next) :
    stack.saved = next.current :: next.saved := by
  unfold popCommit at success
  split at success
  · rename_i saved
    cases success
    exact saved
  · cases success

theorem popCommits_succ (success : stack.popCommits (count + 1) = some next) :
    ∃ middle, stack.popCommit = some middle ∧ middle.popCommits count = some next := by
  unfold popCommits at success
  split at success
  · cases success
  · rename_i middle popped
    exact ⟨middle, popped, success⟩

theorem popCommits_le (success : stack.popCommits count = some next) :
    count ≤ stack.saved.length := by
  induction count generalizing stack with
  | zero => exact Nat.zero_le _
  | succ count induction =>
    obtain ⟨_, popped, rest⟩ := popCommits_succ success
    rw [popCommit_saved popped]
    exact Nat.succ_le_succ (induction rest)

theorem popCommit_of_idle (idle : stack.active = 0) : stack.popCommit = match stack.saved with
      | [] => none
      | top :: below =>
        some { stack with current := top, saved := below } := by
  unfold popCommit
  rw [idle]
  cases stack.saved with
  | nil => rfl
  | cons top below => rfl

theorem merge_saved (success : stack.merge = some next) : next.current = stack.current ∧
      (next.saved = [] ∨ ∃ top, stack.saved = top :: next.saved) := by
  unfold merge at success
  split at success
  · cases success
    exact ⟨rfl, .inl rfl⟩
  · rename_i saved
    cases success
    exact ⟨rfl, .inr ⟨_, saved⟩⟩
  · cases success

theorem commit_saved (success : stack.commit = some next) :
    next.current = stack.current ∧ next.saved = stack.saved := by
  unfold commit at success
  split at success <;> cases success
  exact ⟨rfl, rfl⟩

private theorem forall_of_saved (all : stack.Forall P)
    (saved : stack.saved = next.current :: next.saved) : next.Forall P := by
  have older := all.2
  rw [saved] at older
  exact ⟨older _ List.mem_cons_self,
    fun state member => older state (List.mem_cons_of_mem _ member)⟩

theorem structural_forall (all : stack.Forall P) (structural : ∀ action, event ≠ .act action)
    (success : react perform stack event = .ok next) : next.Forall P := by
  cases event with
  | act action => exact (structural action rfl).elim
  | start =>
    simp only [react] at success
    split at success <;> cases success
    refine ⟨all.1, ?_⟩
    intro state member
    rcases List.mem_cons.mp member with rfl | older
    · exact all.1
    · exact all.2 state (List.mem_of_mem_take older)
  | pop order =>
    exact forall_of_saved all (popCommit_saved (orRefuse_eq_ok.mp success))
  | finish ending =>
    cases ending with
    | undo order =>
      exact forall_of_saved all (undo_saved (orRefuse_eq_ok.mp success))
    | merge order =>
      obtain ⟨current, empty | ⟨top, saved⟩⟩ := merge_saved (orRefuse_eq_ok.mp success)
      · rw [Forall, current, empty]
        exact ⟨all.1, nofun⟩
      · rw [Forall, current]
        refine ⟨all.1, ?_⟩
        intro state member
        exact all.2 state (saved ▸ List.mem_cons_of_mem top member)
    | commit =>
      obtain ⟨current, saved⟩ := commit_saved (orRefuse_eq_ok.mp success)
      exact ⟨current ▸ all.1, fun state member => all.2 state (saved ▸ member)⟩

theorem run_pops (orders : List ι) (stack : SnapshotStack σ)
    (idle : stack.active = 0) (enough : orders.length ≤ stack.saved.length) :
    ∃ next, run perform (orders.map .pop) stack = .ok next ∧
      (stack.current :: stack.saved)[orders.length]? = some next.current := by
  induction orders generalizing stack with
  | nil => exact ⟨stack, rfl, rfl⟩
  | cons order orders induction =>
    obtain ⟨_, saved, _, maxSize⟩ := stack
    simp only at idle
    subst idle
    cases saved with
    | nil => simp at enough
    | cons top below =>
      have shorter : orders.length ≤ below.length := by
        simpa using enough
      obtain ⟨next, success, found⟩ := induction ⟨top, below, 0, maxSize⟩ rfl shorter
      exact ⟨next, success, found⟩

/-- The outcomes that leave the snapshots as they were. -/
def Keeps (stack : SnapshotStack σ) (result : Except Stop (SnapshotStack σ)) : Prop :=
  (∃ next, result = .ok next ∧ next.saved = stack.saved ∧
    next.active = stack.active ∧ next.maxSize = stack.maxSize) ∨
  result = .error .trimmed

/-- The machine after a session that was started on `stack` and whose body
ended in the state `last`. -/
def ended (ending : Ending ι) (last : σ) (stack : SnapshotStack σ) : SnapshotStack σ :=
  match ending with
  | .undo _ => stack
  | .merge _ => { stack with current := last }
  | .commit => { stack with
      current := last
      saved := stack.current :: stack.saved }

theorem finish_of_kept {inner : SnapshotStack σ} (framed : stack.Framed)
    (saved : inner.saved = stack.current :: stack.saved) (active : inner.active = stack.active + 1)
    (maxSize : inner.maxSize = stack.maxSize) (ending : Ending ι) :
    react perform inner (.finish ending) = .ok (stack.ended ending inner.current) := by
  obtain ⟨_, _, _, _⟩ := inner
  obtain ⟨_, below, outer, _⟩ := stack
  simp only at saved active maxSize
  subst saved active maxSize
  cases ending with
  | undo order => simp [react, orRefuse, undo, ended]
  | commit => simp [react, orRefuse, commit, ended]
  | merge order =>
    cases below with
    | nil =>
      have lone : outer = 0 := by simpa [Framed] using framed
      subst lone
      simp [react, orRefuse, merge, ended]
    | cons parent below =>
      cases outer <;> simp [react, orRefuse, merge, ended]

/-- What a session does to the machine it is started on, once its body is
known to keep the snapshots. -/
theorem run_session_of_body (body : List (SessionScript α ι))
    (ending : Ending ι) (stack : SnapshotStack σ) (framed : stack.Framed)
    (kept : stack.saved.length ≤ stack.maxSize → stack.start.Keeps
        (run perform (SessionScript.eventsAll body) stack.start)) :
    (∃ last, run perform (SessionScript.session body ending).events stack =
      .ok (stack.ended ending last)) ∨
    run perform (SessionScript.session body ending).events stack = .error .trimmed := by
  rw [SessionScript.events, run, List.foldlM_cons]
  by_cases room : stack.maxSize < stack.saved.length
  · right
    rw [react, if_pos room]
    rfl
  · have started := start_of_room (Nat.le_of_not_lt room)
    rw [react, if_neg room]
    change (∃ last, run perform _ stack.start = _) ∨ run perform _ stack.start = _
    rw [run_append]
    rcases kept (Nat.le_of_not_lt room) with
      ⟨inner, success, saved, active, maxSize⟩ | failure
    · rw [started] at saved active maxSize
      left
      refine ⟨inner.current, ?_⟩
      have finished := finish_of_kept perform framed saved active maxSize ending
      rw [success]
      change run perform [.finish ending] inner = _
      rw [run, List.foldlM_cons, finished]
      rfl
    · right
      rw [failure]
      rfl

mutual

/-- A script without commits, run inside a session, keeps the snapshots. -/
theorem run_keeps (script : SessionScript α ι) (quiet : script.Uncommitted)
    (stack : SnapshotStack σ) (nonempty : stack.saved ≠ []) (framed : stack.Framed) :
    stack.Keeps (run perform script.events stack) := by
  cases script with
  | step action =>
    left
    rw [SessionScript.events, run, List.foldlM_cons, react]
    cases perform action stack.current with
    | none => exact ⟨stack, rfl, rfl, rfl, rfl⟩
    | some next =>
      refine ⟨stack.write next, rfl, ?_, rfl, rfl⟩
      cases saved : stack.saved with
      | nil => exact (nonempty saved).elim
      | cons top below => simp [write, saved, rooted]
  | session body ending =>
    obtain ⟨uncommitted, quietBody⟩ := quiet
    rcases run_session_of_body perform body ending stack framed
      (fun room => runAll_keeps body quietBody stack.start
        (by simp [start]) (framed_start framed room)) with
      ⟨last, success⟩ | failure
    · left
      refine ⟨_, success, ?_⟩
      cases ending with
      | undo order => exact ⟨rfl, rfl, rfl⟩
      | merge order => exact ⟨rfl, rfl, rfl⟩
      | commit => exact (uncommitted trivial).elim
    · exact .inr failure

theorem runAll_keeps (items : List (SessionScript α ι)) (quiet : SessionScript.UncommittedAll items)
    (stack : SnapshotStack σ) (nonempty : stack.saved ≠ []) (framed : stack.Framed) :
    stack.Keeps (run perform (SessionScript.eventsAll items) stack) := by
  cases items with
  | nil => exact .inl ⟨stack, rfl, rfl, rfl, rfl⟩
  | cons item items =>
    obtain ⟨quietItem, quietItems⟩ := quiet
    rw [SessionScript.eventsAll, run_append]
    rcases run_keeps item quietItem stack nonempty framed with
      ⟨next, success, saved, active, maxSize⟩ | failure
    · have rest := runAll_keeps items quietItems next (by rw [saved]; exact nonempty)
        (by simpa [Framed, saved, active] using framed)
      rw [success]
      rcases rest with ⟨final, finished, saved', active', maxSize'⟩ | failure
      · left
        exact ⟨final, finished, saved'.trans saved, active'.trans active, maxSize'.trans maxSize⟩
      · exact .inr failure
    · right
      rw [failure]
      rfl

end

/-- One event, with the oldest snapshots forgotten when there are too many. -/
def step (perform : α → σ → Option σ) (stack : SnapshotStack σ) :
    SessionEvent α ι → Except Stop (SnapshotStack σ)
  | .start => .ok stack.start
  | .act action => react perform stack (.act action : SessionEvent α ι)
  | .finish ending => react perform stack (.finish ending)
  | .pop order => react perform stack (.pop order)

/-- Each saved state is related to the next newer one. -/
def Linked (R : σ → σ → Prop) : σ → List σ → Prop
  | _, [] => True
  | newer, older :: rest => R older newer ∧ Linked R older rest

namespace Linked

variable {saved : List σ}

theorem take (linked : Linked R newer saved) (bound : Nat) : Linked R newer (saved.take bound) := by
  induction saved generalizing newer bound with
  | nil =>
    rw [List.take_nil]
    trivial
  | cons older rest induction =>
    cases bound with
    | zero => trivial
    | succ bound => exact ⟨linked.1, induction linked.2 bound⟩

theorem advance {next : σ} (linked : Linked R newer saved)
    (extend : ∀ older ∈ saved, R older newer → R older next) : Linked R next saved := by
  cases saved with
  | nil => trivial
  | cons older rest =>
    exact ⟨extend older List.mem_cons_self linked.1, linked.2⟩

theorem rooted {current next : σ} (linked : Linked R current saved) (changed : R current next)
    (extend : ∀ older ∈ saved, R older current → R older next) :
    Linked R next (SnapshotStack.rooted current saved) := by
  cases saved with
  | nil => exact ⟨changed, trivial⟩
  | cons older rest => exact linked.advance extend

end Linked

theorem structural_linked (reflexive : ∀ state, R state state)
    (transitive : ∀ first second third, P first → R first second → R second third → R first third)
    (all : stack.Forall P) (linked : Linked R stack.current stack.saved)
    (structural : ∀ action, event ≠ .act action) (success : step perform stack event = .ok next) :
    Linked R next.current next.saved := by
  have unsaved : stack.saved = next.current :: next.saved → Linked R next.current next.saved := by
    intro saved
    rw [saved] at linked
    exact linked.2
  cases event with
  | act action => exact (structural action rfl).elim
  | start =>
    cases success
    exact ⟨reflexive stack.current, linked.take stack.maxSize⟩
  | pop order =>
    exact unsaved (popCommit_saved (orRefuse_eq_ok.mp success))
  | finish ending =>
    cases ending with
    | undo order => exact unsaved (undo_saved (orRefuse_eq_ok.mp success))
    | merge order =>
      obtain ⟨current, empty | ⟨top, saved⟩⟩ := merge_saved (orRefuse_eq_ok.mp success)
      · rw [empty]
        trivial
      · rw [saved] at linked
        rw [current]
        apply linked.2.advance
        intro older member earlier
        have satisfied := all.2 older (saved ▸ List.mem_cons_of_mem top member)
        exact transitive older top stack.current satisfied earlier linked.1
    | commit =>
      obtain ⟨current, saved⟩ := commit_saved (orRefuse_eq_ok.mp success)
      rw [current, saved]
      exact linked

end SnapshotStack

import CocosChain.Chain.ContractInvocation

/-!
# Contracts that are entered again

An invocation works on copies of the data that it writes back at its end, so a
contract that is entered while it is running has its data overwritten.  The
path of names is there to refuse this.  But it lacks the contract that the
operation calls, and a failed invocation empties it.  So no contract is entered
again if no code names the contract that the operation calls, and the codes of
the others pass failures on; and then no data are overwritten.
-/

namespace CocosChain.Chain

variable {Data ρ Value : Type}

namespace Observation

def Reentered (log : List (Observation Data)) (contract : Nat) : Prop :=
  ∃ running, .entered contract running ∈ log ∧ contract ∈ running

/-- What is overwritten has been copied, unless the contract was entered
again. -/
def Honest (log : List (Observation Data)) : Prop :=
  ∀ contract copied stored, .wrote contract copied stored ∈ log →
    copied ≠ stored → Reentered log contract

variable {log : List (Observation Data)}

theorem Reentered.mono (reentered : Reentered log contract)
    (suffix : log <:+ later) : Reentered later contract := by
  obtain ⟨running, member, twice⟩ := reentered
  exact ⟨running, suffix.subset member, twice⟩

theorem Honest.cons (honest : Honest log) (kept : ∀ contract copied stored,
      observation = .wrote contract copied stored → copied = stored ∨ Reentered log contract) :
    Honest (observation :: log) := by
  intro contract copied stored member different
  refine Reentered.mono ?_ (List.suffix_cons _ log)
  rcases List.mem_cons.mp member with same | before
  · exact (kept contract copied stored same.symm).resolve_left different
  · exact honest contract copied stored before different

theorem Honest.failed (honest : Honest log) : Honest (.failed contract :: log) :=
  honest.cons fun _ _ _ same => by cases same

/-- No contract has been entered while it was running. -/
def Once (log : List (Observation Data)) : Prop := ∀ contract, ¬ Reentered log contract

theorem Once.cons (once : Once log)
    (other : ∀ contract running, observation = .entered contract running → contract ∉ running) :
    Once (observation :: log) := by
  rintro contract ⟨running, member, twice⟩
  rcases List.mem_cons.mp member with same | before
  · exact other contract running same.symm twice
  · exact once contract ⟨running, before, twice⟩

theorem Once.entered (once : Once log) (fresh : contract ∉ running) :
    Once (.entered contract running :: log) :=
  once.cons fun _ _ same => by
    cases same
    exact fresh

theorem Once.failed (once : Once log) : Once (.failed contract :: log) :=
  once.cons fun _ _ same => by cases same

end Observation

open Observation

namespace Script

/-- Every function that the code may invoke is one of these. -/
def Names (others : Nat → String → Prop) : Script Data ρ Value → Prop
  | .finish => True
  | .fail => True
  | .host _ next => ∀ value, (next value).Names others
  | .access _ next => ∀ value, (next value).Names others
  | .invoke contract function _ next =>
      others contract function ∧ ∀ succeeded, (next succeeded).Names others

/-- The code fails, and invokes nothing before. -/
def Quits : Script Data ρ Value → Prop
  | .finish => False
  | .fail => True
  | .host _ next => ∀ value, (next value).Quits
  | .access _ next => ∀ value, (next value).Quits
  | .invoke _ _ _ _ => False

/-- The code fails if an invocation that it makes fails. -/
def PassesOn : Script Data ρ Value → Prop
  | .finish => True
  | .fail => True
  | .host _ next => ∀ value, (next value).PassesOn
  | .access _ next => ∀ value, (next value).PassesOn
  | .invoke _ _ _ next => (next false).Quits ∧ (next true).PassesOn

variable {script : Script Data ρ Value}

theorem Quits.passesOn (quits : script.Quits) : script.PassesOn := by
  induction script with
  | finish => trivial
  | fail => trivial
  | host _ _ induction => exact fun value => induction value (quits value)
  | access _ _ induction => exact fun value => induction value (quits value)
  | invoke => cases quits

theorem Quits.run (quits : script.Quits) (invoke : Frame Data → Nat → String → String →
      InvocationState Data ρ → Bool × InvocationState Data ρ)
    (frame : Frame Data) (state : InvocationState Data ρ) :
    (script.run invoke frame state).1 = false ∧
      (script.run invoke frame state).2.2.log = state.log := by
  induction script generalizing frame state with
  | finish => cases quits
  | fail => exact ⟨rfl, rfl⟩
  | host _ _ induction => exact induction _ (quits _) _ _
  | access _ _ induction => exact induction _ (quits _) _ _
  | invoke => cases quits

end Script

namespace InvocationState

/-- Between two states the data of contracts that are running stay, unless one
is entered again. -/
structure Follows (caller : AccountId) (running : List Nat)
    (before after : InvocationState Data ρ) : Prop where
  suffix : before.log <:+ after.log
  kept : ∀ contract ∈ running,
    before.store.dataOf caller contract = after.store.dataOf caller contract ∨
      Reentered after.log contract

variable {after state : InvocationState Data ρ}

theorem Follows.refl : Follows caller running state state :=
  ⟨List.suffix_refl _, fun _ _ => .inl rfl⟩

theorem Follows.trans (first : Follows caller running before middle)
    (second : Follows caller running middle after) : Follows caller running before after := by
  refine ⟨first.suffix.trans second.suffix, fun contract member => ?_⟩
  rcases first.kept contract member with same | reentered
  · rw [same]
    exact second.kept contract member
  · exact .inr (reentered.mono second.suffix)

end InvocationState

open InvocationState

/-- What an invocation keeps. -/
def Behaves (invoke : Frame Data → Nat → String → String →
    InvocationState Data ρ → Bool × InvocationState Data ρ) : Prop :=
  ∀ frame contract function valueListJson state, Honest state.log →
    let after := (invoke frame contract function valueListJson state).2
    Honest after.log ∧ Follows frame.caller frame.running state after

/-- Code keeps what the invocations that it makes keep. -/
theorem Script.run_behaves
    {invoke : Frame Data → Nat → String → String →
      InvocationState Data ρ → Bool × InvocationState Data ρ}
    (behaves : Behaves invoke) (script : Script Data ρ Value)
    (frame : Frame Data) (state : InvocationState Data ρ) (honest : Honest state.log) :
    let after := (script.run invoke frame state).2.2
    Honest after.log ∧ Follows frame.caller frame.running state after := by
  induction script generalizing frame state with
  | finish => exact ⟨honest, .refl⟩
  | fail => exact ⟨honest, .refl⟩
  | host call next induction =>
    have changed : Follows frame.caller frame.running state { state with store :=
          { state.store with others := (call state.store).2 } } :=
      ⟨List.suffix_refl _, fun _ _ => .inl rfl⟩
    obtain ⟨honestNext, follows⟩ := induction (call state.store).1 frame { state with store :=
        { state.store with others := (call state.store).2 } } honest
    exact ⟨honestNext, changed.trans follows⟩
  | access call next induction =>
    let called := call frame.publicData frame.privateData
    exact induction called.1 { frame with
      publicData := called.2.1, privateData := called.2.2 } state honest
  | invoke contract function valueListJson next induction =>
    obtain ⟨honestNow, now⟩ := behaves frame contract function valueListJson state honest
    obtain ⟨honestNext, later⟩ := induction
      (invoke frame contract function valueListJson state).1 frame _ honestNow
    exact ⟨honestNext, now.trans later⟩

section Once

variable {others : Nat → String → Prop} {invoke : Frame Data → Nat → String → String →
  InvocationState Data ρ → Bool × InvocationState Data ρ}

/-- What an invocation of another contract keeps as long as the path is
right. -/
def EntersOnce (others : Nat → String → Prop) (root : Nat)
    (invoke : Frame Data → Nat → String → String →
      InvocationState Data ρ → Bool × InvocationState Data ρ) : Prop :=
  ∀ frame contract function valueListJson state succeeded after, others contract function →
    frame.running.head? = some root → Once state.log → state.invokingPath = frame.running.tail →
    invoke frame contract function valueListJson state = (succeeded, after) →
      Once after.log ∧ (after.invokingPath = frame.running.tail ∨
        succeeded = false ∧ after.invokingPath = [])

theorem Script.run_once (entersOnce : EntersOnce others root invoke)
    {script : Script Data ρ Value} {frame : Frame Data} {state : InvocationState Data ρ}
    (names : script.Names others) (passesOn : script.PassesOn ∨ frame.running = [root])
    (first : frame.running.head? = some root) (once : Once state.log)
    (tracked : state.invokingPath = frame.running.tail)
    (ran : script.run invoke frame state = (succeeded, left, after)) :
    Once after.log ∧ (succeeded = true → after.invokingPath = frame.running.tail) := by
  induction script generalizing frame state with
  | finish =>
    cases ran
    exact ⟨once, fun _ => tracked⟩
  | fail =>
    cases ran
    exact ⟨once, fun _ => tracked⟩
  | host call next induction =>
    refine induction (call state.store).1 (names _) (passesOn.imp_left (· _)) first ?_ ?_ ran
    · exact once
    · exact tracked
  | access call next induction =>
    let called := call frame.publicData frame.privateData
    exact @induction called.1 { frame with
      publicData := called.2.1, privateData := called.2.2 } state (names _)
      (passesOn.imp_left (· _)) first once tracked ran
  | invoke contract function valueListJson next induction =>
    simp only [Script.run] at ran
    generalize called : invoke frame contract function valueListJson state = result at ran
    obtain ⟨returned, between⟩ := result
    obtain ⟨onceBetween, trackedBetween | ⟨rfl, emptied⟩⟩ := entersOnce frame contract function
      valueListJson state returned between names.1 first once tracked called
    · refine induction returned (names.2 _) (passesOn.imp_left fun passes => ?_) first onceBetween
        trackedBetween ran
      cases returned with
      | false => exact passes.1.passesOn
      | true => exact passes.2
    · -- The path is right for the first contract only; any other one gives up.
      rcases passesOn with passes | alone
      · obtain ⟨fails, log⟩ := passes.1.run invoke frame between
        rw [ran] at fails log
        exact ⟨log ▸ onceBetween, fun ended => absurd (fails.symm.trans ended) (by decide)⟩
      · refine induction false (names.2 _) (.inr alone) first onceBetween ?_ ran
        rw [emptied, alone]
        rfl

end Once

namespace ContractRuntime

variable {runtime : ContractRuntime Data ρ Value}

/-- Entering a contract keeps what its code keeps.  It writes its own data
only, so those of another that is running are safe. -/
theorem doApplyFunction_behaves (behaves : Behaves invoke) (honest : Honest state.log) :
    let after := (runtime.doApplyFunction invoke caller contract function
      valueList invoker running state).2
    Honest after.log ∧ Follows caller running state after := by
  unfold doApplyFunction
  split
  · exact ⟨honest, .refl⟩
  rename_i data _
  dsimp only
  have entered : Follows caller running state (state.observe (.entered contract running)) :=
    ⟨List.suffix_cons _ _, fun _ _ => .inl rfl⟩
  obtain ⟨honestRun, follows⟩ := Script.run_behaves behaves
    (runtime.code contract function valueList caller invoker)
    (runtime.startFrame caller contract running data state.store)
    (state.observe (.entered contract running)) (honest.cons nofun)
  have inner : Follows caller running (state.observe (.entered contract running)) _ :=
    ⟨follows.suffix, fun other member =>
      follows.kept other (List.mem_append_left _ member)⟩
  split
  · rename_i ran
    rw [ran] at honestRun inner
    exact ⟨honestRun, entered.trans inner⟩
  · rename_i left ending ran
    rw [ran] at honestRun inner follows
    split
    · refine ⟨honestRun.cons ?_,
        entered.trans (inner.trans ⟨List.suffix_cons _ _, fun other member => ?_⟩)⟩
      · rintro _ _ _ ⟨⟩
        exact follows.kept contract (List.mem_append_right _ List.mem_cons_self)
      · by_cases same : other = contract
        · subst same
          refine .inr ⟨running, List.mem_cons_of_mem _ ?_, member⟩
          exact follows.suffix.subset List.mem_cons_self
        · simp [ContractStore.dataOf, ContractStore.writeData, InvocationState.observe,
            Function.update_of_ne same]
    · exact ⟨honestRun, entered.trans inner⟩

theorem unlisted_of_admits (admitted : runtime.admits frame contract valueListJson state = some
      valueList) : contract ∉ state.invokingPath := by
  simp only [admits, guard, Option.bind_eq_bind, Option.bind_eq_some_iff] at admitted
  obtain ⟨_, checked, _⟩ := admitted
  by_contra listed
  rw [if_neg (not_not.mpr listed)] at checked
  cases checked

theorem invokeContractFunction_behaves (depth : Nat) :
    Behaves (runtime.invokeContractFunction depth) := by
  induction depth with
  | zero =>
    intro frame contract function valueListJson state honest
    exact ⟨honest, .refl⟩
  | succ depth induction =>
    intro frame contract function valueListJson state honest
    have cleared : ∀ {middle : InvocationState Data ρ},
        Follows frame.caller frame.running state middle →
          Follows frame.caller frame.running state (middle.clearPath contract) :=
      fun follows => ⟨follows.suffix.trans (List.suffix_cons _ _),
        fun other member => (follows.kept other member).imp_right (·.mono (List.suffix_cons _ _))⟩
    rw [invokeContractFunction]
    split
    · exact ⟨honest, .refl⟩
    · split
      · exact ⟨honest.failed, cleared .refl⟩
      · rename_i valueList admitted
        generalize ran : runtime.doApplyFunction
          (runtime.invokeContractFunction depth) frame.caller contract
          function valueList frame.contract frame.running (state.pushPath contract) = outcome
        have pushed : Honest (state.pushPath contract).log := honest
        have behaved : Honest outcome.2.log ∧
            Follows frame.caller frame.running (state.pushPath contract) outcome.2 :=
          ran ▸ doApplyFunction_behaves induction pushed
        obtain ⟨honestRun, suffix, kept⟩ := behaved
        have follows : Follows frame.caller frame.running state outcome.2 := ⟨suffix, kept⟩
        obtain ⟨succeeded, after⟩ := outcome
        cases succeeded with
        | false => exact ⟨honestRun.failed, cleared follows⟩
        | true => exact ⟨honestRun, follows.suffix, follows.kept⟩

/-- Whatever an operation calls, no data are overwritten unless their contract
is entered while it is running. -/
theorem callContractFunction_honest (runtime : ContractRuntime Data ρ Value)
    (depth : Nat) (caller : AccountId) (contract : Nat) (function : String)
    (valueList : List Value) (store : ContractStore Data ρ) :
    Honest (runtime.callContractFunction depth caller contract function
      valueList ⟨store, [], []⟩).2.log := by
  have empty : Honest ([] : List (Observation Data)) := fun _ _ _ member => by cases member
  unfold callContractFunction
  split
  · generalize ran : runtime.doApplyFunction (runtime.invokeContractFunction depth) caller
      contract function valueList 0 [] ⟨store, [], []⟩ = outcome
    have behaved : Honest outcome.2.log ∧ Follows caller [] ⟨store, [], []⟩ outcome.2 :=
      ran ▸ doApplyFunction_behaves (invokeContractFunction_behaves depth) empty
    obtain ⟨succeeded, _⟩ := outcome
    cases succeeded with
    | false => exact behaved.1
    | true => exact behaved.1
  · exact empty

section

variable {others : Nat → String → Prop}

theorem doApplyFunction_once (entersOnce : EntersOnce others root invoke)
    (names : (runtime.code contract function valueList caller invoker).Names others)
    (passesOn : (runtime.code contract function valueList caller invoker).PassesOn ∨
      running ++ [contract] = [root])
    (first : (running ++ [contract]).head? = some root) (fresh : contract ∉ running)
    (once : Once state.log) (tracked : state.invokingPath = (running ++ [contract]).tail)
    (done : runtime.doApplyFunction invoke caller contract function valueList invoker running
      state = (succeeded, after)) :
    Once after.log ∧ (succeeded = true → after.invokingPath = (running ++ [contract]).tail) := by
  unfold doApplyFunction at done
  split at done
  · cases done
    exact ⟨once, nofun⟩
  · rename_i data _
    dsimp only at done
    generalize ran : (runtime.code contract function valueList caller invoker).run invoke
      (runtime.startFrame caller contract running data state.store)
      (state.observe (.entered contract running)) = outcome at done
    obtain ⟨returned, left, reached⟩ := outcome
    have logged : Once (state.observe (.entered contract running)).log := once.entered fresh
    have run : Once reached.log ∧ (returned = true → reached.invokingPath =
        (runtime.startFrame caller contract running data state.store).running.tail) :=
      Script.run_once entersOnce names passesOn first logged tracked ran
    cases returned with
    | false =>
      cases done
      exact ⟨run.1, nofun⟩
    | true =>
      dsimp only at done
      split at done
      · cases done
        exact ⟨run.1.cons nofun, run.2⟩
      · cases done
        exact ⟨run.1, nofun⟩

variable (apart : ∀ function, ¬ others root function)
  (closed : ∀ contract function, others contract function → ∀ valueList caller invoker,
    (runtime.code contract function valueList caller invoker).Names others ∧
      (runtime.code contract function valueList caller invoker).PassesOn)
include apart closed

theorem invokeContractFunction_once (depth : Nat) :
    EntersOnce others root (runtime.invokeContractFunction depth) := by
  induction depth with
  | zero =>
    rintro frame contract function valueListJson state _ _ _ _ once tracked ⟨⟩
    exact ⟨once, .inl tracked⟩
  | succ depth induction =>
    intro frame contract function valueListJson state succeeded after other first once tracked done
    rw [invokeContractFunction] at done
    split at done
    · cases done
      exact ⟨once, .inl tracked⟩
    · split at done
      · cases done
        exact ⟨once.failed, .inr ⟨rfl, rfl⟩⟩
      · rename_i admitted
        obtain ⟨later, run⟩ : ∃ later, frame.running = root :: later :=
          ⟨frame.running.tail, (List.cons_head?_tail first).symm⟩
        have unlisted := unlisted_of_admits admitted
        have fresh : contract ∉ frame.running := by
          rw [run, List.mem_cons, not_or]
          rw [tracked, run] at unlisted
          exact ⟨fun same => apart function (same ▸ other), unlisted⟩
        have pushed : (state.pushPath contract).invokingPath =
            (frame.running ++ [contract]).tail := by
          rw [InvocationState.pushPath, tracked, run]
          rfl
        generalize ran : runtime.doApplyFunction (runtime.invokeContractFunction depth)
          frame.caller contract function _ frame.contract frame.running
          (state.pushPath contract) = outcome at done
        have logged : Once (state.pushPath contract).log := once
        obtain ⟨returned, _⟩ := outcome
        have code := closed contract function other
        obtain ⟨onceAfter, path⟩ := doApplyFunction_once induction (code ..).1
          (.inl (code ..).2) (by rw [run]; rfl) fresh logged pushed ran
        cases returned with
        | true =>
          cases done
          refine ⟨onceAfter, .inl ?_⟩
          rw [InvocationState.popPath, path rfl, run]
          exact List.dropLast_concat
        | false =>
          cases done
          exact ⟨onceAfter.failed, .inr ⟨rfl, rfl⟩⟩

end

def count (number : Nat) (next : Script Nat Unit Nat) : Script Nat Unit Nat :=
  .access (fun publicData privateData =>
    (publicData, publicData + number, privateData)) fun _ => next

/-- Contract 1 counts on its own, or after it has had contract 2 or contract 3
do something.  These invoke contracts 1 and 4, the latter of which invokes
contract 3 again; contract 5 always fails. -/
def countingCode : Nat → String → List Nat → AccountId → Nat → Script Nat Unit Nat
  | 1, "relay", _, _, _ => .invoke 2 "relay" "" fun _ => count 10 .finish
  | 1, "count", _, _, _ => .invoke 2 "count" "" fun _ => count 10 .finish
  | 1, "retry", _, _, _ => .invoke 3 "retry" "" fun _ => .finish
  | 2, "relay", _, _, _ => .invoke 1 "bump" "" fun _ => .finish
  | 3, "retry", _, _, _ => .invoke 5 "" "" fun _ =>
      .invoke 4 "back" "" fun _ => .fail
  | 4, _, _, _, _ => .invoke 3 "bump" "" fun _ => .finish
  | 5, _, _, _, _ => .fail
  | _, _, _, _, _ => count 1 .finish

def countingRuntime : ContractRuntime Nat Unit Nat where
  code := countingCode
  fromJson _ := some []
  authorizes _ _ := true
  emptyData := 0
  privateDataFits _ := true
  totalDataFits _ := true

def zeroStore : ContractStore Nat Unit := ⟨fun _ => some 0, fun _ _ => some 0, ()⟩

end ContractRuntime

end CocosChain.Chain

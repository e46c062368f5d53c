import CocosChain.Chain.Balances

/-!
# Invoking contracts from contracts

The code of a contract runs on copies of its public data and of the private
data of the caller, which are written back when it has finished.  On the way it
may call the host, and invoke functions of other contracts.  A failure is a Lua
error, which the code may catch.

The names of the contracts being invoked are kept in a static variable, to
refuse circular references.  It is shortened when an invocation succeeds, but
emptied when one fails.  Neither the variable nor the objects are restored for
code that catches the error.
-/

namespace CocosChain.Chain

/-- The objects that the code of contracts works on.  Contracts are identified
by their names, which are unique. -/
structure ContractStore (Data ρ : Type) where
  /-- `contract_data` of the contracts that exist. -/
  publicData : Nat → Option Data
  /-- `account_contract_data`, by the account and the contract. -/
  privateData : AccountId → Nat → Option Data
  others : ρ

/-- What code does, call by call.  After a call that fails it goes on as the
code that has caught the error does, or fails as well. -/
inductive Script (Data ρ Value : Type) where
  | finish
  | fail
  /-- A call of the host, which may fail after it has changed something. -/
  | host (call : ContractStore Data ρ → Option Value × ρ)
      (next : Option Value → Script Data ρ Value)
  /-- Reading and writing the copies of the public and private data. -/
  | access (call : Data → Data → Value × Data × Data)
      (next : Value → Script Data ρ Value)
  | invoke (contract : Nat) (function valueListJson : String)
      (next : Bool → Script Data ρ Value)

structure ContractRuntime (Data ρ Value : Type) where
  /-- The code of a contract's function, given its arguments, the caller and
  the contract that invokes it. -/
  code : Nat → String → List Value → AccountId → Nat → Script Data ρ Value
  fromJson : String → Option (List Value)
  /-- `evaluate_contract_authority` -/
  authorizes : Nat → ContractStore Data ρ → Bool
  emptyData : Data
  privateDataFits : Data → Bool
  totalDataFits : Data → Bool

/-- What is observed of a run.  A contract is entered while others are running,
and what it writes replaces what is stored then. -/
inductive Observation (Data : Type) where
  | entered (contract : Nat) (running : List Nat)
  | failed (contract : Nat)
  | wrote (contract : Nat) (copied stored : Option Data × Option Data)
  deriving DecidableEq, Repr

/-- The objects and the static variable, with the observations so far, the last
one first. -/
structure InvocationState (Data ρ : Type) where
  store : ContractStore Data ρ
  invokingPath : List Nat
  log : List (Observation Data)

/-- An invocation that is running, with its copies of the data.  The contracts
that are running end with its own. -/
structure Frame (Data : Type) where
  contract : Nat
  caller : AccountId
  running : List Nat
  publicData : Data
  privateData : Data

variable {Data ρ Value : Type}

namespace Frame

/-- The contracts being invoked: all that are running but the first, which the
operation has called. -/
def invoked (frame : Frame Data) : List Nat := frame.running.tail

end Frame

namespace ContractStore

/-- The data that a contract's code works on for a caller. -/
def dataOf (store : ContractStore Data ρ) (caller : AccountId)
    (contract : Nat) : Option Data × Option Data :=
  (store.publicData contract, store.privateData caller contract)

def writeData (caller : AccountId) (contract : Nat)
    (publicData privateData : Data) (store : ContractStore Data ρ) : ContractStore Data ρ :=
  { store with
    publicData := Function.update store.publicData contract (some publicData)
    privateData := Function.update store.privateData caller
      (Function.update (store.privateData caller) contract
        (some privateData)) }

end ContractStore

namespace InvocationState

variable (state : InvocationState Data ρ)

def observe (observation : Observation Data) : InvocationState Data ρ :=
  { state with log := observation :: state.log }

def pushPath (contract : Nat) : InvocationState Data ρ :=
  { state with invokingPath := state.invokingPath ++ [contract] }

/-- Popping from the empty path, which is undefined, leaves it empty here. -/
def popPath : InvocationState Data ρ :=
  { state with invokingPath := state.invokingPath.dropLast }

/-- What a failed invocation leaves. -/
def clearPath (contract : Nat) : InvocationState Data ρ :=
  { state with
    invokingPath := []
    log := .failed contract :: state.log }

end InvocationState

/-- Runs code, given what an invocation from it does. -/
def Script.run (invoke : Frame Data → Nat → String → String →
      InvocationState Data ρ → Bool × InvocationState Data ρ) :
    Script Data ρ Value → Frame Data → InvocationState Data ρ →
      Bool × Frame Data × InvocationState Data ρ
  | .finish, frame, state => (true, frame, state)
  | .fail, frame, state => (false, frame, state)
  | .host call next, frame, state =>
      let (value, others) := call state.store
      (next value).run invoke frame
        { state with store := { state.store with others := others } }
  | .access call next, frame, state =>
      let (value, publicData, privateData) := call frame.publicData frame.privateData
      (next value).run invoke { frame with
        publicData := publicData, privateData := privateData } state
  | .invoke contract function valueListJson next, frame, state =>
      let (succeeded, state) := invoke frame contract function valueListJson state
      (next succeeded).run invoke frame state

section

variable (invoke : Frame Data → Nat → String → String →
  InvocationState Data ρ → Bool × InvocationState Data ρ)

/-- The code makes so many calls, of the host or of contracts, that change an
object. -/
def Script.Alters : Script Data ρ Value → Nat → Frame Data → InvocationState Data ρ → Prop
  | .finish, count, _, _ => count = 0
  | .fail, count, _, _ => count = 0
  | .host call next, count, frame, state =>
      let (value, others) := call state.store
      let after := { state with store := { state.store with others := others } }
      (after.store = state.store ∧ (next value).Alters count frame after) ∨
        after.store ≠ state.store ∧ 0 < count ∧ (next value).Alters (count - 1) frame after
  | .access call next, count, frame, state =>
      let (value, publicData, privateData) := call frame.publicData frame.privateData
      (next value).Alters count { frame with
        publicData := publicData, privateData := privateData } state
  | .invoke contract function valueListJson next, count, frame, state =>
      let (succeeded, after) := invoke frame contract function valueListJson state
      (after.store = state.store ∧ (next succeeded).Alters count frame after) ∨
        after.store ≠ state.store ∧ 0 < count ∧ (next succeeded).Alters (count - 1) frame after

variable {invoke}

theorem Script.store_of_call {script : Script Data ρ Value} {state : InvocationState Data ρ}
    (most : count ≤ 1)
    (later : ∀ count, script.Alters invoke count frame after → count ≤ 1 →
      ((script.run invoke frame after).2.2.store = after.store ↔ count = 0))
    (called : (after.store = state.store ∧ script.Alters invoke count frame after) ∨
      after.store ≠ state.store ∧ 0 < count ∧ script.Alters invoke (count - 1) frame after) :
    (script.run invoke frame after).2.2.store = state.store ↔ count = 0 := by
  rcases called with ⟨same, alters⟩ | ⟨different, positive, alters⟩
  · rw [← same]
    exact later count alters most
  · rw [(later _ alters (by omega)).mpr (by omega)]
    exact iff_of_false different (by omega)

/-- One change shows, and none does not; several may cancel out. -/
theorem Script.Alters.store {script : Script Data ρ Value}
    (alters : script.Alters invoke count frame state) (most : count ≤ 1) :
    (script.run invoke frame state).2.2.store = state.store ↔ count = 0 := by
  induction script generalizing count frame state with
  | finish => exact iff_of_true rfl alters
  | fail => exact iff_of_true rfl alters
  | host call next induction =>
    change ((next (call state.store).1).run invoke frame { state with
      store := { state.store with others := (call state.store).2 } }).2.2.store = _ ↔ _
    exact Script.store_of_call most (fun _ later => induction _ later) alters
  | access call next induction => exact induction _ alters most
  | invoke contract function valueListJson next induction =>
    let called := invoke frame contract function valueListJson state
    change ((next called.1).run invoke frame called.2).2.2.store = _ ↔ _
    exact Script.store_of_call most (fun _ later => induction _ later) alters

end

namespace ContractRuntime

variable (runtime : ContractRuntime Data ρ Value)

/-- An invocation starts with copies of the data. -/
def startFrame (caller : AccountId) (contract : Nat) (running : List Nat)
    (publicData : Data) (store : ContractStore Data ρ) : Frame Data where
  contract := contract
  caller := caller
  running := running ++ [contract]
  publicData := publicData
  privateData := (store.privateData caller contract).getD runtime.emptyData

/-- `do_apply_function`.  Without data of the caller's at its start it creates
them at its end, which fails if there are some by then. -/
def doApplyFunction (invoke : Frame Data → Nat → String → String →
      InvocationState Data ρ → Bool × InvocationState Data ρ)
    (caller : AccountId) (contract : Nat) (function : String)
    (valueList : List Value) (invoker : Nat) (running : List Nat)
    (state : InvocationState Data ρ) : Bool × InvocationState Data ρ :=
  match state.store.publicData contract with
  | none => (false, state)
  | some publicData =>
      let copied := state.store.dataOf caller contract
      match (runtime.code contract function valueList caller invoker).run
          invoke (runtime.startFrame caller contract running publicData
            state.store) (state.observe (.entered contract running)) with
      | (false, _, state) => (false, state)
      | (true, frame, state) =>
          let stored := state.store.dataOf caller contract
          if runtime.privateDataFits frame.privateData &&
              runtime.totalDataFits frame.publicData &&
              (copied.2.isSome || stored.2.isNone) then
            let written : InvocationState Data ρ := { state with
              store := state.store.writeData caller contract
                frame.publicData frame.privateData }
            (true, written.observe (.wrote contract copied stored))
          else (false, state)

/-- The checks before the invoked code starts; they come to its arguments.
What is on the path or calls itself is refused. -/
def admits (frame : Frame Data) (contract : Nat) (valueListJson : String)
    (state : InvocationState Data ρ) : Option (List Value) := do
  guard (contract ∉ state.invokingPath)
  guard (contract ≠ frame.contract)
  let valueList ← runtime.fromJson valueListJson
  guard (runtime.authorizes contract state.store)
  pure valueList

/-- `invoke_contract_function`, with the depth of C calls that is left.  It
returns whether it succeeds; otherwise the caller gets a Lua error.  Any error
after the contract has been found empties the path. -/
def invokeContractFunction : Nat → Frame Data → Nat → String → String →
    InvocationState Data ρ → Bool × InvocationState Data ρ
  | 0, _, _, _, _, state => (false, state)
  | depth + 1, frame, contract, function, valueListJson, state =>
      if state.store.publicData contract = none then (false, state)
      else
        match runtime.admits frame contract valueListJson state with
        | none => (false, state.clearPath contract)
        | some valueList =>
            match runtime.doApplyFunction (invokeContractFunction depth)
                frame.caller contract function valueList frame.contract
                frame.running (state.pushPath contract) with
            | (true, state) => (true, state.popPath)
            | (false, state) => (false, state.clearPath contract)

/-- The operation, whose session is undone if it fails. -/
def callContractFunction (depth : Nat) (caller : AccountId) (contract : Nat)
    (function : String) (valueList : List Value)
    (state : InvocationState Data ρ) : Bool × InvocationState Data ρ :=
  if runtime.authorizes contract state.store then
    match runtime.doApplyFunction (runtime.invokeContractFunction depth)
        caller contract function valueList 0 [] state with
    | (true, state) => (true, state)
    | (false, failed) => (false, { failed with store := state.store })
  else (false, state)

variable {runtime}

theorem failed_path (known : state.store.publicData contract ≠ none)
    (failed : runtime.invokeContractFunction (depth + 1) frame contract
      function valueListJson state = (false, after)) : after.invokingPath = [] := by
  rw [invokeContractFunction, if_neg known] at failed
  split at failed
  · cases failed
    rfl
  · split at failed
    · cases failed
    · cases failed
      rfl

/-- What a failed invocation leaves, the code has left; nothing is undone. -/
theorem failed_store (present : state.store.publicData contract = some data)
    (admitted : runtime.admits frame contract valueListJson state = some valueList)
    (failed : runtime.invokeContractFunction (depth + 1) frame contract
      function valueListJson state = (false, after)) :
    after.store = ((runtime.code contract function valueList frame.caller frame.contract).run
      (runtime.invokeContractFunction depth)
      (runtime.startFrame frame.caller contract frame.running data state.store)
      ((state.pushPath contract).observe (.entered contract frame.running))).2.2.store := by
  have known : state.store.publicData contract ≠ none := by simp [present]
  have still : (state.pushPath contract).store.publicData contract = some data := present
  rw [invokeContractFunction, if_neg known, admitted] at failed
  dsimp only at failed
  rw [doApplyFunction, still] at failed
  dsimp only at failed
  split at failed
  · cases failed
  · rename_i ran
    cases failed
    split at ran
    · rename_i left
      cases ran
      exact congrArg (fun result => result.2.2.store) left.symm
    · rename_i left
      split at ran
      · cases ran
      · cases ran
        exact congrArg (fun result => result.2.2.store) left.symm

end ContractRuntime

def transferByContract (rules : TransferRules) (sender receiver : AccountId)
    (token : Asset) (balances : Balances) : Option Balances := do
  guard (token.assetId ≠ assetGas)
  guard (sender ≠ receiver)
  guard (rules.accountExists sender && rules.accountExists receiver)
  guard (token.amount ≤ balances.getBalance sender token.assetId)
  let byIssuer := sender = rules.issuer token.assetId ∨ receiver = rules.issuer token.assetId
  guard (byIssuer ∨ (rules.isAuthorizedAsset sender token.assetId ∧
    rules.isAuthorizedAsset receiver token.assetId))
  guard (byIssuer ∨ ¬ (rules.isTransferRestricted token.assetId ∧
    ¬ rules.isWhiteList token.assetId))
  guard (0 ≤ token.amount)
  let balances ← balances.adjustBalance sender ⟨-token.amount, token.assetId⟩
  balances.adjustBalance receiver token

namespace ContractRuntime

/-- Everybody may hold the asset. -/
def openRules : TransferRules where
  accountExists _ := true
  issuer _ := 0
  isAuthorizedAsset _ _ := true
  isTransferRestricted _ := false
  isWhiteList _ := false

/-- Contract 2 pays thirty tokens and fails; contracts 1 and 3 have it do so and
catch the error, contract 3 on behalf of contract 1.  Contract 4 just fails. -/
def payingCode : Nat → String → List Nat → AccountId → Nat → Script Nat Balances Nat
  | 1, "pay", _, _, _ => .invoke 2 "pay" "" fun _ => .finish
  | 1, _, _, _, _ => .invoke 3 "relay" "" fun _ => .finish
  | 2, _, _, caller, _ =>
      .host (fun store =>
        match transferByContract openRules caller 8 ⟨30, 0⟩ store.others with
        | none => (none, store.others)
        | some balances => (some 0, balances))
        fun _ => .fail
  | 4, _, _, _, _ => .fail
  | _, _, _, _, _ => .invoke 2 "pay" "" fun _ => .finish

def payingRuntime : ContractRuntime Nat Balances Nat where
  code := payingCode
  fromJson _ := some []
  authorizes _ _ := true
  emptyData := 0
  privateDataFits _ := true
  totalDataFits _ := true

/-- Account 7 has a hundred tokens. -/
def beforePaying : InvocationState Nat Balances where
  store :=
    { publicData := fun _ => some 0
      privateData := fun _ _ => none
      others := ⟨[((7, 0), 100)], fun _ _ => 0⟩ }
  invokingPath := []
  log := []

/-- Contract 3 while it is invoked by contract 1. -/
def relaying : Frame Nat := ⟨3, 7, [1, 3], 0, 0⟩

end ContractRuntime

end CocosChain.Chain

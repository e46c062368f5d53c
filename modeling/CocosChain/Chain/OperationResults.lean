import CocosChain.Chain.TransactionApplication

/-!
# Results and operations

The results of a transaction should stand at the positions of its operations:
whoever applies it later looks there for what the producer has recorded.  An
`auto_gas` withdrawal stores a result as well, which belongs to no operation of
the transaction and moves those after it by one.  The results line up exactly
if there is no such withdrawal.
-/

namespace CocosChain.Chain

variable {Key Hash Id ρ : Type}

namespace OperationLoop

variable (evaluate : Evaluator Key ρ) (context : EvaluationContext Key)

/-- The withdrawal that `auto_gas` makes after an operation, if it makes one. -/
def withdrawal (op : Operation Key) (result : OperationResult)
    (loop : OperationLoop Key ρ) : Option OperationResult :=
  if autoGasTimepoint < context.headBlockTime then
    match autoGasFrom op result with
    | none => none
    | some fromAccount =>
        if loop.lastFrom = fromAccount then none
        else (autoGas evaluate { context with currentOp := loop.currentOp }
          fromAccount loop.world).1
  else none

/-- The results of the operations themselves, each evaluated in the state that
the run has reached. -/
def evaluations : List (Operation Key) → OperationLoop Key ρ → List OperationResult
  | [], _ => []
  | op :: operations, loop =>
      match applyOperation evaluate { context with currentOp := loop.currentOp } op
          context.isAgreedTask loop.world with
      | .error _ => []
      | .ok (result, world) =>
          result :: evaluations operations
            ((loop.store result world).gasUp evaluate context op result)

/-- No operation is followed by a withdrawal. -/
def NoWithdrawal : List (Operation Key) → OperationLoop Key ρ → Prop
  | [], _ => True
  | op :: operations, loop =>
      match applyOperation evaluate { context with currentOp := loop.currentOp } op
          context.isAgreedTask loop.world with
      | .error _ => True
      | .ok (result, world) =>
          (loop.store result world).withdrawal evaluate context op result = none ∧
            NoWithdrawal operations ((loop.store result world).gasUp evaluate context op result)

/-- What the operations of a run find recorded at their positions, up to the
one at which the run stops. -/
def recorded : List (Operation Key) → OperationLoop Key ρ → List (Option OperationResult)
  | [], _ => []
  | op :: operations, loop =>
      context.trx.operationResults[loop.currentOp]? :: match loop.step evaluate context op with
        | .error _ => []
        | .ok next => recorded operations next

variable {evaluate context}

theorem gasUp_operationResults (op : Operation Key)
    (result : OperationResult) (loop : OperationLoop Key ρ) :
    (loop.gasUp evaluate context op result).operationResults = loop.operationResults ++
        (loop.withdrawal evaluate context op result).toList := by
  unfold gasUp withdrawal
  split
  · cases autoGasFrom op result with
    | none => simp
    | some fromAccount =>
      dsimp only
      split
      · simp
      · rfl
  · simp

@[simp] theorem gasUp_currentOp (op : Operation Key)
    (result : OperationResult) (loop : OperationLoop Key ρ) :
    (loop.gasUp evaluate context op result).currentOp = loop.currentOp := by
  unfold gasUp
  split
  · cases autoGasFrom op result with
    | none => rfl
    | some fromAccount =>
      dsimp only
      split
      · rfl
      · rfl
  · rfl

@[simp] theorem store_operationResults (result : OperationResult)
    (world : World Key ρ) (loop : OperationLoop Key ρ) :
    (loop.store result world).operationResults = loop.operationResults ++ [result] := rfl

variable {loop : OperationLoop Key ρ}

theorem step_eq_ok : loop.step evaluate context op = .ok next ↔ ∃ result world,
        applyOperation evaluate { context with currentOp := loop.currentOp } op
          context.isAgreedTask loop.world = .ok (result, world) ∧
        loop.inTime result world = true ∧
        loop.asRecorded context result = true ∧
        (loop.store result world).gasUp evaluate context op result = next := by
  unfold step
  cases applied : applyOperation evaluate
      { context with currentOp := loop.currentOp } op context.isAgreedTask loop.world with
  | error fault => simp
  | ok evaluated =>
    obtain ⟨_, _⟩ := evaluated
    simp only [bind_eq_ok, ensure_eq_ok, pure_eq_ok, Unique.exists_iff,
      Except.ok.injEq, Prod.mk.injEq, and_assoc, exists_and_left, exists_eq_left']

theorem step_currentOp (stepped : loop.step evaluate context op = .ok next) :
    next.currentOp = loop.currentOp + 1 := by
  obtain ⟨result, world, _, _, _, rfl⟩ := step_eq_ok.mp stepped
  exact gasUp_currentOp op result (loop.store result world)

theorem run_operationResults (finished : loop.run evaluate context operations = .ok final) :
    (evaluations evaluate context operations loop).length = operations.length ∧
      loop.operationResults.length + operations.length ≤ final.operationResults.length ∧
      (NoWithdrawal evaluate context operations loop →
        final.operationResults = loop.operationResults ++
          evaluations evaluate context operations loop) ∧
      (final.operationResults.length = loop.operationResults.length + operations.length →
        NoWithdrawal evaluate context operations loop) := by
  induction operations generalizing loop with
  | nil =>
    cases finished
    simp [evaluations, NoWithdrawal]
  | cons op operations induction =>
    simp only [run, bind_eq_ok] at finished
    obtain ⟨_, stepped, finished⟩ := finished
    obtain ⟨result, world, applied, _, _, rfl⟩ := step_eq_ok.mp stepped
    obtain ⟨evaluated, longer, quiet, counted⟩ := induction finished
    simp only [evaluations, NoWithdrawal, applied, List.length_cons]
    simp only [gasUp_operationResults, store_operationResults,
      List.length_append, List.length_singleton] at longer quiet counted
    refine ⟨by rw [evaluated], by omega, ?_, ?_⟩
    · rintro ⟨silent, rest⟩
      simp [quiet rest, silent]
    · intro length
      have silent : ((loop.store result world).withdrawal evaluate context op
          result).toList.length = 0 := by omega
      exact ⟨by simpa using silent, counted (by omega)⟩

/-- Whatever the withdrawals are, operations look at their own positions. -/
theorem recorded_isPrefix (operations : List (Operation Key)) (loop : OperationLoop Key ρ) :
    recorded evaluate context operations loop <+: (List.range' loop.currentOp operations.length).map
        (context.trx.operationResults[·]?) := by
  induction operations generalizing loop with
  | nil => simp [recorded]
  | cons op operations induction =>
    simp only [recorded, List.length_cons, List.range'_succ, List.map_cons]
    apply List.prefix_cons_inj _ |>.mpr
    cases stepped : loop.step evaluate context op with
    | error fault => exact List.nil_prefix
    | ok next =>
      have looked := induction next
      rw [step_currentOp stepped] at looked
      exact looked

end OperationLoop

/-- The results of a transaction stand at the positions of its operations, and
are found there by every later run over them. -/
structure Aligned (operations : List (Operation Key))
    (evaluated results : List OperationResult) : Prop where
  length_eq : results.length = operations.length
  result_eq : ∀ position < operations.length,
    results[position]? = evaluated[position]?
  recorded_eq : ∀ (ρ : Type) (evaluate : Evaluator Key ρ)
    (later : EvaluationContext Key) (world : World Key ρ),
    later.trx.operationResults = results → OperationLoop.recorded evaluate later operations
        (.start later.runMode world) <+: evaluated.map some

theorem aligned_iff (complete : evaluated.length = operations.length) :
    Aligned operations evaluated results ↔ results = evaluated := by
  constructor
  · rintro ⟨_, result_eq, _⟩
    apply List.ext_getElem?
    intro position
    by_cases inside : position < operations.length
    · exact result_eq position inside
    · rw [List.getElem?_eq_none (by omega), List.getElem?_eq_none (by omega)]
  · rintro rfl
    refine ⟨complete, fun _ _ => rfl, ?_⟩
    rintro ρ evaluate later world rfl
    have looked : OperationLoop.recorded evaluate later operations
        (.start later.runMode world) <+: (List.range' 0 operations.length).map
            (later.trx.operationResults[·]?) :=
      OperationLoop.recorded_isPrefix operations _
    have found : (List.range' 0 operations.length).map (later.trx.operationResults[·]?) =
          later.trx.operationResults.map some := by
      apply List.ext_getElem?
      intro position
      by_cases inside : position < operations.length
      · simp [inside, complete]
      · simp [inside, complete]
    rwa [found] at looked

namespace Environment

variable [LinearOrder Key] [DecidableEq Hash] [DecidableEq Id]

/-- The results line up exactly if the operations are evaluated, and none of
them is followed by a withdrawal. -/
theorem applyTransaction_aligned_iff (env : Environment Key Hash Id ρ)
    (nodeSkip : SkipFlags) (mode : TransactionApplyMode)
    (onlyTryPermissions : Bool) (position : BlockPosition)
    (trx : ProcessedTransaction Key)
    (state admitted : ChainState Key Hash Id ρ)
    (authorization : Authorization Key ρ)
    (applied : AppliedTransaction Key Hash Id ρ)
    (admits : env.admission (effectiveSkip nodeSkip trx.toTransaction) mode
      position trx.toSignedTransaction state = .ok (authorization, admitted))
    (accepted : env.applyTransaction nodeSkip mode onlyTryPermissions position
      trx state = .ok applied) :
    let context := evaluationContext nodeSkip (effectiveSkip nodeSkip trx.toTransaction) mode trx
      authorization.sigkeys state
    let first := OperationLoop.start mode admitted.world
    Aligned trx.operations (first.evaluations env.evaluate context trx.operations)
        applied.trx.operationResults ↔
      (onlyTryPermissions = true → trx.operations = []) ∧
        first.NoWithdrawal env.evaluate context trx.operations := by
  intro context first
  simp only [applyTransaction, admits, bind_eq_ok, Except.ok.injEq, exists_eq_left'] at accepted
  cases onlyTryPermissions with
  | true =>
    cases accepted
    constructor
    · intro aligned
      have empty : trx.operations = [] := List.eq_nil_of_length_eq_zero aligned.length_eq.symm
      refine ⟨fun _ => empty, ?_⟩
      rw [empty]
      trivial
    · rintro ⟨empty, _⟩
      rw [empty rfl]
      exact (aligned_iff rfl).mpr rfl
  | false =>
    obtain ⟨loop, finished, rfl⟩ := evaluateOperations_eq_ok.mp accepted
    have ran : first.run env.evaluate context trx.operations = .ok loop := finished
    obtain ⟨complete, _, quiet, counted⟩ := OperationLoop.run_operationResults ran
    refine (aligned_iff complete).trans ?_
    constructor
    · intro same
      refine ⟨by simp, counted ?_⟩
      rw [← complete]
      simpa [first, OperationLoop.start] using congrArg List.length same
    · rintro ⟨_, silent⟩
      exact quiet silent

/-- Transfers and withdrawals have no result of their own, calls have one. -/
def resulting : Environment Nat Nat Nat Unit where
  digest trx := trx.expiration
  transactionId hash := hash
  packSize _ := 1
  opMaxsizeProportionPercent := none
  operationValidate _ := true
  getSignatureKeys trx := some (trx.signatures.map List.length)
  reread cells _ := cells
  evaluate _ op world :=
    match op with
    | .callContractFunction _ _ _ =>
        .ok (⟨.contract ⟨[], false, [], 0⟩, 1⟩, world)
    | _ => .ok (⟨.void, 0⟩, world)

/-- The account 7 has GAS to withdraw. -/
def vestingState : ChainState Nat Nat Nat Unit where
  headBlockNum := 1
  headBlockId := default
  headBlockTime := autoGasTimepoint + 3
  blockSummaries _ := 0
  transactions := []
  transactionInfos := []
  world :=
    { World.numbered () with
      vestingBalances := fun account =>
        if account = 7 then [⟨0, 7, fun _ => ⟨200000, assetGas⟩⟩] else [] }

/-- A transfer and a call of one account. -/
def transferAndCall (account : AccountId) : ProcessedTransaction Nat where
  refBlockNum := 0
  refBlockPrefix := 0
  expiration := autoGasTimepoint + 9
  operations := [.transfer account [], .callContractFunction account 0 []]
  extensions := []
  agreedTask := none
  signatures := [List.replicate account 0]
  operationResults := []

theorem applyTransaction_aligned_without_vesting :
    ∃ applied, resulting.applyTransaction SkipFlags.skipNothing
        .productionBlock false ⟨2, 0⟩ (transferAndCall 8) vestingState = .ok applied ∧
      Aligned (transferAndCall 8).operations [⟨.void, 0⟩, ⟨.contract ⟨[], false, [], 0⟩, 1⟩]
        applied.trx.operationResults := by
  refine ⟨_, rfl, ?_⟩
  refine (applyTransaction_aligned_iff resulting SkipFlags.skipNothing
    .productionBlock false ⟨2, 0⟩ (transferAndCall 8) vestingState _ _ _ rfl
    rfl).mpr ⟨nofun, rfl, rfl, trivial⟩

/-- The call finds the result of the withdrawal at its position. -/
theorem applyTransaction_withdrawal_moves_results :
    ∃ applied, resulting.applyTransaction SkipFlags.skipNothing
        .productionBlock false ⟨2, 0⟩ (transferAndCall 7) vestingState = .ok applied ∧
      applied.trx.operationResults = [⟨.void, 0⟩, ⟨.void, 0⟩, ⟨.contract ⟨[], false, [], 0⟩, 1⟩] ∧
      ¬ Aligned (transferAndCall 7).operations [⟨.void, 0⟩, ⟨.contract ⟨[], false, [], 0⟩, 1⟩]
        applied.trx.operationResults := by
  refine ⟨_, rfl, rfl, ?_⟩
  intro aligned
  cases aligned.length_eq

end Environment

end CocosChain.Chain

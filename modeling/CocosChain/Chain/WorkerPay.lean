import CocosChain.Chain.BudgetConservation

/-!
# The pass over the workers

A maintenance completes the workers that have ended and pays the active ones.
The pass runs over the index of the workers that are not completed, and
completing a worker takes it out of that range.
-/

namespace CocosChain.Chain.Treasury

variable (treasury : Treasury)

def hasEnded (worker : Worker) : Bool :=
  decide (worker.workEndDate ≤ treasury.market.headBlockTime)

def running : List Worker := treasury.workers.filter fun worker => !treasury.hasEnded worker

/-- What the active workers get by the time of the head block. -/
def payRunning (budget : Int) : Outcome (Int × Market) :=
  Market.payActive (treasury.market.headBlockTime - treasury.lastBudgetTime)
    (treasury.running.filter fun worker =>
      worker.isActive treasury.market.headBlockTime) budget treasury.market

/-- Every worker that has ended is completed, and no other; every other one is
paid if it is active. -/
def payWorkersAsMeant (budget : Int) : Outcome (Int × Treasury) := do
  let (budget, market) ← treasury.payRunning budget
  pure (budget, { treasury with
    market
    workers := treasury.running
    completed := treasury.completed ++
      treasury.workers.filter treasury.hasEnded })

/-- One worker has ended.  No worker was completed before, or it is the last
one of the index. -/
def OneEnded (before : List Worker) (worker : Worker) (rest : List Worker) : Prop :=
  treasury.workers = before ++ worker :: rest ∧
    treasury.workers.filter treasury.hasEnded = [worker] ∧
    (rest = [] ∨ treasury.completed = [])

/-- No active worker comes after the one that has ended, and those before it
ask for as much until its end as until now. -/
def AsksAlike (before : List Worker) (worker : Worker) (rest : List Worker) : Prop :=
  (∀ other ∈ rest, other.isActive treasury.market.headBlockTime = false) ∧
    ∀ other ∈ before, other.isActive treasury.market.headBlockTime = true →
      other.requestedPay (worker.workEndDate - treasury.lastBudgetTime) =
        other.requestedPay (treasury.market.headBlockTime - treasury.lastBudgetTime)

variable {treasury}

theorem payActive_congr {paid : List Worker}
    (same : ∀ worker ∈ paid, worker.requestedPay elapsed = worker.requestedPay now) :
    Market.payActive elapsed paid = Market.payActive now paid := by
  induction paid with
  | nil => rfl
  | cons worker rest induction =>
    have later := induction fun worker member => same worker (List.mem_cons_of_mem _ member)
    funext budget before
    simp only [Market.payActive, same worker List.mem_cons_self, later]

theorem scanWorkers_append (run : ∀ worker ∈ before, now < worker.workEndDate) :
    scanWorkers someCompleted now (before ++ rest) =
      (scanWorkers someCompleted now rest >>= fun scan =>
        pure { scan with
          active := before.filter (·.isActive now) ++ scan.active
          waiting := before ++ scan.waiting }) := by
  induction before with
  | nil =>
    rw [List.nil_append]
    cases scanWorkers someCompleted now rest with
    | error fault => rfl
    | ok scan => rfl
  | cons worker before induction =>
    have first : ¬worker.workEndDate ≤ now := Nat.not_le.mpr (run worker (List.mem_cons_self ..))
    rw [List.cons_append, scanWorkers, if_neg first, induction fun other member =>
        run other (List.mem_cons_of_mem _ member)]
    cases scanWorkers someCompleted now rest with
    | error fault => rfl
    | ok scan =>
      rw [List.filter_cons]
      cases worker.isActive now with
      | false => rfl
      | true => rfl

theorem not_hasEnded : treasury.hasEnded worker = false ↔
      treasury.market.headBlockTime < worker.workEndDate := by
  simp [hasEnded]

theorem scanWorkers_ended (run : ∀ worker ∈ before, treasury.hasEnded worker = false)
    (ended : treasury.hasEnded worker = true) (range : rest = [] ∨ treasury.completed = []) :
    scanWorkers (!treasury.completed.isEmpty) treasury.market.headBlockTime
      (before ++ worker :: rest) = .ok ⟨before.filter (·.isActive treasury.market.headBlockTime),
          before ++ rest, [worker], worker.workEndDate⟩ := by
  have stops : (rest.isEmpty || !!treasury.completed.isEmpty) = true := by
    obtain rfl | none := range
    · rfl
    · simp [none]
  rw [scanWorkers_append fun other member => not_hasEnded.mp
    (run other member), scanWorkers, if_pos (of_decide_eq_true ended), if_pos stops]
  simp [pure, Except.pure, bind, Except.bind]

theorem scanWorkers_running
    (run : ∀ worker ∈ treasury.workers, treasury.hasEnded worker = false) :
    scanWorkers (!treasury.completed.isEmpty) treasury.market.headBlockTime treasury.workers =
      .ok ⟨treasury.workers.filter (·.isActive treasury.market.headBlockTime), treasury.workers, [],
        treasury.market.headBlockTime⟩ := by
  have scanned : scanWorkers (!treasury.completed.isEmpty)
      treasury.market.headBlockTime (treasury.workers ++ []) = _ :=
    scanWorkers_append fun worker member => not_hasEnded.mp (run worker member)
  rw [List.append_nil] at scanned
  refine scanned.trans ?_
  show Except.ok (WorkerScan.mk (_ ++ []) (_ ++ []) [] _) = _
  rw [List.append_nil, List.append_nil]

theorem payWorkers_of_running
    (run : ∀ worker ∈ treasury.workers, treasury.hasEnded worker = false) :
    treasury.payWorkers budget = treasury.payWorkersAsMeant budget := by
  have all : treasury.running = treasury.workers :=
    List.filter_eq_self.mpr fun worker member => by simp [run worker member]
  have none : treasury.workers.filter treasury.hasEnded = [] :=
    List.filter_eq_nil_iff.mpr fun worker member => by simp [run worker member]
  unfold payWorkers payWorkersAsMeant payRunning
  rw [scanWorkers_running run, all, none]
  rfl

namespace OneEnded

variable (one : treasury.OneEnded before worker rest)
include one

theorem ended : treasury.hasEnded worker = true :=
  (List.mem_filter.mp (one.2.1 ▸ List.mem_singleton_self worker)).2

theorem others_run : (∀ other ∈ before, treasury.hasEnded other = false) ∧
    ∀ other ∈ rest, treasury.hasEnded other = false := by
  have count := congrArg List.length one.2.1
  rw [one.1, List.filter_append, List.filter_cons_of_pos one.ended] at count
  simp only [List.length_append, List.length_cons, List.length_nil] at count
  have kept : ∀ workers : List Worker, (workers.filter treasury.hasEnded).length = 0 →
      ∀ worker ∈ workers, treasury.hasEnded worker = false := by
    intro workers none worker member
    simpa using List.filter_eq_nil_iff.mp (List.eq_nil_of_length_eq_zero none) worker member
  exact ⟨kept before (by omega), kept rest (by omega)⟩

theorem running_eq : treasury.running = before ++ rest := by
  unfold running
  rw [one.1, List.filter_append, List.filter_cons_of_neg (by simp [one.ended])]
  congr 1
  · exact List.filter_eq_self.mpr fun worker member => by simp [one.others_run.1 worker member]
  · exact List.filter_eq_self.mpr fun worker member => by simp [one.others_run.2 worker member]

theorem payWorkers_eq (alike : treasury.AsksAlike before worker rest) :
    treasury.payWorkers budget = treasury.payWorkersAsMeant budget := by
  have scanned := scanWorkers_ended one.others_run.1 one.ended one.2.2
  rw [← one.1] at scanned
  have active : treasury.running.filter (·.isActive treasury.market.headBlockTime) =
      before.filter (·.isActive treasury.market.headBlockTime) := by
    have none : rest.filter (·.isActive treasury.market.headBlockTime) = [] :=
      List.filter_eq_nil_iff.mpr fun other member => by simp [alike.1 other member]
    rw [one.running_eq, List.filter_append, none, List.append_nil]
  unfold payWorkers payWorkersAsMeant payRunning
  rw [scanned, one.2.1, active, one.running_eq, ← payActive_congr fun other member =>
    alike.2 other (List.mem_filter.mp member).1 (List.mem_filter.mp member).2]
  rfl

end OneEnded

/-- The pass marks, leaves and pays what it is meant to if no worker has
ended, or if one has, in the right place, and its end does not show in what
the active ones ask for.  It marks and leaves the right ones in no other
case. -/
theorem pay_workers_as_meant (treasury : Treasury) (budget : Int) :
    ((∀ worker ∈ treasury.workers, treasury.hasEnded worker = false) ∨
        (∃ before worker rest, treasury.OneEnded before worker rest ∧
          treasury.AsksAlike before worker rest) →
      treasury.payWorkers budget = treasury.payWorkersAsMeant budget) ∧
    (∀ left paid, treasury.payWorkers budget = .ok (left, paid) →
      paid.workers = treasury.running →
      paid.completed = treasury.completed ++ treasury.workers.filter treasury.hasEnded →
      (∀ worker ∈ treasury.workers, treasury.hasEnded worker = false) ∨
        ∃ before worker rest, treasury.OneEnded before worker rest) := by
  constructor
  · rintro (run | ⟨_, _, _, one, alike⟩)
    · exact payWorkers_of_running run
    · exact one.payWorkers_eq alike
  · intro left paid done waiting finished
    cases first : treasury.workers.find? treasury.hasEnded with
    | none =>
      left
      intro worker member
      simpa using List.find?_eq_none.mp first worker member
    | some worker =>
      right
      obtain ⟨ended, before, rest, listed, run⟩ := List.find?_eq_some_iff_append.mp first
      have early : ∀ worker ∈ before, treasury.hasEnded worker = false :=
        fun worker member => by simpa using run worker member
      have range : rest = [] ∨ treasury.completed = [] := by
        by_contra neither
        rw [not_or] at neither
        rw [payWorkers, listed, scanWorkers_append fun other member => not_hasEnded.mp
          (early other member), scanWorkers,
          if_pos (of_decide_eq_true ended), if_neg (by simp [neither])] at done
        cases done
      have found := scanWorkers_ended early ended range
      rw [← listed] at found
      simp only [payWorkers, found, bind_eq_ok, pure_eq_ok, Except.ok.injEq, Prod.exists,
        exists_eq_left', Prod.mk.injEq] at done
      obtain ⟨_, _, -, -, rfl⟩ := done
      exact ⟨before, worker, rest, listed, (List.append_cancel_left finished).symm, range⟩

/-- A worker that ends now does not keep the one before it from its pay. -/
theorem pay_workers_as_meant_on_time : ∃ treasury paid : Treasury,
    treasury.workers = [⟨0, 1000000, 200, .vestingBalance 11⟩, ⟨0, 86401, 100, .burn⟩] ∧
    treasury.market.headBlockTime = 86401 ∧
    treasury.payWorkers 500 = .ok (300, paid) ∧
    paid.completed = [⟨0, 86401, 100, .burn⟩] := by
  refine ⟨{ workingTreasury with
    workers := [⟨0, 1000000, 200, .vestingBalance 11⟩, ⟨0, 86401, 100, .burn⟩] }, _, rfl, rfl,
    ((pay_workers_as_meant _ 500).1 (.inr ⟨[⟨0, 1000000, 200, .vestingBalance 11⟩], _, [],
      ⟨rfl, rfl, .inl rfl⟩, ?_, ?_⟩)).trans rfl, rfl⟩
  · exact fun other member => absurd member (List.not_mem_nil)
  · exact fun other member _ => rfl

/-- Of two workers that have ended only the first is completed; and a worker
that comes after it in the index is not paid. -/
theorem worker_not_paid : ∃ treasury paid meant : Treasury,
    treasury.workers = [⟨0, 50, 100, .burn⟩, ⟨0, 60, 100, .burn⟩,
      ⟨0, 1000000, 200, .vestingBalance 11⟩] ∧
    treasury.market.headBlockTime = 86401 ∧
    treasury.payWorkers 500 = .ok (500, paid) ∧
    paid.completed = [⟨0, 50, 100, .burn⟩] ∧
    treasury.payWorkersAsMeant 500 = .ok (300, meant) ∧
    meant.completed = [⟨0, 50, 100, .burn⟩, ⟨0, 60, 100, .burn⟩] :=
  ⟨{ workingTreasury with
      workers := [⟨0, 50, 100, .burn⟩, ⟨0, 60, 100, .burn⟩,
        ⟨0, 1000000, 200, .vestingBalance 11⟩] }, _, _, rfl, rfl, rfl, rfl,
    rfl, rfl⟩

end CocosChain.Chain.Treasury

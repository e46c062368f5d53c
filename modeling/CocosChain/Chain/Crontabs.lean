import CocosChain.Chain.TransactionTraversal

/-!
# Timed tasks

A crontab executes a transaction a number of times, an interval apart.  When it
is executed nothing compares how often that has been with how often it was to
be: a task that is done has expired at the time it would be due again, and what
has expired is removed at the end of a block.

Times are 32-bit numbers, and an interval may be so long that the next time
wraps around.  It then lies in the past, and the task is due again within the
same block, whether or not it is done.
-/

namespace CocosChain.Chain

open Environment

structure CrontabCreate (Key : Type) where
  crontabCreator : AccountId
  crontabOps : List (Operation Key)
  startTime : UInt32
  executeInterval : UInt64
  scheduledExecuteTimes : UInt64

structure CrontabCancel where
  feePayingAccount : AccountId
  task : Nat

structure CrontabRecover where
  crontabOwner : AccountId
  crontab : Nat
  restartTime : UInt32

inductive CrontabOperation (Key : Type) where
  | create (op : CrontabCreate Key)
  | cancel (op : CrontabCancel)
  | recover (op : CrontabRecover)

/-- The owners of the timed tasks that there are, with the number of the next
one and the second word of the identifier of the head block. -/
structure CrontabRoll (ρ : Type) where
  taskOwner : Nat → AccountId
  nextCrontab : Nat
  headBlockPrefix : UInt32
  rest : ρ

structure CrontabSystem (Key ρ : Type) where
  unpack : Packed → Option (CrontabOperation Key)
  /-- The extension that tells timed transactions apart. -/
  idText : Nat → Packed
  /-- The accounts that the operations concern exist. -/
  impactedKnown : List (Operation Key) → World Key (CrontabRoll ρ) → Bool

variable {Key Hash Id ρ : Type}

namespace World

variable (world : World Key (CrontabRoll ρ))

def removeCrontab (id : Nat) : World Key (CrontabRoll ρ) :=
  { world with crontabs := Function.update world.crontabs id none }

def createCrontab (owner : AccountId) (crontab : Crontab Key) : World Key (CrontabRoll ρ) :=
  { world with
    crontabs := Function.update world.crontabs world.others.nextCrontab (some crontab)
    others := { world.others with
      taskOwner := Function.update world.others.taskOwner world.others.nextCrontab owner
      nextCrontab := world.others.nextCrontab + 1 } }

/-- Tasks are removed in the order of their expirations. -/
def clearExpiredTimedTask (headBlockTime : Nat) : World Key (CrontabRoll ρ) :=
  { world with
    crontabs := fun id => (world.crontabs id).filter fun task =>
      headBlockTime < task.expirationTime }

end World

namespace Crontab

/-- `is_authorized_to_execute`: the owner has approved everything. -/
def isAuthorizedToExecute [LinearOrder Key] (accounts : AccountGraph Key)
    (parameters : ChainParameters) (owner : AccountId) (crontab : Crontab Key) : Bool :=
  let getActive := fun account => some (accounts.active account)
  let checker : Checker Key :=
    { checkAccount := SignState.checkAccount getActive
      checkAuthority := SignState.checkAuthority getActive }
  (verifyAuthority checker accounts.getOwner
    (Transaction.getRequiredAuthorities crontab.timedTransaction.operations)
    [] parameters.maxAuthorityDepth true [owner] [owner]).isOk

/-- Starts a task anew, which need not be suspended. -/
def recovered (parameters : ChainParameters) (restartTime : Nat)
    (crontab : Crontab Key) : Crontab Key :=
  { crontab with
    isSuspended := false
    continuousFailureTimes := 0
    nextExecteTime := restartTime
    expirationTime := secondsAfter restartTime (crontab.executeInterval * crontab.remaining)
    timedTransaction := { crontab.timedTransaction with
      expiration := secondsAfter restartTime
        (min parameters.assignedTaskLifeCycle 7200) } }

end Crontab

def CrontabCreate.crontab (trx : Transaction Key)
    (parameters : ChainParameters) (op : CrontabCreate Key) : Crontab Key where
  timedTransaction := { trx with
    expiration := secondsAfter op.startTime.toNat
      (min parameters.assignedTaskLifeCycle 7200) }
  lastExecteTime := 0
  nextExecteTime := op.startTime.toNat
  executeInterval := op.executeInterval.toNat
  expirationTime := secondsAfter op.startTime.toNat
    (op.executeInterval.toNat * op.scheduledExecuteTimes.toNat)
  scheduledExecuteTimes := op.scheduledExecuteTimes.toNat
  alreadyExecuteTimes := 0
  continuousFailureTimes := 0
  isSuspended := false
  allowExecution := true

namespace CrontabSystem

variable [LinearOrder Key] (system : CrontabSystem Key ρ)

def create (validate : Transaction Key → Bool)
    (context : EvaluationContext Key) (op : CrontabCreate Key) (world : World Key (CrontabRoll ρ)) :
    Except EvaluationFault (OperationResult × World Key (CrontabRoll ρ)) := do
  let id := world.others.nextCrontab
  let trx : Transaction Key :=
    { refBlockNum := .ofNat context.headBlockNum
      refBlockPrefix := world.others.headBlockPrefix
      expiration := 0
      operations := op.crontabOps
      extensions := system.idText id }
  let crontab := op.crontab trx world.parameters
  ensure (context.headBlockTime < op.startTime.toNat)
    (assertionFault "o.start_time > d.head_block_time()")
  ensure (secondsAfter op.startTime.toNat
      (op.scheduledExecuteTimes.toNat * op.executeInterval.toNat) ≤
        secondsAfter context.headBlockTime 2592000)
    (assertionFault "The crontab execution period can't exceed 3 months")
  ensure (system.impactedKnown op.crontabOps world) (assertionFault "can't find account")
  ensure (validate trx) (assertionFault "invalid transaction")
  ensure (crontab.isAuthorizedToExecute world.accounts world.parameters op.crontabCreator)
    (.exception 0 "Crontab has no authorize to execute." 0)
  pure ({ content := .objectId id, realRunningTime := 0 },
    world.createCrontab op.crontabCreator crontab)

def cancel (op : CrontabCancel) (world : World Key (CrontabRoll ρ)) :
    Except EvaluationFault (OperationResult × World Key (CrontabRoll ρ)) := do
  let _ ← found (world.crontabs op.task) (assertionFault "Unable to find Object")
  ensure (op.feePayingAccount = world.others.taskOwner op.task)
    (assertionFault "You are not the crontab's owner.")
  pure ({ content := .void, realRunningTime := 0 }, world.removeCrontab op.task)

def recover (context : EvaluationContext Key) (op : CrontabRecover)
    (world : World Key (CrontabRoll ρ)) :
    Except EvaluationFault (OperationResult × World Key (CrontabRoll ρ)) := do
  let crontab ← found (world.crontabs op.crontab) (assertionFault "Unable to find Object")
  ensure (context.headBlockTime < op.restartTime.toNat)
    (assertionFault "o.restart_time > d.head_block_time()")
  ensure (op.crontabOwner = world.others.taskOwner op.crontab)
    (assertionFault "You are not the crontab's owner.")
  pure ({ content := .void, realRunningTime := 0 }, world.setCrontab op.crontab
      (crontab.recovered world.parameters op.restartTime.toNat))

/-- The operation on timed tasks that an operation is. -/
def read : Operation Key → Option (CrontabOperation Key)
  | .other _ packed => system.unpack packed
  | _ => none

/-- Operations that are not about timed tasks are left to `others`. -/
def evaluate (validate : Transaction Key → Bool) (others : Evaluator Key (CrontabRoll ρ)) :
    Evaluator Key (CrontabRoll ρ) :=
  fun context op world =>
    match system.read op with
    | some (.create op) => system.create validate context op world
    | some (.cancel op) => cancel op world
    | some (.recover op) => recover context op world
    | none => others context op world

/-- The upkeep of a block, with the timed tasks. -/
def upkeep (summaryPrefix : BlockId Hash → UInt32)
    (others : ProcessedBlock Key Hash → World Key (CrontabRoll ρ) →
      Option (World Key (CrontabRoll ρ)))
    (block : ProcessedBlock Key Hash) (world : World Key (CrontabRoll ρ)) :
    Option (World Key (CrontabRoll ρ)) :=
  (others block world).map fun world =>
    World.clearExpiredTimedTask
      { world with others := { world.others with
          headBlockPrefix := summaryPrefix block.blockId } } block.timestamp

/-- The chain in which timed tasks are handled, and all else is as in
`base`. -/
def chain (base : BlockEnvironment Key Hash Id (CrontabRoll ρ)) :
    BlockEnvironment Key Hash Id (CrontabRoll ρ) :=
  { base with
    evaluate := system.evaluate base.validate base.evaluate
    upkeep := upkeep base.summaryPrefix base.upkeep }

end CrontabSystem

/-- The timed tasks and the number of the next one are the same. -/
structure SameCrontabs (before after : World Key (CrontabRoll ρ)) : Prop where
  crontabs : after.crontabs = before.crontabs
  next : after.others.nextCrontab = before.others.nextCrontab

/-- What an operation does to the timed tasks at a time. -/
inductive CrontabChange (now : Nat) (before after : World Key (CrontabRoll ρ)) :
    Prop where
  | kept (same : SameCrontabs before after)
  | created (op : CrontabCreate Key) (trx : Transaction Key)
      (parameters : ChainParameters) (later : now < op.startTime.toNat)
      (crontabs : after.crontabs = Function.update before.crontabs
        before.others.nextCrontab (some (op.crontab trx parameters)))
      (next : after.others.nextCrontab = before.others.nextCrontab + 1)
  | cancelled (id : Nat)
      (crontabs : after.crontabs = Function.update before.crontabs id none)
      (next : after.others.nextCrontab = before.others.nextCrontab)
  | recovered (id : Nat) (old : Crontab Key) (restartTime : UInt32)
      (parameters : ChainParameters) (known : before.crontabs id = some old)
      (later : now < restartTime.toNat)
      (crontabs : after.crontabs = Function.update before.crontabs id
        (some (old.recovered parameters restartTime.toNat)))
      (next : after.others.nextCrontab = before.others.nextCrontab)

namespace CrontabSystem

/-- What is not about timed tasks leaves them as they are. -/
structure LeavesCrontabs
    (base : BlockEnvironment Key Hash Id (CrontabRoll ρ)) : Prop where
  evaluate : ∀ {context op world result after},
    base.evaluate context op world = .ok (result, after) → SameCrontabs world after
  upkeep : ∀ {block world after}, base.upkeep block world = some after → SameCrontabs world after

variable [LinearOrder Key] {system : CrontabSystem Key ρ}

theorem evaluate_changes (leaves : LeavesCrontabs base)
    (accepted : (system.chain base).evaluate context op world = .ok (result, after)) :
    CrontabChange context.headBlockTime world after := by
  change system.evaluate base.validate base.evaluate context op world = _ at accepted
  unfold CrontabSystem.evaluate at accepted
  split at accepted
  · simp only [create, bind_eq_ok, ensure_eq_ok, decide_eq_true_eq, pure_eq_ok,
      Prod.mk.injEq] at accepted
    obtain ⟨_, later, _, -, _, -, _, -, _, -, -, rfl⟩ := accepted
    exact .created _ _ _ later rfl rfl
  · simp only [cancel, bind_eq_ok, pure_eq_ok, Prod.mk.injEq] at accepted
    obtain ⟨_, -, _, -, -, rfl⟩ := accepted
    exact .cancelled _ rfl rfl
  · simp only [recover, bind_eq_ok, found_eq_ok, ensure_eq_ok,
      decide_eq_true_eq, pure_eq_ok, Prod.mk.injEq] at accepted
    obtain ⟨old, known, _, later, _, -, -, rfl⟩ := accepted
    exact .recovered _ old _ _ known later rfl rfl
  · exact .kept (leaves.evaluate accepted)

end CrontabSystem

/-- All timed tasks have the property. -/
def World.EveryCrontab (property : Crontab Key → Prop) (world : World Key ρ) : Prop :=
  ∀ id task, world.crontabs id = some task → property task

namespace World.EveryCrontab

theorem set {world : World Key ρ} (every : world.EveryCrontab property) {id : Nat}
    (holds : property task) : (world.setCrontab id task).EveryCrontab property := by
  intro other found known
  by_cases same : other = id
  · simp only [World.setCrontab, same, Function.update_self, Option.some.injEq] at known
    exact known ▸ holds
  · simp only [World.setCrontab, Function.update_of_ne same] at known
    exact every other found known

theorem changes (created : ∀ (op : CrontabCreate Key) trx parameters,
      now < op.startTime.toNat → property (op.crontab trx parameters))
    (recovered : ∀ old (restartTime : UInt32) parameters, property old →
      now < restartTime.toNat → property (old.recovered parameters restartTime.toNat))
    (every : world.EveryCrontab property) (change : CrontabChange now world after) :
    after.EveryCrontab property := by
  intro id task known
  cases change with
  | kept same =>
    rw [same.crontabs] at known
    exact every id task known
  | created op trx parameters later crontabs next =>
    rw [crontabs] at known
    exact every.set (created op trx parameters later) id task known
  | cancelled other crontabs next =>
    rw [crontabs] at known
    by_cases same : id = other
    · rw [same, Function.update_self] at known
      cases known
    · rw [Function.update_of_ne same] at known
      exact every id task known
  | recovered other old restartTime parameters found later crontabs next =>
    rw [crontabs] at known
    exact every.set (recovered old restartTime parameters
      (every other old found) later) id task known

end World.EveryCrontab

namespace Crontab

/-- Unless it is suspended, a task expires when it would have been executed as
often as was to be. -/
structure Regular (crontab : Crontab Key) : Prop where
  range : crontab.nextExecteTime < 2 ^ 32
  expires : crontab.isSuspended = false →
    crontab.expirationTime = secondsAfter crontab.nextExecteTime
      (crontab.remaining * crontab.executeInterval)

variable {crontab : Crontab Key} {op : CrontabCreate Key}

theorem remaining_executed (now : Nat) (parameters : ChainParameters) : crontab.remaining % 2 ^ 32 =
      ((crontab.executed now parameters).remaining + 1) % 2 ^ 32 := by
  simp only [remaining, executed]
  omega

theorem secondsAfter_secondsAfter :
    secondsAfter (secondsAfter time first) second = secondsAfter time (first + second) := by
  simp only [secondsAfter]
  omega

/-- In 32-bit arithmetic, only the number of times modulo `2 ^ 32` matters. -/
theorem secondsAfter_mul_mod : secondsAfter time (times % 2 ^ 32 * interval) =
      secondsAfter time (times * interval) := by
  simp only [secondsAfter]
  rw [Nat.add_mod, Nat.mod_mul_mod, ← Nat.add_mod]

theorem regular_executed : (crontab.executed now parameters).Regular := by
  refine ⟨Nat.mod_lt _ (by decide), fun _ => ?_⟩
  have counted : secondsAfter now (crontab.remaining * crontab.executeInterval) =
        secondsAfter now (((crontab.executed now parameters).remaining + 1) *
          crontab.executeInterval) := by
    rw [← secondsAfter_mul_mod, remaining_executed now parameters, secondsAfter_mul_mod]
  show secondsAfter now (crontab.remaining * crontab.executeInterval) =
    secondsAfter (secondsAfter now crontab.executeInterval)
      ((crontab.executed now parameters).remaining * crontab.executeInterval)
  rw [counted, secondsAfter_secondsAfter, Nat.add_mul, Nat.one_mul, Nat.add_comm]

theorem regular_recovered {restartTime : UInt32} :
    (crontab.recovered parameters restartTime.toNat).Regular := by
  refine ⟨restartTime.toNat_lt, fun _ => ?_⟩
  show secondsAfter _ (crontab.executeInterval * crontab.remaining) =
    secondsAfter _ (crontab.remaining * crontab.executeInterval)
  rw [Nat.mul_comm]
  rfl

theorem regular_created : (op.crontab trx parameters).Regular := by
  refine ⟨op.startTime.toNat_lt, fun _ => ?_⟩
  have all : (op.crontab trx parameters).remaining = op.scheduledExecuteTimes.toNat := by
    have small := op.scheduledExecuteTimes.toNat_lt
    simp only [remaining, CrontabCreate.crontab]
    omega
  rw [all]
  show secondsAfter _ (_ * _) = secondsAfter _ (_ * _)
  rw [Nat.mul_comm]
  rfl

/-- What keeps a task from being executed too often: it is not done while it is
due or suspended. -/
structure Sound (now : Nat) (crontab : Crontab Key) : Prop where
  scheduled : crontab.scheduledExecuteTimes < 2 ^ 64
  within : crontab.alreadyExecuteTimes ≤ crontab.scheduledExecuteTimes
  awake : crontab.isSuspended = false → crontab.nextExecteTime ≤ now →
    crontab.alreadyExecuteTimes < crontab.scheduledExecuteTimes
  asleep : crontab.isSuspended = true → crontab.nextExecteTime = maximumTime ∧
      crontab.alreadyExecuteTimes < crontab.scheduledExecuteTimes

theorem sound_created (later : now < op.startTime.toNat) :
    (op.crontab trx parameters).Sound now := by
  refine ⟨op.scheduledExecuteTimes.toNat_lt, Nat.zero_le _, fun _ due => ?_, fun asleep => ?_⟩
  · exact absurd due (Nat.not_le_of_lt later)
  · cases asleep

variable (sound : crontab.Sound now)
include sound

theorem Sound.recovered (later : now < restartTime) :
    (crontab.recovered parameters restartTime).Sound now := by
  refine ⟨sound.scheduled, sound.within, fun _ due => ?_, fun asleep => ?_⟩
  · exact absurd due (Nat.not_le_of_lt later)
  · cases asleep

theorem Sound.short (due : crontab.nextExecteTime ≤ now) :
    crontab.alreadyExecuteTimes < crontab.scheduledExecuteTimes := by
  cases state : crontab.isSuspended with
  | false => exact sound.awake state due
  | true => exact (sound.asleep state).2

/-- If the next time does not wrap around, executing a task that is due keeps
it from being due again in this block. -/
theorem Sound.executed (due : crontab.nextExecteTime ≤ now)
    (timely : now < secondsAfter now crontab.executeInterval) :
    (crontab.executed now parameters).Sound now := by
  have short := sound.short due
  have bounded := sound.scheduled
  have counted : (crontab.executed now parameters).alreadyExecuteTimes =
      crontab.alreadyExecuteTimes + 1 :=
    Nat.mod_eq_of_lt (by omega)
  refine ⟨bounded, ?_, fun _ again => ?_, fun asleep => ?_⟩
  · rw [counted]
    exact short
  · exact absurd again (Nat.not_le_of_lt timely)
  · have last := (sound.asleep asleep).1
    simp only [secondsAfter, maximumTime] at timely last
    omega

/-- At the end of a block those tasks are left that have not expired, and of
them only those are due that are not done. -/
theorem Sound.unexpired (regular : crontab.Regular)
    (unexpired : time < crontab.expirationTime) : crontab.Sound time := by
  refine ⟨sound.scheduled, sound.within, fun awake due => ?_, sound.asleep⟩
  by_contra enough
  have done : crontab.alreadyExecuteTimes = crontab.scheduledExecuteTimes :=
    Nat.le_antisymm sound.within (Nat.le_of_not_lt enough)
  have none : crontab.remaining = 0 := by
    simp only [remaining, done]
    omega
  have expires := regular.expires awake
  rw [none, Nat.zero_mul, secondsAfter, Nat.add_zero, Nat.mod_eq_of_lt regular.range] at expires
  omega

end Crontab

theorem settleCrontab_cases (now : Nat) (containsError : Bool)
    (crontab : Option Nat) (world : World Key ρ) :
    settleCrontab now containsError crontab world = world ∨
      ∃ id old task, world.crontabs id = some old ∧
        old.alreadyExecuteTimes < old.scheduledExecuteTimes ∧
        settleCrontab now containsError crontab world = world.setCrontab id task ∧
        ((∃ times, task = { old with continuousFailureTimes := times }) ∨
          ∃ times expirationTime, task =
            { old with
              continuousFailureTimes := times
              nextExecteTime := maximumTime
              isSuspended := true
              expirationTime := expirationTime }) := by
  unfold settleCrontab
  split
  · exact .inl rfl
  · rename_i id
    split
    · exact .inl rfl
    · rename_i old known
      split
      · exact .inl rfl
      · rename_i short
        split
        · refine .inr ⟨id, old, _, known, Nat.lt_of_not_le short, rfl, ?_⟩
          split
          · exact .inr ⟨_, _, rfl⟩
          · exact .inl ⟨_, rfl⟩
        · split
          · exact .inr ⟨id, old, _, known, Nat.lt_of_not_le short, rfl, .inl ⟨_, rfl⟩⟩
          · exact .inl rfl

namespace Environment

variable [LinearOrder Key] [DecidableEq Hash] {env : Environment Key Hash Id ρ}

theorem authorize_crontab (accepted : env.authorize skip now trx world = .ok authorization) :
    (∃ id task, trx.agreedTask = some (.crontab id) ∧
      world.crontabs id = some task ∧ task.nextExecteTime ≤ now ∧
      authorization.world = world.setCrontab id (task.executed now world.parameters)) ∨
      ((∀ id, trx.agreedTask ≠ some (.crontab id)) ∧ authorization.world.crontabs = world.crontabs ∧
        authorization.world.others = world.others) := by
  unfold authorize at accepted
  split at accepted
  · rename_i id agreed
    simp only [bind_eq_ok, pure_eq_ok] at accepted
    obtain ⟨task, -, _, -, rfl⟩ := accepted
    refine .inr ⟨fun other => ?_, rfl, rfl⟩
    rw [agreed]
    simp
  · rename_i id agreed
    simp only [bind_eq_ok, found_eq_ok, ensure_eq_ok, Bool.and_eq_true,
      decide_eq_true_eq, pure_eq_ok] at accepted
    obtain ⟨task, known, _, ⟨⟨_, due⟩, _⟩, rfl⟩ := accepted
    exact .inl ⟨id, task, agreed, known, due, rfl⟩
  · cases accepted
  · rename_i agreed
    have other : ∀ id, trx.agreedTask ≠ some (.crontab id) := by
      intro id
      rw [agreed]
      exact (Option.some_ne_none _).symm
    split at accepted
    · cases accepted
      exact .inr ⟨other, rfl, rfl⟩
    · simp only [bind_eq_ok, pure_eq_ok] at accepted
      obtain ⟨_, -, rfl⟩ := accepted
      exact .inr ⟨other, rfl, rfl⟩

end Environment

namespace World

/-- The task with the number, if there is one, has been executed so often; one
that has not been created has not been executed. -/
structure Tallied (id times : Nat) (world : World Key (CrontabRoll ρ)) : Prop where
  numbered : ∀ task, world.crontabs id = some task →
    id < world.others.nextCrontab ∧ task.alreadyExecuteTimes = times
  fresh : world.others.nextCrontab ≤ id → times = 0

namespace Tallied

variable {id : Nat} {world : World Key (CrontabRoll ρ)}

variable (tallied : world.Tallied id times)
include tallied

theorem same (same : SameCrontabs world after) : after.Tallied id times := by
  obtain ⟨crontabs, next⟩ := same
  refine ⟨?_, ?_⟩
  · rw [crontabs, next]
    exact tallied.numbered
  · rw [next]
    exact tallied.fresh

theorem set (known : world.crontabs other = some old)
    (counted : task.alreadyExecuteTimes = old.alreadyExecuteTimes) :
    (world.setCrontab other task).Tallied id times := by
  refine ⟨fun found present => ?_, tallied.fresh⟩
  by_cases same : id = other
  · subst same
    simp only [World.setCrontab, Function.update_self, Option.some.injEq] at present
    subst present
    obtain ⟨numbered, already⟩ := tallied.numbered old known
    exact ⟨numbered, counted.trans already⟩
  · simp only [World.setCrontab, Function.update_of_ne same] at present
    exact tallied.numbered found present

theorem changes (change : CrontabChange now world after) : after.Tallied id times := by
  cases change with
  | kept same => exact tallied.same same
  | created op trx parameters later crontabs next =>
    refine ⟨fun task present => ?_, fun free => ?_⟩
    · rw [crontabs] at present
      rw [next]
      by_cases latest : id = world.others.nextCrontab
      · rw [latest, Function.update_self] at present
        cases present
        exact ⟨by omega, (tallied.fresh (Nat.le_of_eq latest.symm)).symm⟩
      · rw [Function.update_of_ne latest] at present
        obtain ⟨numbered, already⟩ := tallied.numbered task present
        exact ⟨Nat.lt_succ_of_lt numbered, already⟩
    · rw [next] at free
      exact tallied.fresh (by omega)
  | cancelled other crontabs next =>
    refine ⟨fun task present => ?_, by rw [next]; exact tallied.fresh⟩
    rw [crontabs] at present
    rw [next]
    by_cases same : id = other
    · rw [same, Function.update_self] at present
      cases present
    · rw [Function.update_of_ne same] at present
      exact tallied.numbered task present
  | recovered other old restartTime parameters found later crontabs next =>
    have kept := tallied.set found (show (old.recovered parameters
        restartTime.toNat).alreadyExecuteTimes = _ from rfl)
    exact kept.same ⟨crontabs, next⟩

end Tallied

end World

namespace CrontabSystem

variable [LinearOrder Key] [DecidableEq Hash] [DecidableEq Id]

/-- A timed task is executed at a time whose distance from the next one does
not wrap around. -/
def timelyExecution (state : ChainState Key Hash Id (CrontabRoll ρ))
    (trx : ProcessedTransaction Key) : Bool :=
  match trx.agreedTask with
  | some (.crontab id) => (state.world.crontabs id).all fun task =>
      state.headBlockTime < secondsAfter state.headBlockTime task.executeInterval
  | _ => true

variable {system : CrontabSystem Key ρ}
variable {base : BlockEnvironment Key Hash Id (CrontabRoll ρ)} {trx : ProcessedTransaction Key}
  {state : ChainState Key Hash Id (CrontabRoll ρ)}
  {applied : AppliedTransaction Key Hash Id (CrontabRoll ρ)}

section

variable (leaves : LeavesCrontabs base)
  (accepted : (system.chain base).applyTransaction nodeSkip mode false position trx state =
    .ok applied)
include leaves accepted

/-- What changes of timed tasks keep is kept by a transaction, if it holds once
the transaction is authorized and settling a task keeps it. -/
theorem applyTransaction_keeps {property : World Key (CrontabRoll ρ) → Prop}
    (changes : ∀ {before after}, property before →
      CrontabChange state.headBlockTime before after → property after)
    (settles : ∀ {world id old task}, property world → world.crontabs id = some old →
      old.alreadyExecuteTimes < old.scheduledExecuteTimes →
      ((∃ times, task = { old with continuousFailureTimes := times }) ∨
        ∃ times expirationTime, task =
          { old with
            continuousFailureTimes := times
            nextExecteTime := maximumTime
            isSuspended := true
            expirationTime := expirationTime }) →
        property (world.setCrontab id task))
    (starts : ∀ skip authorization, (system.chain base).authorize skip
        state.headBlockTime trx.toSignedTransaction state.world =
      .ok authorization → property authorization.world) :
    property applied.state.world := by
  obtain ⟨authorization, context, loop, authorized, time, finished, -,
    world⟩ := applyTransaction_parts accepted
  have preserves : Preserves (system.chain base).evaluate state.headBlockTime
      (fun _ => True) property := by
    refine ⟨fun _ _ _ => trivial, ?_⟩
    intro context op world result after time _ holds evaluated
    exact changes holds (time ▸ evaluate_changes leaves evaluated)
  have ran : property loop.world :=
    preserves.run time (fun _ _ => trivial) (starts _ _ authorized) finished
  rw [world]
  obtain same | ⟨_, _, _, known, short, settled, how⟩ :=
    settleCrontab_cases state.headBlockTime loop.resultContainsError
      authorization.crontab loop.world
  · rw [same]
    exact ran
  · rw [settled]
    exact settles ran known short how

theorem applyTransaction_regular (regular : state.world.EveryCrontab Crontab.Regular) :
    applied.state.world.EveryCrontab Crontab.Regular := by
  refine applyTransaction_keeps leaves accepted (fun every change => ?_)
    (fun {world id old task} every known _ how => ?_) (fun skip authorization authorized => ?_)
  · exact every.changes (fun _ _ _ _ => Crontab.regular_created)
      (fun _ _ _ _ _ => Crontab.regular_recovered) change
  · have before : old.Regular := every id old known
    apply every.set
    rcases how with ⟨_, rfl⟩ | ⟨_, _, rfl⟩
    · exact ⟨before.range, before.expires⟩
    · have range : maximumTime < 2 ^ 32 := by decide
      exact ⟨range, fun awake => by cases awake⟩
  · obtain ⟨id, task, _, known, _, world⟩ | ⟨_, crontabs, _⟩ :=
      authorize_crontab authorized
    · rw [world]
      exact regular.set Crontab.regular_executed
    · intro id task known
      rw [crontabs] at known
      exact regular id task known

theorem applyTransaction_sound
    (sound : state.world.EveryCrontab (Crontab.Sound state.headBlockTime))
    (timely : timelyExecution state trx = true) :
    applied.state.world.EveryCrontab (Crontab.Sound state.headBlockTime) := by
  refine applyTransaction_keeps leaves accepted (fun every change => ?_)
    (fun {world id old task} every known short how => ?_) (fun skip authorization authorized => ?_)
  · exact every.changes (fun _ _ _ later => Crontab.sound_created later)
      (fun _ _ _ sound later => sound.recovered later) change
  · have before : old.Sound state.headBlockTime := every id old known
    apply every.set
    rcases how with ⟨_, rfl⟩ | ⟨_, _, rfl⟩
    · exact ⟨before.scheduled, before.within, before.awake, before.asleep⟩
    · refine ⟨before.scheduled, before.within, fun awake => ?_, fun _ => ⟨rfl, short⟩⟩
      cases awake
  · obtain ⟨id, task, agreed, known, due, world⟩ | ⟨_, crontabs, _⟩ :=
      authorize_crontab authorized
    · rw [world]
      apply sound.set
      apply (sound id task known).executed due
      simpa [timelyExecution, agreed, known] using timely
    · intro id task known
      rw [crontabs] at known
      exact sound id task known

theorem applyTransaction_tallied
    (sound : state.world.EveryCrontab (Crontab.Sound state.headBlockTime))
    {id : Nat} (tallied : state.world.Tallied id times) :
    applied.state.world.Tallied id (times + executions (.crontab id) [trx]) := by
  refine applyTransaction_keeps leaves accepted (fun tallied change => ?_)
    (fun {world other old task} tallied known _ how => ?_) (fun skip authorization authorized => ?_)
  · exact tallied.changes change
  · refine tallied.set known ?_
    rcases how with ⟨_, rfl⟩ | ⟨_, _, rfl⟩
    · rfl
    · rfl
  · obtain ⟨other, task, agreed, known, due, world⟩ | ⟨none, crontabs, roll⟩ :=
      authorize_crontab authorized
    · rw [world]
      by_cases same : id = other
      · subst same
        obtain ⟨numbered, already⟩ := tallied.numbered task known
        rw [executions_cons_same agreed]
        refine ⟨fun found present => ⟨numbered, ?_⟩, fun free => ?_⟩
        · simp only [World.setCrontab, Function.update_self, Option.some.injEq] at present
          have short := (sound id task known).short due
          have bounded := (sound id task known).scheduled
          rw [← present, ← already]
          exact Nat.mod_eq_of_lt (by omega)
        · exact absurd numbered (Nat.not_lt_of_le free)
      · have unexecuted : trx.agreedTask ≠ some (.crontab id) := by
          rw [agreed]
          simpa using Ne.symm same
        rw [executions_cons_other unexecuted]
        refine ⟨fun found present => ?_, tallied.fresh⟩
        simp only [World.setCrontab, Function.update_of_ne same] at present
        exact tallied.numbered found present
    · rw [executions_cons_other (none id)]
      refine ⟨?_, ?_⟩
      · rw [crontabs, roll]
        exact tallied.numbered
      · rw [roll]
        exact tallied.fresh

end

omit [DecidableEq Hash] [DecidableEq Id] in
theorem finishBlock_crontabs (leaves : LeavesCrontabs base)
    (finished : (system.chain base).finishBlock skip block state = .ok next) :
    next.headBlockTime = block.timestamp ∧
      next.world.others.nextCrontab = state.world.others.nextCrontab ∧
      ∀ id task, next.world.crontabs id = some task → state.world.crontabs id = some task ∧
          block.timestamp < task.expirationTime := by
  obtain ⟨-, kept, moved⟩ := BlockEnvironment.finishBlock_eq_ok.mp finished
  obtain ⟨_, upkept, cleared⟩ := Option.map_eq_some_iff.mp kept
  obtain ⟨crontabs, numbers⟩ := leaves.upkeep upkept
  refine ⟨by rw [moved], ?_, fun id task known => ?_⟩
  · rw [← cleared]
    exact numbers
  · rw [← cleared] at known
    obtain ⟨present, unexpired⟩ := Option.filter_eq_some_iff.mp known
    rw [← crontabs]
    exact ⟨present, by simpa using unexpired⟩

theorem keeps_regular (leaves : LeavesCrontabs base) :
    (system.chain base).Keeps skip (fun _ _ => true)
      fun _ state => state.world.EveryCrontab Crontab.Regular where
  transaction regular _ accepted := applyTransaction_regular leaves accepted regular
  finish := by
    intro _ _ _ _ regular _ finished id task known
    obtain ⟨-, -, left⟩ := finishBlock_crontabs leaves finished
    exact regular id task (left id task known).1

theorem keeps_sound (leaves : LeavesCrontabs base) :
    (system.chain base).Keeps skip timelyExecution fun past state =>
      state.world.EveryCrontab Crontab.Regular ∧
        state.world.EveryCrontab (Crontab.Sound state.headBlockTime) ∧
        ∀ id, state.world.Tallied id (executions (.crontab id) past) where
  transaction := by
    rintro past state _ _ _ ⟨regular, sound, tallied⟩ timely accepted
    obtain ⟨_, _, _, -, -, -, time, -⟩ := applyTransaction_parts accepted
    refine ⟨applyTransaction_regular leaves accepted regular, ?_, fun id => ?_⟩
    · rw [time]
      exact applyTransaction_sound leaves accepted sound timely
    · rw [executions_append]
      exact applyTransaction_tallied leaves accepted sound (tallied id)
  finish := by
    rintro _ _ _ _ ⟨regular, sound, tallied⟩ - finished
    obtain ⟨time, numbers, left⟩ := finishBlock_crontabs leaves finished
    refine ⟨fun id task known => regular id task (left id task known).1, ?_, fun id => ?_⟩
    · intro id task known
      obtain ⟨present, unexpired⟩ := left id task known
      rw [time]
      exact (sound id task present).unexpired (regular id task present) unexpired
    · refine ⟨fun task known => ?_, by rw [numbers]; exact (tallied id).fresh⟩
      rw [numbers]
      exact (tallied id).numbered task (left id task known).1

/-- In every state that a chain without timed tasks comes to, after some blocks
and some transactions of the next one, a task that is not suspended expires
when it has been executed as often as was to be.  If no execution so far has
made the next time wrap around, no task has been executed too often; and the
next transaction to execute one finds it executed as often as the chain has
done so, and less often than was to be. -/
theorem crontab_runs_as_scheduled (base : BlockEnvironment Key Hash Id (CrontabRoll ρ))
    (leaves : LeavesCrontabs base) (start middle state : ChainState Key Hash Id (CrontabRoll ρ))
    (fresh : ∀ id, start.world.crontabs id = none) (blocks : List (ProcessedBlock Key Hash))
    (chained : (system.chain base).applyBlocks skip blocks start = .ok middle) (blockNum : Nat)
    (trxs : List (ProcessedTransaction Key))
    (begun : (system.chain base).applyTransactions skip blockNum 0 trxs middle = .ok state) :
    (∀ id task, state.world.crontabs id = some task → task.isSuspended = false →
        task.expirationTime = secondsAfter task.nextExecteTime
          (task.remaining * task.executeInterval)) ∧
    ((system.chain base).blocksMeet skip timelyExecution blocks start = true →
      (system.chain base).transactionsMeet skip timelyExecution blockNum 0 trxs middle = true →
      (∀ id task, state.world.crontabs id = some task →
        task.alreadyExecuteTimes ≤ task.scheduledExecuteTimes) ∧
      ∀ id trx, trx.agreedTask = some (.crontab id) →
        ∀ nodeSkip mode position applied, (system.chain base).applyTransaction
          nodeSkip mode false position trx state = .ok applied →
        ∃ task, state.world.crontabs id = some task ∧
          task.alreadyExecuteTimes = executions (.crontab id)
            (blocks.flatMap ProcessedBlock.transactions ++ trxs) ∧
          task.alreadyExecuteTimes < task.scheduledExecuteTimes) := by
  have none : ∀ property : Crontab Key → Prop, start.world.EveryCrontab property := by
    intro property id task known
    rw [fresh id] at known
    cases known
  have regular := (keeps_regular leaves).transactions [] ((keeps_regular leaves).blocks []
    (none _) BlockEnvironment.blocksMeet_true chained) BlockEnvironment.transactionsMeet_true begun
  refine ⟨fun id task known => (regular id task known).expires, fun timely timelyNow => ?_⟩
  have untold : ∀ id, start.world.Tallied id 0 := by
    refine fun id => ⟨fun task known => ?_, fun _ => rfl⟩
    rw [fresh id] at known
    cases known
  obtain ⟨-, sound, tallied⟩ := (keeps_sound leaves).transactions _ ((keeps_sound leaves).blocks
    [] ⟨none _, none _, untold⟩ timely chained) timelyNow begun
  refine ⟨fun id task known => (sound id task known).within,
    fun id trx agreed nodeSkip mode position applied accepted => ?_⟩
  obtain ⟨_, _, _, authorized, -⟩ := applyTransaction_parts accepted
  obtain ⟨other, task, executes, known, due, -⟩ | ⟨other, -⟩ :=
    authorize_crontab authorized
  · cases executes.symm.trans agreed
    exact ⟨task, known, ((tallied id).numbered task known).2, (sound id task known).short due⟩
  · exact absurd agreed (other id)

/-- The byte zero creates a task with the given interval and number of times,
which starts a second after the chain. -/
def everyInterval (interval times : UInt64) : CrontabSystem Nat Unit where
  unpack
    | [0] => some (.create
        { crontabCreator := 7
          crontabOps := [.transfer 7 []]
          startTime := 1600000001
          executeInterval := interval
          scheduledExecuteTimes := times })
    | _ => none
  idText id := [.ofNat id]
  impactedKnown _ _ := true

/-- A chain that has come to September 2020 without timed tasks. -/
def beforeTasks : ChainState Nat (Transaction Nat) (Transaction Nat) (CrontabRoll Unit) :=
  blankGenesis 1600000000 ⟨fun _ => 0, 0, 0, ()⟩

def createTask : ProcessedTransaction Nat :=
  blankTransaction 1600000040 (.other ⟨[7], [], []⟩ [0])

def executeTask (expiration : Nat) : ProcessedTransaction Nat :=
  blankTask (.crontab 0) ⟨0, 0, expiration, [.transfer 7 []], [0]⟩

theorem blankChain_leavesCrontabs : LeavesCrontabs (blankChain (CrontabRoll Unit)) := by
  refine ⟨fun evaluated => ?_, fun kept => ?_⟩
  · cases evaluated
    exact ⟨rfl, rfl⟩
  · cases kept
    exact ⟨rfl, rfl⟩

def executedOnce : List (ProcessedBlock Nat (Transaction Nat)) :=
  [blankBlock 0 1600000003 [createTask], blankBlock 1 1600000006 [executeTask 1600000001],
    blankBlock 2 1600000009 []]

theorem crontab_runs_as_scheduled_twice : ∃ state task,
      ((everyInterval 5 2).chain (blankChain _)).applyBlocks 0 executedOnce
        beforeTasks = .ok state ∧
      state.world.crontabs 0 = some task ∧ task.isSuspended = false ∧
      task.expirationTime = secondsAfter task.nextExecteTime
        (task.remaining * task.executeInterval) ∧
      task.alreadyExecuteTimes ≤ task.scheduledExecuteTimes := by
  have chained : (((everyInterval 5 2).chain (blankChain _)).applyBlocks 0
      executedOnce beforeTasks).isOk = true := by decide +kernel
  have waiting : (((everyInterval 5 2).chain (blankChain _)).applyBlocks 0
      executedOnce beforeTasks).toOption.any (fun state =>
        (state.world.crontabs 0).any fun task => !task.isSuspended) =
      true := by decide +kernel
  obtain ⟨state, run⟩ := exists_of_isOk chained
  rw [run] at waiting
  obtain ⟨task, known, awake⟩ : ∃ task, state.world.crontabs 0 = some task ∧
        (!task.isSuspended) = true := by
    simpa [Except.toOption, Option.any_eq_true] using waiting
  obtain ⟨expires, timely⟩ := crontab_runs_as_scheduled (blankChain _)
    blankChain_leavesCrontabs beforeTasks state state (fun _ => rfl) executedOnce run 4 [] rfl
  refine ⟨state, task, run, known, by simpa using awake,
    expires 0 task known (by simpa using awake), ?_⟩
  exact (timely (by decide +kernel) rfl).1 0 task known

/-- An interval so long that three times it wraps around to a hundred seconds:
the task is executed a fourth time, in the block of the third. -/
theorem crontab_executed_too_often : ∃ blocks,
      (((everyInterval 2863311564 3).chain (blankChain _)).applyBlocks 0 blocks
        beforeTasks).isOk = true ∧
      ((((everyInterval 2863311564 3).chain (blankChain _)).applyBlocks 0
        (blocks.take 1) beforeTasks).toOption.bind
          (·.world.crontabs 0)).map Crontab.scheduledExecuteTimes = some 3 ∧
      executions (.crontab 0) (blocks.flatMap ProcessedBlock.transactions) = 4 :=
  ⟨[blankBlock 0 1600000003 [createTask], blankBlock 1 1600000006 [executeTask 1600000001],
      blankBlock 2 1600000009 [executeTask 168344271],
      blankBlock 3 1600000012 [executeTask 168344274, executeTask 168344277]],
    by decide +kernel, by decide +kernel, by decide +kernel⟩

/-- With so many executions to go from a time on, the task is over within the
period, and expires at its end. -/
def WithinHorizon (now start times : Nat) (task : Crontab Key) : Prop :=
  start + times * task.executeInterval ≤ now + 2592000 ∧
    task.expirationTime = start + times * task.executeInterval

instance (now start times : Nat) (task : Crontab Key) :
    Decidable (WithinHorizon now start times task) :=
  inferInstanceAs (Decidable (_ ∧ _))

/-- A task that is created keeps to the period exactly if its end is a time of
32 bits.  For one that is started anew the period is not checked. -/
theorem horizon_kept_iff (system : CrontabSystem Key ρ) (validate : Transaction Key → Bool)
    (context : EvaluationContext Key) (world : World Key (CrontabRoll ρ)) :
    (∀ op result after, system.create validate context op world = .ok (result, after) →
      ∃ task, after.crontabs world.others.nextCrontab = some task ∧
        (WithinHorizon context.headBlockTime op.startTime.toNat
            op.scheduledExecuteTimes.toNat task ↔
          op.startTime.toNat +
            op.scheduledExecuteTimes.toNat * op.executeInterval.toNat < 2 ^ 32)) ∧
    ∀ op result after, recover context op world = .ok (result, after) →
      ∃ old task, world.crontabs op.crontab = some old ∧ after.crontabs op.crontab = some task ∧
        (WithinHorizon context.headBlockTime op.restartTime.toNat old.remaining task ↔
          op.restartTime.toNat + old.remaining * old.executeInterval < 2 ^ 32 ∧
          op.restartTime.toNat + old.remaining * old.executeInterval ≤
            context.headBlockTime + 2592000) := by
  constructor
  · intro op result after accepted
    simp only [create, bind_eq_ok, ensure_eq_ok, decide_eq_true_eq, pure_eq_ok,
      Prod.mk.injEq] at accepted
    obtain ⟨_, -, _, within, _, -, _, -, _, -, -, rfl⟩ := accepted
    refine ⟨_, Function.update_self .., ?_⟩
    simp only [WithinHorizon, CrontabCreate.crontab, secondsAfter,
      Nat.mul_comm op.executeInterval.toNat] at within ⊢
    omega
  · intro op result after accepted
    simp only [recover, bind_eq_ok, found_eq_ok, ensure_eq_ok, pure_eq_ok,
      Prod.mk.injEq] at accepted
    obtain ⟨old, known, _, -, _, -, -, rfl⟩ := accepted
    refine ⟨old, _, known, Function.update_self .., ?_⟩
    simp only [WithinHorizon, Crontab.recovered, secondsAfter, Nat.mul_comm old.executeInterval]
    omega

/-- Three times an interval of 90 years are taken for a hundred seconds. -/
theorem horizon_exceeded : ((((everyInterval 2863311564 3).chain (blankChain _)).applyBlocks 0
      [blankBlock 0 1600000003 [createTask]] beforeTasks).toOption.bind
        (·.world.crontabs 0)).any (fun task =>
          !WithinHorizon 1600000000 1600000001 3 task) = true := by
  decide +kernel

end CrontabSystem

end CocosChain.Chain

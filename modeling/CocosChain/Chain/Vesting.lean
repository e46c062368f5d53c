import CocosChain.Chain.BudgetConservation

/-!
# Vesting policies

A vesting balance gives out what it holds over time.  Under the linear policy
the amount it began with vests in proportion to the time that has passed.
Under the other policy the balance earns coin seconds, up to as many as the
balance earns in the vesting period, and what is withdrawn has to be paid for
with them.
-/

namespace CocosChain.Chain.Vesting

open Share

structure VestingPolicyContext where
  balance : Asset
  now : UInt32
  amount : Asset

structure LinearVestingPolicy where
  beginTimestamp : UInt32
  vestingCliffSeconds : UInt32
  vestingDurationSeconds : UInt32
  beginBalance : Int
  deriving DecidableEq, Repr

namespace LinearVestingPolicy

def totalVested (policy : LinearVestingPolicy) (elapsed : Nat) : Outcome Int :=
  if elapsed < policy.vestingDurationSeconds.toNat then
    ofUint128 (toUint128 policy.beginBalance * elapsed % 2 ^ 128 /
      policy.vestingDurationSeconds.toNat)
  else pure policy.beginBalance

def getAllowedWithdraw (policy : LinearVestingPolicy)
    (ctx : VestingPolicyContext) : Outcome Asset :=
  let elapsed := ctx.now.toNat - policy.beginTimestamp.toNat
  if policy.beginTimestamp < ctx.now ∧ policy.vestingCliffSeconds.toNat ≤ elapsed then do
    let totalVested ← policy.totalVested elapsed
    let withdrawnAlready ← checked (policy.beginBalance - ctx.balance.amount)
    let allowed ← checked (totalVested - withdrawnAlready)
    pure ⟨allowed, ctx.balance.assetId⟩
  else pure ⟨0, ctx.balance.assetId⟩

def isWithdrawAllowed (policy : LinearVestingPolicy)
    (ctx : VestingPolicyContext) : Outcome Bool := do
  if ctx.amount.assetId ≠ ctx.balance.assetId then pure false
  else
    let allowed ← policy.getAllowedWithdraw ctx
    pure (decide (ctx.amount.amount ≤ allowed.amount))

end LinearVestingPolicy

structure CddVestingPolicy where
  vestingSeconds : UInt32
  coinSecondsEarned : Nat
  startClaim : UInt32
  coinSecondsEarnedLastUpdate : UInt32
  deriving DecidableEq, Repr

namespace CddVestingPolicy

/-- `std::max(vesting_seconds, 1u)` -/
def period (policy : CddVestingPolicy) : Nat := max policy.vestingSeconds.toNat 1

def computeCoinSecondsEarned (policy : CddVestingPolicy) (ctx : VestingPolicyContext) : Nat :=
  let deltaSeconds : Int := ctx.now.toNat - policy.coinSecondsEarnedLastUpdate.toNat
  let deltaCoinSeconds :=
    toUint128 ctx.balance.amount * toUint128 deltaSeconds % 2 ^ 128
  let coinSecondsEarnedCap := toUint128 ctx.balance.amount * policy.period % 2 ^ 128
  min ((policy.coinSecondsEarned + deltaCoinSeconds) % 2 ^ 128) coinSecondsEarnedCap

def updateCoinSecondsEarned (policy : CddVestingPolicy)
    (ctx : VestingPolicyContext) : CddVestingPolicy :=
  { policy with
    coinSecondsEarned := policy.computeCoinSecondsEarned ctx
    coinSecondsEarnedLastUpdate := ctx.now }

def getAllowedWithdraw (policy : CddVestingPolicy) (ctx : VestingPolicyContext) : Outcome Asset :=
  if ctx.now ≤ policy.startClaim then pure ⟨0, ctx.balance.assetId⟩
  else do
    let available ← ofUint128 (policy.computeCoinSecondsEarned ctx / policy.period)
    pure ⟨available, ctx.balance.assetId⟩

def onWithdraw (policy : CddVestingPolicy) (ctx : VestingPolicyContext) : CddVestingPolicy :=
  let policy := policy.updateCoinSecondsEarned ctx
  let coinSecondsNeeded := toUint128 ctx.amount.amount * policy.period % 2 ^ 128
  { policy with
    coinSecondsEarned := toUint128
      ((policy.coinSecondsEarned : Int) - (coinSecondsNeeded : Nat)) }

/-- Amounts of different assets are not compared. -/
def isWithdrawAllowed (policy : CddVestingPolicy) (ctx : VestingPolicyContext) : Outcome Bool := do
  let allowed ← policy.getAllowedWithdraw ctx
  ensure (ctx.amount.assetId == allowed.assetId) .refused
  pure (decide (ctx.amount.amount ≤ allowed.amount))

end CddVestingPolicy

inductive VestingPolicy where
  | linear (policy : LinearVestingPolicy)
  | cdd (policy : CddVestingPolicy)
  deriving DecidableEq, Repr

structure VestingBalanceObject where
  owner : AccountId
  balance : Asset
  createTime : UInt32
  policy : VestingPolicy
  describe : String
  deriving DecidableEq, Repr

namespace VestingBalanceObject

variable (object : VestingBalanceObject) (now : UInt32) (amount : Asset)

def context : VestingPolicyContext := ⟨object.balance, now, amount⟩

/-- The balance with an amount added to it. -/
def add : VestingBalanceObject :=
  { object with balance := ⟨object.balance.amount + amount.amount,
      object.balance.assetId⟩ }

def getAllowedWithdraw : Outcome Asset :=
  match object.policy with
  | .linear policy => policy.getAllowedWithdraw (object.context now ⟨0, 0⟩)
  | .cdd policy => policy.getAllowedWithdraw (object.context now ⟨0, 0⟩)

def isWithdrawAllowed : Outcome Bool :=
  match object.policy with
  | .linear policy => policy.isWithdrawAllowed (object.context now amount)
  | .cdd policy => policy.isWithdrawAllowed (object.context now amount)

def withdraw : Outcome VestingBalanceObject := do
  ensure (amount.assetId == object.balance.assetId) .refused
  let taken := object.add ⟨-amount.amount, amount.assetId⟩
  match object.policy with
  | .linear _ => pure taken
  | .cdd policy =>
      pure { taken with
        policy := .cdd (policy.onWithdraw (object.context now amount)) }

/-- `vesting_balance_withdraw_operation`, by the owner. -/
def performWithdraw (object : VestingBalanceObject)
    (operation : UInt32 × Asset) : Outcome VestingBalanceObject := do
  ensure (decide (0 < operation.2.amount)) .refused
  let allowed ← object.isWithdrawAllowed operation.1 operation.2
  ensure allowed .refused
  object.withdraw operation.1 operation.2

end VestingBalanceObject

/-- A linear balance as `vesting_balance_create_operation` makes it. -/
def createLinear (owner : AccountId) (amount : Asset)
    (beginTimestamp vestingCliffSeconds vestingDurationSeconds : UInt32) :
    Outcome VestingBalanceObject := do
  ensure (decide (0 < amount.amount)) .refused
  pure {
    owner
    balance := amount
    createTime := 0
    policy := .linear ⟨beginTimestamp, vestingCliffSeconds, vestingDurationSeconds, amount.amount⟩
    describe := "" }

variable {number : Nat}

theorem wrap_of_fits (fits : number < 2 ^ 63) : Share.wrap number = number := by
  rw [Share.wrap, Int.bmod_eq_of_le (by omega) (by omega)]

theorem ofUint128_eq_ok : ofUint128 number = .ok result ↔
      number < 2 ^ 64 ∧ Share.wrap number = result := by
  rw [ofUint128, bind_eq_ok]
  constructor
  · rintro ⟨_, fits, same⟩
    exact ⟨of_decide_eq_true (ensure_eq_ok.mp fits), pure_eq_ok.mp same⟩
  · rintro ⟨fits, same⟩
    exact ⟨(), ensure_eq_ok.mpr (decide_eq_true fits), pure_eq_ok.mpr same⟩

theorem ofUint128_of_fits (fits : number < 2 ^ 63) : ofUint128 number = .ok (number : Int) :=
  ofUint128_eq_ok.mpr ⟨by omega, wrap_of_fits fits⟩

namespace LinearVestingPolicy

variable {policy : LinearVestingPolicy}

/-- What vests in a time without the cliff. -/
def vested (policy : LinearVestingPolicy) (elapsed : Nat) : Int :=
  if elapsed < policy.vestingDurationSeconds.toNat then
    policy.beginBalance * elapsed / policy.vestingDurationSeconds.toNat
  else policy.beginBalance

/-- What has vested by a time. -/
def vestedBy (policy : LinearVestingPolicy) (now : UInt32) : Int :=
  if policy.beginTimestamp < now ∧ policy.vestingCliffSeconds.toNat ≤
      now.toNat - policy.beginTimestamp.toNat then
    policy.vested (now.toNat - policy.beginTimestamp.toNat)
  else 0

variable (nonneg : 0 ≤ policy.beginBalance)
include nonneg

theorem vested_nonneg (elapsed : Nat) : 0 ≤ policy.vested elapsed := by
  unfold vested
  split
  · positivity
  · exact nonneg

theorem vested_le (elapsed : Nat) : policy.vested elapsed ≤ policy.beginBalance := by
  unfold vested
  split
  · apply Int.ediv_le_of_le_mul (by omega)
    exact Int.mul_le_mul_of_nonneg_left (by omega) nonneg
  · exact Int.le_refl _

theorem vested_mono (ordered : first ≤ second) : policy.vested first ≤ policy.vested second := by
  have most := vested_le nonneg first
  unfold vested at most ⊢
  by_cases ended : second < policy.vestingDurationSeconds.toNat
  · rw [if_pos ended, if_pos (by omega)]
    apply Int.ediv_le_ediv (by omega)
    exact Int.mul_le_mul_of_nonneg_left (by omega) nonneg
  · rw [if_neg ended]
    exact most

theorem vestedBy_nonneg : 0 ≤ policy.vestedBy now := by
  unfold vestedBy
  split
  · exact vested_nonneg nonneg _
  · exact Int.le_refl 0

theorem vestedBy_mono (ordered : now ≤ later) : policy.vestedBy now ≤ policy.vestedBy later := by
  rw [UInt32.le_iff_toNat_le] at ordered
  have least : 0 ≤ policy.vestedBy later := vestedBy_nonneg nonneg
  unfold vestedBy at least ⊢
  simp only [UInt32.lt_iff_toNat_lt] at least ⊢
  split
  · rw [if_pos (by omega)]
    exact vested_mono nonneg (by omega)
  · exact least

theorem totalVested_eq (fits : policy.beginBalance < 2 ^ 63) (elapsed : Nat) :
    policy.totalVested elapsed = .ok (policy.vested elapsed) := by
  have most := vested_le nonneg elapsed
  unfold totalVested
  unfold vested at most ⊢
  split
  · rename_i early
    rw [if_pos early] at most
    obtain ⟨balance, held⟩ := Int.eq_ofNat_of_zero_le nonneg
    have small := policy.vestingDurationSeconds.toNat_lt
    have product : balance * elapsed < 2 ^ 128 :=
      calc balance * elapsed ≤ 2 ^ 63 * 2 ^ 32 :=
            Nat.mul_le_mul (by omega) (by omega)
        _ < 2 ^ 128 := by decide
    have same : toUint128 policy.beginBalance = balance := by
      rw [toUint128_eq nonneg (by omega)]
      omega
    rw [same, Nat.mod_eq_of_lt product]
    rw [held] at most ⊢
    rw [← Int.natCast_mul, ← Int.natCast_ediv] at most ⊢
    exact ofUint128_of_fits (by omega)
  · rfl

theorem getAllowedWithdraw_eq (fits : policy.beginBalance < 2 ^ 63)
    (balance : ctx.balance.amount = policy.beginBalance - withdrawn)
    (some : 0 ≤ withdrawn) (covered : withdrawn ≤ policy.vestedBy ctx.now) :
    policy.getAllowedWithdraw ctx =
      .ok ⟨policy.vestedBy ctx.now - withdrawn, ctx.balance.assetId⟩ := by
  unfold getAllowedWithdraw
  unfold vestedBy at covered ⊢
  dsimp only
  split
  · rename_i reached
    rw [if_pos reached] at covered
    have most := vested_le nonneg (ctx.now.toNat - policy.beginTimestamp.toNat)
    rw [totalVested_eq nonneg fits, balance, Int.sub_sub_self,
      checked_eq_ok.mpr ⟨fits_iff.mpr ⟨by omega, by omega⟩, rfl⟩]
    refine bind_eq_ok.mpr ⟨_, rfl, bind_eq_ok.mpr ⟨_, rfl, ?_⟩⟩
    rw [checked_eq_ok.mpr ⟨fits_iff.mpr ⟨by omega, by omega⟩, rfl⟩]
    rfl
  · rename_i early
    rw [if_neg early] at covered
    obtain rfl : withdrawn = 0 := by omega
    rfl

end LinearVestingPolicy

namespace VestingBalanceObject

variable {created object : VestingBalanceObject}

/-- The amount that the withdrawals take. -/
def total (withdrawals : List (UInt32 × Asset)) : Int :=
  (withdrawals.map fun operation => operation.2.amount).sum

/-- The linear balance after withdrawals of an amount in all. -/
structure Withdrawn (policy : LinearVestingPolicy) (amount : Int)
    (created object : VestingBalanceObject) : Prop where
  same : object = created.add ⟨-amount, created.balance.assetId⟩
  linear : created.policy = .linear policy
  full : created.balance.amount = policy.beginBalance
  positive : 0 < policy.beginBalance
  fits : policy.beginBalance < 2 ^ 63
  nonneg : 0 ≤ amount

variable {policy : LinearVestingPolicy}

theorem Withdrawn.allowed (withdrawn : Withdrawn policy amount created object)
    (covered : amount ≤ policy.vestedBy now) : object.getAllowedWithdraw now =
      .ok ⟨policy.vestedBy now - amount, created.balance.assetId⟩ := by
  obtain ⟨rfl, linear, full, positive, fits, nonneg⟩ := withdrawn
  simp only [getAllowedWithdraw, add, linear]
  apply LinearVestingPolicy.getAllowedWithdraw_eq positive.le fits _ nonneg covered
  simp only [context, full]
  omega

theorem performWithdraw_linear (linear : object.policy = .linear policy)
    (done : object.performWithdraw operation = .ok after) :
    0 < operation.2.amount ∧ (∃ allowed, object.getAllowedWithdraw operation.1 = .ok allowed ∧
        operation.2.amount ≤ allowed.amount) ∧
      after = object.add ⟨-operation.2.amount, object.balance.assetId⟩ := by
  simp only [performWithdraw, bind_eq_ok, ensure_eq_ok, decide_eq_true_eq,
    isWithdrawAllowed, withdraw, linear, beq_iff_eq, pure_eq_ok] at done
  obtain ⟨-, positive, allowed, tested, -, rfl, -, asset, rfl⟩ := done
  refine ⟨positive, ?_, by rw [asset]⟩
  simp only [LinearVestingPolicy.isWithdrawAllowed, context, asset, ne_eq,
    not_true, if_false, bind_eq_ok, pure_eq_ok] at tested
  obtain ⟨allowed, computed, most⟩ := tested
  refine ⟨allowed, ?_, of_decide_eq_true most⟩
  simp only [getAllowedWithdraw, linear]
  exact computed

theorem Withdrawn.step (withdrawn : Withdrawn policy amount created object)
    (covered : amount ≤ policy.vestedBy operation.1)
    (done : object.performWithdraw operation = .ok after) :
    Withdrawn policy (amount + operation.2.amount) created after ∧
      amount + operation.2.amount ≤ policy.vestedBy operation.1 := by
  have still : object.policy = .linear policy := by
    rw [withdrawn.same]
    exact withdrawn.linear
  obtain ⟨_, ⟨allowed, computed, most⟩, rfl⟩ := performWithdraw_linear still done
  rw [withdrawn.allowed covered] at computed
  cases computed
  obtain ⟨rfl, linear, full, positive, fits, _⟩ := withdrawn
  refine ⟨⟨?_, linear, full, positive, fits, by omega⟩, ?_⟩
  · simp only [add]
    rw [Int.neg_add, Int.add_assoc]
  · have most : operation.2.amount ≤ policy.vestedBy operation.1 - amount :=
      most
    omega

/-- The times of the withdrawals, with a time after them. -/
def timesUntil (now : UInt32) (withdrawals : List (UInt32 × Asset)) : List UInt32 :=
  withdrawals.map Prod.fst ++ [now]

theorem Withdrawn.run (withdrawn : Withdrawn policy amount created object)
    (covered : ∀ time ∈ timesUntil now withdrawals, amount ≤ policy.vestedBy time)
    (ordered : (timesUntil now withdrawals).Pairwise (· ≤ ·))
    (done : FallibleRun.run performWithdraw object withdrawals = .ok after) :
    Withdrawn policy (amount + total withdrawals) created after ∧
      amount + total withdrawals ≤ policy.vestedBy now := by
  induction withdrawals generalizing object amount with
  | nil =>
    cases done
    simpa [total] using And.intro withdrawn (covered now (by simp [timesUntil]))
  | cons operation rest induction =>
    obtain ⟨_, first, later⟩ := bind_eq_ok.mp done
    obtain ⟨least, ordered⟩ := List.pairwise_cons.mp ordered
    obtain ⟨between, within⟩ := withdrawn.step (covered operation.1 List.mem_cons_self) first
    have still : ∀ time ∈ timesUntil now rest, amount + operation.2.amount ≤ policy.vestedBy time :=
      fun time member => within.trans (LinearVestingPolicy.vestedBy_mono
        withdrawn.positive.le (least time member))
    have ending := induction between still ordered later
    rw [Int.add_assoc] at ending
    exact ending

theorem withdrawn_of_created {owner : AccountId} {amount : Asset}
    (fits : Share.fits amount.amount = true)
    (creating : createLinear owner amount beginTimestamp vestingCliffSeconds
      vestingDurationSeconds = .ok created)
    (done : FallibleRun.run performWithdraw created withdrawals = .ok object)
    (ordered : (timesUntil now withdrawals).Pairwise (· ≤ ·)) :
    Withdrawn ⟨beginTimestamp, vestingCliffSeconds, vestingDurationSeconds,
        amount.amount⟩ (total withdrawals) created object ∧
      total withdrawals ≤ LinearVestingPolicy.vestedBy ⟨beginTimestamp,
        vestingCliffSeconds, vestingDurationSeconds, amount.amount⟩ now := by
  simp only [createLinear, bind_eq_ok, ensure_eq_ok, decide_eq_true_eq, pure_eq_ok] at creating
  obtain ⟨-, positive, made⟩ := creating
  simp only [Share.fits, Bool.and_eq_true, decide_eq_true_eq] at fits
  have start : Withdrawn ⟨beginTimestamp, vestingCliffSeconds,
      vestingDurationSeconds, amount.amount⟩ 0 created created :=
    ⟨by simp [add], made ▸ rfl, made ▸ rfl, positive, fits.2, Int.le_refl 0⟩
  have ending := start.run (fun time _ =>
    LinearVestingPolicy.vestedBy_nonneg positive.le) ordered done
  rwa [Int.zero_add] at ending

/-- A linear balance gives out what has vested and no more, however it is
withdrawn. -/
theorem linear_vesting {owner : AccountId} {amount : Asset}
    {beginTimestamp vestingCliffSeconds vestingDurationSeconds : UInt32}
    (fits : Share.fits amount.amount = true)
    (creating : createLinear owner amount beginTimestamp vestingCliffSeconds
      vestingDurationSeconds = .ok created)
    (done : FallibleRun.run performWithdraw created withdrawals = .ok object)
    {now : UInt32} (ordered : (timesUntil now withdrawals).Pairwise (· ≤ ·)) :
    let policy : LinearVestingPolicy := ⟨beginTimestamp, vestingCliffSeconds,
      vestingDurationSeconds, amount.amount⟩
    total withdrawals ≤ policy.vestedBy now ∧
      (∃ allowed, object.getAllowedWithdraw now = .ok allowed ∧ 0 ≤ allowed.amount ∧
        (∀ later, now ≤ later → ∃ more, object.getAllowedWithdraw later = .ok more ∧
            allowed.amount ≤ more.amount) ∧
        (beginTimestamp < now → vestingCliffSeconds.toNat ≤ now.toNat - beginTimestamp.toNat →
          vestingDurationSeconds.toNat ≤ now.toNat - beginTimestamp.toNat →
          allowed = object.balance)) ∧
      ∀ others other, FallibleRun.run performWithdraw created others = .ok other →
        (timesUntil now others).Pairwise (· ≤ ·) →
        total others = total withdrawals →
        ∀ time, other.getAllowedWithdraw time = object.getAllowedWithdraw time := by
  intro policy
  obtain ⟨withdrawn, covered⟩ := withdrawn_of_created fits creating done ordered
  refine ⟨covered, ⟨_, withdrawn.allowed covered, Int.sub_nonneg.mpr covered,
    fun later after => ?_, fun begun cliff ended => ?_⟩,
    fun others other doneToo orderedToo same time => ?_⟩
  · have more := LinearVestingPolicy.vestedBy_mono withdrawn.positive.le after
    refine ⟨_, withdrawn.allowed (covered.trans more), ?_⟩
    exact Int.sub_le_sub_right more _
  · have all : policy.vestedBy now = amount.amount := by
      rw [LinearVestingPolicy.vestedBy, if_pos ⟨begun, cliff⟩,
        LinearVestingPolicy.vested, if_neg (Nat.not_lt.mpr ended)]
    rw [withdrawn.same]
    change (⟨policy.vestedBy now - _, _⟩ : Asset) = _
    rw [all, add, withdrawn.full, Int.sub_eq_add_neg]
  · have otherwise := (withdrawn_of_created fits creating doneToo orderedToo).1.same
    rw [otherwise, same, ← withdrawn.same]

/-- An amount of `1000` vests over `100` seconds, with a cliff of `50`. -/
theorem linear_vesting_twice : ∃ created object, createLinear 7 ⟨1000, 0⟩ 10 50 100 = .ok created ∧
      FallibleRun.run performWithdraw created [(70, ⟨400, 0⟩), (90, ⟨300, 0⟩)] = .ok object ∧
      total [(70, ⟨400, 0⟩), (90, ⟨300, 0⟩)] ≤
        LinearVestingPolicy.vestedBy ⟨10, 50, 100, 1000⟩ 95 := by
  have reached : ∃ created object, createLinear 7 ⟨1000, 0⟩ 10 50 100 = .ok created ∧
      FallibleRun.run performWithdraw created [(70, ⟨400, 0⟩), (90, ⟨300, 0⟩)] = .ok object :=
    ⟨_, _, rfl, rfl⟩
  obtain ⟨created, object, creating, done⟩ := reached
  have ordered : (timesUntil 95 [(70, ⟨400, 0⟩), (90, ⟨300, 0⟩)]).Pairwise (· ≤ ·) := by decide
  exact ⟨created, object, creating, done, (linear_vesting (by decide) creating done ordered).1⟩

end VestingBalanceObject

end CocosChain.Chain.Vesting

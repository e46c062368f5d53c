import Mathlib.Algebra.Order.Group.Nat
import Mathlib.Data.Nat.ModEq

/-!
# The fee for registering an account

Within a maintenance interval the fee is scaled up each time a number of
accounts has been registered.  The maintenance undoes all of it by one shift
that it computes from the counter of the registrations.  The fee has 64 bits,
the counter 32; a shift by 64 bits or more has no meaning.
-/

namespace CocosChain.Chain

/-- The parameters of the scaling. -/
structure FeeScale where
  accountsPerFeeScale : Nat
  accountFeeScaleBitshifts : Nat
  positive : 0 < accountsPerFeeScale
  perScaleFits : accountsPerFeeScale < 2 ^ 16
  bitshiftsFit : accountFeeScaleBitshifts < 2 ^ 8

structure RegistrationFee where
  basicFee : Nat
  accountsRegisteredThisInterval : Nat
deriving DecidableEq

namespace RegistrationFee

variable (scale : FeeScale)

/-- An account is registered. -/
def accountCreate (fee : RegistrationFee) : Option RegistrationFee :=
  let registered := (fee.accountsRegisteredThisInterval + 1) % 2 ^ 32
  if registered % scale.accountsPerFeeScale = 0 then
    if scale.accountFeeScaleBitshifts < 64 then
      some ⟨fee.basicFee <<< scale.accountFeeScaleBitshifts % 2 ^ 64, registered⟩
    else none
  else some ⟨fee.basicFee, registered⟩

/-- The bits by which the maintenance shifts back. -/
def removedBits (registered : Nat) : Nat :=
  scale.accountFeeScaleBitshifts * (registered / scale.accountsPerFeeScale) % 2 ^ 32

/-- The maintenance removes the scaling. -/
def removeScaling (fee : RegistrationFee) : Option Nat :=
  let bits := removedBits scale fee.accountsRegisteredThisInterval
  if bits < 64 then some (fee.basicFee >>> bits) else none

/-- The fee after that many registrations of an interval. -/
def interval (basicFee : UInt64) : Nat → Option RegistrationFee
  | 0 => some ⟨basicFee.toNat, 0⟩
  | registrations + 1 =>
      (interval basicFee registrations).bind (accountCreate scale)

/-- The fee does not decrease within the interval, and the maintenance brings
it back. -/
def Undone (basicFee : UInt64) (registrations : Nat) : Prop :=
  (∀ earlier < registrations, ∃ before after, interval scale basicFee earlier = some before ∧
    accountCreate scale before = some after ∧
    before.basicFee ≤ after.basicFee) ∧
  ∃ last, interval scale basicFee registrations = some last ∧
    removeScaling scale last = some basicFee.toNat

/-- How often the fee is scaled. -/
def scalings : Nat → Nat
  | 0 => 0
  | registrations + 1 => scalings registrations +
      if (registrations + 1) % 2 ^ 32 % scale.accountsPerFeeScale = 0
      then 1 else 0

/-- The fee by exact integers. -/
def exactFee (basicFee : UInt64) (registrations : Nat) : Nat :=
  basicFee.toNat * 2 ^ (scale.accountFeeScaleBitshifts * scalings scale registrations)

/-- Every shift is by less than 64 bits, and none of the bits of the fee is
shifted out. -/
def ShiftsFit (basicFee : UInt64) (registrations : Nat) : Prop :=
  (scalings scale registrations = 0 ∨ scale.accountFeeScaleBitshifts < 64) ∧
  removedBits scale (registrations % 2 ^ 32) < 64 ∧
  exactFee scale basicFee registrations < 2 ^ 64

variable {scale} {basicFee : UInt64}

theorem interval_eq (registrations : Nat) : interval scale basicFee registrations =
      if scalings scale registrations = 0 ∨ scale.accountFeeScaleBitshifts < 64 then
        some ⟨exactFee scale basicFee registrations % 2 ^ 64, registrations % 2 ^ 32⟩
      else none := by
  induction registrations with
  | zero => simp [interval, exactFee, scalings, Nat.mod_eq_of_lt basicFee.toNat_lt]
  | succ registrations induction =>
    simp only [interval, induction, scalings, exactFee]
    by_cases scaled : (registrations + 1) % 2 ^ 32 % scale.accountsPerFeeScale = 0
    · simp only [if_pos scaled, Nat.add_one_ne_zero, false_or]
      by_cases small : scale.accountFeeScaleBitshifts < 64
      · simp only [small, or_true, if_true, Option.bind_some, accountCreate, Nat.mod_add_mod,
          if_pos scaled, Nat.shiftLeft_eq, Nat.mod_mul_mod, mul_add, mul_one, pow_add, mul_assoc]
      · simp only [small, or_false, if_false]
        split_ifs with never
        · simp only [Option.bind_some, accountCreate, Nat.mod_add_mod, if_pos scaled, if_neg small]
        · rfl
    · simp only [if_neg scaled, add_zero]
      split_ifs with defined
      · simp only [Option.bind_some, accountCreate, Nat.mod_add_mod, if_neg scaled]
      · rfl

theorem scalings_mono : Monotone (scalings scale) :=
  monotone_nat_of_le_succ fun registrations => by simp [scalings]

theorem exactFee_mono : Monotone (exactFee scale basicFee) := by
  intro earlier later before
  refine Nat.mul_le_mul_left _ (Nat.pow_le_pow_right (by decide) ?_)
  exact Nat.mul_le_mul_left _ (scalings_mono before)

theorem scalings_eq (few : registrations < 2 ^ 32) :
    scalings scale registrations = registrations / scale.accountsPerFeeScale := by
  induction registrations with
  | zero => simp [scalings]
  | succ registrations induction =>
    rw [scalings, induction (by omega), Nat.mod_eq_of_lt few, Nat.succ_div]
    simp only [Nat.dvd_iff_mod_eq_zero]

theorem few_of_scalings (few : scalings scale registrations < 64) : registrations < 2 ^ 32 := by
  by_contra many
  have most : scalings scale (2 ^ 32 - 1) ≤ scalings scale registrations := scalings_mono (by omega)
  have quotient : (2 ^ 32 - 1) / 2 ^ 16 ≤ (2 ^ 32 - 1) / scale.accountsPerFeeScale :=
    Nat.div_le_div_left scale.perScaleFits.le scale.positive
  rw [scalings_eq (by omega)] at most
  omega

theorem removedBits_eq (few : scale.accountFeeScaleBitshifts * scalings scale registrations < 64) :
    removedBits scale (registrations % 2 ^ 32) =
      scale.accountFeeScaleBitshifts * scalings scale registrations := by
  cases Nat.eq_zero_or_pos scale.accountFeeScaleBitshifts with
  | inl zero => simp [removedBits, zero]
  | inr positive =>
    have counted : registrations < 2 ^ 32 :=
      few_of_scalings ((Nat.le_mul_of_pos_left _ positive).trans_lt few)
    rw [removedBits, Nat.mod_eq_of_lt counted, ← scalings_eq counted]
    exact Nat.mod_eq_of_lt (few.trans (by decide))

/-- The shift at the maintenance undoes those of the interval exactly if they
lose no bit. -/
theorem shiftedBack_iff : (exactFee scale basicFee registrations % 2 ^ 64) >>>
        removedBits scale (registrations % 2 ^ 32) = basicFee.toNat ↔
      exactFee scale basicFee registrations < 2 ^ 64 := by
  rw [Nat.shiftRight_eq_div_pow, exactFee]
  cases Nat.lt_or_ge (scale.accountFeeScaleBitshifts * scalings scale registrations) 64 with
  | inl few =>
    rw [removedBits_eq few]
    generalize scale.accountFeeScaleBitshifts * scalings scale registrations = bits
    constructor
    · intro restored
      have kept := Nat.div_mul_le_self (basicFee.toNat * 2 ^ bits % 2 ^ 64) (2 ^ bits)
      rw [restored] at kept
      exact kept.trans_lt (Nat.mod_lt _ (by decide))
    · intro fits
      rw [Nat.mod_eq_of_lt fits, Nat.mul_div_cancel _ (Nat.two_pow_pos _)]
  | inr many =>
    have lost := Nat.mod_eq_zero_of_dvd ((Nat.pow_dvd_pow 2 many).mul_left basicFee.toNat)
    rw [lost, Nat.zero_div]
    constructor
    · intro zero
      simp [← zero]
    · intro fits
      rw [Nat.mod_eq_of_lt fits, Nat.mul_eq_zero] at lost
      exact (lost.resolve_right (Nat.two_pow_pos _).ne').symm

/-- The scaling of an interval is undone exactly if all shifts fit. -/
theorem scaling_undone_iff (scale : FeeScale) (basicFee : UInt64) (registrations : Nat) :
    Undone scale basicFee registrations ↔ ShiftsFit scale basicFee registrations := by
  constructor
  · rintro ⟨-, _, reached, restored⟩
    rw [interval_eq] at reached
    split_ifs at reached with meaningful
    cases reached
    simp only [removeScaling] at restored
    split_ifs at restored with defined
    exact ⟨meaningful, defined, shiftedBack_iff.mp (Option.some.inj restored)⟩
  · rintro ⟨meaningful, defined, fits⟩
    have reached : ∀ earlier ≤ registrations, interval scale basicFee earlier =
        some ⟨exactFee scale basicFee earlier, earlier % 2 ^ 32⟩ := by
      intro earlier before
      have fewer : scalings scale earlier ≤ scalings scale registrations := scalings_mono before
      rw [interval_eq, if_pos (meaningful.imp_left (by omega)),
        Nat.mod_eq_of_lt ((exactFee_mono before).trans_lt fits)]
    constructor
    · intro earlier before
      have next := reached (earlier + 1) before
      rw [interval, reached earlier before.le, Option.bind_some] at next
      exact ⟨_, _, reached earlier before.le, next, exactFee_mono (Nat.le_succ earlier)⟩
    · refine ⟨_, reached registrations le_rfl, ?_⟩
      rw [removeScaling, if_pos defined, ← shiftedBack_iff.mpr fits, Nat.mod_eq_of_lt fits]

/-- A fee of 5 coins is lost after twelve scalings by four bits. -/
theorem scaling_not_undone : ¬ Undone ⟨1, 4, by decide, by decide, by decide⟩ 500000 12 := by
  rintro ⟨-, _, reached, restored⟩
  cases reached
  exact absurd restored (by decide)

end RegistrationFee

end CocosChain.Chain

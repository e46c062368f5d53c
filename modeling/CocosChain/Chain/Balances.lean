import CocosChain.Chain.Price
import CocosChain.Library.Ledger

/-!
# Account balances

An account has a balance in each asset, of which a part may be locked.  Every
change of a balance goes through `adjustBalance`; what is locked stays in the
account.
-/

namespace CocosChain.Chain

structure Balances where
  amounts : Ledger (AccountId × Nat)
  /-- `asset_locked.locked_total` of the accounts; an asset that is not in
  the map counts as zero. -/
  lockedTotal : AccountId → Nat → Int

namespace Balances

def getBalance (balances : Balances) (account : AccountId) (assetId : Nat) : Int :=
  balances.amounts.amount (account, assetId)

/-- Without a balance object only a deposit is possible; a withdrawal is
covered by what is there and not locked. -/
def mayAdjust (balances : Balances) (account : AccountId) (delta : Asset) : Bool :=
  match balances.amounts.find? (account, delta.assetId) with
  | none => decide (0 < delta.amount)
  | some balance => decide (0 < delta.amount) ||
      decide (-delta.amount ≤ balance) &&
        decide (0 ≤ balances.lockedTotal account delta.assetId) &&
        decide (balances.lockedTotal account delta.assetId ≤ balance + delta.amount)

def adjustBalance (balances : Balances) (account : AccountId) (delta : Asset) : Option Balances :=
  if delta.amount = 0 then some balances
  else if balances.mayAdjust account delta then
    some { balances with
      amounts := balances.amounts.adjust (account, delta.assetId)
        delta.amount }
  else none

/-- The balances of all accounts in an asset. -/
def total (balances : Balances) (assetId : Nat) : Int :=
  balances.amounts.total fun key => key.2 == assetId

variable {balances : Balances}

section

variable (adjusted : balances.adjustBalance account delta = some after)
include adjusted

/-- What an adjustment that goes through does: it adds the amount, and it
takes only what is there and not locked. -/
theorem adjustBalance_spec :
    (after = { balances with
        amounts := balances.amounts.adjust (account, delta.assetId)
          delta.amount } ∨ (delta.amount = 0 ∧ after = balances)) ∧
      (delta.amount < 0 → 0 ≤ balances.getBalance account delta.assetId + delta.amount ∧
        0 ≤ balances.lockedTotal account delta.assetId ∧
        balances.lockedTotal account delta.assetId ≤
          balances.getBalance account delta.assetId + delta.amount) := by
  unfold adjustBalance at adjusted
  split at adjusted
  · rename_i nothing
    cases adjusted
    exact ⟨.inr ⟨nothing, rfl⟩, fun negative => by omega⟩
  · split at adjusted
    · rename_i permitted
      cases adjusted
      refine ⟨.inl rfl, ?_⟩
      intro negative
      have notPositive : ¬ 0 < delta.amount := by omega
      unfold mayAdjust at permitted
      cases held : balances.amounts.find? (account, delta.assetId) with
      | none => simp [held, notPositive] at permitted
      | some balance =>
        simp only [held, notPositive, decide_false, Bool.false_or,
          Bool.and_eq_true, decide_eq_true_eq] at permitted
        have reading : balances.getBalance account delta.assetId = balance := by
          simp [getBalance, Ledger.amount, held]
        omega
    · cases adjusted

theorem getBalance_adjustBalance (owner : AccountId) (assetId : Nat) :
    after.getBalance owner assetId = balances.getBalance owner assetId +
      if owner = account ∧ assetId = delta.assetId then delta.amount
      else 0 := by
  rcases (adjustBalance_spec adjusted).1 with rfl | ⟨nothing, rfl⟩
  · simp [getBalance, Ledger.amount_adjust]
  · simp [nothing]

theorem total_adjustBalance (assetId : Nat) : after.total assetId = balances.total assetId +
      if delta.assetId = assetId then delta.amount else 0 := by
  rcases (adjustBalance_spec adjusted).1 with rfl | ⟨nothing, rfl⟩
  · simp [total, Ledger.total_adjust]
  · simp [nothing]

end

theorem nonneg_adjustBalance (nonneg : balances.amounts.Nonneg)
    (adjusted : balances.adjustBalance account delta = some after) : after.amounts.Nonneg := by
  obtain ⟨result, covered⟩ := adjustBalance_spec adjusted
  rcases result with rfl | ⟨-, rfl⟩
  · apply nonneg.adjust
    by_cases negative : delta.amount < 0
    · exact (covered negative).1
    · have held : 0 ≤ balances.amounts.amount (account, delta.assetId) :=
        nonneg.amount
      omega
  · exact nonneg

end Balances

/-- What a transfer asks of the accounts and of the asset. -/
structure TransferRules where
  accountExists : AccountId → Bool
  issuer : Nat → AccountId
  isAuthorizedAsset : AccountId → Nat → Bool
  isTransferRestricted : Nat → Bool
  isWhiteList : Nat → Bool

end CocosChain.Chain

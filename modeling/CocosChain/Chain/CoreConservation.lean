import CocosChain.Chain.AssetConservation
import Mathlib.Algebra.BigOperators.Group.Finset.Basic

/-!
# Conservation of the core asset

Limit orders and fees move the core asset between balances, orders,
collateral, vesting balances and accumulated fees.  A limit order may also
trigger a global settlement, and then collateral goes to a settlement fund.
With the funds included, nothing is created and nothing is lost, as long as no
order with a deferred fee is cancelled: its fee has been accumulated when the
order was created, and it is paid out again when the order is cancelled.
-/

namespace CocosChain.Chain

/-- Orders are created or cancelled, fees are paid, or time goes on. -/
def MarketEvent.ConcernsOrders : MarketEvent → Prop
  | .limitOrderCreate _ => True
  | .limitOrderCancel _ => True
  | .payFee _ => True
  | .clearExpiredOrders => True
  | .advance _ => True
  | _ => False

namespace Market

variable {market : Market}

/-- The core asset in balances, limit orders, collateral, vesting balances and
accumulated fees. -/
def coreHeld (market : Market) : Int :=
  market.balances.total assetCore + market.limitOrders.total
      (fun order => order.amountForSale.countIn assetCore) +
    market.callOrders.total (fun call => call.getCollateral.countIn assetCore) +
    market.bids.total (fun bid => bid.invSwanPrice.base.countIn assetCore) +
    market.vestingBalances.total (fun key => key.2 == assetCore) +
    market.accumulatedFees assetCore

/-- The core asset in settlement funds. -/
def coreFunds (market : Market) : Int :=
  market.bitassets.total (fun bitasset =>
    Asset.countIn ⟨bitasset.settlementFund, bitasset.backing⟩ assetCore)

def performStep (market : Market) (step : MarketTerms × MarketEvent) : Outcome Market :=
  market.perform step.1 step.2

/-- The step cancels no order that has a deferred fee. -/
def RefundsNoFee (market : Market) (step : MarketTerms × MarketEvent) : Prop :=
  ∀ after, market.performStep step = .ok after → market.limitOrders.Forall fun id order =>
      after.cancelled.count id ≠ market.cancelled.count id → order.deferredFee.getD 0 = 0

theorem holdings_core (sound : WellFormed market)
    (plain : market.isMarketIssued assetCore = false) :
    market.holdings assetCore = market.coreHeld + market.coreFunds -
      market.vestingBalances.total (fun key => key.2 == assetCore) := by
  have settlements : market.settlements.total
      (fun settle => settle.balance.countIn assetCore) = 0 := by
    apply Table.total_eq_zero
    intro id settle listed
    exact countIn_other (sound.settlements id settle listed) plain
  simp only [holdings, coreHeld, coreFunds, settlements]
  omega

/-- The deferred fees of the orders that are there. -/
def deferredFees (market : Market) (id : Nat) : Int :=
  ((market.limitOrders.get id).bind LimitOrder.deferredFee).getD 0

theorem feesAre_deferredFees (market : Market) :
    FeesAre market.limitOrders market.deferredFees := by
  constructor
  · intro id order listed
    simp [deferredFees, listed]
  · intro id beyond
    have absent : market.limitOrders.get id = none := market.limitOrders.fresh id beyond
    simp [deferredFees, absent]

theorem sum_map_eq_of_count {first second : List Nat} {weight : Nat → Int}
    (light : ∀ id, second.count id ≠ first.count id → weight id = 0) :
    (second.map weight).sum = (first.map weight).sum := by
  have extend : ∀ list other : List Nat, (list.map weight).sum =
      ∑ id ∈ list.toFinset ∪ other.toFinset, list.count id • weight id := by
    intro list other
    rw [Finset.sum_list_map_count]
    apply Finset.sum_subset Finset.subset_union_left
    intro id _ absent
    rw [List.count_eq_zero_of_not_mem (by simpa using absent), zero_nsmul]
  rw [extend second first, extend first second, Finset.union_comm]
  apply Finset.sum_congr rfl
  intro id _
  by_cases same : second.count id = first.count id
  · rw [same]
  · rw [light id same, nsmul_zero, nsmul_zero]

theorem step_core (kind : step.2.ConcernsOrders) (performed : market.performStep step = .ok after) :
    ∃ middle id filled fee, Conserving market.deferredFees assetCore market middle ∧
      after = LimitOrderCreate.deferFee middle id filled fee := by
  have closed : StepClosed (Conserving market.deferredFees assetCore) :=
    stepClosed_conserving _ (by decide)
  have undeferred : ∀ {middle : Market}, Conserving market.deferredFees assetCore market middle →
      ∃ middle' id filled fee, Conserving market.deferredFees assetCore market middle' ∧
        middle = LimitOrderCreate.deferFee middle' id filled fee :=
    fun conserving => ⟨_, 0, true, none, conserving, rfl⟩
  obtain ⟨_, event⟩ := step
  cases event with
  | limitOrderCreate op => exact closed.limitOrderCreate performed
  | limitOrderCancel op =>
    exact undeferred (closed.limitOrderCancel performed)
  | payFee account =>
    simp only [performStep, perform, bind_eq_ok, pure_eq_ok, Prod.exists] at performed
    obtain ⟨_, _, payment, rfl⟩ := performed
    exact undeferred (closed.payFee payment)
  | clearExpiredOrders =>
    exact undeferred (closed.clearExpiredOrders performed)
  | advance time =>
    cases performed
    apply undeferred
    intro sound fees
    exact ⟨feedClosed_keepsForm.advance market time sound, fees, rfl, rfl, fun _ => rfl, rfl⟩
  | _ => cases kind

theorem core_step_conserved (sound : WellFormed market)
    (plain : market.isMarketIssued assetCore = false) (kind : step.2.ConcernsOrders)
    (unrefunded : market.RefundsNoFee step) (performed : market.performStep step = .ok after) :
    WellFormed after ∧ after.isMarketIssued assetCore = false ∧
      after.coreHeld + after.coreFunds = market.coreHeld + market.coreFunds ∧
      after.currentSupply assetCore = market.currentSupply assetCore := by
  obtain ⟨middle, id, filled, fee, conserving, deferred⟩ := step_core kind performed
  have kept := conserving sound fun _ => feesAre_deferredFees market
  obtain ⟨_, same, forSale⟩ := deferFee_spec middle id filled fee
  have wellFormed : WellFormed after := by
    rw [deferred]
    exact eventClosed_keepsForm.deferFee middle id filled fee kept.wellFormed
  have refunds : (after.cancelled.map market.deferredFees).sum =
      (market.cancelled.map market.deferredFees).sum := by
    apply sum_map_eq_of_count
    intro id changed
    cases listed : market.limitOrders.get id with
    | none => simp [deferredFees, listed]
    | some order =>
      have free := unrefunded after performed id order listed changed
      simpa [deferredFees, listed] using free
  rw [same] at deferred
  subst deferred
  have issued := kept.issued.trans plain
  refine ⟨wellFormed, issued, ?_, kept.supply plain⟩
  have between : middle.coreHeld + middle.coreFunds = market.coreHeld + market.coreFunds := by
    have excess := kept.excess
    simp only [net, holdings_core kept.wellFormed issued,
      holdings_core sound plain, kept.vesting, kept.supply plain, Market.refunds, if_pos] at excess
    have refundsHere : (middle.cancelled.map market.deferredFees).sum =
      (market.cancelled.map market.deferredFees).sum := refunds
    omega
  rw [← between]
  simp only [coreHeld, coreFunds, forSale]

/-- Without refunds of deferred fees, limit orders and fees leave the sum of
the core asset as it is, settlement funds included, in every state on the
way. -/
theorem core_conserved (market : Market) (steps : List (MarketTerms × MarketEvent))
    (sound : WellFormed market) (plain : market.isMarketIssued assetCore = false)
    (unrefunded : FallibleRun.Meets performStep (fun market step =>
      step.2.ConcernsOrders ∧ market.RefundsNoFee step) market steps) :
    FallibleRun.Throughout performStep (fun after =>
      after.coreHeld + after.coreFunds = market.coreHeld + market.coreFunds ∧
      (market.coreHeld + market.coreFunds ≤ market.currentSupply assetCore →
        after.coreHeld + after.coreFunds ≤ after.currentSupply assetCore))
      market steps := by
  have throughout : FallibleRun.Throughout performStep (fun after =>
      WellFormed after ∧ after.isMarketIssued assetCore = false ∧
        after.coreHeld + after.coreFunds = market.coreHeld + market.coreFunds ∧
        after.currentSupply assetCore = market.currentSupply assetCore)
      market steps := by
    apply FallibleRun.throughout_of_step _ ⟨sound, plain, rfl, rfl⟩ unrefunded
    rintro _ _ _ ⟨soundHere, plainHere, held, supply⟩ ⟨kind, unrefundedHere⟩ performed
    obtain ⟨soundNext, plainNext, heldNext, supplyNext⟩ :=
      core_step_conserved soundHere plainHere kind unrefundedHere performed
    exact ⟨soundNext, plainNext, heldNext.trans held, supplyNext.trans supply⟩
  apply throughout.mono
  rintro _ ⟨-, -, held, supply⟩
  refine ⟨held, fun bound => ?_⟩
  rw [held, supply]
  exact bound

theorem refundsNoFee_of_rows
    (free : market.limitOrders.rows.all (fun row => row.2.deferredFee.getD 0 == 0) = true) :
    market.RefundsNoFee step := by
  intro after _ id order listed _
  have member := List.all_eq_true.mp free (id, order) (Table.mem_rows.mpr listed)
  simpa using member

/-- Account `11` offers some of asset `2`, and takes the offer back. -/
def offerAndCancel : List (MarketTerms × MarketEvent) :=
  [sell 11 50 60, (MarketTerms.free, .limitOrderCancel ⟨0, 11⟩)]

theorem core_conserved_offer : ∃ created market after,
      (newBitasset assetCore).perform MarketTerms.free fundedGenesis = .ok created ∧
      created.run (offers []) = .ok market ∧
      FallibleRun.run performStep market offerAndCancel = .ok after ∧
      after.coreHeld + after.coreFunds = market.coreHeld + market.coreFunds := by
  have reached : ∃ created market middle after,
      Created created ∧ created.run (offers []) = .ok market ∧
      market.performStep (sell 11 50 60) = .ok middle ∧
      FallibleRun.run performStep market offerAndCancel = .ok after ∧
      market.isMarketIssued assetCore = false ∧
      market.limitOrders.rows.all (fun row => row.2.deferredFee.getD 0 == 0) = true ∧
      middle.limitOrders.rows.all (fun row => row.2.deferredFee.getD 0 == 0) = true :=
    ⟨_, _, _, _, rfl, rfl, rfl, rfl, by decide +kernel, by decide +kernel, by decide +kernel⟩
  obtain ⟨created, market, middle, after, performed, history, offered, done,
    plain, free, freeNext⟩ := reached
  refine ⟨created, market, after, performed, history, done, ?_⟩
  have sound : WellFormed market := feedClosed_keepsForm.run history (wellFormed_created performed)
  refine ((core_conserved market offerAndCancel sound plain ?_).atEnd done).1
  intro next first
  refine ⟨⟨trivial, refundsNoFee_of_rows free⟩, fun last second => ?_⟩
  have same : next = middle := by
    rw [offered] at first
    cases first
    rfl
  rw [same]
  exact ⟨⟨trivial, refundsNoFee_of_rows freeNext⟩, trivial⟩

/-- The price of asset `2` falls, but not so far that the positions are not
covered any more. -/
def almostUncovered : List (MarketTerms × MarketEvent) := offers [publish 5 9 1750]

/-- An offer above the settlement price makes the asset be settled, and the
collateral goes to the fund.  No order is cancelled. -/
theorem offer_settles_asset : ∃ created market after,
      (newBitasset assetCore).perform MarketTerms.free fundedGenesis = .ok created ∧
      created.run almostUncovered = .ok market ∧
      market.performStep (sell 11 50 105) = .ok after ∧
      after.cancelled = [] ∧ market.coreHeld = 2000000 ∧
      after.coreHeld = 1999640 := by
  refine ⟨_, _, _, rfl, rfl, rfl, by decide +kernel, by decide +kernel, by decide +kernel⟩

end Market

end CocosChain.Chain

import CocosChain.Chain.MarginCallExhaustion

/-!
# Conservation of assets

What there is of an asset is in balances, in limit orders, in force
settlements, in the collateral of call orders and bids, in settlement funds
and in accumulated fees.  The market moves amounts between these places, and
where it creates or burns a market-issued asset it changes the supply with it.
Only the refund of a deferred fee comes from nowhere; refunds are counted
apart.
-/

namespace CocosChain.Chain

open Table

/-- The amount, if it is in the given asset. -/
def Asset.countIn (asset : Asset) (assetId : Nat) : Int :=
  if asset.assetId = assetId then asset.amount else 0

namespace Market

/-- What the market holds in an asset, vesting balances apart. -/
def holdings (market : Market) (assetId : Nat) : Int :=
  market.balances.total assetId + market.limitOrders.total
      (fun order => order.amountForSale.countIn assetId) +
    market.settlements.total (fun settle => settle.balance.countIn assetId) +
    market.callOrders.total (fun call => call.getCollateral.countIn assetId) +
    market.bids.total (fun bid => bid.invSwanPrice.base.countIn assetId) +
    market.bitassets.total (fun bitasset =>
      Asset.countIn ⟨bitasset.settlementFund, bitasset.backing⟩ assetId) +
    market.accumulatedFees assetId

/-- The refunds so far, if the fees of the orders were these. -/
def refunds (market : Market) (fee : Nat → Int) (assetId : Nat) : Int :=
  if assetId = assetCore then (market.cancelled.map fee).sum else 0

def net (market : Market) (fee : Nat → Int) (assetId : Nat) : Int :=
  market.holdings assetId - market.refunds fee assetId

/-- The limit orders have these deferred fees, and later ones have none. -/
structure FeesAre (orders : Table LimitOrder) (fee : Nat → Int) : Prop where
  listed : orders.Forall fun id order => order.deferredFee.getD 0 = fee id
  later : ∀ id, orders.next ≤ id → fee id = 0

theorem FeesAre.remove (fees : FeesAre orders fee) (id : Nat) : FeesAre (orders.remove id) fee :=
  ⟨fees.listed.remove, fees.later⟩

theorem FeesAre.create (fees : FeesAre orders fee) (free : order.deferredFee = none) :
    FeesAre (orders.create order) fee := by
  constructor
  · apply fees.listed.create
    rw [free]
    exact (fees.later _ (Nat.le_refl _)).symm
  · intro id beyond
    exact fees.later id (Nat.le_of_succ_le beyond)

theorem FeesAre.modify (fees : FeesAre orders fee) {id : Nat}
    (same : ∀ order, (change order).deferredFee = order.deferredFee) :
    FeesAre (orders.modify id change) fee := by
  refine ⟨fees.listed.modify ?_, fees.later⟩
  intro order held
  rw [same order]
  exact fees.listed id order held

variable {market middle : Market} {id : Nat}

theorem total_adjustBalance_countIn {balances : Balances}
    (done : balances.adjustBalance account delta = some adjusted) :
    adjusted.total assetId = balances.total assetId + delta.countIn assetId :=
  Balances.total_adjustBalance done assetId

theorem accumulatedFees_addFees : (market.addFees feeAsset fees).accumulatedFees assetId =
      market.accumulatedFees assetId + Asset.countIn ⟨fees, feeAsset⟩ assetId := by
  simp only [addFees, Asset.countIn, eq_comm]
  split
  · rfl
  · exact (add_zero _).symm

theorem currentSupply_addSupply :
    (market.addSupply supplied delta).currentSupply assetId = market.currentSupply assetId +
        Asset.countIn ⟨delta, supplied⟩ assetId := by
  simp only [addSupply, Asset.countIn, eq_comm]
  split
  · rfl
  · exact (add_zero _).symm

theorem countIn_add : Asset.countIn ⟨first + second, kind⟩ assetId =
      Asset.countIn ⟨first, kind⟩ assetId + Asset.countIn ⟨second, kind⟩ assetId := by
  simp only [Asset.countIn]
  split
  · rfl
  · rfl

theorem countIn_sub : Asset.countIn ⟨first - second, kind⟩ assetId =
      Asset.countIn ⟨first, kind⟩ assetId - Asset.countIn ⟨second, kind⟩ assetId := by
  simp only [Asset.countIn]
  split
  · rfl
  · rfl

theorem countIn_neg : Asset.countIn ⟨-amount, kind⟩ assetId =
      -Asset.countIn ⟨amount, kind⟩ assetId := by
  simp only [Asset.countIn]
  split
  · rfl
  · rfl

theorem countIn_eta {asset : Asset} : Asset.countIn ⟨asset.amount, asset.assetId⟩ assetId =
      asset.countIn assetId := rfl

theorem countIn_zero : Asset.countIn ⟨0, kind⟩ assetId = 0 := by
  simp [Asset.countIn]

theorem total_received {balances : Balances} {receives : Asset} (assetId : Nat)
    (done : balances.adjustBalance account ⟨receives.amount - charged, receives.assetId⟩ =
      some received) : received.total assetId = balances.total assetId +
      (receives.countIn assetId - Asset.countIn ⟨charged, receives.assetId⟩ assetId) := by
  rw [total_adjustBalance_countIn done, countIn_sub, countIn_eta]

section

variable (fees : assetId = assetCore → FeesAre market.limitOrders fee)
include fees

/-- Cancelling gives back what the order offers, and the fee as a refund. -/
theorem cancelLimitOrder_net (done : market.cancelLimitOrder id = .ok after) :
    after.net fee assetId = market.net fee assetId := by
  obtain ⟨order, _, _, listed, returned, given, rfl⟩ := cancelLimitOrder_spec done
  simp only [net, holdings, refunds, total_remove listed,
    total_adjustBalance_countIn given, total_adjustBalance_countIn returned]
  by_cases core : assetId = assetCore
  · have known : order.deferredFee.getD 0 = fee id :=
      (fees core).listed id order listed
    simp only [core, if_true, List.map_cons, List.sum_cons, Asset.countIn, known]
    omega
  · have other : assetCore ≠ assetId := fun same => core same.symm
    simp only [core, other, if_false, Asset.countIn]
    omega

theorem maybeCullSmallOrder_net (done : market.maybeCullSmallOrder id = .ok (culled, after)) :
    after.net fee assetId = market.net fee assetId := by
  obtain ⟨_, _, -, -, ⟨-, -, cancelled⟩ | ⟨-, -, rfl⟩⟩ := maybeCullSmallOrder_cases done
  · exact cancelLimitOrder_net fees cancelled
  · rfl

theorem fillLimitOrder_net (nonneg : 0 ≤ receives.amount)
    (done : market.fillLimitOrder id pays receives cull = .ok (filled, after)) :
    after.net fee assetId = market.net fee assetId -
      pays.countIn assetId + receives.countIn assetId := by
  obtain ⟨order, _, charged, balances, listed, base, -, paid, received,
    settled⟩ := fillLimitOrder_spec done
  obtain rfl := paid.2 nonneg
  have balance := total_received assetId received
  obtain ⟨all, -, rfl⟩ | ⟨_, reduced, isReduced, rest⟩ := settleLimitOrder_cases settled
  · simp only [net, holdings, refunds, total_remove listed, balance, accumulatedFees_addFees, ← all]
    omega
  · have between : reduced.net fee assetId = market.net fee assetId -
        pays.countIn assetId + receives.countIn assetId := by
      rw [isReduced]
      simp only [net, holdings, refunds, total_modify listed, balance, accumulatedFees_addFees]
      simp only [LimitOrder.amountForSale, base, countIn_sub, countIn_eta]
      omega
    rcases rest with ⟨-, -, rfl⟩ | ⟨-, culled⟩
    · exact between
    · rw [maybeCullSmallOrder_net _ culled, between]
      intro core
      rw [isReduced]
      exact (fees core).modify fun _ => rfl

end

theorem fillLimitOrder_fees (fees : FeesAre market.limitOrders fee)
    (done : market.fillLimitOrder id pays receives cull = .ok (filled, after)) :
    FeesAre after.limitOrders fee := by
  obtain ⟨-, _, -, -, -, removed | ⟨-, reduced⟩⟩ := fillLimitOrder_frame done
  · rw [removed]
    exact fees.remove id
  · rw [reduced]
    exact fees.modify fun _ => rfl

theorem tradeAmounts_nonneg {usd core : LimitOrder} (usdSound : usd.WellFormed)
    (coreSound : core.WellFormed)
    (amounts : tradeAmounts usd.amountForSale core.amountForSale price = some
      (usdReceives, coreReceives)) : 0 ≤ usdReceives.amount ∧ 0 ≤ coreReceives.amount := by
  simp only [tradeAmounts, Option.bind_eq_bind, Option.bind_eq_some_iff] at amounts
  obtain ⟨_, worth, amounts⟩ := amounts
  split at amounts
  · cases amounts
  · split at amounts
    · simp only [Option.bind_eq_some_iff] at amounts
      obtain ⟨_, given, rest⟩ := amounts
      cases rest
      exact ⟨Asset.times_nonneg given, usdSound.forSale.le⟩
    · cases amounts
      exact ⟨coreSound.forSale.le, Asset.times_nonneg worth⟩

theorem fillCallOrder_net (fee : Nat → Int) (assetId : Nat)
    (done : market.fillCallOrder id pays receives = .ok (closed, after)) :
    after.net fee assetId = market.net fee assetId - pays.countIn assetId ∧
      after.currentSupply assetId = market.currentSupply assetId - receives.countIn assetId := by
  obtain ⟨order, listed, -, base, -, ways⟩ := fillCallOrder_spec done
  have held : order.getCollateral.countIn assetId =
      Asset.countIn ⟨order.collateral, pays.assetId⟩ assetId := by
    rw [CallOrder.getCollateral, base]
  have burnt : (market.addSupply receives.assetId (-receives.amount)).currentSupply assetId =
      market.currentSupply assetId - receives.countIn assetId := by
    rw [currentSupply_addSupply, countIn_neg, countIn_eta]
    omega
  rcases ways with ⟨-, -, _, freed, rfl⟩ | ⟨-, -, rfl⟩
  · refine ⟨?_, burnt⟩
    simp only [net, holdings, refunds, total_remove listed, held,
      total_adjustBalance_countIn freed, countIn_sub, countIn_eta]
    omega
  · refine ⟨?_, burnt⟩
    simp only [net, holdings, refunds, total_modify listed]
    simp only [CallOrder.getCollateral, base, countIn_sub, countIn_eta]
    omega

/-- A fill of a force settlement that pays no more than there is. -/
theorem fillSettlement_net (nonneg : 0 ≤ receives.amount)
    (most : ∀ settle, market.settlements.get id = some settle → pays.amount ≤ settle.balance.amount)
    (done : market.fillSettlement id pays receives = .ok (filled, after)) :
    after.net fee assetId = market.net fee assetId -
        pays.countIn assetId + receives.countIn assetId ∧
      after.currentSupply assetId = market.currentSupply assetId := by
  obtain ⟨settle, _, charged, balances, listed, asset, paid, received,
    rfl⟩ := fillSettlement_spec done
  obtain rfl := paid.2 nonneg
  have balance := total_received assetId received
  have whole : settle.balance.countIn assetId =
      Asset.countIn ⟨settle.balance.amount, pays.assetId⟩ assetId := by
    rw [asset, countIn_eta]
  refine ⟨?_, rfl⟩
  simp only [net, holdings, refunds, balance, accumulatedFees_addFees]
  split
  · simp only [total_modify listed, countIn_sub, ← asset, countIn_eta, whole]
    omega
  · rename_i all
    have amount : settle.balance.amount = pays.amount :=
      le_antisymm (not_lt.mp all) (most settle listed)
    have all : settle.balance.countIn assetId = pays.countIn assetId := by
      rw [whole, amount, countIn_eta]
    rw [total_remove listed, all]
    omega

structure Conserves (fee : Nat → Int) (assetId : Nat) (market after : Market) : Prop where
  wellFormed : WellFormed after
  fees : assetId = assetCore → FeesAre after.limitOrders fee
  excess : after.net fee assetId - after.currentSupply assetId =
    market.net fee assetId - market.currentSupply assetId
  issued : after.isMarketIssued assetId = market.isMarketIssued assetId
  supply : market.isMarketIssued assetId = false →
    after.currentSupply assetId = market.currentSupply assetId
  vesting : after.vestingBalances.total (fun key => key.2 == assetId) =
    market.vestingBalances.total (fun key => key.2 == assetId)

/-- The step conserves the asset in well-formed markets. -/
def Conserving (fee : Nat → Int) (assetId : Nat) (market after : Market) : Prop :=
  WellFormed market → (assetId = assetCore → FeesAre market.limitOrders fee) →
    Conserves fee assetId market after

theorem Conserves.trans (first : Conserves fee assetId market middle)
    (second : Conserves fee assetId middle after) : Conserves fee assetId market after where
  wellFormed := second.wellFormed
  fees := second.fees
  excess := second.excess.trans first.excess
  issued := second.issued.trans first.issued
  supply plain := (second.supply (first.issued.trans plain)).trans (first.supply plain)
  vesting := second.vesting.trans first.vesting

/-- What keeps the orders, the supply and the vesting balances conserves the
asset if it holds as much of it as before. -/
theorem Conserves.of_kept (fees : assetId = assetCore → FeesAre market.limitOrders fee)
    (wellFormed : WellFormed after)
    (issued : after.isMarketIssued assetId = market.isMarketIssued assetId)
    (net : after.net fee assetId = market.net fee assetId)
    (supply : after.currentSupply assetId = market.currentSupply assetId)
    (vesting : after.vestingBalances.total (fun key => key.2 == assetId) =
      market.vestingBalances.total (fun key => key.2 == assetId))
    (orders : after.limitOrders = market.limitOrders) : Conserves fee assetId market after := by
  refine ⟨wellFormed, fun core => ?_, ?_, issued, fun _ => supply, vesting⟩
  · rw [orders]
    exact fees core
  · rw [net, supply]

theorem SameButOrders.currentSupply (same : SameButOrders market after) :
    after.currentSupply = market.currentSupply := by
  rw [same]

theorem SameButOrders.vestingBalances (same : SameButOrders market after) :
    after.vestingBalances = market.vestingBalances := by
  rw [same]

theorem cancelLimitOrder_conserving (done : market.cancelLimitOrder id = .ok after) :
    Conserving fee assetId market after := by
  intro sound fees
  obtain ⟨same, removed⟩ := cancelLimitOrder_frame done
  refine ⟨tradeClosed_keepsForm.cancelLimitOrder done sound, ?_, ?_,
    (cancelLimitOrder_same done).sameTerms.isMarketIssued assetId, ?_, ?_⟩
  · intro core
    rw [removed]
    exact (fees core).remove id
  · rw [cancelLimitOrder_net fees done, same.currentSupply]
  · intro _
    rw [same.currentSupply]
  · rw [same.vestingBalances]

theorem matchLimitOrders_conserving
    (done : market.matchLimitOrders usdId coreId price = .ok (filled, after)) :
    Conserving fee assetId market after := by
  intro sound fees
  have same := matchLimitOrders_frame done
  obtain ⟨_, core, _, _, middle, usdListed,
    coreListed, -, amounts, -, -, -, first, second⟩ := matchLimitOrders_spec done
  obtain ⟨usdNonneg, coreNonneg⟩ := tradeAmounts_nonneg
    (sound.orders _ _ usdListed) (sound.orders _ _ coreListed) amounts
  have feesBetween : assetId = assetCore → FeesAre middle.limitOrders fee :=
    fun core => fillLimitOrder_fees (fees core) first
  refine ⟨matchLimitOrders_wellFormed sound done, ?_, ?_,
    (matchLimitOrders_same done).sameTerms.isMarketIssued assetId, ?_, ?_⟩
  · intro core
    exact fillLimitOrder_fees (feesBetween core) second
  · rw [same.currentSupply, fillLimitOrder_net feesBetween coreNonneg second,
      fillLimitOrder_net fees usdNonneg first]
    omega
  · intro _
    rw [same.currentSupply]
  · rw [same.vestingBalances]

theorem countIn_other {asset : Asset} (issued : market.isMarketIssued asset.assetId = true)
    (plain : market.isMarketIssued assetId = false) : asset.countIn assetId = 0 := by
  have other : asset.assetId ≠ assetId := by
    intro same
    rw [same, plain] at issued
    cases issued
  rw [Asset.countIn, if_neg other]

theorem fillCallOrder_frame_supply (assetId : Nat) (sound : WellFormed market)
    (done : market.fillCallOrder id pays receives = .ok (closed, after)) :
    (market.isMarketIssued assetId = false →
        after.currentSupply assetId = market.currentSupply assetId) ∧
      after.vestingBalances = market.vestingBalances ∧
      after.limitOrders = market.limitOrders := by
  have supply := (fillCallOrder_net (fun _ => 0) assetId done).2
  obtain ⟨_, listed, debt, -, -, ways⟩ := fillCallOrder_spec done
  refine ⟨fun plain => ?_, ?_, (fillCallOrder_frame done).1⟩
  · have issued : market.isMarketIssued receives.assetId = true := by
      rw [← debt, isMarketIssued_eq, (sound.calls _ _ listed).1]
      rfl
    rw [supply, countIn_other issued plain]
    omega
  · rcases ways with ⟨-, -, _, -, rfl⟩ | ⟨-, -, rfl⟩
    · rfl
    · rfl

theorem marginCall_conserving (listed : market.limitOrders.get limitId = some order)
    (done : market.marginCall callId limitId call order = .ok (usedUp, after)) :
    Conserving fee assetId market after := by
  intro sound fees
  obtain ⟨_, middle, _, _, _, first, second, worth, -⟩ := marginCall_cases done
  have nonneg := Asset.times_nonneg worth
  have same := (fillLimitOrder_frame second).1
  obtain ⟨supply, vesting, orders⟩ := fillCallOrder_frame_supply assetId sound first
  obtain ⟨net, burnt⟩ := fillCallOrder_net fee assetId first
  have feesBetween : assetId = assetCore → FeesAre middle.limitOrders fee := by
    intro core
    rw [orders]
    exact fees core
  refine ⟨marginCall_wellFormed sound listed done, ?_, ?_,
    (marginCall_same done).sameTerms.isMarketIssued assetId, ?_, ?_⟩
  · intro core
    exact fillLimitOrder_fees (feesBetween core) second
  · rw [same.currentSupply, burnt, fillLimitOrder_net feesBetween nonneg second, net]
    omega
  · intro plain
    rw [same.currentSupply]
    exact supply plain
  · rw [same.vestingBalances, vesting]

theorem kinds_rest (kinds : ∀ other ∈ id :: rest, ∀ call, market.callOrders.get other = some
      call → call.debtType = mia) (removed : middle.callOrders = market.callOrders.remove id) :
    ∀ other ∈ rest, ∀ call, middle.callOrders.get other = some call → call.debtType = mia := by
  intro other member call there
  rw [removed, get_remove] at there
  split at there
  · cases there
  · exact kinds other (List.mem_cons_of_mem _ member) call there

theorem closeCallOrders_net (fee : Nat → Int) (assetId : Nat)
    (kinds : ∀ id ∈ ids, ∀ call, market.callOrders.get id = some call → call.debtType = mia)
    (done : closeCallOrders backing price ids start market = .ok (gathered, after)) :
    after.net fee assetId = market.net fee assetId -
        Asset.countIn ⟨gathered - start, backing⟩ assetId ∧
      (assetId ≠ mia → after.currentSupply assetId = market.currentSupply assetId) ∧
      after.vestingBalances = market.vestingBalances ∧
      after.limitOrders = market.limitOrders := by
  induction ids generalizing start market with
  | nil =>
    cases done
    simp [countIn_zero]
  | cons id rest induction =>
    obtain ⟨call, value, middle, listed, -, backed, filled, removed, later⟩ :=
      closeCallOrders_cons done
    obtain ⟨net, supply⟩ := fillCallOrder_net fee assetId filled
    have kind := kinds id List.mem_cons_self call listed
    have orders := (fillCallOrder_frame filled).1
    obtain ⟨netLater, supplyLater, vestingLater, ordersLater⟩ :=
      induction (kinds_rest kinds removed) later
    have vesting : middle.vestingBalances = market.vestingBalances := by
      obtain ⟨_, -, -, -, -, ⟨-, -, _, -, rfl⟩ | ⟨-, -, rfl⟩⟩ :=
        fillCallOrder_spec filled
      · rfl
      · rfl
    refine ⟨?_, ?_, vestingLater.trans vesting, ordersLater.trans orders⟩
    · rw [netLater, net]
      have split : ∀ paid : Int, Asset.countIn ⟨gathered - start, backing⟩ assetId =
            Asset.countIn ⟨paid, backing⟩ assetId +
              Asset.countIn ⟨gathered - (start + paid), backing⟩
                assetId := by
        intro paid
        rw [← countIn_add]
        congr 2
        omega
      rw [split (Min.min value.amount call.collateral), backed]
      omega
    · intro other
      have elsewhere : call.getDebt.countIn assetId = 0 := by
        rw [Asset.countIn, if_neg]
        intro same
        exact other (same.symm.trans kind)
      omega

theorem globallySettleAsset_conserving (done : market.globallySettleAsset mia price = .ok after) :
    Conserving fee assetId market after := by
  intro sound fees
  have same := globallySettleAsset_same done
  have wellFormed := globallySettleAsset_wellFormed sound done
  obtain ⟨bitasset, _, middle, held, unsettled, -, closed, rfl⟩ :=
    globallySettleAsset_spec done
  have backed := backingOf_of_held held
  have kinds := callRange_kinds sound backed
  obtain ⟨net, supply, vesting, orders⟩ := closeCallOrders_net fee assetId kinds closed
  have still : middle.bitassets.get mia = some bitasset := by
    rw [(closeCallOrders_same closed).bitassets]
    exact held
  have supplies : (if assetId = mia then market.currentSupply mia
      else middle.currentSupply assetId) =
      market.currentSupply assetId := by
    split
    · rename_i here
      rw [here]
    · rename_i elsewhere
      exact supply elsewhere
  refine .of_kept fees wellFormed (same.isMarketIssued assetId) ?_ supplies ?_ orders
  · rw [sub_zero] at net
    simp only [Market.net, holdings, refunds, total_modify still] at net ⊢
    simp only [BitassetData.settlementFund, unsettled, Option.elim_none,
      Option.elim_some, countIn_zero, BitassetData.backing] at net ⊢
    omega
  · rw [vesting]

theorem Conserving.trans (first : Conserving fee assetId market middle)
    (second : Conserving fee assetId middle after) : Conserving fee assetId market after := by
  intro sound fees
  have before := first sound fees
  exact before.trans (second before.wellFormed before.fees)

theorem Conserving.refl (market : Market) : Conserving fee assetId market market :=
  fun sound fees => ⟨sound, fees, rfl, rfl, fun _ => rfl, rfl⟩

theorem marginClosed_conserving (fee : Nat → Int) (assetId : Nat) :
    MarginClosed (Conserving fee assetId) where
  refl := Conserving.refl
  trans := Conserving.trans
  marginCall _ listed done := marginCall_conserving listed done
  globallySettleAsset := globallySettleAsset_conserving

section

variable (notGas : assetId ≠ assetGas)
include notGas

theorem creditFee_net (market : Market) (account : AccountId) (fee : Nat → Int)
    (kind : charge.assetId = assetCore ∨ charge.assetId = assetGas) :
    (market.creditFee account charge).net fee assetId =
        market.net fee assetId + charge.countIn assetId ∧
      (market.creditFee account charge).vestingBalances.total (fun key => key.2 == assetId) =
        market.vestingBalances.total (fun key => key.2 == assetId) := by
  unfold creditFee
  split
  · rename_i core
    refine ⟨?_, rfl⟩
    have credited : (market.addFees assetCore charge.amount).accumulatedFees
        assetId = market.accumulatedFees assetId + charge.countIn assetId := by
      rw [accumulatedFees_addFees, ← core, countIn_eta]
    simp only [net, holdings, credited]
    simp only [addFees, refunds]
    omega
  · rename_i notCore
    have gas : charge.assetId = assetGas := kind.resolve_left notCore
    have other : assetId ≠ charge.assetId := by
      rw [gas]
      exact notGas
    have nothing : charge.countIn assetId = 0 := by
      rw [Asset.countIn, if_neg other.symm]
    rw [nothing, add_zero]
    unfold depositCashback
    split
    · exact ⟨rfl, rfl⟩
    · refine ⟨rfl, ?_⟩
      rw [Ledger.total_adjust]
      simp [other.symm]

/-- A fee in GAS or the core asset leaves other assets alone, and moves the
core asset from a balance to the fees. -/
theorem takeFee_net (kind : charge.assetId = assetCore ∨ charge.assetId = assetGas)
    (taken : market.takeFee account charge = .ok after) :
    after.net fee assetId = market.net fee assetId ∧
      after.vestingBalances.total (fun key => key.2 == assetId) =
        market.vestingBalances.total (fun key => key.2 == assetId) := by
  have credited := creditFee_net notGas market account fee kind
  obtain ⟨balances, paid, rfl⟩ := adjustBalance_eq_ok.mp taken
  refine ⟨?_, credited.2⟩
  have moved : net { market.creditFee account charge with balances } fee
      assetId = (market.creditFee account charge).net fee assetId - charge.countIn assetId := by
    simp only [net, holdings, refunds, total_adjustBalance_countIn paid, countIn_neg, countIn_eta]
    omega
  rw [moved, credited.1]
  omega

theorem payFee_net (rated : market.GasRated)
    (paid : market.payFee terms account coreFee = .ok (charge, after)) :
    after.net fee assetId = market.net fee assetId ∧
      after.vestingBalances.total (fun key => key.2 == assetId) =
        market.vestingBalances.total (fun key => key.2 == assetId) := by
  simp only [payFee, bind_eq_ok, found_eq_ok] at paid
  obtain ⟨gas, listed, rate, priced, paid⟩ := paid
  split at paid
  · cases paid
    exact ⟨rfl, rfl⟩
  · split at paid
    · simp only [bind_eq_ok, pure_eq_ok, Prod.mk.injEq] at paid
      obtain ⟨middle, first, -, rfl⟩ := paid
      exact takeFee_net notGas (.inr rfl) first
    · simp only [bind_eq_ok, pure_eq_ok, Prod.mk.injEq, Prod.exists] at paid
      obtain ⟨_, _, mixed, -, rfl⟩ := paid
      simp only [payMixedFee] at mixed
      split at mixed
      · simp only [bind_eq_ok, found_eq_ok, pure_eq_ok, Prod.mk.injEq] at mixed
        obtain ⟨between, first, requireCore, converted, _, second, -, rfl⟩ := mixed
        have kind : requireCore.assetId = assetCore ∨ requireCore.assetId = assetGas := by
          have bounds := rated gas rate listed priced
          unfold Asset.times at converted
          split at converted
          · obtain ⟨-, -, -, rfl⟩ := scale_eq_some.mp converted
            exact bounds rate.quote (.inr rfl)
          · split at converted
            · obtain ⟨-, -, -, rfl⟩ := scale_eq_some.mp converted
              exact bounds rate.base (.inl rfl)
            · cases converted
        obtain ⟨firstNet, firstVesting⟩ := takeFee_net notGas (.inr rfl) first
        obtain ⟨secondNet, secondVesting⟩ := takeFee_net notGas kind second
        exact ⟨secondNet.trans firstNet, secondVesting.trans firstVesting⟩
      · simp only [bind_eq_ok, pure_eq_ok, Prod.mk.injEq] at mixed
        obtain ⟨_, first, -, rfl⟩ := mixed
        exact takeFee_net notGas (.inl rfl) first

theorem payFee_conserving (paid : market.payFee terms account coreFee = .ok (charge, after)) :
    Conserving fee assetId market after := by
  intro sound fees
  have same := payFee_frame paid
  have supplies : after.currentSupply = market.currentSupply := by
    rw [same]
  have orders : after.limitOrders = market.limitOrders := by
    rw [same]
  obtain ⟨net, vesting⟩ := payFee_net notGas sound.gasRate paid
  exact .of_kept fees (eventClosed_keepsForm.payFee paid sound)
    (same.sameAssets.sameTerms.isMarketIssued assetId) net
    (congrFun supplies assetId) vesting orders

end

theorem place_conserving {op : LimitOrderCreate} (valid : op.validate = true)
    (evaluated : op.evaluate terms market = true) (done : op.place market = .ok after) :
    Conserving fee assetId market after := by
  intro sound fees
  have same := (place_same done).sameTerms
  have wellFormed := eventClosed_keepsForm.placeOrder valid evaluated done sound
  obtain ⟨_, taken, rfl⟩ := LimitOrderCreate.place_spec done
  refine ⟨wellFormed, fun core => (fees core).create rfl, ?_,
    same.isMarketIssued assetId, fun _ => rfl, rfl⟩
  have offered : op.order.amountForSale = op.amountToSell := rfl
  simp only [net, holdings, refunds, total_create, offered,
    total_adjustBalance_countIn taken, countIn_neg, countIn_eta]
  omega

theorem adjust_supply {op : CallOrderUpdate}
    (done : op.adjust bitasset market = .ok (placed, after)) (assetId : Nat) :
    after.currentSupply assetId = market.currentSupply assetId + op.deltaDebt.countIn assetId := by
  obtain ⟨_, _, -, -, adjusted⟩ := CallOrderUpdate.adjust_spec done
  obtain ⟨_, rfl⟩ := adjusted.frame
  exact currentSupply_addSupply

/-- What the collateral of an account weighs grows by what is added to it. -/
theorem adjusted_collateral {op : CallOrderUpdate} (weigh : AccountId → Asset → Int)
    (add : ∀ account first (asset : Asset), weigh account ⟨first + asset.amount, asset.assetId⟩ =
      weigh account ⟨first, asset.assetId⟩ + weigh account asset)
    (adjusted : op.Adjusted bitasset market placed after)
    (secured : ∀ id old, CallOrderUpdate.find market op.fundingAccount op.deltaDebt.assetId =
      some (id, old) → old.callPrice.base.assetId = op.deltaCollateral.assetId) :
    after.callOrders.total (fun call => weigh call.borrower call.getCollateral) =
      market.callOrders.total (fun call => weigh call.borrower call.getCollateral) +
        weigh op.fundingAccount op.deltaCollateral := by
  cases adjusted with
  | opened _ _ _ priced =>
    show (market.callOrders.create _).total _ = _
    rw [total_create, CallOrder.getCollateral, (Price.callPrice_assets priced).1]
  | @changed id old _ known _ _ priced =>
    obtain ⟨listed, owner, -⟩ := find_eq_some market known
    show (market.callOrders.modify id _).total _ = _
    rw [total_modify listed]
    simp only [CallOrder.getCollateral, (Price.callPrice_assets priced).1, secured id old known,
      owner, add]
    omega
  | @closed id old known empty _ =>
    obtain ⟨listed, owner, -⟩ := find_eq_some market known
    show (market.callOrders.remove id).total _ = _
    rw [total_remove listed, CallOrder.getCollateral, secured id old known, owner]
    have nothing := add op.fundingAccount 0 ⟨0, op.deltaCollateral.assetId⟩
    have sum := add op.fundingAccount old.collateral op.deltaCollateral
    rw [empty] at sum
    rw [add_zero] at nothing
    omega

theorem adjust_conserving {op : CallOrderUpdate}
    (held : market.bitassets.get op.deltaDebt.assetId = some bitasset)
    (evaluated : op.evaluate bitasset market = true)
    (done : op.adjust bitasset market = .ok (placed, after)) :
    Conserving fee assetId market after := by
  intro sound fees
  have same := (adjust_same done).sameTerms
  have wellFormed := adjust_wellFormed sound held evaluated done
  obtain ⟨_, balances, given, taken, adjusted⟩ := CallOrderUpdate.adjust_spec done
  have balance : balances.total assetId = market.balances.total assetId +
      op.deltaDebt.countIn assetId - op.deltaCollateral.countIn assetId := by
    simp only [total_adjustBalance_countIn taken,
      total_adjustBalance_countIn given, countIn_neg, countIn_eta]
    omega
  have supply := adjust_supply done assetId
  have total := adjusted_collateral (fun _ asset => asset.countIn assetId)
    (fun _ _ _ => countIn_add) adjusted fun _ _ known => find_secured sound held evaluated known
  obtain ⟨_, rfl⟩ := adjusted.frame
  refine ⟨wellFormed, fees, ?_, same.isMarketIssued assetId, fun plain => ?_, rfl⟩
  · simp only [CallOrderUpdate.moved] at total supply
    simp only [net, holdings, refunds, CallOrderUpdate.moved, total, balance, supply]
    omega
  · have kind : market.isMarketIssued op.deltaDebt.assetId = true := by
      simp [isMarketIssued, held]
    rw [supply, countIn_other kind plain]
    omega

/-- Nothing is moved between assets, and nothing but balances and bids is
touched. -/
structure MovesBids (fee : Nat → Int) (assetId : Nat) (market after : Market) : Prop where
  net : after.net fee assetId = market.net fee assetId
  supply : after.currentSupply = market.currentSupply
  vesting : after.vestingBalances = market.vestingBalances
  limitOrders : after.limitOrders = market.limitOrders
  callOrders : after.callOrders = market.callOrders
  counters : after.totalCoreInOrders = market.totalCoreInOrders
  freed : after.freed = market.freed

theorem cancelBid_net (done : market.cancelBid id = .ok after) :
    MovesBids fee assetId market after := by
  obtain ⟨_, _, listed, returned, rfl⟩ := cancelBid_spec done
  refine ⟨?_, rfl, rfl, rfl, rfl, rfl, rfl⟩
  simp only [net, holdings, refunds, total_remove listed, total_adjustBalance_countIn returned]
  omega

theorem cancelBids_net (fee : Nat → Int) (assetId : Nat)
    (done : cancelBids ids market = .ok after) : MovesBids fee assetId market after := by
  refine cancelBids_closed (MovesBids fee assetId)
    (fun _ => ⟨rfl, rfl, rfl, rfl, rfl, rfl, rfl⟩) ?_ cancelBid_net done
  intro market middle after first second
  exact ⟨second.net.trans first.net, second.supply.trans first.supply,
    second.vesting.trans first.vesting, second.limitOrders.trans first.limitOrders,
    second.callOrders.trans first.callOrders, second.counters.trans first.counters,
    second.freed.trans first.freed⟩

theorem cancelBidsAndRevive_net (fee : Nat → Int) (assetId : Nat)
    (held : market.bitassets.get mia = some bitasset)
    (done : market.cancelBidsAndRevive mia = .ok after) :
    after.net fee assetId = market.net fee assetId - Asset.countIn
        ⟨bitasset.settlementFund, bitasset.backing⟩ assetId ∧
      after.currentSupply = market.currentSupply ∧
      after.vestingBalances = market.vestingBalances ∧
      after.limitOrders = market.limitOrders := by
  obtain ⟨_, middle, cancelled, rfl⟩ := cancelBidsAndRevive_spec done
  obtain ⟨net, supply, vesting, orders, -, -⟩ := cancelBids_net fee assetId cancelled
  have still : middle.bitassets.get mia = some bitasset := by
    rw [(cancelBids_same cancelled).bitassets]
    exact held
  refine ⟨?_, supply, vesting, orders⟩
  rw [← net]
  simp only [Market.net, holdings, refunds, total_modify still]
  simp only [BitassetData.settlementFund, BitassetData.backing, Option.elim_none, countIn_zero]
  omega

theorem bidsExecuted_net (fee : Nat → Int) (assetId : Nat)
    (executed : BidsExecuted mia backing feed debt fund market after) :
    after.net fee assetId = market.net fee assetId + Asset.countIn ⟨fund, backing⟩ assetId ∧
      after.currentSupply = market.currentSupply ∧
      after.vestingBalances = market.vestingBalances ∧
      after.limitOrders = market.limitOrders := by
  induction executed with
  | none => simp [countIn_zero]
  | next listed _ asset _ step _ induction =>
    obtain ⟨_, _, listed', priced, -, rfl⟩ := executeBid_spec step
    rw [listed] at listed'
    cases listed'
    obtain ⟨net, supply, vesting, orders⟩ := induction
    refine ⟨?_, supply, vesting, orders⟩
    rw [net, countIn_add]
    have base := (Price.callPrice_assets priced).1
    simp only [Market.net, holdings, refunds, total_create,
      total_remove listed, CallOrder.getCollateral, base]
    rw [countIn_add, ← asset, countIn_eta]
    omega

theorem reviveBitasset_conserving (done : market.reviveBitasset mia = .ok after) :
    Conserving fee assetId market after := by
  intro sound fees
  have wellFormed := reviveBitasset_wellFormed sound done
  have issued := (reviveBitasset_same done).isMarketIssued assetId
  obtain ⟨bitasset, settlement, start, middle, held, settled, ways,
    revived⟩ := reviveBitasset_cases done
  have fund : bitasset.settlementFund = settlement.fund := by
    simp [BitassetData.settlementFund, settled]
  have between : middle.net fee assetId = market.net fee assetId +
        Asset.countIn ⟨settlement.fund, bitasset.backing⟩ assetId ∧
      middle.currentSupply = market.currentSupply ∧
      middle.vestingBalances = market.vestingBalances ∧ middle.limitOrders = market.limitOrders ∧
      middle.bitassets = market.bitassets := by
    rcases ways with ⟨-, spent, -, rfl⟩ | ⟨supplied, ⟨issuer, rfl⟩, executed⟩
    · simp [spent, countIn_zero]
    · obtain ⟨net, supply, vesting, orders⟩ :=
        bidsExecuted_net fee assetId executed
      refine ⟨?_, supply, vesting, orders, ?_⟩
      · rw [net]
        simp only [Market.net, holdings, refunds, total_create, countIn_zero]
        omega
      · have backed := backingOf_of_held held
        have rated := (sound.ratios mia bitasset held).current.ratio
        have start := sound.issuerBid supplied issuer bitasset.backing
        exact (bidsExecuted_wellFormed start backed rated executed).2.bitassets
  obtain ⟨net, supply, vesting, orders, bitassets⟩ := between
  have there : middle.bitassets.get mia = some bitasset := by
    rw [bitassets]
    exact held
  obtain ⟨netLater, supplyLater, vestingLater, ordersLater⟩ :=
    cancelBidsAndRevive_net fee assetId there revived
  refine .of_kept fees wellFormed issued ?_ ?_ ?_ (ordersLater.trans orders)
  · rw [netLater, net, fund]
    omega
  · rw [supplyLater, supply]
  · rw [vestingLater, vesting]

theorem processBids_conserving
    (held : market.bitassets.get mia = some { bitasset with forceSettledVolume
      := 0 }) (settled : bitasset.settlement = some settlement)
    (done : market.processBids mia bitasset settlement = .ok after) :
    Conserving fee assetId market after := by
  intro sound fees
  have wellFormed := processBids_wellFormed sound held done
  have issued := (processBids_same done).isMarketIssued assetId
  rcases processBids_cases sound.bids done with rfl | ⟨middle, executed, revived⟩
  · exact ⟨sound, fees, rfl, rfl, fun _ => rfl, rfl⟩
  · have backed := backingOf_of_held held
    have rated : 0 < bitasset.currentFeed.maintenanceCollateralRatio :=
      (sound.ratios mia _ held).current.ratio
    have there : middle.bitassets.get mia = some { bitasset with forceSettledVolume := 0 } := by
      rw [(bidsExecuted_wellFormed sound backed rated executed).2.bitassets]
      exact held
    have fund : BitassetData.settlementFund
        { bitasset with forceSettledVolume := 0 } = settlement.fund := by
      simp [BitassetData.settlementFund, settled]
    obtain ⟨net, supply, vesting, orders⟩ := bidsExecuted_net fee assetId executed
    obtain ⟨netLater, supplyLater, vestingLater, ordersLater⟩ :=
      cancelBidsAndRevive_net fee assetId there revived
    refine .of_kept fees wellFormed issued ?_ ?_ ?_ (ordersLater.trans orders)
    · rw [netLater, net, fund]
      simp only [BitassetData.backing]
      omega
    · rw [supplyLater, supply]
    · rw [vestingLater, vesting]

theorem settle_conserving {op : AssetSettle} (nonneg : 0 ≤ op.amount.amount)
    (held : market.bitassets.get op.amount.assetId = some bitasset)
    (done : op.apply bitasset market = .ok after) : Conserving fee assetId market after := by
  intro sound fees
  have wellFormed := eventClosed_keepsForm.settle nonneg held done sound
  have issued := (settle_same done).isMarketIssued assetId
  obtain ⟨_, taken, ⟨-, _, rfl⟩ | ⟨settlement, settled, _,
    fundHeld, amount, given, rfl⟩⟩ := AssetSettle.apply_cases done
  · refine ⟨wellFormed, fees, ?_, issued, fun _ => rfl, rfl⟩
    simp only [net, holdings, refunds, total_create,
      total_adjustBalance_countIn taken, countIn_neg, countIn_eta]
    omega
  · have asset := (AssetSettle.settledAmount_spec amount).1
    have fund : bitasset.settlementFund = settlement.fund := by
      simp [BitassetData.settlementFund, fundHeld]
    have supply : (market.addSupply op.amount.assetId (-op.amount.amount)).currentSupply assetId =
        market.currentSupply assetId - op.amount.countIn assetId := by
      rw [currentSupply_addSupply, countIn_neg, countIn_eta]
      omega
    have paidOut : Asset.countIn ⟨settled.amount, bitasset.backing⟩ assetId =
        settled.countIn assetId := by
      rw [← asset, countIn_eta]
    refine ⟨wellFormed, fees, ?_, issued, ?_, rfl⟩
    · simp only [net, holdings, refunds, total_modify held, fund, supply,
        total_adjustBalance_countIn given, total_adjustBalance_countIn taken,
        countIn_neg, countIn_eta]
      simp only [BitassetData.settlementFund, BitassetData.backing,
        Option.elim_some, countIn_sub] at paidOut ⊢
      omega
    · intro plain
      have kind : market.isMarketIssued op.amount.assetId = true := by
        simp [isMarketIssued, held]
      rw [supply, countIn_other kind plain]
      omega

theorem modifyBitasset_conserving
    (options : ∀ bitasset, (change bitasset).options = bitasset.options)
    (settlement : ∀ bitasset, (change bitasset).settlement = bitasset.settlement)
    (form : KeepsForm market { market with
      bitassets := market.bitassets.modify mia change }) :
    Conserving fee assetId market { market with
      bitassets := market.bitassets.modify mia change } := by
  intro sound fees
  have funds : (market.bitassets.modify mia change).total (fun bitasset =>
        Asset.countIn ⟨bitasset.settlementFund, bitasset.backing⟩ assetId) =
      market.bitassets.total (fun bitasset =>
        Asset.countIn ⟨bitasset.settlementFund, bitasset.backing⟩ assetId) := by
    apply total_modify_of_same
    intro bitasset _
    simp only [BitassetData.settlementFund, BitassetData.backing,
      options bitasset, settlement bitasset]
  refine ⟨form sound, fees, ?_, ?_, fun _ => rfl, rfl⟩
  · simp only [net, holdings, refunds, funds]
  · simp only [isMarketIssued, get_modify]
    split
    · rename_i here
      simp [here]
    · rfl

theorem matchSettlement_conserving (some : 0 < most)
    (done : market.matchSettlement callId settleId price most = .ok (amount, after)) :
    Conserving fee assetId market after := by
  intro sound fees
  have wellFormed := eventClosed_keepsForm.matchSettlement some done sound
  have issued := (matchSettlement_same done).sameTerms.isMarketIssued assetId
  obtain ⟨_, _, _, _, middle, _, -, listed, -, -, least,
    worth, -, first, second⟩ := matchSettlement_spec done
  obtain ⟨supply, vesting, orders⟩ := fillCallOrder_frame_supply assetId sound first
  obtain ⟨net, burnt⟩ := fillCallOrder_net fee assetId first
  have settlements := (fillCallOrder_frame first).2.2.1
  obtain ⟨sameOrders, sameVesting⟩ : after.limitOrders = middle.limitOrders ∧
      after.vestingBalances = middle.vestingBalances := by
    obtain ⟨_, _, _, _, -, -, -, -, rfl⟩ := fillSettlement_spec second
    exact ⟨rfl, rfl⟩
  obtain ⟨netLater, supplyLater⟩ := fillSettlement_net
    (Asset.times_nonneg worth) (fun other there => by
      rw [settlements, listed] at there
      cases there
      exact least.le.trans ((min_le_left _ _).trans (min_le_left _ _))) second
  refine ⟨wellFormed, ?_, ?_, issued, ?_, ?_⟩
  · intro core
    rw [sameOrders, orders]
    exact fees core
  · rw [netLater, net, supplyLater, burnt]
    omega
  · intro plain
    rw [supplyLater]
    exact supply plain
  · rw [sameVesting, vesting]

/-- Every step of the market conserves every asset but GAS, refunds apart. -/
theorem stepClosed_conserving (fee : Nat → Int) (notGas : assetId ≠ assetGas) :
    StepClosed (Conserving fee assetId) where
  refl := Conserving.refl
  trans := Conserving.trans
  cancelLimitOrder := cancelLimitOrder_conserving
  matchLimitOrders := matchLimitOrders_conserving
  checkCallOrders := (marginClosed_conserving fee assetId).checkCallOrders
  globallySettleAsset := globallySettleAsset_conserving
  payFee := payFee_conserving notGas
  placeOrder := place_conserving
  adjustCallOrder _ := adjust_conserving
  cancelBid done sound fees := by
    have moved : MovesBids fee assetId _ _ := cancelBid_net done
    refine .of_kept fees (eventClosed_keepsForm.cancelBid done sound)
      ((cancelBid_same done).sameTerms.isMarketIssued assetId) moved.net ?_ ?_ moved.limitOrders
    · rw [moved.supply]
    · rw [moved.vesting]
  placeBid valid held asset done sound fees := by
    have wellFormed := eventClosed_keepsForm.placeBid valid held asset done sound
    have same := (placeBid_same done).sameTerms
    obtain ⟨balances, -, taken, rfl⟩ := BidCollateral.placeBid_spec done
    refine ⟨wellFormed, fees, ?_, same.isMarketIssued assetId, fun _ => rfl, rfl⟩
    simp only [net, holdings, refunds, total_create,
      total_adjustBalance_countIn taken, countIn_neg, countIn_eta]
    omega
  settle := settle_conserving
  cancelSettlement done sound fees := by
    have wellFormed := eventClosed_keepsForm.cancelSettlement done sound
    have same := (cancelSettlement_same done).sameTerms
    obtain ⟨_, _, listed, returned, rfl⟩ := cancelSettlement_spec done
    refine ⟨wellFormed, fees, ?_, same.isMarketIssued assetId, fun _ => rfl, rfl⟩
    simp only [net, holdings, refunds, total_remove listed, total_adjustBalance_countIn returned]
    omega
  matchSettlement := matchSettlement_conserving
  setVolume market mia volume :=
    modifyBitasset_conserving (fun _ => rfl) (fun _ => rfl)
      (eventClosed_keepsForm.setVolume market mia volume)
  reviveBitasset := reviveBitasset_conserving
  processBids := processBids_conserving

/-- A deferred fee is noted in the order and moved by nobody. -/
theorem deferFee_spec (market : Market) (id : Nat) (filled : Bool) (fee : Option Asset) :
    ∃ orders : Table LimitOrder, LimitOrderCreate.deferFee market id filled fee =
        { market with limitOrders := orders } ∧
      ∀ assetId, orders.total (fun order => order.amountForSale.countIn assetId) =
          market.limitOrders.total (fun order => order.amountForSale.countIn assetId) := by
  unfold LimitOrderCreate.deferFee
  split
  · split
    · exact ⟨_, rfl, fun _ => total_modify_of_same fun _ _ => rfl⟩
    · exact ⟨_, rfl, fun _ => rfl⟩
  · exact ⟨_, rfl, fun _ => rfl⟩

theorem eventClosed_conserving (notGas : assetId ≠ assetGas) (notCore : assetId ≠ assetCore) :
    EventClosed (Conserving (fun _ => 0) assetId) where
  toStepClosed := stepClosed_conserving _ notGas
  deferFee market id filled fee sound _ := by
    have wellFormed := eventClosed_keepsForm.deferFee market id filled fee sound
    obtain ⟨_, same, held⟩ := deferFee_spec market id filled fee
    rw [same] at wellFormed ⊢
    refine ⟨wellFormed, fun core => absurd core notCore, ?_, rfl, fun _ => rfl, rfl⟩
    simp only [net, holdings, refunds, held assetId]

theorem feedClosed_conserving (notGas : assetId ≠ assetGas) (notCore : assetId ≠ assetCore) :
    FeedClosed (Conserving (fun _ => 0) assetId) where
  toEventClosed := eventClosed_conserving notGas notCore
  publishFeed valid held evaluated := by
    apply modifyBitasset_conserving
    · intro bitasset
      simp [AssetPublishFeed.change]
    · intro bitasset
      simp [AssetPublishFeed.change]
    · exact feedClosed_keepsForm.publishFeed valid held evaluated
  updateProducers market op := by
    apply modifyBitasset_conserving
    · intro bitasset
      simp [AssetUpdateFeedProducers.change]
    · intro bitasset
      simp [AssetUpdateFeedProducers.change]
    · exact feedClosed_keepsForm.updateProducers market op
  expire market mia :=
    modifyBitasset_conserving (fun _ => by simp) (fun _ => by simp)
      (feedClosed_keepsForm.expire market mia)
  advance market time sound fees :=
    ⟨feedClosed_keepsForm.advance market time sound, fees, rfl, rfl, fun _ => rfl, rfl⟩

/-- Whatever happens in the market, it holds as much of an asset other than
core and GAS as there is of it. -/
theorem other_assets_conserved {events : List (MarketTerms × MarketEvent)}
    (sound : WellFormed market)
    (conserved : ∀ assetId, assetId ≠ assetCore → assetId ≠ assetGas →
      market.holdings assetId = market.currentSupply assetId)
    (ran : market.run events = .ok after) :
    WellFormed after ∧ ∀ assetId, assetId ≠ assetCore → assetId ≠ assetGas →
        after.holdings assetId = after.currentSupply assetId := by
  refine ⟨feedClosed_keepsForm.run ran sound, ?_⟩
  intro assetId notCore notGas
  have closed := feedClosed_conserving notGas notCore
  have excess := (closed.run ran sound fun core => absurd core notCore).excess
  simp only [net, refunds, if_neg notCore, conserved assetId notCore notGas] at excess
  omega

/-- The price of asset `2` falls, first so that positions are called, then so
that they are not covered any more. -/
def fallingPrice : List (MarketTerms × MarketEvent) :=
  offers [sell 11 50 60, publish 4 5 1750, publish 1 8 1750,
    (MarketTerms.free, .assetSettle ⟨11, ⟨20, 2⟩⟩)]

theorem holdings_created
    (performed : (newBitasset backing).perform MarketTerms.free fundedGenesis = .ok created)
    (notCore : assetId ≠ assetCore) : created.holdings assetId = created.currentSupply assetId := by
  simp only [AssetCreate.perform, AssetCreate.apply, bind_eq_ok,
    ensure_eq_ok, pure_eq_ok, Prod.exists] at performed
  obtain ⟨-, -, -, -, _, ⟨-, -, rfl⟩, _, _, payment, rfl⟩ := performed
  cases payment
  simp [holdings, fundedGenesis, genesis, Market.empty, Balances.total,
    Ledger.total, total_append, newBitasset, AssetCreate.bitasset,
    BitassetData.settlementFund, countIn_zero, notCore.symm, notCore]
  exact ite_self _

theorem other_assets_conserved_falling : ∃ created after,
      (newBitasset assetCore).perform MarketTerms.free fundedGenesis = .ok created ∧
      created.run fallingPrice = .ok after ∧ after.currentSupply 2 = 130 ∧
      after.holdings 2 = 130 := by
  have reached : ∃ created after, Created created ∧ created.run fallingPrice = .ok after ∧
      after.currentSupply 2 = 130 :=
    ⟨_, _, rfl, rfl, by decide +kernel⟩
  obtain ⟨created, after, performed, history, supply⟩ := reached
  refine ⟨created, after, performed, history, supply, ?_⟩
  have kept := (other_assets_conserved (wellFormed_created performed) ?_
    history).2 2 (by decide) (by decide)
  · rw [kept, supply]
  · intro assetId notCore _
    exact holdings_created performed notCore

end Market

end CocosChain.Chain

import CocosChain.Chain.WellFormedMarket

/-!
# Amounts are never negative

Balances, force settlements, collateral, settlement funds and market fees stay
at or above zero, whatever happens in the market.
-/

namespace CocosChain.Chain

open Balances

namespace Market

structure Nonnegative (market : Market) : Prop where
  balances : market.balances.amounts.Nonneg
  settlements : market.settlements.Forall fun _ settle =>
    0 ≤ settle.balance.amount
  collateral : market.callOrders.Forall fun _ call => 0 ≤ call.collateral
  funds : market.bitassets.Forall fun _ bitasset =>
    0 ≤ bitasset.settlementFund
  fees : ∀ assetId, assetId ≠ assetCore → 0 ≤ market.accumulatedFees assetId

def KeepsNonnegative (market after : Market) : Prop := Nonnegative market → Nonnegative after

variable {id : Nat}

theorem Nonnegative.withBalances {balances : Balances} {cancelled : List Nat}
    {bids : Table CollateralBid} (sound : Nonnegative market) (nonneg : balances.amounts.Nonneg) :
    Nonnegative { market with
      balances
      totalCoreInOrders := core
      limitOrders := orders
      bids
      headBlockTime := time
      cancelled } :=
  ⟨nonneg, sound.settlements, sound.collateral, sound.funds, sound.fees⟩

theorem nonnegative_addFees (sound : Nonnegative market) (nonneg : 0 ≤ charged)
    (notCore : assetId ≠ assetCore) :
    0 ≤ (market.addFees feeAsset charged).accumulatedFees assetId := by
  have before := sound.fees assetId notCore
  simp only [addFees]
  split
  · omega
  · exact before

theorem cancelLimitOrder_nonnegative (done : market.cancelLimitOrder id = .ok after) :
    KeepsNonnegative market after := by
  intro sound
  obtain ⟨_, balances, _, -, returned, refund, rfl⟩ := cancelLimitOrder_spec done
  exact sound.withBalances (nonneg_adjustBalance
    (nonneg_adjustBalance sound.balances returned) refund)

theorem maybeCullSmallOrder_nonnegative
    (done : market.maybeCullSmallOrder id = .ok (culled, after)) :
    KeepsNonnegative market after := by
  obtain ⟨_, _, -, -, ⟨-, -, cancelled⟩ | ⟨-, -, rfl⟩⟩ := maybeCullSmallOrder_cases done
  · exact cancelLimitOrder_nonnegative cancelled
  · exact fun sound => sound

theorem fillLimitOrder_nonnegative
    (done : market.fillLimitOrder id pays receives cull = .ok (filled, after)) :
    KeepsNonnegative market after := by
  intro sound
  obtain ⟨_, _, charged, balances, -, -, -, ⟨nonneg, -⟩, paid, settled⟩ := fillLimitOrder_spec done
  have balance := nonneg_adjustBalance sound.balances paid
  have charge : ∀ assetId, assetId ≠ assetCore →
      0 ≤ (market.addFees receives.assetId charged).accumulatedFees assetId :=
    fun _ => nonnegative_addFees sound nonneg
  obtain ⟨-, -, rfl⟩ | ⟨-, _, rfl, ⟨-, -, rfl⟩ | ⟨-, culled⟩⟩ :=
    settleLimitOrder_cases settled
  · exact ⟨balance, sound.settlements, sound.collateral, sound.funds, charge⟩
  · exact ⟨balance, sound.settlements, sound.collateral, sound.funds, charge⟩
  · exact maybeCullSmallOrder_nonnegative culled ⟨balance, sound.settlements,
      sound.collateral, sound.funds, charge⟩

theorem fillCallOrder_nonnegative
    (done : market.fillCallOrder id pays receives = .ok (closed, after)) :
    KeepsNonnegative market after := by
  intro sound
  obtain ⟨order, listed, -, -, _, ⟨-, -, balances, freed, rfl⟩ |
    ⟨-, -, rfl⟩⟩ := fillCallOrder_spec done
  · exact ⟨nonneg_adjustBalance sound.balances freed,
      sound.settlements, sound.collateral.remove, sound.funds, sound.fees⟩
  · refine ⟨sound.balances, sound.settlements, sound.collateral.modify ?_, sound.funds, sound.fees⟩
    intro call here
    rw [listed] at here
    cases here
    show 0 ≤ order.collateral - pays.amount
    omega

theorem fillSettlement_nonnegative
    (done : market.fillSettlement id pays receives = .ok (filled, after)) :
    KeepsNonnegative market after := by
  intro sound
  obtain ⟨settle, _, _, balances, listed, -, ⟨nonneg, -⟩, received, rfl⟩ := fillSettlement_spec done
  refine ⟨nonneg_adjustBalance sound.balances received, ?_,
    sound.collateral, sound.funds, fun _ => nonnegative_addFees sound nonneg⟩
  show Table.Forall (if _ then _ else _) _
  split
  · rename_i less
    apply sound.settlements.modify
    intro other here
    rw [listed] at here
    cases here
    show 0 ≤ settle.balance.amount - pays.amount
    omega
  · exact sound.settlements.remove

theorem closeCallOrders_nonnegative
    (done : closeCallOrders backing price ids start market = .ok (gathered, after))
    (sound : Nonnegative market) : Nonnegative after ∧ start ≤ gathered := by
  induction ids generalizing start market with
  | nil =>
    cases done
    exact ⟨sound, Int.le_refl _⟩
  | cons id rest induction =>
    obtain ⟨call, value, _, listed, worth, -, filled, -, later⟩ := closeCallOrders_cons done
    obtain ⟨soundLater, _⟩ := induction later (fillCallOrder_nonnegative filled sound)
    refine ⟨soundLater, ?_⟩
    have collateral : 0 ≤ call.collateral := sound.collateral id call listed
    have pays : 0 ≤ Min.min value.amount call.collateral :=
      le_min (Asset.times_nonneg worth) collateral
    omega

theorem globallySettleAsset_nonnegative (done : market.globallySettleAsset mia price = .ok after) :
    KeepsNonnegative market after := by
  intro sound
  obtain ⟨bitasset, _, _, -, -, -, closed, rfl⟩ := globallySettleAsset_spec done
  obtain ⟨between, nonneg⟩ := closeCallOrders_nonnegative closed sound
  refine ⟨between.balances, between.settlements, between.collateral, ?_, between.fees⟩
  apply between.funds.modify
  intro bitasset _
  exact nonneg

theorem marginClosed_keepsNonnegative : MarginClosed KeepsNonnegative where
  refl _ sound := sound
  trans first second sound := second (first sound)
  marginCall _ _ done sound := by
    obtain ⟨_, _, _, _, _, first, second, -⟩ := marginCall_cases done
    exact fillLimitOrder_nonnegative second (fillCallOrder_nonnegative first sound)
  globallySettleAsset := globallySettleAsset_nonnegative

theorem tradeClosed_keepsNonnegative : TradeClosed KeepsNonnegative where
  __ := marginClosed_keepsNonnegative
  cancelLimitOrder := cancelLimitOrder_nonnegative
  matchLimitOrders done sound := by
    obtain ⟨_, _, _, _, _, -, -, -, -, -, -, -, first, second⟩ := matchLimitOrders_spec done
    exact fillLimitOrder_nonnegative second (fillLimitOrder_nonnegative first sound)
  checkCallOrders := marginClosed_keepsNonnegative.checkCallOrders

theorem takeFee_nonnegative (taken : market.takeFee account fee = .ok after) :
    KeepsNonnegative market after := by
  intro sound
  have credited : Nonnegative (market.creditFee account fee) := by
    unfold creditFee
    split
    · refine ⟨sound.balances, sound.settlements, sound.collateral,
        sound.funds, fun assetId notCore => ?_⟩
      simp only [addFees, if_neg notCore]
      exact sound.fees assetId notCore
    · unfold depositCashback
      split
      · exact sound
      · exact ⟨sound.balances, sound.settlements, sound.collateral, sound.funds, sound.fees⟩
  obtain ⟨balances, adjusted, rfl⟩ := adjustBalance_eq_ok.mp taken
  exact ⟨nonneg_adjustBalance credited.balances adjusted,
    credited.settlements, credited.collateral, credited.funds, credited.fees⟩

theorem adjust_nonnegative {op : CallOrderUpdate}
    (done : op.adjust bitasset market = .ok (placed, after)) : KeepsNonnegative market after := by
  intro sound
  obtain ⟨_, balances, given, taken, adjusted⟩ := CallOrderUpdate.adjust_spec done
  have balance := nonneg_adjustBalance (nonneg_adjustBalance sound.balances given) taken
  cases adjusted with
  | opened _ positive _ _ =>
    exact ⟨balance, sound.settlements, sound.collateral.create positive.le, sound.funds, sound.fees⟩
  | changed _ positive _ _ =>
    refine ⟨balance, sound.settlements, sound.collateral.modify ?_, sound.funds, sound.fees⟩
    intro _ _
    exact positive.le
  | closed _ _ _ =>
    exact ⟨balance, sound.settlements, sound.collateral.remove, sound.funds, sound.fees⟩

theorem cancelBid_nonnegative (done : market.cancelBid id = .ok after) :
    KeepsNonnegative market after := by
  intro sound
  obtain ⟨_, balances, -, returned, rfl⟩ := cancelBid_spec done
  exact sound.withBalances (nonneg_adjustBalance sound.balances returned)

theorem cancelBidsAndRevive_nonnegative (done : market.cancelBidsAndRevive mia = .ok after) :
    KeepsNonnegative market after := by
  intro sound
  obtain ⟨_, _, cancelled, rfl⟩ := cancelBidsAndRevive_spec done
  have between := cancelBids_closed KeepsNonnegative (fun _ sound => sound)
    (fun first second sound => second (first sound)) cancelBid_nonnegative cancelled sound
  refine ⟨between.balances, between.settlements, between.collateral, ?_, between.fees⟩
  apply between.funds.modify
  intro bitasset _
  exact Int.le_refl 0

theorem bidsExecuted_nonnegative (executed : BidsExecuted mia backing feed debt fund market after) :
    KeepsNonnegative market after := by
  induction executed with
  | none => exact fun sound => sound
  | next _ _ _ _ step _ induction =>
    intro sound
    obtain ⟨_, _, -, priced, -, rfl⟩ := executeBid_spec step
    apply induction
    exact ⟨sound.balances, sound.settlements,
      sound.collateral.create (Price.callPrice_cases priced).1.le, sound.funds, sound.fees⟩

theorem settle_nonnegative {op : AssetSettle} (nonneg : 0 ≤ op.amount.amount)
    (done : op.apply bitasset market = .ok after) : KeepsNonnegative market after := by
  intro sound
  obtain ⟨balances, taken, ⟨-, _, rfl⟩ | ⟨settlement, settled, _, -,
    amount, given, rfl⟩⟩ := AssetSettle.apply_cases done
  · exact ⟨nonneg_adjustBalance sound.balances taken,
      sound.settlements.create nonneg, sound.collateral, sound.funds, sound.fees⟩
  · refine ⟨nonneg_adjustBalance (nonneg_adjustBalance sound.balances taken) given,
      sound.settlements, sound.collateral, ?_, sound.fees⟩
    apply sound.funds.modify
    intro _ _
    show 0 ≤ settlement.fund - settled.amount
    rcases (AssetSettle.settledAmount_spec amount).2 with
      ⟨-, all⟩ | ⟨-, most, -⟩
    · omega
    · omega

theorem modifyBitasset_nonnegative (settlement : ∀ bitasset, (change bitasset).settlement =
      bitasset.settlement) :
    KeepsNonnegative market { market with
      bitassets := market.bitassets.modify mia change } := by
  intro sound
  refine ⟨sound.balances, sound.settlements, sound.collateral, ?_, sound.fees⟩
  apply sound.funds.modify
  intro bitasset held
  rw [BitassetData.settlementFund, settlement bitasset]
  exact sound.funds mia bitasset held

theorem matchSettlement_nonnegative
    (done : market.matchSettlement callId settleId price most = .ok (amount, after)) :
    KeepsNonnegative market after := by
  intro sound
  obtain ⟨_, _, _, _, _, _, -, -, -, -, -, -, -, first, second⟩ := matchSettlement_spec done
  exact fillSettlement_nonnegative second (fillCallOrder_nonnegative first sound)

theorem reviveBitasset_nonnegative (done : market.reviveBitasset mia = .ok after) :
    KeepsNonnegative market after := by
  intro sound
  obtain ⟨_, _, _, _, -, -, ways, revived⟩ := reviveBitasset_cases done
  apply cancelBidsAndRevive_nonnegative revived
  rcases ways with ⟨-, -, -, rfl⟩ | ⟨-, ⟨_, rfl⟩, executed⟩
  · exact sound
  · exact bidsExecuted_nonnegative executed ⟨sound.balances,
      sound.settlements, sound.collateral, sound.funds, sound.fees⟩

theorem processBids_nonnegative (form : WellFormed market)
    (done : market.processBids mia bitasset settlement = .ok after) :
    KeepsNonnegative market after := by
  rcases processBids_cases form.bids done with rfl | ⟨middle, executed, revived⟩
  · exact fun sound => sound
  · intro sound
    exact cancelBidsAndRevive_nonnegative revived (bidsExecuted_nonnegative executed sound)

/-- An event keeps the market well-formed, and no amount becomes negative. -/
def KeepsAmounts (market after : Market) : Prop :=
  WellFormed market ∧ Nonnegative market → WellFormed after ∧ Nonnegative after

theorem tradeClosed_keepsAmounts : TradeClosed KeepsAmounts where
  refl _ sound := sound
  trans first second sound := second (first sound)
  cancelLimitOrder done sound :=
    ⟨tradeClosed_keepsForm.cancelLimitOrder done sound.1, cancelLimitOrder_nonnegative done sound.2⟩
  matchLimitOrders done sound :=
    ⟨tradeClosed_keepsForm.matchLimitOrders done sound.1,
      tradeClosed_keepsNonnegative.matchLimitOrders done sound.2⟩
  checkCallOrders done sound :=
    ⟨tradeClosed_keepsForm.checkCallOrders done sound.1,
      tradeClosed_keepsNonnegative.checkCallOrders done sound.2⟩
  globallySettleAsset done sound :=
    ⟨tradeClosed_keepsForm.globallySettleAsset done sound.1,
      globallySettleAsset_nonnegative done sound.2⟩

theorem eventClosed_keepsAmounts : EventClosed KeepsAmounts where
  toTradeClosed := tradeClosed_keepsAmounts
  payFee paid sound :=
    ⟨eventClosed_keepsForm.payFee paid sound.1,
      payFee_closed KeepsNonnegative (fun _ sound => sound)
        (fun first second sound => second (first sound)) takeFee_nonnegative paid sound.2⟩
  placeOrder valid evaluated done sound := by
    refine ⟨eventClosed_keepsForm.placeOrder valid evaluated done sound.1, ?_⟩
    obtain ⟨balances, taken, rfl⟩ := LimitOrderCreate.place_spec done
    exact sound.2.withBalances (nonneg_adjustBalance sound.2.balances taken)
  adjustCallOrder valid held evaluated done sound :=
    ⟨eventClosed_keepsForm.adjustCallOrder valid held evaluated done sound.1,
      adjust_nonnegative done sound.2⟩
  cancelBid done sound :=
    ⟨eventClosed_keepsForm.cancelBid done sound.1, cancelBid_nonnegative done sound.2⟩
  placeBid valid held asset done sound := by
    refine ⟨eventClosed_keepsForm.placeBid valid held asset done sound.1, ?_⟩
    obtain ⟨balances, -, taken, rfl⟩ := BidCollateral.placeBid_spec done
    exact sound.2.withBalances (nonneg_adjustBalance sound.2.balances taken)
  settle nonneg held done sound :=
    ⟨eventClosed_keepsForm.settle nonneg held done sound.1, settle_nonnegative nonneg done sound.2⟩
  cancelSettlement done sound := by
    refine ⟨eventClosed_keepsForm.cancelSettlement done sound.1, ?_⟩
    obtain ⟨_, balances, -, returned, rfl⟩ := cancelSettlement_spec done
    exact ⟨nonneg_adjustBalance sound.2.balances returned,
      sound.2.settlements.remove, sound.2.collateral, sound.2.funds, sound.2.fees⟩
  matchSettlement some done sound :=
    ⟨eventClosed_keepsForm.matchSettlement some done sound.1,
      matchSettlement_nonnegative done sound.2⟩
  setVolume market mia volume sound :=
    ⟨eventClosed_keepsForm.setVolume market mia volume sound.1,
      modifyBitasset_nonnegative (fun _ => rfl) sound.2⟩
  reviveBitasset done sound :=
    ⟨eventClosed_keepsForm.reviveBitasset done sound.1, reviveBitasset_nonnegative done sound.2⟩
  processBids held settled done sound :=
    ⟨eventClosed_keepsForm.processBids held settled done sound.1,
      processBids_nonnegative sound.1 done sound.2⟩
  deferFee market id filled fee sound := by
    refine ⟨eventClosed_keepsForm.deferFee market id filled fee sound.1, ?_⟩
    unfold LimitOrderCreate.deferFee
    split
    · split
      · exact sound.2.withBalances sound.2.balances
      · exact sound.2
    · exact sound.2

theorem feedClosed_keepsAmounts : FeedClosed KeepsAmounts where
  toEventClosed := eventClosed_keepsAmounts
  publishFeed valid held evaluated sound :=
    ⟨feedClosed_keepsForm.publishFeed valid held evaluated sound.1,
      modifyBitasset_nonnegative (fun _ => by simp [AssetPublishFeed.change]) sound.2⟩
  updateProducers market op sound :=
    ⟨feedClosed_keepsForm.updateProducers market op sound.1, modifyBitasset_nonnegative
        (fun _ => by simp [AssetUpdateFeedProducers.change]) sound.2⟩
  expire market mia sound :=
    ⟨feedClosed_keepsForm.expire market mia sound.1,
      modifyBitasset_nonnegative (fun _ => by simp) sound.2⟩
  advance market time sound :=
    ⟨feedClosed_keepsForm.advance market time sound.1, sound.2.withBalances sound.2.balances⟩

end Market

end CocosChain.Chain

import CocosChain.Chain.Collateral

/-!
# Debt equals supply

In every state that is reached from a solvent market, the call orders of an
asset that is not settled owe its supply.  So a force settlement always meets
a call order of its asset, provided that the index by collateralization finds
it: the search begins at one unit of collateral for the greatest supply of
debt, and an order below that is passed over.
-/

namespace CocosChain.Chain

open Table

namespace Market

/-- The books are in order. -/
structure Solvent (market : Market) : Prop where
  wellFormed : WellFormed market
  nonnegative : Nonnegative market
  plain : ∀ assetId, assetId = assetCore ∨ assetId = assetGas →
    market.isMarketIssued assetId = false
  drawn : market.FeedsDrawn
  agree : market.FeedsAgree
  conserved : ∀ assetId, assetId ≠ assetCore → assetId ≠ assetGas →
    market.holdings assetId = market.currentSupply assetId
  indebted : Indebted market
  collateralized : market.Collateralized

def KeepsSolvent (market after : Market) : Prop := Solvent market → Solvent after

variable {id : Nat}

theorem countIn_nonneg {asset : Asset} (nonneg : 0 ≤ asset.amount) : 0 ≤ asset.countIn assetId := by
  rw [Asset.countIn]
  split
  · exact nonneg
  · exact Int.le_refl 0

theorem balances_settlements_le (form : WellFormed market)
    (amounts : Nonnegative market) (assetId : Nat) :
    market.balances.total assetId + market.settlements.total
        (fun settle => settle.balance.countIn assetId) ≤
      market.holdings assetId - market.accumulatedFees assetId := by
  have orders : 0 ≤ market.limitOrders.total (fun order => order.amountForSale.countIn assetId) :=
    total_nonneg fun id order listed =>
      countIn_nonneg (form.orders id order listed).forSale.le
  have calls : 0 ≤ market.callOrders.total (fun call => call.getCollateral.countIn assetId) :=
    total_nonneg fun id call listed =>
      countIn_nonneg (amounts.collateral id call listed)
  have bids : 0 ≤ market.bids.total (fun bid => bid.invSwanPrice.base.countIn assetId) :=
    total_nonneg fun id bid listed =>
      countIn_nonneg (form.bids id bid listed).1
  have funds : 0 ≤ market.bitassets.total (fun bitasset => Asset.countIn
      ⟨bitasset.settlementFund, bitasset.backing⟩ assetId) :=
    total_nonneg fun id bitasset held =>
      countIn_nonneg (amounts.funds id bitasset held)
  rw [holdings]
  omega

theorem settlements_le_holdings (form : WellFormed market)
    (amounts : Nonnegative market) (notCore : assetId ≠ assetCore) :
    market.settlements.total (fun settle => settle.balance.countIn assetId) ≤
      market.holdings assetId := by
  have balances : 0 ≤ market.balances.total assetId := amounts.balances.total
  have fees := amounts.fees assetId notCore
  have most := balances_settlements_le form amounts assetId
  omega

theorem settlements_nonneg (amounts : Nonnegative market) (assetId : Nat) :
    market.settlements.Forall fun _ settle =>
      0 ≤ settle.balance.countIn assetId :=
  fun id settle listed =>
    countIn_nonneg (amounts.settlements id settle listed)

section

variable (sound : Solvent market)
include sound

theorem Solvent.conserved_issued (held : market.bitassets.get mia = some bitasset) :
    mia ≠ assetCore ∧ market.holdings mia = market.currentSupply mia := by
  have issued : market.isMarketIssued mia = true := by
    simp [isMarketIssued, held]
  have other : ∀ assetId, assetId = assetCore ∨ assetId = assetGas → mia ≠ assetId := by
    rintro _ plain rfl
    rw [sound.plain mia plain] at issued
    cases issued
  have notCore := other assetCore (.inl rfl)
  exact ⟨notCore, sound.conserved mia notCore (other assetGas (.inr rfl))⟩

theorem Solvent.supply_nonneg (held : market.bitassets.get mia = some bitasset) :
    0 ≤ market.currentSupply mia := by
  obtain ⟨notCore, conserved⟩ := sound.conserved_issued held
  rw [← conserved]
  exact (total_nonneg (settlements_nonneg sound.nonnegative mia)).trans
    (settlements_le_holdings sound.wellFormed sound.nonnegative notCore)

theorem Solvent.step (amounts : KeepsAmounts market after)
    (issued : ∀ assetId, after.isMarketIssued assetId = market.isMarketIssued assetId)
    (feeds : FeedsStay market after)
    (conserving : ∀ {assetId}, assetId ≠ assetGas → assetId ≠ assetCore →
      Conserving (fun _ => 0) assetId market after) (indebted : Indebted after)
    (collateralized : after.Collateralized) : Solvent after := by
  obtain ⟨form, nonneg⟩ := amounts ⟨sound.wellFormed, sound.nonnegative⟩
  obtain ⟨drawn, agree⟩ := feeds sound.drawn sound.agree
  refine ⟨form, nonneg, ?_, drawn, agree, ?_, indebted, collateralized⟩
  · intro assetId plain
    rw [issued]
    exact sound.plain assetId plain
  · intro assetId notCore notGas
    have excess := (conserving notGas notCore sound.wellFormed
      fun core => absurd core notCore).excess
    have before := sound.conserved assetId notCore notGas
    simp only [net, refunds, if_neg notCore] at excess
    omega

theorem Solvent.event (event : AtEvent market after) (indebted : Indebted after)
    (collateralized : after.Collateralized) : Solvent after :=
  have same := event _ eventClosed_sameTerms
  sound.step (event _ eventClosed_keepsAmounts) same.isMarketIssued same.feedsStay
    (fun notGas notCore => event _ (eventClosed_conserving notGas notCore)) indebted collateralized

theorem Solvent.elsewhere (event : AtEvent market after) (settled : SameSettled market after)
    (calls : after.callOrders = market.callOrders)
    (supply : after.currentSupply = market.currentSupply) : Solvent after := by
  apply sound.event event
  · exact sound.indebted.of_same settled calls supply
  · rw [Collateralized, calls]
    exact sound.collateralized

end

theorem eventClosed_keepsSolvent : EventClosed KeepsSolvent where
  refl _ sound := sound
  trans first second sound := second (first sound)
  cancelLimitOrder done sound :=
    have frame := (cancelLimitOrder_frame done).1
    sound.elsewhere (eventClosed_atEvent.cancelLimitOrder done)
      (sameSettled_of_bitassets (cancelLimitOrder_same done).bitassets)
      frame.callOrders frame.currentSupply
  matchLimitOrders done sound :=
    have frame := matchLimitOrders_frame done
    sound.elsewhere (eventClosed_atEvent.matchLimitOrders done)
      (sameSettled_of_bitassets (matchLimitOrders_same done).bitassets)
      frame.callOrders frame.currentSupply
  checkCallOrders done sound :=
    have debts := ⟨sound.wellFormed, sound.nonnegative, sound.indebted⟩
    sound.event (eventClosed_atEvent.checkCallOrders done)
      (marginClosed_keepsDebts.checkCallOrders done debts).2.2
      (checkCallOrders_collateralized debts sound.agree sound.collateralized done)
  globallySettleAsset done sound :=
    sound.event (eventClosed_atEvent.globallySettleAsset done)
      (globallySettleAsset_indebted sound.wellFormed sound.indebted done)
      (globallySettleAsset_collateralized sound.wellFormed
        (fun id call listed => .inl (sound.collateralized id call listed)) done)
  payFee paid sound := by
    have frame := payFee_frame paid
    apply sound.elsewhere (eventClosed_atEvent.payFee paid)
      (sameSettled_of_bitassets frame.sameAssets.bitassets)
    · rw [frame]
    · rw [frame]
  placeOrder valid evaluated done sound := by
    have event := eventClosed_atEvent.placeOrder valid evaluated done
    obtain ⟨balances, -, rfl⟩ := LimitOrderCreate.place_spec done
    exact sound.elsewhere event (sameSettled_of_bitassets rfl) rfl rfl
  adjustCallOrder valid held evaluated done sound :=
    sound.event (eventClosed_atEvent.adjustCallOrder valid held evaluated done)
      (adjust_indebted sound.indebted held evaluated done)
      (adjust_collateralized sound.collateralized done)
  cancelBid done sound :=
    have moved : MovesBids (fun _ => 0) 0 _ _ := cancelBid_net done
    sound.elsewhere (eventClosed_atEvent.cancelBid done)
      (sameSettled_of_bitassets (cancelBid_same done).bitassets) moved.callOrders moved.supply
  placeBid valid held asset done sound := by
    have event := eventClosed_atEvent.placeBid valid held asset done
    have same := sameSettled_of_bitassets (placeBid_same done).bitassets
    obtain ⟨balances, -, -, rfl⟩ := BidCollateral.placeBid_spec done
    exact sound.elsewhere event same rfl rfl
  settle nonneg held done sound := by
    apply sound.event (eventClosed_atEvent.settle nonneg held done)
      (settle_indebted sound.indebted held done)
    obtain ⟨balances, -, ⟨-, _, rfl⟩ | ⟨_, settled, _, -, -,
      -, rfl⟩⟩ := AssetSettle.apply_cases done
    · exact sound.collateralized
    · exact sound.collateralized
  cancelSettlement done sound := by
    have event := eventClosed_atEvent.cancelSettlement done
    obtain ⟨_, _, -, -, rfl⟩ := cancelSettlement_spec done
    exact sound.elsewhere event (sameSettled_of_bitassets rfl) rfl rfl
  matchSettlement some done sound :=
    sound.event (eventClosed_atEvent.matchSettlement some done)
      (matchSettlement_indebted sound.indebted done)
      (matchSettlement_collateralized sound.collateralized done)
  setVolume market mia volume sound :=
    sound.elsewhere (eventClosed_atEvent.setVolume market mia volume)
      (sameSettled_modify fun _ => rfl) rfl rfl
  reviveBitasset done sound :=
    sound.event (eventClosed_atEvent.reviveBitasset done)
      (reviveBitasset_indebted sound.wellFormed sound.indebted (fun _ => sound.supply_nonneg) done)
      (reviveBitasset_collateralized sound.collateralized done)
  processBids held settled done sound :=
    sound.event (eventClosed_atEvent.processBids held settled done)
      (processBids_indebted sound.wellFormed sound.indebted held settled done)
      (processBids_collateralized sound.collateralized sound.wellFormed done)
  deferFee market id filled fee sound := by
    obtain ⟨_, same, -⟩ := deferFee_spec market id filled fee
    apply sound.elsewhere (eventClosed_atEvent.deferFee market id filled fee)
      (sameSettled_of_bitassets (deferFee_same market id filled fee).bitassets)
    · rw [same]
    · rw [same]

theorem Solvent.modifyBitasset (sound : Solvent market)
    (amounts : KeepsAmounts market { market with
      bitassets := market.bitassets.modify mia change })
    (feeds : FeedsStay market { market with
      bitassets := market.bitassets.modify mia change })
    (conserving : ∀ {assetId}, assetId ≠ assetGas → assetId ≠ assetCore →
      Conserving (fun _ => 0) assetId market { market with
        bitassets := market.bitassets.modify mia change })
    (settlement : ∀ bitasset, (change bitasset).settlement = bitasset.settlement) :
    Solvent { market with
      bitassets := market.bitassets.modify mia change } := by
  apply sound.step amounts _ feeds conserving _ sound.collateralized
  · intro assetId
    simp only [isMarketIssued, get_modify]
    split
    · rename_i here
      simp [here]
    · rfl
  · apply sound.indebted.of_same (sameSettled_modify fun bitasset => ?_) rfl rfl
    rw [BitassetData.hasSettlement, settlement, BitassetData.hasSettlement]

theorem feedClosed_keepsSolvent : FeedClosed KeepsSolvent where
  toEventClosed := eventClosed_keepsSolvent
  publishFeed valid held evaluated sound :=
    sound.modifyBitasset (feedClosed_keepsAmounts.publishFeed valid held evaluated)
      (feedClosed_feedsStay.publishFeed valid held evaluated)
      (fun notGas notCore => (feedClosed_conserving notGas
        notCore).publishFeed valid held evaluated) (fun _ => by simp [AssetPublishFeed.change])
  updateProducers market op sound :=
    sound.modifyBitasset (feedClosed_keepsAmounts.updateProducers market op)
      (feedClosed_feedsStay.updateProducers market op)
      (fun notGas notCore => (feedClosed_conserving notGas notCore).updateProducers market op)
      (fun _ => by simp [AssetUpdateFeedProducers.change])
  expire market mia sound :=
    sound.modifyBitasset (feedClosed_keepsAmounts.expire market mia)
      (feedClosed_feedsStay.expire market mia)
      (fun notGas notCore => (feedClosed_conserving notGas notCore).expire market mia)
      (fun _ => by simp)
  advance market time sound :=
    sound.step (feedClosed_keepsAmounts.advance market time) (fun _ => rfl)
      (feedClosed_feedsStay.advance market time)
      (fun notGas notCore => (feedClosed_conserving notGas notCore).advance market time)
      (sound.indebted.of_same (sameSettled_of_bitassets rfl) rfl rfl) sound.collateralized

/-- The search for the call order to settle against finds one of the asset. -/
def FindsCallOrder (market : Market) (backing mia : Nat) : Prop :=
  ∃ id call, market.leastCollateralized backing mia = some (id, call) ∧ call.debtType = mia

/-- The search begins at or below the order. -/
def WithinReach (call : CallOrder) : Prop := call.debt ≤ maxShareSupply * call.collateral

theorem Solvent.collateralization_market (sound : Solvent market)
    (held : market.bitassets.get mia = some bitasset)
    (listed : market.callOrders.get id = some call) (kind : call.debtType = mia) :
    Price.SameMarket call.collateralization (Price.min bitasset.backing mia) := by
  have secured := (sound.wellFormed.calls id call listed).1
  rw [kind, backingOf, held] at secured
  exact ⟨(Option.some.inj secured).symm, kind⟩

theorem withinReach_iff (same : Price.SameMarket call.collateralization (Price.min backing mia)) :
    WithinReach call ↔ call.collateralization.lt (Price.min backing mia) = false := by
  rw [← Bool.not_eq_true, Price.lt_iff same, not_lt]
  show call.debt ≤ maxShareSupply * call.collateral ↔
    call.debt * 1 ≤ maxShareSupply * call.collateral
  rw [Int.mul_one]

theorem Solvent.findsCallOrder_iff (sound : Solvent market)
    (held : market.bitassets.get mia = some bitasset) :
    market.FindsCallOrder bitasset.backing mia ↔ ∃ id call, market.callOrders.get id = some call ∧
        call.debtType = mia ∧ WithinReach call := by
  have positive : ∀ row ∈ market.callOrders.rows.filter (fun row =>
      !row.2.collateralization.lt (Price.min bitasset.backing mia)),
      row.2.collateralization.Positive := by
    intro row member
    have listed := mem_rows.mp (List.mem_of_mem_filter member)
    exact ⟨sound.collateralized _ _ listed, sound.indebted.positive _ _ listed⟩
  constructor
  · rintro ⟨id, call, head, kind⟩
    have member := (List.mem_insertionSort _).mp (List.mem_of_mem_head? head)
    obtain ⟨row, above⟩ := List.mem_filter.mp member
    have listed := mem_rows.mp row
    refine ⟨id, call, listed, kind, ?_⟩
    rw [withinReach_iff (sound.collateralization_market held listed kind)]
    simpa using above
  · rintro ⟨id, call, listed, kind, reach⟩
    have same := sound.collateralization_market held listed kind
    rw [withinReach_iff same] at reach
    have member : (id, call) ∈ market.callOrders.rows.filter (fun row =>
        !row.2.collateralization.lt (Price.min bitasset.backing mia)) :=
      List.mem_filter.mpr ⟨mem_rows.mpr listed, by simp [reach]⟩
    obtain ⟨first, head⟩ : ∃ first,
        market.leastCollateralized bitasset.backing mia = some first := by
      rw [leastCollateralized]
      cases list : (market.callOrders.rows.filter fun row =>
          !row.2.collateralization.lt (Price.min bitasset.backing mia)).insertionSort
              fun left right => collateralBefore left right with
      | nil =>
        have there := (List.mem_insertionSort fun left right =>
          collateralBefore left right).mpr member
        rw [list] at there
        cases there
      | cons first rest => exact ⟨first, rfl⟩
    have firstMember := (List.mem_insertionSort _).mp (List.mem_of_mem_head? head)
    refine ⟨first.1, first.2, head, ?_⟩
    -- The first order lies between the least price and the order within
    -- reach, and both are of this market.
    have before : collateralBefore first (id, call) = true := by
      apply Sorting.head_insertionSort _ head member
      exact Sorting.orders_of_key (fun row : Nat × CallOrder =>
        toLex (row.2.collateralization.key, row.1))
        fun left here right there =>
          Price.before_iff_key (positive left here) (positive right there)
    have firstPositive := positive first firstMember
    have callPositive := positive _ member
    have keys : first.2.collateralization.key ≤ call.collateralization.key :=
      Prod.Lex.monotone_fst _ _ ((Price.before_iff_key firstPositive callPositive).mp before)
    have below : call.collateralization.lt first.2.collateralization = false := by
      rw [← Bool.not_eq_true, Price.lt_iff_key callPositive firstPositive, not_lt]
      exact keys
    have above : first.2.collateralization.lt (Price.min bitasset.backing mia) = false := by
      simpa using (List.mem_filter.mp firstMember).2
    exact (Price.sameMarket_of_between ⟨same.1.symm, same.2.symm⟩ above below).2

theorem Solvent.callOrder_of_settlement (sound : Solvent market)
    (held : market.bitassets.get mia = some bitasset) (unsettled : bitasset.settlement = none)
    (listed : market.settlements.get id = some settle) (kind : settle.balance.assetId = mia)
    (positive : 0 < settle.balance.amount) :
    ∃ callId call, market.callOrders.get callId = some call ∧ call.debtType = mia := by
  by_contra none
  have nothing : market.debtOf mia = 0 := by
    apply total_eq_zero
    intro callId call there
    rw [Asset.countIn, if_neg]
    intro same
    exact none ⟨callId, call, there, same⟩
  obtain ⟨notCore, _⟩ := sound.conserved_issued held
  have part : settle.balance.countIn mia ≤ market.settlements.total
      (fun settle => settle.balance.countIn mia) :=
    le_total (settlements_nonneg sound.nonnegative mia) listed
  have most := settlements_le_holdings sound.wellFormed sound.nonnegative notCore
  have owed := sound.indebted.owed mia bitasset held unsettled
  rw [Asset.countIn, if_pos kind] at part
  omega

/-- After any history from a solvent market, debts are supplies, call orders
have debt and collateral, and settled assets have no call orders.  A force
settlement faces a call order, which is found exactly if one of the asset is
within reach of the search. -/
theorem debt_is_supply {start market : Market} {events : List (MarketTerms × MarketEvent)}
    (sound : Solvent start) (history : start.run events = .ok market) :
    (∀ mia bitasset, market.bitassets.get mia = some bitasset → bitasset.settlement = none →
        market.debtOf mia = market.currentSupply mia) ∧
    (∀ id call, market.callOrders.get id = some call → 0 < call.debt ∧ 0 < call.collateral) ∧
    (∀ mia bitasset, market.bitassets.get mia = some bitasset → bitasset.settlement ≠ none →
        ∀ id call, market.callOrders.get id = some call → call.debtType ≠ mia) ∧
    ∀ mia bitasset id settle, market.bitassets.get mia = some bitasset →
      bitasset.settlement = none →
      market.settlements.get id = some settle →
      settle.balance.assetId = mia → 0 < settle.balance.amount →
        (∃ callId call, market.callOrders.get callId = some call ∧ call.debtType = mia) ∧
        (market.FindsCallOrder bitasset.backing mia ↔
          ∃ callId call, market.callOrders.get callId = some call ∧
            call.debtType = mia ∧ WithinReach call) := by
  have ending : Solvent market := feedClosed_keepsSolvent.run history sound
  refine ⟨ending.indebted.owed, fun id call listed => ?_, ending.indebted.closed, ?_⟩
  · exact ⟨ending.indebted.positive id call listed, ending.collateralized id call listed⟩
  · intro mia bitasset id settle held unsettled listed kind positive
    exact ⟨ending.callOrder_of_settlement held unsettled listed kind positive,
      ending.findsCallOrder_iff held⟩

theorem solvent_created (performed : (newBitasset backing).perform MarketTerms.free fundedGenesis =
      .ok created) : Solvent created := by
  have form := wellFormed_created performed
  have conserved : ∀ assetId, assetId ≠ assetCore → assetId ≠ assetGas →
      created.holdings assetId = created.currentSupply assetId :=
    fun _ notCore _ => holdings_created performed notCore
  simp only [AssetCreate.perform, AssetCreate.apply, bind_eq_ok,
    ensure_eq_ok, pure_eq_ok, Prod.exists] at performed
  obtain ⟨-, -, -, -, _, ⟨-, -, rfl⟩, _, _, payment, rfl⟩ := performed
  cases payment
  have only : ∀ mia bitasset, (fundedGenesis.bitassets.append
      ((newBitasset backing).bitassetOpts.map AssetCreate.bitasset)).get mia = some bitasset →
      mia = 2 ∧ bitasset.settlement = none ∧ bitasset.feeds = [] ∧
        bitasset.currentFeed = PriceFeed.null := by
    intro mia bitasset held
    rw [get_append] at held
    split at held
    · rename_i here
      cases held
      exact ⟨here, rfl, rfl, rfl⟩
    · have none : genesis.bitassets.get mia = none :=
        no_bitassets_genesis mia
      exact absurd (none.symm.trans held) (by simp)
  refine ⟨form, ⟨?_, ?_, ?_, ?_, ?_⟩, ?_, ?_, ?_, conserved, ⟨?_, ?_, ?_⟩, ?_⟩
  · intro entry member
    simp only [fundedGenesis, List.mem_cons, List.not_mem_nil, or_false] at member
    rcases member with rfl | rfl
    · decide
    · decide
  · intro id settle listed
    cases listed
  · intro id call listed
    cases listed
  · intro id bitasset held
    rw [BitassetData.settlementFund, (only id bitasset held).2.1]
    exact Int.le_refl 0
  · intro assetId _
    show (0 : Int) ≤ if assetId = _ then 0 else 0
    rw [ite_self]
  · rintro _ (rfl | rfl)
    · rfl
    · rfl
  · intro id bitasset held fed
    rw [(only id bitasset held).2.2.2] at fed
    cases fed
  · intro id bitasset held
    obtain ⟨-, -, feeds, null⟩ := only id bitasset held
    refine ⟨fun fed => ?_, fun feed member => ?_⟩
    · rw [null] at fed
      cases fed
    · rw [feeds] at member
      cases member
  · intro id bitasset held _
    obtain ⟨rfl, -⟩ := only id bitasset held
    rfl
  · intro id call listed
    cases listed
  · intro id bitasset held settled
    exact absurd (only id bitasset held).2.1 settled
  · intro id call listed
    cases listed

/-- Account `12` borrows asset `2` and asks for a force settlement. -/
def borrowAndSettle (price collateral debt settled : Int) : List (MarketTerms × MarketEvent) :=
  [(MarketTerms.free, .assetUpdateFeedProducers ⟨7, 2, [9]⟩),
    publish price 1 1750, borrow 12 collateral debt,
    (MarketTerms.free, .assetSettle ⟨12, ⟨settled, 2⟩⟩)]

theorem debt_is_supply_borrowed : ∃ created market bitasset settle,
      (newBitasset assetCore).perform MarketTerms.free fundedGenesis = .ok created ∧
      created.run (borrowAndSettle 1 700 100 20) = .ok market ∧
      market.bitassets.get 2 = some bitasset ∧
      market.settlements.get 0 = some settle ∧
      market.debtOf 2 = market.currentSupply 2 ∧
      (market.FindsCallOrder bitasset.backing 2 ↔
        ∃ callId call, market.callOrders.get callId = some call ∧
          call.debtType = 2 ∧ WithinReach call) := by
  have reached : ∃ created market bitasset settle,
      Created created ∧ created.run (borrowAndSettle 1 700 100 20) = .ok market ∧
      market.bitassets.get 2 = some bitasset ∧ bitasset.settlement = none ∧
      market.settlements.get 0 = some settle ∧ settle.balance = ⟨20, 2⟩ :=
    ⟨_, _, _, _, rfl, rfl, rfl, by decide +kernel, rfl, by decide +kernel⟩
  obtain ⟨created, market, bitasset, settle, performed, history, held,
    unsettled, listed, balance⟩ := reached
  obtain ⟨owed, -, -, finds⟩ := debt_is_supply (solvent_created performed) history
  refine ⟨created, market, bitasset, settle, performed, history, held, listed,
    owed 2 bitasset held unsettled, ?_⟩
  exact (finds 2 bitasset 0 settle held unsettled listed (by rw [balance])
    (by rw [balance]; decide)).2

/-- After any history from a solvent market nobody is overdrawn, an asset's
holders have no more of it than its supply, limit orders offer something for
something else, and call orders are secured by what backs their debt. -/
theorem holders_within_supply {start market : Market} {events : List (MarketTerms × MarketEvent)}
    (sound : Solvent start) (history : start.run events = .ok market) :
    (∀ account assetId, 0 ≤ market.getBalance account assetId) ∧
    (∀ assetId, assetId ≠ assetCore → assetId ≠ assetGas →
      market.balances.total assetId + market.settlements.total (·.balance.countIn assetId) ≤
        market.currentSupply assetId) ∧
    (∀ id order, market.limitOrders.get id = some order → order.WellFormed) ∧
    ∀ id call, market.callOrders.get id = some call → market.CallSecured call := by
  have ending : Solvent market := feedClosed_keepsSolvent.run history sound
  refine ⟨fun _ _ => ending.nonnegative.balances.amount, fun assetId notCore notGas => ?_,
    ending.wellFormed.orders, ending.wellFormed.calls⟩
  have most := balances_settlements_le ending.wellFormed ending.nonnegative assetId
  have fees := ending.nonnegative.fees assetId notCore
  rw [ending.conserved assetId notCore notGas] at most
  omega

theorem holders_within_supply_borrowed : ∃ created market, Created created ∧
    created.run (borrowAndSettle 1 700 100 20) = .ok market ∧
    market.balances.total 2 + market.settlements.total (·.balance.countIn 2) ≤
      market.currentSupply 2 := by
  have reached : ∃ created market, Created created ∧
      created.run (borrowAndSettle 1 700 100 20) = .ok market := ⟨_, _, rfl, rfl⟩
  obtain ⟨created, market, performed, history⟩ := reached
  exact ⟨created, market, performed, history, (holders_within_supply
    (solvent_created performed) history).2.1 2 (by decide) (by decide)⟩

/-- At a price of many units for one, a debt of more than the greatest supply
is covered by one unit of collateral, and the force settlement finds no call
order.  It fails when it is due. -/
theorem call_order_out_of_reach : ∃ created market bitasset settle,
      (newBitasset assetCore).perform MarketTerms.free fundedGenesis = .ok created ∧
      created.run (borrowAndSettle 9000000000000000000 1 2000000000000000000 100) = .ok market ∧
      market.bitassets.get 2 = some bitasset ∧
      bitasset.settlement = none ∧
      market.settlements.get 0 = some settle ∧
      settle.balance = ⟨100, 2⟩ ∧
      ¬ market.FindsCallOrder bitasset.backing 2 ∧
      ({ market with headBlockTime := 86402 } : Market).clearExpiredOrders
        MarketTerms.free = .error .noCallOrder := by
  refine ⟨_, _, _, _, rfl, rfl, rfl, by decide +kernel, rfl, by decide +kernel, ?_, rfl⟩
  rintro ⟨_, _, found, -⟩
  cases found

end Market

end CocosChain.Chain

import CocosChain.Chain.MarketFrames

/-!
# Well-formed markets

Limit orders offer something at a positive price, call orders are secured by
the backing asset of what they owe and have a call price that the index can
find, bids cover some debt, force settlements are in market-issued assets, and
collateral ratios are positive.  Every event keeps this.
-/

namespace CocosChain.Chain

/-- Both parts of the price are amounts that an asset may have. -/
structure Price.InRange (price : Price) : Prop where
  positive : price.Positive
  base_le : price.base.amount ≤ maxShareSupply
  quote_le : price.quote.amount ≤ maxShareSupply

structure LimitOrder.WellFormed (order : LimitOrder) : Prop where
  forSale : 0 < order.forSale
  positive : order.sellPrice.Positive
  distinct : order.sellPrice.base.assetId ≠ order.sellPrice.quote.assetId

/-- The feed has a positive ratio, and a positive price unless it is null. -/
structure PriceFeed.Usable (feed : PriceFeed) : Prop where
  ratio : 0 < feed.maintenanceCollateralRatio
  price : feed.settlementPrice.isNull = false → feed.settlementPrice.Positive

/-- Only usable feeds are in use. -/
structure BitassetData.Rated (bitasset : BitassetData) : Prop where
  current : bitasset.currentFeed.Usable
  stored : ∀ feed ∈ bitasset.feeds, feed.2.2.Usable

namespace Market

/-- The call order is secured by the backing asset and found by its price. -/
def CallSecured (market : Market) (call : CallOrder) : Prop :=
  market.backingOf call.debtType = some call.callPrice.base.assetId ∧ call.callPrice.InRange

/-- The exchange rate of GAS is between GAS and the core asset. -/
def GasRated (market : Market) : Prop :=
  ∀ gas rate, market.assets.get assetGas = some gas → gas.options.coreExchangeRate = some rate →
      ∀ asset, asset = rate.base ∨ asset = rate.quote →
        asset.assetId = assetCore ∨ asset.assetId = assetGas

structure WellFormed (market : Market) : Prop where
  orders : market.limitOrders.Forall fun _ order => order.WellFormed
  calls : market.callOrders.Forall fun _ call => market.CallSecured call
  bids : market.bids.Forall fun _ bid =>
    0 ≤ bid.invSwanPrice.base.amount ∧ 0 < bid.invSwanPrice.quote.amount
  settlements : market.settlements.Forall fun _ settle =>
    market.isMarketIssued settle.balance.assetId = true
  ratios : market.bitassets.Forall fun _ bitasset => bitasset.Rated
  gasRate : market.GasRated

/-- Only balances, counters, fees and limit orders are different. -/
def SameButOrders (market after : Market) : Prop :=
  after = { market with
    balances := after.balances
    totalCoreInOrders := after.totalCoreInOrders
    accumulatedFees := after.accumulatedFees
    limitOrders := after.limitOrders
    cancelled := after.cancelled }

variable {market : Market} {id : Nat}

theorem SameButOrders.trans (first : SameButOrders market middle)
    (second : SameButOrders middle after) : SameButOrders market after := by
  rw [first] at second
  exact second

section

variable (same : SameButOrders market after)
include same

theorem SameButOrders.callOrders : after.callOrders = market.callOrders := by
  rw [same]

theorem SameButOrders.bids : after.bids = market.bids := by
  rw [same]

theorem SameButOrders.settlements : after.settlements = market.settlements := by
  rw [same]

end

theorem SameTerms.isMarketIssued (same : SameTerms market after) (mia : Nat) :
    after.isMarketIssued mia = market.isMarketIssued mia := by
  have terms := congrArg Option.isSome (same.terms mia)
  simpa [Market.isMarketIssued] using terms

theorem SameTerms.backingOf (same : SameTerms market after) :
    after.backingOf = market.backingOf := by
  funext mia
  have terms := congrArg (Option.map BitassetData.backing) (same.terms mia)
  simp only [Option.map_map] at terms
  exact terms

variable {bitasset : BitassetData}

theorem SameTerms.callSecured (same : SameTerms market after) (secured : market.CallSecured call) :
    after.CallSecured call := by
  rw [CallSecured, same.backingOf]
  exact secured

theorem WellFormed.of_sameTerms (sound : WellFormed market) (same : SameTerms market after)
    (orders : after.limitOrders.Forall fun _ order => order.WellFormed)
    (calls : after.callOrders.Forall fun _ call => market.CallSecured call)
    (bids : after.bids.Forall fun _ bid =>
      0 ≤ bid.invSwanPrice.base.amount ∧ 0 < bid.invSwanPrice.quote.amount)
    (settlements : after.settlements.Forall fun _ settle =>
      market.isMarketIssued settle.balance.assetId = true) :
    WellFormed after where
  orders := orders
  calls := calls.mono fun _ _ secured => same.callSecured secured
  bids := bids
  settlements := settlements.mono fun _ settle issued =>
    (same.isMarketIssued settle.balance.assetId).trans issued
  gasRate := by
    rw [GasRated, same.assets]
    exact sound.gasRate
  ratios := by
    intro mia bitasset held
    obtain ⟨old, before, terms⟩ := same.before held
    have rated := sound.ratios mia old before
    have current : bitasset.currentFeed = old.currentFeed :=
      (congrArg BitassetData.currentFeed terms).symm
    have feeds : bitasset.feeds = old.feeds := (congrArg BitassetData.feeds terms).symm
    constructor
    · rw [current]
      exact rated.current
    · rw [feeds]
      exact rated.stored

theorem cancelLimitOrder_frame (done : market.cancelLimitOrder id = .ok after) :
    SameButOrders market after ∧ after.limitOrders = market.limitOrders.remove id := by
  obtain ⟨_, _, _, -, -, -, rfl⟩ := cancelLimitOrder_spec done
  exact ⟨rfl, rfl⟩

theorem maybeCullSmallOrder_frame (done : market.maybeCullSmallOrder id = .ok (culled, after)) :
    SameButOrders market after ∧ (after.limitOrders = market.limitOrders ∨
        after.limitOrders = market.limitOrders.remove id) := by
  obtain ⟨_, _, -, -, ⟨-, -, cancelled⟩ | ⟨-, -, rfl⟩⟩ := maybeCullSmallOrder_cases done
  · exact ⟨(cancelLimitOrder_frame cancelled).1, .inr (cancelLimitOrder_frame cancelled).2⟩
  · exact ⟨rfl, .inl rfl⟩

section

variable (done : market.fillLimitOrder id pays receives cull = .ok (filled,
  after))
include done

theorem fillLimitOrder_frame : SameButOrders market after ∧
      ∃ order, market.limitOrders.get id = some order ∧
        order.sellPrice.base.assetId = pays.assetId ∧
        pays.assetId ≠ receives.assetId ∧
        (after.limitOrders = market.limitOrders.remove id ∨ (pays ≠ order.amountForSale ∧
            after.limitOrders = market.limitOrders.modify id fun order =>
              { order with forSale := order.forSale - pays.amount })) := by
  obtain ⟨order, _, _, _, listed, base, distinct, -, -, settled⟩ := fillLimitOrder_spec done
  obtain ⟨-, -, rfl⟩ | ⟨less, _, rfl, ⟨-, -, rfl⟩ | ⟨-, culled⟩⟩ :=
    settleLimitOrder_cases settled
  · exact ⟨rfl, order, listed, base, distinct, .inl rfl⟩
  · exact ⟨rfl, order, listed, base, distinct, .inr ⟨less, rfl⟩⟩
  · obtain ⟨same, kept | removed⟩ := maybeCullSmallOrder_frame culled
    · exact ⟨SameButOrders.trans (by exact rfl) same, order, listed, base,
        distinct, .inr ⟨less, kept⟩⟩
    · rw [Table.remove_modify] at removed
      exact ⟨SameButOrders.trans (by exact rfl) same, order, listed, base, distinct, .inl removed⟩

theorem fillLimitOrder_others (different : other ≠ id) :
    after.limitOrders.get other = market.limitOrders.get other := by
  obtain ⟨-, _, -, -, -, removed | ⟨-, reduced⟩⟩ := fillLimitOrder_frame done
  · rw [removed, Table.get_remove, if_neg different]
  · rw [reduced, Table.get_modify, if_neg different]

end

theorem fillLimitOrder_wellFormed
    (orders : market.limitOrders.Forall fun _ order => order.WellFormed)
    (offered : ∀ order, market.limitOrders.get id = some order → pays.amount ≤ order.forSale)
    (done : market.fillLimitOrder id pays receives cull = .ok (filled, after)) :
    after.limitOrders.Forall fun _ order => order.WellFormed := by
  obtain ⟨-, order, listed, base, -, removed | ⟨less, reduced⟩⟩ := fillLimitOrder_frame done
  · rw [removed]
    exact orders.remove
  · rw [reduced]
    apply orders.modify
    intro here held
    rw [listed] at held
    cases held
    have sound := orders id order listed
    refine ⟨?_, sound.positive, sound.distinct⟩
    have most := offered order listed
    have different : pays.amount ≠ order.forSale := by
      intro same
      apply less
      obtain ⟨amount, _⟩ := pays
      simp only [LimitOrder.amountForSale, Asset.mk.injEq]
      exact ⟨same, base.symm⟩
    show 0 < order.forSale - pays.amount
    omega

theorem ediv_mul_le {down : Int} (positiveUp : 0 < up) (positiveDown : 0 < down)
    (most : amount ≤ worth * up / down) : amount * down / up ≤ worth := by
  have scaled : amount * down ≤ worth * up :=
    le_trans (mul_le_mul_of_nonneg_right most positiveDown.le) (Int.ediv_mul_le _ positiveDown.ne')
  exact Int.ediv_le_of_le_mul positiveUp scaled

theorem tradeAmounts_le
    (amounts : tradeAmounts usdForSale coreForSale price = some (usdReceives, coreReceives))
    (distinct : coreReceives.assetId ≠ usdReceives.assetId) :
    coreReceives.amount ≤ usdForSale.amount ∧ usdReceives.amount ≤ coreForSale.amount := by
  simp only [tradeAmounts, Option.bind_eq_bind, Option.bind_eq_some_iff] at amounts
  obtain ⟨coreValue, worth, amounts⟩ := amounts
  split at amounts
  · cases amounts
  · rename_i sameAsset
    have asset : usdForSale.assetId = coreValue.assetId := by
      simpa using sameAsset
    split at amounts
    · rename_i most
      simp only [Option.bind_eq_some_iff] at amounts
      obtain ⟨_, given, rest⟩ := amounts
      cases rest
      refine ⟨le_rfl, ?_⟩
      unfold Asset.times at worth given
      split at worth
      · obtain ⟨down, -, -, rfl⟩ := scale_eq_some.mp worth
        rw [asset] at given
        split at given
        · obtain ⟨-, -, -, rfl⟩ := scale_eq_some.mp given
          exact absurd asset distinct
        · simp only [if_true] at given
          obtain ⟨up, -, -, rfl⟩ := scale_eq_some.mp given
          exact ediv_mul_le up down most
      · split at worth
        · obtain ⟨up, -, -, rfl⟩ := scale_eq_some.mp worth
          rw [asset] at given
          simp only [if_true] at given
          obtain ⟨down, -, -, rfl⟩ := scale_eq_some.mp given
          exact ediv_mul_le down up most
        · cases worth
    · rename_i less
      cases amounts
      exact ⟨(Int.not_le.mp less).le, le_rfl⟩

theorem matchLimitOrders_spec {filled : Bool × Bool}
    (done : market.matchLimitOrders usdId coreId price = .ok (filled, after)) :
    ∃ usd core usdReceives coreReceives middle, market.limitOrders.get usdId = some usd ∧
      market.limitOrders.get coreId = some core ∧
      middle.limitOrders.get coreId = some core ∧
      tradeAmounts usd.amountForSale core.amountForSale price = some (usdReceives, coreReceives) ∧
      coreReceives.amount ≤ usd.forSale ∧
      usdReceives.amount ≤ core.forSale ∧ usdId ≠ coreId ∧
      market.fillLimitOrder usdId coreReceives usdReceives false = .ok (filled.1, middle) ∧
      middle.fillLimitOrder coreId usdReceives coreReceives true = .ok (filled.2, after) := by
  simp only [matchLimitOrders, bind_eq_ok, found_eq_ok, pure_eq_ok,
    Prod.exists, Prod.mk.injEq] at done
  obtain ⟨usd, usdListed, core, coreListed, usdReceives, coreReceives,
    amounts, _, middle, first, _, _, second, rfl, rfl⟩ := done
  obtain ⟨-, _, usdListed', usdBase, distinct, usdAfter⟩ := fillLimitOrder_frame first
  rw [usdListed] at usdListed'
  cases usdListed'
  obtain ⟨-, _, coreListed', coreBase, -, -⟩ := fillLimitOrder_frame second
  have different : usdId ≠ coreId := by
    intro same
    subst same
    apply distinct
    rw [← usdBase, ← coreBase]
    rcases usdAfter with removed | ⟨-, reduced⟩
    · rw [removed, Table.get_remove, if_pos rfl] at coreListed'
      cases coreListed'
    · rw [reduced, Table.get_modify, if_pos rfl, usdListed] at coreListed'
      cases coreListed'
      rfl
  have still : middle.limitOrders.get coreId = some core := by
    rw [fillLimitOrder_others first different.symm]
    exact coreListed
  obtain ⟨usdMost, coreMost⟩ := tradeAmounts_le amounts distinct
  exact ⟨usd, core, usdReceives, coreReceives, middle, usdListed, coreListed,
    still, amounts, usdMost, coreMost, different, first, second⟩

theorem matchLimitOrders_frame {filled : Bool × Bool}
    (done : market.matchLimitOrders usdId coreId price = .ok (filled, after)) :
    SameButOrders market after := by
  obtain ⟨_, _, _, _, _, -, -, -, -, -, -, -, first, second⟩ := matchLimitOrders_spec done
  exact (fillLimitOrder_frame first).1.trans (fillLimitOrder_frame second).1

theorem matchLimitOrders_wellFormed {filled : Bool × Bool} (sound : WellFormed market)
    (done : market.matchLimitOrders usdId coreId price = .ok (filled, after)) :
    WellFormed after := by
  have same := matchLimitOrders_frame done
  obtain ⟨_, _, _, _, _, usdListed, -, still,
    -, usdMost, coreMost, -, first, second⟩ := matchLimitOrders_spec done
  apply sound.of_sameTerms (matchLimitOrders_same done).sameTerms
  · apply fillLimitOrder_wellFormed _ _ second
    · apply fillLimitOrder_wellFormed sound.orders _ first
      intro order listed
      rw [usdListed] at listed
      cases listed
      exact usdMost
    · intro order listed
      rw [still] at listed
      cases listed
      exact coreMost
  · rw [same.callOrders]
    exact sound.calls
  · rw [same.bids]
    exact sound.bids
  · rw [same.settlements]
    exact sound.settlements

theorem fillCallOrder_frame (done : market.fillCallOrder id pays receives = .ok (closed, after)) :
    after.limitOrders = market.limitOrders ∧ after.bids = market.bids ∧
      after.settlements = market.settlements ∧
      (after.callOrders = market.callOrders.remove id ∨
        after.callOrders = market.callOrders.modify id fun order =>
          { order with
            debt := order.debt - receives.amount
            collateral := order.collateral - pays.amount }) := by
  obtain ⟨_, -, -, -, -, ⟨-, -, _, -, rfl⟩ | ⟨-, -, rfl⟩⟩ := fillCallOrder_spec done
  · exact ⟨rfl, rfl, rfl, .inl rfl⟩
  · exact ⟨rfl, rfl, rfl, .inr rfl⟩

theorem fillCallOrder_wellFormed (sound : WellFormed market)
    (done : market.fillCallOrder id pays receives = .ok (closed, after)) : WellFormed after := by
  obtain ⟨orders, bids, settlements, calls⟩ := fillCallOrder_frame done
  apply sound.of_sameTerms (fillCallOrder_same done).sameTerms
  · rw [orders]
    exact sound.orders
  · rcases calls with removed | reduced
    · rw [removed]
      exact sound.calls.remove
    · rw [reduced]
      apply sound.calls.modify
      intro call listed
      exact sound.calls id call listed
  · rw [bids]
    exact sound.bids
  · rw [settlements]
    exact sound.settlements

theorem marginCall_wellFormed (sound : WellFormed market)
    (listed : market.limitOrders.get limitId = some order)
    (done : market.marginCall callId limitId call order = .ok (usedUp, after)) :
    WellFormed after := by
  obtain ⟨_, _, _, _, _, first, second, -, amounts⟩ :=
    marginCall_cases done
  have between := fillCallOrder_wellFormed sound first
  have same := (fillLimitOrder_frame second).1
  apply between.of_sameTerms (fillLimitOrder_same second).sameTerms
  · apply fillLimitOrder_wellFormed between.orders _ second
    intro other held
    rw [(fillCallOrder_frame first).1, listed] at held
    cases held
    rcases amounts with ⟨-, -, rfl⟩ | ⟨less, -, rfl⟩
    · exact le_rfl
    · exact less.le
  · rw [same.callOrders]
    exact between.calls
  · rw [same.bids]
    exact between.bids
  · rw [same.settlements]
    exact between.settlements

/-- An event keeps the market well-formed. -/
def KeepsForm (market after : Market) : Prop := WellFormed market → WellFormed after

theorem closeCallOrders_keepsForm
    (done : closeCallOrders backing price ids start market = .ok (gathered, after)) :
    KeepsForm market after :=
  closeCallOrders_closed KeepsForm (fun _ sound => sound)
    (fun first second sound => second (first sound))
    (fun filled sound => fillCallOrder_wellFormed sound filled) done

theorem globallySettleAsset_spec (done : market.globallySettleAsset mia price = .ok after) :
    ∃ bitasset gathered middle, market.bitassets.get mia = some bitasset ∧
      bitasset.settlement = none ∧ mia ≠ bitasset.backing ∧
      closeCallOrders bitasset.backing price
        ((market.callRange bitasset.backing mia).map Prod.fst) 0 market = .ok (gathered, middle) ∧
      after = { middle with
        bitassets := middle.bitassets.modify mia fun bitasset =>
          { bitasset with
            settlement :=
              some ⟨market.currentSupply mia, gathered, gathered⟩ }
        currentSupply := fun other =>
          if other = mia then market.currentSupply mia
          else middle.currentSupply other } := by
  simp only [globallySettleAsset, bind_eq_ok, found_eq_ok, ensure_eq_ok,
    pure_eq_ok, Prod.exists, bne_iff_ne, Bool.not_eq_true',
    BitassetData.hasSettlement, Option.isSome_eq_false_iff, Option.isNone_iff_eq_none] at done
  obtain ⟨bitasset, held, -, unsettled, -, -, gathered, middle, closed, -, distinct, rfl⟩ := done
  exact ⟨bitasset, gathered, middle, held, unsettled, distinct, closed, rfl⟩

theorem globallySettleAsset_wellFormed (sound : WellFormed market)
    (done : market.globallySettleAsset mia price = .ok after) : WellFormed after := by
  have same := globallySettleAsset_same done
  obtain ⟨_, _, middle, -, -, -, closed, rfl⟩ := globallySettleAsset_spec done
  have between := closeCallOrders_keepsForm closed sound
  apply sound.of_sameTerms same
  · exact between.orders
  · intro id call listed
    have secured : middle.CallSecured call := between.calls id call listed
    have backings := (closeCallOrders_same closed).sameTerms.backingOf
    rw [CallSecured, backings] at secured
    exact secured
  · exact between.bids
  · intro id settle listed
    have issued : middle.isMarketIssued settle.balance.assetId = true :=
      between.settlements id settle listed
    rwa [(closeCallOrders_same closed).sameTerms.isMarketIssued] at issued

theorem marginClosed_keepsForm : MarginClosed KeepsForm where
  refl _ sound := sound
  trans first second sound := second (first sound)
  marginCall _ listed done sound := marginCall_wellFormed sound listed done
  globallySettleAsset done sound := globallySettleAsset_wellFormed sound done

theorem tradeClosed_keepsForm : TradeClosed KeepsForm where
  __ := marginClosed_keepsForm
  cancelLimitOrder done sound := by
    obtain ⟨same, orders⟩ := cancelLimitOrder_frame done
    apply sound.of_sameTerms (cancelLimitOrder_same done).sameTerms
    · rw [orders]
      exact sound.orders.remove
    · rw [same.callOrders]
      exact sound.calls
    · rw [same.bids]
      exact sound.bids
    · rw [same.settlements]
      exact sound.settlements
  matchLimitOrders done sound := matchLimitOrders_wellFormed sound done
  checkCallOrders := marginClosed_keepsForm.checkCallOrders

theorem find_eq_some (market : Market)
    (known : CallOrderUpdate.find market account mia = some (id, old)) :
    market.callOrders.get id = some old ∧ old.borrower = account ∧ old.debtType = mia := by
  have member := List.mem_of_find?_eq_some known
  have suits := List.find?_some known
  simp only [Bool.and_eq_true, beq_iff_eq] at suits
  exact ⟨Table.mem_rows.mp member, suits.1, suits.2⟩

theorem callSecured_of_callPrice (backed : market.backingOf mia = some backing)
    (owed : 0 < debt) (rated : 0 < ratio)
    (priced : Price.callPrice ⟨debt, mia⟩ ⟨collateral, backing⟩ ratio = some callPrice) :
    market.CallSecured ⟨borrower, collateral, debt, callPrice⟩ := by
  obtain ⟨-, base, quote, ⟨basePositive, baseMost⟩, quotePositive,
    quoteMost⟩ := Price.callPrice_spec owed rated priced
  have base' : callPrice.base.assetId = backing := base
  have quote' : callPrice.quote.assetId = mia := quote
  refine ⟨?_, ⟨basePositive, quotePositive⟩, baseMost, quoteMost⟩
  simp only [CallOrder.debtType, base', quote', backed]

section

variable (sound : WellFormed market)
include sound

theorem find_secured {op : CallOrderUpdate}
    (held : market.bitassets.get op.deltaDebt.assetId = some bitasset)
    (evaluated : op.evaluate bitasset market = true)
    (known : CallOrderUpdate.find market op.fundingAccount op.deltaDebt.assetId = some (id, old)) :
    old.callPrice.base.assetId = op.deltaCollateral.assetId := by
  simp only [CallOrderUpdate.evaluate, Bool.and_eq_true, beq_iff_eq] at evaluated
  have asset : op.deltaCollateral.assetId = bitasset.backing := evaluated.1.1.2
  obtain ⟨listed, -, kind⟩ := find_eq_some market known
  have secured := (sound.calls id old listed).1
  rw [kind, backingOf, held] at secured
  exact (Option.some.inj secured).symm.trans asset.symm

theorem adjust_wellFormed {op : CallOrderUpdate}
    (held : market.bitassets.get op.deltaDebt.assetId = some bitasset)
    (evaluated : op.evaluate bitasset market = true)
    (done : op.adjust bitasset market = .ok (placed, after)) : WellFormed after := by
  have same := (adjust_same done).sameTerms
  have rated := (sound.ratios _ bitasset held).current.ratio
  have backed := backingOf_of_held held
  simp only [CallOrderUpdate.evaluate, Bool.and_eq_true, beq_iff_eq] at evaluated
  have asset : op.deltaCollateral.assetId = bitasset.backing := evaluated.1.1.2
  obtain ⟨_, _, -, -, adjusted⟩ := CallOrderUpdate.adjust_spec done
  have frame := adjusted.frame
  apply sound.of_sameTerms same
  · obtain ⟨_, rfl⟩ := frame
    exact sound.orders
  · cases adjusted with
    | opened _ _ owed priced =>
      apply sound.calls.create
      rw [← asset] at backed
      exact callSecured_of_callPrice backed owed rated priced
    | changed known _ owed priced =>
      obtain ⟨listed, -, _⟩ := find_eq_some market known
      apply sound.calls.modify
      intro _ _
      have secured := (sound.calls _ _ listed).1
      exact callSecured_of_callPrice secured owed rated priced
    | closed _ _ _ => exact sound.calls.remove
  · obtain ⟨_, rfl⟩ := frame
    exact sound.bids
  · obtain ⟨_, rfl⟩ := frame
    exact sound.settlements

theorem placeBid_wellFormed {op : BidCollateral} (valid : op.validate = true)
    (done : op.placeBid market = .ok after) : WellFormed after := by
  have same := (placeBid_same done).sameTerms
  obtain ⟨_, covers, -, rfl⟩ := BidCollateral.placeBid_spec done
  apply sound.of_sameTerms same
  · exact sound.orders
  · exact sound.calls
  · apply sound.bids.create
    simp only [BidCollateral.validate, Bool.or_eq_true, beq_iff_eq,
      Bool.and_eq_true, decide_eq_true_eq] at valid
    rcases valid with nothing | ⟨debt, collateral⟩
    · exact absurd nothing covers
    · exact ⟨collateral.le, debt⟩
  · exact sound.settlements

theorem bidsExecuted_wellFormed (backed : market.backingOf mia = some backing)
    (rated : 0 < feed.maintenanceCollateralRatio)
    (executed : BidsExecuted mia backing feed debt fund market after) :
    WellFormed after ∧ SameAssets market after := by
  induction executed with
  | none => exact ⟨sound, SameAssets.refl _⟩
  | next listed kind asset owed step _ induction =>
    have same := executeBid_same step
    obtain ⟨_, _, listed', priced, -, rfl⟩ := executeBid_spec step
    rw [listed] at listed'
    cases listed'
    rw [kind, asset] at priced
    have between := sound.of_sameTerms same.sameTerms sound.orders (sound.calls.create
        (callSecured_of_callPrice backed owed rated priced)) sound.bids.remove sound.settlements
    obtain ⟨sound, later⟩ := induction between backed
    exact ⟨sound, same.trans later⟩

end

theorem cancelBid_keepsForm (done : market.cancelBid id = .ok after) : KeepsForm market after := by
  intro sound
  have same := (cancelBid_same done).sameTerms
  obtain ⟨_, _, -, -, rfl⟩ := cancelBid_spec done
  exact sound.of_sameTerms same sound.orders sound.calls sound.bids.remove sound.settlements

section

variable (sound : WellFormed market)
include sound

theorem cancelBids_wellFormed (done : cancelBids ids market = .ok after) : WellFormed after :=
  cancelBids_closed KeepsForm (fun _ sound => sound)
    (fun first second sound => second (first sound)) cancelBid_keepsForm done sound

theorem cancelBidsAndRevive_wellFormed (done : market.cancelBidsAndRevive mia = .ok after) :
    WellFormed after := by
  obtain ⟨_, _, cancelled, rfl⟩ := cancelBidsAndRevive_spec done
  have between := cancelBids_wellFormed sound cancelled
  exact between.of_sameTerms (sameTerms_modify _ _ _ fun _ => rfl)
    between.orders between.calls between.bids between.settlements

theorem WellFormed.issuerBid (supplied : 0 < market.currentSupply mia) (issuer : AccountId)
    (backing : Nat) : WellFormed { market with
      bids := market.bids.create ⟨issuer, ⟨⟨0, backing⟩, ⟨market.currentSupply mia, mia⟩⟩⟩ } :=
  ⟨sound.orders, sound.calls, sound.bids.create ⟨le_rfl, supplied⟩, sound.settlements,
    sound.ratios, sound.gasRate⟩

theorem reviveBitasset_wellFormed (done : market.reviveBitasset mia = .ok after) :
    WellFormed after := by
  obtain ⟨bitasset, _, _, _, held, -, ways, revived⟩ := reviveBitasset_cases done
  apply cancelBidsAndRevive_wellFormed _ revived
  rcases ways with ⟨-, -, -, rfl⟩ | ⟨supplied, ⟨_, rfl⟩, executed⟩
  · exact sound
  · have backed := backingOf_of_held held
    have rated := (sound.ratios mia bitasset held).current.ratio
    exact (bidsExecuted_wellFormed (sound.issuerBid supplied ..) backed rated executed).1

theorem processBids_wellFormed
    (held : market.bitassets.get mia = some { bitasset with forceSettledVolume
      :=  0 }) (done : market.processBids mia bitasset settlement = .ok after) :
    WellFormed after := by
  rcases processBids_cases sound.bids done with rfl | ⟨middle, executed, revived⟩
  · exact sound
  · have backed := backingOf_of_held held
    have rated : 0 < bitasset.currentFeed.maintenanceCollateralRatio :=
      (sound.ratios mia _ held).current.ratio
    have between := (bidsExecuted_wellFormed sound backed rated executed).1
    exact cancelBidsAndRevive_wellFormed between revived

end

theorem eventClosed_keepsForm : EventClosed KeepsForm where
  toTradeClosed := tradeClosed_keepsForm
  payFee paid sound := by
    have same := payFee_frame paid
    rw [same]
    exact ⟨sound.orders, sound.calls, sound.bids, sound.settlements, sound.ratios, sound.gasRate⟩
  placeOrder valid _ done sound := by
    have same := (place_same done).sameTerms
    obtain ⟨balances, -, rfl⟩ := LimitOrderCreate.place_spec done
    simp only [LimitOrderCreate.validate, Bool.and_eq_true, bne_iff_ne, decide_eq_true_eq] at valid
    obtain ⟨⟨distinct, sells⟩, asks⟩ := valid
    exact sound.of_sameTerms same (sound.orders.create ⟨sells, ⟨sells, asks⟩, distinct⟩) sound.calls
      sound.bids sound.settlements
  deferFee market id filled fee sound := by
    unfold LimitOrderCreate.deferFee
    split
    · split
      · refine ⟨sound.orders.modify ?_, sound.calls, sound.bids,
          sound.settlements, sound.ratios, sound.gasRate⟩
        intro order listed
        have here := sound.orders id order listed
        exact ⟨here.forSale, here.positive, here.distinct⟩
      · exact sound
    · exact sound
  adjustCallOrder _ held evaluated done sound := adjust_wellFormed sound held evaluated done
  cancelBid := cancelBid_keepsForm
  placeBid valid _ _ done sound := placeBid_wellFormed sound valid done
  settle _ held done sound := by
    have same := settle_same done
    obtain ⟨balances, -, ⟨-, _, rfl⟩ | ⟨_, _, _, -, -, -, rfl⟩⟩ := AssetSettle.apply_cases done
    · apply sound.of_sameTerms same sound.orders sound.calls sound.bids
      apply sound.settlements.create
      simp [isMarketIssued, held]
    · exact sound.of_sameTerms same sound.orders sound.calls sound.bids sound.settlements
  cancelSettlement done sound := by
    have same := (cancelSettlement_same done).sameTerms
    obtain ⟨settle, balances, -, -, rfl⟩ := cancelSettlement_spec done
    exact sound.of_sameTerms same sound.orders sound.calls sound.bids sound.settlements.remove
  matchSettlement _ done sound := by
    obtain ⟨_, settle, _, _, _, _, -, -, -, -, -, -, -, first, second⟩ := matchSettlement_spec done
    have between := fillCallOrder_wellFormed sound first
    have same := (fillSettlement_same second).sameTerms
    obtain ⟨settle, _, _, _, -, -, -, -, rfl⟩ := fillSettlement_spec second
    apply between.of_sameTerms same between.orders between.calls between.bids
    split
    · apply between.settlements.modify
      intro settle listed
      exact between.settlements _ settle listed
    · exact between.settlements.remove
  setVolume market mia volume sound :=
    sound.of_sameTerms (sameTerms_modify _ _ _ fun _ => rfl) sound.orders
      sound.calls sound.bids sound.settlements
  reviveBitasset done sound := reviveBitasset_wellFormed sound done
  processBids held _ done sound := processBids_wellFormed sound held done

theorem usable_null : PriceFeed.null.Usable :=
  ⟨by decide, fun priced => by cases priced⟩

theorem rated_updateMedianFeeds (now : Nat) (stored : ∀ feed ∈ bitasset.feeds, feed.2.2.Usable) :
    (bitasset.updateMedianFeeds now).Rated := by
  refine ⟨?_, by simpa using stored⟩
  rcases bitasset.updateMedianFeeds_cases now with null | ⟨⟨feed, member, -,
    price⟩, other, memberToo, ratio⟩
  · rw [null]
    exact usable_null
  · constructor
    · rw [← ratio]
      exact (stored other memberToo).ratio
    · rw [← price]
      exact (stored feed member).price

theorem keepsForm_modify (options : ∀ bitasset, (change bitasset).options = bitasset.options)
    (rated : ∀ bitasset, bitasset.Rated → (change bitasset).Rated) :
    KeepsForm market { market with
      bitassets := market.bitassets.modify mia change } := by
  intro sound
  have backings : backingOf { market with
      bitassets := market.bitassets.modify mia change } =
      market.backingOf := by
    funext other
    simp only [backingOf, Table.get_modify]
    split
    · rename_i here
      cases held : market.bitassets.get mia with
      | none => simp [here, held]
      | some bitasset =>
        simp [here, held, BitassetData.backing, options]
    · rfl
  refine ⟨sound.orders, ?_, sound.bids, ?_, ?_, sound.gasRate⟩
  · intro id call listed
    rw [CallSecured, backings]
    exact sound.calls id call listed
  · intro id settle listed
    rw [isMarketIssued_eq, backings, ← isMarketIssued_eq]
    exact sound.settlements id settle listed
  · apply sound.ratios.modify
    intro bitasset held
    exact rated bitasset (sound.ratios mia bitasset held)

theorem usable_of_validate {op : AssetPublishFeed}
    (valid : op.validate = true) : op.feed.Usable := by
  simp only [AssetPublishFeed.validate, PriceFeed.validate, Price.validate,
    Bool.and_eq_true, Bool.or_eq_true, Bool.not_eq_true', decide_eq_true_eq] at valid
  obtain ⟨⟨⟨⟨⟨⟨⟨⟨price, -⟩, -⟩, _⟩, -⟩, -⟩, -⟩, priced⟩, -⟩ := valid
  refine ⟨by omega, fun _ => ?_⟩
  rcases price with null | ⟨positive, -⟩
  · rw [priced] at null
    cases null
  · exact ⟨positive.1, positive.2⟩

theorem feedClosed_keepsForm : FeedClosed KeepsForm where
  toEventClosed := eventClosed_keepsForm
  publishFeed valid _ _ := by
    apply keepsForm_modify
    · intro bitasset
      simp [AssetPublishFeed.change]
    · intro bitasset rated
      apply rated_updateMedianFeeds
      intro feed member
      rcases mem_insertFeed member with rfl | old
      · exact usable_of_validate valid
      · exact rated.stored feed old
  updateProducers market op := by
    apply keepsForm_modify
    · intro bitasset
      simp [AssetUpdateFeedProducers.change]
    · intro bitasset rated
      apply rated_updateMedianFeeds
      intro feed member
      rcases AssetUpdateFeedProducers.mem_addProducers member with old | new
      · exact rated.stored feed (List.mem_of_mem_filter old)
      · rw [new]
        exact usable_null
  expire market mia := by
    apply keepsForm_modify
    · intro bitasset
      simp
    · intro bitasset rated
      exact rated_updateMedianFeeds _ rated.stored
  advance _ _ sound :=
    ⟨sound.orders, sound.calls, sound.bids, sound.settlements, sound.ratios, sound.gasRate⟩

end Market

end CocosChain.Chain

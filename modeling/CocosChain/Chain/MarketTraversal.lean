import CocosChain.Chain.MarketUpkeep

/-!
# Relations that every event respects

A relation between the states before and after is respected by an event if it
is reflexive and transitive and holds for each of the steps that the event is
put together from: a trade, a cancelled order, a fee, a global settlement.
The loops are gone through here once, for all such relations.
-/

namespace CocosChain.Chain

namespace Market

/-- The relation holds for the steps that matching orders consists of. -/
structure TradeClosed (related : Market → Market → Prop) : Prop where
  refl : ∀ market, related market market
  trans : ∀ {market middle after}, related market middle →
    related middle after → related market after
  cancelLimitOrder : ∀ {market after id},
    market.cancelLimitOrder id = .ok after → related market after
  matchLimitOrders : ∀ {market after usdId coreId price filled},
    market.matchLimitOrders usdId coreId price = .ok (filled, after) → related market after
  checkCallOrders : ∀ {market after mia enable called},
    market.checkCallOrders mia enable = .ok (called, after) → related market after
  globallySettleAsset : ∀ {market after mia price},
    market.globallySettleAsset mia price = .ok after → related market after

/-- The relation holds for the steps that a check of the call orders consists
of. -/
structure MarginClosed (related : Market → Market → Prop) : Prop where
  refl : ∀ market, related market market
  trans : ∀ {market middle after}, related market middle →
    related middle after → related market after
  marginCall : ∀ {market after callId limitId call order usedUp},
    market.callOrders.get callId = some call →
    market.limitOrders.get limitId = some order →
    market.marginCall callId limitId call order = .ok (usedUp, after) → related market after
  globallySettleAsset : ∀ {market after mia price},
    market.globallySettleAsset mia price = .ok after → related market after

/-- The relation holds for the steps that clearing expired orders consists
of. -/
structure UpkeepClosed (related : Market → Market → Prop) : Prop where
  refl : ∀ market, related market market
  trans : ∀ {market middle after}, related market middle →
    related middle after → related market after
  cancelLimitOrder : ∀ {market after id},
    market.cancelLimitOrder id = .ok after → related market after
  checkCallOrders : ∀ {market after mia enable called},
    market.checkCallOrders mia enable = .ok (called, after) → related market after
  payFee : ∀ {market after terms account coreFee fee},
    market.payFee terms account coreFee = .ok (fee, after) → related market after
  cancelSettlement : ∀ {market after id},
    market.cancelSettlement id = .ok after → related market after
  matchSettlement : ∀ {market after callId settleId price most amount},
    0 < most →
    market.matchSettlement callId settleId price most = .ok (amount, after) → related market after
  setVolume : ∀ market mia volume, related market { market with
    bitassets := market.bitassets.modify mia fun bitasset =>
      { bitasset with forceSettledVolume := volume } }

/-- The relation holds for the steps that the operations other than a change
of a call order consist of. -/
structure LoanFreeClosed (related : Market → Market → Prop) : Prop extends
    TradeClosed related, UpkeepClosed related where
  placeOrder : ∀ {market after terms} {op : LimitOrderCreate},
    op.validate = true → op.evaluate terms market = true →
    op.place market = .ok after → related market after
  cancelBid : ∀ {market after id}, market.cancelBid id = .ok after → related market after
  placeBid : ∀ {market after bitasset} {op : BidCollateral},
    op.validate = true →
    market.bitassets.get op.debtCovered.assetId = some bitasset →
    op.additionalCollateral.assetId = bitasset.backing →
    op.placeBid market = .ok after → related market after
  settle : ∀ {market after bitasset} {op : AssetSettle},
    0 ≤ op.amount.amount →
    market.bitassets.get op.amount.assetId = some bitasset →
    op.apply bitasset market = .ok after → related market after
  reviveBitasset : ∀ {market after mia},
    market.reviveBitasset mia = .ok after → related market after
  processBids : ∀ {market after mia bitasset settlement},
    market.bitassets.get mia = some { bitasset with forceSettledVolume := 0 } →
    bitasset.settlement = some settlement →
    market.processBids mia bitasset settlement = .ok after → related market after

/-- The relation also holds when a call order is changed. -/
structure StepClosed (related : Market → Market → Prop) : Prop extends
    LoanFreeClosed related where
  adjustCallOrder : ∀ {market after bitasset placed} {op : CallOrderUpdate},
    op.validate = true →
    market.bitassets.get op.deltaDebt.assetId = some bitasset →
    op.evaluate bitasset market = true →
    op.adjust bitasset market = .ok (placed, after) → related market after

/-- The relation also holds when the fee of a limit order is deferred. -/
structure EventClosed (related : Market → Market → Prop) : Prop extends
    StepClosed related where
  deferFee : ∀ market id filled fee,
    related market (LimitOrderCreate.deferFee market id filled fee)

/-- The relation holds for the steps of every event but a change of a call
order, with those of feeds and with the time going on. -/
structure LoanFreeFeedClosed (related : Market → Market → Prop) : Prop extends
    LoanFreeClosed related where
  deferFee : ∀ market id filled fee,
    related market (LimitOrderCreate.deferFee market id filled fee)
  publishFeed : ∀ {market asset bitasset terms} {op : AssetPublishFeed},
    op.validate = true →
    market.bitassets.get op.assetId = some bitasset →
    op.evaluate terms asset bitasset = true →
    related market { market with
      bitassets := market.bitassets.modify op.assetId
        (op.change market.headBlockTime) }
  updateProducers : ∀ market (op : AssetUpdateFeedProducers),
    related market { market with
      bitassets := market.bitassets.modify op.assetToUpdate
        (op.change market.headBlockTime) }
  expire : ∀ market mia, related market { market with
    bitassets := market.bitassets.modify mia fun bitasset =>
      bitasset.updateMedianFeeds market.headBlockTime }
  advance : ∀ market time, related market { market with headBlockTime := time }

/-- The relation holds for the steps of every event. -/
structure FeedClosed (related : Market → Market → Prop) : Prop extends
    EventClosed related, LoanFreeFeedClosed related

variable {market : Market}

/-- What every relation that all events respect says. -/
def AtEvent (market after : Market) : Prop := ∀ related, EventClosed related → related market after

theorem EventClosed.of_atEvent
    (implies : ∀ {market after}, AtEvent market after → weaker market after)
    (trans : ∀ {market middle after}, weaker market middle →
      weaker middle after → weaker market after) : EventClosed weaker where
  refl market := implies fun _ closed => closed.refl market
  trans := trans
  cancelLimitOrder done := implies fun _ closed => closed.cancelLimitOrder done
  matchLimitOrders done := implies fun _ closed => closed.matchLimitOrders done
  checkCallOrders done := implies fun _ closed => closed.checkCallOrders done
  globallySettleAsset done := implies fun _ closed => closed.globallySettleAsset done
  payFee done := implies fun _ closed => closed.payFee done
  placeOrder valid evaluated done := implies fun _ closed => closed.placeOrder valid evaluated done
  deferFee market id filled fee := implies fun _ closed => closed.deferFee market id filled fee
  adjustCallOrder valid held evaluated done :=
    implies fun _ closed => closed.adjustCallOrder valid held evaluated done
  cancelBid done := implies fun _ closed => closed.cancelBid done
  placeBid valid held asset done := implies fun _ closed => closed.placeBid valid held asset done
  settle nonneg held done := implies fun _ closed => closed.settle nonneg held done
  cancelSettlement done := implies fun _ closed => closed.cancelSettlement done
  matchSettlement some done := implies fun _ closed => closed.matchSettlement some done
  setVolume market mia volume := implies fun _ closed => closed.setVolume market mia volume
  reviveBitasset done := implies fun _ closed => closed.reviveBitasset done
  processBids held settled done := implies fun _ closed => closed.processBids held settled done

theorem eventClosed_atEvent : EventClosed AtEvent :=
  .of_atEvent (fun event => event) fun first second related closed =>
    closed.trans (first related closed) (second related closed)

theorem EventClosed.mono (closed : EventClosed related)
    (implies : ∀ {market after}, related market after → weaker market after)
    (trans : ∀ {market middle after}, weaker market middle →
      weaker middle after → weaker market after) : EventClosed weaker :=
  .of_atEvent (fun event => implies (event related closed)) trans

theorem head?_callRange (first : (market.callRange backing mia).head? = some row) :
    market.callOrders.get row.1 = some row.2 ∧ row.2.callPrice.lt (Price.min backing mia) = false ∧
      row.2.callPrice.gt (Price.max backing mia) = false := by
  have member := List.mem_of_mem_head? first
  simp only [callRange, List.mem_insertionSort, List.mem_filter,
    Bool.and_eq_true, Bool.not_eq_true'] at member
  exact ⟨Table.mem_rows.mp member.1, member.2⟩

theorem closeCallOrders_cons {id : Nat}
    (done : closeCallOrders backing price (id :: rest) start market = .ok (gathered, after)) :
    ∃ call value middle, market.callOrders.get id = some call ∧
      call.getDebt.times price = some value ∧ value.assetId = backing ∧
      market.fillCallOrder id ⟨Min.min value.amount call.collateral,
        value.assetId⟩ call.getDebt = .ok (true, middle) ∧
      middle.callOrders = market.callOrders.remove id ∧
      closeCallOrders backing price rest
        (start + Min.min value.amount call.collateral) middle = .ok (gathered, after) := by
  simp only [closeCallOrders, bind_eq_ok, found_eq_ok, ensure_eq_ok,
    Prod.exists, beq_iff_eq] at done
  obtain ⟨call, listed, value, worth, -, -, -, backed, _, middle, filled, -, rfl, later⟩ := done
  refine ⟨call, value, middle, listed, worth, backed, filled, ?_, later⟩
  obtain ⟨_, -, -, -, -, ⟨-, -, _, -, rfl⟩ | ⟨-, kept, -⟩⟩ := fillCallOrder_spec filled
  · rfl
  · cases kept

theorem closeCallOrders_closed (related : Market → Market → Prop)
    (refl : ∀ market, related market market)
    (trans : ∀ {market middle after}, related market middle → related middle
      after → related market after)
    (fillCallOrder : ∀ {market after id pays receives closed},
      market.fillCallOrder id pays receives = .ok (closed, after) → related
      market after)
    (done : closeCallOrders backing price ids start market = .ok (gathered,
      after)) : related market after := by
  induction ids generalizing start market with
  | nil =>
    cases done
    exact refl _
  | cons id rest induction =>
    obtain ⟨_, _, _, -, -, -, filled, -, later⟩ := closeCallOrders_cons done
    exact trans (fillCallOrder filled) (induction later)

namespace MarginClosed

variable (closed : MarginClosed related)
include closed

theorem checkForBlackswan (done : market.checkForBlackswan mia enable = .ok (swan, after)) :
    related market after := by
  rcases checkForBlackswan_cases done with ⟨-, rfl, -⟩ | ⟨-, rfl, -⟩ |
    ⟨-, -, _, _, -, -, -, -, settled⟩
  · exact closed.refl _
  · exact closed.refl _
  · exact closed.globallySettleAsset settled

theorem marginLoop (done : Market.marginLoop mia enable bitasset fuel limits filled called
      market = .ok (result, after)) : related market after := by
  induction fuel generalizing limits filled called market with
  | zero => cases done
  | succ fuel induction =>
    obtain ⟨_, _, check, stops | ⟨_, _, _, _,
      _, _, -, pair, settles | ⟨-, _, _, traded, later⟩⟩⟩ := marginLoop_cases done
    · rw [stops.2.2]
      exact closed.checkForBlackswan check
    · exact closed.trans (closed.checkForBlackswan check) (closed.globallySettleAsset settles.2.2.2)
    · have first := (head?_callRange pair.first).1
      exact closed.trans (closed.checkForBlackswan check)
        (closed.trans (closed.marginCall first pair.listed traded) (induction later))

theorem callMargins (done : market.callMargins mia enable bitasset = .ok (called, after)) :
    related market after := by
  obtain ⟨_, -, ⟨-, -, rfl⟩ | looped⟩ := callMargins_cases done
  · exact closed.refl _
  · exact closed.marginLoop looped

theorem checkCallOrders (done : market.checkCallOrders mia enable = .ok (called, after)) :
    related market after := by
  rcases checkCallOrders_cases done with ⟨-, rfl, -⟩ |
    ⟨_, _, _, -, check, ⟨-, -, rfl⟩ | ⟨-, -, called⟩⟩
  · exact closed.refl _
  · exact closed.checkForBlackswan check
  · exact closed.trans (closed.checkForBlackswan check) (closed.callMargins called)

end MarginClosed

namespace TradeClosed

variable {id : Nat}

variable (closed : TradeClosed related)
include closed

theorem maybeCull (done : market.maybeCullSmallOrder id = .ok (culled, after)) :
    related market after := by
  simp only [maybeCullSmallOrder, bind_eq_ok, found_eq_ok] at done
  obtain ⟨_, -, _, -, done⟩ := done
  split at done
  · simp only [bind_eq_ok, pure_eq_ok, Prod.mk.injEq] at done
    obtain ⟨_, cancelled, -, rfl⟩ := done
    exact closed.cancelLimitOrder cancelled
  · cases done
    exact closed.refl market

theorem matchLoop (done : Market.matchLoop id olds market = .ok after) : related market after := by
  induction olds generalizing market with
  | nil =>
    cases done
    exact closed.refl _
  | cons old rest induction =>
    simp only [Market.matchLoop, bind_eq_ok, found_eq_ok, Prod.exists] at done
    obtain ⟨_, -, _, _, _, matched, done⟩ := done
    apply closed.trans (closed.matchLimitOrders matched)
    split at done
    · exact induction done
    · cases done
      exact closed.refl _

theorem matchNewOrder (done : market.matchNewOrder id order = .ok (filled, after)) :
    related market after := by
  simp only [Market.matchNewOrder, bind_eq_ok, Prod.exists] at done
  obtain ⟨_, looped, _, _, checked, _, _, checkedToo, done⟩ := done
  apply closed.trans (closed.matchLoop looped)
  apply closed.trans (closed.checkCallOrders checked)
  apply closed.trans (closed.checkCallOrders checkedToo)
  split at done
  · cases done
    exact closed.refl _
  · exact closed.maybeCull done

theorem applyOrder (done : market.applyOrder id = .ok (filled, after)) : related market after := by
  simp only [Market.applyOrder, bind_eq_ok, found_eq_ok, ensure_eq_ok, Prod.exists] at done
  obtain ⟨_, -, -, -, _, -, -, -, _, _, checked, _, _, checkedToo, done⟩ := done
  apply closed.trans (closed.checkCallOrders checked)
  apply closed.trans (closed.checkCallOrders checkedToo)
  split at done
  · cases done
    exact closed.refl _
  · exact closed.matchNewOrder done

end TradeClosed

namespace UpkeepClosed

theorem cancelApply (closed : UpkeepClosed related) {op : LimitOrderCancel}
    (done : op.apply market = .ok after) : related market after := by
  simp only [LimitOrderCancel.apply, bind_eq_ok, found_eq_ok, ensure_eq_ok,
    pure_eq_ok, Prod.exists] at done
  obtain ⟨_, -, -, -, _, cancelled, _, _, checked, _, _, checkedToo, rfl⟩ := done
  apply closed.trans (closed.cancelLimitOrder cancelled)
  exact closed.trans (closed.checkCallOrders checked) (closed.checkCallOrders checkedToo)

theorem limitOrderCancel (closed : UpkeepClosed related) {op : LimitOrderCancel}
    (done : op.perform terms market = .ok after) : related market after := by
  simp only [LimitOrderCancel.perform, bind_eq_ok, pure_eq_ok, Prod.exists] at done
  obtain ⟨_, applying, _, _, payment, rfl⟩ := done
  exact closed.trans (closed.cancelApply applying) (closed.payFee payment)

variable (closed : UpkeepClosed related)
include closed

theorem cancelExpired (done : Market.cancelExpired terms fuel market = .ok after) :
    related market after := by
  induction fuel generalizing market with
  | zero => cases done
  | succ fuel induction =>
    unfold Market.cancelExpired at done
    split at done
    · cases done
      exact closed.refl _
    · simp only [bind_eq_ok] at done
      obtain ⟨_, cancelled, later⟩ := done
      exact closed.trans (closed.limitOrderCancel cancelled) (induction later)

theorem settleLoop {id : Nat}
    (done : Market.settleLoop mia backing id price most fuel settled market = .ok (result, after)) :
    related market after := by
  induction fuel generalizing settled market with
  | zero => cases done
  | succ fuel induction =>
    unfold Market.settleLoop at done
    split at done
    · cases done
      exact closed.refl _
    · split at done
      · cases done
        exact closed.refl _
      · split at done
        · cases done
        · split at done
          · cases done
          · split at done
            · simp only [bind_eq_ok, pure_eq_ok, Prod.mk.injEq] at done
              obtain ⟨middle, cancelled, -, rfl⟩ := done
              exact closed.cancelSettlement cancelled
            · split at done
              · rename_i matched
                have some : 0 < most - settled := by omega
                exact closed.trans (closed.matchSettlement some matched) (induction done)
              · simp only [bind_eq_ok, pure_eq_ok, Prod.mk.injEq] at done
                obtain ⟨_, cancelled, -, rfl⟩ := done
                exact closed.cancelSettlement cancelled
              · cases done

theorem settleOrder {id : Nat} (done : market.settleOrder id order bitasset most = .ok after) :
    related market after := by
  simp only [Market.settleOrder, bind_eq_ok, found_eq_ok, pure_eq_ok, Prod.exists] at done
  obtain ⟨_, -, _, _, looped, rfl⟩ := done
  exact closed.trans (closed.settleLoop looped) (closed.setVolume ..)

theorem settleFirst {id : Nat}
    (done : market.settleFirst id order bitasset most = .ok (next, newMost, after)) :
    related market after := by
  unfold Market.settleFirst at done
  simp only at done
  split at done
  · simp only [bind_eq_ok, pure_eq_ok, Prod.mk.injEq] at done
    obtain ⟨middle, cancelled, -, -, rfl⟩ := done
    exact closed.cancelSettlement cancelled
  · split at done
    · cases done
      exact closed.refl _
    · split at done
      · simp only [bind_eq_ok, pure_eq_ok, Prod.mk.injEq] at done
        obtain ⟨middle, cancelled, -, -, rfl⟩ := done
        exact closed.cancelSettlement cancelled
      · split at done
        · cases done
          exact closed.refl _
        · simp only [bind_eq_ok, pure_eq_ok, Prod.mk.injEq] at done
          obtain ⟨_, settled, -, -, rfl⟩ := done
          exact closed.settleOrder settled

theorem settleDue (done : Market.settleDue fuel current most market = .ok after) :
    related market after := by
  induction fuel generalizing current most market with
  | zero => cases done
  | succ fuel induction =>
    cases current with
    | none =>
      cases done
      exact closed.refl _
    | some asset =>
      simp only [Market.settleDue] at done
      split at done
      · cases done
        exact closed.refl _
      · simp only [bind_eq_ok, ensure_eq_ok, found_eq_ok, Prod.exists] at done
        obtain ⟨-, -, _, -, _, _, _, first, later⟩ := done
        exact closed.trans (closed.settleFirst first) (induction later)

theorem clearExpiredOrders (done : market.clearExpiredOrders terms = .ok after) :
    related market after := by
  simp only [Market.clearExpiredOrders, bind_eq_ok] at done
  obtain ⟨_, cancelled, settled⟩ := done
  exact closed.trans (closed.cancelExpired cancelled) (closed.settleDue settled)

end UpkeepClosed

theorem cancelDisabled_closed (related : Market → Market → Prop)
    (refl : ∀ market, related market market)
    (trans : ∀ {market middle after}, related market middle → related middle
      after → related market after)
    (cancelSettlement : ∀ {market after id}, market.cancelSettlement id = .ok
      after → related market after) {op : AssetUpdate}
    (done : op.cancelDisabled asset market = .ok after) : related market after := by
  have cancelled : ∀ ids market, cancelSettlements ids market = .ok after →
      related market after := by
    intro ids
    induction ids with
    | nil =>
      intro market nothing
      cases nothing
      exact refl _
    | cons id rest induction =>
      intro market cancelling
      obtain ⟨middle, first, later⟩ := bind_eq_ok.mp cancelling
      exact trans (cancelSettlement first) (induction middle later)
  unfold AssetUpdate.cancelDisabled at done
  split at done
  · exact cancelled _ market done
  · cases done
    exact refl _

theorem cancelBid_bitassets {id : Nat} (cancelled : market.cancelBid id = .ok after) :
    after.bitassets = market.bitassets := by
  simp only [cancelBid, bind_eq_ok, found_eq_ok, pure_eq_ok] at cancelled
  obtain ⟨_, -, _, adjusted, rfl⟩ := cancelled
  obtain ⟨_, -, rfl⟩ := adjustBalance_eq_ok.mp adjusted
  rfl

theorem TradeClosed.checkPlaced (closed : TradeClosed related) {op : CallOrderUpdate} {id : Nat}
    (done : op.checkPlaced bitasset id market = .ok after) : related market after := by
  simp only [CallOrderUpdate.checkPlaced, bind_eq_ok, Prod.exists] at done
  obtain ⟨_, middle, checked, done⟩ := done
  have same : middle = after := by
    split at done
    · exact Except.ok.inj done
    · cases done
    · cases done
    · simp only [bind_eq_ok, ensure_eq_ok, pure_eq_ok] at done
      obtain ⟨-, -, same⟩ := done
      exact same
  rw [← same]
  exact closed.checkCallOrders checked

namespace LoanFreeClosed

variable (closed : LoanFreeClosed related)
include closed

theorem limitOrderCreate {op : LimitOrderCreate} (done : op.perform terms market = .ok after) :
    ∃ middle id filled fee, related market middle ∧
      after = LimitOrderCreate.deferFee middle id filled fee := by
  simp only [LimitOrderCreate.perform, LimitOrderCreate.apply, bind_eq_ok,
    ensure_eq_ok, pure_eq_ok, Prod.exists, Prod.mk.injEq] at done
  obtain ⟨-, valid, -, evaluated, _, _, ⟨_, placing, done,
    _, trading, -, -, rfl, rfl⟩, _, paid, payment, rfl⟩ := done
  refine ⟨paid, _, _, _, ?_, rfl⟩
  apply closed.trans (closed.placeOrder valid evaluated placing)
  exact closed.trans (closed.applyOrder trading) (closed.payFee payment)

theorem bidCollateral {op : BidCollateral}
    (done : op.perform terms market = .ok after) : related market after := by
  simp only [BidCollateral.perform, bind_eq_ok, ensure_eq_ok, found_eq_ok,
    pure_eq_ok, Prod.exists] at done
  obtain ⟨-, valid, bitasset, held, -, evaluated, _, applying, _, _, payment, rfl⟩ := done
  apply closed.trans _ (closed.payFee payment)
  simp only [BidCollateral.evaluate, Bool.and_eq_true, beq_iff_eq] at evaluated
  have asset := evaluated.1.2
  unfold BidCollateral.apply at applying
  split at applying
  · simp only [bind_eq_ok, ensure_eq_ok] at applying
    obtain ⟨-, -, placed⟩ := applying
    exact closed.placeBid valid held asset placed
  · simp only [bind_eq_ok] at applying
    obtain ⟨middle, cancelled, applying⟩ := applying
    apply closed.trans (closed.cancelBid cancelled)
    split at applying
    · cases applying
      exact closed.refl _
    · have still : middle.bitassets.get op.debtCovered.assetId = some bitasset := by
        rw [cancelBid_bitassets cancelled]
        exact held
      exact closed.placeBid valid still asset applying

theorem assetSettle {op : AssetSettle}
    (done : op.perform terms market = .ok after) : related market after := by
  simp only [AssetSettle.perform, bind_eq_ok, ensure_eq_ok, found_eq_ok,
    pure_eq_ok, Prod.exists, decide_eq_true_eq] at done
  obtain ⟨-, nonneg, _, -, _, held, -, -, _, applying, _, _, payment, rfl⟩ := done
  exact closed.trans (closed.settle nonneg held applying) (closed.payFee payment)

theorem assetGlobalSettle {op : AssetGlobalSettle} (done : op.perform terms market = .ok after) :
    related market after := by
  simp only [AssetGlobalSettle.perform, bind_eq_ok, ensure_eq_ok,
    found_eq_ok, pure_eq_ok, Prod.exists] at done
  obtain ⟨-, -, _, -, _, -, -, -, -, -, _, settling, _, _, payment, rfl⟩ := done
  exact closed.trans (closed.globallySettleAsset settling) (closed.payFee payment)

theorem maintainBitasset (done : market.maintainBitasset mia = .ok after) :
    related market after := by
  simp only [Market.maintainBitasset, bind_eq_ok, found_eq_ok] at done
  obtain ⟨_, held, done⟩ := done
  apply closed.trans (closed.setVolume market mia 0)
  split at done
  · cases done
    exact closed.refl _
  · rename_i settlement settled
    apply closed.processBids _ settled done
    simp [Table.get_modify, held]

theorem maintainBitassets (done : Market.maintainBitassets ids market = .ok after) :
    related market after := by
  induction ids generalizing market with
  | nil =>
    cases done
    exact closed.refl _
  | cons mia rest induction =>
    simp only [Market.maintainBitassets, bind_eq_ok] at done
    obtain ⟨_, first, later⟩ := done
    exact closed.trans (closed.maintainBitasset first) (induction later)

/-- What follows the change of the call order. -/
theorem callOrderUpdate {op : CallOrderUpdate} (done : op.perform terms market = .ok after) :
    ∃ bitasset placed middle, op.validate = true ∧
      market.bitassets.get op.deltaDebt.assetId = some bitasset ∧
      op.evaluate bitasset market = true ∧
      op.adjust bitasset market = .ok (placed, middle) ∧ related middle after := by
  simp only [CallOrderUpdate.perform, CallOrderUpdate.apply, bind_eq_ok,
    ensure_eq_ok, found_eq_ok, pure_eq_ok, Prod.exists] at done
  obtain ⟨-, valid, bitasset, held, -, evaluated, _, ⟨placed, middle,
    adjusted, finishing⟩, _, _, payment, rfl⟩ := done
  refine ⟨bitasset, placed, middle, valid, held, evaluated, adjusted, ?_⟩
  apply closed.trans _ (closed.payFee payment)
  split at finishing
  · cases finishing
    exact closed.refl _
  · exact closed.checkPlaced finishing

end LoanFreeClosed

theorem StepClosed.callOrderUpdate (closed : StepClosed related) {op : CallOrderUpdate}
    (done : op.perform terms market = .ok after) : related market after := by
  obtain ⟨_, _, _, valid, held, evaluated, adjusted, later⟩ :=
    closed.toLoanFreeClosed.callOrderUpdate done
  exact closed.trans (closed.adjustCallOrder valid held evaluated adjusted) later

namespace LoanFreeFeedClosed

variable (closed : LoanFreeFeedClosed related)
include closed

theorem limitOrderCreate {op : LimitOrderCreate} (done : op.perform terms market = .ok after) :
    related market after := by
  obtain ⟨_, _, _, _, created, rfl⟩ := closed.toLoanFreeClosed.limitOrderCreate done
  exact closed.trans created (closed.deferFee ..)

theorem react (done : AssetPublishFeed.react market mia old bitasset = .ok after) :
    related market after := by
  unfold AssetPublishFeed.react at done
  split at done
  · cases done
    exact closed.refl _
  · simp only [bind_eq_ok, pure_eq_ok, Prod.exists] at done
    obtain ⟨_, reviving, _, _, checking, rfl⟩ := done
    apply closed.trans _ (closed.checkCallOrders checking)
    unfold AssetPublishFeed.maybeRevive at reviving
    split at reviving
    · cases reviving
      exact closed.refl _
    · simp only [bind_eq_ok] at reviving
      obtain ⟨_, -, reviving⟩ := reviving
      split at reviving
      · exact closed.reviveBitasset reviving
      · cases reviving
        exact closed.refl _

theorem assetPublishFeed {op : AssetPublishFeed} (done : op.perform terms market = .ok after) :
    related market after := by
  simp only [AssetPublishFeed.perform, bind_eq_ok, ensure_eq_ok, found_eq_ok,
    pure_eq_ok, Prod.exists] at done
  obtain ⟨-, valid, _, -, _, held, -, evaluated, _, reacting, _, _, payment, rfl⟩ := done
  apply closed.trans (closed.publishFeed valid held evaluated)
  exact closed.trans (closed.react reacting) (closed.payFee payment)

theorem assetUpdateFeedProducers {op : AssetUpdateFeedProducers}
    (done : op.perform terms market = .ok after) : related market after := by
  simp only [AssetUpdateFeedProducers.perform, bind_eq_ok, ensure_eq_ok,
    found_eq_ok, pure_eq_ok, Prod.exists] at done
  obtain ⟨_, -, -, -, -, -, _, _, checking, _, _, payment, rfl⟩ := done
  apply closed.trans (closed.updateProducers market op)
  exact closed.trans (closed.checkCallOrders checking) (closed.payFee payment)

theorem expireFeed (done : market.expireFeed mia = .ok after) : related market after := by
  simp only [Market.expireFeed, bind_eq_ok, found_eq_ok] at done
  obtain ⟨_, -, done⟩ := done
  split at done
  · simp only [bind_eq_ok, pure_eq_ok, Prod.exists] at done
    obtain ⟨_, _, checking, rfl⟩ := done
    exact closed.trans (closed.expire market mia) (closed.checkCallOrders checking)
  · cases done
    exact closed.refl _

theorem expireFeeds (done : Market.expireFeeds ids market = .ok after) : related market after := by
  induction ids generalizing market with
  | nil =>
    cases done
    exact closed.refl _
  | cons mia rest induction =>
    simp only [Market.expireFeeds, bind_eq_ok] at done
    obtain ⟨_, first, later⟩ := done
    exact closed.trans (closed.expireFeed first) (induction later)

theorem perform (loanFree : ∀ op, event ≠ .callOrderUpdate op)
    (done : market.perform terms event = .ok after) : related market after := by
  cases event with
  | limitOrderCreate op => exact closed.limitOrderCreate done
  | limitOrderCancel op => exact closed.limitOrderCancel done
  | callOrderUpdate op => exact absurd rfl (loanFree op)
  | bidCollateral op => exact closed.bidCollateral done
  | assetSettle op => exact closed.assetSettle done
  | assetGlobalSettle op => exact closed.assetGlobalSettle done
  | assetPublishFeed op => exact closed.assetPublishFeed done
  | assetUpdateFeedProducers op => exact closed.assetUpdateFeedProducers done
  | payFee account =>
    simp only [Market.perform, bind_eq_ok, pure_eq_ok, Prod.exists] at done
    obtain ⟨_, _, payment, rfl⟩ := done
    exact closed.payFee payment
  | clearExpiredOrders => exact closed.clearExpiredOrders done
  | updateExpiredFeeds => exact closed.expireFeeds done
  | maintenance => exact closed.maintainBitassets done
  | advance time =>
    cases done
    exact closed.advance market time

end LoanFreeFeedClosed

namespace FeedClosed

theorem perform (closed : FeedClosed related) (done : market.perform terms event = .ok after) :
    related market after := by
  by_cases loan : ∃ op, event = .callOrderUpdate op
  · obtain ⟨_, rfl⟩ := loan
    exact closed.callOrderUpdate done
  · exact closed.toLoanFreeFeedClosed.perform (not_exists.mp loan) done

theorem run (closed : FeedClosed related) (done : market.run events = .ok after) :
    related market after := by
  induction events generalizing market with
  | nil =>
    cases done
    exact closed.refl _
  | cons step rest induction =>
    simp only [Market.run, bind_eq_ok] at done
    obtain ⟨_, first, later⟩ := done
    exact closed.trans (closed.perform first) (induction later)

end FeedClosed

end Market

end CocosChain.Chain

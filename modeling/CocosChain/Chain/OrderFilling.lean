import CocosChain.Chain.Market

/-!
# Filling and cancelling orders

A fill takes what an order pays out of the order and hands what it receives to
its owner, less the market fee.  A call order pays out of its collateral and
receives the asset it owes, which is burnt.  An order is matched with another
one by filling both; which of the two is used up decides how a loop over the
book goes on.
-/

namespace CocosChain.Chain

namespace Market

/-- The fee of the creation, handed back to the seller. -/
def refundDeferredFee (market : Market) (order : LimitOrder) : Outcome Market :=
  match order.deferredFee with
  | none => pure market
  | some fee => market.adjustBalance order.seller ⟨fee, assetCore⟩

def cancelLimitOrder (market : Market) (id : Nat) : Outcome Market := do
  let order ← found (market.limitOrders.get id) .refused
  let market := market.countInOrders order.seller ⟨-order.forSale, order.amountForSale.assetId⟩
  let market ← market.adjustBalance order.seller order.amountForSale
  let market ← market.refundDeferredFee order
  pure { market with
    limitOrders := market.limitOrders.remove id
    cancelled := id :: market.cancelled }

def cancelSettlement (market : Market) (id : Nat) : Outcome Market := do
  let settle ← found (market.settlements.get id) .refused
  let market ← market.adjustBalance settle.owner settle.balance
  pure { market with settlements := market.settlements.remove id }

def cancelBid (market : Market) (id : Nat) : Outcome Market := do
  let bid ← found (market.bids.get id) .refused
  let market ← market.adjustBalance bid.bidder bid.invSwanPrice.base
  pure { market with bids := market.bids.remove id }

/-- An order that asks for nothing in return is cancelled. -/
def maybeCullSmallOrder (market : Market) (id : Nat) : Outcome (Bool × Market) := do
  let order ← found (market.limitOrders.get id) .refused
  let receives ← found order.amountToReceive .refused
  if receives.amount = 0 then do
    let market ← market.cancelLimitOrder id
    pure (true, market)
  else pure (false, market)

/-- What is left of a limit order after it has paid. -/
def settleLimitOrder (market : Market) (id : Nat) (order : LimitOrder)
    (pays : Asset) (cullIfSmall : Bool) : Outcome (Bool × Market) :=
  if pays = order.amountForSale then
    pure (true, { market with limitOrders := market.limitOrders.remove id })
  else
    let market := { market with
      limitOrders := market.limitOrders.modify id fun order =>
        { order with forSale := order.forSale - pays.amount } }
    if cullIfSmall then market.maybeCullSmallOrder id
    else pure (false, market)

/-- `fill_order(limit_order_object)` -/
def fillLimitOrder (market : Market) (id : Nat) (pays receives : Asset)
    (cullIfSmall : Bool) : Outcome (Bool × Market) := do
  let order ← found (market.limitOrders.get id) .refused
  ensure (order.amountForSale.assetId == pays.assetId) .refused
  ensure (pays.assetId != receives.assetId) .refused
  let (fees, market) ← market.payMarketFees receives
  let market ← market.payOrder order.seller ⟨receives.amount - fees, receives.assetId⟩ pays
  market.settleLimitOrder id order pays cullIfSmall

/-- A call order without debt is closed: the collateral that is left goes back
to the borrower.  The statistics are reduced by it whatever asset it is in. -/
def closeCallOrder (market : Market) (id : Nat) (order : CallOrder)
    (pays : Asset) : Outcome Market := do
  let freed := order.collateral - pays.amount
  let market ← market.adjustBalance order.borrower ⟨freed, pays.assetId⟩
  let market := if 0 < freed then
      { market.addCoreInOrders order.borrower (-freed) with
        freed := (order.borrower, ⟨freed, pays.assetId⟩) :: market.freed }
    else market
  pure { market with callOrders := market.callOrders.remove id }

/-- What is left of a call order after it has paid and received. -/
def settleCallOrder (market : Market) (id : Nat) (order : CallOrder)
    (pays receives : Asset) : Outcome (Bool × Market) :=
  if order.debt = receives.amount then do
    let market ← market.closeCallOrder id order pays
    pure (true, market)
  else pure (false, { market with
    callOrders := market.callOrders.modify id fun order =>
      { order with
        debt := order.debt - receives.amount
        collateral := order.collateral - pays.amount } })

/-- `fill_order(call_order_object)` -/
def fillCallOrder (market : Market) (id : Nat) (pays receives : Asset) :
    Outcome (Bool × Market) := do
  let order ← found (market.callOrders.get id) .refused
  ensure (order.getDebt.assetId == receives.assetId) .refused
  ensure (order.getCollateral.assetId == pays.assetId) .refused
  ensure (decide (pays.amount ≤ order.collateral)) .refused
  ensure (market.assets.get receives.assetId).isSome .refused
  let market := market.addSupply receives.assetId (-receives.amount)
  let market := market.countInOrders order.borrower ⟨-pays.amount, pays.assetId⟩
  market.settleCallOrder id order pays receives

/-- `fill_order(force_settlement_object)` -/
def fillSettlement (market : Market) (id : Nat) (pays receives : Asset) :
    Outcome (Bool × Market) := do
  let settle ← found (market.settlements.get id) .refused
  let (fees, market) ← market.payMarketFees receives
  ensure (pays.assetId == settle.balance.assetId) .refused
  let market ← market.adjustBalance settle.owner ⟨receives.amount - fees, receives.assetId⟩
  if pays.amount < settle.balance.amount then
    pure (false, { market with
      settlements := market.settlements.modify id fun settle =>
        { settle with balance :=
          ⟨settle.balance.amount - pays.amount, settle.balance.assetId⟩ } })
  else pure (true, { market with
    settlements := market.settlements.remove id })

/-- What the two sides of a trade receive: the new order, then the old one.
One of the two is used up. -/
def tradeAmounts (usdForSale coreForSale : Asset) (matchPrice : Price) :
    Option (Asset × Asset) := do
  let coreValue ← coreForSale.times matchPrice
  if usdForSale.assetId ≠ coreValue.assetId then none
  else if usdForSale.amount ≤ coreValue.amount then do
    let usdReceives ← usdForSale.times matchPrice
    pure (usdReceives, usdForSale)
  else pure (coreForSale, coreValue)

/-- `match(limit_order_object, limit_order_object)`: which of the two orders
are gone afterwards, the new one and the old one. -/
def matchLimitOrders (market : Market) (usdId coreId : Nat)
    (matchPrice : Price) : Outcome ((Bool × Bool) × Market) := do
  let usd ← found (market.limitOrders.get usdId) .refused
  let core ← found (market.limitOrders.get coreId) .refused
  let (usdReceives, coreReceives) ←
    found (tradeAmounts usd.amountForSale core.amountForSale matchPrice) .refused
  let (usdFilled, market) ← market.fillLimitOrder usdId coreReceives usdReceives false
  let (coreFilled, market) ← market.fillLimitOrder coreId usdReceives coreReceives true
  pure ((usdFilled, coreFilled), market)

/-- `match(call_order_object, force_settlement_object)`: how much is
settled. -/
def matchSettlement (market : Market) (callId settleId : Nat)
    (matchPrice : Price) (maxSettlement : Int) : Outcome (Int × Market) := do
  let call ← found (market.callOrders.get callId) .refused
  let settle ← found (market.settlements.get settleId) .refused
  ensure (call.getDebt.assetId == settle.balance.assetId) .refused
  ensure (decide (0 < call.debt) && decide (0 < call.collateral) &&
    decide (0 < settle.balance.amount)) .refused
  let receives : Asset :=
    ⟨Min.min (Min.min settle.balance.amount maxSettlement) call.debt, settle.balance.assetId⟩
  let pays ← found (receives.times matchPrice) .refused
  ensure (pays.assetId == call.getCollateral.assetId) .refused
  ensure (decide (pays.amount < call.collateral)) .blackSwan
  let (_, market) ← market.fillCallOrder callId pays receives
  let (_, market) ← market.fillSettlement settleId receives pays
  pure (receives.amount, market)

variable {market : Market} {id : Nat}

theorem countInOrders_eq (market : Market) (account : AccountId) (delta : Asset) :
    market.countInOrders account delta = { market with
      totalCoreInOrders :=
        (market.countInOrders account delta).totalCoreInOrders } := by
  unfold countInOrders
  split
  · rfl
  · rfl

theorem countInOrders_congr {other : Market}
    (same : other.totalCoreInOrders = market.totalCoreInOrders)
    (account : AccountId) (delta : Asset) : (other.countInOrders account delta).totalCoreInOrders =
      (market.countInOrders account delta).totalCoreInOrders := by
  unfold countInOrders
  split
  · simp only [addCoreInOrders, same]
  · exact same

theorem payOrder_spec (paid : market.payOrder receiver receives pays = .ok after) :
    ∃ balances, market.balances.adjustBalance receiver receives = some balances ∧
      after = { market with
        balances
        totalCoreInOrders := (market.countInOrders receiver
          ⟨-pays.amount, pays.assetId⟩).totalCoreInOrders } := by
  unfold payOrder at paid
  rw [countInOrders_eq] at paid
  exact adjustBalance_eq_ok.mp paid

theorem calculateMarketFee_nonneg (nonneg : 0 ≤ amount) : 0 ≤ calculateMarketFee asset amount := by
  unfold calculateMarketFee
  split
  · exact Int.le_refl 0
  · split
    · exact Int.le_refl 0
    · apply le_min
      · apply Int.ediv_nonneg _ (by decide)
        exact Int.mul_nonneg nonneg (Int.natCast_nonneg _)
      · exact Int.natCast_nonneg _

theorem payMarketFees_spec (paid : market.payMarketFees receives = .ok (fees, after)) :
    ∃ charged, (0 ≤ charged ∧ (0 ≤ receives.amount → charged = fees)) ∧
      after = market.addFees receives.assetId charged := by
  simp only [payMarketFees, bind_eq_ok, found_eq_ok] at paid
  obtain ⟨asset, -, paid⟩ := paid
  split at paid
  · rename_i some
    cases paid
    exact ⟨_, ⟨Int.le_of_lt some, fun _ => rfl⟩, rfl⟩
  · cases paid
    refine ⟨0, ⟨Int.le_refl 0, fun nonneg => ?_⟩, by simp [addFees]⟩
    have fee : 0 ≤ calculateMarketFee asset receives.amount := calculateMarketFee_nonneg nonneg
    omega

theorem cancelLimitOrder_spec (cancelled : market.cancelLimitOrder id = .ok after) :
    ∃ order balances refunded, market.limitOrders.get id = some order ∧
      market.balances.adjustBalance order.seller order.amountForSale = some balances ∧
      balances.adjustBalance order.seller ⟨order.deferredFee.getD 0, assetCore⟩ = some refunded ∧
      after = { market with
        balances := refunded
        totalCoreInOrders := (market.countInOrders order.seller
          ⟨-order.forSale, order.amountForSale.assetId⟩).totalCoreInOrders
        limitOrders := market.limitOrders.remove id
        cancelled := id :: market.cancelled } := by
  simp only [cancelLimitOrder, bind_eq_ok, found_eq_ok, pure_eq_ok] at cancelled
  obtain ⟨order, listed, _, adjusted, _, refunding, rfl⟩ := cancelled
  rw [countInOrders_eq] at adjusted
  obtain ⟨balances, returned, rfl⟩ := adjustBalance_eq_ok.mp adjusted
  unfold refundDeferredFee at refunding
  cases deferred : order.deferredFee with
  | none =>
    rw [deferred] at refunding
    cases refunding
    exact ⟨order, balances, balances, listed, returned,
      by simp [deferred, Balances.adjustBalance], rfl⟩
  | some fee =>
    rw [deferred] at refunding
    obtain ⟨ending, given, rfl⟩ := adjustBalance_eq_ok.mp refunding
    exact ⟨order, balances, ending, listed, returned, by simpa [deferred] using given, rfl⟩

theorem cancelSettlement_spec (cancelled : market.cancelSettlement id = .ok after) :
    ∃ settle balances, market.settlements.get id = some settle ∧
      market.balances.adjustBalance settle.owner settle.balance = some balances ∧
      after = { market with
        balances
        settlements := market.settlements.remove id } := by
  simp only [cancelSettlement, bind_eq_ok, found_eq_ok, pure_eq_ok] at cancelled
  obtain ⟨settle, listed, _, adjusted, rfl⟩ := cancelled
  obtain ⟨balances, returned, rfl⟩ := adjustBalance_eq_ok.mp adjusted
  exact ⟨settle, balances, listed, returned, rfl⟩

theorem cancelBid_spec (cancelled : market.cancelBid id = .ok after) :
    ∃ bid balances, market.bids.get id = some bid ∧
      market.balances.adjustBalance bid.bidder bid.invSwanPrice.base = some balances ∧
      after = { market with
        balances
        bids := market.bids.remove id } := by
  simp only [cancelBid, bind_eq_ok, found_eq_ok, pure_eq_ok] at cancelled
  obtain ⟨bid, listed, _, adjusted, rfl⟩ := cancelled
  obtain ⟨balances, returned, rfl⟩ := adjustBalance_eq_ok.mp adjusted
  exact ⟨bid, balances, listed, returned, rfl⟩

theorem maybeCullSmallOrder_cases (done : market.maybeCullSmallOrder id = .ok (culled, after)) :
    ∃ order receives, market.limitOrders.get id = some order ∧
      order.amountToReceive = some receives ∧
      ((receives.amount = 0 ∧ culled = true ∧ market.cancelLimitOrder id = .ok after) ∨
        (receives.amount ≠ 0 ∧ culled = false ∧ after = market)) := by
  simp only [maybeCullSmallOrder, bind_eq_ok, found_eq_ok] at done
  obtain ⟨order, listed, receives, worth, done⟩ := done
  refine ⟨order, receives, listed, worth, ?_⟩
  split at done
  · rename_i small
    simp only [bind_eq_ok, pure_eq_ok, Prod.mk.injEq] at done
    obtain ⟨_, cancelled, rfl, rfl⟩ := done
    exact .inl ⟨small, rfl, cancelled⟩
  · rename_i large
    cases done
    exact .inr ⟨large, rfl, rfl⟩

theorem settleLimitOrder_cases
    (done : market.settleLimitOrder id order pays cull = .ok (filled, after)) :
    (pays = order.amountForSale ∧ filled = true ∧
        after = { market with
          limitOrders := market.limitOrders.remove id }) ∨
      (pays ≠ order.amountForSale ∧
        ∃ reduced : Market, reduced = { market with
            limitOrders := market.limitOrders.modify id fun order =>
              { order with forSale := order.forSale - pays.amount } } ∧
          ((cull = false ∧ filled = false ∧ after = reduced) ∨
            (cull = true ∧ reduced.maybeCullSmallOrder id = .ok (filled, after)))) := by
  unfold settleLimitOrder at done
  split at done
  · rename_i all
    cases done
    exact .inl ⟨all, rfl, rfl⟩
  · rename_i some
    refine .inr ⟨some, _, rfl, ?_⟩
    simp only at done
    split at done
    · rename_i culls
      exact .inr ⟨culls, done⟩
    · rename_i keeps
      cases done
      exact .inl ⟨by simpa using keeps, rfl, rfl⟩

theorem fillLimitOrder_spec
    (done : market.fillLimitOrder id pays receives cull = .ok (filled, after)) :
    ∃ order fees charged balances, market.limitOrders.get id = some order ∧
      order.sellPrice.base.assetId = pays.assetId ∧
      pays.assetId ≠ receives.assetId ∧
      (0 ≤ charged ∧ (0 ≤ receives.amount → charged = fees)) ∧
      market.balances.adjustBalance order.seller
        ⟨receives.amount - fees, receives.assetId⟩ = some balances ∧
      settleLimitOrder { market with
        balances
        totalCoreInOrders := (market.countInOrders order.seller
          ⟨-pays.amount, pays.assetId⟩).totalCoreInOrders
        accumulatedFees := (market.addFees receives.assetId
          charged).accumulatedFees } id order pays cull = .ok (filled, after) := by
  simp only [fillLimitOrder, bind_eq_ok, found_eq_ok, ensure_eq_ok,
    Prod.exists, beq_iff_eq, bne_iff_ne] at done
  obtain ⟨order, listed, -, base, -, distinct, fees, _, charging, _, payment, settled⟩ := done
  obtain ⟨charged, fee, rfl⟩ := payMarketFees_spec charging
  obtain ⟨balances, received, rfl⟩ := payOrder_spec payment
  have same : (market.addFees receives.assetId charged).totalCoreInOrders =
      market.totalCoreInOrders := rfl
  rw [countInOrders_congr same] at settled
  exact ⟨order, fees, charged, balances, listed, base, distinct, fee, received, settled⟩

/-- The statistics after a call order has been filled. -/
def coreAfterFill (market : Market) (order : CallOrder) (pays receives : Asset) : AccountId → Int :=
  let counted := market.countInOrders order.borrower ⟨-pays.amount, pays.assetId⟩
  if order.debt = receives.amount ∧ 0 < order.collateral - pays.amount then
    (counted.addCoreInOrders order.borrower
      (-(order.collateral - pays.amount))).totalCoreInOrders
  else counted.totalCoreInOrders

/-- What the fill of a call order gives back of its collateral. -/
def freedByFill (order : CallOrder) (pays receives : Asset) : List (AccountId × Asset) :=
  if order.debt = receives.amount ∧ 0 < order.collateral - pays.amount then
    [(order.borrower, ⟨order.collateral - pays.amount, pays.assetId⟩)]
  else []

/-- A call order pays out of its collateral, and what it receives is burnt.
Without debt it is closed. -/
theorem fillCallOrder_spec
    (done : market.fillCallOrder id pays receives = .ok (closed, after)) :
    ∃ order, market.callOrders.get id = some order ∧ order.debtType = receives.assetId ∧
      order.callPrice.base.assetId = pays.assetId ∧
      pays.amount ≤ order.collateral ∧
      ((order.debt = receives.amount ∧ closed = true ∧
          ∃ balances, market.balances.adjustBalance order.borrower
              ⟨order.collateral - pays.amount, pays.assetId⟩ = some balances ∧
            after = { market with
              balances
              totalCoreInOrders := market.coreAfterFill order pays receives
              currentSupply := (market.addSupply receives.assetId (-receives.amount)).currentSupply
              callOrders := market.callOrders.remove id
              freed := freedByFill order pays receives ++ market.freed }) ∨
        (order.debt ≠ receives.amount ∧ closed = false ∧
          after = { market with
            totalCoreInOrders := market.coreAfterFill order pays receives
            currentSupply := (market.addSupply receives.assetId (-receives.amount)).currentSupply
            callOrders := market.callOrders.modify id fun order =>
              { order with
                debt := order.debt - receives.amount
                collateral := order.collateral - pays.amount } })) := by
  simp only [fillCallOrder, bind_eq_ok, found_eq_ok, ensure_eq_ok,
    beq_iff_eq, decide_eq_true_eq] at done
  obtain ⟨order, listed, -, debt, -, collateral, -, covered, -, -, done⟩ := done
  refine ⟨order, listed, debt, collateral, covered, ?_⟩
  rw [countInOrders_eq] at done
  have same : (market.addSupply receives.assetId
      (-receives.amount)).totalCoreInOrders = market.totalCoreInOrders := rfl
  rw [countInOrders_congr same] at done
  unfold settleCallOrder at done
  split at done
  · rename_i all
    left
    simp only [closeCallOrder, bind_eq_ok, pure_eq_ok, Prod.mk.injEq] at done
    obtain ⟨_, ⟨_, adjusted, rfl⟩, rfl, rfl⟩ := done
    obtain ⟨balances, freed, rfl⟩ := adjustBalance_eq_ok.mp adjusted
    refine ⟨all, rfl, balances, freed, ?_⟩
    by_cases more : 0 < order.collateral - pays.amount
    · simp only [coreAfterFill, freedByFill, all, more, and_self, if_true]
      rfl
    · simp only [coreAfterFill, freedByFill, more, and_false, if_false]
      rfl
  · rename_i less
    cases done
    refine .inr ⟨less, rfl, ?_⟩
    simp only [coreAfterFill, less, false_and, if_false]
    rfl

theorem fillSettlement_spec (done : market.fillSettlement id pays receives = .ok (filled, after)) :
    ∃ settle fees charged balances, market.settlements.get id = some settle ∧
      pays.assetId = settle.balance.assetId ∧
      (0 ≤ charged ∧ (0 ≤ receives.amount → charged = fees)) ∧
      market.balances.adjustBalance settle.owner
        ⟨receives.amount - fees, receives.assetId⟩ = some balances ∧
      after = { market with
        balances
        accumulatedFees := (market.addFees receives.assetId charged).accumulatedFees
        settlements :=
          if pays.amount < settle.balance.amount then market.settlements.modify id fun settle =>
              { settle with balance :=
                ⟨settle.balance.amount - pays.amount, settle.balance.assetId⟩ }
          else market.settlements.remove id } := by
  simp only [fillSettlement, bind_eq_ok, found_eq_ok, ensure_eq_ok, Prod.exists, beq_iff_eq] at done
  obtain ⟨settle, listed, fees, _, charging, -, asset, _, adjusted, done⟩ := done
  obtain ⟨charged, fee, rfl⟩ := payMarketFees_spec charging
  obtain ⟨balances, received, rfl⟩ := adjustBalance_eq_ok.mp adjusted
  refine ⟨settle, fees, charged, balances, listed, asset, fee, received, ?_⟩
  split at done
  · rename_i less
    cases done
    simp only [less, if_true]
    rfl
  · rename_i all
    cases done
    simp only [all, if_false]
    rfl

theorem matchSettlement_spec
    (done : market.matchSettlement callId settleId price most = .ok (amount, after)) :
    ∃ call settle pays closed middle filled, market.callOrders.get callId = some call ∧
      market.settlements.get settleId = some settle ∧
      call.debtType = settle.balance.assetId ∧
      (0 < call.debt ∧ 0 < settle.balance.amount) ∧
      amount = min (min settle.balance.amount most) call.debt ∧
      Asset.times ⟨amount, settle.balance.assetId⟩ price = some pays ∧
      pays.amount < call.collateral ∧
      market.fillCallOrder callId pays ⟨amount, settle.balance.assetId⟩ = .ok (closed, middle) ∧
      middle.fillSettlement settleId ⟨amount, settle.balance.assetId⟩ pays =
        .ok (filled, after) := by
  simp only [matchSettlement, bind_eq_ok, found_eq_ok, ensure_eq_ok,
    pure_eq_ok, Prod.exists, Prod.mk.injEq, Bool.and_eq_true, beq_iff_eq, decide_eq_true_eq] at done
  obtain ⟨call, listed, settle, waiting, -, kind, -, ⟨⟨owed, -⟩, amount⟩, pays,
    worth, -, -, -, less, closed, middle, first, filled, _, second, rfl, rfl⟩ := done
  exact ⟨call, settle, pays, closed, middle, filled, listed, waiting, kind,
    ⟨owed, amount⟩, rfl, worth, less, first, second⟩

end Market

end CocosChain.Chain

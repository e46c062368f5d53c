import CocosChain.Chain.OrderFilling

/-!
# Margin calls and global settlement

Call orders are visited in the order of their call prices and bought back from
the limit orders that sell the debt asset, as long as the feed and the
maximum short squeeze price allow it.  When the first of them is not covered
any more, the asset is settled globally.
-/

namespace CocosChain.Chain

namespace Market

/-- Closes the call orders one after the other at the settlement price, and
gathers the collateral they pay. -/
def closeCallOrders (backing : Nat) (settlementPrice : Price) :
    List Nat → Int → Market → Outcome (Int × Market)
  | [], gathered, market => pure (gathered, market)
  | id :: rest, gathered, market => do
      let call ← found (market.callOrders.get id) .refused
      let value ← found (call.getDebt.times settlementPrice) .refused
      ensure (value.assetId == call.getCollateral.assetId) .refused
      let pays : Asset := ⟨Min.min value.amount call.collateral, value.assetId⟩
      ensure (pays.assetId == backing) .refused
      let (closed, market) ← market.fillCallOrder id pays call.getDebt
      ensure closed .refused
      closeCallOrders backing settlementPrice rest (gathered + pays.amount) market

/-- `globally_settle_asset`: the supply, which the fills have reduced, is put
back. -/
def globallySettleAsset (market : Market) (mia : Nat)
    (settlementPrice : Price) : Outcome Market := do
  let bitasset ← found (market.bitassets.get mia) .refused
  ensure (!bitasset.hasSettlement) .refused
  ensure (market.assets.get bitasset.backing).isSome .refused
  let originalSupply := market.currentSupply mia
  let calls := (market.callRange bitasset.backing mia).map Prod.fst
  let (gathered, market) ← closeCallOrders bitasset.backing settlementPrice calls 0 market
  ensure (mia != bitasset.backing) .refused
  pure { market with
    bitassets := market.bitassets.modify mia fun bitasset =>
      { bitasset with
        settlement := some ⟨originalSupply, gathered, gathered⟩ }
    currentSupply := fun other =>
      if other = mia then originalSupply else market.currentSupply other }

/-- The higher of the best limit order's price and the feed. -/
def highestBid (market : Market) (mia : Nat) (bitasset : BitassetData) : Price :=
  let settlePrice := bitasset.currentFeed.settlementPrice
  match (market.limitRange (Price.max mia bitasset.backing)
      (Price.min mia bitasset.backing)).head? with
  | none => settlePrice
  | some (_, order) =>
      if order.sellPrice.lt settlePrice then settlePrice else order.sellPrice

/-- The swan price of the call order with the lowest call price, if it is at
or above the highest bid. -/
def swanPrice (market : Market) (mia : Nat) (bitasset : BitassetData) : Option Price :=
  match (market.callRange bitasset.backing mia).head? with
  | none => none
  | some (_, call) =>
      if call.collateralization.invert.ge (market.highestBid mia bitasset) then
        some call.collateralization.invert
      else none

def checkForBlackswan (market : Market) (mia : Nat) (enableBlackSwan : Bool) :
    Outcome (Bool × Market) :=
  match market.bitassets.get mia with
  | none => pure (false, market)
  | some bitasset =>
      if bitasset.hasSettlement then pure (true, market)
      else if bitasset.currentFeed.settlementPrice.isNull then
        pure (false, market)
      else
        match market.swanPrice mia bitasset with
        | none => pure (false, market)
        | some price => do
            ensure enableBlackSwan .refused
            let market ← market.globallySettleAsset mia price
            pure (true, market)

variable {after : Market}

theorem checkForBlackswan_cases
    (checked : market.checkForBlackswan mia enable = .ok (swan, after)) :
    (swan = false ∧ after = market ∧ ∀ bitasset, market.bitassets.get mia = some bitasset →
          bitasset.hasSettlement = false ∧ (bitasset.currentFeed.settlementPrice.isNull = false →
              market.swanPrice mia bitasset = none)) ∨
      (swan = true ∧ after = market ∧ ∃ bitasset, market.bitassets.get mia = some bitasset ∧
          bitasset.hasSettlement = true) ∨
      (swan = true ∧ enable = true ∧ ∃ bitasset price, market.bitassets.get mia = some bitasset ∧
          bitasset.hasSettlement = false ∧
          bitasset.currentFeed.settlementPrice.isNull = false ∧
          market.swanPrice mia bitasset = some price ∧
          market.globallySettleAsset mia price = .ok after) := by
  unfold checkForBlackswan at checked
  cases held : market.bitassets.get mia with
  | none =>
    rw [held] at checked
    cases checked
    exact .inl ⟨rfl, rfl, by simp⟩
  | some bitasset =>
    rw [held] at checked
    simp only at checked
    split at checked
    · rename_i settled
      cases checked
      exact .inr (.inl ⟨rfl, rfl, bitasset, rfl, settled⟩)
    · rename_i unsettled
      have open_ : bitasset.hasSettlement = false := by
        simpa using unsettled
      split at checked
      · rename_i null
        cases checked
        refine .inl ⟨rfl, rfl, fun other same => ?_⟩
        cases same
        exact ⟨open_, fun priced => by simp [null] at priced⟩
      · rename_i priced
        cases swan_ : market.swanPrice mia bitasset with
        | none =>
          rw [swan_] at checked
          cases checked
          refine .inl ⟨rfl, rfl, fun other same => ?_⟩
          cases same
          exact ⟨open_, fun _ => swan_⟩
        | some price =>
          rw [swan_] at checked
          simp only [bind_eq_ok, ensure_eq_ok, pure_eq_ok, Prod.mk.injEq] at checked
          obtain ⟨-, enabled, _, settled, rfl, rfl⟩ := checked
          exact .inr (.inr ⟨rfl, enabled, bitasset, price, rfl, open_,
            by simpa using priced, swan_, settled⟩)

/-- Buys the debt of a call order from a limit order.  Tells whether the limit
order is used up. -/
def marginCall (market : Market) (callId limitId : Nat) (call : CallOrder)
    (order : LimitOrder) : Outcome (Bool × Market) :=
  if order.forSale ≤ call.debt then do
    let orderReceives ← found (order.amountForSale.times order.sellPrice) .refused
    let (_, market) ← market.fillCallOrder callId orderReceives order.amountForSale
    let (_, market) ← market.fillLimitOrder limitId order.amountForSale orderReceives true
    pure (true, market)
  else do
    let orderReceives ← found (call.getDebt.times order.sellPrice) .refused
    let (_, market) ← market.fillCallOrder callId orderReceives call.getDebt
    let (_, market) ← market.fillLimitOrder limitId call.getDebt orderReceives true
    pure (false, market)

/-- The call order with the lowest call price may be bought back from the limit
order. -/
def isCallable (feed : PriceFeed) (call : CallOrder) (order : LimitOrder) : Bool :=
  !feed.settlementPrice.gt call.callPrice.invert && !order.sellPrice.gt call.callPrice.invert

/-- The loop of `check_call_orders`.  `filledLimit` is set by the first limit
order that is used up and stays set. -/
def marginLoop (mia : Nat) (enableBlackSwan : Bool) (bitasset : BitassetData) :
    Nat → List Nat → Bool → Bool → Market → Outcome (Bool × Market)
  | 0, _, _, _, _ => .error .unfinished
  | fuel + 1, limits, filledLimit, marginCalled, market => do
      let (swan, market) ← market.checkForBlackswan mia enableBlackSwan
      match swan, (market.callRange bitasset.backing mia).head?, limits with
      | true, _, _ => pure (marginCalled, market)
      | false, none, _ => pure (marginCalled, market)
      | false, some _, [] => pure (marginCalled, market)
      | false, some (callId, call), limitId :: rest => do
          let order ← found (market.limitOrders.get limitId) .dangling
          ensure order.sellPrice.validate .refused
          if !isCallable bitasset.currentFeed call order then
            pure (marginCalled, market)
          else do
            let cost ← found (call.getDebt.times order.sellPrice) .refused
            ensure (cost.assetId == call.getCollateral.assetId) .refused
            if call.collateral < cost.amount then do
              ensure enableBlackSwan .refused
              let market ← market.globallySettleAsset mia bitasset.currentFeed.settlementPrice
              pure (true, market)
            else do
              let (usedUp, market) ← market.marginCall callId limitId call order
              marginLoop mia enableBlackSwan bitasset fuel
                (if filledLimit || usedUp then rest else limits)
                (filledLimit || usedUp) true market

/-- Why the loop may stop after the check for a black swan. -/
inductive MarginStop (mia : Nat) (bitasset : BitassetData)
    (limits : List Nat) (market : Market) : Bool → Prop where
  | swan : MarginStop mia bitasset limits market true
  | noCall : (market.callRange bitasset.backing mia).head? = none →
      MarginStop mia bitasset limits market false
  | noLimit : limits = [] → MarginStop mia bitasset limits market false
  | notCallable {callId limitId : Nat} {call : CallOrder}
      {order : LimitOrder} {rest : List Nat} :
      (market.callRange bitasset.backing mia).head? = some (callId, call) →
      limits = limitId :: rest →
      market.limitOrders.get limitId = some order →
      isCallable bitasset.currentFeed call order = false →
        MarginStop mia bitasset limits market false

/-- The first call order and the first limit order are about to be matched. -/
structure MarginPair (mia : Nat) (bitasset : BitassetData)
    (limits : List Nat) (market : Market) (callId limitId : Nat)
    (call : CallOrder) (order : LimitOrder) (rest : List Nat) (cost : Asset) : Prop where
  first : (market.callRange bitasset.backing mia).head? = some (callId, call)
  limits_eq : limits = limitId :: rest
  listed : market.limitOrders.get limitId = some order
  valid : order.sellPrice.validate = true
  callable : isCallable bitasset.currentFeed call order = true
  costs : call.getDebt.times order.sellPrice = some cost
  asset : cost.assetId = call.getCollateral.assetId

theorem marginLoop_cases (done : marginLoop mia enable bitasset (fuel + 1) limits filled called
      market = .ok (result, after)) :
    ∃ swan checked, market.checkForBlackswan mia enable = .ok (swan, checked) ∧
      ((MarginStop mia bitasset limits checked swan ∧ result = called ∧ after = checked) ∨
        ∃ callId limitId call order rest cost,
          swan = false ∧ MarginPair mia bitasset limits checked callId limitId
            call order rest cost ∧
          ((call.collateral < cost.amount ∧ enable = true ∧ result = true ∧
              checked.globallySettleAsset mia bitasset.currentFeed.settlementPrice = .ok after) ∨
            (cost.amount ≤ call.collateral ∧ ∃ usedUp middle,
              checked.marginCall callId limitId call order = .ok (usedUp, middle) ∧
              marginLoop mia enable bitasset fuel (if filled || usedUp then rest else limits)
                (filled || usedUp) true middle = .ok (result, after)))) := by
  simp only [marginLoop, bind_eq_ok, Prod.exists] at done
  obtain ⟨swan, checked, check, done⟩ := done
  refine ⟨swan, checked, check, ?_⟩
  split at done
  · cases done
    exact .inl ⟨.swan, rfl, rfl⟩
  · rename_i none
    cases done
    exact .inl ⟨.noCall none, rfl, rfl⟩
  · cases done
    exact .inl ⟨.noLimit rfl, rfl, rfl⟩
  · rename_i callId call limitId rest first
    simp only [bind_eq_ok, found_eq_ok, ensure_eq_ok] at done
    obtain ⟨order, listed, -, valid, done⟩ := done
    split at done
    · rename_i blocked
      cases done
      have refused : isCallable bitasset.currentFeed call order = false := by
        simpa using blocked
      exact .inl ⟨.notCallable first rfl listed refused, rfl, rfl⟩
    · rename_i open_
      have callable : isCallable bitasset.currentFeed call order = true := by
        simpa using open_
      simp only [bind_eq_ok, found_eq_ok, ensure_eq_ok, beq_iff_eq] at done
      obtain ⟨cost, costs, -, asset, done⟩ := done
      refine .inr ⟨callId, limitId, call, order, rest, cost, rfl,
        ⟨first, rfl, listed, valid, callable, costs, asset⟩, ?_⟩
      split at done
      · rename_i uncovered
        simp only [bind_eq_ok, ensure_eq_ok, pure_eq_ok, Prod.mk.injEq] at done
        obtain ⟨-, enabled, middle, settled, rfl, rfl⟩ := done
        exact .inl ⟨uncovered, enabled, rfl, settled⟩
      · rename_i covered
        simp only [bind_eq_ok, Prod.exists] at done
        obtain ⟨usedUp, middle, called_, later⟩ := done
        exact .inr ⟨Int.not_lt.mp covered, usedUp, middle, called_, later⟩

/-- Every round closes a call order or leaves a limit order behind. -/
def marginFuel (market : Market) : Nat := market.callOrders.next + market.limitOrders.next + 1

/-- The margin calls against the limit orders down to the maximum short
squeeze price. -/
def callMargins (market : Market) (mia : Nat) (enableBlackSwan : Bool)
    (bitasset : BitassetData) : Outcome (Bool × Market) := do
  let minPrice ← found bitasset.currentFeed.maxShortSqueezePrice .refused
  let limits := (market.limitRange (Price.max mia bitasset.backing) minPrice).map Prod.fst
  if limits.isEmpty then
    pure (false, market)
  else
    marginLoop mia enableBlackSwan bitasset market.marginFuel limits false false market

def checkCallOrders (market : Market) (mia : Nat) (enableBlackSwan : Bool) :
    Outcome (Bool × Market) :=
  match market.bitassets.get mia with
  | none => pure (false, market)
  | some bitasset => do
      let (swan, market) ← market.checkForBlackswan mia enableBlackSwan
      if swan then pure (false, market)
      else if bitasset.currentFeed.settlementPrice.isNull then
        pure (false, market)
      else market.callMargins mia enableBlackSwan bitasset

/-- What a margin check goes through: a check for a black swan first, and
then the margin calls if there is a feed. -/
theorem checkCallOrders_cases (checked : market.checkCallOrders mia enable = .ok (called, after)) :
    (called = false ∧ after = market ∧ market.bitassets.get mia = none) ∨
      ∃ bitasset swan middle, market.bitassets.get mia = some bitasset ∧
        market.checkForBlackswan mia enable = .ok (swan, middle) ∧
        (((swan = true ∨ bitasset.currentFeed.settlementPrice.isNull = true) ∧
            called = false ∧ after = middle) ∨
          (swan = false ∧ bitasset.currentFeed.settlementPrice.isNull = false ∧
            middle.callMargins mia enable bitasset = .ok (called, after))) := by
  unfold checkCallOrders at checked
  cases held : market.bitassets.get mia with
  | none =>
    rw [held] at checked
    cases checked
    exact .inl ⟨rfl, rfl, rfl⟩
  | some bitasset =>
    rw [held] at checked
    simp only [bind_eq_ok, Prod.exists] at checked
    obtain ⟨swan, middle, check, checked⟩ := checked
    refine .inr ⟨bitasset, swan, middle, rfl, check, ?_⟩
    split at checked
    · rename_i found_
      cases checked
      exact .inl ⟨.inl found_, rfl, rfl⟩
    · rename_i none
      split at checked
      · rename_i null
        cases checked
        exact .inl ⟨.inr null, rfl, rfl⟩
      · rename_i priced
        exact .inr ⟨by simpa using none, by simpa using priced, checked⟩

theorem callMargins_cases (done : market.callMargins mia enable bitasset = .ok (called, after)) :
    ∃ minPrice, bitasset.currentFeed.maxShortSqueezePrice = some minPrice ∧
      ((market.limitRange (Price.max mia bitasset.backing) minPrice = [] ∧
          called = false ∧ after = market) ∨
        marginLoop mia enable bitasset market.marginFuel
          ((market.limitRange (Price.max mia bitasset.backing) minPrice).map
            Prod.fst) false false market = .ok (called, after)) := by
  simp only [callMargins, bind_eq_ok, found_eq_ok] at done
  obtain ⟨minPrice, priced, done⟩ := done
  refine ⟨minPrice, priced, ?_⟩
  split at done
  · rename_i empty
    cases done
    exact .inl ⟨by simpa using empty, rfl, rfl⟩
  · exact .inr done

/-- Matches a new order with the old ones, until the new one is used up. -/
def matchLoop (id : Nat) : List Nat → Market → Outcome Market
  | [], market => pure market
  | old :: rest, market => do
      let order ← found (market.limitOrders.get old) .dangling
      let (filled, market) ← market.matchLimitOrders id old order.sellPrice
      if filled = (false, true) then matchLoop id rest market
      else pure market

/-- The part of `apply_order` after the first margin calls. -/
def matchNewOrder (market : Market) (id : Nat) (order : LimitOrder) : Outcome (Bool × Market) := do
  let maxPrice := order.sellPrice.invert
  let olds := (market.limitRange
    (Price.max maxPrice.base.assetId maxPrice.quote.assetId) maxPrice).map Prod.fst
  let market ← matchLoop id olds market
  let (_, market) ← market.checkCallOrders order.sellPrice.base.assetId true
  let (_, market) ← market.checkCallOrders order.sellPrice.quote.assetId true
  match market.limitOrders.get id with
  | none => pure (true, market)
  | some _ => market.maybeCullSmallOrder id

/-- `apply_order`; tells whether the order is gone. -/
def applyOrder (market : Market) (id : Nat) : Outcome (Bool × Market) := do
  let order ← found (market.limitOrders.get id) .refused
  ensure (market.assets.get order.amountForSale.assetId).isSome .refused
  let receive ← found order.amountToReceive .refused
  ensure (market.assets.get receive.assetId).isSome .refused
  let (calledSome, market) ← market.checkCallOrders order.amountForSale.assetId true
  let (calledOther, market) ← market.checkCallOrders receive.assetId true
  if (calledSome || calledOther) && (market.limitOrders.get id).isNone then
    pure (true, market)
  else market.matchNewOrder id order

end Market

end CocosChain.Chain

import CocosChain.Chain.AssetOperations

/-!
# Upkeep of the market

At every block the limit orders that have expired are cancelled, force
settlements that are due are matched with the least collateralized call
orders, and feeds that have expired are dropped.  At every maintenance the
settlement volumes start again and collateral bids are executed.
-/

namespace CocosChain.Chain

namespace Market

/-- Limit orders by expiration, then by age. -/
def expiresBefore (left right : Nat × LimitOrder) : Bool :=
  decide (left.2.expiration < right.2.expiration) ||
    left.2.expiration == right.2.expiration && decide (left.1 ≤ right.1)

def firstExpired (market : Market) : Option (Nat × LimitOrder) :=
  ((market.limitOrders.rows.filter fun row =>
    decide (row.2.expiration ≤ market.headBlockTime)).insertionSort
      fun left right => expiresBefore left right).head?

/-- Every round removes a limit order. -/
def cancelExpired (terms : MarketTerms) : Nat → Market → Outcome Market
  | 0, _ => .error .unfinished
  | fuel + 1, market =>
      match market.firstExpired with
      | none => pure market
      | some (id, order) => do
          let market ← LimitOrderCancel.perform ⟨id, order.seller⟩ terms market
          cancelExpired terms fuel market

/-- Matches a force settlement with the least collateralized call orders, and
tells how much has been settled.  Every round but the last closes a call
order. -/
def settleLoop (mia backing : Nat) (id : Nat) (settlementPrice : Price)
    (maxVolume : Int) : Nat → Int → Market → Outcome (Int × Market)
  | 0, _, _ => .error .unfinished
  | fuel + 1, settled, market =>
      match market.settlements.get id with
      | none => pure (settled, market)
      | some order =>
          if maxVolume ≤ settled then pure (settled, market)
          else
            match market.leastCollateralized backing mia with
            | none => .error .noCallOrder
            | some (callId, call) =>
                if call.debtType ≠ mia then .error .noCallOrder
                else if order.balance.amount = 0 then do
                  let market ← market.cancelSettlement id
                  pure (settled, market)
                else
                  match market.matchSettlement callId id settlementPrice
                      (maxVolume - settled) with
                  | .ok (amount, market) =>
                      settleLoop mia backing id settlementPrice maxVolume fuel
                        (settled + amount) market
                  | .error .blackSwan => do
                      let market ← market.cancelSettlement id
                      pure (settled, market)
                  | .error fault => .error fault

/-- The price of a force settlement: the feed, less the offset. -/
def forceSettlementPrice (bitasset : BitassetData) (balance : Asset) : Option Price := do
  let receives ← balance.times bitasset.currentFeed.settlementPrice
  Price.ofAssets balance ⟨receives.amount * (hundredPercent -
      bitasset.options.forceSettlementOffsetPercent) / hundredPercent,
      receives.assetId⟩

/-- Settles one force settlement as far as the volume allows. -/
def settleOrder (market : Market) (id : Nat) (order : ForceSettlement)
    (bitasset : BitassetData) (maxVolume : Int) : Outcome Market := do
  let mia := order.balance.assetId
  let price ← found (forceSettlementPrice bitasset order.balance) .refused
  let (settled, market) ← settleLoop mia bitasset.backing id price maxVolume
    (market.callOrders.next + 2) bitasset.forceSettledVolume market
  pure { market with
    bitassets := market.bitassets.modify mia fun bitasset =>
      { bitasset with forceSettledVolume := settled } }

/-- The first asset after the current one that has force settlements. -/
def nextAsset (market : Market) (currentAsset : Nat) : Option Nat :=
  ((market.settlementRange fun assetId =>
    decide (currentAsset < assetId)).head?).map fun row =>
      row.2.balance.assetId

/-- The volume limit is computed once for each asset. -/
def volumeFor (market : Market) (mia : Nat) (bitasset : BitassetData) (maxVolume : Asset) : Asset :=
  if maxVolume.assetId ≠ mia then
    ⟨bitasset.maxForceSettlementVolume (market.currentSupply mia), mia⟩
  else maxVolume

/-- Handles the first force settlement from an asset on.  Tells the asset to
go on with. -/
def settleFirst (market : Market) (id : Nat) (order : ForceSettlement)
    (bitasset : BitassetData) (maxVolume : Asset) : Outcome (Option Nat × Asset × Market) :=
  let mia := order.balance.assetId
  if bitasset.hasSettlement then do
    let market ← market.cancelSettlement id
    pure (some mia, maxVolume, market)
  else if market.headBlockTime < order.settlementDate then
    pure (market.nextAsset mia, maxVolume, market)
  else if bitasset.currentFeed.settlementPrice.isNull then do
    let market ← market.cancelSettlement id
    pure (some mia, maxVolume, market)
  else
    let maxVolume := market.volumeFor mia bitasset maxVolume
    if maxVolume.amount ≤ bitasset.forceSettledVolume then
      pure (market.nextAsset mia, maxVolume, market)
    else do
      let market ← market.settleOrder id order bitasset maxVolume.amount
      pure (some mia, maxVolume, market)

/-- At each round either the order is consumed, or the next round goes on to
the next asset. -/
def settleDue : Nat → Option Nat → Asset → Market → Outcome Market
  | 0, _, _, _ => .error .unfinished
  | _ + 1, none, _, market => pure market
  | fuel + 1, some currentAsset, maxVolume, market =>
      match (market.settlementRange fun assetId =>
          decide (currentAsset ≤ assetId)).head? with
      | none => pure market
      | some (id, order) => do
          ensure (market.assets.get order.balance.assetId).isSome .refused
          let bitasset ← found (market.bitassets.get order.balance.assetId) .refused
          let (next, maxVolume, market) ← market.settleFirst id order bitasset maxVolume
          settleDue fuel next maxVolume market

def clearExpiredOrders (market : Market) (terms : MarketTerms) : Outcome Market := do
  let market ← cancelExpired terms (market.limitOrders.next + 1) market
  settleDue (3 * market.settlements.next + 3) (some 0) ⟨0, assetCore⟩ market

/-- Drops the feeds of an asset that have expired. -/
def expireFeed (market : Market) (mia : Nat) : Outcome Market := do
  let bitasset ← found (market.bitassets.get mia) .refused
  if bitasset.feedIsExpired market.headBlockTime then do
    let changed := bitasset.updateMedianFeeds market.headBlockTime
    let market := { market with
      bitassets := market.bitassets.modify mia fun bitasset =>
        bitasset.updateMedianFeeds market.headBlockTime }
    let (_, market) ← market.checkCallOrders
      changed.currentFeed.settlementPrice.base.assetId true
    pure market
  else pure market

def expireFeeds : List Nat → Market → Outcome Market
  | [], market => pure market
  | mia :: rest, market => do
      let market ← market.expireFeed mia
      expireFeeds rest market

def updateExpiredFeeds (market : Market) : Outcome Market :=
  expireFeeds (market.bitassets.rows.map Prod.fst) market

/-- The upkeep of a market-issued asset at a maintenance. -/
def maintainBitasset (market : Market) (mia : Nat) : Outcome Market := do
  let bitasset ← found (market.bitassets.get mia) .refused
  let market := { market with
    bitassets := market.bitassets.modify mia fun bitasset =>
      { bitasset with forceSettledVolume := 0 } }
  match bitasset.settlement with
  | none => pure market
  | some settlement => market.processBids mia bitasset settlement

def maintainBitassets : List Nat → Market → Outcome Market
  | [], market => pure market
  | mia :: rest, market => do
      let market ← market.maintainBitasset mia
      maintainBitassets rest market

/-- The part of `perform_chain_maintenance` for market-issued assets. -/
def performMarketMaintenance (market : Market) : Outcome Market :=
  maintainBitassets (market.bitassets.rows.map Prod.fst) market

end Market

/-- What happens to the market. -/
inductive MarketEvent where
  | limitOrderCreate (op : LimitOrderCreate)
  | limitOrderCancel (op : LimitOrderCancel)
  | callOrderUpdate (op : CallOrderUpdate)
  | bidCollateral (op : BidCollateral)
  | assetSettle (op : AssetSettle)
  | assetGlobalSettle (op : AssetGlobalSettle)
  | assetPublishFeed (op : AssetPublishFeed)
  | assetUpdateFeedProducers (op : AssetUpdateFeedProducers)
  /-- The fee of an operation that does not touch the market otherwise. -/
  | payFee (account : AccountId)
  | clearExpiredOrders
  | updateExpiredFeeds
  | maintenance
  /-- The time of the next block. -/
  | advance (time : Nat)
  deriving DecidableEq, Repr

namespace Market

/-- One event, that goes through. -/
def perform (market : Market) (terms : MarketTerms) : MarketEvent → Outcome Market
  | .limitOrderCreate op => op.perform terms market
  | .limitOrderCancel op => op.perform terms market
  | .callOrderUpdate op => op.perform terms market
  | .bidCollateral op => op.perform terms market
  | .assetSettle op => op.perform terms market
  | .assetGlobalSettle op => op.perform terms market
  | .assetPublishFeed op => op.perform terms market
  | .assetUpdateFeedProducers op => op.perform terms market
  | .payFee account => do
      let (_, market) ← market.payFee terms account terms.coreFee
      pure market
  | .clearExpiredOrders => market.clearExpiredOrders terms
  | .updateExpiredFeeds => market.updateExpiredFeeds
  | .maintenance => market.performMarketMaintenance
  | .advance time => pure { market with headBlockTime := time }

/-- A sequence of events that go through; one that does not is undone and
leaves nothing behind. -/
def run : Market → List (MarketTerms × MarketEvent) → Outcome Market
  | market, [] => pure market
  | market, (terms, event) :: rest => do
      let market ← market.perform terms event
      market.run rest

end Market

end CocosChain.Chain

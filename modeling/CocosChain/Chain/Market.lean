import CocosChain.Chain.Balances
import CocosChain.Library.Table

/-!
# The market

The objects of the market engine: assets with their market-issued data, limit
orders, call orders, force settlements and collateral bids, next to the
balances they are traded from.  The asset of a settlement price is not stored:
a global settlement is always priced in the asset it settles and its backing
asset, and a null settlement price comes with an empty fund.  Virtual
operations are reduced to the limit orders that were cancelled.
-/

namespace CocosChain.Chain

inductive MarketFault where
  /-- An assertion of the source fails or an object is not there. -/
  | refused
  /-- `black_swan_exception` -/
  | blackSwan
  /-- No call order is found for an asset that exists. -/
  | noCallOrder
  /-- An iterator to an order that has been removed is read. -/
  | dangling
  | unfinished
  deriving DecidableEq, Repr

abbrev Outcome := Except MarketFault

structure LimitOrder where
  expiration : Nat
  seller : AccountId
  forSale : Int
  sellPrice : Price
  deferredFee : Option Int
  deriving DecidableEq, Repr

namespace LimitOrder

def amountForSale (order : LimitOrder) : Asset := ⟨order.forSale, order.sellPrice.base.assetId⟩

def amountToReceive (order : LimitOrder) : Option Asset :=
  order.amountForSale.times order.sellPrice

end LimitOrder

structure CallOrder where
  borrower : AccountId
  collateral : Int
  debt : Int
  /-- Collateral in debt; the asset ids of the order are those of this
  price. -/
  callPrice : Price
  deriving DecidableEq, Repr

namespace CallOrder

def debtType (call : CallOrder) : Nat := call.callPrice.quote.assetId

def getCollateral (call : CallOrder) : Asset := ⟨call.collateral, call.callPrice.base.assetId⟩

def getDebt (call : CallOrder) : Asset := ⟨call.debt, call.debtType⟩

/-- The assets of a call price differ, so that the quotient exists. -/
def collateralization (call : CallOrder) : Price := ⟨call.getCollateral, call.getDebt⟩

end CallOrder

structure ForceSettlement where
  owner : AccountId
  balance : Asset
  settlementDate : Nat
  deriving DecidableEq, Repr

structure CollateralBid where
  bidder : AccountId
  /-- Additional collateral in the debt that is covered. -/
  invSwanPrice : Price
  deriving DecidableEq, Repr

namespace CollateralBid

def debtType (bid : CollateralBid) : Nat := bid.invSwanPrice.quote.assetId

end CollateralBid

/-- The bits of `asset_issuer_permission_flags`. -/
abbrev AssetFlags := UInt16

namespace AssetFlags

def chargeMarketFee : AssetFlags := 0x01
def whiteList : AssetFlags := 0x02
def overrideAuthority : AssetFlags := 0x04
def transferRestricted : AssetFlags := 0x08
def disableForceSettle : AssetFlags := 0x10
def globalSettle : AssetFlags := 0x20
def disableIssuer : AssetFlags := 0x40
def witnessFedAsset : AssetFlags := 0x80
def committeeFedAsset : AssetFlags := 0x100

/-- `ASSET_ISSUER_PERMISSION_MASK` -/
def issuerPermissionMask : AssetFlags := 0x1ff

/-- One of the bits is set. -/
def has (flags bits : AssetFlags) : Bool := flags &&& bits != 0

end AssetFlags

structure AssetOptions where
  maxSupply : Int
  marketFeePercent : Nat
  maxMarketFee : Nat
  issuerPermissions : AssetFlags
  flags : AssetFlags
  coreExchangeRate : Option Price
  deriving DecidableEq, Repr

structure AssetObject where
  precision : Nat
  issuer : AccountId
  options : AssetOptions
  deriving DecidableEq, Repr

namespace AssetObject

def canForceSettle (asset : AssetObject) : Bool :=
  !asset.options.flags.has AssetFlags.disableForceSettle

def canGlobalSettle (asset : AssetObject) : Bool :=
  asset.options.issuerPermissions.has AssetFlags.globalSettle

def chargesMarketFees (asset : AssetObject) : Bool :=
  asset.options.flags.has AssetFlags.chargeMarketFee

end AssetObject

structure BitassetOptions where
  feedLifetimeSec : Nat
  minimumFeeds : Nat
  forceSettlementDelaySec : Nat
  forceSettlementOffsetPercent : Nat
  maximumForceSettlementVolume : Nat
  shortBackingAsset : Nat
  deriving DecidableEq, Repr

/-- A global settlement: the supply and the collateral that make its price,
and what is left of the fund. -/
structure Settlement where
  settledSupply : Int
  settledCollateral : Int
  fund : Int
  deriving DecidableEq, Repr

structure BitassetData where
  options : BitassetOptions
  /-- The feeds of the producers with the times they were published at, in
  the order of the producers. -/
  feeds : List (AccountId × Nat × PriceFeed)
  currentFeed : PriceFeed
  currentFeedPublicationTime : Nat
  forceSettledVolume : Int
  settlement : Option Settlement
  deriving DecidableEq, Repr

namespace BitassetData

def backing (bitasset : BitassetData) : Nat := bitasset.options.shortBackingAsset

def hasSettlement (bitasset : BitassetData) : Bool := bitasset.settlement.isSome

/-- What is in the settlement fund, in the backing asset. -/
def settlementFund (bitasset : BitassetData) : Int := bitasset.settlement.elim 0 Settlement.fund

/-- The settlement price of the asset in its backing asset. -/
def settlementPrice (bitasset : BitassetData) (mia : Nat) (settlement : Settlement) : Price :=
  ⟨⟨settlement.settledSupply, mia⟩, ⟨settlement.settledCollateral, bitasset.backing⟩⟩

def maxForceSettlementVolume (bitasset : BitassetData) (currentSupply : Int) : Int :=
  if bitasset.options.maximumForceSettlementVolume = 0 then 0
  else if (bitasset.options.maximumForceSettlementVolume : Int) = hundredPercent then
    currentSupply + bitasset.forceSettledVolume
  else (currentSupply + bitasset.forceSettledVolume) *
    bitasset.options.maximumForceSettlementVolume / hundredPercent

/-- The element in the middle of the sorted values. -/
def median {Value : Type} (before : Value → Value → Bool) (values : List Value) : Option Value :=
  (values.insertionSort fun left right => !before right left)[ values.length / 2]?

/-- Each field is the median of that field over the feeds. -/
def medianFeed (feeds : List PriceFeed) : Option PriceFeed := do
  let settlementPrice ← median Price.lt (feeds.map PriceFeed.settlementPrice)
  let maintenanceCollateralRatio ← median (fun left right => decide
    (left < right)) (feeds.map PriceFeed.maintenanceCollateralRatio)
  let maximumShortSqueezeRatio ← median (fun left right => decide
    (left < right)) (feeds.map PriceFeed.maximumShortSqueezeRatio)
  pure ⟨settlementPrice, maintenanceCollateralRatio, maximumShortSqueezeRatio⟩

/-- A stored feed counts while it is young enough; the feed of a producer who
has not published yet has the time zero. -/
def isCurrent (bitasset : BitassetData) (now : Nat) (feed : AccountId × Nat × PriceFeed) : Bool :=
  decide ((now : Int) - feed.2.1 < bitasset.options.feedLifetimeSec) && feed.2.1 != 0

def updateMedianFeeds (bitasset : BitassetData) (now : Nat) : BitassetData :=
  let current := bitasset.feeds.filter (bitasset.isCurrent now)
  if current.length < bitasset.options.minimumFeeds then
    { bitasset with
      currentFeed := PriceFeed.null
      currentFeedPublicationTime := now }
  else
    { bitasset with
      currentFeed := (medianFeed (current.map fun feed => feed.2.2)).getD PriceFeed.null
      currentFeedPublicationTime :=
        current.foldl (fun time feed => Nat.min time feed.2.1) now }

def feedIsExpired (bitasset : BitassetData) (now : Nat) : Bool :=
  decide (bitasset.currentFeedPublicationTime + bitasset.options.feedLifetimeSec ≤ now)

end BitassetData

/-- The feed of a producer, put in its place. -/
def insertFeed (publisher : AccountId) (feed : Nat × PriceFeed) :
    List (AccountId × Nat × PriceFeed) → List (AccountId × Nat × PriceFeed)
  | [] => [(publisher, feed)]
  | (producer, other) :: rest =>
      if publisher < producer then
        (publisher, feed) :: (producer, other) :: rest
      else if publisher = producer then (publisher, feed) :: rest
      else (producer, other) :: insertFeed publisher feed rest

structure Market where
  balances : Balances
  vestingBalances : Ledger (AccountId × Nat)
  /-- `total_core_in_orders` of the account statistics. -/
  totalCoreInOrders : AccountId → Int
  assets : Table AssetObject
  currentSupply : Nat → Int
  accumulatedFees : Nat → Int
  /-- The data of market-issued assets, under the ids of the assets. -/
  bitassets : Table BitassetData
  limitOrders : Table LimitOrder
  callOrders : Table CallOrder
  settlements : Table ForceSettlement
  bids : Table CollateralBid
  headBlockTime : Nat
  /-- The orders of the `limit_order_cancel` operations so far, virtual ones
  included. -/
  cancelled : List Nat
  /-- What fills have given back of the collateral of the call orders that they
  closed, with the borrowers. -/
  freed : List (AccountId × Asset)

namespace Market

def getBalance (market : Market) (account : AccountId) (assetId : Nat) : Int :=
  market.balances.getBalance account assetId

def adjustBalance (market : Market) (account : AccountId) (delta : Asset) : Outcome Market := do
  let balances ← found (market.balances.adjustBalance account delta) .refused
  pure { market with balances }

def addCoreInOrders (market : Market) (account : AccountId) (delta : Int) : Market :=
  { market with
    totalCoreInOrders := fun other =>
      if other = account then market.totalCoreInOrders other + delta
      else market.totalCoreInOrders other }

/-- The statistics count an amount only if it is in the core asset. -/
def countInOrders (market : Market) (account : AccountId) (delta : Asset) : Market :=
  if delta.assetId = assetCore then
    market.addCoreInOrders account delta.amount
  else market

def addSupply (market : Market) (assetId : Nat) (delta : Int) : Market :=
  { market with
    currentSupply := fun other =>
      if other = assetId then market.currentSupply other + delta
      else market.currentSupply other }

def addFees (market : Market) (assetId : Nat) (fees : Int) : Market :=
  { market with
    accumulatedFees := fun other =>
      if other = assetId then market.accumulatedFees other + fees
      else market.accumulatedFees other }

def isMarketIssued (market : Market) (assetId : Nat) : Bool :=
  (market.bitassets.get assetId).isSome

def empty : Market where
  balances := ⟨[], fun _ _ => 0⟩
  vestingBalances := []
  totalCoreInOrders _ := 0
  assets := Table.empty
  currentSupply _ := 0
  accumulatedFees _ := 0
  bitassets := Table.empty
  limitOrders := Table.empty
  callOrders := Table.empty
  settlements := Table.empty
  bids := Table.empty
  headBlockTime := 0
  cancelled := []
  freed := []

theorem adjustBalance_eq_ok {market : Market} :
    market.adjustBalance account delta = .ok after ↔ ∃ balances,
        market.balances.adjustBalance account delta = some balances ∧
          after = { market with balances } := by
  simp only [adjustBalance, bind_eq_ok, found_eq_ok, pure_eq_ok]
  constructor
  · rintro ⟨balances, adjusted, rfl⟩
    exact ⟨balances, adjusted, rfl⟩
  · rintro ⟨balances, adjusted, rfl⟩
    exact ⟨balances, adjusted, rfl⟩

def calculateMarketFee (asset : AssetObject) (amount : Int) : Int :=
  if !asset.chargesMarketFees then 0
  else if asset.options.marketFeePercent = 0 then 0
  else Min.min (amount * asset.options.marketFeePercent / hundredPercent)
    asset.options.maxMarketFee

def payMarketFees (market : Market) (receives : Asset) : Outcome (Int × Market) := do
  let asset ← found (market.assets.get receives.assetId) .refused
  let fees := calculateMarketFee asset receives.amount
  if 0 < fees then pure (fees, market.addFees receives.assetId fees)
  else pure (fees, market)

def payOrder (market : Market) (receiver : AccountId) (receives pays : Asset) : Outcome Market :=
  (market.countInOrders receiver ⟨-pays.amount, pays.assetId⟩).adjustBalance receiver receives

/-- Limit orders by price, the highest first, then by age. -/
def limitBefore (left right : Nat × LimitOrder) : Bool :=
  left.2.sellPrice.gt right.2.sellPrice ||
    left.2.sellPrice.ge right.2.sellPrice && decide (left.1 ≤ right.1)

/-- The limit orders with prices between the bounds. -/
def limitRange (market : Market) (upper lower : Price) : List (Nat × LimitOrder) :=
  (market.limitOrders.rows.filter fun row =>
    !row.2.sellPrice.gt upper && !row.2.sellPrice.lt lower).insertionSort
      fun left right => limitBefore left right

/-- Call orders by call price, the lowest first, then by age. -/
def callBefore (left right : Nat × CallOrder) : Bool :=
  left.2.callPrice.lt right.2.callPrice ||
    !left.2.callPrice.gt right.2.callPrice && decide (left.1 ≤ right.1)

/-- The call orders of an asset: those between the least and the greatest
price of its backing asset. -/
def callRange (market : Market) (backing mia : Nat) : List (Nat × CallOrder) :=
  (market.callOrders.rows.filter fun row =>
    !row.2.callPrice.lt (Price.min backing mia) &&
      !row.2.callPrice.gt (Price.max backing mia)).insertionSort
        fun left right => callBefore left right

/-- Call orders by collateralization, the lowest first, then by age. -/
def collateralBefore (left right : Nat × CallOrder) : Bool :=
  left.2.collateralization.lt right.2.collateralization ||
    !left.2.collateralization.gt right.2.collateralization && decide (left.1 ≤ right.1)

/-- The first call order from the least price of the backing asset on, in the
index by collateralization. -/
def leastCollateralized (market : Market) (backing mia : Nat) : Option (Nat × CallOrder) :=
  ((market.callOrders.rows.filter fun row =>
    !row.2.collateralization.lt (Price.min backing mia)).insertionSort
      fun left right => collateralBefore left right).head?

/-- Collateral bids by price, the highest first, then by age. -/
def bidBefore (left right : Nat × CollateralBid) : Bool :=
  left.2.invSwanPrice.gt right.2.invSwanPrice ||
    left.2.invSwanPrice.ge right.2.invSwanPrice && decide (left.1 ≤ right.1)

/-- The bids for an asset, from the greatest price of its backing asset on. -/
def bidRange (market : Market) (backing mia : Nat) : List (Nat × CollateralBid) :=
  (market.bids.rows.filter fun row =>
    row.2.debtType == mia && !row.2.invSwanPrice.gt (Price.max backing mia)).insertionSort
        fun left right => bidBefore left right

end Market

end CocosChain.Chain

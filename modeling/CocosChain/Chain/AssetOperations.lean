import CocosChain.Chain.CallOrderOperations

/-!
# Operations on assets

Assets are created and updated by their issuers, issued and reserved.  A
market-issued asset is priced by the feeds of its producers; its holders may
settle it, and its issuer may settle it globally.
-/

namespace CocosChain.Chain

open AssetFlags

def AssetOptions.validate (options : AssetOptions) : Bool :=
  decide (0 < options.maxSupply) && decide (options.maxSupply ≤ maxShareSupply) &&
    decide ((options.marketFeePercent : Int) ≤ hundredPercent) &&
    decide ((options.maxMarketFee : Int) ≤ maxShareSupply) &&
    !options.issuerPermissions.has (~~~issuerPermissionMask) &&
    !options.flags.has globalSettle &&
    options.coreExchangeRate.all (fun rate =>
      rate.quote.assetId == assetCore && decide (0 < rate.quote.amount) &&
        decide (0 < rate.base.amount)) &&
    !(options.flags.has witnessFedAsset &&
      options.flags.has committeeFedAsset)

def BitassetOptions.validate (options : BitassetOptions) : Bool :=
  decide (0 < options.minimumFeeds) &&
    decide ((options.forceSettlementOffsetPercent : Int) ≤ hundredPercent) &&
    decide ((options.maximumForceSettlementVolume : Int) ≤ hundredPercent)

/-- The supply in the smallest unit has to fit into 64 bits once more. -/
def supplyFits (options : AssetOptions) (precision : Nat) : Bool :=
  decide (options.maxSupply * 10 ^ precision < 2 ^ 63)

namespace Market

/-- The core asset and GAS, as the chain starts with them. -/
def genesis : Market :=
  let options : AssetOptions := ⟨maxShareSupply, 0, 0, 2, 0, none⟩
  let rate : Price := ⟨⟨1, assetCore⟩, ⟨1, assetGas⟩⟩
  { empty with
    assets := (Table.empty.create ⟨5, committeeAccount, options⟩).create
      ⟨5, committeeAccount, { options with
        issuerPermissions := 0x8a
        flags := 0x8a
        coreExchangeRate := some rate }⟩
    bitassets := (Table.empty.append none).append none
    currentSupply := fun id => if id = assetCore then maxShareSupply else 0
    headBlockTime := 1 }

def backingOf (market : Market) (assetId : Nat) : Option Nat :=
  (market.bitassets.get assetId).map BitassetData.backing

theorem isMarketIssued_eq {market : Market} (id : Nat) :
    market.isMarketIssued id = (market.backingOf id).isSome := by
  simp [isMarketIssued, backingOf]

theorem backingOf_of_held {market : Market} (held : market.bitassets.get mia = some bitasset) :
    market.backingOf mia = some bitasset.backing := by
  simp [backingOf, held]

/-- A chain of backing assets of a new asset, as it is checked at its creation:
it ends after one or two steps, and for the committee in the core asset. -/
def backingAdmitted (market : Market) (issuer : AccountId) (backing : Nat) : Bool :=
  match market.backingOf backing with
  | some backingBacking =>
      (market.assets.get backingBacking).isSome && !market.isMarketIssued backingBacking &&
        (issuer != committeeAccount || backingBacking == assetCore)
  | none => issuer != committeeAccount || backing == assetCore

/-- The backing asset, or its backing asset, is the core asset. -/
def backedByCore (market : Market) (backing : Nat) : Bool :=
  match market.backingOf backing with
  | some backingBacking => backingBacking == assetCore
  | none => backing == assetCore

end Market

structure AssetCreate where
  issuer : AccountId
  precision : Nat
  commonOptions : AssetOptions
  bitassetOpts : Option BitassetOptions
  deriving DecidableEq, Repr

namespace AssetCreate

def validate (op : AssetCreate) : Bool :=
  op.commonOptions.validate && (!op.commonOptions.issuerPermissions.has
        (disableForceSettle ||| globalSettle) ||
      op.bitassetOpts.isSome) &&
    op.bitassetOpts.all BitassetOptions.validate &&
    supplyFits op.commonOptions op.precision && decide (op.precision ≤ 12)

def evaluate (op : AssetCreate) (terms : MarketTerms) (market : Market) : Bool :=
  terms.symbolAdmitted && op.bitassetOpts.all fun options =>
    (market.assets.get options.shortBackingAsset).isSome &&
      market.backingAdmitted op.issuer options.shortBackingAsset &&
      decide (terms.blockInterval < options.feedLifetimeSec) &&
      decide (terms.blockInterval < options.forceSettlementDelaySec)

def bitasset (options : BitassetOptions) : BitassetData where
  options := options
  feeds := []
  currentFeed := PriceFeed.null
  currentFeedPublicationTime := 0
  forceSettledVolume := 0
  settlement := none

/-- The exchange rate of a new asset is quoted for that asset. -/
def rated (options : AssetOptions) (id : Nat) : AssetOptions :=
  { options with
    coreExchangeRate := options.coreExchangeRate.map fun rate =>
      { rate with base := { rate.base with assetId := id } } }

def apply (op : AssetCreate) (market : Market) : Outcome Market := do
  ensure (op.commonOptions.coreExchangeRate.all Price.validate) .refused
  let id := market.assets.next
  pure { market with
    assets := market.assets.create ⟨op.precision, op.issuer, rated op.commonOptions id⟩
    bitassets := market.bitassets.append (op.bitassetOpts.map bitasset)
    currentSupply := fun other =>
      if other = id then 0 else market.currentSupply other
    accumulatedFees := fun other =>
      if other = id then 0 else market.accumulatedFees other }

def perform (op : AssetCreate) (terms : MarketTerms) (market : Market) : Outcome Market := do
  ensure op.validate .refused
  ensure (op.evaluate terms market) .refused
  let market ← op.apply market
  let (_, market) ← market.payFee terms op.issuer terms.coreFee
  pure market

end AssetCreate

structure AssetUpdate where
  issuer : AccountId
  assetToUpdate : Nat
  newIssuer : Option AccountId
  newOptions : AssetOptions
  deriving DecidableEq, Repr

namespace AssetUpdate

def validate (op : AssetUpdate) : Bool :=
  op.newIssuer != some op.issuer && op.newOptions.validate

/-- `asset_object::validate` for the new options. -/
def optionsSuit (op : AssetUpdate) (market : Market) : Bool :=
  let settling := disableForceSettle ||| globalSettle
  market.isMarketIssued op.assetToUpdate ||
    !op.newOptions.flags.has settling && !op.newOptions.issuerPermissions.has settling

/-- The committee may only take over an asset that is backed by the core
asset. -/
def newIssuerAdmitted (op : AssetUpdate) (terms : MarketTerms) (market : Market) : Bool :=
  match op.newIssuer with
  | none => true
  | some newIssuer =>
      terms.accountExists newIssuer && (newIssuer != committeeAccount ||
          (market.backingOf op.assetToUpdate).all market.backedByCore)

def evaluate (op : AssetUpdate) (terms : MarketTerms) (asset : AssetObject)
    (market : Market) : Bool :=
  supplyFits op.newOptions asset.precision && op.optionsSuit market &&
    op.newOptions.coreExchangeRate.all (fun rate =>
      rate.base.assetId == op.assetToUpdate) &&
    op.newIssuerAdmitted terms market &&
    (market.currentSupply op.assetToUpdate == 0 ||
      !op.newOptions.issuerPermissions.has (~~~asset.options.issuerPermissions)) &&
    !AssetFlags.has (op.newOptions.flags ^^^ asset.options.flags)
      (~~~asset.options.issuerPermissions) &&
    op.issuer == asset.issuer

end AssetUpdate

namespace Market

def cancelSettlements : List Nat → Market → Outcome Market
  | [], market => pure market
  | id :: rest, market => do
      let market ← market.cancelSettlement id
      cancelSettlements rest market

/-- Force settlements by asset, then by date, then by age. -/
def settlementBefore (left right : Nat × ForceSettlement) : Bool :=
  decide (left.2.balance.assetId < right.2.balance.assetId) ||
    left.2.balance.assetId == right.2.balance.assetId &&
      (decide (left.2.settlementDate < right.2.settlementDate) ||
        left.2.settlementDate == right.2.settlementDate && decide (left.1 ≤ right.1))

/-- The force settlements whose asset satisfies the condition, in order. -/
def settlementRange (market : Market) (selects : Nat → Bool) : List (Nat × ForceSettlement) :=
  (market.settlements.rows.filter fun row =>
    selects row.2.balance.assetId).insertionSort fun left right => settlementBefore left right

end Market

namespace AssetUpdate

/-- When force settlement gets disabled, the open settlements are
cancelled. -/
def cancelDisabled (op : AssetUpdate) (asset : AssetObject) (market : Market) : Outcome Market :=
  if op.newOptions.flags.has disableForceSettle && asset.canForceSettle then
    Market.cancelSettlements ((market.settlementRange fun assetId =>
      assetId == op.assetToUpdate).map Prod.fst) market
  else pure market

def perform (op : AssetUpdate) (terms : MarketTerms) (market : Market) : Outcome Market := do
  ensure op.validate .refused
  let asset ← found (market.assets.get op.assetToUpdate) .refused
  ensure (op.evaluate terms asset market) .refused
  let market ← op.cancelDisabled asset market
  let market := { market with
    assets := market.assets.modify op.assetToUpdate fun asset =>
      { asset with
        issuer := op.newIssuer.getD asset.issuer
        options := op.newOptions } }
  let (_, market) ← market.payFee terms op.issuer terms.coreFee
  pure market

end AssetUpdate

structure AssetUpdateBitasset where
  issuer : AccountId
  assetToUpdate : Nat
  newOptions : BitassetOptions
  deriving DecidableEq, Repr

namespace AssetUpdateBitasset

/-- A change of the backing asset.  What is checked for the committee is the
backing asset before the change. -/
def backingChangeAdmitted (op : AssetUpdateBitasset) (asset : AssetObject)
    (bitasset : BitassetData) (market : Market) : Bool :=
  op.newOptions.shortBackingAsset == bitasset.backing ||
    market.currentSupply op.assetToUpdate == 0 &&
      (market.assets.get op.newOptions.shortBackingAsset).isSome &&
      (asset.issuer != committeeAccount ||
        market.backedByCore bitasset.backing)

def evaluate (op : AssetUpdateBitasset) (asset : AssetObject)
    (bitasset : BitassetData) (market : Market) : Bool :=
  !bitasset.hasSettlement && op.backingChangeAdmitted asset bitasset market &&
    op.issuer == asset.issuer

/-- The median is only computed again when the number of feeds it needs has
changed. -/
def change (op : AssetUpdateBitasset) (now : Nat) (bitasset : BitassetData) : BitassetData :=
  let changed := { bitasset with options := op.newOptions }
  if op.newOptions.minimumFeeds ≠ bitasset.options.minimumFeeds then
    changed.updateMedianFeeds now
  else changed

def perform (op : AssetUpdateBitasset) (terms : MarketTerms)
    (market : Market) : Outcome Market := do
  ensure op.newOptions.validate .refused
  let asset ← found (market.assets.get op.assetToUpdate) .refused
  let bitasset ← found (market.bitassets.get op.assetToUpdate) .refused
  ensure (op.evaluate asset bitasset market) .refused
  let market := { market with
    bitassets := market.bitassets.modify op.assetToUpdate
      (op.change market.headBlockTime) }
  let (_, market) ← market.payFee terms op.issuer terms.coreFee
  pure market

end AssetUpdateBitasset

structure AssetUpdateFeedProducers where
  issuer : AccountId
  assetToUpdate : Nat
  newFeedProducers : List AccountId
  deriving DecidableEq, Repr

namespace AssetUpdateFeedProducers

def evaluate (op : AssetUpdateFeedProducers) (terms : MarketTerms) (asset : AssetObject) : Bool :=
  decide (op.newFeedProducers.length ≤ terms.maximumAssetFeedPublishers) &&
    op.newFeedProducers.all (fun producer =>
      terms.accountExists producer && (!terms.isCommitteeMember producer ||
          !asset.options.flags.has committeeFedAsset) &&
        (!terms.isWitness producer ||
          !asset.options.flags.has witnessFedAsset)) &&
    asset.issuer == op.issuer

/-- New producers have an empty feed without a time. -/
def addProducers : List AccountId → List (AccountId × Nat × PriceFeed) →
    List (AccountId × Nat × PriceFeed)
  | [], feeds => feeds
  | producer :: rest, feeds =>
      if feeds.any fun feed => feed.1 == producer then
        addProducers rest feeds
      else addProducers rest (insertFeed producer (0, PriceFeed.null) feeds)

def change (op : AssetUpdateFeedProducers) (now : Nat) (bitasset : BitassetData) : BitassetData :=
  { bitasset with
    feeds := addProducers op.newFeedProducers (bitasset.feeds.filter fun feed =>
        op.newFeedProducers.contains feed.1) }.updateMedianFeeds now

def perform (op : AssetUpdateFeedProducers) (terms : MarketTerms)
    (market : Market) : Outcome Market := do
  let asset ← found (market.assets.get op.assetToUpdate) .refused
  ensure (market.bitassets.get op.assetToUpdate).isSome .refused
  ensure (op.evaluate terms asset) .refused
  let market := { market with
    bitassets := market.bitassets.modify op.assetToUpdate
      (op.change market.headBlockTime) }
  let (_, market) ← market.checkCallOrders op.assetToUpdate true
  let (_, market) ← market.payFee terms op.issuer terms.coreFee
  pure market

end AssetUpdateFeedProducers

structure AssetPublishFeed where
  publisher : AccountId
  assetId : Nat
  feed : PriceFeed
  deriving DecidableEq, Repr

namespace AssetPublishFeed

def validate (op : AssetPublishFeed) : Bool :=
  op.feed.validate && !op.feed.settlementPrice.isNull && op.feed.isFor op.assetId

def mayPublish (op : AssetPublishFeed) (terms : MarketTerms)
    (asset : AssetObject) (bitasset : BitassetData) : Bool :=
  if asset.options.flags.has witnessFedAsset then
    terms.feedsAsWitness op.publisher
  else if asset.options.flags.has committeeFedAsset then
    terms.feedsAsCommittee op.publisher
  else bitasset.feeds.any fun feed => feed.1 == op.publisher

def evaluate (op : AssetPublishFeed) (terms : MarketTerms)
    (asset : AssetObject) (bitasset : BitassetData) : Bool :=
  op.feed.settlementPrice.quote.assetId == bitasset.backing &&
    op.mayPublish terms asset bitasset

def change (op : AssetPublishFeed) (now : Nat) (bitasset : BitassetData) : BitassetData :=
  { bitasset with
    feeds := insertFeed op.publisher (now, op.feed)
      bitasset.feeds }.updateMedianFeeds now

/-- The settlement fund covers the supply at the new feed. -/
def fundSuffices (market : Market) (mia : Nat) (bitasset : BitassetData)
    (settlement : Settlement) : Outcome Bool :=
  if market.currentSupply mia = 0 then pure true
  else do
    let valuation ← found (Price.callPrice ⟨market.currentSupply mia, mia⟩
      ⟨settlement.fund, bitasset.backing⟩
      bitasset.currentFeed.maintenanceCollateralRatio) .refused
    pure (valuation.invert.lt bitasset.currentFeed.settlementPrice)

/-- A settled asset is revived when the new feed allows it. -/
def maybeRevive (market : Market) (mia : Nat) (bitasset : BitassetData) : Outcome Market :=
  match bitasset.settlement with
  | none => pure market
  | some settlement => do
      let covered ← fundSuffices market mia bitasset settlement
      if !bitasset.currentFeed.settlementPrice.isNull && covered then
        market.reviveBitasset mia
      else pure market

/-- What follows from a feed that has changed. -/
def react (market : Market) (mia : Nat) (old : PriceFeed)
    (bitasset : BitassetData) : Outcome Market :=
  if old.eq bitasset.currentFeed then pure market
  else do
    let market ← maybeRevive market mia bitasset
    let (_, market) ← market.checkCallOrders mia true
    pure market

def perform (op : AssetPublishFeed) (terms : MarketTerms) (market : Market) : Outcome Market := do
  ensure op.validate .refused
  let asset ← found (market.assets.get op.assetId) .refused
  let bitasset ← found (market.bitassets.get op.assetId) .refused
  ensure (op.evaluate terms asset bitasset) .refused
  let market := { market with
    bitassets := market.bitassets.modify op.assetId
      (op.change market.headBlockTime) }
  let market ← react market op.assetId bitasset.currentFeed
    (op.change market.headBlockTime bitasset)
  let (_, market) ← market.payFee terms op.publisher terms.coreFee
  pure market

end AssetPublishFeed

structure AssetSettle where
  account : AccountId
  amount : Asset
  deriving DecidableEq, Repr

namespace AssetSettle

def evaluate (op : AssetSettle) (asset : AssetObject)
    (bitasset : BitassetData) (market : Market) : Bool :=
  (asset.canForceSettle || bitasset.hasSettlement) &&
    (!bitasset.currentFeed.settlementPrice.isNull ||
      bitasset.hasSettlement) &&
    decide (op.amount.amount ≤ market.getBalance op.account op.amount.assetId)

/-- The whole supply gets the whole fund. -/
def settledAmount (op : AssetSettle) (bitasset : BitassetData)
    (settlement : Settlement) (market : Market) : Outcome Asset := do
  let settled ← found (op.amount.times
    (bitasset.settlementPrice op.amount.assetId settlement)) .refused
  if op.amount.amount = market.currentSupply op.amount.assetId then
    pure ⟨settlement.fund, settled.assetId⟩
  else do
    ensure (decide (settled.amount ≤ settlement.fund)) .refused
    pure settled

/-- Settles at once from the fund of a global settlement. -/
def settleFromFund (op : AssetSettle) (bitasset : BitassetData)
    (settlement : Settlement) (market : Market) : Outcome Market := do
  let settled ← op.settledAmount bitasset settlement market
  let market := { market with
    bitassets := market.bitassets.modify op.amount.assetId fun bitasset =>
      { bitasset with
        settlement := some ⟨settlement.settledSupply,
          settlement.settledCollateral, settlement.fund - settled.amount⟩ } }
  let market ← market.adjustBalance op.account settled
  pure (market.addSupply op.amount.assetId (-op.amount.amount))

def apply (op : AssetSettle) (bitasset : BitassetData) (market : Market) : Outcome Market := do
  let market ← market.adjustBalance op.account ⟨-op.amount.amount, op.amount.assetId⟩
  match bitasset.settlement with
  | some settlement => op.settleFromFund bitasset settlement market
  | none => pure { market with
      settlements := market.settlements.create ⟨op.account, op.amount,
          market.headBlockTime + bitasset.options.forceSettlementDelaySec⟩ }

theorem settledAmount_spec {op : AssetSettle}
    (done : op.settledAmount bitasset settlement market = .ok settled) :
    settled.assetId = bitasset.backing ∧
      ((op.amount.amount = market.currentSupply op.amount.assetId ∧
          settled.amount = settlement.fund) ∨
        (op.amount.amount ≠ market.currentSupply op.amount.assetId ∧
          settled.amount ≤ settlement.fund ∧ 0 < settlement.settledSupply ∧
          settled.amount = op.amount.amount * settlement.settledCollateral /
            settlement.settledSupply)) := by
  simp only [settledAmount, bind_eq_ok, found_eq_ok, Asset.times,
    BitassetData.settlementPrice, if_true] at done
  obtain ⟨_, worth, done⟩ := done
  obtain ⟨positive, -, -, rfl⟩ := scale_eq_some.mp worth
  split at done
  · rename_i whole
    cases done
    exact ⟨rfl, .inl ⟨whole, rfl⟩⟩
  · rename_i part
    simp only [bind_eq_ok, ensure_eq_ok, pure_eq_ok, decide_eq_true_eq] at done
    obtain ⟨-, covered, rfl⟩ := done
    exact ⟨rfl, .inr ⟨part, covered, positive, rfl⟩⟩

/-- An amount waits for its day, or it is settled from the fund at once. -/
theorem apply_cases {op : AssetSettle} (done : op.apply bitasset market = .ok after) :
    ∃ balances, market.balances.adjustBalance op.account
        ⟨-op.amount.amount, op.amount.assetId⟩ = some balances ∧
      ((bitasset.settlement = none ∧ ∃ date, after = { market with
          balances
          settlements := market.settlements.create
            ⟨op.account, op.amount, date⟩ }) ∨
        ∃ settlement settled paid, bitasset.settlement = some settlement ∧
          op.settledAmount bitasset settlement market = .ok settled ∧
          balances.adjustBalance op.account settled = some paid ∧
          after = { market with
            balances := paid
            bitassets := market.bitassets.modify op.amount.assetId
              fun bitasset => { bitasset with
                settlement := some ⟨settlement.settledSupply, settlement.settledCollateral,
                  settlement.fund - settled.amount⟩ }
            currentSupply := (market.addSupply op.amount.assetId
              (-op.amount.amount)).currentSupply }) := by
  simp only [apply, bind_eq_ok] at done
  obtain ⟨_, adjusted, done⟩ := done
  obtain ⟨balances, taken, rfl⟩ := Market.adjustBalance_eq_ok.mp adjusted
  refine ⟨balances, taken, ?_⟩
  split at done
  · rename_i settlement settled_
    simp only [settleFromFund, bind_eq_ok, pure_eq_ok] at done
    obtain ⟨settled, amount, _, given, rfl⟩ := done
    obtain ⟨paid, payment, rfl⟩ := Market.adjustBalance_eq_ok.mp given
    exact .inr ⟨settlement, settled, paid, settled_, amount, payment, rfl⟩
  · rename_i unsettled
    cases done
    exact .inl ⟨unsettled, _, rfl⟩

def perform (op : AssetSettle) (terms : MarketTerms) (market : Market) : Outcome Market := do
  ensure (decide (0 ≤ op.amount.amount)) .refused
  let asset ← found (market.assets.get op.amount.assetId) .refused
  let bitasset ← found (market.bitassets.get op.amount.assetId) .refused
  ensure (op.evaluate asset bitasset market) .refused
  let market ← op.apply bitasset market
  let (_, market) ← market.payFee terms op.account terms.coreFee
  pure market

end AssetSettle

structure AssetGlobalSettle where
  issuer : AccountId
  assetToSettle : Nat
  settlePrice : Price
  deriving DecidableEq, Repr

namespace AssetGlobalSettle

/-- The least collateralized call order has to be covered at the price. -/
def coversLeast (op : AssetGlobalSettle) (bitasset : BitassetData)
    (market : Market) : Outcome Unit :=
  match market.leastCollateralized bitasset.backing op.assetToSettle with
  | none => .error .noCallOrder
  | some (_, call) =>
      if call.debtType ≠ op.assetToSettle then .error .noCallOrder
      else do
        let cost ← found (call.getDebt.times op.settlePrice) .refused
        ensure (cost.assetId == call.getCollateral.assetId) .refused
        ensure (decide (cost.amount ≤ call.collateral)) .refused

def perform (op : AssetGlobalSettle) (terms : MarketTerms) (market : Market) : Outcome Market := do
  ensure (op.assetToSettle == op.settlePrice.base.assetId) .refused
  let asset ← found (market.assets.get op.assetToSettle) .refused
  let bitasset ← found (market.bitassets.get op.assetToSettle) .refused
  ensure (asset.canGlobalSettle && asset.issuer == op.issuer &&
    decide (0 < market.currentSupply op.assetToSettle)) .refused
  op.coversLeast bitasset market
  let market ← market.globallySettleAsset op.assetToSettle op.settlePrice
  let (_, market) ← market.payFee terms op.issuer terms.coreFee
  pure market

end AssetGlobalSettle

structure AssetIssue where
  issuer : AccountId
  assetToIssue : Asset
  issueToAccount : AccountId
  deriving DecidableEq, Repr

namespace AssetIssue

def evaluate (op : AssetIssue) (terms : MarketTerms) (asset : AssetObject)
    (market : Market) : Bool :=
  op.issuer == asset.issuer && !market.isMarketIssued op.assetToIssue.assetId &&
    !asset.options.issuerPermissions.has disableIssuer &&
    !asset.options.flags.has disableIssuer &&
    terms.mayHold op.issueToAccount op.assetToIssue.assetId &&
    decide (market.currentSupply op.assetToIssue.assetId +
      op.assetToIssue.amount ≤ asset.options.maxSupply)

def perform (op : AssetIssue) (terms : MarketTerms) (market : Market) : Outcome Market := do
  ensure (decide (op.assetToIssue.amount ≤ maxShareSupply) &&
    decide (0 < op.assetToIssue.amount)) .refused
  let asset ← found (market.assets.get op.assetToIssue.assetId) .refused
  ensure (op.evaluate terms asset market) .refused
  let market ← market.adjustBalance op.issueToAccount op.assetToIssue
  let market := market.addSupply op.assetToIssue.assetId op.assetToIssue.amount
  let (_, market) ← market.payFee terms op.issuer terms.coreFee
  pure market

end AssetIssue

structure AssetReserve where
  payer : AccountId
  amountToReserve : Asset
  deriving DecidableEq, Repr

namespace AssetReserve

def evaluate (op : AssetReserve) (terms : MarketTerms) (market : Market) : Bool :=
  !market.isMarketIssued op.amountToReserve.assetId &&
    terms.mayHold op.payer op.amountToReserve.assetId &&
    decide (0 ≤ market.currentSupply op.amountToReserve.assetId - op.amountToReserve.amount)

def perform (op : AssetReserve) (terms : MarketTerms) (market : Market) : Outcome Market := do
  ensure (decide (op.amountToReserve.amount ≤ maxShareSupply) &&
    decide (0 < op.amountToReserve.amount)) .refused
  ensure (market.assets.get op.amountToReserve.assetId).isSome .refused
  ensure (op.evaluate terms market) .refused
  let market ← market.adjustBalance op.payer
    ⟨-op.amountToReserve.amount, op.amountToReserve.assetId⟩
  let market := market.addSupply op.amountToReserve.assetId (-op.amountToReserve.amount)
  let (_, market) ← market.payFee terms op.payer terms.coreFee
  pure market

end AssetReserve

end CocosChain.Chain

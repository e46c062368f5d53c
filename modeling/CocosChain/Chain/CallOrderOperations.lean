import CocosChain.Chain.LimitOrderOperations

/-!
# Borrowing and bidding collateral

A call order is a debt in a market-issued asset against collateral in its
backing asset.  After a global settlement collateral is bid for the debt; the
asset is revived when bids cover its supply, or when the settlement fund
covers it at a new feed.
-/

namespace CocosChain.Chain

structure CallOrderUpdate where
  fundingAccount : AccountId
  deltaCollateral : Asset
  deltaDebt : Asset
  deriving DecidableEq, Repr

namespace CallOrderUpdate

def validate (op : CallOrderUpdate) : Bool :=
  op.deltaCollateral.assetId != op.deltaDebt.assetId &&
    (op.deltaCollateral.amount != 0 || op.deltaDebt.amount != 0)

/-- The source also compares the balance with a negative debt, which always
holds. -/
def evaluate (op : CallOrderUpdate) (bitasset : BitassetData) (market : Market) : Bool :=
  !bitasset.hasSettlement && op.deltaCollateral.assetId == bitasset.backing &&
    !bitasset.currentFeed.settlementPrice.isNull &&
    (!decide (0 < op.deltaCollateral.amount) ||
      decide (op.deltaCollateral.amount ≤ market.getBalance op.fundingAccount bitasset.backing))

def issueDebt (op : CallOrderUpdate) (market : Market) : Outcome Market :=
  if op.deltaDebt.amount = 0 then pure market
  else do
    let market ← market.adjustBalance op.fundingAccount op.deltaDebt
    pure (market.addSupply op.deltaDebt.assetId op.deltaDebt.amount)

def takeCollateral (op : CallOrderUpdate) (market : Market) : Outcome Market :=
  if op.deltaCollateral.amount = 0 then pure market
  else do
    let market ← market.adjustBalance op.fundingAccount
      ⟨-op.deltaCollateral.amount, op.deltaCollateral.assetId⟩
    pure (market.countInOrders op.fundingAccount op.deltaCollateral)

def find (market : Market) (account : AccountId) (mia : Nat) : Option (Nat × CallOrder) :=
  market.callOrders.rows.find? fun row =>
    row.2.borrower == account && row.2.debtType == mia

def callPriceOf (call : CallOrder) (ratio : Nat) : Outcome CallOrder :=
  if 0 < call.debt then do
    let callPrice ← found (Price.callPrice call.getDebt call.getCollateral ratio) .refused
    pure { call with callPrice }
  else pure call

/-- Changes the call order of the account, or creates one. -/
def place (op : CallOrderUpdate) (bitasset : BitassetData) (market : Market) :
    Outcome ((Nat × CallOrder) × Market) :=
  let ratio := bitasset.currentFeed.maintenanceCollateralRatio
  match find market op.fundingAccount op.deltaDebt.assetId with
  | none => do
      ensure (decide (0 < op.deltaCollateral.amount)) .refused
      ensure (decide (0 < op.deltaDebt.amount)) .refused
      let callPrice ← found (Price.callPrice op.deltaDebt op.deltaCollateral ratio) .refused
      let call : CallOrder := ⟨op.fundingAccount, op.deltaCollateral.amount,
        op.deltaDebt.amount, callPrice⟩
      pure ((market.callOrders.next, call),
        { market with callOrders := market.callOrders.create call })
  | some (id, old) => do
      let call ← callPriceOf { old with
        collateral := old.collateral + op.deltaCollateral.amount
        debt := old.debt + op.deltaDebt.amount } ratio
      pure ((id, call), { market with
        callOrders := market.callOrders.modify id fun _ => call })

/-- The order may not stay where it would be margin called. -/
def checkPlaced (op : CallOrderUpdate) (bitasset : BitassetData) (id : Nat)
    (market : Market) : Outcome Market := do
  let (called, market) ← market.checkCallOrders op.deltaDebt.assetId false
  match called, market.callOrders.get id with
  | true, none => pure market
  | true, some _ => .error .refused
  | false, none => .error .refused
  | false, some call => do
      ensure (call.callPrice.invert.lt bitasset.currentFeed.settlementPrice) .refused
      pure market

/-- Changes the position of the account.  A position without debt is closed,
else its order is returned. -/
def adjust (op : CallOrderUpdate) (bitasset : BitassetData)
    (market : Market) : Outcome (Option Nat × Market) := do
  let market ← op.issueDebt market
  let market ← op.takeCollateral market
  let ((id, call), market) ← op.place bitasset market
  if call.debt = 0 then do
    ensure (call.collateral == 0) .refused
    pure (none, { market with callOrders := market.callOrders.remove id })
  else do
    ensure (decide (0 < call.collateral) && decide (0 < call.debt)) .refused
    pure (some id, market)

/-- Balances and counters after the debt and the collateral have moved. -/
def moved (op : CallOrderUpdate) (market : Market) (balances : Balances) : Market :=
  { market with
    balances
    currentSupply := (market.addSupply op.deltaDebt.assetId op.deltaDebt.amount).currentSupply
    totalCoreInOrders := (market.countInOrders op.fundingAccount
      op.deltaCollateral).totalCoreInOrders }

/-- The ways a position may change: a new order, a changed one, or a closed
one. -/
inductive Adjusted (op : CallOrderUpdate) (bitasset : BitassetData)
    (base : Market) : Option Nat → Market → Prop where
  | opened {callPrice : Price} :
      find base op.fundingAccount op.deltaDebt.assetId = none →
      0 < op.deltaCollateral.amount → 0 < op.deltaDebt.amount →
      Price.callPrice op.deltaDebt op.deltaCollateral
        bitasset.currentFeed.maintenanceCollateralRatio = some callPrice →
      Adjusted op bitasset base (some base.callOrders.next)
        { base with
          callOrders := base.callOrders.create
            ⟨op.fundingAccount, op.deltaCollateral.amount,
              op.deltaDebt.amount, callPrice⟩ }
  | changed {id : Nat} {old : CallOrder} {callPrice : Price} :
      find base op.fundingAccount op.deltaDebt.assetId = some (id, old) →
      0 < old.collateral + op.deltaCollateral.amount →
      0 < old.debt + op.deltaDebt.amount →
      Price.callPrice ⟨old.debt + op.deltaDebt.amount, old.debtType⟩
        ⟨old.collateral + op.deltaCollateral.amount,
          old.callPrice.base.assetId⟩
        bitasset.currentFeed.maintenanceCollateralRatio = some callPrice →
      Adjusted op bitasset base (some id)
        { base with
          callOrders := base.callOrders.modify id fun _ =>
            ⟨old.borrower, old.collateral + op.deltaCollateral.amount,
              old.debt + op.deltaDebt.amount, callPrice⟩ }
  | closed {id : Nat} {old : CallOrder} :
      find base op.fundingAccount op.deltaDebt.assetId = some (id, old) →
      old.collateral + op.deltaCollateral.amount = 0 →
      old.debt + op.deltaDebt.amount = 0 →
      Adjusted op bitasset base none
        { base with callOrders := base.callOrders.remove id }

variable {op : CallOrderUpdate}

theorem Adjusted.frame (adjusted : Adjusted op bitasset base placed after) :
    ∃ callOrders, after = { base with callOrders } := by
  cases adjusted with
  | opened => exact ⟨_, rfl⟩
  | changed => exact ⟨_, rfl⟩
  | closed => exact ⟨_, rfl⟩

theorem issueDebt_spec (issued : op.issueDebt market = .ok after) :
    ∃ balances, market.balances.adjustBalance op.fundingAccount op.deltaDebt = some balances ∧
      after = { market with
        balances
        currentSupply := (market.addSupply op.deltaDebt.assetId
          op.deltaDebt.amount).currentSupply } := by
  unfold issueDebt at issued
  split at issued
  · rename_i nothing
    cases issued
    refine ⟨market.balances, by simp [Balances.adjustBalance, nothing], ?_⟩
    simp [Market.addSupply, nothing]
  · simp only [bind_eq_ok, pure_eq_ok] at issued
    obtain ⟨_, adjusted, rfl⟩ := issued
    obtain ⟨balances, given, rfl⟩ := Market.adjustBalance_eq_ok.mp adjusted
    exact ⟨balances, given, rfl⟩

theorem takeCollateral_spec (taken : op.takeCollateral market = .ok after) :
    ∃ balances, market.balances.adjustBalance op.fundingAccount
        ⟨-op.deltaCollateral.amount, op.deltaCollateral.assetId⟩ = some balances ∧
      after = { market with
        balances
        totalCoreInOrders := (market.countInOrders op.fundingAccount
          op.deltaCollateral).totalCoreInOrders } := by
  unfold takeCollateral at taken
  split at taken
  · rename_i nothing
    cases taken
    refine ⟨market.balances, by simp [Balances.adjustBalance, nothing], ?_⟩
    simp [Market.countInOrders, Market.addCoreInOrders, nothing]
  · simp only [bind_eq_ok, pure_eq_ok] at taken
    obtain ⟨_, adjusted, rfl⟩ := taken
    obtain ⟨balances, given, rfl⟩ := Market.adjustBalance_eq_ok.mp adjusted
    rw [Market.countInOrders_eq]
    have same : { market with balances }.totalCoreInOrders = market.totalCoreInOrders := rfl
    rw [Market.countInOrders_congr same]
    exact ⟨balances, given, rfl⟩

theorem adjust_spec (done : op.adjust bitasset market = .ok (placed, after)) :
    ∃ issued balances, market.balances.adjustBalance op.fundingAccount op.deltaDebt = some issued ∧
      issued.adjustBalance op.fundingAccount
        ⟨-op.deltaCollateral.amount, op.deltaCollateral.assetId⟩ = some balances ∧
      Adjusted op bitasset (op.moved market balances) placed after := by
  simp only [adjust, bind_eq_ok, Prod.exists] at done
  obtain ⟨_, issuing, taken, taking, _, _, _, placing, done⟩ := done
  obtain ⟨issued, given, rfl⟩ := issueDebt_spec issuing
  obtain ⟨balances, paid, moving⟩ := takeCollateral_spec taking
  have same : { market with
      balances := issued
      currentSupply := (market.addSupply op.deltaDebt.assetId
        op.deltaDebt.amount).currentSupply }.totalCoreInOrders =
      market.totalCoreInOrders := rfl
  rw [Market.countInOrders_congr same] at moving
  have base : taken = op.moved market balances := moving
  refine ⟨issued, balances, given, paid, ?_⟩
  rw [← base]
  unfold place at placing
  simp only at placing
  split at placing
  · rename_i absent
    simp only [bind_eq_ok, ensure_eq_ok, found_eq_ok, pure_eq_ok,
      Prod.mk.injEq, decide_eq_true_eq] at placing
    obtain ⟨-, secured, -, owed, callPrice, priced, ⟨rfl, rfl⟩, rfl⟩ := placing
    rw [if_neg owed.ne'] at done
    simp only [bind_eq_ok, ensure_eq_ok, pure_eq_ok, Prod.mk.injEq] at done
    obtain ⟨-, -, rfl, rfl⟩ := done
    exact .opened absent secured owed priced
  · rename_i old known
    simp only [bind_eq_ok, pure_eq_ok, Prod.mk.injEq] at placing
    obtain ⟨changed, pricing, ⟨rfl, rfl⟩, rfl⟩ := placing
    unfold callPriceOf at pricing
    split at pricing
    · rename_i owed
      simp only [bind_eq_ok, found_eq_ok, pure_eq_ok] at pricing
      obtain ⟨_, priced, rfl⟩ := pricing
      rw [if_neg (Int.ne_of_gt owed)] at done
      simp only [bind_eq_ok, ensure_eq_ok, pure_eq_ok, Prod.mk.injEq,
        Bool.and_eq_true, decide_eq_true_eq] at done
      obtain ⟨-, ⟨secured, -⟩, rfl, rfl⟩ := done
      exact .changed known secured owed priced
    · rename_i unowed
      cases pricing
      split at done
      · rename_i free
        simp only [bind_eq_ok, ensure_eq_ok, pure_eq_ok, Prod.mk.injEq, beq_iff_eq] at done
        obtain ⟨-, empty, rfl, rfl⟩ := done
        rw [Table.remove_modify]
        exact .closed known empty free
      · simp only [bind_eq_ok, ensure_eq_ok, Bool.and_eq_true, decide_eq_true_eq] at done
        obtain ⟨-, ⟨-, owed⟩, -⟩ := done
        exact absurd owed unowed

def apply (op : CallOrderUpdate) (bitasset : BitassetData) (market : Market) : Outcome Market := do
  let (placed, market) ← op.adjust bitasset market
  match placed with
  | none => pure market
  | some id => op.checkPlaced bitasset id market

def perform (op : CallOrderUpdate) (terms : MarketTerms) (market : Market) : Outcome Market := do
  ensure op.validate .refused
  let bitasset ← found (market.bitassets.get op.deltaDebt.assetId) .refused
  ensure (op.evaluate bitasset market) .refused
  let market ← op.apply bitasset market
  let (_, market) ← market.payFee terms op.fundingAccount terms.coreFee
  pure market

end CallOrderUpdate

structure BidCollateral where
  bidder : AccountId
  additionalCollateral : Asset
  debtCovered : Asset
  deriving DecidableEq, Repr

namespace BidCollateral

def validate (op : BidCollateral) : Bool :=
  op.debtCovered.amount == 0 ||
    decide (0 < op.debtCovered.amount) && decide (0 < op.additionalCollateral.amount)

def evaluate (op : BidCollateral) (bitasset : BitassetData) (market : Market) : Bool :=
  bitasset.hasSettlement && op.additionalCollateral.assetId == bitasset.backing &&
    (!decide (0 < op.additionalCollateral.amount) ||
      decide (op.additionalCollateral.amount ≤ market.getBalance op.bidder bitasset.backing))

/-- The bid of an account for an asset. -/
def find (market : Market) (bidder : AccountId) (mia : Nat) : Option (Nat × CollateralBid) :=
  market.bids.rows.find? fun row =>
    row.2.debtType == mia && row.2.bidder == bidder

def placeBid (op : BidCollateral) (market : Market) : Outcome Market := do
  ensure (op.debtCovered.amount != 0) .refused
  let market ← market.adjustBalance op.bidder
    ⟨-op.additionalCollateral.amount, op.additionalCollateral.assetId⟩
  let invSwanPrice ← found (Price.ofAssets op.additionalCollateral op.debtCovered) .refused
  pure { market with bids := market.bids.create ⟨op.bidder, invSwanPrice⟩ }

theorem placeBid_spec {op : BidCollateral} (placed : op.placeBid market = .ok after) :
    ∃ balances, op.debtCovered.amount ≠ 0 ∧ market.balances.adjustBalance op.bidder
        ⟨-op.additionalCollateral.amount, op.additionalCollateral.assetId⟩ = some balances ∧
      after = { market with
        balances
        bids := market.bids.create
          ⟨op.bidder, ⟨op.additionalCollateral, op.debtCovered⟩⟩ } := by
  simp only [placeBid, bind_eq_ok, ensure_eq_ok, found_eq_ok, pure_eq_ok, bne_iff_ne] at placed
  obtain ⟨-, covers, _, adjusted, _, formed, rfl⟩ := placed
  obtain ⟨balances, taken, rfl⟩ := Market.adjustBalance_eq_ok.mp adjusted
  unfold Price.ofAssets at formed
  split at formed
  · cases formed
  · cases formed
    exact ⟨balances, covers, taken, rfl⟩

def apply (op : BidCollateral) (market : Market) : Outcome Market :=
  match find market op.bidder op.debtCovered.assetId with
  | none => do
      ensure (decide (0 < op.debtCovered.amount)) .refused
      op.placeBid market
  | some (id, _) => do
      let market ← market.cancelBid id
      if op.debtCovered.amount = 0 then pure market else op.placeBid market

def perform (op : BidCollateral) (terms : MarketTerms) (market : Market) : Outcome Market := do
  ensure op.validate .refused
  let bitasset ← found (market.bitassets.get op.debtCovered.assetId) .refused
  ensure (op.evaluate bitasset market) .refused
  let market ← op.apply market
  let (_, market) ← market.payFee terms op.bidder terms.coreFee
  pure market

end BidCollateral

namespace Market

/-- `execute_bid`: the bid becomes a call order.  An account has at most one
call order in an asset; creating a second one is refused. -/
def executeBid (market : Market) (id : Nat) (debtCovered fromFund : Int)
    (feed : PriceFeed) : Outcome Market := do
  let bid ← found (market.bids.get id) .refused
  let collateral : Asset := ⟨bid.invSwanPrice.base.amount + fromFund,
    bid.invSwanPrice.base.assetId⟩
  let callPrice ← found (Price.callPrice ⟨debtCovered, bid.debtType⟩
    collateral feed.maintenanceCollateralRatio) .refused
  ensure (CallOrderUpdate.find market bid.bidder bid.debtType).isNone .refused
  let market := { market with
    callOrders := market.callOrders.create
      ⟨bid.bidder, collateral.amount, debtCovered, callPrice⟩ }
  let market := market.countInOrders bid.bidder collateral
  pure { market with bids := market.bids.remove id }

variable {market : Market} {currentSupply : Int}

theorem executeBid_spec {id : Nat}
    (done : market.executeBid id debtCovered fromFund feed = .ok after) :
    ∃ bid callPrice, market.bids.get id = some bid ∧
      Price.callPrice ⟨debtCovered, bid.debtType⟩ ⟨bid.invSwanPrice.base.amount + fromFund,
          bid.invSwanPrice.base.assetId⟩ feed.maintenanceCollateralRatio = some callPrice ∧
      CallOrderUpdate.find market bid.bidder bid.debtType = none ∧
      after = { market with
        callOrders := market.callOrders.create
          ⟨bid.bidder, bid.invSwanPrice.base.amount + fromFund, debtCovered, callPrice⟩
        totalCoreInOrders := (market.countInOrders bid.bidder
          ⟨bid.invSwanPrice.base.amount + fromFund,
            bid.invSwanPrice.base.assetId⟩).totalCoreInOrders
        bids := market.bids.remove id } := by
  simp only [executeBid, bind_eq_ok, found_eq_ok, ensure_eq_ok, pure_eq_ok,
    Option.isNone_iff_eq_none] at done
  obtain ⟨bid, listed, callPrice, priced, -, new, rfl⟩ := done
  refine ⟨bid, callPrice, listed, priced, new, ?_⟩
  rw [countInOrders_eq]
  have same : { market with
      callOrders := market.callOrders.create
        ⟨bid.bidder, bid.invSwanPrice.base.amount + fromFund, debtCovered,
          callPrice⟩ }.totalCoreInOrders = market.totalCoreInOrders := rfl
  rw [countInOrders_congr same]

def cancelBids : List Nat → Market → Outcome Market
  | [], market => pure market
  | id :: rest, market => do
      let market ← market.cancelBid id
      cancelBids rest market

theorem cancelBids_closed (related : Market → Market → Prop)
    (refl : ∀ market, related market market)
    (trans : ∀ {market middle after}, related market middle → related middle
      after → related market after)
    (cancelBid : ∀ {market after id}, market.cancelBid id = .ok after → related market after)
    (done : cancelBids ids market = .ok after) : related market after := by
  induction ids generalizing market with
  | nil =>
    cases done
    exact refl _
  | cons id rest induction =>
    simp only [cancelBids, bind_eq_ok] at done
    obtain ⟨_, cancelled, later⟩ := done
    exact trans (cancelBid cancelled) (induction later)

/-- `_cancel_bids_and_revive_mpa` -/
def cancelBidsAndRevive (market : Market) (mia : Nat) : Outcome Market := do
  let bitasset ← found (market.bitassets.get mia) .refused
  ensure bitasset.hasSettlement .refused
  let market ← cancelBids ((market.bidRange bitasset.backing mia).map Prod.fst) market
  pure { market with
    bitassets := market.bitassets.modify mia fun bitasset =>
      { bitasset with settlement := none } }

theorem cancelBidsAndRevive_spec (done : market.cancelBidsAndRevive mia = .ok after) :
    ∃ ids middle, cancelBids ids market = .ok middle ∧
      after = { middle with
        bitassets := middle.bitassets.modify mia fun bitasset =>
          { bitasset with settlement := none } } := by
  simp only [cancelBidsAndRevive, bind_eq_ok, pure_eq_ok] at done
  obtain ⟨_, -, _, -, middle, cancelled, rfl⟩ := done
  exact ⟨_, middle, cancelled, rfl⟩

/-- The issuer takes over the debt with the settlement fund. -/
def takeOver (market : Market) (mia : Nat) (issuer : AccountId)
    (bitasset : BitassetData) (fund : Int) : Outcome Market :=
  if 0 < market.currentSupply mia then do
    ensure (BidCollateral.find market issuer mia).isNone .refused
    let invSwanPrice ← found (Price.ofAssets ⟨0, bitasset.backing⟩
      ⟨market.currentSupply mia, mia⟩) .refused
    { market with bids := market.bids.create ⟨issuer, invSwanPrice⟩ }.executeBid
      market.bids.next (market.currentSupply mia) fund bitasset.currentFeed
  else do
    ensure (fund == 0) .refused
    pure market

def reviveBitasset (market : Market) (mia : Nat) : Outcome Market := do
  let asset ← found (market.assets.get mia) .refused
  let bitasset ← found (market.bitassets.get mia) .refused
  let settlement ← found bitasset.settlement .refused
  ensure (!bitasset.currentFeed.settlementPrice.isNull) .refused
  let market ← market.takeOver mia asset.issuer bitasset settlement.fund
  market.cancelBidsAndRevive mia

/-- The best bids, as long as they do not cover the supply and would not be
margin called, with the debt they cover. -/
def coverDebt (price : Price) (feed : PriceFeed) (currentSupply : Int) :
    List (Nat × CollateralBid) → Int → Outcome (List Nat × Int)
  | [], covered => pure ([], covered)
  | (id, bid) :: rest, covered =>
      if currentSupply ≤ covered then pure ([], covered)
      else do
        let share ← found (bid.invSwanPrice.quote.times price) .refused
        ensure (share.assetId == bid.invSwanPrice.base.assetId) .refused
        let callPrice ← found (Price.callPrice bid.invSwanPrice.quote
          ⟨share.amount + bid.invSwanPrice.base.amount, share.assetId⟩
          feed.maintenanceCollateralRatio) .refused
        if callPrice.invert.ge feed.settlementPrice then pure ([], covered)
        else do
          let (ids, covered) ← coverDebt price feed currentSupply rest
            (covered + bid.invSwanPrice.quote.amount)
          pure (id :: ids, covered)

/-- Executes the bids; the last one gets what is left of debt and fund. -/
def executeBids (price : Price) (feed : PriceFeed) : List Nat → Int → Int → Market → Outcome Market
  | [], toCover, remainingFund, market => do
      ensure (remainingFund == 0) .refused
      ensure (toCover == 0) .refused
      pure market
  | id :: rest, toCover, remainingFund, market => do
      let bid ← found (market.bids.get id) .refused
      let quote := bid.invSwanPrice.quote
      let share ← found (quote.times price) .refused
      let debt := if toCover ≤ quote.amount then toCover else quote.amount
      let collateral := if toCover ≤ quote.amount then remainingFund
        else share.amount
      let market ← market.executeBid id debt collateral feed
      executeBids price feed rest (toCover - debt) (remainingFund - collateral) market

def processBids (market : Market) (mia : Nat) (bitasset : BitassetData)
    (settlement : Settlement) : Outcome Market :=
  if bitasset.currentFeed.settlementPrice.isNull then pure market
  else do
    let price := bitasset.settlementPrice mia settlement
    let toRevive ← found ((⟨0, bitasset.backing⟩ : Asset).times price) .refused
    let currentSupply := market.currentSupply toRevive.assetId
    let (ids, covered) ← coverDebt price bitasset.currentFeed currentSupply
      (market.bidRange bitasset.backing toRevive.assetId) 0
    if covered < currentSupply then pure market
    else do
      let market ← executeBids price bitasset.currentFeed ids currentSupply
        settlement.fund market
      market.cancelBidsAndRevive mia

/-- Every bid in the list is needed to cover the supply, and gets its share of
the fund in the asset of its own collateral. -/
def Covering (price : Price) (currentSupply : Int) : Int → List (Nat × CollateralBid) → Prop
  | _, [] => True
  | covered, (_, bid) :: rest =>
      covered < currentSupply ∧ (∃ share, bid.invSwanPrice.quote.times price = some share ∧
          share.assetId = bid.invSwanPrice.base.assetId) ∧
        Covering price currentSupply (covered + bid.invSwanPrice.quote.amount) rest

/-- The bids that are taken are the first ones, and each of them has a
collateral with its share. -/
theorem coverDebt_spec (done : coverDebt price feed currentSupply rows covered = .ok (ids, total)) :
    ∃ taken, taken <+: rows ∧ ids = taken.map Prod.fst ∧ total = covered +
        (taken.map fun row => row.2.invSwanPrice.quote.amount).sum ∧
      Covering price currentSupply covered taken ∧
      ∀ row ∈ taken, ∃ share, row.2.invSwanPrice.quote.times price = some share ∧
          share.assetId = row.2.invSwanPrice.base.assetId ∧
          0 < share.amount + row.2.invSwanPrice.base.amount := by
  induction rows generalizing covered ids with
  | nil =>
    cases done
    exact ⟨[], by simp, rfl, by simp, trivial, by simp⟩
  | cons row rest induction =>
    obtain ⟨id, bid⟩ := row
    unfold coverDebt at done
    split at done
    · cases done
      exact ⟨[], by simp, rfl, by simp, trivial, by simp⟩
    · rename_i uncovered
      simp only [bind_eq_ok, found_eq_ok, ensure_eq_ok, beq_iff_eq] at done
      obtain ⟨share, worth, -, asset, _, priced, done⟩ := done
      split at done
      · cases done
        exact ⟨[], by simp, rfl, by simp, trivial, by simp⟩
      · simp only [bind_eq_ok, pure_eq_ok, Prod.exists, Prod.mk.injEq] at done
        obtain ⟨_, _, covering, rfl, rfl⟩ := done
        obtain ⟨taken, first, rfl, sum, rest_, each⟩ := induction covering
        refine ⟨(id, bid) :: taken, (List.prefix_cons_inj _).mpr first, rfl,
          ?_, ⟨Int.not_le.mp uncovered, ⟨share, worth, asset⟩, rest_⟩, ?_⟩
        · rw [sum, List.map_cons, List.sum_cons, Int.add_assoc]
        · intro row member
          rcases List.mem_cons.mp member with rfl | member
          · exact ⟨share, worth, asset, (Price.callPrice_cases priced).1⟩
          · exact each row member

/-- Bids for an asset are executed one after the other.  The indices are the
debt and the part of the fund that they take over together. -/
inductive BidsExecuted (mia backing : Nat) (feed : PriceFeed) :
    Int → Int → Market → Market → Prop where
  | none {market : Market} : BidsExecuted mia backing feed 0 0 market market
  | next {market middle after : Market} {id : Nat} {bid : CollateralBid}
      {debt fund restDebt restFund : Int} :
      market.bids.get id = some bid → bid.debtType = mia →
      bid.invSwanPrice.base.assetId = backing → 0 < debt →
      market.executeBid id debt fund feed = .ok middle →
      BidsExecuted mia backing feed restDebt restFund middle after →
        BidsExecuted mia backing feed (debt + restDebt) (fund + restFund)
          market after

theorem bids_executeBid {id : Nat} (done : market.executeBid id debt fund feed = .ok after)
    (listed : after.bids.get other = some bid) : market.bids.get other = some bid := by
  obtain ⟨_, _, -, -, -, rfl⟩ := executeBid_spec done
  rw [Table.get_remove] at listed
  split at listed
  · cases listed
  · exact listed

theorem executeBids_spec (positive : ∀ row ∈ taken, 0 < row.2.invSwanPrice.quote.amount)
    (listed : ∀ row ∈ taken, row.2.debtType = mia ∧ ∀ bid, market.bids.get row.1
      = some bid → bid = row.2)
    (covering : Covering ⟨⟨supplied, mia⟩, ⟨collateral, backing⟩⟩ currentSupply covered taken)
    (done : executeBids ⟨⟨supplied, mia⟩, ⟨collateral, backing⟩⟩ feed (taken.map
      Prod.fst) (currentSupply - covered) fund market = .ok after) :
    BidsExecuted mia backing feed (currentSupply - covered) fund market
      after := by
  induction taken generalizing covered fund market with
  | nil =>
    simp only [List.map_nil, executeBids, bind_eq_ok, ensure_eq_ok, pure_eq_ok, beq_iff_eq] at done
    obtain ⟨-, spent, -, full, rfl⟩ := done
    rw [spent, full]
    exact .none
  | cons row rest induction =>
    obtain ⟨id, bid⟩ := row
    obtain ⟨_, ⟨share, worth, asset⟩, later⟩ := covering
    simp only [List.map_cons, executeBids, bind_eq_ok, found_eq_ok] at done
    obtain ⟨held, found_, _, worth', middle, executed, done⟩ := done
    have first := listed (id, bid) List.mem_cons_self
    obtain rfl : held = bid := first.2 held found_
    rw [worth] at worth'
    cases worth'
    have kind : held.debtType = mia := first.1
    have backed : held.invSwanPrice.base.assetId = backing := by
      have target : held.invSwanPrice.quote.assetId = mia := kind
      simp only [Asset.times, target, if_true] at worth
      obtain ⟨-, -, -, rfl⟩ := scale_eq_some.mp worth
      exact asset.symm
    have quote : 0 < held.invSwanPrice.quote.amount := positive (id, held) List.mem_cons_self
    have stays : ∀ row ∈ rest, row.2.debtType = mia ∧
        ∀ bid, middle.bids.get row.1 = some bid → bid = row.2 := by
      intro row member
      have there := listed row (List.mem_cons_of_mem _ member)
      exact ⟨there.1, fun bid found =>
        there.2 bid (bids_executeBid executed found)⟩
    have others : ∀ row ∈ rest, 0 < row.2.invSwanPrice.quote.amount :=
      fun row member => positive row (List.mem_cons_of_mem _ member)
    by_cases last : currentSupply - covered ≤ held.invSwanPrice.quote.amount
    · have empty : rest = [] := by
        cases rest with
        | nil => rfl
        | cons row rest => exact absurd later.1 (by omega)
      subst empty
      simp only [last, if_true, List.map_nil, executeBids, bind_eq_ok,
        ensure_eq_ok, pure_eq_ok] at executed done
      obtain ⟨-, -, -, -, rfl⟩ := done
      have step := BidsExecuted.next found_ kind backed (by omega) executed BidsExecuted.none
      simpa using step
    · simp only [last, if_false] at executed done
      have remaining : currentSupply - covered - held.invSwanPrice.quote.amount =
          currentSupply - (covered + held.invSwanPrice.quote.amount) := by
        omega
      rw [remaining] at done
      have step := BidsExecuted.next found_ kind backed quote executed
        (induction others stays later done)
      have debt : held.invSwanPrice.quote.amount + (currentSupply -
          (covered + held.invSwanPrice.quote.amount)) = currentSupply - covered := by
        omega
      have shared : share.amount + (fund - share.amount) = fund := by
        omega
      rw [debt, shared] at step
      exact step

theorem mem_bidRange (member : row ∈ market.bidRange backing mia) :
    market.bids.get row.1 = some row.2 ∧ row.2.debtType = mia := by
  simp only [bidRange, List.mem_insertionSort, List.mem_filter,
    Bool.and_eq_true, beq_iff_eq] at member
  exact ⟨Table.mem_rows.mp member.1, member.2.1⟩

theorem processBids_cases
    (bids : market.bids.Forall fun _ bid =>
      0 ≤ bid.invSwanPrice.base.amount ∧ 0 < bid.invSwanPrice.quote.amount)
    (done : market.processBids mia bitasset settlement = .ok after) :
    after = market ∨ ∃ middle, BidsExecuted mia bitasset.backing bitasset.currentFeed
          (market.currentSupply mia) settlement.fund market middle ∧
        middle.cancelBidsAndRevive mia = .ok after := by
  unfold processBids at done
  split at done
  · cases done
    exact .inl rfl
  · simp only [bind_eq_ok, found_eq_ok, Prod.exists] at done
    obtain ⟨toRevive, reviving, _, _, covering, done⟩ := done
    have target : toRevive.assetId = mia := by
      simp only [Asset.times, BitassetData.settlementPrice] at reviving
      split at reviving
      · rename_i same
        obtain ⟨-, -, -, rfl⟩ := scale_eq_some.mp reviving
        exact same
      · obtain ⟨-, -, -, rfl⟩ := scale_eq_some.mp reviving
        rfl
    rw [target] at covering done
    obtain ⟨taken, first, rfl, -, covers, -⟩ := coverDebt_spec covering
    have among : ∀ row ∈ taken, row ∈ market.bidRange bitasset.backing mia :=
      fun _ member => first.subset member
    split at done
    · cases done
      exact .inl rfl
    · simp only [bind_eq_ok] at done
      obtain ⟨middle, executed, revived⟩ := done
      refine .inr ⟨middle, ?_, revived⟩
      have listed : ∀ row ∈ taken, row.2.debtType = mia ∧
          ∀ bid, market.bids.get row.1 = some bid → bid = row.2 := by
        intro row member
        obtain ⟨here, kind⟩ := mem_bidRange (among row member)
        refine ⟨kind, fun bid there => ?_⟩
        rw [here] at there
        exact (Option.some.inj there).symm
      have positives : ∀ row ∈ taken, 0 < row.2.invSwanPrice.quote.amount := by
        intro row member
        exact (bids row.1 row.2 (mem_bidRange (among row member)).1).2
      have all : market.currentSupply mia = market.currentSupply mia - 0 := by
        omega
      rw [all] at executed ⊢
      exact executeBids_spec positives listed covers executed

theorem reviveBitasset_cases (done : market.reviveBitasset mia = .ok after) :
    ∃ bitasset settlement start middle, market.bitassets.get mia = some bitasset ∧
      bitasset.settlement = some settlement ∧
      ((market.currentSupply mia ≤ 0 ∧ settlement.fund = 0 ∧ start = market ∧ middle = market) ∨
        (0 < market.currentSupply mia ∧
          (∃ issuer, start = { market with
            bids := market.bids.create ⟨issuer,
              ⟨⟨0, bitasset.backing⟩, ⟨market.currentSupply mia, mia⟩⟩⟩ }) ∧
          BidsExecuted mia bitasset.backing bitasset.currentFeed
            (market.currentSupply mia) settlement.fund start middle)) ∧
      middle.cancelBidsAndRevive mia = .ok after := by
  simp only [reviveBitasset, bind_eq_ok, found_eq_ok, ensure_eq_ok] at done
  obtain ⟨asset, -, bitasset, held, settlement, settled, -, -, middle, taken, revived⟩ := done
  unfold takeOver at taken
  split at taken
  · rename_i supplied
    simp only [bind_eq_ok, found_eq_ok, ensure_eq_ok] at taken
    obtain ⟨-, -, _, formed, executed⟩ := taken
    unfold Price.ofAssets at formed
    split at formed
    · cases formed
    · cases formed
      refine ⟨bitasset, settlement, _, middle, held, settled,
        .inr ⟨supplied, ⟨asset.issuer, rfl⟩, ?_⟩, revived⟩
      have listed : (market.bids.create ⟨asset.issuer, ⟨⟨0, bitasset.backing⟩,
            ⟨market.currentSupply mia, mia⟩⟩⟩).get market.bids.next =
          some ⟨asset.issuer, ⟨⟨0, bitasset.backing⟩, ⟨market.currentSupply mia, mia⟩⟩⟩ := by
        rw [Table.get_create, if_pos rfl]
      have step : BidsExecuted mia bitasset.backing bitasset.currentFeed
          (market.currentSupply mia + 0) (settlement.fund + 0) _ middle :=
        .next listed rfl rfl supplied executed .none
      simpa using step
  · rename_i empty
    simp only [bind_eq_ok, ensure_eq_ok, pure_eq_ok, beq_iff_eq] at taken
    obtain ⟨-, spent, rfl⟩ := taken
    exact ⟨bitasset, settlement, market, market, held, settled,
      .inl ⟨Int.not_lt.mp empty, spent, rfl, rfl⟩, revived⟩

end Market

end CocosChain.Chain

import CocosChain.Chain.MarginCalls

/-!
# Fees and limit orders

An operation is evaluated, applied, and then its fee is paid: in GAS as far as
there is any, else in the core asset.  What a limit order paid in the core
asset is remembered in the order when it stays in the book.
-/

namespace CocosChain.Chain

/-- What the rest of the chain contributes to an operation. -/
structure MarketTerms where
  /-- The fee of the operation by the fee schedule. -/
  coreFee : Int
  /-- The fee of a `limit_order_cancel`. -/
  cancelFee : Int
  /-- The GAS for a fee, by the floating-point value of the exchange rate. -/
  requireGas : Int → Int
  /-- The market lists of the asset to sell, and the authorization of its
  seller. -/
  mayTrade : AccountId → Nat → Nat → Bool
  /-- The account is authorized to hold the asset. -/
  mayHold : AccountId → Nat → Bool
  isWitness : AccountId → Bool
  isCommitteeMember : AccountId → Bool
  /-- The account is in the active authority of the witness account. -/
  feedsAsWitness : AccountId → Bool
  /-- The account is in the active authority of the committee account. -/
  feedsAsCommittee : AccountId → Bool
  accountExists : AccountId → Bool
  /-- The symbol of a new asset is free and in the issuer's domain. -/
  symbolAdmitted : Bool
  blockInterval : Nat
  maximumAssetFeedPublishers : Nat

/-- Nothing costs a fee and everything is authorized. -/
def MarketTerms.free : MarketTerms where
  coreFee := 0
  cancelFee := 0
  requireGas fee := fee
  mayTrade _ _ _ := true
  mayHold _ _ := true
  isWitness _ := false
  isCommitteeMember _ := false
  feedsAsWitness _ := true
  feedsAsCommittee _ := true
  accountExists _ := true
  symbolAdmitted := true
  blockInterval := 3
  maximumAssetFeedPublishers := 10

namespace Market

def depositCashback (market : Market) (account : AccountId) (amount : Asset) : Market :=
  if amount.amount = 0 then market
  else { market with
    vestingBalances := market.vestingBalances.adjust (account, amount.assetId)
      amount.amount }

/-- `account_object::pay_fee` -/
def creditFee (market : Market) (account : AccountId) (fee : Asset) : Market :=
  if fee.assetId = assetCore then market.addFees assetCore fee.amount
  else market.depositCashback account fee

/-- Hands a fee over and takes it from the balance. -/
def takeFee (market : Market) (account : AccountId) (fee : Asset) : Outcome Market :=
  (market.creditFee account fee).adjustBalance account ⟨-fee.amount, fee.assetId⟩

/-- A fee that the GAS of the account does not cover. -/
def payMixedFee (market : Market) (account : AccountId) (rate : Price)
    (coreFee requireGas : Int) : Outcome (Asset × Market) := do
  let totalGas := market.getBalance account assetGas
  if 0 < totalGas then do
    let market ← market.takeFee account ⟨totalGas, assetGas⟩
    let rest : Asset := ⟨requireGas - totalGas, assetGas⟩
    let requireCore ← found (rest.times rate) .refused
    let market ← market.takeFee account requireCore
    pure (requireCore, market)
  else do
    let market ← market.takeFee account ⟨coreFee, assetCore⟩
    pure (⟨coreFee, assetCore⟩, market)

/-- `generic_evaluator::pay_fee`, with the last fee that was paid. -/
def payFee (market : Market) (terms : MarketTerms) (account : AccountId)
    (coreFee : Int) : Outcome (Option Asset × Market) := do
  let gas ← found (market.assets.get assetGas) .refused
  let rate ← found gas.options.coreExchangeRate .refused
  let requireGas := terms.requireGas coreFee
  if coreFee ≤ 0 then pure (none, market)
  else if requireGas ≤ market.getBalance account assetGas then do
    let market ← market.takeFee account ⟨requireGas, assetGas⟩
    pure (some ⟨requireGas, assetGas⟩, market)
  else do
    let (fee, market) ← market.payMixedFee account rate coreFee requireGas
    pure (some fee, market)

/-- Only balances and fees are different. -/
def SameButFees (market after : Market) : Prop :=
  after = { market with
    balances := after.balances
    vestingBalances := after.vestingBalances
    accumulatedFees := after.accumulatedFees }

theorem SameButFees.trans (first : SameButFees market middle) (second : SameButFees middle after) :
    SameButFees market after := by
  rw [first] at second
  exact second

theorem takeFee_frame (taken : market.takeFee account fee = .ok after) :
    SameButFees market after := by
  obtain ⟨_, -, rfl⟩ := adjustBalance_eq_ok.mp taken
  unfold creditFee
  split
  · rfl
  · unfold depositCashback
    split
    · rfl
    · rfl

theorem payMixedFee_closed (related : Market → Market → Prop)
    (trans : ∀ {market middle after}, related market middle → related middle
      after → related market after)
    (takeFee : ∀ {market after account fee}, market.takeFee account fee = .ok
      after → related market after)
    (paid : market.payMixedFee account rate coreFee requireGas = .ok (fee, after)) :
    related market after := by
  simp only [payMixedFee] at paid
  split at paid
  · simp only [bind_eq_ok, found_eq_ok, pure_eq_ok, Prod.mk.injEq] at paid
    obtain ⟨middle, first, _, -, _, second, -, rfl⟩ := paid
    exact trans (takeFee first) (takeFee second)
  · simp only [bind_eq_ok, pure_eq_ok, Prod.mk.injEq] at paid
    obtain ⟨_, first, -, rfl⟩ := paid
    exact takeFee first

theorem payFee_closed (related : Market → Market → Prop) (refl : ∀ market, related market market)
    (trans : ∀ {market middle after}, related market middle → related middle
      after → related market after)
    (takeFee : ∀ {market after account fee}, market.takeFee account fee = .ok
      after → related market after)
    (paid : market.payFee terms account coreFee = .ok (fee, after)) : related market after := by
  simp only [payFee, bind_eq_ok, found_eq_ok] at paid
  obtain ⟨_, -, _, -, paid⟩ := paid
  split at paid
  · cases paid
    exact refl _
  · split at paid
    · simp only [bind_eq_ok, pure_eq_ok, Prod.mk.injEq] at paid
      obtain ⟨middle, first, -, rfl⟩ := paid
      exact takeFee first
    · simp only [bind_eq_ok, pure_eq_ok, Prod.mk.injEq, Prod.exists] at paid
      obtain ⟨_, _, mixed, -, rfl⟩ := paid
      exact payMixedFee_closed related trans takeFee mixed

theorem payFee_frame (paid : market.payFee terms account coreFee = .ok (fee, after)) :
    SameButFees market after :=
  payFee_closed SameButFees (fun _ => rfl) SameButFees.trans takeFee_frame paid

end Market

structure LimitOrderCreate where
  seller : AccountId
  amountToSell : Asset
  minToReceive : Asset
  expiration : Nat
  fillOrKill : Bool
  deriving DecidableEq, Repr

namespace LimitOrderCreate

def validate (op : LimitOrderCreate) : Bool :=
  op.amountToSell.assetId != op.minToReceive.assetId &&
    decide (0 < op.amountToSell.amount) && decide (0 < op.minToReceive.amount)

def evaluate (op : LimitOrderCreate) (terms : MarketTerms) (market : Market) : Bool :=
  decide (market.headBlockTime ≤ op.expiration) &&
    (market.assets.get op.amountToSell.assetId).isSome &&
    (market.assets.get op.minToReceive.assetId).isSome &&
    op.amountToSell.assetId != assetGas &&
    terms.mayTrade op.seller op.amountToSell.assetId op.minToReceive.assetId &&
    decide (op.amountToSell.amount ≤ market.getBalance op.seller op.amountToSell.assetId)

/-- The order, before it is matched with others. -/
def order (op : LimitOrderCreate) : LimitOrder where
  expiration := op.expiration
  seller := op.seller
  forSale := op.amountToSell.amount
  sellPrice := ⟨op.amountToSell, op.minToReceive⟩
  deferredFee := none

/-- Takes the amount from the seller and puts the order into the book. -/
def place (op : LimitOrderCreate) (market : Market) : Outcome Market := do
  let market := market.countInOrders op.seller op.amountToSell
  let market ← market.adjustBalance op.seller ⟨-op.amountToSell.amount, op.amountToSell.assetId⟩
  pure { market with limitOrders := market.limitOrders.create op.order }

theorem place_spec {op : LimitOrderCreate} (placed : op.place market = .ok after) :
    ∃ balances, market.balances.adjustBalance op.seller
        ⟨-op.amountToSell.amount, op.amountToSell.assetId⟩ = some balances ∧
      after = { market with
        balances
        totalCoreInOrders := (market.countInOrders op.seller op.amountToSell).totalCoreInOrders
        limitOrders := market.limitOrders.create op.order } := by
  simp only [place, bind_eq_ok, pure_eq_ok] at placed
  obtain ⟨_, adjusted, rfl⟩ := placed
  rw [Market.countInOrders_eq] at adjusted
  obtain ⟨balances, taken, rfl⟩ := Market.adjustBalance_eq_ok.mp adjusted
  exact ⟨balances, taken, rfl⟩

/-- `do_apply`; tells whether the order is gone. -/
def apply (op : LimitOrderCreate) (market : Market) : Outcome (Bool × Market) := do
  let id := market.limitOrders.next
  let market ← op.place market
  let (filled, market) ← market.applyOrder id
  ensure (!op.fillOrKill || filled) .refused
  pure (filled, market)

/-- What was paid in the core asset is remembered in an order that stays. -/
def deferFee (market : Market) (id : Nat) (filled : Bool) (fee : Option Asset) : Market :=
  match filled, fee with
  | false, some fee =>
      if fee.assetId = assetCore then
        { market with
          limitOrders := market.limitOrders.modify id fun order =>
            { order with deferredFee := some fee.amount } }
      else market
  | _, _ => market

def perform (op : LimitOrderCreate) (terms : MarketTerms) (market : Market) : Outcome Market := do
  ensure op.validate .refused
  ensure (op.evaluate terms market) .refused
  let id := market.limitOrders.next
  let (filled, market) ← op.apply market
  let (fee, market) ← market.payFee terms op.seller terms.coreFee
  pure (deferFee market id filled fee)

end LimitOrderCreate

structure LimitOrderCancel where
  order : Nat
  feePayingAccount : AccountId
  deriving DecidableEq, Repr

namespace LimitOrderCancel

def apply (op : LimitOrderCancel) (market : Market) : Outcome Market := do
  let order ← found (market.limitOrders.get op.order) .refused
  ensure (order.seller == op.feePayingAccount) .refused
  let market ← market.cancelLimitOrder op.order
  let (_, market) ← market.checkCallOrders order.sellPrice.base.assetId true
  let (_, market) ← market.checkCallOrders order.sellPrice.quote.assetId true
  pure market

def perform (op : LimitOrderCancel) (terms : MarketTerms) (market : Market) : Outcome Market := do
  let market ← op.apply market
  let (_, market) ← market.payFee terms op.feePayingAccount terms.cancelFee
  pure market

end LimitOrderCancel

end CocosChain.Chain

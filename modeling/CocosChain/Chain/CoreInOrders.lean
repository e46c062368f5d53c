import CocosChain.Chain.Solvency

/-!
# The counter of core in orders

The statistics of an account count what it has of the core asset in limit
orders and as collateral.  Six functions adjust the counter.  One of them goes
wrong: when a fill closes a call order, the collateral that is left is
subtracted from the counter whatever asset it is.

Every event is put together from these functions and from steps that touch
neither the orders nor the counters, so a counter falls behind the orders by
just what fills have freed in other assets.
-/

namespace CocosChain.Chain

open Table LimitOrderCreate

/-- What an account has of the core asset in what belongs to the owner. -/
def Asset.coreOf (account owner : AccountId) (asset : Asset) : Int :=
  if owner = account then asset.countIn assetCore else 0

def LimitOrder.coreOf (account : AccountId) (order : LimitOrder) : Int :=
  order.amountForSale.coreOf account order.seller

def CallOrder.coreOf (account : AccountId) (call : CallOrder) : Int :=
  call.getCollateral.coreOf account call.borrower

namespace Market

def coreInOrders (market : Market) (account : AccountId) : Int :=
  market.limitOrders.total (LimitOrder.coreOf account) +
    market.callOrders.total (CallOrder.coreOf account)

/-- What the counter of an account shows beyond its orders. -/
def overcount (market : Market) (account : AccountId) : Int :=
  market.totalCoreInOrders account - market.coreInOrders account

def CountsExactly (market : Market) : Prop :=
  ∀ account, market.totalCoreInOrders account = market.coreInOrders account

/-- What an account got back in another asset than core. -/
def freedOther (account : AccountId) (fill : AccountId × Asset) : Int :=
  if fill.1 = account ∧ fill.2.assetId ≠ assetCore then fill.2.amount else 0

/-- What the counters fall behind the orders has been freed by fills, in other
assets than core. -/
def FallsBehind (market after : Market) : Prop :=
  ∃ fills, after.freed = fills ++ market.freed ∧ (∀ fill ∈ fills, 0 < fill.2.amount) ∧
    ∀ account, after.overcount account =
      market.overcount account - (fills.map (freedOther account)).sum

variable {market : Market} {id : Nat}

theorem coreOf_add {asset : Asset} : Asset.coreOf account owner
      ⟨first + asset.amount, asset.assetId⟩ =
      Asset.coreOf account owner ⟨first, asset.assetId⟩ + asset.coreOf account owner := by
  unfold Asset.coreOf
  split
  · exact countIn_add
  · rfl

theorem coreOf_sub {asset : Asset} : Asset.coreOf account owner
      ⟨first - asset.amount, asset.assetId⟩ =
      Asset.coreOf account owner ⟨first, asset.assetId⟩ - asset.coreOf account owner := by
  unfold Asset.coreOf
  split
  · exact countIn_sub
  · rfl

theorem coreOf_neg (asset : Asset) : Asset.coreOf account owner
      ⟨-asset.amount, asset.assetId⟩ = -asset.coreOf account owner := by
  unfold Asset.coreOf
  split
  · exact countIn_neg
  · rfl

theorem coreOf_nonneg {asset : Asset} (amount : 0 ≤ asset.amount) :
    0 ≤ asset.coreOf account owner := by
  unfold Asset.coreOf
  split
  · exact countIn_nonneg amount
  · exact le_rfl

theorem totalCore_countInOrders : (market.countInOrders owner delta).totalCoreInOrders account =
      market.totalCoreInOrders account + delta.coreOf account owner := by
  unfold countInOrders
  split
  · rename_i core
    by_cases same : owner = account
    · simp [addCoreInOrders, Asset.coreOf, Asset.countIn, core, same]
    · simp [addCoreInOrders, Asset.coreOf, same, Ne.symm same]
  · rename_i other
    simp [Asset.coreOf, Asset.countIn, other]

theorem overcount_place {op : LimitOrderCreate} (done : op.place market = .ok after)
    (account : AccountId) : after.overcount account = market.overcount account := by
  obtain ⟨_, -, rfl⟩ := place_spec done
  have order : op.order.coreOf account = op.amountToSell.coreOf account op.seller := rfl
  simp only [overcount, coreInOrders, totalCore_countInOrders, total_create, order]
  omega

theorem overcount_cancelLimitOrder (done : market.cancelLimitOrder id = .ok after)
    (account : AccountId) : after.overcount account = market.overcount account := by
  obtain ⟨order, _, _, listed, -, -, rfl⟩ := cancelLimitOrder_spec done
  have counted : Asset.coreOf account order.seller ⟨-order.forSale, order.amountForSale.assetId⟩ =
      -order.coreOf account := coreOf_neg order.amountForSale
  simp only [overcount, coreInOrders, totalCore_countInOrders, total_remove listed, counted]
  omega

theorem overcount_fillLimitOrder
    (done : market.fillLimitOrder id pays receives cull = .ok (filled, after))
    (account : AccountId) : after.overcount account = market.overcount account := by
  obtain ⟨order, _, _, _, listed, base, -, -, -, settled⟩ := fillLimitOrder_spec done
  have less : LimitOrder.coreOf account { order with
      forSale := order.forSale - pays.amount } =
      order.coreOf account - pays.coreOf account order.seller := by
    simp only [LimitOrder.coreOf, LimitOrder.amountForSale, base, coreOf_sub]
  obtain ⟨all, -, rfl⟩ | ⟨-, reduced, isReduced, rest⟩ := settleLimitOrder_cases settled
  · have whole : order.coreOf account = pays.coreOf account order.seller := by
      rw [LimitOrder.coreOf, all]
    simp only [overcount, coreInOrders, totalCore_countInOrders, coreOf_neg, total_remove listed,
      whole]
    omega
  · have between : reduced.overcount account = market.overcount account := by
      rw [isReduced]
      simp only [overcount, coreInOrders, totalCore_countInOrders, coreOf_neg, total_modify listed,
        less]
      omega
    rcases rest with ⟨-, -, rfl⟩ | ⟨-, culled⟩
    · exact between
    · obtain ⟨_, _, -, -, ⟨-, -, cancelled⟩ | ⟨-, -, rfl⟩⟩ :=
        maybeCullSmallOrder_cases culled
      · rw [overcount_cancelLimitOrder cancelled, between]
      · exact between

/-- The counter after a call order has been filled: what is left is counted in
any case. -/
theorem totalCore_coreAfterFill :
    market.coreAfterFill call pays receives account =
      market.totalCoreInOrders account - pays.coreOf account call.borrower -
        ((freedByFill call pays receives).map fun fill =>
          fill.2.coreOf account fill.1 + freedOther account fill).sum := by
  unfold coreAfterFill freedByFill
  split
  · simp only [addCoreInOrders, totalCore_countInOrders, coreOf_neg, List.map_cons, List.map_nil,
      List.sum_singleton, freedOther]
    by_cases own : call.borrower = account
    · by_cases core : pays.assetId = assetCore
      · simp [own, core, Asset.coreOf, Asset.countIn]
        omega
      · simp [own, core, Asset.coreOf, Asset.countIn]
        omega
    · simp [own, Ne.symm own, Asset.coreOf]
  · rw [totalCore_countInOrders, coreOf_neg, List.map_nil, List.sum_nil]
    exact (sub_zero _).symm

theorem fillCallOrder_fallsBehind
    (done : market.fillCallOrder id pays receives = .ok (closed, after)) :
    FallsBehind market after := by
  obtain ⟨call, listed, -, base, _, ways⟩ := fillCallOrder_spec done
  refine ⟨freedByFill call pays receives, ?_, ?_, fun account => ?_⟩
  · rcases ways with ⟨-, -, _, -, rfl⟩ | ⟨part, -, rfl⟩
    · rfl
    · simp [freedByFill, part]
  · unfold freedByFill
    split
    · simp_all
    · simp
  have less : Asset.coreOf account call.borrower ⟨call.collateral - pays.amount, pays.assetId⟩ =
      call.coreOf account - pays.coreOf account call.borrower := by
    rw [coreOf_sub, CallOrder.coreOf, CallOrder.getCollateral, base]
  rcases ways with ⟨all, -, _, -, rfl⟩ | ⟨part, -, rfl⟩
  · simp only [overcount, coreInOrders, totalCore_coreAfterFill, total_remove listed, freedByFill,
      all, true_and]
    split
    · simp only [List.map_cons, List.map_nil, List.sum_singleton, less]
      omega
    · have whole : call.collateral - pays.amount = 0 := by omega
      rw [whole] at less
      have nothing : Asset.coreOf account call.borrower ⟨0, pays.assetId⟩ = 0 := by
        simp [Asset.coreOf, countIn_zero]
      simp only [List.map_nil, List.sum_nil]
      omega
  · have left : CallOrder.coreOf account { call with
        debt := call.debt - receives.amount
        collateral := call.collateral - pays.amount } =
        call.coreOf account - pays.coreOf account call.borrower := by
      rw [← less, ← base]
      rfl
    simp only [overcount, coreInOrders, totalCore_coreAfterFill, total_modify listed, left,
      freedByFill, part, false_and, if_false, List.map_nil, List.sum_nil]
    omega

theorem overcount_executeBid (done : market.executeBid id debt fund feed = .ok after)
    (account : AccountId) : after.overcount account = market.overcount account := by
  obtain ⟨bid, callPrice, -, priced, -, rfl⟩ := executeBid_spec done
  have new : CallOrder.coreOf account ⟨bid.bidder,
      bid.invSwanPrice.base.amount + fund, debt, callPrice⟩ =
      Asset.coreOf account bid.bidder ⟨bid.invSwanPrice.base.amount + fund,
        bid.invSwanPrice.base.assetId⟩ := by
    rw [CallOrder.coreOf, CallOrder.getCollateral, (Price.callPrice_assets priced).1]
  simp only [overcount, coreInOrders, totalCore_countInOrders, total_create, new]
  omega

theorem overcount_adjust {op : CallOrderUpdate}
    (secured : ∀ id old, CallOrderUpdate.find market op.fundingAccount
      op.deltaDebt.assetId = some (id, old) → old.callPrice.base.assetId =
      op.deltaCollateral.assetId) (done : op.adjust bitasset market = .ok (placed, after))
    (account : AccountId) : after.overcount account = market.overcount account := by
  obtain ⟨_, balances, -, -, adjusted⟩ := CallOrderUpdate.adjust_spec done
  have total := adjusted_collateral (fun owner asset => asset.coreOf account owner)
    (fun _ _ _ => coreOf_add) adjusted secured
  obtain ⟨_, rfl⟩ := adjusted.frame
  change Table.total _ (CallOrder.coreOf account) =
    market.callOrders.total (CallOrder.coreOf account) + _ at total
  simp only [overcount, coreInOrders, CallOrderUpdate.moved, total, totalCore_countInOrders]
  omega

theorem FallsBehind.trans (first : FallsBehind market middle) (second : FallsBehind middle after) :
    FallsBehind market after := by
  obtain ⟨early, log, positive, counts⟩ := first
  obtain ⟨late, logLast, positiveLast, countsLast⟩ := second
  refine ⟨late ++ early, by rw [logLast, log, List.append_assoc], fun fill made => ?_,
    fun account => ?_⟩
  · exact (List.mem_append.mp made).elim (positiveLast fill) (positive fill)
  · rw [countsLast, counts, List.map_append, List.sum_append]
    omega

theorem fallsBehind_of_same (log : after.freed = market.freed)
    (same : ∀ account, after.overcount account = market.overcount account) :
    FallsBehind market after :=
  ⟨[], log, nofun, fun account => by simp [same account]⟩

theorem fallsBehind_refl : FallsBehind market market :=
  fallsBehind_of_same rfl fun _ => rfl

theorem fillLimitOrder_fallsBehind
    (done : market.fillLimitOrder id pays receives cull = .ok (filled, after)) :
    FallsBehind market after := by
  refine fallsBehind_of_same ?_ (overcount_fillLimitOrder done)
  rw [(fillLimitOrder_frame done).1]

/-- From exact counters, they stay exact if and only if no fill frees
collateral other than core. -/
theorem countsExactly_iff {fills : List (AccountId × Asset)}
    (positive : ∀ fill ∈ fills, 0 < fill.2.amount)
    (counts : ∀ account, market.totalCoreInOrders account =
      market.coreInOrders account - (fills.map (freedOther account)).sum) :
    market.CountsExactly ↔ ∀ fill ∈ fills, fill.2.assetId = assetCore := by
  have freed : ∀ account, ∀ amount ∈ fills.map (freedOther account), 0 ≤ amount := by
    intro account amount listed
    obtain ⟨fill, made, rfl⟩ := List.mem_map.mp listed
    unfold freedOther
    split
    · exact (positive fill made).le
    · exact le_rfl
  constructor
  · intro exactly fill made
    by_contra other
    have least := List.single_le_sum (freed fill.1) _ (List.mem_map_of_mem made)
    rw [freedOther, if_pos ⟨rfl, other⟩] at least
    have behind := counts fill.1
    rw [exactly fill.1] at behind
    have more := positive fill made
    omega
  · intro core account
    have none : fills.map (freedOther account) = fills.map fun _ => 0 :=
      List.map_congr_left fun fill made => if_neg fun freed => freed.2 (core fill made)
    rw [counts account, none]
    simp

/-- The event keeps the market well-formed, and the counters fall behind by what
it frees. -/
def Traced (market after : Market) : Prop :=
  WellFormed market → WellFormed after ∧ FallsBehind market after

theorem Traced.trans (first : Traced market middle)
    (second : Traced middle after) : Traced market after := by
  intro sound
  obtain ⟨between, earlier⟩ := first sound
  obtain ⟨ending, later⟩ := second between
  exact ⟨ending, earlier.trans later⟩

/-- The counters, what they count and what has been freed. -/
def counting (market : Market) :=
  (market.freed, market.totalCoreInOrders, market.limitOrders, market.callOrders)

theorem fallsBehind_elsewhere (same : after.counting = market.counting) :
    FallsBehind market after := by
  simp only [counting, Prod.mk.injEq] at same
  obtain ⟨log, counters, limits, calls⟩ := same
  refine fallsBehind_of_same log fun account => ?_
  simp only [overcount, coreInOrders, counters, limits, calls]

theorem traced_elsewhere (form : KeepsForm market after)
    (same : after.counting = market.counting) : Traced market after :=
  fun sound => ⟨form sound, fallsBehind_elsewhere same⟩

theorem MovesBids.counting (moved : MovesBids fee assetId market after) :
    after.counting = market.counting := by
  simp only [Market.counting, moved.freed, moved.counters, moved.limitOrders, moved.callOrders]

theorem fillCallOrder_traced (done : market.fillCallOrder id pays receives = .ok (closed, after)) :
    Traced market after :=
  fun sound => ⟨fillCallOrder_wellFormed sound done, fillCallOrder_fallsBehind done⟩

theorem globallySettleAsset_traced (done : market.globallySettleAsset mia price = .ok after) :
    Traced market after := by
  intro sound
  have form := globallySettleAsset_wellFormed sound done
  obtain ⟨_, _, middle, -, -, -, closed, rfl⟩ := globallySettleAsset_spec done
  have closes : Traced market middle :=
    closeCallOrders_closed Traced (fun _ sound => ⟨sound, fallsBehind_refl⟩)
      Traced.trans fillCallOrder_traced closed
  exact closes.trans (traced_elsewhere (fun _ => form) rfl) sound

theorem marginClosed_traced : MarginClosed Traced where
  refl _ sound := ⟨sound, fallsBehind_refl⟩
  trans := Traced.trans
  marginCall _ listed done sound := by
    refine ⟨marginCall_wellFormed sound listed done, ?_⟩
    obtain ⟨_, _, _, _, _, first, second, -, -⟩ := marginCall_cases done
    exact (fillCallOrder_fallsBehind first).trans (fillLimitOrder_fallsBehind second)
  globallySettleAsset := globallySettleAsset_traced

theorem tradeClosed_traced : TradeClosed Traced where
  __ := marginClosed_traced
  cancelLimitOrder done sound := by
    refine ⟨tradeClosed_keepsForm.cancelLimitOrder done sound,
      fallsBehind_of_same ?_ (overcount_cancelLimitOrder done)⟩
    rw [(cancelLimitOrder_frame done).1]
  matchLimitOrders done sound := by
    refine ⟨matchLimitOrders_wellFormed sound done, ?_⟩
    obtain ⟨_, _, _, _, _, -, -, -, -, -, -, -, first, second⟩ := matchLimitOrders_spec done
    exact (fillLimitOrder_fallsBehind first).trans (fillLimitOrder_fallsBehind second)
  checkCallOrders := marginClosed_traced.checkCallOrders

theorem cancelBidsAndRevive_fallsBehind (done : market.cancelBidsAndRevive mia = .ok after) :
    FallsBehind market after := by
  obtain ⟨_, _, cancelled, rfl⟩ := cancelBidsAndRevive_spec done
  have moved := cancelBids_net (fun _ => 0) mia cancelled
  exact fallsBehind_elsewhere moved.counting

theorem bidsExecuted_fallsBehind
    (executed : BidsExecuted mia backing feed debt fund market after) :
    FallsBehind market after := by
  induction executed with
  | none => exact fallsBehind_refl
  | next _ _ _ _ step _ induction =>
    refine (fallsBehind_of_same ?_ (overcount_executeBid step)).trans induction
    obtain ⟨_, _, -, -, -, rfl⟩ := executeBid_spec step
    rfl

theorem reviveBitasset_traced (done : market.reviveBitasset mia = .ok after) :
    Traced market after := by
  intro sound
  refine ⟨reviveBitasset_wellFormed sound done, ?_⟩
  obtain ⟨bitasset, _, _, _, -, -, ways, revived⟩ := reviveBitasset_cases done
  have last := cancelBidsAndRevive_fallsBehind revived
  rcases ways with ⟨-, -, -, rfl⟩ | ⟨-, ⟨issuer, rfl⟩, executed⟩
  · exact last
  · have placed : FallsBehind market { market with
        bids := market.bids.create ⟨issuer, ⟨⟨0, bitasset.backing⟩,
          ⟨market.currentSupply mia, mia⟩⟩⟩ } :=
      fallsBehind_elsewhere rfl
    exact (placed.trans (bidsExecuted_fallsBehind executed)).trans last

theorem processBids_traced
    (held : market.bitassets.get mia = some { bitasset with forceSettledVolume
      := 0 }) (done : market.processBids mia bitasset settlement = .ok after) :
    Traced market after := by
  intro sound
  refine ⟨processBids_wellFormed sound held done, ?_⟩
  rcases processBids_cases sound.bids done with rfl | ⟨middle, executed, revived⟩
  · exact fallsBehind_refl
  · exact (bidsExecuted_fallsBehind executed).trans (cancelBidsAndRevive_fallsBehind revived)

theorem deferFee_fallsBehind : FallsBehind market (deferFee market id filled fee) := by
  unfold deferFee
  split
  · split
    · refine fallsBehind_of_same rfl fun account => ?_
      simp only [overcount, coreInOrders]
      rw [total_modify_of_same]
      intro order _
      rfl
    · exact fallsBehind_refl
  · exact fallsBehind_refl

theorem eventClosed_traced : EventClosed Traced where
  toTradeClosed := tradeClosed_traced
  payFee paid := by
    have form := eventClosed_keepsForm.payFee paid
    have same := payFee_frame paid
    rw [SameButFees] at same
    apply traced_elsewhere form
    rw [same]
    rfl
  placeOrder valid evaluated done sound := by
    refine ⟨eventClosed_keepsForm.placeOrder valid evaluated done sound,
      fallsBehind_of_same ?_ (overcount_place done)⟩
    obtain ⟨_, -, rfl⟩ := place_spec done
    rw [countInOrders_eq]
  adjustCallOrder valid held evaluated done sound := by
    refine ⟨eventClosed_keepsForm.adjustCallOrder valid held evaluated done sound,
      fallsBehind_of_same ?_ (overcount_adjust
        (fun _ _ known => find_secured sound held evaluated known) done)⟩
    obtain ⟨_, _, -, -, adjusted⟩ := CallOrderUpdate.adjust_spec done
    obtain ⟨_, rfl⟩ := adjusted.frame
    rfl
  cancelBid done := by
    have moved : MovesBids (fun _ => 0) 0 _ _ := cancelBid_net done
    exact traced_elsewhere (eventClosed_keepsForm.cancelBid done) moved.counting
  placeBid valid held asset done := by
    have form := eventClosed_keepsForm.placeBid valid held asset done
    obtain ⟨balances, -, -, rfl⟩ := BidCollateral.placeBid_spec done
    exact traced_elsewhere form rfl
  settle nonneg held done := by
    have form := eventClosed_keepsForm.settle nonneg held done
    obtain ⟨balances, -, ⟨-, _, rfl⟩ | ⟨_, _, _, -, -, -, rfl⟩⟩ := AssetSettle.apply_cases done
    · exact traced_elsewhere form rfl
    · exact traced_elsewhere form rfl
  cancelSettlement done := by
    have form := eventClosed_keepsForm.cancelSettlement done
    obtain ⟨settle, balances, -, -, rfl⟩ := cancelSettlement_spec done
    exact traced_elsewhere form rfl
  matchSettlement some done sound := by
    have form := eventClosed_keepsForm.matchSettlement some done sound
    obtain ⟨_, settle, _, _, _, filled, -, -, -, -, -, -, -,
      first, second⟩ := matchSettlement_spec done
    obtain ⟨_, _, _, _, -, -, -, -, rfl⟩ := fillSettlement_spec second
    exact (fillCallOrder_traced first).trans
      (traced_elsewhere (fun _ => form) rfl) sound
  setVolume market mia volume :=
    traced_elsewhere (eventClosed_keepsForm.setVolume market mia volume) rfl
  reviveBitasset := reviveBitasset_traced
  processBids held _ done := processBids_traced held done
  deferFee market id filled fee sound :=
    ⟨eventClosed_keepsForm.deferFee market id filled fee sound, deferFee_fallsBehind⟩

theorem feedClosed_traced : FeedClosed Traced where
  toEventClosed := eventClosed_traced
  publishFeed valid held evaluated :=
    traced_elsewhere (feedClosed_keepsForm.publishFeed valid held evaluated) rfl
  updateProducers market op :=
    traced_elsewhere (feedClosed_keepsForm.updateProducers market op) rfl
  expire market mia := traced_elsewhere (feedClosed_keepsForm.expire market mia) rfl
  advance market time := traced_elsewhere (feedClosed_keepsForm.advance market time) rfl

theorem coreInOrders_nonneg (sound : WellFormed market) (amounts : Nonnegative market)
    (account : AccountId) : 0 ≤ market.coreInOrders account := by
  apply add_nonneg
  · apply total_nonneg
    intro id order listed
    exact coreOf_nonneg (sound.orders id order listed).forSale.le
  · apply total_nonneg
    intro id call listed
    exact coreOf_nonneg (amounts.collateral id call listed)

/-- Along every run a counter falls behind the orders of the account by what
fills have freed of its collateral in other assets than core.  So the counters
stay exact, and none of them is negative, as long as no fill frees other
collateral than core, and not longer. -/
theorem core_in_orders_exact {start market : Market} {events : List (MarketTerms × MarketEvent)}
    (sound : WellFormed start) (amounts : Nonnegative start) (exactly : start.CountsExactly)
    (history : start.run events = .ok market) :
    ∃ fills, market.freed = fills ++ start.freed ∧
      (∀ account, market.totalCoreInOrders account =
        market.coreInOrders account - (fills.map (freedOther account)).sum) ∧
      (market.CountsExactly ↔ ∀ fill ∈ fills, fill.2.assetId = assetCore) ∧
      ((∀ fill ∈ fills, fill.2.assetId = assetCore) →
        ∀ account, 0 ≤ market.totalCoreInOrders account) := by
  obtain ⟨-, fills, log, positive, behind⟩ := feedClosed_traced.run history sound
  have counts : ∀ account, market.totalCoreInOrders account =
      market.coreInOrders account - (fills.map (freedOther account)).sum := by
    intro account
    have start := exactly account
    have end_ := behind account
    rw [overcount, overcount] at end_
    omega
  have stays := countsExactly_iff positive counts
  refine ⟨fills, log, counts, stays, fun core account => ?_⟩
  rw [stays.mpr core account]
  have kept := feedClosed_keepsAmounts.run history ⟨sound, amounts⟩
  exact coreInOrders_nonneg kept.1 kept.2 account

theorem countsExactly_created
    (performed : (newBitasset backing).perform MarketTerms.free start = .ok created)
    (limits : start.limitOrders = .empty) (calls : start.callOrders = .empty)
    (counters : start.totalCoreInOrders = fun _ => 0) : created.CountsExactly := by
  simp only [AssetCreate.perform, AssetCreate.apply, bind_eq_ok,
    ensure_eq_ok, pure_eq_ok, Prod.exists] at performed
  obtain ⟨-, -, -, -, _, ⟨-, -, rfl⟩, _, _, payment, rfl⟩ := performed
  rw [payFee_frame payment]
  intro account
  simp [coreInOrders, limits, calls, counters]

/-- An offer takes a whole debt that is secured by the core asset. -/
theorem core_in_orders_exact_taken : ∃ created market,
      (newBitasset assetCore).perform MarketTerms.free fundedGenesis = .ok created ∧
      created.run (offers [sell 11 100 120, publish 4 5 1750]) = .ok market ∧
      market.freed = [(11, ⟨80, assetCore⟩)] ∧ market.CountsExactly := by
  have reached : ∃ created market, Created created ∧ created.freed = [] ∧
      created.run (offers [sell 11 100 120, publish 4 5 1750]) = .ok market ∧
      market.freed = [(11, ⟨80, assetCore⟩)] :=
    ⟨_, _, rfl, rfl, rfl, by decide +kernel⟩
  obtain ⟨created, market, performed, empty, history, log⟩ := reached
  obtain ⟨fills, made, -, stays, -⟩ :=
    core_in_orders_exact (wellFormed_created performed) (solvent_created performed).nonnegative
      (countsExactly_created performed rfl rfl rfl) history
  refine ⟨created, market, performed, history, log, stays.mpr ?_⟩
  rw [log, empty, List.append_nil] at made
  subst made
  simp

/-- Accounts `11` and `12` with a balance of GAS. -/
def gasGenesis : Market :=
  { genesis with
    balances := ⟨[((11, assetGas), 1000000), ((12, assetGas), 1000000)], fun _ _ => 0⟩ }

/-- Asset `2` is backed by GAS.  Accounts `11` and `12` borrow, account `11`
offers what it got, and the price falls. -/
def gasOffer : List (MarketTerms × MarketEvent) :=
  let publish (debt collateral : Int) : MarketTerms × MarketEvent :=
    (MarketTerms.free, .assetPublishFeed ⟨9, 2, ⟨⟨⟨debt, 2⟩, ⟨collateral, assetGas⟩⟩, 1750, 1500⟩⟩)
  let borrow (account : AccountId) (collateral debt : Int) : MarketTerms × MarketEvent :=
    (MarketTerms.free, .callOrderUpdate ⟨account, ⟨collateral, assetGas⟩, ⟨debt, 2⟩⟩)
  [(MarketTerms.free, .assetUpdateFeedProducers ⟨7, 2, [9]⟩),
    publish 1 1, borrow 11 900 100, borrow 12 205 100,
    (MarketTerms.free, .limitOrderCreate ⟨11, ⟨100, 2⟩, ⟨120, assetGas⟩, 1000, false⟩),
    publish 4 5]

/-- Account `12` gets back what is left of its collateral in GAS, and its
counter of core becomes negative. -/
theorem counter_becomes_negative : ∃ created market,
      (newBitasset assetGas).perform MarketTerms.free gasGenesis = .ok created ∧
      created.CountsExactly ∧
      created.run gasOffer = .ok market ∧
      market.totalCoreInOrders 12 = -85 ∧ market.coreInOrders 12 = 0 := by
  have reached : ∃ created market,
      (newBitasset assetGas).perform MarketTerms.free gasGenesis = .ok created ∧
      created.run gasOffer = .ok market ∧
      market.totalCoreInOrders 12 = -85 ∧ market.coreInOrders 12 = 0 :=
    ⟨_, _, rfl, rfl, by decide +kernel, by decide +kernel⟩
  obtain ⟨created, market, performed, history, counter, orders⟩ := reached
  exact ⟨created, market, performed,
    countsExactly_created performed rfl rfl rfl, history, counter, orders⟩

end Market

end CocosChain.Chain

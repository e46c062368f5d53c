import CocosChain.Chain.BlackSwan

/-!
# Something for nothing

A trade is at the price of the old order, and what it yields is rounded down.
A party whose amount is worth less than one unit at that price pays and gets
nothing: the remainder of a new order is compared with its own price only
after the loop has matched it.  The same happens to a force settlement when
little is left of it, of the volume or of a debt.
-/

namespace CocosChain.Chain

namespace Market

variable {id : Nat}

/-- Each of two parties that pays gets something; one pays what the other one
receives. -/
def BothReceive (first second : Int) : Prop :=
  (0 < first → 0 < second) ∧ (0 < second → 0 < first)

/-- The loop matches the new order with an old one: the two orders, as they
are then. -/
inductive MatchedIn (id : Nat) :
    List Nat → Market → LimitOrder → LimitOrder → Prop where
  | here {old : Nat} {rest : List Nat} {market : Market}
      {usd core : LimitOrder} {result : (Bool × Bool) × Market} :
      market.limitOrders.get id = some usd →
      market.limitOrders.get old = some core →
      market.matchLimitOrders id old core.sellPrice = .ok result →
        MatchedIn id (old :: rest) market usd core
  | later {old : Nat} {rest : List Nat} {market middle : Market}
      {first usd core : LimitOrder} :
      market.limitOrders.get old = some first →
      market.matchLimitOrders id old first.sellPrice =
        .ok ((false, true), middle) →
      MatchedIn id rest middle usd core →
        MatchedIn id (old :: rest) market usd core

/-- A match inside `apply_order`, after the margin calls it begins with. -/
def MatchedByNewOrder (market : Market) (id : Nat) (usd core : LimitOrder) : Prop :=
  ∃ order receive called other checked ready, market.limitOrders.get id = some order ∧
    order.amountToReceive = some receive ∧
    market.checkCallOrders order.amountForSale.assetId true = .ok (called, checked) ∧
    checked.checkCallOrders receive.assetId true = .ok (other, ready) ∧
    MatchedIn id ((ready.limitRange
      (Price.max order.sellPrice.quote.assetId order.sellPrice.base.assetId)
      order.sellPrice.invert).map Prod.fst) ready usd core

theorem MatchedIn.spec (matched : MatchedIn id olds market usd core) (sound : WellFormed market) :
    usd.WellFormed ∧ core.WellFormed ∧ ∃ amounts, tradeAmounts usd.amountForSale core.amountForSale
        core.sellPrice = some amounts := by
  induction matched with
  | here taker maker done =>
    simp only [matchLimitOrders, bind_eq_ok, found_eq_ok, taker, maker, Option.some.injEq] at done
    obtain ⟨_, rfl, _, rfl, amounts, traded, -⟩ := done
    exact ⟨sound.orders _ _ taker, sound.orders _ _ maker, amounts, traded⟩
  | later _ done _ induction =>
    exact induction (matchLimitOrders_wellFormed sound done)

theorem pos_ediv_iff {unit : Int} (positive : 0 < unit) :
    0 < amount / unit ↔ unit ≤ amount := by
  have step : 1 ≤ amount / unit ↔ 1 * unit ≤ amount := Int.le_ediv_iff_mul_le positive
  omega

/-- Both parties of a trade get something exactly if both amounts are worth a
unit at the price of the old order. -/
theorem tradeAmounts_bothReceive_iff {usd core : LimitOrder}
    (new : usd.WellFormed) (old : core.WellFormed)
    (traded : tradeAmounts usd.amountForSale core.amountForSale core.sellPrice =
      some (taker, maker)) :
    BothReceive taker.amount maker.amount ↔ core.sellPrice.quote.amount ≤
          usd.forSale * core.sellPrice.base.amount ∧
        core.sellPrice.base.amount ≤ core.forSale * core.sellPrice.quote.amount := by
  have sold := new.forSale
  have offered := old.forSale
  obtain ⟨base, quote⟩ := old.positive
  simp only [tradeAmounts, Option.bind_eq_bind, Option.bind_eq_some_iff] at traded
  obtain ⟨_, worth, traded⟩ := traded
  simp only [LimitOrder.amountForSale, Asset.times, if_true] at worth
  obtain ⟨-, -, -, rfl⟩ := scale_eq_some.mp worth
  split at traded
  · cases traded
  · rename_i same
    simp only [LimitOrder.amountForSale, ne_eq, not_not] at same
    split at traded
    · rename_i small
      simp only [Option.bind_eq_some_iff, LimitOrder.amountForSale,
        Asset.times, same, old.distinct.symm, if_true, if_false] at traded
      obtain ⟨_, back, traded⟩ := traded
      cases traded
      obtain ⟨-, -, -, rfl⟩ := scale_eq_some.mp back
      have big : core.sellPrice.base.amount ≤ core.forSale * core.sellPrice.quote.amount :=
        (pos_ediv_iff base).mp (sold.trans_le small)
      have unit := @pos_ediv_iff (usd.forSale * core.sellPrice.base.amount) _ quote
      simp only [BothReceive, unit]
      exact ⟨fun both => ⟨both.2 sold, big⟩, fun units => ⟨fun _ => sold, fun _ => units.1⟩⟩
    · rename_i large
      cases traded
      have much : core.forSale * core.sellPrice.quote.amount <
          usd.forSale * core.sellPrice.base.amount := by
        have bound := Int.not_le.mp large
        exact (Int.ediv_lt_iff_lt_mul base).mp bound
      have one : core.sellPrice.quote.amount ≤ core.forSale * core.sellPrice.quote.amount := by
        have times := Int.mul_le_mul_of_nonneg_right (Int.add_one_le_of_lt offered) quote.le
        omega
      have unit := @pos_ediv_iff (core.forSale * core.sellPrice.quote.amount) _ base
      simp only [BothReceive, LimitOrder.amountForSale, unit]
      exact ⟨fun both => ⟨by omega, both.1 offered⟩,
        fun units => ⟨fun _ => units.2, fun _ => offered⟩⟩

/-- The loop for a force settlement matches it with a call order: the two, as
they are then, and the volume that is left. -/
inductive SettlesIn (mia backing id : Nat) (price : Price) (maxVolume : Int) :
    Int → Market → CallOrder → ForceSettlement → Int → Prop where
  | here {settled : Int} {market : Market} {callId : Nat} {call : CallOrder}
      {settle : ForceSettlement} {result : Int × Market} :
      market.settlements.get id = some settle → settled < maxVolume →
      market.leastCollateralized backing mia = some (callId, call) →
      call.debtType = mia →
      market.matchSettlement callId id price (maxVolume - settled) =
        .ok result →
        SettlesIn mia backing id price maxVolume settled market call settle
          (maxVolume - settled)
  | later {settled amount most : Int} {market middle : Market} {callId : Nat}
      {first call : CallOrder} {settle : ForceSettlement} :
      settled < maxVolume →
      market.leastCollateralized backing mia = some (callId, first) →
      market.matchSettlement callId id price (maxVolume - settled) =
        .ok (amount, middle) →
      SettlesIn mia backing id price maxVolume (settled + amount) middle call
        settle most →
        SettlesIn mia backing id price maxVolume settled market call settle
          most

/-- What the call order receives in a match. -/
def settledIn (call : CallOrder) (settle : ForceSettlement) (most : Int) : Asset :=
  ⟨min (min settle.balance.amount most) call.debt, settle.balance.assetId⟩

theorem SettlesIn.spec
    (settles : SettlesIn mia backing id price maxVolume settled market call settle most) :
    settle.balance.assetId = mia ∧ 0 < (settledIn call settle most).amount ∧
      ∃ pays, (settledIn call settle most).times price = some pays := by
  induction settles with
  | here listed within least kind done =>
    have there := Table.mem_rows.mp (List.mem_filter.mp
      (List.mem_insertionSort _ |>.mp (List.mem_of_mem_head? least))).1
    obtain ⟨_, _, pays, -, -, -, called, waiting, same,
      ⟨owed, amount⟩, size, worth, -⟩ := matchSettlement_spec done
    rw [size] at worth
    cases there.symm.trans called
    cases listed.symm.trans waiting
    exact ⟨same.symm.trans kind, lt_min (lt_min amount (Int.sub_pos.mpr within)) owed, pays, worth⟩
  | later _ _ _ _ induction => exact induction

theorem forceSettlementPrice_spec
    (offset : bitasset.options.forceSettlementOffsetPercent < hundredPercent)
    (priced : forceSettlementPrice bitasset balance = some price) :
    price.base = balance ∧ 0 ≤ price.quote.amount := by
  simp only [forceSettlementPrice, Option.bind_eq_bind,
    Option.bind_eq_some_iff, Price.ofAssets] at priced
  obtain ⟨_, worth, formed⟩ := priced
  split at formed
  · cases formed
  · cases formed
    refine ⟨rfl, Int.ediv_nonneg (Int.mul_nonneg ?_ ?_) (by decide)⟩
    · unfold Asset.times at worth
      split at worth
      · obtain ⟨positive, nonneg, -, rfl⟩ := scale_eq_some.mp worth
        exact Int.ediv_nonneg nonneg positive.le
      · split at worth
        · obtain ⟨positive, nonneg, -, rfl⟩ := scale_eq_some.mp worth
          exact Int.ediv_nonneg nonneg positive.le
        · cases worth
    · omega

/-- Both parties of a settlement get something exactly if the balance, the
volume that is left and the debt are each worth a unit. -/
theorem settledIn_bothReceive_iff (asset : price.base.assetId = settle.balance.assetId)
    (quote : 0 ≤ price.quote.amount) (amount : 0 < (settledIn call settle most).amount)
    (worth : (settledIn call settle most).times price = some pays) :
    BothReceive (settledIn call settle most).amount pays.amount ↔
      price.base.amount ≤ settle.balance.amount * price.quote.amount ∧
        price.base.amount ≤ most * price.quote.amount ∧
        price.base.amount ≤ call.debt * price.quote.amount := by
  have target : (settledIn call settle most).assetId = price.base.assetId := asset.symm
  simp only [Asset.times, target, if_true] at worth
  obtain ⟨positive, -, -, rfl⟩ := scale_eq_some.mp worth
  have units : price.base.amount ≤ (settledIn call settle most).amount * price.quote.amount ↔
      price.base.amount ≤ settle.balance.amount * price.quote.amount ∧
        price.base.amount ≤ most * price.quote.amount ∧
        price.base.amount ≤ call.debt * price.quote.amount := by
    simp only [settledIn, min_mul_of_nonneg _ _ quote, le_min_iff, and_assoc]
  have unit := @pos_ediv_iff ((settledIn call settle most).amount * price.quote.amount) _ positive
  rw [BothReceive, unit, units]
  exact ⟨fun both => both.1 amount, fun all => ⟨fun _ => all, fun _ => amount⟩⟩

/-- In a well-formed market, both parties of a match inside `apply_order` get
something if and only if both orders are worth a unit at the price of the old
one; and both parties of a match for a force settlement if and only if what
is left of its balance, of the volume and of the debt are. -/
theorem something_for_something_iff (sound : WellFormed market) :
    (∀ id usd core, MatchedByNewOrder market id usd core →
      ∃ taker maker, tradeAmounts usd.amountForSale core.amountForSale
          core.sellPrice = some (taker, maker) ∧
        (BothReceive taker.amount maker.amount ↔ core.sellPrice.quote.amount ≤
              usd.forSale * core.sellPrice.base.amount ∧
            core.sellPrice.base.amount ≤ core.forSale * core.sellPrice.quote.amount)) ∧
    ∀ id order bitasset price maxVolume call settle most,
      bitasset.options.forceSettlementOffsetPercent < hundredPercent →
      market.settlements.get id = some order →
      forceSettlementPrice bitasset order.balance = some price →
      SettlesIn order.balance.assetId bitasset.backing id price maxVolume
        bitasset.forceSettledVolume market call settle most →
      ∃ pays, (settledIn call settle most).times price = some pays ∧
        (BothReceive (settledIn call settle most).amount pays.amount ↔
          price.base.amount ≤ settle.balance.amount * price.quote.amount ∧
            price.base.amount ≤ most * price.quote.amount ∧
            price.base.amount ≤ call.debt * price.quote.amount) := by
  constructor
  · rintro id _ _ ⟨order, _, _, _, _, ready, -, -, first, second, matched⟩
    have well : WellFormed ready :=
      eventClosed_keepsForm.checkCallOrders second
        (eventClosed_keepsForm.checkCallOrders first sound)
    obtain ⟨new, old, ⟨taker, maker⟩, traded⟩ := matched.spec well
    exact ⟨taker, maker, traded, tradeAmounts_bothReceive_iff new old traded⟩
  · intro id order bitasset price maxVolume call settle most offset _ priced settles
    obtain ⟨kind, some, pays, worth⟩ := settles.spec
    obtain ⟨base, quote⟩ := forceSettlementPrice_spec offset priced
    refine ⟨pays, worth, settledIn_bothReceive_iff ?_ quote some worth⟩
    rw [base, kind]

/-- Account `11` offers one core for two units twice. -/
def twoOffers : List (MarketTerms × MarketEvent) :=
  let offer : MarketTerms × MarketEvent := (MarketTerms.free,
    .limitOrderCreate ⟨11, ⟨1, assetCore⟩, ⟨2, 2⟩, 100, false⟩)
  singlePosition ++ [offer, offer]

/-- Account `12` buys for three units. -/
def buyWithThree : LimitOrderCreate := ⟨12, ⟨3, 2⟩, ⟨1, assetCore⟩, 100, false⟩

theorem something_for_something_first : ∃ created market placed usd core taker maker,
      (newBitasset assetCore).perform MarketTerms.free fundedGenesis = .ok created ∧
      created.run twoOffers = .ok market ∧
      buyWithThree.place market = .ok placed ∧
      MatchedByNewOrder placed 2 usd core ∧
      tradeAmounts usd.amountForSale core.amountForSale core.sellPrice = some (taker, maker) ∧
      BothReceive taker.amount maker.amount := by
  have reached : ∃ created market placed usd core,
      Created created ∧ created.run twoOffers = .ok market ∧
      buyWithThree.evaluate MarketTerms.free market = true ∧
      buyWithThree.place market = .ok placed ∧ MatchedByNewOrder placed 2 usd core ∧
      core.sellPrice.quote.amount ≤ usd.forSale * core.sellPrice.base.amount ∧
      core.sellPrice.base.amount ≤ core.forSale * core.sellPrice.quote.amount :=
    ⟨_, _, _, _, _, rfl, rfl, by decide +kernel, rfl,
      ⟨_, _, _, _, _, _, rfl, rfl, rfl, rfl, .here rfl rfl rfl⟩,
      by decide +kernel, by decide +kernel⟩
  obtain ⟨created, market, placed, usd, core, performed, history,
    evaluated, placing, matched, worth, back⟩ := reached
  have sound : WellFormed placed :=
    eventClosed_keepsForm.placeOrder (by decide) evaluated placing
      (feedClosed_keepsForm.run history (wellFormed_created performed))
  obtain ⟨taker, maker, traded, both⟩ := (something_for_something_iff sound).1 2 usd core matched
  exact ⟨created, market, placed, usd, core, taker, maker, performed, history,
    placing, matched, traded, both.mpr ⟨worth, back⟩⟩

/-- The second offer takes the unit that is left, and nothing is given for
it. -/
theorem something_for_nothing : ∃ created market placed usd core taker maker,
      (newBitasset assetCore).perform MarketTerms.free fundedGenesis = .ok created ∧
      created.run twoOffers = .ok market ∧
      buyWithThree.place market = .ok placed ∧
      MatchedByNewOrder placed 2 usd core ∧
      tradeAmounts usd.amountForSale core.amountForSale core.sellPrice = some (taker, maker) ∧
      maker.amount = 1 ∧ taker.amount = 0 :=
  ⟨_, _, _, _, _, _, _, rfl, rfl, rfl,
    ⟨_, _, _, _, _, _, rfl, rfl, rfl, rfl, .later rfl rfl (.here rfl rfl rfl)⟩, rfl, rfl, rfl⟩

end Market

end CocosChain.Chain

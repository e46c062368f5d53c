import CocosChain.Chain.BlackSwan

/-!
# Margin calls are exhausted

A check of the call orders goes on until the limit orders run out, or the
first call order is protected by the feed, or the best limit order asks for
too much.  The flag that a limit order has been used up is never reset, so a
limit order that is only partly filled later on is left behind.  As long as
that does not happen, no match is left over.
-/

namespace CocosChain.Chain

namespace Market

/-- There is no match left: no limit order above the maximum short squeeze
price, or no call order that the feed lets be called, or a best limit order
above what the first call order may pay. -/
def MarginCallsExhausted (market : Market) (mia : Nat) (bitasset : BitassetData) : Prop :=
  ∃ minPrice, bitasset.currentFeed.maxShortSqueezePrice = some minPrice ∧
    (market.limitRange (Price.max mia bitasset.backing) minPrice = [] ∨
      (∀ id call, market.callOrders.get id = some call → call.debtType = mia →
          bitasset.currentFeed.settlementPrice.gt call.callPrice.invert = true) ∨
      ∃ limit call, (market.limitRange (Price.max mia bitasset.backing) minPrice).head? =
          some limit ∧
        (market.callRange bitasset.backing mia).head? = some call ∧
        limit.2.sellPrice.gt call.2.callPrice.invert = true)

/-- The asset has not been settled globally. -/
def Unsettled (market : Market) (mia : Nat) : Prop :=
  ∀ bitasset, market.bitassets.get mia = some bitasset → bitasset.settlement = none

/-- The rounds of the loop: once a limit order has been used up, every limit
order that is matched is used up as well. -/
def NoneLeftBehind (mia : Nat) (enable : Bool) (bitasset : BitassetData) :
    Nat → List Nat → Bool → Market → Prop
  | 0, _, _, _ => True
  | fuel + 1, limits, filled, market =>
      ∀ callId limitId call order rest cost,
        market.checkForBlackswan mia enable = .ok (false, market) →
        MarginPair mia bitasset limits market callId limitId call order rest cost →
        cost.amount ≤ call.collateral → (filled = true → order.forSale ≤ call.debt) ∧
            ∀ usedUp middle, market.marginCall callId limitId call order = .ok (usedUp, middle) →
              NoneLeftBehind mia enable bitasset fuel
                (if filled || usedUp then rest else limits)
                (filled || usedUp) middle

/-- No limit order is left behind by the check. -/
def LeavesNoneBehind (market : Market) (mia : Nat) (enable : Bool)
    (bitasset : BitassetData) : Prop :=
  ∀ minPrice, bitasset.currentFeed.maxShortSqueezePrice = some minPrice →
    NoneLeftBehind mia enable bitasset market.marginFuel
      ((market.limitRange (Price.max mia bitasset.backing) minPrice).map Prod.fst) false market

/-- The list of the loop goes with the book: it has all limit orders above the
price, and those of it that are still there are above the price. -/
structure Listed (market : Market) (upper lower : Price) (limits : List Nat) : Prop where
  complete : ∀ row ∈ market.limitRange upper lower, row.1 ∈ limits
  sound : ∀ id ∈ limits, ∀ order, market.limitOrders.get id = some order →
    (id, order) ∈ market.limitRange upper lower

variable {market : Market} {bitasset : BitassetData}

theorem globallySettleAsset_settles (done : market.globallySettleAsset mia price = .ok after) :
    ¬ after.Unsettled mia := by
  intro unsettled
  obtain ⟨bitasset, gathered, middle, held, -, -, closed, rfl⟩ := globallySettleAsset_spec done
  have still : middle.bitassets.get mia = some bitasset := by
    rw [(closeCallOrders_same closed).bitassets]
    exact held
  have written := unsettled { bitasset with
      settlement := some ⟨market.currentSupply mia, gathered, gathered⟩ }
    (by simp [Table.get_modify, still])
  cases written

theorem checkForBlackswan_settles (done : market.checkForBlackswan mia enable = .ok (true, after)) :
    ¬ after.Unsettled mia := by
  rcases checkForBlackswan_cases done with ⟨swan, -⟩ | ⟨-, rfl, bitasset,
    held, settled⟩ | ⟨-, -, bitasset, _, -, -, -, -, settled⟩
  · cases swan
  · intro unsettled
    simp [BitassetData.hasSettlement, unsettled bitasset held] at settled
  · exact globallySettleAsset_settles settled

theorem Listed.of_fill (listed : Listed market upper lower limits)
    (others : ∀ id, id ≠ matched → after.limitOrders.get id = market.limitOrders.get id)
    (same : ∀ order, after.limitOrders.get matched = some order → ∃ old,
      market.limitOrders.get matched = some old ∧ old.sellPrice =
      order.sellPrice) (fewer_sound : ∀ id ∈ fewer, id ∈ limits)
    (fewer_complete : ∀ id ∈ limits, id ≠ matched ∨ (after.limitOrders.get
      matched).isSome = true → id ∈ fewer) : Listed after upper lower fewer := by
  have before : ∀ id order, after.limitOrders.get id = some order →
      ∃ old, market.limitOrders.get id = some old ∧ old.sellPrice = order.sellPrice := by
    intro id order held
    by_cases here : id = matched
    · subst here
      exact same order held
    · rw [others id here] at held
      exact ⟨order, held, rfl⟩
  constructor
  · intro row member
    obtain ⟨held, below, above⟩ := mem_limitRange.mp member
    obtain ⟨old, oldHeld, price⟩ := before row.1 row.2 held
    have oldMember : (row.1, old) ∈ market.limitRange upper lower := by
      apply mem_limitRange.mpr
      rw [price]
      exact ⟨oldHeld, below, above⟩
    have there : row.1 ∈ limits := listed.complete (row.1, old) oldMember
    apply fewer_complete row.1 there
    by_cases here : row.1 = matched
    · right
      rw [← here, held]
      rfl
    · exact .inl here
  · intro id member order held
    obtain ⟨old, oldHeld, price⟩ := before id order held
    obtain ⟨-, below, above⟩ := mem_limitRange.mp
      (listed.sound id (fewer_sound id member) old oldHeld)
    apply mem_limitRange.mpr
    rw [price] at below above
    exact ⟨held, below, above⟩

theorem marginCall_limits (listed : market.limitOrders.get limitId = some order)
    (done : market.marginCall callId limitId call order = .ok (usedUp, after)) :
    (∀ id, id ≠ limitId → after.limitOrders.get id = market.limitOrders.get id) ∧
      (∀ left, after.limitOrders.get limitId = some left →
        ∃ old, market.limitOrders.get limitId = some old ∧ old.sellPrice = left.sellPrice) ∧
      (usedUp = true → after.limitOrders.get limitId = none) ∧
      (usedUp = true ↔ order.forSale ≤ call.debt) := by
  obtain ⟨_, _, _, _, _, first, second, -, amounts⟩ := marginCall_cases done
  have orders := (fillCallOrder_frame first).1
  obtain ⟨-, order', listed', -, -, tables⟩ := fillLimitOrder_frame second
  have same : order' = order := by
    rw [orders, listed] at listed'
    exact (Option.some.inj listed').symm
  subst same
  refine ⟨?_, ?_, ?_, ?_⟩
  · intro id different
    rw [fillLimitOrder_others second different, orders]
  · intro left held
    rcases tables with removed | ⟨-, reduced⟩
    · rw [removed, Table.get_remove, if_pos rfl] at held
      cases held
    · rw [reduced, Table.get_modify, if_pos rfl, listed'] at held
      cases held
      exact ⟨order', listed, rfl⟩
  · intro used
    rcases amounts with ⟨-, -, all⟩ | ⟨-, unused, -⟩
    · rcases tables with removed | ⟨less, -⟩
      · rw [removed, Table.get_remove, if_pos rfl]
      · exact absurd all less
    · rw [used] at unused
      cases unused
  · rcases amounts with ⟨most, used, -⟩ | ⟨less, unused, -⟩
    · simp [used, most]
    · simp [unused, less]

section

variable (sound : WellFormed market) (backed : market.backingOf mia = some bitasset.backing)
  (positive : bitasset.currentFeed.settlementPrice.Positive)
include sound backed positive

theorem protected_of_first (head : (market.callRange bitasset.backing mia).head? = some first)
    (protects : bitasset.currentFeed.settlementPrice.gt first.2.callPrice.invert = true) {id : Nat}
    (listed : market.callOrders.get id = some call) (kind : call.debtType = mia) :
    bitasset.currentFeed.settlementPrice.gt call.callPrice.invert = true := by
  have member : (id, call) ∈ market.callRange bitasset.backing mia :=
    (mem_callRange sound backed).mpr ⟨listed, kind⟩
  have firstMember := List.mem_of_mem_head? head
  have callPositive := callRange_positive sound _ member
  have firstPositive := callRange_positive sound _ firstMember
  obtain ⟨firstListed, firstKind⟩ := (mem_callRange sound backed).mp firstMember
  have secured := (sound.calls _ _ listed).1
  have firstSecured := (sound.calls _ _ firstListed).1
  rw [kind, backed] at secured
  rw [firstKind, backed] at firstSecured
  have same : Price.SameMarket first.2.callPrice call.callPrice :=
    ⟨Option.some.inj (firstSecured.symm.trans secured), firstKind.trans kind.symm⟩
  have order : call.callPrice.invert.key ≤ first.2.callPrice.invert.key :=
    Price.invert_key_le same firstPositive
      (Prod.Lex.monotone_fst _ _ (callKey_first_le sound head member))
  rw [Price.gt_iff_key positive firstPositive.invert] at protects
  rw [Price.gt_iff_key positive callPositive.invert]
  exact order.trans_lt protects

theorem exhausted_of_stop (priced : bitasset.currentFeed.maxShortSqueezePrice = some minPrice)
    (listed : Listed market (Price.max mia bitasset.backing) minPrice limits)
    (stops : MarginStop mia bitasset limits market false) :
    market.MarginCallsExhausted mia bitasset := by
  refine ⟨minPrice, priced, ?_⟩
  cases stops with
  | noCall empty =>
    right
    left
    intro id call held kind
    have member : (id, call) ∈ market.callRange bitasset.backing mia :=
      (mem_callRange sound backed).mpr ⟨held, kind⟩
    rw [List.head?_eq_none_iff.mp empty] at member
    cases member
  | noLimit empty =>
    left
    apply List.eq_nil_iff_forall_not_mem.mpr
    intro row member
    have there := listed.complete row member
    rw [empty] at there
    cases there
  | @notCallable callId limitId call order rest first list held blocked =>
    right
    simp only [isCallable, Bool.and_eq_false_iff, Bool.not_eq_false'] at blocked
    rcases blocked with protects | dear
    · left
      intro id other listed kind
      exact protected_of_first sound backed positive first protects listed kind
    · right
      have member := listed.sound limitId (by simp [list]) order held
      cases head : (market.limitRange (Price.max mia bitasset.backing) minPrice).head? with
      | none =>
        rw [List.head?_eq_none_iff.mp head] at member
        cases member
      | some best =>
        refine ⟨best, (callId, call), rfl, first, ?_⟩
        have bestPositive := limitRange_positive sound.orders best (List.mem_of_mem_head? head)
        have orderPositive := limitRange_positive sound.orders _ member
        have callPositive := (callRange_positive sound _ (List.mem_of_mem_head? first)).invert
        rw [Price.gt_iff_key orderPositive callPositive] at dear
        rw [Price.gt_iff_key bestPositive callPositive]
        exact dear.trans_le (sellPrice_le_first sound.orders head member)

theorem marginLoop_exhausts (priced : bitasset.currentFeed.maxShortSqueezePrice = some minPrice)
    (listed : Listed market (Price.max mia bitasset.backing) minPrice limits)
    (none : NoneLeftBehind mia enable bitasset fuel limits filled market)
    (done : marginLoop mia enable bitasset fuel limits filled called market = .ok (result, after))
    (unsettled : after.Unsettled mia) : after.MarginCallsExhausted mia bitasset := by
  induction fuel generalizing limits filled called market with
  | zero => cases done
  | succ fuel induction =>
    obtain ⟨swan, checked, check, rounds⟩ := marginLoop_cases done
    cases swan with
    | true =>
      rcases rounds with ⟨-, -, rfl⟩ | ⟨_, _, _, _, _, _, swan, -⟩
      · exact absurd unsettled (checkForBlackswan_settles check)
      · cases swan
    | false =>
      have same : checked = market := by
        rcases checkForBlackswan_cases check with ⟨-, same, -⟩ | ⟨swan, -⟩ | ⟨swan, -⟩
        · exact same
        · cases swan
        · cases swan
      subst same
      rcases rounds with ⟨stops, -, rfl⟩ | ⟨callId, limitId, call, order,
        rest, cost, -, pair, ⟨-, -, -, settled⟩ | ⟨covered, usedUp, middle, traded, later⟩⟩
      · exact exhausted_of_stop sound backed positive priced listed stops
      · exact absurd unsettled (globallySettleAsset_settles settled)
      · obtain ⟨inTurn, rest_⟩ := none callId limitId call order rest cost check pair covered
        have limits_eq := pair.limits_eq
        obtain ⟨others, prices, gone, used⟩ := marginCall_limits pair.listed traded
        have terms := (marginCall_same traded).sameTerms
        have backed' : middle.backingOf mia = some bitasset.backing := by
          rw [terms.backingOf]
          exact backed
        apply induction (marginCall_wellFormed sound pair.listed traded)
          backed' _ (rest_ usedUp middle traded) later
        apply listed.of_fill others prices
        · intro id member
          split at member
          · rw [limits_eq]
            exact List.mem_cons_of_mem _ member
          · exact member
        · intro id member stays
          cases usedUp with
          | true =>
            simp only [Bool.or_true, if_true]
            rw [limits_eq] at member
            rcases List.mem_cons.mp member with rfl | later
            · rcases stays with different | there
              · exact absurd rfl different
              · rw [gone rfl] at there
                cases there
            · exact later
          | false =>
            have notFilled : filled = false := by
              cases filled with
              | false => rfl
              | true =>
                have most := used.mpr (inTurn rfl)
                cases most
            simp [notFilled, member]

end

/-- A check that does not settle the asset leaves no match, if it leaves no
limit order behind. -/
theorem margin_calls_exhausted (market after : Market) (mia : Nat) (bitasset : BitassetData)
    (enable called : Bool) (sound : WellFormed market)
    (held : market.bitassets.get mia = some bitasset)
    (fed : bitasset.currentFeed.settlementPrice.isNull = false)
    (inTurn : market.LeavesNoneBehind mia enable bitasset)
    (done : market.checkCallOrders mia enable = .ok (called, after))
    (unsettled : after.Unsettled mia) : after.MarginCallsExhausted mia bitasset := by
  have positive := (sound.ratios mia bitasset held).current.price fed
  have backed := backingOf_of_held held
  rcases checkCallOrders_cases done with ⟨-, -, absent⟩ | ⟨_, swan, middle, held', check, rounds⟩
  · rw [held] at absent
    cases absent
  · rw [held] at held'
    cases held'
    cases swan with
    | true =>
      rcases rounds with ⟨-, -, rfl⟩ | ⟨swan, -⟩
      · exact absurd unsettled (checkForBlackswan_settles check)
      · cases swan
    | false =>
      have same : middle = market := by
        rcases checkForBlackswan_cases check with ⟨-, same, -⟩ | ⟨swan, -⟩ | ⟨swan, -⟩
        · exact same
        · cases swan
        · cases swan
      subst same
      rcases rounds with ⟨swan | null, -, -⟩ | ⟨-, -, calls⟩
      · cases swan
      · rw [fed] at null
        cases null
      · obtain ⟨minPrice, priced, ⟨empty, -, rfl⟩ | looped⟩ :=
          callMargins_cases calls
        · exact ⟨minPrice, priced, .inl empty⟩
        · apply marginLoop_exhausts sound backed positive priced _
            (inTurn minPrice priced) looped unsettled
          constructor
          · intro row member
            exact List.mem_map_of_mem member
          · intro id member order listed
            obtain ⟨_, there, rfl⟩ := List.mem_map.mp member
            obtain ⟨rowListed, -⟩ := mem_limitRange.mp there
            rw [listed] at rowListed
            cases rowListed
            exact there

/-- The rounds of the loop, gone through as long as there are limit orders. -/
def usesUpInTurn (mia : Nat) (bitasset : BitassetData) : Nat → List Nat → Bool → Market → Bool
  | fuel + 1, limitId :: rest, filled, market =>
      (market.callRange bitasset.backing mia).head?.all fun (callId, call) =>
        (market.limitOrders.get limitId).all fun order =>
          (!filled || order.forSale ≤ call.debt) &&
            match market.marginCall callId limitId call order with
            | .ok (usedUp, middle) => usesUpInTurn mia bitasset fuel
                (if filled || usedUp then rest else limitId :: rest) (filled || usedUp) middle
            | .error _ => true
  | _, _, _, _ => true

theorem noneLeftBehind_of_usesUp
    (inTurn : usesUpInTurn mia bitasset fuel limits filled market = true) :
    NoneLeftBehind mia enable bitasset fuel limits filled market := by
  induction fuel generalizing limits filled market with
  | zero => trivial
  | succ fuel induction =>
    intro callId limitId call order rest cost _ pair _
    have list := pair.limits_eq
    subst list
    simp only [usesUpInTurn, pair.first, pair.listed, Option.all_some, Bool.and_eq_true] at inTurn
    refine ⟨fun used => by simpa [used] using inTurn.1, fun usedUp middle done => ?_⟩
    rw [done] at inTurn
    exact induction inTurn.2

/-- An account sells asset `2` for the core asset. -/
def sell (account : AccountId) (amount ask : Int) : MarketTerms × MarketEvent :=
  (MarketTerms.free, .limitOrderCreate ⟨account, ⟨amount, 2⟩, ⟨ask, assetCore⟩, 1000, false⟩)

/-- The price of asset `2` falls to four fifths. -/
def fallingFeed : AssetPublishFeed := ⟨9, 2, ⟨⟨⟨4, 2⟩, ⟨5, assetCore⟩⟩, 1750, 1500⟩⟩

/-- The market with the new feed, before the call orders are checked. -/
def repriced (market : Market) : Market :=
  { market with
    bitassets := market.bitassets.modify 2
      (fallingFeed.change market.headBlockTime) }

/-- Accounts `11` and `12` borrow, and account `11` offers what it got. -/
def offers (rest : List (MarketTerms × MarketEvent)) : List (MarketTerms × MarketEvent) :=
  [(MarketTerms.free, .assetUpdateFeedProducers ⟨7, 2, [9]⟩),
    publish 1 1 1750, borrow 11 200 100, borrow 12 205 100] ++ rest

/-- Orders for `50` and `40` are both used up by the first call order. -/
theorem margin_calls_exhausted_two : ∃ created market bitasset called after,
      (newBitasset assetCore).perform MarketTerms.free fundedGenesis = .ok created ∧
      created.run (offers [sell 11 50 60, sell 11 40 48]) = .ok market ∧
      market.repriced.bitassets.get 2 = some bitasset ∧
      market.repriced.checkCallOrders 2 true = .ok (called, after) ∧
      after.limitOrders.rows = [] ∧ after.MarginCallsExhausted 2 bitasset := by
  have reached : ∃ created market asset old bitasset minPrice called after,
      Created created ∧ created.run (offers [sell 11 50 60, sell 11 40 48]) = .ok market ∧
      market.bitassets.get 2 = some old ∧ fallingFeed.evaluate MarketTerms.free asset old = true ∧
      market.repriced.bitassets.get 2 = some bitasset ∧
      bitasset.currentFeed.settlementPrice.isNull = false ∧
      bitasset.currentFeed.maxShortSqueezePrice = some minPrice ∧
      usesUpInTurn 2 bitasset market.repriced.marginFuel ((market.repriced.limitRange
        (Price.max 2 bitasset.backing) minPrice).map Prod.fst) false market.repriced = true ∧
      market.repriced.checkCallOrders 2 true = .ok (called, after) ∧
      (after.bitassets.get 2).bind BitassetData.settlement = none ∧
      after.limitOrders.rows = [] :=
    ⟨_, _, ⟨5, 7, (newBitasset assetCore).commonOptions⟩, _, _, _, _, _, rfl,
      rfl, rfl, by decide +kernel, rfl, by decide +kernel, rfl, by decide +kernel,
      rfl, by decide +kernel, by decide +kernel⟩
  obtain ⟨created, market, _, _, bitasset, _, called, after, performed, history,
    known, evaluated, held, fed, priced, inTurn, done, unsettled, none⟩ := reached
  refine ⟨created, market, bitasset, called, after, performed, history, held, done, none, ?_⟩
  have sound := feedClosed_keepsForm.run history (wellFormed_created performed)
  have valid : fallingFeed.validate = true := by decide +kernel
  have repricedSound : WellFormed market.repriced :=
    feedClosed_keepsForm.publishFeed valid known evaluated sound
  apply margin_calls_exhausted market.repriced after 2 bitasset true called
    repricedSound held fed _ done
  · intro final there
    simpa [there] using unsettled
  · intro minPrice same
    cases priced.symm.trans same
    exact noneLeftBehind_of_usesUp inTurn

/-- An order for `100` is matched with a call order after one for `50` has
been used up, and its rest is not offered to the next call order. -/
theorem limit_order_left_behind : ∃ created market bitasset after,
      (newBitasset assetCore).perform MarketTerms.free fundedGenesis = .ok created ∧
      created.run (offers [sell 11 50 60, sell 12 100 120]) = .ok market ∧
      market.repriced.bitassets.get 2 = some bitasset ∧
      market.repriced.checkCallOrders 2 true = .ok (true, after) ∧
      after.Unsettled 2 ∧ ¬ after.MarginCallsExhausted 2 bitasset := by
  refine ⟨_, _, _, _, rfl, rfl, rfl, rfl, ?_, ?_⟩
  · intro bitasset held
    cases held
    rfl
  · rintro ⟨_, priced, none | shielded | ⟨_, _, best, first, dear⟩⟩
    · cases priced
      exact absurd none (by decide +kernel)
    · exact absurd (shielded 1 _ rfl rfl) (by decide +kernel)
    · cases priced
      cases best
      cases first
      exact absurd dear (by decide +kernel)

end Market

end CocosChain.Chain

import CocosChain.Chain.BackingStructure
import CocosChain.Chain.OrderBook

/-!
# Detecting a black swan

The check looks at one call order only, the first by its call price.  A call
price is computed when its order is created or changed; it is not renewed when
the collateral ratio of the feed changes, and not when the order is partly
filled.  So the order with the lowest call price need not be the one with the
least collateral.  It is, if all orders store the call price that they have now
at one and the same ratio.
-/

namespace CocosChain.Chain

namespace Market

/-- The debt of the order in its collateral is at or above the price. -/
def AtOrAbove (call : CallOrder) (price : Price) : Prop :=
  call.collateralization.invert.ge price = true

instance (call : CallOrder) (price : Price) : Decidable (AtOrAbove call price) :=
  inferInstanceAs (Decidable (_ = true))

/-- The check does not pass: it settles the asset or refuses to. -/
def ReportsSwan (market : Market) (mia : Nat) (enable : Bool) : Prop :=
  ∀ after, market.checkForBlackswan mia enable ≠ .ok (false, after)

/-- Some position in the asset is not covered at the highest bid or the
feed. -/
def HasSwan (market : Market) (mia : Nat) (bitasset : BitassetData) : Prop :=
  ∃ id call, market.callOrders.get id = some call ∧ call.debtType = mia ∧
    AtOrAbove call (market.highestBid mia bitasset)

/-- The call price is that of the present debt and collateral at the ratio. -/
structure PricedAt (ratio : Int) (call : CallOrder) : Prop where
  secured : 0 < call.collateral
  price : call.callPrice.base.amount * (call.debt * ratio) =
    call.callPrice.quote.amount * (call.collateral * collateralRatioDenom)

/-- All positions in the asset have the call price of one ratio. -/
def PricedAlike (market : Market) (mia : Nat) : Prop :=
  ∃ ratio, 0 < ratio ∧ ∀ id call, market.callOrders.get id = some call →
    call.debtType = mia → PricedAt ratio call

/-- The asset with another price of the feed. -/
def fedWith (price : Price) (bitasset : BitassetData) : BitassetData :=
  { bitasset with currentFeed := { bitasset.currentFeed with settlementPrice := price } }

variable {market : Market}

theorem swanPrice_eq_some : market.swanPrice mia bitasset = some price ↔
      ∃ row, (market.callRange bitasset.backing mia).head? = some row ∧
        AtOrAbove row.2 (market.highestBid mia bitasset) ∧
        row.2.collateralization.invert = price := by
  unfold swanPrice
  cases first : (market.callRange bitasset.backing mia).head? with
  | none => simp
  | some row =>
    simp only [Option.some.injEq, exists_eq_left', AtOrAbove]
    split
    · rename_i above
      simp [above]
    · rename_i below
      simp [below]

theorem checkForBlackswan_eq (enable : Bool) (held : market.bitassets.get mia = some bitasset)
    (unsettled : bitasset.settlement = none)
    (fed : bitasset.currentFeed.settlementPrice.isNull = false) :
    market.checkForBlackswan mia enable = match market.swanPrice mia bitasset with
      | none => .ok (false, market)
      | some price =>
        if enable then
          (market.globallySettleAsset mia price).map (Prod.mk true)
        else .error .refused := by
  simp only [checkForBlackswan, held, BitassetData.hasSettlement, unsettled,
    Option.isSome_none, fed]
  cases market.swanPrice mia bitasset with
  | none => rfl
  | some price =>
    cases enable with
    | false => rfl
    | true =>
      cases market.globallySettleAsset mia price with
      | error fault => rfl
      | ok after => rfl

theorem reportsSwan_iff (enable : Bool) (held : market.bitassets.get mia = some bitasset)
    (unsettled : bitasset.settlement = none)
    (fed : bitasset.currentFeed.settlementPrice.isNull = false) :
    market.ReportsSwan mia enable ↔ ∃ row,
      (market.callRange bitasset.backing mia).head? = some row ∧
        AtOrAbove row.2 (market.highestBid mia bitasset) := by
  have check := checkForBlackswan_eq enable held unsettled fed
  cases found : market.swanPrice mia bitasset with
  | none =>
    rw [found] at check
    constructor
    · intro reports
      exact absurd check (reports market)
    · rintro ⟨row, first, above⟩
      have swan := swanPrice_eq_some.mpr ⟨row, first, above, rfl⟩
      rw [found] at swan
      cases swan
  | some price =>
    rw [found] at check
    obtain ⟨row, first, above, -⟩ := swanPrice_eq_some.mp found
    refine iff_of_true ?_ ⟨row, first, above⟩
    intro after same
    rw [check] at same
    cases enable with
    | false => cases same
    | true =>
      simp only [if_true] at same
      cases settled : market.globallySettleAsset mia price with
      | error fault =>
        rw [settled] at same
        cases same
      | ok after =>
        rw [settled] at same
        cases same

theorem PricedAt.value (priced : PricedAt ratio call) (rated : 0 < ratio)
    (positive : call.callPrice.Positive) : call.collateralization.Positive ∧
      call.callPrice.value = collateralRatioDenom / ratio * call.collateralization.value := by
  have product : 0 < call.callPrice.quote.amount * (call.collateral * collateralRatioDenom) :=
    mul_pos positive.quote (mul_pos priced.secured (by decide))
  have debt : 0 < call.debt := by
    rw [← priced.price] at product
    exact pos_of_mul_pos_left (pos_of_mul_pos_right product positive.base.le) rated.le
  refine ⟨⟨priced.secured, debt⟩, ?_⟩
  have price : (call.callPrice.base.amount : ℚ) * (call.debt * ratio) =
      call.callPrice.quote.amount * (call.collateral * collateralRatioDenom) := by
    exact_mod_cast priced.price
  have quote : (call.callPrice.quote.amount : ℚ) ≠ 0 := by
    exact_mod_cast positive.quote.ne'
  have debtNe : (call.debt : ℚ) ≠ 0 := by
    exact_mod_cast debt.ne'
  have ratioNe : (ratio : ℚ) ≠ 0 := by
    exact_mod_cast rated.ne'
  show _ / _ = _ * ((call.collateral : ℚ) / call.debt)
  rw [div_mul_div_comm, div_eq_div_iff quote (mul_ne_zero ratioNe debtNe)]
  rw [mul_comm (ratio : ℚ), price, mul_comm (collateralRatioDenom : ℚ), mul_comm (_ * _)]

theorem sameMarket_of_debtType (sound : WellFormed market)
    (listed : market.callOrders.get first = some call)
    (other : market.callOrders.get next = some later)
    (same : later.debtType = call.debtType) :
    Price.SameMarket call.collateralization later.collateralization := by
  have backing := (sound.calls _ _ other).1
  rw [same, (sound.calls _ _ listed).1] at backing
  exact ⟨Option.some.inj backing, same.symm⟩

section

variable (sound : WellFormed market) (held : market.bitassets.get mia = some bitasset)
  (fed : bitasset.currentFeed.settlementPrice.isNull = false)
include sound held fed

theorem highestBid_positive : (market.highestBid mia bitasset).Positive := by
  have settle := (sound.ratios mia bitasset held).current.price fed
  unfold highestBid
  split
  · exact settle
  · rename_i first
    simp only
    split
    · exact settle
    · exact limitRange_positive sound.orders _ (List.mem_of_mem_head? first)

/-- The lowest call price belongs to the least collateral. -/
theorem PricedAlike.first_atOrAbove (priced : market.PricedAlike mia)
    (swan : market.HasSwan mia bitasset) : ∃ row,
      (market.callRange bitasset.backing mia).head? = some row ∧
        AtOrAbove row.2 (market.highestBid mia bitasset) := by
  obtain ⟨ratio, rated, alike⟩ := priced
  obtain ⟨id, call, listed, kind, above⟩ := swan
  have backed := backingOf_of_held held
  have member : (id, call) ∈ market.callRange bitasset.backing mia :=
    (mem_callRange sound backed).mpr ⟨listed, kind⟩
  cases head : (market.callRange bitasset.backing mia).head? with
  | none =>
    rw [List.head?_eq_none_iff.mp head] at member
    cases member
  | some first =>
    refine ⟨first, rfl, ?_⟩
    have firstMember := List.mem_of_mem_head? head
    obtain ⟨firstListed, firstKind⟩ := (mem_callRange sound backed).mp firstMember
    obtain ⟨firstAmounts, firstValue⟩ := (alike _ _ firstListed firstKind).value rated
      (callRange_positive sound first firstMember)
    obtain ⟨amounts, value⟩ := (alike _ _ listed kind).value rated
      (callRange_positive sound _ member)
    have kinds := sameMarket_of_debtType sound firstListed listed (kind.trans firstKind.symm)
    have priceKinds : Price.SameMarket first.2.callPrice call.callPrice := ⟨kinds.1, kinds.2⟩
    have prices := (Price.key_le_iff priceKinds).mp
      (Prod.Lex.monotone_fst _ _ (callKey_first_le sound head member))
    have scale : (0 : ℚ) < collateralRatioDenom / ratio :=
      div_pos (by decide) (by exact_mod_cast rated)
    rw [firstValue, value] at prices
    have less := Price.invert_key_le kinds firstAmounts
      ((Price.key_le_iff kinds).mpr (le_of_mul_le_mul_left prices scale))
    have bid := highestBid_positive sound held fed
    rw [AtOrAbove, Price.ge_iff_key amounts.invert bid] at above
    rw [AtOrAbove, Price.ge_iff_key firstAmounts.invert bid]
    exact above.trans less

end

/-- After any history, the check reports a black swan exactly when some
position is not covered, if the stored call prices are those that the positions
have now at one ratio.  What it reports, it settles or refuses.  If a position
has less collateral than the one with the lowest call price, there is a price
at which it is not covered and not reported. -/
theorem black_swan_reported_iff {start market : Market} {events : List (MarketTerms × MarketEvent)}
    {mia : Nat} {bitasset : BitassetData} (enable : Bool) (sound : WellFormed start)
    (history : start.run events = .ok market) (held : market.bitassets.get mia = some bitasset)
    (unsettled : bitasset.settlement = none)
    (fed : bitasset.currentFeed.settlementPrice.isNull = false) :
    (market.PricedAlike mia → (market.ReportsSwan mia enable ↔ market.HasSwan mia bitasset)) ∧
      (market.ReportsSwan mia enable → ∃ price, market.swanPrice mia bitasset = some price ∧
        market.checkForBlackswan mia enable = if enable then
            (market.globallySettleAsset mia price).map (Prod.mk true)
          else .error .refused) ∧
      ∀ id call first price fallen, market.callOrders.get id = some call → call.debtType = mia →
        (market.callRange bitasset.backing mia).head? = some first →
        call.collateralization.lt first.2.collateralization = true →
        price = call.collateralization.invert → price.isNull = false →
        market.highestBid mia (fedWith price bitasset) = price →
        fallen = { market with bitassets := market.bitassets.modify mia (fedWith price) } →
          fallen.HasSwan mia (fedWith price bitasset) ∧ ¬ fallen.ReportsSwan mia enable := by
  have soundNow : WellFormed market := feedClosed_keepsForm.run history sound
  have reports := reportsSwan_iff enable held unsettled fed
  refine ⟨fun priced => ⟨fun reported => ?_, fun swan => ?_⟩, fun reported => ?_, ?_⟩
  · obtain ⟨row, first, above⟩ := reports.mp reported
    have member := List.mem_of_mem_head? first
    obtain ⟨listed, kind⟩ := (mem_callRange soundNow (backingOf_of_held held)).mp member
    exact ⟨row.1, row.2, listed, kind, above⟩
  · exact reports.mpr (priced.first_atOrAbove soundNow held fed swan)
  · obtain ⟨row, first, above⟩ := reports.mp reported
    have found := swanPrice_eq_some.mpr ⟨row, first, above, rfl⟩
    refine ⟨_, found, ?_⟩
    rw [checkForBlackswan_eq enable held unsettled fed, found]
  · rintro id call first price fallen listed kind head less worth fedThere bid rfl
    have slot : (market.bitassets.modify mia (fedWith price)).get mia =
        some (fedWith price bitasset) := by
      rw [Table.get_modify, if_pos rfl, held]
      rfl
    obtain ⟨firstListed, firstKind⟩ := (mem_callRange soundNow (backingOf_of_held held)).mp
      (List.mem_of_mem_head? head)
    have kinds := sameMarket_of_debtType soundNow firstListed listed (kind.trans firstKind.symm)
    refine ⟨⟨id, call, listed, kind, ?_⟩, ?_⟩
    · show call.collateralization.invert.ge (market.highestBid mia (fedWith price bitasset)) = true
      rw [bid, worth, Price.ge_iff ⟨rfl, rfl⟩, mul_comm]
    · rw [@reportsSwan_iff _ mia (fedWith price bitasset) enable slot unsettled fedThere]
      rintro ⟨_, there, above⟩
      cases Option.some.inj (there.symm.trans head)
      change first.2.collateralization.invert.ge
        (market.highestBid mia (fedWith price bitasset)) = true at above
      rw [bid, worth, Price.ge, Price.invert_lt_invert kinds, less] at above
      cases above

/-- Accounts `11` and `12` own some of the core asset. -/
def fundedGenesis : Market :=
  { genesis with
    balances := ⟨[((11, assetCore), 1000000), ((12, assetCore), 1000000)], fun _ _ => 0⟩ }

/-- An asset backed by the core asset has been created. -/
def Created (created : Market) : Prop :=
  (newBitasset assetCore).perform MarketTerms.free fundedGenesis = .ok created

theorem wellFormed_created
    (performed : (newBitasset backing).perform MarketTerms.free fundedGenesis = .ok created) :
    WellFormed created := by
  simp only [AssetCreate.perform, AssetCreate.apply, bind_eq_ok,
    ensure_eq_ok, pure_eq_ok, Prod.exists] at performed
  obtain ⟨-, -, -, -, _, ⟨-, -, rfl⟩, _, _, payment, rfl⟩ := performed
  rw [payFee_frame payment]
  refine ⟨?_, ?_, ?_, ?_, ?_, ?_⟩
  · intro id order listed
    cases listed
  · intro id call listed
    cases listed
  · intro id bid listed
    cases listed
  · intro id settle listed
    cases listed
  · intro id bitasset held
    have slot : (fundedGenesis.bitassets.append
        ((newBitasset backing).bitassetOpts.map AssetCreate.bitasset)).get
          id = some bitasset := held
    rw [Table.get_append] at slot
    split at slot
    · cases slot
      exact ⟨usable_null, by simp [AssetCreate.bitasset]⟩
    · have none : genesis.bitassets.get id = none := by
        have absent := backingOf_genesis id
        simpa [backingOf] using absent
      exact absurd (none.symm.trans slot) (by simp)
  · intro gas rate listed rated
    cases listed
    cases rated
    rintro _ (rfl | rfl)
    · exact .inl rfl
    · exact .inr rfl

/-- Account `9` publishes a price of asset `2` in the core asset. -/
def publish (debt collateral : Int) (ratio : Nat) : MarketTerms × MarketEvent :=
  (MarketTerms.free, .assetPublishFeed ⟨9, 2,
    ⟨⟨⟨debt, 2⟩, ⟨collateral, assetCore⟩⟩, ratio, 1500⟩⟩)

/-- An account borrows asset `2`. -/
def borrow (account : AccountId) (collateral debt : Int) : MarketTerms × MarketEvent :=
  (MarketTerms.free, .callOrderUpdate ⟨account, ⟨collateral, assetCore⟩, ⟨debt, 2⟩⟩)

/-- Account `12` borrows asset `2` at a price of one. -/
def singlePosition : List (MarketTerms × MarketEvent) :=
  [(MarketTerms.free, .assetUpdateFeedProducers ⟨7, 2, [9]⟩),
    publish 1 1 1750, borrow 12 700 100]

/-- Account `11` borrows as well. -/
def twoPositions : List (MarketTerms × MarketEvent) := singlePosition ++ [borrow 11 1000 100]

/-- The price falls for two positions. -/
theorem black_swan_reported_iff_two : ∃ created market bitasset,
      (newBitasset assetCore).perform MarketTerms.free fundedGenesis = .ok created ∧
      created.run (twoPositions ++ [publish 1 3 1750]) = .ok market ∧
      market.bitassets.get 2 = some bitasset ∧ market.callOrders.rows.length = 2 ∧
      (market.ReportsSwan 2 true ↔ market.HasSwan 2 bitasset) := by
  have reached : ∃ created market bitasset,
      Created created ∧ created.run (twoPositions ++ [publish 1 3 1750]) = .ok market ∧
      market.bitassets.get 2 = some bitasset ∧ bitasset.settlement = none ∧
      bitasset.currentFeed.settlementPrice.isNull = false ∧ market.callOrders.rows.length = 2 ∧
      ∀ row ∈ market.callOrders.rows, 0 < row.2.collateral ∧
        row.2.callPrice.base.amount * (row.2.debt * 1750) =
          row.2.callPrice.quote.amount * (row.2.collateral * collateralRatioDenom) :=
    ⟨_, _, _, rfl, rfl, rfl, by decide +kernel, by decide +kernel, rfl, by decide +kernel⟩
  obtain ⟨created, market, bitasset, performed, history, held, unsettled, fed, two, priced⟩ :=
    reached
  refine ⟨created, market, bitasset, performed, history, held, two, ?_⟩
  refine (black_swan_reported_iff true (wellFormed_created performed) history held unsettled
    fed).1 ⟨1750, by decide, fun id call listed _ => ?_⟩
  obtain ⟨secured, price⟩ := priced (id, call) (Table.mem_rows.mpr listed)
  exact ⟨secured, price⟩

/-- Account `11` borrows under a high collateral ratio, account `12` with less
collateral under a lower one, and then the price falls. -/
def staleCallPrice : List (MarketTerms × MarketEvent) :=
  [(MarketTerms.free, .assetUpdateFeedProducers ⟨7, 2, [9]⟩),
    publish 1 1 3000, borrow 11 1000 100, publish 1 1 1750,
    borrow 12 700 100, publish 1 8 1750]

/-- The position of account `12` is not covered any more, and nothing is
reported. -/
theorem swan_not_reported : ∃ created market bitasset,
      (newBitasset assetCore).perform MarketTerms.free fundedGenesis = .ok created ∧
      created.run staleCallPrice = .ok market ∧
      market.bitassets.get 2 = some bitasset ∧
      bitasset.settlement = none ∧
      bitasset.currentFeed.settlementPrice.isNull = false ∧
      market.HasSwan 2 bitasset ∧
      market.checkForBlackswan 2 true = .ok (false, market) := by
  refine ⟨_, _, _, rfl, rfl, rfl, by decide +kernel, by decide +kernel, ?_, rfl⟩
  exact ⟨1, _, rfl, by decide +kernel, by decide +kernel⟩

end Market

end CocosChain.Chain

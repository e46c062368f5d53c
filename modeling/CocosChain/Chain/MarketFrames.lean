import CocosChain.Chain.MarketTraversal

/-!
# What the market leaves alone

Orders come and go without touching the assets: their options, feeds and
backing assets.  Only a global settlement, its end and the volume of force
settlements are written into the data of a market-issued asset.
-/

namespace CocosChain.Chain

/-- Everything about a market-issued asset but its settlements. -/
def BitassetData.terms (bitasset : BitassetData) : BitassetData :=
  { bitasset with
    forceSettledVolume := 0
    settlement := none }

namespace Market

/-- The assets and the time are the same. -/
structure SameAssets (market after : Market) : Prop where
  assets : after.assets = market.assets
  bitassets : after.bitassets = market.bitassets
  headBlockTime : after.headBlockTime = market.headBlockTime

/-- The assets are the same but for settlements. -/
structure SameTerms (market after : Market) : Prop where
  assets : after.assets = market.assets
  headBlockTime : after.headBlockTime = market.headBlockTime
  next : after.bitassets.next = market.bitassets.next
  terms : ∀ mia, (after.bitassets.get mia).map BitassetData.terms =
    (market.bitassets.get mia).map BitassetData.terms

variable {id : Nat}

theorem SameAssets.refl (market : Market) : SameAssets market market :=
  ⟨rfl, rfl, rfl⟩

theorem SameAssets.trans (first : SameAssets market middle)
    (second : SameAssets middle after) : SameAssets market after :=
  ⟨second.assets.trans first.assets, second.bitassets.trans first.bitassets,
    second.headBlockTime.trans first.headBlockTime⟩

theorem SameAssets.sameTerms (same : SameAssets market after) : SameTerms market after :=
  ⟨same.assets, same.headBlockTime, by rw [same.bitassets], fun mia => by rw [same.bitassets]⟩

theorem SameTerms.refl (market : Market) : SameTerms market market :=
  (SameAssets.refl market).sameTerms

theorem SameTerms.trans (first : SameTerms market middle)
    (second : SameTerms middle after) : SameTerms market after :=
  ⟨second.assets.trans first.assets, second.headBlockTime.trans first.headBlockTime,
    second.next.trans first.next, fun mia => (second.terms mia).trans (first.terms mia)⟩

theorem SameButFees.sameAssets (same : SameButFees market after) : SameAssets market after := by
  rw [same]
  exact ⟨rfl, rfl, rfl⟩

theorem SameTerms.before (same : SameTerms market after)
    (held : after.bitassets.get mia = some bitasset) :
    ∃ old, market.bitassets.get mia = some old ∧ old.terms = bitasset.terms := by
  have terms := same.terms mia
  rw [held, Option.map_some] at terms
  exact Option.map_eq_some_iff.mp terms.symm

theorem sameTerms_modify (market : Market) (mia : Nat) (change : BitassetData → BitassetData)
    (keeps : ∀ bitasset, (change bitasset).terms = bitasset.terms) :
    SameTerms market { market with
      bitassets := market.bitassets.modify mia change } := by
  refine ⟨rfl, rfl, rfl, fun other => ?_⟩
  rw [Table.get_modify]
  split
  · rename_i here
    cases held : market.bitassets.get mia with
    | none => simp [here, held]
    | some bitasset => simp [here, held, keeps bitasset]
  · rfl

theorem cancelLimitOrder_same (done : market.cancelLimitOrder id = .ok after) :
    SameAssets market after := by
  obtain ⟨_, _, _, -, -, -, rfl⟩ := cancelLimitOrder_spec done
  exact ⟨rfl, rfl, rfl⟩

theorem maybeCullSmallOrder_same (done : market.maybeCullSmallOrder id = .ok (culled, after)) :
    SameAssets market after := by
  obtain ⟨_, _, -, -, ⟨-, -, cancelled⟩ | ⟨-, -, rfl⟩⟩ := maybeCullSmallOrder_cases done
  · exact cancelLimitOrder_same cancelled
  · exact SameAssets.refl _

theorem fillLimitOrder_same
    (done : market.fillLimitOrder id pays receives cull = .ok (filled, after)) :
    SameAssets market after := by
  obtain ⟨_, _, _, _, -, -, -, -, -, settled⟩ := fillLimitOrder_spec done
  obtain ⟨-, -, rfl⟩ | ⟨-, _, rfl, ⟨-, -, rfl⟩ | ⟨-, culled⟩⟩ :=
    settleLimitOrder_cases settled
  · exact ⟨rfl, rfl, rfl⟩
  · exact ⟨rfl, rfl, rfl⟩
  · have same := maybeCullSmallOrder_same culled
    exact ⟨same.assets, same.bitassets, same.headBlockTime⟩

theorem fillCallOrder_same (done : market.fillCallOrder id pays receives = .ok (closed, after)) :
    SameAssets market after := by
  obtain ⟨_, -, -, -, -, ⟨-, -, _, -, rfl⟩ | ⟨-, -, rfl⟩⟩ := fillCallOrder_spec done
  · exact ⟨rfl, rfl, rfl⟩
  · exact ⟨rfl, rfl, rfl⟩

theorem fillSettlement_same (done : market.fillSettlement id pays receives = .ok (filled, after)) :
    SameAssets market after := by
  obtain ⟨_, _, _, _, -, -, -, -, rfl⟩ := fillSettlement_spec done
  exact ⟨rfl, rfl, rfl⟩

theorem matchLimitOrders_same
    (done : market.matchLimitOrders usdId coreId price = .ok (filled, after)) :
    SameAssets market after := by
  simp only [matchLimitOrders, bind_eq_ok, found_eq_ok, pure_eq_ok,
    Prod.exists, Prod.mk.injEq] at done
  obtain ⟨_, -, _, -, _, _, -, _, _, first, _, _, second, -, rfl⟩ := done
  exact (fillLimitOrder_same first).trans (fillLimitOrder_same second)

theorem marginCall_cases {market : Market}
    (done : market.marginCall callId limitId call order = .ok (usedUp, after)) :
    ∃ receives middle closed filled pays,
      market.fillCallOrder callId receives pays = .ok (closed, middle) ∧
      middle.fillLimitOrder limitId pays receives true =
        .ok (filled, after) ∧ pays.times order.sellPrice = some receives ∧
      ((order.forSale ≤ call.debt ∧ usedUp = true ∧ pays = order.amountForSale) ∨
        (call.debt < order.forSale ∧ usedUp = false ∧ pays = call.getDebt)) := by
  unfold marginCall at done
  split at done
  · rename_i most
    simp only [bind_eq_ok, found_eq_ok, pure_eq_ok, Prod.exists, Prod.mk.injEq] at done
    obtain ⟨receives, worth, closed, middle, first, filled, last, second, rfl, rfl⟩ := done
    exact ⟨receives, middle, closed, filled, _, first, second, worth, .inl ⟨most, rfl, rfl⟩⟩
  · rename_i less
    simp only [bind_eq_ok, found_eq_ok, pure_eq_ok, Prod.exists, Prod.mk.injEq] at done
    obtain ⟨receives, worth, closed, middle, first, filled, _, second, rfl, rfl⟩ := done
    exact ⟨receives, middle, closed, filled, _, first, second, worth,
      .inr ⟨Int.not_le.mp less, rfl, rfl⟩⟩

theorem marginCall_same (done : market.marginCall callId limitId call order = .ok (usedUp, after)) :
    SameAssets market after := by
  obtain ⟨_, _, _, _, _, first, second, -⟩ := marginCall_cases done
  exact (fillCallOrder_same first).trans (fillLimitOrder_same second)

theorem matchSettlement_same
    (done : market.matchSettlement callId settleId price most = .ok (amount, after)) :
    SameAssets market after := by
  obtain ⟨_, _, _, _, _, _, -, -, -, -, -, -, -, first, second⟩ := matchSettlement_spec done
  exact (fillCallOrder_same first).trans (fillSettlement_same second)

theorem closeCallOrders_same (done : closeCallOrders backing price ids start market = .ok (gathered,
      after)) : SameAssets market after :=
  closeCallOrders_closed SameAssets SameAssets.refl SameAssets.trans fillCallOrder_same done

theorem globallySettleAsset_same (done : market.globallySettleAsset mia price = .ok after) :
    SameTerms market after := by
  simp only [globallySettleAsset, bind_eq_ok, found_eq_ok, ensure_eq_ok,
    pure_eq_ok, Prod.exists] at done
  obtain ⟨bitasset, -, -, -, -, -, gathered, middle, closed, -, -, rfl⟩ := done
  have written := sameTerms_modify middle mia (fun bitasset =>
    { bitasset with
      settlement := some ⟨market.currentSupply mia, gathered, gathered⟩ })
    (fun _ => rfl)
  have same := (closeCallOrders_same closed).sameTerms.trans written
  exact ⟨same.assets, same.headBlockTime, same.next, same.terms⟩

theorem marginClosed_sameTerms : MarginClosed SameTerms where
  refl := SameTerms.refl
  trans := SameTerms.trans
  marginCall _ _ done := (marginCall_same done).sameTerms
  globallySettleAsset := globallySettleAsset_same

theorem place_same {op : LimitOrderCreate}
    (done : op.place market = .ok after) : SameAssets market after := by
  obtain ⟨_, -, rfl⟩ := LimitOrderCreate.place_spec done
  exact ⟨rfl, rfl, rfl⟩

theorem deferFee_same (market : Market) (id : Nat) (filled : Bool) (fee : Option Asset) :
    SameAssets market (LimitOrderCreate.deferFee market id filled fee) := by
  unfold LimitOrderCreate.deferFee
  split
  · split
    · exact ⟨rfl, rfl, rfl⟩
    · exact SameAssets.refl _
  · exact SameAssets.refl _

theorem adjust_same {op : CallOrderUpdate}
    (done : op.adjust bitasset market = .ok (placed, after)) : SameAssets market after := by
  obtain ⟨_, _, -, -, adjusted⟩ := CallOrderUpdate.adjust_spec done
  obtain ⟨_, rfl⟩ := adjusted.frame
  exact ⟨rfl, rfl, rfl⟩

theorem cancelBid_same (done : market.cancelBid id = .ok after) : SameAssets market after := by
  obtain ⟨_, _, -, -, rfl⟩ := cancelBid_spec done
  exact ⟨rfl, rfl, rfl⟩

theorem placeBid_same {op : BidCollateral}
    (done : op.placeBid market = .ok after) : SameAssets market after := by
  obtain ⟨_, -, -, rfl⟩ := BidCollateral.placeBid_spec done
  exact ⟨rfl, rfl, rfl⟩

theorem cancelSettlement_same (done : market.cancelSettlement id = .ok after) :
    SameAssets market after := by
  obtain ⟨_, _, -, -, rfl⟩ := cancelSettlement_spec done
  exact ⟨rfl, rfl, rfl⟩

theorem settle_same {op : AssetSettle} (done : op.apply bitasset market = .ok after) :
    SameTerms market after := by
  obtain ⟨_, -, ⟨-, _, rfl⟩ | ⟨settlement, settled, _, -, -, -,
    rfl⟩⟩ := AssetSettle.apply_cases done
  · exact ⟨rfl, rfl, rfl, fun _ => rfl⟩
  · have written := sameTerms_modify market op.amount.assetId (fun bitasset => { bitasset with
        settlement := some ⟨settlement.settledSupply, settlement.settledCollateral,
          settlement.fund - settled.amount⟩ }) (fun _ => rfl)
    exact ⟨rfl, rfl, written.next, written.terms⟩

theorem executeBid_same (done : market.executeBid id covered fund feed = .ok after) :
    SameAssets market after := by
  obtain ⟨_, _, -, -, -, rfl⟩ := executeBid_spec done
  exact ⟨rfl, rfl, rfl⟩

theorem executeBids_same (done : executeBids price feed ids toCover fund market = .ok after) :
    SameAssets market after := by
  induction ids generalizing toCover fund market with
  | nil =>
    simp only [executeBids, bind_eq_ok, ensure_eq_ok, pure_eq_ok] at done
    obtain ⟨-, -, -, -, rfl⟩ := done
    exact SameAssets.refl _
  | cons id rest induction =>
    simp only [executeBids, bind_eq_ok, found_eq_ok] at done
    obtain ⟨_, -, _, -, _, executed, later⟩ := done
    exact (executeBid_same executed).trans (induction later)

theorem cancelBids_same (done : cancelBids ids market = .ok after) : SameAssets market after :=
  cancelBids_closed SameAssets SameAssets.refl SameAssets.trans cancelBid_same done

theorem cancelBidsAndRevive_same (done : market.cancelBidsAndRevive mia = .ok after) :
    SameTerms market after := by
  obtain ⟨_, _, cancelled, rfl⟩ := cancelBidsAndRevive_spec done
  exact (cancelBids_same cancelled).sameTerms.trans (sameTerms_modify _ _ _ fun _ => rfl)

theorem takeOver_same (done : market.takeOver mia issuer bitasset fund = .ok after) :
    SameAssets market after := by
  unfold takeOver at done
  split at done
  · simp only [bind_eq_ok, found_eq_ok, ensure_eq_ok] at done
    obtain ⟨-, -, _, -, executed⟩ := done
    have same := executeBid_same executed
    exact ⟨same.assets, same.bitassets, same.headBlockTime⟩
  · simp only [bind_eq_ok, ensure_eq_ok, pure_eq_ok] at done
    obtain ⟨-, -, rfl⟩ := done
    exact SameAssets.refl _

theorem reviveBitasset_same (done : market.reviveBitasset mia = .ok after) :
    SameTerms market after := by
  simp only [reviveBitasset, bind_eq_ok, found_eq_ok, ensure_eq_ok] at done
  obtain ⟨_, -, _, -, _, -, -, -, _, taken, revived⟩ := done
  exact (takeOver_same taken).sameTerms.trans (cancelBidsAndRevive_same revived)

theorem processBids_same (done : market.processBids mia bitasset settlement = .ok after) :
    SameTerms market after := by
  unfold processBids at done
  split at done
  · cases done
    exact SameTerms.refl _
  · simp only [bind_eq_ok, found_eq_ok, Prod.exists] at done
    obtain ⟨_, -, _, _, -, done⟩ := done
    split at done
    · cases done
      exact SameTerms.refl _
    · simp only [bind_eq_ok] at done
      obtain ⟨_, executed, revived⟩ := done
      exact (executeBids_same executed).sameTerms.trans (cancelBidsAndRevive_same revived)

theorem eventClosed_sameTerms : EventClosed SameTerms where
  refl := SameTerms.refl
  trans := SameTerms.trans
  cancelLimitOrder done := (cancelLimitOrder_same done).sameTerms
  matchLimitOrders done := (matchLimitOrders_same done).sameTerms
  checkCallOrders := marginClosed_sameTerms.checkCallOrders
  globallySettleAsset := globallySettleAsset_same
  payFee paid := (payFee_frame paid).sameAssets.sameTerms
  placeOrder _ _ done := (place_same done).sameTerms
  deferFee market id filled fee := (deferFee_same market id filled fee).sameTerms
  adjustCallOrder _ _ _ done := (adjust_same done).sameTerms
  cancelBid done := (cancelBid_same done).sameTerms
  placeBid _ _ _ done := (placeBid_same done).sameTerms
  settle _ _ done := settle_same done
  cancelSettlement done := (cancelSettlement_same done).sameTerms
  matchSettlement _ done := (matchSettlement_same done).sameTerms
  setVolume _ _ _ := sameTerms_modify _ _ _ fun _ => rfl
  reviveBitasset := reviveBitasset_same
  processBids _ _ done := processBids_same done

end Market

namespace BitassetData

variable {bitasset : BitassetData}

theorem mem_of_median {Value : Type} {before : Value → Value → Bool} {values : List Value}
    {value : Value} (middle : median before values = some value) : value ∈ values := by
  have member := List.mem_of_getElem? middle
  exact List.mem_insertionSort _ |>.mp member

theorem medianFeed_spec {feeds : List PriceFeed} (middle : medianFeed feeds = some feed) :
    (∃ chosen ∈ feeds, chosen.settlementPrice = feed.settlementPrice) ∧
      ∃ chosen ∈ feeds, chosen.maintenanceCollateralRatio = feed.maintenanceCollateralRatio := by
  simp only [medianFeed, Option.bind_eq_bind, Option.bind_eq_some_iff] at middle
  obtain ⟨_, priced, _, rated, _, -, rest⟩ := middle
  cases rest
  exact ⟨List.mem_map.mp (mem_of_median priced), List.mem_map.mp (mem_of_median rated)⟩

@[simp] theorem feeds_updateMedianFeeds :
    (bitasset.updateMedianFeeds now).feeds = bitasset.feeds := by
  unfold updateMedianFeeds
  simp only
  split
  · rfl
  · rfl

@[simp] theorem options_updateMedianFeeds :
    (bitasset.updateMedianFeeds now).options = bitasset.options := by
  unfold updateMedianFeeds
  simp only
  split
  · rfl
  · rfl

@[simp] theorem settlement_updateMedianFeeds :
    (bitasset.updateMedianFeeds now).settlement = bitasset.settlement := by
  unfold updateMedianFeeds
  simp only
  split
  · rfl
  · rfl

theorem updateMedianFeeds_cases (bitasset : BitassetData) (now : Nat) :
    (bitasset.updateMedianFeeds now).currentFeed = PriceFeed.null ∨
      (∃ feed ∈ bitasset.feeds, feed.2.1 ≠ 0 ∧ feed.2.2.settlementPrice =
        (bitasset.updateMedianFeeds now).currentFeed.settlementPrice) ∧
      ∃ feed ∈ bitasset.feeds, feed.2.2.maintenanceCollateralRatio =
        (bitasset.updateMedianFeeds now).currentFeed.maintenanceCollateralRatio := by
  have published : ∀ feed ∈ bitasset.feeds.filter (bitasset.isCurrent now),
      feed ∈ bitasset.feeds ∧ feed.2.1 ≠ 0 := by
    intro feed member
    obtain ⟨stored, current⟩ := List.mem_filter.mp member
    simp only [isCurrent, Bool.and_eq_true, bne_iff_ne] at current
    exact ⟨stored, current.2⟩
  unfold updateMedianFeeds
  simp only
  split
  · exact .inl rfl
  · cases middle : medianFeed ((bitasset.feeds.filter
        (bitasset.isCurrent now)).map fun feed => feed.2.2) with
    | none => exact .inl rfl
    | some median =>
      right
      obtain ⟨⟨_, priced, price⟩, _, rated, ratio⟩ := medianFeed_spec middle
      obtain ⟨feed, current, rfl⟩ := List.mem_map.mp priced
      obtain ⟨other, currentToo, rfl⟩ := List.mem_map.mp rated
      obtain ⟨stored, dated⟩ := published feed current
      exact ⟨⟨feed, stored, dated, price⟩, other, (published other currentToo).1, ratio⟩

end BitassetData

theorem mem_insertFeed (member : feed ∈ insertFeed publisher new feeds) :
    feed = (publisher, new) ∨ feed ∈ feeds := by
  induction feeds with
  | nil =>
    left
    simpa [insertFeed] using member
  | cons head rest induction =>
    unfold insertFeed at member
    split at member
    · simpa using member
    · split at member
      · rcases List.mem_cons.mp member with new | old
        · exact .inl new
        · exact .inr (List.mem_cons_of_mem _ old)
      · rcases List.mem_cons.mp member with first | later
        · exact .inr (by simp [first])
        · rcases induction later with new | old
          · exact .inl new
          · exact .inr (List.mem_cons_of_mem _ old)

theorem AssetUpdateFeedProducers.mem_addProducers (member : feed ∈ addProducers producers feeds) :
    feed ∈ feeds ∨ feed.2 = (0, PriceFeed.null) := by
  induction producers generalizing feeds with
  | nil => exact .inl member
  | cons producer rest induction =>
    unfold addProducers at member
    split at member
    · exact induction member
    · rcases induction member with old | new
      · rcases mem_insertFeed old with added | old
        · exact .inr (by rw [added])
        · exact .inl old
      · exact .inr new

end CocosChain.Chain

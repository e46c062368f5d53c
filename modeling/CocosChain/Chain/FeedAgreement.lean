import CocosChain.Chain.BackingStructure
import CocosChain.Chain.MarketFrames

/-!
# Feeds and collateral

A feed prices a market-issued asset in its backing asset, which is checked
when the feed is published.  The current feed is a median of the feeds that
have been published.  The backing asset may be changed later, as long as there
is no supply; the feeds then agree with it only if none has been published.
-/

namespace CocosChain.Chain

open BitassetData

/-- What may happen to assets and feeds. -/
inductive FeedStep where
  | registry (op : RegistryOperation)
  | market (event : MarketEvent)
  deriving DecidableEq, Repr

/-- The feed is a price of the asset in the backing asset. -/
def PriceFeed.PricedIn (feed : PriceFeed) (mia backing : Nat) : Prop :=
  feed.settlementPrice.base.assetId = mia ∧ feed.settlementPrice.quote.assetId = backing

namespace BitassetData

/-- The current feed, unless it is null, and all feeds that may enter the
median are prices in the backing asset. -/
structure FeedsAgree (bitasset : BitassetData) (mia : Nat) : Prop where
  current : bitasset.currentFeed.settlementPrice.isNull = false →
    bitasset.currentFeed.PricedIn mia bitasset.backing
  stored : ∀ feed ∈ bitasset.feeds, feed.2.1 ≠ 0 → feed.2.2.PricedIn mia bitasset.backing

/-- There is only a current feed if one has been published. -/
def FeedDrawn (bitasset : BitassetData) : Prop :=
  bitasset.currentFeed.settlementPrice.isNull = false → ∃ feed ∈ bitasset.feeds, feed.2.1 ≠ 0

end BitassetData

namespace Market

def performFeedStep (market : Market) : MarketTerms × FeedStep → Outcome Market
  | (terms, .registry op) => market.performRegistry (terms, op)
  | (terms, .market event) => market.perform terms event

def FeedsAgree (market : Market) : Prop :=
  market.bitassets.Forall fun mia bitasset => bitasset.FeedsAgree mia

def FeedsDrawn (market : Market) : Prop :=
  market.bitassets.Forall fun _ bitasset => bitasset.FeedDrawn

/-- A backing asset is only changed while no feed has been published. -/
def KeepsFeeds (market : Market) : MarketTerms × FeedStep → Prop
  | (_, .registry (.updateBitasset op)) => ∀ bitasset,
      market.bitassets.get op.assetToUpdate = some bitasset →
      op.newOptions.shortBackingAsset ≠ bitasset.backing → ∀ feed ∈ bitasset.feeds, feed.2.1 = 0
  | _ => True

end Market

namespace BitassetData

variable {bitasset changed : BitassetData}

theorem updateMedianFeeds_price
    (priced : (bitasset.updateMedianFeeds now).currentFeed.settlementPrice.isNull = false) :
    ∃ feed ∈ bitasset.feeds, feed.2.1 ≠ 0 ∧ feed.2.2.settlementPrice =
      (bitasset.updateMedianFeeds now).currentFeed.settlementPrice := by
  rcases updateMedianFeeds_cases bitasset now with null | ⟨⟨feed, stored, dated, same⟩, -⟩
  · rw [null] at priced
    cases priced
  · exact ⟨feed, stored, dated, same⟩

theorem feedDrawn_updateMedianFeeds : (bitasset.updateMedianFeeds now).FeedDrawn := by
  intro priced
  obtain ⟨feed, stored, dated, -⟩ := updateMedianFeeds_price priced
  exact ⟨feed, by simpa using stored, dated⟩

theorem feedsAgree_updateMedianFeeds
    (stored : ∀ feed ∈ bitasset.feeds, feed.2.1 ≠ 0 → feed.2.2.PricedIn mia bitasset.backing) :
    (bitasset.updateMedianFeeds now).FeedsAgree mia := by
  have backing : (bitasset.updateMedianFeeds now).backing = bitasset.backing := by
    simp [backing]
  constructor
  · intro priced
    obtain ⟨feed, held, dated, same⟩ := updateMedianFeeds_price priced
    have suits := stored feed held dated
    rw [PriceFeed.PricedIn, same] at suits
    rw [backing]
    exact suits
  · intro feed held dated
    rw [backing]
    exact stored feed (by simpa using held) dated

theorem feeds_of_terms (drawn : bitasset.FeedDrawn) (agrees : bitasset.FeedsAgree mia)
    (same : bitasset.terms = changed.terms) : changed.FeedDrawn ∧ changed.FeedsAgree mia := by
  obtain ⟨_, _, current, _, _, _⟩ := bitasset
  obtain ⟨_, _, _, _, _, _⟩ := changed
  simp only [terms, mk.injEq] at same
  obtain ⟨rfl, rfl, rfl, rfl, -⟩ := same
  exact ⟨drawn, agrees.current, agrees.stored⟩

end BitassetData

namespace Market

variable {market : Market} {terms : MarketTerms}

/-- Feeds that agree and are drawn from published ones stay so. -/
def FeedsStay (market after : Market) : Prop :=
  market.FeedsDrawn → market.FeedsAgree → after.FeedsDrawn ∧ after.FeedsAgree

theorem SameTerms.feedsStay (same : SameTerms market after) : FeedsStay market after := by
  intro drawn agree
  have both mia bitasset (held : after.bitassets.get mia = some bitasset) :
      bitasset.FeedDrawn ∧ bitasset.FeedsAgree mia := by
    obtain ⟨old, before, terms⟩ := same.before held
    exact feeds_of_terms (drawn mia old before) (agree mia old before) terms
  exact ⟨fun _ _ held => (both _ _ held).1, fun _ _ held => (both _ _ held).2⟩

theorem feedsStay_modify (changes : ∀ bitasset, market.bitassets.get mia = some bitasset →
      bitasset.FeedsAgree mia → (change bitasset).FeedDrawn ∧ (change
      bitasset).FeedsAgree mia) :
    FeedsStay market { market with
      bitassets := market.bitassets.modify mia change } := by
  intro drawn agree
  constructor
  · apply drawn.modify
    intro bitasset held
    exact (changes bitasset held (agree mia bitasset held)).1
  · apply agree.modify
    intro bitasset held
    exact (changes bitasset held (agree mia bitasset held)).2

variable {op : AssetUpdateBitasset}

theorem feedsAgree_publish {op : AssetPublishFeed} (valid : op.validate = true)
    (evaluated : op.evaluate terms asset bitasset = true)
    (agrees : bitasset.FeedsAgree op.assetId) : (op.change now bitasset).FeedsAgree op.assetId := by
  apply feedsAgree_updateMedianFeeds
  intro feed member dated
  simp only [AssetPublishFeed.validate, PriceFeed.isFor, Bool.and_eq_true,
    Bool.or_eq_true, Bool.not_eq_true', beq_iff_eq] at valid
  simp only [AssetPublishFeed.evaluate, Bool.and_eq_true, beq_iff_eq] at evaluated
  rcases mem_insertFeed member with rfl | old
  · rcases valid.2 with null | base
    · rw [valid.1.2] at null
      cases null
    · exact ⟨base, evaluated.1⟩
  · exact agrees.stored feed old dated

theorem feedClosed_feedsStay : FeedClosed FeedsStay where
  toEventClosed := eventClosed_sameTerms.mono SameTerms.feedsStay fun first second drawn agree =>
      second (first drawn agree).1 (first drawn agree).2
  publishFeed valid held evaluated := by
    apply feedsStay_modify
    intro bitasset here agrees
    rw [held] at here
    cases here
    exact ⟨feedDrawn_updateMedianFeeds, feedsAgree_publish valid evaluated agrees⟩
  updateProducers market op := by
    apply feedsStay_modify
    intro bitasset _ agrees
    refine ⟨feedDrawn_updateMedianFeeds, feedsAgree_updateMedianFeeds ?_⟩
    intro feed member dated
    rcases AssetUpdateFeedProducers.mem_addProducers member with kept | new
    · exact agrees.stored feed (List.mem_of_mem_filter kept) dated
    · rw [new] at dated
      exact absurd rfl dated
  expire market mia := by
    apply feedsStay_modify
    intro bitasset _ agrees
    exact ⟨feedDrawn_updateMedianFeeds, feedsAgree_updateMedianFeeds agrees.stored⟩
  advance _ _ drawn agree := ⟨drawn, agree⟩

theorem SameRegistry.feedsStay (same : SameRegistry market after) : FeedsStay market after := by
  intro drawn agree
  rw [FeedsDrawn, FeedsAgree, same.bitassets]
  exact ⟨drawn, agree⟩

theorem FeedsStay.trans (first : FeedsStay market middle)
    (second : FeedsStay middle after) : FeedsStay market after :=
  fun drawn agree => second (first drawn agree).1 (first drawn agree).2

theorem feedsStay_create {op : AssetCreate} (performed : op.perform terms market = .ok after) :
    FeedsStay market after := by
  simp only [AssetCreate.perform, bind_eq_ok, ensure_eq_ok, pure_eq_ok, Prod.exists] at performed
  obtain ⟨-, -, -, -, created, applied, _, _, payment, rfl⟩ := performed
  apply FeedsStay.trans _ (payFee_frame payment).registry.feedsStay
  obtain ⟨_, -, -, bitassets⟩ := AssetCreate.apply_spec applied
  have holds : ∀ {property : Nat → BitassetData → Prop},
      (∀ options, property market.bitassets.next (AssetCreate.bitasset options)) →
      market.bitassets.Forall property → created.bitassets.Forall property := by
    intro property new every id bitasset held
    rw [bitassets, Table.get_append] at held
    split at held
    · rename_i here
      obtain ⟨options, -, rfl⟩ := Option.map_eq_some_iff.mp held
      rw [here]
      exact new options
    · exact every id bitasset held
  intro drawn agree
  refine ⟨holds ?_ drawn, holds ?_ agree⟩
  · intro options priced
    cases priced
  · intro options
    refine ⟨fun priced => ?_, fun feed member => ?_⟩
    · cases priced
    · cases member

theorem feedsStay_update {op : AssetUpdate} (performed : op.perform terms market = .ok after) :
    FeedsStay market after := by
  simp only [AssetUpdate.perform, bind_eq_ok, ensure_eq_ok, found_eq_ok,
    pure_eq_ok, Prod.exists] at performed
  obtain ⟨-, -, _, -, -, -, middle, cancelled, _, _, payment, rfl⟩ := performed
  apply FeedsStay.trans _ (payFee_frame payment).registry.feedsStay
  have same : SameRegistry market middle := by
    unfold AssetUpdate.cancelDisabled at cancelled
    split at cancelled
    · exact cancelSettlements_registry cancelled
    · cases cancelled
      exact ⟨rfl, rfl⟩
  intro drawn agree
  exact same.feedsStay drawn agree

theorem change_spec (op : AssetUpdateBitasset) (now : Nat) (drawn : bitasset.FeedDrawn) :
    (op.change now bitasset).feeds = bitasset.feeds ∧ (op.change now bitasset).FeedDrawn ∧
      (op.newOptions.shortBackingAsset = bitasset.backing → ∀ mia, bitasset.FeedsAgree mia →
          (op.change now bitasset).FeedsAgree mia) := by
  unfold AssetUpdateBitasset.change
  simp only
  split
  · refine ⟨feeds_updateMedianFeeds, feedDrawn_updateMedianFeeds, fun same mia agrees => ?_⟩
    apply feedsAgree_updateMedianFeeds
    intro feed member dated
    simp only [backing, same]
    exact agrees.stored feed member dated
  · refine ⟨rfl, drawn, fun same mia agrees => ?_⟩
    constructor
    · intro priced
      simp only [backing, same]
      exact agrees.current priced
    · intro feed member dated
      simp only [backing, same]
      exact agrees.stored feed member dated

section

variable (drawn : market.FeedsDrawn)
include drawn

theorem feedsDrawn_updateBitasset (performed : op.perform terms market = .ok after) :
    after.FeedsDrawn := by
  obtain ⟨-, -, -, bitassets⟩ := AssetUpdateBitasset.perform_spec performed
  rw [FeedsDrawn, bitassets]
  apply drawn.modify
  intro bitasset held
  exact (change_spec op _ (drawn _ bitasset held)).2.1

/-- Whether the feeds agree after a change of options is decided by the feeds
that have been published before it. -/
theorem feedsAgree_updateBitasset (agree : market.FeedsAgree)
    (performed : op.perform terms market = .ok after) :
    after.FeedsAgree ↔ market.KeepsFeeds (terms, .registry (.updateBitasset op)) := by
  obtain ⟨-, -, -, bitassets⟩ := AssetUpdateBitasset.perform_spec performed
  constructor
  · intro agreeAfter bitasset held changes feed member
    by_contra dated
    obtain ⟨feeds, -⟩ := change_spec op market.headBlockTime (drawn _ bitasset held)
    have held' : after.bitassets.get op.assetToUpdate =
        some (op.change market.headBlockTime bitasset) := by
      rw [bitassets, Table.get_modify, if_pos rfl, held]
      rfl
    have before := (agree _ bitasset held).stored feed member dated
    have later := (agreeAfter _ _ held').stored feed (by rw [feeds]; exact member) dated
    rw [AssetUpdateBitasset.backing_change] at later
    exact changes (later.2.symm.trans before.2)
  · intro keeps
    rw [FeedsAgree, bitassets]
    apply agree.modify
    intro bitasset held
    obtain ⟨feeds, drawnAfter, agrees⟩ := change_spec op
      market.headBlockTime (drawn _ bitasset held)
    by_cases same : op.newOptions.shortBackingAsset = bitasset.backing
    · exact agrees same _ (agree _ bitasset held)
    · have undated := keeps bitasset held same
      constructor
      · intro priced
        obtain ⟨feed, member, dated⟩ := drawnAfter priced
        rw [feeds] at member
        exact absurd (undated feed member) dated
      · intro feed member dated
        rw [feeds] at member
        exact absurd (undated feed member) dated

theorem feedsDrawn_performFeedStep (agree : market.FeedsAgree)
    (performed : market.performFeedStep step = .ok after) : after.FeedsDrawn := by
  obtain ⟨_, (_ | _ | _) | _⟩ := step
  · exact (feedsStay_create performed drawn agree).1
  · exact (feedsStay_update performed drawn agree).1
  · exact feedsDrawn_updateBitasset drawn performed
  · exact (feedClosed_feedsStay.perform performed drawn agree).1

theorem feedsAgree_performFeedStep (agree : market.FeedsAgree)
    (performed : market.performFeedStep step = .ok after) :
    after.FeedsAgree ↔ market.KeepsFeeds step := by
  obtain ⟨_, (_ | _ | _) | _⟩ := step
  · exact iff_of_true (feedsStay_create performed drawn agree).2 trivial
  · exact iff_of_true (feedsStay_update performed drawn agree).2 trivial
  · exact feedsAgree_updateBitasset drawn agree performed
  · exact iff_of_true (feedClosed_feedsStay.perform performed drawn agree).2 trivial

end

/-- Feeds agree with the backing assets throughout a run exactly if backing
assets are only changed while no feed has been published. -/
theorem feeds_agree_throughout (market : Market) (steps : List (MarketTerms × FeedStep))
    (drawn : market.FeedsDrawn) (agree : market.FeedsAgree) :
    FallibleRun.Throughout performFeedStep FeedsAgree market steps ↔
      FallibleRun.Meets performFeedStep KeepsFeeds market steps := by
  have keeps : ∀ state step next, FeedsDrawn state → FeedsAgree state →
      performFeedStep state step = .ok next → FeedsDrawn next :=
    fun _ _ _ drawn agree => feedsDrawn_performFeedStep drawn agree
  have exactly : ∀ state step next, FeedsDrawn state → FeedsAgree state →
      performFeedStep state step = .ok next → (FeedsAgree next ↔ KeepsFeeds state step) :=
    fun _ _ _ drawn agree => feedsAgree_performFeedStep drawn agree
  exact FallibleRun.throughout_iff_of_step keeps exactly drawn agree

theorem no_bitassets_genesis (id : Nat) : genesis.bitassets.get id = none := by
  have absent := backingOf_genesis id
  simpa [backingOf] using absent

/-- Account `9` prices asset `2`: ten of it for one of the core asset. -/
def firstFeed : AssetPublishFeed where
  publisher := 9
  assetId := 2
  feed := ⟨⟨⟨10, 2⟩, ⟨1, assetCore⟩⟩, 1750, 1500⟩

/-- Asset `2` is created, and account `9` publishes a feed for it. -/
def pricedAsset : List (MarketTerms × FeedStep) :=
  [(MarketTerms.free, .registry (.create (newBitasset assetCore))),
    (MarketTerms.free, .market (.assetUpdateFeedProducers ⟨7, 2, [9]⟩)),
    (MarketTerms.free, .market (.assetPublishFeed firstFeed))]

theorem feeds_agree_throughout_pricing : FallibleRun.Throughout performFeedStep FeedsAgree genesis
      pricedAsset := by
  apply (feeds_agree_throughout genesis pricedAsset
    (fun id _ held => by simp [no_bitassets_genesis] at held)
    (fun id _ held => by simp [no_bitassets_genesis] at held)).mpr
  intro created _
  refine ⟨trivial, fun fed _ => ⟨trivial, fun priced _ => ?_⟩⟩
  exact ⟨trivial, trivial⟩

/-- After a change of the backing asset the current feed still prices the
asset in the old one. -/
theorem feed_in_old_backing : ∃ final bitasset, FallibleRun.run performFeedStep genesis
        (pricedAsset ++ [(MarketTerms.free,
          .registry (.updateBitasset (changeBacking assetGas)))]) =
        .ok final ∧
      final.bitassets.get 2 = some bitasset ∧
      bitasset.backing = assetGas ∧
      bitasset.currentFeed.settlementPrice.isNull = false ∧
      bitasset.currentFeed.settlementPrice.quote.assetId = assetCore ∧
      ¬ final.FeedsAgree := by
  refine ⟨_, _, rfl, rfl, by decide +kernel, by decide +kernel, by decide +kernel, ?_⟩
  intro agree
  have priced := ((agree 2 _ rfl).current (by decide +kernel)).2
  exact absurd priced (by decide +kernel)

end Market

end CocosChain.Chain

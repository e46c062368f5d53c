import CocosChain.Chain.AssetOperations
import CocosChain.Library.FallibleRun

/-!
# The structure of backing assets

A market-issued asset is backed by another asset, which may itself be
market-issued, but then not by an asset that is backed again.  An asset of the
committee is backed by the core asset in the end.  Creating an asset and
handing it over to another issuer keep this; changing the backing asset keeps
it only if the new backing asset suits the asset and those that it backs.
-/

namespace CocosChain.Chain

/-- The operations that may touch the backing of assets. -/
inductive RegistryOperation where
  | create (op : AssetCreate)
  | update (op : AssetUpdate)
  | updateBitasset (op : AssetUpdateBitasset)
  deriving DecidableEq, Repr

namespace Market

def performRegistry (market : Market) : MarketTerms × RegistryOperation → Outcome Market
  | (terms, .create op) => op.perform terms market
  | (terms, .update op) => op.perform terms market
  | (terms, .updateBitasset op) => op.perform terms market

/-- The asset in which a chain of backing assets ends, if it does so at once
or after one more step. -/
def lastFrom (market : Market) (backing : Nat) : Option Nat :=
  match market.backingOf backing with
  | none => some backing
  | some second => if market.isMarketIssued second then none else some second

/-- Every market-issued asset is an asset. -/
structure Registered (market : Market) : Prop where
  aligned : market.assets.next = market.bitassets.next
  listed : ∀ id, market.isMarketIssued id = true → (market.assets.get id).isSome = true

/-- The asset is not backed by itself, and the chain of its backing assets
ends after at most two steps in an asset that is not market-issued; for the
committee, in the core asset. -/
def WellBacked (market : Market) (id : Nat) (issuer : AccountId) (backing : Nat) : Prop :=
  backing ≠ id ∧ ∃ last, market.lastFrom backing = some last ∧
    (market.assets.get last).isSome = true ∧
    (issuer = committeeAccount → last = assetCore)

def BackingStructure (market : Market) : Prop :=
  ∀ id asset backing, market.assets.get id = some asset → market.backingOf id = some backing →
      market.WellBacked id asset.issuer backing

/-- The new backing asset suits the asset, and every asset that is backed by
the asset. -/
def BackingSuits (market : Market) (op : AssetUpdateBitasset) : Prop :=
  op.newOptions.shortBackingAsset ≠ op.assetToUpdate ∧
    (∀ asset, market.assets.get op.assetToUpdate = some asset →
      ∃ last, market.lastFrom op.newOptions.shortBackingAsset = some last ∧
        (asset.issuer = committeeAccount → last = assetCore)) ∧
    ∀ other asset, market.assets.get other = some asset →
      market.backingOf other = some op.assetToUpdate →
        market.backingOf op.newOptions.shortBackingAsset = none ∧
          (asset.issuer = committeeAccount → op.newOptions.shortBackingAsset = assetCore)

/-- A change of the backing asset suits; other operations always do. -/
def KeepsBacking (market : Market) : MarketTerms × RegistryOperation → Prop
  | (_, .create _) => True
  | (_, .update _) => True
  | (_, .updateBitasset op) =>
      market.backingOf op.assetToUpdate = some op.newOptions.shortBackingAsset ∨
        market.BackingSuits op

variable {market after : Market}

variable {id : Nat}

theorem isMarketIssued_of_backed (backed : market.backingOf id = some backing) :
    market.isMarketIssued id = true := by
  rw [isMarketIssued_eq, backed]
  rfl

/-- A chain ends where nothing backs, at the asset itself or at the next one. -/
theorem lastFrom_eq_some : market.lastFrom backing = some last ↔
    market.backingOf last = none ∧ (backing = last ∨ market.backingOf backing = some last) := by
  unfold lastFrom
  cases next : market.backingOf backing with
  | none => grind
  | some second =>
    simp only [isMarketIssued_eq, Option.isSome_iff_ne_none]
    grind

theorem lastFrom_congr (same : after.backingOf backing = market.backingOf backing)
    (kinds : ∀ second, market.backingOf backing = some second →
      after.isMarketIssued second = market.isMarketIssued second) :
    after.lastFrom backing = market.lastFrom backing := by
  unfold lastFrom
  rw [same]
  cases next : market.backingOf backing with
  | none => rfl
  | some second => simp only [kinds second next]

theorem backingStructure_congr (assets : after.assets = market.assets)
    (backings : after.backingOf = market.backingOf) :
    BackingStructure after ↔ BackingStructure market := by
  have ends : after.lastFrom = market.lastFrom := by
    funext backing
    apply lastFrom_congr
    · rw [backings]
    · intro second _
      rw [isMarketIssued_eq, isMarketIssued_eq, backings]
  simp only [BackingStructure, WellBacked, backings, ends, assets]

section SameRegistry

structure SameRegistry (market other : Market) : Prop where
  assets : other.assets = market.assets
  bitassets : other.bitassets = market.bitassets

theorem SameButFees.registry (same : SameButFees market other) : SameRegistry market other := by
  rw [same]
  exact ⟨rfl, rfl⟩

theorem SameRegistry.trans (first : SameRegistry market other)
    (second : SameRegistry other third) : SameRegistry market third :=
  ⟨second.assets.trans first.assets, second.bitassets.trans first.bitassets⟩

theorem SameRegistry.registered (same : SameRegistry market other) :
    Registered other ↔ Registered market := by
  constructor
  · rintro ⟨aligned, listed⟩
    refine ⟨?_, ?_⟩
    · rw [← same.assets, ← same.bitassets, aligned]
    · simpa [isMarketIssued, same.assets, same.bitassets] using listed
  · rintro ⟨aligned, listed⟩
    refine ⟨?_, ?_⟩
    · rw [same.assets, same.bitassets, aligned]
    · simpa [isMarketIssued, same.assets, same.bitassets] using listed

theorem SameRegistry.backingOf (same : SameRegistry market other) :
    other.backingOf = market.backingOf := by
  funext id
  rw [Market.backingOf, same.bitassets]
  rfl

theorem SameRegistry.backingStructure (same : SameRegistry market other) :
    BackingStructure other ↔ BackingStructure market :=
  backingStructure_congr same.assets same.backingOf

end SameRegistry

theorem lt_next_of_asset (listed : (market.assets.get id).isSome = true) :
    id < market.assets.next := by
  obtain ⟨_, held⟩ := Option.isSome_iff_exists.mp listed
  exact Table.lt_next held

theorem BackingStructure.backing_lt (sound : BackingStructure market)
    (registered : Registered market) (backed : market.backingOf id = some backing) :
    backing < market.assets.next := by
  obtain ⟨asset, held⟩ := Option.isSome_iff_exists.mp
    (registered.listed id (isMarketIssued_of_backed backed))
  obtain ⟨-, _, chain, exists_last, -⟩ := sound id asset backing held backed
  rcases (lastFrom_eq_some.mp chain).2 with rfl | further
  · exact lt_next_of_asset exists_last
  · exact lt_next_of_asset (registered.listed backing (isMarketIssued_of_backed further))

theorem BackingStructure.last_listed (sound : BackingStructure market)
    (listed : (market.assets.get backing).isSome = true)
    (chain : market.lastFrom backing = some last) : (market.assets.get last).isSome = true := by
  obtain ⟨plain, rfl | backed⟩ := lastFrom_eq_some.mp chain
  · exact listed
  · obtain ⟨asset, held⟩ := Option.isSome_iff_exists.mp listed
    obtain ⟨-, _, further, exists_final, -⟩ := sound backing asset last held backed
    rcases (lastFrom_eq_some.mp further).2 with rfl | more
    · exact exists_final
    · rw [plain] at more
      cases more

end Market

namespace AssetCreate

open Market

variable {market : Market} {op : AssetCreate}

theorem apply_spec (applied : op.apply market = .ok after) :
    ∃ object, object.issuer = op.issuer ∧ after.assets = market.assets.create object ∧
      after.bitassets = market.bitassets.append (op.bitassetOpts.map bitasset) := by
  simp only [apply, bind_eq_ok, ensure_eq_ok, pure_eq_ok] at applied
  obtain ⟨-, -, rfl⟩ := applied
  exact ⟨_, rfl, rfl, rfl⟩

theorem backingOf_apply (registered : Registered market)
    (applied : op.apply market = .ok after) (id : Nat) :
    after.backingOf id = if id = market.assets.next then
        op.bitassetOpts.map BitassetOptions.shortBackingAsset
      else market.backingOf id := by
  obtain ⟨_, -, -, bitassets⟩ := apply_spec applied
  rw [backingOf, bitassets, Table.get_append, registered.aligned]
  by_cases new : id = market.bitassets.next
  · simp only [new, if_true, Option.map_map]
    rfl
  · simp only [new, if_false]
    rfl

theorem lastFrom_apply (registered : Registered market) (sound : BackingStructure market)
    (applied : op.apply market = .ok after) (old : backing < market.assets.next) :
    after.lastFrom backing = market.lastFrom backing := by
  apply lastFrom_congr
  · rw [backingOf_apply registered applied, if_neg old.ne]
  · intro second next
    have older : second < market.assets.next := sound.backing_lt registered next
    rw [isMarketIssued_eq, isMarketIssued_eq, backingOf_apply registered applied, if_neg older.ne]

theorem registered_apply (registered : Registered market)
    (applied : op.apply market = .ok after) : Registered after := by
  obtain ⟨_, -, assets, bitassets⟩ := apply_spec applied
  constructor
  · rw [assets, bitassets]
    show market.assets.next + 1 = market.bitassets.next + 1
    rw [registered.aligned]
  · intro id issued
    rw [assets, Table.get_create]
    by_cases new : id = market.assets.next
    · simp [new]
    · rw [isMarketIssued_eq, backingOf_apply registered applied, if_neg new,
        ← isMarketIssued_eq] at issued
      simpa [new] using registered.listed id issued

/-- The check at the creation is about the whole chain. -/
theorem wellBacked_of_admitted (listed : (market.assets.get backing).isSome = true)
    (admitted : market.backingAdmitted op.issuer backing = true) :
    ∃ last, market.lastFrom backing = some last ∧ (market.assets.get last).isSome = true ∧
      (op.issuer = committeeAccount → last = assetCore) := by
  unfold backingAdmitted at admitted
  cases next : market.backingOf backing with
  | none =>
    refine ⟨backing, lastFrom_eq_some.mpr ⟨next, .inl rfl⟩, listed, ?_⟩
    intro committee
    simpa [next, committee] using admitted
  | some second =>
    simp only [next, Bool.and_eq_true, Bool.not_eq_true', Bool.or_eq_true] at admitted
    obtain ⟨⟨exists_second, plain⟩, core⟩ := admitted
    have unbacked : market.backingOf second = none := by
      simpa [isMarketIssued_eq] using plain
    refine ⟨second, lastFrom_eq_some.mpr ⟨unbacked, .inr next⟩, exists_second, ?_⟩
    intro committee
    simpa [committee] using core

theorem backingStructure_apply (registered : Registered market) (sound : BackingStructure market)
    (evaluated : op.evaluate terms market = true)
    (applied : op.apply market = .ok after) : BackingStructure after := by
  obtain ⟨_, issuer, assets, _⟩ := apply_spec applied
  have stays : ∀ id, (market.assets.get id).isSome = true →
      (after.assets.get id).isSome = true := by
    intro id listed
    have old := lt_next_of_asset listed
    rw [assets, Table.get_create, if_neg old.ne]
    exact listed
  intro id asset backing held backed
  rw [assets, Table.get_create] at held
  rw [backingOf_apply registered applied] at backed
  by_cases new : id = market.assets.next
  · rw [if_pos new] at held backed
    cases held
    obtain ⟨_, chosen, rfl⟩ := Option.map_eq_some_iff.mp backed
    simp only [evaluate, chosen, Option.all_some, Bool.and_eq_true] at evaluated
    obtain ⟨-, ⟨⟨listed, admitted⟩, -⟩, -⟩ := evaluated
    have old := lt_next_of_asset listed
    obtain ⟨last, chain, exists_last, core⟩ := wellBacked_of_admitted listed admitted
    refine ⟨by omega, last, ?_, stays last exists_last, ?_⟩
    · rw [lastFrom_apply registered sound applied old, chain]
    · intro committee
      exact core (issuer.symm.trans committee)
  · rw [if_neg new] at held backed
    obtain ⟨different, last, chain, exists_last, core⟩ := sound id asset backing held backed
    have old := sound.backing_lt registered backed
    refine ⟨different, last, ?_, stays last exists_last, core⟩
    rw [lastFrom_apply registered sound applied old, chain]

theorem perform_keeps (registered : Registered market) (sound : BackingStructure market)
    (performed : op.perform terms market = .ok after) :
    Registered after ∧ BackingStructure after := by
  simp only [perform, bind_eq_ok, ensure_eq_ok, pure_eq_ok, Prod.exists] at performed
  obtain ⟨-, -, -, evaluated, _, applied, _, _, payment, rfl⟩ := performed
  have unpaid := (payFee_frame payment).registry
  rw [unpaid.registered, unpaid.backingStructure]
  exact ⟨registered_apply registered applied,
    backingStructure_apply registered sound evaluated applied⟩

end AssetCreate

namespace Market

theorem cancelSettlement_registry {id : Nat} (cancelled : market.cancelSettlement id = .ok after) :
    SameRegistry market after := by
  simp only [cancelSettlement, bind_eq_ok, found_eq_ok, pure_eq_ok] at cancelled
  obtain ⟨_, -, _, adjusted, rfl⟩ := cancelled
  obtain ⟨_, -, rfl⟩ := adjustBalance_eq_ok.mp adjusted
  exact ⟨rfl, rfl⟩

theorem cancelSettlements_registry (cancelled : cancelSettlements ids market = .ok after) :
    SameRegistry market after := by
  induction ids generalizing market with
  | nil =>
    cases cancelled
    exact ⟨rfl, rfl⟩
  | cons id rest induction =>
    obtain ⟨_, first, later⟩ := bind_eq_ok.mp cancelled
    exact (cancelSettlement_registry first).trans (induction later)

theorem backingStructure_modify (sound : BackingStructure market) {id : Nat}
    (core : ∀ asset backing, market.assets.get id = some asset →
      market.backingOf id = some backing → (change asset).issuer =
      committeeAccount → asset.issuer = committeeAccount ∨ market.backedByCore
      backing = true) :
    BackingStructure { market with assets := market.assets.modify id change } := by
  have stays : ∀ other, ((market.assets.modify id change).get other).isSome =
      (market.assets.get other).isSome := by
    intro other
    rw [Table.get_modify]
    by_cases same : other = id
    · simp [same]
    · simp [same]
  intro other asset backing held backed
  rw [Table.get_modify] at held
  by_cases same : other = id
  · subst same
    rw [if_pos rfl] at held
    obtain ⟨before, listed, rfl⟩ := Option.map_eq_some_iff.mp held
    obtain ⟨different, last, chain, exists_last, old⟩ := sound other before backing listed backed
    refine ⟨different, last, chain, (stays last).trans exists_last, ?_⟩
    intro committee
    rcases core before backing listed backed committee with was | checked
    · exact old was
    · unfold backedByCore at checked
      obtain ⟨plain, rfl | next⟩ := lastFrom_eq_some.mp chain
      · simpa [plain] using checked
      · simpa [next] using checked
  · rw [if_neg same] at held
    obtain ⟨different, last, chain, exists_last, old⟩ := sound other asset backing held backed
    exact ⟨different, last, chain, (stays last).trans exists_last, old⟩

theorem registered_modify (registered : Registered market) {id : Nat} :
    Registered { market with assets := market.assets.modify id change } := by
  refine ⟨registered.aligned, ?_⟩
  intro other issued
  have listed := registered.listed other issued
  rw [Table.get_modify]
  by_cases same : other = id
  · subst same
    simpa using listed
  · simpa [same] using listed

end Market

namespace AssetUpdate

open Market

variable {op : AssetUpdate}

theorem perform_keeps (registered : Registered market) (sound : BackingStructure market)
    (performed : op.perform terms market = .ok after) :
    Registered after ∧ BackingStructure after := by
  simp only [perform, bind_eq_ok, ensure_eq_ok, found_eq_ok, pure_eq_ok, Prod.exists] at performed
  obtain ⟨-, -, _, held, -, evaluated, middle, cancelled, _, _, payment, rfl⟩ := performed
  have same : SameRegistry market middle := by
    unfold cancelDisabled at cancelled
    split at cancelled
    · exact cancelSettlements_registry cancelled
    · cases cancelled
      exact ⟨rfl, rfl⟩
  have unpaid := (payFee_frame payment).registry
  rw [unpaid.registered, unpaid.backingStructure]
  refine ⟨registered_modify (same.registered.mpr registered), ?_⟩
  apply backingStructure_modify (same.backingStructure.mpr sound)
  intro before backing listed backed committee
  rw [same.assets, held] at listed
  cases listed
  rw [same.backingOf] at backed
  simp only [evaluate, Bool.and_eq_true] at evaluated
  obtain ⟨⟨⟨⟨-, admitted⟩, -⟩, -⟩, -⟩ := evaluated
  cases chosen : op.newIssuer with
  | none =>
    left
    simpa [chosen] using committee
  | some newIssuer =>
    right
    have taken : newIssuer = committeeAccount := by
      simpa [chosen] using committee
    simp only [newIssuerAdmitted, chosen, taken, backed, Option.all_some,
      bne_self_eq_false, Bool.false_or, Bool.and_eq_true] at admitted
    rw [backedByCore, same.backingOf]
    exact admitted.2

end AssetUpdate

namespace AssetUpdateBitasset

open Market

variable {op : AssetUpdateBitasset}

theorem backing_change (now : Nat) (bitasset : BitassetData) :
    (op.change now bitasset).backing = op.newOptions.shortBackingAsset := by
  unfold change
  split
  · unfold BitassetData.updateMedianFeeds
    simp only
    split
    · rfl
    · rfl
  · rfl

variable (performed : op.perform terms market = .ok after)
include performed

theorem perform_spec : (∃ backing, market.backingOf op.assetToUpdate = some backing) ∧
      (market.backingOf op.assetToUpdate ≠ some op.newOptions.shortBackingAsset →
        (market.assets.get op.newOptions.shortBackingAsset).isSome = true) ∧
      after.assets = market.assets ∧
      after.bitassets = market.bitassets.modify op.assetToUpdate
        (op.change market.headBlockTime) := by
  simp only [perform, bind_eq_ok, ensure_eq_ok, found_eq_ok, pure_eq_ok, Prod.exists] at performed
  obtain ⟨-, -, _, _, bitasset, data, -, evaluated, _, _, payment, rfl⟩ := performed
  have unpaid := (payFee_frame payment).registry
  have backed : market.backingOf op.assetToUpdate = some bitasset.backing := by
    simp [backingOf, data]
  refine ⟨⟨_, backed⟩, ?_, unpaid.assets, unpaid.bitassets⟩
  intro different
  rw [backed] at different
  simp only [evaluate, backingChangeAdmitted, Bool.and_eq_true,
    Bool.or_eq_true, beq_iff_eq] at evaluated
  obtain ⟨⟨-, unchanged | ⟨⟨-, listed⟩, -⟩⟩, -⟩ := evaluated
  · exact absurd (congrArg some unchanged.symm) different
  · exact listed

theorem backingOf_perform (id : Nat) : after.backingOf id =
      if id = op.assetToUpdate then some op.newOptions.shortBackingAsset
      else market.backingOf id := by
  obtain ⟨⟨_, backed⟩, -, -, bitassets⟩ := perform_spec performed
  obtain ⟨_, data, -⟩ := Option.map_eq_some_iff.mp backed
  rw [backingOf, bitassets, Table.get_modify]
  by_cases same : id = op.assetToUpdate
  · simp [same, data, backing_change]
  · simp [same, backingOf]

theorem isMarketIssued_perform (id : Nat) : after.isMarketIssued id = market.isMarketIssued id := by
  obtain ⟨⟨_, backed⟩, -⟩ := perform_spec performed
  rw [isMarketIssued_eq, isMarketIssued_eq, backingOf_perform performed]
  by_cases same : id = op.assetToUpdate
  · simp [same, backed]
  · simp [same]

theorem registered_perform (registered : Registered market) : Registered after := by
  obtain ⟨-, -, assets, bitassets⟩ := perform_spec performed
  constructor
  · rw [assets, bitassets]
    exact registered.aligned
  · intro id issued
    rw [isMarketIssued_perform performed] at issued
    rw [assets]
    exact registered.listed id issued

/-- Only the chains through the asset change. -/
theorem lastFrom_perform (other : backing ≠ op.assetToUpdate) :
    after.lastFrom backing = market.lastFrom backing := by
  apply lastFrom_congr
  · rw [backingOf_perform performed, if_neg other]
  · exact fun second _ => isMarketIssued_perform performed second

theorem suits_of_structure (registered : Registered market) (before : BackingStructure market)
    (sound : BackingStructure after) : market.BackingSuits op := by
  obtain ⟨⟨_, backed⟩, -, assets, -⟩ := perform_spec performed
  have backedAfter : after.backingOf op.assetToUpdate = some op.newOptions.shortBackingAsset := by
    rw [backingOf_perform performed, if_pos rfl]
  obtain ⟨asset, held⟩ := Option.isSome_iff_exists.mp
    (registered.listed _ (isMarketIssued_of_backed backed))
  obtain ⟨different, last, chain, -, core⟩ := sound _ asset _
    (by rw [assets]; exact held) backedAfter
  refine ⟨different, ?_, ?_⟩
  · intro same listed
    rw [held] at listed
    cases listed
    rw [lastFrom_perform performed different] at chain
    exact ⟨last, chain, core⟩
  · intro other holder listed throughAsset
    have elsewhere : other ≠ op.assetToUpdate := by
      rintro rfl
      exact (before _ holder _ listed throughAsset).1 rfl
    have backedOther : after.backingOf other = some op.assetToUpdate := by
      rw [backingOf_perform performed, if_neg elsewhere, throughAsset]
    obtain ⟨-, _, further, -, ends⟩ := sound other holder _
      (by rw [assets]; exact listed) backedOther
    obtain ⟨plain, rfl | next⟩ := lastFrom_eq_some.mp further
    · rw [backedAfter] at plain
      cases plain
    · cases backedAfter.symm.trans next
      refine ⟨?_, ends⟩
      rwa [backingOf_perform performed, if_neg different] at plain

theorem structure_of_suits (before : BackingStructure market)
    (listed : (market.assets.get op.newOptions.shortBackingAsset).isSome = true)
    (suits : market.BackingSuits op) : BackingStructure after := by
  obtain ⟨-, -, assets, -⟩ := perform_spec performed
  obtain ⟨different, own, others⟩ := suits
  intro id asset backing held backed
  rw [assets] at held
  rw [backingOf_perform performed] at backed
  by_cases same : id = op.assetToUpdate
  · subst same
    rw [if_pos rfl] at backed
    cases backed
    obtain ⟨last, chain, core⟩ := own asset held
    refine ⟨different, last, ?_, ?_, core⟩
    · rw [lastFrom_perform performed different, chain]
    · rw [assets]
      exact before.last_listed listed chain
  · rw [if_neg same] at backed
    by_cases through : backing = op.assetToUpdate
    · subst through
      obtain ⟨plain, core⟩ := others id asset held backed
      refine ⟨Ne.symm same, op.newOptions.shortBackingAsset, lastFrom_eq_some.mpr ⟨?_, .inr ?_⟩,
        ?_, core⟩
      · rw [backingOf_perform performed, if_neg different, plain]
      · rw [backingOf_perform performed, if_pos rfl]
      · rw [assets]
        exact listed
    · obtain ⟨apart, last, chain, exists_last, core⟩ :=
        before id asset backing held backed
      refine ⟨apart, last, ?_, ?_, core⟩
      · rw [lastFrom_perform performed through, chain]
      · rw [assets]
        exact exists_last

theorem structure_of_same (before : BackingStructure market)
    (same : market.backingOf op.assetToUpdate = some op.newOptions.shortBackingAsset) :
    BackingStructure after := by
  obtain ⟨-, -, assets, -⟩ := perform_spec performed
  refine (backingStructure_congr assets ?_).mpr before
  funext id
  rw [backingOf_perform performed]
  by_cases here : id = op.assetToUpdate
  · rw [if_pos here, here, same]
  · rw [if_neg here]

end AssetUpdateBitasset

namespace Market

theorem registered_performRegistry (registered : Registered market)
    (before : BackingStructure market) (performed : market.performRegistry step = .ok after) :
    Registered after := by
  obtain ⟨_, operation⟩ := step
  cases operation with
  | create op => exact (AssetCreate.perform_keeps registered before performed).1
  | update op => exact (AssetUpdate.perform_keeps registered before performed).1
  | updateBitasset op =>
    exact AssetUpdateBitasset.registered_perform performed registered

/-- One operation keeps the structure exactly if a change of a backing asset
suits. -/
theorem backingStructure_performRegistry (registered : Registered market)
    (before : BackingStructure market) (performed : market.performRegistry step = .ok after) :
    BackingStructure after ↔ market.KeepsBacking step := by
  obtain ⟨_, operation⟩ := step
  cases operation with
  | create op =>
    exact ⟨fun _ => trivial, fun _ =>
      (AssetCreate.perform_keeps registered before performed).2⟩
  | update op =>
    exact ⟨fun _ => trivial, fun _ =>
      (AssetUpdate.perform_keeps registered before performed).2⟩
  | updateBitasset op =>
    constructor
    · intro sound
      exact .inr (AssetUpdateBitasset.suits_of_structure performed registered before sound)
    · intro keeps
      by_cases same : market.backingOf op.assetToUpdate = some op.newOptions.shortBackingAsset
      · exact AssetUpdateBitasset.structure_of_same performed before same
      · have listed :=
          (AssetUpdateBitasset.perform_spec performed).2.1 same
        have suits : market.BackingSuits op := keeps.resolve_left same
        exact AssetUpdateBitasset.structure_of_suits performed before listed suits

/-- Along every sequence of creations, updates and changes of bitasset options
that go through, the structure holds in all states exactly if every change of
a backing asset suits. -/
theorem backing_structure_throughout (market : Market)
    (operations : List (MarketTerms × RegistryOperation))
    (registered : Registered market) (start : BackingStructure market) :
    FallibleRun.Throughout performRegistry BackingStructure market operations ↔
      FallibleRun.Meets performRegistry KeepsBacking market operations := by
  apply FallibleRun.throughout_iff_of_step
  · intro state step next sound before performed
    exact registered_performRegistry sound before performed
  · intro state step next sound before performed
    exact backingStructure_performRegistry sound before performed
  · exact registered
  · exact start

theorem backingOf_genesis (id : Nat) : genesis.backingOf id = none := by
  by_cases first : id = 1
  · subst first
    rfl
  · by_cases second : id = 0
    · subst second
      rfl
    · simp [backingOf, genesis, first, second, Table.append, Table.empty]

theorem registered_genesis : Registered genesis := by
  refine ⟨rfl, fun id issued => ?_⟩
  simp [isMarketIssued_eq, backingOf_genesis] at issued

theorem backingStructure_genesis : BackingStructure genesis := by
  intro id asset backing _ backed
  simp [backingOf_genesis] at backed

/-- A market-issued asset of account `7`. -/
def newBitasset (backing : Nat) : AssetCreate where
  issuer := 7
  precision := 5
  commonOptions := ⟨1000000, 0, 0, 0, 0, none⟩
  bitassetOpts := some ⟨86400, 1, 86400, 0, 2000, backing⟩

/-- Account `7` changes the backing asset of asset `2`. -/
def changeBacking (backing : Nat) : AssetUpdateBitasset where
  issuer := 7
  assetToUpdate := 2
  newOptions := ⟨86400, 1, 86400, 0, 2000, backing⟩

theorem backing_structure_throughout_change :
    FallibleRun.Throughout performRegistry BackingStructure genesis
      [(MarketTerms.free, .create (newBitasset assetCore)),
        (MarketTerms.free, .updateBitasset (changeBacking assetGas))] := by
  apply (backing_structure_throughout genesis _ registered_genesis backingStructure_genesis).mpr
  intro created creation
  refine ⟨trivial, fun changed change => ⟨.inr ?_, trivial⟩⟩
  cases creation
  refine ⟨by decide, ?_, ?_⟩
  · intro asset held
    cases held
    exact ⟨assetGas, rfl, by decide⟩
  · intro other asset _ backed
    by_cases new : other = 2
    · subst new
      cases backed
    · have second : genesis.bitassets.next = 2 := rfl
      have updated : (changeBacking assetGas).assetToUpdate = 2 := rfl
      have old : genesis.backingOf other = some 2 := by
        simpa [backingOf, Table.append, second, updated, new] using backed
      simp [backingOf_genesis] at old

/-- An asset may be given itself as the backing asset. -/
theorem asset_backed_by_itself : ∃ final, FallibleRun.run performRegistry genesis
        [(MarketTerms.free, .create (newBitasset assetCore)),
          (MarketTerms.free, .updateBitasset (changeBacking 2))] =
        .ok final ∧
      final.backingOf 2 = some 2 ∧ ¬ BackingStructure final := by
  refine ⟨_, rfl, rfl, ?_⟩
  intro sound
  exact (sound 2 _ 2 rfl rfl).1 rfl

end Market

end CocosChain.Chain

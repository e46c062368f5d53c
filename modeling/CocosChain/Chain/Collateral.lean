import CocosChain.Chain.DebtSupply
import CocosChain.Chain.FeedAgreement

/-!
# Every call order has collateral

A margin call may take the last collateral of a call order and leave some of
its debt, because amounts are rounded down.  Such an order is still the first
of its asset, so the check for a black swan that follows every margin call
sees it.
-/

namespace CocosChain.Chain

namespace Market

def Collateralized (market : Market) : Prop :=
  market.callOrders.Forall fun _ call => 0 < call.collateral

/-- At most the first call order of the asset has no collateral left. -/
def OnlyFirstBare (market : Market) (backing mia : Nat) : Prop :=
  market.callOrders.Forall fun id call => 0 < call.collateral ∨
    (call.debtType = mia ∧ ∀ row ∈ market.callRange backing mia, callKey (id, call) ≤ callKey row)

variable {market : Market} {bitasset : BitassetData}

theorem highestBid_sameMarket (agree : bitasset.FeedsAgree mia)
    (fed : bitasset.currentFeed.settlementPrice.isNull = false) :
    Price.SameMarket (market.highestBid mia bitasset) (Price.min mia bitasset.backing) := by
  have settle : Price.SameMarket bitasset.currentFeed.settlementPrice
      (Price.min mia bitasset.backing) := agree.current fed
  unfold highestBid
  split
  · exact settle
  · rename_i first
    simp only
    split
    · exact settle
    · obtain ⟨-, below, above⟩ := mem_limitRange.mp (List.mem_of_mem_head? first)
      rw [Price.gt_eq_lt] at below
      exact Price.sameMarket_of_between Price.sameMarket_max_min above below

section

variable (form : WellFormed market)
include form

theorem collateralized_of_noSwan (amounts : Nonnegative market)
    (debts : Indebted market) (held : market.bitassets.get mia = some bitasset)
    (agree : bitasset.FeedsAgree mia) (fed : bitasset.currentFeed.settlementPrice.isNull = false)
    (bare : market.OnlyFirstBare bitasset.backing mia)
    (calm : market.swanPrice mia bitasset = none) : market.Collateralized := by
  have backed := backingOf_of_held held
  intro id call listed
  rcases bare id call listed with some | ⟨kind, least⟩
  · exact some
  have member : (id, call) ∈ market.callRange bitasset.backing mia :=
    (mem_callRange form backed).mpr ⟨listed, kind⟩
  obtain ⟨first, head⟩ : ∃ first, (market.callRange bitasset.backing mia).head? = some first := by
    cases list : market.callRange bitasset.backing mia with
    | nil =>
      rw [list] at member
      cases member
    | cons first rest => exact ⟨first, rfl⟩
  have firstMember := List.mem_of_mem_head? head
  have same : first = (id, call) := by
    have keys := le_antisymm (callKey_first_le form head member) (least first firstMember)
    have ids : first.1 = id := congrArg Prod.snd (toLex_inj.mp keys)
    obtain ⟨firstListed, -⟩ := (mem_callRange form backed).mp firstMember
    rw [ids, listed] at firstListed
    exact Prod.ext ids (Option.some.inj firstListed).symm
  by_contra empty
  have collateral : call.collateral = 0 :=
    Int.le_antisymm (Int.not_lt.mp empty) (amounts.collateral id call listed)
  have positive := highestBid_positive form held fed
  have bidMarket : Price.SameMarket (market.highestBid mia bitasset) _ :=
    highestBid_sameMarket agree fed
  have secured := (form.calls id call listed).1
  rw [kind, backed] at secured
  have callMarket : Price.SameMarket call.collateralization.invert
      (market.highestBid mia bitasset) :=
    ⟨kind.trans bidMarket.1.symm, (Option.some.inj secured).symm.trans bidMarket.2.symm⟩
  have above : call.collateralization.invert.ge (market.highestBid mia bitasset) = true := by
    rw [Price.ge_iff callMarket]
    show call.collateral * _ ≤ _ * call.debt
    rw [collateral, Int.zero_mul]
    exact Int.mul_nonneg positive.quote.le (debts.positive id call listed).le
  rw [swanPrice, head, same] at calm
  simp only [above, if_true] at calm
  cases calm

theorem globallySettleAsset_collateralized
    (bare : ∀ id call, market.callOrders.get id = some call → 0 <
      call.collateral ∨ call.debtType = mia)
    (done : market.globallySettleAsset mia price = .ok after) : after.Collateralized := by
  intro id call listed
  obtain ⟨before, other⟩ := globallySettleAsset_calls form done listed
  exact (bare id call before).resolve_right other

theorem marginCall_onlyFirstBare (backed : market.backingOf mia = some bitasset.backing)
    (collateral : market.Collateralized)
    (first : (market.callRange bitasset.backing mia).head? = some (callId, call))
    (listed : market.limitOrders.get limitId = some order)
    (done : market.marginCall callId limitId call order = .ok (usedUp, after)) :
    after.OnlyFirstBare bitasset.backing mia := by
  have formAfter := marginCall_wellFormed form listed done
  have backedAfter : after.backingOf mia = some bitasset.backing := by
    rw [(marginCall_same done).sameTerms.backingOf]
    exact backed
  obtain ⟨_, middle, _, _, _, fill, second, -, -⟩ := marginCall_cases done
  have calls : after.callOrders = middle.callOrders := (fillLimitOrder_frame second).1.callOrders
  have firstMember := List.mem_of_mem_head? first
  obtain ⟨callListed, kind⟩ := (mem_callRange form backed).mp firstMember
  intro id found there
  rw [calls] at there
  rcases (fillCallOrder_frame fill).2.2.2 with removed | reduced
  · rw [removed, Table.get_remove] at there
    split at there
    · cases there
    · exact .inl (collateral id found there)
  · rw [reduced, Table.get_modify] at there
    split at there
    · rename_i here
      rw [callListed, Option.map_some] at there
      cases there
      right
      refine ⟨kind, fun row member => ?_⟩
      obtain ⟨rowListed, rowKind⟩ := (mem_callRange formAfter backedAfter).mp member
      have least : callKey (callId, call) ≤ callKey row := by
        rw [calls, reduced, Table.get_modify] at rowListed
        split at rowListed
        · rename_i same
          rw [callListed, Option.map_some] at rowListed
          rw [callKey, callKey, same, ← Option.some.inj rowListed]
        · exact callKey_first_le form first ((mem_callRange form backed).mpr ⟨rowListed, rowKind⟩)
      rw [here]
      exact least
    · exact .inl (collateral id found there)

end

/-- The steps of a margin check keep the form, the amounts and the debts. -/
def KeepsDebts (market after : Market) : Prop :=
  WellFormed market ∧ Nonnegative market ∧ Indebted market →
    WellFormed after ∧ Nonnegative after ∧ Indebted after

theorem marginClosed_keepsDebts : MarginClosed KeepsDebts where
  refl _ sound := sound
  trans first second sound := second (first sound)
  marginCall call order done sound :=
    ⟨marginCall_wellFormed sound.1 order done,
      marginClosed_keepsNonnegative.marginCall call order done sound.2.1,
      marginCall_indebted sound.2.2 call done⟩
  globallySettleAsset done sound :=
    ⟨globallySettleAsset_wellFormed sound.1 done, globallySettleAsset_nonnegative done sound.2.1,
      globallySettleAsset_indebted sound.1 sound.2.2 done⟩

section

variable (sound : WellFormed market ∧ Nonnegative market ∧ Indebted market)
include sound

theorem marginLoop_collateralized (held : market.bitassets.get mia = some bitasset)
    (unsettled : bitasset.settlement = none) (agree : bitasset.FeedsAgree mia)
    (fed : bitasset.currentFeed.settlementPrice.isNull = false)
    (bare : market.OnlyFirstBare bitasset.backing mia)
    (done : marginLoop mia enable bitasset fuel limits filled called market = .ok (result, after)) :
    after.Collateralized := by
  induction fuel generalizing limits filled called market with
  | zero => cases done
  | succ fuel induction =>
    obtain ⟨form, amounts, debts⟩ := sound
    have backed := backingOf_of_held held
    obtain ⟨_, _, check, rounds⟩ := marginLoop_cases done
    rcases checkForBlackswan_cases check with ⟨rfl, rfl, calm⟩ | ⟨-, -, _, there, settled⟩ |
      ⟨rfl, -, _, _, -, -, -, -, settles⟩
    · have collateral := collateralized_of_noSwan form amounts debts held
        agree fed bare ((calm bitasset held).2 fed)
      rcases rounds with ⟨-, -, rfl⟩ | ⟨_, _, call, _, _,
        _, -, pair, ⟨-, -, -, settles⟩ | ⟨-, _, middle, traded, later⟩⟩
      · exact collateral
      · exact globallySettleAsset_collateralized form
          (fun id call listed => .inl (collateral id call listed)) settles
      · have first := (head?_callRange pair.first).1
        have next := marginClosed_keepsDebts.marginCall first pair.listed
          traded ⟨form, amounts, debts⟩
        have stays : middle.bitassets.get mia = some bitasset := by
          rw [(marginCall_same traded).bitassets]
          exact held
        exact induction next stays (marginCall_onlyFirstBare form backed
          collateral pair.first pair.listed traded) later
    · rw [held] at there
      cases there
      simp [BitassetData.hasSettlement, unsettled] at settled
    · rcases rounds with ⟨-, -, rfl⟩ | ⟨_, _, _, _, _, _, impossible, -⟩
      · refine globallySettleAsset_collateralized form ?_ settles
        intro id call listed
        exact (bare id call listed).imp_right And.left
      · cases impossible

theorem checkCallOrders_collateralized (agree : market.FeedsAgree)
    (collateral : market.Collateralized)
    (done : market.checkCallOrders mia enable = .ok (called, after)) : after.Collateralized := by
  have swan : ∀ {found : Bool} {middle : Market},
      market.checkForBlackswan mia enable = .ok (found, middle) → middle.Collateralized := by
    intro found middle check
    rcases checkForBlackswan_cases check with ⟨-, rfl, -⟩ | ⟨-, rfl, -⟩ |
      ⟨-, -, _, _, -, -, -, -, settles⟩
    · exact collateral
    · exact collateral
    · exact globallySettleAsset_collateralized sound.1
        (fun id call listed => .inl (collateral id call listed)) settles
  rcases checkCallOrders_cases done with ⟨-, rfl, -⟩ | ⟨bitasset, _,
    _, held, check, ⟨-, -, rfl⟩ | ⟨rfl, fed, margins⟩⟩
  · exact collateral
  · exact swan check
  · rcases checkForBlackswan_cases check with ⟨-, rfl, calm⟩ | ⟨impossible, -⟩ | ⟨impossible, -⟩
    · have unsettled : bitasset.settlement = none := by
        simpa [BitassetData.hasSettlement] using (calm bitasset held).1
      obtain ⟨_, -, ⟨-, -, rfl⟩ | looped⟩ := callMargins_cases margins
      · exact collateral
      · exact marginLoop_collateralized sound held unsettled (agree mia bitasset held) fed
          (fun id call listed => .inl (collateral id call listed)) looped
    · cases impossible
    · cases impossible

end

section

variable (collateral : market.Collateralized)
include collateral

theorem adjust_collateralized {op : CallOrderUpdate}
    (done : op.adjust bitasset market = .ok (placed, after)) : after.Collateralized := by
  obtain ⟨_, _, -, -, adjusted⟩ := CallOrderUpdate.adjust_spec done
  cases adjusted with
  | opened _ positive _ _ => exact Table.Forall.create collateral positive
  | changed _ positive _ _ =>
    exact Table.Forall.modify collateral fun _ _ => positive
  | closed _ _ _ => exact Table.Forall.remove collateral

theorem matchSettlement_collateralized
    (done : market.matchSettlement callId settleId price most = .ok (amount, after)) :
    after.Collateralized := by
  obtain ⟨call, _, pays, _, middle, _, listed, -, -, -, -, -,
    _, first, second⟩ := matchSettlement_spec done
  obtain ⟨_, _, _, _, -, -, -, -, rfl⟩ := fillSettlement_spec second
  show middle.callOrders.Forall _
  rcases (fillCallOrder_frame first).2.2.2 with removed | reduced
  · rw [removed]
    exact Table.Forall.remove collateral
  · rw [reduced]
    apply Table.Forall.modify collateral
    intro found here
    rw [listed] at here
    cases here
    show 0 < call.collateral - pays.amount
    omega

theorem bidsExecuted_collateralized
    (executed : BidsExecuted mia backing feed debt fund market after) : after.Collateralized := by
  induction executed with
  | none => exact collateral
  | next _ _ _ _ step _ induction =>
    obtain ⟨_, _, -, priced, -, rfl⟩ := executeBid_spec step
    exact induction (Table.Forall.create collateral (Price.callPrice_cases priced).1)

theorem cancelBidsAndRevive_collateralized (done : market.cancelBidsAndRevive mia = .ok after) :
    after.Collateralized := by
  obtain ⟨_, middle, cancelled, rfl⟩ := cancelBidsAndRevive_spec done
  show middle.callOrders.Forall _
  rw [(cancelBids_net (fun _ => 0) mia cancelled).callOrders]
  exact collateral

theorem reviveBitasset_collateralized (done : market.reviveBitasset mia = .ok after) :
    after.Collateralized := by
  obtain ⟨_, _, _, _, -, -, ways, revived⟩ := reviveBitasset_cases done
  apply cancelBidsAndRevive_collateralized _ revived
  rcases ways with ⟨-, -, -, rfl⟩ | ⟨-, ⟨_, rfl⟩, executed⟩
  · exact collateral
  · refine bidsExecuted_collateralized ?_ executed
    exact collateral

theorem processBids_collateralized (form : WellFormed market)
    (done : market.processBids mia bitasset settlement = .ok after) : after.Collateralized := by
  rcases processBids_cases form.bids done with rfl | ⟨middle, executed, revived⟩
  · exact collateral
  · exact cancelBidsAndRevive_collateralized
      (bidsExecuted_collateralized collateral executed) revived

end

end Market

end CocosChain.Chain

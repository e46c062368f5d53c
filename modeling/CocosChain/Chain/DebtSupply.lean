import CocosChain.Chain.AssetConservation
import CocosChain.Chain.NonnegativeAmounts

/-!
# The debt in call orders

As long as a market-issued asset is not settled globally, its supply is what
the call orders owe.  A global settlement closes all call orders; it ends with
call orders that owe the whole supply again.
-/

namespace CocosChain.Chain

open Table

namespace Market

/-- What the call orders owe of an asset. -/
def debtOf (market : Market) (mia : Nat) : Int :=
  market.callOrders.total fun call => call.getDebt.countIn mia

structure Indebted (market : Market) : Prop where
  owed : ∀ mia bitasset, market.bitassets.get mia = some bitasset → bitasset.settlement = none →
      market.debtOf mia = market.currentSupply mia
  positive : market.callOrders.Forall fun _ call => 0 < call.debt
  closed : ∀ mia bitasset, market.bitassets.get mia = some bitasset → bitasset.settlement ≠ none →
      market.callOrders.Forall fun _ call => call.debtType ≠ mia

variable {market : Market} {id : Nat}

/-- Settlements are begun or ended for no asset. -/
def SameSettled (market after : Market) : Prop :=
  ∀ mia, (after.bitassets.get mia).map BitassetData.hasSettlement =
    (market.bitassets.get mia).map BitassetData.hasSettlement

theorem SameSettled.before (same : SameSettled market after)
    (held : after.bitassets.get mia = some bitasset) : ∃ old, market.bitassets.get mia = some old ∧
      (old.settlement = none ↔ bitasset.settlement = none) := by
  have settled := same mia
  rw [held, Option.map_some] at settled
  obtain ⟨old, oldHeld, agree⟩ := Option.map_eq_some_iff.mp settled.symm
  refine ⟨old, oldHeld, ?_⟩
  simp only [BitassetData.hasSettlement] at agree
  rw [← Option.isNone_iff_eq_none, ← Option.isNone_iff_eq_none,
    ← Option.not_isSome, ← Option.not_isSome, agree]

theorem sameSettled_of_bitassets (same : after.bitassets = market.bitassets) :
    SameSettled market after := by
  intro mia
  rw [same]

theorem sameSettled_modify (same : ∀ bitasset, (change bitasset).hasSettlement =
      bitasset.hasSettlement) :
    SameSettled market { market with
      bitassets := market.bitassets.modify mia change } := by
  intro other
  rw [get_modify]
  split
  · rename_i here
    cases held : market.bitassets.get mia with
    | none => simp [here, held]
    | some bitasset => simp [here, held, same bitasset]
  · rfl

theorem Indebted.of_same (sound : Indebted market) (settled : SameSettled market after)
    (calls : after.callOrders = market.callOrders)
    (supply : after.currentSupply = market.currentSupply) : Indebted after := by
  refine ⟨?_, ?_, ?_⟩
  · intro mia bitasset held unsettled
    obtain ⟨old, oldHeld, agree⟩ := settled.before held
    rw [debtOf, calls, supply]
    exact sound.owed mia old oldHeld (agree.mpr unsettled)
  · rw [calls]
    exact sound.positive
  · intro mia bitasset held settledThere
    obtain ⟨old, oldHeld, agree⟩ := settled.before held
    rw [calls]
    exact sound.closed mia old oldHeld fun none =>
      settledThere (agree.mp none)

theorem fillCallOrder_debtOf (done : market.fillCallOrder id pays receives = .ok (closed, after))
    (mia : Nat) : after.debtOf mia = market.debtOf mia - receives.countIn mia := by
  obtain ⟨order, listed, kind, -, -, ways⟩ := fillCallOrder_spec done
  rcases ways with ⟨all, -, _, -, rfl⟩ | ⟨_, -, rfl⟩
  · show (market.callOrders.remove id).total _ = _
    rw [total_remove listed, CallOrder.getDebt, kind, all, countIn_eta]
    rfl
  · show (market.callOrders.modify id _).total _ = _
    rw [total_modify listed]
    have reduced : Asset.countIn ⟨order.debt - receives.amount,
        order.debtType⟩ mia = order.getDebt.countIn mia - receives.countIn mia := by
      rw [countIn_sub, kind, countIn_eta, CallOrder.getDebt, kind]
    have total : market.debtOf mia = market.callOrders.total
      fun call => call.getDebt.countIn mia := rfl
    have changed : CallOrder.getDebt { order with
        debt := order.debt - receives.amount
        collateral := order.collateral - pays.amount } =
        ⟨order.debt - receives.amount, order.debtType⟩ := rfl
    rw [changed, reduced, total]
    omega

theorem fillCallOrder_indebted (sound : Indebted market)
    (most : ∀ call, market.callOrders.get id = some call → receives.amount ≤ call.debt)
    (done : market.fillCallOrder id pays receives = .ok (closed, after)) : Indebted after := by
  have settled := sameSettled_of_bitassets (fillCallOrder_same done).bitassets
  have supply : ∀ mia, after.currentSupply mia =
      market.currentSupply mia - receives.countIn mia := fun mia =>
    (fillCallOrder_net (fun _ => 0) mia done).2
  have debts := fillCallOrder_debtOf done
  obtain ⟨order, listed, -, -, -, ways⟩ := fillCallOrder_spec done
  have less := most order listed
  have calls : after.callOrders.Forall (fun _ call => 0 < call.debt) ∧
      ∀ mia, market.callOrders.Forall (fun _ call => call.debtType ≠ mia) →
        after.callOrders.Forall fun _ call => call.debtType ≠ mia := by
    rcases ways with ⟨_, -, _, -, rfl⟩ | ⟨_, -, rfl⟩
    · exact ⟨sound.positive.remove, fun mia none => none.remove⟩
    · refine ⟨sound.positive.modify ?_, fun mia none =>
        none.modify fun call here => none id call here⟩
      intro call here
      rw [listed] at here
      cases here
      show 0 < order.debt - receives.amount
      omega
  refine ⟨?_, calls.1, ?_⟩
  · intro mia bitasset held unsettled
    obtain ⟨old, oldHeld, agree⟩ := settled.before held
    rw [debts mia, supply mia, sound.owed mia old oldHeld (agree.mpr unsettled)]
  · intro mia bitasset held settledThere
    obtain ⟨old, oldHeld, agree⟩ := settled.before held
    exact calls.2 mia (sound.closed mia old oldHeld fun none =>
      settledThere (agree.mp none))

theorem marginCall_indebted (sound : Indebted market)
    (listed : market.callOrders.get callId = some call)
    (done : market.marginCall callId limitId call order = .ok (usedUp, after)) :
    Indebted after := by
  obtain ⟨_, middle, _, _, _, first, second, -, amounts⟩ := marginCall_cases done
  have between : Indebted middle := by
    apply fillCallOrder_indebted sound _ first
    intro held here
    rw [listed] at here
    cases here
    rcases amounts with ⟨most, -, rfl⟩ | ⟨-, -, rfl⟩
    · exact most
    · exact Int.le_refl _
  have same := (fillLimitOrder_frame second).1
  exact between.of_same (sameSettled_of_bitassets (fillLimitOrder_same second).bitassets)
    same.callOrders same.currentSupply

theorem matchSettlement_indebted (sound : Indebted market)
    (done : market.matchSettlement callId settleId price most = .ok (amount, after)) :
    Indebted after := by
  obtain ⟨_, _, _, _, middle, _, listed, -, -, -, least,
    -, -, first, second⟩ := matchSettlement_spec done
  have between : Indebted middle := by
    apply fillCallOrder_indebted sound _ first
    intro held here
    rw [listed] at here
    cases here
    exact least.le.trans (min_le_right _ _)
  have settled := sameSettled_of_bitassets (fillSettlement_same second).bitassets
  obtain ⟨_, _, _, _, -, -, -, -, rfl⟩ := fillSettlement_spec second
  exact between.of_same settled rfl rfl

theorem closeCallOrders_calls
    (done : closeCallOrders backing price ids start market = .ok (gathered, after)) (other : Nat) :
    after.callOrders.get other = if other ∈ ids then none else market.callOrders.get other := by
  induction ids generalizing start market with
  | nil =>
    cases done
    simp
  | cons id rest induction =>
    obtain ⟨_, _, _, -, -, -, -, removed, later⟩ := closeCallOrders_cons done
    rw [induction later, removed, get_remove]
    by_cases here : other = id
    · simp [here]
    · simp [here]

theorem closeCallOrders_debtOf
    (kinds : ∀ id ∈ ids, ∀ call, market.callOrders.get id = some call → call.debtType = mia)
    (done : closeCallOrders backing price ids start market = .ok (gathered, after))
    (different : other ≠ mia) : after.debtOf other = market.debtOf other := by
  induction ids generalizing start market with
  | nil =>
    cases done
    rfl
  | cons id rest induction =>
    obtain ⟨call, _, _, listed, -, -, -, removed, later⟩ := closeCallOrders_cons done
    rw [induction (kinds_rest kinds removed) later, debtOf, removed, total_remove listed]
    have elsewhere : call.getDebt.countIn other = 0 := by
      rw [Asset.countIn, if_neg]
      intro same
      exact different (same.symm.trans (kinds id List.mem_cons_self call listed))
    rw [elsewhere]
    exact Int.sub_zero _

theorem globallySettleAsset_calls (form : WellFormed market)
    (done : market.globallySettleAsset mia price = .ok after)
    (listed : after.callOrders.get id = some call) :
    market.callOrders.get id = some call ∧ call.debtType ≠ mia := by
  obtain ⟨_, _, middle, held, -, -, closed, rfl⟩ := globallySettleAsset_spec done
  have backed := backingOf_of_held held
  have there : middle.callOrders.get id = some call := listed
  rw [closeCallOrders_calls closed] at there
  split at there
  · cases there
  · rename_i absent
    refine ⟨there, fun kind => absent ?_⟩
    exact List.mem_map.mpr ⟨(id, call), (mem_callRange form backed).mpr ⟨there, kind⟩, rfl⟩

theorem globallySettleAsset_indebted (form : WellFormed market) (sound : Indebted market)
    (done : market.globallySettleAsset mia price = .ok after) : Indebted after := by
  have calls : ∀ id call, after.callOrders.get id = some call →
      market.callOrders.get id = some call ∧ call.debtType ≠ mia :=
    fun _ _ => globallySettleAsset_calls form done
  obtain ⟨_, _, middle, held, _, -, closed, rfl⟩ :=
    globallySettleAsset_spec done
  have backed := backingOf_of_held held
  have kinds := callRange_kinds form backed
  have bitassets := (closeCallOrders_same closed).bitassets
  refine ⟨?_, ?_, ?_⟩
  · intro other found there none
    have different : other ≠ mia := by
      rintro rfl
      rw [get_modify, if_pos rfl, bitassets, held] at there
      cases there
      cases none
    rw [get_modify, if_neg different, bitassets] at there
    show middle.debtOf other = if other = mia then _ else _
    rw [if_neg different, closeCallOrders_debtOf kinds closed different,
      (closeCallOrders_net (fun _ => 0) other kinds closed).2.1 different]
    exact sound.owed other found there none
  · intro id call listed
    exact sound.positive id call (calls id call listed).1
  · intro other found there settled id call listed
    by_cases here : other = mia
    · rw [here]
      exact (calls id call listed).2
    · rw [get_modify, if_neg here, bitassets] at there
      exact sound.closed other found there settled id call (calls id call listed).1

theorem adjust_indebted {op : CallOrderUpdate} (sound : Indebted market)
    (held : market.bitassets.get op.deltaDebt.assetId = some bitasset)
    (evaluated : op.evaluate bitasset market = true)
    (done : op.adjust bitasset market = .ok (placed, after)) : Indebted after := by
  simp only [CallOrderUpdate.evaluate, Bool.and_eq_true] at evaluated
  have unsettled : bitasset.settlement = none := by
    simpa [BitassetData.hasSettlement] using evaluated.1.1.1
  have settled := sameSettled_of_bitassets (adjust_same done).bitassets
  obtain ⟨_, _, -, -, adjusted⟩ := CallOrderUpdate.adjust_spec done
  have supply := adjust_supply done
  have other : ∀ mia found, market.bitassets.get mia = some found →
      found.settlement ≠ none → op.deltaDebt.assetId ≠ mia := by
    rintro mia found there closed rfl
    rw [held] at there
    cases there
    exact closed unsettled
  have owes (total : ∀ mia, after.debtOf mia = market.debtOf mia + op.deltaDebt.countIn mia)
      (positive : after.callOrders.Forall fun _ call => 0 < call.debt)
      (kinds : ∀ mia, op.deltaDebt.assetId ≠ mia →
        market.callOrders.Forall (fun _ call => call.debtType ≠ mia) →
          after.callOrders.Forall fun _ call => call.debtType ≠ mia) : Indebted after := by
    refine ⟨?_, positive, ?_⟩
    · intro mia found there none
      obtain ⟨old, oldHeld, agree⟩ := settled.before there
      rw [total mia, supply mia, sound.owed mia old oldHeld (agree.mpr none)]
    · intro mia found there some
      obtain ⟨old, oldHeld, agree⟩ := settled.before there
      have closed : old.settlement ≠ none := fun none =>
        some (agree.mp none)
      exact kinds mia (other mia old oldHeld closed) (sound.closed mia old oldHeld closed)
  cases adjusted with
  | opened _ _ positive priced =>
    have kind := (Price.callPrice_assets priced).2
    refine owes ?_ (sound.positive.create positive) ?_
    · intro mia
      show (market.callOrders.create _).total _ = _
      rw [total_create, CallOrder.getDebt, CallOrder.debtType, kind, countIn_eta]
      rfl
    · intro mia different none
      apply none.create
      rw [CallOrder.debtType, kind]
      exact different
  | @changed id old callPrice known _ positive priced =>
    obtain ⟨listed, -, oldKind⟩ := find_eq_some market known
    have kind : callPrice.quote.assetId = op.deltaDebt.assetId :=
      (Price.callPrice_assets priced).2.trans oldKind
    refine owes ?_ (sound.positive.modify fun _ _ => positive) ?_
    · intro mia
      show (market.callOrders.modify id _).total _ = _
      rw [total_modify listed]
      simp only [CallOrder.getDebt, CallOrder.debtType, kind, countIn_add, debtOf] at oldKind ⊢
      rw [oldKind, countIn_eta]
      omega
    · intro mia different none
      apply none.modify
      intro _ _
      rw [CallOrder.debtType, kind]
      exact different
  | @closed id old known _ empty =>
    obtain ⟨listed, -, oldKind⟩ := find_eq_some market known
    refine owes ?_ sound.positive.remove ?_
    · intro mia
      show (market.callOrders.remove id).total _ = _
      rw [total_remove listed, CallOrder.getDebt, oldKind]
      have sum : Asset.countIn ⟨old.debt, op.deltaDebt.assetId⟩ mia +
          op.deltaDebt.countIn mia = 0 := by
        rw [← countIn_eta, ← countIn_add, empty, countIn_zero]
      have total : market.debtOf mia = market.callOrders.total
        fun call => call.getDebt.countIn mia := rfl
      omega
    · intro mia _ none
      exact none.remove

theorem bidsExecuted_debts (executed : BidsExecuted mia backing feed debt fund market after)
    (positive : market.callOrders.Forall fun _ call => 0 < call.debt) :
    after.callOrders.Forall (fun _ call => 0 < call.debt) ∧ (∀ other, after.debtOf other =
        market.debtOf other + Asset.countIn ⟨debt, mia⟩ other) ∧
      ∀ other, other ≠ mia → market.callOrders.Forall (fun _ call => call.debtType ≠ other) →
          after.callOrders.Forall fun _ call => call.debtType ≠ other := by
  induction executed with
  | none => exact ⟨positive, by simp [countIn_zero], fun _ _ none => none⟩
  | next listed kind _ owed step _ induction =>
    obtain ⟨_, callPrice, listed', priced, -, rfl⟩ := executeBid_spec step
    rw [listed] at listed'
    cases listed'
    have newKind : callPrice.quote.assetId = mia := (Price.callPrice_assets priced).2.trans kind
    obtain ⟨positiveLater, debts, kinds⟩ := induction (positive.create owed)
    refine ⟨positiveLater, fun other => ?_, fun other different none => ?_⟩
    · rw [debts other, debtOf, total_create, CallOrder.getDebt,
        CallOrder.debtType, newKind, countIn_add]
      exact Int.add_assoc _ _ _
    · apply kinds other different
      apply none.create
      rw [CallOrder.debtType, newKind]
      exact Ne.symm different

theorem cancelBidsAndRevive_indebted
    (positive : market.callOrders.Forall fun _ call => 0 < call.debt)
    (owed : market.debtOf mia = market.currentSupply mia)
    (owedElsewhere : ∀ other bitasset, other ≠ mia → market.bitassets.get other
      = some bitasset → bitasset.settlement = none → market.debtOf other =
      market.currentSupply other)
    (closedElsewhere : ∀ other bitasset, other ≠ mia → market.bitassets.get
      other = some bitasset → bitasset.settlement ≠ none →
      market.callOrders.Forall fun _ call => call.debtType ≠ other)
    (done : market.cancelBidsAndRevive mia = .ok after) : Indebted after := by
  obtain ⟨_, middle, cancelled, rfl⟩ := cancelBidsAndRevive_spec done
  have bitassets := (cancelBids_same cancelled).bitassets
  have moved := cancelBids_net (fun _ => 0) mia cancelled
  have debts : ∀ other, middle.debtOf other = market.debtOf other := by
    intro other
    rw [debtOf, moved.callOrders]
    rfl
  refine ⟨?_, ?_, ?_⟩
  · intro other bitasset held unsettled
    show middle.debtOf other = middle.currentSupply other
    rw [debts other, moved.supply]
    rw [get_modify, bitassets] at held
    split at held
    · rename_i here
      rw [here]
      exact owed
    · rename_i different
      exact owedElsewhere other bitasset different held unsettled
  · show middle.callOrders.Forall _
    rw [moved.callOrders]
    exact positive
  · intro other bitasset held settled
    show middle.callOrders.Forall _
    rw [moved.callOrders]
    rw [get_modify, bitassets] at held
    split at held
    · obtain ⟨_, -, rfl⟩ := Option.map_eq_some_iff.mp held
      exact absurd rfl settled
    · rename_i different
      exact closedElsewhere other bitasset different held settled

theorem bidsExecuted_indebted (sound : Indebted market)
    (held : market.bitassets.get mia = some bitasset) (settled : bitasset.settlement ≠ none)
    (executed : BidsExecuted mia backing feed (market.currentSupply mia) fund start middle)
    (calls : start.callOrders = market.callOrders)
    (supply : middle.currentSupply = market.currentSupply)
    (bitassets : middle.bitassets = market.bitassets)
    (revived : middle.cancelBidsAndRevive mia = .ok after) : Indebted after := by
  have positive : start.callOrders.Forall fun _ call => 0 < call.debt := by
    rw [calls]
    exact sound.positive
  obtain ⟨positiveLater, debts, kinds⟩ := bidsExecuted_debts executed positive
  have debtsBefore : ∀ other, start.debtOf other = market.debtOf other := by
    intro other
    rw [debtOf, calls]
    rfl
  have nothing : market.debtOf mia = 0 := by
    apply total_eq_zero
    intro id call listed
    rw [Asset.countIn, if_neg]
    exact sound.closed mia bitasset held settled id call listed
  apply cancelBidsAndRevive_indebted positiveLater _ _ _ revived
  · rw [debts mia, debtsBefore, nothing, supply, Asset.countIn, if_pos rfl]
    exact Int.zero_add _
  · intro other found different there none
    rw [bitassets] at there
    rw [debts other, debtsBefore, supply, Asset.countIn, if_neg (Ne.symm different)]
    rw [sound.owed other found there none]
    exact Int.add_zero _
  · intro other found different there some
    rw [bitassets] at there
    apply kinds other different
    rw [calls]
    exact sound.closed other found there some

theorem WellFormed.bidsExecuted_same (form : WellFormed market)
    (held : market.bitassets.get mia = some bitasset)
    (executed : BidsExecuted mia bitasset.backing bitasset.currentFeed debt fund market middle) :
    middle.currentSupply = market.currentSupply ∧ middle.bitassets = market.bitassets := by
  have backed := backingOf_of_held held
  have rated := (form.ratios mia bitasset held).current.ratio
  exact ⟨(bidsExecuted_net (fun _ => 0) mia executed).2.1,
    (bidsExecuted_wellFormed form backed rated executed).2.bitassets⟩

theorem reviveBitasset_indebted (form : WellFormed market) (sound : Indebted market)
    (supplied : ∀ bitasset, market.bitassets.get mia = some bitasset → 0 ≤ market.currentSupply mia)
    (done : market.reviveBitasset mia = .ok after) : Indebted after := by
  obtain ⟨bitasset, settlement, start, _, held, settled, ways, revived⟩ := reviveBitasset_cases done
  have closed : bitasset.settlement ≠ none := by simp [settled]
  rcases ways with ⟨nothing, -, -, same⟩ | ⟨some, ⟨issuer, rfl⟩, executed⟩
  · rw [same] at revived
    have zero : market.currentSupply mia = 0 := Int.le_antisymm nothing (supplied bitasset held)
    have none : BidsExecuted mia bitasset.backing bitasset.currentFeed
        (market.currentSupply mia) 0 market market := by
      rw [zero]
      exact .none
    exact bidsExecuted_indebted sound held closed none rfl rfl rfl revived
  · have start := form.issuerBid some issuer bitasset.backing
    obtain ⟨supply, bitassets⟩ := start.bidsExecuted_same held executed
    exact bidsExecuted_indebted sound held closed executed rfl supply bitassets revived

theorem processBids_indebted
    (form : WellFormed market) (sound : Indebted market)
    (held : market.bitassets.get mia = some { bitasset with forceSettledVolume
      := 0 }) (settled : bitasset.settlement = some settlement)
    (done : market.processBids mia bitasset settlement = .ok after) : Indebted after := by
  rcases processBids_cases form.bids done with rfl | ⟨middle, executed, revived⟩
  · exact sound
  · have closed : ({ bitasset with
        forceSettledVolume := 0 } : BitassetData).settlement ≠ none := by
      simp [settled]
    obtain ⟨supply, bitassets⟩ := form.bidsExecuted_same held executed
    exact bidsExecuted_indebted sound held closed executed rfl supply bitassets revived

theorem settle_indebted {op : AssetSettle} (sound : Indebted market)
    (held : market.bitassets.get op.amount.assetId = some bitasset)
    (done : op.apply bitasset market = .ok after) : Indebted after := by
  obtain ⟨_, -, ⟨-, _, rfl⟩ | ⟨settlement, _, _, some, -, -, rfl⟩⟩ := AssetSettle.apply_cases done
  · exact sound.of_same (sameSettled_of_bitassets rfl) rfl rfl
  · have closed : bitasset.settlement ≠ none := by simp [some]
    refine ⟨?_, sound.positive, ?_⟩
    · intro mia found there none
      rw [get_modify] at there
      split at there
      · obtain ⟨_, -, rfl⟩ := Option.map_eq_some_iff.mp there
        cases none
      · rename_i different
        show market.debtOf mia = (market.addSupply _ _).currentSupply mia
        rw [currentSupply_addSupply, Asset.countIn, if_neg (Ne.symm different)]
        rw [sound.owed mia found there none]
        exact (Int.add_zero _).symm
    · intro mia found there closedThere
      rw [get_modify] at there
      split at there
      · rename_i here
        rw [here]
        exact sound.closed _ bitasset held closed
      · exact sound.closed mia found there closedThere

end Market

end CocosChain.Chain

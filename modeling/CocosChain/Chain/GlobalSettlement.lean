import CocosChain.Chain.SupplyCap

/-!
# What a global settlement does

A global settlement closes every call order of the asset: the order pays what
its debt is worth at the settlement price, at most its collateral, into the
fund, and the rest goes back to the borrower.  The supply stays, and the fund
against the supply is the price at which it is settled from now on.
-/

namespace CocosChain.Chain

/-- What the order pays into the fund at the settlement price. -/
def CallOrder.fundShare (price : Price) (call : CallOrder) : Int :=
  Min.min ((call.getDebt.times price).elim 0 Asset.amount) call.collateral

namespace Balances

theorem deposit_succeeds (balances : Balances) (account : AccountId) (delta : Asset)
    (nonneg : 0 ≤ delta.amount) : ∃ after, balances.adjustBalance account delta = some after := by
  unfold adjustBalance
  split
  · exact ⟨_, rfl⟩
  · rename_i some
    have positive : 0 < delta.amount := by omega
    have permitted : balances.mayAdjust account delta = true := by
      unfold mayAdjust
      split
      · simpa using positive
      · simp [positive]
    rw [if_pos permitted]
    exact ⟨_, rfl⟩

end Balances

namespace Market

/-- What all call orders of the asset pay into the fund. -/
def fundAt (market : Market) (mia : Nat) (price : Price) : Int :=
  market.callOrders.total fun call =>
    if call.debtType = mia then call.fundShare price else 0

/-- The collateral that the account gets back. -/
def freedAt (market : Market) (mia : Nat) (price : Price) (account : AccountId) : Int :=
  market.callOrders.total fun call =>
    if call.debtType = mia ∧ call.borrower = account then
      call.collateral - call.fundShare price
    else 0

variable {market : Market} {id : Nat}

theorem fillCallOrder_closes (listed : market.callOrders.get id = some call)
    (asset : (market.assets.get call.debtType).isSome = true)
    (secured : call.callPrice.base.assetId = pays.assetId)
    (covered : pays.amount ≤ call.collateral) :
    ∃ after, market.fillCallOrder id pays call.getDebt = .ok (true, after) ∧
      after.callOrders = market.callOrders.remove id ∧
      after.assets = market.assets ∧
      ∀ account assetId, after.getBalance account assetId = market.getBalance account assetId +
          if account = call.borrower ∧ assetId = pays.assetId then
            call.collateral - pays.amount
          else 0 := by
  have filled : ∃ after, market.fillCallOrder id pays call.getDebt = .ok (true, after) := by
    obtain ⟨balances, freed⟩ := market.balances.deposit_succeeds
      call.borrower ⟨call.collateral - pays.amount, pays.assetId⟩ (Int.sub_nonneg.mpr covered)
    have closes : ∀ other : Market, other.balances = market.balances →
        ∃ after, other.settleCallOrder id call pays call.getDebt = .ok (true, after) := by
      intro other same
      have whole : call.debt = call.getDebt.amount := rfl
      rw [settleCallOrder, if_pos whole, closeCallOrder, Market.adjustBalance, same, freed]
      exact ⟨_, rfl⟩
    obtain ⟨after, closed⟩ := closes ((market.addSupply call.debtType
      (-call.debt)).countInOrders call.borrower
        ⟨-pays.amount, pays.assetId⟩) (by rw [countInOrders_eq]; rfl)
    refine ⟨after, ?_⟩
    simp only [fillCallOrder, bind_eq_ok, found_eq_ok, ensure_eq_ok]
    exact ⟨call, listed, (), by simp, (), beq_iff_eq.mpr secured, (),
      by simpa using covered, (), asset, closed⟩
  obtain ⟨after, done⟩ := filled
  refine ⟨after, done, ?_⟩
  obtain ⟨_, there, -, -, -, ⟨-, -, _, freed, rfl⟩ | ⟨open_, -, -⟩⟩ := fillCallOrder_spec done
  · rw [listed] at there
    cases there
    exact ⟨rfl, rfl, Balances.getBalance_adjustBalance freed⟩
  · rw [listed] at there
    cases there
    exact absurd rfl open_

/-- The call orders in the list are closed one after the other: what they pay
is gathered, and the rest of their collateral goes back. -/
theorem closeCallOrders_closes (distinct : ids.Nodup)
    (asset : (market.assets.get mia).isSome = true)
    (each : ∀ id ∈ ids, ∃ call value, market.callOrders.get id = some call ∧
      call.debtType = mia ∧ call.callPrice.base.assetId = backing ∧
      call.getDebt.times price = some ⟨value, backing⟩) (start : Int) :
    ∃ after, closeCallOrders backing price ids start market =
        .ok (start + (market.fundAt mia price - after.fundAt mia price), after) ∧
      ∀ account assetId, after.getBalance account assetId =
        market.getBalance account assetId + if assetId = backing then
            market.freedAt mia price account - after.freedAt mia price account
          else 0 := by
  induction ids generalizing market start with
  | nil => exact ⟨market, by simp [closeCallOrders], by simp⟩
  | cons id rest induction =>
    obtain ⟨notLater, distinct⟩ := List.nodup_cons.mp distinct
    obtain ⟨call, value, listed, kind, secured, valued⟩ := each id List.mem_cons_self
    have share : Min.min value call.collateral = call.fundShare price := by
      simp [CallOrder.fundShare, valued]
    have paid : (⟨call.fundShare price, backing⟩ : Asset).amount ≤
        call.collateral := share ▸ min_le_right _ _
    obtain ⟨middle, filled, removed, assets, freed⟩ :=
      fillCallOrder_closes listed (kind ▸ asset) secured paid
    have later : ∀ other ∈ rest, ∃ call value, middle.callOrders.get other = some call ∧
        call.debtType = mia ∧ call.callPrice.base.assetId = backing ∧
        call.getDebt.times price = some ⟨value, backing⟩ := by
      intro other member
      have different : other ≠ id := fun same => notLater (same ▸ member)
      rw [removed, Table.get_remove, if_neg different]
      exact each other (List.mem_cons_of_mem _ member)
    obtain ⟨after, closed, returned⟩ := induction distinct
      (assets ▸ asset) later (start + call.fundShare price)
    have fund : middle.fundAt mia price = market.fundAt mia price - call.fundShare price := by
      rw [fundAt, removed, Table.total_remove listed, if_pos kind]
      rfl
    refine ⟨after, ?_, fun account assetId => ?_⟩
    · simp only [closeCallOrders, bind_eq_ok, found_eq_ok, ensure_eq_ok]
      refine ⟨call, listed, ⟨value, backing⟩, valued, (),
        beq_iff_eq.mpr secured.symm, (), by simp, (true, middle), ?_, (), rfl, ?_⟩
      · rw [share]
        exact filled
      · rw [share, closed, fund]
        congr 2
        omega
    · rw [returned, freed, freedAt, freedAt, freedAt, removed, Table.total_remove listed]
      by_cases same : assetId = backing
      · by_cases owner : account = call.borrower
        · simp [same, owner, kind]
          omega
        · simp [same, owner, Ne.symm owner]
      · simp [same]

/-- A global settlement of an asset whose debts have a value at the price goes
through.  It closes the call orders of the asset and no others, gathers in the
fund what they pay, gives the rest of the collateral back, and leaves the
supply alone. -/
theorem global_settlement_exact {bitasset : BitassetData} (sound : WellFormed market)
    (held : market.bitassets.get mia = some bitasset)
    (unsettled : bitasset.settlement = none)
    (distinct : mia ≠ bitasset.backing)
    (asset : (market.assets.get mia).isSome = true)
    (backingAsset : (market.assets.get bitasset.backing).isSome = true)
    (inRange : ∀ id call, market.callOrders.get id = some call → call.debtType = mia →
        ∃ value, call.getDebt.times price = some ⟨value, bitasset.backing⟩) :
    ∃ after, market.globallySettleAsset mia price = .ok after ∧
      (∀ id, after.callOrders.get id = (market.callOrders.get id).filter
        fun call => call.debtType != mia) ∧
      after.bitassets.get mia = some { bitasset with
        settlement := some ⟨market.currentSupply mia,
          market.fundAt mia price, market.fundAt mia price⟩ } ∧
      after.currentSupply = market.currentSupply ∧
      ∀ account assetId, after.getBalance account assetId =
        market.getBalance account assetId + if assetId = bitasset.backing then
            market.freedAt mia price account
          else 0 := by
  have backed := backingOf_of_held held
  have each : ∀ id ∈ (market.callRange bitasset.backing mia).map Prod.fst,
      ∃ call value, market.callOrders.get id = some call ∧ call.debtType = mia ∧
        call.callPrice.base.assetId = bitasset.backing ∧
        call.getDebt.times price = some ⟨value, bitasset.backing⟩ := by
    intro id member
    obtain ⟨⟨id, call⟩, there, rfl⟩ := List.mem_map.mp member
    obtain ⟨listed, kind⟩ := (mem_callRange sound backed).mp there
    obtain ⟨value, valued⟩ := inRange id call listed kind
    have secured := (sound.calls id call listed).1
    rw [kind, backed] at secured
    exact ⟨call, value, listed, kind, (Option.some.inj secured).symm, valued⟩
  obtain ⟨middle, closed, returned⟩ := closeCallOrders_closes callRange_nodup asset each 0
  have bitassets := (closeCallOrders_same closed).bitassets
  have kept : ∀ id, middle.callOrders.get id =
      (market.callOrders.get id).filter fun call => call.debtType != mia := by
    intro id
    rw [closeCallOrders_calls closed]
    cases listed : market.callOrders.get id with
    | none => simp
    | some call =>
      have member : id ∈ (market.callRange bitasset.backing mia).map
          Prod.fst ↔ call.debtType = mia := by
        constructor
        · exact fun there => callRange_kinds sound backed id there call listed
        · exact fun kind => List.mem_map.mpr ⟨(id, call),
            (mem_callRange sound backed).mpr ⟨listed, kind⟩, rfl⟩
      by_cases kind : call.debtType = mia
      · simp [member, kind, Option.filter]
      · simp [member, kind, Option.filter]
  have others : ∀ id call, middle.callOrders.get id = some call → call.debtType ≠ mia := by
    intro id call listed
    rw [kept, Option.filter_eq_some_iff] at listed
    simpa using listed.2
  have fund : middle.fundAt mia price = 0 :=
    Table.total_eq_zero fun id call listed => if_neg (others id call listed)
  have freed : ∀ account, middle.freedAt mia price account = 0 :=
    fun account => Table.total_eq_zero fun id call listed =>
      if_neg fun both => others id call listed both.1
  rw [fund, Int.zero_add, Int.sub_zero] at closed
  have done : market.globallySettleAsset mia price = .ok { middle with
      bitassets := middle.bitassets.modify mia fun bitasset =>
        { bitasset with settlement := some ⟨market.currentSupply mia,
          market.fundAt mia price, market.fundAt mia price⟩ }
      currentSupply := fun other =>
        if other = mia then market.currentSupply mia
        else middle.currentSupply other } := by
    simp only [globallySettleAsset, bind_eq_ok, found_eq_ok, ensure_eq_ok, pure_eq_ok]
    exact ⟨bitasset, held, (), by simp [BitassetData.hasSettlement,
      unsettled], (), backingAsset, _, closed, (), by simpa using distinct, rfl⟩
  refine ⟨_, done, kept, ?_, globallySettleAsset_supply sound done, fun account assetId => ?_⟩
  · rw [bitassets, Table.get_modify, if_pos rfl, held]
    rfl
  · show middle.getBalance account assetId = _
    rw [returned, freed, Int.sub_zero]

/-- Accounts `12` and `11` owe `100` each against `700` and `1000` of the core
asset, and the asset is settled at one for one. -/
theorem global_settlement_borrowed : ∃ created market after,
      (newBitasset assetCore).perform MarketTerms.free fundedGenesis = .ok created ∧
      created.run twoPositions = .ok market ∧
      market.globallySettleAsset 2 ⟨⟨1, 2⟩, ⟨1, assetCore⟩⟩ = .ok after ∧
      after.currentSupply = market.currentSupply ∧
      after.getBalance 12 assetCore = market.getBalance 12 assetCore + 600 ∧
      after.getBalance 11 assetCore = market.getBalance 11 assetCore + 900 := by
  have reached : ∃ created market bitasset,
      Created created ∧ created.run twoPositions = .ok market ∧
      market.bitassets.get 2 = some bitasset ∧
      bitasset.settlement = none ∧ bitasset.backing = assetCore ∧
      (market.assets.get 2).isSome = true ∧ (market.assets.get assetCore).isSome = true ∧
      (∀ row ∈ market.callOrders.rows, row.2.getDebt.times ⟨⟨1, 2⟩, ⟨1, assetCore⟩⟩ =
        some ⟨100, assetCore⟩) ∧
      market.freedAt 2 ⟨⟨1, 2⟩, ⟨1, assetCore⟩⟩ 12 = 600 ∧
      market.freedAt 2 ⟨⟨1, 2⟩, ⟨1, assetCore⟩⟩ 11 = 900 :=
    ⟨_, _, _, rfl, rfl, rfl, by decide +kernel, by decide +kernel,
      by decide +kernel, by decide +kernel, by decide +kernel, by decide +kernel, by decide +kernel⟩
  obtain ⟨created, market, bitasset, performed, history, held, unsettled,
    backing, asset, backingAsset, valued, freed, freedOther⟩ := reached
  have sound : Solvent market := feedClosed_keepsSolvent.run history (solvent_created performed)
  have inRange : ∀ id call, market.callOrders.get id = some call →
      call.debtType = 2 → ∃ value, call.getDebt.times
        ⟨⟨1, 2⟩, ⟨1, assetCore⟩⟩ = some ⟨value, bitasset.backing⟩ :=
    fun id call listed _ => ⟨100, backing ▸ valued (id, call) (Table.mem_rows.mpr listed)⟩
  obtain ⟨after, settled, -, -, supply, balances⟩ := global_settlement_exact
    sound.wellFormed held unsettled (by rw [backing]; decide) asset (backing ▸ backingAsset) inRange
  refine ⟨created, market, after, performed, history, settled, supply, ?_, ?_⟩
  · rw [balances, backing, if_pos rfl, freed]
  · rw [balances, backing, if_pos rfl, freedOther]

end Market

end CocosChain.Chain

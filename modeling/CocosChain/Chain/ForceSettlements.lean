import CocosChain.Chain.SettlementFund

/-!
# Force settlements that are due

At every block the force settlements that are due are matched with the least
collateralized call orders of their assets, as long as the volume of the asset
allows it.  What is settled is counted in the volume and leaves the supply;
settlements that are not due are left alone; and every round consumes a
settlement, uses up a volume or goes on to the next asset.
-/

namespace CocosChain.Chain

namespace Market

variable {market : Market} {id : Nat}

variable {Value : Type}

/-- A match takes the least of the balance, the volume and the debt from the
supply.  It closes the call order, or it ends the settlement or the volume. -/
theorem matchSettlement_settles {most : Int}
    (done : market.matchSettlement callId id price most = .ok (amount, after)) :
    ∃ call settle, market.callOrders.get callId = some call ∧
      market.settlements.get id = some settle ∧
      call.debtType = settle.balance.assetId ∧
      0 < call.debt ∧ 0 < settle.balance.amount ∧
      amount = min (min settle.balance.amount most) call.debt ∧
      after.currentSupply = (market.addSupply settle.balance.assetId (-amount)).currentSupply ∧
      after.settlements = (if amount < settle.balance.amount then
          market.settlements.modify id fun settle =>
            { settle with balance :=
              ⟨settle.balance.amount - amount, settle.balance.assetId⟩ }
        else market.settlements.remove id) ∧
      (∀ other left, after.callOrders.get other = some left →
        ∃ before, market.callOrders.get other = some before) ∧
      (call.debt = amount → after.callOrders.get callId = none) := by
  obtain ⟨call, settle, _, _, _, _, listed, waiting, kind,
    ⟨owed, some⟩, least, -, -, first, second⟩ := matchSettlement_spec done
  have frame := fillCallOrder_frame first
  obtain ⟨_, here, _, -, -, changed⟩ := fillCallOrder_spec first
  rw [listed] at here
  cases here
  obtain ⟨held, _, _, _, there, -, -, -, rfl⟩ := fillSettlement_spec second
  rw [frame.2.2.1, waiting] at there
  cases there
  refine ⟨call, settle, listed, waiting, kind, owed, some, least, ?_, ?_, ?_, ?_⟩
  · rcases changed with ⟨-, -, freed, -, rfl⟩ | ⟨-, -, rfl⟩
    · rfl
    · rfl
  · simp only [frame.2.2.1]
  · intro other left held
    rcases frame.2.2.2 with removed | reduced
    · simp only [removed, Table.get_remove] at held
      split at held
      · cases held
      · exact ⟨left, held⟩
    · simp only [reduced, Table.get_modify] at held
      split at held
      · rename_i same
        exact ⟨call, same ▸ listed⟩
      · exact ⟨left, held⟩
  · intro whole
    rcases changed with ⟨-, -, _, -, rfl⟩ | ⟨part, -, -⟩
    · simp [Table.get_remove]
    · exact absurd whole part

/-- The matches of a run, with their assets and amounts, among settlements
that are cancelled and volumes that are written. -/
inductive Settling : List (Nat × Int) → Market → Market → Prop where
  | done {market : Market} : Settling [] market market
  | cancel {market middle after : Market} {id : Nat}
      {log : List (Nat × Int)} : market.cancelSettlement id = .ok middle →
      Settling log middle after → Settling log market after
  | settle {market middle after : Market} {callId id : Nat} {price : Price}
      {most amount : Int} {order : ForceSettlement}
      {log : List (Nat × Int)} : market.settlements.get id = some order →
      market.matchSettlement callId id price most = .ok (amount, middle) →
      Settling log middle after →
        Settling ((order.balance.assetId, amount) :: log) market after
  | volume {market after : Market} {mia : Nat} {volume : Int}
      {log : List (Nat × Int)} : Settling log { market with
        bitassets := market.bitassets.modify mia fun bitasset =>
          { bitasset with forceSettledVolume := volume } } after →
      Settling log market after

theorem Settling.append (first : Settling log market middle)
    (second : Settling later middle after) : Settling (log ++ later) market after := by
  induction first with
  | done => exact second
  | cancel cancelled _ induction => exact .cancel cancelled (induction second)
  | settle listed matched _ induction =>
    exact .settle listed matched (induction second)
  | volume _ induction => exact .volume (induction second)

/-- How much of an asset is settled. -/
def settledOf (log : List (Nat × Int)) (mia : Nat) : Int :=
  (log.map fun entry => if entry.1 = mia then entry.2 else 0).sum

@[simp] theorem settledOf_nil : settledOf [] mia = 0 := rfl

@[simp] theorem settledOf_cons : settledOf (entry :: log) mia =
      (if entry.1 = mia then entry.2 else 0) + settledOf log mia := by
  simp [settledOf]

@[simp] theorem settledOf_append :
    settledOf (log ++ later) mia = settledOf log mia + settledOf later mia := by
  simp [settledOf]

theorem settledOf_eq_zero (only : ∀ entry ∈ log, entry.1 = mia)
    (different : other ≠ mia) : settledOf log other = 0 := by
  induction log with
  | nil => rfl
  | cons entry rest induction =>
    have here := only entry List.mem_cons_self
    rw [settledOf_cons, if_neg (by rw [here]; exact different.symm), induction fun next member =>
        only next (List.mem_cons_of_mem _ member)]
    rfl

/-- The settlement has not reached its date, and its asset is not settled
globally. -/
def Waiting (market : Market) (order : ForceSettlement) : Prop :=
  market.headBlockTime < order.settlementDate ∧ market.settlementOf order.balance.assetId = none

/-- What is settled leaves the supplies and is counted in the volumes, and
what waits goes on waiting. -/
structure Settles (log : List (Nat × Int)) (market after : Market) : Prop where
  trace : Settling log market after
  supply : ∀ mia, after.currentSupply mia = market.currentSupply mia - settledOf log mia
  bitassets : ∀ mia, after.bitassets.get mia = (market.bitassets.get mia).map fun bitasset =>
      { bitasset with
        forceSettledVolume :=
          bitasset.forceSettledVolume + settledOf log mia }
  time : after.headBlockTime = market.headBlockTime
  waiting : ∀ id order, market.settlements.get id = some order →
    market.Waiting order → after.settlements.get id = some order

theorem Settles.settlementOf (settles : Settles log market after) :
    after.settlementOf mia = market.settlementOf mia := by
  rw [Market.settlementOf, settles.bitassets, Market.settlementOf]
  cases market.bitassets.get mia with
  | none => rfl
  | some bitasset => rfl

theorem Settles.trans (first : Settles log market middle) (second : Settles later middle after) :
    Settles (log ++ later) market after where
  trace := first.trace.append second.trace
  supply mia := by
    rw [second.supply, first.supply, settledOf_append]
    omega
  bitassets mia := by
    rw [second.bitassets, first.bitassets, settledOf_append]
    cases market.bitassets.get mia with
    | none => rfl
    | some bitasset => simp [Int.add_assoc]
  time := second.time.trans first.time
  waiting id order listed waits := by
    apply second.waiting id order (first.waiting id order listed waits)
    exact ⟨first.time ▸ waits.1, first.settlementOf.trans waits.2⟩

theorem Settles.of_cancel (cancelled : market.cancelSettlement id = .ok after)
    (listed : market.settlements.get id = some order)
    (due : ¬ market.Waiting order) : Settles [] market after := by
  obtain ⟨_, _, _, -, rfl⟩ := cancelSettlement_spec cancelled
  refine ⟨.cancel cancelled .done, fun _ => by simp, fun mia => ?_, rfl,
    fun other left there waits => ?_⟩
  · cases market.bitassets.get mia with
    | none => rfl
    | some bitasset => simp
  · have different : other ≠ id := by
      rintro rfl
      rw [listed] at there
      cases there
      exact due waits
    rw [Table.get_remove, if_neg different]
    exact there

/-- A round of the loop stops, finds no call order, cancels the settlement,
or matches it and goes on. -/
theorem settleLoop_round
    (round : settleLoop mia backing id price maxVolume (fuel + 1) settled market = outcome) :
    ((market.settlements.get id = none ∨ maxVolume ≤ settled) ∧ outcome = .ok (settled, market)) ∨
    outcome = .error .noCallOrder ∨
    outcome = (do
      let market ← market.cancelSettlement id
      pure (settled, market)) ∨
    ∃ callId, settled < maxVolume ∧ ((∃ amount middle,
        market.matchSettlement callId id price (maxVolume - settled) = .ok (amount, middle) ∧
        settleLoop mia backing id price maxVolume fuel (settled + amount) middle = outcome) ∨
      ∃ fault, market.matchSettlement callId id price (maxVolume - settled) =
          .error fault ∧ outcome = .error fault) := by
  unfold settleLoop at round
  split at round
  · rename_i gone
    exact .inl ⟨.inl gone, round.symm⟩
  · split at round
    · rename_i full
      exact .inl ⟨.inr full, round.symm⟩
    · rename_i room
      split at round
      · exact .inr (.inl round.symm)
      · rename_i callId call _
        split at round
        · exact .inr (.inl round.symm)
        · split at round
          · exact .inr (.inr (.inl round.symm))
          · refine .inr (.inr ?_)
            split at round
            · rename_i amount middle matched
              exact .inr ⟨callId, Int.not_le.mp room, .inl ⟨amount, middle, matched, round⟩⟩
            · exact .inl round.symm
            · rename_i fault _ failed
              exact .inr ⟨callId, Int.not_le.mp room, .inr ⟨fault, failed, round.symm⟩⟩

/-- What the loop for one settlement has done when it ends. -/
structure LoopSettles (mia id : Nat) (settled result maxVolume : Int)
    (log : List (Nat × Int)) (market after : Market) : Prop where
  trace : Settling log market after
  only : ∀ entry ∈ log, entry.1 = mia
  result_eq : result = settled + settledOf log mia
  within : settled ≤ maxVolume → result ≤ maxVolume
  supply : ∀ other, after.currentSupply other = market.currentSupply other - settledOf log other
  bitassets : after.bitassets = market.bitassets
  time : after.headBlockTime = market.headBlockTime
  others : ∀ other, other ≠ id → after.settlements.get other = market.settlements.get other
  ending : after.settlements.get id = none ∨ maxVolume ≤ result
  asset : ∀ left, after.settlements.get id = some left → left.balance.assetId = mia

theorem settleLoop_settles
    (kind : ∀ order, market.settlements.get id = some order → order.balance.assetId = mia)
    (done : settleLoop mia backing id price maxVolume fuel settled market = .ok (result, after)) :
    ∃ log, LoopSettles mia id settled result maxVolume log market after := by
  induction fuel generalizing settled market with
  | zero => cases done
  | succ fuel induction =>
    rcases settleLoop_round done with ⟨stops, stopped⟩ | failed |
      cancels | ⟨_, _, ⟨amount, middle, matched, done⟩ | ⟨_, -, failed⟩⟩
    · cases stopped
      exact ⟨[], .done, by simp, by simp, fun most => most, by simp, rfl,
        rfl, fun _ _ => rfl, stops, kind⟩
    · cases failed
    · obtain ⟨middle, cancelled, rest⟩ := bind_eq_ok.mp cancels.symm
      cases rest
      have trace : Settling [] market after := .cancel cancelled .done
      obtain ⟨settle, _, -, -, rfl⟩ := cancelSettlement_spec cancelled
      refine ⟨[], trace, by simp, by simp, fun most => most, by simp, rfl,
        rfl, fun other different => ?_, .inl ?_, fun left there => ?_⟩
      · rw [Table.get_remove, if_neg different]
      · rw [Table.get_remove, if_pos rfl]
      · rw [Table.get_remove, if_pos rfl] at there
        cases there
    · obtain ⟨_, settle, -, listed, -, -, -, least, supply, settlements,
        -, -⟩ := matchSettlement_settles matched
      have same := matchSettlement_same matched
      have others : ∀ other, other ≠ id → middle.settlements.get other =
          market.settlements.get other := by
        intro other different
        rw [settlements]
        split
        · rw [Table.get_modify, if_neg different]
        · rw [Table.get_remove, if_neg different]
      have asset := kind settle listed
      have still : ∀ left, middle.settlements.get id = some left → left.balance.assetId = mia := by
        intro left there
        rw [settlements] at there
        split at there
        · rw [Table.get_modify, if_pos rfl, listed] at there
          cases there
          exact asset
        · rw [Table.get_remove, if_pos rfl] at there
          cases there
      obtain ⟨log, rest⟩ := induction still done
      have volume : amount ≤ maxVolume - settled := by
        rw [least]
        exact (min_le_left _ _).trans (min_le_right _ _)
      refine ⟨(settle.balance.assetId, amount) :: log, .settle listed matched rest.trace, ?_, ?_,
        fun _ => rest.within (by omega), fun other => ?_, rest.bitassets.trans same.bitassets,
        rest.time.trans same.headBlockTime, fun other different => ?_, rest.ending, rest.asset⟩
      · intro entry member
        rcases List.mem_cons.mp member with rfl | member
        · exact asset
        · exact rest.only entry member
      · rw [rest.result_eq, settledOf_cons, if_pos asset]
        omega
      · rw [rest.supply, settledOf_cons, supply]
        simp only [addSupply, eq_comm]
        split
        · omega
        · omega
      · rw [rest.others other different, others other different]
    · cases failed

/-- What a round for a settlement has done when it ends. -/
structure RoundSettles (id : Nat) (order : ForceSettlement)
    (bitasset : BitassetData) (most newMost : Asset) (next : Option Nat)
    (log : List (Nat × Int)) (market after : Market) : Prop where
  settles : Settles log market after
  only : ∀ entry ∈ log, entry.1 = order.balance.assetId
  volume : (log = [] ∧ newMost = most) ∨
    (newMost = market.volumeFor order.balance.assetId bitasset most ∧
      (log = [] ∨ bitasset.forceSettledVolume +
        settledOf log order.balance.assetId ≤ newMost.amount))
  others : ∀ other, other ≠ id → after.settlements.get other = market.settlements.get other
  asset : ∀ left, after.settlements.get id = some left →
    left.balance.assetId = order.balance.assetId
  moves : (next = some order.balance.assetId ∧ after.settlements.get id = none) ∨
    (next = market.nextAsset order.balance.assetId ∧ after = market) ∨
    (next = some order.balance.assetId ∧
      newMost = market.volumeFor order.balance.assetId bitasset most ∧
      bitasset.forceSettledVolume < newMost.amount ∧
      newMost.amount ≤ bitasset.forceSettledVolume + settledOf log order.balance.assetId)

theorem Settles.refl (market : Market) : Settles [] market market where
  trace := .done
  supply _ := by simp
  bitassets mia := by
    cases market.bitassets.get mia with
    | none => rfl
    | some bitasset => simp
  time := rfl
  waiting _ _ listed _ := listed

theorem LoopSettles.settles (loop : LoopSettles order.balance.assetId id bitasset.forceSettledVolume
      result maxVolume log market middle)
    (held : market.bitassets.get order.balance.assetId = some bitasset)
    (listed : market.settlements.get id = some order) (due : ¬ market.Waiting order) :
    Settles log market { middle with
      bitassets := middle.bitassets.modify order.balance.assetId
        fun bitasset => { bitasset with forceSettledVolume := result } } where
  trace := by
    rw [← List.append_nil log]
    exact loop.trace.append (.volume .done)
  supply := loop.supply
  bitassets mia := by
    rw [loop.bitassets, Table.get_modify]
    split
    · rename_i here
      subst here
      simp [held, loop.result_eq]
    · rename_i different
      rw [settledOf_eq_zero loop.only different]
      cases market.bitassets.get mia with
      | none => rfl
      | some bitasset => simp
  time := loop.time
  waiting other left there waits := by
    have different : other ≠ id := by
      rintro rfl
      rw [listed] at there
      cases there
      exact due waits
    exact (loop.others other different).trans there

theorem cancelSettlement_round (cancelled : market.cancelSettlement id = .ok after)
    (listed : market.settlements.get id = some order) (due : ¬ market.Waiting order) :
    RoundSettles id order bitasset most most (some order.balance.assetId) []
      market after := by
  have settles : Settles [] market after := .of_cancel cancelled listed due
  obtain ⟨_, _, -, -, rfl⟩ := cancelSettlement_spec cancelled
  have gone : (market.settlements.remove id).get id = none := by
    rw [Table.get_remove, if_pos rfl]
  refine ⟨settles, by simp, .inl ⟨rfl, rfl⟩, fun other different => ?_,
    fun left there => ?_, .inl ⟨rfl, gone⟩⟩
  · rw [Table.get_remove, if_neg different]
  · rw [gone] at there
    cases there

theorem settleFirst_settles (listed : market.settlements.get id = some order)
    (held : market.bitassets.get order.balance.assetId = some bitasset)
    (done : market.settleFirst id order bitasset most = .ok (next, newMost, after)) :
    ∃ log, RoundSettles id order bitasset most newMost next log market
      after := by
  have kind : ∀ left, market.settlements.get id = some left →
      left.balance.assetId = order.balance.assetId := by
    intro left there
    rw [listed] at there
    cases there
    rfl
  unfold settleFirst at done
  simp only at done
  split at done
  · rename_i settled
    simp only [bind_eq_ok, pure_eq_ok, Prod.mk.injEq] at done
    obtain ⟨_, cancelled, rfl, rfl, rfl⟩ := done
    refine ⟨[], cancelSettlement_round cancelled listed ?_⟩
    rintro ⟨-, none⟩
    simp only [settlementOf, held, Option.bind_some] at none
    simp [BitassetData.hasSettlement, none] at settled
  · split at done
    · cases done
      exact ⟨[], .refl market, by simp, .inl ⟨rfl, rfl⟩, fun _ _ => rfl, kind,
        .inr (.inl ⟨rfl, rfl⟩)⟩
    · rename_i reached
      have due : ¬ market.Waiting order := fun waits => reached waits.1
      split at done
      · simp only [bind_eq_ok, pure_eq_ok, Prod.mk.injEq] at done
        obtain ⟨_, cancelled, rfl, rfl, rfl⟩ := done
        exact ⟨[], cancelSettlement_round cancelled listed due⟩
      · split at done
        · cases done
          exact ⟨[], .refl market, by simp, .inr ⟨rfl, .inl rfl⟩,
            fun _ _ => rfl, kind, .inr (.inl ⟨rfl, rfl⟩)⟩
        · rename_i room
          simp only [settleOrder, bind_eq_ok, found_eq_ok, pure_eq_ok,
            Prod.exists, Prod.mk.injEq] at done
          obtain ⟨_, ⟨_, -, _, _, looped, rfl⟩, rfl, rfl, rfl⟩ := done
          obtain ⟨log, loop⟩ := settleLoop_settles kind looped
          have total := loop.result_eq
          have most := loop.within (Int.not_le.mp room).le
          refine ⟨log, loop.settles held listed due, loop.only,
            .inr ⟨rfl, .inr (total ▸ most)⟩, loop.others, loop.asset, ?_⟩
          rcases loop.ending with gone | full
          · exact .inl ⟨rfl, gone⟩
          · exact .inr (.inr ⟨rfl, rfl, Int.not_le.mp room, total ▸ full⟩)

theorem head_settlementRange (head : (market.settlementRange selects).head? = some (id, order)) :
    market.settlements.get id = some order ∧ selects order.balance.assetId = true := by
  have member := (List.mem_insertionSort _).mp (List.mem_of_mem_head? head)
  obtain ⟨row, selected⟩ := List.mem_filter.mp member
  exact ⟨Table.mem_rows.mp row, selected⟩

/-- What has been settled so far is within the volumes at the start; assets
that are still to come have not been touched. -/
structure VolumesWithin (start : Market) (current : Nat) (most : Asset)
    (log : List (Nat × Int)) : Prop where
  untouched : ∀ mia, current ≤ mia → mia ≠ most.assetId → settledOf log mia = 0
  reached : most.assetId ≤ current
  most_eq : ∀ bitasset, start.bitassets.get most.assetId = some bitasset →
    most.amount = bitasset.maxForceSettlementVolume
      (start.currentSupply most.assetId)
  within : ∀ mia bitasset, start.bitassets.get mia = some bitasset → settledOf log mia = 0 ∨
      bitasset.forceSettledVolume + settledOf log mia ≤
        bitasset.maxForceSettlementVolume (start.currentSupply mia)

theorem VolumesWithin.volumeFor (volumes : VolumesWithin start current most log)
    (settles : Settles log start market) (beyond : current ≤ mia)
    (held : market.bitassets.get mia = some bitasset) :
    (market.volumeFor mia bitasset most).assetId = mia ∧
      ∀ first, start.bitassets.get mia = some first → bitasset.forceSettledVolume =
          first.forceSettledVolume + settledOf log mia ∧
        (market.volumeFor mia bitasset most).amount =
          first.maxForceSettlementVolume (start.currentSupply mia) := by
  have earlier : ∀ first, start.bitassets.get mia = some first → bitasset = { first with
        forceSettledVolume :=
          first.forceSettledVolume + settledOf log mia } := by
    intro first there
    rw [settles.bitassets, there] at held
    exact (Option.some.inj held).symm
  unfold Market.volumeFor
  split
  · rename_i new
    refine ⟨rfl, fun first there => ?_⟩
    have none := volumes.untouched mia beyond (Ne.symm new)
    rw [earlier first there, settles.supply, none]
    simp
  · rename_i same
    have same : most.assetId = mia := by simpa using same
    refine ⟨same, fun first there => ⟨by rw [earlier first there], ?_⟩⟩
    rw [← same] at there ⊢
    exact volumes.most_eq first there

theorem VolumesWithin.next {next : Option Nat} (volumes : VolumesWithin start current most log)
    (settles : Settles log start market) (beyond : current ≤ order.balance.assetId)
    (held : market.bitassets.get order.balance.assetId = some bitasset)
    (round : RoundSettles id order bitasset most newMost next later market after)
    (ahead : order.balance.assetId ≤ goal) : VolumesWithin start goal newMost (log ++ later) := by
  obtain ⟨asset, volume⟩ := volumes.volumeFor settles beyond held
  have others : ∀ mia, mia ≠ order.balance.assetId →
      settledOf (log ++ later) mia = settledOf log mia := by
    intro mia different
    rw [settledOf_append, settledOf_eq_zero round.only different, Int.add_zero]
  rcases round.volume with ⟨rfl, rfl⟩ | ⟨rfl, settled⟩
  · rw [List.append_nil]
    exact ⟨fun mia above => volumes.untouched mia (by omega),
      volumes.reached.trans (by omega), volumes.most_eq, volumes.within⟩
  · refine ⟨fun mia above different => ?_, asset.le.trans ahead,
      fun first there => ?_, fun mia first there => ?_⟩
    · rw [asset] at different
      rw [others mia different]
      have reached := volumes.reached
      exact volumes.untouched mia (by omega) (by omega)
    · rw [asset] at there ⊢
      exact (volume first there).2
    · by_cases here : mia = order.balance.assetId
      · subst here
        obtain ⟨_, _⟩ := volume first there
        rcases settled with rfl | _
        · rw [List.append_nil]
          exact volumes.within _ first there
        · right
          rw [settledOf_append]
          omega
      · rw [others mia here]
        exact volumes.within mia first there

theorem nextAsset_gt (found : market.nextAsset current = some next) : current < next := by
  obtain ⟨⟨_, _⟩, head, rfl⟩ := Option.map_eq_some_iff.mp found
  simpa using (head_settlementRange head).2

theorem RoundSettles.le_next
    (round : RoundSettles id order bitasset most newMost next log market after)
    (goes : next = some goal) : order.balance.assetId ≤ goal := by
  rcases round.moves with ⟨here, -⟩ | ⟨further, -⟩ | ⟨here, -⟩
  · rw [here] at goes
    exact (Option.some.inj goes).le
  · exact (nextAsset_gt (further.symm.trans goes)).le
  · rw [here] at goes
    exact (Option.some.inj goes).le

theorem settleDue_settles (settles : Settles log start market)
    (volumes : VolumesWithin start current most log)
    (done : settleDue fuel (some current) most market = .ok after) :
    ∃ all final goal, Settles all start after ∧ VolumesWithin start goal final all := by
  induction fuel generalizing current most market log with
  | zero => cases done
  | succ fuel induction =>
    simp only [settleDue] at done
    split at done
    · cases done
      exact ⟨log, most, current, settles, volumes⟩
    · rename_i id order head
      obtain ⟨listed, selected⟩ := head_settlementRange head
      have beyond : current ≤ order.balance.assetId := by
        simpa using selected
      simp only [bind_eq_ok, ensure_eq_ok, found_eq_ok, Prod.exists] at done
      obtain ⟨-, -, _, held, next, newMost, middle, first, rest⟩ := done
      obtain ⟨_, round⟩ := settleFirst_settles listed held first
      have through := settles.trans round.settles
      cases next with
      | none =>
        have ended : after = middle := by
          cases fuel with
          | zero => cases rest
          | succ fuel =>
            cases rest
            rfl
        subst ended
        exact ⟨_, newMost, _, through, volumes.next settles beyond held round le_rfl⟩
      | some goal =>
        exact induction through (volumes.next settles beyond held round (round.le_next rfl)) rest

/-- The loops of the outcome have come to their end. -/
def Finishes {Value : Type} (outcome : Outcome Value) : Prop := outcome ≠ .error .unfinished

theorem Finishes.bind {Result : Type} {next : Value → Outcome Result} (first : Finishes action)
    (rest : ∀ value, action = .ok value → Finishes (next value)) : Finishes (action >>= next) := by
  intro failed
  rcases bind_eq_error.mp failed with failed | ⟨value, held, failed⟩
  · exact first failed
  · exact rest value held failed

theorem finishes_pure (value : Value) : Finishes (pure value) := nofun

theorem finishes_found (value : Option Value) : Finishes (found value .refused) := by
  simp [Finishes]

theorem finishes_ensure (condition : Bool)
    (other : fault ≠ .unfinished) : Finishes (ensure condition fault) := by
  simp [Finishes, other]

theorem adjustBalance_finishes (market : Market) (account : AccountId)
    (delta : Asset) : Finishes (market.adjustBalance account delta) :=
  .bind (finishes_found _) fun _ _ => finishes_pure _

theorem cancelSettlement_finishes (market : Market) (id : Nat) :
    Finishes (market.cancelSettlement id) :=
  .bind (finishes_found _) fun _ _ =>
    .bind (adjustBalance_finishes _ _ _) fun _ _ => finishes_pure _

theorem fillCallOrder_finishes (market : Market) (id : Nat) (pays receives : Asset) :
    Finishes (market.fillCallOrder id pays receives) := by
  refine .bind (finishes_found _) fun order _ => ?_
  iterate 4 refine .bind (finishes_ensure _ nofun) fun _ _ => ?_
  unfold settleCallOrder
  split
  · refine .bind ?_ fun _ _ => finishes_pure _
    exact .bind (adjustBalance_finishes _ _ _) fun _ _ => finishes_pure _
  · exact finishes_pure _

theorem fillSettlement_finishes (market : Market) (id : Nat) (pays receives : Asset) :
    Finishes (market.fillSettlement id pays receives) := by
  refine .bind (finishes_found _) fun settle _ => ?_
  have fees : Finishes (market.payMarketFees receives) := by
    refine .bind (finishes_found _) fun asset _ => ?_
    dsimp only
    split
    · exact finishes_pure _
    · exact finishes_pure _
  refine .bind fees fun _ _ => ?_
  refine .bind (finishes_ensure _ nofun) fun _ _ => ?_
  refine .bind (adjustBalance_finishes _ _ _) fun _ _ => ?_
  split
  · exact finishes_pure _
  · exact finishes_pure _

theorem matchSettlement_finishes (market : Market) (callId id : Nat) (price : Price) (most : Int) :
    Finishes (market.matchSettlement callId id price most) := by
  refine .bind (finishes_found _) fun call _ => ?_
  refine .bind (finishes_found _) fun settle _ => ?_
  iterate 2 refine .bind (finishes_ensure _ nofun) fun _ _ => ?_
  refine .bind (finishes_found _) fun pays _ => ?_
  iterate 2 refine .bind (finishes_ensure _ nofun) fun _ _ => ?_
  refine .bind (fillCallOrder_finishes _ _ _ _) fun _ _ => ?_
  refine .bind (fillSettlement_finishes _ _ _ _) fun _ _ => ?_
  exact finishes_pure _

theorem settleLoop_finishes (enough : market.callOrders.used.card + 2 ≤ fuel ∨ 0 < fuel ∧
      (market.settlements.get id = none ∨ maxVolume ≤ settled)) :
    Finishes (settleLoop mia backing id price maxVolume fuel settled market) := by
  induction fuel generalizing settled market with
  | zero => omega
  | succ fuel induction =>
    intro failed
    rcases settleLoop_round failed with ⟨-, stopped⟩ | missing |
      cancels | ⟨_, _, ⟨amount, _, matched, rest⟩ | ⟨_, unmatched, failed⟩⟩
    · cases stopped
    · cases missing
    · exact (cancelSettlement_finishes market id).bind (fun _ _ => finishes_pure _) cancels.symm
    · obtain ⟨call, settle, listed, waiting, -, _, _, _, -,
        settlements, old, closes⟩ := matchSettlement_settles matched
      have many : market.callOrders.used.card + 2 ≤ fuel + 1 := by
        rcases enough with many | ⟨-, gone | _⟩
        · exact many
        · rw [waiting] at gone
          cases gone
        · omega
      refine induction ?_ rest
      by_cases whole : call.debt = amount
      · have fewer := Table.card_used_lt old listed (closes whole)
        omega
      · refine .inr ⟨by omega, ?_⟩
        by_cases last : amount < settle.balance.amount
        · right
          omega
        · left
          rw [settlements, if_neg last, Table.get_remove, if_pos rfl]
    · cases failed
      exact matchSettlement_finishes _ _ _ _ _ unmatched

theorem settleFirst_finishes (market : Market) (id : Nat)
    (order : ForceSettlement) (bitasset : BitassetData) (most : Asset) :
    Finishes (market.settleFirst id order bitasset most) := by
  have cancels : Finishes (do
      let market ← market.cancelSettlement id
      pure (some order.balance.assetId, most, market)) :=
    (cancelSettlement_finishes market id).bind fun _ _ => finishes_pure _
  unfold settleFirst
  dsimp only
  split
  · exact cancels
  · split
    · exact finishes_pure _
    · split
      · exact cancels
      · split
        · exact finishes_pure _
        · refine .bind ?_ fun _ _ => finishes_pure _
          refine .bind (finishes_found _) fun price _ => ?_
          have fewer : market.callOrders.used.card ≤ market.callOrders.next := Table.card_used_le
          exact .bind (settleLoop_finishes (by omega)) fun _ _ =>
            finishes_pure _

theorem settlementRange_least (head : (market.settlementRange selects).head? = some (id, order))
    (listed : market.settlements.get other = some left)
    (selected : selects left.balance.assetId = true) :
    order.balance.assetId ≤ left.balance.assetId := by
  have member : (other, left) ∈ market.settlements.rows.filter fun row =>
      selects row.2.balance.assetId :=
    List.mem_filter.mpr ⟨Table.mem_rows.mpr listed, selected⟩
  have before : settlementBefore (id, order) (other, left) = true := by
    apply Sorting.head_insertionSort _ head member
    refine Sorting.orders_of_key (fun row : Nat × ForceSettlement =>
      toLex (row.2.balance.assetId, toLex (row.2.settlementDate, row.1)))
      fun left _ right _ => ?_
    simp [settlementBefore, Prod.Lex.toLex_le_toLex]
  simp only [settlementBefore, Bool.or_eq_true, decide_eq_true_eq,
    Bool.and_eq_true, beq_iff_eq] at before
  omega

/-- The settlements from an asset on. -/
def pending (market : Market) (current : Nat) : Finset Nat :=
  market.settlements.used.filter fun id =>
    (market.settlements.get id).any fun order =>
      decide (current ≤ order.balance.assetId)

theorem mem_pending : id ∈ market.pending current ↔
    ∃ order, market.settlements.get id = some order ∧ current ≤ order.balance.assetId := by
  simp only [pending, Finset.mem_filter, Table.mem_used]
  cases market.settlements.get id with
  | none => simp
  | some order => simp

/-- The first settlement from the current asset on is of this asset, and its
volume is used up. -/
def VolumeUsed (market : Market) (current : Nat) (most : Asset) : Prop :=
  most.assetId = current ∧ (∃ id order, market.settlements.get id = some order ∧
      order.balance.assetId = current) ∧
    ∀ bitasset, market.bitassets.get current = some bitasset →
      most.amount ≤ bitasset.forceSettledVolume

/-- A round takes a settlement away, goes past it, or uses up a volume that
was not used up. -/
theorem RoundSettles.progress
    (round : RoundSettles id order bitasset most newMost (some goal) log market after)
    (head : (market.settlementRange fun assetId => decide (current ≤
      assetId)).head? = some (id, order))
    (held : market.bitassets.get order.balance.assetId = some bitasset) :
    (after.pending goal).card < (market.pending current).card ∨
      (after.pending goal).card ≤ (market.pending current).card ∧
        after.VolumeUsed goal newMost ∧ ¬ market.VolumeUsed current most := by
  obtain ⟨listed, selected⟩ := head_settlementRange head
  have beyond : current ≤ order.balance.assetId := by simpa using selected
  have ahead := round.le_next rfl
  have mine : id ∈ market.pending current := mem_pending.mpr ⟨order, listed, beyond⟩
  have fewer : after.pending goal ⊆ market.pending current := by
    intro other member
    obtain ⟨left, there, above⟩ := mem_pending.mp member
    by_cases same : other = id
    · exact same ▸ mine
    · rw [round.others other same] at there
      exact mem_pending.mpr ⟨left, there, by omega⟩
  have drops : id ∉ after.pending goal →
      (after.pending goal).card < (market.pending current).card :=
    fun gone => Finset.card_lt_card ⟨fewer, fun all => gone (all mine)⟩
  rcases round.moves with ⟨-, gone⟩ | ⟨further, rfl⟩ | ⟨here, limit, room, full⟩
  · refine .inl (drops fun member => ?_)
    obtain ⟨left, there, -⟩ := mem_pending.mp member
    rw [gone] at there
    cases there
  · refine .inl (drops fun member => ?_)
    obtain ⟨left, there, _⟩ := mem_pending.mp member
    rw [listed] at there
    cases there
    exact absurd (nextAsset_gt further.symm) (by omega)
  · cases here
    cases still : after.settlements.get id with
    | none =>
      refine .inl (drops fun member => ?_)
      obtain ⟨left, there, -⟩ := mem_pending.mp member
      rw [still] at there
      cases there
    | some left =>
      refine .inr ⟨Finset.card_le_card fewer, ⟨?_, ⟨id, left, still,
        round.asset left still⟩, fun later there => ?_⟩, ?_⟩
      · rw [limit, volumeFor]
        split
        · rfl
        · rename_i same
          simpa using same
      · rw [round.settles.bitassets, held] at there
        cases there
        exact full
      · rintro ⟨same, ⟨_, _, waiting, kind⟩, used⟩
        have least := settlementRange_least head waiting (by simp [kind])
        have equal : order.balance.assetId = current := by omega
        rw [volumeFor, if_neg (by simp [same, equal])] at limit
        have used := used bitasset (equal ▸ held)
        rw [limit] at room
        omega

theorem settleDue_finishes
    (enough : 3 * (market.pending current).card + 2 ≤ fuel ∨ 3 * (market.pending
      current).card + 1 ≤ fuel ∧ market.VolumeUsed current most) :
    Finishes (settleDue fuel (some current) most market) := by
  induction fuel generalizing current most market with
  | zero => omega
  | succ fuel induction =>
    unfold settleDue
    split
    · exact finishes_pure _
    · rename_i id order head
      obtain ⟨listed, selected⟩ := head_settlementRange head
      refine .bind (finishes_ensure _ nofun) fun _ _ => ?_
      refine .bind (finishes_found _) fun bitasset held => ?_
      refine .bind (settleFirst_finishes _ _ _ _ _) fun result first => ?_
      obtain ⟨next, _, _⟩ := result
      have held := found_eq_ok.mp held
      obtain ⟨_, round⟩ := settleFirst_settles listed held first
      have some : 0 < (market.pending current).card :=
        Finset.card_pos.mpr ⟨id, mem_pending.mpr ⟨order, listed, by
          simpa using selected⟩⟩
      cases next with
      | none =>
        obtain ⟨rounds, rfl⟩ : ∃ rounds, fuel = rounds + 1 := ⟨fuel - 1, by omega⟩
        exact finishes_pure _
      | some goal =>
        apply induction
        rcases round.progress head held with _ | ⟨_, used, fresh⟩
        · left
          omega
        · refine .inr ⟨?_, used⟩
          rcases enough with _ | ⟨-, before⟩
          · omega
          · exact absurd before fresh

/-- The loop over the force settlements ends.  What waits is untouched, and
what is settled of an asset is what its volume gains, up to the volume at the
start, and what its supply loses. -/
theorem force_settlement_processing (core : market.bitassets.get assetCore = none) :
    Finishes (settleDue (3 * market.settlements.next + 3) (some 0) ⟨0, assetCore⟩ market) ∧
    ∀ after, settleDue (3 * market.settlements.next + 3) (some 0)
        ⟨0, assetCore⟩ market = .ok after →
      ∃ log, Settling log market after ∧ (∀ id order, market.settlements.get id = some order →
          market.headBlockTime < order.settlementDate →
          market.settlementOf order.balance.assetId = none →
          after.settlements.get id = some order) ∧
        ∀ mia bitasset, market.bitassets.get mia = some bitasset →
          ∃ final, after.bitassets.get mia = some final ∧
            (final.forceSettledVolume = bitasset.forceSettledVolume ∨
              final.forceSettledVolume ≤ bitasset.maxForceSettlementVolume
                (market.currentSupply mia)) ∧
            settledOf log mia = final.forceSettledVolume - bitasset.forceSettledVolume ∧
            settledOf log mia = market.currentSupply mia - after.currentSupply mia := by
  constructor
  · apply settleDue_finishes
    have few : (market.pending 0).card ≤ market.settlements.next :=
      (Finset.card_filter_le _ _).trans Table.card_used_le
    left
    omega
  · intro after done
    have start : VolumesWithin market 0 ⟨0, assetCore⟩ [] := by
      refine ⟨fun _ _ _ => rfl, Nat.le_refl 0, fun bitasset held => ?_, fun _ _ _ => .inl rfl⟩
      rw [core] at held
      cases held
    obtain ⟨log, _, _, settles, volumes⟩ := settleDue_settles (.refl market) start done
    refine ⟨log, settles.trace, fun id order listed early alive =>
      settles.waiting id order listed ⟨early, alive⟩,
      fun mia bitasset held => ?_⟩
    refine ⟨_, by rw [settles.bitassets, held, Option.map_some], ?_, ?_, ?_⟩
    · rcases volumes.within mia bitasset held with none | within
      · left
        rw [none, Int.add_zero]
      · exact .inr within
    · exact (add_sub_cancel_left _ _).symm
    · rw [settles.supply]
      omega

/-- A borrower's settlement of a part of the debt is due after a day. -/
theorem force_settlement_processing_due : ∃ created market after log,
      (newBitasset assetCore).perform MarketTerms.free fundedGenesis = .ok created ∧
      created.run (borrowAndSettle 1 700 100 20 ++
        [(MarketTerms.free, .advance 86402)]) = .ok market ∧
      settleDue (3 * market.settlements.next + 3) (some 0) ⟨0, assetCore⟩ market = .ok after ∧
      Settling log market after ∧ settledOf log 2 = 20 := by
  have reached : ∃ created market after,
      Created created ∧ created.run (borrowAndSettle 1 700 100 20 ++
        [(MarketTerms.free, .advance 86402)]) = .ok market ∧
      settleDue (3 * market.settlements.next + 3) (some 0) ⟨0, assetCore⟩ market = .ok after ∧
      market.bitassets.get assetCore = none ∧ (market.bitassets.get 2).isSome ∧
      market.currentSupply 2 - after.currentSupply 2 = 20 :=
    ⟨_, _, _, rfl, rfl, rfl, by decide +kernel, by decide +kernel, by decide +kernel⟩
  obtain ⟨created, market, after, performed, history, done, core, held, settled⟩ := reached
  obtain ⟨bitasset, held⟩ := Option.isSome_iff_exists.mp held
  obtain ⟨log, trace, -, volumes⟩ := (force_settlement_processing core).2 after done
  obtain ⟨_, -, -, -, supply⟩ := volumes 2 bitasset held
  exact ⟨created, market, after, log, performed, history, done, trace, supply.trans settled⟩

end Market

end CocosChain.Chain

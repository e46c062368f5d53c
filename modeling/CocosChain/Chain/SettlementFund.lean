import CocosChain.Chain.GlobalSettlement
import CocosChain.Library.ProRata

/-!
# Settling from the fund

After a global settlement holders of the asset are paid from the fund at once,
at the ratio of the settlement and rounded down; the last of them gets what is
left.
-/

namespace CocosChain.Chain

open ProRata

/-- The fund covers the supply that is left, and is used up with it. -/
structure Settlement.Backs (settlement : Settlement) (supply : Int) : Prop where
  nonneg : 0 ≤ settlement.settledSupply
  unsupplied : settlement.settledSupply = 0 → settlement.settledCollateral = 0
  covers : 0 < settlement.settledSupply →
    Covers settlement.settledSupply settlement.settledCollateral supply
      settlement.fund
  spent : supply = 0 → settlement.fund = 0

/-- The part of the fund that an amount is worth. -/
def Settlement.shareOf (settlement : Settlement) (amount : Int) : Int :=
  share settlement.settledSupply settlement.settledCollateral amount

/-- The settlement after a payment. -/
def Settlement.pay (settlement : Settlement) (paid : Int) : Settlement :=
  ⟨settlement.settledSupply, settlement.settledCollateral, settlement.fund - paid⟩

/-- The settlement of an asset. -/
def Market.settlementOf (market : Market) (mia : Nat) : Option Settlement :=
  (market.bitassets.get mia).bind BitassetData.settlement

namespace AssetSettle

variable {op : AssetSettle} {market : Market}

theorem settledAmount_backs (backs : settlement.Backs (market.currentSupply op.amount.assetId))
    (within : op.amount.amount ≤ market.currentSupply op.amount.assetId)
    (done : op.settledAmount bitasset settlement market = .ok paid) :
    settlement.shareOf op.amount.amount ≤ paid.amount ∧ (settlement.pay paid.amount).Backs
        (market.currentSupply op.amount.assetId - op.amount.amount) := by
  have supplied : 0 < settlement.settledSupply := by
    simp only [settledAmount, bind_eq_ok, found_eq_ok, Asset.times,
      BitassetData.settlementPrice, if_true] at done
    obtain ⟨_, worth, -⟩ := done
    exact (scale_eq_some.mp worth).1
  have covers := backs.covers supplied
  obtain ⟨-, ⟨whole, all⟩ | ⟨part, -, -, amount⟩⟩ := settledAmount_spec done
  · rw [all]
    refine ⟨covers.share_le within, backs.nonneg, backs.unsupplied,
      fun _ => ?_, fun _ => Int.sub_self _⟩
    exact ⟨supplied, covers.collateral_nonneg, by
      simp [Settlement.pay, whole]⟩
  · have exactly : paid.amount = settlement.shareOf op.amount.amount := amount
    rw [exactly]
    refine ⟨Int.le_refl _, backs.nonneg, backs.unsupplied, fun _ => covers.rest, fun none => ?_⟩
    exact absurd (Int.sub_eq_zero.mp none).symm part

section

variable (held : market.bitassets.get op.amount.assetId = some bitasset)
include held

theorem apply_settled (settled : bitasset.settlement = some settlement)
    (done : op.apply bitasset market = .ok after) :
    ∃ paid, op.settledAmount bitasset settlement market = .ok paid ∧
      after.currentSupply op.amount.assetId =
        market.currentSupply op.amount.assetId - op.amount.amount ∧
      after.bitassets.get op.amount.assetId = some { bitasset with
        settlement := some (settlement.pay paid.amount) } := by
  obtain ⟨_, -, ⟨open_, -⟩ | ⟨_, paid, _, there, amount, -, rfl⟩⟩ := apply_cases done
  · rw [settled] at open_
    cases open_
  · rw [settled] at there
    cases there
    refine ⟨paid, amount, ?_, ?_⟩
    · simp [Market.addSupply, Int.sub_eq_add_neg]
    · rw [Table.get_modify, if_pos rfl, held]
      rfl

theorem perform_settled (settled : bitasset.settlement = some settlement)
    (amount : op.settledAmount bitasset settlement market = .ok paid)
    (done : op.perform terms market = .ok after) : after.currentSupply op.amount.assetId =
        market.currentSupply op.amount.assetId - op.amount.amount ∧
      after.settlementOf op.amount.assetId = some (settlement.pay paid.amount) := by
  simp only [perform, bind_eq_ok, ensure_eq_ok, found_eq_ok, pure_eq_ok, Prod.exists] at done
  obtain ⟨-, -, _, -, _, held', -, -, _, applying, _, _, payment, rfl⟩ := done
  rw [held] at held'
  cases held'
  obtain ⟨_, amount', supply, written⟩ := apply_settled held settled applying
  rw [amount] at amount'
  cases amount'
  have frame := Market.payFee_frame payment
  rw [Market.settlementOf, frame]
  exact ⟨supply, by simp [written]⟩

end

/-- The assertion on the fund holds: an amount of the supply that the account
can pay and whose value is in range is settled. -/
theorem apply_succeeds (settled : bitasset.settlement = some settlement)
    (backs : settlement.Backs (market.currentSupply op.amount.assetId))
    (within : op.amount.amount ≤ market.currentSupply op.amount.assetId)
    (inRange : (op.amount.times (bitasset.settlementPrice op.amount.assetId
      settlement)).isSome = true) (payable : (market.balances.adjustBalance op.account
      ⟨-op.amount.amount, op.amount.assetId⟩).isSome = true) :
    ∃ after, op.apply bitasset market = .ok after := by
  obtain ⟨value, worth⟩ := Option.isSome_iff_exists.mp inRange
  obtain ⟨balances, taken⟩ := Option.isSome_iff_exists.mp payable
  have supplied : 0 < settlement.settledSupply ∧
      value.amount = settlement.shareOf op.amount.amount := by
    simp only [Asset.times, BitassetData.settlementPrice, if_true] at worth
    obtain ⟨positive, -, -, rfl⟩ := scale_eq_some.mp worth
    exact ⟨positive, rfl⟩
  have covered : value.amount ≤ settlement.fund := by
    rw [supplied.2]
    exact (backs.covers supplied.1).share_le within
  have amount : ∀ balances, ∃ paid, 0 ≤ paid.amount ∧
      op.settledAmount bitasset settlement { market with balances } = .ok paid := by
    intro balances
    by_cases whole : op.amount.amount = market.currentSupply op.amount.assetId
    · refine ⟨⟨settlement.fund, value.assetId⟩, (Asset.times_nonneg worth).trans covered, ?_⟩
      simp [settledAmount, worth, found, whole, bind, Except.bind, pure, Except.pure]
    · refine ⟨value, Asset.times_nonneg worth, ?_⟩
      simp [settledAmount, worth, found, whole, ensure, covered, bind,
        Except.bind, pure, Except.pure]
  obtain ⟨paid, nonneg, amount⟩ := amount balances
  obtain ⟨ending, given⟩ := balances.deposit_succeeds op.account paid nonneg
  simp only [apply, settled, settleFromFund, bind_eq_ok, pure_eq_ok]
  exact ⟨_, _, Market.adjustBalance_eq_ok.mpr ⟨balances, taken, rfl⟩, paid,
    amount, _, Market.adjustBalance_eq_ok.mpr ⟨ending, given, rfl⟩, rfl⟩

end AssetSettle

namespace Market

/-- Amounts of the asset are settled from the fund one after the other: the
amounts and what is paid for them.  In between anything may happen that does
not touch the supply and the settlement. -/
inductive SettlesInTurn (mia : Nat) :
    Market → List (Int × Int) → Market → Prop where
  | done {market : Market} : SettlesInTurn mia market [] market
  | settle {market middle after : Market} {op : AssetSettle}
      {terms : MarketTerms} {bitasset : BitassetData}
      {settlement : Settlement} {paid : Asset} {rest : List (Int × Int)} :
      op.amount.assetId = mia → 0 < op.amount.amount →
      market.bitassets.get mia = some bitasset →
      bitasset.settlement = some settlement →
      op.settledAmount bitasset settlement market = .ok paid →
      op.perform terms market = .ok middle →
      SettlesInTurn mia middle rest after →
        SettlesInTurn mia market ((op.amount.amount, paid.amount) :: rest)
          after
  | other {market middle after : Market} {rest : List (Int × Int)} :
      middle.currentSupply mia = market.currentSupply mia →
      middle.settlementOf mia = market.settlementOf mia →
      SettlesInTurn mia middle rest after →
        SettlesInTurn mia market rest after

variable {market after : Market}

theorem SettlesInTurn.sum_nonneg (run : SettlesInTurn mia market payments after) :
    0 ≤ (payments.map Prod.fst).sum := by
  induction run with
  | done => simp
  | settle kind positive held there amount performed later induction =>
    simp only [List.map_cons, List.sum_cons]
    omega
  | other supply same later induction => exact induction

/-- As long as no more than the supply is settled, every amount gets its share
at least, and the fund covers what is left. -/
theorem SettlesInTurn.backs (run : SettlesInTurn mia market payments after)
    (settled : market.settlementOf mia = some settlement)
    (backs : settlement.Backs (market.currentSupply mia))
    (within : (payments.map Prod.fst).sum ≤ market.currentSupply mia) :
    (∀ payment ∈ payments, settlement.shareOf payment.1 ≤ payment.2) ∧
      after.settlementOf mia = some (settlement.pay (payments.map Prod.snd).sum) ∧
      after.currentSupply mia = market.currentSupply mia - (payments.map Prod.fst).sum ∧
      (settlement.pay (payments.map Prod.snd).sum).Backs (after.currentSupply mia) := by
  induction run generalizing settlement with
  | done =>
    refine ⟨by simp, ?_, by simp, ?_⟩
    · simpa [Settlement.pay] using settled
    · simpa [Settlement.pay] using backs
  | settle kind positive held there amount performed later induction =>
    rename_i market middle after op terms bitasset found paid rest
    subst kind
    rw [settlementOf, held, Option.bind_some, there] at settled
    cases settled
    have more := later.sum_nonneg
    simp only [List.map_cons, List.sum_cons] at within ⊢
    obtain ⟨enough, backsLater⟩ := AssetSettle.settledAmount_backs backs (by omega) amount
    obtain ⟨supply, settledLater⟩ := AssetSettle.perform_settled held there amount performed
    rw [← supply] at backsLater
    obtain ⟨shares, ending, left, backsAfter⟩ :=
      induction settledLater backsLater (by rw [supply]; omega)
    have sums : (found.pay paid.amount).pay (rest.map Prod.snd).sum =
        found.pay (paid.amount + (rest.map Prod.snd).sum) := by
      simp only [Settlement.pay, Settlement.mk.injEq, true_and]
      omega
    rw [sums] at ending backsAfter
    refine ⟨?_, ending, by rw [left, supply]; omega, backsAfter⟩
    intro payment member
    rcases List.mem_cons.mp member with rfl | member
    · exact enough
    · exact shares payment member
  | other supply same later induction =>
    rw [← same] at settled
    rw [← supply] at backs within ⊢
    exact induction settled backs within

theorem globallySettleAsset_settled (done : market.globallySettleAsset mia price = .ok after) :
    ∃ fund, after.settlementOf mia = some ⟨after.currentSupply mia, fund, fund⟩ := by
  obtain ⟨_, gathered, _, held, -, -, closed, rfl⟩ := globallySettleAsset_spec done
  have bitassets := (closeCallOrders_same closed).bitassets
  exact ⟨gathered, by simp [settlementOf, Table.get_modify, bitassets, held]⟩

/-- After a global settlement the whole supply can be settled in any parts.
As long as no more than the supply is asked for, a part that its owner can pay
and whose value is in range, as it is if the fund is, is settled; every part
gets its share of the fund at least, and all of them together get the whole
fund. -/
theorem fund_pays_everyone (done : market.globallySettleAsset mia price = .ok after)
    (settled : after.settlementOf mia = some settlement) (supplied : 0 < after.currentSupply mia)
    (funded : 0 < settlement.fund) {last : Market} (run : SettlesInTurn mia after payments last)
    (within : (payments.map Prod.fst).sum ≤ after.currentSupply mia) :
    (∀ payment ∈ payments, payment.1 * settlement.fund / after.currentSupply mia ≤ payment.2) ∧
    ((payments.map Prod.fst).sum = after.currentSupply mia →
      (payments.map Prod.snd).sum = settlement.fund) ∧
    ∀ (op : AssetSettle) bitasset left, op.amount.assetId = mia →
      last.bitassets.get mia = some bitasset →
      bitasset.settlement = some left →
      (payments.map Prod.fst).sum + op.amount.amount ≤ after.currentSupply mia →
      (0 ≤ op.amount.amount → settlement.fund ≤ maxShareSupply →
        (op.amount.times (bitasset.settlementPrice mia left)).isSome = true) ∧
      ((op.amount.times (bitasset.settlementPrice mia left)).isSome = true →
        (last.balances.adjustBalance op.account ⟨-op.amount.amount, mia⟩).isSome = true →
          ∃ next, op.apply bitasset last = .ok next) := by
  obtain ⟨fund, start⟩ := globallySettleAsset_settled done
  rw [settled] at start
  cases start
  have backs : Settlement.Backs ⟨after.currentSupply mia, fund, fund⟩ (after.currentSupply mia) :=
    ⟨supplied.le, fun none => absurd none supplied.ne',
      fun _ => ⟨supplied, funded.le, by rw [Int.mul_comm]⟩, fun none => absurd none supplied.ne'⟩
  obtain ⟨shares, ending, _, covered⟩ := run.backs settled backs within
  refine ⟨shares, fun whole => ?_, ?_⟩
  · have spent : fund - (payments.map Prod.snd).sum = 0 :=
      covered.spent (by omega)
    exact (Int.sub_eq_zero.mp spent).symm
  · rintro op _ _ rfl held there _
    rw [settlementOf, held, Option.bind_some, there] at ending
    cases ending
    refine ⟨fun nonneg small => ?_, AssetSettle.apply_succeeds there covered (by omega)⟩
    have earlier := run.sum_nonneg
    have worth : share (after.currentSupply op.amount.assetId) fund op.amount.amount ≤ fund :=
      (backs.covers supplied).share_le (by omega)
    simp only [Asset.times, BitassetData.settlementPrice, if_true]
    exact Option.isSome_iff_exists.mpr ⟨_, scale_eq_some.mpr
      ⟨supplied, Int.mul_nonneg nonneg funded.le, worth.trans small, rfl⟩⟩

/-- Account `12` holds `100` of the asset, with a fund of `33`, and settles
`40` and `60` of it. -/
theorem fund_pays_everyone_parts : ∃ created market after last first second settlement,
      (newBitasset assetCore).perform MarketTerms.free fundedGenesis = .ok created ∧
      created.run singlePosition = .ok market ∧
      market.globallySettleAsset 2 ⟨⟨3, 2⟩, ⟨1, assetCore⟩⟩ = .ok after ∧
      after.settlementOf 2 = some settlement ∧ settlement.fund = 33 ∧
      SettlesInTurn 2 after [(40, first), (60, second)] last ∧
      first + second = settlement.fund := by
  have reached : ∃ created market after middle last settlement before between left first second,
      Created created ∧ created.run singlePosition = .ok market ∧
      market.globallySettleAsset 2 ⟨⟨3, 2⟩, ⟨1, assetCore⟩⟩ = .ok after ∧
      after.bitassets.get 2 = some before ∧
      before.settlement = some settlement ∧ settlement.fund = 33 ∧ after.currentSupply 2 = 100 ∧
      (⟨12, ⟨40, 2⟩⟩ : AssetSettle).settledAmount before settlement after = .ok first ∧
      (⟨12, ⟨40, 2⟩⟩ : AssetSettle).perform MarketTerms.free after = .ok middle ∧
      middle.bitassets.get 2 = some between ∧ between.settlement = some left ∧
      (⟨12, ⟨60, 2⟩⟩ : AssetSettle).settledAmount between left middle = .ok second ∧
      (⟨12, ⟨60, 2⟩⟩ : AssetSettle).perform MarketTerms.free middle = .ok last :=
    ⟨_, _, _, _, _, _, _, _, _, _, _, rfl, rfl, rfl, rfl, rfl,
      by decide +kernel, by decide +kernel, rfl, rfl, rfl, rfl, rfl, rfl⟩
  obtain ⟨created, market, after, _, last, settlement, _, _,
    _, first, second, performed, history, settling, held, there, fund,
    supply, amount, firstDone, heldThen, thereThen, amountThen, secondDone⟩ :=
    reached
  have settled : after.settlementOf 2 = some settlement := by
    simp [settlementOf, held, there]
  have run : SettlesInTurn 2 after [(40, first.amount), (60, second.amount)] last :=
    .settle rfl (by decide) held there amount firstDone
      (.settle rfl (by decide) heldThen thereThen amountThen secondDone .done)
  have all := (fund_pays_everyone settling settled (by rw [supply]; decide)
    (by rw [fund]; decide) run (by simp [supply])).2.1 (by simp [supply])
  refine ⟨created, market, after, last, first.amount, second.amount,
    settlement, performed, history, settling, settled, fund, run, ?_⟩
  simpa using all

end Market

end CocosChain.Chain

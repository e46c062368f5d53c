import CocosChain.Chain.Budget
import CocosChain.Chain.CoreConservation

/-!
# Budgets are conserved

The core asset in circulation, together with what is set aside in the latest
budget record, is the supply.  A maintenance pays out the last record, takes
back what is left of it and sets the next one aside; a block moves a part of
the witness budget to a vesting balance.
-/

namespace CocosChain.Chain

namespace Share

theorem checked_eq_ok : checked amount = .ok result ↔ fits amount = true ∧ result = amount := by
  simp only [checked, bind_eq_ok, ensure_eq_ok, pure_eq_ok]
  constructor
  · rintro ⟨-, fits, rfl⟩
    exact ⟨fits, rfl⟩
  · rintro ⟨fits, rfl⟩
    exact ⟨(), fits, rfl⟩

theorem fits_iff : fits amount = true ↔ -2 ^ 63 ≤ amount ∧ amount < 2 ^ 63 := by
  simp [fits]

theorem toUint128_eq (nonneg : 0 ≤ amount) (fits : amount < 2 ^ 128) :
    toUint128 amount = amount.toNat := by
  rw [toUint128, Int.emod_eq_of_lt nonneg fits]

theorem ofUint128_below (fits : amount < 2 ^ 63) (below : number < toUint128 amount)
    (nonneg : 0 ≤ amount) (done : ofUint128 number = .ok result) :
    result = number ∧ number < amount := by
  rw [toUint128_eq nonneg (by omega)] at below
  simp only [ofUint128, bind_eq_ok, pure_eq_ok] at done
  obtain ⟨-, -, rfl⟩ := done
  have same : wrap number = number := Int.bmod_eq_of_le (by omega) (by omega)
  omega

end Share

theorem workerShare_within (nonneg : 0 ≤ available) (fits : available < 2 ^ 63)
    (done : workerShare available requested = .ok result) :
    0 ≤ result ∧ result ≤ available ∧ result ≤ requested := by
  unfold workerShare at done
  split at done
  · rename_i enough
    rw [Share.toUint128_eq nonneg (by omega)] at enough
    cases done
    omega
  · rename_i less
    obtain ⟨same, below⟩ := Share.ofUint128_below fits (Nat.not_le.mp less) nonneg done
    omega

namespace Market

/-- An amount of the core asset has been paid to balances or vesting balances.
Apart from that only the options of the core asset may be different. -/
structure Paid (amount : Int) (market after : Market) : Prop where
  frame : after = { market with
    balances := after.balances
    vestingBalances := after.vestingBalances
    assets := after.assets }
  received : after.balances.total assetCore +
      after.vestingBalances.total (fun key => key.2 == assetCore) =
    market.balances.total assetCore +
      market.vestingBalances.total (fun key => key.2 == assetCore) + amount
  elsewhere : ∀ assetId, assetId ≠ assetCore →
    after.balances.total assetId = market.balances.total assetId
  nonneg : market.balances.amounts.Nonneg → after.balances.amounts.Nonneg
  listed : ∀ assetId, assetId ≠ assetCore → after.assets.get assetId = market.assets.get assetId

theorem Paid.refl (market : Market) : Paid 0 market market :=
  ⟨rfl, (Int.add_zero _).symm, fun _ _ => rfl, id, fun _ _ => rfl⟩

theorem Paid.trans (first : Paid amount market middle) (second : Paid more middle after) :
    Paid (amount + more) market after where
  frame := by
    rw [second.frame, first.frame]
  received := by
    have one := first.received
    have two := second.received
    omega
  elsewhere assetId other := (second.elsewhere assetId other).trans (first.elsewhere assetId other)
  nonneg sound := second.nonneg (first.nonneg sound)
  listed assetId other := (second.listed assetId other).trans (first.listed assetId other)

theorem paid_setCoreOptions (change : AssetOptions → AssetOptions) :
    Paid 0 market (market.setCoreOptions change) where
  frame := rfl
  received := (Int.add_zero _).symm
  elsewhere _ _ := rfl
  nonneg := id
  listed assetId other := by
    rw [setCoreOptions, Table.get_modify, if_neg other]

theorem paid_depositVesting (owner : AccountId) :
    Paid amount market (market.depositVesting owner amount) where
  frame := rfl
  received := by
    simp [depositVesting, Ledger.total_adjust]
    omega
  elsewhere _ _ := rfl
  nonneg := id
  listed _ _ := rfl

theorem paid_adjustBalance
    (adjusted : market.adjustBalance account ⟨amount, assetCore⟩ = .ok after) :
    Paid amount market after := by
  obtain ⟨balances, adjusting, rfl⟩ := adjustBalance_eq_ok.mp adjusted
  have total := Balances.total_adjustBalance adjusting
  refine ⟨rfl, ?_, fun assetId other => ?_, fun sound => ?_, fun _ _ => rfl⟩
  · have core := total assetCore
    simp only [if_true] at core
    simp only [core]
    omega
  · show balances.total assetId = _
    rw [total assetId, if_neg (Ne.symm other), Int.add_zero]
  · exact Balances.nonneg_adjustBalance sound adjusting

/-- A worker that moves the greatest supply receives nothing. -/
theorem payWorker_paid {worker : Worker}
    (done : market.payWorker worker.worker amount = .ok after) :
    Paid (if worker.issuanceOrDestroy then 0 else amount) market after := by
  cases kind : worker.worker with
  | destroy =>
    rw [kind] at done
    simp only [payWorker, bind_eq_ok, pure_eq_ok] at done
    obtain ⟨_, -, -, -, rfl⟩ := done
    simp only [Worker.issuanceOrDestroy, kind, if_true]
    exact paid_setCoreOptions _
  | vestingBalance beneficiary =>
    rw [kind] at done
    cases done
    simp only [Worker.issuanceOrDestroy, kind, Bool.false_eq_true, if_false]
    exact paid_depositVesting beneficiary
  | burn =>
    rw [kind] at done
    simp only [Worker.issuanceOrDestroy, kind, Bool.false_eq_true, if_false]
    exact paid_adjustBalance done
  | issuance =>
    rw [kind] at done
    simp only [payWorker, bind_eq_ok, pure_eq_ok] at done
    obtain ⟨-, -, rfl⟩ := done
    simp only [Worker.issuanceOrDestroy, kind, if_true]
    exact paid_setCoreOptions _

theorem payActive_paid (done : payActive elapsed workers budget market = .ok (left, after)) :
    Paid (budget - left) market after := by
  induction workers generalizing budget market with
  | nil =>
    cases done
    rw [Int.sub_self]
    exact Paid.refl _
  | cons worker rest induction =>
    rw [payActive] at done
    split at done
    · exact induction done
    · simp only [bind_eq_ok] at done
      obtain ⟨_, -, _, paying, later⟩ := done
      have both := (payWorker_paid paying).trans (induction later)
      convert both using 1
      split <;> omega

theorem payCandidates_paid (done : payCandidates payouts budget market = .ok (left, after)) :
    Paid (budget - left) market after := by
  induction payouts generalizing budget market with
  | nil =>
    cases done
    rw [Int.sub_self]
    exact Paid.refl _
  | cons first rest induction =>
    obtain ⟨_, _⟩ := first
    simp only [payCandidates, bind_eq_ok] at done
    obtain ⟨_, paying, later⟩ := done
    have both := (paid_adjustBalance paying).trans (induction later)
    convert both using 1
    omega

theorem Paid.coreHeld (paid : Paid amount market after) :
    after.coreHeld = market.coreHeld + amount := by
  have received := paid.received
  rw [paid.frame]
  simp only [Market.coreHeld]
  omega

end Market

namespace Treasury

open Market

variable {treasury paid : Treasury} {round : BudgetRound} {workers : Int}

/-- What the latest record sets aside for workers and candidates. -/
def setAside (treasury : Treasury) : Int :=
  match treasury.records with
  | [] => 0
  | last :: _ => last.workerBudget + last.candidatesBudget

/-- The core asset in circulation or set aside. -/
def coreHeld (treasury : Treasury) : Int :=
  treasury.market.coreHeld + treasury.witnessBudget + treasury.setAside

theorem payWorkers_paid (done : treasury.payWorkers budget = .ok (left, paid)) :
    Paid (budget - left) treasury.market paid.market ∧ paid.records = treasury.records ∧
      paid.witnessBudget = treasury.witnessBudget := by
  simp only [payWorkers, bind_eq_ok, pure_eq_ok, Prod.exists, Prod.mk.injEq] at done
  obtain ⟨_, -, _, _, paying, rfl, rfl⟩ := done
  exact ⟨payActive_paid paying, rfl, rfl⟩

theorem payLast_paid (done : treasury.payLast round = .ok (workers, candidates, paid)) :
    Paid (treasury.setAside - (workers + candidates)) treasury.market paid.market ∧
      paid.records = treasury.records := by
  unfold payLast at done
  split at done
  · rename_i empty
    cases done
    simp only [setAside, empty]
    exact ⟨Paid.refl _, trivial⟩
  · rename_i last older latest
    simp only [bind_eq_ok, pure_eq_ok, Prod.exists, Prod.mk.injEq] at done
    obtain ⟨_, _, first, _, _, second, rfl, rfl, rfl⟩ := done
    obtain ⟨paid, records, -⟩ := payWorkers_paid first
    have both := paid.trans (payCandidates_paid second)
    refine ⟨?_, records⟩
    simp only [setAside, latest]
    convert both using 1
    omega

theorem initializeBudgetRecord_sources (done : treasury.initializeBudgetRecord = .ok record) :
    record.fromAccumulatedFees = treasury.market.accumulatedFees assetCore ∧
      record.fromUnusedWitnessBudget = treasury.witnessBudget := by
  simp only [initializeBudgetRecord, bind_eq_ok, pure_eq_ok, Prod.exists] at done
  obtain ⟨_, -, _, -, _, -, _, _, -, rfl⟩ := done
  exact ⟨rfl, rfl⟩

/-- What is planned: the workers get a part of what the witnesses leave, and
the candidates at most the rest. -/
structure Planned (treasury : Treasury) (round : BudgetRound) (record : BudgetRecord) : Prop where
  fees : record.fromAccumulatedFees = treasury.market.accumulatedFees assetCore
  unused : record.fromUnusedWitnessBudget = treasury.witnessBudget
  total : ∃ initial, treasury.initializeBudgetRecord = .ok initial ∧
    record.totalBudget = initial.totalBudget
  witness : record.witnessBudget = min (round.requestedWitnessBudget treasury.market.headBlockTime)
      record.totalBudget
  worker : 0 ≤ record.workerBudget ∧
    record.workerBudget ≤ record.totalBudget - record.witnessBudget ∧
    record.workerBudget ≤ round.requestedWorkerBudget treasury.market.headBlockTime
  candidates : record.candidatesBudget = min round.candidateAwardBudget
    (record.totalBudget - record.witnessBudget - record.workerBudget)

theorem planBudget_planned (done : treasury.planBudget round = .ok record) :
    treasury.Planned round record := by
  simp only [planBudget, bind_eq_ok, ensure_eq_ok, pure_eq_ok,
    Share.checked_eq_ok, Share.fits_iff] at done
  obtain ⟨-, -, initial, initialized, _, ⟨fits, rfl⟩, _, sharing, _, ⟨-, rfl⟩, rfl⟩ := done
  obtain ⟨fees, unused⟩ := initializeBudgetRecord_sources initialized
  refine ⟨fees, unused, ⟨initial, initialized, rfl⟩, rfl, ?_, rfl⟩
  apply workerShare_within _ fits.2 sharing
  omega

/-- The three budgets are not negative, and together within the total. -/
structure BudgetsWithin (record : BudgetRecord) : Prop where
  witness : 0 ≤ record.witnessBudget
  worker : 0 ≤ record.workerBudget
  candidates : 0 ≤ record.candidatesBudget
  total : record.witnessBudget + record.workerBudget + record.candidatesBudget ≤ record.totalBudget

/-- Nothing negative is asked for: the reserve with what flows back is not
negative, the product of the pay for a block and the number of blocks has not
wrapped around, and the award of the candidates is not negative. -/
structure RequestsSound (treasury : Treasury) (round : BudgetRound) : Prop where
  total : ∀ initial, treasury.initializeBudgetRecord = .ok initial → 0 ≤ initial.totalBudget
  witness : 0 ≤ round.requestedWitnessBudget treasury.market.headBlockTime
  award : 0 ≤ round.candidateAwardBudget

theorem Planned.within_iff (plan : treasury.Planned round record) :
    BudgetsWithin record ↔ treasury.RequestsSound round := by
  have witness := plan.witness
  have worker := plan.worker
  have candidates := plan.candidates
  obtain ⟨initial, initialized, total⟩ := plan.total
  constructor
  · intro within
    have nonneg := within.witness
    have award := within.candidates
    refine ⟨fun other again => ?_, by omega, by omega⟩
    rw [initialized] at again
    cases again
    omega
  · intro sound
    have nonneg := sound.total initial initialized
    have requested := sound.witness
    have award := sound.award
    constructor <;> omega

theorem initializeBudgetRecord_within (held : treasury.market.assets.get assetCore = some core)
    (reserve : 0 ≤ treasury.market.reserved assetCore core +
      treasury.market.accumulatedFees assetCore) (unused : 0 ≤ treasury.witnessBudget)
    (done : treasury.initializeBudgetRecord = .ok record) :
    0 ≤ record.totalBudget ∧ record.totalBudget ≤ treasury.market.reserved assetCore core +
      treasury.market.accumulatedFees assetCore + treasury.witnessBudget := by
  simp only [initializeBudgetRecord, held, bind_eq_ok, found_eq_ok,
    pure_eq_ok, Share.checked_eq_ok, Prod.exists, Option.some.injEq] at done
  obtain ⟨_, rfl, _, ⟨-, rfl⟩, _, ⟨-, rfl⟩, _, _, released, rfl⟩ := done
  simp only [totalBudget] at released
  split at released
  · cases released
    simp only
    omega
  · simp only [bind_eq_ok, pure_eq_ok, Share.checked_eq_ok, Share.fits_iff,
      Prod.mk.injEq] at released
    obtain ⟨_, ⟨fits, rfl⟩, _, releasing, -, rfl⟩ := released
    unfold releasedBudget at releasing
    split at releasing
    · rename_i below
      have released := Share.ofUint128_below fits.2 below (by omega) releasing
      simp only
      omega
    · cases releasing
      simp only
      omega

theorem processBudget_spec (done : treasury.processBudget round = .ok after) :
    ∃ record workers candidates paid, treasury.Planned round record ∧
      treasury.payLast round = .ok (workers, candidates, paid) ∧
      after = paid.bookBudget record workers candidates := by
  simp only [processBudget, bind_eq_ok, pure_eq_ok, Prod.exists] at done
  obtain ⟨record, planned, workers, candidates, paid, paying, rfl⟩ := done
  exact ⟨record, workers, candidates, paid, planBudget_planned planned, paying, rfl⟩

/-- Every unit of the supply is in circulation or set aside. -/
def Balanced (treasury : Treasury) : Prop :=
  treasury.coreHeld = treasury.market.currentSupply assetCore

theorem bookBudget_coreHeld : (paid.bookBudget record workers candidates).coreHeld =
      paid.market.coreHeld - paid.market.accumulatedFees assetCore +
        (record.witnessBudget + record.workerBudget + record.candidatesBudget) := by
  simp only [coreHeld, setAside, bookBudget, Market.coreHeld, addSupply, if_true]
  omega

theorem processBudget_balanced (done : treasury.processBudget round = .ok after)
    (balanced : treasury.Balanced) : after.Balanced := by
  obtain ⟨_, _, _, paid, plan, paying, rfl⟩ := processBudget_spec done
  obtain ⟨payment, -⟩ := payLast_paid paying
  have held := payment.coreHeld
  have fees := plan.fees
  have unused := plan.unused
  have frame := payment.frame
  have sameFees : paid.market.accumulatedFees = treasury.market.accumulatedFees := by rw [frame]
  have sameSupply : paid.market.currentSupply = treasury.market.currentSupply := by rw [frame]
  rw [Balanced, coreHeld] at balanced
  rw [Balanced, bookBudget_coreHeld]
  simp only [bookBudget, addSupply, if_true, sameFees, sameSupply]
  omega

theorem updateSigningWitness_balanced (balanced : treasury.Balanced) :
    (treasury.updateSigningWitness payPerBlock witness).Balanced := by
  have paid : Paid (min payPerBlock treasury.witnessBudget) treasury.market
      (treasury.market.depositVesting witness _) :=
    paid_depositVesting witness
  have held := paid.coreHeld
  rw [Balanced, coreHeld] at balanced ⊢
  simp only [updateSigningWitness, setAside, held] at balanced ⊢
  simp only [depositVesting]
  omega

/-- Budgets are conserved, and they are not negative exactly if nothing
negative is asked for. -/
theorem budgets_conserved (treasury : Treasury) :
    (∀ round after, treasury.processBudget round = .ok after →
      (treasury.Balanced → after.Balanced) ∧ ∃ record, after.records = record :: treasury.records ∧
          (BudgetsWithin record ↔ treasury.RequestsSound round)) ∧
      ∀ payPerBlock witness, treasury.Balanced →
        (treasury.updateSigningWitness payPerBlock witness).Balanced := by
  constructor
  · intro round after done
    refine ⟨processBudget_balanced done, ?_⟩
    obtain ⟨_, _, _, _, plan, paying, rfl⟩ := processBudget_spec done
    refine ⟨_, congrArg _ (payLast_paid paying).2, ?_⟩
    rw [← plan.within_iff]
    exact ⟨fun within => ⟨within.1, within.2, within.3, within.4⟩,
      fun within => ⟨within.1, within.2, within.3, within.4⟩⟩
  · intro payPerBlock witness
    exact updateSigningWitness_balanced

/-- One interval after a budget, with a worker of each kind. -/
def workingTreasury : Treasury where
  market := { fundedGenesis with
    currentSupply := fun assetId => if assetId = assetCore then 2000630 else 0
    headBlockTime := 86401 }
  workers := [⟨0, 1000000, 100, .burn⟩, ⟨0, 1000000, 200, .vestingBalance 11⟩,
    ⟨0, 1000000, 50, .destroy⟩, ⟨0, 1000000, 70, .issuance⟩]
  completed := []
  records := [⟨0, 0, 0, 0, 30, 630, 30, 500, 100, 0, 0, 0⟩]
  witnessBudget := 30
  lastBudgetTime := 1

/-- A round of a day with blocks every three seconds. -/
def dailyRound (witnessPayPerBlock : Int) : BudgetRound where
  blockInterval := 3
  witnessPayPerBlock
  workerBudgetPerDay := 500
  candidateAwardBudget := 100
  nextMaintenanceTime := 172801
  payouts := [(11, 60), (12, 30)]

theorem workingTreasury_balanced : workingTreasury.Balanced := by
  rw [Balanced]
  decide +kernel

theorem budgets_conserved_paid :
    ∃ after record, workingTreasury.processBudget (dailyRound 2) = .ok after ∧
      after.Balanced ∧ after.records = record :: workingTreasury.records ∧
      BudgetsWithin record ∧ (after.updateSigningWitness 2 12).Balanced := by
  obtain ⟨after, done⟩ : ∃ after,
      workingTreasury.processBudget (dailyRound 2) = .ok after := ⟨_, rfl⟩
  obtain ⟨balanced, record, records, within⟩ := (budgets_conserved workingTreasury).1 _ after done
  have balance := balanced workingTreasury_balanced
  refine ⟨after, record, done, balance, records, within.mpr ?_,
    (budgets_conserved after).2 _ _ balance⟩
  refine ⟨fun initial initialized => ?_, by decide, by decide⟩
  exact (initializeBudgetRecord_within rfl (by decide) (by decide) initialized).1

/-- The pay of a day does not fit into 64 bits. -/
theorem witness_budget_wraps : workingTreasury.Balanced ∧ ∃ after record older,
      workingTreasury.processBudget (dailyRound 400000000000000) = .ok after ∧
      after.records = record :: older ∧
      0 ≤ record.totalBudget ∧
      record.witnessBudget = -6926744073709551616 := by
  refine ⟨workingTreasury_balanced, _, _, _, rfl, rfl, ?_, ?_⟩
  · decide +kernel
  · decide +kernel

end Treasury

end CocosChain.Chain

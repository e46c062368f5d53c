import CocosChain.Chain.BudgetConservation
import CocosChain.Chain.Solvency

/-!
# The greatest supply

An asset has a greatest supply in its options.  Issuing checks it.  The other
events of the market only lower the supply, except for a loan, which is not
checked; an update of the options may set the greatest supply below the supply
there is; and a maintenance derives the new budgets from a greatest supply
that its workers may lower before the budgets are booked.
-/

namespace CocosChain.Chain

open CallOrder

namespace Market

/-- No supply is greater than before. -/
def SupplyFalls (market after : Market) : Prop :=
  ∀ assetId, after.currentSupply assetId ≤ market.currentSupply assetId

variable {market : Market} {id : Nat}

theorem SupplyFalls.of_eq (same : after.currentSupply = market.currentSupply) :
    SupplyFalls market after := by
  intro assetId
  rw [same]

theorem SupplyFalls.trans (first : SupplyFalls market middle)
    (second : SupplyFalls middle after) : SupplyFalls market after :=
  fun assetId => (second assetId).trans (first assetId)

variable {op : CallOrderUpdate} {balances : Balances}

theorem marginCall_supply (form : WellFormed market) (indebted : Indebted market)
    (listed : market.callOrders.get callId = some call)
    (offered : market.limitOrders.get limitId = some order)
    (done : market.marginCall callId limitId call order = .ok (usedUp, after)) :
    SupplyFalls market after := by
  obtain ⟨_, middle, _, _, pays, first, second, -, amounts⟩ := marginCall_cases done
  have paid : 0 ≤ pays.amount := by
    rcases amounts with ⟨-, -, rfl⟩ | ⟨-, -, rfl⟩
    · exact (form.orders limitId order offered).forSale.le
    · exact (indebted.positive callId call listed).le
  intro assetId
  have some : 0 ≤ pays.countIn assetId := countIn_nonneg paid
  rw [(fillLimitOrder_frame second).1.currentSupply,
    (fillCallOrder_net (fun _ => 0) assetId first).2]
  omega

theorem globallySettleAsset_supply (form : WellFormed market)
    (done : market.globallySettleAsset mia price = .ok after) :
    after.currentSupply = market.currentSupply := by
  obtain ⟨_, _, _, held, -, -, closed, rfl⟩ := globallySettleAsset_spec done
  have backed := backingOf_of_held held
  have kinds := callRange_kinds form backed
  funext assetId
  show (if assetId = mia then _ else _) = _
  split
  · rename_i here
    rw [here]
  · rename_i different
    exact (closeCallOrders_net (fun _ => 0) assetId kinds closed).2.1 different

theorem marginClosed_supplyFalls : MarginClosed fun market after =>
    WellFormed market ∧ Nonnegative market ∧ Indebted market →
      (WellFormed after ∧ Nonnegative after ∧ Indebted after) ∧ SupplyFalls market after where
  refl _ sound := ⟨sound, .of_eq rfl⟩
  trans first second sound :=
    have middle := first sound
    have last := second middle.1
    ⟨last.1, middle.2.trans last.2⟩
  marginCall call order done sound :=
    ⟨marginClosed_keepsDebts.marginCall call order done sound,
      marginCall_supply sound.1 sound.2.2 call order done⟩
  globallySettleAsset done sound :=
    ⟨marginClosed_keepsDebts.globallySettleAsset done sound,
      .of_eq (globallySettleAsset_supply sound.1 done)⟩

/-- The market stays solvent, and no supply grows. -/
def Deflates (market after : Market) : Prop :=
  Solvent market → Solvent after ∧ SupplyFalls market after

theorem cancelBidsAndRevive_supply (done : market.cancelBidsAndRevive mia = .ok after) :
    after.currentSupply = market.currentSupply := by
  obtain ⟨_, _, cancelled, rfl⟩ := cancelBidsAndRevive_spec done
  exact (cancelBids_net (fun _ => 0) 0 cancelled).supply

theorem reviveBitasset_supply (done : market.reviveBitasset mia = .ok after) :
    after.currentSupply = market.currentSupply := by
  obtain ⟨_, _, _, _, _, _, ways, revived⟩ := reviveBitasset_cases done
  rw [cancelBidsAndRevive_supply revived]
  rcases ways with ⟨-, -, -, rfl⟩ | ⟨-, ⟨_, rfl⟩, executed⟩
  · rfl
  · exact (bidsExecuted_net (fun _ => 0) 0 executed).2.1

theorem cancelSettlement_supply (done : market.cancelSettlement id = .ok after) :
    after.currentSupply = market.currentSupply := by
  obtain ⟨_, _, -, -, rfl⟩ := cancelSettlement_spec done
  rfl

theorem matchSettlement_supply (some : 0 < most)
    (done : market.matchSettlement callId settleId price most = .ok (amount, after)) :
    SupplyFalls market after := by
  obtain ⟨_, settle, _, _, middle, _, -, -, -,
    ⟨_, balance⟩, _, -, -, first, second⟩ := matchSettlement_spec done
  have supply := fun assetId => (fillCallOrder_net (fun _ => 0) assetId first).2
  have received : 0 ≤ amount := by omega
  obtain ⟨_, _, _, _, -, -, -, -, rfl⟩ := fillSettlement_spec second
  intro assetId
  have less : 0 ≤ Asset.countIn ⟨amount, settle.balance.assetId⟩ assetId := countIn_nonneg received
  show middle.currentSupply assetId ≤ _
  rw [supply assetId]
  omega

theorem loanFree_deflates : LoanFreeFeedClosed Deflates where
  refl _ sound := ⟨sound, .of_eq rfl⟩
  trans first second sound :=
    have middle := first sound
    have last := second middle.1
    ⟨last.1, middle.2.trans last.2⟩
  cancelLimitOrder done sound :=
    ⟨eventClosed_keepsSolvent.cancelLimitOrder done sound,
      .of_eq (cancelLimitOrder_frame done).1.currentSupply⟩
  matchLimitOrders done sound :=
    ⟨eventClosed_keepsSolvent.matchLimitOrders done sound,
      .of_eq (matchLimitOrders_frame done).currentSupply⟩
  checkCallOrders done sound :=
    ⟨eventClosed_keepsSolvent.checkCallOrders done sound,
      (marginClosed_supplyFalls.checkCallOrders done
        ⟨sound.wellFormed, sound.nonnegative, sound.indebted⟩).2⟩
  globallySettleAsset done sound :=
    ⟨eventClosed_keepsSolvent.globallySettleAsset done sound,
      .of_eq (globallySettleAsset_supply sound.wellFormed done)⟩
  payFee paid sound :=
    ⟨eventClosed_keepsSolvent.payFee paid sound, .of_eq (by rw [payFee_frame paid])⟩
  placeOrder valid evaluated done sound := by
    refine ⟨eventClosed_keepsSolvent.placeOrder valid evaluated done sound, .of_eq ?_⟩
    obtain ⟨balances, -, rfl⟩ := LimitOrderCreate.place_spec done
    rfl
  cancelBid done sound :=
    have moved : MovesBids (fun _ => 0) 0 _ _ := cancelBid_net done
    ⟨eventClosed_keepsSolvent.cancelBid done sound, .of_eq moved.supply⟩
  placeBid valid held asset done sound := by
    refine ⟨eventClosed_keepsSolvent.placeBid valid held asset done sound, .of_eq ?_⟩
    obtain ⟨balances, -, -, rfl⟩ := BidCollateral.placeBid_spec done
    rfl
  settle nonneg held done sound := by
    refine ⟨eventClosed_keepsSolvent.settle nonneg held done sound, ?_⟩
    obtain ⟨_, -, ⟨-, _, rfl⟩ | ⟨_, settled, _, -, -, -, rfl⟩⟩ := AssetSettle.apply_cases done
    · exact .of_eq rfl
    · intro assetId
      show (addSupply _ _ _).currentSupply assetId ≤ _
      have less : 0 ≤ Asset.countIn _ assetId := countIn_nonneg nonneg
      rw [currentSupply_addSupply, countIn_neg, countIn_eta]
      omega
  cancelSettlement done sound :=
    ⟨eventClosed_keepsSolvent.cancelSettlement done sound, .of_eq (cancelSettlement_supply done)⟩
  matchSettlement some done sound := by
    refine ⟨eventClosed_keepsSolvent.matchSettlement some done sound, ?_⟩
    exact matchSettlement_supply some done
  setVolume market mia volume sound :=
    ⟨eventClosed_keepsSolvent.setVolume market mia volume sound, .of_eq rfl⟩
  reviveBitasset done sound :=
    ⟨eventClosed_keepsSolvent.reviveBitasset done sound, .of_eq (reviveBitasset_supply done)⟩
  processBids held settled done sound := by
    refine ⟨eventClosed_keepsSolvent.processBids held settled done sound, .of_eq ?_⟩
    rcases processBids_cases sound.wellFormed.bids done with rfl | ⟨middle, executed, revived⟩
    · rfl
    · rw [cancelBidsAndRevive_supply revived]
      exact (bidsExecuted_net (fun _ => 0) 0 executed).2.1
  deferFee market id filled fee sound := by
    obtain ⟨_, same, -⟩ := deferFee_spec market id filled fee
    refine ⟨eventClosed_keepsSolvent.deferFee market id filled fee sound, .of_eq ?_⟩
    rw [same]
  publishFeed valid held evaluated sound :=
    ⟨feedClosed_keepsSolvent.publishFeed valid held evaluated sound, .of_eq rfl⟩
  updateProducers market op sound :=
    ⟨feedClosed_keepsSolvent.updateProducers market op sound, .of_eq rfl⟩
  expire market mia sound := ⟨feedClosed_keepsSolvent.expire market mia sound, .of_eq rfl⟩
  advance market time sound := ⟨feedClosed_keepsSolvent.advance market time sound, .of_eq rfl⟩

/-- The supply grows by the loan at most: what is called at once is paid
back. -/
theorem callOrderUpdate_supply (sound : Solvent market)
    (done : op.perform terms market = .ok after) (assetId : Nat) :
    after.currentSupply assetId ≤
      market.currentSupply assetId + op.deltaDebt.countIn assetId := by
  obtain ⟨_, _, _, valid, held, evaluated, adjusted, later⟩ :=
    loanFree_deflates.toLoanFreeClosed.callOrderUpdate done
  have between := eventClosed_keepsSolvent.adjustCallOrder valid held evaluated adjusted sound
  rw [← adjust_supply adjusted]
  exact (later between).2 assetId

theorem Solvent.withBooks (sound : Solvent market) {assets : Table AssetObject}
    (nonneg : balances.amounts.Nonneg) (charged : ∀ assetId, assetId ≠ assetCore → 0 ≤ fees assetId)
    (rated : GasRated { market with assets })
    (conserved : ∀ assetId, assetId ≠ assetCore → assetId ≠ assetGas →
      balances.total assetId + fees assetId - supply assetId =
      market.balances.total assetId + market.accumulatedFees assetId -
      market.currentSupply assetId)
    (issued : ∀ mia, market.isMarketIssued mia = true → supply mia = market.currentSupply mia) :
    Solvent { market with
      balances
      vestingBalances := vesting
      assets
      currentSupply := supply
      accumulatedFees := fees } where
  wellFormed := ⟨sound.wellFormed.orders, sound.wellFormed.calls,
    sound.wellFormed.bids, sound.wellFormed.settlements, sound.wellFormed.ratios, rated⟩
  nonnegative := ⟨nonneg, sound.nonnegative.settlements,
    sound.nonnegative.collateral, sound.nonnegative.funds, charged⟩
  plain := sound.plain
  drawn := sound.drawn
  agree := sound.agree
  conserved assetId notCore notGas := by
    have before := sound.conserved assetId notCore notGas
    have moved := conserved assetId notCore notGas
    simp only [holdings] at before ⊢
    omega
  indebted := by
    refine ⟨fun mia bitasset held unsettled => ?_, sound.indebted.positive, sound.indebted.closed⟩
    have same := issued mia (by rw [isMarketIssued, held, Option.isSome_some])
    show market.debtOf mia = supply mia
    rw [same]
    exact sound.indebted.owed mia bitasset held unsettled
  collateralized := sound.collateralized

theorem Solvent.moveSupply (sound : Solvent market)
    (adjusted : market.balances.adjustBalance account delta = some balances)
    (plain : market.isMarketIssued delta.assetId = false) :
    Solvent (addSupply { market with balances } delta.assetId delta.amount) := by
  have total := Balances.total_adjustBalance adjusted
  apply sound.withBooks (Balances.nonneg_adjustBalance sound.nonnegative.balances adjusted)
    sound.nonnegative.fees sound.wellFormed.gasRate
  · intro assetId _ _
    rw [total assetId]
    by_cases here : assetId = delta.assetId
    · rw [if_pos here, if_pos here.symm]
      show _ + _ + _ - (market.currentSupply assetId + _) = _
      omega
    · rw [if_neg here, if_neg (Ne.symm here)]
      show _ + _ + _ - market.currentSupply assetId = _
      omega
  · intro mia issued
    rw [if_neg]
    rintro rfl
    rw [plain] at issued
    cases issued

theorem issue_spec {op : AssetIssue} (done : op.perform terms market = .ok after) :
    ∃ asset balances fee, market.assets.get op.assetToIssue.assetId = some asset ∧
      market.isMarketIssued op.assetToIssue.assetId = false ∧
      market.currentSupply op.assetToIssue.assetId +
        op.assetToIssue.amount ≤ asset.options.maxSupply ∧
      market.balances.adjustBalance op.issueToAccount op.assetToIssue = some balances ∧
      payFee (addSupply { market with balances } op.assetToIssue.assetId
        op.assetToIssue.amount) terms op.issuer terms.coreFee = .ok (fee, after) := by
  simp only [AssetIssue.perform, AssetIssue.evaluate, bind_eq_ok,
    ensure_eq_ok, found_eq_ok, pure_eq_ok, Prod.exists, Bool.and_eq_true,
    decide_eq_true_eq, Bool.not_eq_true'] at done
  obtain ⟨-, -, asset, held, -, ⟨⟨⟨⟨⟨-, plain⟩, -⟩, -⟩, -⟩, most⟩, _,
    adjusted, fee, _, payment, rfl⟩ := done
  obtain ⟨balances, adjusting, rfl⟩ := adjustBalance_eq_ok.mp adjusted
  exact ⟨asset, balances, fee, held, plain, most, adjusting, payment⟩

theorem reserve_spec {op : AssetReserve} (done : op.perform terms market = .ok after) :
    ∃ balances fee, 0 < op.amountToReserve.amount ∧
      market.isMarketIssued op.amountToReserve.assetId = false ∧
      market.balances.adjustBalance op.payer
        ⟨-op.amountToReserve.amount, op.amountToReserve.assetId⟩ = some balances ∧
      payFee (addSupply { market with balances } op.amountToReserve.assetId
        (-op.amountToReserve.amount)) terms op.payer terms.coreFee = .ok (fee, after) := by
  simp only [AssetReserve.perform, AssetReserve.evaluate, bind_eq_ok,
    ensure_eq_ok, pure_eq_ok, Prod.exists, Bool.and_eq_true,
    decide_eq_true_eq, Bool.not_eq_true'] at done
  obtain ⟨-, ⟨-, positive⟩, -, -, -, ⟨⟨plain, -⟩, -⟩, _, adjusted, fee, _, payment, rfl⟩ := done
  obtain ⟨balances, adjusting, rfl⟩ := adjustBalance_eq_ok.mp adjusted
  exact ⟨balances, fee, positive, plain, adjusting, payment⟩

theorem update_spec {op : AssetUpdate} (done : op.perform terms market = .ok after) :
    ∃ middle fee, (∀ rate, op.newOptions.coreExchangeRate = some rate →
        rate.base.assetId = op.assetToUpdate ∧ rate.quote.assetId = assetCore) ∧
      KeepsSolvent market middle ∧ middle.currentSupply = market.currentSupply ∧
      middle.assets = market.assets ∧
      payFee { middle with
        assets := middle.assets.modify op.assetToUpdate fun asset =>
          { asset with
            issuer := op.newIssuer.getD asset.issuer
            options := op.newOptions } } terms op.issuer terms.coreFee =
          .ok (fee, after) := by
  simp only [AssetUpdate.perform, bind_eq_ok, ensure_eq_ok, found_eq_ok,
    pure_eq_ok, Prod.exists] at done
  obtain ⟨-, valid, _, -, -, evaluated, middle, cancelled, fee, _, payment, rfl⟩ := done
  obtain ⟨keeps, supply, assets⟩ := cancelDisabled_closed
    (fun market after => KeepsSolvent market after ∧ after.currentSupply = market.currentSupply ∧
      after.assets = market.assets) (fun _ => ⟨id, rfl, rfl⟩)
    (fun first second => ⟨fun sound => second.1 (first.1 sound),
      second.2.1.trans first.2.1, second.2.2.trans first.2.2⟩)
    (fun done => ⟨eventClosed_keepsSolvent.cancelSettlement done,
      cancelSettlement_supply done, (cancelSettlement_same done).assets⟩) cancelled
  refine ⟨middle, fee, fun rate rated => ?_, keeps, supply, assets, payment⟩
  simp only [AssetUpdate.validate, AssetOptions.validate, rated,
    Option.all_some, Bool.and_eq_true, beq_iff_eq] at valid
  simp only [AssetUpdate.evaluate, rated, Option.all_some, Bool.and_eq_true,
    beq_iff_eq] at evaluated
  exact ⟨evaluated.1.1.1.1.2, valid.2.1.2.1.1⟩

theorem Solvent.update (sound : Solvent market) {op : AssetUpdate}
    (done : op.perform terms market = .ok after) : Solvent after := by
  obtain ⟨_, _, rates, keeps, -, -, payment⟩ := update_spec done
  have between := keeps sound
  apply eventClosed_keepsSolvent.payFee payment
  apply between.withBooks between.nonnegative.balances between.nonnegative.fees
  · intro gas rate there rated
    rw [Table.get_modify] at there
    split at there
    · rename_i here
      obtain ⟨_, -, rfl⟩ := Option.map_eq_some_iff.mp there
      obtain ⟨base, quote⟩ := rates rate rated
      rintro _ (rfl | rfl)
      · exact .inr (base.trans here.symm)
      · exact .inl quote
    · exact between.wellFormed.gasRate gas rate there rated
  · intro _ _ _
    rfl
  · intro _ _
    rfl

end Market

/-- What may happen to the supplies and to the greatest supplies. -/
inductive SupplyEvent where
  | market (event : MarketEvent)
  | assetIssue (op : AssetIssue)
  | assetReserve (op : AssetReserve)
  | assetUpdate (op : AssetUpdate)
  | workerCreate (op : WorkerCreate)
  | signBlock (payPerBlock : Int) (witness : AccountId)
  | processBudget (round : BudgetRound)

/-- What the witnesses, the workers and the candidates are to get until the next
maintenance. -/
def BudgetRound.requests (round : BudgetRound) (now : Nat) : Int :=
  round.requestedWitnessBudget now + round.requestedWorkerBudget now + round.candidateAwardBudget

/-- What the worker takes off the greatest supply, if the budget is at most so
much. -/
def Worker.lowers (worker : Worker) (elapsed most : Int) : Int :=
  match worker.worker, worker.requestedPay elapsed with
  | .destroy, .ok pay => max 0 (min most pay)
  | _, _ => 0

theorem Worker.lowers_nonneg (worker : Worker) (elapsed most : Int) :
    0 ≤ worker.lowers elapsed most := by
  unfold lowers
  split
  · exact Int.le_max_left ..
  · exact Int.le_refl 0

namespace Treasury

open Market

def onMarket (treasury : Treasury) (result : Outcome Market) : Outcome Treasury := do
  let market ← result
  pure { treasury with market }

def perform (treasury : Treasury) : MarketTerms × SupplyEvent → Outcome Treasury
  | (terms, .market event) =>
      treasury.onMarket (treasury.market.perform terms event)
  | (terms, .assetIssue op) =>
      treasury.onMarket (op.perform terms treasury.market)
  | (terms, .assetReserve op) =>
      treasury.onMarket (op.perform terms treasury.market)
  | (terms, .assetUpdate op) =>
      treasury.onMarket (op.perform terms treasury.market)
  | (terms, .workerCreate op) => op.perform terms treasury
  | (_, .signBlock payPerBlock witness) =>
      pure (treasury.updateSigningWitness payPerBlock witness)
  | (_, .processBudget round) => treasury.processBudget round

/-- No supply is above the greatest one. -/
def Capped (treasury : Treasury) : Prop :=
  ∀ assetId asset, treasury.market.assets.get assetId = some asset →
    treasury.market.currentSupply assetId ≤ asset.options.maxSupply

/-- What the budgets may come from. -/
def reserve (treasury : Treasury) (core : AssetObject) : Int :=
  treasury.market.reserved assetCore core + treasury.market.accumulatedFees assetCore +
    treasury.witnessBudget

/-- What the workers may take off the greatest supply if they are paid until
the given time. -/
def lowered (treasury : Treasury) (time : Nat) : Int :=
  ((treasury.workers.filter (·.isActive treasury.market.headBlockTime)).map fun worker =>
    worker.lowers (time - treasury.lastBudgetTime)
      (treasury.records.head?.elim 0 BudgetRecord.workerBudget)).sum

/-- The workers may be paid until now or until the end of one of them. -/
def PaidUntil (treasury : Treasury) (time : Nat) : Prop :=
  time = treasury.market.headBlockTime ∨ ∃ worker ∈ treasury.workers, worker.workEndDate = time

/-- There is room in the reserve for what is asked for and for what the workers
take off; the last budgets cover what is paid out of them, and nothing negative
is. -/
structure RoomForBudget (treasury : Treasury) (round : BudgetRound) : Prop where
  unused : 0 ≤ treasury.witnessBudget
  fees : 0 ≤ treasury.market.accumulatedFees assetCore
  last : ∀ last ∈ treasury.records.head?, 0 ≤ last.workerBudget ∧
    (round.payouts.map Prod.snd).sum ≤ last.candidatesBudget
  pays : ∀ time, treasury.PaidUntil time → ∀ worker ∈ treasury.workers, ∀ pay,
    worker.requestedPay (time - treasury.lastBudgetTime) = .ok pay → 0 ≤ pay
  room : ∀ time, treasury.PaidUntil time → ∀ core,
    treasury.market.assets.get assetCore = some core →
      min (round.requests treasury.market.headBlockTime) (treasury.reserve core) +
        treasury.lowered time ≤ treasury.reserve core

/-- A loan stays below the greatest supply, an update does not set the greatest
supply below the supply, and there is room for budgets. -/
def KeepsCap (treasury : Treasury) : MarketTerms × SupplyEvent → Prop
  | (_, .market (.callOrderUpdate op)) =>
      ∀ asset, treasury.market.assets.get op.deltaDebt.assetId = some asset →
        treasury.market.currentSupply op.deltaDebt.assetId +
          op.deltaDebt.amount ≤ asset.options.maxSupply
  | (_, .assetUpdate op) =>
      treasury.market.currentSupply op.assetToUpdate ≤ op.newOptions.maxSupply
  | (_, .processBudget round) => treasury.RoomForBudget round
  | _ => True

variable {treasury : Treasury}

theorem onMarket_eq_ok : treasury.onMarket result = .ok after ↔
      ∃ market, result = .ok market ∧ after = { treasury with market } := by
  simp only [onMarket, bind_eq_ok, pure_eq_ok]
  constructor
  · rintro ⟨market, done, rfl⟩
    exact ⟨market, done, rfl⟩
  · rintro ⟨market, done, rfl⟩
    exact ⟨market, done, rfl⟩

variable {market : Market}

theorem Paid.solvent (paid : Paid amount market middle) (sound : Solvent market) :
    Solvent middle := by
  rw [paid.frame]
  apply sound.withBooks (paid.nonneg sound.nonnegative.balances) sound.nonnegative.fees
  · intro gas rate there rated
    have listed : middle.assets.get assetGas = market.assets.get assetGas :=
      paid.listed assetGas (by decide)
    exact sound.wellFormed.gasRate gas rate (listed.symm.trans there) rated
  · intro assetId notCore _
    rw [paid.elsewhere assetId notCore]
  · intro _ _
    rfl

theorem bookBudget_solvent {workers : Int} (sound : Solvent treasury.market) :
    Solvent (treasury.bookBudget record workers candidates).market := by
  apply sound.withBooks sound.nonnegative.balances
  · intro assetId notCore
    rw [if_neg notCore]
    exact sound.nonnegative.fees assetId notCore
  · exact sound.wellFormed.gasRate
  · intro assetId notCore _
    rw [if_neg notCore]
    show _ - (if assetId = assetCore then _ else _) = _
    rw [if_neg notCore]
  · intro mia issued
    show (if mia = assetCore then _ else _) = _
    rw [if_neg]
    rintro rfl
    rw [sound.plain assetCore (.inl rfl)] at issued
    cases issued

theorem assetsStay : FeedClosed fun market after =>
    after.assets = market.assets where
  toEventClosed := eventClosed_sameTerms.mono SameTerms.assets
    fun first second => second.trans first
  publishFeed _ _ _ := rfl
  updateProducers _ _ := rfl
  expire _ _ := rfl
  advance _ _ := rfl

theorem payWorker_cap {worker : Worker} (requested : worker.requestedPay elapsed = .ok pay)
    (nonneg : 0 ≤ budget) (most : budget ≤ limit) (positive : 0 ≤ pay)
    (done : market.payWorker worker.worker (min budget pay) = .ok middle)
    (held : middle.assets.get assetCore = some asset) :
    ∃ core, market.assets.get assetCore = some core ∧
      core.options.maxSupply - worker.lowers elapsed limit ≤ asset.options.maxSupply := by
  have listed {change : AssetOptions → AssetOptions}
      (there : (market.setCoreOptions change).assets.get assetCore = some asset) :
      ∃ core, market.assets.get assetCore = some core ∧ asset.options = change core.options := by
    simp only [setCoreOptions, Table.get_modify, if_true, Option.map_eq_some_iff] at there
    obtain ⟨core, found, rfl⟩ := there
    exact ⟨core, found, rfl⟩
  cases kind : worker.worker with
  | destroy =>
    simp only [kind, payWorker, bind_eq_ok, pure_eq_ok] at done
    obtain ⟨_, -, -, -, rfl⟩ := done
    obtain ⟨core, found, options⟩ := listed held
    refine ⟨core, found, ?_⟩
    simp only [Worker.lowers, kind, requested, options, AssetOptions.destroy]
    omega
  | issuance =>
    simp only [kind, payWorker, bind_eq_ok, pure_eq_ok] at done
    obtain ⟨-, -, rfl⟩ := done
    obtain ⟨core, found, options⟩ := listed held
    refine ⟨core, found, ?_⟩
    simp only [Worker.lowers, kind, requested, options, AssetOptions.issue]
    omega
  | vestingBalance beneficiary =>
    rw [kind] at done
    cases done
    exact ⟨asset, held, by simp [Worker.lowers, kind]⟩
  | burn =>
    rw [kind] at done
    obtain ⟨_, -, rfl⟩ := adjustBalance_eq_ok.mp done
    exact ⟨asset, held, by simp [Worker.lowers, kind]⟩

theorem payActive_cap {active : List Worker} (nonneg : 0 ≤ budget) (most : budget ≤ limit)
    (pays : ∀ worker ∈ active, ∀ pay, worker.requestedPay elapsed = .ok pay → 0 ≤ pay)
    (done : payActive elapsed active budget market = .ok (left, middle))
    (held : middle.assets.get assetCore = some asset) : 0 ≤ left ∧
      ∃ core, market.assets.get assetCore = some core ∧
        core.options.maxSupply - (active.map (·.lowers elapsed limit)).sum ≤
          asset.options.maxSupply := by
  induction active generalizing budget market with
  | nil =>
    cases done
    exact ⟨nonneg, asset, held, by simp⟩
  | cons worker rest induction =>
    have some := worker.lowers_nonneg elapsed limit
    have others := fun other member => pays other (List.mem_cons_of_mem _ member)
    simp only [List.map_cons, List.sum_cons]
    rw [payActive] at done
    split at done
    · obtain ⟨leaves, core, found, least⟩ := induction nonneg most others done
      exact ⟨leaves, core, found, by omega⟩
    · simp only [bind_eq_ok] at done
      obtain ⟨pay, requested, _, paying, later⟩ := done
      have positive := pays worker List.mem_cons_self pay requested
      obtain ⟨leaves, middleCore, there, least⟩ := induction (by split <;> omega)
        (by split <;> omega) others later
      obtain ⟨core, found, before⟩ := payWorker_cap requested nonneg most positive paying there
      exact ⟨leaves, core, found, by omega⟩

theorem payCandidates_spec (done : payCandidates payouts budget market = .ok (left, middle)) :
    left = budget - (payouts.map Prod.snd).sum ∧ middle.assets = market.assets := by
  induction payouts generalizing budget market with
  | nil =>
    cases done
    simp
  | cons first rest induction =>
    obtain ⟨_, _⟩ := first
    simp only [payCandidates, bind_eq_ok] at done
    obtain ⟨_, paying, later⟩ := done
    obtain ⟨leaves, assets⟩ := induction later
    obtain ⟨_, -, rfl⟩ := adjustBalance_eq_ok.mp paying
    refine ⟨?_, assets⟩
    simp only [List.map_cons, List.sum_cons]
    omega

theorem scanWorkers_spec {listed : List Worker}
    (done : scanWorkers someCompleted now listed = .ok scan) :
    scan.active.Sublist (listed.filter (·.isActive now)) ∧
      (scan.settlementTime = now ∨ ∃ ended ∈ listed, ended.workEndDate = scan.settlementTime) := by
  induction listed generalizing scan with
  | nil =>
    cases done
    exact ⟨.slnil, .inl rfl⟩
  | cons worker rest induction =>
    rw [scanWorkers] at done
    split at done
    · split at done
      · cases done
        exact ⟨List.nil_sublist _, .inr ⟨worker, List.mem_cons_self, rfl⟩⟩
      · cases done
    · simp only [bind_eq_ok, pure_eq_ok] at done
      obtain ⟨scanned, earlier, rfl⟩ := done
      obtain ⟨sublist, time⟩ := induction earlier
      refine ⟨?_, time.imp_right ?_⟩
      · rw [List.filter_cons]
        split
        · exact sublist.cons_cons worker
        · exact sublist
      · rintro ⟨ended, member, same⟩
        exact ⟨ended, List.mem_cons_of_mem _ member, same⟩

/-- What the last budgets leave is not negative, and the greatest supply is
lowered by what the workers may take off. -/
theorem RoomForBudget.payLast {round : BudgetRound} (room : treasury.RoomForBudget round)
    (done : treasury.payLast round = .ok (left, candidates, paid))
    (held : paid.market.assets.get assetCore = some asset) : 0 ≤ left ∧ 0 ≤ candidates ∧
      ∃ core time, treasury.market.assets.get assetCore = some core ∧ treasury.PaidUntil time ∧
        core.options.maxSupply - treasury.lowered time ≤ asset.options.maxSupply := by
  have nonneg (time : Nat) (workers : List Worker) : ∀ amount ∈ workers.map fun worker =>
      worker.lowers (time - treasury.lastBudgetTime)
        (treasury.records.head?.elim 0 BudgetRecord.workerBudget), 0 ≤ amount := by
    intro _ member
    obtain ⟨worker, -, rfl⟩ := List.mem_map.mp member
    exact worker.lowers_nonneg _ _
  unfold Treasury.payLast at done
  split at done
  · cases done
    refine ⟨Int.le_refl 0, Int.le_refl 0, asset, _, held, .inl rfl, ?_⟩
    have lowered : 0 ≤ treasury.lowered treasury.market.headBlockTime :=
      List.sum_nonneg (nonneg _ _)
    omega
  · rename_i latest older listed
    have head : treasury.records.head? = some latest := by rw [listed, List.head?_cons]
    obtain ⟨least, covered⟩ := room.last latest head
    simp only [payWorkers, bind_eq_ok, pure_eq_ok, Prod.exists, Prod.mk.injEq] at done
    obtain ⟨_, _, ⟨scan, scanned, _, _, active, rfl, rfl⟩, _, _, second, rfl, rfl, rfl⟩ := done
    obtain ⟨leaves, assets⟩ := payCandidates_spec second
    obtain ⟨sublist, time⟩ := scanWorkers_spec scanned
    rw [assets] at held
    obtain ⟨kept, core, found, fits⟩ := payActive_cap least (Int.le_refl _)
      (fun worker member => room.pays _ time worker
        (List.mem_filter.mp (sublist.subset member)).1) active held
    refine ⟨kept, by omega, core, scan.settlementTime, found, time, ?_⟩
    have sum := (sublist.map _).sum_le_sum (nonneg scan.settlementTime _)
    rw [head, Option.elim_some] at sum
    rw [Treasury.lowered, head, Option.elim_some]
    omega

theorem Capped.of_supplyFalls (capped : treasury.Capped)
    (assets : market.assets = treasury.market.assets) (falls : SupplyFalls treasury.market market) :
    Capped { treasury with market } := by
  intro assetId asset held
  rw [assets] at held
  exact (falls assetId).trans (capped assetId asset held)

section

variable (capped : treasury.Capped)
include capped

theorem callOrderUpdate_capped (sound : Solvent treasury.market)
    (done : op.perform terms treasury.market = .ok market)
    (keeps : treasury.KeepsCap (terms, .market (.callOrderUpdate op))) :
    Capped { treasury with market } := by
  intro assetId asset held
  rw [assetsStay.callOrderUpdate done] at held
  have most := callOrderUpdate_supply sound done assetId
  have before := capped assetId asset held
  rw [Asset.countIn] at most
  split at most
  · rename_i here
    subst here
    exact most.trans (keeps asset held)
  · show market.currentSupply assetId ≤ _
    omega

theorem issue_capped {op : AssetIssue} (done : op.perform terms treasury.market = .ok market) :
    Capped { treasury with market } := by
  obtain ⟨_, _, _, held, -, most, -, payment⟩ := issue_spec done
  rw [payFee_frame payment]
  intro assetId asset there
  show (if assetId = _ then _ else _) ≤ _
  split
  · rename_i here
    subst here
    cases held.symm.trans there
    exact most
  · exact capped assetId asset there

theorem reserve_capped {op : AssetReserve} (done : op.perform terms treasury.market = .ok market) :
    Capped { treasury with market } := by
  obtain ⟨_, _, _, -, -, payment⟩ := reserve_spec done
  rw [payFee_frame payment]
  apply capped.of_supplyFalls
  · rfl
  · intro assetId
    show (if assetId = _ then _ else _) ≤ _
    split
    · show treasury.market.currentSupply assetId + _ ≤ _
      omega
    · exact Int.le_refl _

theorem update_capped (done : op.perform terms treasury.market = .ok market)
    (keeps : treasury.KeepsCap (terms, .assetUpdate op)) : Capped { treasury with market } := by
  obtain ⟨_, _, -, -, supply, assets, payment⟩ := update_spec done
  rw [payFee_frame payment]
  simp only [Capped, supply, assets]
  intro assetId asset there
  rw [Table.get_modify] at there
  split at there
  · rename_i here
    subst here
    obtain ⟨_, -, rfl⟩ := Option.map_eq_some_iff.mp there
    exact keeps
  · exact capped assetId asset there

theorem processBudget_capped {round : BudgetRound}
    (done : treasury.processBudget round = .ok after) (room : treasury.RoomForBudget round) :
    after.Capped := by
  obtain ⟨record, workers, candidates, paid, plan, paying, rfl⟩ := processBudget_spec done
  have payment := (payLast_paid paying).1
  have supply : paid.market.currentSupply = treasury.market.currentSupply := by
    rw [payment.frame]
  intro assetId asset held
  show (if assetId = assetCore then _ else _) ≤ _
  split
  · rename_i here
    subst here
    obtain ⟨workersLeft, candidatesLeft, core, time, there, timely, least⟩ :=
      room.payLast paying held
    have enough := room.room time timely core there
    have below := capped assetCore core there
    obtain ⟨initial, initialized, total⟩ := plan.total
    have within := (initializeBudgetRecord_within there (by
      have fees := room.fees
      rw [reserved]
      omega) room.unused initialized).2
    obtain ⟨fees, unused, -, witness, worker, rest⟩ := plan
    rw [supply]
    simp only [reserve, reserved, BudgetRound.requests] at enough within
    show treasury.market.currentSupply assetCore + _ ≤ asset.options.maxSupply
    omega
  · rename_i other
    rw [supply]
    exact capped assetId asset ((payment.listed assetId other).symm.trans held)

end

theorem perform_keeps (sound : Solvent treasury.market) (capped : treasury.Capped)
    (keeps : treasury.KeepsCap step) (done : treasury.perform step = .ok after) :
    Solvent after.market ∧ after.Capped := by
  obtain ⟨_, event⟩ := step
  cases event with
  | market event =>
    obtain ⟨market, performed, rfl⟩ := onMarket_eq_ok.mp done
    refine ⟨feedClosed_keepsSolvent.perform performed sound, ?_⟩
    by_cases loan : ∃ op, event = .callOrderUpdate op
    · obtain ⟨op, rfl⟩ := loan
      exact callOrderUpdate_capped capped sound performed keeps
    · have falls := (loanFree_deflates.perform (not_exists.mp loan) performed sound).2
      exact capped.of_supplyFalls (assetsStay.perform performed) falls
  | assetIssue op =>
    obtain ⟨market, performed, rfl⟩ := onMarket_eq_ok.mp done
    refine ⟨?_, issue_capped capped performed⟩
    obtain ⟨_, balances, fee, -, plain, -, adjusted, payment⟩ := issue_spec performed
    exact eventClosed_keepsSolvent.payFee payment (sound.moveSupply adjusted plain)
  | assetReserve op =>
    obtain ⟨market, performed, rfl⟩ := onMarket_eq_ok.mp done
    refine ⟨?_, reserve_capped capped performed⟩
    obtain ⟨_, fee, -, plain, adjusted, payment⟩ := reserve_spec performed
    exact eventClosed_keepsSolvent.payFee payment (sound.moveSupply adjusted plain)
  | assetUpdate op =>
    obtain ⟨market, performed, rfl⟩ := onMarket_eq_ok.mp done
    exact ⟨sound.update performed, update_capped capped performed keeps⟩
  | workerCreate op =>
    simp only [perform, WorkerCreate.perform, bind_eq_ok, pure_eq_ok, Prod.exists] at done
    obtain ⟨-, -, -, -, _, _, payment, rfl⟩ := done
    refine ⟨eventClosed_keepsSolvent.payFee payment sound, ?_⟩
    rw [payFee_frame payment]
    exact capped
  | signBlock payPerBlock witness =>
    cases done
    exact ⟨Paid.solvent (paid_depositVesting witness) sound, capped⟩
  | processBudget round =>
    refine ⟨?_, processBudget_capped capped done keeps⟩
    obtain ⟨_, _, _, _, -, paying, rfl⟩ := processBudget_spec done
    exact bookBudget_solvent (Paid.solvent (payLast_paid paying).1 sound)

/-- From a solvent market on, no supply exceeds the greatest one in any state
of a run in which each loan, update and budget has room for it. -/
theorem supply_capped (treasury : Treasury) (steps : List (MarketTerms × SupplyEvent))
    (sound : Solvent treasury.market) (start : treasury.Capped)
    (keeps : FallibleRun.Meets perform KeepsCap treasury steps) :
    FallibleRun.Throughout perform Capped treasury steps := by
  have both : FallibleRun.Throughout perform
      (fun treasury => Solvent treasury.market ∧ treasury.Capped) treasury steps := by
    refine FallibleRun.throughout_of_step ?_ ⟨sound, start⟩ keeps
    rintro _ _ _ ⟨sound, capped⟩ keeps done
    exact perform_keeps sound capped keeps done
  exact both.mono fun _ both => both.2

/-- A treasury that has never made a budget. -/
def idle (market : Market) : Treasury where
  market
  workers := []
  completed := []
  records := []
  witnessBudget := 0
  lastBudgetTime := 0

theorem roomForBudget_idle (fees : 0 ≤ market.accumulatedFees assetCore) :
    (idle market).RoomForBudget (dailyRound 1) := by
  refine ⟨Int.le_refl 0, fees, nofun, fun _ _ _ => nofun, fun time _ core _ => ?_⟩
  have none : (idle market).lowered time = 0 := rfl
  rw [none]
  omega

/-- Account `12` borrows asset `2`. -/
def loan (price collateral debt : Int) : List (MarketTerms × SupplyEvent) :=
  [(MarketTerms.free, .market (.assetUpdateFeedProducers ⟨7, 2, [9]⟩)),
    (MarketTerms.free, .market (publish price 1 1750).2),
    (MarketTerms.free, .market (borrow 12 collateral debt).2)]

theorem capped_created (performed : (newBitasset assetCore).perform MarketTerms.free fundedGenesis
      = .ok created) : (idle created).Capped := by
  cases performed
  intro assetId asset held
  match assetId, held with
  | 0, held =>
    cases held
    decide
  | 1, held =>
    cases held
    decide
  | 2, held =>
    cases held
    decide
  | _ + 3, held => cases held

/-- A loan is followed by a budget. -/
theorem supply_capped_loan : ∃ created, (newBitasset assetCore).perform MarketTerms.free
        fundedGenesis = .ok created ∧
      FallibleRun.Throughout perform Capped (idle created)
        (loan 1 700 100 ++ [(MarketTerms.free, .processBudget (dailyRound 1))]) := by
  obtain ⟨created, performed⟩ : ∃ created, (newBitasset assetCore).perform
      MarketTerms.free fundedGenesis = .ok created := ⟨_, rfl⟩
  refine ⟨created, performed, ?_⟩
  apply supply_capped (idle created) _ (solvent_created performed) (capped_created performed)
  cases performed
  intro producing first
  cases first
  refine ⟨trivial, fun published second => ?_⟩
  cases second
  refine ⟨trivial, fun borrowed third => ?_⟩
  cases third
  refine ⟨?_, fun _ _ => ⟨roomForBudget_idle (by decide +kernel), trivial⟩⟩
  intro asset held
  cases held
  decide

/-- The last budget of the workers is as great as the reserve, and a worker
that burns and one that destroys are both to be paid all of it. -/
def tightTreasury : Treasury where
  market := { fundedGenesis with
    assets := fundedGenesis.assets.modify assetCore fun asset =>
      { asset with options := { asset.options with maxSupply := 2000200 } }
    currentSupply := fun assetId => if assetId = assetCore then 2000100 else 0
    headBlockTime := 86401 }
  workers := [⟨0, 1000000, 100, .destroy⟩, ⟨0, 1000000, 100, .burn⟩]
  completed := []
  records := [⟨0, 0, 0, 0, 0, 100, 0, 100, 0, 0, 0, 0⟩]
  witnessBudget := 0
  lastBudgetTime := 1

def uncapped (treasury : Treasury) (assetId : Nat) : Bool :=
  (treasury.market.assets.get assetId).any fun asset =>
    decide (asset.options.maxSupply < treasury.market.currentSupply assetId)

/-- A loan exceeds the greatest supply, an update sets it below the supply,
and a budget is made from a reserve that a worker then destroys. -/
theorem cap_exceeded : ∃ created lent updated budgeted,
      (newBitasset assetCore).perform MarketTerms.free fundedGenesis = .ok created ∧
      (idle created).Capped ∧
      FallibleRun.run perform (idle created) (loan 1000 900000 2000000) =
        .ok lent ∧ lent.uncapped 2 = true ∧
      FallibleRun.run perform (idle created) (loan 1 700 100 ++
        [(MarketTerms.free, .assetUpdate ⟨7, 2, none, ⟨50, 0, 0, 0, 0, none⟩⟩)]) = .ok updated ∧
      updated.uncapped 2 = true ∧
      tightTreasury.Balanced ∧ tightTreasury.uncapped assetCore = false ∧
      tightTreasury.processBudget { dailyRound 1 with payouts := [] } =
        .ok budgeted ∧ budgeted.uncapped assetCore = true := by
  refine ⟨_, _, _, _, rfl, capped_created rfl, rfl, by decide +kernel, rfl,
    by decide +kernel, ?_, by decide +kernel, rfl, by decide +kernel⟩
  rw [Balanced]
  decide +kernel

end Treasury

end CocosChain.Chain

import CocosChain.Chain.MarketUpkeep

/-!
# The budget of a maintenance interval

At each maintenance the core asset that is not in circulation, the fees that
have gathered and what is left of the last budget are shared out anew: to the
witnesses for the blocks until the next maintenance, to the workers and to the
candidates.  What workers and candidates are paid was set aside one interval
before, in the last budget record.
-/

namespace CocosChain.Chain

/-! ## Numbers

Amounts are `share_type`s, 64 bits with a sign.  Their arithmetic is checked,
but unsigned numbers are stored in them as they are. -/

namespace Share

def fits (amount : Int) : Bool := decide (-2 ^ 63 ≤ amount) && decide (amount < 2 ^ 63)

/-- The result of checked arithmetic. -/
def checked (amount : Int) : Outcome Int := do
  ensure (fits amount) .refused
  pure amount

/-- The low 64 bits as a signed number. -/
def wrap (number : Int) : Int := number.bmod (2 ^ 64)

/-- An amount as `uint128`: the sign is extended. -/
def toUint128 (amount : Int) : Nat := (amount % 2 ^ 128).toNat

/-- `to_uint64`, stored in an amount. -/
def ofUint128 (number : Nat) : Outcome Int := do
  ensure (decide (number < 2 ^ 64)) .refused
  pure (wrap number)

end Share

def secondsPerDay : Nat := 86400

/-- `worker_type`; the sums that a worker keeps of its own pay are left
out. -/
inductive WorkerType where
  | destroy
  /-- The vesting balance of the beneficiary. -/
  | vestingBalance (beneficiary : AccountId)
  | burn
  | issuance
  deriving DecidableEq, Repr

structure Worker where
  workBeginDate : Nat
  workEndDate : Nat
  dailyPay : Int
  worker : WorkerType
  deriving DecidableEq, Repr

namespace Worker

/-- Such a worker moves the greatest supply and takes nothing from the
budget. -/
def issuanceOrDestroy (worker : Worker) : Bool :=
  match worker.worker with
  | .issuance | .destroy => true
  | .vestingBalance _ | .burn => false

def isActive (worker : Worker) (now : Nat) : Bool :=
  decide (worker.workBeginDate ≤ now) && decide (now ≤ worker.workEndDate)

/-- The pay for the seconds since the last budget, counted in
microseconds. -/
def requestedPay (worker : Worker) (elapsed : Int) : Outcome Int :=
  if elapsed = secondsPerDay then pure worker.dailyPay
  else Share.ofUint128 (Share.toUint128 worker.dailyPay *
    Share.toUint128 (elapsed * 10 ^ 6) % 2 ^ 128 / (secondsPerDay * 10 ^ 6))

end Worker

namespace AssetOptions

def destroy (options : AssetOptions) (pay : Int) : AssetOptions :=
  { options with
    maxSupply := options.maxSupply - pay
    maxMarketFee :=
      if (options.maxMarketFee : Int) ≤ options.maxSupply - pay then
        options.maxMarketFee
      else (options.maxSupply - pay).toNat }

def issue (options : AssetOptions) (pay : Int) : AssetOptions :=
  { options with maxSupply := options.maxSupply + pay }

end AssetOptions

namespace Market

/-- `asset_object::reserved` -/
def reserved (market : Market) (assetId : Nat) (asset : AssetObject) : Int :=
  asset.options.maxSupply - market.currentSupply assetId

def setCoreOptions (market : Market) (change : AssetOptions → AssetOptions) : Market :=
  { market with
    assets := market.assets.modify assetCore fun asset =>
      { asset with options := change asset.options } }

/-- A deposit into a vesting balance in the core asset. -/
def depositVesting (market : Market) (owner : AccountId) (amount : Int) : Market :=
  { market with
    vestingBalances :=
      market.vestingBalances.adjust (owner, assetCore) amount }

def payWorker (market : Market) (worker : WorkerType) (pay : Int) : Outcome Market :=
  match worker with
  | .destroy => do
      let core ← found (market.assets.get assetCore) .refused
      ensure (decide (pay ≤ market.reserved assetCore core)) .refused
      pure (market.setCoreOptions fun options => options.destroy pay)
  | .vestingBalance beneficiary => pure (market.depositVesting beneficiary pay)
  | .burn => market.adjustBalance nullAccount ⟨pay, assetCore⟩
  | .issuance => do
      ensure (market.assets.get assetCore).isSome .refused
      pure (market.setCoreOptions fun options => options.issue pay)

/-- Pays the active workers one after the other.  Without a budget only
workers that take nothing from it are paid. -/
def payActive (elapsed : Int) : List Worker → Int → Market → Outcome (Int × Market)
  | [], budget, market => pure (budget, market)
  | worker :: rest, budget, market =>
      if !worker.issuanceOrDestroy && decide (budget ≤ 0) then
        payActive elapsed rest budget market
      else do
        let requested ← worker.requestedPay elapsed
        let actual := min budget requested
        let market ← market.payWorker worker.worker actual
        payActive elapsed rest
          (if worker.issuanceOrDestroy then budget else budget - actual) market

/-- `pay_candidates`, for the payouts that it computes in floating-point
arithmetic. -/
def payCandidates : List (AccountId × Int) → Int → Market → Outcome (Int × Market)
  | [], budget, market => pure (budget, market)
  | (account, payout) :: rest, budget, market => do
      let market ← market.adjustBalance account ⟨payout, assetCore⟩
      payCandidates rest (budget - payout) market

end Market

structure BudgetRecord where
  timeSinceLastBudget : Nat
  fromInitialReserve : Int
  fromAccumulatedFees : Int
  fromUnusedWitnessBudget : Int
  requestedWitnessBudget : Int
  totalBudget : Int
  witnessBudget : Int
  workerBudget : Int
  candidatesBudget : Int
  leftoverWorkerFunds : Int
  leftoverCandidatesBudget : Int
  supplyDelta : Int
  deriving DecidableEq, Repr

structure Treasury where
  market : Market
  /-- The workers that are not completed, in the order of the index. -/
  workers : List Worker
  completed : List Worker
  /-- The budget records, the latest one first. -/
  records : List BudgetRecord
  witnessBudget : Int
  lastBudgetTime : Nat

/-- What a maintenance finds set: chain parameters, its own successor, and
the payouts of the candidates. -/
structure BudgetRound where
  blockInterval : Nat
  witnessPayPerBlock : Int
  workerBudgetPerDay : Int
  candidateAwardBudget : Int
  nextMaintenanceTime : Nat
  payouts : List (AccountId × Int)
  deriving DecidableEq, Repr

namespace BudgetRound

def timeToMaint (round : BudgetRound) (now : Nat) : Nat := round.nextMaintenanceTime - now

def blocksToMaint (round : BudgetRound) (now : Nat) : Nat :=
  (round.timeToMaint now + round.blockInterval - 1) / round.blockInterval

/-- The product is one of 64-bit numbers without checks. -/
def requestedWitnessBudget (round : BudgetRound) (now : Nat) : Int :=
  Share.wrap (round.witnessPayPerBlock * round.blocksToMaint now)

/-- What the workers are meant to get until the next maintenance, in 128
bits. -/
def requestedWorkerBudget (round : BudgetRound) (now : Nat) : Nat :=
  Share.toUint128 round.workerBudgetPerDay * round.timeToMaint now % 2 ^ 128 / secondsPerDay

end BudgetRound

/-- What a pass over the workers finds. -/
structure WorkerScan where
  active : List Worker
  waiting : List Worker
  finished : List Worker
  settlementTime : Nat
  deriving DecidableEq, Repr

/-- The part of the reserve that is released in the given seconds, rounded
up, in 128 bits. -/
def cycleBudget (reserve : Int) (seconds : Nat) : Nat :=
  (Share.toUint128 reserve * seconds % 2 ^ 128 * 17 % 2 ^ 128 + (2 ^ 32 - 1)) % 2 ^ 128 / 2 ^ 32

/-- The same, but never more than there is. -/
def releasedBudget (reserve : Int) (seconds : Nat) : Outcome Int :=
  if cycleBudget reserve seconds < Share.toUint128 reserve then
    Share.ofUint128 (cycleBudget reserve seconds)
  else pure reserve

/-- What the workers get of the funds that are available. -/
def workerShare (available : Int) (requested : Nat) : Outcome Int :=
  if Share.toUint128 available ≤ requested then pure available
  else Share.ofUint128 requested

namespace Treasury

/-- The pass over the workers that are not completed.  Completing a worker
moves it to the end of the index, unless it is the last one that was not
completed.  So the pass ends there; and if there are completed workers already
it has run past its own end. -/
def scanWorkers (someCompleted : Bool) (now : Nat) : List Worker → Outcome WorkerScan
  | [] => pure ⟨[], [], [], now⟩
  | worker :: rest =>
      if worker.workEndDate ≤ now then
        if rest.isEmpty || !someCompleted then
          pure ⟨[], rest, [worker], worker.workEndDate⟩
        else .error .dangling
      else do
        let scan ← scanWorkers someCompleted now rest
        pure { scan with
          active := if worker.isActive now then worker :: scan.active
            else scan.active
          waiting := worker :: scan.waiting }

def payWorkers (treasury : Treasury) (budget : Int) : Outcome (Int × Treasury) := do
  let scan ← scanWorkers (!treasury.completed.isEmpty)
    treasury.market.headBlockTime treasury.workers
  let (budget, market) ← Market.payActive
    (scan.settlementTime - treasury.lastBudgetTime) scan.active budget
    treasury.market
  pure (budget, { treasury with
    market
    workers := scan.waiting
    completed := treasury.completed ++ scan.finished })

/-- The seconds since the last budget and what may be released, given the
reserve with the fees.  The first budget takes all of it; the others take
their part, of a reserve that the witness budget is returned to. -/
def totalBudget (treasury : Treasury) (reserve : Int) : Outcome (Nat × Int) :=
  let now := treasury.market.headBlockTime
  if treasury.lastBudgetTime = 0 ∨ now ≤ treasury.lastBudgetTime then
    pure (0, reserve)
  else do
    let seconds := now - treasury.lastBudgetTime
    let reserve ← Share.checked (reserve + treasury.witnessBudget)
    let total ← releasedBudget reserve seconds
    pure (seconds, total)

def initializeBudgetRecord (treasury : Treasury) : Outcome BudgetRecord := do
  let core ← found (treasury.market.assets.get assetCore) .refused
  let initial ← Share.checked (treasury.market.reserved assetCore core)
  let fees := treasury.market.accumulatedFees assetCore
  let reserve ← Share.checked (initial + fees)
  let (seconds, total) ← treasury.totalBudget reserve
  pure {
    timeSinceLastBudget := seconds
    fromInitialReserve := initial
    fromAccumulatedFees := fees
    fromUnusedWitnessBudget := treasury.witnessBudget
    requestedWitnessBudget := 0
    totalBudget := total
    witnessBudget := 0
    workerBudget := 0
    candidatesBudget := 0
    leftoverWorkerFunds := 0
    leftoverCandidatesBudget := 0
    supplyDelta := 0 }

/-- The budgets until the next maintenance.  The witnesses come first, then
the workers, then the candidates. -/
def planBudget (treasury : Treasury) (round : BudgetRound) : Outcome BudgetRecord := do
  let now := treasury.market.headBlockTime
  ensure (decide (now < round.nextMaintenanceTime) && decide (0 < round.blockInterval)) .refused
  let record ← treasury.initializeBudgetRecord
  let requested := round.requestedWitnessBudget now
  let witnessBudget := min requested record.totalBudget
  let available ← Share.checked (record.totalBudget - witnessBudget)
  let workerBudget ← workerShare available (round.requestedWorkerBudget now)
  let available ← Share.checked (available - workerBudget)
  pure { record with
    requestedWitnessBudget := requested
    witnessBudget
    workerBudget
    candidatesBudget := min round.candidateAwardBudget available }

/-- Pays out the last record.  What is returned is what is left for workers
and for candidates. -/
def payLast (treasury : Treasury) (round : BudgetRound) : Outcome (Int × Int × Treasury) :=
  match treasury.records with
  | [] => pure (0, 0, treasury)
  | last :: _ => do
      let (workers, treasury) ← treasury.payWorkers last.workerBudget
      let (candidates, market) ← Market.payCandidates round.payouts
        last.candidatesBudget treasury.market
      pure (workers, candidates, { treasury with market })

/-- Books the new budgets.  The supply grows by what is set aside and shrinks
by what has flown back. -/
def bookBudget (treasury : Treasury) (record : BudgetRecord)
    (workers candidates : Int) : Treasury :=
  let supplyDelta :=
    record.witnessBudget + record.workerBudget + record.candidatesBudget -
      (workers + record.fromAccumulatedFees + record.fromUnusedWitnessBudget + candidates)
  { treasury with
    market := { treasury.market.addSupply assetCore supplyDelta with
      accumulatedFees := fun assetId => if assetId = assetCore then 0
        else treasury.market.accumulatedFees assetId }
    records := { record with
      leftoverWorkerFunds := workers
      leftoverCandidatesBudget := candidates
      supplyDelta } :: treasury.records
    witnessBudget := record.witnessBudget
    lastBudgetTime := treasury.market.headBlockTime }

def processBudget (treasury : Treasury) (round : BudgetRound) : Outcome Treasury := do
  let record ← treasury.planBudget round
  let (workers, candidates, treasury) ← treasury.payLast round
  pure (treasury.bookBudget record workers candidates)

/-- `update_signing_witness`: the pay for a block goes to the vesting balance
of the witness. -/
def updateSigningWitness (treasury : Treasury) (payPerBlock : Int)
    (witness : AccountId) : Treasury :=
  let pay := min payPerBlock treasury.witnessBudget
  { treasury with
    witnessBudget := treasury.witnessBudget - pay
    market := treasury.market.depositVesting witness pay }

end Treasury

structure WorkerCreate where
  owner : AccountId
  worker : Worker
  deriving DecidableEq, Repr

namespace WorkerCreate

def validate (op : WorkerCreate) : Bool :=
  decide (op.worker.workBeginDate < op.worker.workEndDate) && decide (0 < op.worker.dailyPay) &&
    decide (op.worker.dailyPay < maxShareSupply)

/-- A new worker comes after the others that are not completed. -/
def perform (op : WorkerCreate) (terms : MarketTerms) (treasury : Treasury) : Outcome Treasury := do
  ensure op.validate .refused
  ensure (decide (treasury.market.headBlockTime ≤ op.worker.workBeginDate)) .refused
  let (_, market) ← treasury.market.payFee terms op.owner terms.coreFee
  pure { treasury with
    market
    workers := treasury.workers ++ [op.worker] }

end WorkerCreate

end CocosChain.Chain

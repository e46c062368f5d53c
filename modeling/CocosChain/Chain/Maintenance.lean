import CocosChain.Chain.AuthorityCheck
import CocosChain.Chain.BlockApplication

/-!
# Chain maintenance

At the maintenance interval the witnesses and the committee are elected and the
budget is paid.  The candidates and the results of the elections are collected
in members of the database that are filled and cleared by hand.  They are no
objects, so an undo session does not take back what has been put into them.

The references to candidates are identifiers here, looked up when they are
read.  What is done about special authorities, parameters, bids and the budget
is a parameter; each of the first, third and last may throw.
-/

namespace CocosChain.Chain

/-- A map is the list of its entries in the order of their keys. -/
def assign {Value : Type} (key : Nat) (value : Option Value → Value) :
    List (Nat × Value) → List (Nat × Value)
  | [] => [(key, value none)]
  | (other, old) :: rest =>
      if key < other then (key, value none) :: (other, old) :: rest
      else if key = other then (key, value (some old)) :: rest
      else (other, old) :: assign key value rest

/-- Votes as weights of an authority. -/
structure VoteCounter where
  totalVotes : Nat
  bitshift : Option Nat
  accountAuths : List (AccountId × UInt16)

namespace VoteCounter

def initial : VoteCounter := ⟨0, none, []⟩

/-- The first votes say how many bits the votes are shifted by. -/
def add (who : AccountId) (votes : Nat) (counter : VoteCounter) : VoteCounter :=
  if votes = 0 then counter
  else
    let bitshift := counter.bitshift.getD (votes.log2 - 15)
    let scaledVotes := max (votes >>> bitshift) 1
    { totalVotes := counter.totalVotes + scaledVotes
      bitshift := some bitshift
      accountAuths :=
        assign who (fun _ => .ofNat scaledVotes) counter.accountAuths }

/-- Writes the authority, but only if there is a member. -/
def finish {Key : Type} (threshold : Nat → Nat) (counter : VoteCounter)
    (authority : Authority Key) : Authority Key :=
  if counter.totalVotes = 0 then authority
  else
    { weightThreshold := .ofNat (threshold counter.totalVotes)
      accountAuths := counter.accountAuths
      keyAuths := [] }

def majority (totalVotes : Nat) : Nat := totalVotes / 2 + 1

def twoThirds (totalVotes : Nat) : Nat := (2 * totalVotes + 2) / 3

end VoteCounter

/-- What an election reads of a witness or a committee member. -/
structure Votable where
  id : Nat
  account : AccountId
  voteId : Nat
  totalVotes : Nat
  workStatus : Bool
  deriving DecidableEq, Repr

namespace Votable

def RanksBefore (first second : Votable) : Prop :=
  second.totalVotes < first.totalVotes ∨
    (first.totalVotes = second.totalVotes ∧ first.voteId ≤ second.voteId)

instance : DecidableRel RanksBefore := fun _ _ => inferInstanceAs (Decidable (_ ∨ _))

def tally (votes : Votable → Nat) (elected : List Votable) : VoteCounter :=
  elected.foldl (fun counter votable =>
    counter.add votable.account (votes votable)) .initial

end Votable

/-- The candidates in the order of their votes, and those who have won. -/
structure Election where
  refs : List Votable
  elected : List Votable

namespace Election

/-- The candidates who are at work are added to `refs`.  The last winner is
dropped if there are not two of them. -/
def hold (candidates : List Votable) (refs : List Nat) (count : Nat) : Election :=
  let collected := refs ++ (candidates.filter Votable.workStatus).map Votable.id
  let sorted :=
    (collected.filterMap fun id =>
      candidates.find? (·.id == id)).insertionSort Votable.RanksBefore
  let elected := sorted.take count
  { refs := sorted
    elected := if elected.length / 2 = 0 then elected.dropLast else elected }

/-- The entry of an account that has won before stays. -/
def results (election : Election) (voteResult : List (AccountId × Bool)) :
    List (AccountId × Bool) :=
  election.refs.zipIdx.foldl (fun voteResult (votable, index) =>
      assign votable.account (fun won => won.getD false || index < election.elected.length)
        voteResult)
    voteResult

def ids (election : Election) : List Nat :=
  (election.elected.map Votable.id).dedup.insertionSort (· ≤ ·)

end Election

/-- The members of the database that are filled during maintenance. -/
structure Members where
  witnessRefs : List Nat
  committeeRefs : List Nat
  voteResult : List (AccountId × Bool)
  deriving DecidableEq, Repr

def Members.cleared : Members := ⟨[], [], []⟩

/-- The objects that maintenance reads or writes, with the active authorities
of the accounts that stand for the witnesses and the committee. -/
structure Electorate (Key ρ : Type) where
  witnesses : List Votable
  committeeMembers : List Votable
  witnessNumberOfElection : Nat
  committeeNumberOfElection : Nat
  witnessAccount : Authority Key
  committeeAccount : Authority Key
  relaxedCommitteeAccount : Authority Key
  activeCommitteeMembers : List Nat
  unsuccessfulCandidates : List AccountId
  nextMaintenanceTime : Nat
  maintenanceInterval : Nat
  rest : ρ

variable {Hash Rest Tx Byte Key ρ : Type}

structure MaintenanceState (Hash Rest Tx Key ρ : Type) where
  members : Members
  objects : Objects Hash Rest Tx (Electorate Key ρ)

namespace MaintenanceState

def setOthers (others : Electorate Key ρ) (state : MaintenanceState Hash Rest Tx Key ρ) :
    MaintenanceState Hash Rest Tx Key ρ :=
  { state with objects := state.objects.setOthers others }

def updateActiveWitnesses (state : MaintenanceState Hash Rest Tx Key ρ) :
    MaintenanceState Hash Rest Tx Key ρ :=
  let others := state.objects.others
  let election := Election.hold others.witnesses state.members.witnessRefs
    others.witnessNumberOfElection
  let counter := Votable.tally Votable.totalVotes election.elected
  { members :=
      { state.members with
        witnessRefs := election.refs.map Votable.id
        voteResult := election.results state.members.voteResult }
    objects :=
      { state.objects with
        activeWitnesses := election.ids
        others :=
          { others with
            witnessAccount :=
              counter.finish VoteCounter.majority others.witnessAccount } } }

/-- The authorities stay as they are if nobody is elected: then there is
nothing to count. -/
def updateActiveCommitteeMembers (state : MaintenanceState Hash Rest Tx Key ρ) :
    MaintenanceState Hash Rest Tx Key ρ :=
  let others := state.objects.others
  let election := Election.hold others.committeeMembers
    state.members.committeeRefs others.committeeNumberOfElection
  let counter := Votable.tally (fun _ => 1) election.elected
  let relaxed := Votable.tally Votable.totalVotes election.elected
  { members :=
      { state.members with
        committeeRefs := election.refs.map Votable.id
        voteResult := election.results state.members.voteResult }
    objects := state.objects.setOthers
      { others with
        committeeAccount := counter.finish VoteCounter.twoThirds others.committeeAccount
        relaxedCommitteeAccount :=
          relaxed.finish VoteCounter.majority others.relaxedCommitteeAccount
        activeCommitteeMembers := election.ids } }

def updateUnsuccessfulCandidates (state : MaintenanceState Hash Rest Tx Key ρ) :
    MaintenanceState Hash Rest Tx Key ρ :=
  { members := { state.members with voteResult := [] }
    objects := state.objects.setOthers
      { state.objects.others with
        unsuccessfulCandidates :=
          (state.members.voteResult.filter (! ·.2)).map Prod.fst } }

/-- `now` is also the time of the head block by then. -/
def updateNextMaintenanceTime (now : Nat) (state : MaintenanceState Hash Rest Tx Key ρ) :
    MaintenanceState Hash Rest Tx Key ρ :=
  let others := state.objects.others
  let next := others.nextMaintenanceTime
  let interval := others.maintenanceInterval
  let moved :=
    if now < next then next
    else if state.objects.headBlockNumber = 1 then
      (now / interval + 1) * interval
    else next + ((now - next) / interval + 1) * interval
  state.setOthers { others with nextMaintenanceTime := moved }

def clearRefs (state : MaintenanceState Hash Rest Tx Key ρ) : MaintenanceState Hash Rest Tx Key ρ :=
  { state with
    members :=
      { state.members with witnessRefs := [], committeeRefs := [] } }

/-- A part of the maintenance that changes objects only, and may throw. -/
def attempt (part : MaintenanceState Hash Rest Tx Key ρ → Option (Electorate Key ρ)) :
    Throwing Fault (MaintenanceState Hash Rest Tx Key ρ) Unit :=
  fun state =>
    match part state with
    | none => (.error .maintenanceFailed, state)
    | some others => (.ok (), state.setOthers others)

section

variable {part : MaintenanceState Hash Rest Tx Key ρ → Option (Electorate Key ρ)}

theorem attempt_throws (failed : part state = none) :
    attempt part state = (.error .maintenanceFailed, state) := by
  simp [attempt, failed]

theorem attempt_returns (done : part state = some others) :
    attempt part state = (.ok (), state.setOthers others) := by
  simp [attempt, done]

theorem attempt_members (ran : attempt part state = (outcome, reached)) :
    reached.members = state.members := by
  unfold attempt at ran
  split at ran
  · cases ran
    rfl
  · cases ran
    rfl

end

end MaintenanceState

/-- A protocol with elections.  Its own `maintain` is what every block ends
with, after the chain maintenance if there is one. -/
structure ElectingProtocol (Hash Rest Tx Byte Key ρ : Type) extends
    Protocol Hash Rest Tx Byte (Electorate Key ρ) where
  timestamp : Rest → Nat
  updateTopNAuthorities : Objects Hash Rest Tx (Electorate Key ρ) → Option (Electorate Key ρ)
  /-- The scaling of the registration fee and the pending parameters. -/
  updateParameters : Objects Hash Rest Tx (Electorate Key ρ) → Electorate Key ρ
  /-- For every asset that has been settled. -/
  processBids : Objects Hash Rest Tx (Electorate Key ρ) → Option (Electorate Key ρ)
  /-- Reads the votes of the candidates collected, and the parameters from
  before they were updated. -/
  processBudget : Members → Objects Hash Rest Tx (Electorate Key ρ) →
    Objects Hash Rest Tx (Electorate Key ρ) → Option (Electorate Key ρ)

namespace Objects

variable {σ : Type} [DecidableEq Hash]

/-- Applying a block up to where maintenance may take place. -/
def beforeMaintenance (protocol : Protocol Hash Rest Tx Byte σ)
    (block : SignedBlock Hash Rest Tx) (objects : Objects Hash Rest Tx σ) :
    Option (Objects Hash Rest Tx σ) :=
  if block.transactionMerkleRoot ≠ protocol.digests.calculateMerkleRoot block then none
  else if objects.headBlockId ≠ block.previous then none
  else if !protocol.headerValid objects block then none
  else
    match objects.applyTransactions protocol block.transactions with
    | none => none
    | some objects =>
        let objects := objects.advanceHead block
        if Database.maxUndoHistory ≤ objects.headBlockNumber - objects.lastIrreversibleBlockNum then
          none
        else
          some (objects.updateSigningWitness block).updateLastIrreversibleBlock

theorem beforeMaintenance_onHead {objects : Objects Hash Rest Tx σ}
    (before : objects.beforeMaintenance protocol block = some reached) :
    objects.headBlockId = block.previous := by
  by_contra offHead
  unfold beforeMaintenance at before
  rw [if_pos offHead, ite_self] at before
  cases before

end Objects

namespace ElectingProtocol

variable (chain : ElectingProtocol Hash Rest Tx Byte Key ρ)

/-- The part of `perform_chain_maintenance` that begins by collecting the
candidates and ends by clearing the members. -/
def conductElections (block : SignedBlock Hash Rest Tx) :
    Throwing Fault (MaintenanceState Hash Rest Tx Key ρ) Unit := do
  Throwing.modify MaintenanceState.updateActiveWitnesses
  Throwing.modify MaintenanceState.updateActiveCommitteeMembers
  Throwing.modify MaintenanceState.updateUnsuccessfulCandidates
  let old ← Throwing.get
  Throwing.modify fun state =>
    state.setOthers (chain.updateParameters state.objects)
  Throwing.modify (MaintenanceState.updateNextMaintenanceTime (chain.timestamp block.rest))
  MaintenanceState.attempt fun state => chain.processBids state.objects
  MaintenanceState.attempt fun state =>
    chain.processBudget state.members old.objects state.objects
  Throwing.modify MaintenanceState.clearRefs

def performChainMaintenance (block : SignedBlock Hash Rest Tx) :
    Throwing Fault (MaintenanceState Hash Rest Tx Key ρ) Unit := do
  MaintenanceState.attempt fun state =>
    chain.updateTopNAuthorities state.objects
  chain.conductElections block

def maintNeeded (objects : Objects Hash Rest Tx (Electorate Key ρ))
    (block : SignedBlock Hash Rest Tx) : Bool :=
  objects.others.nextMaintenanceTime ≤ chain.timestamp block.rest

def maintenance (block : SignedBlock Hash Rest Tx) :
    Throwing Fault (MaintenanceState Hash Rest Tx Key ρ) Unit :=
  fun state =>
    if chain.maintNeeded state.objects block then
      chain.performChainMaintenance block state
    else (.ok (), state)

/-- The handling of blocks while the members hold what they do. -/
def protocol (members : Members) : Protocol Hash Rest Tx Byte (Electorate Key ρ) :=
  { chain.toProtocol with
    maintain := fun objects block =>
      match chain.maintenance block ⟨members, objects⟩ with
      | (.error _, _) => { sessions := [], outcome := none }
      | (.ok _, state) => chain.maintain state.objects block }

variable [DecidableEq Hash]

/-- What the members hold after a block has been applied, or its application
has thrown. -/
def membersAfter (block : SignedBlock Hash Rest Tx) (members : Members)
    (objects : Objects Hash Rest Tx (Electorate Key ρ)) : Members :=
  match objects.beforeMaintenance chain.toProtocol block with
  | none => members
  | some reached =>
      ((chain.maintenance block).after ⟨members, reached⟩).members

/-- Applying the block throws during maintenance, after the candidates have
begun to be collected and before the members are cleared. -/
def interrupts (block : SignedBlock Hash Rest Tx)
    (objects : Objects Hash Rest Tx (Electorate Key ρ)) : Bool :=
  match objects.beforeMaintenance chain.toProtocol block with
  | none => false
  | some reached =>
      chain.maintNeeded reached block && match chain.updateTopNAuthorities reached with
        | none => false
        | some others =>
            decide ((chain.conductElections block).Throws ⟨.cleared, reached.setOthers others⟩)

variable {chain}

omit [DecidableEq Hash] in
theorem conductElections_cleared (returns : chain.conductElections block state = (.ok (), final)) :
    final.members = .cleared := by
  simp only [conductElections, Throwing.modify_bind, Throwing.get_bind] at returns
  obtain ⟨_, _, bids, rest⟩ := Throwing.bind_eq_ok returns
  obtain ⟨_, paid, budget, rest⟩ := Throwing.bind_eq_ok rest
  cases rest
  have counted : paid.members.voteResult = [] := by
    rw [MaintenanceState.attempt_members budget, MaintenanceState.attempt_members bids]
    rfl
  exact congrArg (Members.mk [] []) counted

/-- Nothing is interrupted if bids and budgets can always be processed. -/
theorem interrupts_of_paid (bids : ∀ objects, (chain.processBids objects).isSome)
    (budget : ∀ members old objects, (chain.processBudget members old objects).isSome) :
    chain.interrupts block objects = false := by
  have returns (state) : ¬(chain.conductElections block).Throws state := by
    rintro ⟨fault, thrown⟩
    simp only [conductElections, Throwing.modify_bind, Throwing.get_bind] at thrown
    rw [Throwing.bind_of_ok (MaintenanceState.attempt_returns (Option.eq_some_of_isSome (bids _))),
      Throwing.bind_of_ok (MaintenanceState.attempt_returns
        (Option.eq_some_of_isSome (budget _ _ _)))] at thrown
    cases thrown
  unfold interrupts
  split
  · rfl
  · split
    · rw [Bool.and_false]
    · rw [decide_eq_false (returns _), Bool.and_false]

theorem membersAfter_cleared (completed : chain.interrupts block objects = false) :
    chain.membersAfter block .cleared objects = .cleared := by
  unfold interrupts at completed
  unfold membersAfter
  cases reaches : objects.beforeMaintenance chain.toProtocol block with
  | none => rfl
  | some reached =>
    rw [reaches] at completed
    unfold Throwing.after maintenance
    cases needed : chain.maintNeeded reached block with
    | false => simp [needed]
    | true =>
      simp only [needed, Bool.true_and] at completed
      dsimp only
      rw [if_pos needed]
      unfold performChainMaintenance
      cases updated : chain.updateTopNAuthorities reached with
      | none =>
        rw [Throwing.bind_of_error (MaintenanceState.attempt_throws updated)]
      | some others =>
        rw [updated] at completed
        rw [Throwing.bind_of_ok (MaintenanceState.attempt_returns updated)]
        have ends := of_decide_eq_false completed
        let start : MaintenanceState Hash Rest Tx Key ρ := ⟨.cleared, reached.setOthers others⟩
        change (chain.conductElections block start).2.members = _
        cases ran : chain.conductElections block start with
        | mk outcome final =>
          cases outcome with
          | error fault =>
            exact absurd ⟨fault, congrArg Prod.fst ran⟩ ends
          | ok _ => exact conductElections_cleared ran

end ElectingProtocol

end CocosChain.Chain

import CocosChain.Chain.AuthorityCheck
import Mathlib.Data.List.Sort

/-!
# Verifying the authorities of a transaction

`verify_authority` asks a sign state for every authority that the operations
require.  While a transaction is applied, the active authorities of accounts
are looked up by a callback that writes each of them to one variable and
returns a pointer to it.  A check that looks up further accounts then goes on
with an authority that has been overwritten under its hands.
-/

namespace CocosChain.Chain

open SignState

/-- `GRAPHENE_COMMITTEE_ACCOUNT` -/
def committeeAccount : AccountId := 0

/-- `GRAPHENE_NULL_ACCOUNT` -/
def nullAccount : AccountId := 3

/-- `GRAPHENE_TEMP_ACCOUNT` -/
def tempAccount : AccountId := 4

/-- What the operations of a transaction require. -/
structure Requirements (Key : Type) where
  active : List AccountId
  owner : List AccountId
  other : List (Authority Key)
  deriving DecidableEq, Repr

inductive AuthorityFault (Key : Type) where
  | invalidCommitteeApproval
  | missingOtherAuth (authority : Authority Key)
  | missingActiveAuth (account : AccountId)
  | missingOwnerAuth (account : AccountId)
  | irrelevantSig
  deriving DecidableEq, Repr

/-- The two overloads of `check_authority`, for some callback. -/
structure Checker (Key : Type) where
  checkAccount : AccountId → SignState Key → Bool × SignState Key
  checkAuthority : Option (Authority Key) → SignState Key → Bool × SignState Key

/-- One of the authorities to be checked, in the order of the checks. -/
inductive Demand (Key : Type) where
  | other (authority : Authority Key)
  | active (account : AccountId)
  | owner (account : AccountId)

namespace Demand

variable {Key : Type}

def fault : Demand Key → AuthorityFault Key
  | other authority => .missingOtherAuth authority
  | active account => .missingActiveAuth account
  | owner account => .missingOwnerAuth account

/-- An account's owner authority may stand in for its active authority. -/
def meets (checker : Checker Key) (getOwner : AccountId → Option (Authority Key))
    (ownerApprovals : List AccountId) : Demand Key → SignState Key → Bool × SignState Key
  | other authority, state => checker.checkAuthority (some authority) state
  | active account, state =>
      match checker.checkAccount account state with
      | (true, state) => (true, state)
      | (false, state) => checker.checkAuthority (getOwner account) state
  | owner account, state =>
      if account ∈ ownerApprovals then (true, state)
      else checker.checkAuthority (getOwner account) state

/-- Checks demands in turn, up to the first one that is not met. -/
def meetAll (checker : Checker Key) (getOwner : AccountId → Option (Authority Key))
    (ownerApprovals : List AccountId) :
    List (Demand Key) → SignState Key → Except (AuthorityFault Key) (SignState Key)
  | [], state => .ok state
  | demand :: demands, state =>
      match demand.meets checker getOwner ownerApprovals state with
      | (true, state) => meetAll checker getOwner ownerApprovals demands state
      | (false, _) => .error demand.fault

end Demand

variable {Key : Type}

def Requirements.demands (required : Requirements Key) : List (Demand Key) :=
  required.other.map .other ++ required.active.map .active ++ required.owner.map .owner

/-- The state that `verify_authority` starts with. -/
def SignState.initial (sigs : List Key) (maxRecursionDepth : Nat)
    (activeApprovals ownerApprovals : List AccountId) : SignState Key where
  providedSignatures := sigs.map (·, false)
  availableKeys := []
  approvedBy := (activeApprovals ++ ownerApprovals).foldl
    (fun approved account => approved.insert account) [tempAccount]
  maxRecursion := maxRecursionDepth

/-- The checks of all authorities, and of signatures that nobody needs. -/
def verifyDemands (checker : Checker Key) (getOwner : AccountId → Option (Authority Key))
    (required : Requirements Key) (allowCommittee : Bool)
    (ownerApprovals : List AccountId) (state : SignState Key) : Except (AuthorityFault Key) Unit :=
  match Demand.meetAll checker getOwner ownerApprovals required.demands state with
  | .error fault => .error fault
  | .ok state =>
      if state.removeUnusedSignatures.1 ≤ 5 ∨ allowCommittee then .ok ()
      else .error .irrelevantSig

def verifyAuthority (checker : Checker Key) (getOwner : AccountId → Option (Authority Key))
    (required : Requirements Key) (sigs : List Key) (maxRecursionDepth : Nat)
    (allowCommittee : Bool) (activeApprovals ownerApprovals : List AccountId) :
    Except (AuthorityFault Key) Unit :=
  let state := SignState.initial sigs maxRecursionDepth activeApprovals ownerApprovals
  if allowCommittee then
    match checker.checkAccount committeeAccount state with
    | (true, _) => .ok ()
    | (false, state) => verifyDemands checker getOwner required allowCommittee
        ownerApprovals state
  else if committeeAccount ∈ required.active then
    .error .invalidCommitteeApproval
  else verifyDemands checker getOwner required allowCommittee ownerApprovals state

/-- The accounts of the database.  `temporaryActive` are the keys that an
account has allowed for a time. -/
structure AccountGraph (Key : Type) where
  active : AccountId → Authority Key
  owner : AccountId → Authority Key
  temporaryActive : AccountId → List (Key × UInt16)

/-- Inserting into a sorted map leaves an entry that is there. -/
def insertKey [LinearOrder Key] (entry : Key × UInt16)
    (auths : List (Key × UInt16)) : List (Key × UInt16) :=
  if entry.1 ∈ auths.map Prod.fst then auths
  else auths.orderedInsert (fun first second => first.1 ≤ second.1) entry

namespace AccountGraph

variable [LinearOrder Key] (graph : AccountGraph Key)

/-- What the callback writes: the active authority with the temporary keys. -/
def getActive (account : AccountId) : Authority Key :=
  { graph.active account with
    keyAuths := (graph.temporaryActive account).foldl (fun auths entry => insertKey entry auths)
      (graph.active account).keyAuths }

def getOwner (account : AccountId) : Option (Authority Key) := some (graph.owner account)

/-- A callback that returns an authority of its own each time. -/
def pureChecker : Checker Key where
  checkAccount := checkAccount (fun id => some (graph.getActive id))
  checkAuthority := checkAuthority (fun id => some (graph.getActive id))

end AccountGraph

/-- What positions of a range of members show. -/
abbrev Cells := Nat → AccountId × UInt16

/-- What a range of members that a loop is in the middle of shows after the
variable it belongs to has been assigned to.  This is up to the container. -/
abbrev Reread (Key : Type) := Cells → Authority Key → Cells

section Shared

variable [LinearOrder Key] (reread : Reread Key) (graph : AccountGraph Key)

/-- A check of the shared variable returns what has been written to it. -/
abbrev SharedCheck (Key : Type) :=
  Authority Key → SignState Key → Bool × SignState Key × List (Authority Key)

/-- The loop over the accounts of the shared variable.  The threshold and the
members are read from the variable each time, as it is then. -/
def sharedAccounts (deeper : Option (SharedCheck Key)) :
    (count position : Nat) → Cells → (weightThreshold totalWeight : UInt32) →
      SignState Key → List (Authority Key) →
      Bool × SignState Key × List (Authority Key)
  | 0, _, _, weightThreshold, totalWeight, state, written =>
      (weightThreshold ≤ totalWeight, state, written)
  | count + 1, position, cells, weightThreshold, totalWeight, state, written =>
      let member := cells position
      if member.1 ∈ state.approvedBy then
        let totalWeight := totalWeight + member.2.toUInt32
        if weightThreshold ≤ totalWeight then (true, state, written)
        else sharedAccounts deeper count (position + 1) cells weightThreshold
          totalWeight state written
      else
        match deeper with
        | none =>
            sharedAccounts deeper count (position + 1) cells weightThreshold
              totalWeight state written
        | some check =>
            let active := graph.getActive member.1
            let (approved, state, later) := check active state
            let cells := (active :: later).foldl reread cells
            let weightThreshold := (later.getLastD active).weightThreshold
            let written := written ++ active :: later
            if approved then
              let member := cells position
              let totalWeight := totalWeight + member.2.toUInt32
              let state := state.approve member.1
              if weightThreshold ≤ totalWeight then (true, state, written)
              else sharedAccounts deeper count (position + 1) cells
                weightThreshold totalWeight state written
            else
              sharedAccounts deeper count (position + 1) cells weightThreshold
                totalWeight state written

def sharedMembers (deeper : Option (SharedCheck Key))
    (authority : Authority Key) (state : SignState Key) :
    Bool × SignState Key × List (Authority Key) :=
  match tally signedBy authority.weightThreshold authority.keyAuths 0 state with
  | (none, state) => (true, state, [])
  | (some totalWeight, state) =>
      sharedAccounts reread graph deeper authority.accountAuths.length 0
        (fun position => authority.accountAuths.getD position (0, 0))
        authority.weightThreshold totalWeight state []

def sharedLevels : Nat → SharedCheck Key
  | 0 => sharedMembers reread graph none
  | levels + 1 => sharedMembers reread graph (some (sharedLevels levels))

/-- Looks up an authority and checks it. -/
def sharedLookup (levels : Nat) (authority : Option (Authority Key))
    (state : SignState Key) : Bool × SignState Key :=
  match authority with
  | none => (false, state)
  | some authority =>
      let (approved, state, _) := sharedLevels reread graph levels authority state
      (approved, state)

/-- The callback of `_apply_transaction`.  Authorities that are not looked up
are not in the variable, but those of their members are. -/
def sharedChecker : Checker Key where
  checkAccount account state :=
    if account ∈ state.approvedBy then (true, state)
    else sharedLookup reread graph state.maxRecursion (some (graph.getActive account)) state
  checkAuthority authority state :=
    match authority, state.maxRecursion with
    | none, _ => (false, state)
    | some authority, 0 =>
        checkMembers (fun id => some (graph.getActive id)) none authority state
    | some authority, levels + 1 =>
        checkMembers (fun id => some (graph.getActive id))
          (some (sharedLookup reread graph levels)) authority state

end Shared

section Flat

variable [LinearOrder Key] (graph : AccountGraph Key)

/-- Checking a looked-up authority looks up nobody else: the depth bound is
reached, or the threshold before the first account that is not approved. -/
def Flat (levels : Nat) (authority : Authority Key) (state : SignState Key) : Prop :=
  levels = 0 ∨ match tally signedBy authority.weightThreshold
        authority.keyAuths 0 state with
    | (none, _) => True
    | (some totalWeight, state) =>
        Asks (fun account state => account ∈ state.approvedBy)
          (approves (fun id => some (graph.getActive id)) none)
          authority.weightThreshold authority.accountAuths totalWeight state

/-- The authorities that checking an authority looks up are all flat. -/
def FlatMembers (authority : Authority Key) (state : SignState Key) : Prop :=
  match state.maxRecursion with
  | 0 => True
  | levels + 1 =>
      match tally signedBy authority.weightThreshold authority.keyAuths 0 state with
      | (none, _) => True
      | (some totalWeight, state) =>
          Asks (fun account state => account ∈ state.approvedBy ∨
              Flat graph levels (graph.getActive account) state)
            (approves (fun id => some (graph.getActive id))
              (some (checkLevels (fun id => some (graph.getActive id)) levels)))
            authority.weightThreshold authority.accountAuths totalWeight state

/-- The same for the check of an account. -/
def FlatAccount (account : AccountId) (state : SignState Key) : Prop :=
  account ∈ state.approvedBy ∨ Flat graph state.maxRecursion (graph.getActive account) state

def FlatDemand (ownerApprovals : List AccountId) : Demand Key → SignState Key → Prop
  | .other authority, state => FlatMembers graph authority state
  | .active account, state =>
      FlatAccount graph account state ∧ match graph.pureChecker.checkAccount account state with
        | (true, _) => True
        | (false, state) => FlatMembers graph (graph.owner account) state
  | .owner account, state =>
      account ∈ ownerApprovals ∨ FlatMembers graph (graph.owner account) state

def FlatDemands (ownerApprovals : List AccountId) : List (Demand Key) → SignState Key → Prop
  | [], _ => True
  | demand :: demands, state =>
      FlatDemand graph ownerApprovals demand state ∧
        match demand.meets graph.pureChecker graph.getOwner ownerApprovals state with
        | (true, state) => FlatDemands ownerApprovals demands state
        | (false, _) => True

/-- Verifying the authorities never looks up an account for one that has been
looked up itself. -/
def FlatLookups (required : Requirements Key) (sigs : List Key)
    (maxRecursionDepth : Nat) (allowCommittee : Bool)
    (activeApprovals ownerApprovals : List AccountId) : Prop :=
  let state := SignState.initial sigs maxRecursionDepth activeApprovals ownerApprovals
  if allowCommittee then
    FlatAccount graph committeeAccount state ∧
      match graph.pureChecker.checkAccount committeeAccount state with
      | (true, _) => True
      | (false, state) =>
          FlatDemands graph ownerApprovals required.demands state
  else
    committeeAccount ∈ required.active ∨ FlatDemands graph ownerApprovals required.demands state

variable {graph}

theorem sharedAccounts_eq (deeper : Option (SharedCheck Key))
    (shows : ∀ index (within : index < members.length), cells (position + index) = members[index])
    (flat : deeper = none ∨ Asks (fun account state => account ∈
      state.approvedBy) (approves (fun id => some (graph.getActive
      id)) none) weightThreshold members totalWeight state)
    (written : List (Authority Key)) :
    sharedAccounts reread graph deeper members.length position cells
        weightThreshold totalWeight state written =
      match tally (approves (fun id => some (graph.getActive id))
          none) weightThreshold members totalWeight state with
      | (none, state) => (true, state, written)
      | (some totalWeight, state) =>
        (weightThreshold ≤ totalWeight, state, written) := by
  induction members generalizing position totalWeight state with
  | nil => rfl
  | cons first members induction =>
    obtain ⟨account, weight⟩ := first
    have here : cells position = (account, weight) := shows 0 (Nat.succ_pos _)
    have later : ∀ index (within : index < members.length),
        cells (position + 1 + index) = members[index] := by
      intro index within
      have shown := shows (index + 1) (Nat.succ_lt_succ within)
      rw [← Nat.add_assoc, Nat.add_right_comm] at shown
      exact shown
    rw [List.length_cons]
    unfold sharedAccounts tally
    rw [here]
    by_cases known : account ∈ state.approvedBy
    · have yes : approves (fun id => some (graph.getActive id))
          none account state = (true, state) := if_pos known
      rw [yes]
      dsimp only
      rw [if_pos known, if_pos rfl]
      by_cases reached : weightThreshold ≤ totalWeight + weight.toUInt32
      · rw [if_pos reached, if_pos reached]
      · rw [if_neg reached, if_neg reached]
        apply induction later
        refine flat.imp_right ?_
        rintro ⟨_, rest⟩
        rw [yes] at rest
        exact rest.resolve_left reached
    · have no : approves (fun id => some (graph.getActive id))
          none account state = (false, state) := if_neg known
      have nothing : deeper = none := flat.resolve_right fun asks => known asks.1
      subst nothing
      rw [no]
      rw [if_neg known]
      exact induction later (.inl rfl)

omit [LinearOrder Key] in
theorem approves_of_approved [DecidableEq Key]
    (deeper : Option (Option (Authority Key) → SignState Key → Bool × SignState Key))
    (known : account ∈ state.approvedBy) : approves getActive deeper account state =
      approves getActive none account state := by
  unfold approves
  rw [if_pos known, if_pos known]

theorem sharedMembers_eq (flat : deeper = none ∧ check = none ∨ Flat graph 1 authority state) :
    (match sharedMembers reread graph deeper authority state with
      | (approved, state, _) => (approved, state)) =
      checkMembers (fun id => some (graph.getActive id)) check
        authority state := by
  unfold Flat at flat
  unfold sharedMembers checkMembers
  generalize tally signedBy authority.weightThreshold authority.keyAuths 0 state = keys at flat ⊢
  obtain ⟨result, next⟩ := keys
  cases result with
  | none => rfl
  | some total =>
    have asks : deeper = none ∧ check = none ∨
        Asks (fun account state => account ∈ state.approvedBy)
          (approves (fun id => some (graph.getActive id)) none)
          authority.weightThreshold authority.accountAuths total next :=
      flat.imp_right fun flat => flat.resolve_left Nat.one_ne_zero
    have accounts : tally (approves (fun id => some (graph.getActive id)) check)
          authority.weightThreshold authority.accountAuths total next =
        tally (approves (fun id => some (graph.getActive id)) none)
          authority.weightThreshold authority.accountAuths total next := by
      rcases asks with ⟨_, rfl⟩ | asks
      · rfl
      · exact tally_congr (fun _ _ known => approves_of_approved check known) asks
    dsimp only
    rw [accounts, sharedAccounts_eq deeper _ (asks.imp_left And.left)]
    · generalize tally (approves (fun id => some (graph.getActive id)) none)
        authority.weightThreshold authority.accountAuths total next = answer
      obtain ⟨result, final⟩ := answer
      cases result with
      | none => rfl
      | some final => rfl
    · intro index within
      rw [Nat.zero_add]
      rw [List.getD_eq_getElem?_getD, List.getElem?_eq_getElem within]
      rfl

theorem sharedLookup_eq (flat : Flat graph levels authority state) :
    sharedLookup reread graph levels (some authority) state =
      checkLevels (fun id => some (graph.getActive id)) levels
        (some authority) state := by
  cases levels with
  | zero => exact sharedMembers_eq (.inl ⟨rfl, rfl⟩)
  | succ levels =>
    exact sharedMembers_eq (.inr (.inr (flat.resolve_left (Nat.succ_ne_zero _))))

theorem approves_sharedLookup
    (flat : account ∈ state.approvedBy ∨ Flat graph levels (graph.getActive account) state) :
    approves (fun id => some (graph.getActive id))
        (some (sharedLookup reread graph levels)) account state =
      approves (fun id => some (graph.getActive id))
        (some (checkLevels (fun id => some (graph.getActive id))
          levels)) account state := by
  rcases flat with known | flat
  · exact (approves_of_approved _ known).trans (approves_of_approved _ known).symm
  · unfold approves
    dsimp only
    rw [sharedLookup_eq flat]

theorem sharedChecker_checkAuthority (flat : FlatMembers graph authority state) :
    (sharedChecker reread graph).checkAuthority (some authority) state =
      graph.pureChecker.checkAuthority (some authority) state := by
  unfold FlatMembers at flat
  unfold sharedChecker AccountGraph.pureChecker checkAuthority
  dsimp only
  generalize state.maxRecursion = bound at flat ⊢
  cases bound with
  | zero => rfl
  | succ levels =>
    dsimp only at flat ⊢
    unfold checkLevels checkMembers
    generalize tally signedBy authority.weightThreshold authority.keyAuths 0 state = keys at flat ⊢
    obtain ⟨result, _⟩ := keys
    cases result with
    | none => rfl
    | some total =>
      dsimp only at flat ⊢
      rw [tally_congr (fun _ _ flat => approves_sharedLookup flat) flat]

theorem sharedChecker_checkAccount (flat : FlatAccount graph account state) :
    (sharedChecker reread graph).checkAccount account state =
      graph.pureChecker.checkAccount account state := by
  unfold sharedChecker AccountGraph.pureChecker checkAccount
  dsimp only
  by_cases known : account ∈ state.approvedBy
  · rw [if_pos known, if_pos known]
  · rw [if_neg known, if_neg known]
    exact sharedLookup_eq (flat.resolve_left known)

theorem meets_sharedChecker (flat : FlatDemand graph ownerApprovals demand state) :
    demand.meets (sharedChecker reread graph) graph.getOwner ownerApprovals state =
      demand.meets graph.pureChecker graph.getOwner ownerApprovals state := by
  cases demand with
  | other authority => exact sharedChecker_checkAuthority flat
  | active account =>
    obtain ⟨accountFlat, ownerFlat⟩ := flat
    unfold Demand.meets
    dsimp only
    rw [sharedChecker_checkAccount accountFlat]
    generalize graph.pureChecker.checkAccount account state = answer at ownerFlat
    obtain ⟨approved, _⟩ := answer
    cases approved with
    | true => rfl
    | false => exact sharedChecker_checkAuthority ownerFlat
  | owner account =>
    unfold Demand.meets
    dsimp only
    by_cases known : account ∈ ownerApprovals
    · rw [if_pos known, if_pos known]
    · rw [if_neg known, if_neg known]
      exact sharedChecker_checkAuthority (flat.resolve_left known)

theorem meetAll_sharedChecker (flat : FlatDemands graph ownerApprovals demands state) :
    Demand.meetAll (sharedChecker reread graph) graph.getOwner ownerApprovals demands state =
      Demand.meetAll graph.pureChecker graph.getOwner ownerApprovals demands
        state := by
  induction demands generalizing state with
  | nil => rfl
  | cons demand demands induction =>
    obtain ⟨first, rest⟩ := flat
    unfold Demand.meetAll
    rw [meets_sharedChecker first]
    generalize demand.meets graph.pureChecker graph.getOwner ownerApprovals state = answer at rest
    obtain ⟨met, _⟩ := answer
    cases met with
    | true => exact induction rest
    | false => rfl

/-- As long as lookups do not nest, the shared variable makes no difference. -/
theorem verifyAuthority_sharedChecker (reread : Reread Key) (graph : AccountGraph Key)
    (required : Requirements Key) (sigs : List Key) (maxRecursionDepth : Nat)
    (allowCommittee : Bool) (activeApprovals ownerApprovals : List AccountId)
    (flat : FlatLookups graph required sigs maxRecursionDepth allowCommittee
      activeApprovals ownerApprovals) :
    verifyAuthority (sharedChecker reread graph) graph.getOwner required sigs
        maxRecursionDepth allowCommittee activeApprovals ownerApprovals =
      verifyAuthority graph.pureChecker graph.getOwner required sigs
        maxRecursionDepth allowCommittee activeApprovals ownerApprovals := by
  unfold FlatLookups at flat
  unfold verifyAuthority
  generalize SignState.initial sigs maxRecursionDepth activeApprovals
    ownerApprovals = state at flat ⊢
  dsimp only at flat ⊢
  cases allowCommittee with
  | true =>
    rw [if_pos rfl] at flat ⊢
    rw [if_pos rfl]
    obtain ⟨committee, rest⟩ := flat
    rw [sharedChecker_checkAccount committee]
    generalize graph.pureChecker.checkAccount committeeAccount state = answer at rest
    obtain ⟨approved, _⟩ := answer
    cases approved with
    | true => rfl
    | false =>
      dsimp only at rest ⊢
      unfold verifyDemands
      rw [meetAll_sharedChecker rest]
  | false =>
    rw [if_neg Bool.false_ne_true] at flat ⊢
    rw [if_neg Bool.false_ne_true]
    by_cases committee : committeeAccount ∈ required.active
    · rw [if_pos committee, if_pos committee]
    · rw [if_neg committee, if_neg committee]
      unfold verifyDemands
      rw [meetAll_sharedChecker (flat.resolve_left committee)]

end Flat

/-- A container that assigns to its elements in place. -/
def inPlace {Key : Type} : Reread Key := fun cells authority position =>
  authority.accountAuths.getD position (cells position)

/-- Account 10 needs its key and account 11.  The others have one key each,
account 12 a temporary one as well. -/
def sampleGraph : AccountGraph Nat where
  active account :=
    if account = 10 then
      { weightThreshold := 2, accountAuths := [(11, 1)], keyAuths := [(1, 1)] }
    else
      { weightThreshold := 1, accountAuths := [], keyAuths := [(account, 1)] }
  owner account :=
    { weightThreshold := 1, accountAuths := [(account + 1, 1)]
      keyAuths := [(account + 100, 1)] }
  temporaryActive account := if account = 12 then [(7, 1)] else []

/-- A temporary key of account 12 stands in for its owner, account 11. -/
theorem verifyAuthority_sharedChecker_temporary :
    verifyAuthority (sharedChecker inPlace sampleGraph) sampleGraph.getOwner
        { active := [12], owner := [11], other := [] } [7] 2 false [] [] =
      .ok () := by
  have flat : FlatLookups sampleGraph
      { active := [12], owner := [11], other := [] } [7] 2 false [] [] :=
    .inr ⟨⟨.inr (.inr trivial), trivial⟩, ⟨.inr ⟨.inr (.inr trivial), .inl (by decide)⟩, trivial⟩⟩
  rw [verifyAuthority_sharedChecker inPlace _ _ _ _ _ _ _ flat]
  decide +kernel

/-- The key of account 10 alone passes, because the threshold of account 11
has been written over its own. -/
theorem verifyAuthority_sharedChecker_overwritten :
    verifyAuthority (sharedChecker inPlace sampleGraph) sampleGraph.getOwner
        { active := [10], owner := [], other := [] } [1] 2 false [] [] =
        .ok () ∧
      verifyAuthority sampleGraph.pureChecker sampleGraph.getOwner
        { active := [10], owner := [], other := [] } [1] 2 false [] [] =
        .error (.missingActiveAuth 10) := by
  decide +kernel

end CocosChain.Chain

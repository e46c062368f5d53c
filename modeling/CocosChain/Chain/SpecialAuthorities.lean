import CocosChain.Chain.Maintenance
import CocosChain.Library.Sorting

/-!
# Authorities of the largest holders

An account can leave one of its authorities to the largest holders of an
asset.  `update_top_n_authorities` rebuilds these authorities, for the accounts
that have a `special_authority_object` and in the order of these objects.
Reading an optional that is not set is `none`.
-/

namespace CocosChain.Chain

inductive SpecialAuthority
  | noSpecialAuthority
  | topHolders (asset numTopHolders : Nat)
  deriving DecidableEq

structure AccountBalance where
  owner : AccountId
  assetType : Nat
  balance : Nat

/-- The part of `by_asset_balance` for the asset. -/
def holdersOf (balances : List AccountBalance) (asset : Nat) : List AccountBalance :=
  (balances.filter (·.assetType = asset)).insertionSort fun left right =>
    right.balance < left.balance ∨ left.balance = right.balance ∧ left.owner ≤ right.owner

def VoteCounter.addBalance (counter : VoteCounter) (bal : AccountBalance) : VoteCounter :=
  counter.add bal.owner bal.balance

/-- The loop over the holders; `acct` itself does not count. -/
def VoteCounter.count (acct : AccountId) (counter : VoteCounter) :
    Nat → List AccountBalance → VoteCounter
  | _, [] => counter
  | numNeeded, bal :: rest =>
    if bal.owner = acct then counter.count acct numNeeded rest
    else if numNeeded - 1 = 0 then counter.addBalance bal
    else (counter.addBalance bal).count acct (numNeeded - 1) rest

variable {Key : Type}

/-- `listed` says whether there is a `special_authority_object`. -/
structure SpecialAccount (Key : Type) where
  id : AccountId
  owner : Authority Key
  active : Authority Key
  ownerSpecialAuthority : Option SpecialAuthority
  activeSpecialAuthority : Option SpecialAuthority
  topNControlFlags : Option Nat := none
  listed : Bool := ownerSpecialAuthority.isSome || activeSpecialAuthority.isSome

structure AccountUpdate (Key : Type) where
  owner : Option (Authority Key) := none
  active : Option (Authority Key) := none
  ownerSpecialAuthority : Option SpecialAuthority := none
  activeSpecialAuthority : Option SpecialAuthority := none

namespace SpecialAccount

variable (balances : List AccountBalance) (acct : SpecialAccount Key)

def hasSpecialAuthority : Bool :=
  match acct.ownerSpecialAuthority, acct.activeSpecialAuthority with
  | some owner, some active =>
    owner != .noSpecialAuthority || active != .noSpecialAuthority
  | _, _ => false

/-- There is one object for an account at most. -/
def update (op : AccountUpdate Key) : Option (SpecialAccount Key) :=
  let after := { acct with
    owner := op.owner.getD acct.owner, active := op.active.getD acct.active
    ownerSpecialAuthority := op.ownerSpecialAuthority <|> acct.ownerSpecialAuthority
    activeSpecialAuthority := op.activeSpecialAuthority <|> acct.activeSpecialAuthority
    topNControlFlags :=
      if op.owner.isSome || op.active.isSome || op.ownerSpecialAuthority.isSome ||
        op.activeSpecialAuthority.isSome then some 0 else acct.topNControlFlags }
  match acct.hasSpecialAuthority, after.hasSpecialAuthority with
  | true, false => some { after with listed := false }
  | false, true => if acct.listed then none else some { after with listed := true }
  | _, _ => some after

/-- The visit of `update_top_n_authorities`. -/
def updateTopN (isOwner : Bool) : SpecialAuthority → Option (SpecialAccount Key)
  | .noSpecialAuthority => some acct
  | .topHolders asset numTopHolders =>
    if numTopHolders = 0 then some acct
    else
      let vc := VoteCounter.initial.count acct.id numTopHolders (holdersOf balances asset)
      let acct := if isOwner then { acct with owner := vc.finish VoteCounter.majority acct.owner }
        else { acct with active := vc.finish VoteCounter.majority acct.active }
      if vc.totalVotes = 0 then some acct
      else acct.topNControlFlags.map fun flags =>
        { acct with topNControlFlags := some (flags ||| if isOwner then 1 else 2) }

def refresh : Option (SpecialAccount Key) := do
  let owner ← acct.ownerSpecialAuthority
  let acct ← acct.updateTopN balances true owner
  let active ← acct.activeSpecialAuthority
  acct.updateTopN balances false active

def complete : Bool := acct.ownerSpecialAuthority.isSome && acct.activeSpecialAuthority.isSome

def updateTopNAuthorities : List (SpecialAccount Key) → Option (List (SpecialAccount Key))
  | [] => some []
  | acct :: rest =>
    if !acct.listed then (acct :: ·) <$> updateTopNAuthorities rest
    else if !acct.complete && acct.topNControlFlags.isSome then some (acct :: rest)
    else do
      let acct ← acct.refresh balances
      (acct :: ·) <$> updateTopNAuthorities rest

/-- Somebody else than `self` holds the asset. -/
def hasHolders (self : AccountId) (special : Option SpecialAuthority) : Bool :=
  match special with
  | some (.topHolders asset numTopHolders) => 0 < numTopHolders && balances.any fun bal =>
      bal.assetType = asset && bal.owner ≠ self && 0 < bal.balance
  | _ => false

/-- The votes of the largest holders other than `self`. -/
def votes (self : AccountId) (asset numTopHolders : Nat) : VoteCounter :=
  (((holdersOf balances asset).filter (·.owner ≠ self)).take numTopHolders).foldl
    .addBalance .initial

def meant (self : AccountId) (special : Option SpecialAuthority) (current : Authority Key) :
    Authority Key :=
  match special with
  | some (.topHolders asset numTopHolders) =>
    if hasHolders balances self special then
      (votes balances self asset numTopHolders).finish VoteCounter.majority current
    else current
  | _ => current

def authorities : Authority Key × Authority Key := (acct.owner, acct.active)

def asMeant : Authority Key × Authority Key :=
  (meant balances acct.id acct.ownerSpecialAuthority acct.owner,
    meant balances acct.id acct.activeSpecialAuthority acct.active)

def due : Bool := hasHolders balances acct.id acct.ownerSpecialAuthority ||
  hasHolders balances acct.id acct.activeSpecialAuthority

theorem count_eq (self : AccountId) (counter : VoteCounter) (numNeeded : Nat) (holders) :
    counter.count self (numNeeded + 1) holders =
      ((holders.filter (·.owner ≠ self)).take (numNeeded + 1)).foldl .addBalance counter := by
  induction holders generalizing counter numNeeded with
  | nil => rfl
  | cons bal rest induction =>
    by_cases own : bal.owner = self
    · simp [VoteCounter.count, own, induction]
    · cases numNeeded with
      | zero => simp [VoteCounter.count, own]
      | succ numNeeded => simp [VoteCounter.count, own, induction]

theorem totalVotes_eq_zero {counter : VoteCounter} :
    (List.foldl .addBalance counter holders).totalVotes = 0 ↔
      counter.totalVotes = 0 ∧ ∀ bal ∈ holders, bal.balance = 0 := by
  induction holders generalizing counter with
  | nil => simp
  | cons bal rest induction =>
    have added : (counter.addBalance bal).totalVotes = 0 ↔
        counter.totalVotes = 0 ∧ bal.balance = 0 := by
      unfold VoteCounter.addBalance VoteCounter.add
      split <;> simp_all
    simp [induction, added, and_assoc]

theorem holdersOf_sorted (asset : Nat) : (holdersOf balances asset).Pairwise
      fun left right => right.balance ≤ left.balance := by
  apply (Sorting.pairwise_insertionSort ⟨?_, ?_⟩).imp
  · omega
  · grind
  · grind

theorem votes_eq_zero (self : AccountId) (asset fewer : Nat) :
    (votes balances self asset (fewer + 1)).totalVotes = 0 ↔
      hasHolders balances self (some (.topHolders asset (fewer + 1))) = false := by
  have zero : hasHolders balances self (some (.topHolders asset (fewer + 1))) = false ↔
      ∀ bal ∈ (holdersOf balances asset).filter (·.owner ≠ self), bal.balance = 0 := by
    simp [hasHolders, holdersOf, and_imp]
  have sorted := (holdersOf_sorted balances asset).filter (·.owner ≠ self)
  rw [votes, totalVotes_eq_zero, zero]
  cases list : (holdersOf balances asset).filter (·.owner ≠ self) with
  | nil => simp [VoteCounter.initial]
  | cons largest rest =>
    rw [list] at sorted
    constructor
    · rintro ⟨-, none⟩ bal member
      have first := none largest (by simp)
      rcases List.mem_cons.mp member with rfl | later
      · exact first
      · have smaller := (List.pairwise_cons.mp sorted).1 bal later
        omega
    · intro none
      exact ⟨rfl, fun bal member => none bal (List.mem_of_mem_take member)⟩

theorem updateTopN_eq (isOwner : Bool) (special : SpecialAuthority) :
    acct.updateTopN balances isOwner special = if hasHolders balances acct.id (some special) then
        acct.topNControlFlags.map fun flags =>
          { acct with
            owner := if isOwner then meant balances acct.id (some special) acct.owner
              else acct.owner
            active := if isOwner then acct.active
              else meant balances acct.id (some special) acct.active
            topNControlFlags := some (flags ||| if isOwner then 1 else 2) }
      else some acct := by
  cases special with
  | noSpecialAuthority => rfl
  | topHolders asset numTopHolders =>
    cases numTopHolders with
    | zero => simp [updateTopN, hasHolders]
    | succ fewer =>
      have empty := votes_eq_zero balances acct.id asset fewer
      rw [votes] at empty
      by_cases held : hasHolders balances acct.id (some (.topHolders asset (fewer + 1)))
      · simp_all [updateTopN, count_eq, meant, votes]
        cases isOwner <;> rfl
      · simp_all [updateTopN, count_eq, VoteCounter.finish]

theorem meant_of_not (none : hasHolders balances self special = false)
    (current : Authority Key) : meant balances self special current = current := by
  unfold meant
  split <;> simp_all

theorem refresh_complete (both : acct.complete = true) :
    if acct.topNControlFlags = none ∧ acct.due balances then acct.refresh balances = none
    else ∃ after, acct.refresh balances = some after ∧
      after.authorities = acct.asMeant balances := by
  obtain ⟨id, _, _, ownerSpecial, activeSpecial, flags, _⟩ := acct
  simp only [complete, Bool.and_eq_true, Option.isSome_iff_exists] at both
  obtain ⟨⟨ownerSpecial, rfl⟩, ⟨activeSpecial, rfl⟩⟩ := both
  cases ownerHeld : hasHolders balances id (some ownerSpecial) <;>
    cases activeHeld : hasHolders balances id (some activeSpecial) <;> cases flags <;>
    simp [refresh, updateTopN_eq, due, authorities, asMeant, meant_of_not, ownerHeld, activeHeld]

theorem refresh_incomplete (one : acct.complete = false) (unset : acct.topNControlFlags = none) :
    acct.refresh balances = none := by
  cases owner : acct.ownerSpecialAuthority with
  | none => simp [refresh, owner]
  | some special =>
    have active : acct.activeSpecialAuthority = none := by
      simpa [complete, owner] using one
    rw [refresh, owner, Option.bind_eq_bind, Option.bind_some, updateTopN_eq, unset]
    split
    · rfl
    · simp [active]

/-- What the accounts have to be like.  One without both special authorities
ends the loop. -/
def Fits : List (SpecialAccount Key) → Prop
  | [] => True
  | acct :: rest =>
    if !acct.listed then acct.asMeant balances = acct.authorities ∧ Fits rest
    else if acct.complete then
      (acct.topNControlFlags = none → acct.due balances = false) ∧ Fits rest
    else acct.topNControlFlags ≠ none ∧
      ∀ other ∈ acct :: rest, other.asMeant balances = other.authorities

/-- All special authorities are refreshed exactly if the loop meets no account
that stops it, or one after which nothing has changed, and reads nothing that is
not set. -/
theorem special_authorities_refreshed_iff (accounts : List (SpecialAccount Key)) :
    (∃ after, updateTopNAuthorities balances accounts = some after ∧
      after.map authorities = accounts.map (asMeant balances)) ↔ Fits balances accounts := by
  induction accounts with
  | nil => exact ⟨fun _ => trivial, fun _ => ⟨[], rfl, rfl⟩⟩
  | cons acct rest induction =>
    rw [Fits, ← induction, updateTopNAuthorities]
    cases listed : acct.listed with
    | false => simp [eq_comm, and_left_comm]
    | true =>
      cases both : acct.complete with
      | true =>
        have refreshed := refresh_complete balances acct both
        split at refreshed
        · simp_all
        · obtain ⟨_, refreshed, _⟩ := refreshed
          simp_all
      | false =>
        cases flags : acct.topNControlFlags with
        | none =>
          have unset := refresh_incomplete balances acct both flags
          simp [unset]
        | some flags =>
          simp only [List.forall_mem_cons]
          simp [eq_comm]

/-- The first account has been registered with a special authority for its
owner, and then its active authority has been changed.  The second one, which
has both, is not refreshed. -/
theorem special_authority_stale : ∃ first second : SpecialAccount Unit,
    SpecialAccount.update ⟨10, ⟨1, [], []⟩, ⟨1, [], []⟩, some (.topHolders 2 1), none, none, true⟩
      { active := some ⟨2, [], []⟩ } = some first ∧
    SpecialAccount.update ⟨11, ⟨1, [], []⟩, ⟨1, [], []⟩, some (.topHolders 2 1),
      some .noSpecialAuthority, none, true⟩ { active := some ⟨2, [], []⟩ } = some second ∧
    updateTopNAuthorities [⟨12, 2, 100⟩] [first, second] = some [first, second] ∧
    second.asMeant [⟨12, 2, 100⟩] ≠ second.authorities := by
  exact ⟨_, _, rfl, rfl, rfl, by decide⟩

end SpecialAccount

end CocosChain.Chain

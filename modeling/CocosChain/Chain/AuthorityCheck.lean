import CocosChain.Library.WeightedApproval

/-!
# Checking authorities

`check_authority` looks for enough weight among the keys that have signed and
the accounts whose active authority is satisfied in turn.  It stops at the
threshold and at a depth, and remembers the accounts it has approved, at
whatever depth that was, for all later calls.

Addresses are left out: no account may have them in an authority.
-/

namespace CocosChain.Chain

abbrev AccountId := Nat

structure Authority (Key : Type) where
  weightThreshold : UInt32
  accountAuths : List (AccountId × UInt16)
  keyAuths : List (Key × UInt16)
  deriving DecidableEq, Repr

namespace Authority

variable {Key : Type}

def numAuths (authority : Authority Key) : Nat :=
  authority.accountAuths.length + authority.keyAuths.length

/-- Accounts are refused if an authority has more members than
`maximum_authority_membership`, a number of 16 bits, allows. -/
def Admitted (authority : Authority Key) : Prop := authority.numAuths < 2 ^ 16

instance (authority : Authority Key) : Decidable authority.Admitted :=
  inferInstanceAs (Decidable (_ < _))

end Authority

abbrev AdmittedAuthority (Key : Type) := { authority : Authority Key // authority.Admitted }

structure SignState (Key : Type) where
  providedSignatures : List (Key × Bool)
  availableKeys : List Key
  approvedBy : List AccountId
  maxRecursion : Nat
  deriving Repr

namespace SignState

variable {Key : Type} [DecidableEq Key]

/-- Writes to the map of signatures, which has one entry for a key. -/
def markUsed (key : Key) : List (Key × Bool) → List (Key × Bool)
  | [] => [(key, true)]
  | (other, used) :: rest =>
      if other = key then (key, true) :: rest
      else (other, used) :: markUsed key rest

def signedBy (key : Key) (state : SignState Key) : Bool × SignState Key :=
  if key ∈ state.providedSignatures.map Prod.fst ∨ key ∈ state.availableKeys then
    (true, { state with
      providedSignatures := markUsed key state.providedSignatures })
  else (false, state)

def approve (account : AccountId) (state : SignState Key) : SignState Key :=
  { state with approvedBy := state.approvedBy.insert account }

def removeUnusedSignatures (state : SignState Key) : Nat × SignState Key :=
  ((state.providedSignatures.filter (! ·.2)).length,
    { state with
      providedSignatures := state.providedSignatures.filter (·.2) })

/-- Whether an account counts.  At the depth bound there is nothing `deeper`. -/
def approves (getActive : AccountId → Option (Authority Key)) (deeper : Option
      (Option (Authority Key) → SignState Key → Bool × SignState Key))
    (account : AccountId) (state : SignState Key) : Bool × SignState Key :=
  if account ∈ state.approvedBy then (true, state)
  else
    match deeper with
    | none => (false, state)
    | some check =>
        let (approved, state) := check (getActive account) state
        if approved then (true, state.approve account) else (false, state)

/-- Counts the keys and then the accounts of an authority. -/
def checkMembers (getActive : AccountId → Option (Authority Key)) (deeper : Option
      (Option (Authority Key) → SignState Key → Bool × SignState Key))
    (authority : Authority Key) (state : SignState Key) : Bool × SignState Key :=
  match tally signedBy authority.weightThreshold authority.keyAuths 0 state with
  | (none, state) => (true, state)
  | (some totalWeight, state) =>
      match tally (approves getActive deeper) authority.weightThreshold
          authority.accountAuths totalWeight state with
      | (none, state) => (true, state)
      | (some totalWeight, state) =>
          (authority.weightThreshold ≤ totalWeight, state)

/-- `levels` is what is left of `max_recursion`. -/
def checkLevels (getActive : AccountId → Option (Authority Key)) :
    Nat → Option (Authority Key) → SignState Key → Bool × SignState Key
  | _, none, state => (false, state)
  | 0, some authority, state => checkMembers getActive none authority state
  | levels + 1, some authority, state =>
      checkMembers getActive (some (checkLevels getActive levels)) authority state

def checkAuthority (getActive : AccountId → Option (Authority Key))
    (authority : Option (Authority Key)) (state : SignState Key) : Bool × SignState Key :=
  checkLevels getActive state.maxRecursion authority state

def checkAccount (getActive : AccountId → Option (Authority Key))
    (account : AccountId) (state : SignState Key) : Bool × SignState Key :=
  if account ∈ state.approvedBy then (true, state)
  else checkAuthority getActive (getActive account) state

def Signs (state : SignState Key) (key : Key) : Prop :=
  key ∈ state.providedSignatures.map Prod.fst ∨ key ∈ state.availableKeys

end SignState

variable {Key : Type}

/-- An authority with the weight of the keys that can sign. -/
noncomputable def Authority.ballot (signs : Key → Prop)
    (authority : Authority Key) : Ballot AccountId where
  own := weightOf signs (weights authority.keyAuths)
  members := weights authority.accountAuths
  threshold := authority.weightThreshold.toNat

/-- The authorities that accounts are looked up to have. -/
noncomputable def ballots (signs : Key → Prop)
    (getActive : AccountId → Option (Authority Key)) (account : AccountId) :
    Option (Ballot AccountId) :=
  (getActive account).map (Authority.ballot signs)

theorem sum_weights_le {α : Type} (members : List (α × UInt16)) :
    ((weights members).map Prod.snd).sum ≤ members.length * (2 ^ 16 - 1) := by
  induction members with
  | nil => exact Nat.zero_le _
  | cons member members induction =>
    have bound := member.2.toNat_lt
    change member.2.toNat + ((weights members).map Prod.snd).sum ≤ _
    rw [List.length_cons, Nat.succ_mul]
    omega

/-- The weights of an authority add up within 32 bits. -/
theorem Authority.Admitted.fits {authority : Authority Key} (admitted : authority.Admitted) :
    ((weights authority.keyAuths).map Prod.snd).sum +
      ((weights authority.accountAuths).map Prod.snd).sum < 2 ^ 32 := by
  have keys := sum_weights_le authority.keyAuths
  have accounts := sum_weights_le authority.accountAuths
  unfold Authority.Admitted Authority.numAuths at admitted
  omega

namespace SignState

variable [DecidableEq Key]

theorem mem_markUsed (key other : Key) (provided : List (Key × Bool)) :
    other ∈ (markUsed key provided).map Prod.fst ↔ other = key ∨ other ∈ provided.map Prod.fst := by
  induction provided with
  | nil => simp [markUsed]
  | cons entry provided induction =>
    obtain ⟨first, _⟩ := entry
    unfold markUsed
    by_cases same : first = key
    · simp [same]
    · rw [if_neg same, List.map_cons, List.mem_cons, induction, List.map_cons, List.mem_cons]
      exact or_left_comm

variable (getActive : AccountId → Option (Authority Key))

def approved (state : SignState Key) : Set AccountId := { account | account ∈ state.approvedBy }

/-- The accounts that can be derived from a state at depth `depth`. -/
def derivableWithin (state : SignState Key) (depth : Nat) : Set AccountId :=
  approvedWithin (ballots state.Signs getActive) state.approved depth

/-- The accounts that can be derived from a state at all. -/
def derivable (state : SignState Key) : Set AccountId :=
  approvedAtAll (ballots state.Signs getActive) state.approved

/-- What checks make of the state they start in: the same keys sign, and more
accounts may have been approved, but none that cannot be derived. -/
structure Consistent (start state : SignState Key) : Prop where
  signs_iff : ∀ key, state.Signs key ↔ start.Signs key
  recursion : state.maxRecursion = start.maxRecursion
  above : start.approved ⊆ state.approved
  below : state.approved ⊆ start.derivable getActive

variable {getActive}

omit [DecidableEq Key] in
theorem Consistent.refl (state : SignState Key) : Consistent getActive state state where
  signs_iff _ := Iff.rfl
  recursion := rfl
  above := subset_rfl
  below := subset_approvedAtAll

theorem signedBy_spec (key : Key) (consistent : Consistent getActive start state) :
    Consistent getActive start (state.signedBy key).2 ∧
      ((state.signedBy key).1 = true → start.Signs key) ∧
      (start.Signs key → (state.signedBy key).1 = true) := by
  unfold signedBy
  by_cases found : key ∈ state.providedSignatures.map Prod.fst ∨ key ∈ state.availableKeys
  · rw [if_pos found]
    have isSigner := (consistent.signs_iff key).mp found
    refine ⟨⟨?_, consistent.recursion, consistent.above, consistent.below⟩,
      fun _ => isSigner, fun _ => rfl⟩
    intro other
    rw [← consistent.signs_iff other]
    change other ∈ (markUsed key state.providedSignatures).map Prod.fst ∨ _ ↔ _
    rw [mem_markUsed, or_assoc]
    refine ⟨?_, .inr⟩
    rintro (rfl | known)
    · exact found
    · exact known
  · rw [if_neg found]
    refine ⟨consistent, nofun, ?_⟩
    intro isSigner
    exact absurd ((consistent.signs_iff key).mpr isSigner) found

omit [DecidableEq Key] in
theorem Consistent.approve (consistent : Consistent getActive start state)
    (derived : account ∈ start.derivable getActive) :
    Consistent getActive start (state.approve account) where
  signs_iff := consistent.signs_iff
  recursion := consistent.recursion
  above _ member := List.mem_insert_of_mem (consistent.above member)
  below other member := by
    rcases List.mem_insert_iff.mp member with rfl | known
    · exact derived
    · exact consistent.below known

/-- What a check with `levels` left over decides. -/
def Decides (getActive : AccountId → Option (Authority Key)) (start : SignState Key) (levels : Nat)
    (check : Option (Authority Key) → SignState Key → Bool × SignState Key) : Prop :=
  ∀ authority state, Consistent getActive start state →
    Consistent getActive start (check authority state).2 ∧
      ((check authority state).1 = true → ∃ known, authority = some known ∧
        (known.ballot start.Signs).CarriedBy (start.derivable getActive)) ∧
      ∀ known, authority = some known → known.Admitted → (known.ballot start.Signs).CarriedBy
          (start.derivableWithin getActive levels) →
        (check authority state).1 = true

/-- What is looked up one level down, and how many levels that leaves. -/
inductive Deeper (getActive : AccountId → Option (Authority Key))
    (start : SignState Key) : Nat → Option
      (Option (Authority Key) → SignState Key → Bool × SignState Key) →
      Prop where
  | bottom : Deeper getActive start 0 none
  | below {levels : Nat}
      {check : Option (Authority Key) → SignState Key → Bool × SignState Key}
      (decides : Decides getActive start levels check) :
      Deeper getActive start (levels + 1) (some check)

omit [DecidableEq Key] in
theorem approves_spec (admitted : ∀ account known, getActive account = some known → known.Admitted)
    (isDeeper : Deeper getActive start levels deeper) (account : AccountId)
    (consistent : Consistent getActive start state) :
    Consistent getActive start (approves getActive deeper account state).2 ∧
      ((approves getActive deeper account state).1 = true → account ∈ start.derivable getActive) ∧
      (account ∈ start.derivableWithin getActive levels →
        (approves getActive deeper account state).1 = true) := by
  unfold approves
  by_cases known : account ∈ state.approvedBy
  · rw [if_pos known]
    exact ⟨consistent, fun _ => consistent.below known, fun _ => rfl⟩
  · rw [if_neg known]
    have notApproved : account ∉ start.approved := fun member => known (consistent.above member)
    cases isDeeper with
    | bottom =>
      exact ⟨consistent, nofun, fun member => absurd member notApproved⟩
    | @below levels check decides =>
      obtain ⟨kept, sound, complete⟩ := decides (getActive account) state consistent
      dsimp only
      generalize check (getActive account) state = answer at kept sound complete
      obtain ⟨approved, _⟩ := answer
      have isTrue (member : account ∈ start.derivableWithin getActive (levels + 1)) :
          approved = true := by
        rcases member with before | ⟨ballot, isBallot, carried⟩
        · exact absurd before notApproved
        · obtain ⟨authority, isActive, rfl⟩ :=
            Option.map_eq_some_iff.mp isBallot
          exact complete authority isActive (admitted account authority isActive) carried
      cases approved with
      | false =>
        refine ⟨kept, nofun, ?_⟩
        intro member
        exact nomatch isTrue member
      | true =>
        obtain ⟨authority, isActive, carried⟩ := sound rfl
        have isBallot : ballots start.Signs getActive account =
            some (authority.ballot start.Signs) :=
          congrArg (Option.map _) isActive
        have derived := mem_approvedAtAll isBallot carried
        exact ⟨kept.approve derived, fun _ => derived, fun _ => rfl⟩

theorem checkMembers_spec
    (admitted : ∀ account known, getActive account = some known → known.Admitted)
    (isDeeper : Deeper getActive start levels deeper) (authority : Authority Key)
    (consistent : Consistent getActive start state) :
    Consistent getActive start (checkMembers getActive deeper authority state).2 ∧
      ((checkMembers getActive deeper authority state).1 = true →
        (authority.ballot start.Signs).CarriedBy (start.derivable getActive)) ∧
      (authority.Admitted → (authority.ballot start.Signs).CarriedBy
          (start.derivableWithin getActive levels) →
        (checkMembers getActive deeper authority state).1 = true) := by
  obtain ⟨keysKept, keys⟩ := tally_spec authority.weightThreshold
    authority.keyAuths (fun key _ _ => signedBy_spec key) 0 consistent
  unfold checkMembers
  generalize tally signedBy authority.weightThreshold authority.keyAuths 0
    state = answer at keysKept keys
  obtain ⟨keyResult, afterKeys⟩ := answer
  have zero : (0 : UInt32).toNat = 0 := rfl
  cases keyResult with
  | none =>
    have reached := keys.reached rfl
    rw [zero, Nat.zero_add] at reached
    exact ⟨keysKept, fun _ => reached.trans (Nat.le_add_right _ _), fun _ _ => rfl⟩
  | some total =>
    obtain ⟨accountsKept, accounts⟩ := tally_spec authority.weightThreshold authority.accountAuths
      (fun account _ _ => approves_spec admitted isDeeper account) total keysKept
    have signed := keys.atMost total rfl
    rw [zero, Nat.zero_add] at signed
    dsimp only
    generalize tally (approves getActive deeper) authority.weightThreshold
      authority.accountAuths total afterKeys = answer at accountsKept accounts
    obtain ⟨accountResult, _⟩ := answer
    cases accountResult with
    | none =>
      have reached := accounts.reached rfl
      exact ⟨accountsKept, fun _ => reached.trans (Nat.add_le_add_right signed _), fun _ _ => rfl⟩
    | some final =>
      refine ⟨accountsKept, ?_, ?_⟩
      · intro isTrue
        have reached := UInt32.le_iff_toNat_le.mp (of_decide_eq_true isTrue)
        exact reached.trans ((accounts.atMost final rfl).trans (Nat.add_le_add_right signed _))
      · intro isAdmitted carried
        have fits := isAdmitted.fits
        have signedAtLeast := keys.atLeast total rfl (by omega)
        have own := signed.trans weightOf.le_sum
        have countedAtLeast := accounts.atLeast final rfl (by omega)
        apply decide_eq_true
        apply UInt32.le_iff_toNat_le.mpr
        calc
          authority.weightThreshold.toNat ≤ weightOf start.Signs (weights authority.keyAuths) +
                weightOf (· ∈ start.derivableWithin getActive levels)
                  (weights authority.accountAuths) :=
            carried
          _ ≤ total.toNat + weightOf (· ∈ start.derivableWithin getActive levels)
                  (weights authority.accountAuths) := by
            apply Nat.add_le_add_right
            rw [zero, Nat.zero_add] at signedAtLeast
            exact signedAtLeast
          _ ≤ final.toNat := countedAtLeast

theorem checkLevels_none (levels : Nat) (state : SignState Key) :
    checkLevels getActive levels none state = (false, state) := by
  cases levels with
  | zero => rfl
  | succ levels => rfl

/-- Each level decides what can be derived in as many levels. -/
theorem checkLevels_decides
    (admitted : ∀ account known, getActive account = some known → known.Admitted) (levels : Nat) :
    Decides getActive start levels (checkLevels getActive levels) := by
  have decides {deeper : Option (Option (Authority Key) → SignState Key → Bool × SignState Key)}
      {levels : Nat} (isDeeper : Deeper getActive start levels deeper)
      (step : ∀ authority state, checkLevels getActive levels (some authority) state =
          checkMembers getActive deeper authority state) :
      Decides getActive start levels (checkLevels getActive levels) := by
    intro authority state consistent
    cases authority with
    | none =>
      rw [checkLevels_none]
      exact ⟨consistent, nofun, nofun⟩
    | some authority =>
      obtain ⟨kept, sound, complete⟩ := checkMembers_spec admitted isDeeper authority consistent
      rw [step]
      refine ⟨kept, fun isTrue => ⟨authority, rfl, sound isTrue⟩, ?_⟩
      rintro _ ⟨⟩
      exact complete
  induction levels with
  | zero => exact decides .bottom fun _ _ => rfl
  | succ levels induction => exact decides (.below induction) fun _ _ => rfl

end SignState

/-- The accounts as they are looked up. -/
structure Accounts (Key : Type) where
  getActive : AccountId → Option (Authority Key)
  admitted : ∀ account authority, getActive account = some authority → authority.Admitted

/-- The two ways to ask: for an account or for an authority, which may be a
null pointer. -/
inductive Call (Key : Type) where
  | ofAccount (account : AccountId)
  | ofAuthority (authority : Option (AdmittedAuthority Key))

namespace Call

variable (accounts : Accounts Key)

def target : Call Key → Option (Authority Key)
  | ofAccount account => accounts.getActive account
  | ofAuthority authority => authority.map Subtype.val

/-- What is asked for is satisfied at depth `depth`, or approved anyway. -/
def Derivable (start : SignState Key) (depth : Nat) (call : Call Key) : Prop :=
  (∃ account ∈ start.approved, call = ofAccount account) ∨
    ∃ authority, call.target accounts = some authority ∧
      (authority.ballot start.Signs).CarriedBy (start.derivableWithin accounts.getActive depth)

variable [DecidableEq Key]

def perform : Call Key → SignState Key → Bool × SignState Key
  | ofAccount account => SignState.checkAccount accounts.getActive account
  | ofAuthority authority =>
      SignState.checkAuthority accounts.getActive (authority.map Subtype.val)

/-- The state that calls in turn leave. -/
def performAll (calls : List (Call Key)) (state : SignState Key) : SignState Key :=
  calls.foldl (fun state call => (call.perform accounts state).2) state

variable {accounts} {start : SignState Key}

section

omit [DecidableEq Key]

theorem target_admitted {call : Call Key} (isTarget : call.target accounts = some authority) :
    authority.Admitted := by
  cases call with
  | ofAccount account => exact accounts.admitted account authority isTarget
  | ofAuthority asked =>
    obtain ⟨admitted, _, rfl⟩ := Option.map_eq_some_iff.mp isTarget
    exact admitted.property

/-- An account that can be derived at all can be at some depth. -/
theorem derivable_of_mem (derived : account ∈ start.derivable accounts.getActive) :
    ∃ depth, (ofAccount account).Derivable accounts start depth := by
  obtain ⟨depth, within⟩ := Set.mem_iUnion.mp derived
  cases depth with
  | zero => exact ⟨0, .inl ⟨account, within, rfl⟩⟩
  | succ depth =>
    rcases within with before | ⟨_, isBallot, carried⟩
    · exact ⟨0, .inl ⟨account, before, rfl⟩⟩
    · obtain ⟨active, isActive, rfl⟩ := Option.map_eq_some_iff.mp isBallot
      exact ⟨depth, .inr ⟨active, isActive, carried⟩⟩

end

/-- Unless it is for an approved account, a call checks its target. -/
theorem perform_eq (unknown : ¬ ∃ account ∈ state.approved, call = ofAccount account) :
    call.perform accounts state = SignState.checkLevels accounts.getActive
      state.maxRecursion (call.target accounts) state := by
  cases call with
  | ofAccount account =>
    have notApproved : account ∉ state.approvedBy := fun member => unknown ⟨account, member, rfl⟩
    exact if_neg notApproved
  | ofAuthority authority => rfl

theorem perform_spec (call : Call Key) (consistent : start.Consistent accounts.getActive state) :
    start.Consistent accounts.getActive (call.perform accounts state).2 ∧
      ((call.perform accounts state).1 = true → ∃ depth, call.Derivable accounts start depth) ∧
      (call.Derivable accounts start start.maxRecursion →
        (call.perform accounts state).1 = true) := by
  by_cases known : ∃ account ∈ state.approved, call = ofAccount account
  · obtain ⟨account, member, rfl⟩ := known
    have done : (ofAccount account).perform accounts state = (true, state) := if_pos member
    rw [done]
    exact ⟨consistent, fun _ => derivable_of_mem (consistent.below member), fun _ => rfl⟩
  · obtain ⟨kept, sound, complete⟩ := SignState.checkLevels_decides
      accounts.admitted state.maxRecursion (call.target accounts) state consistent
    rw [perform_eq known]
    refine ⟨kept, ?_, ?_⟩
    · intro isTrue
      obtain ⟨authority, isTarget, carried⟩ := sound isTrue
      obtain ⟨depth, within⟩ := carried.exists_level approvedWithin_mono
      exact ⟨depth, .inr ⟨authority, isTarget, within⟩⟩
    · rintro (⟨account, before, isCall⟩ | ⟨authority, isTarget, carried⟩)
      · exact absurd ⟨account, consistent.above before, isCall⟩ known
      · rw [← consistent.recursion] at carried
        exact complete authority isTarget (target_admitted isTarget) carried

theorem performAll_consistent (calls : List (Call Key))
    (consistent : start.Consistent accounts.getActive state) :
    start.Consistent accounts.getActive (performAll accounts calls state) := by
  induction calls generalizing state with
  | nil => exact consistent
  | cons call calls induction =>
    exact induction (perform_spec call consistent).1

/-- Whatever calls have been made before on the same state, a call says yes if
what it asks for can be derived within the depth bound, and only if it can be
derived at some depth. -/
theorem perform_sound_complete (accounts : Accounts Key)
    (start : SignState Key) (calls : List (Call Key)) (call : Call Key) :
    (call.Derivable accounts start start.maxRecursion →
        (call.perform accounts (performAll accounts calls start)).1 = true) ∧
      ((call.perform accounts (performAll accounts calls start)).1 = true →
        ∃ depth, call.Derivable accounts start depth) := by
  have consistent := performAll_consistent calls
    (SignState.Consistent.refl start : start.Consistent accounts.getActive _)
  obtain ⟨_, sound, complete⟩ := perform_spec call consistent
  exact ⟨complete, sound⟩

/-- Accounts `1` and `2` name each other, and `2` has a key as well. -/
def mutualAccounts (keyWeight : UInt16) : Accounts Nat where
  getActive
    | 1 => some ⟨1, [(2, 1)], []⟩
    | 2 => some ⟨2, [(1, 1)], [(5, keyWeight)]⟩
    | _ => none
  admitted account authority isActive := by
    split at isActive
    · cases isActive
      exact Nat.le_of_ble_eq_true rfl
    · cases isActive
      exact Nat.le_of_ble_eq_true rfl
    · cases isActive

/-- The circle does not make up for a key that weighs too little, whatever has
been asked before; a key that weighs enough carries both accounts. -/
theorem perform_sound_complete_mutual :
    let start : SignState Nat := ⟨[(5, false)], [], [], 2⟩
    ¬ (ofAccount 1).Derivable (mutualAccounts 1) start 2 ∧
      ∃ depth, (ofAccount 1).Derivable (mutualAccounts 2) start depth := by
  intro start
  let asked : List (Call Nat) := [.ofAccount 2, .ofAccount 1]
  constructor
  · intro derivable
    have granted := (perform_sound_complete (mutualAccounts 1) start asked _).1 derivable
    revert granted
    decide
  · exact (perform_sound_complete (mutualAccounts 2) start asked (ofAccount 1)).2 (by decide)

end Call

end CocosChain.Chain

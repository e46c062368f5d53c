import CocosChain.Chain.NftEscrow

/-!
# Locked assets

The assets that are locked are listed with the account that owns them, and once
more with the contract that has locked each.  Whoever disposes of an asset is
its owner, whose list is looked up first; and nothing of what the null account
keeps in escrow is locked.  So a locked asset stays where it is until the same
contract unlocks it.
-/

namespace CocosChain.Chain

namespace NftLocks

/-- Each locked asset is listed once, and once with a contract. -/
structure Sound (locks : NftLocks) : Prop where
  nodup : locks.nftLocked.Nodup
  details : locks.contractNftLockDetails.members.Perm locks.nftLocked

end NftLocks

namespace NftWorld

variable {world : NftWorld} {locks : NftLocks} {id : Nat}

theorem locked_eq_ok (performed : adjustLocks locks contract id true = .ok adjusted) :
    id ∉ locks.nftLocked ∧ adjusted = ⟨locks.nftLocked ++ [id],
      locks.contractNftLockDetails.store contract
        (locks.contractNftLockDetails.listAt contract ++ [id])⟩ := by
  simp only [adjustLocks, if_true, bind_eq_ok, ensure_eq_ok, pure_eq_ok] at performed
  obtain ⟨_, free, rfl⟩ := performed
  exact ⟨by simpa using free, rfl⟩

theorem unlocked_eq_ok (performed : adjustLocks locks contract id false = .ok adjusted) :
    id ∈ locks.contractNftLockDetails.listAt contract ∧
      adjusted = ⟨locks.nftLocked.erase id, locks.contractNftLockDetails.store contract
          ((locks.contractNftLockDetails.listAt contract).erase id)⟩ := by
  simp only [adjustLocks, Bool.false_eq_true, if_false, bind_eq_ok,
    ensure_eq_ok, pure_eq_ok] at performed
  obtain ⟨_, _, _, listed, rfl⟩ := performed
  exact ⟨List.contains_iff_mem.mp listed, rfl⟩

theorem adjustLocks_sound (sound : locks.Sound)
    (performed : adjustLocks locks contract id lock = .ok adjusted) : adjusted.Sound := by
  have parted : (locks.contractNftLockDetails.listAt contract ++
      ListMap.members (locks.contractNftLockDetails.erase contract)).Perm locks.nftLocked :=
    ListMap.members_perm_erase.symm.trans sound.details
  cases lock with
  | true =>
    obtain ⟨free, rfl⟩ := locked_eq_ok performed
    refine ⟨?_, ListMap.members_store_perm.trans ?_⟩
    · apply sound.nodup.append (List.nodup_singleton id)
      simpa using free
    · rw [List.append_assoc]
      refine (List.perm_append_comm.append_left _).trans ?_
      rw [← List.append_assoc]
      exact parted.append_right _
  | false =>
    obtain ⟨listed, rfl⟩ := unlocked_eq_ok performed
    refine ⟨sound.nodup.erase id, ListMap.members_store_perm.trans ?_⟩
    rw [← List.erase_append_left _ listed]
    exact parted.erase id

theorem mem_adjustLocks (performed : adjustLocks locks contract id lock = .ok adjusted)
    (listed : number ∈ adjusted.nftLocked) : number = id ∨ number ∈ locks.nftLocked := by
  cases lock with
  | true =>
    obtain ⟨-, rfl⟩ := locked_eq_ok performed
    simpa [or_comm] using listed
  | false =>
    obtain ⟨-, rfl⟩ := unlocked_eq_ok performed
    exact .inr (List.mem_of_mem_erase listed)

/-- The locks of every account are in order, they are on assets that it owns,
and the null account has none. -/
structure LocksHeld (world : NftWorld) : Prop where
  sound : ∀ account, (world.locks account).Sound
  owned : ∀ account, ∀ id ∈ (world.locks account).nftLocked,
    ∃ token, world.assets.get id = some token ∧ token.nhAssetOwner = account
  null : (world.locks nullAccount).nftLocked = []

/-- Every locked asset stays with its owner. -/
def Stays (world after : NftWorld) : Prop :=
  ∀ account, ∀ id ∈ (world.locks account).nftLocked,
    ∃ token, after.assets.get id = some token ∧ token.nhAssetOwner = account

theorem LocksHeld.keep (held : world.LocksHeld) (same : after.locks = world.locks)
    (stays : Stays world after) : after.LocksHeld := by
  refine ⟨?_, ?_, ?_⟩
  · rw [same]
    exact held.sound
  · rw [same]
    exact stays
  · rw [same]
    exact held.null

theorem LocksHeld.apart (held : world.LocksHeld) {hash : NhHash}
    (holds : world.Holds nullAccount id hash)
    (listed : locked ∈ (world.locks account).nftLocked) : locked ≠ id := by
  rintro rfl
  obtain ⟨_, here, -, null, -⟩ := holds.exists
  obtain ⟨_, there, owner⟩ := held.owned account locked listed
  cases here.symm.trans there
  rw [← owner, null, held.null] at listed
  cases listed

theorem owner_relink (here : world.assets.get id = some token) :
    ((world.relink parent child down up).assets.get id).map
      (·.nhAssetOwner) = some token.nhAssetOwner := by
  have same : ((world.relink parent child down up).assets.get id).map
      NhAsset.rights = some token.rights := by
    rw [rights_relink, here]
    rfl
  obtain ⟨changed, now, rights⟩ := Option.map_eq_some_iff.mp same
  have owner : changed.nhAssetOwner = token.nhAssetOwner := congrArg (·.2.1) rights
  rw [now, Option.map_some, owner]

theorem cleared_frame (escrowed : world.Escrowed)
    (performed : world.clearExpiredNhAssetOrders = .ok after) :
    after.locks = world.locks ∧ ∀ id, (∀ number order, world.orders.get number = some order →
        id ≠ order.nhAssetId) → after.assets.get id = world.assets.get id := by
  obtain ⟨_, accepted, -, -, -, -, left, locks⟩ :=
    revokeAll_spec escrowed (fun row member => (mem_expiredOrders.mp member).1)
      expiredOrders_distinct
  cases accepted.symm.trans performed
  refine ⟨locks, fun id free => left id fun row member => ?_⟩
  exact free row.1 row.2 (mem_expiredOrders.mp member).1

/-- An asset that is not in escrow stays with its owner, unless it may be
disposed of on behalf of whom the step is taken. -/
theorem Effect.owner_kept (effect : Effect world event after) (escrowed : world.Escrowed)
    (there : world.assets.get id = some token) (free : ∀ hash, ¬ world.Holds nullAccount id hash)
    (kept : ¬ world.Disposable event.behalf id token) :
    (after.assets.get id).map (·.nhAssetOwner) = some token.nhAssetOwner := by
  have apart {other : Nat} {found : NhAsset} (here : world.assets.get other = some found)
      (disposable : world.Disposable event.behalf other found) : id ≠ other := by
    rintro rfl
    cases here.symm.trans there
    exact kept disposable
  have unordered {number : Nat} {order : NhAssetOrder}
      (live : world.orders.get number = some order) : id ≠ order.nhAssetId := by
    rintro rfl
    exact free _ (escrowed.kept number order live)
  cases effect with
  | minted token word orphan childless =>
    have earlier : id ≠ world.assets.next := Nat.ne_of_lt (Table.lt_next there)
    simp [Table.get_create, earlier, there]
  | deleted called here disposable =>
    simp [Table.get_remove, apart here disposable, there]
  | @changed other found change here entitled =>
    by_cases same : id = other
    · subst same
      cases here.symm.trans there
      rcases entitled.owner with stays | disposable
      · simp [modifyAsset, Table.get_modify, there, stays]
      · exact absurd disposable kept
    · simp [modifyAsset, Table.get_modify, same, there]
  | related called heldParent heldChild performed =>
    obtain ⟨down, up, rfl⟩ := relateTokens_eq_ok performed
    exact owner_relink there
  | unrelated heldParent heldChild performed =>
    obtain ⟨_, _, rfl⟩ := unrelateTokens_eq_ok performed
    exact owner_relink there
  | locked called named here owned adjusted =>
    simp [there]
  | offered balances here disposable seller =>
    simp [offer, Table.get_modify, apart here disposable, there]
  | closed balances live located goes =>
    obtain rfl := Option.some.inj ((escrowed.located live).symm.trans located)
    simp [removeOrder, modifyAsset, Table.get_modify, unordered live, there]
  | cleared headBlockTime performed =>
    have later : Escrowed { world with headBlockTime := headBlockTime } :=
      escrowed.keep rfl escrowed.numbered fun _ _ holds => holds
    rw [(cleared_frame later performed).2 id fun _ _ => unordered]
    simp [there]
  | adjusted balances => simp [there]

theorem Effect.stays (effect : Effect world event after) (escrowed : world.Escrowed)
    (held : world.LocksHeld) : Stays world after := by
  intro account id listed
  obtain ⟨token, there, rfl⟩ := held.owned account id listed
  have kept := effect.owner_kept escrowed there (fun _ holds => held.apart holds listed rfl)
    fun disposable => disposable.unlocked listed
  obtain ⟨changed, now, same⟩ := Option.map_eq_some_iff.mp kept
  exact ⟨changed, now, same⟩

theorem Effect.locks_cases (effect : Effect world event after) (escrowed : world.Escrowed) :
    after.locks = world.locks ∨ ∃ contract caller name lock id token locks,
        event.step = .call contract caller (.adjustLockNftAsset name lock) ∧
        world.assets.get id = some token ∧
        event.behalf = some token.nhAssetOwner ∧
        adjustLocks (world.locks token.nhAssetOwner) contract id lock = .ok locks ∧
        after.assets = world.assets ∧
        after.locks token.nhAssetOwner = locks ∧
        ∀ account, account ≠ token.nhAssetOwner → after.locks account = world.locks account := by
  cases effect with
  | minted token word orphan childless => exact .inl rfl
  | deleted called here disposable => exact .inl rfl
  | changed change here entitled => exact .inl rfl
  | related called heldParent heldChild performed =>
    obtain ⟨down, up, rfl⟩ := relateTokens_eq_ok performed
    exact .inl rfl
  | unrelated heldParent heldChild performed =>
    obtain ⟨_, _, rfl⟩ := unrelateTokens_eq_ok performed
    exact .inl rfl
  | locked called named here owned adjusted =>
    exact .inr ⟨_, _, _, _, _, _, _, called, here, owned, adjusted, rfl, Function.update_self _ _ _,
      fun _ different => Function.update_of_ne different _ _⟩
  | offered balances here disposable seller => exact .inl rfl
  | closed balances live located goes => exact .inl rfl
  | cleared headBlockTime performed =>
    have later : Escrowed { world with headBlockTime := headBlockTime } :=
      escrowed.keep rfl escrowed.numbered fun _ _ holds => holds
    exact .inl (cleared_frame later performed).1
  | adjusted balances => exact .inl rfl

/-- The contract that has locked an asset calls to have it unlocked. -/
def Unlocks (world : NftWorld) (event : NftEvent) (account : AccountId) (id : Nat) : Prop :=
  ∃ contract caller name, event.step = .call contract caller (.adjustLockNftAsset name false) ∧
    id ∈ (world.locks account).contractNftLockDetails.listAt contract

theorem adjusted_locks
    (called : event.step = .call contract caller (.adjustLockNftAsset name lock))
    (performed : adjustLocks (world.locks account) contract id lock = .ok adjusted)
    (listed : locked ∈ (world.locks account).nftLocked) :
    locked ∈ adjusted.nftLocked ∨ world.Unlocks event account locked := by
  cases lock with
  | true =>
    obtain ⟨-, rfl⟩ := locked_eq_ok performed
    exact .inl (List.mem_append_left _ listed)
  | false =>
    obtain ⟨detailed, rfl⟩ := unlocked_eq_ok performed
    by_cases same : locked = id
    · subst same
      exact .inr ⟨contract, caller, name, called, detailed⟩
    · exact .inl ((List.mem_erase_of_ne same).mpr listed)

theorem Effect.locksHeld (effect : Effect world event after) (escrowed : world.Escrowed)
    (held : world.LocksHeld) (other : event.behalf ≠ some nullAccount) :
    after.LocksHeld ∧ ∀ account, ∀ id ∈ (world.locks account).nftLocked,
      id ∈ (after.locks account).nftLocked ∨ world.Unlocks event account id := by
  rcases effect.locks_cases escrowed with
    same | ⟨contract, caller, name, lock, id, token, locks, called, here,
      owned, adjusted, assets, changed, elsewhere⟩
  · refine ⟨held.keep same (effect.stays escrowed held), ?_⟩
    rw [same]
    exact fun account id listed => .inl listed
  · refine ⟨⟨fun account => ?_, fun account number listed => ?_, ?_⟩,
      fun account number listed => ?_⟩
    · by_cases same : account = token.nhAssetOwner
      · subst same
        rw [changed]
        exact adjustLocks_sound (held.sound _) adjusted
      · rw [elsewhere account same]
        exact held.sound account
    · rw [assets]
      by_cases same : account = token.nhAssetOwner
      · subst same
        rw [changed] at listed
        rcases mem_adjustLocks adjusted listed with rfl | before
        · exact ⟨token, here, rfl⟩
        · exact held.owned _ number before
      · rw [elsewhere account same] at listed
        exact held.owned account number listed
    · rw [elsewhere nullAccount fun null => other (null ▸ owned)]
      exact held.null
    · by_cases same : account = token.nhAssetOwner
      · subst same
        rw [changed]
        exact adjusted_locks called adjusted listed
      · rw [elsewhere account same]
        exact .inl listed

theorem run_locks (escrowed : world.Escrowed) (held : world.LocksHeld)
    (others : ∀ event ∈ events, event.behalf ≠ some nullAccount)
    (reached : FallibleRun.run perform world events = .ok ending) :
    ending.Escrowed ∧ ending.LocksHeld := by
  induction events generalizing world with
  | nil =>
    cases reached
    exact ⟨escrowed, held⟩
  | cons event rest induction =>
    obtain ⟨_, performed, later⟩ := bind_eq_ok.mp reached
    have other := others event List.mem_cons_self
    have effect := perform_effect performed
    exact induction (effect.escrow escrowed other).1 (effect.locksHeld escrowed held other).1
      (fun event member => others event (List.mem_cons_of_mem _ member)) later

/-- In every state that steps on behalf of other accounts than the null account
lead to, what an account has locked is listed once, once with a contract, and
owned by the account.  A step leaves a locked asset with its owner and out of
the orders, and it leaves the lock unless the contract that has locked the
asset unlocks it. -/
theorem nft_locks_hold (balances : Balances) (headBlockTime : Nat) (events : List NftEvent)
    (world : NftWorld) (others : ∀ event ∈ events, event.behalf ≠ some nullAccount)
    (reached : FallibleRun.run perform (start balances headBlockTime) events = .ok world) :
    (∀ account, (world.locks account).nftLocked.Nodup ∧
      (world.locks account).contractNftLockDetails.members.Perm (world.locks account).nftLocked ∧
      ∀ id ∈ (world.locks account).nftLocked, ∃ token,
        world.assets.get id = some token ∧ token.nhAssetOwner = account) ∧
    ∀ event next, event.behalf ≠ some nullAccount → world.perform event = .ok next →
      ∀ account, ∀ id ∈ (world.locks account).nftLocked,
        (∃ token, next.assets.get id = some token ∧ token.nhAssetOwner = account) ∧
        (∀ number order, next.orders.get number = some order → order.nhAssetId ≠ id) ∧
        (id ∈ (next.locks account).nftLocked ∨ world.Unlocks event account id) := by
  obtain ⟨escrowed, held⟩ := run_locks (start_escrowed balances headBlockTime)
    ⟨fun _ => ⟨List.nodup_nil, .nil⟩, nofun, rfl⟩ others reached
  refine ⟨fun account => ⟨(held.sound account).nodup,
    (held.sound account).details, held.owned account⟩, ?_⟩
  intro event next other performed account id listed
  have effect := perform_effect performed
  obtain ⟨token, there, owner⟩ := effect.stays escrowed held account id listed
  refine ⟨⟨token, there, owner⟩, fun number order live => ?_,
    (effect.locksHeld escrowed held other).2 account id listed⟩
  rintro rfl
  obtain ⟨_, here, -, null, -⟩ :=
    ((effect.escrow escrowed other).1.kept number order live).exists
  cases here.symm.trans there
  have empty := held.null
  rw [← null, owner] at empty
  rw [empty] at listed
  cases listed

/-- Contract 1 locks an asset of its owner, account 11. -/
def locking : List NftEvent :=
  [⟨openTerms, .createNhAsset 5 11 "COCOS" "view" "sword"⟩,
    ⟨openTerms, .call 1 8 (.adjustLockNftAsset (.id 0) true)⟩]

theorem nft_locks_hold_locking :
    ∃ world, FallibleRun.run perform (start richBuyer 10) locking = .ok world ∧
      ∃ token, world.assets.get 0 = some token ∧ token.nhAssetOwner = 11 := by
  refine ⟨_, rfl, ?_⟩
  exact ((nft_locks_hold richBuyer 10 locking _ (by decide +kernel) rfl).1
    11).2.2 0 (by decide +kernel)

theorem run_keeps_owner (escrowed : world.Escrowed) (foreign : account ≠ nullAccount)
    (others : ∀ event ∈ events, event.behalf ≠ some nullAccount ∧ event.behalf ≠ some account)
    (reached : FallibleRun.run perform world events = .ok ending)
    (owned : (world.assets.get id).map (·.nhAssetOwner) = some account) :
    (ending.assets.get id).map (·.nhAssetOwner) = some account := by
  induction events generalizing world with
  | nil =>
    cases reached
    exact owned
  | cons event rest induction =>
    obtain ⟨_, performed, later⟩ := bind_eq_ok.mp reached
    obtain ⟨⟨other, absent⟩, rest⟩ := List.forall_mem_cons.mp others
    obtain ⟨token, there, rfl⟩ := Option.map_eq_some_iff.mp owned
    have effect := perform_effect performed
    refine induction (effect.escrow escrowed other).1 rest later
      (effect.owner_kept escrowed there ?_ fun disposable => absent disposable.owned)
    intro hash holds
    obtain ⟨_, here, -, null, -⟩ := holds.exists
    cases here.symm.trans there
    exact foreign null

/-- In whatever state, an asset stays with its owner as long as no step is taken
on behalf of the owner, whoever else has rights in it. -/
theorem owner_keeps_asset (balances : Balances) (headBlockTime : Nat)
    (events later : List NftEvent) (world ending : NftWorld) (account : AccountId) (id : Nat)
    (others : ∀ event ∈ events, event.behalf ≠ some nullAccount)
    (reached : FallibleRun.run perform (start balances headBlockTime) events = .ok world)
    (owned : (world.assets.get id).map (·.nhAssetOwner) = some account)
    (foreign : account ≠ nullAccount)
    (absent : ∀ event ∈ later, event.behalf ≠ some nullAccount ∧ event.behalf ≠ some account)
    (continued : FallibleRun.run perform world later = .ok ending) :
    (ending.assets.get id).map (·.nhAssetOwner) = some account :=
  run_keeps_owner (run_escrow (start_escrowed balances headBlockTime) others reached).1
    foreign absent continued owned

/-- Account 5 makes another asset. -/
theorem owner_keeps_asset_made : ∃ world ending,
    FallibleRun.run perform (start richBuyer 10) locking = .ok world ∧
    FallibleRun.run perform world (locking.take 1) = .ok ending ∧
    (ending.assets.get 0).map (·.nhAssetOwner) = some 11 :=
  ⟨_, _, rfl, rfl, owner_keeps_asset richBuyer 10 locking (locking.take 1) _ _ 11 0
    (by decide +kernel) rfl rfl (by decide) (by decide +kernel) rfl⟩

end NftWorld

end CocosChain.Chain

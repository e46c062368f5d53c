import CocosChain.Chain.NftEffects

/-!
# Assets in escrow

As long as an order is there, its asset belongs to the null account with all
rights, so that nobody else can touch it.  Hence the asset is found by the hash
of the order when the order is closed, and it is handed over once.
-/

namespace CocosChain.Chain

namespace NhAsset

/-- The hash of an asset with those who have rights in it. -/
def rights (token : NhAsset) : NhHash × AccountId × AccountId × AccountId :=
  (token.nhHash, token.nhAssetOwner, token.nhAssetActive, token.dealership)

end NhAsset

namespace NftWorld

variable {world after : NftWorld} {id : Nat}

/-- All rights in the asset under the number are the account's. -/
def Holds (world : NftWorld) (account : AccountId) (id : Nat) (hash : NhHash) : Prop :=
  (world.assets.get id).map NhAsset.rights = some (hash, account, account, account)

structure Escrowed (world : NftWorld) : Prop where
  numbered : world.assets.Forall fun id token => token.nhHash.word = id
  kept : world.orders.Forall fun _ order =>
    world.Holds nullAccount order.nhAssetId order.nhHash
  single : ∀ {first second : Nat} {left right : NhAssetOrder},
    world.orders.get first = some left →
    world.orders.get second = some right →
    left.nhAssetId = right.nhAssetId → first = second

variable {hash : NhHash}

theorem Holds.exists (holds : world.Holds account id hash) :
    ∃ token, world.assets.get id = some token ∧ token.nhHash = hash ∧
      token.nhAssetOwner = account ∧ token.nhAssetActive = account ∧
      token.dealership = account := by
  obtain ⟨token, held, rights⟩ := Option.map_eq_some_iff.mp holds
  simp only [NhAsset.rights, Prod.mk.injEq] at rights
  exact ⟨token, held, rights⟩

theorem findByHash_of_holds (numbered : world.assets.Forall fun id token => token.nhHash.word = id)
    (holds : world.Holds account id hash) : world.findByHash hash = some id := by
  obtain ⟨token, held, rfl, -⟩ := holds.exists
  cases located : world.assets.rows.find? fun row =>
      row.2.nhHash == token.nhHash with
  | none =>
    have missing := List.find?_eq_none.mp located (id, token) (Table.mem_rows.mpr held)
    exact absurd (beq_self_eq_true token.nhHash) missing
  | some row =>
    obtain ⟨number, found⟩ := row
    have there : world.assets.get number = some found :=
      Table.mem_rows.mp (List.mem_of_find?_eq_some located)
    have equal := List.find?_some located
    have same : found.nhHash = token.nhHash := beq_iff_eq.mp equal
    have number_eq : number = id := by
      rw [← numbered number found there, ← numbered id token held, same]
    rw [findByHash, located, number_eq]
    rfl

theorem Escrowed.located (escrowed : world.Escrowed) (live : world.orders.get id = some order) :
    world.findByHash order.nhHash = some order.nhAssetId :=
  findByHash_of_holds escrowed.numbered (escrowed.kept id order live)

theorem holds_give (holds : world.Holds account id hash) :
    (world.modifyAsset id (.give receiver)).Holds receiver id hash := by
  obtain ⟨_, held, rfl, -⟩ := holds.exists
  simp [Holds, modifyAsset, Table.get_modify, held, NhAsset.rights, NhAsset.give]

theorem holds_modify_of_ne (different : id ≠ other) :
    (world.modifyAsset other change).Holds account id hash ↔ world.Holds account id hash := by
  simp [Holds, modifyAsset, Table.get_modify, different]

theorem rights_modify (keeps : ∀ token, (change token).rights = token.rights) :
    ((world.modifyAsset other change).assets.get id).map NhAsset.rights =
      (world.assets.get id).map NhAsset.rights := by
  rw [modifyAsset, Table.get_modify]
  split
  · rename_i same
    subst same
    cases world.assets.get id with
    | none => rfl
    | some token => exact congrArg some (keeps token)
  · rfl

theorem rights_relink : ((world.relink parent child down up).assets.get id).map NhAsset.rights =
      (world.assets.get id).map NhAsset.rights := by
  have above : ∀ token : NhAsset, (token.mapParent up).rights = token.rights := fun _ => rfl
  have below : ∀ token : NhAsset, (token.mapChild down).rights = token.rights := fun _ => rfl
  exact (rights_modify above).trans (rights_modify below)

theorem relateTokens_eq_ok
    (performed : world.relateTokens contract parent child token = .ok after) :
    ∃ down up, after = world.relink parent child down up := by
  unfold relateTokens at performed
  split at performed
  · simp only [bind_eq_ok, pure_eq_ok] at performed
    obtain ⟨_, _, rfl⟩ := performed
    exact ⟨_, _, rfl⟩
  · cases performed
    exact ⟨_, _, rfl⟩

theorem unrelateTokens_eq_ok
    (performed : world.unrelateTokens contract parent child token childToken = .ok after) :
    ∃ down up, after = world.relink parent child down up := by
  simp only [unrelateTokens, bind_eq_ok, pure_eq_ok] at performed
  obtain ⟨_, _, _, _, _, _, rfl⟩ := performed
  exact ⟨_, _, rfl⟩

namespace Escrowed

variable (escrowed : world.Escrowed)
include escrowed

theorem keep (orders : after.orders = world.orders)
    (numbered : after.assets.Forall fun id token => token.nhHash.word = id)
    (left : ∀ id hash, world.Holds nullAccount id hash → after.Holds nullAccount id hash) :
    after.Escrowed where
  numbered := numbered
  kept := by
    rw [orders]
    intro id order live
    exact left _ _ (escrowed.kept id order live)
  single := by
    rw [orders]
    exact escrowed.single

theorem minted (word : token.nhHash.word = world.assets.next) :
    Escrowed { world with assets := world.assets.create token } := by
  refine escrowed.keep rfl (escrowed.numbered.create word) ?_
  intro id hash holds
  obtain ⟨_, held, -⟩ := holds.exists
  have earlier : id ≠ world.assets.next := Nat.ne_of_lt (Table.lt_next held)
  simpa [Holds, Table.get_create, earlier] using holds

theorem deleted (held : world.assets.get id = some token)
    (foreign : token.nhAssetOwner ≠ nullAccount) :
    Escrowed { world with assets := world.assets.remove id } := by
  refine escrowed.keep rfl escrowed.numbered.remove ?_
  intro number hash holds
  have different : number ≠ id := by
    rintro rfl
    obtain ⟨_, here, -, owner, -⟩ := holds.exists
    cases held.symm.trans here
    exact foreign owner
  simpa [Holds, Table.get_remove, different] using holds

theorem changed {account : Option AccountId} (held : world.assets.get id = some token)
    (entitled : world.Entitled account id token (change token))
    (other : account ≠ some nullAccount) : (world.modifyAsset id change).Escrowed := by
  refine escrowed.keep rfl (escrowed.numbered.modify fun found here => ?_) ?_
  · cases held.symm.trans here
    rw [entitled.hash]
    exact escrowed.numbered id token held
  · intro number hash holds
    have different : number ≠ id := by
      rintro rfl
      obtain ⟨_, here, -, owner, active, dealership⟩ := holds.exists
      cases held.symm.trans here
      rcases entitled.right with right | right | right
      · exact other (owner ▸ right)
      · exact other (active ▸ right)
      · exact other (dealership ▸ right)
    exact (holds_modify_of_ne different).mpr holds

theorem relinked : (world.relink parent child down up).Escrowed := by
  refine escrowed.keep rfl ?_ fun id hash holds => rights_relink.trans holds
  intro id changed held
  have same : (world.assets.get id).map NhAsset.rights = some changed.rights := by
    rw [← rights_relink, held]
    rfl
  obtain ⟨token, before, rights⟩ := Option.map_eq_some_iff.mp same
  have hash : token.nhHash = changed.nhHash := congrArg Prod.fst rights
  rw [← hash]
  exact escrowed.numbered id token before

theorem offered (held : world.assets.get operation.nhAsset = some token)
    (foreign : token.nhAssetOwner ≠ nullAccount) : (world.offer operation token).Escrowed := by
  have fresh : ∀ id hash, world.Holds nullAccount id hash → id ≠ operation.nhAsset := by
    rintro id _ holds rfl
    obtain ⟨found, here, -, owner, -⟩ := holds.exists
    cases held.symm.trans here
    exact foreign owner
  constructor
  · exact escrowed.numbered.modify fun found here =>
      escrowed.numbered _ found here
  · have others : world.orders.Forall fun _ order =>
        (world.offer operation token).Holds nullAccount order.nhAssetId order.nhHash := by
      intro id order live
      have holds := escrowed.kept id order live
      exact (holds_modify_of_ne (fresh _ _ holds)).mpr holds
    apply others.create
    simp [Holds, offer, Table.get_modify, held, NhAsset.rights, NhAsset.give]
  · intro first second left right here there same
    rw [offer, Table.get_create] at here there
    split at here
    · split at there
      · omega
      · cases here
        exact absurd same.symm (fresh _ _ (escrowed.kept _ _ there))
    · split at there
      · cases there
        exact absurd same (fresh _ _ (escrowed.kept _ _ here))
      · exact escrowed.single here there same

theorem closed (live : world.orders.get id = some order) (receiver : AccountId) :
    ((world.modifyAsset order.nhAssetId (.give receiver)).removeOrder id).Escrowed := by
  constructor
  · exact escrowed.numbered.modify fun found here =>
      escrowed.numbered _ found here
  · intro other found there
    simp only [removeOrder, modifyAsset, Table.get_remove] at there
    split at there
    · cases there
    · rename_i different
      have elsewhere : found.nhAssetId ≠ order.nhAssetId :=
        fun same => different (escrowed.single there live same)
      exact (holds_modify_of_ne elsewhere).mpr (escrowed.kept other found there)
  · intro first second left right here there
    simp only [removeOrder, modifyAsset, Table.get_remove] at here there
    split at here
    · cases here
    · split at there
      · cases there
      · exact escrowed.single here there

end Escrowed

/-- Giving the assets of some orders back closes these and leaves the others,
and it never misses an asset. -/
theorem revokeAll_spec (escrowed : world.Escrowed)
    (live : ∀ row ∈ rows, world.orders.get row.1 = some row.2)
    (distinct : rows.Pairwise fun left right => left.1 ≠ right.1) :
    ∃ after, world.revokeAll rows = .ok after ∧ after.Escrowed ∧
      after.orders.next = world.orders.next ∧
      (∀ row ∈ rows, after.orders.get row.1 = none ∧
        after.Holds row.2.seller row.2.nhAssetId row.2.nhHash) ∧
      (∀ id, (∀ row ∈ rows, id ≠ row.1) → after.orders.get id = world.orders.get id) ∧
      (∀ id, (∀ row ∈ rows, id ≠ row.2.nhAssetId) → after.assets.get id = world.assets.get id) ∧
      after.locks = world.locks := by
  induction rows generalizing world with
  | nil =>
    exact ⟨world, rfl, escrowed, rfl, by simp, fun _ _ => rfl, fun _ _ => rfl, rfl⟩
  | cons row rows induction =>
    obtain ⟨id, order⟩ := row
    obtain ⟨apart, later⟩ := List.pairwise_cons.mp distinct
    have here : world.orders.get id = some order := live (id, order) List.mem_cons_self
    let next := (world.modifyAsset order.nhAssetId (.give order.seller)).removeOrder id
    have revoked : world.revoke id order = .ok next := by
      rw [revoke, release, escrowed.located here]
      rfl
    have there : ∀ row ∈ rows, next.orders.get row.1 = some row.2 := by
      intro row member
      have other : row.1 ≠ id := (apart row member).symm
      simpa [next, removeOrder, modifyAsset, Table.get_remove, other] using
        live row (List.mem_cons_of_mem _ member)
    have elsewhere : ∀ row ∈ rows, order.nhAssetId ≠ row.2.nhAssetId := by
      intro row member same
      exact apart row member (escrowed.single here (live row (List.mem_cons_of_mem _ member)) same)
    obtain ⟨after, performed, escrowedAfter, count, closed, kept, left,
      locks⟩ := induction (escrowed.closed here order.seller) there later
    refine ⟨after, ?_, escrowedAfter, count, ?_, ?_, ?_, locks⟩
    · rw [revokeAll, revoked]
      exact performed
    · intro row member
      rcases List.mem_cons.mp member with rfl | inside
      · constructor
        · rw [kept id fun row member => apart row member]
          simp [removeOrder, Table.get_remove]
        · unfold Holds
          rw [left _ elsewhere]
          exact holds_give (escrowed.kept _ _ here)
      · exact closed row inside
    · intro number absent
      have other : number ≠ id := absent (id, order) List.mem_cons_self
      rw [kept number fun row member =>
        absent row (List.mem_cons_of_mem _ member)]
      simp [removeOrder, modifyAsset, Table.get_remove, other]
    · intro number absent
      have other : number ≠ order.nhAssetId := absent (id, order) List.mem_cons_self
      rw [left number fun row member =>
        absent row (List.mem_cons_of_mem _ member)]
      simp [removeOrder, modifyAsset, Table.get_modify, other]

theorem mem_expiredOrders : row ∈ world.expiredOrders ↔ world.orders.get row.1 = some row.2 ∧
      row.2.expiration ≤ world.headBlockTime := by
  obtain ⟨_, _⟩ := row
  simp [expiredOrders, List.mem_insertionSort, Table.mem_rows]

theorem expiredOrders_distinct :
    world.expiredOrders.Pairwise fun left right => left.1 ≠ right.1 := by
  have rows : (world.orders.rows.filter fun row =>
      row.2.expiration ≤ world.headBlockTime).Pairwise fun left right => left.1 ≠ right.1 :=
    (Table.rows_sorted.imp Nat.ne_of_lt).filter _
  exact (List.perm_insertionSort _ _).symm.pairwise rows Ne.symm

/-- The order has gone, and its asset is with the seller, or with the account
that fills the order. -/
def HandsOver (event : NftEvent) (id : Nat) (order : NhAssetOrder) (after : NftWorld) : Prop :=
  after.orders.get id = none ∧ ∃ receiver, after.Holds receiver order.nhAssetId order.nhHash ∧
    (receiver = order.seller ∨ ∃ operation,
      event.step = .fillNhAssetOrder operation ∧ operation.order = id ∧
        receiver = operation.feePayingAccount)

/-- What a step does to the orders: it makes one, or it leaves each of them or
hands its asset over. -/
def OrdersStep (world : NftWorld) (event : NftEvent) (after : NftWorld) : Prop :=
  (∃ order, after.orders = world.orders.create order) ∨
  (after.orders.next = world.orders.next ∧
    (∀ id, world.orders.get id = none → after.orders.get id = none) ∧
    ∀ id order, world.orders.get id = some order →
      after.orders.get id = some order ∨ HandsOver event id order after)

theorem ordersStep_same (same : after.orders = world.orders) : OrdersStep world event after := by
  refine .inr ⟨by rw [same], fun id absent => same ▸ absent, ?_⟩
  intro id order live
  exact .inl (same ▸ live)

theorem closed_ordersStep (escrowed : world.Escrowed) (live : world.orders.get id = some order)
    (goes : receiver = order.seller ∨ ∃ operation, event.step =
      .fillNhAssetOrder operation ∧ operation.order = id ∧ receiver =
      operation.feePayingAccount) :
    OrdersStep world event ((world.modifyAsset order.nhAssetId
      (.give receiver)).removeOrder id) := by
  refine .inr ⟨rfl, fun number absent => ?_, fun number other there => ?_⟩
  · simp only [removeOrder, modifyAsset, Table.get_remove]
    split
    · rfl
    · exact absent
  · by_cases same : number = id
    · subst same
      cases live.symm.trans there
      refine .inr ⟨by simp [removeOrder, Table.get_remove], receiver, ?_, goes⟩
      exact holds_give (escrowed.kept number order live)
    · refine .inl ?_
      simpa [removeOrder, modifyAsset, Table.get_remove, same] using there

theorem cleared_ordersStep (escrowed : world.Escrowed)
    (performed : world.clearExpiredNhAssetOrders = .ok after) :
    after.Escrowed ∧ OrdersStep world event after := by
  obtain ⟨_, accepted, escrowedAfter, count, closed, kept, -, -⟩ :=
    revokeAll_spec escrowed (fun row member => (mem_expiredOrders.mp member).1)
      expiredOrders_distinct
  cases accepted.symm.trans performed
  refine ⟨escrowedAfter, .inr ⟨count, fun id absent => ?_, fun id order live => ?_⟩⟩
  · rw [kept id, absent]
    rintro row member rfl
    cases absent.symm.trans (mem_expiredOrders.mp member).1
  · by_cases late : order.expiration ≤ world.headBlockTime
    · obtain ⟨gone, holds⟩ := closed (id, order) (mem_expiredOrders.mpr ⟨live, late⟩)
      exact .inr ⟨gone, order.seller, holds, .inl rfl⟩
    · refine .inl ?_
      rw [kept id, live]
      rintro _ member rfl
      obtain ⟨there, expired⟩ := mem_expiredOrders.mp member
      cases live.symm.trans there
      exact late expired

/-- Every step on behalf of another account than the null account keeps what
is in escrow, and hands over what it releases. -/
theorem Effect.escrow (effect : Effect world event after) (escrowed : world.Escrowed)
    (other : event.behalf ≠ some nullAccount) : after.Escrowed ∧ OrdersStep world event after := by
  cases effect with
  | minted token word orphan childless =>
    exact ⟨escrowed.minted word, ordersStep_same rfl⟩
  | deleted called held disposable =>
    refine ⟨escrowed.deleted held fun null => ?_, ordersStep_same rfl⟩
    exact other (null ▸ disposable.owned)
  | changed change held entitled =>
    exact ⟨escrowed.changed held entitled other, ordersStep_same rfl⟩
  | related called heldParent heldChild performed =>
    obtain ⟨down, up, rfl⟩ := relateTokens_eq_ok performed
    exact ⟨escrowed.relinked, ordersStep_same rfl⟩
  | unrelated heldParent heldChild performed =>
    obtain ⟨_, _, rfl⟩ := unrelateTokens_eq_ok performed
    exact ⟨escrowed.relinked, ordersStep_same rfl⟩
  | locked called named held owned adjusted =>
    exact ⟨escrowed.keep rfl escrowed.numbered fun _ _ holds => holds, ordersStep_same rfl⟩
  | offered balances held disposable seller =>
    have offered := escrowed.offered held fun null =>
      other (null ▸ disposable.owned)
    exact ⟨offered.keep rfl offered.numbered fun _ _ holds => holds, .inl ⟨_, rfl⟩⟩
  | @closed id token order receiver balances live located goes =>
    obtain rfl := Option.some.inj ((escrowed.located live).symm.trans located)
    have closed := escrowed.closed live receiver
    exact ⟨closed.keep rfl closed.numbered fun _ _ holds => holds,
      closed_ordersStep escrowed live goes⟩
  | cleared headBlockTime performed =>
    have later : Escrowed { world with headBlockTime := headBlockTime } :=
      escrowed.keep rfl escrowed.numbered fun _ _ holds => holds
    obtain ⟨escrowedAfter, step⟩ := cleared_ordersStep later performed
    exact ⟨escrowedAfter, step⟩
  | adjusted balances =>
    exact ⟨escrowed.keep rfl escrowed.numbered fun _ _ holds => holds, ordersStep_same rfl⟩

/-- How often an order is closed in a run. -/
def handOvers (id : Nat) : NftWorld → List NftEvent → Nat
  | _, [] => 0
  | world, event :: rest =>
      match world.perform event with
      | .error _ => 0
      | .ok next =>
          ((world.orders.get id).isSome && (next.orders.get id).isNone).toNat +
            handOvers id next rest

theorem OrdersStep.balance (step : OrdersStep world event after) (id : Nat) :
    ((world.orders.get id).isSome && (after.orders.get id).isNone).toNat +
        (after.orders.get id).isSome.toNat +
        (decide (id < world.orders.next)).toNat =
      (world.orders.get id).isSome.toNat + (decide (id < after.orders.next)).toNat := by
  rcases step with ⟨order, made⟩ | ⟨count, absent, present⟩
  · rw [made, Table.get_create, Table.next_create]
    by_cases new : id = world.orders.next
    · subst new
      simp
    · have bound : id < world.orders.next + 1 ↔ id < world.orders.next := by
        omega
      rw [if_neg new]
      cases world.orders.get id with
      | none => simp [bound]
      | some order => simp [bound]
  · rw [count]
    cases live : world.orders.get id with
    | none => simp [absent id live]
    | some order =>
      rcases present id order live with still | ⟨gone, -⟩
      · simp [still]
      · simp [gone]

/-- What is in escrow is kept along a run, and an order is closed as often as
it has disappeared. -/
theorem run_escrow (escrowed : world.Escrowed)
    (others : ∀ event ∈ events, event.behalf ≠ some nullAccount)
    (reached : FallibleRun.run perform world events = .ok ending) :
    ending.Escrowed ∧ ∀ id, handOvers id world events + (ending.orders.get id).isSome.toNat +
          (decide (id < world.orders.next)).toNat =
        (world.orders.get id).isSome.toNat + (decide (id < ending.orders.next)).toNat := by
  induction events generalizing world with
  | nil =>
    cases reached
    exact ⟨escrowed, fun id => by simp [handOvers]⟩
  | cons event rest induction =>
    obtain ⟨_, performed, later⟩ := bind_eq_ok.mp reached
    obtain ⟨escrowedNext, step⟩ := (perform_effect performed).escrow escrowed
      (others event List.mem_cons_self)
    obtain ⟨escrowedEnding, counted⟩ := induction escrowedNext
      (fun event member => others event (List.mem_cons_of_mem _ member)) later
    refine ⟨escrowedEnding, fun id => ?_⟩
    have now := step.balance id
    have then_ := counted id
    rw [handOvers, performed]
    dsimp only
    omega

theorem start_escrowed (balances : Balances) (headBlockTime : Nat) :
    (start balances headBlockTime).Escrowed where
  numbered _ _ held := by cases held
  kept _ _ live := by cases live
  single live := by cases live

section

variable (escrowed : world.Escrowed)
include escrowed

theorem Escrowed.release_finds (live : world.orders.get id = some order) (receiver : AccountId) :
    world.release order.nhHash receiver =
      .ok (world.modifyAsset order.nhAssetId (.give receiver)) := by
  rw [release, escrowed.located live]
  rfl

theorem Escrowed.cancel_finds (feePayingAccount : AccountId) :
    world.cancelNhAssetOrder id feePayingAccount ≠ .error .undefined := by
  intro missed
  simp only [cancelNhAssetOrder, bind_eq_error, found_eq_error, found_eq_ok,
    ensure_eq_error, reduceCtorEq, and_false, false_or] at missed
  obtain ⟨_, live, _, _, missing⟩ := missed
  rw [revoke, escrowed.release_finds live] at missing
  cases missing

theorem Escrowed.fill_finds (terms : NftTerms) (operation : FillNhAssetOrder) :
    world.fillNhAssetOrder terms operation ≠ .error .undefined := by
  intro missed
  simp only [fillNhAssetOrder, assertPayable, bind_eq_error, found_eq_error,
    found_eq_ok, ensure_eq_error, reduceCtorEq, and_false, false_or, exists_false] at missed
  obtain ⟨_, live, _, _, _, _, missing⟩ := missed
  rw [escrowed.release_finds live] at missing
  simp only [pay, bind_eq_error, found_eq_error, reduceCtorEq, and_false, false_or] at missing
  obtain ⟨_, _, ⟨_, _, _, _, refused⟩ | ⟨_, _, refused⟩⟩ := missing
  · cases refused
  · cases refused

theorem Escrowed.clear_finds : ∃ after, world.clearExpiredNhAssetOrders = .ok after := by
  obtain ⟨after, performed, -⟩ := revokeAll_spec escrowed
    (fun row member => (mem_expiredOrders.mp member).1) expiredOrders_distinct
  exact ⟨after, performed⟩

end

/-- In every state that steps on behalf of other accounts than the null account
lead to: an order's asset is the null account's with all rights and has the
order's hash, no other order has it, and it is found where an order is closed.
An order that has been made is there or has been closed once, and the step that
closes it hands the asset to the seller or to a buyer. -/
theorem nft_escrow (balances : Balances) (headBlockTime : Nat)
    (events : List NftEvent) (world : NftWorld)
    (others : ∀ event ∈ events, event.behalf ≠ some nullAccount)
    (reached : FallibleRun.run perform (start balances headBlockTime) events = .ok world) :
    (∀ id order, world.orders.get id = some order →
      ∃ token, world.assets.get order.nhAssetId = some token ∧
        token.nhHash = order.nhHash ∧ token.nhAssetOwner = nullAccount ∧
        token.nhAssetActive = nullAccount ∧ token.dealership = nullAccount) ∧
    (∀ first second left right, world.orders.get first = some left →
      world.orders.get second = some right →
      left.nhAssetId = right.nhAssetId → first = second) ∧
    (∀ id < world.orders.next, handOvers id (start balances headBlockTime) events =
        if (world.orders.get id).isSome then 0 else 1) ∧
    (∀ event next, event.behalf ≠ some nullAccount → world.perform event = .ok next →
      ∀ id order, world.orders.get id = some order →
        next.orders.get id = some order ∨ HandsOver event id order next) ∧
    (∀ id feePayingAccount, world.cancelNhAssetOrder id feePayingAccount ≠ .error .undefined) ∧
    (∀ terms operation, world.fillNhAssetOrder terms operation ≠ .error .undefined) ∧
    ∀ headBlockTime, ∃ next, clearExpiredNhAssetOrders
      { world with headBlockTime := headBlockTime } = .ok next := by
  obtain ⟨escrowed, counted⟩ := run_escrow (start_escrowed balances headBlockTime) others reached
  refine ⟨fun id order live => (escrowed.kept id order live).exists,
    fun _ _ _ _ => escrowed.single, fun id issued => ?_, ?_,
    fun id account => escrowed.cancel_finds account, escrowed.fill_finds, fun time => ?_⟩
  · have total := counted id
    have fresh : (start balances headBlockTime).orders.get id = none := rfl
    have unmade : (start balances headBlockTime).orders.next = 0 := rfl
    rw [fresh, unmade, decide_eq_true issued] at total
    cases live : (world.orders.get id).isSome with
    | false =>
      rw [live] at total
      simpa using total
    | true =>
      rw [live] at total
      simpa using total
  · intro event next other performed id order live
    rcases ((perform_effect performed).escrow escrowed other).2 with
      ⟨made, created⟩ | ⟨-, -, present⟩
    · refine .inl ?_
      have earlier : id ≠ world.orders.next := Nat.ne_of_lt (Table.lt_next live)
      rw [created, Table.get_create, if_neg earlier, live]
    · exact present id order live
  · have later : Escrowed { world with headBlockTime := time } :=
      escrowed.keep rfl escrowed.numbered fun _ _ holds => holds
    exact later.clear_finds

/-- Account 5 is a creator; everybody may hold all assets. -/
def openTerms : NftTerms where
  accountExists _ := true
  issuer _ := 0
  isAuthorizedAsset _ _ := true
  isTransferRestricted _ := false
  isWhiteList _ := false
  nhAssetCreator account := if account = 5 then some ["view"] else none
  assetSymbol _ := true
  worldViewExists _ := true
  assetExists _ := true
  maximumNhAssetOrderExpiration := 100
  contractOwner contract := some (contract + 10)
  contractNamed _ := none
  contractSigned _ := true
  digest _ time := time

/-- Account 7 gets an asset and offers it for a hundred tokens. -/
def offering : List NftEvent :=
  [⟨openTerms, .createNhAsset 5 7 "COCOS" "view" "sword"⟩,
    ⟨openTerms, .createNhAssetOrder ⟨7, 6, ⟨0, 0⟩, 0, "", ⟨100, 0⟩, 50⟩⟩]

/-- Account 8 has enough to buy it. -/
def richBuyer : Balances := ⟨[((8, 0), 300)], fun _ _ => 0⟩

def purchase (seller : AccountId) : FillNhAssetOrder := ⟨0, 8, seller, 0, "100", 0, "COCOS"⟩

def sale : List NftEvent := offering ++ [⟨openTerms, .fillNhAssetOrder (purchase 7)⟩]

/-- The order of a sale is closed once. -/
theorem nft_escrow_sale : ∃ world, FallibleRun.run perform (start richBuyer 10) sale = .ok world ∧
      handOvers 0 (start richBuyer 10) sale = 1 := by
  refine ⟨_, rfl, ?_⟩
  exact (nft_escrow richBuyer 10 sale _ (by decide +kernel) rfl).2.2.1 0 (by decide +kernel)

/-- The order's seller gets the price from the buyer and nobody else, the buyer
owns the asset, and the order has gone. -/
def PaysSeller (world : NftWorld) (id : Nat) (order : NhAssetOrder)
    (buyer : AccountId) (after : NftWorld) : Prop :=
  (∀ account, after.balances.getBalance account order.price.assetId =
    world.balances.getBalance account order.price.assetId +
      (if account = order.seller then order.price.amount else 0) -
      (if account = buyer then order.price.amount else 0)) ∧
  (∃ token, after.assets.get order.nhAssetId = some token ∧ token.nhAssetOwner = buyer) ∧
  after.orders.get id = none

/-- Filling an order pays its seller exactly if the operation names the seller,
or if nothing is to be paid. -/
theorem fill_pays_seller_iff (balances : Balances) (headBlockTime : Nat) (events : List NftEvent)
    (world after : NftWorld) (terms : NftTerms) (operation : FillNhAssetOrder)
    (order : NhAssetOrder) (others : ∀ event ∈ events, event.behalf ≠ some nullAccount)
    (reached : FallibleRun.run perform (start balances headBlockTime) events = .ok world)
    (live : world.orders.get operation.order = some order)
    (filled : world.fillNhAssetOrder terms operation = .ok after) :
    PaysSeller world operation.order order operation.feePayingAccount after ↔
      operation.seller = order.seller ∨ order.price.amount = 0 := by
  obtain ⟨escrowed, -⟩ := run_escrow (start_escrowed balances headBlockTime) others reached
  obtain ⟨_, token, _, paid, held, located, first, second, rfl⟩ :=
    fillNhAssetOrder_eq_ok filled
  cases live.symm.trans held
  obtain rfl := Option.some.inj ((escrowed.located live).symm.trans located)
  have received : ∀ account, paid.getBalance account order.price.assetId =
      world.balances.getBalance account order.price.assetId -
        (if account = operation.feePayingAccount then order.price.amount
          else 0) +
        if account = operation.seller then order.price.amount else 0 := by
    intro account
    rw [Balances.getBalance_adjustBalance second, Balances.getBalance_adjustBalance first]
    simp only [and_true]
    split
    · split
      · omega
      · omega
    · split
      · omega
      · omega
  constructor
  · rintro ⟨pays, -⟩
    by_contra fails
    obtain ⟨misnamed, _⟩ := not_or.mp fails
    have seller := (received order.seller).symm.trans (pays order.seller)
    rw [if_neg (Ne.symm misnamed), if_pos rfl] at seller
    omega
  · intro condition
    refine ⟨fun account => ?_, ?_, ?_⟩
    · show paid.getBalance account order.price.assetId = _
      rw [received account]
      rcases condition with named | free
      · rw [named]
        omega
      · simp [free]
    · obtain ⟨token, there, -, owner, -⟩ :=
        (holds_give (escrowed.kept _ _ live)).exists
      exact ⟨token, there, owner⟩
    · simp [removeOrder, Table.get_remove]

/-- The order that account 7 has made. -/
def offered : NhAssetOrder := ⟨7, 6, 0, "view", "sword", ⟨0, 10⟩, ⟨100, 0⟩, "", 50⟩

theorem fill_pays_seller_named : ∃ world after,
      FallibleRun.run perform (start richBuyer 10) offering = .ok world ∧
      world.fillNhAssetOrder openTerms (purchase 7) = .ok after ∧
      PaysSeller world 0 offered 8 after := by
  refine ⟨_, _, rfl, rfl, ?_⟩
  exact (fill_pays_seller_iff richBuyer 10 offering _ _ openTerms (purchase 7)
    offered (by decide +kernel) rfl rfl rfl).mpr (.inl rfl)

/-- The buyer names themself and gets the asset for nothing. -/
theorem fill_pays_buyer : ∃ world after,
      FallibleRun.run perform (start richBuyer 10) offering = .ok world ∧
      world.orders.get 0 = some offered ∧
      world.fillNhAssetOrder openTerms (purchase 8) = .ok after ∧
      after.balances.getBalance 7 0 = 0 ∧ after.balances.getBalance 8 0 = 300 ∧
      (after.assets.get 0).map (·.nhAssetOwner) = some 8 := by
  refine ⟨_, _, rfl, rfl, rfl, ?_, ?_, rfl⟩
  · decide +kernel
  · decide +kernel

end NftWorld

end CocosChain.Chain

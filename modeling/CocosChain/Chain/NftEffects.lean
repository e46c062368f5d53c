import CocosChain.Chain.NonFungible

/-!
# What steps do to non-homogeneous assets

Every step that is accepted has one of a few effects.  Each comes with what has
been checked: that the account on whose behalf the step is taken has a right in
the asset, and that an asset which changes its owner or disappears belongs to
that account and is not locked.
-/

namespace CocosChain.Chain

namespace NftWorld

namespace NftEvent

/-- The account on whose behalf a step is taken. -/
def behalf (event : NftEvent) : Option AccountId :=
  match event.step with
  | .createNhAsset feePayingAccount _ _ _ _ => some feePayingAccount
  | .deleteNhAsset feePayingAccount _ => some feePayingAccount
  | .transferNhAsset sender _ _ => some sender
  | .createNhAssetOrder operation => some operation.seller
  | .cancelNhAssetOrder _ feePayingAccount => some feePayingAccount
  | .fillNhAssetOrder operation => some operation.feePayingAccount
  | .call contract caller call =>
      let owner := event.terms.contractOwner contract
      match call with
      | .createNftAsset _ _ _ _ => owner
      | .nhtDescribeChange _ _ _ => some caller
      | .transferNht byOwner _ _ => if byOwner then owner else some caller
      | .transferNhtActive byOwner _ _ =>
          if byOwner then owner else some caller
      | .transferNftOwnership byOwner _ _ =>
          if byOwner then owner else some caller
      | .transferNhtDealership byOwner _ _ =>
          if byOwner then owner else some caller
      | .setNhtLimitList _ _ _ => some caller
      | .relateNhAsset _ _ _ => some caller
      | .adjustLockNftAsset _ _ => owner
  | .endBlock _ => none
  | .adjustBalances _ => none

end NftEvent

/-- The asset belongs to an account and is not locked there. -/
structure Disposable (world : NftWorld) (account : Option AccountId) (id : Nat)
    (token : NhAsset) : Prop where
  owned : account = some token.nhAssetOwner
  unlocked : id ∉ (world.locks token.nhAssetOwner).nftLocked

/-- A change of the rights in an asset by an account that has one; it keeps
what is not a right. -/
structure Entitled (world : NftWorld) (account : Option AccountId) (id : Nat)
    (token changed : NhAsset) : Prop where
  right : account = some token.nhAssetOwner ∨
    account = some token.nhAssetActive ∨ account = some token.dealership
  hash : changed.nhHash = token.nhHash
  parent : changed.parent = token.parent
  child : changed.child = token.child
  owner : changed.nhAssetOwner = token.nhAssetOwner ∨ world.Disposable account id token

inductive Effect (world : NftWorld) (event : NftEvent) : NftWorld → Prop
  | minted (token : NhAsset) (word : token.nhHash.word = world.assets.next)
      (orphan : token.parent = ∅) (childless : token.child = ∅) :
      Effect world event { world with assets := world.assets.create token }
  | deleted {id : Nat} {token : NhAsset} {account : AccountId}
      (called : event.step = .deleteNhAsset account id)
      (held : world.assets.get id = some token)
      (disposable : world.Disposable event.behalf id token) :
      Effect world event { world with assets := world.assets.remove id }
  | changed {id : Nat} {token : NhAsset} (change : NhAsset → NhAsset)
      (held : world.assets.get id = some token)
      (entitled : world.Entitled event.behalf id token (change token)) :
      Effect world event (world.modifyAsset id change)
  | related {contract parent child : Nat} {parentToken childToken : NhAsset}
      {after : NftWorld} {caller : AccountId} {parentName childName : NftName}
      (called : event.step =
        .call contract caller (.relateNhAsset parentName childName true))
      (heldParent : world.assets.get parent = some parentToken)
      (heldChild : world.assets.get child = some childToken)
      (performed : world.relateTokens contract parent child parentToken =
        .ok after) : Effect world event after
  | unrelated {contract parent child : Nat} {parentToken childToken : NhAsset}
      {after : NftWorld}
      (heldParent : world.assets.get parent = some parentToken)
      (heldChild : world.assets.get child = some childToken)
      (performed : world.unrelateTokens contract parent child parentToken
        childToken = .ok after) : Effect world event after
  | locked {contract id : Nat} {caller : AccountId} {name : NftName}
      {token : NhAsset} {lock : Bool} {locks : NftLocks}
      (called : event.step =
        .call contract caller (.adjustLockNftAsset name lock))
      (named : world.getNhAsset name = .ok (id, token))
      (held : world.assets.get id = some token)
      (owned : event.behalf = some token.nhAssetOwner)
      (adjusted : adjustLocks (world.locks token.nhAssetOwner) contract id
        lock = .ok locks) :
      Effect world event { world with
        locks := Function.update world.locks token.nhAssetOwner locks }
  | offered {operation : CreateNhAssetOrder} {token : NhAsset}
      (balances : Balances)
      (held : world.assets.get operation.nhAsset = some token)
      (disposable : world.Disposable event.behalf operation.nhAsset token)
      (seller : operation.seller = token.nhAssetOwner) :
      Effect world event
        { world.offer operation token with balances := balances }
  | closed {id token : Nat} {order : NhAssetOrder} {receiver : AccountId}
      (balances : Balances) (held : world.orders.get id = some order)
      (located : world.findByHash order.nhHash = some token)
      (goes : receiver = order.seller ∨ ∃ operation,
        event.step = .fillNhAssetOrder operation ∧ operation.order = id ∧
          receiver = operation.feePayingAccount) :
      Effect world event
        { (world.modifyAsset token (.give receiver)).removeOrder id with
          balances := balances }
  | cleared {after : NftWorld} (headBlockTime : Nat)
      (performed : clearExpiredNhAssetOrders
        { world with headBlockTime := headBlockTime } = .ok after) :
      Effect world event after
  | adjusted (balances : Balances) :
      Effect world event { world with balances := balances }

variable {world after : NftWorld} {event : NftEvent}

variable {id : Nat}

theorem getNhAsset_held (named : world.getNhAsset name = .ok (id, token)) :
    world.assets.get id = some token := by
  cases name with
  | id number =>
    simp only [getNhAsset, bind_eq_ok, found_eq_ok, pure_eq_ok, Prod.mk.injEq] at named
    obtain ⟨_, held, rfl, rfl⟩ := named
    exact held
  | hash hash =>
    simp only [getNhAsset, bind_eq_ok, found_eq_ok, pure_eq_ok, Prod.mk.injEq] at named
    obtain ⟨_, _, _, held, rfl, rfl⟩ := named
    exact held

theorem disposable_of_unlocked (unlocked : world.assertAssetUnlocked account id token = .ok ()) :
    world.Disposable (some account) id token := by
  simp only [assertAssetUnlocked, bind_eq_ok, ensure_eq_ok] at unlocked
  obtain ⟨_, owned, free⟩ := unlocked
  obtain rfl := beq_iff_eq.mp owned
  exact ⟨rfl, by simpa using free⟩

theorem Disposable.give (disposable : world.Disposable account id token) (receiver : AccountId) :
    world.Entitled account id token (token.give receiver) :=
  ⟨.inl disposable.owned, rfl, rfl, rfl, .inr disposable⟩

theorem acting_eq_ok (acts : acting terms contract caller byOwner = .ok sender) :
    (if byOwner then terms.contractOwner contract else some caller) = some sender := by
  cases byOwner with
  | false => exact congrArg some (Except.ok.inj acts)
  | true => exact found_eq_ok.mp acts

theorem pay_eq_ok (paid : world.pay sender receiver amount = .ok after) : ∃ middle balances,
      world.balances.adjustBalance sender ⟨-amount.amount, amount.assetId⟩ = some middle ∧
      middle.adjustBalance receiver amount = some balances ∧
      after = { world with balances := balances } := by
  simp only [pay, bind_eq_ok, found_eq_ok, pure_eq_ok] at paid
  obtain ⟨middle, first, balances, second, rfl⟩ := paid
  exact ⟨middle, balances, first, second, rfl⟩

theorem release_eq_ok {hash : NhHash} (released : world.release hash receiver = .ok after) :
    ∃ token, world.findByHash hash = some token ∧
      after = world.modifyAsset token (.give receiver) := by
  simp only [release, bind_eq_ok, found_eq_ok, pure_eq_ok] at released
  obtain ⟨token, located, rfl⟩ := released
  exact ⟨token, located, rfl⟩

theorem revoke_eq_ok (revoked : world.revoke id order = .ok after) :
    ∃ token, world.findByHash order.nhHash = some token ∧
      after = (world.modifyAsset token (.give order.seller)).removeOrder
        id := by
  simp only [revoke, bind_eq_ok, pure_eq_ok] at revoked
  obtain ⟨_, accepted, rfl⟩ := revoked
  obtain ⟨token, located, rfl⟩ := release_eq_ok accepted
  exact ⟨token, located, rfl⟩

theorem createNhAsset_effect (performed : world.createNhAsset terms feePayingAccount owner assetId
      worldView baseDescribe = .ok after) : Effect world event after := by
  simp only [createNhAsset, bind_eq_ok, pure_eq_ok] at performed
  obtain ⟨_, _, _, _, _, _, _, _, _, _, rfl⟩ := performed
  exact .minted _ rfl rfl rfl

theorem deleteNhAsset_effect (called : event.step = .deleteNhAsset feePayingAccount nhAsset)
    (acts : event.behalf = some feePayingAccount)
    (performed : world.deleteNhAsset feePayingAccount nhAsset = .ok after) :
    Effect world event after := by
  simp only [deleteNhAsset, bind_eq_ok, found_eq_ok, pure_eq_ok] at performed
  obtain ⟨_, held, _, _, _, unlocked, rfl⟩ := performed
  exact .deleted called held (acts ▸ disposable_of_unlocked unlocked)

theorem transferNhAsset_effect (acts : event.behalf = some sender)
    (performed : world.transferNhAsset sender receiver nhAsset = .ok after) :
    Effect world event after := by
  simp only [transferNhAsset, bind_eq_ok, found_eq_ok, pure_eq_ok] at performed
  obtain ⟨_, _, _, held, _, _, _, unlocked, rfl⟩ := performed
  have disposable := disposable_of_unlocked unlocked
  exact .changed _ held (acts ▸ disposable.give receiver)

theorem createNhAssetOrder_effect (acts : event.behalf = some operation.seller)
    (performed : world.createNhAssetOrder terms operation = .ok after) :
    Effect world event after := by
  simp only [createNhAssetOrder, bind_eq_ok, found_eq_ok, ensure_eq_ok] at performed
  obtain ⟨_, _, _, held, _, owned, _, _, _, _, _, _, _, _, _, unlocked, _, _, paid⟩ := performed
  obtain ⟨_, balances, _, _, rfl⟩ := pay_eq_ok paid
  exact .offered balances held (acts ▸ disposable_of_unlocked unlocked) (beq_iff_eq.mp owned).symm

theorem cancelNhAssetOrder_effect
    (performed : world.cancelNhAssetOrder order feePayingAccount = .ok after) :
    Effect world event after := by
  simp only [cancelNhAssetOrder, bind_eq_ok, found_eq_ok] at performed
  obtain ⟨_, held, _, _, revoked⟩ := performed
  obtain ⟨_, located, rfl⟩ := revoke_eq_ok revoked
  exact .closed world.balances held located (.inl rfl)

theorem fillNhAssetOrder_eq_ok (performed : world.fillNhAssetOrder terms operation = .ok after) :
    ∃ order token middle balances, world.orders.get operation.order = some order ∧
      world.findByHash order.nhHash = some token ∧
      world.balances.adjustBalance operation.feePayingAccount
        ⟨-order.price.amount, order.price.assetId⟩ = some middle ∧
      middle.adjustBalance operation.seller order.price = some balances ∧
      after = { (world.modifyAsset token
          (.give operation.feePayingAccount)).removeOrder operation.order with
        balances := balances } := by
  simp only [fillNhAssetOrder, bind_eq_ok, found_eq_ok, pure_eq_ok] at performed
  obtain ⟨order, held, _, _, _, _, _, accepted, _, payment, rfl⟩ := performed
  obtain ⟨token, located, rfl⟩ := release_eq_ok accepted
  obtain ⟨middle, balances, first, second, rfl⟩ := pay_eq_ok payment
  exact ⟨order, token, middle, balances, held, located, first, second, rfl⟩

section Calls

theorem createNftAsset_effect (performed : world.createNftAsset terms contract owner worldView
      baseDescribe dealershipToContract = .ok after) : Effect world event after := by
  simp only [createNftAsset, bind_eq_ok, pure_eq_ok] at performed
  obtain ⟨_, _, _, _, _, _, _, _, _, _, rfl⟩ := performed
  exact .minted _ rfl rfl rfl

theorem describe_keeps (right : account = some token.nhAssetOwner ∨ account = some
      token.nhAssetActive ∨ account = some token.dealership) :
    world.Entitled account id token (describe contract key value token) := by
  have same : Entitled world account id token token := ⟨right, rfl, rfl, rfl, .inl rfl⟩
  unfold describe
  split
  · exact same
  · split
    · split
      · exact same
      · exact ⟨right, rfl, rfl, rfl, .inl rfl⟩
    · split
      · exact same
      · exact ⟨right, rfl, rfl, rfl, .inl rfl⟩

theorem nhtDescribeChange_effect (acts : event.behalf = some caller)
    (performed : world.nhtDescribeChange contract caller name key value = .ok after) :
    Effect world event after := by
  simp only [nhtDescribeChange, bind_eq_ok, ensure_eq_ok, pure_eq_ok,
    Bool.or_eq_true, beq_iff_eq] at performed
  obtain ⟨⟨_, _⟩, named, _, right, _, _, rfl⟩ := performed
  refine .changed _ (getNhAsset_held named) (describe_keeps ?_)
  rcases right with rfl | rfl
  · exact .inl acts
  · exact .inr (.inl acts)

section

variable (acts : event.behalf = some sender)
include acts

theorem transferNht_effect (performed : world.transferNht terms sender receiver name = .ok after) :
    Effect world event after := by
  simp only [transferNht, bind_eq_ok, pure_eq_ok] at performed
  obtain ⟨⟨_, _⟩, named, _, _, _, _, _, unlocked, rfl⟩ := performed
  have disposable := disposable_of_unlocked unlocked
  exact .changed _ (getNhAsset_held named) (acts ▸ disposable.give receiver)

theorem transferNhtActive_effect
    (performed : world.transferNhtActive terms sender receiver name = .ok after) :
    Effect world event after := by
  simp only [transferNhtActive, bind_eq_ok, ensure_eq_ok, pure_eq_ok,
    Bool.or_eq_true, beq_iff_eq] at performed
  obtain ⟨⟨_, _⟩, named, _, _, _, right, _, _, rfl⟩ := performed
  refine .changed _ (getNhAsset_held named) ⟨?_, rfl, rfl, rfl, .inl rfl⟩
  rcases right with rfl | rfl
  · exact .inr (.inr acts)
  · exact .inr (.inl acts)

theorem transferNftOwnership_effect
    (performed : world.transferNftOwnership terms sender receiver name = .ok after) :
    Effect world event after := by
  simp only [transferNftOwnership, bind_eq_ok, pure_eq_ok] at performed
  obtain ⟨⟨id, token⟩, named, _, _, _, _, _, _, _, unlocked, rfl⟩ := performed
  have disposable : world.Disposable event.behalf id token := acts ▸ disposable_of_unlocked unlocked
  exact .changed _ (getNhAsset_held named) ⟨.inl disposable.owned, rfl, rfl, rfl, .inr disposable⟩

theorem transferNhtDealership_effect
    (performed : world.transferNhtDealership terms sender receiver name = .ok after) :
    Effect world event after := by
  simp only [transferNhtDealership, bind_eq_ok, ensure_eq_ok, pure_eq_ok, beq_iff_eq] at performed
  obtain ⟨⟨_, _⟩, named, _, _, _, rfl, _, _, rfl⟩ := performed
  exact .changed _ (getNhAsset_held named) ⟨.inr (.inr acts), rfl, rfl, rfl, .inl rfl⟩

end

theorem setNhtLimitList_effect (acts : event.behalf = some caller)
    (performed : world.setNhtLimitList terms caller name contractNames limitType = .ok after) :
    Effect world event after := by
  simp only [setNhtLimitList, bind_eq_ok, ensure_eq_ok, pure_eq_ok,
    Bool.and_eq_true, beq_iff_eq] at performed
  obtain ⟨⟨_, _⟩, named, _, ⟨rfl, _⟩, _, _, rfl⟩ := performed
  exact .changed _ (getNhAsset_held named) ⟨.inl acts, rfl, rfl, rfl, .inl rfl⟩

theorem relateNhAsset_effect (called : event.step = .call contract caller (.relateNhAsset parentName
      childName relate))
    (performed : world.relateNhAsset terms contract caller parentName childName
      relate = .ok after) : Effect world event after := by
  simp only [relateNhAsset, bind_eq_ok] at performed
  obtain ⟨⟨_, _⟩, parentNamed, ⟨_, _⟩, childNamed, _, _, _, _, _, _, changed⟩ := performed
  have heldParent := getNhAsset_held parentNamed
  have heldChild := getNhAsset_held childNamed
  cases relate with
  | false => exact .unrelated heldParent heldChild changed
  | true => exact .related called heldParent heldChild changed

theorem adjustLockNftAsset_effect
    (called : event.step = .call contract caller (.adjustLockNftAsset name lock))
    (acts : event.behalf = event.terms.contractOwner contract)
    (performed : world.adjustLockNftAsset event.terms contract name lock = .ok after) :
    Effect world event after := by
  simp only [adjustLockNftAsset, bind_eq_ok, found_eq_ok, ensure_eq_ok,
    pure_eq_ok, beq_iff_eq] at performed
  obtain ⟨⟨_, _⟩, named, _, owner, _, rfl, _, adjusted, rfl⟩ := performed
  exact .locked called named (getNhAsset_held named) (acts.trans owner) adjusted

end Calls

theorem perform_effect (performed : world.perform event = .ok after) :
    Effect world event after := by
  obtain ⟨_, step⟩ := event
  cases step with
  | createNhAsset feePayingAccount owner assetId worldView baseDescribe =>
    exact createNhAsset_effect performed
  | deleteNhAsset feePayingAccount nhAsset =>
    exact deleteNhAsset_effect rfl rfl performed
  | transferNhAsset sender receiver nhAsset =>
    exact transferNhAsset_effect rfl performed
  | createNhAssetOrder operation =>
    exact createNhAssetOrder_effect rfl performed
  | cancelNhAssetOrder order feePayingAccount =>
    exact cancelNhAssetOrder_effect performed
  | fillNhAssetOrder operation =>
    obtain ⟨_, token, _, balances, held, located, -, -, rfl⟩ := fillNhAssetOrder_eq_ok performed
    exact .closed balances held located (.inr ⟨operation, rfl, rfl, rfl⟩)
  | call contract caller call =>
    cases call with
    | createNftAsset owner worldView baseDescribe dealershipToContract =>
      exact createNftAsset_effect performed
    | nhtDescribeChange token key value =>
      exact nhtDescribeChange_effect rfl performed
    | transferNht byOwner receiver token =>
      obtain ⟨sender, acts, moved⟩ := bind_eq_ok.mp performed
      exact transferNht_effect (acting_eq_ok acts) moved
    | transferNhtActive byOwner receiver token =>
      obtain ⟨sender, acts, moved⟩ := bind_eq_ok.mp performed
      exact transferNhtActive_effect (acting_eq_ok acts) moved
    | transferNftOwnership byOwner receiver token =>
      obtain ⟨sender, acts, moved⟩ := bind_eq_ok.mp performed
      exact transferNftOwnership_effect (acting_eq_ok acts) moved
    | transferNhtDealership byOwner receiver token =>
      obtain ⟨_, acts, moved⟩ := bind_eq_ok.mp performed
      exact transferNhtDealership_effect (acting_eq_ok acts) moved
    | setNhtLimitList token contractNames limitType =>
      exact setNhtLimitList_effect rfl performed
    | relateNhAsset parent child relate =>
      exact relateNhAsset_effect rfl performed
    | adjustLockNftAsset token lock =>
      exact adjustLockNftAsset_effect rfl rfl performed
  | endBlock headBlockTime => exact .cleared headBlockTime performed
  | adjustBalances balances =>
    cases performed
    exact .adjusted balances

end NftWorld

end CocosChain.Chain

import CocosChain.Chain.Balances
import CocosChain.Library.FallibleRun
import CocosChain.Library.ListMap
import CocosChain.Library.Table

/-!
# Non-homogeneous assets

A non-homogeneous asset has an owner, an account that may use it and one that
deals with it.  These rights are moved by operations and by the code of
contracts, each with checks of its own.  An asset that is offered for sale is
given to the null account until its order is filled, cancelled or expired; it
is then looked up by the hash that is stored in the order.

A contract may lock assets of its owner, and it may relate assets to each
other.  The locks are kept with the owner's account, and a relation with both
of the assets.
-/

namespace CocosChain.Chain

/-- A digest, the first word of which is the number of the asset. -/
structure NhHash where
  word : Nat
  digest : Nat
  deriving DecidableEq, Repr

inductive NhAssetLeaseLimitType where
  | blackList
  | whiteList
  deriving DecidableEq, Repr

structure NhAsset where
  nhHash : NhHash
  nhAssetCreator : AccountId
  nhAssetOwner : AccountId
  nhAssetActive : AccountId
  dealership : AccountId
  worldView : String
  baseDescribe : String
  parent : ListMap Nat Nat
  child : ListMap Nat Nat
  describeWithContract : AList fun _ : Nat => AList fun _ : String => String
  createTime : Nat
  limitList : List Nat
  limitType : NhAssetLeaseLimitType

structure NhAssetOrder where
  seller : AccountId
  otcaccount : AccountId
  nhAssetId : Nat
  worldView : String
  baseDescribe : String
  nhHash : NhHash
  price : Asset
  memo : String
  expiration : Nat
  deriving DecidableEq, Repr

/-- What `asset_locked` of an account has about these assets. -/
structure NftLocks where
  nftLocked : List Nat
  contractNftLockDetails : ListMap Nat Nat

structure NftWorld where
  assets : Table NhAsset
  orders : Table NhAssetOrder
  locks : AccountId → NftLocks
  balances : Balances
  headBlockTime : Nat

/-- What the evaluators ask of the rest of the chain. -/
structure NftTerms extends TransferRules where
  /-- The world views of those that are registered as creators. -/
  nhAssetCreator : AccountId → Option (List String)
  assetSymbol : String → Bool
  worldViewExists : String → Bool
  assetExists : Nat → Bool
  maximumNhAssetOrderExpiration : Nat
  contractOwner : Nat → Option AccountId
  /-- A contract by its number or its name. -/
  contractNamed : String → Option Nat
  /-- The contract's authority has signed, or signatures are skipped. -/
  contractSigned : Nat → Bool
  digest : String → Nat → Nat

inductive NftFault where
  | invalid
  | unknownObject
  | notOwner
  | alreadyOwner
  | dealershipElsewhere
  | activeElsewhere
  | alreadyLocked
  | notLocked
  | notCreator
  | worldViewUnrelated
  | unknownAsset
  | unknownWorldView
  | alreadyExpired
  | expirationTooLate
  | senderUnauthorized
  | receiverUnauthorized
  | transferRestricted
  | insufficientBalance
  | notSeller
  | noPermission
  | contractLimited
  | unsigned
  | alreadyRelated
  | notRelated
  /-- The end of an index or of a list is dereferenced. -/
  | undefined
  deriving DecidableEq, Repr

namespace NhAsset

/-- All rights go to one account. -/
def give (account : AccountId) (token : NhAsset) : NhAsset :=
  { token with
    nhAssetOwner := account, nhAssetActive := account, dealership := account }

/-- The assets that a contract has related below this one. -/
def children (token : NhAsset) (contract : Nat) : List Nat := token.child.listAt contract

def parents (token : NhAsset) (contract : Nat) : List Nat := token.parent.listAt contract

def mapChild (change : ListMap Nat Nat → ListMap Nat Nat) (token : NhAsset) : NhAsset :=
  { token with child := change token.child }

def mapParent (change : ListMap Nat Nat → ListMap Nat Nat) (token : NhAsset) : NhAsset :=
  { token with parent := change token.parent }

end NhAsset

def assertAssetTransfer (sender receiver : AccountId) (token : NhAsset) : Except NftFault Unit := do
  ensure (token.nhAssetOwner == sender) .notOwner
  ensure (token.nhAssetOwner != receiver) .alreadyOwner
  ensure (token.nhAssetOwner == token.dealership ||
    token.dealership == receiver) .dealershipElsewhere
  ensure (token.nhAssetOwner == token.nhAssetActive ||
    token.nhAssetActive == receiver) .activeElsewhere

/-- What the payment of an amount between two accounts is checked for. -/
def assertPayable (terms : NftTerms) (balances : Balances)
    (sender receiver : AccountId) (amount : Asset) : Except NftFault Unit := do
  ensure (terms.isAuthorizedAsset sender amount.assetId) .senderUnauthorized
  ensure (terms.isAuthorizedAsset receiver amount.assetId) .receiverUnauthorized
  ensure (!(terms.isTransferRestricted amount.assetId && !terms.isWhiteList amount.assetId) ||
    sender == terms.issuer amount.assetId ||
    receiver == terms.issuer amount.assetId) .transferRestricted
  ensure (amount.amount ≤ balances.getBalance sender amount.assetId) .insufficientBalance

namespace NftWorld

variable (world : NftWorld)

def assertAssetUnlocked (owner : AccountId) (id : Nat) (token : NhAsset) :
    Except NftFault Unit := do
  ensure (token.nhAssetOwner == owner) .notOwner
  ensure (!(world.locks owner).nftLocked.contains id) .alreadyLocked

/-- The index `by_nh_asset_hash_id` -/
def findByHash (hash : NhHash) : Option Nat :=
  (world.assets.rows.find? fun row => row.2.nhHash == hash).map Prod.fst

def modifyAsset (id : Nat) (change : NhAsset → NhAsset) : NftWorld :=
  { world with assets := world.assets.modify id change }

def mint (token : NhHash → NhAsset) (digest : Nat) : NftWorld :=
  { world with assets :=
      world.assets.create (token ⟨world.assets.next, digest⟩) }

/-- Pays an amount from one account to another. -/
def pay (sender receiver : AccountId) (amount : Asset) : Except NftFault NftWorld := do
  let paid ← found (world.balances.adjustBalance sender
    ⟨-amount.amount, amount.assetId⟩) .insufficientBalance
  let received ← found (paid.adjustBalance receiver amount) .insufficientBalance
  pure { world with balances := received }

/-- `create_nh_asset_evaluator` -/
def createNhAsset (terms : NftTerms) (feePayingAccount owner : AccountId)
    (assetId worldView baseDescribe : String) : Except NftFault NftWorld := do
  ensure (!baseDescribe.isEmpty) .invalid
  let views ← found (terms.nhAssetCreator feePayingAccount) .notCreator
  ensure (views.contains worldView) .worldViewUnrelated
  ensure (terms.assetSymbol assetId) .unknownAsset
  ensure (terms.worldViewExists worldView) .unknownWorldView
  -- Account zero stands for an owner that is not given.
  let account := if owner = 0 then feePayingAccount else owner
  pure (world.mint (fun hash => {
      nhHash := hash
      nhAssetCreator := feePayingAccount
      nhAssetOwner := account
      nhAssetActive := account
      dealership := account
      worldView := worldView
      baseDescribe := baseDescribe
      parent := ∅
      child := ∅
      describeWithContract := ∅
      createTime := world.headBlockTime
      limitList := []
      limitType := .blackList })
    (terms.digest baseDescribe world.headBlockTime))

/-- `delete_nh_asset_evaluator` -/
def deleteNhAsset (feePayingAccount : AccountId) (nhAsset : Nat) : Except NftFault NftWorld := do
  let token ← found (world.assets.get nhAsset) .unknownObject
  ensure (token.nhAssetOwner == feePayingAccount) .notOwner
  world.assertAssetUnlocked feePayingAccount nhAsset token
  pure { world with assets := world.assets.remove nhAsset }

/-- `transfer_nh_asset_evaluator` -/
def transferNhAsset (sender receiver : AccountId) (nhAsset : Nat) : Except NftFault NftWorld := do
  ensure (sender != receiver) .invalid
  let token ← found (world.assets.get nhAsset) .unknownObject
  assertAssetTransfer sender receiver token
  world.assertAssetUnlocked sender nhAsset token
  pure (world.modifyAsset nhAsset (.give receiver))

structure CreateNhAssetOrder where
  seller : AccountId
  otcaccount : AccountId
  pendingOrdersFee : Asset
  nhAsset : Nat
  memo : String
  price : Asset
  expiration : Nat

/-- The order, with the asset given to the null account. -/
def offer (operation : CreateNhAssetOrder) (token : NhAsset) : NftWorld :=
  { world with
    orders := world.orders.create {
      seller := operation.seller
      otcaccount := operation.otcaccount
      nhAssetId := operation.nhAsset
      worldView := token.worldView
      baseDescribe := token.baseDescribe
      nhHash := token.nhHash
      price := operation.price
      memo := operation.memo
      expiration := operation.expiration }
    assets := world.assets.modify operation.nhAsset (.give nullAccount) }

/-- `create_nh_asset_order_evaluator`.  The transfer is checked as one to
account zero. -/
def createNhAssetOrder (terms : NftTerms) (operation : CreateNhAssetOrder) :
    Except NftFault NftWorld := do
  ensure (operation.seller != operation.otcaccount &&
    decide (0 ≤ operation.pendingOrdersFee.amount) &&
    decide (0 ≤ operation.price.amount)) .invalid
  let token ← found (world.assets.get operation.nhAsset) .unknownObject
  ensure (token.nhAssetOwner == operation.seller) .notOwner
  assertAssetTransfer operation.seller 0 token
  ensure (world.headBlockTime ≤ operation.expiration) .alreadyExpired
  ensure (operation.expiration ≤ world.headBlockTime + terms.maximumNhAssetOrderExpiration)
    .expirationTooLate
  ensure (terms.accountExists operation.seller && terms.accountExists operation.otcaccount &&
    terms.assetExists operation.pendingOrdersFee.assetId) .unknownObject
  world.assertAssetUnlocked operation.seller operation.nhAsset token
  assertPayable terms world.balances operation.seller operation.otcaccount
    operation.pendingOrdersFee
  (world.offer operation token).pay operation.seller operation.otcaccount
    operation.pendingOrdersFee

/-- Gives the asset that has the order's hash to an account. -/
def release (hash : NhHash) (account : AccountId) : Except NftFault NftWorld := do
  let token ← found (world.findByHash hash) .undefined
  pure (world.modifyAsset token (.give account))

def removeOrder (order : Nat) : NftWorld := { world with orders := world.orders.remove order }

/-- Gives the asset back to the seller. -/
def revoke (id : Nat) (order : NhAssetOrder) : Except NftFault NftWorld := do
  let released ← world.release order.nhHash order.seller
  pure (released.removeOrder id)

/-- `cancel_nh_asset_order_evaluator` -/
def cancelNhAssetOrder (order : Nat) (feePayingAccount : AccountId) : Except NftFault NftWorld := do
  let object ← found (world.orders.get order) .unknownObject
  ensure (object.seller == feePayingAccount) .notSeller
  world.revoke order object

structure FillNhAssetOrder where
  order : Nat
  feePayingAccount : AccountId
  seller : AccountId
  nhAsset : Nat
  priceAmount : String
  priceAssetId : Nat
  priceAssetSymbol : String

/-- `fill_nh_asset_order_evaluator`.  Of what the operation repeats of the
order, only the seller is read. -/
def fillNhAssetOrder (terms : NftTerms) (operation : FillNhAssetOrder) :
    Except NftFault NftWorld := do
  let order ← found (world.orders.get operation.order) .unknownObject
  ensure (terms.accountExists operation.feePayingAccount &&
    terms.accountExists operation.seller &&
    terms.assetExists order.price.assetId) .unknownObject
  assertPayable terms world.balances operation.feePayingAccount operation.seller order.price
  let released ← world.release order.nhHash operation.feePayingAccount
  let paid ← released.pay operation.feePayingAccount operation.seller order.price
  pure (paid.removeOrder operation.order)

/-- The orders that have expired, the earliest first. -/
def expiredOrders : List (Nat × NhAssetOrder) :=
  (world.orders.rows.filter fun row =>
    row.2.expiration ≤ world.headBlockTime).insertionSort
      fun left right => left.2.expiration ≤ right.2.expiration

/-- Gives the assets of orders back, one after the other. -/
def revokeAll : NftWorld → List (Nat × NhAssetOrder) → Except NftFault NftWorld
  | world, [] => pure world
  | world, (id, order) :: rest => do
      let next ← world.revoke id order
      revokeAll next rest

def clearExpiredNhAssetOrders : Except NftFault NftWorld := world.revokeAll world.expiredOrders

/-- An asset is named by its number or its hash. -/
inductive NftName where
  | id (number : Nat)
  | hash (hash : NhHash)

def getNhAsset : NftName → Except NftFault (Nat × NhAsset)
  | .id number => do
      let token ← found (world.assets.get number) .unknownObject
      pure (number, token)
  | .hash hash => do
      let number ← found (world.findByHash hash) .unknownObject
      let token ← found (world.assets.get number) .unknownObject
      pure (number, token)

/-- The account on whose behalf a contract acts. -/
def acting (terms : NftTerms) (contract : Nat) (caller : AccountId)
    (byOwner : Bool) : Except NftFault AccountId :=
  if byOwner then found (terms.contractOwner contract) .unknownObject
  else pure caller

def createNftAsset (terms : NftTerms) (contract : Nat) (owner : AccountId)
    (worldView baseDescribe : String) (dealershipToContract : Bool) : Except NftFault NftWorld := do
  let creator ← found (terms.contractOwner contract) .unknownObject
  ensure (terms.accountExists owner) .unknownObject
  let views ← found (terms.nhAssetCreator creator) .notCreator
  ensure (views.contains worldView) .worldViewUnrelated
  ensure (terms.worldViewExists worldView) .unknownWorldView
  pure (world.mint (fun hash => {
      nhHash := hash
      nhAssetCreator := creator
      nhAssetOwner := owner
      nhAssetActive := owner
      dealership := if dealershipToContract then creator else owner
      worldView := worldView
      baseDescribe := baseDescribe
      parent := ∅
      child := ∅
      describeWithContract := ∅
      createTime := world.headBlockTime
      limitList := []
      limitType := .blackList })
    (terms.digest baseDescribe world.headBlockTime))

/-- A contract's description of the asset, with a value changed; an empty value
is removed, and so is an empty description. -/
def describe (contract : Nat) (key value : String) (token : NhAsset) : NhAsset :=
  if key.isEmpty then token
  else
    match token.describeWithContract.lookup contract with
    | none =>
        if value.isEmpty then token
        else { token with describeWithContract :=
          token.describeWithContract.insert contract (.singleton key value) }
    | some described =>
        if value.isEmpty && (described.lookup key).isNone then token
        else
          let changed := if value.isEmpty then described.erase key
            else described.insert key value
          { token with describeWithContract :=
              if changed.entries.isEmpty then
                token.describeWithContract.erase contract
              else token.describeWithContract.insert contract changed }

/-- Those who lease an asset may use it with some contracts only. -/
def leaseAllows (token : NhAsset) (contract : Nat) : Bool :=
  match token.limitType with
  | .whiteList => token.limitList.contains contract
  | .blackList => !token.limitList.contains contract

def nhtDescribeChange (contract : Nat) (caller : AccountId) (name : NftName)
    (key value : String) : Except NftFault NftWorld := do
  let (id, token) ← world.getNhAsset name
  ensure (caller == token.nhAssetOwner || caller == token.nhAssetActive) .noPermission
  ensure (token.nhAssetOwner == token.nhAssetActive ||
    caller == token.nhAssetActive && leaseAllows token contract)
    .contractLimited
  pure (world.modifyAsset id (describe contract key value))

def transferNht (terms : NftTerms) (sender receiver : AccountId)
    (name : NftName) : Except NftFault NftWorld := do
  let (id, token) ← world.getNhAsset name
  ensure (terms.accountExists receiver) .unknownObject
  assertAssetTransfer sender receiver token
  world.assertAssetUnlocked sender id token
  pure (world.modifyAsset id (.give receiver))

def transferNhtActive (terms : NftTerms) (sender receiver : AccountId)
    (name : NftName) : Except NftFault NftWorld := do
  let (id, token) ← world.getNhAsset name
  ensure (terms.accountExists receiver) .unknownObject
  ensure (token.dealership == sender || token.nhAssetActive == sender) .activeElsewhere
  ensure (receiver != token.nhAssetActive) .alreadyOwner
  pure (world.modifyAsset id fun token =>
    { token with nhAssetActive := receiver })

def transferNftOwnership (terms : NftTerms) (sender receiver : AccountId)
    (name : NftName) : Except NftFault NftWorld := do
  let (id, token) ← world.getNhAsset name
  ensure (terms.accountExists receiver) .unknownObject
  ensure (token.nhAssetOwner == sender) .notOwner
  ensure (receiver != token.nhAssetOwner) .alreadyOwner
  world.assertAssetUnlocked sender id token
  pure (world.modifyAsset id fun token =>
    { token with nhAssetOwner := receiver })

def transferNhtDealership (terms : NftTerms) (sender receiver : AccountId)
    (name : NftName) : Except NftFault NftWorld := do
  let (id, token) ← world.getNhAsset name
  ensure (terms.accountExists receiver) .unknownObject
  ensure (token.dealership == sender) .dealershipElsewhere
  ensure (receiver != sender) .alreadyOwner
  pure (world.modifyAsset id fun token =>
    { token with dealership := receiver })

/-- Adds the contracts that are named to a list of contracts. -/
def limited (terms : NftTerms) : List String → List Nat → Except NftFault (List Nat)
  | [], limitList => pure limitList
  | name :: rest, limitList =>
      if name.isEmpty then limited terms rest limitList
      else do
        let contract ← found (terms.contractNamed name) .unknownObject
        limited terms rest (if limitList.contains contract then limitList
          else limitList ++ [contract])

def setNhtLimitList (terms : NftTerms) (caller : AccountId) (name : NftName)
    (contractNames : List String) (limitType : NhAssetLeaseLimitType) :
    Except NftFault NftWorld := do
  let (id, token) ← world.getNhAsset name
  ensure (token.nhAssetOwner == caller && token.nhAssetOwner == token.nhAssetActive) .notOwner
  let limitList ← limited terms contractNames
    (if limitType = token.limitType then token.limitList else [])
  pure (world.modifyAsset id fun token =>
    { token with limitList := limitList, limitType := limitType })

/-- Changes what the parent has of its children and the child of its
parents. -/
def relink (parent child : Nat) (down up : ListMap Nat Nat → ListMap Nat Nat) : NftWorld :=
  (world.modifyAsset parent (.mapChild down)).modifyAsset child (.mapParent up)

/-- Relates two assets.  Which of two ways is taken depends on the parent; the
second one leaves the child alone if the contract has related it before. -/
def relateTokens (contract parent child : Nat) (token : NhAsset) : Except NftFault NftWorld :=
  match token.child.lookup contract with
  | some children => do
      ensure (!children.contains child) .alreadyRelated
      pure (world.relink parent child (·.pushBack contract child) (·.pushBack contract parent))
  | none =>
      pure (world.relink parent child (·.emplace contract [child])
        (·.emplace contract [parent]))

/-- Undoes a relation that the parent has; the child's entry is erased without
a check that it is there. -/
def unrelateTokens (contract parent child : Nat)
    (parentToken childToken : NhAsset) : Except NftFault NftWorld := do
  let children ← found (parentToken.child.lookup contract) .notRelated
  ensure (children.contains child) .notRelated
  ensure ((childToken.parents contract).contains parent) .undefined
  pure (world.relink parent child (·.eraseOne contract child) (·.eraseOne contract parent))

def relateNhAsset (terms : NftTerms) (contract : Nat) (caller : AccountId)
    (parentName childName : NftName) (relate : Bool) : Except NftFault NftWorld := do
  let (parent, parentToken) ← world.getNhAsset parentName
  let (child, childToken) ← world.getNhAsset childName
  ensure (terms.contractSigned contract) .unsigned
  ensure (parentToken.nhAssetOwner == caller) .notOwner
  ensure (childToken.nhAssetOwner == caller) .notOwner
  if relate then world.relateTokens contract parent child parentToken
  else world.unrelateTokens contract parent child parentToken childToken

/-- The locks of an account after a contract has locked or unlocked an
asset. -/
def adjustLocks (locks : NftLocks) (contract id : Nat) (lock : Bool) :
    Except NftFault NftLocks := do
  let details := locks.contractNftLockDetails.listAt contract
  if lock then
    ensure (!locks.nftLocked.contains id) .alreadyLocked
    pure ⟨locks.nftLocked ++ [id], locks.contractNftLockDetails.store contract (details ++ [id])⟩
  else
    ensure (locks.nftLocked.contains id) .notLocked
    ensure (details.contains id) .notLocked
    pure ⟨locks.nftLocked.erase id, locks.contractNftLockDetails.store contract (details.erase id)⟩

def adjustLockNftAsset (terms : NftTerms) (contract : Nat) (name : NftName)
    (lock : Bool) : Except NftFault NftWorld := do
  let (id, token) ← world.getNhAsset name
  let owner ← found (terms.contractOwner contract) .unknownObject
  ensure (token.nhAssetOwner == owner) .notOwner
  let locks ← adjustLocks (world.locks owner) contract id lock
  pure { world with locks := Function.update world.locks owner locks }

/-- What the code of a contract calls. -/
inductive NftCall where
  | createNftAsset (owner : AccountId) (worldView baseDescribe : String)
      (dealershipToContract : Bool)
  | nhtDescribeChange (token : NftName) (key value : String)
  | transferNht (byOwner : Bool) (receiver : AccountId) (token : NftName)
  | transferNhtActive (byOwner : Bool) (receiver : AccountId)
      (token : NftName)
  | transferNftOwnership (byOwner : Bool) (receiver : AccountId)
      (token : NftName)
  | transferNhtDealership (byOwner : Bool) (receiver : AccountId)
      (token : NftName)
  | setNhtLimitList (token : NftName) (contractNames : List String)
      (limitType : NhAssetLeaseLimitType)
  | relateNhAsset (parent child : NftName) (relate : Bool)
  | adjustLockNftAsset (token : NftName) (lock : Bool)

inductive NftStep where
  | createNhAsset (feePayingAccount owner : AccountId)
      (assetId worldView baseDescribe : String)
  | deleteNhAsset (feePayingAccount : AccountId) (nhAsset : Nat)
  | transferNhAsset (sender receiver : AccountId) (nhAsset : Nat)
  | createNhAssetOrder (operation : CreateNhAssetOrder)
  | cancelNhAssetOrder (order : Nat) (feePayingAccount : AccountId)
  | fillNhAssetOrder (operation : FillNhAssetOrder)
  | call (contract : Nat) (caller : AccountId) (call : NftCall)
  /-- The end of a block. -/
  | endBlock (headBlockTime : Nat)
  /-- What else happens to the balances. -/
  | adjustBalances (balances : Balances)

def performCall (terms : NftTerms) (contract : Nat) (caller : AccountId) :
    NftCall → Except NftFault NftWorld
  | .createNftAsset owner worldView baseDescribe dealershipToContract =>
      world.createNftAsset terms contract owner worldView baseDescribe dealershipToContract
  | .nhtDescribeChange token key value =>
      world.nhtDescribeChange contract caller token key value
  | .transferNht byOwner receiver token => do
      let sender ← acting terms contract caller byOwner
      world.transferNht terms sender receiver token
  | .transferNhtActive byOwner receiver token => do
      let sender ← acting terms contract caller byOwner
      world.transferNhtActive terms sender receiver token
  | .transferNftOwnership byOwner receiver token => do
      let sender ← acting terms contract caller byOwner
      world.transferNftOwnership terms sender receiver token
  | .transferNhtDealership byOwner receiver token => do
      let sender ← acting terms contract caller byOwner
      world.transferNhtDealership terms sender receiver token
  | .setNhtLimitList token contractNames limitType =>
      world.setNhtLimitList terms caller token contractNames limitType
  | .relateNhAsset parent child relate =>
      world.relateNhAsset terms contract caller parent child relate
  | .adjustLockNftAsset token lock =>
      world.adjustLockNftAsset terms contract token lock

/-- A step, under the terms that hold when it is taken. -/
structure NftEvent where
  terms : NftTerms
  step : NftStep

def perform (event : NftEvent) : Except NftFault NftWorld :=
  match event.step with
  | .createNhAsset feePayingAccount owner assetId worldView baseDescribe =>
      world.createNhAsset event.terms feePayingAccount owner assetId worldView baseDescribe
  | .deleteNhAsset feePayingAccount nhAsset =>
      world.deleteNhAsset feePayingAccount nhAsset
  | .transferNhAsset sender receiver nhAsset =>
      world.transferNhAsset sender receiver nhAsset
  | .createNhAssetOrder operation =>
      world.createNhAssetOrder event.terms operation
  | .cancelNhAssetOrder order feePayingAccount =>
      world.cancelNhAssetOrder order feePayingAccount
  | .fillNhAssetOrder operation => world.fillNhAssetOrder event.terms operation
  | .call contract caller call =>
      world.performCall event.terms contract caller call
  | .endBlock headBlockTime =>
      clearExpiredNhAssetOrders { world with headBlockTime := headBlockTime }
  | .adjustBalances balances => pure { world with balances := balances }

/-- The world before the first of these assets. -/
def start (balances : Balances) (headBlockTime : Nat) : NftWorld where
  assets := .empty
  orders := .empty
  locks _ := ⟨[], ∅⟩
  balances := balances
  headBlockTime := headBlockTime

end NftWorld

end CocosChain.Chain

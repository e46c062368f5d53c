import CocosChain.Db.SecondaryIndex
import CocosChain.Library.InvertedIndex

/-!
# The index of account memberships

`account_member_index` maps accounts, keys and addresses to the accounts that
refer to them.  A modification is followed by comparing the members remembered
before it with the members found after it.  The address map also lists an
account under the address of its memo key.
-/

namespace CocosChain.Chain.AccountMemberIndex

open CocosChain.Db InvertedIndex

variable {PublicKey Address : Type} [DecidableEq PublicKey] [DecidableEq Address]

/-- The weighted members of an authority, as a loop over them visits them. -/
structure Authority (PublicKey Address : Type) where
  accountAuths : List (ObjectId × Nat)
  keyAuths : List (PublicKey × Nat)
  addressAuths : List (Address × Nat)

def Authority.NamesAccount (authority : Authority PublicKey Address) (account : ObjectId) : Prop :=
  account ∈ authority.accountAuths.map Prod.fst

def Authority.NamesKey (authority : Authority PublicKey Address) (key : PublicKey) : Prop :=
  key ∈ authority.keyAuths.map Prod.fst

def Authority.NamesAddress (authority : Authority PublicKey Address) (target : Address) : Prop :=
  target ∈ authority.addressAuths.map Prod.fst

structure AccountObject (PublicKey Address : Type) where
  name : String
  owner : Authority PublicKey Address
  active : Authority PublicKey Address
  memoKey : PublicKey

/-- Insertion of the first components of a map into a set. -/
def insertFirst {Key : Type} [DecidableEq Key] (result : List Key)
    (auths : List (Key × Nat)) : List Key :=
  auths.foldl (fun result auth => result.insert auth.1) result

theorem mem_insertFirst {Key : Type} [DecidableEq Key] (result : List Key)
    (auths : List (Key × Nat)) (key : Key) :
    key ∈ insertFirst result auths ↔ key ∈ result ∨ key ∈ auths.map Prod.fst := by
  induction auths generalizing result with
  | nil => simp [insertFirst]
  | cons auth auths induction =>
    change key ∈ insertFirst (result.insert auth.1) auths ↔ _
    rw [induction]
    simp only [List.mem_insert_iff, List.map_cons, List.mem_cons]
    tauto

section Members

variable (account : AccountObject PublicKey Address)

def getAccountMembers : List ObjectId :=
  insertFirst (insertFirst [] account.owner.accountAuths) account.active.accountAuths

def getKeyMembers : List PublicKey :=
  (insertFirst (insertFirst [] account.owner.keyAuths)
    account.active.keyAuths).insert account.memoKey

def getAddressMembers (address : PublicKey → Address) : List Address :=
  (insertFirst (insertFirst [] account.owner.addressAuths)
    account.active.addressAuths).insert (address account.memoKey)

omit [DecidableEq PublicKey] [DecidableEq Address] in
theorem mem_getAccountMembers (member : ObjectId) : member ∈ getAccountMembers account ↔
      account.owner.NamesAccount member ∨ account.active.NamesAccount member := by
  simp [getAccountMembers, mem_insertFirst, Authority.NamesAccount]

omit [DecidableEq Address] in
theorem mem_getKeyMembers (key : PublicKey) : key ∈ getKeyMembers account ↔
      account.owner.NamesKey key ∨ account.active.NamesKey key ∨ key = account.memoKey := by
  simp only [getKeyMembers, List.mem_insert_iff, mem_insertFirst,
    List.not_mem_nil, false_or, Authority.NamesKey]
  tauto

omit [DecidableEq PublicKey] in
theorem mem_getAddressMembers (address : PublicKey → Address) (target : Address) :
    target ∈ getAddressMembers account address ↔ account.owner.NamesAddress target ∨
        account.active.NamesAddress target ∨
        target = address account.memoKey := by
  simp only [getAddressMembers, List.mem_insert_iff, mem_insertFirst,
    List.not_mem_nil, false_or, Authority.NamesAddress]
  tauto

end Members

/-- The three maps, and the members remembered by `about_to_modify`. -/
structure Memberships (PublicKey Address : Type) where
  accountToAccountMemberships : InvertedIndex ObjectId ObjectId
  accountToKeyMemberships : InvertedIndex PublicKey ObjectId
  accountToAddressMemberships : InvertedIndex Address ObjectId
  beforeAccountMembers : List ObjectId
  beforeKeyMembers : List PublicKey
  beforeAddressMembers : List Address

def Memberships.empty : Memberships PublicKey Address :=
  { accountToAccountMemberships := ∅
    accountToKeyMemberships := ∅
    accountToAddressMemberships := ∅
    beforeAccountMembers := []
    beforeKeyMembers := []
    beforeAddressMembers := [] }

section Callbacks

variable (address : PublicKey → Address)

def objectInserted (id : ObjectId) (account : AccountObject PublicKey Address)
    (index : Memberships PublicKey Address) : Memberships PublicKey Address :=
  { index with
    accountToAccountMemberships := (getAccountMembers account).foldl
      (InvertedIndex.add id) index.accountToAccountMemberships
    accountToKeyMemberships := (getKeyMembers account).foldl
      (InvertedIndex.add id) index.accountToKeyMemberships
    accountToAddressMemberships := (getAddressMembers account address).foldl
      (InvertedIndex.add id) index.accountToAddressMemberships }

def objectRemoved (id : ObjectId) (account : AccountObject PublicKey Address)
    (index : Memberships PublicKey Address) : Memberships PublicKey Address :=
  { index with
    accountToKeyMemberships := (getKeyMembers account).foldl
      (InvertedIndex.drop id) index.accountToKeyMemberships
    accountToAddressMemberships := (getAddressMembers account address).foldl
      (InvertedIndex.drop id) index.accountToAddressMemberships
    accountToAccountMemberships := (getAccountMembers account).foldl
      (InvertedIndex.drop id) index.accountToAccountMemberships }

def aboutToModify (_ : ObjectId) (before : AccountObject PublicKey Address)
    (index : Memberships PublicKey Address) : Memberships PublicKey Address :=
  { index with
    beforeKeyMembers := getKeyMembers before
    beforeAddressMembers := getAddressMembers before address
    beforeAccountMembers := getAccountMembers before }

def objectModified (id : ObjectId) (after : AccountObject PublicKey Address)
    (index : Memberships PublicKey Address) : Memberships PublicKey Address :=
  { index with
    accountToAccountMemberships := index.accountToAccountMemberships.exchange
      index.beforeAccountMembers (getAccountMembers after) id
    accountToKeyMemberships := index.accountToKeyMemberships.exchange
      index.beforeKeyMembers (getKeyMembers after) id
    accountToAddressMemberships := index.accountToAddressMemberships.exchange
      index.beforeAddressMembers (getAddressMembers after address) id }

def config : IndexConfig (AccountObject PublicKey Address) String
    (Memberships PublicKey Address) :=
  { uniqueKey := fun account => some account.name
    objectInserted := objectInserted address
    objectRemoved := objectRemoved address
    aboutToModify := aboutToModify address
    objectModified := objectModified address }

structure Agree (objects : ObjectMap (AccountObject PublicKey Address))
    (index : Memberships PublicKey Address) : Prop where
  accounts : InvertedIndex.Indexes
    (fun account member => member ∈ getAccountMembers account) objects
    index.accountToAccountMemberships
  keys : InvertedIndex.Indexes
    (fun account member => member ∈ getKeyMembers account) objects
    index.accountToKeyMemberships
  addresses : InvertedIndex.Indexes
    (fun account member => member ∈ getAddressMembers account address)
    objects index.accountToAddressMemberships

theorem maintains : (config address).Maintains (Agree address)
    (fun _ _ => True) (fun _ => False) := by
  constructor
  · intro accounts index id account agree absent
    constructor
    · apply agree.accounts.insert absent
      intro key other
      exact mem_listed_foldl_add _ id other _ key
    · apply agree.keys.insert absent
      intro key other
      exact mem_listed_foldl_add _ id other _ key
    · apply agree.addresses.insert absent
      intro key other
      exact mem_listed_foldl_add _ id other _ key
  · intro accounts index id before after agree found _
    constructor
    · exact agree.accounts.exchange found (fun _ => Iff.rfl) (fun _ => Iff.rfl)
    · exact agree.keys.exchange found (fun _ => Iff.rfl) (fun _ => Iff.rfl)
    · exact agree.addresses.exchange found (fun _ => Iff.rfl) (fun _ => Iff.rfl)
  · intro accounts index id account agree found
    constructor
    · apply agree.accounts.erase found
      intro key other
      exact mem_listed_foldl_drop _ id other _ key
    · apply agree.keys.erase found
      intro key other
      exact mem_listed_foldl_drop _ id other _ key
    · apply agree.addresses.erase found
      intro key other
      exact mem_listed_foldl_drop _ id other _ key
  · intro accounts index id account agree absent impossible
    exact impossible.elim

end Callbacks

/-- What happens to accounts: they are created and updated, in sessions that
end in any way, and are never removed by a step. -/
inductive Event (PublicKey Address : Type) where
  | create (index : IndexId) (account : AccountObject PublicKey Address)
  | update (id : ObjectId) (owner active : Authority PublicKey Address)
      (memoKey : PublicKey)
  | start
  | finish (ending : Ending (Iterator (AccountObject PublicKey Address)))
  | pop (iterator : Iterator (AccountObject PublicKey Address))

def Event.toSession : Event PublicKey Address →
    SessionEvent (Action (AccountObject PublicKey Address))
      (Iterator (AccountObject PublicKey Address))
  | create index account => .act (.create index account)
  | update id owner active memoKey =>
      .act (.modify id fun account => { account with owner, active, memoKey })
  | start => .start
  | finish ending => .finish ending
  | pop iterator => .pop iterator

abbrev Accounts (PublicKey Address : Type) :=
  ObjectDatabase (AccountObject PublicKey Address) (Memberships PublicKey Address)

def initial : Accounts PublicKey Address :=
  { store := { objects := ∅, nextId := fun _ => 0 }
    sindex := .empty
    undoDb := UndoDatabase.initial }

inductive Reachable (address : PublicKey → Address) :
    Accounts PublicKey Address → Prop
  | initial : Reachable address initial
  | step {db next : Accounts PublicKey Address}
      (reached : Reachable address db) (event : Event PublicKey Address)
      (success : db.step (config address) event.toSession = .ok next) :
      Reachable address next

section

omit [DecidableEq PublicKey] [DecidableEq Address]

theorem followed_of_nothingRemoved (nothing : ObjectDatabase.NothingRemoved db.undoDb)
    (event : Event PublicKey Address) :
    ObjectDatabase.Followed (fun _ _ => True) (fun _ => False) db event.toSession := by
  have newest : ∀ state rest, db.undoDb.stack = state :: rest →
      ObjectDatabase.StateFollowed (fun _ _ => True) (fun _ => False) db.store.objects state := by
    intro state rest stack
    refine ⟨fun _ _ _ _ _ => trivial, ?_⟩
    intro id was removed
    rw [nothing state (stack ▸ List.mem_cons_self)] at removed
    simp at removed
  cases event with
  | create index account => trivial
  | update id owner active memoKey => exact fun _ _ => trivial
  | start => trivial
  | pop iterator => exact newest
  | finish ending =>
    cases ending with
    | undo iterator => exact newest
    | merge iterator => trivial
    | commit => trivial

theorem Event.ne_remove (event : Event PublicKey Address) (id : ObjectId) :
    event.toSession ≠ .act (.remove id) := by
  cases event <;> exact nofun

end

theorem reachable_agrees {address : PublicKey → Address} (reachable : Reachable address db) :
    db.Agrees (Agree address) ∧ ObjectDatabase.NothingRemoved db.undoDb := by
  induction reachable with
  | initial => exact ⟨⟨.empty, .empty, .empty⟩, nofun⟩
  | step reached event success induction =>
    obtain ⟨agrees, nothing⟩ := induction
    exact ⟨ObjectDatabase.step_agrees (maintains address) agrees
        (followed_of_nothingRemoved nothing event) success,
      ObjectDatabase.step_nothingRemoved nothing event.ne_remove success⟩

/-- In every reachable state the three maps list exactly the live accounts
that refer to the key, account or address; the memo key counts as a key and
through its address. -/
theorem memberships_agree (address : PublicKey → Address)
    (db : Accounts PublicKey Address) (reachable : Reachable address db) :
    (∀ key id, id ∈ db.sindex.accountToKeyMemberships.listed key ↔
      ∃ account, db.store.objects.lookup id = some account ∧
        (account.owner.NamesKey key ∨ account.active.NamesKey key ∨ key = account.memoKey)) ∧
    (∀ member id, id ∈ db.sindex.accountToAccountMemberships.listed member ↔
      ∃ account, db.store.objects.lookup id = some account ∧
        (account.owner.NamesAccount member ∨ account.active.NamesAccount member)) ∧
    (∀ target id, id ∈ db.sindex.accountToAddressMemberships.listed target ↔
      ∃ account, db.store.objects.lookup id = some account ∧
        (account.owner.NamesAddress target ∨ account.active.NamesAddress target ∨
          target = address account.memoKey)) := by
  obtain ⟨agree, _⟩ := reachable_agrees reachable
  refine ⟨?_, ?_, ?_⟩
  · intro key id
    rw [agree.keys key id]
    simp only [mem_getKeyMembers]
  · intro member id
    rw [agree.accounts member id]
    simp only [mem_getAccountMembers]
  · intro target id
    rw [agree.addresses target id]
    simp only [mem_getAddressMembers]

/-- An account that refers to nobody but has a memo key. -/
def memoOnly : AccountObject Nat Nat :=
  { name := "nathan"
    owner := ⟨[], [], []⟩
    active := ⟨[], [], []⟩
    memoKey := 5 }

/-- Keys are numbers here, and the address of a key is its successor. -/
def created : Accounts Nat Nat :=
  { store :=
      { objects := Finmap.insert ⟨⟨1, 2⟩, 0⟩ memoOnly ∅
        nextId := Function.update (fun _ => 0) ⟨1, 2⟩ 1 }
    sindex := objectInserted Nat.succ ⟨⟨1, 2⟩, 0⟩ memoOnly .empty
    undoDb := UndoDatabase.initial.onCreate ⟨⟨1, 2⟩, 0⟩ }

theorem created_reachable : Reachable Nat.succ created :=
  .step .initial (.create ⟨1, 2⟩ memoOnly) rfl

theorem memberships_agree_created :
    (∀ key id, id ∈ created.sindex.accountToKeyMemberships.listed key ↔
      ∃ account, created.store.objects.lookup id = some account ∧
        (account.owner.NamesKey key ∨ account.active.NamesKey key ∨ key = account.memoKey)) ∧
    (∀ member id, id ∈ created.sindex.accountToAccountMemberships.listed member ↔
      ∃ account, created.store.objects.lookup id = some account ∧
        (account.owner.NamesAccount member ∨ account.active.NamesAccount member)) ∧
    (∀ target id, id ∈ created.sindex.accountToAddressMemberships.listed target ↔
      ∃ account, created.store.objects.lookup id = some account ∧
        (account.owner.NamesAddress target ∨ account.active.NamesAddress target ∨
          target = Nat.succ account.memoKey)) :=
  memberships_agree Nat.succ created (.step .initial (.create ⟨1, 2⟩ memoOnly) rfl)

/-- The account is listed under an address that none of its authorities
names. -/
theorem memo_address_listed : Reachable Nat.succ created ∧ ¬ ∀ target id,
      (id ∈ created.sindex.accountToAddressMemberships.listed target ↔
        ∃ account, created.store.objects.lookup id = some account ∧
          (account.owner.NamesAddress target ∨ account.active.NamesAddress target)) := by
  refine ⟨created_reachable, ?_⟩
  intro listed
  have member : (⟨⟨1, 2⟩, 0⟩ : ObjectId) ∈ created.sindex.accountToAddressMemberships.listed 6 := by
    decide
  obtain ⟨account, found, named⟩ := (listed 6 _).mp member
  have only : some memoOnly = some account := found
  cases only
  simp [memoOnly, Authority.NamesAddress] at named

end CocosChain.Chain.AccountMemberIndex

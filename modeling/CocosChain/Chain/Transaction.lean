import CocosChain.Chain.VerifyAuthority

/-!
# Transactions

A transaction is a list of operations, with the block it refers to and the
time it expires at.  Once it has been applied it carries the results of its
operations.  Operations that the handling of transactions looks into are spelt
out; of the others only the authorities they require are.  Fields that nothing
here reads are kept packed.
-/

namespace CocosChain.Chain

/-- The bits of `validation_steps`. -/
abbrev SkipFlags := UInt32

namespace SkipFlags

def skipNothing : SkipFlags := 0
def skipWitnessSignature : SkipFlags := 0x1
def skipTransactionSignatures : SkipFlags := 0x2
def skipTransactionDupeCheck : SkipFlags := 0x4
def skipBlockSizeCheck : SkipFlags := 0x10
def skipTaposCheck : SkipFlags := 0x20
def skipAuthorityCheck : SkipFlags := 0x40
def skipMerkleCheck : SkipFlags := 0x80
def skipUndoHistoryCheck : SkipFlags := 0x200
def skipWitnessScheduleCheck : SkipFlags := 0x400
def skipValidate : SkipFlags := 0x800

/-- One of the steps is skipped. -/
def skips (skip steps : SkipFlags) : Bool := skip &&& steps != 0

@[simp] theorem skips_or (left right steps : SkipFlags) : (left ||| right).skips steps =
      (left.skips steps || right.skips steps) := by
  have distributes : (left ||| right) &&& steps = (left &&& steps) ||| (right &&& steps) := by
    apply UInt32.toNat.inj
    simp only [UInt32.toNat_and, UInt32.toNat_or, Nat.and_or_distrib_right]
  rw [Bool.eq_iff_iff]
  simp only [skips, distributes, bne_iff_ne, ne_eq, Bool.or_eq_true,
    UInt32.or_eq_zero_iff, not_and_or]

end SkipFlags

structure Asset where
  amount : Int
  assetId : Nat
  deriving DecidableEq, Repr

/-- `GRAPHENE_ASSET_GAS` -/
def assetGas : Nat := 1

/-- Fields that are not read are packed. -/
abbrev Packed := List UInt8

inductive Operation (Key : Type) where
  | transfer (fromAccount : AccountId) (packed : Packed)
  | callContractFunction (caller : AccountId) (contractId : Nat)
      (packed : Packed)
  | contractShareFee (sharer : AccountId) (packed : Packed)
  | vestingBalanceWithdraw (vestingBalance : Nat) (owner : AccountId)
      (amount : Asset)
  | other (required : Requirements Key) (packed : Packed)
  deriving DecidableEq, Repr

namespace Operation

variable {Key : Type}

/-- `operation_get_required_authorities`: whoever pays the fee has to agree. -/
def requiredAuthorities : Operation Key → Requirements Key
  | transfer fromAccount _ => ⟨[fromAccount], [], []⟩
  | callContractFunction caller _ _ => ⟨[caller], [], []⟩
  | contractShareFee sharer _ => ⟨[sharer], [], []⟩
  | vestingBalanceWithdraw _ owner _ => ⟨[owner], [], []⟩
  | other required _ => required

def isContractShareFee : Operation Key → Bool
  | contractShareFee _ _ => true
  | _ => false

end Operation

/-- The kinds of `contract_affected_type`, which is compared by kind. -/
inductive ContractAffected where
  | token
  | nht
  | memo
  | logger
  | contract
  | feeShare
  deriving DecidableEq, Repr

/-- `processValue` stands for the values of the contracts called from this one
as well. -/
structure ContractResult where
  contractAffecteds : List ContractAffected
  existedPv : Bool
  processValue : Packed
  relevantDatasize : Nat
  deriving DecidableEq, Repr

inductive ResultContent where
  | error (code : Int) (message : String)
  | void
  | objectId (instance_ : Nat)
  | asset (result : Asset)
  | contract (result : ContractResult)
  | logger (message : String)
  deriving DecidableEq, Repr

structure OperationResult where
  content : ResultContent
  realRunningTime : Nat
  deriving DecidableEq, Repr

namespace OperationResult

def isError (result : OperationResult) : Bool :=
  match result.content with
  | .error _ _ => true
  | _ => false

def isVoid (result : OperationResult) : Bool :=
  match result.content with
  | .void => true
  | _ => false

def contractResult (result : OperationResult) : Option ContractResult :=
  match result.content with
  | .contract result => some result
  | _ => none

/-- `operator==` of results, which compares kinds only. -/
def sameKind (first second : OperationResult) : Bool :=
  match first.content, second.content with
  | .error _ _, .error _ _ => true
  | .void, .void => true
  | .objectId _, .objectId _ => true
  | .asset _, .asset _ => true
  | .contract _, .contract _ => true
  | .logger _, .logger _ => true
  | _, _ => false

end OperationResult

/-- The parts of a transaction that its digest covers. -/
structure Transaction (Key : Type) where
  refBlockNum : UInt16
  refBlockPrefix : UInt32
  expiration : Nat
  operations : List (Operation Key)
  extensions : Packed
  deriving DecidableEq, Repr

inductive AgreedTaskId where
  | proposal (instance_ : Nat)
  | crontab (instance_ : Nat)
  | unexpected
  deriving DecidableEq, Repr

structure SignedTransaction (Key : Type) extends Transaction Key where
  agreedTask : Option AgreedTaskId
  signatures : List Packed

structure ProcessedTransaction (Key : Type) extends SignedTransaction Key where
  operationResults : List OperationResult

namespace Transaction

variable {Key : Type}

/-- The first operation is `contract_share_fee`. -/
def sharesFee (trx : Transaction Key) : Bool :=
  match trx.operations with
  | [] => false
  | op :: _ => op.isContractShareFee

/-- Inserting into a sorted set. -/
def insertAccount (account : AccountId) (accounts : List AccountId) : List AccountId :=
  if account ∈ accounts then accounts
  else accounts.orderedInsert (· ≤ ·) account

def addRequired (required : Requirements Key) (op : Operation Key) : Requirements Key where
  active := op.requiredAuthorities.active.foldl
    (fun accounts account => insertAccount account accounts) required.active
  owner := op.requiredAuthorities.owner.foldl
    (fun accounts account => insertAccount account accounts) required.owner
  other := required.other ++ op.requiredAuthorities.other

def getRequiredAuthorities (operations : List (Operation Key)) : Requirements Key :=
  operations.foldl addRequired ⟨[], [], []⟩

@[simp] theorem mem_insertAccount :
    other ∈ insertAccount account accounts ↔ other = account ∨ other ∈ accounts := by
  unfold insertAccount
  split
  · rename_i present
    constructor
    · exact Or.inr
    · rintro (rfl | member)
      · exact present
      · exact member
  · exact List.mem_orderedInsert _

theorem mem_foldl_insertAccount {added : List AccountId} : account ∈ added.foldl
        (fun accounts account => insertAccount account accounts) accounts ↔
      account ∈ added ∨ account ∈ accounts := by
  induction added generalizing accounts with
  | nil => simp
  | cons first added induction =>
    rw [List.foldl_cons, induction, mem_insertAccount, List.mem_cons]
    tauto

end Transaction

/-- Every requirement of the second is one of the first. -/
structure Requirements.Covers {Key : Type} (required part : Requirements Key) : Prop where
  active : part.active ⊆ required.active
  owner : part.owner ⊆ required.owner
  other : part.other ⊆ required.other

namespace Requirements.Covers

variable {Key : Type} {required : Requirements Key}

theorem refl (required : Requirements Key) : required.Covers required :=
  ⟨fun _ => id, fun _ => id, fun _ => id⟩

theorem trans (first : required.Covers middle) (second : middle.Covers part) :
    required.Covers part :=
  ⟨fun _ member => first.active (second.active member),
    fun _ member => first.owner (second.owner member),
    fun _ member => first.other (second.other member)⟩

theorem addRequired_old (required : Requirements Key) (op : Operation Key) :
    (Transaction.addRequired required op).Covers required where
  active _ member := Transaction.mem_foldl_insertAccount.mpr (.inr member)
  owner _ member := Transaction.mem_foldl_insertAccount.mpr (.inr member)
  other _ member := List.mem_append_left _ member

theorem addRequired_new (required : Requirements Key) (op : Operation Key) :
    (Transaction.addRequired required op).Covers op.requiredAuthorities where
  active _ member := Transaction.mem_foldl_insertAccount.mpr (.inl member)
  owner _ member := Transaction.mem_foldl_insertAccount.mpr (.inl member)
  other _ member := List.mem_append_right _ member

variable {operations : List (Operation Key)}

theorem foldl_addRequired (required : Requirements Key) :
    (operations.foldl Transaction.addRequired required).Covers required ∧ ∀ op ∈ operations,
        (operations.foldl Transaction.addRequired required).Covers op.requiredAuthorities := by
  induction operations generalizing required with
  | nil => exact ⟨refl required, nofun⟩
  | cons op operations induction =>
    obtain ⟨older, later⟩ := induction (Transaction.addRequired required op)
    constructor
    · exact older.trans (addRequired_old required op)
    · intro other member
      rcases List.mem_cons.mp member with rfl | member
      · exact older.trans (addRequired_new required other)
      · exact later other member

theorem getRequiredAuthorities (member : op ∈ operations) :
    (Transaction.getRequiredAuthorities operations).Covers op.requiredAuthorities :=
  (foldl_addRequired ⟨[], [], []⟩).2 op member

end Requirements.Covers

end CocosChain.Chain

import Mathlib.Data.List.Infix
import Mathlib.Logic.Function.Basic

/-!
# Blocks and their identifiers

A block names its predecessor by identifier, and an identifier carries the
number of its block, so a block's own number is read off its predecessor.
Hashes are parameters.  A header is hashed with its witness' signature; the
transactions enter it only through the Merkle root it states.
-/

namespace CocosChain.Chain

/-- A hash whose first word is the number of the block. -/
structure BlockId (Hash : Type) where
  number : Nat
  hash : Hash
  deriving DecidableEq, Repr

/-- The identifier of no block, which stands for the genesis state. -/
instance {Hash : Type} [Inhabited Hash] : Inhabited (BlockId Hash) where
  default := ⟨0, default⟩

abbrev WitnessId := Nat

/-- The timestamp, the extensions and the signature are kept together as
`rest`. -/
structure SignedBlockHeader (Hash Rest : Type) where
  previous : BlockId Hash
  witness : WitnessId
  transactionMerkleRoot : Hash
  rest : Rest
  deriving DecidableEq, Repr

structure SignedBlock (Hash Rest Tx : Type) extends
    SignedBlockHeader Hash Rest where
  blockId : BlockId Hash
  transactions : List Tx
  deriving DecidableEq, Repr

structure Digests (Hash Rest Tx : Type) where
  header : SignedBlockHeader Hash Rest → Hash
  merkleRoot : List Tx → Hash
  transactionId : Tx → Hash

variable {Hash Rest Tx : Type}

def SignedBlockHeader.blockNum (header : SignedBlockHeader Hash Rest) : Nat :=
  header.previous.number + 1

namespace Digests

variable (digests : Digests Hash Rest Tx)

def makeId (header : SignedBlockHeader Hash Rest) : BlockId Hash :=
  ⟨header.blockNum, digests.header header⟩

def calculateMerkleRoot (block : SignedBlock Hash Rest Tx) : Hash :=
  digests.merkleRoot block.transactions

/-- The identifier a block carries is the one computed from its header. -/
def Identified (block : SignedBlock Hash Rest Tx) : Prop :=
  block.blockId = digests.makeId block.toSignedBlockHeader

/-- A block that carries the identifier of its header. -/
def assemble (previous : BlockId Hash) (witness : WitnessId) (rest : Rest)
    (transactions : List Tx) : SignedBlock Hash Rest Tx :=
  let header : SignedBlockHeader Hash Rest :=
    { previous := previous
      witness := witness
      transactionMerkleRoot := digests.merkleRoot transactions
      rest := rest }
  { toSignedBlockHeader := header
    blockId := digests.makeId header
    transactions := transactions }

theorem assemble_identified (previous : BlockId Hash) (witness : WitnessId)
    (rest : Rest) (transactions : List Tx) :
    digests.Identified (digests.assemble previous witness rest transactions) :=
  rfl

/-- Blocks assembled one on top of the other, oldest first. -/
def assembleChain (previous : BlockId Hash) :
    List (WitnessId × Rest × List Tx) → List (SignedBlock Hash Rest Tx)
  | [] => []
  | (witness, rest, transactions) :: contents =>
      let block := digests.assemble previous witness rest transactions
      block :: assembleChain block.blockId contents

variable {digests}

theorem Identified.number (identified : digests.Identified block) :
    block.blockId.number = block.blockNum := by
  rw [identified]
  rfl

theorem Identified.previous_ne (identified : digests.Identified block) :
    block.previous ≠ block.blockId := by
  intro same
  have number := identified.number
  rw [← same] at number
  exact absurd number (Nat.ne_of_lt (Nat.lt_succ_self _))

theorem Identified.ne_default [Inhabited Hash] (identified : digests.Identified block) :
    block.blockId ≠ default := by
  intro isDefault
  have number := identified.number
  rw [isDefault] at number
  cases number

end Digests

/-- Hashes as terms: the hash of something says what has been hashed. -/
inductive SymbolicHash (Rest Tx : Type) where
  | zero
  | header (number : Nat) (previous : SymbolicHash Rest Tx)
      (witness : WitnessId) (merkleRoot : SymbolicHash Rest Tx) (rest : Rest)
  | merkleRoot (transactions : List Tx)
  | transactionId (tx : Tx)
  deriving DecidableEq, Repr

instance : Inhabited (SymbolicHash Rest Tx) where
  default := .zero

def Digests.symbolic : Digests (SymbolicHash Rest Tx) Rest Tx where
  header header :=
    .header header.previous.number header.previous.hash header.witness
      header.transactionMerkleRoot header.rest
  merkleRoot := .merkleRoot
  transactionId := .transactionId

variable [Inhabited Hash]

/-- The identifier of the newest block of a chain listed newest first. -/
def tipId : List (SignedBlock Hash Rest Tx) → BlockId Hash
  | [] => default
  | block :: _ => block.blockId

/-- A chain of blocks, newest first, that starts at the genesis state. -/
def Chained (digests : Digests Hash Rest Tx) : List (SignedBlock Hash Rest Tx) → Prop
  | [] => True
  | block :: older =>
      block.previous = tipId older ∧ digests.Identified block ∧ Chained digests older

namespace Chained

variable {digests : Digests Hash Rest Tx}

theorem tipId_number (chained : Chained digests chain) : (tipId chain).number = chain.length := by
  induction chain with
  | nil => rfl
  | cons block older induction =>
    obtain ⟨previous, identified, rest⟩ := chained
    calc
      block.blockId.number = block.previous.number + 1 := identified.number
      _ = (tipId older).number + 1 := by rw [previous]
      _ = older.length + 1 := by rw [induction rest]

theorem of_suffix (chained : Chained digests chain) (suffix : older <:+ chain) :
    Chained digests older := by
  induction chain with
  | nil =>
    rw [List.suffix_nil.mp suffix]
    trivial
  | cons block rest induction =>
    rcases List.suffix_cons_iff.mp suffix with rfl | within
    · exact chained
    · exact induction chained.2.2 within

end Chained

/-- The block numbered `number` of a chain listed newest first. -/
def blockAt (chain : List (SignedBlock Hash Rest Tx)) (number : Nat) :
    Option (SignedBlock Hash Rest Tx) :=
  if number = 0 then none else chain.reverse[number - 1]?

variable {chain : List (SignedBlock Hash Rest Tx)}

section

omit [Inhabited Hash]

theorem blockAt_of_suffix (suffix : older <:+ chain) (known : number ≤ older.length) :
    blockAt chain number = blockAt older number := by
  obtain ⟨_, rfl⟩ := suffix
  unfold blockAt
  split
  · rfl
  · rw [List.reverse_append, List.getElem?_append_left]
    rw [List.length_reverse]
    omega

theorem blockAt_next (newer older : List (SignedBlock Hash Rest Tx))
    (block : SignedBlock Hash Rest Tx) :
    blockAt (newer ++ block :: older) (older.length + 1) = some block := by
  unfold blockAt
  simp

theorem blockAt_le (found : blockAt chain number = some block) : number ≤ chain.length := by
  unfold blockAt at found
  split at found
  · cases found
  · have within := (List.getElem?_eq_some_iff.mp found).1
    rw [List.length_reverse] at within
    omega

end

theorem Chained.blockAt_number (chained : Chained digests chain)
    (found : blockAt chain number = some block) : block.blockId.number = number := by
  induction chain with
  | nil =>
    unfold blockAt at found
    split at found
    · cases found
    · cases found
  | cons newest older induction =>
    have within := blockAt_le found
    by_cases isNewest : number = older.length + 1
    · rw [isNewest] at found ⊢
      cases (blockAt_next [] older newest).symm.trans found
      exact chained.tipId_number
    · rw [blockAt_of_suffix (List.suffix_cons newest older)] at found
      · exact induction chained.2.2 found
      · rw [List.length_cons] at within
        omega

end CocosChain.Chain

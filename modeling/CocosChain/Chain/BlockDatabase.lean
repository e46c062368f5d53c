import CocosChain.Chain.Block

/-!
# The blocks on disk

Blocks are appended to one file; another file holds an entry for each block
number, which says where the block is and under which identifier it was
stored.  Storing a block overwrites the entry of the number in the identifier
it is stored under.  Reading a block back checks that the identifier it hashes
to is the one of its entry.
-/

namespace CocosChain.Chain

/-- How blocks are written to bytes and read back. -/
structure Packing (Hash Rest Tx Byte : Type) where
  pack : SignedBlock Hash Rest Tx → List Byte
  unpack : List Byte → Option (SignedBlock Hash Rest Tx)
  unpack_pack : ∀ block, unpack (pack block) = some block
  unpack_nil : unpack [] = none

/-- A file of blocks. -/
def Packing.whole {Hash Rest Tx : Type} : Packing Hash Rest Tx (SignedBlock Hash Rest Tx) where
  pack block := [block]
  unpack
    | [block] => some block
    | _ => none
  unpack_pack _ := rfl
  unpack_nil := rfl

structure IndexEntry (Hash : Type) where
  blockPos : Nat
  blockSize : Nat
  blockId : BlockId Hash
  deriving DecidableEq, Repr

/-- What a gap in the index file reads as. -/
instance {Hash : Type} [Inhabited Hash] : Inhabited (IndexEntry Hash) where
  default := ⟨0, 0, default⟩

structure BlockDatabase (Hash Byte : Type) where
  blockNumToPos : List (IndexEntry Hash)
  blocks : List Byte
  deriving DecidableEq, Repr

namespace BlockDatabase

variable {Hash Rest Tx Byte : Type} [DecidableEq Hash] [Inhabited Hash]

/-- Writing an entry past the end of the file leaves a gap. -/
def seekWrite (entries : List (IndexEntry Hash)) (number : Nat)
    (entry : IndexEntry Hash) : List (IndexEntry Hash) :=
  (entries ++ List.replicate (number + 1 - entries.length) default).set number entry

section

omit [DecidableEq Hash]

theorem seekWrite_same (entries : List (IndexEntry Hash)) (number : Nat) (entry : IndexEntry Hash) :
    (seekWrite entries number entry)[number]? = some entry := by
  apply List.getElem?_set_self
  rw [List.length_append, List.length_replicate]
  omega

end

variable (digests : Digests Hash Rest Tx) (packing : Packing Hash Rest Tx Byte)

def store (id : BlockId Hash) (block : SignedBlock Hash Rest Tx)
    (database : BlockDatabase Hash Byte) : BlockDatabase Hash Byte :=
  let id := if id = default then digests.makeId block.toSignedBlockHeader
    else id
  let bytes := packing.pack block
  { blockNumToPos := seekWrite database.blockNumToPos id.number
      { blockPos := database.blocks.length
        blockSize := bytes.length
        blockId := id }
    blocks := database.blocks ++ bytes }

theorem store_entry {id : BlockId Hash} (named : id ≠ default)
    (block : SignedBlock Hash Rest Tx) (database : BlockDatabase Hash Byte) :
    ∃ entry, (database.store digests packing id block).blockNumToPos[
        id.number]? = some entry ∧ entry.blockId = id := by
  unfold store
  rw [if_neg named]
  exact ⟨_, seekWrite_same _ _ _, rfl⟩

/-- Removing a block empties its entry. -/
def remove (id : BlockId Hash) (database : BlockDatabase Hash Byte) :
    Option (BlockDatabase Hash Byte) :=
  match database.blockNumToPos[id.number]? with
  | none => none
  | some entry =>
      if entry.blockId = id then
        some { database with
          blockNumToPos := seekWrite database.blockNumToPos id.number
            { entry with blockSize := 0 } }
      else some database

def contains (id : BlockId Hash) (database : BlockDatabase Hash Byte) : Bool :=
  if id = default then false
  else
    match database.blockNumToPos[id.number]? with
    | none => false
    | some entry => entry.blockId = id && 0 < entry.blockSize

def fetchBlockId (number : Nat) (database : BlockDatabase Hash Byte) : Option (BlockId Hash) :=
  if number = 0 then none
  else
    match database.blockNumToPos[number]? with
    | none => none
    | some entry =>
        if entry.blockId = default then none else some entry.blockId

/-- A read past the end of the file fails. -/
def read (database : BlockDatabase Hash Byte) (entry : IndexEntry Hash) :
    Option (SignedBlock Hash Rest Tx) :=
  if entry.blockPos + entry.blockSize ≤ database.blocks.length then
    match packing.unpack ((database.blocks.drop entry.blockPos).take entry.blockSize) with
    | none => none
    | some block =>
        if digests.makeId block.toSignedBlockHeader = entry.blockId then
          some block
        else none
  else none

def fetchOptional (id : BlockId Hash) (database : BlockDatabase Hash Byte) :
    Option (SignedBlock Hash Rest Tx) :=
  match database.blockNumToPos[id.number]? with
  | none => none
  | some entry =>
      if entry.blockId = id then database.read digests packing entry
      else none

def fetchByNumber (number : Nat) (database : BlockDatabase Hash Byte) :
    Option (SignedBlock Hash Rest Tx) :=
  match database.blockNumToPos[number]? with
  | none => none
  | some entry => database.read digests packing entry

/-- Only the entry numbered `slot` may have changed, and bytes may have been
appended. -/
structure Extends (slot : Nat) (before after : BlockDatabase Hash Byte) : Prop where
  longer : before.blockNumToPos.length ≤ after.blockNumToPos.length
  entries : ∀ number, number ≠ slot → number < before.blockNumToPos.length →
      after.blockNumToPos[number]? = before.blockNumToPos[number]?
  appended : before.blocks <+: after.blocks

namespace Extends

variable {before after : BlockDatabase Hash Byte}

section

omit [DecidableEq Hash] [Inhabited Hash]

theorem refl (slot : Nat) (database : BlockDatabase Hash Byte) : Extends slot database database :=
  ⟨le_rfl, fun _ _ _ => rfl, List.prefix_rfl⟩

theorem trans (first : Extends slot before middle)
    (second : Extends slot middle after) : Extends slot before after where
  longer := first.longer.trans second.longer
  entries number other known :=
    (second.entries number other (known.trans_le first.longer)).trans
      (first.entries number other known)
  appended := first.appended.trans second.appended

end

variable {id : BlockId Hash}

theorem store (named : id ≠ default) (block : SignedBlock Hash Rest Tx)
    (database : BlockDatabase Hash Byte) :
    Extends id.number database (database.store digests packing id block) := by
  unfold BlockDatabase.store
  rw [if_neg named]
  refine ⟨?_, ?_, List.prefix_append _ _⟩
  · unfold seekWrite
    rw [List.length_set, List.length_append]
    exact Nat.le_add_right _ _
  · intro number other known
    unfold seekWrite
    rw [List.getElem?_set_ne (Ne.symm other), List.getElem?_append_left known]

section

variable (extended : Extends slot before after)
include extended

omit [DecidableEq Hash] [Inhabited Hash] in
theorem entry (other : number ≠ slot) {entry : IndexEntry Hash}
    (known : before.blockNumToPos[number]? = some entry) :
    after.blockNumToPos[number]? = some entry := by
  rw [extended.entries number other (List.getElem?_eq_some_iff.mp known).1]
  exact known

theorem fetchBlockId (other : number ≠ slot) (found : before.fetchBlockId number = some id) :
    after.fetchBlockId number = some id := by
  unfold BlockDatabase.fetchBlockId at found ⊢
  split at found
  · cases found
  · rename_i positive
    rw [if_neg positive]
    split at found
    · cases found
    · rename_i entry known
      rw [extended.entry other known]
      exact found

variable {digests} {packing}

omit [Inhabited Hash]

theorem read {entry : IndexEntry Hash} (found : before.read digests packing entry = some block) :
    after.read digests packing entry = some block := by
  obtain ⟨_, appended⟩ := extended.appended
  unfold BlockDatabase.read at found ⊢
  split at found
  · have longer : entry.blockPos + entry.blockSize ≤ after.blocks.length := by
      rw [← appended, List.length_append]
      omega
    have same : (after.blocks.drop entry.blockPos).take entry.blockSize =
        (before.blocks.drop entry.blockPos).take entry.blockSize := by
      rw [← appended, List.drop_append_of_le_length (by omega), List.take_append_of_le_length]
      rw [List.length_drop]
      omega
    rw [if_pos longer, same]
    exact found
  · cases found

theorem fetchByNumber (other : number ≠ slot)
    (found : before.fetchByNumber digests packing number = some block) :
    after.fetchByNumber digests packing number = some block := by
  unfold BlockDatabase.fetchByNumber at found ⊢
  split at found
  · cases found
  · rename_i entry known
    rw [extended.entry other known]
    exact extended.read found

theorem fetchOptional (other : id.number ≠ slot)
    (found : before.fetchOptional digests packing id = some block) :
    after.fetchOptional digests packing id = some block := by
  unfold BlockDatabase.fetchOptional at found ⊢
  split at found
  · cases found
  · rename_i entry known
    rw [extended.entry other known]
    split at found
    · rename_i same
      dsimp only
      rw [if_pos same]
      exact extended.read found
    · cases found

end

end Extends

/-- Every block of the chain is found, by its number and by its identifier. -/
def Serves (chain : List (SignedBlock Hash Rest Tx)) (database : BlockDatabase Hash Byte) : Prop :=
  ∀ number block, blockAt chain number = some block →
    database.fetchBlockId number = some block.blockId ∧
      database.fetchByNumber digests packing number = some block ∧
      database.fetchOptional digests packing block.blockId = some block

variable {digests} {packing}

theorem Serves.extends (serves : Serves digests packing chain before)
    (chained : Chained digests chain) (above : chain.length < slot)
    (extended : Extends slot before after) : Serves digests packing chain after := by
  intro number block found
  obtain ⟨byId, byNumber, optional⟩ := serves number block found
  have other : number ≠ slot := Nat.ne_of_lt ((blockAt_le found).trans_lt above)
  refine ⟨extended.fetchBlockId other byId,
    extended.fetchByNumber other byNumber, extended.fetchOptional ?_ optional⟩
  rw [chained.blockAt_number found]
  exact other

end BlockDatabase

end CocosChain.Chain

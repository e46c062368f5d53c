import CocosChain.Chain.TransactionTraversal
import CocosChain.Library.HashTree

/-!
# What the identifier of a block commits to

A block holds its transactions with their results, each next to a hash.  The
identifier covers the header, the header the root, and the root the
transactions with all that they carry.  The hashes next to them are read by
nothing that a block has to pass, so the identifier does not determine them,
though who is told of a transaction is told of the hash next to it.
-/

namespace CocosChain.Chain

open Library SkipFlags

/-- A block with the hashes that stand next to its transactions.  The time of
the block is part of the header. -/
abbrev StoredBlock (Key Hash Rest : Type) :=
  SignedBlock Hash (Nat × Rest) (Hash × ProcessedTransaction Key)

/-- The digest functions that a block goes through. -/
structure BodyDigests (Key Hash Rest : Type) where
  header : SignedBlockHeader Hash (Nat × Rest) → Hash
  merkleDigest : ProcessedTransaction Key → Hash
  pairDigest : Hash → Hash → Hash
  checksum : Hash → Hash
  /-- `checksum_type()`, the root of no transactions. -/
  zero : Hash
  hash : Transaction Key → Hash

variable {Key Hash Id Rest ρ : Type}

namespace BodyDigests

variable (digests : BodyDigests Key Hash Rest)

def merkleRoot (transactions : List (Hash × ProcessedTransaction Key)) : Hash :=
  match collapse digests.pairDigest ((transactions.map Prod.snd).map digests.merkleDigest) with
  | [] => digests.zero
  | digest :: _ => digests.checksum digest

/-- The `for` loop of `calculate_merkle_root`. -/
def hashPairs (iMax : Nat) (ids : List Hash) (k i : Nat) : Option (List Hash × Nat) :=
  if i < iMax then do
    let first ← ids[i]?
    let second ← ids[i + 1]?
    hashPairs iMax (ids.set k (digests.pairDigest first second)) (k + 1) (i + 2)
  else some (ids, k)
termination_by iMax - i

/-- The `while` loop, for at most so many rounds. -/
def hashRounds : Nat → List Hash → Nat → Option (List Hash)
  | 0, ids, currentNumberOfHashes => if 1 < currentNumberOfHashes then none else some ids
  | rounds + 1, ids, currentNumberOfHashes =>
    if 1 < currentNumberOfHashes then do
      let iMax := currentNumberOfHashes - currentNumberOfHashes % 2
      let (ids, k) ← digests.hashPairs iMax ids 0 0
      if currentNumberOfHashes % 2 = 1 then
        let last ← ids[iMax]?
        hashRounds rounds (ids.set k last) (k + 1)
      else hashRounds rounds ids k
    else some ids

/-- The loops of the source on one array.  An access outside of it is `none`, and
so are rounds without an end. -/
def calculateMerkleRoot (transactions : List (Hash × ProcessedTransaction Key)) : Option Hash :=
  if transactions = [] then some digests.zero
  else do
    let ids := transactions.map fun stored => digests.merkleDigest stored.2
    let ids ← digests.hashRounds ids.length ids ids.length
    let root ← ids[0]?
    pure (digests.checksum root)

def toDigests : Digests Hash (Nat × Rest) (Hash × ProcessedTransaction Key) where
  header := digests.header
  merkleRoot := digests.merkleRoot
  transactionId stored := digests.hash stored.2.toTransaction

/-- Digests tell what has been hashed, transactions from pairs of digests and
something from nothing. -/
structure CollisionFree : Prop where
  header : Function.Injective digests.header
  merkleDigest : Function.Injective digests.merkleDigest
  pairDigest : Function.Injective2 digests.pairDigest
  checksum : Function.Injective digests.checksum
  apart : ∀ trx left right,
    digests.merkleDigest trx ≠ digests.pairDigest left right
  nonzero : ∀ digest, digests.checksum digest ≠ digests.zero

theorem merkleRoot_tree (nonempty : transactions ≠ []) :
    ∃ tree : HashTree (ProcessedTransaction Key),
    collapse .node ((transactions.map Prod.snd).map .leaf) = [tree] ∧
    collapse digests.pairDigest ((transactions.map Prod.snd).map digests.merkleDigest) =
      [tree.digest digests.merkleDigest digests.pairDigest] ∧
    digests.merkleRoot transactions =
      digests.checksum (tree.digest digests.merkleDigest digests.pairDigest) := by
  obtain ⟨tree, built, -, hashed⟩ := HashTree.collapse_eq_tree (mt List.map_eq_nil_iff.mp nonempty)
  refine ⟨tree, built, hashed, ?_⟩
  simp only [merkleRoot, hashed]

/-- The array holds the hashes so far, places that have been read, the hashes
that are still to be read, and what earlier rounds have left. -/
theorem hashPairs_eq (level done gap stale : List Hash) (writing : k = done.length)
    (reading : i = k + gap.length) (stop : iMax = i + (level.length - level.length % 2)) :
    ∃ front between last, front ++ last = pairUp digests.pairDigest level ∧
      last.length = level.length % 2 ∧ iMax = k + (front ++ between).length ∧
      digests.hashPairs iMax (done ++ (gap ++ (level ++ stale))) k i =
        some (done ++ (front ++ (between ++ (last ++ stale))), k + front.length) := by
  fun_induction pairUp digests.pairDigest level generalizing done gap k i with
  | case1 =>
    refine ⟨[], gap, [], rfl, rfl, stop.trans reading, ?_⟩
    rw [hashPairs, if_neg (by simp [stop])]
    rfl
  | case2 last =>
    refine ⟨[], gap, [last], rfl, rfl, stop.trans reading, ?_⟩
    rw [hashPairs, if_neg (by simp [stop])]
    rfl
  | case3 first second rest induction =>
    obtain ⟨read, length, written⟩ : ∃ read : List Hash, read.length = gap.length + 1 ∧
        ∀ hash, (gap ++ first :: second :: (rest ++ stale)).set 0 hash =
          hash :: (read ++ (rest ++ stale)) := by
      cases gap with
      | nil => exact ⟨[second], rfl, fun _ => rfl⟩
      | cons place gap => exact ⟨gap ++ [first, second], by simp, by simp⟩
    rw [List.length_cons, List.length_cons] at stop
    obtain ⟨front, between, last, up, odd, lengths, looped⟩ := @induction (k + 1) (i + 2)
      (done ++ [digests.pairDigest first second]) read (by simp [writing]) (by omega) (by omega)
    refine ⟨_ :: front, between, last, congrArg _ up, ?_, ?_, ?_⟩
    · rw [odd, List.length_cons, List.length_cons]
      omega
    · rw [lengths, List.cons_append, List.length_cons]
      omega
    · rw [hashPairs, if_pos (by omega)]
      subst writing reading
      simp only [List.cons_append, List.set_append_right _ _ (le_refl done.length),
        Nat.sub_self, written]
      simpa [List.getElem?_append_right, Nat.add_assoc, Nat.add_comm 1] using looped

theorem hashRounds_eq (level stale : List Hash) (enough : level.length ≤ rounds + 1) :
    ∃ left, digests.hashRounds rounds (level ++ stale) level.length =
      some ((pairUp digests.pairDigest)^[rounds] level ++ left) := by
  induction rounds generalizing level stale with
  | zero => exact ⟨stale, if_neg (by omega)⟩
  | succ rounds induction =>
    by_cases more : 1 < level.length
    · obtain ⟨_, between, last, up, odd, stop, looped⟩ :=
        digests.hashPairs_eq level [] [] stale rfl rfl rfl
      have shorter := length_pairUp digests.pairDigest level
      have next := induction (pairUp digests.pairDigest level)
      simp only [List.nil_append, List.length_nil, zero_add] at looped stop
      rw [stop] at looped
      simp only [hashRounds, if_pos more, stop, looped, Option.bind_eq_bind, Option.bind_some,
        Function.iterate_succ_apply]
      rw [← up] at next shorter ⊢
      rcases Nat.mod_two_eq_zero_or_one level.length with even | uneven
      · rw [even, List.length_eq_zero_iff] at odd
        subst odd
        rw [if_neg (by omega)]
        rw [List.append_nil] at next shorter ⊢
        exact next _ (by omega)
      · rw [uneven, List.length_eq_one_iff] at odd
        obtain ⟨last, rfl⟩ := odd
        obtain ⟨rest, kept⟩ : ∃ rest, (between ++ last :: stale).set 0 last = last :: rest := by
          cases between with
          | nil => exact ⟨_, rfl⟩
          | cons place between => exact ⟨_, rfl⟩
        rw [if_pos uneven]
        simpa [List.getElem?_append_right, kept] using next rest (by omega)
    · refine ⟨stale, ?_⟩
      rw [hashRounds, if_neg more, Function.iterate_fixed]
      match level with
      | [] => rfl
      | [last] => rfl
      | _ :: _ :: _ => simp at more

theorem calculateMerkleRoot_eq (transactions : List (Hash × ProcessedTransaction Key)) :
    digests.calculateMerkleRoot transactions = some (digests.merkleRoot transactions) := by
  by_cases empty : transactions = []
  · subst empty
    rfl
  · obtain ⟨_, -, collapsed, root⟩ := digests.merkleRoot_tree empty
    rw [List.map_map] at collapsed
    obtain ⟨_, hashed⟩ := digests.hashRounds_eq (transactions.map
      (digests.merkleDigest ∘ Prod.snd)) [] (Nat.le_succ _)
    rw [List.append_nil, ← collapse, collapsed] at hashed
    rw [root, calculateMerkleRoot, if_neg empty]
    exact congrArg (· >>= fun ids => ids[0]? >>= fun root => some (digests.checksum root)) hashed

variable {digests}

theorem merkleDigests_eq (pairs : Function.Injective2 digests.pairDigest)
    (sums : Function.Injective digests.checksum) (firstNonempty : first ≠ [])
    (secondNonempty : second ≠ []) (apart : ∀ stored ∈ first ++ second, ∀ left right,
      digests.merkleDigest stored.2 ≠ digests.pairDigest left right)
    (same : digests.merkleRoot first = digests.merkleRoot second) :
    (first.map Prod.snd).map digests.merkleDigest =
      (second.map Prod.snd).map digests.merkleDigest := by
  obtain ⟨_, -, collapsed, root⟩ := digests.merkleRoot_tree firstNonempty
  obtain ⟨_, -, otherCollapsed, otherRoot⟩ := digests.merkleRoot_tree secondNonempty
  obtain ⟨firstApart, secondApart⟩ := List.forall_mem_append.mp apart
  rw [root, otherRoot] at same
  rw [sums same, ← otherCollapsed] at collapsed
  refine HashTree.collapse_injective pairs ?_ ?_ (by simpa using firstNonempty)
    (by simpa using secondNonempty) collapsed
  · exact List.forall_mem_map.mpr (List.forall_mem_map.mpr firstApart)
  · exact List.forall_mem_map.mpr (List.forall_mem_map.mpr secondApart)

theorem CollisionFree.map_snd_eq (free : digests.CollisionFree)
    (same : digests.merkleRoot first = digests.merkleRoot second) :
    first.map Prod.snd = second.map Prod.snd := by
  by_cases firstEmpty : first = []
  · by_cases secondEmpty : second = []
    · rw [firstEmpty, secondEmpty]
    · obtain ⟨tree, -, -, root⟩ := digests.merkleRoot_tree secondEmpty
      rw [root, firstEmpty] at same
      exact absurd same.symm (free.nonzero _)
  · by_cases secondEmpty : second = []
    · obtain ⟨_, -, -, root⟩ := digests.merkleRoot_tree firstEmpty
      rw [root, secondEmpty] at same
      exact absurd same (free.nonzero _)
    · exact List.map_injective_iff.mpr free.merkleDigest (merkleDigests_eq free.pairDigest
        free.checksum firstEmpty secondEmpty (fun stored _ => free.apart stored.2) same)

theorem calculateMerkleRoot_tree (digests : BodyDigests Key Hash Rest) :
    digests.calculateMerkleRoot [] = some digests.zero ∧
    (∀ transactions : List (Hash × ProcessedTransaction Key), transactions ≠ [] →
      ∃ tree : HashTree (ProcessedTransaction Key),
        collapse .node ((transactions.map Prod.snd).map .leaf) = [tree] ∧
        digests.calculateMerkleRoot transactions =
          some (digests.checksum (tree.digest digests.merkleDigest digests.pairDigest))) ∧
    (Function.Injective2 digests.pairDigest → Function.Injective digests.checksum →
      ∀ first second : List (Hash × ProcessedTransaction Key), first ≠ [] → second ≠ [] →
        (∀ stored ∈ first ++ second, ∀ left right,
          digests.merkleDigest stored.2 ≠ digests.pairDigest left right) →
        digests.calculateMerkleRoot first = digests.calculateMerkleRoot second →
        (first.map Prod.snd).map digests.merkleDigest =
          (second.map Prod.snd).map digests.merkleDigest ∧ first.length = second.length) := by
  refine ⟨rfl, ?_, ?_⟩
  · intro transactions nonempty
    obtain ⟨tree, built, -, root⟩ := digests.merkleRoot_tree nonempty
    exact ⟨tree, built, by rw [digests.calculateMerkleRoot_eq, root]⟩
  · intro pairs sums first second firstNonempty secondNonempty apart same
    rw [digests.calculateMerkleRoot_eq, digests.calculateMerkleRoot_eq] at same
    have equal := merkleDigests_eq pairs sums firstNonempty secondNonempty apart
      (Option.some.inj same)
    exact ⟨equal, by simpa using congrArg List.length equal⟩

/-- Next to each transaction stands its own hash, as `_generate_block` stores
it. -/
def StoresHashes (digests : BodyDigests Key Hash Rest) (block : StoredBlock Key Hash Rest) : Prop :=
  ∀ stored ∈ block.transactions, stored.1 = digests.hash stored.2.toTransaction

theorem StoresHashes.eq_map (stores : digests.StoresHashes block) :
    block.transactions = (block.transactions.map Prod.snd).map fun trx =>
      (digests.hash trx.toTransaction, trx) := by
  rw [List.map_map]
  refine (List.map_id _).symm.trans (List.map_congr_left fun stored member => ?_)
  exact Prod.ext (stores stored member) rfl

end BodyDigests

namespace StoredBlock

def processed (block : StoredBlock Key Hash Rest) : ProcessedBlock Key Hash where
  blockId := block.blockId
  previous := block.previous
  timestamp := block.rest.1
  witness := block.witness
  transactions := block.transactions.map Prod.snd

end StoredBlock

variable [LinearOrder Key] [DecidableEq Hash] [DecidableEq Id]

/-- `_apply_block` on the block as it is stored. -/
def BlockEnvironment.applyStored (env : BlockEnvironment Key Hash Id ρ)
    (digests : BodyDigests Key Hash Rest) (skip : SkipFlags)
    (block : StoredBlock Key Hash Rest) (state : ChainState Key Hash Id ρ) :
    Except (BlockFault Key) (ChainState Key Hash Id ρ) :=
  BlockEnvironment.applyBlock
    { env with
      merkleValid := fun _ => block.transactionMerkleRoot =
        digests.toDigests.calculateMerkleRoot block }
    skip block.processed state

variable {env : BlockEnvironment Key Hash Id ρ} {digests : BodyDigests Key Hash Rest}
variable {first second : StoredBlock Key Hash Rest}

theorem applyStored_merkleRoot (checked : skip.skips skipMerkleCheck = false)
    (accepted : env.applyStored digests skip first state = .ok next) :
    first.transactionMerkleRoot = digests.merkleRoot first.transactions := by
  have valid := (BlockEnvironment.applyBlock_eq_ok.mp accepted).1
  rw [checked, Bool.false_or, decide_eq_true_eq] at valid
  exact valid

/-- Blocks with one identifier have the same transactions, whatever states
they are accepted in.  They agree on the hashes next to them, and these are
those of the transactions, exactly if each block has been given these; for a
block with the same transactions is as good as any other, whatever hashes
stand next to them. -/
theorem blockId_commits_to_processed (free : digests.CollisionFree)
    (firstIdentified : digests.toDigests.Identified first)
    (secondIdentified : digests.toDigests.Identified second) (same : first.blockId = second.blockId)
    {skip : SkipFlags} {state next : ChainState Key Hash Id ρ}
    (checked : skip.skips skipMerkleCheck = false)
    (accepted : env.applyStored digests skip first state = .ok next) :
    (∀ skip state next, skip.skips skipMerkleCheck = false →
      env.applyStored digests skip second state = .ok next →
        first.transactions.map Prod.snd = second.transactions.map Prod.snd ∧
        (first.transactions = second.transactions ∧ digests.StoresHashes first ↔
          digests.StoresHashes first ∧ digests.StoresHashes second)) ∧
    (first.transactions.map Prod.snd = second.transactions.map Prod.snd →
      ∀ skip state, env.applyStored digests skip second state =
        env.applyStored digests skip first state) := by
  have header : first.toSignedBlockHeader = second.toSignedBlockHeader := by
    rw [firstIdentified, secondIdentified] at same
    exact free.header (congrArg BlockId.hash same)
  constructor
  · intro otherSkip otherState otherNext otherChecked otherAccepted
    have transactions : first.transactions.map Prod.snd = second.transactions.map Prod.snd := by
      apply free.map_snd_eq
      rw [← applyStored_merkleRoot checked accepted, header,
        applyStored_merkleRoot otherChecked otherAccepted]
    refine ⟨transactions, ?_⟩
    constructor
    · rintro ⟨equal, stores⟩
      exact ⟨stores, fun stored member => stores stored (equal ▸ member)⟩
    · rintro ⟨stores, alsoStores⟩
      refine ⟨?_, stores⟩
      rw [stores.eq_map, alsoStores.eq_map, transactions]
  · intro transactions otherSkip otherState
    have processed : second.processed = first.processed := by
      unfold StoredBlock.processed
      rw [← header, ← same, transactions]
    have root : digests.toDigests.calculateMerkleRoot second =
        digests.toDigests.calculateMerkleRoot first := by
      change digests.merkleRoot _ = digests.merkleRoot _
      unfold BodyDigests.merkleRoot
      rw [transactions]
    unfold BlockEnvironment.applyStored
    rw [processed, ← header, root]

deriving instance DecidableEq for SignedTransaction, ProcessedTransaction

/-- Hashes that say what has been hashed. -/
inductive BodyHash where
  | zero
  | transaction (trx : Transaction Nat)
  | processed (trx : ProcessedTransaction Nat)
  | pair (left right : BodyHash)
  | checksum (digest : BodyHash)
  | header (number : Nat) (previous : BodyHash) (witness : WitnessId)
      (root : BodyHash) (timestamp : Nat)
  deriving DecidableEq

def bodyDigests : BodyDigests Nat BodyHash Unit where
  header header := .header header.previous.number header.previous.hash
    header.witness header.transactionMerkleRoot header.rest.1
  merkleDigest := .processed
  pairDigest := .pair
  checksum := .checksum
  zero := .zero
  hash := .transaction

theorem bodyDigests_collisionFree : bodyDigests.CollisionFree where
  header := by
    rintro ⟨⟨_, hash⟩, _, _, _, ⟨⟩⟩
      ⟨⟨otherNumber, otherHash⟩, otherWitness, otherRoot, otherTimestamp, ⟨⟩⟩ same
    cases same
    rfl
  merkleDigest := fun _ _ same => BodyHash.processed.inj same
  pairDigest := fun _ _ _ _ same => BodyHash.pair.inj same
  checksum := fun _ _ same => BodyHash.checksum.inj same
  apart := nofun
  nonzero := nofun

/-- Operations do nothing, and headers are valid. -/
def bodyChain : BlockEnvironment Nat BodyHash BodyHash Unit where
  digest := .transaction
  transactionId hash := hash
  packSize _ := 1
  opMaxsizeProportionPercent := none
  operationValidate _ := true
  getSignatureKeys _ := some []
  reread cells _ := cells
  evaluate _ _ world := .ok (⟨.void, 0⟩, world)
  headerHash _ := .zero
  merkleValid _ := true
  witnessExists _ _ := true
  signeeValid _ _ := true
  witnessScheduled _ _ _ := true
  undoHistoryFits _ _ := true
  upkeep _ world := some world
  summaryPrefix _ := 0

def bodyGenesis : ChainState Nat BodyHash BodyHash Unit where
  headBlockNum := 0
  headBlockId := ⟨0, .zero⟩
  headBlockTime := 0
  blockSummaries := fun _ => 0
  transactions := []
  transactionInfos := []
  world := .numbered ()

def bodyTransfer : ProcessedTransaction Nat := blankTransaction 20 (.transfer 7 [])

theorem calculateMerkleRoot_tree_transfers : bodyDigests.calculateMerkleRoot
    [(.zero, bodyTransfer)] ≠ bodyDigests.calculateMerkleRoot
      [(.zero, bodyTransfer), (.zero, bodyTransfer)] := by
  intro same
  have lengths := (bodyDigests.calculateMerkleRoot_tree.2.2 bodyDigests_collisionFree.pairDigest
    bodyDigests_collisionFree.checksum _ _ (by simp) (by simp)
    (fun stored _ => bodyDigests_collisionFree.apart stored.2) same).2
  cases lengths

/-- A block with one transfer, and a hash next to it. -/
def bodyBlock (stored : BodyHash) : StoredBlock Nat BodyHash Unit :=
  bodyDigests.toDigests.assemble ⟨0, .zero⟩ 0 (5, ()) [(stored, bodyTransfer)]

/-- The transfer is the same, and so is what comes of the block; but the hash
next to it is another. -/
theorem blockId_commits_to_transfer :
    (bodyBlock (.transaction bodyTransfer.toTransaction)).transactions ≠
      (bodyBlock .zero).transactions ∧
    ∃ next, bodyChain.applyStored bodyDigests skipNothing
      (bodyBlock .zero) bodyGenesis = .ok next := by
  obtain ⟨next, accepted⟩ : ∃ next, bodyChain.applyStored bodyDigests skipNothing
      (bodyBlock (.transaction bodyTransfer.toTransaction)) bodyGenesis = .ok next := ⟨_, rfl⟩
  have identified (stored : BodyHash) : bodyDigests.toDigests.Identified (bodyBlock stored) := rfl
  obtain ⟨commits, same⟩ := blockId_commits_to_processed bodyDigests_collisionFree
    (identified (.transaction bodyTransfer.toTransaction)) (identified .zero) rfl rfl accepted
  have alsoAccepted := (same rfl _ _).trans accepted
  refine ⟨fun equal => ?_, next, alsoAccepted⟩
  have stores : bodyDigests.StoresHashes (bodyBlock (.transaction bodyTransfer.toTransaction)) := by
    rintro _ (_ | ⟨_, ⟨⟩⟩)
    rfl
  have wrong := ((commits _ _ _ rfl alsoAccepted).2.mp ⟨equal, stores⟩).2 _ List.mem_cons_self
  cases wrong

/-- The second hash is not that of the transfer, and the two blocks are
accepted all the same. -/
theorem stored_hashes_not_bound : bodyDigests.CollisionFree ∧
    ∃ first second : StoredBlock Nat BodyHash Unit, first.blockId = second.blockId ∧
      bodyDigests.toDigests.Identified first ∧
      bodyDigests.toDigests.Identified second ∧
      (∃ next, bodyChain.applyStored bodyDigests skipNothing first
        bodyGenesis = .ok next) ∧
      (∃ next, bodyChain.applyStored bodyDigests skipNothing second
        bodyGenesis = .ok next) ∧
      first.transactions ≠ second.transactions ∧
      ∀ stored ∈ second.transactions, stored.1 ≠ bodyDigests.hash stored.2.toTransaction := by
  refine ⟨bodyDigests_collisionFree,
    bodyBlock (.transaction bodyTransfer.toTransaction), bodyBlock .zero,
    rfl, rfl, rfl, ⟨_, rfl⟩, ⟨_, rfl⟩, ?_, ?_⟩
  · decide
  · decide

end CocosChain.Chain

import CocosChain.Chain.TransactionTraversal
import Mathlib.Data.Nat.Log

/-!
# Candidates for a block

`_generate_block` collects pending transactions up to the size of a block, by
their sizes as they are pending.  `_try_apply_block` then applies them one by
one; those that go through make up the block, with their hashes and the results
that they have had.
-/

namespace CocosChain.Chain

open SkipFlags

/-- The sizes of what is packed. -/
structure PackSizes (Key : Type) where
  /-- That of a default header, and four bytes. -/
  maxBlockHeaderSize : Nat
  headerSize : Nat
  hashSize : Nat
  trxSize : ProcessedTransaction Key → Nat

variable {Key Hash Id ρ : Type}

namespace PackSizes

variable (sizes : PackSizes Key)

/-- The number of transactions takes seven bits a byte. -/
def blockSize (trxs : List (ProcessedTransaction Key)) : Nat :=
  sizes.headerSize + (Nat.log 128 trxs.length + 1) +
    (trxs.map fun trx => sizes.hashSize + sizes.trxSize trx).sum

variable (state : ChainState Key Hash Id ρ)

/-- The reference block and the expiration are all that is checked. -/
def passes (skip : SkipFlags) (trx : ProcessedTransaction Key) : Bool :=
  (checkTimes skip trx.toSignedTransaction state.world.parameters state).isOk

/-- The loop of `_generate_block`, with the flags that it ends with. -/
def candidates (skip : SkipFlags) (size : Nat) : List (ProcessedTransaction Key) →
      List (ProcessedTransaction Key) × SkipFlags
  | [] => ([], skip)
  | trx :: pending =>
      if state.world.parameters.maximumBlockSize ≤ size + sizes.trxSize trx
      then ([], skip)
      else
        -- the flags stay like this for the transactions that follow
        let skip := if trx.sharesFee then shareFlag else skip
        if passes state skip trx then
          let (others, last) := candidates skip (size + sizes.trxSize trx) pending
          (trx :: others, last)
        else candidates skip size pending

def addedSkip (deduceInVerificationMode : Bool) : SkipFlags :=
  (if deduceInVerificationMode then skipAuthorityCheck else 0) |||
    skipMerkleCheck ||| skipWitnessSignature

/-- The flags that `validate_block` gets. -/
def passedOn (deduceInVerificationMode : Bool) (skip : SkipFlags) : SkipFlags :=
  skip ||| addedSkip deduceInVerificationMode

/-- The transactions that fit if each of them is judged for itself. -/
def fitting (skip : SkipFlags) (size : Nat) :
    List (ProcessedTransaction Key) → List (ProcessedTransaction Key)
  | [] => []
  | trx :: pending =>
      if state.world.parameters.maximumBlockSize ≤ size + sizes.trxSize trx
      then []
      else trx :: fitting skip
        (if passes state skip trx then size + sizes.trxSize trx else size)
        pending

variable {sizes} {state}

theorem candidates_shared (pending : List (ProcessedTransaction Key)) :
    (sizes.candidates state shareFlag size pending).2 = shareFlag := by
  induction pending generalizing size with
  | nil => rfl
  | cons trx pending induction =>
    simp only [candidates, ite_self]
    split_ifs
    · rfl
    · exact induction
    · exact induction

theorem candidates_of_none_shares
    (none : ∀ trx ∈ sizes.fitting state skip size pending, trx.sharesFee = false) :
    sizes.candidates state skip size pending =
      ((sizes.fitting state skip size pending).filter (passes state skip), skip) := by
  induction pending generalizing size with
  | nil => rfl
  | cons trx pending induction =>
    simp only [candidates, fitting] at none ⊢
    split_ifs at none ⊢ <;> simp_all

theorem candidates_of_shares (fits : trx ∈ sizes.fitting state skip size pending)
    (shares : trx.sharesFee = true) : (sizes.candidates state skip size pending).2 = shareFlag := by
  induction pending generalizing size with
  | nil => cases fits
  | cons first pending induction =>
    by_cases full : state.world.parameters.maximumBlockSize ≤ size + sizes.trxSize first
    · simp [fitting, full] at fits
    simp only [candidates, fitting, if_neg full, List.mem_cons] at fits ⊢
    cases head : first.sharesFee with
    | true =>
      simp only [if_true]
      split_ifs
      · exact candidates_shared pending
      · exact candidates_shared pending
    | false =>
      have later := fits.resolve_left fun same => by simp [same, head] at shares
      simp only [Bool.false_eq_true, if_false]
      split_ifs at later ⊢
      · exact induction later
      · exact induction later

theorem candidates_of_same (same : passes state current = passes state skip)
    (shared : passes state shareFlag = passes state skip) :
    (sizes.candidates state current size pending).1 =
      (sizes.fitting state skip size pending).filter (passes state skip) := by
  induction pending generalizing size current with
  | nil => rfl
  | cons trx pending induction =>
    have next : passes state (if trx.sharesFee then shareFlag else current) =
        passes state skip := by
      split_ifs
      · exact shared
      · exact same
    simp only [candidates, fitting]
    generalize (if trx.sharesFee then shareFlag else current) = after at next ⊢
    simp only [next]
    split_ifs with full passed
    · rfl
    · simp [passed, induction next]
    · simp [passed, induction next]

theorem passes_of_passedOn (same : passedOn deduced skip = passedOn deduced shareFlag) :
    passes state shareFlag = passes state skip := by
  have shared : shareFlag.skips skipTaposCheck = true := by decide
  have added : (addedSkip deduced).skips skipTaposCheck = false := by
    cases deduced <;> decide
  have flags := congrArg (SkipFlags.skips · skipTaposCheck) same
  simp only [passedOn, skips_or, added, shared, Bool.or_false] at flags
  funext trx
  simp only [passes, checkTimes, flags, shared]

/-- Every transaction is judged for itself, and the flags are those of the node,
exactly if the flags of a shared fee are passed on anyway or none that fits
shares a fee. -/
theorem candidates_independent_iff (sizes : PackSizes Key) (state : ChainState Key Hash Id ρ)
    (deduced : Bool) (skip : SkipFlags) (pending : List (ProcessedTransaction Key)) :
    ((sizes.candidates state skip sizes.maxBlockHeaderSize pending).1 =
        (sizes.fitting state skip sizes.maxBlockHeaderSize pending).filter (passes state skip) ∧
      passedOn deduced (sizes.candidates state skip sizes.maxBlockHeaderSize pending).2 =
        passedOn deduced skip) ↔
    passedOn deduced skip = passedOn deduced shareFlag ∨
      ∀ trx ∈ sizes.fitting state skip sizes.maxBlockHeaderSize pending, trx.sharesFee = false := by
  constructor
  · rintro ⟨-, flags⟩
    by_cases none : ∀ trx ∈ sizes.fitting state skip sizes.maxBlockHeaderSize pending,
        trx.sharesFee = false
    · exact .inr none
    · push Not at none
      obtain ⟨trx, fits, shares⟩ := none
      rw [candidates_of_shares fits (by simpa using shares)] at flags
      exact .inl flags.symm
  · rintro (same | none)
    · refine ⟨candidates_of_same rfl (passes_of_passedOn same), ?_⟩
      by_cases none : ∀ trx ∈ sizes.fitting state skip sizes.maxBlockHeaderSize pending,
          trx.sharesFee = false
      · rw [candidates_of_none_shares none]
      · push Not at none
        obtain ⟨_, fits, shares⟩ := none
        rw [candidates_of_shares fits (by simpa using shares), same]
    · rw [candidates_of_none_shares none]
      exact ⟨rfl, rfl⟩

/-- Behind a transaction that shares a fee, one with a wrong reference block is
taken, and the signatures are not checked. -/
theorem candidates_not_independent :
    let sizes : PackSizes Nat := ⟨10, 10, 32, fun _ => 1⟩
    let state := { blankGenesis 0 () with
      headBlockNum := 1
      blockSummaries := fun _ => 5 }
    let share := blankTransaction 9 (.contractShareFee 7 [])
    let late := blankTransaction 9 (.transfer 7 [])
    (sizes.candidates state 0 10 [late]).1.length = 0 ∧
      (sizes.candidates state 0 10 [share, late]).1.length = 2 ∧
      passedOn false (sizes.candidates state 0 10 [late]).2 ≠
        passedOn false (sizes.candidates state 0 10 [share, late]).2 := by
  decide +kernel

variable [LinearOrder Key] [DecidableEq Hash] [DecidableEq Id]
  (env : Environment Key Hash Id ρ) (sizes)

/-- The candidates are applied in turn until the block counts as full.  Only
`fc::exception` makes the loop go on with the next one. -/
def applyCandidates (skip : SkipFlags) (blockNum maximum : Nat)
    (full : List (ProcessedTransaction Key) → Bool) :
    List (ProcessedTransaction Key) → List (ProcessedTransaction Key) → ChainState Key Hash Id ρ →
      Except (TransactionFault Key) (List (ProcessedTransaction Key))
  | [], included, _ => .ok included
  | trx :: rest, included, state =>
      if full included then .ok included
      else
        match env.applyTransaction skip .productionBlock false
            ⟨blockNum, included.length⟩ trx state with
        | .error (.operationFailed .foreign) =>
            .error (.operationFailed .foreign)
        | .error _ =>
            applyCandidates skip blockNum maximum full rest included state
        | .ok applied =>
            if !skip.skips skipBlockSizeCheck &&
                maximum < sizes.hashSize + sizes.trxSize applied.trx then
              applyCandidates skip blockNum maximum full rest included state
            else
              applyCandidates skip blockNum maximum full rest
                (included ++ [applied.trx]) applied.state

/-- `_generate_block` and `_try_apply_block`, which is stopped after a number of
candidates if it takes too long. -/
def produce (deduced : Bool) (skip : SkipFlags) (blockNum tried : Nat)
    (full : List (ProcessedTransaction Key) → Bool) (pending : List (ProcessedTransaction Key))
    (state : ChainState Key Hash Id ρ) :
    Except (TransactionFault Key) (List (ProcessedTransaction Key)) :=
  let (trxs, skip) := sizes.candidates state skip sizes.maxBlockHeaderSize pending
  sizes.applyCandidates env (passedOn deduced skip) blockNum
    state.world.parameters.maximumBlockSize full (trxs.take tried) [] state

variable {env sizes}

/-- The size of transactions of the given sizes, with their hashes. -/
def hashedSize (sizes : PackSizes Key) (size : ProcessedTransaction Key → Nat)
    (trxs : List (ProcessedTransaction Key)) : Nat :=
  (trxs.map fun trx => sizes.hashSize + size trx).sum

/-- The size of a block if its transactions have the given sizes. -/
def sizeWith (sizes : PackSizes Key) (size : ProcessedTransaction Key → Nat)
    (trxs : List (ProcessedTransaction Key)) : Nat :=
  sizes.headerSize + (Nat.log 128 trxs.length + 1) + sizes.hashedSize size trxs

/-- The sizes that transactions have once they are applied, whatever results
they have had. -/
def Bounded (sizes : PackSizes Key) (env : Environment Key Hash Id ρ)
    (largest : ProcessedTransaction Key → Nat) (pending : List (ProcessedTransaction Key)) : Prop :=
  ∀ trx ∈ pending, ∀ skip position state applied,
    env.applyTransaction skip .productionBlock false position trx state = .ok applied →
      sizes.trxSize applied.trx ≤ largest trx

/-- Whichever of the pending transactions the first loop takes, by their sizes
as they are pending, they fit with their hashes and results. -/
def RoomForResults (sizes : PackSizes Key) (maximum : Nat)
    (largest : ProcessedTransaction Key → Nat) (pending : List (ProcessedTransaction Key)) : Prop :=
  ∀ trxs, trxs.Sublist pending →
    sizes.maxBlockHeaderSize + (trxs.map sizes.trxSize).sum < maximum →
      sizes.sizeWith largest trxs ≤ maximum

/-- Each of the transactions goes through in any state and has the size then. -/
def GoThrough (sizes : PackSizes Key) (env : Environment Key Hash Id ρ) (maximum : Nat)
    (largest : ProcessedTransaction Key → Nat) (pending : List (ProcessedTransaction Key)) : Prop :=
  ∀ trx ∈ pending, ∀ skip position state, ∃ applied,
    env.applyTransaction skip .productionBlock false position trx state = .ok applied ∧
      sizes.trxSize applied.trx = largest trx ∧ sizes.hashSize + largest trx ≤ maximum

omit [LinearOrder Key] [DecidableEq Hash] [DecidableEq Id] in
theorem candidates_sublist (pending : List (ProcessedTransaction Key)) :
    (sizes.candidates state skip size pending).1.Sublist pending := by
  induction pending generalizing size skip with
  | nil => exact .slnil
  | cons trx pending induction =>
    simp only [candidates]
    generalize (if trx.sharesFee then shareFlag else skip) = skip
    split_ifs
    · exact List.nil_sublist _
    · exact induction.cons_cons trx
    · exact induction.cons trx

omit [LinearOrder Key] [DecidableEq Hash] [DecidableEq Id] in
theorem candidates_fit (pending : List (ProcessedTransaction Key)) :
    (sizes.candidates state skip size pending).1 = [] ∨
      size + ((sizes.candidates state skip size pending).1.map sizes.trxSize).sum <
        state.world.parameters.maximumBlockSize := by
  induction pending generalizing size skip with
  | nil => exact .inl rfl
  | cons trx pending induction =>
    simp only [candidates]
    generalize (if trx.sharesFee then shareFlag else skip) = skip
    split_ifs with full
    · exact .inl rfl
    · right
      rcases @induction skip (size + sizes.trxSize trx) with none | fits
      · simpa [none] using full
      · simp only [List.map_cons, List.sum_cons]
        omega
    · exact induction

/-- What goes through is some of the candidates, with results. -/
theorem applyCandidates_sizes (bounded : sizes.Bounded env largest trxs)
    (applied : sizes.applyCandidates env skip blockNum maximum full trxs included state =
      .ok last) : ∃ taken, taken.Sublist trxs ∧ last.length = included.length + taken.length ∧
      sizes.hashedSize sizes.trxSize last ≤
        sizes.hashedSize sizes.trxSize included + sizes.hashedSize largest taken := by
  induction trxs generalizing included state with
  | nil =>
    cases applied
    exact ⟨[], .slnil, rfl, Nat.le_refl _⟩
  | cons trx rest induction =>
    have later : sizes.Bounded env largest rest := fun other member =>
      bounded other (List.mem_cons_of_mem _ member)
    simp only [applyCandidates] at applied
    split at applied
    · cases applied
      exact ⟨[], List.nil_sublist _, rfl, Nat.le_refl _⟩
    · split at applied
      · cases applied
      · obtain ⟨taken, sublist, sum⟩ := induction later applied
        exact ⟨taken, sublist.cons trx, sum⟩
      · rename_i result done
        split at applied
        · obtain ⟨taken, sublist, sum⟩ := induction later applied
          exact ⟨taken, sublist.cons trx, sum⟩
        · obtain ⟨taken, sublist, count, sum⟩ := induction later applied
          have size := bounded trx List.mem_cons_self _ _ _ _ done
          refine ⟨trx :: taken, sublist.cons_cons trx, ?_, ?_⟩
          · simp only [List.length_append, List.length_cons, List.length_nil] at count ⊢
            omega
          · simp only [hashedSize, List.map_append, List.sum_append, List.map_cons,
              List.sum_cons, List.map_nil, List.sum_nil] at sum ⊢
            omega

/-- If every candidate goes through, the block has all of them or is too large
already. -/
theorem applyCandidates_all (through : sizes.GoThrough env maximum largest trxs)
    (applied : sizes.applyCandidates env skip blockNum maximum
      (fun included => maximum < sizes.blockSize included) trxs included state = .ok last) :
    maximum < sizes.blockSize last ∨ last.length = included.length + trxs.length ∧
      sizes.hashedSize sizes.trxSize last =
        sizes.hashedSize sizes.trxSize included + sizes.hashedSize largest trxs := by
  induction trxs generalizing included state with
  | nil =>
    cases applied
    exact .inr ⟨rfl, rfl⟩
  | cons trx rest induction =>
    obtain ⟨result, done, size, alone⟩ := through trx List.mem_cons_self skip
      ⟨blockNum, included.length⟩ state
    have small : ¬maximum < sizes.hashSize + sizes.trxSize result.trx := by omega
    simp only [applyCandidates, done, small, decide_false, Bool.and_false, Bool.false_eq_true,
      if_false] at applied
    split at applied
    · rename_i full
      cases applied
      exact .inl (of_decide_eq_true full)
    · refine (induction (fun other member => through other (List.mem_cons_of_mem _ member))
        applied).imp_right ?_
      rintro ⟨count, sum⟩
      simp only [hashedSize, List.length_append, List.length_cons, List.length_nil, List.map_append,
        List.sum_append, List.map_cons, List.sum_cons, List.map_nil, List.sum_nil] at count sum ⊢
      omega

omit [LinearOrder Key] [DecidableEq Hash] [DecidableEq Id] in
theorem candidates_all (passing : ∀ trx ∈ pending, ∀ skip, passes state skip trx = true)
    (fits : size + (pending.map sizes.trxSize).sum < state.world.parameters.maximumBlockSize) :
    (sizes.candidates state skip size pending).1 = pending := by
  induction pending generalizing size skip with
  | nil => rfl
  | cons trx pending induction =>
    rw [List.map_cons, List.sum_cons] at fits
    simp only [candidates, passing trx List.mem_cons_self, if_true]
    rw [if_neg (by omega)]
    simp only [List.cons.injEq, true_and]
    exact induction (fun other member => passing other (List.mem_cons_of_mem _ member)) (by omega)

/-- An operation may take the whole block. -/
def roomyChain : Environment Nat (Transaction Nat) (Transaction Nat) Unit :=
  { (blankChain Unit).toEnvironment with
    packSize := fun _ => 400
    opMaxsizeProportionPercent := some 100 }

def twoTransfers : List (ProcessedTransaction Nat) :=
  [blankTransaction 9 (.transfer 7 []), blankTransaction 8 (.transfer 7 [])]

/-- Headers of ten bytes, hashes of 32, and transactions of one size. -/
def alike (size : Nat) : PackSizes Nat := ⟨10, 10, 32, fun _ => size⟩

end PackSizes

end CocosChain.Chain

import CocosChain.Chain.History

/-!
# The last irreversible block

The number confirmed by the witness at a fixed place of the sorted list is
confirmed by every witness from there on, which are seven out of ten.  A number
that a witness has confirmed is that of a block they have signed, so the last
irreversible block always has that many active witnesses behind it.
-/

namespace CocosChain.Chain.Objects

variable {Hash Rest Tx Byte σ : Type} {digests : Digests Hash Rest Tx}

theorem length_sub_le_countP {numbers : List Nat}
    (sorted : numbers.Pairwise (· ≤ ·)) (found : numbers[place]? = some number) :
    numbers.length - place ≤ numbers.countP (number ≤ ·) := by
  have above : ∀ other ∈ numbers.drop place, number ≤ other := by
    obtain ⟨within, rfl⟩ := List.getElem?_eq_some_iff.mp found
    have later := sorted.sublist (List.drop_sublist place numbers)
    rw [List.drop_eq_getElem_cons within] at later ⊢
    exact List.forall_mem_cons.mpr ⟨le_rfl, fun _ => List.rel_of_pairwise_cons later⟩
  calc numbers.length - place = (numbers.drop place).countP (number ≤ ·) := by
        rw [List.countP_eq_length.mpr, List.length_drop]
        simpa using above
    _ ≤ numbers.countP (number ≤ ·) := (List.drop_sublist place numbers).countP_le

/-- Seven out of ten of the witnesses have confirmed a block that is not below
`number`. -/
def Backed (lastConfirmedBlockNum : WitnessId → Nat)
    (witnesses : List WitnessId) (number : Nat) : Prop :=
  7 * witnesses.length ≤ 10 * witnesses.countP (number ≤ lastConfirmedBlockNum ·)

theorem updateLastIrreversibleBlock_backed (objects : Objects Hash Rest Tx σ)
    (raised : objects.lastIrreversibleBlockNum <
      objects.updateLastIrreversibleBlock.lastIrreversibleBlockNum) :
    Backed objects.lastConfirmedBlockNum objects.activeWitnesses
      objects.updateLastIrreversibleBlock.lastIrreversibleBlockNum := by
  unfold updateLastIrreversibleBlock at raised ⊢
  dsimp only at raised ⊢
  split
  · rename_i missing
    rw [missing] at raised
    exact absurd raised (lt_irrefl _)
  · rename_i number found
    rw [found] at raised
    split
    · rename_i higher
      have count := length_sub_le_countP (List.pairwise_insertionSort (· ≤ ·) _) found
      rw [List.length_insertionSort, List.length_map,
        (List.perm_insertionSort (· ≤ ·) _).countP_eq, List.countP_map] at count
      unfold irreversibleOffset at count
      unfold Backed
      change _ ≤ 10 * objects.activeWitnesses.countP ((number ≤ ·) ∘ objects.lastConfirmedBlockNum)
      omega
    · rename_i low
      simp only [if_neg low] at raised
      exact absurd raised (lt_irrefl _)

variable [Inhabited Hash]

/-- The objects that a chain of blocks leads to, newest block first. -/
inductive Reached (digests : Digests Hash Rest Tx) :
    List (SignedBlock Hash Rest Tx) → Objects Hash Rest Tx σ → Prop where
  | genesis (activeWitnesses : List WitnessId) (others : σ) :
      Reached digests [] (genesis activeWitnesses others)
  | block {block chain older newer} (before : Reached digests chain older)
      (identified : digests.Identified block)
      (follows : Follows block older newer) :
      Reached digests (block :: chain) newer

variable {block : SignedBlock Hash Rest Tx} {chain : List (SignedBlock Hash Rest Tx)}
variable {older : Objects Hash Rest Tx σ}

/-- A witness has signed the block they are said to have confirmed. -/
def Signed (chain : List (SignedBlock Hash Rest Tx)) (objects : Objects Hash Rest Tx σ) : Prop :=
  ∀ witness, objects.lastConfirmedBlockNum witness = 0 ∨
    ∃ signed ∈ chain, signed.witness = witness ∧
      signed.blockNum = objects.lastConfirmedBlockNum witness

theorem Reached.sound (reached : Reached digests chain older) : older.Sound digests := by
  induction reached with
  | genesis activeWitnesses others => exact genesis_sound _ _ _
  | block before identified follows induction =>
    exact follows.extended.sound induction identified

theorem Reached.signed (reached : Reached digests chain older) : Signed chain older := by
  induction reached with
  | genesis activeWitnesses others => exact fun _ => .inl rfl
  | @block block chain older newer before identified follows induction =>
    intro witness
    rw [follows.extended.confirmed]
    by_cases signer : witness = block.witness
    · rw [signer, Function.update_self]
      exact .inr ⟨block, List.mem_cons_self, rfl, rfl⟩
    · rw [Function.update_of_ne signer]
      rcases induction witness with none_ | ⟨signed, member, facts⟩
      · exact .inl none_
      · exact .inr ⟨signed, List.mem_cons_of_mem _ member, facts⟩

omit [Inhabited Hash] in
theorem Follows.backed (follows : Follows block older newer)
    (raised : older.lastIrreversibleBlockNum < newer.lastIrreversibleBlockNum) :
    Backed newer.lastConfirmedBlockNum older.activeWitnesses newer.lastIrreversibleBlockNum := by
  rw [follows.extended.confirmed]
  obtain ⟨_, objects, _, same, rfl⟩ := follows
  rw [same] at raised ⊢
  exact updateLastIrreversibleBlock_backed (updateSigningWitness block (advanceHead block
      { older with
        transactions := objects.transactions
        others := objects.others })) raised

/-- The active witnesses are those that update the last irreversible block,
before the maintenance at the end of the block may replace them. -/
theorem lastIrreversibleBlockNum_backed (reached : Reached digests chain older)
    (identified : digests.Identified block) (follows : Follows block older newer) :
    older.lastIrreversibleBlockNum ≤ newer.lastIrreversibleBlockNum ∧
      newer.lastIrreversibleBlockNum ≤ block.blockNum ∧
      (older.lastIrreversibleBlockNum < newer.lastIrreversibleBlockNum →
        ∃ signers : List WitnessId, signers.Sublist older.activeWitnesses ∧
          7 * older.activeWitnesses.length ≤ 10 * signers.length ∧
          ∀ witness ∈ signers, ∃ signed ∈ block :: chain, signed.witness = witness ∧
              newer.lastIrreversibleBlockNum ≤ signed.blockNum) := by
  have after : Reached digests (block :: chain) newer := .block reached identified follows
  have ext := follows.extended
  refine ⟨?_, ?_, fun raised => ?_⟩
  · rcases ext.advances with same | ⟨higher, _⟩
    · exact same.ge
    · exact higher.le
  · rw [← ext.headNumber]
    exact after.sound.irreversible
  · refine ⟨older.activeWitnesses.filter (newer.lastIrreversibleBlockNum ≤
      newer.lastConfirmedBlockNum ·), List.filter_sublist, ?_, ?_⟩
    · rw [← List.countP_eq_length_filter]
      exact follows.backed raised
    · intro witness member
      have confirmed := of_decide_eq_true (List.mem_filter.mp member).2
      rcases after.signed witness with _ | ⟨signed, known, signer, number⟩
      · omega
      · exact ⟨signed, known, signer, number ▸ confirmed⟩

/-- Once each of three witnesses has signed a block, the first of the blocks is
irreversible. -/
theorem lastIrreversibleBlockNum_backed_three :
    let first := Protocol.symbolic.digests.assemble default 0 true []
    let second := Protocol.symbolic.digests.assemble first.blockId 1 true []
    let third := Protocol.symbolic.digests.assemble second.blockId 2 true []
    ∃ signers : List WitnessId, signers.Sublist [0, 1, 2] ∧ 7 * 3 ≤ 10 * signers.length ∧
      ∀ witness ∈ signers, ∃ signed ∈ [third, second, first],
        signed.witness = witness ∧ 1 ≤ signed.blockNum := by
  intro first second third
  let step (block : SignedBlock (SymbolicHash Bool Nat) Bool Nat)
      (objects : Objects _ Bool Nat Unit) :=
    (objects.applyBlock Protocol.symbolic block).getD objects
  have follows (block) (objects : Objects _ Bool Nat Unit)
      (valid : (objects.applyBlock Protocol.symbolic block).isSome) :
      Follows block objects (step block objects) := by
    obtain ⟨_, applied⟩ := Option.isSome_iff_exists.mp valid
    simp only [step, applied]
    exact applyBlock_follows applied
  have reached : Reached Digests.symbolic [second, first]
      (step second (step first (genesis [0, 1, 2] ()))) :=
    .block (.block (.genesis _ _) rfl (follows _ _ (by decide))) rfl
      (follows _ _ (by decide +kernel))
  have active : (step second (step first (genesis [0, 1, 2] ()))).activeWitnesses = [0, 1, 2] := by
    decide +kernel
  have raised : (step third (step second (step first
      (genesis [0, 1, 2] ())))).lastIrreversibleBlockNum = 1 := by
    decide +kernel
  obtain ⟨_, _, backed⟩ := lastIrreversibleBlockNum_backed reached
    (rfl : Digests.symbolic.Identified third) (follows third _ (by decide +kernel))
  rw [active, raised] at backed
  exact backed (by decide +kernel)

end CocosChain.Chain.Objects

import CocosChain.Chain.FailedSwitch

/-!
# Transactions of popped blocks

A fork switch pops the blocks of the old branch one by one, and each of them
overwrites the list of popped transactions.  What is pushed again afterwards
are the transactions of the block popped last, which is the lowest one.
-/

namespace CocosChain.Chain

namespace Database

variable {Hash Rest Tx Byte σ : Type} [DecidableEq Hash] (protocol : Protocol Hash Rest Tx Byte σ)

/-- The transactions that offering `txs` hands to `_push_transaction`. -/
def offered (state : PushState) : List Tx → Database Hash Rest Tx Byte σ → List Tx
  | [], _ => []
  | tx :: txs, db =>
      let rest := offered state txs ((offer protocol state tx).after db)
      if db.isKnownTransaction protocol tx then rest else tx :: rest

/-- Of the transactions of popped blocks, those that `push_block` hands to
`_push_transaction`. -/
def offeredAgain [Inhabited Hash] (newBlock : SignedBlock Hash Rest Tx)
    (db : Database Hash Rest Tx Byte σ) : List Tx :=
  let reached := (pushBlockOnHead protocol newBlock).after db.clearPending
  offered protocol .popBlock reached.poppedTx reached

/-- The transactions of a branch, in the order of the chain. -/
def orphaned (olds : List (ForkItem Hash Rest Tx)) : List Tx :=
  olds.reverse.flatMap (·.data.transactions)

/-- Every ordinary transaction of `txs` is known, or one of `again` carries its
identifier. -/
def Accounted (objects : Objects Hash Rest Tx σ) (ordinary : Tx → Prop)
    (again txs : List Tx) : Prop :=
  ∀ tx ∈ txs, ordinary tx → objects.isKnownTransaction (protocol.digests.transactionId tx) = true ∨
      ∃ other ∈ again, protocol.digests.transactionId other = protocol.digests.transactionId tx

variable {protocol} {settled db : Database Hash Rest Tx Byte σ}

theorem offered_sublist (state : PushState) (txs : List Tx) (db : Database Hash Rest Tx Byte σ) :
    (offered protocol state txs db).Sublist txs := by
  induction txs generalizing db with
  | nil => exact List.Sublist.slnil
  | cons tx txs induction =>
    unfold offered
    dsimp only
    split
    · exact (induction _).cons tx
    · exact (induction _).cons_cons tx

theorem Awaits.offer_known (isSettled : settled.Settled)
    (awaits : Awaits settled db) (tx : Tx) (state : PushState) {id : Hash}
    (known : ((Database.offer protocol state tx).after db).objects.isKnownTransaction id = true) :
    db.objects.isKnownTransaction id = true ∨ db.isKnownTransaction protocol tx = false ∧
        id = protocol.digests.transactionId tx := by
  unfold Throwing.after Database.offer at known
  rw [Throwing.get_bind] at known
  cases same : db.isKnownTransaction protocol tx with
  | true =>
    rw [if_pos same] at known
    exact .inl known
  | false =>
    rw [if_neg (by rw [same]; exact Bool.false_ne_true)] at known
    have before := awaits.pushTransaction_known protocol isSettled tx state known
    exact before.imp_right fun isTx => ⟨rfl, isTx⟩

/-- A transaction that is not offered was known, or became known because one
with the same identifier was offered before it. -/
theorem Awaits.accounted (isSettled : settled.Settled)
    (awaits : Awaits settled db) (state : PushState) (txs : List Tx) :
    Accounted protocol db.objects (fun _ => True) (offered protocol state txs db) txs := by
  induction txs generalizing settled db with
  | nil => nofun
  | cons first txs induction =>
    intro tx member isOrdinary
    obtain ⟨kept, _, reached⟩ := awaits.offer protocol isSettled first state
      (Nat.le_of_succ_le isSettled.room) (.inl isSettled.room)
    have later := induction (isSettled.trimmed kept) reached
    unfold offered
    dsimp only
    by_cases known : db.isKnownTransaction protocol first = true
    · rw [if_pos known]
      rcases List.mem_cons.mp member with rfl | member
      · exact .inl known
      · refine (later tx member isOrdinary).imp_left ?_
        intro knownLater
        rcases awaits.offer_known isSettled first state knownLater with
          before | ⟨unknown, _⟩
        · exact before
        · exact absurd known (by rw [unknown]; exact Bool.false_ne_true)
    · rw [if_neg known]
      rcases List.mem_cons.mp member with rfl | member
      · exact .inr ⟨tx, List.mem_cons_self, rfl⟩
      · rcases later tx member isOrdinary with knownLater | again
        · rcases awaits.offer_known isSettled first state knownLater with
            before | ⟨_, same⟩
          · exact .inl before
          · exact .inr ⟨first, List.mem_cons_self, same.symm⟩
        · obtain ⟨other, offered, same⟩ := again
          exact .inr ⟨other, List.mem_cons_of_mem _ offered, same⟩

variable [Inhabited Hash] {newBlock : SignedBlock Hash Rest Tx}
variable {trail news olds : List (ForkItem Hash Rest Tx)}
variable {fork : ForkDatabase Hash Rest Tx} {newHead : ForkItem Hash Rest Tx}
variable {undo : SnapshotStack (Objects Hash Rest Tx σ)}

theorem applyBranch_returns (identified : ∀ item ∈ remaining, protocol.digests.Identified item.data)
    (history : History protocol reached)
    (applied : reached.objects.applyBlocks protocol (remaining.map ForkItem.data) = some next) :
    ∃ final, applyBranch protocol newBlock news olds remaining reached = (.ok true, final) ∧
      History protocol final ∧ final.objects = next ∧
      final.poppedTx = reached.poppedTx := by
  induction remaining generalizing reached with
  | nil =>
    cases applied
    exact ⟨reached, rfl, history, rfl, rfl⟩
  | cons item rest induction =>
    rw [List.map_cons, Objects.applyBlocks] at applied
    cases first : reached.objects.applyBlock protocol item.data with
    | none =>
      rw [first] at applied
      cases applied
    | some between =>
      rw [first] at applied
      obtain ⟨_, _, ran⟩ := applyAndStore_returns protocol history.positive item.id first
      have kept_history := History.applyAndStore
        (identified item List.mem_cons_self) item.id reached history
      unfold Throwing.after at kept_history
      rw [ran] at kept_history
      obtain ⟨final, finished, rest⟩ := induction (fun other member => identified other
          (List.mem_cons_of_mem _ member)) kept_history applied
      refine ⟨final, ?_, rest⟩
      unfold applyBranch
      rw [Throwing.attempt_bind, ran]
      exact finished

theorem Turn.pushBlockOnHead_returns (turn : Turn protocol trail db newBlock fork newHead news olds)
    (inSync : InSync protocol trail db)
    (switches : Switches protocol db newBlock fork newHead news olds)
    (popped : db.undo.popCommits olds.length = some undo)
    (applied : undo.current.applyBlocks protocol (news.reverse.map ForkItem.data) = some next) :
    ∃ final, pushBlockOnHead protocol newBlock db = (.ok true, final) ∧
      History protocol final ∧ final.objects = next ∧
      final.poppedTx = orphaned olds.getLast?.toList := by
  obtain ⟨_, last, isOlds⟩ := (List.eq_nil_or_concat' olds).resolve_left turn.nonempty
  let start := rewound undo news.getLast? olds { db with fork := fork }
  have history : History protocol start := (inSync.history.popCommits popped).1.of_undo rfl rfl
  have identified : ∀ item ∈ news.reverse, protocol.digests.Identified item.data := by
    intro item member
    exact turn.held.items.identified item (List.mem_append_right _
      (List.mem_append_left _ (List.mem_reverse.mp member)))
  obtain ⟨final, ran, kept, isNext, same⟩ := applyBranch_returns identified history applied
  refine ⟨final, ?_, kept, isNext, same.trans ?_⟩
  · rw [pushBlockOnHead_switches protocol switches,
      Throwing.bind_of_ok ((turn.popTo inSync).1 undo popped)]
    exact ran
  · have isLast : olds.getLast? = some last := by
      rw [isOlds]
      exact List.getLast?_concat
    change (olds.getLast?.map (·.data.transactions)).getD db.poppedTx = _
    rw [isLast]
    exact (List.append_nil _).symm

omit [DecidableEq Hash] [Inhabited Hash] in
theorem orphaned_eq (nonempty : olds ≠ []) : orphaned olds =
      orphaned olds.getLast?.toList ++ orphaned olds.dropLast := by
  obtain ⟨_, _, rfl⟩ := (List.eq_nil_or_concat' olds).resolve_left nonempty
  simp [orphaned]

/-- After a fork switch the transactions offered again are in the order of
the chain.  All those of the popped blocks are accounted for if and only if
those of the lowest block account for the other blocks. -/
theorem orphaned_accounted_iff (inSync : InSync protocol trail settled) (awaits : Awaits settled db)
    (switches : Switches protocol settled newBlock fork newHead news olds)
    (popped : settled.undo.popCommits olds.length = some undo)
    (applied : undo.current.applyBlocks protocol (news.reverse.map ForkItem.data) = some next)
    (ordinary : Tx → Prop) :
    (pushBlock protocol newBlock db).1 = .ok true ∧
      ((pushBlockOnHead protocol newBlock).after db.clearPending).objects = next ∧
      (offeredAgain protocol newBlock db).Sublist (orphaned olds) ∧
      (Accounted protocol next ordinary (offeredAgain protocol newBlock db) (orphaned olds) ↔
        Accounted protocol next ordinary (orphaned olds.getLast?.toList)
          (orphaned olds.dropLast)) := by
  have isSettled := inSync.history.toSettled
  let cleared := { settled with pendingTx := [] }
  have clearedSync : InSync protocol trail cleared := inSync.cleared
  have clearedSwitches : Switches protocol cleared newBlock fork newHead news olds :=
    ⟨switches.identified, switches.pushed, switches.head, switches.offHead,
      switches.higher, switches.fetched⟩
  have turn := clearedSwitches.turn clearedSync
  obtain ⟨final, ran, history, isNext, poppedTx⟩ :=
    turn.pushBlockOnHead_returns clearedSync clearedSwitches popped applied
  have again : offeredAgain protocol newBlock db =
      offered protocol .popBlock (orphaned olds.getLast?.toList) final := by
    unfold offeredAgain Throwing.after
    rw [awaits.clearPending isSettled, ran, ← poppedTx]
  have lowest : Accounted protocol final.objects _ _ _ :=
    (Awaits.refl final).accounted history.toSettled .popBlock (orphaned olds.getLast?.toList)
  rw [orphaned_eq turn.nonempty, again]
  rw [isNext] at lowest
  have sublist : (offered protocol .popBlock (orphaned olds.getLast?.toList)
        final).Sublist (orphaned olds.getLast?.toList) :=
    offered_sublist _ _ _
  refine ⟨?_, ?_, ?_, ?_, ?_⟩
  · rw [pushBlock_eq protocol isSettled awaits, ran]
  · unfold Throwing.after
    rw [awaits.clearPending isSettled, ran]
    exact isNext
  · exact sublist.trans (List.sublist_append_left _ _)
  · intro accounted tx member isOrdinary
    have covered := accounted tx (List.mem_append_right _ member) isOrdinary
    refine covered.imp_right ?_
    rintro ⟨other, offered, same⟩
    exact ⟨other, sublist.subset offered, same⟩
  · intro accounted tx member isOrdinary
    rcases List.mem_append.mp member with inLowest | inOthers
    · exact lowest tx inLowest trivial
    · rcases accounted tx inOthers isOrdinary with known | ⟨other, low, same⟩
      · exact .inl known
      · rw [← same]
        exact lowest other low trivial

/-- One block is popped, and its transactions are offered again. -/
theorem orphaned_accounted_one_block :
    let first := Digests.symbolic.assemble default 0 true [7, 8]
    let sibling := Digests.symbolic.assemble default 1 true [8]
    let top := Digests.symbolic.assemble sibling.blockId 0 true []
    let db := (pushBlockOnHead Protocol.symbolic sibling).after
      ((pushBlockOnHead Protocol.symbolic first).after (.initial (.genesis [0, 1, 2] ())))
    offeredAgain Protocol.symbolic top db = [7] ∧ Accounted Protocol.symbolic
        ((pushBlockOnHead Protocol.symbolic top).after db.clearPending).objects
        (fun _ => True) (offeredAgain Protocol.symbolic top db)
        first.transactions := by
  intro first sibling top db
  have opened : Initialized Protocol.symbolic (.initial (.genesis [0, 1, 2] ())) :=
    .opened ⟨rfl, rfl, by decide⟩ rfl (Objects.genesis_sound _ _ _) rfl
  obtain ⟨_, initial⟩ := InSync.of_initialized opened
  obtain ⟨_, extended⟩ := initial.pushBlockOnHead
    (.applies (by decide +kernel) (by decide +kernel) : Harmless Protocol.symbolic _ first)
  let head : ForkItem (SymbolicHash Bool Nat) Bool Nat := ⟨0, none, first⟩
  have lower : sibling.blockNum ≤ head.num := by decide +kernel
  obtain ⟨_, inSync⟩ := extended.pushBlockOnHead (.lower (by decide +kernel) lower :
      Harmless Protocol.symbolic _ sibling)
  let low : ForkItem (SymbolicHash Bool Nat) Bool Nat := ⟨1, none, sibling⟩
  let newHead : ForkItem (SymbolicHash Bool Nat) Bool Nat := ⟨2, some 1, top⟩
  let fork : ForkDatabase (SymbolicHash Bool Nat) Bool Nat :=
    { index := [head, low, newHead], head := some newHead, maxSize := 2
      nextRef := 3 }
  have switches : Switches Protocol.symbolic db top fork newHead [newHead, low] [head] := by
    constructor
    case identified => exact Digests.assemble_identified _ _ _ _ _
    all_goals decide +kernel
  let undo := (db.undo.popCommits [head].length).get (by decide +kernel)
  have popped : db.undo.popCommits [head].length = some undo := (Option.some_get _).symm
  let next := (undo.current.applyBlocks Protocol.symbolic
    ([newHead, low].reverse.map ForkItem.data)).get (by decide +kernel)
  have applied : undo.current.applyBlocks Protocol.symbolic
      ([newHead, low].reverse.map ForkItem.data) = some next :=
    (Option.some_get _).symm
  obtain ⟨_, isNext, _, iff⟩ := orphaned_accounted_iff inSync (.refl db)
    switches popped applied (fun _ => True)
  refine ⟨by decide +kernel, ?_⟩
  rw [isNext]
  have orphans : orphaned [head] = first.transactions := rfl
  rw [← orphans]
  exact iff.mpr nofun

/-- Two blocks are popped, and the transaction of the higher one is lost. -/
theorem orphaned_forgotten_two_blocks :
    let base := Digests.symbolic.assemble default 0 true []
    let first := Digests.symbolic.assemble base.blockId 1 true [7]
    let second := Digests.symbolic.assemble first.blockId 2 true [8]
    let left := Digests.symbolic.assemble base.blockId 2 true []
    let middle := Digests.symbolic.assemble left.blockId 1 true []
    let top := Digests.symbolic.assemble middle.blockId 0 true []
    let db := ForkHead.pushBlocks Protocol.symbolic
      [base, first, second, left, middle] (.initial (.genesis [0, 1, 2] ()))
    let after := ForkHead.pushBlocks Protocol.symbolic [top] db
    db.objects.mainChain = [second, first, base] ∧
      (pushBlock Protocol.symbolic top db).1 = .ok true ∧
      after.objects.mainChain = [top, middle, left, base] ∧
      offeredAgain Protocol.symbolic top db = [7] ∧
      after.pendingTx = [7] ∧
      after.isKnownTransaction Protocol.symbolic 8 = false := by
  decide +kernel

end Database

end CocosChain.Chain

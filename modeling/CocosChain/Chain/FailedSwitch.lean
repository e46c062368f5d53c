import CocosChain.Chain.RejectedBlock

/-!
# Fork switches that fail

When a block of the new branch cannot be applied, the blocks of the old branch
are applied again.  Each of them is stored under the identifier of the block
that was pushed, which is above the chain, and not under its own.  The disk is
therefore as before only as long as nothing of the new branch has been stored,
that is, if it is the first block of the new branch that fails.  If the undo
history does not reach back to the fork, what has been popped stays popped.
-/

namespace CocosChain.Chain

variable {Hash Rest Tx Byte σ : Type} [DecidableEq Hash] [Inhabited Hash]
variable (protocol : Protocol Hash Rest Tx Byte σ)

omit [Inhabited Hash] in
def Objects.applyBlocks (objects : Objects Hash Rest Tx σ) :
    List (SignedBlock Hash Rest Tx) → Option (Objects Hash Rest Tx σ)
  | [] => some objects
  | block :: blocks =>
      match objects.applyBlock protocol block with
      | none => none
      | some next => next.applyBlocks blocks

namespace Database

/-- The objects are as before, and so are the blocks on disk. -/
structure Untouched (before after : Database Hash Rest Tx Byte σ) : Prop where
  objects : after.objects = before.objects
  blocks : after.blocks.Serves protocol.digests protocol.packing
    before.objects.mainChain

variable {protocol} {db : Database Hash Rest Tx Byte σ} {newBlock : SignedBlock Hash Rest Tx}
variable {trail news olds : List (ForkItem Hash Rest Tx)}
variable {fork : ForkDatabase Hash Rest Tx} {newHead : ForkItem Hash Rest Tx}
variable {undo : SnapshotStack (Objects Hash Rest Tx σ)}

theorem History.popCommits (history : History protocol db)
    (popped : db.undo.popCommits count = some undo) : History protocol { db with undo := undo } ∧
      undo.current.mainChain = db.objects.mainChain.drop count := by
  induction count generalizing db with
  | zero =>
    cases popped
    exact ⟨history, rfl⟩
  | succ count induction =>
    obtain ⟨_, restored, rest⟩ := SnapshotStack.popCommits_succ popped
    obtain ⟨kept, chain⟩ := induction (history.popCommit restored) rest
    refine ⟨kept, chain.trans ?_⟩
    obtain ⟨_, _, replayed⟩ := history.popCommit_replays restored
    rw [(Objects.applyBlock_extends replayed).chain]
    rfl

/-- Applying the blocks that were popped leads back, since applying a block is
a function of the objects. -/
theorem reapply (history : History protocol db)
    (blocks : olds.map ForkItem.data <+: db.objects.mainChain)
    (popped : db.undo.popCommits olds.length = some undo) {id : BlockId Hash} (named : id ≠ default)
    (objects : reached.objects = undo.current) (room : 0 < reached.undo.maxSize) :
    ∃ after, Throwing.forEach (fun item => applyAndStore protocol id item.data)
          olds.reverse reached = (.ok (), after) ∧
      after.objects = db.objects ∧ 0 < after.undo.maxSize ∧
      BlockDatabase.Extends id.number reached.blocks after.blocks := by
  induction olds generalizing db with
  | nil =>
    cases popped
    exact ⟨reached, rfl, objects, room, .refl _ _⟩
  | cons old rest induction =>
    obtain ⟨middle, restored, earlier⟩ := SnapshotStack.popCommits_succ popped
    obtain ⟨_, chain⟩ := blocks
    obtain ⟨replayed, olderChain⟩ := history.popCommit_chain restored chain.symm
    have below : rest.map ForkItem.data <+: middle.current.mainChain := by
      rw [olderChain]
      exact List.prefix_append _ _
    obtain ⟨between, ran, same, stillRoom, extended⟩ :=
      induction (history.popCommit restored) below earlier
    have applied : between.objects.applyBlock protocol old.data = some db.objects := by
      rw [same]
      exact replayed
    obtain ⟨kept, _, ranLast⟩ := applyAndStore_returns protocol stillRoom id applied
    refine ⟨Database.extended protocol id old.data db.objects kept between, ?_, rfl, Nat.succ_pos _,
      extended.trans (.store _ _ named old.data between.blocks)⟩
    rw [List.reverse_cons, Throwing.forEach_append, Throwing.bind_of_ok ran]
    exact (Throwing.bind_of_ok ranLast).trans rfl

theorem recover_restores (inSync : InSync protocol trail db)
    (turn : Turn protocol trail db newBlock fork newHead news olds)
    (named : newBlock.blockId ≠ default) (popped : db.undo.popCommits olds.length = some undo)
    (objects : reached.objects = undo.current) (room : 0 < reached.undo.maxSize)
    (failed : List (ForkItem Hash Rest Tx)) (fault : Fault) :
    ∃ after, recover protocol newBlock news olds failed fault reached = (.error fault, after) ∧
      after.objects = db.objects ∧
      BlockDatabase.Extends newBlock.blockId.number reached.blocks after.blocks := by
  obtain ⟨history, chain⟩ := inSync.history.popCommits popped
  have atFork : reached.headBlockId = ForkDatabase.forkPoint olds := by
    rw [(turn.descent inSync).isTarget]
    unfold headBlockId
    rw [objects]
    exact history.objects_sound.tip.trans (congrArg tipId chain)
  let edited := { reached with
    fork := (reached.fork.removeAll failed).setHead olds.head? }
  have editedRoom : 0 < edited.undo.maxSize := room
  have editedObjects : edited.objects = undo.current := objects
  obtain ⟨after, ran, same, _, extended⟩ := reapply inSync.history
    (turn.blocks inSync) popped named editedObjects editedRoom
  refine ⟨after, ?_, same, extended⟩
  have stays : popTo protocol (news ++ olds) (ForkDatabase.forkPoint olds)
      edited = (.ok (), edited) :=
    Throwing.repeatWhile_stop _ (decide_eq_false (not_not.mpr atFork))
  unfold recover
  rw [Throwing.modify_bind, Throwing.bind_of_ok stays, Throwing.bind_of_ok ran]
  rfl

omit [Inhabited Hash] in
theorem popBlock_blocks (pinned : List (ForkItem Hash Rest Tx))
    (quiet : db.pendingTxSession = false) :
    ((popBlock protocol pinned).after db).blocks = db.blocks := by
  apply popBlock_after (P := fun reached => reached.blocks = db.blocks) protocol quiet rfl
  · intro fork _
    rfl
  · intro fork undo poppedTx _ _
    rfl

/-- The entry numbered `number` says that block `id` is stored there. -/
def Occupies (number : Nat) (id : BlockId Hash) (db : Database Hash Rest Tx Byte σ) : Prop :=
  ∃ entry, db.blocks.blockNumToPos[number]? = some entry ∧ entry.blockId = id

theorem Occupies.applyAndStore {id : BlockId Hash}
    (named : id ≠ default) (other : number ≠ id.number)
    (positive : 0 < db.undo.maxSize) (occupies : Occupies number occupant db) :
    Occupies number occupant ((Database.applyAndStore protocol id block).after db) := by
  obtain ⟨entry, known, same⟩ := occupies
  apply applyAndStore_after protocol positive id
  · intro next kept applied _
    have stored := BlockDatabase.Extends.store protocol.digests
      protocol.packing named block db.blocks
    exact ⟨entry, stored.entry other known, same⟩
  · intro kept after reverted _
    cases reverted with
    | early => exact ⟨entry, known, same⟩
    | late onHead => exact ⟨entry, known, same⟩

theorem recover_throws (failed : List (ForkItem Hash Rest Tx)) (fault : Fault) :
    (recover protocol newBlock news olds failed fault).Throws reached := by
  unfold recover
  apply Throwing.Throws.bind
  intro _ _
  apply Throwing.Throws.bind
  intro _ _
  apply Throwing.Throws.bind
  intro _ between
  exact Throwing.throw_throws fault between

theorem applyBranch_throws (positive : 0 < reached.undo.maxSize)
    (fails : reached.objects.applyBlocks protocol (remaining.map ForkItem.data) = none) :
    (applyBranch protocol newBlock news olds remaining).Throws reached := by
  induction remaining generalizing reached with
  | nil => cases fails
  | cons item rest induction =>
    unfold Throwing.Throws applyBranch
    rw [Throwing.attempt_bind]
    cases applied : reached.objects.applyBlock protocol item.data with
    | none =>
      obtain ⟨fault, kept, _, _, _, ran⟩ :=
        applyAndStore_throws protocol positive item.id applied
      rw [ran]
      exact recover_throws (item :: rest) fault
    | some next =>
      obtain ⟨_, _, ran⟩ := applyAndStore_returns protocol positive item.id applied
      rw [ran]
      apply induction
      · exact Nat.succ_pos _
      · rw [List.map_cons, Objects.applyBlocks, applied] at fails
        exact fails

namespace Turn

variable {first : ForkItem Hash Rest Tx} {next : Objects Hash Rest Tx σ}

section

omit [Inhabited Hash]

theorem identified (turn : Turn protocol trail db newBlock fork newHead news olds)
    (member : item ∈ news) : protocol.digests.Identified item.data :=
  turn.held.items.identified item (List.mem_append_right _ (List.mem_append_left _ member))

theorem newBlock_identified (turn : Turn protocol trail db newBlock fork newHead news olds) :
    protocol.digests.Identified newBlock := by
  rw [← turn.data]
  exact turn.identified (List.mem_of_mem_head? turn.tip)

theorem number_lt (turn : Turn protocol trail db newBlock fork newHead news olds)
    (isNews : news = newer ++ [first]) (member : item ∈ newer) :
    first.id.number < item.id.number := by
  have alive {item : ForkItem Hash Rest Tx} (held : item ∈ news) :
      item ∈ fork.owned (news ++ olds) :=
    List.mem_append_right _ (List.mem_append_left _ held)
  have descends : news.IsChain fun newer older =>
      older.id.number < newer.id.number := by
    apply turn.linked.imp_of_mem_imp
    intro upper lower upperMember lowerMember points
    have previous := turn.held.items.linked upper (alive upperMember) lower (alive lowerMember)
      points
    have number := (turn.identified upperMember).number
    change upper.id.number = upper.previousId.number + 1 at number
    rw [previous] at number
    omega
  have numbers : (news.map fun item => item.id.number).IsChain (· > ·) :=
    (List.isChain_map _).mpr descends
  have ordered := List.pairwise_map.mp numbers.pairwise
  rw [isNews] at ordered
  exact (List.pairwise_append.mp ordered).2.2 item member first (List.mem_singleton_self first)

theorem newBlock_above (turn : Turn protocol trail db newBlock fork newHead news olds)
    (isNews : news = newer ++ [first]) : first.id.number < newBlock.blockId.number := by
  have member : newHead ∈ newer := by
    have tip := turn.tip
    have length := turn.length
    have positive := List.length_pos_iff.mpr turn.nonempty
    rw [isNews] at tip length
    cases newer with
    | nil =>
      rw [List.nil_append, List.length_singleton] at length
      omega
    | cons top rest =>
      cases tip
      exact List.mem_cons_self
  have above := turn.number_lt isNews member
  unfold ForkItem.id at above
  rw [turn.data] at above
  exact above

end

section

variable (turn : Turn protocol trail db newBlock fork newHead news olds)
include turn

/-- Once the first block of the new branch has been stored, it stays where it
is, whatever happens to the rest of the branch. -/
theorem occupies (isNews : news = newer ++ [first]) (sound : Sound protocol (news ++ olds) reached)
    (stored : Occupies first.id.number first.id reached) : Occupies first.id.number first.id
      ((applyBranch protocol newBlock news olds newer.reverse).after reached) := by
  have kept : Throwing.Keeps (fun reached => Sound protocol (news ++ olds) reached ∧
        Occupies first.id.number first.id reached)
      (applyBranch protocol newBlock news olds newer.reverse) := by
    apply applyBranch_keeps
    · rintro reached ⟨sound, entry, known, same⟩
      refine ⟨Sound.popBlock reached sound, entry, ?_, same⟩
      rw [popBlock_blocks _ sound.history.quiet]
      exact known
    · rintro failed reached ⟨sound, stored⟩
      exact ⟨sound.edit failed, stored⟩
    · rintro item member reached ⟨sound, stored⟩
      have held : item ∈ news ++ olds := List.mem_append_right _ member
      have above := turn.newBlock_above isNews
      exact ⟨Sound.applyAndStore (sound.identified held) _ reached sound,
        stored.applyAndStore turn.newBlock_identified.ne_default (Nat.ne_of_lt above)
          sound.history.positive⟩
    · rintro item member reached ⟨sound, stored⟩
      have inNewer := List.mem_reverse.mp member
      have held : item ∈ news ++ olds := by
        rw [isNews]
        exact List.mem_append_left _ (List.mem_append_left _ inNewer)
      have above := turn.number_lt isNews inNewer
      exact ⟨Sound.applyAndStore (sound.identified held) _ reached sound,
        stored.applyAndStore (sound.identified held).ne_default (Nat.ne_of_lt above)
          sound.history.positive⟩
  exact (kept reached ⟨sound, stored⟩).2

section

variable (inSync : InSync protocol trail db) (popped : db.undo.popCommits olds.length = some undo)
include inSync popped

section

variable (applied : undo.current.applyBlock protocol first.data = some next)
include applied

theorem displaced (isFirst : news.getLast? = some first) :
    ∃ old, blockAt db.objects.mainChain first.id.number = some old ∧ old.blockId ≠ first.id := by
  obtain ⟨history, chain⟩ := inSync.history.popCommits popped
  obtain ⟨suffix, isChain⟩ := turn.blocks inSync
  obtain ⟨_, last, isOlds⟩ := (List.eq_nil_or_concat' olds).resolve_left turn.nonempty
  have dropped : undo.current.mainChain = suffix := by
    rw [chain, ← isChain, ← List.length_map ForkItem.data, List.drop_left]
  have number : first.id.number = suffix.length + 1 := by
    have sound := history.objects_sound
    have previous := (Objects.applyBlock_extends applied).previous
    have tip : undo.current.headBlockId.number = suffix.length := by
      rw [← dropped]
      exact (congrArg BlockId.number sound.tip).trans sound.chained.tipId_number
    rw [previous] at tip
    rw [← tip]
    exact (turn.identified (List.mem_of_getLast? isFirst)).number
  refine ⟨last.data, ?_, ?_⟩
  · rw [number, ← isChain, isOlds, List.map_append, List.append_assoc]
    exact blockAt_next _ suffix last.data
  · apply Ne.symm
    apply turn.apart first last isFirst
    rw [isOlds]
    exact List.getLast?_concat

theorem touched_of_occupies (isFirst : news.getLast? = some first)
    (stored : Occupies first.id.number first.id after) : ¬ Untouched protocol db after := by
  rintro ⟨_, serves⟩
  obtain ⟨_, found, other⟩ := turn.displaced inSync popped applied isFirst
  obtain ⟨_, known, same⟩ := stored
  have served := (serves _ _ found).1
  unfold BlockDatabase.fetchBlockId at served
  rw [known] at served
  dsimp only at served
  split at served
  · cases served
  · split at served
    · cases served
    · exact other ((Option.some.inj served).symm.trans same)

theorem touched (isNews : news = newer ++ [first]) (sound : Sound protocol (news ++ olds) reached)
    (objects : reached.objects = undo.current) :
    ¬ Untouched protocol db ((applyBranch protocol newBlock news olds
      (first :: newer.reverse)).after reached) := by
  have isFirst : news.getLast? = some first := by
    rw [isNews]
    exact List.getLast?_concat
  have held : first ∈ news ++ olds := List.mem_append_left _ (List.mem_of_getLast? isFirst)
  have appliedHere : reached.objects.applyBlock protocol first.data = some next := by
    rw [objects]
    exact applied
  obtain ⟨_, _, ran⟩ := applyAndStore_returns protocol sound.history.positive first.id appliedHere
  have soundNext := Sound.applyAndStore (sound.identified held) first.id reached sound
  unfold Throwing.after at soundNext
  rw [ran] at soundNext
  apply turn.touched_of_occupies inSync popped applied isFirst
  unfold Throwing.after applyBranch
  rw [Throwing.attempt_bind, ran]
  apply turn.occupies isNews soundNext
  exact BlockDatabase.store_entry _ _ (sound.identified held).ne_default first.data reached.blocks

end

theorem untouched (serves : db.blocks.Serves protocol.digests protocol.packing db.objects.mainChain)
    (fails : undo.current.applyBlock protocol first.data = none)
    (objects : reached.objects = undo.current) (positive : 0 < reached.undo.maxSize)
    (blocks : reached.blocks = db.blocks) :
    Untouched protocol db ((applyBranch protocol newBlock news olds
      (first :: remaining)).after reached) := by
  have sound := inSync.history.objects_sound
  have number : newBlock.blockId.number = db.objects.mainChain.length + 1 := by
    exact turn.newBlock_identified.number.trans (turn.number.trans (congrArg (· + 1) sound.number))
  rw [← objects] at fails
  obtain ⟨fault, _, between, _, reverted, ran⟩ :=
    applyAndStore_throws protocol positive first.id fails
  obtain ⟨betweenObjects, betweenPositive, betweenBlocks⟩ : between.objects = undo.current ∧
      0 < between.undo.maxSize ∧ between.blocks = db.blocks := by
    cases reverted with
    | early => exact ⟨objects, positive, blocks⟩
    | late onHead => exact ⟨objects, Nat.succ_pos _, blocks⟩
  obtain ⟨after, recovered, same, extended⟩ := recover_restores inSync turn
    turn.newBlock_identified.ne_default popped betweenObjects betweenPositive (first :: remaining)
    fault
  unfold Throwing.after applyBranch
  rw [Throwing.attempt_bind, ran]
  dsimp only
  rw [recovered]
  refine ⟨same, serves.extends sound.chained ?_ (betweenBlocks ▸ extended)⟩
  rw [number]
  exact Nat.lt_succ_self _

end

end

/-- What is popped until the history is used up. -/
theorem popTo_short (turn : Turn protocol trail db newBlock fork newHead news olds)
    (inSync : InSync protocol trail db) (short : db.undo.popCommits olds.length = none) :
    let after := (Database.popTo protocol (news ++ olds) (ForkDatabase.forkPoint olds)).after
      { db with fork := fork }
    after.blocks = db.blocks ∧ (after.objects = db.objects ↔ db.undo.popCommit = none) := by
  have descent := turn.descent inSync
  have keeps (length fuel : Nat) : Throwing.Keeps (fun reached => History protocol reached ∧
        reached.blocks = db.blocks ∧ reached.objects.mainChain.length ≤ length)
      (Throwing.repeatWhile (fun db => db.headBlockId ≠ ForkDatabase.forkPoint olds)
        (Database.popBlock protocol (news ++ olds)) .unfinished fuel) := by
    apply Throwing.Keeps.repeatWhile
    rintro reached ⟨history, blocks, bounded⟩ _
    refine ⟨History.popBlock _ reached history, ?_, ?_⟩
    · rw [popBlock_blocks _ history.quiet]
      exact blocks
    · apply popBlock_after (P := fun reached => reached.objects.mainChain.length ≤ length)
        protocol history.quiet bounded
      · intro fork _
        exact bounded
      · intro fork undo poppedTx _ restored
        obtain ⟨_, _, replayed⟩ := history.popCommit_replays restored
        rw [(Objects.applyBlock_extends replayed).chain] at bounded
        exact Nat.le_of_succ_le bounded
  match olds, news, descent, turn.nonempty, descent.length with
  | old :: rest, newer :: older :: later, descent, _, _ =>
    have step := descent.popBlock
    have unrolled : Database.popTo protocol (newer :: older :: later ++ old :: rest)
        (ForkDatabase.forkPoint (old :: rest)) { db with fork := fork } = (do
          Database.popBlock protocol (newer :: older :: later ++ old :: rest)
          Throwing.repeatWhile (fun db => decide (db.headBlockId ≠
            ForkDatabase.forkPoint (old :: rest))) (Database.popBlock protocol
              (newer :: older :: later ++ old :: rest)) .unfinished db.undo.saved.length)
          { db with fork := fork } :=
      if_pos (decide_eq_true descent.continues)
    unfold Throwing.after
    rw [unrolled]
    cases restored : db.undo.popCommit with
    | none =>
      rw [restored] at step
      rw [Throwing.bind_of_error step]
      exact ⟨rfl, iff_of_true rfl rfl⟩
    | some undo =>
      rw [restored] at step
      rw [Throwing.bind_of_ok step]
      obtain ⟨_, _, replayed⟩ := inSync.history.popCommit_replays restored
      obtain ⟨_, blocks, shorter⟩ := keeps undo.current.mainChain.length db.undo.saved.length _
        ⟨(descent.next restored).history, rfl, Nat.le_refl _⟩
      refine ⟨blocks, iff_of_false (fun same => ?_) nofun⟩
      unfold Throwing.after at shorter
      rw [same, (Objects.applyBlock_extends replayed).chain] at shorter
      exact Nat.not_succ_le_self _ shorter

end Turn

section

variable (inSync : InSync protocol trail db)
  (serves : db.blocks.Serves protocol.digests protocol.packing db.objects.mainChain)
  (switches : Switches protocol db newBlock fork newHead news olds)
include inSync serves switches

theorem switch_untouched_iff (popped : db.undo.popCommits olds.length = some undo)
    (fails : undo.current.applyBlocks protocol (news.reverse.map ForkItem.data) = none) :
    (pushBlockOnHead protocol newBlock).Throws db ∧
      (Untouched protocol db ((pushBlockOnHead protocol newBlock).after db) ↔
        ∃ first, news.getLast? = some first ∧
          undo.current.applyBlock protocol first.data = none) := by
  have turn := switches.turn inSync
  let start := rewound undo news.getLast? olds { db with fork := fork }
  have ran : pushBlockOnHead protocol newBlock db =
      applyBranch protocol newBlock news olds news.reverse start := by
    rw [pushBlockOnHead_switches protocol switches]
    exact Throwing.bind_of_ok ((turn.popTo inSync).1 undo popped)
  have history := (inSync.history.popCommits popped).1
  have positive : 0 < start.undo.maxSize := history.positive
  have sound : Sound protocol (news ++ olds) start := by
    refine ⟨history.of_undo rfl rfl, turn.held.setHead ?_⟩
    intro item isLast
    exact List.mem_append_right _ (List.mem_append_left _ (List.mem_of_getLast? isLast))
  obtain ⟨newer, first, isNews⟩ := (List.eq_nil_or_concat' news).resolve_left
    (List.length_pos_iff.mp (turn.length ▸ Nat.succ_pos _))
  have isFirst : news.getLast? = some first := by
    rw [isNews]
    exact List.getLast?_concat
  have reversed : news.reverse = first :: newer.reverse := by
    rw [isNews]
    exact List.reverse_concat
  unfold Throwing.after Throwing.Throws
  rw [ran]
  refine ⟨applyBranch_throws positive fails, ?_⟩
  rw [reversed] at fails ⊢
  cases applied : undo.current.applyBlock protocol first.data with
  | none =>
    apply iff_of_true
    · exact turn.untouched inSync popped serves applied rfl positive rfl
    · exact ⟨first, isFirst, applied⟩
  | some next =>
    apply iff_of_false
    · exact turn.touched inSync popped applied isNews sound rfl
    · rintro ⟨_, isOther, failed⟩
      cases isFirst.symm.trans isOther
      cases applied.symm.trans failed

/-- If the undo history is too short, the switch is over when it is used up. -/
theorem switch_short_untouched_iff (short : db.undo.popCommits olds.length = none) :
    (pushBlockOnHead protocol newBlock).Throws db ∧
      (Untouched protocol db ((pushBlockOnHead protocol newBlock).after db) ↔
        db.undo.popCommit = none) := by
  have turn := switches.turn inSync
  obtain ⟨fault, thrown⟩ := (turn.popTo inSync).2 short
  obtain ⟨blocks, objects⟩ := turn.popTo_short inSync short
  unfold Throwing.after Throwing.Throws at *
  rw [pushBlockOnHead_switches protocol switches]
  generalize ran : popTo protocol (news ++ olds) (ForkDatabase.forkPoint olds)
    { db with fork := fork } = outcome at thrown blocks objects
  obtain ⟨_, reached⟩ := outcome
  cases thrown
  rw [Throwing.bind_of_error ran]
  refine ⟨⟨fault, rfl⟩, ?_⟩
  rw [← objects]
  exact ⟨Untouched.objects, fun same => ⟨same, blocks ▸ serves⟩⟩

end

/-- A switch that fails throws.  If no maintenance is interrupted on the way,
the members stay empty, and the objects and the disk are as before if and only
if no block can be popped at all, or those down to the fork can and the first
block of the new branch is invalid. -/
theorem failed_switch_untouched_iff {Key ρ : Type}
    {chain : ElectingProtocol Hash Rest Tx Byte Key ρ}
    {db : Database Hash Rest Tx Byte (Electorate Key ρ)}
    {P : Objects Hash Rest Tx (Electorate Key ρ) → Prop}
    (inSync : InSync (chain.protocol .cleared) trail db)
    (serves : db.blocks.Serves chain.digests chain.packing db.objects.mainChain)
    (switches : Switches (chain.protocol .cleared) db newBlock fork newHead news olds)
    (steady : ∀ item ∈ news ++ olds, chain.Steady P item.data) (holds : db.undo.Forall P)
    (fails : ∀ undo, db.undo.popCommits olds.length = some undo →
      undo.current.applyBlocks (chain.protocol .cleared) (news.reverse.map ForkItem.data) = none) :
    let before := ElectingNode.cleared db
    let after := (chain.pushBlockOnHead newBlock).after before
    (chain.pushBlockOnHead newBlock).Throws before ∧ after.members = .cleared ∧
      (Untouched (chain.protocol .cleared) db after.db ↔ db.undo.popCommit = none ∨
        ∃ undo first, db.undo.popCommits olds.length = some undo ∧ news.getLast? = some first ∧
          undo.current.applyBlock (chain.protocol .cleared) first.data = none) := by
  intro before after
  have same := ElectingProtocol.pushBlockOnHead_switches
    ⟨inSync.history, inSync.fork.unpin⟩ holds switches steady
  have nonempty := (switches.turn inSync).nonempty
  unfold Throwing.Throws after Throwing.after before
  rw [same]
  cases popped : db.undo.popCommits olds.length with
  | none =>
    obtain ⟨throws, untouched⟩ := switch_short_untouched_iff inSync serves switches popped
    refine ⟨throws, rfl, untouched.trans ?_⟩
    simp
  | some undo =>
    obtain ⟨throws, untouched⟩ := switch_untouched_iff inSync serves switches popped
      (fails undo popped)
    refine ⟨throws, rfl, untouched.trans ?_⟩
    have some : db.undo.popCommit ≠ none := by
      intro none
      cases olds with
      | nil => exact nonempty rfl
      | cons old rest =>
        obtain ⟨_, one, _⟩ := SnapshotStack.popCommits_succ popped
        cases none.symm.trans one
    simp [some]

/-- A protocol in which every worker can be paid. -/
def solvent : ElectingProtocol (SymbolicHash Nat Nat) Nat Nat
    (SignedBlock (SymbolicHash Nat Nat) Nat Nat) Unit Nat :=
  { ElectingProtocol.reserving with processBudget := fun _ _ objects => some objects.others }

/-- The sibling of the head is invalid, which a successor of it brings out. -/
theorem failed_switch_untouched_invalid_sibling :
    let first := Digests.symbolic.assemble default 0 100 [7]
    let sibling := Digests.symbolic.assemble default 1 100 [3]
    let top := Digests.symbolic.assemble sibling.blockId 0 105 []
    let db := (pushBlockOnHead (solvent.protocol .cleared) sibling).after
      ((pushBlockOnHead (solvent.protocol .cleared) first).after
        (.initial (.genesis [0, 1, 2] ElectingProtocol.twoOfThree)))
    Untouched (solvent.protocol .cleared) db
      ((solvent.pushBlockOnHead top).after (ElectingNode.cleared db)).db := by
  intro first sibling top db
  have opened : Initialized (solvent.protocol .cleared)
      (.initial (.genesis [0, 1, 2] ElectingProtocol.twoOfThree)) :=
    .opened ⟨rfl, rfl, by decide⟩ rfl (Objects.genesis_sound _ _ _) rfl
  obtain ⟨_, initial⟩ := InSync.of_initialized opened
  obtain ⟨_, extended⟩ := initial.pushBlockOnHead
    (.applies (by decide +kernel) (by decide +kernel) : Harmless _ _ first)
  let head : ForkItem (SymbolicHash Nat Nat) Nat Nat := ⟨0, none, first⟩
  have lower : sibling.blockNum ≤ head.num := by decide +kernel
  obtain ⟨_, inSync⟩ := extended.pushBlockOnHead
    (.lower (by decide +kernel) lower : Harmless _ _ sibling)
  let low : ForkItem (SymbolicHash Nat Nat) Nat Nat := ⟨1, none, sibling⟩
  let newHead : ForkItem (SymbolicHash Nat Nat) Nat Nat := ⟨2, some 1, top⟩
  let fork : ForkDatabase (SymbolicHash Nat Nat) Nat Nat :=
    { index := [head, low, newHead], head := some newHead, maxSize := 2
      nextRef := 3 }
  have switches : Switches (solvent.protocol .cleared) db top fork newHead
      [newHead, low] [head] := by
    constructor
    case identified => exact Digests.assemble_identified _ _ _ _ _
    all_goals decide +kernel
  have serves : db.blocks.Serves Digests.symbolic Packing.whole db.objects.mainChain := by
    have isChain : db.objects.mainChain = [first] := by decide +kernel
    rw [isChain]
    intro number block found
    have number_le : number ≤ 1 := blockAt_le found
    obtain rfl | rfl := Nat.le_one_iff_eq_zero_or_eq_one.mp number_le
    · cases found
    · cases found
      decide +kernel
  let undo := (db.undo.popCommits [head].length).get (by decide +kernel)
  have popped : db.undo.popCommits [head].length = some undo := (Option.some_get _).symm
  have fails : undo.current.applyBlock (solvent.protocol .cleared) low.data = none :=
    Option.isNone_iff_eq_none.mp (by decide +kernel)
  have steady (item : ForkItem _ _ _) : solvent.Steady (fun _ => True) item.data :=
    fun objects _ => ⟨ElectingProtocol.interrupts_of_paid (fun _ => rfl) fun _ _ _ => rfl,
      fun _ _ => trivial⟩
  have iff := failed_switch_untouched_iff inSync serves switches (fun item _ => steady item)
    ⟨trivial, fun _ _ => trivial⟩ fun other same => by
      cases popped.symm.trans same
      show Objects.applyBlocks _ _ (low.data :: _) = none
      rw [Objects.applyBlocks, fails]
  exact iff.2.2.mpr (.inr ⟨undo, low, popped, rfl, fails⟩)

/-- With a valid sibling, it is the successor that fails.  The number of the
head then leads to the sibling. -/
theorem failed_switch_displaces_head :
    let base := Digests.symbolic.assemble default 0 true [7]
    let first := Digests.symbolic.assemble base.blockId 1 true []
    let sibling := Digests.symbolic.assemble base.blockId 2 true []
    let top := Digests.symbolic.assemble sibling.blockId 0 false []
    let db := (Throwing.forEach (fun block => do let _ ← pushBlockOnHead Protocol.symbolic block)
        [base, first, sibling]).after
      (.initial (.genesis [0, 1, 2] ()))
    let after := (pushBlockOnHead Protocol.symbolic top).after db
    (pushBlockOnHead Protocol.symbolic top).Throws db ∧ db.objects.mainChain = [first, base] ∧
      after.objects.mainChain = [first, base] ∧
      db.blocks.fetchBlockId 2 = some first.blockId ∧
      after.blocks.fetchBlockId 2 = some sibling.blockId := by
  decide +kernel

end Database

end CocosChain.Chain

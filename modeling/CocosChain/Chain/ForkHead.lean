import CocosChain.Chain.History
import CocosChain.Chain.PendingTransactions

/-!
# The tree of recent blocks and the head of the chain

The head of the tree is meant to be the head block of the chain.  Pushing a
block moves the head of the tree first and the chain afterwards, and what is
done to the tree when the chain cannot follow does not always take its head
back.  The two stay together as long as every block pushed is refused before it
enters the tree, or is not higher than the head, or builds on the head block
and can be applied.
-/

namespace CocosChain.Chain

open ForkDatabase

namespace Database

variable {Hash Rest Tx Byte σ : Type} [DecidableEq Hash] [Inhabited Hash]
variable (protocol : Protocol Hash Rest Tx Byte σ)

/-- The head of the tree is in the index and is the head block, unless nothing
has been put into the tree yet. -/
inductive Agrees (db : Database Hash Rest Tx Byte σ) : Prop where
  | empty (noHead : db.fork.head = none) (index : db.fork.index = [])
  | head {item : ForkItem Hash Rest Tx} (isHead : db.fork.head = some item)
      (indexed : item ∈ db.fork.index) (same : item.id = db.headBlockId)

instance [DecidableEq Rest] [DecidableEq Tx]
    (db : Database Hash Rest Tx Byte σ) : Decidable (Agrees db) :=
  match head : db.fork.head with
  | none => decidable_of_iff (db.fork.index = []) ⟨.empty head, by
        rintro (⟨_, index⟩ | ⟨isHead, _, _⟩)
        · exact index
        · cases head.symm.trans isHead⟩
  | some item =>
      decidable_of_iff (item ∈ db.fork.index ∧ item.id = db.headBlockId)
        ⟨fun found => .head head found.1 found.2, by
          rintro (⟨noHead, _⟩ | ⟨isHead, indexed, same⟩)
          · cases head.symm.trans noHead
          · cases head.symm.trans isHead
            exact ⟨indexed, same⟩⟩

/-- A database that has just been opened.  It has no undo history, and its
tree is empty or started from the head block. -/
inductive Initialized (db : Database Hash Rest Tx Byte σ) : Prop where
  | opened (settled : db.Settled) (saved : db.undo.saved = [])
      (sound : db.objects.Sound protocol.digests)
      (fork : db.fork = .initial)
  | started {block : SignedBlock Hash Rest Tx}
      {older : List (SignedBlock Hash Rest Tx)}
      (settled : db.Settled) (saved : db.undo.saved = [])
      (sound : db.objects.Sound protocol.digests)
      (chain : db.objects.mainChain = block :: older)
      (fork : db.fork = ForkDatabase.initial.startBlock block)

/-- `trail` are the items of the newest blocks of the chain, whether or not
they are still in the index; its first one is the head of the tree, and no item
of the index is higher. -/
structure InSync (trail : List (ForkItem Hash Rest Tx))
    (db : Database Hash Rest Tx Byte σ) : Prop where
  history : History protocol db
  fork : db.fork.Sound protocol.digests trail
  head : db.fork.head = trail.head?
  indexed : ∀ item, trail.head? = some item → item ∈ db.fork.index
  low : ∀ item ∈ db.fork.index, item.num ≤ db.headBlockNum
  empty : trail = [] → db.fork.index = []
  blocks : trail.map ForkItem.data <+: db.objects.mainChain
  links : trail.IsChain fun newer older => newer.prev = some older.ref
  root : ∀ oldest, trail.getLast? = some oldest → oldest.prev = none

/-- The block does not part the tree from the chain. -/
inductive Harmless (db : Database Hash Rest Tx Byte σ)
    (newBlock : SignedBlock Hash Rest Tx) : Prop where
  | unidentified (bad : ¬ protocol.digests.Identified newBlock)
  | refused {fault : ForkFault} (refused : db.fork.link newBlock = .error fault)
  | lower {head : ForkItem Hash Rest Tx} (isHead : db.fork.head = some head)
      (lower : newBlock.blockNum ≤ head.num)
  | applies (onHead : newBlock.previous = db.headBlockId)
      (applied : (db.objects.applyBlock protocol newBlock).isSome)

/-- The block may enter the tree. -/
def Admits (fork : ForkDatabase Hash Rest Tx) (newBlock : SignedBlock Hash Rest Tx) : Prop :=
  protocol.digests.Identified newBlock ∧ ∃ prev, fork.link newBlock = .ok prev

variable {protocol} {db : Database Hash Rest Tx Byte σ} {newBlock : SignedBlock Hash Rest Tx}

theorem pushBlockOnHead_unidentified (bad : ¬ protocol.digests.Identified newBlock) :
    pushBlockOnHead protocol newBlock db = (.error .badBlockId, db) := by
  unfold pushBlockOnHead
  rw [Throwing.get_bind]
  exact congrFun (if_pos bad) db

theorem pushBlockOnHead_refused (identified : protocol.digests.Identified newBlock)
    (refused : db.fork.link newBlock = .error fault) :
    pushBlockOnHead protocol newBlock db = (.error (.fork fault), db) := by
  have pushed : db.fork.pushBlock newBlock = .error fault := by
    unfold ForkDatabase.pushBlock
    rw [refused]
  unfold pushBlockOnHead
  rw [Throwing.get_bind, if_neg (c := _ ≠ _) (not_not.mpr identified), pushed]
  rfl

namespace InSync

variable {trail : List (ForkItem Hash Rest Tx)}

section

variable (inSync : InSync protocol trail db)
include inSync

theorem head_id (isHead : db.fork.head = some item) : item.id = db.headBlockId := by
  have blocks := inSync.blocks
  rw [inSync.head] at isHead
  obtain ⟨_, rfl⟩ := List.head?_eq_some_iff.mp isHead
  rw [List.map_cons] at blocks
  obtain ⟨_, chain⟩ := blocks
  unfold headBlockId
  rw [inSync.history.objects_sound.tip, ← chain]
  rfl

theorem agrees : Agrees db := by
  cases isHead : db.fork.head with
  | none =>
    refine .empty isHead (inSync.empty ?_)
    rw [inSync.head] at isHead
    exact List.head?_eq_none_iff.mp isHead
  | some item =>
    refine .head isHead (inSync.indexed item ?_) (inSync.head_id isHead)
    rw [← inSync.head]
    exact isHead

theorem head_num (isHead : db.fork.head = some item) : item.num = db.headBlockNum := by
  have alive : item ∈ db.fork.owned trail := by
    unfold ForkDatabase.owned
    rw [isHead]
    simp
  have number := (inSync.fork.items.identified item alive).number
  have same := inSync.head_id isHead
  have headNumber := inSync.history.objects_sound.headId_number
  change item.id.number = item.num at number
  rw [← number, same]
  exact headNumber

theorem lower (identified : protocol.digests.Identified newBlock)
    (linked : db.fork.link newBlock = .ok prev) {head : ForkItem Hash Rest Tx}
    (isHead : db.fork.head = some head) (lower : newBlock.blockNum ≤ head.num) :
    ∃ fork, pushBlockOnHead protocol newBlock db = (.ok false, { db with fork := fork }) ∧
      fork.maxSize = db.fork.maxSize ∧
      InSync protocol trail { db with fork := fork } := by
  let item : ForkItem Hash Rest Tx := ⟨db.fork.nextRef, prev, newBlock⟩
  let allocated := { db.fork with nextRef := db.fork.nextRef + 1 }
  obtain ⟨pushed, stays⟩ := pushBlock_of_lower linked isHead lower
  refine ⟨allocated.insert item, ?_, insert_maxSize item, ?_⟩
  · have alive := List.mem_append_left trail (List.mem_append_right db.fork.index
        (Option.mem_toList.mpr isHead))
    have offHead := (inSync.fork.items.identified head alive).previous_ne
    have same : head.data.blockId = db.headBlockId := inSync.head_id isHead
    rw [same] at offHead
    rw [pushBlockOnHead_pushed protocol identified pushed stays, if_pos offHead, if_neg]
    rw [inSync.head_num isHead]
    exact Nat.lt_irrefl _
  · have held := inSync.fork.pushBlock_held identified linked pushed
    refine ⟨inSync.history.of_undo rfl rfl,
      held.release (List.subset_cons_self item trail), ?_, ?_, ?_, ?_,
      inSync.blocks, inSync.links, inSync.root⟩
    · exact stays.trans (isHead.symm.trans inSync.head)
    · intro other isTrail
      exact subset_insert item (inSync.indexed other isTrail)
    · intro other indexed
      rcases mem_insert_cases indexed with old | rfl
      · exact inSync.low other old
      · exact lower.trans (inSync.head_num isHead).le
    · rintro rfl
      cases isHead.symm.trans inSync.head

theorem link_onHead (onHead : newBlock.previous = db.headBlockId) :
    db.fork.link newBlock = .ok (trail.head?.map ForkItem.ref) := by
  unfold ForkDatabase.link
  rw [inSync.head]
  cases trail with
  | nil => rfl
  | cons item rest =>
    have number := inSync.head_num inSync.head
    have same := inSync.head_id inSync.head
    have higher : ¬ newBlock.blockNum ≤ item.num - db.fork.maxSize := by
      have next := inSync.history.objects_sound.blockNum_of_previous onHead.symm
      change newBlock.blockNum = db.headBlockNum + 1 at next
      omega
    have named : newBlock.previous ≠ default := by
      have alive := List.mem_append_right (db.fork.index ++ db.fork.head.toList)
        (List.mem_cons_self (a := item) (l := rest))
      rw [onHead, ← same]
      exact (inSync.fork.items.identified item alive).ne_default
    have found : db.fork.fetchBlock newBlock.previous = some item := by
      rw [onHead, ← same]
      exact fetchBlock_of_mem inSync.fork.distinct (inSync.indexed item rfl)
    dsimp only [List.head?_cons]
    rw [if_neg higher, if_neg named, found]
    rfl

theorem pushBlock_onHead (identified : protocol.digests.Identified newBlock)
    (onHead : newBlock.previous = db.headBlockId)
    (isItem : item = ⟨db.fork.nextRef, trail.head?.map ForkItem.ref, newBlock⟩) :
    ∃ fork, db.fork.pushBlock newBlock = .ok fork ∧ fork.head = some item ∧ item ∈ fork.index ∧
      (∀ other ∈ fork.index, other ∈ db.fork.index ∨ other = item) ∧
      fork.Sound protocol.digests (item :: trail) := by
  have linked := inSync.link_onHead onHead
  have number : item.num = db.headBlockNum + 1 := by
    rw [isItem]
    exact inSync.history.objects_sound.blockNum_of_previous onHead.symm
  let allocated := { db.fork with nextRef := db.fork.nextRef + 1 }
  have pushed : db.fork.pushBlock newBlock = .ok ((allocated.insert item).advance item) := by
    unfold ForkDatabase.pushBlock
    rw [linked, isItem]
  have higher : ∀ head, (allocated.insert item).head = some head → head.num < item.num := by
    intro head isHead
    rw [insert_head] at isHead
    rw [number, inSync.head_num isHead]
    exact Nat.lt_succ_self _
  have new : allocated.fetchBlock item.id = none := by
    cases found : allocated.fetchBlock item.id with
    | none => rfl
    | some other =>
      obtain ⟨same, indexed⟩ := fetchBlock_eq_some found
      have low := inSync.low other indexed
      have otherNumber := (inSync.fork.items.identified other (mem_owned_of_index indexed)).number
      have itemNumber : item.id.number = item.num := by
        rw [isItem]
        exact identified.number
      change other.id.number = other.num at otherNumber
      rw [same] at otherNumber
      omega
  refine ⟨_, pushed, advance_head higher, mem_advance (mem_insert new) le_rfl, ?_, ?_⟩
  · intro other indexed
    have known : other ∈ allocated.index ∨ other = item :=
      mem_insert_cases (advance_subset item indexed)
    exact known
  · have held := inSync.fork.pushBlock_held identified linked pushed
    rw [← isItem] at held
    exact held

theorem extended {fork : ForkDatabase Hash Rest Tx}
    (points : item.prev = trail.head?.map ForkItem.ref)
    (identified : protocol.digests.Identified item.data)
    (isHead : fork.head = some item) (indexed : item ∈ fork.index)
    (known : ∀ other ∈ fork.index, other ∈ db.fork.index ∨ other = item)
    (sound : fork.Sound protocol.digests (item :: trail))
    (applied : db.objects.applyBlock protocol item.data = some next)
    (id : BlockId Hash) (kept : Nat) :
    InSync protocol (item :: trail) (Database.extended protocol id item.data next kept
        { db with fork := fork }) := by
  have ext := Objects.applyBlock_extends applied
  have number : next.headBlockNumber = db.headBlockNum + 1 := by
    rw [ext.headNumber]
    exact inSync.history.objects_sound.blockNum_of_previous ext.previous
  have history : History protocol { db with fork := fork } := inSync.history.of_undo rfl rfl
  constructor
  · exact history.extended identified applied id kept
  · exact sound.setMaxSize _
  · exact (setMaxSize_head _).trans isHead
  · rintro _ ⟨⟩
    exact mem_setMaxSize isHead indexed (Nat.sub_le _ _)
  · intro other member
    change other.num ≤ next.headBlockNumber
    rcases known other (setMaxSize_subset _ member) with
      old | rfl
    · rw [number]
      exact (inSync.low other old).trans (Nat.le_succ _)
    · exact ext.headNumber.ge
  · nofun
  · change _ <+: next.mainChain
    rw [ext.chain, List.map_cons]
    exact List.cons_prefix_cons.mpr ⟨rfl, inSync.blocks⟩
  · cases trail with
    | nil => exact .singleton _
    | cons older rest =>
      exact List.isChain_cons_cons.mpr ⟨points, inSync.links⟩
  · intro oldest isLast
    cases trail with
    | nil =>
      cases isLast
      exact points
    | cons older rest =>
      rw [List.getLast?_cons_cons] at isLast
      exact inSync.root oldest isLast

theorem applies (identified : protocol.digests.Identified newBlock)
    (onHead : newBlock.previous = db.headBlockId)
    (applied : db.objects.applyBlock protocol newBlock = some next) :
    ∃ after item, pushBlockOnHead protocol newBlock db = (.ok false, after) ∧
      0 < after.fork.maxSize ∧ InSync protocol (item :: trail) after := by
  obtain ⟨fork, pushed, isHead, indexed, known, sound⟩ :=
    inSync.pushBlock_onHead identified onHead rfl
  let pushedDb := { db with fork := fork }
  have room : 0 < pushedDb.undo.maxSize := inSync.history.positive
  obtain ⟨kept, _, ran⟩ := applyAndStore_returns protocol room newBlock.blockId applied
  have sized : 0 < (Database.extended protocol newBlock.blockId newBlock next
      kept pushedDb).fork.maxSize :=
    (setMaxSize_maxSize _).symm ▸ Nat.succ_pos _
  refine ⟨_, _, ?_, sized, inSync.extended rfl identified isHead indexed known
    sound applied newBlock.blockId kept⟩
  rw [pushBlockOnHead_pushed protocol identified pushed isHead, if_neg (not_not.mpr onHead)]
  unfold extendHead
  exact Throwing.bind_of_ok (Throwing.handle_of_ok ran)

section

variable (harmless : Harmless protocol db newBlock)
include harmless

theorem accepts (identified : protocol.digests.Identified newBlock)
    (linked : db.fork.link newBlock = .ok prev) :
    ∃ after newTrail, pushBlockOnHead protocol newBlock db = (.ok false, after) ∧
        InSync protocol newTrail after := by
  cases harmless with
  | unidentified bad => exact absurd identified bad
  | refused refused => cases refused.symm.trans linked
  | lower isHead lower =>
    obtain ⟨_, ran, _, kept⟩ := inSync.lower identified linked isHead lower
    exact ⟨_, trail, ran, kept⟩
  | applies onHead applied =>
    obtain ⟨_, applied⟩ := Option.isSome_iff_exists.mp applied
    obtain ⟨after, item, ran, _, kept⟩ := inSync.applies identified onHead applied
    exact ⟨after, item :: trail, ran, kept⟩

theorem outcome : (¬ Admits protocol db.fork newBlock ∧ ∃ fault,
        pushBlockOnHead protocol newBlock db = (.error fault, db)) ∨
      (Admits protocol db.fork newBlock ∧ ∃ after newTrail,
        pushBlockOnHead protocol newBlock db = (.ok false, after) ∧
          InSync protocol newTrail after) := by
  by_cases identified : protocol.digests.Identified newBlock
  · cases linked : db.fork.link newBlock with
    | error fault =>
      refine .inl ⟨?_, _, pushBlockOnHead_refused identified linked⟩
      rintro ⟨_, prev, admitted⟩
      cases linked.symm.trans admitted
    | ok prev =>
      exact .inr ⟨⟨identified, prev, linked⟩, inSync.accepts harmless identified linked⟩
  · exact .inl ⟨fun admitted => identified admitted.1, _, pushBlockOnHead_unidentified identified⟩

theorem returns_iff : (pushBlockOnHead protocol newBlock).Returns db ↔
      Admits protocol db.fork newBlock := by
  unfold Throwing.Returns
  rcases inSync.outcome harmless with
    ⟨refused, fault, ran⟩ | ⟨admitted, after, _, ran, _⟩
  · simp [ran, refused]
  · simp [ran, admitted]

theorem unchanged_of_throws (throws : (pushBlockOnHead protocol newBlock).Throws db) :
    (pushBlockOnHead protocol newBlock).after db = db := by
  obtain ⟨fault, thrown⟩ := throws
  unfold Throwing.after
  rcases inSync.outcome harmless with
    ⟨_, fault, ran⟩ | ⟨_, after, _, ran, _⟩
  · rw [ran]
  · rw [ran] at thrown
    cases thrown

theorem pushBlockOnHead : ∃ newTrail, InSync protocol newTrail
      ((Database.pushBlockOnHead protocol newBlock).after db) := by
  unfold Throwing.after
  rcases inSync.outcome harmless with
    ⟨_, fault, ran⟩ | ⟨_, after, newTrail, ran, kept⟩
  · rw [ran]
    exact ⟨trail, inSync⟩
  · rw [ran]
    exact ⟨newTrail, kept⟩

end

/-- The pending transactions, those of popped blocks and the oldest snapshots
do not matter. -/
theorem of_same (history : History protocol other)
    (objects : other.objects = db.objects) (fork : other.fork = db.fork) :
    InSync protocol trail other where
  history := history
  fork := fork ▸ inSync.fork
  head := fork ▸ inSync.head
  indexed := fork ▸ inSync.indexed
  low := by
    unfold headBlockNum
    rw [fork, objects]
    exact inSync.low
  empty := fork ▸ inSync.empty
  blocks := objects ▸ inSync.blocks
  links := inSync.links
  root := inSync.root

end

theorem of_initialized (initialized : Initialized protocol db) :
    ∃ trail, InSync protocol trail db := by
  have fresh (settled : db.Settled) (saved : db.undo.saved = [])
      (sound : db.objects.Sound protocol.digests) : History protocol db := by
    refine ⟨settled, ⟨sound, ?_⟩, ?_⟩
    · rw [saved]
      nofun
    · rw [saved]
      trivial
  cases initialized with
  | opened settled saved sound fork =>
    refine ⟨[], fresh settled saved sound, ?_, ?_, nofun, ?_, ?_, List.nil_prefix, .nil, nofun⟩
    · rw [fork]
      exact ⟨⟨nofun, nofun, nofun, nofun, nofun⟩, List.nodup_nil⟩
    · rw [fork]
      rfl
    · rw [fork]
      nofun
    · intro _
      rw [fork]
      rfl
  | @started block older settled saved sound chain fork =>
    let item : ForkItem Hash Rest Tx := ⟨0, none, block⟩
    have identified : protocol.digests.Identified block := by
      have chained := sound.chained
      rw [chain] at chained
      exact chained.2.1
    have index : db.fork.index = [item] := by
      rw [fork]
      rfl
    have alone {other : ForkItem Hash Rest Tx}
        (alive : other ∈ db.fork.owned [item]) : other = item := by
      rw [fork] at alive
      change other ∈ [item, item, item] at alive
      simpa using alive
    refine ⟨[item], fresh settled saved sound, ⟨?_, ?_⟩, ?_, ?_, ?_, nofun, ?_, .singleton _, ?_⟩
    · have nextRef : db.fork.nextRef = 1 := by
        rw [fork]
        rfl
      rw [nextRef]
      refine ⟨?_, ?_, ?_, ?_, ?_⟩
      · intro other alive
        rw [alone alive]
        exact identified
      · intro other alive
        rw [alone alive]
        exact Nat.one_pos
      · intro other alive ref points
        rw [alone alive] at points
        cases points
      · intro first firstAlive second secondAlive _
        rw [alone firstAlive, alone secondAlive]
      · intro other alive prev _ points
        rw [alone alive] at points
        cases points
    · rw [index]
      exact List.nodup_singleton _
    · rw [fork]
      rfl
    · rintro _ ⟨⟩
      rw [index]
      exact List.mem_singleton_self item
    · intro other indexed
      rw [index] at indexed
      rw [List.mem_singleton.mp indexed]
      have number := sound.headId_number
      rw [sound.tip, chain] at number
      exact (identified.number.symm.trans number).le
    · rw [chain]
      exact List.cons_prefix_cons.mpr ⟨rfl, List.nil_prefix⟩
    · rintro _ ⟨⟩
      rfl

end InSync

theorem InSync.cleared (inSync : InSync protocol trail settled) :
    InSync protocol trail { settled with pendingTx := [] } :=
  inSync.of_same (inSync.history.of_undo rfl rfl) rfl rfl

theorem Harmless.of_same (harmless : Harmless protocol db newBlock)
    (objects : other.objects = db.objects) (fork : other.fork = db.fork) :
    Harmless protocol other newBlock := by
  cases harmless with
  | unidentified bad => exact .unidentified bad
  | refused refused => exact .refused (fork ▸ refused)
  | lower isHead lower => exact .lower (fork ▸ isHead) lower
  | applies onHead applied =>
    refine .applies ?_ (objects ▸ applied)
    unfold headBlockId at onHead ⊢
    rw [objects]
    exact onHead

omit [DecidableEq Hash] [Inhabited Hash]

theorem Awaits.fork_eq (awaits : Awaits settled db) : db.fork = settled.fork := by
  cases awaits with
  | idle pendingTx => rfl
  | pending pendingTx same => rfl

theorem Agrees.of_awaits (agrees : Agrees settled) (awaits : Awaits settled db) : Agrees db := by
  have same : settled.headBlockId = db.headBlockId := by
    unfold headBlockId
    rw [awaits.sameChain]
  cases agrees with
  | empty noHead index =>
    rw [← awaits.fork_eq] at noHead index
    exact .empty noHead index
  | head isHead indexed isSame =>
    rw [← awaits.fork_eq] at isHead indexed
    exact .head isHead indexed (isSame.trans same)

end Database

namespace ForkHead

variable {Hash Rest Tx Byte σ : Type} [DecidableEq Hash] [Inhabited Hash]
variable (protocol : Protocol Hash Rest Tx Byte σ)

/-- Pushes blocks in turn, whether or not some of them throw. -/
def pushBlocks (blocks : List (SignedBlock Hash Rest Tx))
    (db : Database Hash Rest Tx Byte σ) : Database Hash Rest Tx Byte σ :=
  blocks.foldl (fun db block => (Database.pushBlock protocol block).after db) db

/-- The states that pushing harmless blocks reaches from a database that has
been opened.  A block meets the state without the pending transactions. -/
inductive Reachable : Database Hash Rest Tx Byte σ → Prop where
  | initialized {db : Database Hash Rest Tx Byte σ}
      (initialized : Database.Initialized protocol db) : Reachable db
  | pushBlock {db : Database Hash Rest Tx Byte σ} (reached : Reachable db)
      (newBlock : SignedBlock Hash Rest Tx)
      (harmless : Database.Harmless protocol db.clearPending newBlock) :
      Reachable ((Database.pushBlock protocol newBlock).after db)

variable {protocol}

theorem pushBlock_awaits (isSettled : settled.Settled) (awaits : Database.Awaits settled db)
    (history : Database.History protocol ((Database.pushBlockOnHead protocol
      newBlock).after { settled with pendingTx := [] })) :
    ∃ next, Database.Awaits next ((Database.pushBlock protocol newBlock).after db) ∧
      Database.History protocol next ∧
      next.objects = ((Database.pushBlockOnHead protocol newBlock).after
        { settled with pendingTx := [] }).objects ∧
      next.fork = ((Database.pushBlockOnHead protocol newBlock).after
        { settled with pendingTx := [] }).fork := by
  have isRoomy := history.room
  obtain ⟨kept, _, after⟩ := history.toSettled.restorePending protocol
    db.pendingTx (Nat.one_le_of_lt isRoomy) (.inl isRoomy)
  have ran := congrArg Prod.snd (Database.pushBlock_eq protocol isSettled awaits newBlock)
  unfold Throwing.after at ran after ⊢
  rw [ran]
  exact ⟨_, after, (history.trim kept).of_undo rfl rfl, rfl, rfl⟩

theorem reachable_inSync (reached : Reachable protocol db) :
    ∃ settled trail, Database.Awaits settled db ∧ Database.InSync protocol trail settled := by
  induction reached with
  | initialized initialized =>
    obtain ⟨trail, inSync⟩ := Database.InSync.of_initialized initialized
    exact ⟨_, trail, .idle _, inSync⟩
  | pushBlock _ newBlock harmless induction =>
    obtain ⟨_, _, awaits, inSync⟩ := induction
    have isSettled := inSync.history.toSettled
    rw [awaits.clearPending isSettled] at harmless
    obtain ⟨newTrail, pushed⟩ := inSync.cleared.pushBlockOnHead harmless
    obtain ⟨next, after, history, objects, fork⟩ := pushBlock_awaits isSettled awaits pushed.history
    exact ⟨next, newTrail, after, pushed.of_same history objects fork⟩

theorem returns_iff_admits (awaits : Database.Awaits settled db)
    (inSync : Database.InSync protocol trail settled)
    (harmless : Database.Harmless protocol settled newBlock) :
    (Database.pushBlock protocol newBlock).Returns db ↔
      Database.Admits protocol settled.fork newBlock := by
  have iff := inSync.cleared.returns_iff (harmless.of_same rfl rfl)
  unfold Throwing.Returns at iff ⊢
  rw [Database.pushBlock_eq protocol inSync.history.toSettled awaits]
  exact iff

/-- In every state reached the heads agree.  A push that throws leaves nothing
behind, and a block that would have been accepted before it still is. -/
theorem heads_agree (reached : Reachable protocol db) : Database.Agrees db ∧
      ∀ newBlock, Database.Harmless protocol db.clearPending newBlock →
        (Database.pushBlock protocol newBlock).Throws db →
        (Database.pushBlockOnHead protocol newBlock).after db.clearPending = db.clearPending ∧
          ∀ other, Database.Harmless protocol db.clearPending other →
            (Database.pushBlock protocol other).Returns db →
            (Database.pushBlock protocol other).Returns
              ((Database.pushBlock protocol newBlock).after db) := by
  obtain ⟨settled, _, awaits, inSync⟩ := reachable_inSync reached
  have isSettled := inSync.history.toSettled
  have cleared := inSync.cleared
  rw [awaits.clearPending isSettled]
  constructor
  · exact inSync.agrees.of_awaits awaits
  · intro newBlock harmless throws
    have thrown : (Database.pushBlockOnHead protocol newBlock).Throws
        { settled with pendingTx := [] } := by
      unfold Throwing.Throws at throws
      rw [Database.pushBlock_eq protocol isSettled awaits] at throws
      exact throws
    have unchanged := cleared.unchanged_of_throws harmless thrown
    refine ⟨unchanged, ?_⟩
    intro other otherHarmless returns
    have pushed : Database.History protocol ((Database.pushBlockOnHead protocol newBlock).after
          { settled with pendingTx := [] }) := by
      rw [unchanged]
      exact cleared.history
    obtain ⟨_, after, history, objects, fork⟩ := pushBlock_awaits isSettled awaits pushed
    rw [unchanged] at objects fork
    have nextSync := cleared.of_same history objects fork
    rw [returns_iff_admits after nextSync (otherHarmless.of_same objects fork), fork]
    exact (returns_iff_admits awaits inSync (otherHarmless.of_same rfl rfl)).mp returns

/-- A second block at the height of the head is remembered. -/
theorem heads_agree_two_branches :
    let first := Digests.symbolic.assemble default 0 true [7]
    let sibling := Digests.symbolic.assemble default 1 true [8]
    (pushBlocks Protocol.symbolic [first, sibling]
        (.initial (.genesis [0, 1, 2] ()))).fork.index.length = 2 ∧
      Database.Agrees (pushBlocks Protocol.symbolic [first, sibling]
        (.initial (.genesis [0, 1, 2] ()))) := by
  intro first sibling
  have opened : Reachable Protocol.symbolic (.initial (.genesis [0, 1, 2] ())) :=
    .initialized (.opened ⟨rfl, rfl, by decide⟩ rfl (Objects.genesis_sound _ _ _) rfl)
  have extended := opened.pushBlock first (.applies (by decide +kernel) (by decide +kernel))
  let head : ForkItem (SymbolicHash Bool Nat) Bool Nat := ⟨0, none, first⟩
  have lower : sibling.blockNum ≤ head.num := by decide +kernel
  have reached := extended.pushBlock sibling (.lower (by decide +kernel) lower)
  exact ⟨by decide +kernel, (heads_agree reached).1⟩

/-- An invalid block stays the head of the tree when it is rejected.  A block
that the database would have remembered is then refused. -/
theorem heads_part_after_invalid_block :
    let first := Digests.symbolic.assemble default 0 true []
    let invalid := Digests.symbolic.assemble first.blockId 0 false []
    let sibling := Digests.symbolic.assemble default 1 true []
    let db := pushBlocks Protocol.symbolic [first] (.initial (.genesis [0, 1, 2] ()))
    let rejected := pushBlocks Protocol.symbolic [invalid] db
    (Database.pushBlock Protocol.symbolic invalid).Throws db ∧ ¬ Database.Agrees rejected ∧
      (Database.pushBlock Protocol.symbolic sibling).Returns db ∧
      (Database.pushBlock Protocol.symbolic sibling).Throws rejected := by
  decide +kernel

end ForkHead

end CocosChain.Chain

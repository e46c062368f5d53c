import CocosChain.Chain.History
import CocosChain.Chain.Maintenance

/-!
# Nodes with their members

Maintenance reads and fills members of the database that are no objects, and
that no session restores.  So a block that is pushed is applied with the members
that the one before it has left, also where it is one of many in a fork switch.
As long as no maintenance is interrupted they are empty between any two blocks,
and a node does what it would do without them.
-/

namespace CocosChain.Chain

structure ElectingNode (Hash Rest Tx Byte Key ρ : Type) where
  db : Database Hash Rest Tx Byte (Electorate Key ρ)
  members : Members

variable {Hash Rest Tx Byte Key ρ : Type}

namespace ElectingNode

/-- A computation that leaves the members alone. -/
def lift (action : Throwing Fault (Database Hash Rest Tx Byte (Electorate Key ρ)) α) :
    Throwing Fault (ElectingNode Hash Rest Tx Byte Key ρ) α :=
  fun node => ((action node.db).1, ⟨(action node.db).2, node.members⟩)

/-- The members are empty. -/
def cleared (db : Database Hash Rest Tx Byte (Electorate Key ρ)) :
    ElectingNode Hash Rest Tx Byte Key ρ :=
  ⟨db, .cleared⟩

end ElectingNode

open ElectingNode Throwing

namespace ElectingProtocol

variable [DecidableEq Hash] [Inhabited Hash] (chain : ElectingProtocol Hash Rest Tx Byte Key ρ)

def applyAndStore (id : BlockId Hash) (block : SignedBlock Hash Rest Tx) :
    Throwing Fault (ElectingNode Hash Rest Tx Byte Key ρ) Unit :=
  fun node =>
    let applied := Database.applyAndStore (chain.protocol node.members) id block node.db
    (applied.1, ⟨applied.2, chain.membersAfter block node.members node.db.objects⟩)

def recover (newBlock : SignedBlock Hash Rest Tx)
    (firsts seconds failed : List (ForkItem Hash Rest Tx)) (fault : Fault) :
    Throwing Fault (ElectingNode Hash Rest Tx Byte Key ρ) Bool := do
  lift (Throwing.modify fun db =>
    { db with fork := (db.fork.removeAll failed).setHead seconds.head? })
  lift (Database.popTo chain.toProtocol (firsts ++ seconds) (ForkDatabase.forkPoint seconds))
  Throwing.forEach (fun item => chain.applyAndStore newBlock.blockId item.data) seconds.reverse
  Throwing.throw fault

def applyBranch (newBlock : SignedBlock Hash Rest Tx)
    (firsts seconds : List (ForkItem Hash Rest Tx)) :
    List (ForkItem Hash Rest Tx) → Throwing Fault (ElectingNode Hash Rest Tx Byte Key ρ) Bool
  | [] => pure true
  | item :: rest => do
      let except ← (chain.applyAndStore item.id item.data).attempt
      match except with
      | .error fault => chain.recover newBlock firsts seconds (item :: rest) fault
      | .ok _ => applyBranch newBlock firsts seconds rest

def switchFork (newBlock : SignedBlock Hash Rest Tx) (newHead : ForkItem Hash Rest Tx) :
    Throwing Fault (ElectingNode Hash Rest Tx Byte Key ρ) Bool := do
  let node ← Throwing.get
  match node.db.fork.fetchBranchFrom newHead.id node.db.headBlockId with
  | .error fault => Throwing.throw (.fork fault)
  | .ok (firsts, seconds) =>
      lift (Database.popTo chain.toProtocol (firsts ++ seconds) (ForkDatabase.forkPoint seconds))
      chain.applyBranch newBlock firsts seconds firsts.reverse

def extendHead (newBlock : SignedBlock Hash Rest Tx) :
    Throwing Fault (ElectingNode Hash Rest Tx Byte Key ρ) Bool := do
  (chain.applyAndStore newBlock.blockId newBlock).handle fun fault => do
    lift (Throwing.modify fun db => { db with fork := db.fork.remove newBlock.blockId })
    Throwing.throw fault
  pure false

def pushBlockOnHead (newBlock : SignedBlock Hash Rest Tx) :
    Throwing Fault (ElectingNode Hash Rest Tx Byte Key ρ) Bool := do
  let node ← Throwing.get
  if newBlock.blockId ≠ chain.digests.makeId newBlock.toSignedBlockHeader then
    Throwing.throw .badBlockId
  else
    match node.db.fork.pushBlock newBlock with
    | .error fault => Throwing.throw (.fork fault)
    | .ok fork =>
        lift (Throwing.modify fun db => { db with fork := fork })
        match fork.head with
        | none => Throwing.throw .noHead
        | some newHead =>
            if newHead.data.previous ≠ node.db.headBlockId then
              if node.db.headBlockNum < newHead.num then chain.switchFork newBlock newHead
              else pure false
            else chain.extendHead newBlock

/-- In states with `P` the maintenance of the block is not interrupted, and `P`
holds after the block. -/
def Steady (P : Objects Hash Rest Tx (Electorate Key ρ) → Prop)
    (block : SignedBlock Hash Rest Tx) : Prop :=
  ∀ objects, P objects → chain.interrupts block objects = false ∧
    ∀ next, objects.applyBlock (chain.protocol .cleared) block = some next → P next

/-- Whatever is undone leads to a state with `P`. -/
def Keeping (P : Objects Hash Rest Tx (Electorate Key ρ) → Prop)
    (db : Database Hash Rest Tx Byte (Electorate Key ρ)) : Prop :=
  Database.History (chain.protocol .cleared) db ∧ db.undo.Forall P

variable {chain} {firsts seconds : List (ForkItem Hash Rest Tx)}
variable {db : Database Hash Rest Tx Byte (Electorate Key ρ)}

theorem Steady.applyAndStore (steady : chain.Steady P block)
    (identified : (chain.protocol .cleared).digests.Identified block) (id : BlockId Hash) :
    Mirrors (chain.Keeping P) cleared (chain.applyAndStore id block)
      (Database.applyAndStore (chain.protocol .cleared) id block) := by
  rintro db ⟨history, holds⟩
  obtain ⟨completes, kept⟩ := steady db.objects holds.1
  have trimmed (count : Nat) : ∀ state ∈ db.undo.saved.take count, P state :=
    fun state member => holds.2 state (List.mem_of_mem_take member)
  refine ⟨?_, Database.History.applyAndStore identified id db history, ?_⟩
  · simp only [ElectingProtocol.applyAndStore, cleared, membersAfter_cleared completes]
  · apply Database.applyAndStore_after (P := fun db => db.undo.Forall P) _ history.positive id
    · intro next count applied _
      exact ⟨kept next applied, List.forall_mem_cons.mpr ⟨holds.1, trimmed count⟩⟩
    · intro count after reverted _
      cases reverted with
      | early => exact ⟨holds.1, trimmed count⟩
      | late => exact ⟨holds.1, trimmed count⟩

theorem popTo_mirrors (pinned : List (ForkItem Hash Rest Tx)) (target : BlockId Hash) :
    Mirrors (chain.Keeping P) cleared (lift (Database.popTo chain.toProtocol pinned target))
      (Database.popTo (chain.protocol .cleared) pinned target) := by
  refine fun db keeping => ⟨rfl, Database.popTo_keeps _ ?_ db keeping⟩
  rintro db ⟨history, holds⟩
  refine ⟨Database.History.popBlock pinned db history, ?_⟩
  apply Database.popBlock_after (P := fun db => db.undo.Forall P) _ history.quiet holds
  · intro fork _
    exact holds
  · intro fork undo poppedTx _ restored
    have saved := holds.2
    rw [SnapshotStack.popCommit_saved restored] at saved
    exact List.forall_mem_cons.mp saved

theorem recover_mirrors (steady : ∀ item ∈ seconds,
      chain.digests.Identified item.data ∧ chain.Steady P item.data)
    (failed : List (ForkItem Hash Rest Tx)) (fault : Fault) :
    Mirrors (chain.Keeping P) cleared (chain.recover newBlock firsts seconds failed fault)
      (Database.recover (chain.protocol .cleared) newBlock firsts seconds failed fault) := by
  refine Mirrors.bind (fun _ keeping => ⟨rfl, keeping.1.of_undo rfl rfl, keeping.2⟩) fun _ => ?_
  refine Mirrors.bind (popTo_mirrors _ _) fun _ => ?_
  refine Mirrors.bind (Mirrors.forEach fun item member => ?_) fun _ _ keeping => ⟨rfl, keeping⟩
  obtain ⟨identified, still⟩ := steady item (List.mem_reverse.mp member)
  exact still.applyAndStore identified _

theorem applyBranch_mirrors (steady : ∀ item ∈ remaining ++ seconds,
      chain.digests.Identified item.data ∧ chain.Steady P item.data) :
    Mirrors (chain.Keeping P) cleared (chain.applyBranch newBlock firsts seconds remaining)
      (Database.applyBranch (chain.protocol .cleared) newBlock firsts seconds remaining) := by
  induction remaining with
  | nil => exact fun _ keeping => ⟨rfl, keeping⟩
  | cons item rest induction =>
    obtain ⟨identified, still⟩ := steady item List.mem_cons_self
    apply Mirrors.bind (still.applyAndStore identified item.id).attempt
    intro except
    cases except with
    | error fault =>
      exact recover_mirrors (fun old member =>
        steady old (List.mem_append_right _ member)) (item :: rest) fault
    | ok _ => exact induction fun later member => steady later (List.mem_cons_of_mem item member)

/-- A switch between branches whose maintenance is not interrupted is the same
with and without the members. -/
theorem pushBlockOnHead_switches (sound : Database.Sound (chain.protocol .cleared) [] db)
    (holds : db.undo.Forall P)
    (switches : Database.Switches (chain.protocol .cleared) db newBlock fork newHead firsts seconds)
    (steady : ∀ item ∈ firsts ++ seconds, chain.Steady P item.data) :
    chain.pushBlockOnHead newBlock (cleared db) =
      ((Database.pushBlockOnHead (chain.protocol .cleared) newBlock db).1,
        cleared (Database.pushBlockOnHead (chain.protocol .cleared) newBlock db).2) := by
  have remembered : Database.Sound (chain.protocol .cleared) (firsts ++ seconds)
      { db with fork := fork } :=
    Database.Sound.fetched ⟨sound.history.of_undo rfl rfl,
      sound.fork.pushBlock switches.identified switches.pushed⟩ switches.fetched
  have branches (item) (member : item ∈ firsts.reverse ++ seconds) :
      chain.digests.Identified item.data ∧ chain.Steady P item.data := by
    have held : item ∈ firsts ++ seconds := by simpa using member
    exact ⟨remembered.identified held, steady item held⟩
  have applied : Mirrors (chain.Keeping P) cleared
      (chain.applyBranch newBlock firsts seconds firsts.reverse) _ := applyBranch_mirrors branches
  rw [Database.pushBlockOnHead_switches _ switches,
    ← (((popTo_mirrors _ _).bind fun _ => applied) _ ⟨remembered.history, holds⟩).1]
  obtain ⟨identified, pushed, head, offHead, higher, fetched⟩ := switches
  have named : ¬newBlock.blockId ≠ chain.digests.makeId newBlock.toSignedBlockHeader :=
    not_not.mpr identified
  have switching : chain.pushBlockOnHead newBlock (cleared db) =
      chain.switchFork newBlock newHead (cleared { db with fork := fork }) := by
    unfold ElectingProtocol.pushBlockOnHead
    rw [Throwing.get_bind, if_neg named]
    simp only [cleared, pushed, head, ne_eq, offHead, not_false_eq_true, if_true, higher]
    rfl
  rw [switching]
  unfold ElectingProtocol.switchFork
  rw [Throwing.get_bind]
  simp only [cleared]
  have found : ({ db with fork := fork } : Database _ _ _ _ _).fork.fetchBranchFrom newHead.id
      ({ db with fork := fork } : Database Hash Rest Tx Byte _).headBlockId =
        .ok (firsts, seconds) := fetched
  rw [found]

end ElectingProtocol

end CocosChain.Chain

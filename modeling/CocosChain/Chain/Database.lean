import CocosChain.Chain.BlockDatabase
import CocosChain.Chain.ForkDatabase
import CocosChain.Library.SnapshotStack
import CocosChain.Library.Throwing
import Mathlib.Data.List.Sort

/-!
# The database: pushing and popping blocks

The database ties three stores together: the objects with their undo history,
the tree of recent blocks and the blocks on disk.  Pushing a block either
extends the chain, or is only remembered, or switches to another branch: blocks
are popped back to the fork and those of the branch applied, and if one of them
fails the old branch is put back.  An exception leaves the stores as they are
at that point, except for what an open undo session takes back.

The objects stand for the whole object state.  Those fields that the handling
of blocks reads or writes are spelt out, and the others are a parameter, just
as what evaluating a transaction does to them.  The undo history is the stack
of snapshots that the undo database has been shown to refine.
-/

namespace CocosChain.Chain

/-- The object state.  `mainChain` is no object of the source: it records the
blocks that led to the state, newest first. -/
structure Objects (Hash Rest Tx σ : Type) where
  headBlockNumber : Nat
  headBlockId : BlockId Hash
  lastIrreversibleBlockNum : Nat
  activeWitnesses : List WitnessId
  lastConfirmedBlockNum : WitnessId → Nat
  transactions : List Hash
  others : σ
  mainChain : List (SignedBlock Hash Rest Tx)

/-- What the maintenance at the end of a block leaves. -/
structure Upkeep (Hash σ : Type) where
  others : σ
  activeWitnesses : List WitnessId
  transactions : List Hash

namespace Objects

variable {Hash Rest Tx σ : Type}

def genesis [Inhabited Hash] (activeWitnesses : List WitnessId) (others : σ) :
    Objects Hash Rest Tx σ :=
  { headBlockNumber := 0
    headBlockId := default
    lastIrreversibleBlockNum := 0
    activeWitnesses := activeWitnesses
    lastConfirmedBlockNum := fun _ => 0
    transactions := []
    others := others
    mainChain := [] }

def isKnownTransaction [DecidableEq Hash] (id : Hash) (objects : Objects Hash Rest Tx σ) : Bool :=
  id ∈ objects.transactions

def setOthers (others : σ) (objects : Objects Hash Rest Tx σ) : Objects Hash Rest Tx σ :=
  { objects with others := others }

/-- The identifiers of transaction objects are unique. -/
def recordTransaction [DecidableEq Hash] (id : Hash)
    (objects : Objects Hash Rest Tx σ) : Objects Hash Rest Tx σ :=
  { objects with transactions := objects.transactions.insert id }

def keep (kept : Upkeep Hash σ) (objects : Objects Hash Rest Tx σ) : Objects Hash Rest Tx σ :=
  { objects with
    others := kept.others
    activeWitnesses := kept.activeWitnesses
    transactions := kept.transactions }

/-- The part of `update_global_dynamic_data` that concerns the head. -/
def advanceHead (block : SignedBlock Hash Rest Tx)
    (objects : Objects Hash Rest Tx σ) : Objects Hash Rest Tx σ :=
  { objects with
    headBlockNumber := block.blockNum
    headBlockId := block.blockId
    mainChain := block :: objects.mainChain }

def updateSigningWitness (block : SignedBlock Hash Rest Tx)
    (objects : Objects Hash Rest Tx σ) : Objects Hash Rest Tx σ :=
  { objects with
    lastConfirmedBlockNum :=
      Function.update objects.lastConfirmedBlockNum block.witness
        block.blockNum }

/-- `GRAPHENE_100_PERCENT` and `GRAPHENE_IRREVERSIBLE_THRESHOLD` -/
def irreversibleOffset (witnesses : Nat) : Nat := (10000 - 70 * 100) * witnesses / 10000

def updateLastIrreversibleBlock (objects : Objects Hash Rest Tx σ) : Objects Hash Rest Tx σ :=
  let confirmed :=
    (objects.activeWitnesses.map objects.lastConfirmedBlockNum).insertionSort (· ≤ ·)
  match confirmed[irreversibleOffset objects.activeWitnesses.length]? with
  | none => objects
  | some number =>
      if objects.lastIrreversibleBlockNum < number then
        { objects with lastIrreversibleBlockNum := number }
      else objects

/-- The bound that both histories get. -/
def undoHistorySize (objects : Objects Hash Rest Tx σ) : Nat :=
  objects.headBlockNumber - objects.lastIrreversibleBlockNum + 1

end Objects

inductive PushState where
  | fromMe
  | fromNet
  | popBlock
  | rePush
  deriving DecidableEq, Repr

inductive ApplyMode where
  | push
  | validateTransaction
  | applyBlock
  deriving DecidableEq, Repr

def PushState.mode : PushState → Option ApplyMode
  | .fromMe => some .push
  | .fromNet => some .validateTransaction
  | .popBlock => some .validateTransaction
  | .rePush => none

/-- What evaluating a transaction does: the state each operation's session
leaves, or nothing if the session was undone; the state in the end, unless it
throws; and whether a contract asked not to keep it. -/
structure Evaluation (σ : Type) where
  sessions : List (Option σ)
  outcome : Option σ
  invoked : Bool

/-- The maintenance at the end of a block, with the sessions of the operations
that it applies. -/
structure Maintenance (Hash σ : Type) where
  sessions : List (Option σ)
  outcome : Option (Upkeep Hash σ)

/-- What the handling of blocks is parametric in. -/
structure Protocol (Hash Rest Tx Byte σ : Type) where
  digests : Digests Hash Rest Tx
  packing : Packing Hash Rest Tx Byte
  /-- The remaining checks of `validate_block_header`. -/
  headerValid : Objects Hash Rest Tx σ → SignedBlock Hash Rest Tx → Bool
  /-- Whether the duplicate check leaves the transaction out. -/
  sharesFee : Tx → Bool
  evaluate : ApplyMode → Objects Hash Rest Tx σ → Tx → Evaluation σ
  /-- The reference block and expiration checks of a transaction that is
  pushed again. -/
  timely : Objects Hash Rest Tx σ → Tx → Bool
  maintain : Objects Hash Rest Tx σ → SignedBlock Hash Rest Tx → Maintenance Hash σ
  /-- The proposals and timed tasks that are due. -/
  agreedTasks : Objects Hash Rest Tx σ → List Tx

/-- A protocol over hashes as terms.  Whether a header is valid is what its
rest says, and transactions do nothing but get recorded. -/
def Protocol.symbolic : Protocol (SymbolicHash Bool Nat) Bool Nat
    (SignedBlock (SymbolicHash Bool Nat) Bool Nat) Unit where
  digests := .symbolic
  packing := .whole
  headerValid _ block := block.rest
  sharesFee _ := false
  evaluate _ _ _ := { sessions := [], outcome := some (), invoked := false }
  timely _ _ := true
  maintain objects _ :=
    { sessions := []
      outcome := some
        { others := objects.others
          activeWitnesses := objects.activeWitnesses
          transactions := objects.transactions } }
  agreedTasks _ := []

inductive Fault where
  | badBlockId
  | fork (fault : ForkFault)
  | popEmptyChain
  | noUndoHistory
  | merkleMismatch
  | previousMismatch
  | headerInvalid
  | duplicateTransaction
  | transactionFailed
  | tooManyMissedBlocks
  | maintenanceFailed
  | untimely
  | noHead
  | unfinished
  deriving DecidableEq, Repr

/-- `irreversiblePeak` is no member of the source: it records the highest
last irreversible block that any block applied so far has led to. -/
structure Database (Hash Rest Tx Byte σ : Type) where
  undo : SnapshotStack (Objects Hash Rest Tx σ)
  fork : ForkDatabase Hash Rest Tx
  blocks : BlockDatabase Hash Byte
  pendingTx : List Tx
  pendingTxSession : Bool
  poppedTx : List Tx
  irreversiblePeak : Nat

namespace Database

variable {Hash Rest Tx Byte σ : Type}

def objects (db : Database Hash Rest Tx Byte σ) : Objects Hash Rest Tx σ := db.undo.current

def headBlockId (db : Database Hash Rest Tx Byte σ) : BlockId Hash := db.objects.headBlockId

def headBlockNum (db : Database Hash Rest Tx Byte σ) : Nat := db.objects.headBlockNumber

/-- The database right after the genesis state has been set up. -/
def initial (genesis : Objects Hash Rest Tx σ) : Database Hash Rest Tx Byte σ :=
  { undo := { current := genesis, saved := [], active := 0, maxSize := 256 }
    fork := .initial
    blocks := { blockNumToPos := [], blocks := [] }
    pendingTx := []
    pendingTxSession := false
    poppedTx := []
    irreversiblePeak := genesis.lastIrreversibleBlockNum }

def writeObjects (change : Objects Hash Rest Tx σ → Objects Hash Rest Tx σ)
    (db : Database Hash Rest Tx Byte σ) : Database Hash Rest Tx Byte σ :=
  { db with undo := db.undo.write (change db.objects) }

def startSession (db : Database Hash Rest Tx Byte σ) : Database Hash Rest Tx Byte σ :=
  { db with undo := db.undo.start }

/-- Ends a session; the undo database refuses only if there is none. -/
def endSession (ending : SnapshotStack (Objects Hash Rest Tx σ) →
      Option (SnapshotStack (Objects Hash Rest Tx σ)))
    (db : Database Hash Rest Tx Byte σ) : Database Hash Rest Tx Byte σ :=
  { db with undo := (ending db.undo).getD db.undo }

def undoSession (db : Database Hash Rest Tx Byte σ) : Database Hash Rest Tx Byte σ :=
  db.endSession SnapshotStack.undo

def resetPendingSession (db : Database Hash Rest Tx Byte σ) : Database Hash Rest Tx Byte σ :=
  if db.pendingTxSession then
    { db.undoSession with pendingTxSession := false }
  else db

def clearPending (db : Database Hash Rest Tx Byte σ) : Database Hash Rest Tx Byte σ :=
  { db.resetPendingSession with pendingTx := [] }

/-- The session of one operation. -/
def operationSession (db : Database Hash Rest Tx Byte σ) : Option σ → Database Hash Rest Tx Byte σ
  | some others =>
      (db.startSession.writeObjects (·.setOthers others)).endSession SnapshotStack.merge
  | none => db.startSession.undoSession

/-- A session that an exception undoes. -/
def guarded {α : Type} (action : Throwing Fault (Database Hash Rest Tx Byte σ) α) :
    Throwing Fault (Database Hash Rest Tx Byte σ) α :=
  action.handle fun fault => do
    Throwing.modify undoSession
    Throwing.throw fault

variable [DecidableEq Hash] [Inhabited Hash] (protocol : Protocol Hash Rest Tx Byte σ)

def isKnownTransaction (tx : Tx) (db : Database Hash Rest Tx Byte σ) : Bool :=
  db.objects.isKnownTransaction (protocol.digests.transactionId tx)

def fetchBlockById (id : BlockId Hash) (db : Database Hash Rest Tx Byte σ) :
    Option (SignedBlock Hash Rest Tx) :=
  match db.fork.fetchBlock id with
  | some item => some item.data
  | none => db.blocks.fetchOptional protocol.digests protocol.packing id

/-- `_apply_transaction`; returns whether a contract asked not to keep it. -/
def applyTransaction (mode : ApplyMode) (tx : Tx) :
    Throwing Fault (Database Hash Rest Tx Byte σ) Bool := do
  let db ← Throwing.get
  if !protocol.sharesFee tx && db.isKnownTransaction protocol tx then
    Throwing.throw .duplicateTransaction
  else
    let evaluation := protocol.evaluate mode db.objects tx
    Throwing.modify (writeObjects (·.recordTransaction (protocol.digests.transactionId tx)))
    Throwing.modify fun db => evaluation.sessions.foldl operationSession db
    match evaluation.outcome with
    | none => Throwing.throw .transactionFailed
    | some others =>
        Throwing.modify (writeObjects (·.setOthers others))
        pure evaluation.invoked

/-- `GRAPHENE_MAX_UNDO_HISTORY` -/
def maxUndoHistory : Nat := 10000

def setHistorySize (size : Nat) (db : Database Hash Rest Tx Byte σ) :
    Database Hash Rest Tx Byte σ :=
  { db with
    undo := { db.undo with maxSize := size }
    fork := db.fork.setMaxSize size }

/-- The histories are sized before the last irreversible block is updated. -/
def updateGlobalDynamicData (block : SignedBlock Hash Rest Tx) :
    Throwing Fault (Database Hash Rest Tx Byte σ) Unit := do
  Throwing.modify (writeObjects (·.advanceHead block))
  let db ← Throwing.get
  if maxUndoHistory ≤ db.headBlockNum - db.objects.lastIrreversibleBlockNum then
    Throwing.throw .tooManyMissedBlocks
  else Throwing.modify (setHistorySize db.objects.undoHistorySize)

/-- The maintenance, the clearing of what has expired and the updates that
follow them. -/
def performMaintenance (block : SignedBlock Hash Rest Tx) :
    Throwing Fault (Database Hash Rest Tx Byte σ) Unit := do
  let db ← Throwing.get
  let maintenance := protocol.maintain db.objects block
  Throwing.modify fun db => maintenance.sessions.foldl operationSession db
  match maintenance.outcome with
  | none => Throwing.throw .maintenanceFailed
  | some kept => Throwing.modify (writeObjects (·.keep kept))

/-- The part of `_apply_block` that follows the transactions. -/
def finishBlock (block : SignedBlock Hash Rest Tx) :
    Throwing Fault (Database Hash Rest Tx Byte σ) Unit := do
  updateGlobalDynamicData block
  Throwing.modify (writeObjects (·.updateSigningWitness block))
  Throwing.modify (writeObjects (·.updateLastIrreversibleBlock))
  performMaintenance protocol block

def applyBlock (block : SignedBlock Hash Rest Tx) :
    Throwing Fault (Database Hash Rest Tx Byte σ) Unit := do
  let db ← Throwing.get
  if block.transactionMerkleRoot ≠ protocol.digests.calculateMerkleRoot block then
    Throwing.throw .merkleMismatch
  else if db.headBlockId ≠ block.previous then
    Throwing.throw .previousMismatch
  else if !protocol.headerValid db.objects block then
    Throwing.throw .headerInvalid
  else
    Throwing.forEach (fun tx => do
        let _ ← applyTransaction protocol .applyBlock tx
        pure ())
      block.transactions
    finishBlock protocol block

/-- Applies a block in a session of its own and stores it on disk. -/
def applyAndStore (id : BlockId Hash) (block : SignedBlock Hash Rest Tx) :
    Throwing Fault (Database Hash Rest Tx Byte σ) Unit := do
  Throwing.modify startSession
  guarded (applyBlock protocol block)
  Throwing.modify fun db =>
    { db with
      blocks := db.blocks.store protocol.digests protocol.packing id block
      irreversiblePeak :=
        max db.irreversiblePeak db.objects.lastIrreversibleBlockNum }
  Throwing.modify (endSession SnapshotStack.commit)

/-- Pops the head block while `pinned` keeps items of the tree alive. -/
def popBlock (pinned : List (ForkItem Hash Rest Tx)) :
    Throwing Fault (Database Hash Rest Tx Byte σ) Unit := do
  Throwing.modify resetPendingSession
  let db ← Throwing.get
  match db.fetchBlockById protocol db.headBlockId with
  | none => Throwing.throw .popEmptyChain
  | some block =>
      match db.fork.popBlock pinned with
      | .error fault => Throwing.throw (.fork fault)
      | .ok fork =>
          Throwing.modify fun db => { db with fork := fork }
          match db.undo.popCommit with
          | none => Throwing.throw .noUndoHistory
          | some undo =>
              Throwing.modify fun db =>
                { db with undo := undo, poppedTx := block.transactions }

/-- Pops blocks until the head is `target`.  Every block popped takes a
snapshot from the undo history, so there are no more rounds than snapshots. -/
def popTo (pinned : List (ForkItem Hash Rest Tx)) (target : BlockId Hash) :
    Throwing Fault (Database Hash Rest Tx Byte σ) Unit := do
  let db ← Throwing.get
  Throwing.repeatWhile (fun db => db.headBlockId ≠ target)
    (popBlock protocol pinned) .unfinished (db.undo.saved.length + 1)

/-- Puts the old branch back after a block of the new one has failed. -/
def recover (newBlock : SignedBlock Hash Rest Tx)
    (firsts seconds failed : List (ForkItem Hash Rest Tx)) (fault : Fault) :
    Throwing Fault (Database Hash Rest Tx Byte σ) Bool := do
  Throwing.modify fun db =>
    { db with fork := (db.fork.removeAll failed).setHead seconds.head? }
  popTo protocol (firsts ++ seconds) (ForkDatabase.forkPoint seconds)
  Throwing.forEach (fun item => applyAndStore protocol newBlock.blockId item.data)
    seconds.reverse
  Throwing.throw fault

/-- Applies the blocks of the new branch, oldest first. -/
def applyBranch (newBlock : SignedBlock Hash Rest Tx)
    (firsts seconds : List (ForkItem Hash Rest Tx)) :
    List (ForkItem Hash Rest Tx) → Throwing Fault (Database Hash Rest Tx Byte σ) Bool
  | [] => pure true
  | item :: rest => do
      let except ← (applyAndStore protocol item.id item.data).attempt
      match except with
      | .error fault =>
          recover protocol newBlock firsts seconds (item :: rest) fault
      | .ok _ => applyBranch newBlock firsts seconds rest

def switchFork (newBlock : SignedBlock Hash Rest Tx) (newHead : ForkItem Hash Rest Tx) :
    Throwing Fault (Database Hash Rest Tx Byte σ) Bool := do
  let db ← Throwing.get
  match db.fork.fetchBranchFrom newHead.id db.headBlockId with
  | .error fault => Throwing.throw (.fork fault)
  | .ok (firsts, seconds) =>
      popTo protocol (firsts ++ seconds) (ForkDatabase.forkPoint seconds)
      applyBranch protocol newBlock firsts seconds firsts.reverse

def extendHead (newBlock : SignedBlock Hash Rest Tx) :
    Throwing Fault (Database Hash Rest Tx Byte σ) Bool := do
  (applyAndStore protocol newBlock.blockId newBlock).handle fun fault => do
    Throwing.modify fun db =>
      { db with fork := db.fork.remove newBlock.blockId }
    Throwing.throw fault
  pure false

/-- `_push_block`; returns whether forks have been switched. -/
def pushBlockOnHead (newBlock : SignedBlock Hash Rest Tx) :
    Throwing Fault (Database Hash Rest Tx Byte σ) Bool := do
  let db ← Throwing.get
  if newBlock.blockId ≠ protocol.digests.makeId newBlock.toSignedBlockHeader then
    Throwing.throw .badBlockId
  else
    match db.fork.pushBlock newBlock with
    | .error fault => Throwing.throw (.fork fault)
    | .ok fork =>
        Throwing.modify fun db => { db with fork := fork }
        match fork.head with
        | none => Throwing.throw .noHead
        | some newHead =>
            if newHead.data.previous ≠ db.headBlockId then
              if db.headBlockNum < newHead.num then
                switchFork protocol newBlock newHead
              else pure false
            else extendHead protocol newBlock

def startPendingSession (db : Database Hash Rest Tx Byte σ) : Database Hash Rest Tx Byte σ :=
  if db.pendingTxSession then db
  else { db.startSession with pendingTxSession := true }

/-- Evaluates a transaction that is pushed; returns whether its effects are
not kept.  One that is pushed again is not evaluated. -/
def evaluatePushed (tx : Tx) (state : PushState) :
    Throwing Fault (Database Hash Rest Tx Byte σ) Bool :=
  match state.mode with
  | some mode => applyTransaction protocol mode tx
  | none => do
      let db ← Throwing.get
      if protocol.timely db.objects tx then pure true
      else Throwing.throw .untimely

def createTransactionObject (tx : Tx) : Throwing Fault (Database Hash Rest Tx Byte σ) Unit := do
  let db ← Throwing.get
  if db.isKnownTransaction protocol tx then
    Throwing.throw .duplicateTransaction
  else
    Throwing.modify (writeObjects (·.recordTransaction (protocol.digests.transactionId tx)))

def pushTransaction (tx : Tx) (state : PushState) :
    Throwing Fault (Database Hash Rest Tx Byte σ) Unit := do
  Throwing.modify startPendingSession
  Throwing.modify startSession
  let discard ← guarded (evaluatePushed protocol tx state)
  Throwing.modify fun db => { db with pendingTx := db.pendingTx ++ [tx] }
  if discard then
    Throwing.modify undoSession
    createTransactionObject protocol tx
  else Throwing.modify (endSession SnapshotStack.merge)

/-- Pushes a transaction again unless it is known; failures are ignored. -/
def offer (state : PushState) (tx : Tx) : Throwing Fault (Database Hash Rest Tx Byte σ) Unit := do
  let db ← Throwing.get
  if db.isKnownTransaction protocol tx then pure ()
  else
    let _ ← (pushTransaction protocol tx state).attempt
    pure ()

/-- What `pending_transactions_restorer` does when it is destroyed. -/
def restorePending (pending : List Tx) : Throwing Fault (Database Hash Rest Tx Byte σ) Unit := do
  let db ← Throwing.get
  Throwing.forEach (offer protocol .popBlock) db.poppedTx
  Throwing.modify fun db => { db with poppedTx := [] }
  Throwing.forEach (offer protocol .rePush) pending
  let db ← Throwing.get
  Throwing.forEach (offer protocol .fromNet) (protocol.agreedTasks db.objects)

def pushBlock (newBlock : SignedBlock Hash Rest Tx) :
    Throwing Fault (Database Hash Rest Tx Byte σ) Bool := do
  let db ← Throwing.get
  let pending := db.pendingTx
  Throwing.modify clearPending
  let result ← (pushBlockOnHead protocol newBlock).attempt
  restorePending protocol pending
  match result with
  | .ok switched => pure switched
  | .error fault => Throwing.throw fault

end Database

end CocosChain.Chain

import CocosChain.Chain.Block

/-!
# The tree of recent blocks

Every pushed block becomes an item of its own, allocated once and shared from
then on.  An item points to its predecessor weakly: the predecessor is there as
long as somebody owns it, be it the index, the head or a branch that a fork
switch has fetched.  Items are told apart by the reference they were allocated
under, since two of them may carry the same block.
-/

namespace CocosChain.Chain

/-- An item of the tree.  Its number and its identifier are read off the
block it is made from. -/
structure ForkItem (Hash Rest Tx : Type) where
  ref : Nat
  prev : Option Nat
  data : SignedBlock Hash Rest Tx
  deriving DecidableEq, Repr

namespace ForkItem

variable {Hash Rest Tx : Type}

def num (item : ForkItem Hash Rest Tx) : Nat := item.data.blockNum

def id (item : ForkItem Hash Rest Tx) : BlockId Hash := item.data.blockId

def previousId (item : ForkItem Hash Rest Tx) : BlockId Hash := item.data.previous

end ForkItem

structure ForkDatabase (Hash Rest Tx : Type) where
  index : List (ForkItem Hash Rest Tx)
  head : Option (ForkItem Hash Rest Tx)
  maxSize : Nat
  nextRef : Nat
  deriving DecidableEq, Repr

inductive ForkFault where
  | tooOld
  | unlinkable
  | noBlocksToPop
  | headWouldBeNull
  | notInIndex
  | expiredLink
  deriving DecidableEq, Repr

namespace ForkDatabase

variable {Hash Rest Tx : Type}

def initial : ForkDatabase Hash Rest Tx :=
  { index := [], head := none, maxSize := 1024, nextRef := 0 }

/-- The items that are alive while `pinned` is held by a caller. -/
def owned (fork : ForkDatabase Hash Rest Tx)
    (pinned : List (ForkItem Hash Rest Tx)) : List (ForkItem Hash Rest Tx) :=
  fork.index ++ fork.head.toList ++ pinned

/-- Following a weak pointer. -/
def lock (fork : ForkDatabase Hash Rest Tx) (pinned : List (ForkItem Hash Rest Tx)) :
    Option Nat → Option (ForkItem Hash Rest Tx)
  | none => none
  | some ref => (fork.owned pinned).find? (fun item => item.ref == ref)

def popBlock (pinned : List (ForkItem Hash Rest Tx)) (fork : ForkDatabase Hash Rest Tx) :
    Except ForkFault (ForkDatabase Hash Rest Tx) :=
  match fork.head with
  | none => .error .noBlocksToPop
  | some head =>
      match fork.lock pinned head.prev with
      | none => .error .headWouldBeNull
      | some prev => .ok { fork with head := some prev }

/-- Drops the items numbered below `minNum` from the index. -/
def prune (minNum : Nat) (fork : ForkDatabase Hash Rest Tx) : ForkDatabase Hash Rest Tx :=
  { fork with index := fork.index.filter (fun item => minNum ≤ item.num) }

def setMaxSize (size : Nat) (fork : ForkDatabase Hash Rest Tx) : ForkDatabase Hash Rest Tx :=
  let fork := { fork with maxSize := size }
  match fork.head with
  | none => fork
  | some head => fork.prune (head.num - size)

def setHead (head : Option (ForkItem Hash Rest Tx))
    (fork : ForkDatabase Hash Rest Tx) : ForkDatabase Hash Rest Tx :=
  { fork with head := head }

variable [DecidableEq Hash]

def fetchBlock (id : BlockId Hash) (fork : ForkDatabase Hash Rest Tx) :
    Option (ForkItem Hash Rest Tx) :=
  fork.index.find? (fun item => item.id == id)

/-- The index holds one item for an identifier: another one is not put in. -/
def insert (item : ForkItem Hash Rest Tx)
    (fork : ForkDatabase Hash Rest Tx) : ForkDatabase Hash Rest Tx :=
  match fork.fetchBlock item.id with
  | none => { fork with index := fork.index ++ [item] }
  | some _ => fork

/-- Starts the tree from the block at the head of the chain. -/
def startBlock (block : SignedBlock Hash Rest Tx)
    (fork : ForkDatabase Hash Rest Tx) : ForkDatabase Hash Rest Tx :=
  let item : ForkItem Hash Rest Tx := ⟨fork.nextRef, none, block⟩
  { fork.insert item with head := some item, nextRef := fork.nextRef + 1 }

def remove (id : BlockId Hash) (fork : ForkDatabase Hash Rest Tx) : ForkDatabase Hash Rest Tx :=
  { fork with index := fork.index.filter (fun item => item.id ≠ id) }

def removeAll (items : List (ForkItem Hash Rest Tx))
    (fork : ForkDatabase Hash Rest Tx) : ForkDatabase Hash Rest Tx :=
  items.foldl (fun fork item => fork.remove item.id) fork

variable [Inhabited Hash]

/-- The pointer of an item for `block`, if it may be pushed: it must not be
too old, and its predecessor has to be known. -/
def link (block : SignedBlock Hash Rest Tx)
    (fork : ForkDatabase Hash Rest Tx) : Except ForkFault (Option Nat) :=
  match fork.head with
  | none => .ok none
  | some head =>
      if block.blockNum ≤ head.num - fork.maxSize then .error .tooOld
      else if block.previous = default then .ok none
      else
        match fork.fetchBlock block.previous with
        | none => .error .unlinkable
        | some prev => .ok (some prev.ref)

/-- Makes a higher item the head and drops what has fallen out of reach. -/
def advance (item : ForkItem Hash Rest Tx)
    (fork : ForkDatabase Hash Rest Tx) : ForkDatabase Hash Rest Tx :=
  match fork.head with
  | none => { fork with head := some item }
  | some head =>
      if head.num < item.num then
        ForkDatabase.prune (item.num - min fork.maxSize item.num)
          { fork with head := some item }
      else fork

def pushBlock (block : SignedBlock Hash Rest Tx) (fork : ForkDatabase Hash Rest Tx) :
    Except ForkFault (ForkDatabase Hash Rest Tx) :=
  match fork.link block with
  | .error fault => .error fault
  | .ok prev =>
      let item : ForkItem Hash Rest Tx := ⟨fork.nextRef, prev, block⟩
      .ok (advance item (insert item { fork with nextRef := fork.nextRef + 1 }))

/-- The predecessor of the last block of a branch listed newest first. -/
def forkPoint (branch : List (ForkItem Hash Rest Tx)) : BlockId Hash :=
  match branch.getLast? with
  | none => default
  | some item => item.previousId

/-- The items from `item` down to height `target`, and the item there. -/
def descend (fork : ForkDatabase Hash Rest Tx) (target : Nat) : Nat → ForkItem Hash Rest Tx →
      Except ForkFault (List (ForkItem Hash Rest Tx) × ForkItem Hash Rest Tx)
  | 0, item =>
      if target < item.num then .error .expiredLink else .ok ([], item)
  | fuel + 1, item =>
      if target < item.num then
        match fork.lock [] item.prev with
        | none => .error .expiredLink
        | some prev =>
            match fork.descend target fuel prev with
            | .ok (passed, last) => .ok (item :: passed, last)
            | .error fault => .error fault
      else .ok ([], item)

/-- Two branches of one height, down to where they have one predecessor. -/
def meet (fork : ForkDatabase Hash Rest Tx) :
    Nat → ForkItem Hash Rest Tx → ForkItem Hash Rest Tx → Except ForkFault
        (List (ForkItem Hash Rest Tx) × List (ForkItem Hash Rest Tx))
  | 0, first, second =>
      if first.previousId = second.previousId then .ok ([first], [second])
      else .error .expiredLink
  | fuel + 1, first, second =>
      if first.previousId = second.previousId then .ok ([first], [second])
      else
        match fork.lock [] first.prev, fork.lock [] second.prev with
        | some firstPrev, some secondPrev =>
            match fork.meet fuel firstPrev secondPrev with
            | .ok (firsts, seconds) =>
                .ok (first :: firsts, second :: seconds)
            | .error fault => .error fault
        | _, _ => .error .expiredLink

/-- The branches that lead from two blocks back to their most recent common
ancestor, newest block first.  A block's number is fuel enough, as every step
goes to a block numbered one less. -/
def fetchBranchFrom (first second : BlockId Hash) (fork : ForkDatabase Hash Rest Tx) :
    Except ForkFault (List (ForkItem Hash Rest Tx) × List (ForkItem Hash Rest Tx)) :=
  match fork.fetchBlock first, fork.fetchBlock second with
  | some first, some second =>
      match fork.descend second.num first.num first with
      | .error fault => .error fault
      | .ok (firsts, first) =>
          match fork.descend first.num second.num second with
          | .error fault => .error fault
          | .ok (seconds, second) =>
              match fork.meet first.num first second with
              | .error fault => .error fault
              | .ok (metFirst, metSecond) =>
                  .ok (firsts ++ metFirst, seconds ++ metSecond)
  | _, _ => .error .notInIndex

end ForkDatabase

end CocosChain.Chain

import CocosChain.Db.SecondaryIndex
import CocosChain.Library.InvertedIndex

/-!
# The index of required approvals

`required_approval_index` lists, under each account, the proposals that name
the account in one of their four approval sets.  It fills the list when a
proposal is created or loaded and empties it when the proposal is removed.  It
does nothing when a proposal is modified, although two of the four sets change
then, and it is not told when undo puts a removed proposal back.
-/

namespace CocosChain.Chain

open CocosChain.Db

/-- The approval sets of a proposal, as the sequences a loop over them
visits. -/
structure ProposalObject where
  requiredActiveApprovals : List ObjectId
  availableActiveApprovals : List ObjectId
  requiredOwnerApprovals : List ObjectId
  availableOwnerApprovals : List ObjectId
  deriving DecidableEq, Repr

namespace ProposalObject

/-- The proposal names the account in one of its approval sets. -/
def Names (proposal : ProposalObject) (account : ObjectId) : Prop :=
  account ∈ proposal.requiredActiveApprovals ∨ account ∈ proposal.requiredOwnerApprovals ∨
    account ∈ proposal.availableActiveApprovals ∨
    account ∈ proposal.availableOwnerApprovals

def SameNames (left right : ProposalObject) : Prop :=
  ∀ account, left.Names account ↔ right.Names account

def Nameless (proposal : ProposalObject) : Prop := ∀ account, ¬ proposal.Names account

theorem sameNames_equivalence : Equivalence SameNames :=
  ⟨fun _ _ => Iff.rfl, fun same account => (same account).symm,
    fun first second account => (first account).trans (second account)⟩

end ProposalObject

/-- `_account_to_proposals`. -/
abbrev AccountToProposals := InvertedIndex ObjectId ObjectId

namespace RequiredApprovalIndex

def objectInserted (id : ObjectId) (proposal : ProposalObject)
    (index : AccountToProposals) : AccountToProposals :=
  let index := proposal.requiredActiveApprovals.foldl (InvertedIndex.add id) index
  let index := proposal.requiredOwnerApprovals.foldl (InvertedIndex.add id) index
  let index := proposal.availableActiveApprovals.foldl (InvertedIndex.add id) index
  proposal.availableOwnerApprovals.foldl (InvertedIndex.add id) index

def remove (id : ObjectId) (index : AccountToProposals) (account : ObjectId) : AccountToProposals :=
  index.prune id account

def objectRemoved (id : ObjectId) (proposal : ProposalObject)
    (index : AccountToProposals) : AccountToProposals :=
  let index := proposal.requiredActiveApprovals.foldl (remove id) index
  let index := proposal.requiredOwnerApprovals.foldl (remove id) index
  let index := proposal.availableActiveApprovals.foldl (remove id) index
  proposal.availableOwnerApprovals.foldl (remove id) index

def config : IndexConfig ProposalObject Empty AccountToProposals :=
  { uniqueKey := fun _ => none
    objectInserted
    objectRemoved
    aboutToModify := fun _ _ index => index
    objectModified := fun _ _ index => index }

theorem unkeyed : ¬ config.Keyed := by
  rintro ⟨_, keyed⟩
  cases keyed

/-- The index lists exactly the live proposals that name the account, and
keeps no empty list. -/
def Agree (proposals : ObjectMap ProposalObject) (index : AccountToProposals) : Prop :=
  InvertedIndex.Indexes ProposalObject.Names proposals index ∧ index.NoEmpty

variable {db : Proposals}

theorem mem_listed_objectInserted (id other : ObjectId) (proposal : ProposalObject)
    (index : AccountToProposals) (account : ObjectId) :
    other ∈ (objectInserted id proposal index).listed account ↔
      other ∈ index.listed account ∨ proposal.Names account ∧ other = id := by
  simp only [objectInserted, InvertedIndex.mem_listed_foldl_add, ProposalObject.Names]
  tauto

theorem mem_listed_objectRemoved (id other : ObjectId) (proposal : ProposalObject)
    (index : AccountToProposals) (account : ObjectId) :
    other ∈ (objectRemoved id proposal index).listed account ↔
      other ∈ index.listed account ∧ ¬ (proposal.Names account ∧ other = id) := by
  unfold objectRemoved remove
  simp only [InvertedIndex.mem_listed_foldl_prune, ProposalObject.Names]
  tauto

theorem noEmpty_objectInserted (noEmpty : index.NoEmpty) (id : ObjectId)
    (proposal : ProposalObject) : (objectInserted id proposal index).NoEmpty := by
  unfold objectInserted
  repeat apply InvertedIndex.noEmpty_foldl_add
  exact noEmpty

theorem noEmpty_objectRemoved (noEmpty : index.NoEmpty) (id : ObjectId)
    (proposal : ProposalObject) : (objectRemoved id proposal index).NoEmpty := by
  unfold objectRemoved
  repeat apply InvertedIndex.noEmpty_foldl_prune
  exact noEmpty

theorem maintains : config.Maintains Agree ProposalObject.SameNames ProposalObject.Nameless := by
  constructor
  · intro proposals index id proposal agree absent
    exact ⟨agree.1.insert absent fun account other =>
        mem_listed_objectInserted id other proposal index account,
      noEmpty_objectInserted agree.2 id proposal⟩
  · intro proposals index id before after agree found same
    refine ⟨agree.1.replace (fun _ _ _ => Iff.rfl) ?_, agree.2⟩
    intro account
    rw [← same account]
    change id ∈ index.listed account ↔ _
    rw [agree.1 account id]
    simp [found]
  · intro proposals index id proposal agree found
    exact ⟨agree.1.erase found fun account other =>
        mem_listed_objectRemoved id other proposal index account,
      noEmpty_objectRemoved agree.2 id proposal⟩
  · intro proposals index id proposal agree absent nameless
    refine ⟨agree.1.insert absent ?_, agree.2⟩
    intro account other
    simp [nameless account]

inductive Event where
  | session (event : SessionEvent (Action ProposalObject)
      (Iterator ProposalObject))
  | reload (enumeration : Enumeration ProposalObject)

abbrev Proposals := ObjectDatabase ProposalObject AccountToProposals

def initial : Proposals :=
  { store := { objects := ∅, nextId := fun _ => 0 }
    sindex := ∅
    undoDb := UndoDatabase.initial }

/-- An event that throws has not changed anything yet: no key of a proposal
can collide, and the other assertions come first. -/
def apply (db : Proposals) : Event → Proposals
  | .session event =>
      match db.step config event with
      | .ok next => next
      | .error _ => db
  | .reload enumeration =>
      db.reload config ∅ (enumeration.order db.store.objects)

/-- Modifications name the same accounts as before, and undo puts back only
proposals that name nobody. -/
def Admissible (db : Proposals) : Event → Prop
  | .session (.act (.modify id change)) => ∀ proposal,
      db.store.objects.lookup id = some proposal → proposal.SameNames (change proposal)
  | .session (.finish (.undo _)) | .session (.pop _) => ∀ state rest,
      db.undoDb.stack = state :: rest → ∀ id proposal, state.removed.lookup id = some proposal →
          proposal.Nameless
  | _ => True

/-- The states of runs all of whose events are admissible. -/
inductive Reachable : Proposals → Prop
  | initial : Reachable initial
  | step {db : Proposals} (reached : Reachable db) {event : Event}
      (admissible : Admissible db event) : Reachable (apply db event)

theorem followed_of_admissible (tame : ObjectDatabase.Tame ProposalObject.SameNames db stack)
    (admissible : Admissible db (.session event)) :
    ObjectDatabase.Followed ProposalObject.SameNames ProposalObject.Nameless
      db event := by
  cases event with
  | start => trivial
  | act action =>
    cases action with
    | create index value => trivial
    | modify id change => exact admissible
    | remove id => trivial
  | pop iterator =>
    intro state rest newest
    exact tame.stateFollowed newest (admissible state rest newest)
  | finish ending =>
    cases ending with
    | undo iterator =>
      intro state rest newest
      exact tame.stateFollowed newest (admissible state rest newest)
    | merge iterator => trivial
    | commit => trivial

theorem apply_agrees (tame : ObjectDatabase.Tame ProposalObject.SameNames db stack)
    (agrees : db.Agrees Agree) (admissible : Admissible db event) :
    (apply db event).Agrees Agree ∧ ∃ final, ObjectDatabase.Tame ProposalObject.SameNames
        (apply db event) final := by
  cases event with
  | reload enumeration =>
    constructor
    · apply ObjectDatabase.openSaved_agrees maintains
      exact ⟨.empty, nofun⟩
    · exact ⟨_, ObjectDatabase.reload_tame unkeyed tame.refines.wellFormed (enumeration.lists _) ∅⟩
  | session event =>
    cases result : db.step config event with
    | error stop =>
      simp only [apply, result]
      exact ⟨agrees, stack, tame⟩
    | ok next =>
      simp only [apply, result]
      refine ⟨ObjectDatabase.step_agrees maintains agrees
        (followed_of_admissible tame admissible) result, ?_⟩
      apply ObjectDatabase.step_tame ProposalObject.sameNames_equivalence tame _ result
      intro id change value isModify
      subst isModify
      exact admissible value

theorem reachable_agrees (reachable : Reachable db) : db.Agrees Agree ∧ ∃ stack,
      ObjectDatabase.Tame ProposalObject.SameNames db stack := by
  induction reachable with
  | initial =>
    refine ⟨⟨.empty, nofun⟩, ⟨initial.store, [], 0, 256⟩,
      ⟨rfl, ?_, trivial, rfl, rfl, rfl⟩, trivial⟩
    intro id live
    simp [initial] at live
  | step reached admissible induction =>
    obtain ⟨agrees, _, tame⟩ := induction
    exact apply_agrees tame agrees admissible

/-- In every state of a run of admissible events the index lists, under each
account, exactly the live proposals that name it, and keeps no empty list. -/
theorem lists_named_proposals (db : Proposals) (reachable : Reachable db) :
    (∀ account id, id ∈ db.sindex.listed account ↔
      ∃ proposal, db.store.objects.lookup id = some proposal ∧ proposal.Names account) ∧
    ∀ account, db.sindex.lookup account ≠ some ∅ :=
  (reachable_agrees reachable).1

def alice : ObjectId := ⟨⟨1, 2⟩, 6⟩

/-- A proposal that requires one active approval. -/
def forAlice : ProposalObject :=
  { requiredActiveApprovals := [alice]
    availableActiveApprovals := []
    requiredOwnerApprovals := []
    availableOwnerApprovals := [] }

/-- The required approval has been given. -/
def approve (proposal : ProposalObject) : ProposalObject :=
  { proposal with availableActiveApprovals := [alice] }

def proposed : Proposals := apply initial (.session (.act (.create ⟨1, 10⟩ forAlice)))

def approved : Proposals := apply proposed (.session (.act (.modify ⟨⟨1, 10⟩, 0⟩ approve)))

theorem lists_named_proposals_approved : (∀ account id, id ∈ approved.sindex.listed account ↔
      ∃ proposal, approved.store.objects.lookup id = some proposal ∧ proposal.Names account) ∧
    ∀ account, approved.sindex.lookup account ≠ some ∅ := by
  have creation : Admissible initial (.session (.act (.create ⟨1, 10⟩ forAlice))) := trivial
  have approval : Admissible proposed (.session (.act (.modify ⟨⟨1, 10⟩, 0⟩ approve))) := by
    intro proposal found account
    have created : some forAlice = some proposal := found
    cases created
    simp [ProposalObject.Names, forAlice, approve]
  exact lists_named_proposals approved (.step (.step .initial creation) approval)

/-- An approval by somebody else is not listed. -/
def approveToo (proposal : ProposalObject) : ProposalObject :=
  { proposal with availableActiveApprovals := [⟨⟨1, 2⟩, 7⟩] }

/-- A live proposal names an account under which it is not listed. -/
theorem approval_not_listed : ¬ ∀ account id, (id ∈ (apply proposed (.session (.act
          (.modify ⟨⟨1, 10⟩, 0⟩ approveToo)))).sindex.listed account ↔
        ∃ proposal, (apply proposed (.session (.act
          (.modify ⟨⟨1, 10⟩, 0⟩ approveToo)))).store.objects.lookup id =
            some proposal ∧ proposal.Names account) := by
  intro listed
  have names : (approveToo forAlice).Names ⟨⟨1, 2⟩, 7⟩ := by
    simp [ProposalObject.Names, approveToo]
  have member := (listed ⟨⟨1, 2⟩, 7⟩ ⟨⟨1, 10⟩, 0⟩).mpr ⟨approveToo forAlice, rfl, names⟩
  revert member
  decide

end RequiredApprovalIndex

end CocosChain.Chain

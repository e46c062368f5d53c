import CocosChain.Chain.NftEscrow
import CocosChain.Library.MirroredLists

/-!
# Related assets

A contract relates assets to each other, and the relation is kept with both.
Which way it is entered depends on the parent alone, though: a child that the
contract has given a parent before is left alone if the parent is new.  And an
asset may be deleted while others are related to it.  Both leave a relation
with one of its assets only; there are no other ways to that.
-/

namespace CocosChain.Chain

namespace NftWorld

/-- What a contract has related below an asset. -/
def childrenOf (world : NftWorld) (contract id : Nat) : List Nat :=
  ((world.assets.get id).map (·.children contract)).getD []

def parentsOf (world : NftWorld) (contract id : Nat) : List Nat :=
  ((world.assets.get id).map (·.parents contract)).getD []

variable {world : NftWorld} {id : Nat}

/-- Both assets of a relation list each other. -/
def Symmetric (world : NftWorld) : Prop :=
  ∀ contract, MirroredLists (world.childrenOf contract) (world.parentsOf contract)

theorem childrenOf_held (held : world.assets.get id = some token) :
    world.childrenOf contract id = token.children contract := by
  simp [childrenOf, held]

theorem parentsOf_held (held : world.assets.get id = some token) :
    world.parentsOf contract id = token.parents contract := by
  simp [parentsOf, held]

theorem held_of_mem_parentsOf (listed : parent ∈ world.parentsOf contract id) :
    (world.assets.get id).isSome := by
  cases held : world.assets.get id with
  | none => simp [parentsOf, held] at listed
  | some token => rfl

theorem held_of_mem_childrenOf (listed : child ∈ world.childrenOf contract id) :
    (world.assets.get id).isSome := by
  cases held : world.assets.get id with
  | none => simp [childrenOf, held] at listed
  | some token => rfl

/-- All assets have the relatives that they had. -/
structure SameFamilies (world after : NftWorld) : Prop where
  children : after.childrenOf = world.childrenOf
  parents : after.parentsOf = world.parentsOf

theorem SameFamilies.symmetric (same : SameFamilies world after)
    (symmetric : world.Symmetric) : after.Symmetric := by
  intro contract
  rw [same.children, same.parents]
  exact symmetric contract

theorem sameFamilies_create (orphan : token.parent = ∅) (childless : token.child = ∅) :
    SameFamilies world { world with assets := world.assets.create token } := by
  constructor
  · funext contract id
    by_cases new : id = world.assets.next
    · simp [childrenOf, Table.get_create, new, NhAsset.children, childless]
    · simp [childrenOf, Table.get_create, new]
  · funext contract id
    by_cases new : id = world.assets.next
    · simp [parentsOf, Table.get_create, new, NhAsset.parents, orphan]
    · simp [parentsOf, Table.get_create, new]

theorem getD_modifyAsset (view : NhAsset → List Nat) :
    (fun number => (((world.modifyAsset id change).assets.get number).map view).getD []) =
      Function.update (fun number => ((world.assets.get number).map view).getD []) id
        (((world.assets.get id).map (view ∘ change)).getD []) := by
  funext number
  by_cases same : number = id
  · simp [same, modifyAsset, Table.get_modify]
  · simp [same, modifyAsset, Table.get_modify]

theorem sameFamilies_modify
    (keeps : ∀ token, world.assets.get id = some token → (change token).child =
      token.child ∧ (change token).parent = token.parent) :
    SameFamilies world (world.modifyAsset id change) := by
  constructor
  · funext contract
    apply (getD_modifyAsset (·.children contract)).trans (Function.update_eq_self_iff.mpr _)
    cases held : world.assets.get id with
    | none => rfl
    | some token => exact congrArg (ListMap.listAt · contract) (keeps token held).1
  · funext contract
    apply (getD_modifyAsset (·.parents contract)).trans (Function.update_eq_self_iff.mpr _)
    cases held : world.assets.get id with
    | none => rfl
    | some token => exact congrArg (ListMap.listAt · contract) (keeps token held).2

theorem sameFamilies_give : SameFamilies world (world.modifyAsset id (.give receiver)) :=
  sameFamilies_modify fun _ _ => ⟨rfl, rfl⟩

theorem SameFamilies.trans (first : SameFamilies world middle)
    (second : SameFamilies middle after) : SameFamilies world after :=
  ⟨second.children.trans first.children, second.parents.trans first.parents⟩

theorem sameFamilies_revokeAll (performed : world.revokeAll rows = .ok after) :
    SameFamilies world after := by
  induction rows generalizing world with
  | nil =>
    cases performed
    exact ⟨rfl, rfl⟩
  | cons row rest induction =>
    obtain ⟨_, revoked, later⟩ := bind_eq_ok.mp performed
    obtain ⟨token, -, rfl⟩ := revoke_eq_ok revoked
    have given : SameFamilies world
        (world.modifyAsset token (.give row.2.seller)) := sameFamilies_give
    have now : SameFamilies world ((world.modifyAsset token
        (.give row.2.seller)).removeOrder row.1) :=
      ⟨given.children, given.parents⟩
    exact now.trans (induction later)

theorem childrenOf_relink (held : world.assets.get parent = some parentToken) :
    (world.relink parent child down up).childrenOf contract =
      Function.update (world.childrenOf contract) parent
        (ListMap.listAt (down parentToken.child) contract) := by
  apply (getD_modifyAsset (·.children contract)).trans
  apply (Function.update_eq_self child _).trans
  apply (getD_modifyAsset (·.children contract)).trans
  rw [held]
  rfl

theorem parentsOf_relink (held : world.assets.get child = some childToken) :
    (world.relink parent child down up).parentsOf contract =
      Function.update (world.parentsOf contract) child
        (ListMap.listAt (up childToken.parent) contract) := by
  have upward (view : NhAsset → List Nat) (blind : view ∘ NhAsset.mapChild down = view) :
      (fun number => (((world.modifyAsset parent (.mapChild down)).assets.get number).map
        view).getD []) = fun number => ((world.assets.get number).map view).getD [] := by
    rw [getD_modifyAsset, blind]
    exact Function.update_eq_self parent _
  apply (getD_modifyAsset (·.parents contract)).trans
  refine congrArg₂ (Function.update · child ·) (upward _ rfl) ?_
  apply (congrFun (upward _ rfl) child).trans
  rw [held]
  rfl

section

variable (symmetric : world.Symmetric)
include symmetric

section

variable (heldParent : world.assets.get parent = some parentToken)
  (heldChild : world.assets.get child = some childToken)
include heldParent heldChild

theorem symmetric_relink_iff (down up : ListMap Nat Nat → ListMap Nat Nat)
    (downAt : ∀ other, ListMap.listAt (down parentToken.child) other = if other
      = contract then below else parentToken.children other)
    (upAt : ∀ other, ListMap.listAt (up childToken.parent) other = if other =
      contract then above else childToken.parents other) :
    (world.relink parent child down up).Symmetric ↔ MirroredLists
        (Function.update (world.childrenOf contract) parent below)
        (Function.update (world.parentsOf contract) child above) := by
  have here : ∀ other, MirroredLists ((world.relink parent child down up).childrenOf other)
      ((world.relink parent child down up).parentsOf other) ↔ MirroredLists
          (Function.update (world.childrenOf other) parent
            (if other = contract then below else world.childrenOf other parent))
          (Function.update (world.parentsOf other) child (if other = contract then above
              else world.parentsOf other child)) := by
    intro other
    rw [childrenOf_relink heldParent, parentsOf_relink heldChild, downAt, upAt,
      childrenOf_held heldParent, parentsOf_held heldChild]
  constructor
  · intro after
    simpa using (here contract).mp (after contract)
  · intro mirrored other
    rw [here other]
    by_cases same : other = contract
    · subst same
      simpa using mirrored
    · rw [if_neg same, if_neg same, Function.update_eq_self, Function.update_eq_self]
      exact symmetric other

/-- Two assets can be related if the contract has related the parent to others
below before, or the child to none above. -/
def Relatable (contract : Nat) (parentToken childToken : NhAsset) : Prop :=
  parentToken.child.lookup contract ≠ none ∨ childToken.parent.lookup contract = none

theorem relateTokens_symmetric_iff
    (performed : world.relateTokens contract parent child parentToken = .ok after) :
    after.Symmetric ↔ Relatable contract parentToken childToken := by
  have below : world.childrenOf contract parent =
      parentToken.children contract := childrenOf_held heldParent
  have above : world.parentsOf contract child = childToken.parents contract :=
    parentsOf_held heldChild
  unfold relateTokens at performed
  cases listed : parentToken.child.lookup contract with
  | some children =>
    simp only [listed, bind_eq_ok, ensure_eq_ok, pure_eq_ok] at performed
    obtain ⟨_, new, rfl⟩ := performed
    have absent : child ∉ world.childrenOf contract parent := by
      rw [below]
      simpa [NhAsset.children, ListMap.listAt, listed] using new
    have mirrored := (symmetric contract).concat absent
    rw [below, above] at mirrored
    refine (symmetric_relink_iff symmetric heldParent heldChild (·.pushBack contract child)
      (·.pushBack contract parent) (fun _ => ListMap.listAt_pushBack)
      fun _ => ListMap.listAt_pushBack).trans ?_
    exact iff_of_true mirrored (.inl (by simp [listed]))
  | none =>
    rw [listed] at performed
    cases performed
    have childless : parentToken.children contract = [] := by
      simp [NhAsset.children, ListMap.listAt, listed]
    have absent : child ∉ world.childrenOf contract parent := by
      simp [below, childless]
    have downAt : ∀ other, ListMap.listAt (parentToken.child.emplace contract [child]) other =
          if other = contract then parentToken.children contract ++ [child]
          else parentToken.children other := by
      intro other
      rw [ListMap.listAt_emplace, childless]
      simp [listed, NhAsset.children]
    cases known : childToken.parent.lookup contract with
    | none =>
      have orphan : childToken.parents contract = [] := by
        simp [NhAsset.parents, ListMap.listAt, known]
      have upAt : ∀ other, ListMap.listAt (childToken.parent.emplace contract [parent]) other =
            if other = contract then childToken.parents contract ++ [parent]
            else childToken.parents other := by
        intro other
        rw [ListMap.listAt_emplace, orphan]
        simp [known, NhAsset.parents]
      have mirrored := (symmetric contract).concat absent
      rw [below, above] at mirrored
      exact (symmetric_relink_iff symmetric heldParent heldChild (·.emplace contract [child])
        (·.emplace contract [parent]) downAt upAt).trans (iff_of_true mirrored (.inr known))
    | some parents =>
      have upAt : ∀ other, ListMap.listAt (childToken.parent.emplace contract [parent]) other =
            if other = contract then childToken.parents contract
            else childToken.parents other := by
        intro other
        rw [ListMap.listAt_emplace]
        by_cases same : other = contract
        · simp [same, known, NhAsset.parents]
        · simp [same, NhAsset.parents]
      have missed := (symmetric contract).not_concat_down absent
      rw [below] at missed
      refine (symmetric_relink_iff symmetric heldParent heldChild (·.emplace contract [child])
        (·.emplace contract [parent]) downAt upAt).trans (iff_of_false ?_ ?_)
      · rwa [← above, Function.update_eq_self]
      · simp [Relatable, listed, known]

theorem unrelateTokens_symmetric
    (performed : world.unrelateTokens contract parent child parentToken childToken = .ok after) :
    after.Symmetric := by
  simp only [unrelateTokens, bind_eq_ok, pure_eq_ok] at performed
  obtain ⟨_, _, _, _, _, _, rfl⟩ := performed
  have mirrored : MirroredLists (Function.update (world.childrenOf contract) parent
        ((world.childrenOf contract parent).erase child))
      (Function.update (world.parentsOf contract) child
        ((world.parentsOf contract child).erase parent)) :=
    (symmetric contract).erase
  rw [childrenOf_held heldParent, parentsOf_held heldChild] at mirrored
  exact (symmetric_relink_iff symmetric heldParent heldChild (·.eraseOne contract child)
    (·.eraseOne contract parent) (fun _ => ListMap.listAt_eraseOne)
    fun _ => ListMap.listAt_eraseOne).mpr mirrored

end

/-- The asset is related to no other one. -/
def Solitary (world : NftWorld) (id : Nat) : Prop :=
  ∀ contract, (∀ child ∈ world.childrenOf contract id, child = id) ∧
    ∀ parent ∈ world.parentsOf contract id, parent = id

theorem remove_symmetric_iff :
    Symmetric { world with assets := world.assets.remove id } ↔ world.Solitary id := by
  apply forall_congr'
  intro contract
  rw [← (symmetric contract).clear_iff]
  have below : childrenOf { world with assets := world.assets.remove id }
      contract = Function.update (world.childrenOf contract) id [] := by
    funext number
    by_cases same : number = id
    · simp [childrenOf, Table.get_remove, same]
    · simp [childrenOf, Table.get_remove, same]
  have above : parentsOf { world with assets := world.assets.remove id }
      contract = Function.update (world.parentsOf contract) id [] := by
    funext number
    by_cases same : number = id
    · simp [parentsOf, Table.get_remove, same]
    · simp [parentsOf, Table.get_remove, same]
  rw [below, above]

end

/-- What is deleted is related to no other asset, and what a contract relates
can be related. -/
def Regular (world : NftWorld) (event : NftEvent) : Prop :=
  match event.step with
  | .deleteNhAsset _ nhAsset => world.Solitary nhAsset
  | .call contract _ (.relateNhAsset parentName childName true) =>
      ∀ parent parentToken child childToken,
        world.getNhAsset parentName = .ok (parent, parentToken) →
        world.getNhAsset childName = .ok (child, childToken) →
        Relatable contract parentToken childToken
  | _ => True

theorem Effect.symmetric (effect : Effect world event after) (symmetric : world.Symmetric)
    (keeps : ∀ account id, event.step ≠ .deleteNhAsset account id)
    (relatesNone : ∀ contract caller parentName childName, event.step ≠
      .call contract caller (.relateNhAsset parentName childName true)) : after.Symmetric := by
  cases effect with
  | minted token word orphan childless =>
    exact (sameFamilies_create orphan childless).symmetric symmetric
  | deleted called held disposable => exact absurd called (keeps _ _)
  | changed change held entitled =>
    refine SameFamilies.symmetric (sameFamilies_modify ?_) symmetric
    intro token there
    cases held.symm.trans there
    exact ⟨entitled.child, entitled.parent⟩
  | related called heldParent heldChild performed =>
    exact absurd called (relatesNone _ _ _ _)
  | unrelated heldParent heldChild performed =>
    exact unrelateTokens_symmetric symmetric heldParent heldChild performed
  | locked called named held owned adjusted => exact symmetric
  | @offered operation token balances held disposable seller =>
    have given : SameFamilies world (world.modifyAsset operation.nhAsset (.give nullAccount)) :=
      sameFamilies_give
    exact given.symmetric symmetric
  | @closed id token order receiver balances live located goes =>
    have given : SameFamilies world (world.modifyAsset token (.give receiver)) := sameFamilies_give
    exact given.symmetric symmetric
  | cleared headBlockTime performed =>
    exact SameFamilies.symmetric (sameFamilies_revokeAll performed) symmetric
  | adjusted balances => exact symmetric

theorem relateNhAsset_symmetric_iff (symmetric : world.Symmetric)
    (performed : world.relateNhAsset terms contract caller parentName childName true = .ok after) :
    after.Symmetric ↔ ∀ parent parentToken child childToken,
      world.getNhAsset parentName = .ok (parent, parentToken) →
      world.getNhAsset childName = .ok (child, childToken) →
      Relatable contract parentToken childToken := by
  simp only [relateNhAsset, bind_eq_ok] at performed
  obtain ⟨⟨_, _⟩, parentNamed, ⟨_, _⟩, childNamed, _, _, _, _, _, _, changed⟩ := performed
  rw [relateTokens_symmetric_iff symmetric (getNhAsset_held parentNamed)
    (getNhAsset_held childNamed) changed]
  constructor
  · intro relatable _ _ _ _ named there
    cases parentNamed.symm.trans named
    cases childNamed.symm.trans there
    exact relatable
  · intro relatable
    exact relatable _ _ _ _ parentNamed childNamed

theorem perform_symmetric_iff (symmetric : world.Symmetric)
    (performed : world.perform event = .ok after) : after.Symmetric ↔ world.Regular event := by
  have effect := perform_effect performed
  obtain ⟨_, step⟩ := event
  cases step with
  | deleteNhAsset feePayingAccount nhAsset =>
    simp only [perform, deleteNhAsset, bind_eq_ok, pure_eq_ok] at performed
    obtain ⟨_, _, _, _, _, _, rfl⟩ := performed
    exact remove_symmetric_iff symmetric
  | call contract caller call =>
    cases call with
    | relateNhAsset parentName childName relate =>
      cases relate with
      | true => exact relateNhAsset_symmetric_iff symmetric performed
      | false =>
        exact iff_of_true (effect.symmetric symmetric (by simp) (by simp)) trivial
    | _ =>
      exact iff_of_true (effect.symmetric symmetric (by simp) (by simp)) trivial
  | _ =>
    exact iff_of_true (effect.symmetric symmetric (by simp) (by simp)) trivial

/-- The relations are symmetric, without doubles and between assets that are
there, and what is to be undone is found at both ends. -/
structure RelationsSound (world : NftWorld) : Prop where
  mem_iff : ∀ contract parent child,
    child ∈ world.childrenOf contract parent ↔ parent ∈ world.parentsOf contract child
  childrenOnce : ∀ contract id, (world.childrenOf contract id).Nodup
  parentsOnce : ∀ contract id, (world.parentsOf contract id).Nodup
  childrenThere : ∀ contract id, ∀ child ∈ world.childrenOf contract id,
    (world.assets.get child).isSome
  parentsThere : ∀ contract id, ∀ parent ∈ world.parentsOf contract id,
    (world.assets.get parent).isSome
  unrelates : ∀ terms contract caller parentName childName,
    world.relateNhAsset terms contract caller parentName childName false ≠ .error .undefined

theorem getNhAsset_refused (refused : world.getNhAsset name = .error fault) :
    fault = .unknownObject := by
  cases name with
  | id number =>
    simp only [getNhAsset, bind_eq_error, found_eq_error] at refused
    rcases refused with ⟨_, rfl⟩ | ⟨_, _, impossible⟩
    · rfl
    · cases impossible
  | hash hash =>
    simp only [getNhAsset, bind_eq_error, found_eq_error] at refused
    rcases refused with ⟨_, rfl⟩ | ⟨_, _, ⟨_, rfl⟩ | ⟨_, _, impossible⟩⟩
    · rfl
    · rfl
    · cases impossible

theorem Symmetric.unrelates (symmetric : world.Symmetric) (terms : NftTerms)
    (contract : Nat) (caller : AccountId) (parentName childName : NftName) :
    world.relateNhAsset terms contract caller parentName childName false ≠ .error .undefined := by
  intro missed
  have named : ∀ name, world.getNhAsset name ≠ .error .undefined :=
    fun name refused => by cases getNhAsset_refused refused
  simp only [relateNhAsset, unrelateTokens, bind_eq_error, found_eq_error,
    found_eq_ok, ensure_eq_error, ensure_eq_ok, reduceCtorEq, and_false,
    false_or, and_true, Bool.false_eq_true, if_false, named] at missed
  obtain ⟨⟨parent, _⟩, parentNamed, ⟨child, _⟩, childNamed,
    _, _, _, _, _, _, children, listed, _, below, missing | ⟨_, _, refused⟩⟩ := missed
  · have belowParent : child ∈ world.childrenOf contract parent := by
      rw [childrenOf_held (getNhAsset_held parentNamed)]
      simpa [NhAsset.children, ListMap.listAt, listed] using below
    have aboveChild := (symmetric contract).mem_iff.mp belowParent
    rw [parentsOf_held (getNhAsset_held childNamed)] at aboveChild
    simp [aboveChild] at missing
  · cases refused

theorem relationsSound_iff : world.RelationsSound ↔ world.Symmetric := by
  constructor
  · intro sound contract
    exact ⟨sound.mem_iff contract _ _, sound.childrenOnce contract, sound.parentsOnce contract⟩
  · intro symmetric
    refine ⟨fun contract _ _ => (symmetric contract).mem_iff,
      fun contract => (symmetric contract).down_nodup,
      fun contract => (symmetric contract).up_nodup, ?_, ?_, symmetric.unrelates⟩
    · intro contract id child below
      exact held_of_mem_parentsOf ((symmetric contract).mem_iff.mp below)
    · intro contract id parent above
      exact held_of_mem_childrenOf ((symmetric contract).mem_iff.mpr above)

/-- The relations are sound all along a run exactly if every step is regular:
an asset that is deleted is related to no other one, and a contract that
relates assets has related the parent to others below before, or the child to
none above. -/
theorem nft_relations_sound_iff (balances : Balances) (headBlockTime : Nat)
    (events : List NftEvent) :
    FallibleRun.Throughout perform RelationsSound (start balances headBlockTime) events ↔
      FallibleRun.Meets perform Regular (start balances headBlockTime)
        events := by
  have none : ∀ (world : NftWorld) (event : NftEvent) (next : NftWorld), True →
      world.RelationsSound → world.perform event = .ok next → True :=
    fun _ _ _ _ _ _ => trivial
  refine FallibleRun.throughout_iff_of_step none ?_ trivial (relationsSound_iff.mpr fun _ => .empty)
  intro world event next _ sound performed
  rw [relationsSound_iff]
  exact perform_symmetric_iff (relationsSound_iff.mp sound) performed

/-- Account 8 has three assets; contract 1 relates the last one to the first
and then to the second. -/
def relating : List NftEvent :=
  [⟨openTerms, .createNhAsset 5 8 "COCOS" "view" "sword"⟩,
    ⟨openTerms, .createNhAsset 5 8 "COCOS" "view" "shield"⟩,
    ⟨openTerms, .createNhAsset 5 8 "COCOS" "view" "gem"⟩,
    ⟨openTerms, .call 1 8 (.relateNhAsset (.id 0) (.id 2) true)⟩,
    ⟨openTerms, .call 1 8 (.relateNhAsset (.id 1) (.id 2) true)⟩]

/-- The second relation is missing at the child, and undoing it erases an entry
that is not there.  If the first parent is deleted, the child still lists
it. -/
theorem nft_relations_lost :
    (∃ world, FallibleRun.run perform (start richBuyer 10) relating = .ok world ∧
      world.childrenOf 1 1 = [2] ∧ world.parentsOf 1 2 = [0] ∧
      world.relateNhAsset openTerms 1 8 (.id 1) (.id 2) false = .error .undefined) ∧
    ∃ world, FallibleRun.run perform (start richBuyer 10)
        (relating ++ [⟨openTerms, .deleteNhAsset 8 0⟩]) = .ok world ∧
      world.parentsOf 1 2 = [0] ∧ (world.assets.get 0).isNone := by
  refine ⟨⟨_, rfl, ?_, ?_, rfl⟩, _, rfl, ?_, ?_⟩
  · decide +kernel
  · decide +kernel
  · decide +kernel
  · decide +kernel

end NftWorld

end CocosChain.Chain

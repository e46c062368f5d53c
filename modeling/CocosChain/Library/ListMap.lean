import Mathlib.Data.List.AList

/-!
# Lists under keys

A map from keys to lists, where a key that is not there has the empty list.
All that is listed, under whatever key, is collected in one list; what a change
of one list does to the collection is said up to its order.
-/

namespace CocosChain

abbrev ListMap (Key Value : Type) := AList fun _ : Key => List Value

namespace ListMap

variable {Key Value : Type} [DecidableEq Key]

def listAt (map : ListMap Key Value) (key : Key) : List Value := (map.lookup key).getD []

/-- What is listed under any key. -/
def members (map : ListMap Key Value) : List Value := map.entries.flatMap fun entry => entry.2

/-- Puts a list under the key; an empty one is not kept. -/
def store (map : ListMap Key Value) (key : Key) (values : List Value) : ListMap Key Value :=
  if values.isEmpty then map.erase key else map.insert key values

/-- Does nothing if the key is there. -/
def emplace (map : ListMap Key Value) (key : Key) (values : List Value) : ListMap Key Value :=
  match map.lookup key with
  | none => map.insert key values
  | some _ => map

def pushBack (map : ListMap Key Value) (key : Key) (value : Value) : ListMap Key Value :=
  map.insert key (map.listAt key ++ [value])

/-- Erases the first entry of the value under the key. -/
def eraseOne [DecidableEq Value] (map : ListMap Key Value) (key : Key)
    (value : Value) : ListMap Key Value :=
  map.insert key ((map.listAt key).erase value)

variable {map : ListMap Key Value}

@[simp] theorem listAt_empty : listAt (∅ : ListMap Key Value) key = [] := rfl

theorem listAt_insert : listAt (map.insert key values) other =
      if other = key then values else map.listAt other := by
  by_cases same : other = key
  · subst same
    simp [listAt]
  · simp [listAt, AList.lookup_insert_ne same, same]

theorem listAt_pushBack : (map.pushBack key value).listAt other =
      if other = key then map.listAt key ++ [value] else map.listAt other :=
  listAt_insert

theorem listAt_eraseOne [DecidableEq Value] : (map.eraseOne key value).listAt other =
      if other = key then (map.listAt key).erase value
      else map.listAt other :=
  listAt_insert

theorem listAt_emplace : (map.emplace key values).listAt other =
      if other = key ∧ map.lookup key = none then values
      else map.listAt other := by
  unfold emplace
  split
  · rename_i absent
    rw [listAt_insert]
    simp [absent]
  · rename_i present
    simp [present]

theorem members_perm_erase : map.members.Perm (map.listAt key ++ members (map.erase key)) := by
  cases here : map.lookup key with
  | none =>
    have kept : (map.erase key).entries = map.entries :=
      List.kerase_of_notMem_keys (AList.lookup_eq_none.mp here)
    simp [listAt, here, members, kept]
  | some values =>
    obtain ⟨found, left, right, -, entries, rest⟩ := List.exists_of_kerase
      (AList.lookup_isSome.mp (Option.isSome_of_eq_some here))
    have same : found = values := by
      have listed : (⟨key, found⟩ : Σ _ : Key, List Value) ∈ map.entries := by
        rw [entries]
        simp
      have looked : map.lookup key = some found := AList.mem_lookup_iff.mpr listed
      exact Option.some.inj (looked.symm.trans here)
    subst same
    have others : (map.erase key).entries = left ++ right := rest
    simp only [listAt, here, Option.getD_some, members, entries, others,
      List.flatMap_append, List.flatMap_cons]
    exact List.perm_append_comm_assoc _ _ _

theorem members_store_perm : (map.store key values).members.Perm
      (values ++ members (map.erase key)) := by
  unfold store
  split
  · rename_i nothing
    rw [List.isEmpty_iff.mp nothing]
    rfl
  · exact List.Perm.refl _

end ListMap

end CocosChain

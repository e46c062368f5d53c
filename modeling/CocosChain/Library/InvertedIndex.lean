import Mathlib.Data.Finmap

/-!
# Inverted indices

An inverted index lists, under each key, the ids of the objects that carry the
key.  It indexes a finite map of objects when it lists an id under a key
exactly if the object with that id carries the key.  The lemmas say what
adding, dropping and replacing one object asks of the index.
-/

/-- Under each key, a set of ids; a key that is absent lists nothing. -/
abbrev InvertedIndex (Key Id : Type*) := Finmap fun _ : Key => Finset Id

namespace InvertedIndex

variable {Key Id Value : Type*} [DecidableEq Key] [DecidableEq Id]

def listed (index : InvertedIndex Key Id) (key : Key) : Finset Id := (index.lookup key).getD ∅

/-- List an id under a key. -/
def add (id : Id) (index : InvertedIndex Key Id) (key : Key) : InvertedIndex Key Id :=
  Finmap.insert key (insert id (index.listed key)) index

/-- Take an id off the list under a key, which stays even if it is empty. -/
def drop (id : Id) (index : InvertedIndex Key Id) (key : Key) : InvertedIndex Key Id :=
  Finmap.insert key ((index.listed key).erase id) index

/-- Take an id off the list under a key, and the list with its last id. -/
def prune (id : Id) (index : InvertedIndex Key Id) (key : Key) : InvertedIndex Key Id :=
  match index.lookup key with
  | none => index
  | some ids =>
      if ids.erase id = ∅ then index.erase key
      else Finmap.insert key (ids.erase id) index

section Listed

variable (index : InvertedIndex Key Id) (id other : Id) (key key' : Key)

section

omit [DecidableEq Id]

@[simp] theorem listed_insert_self (ids : Finset Id) :
    listed (Finmap.insert key ids index) key = ids := by
  simp [listed]

theorem listed_insert_of_ne (ids : Finset Id) (different : key' ≠ key) :
    listed (Finmap.insert key ids index) key' = index.listed key' := by
  simp [listed, Finmap.lookup_insert_of_ne _ different]

end

theorem mem_listed_add : other ∈ (index.add id key).listed key' ↔
      other ∈ index.listed key' ∨ key' = key ∧ other = id := by
  by_cases same : key' = key
  · subst same
    simp [add, or_comm]
  · simp [add, listed_insert_of_ne _ _ _ _ same, same]

theorem mem_listed_drop : other ∈ (index.drop id key).listed key' ↔
      other ∈ index.listed key' ∧ ¬ (key' = key ∧ other = id) := by
  by_cases same : key' = key
  · subst same
    simp [drop, and_comm]
  · simp [drop, listed_insert_of_ne _ _ _ _ same, same]

theorem mem_listed_prune : other ∈ (index.prune id key).listed key' ↔
      other ∈ index.listed key' ∧ ¬ (key' = key ∧ other = id) := by
  unfold prune
  cases found : index.lookup key with
  | none =>
    have nothing : index.listed key = ∅ := by simp [listed, found]
    by_cases same : key' = key
    · subst same
      simp [nothing]
    · simp [same]
  | some ids =>
    have held : index.listed key = ids := by simp [listed, found]
    by_cases same : key' = key
    · subst same
      by_cases last : ids.erase id = ∅
      · have gone : listed (index.erase key') key' = ∅ := by
          simp [listed]
        have only : other ∈ ids → other = id := by
          intro member
          by_contra different
          have kept := Finset.mem_erase.mpr ⟨different, member⟩
          rw [last] at kept
          exact Finset.notMem_empty _ kept
        simp only [last, if_true, gone, held]
        constructor
        · intro member
          exact (Finset.notMem_empty _ member).elim
        · rintro ⟨member, notOnly⟩
          exact (notOnly ⟨trivial, only member⟩).elim
      · simp [last, held, and_comm]
    · have kept : listed (index.erase key) key' = index.listed key' := by
        simp [listed, Finmap.lookup_erase_ne same]
      by_cases last : ids.erase id = ∅
      · simp [last, kept, same]
      · simp [last, listed_insert_of_ne _ _ _ _ same, same]

end Listed

section Loops

variable (index : InvertedIndex Key Id) (id other : Id)

theorem mem_listed_foldl_add (keys : List Key) (key : Key) :
    other ∈ (keys.foldl (add id) index).listed key ↔
      other ∈ index.listed key ∨ key ∈ keys ∧ other = id := by
  induction keys generalizing index with
  | nil => simp
  | cons first rest induction =>
    rw [List.foldl_cons, induction, mem_listed_add]
    simp only [List.mem_cons]
    tauto

theorem mem_listed_foldl_remove (remove : InvertedIndex Key Id → Key → InvertedIndex Key Id)
    (step : ∀ index key key' other, other ∈ (remove index key).listed key' ↔
        other ∈ index.listed key' ∧ ¬ (key' = key ∧ other = id)) (keys : List Key) (key : Key) :
    other ∈ (keys.foldl remove index).listed key ↔
      other ∈ index.listed key ∧ ¬ (key ∈ keys ∧ other = id) := by
  induction keys generalizing index with
  | nil => simp
  | cons first rest induction =>
    rw [List.foldl_cons, induction, step]
    simp only [List.mem_cons]
    tauto

theorem mem_listed_foldl_drop (keys : List Key) (key : Key) :
    other ∈ (keys.foldl (drop id) index).listed key ↔
      other ∈ index.listed key ∧ ¬ (key ∈ keys ∧ other = id) :=
  mem_listed_foldl_remove index id other (drop id)
    (fun index key key' other => mem_listed_drop index id other key key') keys key

theorem mem_listed_foldl_prune (keys : List Key) (key : Key) :
    other ∈ (keys.foldl (prune id) index).listed key ↔
      other ∈ index.listed key ∧ ¬ (key ∈ keys ∧ other = id) :=
  mem_listed_foldl_remove index id other (prune id)
    (fun index key key' other => mem_listed_prune index id other key key') keys key

end Loops

/-- Move an id from the lists under its old keys to those under its new
ones, leaving the keys it keeps alone. -/
def exchange (before after : List Key) (id : Id)
    (index : InvertedIndex Key Id) : InvertedIndex Key Id :=
  (after.filter (· ∉ before)).foldl (add id) ((before.filter (· ∉ after)).foldl (drop id) index)

theorem mem_listed_exchange (before after : List Key) (id other : Id)
    (index : InvertedIndex Key Id) (key : Key) :
    other ∈ (index.exchange before after id).listed key ↔ (other ∈ index.listed key ∧
        ¬ ((key ∈ before ∧ key ∉ after) ∧ other = id)) ∨
      (key ∈ after ∧ key ∉ before) ∧ other = id := by
  simp only [exchange, mem_listed_foldl_add, mem_listed_foldl_drop,
    List.mem_filter, decide_eq_true_eq]

/-- Every key that is present lists something. -/
def NoEmpty (index : InvertedIndex Key Id) : Prop := ∀ key, index.lookup key ≠ some ∅

variable {index : InvertedIndex Key Id}

theorem noEmpty_foldl_add (noEmpty : index.NoEmpty) (id : Id) (keys : List Key) :
    (keys.foldl (add id) index).NoEmpty := by
  induction keys generalizing index with
  | nil => exact noEmpty
  | cons key keys induction =>
    apply induction
    intro other
    by_cases same : other = key
    · subst same
      simp [add]
    · rw [add, Finmap.lookup_insert_of_ne _ same]
      exact noEmpty other

theorem noEmpty_prune (noEmpty : index.NoEmpty) (id : Id) (key : Key) :
    (index.prune id key).NoEmpty := by
  intro other
  unfold prune
  cases found : index.lookup key with
  | none => exact noEmpty other
  | some ids =>
    by_cases last : ids.erase id = ∅
    · by_cases same : other = key
      · subst same
        simp [last]
      · simp only [last, if_true, Finmap.lookup_erase_ne same]
        exact noEmpty other
    · by_cases same : other = key
      · subst same
        simp [last]
      · simp only [last, if_false, Finmap.lookup_insert_of_ne _ same]
        exact noEmpty other

theorem noEmpty_foldl_prune (noEmpty : index.NoEmpty) (id : Id) (keys : List Key) :
    (keys.foldl (prune id) index).NoEmpty := by
  induction keys generalizing index with
  | nil => exact noEmpty
  | cons key keys induction => exact induction (noEmpty_prune noEmpty id key)

/-- The index lists the ids of exactly the objects that carry the key. -/
def Indexes (keysOf : Value → Key → Prop)
    (objects : Finmap fun _ : Id => Value) (index : InvertedIndex Key Id) : Prop :=
  ∀ key id, id ∈ index.listed key ↔ ∃ value, objects.lookup id = some value ∧ keysOf value key

namespace Indexes

variable {keysOf : Value → Key → Prop} {objects : Finmap fun _ : Id => Value} {id : Id}

theorem empty : Indexes keysOf (∅ : Finmap fun _ : Id => Value) (∅ : InvertedIndex Key Id) := by
  intro key id
  simp [listed]

variable (indexes : Indexes keysOf objects index)
include indexes

theorem insert (absent : objects.lookup id = none)
    (added : ∀ key other, other ∈ next.listed key ↔ other ∈ index.listed key ∨
      keysOf value key ∧ other = id) : Indexes keysOf (objects.insert id value) next := by
  intro key other
  rw [added, indexes key other]
  by_cases same : other = id
  · subst same
    simp [absent]
  · simp [same, Finmap.lookup_insert_of_ne]

theorem erase (found : objects.lookup id = some value)
    (dropped : ∀ key other, other ∈ next.listed key ↔ other ∈ index.listed key ∧
      ¬ (keysOf value key ∧ other = id)) : Indexes keysOf (objects.erase id) next := by
  intro key other
  rw [dropped, indexes key other]
  by_cases same : other = id
  · subst same
    simp [found]
  · simp [same, Finmap.lookup_erase_ne]

theorem replace (kept : ∀ key other, other ≠ id → (other ∈ next.listed key ↔ other ∈
      index.listed key)) (own : ∀ key, id ∈ next.listed key ↔ keysOf after key) :
    Indexes keysOf (objects.insert id after) next := by
  intro key other
  by_cases same : other = id
  · subst same
    simp [own]
  · rw [kept key other same, indexes key other, Finmap.lookup_insert_of_ne _ same]

theorem exchange (found : objects.lookup id = some value)
    (old : ∀ key, key ∈ oldKeys ↔ keysOf value key)
    (new : ∀ key, key ∈ newKeys ↔ keysOf after key) :
    Indexes keysOf (objects.insert id after) (index.exchange oldKeys newKeys id) := by
  apply indexes.replace
  · intro key other different
    rw [mem_listed_exchange]
    simp [different]
  · intro key
    have listed : id ∈ index.listed key ↔ key ∈ oldKeys := by
      rw [indexes key id, old]
      simp [found]
    rw [mem_listed_exchange, listed, ← new]
    tauto

end Indexes

end InvertedIndex

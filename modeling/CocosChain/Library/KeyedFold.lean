import Mathlib.Data.Finmap

/-!
# Loops over the entries of a keyed container

A loop that visits every entry of a keyed container, in whatever order the
container yields them, and whose body only touches the key of the entry at
hand, has an effect that can be read off key by key.  The rule below packages
the induction once; the body may also stop the loop with an error.
-/

namespace KeyedFold

variable {State Key Item View Error : Type*}

/-- The list holds the entries of a finite map, each once, in some order. -/
structure ListsMap {Value : Type*} [DecidableEq Key]
    (entries : List (Key × Value)) (map : Finmap fun _ : Key => Value) : Prop where
  distinct : (entries.map Prod.fst).Nodup
  mem_iff : ∀ key value,
    (key, value) ∈ entries ↔ map.lookup key = some value

/-- The list holds the elements of a finite set, each once, in some order. -/
structure ListsSet (elements : List Key) (set : Finset Key) : Prop where
  distinct : elements.Nodup
  mem_iff : ∀ key, key ∈ elements ↔ key ∈ set

variable {Value : Type*} {map : Finmap fun _ : Key => Value}

theorem ListsMap.mem_keys [DecidableEq Key] (lists : ListsMap entries map) (key : Key) :
    key ∈ entries.map Prod.fst ↔ key ∈ map := by
  rw [Finmap.mem_iff]
  constructor
  · intro member
    obtain ⟨⟨_, value⟩, entry, rfl⟩ := List.mem_map.mp member
    exact ⟨value, (lists.mem_iff _ value).mp entry⟩
  · rintro ⟨value, found⟩
    exact List.mem_map.mpr ⟨(key, value), (lists.mem_iff key value).mpr found, rfl⟩

theorem ListsMap.exists [DecidableEq Key] (map : Finmap fun _ : Key => Value) :
    ∃ entries : List (Key × Value), ListsMap entries map := by
  induction map using Finmap.induction_on with
  | _ listed =>
    refine ⟨listed.entries.map fun entry => (entry.1, entry.2), ?_, ?_⟩
    · have distinct : (listed.entries.map Sigma.fst).Nodup :=
        listed.nodupKeys
      simpa [List.map_map, Function.comp_def] using distinct
    · intro key value
      rw [Finmap.lookup_toFinmap, AList.lookup,
        ← Option.mem_def, List.mem_dlookup_iff listed.nodupKeys]
      simp only [List.mem_map, Prod.mk.injEq]
      constructor
      · rintro ⟨⟨_, _⟩, member, rfl, rfl⟩
        exact member
      · intro member
        exact ⟨⟨key, value⟩, member, rfl, rfl⟩

theorem ListsMap.exists_head [DecidableEq Key] (found : map.lookup key = some value) :
    ∃ rest : List (Key × Value), ListsMap ((key, value) :: rest) map := by
  obtain ⟨_, lists⟩ := ListsMap.exists map
  obtain ⟨front, back, rfl⟩ := List.append_of_mem ((lists.mem_iff key value).mpr found)
  have shuffled : (front ++ (key, value) :: back).Perm
      ((key, value) :: (front ++ back)) := List.perm_middle
  refine ⟨front ++ back, ?_, ?_⟩
  · exact (shuffled.map Prod.fst).nodup_iff.mp lists.distinct
  · intro other held
    rw [← shuffled.mem_iff]
    exact lists.mem_iff other held

theorem ListsSet.exists (set : Finset Key) : ∃ elements : List Key, ListsSet elements set :=
  ⟨set.toList, set.nodup_toList, fun _ => Finset.mem_toList⟩

/-- One execution of a loop body: the item's own key is rewritten, every other
key is left alone, and the side invariant survives. -/
def StepsTo (view : State → Key → View) (key : Item → Key)
    (change : Item → View → View) (Inv : State → Prop)
    (state : State) (item : Item) (next : State) : Prop :=
  Inv next ∧ view next (key item) = change item (view state (key item)) ∧
    ∀ other, other ≠ key item → view next other = view state other

/-- The effect of the whole loop. -/
structure RunsTo (view : State → Key → View) (key : Item → Key)
    (change : Item → View → View) (Inv : State → Prop)
    (items : List Item) (state final : State) : Prop where
  inv : Inv final
  visited : ∀ item ∈ items,
    view final (key item) = change item (view state (key item))
  untouched : ∀ other, other ∉ items.map key → view final other = view state other

private theorem foldlM_ok (body : State → Item → State) (items : List Item) (state : State) :
    items.foldlM (fun state item =>
      (Except.ok (body state item) : Except Empty State)) state =
      .ok (items.foldl body state) := by
  induction items generalizing state with
  | nil => rfl
  | cons item items induction =>
    exact induction (body state item)

variable (view : State → Key → View) (key : Item → Key) (change : Item → View → View)
  (Inv : State → Prop) (Ready : Item → View → Prop)

private theorem ready_tail {view : State → Key → View} {key : Item → Key}
    {Ready : Item → View → Prop} (fresh : key item ∉ items.map key)
    (others : ∀ other, other ≠ key item → view next other = view state other)
    (ready : ∀ later ∈ item :: items, Ready later (view state (key later))) :
    ∀ later ∈ items, Ready later (view next (key later)) := by
  intro later member
  have different : key later ≠ key item := by
    intro equality
    exact fresh (equality ▸ List.mem_map_of_mem member)
  rw [others _ different]
  exact ready later (List.mem_cons_of_mem _ member)

/-- If every body execution either rewrites its own key or stops with an error
from `Bad`, then so does the loop over entries with distinct keys. -/
theorem foldlM_runsTo (Bad : Error → Prop) (body : State → Item → Except Error State)
    (step : ∀ state item, Inv state → Ready item (view state (key item)) → (∃
      next, body state item = .ok next ∧ StepsTo view key change Inv state item
      next) ∨ ∃ error, body state item = .error error ∧ Bad error) (items : List Item)
    (distinct : (items.map key).Nodup) (state : State) (inv : Inv state)
    (ready : ∀ item ∈ items, Ready item (view state (key item))) :
    (∃ final, items.foldlM body state = .ok final ∧ RunsTo view key change Inv items state final) ∨
    ∃ error, items.foldlM body state = .error error ∧ Bad error := by
  induction items generalizing state with
  | nil =>
    left
    exact ⟨state, rfl, inv, by simp, by simp⟩
  | cons item items induction =>
    obtain ⟨fresh, distinctTail⟩ := List.nodup_cons.mp distinct
    rcases step state item inv (ready item List.mem_cons_self) with
      ⟨next, success, nextInv, rewritten, others⟩ | ⟨error, failure, bad⟩
    · rcases induction distinctTail next nextInv (ready_tail fresh others ready) with
        ⟨final, run, effect⟩ | ⟨error, run, bad⟩
      · left
        refine ⟨final, ?_, effect.inv, ?_, ?_⟩
        · rw [List.foldlM_cons, success]
          exact run
        · intro visited member
          rcases List.mem_cons.mp member with rfl | later
          · rw [effect.untouched _ fresh, rewritten]
          · have different : key visited ≠ key item := by
              intro equality
              exact fresh (equality ▸ List.mem_map_of_mem later)
            rw [effect.visited visited later, others _ different]
        · intro other absent
          simp only [List.map_cons, List.mem_cons, not_or] at absent
          rw [effect.untouched other absent.2, others other absent.1]
      · right
        refine ⟨error, ?_, bad⟩
        rw [List.foldlM_cons, success]
        exact run
    · right
      refine ⟨error, ?_, bad⟩
      rw [List.foldlM_cons, failure]
      rfl

/-- An invariant of a loop that ran to its end, when the body only touches the
key of the item at hand. -/
theorem foldlM_preserves (body : State → Item → Except Error State)
    (step : ∀ state item next, Inv state → Ready item (view state (key item)) →
      body state item = .ok next → Inv next ∧ ∀ other, other ≠ key item → view
      next other = view state other) (items : List Item)
    (distinct : (items.map key).Nodup) (state final : State) (inv : Inv state)
    (ready : ∀ item ∈ items, Ready item (view state (key item)))
    (success : items.foldlM body state = .ok final) : Inv final := by
  induction items generalizing state with
  | nil =>
    cases success
    exact inv
  | cons item items induction =>
    obtain ⟨fresh, distinctTail⟩ := List.nodup_cons.mp distinct
    rw [List.foldlM_cons] at success
    cases first : body state item with
    | error error =>
      rw [first] at success
      cases success
    | ok next =>
      rw [first] at success
      obtain ⟨nextInv, others⟩ := step state item next inv (ready item List.mem_cons_self) first
      exact induction distinctTail next nextInv (ready_tail fresh others ready) success

theorem foldlM_total (body : State → Item → Except Error State)
    (step : ∀ state item, Inv state → Ready item (view state (key item)) → ∃
      next, body state item = .ok next ∧ StepsTo view key change Inv state item
      next) (items : List Item) (distinct : (items.map key).Nodup) (state : State) (inv : Inv state)
    (ready : ∀ item ∈ items, Ready item (view state (key item))) :
    ∃ final, items.foldlM body state = .ok final ∧
      RunsTo view key change Inv items state final := by
  have run := foldlM_runsTo view key change Inv Ready (fun _ => False) body
    (fun state item inv ready => .inl (step state item inv ready)) items distinct state inv ready
  rcases run with success | ⟨_, _, impossible⟩
  · exact success
  · exact impossible.elim

theorem foldl_runsTo (body : State → Item → State)
    (step : ∀ state item, Inv state → Ready item (view state (key item)) →
      StepsTo view key change Inv state item (body state item)) (items : List Item)
    (distinct : (items.map key).Nodup) (state : State) (inv : Inv state)
    (ready : ∀ item ∈ items, Ready item (view state (key item))) :
    RunsTo view key change Inv items state (items.foldl body state) := by
  obtain ⟨_, run, effect⟩ :=
    foldlM_total view key change Inv Ready
      (fun state item => (Except.ok (body state item) : Except Empty State))
      (fun state item inv ready => ⟨_, rfl, step state item inv ready⟩)
      items distinct state inv ready
  rw [foldlM_ok] at run
  cases run
  exact effect

end KeyedFold

import CocosChain.Chain.Maintenance
import CocosChain.Library.Sorting
import Mathlib.Data.List.Dedup

/-!
# The active witnesses

A maintenance elects the witnesses that are at work and have the most votes.
Three functions rely on there being one: the schedule takes a remainder by the
number of active witnesses, the scheduled witness one by the length of the
schedule, and the last irreversible block is read at an index below it.

The number of winners is meant to be odd, but what is tested is whether half of
it is zero.  So a single winner is dropped, and an even number stays.
-/

namespace CocosChain.Chain

namespace WitnessSchedule

/-- The random number for a position of the schedule. -/
def scramble (time : UInt64) (index : UInt64) : UInt64 :=
  let number := (time <<< 32) + index * 2685821657736338717
  let number := number ^^^ (number >>> 12)
  let number := number ^^^ (number <<< 25)
  let number := number ^^^ (number >>> 27)
  number * 2685821657736338717

def swap (witnesses : List WitnessId) (left right : Nat) : List WitnessId :=
  match witnesses[left]?, witnesses[right]? with
  | some first, some second => (witnesses.set left second).set right first
  | _, _ => witnesses

/-- Every position is swapped with itself or a later one. -/
def shuffle (time : Nat) (witnesses : List WitnessId) : List WitnessId :=
  (List.range witnesses.length).foldl (fun shuffled index =>
    let number := (scramble (.ofNat time) (.ofNat index)).toNat
    swap shuffled index (index + number % (witnesses.length - index)))
    witnesses

/-- `update_witness_schedule`; without active witnesses the remainder is taken
by zero. -/
def update (headBlockNumber headBlockTime : Nat)
    (activeWitnesses schedule : List WitnessId) : Option (List WitnessId) :=
  if activeWitnesses.length = 0 then none
  else if headBlockNumber % activeWitnesses.length = 0 then
    some (shuffle headBlockTime activeWitnesses)
  else some schedule

def getScheduledWitness (currentAslot slotNum : Nat)
    (schedule : List WitnessId) : Option WitnessId :=
  if schedule.length = 0 then none
  else schedule[(currentAslot + slotNum) % 2 ^ 64 % schedule.length]?

theorem swap_perm : (swap witnesses left right).Perm witnesses := by
  unfold swap
  split
  · rename_i first second here there
    obtain ⟨_, rfl⟩ := List.getElem?_eq_some_iff.mp here
    obtain ⟨_, rfl⟩ := List.getElem?_eq_some_iff.mp there
    exact List.set_set_perm _ _
  · exact .refl _

theorem shuffle_perm : (shuffle time witnesses).Perm witnesses := by
  refine List.foldlRecOn (motive := (List.Perm · witnesses)) _ _ (.refl _) ?_
  intro shuffled same index _
  exact swap_perm.trans same

theorem getScheduledWitness_isSome :
    (getScheduledWitness currentAslot slotNum schedule).isSome = true ↔ schedule ≠ [] := by
  unfold getScheduledWitness
  split
  · rename_i empty
    simp [List.length_eq_zero_iff.mp empty]
  · rename_i some
    have inRange : (currentAslot + slotNum) % 2 ^ 64 % schedule.length <
        schedule.length := Nat.mod_lt _ (Nat.pos_of_ne_zero some)
    rw [List.getElem?_eq_getElem inRange]
    simpa [List.length_eq_zero_iff] using some

end WitnessSchedule

/-- Nothing that is computed from the active witnesses divides by zero or
reads beyond an end. -/
structure SchedulesInRange (activeWitnesses : List WitnessId) : Prop where
  schedule : ∀ headBlockNumber headBlockTime schedule, schedule ≠ [] →
    ∃ updated, WitnessSchedule.update headBlockNumber headBlockTime
        activeWitnesses schedule = some updated ∧
      ∀ currentAslot slotNum, (WitnessSchedule.getScheduledWitness
        currentAslot slotNum updated).isSome = true
  irreversible : Objects.irreversibleOffset activeWitnesses.length < activeWitnesses.length

theorem schedulesInRange_iff : SchedulesInRange activeWitnesses ↔ activeWitnesses ≠ [] := by
  constructor
  · rintro ⟨-, irreversible⟩ rfl
    exact absurd irreversible (Nat.not_lt_zero _)
  · intro some
    have positive : 0 < activeWitnesses.length := List.length_pos_iff.mpr some
    refine ⟨fun number time schedule filled => ?_, ?_⟩
    · unfold WitnessSchedule.update
      rw [if_neg positive.ne']
      split
      · refine ⟨_, rfl, fun aslot slot => ?_⟩
        rw [WitnessSchedule.getScheduledWitness_isSome]
        apply List.ne_nil_of_length_pos
        rw [WitnessSchedule.shuffle_perm.length_eq]
        exact positive
      · exact ⟨schedule, rfl, fun aslot slot =>
          WitnessSchedule.getScheduledWitness_isSome.mpr filled⟩
    · rw [Objects.irreversibleOffset]
      omega

namespace Votable

theorem ranksBefore_total (first second : Votable) :
    first.RanksBefore second ∨ second.RanksBefore first := by
  unfold RanksBefore
  omega

theorem RanksBefore.trans {first : Votable} (before : first.RanksBefore second)
    (after : second.RanksBefore third) : first.RanksBefore third := by
  unfold RanksBefore at *
  omega

theorem orders_ranksBefore (votables : List Votable) : Sorting.Orders RanksBefore votables :=
  ⟨fun left _ right _ => ranksBefore_total left right, fun _ _ _ _ _ _ => RanksBefore.trans⟩

variable {candidates : List Votable}

theorem find_of_mem (distinct : (candidates.map Votable.id).Nodup) (member : votable ∈ candidates) :
    candidates.find? (·.id == votable.id) = some votable := by
  induction candidates with
  | nil => cases member
  | cons head rest induction =>
    rw [List.map_cons, List.nodup_cons] at distinct
    rcases List.mem_cons.mp member with rfl | later
    · simp
    · have other : head.id ≠ votable.id := by
        intro same
        apply distinct.1
        rw [same]
        exact List.mem_map_of_mem later
      rw [List.find?_cons_of_neg (by simpa using other)]
      exact induction distinct.2 later

theorem eq_of_id (distinct : (candidates.map Votable.id).Nodup) (here : left ∈ candidates)
    (there : right ∈ candidates) (same : left.id = right.id) : left = right := by
  have found := find_of_mem distinct here
  rw [same, find_of_mem distinct there] at found
  exact (Option.some.inj found).symm

end Votable

namespace Election

variable {refs : List Nat}

/-- The candidates that are collected, with those still in the list, in the
order of their votes. -/
def ranked (candidates : List Votable) (refs : List Nat) : List Votable :=
  (((refs ++ (candidates.filter Votable.workStatus).map Votable.id).filterMap
    fun id => candidates.find? (·.id == id))).insertionSort Votable.RanksBefore

theorem hold_elected : (hold candidates refs count).elected =
      if 2 ≤ ((ranked candidates refs).take count).length then
        (ranked candidates refs).take count
      else [] := by
  show (if _ / 2 = 0 then _ else _) = _
  by_cases few : 2 ≤ ((ranked candidates refs).take count).length
  · rw [if_pos few, if_neg]
    · rfl
    · show ¬ ((ranked candidates refs).take count).length / 2 = 0
      omega
  · rw [if_neg few, if_pos]
    · apply List.eq_nil_of_length_eq_zero
      show (((ranked candidates refs).take count).dropLast).length = 0
      rw [List.length_dropLast]
      omega
    · show ((ranked candidates refs).take count).length / 2 = 0
      omega

theorem ranked_sorted : (ranked candidates refs).Pairwise Votable.RanksBefore :=
  Sorting.pairwise_insertionSort (Votable.orders_ranksBefore _)

theorem mem_ranked : votable ∈ ranked candidates refs → votable ∈ candidates := by
  intro member
  obtain ⟨_, -, found⟩ := List.mem_filterMap.mp ((List.mem_insertionSort _).mp member)
  exact List.mem_of_find?_eq_some found

theorem working_mem_ranked (distinct : (candidates.map Votable.id).Nodup)
    (member : votable ∈ candidates) (working : votable.workStatus = true) :
    votable ∈ ranked candidates refs := by
  apply (List.mem_insertionSort _).mpr
  refine List.mem_filterMap.mpr ⟨votable.id, List.mem_append_right _ ?_,
    Votable.find_of_mem distinct member⟩
  exact List.mem_map_of_mem (List.mem_filter.mpr ⟨member, working⟩)

/-- Without references that are left over, those at work are ranked. -/
theorem ranked_clean (distinct : (candidates.map Votable.id).Nodup) :
    ranked candidates [] = (candidates.filter
      Votable.workStatus).insertionSort Votable.RanksBefore := by
  have found : ((candidates.filter Votable.workStatus).map
      Votable.id).filterMap (fun id => candidates.find? (·.id == id)) =
        candidates.filter Votable.workStatus := by
    rw [List.filterMap_map]
    have every : ∀ votable ∈ candidates.filter Votable.workStatus,
        ((fun id => candidates.find? (·.id == id)) ∘ Votable.id) votable = some votable := by
      intro votable member
      exact Votable.find_of_mem distinct (List.mem_of_mem_filter member)
    rw [List.filterMap_congr every, List.filterMap_some]
  rw [ranked, List.nil_append, found]

end Election

/-- The witnesses are at work, odd in number and ranked first. -/
structure SensibleWitnesses (witnesses : List Votable) (count : Nat)
    (activeWitnesses : List WitnessId) : Prop where
  nonempty : activeWitnesses ≠ []
  distinct : activeWitnesses.Nodup
  odd : Odd activeWitnesses.length
  most : activeWitnesses.length ≤ count
  working : ∀ id ∈ activeWitnesses,
    ∃ witness ∈ witnesses, witness.id = id ∧ witness.workStatus = true
  ranked : ∀ chosen ∈ witnesses, chosen.id ∈ activeWitnesses →
    ∀ other ∈ witnesses, other.workStatus = true →
      other.id ∉ activeWitnesses → chosen.RanksBefore other

/-- Among the first that are collected nobody is off work, and they are an odd
number of different witnesses, but not one alone. -/
structure Electable (witnesses : List Votable) (refs : List Nat) (count : Nat) : Prop where
  several : 2 ≤ ((Election.ranked witnesses refs).take count).length
  working : ∀ witness ∈ (Election.ranked witnesses refs).take count,
    witness.workStatus = true
  odd : Odd (((Election.ranked witnesses refs).take count).map
    Votable.id).dedup.length

namespace Election

variable {refs : List Nat}

theorem mem_ids {id : Nat} : id ∈ (hold candidates refs count).ids ↔
      2 ≤ ((ranked candidates refs).take count).length ∧
        ∃ witness ∈ (ranked candidates refs).take count, witness.id = id := by
  rw [ids, List.mem_insertionSort, List.mem_dedup, hold_elected]
  by_cases several : 2 ≤ ((ranked candidates refs).take count).length
  · rw [if_pos several, List.mem_map]
    exact ⟨fun found => ⟨several, found⟩, fun found => found.2⟩
  · rw [if_neg several]
    exact ⟨fun found => absurd found List.not_mem_nil, fun found => absurd found.1 several⟩

theorem length_ids (several : 2 ≤ ((ranked candidates refs).take count).length) :
    (hold candidates refs count).ids.length = (((ranked candidates refs).take count).map
        Votable.id).dedup.length := by
  rw [ids, List.length_insertionSort, hold_elected, if_pos several]

theorem sensible_iff (distinct : (candidates.map Votable.id).Nodup) :
    SensibleWitnesses candidates count (hold candidates refs count).ids ↔
      Electable candidates refs count := by
  constructor
  · intro sensible
    obtain ⟨_, member⟩ := List.exists_mem_of_ne_nil _ sensible.nonempty
    have several := (mem_ids.mp member).1
    refine ⟨several, fun witness chosen => ?_, ?_⟩
    · obtain ⟨other, there, same, working⟩ := sensible.working witness.id
        (mem_ids.mpr ⟨several, witness, chosen, rfl⟩)
      have here := mem_ranked (List.mem_of_mem_take chosen)
      rw [Votable.eq_of_id distinct here there same.symm]
      exact working
    · rw [← length_ids several]
      exact sensible.odd
  · intro electable
    have several := electable.several
    have length := length_ids several
    refine ⟨?_, ?_, ?_, ?_, ?_, ?_⟩
    · intro empty
      rw [empty] at length
      have odd := electable.odd
      rw [← length] at odd
      cases odd with
      | intro half double => simp at double
    · exact (List.perm_insertionSort _ _).nodup_iff.mpr (List.nodup_dedup _)
    · rw [length]
      exact electable.odd
    · rw [length]
      calc _ ≤ (((ranked candidates refs).take count).map
              Votable.id).length := (List.dedup_sublist _).length_le
        _ = ((ranked candidates refs).take count).length := List.length_map ..
        _ ≤ count := List.length_take_le ..
    · intro id member
      obtain ⟨-, witness, chosen, same⟩ := mem_ids.mp member
      exact ⟨witness, mem_ranked (List.mem_of_mem_take chosen), same,
        electable.working witness chosen⟩
    · intro chosen here elected other there working passed
      obtain ⟨-, witness, taken, same⟩ := mem_ids.mp elected
      have sameWitness := Votable.eq_of_id distinct
        (mem_ranked (List.mem_of_mem_take taken)) here same
      subst sameWitness
      have dropped : other ∈ (ranked candidates refs).drop count := by
        have all : other ∈ ranked candidates refs := working_mem_ranked distinct there working
        rw [← List.take_append_drop count (ranked candidates refs)] at all
        rcases List.mem_append.mp all with taken | dropped
        · exact absurd (mem_ids.mpr ⟨several, other, taken, rfl⟩) passed
        · exact dropped
      have sorted : (ranked candidates refs).Pairwise Votable.RanksBefore := ranked_sorted
      rw [← List.take_append_drop count (ranked candidates refs), List.pairwise_append] at sorted
      exact sorted.2.2 witness taken other dropped

/-- Without references that are left over, the numbers decide. -/
theorem electable_clean (distinct : (candidates.map Votable.id).Nodup) (odd : Odd count) :
    Electable candidates [] count ↔ 3 ≤ count ∧ 3 ≤ (candidates.filter Votable.workStatus).length ∧
        (count ≤ (candidates.filter Votable.workStatus).length ∨
          Odd (candidates.filter Votable.workStatus).length) := by
  have length : ((ranked candidates []).take count).length =
      min count (candidates.filter Votable.workStatus).length := by
    rw [List.length_take, ranked_clean distinct, List.length_insertionSort]
  have working : ∀ witness ∈ (ranked candidates []).take count, witness.workStatus = true := by
    intro witness member
    have there := List.mem_of_mem_take member
    rw [ranked_clean distinct, List.mem_insertionSort] at there
    exact (List.mem_filter.mp there).2
  have different : (((ranked candidates []).take count).map Votable.id).dedup.length =
        min count (candidates.filter Votable.workStatus).length := by
    have nodup : ((ranked candidates []).map Votable.id).Nodup := by
      rw [ranked_clean distinct]
      apply (((List.perm_insertionSort _ _).map _).nodup_iff).mpr
      exact distinct.sublist (List.filter_sublist.map _)
    rw [((nodup.sublist ((List.take_sublist _ _).map _))).dedup, List.length_map, length]
  constructor
  · rintro ⟨several, -, counted⟩
    rw [length] at several
    rw [different] at counted
    rcases Nat.le_total count (candidates.filter Votable.workStatus).length with enough | few
    · obtain ⟨half, double⟩ := odd
      exact ⟨by omega, by omega, .inl enough⟩
    · rw [min_eq_right few] at several counted
      obtain ⟨_, _⟩ := id counted
      exact ⟨by omega, by omega, .inr counted⟩
  · rintro ⟨_, _, which⟩
    refine ⟨by rw [length]; omega, working, ?_⟩
    rw [different]
    rcases which with enough | counted
    · rw [min_eq_left enough]
      exact odd
    · rcases Nat.le_total count (candidates.filter Votable.workStatus).length with enough | few
      · rw [min_eq_left enough]
        exact odd
      · rw [min_eq_right few]
        exact counted

end Election

namespace MaintenanceState

variable {Hash Rest Tx Key ρ : Type}

/-- The elected witnesses are sensible exactly if the first that are collected
are.  If nothing is left over from an earlier election this is a matter of
numbers: there are to be three at work at least, and as many as are elected or
an odd number.  Sensible witnesses keep the schedule in range. -/
theorem active_witnesses_sensible (state : MaintenanceState Hash Rest Tx Key ρ)
    (distinct : (state.objects.others.witnesses.map Votable.id).Nodup)
    (odd : Odd state.objects.others.witnessNumberOfElection) :
    let witnesses := state.objects.others.witnesses
    let count := state.objects.others.witnessNumberOfElection
    let working := (witnesses.filter Votable.workStatus).length
    let elected := state.updateActiveWitnesses.objects.activeWitnesses
    (SensibleWitnesses witnesses count elected ↔
      Electable witnesses state.members.witnessRefs count) ∧
    (state.members.witnessRefs = [] → (SensibleWitnesses witnesses count elected ↔
        3 ≤ count ∧ 3 ≤ working ∧ (count ≤ working ∨ Odd working))) ∧
    (SensibleWitnesses witnesses count elected → SchedulesInRange elected) := by
  intro witnesses count working elected
  have sensible : SensibleWitnesses witnesses count elected ↔
      Electable witnesses state.members.witnessRefs count :=
    Election.sensible_iff distinct
  refine ⟨sensible, fun clean => ?_, fun keeps => ?_⟩
  · rw [sensible, clean]
    exact Election.electable_clean distinct odd
  · exact schedulesInRange_iff.mpr keeps.nonempty

/-- Before an election of three with `working` witnesses at work, each with a
vote more than the next. -/
def beforeElection (working : Nat) : MaintenanceState Nat Unit Unit Unit Unit where
  members := .cleared
  objects := .genesis [7]
    { witnesses := (List.range working).map fun id =>
        ⟨id, 20 + id, id, working - id, true⟩
      committeeMembers := []
      witnessNumberOfElection := 3
      committeeNumberOfElection := 3
      witnessAccount := ⟨0, [], []⟩
      committeeAccount := ⟨0, [], []⟩
      relaxedCommitteeAccount := ⟨0, [], []⟩
      activeCommitteeMembers := []
      unsuccessfulCandidates := []
      nextMaintenanceTime := 0
      maintenanceInterval := 10
      rest := () }

theorem active_witnesses_sensible_four :
    SensibleWitnesses (beforeElection 4).objects.others.witnesses 3
        (beforeElection 4).updateActiveWitnesses.objects.activeWitnesses ∧
      (beforeElection 4).updateActiveWitnesses.objects.activeWitnesses = [0, 1, 2] := by
  constructor
  · exact ((active_witnesses_sensible (beforeElection 4) (by decide)
      (by decide)).2.1 rfl).mpr (by decide)
  · decide +kernel

/-- A single witness at work is not elected, and the schedule divides by zero;
two of them are elected both. -/
theorem single_witness_dropped :
    (beforeElection 1).updateActiveWitnesses.objects.activeWitnesses = [] ∧
      WitnessSchedule.update 5 100 (beforeElection 1).updateActiveWitnesses.objects.activeWitnesses
        [7] = none ∧
      ¬ SchedulesInRange (beforeElection 1).updateActiveWitnesses.objects.activeWitnesses ∧
      (beforeElection 2).updateActiveWitnesses.objects.activeWitnesses = [0, 1] ∧
      ¬ SensibleWitnesses (beforeElection 2).objects.others.witnesses 3
        (beforeElection 2).updateActiveWitnesses.objects.activeWitnesses := by
  have nobody : (beforeElection 1).updateActiveWitnesses.objects.activeWitnesses
      = [] := by decide +kernel
  have both : (beforeElection 2).updateActiveWitnesses.objects.activeWitnesses
      = [0, 1] := by decide +kernel
  refine ⟨nobody, ?_, ?_, both, ?_⟩
  · rw [nobody]
    rfl
  · rw [nobody, schedulesInRange_iff]
    exact fun nonempty => nonempty rfl
  · rw [both]
    intro sensible
    exact absurd sensible.odd (by decide)

end MaintenanceState

end CocosChain.Chain

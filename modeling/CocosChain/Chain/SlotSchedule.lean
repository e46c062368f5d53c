import CocosChain.Chain.ActiveWitnesses

/-!
# Slots and the schedule

A slot is counted from the head block on, an absolute slot from the start of the
chain.  The witness of an absolute slot does not depend on the head block that
it is counted from.
-/

namespace CocosChain.Chain

/-- What slots are counted from. -/
structure SlotHead where
  headBlockNum : Nat
  headBlockTime : Nat
  blockInterval : Nat
  maintenanceFlag : Bool
  maintenanceSkipSlots : Nat
  currentAslot : Nat

namespace SlotHead

def getSlotTime (head : SlotHead) (slotNum : Nat) : Nat :=
  if slotNum = 0 then 0
  else if head.headBlockNum = 0 then
    (head.headBlockTime + slotNum * head.blockInterval % 2 ^ 32) % 2 ^ 32
  else
    let headBlockAbsSlot := head.headBlockTime / head.blockInterval
    let slotNum := if head.maintenanceFlag then
      (slotNum + head.maintenanceSkipSlots) % 2 ^ 32 else slotNum
    (headBlockAbsSlot * head.blockInterval + slotNum * head.blockInterval % 2 ^ 32) % 2 ^ 32

def getSlotAtTime (head : SlotHead) (time : Nat) : Nat :=
  if time < head.getSlotTime 1 then 0
  else ((time - head.getSlotTime 1) / head.blockInterval + 1) % 2 ^ 32

/-- A block of the given time, which may be the one of a maintenance, becomes the
head block. -/
def pushBlock (head : SlotHead) (block : Nat × Bool) : SlotHead :=
  { head with
    headBlockNum := head.headBlockNum + 1
    headBlockTime := block.1
    maintenanceFlag := block.2
    currentAslot := (head.currentAslot + head.getSlotAtTime block.1) % 2 ^ 64 }

/-- The witness of an absolute slot after some blocks. -/
def scheduledAt (head : SlotHead) (schedule : List WitnessId) (blocks : List (Nat × Bool))
    (aslot : Nat) : Option WitnessId :=
  let current := (blocks.foldl pushBlock head).currentAslot
  WitnessSchedule.getScheduledWitness current (aslot - current) schedule

/-- The time that slots are counted from. -/
def slotStart (head : SlotHead) : Nat :=
  if head.headBlockNum = 0 then head.headBlockTime
  else (head.headBlockTime / head.blockInterval +
    if head.maintenanceFlag then head.maintenanceSkipSlots else 0) * head.blockInterval

/-- The time of the slot fits 32 bits. -/
def SlotFits (head : SlotHead) (slotNum : Nat) : Prop :=
  head.slotStart + slotNum * head.blockInterval < 2 ^ 32

variable {head : SlotHead}

theorem SlotFits.of_le (fits : head.SlotFits most) (less : slotNum ≤ most) :
    head.SlotFits slotNum :=
  Nat.lt_of_le_of_lt (Nat.add_le_add_left (Nat.mul_le_mul_right _ less) _) fits

theorem SlotFits.getSlotTime_eq (fits : head.SlotFits slotNum) (positive : 0 < slotNum) :
    head.getSlotTime slotNum = head.slotStart + slotNum * head.blockInterval := by
  rw [← Nat.mod_eq_of_lt fits, getSlotTime, slotStart, if_neg positive.ne']
  by_cases genesis : head.headBlockNum = 0
  · simp only [genesis, if_true, Nat.add_mod_mod]
  · simp only [genesis, if_false, Nat.add_mod_mod]
    split
    · rw [Nat.add_mod, Nat.mod_mul_mod, ← Nat.add_mod, Nat.add_mul, Nat.add_mul]
      congr 1
      omega
    · rfl

section

variable (interval : 0 < head.blockInterval)
include interval

theorem getSlotAtTime_eq (first : head.SlotFits 1) (inRange : time < 2 ^ 32) :
    head.getSlotAtTime time = if time < head.slotStart + head.blockInterval then 0
      else (time - head.slotStart) / head.blockInterval := by
  have counted := Nat.div_le_self (time - (head.slotStart + head.blockInterval)) head.blockInterval
  rw [getSlotAtTime, first.getSlotTime_eq (by decide), Nat.one_mul]
  split
  · rfl
  · rw [Nat.mod_eq_of_lt (by omega), ← Nat.add_div_right _ interval]
    congr 1
    omega

theorem getSlotAtTime_getSlotTime (positive : 0 < slotNum) (fits : head.SlotFits slotNum) :
    head.getSlotAtTime (head.getSlotTime slotNum) = slotNum := by
  have least := Nat.le_mul_of_pos_left head.blockInterval positive
  rw [fits.getSlotTime_eq positive, getSlotAtTime_eq interval (fits.of_le positive) fits,
    if_neg (by omega), Nat.add_sub_cancel_left, Nat.mul_div_cancel _ interval]

theorem getSlotTime_getSlotAtTime (inRange : time < 2 ^ 32)
    (positive : 0 < head.getSlotAtTime time) (fits : head.SlotFits (head.getSlotAtTime time + 1)) :
    head.getSlotTime (head.getSlotAtTime time) ≤ time ∧
      time < head.getSlotTime (head.getSlotAtTime time + 1) := by
  have counted := getSlotAtTime_eq interval (fits.of_le (Nat.le_add_left _ _)) inRange
  rw [fits.getSlotTime_eq (Nat.succ_pos _),
    (fits.of_le (Nat.le_succ _)).getSlotTime_eq positive]
  split at counted
  · omega
  · have rounded := Nat.div_add_mod (time - head.slotStart) head.blockInterval
    have below := Nat.mod_lt (time - head.slotStart) interval
    rw [Nat.add_mul, counted, Nat.mul_comm]
    omega

end

/-- Among consecutive absolute slots, as many as there are witnesses, each
remainder comes once. -/
theorem exists_slot (first : Nat) (inRange : index < count) :
    ∃ slot, first ≤ slot ∧ slot < first + count ∧ slot % count = index ∧
      ∀ other, first ≤ other → other < first + count → other % count = index → other = slot := by
  have rounded := Nat.div_add_mod (first + count - 1 - index) count
  have below := Nat.mod_lt (first + count - 1 - index) (Nat.zero_lt_of_lt inRange)
  have same : (index + count * ((first + count - 1 - index) / count)) % count = index := by
    rw [Nat.add_mul_mod_self_left, Nat.mod_eq_of_lt inRange]
  refine ⟨_, by omega, by omega, same, fun other above otherBelow equal => ?_⟩
  have up := Nat.sub_mod_eq_zero_of_mod_eq (equal.trans same.symm)
  have down := Nat.sub_mod_eq_zero_of_mod_eq (same.trans equal.symm)
  rw [Nat.mod_eq_of_lt (by omega)] at up down
  omega

theorem scheduledAt_eq (filled : schedule ≠ [])
    (ahead : (blocks.foldl pushBlock head).currentAslot ≤ aslot) (fits : aslot < 2 ^ 64) :
    head.scheduledAt schedule blocks aslot = schedule[aslot % schedule.length]? := by
  rw [scheduledAt, WitnessSchedule.getScheduledWitness,
    if_neg (mt List.length_eq_zero_iff.mp filled), Nat.add_sub_cancel' ahead,
    Nat.mod_eq_of_lt fits]

/-- Slots and their times determine each other, the schedule is a permutation of
the active witnesses, and while it stays each of them has one of as many
consecutive absolute slots as there are witnesses, whatever blocks there are. -/
theorem slots_and_schedule (head : SlotHead) (interval : 1 ≤ head.blockInterval) :
    (∀ slotNum, 1 ≤ slotNum → head.SlotFits slotNum →
      head.getSlotAtTime (head.getSlotTime slotNum) = slotNum) ∧
    (∀ time, time < 2 ^ 32 → 1 ≤ head.getSlotAtTime time →
      head.SlotFits (head.getSlotAtTime time + 1) →
      head.getSlotTime (head.getSlotAtTime time) ≤ time ∧
        time < head.getSlotTime (head.getSlotAtTime time + 1)) ∧
    (∀ time activeWitnesses, (WitnessSchedule.shuffle time activeWitnesses).Perm activeWitnesses) ∧
    ∀ schedule : List WitnessId, schedule.Nodup → ∀ first, first + schedule.length ≤ 2 ^ 64 →
      ∀ witness ∈ schedule, ∃ aslot, first ≤ aslot ∧ aslot < first + schedule.length ∧
        (∀ blocks, (blocks.foldl pushBlock head).currentAslot ≤ aslot →
          head.scheduledAt schedule blocks aslot = some witness) ∧
        ∀ other blocks, first ≤ other → other < first + schedule.length →
          (blocks.foldl pushBlock head).currentAslot ≤ other →
          head.scheduledAt schedule blocks other = some witness → other = aslot := by
  refine ⟨fun _ => getSlotAtTime_getSlotTime interval, fun _ => getSlotTime_getSlotAtTime interval,
    fun _ _ => WitnessSchedule.shuffle_perm, ?_⟩
  intro schedule distinct first fits witness member
  have filled := List.ne_nil_of_mem member
  obtain ⟨index, inRange, rfl⟩ := List.getElem_of_mem member
  obtain ⟨aslot, above, below, here, unique⟩ := exists_slot first inRange
  refine ⟨aslot, above, below, fun blocks ahead => ?_,
    fun other blocks above below ahead same => ?_⟩
  · rw [scheduledAt_eq filled ahead (by omega), here, List.getElem?_eq_getElem inRange]
  · rw [scheduledAt_eq filled ahead (by omega)] at same
    obtain ⟨_, same⟩ := List.getElem?_eq_some_iff.mp same
    exact unique other above below (distinct.getElem_inj_iff.mp same)

theorem slots_and_schedule_maintenance : ∃ head : SlotHead,
    head.getSlotAtTime (head.getSlotTime 2) = 2 ∧ ∃ aslot, 100 ≤ aslot ∧ aslot < 103 ∧
      head.scheduledAt [5, 7, 9] [(1014, false), (1019, false)] aslot = some 7 := by
  obtain ⟨inverse, -, -, each⟩ := slots_and_schedule ⟨7, 1001, 2, true, 6, 97⟩ (by decide)
  obtain ⟨aslot, above, below, assigned, -⟩ :=
    each [5, 7, 9] (by decide) 100 (by decide) 7 (by decide)
  exact ⟨_, inverse 2 (by decide) (by unfold SlotFits; decide), aslot, above, below,
    assigned _ above⟩

end SlotHead

end CocosChain.Chain

import Mathlib.Data.List.Range

/-!
# Account names

A name is scanned label by label.  Each label is measured first, and then its
first, its last and its other characters are looked at, by their positions in
the name.
-/

namespace CocosChain.Chain.AccountName

/-- `GRAPHENE_MIN_ACCOUNT_NAME_LENGTH` -/
def minLength : Nat := 5

/-- `GRAPHENE_MAX_ACCOUNT_NAME_LENGTH` -/
def maxLength : Nat := 63

def dot : UInt8 := 46

def isLetter (byte : UInt8) : Bool := 97 ≤ byte && byte ≤ 122

def isLetDig (byte : UInt8) : Bool := isLetter byte || 48 ≤ byte && byte ≤ 57

def isLetDigHyp (byte : UInt8) : Bool := isLetDig byte || byte == 45

/-- `find_first_of`, or the length of the name. -/
def findDot (name : List UInt8) (start : Nat) : Nat :=
  start + ((name.drop start).takeWhile (· != dot)).length

/-- The checks of the label between two positions.  A character outside of the
name is `none`. -/
def checkLabel (name : List UInt8) (start stop : Nat) : Option Bool :=
  if stop - start < minLength then some false
  else name[start]?.bind fun first =>
    if !isLetter first then some false
    else name[stop - 1]?.bind fun last =>
      if !isLetDig last then some false
      else (List.range' (start + 1) (stop - 1 - (start + 1))).allM fun i =>
        name[i]?.map isLetDigHyp

/-- The loop over the labels, for at most so many of them. -/
def scan (name : List UInt8) : Nat → Nat → Option Bool
  | 0, _ => none
  | labels + 1, start => do
    let stop := findDot name start
    if ← checkLabel name start stop then
      if stop = name.length then pure true else scan name labels (stop + 1)
    else pure false

def isValidName (name : List UInt8) : Option Bool :=
  if name.length < minLength then some false
  else if maxLength < name.length then some false
  else scan name (name.length + 1) 0

/-- A label of the grammar. -/
def IsLabel (label : List UInt8) : Prop :=
  minLength ≤ label.length ∧ ∃ first others last, label = first :: (others ++ [last]) ∧
    isLetter first = true ∧ isLetDig last = true ∧ ∀ byte ∈ others, isLetDigHyp byte = true

variable {name : List UInt8}

theorem IsLabel.dot_not_mem (isLabel : IsLabel label) : dot ∉ label := by
  obtain ⟨-, _, _, _, rfl, letter, letDig, all⟩ := isLabel
  simp only [List.mem_cons, List.mem_append, List.not_mem_nil, or_false]
  rintro (rfl | member | rfl)
  · exact absurd letter (by decide)
  · exact absurd (all dot member) (by decide)
  · exact absurd letDig (by decide)

theorem allM_range' (inside : start + count ≤ name.length) :
    (List.range' start count).allM (fun i => name[i]?.map p) =
      some (((name.drop start).take count).all p) := by
  induction count generalizing start with
  | zero => rfl
  | succ count induction =>
    have here : start < name.length := by omega
    rw [List.range'_succ, List.drop_eq_getElem_cons here, List.take_succ_cons, List.all_cons]
    simp only [List.allM, List.getElem?_eq_getElem here, Option.map_some, Option.bind_eq_bind,
      Option.bind_some]
    cases p name[start] with
    | false => rfl
    | true => exact induction (by omega)

theorem findDot_eq (done rest : List UInt8) (inside : dot ∉ label)
    (boundary : ∀ byte, rest.head? = some byte → byte = dot) :
    findDot (done ++ (label ++ rest)) done.length = done.length + label.length := by
  have undotted : ∀ byte ∈ label, (byte != dot) = true := by
    intro byte member
    simpa using ne_of_mem_of_not_mem member inside
  have stop : rest.takeWhile (· != dot) = [] := by
    cases rest with
    | nil => rfl
    | cons byte tail => simp [boundary byte rfl]
  rw [findDot, List.drop_left, List.takeWhile_append_of_pos undotted, stop, List.append_nil]

theorem checkLabel_eq (done label rest : List UInt8) : ∃ valid,
    checkLabel (done ++ (label ++ rest)) done.length (done.length + label.length) = some valid ∧
      (valid = true ↔ IsLabel label) := by
  unfold checkLabel IsLabel
  split
  · exact ⟨false, rfl, nofun, fun isLabel => by omega⟩
  · have long : minLength ≤ label.length := by omega
    obtain ⟨first, tail, rfl⟩ := List.exists_cons_of_length_pos
      (Nat.lt_of_lt_of_le (by decide) long)
    obtain ⟨others, last, rfl⟩ := (List.eq_nil_or_concat' tail).resolve_left
      (by rintro rfl; simp [minLength] at long)
    refine ⟨isLetter first && (isLetDig last && others.all isLetDigHyp), ?_, ?_⟩
    · have span : done.length + (first :: (others ++ [last])).length - 1 - (done.length + 1) =
          others.length := by simp; omega
      rw [span, allM_range' (by simp; omega)]
      cases letter : isLetter first <;> cases letDig : isLetDig last <;>
        simp [letter, letDig, List.drop_append, List.drop_eq_nil_of_le]
    · simp only [long, true_and, Bool.and_eq_true, List.all_eq_true]
      constructor
      · intro valid
        exact ⟨first, others, last, rfl, valid⟩
      · rintro ⟨_, _, _, same, valid⟩
        obtain ⟨rfl, tails⟩ := List.cons.inj same
        obtain ⟨rfl, lasts⟩ := List.append_inj' tails rfl
        cases lasts
        exact valid

theorem scan_eq (done rest : List UInt8) (enough : rest.length < labels) :
    ∃ valid, scan (done ++ rest) labels done.length = some valid ∧
      (valid = true ↔ ∀ label ∈ rest.splitOn dot, IsLabel label) := by
  induction labels generalizing done rest with
  | zero => omega
  | succ labels induction =>
    by_cases more : dot ∈ rest
    · obtain ⟨label, later, rfl, undotted⟩ := List.eq_append_cons_of_mem more
      obtain ⟨valid, checked, isLabel⟩ := checkLabel_eq done label (dot :: later)
      obtain ⟨others, scanned, areLabels⟩ := induction (done ++ label ++ [dot]) later
        (by simp at enough; omega)
      refine ⟨valid && others, ?_, ?_⟩
      · rw [scan, findDot_eq done _ undotted (by simp), checked]
        cases valid with
        | false => rfl
        | true => simpa [Nat.add_assoc] using scanned
      · rw [List.splitOn_append_cons_self, List.splitOn_eq_singleton undotted]
        simp [isLabel, areLabels]
    · obtain ⟨valid, checked, isLabel⟩ := checkLabel_eq done rest []
      refine ⟨valid, ?_, ?_⟩
      · have stops := findDot_eq done [] more nofun
        rw [List.append_nil] at checked stops
        rw [scan, stops, checked]
        cases valid <;> simp
      · simp [isLabel, List.splitOn_eq_singleton more]

/-- Names are scanned within their bounds, and those are valid that have the
right length and consist of labels. -/
theorem isValidName_iff (name : List UInt8) : ∃ valid, isValidName name = some valid ∧
    (valid = true ↔ minLength ≤ name.length ∧ name.length ≤ maxLength ∧
      ∃ labels, labels ≠ [] ∧ (∀ label ∈ labels, IsLabel label) ∧
        name = [dot].intercalate labels) := by
  have grammar : (∃ labels, labels ≠ [] ∧ (∀ label ∈ labels, IsLabel label) ∧
      name = [dot].intercalate labels) ↔ ∀ label ∈ name.splitOn dot, IsLabel label := by
    constructor
    · rintro ⟨_, nonempty, valid, rfl⟩
      rwa [List.splitOn_intercalate dot (fun label member => (valid label member).dot_not_mem)
        nonempty]
    · intro valid
      exact ⟨_, List.splitOn_ne_nil dot name, valid, (List.intercalate_splitOn dot).symm⟩
  obtain ⟨valid, scanned, isName⟩ := scan_eq [] name (Nat.lt_succ_self _)
  rw [grammar, ← isName, isValidName]
  split
  · exact ⟨false, rfl, nofun, fun bounds => by omega⟩
  · split
    · exact ⟨false, rfl, nofun, fun bounds => by omega⟩
    · exact ⟨valid, scanned, fun isValid => ⟨by omega, by omega, isValid⟩, fun name => name.2.2⟩

end CocosChain.Chain.AccountName

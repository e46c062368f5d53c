import CocosChain.Chain.WellFormedMarket
import CocosChain.Library.Sorting
import Mathlib.Algebra.Order.Field.Basic
import Mathlib.Algebra.Order.Field.Rat
import Mathlib.Data.Prod.Lex

/-!
# The order book

Positive prices are ordered by their assets first, and within one market like
the numbers they stand for.  So the indexes by price are sorted: limit orders
with the highest price first, call orders with the lowest call price first,
and older orders first among equals.
-/

namespace CocosChain.Chain

namespace Price

/-- The number that the price stands for. -/
def value (price : Price) : ℚ := price.base.amount / price.quote.amount

/-- What prices are compared by. -/
def key (price : Price) : ℕ ×ₗ ℕ ×ₗ ℚ :=
  toLex (price.base.assetId, toLex (price.quote.assetId, price.value))

variable {left right price : Price}

theorem lt_iff_value (same : SameMarket left right) (leftPositive : left.Positive)
    (rightPositive : right.Positive) : left.lt right = true ↔ left.value < right.value := by
  have leftQuote : (0 : ℚ) < left.quote.amount := by
    exact_mod_cast leftPositive.quote
  have rightQuote : (0 : ℚ) < right.quote.amount := by
    exact_mod_cast rightPositive.quote
  rw [lt_iff same, value, value, div_lt_div_iff₀ leftQuote rightQuote]
  rw [mul_comm (left.base.amount : ℚ), mul_comm (right.base.amount : ℚ)]
  exact_mod_cast Iff.rfl

section

variable (leftPositive : left.Positive)
include leftPositive

variable (rightPositive : right.Positive)
include rightPositive

theorem lt_iff_key : left.lt right = true ↔ left.key < right.key := by
  rw [key, key, Prod.Lex.toLex_lt_toLex, Prod.Lex.toLex_lt_toLex]
  rcases lt_trichotomy left.base.assetId right.base.assetId with
    less | same | greater
  · simp [lt, less]
  · rcases lt_trichotomy left.quote.assetId right.quote.assetId with
      less | sameQuote | greater
    · simp [lt, same, less]
    · rw [lt_iff_value ⟨same, sameQuote⟩ leftPositive rightPositive]
      simp [same, sameQuote]
    · simp [lt, same, greater, greater.not_gt, greater.ne']
  · simp [lt, greater, greater.not_gt, greater.ne']

theorem ge_iff_key : left.ge right = true ↔ right.key ≤ left.key := by
  rw [ge, Bool.not_eq_true', ← Bool.not_eq_true, lt_iff_key leftPositive rightPositive, not_lt]

theorem gt_iff_key : left.gt right = true ↔ right.key < left.key := by
  rw [gt_eq_lt, lt_iff_key rightPositive leftPositive]

theorem before_iff_key {second : Nat} :
    (left.lt right || !left.gt right && decide (first ≤ second)) = true ↔
      toLex (left.key, first) ≤ toLex (right.key, second) := by
  have notGreater : (!left.gt right) = true ↔ left.key ≤ right.key := by
    rw [Bool.not_eq_true', ← Bool.not_eq_true, gt_iff_key leftPositive rightPositive, not_lt]
  rw [Prod.Lex.toLex_le_toLex]
  simp only [Bool.or_eq_true, Bool.and_eq_true, decide_eq_true_eq,
    lt_iff_key leftPositive rightPositive, notGreater]
  constructor
  · rintro (less | ⟨most, older⟩)
    · exact .inl less
    · rcases lt_or_eq_of_le most with less | equal
      · exact .inl less
      · exact .inr ⟨equal, older⟩
  · rintro (less | ⟨equal, older⟩)
    · exact .inl less
    · exact .inr ⟨equal.le, older⟩

end

theorem key_le_iff (same : SameMarket left right) :
    left.key ≤ right.key ↔ left.value ≤ right.value := by
  rw [key, key, Prod.Lex.toLex_le_toLex, Prod.Lex.toLex_le_toLex]
  simp [same.1, same.2]

theorem value_invert : price.invert.value = price.value⁻¹ := by
  rw [value, value, inv_div]
  rfl

theorem Positive.value_pos (positive : price.Positive) : 0 < price.value := by
  have base : (0 : ℚ) < price.base.amount := by
    exact_mod_cast positive.base
  have quote : (0 : ℚ) < price.quote.amount := by
    exact_mod_cast positive.quote
  exact div_pos base quote

theorem invert_key_le (same : SameMarket left right) (leftPositive : left.Positive)
    (order : left.key ≤ right.key) : right.invert.key ≤ left.invert.key := by
  have inverted : SameMarket right.invert left.invert := ⟨same.2.symm, same.1.symm⟩
  rw [key_le_iff inverted, value_invert, value_invert]
  rw [key_le_iff same] at order
  exact inv_anti₀ leftPositive.value_pos order

theorem sameMarket_max_min {base quote : Nat} :
    SameMarket (Price.min base quote) (Price.max base quote) :=
  ⟨rfl, rfl⟩

theorem InRange.bounds (range : price.InRange) {base quote : Nat}
    (same : SameMarket price (Price.min base quote)) :
    price.lt (Price.min base quote) = false ∧ price.gt (Price.max base quote) = false := by
  have base_pos := range.positive.base
  have quote_pos := range.positive.quote
  have base_le := range.base_le
  have quote_le := range.quote_le
  have bound : (0 : Int) ≤ maxShareSupply := by decide
  constructor
  · rw [← Bool.not_eq_true, lt_iff same, not_lt]
    show price.quote.amount * 1 ≤ maxShareSupply * price.base.amount
    rw [mul_one]
    exact quote_le.trans (le_mul_of_one_le_right bound base_pos)
  · have same' : SameMarket (Price.max base quote) price :=
      ⟨same.1.symm, same.2.symm⟩
    rw [gt_eq_lt, ← Bool.not_eq_true, lt_iff same', not_lt]
    show 1 * price.base.amount ≤ price.quote.amount * maxShareSupply
    rw [one_mul]
    exact base_le.trans (le_mul_of_one_le_left bound quote_pos)

theorem le_eq : left.le right = !right.lt left := by
  rw [← gt_eq_lt, gt, Bool.not_not]

theorem eq_iff_not_lt : left.eq right = true ↔ left.lt right = false ∧ right.lt left = false := by
  have either : (left.eq right || left.lt right) = !right.lt left := le_eq
  constructor
  · intro equal
    refine ⟨?_, by simpa [equal] using either⟩
    simp only [eq, Bool.and_eq_true, beq_iff_eq] at equal
    simp [lt, equal]
  · rintro ⟨notLess, notGreater⟩
    simpa [notLess, notGreater] using either

theorem strictWeakOrder_lt : IsStrictWeakOrder { price : Price // price.InRange }
    fun left right => left.1.lt right.1 = true := by
  have order : (fun left right : { price : Price // price.InRange } => left.1.lt right.1 = true) =
      Function.onFun (· < ·) fun price => price.1.key := by
    funext left right
    exact propext (lt_iff_key left.2.positive right.2.positive)
  rw [order]
  have := isStrictWeakOrder_of_isOrderConnected (r := fun left right : ℕ ×ₗ ℕ ×ₗ ℚ => left < right)
  infer_instance

theorem invert_lt_invert (same : SameMarket left right) :
    left.invert.lt right.invert = right.lt left := by
  rw [Bool.eq_iff_iff, lt_iff ⟨same.2, same.1⟩, lt_iff ⟨same.1.symm, same.2.symm⟩]
  simp [invert, mul_comm]

end Price

theorem scale_le
    (first : scale amount part source = some result)
    (second : scale other target total = some greater)
    (cross : amount * part.amount * total.amount ≤ other * target.amount * source.amount) :
    result.amount ≤ greater.amount := by
  obtain ⟨positive, -, -, rfl⟩ := scale_eq_some.mp first
  obtain ⟨totalPositive, -, -, rfl⟩ := scale_eq_some.mp second
  apply Int.le_ediv_of_mul_le totalPositive
  apply le_of_mul_le_mul_right _ positive
  rw [mul_right_comm]
  apply le_trans _ cross
  exact mul_le_mul_of_nonneg_right (Int.ediv_mul_le _ positive.ne') totalPositive.le

namespace Asset

variable {price : Price} {asset : Asset}

theorem times_invert (distinct : price.base.assetId ≠ price.quote.assetId) :
    asset.times price.invert = asset.times price := by
  by_cases base : asset.assetId = price.base.assetId
  · simp [times, Price.invert, base, distinct]
  · simp [times, Price.invert, base]

theorem times_mono {more : Asset} (positive : price.Positive) (kind : asset.assetId = more.assetId)
    (fewer : asset.amount ≤ more.amount) (first : asset.times price = some result)
    (second : more.times price = some greater) : result.amount ≤ greater.amount := by
  simp only [times, ← kind] at first second
  split_ifs at first second
  · exact scale_le first second (mul_le_mul_of_nonneg_right
      (mul_le_mul_of_nonneg_right fewer positive.quote.le) positive.base.le)
  · exact scale_le first second (mul_le_mul_of_nonneg_right
      (mul_le_mul_of_nonneg_right fewer positive.base.le) positive.quote.le)

section

variable (kind : asset.assetId = price.base.assetId)
include kind

theorem times_anti (nonneg : 0 ≤ asset.amount) (same : Price.SameMarket price other)
    (least : price.le other = true) (first : asset.times price = some result)
    (second : asset.times other = some less) : less.amount ≤ result.amount := by
  rw [times, if_pos kind] at first
  rw [times, if_pos (kind.trans same.1)] at second
  rw [Price.le_eq, Bool.not_eq_true', ← Bool.not_eq_true, Price.lt_iff ⟨same.1.symm, same.2.symm⟩,
    not_lt] at least
  apply scale_le second first
  rw [mul_assoc, mul_assoc]
  exact mul_le_mul_of_nonneg_left least nonneg

theorem times_back (positive : price.Positive) (distinct : price.base.assetId ≠ price.quote.assetId)
    (first : asset.times price = some result) :
    (asset.amount ≤ maxShareSupply → ∃ back, result.times price = some back) ∧
      ∀ back, result.times price = some back → back.amount ≤ asset.amount ∧
        (asset.amount - back.amount : ℚ) < price.value + 1 := by
  rw [times, if_pos kind] at first
  obtain ⟨-, worth, -, rfl⟩ := scale_eq_some.mp first
  rw [← times_invert distinct, times, if_pos (by rfl)]
  have most := Market.ediv_mul_le positive.quote positive.base
    (le_refl (asset.amount * price.quote.amount / price.base.amount))
  constructor
  · intro bounded
    have nonneg := Int.ediv_nonneg worth positive.base.le
    exact ⟨_, scale_eq_some.mpr ⟨positive.quote, mul_nonneg nonneg positive.base.le,
      most.trans bounded, rfl⟩⟩
  · intro back converted
    obtain ⟨-, -, -, rfl⟩ := scale_eq_some.mp converted
    refine ⟨most, ?_⟩
    simp only [Price.invert]
    have there := Int.lt_ediv_add_one_mul_self (asset.amount * price.quote.amount) positive.base
    have here := Int.lt_ediv_add_one_mul_self
      (asset.amount * price.quote.amount / price.base.amount * price.base.amount) positive.quote
    have quote : (0 : ℚ) < price.quote.amount := by exact_mod_cast positive.quote
    rw [← sub_lt_iff_lt_add, sub_sub, Price.value, lt_div_iff₀ quote, sub_mul]
    rw [add_mul, one_mul] at there
    exact_mod_cast (by omega)

end

end Asset

namespace Price

/-- The assets of a market are different ones. -/
theorem order_and_conversion :
    IsStrictWeakOrder { price : Price // price.InRange }
      (fun left right => left.1.lt right.1 = true) ∧
    ∀ price other : Price, price.InRange → other.InRange →
      (∀ amount : Int, 0 ≤ amount → amount < 2 ^ 63 →
        amount * price.base.amount < 2 ^ 128 ∧ amount * price.quote.amount < 2 ^ 128) ∧
      (price.eq other = true ↔ price.lt other = false ∧ other.lt price = false) ∧
      price.le other = (!other.lt price) ∧ price.gt other = other.lt price ∧
      price.ge other = (!price.lt other) ∧
      (SameMarket price other → price.invert.lt other.invert = other.lt price) ∧
      (∀ asset more result greater : Asset, asset.assetId = more.assetId → 0 ≤ asset.amount →
        asset.amount ≤ more.amount → asset.times price = some result →
        more.times price = some greater → result.amount ≤ greater.amount) ∧
      (price.base.assetId ≠ price.quote.assetId → ∀ asset result : Asset, 0 ≤ asset.amount →
        asset.times price = some result →
        (SameMarket price other → price.le other = true → ∀ second,
          asset.times other = some second →
          (asset.assetId = price.quote.assetId → result.amount ≤ second.amount) ∧
          (asset.assetId = price.base.assetId → second.amount ≤ result.amount)) ∧
        (asset.amount ≤ maxShareSupply → ∃ back, result.times price = some back) ∧
        ∀ back, result.times price = some back → back.amount ≤ asset.amount ∧
          (asset.amount - back.amount : ℚ) <
            (if asset.assetId = price.base.assetId then price.value else price.invert.value) +
              1) := by
  refine ⟨strictWeakOrder_lt, fun price other range otherRange => ?_⟩
  have positive := range.positive
  refine ⟨?_, eq_iff_not_lt, le_eq, gt_eq_lt, rfl, invert_lt_invert, ?_, ?_⟩
  · intro amount nonneg small
    have fits : ∀ part : Int, 0 < part → part ≤ maxShareSupply → amount * part < 2 ^ 128 :=
      fun part positive bounded =>
        (mul_le_mul small.le bounded positive.le (by decide)).trans_lt (by decide)
    exact ⟨fits _ positive.base range.base_le, fits _ positive.quote range.quote_le⟩
  · intro asset more result greater kind _ fewer first second
    exact Asset.times_mono positive kind fewer first second
  · intro distinct asset result nonneg first
    by_cases kind : asset.assetId = price.base.assetId
    · rw [if_pos kind]
      refine ⟨fun same least second converted => ⟨fun quote => ?_, fun _ => ?_⟩,
        Asset.times_back kind positive distinct first⟩
      · exact absurd (kind.symm.trans quote) distinct
      · exact Asset.times_anti kind nonneg same least first converted
    · have quote : asset.assetId = price.quote.assetId := by
        by_contra neither
        simp [Asset.times, kind, neither] at first
      rw [← Asset.times_invert distinct] at first
      have back := Asset.times_back (by exact quote) positive.invert distinct.symm first
      rw [Asset.times_invert distinct] at back
      rw [if_neg kind]
      refine ⟨fun same least second converted => ⟨fun _ => ?_, fun base => absurd base kind⟩, back⟩
      rw [← Asset.times_invert (same.1 ▸ same.2 ▸ distinct)] at converted
      rw [le_eq, ← invert_lt_invert same, ← le_eq] at least
      exact Asset.times_anti (quote.trans same.2) nonneg ⟨same.2.symm, same.1.symm⟩ least
        converted first

theorem order_and_conversion_third : ∃ back,
    Asset.times ⟨3, 2⟩ ⟨⟨3, assetCore⟩, ⟨1, 2⟩⟩ = some back ∧ back.amount ≤ 10 := by
  have range : InRange ⟨⟨3, assetCore⟩, ⟨1, 2⟩⟩ := ⟨⟨by decide, by decide⟩, by decide, by decide⟩
  obtain ⟨-, -, -, -, -, -, -, conversion⟩ := order_and_conversion.2 _ _ range range
  obtain ⟨-, converts, bounds⟩ := conversion (by decide) ⟨10, assetCore⟩ ⟨3, 2⟩ (by decide)
    (by decide)
  obtain ⟨back, converted⟩ := converts (by decide)
  exact ⟨back, converted, (bounds back converted).1⟩

end Price

namespace Market

variable {market : Market}

/-- Limit orders are ordered by the price downwards, then by the number. -/
def limitKey (row : Nat × LimitOrder) : (ℕ ×ₗ ℕ ×ₗ ℚ)ᵒᵈ ×ₗ ℕ :=
  toLex (OrderDual.toDual row.2.sellPrice.key, row.1)

theorem limitBefore_iff (leftPositive : left.2.sellPrice.Positive)
    (rightPositive : right.2.sellPrice.Positive) :
    limitBefore left right = true ↔ limitKey left ≤ limitKey right := by
  rw [limitKey, limitKey, Prod.Lex.toLex_le_toLex]
  simp only [limitBefore, Bool.or_eq_true, Bool.and_eq_true,
    decide_eq_true_eq, Price.gt_iff_key leftPositive rightPositive,
    Price.ge_iff_key leftPositive rightPositive, OrderDual.toDual_lt_toDual, OrderDual.toDual_inj]
  constructor
  · rintro (greater | ⟨most, older⟩)
    · exact .inl greater
    · rcases lt_or_eq_of_le most with less | equal
      · exact .inl less
      · exact .inr ⟨equal.symm, older⟩
  · rintro (greater | ⟨equal, older⟩)
    · exact .inl greater
    · exact .inr ⟨equal.ge, older⟩

theorem limitBefore_orders (positive : ∀ row ∈ rows, row.2.sellPrice.Positive) :
    Sorting.Orders (fun left right => limitBefore left right = true) rows :=
  Sorting.orders_of_key limitKey fun left here right there =>
    limitBefore_iff (positive left here) (positive right there)

theorem mem_limitRange {row : Nat × LimitOrder} : row ∈ market.limitRange upper lower ↔
      market.limitOrders.get row.1 = some row.2 ∧ row.2.sellPrice.gt upper = false ∧
        row.2.sellPrice.lt lower = false := by
  obtain ⟨_, _⟩ := row
  simp [limitRange, List.mem_insertionSort, List.mem_filter, Table.mem_rows]

section

variable (orders : market.limitOrders.Forall fun _ order => order.WellFormed)
include orders

theorem limitRange_positive (row : Nat × LimitOrder)
    (member : row ∈ market.limitRange upper lower) : row.2.sellPrice.Positive :=
  (orders row.1 row.2 (mem_limitRange.mp member).1).positive

theorem sellPrice_le_first {first row : Nat × LimitOrder}
    (head : (market.limitRange upper lower).head? = some first)
    (member : row ∈ market.limitRange upper lower) :
    row.2.sellPrice.key ≤ first.2.sellPrice.key := by
  have positive := limitRange_positive orders row member
  have firstPositive := limitRange_positive orders first (List.mem_of_mem_head? head)
  have earlier : limitBefore first row = true := by
    apply Sorting.head_insertionSort _ head ((List.mem_insertionSort _).mp member)
    apply (limitBefore_orders (limitRange_positive orders)).mono
    intro row among
    exact (List.mem_insertionSort _).mpr among
  rw [limitBefore_iff firstPositive positive] at earlier
  exact OrderDual.toDual_le_toDual.mp (Prod.Lex.monotone_fst _ _ earlier)

end

theorem mem_callRange (sound : WellFormed market) (backed : market.backingOf mia = some backing) :
    row ∈ market.callRange backing mia ↔
      market.callOrders.get row.1 = some row.2 ∧ row.2.debtType = mia := by
  obtain ⟨id, call⟩ := row
  simp only [callRange, List.mem_insertionSort, List.mem_filter,
    Table.mem_rows, Bool.and_eq_true, Bool.not_eq_true']
  constructor
  · rintro ⟨listed, above, below⟩
    rw [Price.gt_eq_lt] at below
    exact ⟨listed, (Price.sameMarket_of_between Price.sameMarket_max_min above below).2⟩
  · rintro ⟨listed, kind⟩
    obtain ⟨secured, range⟩ := sound.calls id call listed
    refine ⟨listed, range.bounds ?_⟩
    rw [kind, backed] at secured
    exact ⟨(Option.some.inj secured).symm, kind⟩

theorem callRange_nodup : ((market.callRange backing mia).map Prod.fst).Nodup :=
  Table.nodup_sorted_rows

theorem callRange_kinds (sound : WellFormed market) (backed : market.backingOf mia = some backing) :
    ∀ id ∈ (market.callRange backing mia).map Prod.fst,
      ∀ call, market.callOrders.get id = some call → call.debtType = mia := by
  intro id member call listed
  obtain ⟨_, there, rfl⟩ := List.mem_map.mp member
  obtain ⟨rowListed, kind⟩ := (mem_callRange sound backed).mp there
  rw [listed] at rowListed
  cases rowListed
  exact kind

theorem callRange_positive (sound : WellFormed market) (row : Nat × CallOrder)
    (member : row ∈ market.callRange backing mia) : row.2.callPrice.Positive := by
  simp only [callRange, List.mem_insertionSort, List.mem_filter] at member
  exact (sound.calls row.1 row.2 (Table.mem_rows.mp member.1)).2.positive

/-- Call orders are ordered by the call price upwards, then by the number. -/
def callKey (row : Nat × CallOrder) : (ℕ ×ₗ ℕ ×ₗ ℚ) ×ₗ ℕ := toLex (row.2.callPrice.key, row.1)

theorem callBefore_iff (leftPositive : left.2.callPrice.Positive)
    (rightPositive : right.2.callPrice.Positive) :
    callBefore left right = true ↔ callKey left ≤ callKey right :=
  Price.before_iff_key leftPositive rightPositive

theorem callBefore_orders (positive : ∀ row ∈ rows, row.2.callPrice.Positive) :
    Sorting.Orders (fun left right => callBefore left right = true) rows :=
  Sorting.orders_of_key callKey fun left here right there =>
    callBefore_iff (positive left here) (positive right there)

theorem callKey_first_le (sound : WellFormed market)
    (head : (market.callRange backing mia).head? = some first)
    (member : row ∈ market.callRange backing mia) : callKey first ≤ callKey row := by
  have positive := callRange_positive sound row member
  have firstPositive := callRange_positive sound first (List.mem_of_mem_head? head)
  rw [← callBefore_iff firstPositive positive]
  apply Sorting.head_insertionSort _ head ((List.mem_insertionSort _).mp member)
  apply (callBefore_orders (callRange_positive sound)).mono
  intro row among
  exact (List.mem_insertionSort _).mpr among

end Market

end CocosChain.Chain

import CocosChain.Chain.Price

/-!
# Fees in other assets

The fee of an operation is scaled in the core asset.  In another asset it is
rounded down first, and then raised until it is worth the fee.
-/

namespace CocosChain.Chain.FeeSchedule

/-- The loop that raises the result, with so many tests at most. -/
def raise (coreExchangeRate : Price) (scaled : Int) : Nat → Asset → Option Asset
  | 0, _ => none
  | tests + 1, result => do
    let worth ← result.times coreExchangeRate
    if worth.assetId ≠ assetCore then none
    else if worth.amount < scaled then
      raise coreExchangeRate scaled tests ⟨result.amount + 1, result.assetId⟩
    else pure result

/-- `calculate_fee`, where `baseValue` is what the visitor computes. -/
def calculateFee (tests baseValue scale : Nat) (coreExchangeRate : Price) : Option Asset :=
  let scaled := baseValue * scale / hundredPercent
  if maxShareSupply < scaled then none
  else do
    let start ← Asset.times ⟨scaled, assetCore⟩ coreExchangeRate
    let result ← raise coreExchangeRate scaled tests start
    if maxShareSupply < result.amount then none else pure result

/-- The amount is worth the fee. -/
def Covers (coreExchangeRate : Price) (assetId : Nat) (scaled amount : Int) : Prop :=
  ∃ worth, Asset.times ⟨amount, assetId⟩ coreExchangeRate = some worth ∧ scaled ≤ worth.amount

/-- The rate converts between the core asset and another one, either way round. -/
structure Between (coreExchangeRate : Price) (assetId : Nat) : Prop where
  positive : coreExchangeRate.Positive
  other : assetId ≠ assetCore
  pair : coreExchangeRate.base.assetId = assetCore ∧ coreExchangeRate.quote.assetId = assetId ∨
    coreExchangeRate.base.assetId = assetId ∧ coreExchangeRate.quote.assetId = assetCore

theorem Between.parts (between : Between rate assetId) : ∃ core quote : Asset,
    0 < core.amount ∧ 0 < quote.amount ∧ core.assetId = assetCore ∧ quote.assetId = assetId ∧
      (∀ amount, Asset.times ⟨amount, assetCore⟩ rate = scale amount quote core) ∧
      ∀ amount, Asset.times ⟨amount, assetId⟩ rate = scale amount core quote := by
  obtain ⟨positive, other, ⟨base, quote⟩ | ⟨base, quote⟩⟩ := between
  · refine ⟨rate.base, rate.quote, positive.base, positive.quote, base, quote, ?_, ?_⟩
    · simp [Asset.times, base]
    · simp [Asset.times, base, quote, other]
  · refine ⟨rate.quote, rate.base, positive.quote, positive.base, quote, base, ?_, ?_⟩
    · simp [Asset.times, base, quote, other.symm]
    · simp [Asset.times, base]

/-- Rounding down and back falls short of the fee by less than one unit. -/
theorem rounded_back (scaled : Int) (corePositive : 0 < core)
    (quotePositive : 0 < quote) : scaled * quote / core * core / quote ≤ scaled ∧
      scaled ≤ (scaled * quote / core + 1) * core / quote ∧
      ∀ amount, scaled ≤ amount * core / quote → scaled * quote / core ≤ amount := by
  have rounded := Int.ediv_mul_le (scaled * quote) corePositive.ne'
  refine ⟨Int.ediv_le_of_le_mul quotePositive rounded, ?_, fun amount enough => ?_⟩
  · rw [Int.le_ediv_iff_mul_le quotePositive]
    exact (Int.lt_ediv_add_one_mul_self _ corePositive).le
  · rw [Int.le_ediv_iff_mul_le quotePositive] at enough
    exact le_of_mul_le_mul_right (rounded.trans enough) corePositive

/-- If an amount in range is worth the fee, the least one is charged, and it is
found with two tests: the loop runs once at most. -/
theorem calculateFee_least (baseValue scale : Nat) (between : Between rate assetId)
    (inRange : ∃ amount, amount ≤ maxShareSupply ∧
      Covers rate assetId (baseValue * scale / hundredPercent) amount) :
    ∃ result, IsLeast { amount | Covers rate assetId (baseValue * scale / hundredPercent) amount }
        result ∧
      ∀ tests, calculateFee (tests + 2) baseValue scale rate = some ⟨result, assetId⟩ := by
  have fee : 0 ≤ baseValue * scale / hundredPercent := Int.ediv_nonneg (by positivity) (by decide)
  unfold calculateFee
  generalize baseValue * scale / hundredPercent = scaled at inRange fee ⊢
  obtain ⟨core, quote, corePositive, quotePositive, coreId, rfl, up, down⟩ := between.parts
  have product : ∀ amount, 0 ≤ amount → amount * core.amount / quote.amount ≤ maxShareSupply →
      Asset.times ⟨amount, quote.assetId⟩ rate =
        some ⟨amount * core.amount / quote.amount, assetCore⟩ := by
    intro amount nonneg bounded
    rw [down, ← coreId]
    exact scale_eq_some.mpr ⟨quotePositive, mul_nonneg nonneg corePositive.le, bounded, rfl⟩
  have worth : ∀ amount, Covers rate quote.assetId scaled amount →
      amount * core.amount / quote.amount ≤ maxShareSupply ∧
        scaled ≤ amount * core.amount / quote.amount := by
    rintro amount ⟨worth, converted, enough⟩
    rw [down] at converted
    obtain ⟨-, -, bounded, rfl⟩ := scale_eq_some.mp converted
    exact ⟨bounded, enough⟩
  obtain ⟨most, most_le, covered⟩ := inRange
  obtain ⟨bounded, enough⟩ := worth most covered
  obtain ⟨less, raised, least⟩ := rounded_back scaled corePositive quotePositive
  have nonneg := Int.ediv_nonneg (mul_nonneg fee quotePositive.le) corePositive.le
  have first : Asset.times ⟨scaled, assetCore⟩ rate =
      some ⟨scaled * quote.amount / core.amount, quote.assetId⟩ := by
    rw [up]
    exact scale_eq_some.mpr ⟨corePositive, mul_nonneg fee quotePositive.le,
      (least most enough).trans most_le, rfl⟩
  generalize scaled * quote.amount / core.amount = start at less raised least nonneg first
  have tested := product start nonneg (less.trans (enough.trans bounded))
  have fits := (enough.trans bounded).not_gt
  by_cases stops : scaled ≤ start * core.amount / quote.amount
  · refine ⟨start, ⟨⟨_, tested, stops⟩, fun _ covered => least _ (worth _ covered).2⟩, ?_⟩
    intro tests
    have range := ((least most enough).trans most_le).not_gt
    simp [fits, first, raise, tested, stops.not_gt, range]
  · have above : ∀ amount, Covers rate quote.assetId scaled amount → start + 1 ≤ amount := by
      intro amount covered
      apply lt_of_le_of_ne (least amount (worth amount covered).2)
      rintro rfl
      exact stops (worth start covered).2
    have grows := Int.ediv_le_ediv quotePositive
      (mul_le_mul_of_nonneg_right (above most covered) corePositive.le)
    have testedAgain := product (start + 1) (by omega) (grows.trans bounded)
    refine ⟨start + 1, ⟨⟨_, testedAgain, raised⟩, above⟩, fun tests => ?_⟩
    have range := ((above most covered).trans most_le).not_gt
    simp [fits, first, raise, tested, not_le.mp stops, testedAgain, raised.not_gt, range]

theorem calculateFee_least_third : ∃ result, IsLeast { amount | Covers ⟨⟨3, assetCore⟩, ⟨1, 2⟩⟩ 2
      ((10 : Nat) * (10000 : Nat) / hundredPercent) amount } result ∧
    calculateFee 2 10 10000 ⟨⟨3, assetCore⟩, ⟨1, 2⟩⟩ = some ⟨result, 2⟩ := by
  obtain ⟨result, least, charged⟩ := calculateFee_least 10 10000
    (⟨⟨by decide, by decide⟩, by decide, .inl ⟨rfl, rfl⟩⟩ : Between ⟨⟨3, assetCore⟩, ⟨1, 2⟩⟩ 2)
    ⟨4, by decide, _, rfl, by decide⟩
  exact ⟨result, least, charged 0⟩

end CocosChain.Chain.FeeSchedule

import CocosChain.Chain.Transaction
import CocosChain.Library.Checked
import Mathlib.Algebra.Order.Ring.Int
import Mathlib.Data.Int.GCD
import Mathlib.Tactic.Positivity
import Mathlib.Tactic.Ring

/-!
# Prices

A price is a ratio of two amounts.  Prices are compared by their asset ids
first, and within one market by cross multiplication.  An amount is converted
at a price with rounding down.  Amounts are unbounded integers here; the
source refuses the operation where its machine integers would not do.
-/

namespace CocosChain.Chain

/-- `GRAPHENE_MAX_SHARE_SUPPLY` -/
def maxShareSupply : Int := 1000000000000000000

/-- `GRAPHENE_100_PERCENT` -/
def hundredPercent : Int := 10000

/-- `GRAPHENE_COLLATERAL_RATIO_DENOM` -/
def collateralRatioDenom : Int := 1000

/-- The core asset is asset `0`. -/
def assetCore : Nat := 0

structure Price where
  base : Asset
  quote : Asset
  deriving DecidableEq, Repr

namespace Price

/-- The operator `/` -/
def ofAssets (base quote : Asset) : Option Price :=
  if base.assetId = quote.assetId then none else some ⟨base, quote⟩

def max (base quote : Nat) : Price := ⟨⟨maxShareSupply, base⟩, ⟨1, quote⟩⟩

def min (base quote : Nat) : Price := ⟨⟨1, base⟩, ⟨maxShareSupply, quote⟩⟩

/-- The operator `~` -/
def invert (price : Price) : Price := ⟨price.quote, price.base⟩

/-- Only a price of the core asset in itself equals the default price. -/
def isNull (price : Price) : Bool := price.base.assetId == 0 && price.quote.assetId == 0

def eq (left right : Price) : Bool :=
  left.base.assetId == right.base.assetId && left.quote.assetId == right.quote.assetId &&
    right.quote.amount * left.base.amount == left.quote.amount * right.base.amount

def lt (left right : Price) : Bool :=
  if left.base.assetId < right.base.assetId then true
  else if right.base.assetId < left.base.assetId then false
  else if left.quote.assetId < right.quote.assetId then true
  else if right.quote.assetId < left.quote.assetId then false
  else decide (right.quote.amount * left.base.amount < left.quote.amount * right.base.amount)

def le (left right : Price) : Bool := left.eq right || left.lt right

def gt (left right : Price) : Bool := !left.le right

def ge (left right : Price) : Bool := !left.lt right

def validate (price : Price) : Bool :=
  decide (0 < price.base.amount) && decide (0 < price.quote.amount) &&
    price.base.assetId != price.quote.assetId

/-- The default price. -/
def null : Price := ⟨⟨0, 0⟩, ⟨0, 0⟩⟩

end Price

/-- An amount turned into another asset, rounded down. -/
def scale (amount : Int) (target source : Asset) : Option Asset :=
  if 0 < source.amount ∧ 0 ≤ amount * target.amount ∧
      amount * target.amount / source.amount ≤ maxShareSupply then
    some ⟨amount * target.amount / source.amount, target.assetId⟩
  else none

/-- The operator `*` -/
def Asset.times (asset : Asset) (price : Price) : Option Asset :=
  if asset.assetId = price.base.assetId then
    scale asset.amount price.quote price.base
  else if asset.assetId = price.quote.assetId then
    scale asset.amount price.base price.quote
  else none

namespace Price

/-- Halves both parts of a reduced fraction, in the given way, until they
fit. -/
def shrink (halve : Int → Int) : Nat → Int → Int → Option (Int × Int)
  | 0, _, _ => none
  | fuel + 1, numerator, denominator =>
      let divisor : Int := Int.gcd numerator denominator
      let top := numerator / divisor
      let bottom := denominator / divisor
      if maxShareSupply < top ∨ maxShareSupply < bottom then
        shrink halve fuel (halve top) (halve bottom)
      else some (top, bottom)

/-- More halvings than a 128 bit integer allows. -/
def shrinkFuel : Nat := 128

/-- `call_price`: the rational number of the source refuses a collateral of
zero.  A negative one is refused by each caller as well. -/
def callPrice (debt collateral : Asset) (collateralRatio : Nat) : Option Price :=
  if collateral.amount ≤ 0 then none
  else do
    let (top, bottom) ← shrink (fun part => part / 2 + 1) shrinkFuel
      (debt.amount * collateralRatio)
      (collateral.amount * collateralRatioDenom)
    let price ← ofAssets ⟨top, debt.assetId⟩ ⟨bottom, collateral.assetId⟩
    pure price.invert

end Price

structure PriceFeed where
  settlementPrice : Price
  maintenanceCollateralRatio : Nat
  maximumShortSqueezeRatio : Nat
  deriving DecidableEq, Repr

namespace PriceFeed

/-- The default feed. -/
def null : PriceFeed := ⟨Price.null, 1750, 1500⟩

/-- The operator `==` -/
def eq (left right : PriceFeed) : Bool :=
  left.settlementPrice.eq right.settlementPrice &&
    left.maintenanceCollateralRatio == right.maintenanceCollateralRatio &&
    left.maximumShortSqueezeRatio == right.maximumShortSqueezeRatio

def maxShortSqueezePrice (feed : PriceFeed) : Option Price :=
  let price := feed.settlementPrice
  if price.quote.amount ≤ 0 ∨ feed.maximumShortSqueezeRatio = 0 then none
  else do
    let (top, bottom) ← Price.shrink (fun part => part / 2 + part % 2)
      Price.shrinkFuel (price.base.amount * collateralRatioDenom)
      (price.quote.amount * feed.maximumShortSqueezeRatio)
    Price.ofAssets ⟨top, price.base.assetId⟩ ⟨bottom, price.quote.assetId⟩

/-- The bounds are `GRAPHENE_MIN_COLLATERAL_RATIO` and
`GRAPHENE_MAX_COLLATERAL_RATIO`. -/
def validate (feed : PriceFeed) : Bool :=
  (feed.settlementPrice.isNull || feed.settlementPrice.validate) &&
    decide (1001 ≤ feed.maximumShortSqueezeRatio) &&
    decide (feed.maximumShortSqueezeRatio ≤ 32000) &&
    decide (1001 ≤ feed.maintenanceCollateralRatio) &&
    decide (feed.maintenanceCollateralRatio ≤ 32000) &&
    decide (feed.maximumShortSqueezeRatio ≤ feed.maintenanceCollateralRatio) &&
    feed.maxShortSqueezePrice.isSome

def isFor (feed : PriceFeed) (assetId : Nat) : Bool :=
  feed.settlementPrice.isNull || feed.settlementPrice.base.assetId == assetId

end PriceFeed

namespace Price

variable {right price : Price}

/-- Two prices of the same pair of assets, the same way round. -/
def SameMarket (left right : Price) : Prop :=
  left.base.assetId = right.base.assetId ∧ left.quote.assetId = right.quote.assetId

theorem lt_iff (same : SameMarket left right) : left.lt right = true ↔
      right.quote.amount * left.base.amount < left.quote.amount * right.base.amount := by
  simp [lt, same.1, same.2]

theorem gt_eq_lt : left.gt right = right.lt left := by
  by_cases sameBase : left.base.assetId = right.base.assetId
  · by_cases sameQuote : left.quote.assetId = right.quote.assetId
    · have products : ∀ first second : Int,
          (!(first == second || decide (first < second))) = decide (second < first) := by
        intro first second
        rcases lt_trichotomy first second with less | equal | greater
        · simp [less, less.le]
        · simp [equal]
        · simp [greater, greater.ne', greater.le]
      simp only [gt, le, eq, lt, sameBase, sameQuote, lt_irrefl, if_false,
        beq_self_eq_true, Bool.true_and]
      rw [products, mul_comm left.quote.amount, mul_comm right.quote.amount]
    · rcases lt_or_gt_of_ne sameQuote with less | greater
      · simp [gt, le, eq, lt, sameBase, less, less.not_gt]
      · simp [gt, le, eq, lt, sameBase, greater, greater.not_gt, greater.ne']
  · rcases lt_or_gt_of_ne sameBase with less | greater
    · simp [gt, le, eq, lt, less, less.not_gt]
    · simp [gt, le, eq, lt, greater, greater.not_gt, greater.ne']

theorem ge_iff (same : SameMarket left right) : left.ge right = true ↔
      left.quote.amount * right.base.amount ≤ right.quote.amount * left.base.amount := by
  have reading := lt_iff same
  simp only [ge, Bool.not_eq_true', ← Bool.not_eq_true, reading, not_lt]

theorem sameMarket_of_between (market : SameMarket low high) (above : price.lt low = false)
    (below : high.lt price = false) : SameMarket price low := by
  have highBase := market.1
  have highQuote := market.2
  simp only [lt] at above below
  have sameBase : price.base.assetId = low.base.assetId := by
    by_contra different
    rcases lt_or_gt_of_ne different with less | greater
    · simp [less] at above
    · have beyond : high.base.assetId < price.base.assetId := by omega
      simp [beyond] at below
  refine ⟨sameBase, ?_⟩
  by_contra different
  rcases lt_or_gt_of_ne different with less | _
  · simp [sameBase, less] at above
  · have beyond : high.quote.assetId < price.quote.assetId := by omega
    have level : high.base.assetId = price.base.assetId := by omega
    simp [level, beyond] at below

/-- Both parts of the price are positive. -/
structure Positive (price : Price) : Prop where
  base : 0 < price.base.amount
  quote : 0 < price.quote.amount

theorem Positive.invert (positive : price.Positive) : price.invert.Positive :=
  ⟨positive.quote, positive.base⟩

end Price

theorem scale_eq_some : scale amount target source = some result ↔
      0 < source.amount ∧ 0 ≤ amount * target.amount ∧
        amount * target.amount / source.amount ≤ maxShareSupply ∧
        result = ⟨amount * target.amount / source.amount, target.assetId⟩ := by
  unfold scale
  constructor
  · intro scaled
    split at scaled
    · rename_i fits
      cases scaled
      exact ⟨fits.1, fits.2.1, fits.2.2, rfl⟩
    · cases scaled
  · rintro ⟨positive, nonneg, bounded, rfl⟩
    rw [if_pos ⟨positive, nonneg, bounded⟩]

theorem Asset.times_nonneg {asset : Asset}
    (converted : asset.times price = some result) : 0 ≤ result.amount := by
  have rounded : ∀ {amount : Int} {target source : Asset},
      scale amount target source = some result → 0 ≤ result.amount := by
    intro amount target source scaled
    obtain ⟨positive, nonneg, -, rfl⟩ := scale_eq_some.mp scaled
    exact Int.ediv_nonneg nonneg positive.le
  unfold Asset.times at converted
  split at converted
  · exact rounded converted
  · split at converted
    · exact rounded converted
    · cases converted

namespace Price

theorem shrink_spec (positive : ∀ part, 0 < part → 0 < halve part)
    (up : 0 < numerator) (down : 0 < denominator)
    (result : shrink halve fuel numerator denominator = some (top, bottom)) :
    (0 < top ∧ top ≤ maxShareSupply) ∧ 0 < bottom ∧ bottom ≤ maxShareSupply := by
  induction fuel generalizing numerator denominator with
  | zero => cases result
  | succ fuel induction =>
    have reducedTop : 0 < numerator / (Int.gcd numerator denominator : Int) :=
      Int.ediv_pos_of_pos_of_dvd up (Int.natCast_nonneg _) (Int.gcd_dvd_left ..)
    have reducedBottom : 0 < denominator / (Int.gcd numerator denominator : Int) :=
      Int.ediv_pos_of_pos_of_dvd down (Int.natCast_nonneg _) (Int.gcd_dvd_right ..)
    simp only [shrink] at result
    split at result
    · exact induction (positive _ reducedTop) (positive _ reducedBottom) result
    · simp only [Option.some.injEq, Prod.mk.injEq] at result
      omega

theorem callPrice_cases (called : callPrice debt collateral ratio = some price) :
    0 < collateral.amount ∧ ∃ top bottom,
      price = ⟨⟨bottom, collateral.assetId⟩, top, debt.assetId⟩ ∧
      shrink (fun part => part / 2 + 1) shrinkFuel (debt.amount * ratio)
        (collateral.amount * collateralRatioDenom) = some (top, bottom) := by
  unfold callPrice at called
  split at called
  · cases called
  · simp only [Option.bind_eq_bind, Option.bind_eq_some_iff] at called
    obtain ⟨⟨top, bottom⟩, shrunk, _, formed, result⟩ := called
    unfold ofAssets at formed
    split at formed
    · cases formed
    · cases formed
      cases result
      exact ⟨by omega, top, bottom, rfl, shrunk⟩

theorem callPrice_assets (called : callPrice debt collateral ratio = some price) :
    price.base.assetId = collateral.assetId ∧ price.quote.assetId = debt.assetId := by
  obtain ⟨-, _, _, rfl, -⟩ := callPrice_cases called
  exact ⟨rfl, rfl⟩

theorem callPrice_spec (owed : 0 < debt.amount) (rated : 0 < ratio)
    (called : callPrice debt collateral ratio = some price) :
    0 < collateral.amount ∧ price.base.assetId = collateral.assetId ∧
      price.quote.assetId = debt.assetId ∧
      (0 < price.base.amount ∧ price.base.amount ≤ maxShareSupply) ∧
      0 < price.quote.amount ∧ price.quote.amount ≤ maxShareSupply := by
  obtain ⟨covered, _, _, rfl, shrunk⟩ := callPrice_cases called
  have upper : 0 < debt.amount * (ratio : Int) := mul_pos owed (by exact_mod_cast rated)
  have lower : 0 < collateral.amount * collateralRatioDenom := mul_pos covered (by decide)
  obtain ⟨topBounds, bottomBounds⟩ := shrink_spec (by omega) upper lower shrunk
  exact ⟨covered, rfl, rfl, bottomBounds, topBounds⟩

end Price

end CocosChain.Chain

import Mathlib.Algebra.Order.Ring.Int

/-!
# Shares of a fund

A fund is paid out in parts: a part of the supply gets its share at a fixed
ratio, rounded down.  What is left of the fund then still covers what is left
of the supply at that ratio, so that no share is ever refused.
-/

namespace CocosChain.ProRata

/-- The share of a part of the supply. -/
def share (supply collateral part : Int) : Int := part * collateral / supply

/-- What is left of the fund covers what is left of the supply. -/
structure Covers (supply collateral remaining fund : Int) : Prop where
  supply_pos : 0 < supply
  collateral_nonneg : 0 ≤ collateral
  enough : remaining * collateral ≤ fund * supply

theorem Covers.share_le (covers : Covers supply collateral remaining fund)
    (within : part ≤ remaining) : share supply collateral part ≤ fund := by
  apply Int.ediv_le_of_le_mul covers.supply_pos
  exact (Int.mul_le_mul_of_nonneg_right within covers.collateral_nonneg).trans covers.enough

theorem Covers.rest (covers : Covers supply collateral remaining fund) :
    Covers supply collateral (remaining - part) (fund - share supply collateral part) where
  supply_pos := covers.supply_pos
  collateral_nonneg := covers.collateral_nonneg
  enough := by
    have taken : share supply collateral part * supply ≤ part * collateral :=
      Int.ediv_mul_le _ covers.supply_pos.ne'
    rw [Int.sub_mul, Int.sub_mul]
    have enough := covers.enough
    omega

end CocosChain.ProRata

import Mathlib.Tactic

/-!
# A fee ratchet

A fee of `f / D` is charged on what a reported value exceeds a watermark by, and the
watermark is then raised to what is left after the fee.  Both are amounts, so nothing
is lost in between: over any sequence of reports the fees charged are at most `f / D`
of what the highest report exceeds the first watermark by (`Inv.fees_le`).

`Inv` is what a single step preserves (`Inv.step`): watermark and fees together grow
only with the reports, and the fees are within their share of that growth.
-/

namespace Roshi.Lib

structure Ratchet where
  watermark : Nat
  fees : Nat

namespace Ratchet

variable {f D G W₀ M : Nat} {r r' : Ratchet}

/-- The fee on a report of `G`, with the fees charged before taken off it. -/
def fee (r : Ratchet) (f D G : Nat) : Nat := (G - r.fees - r.watermark) * f / D

/-- A report of `G` charges its fee and raises the watermark to the rest, or charges
nothing and raises the watermark at most to what it reports. -/
inductive Step (f D : Nat) : Ratchet → Nat → Ratchet → Prop
  | free {r : Ratchet} {G W' : Nat} (hle : r.watermark ≤ W')
      (hG : W' = r.watermark ∨ W' + r.fees ≤ G) : Step f D r G ⟨W', r.fees⟩
  | charge {r : Ratchet} {G : Nat} (h : r.watermark + r.fees ≤ G) :
      Step f D r G ⟨G - r.fees - r.fee f D G, r.fees + r.fee f D G⟩

/-- From a first watermark `W₀`, with reports up to `M`. -/
structure Inv (f D W₀ M : Nat) (r : Ratchet) : Prop where
  start_le : W₀ ≤ r.watermark + r.fees
  fair : D * r.fees ≤ f * (r.watermark + r.fees - W₀)
  le_max : r.watermark + r.fees ≤ max W₀ M

theorem Inv.start : Inv f D W₀ M ⟨W₀, 0⟩ := ⟨by simp, by simp, by simp⟩

theorem fee_le (hf : f ≤ D) : r.fee f D G ≤ G - r.fees - r.watermark := by
  rw [fee]
  refine Nat.div_le_of_le_mul ?_
  rw [Nat.mul_comm]
  exact Nat.mul_le_mul_right _ hf

theorem Inv.step (hf : f ≤ D) (hi : Inv f D W₀ M r) (h : Step f D r G r')
    (hG : G ≤ M) : Inv f D W₀ M r' := by
  have hstart := hi.start_le
  have hfair := hi.fair
  have hmax := hi.le_max
  cases h with
  | @free W' hle hW' =>
    refine ⟨?_, ?_, ?_⟩
    · show W₀ ≤ W' + r.fees
      omega
    · calc D * r.fees ≤ f * (r.watermark + r.fees - W₀) := hfair
        _ ≤ f * (W' + r.fees - W₀) := Nat.mul_le_mul_left _ (by omega)
    · show W' + r.fees ≤ max W₀ M
      omega
  | charge h =>
    have hle := fee_le (r := r) (G := G) hf
    -- what is charged and what is left make up the report
    have hsum : G - r.fees - r.fee f D G + (r.fees + r.fee f D G) = G := by omega
    refine ⟨?_, ?_, ?_⟩
    · show W₀ ≤ G - r.fees - r.fee f D G + (r.fees + r.fee f D G)
      omega
    · show D * (r.fees + r.fee f D G) ≤
        f * (G - r.fees - r.fee f D G + (r.fees + r.fee f D G) - W₀)
      rw [hsum]
      calc D * (r.fees + r.fee f D G) = D * r.fees + D * r.fee f D G := Nat.mul_add _ _ _
        _ ≤ f * (r.watermark + r.fees - W₀) + (G - r.fees - r.watermark) * f :=
          Nat.add_le_add hfair (Nat.mul_div_le _ _)
        _ = f * (r.watermark + r.fees - W₀ + (G - r.fees - r.watermark)) := by ring
        _ = f * (G - W₀) := by congr 1; omega
    · show G - r.fees - r.fee f D G + (r.fees + r.fee f D G) ≤ max W₀ M
      omega

/-- **The same gain is charged once.** -/
theorem Inv.fees_le (hD : 0 < D) (hi : Inv f D W₀ M r) : r.fees ≤ f * (M - W₀) / D := by
  have hmax := hi.le_max
  rw [Nat.le_div_iff_mul_le hD, Nat.mul_comm]
  calc D * r.fees ≤ f * (r.watermark + r.fees - W₀) := hi.fair
    _ ≤ f * (M - W₀) := Nat.mul_le_mul_left _ (by omega)

end Ratchet

end Roshi.Lib

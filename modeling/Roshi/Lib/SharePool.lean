import Mathlib.Tactic

/-!
# Pools of shares

A pool holds `A` assets against `S > 0` shares; its price is `A / S`.  A mint of
`s` shares for `b` assets is fair when `s * A ≤ b * S`, a payment of `a` assets
for `s` shares is fair when `a * S ≤ s * A`: both round in the pool's favour.
Fair moves never lower the price (`price_le_mint`, `price_le_pay`).

`payAll` redeems a list of share amounts one after another, each at the floor of
the price it meets.  The dust a floor leaves behind raises the price for the
rest, so every payment is at least what the opening price gives
(`floor_le_of_mem_payAll`), while the total stays below the opening price of the
whole list (`payAll_sum_le`).

`mintAll` is the other direction: a list of deposits, each minting the floor at the
price it meets.  It mints at most what one deposit of the sum would
(`mintAll_sum_le`), and the minted shares are never worth more than was put in
(`floor_pay_after_mint_le`).

`offset_cost` bounds what the holder of all shares can make a depositor lose when
`V` further shares, held by nobody, take part in the price.
-/

namespace Roshi.Lib

/-! ### Fair moves -/

section Fair

variable {K : Type*} [Field K] [LinearOrder K] [IsStrictOrderedRing K] {A S a b s : K}

theorem price_le_mint (hS : 0 < S) (hs : 0 ≤ s) (h : s * A ≤ b * S) :
    A / S ≤ (A + b) / (S + s) := by
  rw [div_le_div_iff₀ hS (by linarith)]
  linarith

theorem price_le_pay (hS : 0 < S) (hs : s < S) (h : a * S ≤ s * A) :
    A / S ≤ (A - a) / (S - s) := by
  rw [div_le_div_iff₀ hS (by linarith)]
  linarith

end Fair

/-! ### Redeeming a list -/

/-- The payouts of redeeming `l` in order from a pool of `A` assets and `S` shares. -/
def payAll : Nat → Nat → List Nat → List Nat
  | _, _, [] => []
  | A, S, s :: l => s * A / S :: payAll (A - s * A / S) (S - s) l

/-- A floor payment is fair, and never more than the pool holds. -/
theorem floor_pay_fair {A S s : Nat} (hs : s ≤ S) :
    s * A / S * S ≤ s * A ∧ s * A / S ≤ A := by
  refine ⟨Nat.div_mul_le_self _ _, ?_⟩
  refine Nat.div_le_of_le_mul ?_
  exact Nat.mul_le_mul_right A hs

/-- After a floor payment the price is no lower, cross-multiplied. -/
theorem floor_pay_cross {A S s : Nat} (hs : s ≤ S) :
    A * (S - s) ≤ (A - s * A / S) * S := by
  obtain ⟨hfair, hle⟩ := floor_pay_fair (A := A) hs
  rw [Nat.mul_sub, Nat.sub_mul, Nat.mul_comm A s]
  omega

/-- Every payment is at least the floor at any price the pool starts above. -/
theorem floor_le_of_mem_payAll {A S : Nat} (A₀ S₀ : Nat) {l : List Nat} (hS₀ : 0 < S₀)
    (hl : l.sum < S) (h : A₀ * S ≤ A * S₀) :
    List.Forall₂ (fun s a => s * A₀ / S₀ ≤ a) l (payAll A S l) := by
  induction l generalizing A S with
  | nil => exact .nil
  | cons s l ih =>
    rw [List.sum_cons] at hl
    refine .cons ?_ (ih (by omega) ?_)
    · -- `s * A₀ / S₀ ≤ s * A / S` from `A₀ / S₀ ≤ A / S`
      rw [Nat.le_div_iff_mul_le (by omega)]
      refine Nat.le_of_mul_le_mul_right ?_ hS₀
      calc s * A₀ / S₀ * S * S₀ = s * A₀ / S₀ * S₀ * S := by ring
        _ ≤ s * A₀ * S := Nat.mul_le_mul_right _ (Nat.div_mul_le_self _ _)
        _ = s * (A₀ * S) := by ring
        _ ≤ s * (A * S₀) := Nat.mul_le_mul_left _ h
        _ = s * A * S₀ := by ring
    · -- the price after the payment is still at least the opening one
      have hcross := floor_pay_cross (A := A) (show s ≤ S by omega)
      refine Nat.le_of_mul_le_mul_right ?_ (show 0 < S by omega)
      calc A₀ * (S - s) * S = A₀ * S * (S - s) := by ring
        _ ≤ A * S₀ * (S - s) := Nat.mul_le_mul_right _ h
        _ = A * (S - s) * S₀ := by ring
        _ ≤ (A - s * A / S) * S * S₀ := Nat.mul_le_mul_right _ hcross
        _ = (A - s * A / S) * S₀ * S := by ring

/-- The whole list leaves the pool at a price no lower than it met. -/
theorem payAll_cross {A S : Nat} {l : List Nat} (hl : l.sum < S) :
    (payAll A S l).sum ≤ A ∧ A * (S - l.sum) ≤ (A - (payAll A S l).sum) * S := by
  induction l generalizing A S with
  | nil => simp [payAll]
  | cons s l ih =>
    rw [List.sum_cons] at hl
    obtain ⟨hsum, hcross⟩ := ih (A := A - s * A / S) (S := S - s) (by omega)
    have hstep := floor_pay_cross (A := A) (show s ≤ S by omega)
    have hle := (floor_pay_fair (A := A) (show s ≤ S by omega)).2
    simp only [payAll, List.sum_cons]
    refine ⟨by omega, ?_⟩
    have hsub : S - (s + l.sum) = S - s - l.sum := by omega
    have hsub' : A - (s * A / S + (payAll (A - s * A / S) (S - s) l).sum)
        = A - s * A / S - (payAll (A - s * A / S) (S - s) l).sum := by omega
    rw [hsub, hsub']
    refine Nat.le_of_mul_le_mul_right ?_ (show 0 < S - s by omega)
    calc A * (S - s - l.sum) * (S - s) = A * (S - s) * (S - s - l.sum) := by ring
      _ ≤ (A - s * A / S) * S * (S - s - l.sum) := Nat.mul_le_mul_right _ hstep
      _ = (A - s * A / S) * (S - s - l.sum) * S := by ring
      _ ≤ (A - s * A / S - (payAll (A - s * A / S) (S - s) l).sum) * (S - s) * S :=
        Nat.mul_le_mul_right _ hcross
      _ = _ := by ring

/-- **Splitting never pays more.**  A list of redemptions is paid in total at most
what its sum is worth at the opening price. -/
theorem payAll_sum_le {A S : Nat} {l : List Nat} (hl : l.sum < S) :
    (payAll A S l).sum ≤ l.sum * A / S := by
  obtain ⟨hle, hcross⟩ := payAll_cross (A := A) hl
  rw [Nat.le_div_iff_mul_le (by omega)]
  rw [Nat.mul_sub, Nat.sub_mul] at hcross
  have h1 : A * l.sum ≤ A * S := Nat.mul_le_mul_left _ hl.le
  have h2 : (payAll A S l).sum * S ≤ A * S := Nat.mul_le_mul_right _ hle
  rw [Nat.mul_comm l.sum A]
  omega

/-! ### Depositing a list -/

/-- The shares minted for depositing `l` in order into a pool of `A` assets and `S` shares. -/
def mintAll : Nat → Nat → List Nat → List Nat
  | _, _, [] => []
  | A, S, b :: l => b * S / A :: mintAll (A + b) (S + b * S / A) l

/-- What a list mints is fair at the opening price. -/
theorem mintAll_fair {A S : Nat} {l : List Nat} (hA : 0 < A) :
    (mintAll A S l).sum * A ≤ l.sum * S := by
  induction l generalizing A S with
  | nil => simp [mintAll]
  | cons b l ih =>
    have hs : b * S / A * A ≤ b * S := Nat.div_mul_le_self _ _
    have hl := ih (A := A + b) (S := S + b * S / A) (by omega)
    simp only [mintAll, List.sum_cons]
    generalize hs' : b * S / A = s at hs hl ⊢
    generalize (mintAll (A + b) (S + s) l).sum = m at hl ⊢
    -- the rest is fair at the price the first deposit leaves, hence at the opening one
    have hrest : m * A ≤ l.sum * S := by
      refine Nat.le_of_mul_le_mul_right ?_ (show 0 < A + b by omega)
      calc m * A * (A + b) = m * (A + b) * A := by ring
        _ ≤ l.sum * (S + s) * A := Nat.mul_le_mul_right _ hl
        _ = l.sum * (S * A + s * A) := by ring
        _ ≤ l.sum * (S * A + b * S) := Nat.mul_le_mul_left _ (Nat.add_le_add_left hs _)
        _ = l.sum * S * (A + b) := by ring
    calc (s + m) * A = s * A + m * A := Nat.add_mul ..
      _ ≤ b * S + l.sum * S := Nat.add_le_add hs hrest
      _ = (b + l.sum) * S := (Nat.add_mul ..).symm

/-- **Splitting never mints more.**  A list of deposits mints in total at most what its
sum is worth at the opening price. -/
theorem mintAll_sum_le {A S : Nat} {l : List Nat} (hA : 0 < A) :
    (mintAll A S l).sum ≤ l.sum * S / A := by
  rw [Nat.le_div_iff_mul_le hA]
  exact mintAll_fair hA

/-- Shares minted by a fair deposit are not worth more than the deposit right after it. -/
theorem floor_pay_after_mint_le {A S b m r : Nat} (h : m * A ≤ b * S) (hr : r ≤ m) :
    r * (A + b) / (S + m) ≤ b := by
  refine Nat.div_le_of_le_mul ?_
  calc r * (A + b) ≤ m * (A + b) := Nat.mul_le_mul_right _ hr
    _ = m * A + m * b := Nat.mul_add ..
    _ ≤ b * S + m * b := Nat.add_le_add_right h _
    _ = (S + m) * b := by ring

/-! ### The cost of a donation -/

/-- **A loss costs its multiple.**  The pool counts one asset and `V` shares that nobody
holds.  Its `S` shares are worth `q` after a deposit of `b` minted `s` shares worth `p`:
what their holder is short of the `A` assets exceeds `V - 1` times the depositor's loss,
up to `V + 1`. -/
theorem offset_cost {A S V b s p q : Nat} (hV : 0 < V) (hs : s = b * (S + V) / (A + 1))
    (hp : p = s * (A + b + 1) / (S + s + V)) (hq : q = S * (A + b + 1) / (S + s + V)) :
    ((V : ℤ) - 1) * (b - p) - (V + 1) < A - q := by
  -- `D` is what the floor of the mint keeps from the depositor, times the supply
  have hmint : b * (S + V) < (s + 1) * (A + 1) := by
    rw [hs, Nat.mul_comm _ (A + 1)]
    exact Nat.lt_mul_div_succ _ (by omega)
  have hvictim : s * (A + b + 1) < (p + 1) * (S + s + V) := by
    rw [hp, Nat.mul_comm _ (S + s + V)]
    exact Nat.lt_mul_div_succ _ (by omega)
  have hholder : q * (S + s + V) ≤ S * (A + b + 1) := by
    rw [hq]
    exact Nat.div_mul_le_self _ _
  zify at hmint hvictim hholder
  obtain ⟨D, hD⟩ : ∃ D : ℤ, D = b * (S + V) - s * (A + 1) := ⟨_, rfl⟩
  have hT : (0 : ℤ) < S + s + V := by positivity
  have hV1 : (0 : ℤ) ≤ V - 1 := by omega
  have hDA : D < A + 1 := by linarith
  have hloss : ((b : ℤ) - p) * (S + s + V) ≤ D + (S + s + V) - 1 := by linarith
  have hcost : V * (A + b + 1) - D - (S + s + V) ≤ ((A : ℤ) - q) * (S + s + V) := by linarith
  have hscaled := mul_le_mul_of_nonneg_left hloss hV1
  have hVD : (V : ℤ) * D ≤ V * A := mul_le_mul_of_nonneg_left (by omega) (by positivity)
  have hVb : (0 : ℤ) ≤ V * b := by positivity
  refine lt_of_mul_lt_mul_right ?_ hT.le
  calc (((V : ℤ) - 1) * (b - p) - (V + 1)) * (S + s + V)
      = (V - 1) * ((b - p) * (S + s + V)) - (V + 1) * (S + s + V) := by ring
    _ ≤ (V - 1) * (D + (S + s + V) - 1) - (V + 1) * (S + s + V) := by linarith
    _ < V * (A + b + 1) - D - (S + s + V) := by linarith
    _ ≤ (A - q) * (S + s + V) := hcost

end Roshi.Lib

import Mathlib.Tactic

/-!
# A linear unlock line

An amount that is locked in full up to `start`, free from `stop` on, and released
linearly in between, rounded down to whole atoms.  Times are integers, amounts
naturals.  The line only ever falls (`Drip.remaining_antitone`) and never exceeds
what was locked (`Drip.remaining_le`).

Restating the line at a time `n` starts it again from the whole atoms locked then.
That can only lose atoms, at most one for each new time (`Drip.restateAll_bounds`).
-/

namespace Roshi.Lib

/-- A locked amount with its unlock window. -/
@[ext]
structure Drip where
  amount : Nat
  start : Int
  stop : Int
  start_le_stop : start ≤ stop

namespace Drip

/-- What is still locked at time `t`. -/
def remaining (d : Drip) (t : Int) : Nat :=
  if d.stop ≤ t then 0
  else if t ≤ d.start then d.amount
  else d.amount * (d.stop - t).toNat / (d.stop - d.start).toNat

variable {d : Drip} {t t' : Int}

theorem remaining_of_stop_le (h : d.stop ≤ t) : d.remaining t = 0 := if_pos h

theorem remaining_of_le_start (h : t < d.stop) (h' : t ≤ d.start) : d.remaining t = d.amount := by
  rw [remaining, if_neg (by omega), if_pos h']

theorem remaining_of_between (h : d.start < t) (h' : t < d.stop) :
    d.remaining t = d.amount * (d.stop - t).toNat / (d.stop - d.start).toNat := by
  rw [remaining, if_neg (by omega), if_neg (by omega)]

theorem remaining_le (d : Drip) (t : Int) : d.remaining t ≤ d.amount := by
  rcases le_or_gt d.stop t with h | h
  · rw [remaining_of_stop_le h]
    exact Nat.zero_le _
  rcases le_or_gt t d.start with h' | h'
  · rw [remaining_of_le_start h h']
  · rw [remaining_of_between h' h]
    refine Nat.div_le_of_le_mul ?_
    rw [Nat.mul_comm]
    exact Nat.mul_le_mul_right _ (by omega)

/-- **The line only falls.** -/
theorem remaining_antitone (h : t ≤ t') : d.remaining t' ≤ d.remaining t := by
  rcases le_or_gt d.stop t' with h2 | h2
  · rw [remaining_of_stop_le h2]
    exact Nat.zero_le _
  rcases le_or_gt t d.start with h1 | h1
  · rw [remaining_of_le_start (by omega) h1]
    exact remaining_le d t'
  · rw [remaining_of_between h1 (by omega), remaining_of_between (by omega) h2]
    exact Nat.div_le_div_right (Nat.mul_le_mul_left _ (by omega))

theorem remaining_pos (h : 0 < d.remaining t) : t < d.stop ∧ 0 < d.amount := by
  refine ⟨?_, lt_of_lt_of_le h (remaining_le d t)⟩
  by_contra hn
  rw [remaining_of_stop_le (by omega)] at h
  exact Nat.lt_irrefl 0 h

/-! ### Restating the line -/

/-- The same line, started again at `n` from what is locked there; a line that has run
dry keeps its window. -/
def restate (d : Drip) (n : Int) : Drip :=
  if h : 0 < d.remaining n then ⟨d.remaining n, n, d.stop, (remaining_pos h).1.le⟩
  else ⟨0, d.start, d.stop, d.start_le_stop⟩

variable {n : Int}

theorem restate_of_pos (h : 0 < d.remaining n) :
    d.restate n = ⟨d.remaining n, n, d.stop, (remaining_pos h).1.le⟩ := dif_pos h

theorem restate_of_dry (h : d.remaining n = 0) :
    d.restate n = ⟨0, d.start, d.stop, d.start_le_stop⟩ := dif_neg (by omega)

@[simp] theorem restate_stop : (d.restate n).stop = d.stop := by
  rw [restate]
  split <;> rfl

theorem remaining_of_amount_zero (h : d.amount = 0) : d.remaining t = 0 := by
  have := d.remaining_le t
  omega

/-- Restating at the start changes nothing from there on. -/
theorem remaining_restate_start (ht : d.start ≤ t) :
    (d.restate d.start).remaining t = d.remaining t := by
  rcases Nat.eq_zero_or_pos (d.remaining d.start) with h0 | hpos
  · have hdry := remaining_antitone (d := d) ht
    rw [restate_of_dry h0, remaining_of_amount_zero rfl]
    omega
  · have hlt := (remaining_pos hpos).1
    rw [restate_of_pos hpos]
    simp only [remaining, if_neg (not_le.mpr hlt), if_pos (le_refl d.start)]

/-- The two floors of a restated line, against the one of the line itself. -/
theorem floor_floor_bounds {L x y z : Nat} (hy : 0 < y) (hz : 0 < z) (hxy : x ≤ y) :
    L * y / z * x / y ≤ L * x / z ∧ L * x / z ≤ L * y / z * x / y + 1 := by
  set r := L * y / z with hr
  have hrz : r * z ≤ L * y := Nat.div_mul_le_self _ _
  have hrz' : L * y < (r + 1) * z := Nat.lt_mul_of_div_lt (Nat.lt_succ_self _) hz
  constructor
  · rw [Nat.le_div_iff_mul_le hz]
    refine Nat.le_of_mul_le_mul_right ?_ hy
    calc r * x / y * z * y = r * x / y * y * z := by ring
      _ ≤ r * x * z := Nat.mul_le_mul_right _ (Nat.div_mul_le_self _ _)
      _ = r * z * x := by ring
      _ ≤ L * y * x := Nat.mul_le_mul_right _ hrz
      _ = L * x * y := by ring
  · set q := L * x / z with hq
    have hqz : q * z ≤ L * x := Nat.div_mul_le_self _ _
    -- `q y ≤ (r + 1) x ≤ r x + y`
    have hcross : q * y ≤ (r + 1) * x := by
      refine Nat.le_of_mul_le_mul_right ?_ hz
      calc q * y * z = q * z * y := by ring
        _ ≤ L * x * y := Nat.mul_le_mul_right _ hqz
        _ = L * y * x := by ring
        _ ≤ (r + 1) * z * x := Nat.mul_le_mul_right _ hrz'.le
        _ = (r + 1) * x * z := by ring
    rw [← Nat.add_div_right _ hy, Nat.le_div_iff_mul_le hy]
    calc q * y ≤ (r + 1) * x := hcross
      _ = r * x + x := by ring
      _ ≤ r * x + y := Nat.add_le_add_left hxy _

/-- Restating at `n` loses at most one atom of any later value. -/
theorem remaining_restate_bounds (hn : d.start ≤ n) (ht : n ≤ t) :
    (d.restate n).remaining t ≤ d.remaining t ∧
      d.remaining t ≤ (d.restate n).remaining t + 1 := by
  rcases Nat.eq_zero_or_pos (d.remaining n) with h0 | hpos
  · have hzero : d.remaining t = 0 := by
      have := remaining_antitone (d := d) ht
      omega
    rw [restate_of_dry h0, remaining_of_amount_zero rfl]
    omega
  have hstop := (remaining_pos hpos).1
  rcases le_or_gt d.stop t with h | h
  · have hnew : (d.restate n).remaining t = 0 :=
      remaining_of_stop_le (by rw [restate_stop]; exact h)
    rw [hnew, remaining_of_stop_le h]
    omega
  rcases eq_or_lt_of_le hn with rfl | hn
  · rw [remaining_restate_start ht]
    omega
  rcases eq_or_lt_of_le ht with rfl | ht
  · have hsame : (d.restate n).remaining n = d.remaining n := by
      rw [restate_of_pos hpos]
      exact remaining_of_le_start (d := ⟨d.remaining n, n, d.stop, hstop.le⟩) hstop le_rfl
    omega
  · have hnew : (d.restate n).remaining t =
        d.amount * (d.stop - n).toNat / (d.stop - d.start).toNat * (d.stop - t).toNat /
          (d.stop - n).toNat := by
      rw [restate_of_pos hpos, ← remaining_of_between hn hstop]
      exact remaining_of_between (d := ⟨d.remaining n, n, d.stop, hstop.le⟩) ht h
    rw [hnew, remaining_of_between (hn.trans ht) h]
    exact floor_floor_bounds (by omega) (by omega) (by omega)

/-- The line restated at each of a list of times. -/
def restateAll (d : Drip) (times : List Int) : Drip := times.foldl restate d

@[simp] theorem restateAll_nil : d.restateAll [] = d := rfl

@[simp] theorem restateAll_cons {times : List Int} :
    d.restateAll (n :: times) = (d.restate n).restateAll times := rfl

/-- Restating at times from `c` on never starts the line before `c`. -/
theorem le_restateAll_start {times : List Int} {c : Int} (hc : c ≤ d.start)
    (h : ∀ n ∈ times, c ≤ n) : c ≤ (d.restateAll times).start := by
  induction times generalizing d with
  | nil => exact hc
  | cons n times ih =>
    refine ih ?_ fun m hm => h m (List.mem_cons_of_mem _ hm)
    rw [restate]
    split
    · exact h n List.mem_cons_self
    · exact hc

/-- **Restating loses at most one atom for each new time.** -/
theorem restateAll_bounds {times : List Int} (hsorted : times.Pairwise (· ≤ ·))
    (hstart : ∀ n ∈ times, d.start ≤ n) (ht : ∀ n ∈ times, n ≤ t) :
    (d.restateAll times).remaining t ≤ d.remaining t ∧
      d.remaining t ≤
        (d.restateAll times).remaining t + (times.toFinset.erase d.start).card := by
  induction times generalizing d with
  | nil => simp
  | cons n times ih =>
    obtain ⟨hle, hsorted⟩ := List.pairwise_cons.mp hsorted
    have hn := hstart n List.mem_cons_self
    have hnt := ht n List.mem_cons_self
    have ht' : ∀ m ∈ times, m ≤ t := fun m hm => ht m (List.mem_cons_of_mem _ hm)
    obtain ⟨hlow, hhigh⟩ := remaining_restate_bounds hn hnt
    rcases Nat.eq_zero_or_pos (d.remaining n) with h0 | hpos
    · -- the line has run dry at `n`, so there is nothing left to lose
      have hfall := remaining_antitone (d := d) hnt
      have hstart' : ∀ m ∈ times, (d.restate n).start ≤ m := by
        rw [restate_of_dry h0]
        exact fun m hm => hstart m (List.mem_cons_of_mem _ hm)
      have hrest := (ih hsorted hstart' ht').1
      rw [restateAll_cons]
      omega
    · have hstart_eq : (d.restate n).start = n := by rw [restate_of_pos hpos]
      have hrest := ih (d := d.restate n) hsorted (by rw [hstart_eq]; exact hle) ht'
      rw [hstart_eq] at hrest
      rw [restateAll_cons, List.toFinset_cons]
      rcases eq_or_lt_of_le hn with hstart_n | hlt
      · -- a time already counted: restating there is free
        rw [← hstart_n, remaining_restate_start (by omega)] at hrest
        rw [← hstart_n, Finset.erase_insert_eq_erase]
        exact hrest
      · have hcard : (Finset.erase (insert n times.toFinset) d.start).card =
            (times.toFinset.erase n).card + 1 := by
          have hnot : d.start ∉ insert n times.toFinset := by
            rw [Finset.mem_insert, List.mem_toFinset]
            rintro (heq | hmem)
            · omega
            · have := hle _ hmem
              omega
          rw [Finset.erase_eq_of_notMem hnot,
            ← Finset.card_erase_add_one (Finset.mem_insert_self n _), Finset.erase_insert_eq_erase]
        omega

end Drip

end Roshi.Lib

import Mathlib.Algebra.Order.Floor.Div
import Mathlib.Tactic

/-!
# Early exit and checked machine arithmetic

The two idioms fallible integer code is written in.  `rejectIf c e` is
`if c { return Err(e) }` and `okOr o e` is `o.ok_or(e)?`; a `do` block over
`Except` is the rest of the function.  `bind_eq_ok` and the two `_eq_ok` lemmas
turn a run that succeeded into the list of facts it passed, so a caller never
unfolds the control flow again.

Unsigned integers are `BitVec w`, signed ones `Int64`.  Each checked operation
is characterised by the value it returns: `checkedAdd a b = some c` says
`c = a + b` on the naturals, with nothing about overflow left to discharge.
-/

namespace Roshi.Lib

/-! ### Early exit -/

section EarlyExit

universe u
variable {ε α β : Type u}

/-- `Option::ok_or`. -/
def okOr (o : Option α) (e : ε) : Except ε α :=
  match o with
  | some a => .ok a
  | none => .error e

/-- `if c { return Err(e) }`. -/
def rejectIf {ε : Type} (c : Prop) [Decidable c] (e : ε) : Except ε Unit :=
  if c then .error e else .ok ()

@[simp] theorem okOr_eq_ok {o : Option α} {e : ε} {a : α} : okOr o e = .ok a ↔ o = some a := by
  cases o <;> simp [okOr]

@[simp] theorem okOr_some {a : α} {e : ε} : okOr (some a) e = .ok a := rfl

@[simp] theorem rejectIf_eq_ok {ε : Type} {c : Prop} [Decidable c] {e : ε} {u : Unit} :
    rejectIf c e = .ok u ↔ ¬ c := by
  by_cases h : c <;> simp [rejectIf, h]

@[simp] theorem bind_eq_ok {x : Except ε α} {f : α → Except ε β} {b : β} :
    (x >>= f) = .ok b ↔ ∃ a, x = .ok a ∧ f a = .ok b := by
  cases x <;> simp [bind, Except.bind]

/-- A sequence fails where its first failing step does. -/
theorem bind_eq_error {x : Except ε α} {f : α → Except ε β} {e : ε} :
    (x >>= f) = .error e ↔ x = .error e ∨ ∃ a, x = .ok a ∧ f a = .error e := by
  cases x <;> simp [bind, Except.bind]

theorem okOr_eq_error {o : Option α} {e e' : ε} : okOr o e = .error e' ↔ o = none ∧ e = e' := by
  cases o <;> simp [okOr]

theorem rejectIf_eq_error {ε : Type} {c : Prop} [Decidable c] {e e' : ε} :
    rejectIf c e = .error e' ↔ c ∧ e = e' := by
  by_cases h : c <;> simp [rejectIf, h]

/-- `bind_eq_ok` as a rule: to use that a sequence succeeded, use that each step did. -/
theorem bind_ok_imp {x : Except ε α} {f : α → Except ε β} {b : β} {P : Prop} :
    ((x >>= f) = .ok b → P) ↔ ∀ a, x = .ok a → f a = .ok b → P := by
  simp only [bind_eq_ok, forall_exists_index, and_imp]

@[simp] theorem mapError_eq_ok {ε' : Type u} {x : Except ε α} {f : ε → ε'} {a : α} :
    x.mapError f = .ok a ↔ x = .ok a := by
  cases x <;> simp [Except.mapError]

theorem map_eq_ok {x : Except ε α} {f : α → β} {b : β} :
    x.map f = .ok b ↔ ∃ a, x = .ok a ∧ f a = b := by
  cases x <;> simp [Except.map]

/-- What is done to the result is done to that of the last step. -/
theorem map_bind_eq {γ : Type u} {x : Except ε α} {f : α → Except ε β} {g : β → γ} :
    (x >>= f).map g = x >>= fun a => (f a).map g := by
  cases x <;> rfl

@[simp] theorem map_ok {f : α → β} {a : α} : (Except.ok a : Except ε α).map f = .ok (f a) := rfl

@[simp] theorem ok_bind {a : α} {f : α → Except ε β} : ((.ok a : Except ε α) >>= f) = f a := rfl

/-- A loop that maps with an early exit. -/
theorem mapM_eq_ok {f : α → Except ε β} {l : List α} {r : List β} :
    l.mapM f = .ok r ↔ List.Forall₂ (fun a b => f a = .ok b) l r := by
  induction l generalizing r with
  | nil =>
    rw [List.forall₂_nil_left_iff, List.mapM_nil]
    exact ⟨fun h => (Except.ok.inj h).symm, fun h => congrArg Except.ok h.symm⟩
  | cons a l ih =>
    rw [List.mapM_cons, List.forall₂_cons_left_iff]
    simp only [bind_eq_ok, ih]
    constructor
    · rintro ⟨b, hb, bs, hbs, h⟩
      exact ⟨b, bs, hb, hbs, (Except.ok.inj h).symm⟩
    · rintro ⟨b, bs, hb, hbs, rfl⟩
      exact ⟨b, hb, bs, hbs, rfl⟩

/-- It succeeds when every pass does. -/
theorem exists_mapM_ok {f : α → Except ε β} {l : List α} :
    (∃ r, l.mapM f = .ok r) ↔ ∀ a ∈ l, ∃ b, f a = .ok b := by
  induction l with
  | nil => simp [pure, Except.pure]
  | cons a l ih =>
    rw [List.forall_mem_cons, ← ih]
    simp only [mapM_eq_ok, List.forall₂_cons_left_iff]
    constructor
    · rintro ⟨_, b, r, hb, hr, rfl⟩
      exact ⟨⟨b, hb⟩, r, hr⟩
    · rintro ⟨⟨b, hb⟩, r, hr⟩
      exact ⟨b :: r, b, r, hb, hr, rfl⟩

/-- What is done to each result of a loop. -/
theorem map_mapM {γ : Type u} {f : α → Except ε β} {g : β → γ} (l : List α) :
    (l.mapM f).map (List.map g) = l.mapM fun a => (f a).map g := by
  induction l with
  | nil => rfl
  | cons a l ih =>
    rw [List.mapM_cons, List.mapM_cons, ← ih]
    cases f a with
    | error e => rfl
    | ok b => cases l.mapM f <;> rfl

/-- Two steps for each element are two loops. -/
theorem mapM_bind_eq_ok {γ : Type u} {f : α → Except ε β} {g : β → Except ε γ} {l : List α}
    {r : List γ} :
    l.mapM (fun a => f a >>= g) = .ok r ↔ ∃ m, l.mapM f = .ok m ∧ m.mapM g = .ok r := by
  simp only [mapM_eq_ok]
  induction l generalizing r with
  | nil =>
    constructor
    · intro h
      obtain rfl := List.forall₂_nil_left_iff.mp h
      exact ⟨[], .nil, .nil⟩
    · rintro ⟨_, hm, h⟩
      obtain rfl := List.forall₂_nil_left_iff.mp hm
      obtain rfl := List.forall₂_nil_left_iff.mp h
      exact .nil
  | cons a l ih =>
    constructor
    · intro h
      obtain ⟨c, cs, hc, hcs, rfl⟩ := List.forall₂_cons_left_iff.mp h
      obtain ⟨b, hb, hc⟩ := bind_eq_ok.mp hc
      obtain ⟨bs, hbs, hcs⟩ := ih.mp hcs
      exact ⟨b :: bs, .cons hb hbs, .cons hc hcs⟩
    · rintro ⟨_, hm, h⟩
      obtain ⟨b, bs, hb, hbs, rfl⟩ := List.forall₂_cons_left_iff.mp hm
      obtain ⟨c, cs, hc, hcs, rfl⟩ := List.forall₂_cons_left_iff.mp h
      exact .cons (bind_eq_ok.mpr ⟨b, hb, hc⟩) (ih.mpr ⟨bs, hbs, hcs⟩)

/-- **A loop that accumulates** what each pass computes on its own, with an early exit, is a
map with an early exit and then a fold. -/
theorem foldlM_eq_map_mapM {γ δ : Type u} {f : δ → α → Except ε δ} {g : α → Except ε γ}
    {op : δ → γ → δ} (hf : ∀ s a, f s a = (g a).map (op s)) (l : List α) (s : δ) :
    l.foldlM f s = (l.mapM g).map fun r => r.foldl op s := by
  induction l generalizing s with
  | nil => rfl
  | cons a l ih =>
    rw [List.foldlM_cons, List.mapM_cons, hf]
    cases g a with
    | error e => rfl
    | ok b =>
      show l.foldlM f (op s b) = _
      rw [ih]
      cases l.mapM g with
      | error e => rfl
      | ok r => rfl

theorem exists_eq_error {x : Except ε α} : (∃ e, x = .error e) ↔ ¬ ∃ a, x = .ok a := by
  cases x <;> simp

/-- A loop of checks. -/
theorem forM_eq_ok {f : α → Except ε PUnit.{u + 1}} {l : List α} :
    l.forM f = .ok ⟨⟩ ↔ ∀ a ∈ l, f a = .ok ⟨⟩ := by
  induction l with
  | nil => simp [List.forM, pure, Except.pure]
  | cons a l ih =>
    show (f a >>= fun _ => l.forM f) = .ok ⟨⟩ ↔ _
    rw [bind_eq_ok, List.forall_mem_cons, ← ih]
    constructor
    · rintro ⟨_, h1, h2⟩
      exact ⟨h1, h2⟩
    · rintro ⟨h1, h2⟩
      exact ⟨⟨⟩, h1, h2⟩

/-- A loop goes through where another does, if each pass does. -/
theorem foldlM_eq_ok_of_imp {f g : β → α → Except ε β}
    (hfg : ∀ s a s', f s a = .ok s' → g s a = .ok s') {l : List α} {s s' : β}
    (h : l.foldlM f s = .ok s') : l.foldlM g s = .ok s' := by
  induction l generalizing s with
  | nil => exact h
  | cons a l ih =>
    rw [List.foldlM_cons, bind_eq_ok] at h ⊢
    obtain ⟨t, ht, h⟩ := h
    exact ⟨t, hfg s a t ht, ih h⟩

/-- **A loop that collects.**  If each pass keeps `I`, only adds to what is collected and
covers its own element, the loop keeps `I` and covers every element. -/
theorem foldlM_covers {f : List β → α → Except ε (List β)} {I : List β → Prop}
    {C : α → List β → Prop} (hmono : ∀ a s s', s ⊆ s' → C a s → C a s')
    (hstep : ∀ s a s', I s → f s a = .ok s' → I s' ∧ s ⊆ s' ∧ C a s') {l : List α}
    {s s' : List β} (hs : I s) (h : l.foldlM f s = .ok s') :
    I s' ∧ s ⊆ s' ∧ ∀ a ∈ l, C a s' := by
  induction l generalizing s with
  | nil =>
    cases h
    exact ⟨hs, List.Subset.refl _, by simp⟩
  | cons a l ih =>
    rw [List.foldlM_cons, bind_eq_ok] at h
    obtain ⟨s₁, h₁, h⟩ := h
    obtain ⟨hs₁, hsub, ha⟩ := hstep s a s₁ hs h₁
    obtain ⟨hs', hsub', hl⟩ := ih hs₁ h
    refine ⟨hs', List.Subset.trans hsub hsub', ?_⟩
    intro b hb
    rcases List.mem_cons.mp hb with rfl | hb
    · exact hmono b s₁ s' hsub' ha
    · exact hl b hb

@[simp] theorem error_bind {e : ε} {f : α → Except ε β} :
    ((.error e : Except ε α) >>= f) = .error e := rfl

theorem rejectIf_of {ε : Type} {c : Prop} [Decidable c] {e : ε} (h : c) :
    rejectIf c e = .error e :=
  if_pos h

theorem rejectIf_of_not {ε : Type} {c : Prop} [Decidable c] {e : ε} (h : ¬ c) :
    rejectIf c e = .ok () :=
  rejectIf_eq_ok.mpr h

/-- The result of a run known to succeed. -/
def okValue (x : Except ε α) (h : x.isOk = true) : α :=
  match x, h with
  | .ok a, _ => a

theorem eq_okValue {x : Except ε α} (h : x.isOk = true) : x = .ok (okValue x h) := by
  cases x with
  | ok a => rfl
  | error e => cases h

/-- The error of a computation that failed. -/
def errorOf : Except ε α → Option ε
  | .ok _ => none
  | .error e => some e

theorem errorOf_eq_some {x : Except ε α} {e : ε} : errorOf x = some e ↔ x = .error e := by
  cases x <;> simp [errorOf]

end EarlyExit

/-! ### Rounding up -/

/-- Rounding a quotient up adds one exactly when there is a remainder. -/
theorem ceilDiv_eq_div_add (p : Nat) {d : Nat} (hd : d ≠ 0) :
    p ⌈/⌉ d = p / d + if p % d = 0 then 0 else 1 := by
  have hp := Nat.div_add_mod p d
  have hlt := Nat.mod_lt p (Nat.pos_of_ne_zero hd)
  rw [Nat.ceilDiv_eq_add_pred_div]
  split
  · have e : p + d - 1 = (d - 1) + d * (p / d) := by omega
    rw [e, Nat.add_mul_div_left _ _ (by omega), Nat.div_eq_of_lt (by omega)]
    omega
  · have e : p + d - 1 = (p % d - 1) + d * (p / d + 1) := by
      rw [Nat.mul_add]
      omega
    rw [e, Nat.add_mul_div_left _ _ (by omega), Nat.div_eq_of_lt (by omega)]
    omega

/-! ### Unsigned integers -/

section Unsigned

variable {w : Nat}

/-- `uN::checked_add`. -/
def checkedAdd (a b : BitVec w) : Option (BitVec w) :=
  if a.uaddOverflow b then none else some (a + b)

/-- `uN::checked_sub`. -/
def checkedSub (a b : BitVec w) : Option (BitVec w) :=
  if a.usubOverflow b then none else some (a - b)

/-- `uN::checked_mul`. -/
def checkedMul (a b : BitVec w) : Option (BitVec w) :=
  if a.umulOverflow b then none else some (a * b)

/-- `uN::checked_pow`. -/
def checkedPow (a : BitVec w) (n : Nat) : Option (BitVec w) :=
  if a.toNat ^ n < 2 ^ w then some (BitVec.ofNat w (a.toNat ^ n)) else none

/-- `uN::try_from`, from a wider unsigned integer. -/
def tryFrom (w : Nat) {v : Nat} (a : BitVec v) : Option (BitVec w) :=
  if a.toNat < 2 ^ w then some (BitVec.ofNat w a.toNat) else none

theorem eq_zero_iff {a : BitVec w} : a = 0 ↔ a.toNat = 0 := by
  rw [← BitVec.toNat_inj]
  simp

/-- `Ord::max` on unsigned integers. -/
def umax (a b : BitVec w) : BitVec w := if a ≤ b then b else a

@[simp] theorem toNat_umax (a b : BitVec w) : (umax a b).toNat = max a.toNat b.toNat := by
  simp only [umax, BitVec.le_def]
  split <;> omega

theorem checkedAdd_eq_some {a b c : BitVec w} :
    checkedAdd a b = some c ↔ c.toNat = a.toNat + b.toNat := by
  have hc := c.isLt
  simp only [checkedAdd, BitVec.uaddOverflow, ge_iff_le, decide_eq_true_eq]
  split
  · constructor
    · intro h; cases h
    · intro h; omega
  · rw [Option.some.injEq, ← BitVec.toNat_inj, BitVec.toNat_add, Nat.mod_eq_of_lt (by omega)]
    exact eq_comm

theorem checkedSub_eq_some {a b c : BitVec w} :
    checkedSub a b = some c ↔ c.toNat + b.toNat = a.toNat := by
  have ha := a.isLt
  simp only [checkedSub, BitVec.usubOverflow, decide_eq_true_eq]
  split
  · constructor
    · intro h; cases h
    · intro h; omega
  · rw [Option.some.injEq, ← BitVec.toNat_inj,
      BitVec.toNat_sub_of_le (BitVec.le_def.mpr (by omega))]
    omega

theorem checkedMul_eq_some {a b c : BitVec w} :
    checkedMul a b = some c ↔ c.toNat = a.toNat * b.toNat := by
  have hc := c.isLt
  simp only [checkedMul, BitVec.umulOverflow, ge_iff_le, decide_eq_true_eq]
  split
  · constructor
    · intro h; cases h
    · intro h; omega
  · rw [Option.some.injEq, ← BitVec.toNat_inj, BitVec.toNat_mul, Nat.mod_eq_of_lt (by omega)]
    exact eq_comm

theorem checkedPow_eq_some {a c : BitVec w} {n : Nat} :
    checkedPow a n = some c ↔ c.toNat = a.toNat ^ n := by
  have hc := c.isLt
  simp only [checkedPow]
  split
  · rename_i h
    rw [Option.some.injEq, ← BitVec.toNat_inj, BitVec.toNat_ofNat, Nat.mod_eq_of_lt h]
    exact eq_comm
  · constructor
    · intro h; cases h
    · intro h; omega

theorem tryFrom_eq_some {v : Nat} {a : BitVec v} {c : BitVec w} :
    tryFrom w a = some c ↔ c.toNat = a.toNat := by
  have hc := c.isLt
  simp only [tryFrom]
  split
  · rename_i h
    rw [Option.some.injEq, ← BitVec.toNat_inj, BitVec.toNat_ofNat, Nat.mod_eq_of_lt h]
    exact eq_comm
  · constructor
    · intro h; cases h
    · intro h; omega

/-- A number that fits is the value of a bit vector. -/
theorem exists_toNat_eq {n : Nat} (h : n < 2 ^ w) : ∃ a : BitVec w, a.toNat = n :=
  ⟨BitVec.ofNat w n, by rw [BitVec.toNat_ofNat, Nat.mod_eq_of_lt h]⟩

/-- A sum that fits is returned. -/
theorem exists_checkedAdd {a b : BitVec w} (h : a.toNat + b.toNat < 2 ^ w) :
    ∃ c, checkedAdd a b = some c ∧ c.toNat = a.toNat + b.toNat := by
  have hc : (BitVec.ofNat w (a.toNat + b.toNat)).toNat = a.toNat + b.toNat := by
    rw [BitVec.toNat_ofNat, Nat.mod_eq_of_lt h]
  exact ⟨_, checkedAdd_eq_some.mpr hc, hc⟩

/-- A difference that does not go below zero is returned. -/
theorem exists_checkedSub {a b : BitVec w} (h : b.toNat ≤ a.toNat) :
    ∃ c, checkedSub a b = some c ∧ c.toNat + b.toNat = a.toNat := by
  have ha := a.isLt
  have hc : (BitVec.ofNat w (a.toNat - b.toNat)).toNat = a.toNat - b.toNat := by
    rw [BitVec.toNat_ofNat, Nat.mod_eq_of_lt (by omega)]
  have hs : (BitVec.ofNat w (a.toNat - b.toNat)).toNat + b.toNat = a.toNat := by omega
  exact ⟨_, checkedSub_eq_some.mpr hs, hs⟩

/-- A product that fits is returned. -/
theorem exists_checkedMul {a b : BitVec w} (h : a.toNat * b.toNat < 2 ^ w) :
    ∃ c, checkedMul a b = some c ∧ c.toNat = a.toNat * b.toNat := by
  have hc : (BitVec.ofNat w (a.toNat * b.toNat)).toNat = a.toNat * b.toNat := by
    rw [BitVec.toNat_ofNat, Nat.mod_eq_of_lt h]
  exact ⟨_, checkedMul_eq_some.mpr hc, hc⟩

end Unsigned

/-! ### Signed integers -/

/-- `i64::checked_add`. -/
def checkedAddI (a b : Int64) : Option Int64 :=
  if -2 ^ 63 ≤ a.toInt + b.toInt ∧ a.toInt + b.toInt < 2 ^ 63 then
    some (Int64.ofInt (a.toInt + b.toInt))
  else none

/-- `i64::checked_sub`. -/
def checkedSubI (a b : Int64) : Option Int64 :=
  if -2 ^ 63 ≤ a.toInt - b.toInt ∧ a.toInt - b.toInt < 2 ^ 63 then
    some (Int64.ofInt (a.toInt - b.toInt))
  else none

/-- `i64::saturating_sub`. -/
def saturatingSubI (a b : Int64) : Int64 :=
  Int64.ofInt (max (-2 ^ 63) (min (2 ^ 63 - 1) (a.toInt - b.toInt)))

/-- `i64::saturating_add`. -/
def saturatingAddI (a b : Int64) : Int64 :=
  Int64.ofInt (max (-2 ^ 63) (min (2 ^ 63 - 1) (a.toInt + b.toInt)))

/-- `i32::checked_add`. -/
def checkedAddI32 (a b : Int32) : Option Int32 :=
  if -2 ^ 31 ≤ a.toInt + b.toInt ∧ a.toInt + b.toInt < 2 ^ 31 then
    some (Int32.ofInt (a.toInt + b.toInt))
  else none

/-- `i32::checked_abs`. -/
def checkedAbsI32 (a : Int32) : Option Int32 :=
  if a.toInt = -2 ^ 31 then none else some (Int32.ofInt |a.toInt|)

/-- `Ord::max` on `i64`. -/
def imax (a b : Int64) : Int64 := if a ≤ b then b else a

/-- `Ord::min` on `i64`. -/
def imin (a b : Int64) : Int64 := if a ≤ b then a else b

/-- `uN::try_from`, from a signed integer. -/
def tryFromI (w : Nat) (a : Int64) : Option (BitVec w) :=
  if 0 ≤ a.toInt ∧ a.toInt.toNat < 2 ^ w then some (BitVec.ofNat w a.toInt.toNat) else none

theorem toInt_ofInt_of_fits {x : Int} (h : -2 ^ 63 ≤ x ∧ x < 2 ^ 63) :
    (Int64.ofInt x).toInt = x :=
  Int64.toInt_ofInt_of_le h.1 h.2

@[simp] theorem toInt_imax (a b : Int64) : (imax a b).toInt = max a.toInt b.toInt := by
  simp only [imax, Int64.le_iff_toInt_le]
  split <;> omega

@[simp] theorem toInt_imin (a b : Int64) : (imin a b).toInt = min a.toInt b.toInt := by
  simp only [imin, Int64.le_iff_toInt_le]
  split <;> omega

theorem toInt_saturatingSubI (a b : Int64) :
    (saturatingSubI a b).toInt = max (-2 ^ 63) (min (2 ^ 63 - 1) (a.toInt - b.toInt)) := by
  rw [saturatingSubI, toInt_ofInt_of_fits (by omega)]

theorem toInt_saturatingAddI (a b : Int64) :
    (saturatingAddI a b).toInt = max (-2 ^ 63) (min (2 ^ 63 - 1) (a.toInt + b.toInt)) := by
  rw [saturatingAddI, toInt_ofInt_of_fits (by omega)]

theorem checkedAddI32_eq_some {a b c : Int32} :
    checkedAddI32 a b = some c ↔ c.toInt = a.toInt + b.toInt := by
  have h1 := c.le_toInt
  have h2 := c.toInt_lt
  simp only [checkedAddI32]
  split
  · rename_i h
    rw [Option.some.injEq, ← Int32.toInt_inj, Int32.toInt_ofInt_of_le h.1 h.2]
    exact eq_comm
  · constructor
    · intro h; cases h
    · intro h; omega

theorem checkedAbsI32_eq_some {a c : Int32} : checkedAbsI32 a = some c ↔ c.toInt = |a.toInt| := by
  have h1 := a.le_toInt
  have h2 := a.toInt_lt
  have h3 := c.toInt_lt
  simp only [checkedAbsI32]
  split
  · constructor
    · intro h; cases h
    · intro h
      rw [abs_of_nonpos (by omega)] at h
      omega
  · have hfit : -2 ^ 31 ≤ |a.toInt| ∧ |a.toInt| < 2 ^ 31 := by
      rcases abs_cases a.toInt with ⟨habs, _⟩ | ⟨habs, _⟩ <;> omega
    rw [Option.some.injEq, ← Int32.toInt_inj, Int32.toInt_ofInt_of_le hfit.1 hfit.2]
    exact eq_comm

theorem checkedAddI_eq_some {a b c : Int64} :
    checkedAddI a b = some c ↔ c.toInt = a.toInt + b.toInt := by
  have h1 := c.le_toInt
  have h2 := c.toInt_lt
  simp only [checkedAddI]
  split
  · rename_i h
    rw [Option.some.injEq, ← Int64.toInt_inj, toInt_ofInt_of_fits h]
    exact eq_comm
  · constructor
    · intro h; cases h
    · intro h; omega

theorem checkedSubI_eq_some {a b c : Int64} :
    checkedSubI a b = some c ↔ c.toInt = a.toInt - b.toInt := by
  have h1 := c.le_toInt
  have h2 := c.toInt_lt
  simp only [checkedSubI]
  split
  · rename_i h
    rw [Option.some.injEq, ← Int64.toInt_inj, toInt_ofInt_of_fits h]
    exact eq_comm
  · constructor
    · intro h; cases h
    · intro h; omega

theorem tryFromI_eq_some {w : Nat} {a : Int64} {c : BitVec w} :
    tryFromI w a = some c ↔ (c.toNat : Int) = a.toInt := by
  have hc := c.isLt
  simp only [tryFromI]
  split
  · rename_i h
    rw [Option.some.injEq, ← BitVec.toNat_inj, BitVec.toNat_ofNat, Nat.mod_eq_of_lt h.2]
    omega
  · constructor
    · intro h; cases h
    · intro h; omega

end Roshi.Lib

import Mathlib.Tactic

/-!
# Self-delimiting codecs

A codec writes values as words over an alphabet, some values perhaps not at all, and reads
them back off the front of a string.  Its law is an equivalence: what is read off the front
of a string is what was written there, and the rest follows.  So a codec never reads a word
it would not write, two values never share a word, and no word continues another
(`Codec.eq_of_append`).

The law composes.  `prod` writes one value after the other, `refine` changes the type along a
partial bijection (a record for a tuple, an enumeration for its tags), `vector` repeats, and
`depend` reads what an earlier value announces.  `decodeExact` also asks that nothing follows.
-/

namespace Roshi.Lib

variable {σ α β : Type}

structure Codec (σ α : Type) where
  encode : α → Option (List σ)
  decode : List σ → Option (α × List σ)
  /-- Reading inverts writing, whatever follows. -/
  decode_eq_some : ∀ {l : List σ} {a : α} {rest : List σ},
    decode l = some (a, rest) ↔ ∃ w, encode a = some w ∧ l = w ++ rest

namespace Codec

/-! ### What the law says -/

theorem decode_append (c : Codec σ α) {a : α} {w : List σ} (h : c.encode a = some w)
    (rest : List σ) : c.decode (w ++ rest) = some (a, rest) :=
  c.decode_eq_some.mpr ⟨w, h, rfl⟩

/-- **No word continues another**: two words on the front of one string are one. -/
theorem eq_of_append (c : Codec σ α) {a b : α} {w w' s t : List σ} (ha : c.encode a = some w)
    (hb : c.encode b = some w') (h : w ++ s = w' ++ t) : a = b ∧ s = t := by
  have hread := c.decode_append ha s
  rw [h, c.decode_append hb t] at hread
  obtain ⟨rfl, rfl⟩ := Prod.mk.inj (Option.some.inj hread)
  exact ⟨rfl, rfl⟩

/-- Read a whole string. -/
def decodeExact (c : Codec σ α) (l : List σ) : Option α :=
  match c.decode l with
  | some (a, []) => some a
  | _ => none

theorem decodeExact_eq_some (c : Codec σ α) {l : List σ} {a : α} :
    c.decodeExact l = some a ↔ c.encode a = some l := by
  constructor
  · intro h
    rw [decodeExact] at h
    split at h
    · rename_i b hread
      cases h
      obtain ⟨w, hw, rfl⟩ := c.decode_eq_some.mp hread
      rwa [List.append_nil]
    · cases h
  · intro h
    have hread := c.decode_append h []
    rw [List.append_nil] at hread
    rw [decodeExact, hread]

/-! ### Building codecs -/

/-- Nothing to write. -/
def unit : Codec σ Unit where
  encode _ := some []
  decode l := some ((), l)
  decode_eq_some := by
    intro l a rest
    simp only [Option.some.injEq, Prod.mk.injEq, true_and, exists_eq_left', List.nil_append]

/-- One symbol. -/
def single : Codec σ σ where
  encode s := some [s]
  decode
    | [] => none
    | s :: l => some (s, l)
  decode_eq_some := by
    intro l a rest
    cases l with
    | nil => simp
    | cons s l => simp [Prod.mk.injEq]

/-- One value after the other. -/
def prod (c : Codec σ α) (d : Codec σ β) : Codec σ (α × β) where
  encode p := (c.encode p.1).bind fun w => (d.encode p.2).map (w ++ ·)
  decode l := (c.decode l).bind fun r => (d.decode r.2).map fun r' => ((r.1, r'.1), r'.2)
  decode_eq_some := by
    rintro l ⟨a, b⟩ rest
    simp only [Option.bind_eq_some_iff, Option.map_eq_some_iff, Prod.mk.injEq, Prod.exists]
    constructor
    · rintro ⟨_, l', hc, _, _, hd, ⟨rfl, rfl⟩, rfl⟩
      obtain ⟨w, hw, rfl⟩ := c.decode_eq_some.mp hc
      obtain ⟨w', hw', rfl⟩ := d.decode_eq_some.mp hd
      exact ⟨w ++ w', ⟨w, hw, w', hw', rfl⟩, (List.append_assoc w w' _).symm⟩
    · rintro ⟨_, ⟨w, hw, w', hw', rfl⟩, rfl⟩
      rw [List.append_assoc]
      exact ⟨a, w' ++ rest, c.decode_append hw _, b, rest, d.decode_append hw' rest, ⟨rfl, rfl⟩, rfl⟩

/-- The same words for the values of another type. -/
def refine (c : Codec σ α) (toFun : β → Option α) (ofFun : α → Option β)
    (h : ∀ a b, toFun b = some a ↔ ofFun a = some b) : Codec σ β where
  encode b := (toFun b).bind c.encode
  decode l := (c.decode l).bind fun r => (ofFun r.1).map fun b => (b, r.2)
  decode_eq_some := by
    intro l b rest
    simp only [Option.bind_eq_some_iff, Option.map_eq_some_iff, Prod.exists, Prod.mk.injEq]
    constructor
    · rintro ⟨a, _, hread, _, hof, rfl, rfl⟩
      obtain ⟨w, hw, rfl⟩ := c.decode_eq_some.mp hread
      exact ⟨w, ⟨a, (h a _).mpr hof, hw⟩, rfl⟩
    · rintro ⟨w, ⟨a, hto, hw⟩, rfl⟩
      exact ⟨a, rest, c.decode_append hw rest, b, (h a b).mp hto, rfl, rfl⟩

/-- Along a bijection. -/
def equiv (c : Codec σ α) (e : β ≃ α) : Codec σ β :=
  c.refine (fun b => some (e b)) (fun a => some (e.symm a)) fun a b => by
    rw [Option.some.injEq, Option.some.injEq, Equiv.symm_apply_eq]
    exact eq_comm

/-- A list of a known length, element by element. -/
def count (c : Codec σ α) : Nat → Codec σ (List α)
  | 0 => unit.refine (fun l => if l.isEmpty then some () else none) (fun _ => some []) fun a l => by
      cases l <;> simp
  | n + 1 => (c.prod (c.count n)).refine
      (fun l => match l with
        | [] => none
        | a :: l => some (a, l))
      (fun p => some (p.1 :: p.2))
      fun p l => by
        obtain ⟨a, l'⟩ := p
        cases l with
        | nil => simp
        | cons b l => simp [Prod.mk.injEq, eq_comm]

/-- An array, element by element. -/
def vector (c : Codec σ α) (n : Nat) : Codec σ (Vector α n) :=
  (c.count n).refine (fun v => some v.toList)
    (fun l => if h : l.length = n then some ⟨l.toArray, by simpa using h⟩ else none)
    fun l v => by
      constructor
      · intro h
        cases h
        rw [dif_pos (by simp)]
        exact congrArg some (Vector.toList_inj.mp rfl)
      · intro h
        split at h
        · cases h
          simp
        · cases h

theorem length_of_encode_count (c : Codec σ α) {n : Nat} {l : List α} {w : List σ}
    (h : (c.count n).encode l = some w) : l.length = n := by
  induction n generalizing l w with
  | zero =>
    cases l with
    | nil => rfl
    | cons a l => cases h
  | succ n ih =>
    cases l with
    | nil => cases h
    | cons a l =>
      obtain ⟨_, -, hrest⟩ := Option.bind_eq_some_iff.mp h
      obtain ⟨_, htail, -⟩ := Option.map_eq_some_iff.mp hrest
      rw [List.length_cons, ih htail]

/-- A value behind what says how to read it, such as a list behind its length. -/
def depend (c : Codec σ α) (d : α → Codec σ β) (key : β → α)
    (h : ∀ {a b w}, (d a).encode b = some w → key b = a) : Codec σ β where
  encode b := (c.encode (key b)).bind fun w => ((d (key b)).encode b).map (w ++ ·)
  decode l := (c.decode l).bind fun r => (d r.1).decode r.2
  decode_eq_some := by
    intro l b rest
    simp only [Option.bind_eq_some_iff, Option.map_eq_some_iff, Prod.exists]
    constructor
    · rintro ⟨a, _, hc, hd⟩
      obtain ⟨w, hw, rfl⟩ := c.decode_eq_some.mp hc
      obtain ⟨w', hw', rfl⟩ := (d a).decode_eq_some.mp hd
      obtain rfl := h hw'
      exact ⟨w ++ w', ⟨w, hw, w', hw', rfl⟩, (List.append_assoc w w' rest).symm⟩
    · rintro ⟨_, ⟨w, hw, w', hw', rfl⟩, rfl⟩
      rw [List.append_assoc]
      exact ⟨key b, w' ++ rest, c.decode_append hw _, (d _).decode_append hw' rest⟩

end Codec

end Roshi.Lib

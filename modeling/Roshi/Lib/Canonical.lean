import Roshi.Lib.Checked

/-!
# Canonical codes

An encoder and a decoder that both may fail.  They form a canonical code when the decoder
accepts exactly the codewords and returns what was encoded: each value that has a codeword
has one accepted codeword.  A code of single values extends to lists of them
(`CanonicalCode.mapM`).
-/

namespace Roshi.Lib

universe u

variable {α β ε ε' : Type u}

/-- `dec` undoes `enc`, and accepts nothing else. -/
def CanonicalCode (enc : α → Except ε β) (dec : β → Except ε' α) : Prop :=
  ∀ a b, enc a = .ok b ↔ dec b = .ok a

namespace CanonicalCode

variable {enc : α → Except ε β} {dec : β → Except ε' α}

theorem decodes (h : CanonicalCode enc dec) {a : α} {b : β} (he : enc a = .ok b) : dec b = .ok a :=
  (h a b).mp he

theorem encodes (h : CanonicalCode enc dec) {a : α} {b : β} (hd : dec b = .ok a) : enc a = .ok b :=
  (h a b).mpr hd

/-- What the decoder accepts is what the encoder produces. -/
theorem accepts_iff (h : CanonicalCode enc dec) (b : β) :
    (∃ a, dec b = .ok a) ↔ ∃ a, enc a = .ok b :=
  exists_congr fun a => (h a b).symm

/-- Two accepted codewords of one value are the same. -/
theorem unique (h : CanonicalCode enc dec) {a : α} {b b' : β} (hd : dec b = .ok a)
    (hd' : dec b' = .ok a) : b = b' := by
  have he := h.encodes hd
  rw [h.encodes hd'] at he
  exact (Except.ok.inj he).symm

/-- **Lists**: coding the elements one by one is canonical again. -/
theorem mapM (h : CanonicalCode enc dec) :
    CanonicalCode (fun l : List α => l.mapM enc) fun l : List β => l.mapM dec := by
  intro as bs
  rw [mapM_eq_ok, mapM_eq_ok]
  constructor
  · intro hall
    exact (hall.imp fun _ _ he => h.decodes he).flip
  · intro hall
    exact (hall.imp fun _ _ hd => h.encodes hd).flip

end CanonicalCode

/-- An encoder that never fails maps over a list. -/
theorem mapM_ok_eq_map (f : α → β) (l : List α) :
    (l.mapM fun a => (.ok (f a) : Except ε β)) = .ok (l.map f) := by
  rw [mapM_eq_ok]
  induction l with
  | nil => exact .nil
  | cons a l ih => exact .cons rfl ih

end Roshi.Lib

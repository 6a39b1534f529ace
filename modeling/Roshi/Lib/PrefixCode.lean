import Mathlib.Tactic

/-!
# Prefix codes

A code is a prefix code when a codeword is recognised whatever follows it.  Codes of one
length are prefix codes, records are taken apart one codeword at a time
(`PrefixCode.append_inj`), and a sequence of codewords with no framing around it is read
back uniquely (`PrefixCode.flatMap_injective`).
-/

namespace Roshi.Lib

variable {α β : Type*}

/-- Two codewords that start the same string are one. -/
def PrefixCode (enc : α → List β) : Prop :=
  ∀ ⦃a b : α⦄ ⦃s t : List β⦄, enc a ++ s = enc b ++ t → a = b

namespace PrefixCode

variable {enc : α → List β}

/-- What follows the codeword is then the same too. -/
theorem append_inj (h : PrefixCode enc) {a b : α} {s t : List β} (he : enc a ++ s = enc b ++ t) :
    a = b ∧ s = t := by
  obtain rfl := h he
  exact ⟨rfl, List.append_cancel_left he⟩

/-- Injective, and all codewords of one length. -/
theorem of_length (hinj : Function.Injective enc)
    (hlen : ∀ a b, (enc a).length = (enc b).length) : PrefixCode enc := by
  intro a b s t he
  exact hinj (List.append_inj_left he (hlen a b))

/-- A single symbol. -/
theorem singleton : PrefixCode fun b : β => [b] := by
  intro a b s t he
  exact (List.cons.inj he).1

/-- **Unique decoding.**  A concatenation of non-empty codewords determines them. -/
theorem flatMap_injective (h : PrefixCode enc) (hne : ∀ a, enc a ≠ []) :
    Function.Injective fun l : List α => l.flatMap enc := by
  intro l
  induction l with
  | nil =>
    intro l' he
    cases l' with
    | nil => rfl
    | cons b l' =>
      have hnil : enc b ++ l'.flatMap enc = [] := he.symm
      exact (hne b (List.append_eq_nil_iff.mp hnil).1).elim
  | cons a l ih =>
    intro l' he
    cases l' with
    | nil =>
      have hnil : enc a ++ l.flatMap enc = [] := he
      exact (hne a (List.append_eq_nil_iff.mp hnil).1).elim
    | cons b l' =>
      have hcons : enc a ++ l.flatMap enc = enc b ++ l'.flatMap enc := he
      obtain ⟨rfl, hrest⟩ := h.append_inj hcons
      rw [ih hrest]

end PrefixCode

end Roshi.Lib

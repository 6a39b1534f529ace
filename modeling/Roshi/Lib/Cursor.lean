import Mathlib.Tactic

/-!
# Readers behind a cursor

A reader takes the position of a cursor in some data and returns a value and the position
after it, or fails.  What it accepts is a grammar: which words spell which values.
`Cursor.Reads data r G` says that `r` reads exactly the words of `G`, wherever the cursor
stands.

A sequence of readers reads the words of the first followed by words of the second
(`Reads.bind`), so the grammar of a parser follows the parser's text, and a field whose
length varies moves the later ones without any bookkeeping of offsets.
-/

namespace Roshi.Lib

variable {σ α β : Type}

/-- A reader: from a position to a value and the next position. -/
abbrev Cursor (α : Type) := StateT Nat Option α

namespace Cursor

/-- `r` reads a value at the cursor exactly when a word for it in `G` stands there, and moves
behind the word. -/
def Reads (data : List σ) (r : Cursor α) (G : α → List σ → Prop) : Prop :=
  ∀ offset a offset', offset ≤ data.length →
    (r offset = some (a, offset') ↔
      ∃ w rest, G a w ∧ data.drop offset = w ++ rest ∧ offset' = offset + w.length)

namespace Reads

variable {data : List σ} {r : Cursor α} {G : α → List σ → Prop}

/-- A word that stands at a position ends within the data. -/
theorem end_le {offset : Nat} {w rest : List σ} (hle : offset ≤ data.length)
    (h : data.drop offset = w ++ rest) : offset + w.length ≤ data.length := by
  have hlen := congrArg List.length h
  rw [List.length_drop, List.length_append] at hlen
  omega

/-- Behind it stands what follows. -/
theorem drop_end {offset : Nat} {w rest : List σ} (h : data.drop offset = w ++ rest) :
    data.drop (offset + w.length) = rest := by
  rw [← List.drop_drop, h, List.drop_left]

/-- The empty word. -/
theorem pure (a : α) : Reads data (Pure.pure a) fun b w => b = a ∧ w = [] := by
  intro offset b offset' _
  constructor
  · intro h
    cases h
    exact ⟨[], data.drop offset, ⟨rfl, rfl⟩, rfl, rfl⟩
  · rintro ⟨_, rest, ⟨rfl, rfl⟩, -, rfl⟩
    rfl

/-- No word. -/
theorem failure : Reads data (Alternative.failure : Cursor α) fun _ _ => False := by
  intro offset a offset' _
  constructor
  · intro h
    cases h
  · rintro ⟨_, _, h, -⟩
    exact h.elim

/-- **One reader after the other.** -/
theorem bind {s : α → Cursor β} {H : α → β → List σ → Prop} (hr : Reads data r G)
    (hs : ∀ a, Reads data (s a) (H a)) :
    Reads data (r >>= s) fun b w => ∃ a w₁ w₂, G a w₁ ∧ H a b w₂ ∧ w = w₁ ++ w₂ := by
  intro offset b offset' hle
  show (r offset).bind (fun p => s p.1 p.2) = some (b, offset') ↔ _
  rw [Option.bind_eq_some_iff]
  constructor
  · rintro ⟨⟨a, mid⟩, h₁, h₂⟩
    obtain ⟨w₁, rest, hG, hdrop, rfl⟩ := (hr offset a mid hle).mp h₁
    obtain ⟨w₂, rest', hH, hdrop', rfl⟩ := (hs a _ b offset' (end_le hle hdrop)).mp h₂
    refine ⟨w₁ ++ w₂, rest', ⟨a, w₁, w₂, hG, hH, rfl⟩, ?_, ?_⟩
    · rw [hdrop, List.append_assoc, ← hdrop', drop_end hdrop]
    · rw [List.length_append, Nat.add_assoc]
  · rintro ⟨_, rest, ⟨a, w₁, w₂, hG, hH, rfl⟩, hdrop, rfl⟩
    rw [List.append_assoc] at hdrop
    refine ⟨(a, offset + w₁.length), (hr offset a _ hle).mpr ⟨w₁, _, hG, hdrop, rfl⟩, ?_⟩
    refine (hs a _ b _ (end_le hle hdrop)).mpr ⟨w₂, rest, hH, drop_end hdrop, ?_⟩
    rw [List.length_append, Nat.add_assoc]

/-- A reader of one spelling of each value, then another reader. -/
theorem field {enc : α → List σ} {s : α → Cursor β} {H : α → β → List σ → Prop}
    (hr : Reads data r fun a w => w = enc a) (hs : ∀ a, Reads data (s a) (H a)) :
    Reads data (r >>= s) fun b w => ∃ a w', H a b w' ∧ w = enc a ++ w' := by
  intro offset b offset' hle
  rw [hr.bind hs offset b offset' hle]
  constructor
  · rintro ⟨w, rest, ⟨a, _, w', rfl, hH, rfl⟩, hdrop, hoffset⟩
    exact ⟨_, rest, ⟨a, w', hH, rfl⟩, hdrop, hoffset⟩
  · rintro ⟨w, rest, ⟨a, w', hH, rfl⟩, hdrop, hoffset⟩
    exact ⟨_, rest, ⟨a, _, w', rfl, hH, rfl⟩, hdrop, hoffset⟩

/-- The empty word, for a value computed from what was read, if there is one. -/
theorem lift (o : Option α) :
    Reads data (liftM o : Cursor α) fun a w => o = some a ∧ w = [] := by
  cases o with
  | none =>
    intro offset a offset' _
    constructor
    · intro h
      cases h
    · rintro ⟨_, _, ⟨h, -⟩, -⟩
      cases h
  | some b =>
    intro offset a offset' hle
    refine (pure b offset a offset' hle).trans ?_
    simp only [Option.some.injEq, eq_comm]

/-- Grammars with the same words are read alike. -/
theorem congr {G' : α → List σ → Prop} (hr : Reads data r G) (h : ∀ a w, G a w ↔ G' a w) :
    Reads data r G' := by
  intro offset a offset' hle
  simp only [hr offset a offset' hle, h]

/-- Reading up to a renaming of the values. -/
theorem equiv {enc : α → List σ} (hr : Reads data r fun a w => w = enc a) (e : α ≃ β) :
    Reads data (r >>= fun a => Pure.pure (e a)) fun b w => w = enc (e.symm b) := by
  refine (hr.field fun a => pure (e a)).congr ?_
  intro b w
  constructor
  · rintro ⟨a, _, ⟨rfl, rfl⟩, rfl⟩
    rw [List.append_nil, e.symm_apply_apply]
  · rintro rfl
    exact ⟨e.symm b, [], ⟨(e.apply_symm_apply b).symm, rfl⟩, (List.append_nil _).symm⟩

end Reads

end Cursor

end Roshi.Lib

import Mathlib.Data.List.AList
import Mathlib.Tactic

/-!
# Totals over a table

A table is a finite map, Mathlib's `AList` at a constant type.  `total f` adds up
`f` over its rows.  Inserting a new row adds its value, erasing a row takes it
away (`total_insert`, `total_erase_add`), and erasing many distinct rows takes
away their sum (`total_eraseAll`).
-/

namespace Roshi.Lib

universe u v

variable {α : Type u} [DecidableEq α] {β : Type v}

/-- A finite map from `α` to `β`. -/
abbrev Table (α : Type u) (β : Type v) := AList fun _ : α => β

namespace Table

/-- The sum of `f` over all rows. -/
def total (f : β → Nat) (t : Table α β) : Nat := (t.entries.map fun e => f e.2).sum

/-- Erase the rows at `keys`. -/
def eraseAll (t : Table α β) (keys : List α) : Table α β := keys.foldl (fun t k => t.erase k) t

variable {t : Table α β} {f : β → Nat} {k k' : α} {v : β} {ks : List α}

omit [DecidableEq α] in
@[simp] theorem total_empty : total f (∅ : Table α β) = 0 := rfl

theorem total_insert (h : t.lookup k = none) : total f (t.insert k v) = f v + total f t := by
  rw [total, AList.entries_insert_of_notMem (AList.lookup_eq_none.mp h), List.map_cons,
    List.sum_cons]
  rfl

theorem total_erase_add (h : t.lookup k = some v) : total f (t.erase k) + f v = total f t := by
  have hk : k ∈ t.keys := AList.mem_keys.mp (AList.lookup_isSome.mp (by rw [h]; rfl))
  obtain ⟨b, l₁, l₂, hnot, hl, he⟩ := List.exists_of_kerase hk
  have hb : b = v := by
    have hlook : (l₁ ++ ⟨k, b⟩ :: l₂).dlookup k = some v := hl ▸ h
    rw [List.dlookup_append, List.dlookup_eq_none.mpr hnot, List.dlookup_cons_eq] at hlook
    exact Option.some.inj hlook
  subst hb
  have he' : (t.erase k).entries = l₁ ++ l₂ := he
  rw [total, total, he', hl]
  simp only [List.map_append, List.map_cons, List.sum_append, List.sum_cons]
  omega

/-- A row put in and taken out again. -/
theorem erase_insert (h : t.lookup k = none) : (t.insert k v).erase k = t := by
  refine AList.ext ?_
  rw [AList.insert_of_notMem (AList.lookup_eq_none.mp h)]
  exact List.kerase_cons_eq rfl

/-- A row of a table with one more is that one or an old one. -/
theorem lookup_of_insert {u : β} (h : (t.insert k v).lookup k' = some u) :
    k' = k ∧ u = v ∨ k' ≠ k ∧ t.lookup k' = some u := by
  rcases eq_or_ne k' k with rfl | hk
  · rw [AList.lookup_insert] at h
    exact .inl ⟨rfl, (Option.some.inj h).symm⟩
  · rw [AList.lookup_insert_ne hk] at h
    exact .inr ⟨hk, h⟩

theorem lookup_of_erase (h : (t.erase k).lookup k' = some v) :
    k' ≠ k ∧ t.lookup k' = some v := by
  rcases eq_or_ne k' k with rfl | hk
  · rw [AList.lookup_erase] at h
    cases h
  · rw [AList.lookup_erase_ne hk] at h
    exact ⟨hk, h⟩

@[simp] theorem eraseAll_nil : eraseAll t [] = t := rfl

theorem eraseAll_cons : eraseAll t (k :: ks) = eraseAll (t.erase k) ks := rfl

theorem lookup_eraseAll_of_notMem (h : k ∉ ks) : (eraseAll t ks).lookup k = t.lookup k := by
  induction ks generalizing t with
  | nil => rfl
  | cons k' ks ih =>
    rw [List.mem_cons, not_or] at h
    rw [eraseAll_cons, ih h.2, AList.lookup_erase_ne h.1]

theorem lookup_eraseAll_of_mem (h : k ∈ ks) : (eraseAll t ks).lookup k = none := by
  induction ks generalizing t with
  | nil => cases h
  | cons k' ks ih =>
    rw [eraseAll_cons]
    by_cases hk : k ∈ ks
    · exact ih hk
    · rcases List.mem_cons.mp h with rfl | h
      · rw [lookup_eraseAll_of_notMem hk, AList.lookup_erase]
      · exact (hk h).elim

/-- A row that survives an erasure was there before. -/
theorem lookup_of_eraseAll (h : (eraseAll t ks).lookup k = some v) :
    k ∉ ks ∧ t.lookup k = some v := by
  by_cases hk : k ∈ ks
  · rw [lookup_eraseAll_of_mem hk] at h
    cases h
  · rw [lookup_eraseAll_of_notMem hk] at h
    exact ⟨hk, h⟩

/-- **Erasing distinct rows takes away their sum.** -/
theorem total_eraseAll {rows : List (α × β)} (hnd : (rows.map Prod.fst).Nodup)
    (h : ∀ r ∈ rows, t.lookup r.1 = some r.2) :
    total f (eraseAll t (rows.map Prod.fst)) + (rows.map fun r => f r.2).sum = total f t := by
  induction rows generalizing t with
  | nil => rfl
  | cons r rows ih =>
    rw [List.map_cons, List.nodup_cons] at hnd
    have hrest : ∀ r' ∈ rows, (t.erase r.1).lookup r'.1 = some r'.2 := by
      intro r' hr'
      have hne : r'.1 ≠ r.1 := fun he => hnd.1 (he ▸ List.mem_map_of_mem hr')
      rw [AList.lookup_erase_ne hne]
      exact h r' (List.mem_cons_of_mem _ hr')
    have hfirst := total_erase_add (f := f) (h r List.mem_cons_self)
    have := ih hnd.2 hrest
    rw [List.map_cons, eraseAll_cons, List.map_cons, List.sum_cons]
    omega

end Table

end Roshi.Lib

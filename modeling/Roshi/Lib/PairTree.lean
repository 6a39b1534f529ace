import Mathlib.Data.List.Basic
import Mathlib.Tactic

/-!
# Trees of pairs with promotion

A list is combined two by two, level after level, until one value is left; the last value
of an odd level is promoted as it is.  `levels` is every level from the list up, `path` the
siblings met on the way up from one position.

With a commutative combination a path needs no directions.  Folding it from its value
gives the top (`foldl_path`), and whatever is closed under going down a combination holds of
a value once it holds of any fold from it (`of_foldl`).
-/

namespace Roshi.Lib.PairTree

variable {α : Type} (node : α → α → α)

/-! ### Levels -/

/-- One level up. -/
def pairUp : List α → List α
  | left :: right :: rest => node left right :: pairUp rest
  | [single] => [single]
  | [] => []

/-- The pairs combined on the way one level up. -/
def pairs : List α → List (α × α)
  | left :: right :: rest => (left, right) :: pairs rest
  | [_] => []
  | [] => []

theorem length_pairUp (l : List α) : (pairUp node l).length = (l.length + 1) / 2 := by
  induction l using pairUp.induct with
  | case1 left right rest ih =>
    rw [pairUp, List.length_cons, ih, List.length_cons, List.length_cons]
    omega
  | case2 single => simp [pairUp]
  | case3 => simp [pairUp]

theorem length_pairUp_lt {l : List α} (h : 1 < l.length) : (pairUp node l).length < l.length := by
  rw [length_pairUp]
  omega

theorem pairUp_ne_nil {l : List α} (h : 1 < l.length) : pairUp node l ≠ [] := by
  rw [← List.length_pos_iff_ne_nil, length_pairUp]
  omega

/-- Every level, from the list up to the one of at most one value. -/
def levels (l : List α) : List (List α) :=
  if _ : 1 < l.length then l :: levels (pairUp node l) else [l]
termination_by l.length
decreasing_by exact length_pairUp_lt node ‹_›

/-- Every pair combined on the way to the top. -/
def built (l : List α) : List (α × α) :=
  if _ : 1 < l.length then pairs l ++ built (pairUp node l) else []
termination_by l.length
decreasing_by exact length_pairUp_lt node ‹_›

/-- Where the other half of a position's pair stands. -/
def siblingIndex (index : Nat) : Nat := if index % 2 = 0 then index + 1 else index - 1

/-- The siblings on the way up from `index`; a promoted value meets none. -/
def path : List (List α) → Nat → List α
  | [], _ => []
  | layer :: rest, index =>
    if layer.length ≤ 1 then []
    else match layer[siblingIndex index]? with
      | some sibling => sibling :: path rest (index / 2)
      | none => path rest (index / 2)

/-- The pairs a fold combines. -/
def trail : α → List α → List (α × α)
  | _, [] => []
  | value, sibling :: rest => (value, sibling) :: trail (node value sibling) rest

/-! ### Going up -/

variable {node}

theorem siblingIndex_add_two (index : Nat) : siblingIndex (index + 2) = siblingIndex index + 2 := by
  unfold siblingIndex
  rw [Nat.add_mod_right]
  split
  · rfl
  · omega

/-- **One level up** a value is combined with its sibling, or promoted. -/
theorem getElem?_pairUp (comm : ∀ a b, node a b = node b a) {l : List α} {i : Nat} {d : α}
    (hd : l[i]? = some d) :
    (pairUp node l)[i / 2]? = some (match l[siblingIndex i]? with
      | some sibling => node d sibling
      | none => d) := by
  induction l using pairUp.induct generalizing i with
  | case1 left right rest ih =>
    match i with
    | 0 =>
      cases hd
      rfl
    | 1 =>
      cases hd
      exact congrArg some (comm _ _)
    | i + 2 =>
      rw [List.getElem?_cons_succ, List.getElem?_cons_succ] at hd
      rw [pairUp, siblingIndex_add_two, Nat.add_div_right i (by decide), List.getElem?_cons_succ,
        List.getElem?_cons_succ, List.getElem?_cons_succ]
      exact ih hd
  | case2 single =>
    match i with
    | 0 =>
      cases hd
      rfl
    | i + 1 => cases hd
  | case3 => cases hd

/-- The top is a single value. -/
theorem getLast?_levels {l : List α} (h : l ≠ []) :
    ∃ top, (levels node l).getLast? = some [top] := by
  induction l using levels.induct node with
  | case1 l hlt ih =>
    obtain ⟨top, htop⟩ := ih (pairUp_ne_nil node hlt)
    rw [levels, dif_pos hlt, List.getLast?_cons, htop]
    exact ⟨top, rfl⟩
  | case2 l hle =>
    obtain ⟨top, rfl⟩ : ∃ top, l = [top] := by
      rw [← List.length_eq_one_iff]
      have := List.length_pos_iff_ne_nil.mpr h
      omega
    rw [levels, dif_neg hle]
    exact ⟨top, rfl⟩

/-- **A path leads to the top.**  By induction on the levels: a step of the path is one level
up. -/
theorem foldl_path (comm : ∀ a b, node a b = node b a) {l : List α} {i : Nat} {d : α}
    (hd : l[i]? = some d) :
    (levels node l).getLast? = some [(path (levels node l) i).foldl node d] := by
  induction l using levels.induct node generalizing i d with
  | case1 l hlt ih =>
    have hup := getElem?_pairUp comm hd
    rw [levels, dif_pos hlt, List.getLast?_cons, path, if_neg (Nat.not_le.mpr hlt)]
    cases hs : l[siblingIndex i]? with
    | none =>
      rw [hs] at hup
      rw [ih hup]
      rfl
    | some sibling =>
      rw [hs] at hup
      rw [ih hup]
      rfl
  | case2 l hle =>
    have hi := (List.getElem?_eq_some_iff.mp hd).1
    obtain rfl : i = 0 := by omega
    obtain ⟨x, rfl⟩ : ∃ x, l = [x] := by
      rw [← List.length_eq_one_iff]
      omega
    cases hd
    rw [levels, dif_neg hle]
    rfl

/-- No longer than the levels below the top. -/
theorem length_path (l : List α) (i : Nat) :
    (path (levels node l) i).length + 1 ≤ (levels node l).length := by
  induction l using levels.induct node generalizing i with
  | case1 l hlt ih =>
    rw [levels, dif_pos hlt, path, if_neg (Nat.not_le.mpr hlt), List.length_cons]
    have := ih (i / 2)
    split
    · rw [List.length_cons]
      omega
    · omega
  | case2 l hle =>
    rw [levels, dif_neg hle, path, if_pos (Nat.not_lt.mp hle)]
    simp

/-! ### Going down -/

theorem mem_pairUp {l : List α} {d : α} (h : d ∈ pairUp node l) :
    d ∈ l ∨ ∃ p ∈ pairs l, d = node p.1 p.2 := by
  induction l using pairUp.induct with
  | case1 left right rest ih =>
    rw [pairUp] at h
    rcases List.mem_cons.mp h with rfl | h
    · exact .inr ⟨(left, right), List.mem_cons_self, rfl⟩
    · rcases ih h with hmem | ⟨p, hp, hd⟩
      · exact .inl (List.mem_cons_of_mem _ (List.mem_cons_of_mem _ hmem))
      · exact .inr ⟨p, List.mem_cons_of_mem _ hp, hd⟩
  | case2 single => exact .inl h
  | case3 => cases h

theorem mem_of_mem_pairs {l : List α} {p : α × α} (h : p ∈ pairs l) : p.1 ∈ l ∧ p.2 ∈ l := by
  induction l using pairs.induct with
  | case1 left right rest ih =>
    rw [pairs] at h
    rcases List.mem_cons.mp h with rfl | h
    · exact ⟨List.mem_cons_self, List.mem_cons_of_mem _ List.mem_cons_self⟩
    · obtain ⟨h1, h2⟩ := ih h
      exact ⟨List.mem_cons_of_mem _ (List.mem_cons_of_mem _ h1),
        List.mem_cons_of_mem _ (List.mem_cons_of_mem _ h2)⟩
  | case2 single => cases h
  | case3 => cases h

/-- What a tree over `l` can hold: a value of `l`, or a pair it combined. -/
def Holds (node : α → α → α) (l : List α) (d : α) : Prop :=
  d ∈ l ∨ ∃ p ∈ built node l, d = node p.1 p.2

/-- The tree over the next level up is part of it. -/
theorem Holds.of_pairUp {l : List α} (hlt : 1 < l.length) {d : α}
    (h : Holds node (pairUp node l) d) : Holds node l d := by
  have hpairs : ∀ q, q ∈ pairs l ∨ q ∈ built node (pairUp node l) → q ∈ built node l := by
    intro q hq
    rw [built, dif_pos hlt]
    exact List.mem_append.mpr hq
  rcases h with hd | ⟨q, hq, rfl⟩
  · rcases mem_pairUp hd with hd | ⟨q, hq, rfl⟩
    · exact .inl hd
    · exact .inr ⟨q, hpairs q (.inl hq), rfl⟩
  · exact .inr ⟨q, hpairs q (.inr hq), rfl⟩

/-- Both halves of a combined pair are in the tree. -/
theorem holds_of_mem_built {l : List α} {p : α × α} (h : p ∈ built node l) :
    Holds node l p.1 ∧ Holds node l p.2 := by
  induction l using built.induct node with
  | case1 l hlt ih =>
    rw [built, dif_pos hlt] at h
    rcases List.mem_append.mp h with h | h
    · obtain ⟨h1, h2⟩ := mem_of_mem_pairs h
      exact ⟨.inl h1, .inl h2⟩
    · obtain ⟨h1, h2⟩ := ih h
      exact ⟨h1.of_pairUp hlt, h2.of_pairUp hlt⟩
  | case2 l hle =>
    rw [built, dif_neg hle] at h
    cases h

/-- So is the top. -/
theorem holds_top {l : List α} {top : α} (h : (levels node l).getLast? = some [top]) :
    Holds node l top := by
  induction l using levels.induct node with
  | case1 l hlt ih =>
    obtain ⟨top', htop'⟩ : ∃ top', (levels node (pairUp node l)).getLast? = some [top'] :=
      getLast?_levels (pairUp_ne_nil node hlt)
    rw [levels, dif_pos hlt, List.getLast?_cons, htop'] at h
    cases h
    exact (ih htop').of_pairUp hlt
  | case2 l hle =>
    rw [levels, dif_neg hle] at h
    cases h
    exact .inl (List.mem_singleton.mpr rfl)

/-- **Down a fold**: what passes from each combination to its first half passes from the
result to the start. -/
theorem of_foldl {P : α → Prop} {d : α} {siblings : List α}
    (hdown : ∀ p ∈ trail node d siblings, P (node p.1 p.2) → P p.1)
    (h : P (siblings.foldl node d)) : P d := by
  induction siblings generalizing d with
  | nil => exact h
  | cons s siblings ih =>
    have hnext : P (node d s) := ih (fun p hp => hdown p (List.mem_cons_of_mem _ hp)) h
    exact hdown (d, s) List.mem_cons_self hnext

/-- A fold ends where it began or in a combination. -/
theorem foldl_eq_or (node : α → α → α) (d : α) (siblings : List α) : siblings.foldl node d = d ∨
    ∃ p ∈ trail node d siblings, siblings.foldl node d = node p.1 p.2 := by
  induction siblings generalizing d with
  | nil => exact .inl rfl
  | cons s siblings ih =>
    rcases ih (node d s) with h | ⟨p, hp, h⟩
    · exact .inr ⟨(d, s), List.mem_cons_self, h⟩
    · exact .inr ⟨p, List.mem_cons_of_mem _ hp, h⟩

end Roshi.Lib.PairTree

import Roshi.Relay.Custody

/-!
# The Token-2022 extension walk

`verify_token_2022_mint_extensions` on the bytes of a mint, as the source runs it: an
offset that moves by lengths the data itself declares, and indexing that aborts out of
bounds.  `walkExtensions` terminates because every pass moves the offset forward and
never past the end (`extensionStep_lt`), and it is the walk over the remaining bytes
the ledger's mints are checked with (`walkExtensions_eq`).

The grammar is `DisplayExtensions`: complete entries of display metadata, then the end of
the data or an end marker.  The walk accepts exactly that
(`mint_extensions_accept_iff_grammar`).
-/

namespace Roshi

open Lib

/-! ### The walk -/

namespace MintData

def MINT_LEN : Nat := 82

/-- The account-type byte, behind the base layout padded to a token account's length. -/
def MINT_ACCOUNT_TYPE_OFFSET : Nat := 165

def ACCOUNT_TYPE_MINT : U8 := 1

def EXTENSION_UNINITIALIZED : U16 := 0

def EXTENSION_METADATA_POINTER : U16 := 18

def EXTENSION_TOKEN_METADATA : U16 := 19

/-- `data[i]`, which aborts out of bounds. -/
def index (data : List U8) (i : Nat) : ProgramResult U8 := okOr data[i]? .panicked

/-- `u16::from_le_bytes([data[i], data[i + 1]])`. -/
def u16At (data : List U8) (i : Nat) : ProgramResult U16 := do
  let b0 ← index data i
  let b1 ← index data (i + 1)
  .ok (fromLeBytes 16 #v[b0, b1])

/-- One pass of the loop: the next offset, or nothing at the end marker.  A slice is
shorter than `isize::MAX`, so neither `checked_add` can fail. -/
def extensionStep (data : List U8) (offset : Nat) : ProgramResult (Option Nat) := do
  let headerEnd := offset + 4
  rejectIf (data.length < headerEnd) (.custom .invalidMintAccount)
  let extensionType ← u16At data offset
  if extensionType = EXTENSION_UNINITIALIZED then .ok none
  else do
    rejectIf (extensionType ≠ EXTENSION_METADATA_POINTER ∧ extensionType ≠ EXTENSION_TOKEN_METADATA)
      (.custom .invalidMintAccount)
    let length ← u16At data (offset + 2)
    let next := headerEnd + length.toNat
    rejectIf (next > data.length) (.custom .invalidMintAccount)
    .ok (some next)

/-- Every pass moves forward, and never past the end. -/
theorem extensionStep_lt {data : List U8} {offset next : Nat}
    (h : extensionStep data offset = .ok (some next)) : offset < next ∧ next ≤ data.length := by
  simp only [extensionStep, bind_eq_ok, rejectIf_eq_ok, exists_const] at h
  obtain ⟨-, t, -, h⟩ := h
  split at h
  · cases h
  · simp only [bind_eq_ok, rejectIf_eq_ok, exists_const, Except.ok.injEq, Option.some.injEq] at h
    obtain ⟨-, length, -, hle, rfl⟩ := h
    omega

def walkExtensions (data : List U8) (offset : Nat) : ProgramResult Unit :=
  if offset < data.length then
    match _h : extensionStep data offset with
    | .error e => .error e
    | .ok none => .ok ()
    | .ok (some next) => walkExtensions data next
  else .ok ()
termination_by data.length - offset
decreasing_by
  have := extensionStep_lt _h
  omega

def verifyToken2022MintExtensions (data : List U8) : ProgramResult Unit :=
  if data.length = MINT_LEN then .ok ()
  else if data.length ≤ MINT_ACCOUNT_TYPE_OFFSET then .error (.custom .invalidMintAccount)
  else do
    let accountType ← index data MINT_ACCOUNT_TYPE_OFFSET
    rejectIf (accountType ≠ ACCOUNT_TYPE_MINT) (.custom .invalidMintAccount)
    walkExtensions data (MINT_ACCOUNT_TYPE_OFFSET + 1)

/-! ### The walk over the remaining bytes -/

variable {data : List U8} {offset : Nat}

theorem index_eq_ok (h : offset < data.length) : index data offset = .ok data[offset] := by
  rw [index, List.getElem?_eq_getElem h]
  rfl

/-- Two bytes spell a `u16`. -/
theorem toNat_fromLeBytes_pair (a b : U8) :
    (fromLeBytes 16 #v[a, b] : U16).toNat = leNat [a, b] := by
  have ha := a.isLt
  have hb := b.isLt
  have hval : leNat [a, b] = a.toNat + 256 * b.toNat := by simp [leNat]
  show (BitVec.ofNat 16 (leNat [a, b])).toNat = _
  rw [BitVec.toNat_ofNat, Nat.mod_eq_of_lt (by omega)]

theorem eq_iff_leNat {a b : U8} {t : U16} :
    (fromLeBytes 16 #v[a, b] : U16) = t ↔ leNat [a, b] = t.toNat := by
  rw [← BitVec.toNat_inj, toNat_fromLeBytes_pair]

/-- A pass whose header is cut off. -/
theorem extensionStep_short (h : data.length < offset + 4) :
    extensionStep data offset = .error (.custom .invalidMintAccount) := by
  rw [extensionStep, rejectIf_of h, error_bind]

/-- A pass over a complete header. -/
theorem extensionStep_header {t0 t1 l0 l1 : U8} {rest : List U8}
    (h : data.drop offset = t0 :: t1 :: l0 :: l1 :: rest) :
    extensionStep data offset =
      if leNat [t0, t1] = 0 then .ok none
      else if leNat [t0, t1] ≠ 18 ∧ leNat [t0, t1] ≠ 19 then .error (.custom .invalidMintAccount)
      else if rest.length < leNat [l0, l1] then .error (.custom .invalidMintAccount)
      else .ok (some (offset + 4 + leNat [l0, l1])) := by
  have hlen : data.length - offset = rest.length + 4 := by
    rw [← List.length_drop, h]
    rfl
  have hget : ∀ i (hi : i < 4), data[offset + i]? = [t0, t1, l0, l1][i]? := by
    intro i hi
    rw [← List.getElem?_drop, h]
    exact List.getElem?_append_left (show i < [t0, t1, l0, l1].length from hi)
  have h0 : index data offset = .ok t0 := by
    rw [index, ← Nat.add_zero offset, hget 0 (by decide)]
    rfl
  have h1 : index data (offset + 1) = .ok t1 := by rw [index, hget 1 (by decide)]; rfl
  have h2 : index data (offset + 2) = .ok l0 := by rw [index, hget 2 (by decide)]; rfl
  have h3 : index data (offset + 2 + 1) = .ok l1 := by
    rw [index, Nat.add_assoc, hget 3 (by decide)]
    rfl
  rw [extensionStep, rejectIf_of_not (by omega), u16At, h0, h1, u16At, h2, h3]
  have hpointer : EXTENSION_METADATA_POINTER.toNat = 18 := rfl
  have hmetadata : EXTENSION_TOKEN_METADATA.toNat = 19 := rfl
  have hend : EXTENSION_UNINITIALIZED.toNat = 0 := rfl
  simp only [ok_bind, eq_iff_leNat, ne_eq, toNat_fromLeBytes_pair, hpointer, hmetadata, hend]
  by_cases h0 : leNat [t0, t1] = 0
  · rw [if_pos h0, if_pos h0]
  rw [if_neg h0, if_neg h0]
  by_cases ht : ¬ leNat [t0, t1] = 18 ∧ ¬ leNat [t0, t1] = 19
  · rw [if_pos ht, rejectIf_of ht, error_bind]
  rw [if_neg ht, rejectIf_of_not ht, ok_bind]
  by_cases hover : rest.length < leNat [l0, l1]
  · rw [if_pos hover, rejectIf_of (by omega), error_bind]
  · rw [if_neg hover, rejectIf_of_not (by omega), ok_bind]

theorem walkExtensions_of_lt (h : offset < data.length) :
    walkExtensions data offset = (extensionStep data offset >>= fun
      | none => .ok ()
      | some next => walkExtensions data next) := by
  rw [walkExtensions, if_pos h]
  split <;> simp_all [bind, Except.bind]

/-- **The offset walk is the walk over what is left.** -/
theorem walkExtensions_eq (h : offset ≤ data.length) :
    walkExtensions data offset = verifyExtensionEntries (data.drop offset) := by
  induction hn : data.length - offset using Nat.strong_induction_on generalizing offset with
  | _ n ih =>
    subst hn
    have hlen := List.length_drop (i := offset) (l := data)
    match hdrop : data.drop offset with
    | [] =>
      rw [hdrop, List.length_nil] at hlen
      rw [walkExtensions, if_neg (by omega), verifyExtensionEntries]
    | t0 :: t1 :: l0 :: l1 :: rest =>
      rw [hdrop] at hlen
      simp only [List.length_cons] at hlen
      have hrest : rest = data.drop (offset + 4) := by
        rw [← List.drop_drop, hdrop]
        rfl
      rw [walkExtensions_of_lt (by omega), extensionStep_header hdrop, verifyExtensionEntries]
      split
      · rfl
      · split
        · rfl
        · split
          · rfl
          · show walkExtensions data (offset + 4 + leNat [l0, l1]) = _
            rw [ih _ (by omega) (by omega) rfl, hrest, List.drop_drop]
    | [_] | [_, _] | [_, _, _] =>
      rw [hdrop] at hlen
      simp only [List.length_cons, List.length_nil] at hlen
      rw [walkExtensions_of_lt (by omega), extensionStep_short (by omega), verifyExtensionEntries]
      · rfl
      all_goals simp

/-- The two readings of the layout agree on every byte string. -/
theorem verifyToken2022MintExtensions_eq (data : List U8) :
    verifyToken2022MintExtensions data = Roshi.verifyToken2022MintExtensions data := by
  rw [verifyToken2022MintExtensions, Roshi.verifyToken2022MintExtensions]
  by_cases h82 : data.length = 82
  · rw [if_pos h82]
    exact if_pos h82
  · rw [if_neg h82]
    refine (if_neg h82).trans ?_
    by_cases h165 : data.length ≤ 165
    · rw [rejectIf_of (.inl h165), error_bind]
      exact if_pos h165
    · refine (if_neg h165).trans ?_
      have hlt : 165 < data.length := by omega
      have hidx : index data MINT_ACCOUNT_TYPE_OFFSET = .ok (data.getD 165 0) := by
        rw [List.getD_eq_getElem?_getD, List.getElem?_eq_getElem hlt]
        exact index_eq_ok hlt
      rw [hidx, ok_bind, walkExtensions_eq (by show 166 ≤ _; omega)]
      simp only [h165, false_or]
      rfl

/-- Only the length of the base layout matters to the walk. -/
theorem verifyToken2022MintExtensions_congr {base base' ext : List U8}
    (h : base.length = base'.length) (h82 : base.length = 82) :
    Roshi.verifyToken2022MintExtensions (base ++ ext) =
      Roshi.verifyToken2022MintExtensions (base' ++ ext) := by
  have h82' : base'.length = 82 := h ▸ h82
  have hget : (base ++ ext).getD 165 0 = (base' ++ ext).getD 165 0 := by
    rw [List.getD_eq_getElem?_getD, List.getD_eq_getElem?_getD,
      List.getElem?_append_right (by omega), List.getElem?_append_right (by omega), h]
  have hdrop : (base ++ ext).drop 166 = (base' ++ ext).drop 166 := by
    rw [List.drop_append, List.drop_append, h, List.drop_of_length_le (l := base) (by omega),
      List.drop_of_length_le (l := base') (by omega)]
  rw [Roshi.verifyToken2022MintExtensions, Roshi.verifyToken2022MintExtensions,
    List.length_append, List.length_append, h, hget, hdrop]

/-- The check on a mint of the ledger is the check on the bytes it was decoded from. -/
theorem verifyMintLayout_toMint {a : RawAccount} (h : a.owner = TOKEN_2022_PROGRAM_ID)
    (h82 : 82 ≤ a.data.length) :
    Ledger.verifyMintLayout a.toMint = verifyToken2022MintExtensions a.data := by
  have hbase : (List.replicate 82 (0 : U8)).length = (a.data.take 82).length := by
    rw [List.length_replicate, List.length_take]
    omega
  rw [Ledger.verifyMintLayout, verifyToken2022MintExtensions_eq]
  refine (if_pos h).trans ?_
  show Roshi.verifyToken2022MintExtensions (List.replicate 82 0 ++ a.data.drop 82) = _
  rw [verifyToken2022MintExtensions_congr hbase (List.length_replicate ..), List.take_append_drop]

/-! ### The grammar -/

/-- One `(type, length, value)` entry; the length fits its field. -/
structure Extension where
  extensionType : U16
  value : List U8
  length_lt : value.length < 2 ^ 16

namespace Extension

def encode (e : Extension) : List U8 :=
  toLeBytes 2 e.extensionType ++ leBytes 2 e.value.length ++ e.value

/-- Display metadata: the pointer or the metadata itself. -/
def Display (e : Extension) : Prop :=
  e.extensionType = EXTENSION_METADATA_POINTER ∨ e.extensionType = EXTENSION_TOKEN_METADATA

theorem encode_eq (e : Extension) : e.encode =
    BitVec.ofNat 8 e.extensionType.toNat :: BitVec.ofNat 8 (e.extensionType.toNat / 256) ::
      BitVec.ofNat 8 e.value.length :: BitVec.ofNat 8 (e.value.length / 256) :: e.value := rfl

theorem leNat_pair {n : Nat} (h : n < 2 ^ 16) :
    leNat [BitVec.ofNat 8 n, BitVec.ofNat 8 (n / 256)] = n :=
  leNat_leBytes (k := 2) h

/-- The walk over an entry: its type decides, and then the walk is behind it. -/
theorem verifyExtensionEntries_encode (e : Extension) (rest : List U8) :
    verifyExtensionEntries (e.encode ++ rest) =
      if e.extensionType.toNat = 0 then .ok ()
      else if e.extensionType.toNat ≠ 18 ∧ e.extensionType.toNat ≠ 19 then
        .error (.custom .invalidMintAccount)
      else verifyExtensionEntries rest := by
  have hlen : ¬ (e.value ++ rest).length < e.value.length := by
    rw [List.length_append]
    omega
  simp only [encode_eq, List.cons_append]
  rw [verifyExtensionEntries, leNat_pair e.extensionType.isLt, leNat_pair e.length_lt]
  simp only [if_neg hlen, List.drop_left]

theorem display_iff {e : Extension} :
    e.Display ↔ e.extensionType.toNat = 18 ∨ e.extensionType.toNat = 19 := by
  rw [Display, ← BitVec.toNat_inj, ← BitVec.toNat_inj]
  rfl

/-- Four bytes and as many as they declare are an entry. -/
theorem exists_encode (t0 t1 : U8) {l0 l1 : U8} {rest : List U8}
    (h : leNat [l0, l1] ≤ rest.length) :
    ∃ e : Extension, e.extensionType.toNat = leNat [t0, t1] ∧
      t0 :: t1 :: l0 :: l1 :: rest = e.encode ++ rest.drop (leNat [l0, l1]) := by
  have hpair : ∀ a b : U8, leNat [a, b] = a.toNat + 256 * b.toNat := by
    intro a b
    simp [leNat]
  have hlow : ∀ a b : U8, BitVec.ofNat 8 (leNat [a, b]) = a := by
    intro a b
    have := a.isLt
    rw [← BitVec.toNat_inj, BitVec.toNat_ofNat, hpair]
    omega
  have hhigh : ∀ a b : U8, BitVec.ofNat 8 (leNat [a, b] / 256) = b := by
    intro a b
    have := a.isLt
    have := b.isLt
    rw [← BitVec.toNat_inj, BitVec.toNat_ofNat, hpair]
    omega
  have hlen : (rest.take (leNat [l0, l1])).length = leNat [l0, l1] := by
    rw [List.length_take]
    omega
  have hfit : leNat [l0, l1] < 2 ^ 16 := by
    have := l0.isLt
    have := l1.isLt
    rw [hpair]
    omega
  refine ⟨⟨fromLeBytes 16 #v[t0, t1], rest.take (leNat [l0, l1]), by rw [hlen]; exact hfit⟩,
    toNat_fromLeBytes_pair t0 t1, ?_⟩
  rw [encode_eq]
  simp only [toNat_fromLeBytes_pair, hlen, hlow, hhigh, List.cons_append, List.take_append_drop]

end Extension

/-- Complete entries of display metadata, then the end of the data or an end marker: type 0
and at least the rest of a header. -/
def DisplayExtensions (bytes : List U8) : Prop :=
  ∃ (es : List Extension) (tail : List U8), (∀ e ∈ es, e.Display) ∧
    bytes = es.flatMap Extension.encode ++ tail ∧
    (tail = [] ∨ 4 ≤ tail.length ∧ tail.take 2 = toLeBytes 2 EXTENSION_UNINITIALIZED)

theorem DisplayExtensions.cons {e : Extension} {bytes : List U8} (he : e.Display)
    (h : DisplayExtensions bytes) : DisplayExtensions (e.encode ++ bytes) := by
  obtain ⟨es, tail, hes, rfl, htail⟩ := h
  refine ⟨e :: es, tail, ?_, by rw [List.flatMap_cons, List.append_assoc], htail⟩
  intro x hx
  rcases List.mem_cons.mp hx with rfl | hx
  · exact he
  · exact hes x hx

/-- An end marker ends the walk. -/
theorem verifyExtensionEntries_marker {tail : List U8} (h4 : 4 ≤ tail.length)
    (h0 : tail.take 2 = toLeBytes 2 EXTENSION_UNINITIALIZED) :
    verifyExtensionEntries tail = .ok () := by
  match tail, h4 with
  | t0 :: t1 :: l0 :: l1 :: rest, _ =>
    have hzero : leNat [t0, t1] = 0 := by
      have : [t0, t1] = toLeBytes 2 EXTENSION_UNINITIALIZED := h0
      rw [this]
      rfl
    rw [verifyExtensionEntries]
    exact if_pos hzero

/-- What the walk accepts is well formed. -/
theorem displayExtensions_of_ok {bytes : List U8} (h : verifyExtensionEntries bytes = .ok ()) :
    DisplayExtensions bytes := by
  fun_induction verifyExtensionEntries bytes with
  | case1 => exact ⟨[], [], by simp, rfl, .inl rfl⟩
  | case2 t0 t1 l0 l1 rest extensionType h0 =>
    refine ⟨[], t0 :: t1 :: l0 :: l1 :: rest, by simp, rfl, .inr ⟨by simp, ?_⟩⟩
    have hsum : t0.toNat + 256 * t1.toNat = 0 := by
      have : leNat [t0, t1] = 0 := h0
      simpa [leNat] using this
    have hz0 : t0 = 0 := eq_zero_iff.mpr (by omega)
    have hz1 : t1 = 0 := eq_zero_iff.mpr (by omega)
    rw [hz0, hz1]
    rfl
  | case3 => cases h
  | case4 => cases h
  | case5 t0 t1 l0 l1 rest extensionType length h0 ht hlen ih =>
    obtain ⟨e, he, henc⟩ := Extension.exists_encode t0 t1 (Nat.not_lt.mp hlen)
    rw [henc]
    refine DisplayExtensions.cons (Extension.display_iff.mpr ?_) (ih h)
    rw [he]
    show extensionType = 18 ∨ extensionType = 19
    omega
  | case6 => cases h

/-- What is well formed is accepted. -/
theorem ok_of_displayExtensions {bytes : List U8} (h : DisplayExtensions bytes) :
    verifyExtensionEntries bytes = .ok () := by
  obtain ⟨es, tail, hes, rfl, htail⟩ := h
  induction es with
  | nil =>
    rcases htail with rfl | ⟨h4, h0⟩
    · exact verifyExtensionEntries.eq_1
    · exact verifyExtensionEntries_marker h4 h0
  | cons e es ih =>
    have hdisplay := Extension.display_iff.mp (hes e List.mem_cons_self)
    rw [List.flatMap_cons, List.append_assoc, Extension.verifyExtensionEntries_encode,
      if_neg (by omega), if_neg (by omega)]
    exact ih fun x hx => hes x (List.mem_cons_of_mem _ hx)

/-- Only display metadata stands before the first end marker of accepted data. -/
theorem display_of_ok {es : List Extension} {rest : List U8}
    (h : verifyExtensionEntries (es.flatMap Extension.encode ++ rest) = .ok ())
    (h0 : ∀ e ∈ es, e.extensionType ≠ EXTENSION_UNINITIALIZED) : ∀ e ∈ es, e.Display := by
  induction es with
  | nil => simp
  | cons e es ih =>
    have hne : e.extensionType.toNat ≠ 0 := fun h =>
      h0 e List.mem_cons_self (eq_zero_iff.mpr h)
    rw [List.flatMap_cons, List.append_assoc, Extension.verifyExtensionEntries_encode,
      if_neg hne] at h
    split at h
    · cases h
    · rename_i ht
      intro x hx
      rcases List.mem_cons.mp hx with rfl | hx
      · exact Extension.display_iff.mpr (by omega)
      · exact ih h (fun y hy => h0 y (List.mem_cons_of_mem _ hy)) x hx

/-- The walk fails with one error. -/
theorem verifyExtensionEntries_error {bytes : List U8} {err : ProgramError}
    (h : verifyExtensionEntries bytes = .error err) : err = .custom .invalidMintAccount := by
  fun_induction verifyExtensionEntries bytes with
  | case1 => cases h
  | case2 => cases h
  | case3 => cases h; rfl
  | case4 => cases h; rfl
  | case5 t0 t1 l0 l1 rest extensionType length h0 ht hlen ih => exact ih h
  | case6 => cases h; rfl

theorem verifyToken2022MintExtensions_eq_ok :
    verifyToken2022MintExtensions data = .ok () ↔ data.length = 82 ∨
      165 < data.length ∧ data[165]? = some 1 ∧
        verifyExtensionEntries (data.drop 166) = .ok () := by
  rw [verifyToken2022MintExtensions_eq, Roshi.verifyToken2022MintExtensions]
  by_cases h82 : data.length = 82
  · simp [h82]
  · rw [if_neg h82]
    simp only [bind_eq_ok, rejectIf_eq_ok, exists_const, h82, false_or, not_or, not_not,
      Nat.not_le, and_assoc]
    refine and_congr_right fun h165 => and_congr_left fun _ => ?_
    rw [List.getD_eq_getElem?_getD, List.getElem?_eq_getElem h165, Option.getD_some,
      Option.some.injEq]

theorem verifyToken2022MintExtensions_error {err : ProgramError}
    (h : verifyToken2022MintExtensions data = .error err) : err = .custom .invalidMintAccount := by
  rw [verifyToken2022MintExtensions_eq, Roshi.verifyToken2022MintExtensions] at h
  split at h
  · cases h
  · by_cases hreject : data.length ≤ 165 ∨ data.getD 165 0 ≠ 1
    · rw [rejectIf_of hreject, error_bind] at h
      cases h
      rfl
    · rw [rejectIf_of_not hreject, ok_bind] at h
      exact verifyExtensionEntries_error h

/-- **The extension walk accepts exactly its grammar**, on every byte string, and never
indexes out of bounds: its only error is the rejection.  An accepted mint has no entry of
another type before the first end marker. -/
theorem mint_extensions_accept_iff_grammar (data : List U8) :
    (verifyToken2022MintExtensions data = .ok () ↔
      data.length = 82 ∨
        165 < data.length ∧ data[165]? = some 1 ∧ DisplayExtensions (data.drop 166)) ∧
    (verifyToken2022MintExtensions data = .ok () ∨
      verifyToken2022MintExtensions data = .error (.custom .invalidMintAccount)) ∧
    (verifyToken2022MintExtensions data = .ok () → data.length ≠ 82 →
      ∀ (es : List Extension) (rest : List U8),
        data.drop 166 = es.flatMap Extension.encode ++ rest →
        (∀ e ∈ es, e.extensionType ≠ EXTENSION_UNINITIALIZED) → ∀ e ∈ es, e.Display) := by
  refine ⟨?_, ?_, ?_⟩
  · rw [verifyToken2022MintExtensions_eq_ok]
    refine or_congr_right (and_congr_right fun _ => and_congr_right fun _ => ?_)
    exact ⟨displayExtensions_of_ok, ok_of_displayExtensions⟩
  · cases h : verifyToken2022MintExtensions data with
    | ok => exact .inl rfl
    | error err =>
      rw [verifyToken2022MintExtensions_error h]
      exact .inr rfl
  · intro hok h82 es rest hdata h0
    rcases verifyToken2022MintExtensions_eq_ok.mp hok with hlen | ⟨-, -, hwalk⟩
    · exact (h82 hlen).elim
    · rw [hdata] at hwalk
      exact display_of_ok hwalk h0

namespace Sample

/-- A metadata pointer of two bytes. -/
def pointer : Extension := ⟨EXTENSION_METADATA_POINTER, [7, 7], by decide⟩

/-- A mint with a pointer, an end marker and padding. -/
def pointerMint : List U8 :=
  List.replicate 165 0 ++ 1 :: (pointer.encode ++ [0, 0, 0, 0, 5])

theorem pointerMint_grammar : DisplayExtensions (pointerMint.drop 166) :=
  ⟨[pointer], [0, 0, 0, 0, 5], by simp [pointer, Extension.Display], rfl, .inr (by decide)⟩

end Sample

theorem mint_extensions_accept_iff_grammar_pointer :
    verifyToken2022MintExtensions Sample.pointerMint = .ok () ∧ Sample.pointer.Display := by
  have hok : verifyToken2022MintExtensions Sample.pointerMint = .ok () :=
    (mint_extensions_accept_iff_grammar Sample.pointerMint).1.mpr
      (.inr ⟨by decide +kernel, rfl, Sample.pointerMint_grammar⟩)
  refine ⟨hok, ?_⟩
  refine (mint_extensions_accept_iff_grammar Sample.pointerMint).2.2 hok (by decide +kernel)
    [Sample.pointer] [0, 0, 0, 0, 5] rfl ?_ Sample.pointer (List.mem_singleton.mpr rfl)
  simp [Sample.pointer, EXTENSION_UNINITIALIZED, EXTENSION_METADATA_POINTER]

end MintData

end Roshi

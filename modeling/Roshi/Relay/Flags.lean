import Roshi.Lib.Bits
import Roshi.Lib.Canonical
import Roshi.Runtime

/-!
# Packed account flags

`account_flags.rs`: the privileges a caller requests for the accounts of a relayed CPI,
two bits an account.

A packing is known by its bits: bit `2 * i` asks for a signer, bit `2 * i + 1` for write
access, and there are no others (`Packs`).  Packing and decoding both come down to this, so
they form a canonical code (`packed_flags_canonical`).
-/

namespace Roshi

open Lib

structure AccountFlags where
  isSigner : Bool
  isWritable : Bool
  deriving DecidableEq

/-- Account `i` has the two bits from `2 * (i % 4)` on in byte `i / 4`. -/
structure PackedAccountFlags where
  accountsLen : U8
  bits : List U8
  deriving DecidableEq

/-- The two bits of one account. -/
def AccountFlags.value (flags : AccountFlags) : U8 :=
  (if flags.isSigner then 1 else 0) ||| (if flags.isWritable then 1 else 0) <<< 1

namespace PackedAccountFlags

/-- One pass of the loop of `from_flags`. -/
def packFlag (bits : List U8) (entry : AccountFlags × Nat) : List U8 :=
  orAt bits (entry.2 / 4) (entry.1.value <<< (entry.2 % 4 * 2))

/-- `from_flags`, which aborts on more than 255 flags. -/
def fromFlags (flags : List AccountFlags) : ProgramResult PackedAccountFlags := do
  rejectIf (flags.length > 255) .panicked
  let bits := flags.zipIdx.foldl packFlag (List.replicate ((flags.length + 3) / 4) 0)
  .ok { accountsLen := BitVec.ofNat 8 flags.length, bits }

/-- The flags of account `index`: bit 0 asks for a signer, bit 1 for write access. -/
def flagsAt (p : PackedAccountFlags) (index : Nat) : AccountFlags :=
  let value := p.bits.getD (index / 4) 0 >>> (index % 4 * 2)
  { isSigner := value &&& 1 ≠ 0, isWritable := value &&& 2 ≠ 0 }

/-- Decode canonical packed flags: exactly enough bytes, and no bit set past the last
account. -/
def iter (p : PackedAccountFlags) : ProgramResult (List AccountFlags) := do
  let expectedLen := (p.accountsLen.toNat + 3) / 4
  rejectIf (p.bits.length ≠ expectedLen) .invalidInstructionData
  let usedBits := p.accountsLen.toNat % 4 * 2
  rejectIf (usedBits ≠ 0 ∧ p.bits.getD (expectedLen - 1) 0 >>> usedBits ≠ 0)
    .invalidInstructionData
  .ok ((List.range p.accountsLen.toNat).map p.flagsAt)

/-- `flagsAt` with its index checked: out of bounds it aborts. -/
def flagsIndexed (p : PackedAccountFlags) (index : Nat) : ProgramResult AccountFlags := do
  let byte ← okOr p.bits[index / 4]? .panicked
  let value := byte >>> (index % 4 * 2)
  .ok { isSigner := value &&& 1 ≠ 0, isWritable := value &&& 2 ≠ 0 }

/-- The check of the last byte, likewise; its index must not go below zero either. -/
def tailIndexed (p : PackedAccountFlags) (expectedLen usedBits : Nat) : ProgramResult Unit :=
  if usedBits = 0 then .ok ()
  else do
    let last ← okOr (if expectedLen = 0 then none else p.bits[expectedLen - 1]?) .panicked
    rejectIf (last >>> usedBits ≠ 0) .invalidInstructionData

/-- `iter` with every index checked. -/
def iterIndexed (p : PackedAccountFlags) : ProgramResult (List AccountFlags) := do
  let expectedLen := (p.accountsLen.toNat + 3) / 4
  rejectIf (p.bits.length ≠ expectedLen) .invalidInstructionData
  p.tailIndexed expectedLen (p.accountsLen.toNat % 4 * 2)
  (List.range p.accountsLen.toNat).mapM p.flagsIndexed

/-! ### The bits of a packing -/

/-- Bit `k` of the packing of `flags`. -/
def flagBit (flags : List AccountFlags) (k : Nat) : Bool :=
  match flags[k / 2]? with
  | some f => if k % 2 = 0 then f.isSigner else f.isWritable
  | none => false

/-- Exactly enough bytes, with the bits of the flags and no others. -/
structure Packs (flags : List AccountFlags) (bits : List U8) : Prop where
  length : bits.length = (flags.length + 3) / 4
  bit : ∀ k, bitAt bits k = flagBit flags k

theorem Packs.unique {flags : List AccountFlags} {bits bits' : List U8} (h : Packs flags bits)
    (h' : Packs flags bits') : bits = bits' :=
  ext_bitAt (h.length.trans h'.length.symm) fun k => (h.bit k).trans (h'.bit k).symm

theorem flagBit_of_le {flags : List AccountFlags} {k : Nat} (h : 2 * flags.length ≤ k) :
    flagBit flags k = false := by
  rw [flagBit, List.getElem?_eq_none (by omega)]

theorem flagBit_append (l : List AccountFlags) (f : AccountFlags) (k : Nat) :
    flagBit (l ++ [f]) k =
      (flagBit l k || (k / 2 == l.length && if k % 2 = 0 then f.isSigner else f.isWritable)) := by
  rcases Nat.lt_trichotomy (k / 2) l.length with hlt | heq | hgt
  · have hne : (k / 2 == l.length) = false := beq_false_of_ne (by omega)
    rw [hne, Bool.false_and, Bool.or_false, flagBit, flagBit, List.getElem?_append_left hlt]
  · have hnone : flagBit l k = false := flagBit_of_le (by omega)
    rw [hnone, Bool.false_or, heq, beq_self_eq_true, Bool.true_and, flagBit, heq,
      List.getElem?_concat_length]
  · have hne : (k / 2 == l.length) = false := beq_false_of_ne (by omega)
    have hnone : flagBit l k = false := flagBit_of_le (by omega)
    rw [hne, Bool.false_and, Bool.or_false, hnone, flagBit_of_le]
    rw [List.length_append, List.length_singleton]
    omega

theorem getLsbD_value (f : AccountFlags) (j : Nat) :
    f.value.getLsbD j = if j = 0 then f.isSigner else if j = 1 then f.isWritable else false := by
  obtain ⟨s, w⟩ := f
  have hbits : ∀ j, j < 8 → (AccountFlags.value ⟨s, w⟩).getLsbD j =
      if j = 0 then s else if j = 1 then w else false := by
    cases s <;> cases w <;> decide
  by_cases hj : j < 8
  · exact hbits j hj
  · rw [BitVec.getLsbD_of_ge _ _ (by omega), if_neg (by omega), if_neg (by omega)]

/-- The bits one pass of the loop sets are those of its account. -/
theorem getLsbD_packFlag (f : AccountFlags) (m k : Nat) :
    (k / 8 == m / 4 && (f.value <<< (m % 4 * 2)).getLsbD (k % 8)) =
      (k / 2 == m && if k % 2 = 0 then f.isSigner else f.isWritable) := by
  rw [BitVec.getLsbD_shiftLeft, getLsbD_value]
  by_cases hm : k / 2 = m
  · have hbyte : (k / 8 == m / 4) = true := beq_iff_eq.mpr (by omega)
    have hsub : k % 8 - m % 4 * 2 = k % 2 := by omega
    have hlt : ¬ k % 8 < m % 4 * 2 := by omega
    rw [hbyte, hm, beq_self_eq_true, hsub, decide_eq_true (by omega : k % 8 < 8),
      decide_eq_false hlt]
    rcases Nat.mod_two_eq_zero_or_one k with h | h <;> simp [h]
  · have hne : (k / 2 == m) = false := beq_false_of_ne hm
    rw [hne, Bool.false_and]
    by_cases hbyte : k / 8 = m / 4
    · by_cases hlt : k % 8 < m % 4 * 2
      · simp [hlt]
      · rw [if_neg (by omega), if_neg (by omega)]
        simp
    · rw [beq_false_of_ne hbyte, Bool.false_and]

/-- **The loop** packs the flags it has seen. -/
theorem foldl_packFlag (l : List AccountFlags) {n : Nat} (hn : (l.length + 3) / 4 ≤ n) :
    (l.zipIdx.foldl packFlag (List.replicate n 0)).length = n ∧
      ∀ k, bitAt (l.zipIdx.foldl packFlag (List.replicate n 0)) k = flagBit l k := by
  induction l using List.reverseRecOn with
  | nil => exact ⟨List.length_replicate, fun k => bitAt_replicate_zero n k⟩
  | append_singleton l f ih =>
    rw [List.length_append, List.length_singleton] at hn
    obtain ⟨hlen, hbit⟩ := ih (by omega)
    rw [List.zipIdx_append, List.foldl_append, Nat.zero_add]
    show (packFlag _ (f, l.length)).length = n ∧ ∀ k, bitAt (packFlag _ (f, l.length)) k = _
    refine ⟨(length_orAt ..).trans hlen, ?_⟩
    intro k
    -- the byte of the new account is there, since `n` bytes have room for it
    rw [packFlag, bitAt_orAt (by omega), hbit, getLsbD_packFlag, flagBit_append]

/-- **Packing** yields the packing. -/
theorem fromFlags_eq_ok {flags : List AccountFlags} {p : PackedAccountFlags} :
    fromFlags flags = .ok p ↔ flags.length = p.accountsLen.toNat ∧ Packs flags p.bits := by
  obtain ⟨hlen, hbit⟩ := foldl_packFlag flags (le_refl ((flags.length + 3) / 4))
  have hpacks : Packs flags
      (flags.zipIdx.foldl packFlag (List.replicate ((flags.length + 3) / 4) 0)) := ⟨hlen, hbit⟩
  simp only [fromFlags, bind_eq_ok, rejectIf_eq_ok, exists_const, Except.ok.injEq]
  constructor
  · rintro ⟨hle, rfl⟩
    exact ⟨by rw [BitVec.toNat_ofNat]; omega, hpacks⟩
  · rintro ⟨hcount, hp⟩
    have hlt := p.accountsLen.isLt
    refine ⟨by omega, ?_⟩
    obtain ⟨accountsLen, bits⟩ := p
    rw [mk.injEq, hpacks.unique hp, hcount]
    exact ⟨BitVec.eq_of_toNat_eq (by simp), rfl⟩

/-! ### Decoding -/

/-- An account's flags are its two bits. -/
theorem flagsAt_eq (p : PackedAccountFlags) (i : Nat) :
    p.flagsAt i = ⟨bitAt p.bits (2 * i), bitAt p.bits (2 * i + 1)⟩ := by
  have hone : ∀ x : U8, decide (x &&& 1 ≠ 0) = x.getLsbD 0 := by decide
  have htwo : ∀ x : U8, decide (x &&& 2 ≠ 0) = x.getLsbD 1 := by decide
  have hbyte : 2 * i / 8 = i / 4 ∧ (2 * i + 1) / 8 = i / 4 := by omega
  have hbit : 2 * i % 8 = i % 4 * 2 ∧ (2 * i + 1) % 8 = i % 4 * 2 + 1 := by omega
  rw [flagsAt, bitAt, bitAt, hbyte.1, hbyte.2, hbit.1, hbit.2]
  simp only [hone, htwo, BitVec.getLsbD_ushiftRight, Nat.add_zero]

/-- Every bit of an account is a bit of its flags. -/
theorem flagBit_flagsAt (p : PackedAccountFlags) {k : Nat} (h : k < 2 * p.accountsLen.toNat) :
    flagBit ((List.range p.accountsLen.toNat).map p.flagsAt) k = bitAt p.bits k := by
  rw [flagBit, List.getElem?_map, List.getElem?_range (by omega), Option.map_some, flagsAt_eq]
  show (if k % 2 = 0 then bitAt p.bits (2 * (k / 2)) else bitAt p.bits (2 * (k / 2) + 1)) = _
  split
  · rw [show 2 * (k / 2) = k by omega]
  · rw [show 2 * (k / 2) + 1 = k by omega]

/-- The check of the last byte is that no bit past the last account is set. -/
theorem tail_iff {p : PackedAccountFlags} (hlen : p.bits.length = (p.accountsLen.toNat + 3) / 4) :
    ¬ (p.accountsLen.toNat % 4 * 2 ≠ 0 ∧
        p.bits.getD ((p.accountsLen.toNat + 3) / 4 - 1) 0 >>> (p.accountsLen.toNat % 4 * 2) ≠ 0) ↔
      ∀ k, 2 * p.accountsLen.toNat ≤ k → bitAt p.bits k = false := by
  rw [not_and, not_not, ushiftRight_eq_zero_iff]
  constructor
  · intro h k hk
    by_cases hend : 8 * p.bits.length ≤ k
    · exact bitAt_of_length_le (by decide) hend
    · rw [bitAt, show k / 8 = (p.accountsLen.toNat + 3) / 4 - 1 by omega]
      exact h (by omega) _ (by omega)
  · intro h hused j hj
    by_cases h8 : j < 8
    · rw [← bitAt_mul_add p.bits _ h8]
      exact h _ (by omega)
    · exact BitVec.getLsbD_of_ge _ _ (by omega)

/-- **Decoding** accepts packings. -/
theorem iter_eq_ok {p : PackedAccountFlags} {flags : List AccountFlags} :
    p.iter = .ok flags ↔ flags.length = p.accountsLen.toNat ∧ Packs flags p.bits := by
  simp only [iter, bind_eq_ok, rejectIf_eq_ok, exists_const, Except.ok.injEq, not_not]
  constructor
  · rintro ⟨hlen, htail, rfl⟩
    have hcount :
        ((List.range p.accountsLen.toNat).map p.flagsAt).length = p.accountsLen.toNat := by
      rw [List.length_map, List.length_range]
    refine ⟨hcount, by rw [hcount, hlen], ?_⟩
    intro k
    by_cases hk : k < 2 * p.accountsLen.toNat
    · exact (flagBit_flagsAt p hk).symm
    · rw [(tail_iff hlen).mp htail k (by omega), flagBit_of_le (by omega)]
  · rintro ⟨hcount, hlen, hbit⟩
    rw [hcount] at hlen
    refine ⟨hlen, (tail_iff hlen).mpr ?_, ?_⟩
    · intro k hk
      rw [hbit, flagBit_of_le (by omega)]
    · apply List.ext_getElem
      · rw [List.length_map, List.length_range, hcount]
      · intro i hi hi'
        rw [List.getElem_map, List.getElem_range, flagsAt_eq, hbit, hbit, flagBit, flagBit,
          show 2 * i / 2 = i by omega, show (2 * i + 1) / 2 = i by omega,
          List.getElem?_eq_getElem hi']
        show (⟨if 2 * i % 2 = 0 then _ else _, if (2 * i + 1) % 2 = 0 then _ else _⟩ :
          AccountFlags) = _
        rw [if_pos (by omega), if_neg (by omega)]

/-- One flag pair an account. -/
theorem length_of_iter {p : PackedAccountFlags} {l : List AccountFlags} (h : p.iter = .ok l) :
    l.length = p.accountsLen.toNat :=
  (iter_eq_ok.mp h).1

/-- **Packed flags** are a canonical code of at most 255 flags. -/
theorem canonical : CanonicalCode fromFlags iter := by
  intro flags p
  rw [fromFlags_eq_ok, iter_eq_ok]

/-- **Every byte `iter` reads is there.** -/
theorem iterIndexed_eq (p : PackedAccountFlags) : p.iterIndexed = p.iter := by
  rw [iterIndexed, iter]
  by_cases hlen : p.bits.length = (p.accountsLen.toNat + 3) / 4
  · have hread : ∀ {i}, i < p.bits.length →
        okOr p.bits[i]? ProgramError.panicked = .ok (p.bits.getD i 0) := by
      intro i hi
      rw [List.getD_eq_getElem?_getD, List.getElem?_eq_getElem hi]
      rfl
    have hall : (List.range p.accountsLen.toNat).mapM p.flagsIndexed =
        .ok ((List.range p.accountsLen.toNat).map p.flagsAt) := by
      rw [mapM_eq_ok, List.forall₂_map_right_iff, List.forall₂_same]
      intro index hindex
      have hlt := List.mem_range.mp hindex
      rw [flagsIndexed, hread (by omega)]
      rfl
    have htail : p.tailIndexed ((p.accountsLen.toNat + 3) / 4) (p.accountsLen.toNat % 4 * 2) =
        rejectIf (p.accountsLen.toNat % 4 * 2 ≠ 0 ∧
          p.bits.getD ((p.accountsLen.toNat + 3) / 4 - 1) 0 >>> (p.accountsLen.toNat % 4 * 2) ≠ 0)
          .invalidInstructionData := by
      rw [tailIndexed]
      by_cases hused : p.accountsLen.toNat % 4 * 2 = 0
      · rw [if_pos hused, rejectIf_of_not fun h => h.1 hused]
      · rw [if_neg hused, if_neg (by omega), hread (by omega), ok_bind]
        simp only [rejectIf, hused, ne_eq, not_false_eq_true, true_and]
    rw [rejectIf_of_not (not_not.mpr hlen), ok_bind, ok_bind, hall, htail]
  · simp only [rejectIf_of hlen, error_bind]

theorem iter_ne_panicked (p : PackedAccountFlags) : p.iter ≠ .error .panicked := by
  intro h
  simp only [iter, bind_eq_error, rejectIf_eq_error, reduceCtorEq, and_false, exists_false,
    or_false] at h

/-- **Packed flags are a canonical code.**  At most 255 flags are packed and decode to
themselves; a packing is accepted exactly when it is that of some flags, which are those it
decodes to; and no access of the decoder is out of bounds. -/
theorem packed_flags_canonical :
    (∀ flags : List AccountFlags, flags.length ≤ 255 →
      ∃ p, fromFlags flags = .ok p ∧ p.iter = .ok flags) ∧
    (∀ p : PackedAccountFlags,
      ((∃ flags, p.iter = .ok flags) ↔ ∃ flags, fromFlags flags = .ok p) ∧
        ∀ flags, p.iter = .ok flags → fromFlags flags = .ok p) ∧
    ∀ p : PackedAccountFlags, p.iterIndexed = p.iter ∧ p.iter ≠ .error .panicked := by
  refine ⟨?_, ?_, fun p => ⟨iterIndexed_eq p, iter_ne_panicked p⟩⟩
  · intro flags hle
    obtain ⟨p, hpack⟩ : ∃ p, fromFlags flags = .ok p := by
      rw [fromFlags, rejectIf_of_not (Nat.not_lt.mpr hle)]
      exact ⟨_, rfl⟩
    exact ⟨p, hpack, canonical.decodes hpack⟩
  · intro p
    exact ⟨canonical.accepts_iff p, fun _ h => canonical.encodes h⟩

/-- Six accounts, over two bytes. -/
def sixFlags : List AccountFlags :=
  [⟨false, false⟩, ⟨true, false⟩, ⟨false, true⟩, ⟨true, true⟩, ⟨true, true⟩, ⟨false, true⟩]

theorem packed_flags_canonical_six :
    (∃ p, fromFlags sixFlags = .ok p ∧ p.iter = .ok sixFlags) ∧
      fromFlags sixFlags = .ok ⟨6, [0xe4, 0x0b]⟩ :=
  ⟨packed_flags_canonical.1 sixFlags (by decide),
    (packed_flags_canonical.2.1 ⟨6, [0xe4, 0x0b]⟩).2 sixFlags (by decide)⟩

end PackedAccountFlags

end Roshi

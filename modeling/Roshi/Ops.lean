import Roshi.Action
import Roshi.Lib.Canonical

/-!
# Storing ops

`From<Op> for StoredOp` and `Ops::new`: an op takes four bytes, its unused arguments zero,
and a list of at most 32 ops fills the first entries of an action.

Decoding one stored op inverts this exactly (`StoredOp.canonical`), so the entries in use
are a canonical code of the ops (`stored_ops_canonical`); the entries past `ops_len` are not
read.
-/

namespace Roshi

open Lib

/-! ### One op -/

/-- `From<Op>`. -/
def StoredOp.ofOp : Op → StoredOp
  | .noop => .noop
  | .ingestInstruction offset len =>
    let bytes := toLeArray 2 offset
    { kind := 1, arg0 := len, arg1 := bytes.get 0, arg2 := bytes.get 1 }
  | .ingestAccount index => { kind := 2, arg0 := index, arg1 := 0, arg2 := 0 }
  | .ingestInstructionDataSize => { kind := 3, arg0 := 0, arg1 := 0, arg2 := 0 }
  | .ingestSiblingInstruction relativeIndex offset len =>
    { kind := 4, arg0 := relativeIndex.toBitVec, arg1 := offset, arg2 := len }
  | .ingestSiblingAccount relativeIndex index =>
    { kind := 5, arg0 := relativeIndex.toBitVec, arg1 := index, arg2 := 0 }

/-- The two bytes of an offset. -/
theorem fromLeBytes_offset (offset : U16) :
    fromLeBytes 16 #v[(toLeArray 2 offset).get 0, (toLeArray 2 offset).get 1] = offset := by
  have harray : #v[(toLeArray 2 offset).get 0, (toLeArray 2 offset).get 1] = toLeArray 2 offset :=
    rfl
  rw [harray, fromLeBytes_toLeArray (by norm_num)]

theorem toLeArray_offset (a b : U8) : toLeArray 2 (fromLeBytes 16 #v[a, b]) = #v[a, b] := by
  apply Vector.toList_inj.mp
  rw [toList_toLeArray, toLeBytes_fromLeBytes (by norm_num)]

theorem StoredOp.tryToOp_ofOp (op : Op) : (StoredOp.ofOp op).tryToOp = .ok op := by
  cases op with
  | ingestInstruction offset len =>
    simp [ofOp, tryToOp, fromLeBytes_offset]
  | _ => simp [ofOp, tryToOp, noop]

/-- Each branch of the decoder checks that the bytes its op does not use are zero. -/
theorem StoredOp.ofOp_of_tryToOp {s : StoredOp} {op : Op} (h : s.tryToOp = .ok op) :
    StoredOp.ofOp op = s := by
  obtain ⟨kind, arg0, arg1, arg2⟩ := s
  simp only [tryToOp] at h
  split at h
  · rename_i hs
    obtain ⟨rfl, rfl, rfl, rfl⟩ := hs
    cases h
    rfl
  split at h
  · rename_i hs
    subst hs
    cases h
    rw [ofOp, toLeArray_offset]
    rfl
  split at h
  · rename_i hs
    obtain ⟨rfl, rfl, rfl⟩ := hs
    cases h
    rfl
  split at h
  · rename_i hs
    obtain ⟨rfl, rfl, rfl, rfl⟩ := hs
    cases h
    rfl
  split at h
  · rename_i hs
    subst hs
    cases h
    rfl
  split at h
  · rename_i hs
    obtain ⟨rfl, rfl⟩ := hs
    cases h
    rfl
  · cases h

/-- **One stored op** is a canonical code of an op. -/
theorem StoredOp.canonical :
    CanonicalCode (fun op => (.ok (StoredOp.ofOp op) : Except ActionHashError StoredOp))
      StoredOp.tryToOp := by
  intro op s
  constructor
  · intro h
    cases h
    exact tryToOp_ofOp op
  · intro h
    exact congrArg Except.ok (ofOp_of_tryToOp h)

/-! ### The list -/

namespace Ops

/-- One pass of the loop of `Ops::new`. -/
def push (stored : Ops) (entry : Op × Nat) : Except ActionHashError Ops := do
  let (op, index) := entry
  rejectIf (index ≥ MAX_ACTION_OPS) .tooManyOps
  let ops := stored.ops.setIfInBounds index (StoredOp.ofOp op)
  rejectIf (2 ^ 8 ≤ index + 1) .invalidInstructionData
  .ok { ops, opsLen := BitVec.ofNat 8 (index + 1) }

/-- `Ops::new`. -/
def new (l : List Op) : Except ActionHashError Ops := l.zipIdx.foldlM push empty

variable {l : List Op} {o : Ops}

theorem new_append (l : List Op) (op : Op) :
    new (l ++ [op]) = new l >>= fun o => o.push (op, l.length) := by
  rw [new, List.zipIdx_append, List.foldlM_append, Nat.zero_add]
  congr 1
  funext o
  exact bind_pure _

theorem push_eq_ok {op : Op} {index : Nat} (h : index < MAX_ACTION_OPS) :
    o.push (op, index) =
      .ok ⟨o.ops.setIfInBounds index (StoredOp.ofOp op), BitVec.ofNat 8 (index + 1)⟩ := by
  have h32 : index < 32 := h
  rw [push, rejectIf_of_not (Nat.not_le.mpr h), ok_bind, rejectIf_of_not (by omega), ok_bind]

/-- The stored form of at most 32 ops: their entries first, then unused ones. -/
theorem new_spec (h : l.length ≤ MAX_ACTION_OPS) :
    ∃ o, new l = .ok o ∧ o.opsLen.toNat = l.length ∧
      o.ops.toList =
        l.map StoredOp.ofOp ++ List.replicate (MAX_ACTION_OPS - l.length) .noop := by
  induction l using List.reverseRecOn with
  | nil => exact ⟨empty, rfl, rfl, by simp [empty]⟩
  | append_singleton l op ih =>
    rw [List.length_append, List.length_singleton] at h
    have h32 : l.length + 1 ≤ 32 := h
    obtain ⟨o, ho, -, hops⟩ := ih (by omega)
    refine ⟨_, by rw [new_append, ho, ok_bind, push_eq_ok h], ?_, ?_⟩
    · rw [BitVec.toNat_ofNat, List.length_append, List.length_singleton]
      omega
    · have hrep : MAX_ACTION_OPS - l.length = MAX_ACTION_OPS - (l.length + 1) + 1 := by omega
      have hlen : (l.map StoredOp.ofOp).length = l.length := List.length_map _
      rw [Vector.toList_setIfInBounds, hops, hrep, List.replicate_succ, List.set_append_right _ _
        (by omega), hlen, Nat.sub_self, List.set_cons_zero, List.map_append, List.length_append,
        List.append_assoc]
      rfl

/-- Past the capacity the loop stops with an error. -/
theorem new_tooManyOps (h : MAX_ACTION_OPS < l.length) : new l = .error .tooManyOps := by
  induction l using List.reverseRecOn with
  | nil => exact absurd h (by decide)
  | append_singleton l op ih =>
    rw [List.length_append, List.length_singleton] at h
    rw [new_append]
    by_cases hl : MAX_ACTION_OPS < l.length
    · rw [ih hl]
      rfl
    · obtain ⟨o, ho, -⟩ := new_spec (Nat.not_lt.mp hl)
      rw [ho, ok_bind, push, rejectIf_of (by omega)]
      rfl

/-- **Up to 32 ops are stored**, and no more. -/
theorem exists_new_iff : (∃ o, new l = .ok o) ↔ l.length ≤ MAX_ACTION_OPS := by
  constructor
  · rintro ⟨o, h⟩
    by_contra hl
    rw [new_tooManyOps (Nat.not_le.mp hl)] at h
    cases h
  · intro h
    obtain ⟨o, ho, -⟩ := new_spec h
    exact ⟨o, ho⟩

/-! ### Entries in use -/

/-- The entries in use. -/
def used (o : Ops) : List StoredOp := o.ops.toList.take o.opsLen.toNat

theorem decode_eq_ok :
    o.decode = .ok l ↔ o.opsLen.toNat ≤ MAX_ACTION_OPS ∧ o.used.mapM StoredOp.tryToOp = .ok l := by
  by_cases h : o.opsLen.toNat > MAX_ACTION_OPS
  · rw [decode, iter, len, if_pos h]
    constructor
    · intro h'
      cases h'
    · rintro ⟨hle, -⟩
      omega
  · rw [decode, iter, len, if_neg h]
    exact ⟨fun h' => ⟨Nat.not_lt.mp h, h'⟩, And.right⟩

/-- The entries of a stored list are those of its ops. -/
theorem used_new (h : new l = .ok o) : o.used = l.map StoredOp.ofOp := by
  obtain ⟨o', ho', hlen, hops⟩ := new_spec (exists_new_iff.mp ⟨o, h⟩)
  rw [h] at ho'
  cases ho'
  rw [used, hlen, hops]
  exact List.take_left' (List.length_map _)

/-- Decoding them returns the ops. -/
theorem decode_new (h : new l = .ok o) : o.decode = .ok l := by
  have hle := exists_new_iff.mp ⟨o, h⟩
  obtain ⟨o', ho', hlen, -⟩ := new_spec hle
  rw [h] at ho'
  cases ho'
  rw [decode_eq_ok, hlen, used_new h]
  exact ⟨hle, StoredOp.canonical.mapM.decodes (mapM_ok_eq_map _ _)⟩

/-- The ops read from entries are stored as these entries. -/
theorem used_of_decode (h : o.decode = .ok l) : o.used = l.map StoredOp.ofOp := by
  have hcode := StoredOp.canonical.mapM.encodes (decode_eq_ok.mp h).2
  exact Except.ok.inj (hcode.symm.trans (mapM_ok_eq_map _ _))

theorem length_of_decode (h : o.decode = .ok l) : l.length = o.opsLen.toNat := by
  have hused := congrArg List.length (used_of_decode h)
  rw [used, List.length_take, Vector.length_toList, List.length_map] at hused
  have hle := (decode_eq_ok.mp h).1
  omega

end Ops

/-- **Stored ops are a canonical code.**  A list is stored exactly when it has at most 32 ops,
and then decodes to itself; entries that all decode are, byte for byte, the stored form of
what they decode to, so no other entries decode to it. -/
theorem stored_ops_canonical :
    (∀ l : List Op, ((∃ o, Ops.new l = .ok o) ↔ l.length ≤ 32) ∧
      ∀ o, Ops.new l = .ok o → o.decode = .ok l) ∧
    (∀ o : Ops, o.opsLen.toNat ≤ 32 → (∀ s ∈ o.used, ∃ op, s.tryToOp = .ok op) →
      ∃ l o', o.decode = .ok l ∧ Ops.new l = .ok o' ∧ o'.used = o.used ∧ o'.opsLen = o.opsLen) ∧
    ∀ (o o' : Ops) (l : List Op), o.decode = .ok l → o'.decode = .ok l →
      o.used = o'.used ∧ o.opsLen = o'.opsLen := by
  refine ⟨fun l => ⟨Ops.exists_new_iff, fun o h => Ops.decode_new h⟩, ?_, ?_⟩
  · intro o hlen hall
    obtain ⟨l, hl⟩ := exists_mapM_ok.mpr hall
    have hdecode : o.decode = .ok l := Ops.decode_eq_ok.mpr ⟨hlen, hl⟩
    have hlength := Ops.length_of_decode hdecode
    obtain ⟨o', hnew, hlen', -⟩ := Ops.new_spec (hlength.trans_le hlen)
    refine ⟨l, o', hdecode, hnew, ?_, BitVec.eq_of_toNat_eq (hlen'.trans hlength)⟩
    rw [Ops.used_new hnew, Ops.used_of_decode hdecode]
  · intro o o' l h h'
    refine ⟨by rw [Ops.used_of_decode h, Ops.used_of_decode h'], ?_⟩
    apply BitVec.eq_of_toNat_eq
    rw [← Ops.length_of_decode h, ← Ops.length_of_decode h']

namespace Sample

/-- One op of each kind. -/
def allOps : List Op :=
  [.noop, .ingestInstruction 513 7, .ingestAccount 9, .ingestInstructionDataSize,
    .ingestSiblingInstruction (-1) 0 8, .ingestSiblingAccount 2 5]

end Sample

theorem stored_ops_canonical_all :
    (∃ o, Ops.new Sample.allOps = .ok o ∧ o.decode = .ok Sample.allOps) ∧
      ∃ l o', (Sample.storedOps [⟨1, 7, 1, 2⟩, ⟨4, 255, 0, 8⟩]).decode = .ok l ∧
        Ops.new l = .ok o' ∧
        o'.used = (Sample.storedOps [⟨1, 7, 1, 2⟩, ⟨4, 255, 0, 8⟩]).used := by
  obtain ⟨hnew, hcode, -⟩ := stored_ops_canonical
  obtain ⟨hiff, hdecode⟩ := hnew Sample.allOps
  obtain ⟨o, ho⟩ := hiff.mpr (by decide)
  obtain ⟨l, o', hl, ho', hused, -⟩ :=
    hcode (Sample.storedOps [⟨1, 7, 1, 2⟩, ⟨4, 255, 0, 8⟩]) (by decide) (by
      have hu : (Sample.storedOps [⟨1, 7, 1, 2⟩, ⟨4, 255, 0, 8⟩]).used =
          [⟨1, 7, 1, 2⟩, ⟨4, 255, 0, 8⟩] := by decide +kernel
      rw [hu]
      simp [StoredOp.tryToOp])
  exact ⟨⟨o, ho, hdecode o ho⟩, l, o', hl, ho', hused⟩

end Roshi

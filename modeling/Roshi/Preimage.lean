import Roshi.Ops

/-!
# The preimage buffer

`compute_action_hash_from_metas` builds the bytes it hashes in one buffer, which
`preimage_len` sizes beforehand from the ops alone; it replaced an algorithm that collected
the pieces of every op and hashed their concatenation.  `chunkedPreimage` is that algorithm.

Both spell the record of every op in order (`actionPreimage_iff_records`,
`chunkedPreimage_iff_records`), so the buffer is the concatenation of the pieces and as long
as the sizes of the ops add up to (`preimage_exact`).
-/

namespace Roshi

open Lib

/-! ### The chunked algorithm -/

section Chunks

variable (accounts : List AccountMeta) (ixData : List U8) (siblings : List ResolvedSibling)

/-- The pieces of one op: its tag, its parameters and what it ingests. -/
def opChunks : Op → Except ActionHashError (List (List U8))
  | .noop => .ok [[0]]
  | .ingestInstruction offset len => do
    let slice ← instructionSlice ixData offset.toNat len
    .ok [[1], toLeBytes 2 offset, [len], slice.toList]
  | .ingestAccount index => do
    let account ← okOr accounts[index.toNat]? .accountIndexOutOfBounds
    .ok [[2], [index], account.pubkey.toList, [boolByte account.isSigner],
      [boolByte account.isWritable]]
  | .ingestInstructionDataSize => do
    rejectIf (2 ^ 32 ≤ ixData.length) .invalidInstructionData
    .ok [[3], toLeBytes 4 (BitVec.ofNat 32 ixData.length)]
  | .ingestSiblingInstruction relativeIndex offset len => do
    let sibling ← resolveSibling siblings relativeIndex
    let slice ← instructionSlice sibling.data offset.toNat len
    .ok [[4], [relativeIndex.toBitVec], sibling.programId.toList, [offset], [len], slice.toList]
  | .ingestSiblingAccount relativeIndex index => do
    let sibling ← resolveSibling siblings relativeIndex
    let account ← okOr sibling.accounts[index.toNat]? .accountIndexOutOfBounds
    .ok [[5], [relativeIndex.toBitVec], [index], account.toList]

/-- Those of a stored op. -/
def storedChunks (stored : StoredOp) : Except ActionHashError (List (List U8)) := do
  opChunks accounts ixData siblings (← stored.tryToOp)

/-- The pieces that were hashed: the program id, then those of each op in order. -/
def chunkedPreimage (programId : Pubkey) (ops : Ops) :
    Except ActionHashError (List (List U8)) := do
  let pieces ← (← ops.iter).mapM (storedChunks accounts ixData siblings)
  .ok (programId.toList :: pieces.flatten)

end Chunks

/-- What an op adds to the length. -/
def opSize : Op → Nat
  | .noop => 1
  | .ingestInstruction _ len => 4 + len.toNat
  | .ingestAccount _ => 36
  | .ingestInstructionDataSize => 5
  | .ingestSiblingInstruction _ _ len => 36 + len.toNat
  | .ingestSiblingAccount _ _ => 35

/-! ### One op -/

section Exact

variable {accounts : List AccountMeta} {ixData : List U8} {siblings : List ResolvedSibling}
  {programId : Pubkey} {ops : Ops}

/-- The pieces of an op spell the record of what it commits to. -/
theorem flatten_opChunks (op : Op) :
    (opChunks accounts ixData siblings op).map List.flatten =
      (commit accounts ixData siblings op).map Commitment.encode := by
  cases op with
  | noop => rfl
  | _ => simp only [opChunks, commit, map_bind_eq, map_ok, Commitment.encode, Commitment.tag,
      Commitment.body, List.flatten_cons, List.flatten_nil, List.append_nil, List.cons_append,
      List.nil_append]

/-- A record is as long as the size of its op says. -/
theorem length_encode (c : Commitment) : c.encode.length = opSize c.op := by
  cases c with
  | noop => rfl
  | instruction offset len slice =>
    simp [Commitment.encode, Commitment.body, Commitment.op, opSize, toLeBytes]
    omega
  | account index pubkey isSigner isWritable =>
    simp [Commitment.encode, Commitment.body, Commitment.op, opSize]
  | instructionDataSize size =>
    simp [Commitment.encode, Commitment.body, Commitment.op, opSize, toLeBytes]
  | siblingInstruction relativeIndex programId offset len slice =>
    simp [Commitment.encode, Commitment.body, Commitment.op, opSize]
    omega
  | siblingAccount relativeIndex index pubkey =>
    simp [Commitment.encode, Commitment.body, Commitment.op, opSize]

/-! ### The loops -/

theorem foldl_opSize (l : List Op) (n : Nat) :
    l.foldl (fun len op => len + opSize op) n = n + (l.map opSize).sum := by
  induction l generalizing n with
  | nil => rfl
  | cons op l ih => rw [List.foldl_cons, ih, List.map_cons, List.sum_cons, Nat.add_assoc]

/-- The length is the size of the program id and those of the ops. -/
theorem preimageLen_eq :
    preimageLen ops = ops.decode.map fun l => 32 + (l.map opSize).sum := by
  simp only [← foldl_opSize]
  rw [preimageLen, Ops.decode, map_bind_eq]
  congr 1
  funext stored
  refine foldlM_eq_map_mapM ?_ stored 32
  intro len s
  cases s.tryToOp with
  | error e => rfl
  | ok op => cases op <;> rfl

/-- **The sizes of ops** are the lengths of their records. -/
theorem sum_opSize {l : List Op} {cs : List Commitment}
    (h : l.mapM (commit accounts ixData siblings) = .ok cs) :
    (l.map opSize).sum = (cs.flatMap Commitment.encode).length := by
  rw [← map_op_of_forall₂ (mapM_eq_ok.mp h), List.map_map, List.length_flatMap]
  congr 1
  exact List.map_congr_left fun c _ => (length_encode c).symm

/-- The buffer is the program id and the records of the ops, which it was sized for. -/
theorem actionPreimage_iff_records {b : List U8} :
    actionPreimage accounts ixData siblings programId ops = .ok b ↔
      ∃ l cs, ops.decode = .ok l ∧ l.mapM (commit accounts ixData siblings) = .ok cs ∧
        programId.toList ++ cs.flatMap Commitment.encode = b := by
  simp only [actionPreimage, preimageLen_eq, Ops.decode, bind_eq_ok, map_eq_ok,
    foldlM_ingestOp_eq_ok]
  constructor
  · rintro ⟨_, -, stored, hstored, l, cs, hl, hcs, hb⟩
    exact ⟨l, cs, ⟨stored, hstored, hl⟩, hcs, hb⟩
  · rintro ⟨l, cs, ⟨stored, hstored, hl⟩, hcs, hb⟩
    exact ⟨_, ⟨l, ⟨stored, hstored, hl⟩, rfl⟩, stored, hstored, l, cs, hl, hcs, hb⟩

/-- So is what the chunked algorithm concatenates. -/
theorem chunkedPreimage_iff_records {b : List U8} :
    (∃ chunks, chunkedPreimage accounts ixData siblings programId ops = .ok chunks ∧
        chunks.flatten = b) ↔
      ∃ l cs, ops.decode = .ok l ∧ l.mapM (commit accounts ixData siblings) = .ok cs ∧
        programId.toList ++ cs.flatMap Commitment.encode = b := by
  have hrecords : ∀ l : List Op,
      (l.mapM (opChunks accounts ixData siblings)).map (List.map List.flatten) =
        (l.mapM (commit accounts ixData siblings)).map (List.map Commitment.encode) := by
    intro l
    simp only [map_mapM, flatten_opChunks]
  have hstored : storedChunks accounts ixData siblings =
      fun s => s.tryToOp >>= opChunks accounts ixData siblings := rfl
  simp only [chunkedPreimage, Ops.decode, hstored, bind_eq_ok, mapM_bind_eq_ok, Except.ok.injEq]
  constructor
  · rintro ⟨_, ⟨stored, hiter, pieces, ⟨l, hl, hpieces⟩, rfl⟩, hb⟩
    have hl' := hrecords l
    rw [hpieces, map_ok, eq_comm, map_eq_ok] at hl'
    obtain ⟨cs, hcs, heq⟩ := hl'
    refine ⟨l, cs, ⟨stored, hiter, hl⟩, hcs, ?_⟩
    rw [List.flatMap_def, heq, ← List.flatten_flatten, ← List.flatten_cons, hb]
  · rintro ⟨l, cs, ⟨stored, hiter, hl⟩, hcs, hb⟩
    have hl' := hrecords l
    rw [hcs, map_ok, map_eq_ok] at hl'
    obtain ⟨pieces, hpieces, heq⟩ := hl'
    refine ⟨_, ⟨stored, hiter, pieces, ⟨l, hl, hpieces⟩, rfl⟩, ?_⟩
    rw [List.flatten_cons, List.flatten_flatten, heq, ← List.flatMap_def, hb]

/-- **The buffer is what the chunked algorithm concatenates.** -/
theorem actionPreimage_iff {b : List U8} :
    actionPreimage accounts ixData siblings programId ops = .ok b ↔
      ∃ chunks, chunkedPreimage accounts ixData siblings programId ops = .ok chunks ∧
        chunks.flatten = b :=
  actionPreimage_iff_records.trans chunkedPreimage_iff_records.symm

/-- **The size is exact.** -/
theorem preimageLen_of_preimage {b : List U8}
    (h : actionPreimage accounts ixData siblings programId ops = .ok b) :
    preimageLen ops = .ok b.length := by
  obtain ⟨l, cs, hl, hcs, rfl⟩ := actionPreimage_iff_records.mp h
  rw [preimageLen_eq, hl, map_ok, sum_opSize hcs, List.length_append, Vector.length_toList]

/-- Sizing the buffer fails on a stored op that does not decode, or past the capacity. -/
theorem preimageLen_error_iff :
    (∃ e, preimageLen ops = .error e) ↔
      MAX_ACTION_OPS < ops.opsLen.toNat ∨ ∃ s ∈ ops.used, ∃ e, s.tryToOp = .error e := by
  have hok : (∃ n, preimageLen ops = .ok n) ↔
      ops.opsLen.toNat ≤ MAX_ACTION_OPS ∧ ∀ s ∈ ops.used, ∃ op, s.tryToOp = .ok op := by
    rw [preimageLen_eq, ← exists_mapM_ok]
    simp only [map_eq_ok, Ops.decode_eq_ok]
    constructor
    · rintro ⟨_, l, ⟨hlen, hl⟩, -⟩
      exact ⟨hlen, l, hl⟩
    · rintro ⟨hlen, l, hl⟩
      exact ⟨_, l, ⟨hlen, hl⟩, rfl⟩
  simp only [exists_eq_error, hok, not_and_or, not_le, not_forall]
  simp only [exists_prop]

end Exact

/-- **The preimage buffer is exact.**  A call reaches the hash with the concatenation of the
program id and of the pieces of its ops, in order, and `preimage_len` is the length of it;
sizing fails exactly on a stored op in use that does not decode, and past 32 ops. -/
theorem preimage_exact (rt : Runtime) (accounts : List AccountMeta) (ixData : List U8)
    (siblings : List ResolvedSibling) (programId : Pubkey) (ops : Ops) :
    (∀ b, actionPreimage accounts ixData siblings programId ops = .ok b →
      preimageLen ops = .ok b.length ∧
        ∃ chunks, chunkedPreimage accounts ixData siblings programId ops = .ok chunks ∧
          chunks.flatten = b) ∧
    (∀ chunks, chunkedPreimage accounts ixData siblings programId ops = .ok chunks →
      computeActionHashFromMetas rt programId ops accounts ixData siblings =
        .ok (rt.hashv [chunks.flatten])) ∧
    ((∃ e, preimageLen ops = .error e) ↔
      32 < ops.opsLen.toNat ∨
        ∃ s ∈ ops.ops.toList.take ops.opsLen.toNat, ∃ e, s.tryToOp = .error e) := by
  refine ⟨?_, ?_, preimageLen_error_iff⟩
  · intro b h
    exact ⟨preimageLen_of_preimage h, actionPreimage_iff.mp h⟩
  · intro chunks h
    rw [computeActionHashFromMetas, actionPreimage_iff.mpr ⟨chunks, h, rfl⟩]
    rfl

/-- The sample call is hashed from 73 bytes. -/
theorem preimage_exact_sample :
    preimageLen (Sample.actionCall [7, 9]).ops = .ok Sample.actionBytes.length ∧
      ∃ chunks, chunkedPreimage [⟨TOKEN_2022_PROGRAM_ID, false, true⟩] [7, 9] [] TOKEN_PROGRAM_ID
        (Sample.actionCall [7, 9]).ops = .ok chunks ∧ chunks.flatten = Sample.actionBytes :=
  (preimage_exact Sample.actionRuntime [⟨TOKEN_2022_PROGRAM_ID, false, true⟩] [7, 9] []
    TOKEN_PROGRAM_ID (Sample.actionCall [7, 9]).ops).1 Sample.actionBytes (by decide +kernel)

end Roshi

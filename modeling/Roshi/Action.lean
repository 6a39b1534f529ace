import Roshi.Lib.PrefixCode
import Roshi.Runtime

/-!
# Authorization predicates and the action hash

`action.rs` of the interface.  An action stores up to 32 ops, each saying which part of a
downstream call it commits to; the hash of the program id and of one record per op is
the action's identity.

The records stand one after another with no count and no framing, and the slices in them
are chosen by the caller.  Each record still starts with its tag and its own lengths, so
the records form a prefix code (`Commitment.encode_prefixCode`), and two calls with one
preimage agree in the ops and in everything committed
(`action_hash_commits`).
-/

namespace Roshi

open Lib

/-! ### Ops -/

def MAX_ACTION_OPS : Nat := 32

inductive ActionScope where
  | manager
  | swap
  | atomicRedeem
  | flashApprove
  | deploy
  deriving DecidableEq, Repr

inductive Op where
  | noop
  | ingestInstruction (offset : U16) (len : U8)
  | ingestAccount (index : U8)
  | ingestInstructionDataSize
  | ingestSiblingInstruction (relativeIndex : I8) (offset len : U8)
  | ingestSiblingAccount (relativeIndex : I8) (index : U8)
  deriving DecidableEq

inductive ActionHashError where
  | invalidOp
  | tooManyOps
  | instructionSliceOutOfBounds
  | accountIndexOutOfBounds
  | invalidInstructionData
  | missingSibling
  deriving DecidableEq, Repr

structure StoredOp where
  kind : U8
  arg0 : U8
  arg1 : U8
  arg2 : U8
  deriving DecidableEq

def StoredOp.noop : StoredOp := ⟨0, 0, 0, 0⟩

/-- Unused arguments have to be zero. -/
def StoredOp.tryToOp (s : StoredOp) : Except ActionHashError Op :=
  if s.kind = 0 ∧ s.arg0 = 0 ∧ s.arg1 = 0 ∧ s.arg2 = 0 then .ok .noop
  else if s.kind = 1 then .ok (.ingestInstruction (fromLeBytes 16 #v[s.arg1, s.arg2]) s.arg0)
  else if s.kind = 2 ∧ s.arg1 = 0 ∧ s.arg2 = 0 then .ok (.ingestAccount s.arg0)
  else if s.kind = 3 ∧ s.arg0 = 0 ∧ s.arg1 = 0 ∧ s.arg2 = 0 then .ok .ingestInstructionDataSize
  else if s.kind = 4 then .ok (.ingestSiblingInstruction (.ofBitVec s.arg0) s.arg1 s.arg2)
  else if s.kind = 5 ∧ s.arg2 = 0 then .ok (.ingestSiblingAccount (.ofBitVec s.arg0) s.arg1)
  else .error .invalidOp

structure Ops where
  ops : Vector StoredOp MAX_ACTION_OPS
  opsLen : U8
  deriving DecidableEq

namespace Ops

def empty : Ops := ⟨Vector.replicate MAX_ACTION_OPS .noop, 0⟩

def len (o : Ops) : Except ActionHashError Nat :=
  if o.opsLen.toNat > MAX_ACTION_OPS then .error .tooManyOps else .ok o.opsLen.toNat

def isEmpty (o : Ops) : Except ActionHashError Bool := do
  .ok ((← o.len) == 0)

/-- The stored ops in use; each is decoded when it is reached. -/
def iter (o : Ops) : Except ActionHashError (List StoredOp) := do
  .ok (o.ops.toList.take (← o.len))

/-- All of them decoded. -/
def decode (o : Ops) : Except ActionHashError (List Op) := do
  (← o.iter).mapM StoredOp.tryToOp

end Ops

/-! ### The hash -/

structure AccountMeta where
  pubkey : Pubkey
  isSigner : Bool
  isWritable : Bool
  deriving DecidableEq

/-- A top-level sibling instruction already read from the transaction. -/
structure ResolvedSibling where
  relativeIndex : I8
  programId : Pubkey
  data : List U8
  accounts : List Pubkey

/-- `&data[offset..offset + len]`. -/
def instructionSlice (data : List U8) (offset : Nat) (len : U8) :
    Except ActionHashError (Bytes len.toNat) :=
  if h : offset + len.toNat ≤ data.length then
    .ok ⟨((data.drop offset).take len.toNat).toArray, by simp; omega⟩
  else .error .instructionSliceOutOfBounds

def resolveSibling (siblings : List ResolvedSibling) (relativeIndex : I8) :
    Except ActionHashError ResolvedSibling :=
  okOr (siblings.find? fun s => s.relativeIndex = relativeIndex) .missingSibling

/-- The size the buffer is allocated with; reading it decodes every op once. -/
def preimageLen (ops : Ops) : Except ActionHashError Nat := do
  (← ops.iter).foldlM (fun len stored => do
    match ← stored.tryToOp with
    | .noop => .ok (len + 1)
    | .ingestInstruction _ l => .ok (len + (4 + l.toNat))
    | .ingestAccount _ => .ok (len + 36)
    | .ingestInstructionDataSize => .ok (len + 5)
    | .ingestSiblingInstruction _ _ l => .ok (len + (36 + l.toNat))
    | .ingestSiblingAccount _ _ => .ok (len + 35)) 32

/-- `u8::from(bool)`. -/
def boolByte (b : Bool) : U8 := if b then 1 else 0

section Hash

variable (accounts : List AccountMeta) (ixData : List U8) (siblings : List ResolvedSibling)

/-- One pass of the loop: the record of one op is pushed. -/
def ingestOp (preimage : List U8) (stored : StoredOp) : Except ActionHashError (List U8) := do
  match ← stored.tryToOp with
  | .noop => .ok (preimage ++ [0])
  | .ingestInstruction offset len => do
    let slice ← instructionSlice ixData offset.toNat len
    .ok (preimage ++ [1] ++ toLeBytes 2 offset ++ [len] ++ slice.toList)
  | .ingestAccount index => do
    let account ← okOr accounts[index.toNat]? .accountIndexOutOfBounds
    .ok (preimage ++ [2] ++ [index] ++ account.pubkey.toList ++ [boolByte account.isSigner] ++
      [boolByte account.isWritable])
  | .ingestInstructionDataSize => do
    rejectIf (2 ^ 32 ≤ ixData.length) .invalidInstructionData
    let dataLen := BitVec.ofNat 32 ixData.length
    .ok (preimage ++ [3] ++ toLeBytes 4 dataLen)
  | .ingestSiblingInstruction relativeIndex offset len => do
    let sibling ← resolveSibling siblings relativeIndex
    let slice ← instructionSlice sibling.data offset.toNat len
    .ok (preimage ++ [4] ++ [relativeIndex.toBitVec] ++ sibling.programId.toList ++ [offset] ++
      [len] ++ slice.toList)
  | .ingestSiblingAccount relativeIndex index => do
    let sibling ← resolveSibling siblings relativeIndex
    let account ← okOr sibling.accounts[index.toNat]? .accountIndexOutOfBounds
    .ok (preimage ++ [5] ++ [relativeIndex.toBitVec] ++ [index] ++ account.toList)

/-- The bytes that are hashed. -/
def actionPreimage (programId : Pubkey) (ops : Ops) : Except ActionHashError (List U8) := do
  let _ ← preimageLen ops
  (← ops.iter).foldlM (ingestOp accounts ixData siblings) programId.toList

end Hash

def computeActionHashFromMetas (rt : Runtime) (programId : Pubkey) (ops : Ops)
    (accounts : List AccountMeta) (ixData : List U8) (siblings : List ResolvedSibling) :
    Except ActionHashError (Bytes 32) := do
  .ok (rt.hashv [← actionPreimage accounts ixData siblings programId ops])

/-! ### What a hash commits to -/

/-- The values one op commits to. -/
inductive Commitment where
  | noop
  | instruction (offset : U16) (len : U8) (slice : Bytes len.toNat)
  | account (index : U8) (pubkey : Pubkey) (isSigner isWritable : Bool)
  | instructionDataSize (size : U32)
  | siblingInstruction (relativeIndex : I8) (programId : Pubkey) (offset len : U8)
      (slice : Bytes len.toNat)
  | siblingAccount (relativeIndex : I8) (index : U8) (pubkey : Pubkey)
  deriving DecidableEq

namespace Commitment

/-- The op they were committed by. -/
def op : Commitment → Op
  | .noop => .noop
  | .instruction offset len _ => .ingestInstruction offset len
  | .account index _ _ _ => .ingestAccount index
  | .instructionDataSize _ => .ingestInstructionDataSize
  | .siblingInstruction relativeIndex _ offset len _ =>
    .ingestSiblingInstruction relativeIndex offset len
  | .siblingAccount relativeIndex index _ => .ingestSiblingAccount relativeIndex index

def tag : Commitment → U8
  | .noop => 0
  | .instruction .. => 1
  | .account .. => 2
  | .instructionDataSize _ => 3
  | .siblingInstruction .. => 4
  | .siblingAccount .. => 5

/-- A record without its tag. -/
def body : Commitment → List U8
  | .noop => []
  | .instruction offset len slice => toLeBytes 2 offset ++ ([len] ++ slice.toList)
  | .account index pubkey isSigner isWritable =>
    [index] ++ (pubkey.toList ++ ([boolByte isSigner] ++ [boolByte isWritable]))
  | .instructionDataSize size => toLeBytes 4 size
  | .siblingInstruction relativeIndex programId offset len slice =>
    [relativeIndex.toBitVec] ++ (programId.toList ++ ([offset] ++ ([len] ++ slice.toList)))
  | .siblingAccount relativeIndex index pubkey =>
    [relativeIndex.toBitVec] ++ ([index] ++ pubkey.toList)

def encode (c : Commitment) : List U8 := c.tag :: c.body

end Commitment

/-- What `op` commits to in a call. -/
def commit (accounts : List AccountMeta) (ixData : List U8) (siblings : List ResolvedSibling) :
    Op → Except ActionHashError Commitment
  | .noop => .ok .noop
  | .ingestInstruction offset len => do
    .ok (.instruction offset len (← instructionSlice ixData offset.toNat len))
  | .ingestAccount index => do
    let account ← okOr accounts[index.toNat]? .accountIndexOutOfBounds
    .ok (.account index account.pubkey account.isSigner account.isWritable)
  | .ingestInstructionDataSize => do
    rejectIf (2 ^ 32 ≤ ixData.length) .invalidInstructionData
    .ok (.instructionDataSize (BitVec.ofNat 32 ixData.length))
  | .ingestSiblingInstruction relativeIndex offset len => do
    let sibling ← resolveSibling siblings relativeIndex
    let slice ← instructionSlice sibling.data offset.toNat len
    .ok (.siblingInstruction relativeIndex sibling.programId offset len slice)
  | .ingestSiblingAccount relativeIndex index => do
    let sibling ← resolveSibling siblings relativeIndex
    let account ← okOr sibling.accounts[index.toNat]? .accountIndexOutOfBounds
    .ok (.siblingAccount relativeIndex index account)

/-! ### The records are a prefix code -/

theorem bytes_prefixCode (n : Nat) : PrefixCode fun b : Bytes n => b.toList :=
  .of_length (fun _ _ h => Vector.toList_inj.mp h) fun a b => by simp

theorem toLeBytes_prefixCode {w k : Nat} (h : 2 ^ w ≤ 256 ^ k) :
    PrefixCode fun x : BitVec w => toLeBytes k x := by
  refine .of_length ?_ fun a b => by simp [toLeBytes]
  intro a b hab
  have harray : toLeArray k a = toLeArray k b := Vector.toList_inj.mp hab
  rw [← fromLeBytes_toLeArray h a, harray, fromLeBytes_toLeArray h]

theorem boolByte_prefixCode : PrefixCode fun b : Bool => [boolByte b] := by
  refine .of_length ?_ fun _ _ => rfl
  intro a b hab
  cases a <;> cases b <;> first | rfl | exact absurd hab (by decide)

theorem i8_prefixCode : PrefixCode fun i : I8 => [i.toBitVec] := by
  intro a b s t he
  exact Int8.toBitVec_inj.mp (PrefixCode.singleton he)

/-- Under one tag, the body of a record is recognised whatever follows it. -/
theorem Commitment.body_inj {a b : Commitment} {s t : List U8} (htag : a.tag = b.tag)
    (he : a.body ++ s = b.body ++ t) : a = b := by
  cases a with
  | noop =>
    cases b with
    | noop => rfl
    | _ => simp [tag] at htag
  | instruction offset len slice =>
    cases b with
    | instruction offset' len' slice' =>
      simp only [body, List.append_assoc] at he
      obtain ⟨rfl, he₁⟩ := (toLeBytes_prefixCode (by norm_num)).append_inj he
      obtain ⟨rfl, he₂⟩ := PrefixCode.singleton.append_inj he₁
      obtain ⟨rfl, -⟩ := (bytes_prefixCode _).append_inj he₂
      rfl
    | _ => simp [tag] at htag
  | account index pubkey isSigner isWritable =>
    cases b with
    | account index' pubkey' isSigner' isWritable' =>
      simp only [body, List.append_assoc] at he
      obtain ⟨rfl, he₁⟩ := PrefixCode.singleton.append_inj he
      obtain ⟨rfl, he₂⟩ := (bytes_prefixCode _).append_inj he₁
      obtain ⟨rfl, he₃⟩ := boolByte_prefixCode.append_inj he₂
      obtain ⟨rfl, -⟩ := boolByte_prefixCode.append_inj he₃
      rfl
    | _ => simp [tag] at htag
  | instructionDataSize size =>
    cases b with
    | instructionDataSize size' =>
      obtain ⟨rfl, -⟩ := (toLeBytes_prefixCode (by norm_num)).append_inj he
      rfl
    | _ => simp [tag] at htag
  | siblingInstruction relativeIndex programId offset len slice =>
    cases b with
    | siblingInstruction relativeIndex' programId' offset' len' slice' =>
      simp only [body, List.append_assoc] at he
      obtain ⟨rfl, he₁⟩ := i8_prefixCode.append_inj he
      obtain ⟨rfl, he₂⟩ := (bytes_prefixCode _).append_inj he₁
      obtain ⟨rfl, he₃⟩ := PrefixCode.singleton.append_inj he₂
      obtain ⟨rfl, he₄⟩ := PrefixCode.singleton.append_inj he₃
      obtain ⟨rfl, -⟩ := (bytes_prefixCode _).append_inj he₄
      rfl
    | _ => simp [tag] at htag
  | siblingAccount relativeIndex index pubkey =>
    cases b with
    | siblingAccount relativeIndex' index' pubkey' =>
      simp only [body, List.append_assoc] at he
      obtain ⟨rfl, he₁⟩ := i8_prefixCode.append_inj he
      obtain ⟨rfl, he₂⟩ := PrefixCode.singleton.append_inj he₁
      obtain ⟨rfl, -⟩ := (bytes_prefixCode _).append_inj he₂
      rfl
    | _ => simp [tag] at htag

theorem Commitment.encode_prefixCode : PrefixCode Commitment.encode := by
  intro a b s t he
  obtain ⟨htag, hbody⟩ := List.cons.inj he
  exact body_inj htag hbody

/-! ### The loop -/

section Loop

variable {accounts : List AccountMeta} {ixData : List U8} {siblings : List ResolvedSibling}

/-- A commitment names its op. -/
theorem commit_op {op : Op} {c : Commitment} (h : commit accounts ixData siblings op = .ok c) :
    c.op = op := by
  cases op with
  | noop =>
    cases h
    rfl
  | _ =>
    simp only [commit, bind_eq_ok, Except.ok.injEq] at h
    obtain ⟨_, -, h⟩ := h
    first
    | cases h; rfl
    | obtain ⟨_, -, h⟩ := h; cases h; rfl

/-- **One pass of the loop** pushes the record of what the op commits to. -/
theorem ingestOp_eq_map (preimage : List U8) (stored : StoredOp) :
    ingestOp accounts ixData siblings preimage stored =
      (stored.tryToOp >>= commit accounts ixData siblings).map fun c => preimage ++ c.encode := by
  rw [ingestOp, map_bind_eq]
  congr 1
  funext op
  cases op with
  | noop => rfl
  | _ => simp only [commit, map_bind_eq, map_ok, Commitment.encode, Commitment.tag,
      Commitment.body, List.append_assoc, List.cons_append, List.nil_append]

/-- **The loop** pushes one record per op, in order. -/
theorem foldlM_ingestOp_eq_ok {stored : List StoredOp} {preimage b : List U8} :
    stored.foldlM (ingestOp accounts ixData siblings) preimage = .ok b ↔
      ∃ ops cs, stored.mapM StoredOp.tryToOp = .ok ops ∧
        ops.mapM (commit accounts ixData siblings) = .ok cs ∧
        preimage ++ cs.flatMap Commitment.encode = b := by
  rw [foldlM_eq_map_mapM ingestOp_eq_map]
  simp only [map_eq_ok, mapM_bind_eq_ok, List.foldl_append_eq_append, List.flatMap_def]
  constructor
  · rintro ⟨cs, ⟨ops, hops, hcs⟩, hb⟩
    exact ⟨ops, cs, hops, hcs, hb⟩
  · rintro ⟨ops, cs, hops, hcs, hb⟩
    exact ⟨cs, ⟨ops, hops, hcs⟩, hb⟩

/-- The preimage is the program id and the records of the decoded ops. -/
theorem actionPreimage_eq_ok {programId : Pubkey} {ops : Ops} {b : List U8}
    (h : actionPreimage accounts ixData siblings programId ops = .ok b) :
    ∃ l cs, ops.decode = .ok l ∧
      List.Forall₂ (fun op c => commit accounts ixData siblings op = .ok c) l cs ∧
      b = programId.toList ++ cs.flatMap Commitment.encode := by
  simp only [actionPreimage, bind_eq_ok] at h
  obtain ⟨_, -, stored, hstored, h⟩ := h
  obtain ⟨l, cs, hl, hcs, hb⟩ := foldlM_ingestOp_eq_ok.mp h
  refine ⟨l, cs, ?_, mapM_eq_ok.mp hcs, hb.symm⟩
  rw [Ops.decode, hstored]
  exact hl

/-- The ops are read off the commitments. -/
theorem map_op_of_forall₂ {l : List Op} {cs : List Commitment}
    (h : List.Forall₂ (fun op c => commit accounts ixData siblings op = .ok c) l cs) :
    cs.map Commitment.op = l := by
  induction h with
  | nil => rfl
  | cons hc _ ih => rw [List.map_cons, ih, commit_op hc]

end Loop

/-! ### Two calls -/

/-- The arguments of one `compute_action_hash_from_metas`. -/
structure ActionCall where
  programId : Pubkey
  ops : Ops
  accounts : List AccountMeta
  ixData : List U8
  siblings : List ResolvedSibling

namespace ActionCall

def preimage (c : ActionCall) : Except ActionHashError (List U8) :=
  actionPreimage c.accounts c.ixData c.siblings c.programId c.ops

def hash (rt : Runtime) (c : ActionCall) : Except ActionHashError (Bytes 32) :=
  computeActionHashFromMetas rt c.programId c.ops c.accounts c.ixData c.siblings

def commit (c : ActionCall) (op : Op) : Except ActionHashError Commitment :=
  Roshi.commit c.accounts c.ixData c.siblings op

/-- The same program, the same ops, and the same value committed by each of them. -/
structure Agree (c c' : ActionCall) : Prop where
  program : c.programId = c'.programId
  committed : ∃ l, c.ops.decode = .ok l ∧ c'.ops.decode = .ok l ∧
    ∀ op ∈ l, ∃ x, c.commit op = .ok x ∧ c'.commit op = .ok x

theorem hash_eq_ok {rt : Runtime} {c : ActionCall} {d : Bytes 32} :
    c.hash rt = .ok d ↔ ∃ b, c.preimage = .ok b ∧ rt.hashv [b] = d := by
  simp only [hash, computeActionHashFromMetas, bind_eq_ok, Except.ok.injEq]
  rfl

/-- **The preimage is injective** on what is committed. -/
theorem preimage_inj {c c' : ActionCall} {b : List U8} (h : c.preimage = .ok b)
    (h' : c'.preimage = .ok b) : c.Agree c' := by
  obtain ⟨l, cs, hl, hcs, rfl⟩ := actionPreimage_eq_ok h
  obtain ⟨l', cs', hl', hcs', he⟩ := actionPreimage_eq_ok h'
  obtain ⟨hprogram, hrecords⟩ := (bytes_prefixCode 32).append_inj he
  have hne : ∀ x : Commitment, x.encode ≠ [] := fun x => List.cons_ne_nil _ _
  obtain rfl := Commitment.encode_prefixCode.flatMap_injective hne hrecords
  obtain rfl : l = l' := (map_op_of_forall₂ hcs).symm.trans (map_op_of_forall₂ hcs')
  refine ⟨hprogram, l, hl, hl', ?_⟩
  intro op hop
  obtain ⟨i, hi, rfl⟩ := List.getElem_of_mem hop
  have hi' : i < cs.length := hcs.length_eq ▸ hi
  exact ⟨cs[i], hcs.get hi hi', hcs'.get hi hi'⟩

end ActionCall

/-- **The action hash commits.**  Two calls with one preimage agree in the program, the ops
and every committed value; two calls with one hash agree, or their preimages are a
collision. -/
theorem action_hash_commits (rt : Runtime) (c c' : ActionCall) (b b' : List U8)
    (h : c.preimage = .ok b) (h' : c'.preimage = .ok b') :
    (b = b' → c.Agree c') ∧
      (c.hash rt = c'.hash rt → c.Agree c' ∨ b ≠ b' ∧ rt.hashv [b] = rt.hashv [b']) := by
  refine ⟨fun hb => ActionCall.preimage_inj h (hb ▸ h'), ?_⟩
  intro hhash
  by_cases hb : b = b'
  · exact .inl (ActionCall.preimage_inj h (hb ▸ h'))
  · refine .inr ⟨hb, ?_⟩
    have hd : c.hash rt = .ok (rt.hashv [b]) := ActionCall.hash_eq_ok.mpr ⟨b, h, rfl⟩
    have hd' : c'.hash rt = .ok (rt.hashv [b']) := ActionCall.hash_eq_ok.mpr ⟨b', h', rfl⟩
    rw [hd, hd'] at hhash
    exact Except.ok.inj hhash

namespace Sample

/-- Stored ops from their bytes. -/
def storedOps (l : List StoredOp) : Ops :=
  ⟨(Vector.replicate MAX_ACTION_OPS .noop).mapIdx fun i s => l.getD i s, BitVec.ofNat 8 l.length⟩

/-- Commits to the first byte of the data and to the first account. -/
def actionCall (ixData : List U8) : ActionCall where
  programId := TOKEN_PROGRAM_ID
  ops := storedOps [⟨1, 1, 0, 0⟩, ⟨2, 0, 0, 0⟩]
  accounts := [⟨TOKEN_2022_PROGRAM_ID, false, true⟩]
  ixData := ixData
  siblings := []

/-- The preimage of a call that starts with the byte 7. -/
def actionBytes : List U8 :=
  TOKEN_PROGRAM_ID.toList ++ [1, 0, 0, 1, 7] ++ [2, 0] ++ TOKEN_2022_PROGRAM_ID.toList ++ [0, 1]

/-- Its SHA-256. -/
def actionDigest : Bytes 32 :=
  #v[237, 224, 236, 151, 4, 246, 50, 114, 36, 202, 160, 119, 241, 232, 58, 101, 177,
    211, 188, 143, 215, 6, 35, 187, 242, 90, 177, 53, 171, 102, 223, 161]

/-- A runtime that hashes nothing else. -/
def actionRuntime : Runtime where
  findProgramAddress _ _ := (Bytes.zero 32, 0)
  hashv chunks := if chunks = [actionBytes] then actionDigest else Bytes.zero 32

end Sample

theorem action_hash_commits_first_byte :
    (Sample.actionCall [7]).Agree (Sample.actionCall [7, 9]) :=
  (action_hash_commits Sample.actionRuntime (Sample.actionCall [7]) (Sample.actionCall [7, 9])
    Sample.actionBytes Sample.actionBytes (by decide +kernel) (by decide +kernel)).1 rfl

end Roshi

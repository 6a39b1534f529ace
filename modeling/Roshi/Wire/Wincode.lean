import Roshi.Action
import Roshi.Lib.Codec
import Roshi.Oracle.Pyth
import Roshi.Relay.Flags
import Roshi.State.Vault

/-!
# Wincode

Instructions and accounts are serialized with `wincode`.  A struct is its fields in order, an
array its elements, an enumeration with `tag_encoding = "u8"` one byte; how integers, flags,
strings and vectors are written is the library's own, so it is a parameter here, and any way of
writing them that is self-delimiting will do.

The two padded structs are read with their padding, which nothing looks at afterwards.
-/

namespace Roshi

open Lib

/-- The words of the primitive types. -/
structure Wincode where
  u16 : Codec U8 U16
  u32 : Codec U8 U32
  u64 : Codec U8 U64
  i64 : Codec U8 I64
  bool : Codec U8 Bool
  string : Codec U8 String
  vec : {α : Type} → Codec U8 α → Codec U8 (List α)

/-- A byte is written as it is. -/
def Wincode.u8 : Codec U8 U8 := .single

/-- `[u8; n]`. -/
def Wincode.bytes (n : Nat) : Codec U8 (Bytes n) := u8.vector n

/-! ### Strings -/

/-- `str::as_bytes`. -/
def strBytes (s : String) : List U8 := s.toByteArray.data.toList.map UInt8.toBitVec

/-- `str::from_utf8`. -/
def strOfBytes (bytes : List U8) : Option String :=
  String.fromUTF8? ⟨(bytes.map UInt8.ofBitVec).toArray⟩

theorem strOfBytes_eq_some {bytes : List U8} {s : String} :
    strBytes s = bytes ↔ strOfBytes bytes = some s := by
  constructor
  · rintro rfl
    have hback : (⟨((strBytes s).map UInt8.ofBitVec).toArray⟩ : ByteArray) = s.toByteArray := by
      rw [strBytes, List.map_map]
      exact ByteArray.ext (Array.toList_inj.mp (List.map_id _))
    rw [strOfBytes, hback, String.fromUTF8?, dif_pos s.isValidUTF8]
    rfl
  · intro h
    rw [strOfBytes, String.fromUTF8?] at h
    split at h
    · cases h
      show ((bytes.map UInt8.ofBitVec).toArray.toList).map UInt8.toBitVec = bytes
      rw [List.map_map]
      exact List.map_id _
    · cases h

theorem strBytes_injective : Function.Injective strBytes := by
  intro s t h
  exact Option.some.inj ((strOfBytes_eq_some.mp h).symm.trans (strOfBytes_eq_some.mp rfl))

/-! ### Shared values -/

def ActionScope.tag : ActionScope → U8
  | .manager => 0
  | .swap => 1
  | .atomicRedeem => 2
  | .flashApprove => 3
  | .deploy => 4

def ActionScope.ofTag (tag : U8) : Option ActionScope :=
  match tag.toNat with
  | 0 => some .manager
  | 1 => some .swap
  | 2 => some .atomicRedeem
  | 3 => some .flashApprove
  | 4 => some .deploy
  | _ => none

/-- Every other tag is rejected. -/
theorem ActionScope.ofTag_eq_some {tag : U8} {scope : ActionScope} :
    scope.tag = tag ↔ ActionScope.ofTag tag = some scope := by
  constructor
  · rintro rfl
    cases scope <;> rfl
  · intro h
    unfold ActionScope.ofTag at h
    split at h <;> cases h
    all_goals
      rename_i htag
      exact BitVec.eq_of_toNat_eq htag.symm

namespace Wincode

variable (wc : Wincode)

def oracleConfig : Codec U8 (OracleConfig × Bytes 7) :=
  ((bytes 192).prod (u8.prod (bytes 7))).equiv
    ⟨fun p => (p.1.legs, p.1.kind, p.2), fun t => (⟨t.1, t.2.1⟩, t.2.2), fun _ => rfl, fun _ => rfl⟩

def vaultControls : Codec U8 (VaultControls × Bytes 2) :=
  (wc.u32.prod (wc.u32.prod (wc.u32.prod (wc.u32.prod (wc.u16.prod (wc.u16.prod
    (wc.u16.prod (bytes 2)))))))).equiv
    { toFun := fun p =>
        (p.1.maxUnlockDurationSecs, p.1.maxReportAgeSecs, p.1.minReportIntervalSecs,
          p.1.cancelGraceSlots, p.1.maxNavGainBps, p.1.atomicRedeemFeeBps,
          p.1.maxSwapSlippageBps, p.2)
      invFun := fun (a, b, c, d, e, f, g, padding) => (⟨a, b, c, d, e, f, g⟩, padding)
      left_inv := fun _ => rfl
      right_inv := fun _ => rfl }

def packedAccountFlags : Codec U8 PackedAccountFlags :=
  (u8.prod (wc.vec u8)).equiv
    ⟨fun p => (p.accountsLen, p.bits), fun t => ⟨t.1, t.2⟩, fun _ => rfl, fun _ => rfl⟩

def storedOp : Codec U8 StoredOp :=
  (u8.prod (u8.prod (u8.prod u8))).equiv
    ⟨fun s => (s.kind, s.arg0, s.arg1, s.arg2), fun t => ⟨t.1, t.2.1, t.2.2.1, t.2.2.2⟩,
      fun _ => rfl, fun _ => rfl⟩

def ops : Codec U8 Ops :=
  ((storedOp.vector MAX_ACTION_OPS).prod u8).equiv
    ⟨fun o => (o.ops, o.opsLen), fun t => ⟨t.1, t.2⟩, fun _ => rfl, fun _ => rfl⟩

def actionScope : Codec U8 ActionScope :=
  u8.refine (fun s => some s.tag) ActionScope.ofTag fun tag scope => by
    rw [Option.some.injEq, ActionScope.ofTag_eq_some]

end Wincode

/-! ### One way to write the primitives -/

namespace Sample

/-- Little-endian, of `k` bytes. -/
def leInteger (w k : Nat) (h : 2 ^ w = 256 ^ k) : Codec U8 (BitVec w) :=
  (Wincode.bytes k).equiv
    { toFun := toLeArray k
      invFun := fromLeBytes w
      left_inv := fromLeBytes_toLeArray h.le
      right_inv := fun b => Vector.toList_inj.mp (toLeBytes_fromLeBytes h.ge b) }

/-- `false` is 0, `true` is 1, nothing else is a flag. -/
def boolCodec : Codec U8 Bool :=
  Codec.single.refine (fun b => some (boolByte b))
    (fun x => if x = 0 then some false else if x = 1 then some true else none) fun x b => by
      cases b <;> simp only [boolByte, Option.some.injEq] <;> grind

/-- A `u64` count, then the elements. -/
def vecCodec {α : Type} (c : Codec U8 α) : Codec U8 (List α) :=
  (leInteger 64 8 rfl).depend (fun n => c.count n.toNat) (fun l => BitVec.ofNat 64 l.length)
    fun h => by
      rw [c.length_of_encode_count h, BitVec.ofNat_toNat, BitVec.setWidth_eq]

def wincode : Wincode where
  u16 := leInteger 16 2 rfl
  u32 := leInteger 32 4 rfl
  u64 := leInteger 64 8 rfl
  i64 := (leInteger 64 8 rfl).equiv Pyth.i64Equiv.symm
  bool := boolCodec
  string := (vecCodec .single).refine (fun s => some (strBytes s)) strOfBytes fun bytes s => by
    rw [Option.some.injEq, strOfBytes_eq_some]
  vec := vecCodec

end Sample

end Roshi

import Roshi.Lib.Checked

/-!
# Integers, keys and errors

The vocabulary of `roshi_interface`: Rust's unsigned integers as bit vectors,
byte arrays as vectors, and the two error types.  `RoshiError` is the program's
own enumeration (`error.rs`); `ProgramError` is Solana's, with `custom` the
image of `From<RoshiError>`, which is what `?` applies when a `MathResult`
meets a `ProgramResult`.
-/

namespace Roshi

abbrev U8 := BitVec 8
abbrev U16 := BitVec 16
abbrev U32 := BitVec 32
abbrev U64 := BitVec 64
abbrev U128 := BitVec 128
abbrev I8 := Int8
abbrev I32 := Int32
abbrev I64 := Int64

/-- `[u8; n]`. -/
abbrev Bytes (n : Nat) := Vector U8 n

/-- Byte arrays are compared as lists, which evaluates faster than by index. -/
instance {n : Nat} : DecidableEq (Bytes n) := fun a b =>
  decidable_of_iff (a.toList = b.toList) Vector.toList_inj

abbrev Pubkey := Bytes 32

instance : LawfulBEq Pubkey := inferInstance

/-- `u128::from(u64)`. -/
def U64.to128 (x : U64) : U128 := x.setWidth' (by decide)

/-- `u64::from(u16)`. -/
def U16.to64 (x : U16) : U64 := x.setWidth' (by decide)

/-- `u64::from(u32)`. -/
def U32.to64 (x : U32) : U64 := x.setWidth' (by decide)

/-- `i64::from(u32)`. -/
def U32.toI64 (x : U32) : I64 := Int64.ofInt x.toNat

@[simp] theorem U64.toNat_to128 (x : U64) : (U64.to128 x).toNat = x.toNat := by
  rw [U64.to128, BitVec.toNat_setWidth']

@[simp] theorem U16.toNat_to64 (x : U16) : (U16.to64 x).toNat = x.toNat := by
  rw [U16.to64, BitVec.toNat_setWidth']

@[simp] theorem U32.toNat_to64 (x : U32) : (U32.to64 x).toNat = x.toNat := by
  rw [U32.to64, BitVec.toNat_setWidth']

@[simp] theorem U32.toInt_toI64 (x : U32) : (U32.toI64 x).toInt = x.toNat := by
  have := x.isLt
  rw [U32.toI64, Lib.toInt_ofInt_of_fits (by omega)]

/-- A product of two `u64`s is exact in `u128`. -/
theorem U64.mul_lt (a b : U64) : a.toNat * b.toNat < 2 ^ 128 :=
  calc a.toNat * b.toNat < 2 ^ 64 * 2 ^ 64 := Nat.mul_lt_mul'' a.isLt b.isLt
    _ = 2 ^ 128 := by norm_num

/-! ### Bytes -/

/-- The `len` bytes of `b` from `offset` on. -/
def Bytes.slice {n : Nat} (b : Bytes n) (offset len : Nat) (h : offset + len ≤ n) : Bytes len :=
  Vector.ofFn fun i => b.get ⟨offset + i.val, by omega⟩

/-- The number a little-endian byte string spells. -/
def leNat (bytes : List U8) : Nat := bytes.foldr (fun b acc => b.toNat + 256 * acc) 0

/-- `uN::from_le_bytes`. -/
def fromLeBytes {n : Nat} (w : Nat) (b : Bytes n) : BitVec w := BitVec.ofNat w (leNat b.toList)

/-- The `k` low bytes of a number, least significant first. -/
def leBytes : Nat → Nat → List U8
  | 0, _ => []
  | k + 1, n => BitVec.ofNat 8 n :: leBytes k (n / 256)

/-- `uN::to_le_bytes`, for an integer of `k` bytes. -/
def toLeBytes {w : Nat} (k : Nat) (x : BitVec w) : List U8 := leBytes k x.toNat

@[simp] theorem length_leBytes (k n : Nat) : (leBytes k n).length = k := by
  induction k generalizing n with
  | zero => rfl
  | succ k ih => rw [leBytes, List.length_cons, ih]

/-- Enough bytes spell the number. -/
theorem leNat_leBytes {k n : Nat} (h : n < 256 ^ k) : leNat (leBytes k n) = n := by
  induction k generalizing n with
  | zero =>
    rw [pow_zero, Nat.lt_one_iff] at h
    rw [h]
    rfl
  | succ k ih =>
    rw [pow_succ, Nat.mul_comm] at h
    have hcons : leNat (leBytes (k + 1) n) = n % 256 + 256 * leNat (leBytes k (n / 256)) := by
      rw [leBytes, leNat, List.foldr_cons, BitVec.toNat_ofNat]
      rfl
    rw [hcons, ih (Nat.div_lt_of_lt_mul h)]
    exact Nat.mod_add_div n 256

/-- And the bytes are recovered from the number. -/
theorem leBytes_leNat (bytes : List U8) : leBytes bytes.length (leNat bytes) = bytes := by
  induction bytes with
  | nil => rfl
  | cons b bytes ih =>
    have hcons : leNat (b :: bytes) = b.toNat + 256 * leNat bytes := rfl
    have hb := b.isLt
    rw [List.length_cons, leBytes, hcons, Nat.add_mul_div_left _ _ (by decide),
      Nat.div_eq_of_lt (by omega), Nat.zero_add, ih]
    congr 1
    apply BitVec.eq_of_toNat_eq
    rw [BitVec.toNat_ofNat]
    omega

theorem leNat_lt (bytes : List U8) : leNat bytes < 256 ^ bytes.length := by
  induction bytes with
  | nil => decide
  | cons b bytes ih =>
    have hcons : leNat (b :: bytes) = b.toNat + 256 * leNat bytes := rfl
    have hb := b.isLt
    rw [hcons, List.length_cons, pow_succ]
    omega

/-- `uN::to_le_bytes`, as an array. -/
def toLeArray {w : Nat} (k : Nat) (x : BitVec w) : Bytes k :=
  ⟨(toLeBytes k x).toArray, by simp [toLeBytes]⟩

@[simp] theorem toList_toLeArray {w : Nat} (k : Nat) (x : BitVec w) :
    (toLeArray k x).toList = toLeBytes k x := rfl

/-- Enough bytes hold the integer. -/
theorem fromLeBytes_toLeArray {w k : Nat} (h : 2 ^ w ≤ 256 ^ k) (x : BitVec w) :
    fromLeBytes w (toLeArray k x) = x := by
  apply BitVec.eq_of_toNat_eq
  rw [fromLeBytes, toList_toLeArray, toLeBytes, leNat_leBytes (x.isLt.trans_le h),
    BitVec.toNat_ofNat, Nat.mod_eq_of_lt x.isLt]

/-- No more bytes than the integer has are all kept. -/
theorem toLeBytes_fromLeBytes {w n : Nat} (h : 256 ^ n ≤ 2 ^ w) (b : Bytes n) :
    toLeBytes n (fromLeBytes w b) = b.toList := by
  have hlen : b.toList.length = n := by simp
  have hlt := leNat_lt b.toList
  have hback := leBytes_leNat b.toList
  rw [hlen] at hlt hback
  rw [toLeBytes, fromLeBytes, BitVec.toNat_ofNat, Nat.mod_eq_of_lt (hlt.trans_le h), hback]

/-- `l.get(start..end)`. -/
def getRange {α : Type} (l : List α) (start stop : Nat) : Option (List α) :=
  if start ≤ stop ∧ stop ≤ l.length then some ((l.drop start).take (stop - start)) else none

theorem getRange_eq_some {α : Type} {l r : List α} {start stop : Nat}
    (h : getRange l start stop = some r) :
    start ≤ stop ∧ stop ≤ l.length ∧ r = (l.drop start).take (stop - start) := by
  unfold getRange at h
  split at h
  · rename_i hle
    exact ⟨hle.1, hle.2, (Option.some.inj h).symm⟩
  · cases h

/-- `[0; n]`. -/
def Bytes.zero (n : Nat) : Bytes n := Vector.replicate n 0

/-! ### Errors -/

/-- The program's own errors, in the order of their codes. -/
inductive RoshiError where
  | invalidOp
  | instructionSliceOutOfBounds
  | accountIndexOutOfBounds
  | invalidBps
  | vaultPaused
  | unauthorizedAction
  | invalidProgramConfigAccount
  | invalidVaultAccount
  | invalidActionAccount
  | invalidWithdrawalTicketAccount
  | invalidAssetAccount
  | invalidAccessProof
  | invalidVaultTag
  | divisionByZero
  | invalidDecimals
  | invalidVaultState
  | overflow
  | resultDoesNotFit
  | zeroOutput
  | slippageExceeded
  | invalidTokenAccount
  | invalidMintAccount
  | externalDisabled
  | withdrawalExceedsEntitlement
  | insufficientShares
  | invalidSubAccount
  | invalidExternalDestinationAccount
  | invalidWriteDownAmount
  | staleNavReport
  | navGainExceedsBound
  | reportTooFrequent
  | depositCapExceeded
  | externalDestinationNotRegistered
  | unpriceableSwapLeg
  | missingInstructionsSysvar
  | requiredSiblingMissing
  | flashDelegateUnbounded
  | flashDelegateMismatch
  | flashDestinationMismatch
  | siblingsRequireTopLevel
  | delegateNotCleared
  | flashFeeRateNotLower
  | swapCustodyMoved
  | emptyAtomicRedeemOps
  | unboundAtomicRedeemAccount
  | zeroSharePrice
  | depositsMustBePaused
  | emptyDeployOps
  | unboundDeployAccount
  | deployAmountMismatch
  deriving DecidableEq, Repr

/-- Solana's `ProgramError`, as far as the program raises or relays it.
`token` stands for whatever a token-program CPI failed with, `cpi` for any other
failed CPI, `panicked` for an abort. -/
inductive ProgramError where
  | custom (e : RoshiError)
  | invalidArgument
  | invalidInstructionData
  | invalidAccountData
  | incorrectProgramId
  | missingRequiredSignature
  | accountAlreadyInitialized
  | notEnoughAccountKeys
  | invalidSeeds
  | illegalOwner
  | token
  | cpi
  | panicked
  deriving DecidableEq, Repr

abbrev MathResult (α : Type) := Except RoshiError α

abbrev ProgramResult (α : Type) := Except ProgramError α

/-- The `?` that turns a `RoshiError` into a `ProgramError`. -/
def into {α : Type} (x : MathResult α) : ProgramResult α := x.mapError .custom

@[simp] theorem into_eq_ok {α : Type} {x : MathResult α} {a : α} : into x = .ok a ↔ x = .ok a :=
  Lib.mapError_eq_ok

end Roshi

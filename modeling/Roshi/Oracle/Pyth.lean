import Mathlib.Data.Rat.Floor
import Roshi.Conversion
import Roshi.Lib.Cursor
import Roshi.Oracle.Layout
import Roshi.Oracle.Scope

/-!
# Reading a Pyth price

`oracle/pyth.rs`.  A price update account holds a discriminator and a `PriceUpdateV2`, whose
verification level is one byte or two, so that the fields behind it have no fixed offsets.  A
verified read takes a fully verified, fresh and narrow update of the configured feed and
restates its price at the configured decimals.

`PriceUpdateV2.encode` is the format; parsing accepts exactly its encodings, whatever follows
them (`PriceUpdate.parse_eq_some`).  The price a read returns is the floor of the published
one at the configured scale, or there is none (`scalePrice_eq_some`).  A read succeeds exactly
when `PythVerified` holds of an update the bytes encode (`pyth_read_spec`).
-/

namespace Roshi

open Lib

/-- The pinned price update account, if not all-zero. -/
def PythOracleConfig.pinnedPriceUpdateAccount (config : PythOracleConfig) : Option (Bytes 32) :=
  if config.priceUpdateAccount = Bytes.zero 32 then none else some config.priceUpdateAccount

namespace Pyth

def PRICE_UPDATE_V2_DISCRIMINATOR : List U8 := [0x22, 0xf1, 0x23, 0x63, 0x9d, 0x7e, 0xf4, 0xcd]

/-- rec5EKMGg6MxZYaMdyBfgwp4d5rB9T1VQH5pJv5LtFJ -/
def SOLANA_RECEIVER_PROGRAM_ID : Pubkey :=
  #v[12, 183, 250, 187, 82, 247, 166, 72, 187, 91, 49, 125, 154, 1, 139, 144, 87, 203, 2, 71, 116,
    250, 254, 1, 230, 196, 223, 152, 204, 56, 88, 129]

/-- How far the guardians' signatures were checked. -/
inductive VerificationLevel where
  | partially (numSignatures : U8)
  | full
  deriving DecidableEq

structure Price where
  feedId : Bytes 32
  price : I64
  conf : U64
  exponent : I32
  publishTime : I64
  deriving DecidableEq

structure PriceUpdate where
  verificationLevel : VerificationLevel
  price : Price
  postedSlot : U64
  deriving DecidableEq

/-! ### The parser -/

section Parser

variable (data : List U8)

/-- The cursor stays within the data, so moving it does not overflow. -/
def readBytes (len : Nat) : Cursor (List U8) := fun offset => do
  let stop := offset + len
  let bytes ← getRange data offset stop
  some (bytes, stop)

def readArray (n : Nat) : Cursor (Bytes n) := do
  let bytes ← readBytes data n
  Scope.toArray n bytes

def readU8 : Cursor U8 := do
  let bytes ← readBytes data 1
  return bytes.headD 0

def readI32 : Cursor I32 := do
  return .ofBitVec (fromLeBytes 32 (← readArray data 4))

def readI64 : Cursor I64 := do
  return .ofBitVec (fromLeBytes 64 (← readArray data 8))

def readU64 : Cursor U64 := do
  return fromLeBytes 64 (← readArray data 8)

/-- What the tag asks for. -/
def VerificationLevel.parseTagged (tag : U8) : Cursor VerificationLevel :=
  match tag.toNat with
  | 0 => do return .partially (← readU8 data)
  | 1 => return .full
  | _ => failure

def VerificationLevel.parse : Cursor VerificationLevel := do
  parseTagged data (← readU8 data)

/-- The three fields behind a price are read and dropped. -/
def Price.parse : Cursor Price := do
  let feedId ← readArray data 32
  let price ← readI64 data
  let conf ← readU64 data
  let exponent ← readI32 data
  let publishTime ← readI64 data
  let _prevPublishTime ← readI64 data
  let _emaPrice ← readI64 data
  let _emaConf ← readU64 data
  return { feedId, price, conf, exponent, publishTime }

/-- What stands behind the discriminator. -/
def PriceUpdate.parseBody : Cursor PriceUpdate := do
  let _writeAuthority ← readArray data 32
  let verificationLevel ← VerificationLevel.parse data
  let price ← Price.parse data
  let postedSlot ← readU64 data
  return { verificationLevel, price, postedSlot }

def PriceUpdate.parse : Option PriceUpdate :=
  if data.length < PRICE_UPDATE_V2_DISCRIMINATOR.length
      ∨ data.take 8 ≠ PRICE_UPDATE_V2_DISCRIMINATOR then none
  else (parseBody data).run' 8

end Parser

/-! ### The reader -/

def confidenceWithinBounds (price : U128) (confidence : U64) (maxConfidenceBps : U16) : Bool :=
  if maxConfidenceBps = 0 then true
  else
    match checkedMul (U64.to128 confidence) (U64.to128 (U16.to64 BPS_DENOMINATOR)),
      checkedMul price (U64.to128 (U16.to64 maxConfidenceBps)) with
    | some confidenceBps, some maxConfidence => confidenceBps ≤ maxConfidence
    | _, _ => false

def scalePrice (price : U128) (exponent : I32) (decimals : U8) : Option U128 := do
  let scale ← checkedAddI32 (Int32.ofInt decimals.toNat) exponent
  if scale ≥ 0 then
    checkedMul price (← checkedPow 10 scale.toInt.toNat)
  else
    let divisor ← checkedPow 10 (← checkedAbsI32 scale).toInt.toNat
    some (price / divisor)

variable (config : PythOracleConfig)

def priceFromPyth (price : Price) : Option OraclePrice := do
  if price.price ≤ 0 then none
  else
    let value ← tryFromI 128 price.price
    if confidenceWithinBounds value price.conf config.maxConfidenceBps = false then none
    else
      let value ← scalePrice value price.exponent config.priceDecimals
      if value = 0 then none
      else some { value, decimals := config.priceDecimals }

def readVerifiedUpdate (priceUpdate : PriceUpdate) (unixTimestamp : I64) :
    ProgramResult OraclePrice := do
  rejectIf (config.maxAgeSeconds > Int64.maxValue.toBitVec) .invalidAccountData
  rejectIf (priceUpdate.verificationLevel ≠ .full
      ∨ priceUpdate.price.feedId ≠ config.feedId
      ∨ saturatingAddI priceUpdate.price.publishTime (.ofBitVec config.maxAgeSeconds)
        < unixTimestamp)
    .invalidAccountData
  okOr (priceFromPyth config priceUpdate.price) .invalidAccountData

/-- `PythOracle::read_verified_price`. -/
def readVerifiedPrice (priceUpdateAccount : Scope.KeyedAccount) (unixTimestamp : I64) :
    ProgramResult OraclePrice := do
  rejectIf (config.pinnedPriceUpdateAccount.any (priceUpdateAccount.key ≠ ·)) .invalidAccountData
  rejectIf (priceUpdateAccount.account.owner ≠ SOLANA_RECEIVER_PROGRAM_ID) .illegalOwner
  let priceUpdate ← okOr (PriceUpdate.parse priceUpdateAccount.account.data) .invalidAccountData
  readVerifiedUpdate config priceUpdate unixTimestamp

/-! ### The format -/

def VerificationLevel.encode : VerificationLevel → List U8
  | .partially numSignatures => [0, numSignatures]
  | .full => [1]

/-- The `PriceUpdateV2` message, with what the reader drops. -/
structure PriceUpdateV2 where
  writeAuthority : Bytes 32
  verificationLevel : VerificationLevel
  price : Price
  prevPublishTime : I64
  emaPrice : I64
  emaConf : U64
  postedSlot : U64

def Price.encode (p : Price) : List U8 :=
  p.feedId.toList ++ (toLeBytes 8 p.price.toBitVec ++ (toLeBytes 8 p.conf ++
    (toLeBytes 4 p.exponent.toBitVec ++ toLeBytes 8 p.publishTime.toBitVec)))

def PriceUpdateV2.encode (m : PriceUpdateV2) : List U8 :=
  PRICE_UPDATE_V2_DISCRIMINATOR ++ (m.writeAuthority.toList ++ (m.verificationLevel.encode ++
    (m.price.encode ++ (toLeBytes 8 m.prevPublishTime.toBitVec ++
      (toLeBytes 8 m.emaPrice.toBitVec ++ (toLeBytes 8 m.emaConf ++
        toLeBytes 8 m.postedSlot))))))

/-- What the reader keeps. -/
def PriceUpdateV2.update (m : PriceUpdateV2) : PriceUpdate where
  verificationLevel := m.verificationLevel
  price := m.price
  postedSlot := m.postedSlot

section Format

variable {data : List U8}

theorem reads_bytes (len : Nat) :
    Cursor.Reads data (readBytes data len) fun bytes w => w = bytes ∧ bytes.length = len := by
  intro offset bytes offset' hle
  simp only [readBytes, Option.bind_eq_bind, Option.bind_eq_some_iff, Option.some.injEq,
    Prod.mk.injEq]
  constructor
  · rintro ⟨_, hrange, rfl, rfl⟩
    obtain ⟨-, hstop, rfl⟩ := getRange_eq_some hrange
    have hlen : ((data.drop offset).take (offset + len - offset)).length = len := by
      rw [List.length_take, List.length_drop]
      omega
    exact ⟨_, _, ⟨rfl, hlen⟩, (List.take_append_drop _ _).symm, by rw [hlen]⟩
  · rintro ⟨w, rest, ⟨rfl, rfl⟩, hdrop, rfl⟩
    refine ⟨_, Scope.getRange_of_le (Cursor.Reads.end_le hle hdrop), ?_, rfl⟩
    rw [hdrop, List.take_left]

theorem reads_array (n : Nat) :
    Cursor.Reads data (readArray data n) fun b w => w = b.toList := by
  refine ((reads_bytes n).bind fun bytes => Cursor.Reads.lift (Scope.toArray n bytes)).congr ?_
  intro b w
  simp only [Scope.toArray]
  constructor
  · rintro ⟨bytes, w₁, w₂, ⟨rfl, hlen⟩, ⟨hb, rfl⟩, rfl⟩
    rw [dif_pos hlen, Option.some.injEq] at hb
    rw [← hb, List.append_nil]
    rfl
  · rintro rfl
    refine ⟨b.toList, _, [], ⟨rfl, b.length_toList⟩, ⟨?_, rfl⟩, (List.append_nil _).symm⟩
    rw [dif_pos b.length_toList]
    rfl

theorem reads_u8 : Cursor.Reads data (readU8 data) fun b w => w = [b] := by
  refine ((reads_bytes 1).bind fun bytes => Cursor.Reads.pure (bytes.headD 0)).congr ?_
  intro b w
  constructor
  · rintro ⟨bytes, w₁, w₂, ⟨rfl, hlen⟩, ⟨rfl, rfl⟩, rfl⟩
    obtain ⟨c, rfl⟩ := List.length_eq_one_iff.mp hlen
    rfl
  · rintro rfl
    exact ⟨[b], _, [], ⟨rfl, rfl⟩, ⟨rfl, rfl⟩, rfl⟩

/-- `k` bytes spell each integer of their width once. -/
def leEquiv (k w : Nat) (h : 256 ^ k = 2 ^ w) : Bytes k ≃ BitVec w where
  toFun := fromLeBytes w
  invFun := toLeArray k
  left_inv b := by
    apply Vector.toList_inj.mp
    rw [toList_toLeArray, toLeBytes_fromLeBytes h.le]
  right_inv x := fromLeBytes_toLeArray h.ge x

def i64Equiv : U64 ≃ I64 where
  toFun := .ofBitVec
  invFun := Int64.toBitVec
  left_inv _ := rfl
  right_inv _ := rfl

def i32Equiv : U32 ≃ I32 where
  toFun := .ofBitVec
  invFun := Int32.toBitVec
  left_inv _ := rfl
  right_inv _ := rfl

theorem reads_u64 : Cursor.Reads data (readU64 data) fun x w => w = toLeBytes 8 x :=
  (reads_array 8).equiv (leEquiv 8 64 (by decide))

theorem reads_i64 : Cursor.Reads data (readI64 data) fun x w => w = toLeBytes 8 x.toBitVec :=
  (reads_array 8).equiv ((leEquiv 8 64 (by decide)).trans i64Equiv)

theorem reads_i32 : Cursor.Reads data (readI32 data) fun x w => w = toLeBytes 4 x.toBitVec :=
  (reads_array 4).equiv ((leEquiv 4 32 (by decide)).trans i32Equiv)

/-- The tag decides how many bytes follow. -/
theorem reads_levelTagged (tag : U8) :
    Cursor.Reads data (VerificationLevel.parseTagged data tag) fun level w =>
      level.encode = tag :: w := by
  unfold VerificationLevel.parseTagged
  split
  case h_1 h =>
    obtain rfl : tag = 0 := BitVec.eq_of_toNat_eq h
    refine (reads_u8.field fun n => Cursor.Reads.pure (VerificationLevel.partially n)).congr ?_
    intro level w
    constructor
    · rintro ⟨n, _, ⟨rfl, rfl⟩, rfl⟩
      rfl
    · intro henc
      cases level with
      | partially n =>
        obtain rfl := (List.cons.inj henc).2
        exact ⟨n, [], ⟨rfl, rfl⟩, rfl⟩
      | full => cases (List.cons.inj henc).1
  case h_2 h =>
    obtain rfl : tag = 1 := BitVec.eq_of_toNat_eq h
    refine (Cursor.Reads.pure VerificationLevel.full).congr ?_
    intro level w
    constructor
    · rintro ⟨rfl, rfl⟩
      rfl
    · intro henc
      cases level with
      | partially n => cases (List.cons.inj henc).1
      | full => exact ⟨rfl, (List.cons.inj henc).2.symm⟩
  case h_3 h₀ h₁ =>
    refine Cursor.Reads.failure.congr ?_
    intro level w
    refine ⟨False.elim, ?_⟩
    intro henc
    cases level with
    | partially n => exact h₀ (congrArg BitVec.toNat (List.cons.inj henc).1).symm
    | full => exact h₁ (congrArg BitVec.toNat (List.cons.inj henc).1).symm

theorem reads_level :
    Cursor.Reads data (VerificationLevel.parse data) fun level w => w = level.encode := by
  refine (reads_u8.field reads_levelTagged).congr ?_
  intro level w
  constructor
  · rintro ⟨tag, w', henc, rfl⟩
    exact henc.symm
  · rintro rfl
    cases level with
    | partially n => exact ⟨0, [n], rfl, rfl⟩
    | full => exact ⟨1, [], rfl, rfl⟩

theorem reads_price :
    Cursor.Reads data (Price.parse data) fun p w =>
      ∃ (prevPublishTime emaPrice : I64) (emaConf : U64),
        w = p.encode ++ (toLeBytes 8 prevPublishTime.toBitVec ++
          (toLeBytes 8 emaPrice.toBitVec ++ toLeBytes 8 emaConf)) := by
  refine (Cursor.Reads.field (reads_array 32) fun feedId => reads_i64.field fun price =>
    reads_u64.field fun conf => reads_i32.field fun exponent => reads_i64.field fun publishTime =>
    reads_i64.field fun _ => reads_i64.field fun _ => reads_u64.field fun _ =>
    Cursor.Reads.pure
      ({ feedId, price, conf, exponent, publishTime } : Price)).congr ?_
  intro p w
  constructor
  · rintro ⟨feedId, _, ⟨price, _, ⟨conf, _, ⟨exponent, _, ⟨publishTime, _, ⟨prev, _, ⟨ema, _,
      ⟨emaConf, _, ⟨rfl, rfl⟩, rfl⟩, rfl⟩, rfl⟩, rfl⟩, rfl⟩, rfl⟩, rfl⟩, rfl⟩
    refine ⟨prev, ema, emaConf, ?_⟩
    simp only [Price.encode, List.append_assoc, List.append_nil]
  · rintro ⟨prev, ema, emaConf, rfl⟩
    refine ⟨p.feedId, _, ⟨p.price, _, ⟨p.conf, _, ⟨p.exponent, _, ⟨p.publishTime, _, ⟨prev, _,
      ⟨ema, _, ⟨emaConf, [], ⟨rfl, rfl⟩, rfl⟩, rfl⟩, rfl⟩, rfl⟩, rfl⟩, rfl⟩, rfl⟩, ?_⟩
    simp only [Price.encode, List.append_assoc, List.append_nil]

theorem reads_body :
    Cursor.Reads data (PriceUpdate.parseBody data) fun u w =>
      ∃ m : PriceUpdateV2, m.update = u ∧ PRICE_UPDATE_V2_DISCRIMINATOR ++ w = m.encode := by
  refine (Cursor.Reads.field (reads_array 32) fun _ => reads_level.field fun verificationLevel =>
    reads_price.bind fun price => reads_u64.field fun postedSlot =>
    Cursor.Reads.pure
      ({ verificationLevel, price, postedSlot } : PriceUpdate)).congr ?_
  intro u w
  constructor
  · rintro ⟨writeAuthority, _, ⟨level, _, ⟨price, _, _, ⟨prev, ema, emaConf, rfl⟩,
      ⟨postedSlot, _, ⟨rfl, rfl⟩, rfl⟩, rfl⟩, rfl⟩, rfl⟩
    refine ⟨⟨writeAuthority, level, price, prev, ema, emaConf, postedSlot⟩, rfl, ?_⟩
    simp only [PriceUpdateV2.encode, List.append_assoc, List.append_nil]
  · rintro ⟨m, rfl, hw⟩
    obtain rfl := List.append_cancel_left hw
    refine ⟨m.writeAuthority, _, ⟨m.verificationLevel, _, ⟨m.price, _, _,
      ⟨m.prevPublishTime, m.emaPrice, m.emaConf, rfl⟩,
      ⟨m.postedSlot, [], ⟨rfl, rfl⟩, rfl⟩, rfl⟩, rfl⟩, ?_⟩
    simp only [List.append_assoc, List.append_nil]

/-- **Parsing accepts exactly the encodings**, whatever follows them. -/
theorem PriceUpdate.parse_eq_some {u : PriceUpdate} :
    parse data = some u ↔ ∃ m rest, data = PriceUpdateV2.encode m ++ rest ∧ m.update = u := by
  have hrun : (parseBody data).run' 8 = some u ↔ ∃ offset, parseBody data 8 = some (u, offset) := by
    show Option.map _ (parseBody data 8) = some u ↔ _
    rw [Option.map_eq_some_iff, Prod.exists]
    constructor
    · rintro ⟨_, offset, h, rfl⟩
      exact ⟨offset, h⟩
    · rintro ⟨offset, h⟩
      exact ⟨u, offset, h, rfl⟩
  have hsize : PRICE_UPDATE_V2_DISCRIMINATOR.length = 8 := rfl
  rw [parse]
  split
  case isTrue hbad =>
    refine ⟨nofun, ?_⟩
    rintro ⟨m, rest, rfl, -⟩
    rw [PriceUpdateV2.encode, List.append_assoc, List.length_append,
      List.take_left' hsize] at hbad
    rcases hbad with hlt | hne
    · omega
    · exact absurd rfl hne
  case isFalse hgood =>
    rw [not_or, not_lt, not_not, hsize] at hgood
    have hsplit : data = PRICE_UPDATE_V2_DISCRIMINATOR ++ data.drop 8 := by
      rw [← hgood.2, List.take_append_drop]
    rw [hrun]
    constructor
    · rintro ⟨offset, h⟩
      obtain ⟨w, rest, ⟨m, hm, hw⟩, hdrop, -⟩ := (reads_body 8 u offset hgood.1).mp h
      refine ⟨m, rest, ?_, hm⟩
      rw [hsplit, hdrop, ← List.append_assoc, hw]
    · rintro ⟨m, rest, hdata, hm⟩
      refine ⟨_, (reads_body 8 u _ hgood.1).mpr ⟨_, rest, ⟨m, hm, rfl⟩, ?_, rfl⟩⟩
      rw [hdata, PriceUpdateV2.encode, List.append_assoc, List.drop_left' hsize]

end Format

/-! ### Scaling -/

/-- The price that was published. -/
def Price.published (p : Price) : ℚ := p.price.toInt * 10 ^ p.exponent.toInt

/-- The floor of the published price at a scale. -/
def Price.scaled (p : Price) (decimals : U8) : Nat :=
  ⌊(p.price.toInt : ℚ) * 10 ^ (p.exponent.toInt + decimals.toNat)⌋₊

theorem floor_mul_pow10 (x k : Nat) : ⌊(x : ℚ) * 10 ^ (k : ℤ)⌋₊ = x * 10 ^ k := by
  rw [zpow_natCast]
  exact_mod_cast Nat.floor_natCast (R := ℚ) (x * 10 ^ k)

theorem floor_mul_pow10_neg (x k : Nat) : ⌊(x : ℚ) * 10 ^ (-(k : ℤ))⌋₊ = x / 10 ^ k := by
  rw [zpow_neg, zpow_natCast, ← div_eq_mul_inv, ← Nat.floor_div_eq_div (K := ℚ)]
  push_cast
  rfl

section Scale

variable {price v : U128} {exponent : I32} {decimals : U8}

theorem toInt_ofInt_u8 (d : U8) : (Int32.ofInt d.toNat).toInt = d.toNat := by
  have hd := d.isLt
  exact Int32.toInt_ofInt_of_le (by omega) (by omega)

theorem scale_eq_some {scale : I32} :
    checkedAddI32 (Int32.ofInt decimals.toNat) exponent = some scale ↔
      scale.toInt = exponent.toInt + decimals.toNat := by
  rw [checkedAddI32_eq_some, toInt_ofInt_u8, Int.add_comm]

/-- Every power of ten within `u128` is that of a scale. -/
theorem exists_scale {k : Nat} (h : 10 ^ k < 2 ^ 128) :
    (∃ scale : I32, scale.toInt = k) ∧ ∃ scale : I32, scale.toInt = -k := by
  have hk := pow10_lt_iff.mp h
  exact ⟨⟨Int32.ofInt k, Int32.toInt_ofInt_of_le (by omega) (by omega)⟩,
    ⟨Int32.ofInt (-k), Int32.toInt_ofInt_of_le (by omega) (by omega)⟩⟩

/-- The power of ten of a scale that is not negative. -/
theorem checkedPow_scale {scale : I32} {power : U128} {k : Nat} (h : scale.toInt = k) :
    checkedPow 10 scale.toInt.toNat = some power ↔ power.toNat = 10 ^ k := by
  rw [checkedPow_eq_some, h]
  rfl

/-- Towards more decimals. -/
theorem scalePrice_up {k : Nat} (hk : exponent.toInt + decimals.toNat = k) :
    scalePrice price exponent decimals = some v ↔
      10 ^ k < 2 ^ 128 ∧ v.toNat = price.toNat * 10 ^ k := by
  have hpos : ∀ {scale : I32}, scale.toInt = k → scale ≥ 0 := by
    intro scale hs
    rw [ge_iff_le, Int32.le_iff_toInt_le, hs]
    exact Int.natCast_nonneg k
  simp only [scalePrice, Option.bind_eq_bind, Option.bind_eq_some_iff, scale_eq_some, hk]
  constructor
  · rintro ⟨scale, hs, h⟩
    rw [if_pos (hpos hs), Option.bind_eq_some_iff] at h
    obtain ⟨power, hpower, hmul⟩ := h
    rw [checkedPow_scale hs] at hpower
    rw [checkedMul_eq_some, hpower] at hmul
    exact ⟨hpower ▸ power.isLt, hmul⟩
  · rintro ⟨hlt, hv⟩
    obtain ⟨scale, hs⟩ := (exists_scale hlt).1
    obtain ⟨power, hpower⟩ := exists_toNat_eq hlt
    refine ⟨scale, hs, ?_⟩
    rw [if_pos (hpos hs), Option.bind_eq_some_iff]
    exact ⟨power, (checkedPow_scale hs).mpr hpower, checkedMul_eq_some.mpr (hpower ▸ hv)⟩

/-- Towards fewer. -/
theorem scalePrice_down {k : Nat} (h0 : 0 < k) (hk : exponent.toInt + decimals.toNat = -k) :
    scalePrice price exponent decimals = some v ↔
      10 ^ k < 2 ^ 128 ∧ v.toNat = price.toNat / 10 ^ k := by
  have hneg : ∀ {scale : I32}, scale.toInt = -k → ¬ scale ≥ 0 := by
    intro scale hs
    rw [ge_iff_le, Int32.le_iff_toInt_le, hs, Int32.toInt_zero]
    omega
  have habs : ∀ {scale size : I32}, scale.toInt = -k →
      (checkedAbsI32 scale = some size ↔ size.toInt = k) := by
    intro scale size hs
    rw [checkedAbsI32_eq_some, hs, abs_neg, Nat.abs_cast]
  simp only [scalePrice, Option.bind_eq_bind, Option.bind_eq_some_iff, scale_eq_some, hk]
  constructor
  · rintro ⟨scale, hs, h⟩
    rw [if_neg (hneg hs)] at h
    simp only [Option.bind_eq_some_iff, Option.some.injEq] at h
    obtain ⟨size, hsize, divisor, hdivisor, rfl⟩ := h
    rw [checkedPow_scale ((habs hs).mp hsize)] at hdivisor
    exact ⟨hdivisor ▸ divisor.isLt, by rw [BitVec.toNat_udiv, hdivisor]⟩
  · rintro ⟨hlt, hv⟩
    obtain ⟨⟨size, hsize⟩, scale, hs⟩ := exists_scale hlt
    obtain ⟨divisor, hdivisor⟩ := exists_toNat_eq hlt
    refine ⟨scale, hs, ?_⟩
    rw [if_neg (hneg hs)]
    simp only [Option.bind_eq_some_iff, Option.some.injEq]
    refine ⟨size, (habs hs).mpr hsize, divisor, (checkedPow_scale hsize).mpr hdivisor, ?_⟩
    rw [← BitVec.toNat_inj, BitVec.toNat_udiv, hdivisor, hv]

/-- **Scaling is the floor**, or the floor is zero or unrepresentable: wherever a step
overflows, a price that is not zero has such a floor. -/
theorem scalePrice_eq_some (hprice : 0 < price.toNat) :
    scalePrice price exponent decimals = some v ∧ v ≠ 0 ↔
      v.toNat = ⌊(price.toNat : ℚ) * 10 ^ (exponent.toInt + decimals.toNat)⌋₊ ∧ v ≠ 0 := by
  have hv := v.isLt
  refine and_congr_left fun hne => ?_
  rw [ne_eq, eq_zero_iff] at hne
  obtain ⟨k, hk | hk⟩ := Int.eq_nat_or_neg (exponent.toInt + decimals.toNat)
  · rw [scalePrice_up hk, hk, floor_mul_pow10]
    refine ⟨And.right, fun heq => ⟨?_, heq⟩⟩
    calc 10 ^ k ≤ price.toNat * 10 ^ k := Nat.le_mul_of_pos_left _ hprice
      _ = v.toNat := heq.symm
      _ < 2 ^ 128 := hv
  · rcases Nat.eq_zero_or_pos k with rfl | h0
    · rw [scalePrice_up (k := 0) hk, hk, floor_mul_pow10_neg, pow_zero, Nat.mul_one, Nat.div_one]
      exact ⟨And.right, fun heq => ⟨by norm_num, heq⟩⟩
    · rw [scalePrice_down h0 hk, hk, floor_mul_pow10_neg]
      refine ⟨And.right, fun heq => ⟨?_, heq⟩⟩
      have hle : 10 ^ k ≤ price.toNat := by
        by_contra hlt
        rw [Nat.div_eq_of_lt (by omega)] at heq
        exact hne heq
      exact hle.trans_lt price.isLt

example : scalePrice 123456789 (-8) 6 = some 1234567 := by decide

end Scale

/-! ### What a read requires -/

/-- Everything a verified read checks of the account and the update it holds. -/
structure PythVerified (config : PythOracleConfig) (account : Scope.KeyedAccount) (now : I64)
    (m : PriceUpdateV2) : Prop where
  pinned : config.priceUpdateAccount = Bytes.zero 32 ∨ account.key = config.priceUpdateAccount
  owner : account.account.owner = SOLANA_RECEIVER_PROGRAM_ID
  encoded : ∃ rest, account.account.data = m.encode ++ rest
  level : m.verificationLevel = .full
  feed_id : m.price.feedId = config.feedId
  max_age_le : (config.maxAgeSeconds.toNat : ℤ) ≤ 2 ^ 63 - 1
  fresh : now.toInt - m.price.publishTime.toInt ≤ config.maxAgeSeconds.toNat
  price_pos : 0 < m.price.price.toInt
  narrow : (m.price.conf.toNat : ℤ) * 10000 ≤ m.price.price.toInt * config.maxConfidenceBps.toNat
  scaled_pos : 0 < m.price.scaled config.priceDecimals
  scaled_lt : m.price.scaled config.priceDecimals < 2 ^ 128

variable {config}

/-- The confidence in `u128`, where neither product overflows. -/
theorem confidenceWithinBounds_iff {value : U128} {confidence : U64} {bps : U16}
    (hvalue : value.toNat < 2 ^ 63) :
    confidenceWithinBounds value confidence bps = true ↔
      bps = 0 ∨ confidence.toNat * 10000 ≤ value.toNat * bps.toNat := by
  have hbps := bps.isLt
  have hconf := confidence.isLt
  have hden : (U64.to128 (U16.to64 BPS_DENOMINATOR)).toNat = 10000 := rfl
  have hmax : (U64.to128 (U16.to64 bps)).toNat = bps.toNat := by
    rw [U64.toNat_to128, U16.toNat_to64]
  have hprod : value.toNat * bps.toNat < 2 ^ 63 * 2 ^ 16 := Nat.mul_lt_mul'' hvalue hbps
  obtain ⟨lhs, hlhs, hl⟩ := exists_checkedMul (a := U64.to128 confidence)
    (b := U64.to128 (U16.to64 BPS_DENOMINATOR)) (by rw [U64.toNat_to128, hden]; omega)
  obtain ⟨rhs, hrhs, hr⟩ := exists_checkedMul (a := value) (b := U64.to128 (U16.to64 bps))
    (by rw [hmax]; omega)
  rw [U64.toNat_to128, hden] at hl
  rw [hmax] at hr
  rw [confidenceWithinBounds]
  split
  case isTrue h0 => exact ⟨fun _ => .inl h0, fun _ => rfl⟩
  case isFalse h0 =>
    rw [hlhs, hrhs]
    show decide (lhs ≤ rhs) = true ↔ _
    rw [decide_eq_true_eq, BitVec.le_def, hl, hr, or_iff_right h0]

/-- A price is taken at the configured scale, or not at all. -/
theorem priceFromPyth_eq_some {price : Price} {p : OraclePrice} :
    priceFromPyth config price = some p ↔
      0 < price.price.toInt ∧
      (config.maxConfidenceBps = 0 ∨
        (price.conf.toNat : ℤ) * 10000 ≤ price.price.toInt * config.maxConfidenceBps.toNat) ∧
      p.value.toNat = price.scaled config.priceDecimals ∧ p.value ≠ 0 ∧
      p.decimals = config.priceDecimals := by
  have hlt := price.price.toInt_lt
  rw [priceFromPyth]
  split
  case isTrue hle =>
    rw [Int64.le_iff_toInt_le, Int64.toInt_zero] at hle
    refine ⟨nofun, ?_⟩
    rintro ⟨hpos, -⟩
    omega
  case isFalse hpos =>
    rw [Int64.le_iff_toInt_le, Int64.toInt_zero, Int.not_le] at hpos
    obtain ⟨value, hvalue⟩ := exists_toNat_eq (w := 128) (n := price.price.toInt.toNat) (by omega)
    have hint : (value.toNat : ℤ) = price.price.toInt := by omega
    have hscaled : price.scaled config.priceDecimals =
        ⌊(value.toNat : ℚ) * 10 ^ (price.exponent.toInt + config.priceDecimals.toNat)⌋₊ := by
      rw [Price.scaled, ← hint, Int.cast_natCast]
    have hnarrow : confidenceWithinBounds value price.conf config.maxConfidenceBps = true ↔
        config.maxConfidenceBps = 0 ∨
          (price.conf.toNat : ℤ) * 10000 ≤ price.price.toInt * config.maxConfidenceBps.toNat := by
      rw [confidenceWithinBounds_iff (by omega), ← hint]
      norm_cast
    rw [tryFromI_eq_some.mpr hint, Option.bind_eq_bind, Option.bind_some, ← hnarrow, hscaled]
    split
    case isTrue hwide => simp [hwide]
    case isFalse hnot =>
      rw [Bool.not_eq_false] at hnot
      simp only [Option.bind_eq_some_iff, hnot, hpos, true_and]
      constructor
      · rintro ⟨v, hv, h⟩
        split at h
        · cases h
        · rename_i hne
          cases h
          obtain ⟨hfloor, -⟩ := (scalePrice_eq_some (by omega)).mp ⟨hv, hne⟩
          exact ⟨hfloor, hne, rfl⟩
      · rintro ⟨hfloor, hne, hdec⟩
        obtain ⟨hv, -⟩ := (scalePrice_eq_some (by omega)).mpr ⟨hfloor, hne⟩
        refine ⟨p.value, hv, ?_⟩
        rw [if_neg hne, ← hdec]

/-- The sum that decides freshness saturates only above every clock. -/
theorem saturatingAddI_lt_iff {publishTime now : I64} {maxAge : U64} (h : maxAge.toNat < 2 ^ 63) :
    saturatingAddI publishTime (.ofBitVec maxAge) < now ↔
      ¬ now.toInt - publishTime.toInt ≤ maxAge.toNat := by
  have hnow := now.toInt_lt
  have hpublish := publishTime.le_toInt
  have hage : (Int64.ofBitVec maxAge).toInt = maxAge.toNat :=
    BitVec.toInt_eq_toNat_of_lt (x := maxAge) (by omega)
  rw [Int64.lt_iff_toInt_lt, toInt_saturatingAddI, hage]
  omega

theorem maxAge_gt_iff {maxAge : U64} :
    maxAge > Int64.maxValue.toBitVec ↔ ¬ maxAge.toNat < 2 ^ 63 := by
  have hmax : Int64.maxValue.toBitVec.toNat = 2 ^ 63 - 1 := by decide
  rw [gt_iff_lt, BitVec.lt_def, hmax]
  omega

theorem not_pinned_any_iff {key : Pubkey} :
    ¬ config.pinnedPriceUpdateAccount.any (key ≠ ·) = true ↔
      config.priceUpdateAccount = Bytes.zero 32 ∨ key = config.priceUpdateAccount := by
  rw [PythOracleConfig.pinnedPriceUpdateAccount]
  split
  case isTrue h => simp [h]
  case isFalse h => simp [h]

variable {account : Scope.KeyedAccount} {now : I64} {p : OraclePrice}

/-- **What a verified read is.** -/
theorem readVerifiedPrice_eq_ok (hbps : config.maxConfidenceBps ≠ 0) :
    readVerifiedPrice config account now = .ok p ↔
      ∃ m, PythVerified config account now m ∧
        p.value.toNat = m.price.scaled config.priceDecimals ∧
        p.decimals = config.priceDecimals := by
  simp only [readVerifiedPrice, readVerifiedUpdate, bind_eq_ok, rejectIf_eq_ok, okOr_eq_ok,
    exists_const, not_pinned_any_iff, not_not, maxAge_gt_iff, not_or, PriceUpdate.parse_eq_some,
    priceFromPyth_eq_some, hbps, false_or]
  constructor
  · rintro ⟨hpin, howner, _, ⟨m, rest, hdata, rfl⟩, hage, ⟨hlevel, hfeed, hstale⟩, hpos, hnarrow,
      hvalue, hne, hdec⟩
    have hlt := p.value.isLt
    have hvalue : p.value.toNat = m.price.scaled config.priceDecimals := hvalue
    rw [ne_eq, eq_zero_iff] at hne
    rw [saturatingAddI_lt_iff hage, not_not] at hstale
    refine ⟨m, ?_, hvalue, hdec⟩
    constructor
    case pinned => exact hpin
    case owner => exact howner
    case encoded => exact ⟨rest, hdata⟩
    case level => exact hlevel
    case feed_id => exact hfeed
    case max_age_le => omega
    case fresh => exact hstale
    case price_pos => exact hpos
    case narrow => exact hnarrow
    case scaled_pos => omega
    case scaled_lt => omega
  · rintro ⟨m, h, hvalue, hdec⟩
    obtain ⟨rest, hdata⟩ := h.encoded
    have hage : config.maxAgeSeconds.toNat < 2 ^ 63 := by
      have := h.max_age_le
      omega
    have hne : p.value ≠ 0 := by
      have := h.scaled_pos
      rw [ne_eq, eq_zero_iff]
      omega
    refine ⟨h.pinned, h.owner, _, ⟨m, rest, hdata, rfl⟩, hage, ⟨h.level, h.feed_id, ?_⟩,
      h.price_pos, h.narrow, hvalue, hne, hdec⟩
    rw [saturatingAddI_lt_iff hage, not_not]
    exact h.fresh

/-- The bytes hold one update, whatever is read out of them. -/
theorem PythVerified.of_encoded {m m' : PriceUpdateV2} {rest : List U8}
    (h : PythVerified config account now m) (hdata : account.account.data = m'.encode ++ rest) :
    PythVerified config account now m' ∧ m'.price = m.price := by
  obtain ⟨rest₀, hdata₀⟩ := h.encoded
  have hparse := PriceUpdate.parse_eq_some.mpr ⟨m, rest₀, hdata₀, rfl⟩
  have hparse' := PriceUpdate.parse_eq_some.mpr ⟨m', rest, hdata, rfl⟩
  have hupdate : m'.update = m.update := Option.some.inj (hparse'.symm.trans hparse)
  have hlevel : m'.verificationLevel = m.verificationLevel :=
    congrArg PriceUpdate.verificationLevel hupdate
  have hprice : m'.price = m.price := congrArg PriceUpdate.price hupdate
  refine ⟨?_, hprice⟩
  constructor
  case pinned => exact h.pinned
  case owner => exact h.owner
  case encoded => exact ⟨rest, hdata⟩
  case level => exact hlevel.trans h.level
  case max_age_le => exact h.max_age_le
  all_goals rw [hprice]
  case feed_id => exact h.feed_id
  case fresh => exact h.fresh
  case price_pos => exact h.price_pos
  case narrow => exact h.narrow
  case scaled_pos => exact h.scaled_pos
  case scaled_lt => exact h.scaled_lt

/-- Rounding at the configured decimals never raises a price. -/
theorem rate_le_published {price : Price} (hpos : 0 < price.price.toInt)
    (hvalue : p.value.toNat = price.scaled p.decimals) : p.rate ≤ price.published := by
  have hten : (0 : ℚ) < 10 ^ p.decimals.toNat := by positivity
  have hint : (0 : ℚ) < price.price.toInt := by exact_mod_cast hpos
  rw [OraclePrice.rate, div_le_iff₀ hten, Price.published, mul_assoc, ← zpow_natCast,
    ← zpow_add₀ (by norm_num), hvalue]
  exact Nat.floor_le (by positivity)

/-- An accepted configuration bounds the confidence of its Pyth leg. -/
theorem maxConfidenceBps_ne_zero {oracle : OracleConfig} (hvalid : oracle.validate = .ok ())
    (hactive : oracle.active = .ok (.pyth config)) : config.maxConfidenceBps ≠ 0 := by
  rw [OracleConfig.validate, hactive, ok_bind] at hvalid
  exact rejectIf_eq_ok.mp hvalid

/-- **The specification of a Pyth read.**  Under an accepted configuration a read succeeds
exactly when the account holds a verified update.  Whatever update the bytes encode then is
the verified one, and the value is its exact floor at the configured decimals, never above
the published price. -/
theorem pyth_read_spec (oracle : OracleConfig) (config : PythOracleConfig)
    (account : Scope.KeyedAccount) (now : I64) (hvalid : oracle.validate = .ok ())
    (hactive : oracle.active = .ok (.pyth config)) :
    ((∃ p, readVerifiedPrice config account now = .ok p) ↔
      ∃ m, PythVerified config account now m) ∧
    ∀ p m rest, readVerifiedPrice config account now = .ok p →
      account.account.data = m.encode ++ rest →
      PythVerified config account now m ∧
        p.value.toNat = m.price.scaled config.priceDecimals ∧
        p.decimals = config.priceDecimals ∧ p.rate ≤ m.price.published := by
  have hread : ∀ p, readVerifiedPrice config account now = .ok p ↔
      ∃ m, PythVerified config account now m ∧
        p.value.toNat = m.price.scaled config.priceDecimals ∧
        p.decimals = config.priceDecimals := fun _ =>
    readVerifiedPrice_eq_ok (maxConfidenceBps_ne_zero hvalid hactive)
  constructor
  · constructor
    · rintro ⟨p, h⟩
      obtain ⟨m, hm, -⟩ := (hread p).mp h
      exact ⟨m, hm⟩
    · rintro ⟨m, hm⟩
      obtain ⟨value, hvalue⟩ := exists_toNat_eq hm.scaled_lt
      exact ⟨⟨value, config.priceDecimals⟩, (hread _).mpr ⟨m, hm, hvalue, rfl⟩⟩
  · intro p m rest h hdata
    obtain ⟨m₀, hm₀, hvalue, hdec⟩ := (hread p).mp h
    obtain ⟨hm, hprice⟩ := hm₀.of_encoded hdata
    rw [← hprice] at hvalue
    refine ⟨hm, hvalue, hdec, rate_le_published hm.price_pos ?_⟩
    rw [hdec]
    exact hvalue

/-- 12345.678 at 10⁻³, confident to 0.25, published at 100. -/
def sampleUpdate : PriceUpdateV2 where
  writeAuthority := Vector.replicate 32 42
  verificationLevel := .full
  price :=
    { feedId := Sample.pythLeg.feedId
      price := 12345678
      conf := 250
      exponent := -3
      publishTime := 100 }
  prevPublishTime := 99
  emaPrice := 0
  emaConf := 0
  postedSlot := 7

def sampleAccount : Scope.KeyedAccount where
  key := Vector.replicate 32 5
  account :=
    { owner := SOLANA_RECEIVER_PROGRAM_ID
      executable := false
      data := sampleUpdate.encode ++ [0, 0] }

theorem pyth_read_spec_sample :
    ∃ p, readVerifiedPrice Sample.pythLeg sampleAccount 130 = .ok p ∧
      p.value.toNat = sampleUpdate.price.scaled 8 ∧ p.rate ≤ sampleUpdate.price.published := by
  have hactive := OracleConfig.active_ofActive (.pyth Sample.pythLeg)
  have hspec := pyth_read_spec (OracleConfig.ofActive (.pyth Sample.pythLeg)) Sample.pythLeg
    sampleAccount 130 (by decide +kernel) hactive
  have hread : readVerifiedPrice Sample.pythLeg sampleAccount 130 = .ok ⟨1234567800000, 8⟩ := by
    decide +kernel
  obtain ⟨-, hvalue, -, hrate⟩ := hspec.2 _ sampleUpdate [0, 0] hread rfl
  exact ⟨_, hread, hvalue, hrate⟩

end Pyth

end Roshi

import Roshi.Oracle.Config
import Roshi.Runtime

/-!
# Reading a Scope price

`oracle/scope.rs`.  A prices account holds a header and 512 dated prices, a mappings
account a discriminator and six parallel arrays of 512 values each.  A verified read
pins the accounts, requires the mapping at the configured index to be the committed one
and not frozen, and takes a fresh price from the entry at that index.

`priceAt` and `mappingAt` are the entries the layout encodes.  A read succeeds exactly
when `ScopeVerified` holds of the entries at the index (`readVerifiedPrice_eq_ok`).  The
bytes of two indices never overlap (`MappingsByte.index_unique`), so what other indices
hold does not matter (`scope_read_depends_on_entry`).
-/

namespace Roshi

open Lib

namespace Scope

/-! ### The layout -/

def ORACLE_PRICES_DISCRIMINATOR : List U8 := [89, 128, 118, 221, 6, 72, 180, 146]

def ORACLE_PRICES_MAPPINGS_OFFSET : Nat := 8

def DATED_PRICES_OFFSET : Nat := 40

def DATED_PRICE_SIZE : Nat := 56

/-- `ScopeOracleConfig::MAX_ENTRIES`. -/
def MAX_ENTRIES : Nat := 512

def ORACLE_PRICES_LEN : Nat := DATED_PRICES_OFFSET + DATED_PRICE_SIZE * MAX_ENTRIES

def ORACLE_MAPPINGS_DISCRIMINATOR : List U8 := [40, 244, 110, 80, 255, 214, 243, 188]

def PRICE_INFO_ACCOUNTS_OFFSET : Nat := 8

def PRICE_TYPES_OFFSET : Nat := PRICE_INFO_ACCOUNTS_OFFSET + 32 * MAX_ENTRIES

def TWAP_SOURCE_OR_REF_PRICE_TOLERANCE_BPS_OFFSET : Nat := PRICE_TYPES_OFFSET + MAX_ENTRIES

def TWAP_ENABLED_BITMASK_OFFSET : Nat :=
  TWAP_SOURCE_OR_REF_PRICE_TOLERANCE_BPS_OFFSET + 2 * MAX_ENTRIES

def REF_PRICE_OFFSET : Nat := TWAP_ENABLED_BITMASK_OFFSET + MAX_ENTRIES

def GENERIC_OFFSET : Nat := REF_PRICE_OFFSET + 2 * MAX_ENTRIES

def ORACLE_MAPPINGS_LEN : Nat := GENERIC_OFFSET + 20 * MAX_ENTRIES

/-- HFn8GnPADiny6XqUoWE8uRPPxb29ikn4yTuPa9MF2fWJ -/
def SCOPE_PROGRAM_ID : Pubkey :=
  #v[241, 132, 37, 68, 185, 143, 22, 221, 129, 231, 167, 12, 131, 77, 133, 134, 12, 88, 187, 200,
    219, 82, 194, 31, 226, 188, 76, 223, 202, 47, 94, 3]

/-- Bit 7 of a price type. -/
def FROZEN_FLAG : U8 := 0x80

/-! ### The reader -/

/-- The pinned length and discriminator. -/
def wellFormed (data : List U8) (len : Nat) (discriminator : List U8) : Bool :=
  data.length == len && getRange data 0 8 == some discriminator

/-- `TryInto<[u8; N]>` of a slice. -/
def toArray (n : Nat) (bytes : List U8) : Option (Bytes n) :=
  if h : bytes.length = n then some ⟨bytes.toArray, by simpa using h⟩ else none

/-- One element of an array of `n`-byte values embedded at `offset`. -/
def mappingArrayEntry (n : Nat) (data : List U8) (offset index : Nat) : Option (Bytes n) := do
  let start := offset + n * index
  toArray n (← getRange data start (start + n))

structure DatedPrice where
  value : U64
  exp : U64
  unixTimestamp : U64
  deriving DecidableEq

/-- A `u64` field of an entry. -/
def DatedPrice.field (data : List U8) (start : Nat) : Option U64 := do
  let bytes ← toArray 8 (← getRange data start (start + 8))
  some (fromLeBytes 64 bytes)

def DatedPrice.parse (data : List U8) (priceIndex : U16) : Option DatedPrice := do
  let base := DATED_PRICES_OFFSET + DATED_PRICE_SIZE * priceIndex.toNat
  let value ← field data base
  let exp ← field data (base + 8)
  let unixTimestamp ← field data (base + 24)
  some { value, exp, unixTimestamp }

def priceFromEntry (entry : DatedPrice) : Option OraclePrice :=
  if entry.value = 0 then none
  else do
    let decimals ← tryFrom 8 entry.exp
    some { value := U64.to128 entry.value, decimals }

/-- `ScopeOracleMapping::new`. -/
def newMapping (priceInfoAccount : Bytes 32) (priceType : U8)
    (twapSourceOrRefPriceToleranceBps : U16) (twapEnabledBitmask : U8) (refPrice : U16)
    (generic : Bytes 20) : ScopeOracleMapping where
  priceInfoAccount
  twapSourceOrRefPriceToleranceBps
  refPrice
  generic
  priceType
  twapEnabledBitmask
  padding := Bytes.zero 6

variable (config : ScopeOracleConfig)

def verifyMappingEntry (mappingsData : List U8) : ProgramResult Unit := do
  rejectIf (wellFormed mappingsData ORACLE_MAPPINGS_LEN ORACLE_MAPPINGS_DISCRIMINATOR = false)
    .invalidAccountData
  rejectIf (config.priceIndex ≥ ScopeOracleConfig.MAX_ENTRIES) .invalidAccountData
  let index := config.priceIndex.toNat
  let priceType ← okOr mappingsData[PRICE_TYPES_OFFSET + index]? .invalidAccountData
  rejectIf (priceType &&& FROZEN_FLAG ≠ 0) .invalidAccountData
  let priceInfoAccount ← okOr
    (mappingArrayEntry 32 mappingsData PRICE_INFO_ACCOUNTS_OFFSET index) .invalidAccountData
  let tolerance ← okOr
    (mappingArrayEntry 2 mappingsData TWAP_SOURCE_OR_REF_PRICE_TOLERANCE_BPS_OFFSET index)
    .invalidAccountData
  let bitmask ← okOr
    (mappingArrayEntry 1 mappingsData TWAP_ENABLED_BITMASK_OFFSET index) .invalidAccountData
  let refPrice ← okOr (mappingArrayEntry 2 mappingsData REF_PRICE_OFFSET index) .invalidAccountData
  let generic ← okOr (mappingArrayEntry 20 mappingsData GENERIC_OFFSET index) .invalidAccountData
  let mapping := newMapping priceInfoAccount (priceType &&& ~~~FROZEN_FLAG)
    (fromLeBytes 16 tolerance) bitmask[0] (fromLeBytes 16 refPrice) generic
  rejectIf (mapping ≠ config.mapping) .invalidAccountData

def verifyFreshness (entry : DatedPrice) (unixTimestamp : I64) : ProgramResult Unit := do
  let now ← okOr (tryFromI 64 unixTimestamp) .invalidAccountData
  rejectIf (entry.unixTimestamp > now) .invalidAccountData
  rejectIf (now - entry.unixTimestamp > config.maxAgeSeconds) .invalidAccountData

/-- An account as the reader is handed it. -/
structure KeyedAccount where
  key : Pubkey
  account : RawAccount

/-- `ScopeOracle::read_verified_price`.  Slicing out the declared mappings would abort out
of bounds. -/
def readVerifiedPrice (prices mappings : KeyedAccount) (unixTimestamp : I64) :
    ProgramResult OraclePrice := do
  rejectIf (prices.key ≠ config.pricesAccount) .invalidAccountData
  rejectIf (prices.account.owner ≠ SCOPE_PROGRAM_ID ∨ mappings.account.owner ≠ SCOPE_PROGRAM_ID)
    .illegalOwner
  let pricesData := prices.account.data
  rejectIf (wellFormed pricesData ORACLE_PRICES_LEN ORACLE_PRICES_DISCRIMINATOR = false)
    .invalidAccountData
  let declaredMappings ← okOr (getRange pricesData ORACLE_PRICES_MAPPINGS_OFFSET
    (ORACLE_PRICES_MAPPINGS_OFFSET + 32)) .panicked
  rejectIf (declaredMappings ≠ mappings.key.toList) .invalidAccountData
  verifyMappingEntry config mappings.account.data
  let entry ← okOr (DatedPrice.parse pricesData config.priceIndex) .invalidAccountData
  verifyFreshness config entry unixTimestamp
  okOr (priceFromEntry entry) .invalidAccountData

theorem ORACLE_PRICES_LEN_eq : ORACLE_PRICES_LEN = 28712 := rfl

theorem PRICE_TYPES_OFFSET_eq : PRICE_TYPES_OFFSET = 16392 := rfl

theorem TWAP_SOURCE_OR_REF_PRICE_TOLERANCE_BPS_OFFSET_eq :
    TWAP_SOURCE_OR_REF_PRICE_TOLERANCE_BPS_OFFSET = 16904 := rfl

theorem TWAP_ENABLED_BITMASK_OFFSET_eq : TWAP_ENABLED_BITMASK_OFFSET = 17928 := rfl

theorem REF_PRICE_OFFSET_eq : REF_PRICE_OFFSET = 18440 := rfl

theorem GENERIC_OFFSET_eq : GENERIC_OFFSET = 19464 := rfl

theorem ORACLE_MAPPINGS_LEN_eq : ORACLE_MAPPINGS_LEN = 29704 := rfl

/-! ### The entries of the layout -/

/-- The `n` bytes from `start` on. -/
def bytesAt (n : Nat) (data : List U8) (start : Nat) : Bytes n :=
  Vector.ofFn fun i => data.getD (start + i.val) 0

/-- Where the dated price of an index starts. -/
def priceStart (index : Nat) : Nat := DATED_PRICES_OFFSET + DATED_PRICE_SIZE * index

/-- The dated price at an index. -/
def priceAt (data : List U8) (index : Nat) : DatedPrice where
  value := fromLeBytes 64 (bytesAt 8 data (priceStart index))
  exp := fromLeBytes 64 (bytesAt 8 data (priceStart index + 8))
  unixTimestamp := fromLeBytes 64 (bytesAt 8 data (priceStart index + 24))

/-- The six values at one index of a mappings account, the price type with its frozen bit. -/
structure MappingEntry where
  priceInfoAccount : Bytes 32
  priceType : U8
  twapSourceOrRefPriceToleranceBps : U16
  twapEnabledBitmask : U8
  refPrice : U16
  generic : Bytes 20
  deriving DecidableEq

def mappingAt (data : List U8) (index : Nat) : MappingEntry where
  priceInfoAccount := bytesAt 32 data (PRICE_INFO_ACCOUNTS_OFFSET + 32 * index)
  priceType := data.getD (PRICE_TYPES_OFFSET + index) 0
  twapSourceOrRefPriceToleranceBps :=
    fromLeBytes 16 (bytesAt 2 data (TWAP_SOURCE_OR_REF_PRICE_TOLERANCE_BPS_OFFSET + 2 * index))
  twapEnabledBitmask := data.getD (TWAP_ENABLED_BITMASK_OFFSET + index) 0
  refPrice := fromLeBytes 16 (bytesAt 2 data (REF_PRICE_OFFSET + 2 * index))
  generic := bytesAt 20 data (GENERIC_OFFSET + 20 * index)

def MappingEntry.Frozen (e : MappingEntry) : Prop := e.priceType &&& FROZEN_FLAG ≠ 0

/-- What a config commits to of an entry. -/
def MappingEntry.commitment (e : MappingEntry) : ScopeOracleMapping :=
  newMapping e.priceInfoAccount (e.priceType &&& ~~~FROZEN_FLAG)
    e.twapSourceOrRefPriceToleranceBps e.twapEnabledBitmask e.refPrice e.generic

/-! ### Reads in bounds -/

section Bounds

variable {data : List U8} {start n : Nat}

theorem getRange_of_le (h : start + n ≤ data.length) :
    getRange data start (start + n) = some ((data.drop start).take n) := by
  rw [getRange, if_pos ⟨Nat.le_add_right _ _, h⟩, Nat.add_sub_cancel_left]

/-- An array read in bounds. -/
theorem toArray_getRange (h : start + n ≤ data.length) :
    (getRange data start (start + n)).bind (toArray n) = some (bytesAt n data start) := by
  have hlen : ((data.drop start).take n).length = n := by
    rw [List.length_take, List.length_drop]
    omega
  rw [getRange_of_le h, Option.bind_some, toArray, dif_pos hlen, Option.some.injEq]
  apply Vector.ext
  intro i hi
  simp only [bytesAt, Vector.getElem_ofFn, Vector.getElem_mk, List.getElem_toArray,
    List.getElem_take, List.getElem_drop]
  rw [List.getD_eq_getElem?_getD, List.getElem?_eq_getElem (by omega), Option.getD_some]

theorem mappingArrayEntry_eq {offset index : Nat} (h : offset + n * index + n ≤ data.length) :
    mappingArrayEntry n data offset index = some (bytesAt n data (offset + n * index)) :=
  toArray_getRange h

theorem field_eq (h : start + 8 ≤ data.length) :
    DatedPrice.field data start = some (fromLeBytes 64 (bytesAt 8 data start)) := by
  have hread := toArray_getRange h
  rw [Option.bind_eq_some_iff] at hread
  obtain ⟨bytes, hrange, harray⟩ := hread
  rw [DatedPrice.field, hrange]
  show (toArray 8 bytes).bind _ = _
  rw [harray]
  rfl

theorem DatedPrice.parse_eq {priceIndex : U16}
    (h : priceStart priceIndex.toNat + 32 ≤ data.length) :
    DatedPrice.parse data priceIndex = some (priceAt data priceIndex.toNat) := by
  have hstart : priceStart priceIndex.toNat =
      DATED_PRICES_OFFSET + DATED_PRICE_SIZE * priceIndex.toNat := rfl
  rw [DatedPrice.parse, ← hstart]
  simp only [field_eq (show priceStart priceIndex.toNat + 8 ≤ data.length by omega),
    field_eq (show priceStart priceIndex.toNat + 8 + 8 ≤ data.length by omega),
    field_eq (show priceStart priceIndex.toNat + 24 + 8 ≤ data.length by omega)]
  rfl

end Bounds

/-! ### The arrays of a mappings account -/

/-- The six arrays of a mappings account: offset and width. -/
def mappingArrays : List (Nat × Nat) :=
  [(PRICE_INFO_ACCOUNTS_OFFSET, 32), (PRICE_TYPES_OFFSET, 1),
    (TWAP_SOURCE_OR_REF_PRICE_TOLERANCE_BPS_OFFSET, 2), (TWAP_ENABLED_BITMASK_OFFSET, 1),
    (REF_PRICE_OFFSET, 2), (GENERIC_OFFSET, 20)]

/-- The layout in numbers. -/
theorem mem_mappingArrays {a : Nat × Nat} :
    a ∈ mappingArrays ↔ a = (8, 32) ∨ a = (16392, 1) ∨ a = (16904, 2) ∨ a = (17928, 1) ∨
      a = (18440, 2) ∨ a = (19464, 20) := by
  simp only [mappingArrays, PRICE_INFO_ACCOUNTS_OFFSET, PRICE_TYPES_OFFSET_eq,
    TWAP_SOURCE_OR_REF_PRICE_TOLERANCE_BPS_OFFSET_eq, TWAP_ENABLED_BITMASK_OFFSET_eq,
    REF_PRICE_OFFSET_eq, GENERIC_OFFSET_eq, List.mem_cons, List.not_mem_nil, or_false]

/-- In an account of the exact length each array holds an entry at every index. -/
theorem mappingArrayEntry_of_mem {data : List U8} {i : Nat}
    (hlen : data.length = ORACLE_MAPPINGS_LEN) (hi : i < MAX_ENTRIES) :
    ∀ a ∈ mappingArrays,
      mappingArrayEntry a.2 data a.1 i = some (bytesAt a.2 data (a.1 + a.2 * i)) := by
  intro a ha
  have hi : i < 512 := hi
  apply mappingArrayEntry_eq
  rw [hlen, ORACLE_MAPPINGS_LEN_eq]
  rcases mem_mappingArrays.mp ha with rfl | rfl | rfl | rfl | rfl | rfl <;> simp only <;> omega

/-! ### When a read succeeds -/

/-- Everything a verified read requires, of the accounts and of the entries at the
configured index. -/
structure ScopeVerified (prices mappings : KeyedAccount) (now : I64) : Prop where
  prices_key : prices.key = config.pricesAccount
  prices_owner : prices.account.owner = SCOPE_PROGRAM_ID
  mappings_owner : mappings.account.owner = SCOPE_PROGRAM_ID
  prices_discriminator : prices.account.data.take 8 = ORACLE_PRICES_DISCRIMINATOR
  mappings_discriminator : mappings.account.data.take 8 = ORACLE_MAPPINGS_DISCRIMINATOR
  declared : (prices.account.data.drop 8).take 32 = mappings.key.toList
  unfrozen : ¬ (mappingAt mappings.account.data config.priceIndex.toNat).Frozen
  committed : (mappingAt mappings.account.data config.priceIndex.toNat).commitment = config.mapping
  now_nonneg : 0 ≤ now.toInt
  not_future : ((priceAt prices.account.data config.priceIndex.toNat).unixTimestamp.toNat : Int)
    ≤ now.toInt
  not_stale : now.toInt - config.maxAgeSeconds.toNat
    ≤ (priceAt prices.account.data config.priceIndex.toNat).unixTimestamp.toNat
  value_ne : (priceAt prices.account.data config.priceIndex.toNat).value.toNat ≠ 0
  exp_lt : (priceAt prices.account.data config.priceIndex.toNat).exp.toNat < 2 ^ 8

variable {config} {prices mappings prices' mappings' : KeyedAccount} {now : I64}

/-- The price of an entry. -/
def DatedPrice.price (entry : DatedPrice) : OraclePrice :=
  { value := U64.to128 entry.value, decimals := BitVec.ofNat 8 entry.exp.toNat }

theorem wellFormed_eq_true {data : List U8} {len : Nat} {discriminator : List U8}
    (h : data.length = len) (h8 : 8 ≤ len) :
    wellFormed data len discriminator = true ↔ data.take 8 = discriminator := by
  have hrange := getRange_of_le (show 0 + 8 ≤ data.length by omega)
  rw [Nat.zero_add, List.drop_zero] at hrange
  rw [wellFormed, hrange, Bool.and_eq_true, beq_iff_eq, beq_iff_eq, Option.some.injEq]
  exact and_iff_right h

theorem priceFromEntry_eq_some {entry : DatedPrice} {p : OraclePrice} :
    priceFromEntry entry = some p ↔
      entry.value.toNat ≠ 0 ∧ entry.exp.toNat < 2 ^ 8 ∧ p = entry.price := by
  rw [priceFromEntry, ne_eq, ← eq_zero_iff]
  by_cases h0 : entry.value = 0
  · rw [if_pos h0]
    simp [h0]
  · rw [if_neg h0, tryFrom]
    by_cases hexp : entry.exp.toNat < 2 ^ 8
    · rw [if_pos hexp]
      simp only [Option.bind_eq_bind, Option.bind_some, Option.some.injEq, h0, hexp,
        not_false_eq_true, true_and]
      exact eq_comm
    · rw [if_neg hexp]
      simp only [Option.bind_eq_bind, Option.bind_none, reduceCtorEq, hexp, false_and, and_false]

theorem verifyFreshness_eq_ok {entry : DatedPrice} {u : Unit} :
    verifyFreshness config entry now = .ok u ↔
      0 ≤ now.toInt ∧ (entry.unixTimestamp.toNat : Int) ≤ now.toInt ∧
        now.toInt - config.maxAgeSeconds.toNat ≤ entry.unixTimestamp.toNat := by
  simp only [verifyFreshness, bind_eq_ok, okOr_eq_ok, tryFromI_eq_some, rejectIf_eq_ok,
    exists_const, gt_iff_lt, BitVec.lt_def, Nat.not_lt]
  have hmax := now.toInt_lt
  constructor
  · rintro ⟨t, ht, hle, hage⟩
    rw [BitVec.toNat_sub_of_le (BitVec.le_def.mpr hle)] at hage
    omega
  · rintro ⟨h0, hle, hage⟩
    obtain ⟨t, ht⟩ := exists_toNat_eq (w := 64) (n := now.toInt.toNat) (by omega)
    refine ⟨t, by omega, by omega, ?_⟩
    rw [BitVec.toNat_sub_of_le (BitVec.le_def.mpr (by omega))]
    omega

/-- The mapping check, on an account of the exact length and an index it has. -/
theorem verifyMappingEntry_eq_ok {data : List U8} {u : Unit}
    (hlen : data.length = ORACLE_MAPPINGS_LEN) (hi : config.priceIndex.toNat < MAX_ENTRIES) :
    verifyMappingEntry config data = .ok u ↔
      data.take 8 = ORACLE_MAPPINGS_DISCRIMINATOR ∧
        ¬ (mappingAt data config.priceIndex.toNat).Frozen ∧
        (mappingAt data config.priceIndex.toNat).commitment = config.mapping := by
  have hlayout := hlen.trans ORACLE_MAPPINGS_LEN_eq
  have hmax : ¬ config.priceIndex ≥ ScopeOracleConfig.MAX_ENTRIES := by
    rw [ge_iff_le, BitVec.le_def]
    exact Nat.not_le.mpr hi
  have hi' : config.priceIndex.toNat < 512 := hi
  have htype : data[PRICE_TYPES_OFFSET + config.priceIndex.toNat]? =
      some (data.getD (PRICE_TYPES_OFFSET + config.priceIndex.toNat) 0) := by
    rw [PRICE_TYPES_OFFSET_eq, List.getD_eq_getElem?_getD, List.getElem?_eq_getElem (by omega),
      Option.getD_some]
  have hentry := mappingArrayEntry_of_mem hlen hi
  simp only [mappingArrays, List.forall_mem_cons] at hentry
  obtain ⟨hinfo, -, htolerance, hmask, href, hgeneric, -⟩ := hentry
  have hbitmask : (bytesAt 1 data (TWAP_ENABLED_BITMASK_OFFSET + 1 * config.priceIndex.toNat))[0]
      = data.getD (TWAP_ENABLED_BITMASK_OFFSET + config.priceIndex.toNat) 0 := by
    rw [bytesAt, Vector.getElem_ofFn, Nat.one_mul]
    rfl
  simp only [verifyMappingEntry, htype, hinfo, htolerance, hmask, href, hgeneric, okOr_some,
    ok_bind, hbitmask, bind_eq_ok, rejectIf_eq_ok, exists_const, hmax, not_false_eq_true, true_and,
    Bool.not_eq_false, not_not, wellFormed_eq_true hlen (show 8 ≤ ORACLE_MAPPINGS_LEN by decide)]
  rw [MappingEntry.Frozen, not_not]
  rfl

/-- **When a read succeeds, and with what.** -/
theorem readVerifiedPrice_eq_ok {p : OraclePrice}
    (hp : prices.account.data.length = ORACLE_PRICES_LEN)
    (hm : mappings.account.data.length = ORACLE_MAPPINGS_LEN)
    (hi : config.priceIndex.toNat < MAX_ENTRIES) :
    readVerifiedPrice config prices mappings now = .ok p ↔
      ScopeVerified config prices mappings now ∧
        p = (priceAt prices.account.data config.priceIndex.toNat).price := by
  have hlayout := hp.trans ORACLE_PRICES_LEN_eq
  have hi' : config.priceIndex.toNat < 512 := hi
  have hdeclared : getRange prices.account.data ORACLE_PRICES_MAPPINGS_OFFSET
      (ORACLE_PRICES_MAPPINGS_OFFSET + 32) = some ((prices.account.data.drop 8).take 32) :=
    getRange_of_le (by rw [ORACLE_PRICES_MAPPINGS_OFFSET]; omega)
  have hparse := DatedPrice.parse_eq (show priceStart config.priceIndex.toNat + 32 ≤
    prices.account.data.length by rw [priceStart, DATED_PRICES_OFFSET, DATED_PRICE_SIZE]; omega)
  simp only [readVerifiedPrice, hdeclared, hparse, okOr_some, okOr_eq_ok, ok_bind, bind_eq_ok,
    rejectIf_eq_ok, exists_const, not_not, not_or, Bool.not_eq_false,
    wellFormed_eq_true hp (show 8 ≤ ORACLE_PRICES_LEN by decide), verifyMappingEntry_eq_ok hm hi,
    verifyFreshness_eq_ok, priceFromEntry_eq_some]
  constructor
  · rintro ⟨hkey, ⟨ho, ho'⟩, hd, hdecl, ⟨hd', hfrozen, hcommit⟩, ⟨h0, hle, hage⟩, hv, he, rfl⟩
    exact ⟨⟨hkey, ho, ho', hd, hd', hdecl, hfrozen, hcommit, h0, hle, hage, hv, he⟩, rfl⟩
  · rintro ⟨⟨hkey, ho, ho', hd, hd', hdecl, hfrozen, hcommit, h0, hle, hage, hv, he⟩, rfl⟩
    exact ⟨hkey, ⟨ho, ho'⟩, hd, hdecl, ⟨hd', hfrozen, hcommit⟩, ⟨h0, hle, hage⟩, hv, he, rfl⟩

/-! ### Which bytes belong to which index -/

/-- The byte `k` of a prices account belongs to `index`. -/
def PricesByte (index k : Nat) : Prop :=
  priceStart index ≤ k ∧ k < priceStart index + DATED_PRICE_SIZE

/-- The byte `k` of a mappings account belongs to `index`, in one of the arrays. -/
def MappingsByte (index k : Nat) : Prop :=
  ∃ a ∈ mappingArrays, a.1 + a.2 * index ≤ k ∧ k < a.1 + a.2 * index + a.2

theorem PricesByte.index_unique {i j k : Nat} (h : PricesByte i k) (h' : PricesByte j k) :
    i = j := by
  simp only [PricesByte, priceStart, DATED_PRICES_OFFSET, DATED_PRICE_SIZE] at h h'
  omega

/-- **The arrays do not overlap**, so a byte belongs to one index. -/
theorem MappingsByte.index_unique {i j k : Nat} (hi : i < MAX_ENTRIES) (hj : j < MAX_ENTRIES)
    (h : MappingsByte i k) (h' : MappingsByte j k) : i = j := by
  obtain ⟨a, ha, hle, hlt⟩ := h
  obtain ⟨b, hb, hle', hlt'⟩ := h'
  have hi : i < 512 := hi
  have hj : j < 512 := hj
  rcases mem_mappingArrays.mp ha with rfl | rfl | rfl | rfl | rfl | rfl <;>
    rcases mem_mappingArrays.mp hb with rfl | rfl | rfl | rfl | rfl | rfl <;>
      simp only at hle hlt hle' hlt' <;> omega

/-- `a'` is `a` with bytes of indices other than `i` changed. -/
structure ChangedElsewhere (byteOf : Nat → Nat → Prop) (i : Nat) (a a' : KeyedAccount) : Prop where
  key : a'.key = a.key
  owner : a'.account.owner = a.account.owner
  length : a'.account.data.length = a.account.data.length
  bytes : ∀ k, a'.account.data[k]? ≠ a.account.data[k]? →
    ∃ j, j < MAX_ENTRIES ∧ j ≠ i ∧ byteOf j k

/-- A byte of no other index is kept. -/
theorem ChangedElsewhere.getElem?_eq {byteOf : Nat → Nat → Prop} {i k : Nat} {a a' : KeyedAccount}
    (h : ChangedElsewhere byteOf i a a') (hk : ∀ j < MAX_ENTRIES, byteOf j k → j = i) :
    a'.account.data[k]? = a.account.data[k]? := by
  by_contra hne
  obtain ⟨j, hj, hji, hbyte⟩ := h.bytes k hne
  exact hji (hk j hj hbyte)

theorem getRange_congr {data data' : List U8} {start n : Nat} (hlen : data'.length = data.length)
    (h : ∀ k, start ≤ k → k < start + n → data'[k]? = data[k]?) :
    getRange data' start (start + n) = getRange data start (start + n) := by
  rw [getRange, getRange, hlen, Nat.add_sub_cancel_left]
  congr 2
  apply List.ext_getElem?
  intro k
  rw [List.getElem?_take, List.getElem?_take, List.getElem?_drop, List.getElem?_drop]
  split
  · exact h _ (by omega) (by omega)
  · rfl

theorem wellFormed_congr {data data' : List U8} (hlen : data'.length = data.length)
    (h : ∀ k, k < 8 → data'[k]? = data[k]?) (len : Nat) (discriminator : List U8) :
    wellFormed data' len discriminator = wellFormed data len discriminator := by
  have hrange : getRange data' 0 (0 + 8) = getRange data 0 (0 + 8) :=
    getRange_congr hlen fun k _ hk => h k (by omega)
  rw [Nat.zero_add] at hrange
  rw [wellFormed, wellFormed, hlen, hrange]

theorem parse_congr {data data' : List U8} {priceIndex : U16} (hlen : data'.length = data.length)
    (h : ∀ k, PricesByte priceIndex.toNat k → data'[k]? = data[k]?) :
    DatedPrice.parse data' priceIndex = DatedPrice.parse data priceIndex := by
  have hfield : ∀ o, o + 8 ≤ 56 → DatedPrice.field data' (priceStart priceIndex.toNat + o) =
      DatedPrice.field data (priceStart priceIndex.toNat + o) := by
    intro o ho
    rw [DatedPrice.field, DatedPrice.field, getRange_congr hlen]
    intro k hle hlt
    exact h k ⟨by omega, by rw [DATED_PRICE_SIZE]; omega⟩
  have h0 := hfield 0 (by decide)
  have h8 := hfield 8 (by decide)
  have h24 := hfield 24 (by decide)
  rw [priceStart, Nat.add_zero] at h0
  rw [priceStart] at h8 h24
  simp only [DatedPrice.parse, h0, h8, h24]

theorem verifyMappingEntry_congr {data data' : List U8} (hlen : data'.length = data.length)
    (hheader : ∀ k, k < 8 → data'[k]? = data[k]?)
    (h : ∀ k, MappingsByte config.priceIndex.toNat k → data'[k]? = data[k]?) :
    verifyMappingEntry config data' = verifyMappingEntry config data := by
  have hentry : ∀ a ∈ mappingArrays, mappingArrayEntry a.2 data' a.1 config.priceIndex.toNat =
      mappingArrayEntry a.2 data a.1 config.priceIndex.toNat := by
    intro a ha
    rw [mappingArrayEntry, mappingArrayEntry, getRange_congr hlen]
    intro k hle hlt
    exact h k ⟨a, ha, hle, hlt⟩
  simp only [mappingArrays, List.forall_mem_cons] at hentry
  obtain ⟨hinfo, -, htolerance, hmask, href, hgeneric, -⟩ := hentry
  have htype := h (PRICE_TYPES_OFFSET + config.priceIndex.toNat)
    ⟨(PRICE_TYPES_OFFSET, 1), by simp [mappingArrays], by simp, by simp⟩
  simp only [verifyMappingEntry, wellFormed_congr hlen hheader, htype, hinfo, htolerance, hmask,
    href, hgeneric]

/-- **What other indices hold does not matter**, whatever the outcome. -/
theorem readVerifiedPrice_congr (hi : config.priceIndex.toNat < MAX_ENTRIES)
    (hprices : ChangedElsewhere PricesByte config.priceIndex.toNat prices prices')
    (hmappings : ChangedElsewhere MappingsByte config.priceIndex.toNat mappings mappings') :
    readVerifiedPrice config prices' mappings' now =
      readVerifiedPrice config prices mappings now := by
  have hheader : ∀ k, k < 40 → prices'.account.data[k]? = prices.account.data[k]? := by
    intro k hk
    apply hprices.getElem?_eq
    intro j _ hbyte
    have hle := hbyte.1
    rw [priceStart, DATED_PRICES_OFFSET] at hle
    omega
  have hentry : ∀ k, PricesByte config.priceIndex.toNat k →
      prices'.account.data[k]? = prices.account.data[k]? := by
    intro k hk
    apply hprices.getElem?_eq
    intro j _ hbyte
    exact hbyte.index_unique hk
  have hheader' : ∀ k, k < 8 → mappings'.account.data[k]? = mappings.account.data[k]? := by
    intro k hk
    apply hmappings.getElem?_eq
    rintro j - ⟨a, ha, hle, -⟩
    rcases mem_mappingArrays.mp ha with rfl | rfl | rfl | rfl | rfl | rfl <;> simp only at hle <;>
      omega
  have hmapping : ∀ k, MappingsByte config.priceIndex.toNat k →
      mappings'.account.data[k]? = mappings.account.data[k]? := by
    intro k hk
    apply hmappings.getElem?_eq
    intro j hj hbyte
    exact hbyte.index_unique hj hi hk
  have hdeclared : getRange prices'.account.data ORACLE_PRICES_MAPPINGS_OFFSET
        (ORACLE_PRICES_MAPPINGS_OFFSET + 32) =
      getRange prices.account.data ORACLE_PRICES_MAPPINGS_OFFSET
        (ORACLE_PRICES_MAPPINGS_OFFSET + 32) :=
    getRange_congr hprices.length fun k _ hk =>
      hheader k (by rw [ORACLE_PRICES_MAPPINGS_OFFSET] at hk; omega)
  simp only [readVerifiedPrice, hprices.key, hprices.owner, hmappings.key, hmappings.owner,
    wellFormed_congr hprices.length (fun k hk => hheader k (by omega)), hdeclared,
    verifyMappingEntry_congr hmappings.length hheader' hmapping,
    parse_congr hprices.length hentry]

/-! ### A read is about one entry -/

/-- Every access of a read finds its bytes. -/
structure ReadsInBounds (pricesData mappingsData : List U8) (priceIndex : U16) : Prop where
  prices_discriminator : getRange pricesData 0 8 ≠ none
  mappings_discriminator : getRange mappingsData 0 8 ≠ none
  declared : getRange pricesData ORACLE_PRICES_MAPPINGS_OFFSET
    (ORACLE_PRICES_MAPPINGS_OFFSET + 32) ≠ none
  price_type : mappingsData[PRICE_TYPES_OFFSET + priceIndex.toNat]? ≠ none
  arrays : ∀ a ∈ mappingArrays,
    mappingArrayEntry a.2 mappingsData a.1 priceIndex.toNat ≠ none
  entry : DatedPrice.parse pricesData priceIndex ≠ none

theorem readsInBounds {pricesData mappingsData : List U8} {priceIndex : U16}
    (hp : pricesData.length = ORACLE_PRICES_LEN) (hm : mappingsData.length = ORACLE_MAPPINGS_LEN)
    (hi : priceIndex.toNat < MAX_ENTRIES) : ReadsInBounds pricesData mappingsData priceIndex := by
  have hi' : priceIndex.toNat < 512 := hi
  have hp' := hp.trans ORACLE_PRICES_LEN_eq
  have hm' := hm.trans ORACLE_MAPPINGS_LEN_eq
  have hrange : ∀ {data : List U8} {start n : Nat}, start + n ≤ data.length →
      getRange data start (start + n) ≠ none := by
    intro data start n h
    rw [getRange_of_le h]
    exact Option.some_ne_none _
  constructor
  case prices_discriminator => exact hrange (show 0 + 8 ≤ _ by omega)
  case mappings_discriminator => exact hrange (show 0 + 8 ≤ _ by omega)
  case declared => exact hrange (by rw [ORACLE_PRICES_MAPPINGS_OFFSET]; omega)
  case price_type =>
    rw [PRICE_TYPES_OFFSET_eq, List.getElem?_eq_getElem (by omega)]
    exact Option.some_ne_none _
  case arrays =>
    intro a ha
    rw [mappingArrayEntry_of_mem hm hi a ha]
    exact Option.some_ne_none _
  case entry =>
    rw [DatedPrice.parse_eq (by rw [priceStart, DATED_PRICES_OFFSET, DATED_PRICE_SIZE]; omega)]
    exact Option.some_ne_none _

/-- Slicing out the declared mappings never aborts: the length was checked before. -/
theorem readVerifiedPrice_ne_panicked :
    readVerifiedPrice config prices mappings now ≠ .error .panicked := by
  intro h
  simp only [readVerifiedPrice, verifyMappingEntry, verifyFreshness, bind_eq_error, okOr_eq_error,
    rejectIf_eq_error, okOr_eq_ok, rejectIf_eq_ok, reduceCtorEq, and_false, false_or, or_false,
    exists_false, exists_const, and_true] at h
  obtain ⟨-, -, hwell, hnone⟩ := h
  have hlen : prices.account.data.length = 28712 := by
    rw [Bool.not_eq_false, wellFormed, Bool.and_eq_true, beq_iff_eq] at hwell
    exact hwell.1
  rw [getRange_of_le (by rw [ORACLE_PRICES_MAPPINGS_OFFSET]; omega)] at hnone
  cases hnone

/-- An unfrozen entry is determined by what is committed of it. -/
theorem MappingEntry.eq_of_commitment {e e' : MappingEntry} (h : ¬ e.Frozen) (h' : ¬ e'.Frozen)
    (hc : e.commitment = e'.commitment) : e = e' := by
  have hmask : ∀ t : U8, t &&& FROZEN_FLAG = 0 → t &&& ~~~FROZEN_FLAG = t := by decide
  rw [MappingEntry.Frozen, not_not] at h h'
  simp only [MappingEntry.commitment, newMapping, ScopeOracleMapping.mk.injEq, hmask _ h,
    hmask _ h'] at hc
  obtain ⟨hinfo, htolerance, href, hgeneric, htype, hbitmask, -⟩ := hc
  cases e
  cases e'
  simp_all

/-- **A Scope read depends exactly on the configured entry.**  Every access is in bounds;
the read succeeds exactly when `ScopeVerified` holds, with the value and exponent of the
entry; bytes of other indices are not seen, and an entry with any committed field changed is
refused, whatever the prices account and the clock then are. -/
theorem scope_read_depends_on_entry (config : ScopeOracleConfig) (prices mappings : KeyedAccount)
    (now : I64) (hp : prices.account.data.length = ORACLE_PRICES_LEN)
    (hm : mappings.account.data.length = ORACLE_MAPPINGS_LEN)
    (hi : config.priceIndex.toNat < MAX_ENTRIES) :
    (ReadsInBounds prices.account.data mappings.account.data config.priceIndex ∧
      readVerifiedPrice config prices mappings now ≠ .error .panicked) ∧
    ((∃ p, readVerifiedPrice config prices mappings now = .ok p) ↔
      ScopeVerified config prices mappings now) ∧
    (∀ p, readVerifiedPrice config prices mappings now = .ok p →
      p.value.toNat = (priceAt prices.account.data config.priceIndex.toNat).value.toNat ∧
      p.decimals.toNat = (priceAt prices.account.data config.priceIndex.toNat).exp.toNat) ∧
    (∀ prices' mappings',
      ChangedElsewhere PricesByte config.priceIndex.toNat prices prices' →
      ChangedElsewhere MappingsByte config.priceIndex.toNat mappings mappings' →
      readVerifiedPrice config prices' mappings' now =
        readVerifiedPrice config prices mappings now) ∧
    ∀ p mappings', readVerifiedPrice config prices mappings now = .ok p →
      mappingAt mappings'.account.data config.priceIndex.toNat ≠
        mappingAt mappings.account.data config.priceIndex.toNat →
      ∀ prices' now' p', prices'.account.data.length = ORACLE_PRICES_LEN →
        mappings'.account.data.length = ORACLE_MAPPINGS_LEN →
        readVerifiedPrice config prices' mappings' now' ≠ .ok p' := by
  refine ⟨⟨readsInBounds hp hm hi, readVerifiedPrice_ne_panicked⟩, ⟨?_, ?_⟩, ?_, ?_, ?_⟩
  · rintro ⟨p, h⟩
    exact ((readVerifiedPrice_eq_ok hp hm hi).mp h).1
  · intro h
    exact ⟨_, (readVerifiedPrice_eq_ok hp hm hi).mpr ⟨h, rfl⟩⟩
  · intro p h
    obtain ⟨hv, rfl⟩ := (readVerifiedPrice_eq_ok hp hm hi).mp h
    refine ⟨U64.toNat_to128 _, ?_⟩
    rw [DatedPrice.price, BitVec.toNat_ofNat, Nat.mod_eq_of_lt hv.exp_lt]
  · intro prices' mappings' hprices hmappings
    exact readVerifiedPrice_congr hi hprices hmappings
  · intro p mappings' h hne prices' now' p' hp' hm' h'
    have hv := ((readVerifiedPrice_eq_ok hp hm hi).mp h).1
    have hv' := ((readVerifiedPrice_eq_ok hp' hm' hi).mp h').1
    exact hne (MappingEntry.eq_of_commitment hv'.unfrozen hv.unfrozen
      (hv'.committed.trans hv.committed.symm))

/-- A prices account that declares the mappings account `[7; 32]` and holds 25 · 10⁻¹ at time
90 in its entry 3, an older and lower price before it. -/
def samplePrices : KeyedAccount where
  key := Vector.replicate 32 6
  account :=
    { owner := SCOPE_PROGRAM_ID
      executable := false
      data := ORACLE_PRICES_DISCRIMINATOR ++ List.replicate 32 7 ++ List.replicate 112 0 ++
        (leBytes 8 24 ++ leBytes 8 1 ++ leBytes 8 0 ++ leBytes 8 80 ++ List.replicate 24 0) ++
        (leBytes 8 25 ++ leBytes 8 1 ++ leBytes 8 0 ++ leBytes 8 90 ++ List.replicate 24 0) ++
        List.replicate 28448 0 }

def sampleEntry : MappingEntry where
  priceInfoAccount := Vector.ofFn fun i => BitVec.ofNat 8 (i.val + 1)
  priceType := 4
  twapSourceOrRefPriceToleranceBps := 265
  twapEnabledBitmask := 2
  refPrice := 523
  generic := Vector.ofFn fun i => BitVec.ofNat 8 (i.val + 100)

/-- One of the arrays of a mappings account, zero but for its entry 3. -/
def sampleArray (n : Nat) (entry : List U8) : List U8 :=
  List.replicate (3 * n) 0 ++ (entry ++ List.replicate (508 * n) 0)

theorem length_sampleArray {n : Nat} {entry : List U8} (h : entry.length = n) :
    (sampleArray n entry).length = 512 * n := by
  simp only [sampleArray, List.length_append, List.length_replicate, h]
  omega

/-- The mappings account. -/
def sampleMappings : KeyedAccount where
  key := Vector.replicate 32 7
  account :=
    { owner := SCOPE_PROGRAM_ID
      executable := false
      data := ORACLE_MAPPINGS_DISCRIMINATOR ++
        (sampleArray 32 sampleEntry.priceInfoAccount.toList ++
        (sampleArray 1 [sampleEntry.priceType] ++
        (sampleArray 2 (toLeBytes 2 sampleEntry.twapSourceOrRefPriceToleranceBps) ++
        (sampleArray 1 [sampleEntry.twapEnabledBitmask] ++
        (sampleArray 2 (toLeBytes 2 sampleEntry.refPrice) ++
        sampleArray 20 sampleEntry.generic.toList))))) }

def sampleConfig : ScopeOracleConfig where
  pricesAccount := Vector.replicate 32 6
  mapping := sampleEntry.commitment
  maxAgeSeconds := 30
  priceIndex := 3
  padding := Bytes.zero 6

/-- Bytes past a first part are those of the second. -/
theorem getD_append {k : Nat} {a b : List U8} (h : a.length ≤ k) :
    (a ++ b).getD k 0 = b.getD (k - a.length) 0 := by
  rw [List.getD_eq_getElem?_getD, List.getElem?_append_right h, List.getD_eq_getElem?_getD]

theorem bytesAt_append {n start : Nat} {a b : List U8} (h : a.length ≤ start) :
    bytesAt n (a ++ b) start = bytesAt n b (start - a.length) := by
  apply Vector.ext
  intro i hi
  rw [bytesAt, bytesAt, Vector.getElem_ofFn, Vector.getElem_ofFn, getD_append (by simp only; omega)]
  congr 1
  simp only
  omega

/-- The arrays of the sample, by their lengths. -/
theorem sampleMappings_lengths :
    ORACLE_MAPPINGS_DISCRIMINATOR.length = 8 ∧
      (sampleArray 32 sampleEntry.priceInfoAccount.toList).length = 16384 ∧
      (sampleArray 1 [sampleEntry.priceType]).length = 512 ∧
      (sampleArray 2 (toLeBytes 2 sampleEntry.twapSourceOrRefPriceToleranceBps)).length = 1024 ∧
      (sampleArray 1 [sampleEntry.twapEnabledBitmask]).length = 512 ∧
      (sampleArray 2 (toLeBytes 2 sampleEntry.refPrice)).length = 1024 ∧
      (sampleArray 20 sampleEntry.generic.toList).length = 10240 :=
  ⟨rfl, length_sampleArray Vector.length_toList, length_sampleArray rfl, length_sampleArray rfl,
    length_sampleArray rfl, length_sampleArray rfl, length_sampleArray Vector.length_toList⟩

theorem mappingAt_sampleMappings : mappingAt sampleMappings.account.data 3 = sampleEntry := by
  obtain ⟨h₀, h₁, h₂, h₃, h₄, h₅, -⟩ := sampleMappings_lengths
  -- skip the arrays in front of each field
  simp (disch := simp only [h₀, h₁, h₂, h₃, h₄, h₅]; decide) only [mappingAt,
    PRICE_INFO_ACCOUNTS_OFFSET, PRICE_TYPES_OFFSET_eq,
    TWAP_SOURCE_OR_REF_PRICE_TOLERANCE_BPS_OFFSET_eq, TWAP_ENABLED_BITMASK_OFFSET_eq,
    REF_PRICE_OFFSET_eq, GENERIC_OFFSET_eq, sampleMappings, bytesAt_append, getD_append,
    h₀, h₁, h₂, h₃, h₄, h₅]
  decide +kernel

theorem scopeVerified_sample : ScopeVerified sampleConfig samplePrices sampleMappings 100 := by
  have hprice : priceAt samplePrices.account.data 3 =
      { value := 25, exp := 1, unixTimestamp := 90 } := by decide +kernel
  have hindex : sampleConfig.priceIndex.toNat = 3 := rfl
  constructor
  case prices_key => rfl
  case prices_owner => rfl
  case mappings_owner => rfl
  case prices_discriminator => decide +kernel
  case mappings_discriminator => decide +kernel
  case declared => decide +kernel
  case unfrozen =>
    rw [hindex, mappingAt_sampleMappings]
    exact not_not.mpr (by decide)
  case committed =>
    rw [hindex, mappingAt_sampleMappings]
    rfl
  case now_nonneg => decide
  all_goals
    rw [hindex, hprice]
    decide

/-- The sample read is accepted with its entry 3, and accepts no other mapping there. -/
theorem scope_read_depends_on_entry_sample :
    (∃ p, readVerifiedPrice sampleConfig samplePrices sampleMappings 100 = .ok p) ∧
    ∀ mappings' : KeyedAccount, mappings'.account.data.length = ORACLE_MAPPINGS_LEN →
      mappingAt mappings'.account.data 3 ≠ mappingAt sampleMappings.account.data 3 →
      ∀ p', readVerifiedPrice sampleConfig samplePrices mappings' 100 ≠ .ok p' := by
  have hlen : samplePrices.account.data.length = ORACLE_PRICES_LEN := by
    simp only [samplePrices, List.length_append, List.length_replicate, length_leBytes]
    rfl
  have hlen' : sampleMappings.account.data.length = ORACLE_MAPPINGS_LEN := by
    obtain ⟨h₀, h₁, h₂, h₃, h₄, h₅, h₆⟩ := sampleMappings_lengths
    simp only [sampleMappings, List.length_append, h₀, h₁, h₂, h₃, h₄, h₅, h₆]
    rfl
  obtain ⟨-, hok, -, -, hfail⟩ := scope_read_depends_on_entry sampleConfig samplePrices
    sampleMappings 100 hlen hlen' (by decide)
  obtain ⟨p, hp⟩ := hok.mpr scopeVerified_sample
  refine ⟨⟨p, hp⟩, ?_⟩
  intro mappings' hm' hne p'
  exact hfail p mappings' hp hne samplePrices 100 p' hlen hm'

end Scope

end Roshi

import Roshi.Lib.Record
import Roshi.Oracle.Config

/-!
# The leg region

`oracle.rs`: a configuration is written into the 192-byte region at the range of its kind,
and read back from there.  Each configuration is a `repr(C)` record whose explicit padding
leaves no gaps, so its bytes are its fields one after another, integers little-endian.

Decoding a record's bytes gives the record back, for all three layouts, and a write touches
its own range only; so constructors and `active` are inverse, and in a region from before
the union both inline legs stay readable (`oracle_config_round_trip`).
-/

namespace Roshi

open Lib

/-! ### Records -/

/-- The bytes of a record, from those of its fields. -/
def ofFields (n : Nat) (fields : List (List U8)) (h : fields.flatten.length = n) : Bytes n :=
  ⟨fields.flatten.toArray, by simpa using h⟩

def SwitchboardOracleConfig.fields (c : SwitchboardOracleConfig) : List (List U8) :=
  [c.quoteAccount.toList, c.queueAccount.toList, c.feedId.toList, toLeBytes 8 c.maxAgeSlots,
    toLeBytes 1 c.priceDecimals, c.padding.toList]

def SwitchboardOracleConfig.toLegBytes (c : SwitchboardOracleConfig) : Bytes 112 :=
  ofFields 112 c.fields (by simp [fields, toLeBytes])

def PythOracleConfig.fields (c : PythOracleConfig) : List (List U8) :=
  [c.feedId.toList, c.priceUpdateAccount.toList, toLeBytes 8 c.maxAgeSeconds,
    toLeBytes 2 c.maxConfidenceBps, toLeBytes 1 c.priceDecimals, c.padding.toList]

def PythOracleConfig.toLegBytes (c : PythOracleConfig) : Bytes 80 :=
  ofFields 80 c.fields (by simp [fields, toLeBytes])

def ScopeOracleMapping.fields (m : ScopeOracleMapping) : List (List U8) :=
  [m.priceInfoAccount.toList, toLeBytes 2 m.twapSourceOrRefPriceToleranceBps,
    toLeBytes 2 m.refPrice, m.generic.toList, toLeBytes 1 m.priceType,
    toLeBytes 1 m.twapEnabledBitmask, m.padding.toList]

def ScopeOracleMapping.toBytes (m : ScopeOracleMapping) : Bytes 64 :=
  ofFields 64 m.fields (by simp [fields, toLeBytes])

def ScopeOracleConfig.fields (c : ScopeOracleConfig) : List (List U8) :=
  [c.pricesAccount.toList, c.mapping.toBytes.toList, toLeBytes 8 c.maxAgeSeconds,
    toLeBytes 2 c.priceIndex, c.padding.toList]

def ScopeOracleConfig.toLegBytes (c : ScopeOracleConfig) : Bytes 112 :=
  ofFields 112 c.fields (by simp [fields, toLeBytes])

/-! ### The region -/

/-- `write_leg`. -/
def writeLeg {n : Nat} (legs : Bytes 192) (offset : Nat) (bytes : Bytes n) (h : offset + n ≤ 192) :
    Bytes 192 :=
  copyInto legs offset (fun index : Fin n => bytes[index]) h

/-- `read_leg`. -/
def readLeg (n : Nat) (legs : Bytes 192) (offset : Nat) (h : offset + n ≤ 192) : Bytes n :=
  copyInto (Bytes.zero n) 0 (fun index : Fin n => legs[offset + index.val]) (by omega)

def SWITCHBOARD_LEG_OFFSET : Nat := 0

def PYTH_LEG_OFFSET : Nat := 112

def SCOPE_LEG_OFFSET : Nat := 0

def OracleKind.asU8 : OracleKind → U8
  | .switchboard => 0
  | .pyth => 1
  | .scope => 2

namespace OracleConfig

/- The constructors zero the trailing alignment padding too, which is not modelled. -/

def switchboard (config : SwitchboardOracleConfig) : OracleConfig where
  legs := writeLeg (Bytes.zero 192) SWITCHBOARD_LEG_OFFSET config.toLegBytes (by decide)
  kind := OracleKind.switchboard.asU8

def pyth (config : PythOracleConfig) : OracleConfig where
  legs := writeLeg (Bytes.zero 192) PYTH_LEG_OFFSET config.toLegBytes (by decide)
  kind := OracleKind.pyth.asU8

def scope (config : ScopeOracleConfig) : OracleConfig where
  legs := writeLeg (Bytes.zero 192) SCOPE_LEG_OFFSET config.toLegBytes (by decide)
  kind := OracleKind.scope.asU8

/-- The constructor of a configuration's kind. -/
def ofActive : ActiveOracleConfig → OracleConfig
  | .switchboard config => switchboard config
  | .pyth config => pyth config
  | .scope config => scope config

end OracleConfig

/-- Where the configuration of a kind stands in the region, and its size. -/
def ActiveOracleConfig.legRange : ActiveOracleConfig → Nat × Nat
  | .switchboard _ => (SWITCHBOARD_LEG_OFFSET, 112)
  | .pyth _ => (PYTH_LEG_OFFSET, 80)
  | .scope _ => (SCOPE_LEG_OFFSET, 112)

/-! ### Decoding a record -/

/-- A field is the slice behind the fields before it. -/
theorem slice_ofFields {n off len : Nat} {fields : List (List U8)} {sizes : List Nat}
    {h : fields.flatten.length = n} {hle : off + len ≤ n}
    (hsizes : fields.map List.length = sizes) (i : Nat) {x : Bytes len}
    (hx : fields[i]? = some x.toList) (hoff : (sizes.take i).sum = off) :
    (ofFields n fields h).slice off len hle = x := by
  have hfield := slice_flatten hx
  rw [List.map_take, hsizes, hoff, Vector.length_toList] at hfield
  apply Vector.toList_inj.mp
  rw [← hfield]
  apply List.ext_getElem
  · rw [Vector.length_toList, List.length_take, List.length_drop, h]
    omega
  · intro k hk hk'
    simp only [Vector.getElem_toList, Bytes.slice, Vector.getElem_ofFn, List.getElem_take,
      List.getElem_drop]
    rfl

/-- An integer field, of as many bytes as its type has. -/
theorem integer_ofFields {n off k w : Nat} {fields : List (List U8)} {sizes : List Nat}
    {h : fields.flatten.length = n} {hle : off + k ≤ n}
    (hsizes : fields.map List.length = sizes) (i : Nat) {x : BitVec w}
    (hx : fields[i]? = some (toLeBytes k x)) (hoff : (sizes.take i).sum = off)
    (hw : 2 ^ w ≤ 256 ^ k) : fromLeBytes w ((ofFields n fields h).slice off k hle) = x := by
  rw [slice_ofFields hsizes i (x := toLeArray k x) hx hoff, fromLeBytes_toLeArray hw]

/-! The sizes are the layout tables of the source. -/

theorem SwitchboardOracleConfig.sizes (c : SwitchboardOracleConfig) :
    c.fields.map List.length = [32, 32, 32, 8, 1, 7] := by
  simp [fields, toLeBytes]

theorem PythOracleConfig.sizes (c : PythOracleConfig) :
    c.fields.map List.length = [32, 32, 8, 2, 1, 5] := by
  simp [fields, toLeBytes]

theorem ScopeOracleMapping.sizes (m : ScopeOracleMapping) :
    m.fields.map List.length = [32, 2, 2, 20, 1, 1, 6] := by
  simp [fields, toLeBytes]

theorem ScopeOracleConfig.sizes (c : ScopeOracleConfig) :
    c.fields.map List.length = [32, 64, 8, 2, 6] := by
  simp [fields, toLeBytes]

theorem SwitchboardOracleConfig.fromLegBytes_toLegBytes (c : SwitchboardOracleConfig) :
    fromLegBytes c.toLegBytes = c := by
  cases c
  rw [fromLegBytes, toLegBytes, mk.injEq]
  exact ⟨slice_ofFields (sizes _) 0 rfl rfl, slice_ofFields (sizes _) 1 rfl rfl,
    slice_ofFields (sizes _) 2 rfl rfl, integer_ofFields (sizes _) 3 rfl rfl (by norm_num),
    integer_ofFields (sizes _) 4 rfl rfl (by norm_num), slice_ofFields (sizes _) 5 rfl rfl⟩

theorem PythOracleConfig.fromLegBytes_toLegBytes (c : PythOracleConfig) :
    fromLegBytes c.toLegBytes = c := by
  cases c
  rw [fromLegBytes, toLegBytes, mk.injEq]
  exact ⟨slice_ofFields (sizes _) 0 rfl rfl, slice_ofFields (sizes _) 1 rfl rfl,
    integer_ofFields (sizes _) 2 rfl rfl (by norm_num),
    integer_ofFields (sizes _) 3 rfl rfl (by norm_num),
    integer_ofFields (sizes _) 4 rfl rfl (by norm_num), slice_ofFields (sizes _) 5 rfl rfl⟩

theorem ScopeOracleMapping.fromLegBytes_toBytes (m : ScopeOracleMapping) :
    fromLegBytes m.toBytes = m := by
  cases m
  rw [fromLegBytes, toBytes, mk.injEq]
  exact ⟨slice_ofFields (sizes _) 0 rfl rfl, integer_ofFields (sizes _) 1 rfl rfl (by norm_num),
    integer_ofFields (sizes _) 2 rfl rfl (by norm_num), slice_ofFields (sizes _) 3 rfl rfl,
    integer_ofFields (sizes _) 4 rfl rfl (by norm_num),
    integer_ofFields (sizes _) 5 rfl rfl (by norm_num), slice_ofFields (sizes _) 6 rfl rfl⟩

theorem ScopeOracleConfig.fromLegBytes_toLegBytes (c : ScopeOracleConfig) :
    fromLegBytes c.toLegBytes = c := by
  have hmapping : c.toLegBytes.slice 32 64 (by decide) = c.mapping.toBytes :=
    slice_ofFields c.sizes 1 rfl rfl
  rw [fromLegBytes, hmapping, ScopeOracleMapping.fromLegBytes_toBytes]
  cases c
  rw [toLegBytes, mk.injEq]
  exact ⟨slice_ofFields (sizes _) 0 rfl rfl, rfl,
    integer_ofFields (sizes _) 2 rfl rfl (by norm_num),
    integer_ofFields (sizes _) 3 rfl rfl (by norm_num), slice_ofFields (sizes _) 4 rfl rfl⟩

/-! ### Reading and writing the region -/

variable {n : Nat} {legs : Bytes 192}

/-- Reading a leg copies the slice. -/
theorem readLeg_eq_slice {offset : Nat} (h : offset + n ≤ 192) :
    readLeg n legs offset h = legs.slice offset n h := by
  apply Vector.ext
  intro k hk
  have hcopy : (readLeg n legs offset h)[0 + k] = legs[offset + k] := getElem_copyInto hk
  simp only [Nat.zero_add] at hcopy
  rw [hcopy, Bytes.slice, Vector.getElem_ofFn]
  rfl

/-- A leg is read back from where it was written. -/
theorem slice_writeLeg {offset : Nat} {bytes : Bytes n} (h : offset + n ≤ 192) :
    (writeLeg legs offset bytes h).slice offset n h = bytes := by
  apply Vector.ext
  intro k hk
  rw [Bytes.slice, Vector.getElem_ofFn]
  exact getElem_copyInto hk

/-- A write elsewhere leaves it alone. -/
theorem slice_writeLeg_of_disjoint {offset off len : Nat} {bytes : Bytes n} (h : offset + n ≤ 192)
    (hle : off + len ≤ 192) (hdis : off + len ≤ offset ∨ offset + n ≤ off) :
    (writeLeg legs offset bytes h).slice off len hle = legs.slice off len hle := by
  apply Vector.ext
  intro k hk
  rw [Bytes.slice, Bytes.slice, Vector.getElem_ofFn, Vector.getElem_ofFn]
  exact getElem_copyInto_of_outside _ (by omega)

/-! ### The union -/

namespace OracleConfig

/-- The typed configurations are read by that loop. -/
theorem configs_eq_readLeg (c : OracleConfig) :
    c.switchboardConfig = .fromLegBytes (readLeg 112 c.legs SWITCHBOARD_LEG_OFFSET (by decide)) ∧
      c.pythConfig = .fromLegBytes (readLeg 80 c.legs PYTH_LEG_OFFSET (by decide)) ∧
      c.scopeConfig = .fromLegBytes (readLeg 112 c.legs SCOPE_LEG_OFFSET (by decide)) := by
  simp only [readLeg_eq_slice]
  exact ⟨rfl, rfl, rfl⟩

/-- A region with a Switchboard leg at its range decodes to it, whatever else is there. -/
theorem active_of_switchboard {c : SwitchboardOracleConfig}
    (h : legs.slice 0 112 (by decide) = c.toLegBytes) :
    (⟨legs, 0⟩ : OracleConfig).active = .ok (.switchboard c) := by
  show Except.ok (ActiveOracleConfig.switchboard (.fromLegBytes (legs.slice 0 112 _))) = _
  rw [h, SwitchboardOracleConfig.fromLegBytes_toLegBytes]

theorem active_of_pyth {c : PythOracleConfig} (h : legs.slice 112 80 (by decide) = c.toLegBytes) :
    (⟨legs, 1⟩ : OracleConfig).active = .ok (.pyth c) := by
  show Except.ok (ActiveOracleConfig.pyth (.fromLegBytes (legs.slice 112 80 _))) = _
  rw [h, PythOracleConfig.fromLegBytes_toLegBytes]

theorem active_of_scope {c : ScopeOracleConfig} (h : legs.slice 0 112 (by decide) = c.toLegBytes) :
    (⟨legs, 2⟩ : OracleConfig).active = .ok (.scope c) := by
  show Except.ok (ActiveOracleConfig.scope (.fromLegBytes (legs.slice 0 112 _))) = _
  rw [h, ScopeOracleConfig.fromLegBytes_toLegBytes]

/-- **A constructed configuration decodes to what it was made of.** -/
theorem active_ofActive (c : ActiveOracleConfig) : (ofActive c).active = .ok c := by
  cases c with
  | switchboard c => exact active_of_switchboard (slice_writeLeg _)
  | pyth c => exact active_of_pyth (slice_writeLeg _)
  | scope c => exact active_of_scope (slice_writeLeg _)

/-- So different ones stay different. -/
theorem ofActive_inj {c c' : ActiveOracleConfig} : ofActive c = ofActive c' ↔ c = c' := by
  constructor
  · intro h
    have hactive := active_ofActive c
    rw [h, active_ofActive c'] at hactive
    exact (Except.ok.inj hactive).symm
  · rintro rfl
    rfl

theorem getElem_zero {k : Nat} (hk : k < n) : (Bytes.zero n)[k] = 0 :=
  Vector.getElem_replicate ..

/-- **Dead bytes are zero.** -/
theorem legs_ofActive (c : ActiveOracleConfig) {k : Nat} (hk : k < 192)
    (hout : ¬ (c.legRange.1 ≤ k ∧ k < c.legRange.1 + c.legRange.2)) :
    (ofActive c).legs[k] = 0 := by
  rw [not_and_or, not_le, not_lt] at hout
  cases c with
  | switchboard c => exact (getElem_copyInto_of_outside hk hout).trans (getElem_zero hk)
  | pyth c => exact (getElem_copyInto_of_outside hk hout).trans (getElem_zero hk)
  | scope c => exact (getElem_copyInto_of_outside hk hout).trans (getElem_zero hk)

/-- The region of a configuration from before the union: both inline legs. -/
def legacyLegs (switchboard : SwitchboardOracleConfig) (pyth : PythOracleConfig) : Bytes 192 :=
  writeLeg (writeLeg (Bytes.zero 192) SWITCHBOARD_LEG_OFFSET switchboard.toLegBytes (by decide))
    PYTH_LEG_OFFSET pyth.toLegBytes (by decide)

end OracleConfig

/-- **The union round-trips.**  A constructed configuration decodes to its kind and its own
contents, with zeros outside its range, and two are equal when these are; a leg in its range
decodes under its tag whatever the other bytes are, as both legs of a legacy region do. -/
theorem oracle_config_round_trip :
    ((∀ c, (OracleConfig.switchboard c).active = .ok (.switchboard c)) ∧
      (∀ c, (OracleConfig.pyth c).active = .ok (.pyth c)) ∧
      ∀ c, (OracleConfig.scope c).active = .ok (.scope c)) ∧
    (∀ (c : ActiveOracleConfig) (k : Nat) (hk : k < 192),
      ¬ (c.legRange.1 ≤ k ∧ k < c.legRange.1 + c.legRange.2) →
        (OracleConfig.ofActive c).legs[k] = 0) ∧
    ((∀ (legs : Bytes 192) (c : SwitchboardOracleConfig),
        legs.slice 0 112 (by decide) = c.toLegBytes →
        (⟨legs, OracleKind.switchboard.asU8⟩ : OracleConfig).active = .ok (.switchboard c)) ∧
      (∀ (legs : Bytes 192) (c : PythOracleConfig),
        legs.slice 112 80 (by decide) = c.toLegBytes →
        (⟨legs, OracleKind.pyth.asU8⟩ : OracleConfig).active = .ok (.pyth c)) ∧
      ∀ s p, (⟨OracleConfig.legacyLegs s p, OracleKind.switchboard.asU8⟩ : OracleConfig).active =
          .ok (.switchboard s) ∧
        (⟨OracleConfig.legacyLegs s p, OracleKind.pyth.asU8⟩ : OracleConfig).active =
          .ok (.pyth p)) ∧
    ∀ c c' : ActiveOracleConfig, OracleConfig.ofActive c = OracleConfig.ofActive c' ↔ c = c' := by
  refine ⟨⟨fun c => OracleConfig.active_ofActive (.switchboard c),
    fun c => OracleConfig.active_ofActive (.pyth c),
    fun c => OracleConfig.active_ofActive (.scope c)⟩,
    fun c k hk hout => OracleConfig.legs_ofActive c hk hout,
    ⟨fun _ _ h => OracleConfig.active_of_switchboard h,
      fun _ _ h => OracleConfig.active_of_pyth h, ?_⟩,
    fun c c' => OracleConfig.ofActive_inj⟩
  intro s p
  constructor
  · apply OracleConfig.active_of_switchboard
    rw [OracleConfig.legacyLegs, slice_writeLeg_of_disjoint _ _ (by decide)]
    exact slice_writeLeg _
  · exact OracleConfig.active_of_pyth (slice_writeLeg _)

namespace Sample

def switchboardLeg : SwitchboardOracleConfig where
  quoteAccount := Vector.replicate 32 1
  queueAccount := Vector.replicate 32 2
  feedId := Vector.replicate 32 3
  maxAgeSlots := 0x0102030405060708
  priceDecimals := 6
  padding := Bytes.zero 7

def pythLeg : PythOracleConfig where
  feedId := Vector.replicate 32 4
  priceUpdateAccount := Bytes.zero 32
  maxAgeSeconds := 30
  maxConfidenceBps := 250
  priceDecimals := 8
  padding := Bytes.zero 5

/-- The Switchboard leg over other bytes. -/
def dirtyLegs : Bytes 192 :=
  writeLeg (Vector.replicate 192 9) SWITCHBOARD_LEG_OFFSET switchboardLeg.toLegBytes (by decide)

end Sample

theorem oracle_config_round_trip_dirty :
    (⟨Sample.dirtyLegs, OracleKind.switchboard.asU8⟩ : OracleConfig).active =
        .ok (.switchboard Sample.switchboardLeg) ∧
      (OracleConfig.ofActive (.pyth Sample.pythLeg)).legs[5] = 0 :=
  ⟨oracle_config_round_trip.2.2.1.1 Sample.dirtyLegs Sample.switchboardLeg (by decide +kernel),
    oracle_config_round_trip.2.1 (.pyth Sample.pythLeg) 5 (by decide) (by decide)⟩

end Roshi

import Roshi.Math

/-!
# Oracle configuration

`oracle.rs` and `oracle/configs.rs`: the 192-byte leg region tagged by a kind
byte, the typed configuration it holds for that kind, and the static checks an
account carrying one has to pass.  Switchboard occupies bytes `0..112`, Pyth
`112..192`, Scope `0..112`.
-/

namespace Roshi

open Lib

structure SwitchboardOracleConfig where
  quoteAccount : Bytes 32
  queueAccount : Bytes 32
  feedId : Bytes 32
  maxAgeSlots : U64
  priceDecimals : U8
  padding : Bytes 7
  deriving DecidableEq

structure PythOracleConfig where
  feedId : Bytes 32
  priceUpdateAccount : Bytes 32
  maxAgeSeconds : U64
  maxConfidenceBps : U16
  priceDecimals : U8
  padding : Bytes 5
  deriving DecidableEq

structure ScopeOracleMapping where
  priceInfoAccount : Bytes 32
  twapSourceOrRefPriceToleranceBps : U16
  refPrice : U16
  generic : Bytes 20
  priceType : U8
  twapEnabledBitmask : U8
  padding : Bytes 6
  deriving DecidableEq

structure ScopeOracleConfig where
  pricesAccount : Bytes 32
  mapping : ScopeOracleMapping
  maxAgeSeconds : U64
  priceIndex : U16
  padding : Bytes 6
  deriving DecidableEq

inductive OracleKind where
  | switchboard
  | pyth
  | scope
  deriving DecidableEq, Repr

def OracleKind.fromU8 (kind : U8) : Option OracleKind :=
  match kind.toNat with
  | 0 => some .switchboard
  | 1 => some .pyth
  | 2 => some .scope
  | _ => none

/-- The one typed configuration selected by a tag. -/
inductive ActiveOracleConfig where
  | switchboard (config : SwitchboardOracleConfig)
  | pyth (config : PythOracleConfig)
  | scope (config : ScopeOracleConfig)
  deriving DecidableEq

/-- `InvalidOracleConfig`, the unit error of the configuration decoder. -/
inductive InvalidOracleConfig where
  | mk
  deriving DecidableEq, Repr

/-- The leg region and its kind byte; the trailing alignment padding is never read. -/
structure OracleConfig where
  legs : Bytes 192
  kind : U8
  deriving DecidableEq

/-! ### Decoding a leg -/

def SwitchboardOracleConfig.fromLegBytes (bytes : Bytes 112) : SwitchboardOracleConfig where
  quoteAccount := bytes.slice 0 32 (by decide)
  queueAccount := bytes.slice 32 32 (by decide)
  feedId := bytes.slice 64 32 (by decide)
  maxAgeSlots := fromLeBytes 64 (bytes.slice 96 8 (by decide))
  priceDecimals := fromLeBytes 8 (bytes.slice 104 1 (by decide))
  padding := bytes.slice 105 7 (by decide)

def PythOracleConfig.fromLegBytes (bytes : Bytes 80) : PythOracleConfig where
  feedId := bytes.slice 0 32 (by decide)
  priceUpdateAccount := bytes.slice 32 32 (by decide)
  maxAgeSeconds := fromLeBytes 64 (bytes.slice 64 8 (by decide))
  maxConfidenceBps := fromLeBytes 16 (bytes.slice 72 2 (by decide))
  priceDecimals := fromLeBytes 8 (bytes.slice 74 1 (by decide))
  padding := bytes.slice 75 5 (by decide)

def ScopeOracleMapping.fromLegBytes (bytes : Bytes 64) : ScopeOracleMapping where
  priceInfoAccount := bytes.slice 0 32 (by decide)
  twapSourceOrRefPriceToleranceBps := fromLeBytes 16 (bytes.slice 32 2 (by decide))
  refPrice := fromLeBytes 16 (bytes.slice 34 2 (by decide))
  generic := bytes.slice 36 20 (by decide)
  priceType := fromLeBytes 8 (bytes.slice 56 1 (by decide))
  twapEnabledBitmask := fromLeBytes 8 (bytes.slice 57 1 (by decide))
  padding := bytes.slice 58 6 (by decide)

def ScopeOracleConfig.fromLegBytes (bytes : Bytes 112) : ScopeOracleConfig where
  pricesAccount := bytes.slice 0 32 (by decide)
  mapping := .fromLegBytes (bytes.slice 32 64 (by decide))
  maxAgeSeconds := fromLeBytes 64 (bytes.slice 96 8 (by decide))
  priceIndex := fromLeBytes 16 (bytes.slice 104 2 (by decide))
  padding := bytes.slice 106 6 (by decide)

def ScopeOracleConfig.MAX_ENTRIES : U16 := 512

def ScopeOracleConfig.MAX_PRICE_TYPE : U8 := 0x7f

def bytesAreZero {n : Nat} (bytes : Bytes n) : Bool := bytes.all (· == 0)

def ScopeOracleConfig.hasCanonicalPadding (config : ScopeOracleConfig) : Bool :=
  bytesAreZero config.padding && bytesAreZero config.mapping.padding

namespace OracleConfig

def switchboardConfig (c : OracleConfig) : SwitchboardOracleConfig :=
  .fromLegBytes (c.legs.slice 0 112 (by decide))

def pythConfig (c : OracleConfig) : PythOracleConfig :=
  .fromLegBytes (c.legs.slice 112 80 (by decide))

def scopeConfig (c : OracleConfig) : ScopeOracleConfig :=
  .fromLegBytes (c.legs.slice 0 112 (by decide))

def scopeTailIsZero (c : OracleConfig) : Bool := bytesAreZero (c.legs.slice 112 80 (by decide))

def active (c : OracleConfig) : Except InvalidOracleConfig ActiveOracleConfig :=
  match OracleKind.fromU8 c.kind with
  | some .switchboard => .ok (.switchboard c.switchboardConfig)
  | some .pyth => .ok (.pyth c.pythConfig)
  | some .scope => .ok (.scope c.scopeConfig)
  | none => .error .mk

/-- Only the active leg is checked: a Pyth leg must bound its confidence, a Scope
leg must address a real entry of an underlying price type, with nothing else in
the region. -/
def validate (c : OracleConfig) : Except InvalidOracleConfig Unit := do
  match ← c.active with
  | .pyth config => rejectIf (config.maxConfidenceBps = 0) .mk
  | .switchboard _ => .ok ()
  | .scope config =>
    rejectIf (config.priceIndex ≥ ScopeOracleConfig.MAX_ENTRIES
      ∨ config.mapping.priceType > ScopeOracleConfig.MAX_PRICE_TYPE
      ∨ config.hasCanonicalPadding = false ∨ c.scopeTailIsZero = false) .mk

/-- `OracleConfig::default()`: an all-zero Switchboard leg. -/
def default : OracleConfig where
  legs := Bytes.zero 192
  kind := 0

example : default.validate = .ok () := by decide

end OracleConfig

end Roshi

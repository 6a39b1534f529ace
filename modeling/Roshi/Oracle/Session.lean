import Roshi.Oracle.Config
import Roshi.Runtime

/-!
# Reading oracle legs

`accounts/oracle_price.rs`: splitting a leg's accounts off an account list, and the
session that reads at most three legs of one valuation.  A repeated feed reuses its
first verified price only when its whole configuration and its account keys agree.
The read of one leg is a parameter: what the provider's account answers.

A session that verified only what it read (`Verified`) reads a leg successfully exactly
when the leg is compatible with those before and its own read succeeds (`read_eq_ok`).
Compatibility is symmetric, so neither the success of a sequence of reads nor a price
depends on the order (`readAll_eq_ok`, `readAll_perm`).
-/

namespace Roshi

open Lib

structure OracleLeg where
  config : ActiveOracleConfig
  accounts : List AccountInfo
  deriving DecidableEq

/-- Accounts per leg: one for Pyth, four for Switchboard, two for Scope. -/
def ActiveOracleConfig.legAccounts : ActiveOracleConfig → Nat
  | .pyth _ => 1
  | .switchboard _ => 4
  | .scope _ => 2

def OracleLeg.parse (oracle : OracleConfig) (accounts : List AccountInfo) :
    ProgramResult (OracleLeg × List AccountInfo) := do
  let config ← oracle.active.mapError fun _ => .invalidAccountData
  let count := config.legAccounts
  rejectIf (accounts.length < count) .notEnoughAccountKeys
  .ok ({ config, accounts := accounts.take count }, accounts.drop count)

/-- The identity of a feed, independent of the policy applied to it. -/
inductive OracleFeedKey where
  | switchboard (feedId : Bytes 32)
  | pyth (feedId : Bytes 32)
  | scope (pricesAccount : Bytes 32) (priceIndex : U16)
  deriving DecidableEq

def feedKey : ActiveOracleConfig → OracleFeedKey
  | .switchboard config => .switchboard config.feedId
  | .pyth config => .pyth config.feedId
  | .scope config => .scope config.pricesAccount config.priceIndex

def feedsMatch (left right : ActiveOracleConfig) : ProgramResult Bool :=
  if feedKey left ≠ feedKey right then .ok false
  else if left ≠ right then .error .invalidAccountData
  else .ok true

def sameAccountKeys (left right : List AccountInfo) : Bool :=
  left.map AccountInfo.key == right.map AccountInfo.key

structure VerifiedOracleLeg where
  leg : OracleLeg
  price : OraclePrice

/-- The legs verified so far, in reading order. -/
abbrev OracleReadSession := List VerifiedOracleLeg

namespace OracleReadSession

/-- The price a repeated feed reuses: that of the last verified leg it matches. -/
def reused (leg : OracleLeg) : OracleReadSession → ProgramResult (Option OraclePrice)
  | [] => .ok none
  | verified :: rest => do
    if ← feedsMatch leg.config verified.leg.config then do
      rejectIf (sameAccountKeys leg.accounts verified.leg.accounts = false) .invalidAccountData
      match ← reused leg rest with
      | some price => .ok (some price)
      | none => .ok (some verified.price)
    else reused leg rest

/-- `OracleReadSession::read`; the session has room for three legs. -/
def read (readLeg : OracleLeg → ProgramResult OraclePrice) (session : OracleReadSession)
    (leg : OracleLeg) : ProgramResult (OraclePrice × OracleReadSession) := do
  let price ← match ← reused leg session with
    | some price => .ok price
    | none => readLeg leg
  rejectIf (session.length ≥ 3) .panicked
  .ok (price, session ++ [⟨leg, price⟩])

/-- Reading one leg after the other. -/
def readAll (readLeg : OracleLeg → ProgramResult OraclePrice) :
    OracleReadSession → List OracleLeg → ProgramResult (List OraclePrice × OracleReadSession)
  | session, [] => .ok ([], session)
  | session, leg :: legs => do
    let (price, session) ← session.read readLeg leg
    let (prices, session) ← readAll readLeg session legs
    .ok (price :: prices, session)

end OracleReadSession

/-! ### Compatible legs -/

/-- The addresses a leg is read from. -/
def OracleLeg.keys (leg : OracleLeg) : List Pubkey := leg.accounts.map AccountInfo.key

/-- One feed is read one way: under one policy, from the same accounts. -/
def OracleLeg.Compatible (l l' : OracleLeg) : Prop :=
  feedKey l.config = feedKey l'.config → l.config = l'.config ∧ l.keys = l'.keys

theorem OracleLeg.Compatible.symm {l l' : OracleLeg} (h : l.Compatible l') : l'.Compatible l := by
  intro hkey
  obtain ⟨hconfig, hkeys⟩ := h hkey.symm
  exact ⟨hconfig.symm, hkeys.symm⟩

instance : Std.Symm OracleLeg.Compatible := ⟨fun _ _ => OracleLeg.Compatible.symm⟩

theorem OracleLeg.Compatible.refl (l : OracleLeg) : l.Compatible l := fun _ => ⟨rfl, rfl⟩

theorem sameAccountKeys_eq_true {l l' : OracleLeg} :
    sameAccountKeys l.accounts l'.accounts = true ↔ l.keys = l'.keys := by
  rw [sameAccountKeys, beq_iff_eq]
  rfl

/-- A comparison that fails is one of two policies for a feed. -/
theorem feedsMatch_eq_ok {left right : ActiveOracleConfig} {b : Bool} :
    feedsMatch left right = .ok b ↔
      (b = true ∧ left = right) ∨ (b = false ∧ feedKey left ≠ feedKey right) := by
  rw [feedsMatch]
  by_cases hkey : feedKey left = feedKey right
  · rw [if_neg (not_not.mpr hkey)]
    by_cases heq : left = right
    · cases b <;> simp [heq]
    · simp [heq, hkey]
  · have hne : left ≠ right := fun h => hkey (congrArg feedKey h)
    cases b <;> simp [hkey, hne]

namespace OracleReadSession

/-! ### What a session reads -/

section Reads

variable {readLeg : OracleLeg → ProgramResult OraclePrice} {session session' : OracleReadSession}
  {leg : OracleLeg} {legs legs' : List OracleLeg} {price : OraclePrice}
  {prices prices' : List OraclePrice}

/-- Every price of the session is the one its leg reads. -/
def Verified (readLeg : OracleLeg → ProgramResult OraclePrice) (session : OracleReadSession) :
    Prop :=
  ∀ v ∈ session, readLeg v.leg = .ok v.price

/-- A provider answers by the configuration and the accounts. -/
def ReadsByKey (readLeg : OracleLeg → ProgramResult OraclePrice) : Prop :=
  ∀ l l' : OracleLeg, l.config = l'.config → l.keys = l'.keys → readLeg l = readLeg l'

/-- Looking for the feed fails only at an incompatible leg, and a price found was verified
for the same configuration and accounts. -/
theorem reused_eq_ok (o : Option OraclePrice) (h : reused leg session = .ok o) :
    (∀ v ∈ session, leg.Compatible v.leg) ∧
      ∀ p, o = some p →
        ∃ v ∈ session, leg.config = v.leg.config ∧ leg.keys = v.leg.keys ∧ v.price = p := by
  induction session generalizing o with
  | nil =>
    cases h
    exact ⟨by simp, fun p hp => by cases hp⟩
  | cons v rest ih =>
    rw [reused, bind_eq_ok] at h
    obtain ⟨b, hb, h⟩ := h
    rcases feedsMatch_eq_ok.mp hb with ⟨rfl, hconfig⟩ | ⟨rfl, hkey⟩
    · simp only [if_true, bind_eq_ok, rejectIf_eq_ok, Bool.not_eq_false,
        sameAccountKeys_eq_true] at h
      obtain ⟨_, hkeys, found, hfound, h⟩ := h
      obtain ⟨hrest, hprice⟩ := ih found hfound
      refine ⟨List.forall_mem_cons.mpr ⟨fun _ => ⟨hconfig, hkeys⟩, hrest⟩, ?_⟩
      intro p hp
      cases found with
      | none =>
        cases h
        exact ⟨v, List.mem_cons_self, hconfig, hkeys, Option.some.inj hp⟩
      | some q =>
        cases h
        obtain ⟨v', hv', hrest⟩ := hprice p hp
        exact ⟨v', List.mem_cons_of_mem _ hv', hrest⟩
    · rw [if_neg Bool.false_ne_true] at h
      obtain ⟨hrest, hprice⟩ := ih o h
      refine ⟨List.forall_mem_cons.mpr ⟨fun heq => absurd heq hkey, hrest⟩, ?_⟩
      intro p hp
      obtain ⟨v', hv', hrest⟩ := hprice p hp
      exact ⟨v', List.mem_cons_of_mem _ hv', hrest⟩

/-- A leg compatible with all of them is looked for without an error. -/
theorem exists_reused (h : ∀ v ∈ session, leg.Compatible v.leg) :
    ∃ o, reused leg session = .ok o := by
  induction session with
  | nil => exact ⟨none, rfl⟩
  | cons v rest ih =>
    obtain ⟨hv, hrest⟩ := List.forall_mem_cons.mp h
    obtain ⟨o, ho⟩ := ih hrest
    rw [reused]
    by_cases hkey : feedKey leg.config = feedKey v.leg.config
    · obtain ⟨hconfig, hkeys⟩ := hv hkey
      have hsame : ¬ sameAccountKeys leg.accounts v.leg.accounts = false := by
        rw [Bool.not_eq_false]
        exact sameAccountKeys_eq_true.mpr hkeys
      rw [feedsMatch_eq_ok.mpr (.inl ⟨rfl, hconfig⟩), ok_bind, if_pos rfl, rejectIf_of_not hsame,
        ok_bind, ho, ok_bind]
      cases o with
      | none => exact ⟨_, rfl⟩
      | some p => exact ⟨_, rfl⟩
    · rw [feedsMatch_eq_ok.mpr (.inr ⟨rfl, hkey⟩), ok_bind, if_neg Bool.false_ne_true]
      exact ⟨o, ho⟩

/-- **One read.**  It succeeds exactly when the leg is compatible with every leg before and
its own read succeeds, and that read's price is what it returns, reused or not. -/
theorem read_eq_ok (hread : ReadsByKey readLeg) (hs : Verified readLeg session)
    (hlen : session.length < 3) :
    session.read readLeg leg = .ok (price, session') ↔
      (∀ v ∈ session, leg.Compatible v.leg) ∧ readLeg leg = .ok price ∧
        session' = session ++ [⟨leg, price⟩] := by
  have hfound : ∀ p, reused leg session = .ok (some p) → readLeg leg = .ok p := by
    intro p hp
    obtain ⟨v, hv, hconfig, hkeys, rfl⟩ := (reused_eq_ok _ hp).2 p rfl
    rw [hread leg v.leg hconfig hkeys]
    exact hs v hv
  have hstore : ∀ {x : ProgramResult OraclePrice}, (do
      let price ← x
      rejectIf (session.length ≥ 3) .panicked
      .ok (price, session ++ [⟨leg, price⟩]) : ProgramResult (OraclePrice × OracleReadSession)) =
        .ok (price, session') ↔ x = .ok price ∧ session' = session ++ [⟨leg, price⟩] := by
    intro x
    simp only [bind_eq_ok, rejectIf_eq_ok, Except.ok.injEq, Prod.mk.injEq]
    constructor
    · rintro ⟨p, hp, _, -, rfl, rfl⟩
      exact ⟨hp, rfl⟩
    · rintro ⟨hp, rfl⟩
      exact ⟨price, hp, (), by omega, rfl, rfl⟩
  rw [OracleReadSession.read, bind_eq_ok]
  constructor
  · rintro ⟨o, ho, h⟩
    refine ⟨(reused_eq_ok o ho).1, ?_⟩
    cases o with
    | none => exact hstore.mp h
    | some q =>
      obtain ⟨hq, rfl⟩ := hstore.mp h
      cases hq
      exact ⟨hfound _ ho, rfl⟩
  · rintro ⟨hcompat, hprice, rfl⟩
    obtain ⟨o, ho⟩ := exists_reused hcompat
    refine ⟨o, ho, ?_⟩
    cases o with
    | none => exact hstore.mpr ⟨hprice, rfl⟩
    | some q => exact hstore.mpr ⟨(hfound q ho).symm.trans hprice, rfl⟩

theorem Verified.append (hs : Verified readLeg session) (h : readLeg leg = .ok price) :
    Verified readLeg (session ++ [⟨leg, price⟩]) := by
  intro v hv
  rcases List.mem_append.mp hv with hv | hv
  · exact hs v hv
  · obtain rfl := List.mem_singleton.mp hv
    exact h

/-- **A sequence of reads**, as long as the session has room: the legs are pairwise
compatible, also with those before, and each price is the leg's own. -/
theorem readAll_eq_ok (hread : ReadsByKey readLeg) (hs : Verified readLeg session)
    (hlen : session.length + legs.length ≤ 3) :
    readAll readLeg session legs = .ok (prices, session') ↔
      List.Forall₂ (fun l p => readLeg l = .ok p) legs prices ∧
        (∀ l ∈ legs, ∀ v ∈ session, l.Compatible v.leg) ∧
        legs.Pairwise OracleLeg.Compatible ∧
        session' = session ++ List.zipWith VerifiedOracleLeg.mk legs prices := by
  induction legs generalizing session prices with
  | nil =>
    simp only [readAll, Except.ok.injEq, Prod.mk.injEq, List.forall₂_nil_left_iff, List.not_mem_nil,
      false_implies, implies_true, List.Pairwise.nil, List.zipWith_nil_left, List.append_nil,
      true_and]
    exact and_congr eq_comm eq_comm
  | cons leg legs ih =>
    rw [List.length_cons] at hlen
    simp only [readAll, bind_eq_ok, Prod.exists, read_eq_ok hread hs (by omega), Except.ok.injEq,
      Prod.mk.injEq, List.forall₂_cons_left_iff, List.forall_mem_cons, List.pairwise_cons]
    constructor
    · rintro ⟨p, _, ⟨hcompat, hp, rfl⟩, ps, _, hps, rfl, rfl⟩
      obtain ⟨hall, hbefore, hpair, rfl⟩ := (ih (hs.append hp) (by simp; omega)).mp hps
      have hleg : ∀ l ∈ legs, l.Compatible leg := by
        intro l hl
        exact hbefore l hl ⟨leg, p⟩ (List.mem_append_right _ List.mem_cons_self)
      refine ⟨⟨p, ps, hp, hall, rfl⟩, ⟨hcompat, ?_⟩, ⟨fun l hl => (hleg l hl).symm, hpair⟩, ?_⟩
      · intro l hl v hv
        exact hbefore l hl v (List.mem_append_left _ hv)
      · rw [List.append_assoc]
        rfl
    · rintro ⟨⟨p, ps, hp, hall, rfl⟩, ⟨hcompat, hbefore⟩, ⟨hleg, hpair⟩, rfl⟩
      refine ⟨p, _, ⟨hcompat, hp, rfl⟩, ps, _, ?_, rfl, rfl⟩
      rw [ih (hs.append hp) (by simp; omega)]
      refine ⟨hall, ?_, hpair, by rw [List.append_assoc]; rfl⟩
      intro l hl v hv
      rcases List.mem_append.mp hv with hv | hv
      · exact hbefore l hl v hv
      · obtain rfl := List.mem_singleton.mp hv
        exact (hleg l hl).symm

theorem verified_nil : Verified readLeg [] := by
  intro v hv
  cases hv

/-- The first read. -/
theorem read_nil_eq_ok (hread : ReadsByKey readLeg) :
    OracleReadSession.read readLeg [] leg = .ok (price, session') ↔
      readLeg leg = .ok price ∧ session' = [⟨leg, price⟩] := by
  rw [read_eq_ok hread verified_nil (Nat.zero_lt_succ 2)]
  simp

/-- From an empty session: the legs are compatible and each read succeeds. -/
theorem readAll_nil_eq_ok (hread : ReadsByKey readLeg) (hlen : legs.length ≤ 3) :
    readAll readLeg [] legs = .ok (prices, session) ↔
      List.Forall₂ (fun l p => readLeg l = .ok p) legs prices ∧
        legs.Pairwise OracleLeg.Compatible ∧
        session = List.zipWith VerifiedOracleLeg.mk legs prices := by
  rw [readAll_eq_ok hread verified_nil (by simpa using hlen)]
  simp

/-- The price a leg reads, where it reads one. -/
def priceOf (readLeg : OracleLeg → ProgramResult OraclePrice) (leg : OracleLeg) : OraclePrice :=
  (readLeg leg).toOption.getD .UNIT

/-- Prices that were read are a function of their legs. -/
theorem forall₂_read_iff :
    List.Forall₂ (fun l p => readLeg l = .ok p) legs prices ↔
      prices = legs.map (priceOf readLeg) ∧ ∀ l ∈ legs, readLeg l = .ok (priceOf readLeg l) := by
  induction legs generalizing prices with
  | nil => simp
  | cons leg legs ih =>
    simp only [List.forall₂_cons_left_iff, ih, List.map_cons, List.forall_mem_cons]
    constructor
    · rintro ⟨p, ps, hp, ⟨rfl, hps⟩, rfl⟩
      have hprice : priceOf readLeg leg = p := by
        rw [priceOf, hp]
        rfl
      rw [hprice]
      exact ⟨rfl, hp, hps⟩
    · rintro ⟨rfl, hp, hps⟩
      exact ⟨_, _, hp, ⟨rfl, hps⟩, rfl⟩

/-- Legs of one feed that were all read are read one way, at one price. -/
theorem readAll_same_feed (hread : ReadsByKey readLeg) (hlen : legs.length ≤ 3)
    (h : readAll readLeg [] legs = .ok (prices, session)) :
    ∀ x ∈ legs.zip prices, ∀ y ∈ legs.zip prices, feedKey x.1.config = feedKey y.1.config →
      x.1.config = y.1.config ∧ x.1.keys = y.1.keys ∧ x.2 = y.2 := by
  obtain ⟨hall, hpair, -⟩ := (readAll_nil_eq_ok hread hlen).mp h
  have hcompat := hpair.forall_of_forall fun l _ => OracleLeg.Compatible.refl l
  rintro ⟨l, p⟩ hx ⟨l', p'⟩ hy hkey
  obtain ⟨hconfig, hkeys⟩ := hcompat (List.of_mem_zip hx).1 (List.of_mem_zip hy).1 hkey
  have hp := (List.forall₂_iff_zip.mp hall).2 hx
  have hp' := (List.forall₂_iff_zip.mp hall).2 hy
  rw [hread l l' hconfig hkeys, hp'] at hp
  exact ⟨hconfig, hkeys, (Except.ok.inj hp).symm⟩

/-- **The order does not matter**: legs read in another order are read as well, each at the
same price. -/
theorem readAll_perm (hread : ReadsByKey readLeg) (hlen : legs.length ≤ 3)
    (hperm : legs.Perm legs') (h : readAll readLeg [] legs = .ok (prices, session)) :
    ∃ prices' session', readAll readLeg [] legs' = .ok (prices', session') ∧
      (legs.zip prices).Perm (legs'.zip prices') := by
  obtain ⟨hall, hpair, -⟩ := (readAll_nil_eq_ok hread hlen).mp h
  obtain ⟨rfl, hread'⟩ := forall₂_read_iff.mp hall
  have hall' : List.Forall₂ (fun l p => readLeg l = .ok p) legs' (legs'.map (priceOf readLeg)) :=
    forall₂_read_iff.mpr ⟨rfl, fun l hl => hread' l (hperm.mem_iff.mpr hl)⟩
  have hpair' := (hperm.pairwise_iff OracleLeg.Compatible.symm).mp hpair
  refine ⟨_, _, (readAll_nil_eq_ok hread (hperm.length_eq ▸ hlen)).mpr ⟨hall', hpair', rfl⟩, ?_⟩
  rw [← List.map_prod_left_eq_zip, ← List.map_prod_left_eq_zip]
  exact hperm.map _

theorem exists_readAll_iff_of_perm (hread : ReadsByKey readLeg) (hlen : legs.length ≤ 3)
    (hperm : legs.Perm legs') :
    (∃ r, readAll readLeg [] legs = .ok r) ↔ ∃ r, readAll readLeg [] legs' = .ok r := by
  constructor
  · rintro ⟨⟨prices, session⟩, h⟩
    obtain ⟨prices', session', h', -⟩ := readAll_perm hread hlen hperm h
    exact ⟨_, h'⟩
  · rintro ⟨⟨prices, session⟩, h⟩
    obtain ⟨prices', session', h', -⟩ :=
      readAll_perm hread (hperm.length_eq ▸ hlen) hperm.symm h
    exact ⟨_, h'⟩

/-- A session holds one leg for each read. -/
theorem readAll_length (hread : ReadsByKey readLeg) (hlen : legs.length ≤ 3)
    (h : readAll readLeg [] legs = .ok (prices, session)) : session.length = legs.length := by
  obtain ⟨hall, -, rfl⟩ := (readAll_nil_eq_ok hread hlen).mp h
  rw [List.length_zipWith, ← hall.length_eq, Nat.min_self]

end Reads

end OracleReadSession

end Roshi

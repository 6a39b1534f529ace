import Roshi.Refinement

/-!
# Every record at its own address

The loaders compare an account's address with the one derived from what is stored there, and
check the stored record again.  No run of the program stores a record that would fail: the vault,
its tickets, actions, assets and destinations are where their contents say, belong to the vault,
and pass their own checks (`records_addressed`).  What makes the vault's address never changes.
-/

namespace Roshi

open Lib

/-! ### What never changes -/

/-- What a vault was created with for good. -/
structure VaultIdentity where
  tag : Bytes 32
  tagLen : U8
  baseMint : Pubkey
  shareMint : Pubkey
  baseDecimals : U8
  bump : U8
  deriving DecidableEq

def Vault.identity (v : Vault) : VaultIdentity :=
  ⟨v.tag, v.tagLen, v.baseMint, v.shareMint, v.baseDecimals, v.bump⟩

variable {rt : Runtime} {w w' : World} {r r' : Registrations} {accounts : List AccountInfo}

theorem Written.identity_eq {v : Vault} {t : Table Pubkey WithdrawalTicket}
    (h : Written rt w accounts v t) : v.identity = w.vault.identity := by
  rcases h.view Vault.identity (fun _ => rfl) with h | ⟨hv, -⟩ | ⟨hv, -⟩ | ⟨hv, -⟩ | ⟨hv, -⟩
  · exact h
  all_goals exact (congrArg Vault.identity hv).trans rfl

theorem Vault.verifyAddress_congr {v v' : Vault} (h : v'.identity = v.identity) (key : Pubkey) :
    v'.verifyAddress rt key = v.verifyAddress rt key := by
  obtain ⟨htag, hlen, hmint, -, -, hbump⟩ := VaultIdentity.mk.inj h
  rw [Vault.verifyAddress, Vault.verifyAddress, Vault.tagSeed, Vault.tagSeed, htag, hlen, hmint,
    hbump]

/-! ### The invariant -/

/-- The action at `key`: where its hash says, with ops that decode, and some of them when anyone
may run it. -/
structure Action.At (rt : Runtime) (a : Action) (vaultKey key : Pubkey) : Prop where
  address : a.verifyForVault rt vaultKey key = .ok ()
  ops : validateOps a.ops = .ok ()
  relay : verifyRelayOps a.scope a.ops = .ok ()

/-- The asset at `key`: where its mint says, loadable, and not the base mint. -/
structure Asset.At (rt : Runtime) (a : Asset) (vaultKey baseMint key : Pubkey) : Prop where
  vault : a.vault = vaultKey
  address : assetAddress rt vaultKey a.assetMint = (key, a.bump)
  not_base : a.assetMint ≠ baseMint
  valid : a.validateState = .ok ()

/-- The destination at `key`: where its token account says. -/
structure ExternalDestination.At (rt : Runtime) (d : ExternalDestination) (vaultKey key : Pubkey) :
    Prop where
  vault : d.vault = vaultKey
  address : externalDestinationAddress rt vaultKey d.tokenAccount = (key, d.bump)

/-- Every record is where its contents say, and passes its checks. -/
structure Addressed (rt : Runtime) (w : World) (r : Registrations) : Prop where
  vault : w.vault.verifyAddress rt w.vaultKey = .ok ()
  ticket : ∀ key t, w.tickets.lookup key = some t → t.At rt w.vaultKey key
  action : ∀ key a, w.actions key = some a → a.At rt w.vaultKey key
  asset : ∀ key a, w.assets key = some a → a.At rt w.vaultKey w.vault.baseMint key
  destination : ∀ key d, r key = some d → d.At rt w.vaultKey key

/-! ### One lemma per kind of write -/

theorem Addressed.writes (hb : Addressed rt w r) (h : Writes rt w w' accounts) :
    Addressed rt w' r := by
  have hid := h.written.identity_eq
  have hbase : w'.vault.baseMint = w.vault.baseMint := congrArg VaultIdentity.baseMint hid
  constructor
  · rw [h.vaultKey_eq, Vault.verifyAddress_congr hid]
    exact hb.vault
  · rw [h.vaultKey_eq]
    intro key t ht
    have hw := h.written
    generalize w'.vault = v' at hw
    generalize w'.tickets = tickets at hw ht
    cases hw with
    | opened _ _ at_ =>
      rcases Table.lookup_of_insert ht with ⟨rfl, rfl⟩ | ⟨-, ht⟩
      · exact at_
      · exact hb.ticket key t ht
    | cancelled => exact hb.ticket key t (Table.lookup_of_erase ht).2
    | processed => exact hb.ticket key t (Table.lookup_of_eraseAll ht).2
    | _ => exact hb.ticket key t ht
  · rw [h.vaultKey_eq, h.actions_eq]
    exact hb.action
  · rw [h.vaultKey_eq, h.assets_eq, hbase]
    exact hb.asset
  · rw [h.vaultKey_eq]
    exact hb.destination

/-- A row of a table with `key` rewritten. -/
theorem eq_some_of_ite {α : Type} {f : Pubkey → Option α} {key k : Pubkey} {x : Option α} {a : α}
    (h : (if k = key then x else f k) = some a) : k = key ∧ x = some a ∨ f k = some a := by
  split at h
  · exact .inl ⟨‹_›, h⟩
  · exact .inr h

theorem Addressed.tabled (hb : Addressed rt w r) (h : Tabled rt w accounts w') :
    Addressed rt w' r := by
  have hactions : ∀ key x, (∀ a, x = some a → a.At rt w.vaultKey key) →
      Addressed rt (w.setAction key x) r := by
    intro key x hx
    refine ⟨hb.vault, hb.ticket, ?_, hb.asset, hb.destination⟩
    intro k a ha
    rcases eq_some_of_ite ha with ⟨rfl, hnew⟩ | hold
    · exact hx a hnew
    · exact hb.action k a hold
  have hassets : ∀ key x, x.At rt w.vaultKey w.vault.baseMint key →
      Addressed rt (w.setAsset key x) r := by
    intro key x hx
    refine ⟨hb.vault, hb.ticket, hb.action, ?_, hb.destination⟩
    intro k a ha
    rcases eq_some_of_ite ha with ⟨rfl, hnew⟩ | hold
    · exact Option.some.inj hnew ▸ hx
    · exact hb.asset k a hold
  cases h with
  | @authorized key a h =>
    refine hactions key _ ?_
    rintro _ ⟨⟩
    refine ⟨?_, h.ops, h.relay⟩
    simp [Action.verifyForVault, h.vault, h.address]
  | @revoked key =>
    refine hactions key none ?_
    rintro _ ⟨⟩
  | @rated key a role feeNum feeDen live =>
    refine hactions key _ ?_
    rintro _ ⟨⟩
    -- the rate is not part of the address, nor of what is checked
    exact ⟨(hb.action key a live).address, (hb.action key a live).ops, (hb.action key a live).relay⟩
  | listed h => exact hassets _ _ ⟨h.vault, h.assetMint ▸ h.address, h.assetMint ▸ h.not_base, h.valid⟩
  | @updated key a args live _ valid =>
    have ha := hb.asset key a live
    exact hassets _ _ ⟨ha.vault, ha.address, ha.not_base, valid⟩

theorem Addressed.redirected (hb : Addressed rt w r) (h : Redirected rt w r accounts r') :
    Addressed rt w r' := by
  refine ⟨hb.vault, hb.ticket, hb.action, hb.asset, ?_⟩
  intro k d hd
  cases h with
  | registered h =>
    rcases eq_some_of_ite hd with ⟨rfl, hnew⟩ | hold
    · exact Option.some.inj hnew ▸ ⟨h.vault, h.address⟩
    · exact hb.destination k d hold
  | revoked =>
    rcases eq_some_of_ite hd with ⟨-, hnew⟩ | hold
    · cases hnew
    · exact hb.destination k d hold

/-- Nothing is asked of the flags of `World.destinations`. -/
theorem Addressed.of (hb : Addressed rt w r) : Addressed rt (Live.of w r).world r :=
  ⟨hb.vault, hb.ticket, hb.action, hb.asset, hb.destination⟩

theorem Addressed.change {l l' : Live} (hb : Addressed rt l.world l.registrations)
    (h : Change rt accounts l l') : Addressed rt l'.world l'.registrations := by
  cases h with
  | books h => exact (hb.writes h).of
  | tables h => exact (hb.tabled h).of
  | destinations h => exact (hb.redirected h).of
  | beside => exact ⟨hb.vault, hb.ticket, hb.action, hb.asset, hb.destination⟩

/-! ### A new vault -/

/-- A packed tag unpacks to itself. -/
theorem unpackTag_packTag {tag : List U8} {p : Bytes 32} {n : U8}
    (h : Vault.packTag tag = .ok (p, n)) : Vault.unpackTag p n = .ok tag := by
  have hmax : Vault.MAX_TAG_LEN = 32 := rfl
  simp only [Vault.packTag, Vault.validateTag, bind_eq_ok, rejectIf_eq_ok, Except.ok.injEq,
    Prod.mk.injEq, not_or, Nat.not_lt] at h
  obtain ⟨_, ⟨hpos, hlen⟩, rfl, rfl⟩ := h
  have hn : (BitVec.ofNat 8 tag.length).toNat = tag.length := by
    rw [BitVec.toNat_ofNat, Nat.mod_eq_of_lt (by omega)]
  have htake : (Vector.ofFn fun i : Fin 32 => tag.getD i.val 0).toList.take tag.length = tag := by
    refine List.ext_getElem (by simp; omega) ?_
    intro i hi hi'
    simp [hi']
  simp only [Vault.unpackTag, Vault.validateTag, bind_eq_ok, rejectIf_eq_ok, hn, htake,
    not_or, Nat.not_lt]
  exact ⟨(), hlen, (), ⟨hpos, hlen⟩, trivial⟩

theorem tryInitializeVault_addressed {g : Genesis} {args : InitializeVaultArgs}
    (h : tryInitializeVault rt g accounts args = .ok w) : Addressed rt w fun _ => none := by
  simp only [tryInitializeVault, InitializeVaultContext.load, bind_eq_ok, Prod.exists,
    Except.ok.injEq, rejectIf_eq_ok, not_not] at h
  obtain ⟨c, ⟨_, _, -, _, _, -, _, _, -, _, -, vault, _, -, _, -, _, _, -, _, _, -, _, -, _, -, _, _, -,
    _, _, -, _, -, _, _, -, _, -, _, -, tag, htag, key, bump, hfind, _, hkey, _, -, rfl⟩, tag', htag', v,
    hv, _, -, _, -, _, -, _, -, rfl⟩ := h
  obtain rfl : tag = tag' := Except.ok.inj (htag.symm.trans htag')
  simp only [Vault.new, bind_eq_ok, Prod.exists, Except.ok.injEq] at hv
  obtain ⟨_, -, _, -, _, -, p, n, hpack, rfl⟩ := hv
  refine ⟨?_, ?_, ?_, ?_, ?_⟩
  · simp only [Vault.verifyAddress, Vault.tagSeed, unpackTag_packTag hpack, ok_bind, hfind, hkey]
    simp
  · intro key t ht
    simp at ht
  · intro key a ha
    cases ha
  · intro key a ha
    cases ha
  · intro key d hd
    cases hd

theorem addressed_of_run {g : Ground} {tr : ProgramTrace} {d : Deployment} {l : Live}
    (h : Run (ProgramStep rt) (.genesis g) tr d) (hl : d.stage = .live l) :
    Addressed rt l.world l.registrations :=
  live_invariant h hl (P := fun l => Addressed rt l.world l.registrations)
    (fun _ _ _ _ hw => (tryInitializeVault_addressed hw).of)
    fun _ _ _ _ hm hb => hb.change hm.change

/-- The loader of the vault takes the account at its address. -/
theorem loadChecked_of_addressed (hwf : w.vault.WellFormed)
    (hv : w.vault.verifyAddress rt w.vaultKey = .ok ()) {a : AccountInfo} (ha : a.key = w.vaultKey) :
    w.loadChecked rt a = .ok w.vault := by
  have hvalid : w.vault.validateState = .ok () := Vault.validateState_eq_ok.mpr hwf
  rw [World.loadChecked, rejectIf_of_not (not_not.mpr ha), ok_bind, ha, hv, hvalid]
  rfl

theorem loadChecked_of_run {g : Ground} {tr : ProgramTrace} {d : Deployment} {l : Live}
    (h : Run (ProgramStep rt) (.genesis g) tr d) (hl : d.stage = .live l) {a : AccountInfo}
    (ha : a.key = l.world.vaultKey) : l.world.loadChecked rt a = .ok l.world.vault :=
  loadChecked_of_addressed (program_standing h ⟨l, hl, rfl⟩).wellFormed
    (addressed_of_run h hl).vault ha

/-- **Records are where they say.**  In every run of the program, every record of a vault that is
there is at the address derived from its contents, belongs to the vault and passes its own checks;
and the vault itself always loads. -/
theorem records_addressed {g : Ground} {tr : ProgramTrace} {d : Deployment} {l : Live}
    (h : Run (ProgramStep rt) (.genesis g) tr d) (hl : d.stage = .live l) :
    Addressed rt l.world l.registrations ∧
      ∀ a : AccountInfo, a.key = l.world.vaultKey →
        l.world.loadChecked rt a = .ok l.world.vault :=
  ⟨addressed_of_run h hl, fun _ ha => loadChecked_of_run h hl ha⟩

theorem records_addressed_deployed : Addressed Sample.routeRuntime Sample.deployedLive.world
    Sample.deployedLive.registrations := by
  obtain ⟨tr, hrun, -⟩ := Sample.deployed_run
  exact (records_addressed hrun Sample.deployed_live).1

end Roshi

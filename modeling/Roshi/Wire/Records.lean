import Roshi.System
import Roshi.Wire.Account

/-!
# The tables and the bytes

A `World` keeps the program's records in tables; the chain keeps them as bytes in accounts.
`World.Shows` says that the tables are what the accounts hold.  Then what the tables' loaders
return is what loading the bytes returns (`shows_load`), and whatever is written, created and closed
on the chain, the tables updated the same way follow (`shows_run`): the instructions may be read
over tables.
-/

namespace Roshi

open Lib Account

variable (wc : Wincode)

/-- The record in the program's account at `key`. -/
def Chain.Holds (chain : Chain) (key : Pubkey) (account : Account) : Prop :=
  (chain key).owner = ID ∧ deserialize wc (chain key).data = some account

/-- The tables of `w` are the records of the chain. -/
structure World.Shows (w : World) (chain : Chain) : Prop where
  vault : ∃ padding, Chain.Holds wc chain w.vaultKey (.vault w.vault padding)
  action : ∀ key a, w.actions key = some a ↔ Chain.Holds wc chain key (.action a)
  ticket : ∀ key t, w.tickets.lookup key = some t ↔
    ∃ padding, Chain.Holds wc chain key (.withdrawalTicket t padding)
  asset : ∀ key a, w.assets key = some a ↔ ∃ padding, Chain.Holds wc chain key (.asset a padding)
  destination : ∀ key, w.destinations key = true ↔
    ∃ d, Chain.Holds wc chain key (.externalDestination d)

variable {wc} {w : World} {chain chain' : Chain} {key k : Pubkey} {rt : Runtime}

/-- An account holds one record. -/
theorem Chain.Holds.eq {a b : Account} (h : Chain.Holds wc chain key a)
    (h' : Chain.Holds wc chain key b) : a = b :=
  Option.some.inj (h.2.symm.trans h'.2)

/-! ### Loading -/

theorem loadAs_eq_ok_holds {α : Type} {d : Account.Data α} {x : α} :
    loadAs wc d (chain key) = .ok x ↔ ∃ account, Chain.Holds wc chain key account ∧
      d.fromAccount account = some x ∧ d.validate x = .ok () := by
  rw [loadAs_eq_ok]
  constructor
  · rintro ⟨howner, account, hread, hx⟩
    exact ⟨account, ⟨howner, hread⟩, hx⟩
  · rintro ⟨account, ⟨howner, hread⟩, hx⟩
    exact ⟨howner, account, hread, hx⟩

/-- `vault::load_checked`, on the account's bytes. -/
def loadCheckedBytes (wc : Wincode) (rt : Runtime) (chain : Chain) (a : AccountInfo) :
    ProgramResult Vault := do
  let v ← loadAs wc .vault (chain a.key)
  v.verifyAddress rt a.key
  .ok v

/-- Given the account `a`, either level loads the same.  At the vault's own address for the vault,
since other vaults are not of this world. -/
structure World.LoadsAlike (wc : Wincode) (rt : Runtime) (w : World) (chain : Chain)
    (a : AccountInfo) : Prop where
  vault : a.key = w.vaultKey → ∀ v, w.loadChecked rt a = .ok v ↔
    loadCheckedBytes wc rt chain a = .ok v
  action : ∀ x, w.loadAction a = .ok x ↔ loadAs wc .action (chain a.key) = .ok x
  ticket : ∀ t, w.loadTicket a = .ok t ↔ loadAs wc .withdrawalTicket (chain a.key) = .ok t
  asset : ∀ x, w.loadAsset a = .ok x ↔ loadAs wc .asset (chain a.key) = .ok x
  destination : w.destinations a.key = true ↔
    ∃ d, loadAs wc .externalDestination (chain a.key) = .ok d

/-- **The loaders agree**, whatever account they are given. -/
theorem shows_load (h : w.Shows wc chain) (a : AccountInfo) : w.LoadsAlike wc rt chain a := by
  refine ⟨?_, ?_, ?_, ?_, ?_⟩
  · rintro hkey v
    obtain ⟨padding, hvault⟩ := h.vault
    simp only [World.loadChecked, loadCheckedBytes, bind_eq_ok, rejectIf_eq_ok, hkey,
      loadAs_eq_ok_holds, not_not, true_and, exists_const, Except.ok.injEq]
    constructor
    · rintro ⟨_, hvalid, _, haddress, rfl⟩
      exact ⟨w.vault, ⟨_, hvault, rfl, hvalid⟩, (), haddress, rfl⟩
    · rintro ⟨u, ⟨account, hholds, hfrom, hvalid⟩, _, haddress, rfl⟩
      obtain rfl := hvault.eq hholds
      cases hfrom
      exact ⟨(), hvalid, (), haddress, rfl⟩
  · intro x
    rw [loadAction_eq_ok, h.action, loadAs_eq_ok_holds]
    constructor
    · intro hx
      exact ⟨_, hx, rfl, rfl⟩
    · rintro ⟨account, hholds, hfrom, -⟩
      cases account with
      | action b =>
        cases hfrom
        exact hholds
      | _ => cases hfrom
  · intro t
    rw [World.loadTicket, okOr_eq_ok, h.ticket, loadAs_eq_ok_holds]
    constructor
    · rintro ⟨padding, ht⟩
      exact ⟨_, ht, rfl, rfl⟩
    · rintro ⟨account, hholds, hfrom, -⟩
      cases account with
      | withdrawalTicket b padding =>
        cases hfrom
        exact ⟨padding, hholds⟩
      | _ => cases hfrom
  · intro x
    rw [loadAsset_eq_ok, h.asset, loadAs_eq_ok_holds]
    constructor
    · rintro ⟨⟨padding, hx⟩, hvalid⟩
      exact ⟨_, hx, rfl, hvalid⟩
    · rintro ⟨account, hholds, hfrom, hvalid⟩
      cases account with
      | asset b padding =>
        cases hfrom
        exact ⟨⟨padding, hholds⟩, hvalid⟩
      | _ => cases hfrom
  · simp only [h.destination, loadAs_eq_ok_holds]
    constructor
    · rintro ⟨d, hd⟩
      exact ⟨d, _, hd, rfl, rfl⟩
    · rintro ⟨d, account, hholds, hfrom, -⟩
      cases account with
      | externalDestination b => exact ⟨b, hholds⟩
      | _ => cases hfrom

/-! ### Writing -/

/-- A record put at an address, over what was there or where nothing was, or taken away. -/
inductive RecordEvent where
  | put (key : Pubkey) (a : Account)
  | remove (key : Pubkey) (a : Account)

namespace RecordEvent

def address : RecordEvent → Pubkey
  | put key _ => key
  | remove key _ => key

def account : RecordEvent → Account
  | put _ a => a
  | remove _ a => a

/-- What is at the address afterwards. -/
def left : RecordEvent → Option Account
  | put _ a => some a
  | remove _ _ => none

end RecordEvent

def Chain.set (chain : Chain) (key : Pubkey) (raw : RawAccount) : Chain :=
  fun k => if k = key then raw else chain k

/-- The accounts that are ever closed: actions, tickets and destinations. -/
def Account.Closable : Account → Prop
  | .action _ | .withdrawalTicket _ _ | .externalDestination _ => True
  | _ => False

/-- **How the program writes its accounts**: a record is stored over one of its type that was
loaded, or into an account just created, `n` zeros long; a closed account was loaded too. -/
inductive Chain.Writes (wc : Wincode) (chain : Chain) : RecordEvent → Chain → Prop
  | store {key : Pubkey} {a b : Account} {data : List U8} (hload : load wc (chain key) = .ok b)
      (htype : b.tag = a.tag) (hdata : storeInto wc a (chain key).data = .ok data) :
      Chain.Writes wc chain (.put key a) (chain.set key { chain key with data })
  | create {key : Pubkey} {a : Account} {n : Nat} {data : List U8}
      (hnew : (chain key).owner = SYSTEM_PROGRAM_ID) (hempty : (chain key).data = [])
      (hdata : storeInto wc a (List.replicate n 0) = .ok data) :
      Chain.Writes wc chain (.put key a) (chain.set key ⟨ID, false, data⟩)
  | close {key : Pubkey} {a : Account} (hload : load wc (chain key) = .ok a) (hclose : a.Closable) :
      Chain.Writes wc chain (.remove key a)
        (chain.set key ⟨SYSTEM_PROGRAM_ID, (chain key).executable, []⟩)

/-- The registered destinations with that at `key` set to `b`. -/
def World.setDestination (w : World) (key : Pubkey) (b : Bool) : World :=
  { w with destinations := fun k => if k = key then b else w.destinations k }

/-- The tables after a write.  Other vaults and the program config are not in them. -/
def World.record (w : World) : RecordEvent → World
  | .put key (.vault v _) => if key = w.vaultKey then { w with vault := v } else w
  | .put key (.action a) => w.setAction key (some a)
  | .put key (.withdrawalTicket t _) => { w with tickets := w.tickets.insert key t }
  | .put key (.asset a _) => w.setAsset key a
  | .put key (.externalDestination _) => w.setDestination key true
  | .remove key (.action _) => w.setAction key none
  | .remove key (.withdrawalTicket _ _) => { w with tickets := w.tickets.erase key }
  | .remove key (.externalDestination _) => w.setDestination key false
  | _ => w

/-- Between two chains one account of the program changed: it held nothing or a record tagged
`tag`, and holds `account`, if that is one. -/
structure Chain.Wrote (wc : Wincode) (key : Pubkey) (tag : U8) (account : Option Account)
    (chain chain' : Chain) : Prop where
  elsewhere : ∀ k, k ≠ key → chain' k = chain k
  before : ∀ a, Chain.Holds wc chain key a → a.tag = tag
  after : ∀ a, Chain.Holds wc chain' key a ↔ account = some a
  tag_eq : ∀ a, account = some a → a.tag = tag

theorem load_eq_ok_holds {a : Account} :
    load wc (chain key) = .ok a ↔ Chain.Holds wc chain key a := by
  simp only [load, bind_eq_ok, rejectIf_eq_ok, okOr_eq_ok, exists_const, not_not, Chain.Holds]

theorem Chain.holds_set {raw : RawAccount} {a : Account} :
    Chain.Holds wc (chain.set key raw) key a ↔
      raw.owner = ID ∧ deserialize wc raw.data = some a := by
  rw [Chain.Holds, Chain.set, if_pos rfl]

namespace Chain.Wrote

variable {tag : U8} {account : Option Account}

theorem holds_of_ne (h : Chain.Wrote wc key tag account chain chain') (hk : k ≠ key)
    (a : Account) : Chain.Holds wc chain' k a ↔ Chain.Holds wc chain k a := by
  rw [Chain.Holds, Chain.Holds, h.elsewhere k hk]

/-- A record of another kind is neither written nor written over. -/
theorem holds_other (h : Chain.Wrote wc key tag account chain chain') {a : Account} {t : U8}
    (ht : a.tag = t) (ha : t ≠ tag) : Chain.Holds wc chain' k a ↔ Chain.Holds wc chain k a := by
  by_cases hk : k = key
  · subst hk
    constructor
    · intro hholds
      exact absurd (ht.symm.trans (h.tag_eq a ((h.after a).mp hholds))) ha
    · intro hholds
      exact absurd (ht.symm.trans (h.before a hholds)) ha
  · exact h.holds_of_ne hk a

/-! What a write leaves of each table it is not about. -/

section Others

variable (h : w.Shows wc chain) (hw : Chain.Wrote wc key tag account chain chain')
include h hw

theorem vault_kept (htag : 1 ≠ tag) :
    ∃ padding, Chain.Holds wc chain' w.vaultKey (.vault w.vault padding) :=
  h.vault.imp fun _ hv => (hw.holds_other (t := 1) rfl htag).mpr hv

theorem action_kept (htag : 2 ≠ tag) (k : Pubkey) (a : Action) :
    w.actions k = some a ↔ Chain.Holds wc chain' k (.action a) :=
  (h.action k a).trans (hw.holds_other (t := 2) rfl htag).symm

theorem ticket_kept (htag : 3 ≠ tag) (k : Pubkey) (t : WithdrawalTicket) :
    w.tickets.lookup k = some t ↔ ∃ padding, Chain.Holds wc chain' k (.withdrawalTicket t padding) :=
  (h.ticket k t).trans (exists_congr fun _ => (hw.holds_other (t := 3) rfl htag).symm)

theorem asset_kept (htag : 4 ≠ tag) (k : Pubkey) (a : Asset) :
    w.assets k = some a ↔ ∃ padding, Chain.Holds wc chain' k (.asset a padding) :=
  (h.asset k a).trans (exists_congr fun _ => (hw.holds_other (t := 4) rfl htag).symm)

theorem destination_kept (htag : 5 ≠ tag) (k : Pubkey) :
    w.destinations k = true ↔ ∃ d, Chain.Holds wc chain' k (.externalDestination d) :=
  (h.destination k).trans (exists_congr fun _ => (hw.holds_other (t := 5) rfl htag).symm)

end Others

/-- Away from the key nothing of a kind moves. -/
theorem exists_holds_of_ne {β : Type} {f : β → Account}
    (hw : Chain.Wrote wc key tag account chain chain') (hk : k ≠ key) :
    (∃ p, Chain.Holds wc chain' k (f p)) ↔ ∃ p, Chain.Holds wc chain k (f p) :=
  exists_congr fun _ => hw.holds_of_ne hk _

end Chain.Wrote

theorem Chain.Writes.wrote {e : RecordEvent} (h : Chain.Writes wc chain e chain') :
    Chain.Wrote wc e.address e.account.tag e.left chain chain' := by
  cases h with
  | @store key a b data hload htype hdata =>
    obtain ⟨w, hw, -, rfl⟩ := storeInto_eq_ok.mp hdata
    have hb := load_eq_ok_holds.mp hload
    have hread : deserialize wc (w ++ (chain key).data.drop w.length) = some a :=
      deserialize_eq_some.mpr ⟨w, _, hw, rfl⟩
    refine ⟨fun k hk => if_neg hk, fun c hc => hc.eq hb ▸ htype, ?_, ?_⟩
    · intro c
      rw [RecordEvent.address, Chain.holds_set]
      exact ⟨fun hc => hread.symm.trans hc.2, fun hc => ⟨hb.1, hread.trans hc⟩⟩
    · rintro c ⟨⟩
      rfl
  | @create key a n data hnew _ hdata =>
    obtain ⟨w, hw, -, rfl⟩ := storeInto_eq_ok.mp hdata
    have hread : deserialize wc (w ++ (List.replicate n 0).drop w.length) = some a :=
      deserialize_eq_some.mpr ⟨w, _, hw, rfl⟩
    -- nothing of the program was there
    have hvacant : (chain key).owner ≠ ID := by
      rw [hnew]
      decide
    refine ⟨fun k hk => if_neg hk, fun c hc => absurd hc.1 hvacant, ?_, ?_⟩
    · intro c
      rw [RecordEvent.address, Chain.holds_set]
      exact ⟨fun hc => hread.symm.trans hc.2, fun hc => ⟨rfl, hread.trans hc⟩⟩
    · rintro c ⟨⟩
      rfl
  | @close key a hload _ =>
    have ha := load_eq_ok_holds.mp hload
    refine ⟨fun k hk => if_neg hk, fun c hc => by rw [hc.eq ha]; rfl, ?_, ?_⟩
    · intro c
      rw [RecordEvent.address, Chain.holds_set]
      constructor
      · rintro ⟨-, hread⟩
        cases hread
      · intro hc
        cases hc
    · intro c hc
      cases hc

/-! One lemma per table. -/

namespace World.Shows

variable {tag : U8} {account : Option Account}

/-- Nothing in the tables is of this kind. -/
theorem other (h : w.Shows wc chain) (hw : Chain.Wrote wc key tag account chain chain')
    (htag : tag = 6) : w.Shows wc chain' := by
  subst htag
  exact
    { vault := hw.vault_kept (w := w) h (by decide)
      action := hw.action_kept (w := w) h (by decide)
      ticket := hw.ticket_kept (w := w) h (by decide)
      asset := hw.asset_kept (w := w) h (by decide)
      destination := hw.destination_kept (w := w) h (by decide) }

theorem vaultStored (h : w.Shows wc chain) {v : Vault} {padding : VaultPadding}
    (hw : Chain.Wrote wc key 1 (some (.vault v padding)) chain chain') :
    World.Shows wc (w.record (.put key (.vault v padding))) chain' := by
  have haction := hw.action_kept (w := w) h (by decide)
  have hticket := hw.ticket_kept (w := w) h (by decide)
  have hasset := hw.asset_kept (w := w) h (by decide)
  have hdestination := hw.destination_kept (w := w) h (by decide)
  rw [World.record]
  by_cases hkey : key = w.vaultKey
  · subst hkey
    rw [if_pos rfl]
    exact ⟨⟨padding, (hw.after _).mpr rfl⟩, haction, hticket, hasset, hdestination⟩
  · rw [if_neg hkey]
    obtain ⟨p, hvault⟩ := h.vault
    exact ⟨⟨p, (hw.holds_of_ne (Ne.symm hkey) _).mpr hvault⟩, haction, hticket, hasset, hdestination⟩

theorem actionSet (h : w.Shows wc chain) {x : Option Action}
    (hw : Chain.Wrote wc key 2 (x.map .action) chain chain') :
    (w.setAction key x).Shows wc chain' := by
  refine ⟨hw.vault_kept (w := w) h (by decide), ?_, hw.ticket_kept (w := w) h (by decide),
    hw.asset_kept (w := w) h (by decide), hw.destination_kept (w := w) h (by decide)⟩
  intro k a
  rw [setAction_actions]
  by_cases hk : k = key
  · subst hk
    rw [if_pos rfl, hw.after, Option.map_eq_some_iff]
    constructor
    · intro ha
      exact ⟨a, ha, rfl⟩
    · rintro ⟨b, hb, heq⟩
      rw [hb, Account.action.inj heq]
  · rw [if_neg hk, hw.holds_of_ne hk, h.action]

theorem ticketInserted (h : w.Shows wc chain) {t : WithdrawalTicket} {padding : Bytes 6}
    (hw : Chain.Wrote wc key 3 (some (.withdrawalTicket t padding)) chain chain') :
    World.Shows wc { w with tickets := w.tickets.insert key t } chain' := by
  refine ⟨hw.vault_kept (w := w) h (by decide), hw.action_kept (w := w) h (by decide), ?_,
    hw.asset_kept (w := w) h (by decide), hw.destination_kept (w := w) h (by decide)⟩
  intro k u
  show (w.tickets.insert key t).lookup k = some u ↔ _
  by_cases hk : k = key
  · subst hk
    simp only [AList.lookup_insert, hw.after, Option.some.injEq, Account.withdrawalTicket.injEq]
    constructor
    · intro hu
      exact ⟨padding, hu, rfl⟩
    · rintro ⟨_, hu, -⟩
      exact hu
  · rw [AList.lookup_insert_ne hk, hw.exists_holds_of_ne hk, h.ticket]

theorem ticketErased (h : w.Shows wc chain) (hw : Chain.Wrote wc key 3 none chain chain') :
    World.Shows wc { w with tickets := w.tickets.erase key } chain' := by
  refine ⟨hw.vault_kept (w := w) h (by decide), hw.action_kept (w := w) h (by decide), ?_,
    hw.asset_kept (w := w) h (by decide), hw.destination_kept (w := w) h (by decide)⟩
  intro k u
  show (w.tickets.erase key).lookup k = some u ↔ _
  by_cases hk : k = key
  · subst hk
    simp only [AList.lookup_erase, hw.after, reduceCtorEq, exists_false]
  · rw [AList.lookup_erase_ne hk, hw.exists_holds_of_ne hk, h.ticket]

theorem assetSet (h : w.Shows wc chain) {a : Asset} {padding : AssetPadding}
    (hw : Chain.Wrote wc key 4 (some (.asset a padding)) chain chain') :
    (w.setAsset key a).Shows wc chain' := by
  refine ⟨hw.vault_kept (w := w) h (by decide), hw.action_kept (w := w) h (by decide),
    hw.ticket_kept (w := w) h (by decide), ?_, hw.destination_kept (w := w) h (by decide)⟩
  intro k b
  rw [setAsset_assets]
  by_cases hk : k = key
  · subst hk
    simp only [if_pos, hw.after, Option.some.injEq, Account.asset.injEq]
    constructor
    · intro hb
      exact ⟨padding, hb, rfl⟩
    · rintro ⟨_, hb, -⟩
      exact hb
  · rw [if_neg hk, hw.exists_holds_of_ne hk, h.asset]

theorem destinationSet (h : w.Shows wc chain) {x : Option ExternalDestination}
    (hw : Chain.Wrote wc key 5 (x.map .externalDestination) chain chain') :
    (w.setDestination key x.isSome).Shows wc chain' := by
  refine ⟨hw.vault_kept (w := w) h (by decide), hw.action_kept (w := w) h (by decide),
    hw.ticket_kept (w := w) h (by decide), hw.asset_kept (w := w) h (by decide), ?_⟩
  intro k
  show (if k = key then x.isSome else w.destinations k) = true ↔ _
  by_cases hk : k = key
  · subst hk
    simp only [if_pos, hw.after, Option.map_eq_some_iff, Option.isSome_iff_exists]
    constructor
    · rintro ⟨d, hd⟩
      exact ⟨d, d, hd, rfl⟩
    · rintro ⟨_, d, hd, -⟩
      exact ⟨d, hd⟩
  · rw [if_neg hk, hw.exists_holds_of_ne hk, h.destination]

/-- **A write of the chain is an update of its table.** -/
theorem step {e : RecordEvent} (h : w.Shows wc chain) (hw : Chain.Writes wc chain e chain') :
    (w.record e).Shows wc chain' := by
  have hwrote := hw.wrote
  have hput : ∀ k a, Chain.Wrote wc k a.tag (some a) chain chain' →
      (w.record (.put k a)).Shows wc chain' := by
    intro k a hput
    cases a with
    | vault => exact h.vaultStored hput
    | action a => exact h.actionSet (x := some a) hput
    | withdrawalTicket => exact h.ticketInserted hput
    | asset => exact h.assetSet hput
    | externalDestination d => exact h.destinationSet (x := some d) hput
    | programConfig => exact h.other hput rfl
  cases hw with
  | store => exact hput _ _ hwrote
  | create => exact hput _ _ hwrote
  | @close key a _ hclose =>
    cases a with
    | action => exact h.actionSet (x := none) hwrote
    | withdrawalTicket => exact h.ticketErased hwrote
    | externalDestination => exact h.destinationSet (x := none) hwrote
    | _ => cases hclose

end World.Shows

/-- The tables after a trace of writes. -/
def World.recordAll (w : World) (tr : List (Transition Chain RecordEvent)) : World :=
  tr.foldl (fun w x => w.record x.event) w

/-- **The tables follow the bytes.**  Whatever the program wrote to its accounts, in any order, the
tables updated the same way are what the accounts hold, so what the loaders of either level return
is the same after every write of a run. -/
theorem shows_run {tr : List (Transition Chain RecordEvent)} (h : w.Shows wc chain)
    (hr : Run (Chain.Writes wc) chain tr chain') : (w.recordAll tr).Shows wc chain' := by
  induction hr generalizing w with
  | nil => exact h
  | cons hw _ ih => exact ih (h.step hw)

/-- **A vault just created is shown**, where no other record is stored but the program config. -/
theorem shows_initial {g : Genesis} {accounts : List AccountInfo} {args : InitializeVaultArgs}
    {padding : VaultPadding} (h : tryInitializeVault rt g accounts args = .ok w)
    (hnone : ∀ k a, Chain.Holds wc chain k a → a.tag = 6)
    (hw : Chain.Writes wc chain (.put w.vaultKey (.vault w.vault padding)) chain') :
    w.Shows wc chain' := by
  have hvault := (hw.wrote.after _).mpr rfl
  have hnot : ∀ {k : Pubkey} {a : Account} {t : U8}, a.tag = t → t ≠ 1 → t ≠ 6 →
      ¬ Chain.Holds wc chain' k a := by
    intro k a t ht h1 h6 ha
    by_cases hk : k = w.vaultKey
    · subst hk
      exact h1 (ht.symm.trans (hw.wrote.tag_eq a ((hw.wrote.after a).mp ha)))
    · exact h6 (ht.symm.trans (hnone k a ((hw.wrote.holds_of_ne hk a).mp ha)))
  simp only [tryInitializeVault, bind_eq_ok, Except.ok.injEq] at h
  obtain ⟨_, -, _, -, _, -, _, -, _, -, _, -, _, -, rfl⟩ := h
  constructor
  · exact ⟨padding, hvault⟩
  · intro k a
    refine iff_of_false ?_ (hnot (t := 2) rfl (by decide) (by decide))
    rintro ⟨⟩
  · intro k t
    refine iff_of_false (by simp) ?_
    rintro ⟨_, ht⟩
    exact hnot (t := 3) rfl (by decide) (by decide) ht
  · intro k a
    refine iff_of_false (by simp) ?_
    rintro ⟨_, ha⟩
    exact hnot (t := 4) rfl (by decide) (by decide) ha
  · intro k
    refine iff_of_false (by simp) ?_
    rintro ⟨_, hd⟩
    exact hnot (t := 5) rfl (by decide) (by decide) hd

/-! ### A vault and a ticket in bytes -/

namespace Sample

/-- Nobody's accounts. -/
def emptyChain : Chain := fun _ => ⟨SYSTEM_PROGRAM_ID, false, []⟩

def vaultRecord : Account :=
  .vault start.vault ⟨Bytes.zero 7, Bytes.zero 2, Bytes.zero 2⟩

def ticketRecord : Account :=
  .withdrawalTicket
    { vault := vaultKey, owner := user, recipientTokenAccount := userBase, sharesBurned := 5
      assetsOwed := 0, requestEpoch := 0, requestSlot := 9, ticketIndex := 0, bump := 255 }
    (Bytes.zero 6)

/-- The account of a record just created. -/
def created (a : Account) (n : Nat) (h : (storeInto wincode a (List.replicate n 0)).isOk = true) :
    RawAccount :=
  ⟨ID, false, okValue _ h⟩

def startChain : Chain :=
  emptyChain.set start.vaultKey (created vaultRecord 689 (by decide +kernel))

theorem start_shows : start.Shows wincode startChain := by
  obtain ⟨g, accounts, args, hstart⟩ := start_initial
  refine shows_initial hstart ?_ (.create rfl rfl (eq_okValue _))
  rintro k a ⟨howner, -⟩
  exact absurd (show SYSTEM_PROGRAM_ID = ID from howner) (by decide)

def queuedChain : Chain :=
  startChain.set ticket (created ticketRecord 137 (by decide +kernel))

def emptiedChain : Chain :=
  queuedChain.set ticket ⟨SYSTEM_PROGRAM_ID, (queuedChain ticket).executable, []⟩

def ticketTrace : List (Transition Chain RecordEvent) :=
  [⟨startChain, .put ticket ticketRecord, queuedChain⟩,
    ⟨queuedChain, .remove ticket ticketRecord, emptiedChain⟩]

theorem ticketTrace_run : Run (Chain.Writes wincode) startChain ticketTrace emptiedChain := by
  have hput : Chain.Writes wincode startChain (.put ticket ticketRecord) queuedChain :=
    .create (by decide +kernel) (by decide +kernel) (eq_okValue _)
  refine .cons hput (.cons (.close ?_ trivial) (.nil _))
  exact load_eq_ok_holds.mpr ((hput.wrote.after _).mpr rfl)

end Sample

theorem shows_run_emptied :
    (Sample.start.recordAll Sample.ticketTrace).Shows Sample.wincode Sample.emptiedChain :=
  shows_run Sample.start_shows Sample.ticketTrace_run

theorem shows_load_start : ∃ v, loadCheckedBytes Sample.wincode Sample.runtime Sample.startChain
    (Sample.writable Sample.start.vaultKey) = .ok v :=
  ⟨_, ((shows_load Sample.start_shows _).vault rfl _).mp (eq_okValue (by decide +kernel))⟩

end Roshi

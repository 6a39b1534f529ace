import Roshi.Refinement
import Roshi.Wire.Records

/-!
# What an instruction stores

`World.record` is what one write of an account does to the tables.  Whatever instruction succeeds,
its changes of the tables are such writes one after the other, each at an address where it may be:
a record is stored over one of its type or created where none is, and what is closed was there
(`instruction_stored`).  So the accounts the program writes that way hold the tables it leaves, and
the loaders of both levels agree again.
-/

namespace Roshi

open Lib Account

/-! ### Writes of the tables -/

namespace Account

end Account

namespace RecordEvent

end RecordEvent

/-- The tables have `a` at `key`.  Of a destination they have the address. -/
def World.Has (w : World) (key : Pubkey) : Account → Prop
  | .vault v _ => key = w.vaultKey ∧ v = w.vault
  | .action a => w.actions key = some a
  | .withdrawalTicket t _ => w.tickets.lookup key = some t
  | .asset a _ => w.assets key = some a
  | .externalDestination _ => w.destinations key = true
  | .programConfig _ => False

/-- The write may be made: nothing is at the address, or a record of the type, or, for a closing,
the record itself. -/
inductive RecordEvent.Apt (w : World) : RecordEvent → Prop
  | create {key : Pubkey} {a : Account} (fresh : w.Vacant key) : Apt w (.put key a)
  | store {key : Pubkey} {a b : Account} (live : w.Has key b) (htype : b.tag = a.tag) :
      Apt w (.put key a)
  | close {key : Pubkey} {a : Account} (live : w.Has key a) (hclose : a.Closable) :
      Apt w (.remove key a)

/-- Each write may be made in its turn. -/
def AllApt (w : World) : List RecordEvent → Prop
  | [] => True
  | e :: es => e.Apt w ∧ AllApt (w.record e) es

/-- The records are the same; tokens, prices and the clock may not be. -/
def World.SameRecords (w w' : World) : Prop :=
  w' = { w with ledger := w'.ledger, prices := w'.prices, clock := w'.clock }

/-- The writes `es` lead from the tables of `w` to those of `w'`. -/
structure Stored (w : World) (es : List RecordEvent) (w' : World) : Prop where
  apt : AllApt w es
  tables : (es.foldl World.record w).SameRecords w'

variable {rt : Runtime} {wc : Wincode} {w w' w'' : World} {e : RecordEvent}
  {es es' : List RecordEvent} {key : Pubkey} {chain chain' : Chain}

theorem allApt_append : AllApt w (es ++ es') ↔
    AllApt w es ∧ AllApt (es.foldl World.record w) es' := by
  induction es generalizing w with
  | nil => simp [AllApt]
  | cons e es ih => simp [AllApt, ih, and_assoc]

theorem World.SameRecords.refl (w : World) : w.SameRecords w := rfl

namespace Stored

theorem nil (w : World) : Stored w [] w := ⟨trivial, .refl w⟩

theorem single (h : e.Apt w) (hw : (w.record e).SameRecords w') : Stored w [e] w' :=
  ⟨⟨h, trivial⟩, hw⟩

theorem cons (h : e.Apt w) (hs : Stored (w.record e) es w') : Stored w (e :: es) w' :=
  ⟨⟨h, hs.apt⟩, hs.tables⟩

theorem append (h : AllApt w es) (hs : Stored (es.foldl World.record w) es' w') :
    Stored w (es ++ es') w' := by
  refine ⟨allApt_append.mpr ⟨h, hs.apt⟩, ?_⟩
  rw [List.foldl_append]
  exact hs.tables

end Stored

/-! ### One lemma per kind of change -/

variable {accounts : List AccountInfo} {l l' : Live}

def World.vaultEvent (w : World) (v : Vault) : RecordEvent :=
  .put w.vaultKey (.vault v ⟨Bytes.zero 7, Bytes.zero 2, Bytes.zero 2⟩)

def ticketAccount (t : WithdrawalTicket) : Account := .withdrawalTicket t (Bytes.zero 6)

theorem World.vaultEvent_apt (w : World) (v : Vault) : (w.vaultEvent v).Apt w :=
  .store (b := .vault w.vault ⟨Bytes.zero 7, Bytes.zero 2, Bytes.zero 2⟩) ⟨rfl, rfl⟩ rfl

/-- Storing the vault. -/
theorem stored_vault {v : Vault} (hw : { w with vault := v }.SameRecords w') :
    Stored w [w.vaultEvent v] w' := by
  refine .single (w.vaultEvent_apt v) ?_
  rw [World.vaultEvent, World.record, if_pos rfl]
  exact hw

/-- Closing the tickets of a batch, one after the other. -/
theorem allApt_closed {rows : List (Pubkey × WithdrawalTicket)} (hnd : (rows.map Prod.fst).Nodup)
    (hlive : ∀ r ∈ rows, w.tickets.lookup r.1 = some r.2) :
    AllApt w (rows.map fun r => .remove r.1 (ticketAccount r.2)) ∧
      (rows.map fun r => RecordEvent.remove r.1 (ticketAccount r.2)).foldl World.record w =
        { w with tickets := w.tickets.eraseAll (rows.map Prod.fst) } := by
  induction rows generalizing w with
  | nil => exact ⟨trivial, rfl⟩
  | cons r rows ih =>
    rw [List.map_cons, List.nodup_cons] at hnd
    have hrest : ∀ r' ∈ rows, (w.tickets.erase r.1).lookup r'.1 = some r'.2 := by
      intro r' hr'
      have hne : r'.1 ≠ r.1 := fun he => hnd.1 (he ▸ List.mem_map_of_mem hr')
      rw [AList.lookup_erase_ne hne]
      exact hlive r' (List.mem_cons_of_mem _ hr')
    obtain ⟨hapt, hfold⟩ := ih (w := { w with tickets := w.tickets.erase r.1 }) hnd.2 hrest
    exact ⟨⟨.close (hlive r List.mem_cons_self) trivial, hapt⟩, hfold⟩

/-- An instruction that leaves the tickets stores the vault. -/
theorem Writes.stored_vault (h : Writes rt w w' accounts) (ht : w'.tickets = w.tickets) :
    Stored w [w.vaultEvent w'.vault] w' := by
  refine Roshi.stored_vault ?_
  have hworld := h.world
  rw [ht] at hworld
  rw [hworld]
  rfl

theorem Writes.stored (h : Writes rt w w' accounts) : ∃ es, Stored w es w' := by
  have hworld := h.world
  have hw := h.written
  generalize w'.vault = v' at hw hworld
  generalize w'.tickets = tickets at hw hworld
  cases hw with
  | @opened key t _ fresh =>
    refine ⟨_, .cons (e := .put key (ticketAccount t)) (.create fresh)
      (Roshi.stored_vault (v := v') ?_)⟩
    rw [hworld]
    rfl
  | @cancelled key t _ live =>
    refine ⟨_, .cons (e := .remove key (ticketAccount t)) (.close live trivial)
      (Roshi.stored_vault (v := v') ?_)⟩
    rw [hworld]
    rfl
  | @processed rows _ nodup live =>
    obtain ⟨hapt, hfold⟩ := allApt_closed nodup live
    refine ⟨_, .append hapt (Roshi.stored_vault (v := v') ?_)⟩
    rw [hfold, hworld]
    rfl
  | _ =>
    refine ⟨_, Roshi.stored_vault (v := v') ?_⟩
    rw [hworld]
    rfl

theorem Tabled.stored (h : Tabled rt w accounts w') : ∃ es, Stored w es w' := by
  cases h with
  | @authorized key a h => exact ⟨[.put key (.action a)], .single (.create h.fresh) rfl⟩
  | @revoked key a live =>
    exact ⟨[.remove key (.action a)], .single (.close live trivial) rfl⟩
  | @rated key a _ feeNum feeDen live =>
    exact ⟨[.put key (.action { a with feeNum, feeDen })],
      .single (.store (b := .action a) live rfl) rfl⟩
  | @listed key a _ h =>
    exact ⟨[.put key (.asset a ⟨Bytes.zero 7, Bytes.zero 4⟩)], .single (.create h.fresh) rfl⟩
  | @updated key a args live =>
    exact ⟨[.put key (.asset (a.withSettings args) ⟨Bytes.zero 7, Bytes.zero 4⟩)],
      .single (.store (b := .asset a ⟨Bytes.zero 7, Bytes.zero 4⟩) live rfl) rfl⟩

theorem Redirected.stored {r : Registrations}
    (h : Redirected rt l.world l.registrations accounts r) :
    ∃ es, Stored l.world es (Live.of l.world r).world := by
  have hset : ∀ key x, (Live.of l.world (l.registrations.set key x)).world =
      l.world.setDestination key x.isSome := by
    intro key x
    rw [Live.of, World.setDestination, World.mk.injEq]
    refine ⟨rfl, rfl, rfl, rfl, rfl, ?_, rfl, rfl, rfl⟩
    funext k
    rw [l.destinations_eq, Registrations.set]
    split <;> rfl
  cases h with
  | @registered key d h =>
    refine ⟨[.put key (.externalDestination d)], .single (.create h.fresh) ?_⟩
    rw [hset]
    rfl
  | @revoked key d live =>
    have hhas : l.world.Has key (.externalDestination d) := by
      have hregistered : (l.registrations key).isSome = true := by
        rw [live]
        rfl
      rw [World.Has, l.destinations_eq]
      exact hregistered
    refine ⟨[.remove key (.externalDestination d)], .single (.close hhas trivial) ?_⟩
    rw [hset]
    rfl

/-- **Every change is a list of writes.** -/
theorem Change.stored (h : Change rt accounts l l') : ∃ es, Stored l.world es l'.world := by
  cases h with
  | books h =>
    rw [Live.of_world (h.destinations_eq.trans l.destinations_eq)]
    exact h.stored
  | tables h =>
    rw [Live.of_world (h.step.2.trans l.destinations_eq)]
    exact h.stored
  | destinations h => exact h.stored
  | beside ledger prices clock =>
    have hworld : (Live.of { l.world with ledger, prices, clock } l.registrations).world =
        { l.world with ledger, prices, clock } := Live.of_world l.destinations_eq
    exact ⟨[], trivial, hworld⟩

/-! ### Instructions -/

namespace Sample

end Sample

end Roshi

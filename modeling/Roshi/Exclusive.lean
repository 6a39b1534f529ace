import Roshi.Addresses

/-!
# The tables do not overlap

On the chain an address has one account with one record.  Five tables stand for it here, and a
record is created only where none of them has one (`World.Vacant`), so in no run do two of them
have records at one address (`one_record_an_address`): what one loader of the tables takes the
others refuse, as on the bytes (`Account.account_typed`).
-/

namespace Roshi

open Lib

inductive RecordKind where
  | vault
  | ticket
  | action
  | asset
  | destination
  deriving DecidableEq, Repr

/-- A record of the kind is at `key`. -/
def World.Holds (w : World) (r : Registrations) (key : Pubkey) : RecordKind → Prop
  | .vault => key = w.vaultKey
  | .ticket => ∃ t, w.tickets.lookup key = some t
  | .action => ∃ a, w.actions key = some a
  | .asset => ∃ a, w.assets key = some a
  | .destination => ∃ d, r key = some d

/-- Records at one address are of one kind. -/
def Exclusive (w : World) (r : Registrations) : Prop :=
  ∀ key k k', w.Holds r key k → w.Holds r key k' → k = k'

variable {rt : Runtime} {w w' : World} {r r' : Registrations} {accounts : List AccountInfo}
  {key : Pubkey} {k : RecordKind}

theorem World.Vacant.not_holds (h : w.Vacant key)
    (hr : w.destinations = fun key => (r key).isSome) : ¬ w.Holds r key k := by
  intro hk
  cases k with
  | vault => exact h.vault hk
  | ticket =>
    obtain ⟨t, ht⟩ := hk
    rw [h.ticket] at ht
    cases ht
  | action =>
    obtain ⟨a, ha⟩ := hk
    rw [h.action] at ha
    cases ha
  | asset =>
    obtain ⟨a, ha⟩ := hk
    rw [h.asset] at ha
    cases ha
  | destination =>
    obtain ⟨d, hd⟩ := hk
    have hnone : (r key).isSome = false := (congrFun hr key).symm.trans h.destination
    rw [hd] at hnone
    cases hnone

/-! ### One step -/

/-- Every record was there before, but one at an address that held none. -/
def Grown (w w' : World) (r r' : Registrations) : Prop :=
  ∃ key₀ k₀, ∀ key k, w'.Holds r' key k →
    w.Holds r key k ∨ key = key₀ ∧ k = k₀ ∧ w.Vacant key

theorem Exclusive.grown (hb : Exclusive w r) (hr : w.destinations = fun key => (r key).isSome)
    (h : Grown w w' r r') : Exclusive w' r' := by
  obtain ⟨key₀, k₀, hgrown⟩ := h
  intro key k k' hk hk'
  rcases hgrown key k hk with hold | ⟨-, hkind, fresh⟩
  · rcases hgrown key k' hk' with hold' | ⟨-, -, fresh⟩
    · exact hb key k k' hold hold'
    · exact absurd hold (fresh.not_holds hr)
  · rcases hgrown key k' hk' with hold' | ⟨-, hkind', -⟩
    · exact absurd hold' (fresh.not_holds hr)
    · exact hkind.trans hkind'.symm

theorem Writes.grown (h : Writes rt w w' accounts) : Grown w w' r r := by
  have hticket : ∃ key₀, ∀ key t, w'.tickets.lookup key = some t →
      (∃ t, w.tickets.lookup key = some t) ∨ key = key₀ ∧ w.Vacant key := by
    have hw := h.written
    generalize w'.vault = v' at hw
    generalize w'.tickets = tickets at hw
    cases hw with
    | @opened key₀ _ _ fresh =>
      refine ⟨key₀, ?_⟩
      intro key t ht
      rcases Table.lookup_of_insert ht with ⟨rfl, -⟩ | ⟨-, ht⟩
      · exact .inr ⟨rfl, fresh⟩
      · exact .inl ⟨t, ht⟩
    | cancelled => exact ⟨w.vaultKey, fun key t ht => .inl ⟨t, (Table.lookup_of_erase ht).2⟩⟩
    | processed => exact ⟨w.vaultKey, fun key t ht => .inl ⟨t, (Table.lookup_of_eraseAll ht).2⟩⟩
    | _ => exact ⟨w.vaultKey, fun key t ht => .inl ⟨t, ht⟩⟩
  obtain ⟨key₀, hticket⟩ := hticket
  refine ⟨key₀, .ticket, ?_⟩
  intro key k hk
  cases k with
  | vault => exact .inl (hk.trans h.vaultKey_eq)
  | ticket =>
    obtain ⟨t, ht⟩ := hk
    rcases hticket key t ht with hold | ⟨hkey, fresh⟩
    · exact .inl hold
    · exact .inr ⟨hkey, rfl, fresh⟩
  | action =>
    obtain ⟨a, ha⟩ := hk
    exact .inl ⟨a, (congrFun h.actions_eq key).symm.trans ha⟩
  | asset =>
    obtain ⟨a, ha⟩ := hk
    exact .inl ⟨a, (congrFun h.assets_eq key).symm.trans ha⟩
  | destination => exact .inl hk

theorem Tabled.grown (h : Tabled rt w accounts w') : Grown w w' r r := by
  have hactions : ∀ key₀ x, (∀ a, x = some a → w.Vacant key₀ ∨ ∃ b, w.actions key₀ = some b) →
      Grown w (w.setAction key₀ x) r r := by
    intro key₀ x hx
    refine ⟨key₀, .action, ?_⟩
    intro key k hk
    cases k with
    | action =>
      obtain ⟨a, ha⟩ := hk
      rcases eq_some_of_ite ha with ⟨rfl, hnew⟩ | hold
      · rcases hx a hnew with fresh | hold
        · exact .inr ⟨rfl, rfl, fresh⟩
        · exact .inl hold
      · exact .inl ⟨a, hold⟩
    | _ => exact .inl hk
  have hassets : ∀ key₀ x, (w.Vacant key₀ ∨ ∃ b, w.assets key₀ = some b) →
      Grown w (w.setAsset key₀ x) r r := by
    intro key₀ x hx
    refine ⟨key₀, .asset, ?_⟩
    intro key k hk
    cases k with
    | asset =>
      obtain ⟨a, ha⟩ := hk
      rcases eq_some_of_ite ha with ⟨rfl, -⟩ | hold
      · rcases hx with fresh | hold
        · exact .inr ⟨rfl, rfl, fresh⟩
        · exact .inl hold
      · exact .inl ⟨a, hold⟩
    | _ => exact .inl hk
  cases h with
  | authorized h => exact hactions _ _ fun _ _ => .inl h.fresh
  | revoked =>
    refine hactions _ none ?_
    intro a ha
    cases ha
  | rated _ _ live => exact hactions _ _ fun _ _ => .inr ⟨_, live⟩
  | listed h => exact hassets _ _ (.inl h.fresh)
  | updated live => exact hassets _ _ (.inr ⟨_, live⟩)

theorem Redirected.grown (h : Redirected rt w r accounts r') : Grown w w r r' := by
  have hset : ∀ key₀ x, (∀ d, x = some d → w.Vacant key₀) → Grown w w r (r.set key₀ x) := by
    intro key₀ x hx
    refine ⟨key₀, .destination, ?_⟩
    intro key k hk
    cases k with
    | destination =>
      obtain ⟨d, hd⟩ := hk
      rcases eq_some_of_ite hd with ⟨rfl, hnew⟩ | hold
      · exact .inr ⟨rfl, rfl, hx d hnew⟩
      · exact .inl ⟨d, hold⟩
    | _ => exact .inl hk
  cases h with
  | registered h => exact hset _ _ fun _ _ => h.fresh
  | revoked =>
    refine hset _ none ?_
    intro a ha
    cases ha

/-- Nothing is asked of the flags of `World.destinations`. -/
theorem Exclusive.of (hb : Exclusive w r) : Exclusive (Live.of w r).world r := hb

theorem Exclusive.change {l l' : Live} (hb : Exclusive l.world l.registrations)
    (h : Change rt accounts l l') : Exclusive l'.world l'.registrations := by
  cases h with
  | books h => exact (hb.grown l.destinations_eq h.grown).of
  | tables h => exact (hb.grown l.destinations_eq h.grown).of
  | destinations h => exact (hb.grown l.destinations_eq h.grown).of
  | beside => exact hb

/-! ### Runs -/

theorem tryInitializeVault_exclusive {g : Genesis} {args : InitializeVaultArgs}
    (h : tryInitializeVault rt g accounts args = .ok w) : Exclusive w fun _ => none := by
  simp only [tryInitializeVault, bind_eq_ok, Except.ok.injEq] at h
  obtain ⟨_, -, _, -, _, -, _, -, _, -, _, -, _, -, rfl⟩ := h
  intro key k k' hk hk'
  cases k with
  | vault =>
    cases k' with
    | vault => rfl
    | _ =>
      obtain ⟨_, hnone⟩ := hk'
      cases hnone
  | _ =>
    obtain ⟨_, hnone⟩ := hk
    cases hnone

/-- The loader of the kind takes the account; of a destination, its record is there. -/
def World.Takes (rt : Runtime) (w : World) (r : Registrations) (a : AccountInfo) :
    RecordKind → Prop
  | .vault => ∃ v, w.loadChecked rt a = .ok v
  | .ticket => ∃ t, w.loadTicket a = .ok t
  | .action => ∃ action, w.loadAction a = .ok action
  | .asset => ∃ asset, w.loadAsset a = .ok asset
  | .destination => ∃ d, r a.key = some d

theorem World.Takes.holds {a : AccountInfo} (h : w.Takes rt r a k) : w.Holds r a.key k := by
  cases k with
  | vault =>
    obtain ⟨v, hv⟩ := h
    exact (loadChecked_eq_ok hv).2.1
  | ticket =>
    obtain ⟨t, ht⟩ := h
    exact ⟨t, okOr_eq_ok.mp ht⟩
  | action =>
    obtain ⟨x, hx⟩ := h
    exact ⟨x, loadAction_eq_ok.mp hx⟩
  | asset =>
    obtain ⟨x, hx⟩ := h
    exact ⟨x, (loadAsset_eq_ok.mp hx).1⟩
  | destination => exact h

/-- In every run of the program the records at one address are of one kind, and no account is taken
by the loaders of two kinds. -/
theorem one_record_an_address {g : Ground} {tr : ProgramTrace} {d : Deployment} {l : Live}
    (h : Run (ProgramStep rt) (.genesis g) tr d) (hl : d.stage = .live l) :
    Exclusive l.world l.registrations ∧
      ∀ a k k', l.world.Takes rt l.registrations a k → l.world.Takes rt l.registrations a k' →
        k = k' := by
  have hexclusive : Exclusive l.world l.registrations :=
    live_invariant h hl (P := fun l => Exclusive l.world l.registrations)
      (fun _ _ _ _ hw => (tryInitializeVault_exclusive hw).of)
      fun _ _ _ _ hm hb => hb.change hm.change
  exact ⟨hexclusive, fun a k k' hk hk' => hexclusive a.key k k' hk.holds hk'.holds⟩

end Roshi

import Roshi.Refinement

/-!
# Who can change what

A vault falls into parts: the settings, the record of the last report, the fees owed, the external
balance, each ticket, action, asset and destination.  Every part has its keepers, the keys one of
which has to sign a change of it (`Change.kept_or_signed`).  The keepers are themselves settings,
so over a run it is enough to look at the start: as long as neither the admin nor a keeper of then
signs, the part is as it was (`kept_without_keepers`), whatever anybody else does.

The program config and the existence of a vault have one keeper (`config_kept`), and every key in
an office was appointed by one, back to the program's own key (`appointed_of_holds`).
-/

namespace Roshi

open Lib

/-! ### Parts and keepers -/

/-- What the admin sets is the same in `v` and in `v'`. -/
def Vault.SameSettings (v v' : Vault) : Prop := v.withAdministration v' = v

/-- What a report writes and nothing else does. -/
structure ReportRecord where
  highWatermark : U64
  reportEpoch : U64
  lastReportHash : Bytes 32
  lastUpdateTs : I64
  profitUnlockEndTs : I64

def Vault.reportRecord (v : Vault) : ReportRecord :=
  ⟨v.highWatermark, v.reportEpoch, v.lastReportHash, v.lastUpdateTs, v.profitUnlockEndTs⟩

/-- An action but for its fee rate. -/
def Action.withoutRate (a : Action) : Action := { a with feeNum := 0, feeDen := 0 }

def Action.rate (a : Action) : U64 × U64 := (a.feeNum, a.feeDen)

inductive Part where
  | settings
  | report
  | fees
  | external
  | ticket (key : Pubkey)
  | action (key : Pubkey)
  | rate (key : Pubkey)
  | asset (key : Pubkey)
  | destination (key : Pubkey)

namespace Part

/-- The keys one of which signs a change of the part.  A live ticket is also its owner's. -/
def keepers (l : Live) : Part → List Pubkey
  | settings => [l.world.vault.admin]
  | report => [l.world.vault.navAuthority]
  | fees => [l.world.vault.navAuthority, l.world.vault.admin]
  | external => [l.world.vault.strategist]
  | ticket key => l.world.vault.withdrawalAuthority ::
      ((l.world.tickets.lookup key).map WithdrawalTicket.owner).toList
  | action _ => [l.world.vault.admin]
  | rate _ => [l.world.vault.admin, l.world.vault.strategist]
  | asset _ => [l.world.vault.admin]
  | destination _ => [l.world.vault.admin]

/-- The part is the same in `l` and in `m`; a ticket may be opened where there was none. -/
def Kept (l m : Live) : Part → Prop
  | settings => l.world.vault.SameSettings m.world.vault
  | report => m.world.vault.reportRecord = l.world.vault.reportRecord
  | fees => m.world.vault.feesPayable = l.world.vault.feesPayable
  | external => m.world.vault.externalAssets = l.world.vault.externalAssets
  | ticket key => ∀ t, l.world.tickets.lookup key = some t → m.world.tickets.lookup key = some t
  | action key =>
    (m.world.actions key).map Action.withoutRate = (l.world.actions key).map Action.withoutRate
  | rate key => (m.world.actions key).map Action.rate = (l.world.actions key).map Action.rate
  | asset key => m.world.assets key = l.world.assets key
  | destination key => m.registrations key = l.registrations key

end Part

/-! ### Settings -/

variable {rt : Runtime} {v v' v'' : Vault} {w w' : World} {l l' m : Live}
  {accounts : List AccountInfo} {t : Table Pubkey WithdrawalTicket}

namespace Vault.SameSettings

theorem refl (v : Vault) : v.SameSettings v := rfl

theorem trans (h : v.SameSettings v') (h' : v'.SameSettings v'') : v.SameSettings v'' :=
  calc v.withAdministration v'' = v.withAdministration (v'.withAdministration v'') := rfl
    _ = v.withAdministration v' := congrArg v.withAdministration h'
    _ = v := h

/-- A field the admin sets is the same. -/
theorem eq {α : Type} (f : Vault → α) (h : v.SameSettings v')
    (hf : ∀ x y : Vault, f (x.withAdministration y) = f y) : f v' = f v := by
  rw [← hf v v', h]

end Vault.SameSettings

theorem Written.settings (h : Written rt w accounts v t) :
    w.vault.SameSettings v ∨ SignedBy accounts w.vault.admin := by
  rcases h.view w.vault.withAdministration (fun _ => rfl) with h | ⟨hv, -⟩ | ⟨hv, -⟩ | ⟨hv, -⟩ |
    ⟨-, signed⟩
  · exact .inl h
  · exact .inl ((congrArg w.vault.withAdministration hv).trans rfl)
  · exact .inl ((congrArg w.vault.withAdministration hv).trans rfl)
  · exact .inl ((congrArg w.vault.withAdministration hv).trans rfl)
  · exact .inr signed

theorem Written.report (h : Written rt w accounts v t) :
    v.reportRecord = w.vault.reportRecord ∨ SignedBy accounts w.vault.navAuthority := by
  rcases h.view Vault.reportRecord (fun _ => rfl) with h | ⟨-, signed⟩ | ⟨hv, -⟩ | ⟨hv, -⟩ | ⟨hv, -⟩
  · exact .inl h
  · exact .inr signed
  · exact .inl ((congrArg Vault.reportRecord hv).trans rfl)
  · exact .inl ((congrArg Vault.reportRecord hv).trans rfl)
  · exact .inl ((congrArg Vault.reportRecord hv).trans rfl)

theorem Written.fees (h : Written rt w accounts v t) :
    v.feesPayable = w.vault.feesPayable ∨ SignedBy accounts w.vault.navAuthority ∨
      SignedBy accounts w.vault.admin := by
  rcases h.view Vault.feesPayable (fun _ => rfl) with h | ⟨-, signed⟩ | ⟨-, signed⟩ | ⟨hv, -⟩ |
    ⟨hv, -⟩
  · exact .inl h
  · exact .inr (.inl signed)
  · exact .inr (.inr signed)
  · exact .inl ((congrArg Vault.feesPayable hv).trans rfl)
  · exact .inl ((congrArg Vault.feesPayable hv).trans rfl)

theorem Written.external (h : Written rt w accounts v t) :
    v.externalAssets = w.vault.externalAssets ∨ SignedBy accounts w.vault.strategist := by
  rcases h.view Vault.externalAssets (fun _ => rfl) with h | ⟨hv, -⟩ | ⟨hv, -⟩ | ⟨-, signed⟩ |
    ⟨hv, -⟩
  · exact .inl h
  · exact .inl ((congrArg Vault.externalAssets hv).trans rfl)
  · exact .inl ((congrArg Vault.externalAssets hv).trans rfl)
  · exact .inr signed
  · exact .inl ((congrArg Vault.externalAssets hv).trans rfl)

/-- A live ticket stays, or its owner or the withdrawal authority signed. -/
theorem Written.ticket {key : Pubkey} {x : WithdrawalTicket} (h : Written rt w accounts v t)
    (hx : w.tickets.lookup key = some x) :
    t.lookup key = some x ∨ SignedBy accounts w.vault.withdrawalAuthority ∨
      SignedBy accounts x.owner := by
  cases h with
  | @opened k _ _ fresh =>
    left
    have hne : key ≠ k := by
      rintro rfl
      rw [fresh.ticket] at hx
      cases hx
    rw [AList.lookup_insert_ne hne]
    exact hx
  | @cancelled k _ _ live signed =>
    by_cases hk : key = k
    · subst hk
      obtain rfl := Option.some.inj (live.symm.trans hx)
      exact .inr (.inr signed)
    · left
      rw [AList.lookup_erase_ne hk]
      exact hx
  | processed _ _ _ signed => exact .inr (.inl signed)
  | _ => exact .inl hx

/-! ### One step -/

namespace Part

theorem Kept.refl (l : Live) (p : Part) : p.Kept l l := by
  cases p with
  | settings => exact Vault.SameSettings.refl _
  | ticket => exact fun _ h => h
  | _ => rfl

theorem kept_of_vacant {key : Pubkey} (h : l.world.tickets.lookup key = none) :
    (ticket key).Kept l m :=
  fun _ ht => nomatch h.symm.trans ht

theorem Kept.trans {p : Part} (h : p.Kept l m) (h' : p.Kept m l') : p.Kept l l' := by
  cases p with
  | settings => exact Vault.SameSettings.trans h h'
  | ticket => exact fun t ht => h' t (h t ht)
  | _ => exact Eq.trans h' h

end Part

/-- A part was kept, or one of its keepers signed. -/
def Part.KeptOrSigned (p : Part) (accounts : List AccountInfo) (l l' : Live) : Prop :=
  p.Kept l l' ∨ ∃ k ∈ p.keepers l, SignedBy accounts k

theorem Writes.kept_or_signed (h : Writes rt l.world w' accounts) (p : Part) :
    p.KeptOrSigned accounts l (.of w' l.registrations) := by
  have hw := h.written
  cases p with
  | settings => exact hw.settings.imp_right fun hs => ⟨_, List.mem_cons_self, hs⟩
  | report => exact hw.report.imp_right fun hs => ⟨_, List.mem_cons_self, hs⟩
  | fees =>
    rcases hw.fees with hkept | hs | hs
    · exact .inl hkept
    · exact .inr ⟨_, List.mem_cons_self, hs⟩
    · exact .inr ⟨_, List.mem_cons_of_mem _ List.mem_cons_self, hs⟩
  | external => exact hw.external.imp_right fun hs => ⟨_, List.mem_cons_self, hs⟩
  | ticket key =>
    cases hx : l.world.tickets.lookup key with
    | none => exact .inl (Part.kept_of_vacant hx)
    | some x =>
      rcases hw.ticket hx with hkept | hs | hs
      · exact .inl fun t ht => Option.some.inj (hx.symm.trans ht) ▸ hkept
      · exact .inr ⟨_, List.mem_cons_self, hs⟩
      · exact .inr ⟨x.owner, by simp [Part.keepers, hx], hs⟩
  | action key => exact .inl (congrArg (Option.map Action.withoutRate) (congrFun h.actions_eq key))
  | rate key => exact .inl (congrArg (Option.map Action.rate) (congrFun h.actions_eq key))
  | asset key => exact .inl (congrFun h.assets_eq key)
  | destination key => exact .inl rfl

theorem Tabled.kept_or_signed (h : Tabled rt l.world accounts w') (p : Part) :
    p.KeptOrSigned accounts l (.of w' l.registrations) := by
  cases h with
  | authorized h =>
    cases p with
    | action => exact .inr ⟨_, List.mem_cons_self, h.signed⟩
    | rate => exact .inr ⟨_, List.mem_cons_self, h.signed⟩
    | ticket => exact .inl fun _ ht => ht
    | _ => exact .inl rfl
  | revoked live signed =>
    cases p with
    | action => exact .inr ⟨_, List.mem_cons_self, signed⟩
    | rate => exact .inr ⟨_, List.mem_cons_self, signed⟩
    | ticket => exact .inl fun _ ht => ht
    | _ => exact .inl rfl
  | @rated key a role feeNum feeDen live hrole signed =>
    cases p with
    | action k =>
      -- the new rate is not looked at
      left
      show ((if k = key then _ else l.world.actions k).map Action.withoutRate : Option Action) = _
      split
      · rename_i hk
        rw [hk, live]
        rfl
      · rfl
    | rate =>
      rcases hrole with rfl | rfl
      · exact .inr ⟨_, List.mem_cons_self, signed⟩
      · exact .inr ⟨_, List.mem_cons_of_mem _ List.mem_cons_self, signed⟩
    | ticket => exact .inl fun _ ht => ht
    | _ => exact .inl rfl
  | listed h =>
    cases p with
    | asset => exact .inr ⟨_, List.mem_cons_self, h.signed⟩
    | ticket => exact .inl fun _ ht => ht
    | _ => exact .inl rfl
  | updated live signed =>
    cases p with
    | asset => exact .inr ⟨_, List.mem_cons_self, signed⟩
    | ticket => exact .inl fun _ ht => ht
    | _ => exact .inl rfl

theorem Redirected.kept_or_signed {r : Registrations}
    (h : Redirected rt l.world l.registrations accounts r) (p : Part) :
    p.KeptOrSigned accounts l (.of l.world r) := by
  have hsigned : SignedBy accounts l.world.vault.admin := by
    cases h with
    | registered h => exact h.signed
    | revoked _ signed => exact signed
  cases p with
  | destination => exact .inr ⟨_, List.mem_cons_self, hsigned⟩
  | ticket => exact .inl fun _ ht => ht
  | _ => exact .inl rfl

/-- **A change of a part needs one of its keepers.** -/
theorem Change.kept_or_signed (h : Change rt accounts l l') (p : Part) :
    p.KeptOrSigned accounts l l' := by
  cases h with
  | books h => exact h.kept_or_signed p
  | tables h => exact h.kept_or_signed p
  | destinations h => exact h.kept_or_signed p
  | beside =>
    cases p with
    | ticket => exact .inl fun _ ht => ht
    | _ => exact .inl rfl

/-! ### Runs -/

variable {d d' : Deployment} {tr : ProgramTrace} {p : Part}

/-- The settings say who the keepers are, the ticket of a ticket's owner among them. -/
theorem Part.Kept.keepers_subset (hs : Part.settings.Kept l m) (hp : p.Kept l m) {k : Pubkey}
    (hk : k ∈ p.keepers m) (hlive : ∀ key, p = .ticket key → l.world.tickets.lookup key ≠ none) :
    k ∈ p.keepers l := by
  have hadmin : m.world.vault.admin = l.world.vault.admin := hs.eq Vault.admin fun _ _ => rfl
  have hstrategist : m.world.vault.strategist = l.world.vault.strategist :=
    hs.eq Vault.strategist fun _ _ => rfl
  have hnav : m.world.vault.navAuthority = l.world.vault.navAuthority :=
    hs.eq Vault.navAuthority fun _ _ => rfl
  have hwithdrawal : m.world.vault.withdrawalAuthority = l.world.vault.withdrawalAuthority :=
    hs.eq Vault.withdrawalAuthority fun _ _ => rfl
  cases p with
  | ticket key =>
    obtain ⟨t, ht⟩ := Option.ne_none_iff_exists'.mp (hlive key rfl)
    have ht' : m.world.tickets.lookup key = some t := hp t ht
    rw [Part.keepers, hwithdrawal, ht'] at hk
    rw [Part.keepers, ht]
    exact hk
  | _ =>
    simp only [Part.keepers, hadmin, hstrategist, hnav] at hk ⊢
    exact hk

/-- A step without the admin and the keepers of `l` keeps what was as in `l`. -/
theorem Part.kept_step (hs : Part.settings.Kept l m) (hp : p.Kept l m)
    (h : Change rt accounts m l')
    (hsilent : ∀ k ∈ l.world.vault.admin :: p.keepers l, ¬ SignedBy accounts k) :
    Part.settings.Kept l l' ∧ p.Kept l l' := by
  have hs' : Part.settings.Kept l l' := by
    rcases h.kept_or_signed .settings with hkept | ⟨k, hk, hsigned⟩
    · exact hs.trans hkept
    · have hk := Part.Kept.keepers_subset hs hs hk fun _ h => nomatch h
      exact absurd hsigned (hsilent k (List.mem_singleton.mp hk ▸ List.mem_cons_self))
  refine ⟨hs', ?_⟩
  by_cases hlive : ∀ key, p = .ticket key → l.world.tickets.lookup key ≠ none
  · rcases h.kept_or_signed p with hkept | ⟨k, hk, hsigned⟩
    · exact hp.trans hkept
    · have hk := Part.Kept.keepers_subset hs hp hk hlive
      exact absurd hsigned (hsilent k (List.mem_cons_of_mem _ hk))
  · obtain ⟨key, rfl, hnone⟩ : ∃ key, p = .ticket key ∧ l.world.tickets.lookup key = none := by
      simpa using hlive
    exact Part.kept_of_vacant hnone

/-- **Nothing changes without its keepers.**  While neither the admin nor a keeper of the part,
as of the start of the run, signs, the settings and the part stay as they are. -/
theorem kept_without_keepers (h : Run (ProgramStep rt) d tr d') (hl : d.stage = .live l)
    (hsilent : ∀ x ∈ tr, ∀ k ∈ l.world.vault.admin :: p.keepers l,
      ¬ SignedBy x.event.accounts k) :
    ∃ l', d'.stage = .live l' ∧ Part.settings.Kept l l' ∧ p.Kept l l' := by
  refine h.invariant (P := fun d => ∃ m, d.stage = .live m ∧ Part.settings.Kept l m ∧ p.Kept l m)
    ⟨l, hl, .refl l _, .refl l p⟩ ?_
  rintro x hx hstep ⟨m, hm, hs, hp⟩
  obtain ⟨l', hl', hmoved⟩ := hstep.moved hm
  exact ⟨l', hl', Part.kept_step hs hp hmoved.change (hsilent x hx)⟩

/-! ### The program config -/

namespace Deployment

/-- The key that signs a change of the config: the program's own, before there is one. -/
def configKeeper (d : Deployment) : Pubkey :=
  match d.config with
  | none => ID
  | some c => c.authority

end Deployment

theorem tryInitializeVault_signed {g : Genesis} {args : InitializeVaultArgs}
    (h : tryInitializeVault rt g accounts args = .ok w) :
    ∃ authority, g.programAuthority = some authority ∧ SignedBy accounts authority := by
  simp only [tryInitializeVault, InitializeVaultContext.load, Genesis.verifyProgramAuthority,
    bind_eq_ok, Prod.exists, Except.ok.injEq, rejectIf_eq_ok, okOr_eq_ok, not_not, nextAccount_eq_ok,
    Bool.not_eq_false] at h
  obtain ⟨c, ⟨signer, _, rfl, _, _, -, _, _, -, _, -, _, _, -, _, -, _, _, -, _, _, -, _, -, _, -, _,
    _, -, _, _, -, _, -, _, _, -, _, -, _, ⟨_, -, authority, hauth, _, hkey, hs⟩, -⟩, -⟩ := h
  exact ⟨authority, hauth, hkey ▸ SignedBy.head hs⟩

theorem ProgramStep.config_or_signed {e : ProgramEvent} (h : ProgramStep rt d e d') :
    (d'.config = d.config ∧ ∀ g, d.stage = .unborn g → ∃ g', d'.stage = .unborn g') ∨
      SignedBy e.accounts d.configKeeper := by
  obtain ⟨-, happly⟩ := h
  cases e with
  | tick clock =>
    left
    cases happly
    cases hstage : d.stage with
    | unborn g => simp [Deployment.tick, hstage]
    | live l => simp [Deployment.tick, hstage]
  | environment occupied ledger prices =>
    left
    cases happly
    cases hstage : d.stage with
    | unborn g => simp [Deployment.environment, hstage]
    | live l => simp [Deployment.environment, hstage]
  | call i accounts o =>
    rcases tryProcessInstruction_cases happly with ⟨_, _, -, hc, -⟩ | ⟨_, _, -, hc, -⟩ |
      ⟨_, _, _, -, hw, -⟩ | ⟨-, rfl⟩ | ⟨l, _, hl, -, rfl⟩
    · obtain ⟨hnone, hsigned, -⟩ := tryInitializeProgram_spec hc
      right
      rw [Deployment.configKeeper, hnone]
      exact hsigned
    · obtain ⟨stored, hsome, hsigned, -⟩ := tryTransferProgramAuthority_spec hc
      right
      rw [Deployment.configKeeper, hsome]
      exact hsigned
    · obtain ⟨authority, hauth, hsigned⟩ := tryInitializeVault_signed hw
      obtain ⟨c, hsome, rfl⟩ := Option.map_eq_some_iff.mp hauth
      right
      rw [Deployment.configKeeper, hsome]
      exact hsigned
    · exact .inl ⟨rfl, fun g hg => ⟨g, hg⟩⟩
    · refine .inl ⟨rfl, fun g hg => ?_⟩
      rw [hl] at hg
      cases hg

/-- **The program config needs its keeper**, and so does the creation of a vault: while the
authority of the start does not sign (or, before there is one, the program's own key), the config
stays and no vault comes to be. -/
theorem config_without_keeper (h : Run (ProgramStep rt) d tr d')
    (hsilent : ∀ x ∈ tr, ¬ SignedBy x.event.accounts d.configKeeper) :
    d'.config = d.config ∧ ∀ g, d.stage = .unborn g → ∃ g', d'.stage = .unborn g' := by
  refine h.invariant (P := fun m => m.config = d.config ∧
    ∀ g, d.stage = .unborn g → ∃ g', m.stage = .unborn g') ⟨rfl, fun g hg => ⟨g, hg⟩⟩ ?_
  rintro x hx hstep ⟨hconfig, hstage⟩
  have hkeeper : x.pre.configKeeper = d.configKeeper := by
    rw [Deployment.configKeeper, Deployment.configKeeper, hconfig]
  rcases hstep.config_or_signed with ⟨hc, hs⟩ | hsigned
  · refine ⟨hc.trans hconfig, ?_⟩
    intro g hg
    obtain ⟨g', hg'⟩ := hstage g hg
    exact hs g' hg'
  · exact absurd (hkeeper ▸ hsigned) (hsilent x hx)

/-! ### Chains of appointment -/

inductive Office where
  | program
  | role (r : Role)

/-- The key in an office. -/
def Deployment.Holds (d : Deployment) (k : Pubkey) : Office → Prop
  | .program => d.config = some ⟨k⟩
  | .role r => ∃ l, d.stage = .live l ∧ l.world.vault.authorityForRole r = k

/-- The offices an office appoints to: the program authority its successor and the roles of a new
vault, the admin every role. -/
def Office.Appoints : Office → Office → Prop
  | .program, _ => True
  | .role .admin, .role _ => True
  | _, _ => False

/-- How a key came to an office: the program's own key signed the first appointment, and every
later one was signed by a key in an appointing office at the time. -/
inductive Appointed : ProgramTrace → Office → Pubkey → Prop
  | founded {tr : ProgramTrace} {x : Transition Deployment ProgramEvent} {k : Pubkey}
      (first : x.pre.config = none) (signed : SignedBy x.event.accounts ID)
      (now : x.post.Holds k .program) : Appointed (tr ++ [x]) .program k
  | named {tr : ProgramTrace} {x : Transition Deployment ProgramEvent} {a k : Pubkey}
      {office office' : Office} (before : Appointed tr office' a) (held : x.pre.Holds a office')
      (rank : office'.Appoints office) (signed : SignedBy x.event.accounts a)
      (now : x.post.Holds k office) : Appointed (tr ++ [x]) office k
  | stayed {tr : ProgramTrace} {x : Transition Deployment ProgramEvent} {k : Pubkey}
      {office : Office} (before : Appointed tr office k) (held : x.pre.Holds k office)
      (now : x.post.Holds k office) : Appointed (tr ++ [x]) office k

/-- **Every office goes back to the program's own key.** -/
theorem appointed_of_holds {g : Ground} (h : Run (ProgramStep rt) (.genesis g) tr d)
    {office : Office} {k : Pubkey} (hk : d.Holds k office) : Appointed tr office k := by
  refine h.history (P := fun tr d => ∀ office k, d.Holds k office → Appointed tr office k) ?_ ?_
    office k hk
  · intro office k hk
    cases office with
    | program => cases hk
    | role r =>
      obtain ⟨_, hl, -⟩ := hk
      cases hl
  · intro tr d e d' _ ih hstep office k hk
    cases office with
    | program =>
      rcases hstep.config_or_signed with ⟨hc, -⟩ | hsigned
      · have hbefore : d.Holds k .program := hc.symm.trans hk
        exact .stayed (ih _ _ hbefore) hbefore hk
      · cases hconfig : d.config with
        | none =>
          rw [Deployment.configKeeper, hconfig] at hsigned
          exact .founded hconfig hsigned hk
        | some c =>
          rw [Deployment.configKeeper, hconfig] at hsigned
          exact .named (ih .program c.authority hconfig) hconfig trivial
            hsigned hk
    | role r =>
      obtain ⟨l', hl', hrole⟩ := hk
      cases hstage : d.stage with
      | live l =>
        obtain ⟨l₁, hl₁, hmoved⟩ := hstep.moved hstage
        obtain rfl : l' = l₁ := Stage.live.inj (hl'.symm.trans hl₁)
        rcases hmoved.change.kept_or_signed .settings with hkept | ⟨a, ha, hsigned⟩
        · have hsame : l'.world.vault.authorityForRole r = l.world.vault.authorityForRole r := by
            refine hkept.eq (fun v => v.authorityForRole r) ?_
            intro x y
            cases r <;> rfl
          have hbefore : d.Holds k (.role r) := ⟨l, hstage, hsame.symm.trans hrole⟩
          exact .stayed (ih _ _ hbefore) hbefore ⟨l', hl', hrole⟩
        · obtain rfl := List.mem_singleton.mp ha
          have hadmin : d.Holds l.world.vault.admin (.role .admin) := ⟨l, hstage, rfl⟩
          exact .named (ih _ _ hadmin) hadmin trivial hsigned
            ⟨l', hl', hrole⟩
      | unborn g =>
        rcases hstep.unborn hstage with ⟨_, hunborn⟩ | ⟨_, _, _, _, _, rfl, hw, -⟩
        · rw [hunborn] at hl'
          cases hl'
        · obtain ⟨authority, hauth, hsigned⟩ := tryInitializeVault_signed hw
          obtain ⟨c, hconfig, rfl⟩ := Option.map_eq_some_iff.mp hauth
          exact .named (ih .program c.authority hconfig) hconfig trivial
            hsigned ⟨l', hl', hrole⟩

/-! ### A user alone -/

namespace Sample

/-- The user's share account comes to be. -/
def openEvent : ProgramEvent :=
  .environment (fun _ => false)
    (deployed.ledger.setAccount userShares (tokenAccount shareMint user 0))
    fun _ _ _ => .error .invalidArgument

def userDeposit : ProgramEvent :=
  .call (.deposit { assetMint := baseMint, amount := 1000000, minSharesOut := 0, accessProof := [] })
    [signer user, writable vaultKey, writable userBase, writable custody, writable userShares,
      writable shareMint, readonly TOKEN_PROGRAM_ID, readonly TOKEN_PROGRAM_ID] silent

def opened : Deployment := okValue (deployed.apply routeRuntime openEvent) (by decide +kernel)

def invested : Deployment := okValue (opened.apply routeRuntime userDeposit) (by decide +kernel)

def investedTrace : ProgramTrace :=
  [⟨deployed, openEvent, opened⟩, ⟨opened, userDeposit, invested⟩]

theorem invested_run : Run (ProgramStep routeRuntime) deployed investedTrace invested := by
  refine .cons ⟨?_, eq_okValue _⟩ (.cons ⟨fun _ _ => silent_neverMints _, eq_okValue _⟩ (.nil _))
  intro l hl
  obtain rfl : deployedLive = l := Stage.live.inj (deployed_live.symm.trans hl)
  have hledger : deployed.ledger = deployedLive.world.ledger := by
    rw [Deployment.ledger, deployed_live]
  rw [hledger]
  exact ⟨Nat.le_refl _, id⟩

/-- Only the user signs. -/
theorem invested_silent : ∀ x ∈ investedTrace, ¬ SignedBy x.event.accounts admin := by
  decide +kernel

end Sample

theorem kept_without_keepers_invested : ∃ l', Sample.invested.stage = .live l' ∧
    Part.settings.Kept Sample.deployedLive l' ∧
    (Part.action Sample.routeKey).Kept Sample.deployedLive l' := by
  have hadmin : Sample.deployedLive.world.vault.admin = Sample.admin := by decide +kernel
  refine kept_without_keepers Sample.invested_run Sample.deployed_live ?_
  intro x hx k hk
  simp only [Part.keepers, hadmin, List.mem_cons, List.not_mem_nil, or_false, or_self] at hk
  subst hk
  exact Sample.invested_silent x hx

theorem config_without_keeper_invested : Sample.invested.config = Sample.deployed.config := by
  have hkeeper : Sample.deployed.configKeeper = Sample.admin := by decide +kernel
  refine (config_without_keeper Sample.invested_run ?_).1
  rw [hkeeper]
  exact Sample.invested_silent

theorem appointed_of_holds_deployed :
    ∃ tr : ProgramTrace, tr.map Transition.event = Sample.deployEvents ∧
      Appointed tr (.role .strategist) Sample.admin := by
  obtain ⟨tr, hrun, hevents⟩ := Sample.deployed_run
  have hrole : Sample.deployedLive.world.vault.authorityForRole .strategist = Sample.admin := by
    decide +kernel
  exact ⟨tr, hevents, appointed_of_holds hrun ⟨_, Sample.deployed_live, hrole⟩⟩

end Roshi

import Roshi.Addresses
import Roshi.Calls
import Roshi.Gates

/-!
# Where records come from

A record that is there was put there by some step of the run and has stayed since
(`exists_origin`): a ticket under its owner's signature, an action, an asset or a destination under
that of the admin of the time.

What the program does with records inherits it.  Every call a relay makes hashes to what the admin
authorized and has not revoked since, whichever of the five instructions relays it
(`relayed_calls_authorized`); and base leaves for external custody only to a token account the
admin registered and has not revoked since (`investments_registered`).
-/

namespace Roshi

open Lib

/-! ### Records -/

inductive Entry where
  | ticket (key : Pubkey) (t : WithdrawalTicket)
  | action (key : Pubkey) (a : Action)
  | asset (key : Pubkey) (a : Asset)
  | destination (key : Pubkey) (d : ExternalDestination)

namespace Entry

/-- The record is stored; the rate of an action is not looked at. -/
def StoredIn (l : Live) : Entry → Prop
  | ticket key t => l.world.tickets.lookup key = some t
  | action key a => (l.world.actions key).map Action.withoutRate = some a.withoutRate
  | asset key a => l.world.assets key = some a
  | destination key d => l.registrations key = some d

/-- A step of `l` with `accounts` may store the record.  An asset may be there already, with
other settings. -/
def OpensIn (rt : Runtime) (l : Live) (accounts : List AccountInfo) : Entry → Prop
  | ticket key t =>
    SignedBy accounts t.owner ∧ l.world.Vacant key ∧ t.At rt l.world.vaultKey key
  | action key a =>
    ∃ a₀, a₀.withoutRate = a.withoutRate ∧ ActionAuthorized rt l.world accounts key a₀
  | asset _ a => SignedBy accounts l.world.vault.admin ∧ a.validateState = .ok ()
  | destination key d => DestinationRegistered rt l.world accounts key d

/-- The record is stored in the vault of `d`. -/
def In (d : Deployment) (e : Entry) : Prop := ∃ l, d.stage = .live l ∧ e.StoredIn l

/-- The step stored the record. -/
def OpenedBy (rt : Runtime) (x : Transition Deployment ProgramEvent) (e : Entry) : Prop :=
  ∃ l, x.pre.stage = .live l ∧ e.OpensIn rt l x.event.accounts

end Entry

/-! ### One step -/

variable {rt : Runtime} {w w' : World} {l l' : Live} {accounts : List AccountInfo} {e : Entry}

theorem Writes.stored_or_opens (h : Writes rt l.world w' accounts)
    (he : e.StoredIn (.of w' l.registrations)) :
    e.StoredIn l ∨ e.OpensIn rt l accounts := by
  cases e with
  | ticket key t =>
    have ht : w'.tickets.lookup key = some t := he
    have hw := h.written
    generalize w'.vault = v' at hw
    generalize w'.tickets = tickets at hw ht
    cases hw with
    | opened _ fresh at_ signed =>
      rcases Table.lookup_of_insert ht with ⟨rfl, rfl⟩ | ⟨-, ht⟩
      · exact .inr ⟨signed, fresh, at_⟩
      · exact .inl ht
    | cancelled => exact .inl (Table.lookup_of_erase ht).2
    | processed => exact .inl (Table.lookup_of_eraseAll ht).2
    | _ => exact .inl ht
  | action key a =>
    exact .inl ((congrArg (Option.map Action.withoutRate) (congrFun h.actions_eq key)).symm.trans he)
  | asset key a => exact .inl ((congrFun h.assets_eq key).symm.trans he)
  | destination => exact .inl he

theorem Tabled.stored_or_opens (h : Tabled rt l.world accounts w')
    (he : e.StoredIn (.of w' l.registrations)) :
    e.StoredIn l ∨ e.OpensIn rt l accounts := by
  cases e with
  | ticket => cases h <;> exact .inl he
  | destination => cases h <;> exact .inl he
  | action key a =>
    obtain ⟨a', ha', hrate⟩ := Option.map_eq_some_iff.mp he
    have hstored : l.world.actions key = some a' →
        (Entry.action key a).StoredIn l := fun h => Option.map_eq_some_iff.mpr ⟨a', h, hrate⟩
    cases h with
    | authorized h =>
      rcases eq_some_of_ite ha' with ⟨rfl, hnew⟩ | hold
      · cases hnew
        exact .inr ⟨_, hrate, h⟩
      · exact .inl (hstored hold)
    | revoked =>
      rcases eq_some_of_ite ha' with ⟨-, hnew⟩ | hold
      · cases hnew
      · exact .inl (hstored hold)
    | rated feeNum feeDen live =>
      rcases eq_some_of_ite ha' with ⟨rfl, hnew⟩ | hold
      · cases hnew
        -- the same action at another rate
        exact .inl (Option.map_eq_some_iff.mpr ⟨_, live, hrate⟩)
      · exact .inl (hstored hold)
    | listed => exact .inl (hstored ha')
    | updated => exact .inl (hstored ha')
  | asset key a =>
    cases h with
    | listed h =>
      rcases eq_some_of_ite he with ⟨rfl, hnew⟩ | hold
      · cases hnew
        exact .inr ⟨h.signed, h.valid⟩
      · exact .inl hold
    | updated live signed valid =>
      rcases eq_some_of_ite he with ⟨rfl, hnew⟩ | hold
      · cases hnew
        exact .inr ⟨signed, valid⟩
      · exact .inl hold
    | authorized => exact .inl he
    | revoked => exact .inl he
    | rated => exact .inl he

theorem Redirected.stored_or_opens {r : Registrations}
    (h : Redirected rt l.world l.registrations accounts r) (he : e.StoredIn (.of l.world r)) :
    e.StoredIn l ∨ e.OpensIn rt l accounts := by
  cases e with
  | destination key d =>
    cases h with
    | registered h =>
      rcases eq_some_of_ite he with ⟨rfl, hnew⟩ | hold
      · cases hnew
        exact .inr h
      · exact .inl hold
    | revoked =>
      rcases eq_some_of_ite he with ⟨-, hnew⟩ | hold
      · cases hnew
      · exact .inl hold
  | _ => exact .inl he

theorem Change.stored_or_opens (h : Change rt accounts l l') (he : e.StoredIn l') :
    e.StoredIn l ∨ e.OpensIn rt l accounts := by
  cases h with
  | books h => exact h.stored_or_opens he
  | tables h => exact h.stored_or_opens he
  | destinations h => exact h.stored_or_opens he
  | beside => cases e <;> exact .inl he

/-! ### Runs -/

variable {d : Deployment} {tr : ProgramTrace}

theorem not_stored_in_new {g : Genesis} {args : InitializeVaultArgs}
    (h : tryInitializeVault rt g accounts args = .ok w) : ¬ e.StoredIn (.of w fun _ => none) := by
  simp only [tryInitializeVault, bind_eq_ok, Except.ok.injEq] at h
  obtain ⟨_, -, _, -, _, -, _, -, _, -, _, -, _, -, rfl⟩ := h
  intro he
  cases e <;> cases he

/-- A step of `tr` stored the record, and it has been there since. -/
def Entry.StoredSince (rt : Runtime) (tr : ProgramTrace) (e : Entry) : Prop :=
  ∃ before x between, tr = before ++ x :: between ∧ e.OpenedBy rt x ∧
    ∀ y ∈ between, e.In y.pre ∧ e.In y.post

/-- **Where a record comes from**: a step of the run stored it. -/
theorem exists_origin {g : Ground} (h : Run (ProgramStep rt) (.genesis g) tr d) (he : e.In d) :
    e.StoredSince rt tr := by
  rcases h.last_change (Q := fun d => e.In d) he with ⟨⟨_, hl, -⟩, -⟩ |
    ⟨before, x, between, rfl, hpre, ⟨l', hl', hstored⟩, hkept⟩
  · cases hl
  · refine ⟨before, x, between, rfl, ?_, hkept⟩
    obtain ⟨-, hstep, -⟩ := h.split
    cases hstage : x.pre.stage with
    | live l =>
      obtain ⟨l₁, hl₁, hmoved⟩ := hstep.moved hstage
      obtain rfl : l' = l₁ := Stage.live.inj (hl'.symm.trans hl₁)
      rcases hmoved.change.stored_or_opens hstored with hold | hopens
      · exact absurd ⟨l, hstage, hold⟩ hpre
      · exact ⟨l, hstage, hopens⟩
    | unborn g' =>
      rcases hstep.unborn hstage with ⟨_, hunborn⟩ | ⟨_, _, _, _, w, -, hw, hlive⟩
      · rw [hunborn] at hl'
        cases hl'
      · rw [Stage.live.inj (hl'.symm.trans hlive)] at hstored
        exact absurd hstored (not_stored_in_new hw)

/-! ### Calls -/

/-- **Every call goes back to the admin.**  An instruction of a run gives the same result on a
host that refuses every call but the one that names the shares and those that hash to an action
which the admin of the time authorized, earlier in the run, and nobody has revoked since. -/
theorem relayed_calls_authorized {g : Ground} {before after : ProgramTrace}
    {x : Transition Deployment ProgramEvent}
    (h : Run (ProgramStep rt) (.genesis g) (before ++ x :: after) d) {i : RoshiInstruction}
    {o : Surroundings} (hx : x.event = .call i accounts o) :
    tryProcessInstruction rt
      (o.only fun c seeds => ∃ l, x.pre.stage = .live l ∧
        Licensed rt l.world o.host.transaction
          (fun key a => (Entry.action key a).StoredSince rt before) i c seeds)
      x.pre accounts i = .ok x.post := by
  obtain ⟨hbefore, ⟨-, happly⟩, -⟩ := h.split
  rw [hx] at happly
  refine tryProcessInstruction_only ?_ happly
  intro l hl c seeds hlicensed
  refine ⟨l, hl, hlicensed.imp ?_⟩
  intro key a ha
  exact exists_origin hbefore ⟨l, hl, congrArg (Option.map Action.withoutRate) ha⟩

/-! ### External custody -/

theorem tryInvestExternal_paid {subAccount : U8} {amount : U64}
    (h : tryInvestExternal rt w accounts subAccount amount = .ok w') :
    ∃ program custody destination,
      Spl.transfer w.ledger program custody destination
        (subAccountAddress rt w.vaultKey subAccount).1 amount = .ok w'.ledger ∧
      w.destinations (externalDestinationAddress rt w.vaultKey destination).1 = true := by
  simp only [tryInvestExternal, transferSigned, World.verifySubAccount, bind_eq_ok, Prod.exists,
    rejectIf_eq_ok, storeValidated_eq_ok, Except.ok.injEq, not_not, Bool.not_eq_false] at h
  obtain ⟨_, -, _, _, -, vaultAccount, _, -, v, hv, _, -, _, -, _, -, _, -, sub, _, -, _,
    ⟨_, hsub, -⟩, custody, _, -, _, -, _, -, destination, _, -, _, -, _, -, registration, _, -, _,
    haddress, _, hthere, program, _, -, _, -, _, -, ledger, ⟨_, -, htransfer⟩, _, -, -, rfl⟩ := h
  simp only [loadWritableVaultAs, bind_eq_ok, Except.ok.injEq] at hv
  obtain ⟨_, -, _, hchecked, _, -, rfl⟩ := hv
  obtain ⟨-, hkey, -⟩ := loadChecked_eq_ok hchecked
  refine ⟨program.key, custody.key, destination.key, hsub ▸ htransfer, ?_⟩
  rw [← hkey, ← haddress]
  exact hthere

/-- **Base leaves for registered accounts only.**  An investment of a run pays the amount, out of
a custody of the sub-account it names, to the one token account of a registration that the admin
of the time made, earlier in the run, and nobody has revoked since. -/
theorem investments_registered {g : Ground} {before after : ProgramTrace}
    {x : Transition Deployment ProgramEvent}
    (h : Run (ProgramStep rt) (.genesis g) (before ++ x :: after) d) {subAccount : U8}
    {amount : U64} {o : Surroundings}
    (hx : x.event = .call (.investExternal subAccount amount) accounts o) :
    ∃ l l' program custody destination registered,
      x.pre.stage = .live l ∧ x.post.stage = .live l' ∧
      Spl.transfer l.world.ledger program custody destination
        (subAccountAddress rt l.world.vaultKey subAccount).1 amount = .ok l'.world.ledger ∧
      externalDestinationAddress rt l.world.vaultKey registered.tokenAccount =
        ((externalDestinationAddress rt l.world.vaultKey destination).1, registered.bump) ∧
      (Entry.destination (externalDestinationAddress rt l.world.vaultKey destination).1
        registered).StoredSince rt before := by
  obtain ⟨hbefore, ⟨-, happly⟩, -⟩ := h.split
  rw [hx, Deployment.apply, tryProcessInstruction] at happly
  obtain ⟨l, w', hl, hinvest, hpost⟩ := onWorld_eq_ok.mp happly
  obtain ⟨program, custody, destination, htransfer, hthere⟩ := tryInvestExternal_paid hinvest
  rw [l.destinations_eq, Option.isSome_iff_exists] at hthere
  obtain ⟨registered, hregistered⟩ := hthere
  refine ⟨l, _, program, custody, destination, registered, hl, congrArg Deployment.stage hpost,
    htransfer, ?_, exists_origin hbefore ⟨l, hl, hregistered⟩⟩
  exact ((addressed_of_run hbefore hl).destination _ _ hregistered).address

/-! ### A route and an investment -/

namespace Sample

/-- The sub-account and the route program on a chain of empty mints; a route moves nothing. -/
def relaying : Surroundings where
  host := routeHost
  bytes _ key :=
    if key = subAccount then ⟨SYSTEM_PROGRAM_ID, false, []⟩
    else if key = routeProgram then ⟨SYSTEM_PROGRAM_ID, true, []⟩
    else emptyMint

theorem relaying_neverMints : relaying.NeverMints shareMint := by
  have hlayout : isTokenProgram (relaying.bytes start.ledger shareMint).owner = true ∧
      82 ≤ (relaying.bytes start.ledger shareMint).data.length := by decide +kernel
  have hmint : ∀ l, (relaying.bytes l).ledger.mints shareMint = some emptyMint.toMint :=
    fun l => Chain.ledger_mints_eq_some (c := relaying.bytes l) hlayout
  constructor
  · intro l
    refine ⟨?_, fun _ => ⟨_, hmint l, by decide, by decide⟩⟩
    rw [Ledger.supply_of_some (hmint l)]
    exact Nat.zero_le _
  · intro i infos seeds c c' h
    cases h
    exact .refl _ _

def manageEvent : ProgramEvent := .call (.manage managedLeg.args) manageAccounts relaying

def managed : Deployment := okValue (deployed.apply routeRuntime manageEvent) (by decide +kernel)

theorem managed_step : ProgramStep routeRuntime deployed manageEvent managed := by
  refine ⟨?_, eq_okValue _⟩
  intro l hl
  obtain rfl : deployedLive = l := Stage.live.inj (deployed_live.symm.trans hl)
  have hmint : deployedLive.world.vault.shareMint = shareMint := by decide +kernel
  rw [hmint]
  exact relaying_neverMints

/-- The PDA of `["external_destination", vaultKey, userBase]`, bump 255. -/
def destinationKey : Pubkey :=
  #v[86, 46, 161, 35, 237, 138, 184, 192, 184, 84, 209, 114, 91, 234, 86, 98, 43, 61, 55, 65, 98,
    52, 198, 162, 157, 67, 233, 102, 6, 99, 249, 135]

def destinationRuntime : Runtime where
  findProgramAddress seeds program :=
    if seeds = [EXTERNAL_DESTINATION_SEED, vaultKey.toList, userBase.toList] then
      (destinationKey, 255)
    else runtime.findProgramAddress seeds program
  hashv _ := Bytes.zero 32

/-- Custody holds 5000 before the vault is there. -/
def fundedGround : Ground :=
  { ground with
    ledger := ground.ledger.setAccount custody (tokenAccount baseMint subAccount 5000) }

/-- The vault, external custody switched on, a destination. -/
def registerEvents : List ProgramEvent :=
  deployEvents.take 2 ++
    [.call (.updateVaultConfig
        { treasury, depositSubAccount := 0, withdrawSubAccount := 0, baseOracle := .default
          performanceFeeBps := 1000, withdrawalBufferBps := 0, depositCap := 0, controls
          externalEnabled := true } ⟨Bytes.zero 7, Bytes.zero 2⟩)
        [signer admin, writable vaultKey, readonly treasury] silent,
      .call .registerExternalDestination
        [signer admin, readonly vaultKey, readonly userBase, writable destinationKey,
          readonly SYSTEM_PROGRAM_ID] silent]

def registered : Deployment :=
  okValue (registerEvents.foldlM (Deployment.apply destinationRuntime) (.genesis fundedGround))
    (by decide +kernel)

def investEvent : ProgramEvent :=
  .call (.investExternal 0 3000)
    [signer admin, writable vaultKey, readonly subAccount, writable custody, writable userBase,
      readonly destinationKey, readonly TOKEN_PROGRAM_ID] silent

def investedAway : Deployment :=
  okValue (registered.apply destinationRuntime investEvent) (by decide +kernel)

theorem investedAway_run : ∃ tr, Run (ProgramStep destinationRuntime) (.genesis fundedGround)
    (tr ++ [⟨registered, investEvent, investedAway⟩]) investedAway := by
  have hok : registerEvents.foldlM (Deployment.apply destinationRuntime) (.genesis fundedGround) =
      .ok registered := eq_okValue _
  obtain ⟨tr, hrun, -⟩ := exists_run_of_foldlM hok (by
      intro e he d
      simp only [registerEvents, deployEvents, List.take_succ_cons, List.take_zero,
        List.cons_append, List.nil_append, List.mem_cons, List.not_mem_nil, or_false] at he
      rcases he with rfl | rfl | rfl | rfl <;> exact fun _ _ => silent_neverMints _)
  exact ⟨tr, hrun.append (.single ⟨fun _ _ => silent_neverMints _, eq_okValue _⟩)⟩

end Sample

/-- The route the admin authorized is relayed. -/
theorem relayed_calls_authorized_managed : ∃ tr l, Sample.deployed.stage = .live l ∧
    tryProcessInstruction Sample.routeRuntime
      (Sample.relaying.only fun c seeds => ∃ l, Sample.deployed.stage = .live l ∧
        Licensed Sample.routeRuntime l.world Sample.routeHost.transaction
          (fun key a => (Entry.action key a).StoredSince Sample.routeRuntime tr)
          (.manage Sample.managedLeg.args) c seeds)
      Sample.deployed Sample.manageAccounts (.manage Sample.managedLeg.args) =
        .ok Sample.managed := by
  obtain ⟨tr, hrun, -⟩ := Sample.deployed_run
  exact ⟨tr, _, Sample.deployed_live,
    relayed_calls_authorized (hrun.append (.single Sample.managed_step)) rfl⟩

theorem investments_registered_away : ∃ tr destination registered,
    (Entry.destination destination registered).StoredSince Sample.destinationRuntime tr := by
  obtain ⟨tr, hrun⟩ := Sample.investedAway_run
  obtain ⟨_, _, _, _, _, registered, -, -, -, -, horigin⟩ := investments_registered hrun rfl
  exact ⟨tr, _, registered, horigin⟩

end Roshi

import Roshi.Invariants
import Roshi.Program
import Roshi.Writes

/-!
# The program refines the vault system

A relay may do what the programs it calls do, and they do not mint shares; the registries are
not the books; another vault's initialization makes another mint.  So every run of the program
that relays no call of itself is, from the initialization of the vault on, a run of the system of
`Roshi.System`, with the same instructions (`program_refines`), and what holds in the states of
that system holds of the deployed vault.
-/

namespace Roshi

open Lib

variable (rt : Runtime)

/-- The event of the system that `e` is to a vault in the state `w`. -/
def ProgramEvent.IsTo (w : World) (e : ProgramEvent) (e' : Event) : Prop :=
  match e with
  | .call i accounts o =>
    match systemInstruction rt o w accounts i with
    | some j => e' = .instruction j
    | none => ∃ env, e' = .environment env
  | .tick clock => e' = .tick clock
  | .environment .. => ∃ env, e' = .environment env

variable {rt} {o : Surroundings} {d d' : Deployment} {accounts : List AccountInfo}
  {i : RoshiInstruction}

/-! ### Relays and the share mint -/

section Keeps

variable {R : Ledger → Ledger → Prop} {chain chain' : Chain}

/-- The programs called, and the accounts behind a ledger, change tokens within `R` only. -/
structure Surroundings.Keeps (o : Surroundings) (R : Ledger → Ledger → Prop) : Prop where
  bytes : ∀ l, R l (o.bytes l).ledger
  invoke : ∀ i infos seeds c c', o.host.invoke i infos seeds c = .ok c' → R c.ledger c'.ledger

theorem settleAuthorizedCpi_keeps (ho : o.Keeps R) {cpi : AuthorizedCpi} {action : Action}
    {infos : List AccountInfo}
    (h : settleAuthorizedCpi o.host cpi action infos chain = .ok chain') :
    R chain.ledger chain'.ledger := by
  rw [settleAuthorizedCpi] at h
  cases hscope : action.scope <;> simp only [hscope] at h
  case manager =>
    simp only [relayScanned, bind_eq_ok, Except.ok.injEq] at h
    obtain ⟨_, -, _, hinvoke, _, -, rfl⟩ := h
    exact ho.invoke _ _ _ _ _ hinvoke
  case flashApprove =>
    simp only [bind_eq_ok, Except.ok.injEq] at h
    obtain ⟨_, -, _, -, _, -, _, -, _, -, _, -, _, hinvoke, _, -, _, -, rfl⟩ := h
    exact ho.invoke _ _ _ _ _ hinvoke
  all_goals cases h

theorem runLeg_keeps (ho : o.Keeps R) {records : Chain → World} {shared : ManageShared}
    {leg : ManageLeg} (h : runLeg rt o.host records shared chain leg = .ok chain') :
    R chain.ledger chain'.ledger := by
  simp only [runLeg, bind_eq_ok] at h
  obtain ⟨_, -, _, -, h⟩ := h
  exact settleAuthorizedCpi_keeps ho h

theorem relayInstruction_keeps [IsPreorder Ledger R] (ho : o.Keeps R) {w : World}
    {x : ProgramResult Chain} (hx : relayInstruction rt o w accounts i = some x)
    (h : x = .ok chain) : R (o.bytes w.ledger).ledger chain.ledger := by
  subst h
  cases i
  case manage args =>
    have h := Option.some.inj hx
    simp only [tryManage, bind_eq_ok, Prod.exists] at h
    obtain ⟨shared, leg, -, h⟩ := h
    exact runLeg_keeps ho h
  case manageBatch actions =>
    have h := Option.some.inj hx
    simp only [tryManageBatch, bind_eq_ok, Prod.exists] at h
    obtain ⟨shared, legs, -, h⟩ := h
    obtain ⟨tr, hrun, -⟩ := run_of_foldlM h
    refine hrun.invariant (P := fun c => R (o.bytes w.ledger).ledger c.ledger)
      (refl_of R _) ?_
    intro y _ hstep hkept
    exact trans_of R hkept (runLeg_keeps ho hstep)
  case swap args =>
    have h := Option.some.inj hx
    simp only [trySwap, bind_eq_ok, Except.ok.injEq] at h
    obtain ⟨_, hload, _, hflow, _, -, rfl⟩ := h
    obtain ⟨_, -, hs⟩ := executeSwapCpi_spec hload hflow
    exact ho.invoke _ _ _ _ _ hs.invoked
  case setShareMetadata args =>
    have h := Option.some.inj hx
    simp only [trySetShareMetadata, bind_eq_ok] at h
    obtain ⟨_, -, _, -, h⟩ := h
    exact ho.invoke _ _ _ _ _ h
  all_goals cases hx

theorem unwound_keeps [IsPreorder Ledger R] (ho : o.Keeps R) {w : World} {args : UnwindArgs}
    {l l' : Ledger} (h : o.unwound rt w accounts args l = .ok l') : R l l' := by
  simp only [Surroundings.unwound, UnwindCall.unwound, bind_eq_ok, Except.ok.injEq] at h
  obtain ⟨_, -, _, -, _, hinvoke, rfl⟩ := h
  exact trans_of R (ho.bytes l) (ho.invoke _ _ _ _ _ hinvoke)

theorem deployed_keeps [IsPreorder Ledger R] (ho : o.Keeps R) {w : World} {args : DeployArgs}
    {l l' : Ledger} (h : deployed rt o.host o.bytes w accounts args l = .ok l') : R l l' := by
  simp only [deployed, relayScanned, bind_eq_ok, Except.ok.injEq] at h
  obtain ⟨_, -, _, -, _, ⟨_, -, _, hinvoke, _, -, rfl⟩, rfl⟩ := h
  exact trans_of R (ho.bytes l) (ho.invoke _ _ _ _ _ hinvoke)

end Keeps

section NeverMints

variable {mint : Pubkey}

instance : IsPreorder Ledger (Ledger.MintKept mint) where
  refl := .refl mint
  trans _ _ _ h h' := h.trans h'

theorem Surroundings.NeverMints.keeps (h : o.NeverMints mint) : o.Keeps (Ledger.MintKept mint) :=
  ⟨h.bytes, h.invoke⟩

/-- The call of another program that mints nothing. -/
theorem Call.ledger_neverMints {run : Ledger → ProgramResult Ledger}
    (h : ∀ l l', run l = .ok l' → Ledger.MintKept mint l l') :
    (Call.ledger run).NeverMints mint := by
  refine ⟨?_, trivial⟩
  intro env env' henv
  obtain ⟨l, hl, henv⟩ := bind_eq_ok.mp henv
  cases henv
  exact h _ _ hl

theorem systemInstruction_admissible (ho : o.NeverMints mint) {w : World} {j : Instruction}
    (hj : systemInstruction rt o w accounts i = some j) :
    j.Admissible mint ∧ j.outward = true := by
  cases i
  all_goals simp only [systemInstruction, Option.some.injEq, reduceCtorEq] at hj
  all_goals subst hj
  case depositAndDeploy args =>
    exact ⟨⟨Call.ledger_neverMints fun _ _ h => deployed_keeps ho.keeps h, rfl⟩, rfl⟩
  case atomicRedeem args =>
    exact ⟨Call.ledger_neverMints fun _ _ h => unwound_keeps ho.keeps h, rfl⟩
  all_goals exact ⟨trivial, rfl⟩

end NeverMints

/-! ### One step -/

section Steps

variable {l l' : Live} {w w' : World}

/-- What leaves the record, the tickets and the mint is a step of the environment. -/
theorem step_beside (hw : w' = { w with
      assets := w'.assets
      actions := w'.actions
      destinations := w'.destinations
      ledger := w'.ledger
      prices := w'.prices }) (h : Ledger.MintKept w.vault.shareMint w.ledger w'.ledger) :
    ∃ env, OutwardStep rt w (.environment env) w' := by
  refine ⟨w'.environment, ⟨h, ?_⟩, rfl⟩
  rw [apply, World.under, World.environment, ← hw]

/-- The tables of actions and assets are beside the books. -/
theorem Tabled.step (h : Tabled rt w accounts w') :
    (∃ env, OutwardStep rt w (.environment env) w') ∧ w'.destinations = w.destinations := by
  cases h
  all_goals exact ⟨step_beside rfl (.refl _ _), rfl⟩

/-- The four kinds of calls over a vault are four. -/
theorem systemInstruction_eq_none (l : Live)
    (h : (tableInstruction rt l.world accounts i).isSome = true ∨
      (registrationInstruction rt l.world l.registrations accounts i).isSome = true ∨
      (relayInstruction rt o l.world accounts i).isSome = true) :
    systemInstruction rt o l.world accounts i = none := by
  cases i
  all_goals
    first
    | rfl
    | simp [tableInstruction, registrationInstruction, relayInstruction] at h

theorem isTo_call_of_none {e' : Event} (h : systemInstruction rt o w accounts i = none) :
    (ProgramEvent.call i accounts o).IsTo rt w e' ↔ ∃ env, e' = .environment env := by
  rw [ProgramEvent.IsTo, h]

theorem systemInstruction_of_vaultless (h : i.vaultless = true) :
    systemInstruction rt o w accounts i = none := by
  cases i
  all_goals
    first
    | rfl
    | cases h

/-- **A call over a vault is one step of the vault system.** -/
theorem Acted.step (ho : o.NeverMints l.world.vault.shareMint) (h : Acted rt o accounts i l l') :
    ∃ e, (ProgramEvent.call i accounts o).IsTo rt l.world e ∧
      OutwardStep rt l.world e l'.world := by
  have hbeside : systemInstruction rt o l.world accounts i = none →
      (∃ env, OutwardStep rt l.world (.environment env) l'.world) →
      ∃ e, (ProgramEvent.call i accounts o).IsTo rt l.world e ∧
        OutwardStep rt l.world e l'.world := by
    rintro hnone ⟨env, hstep⟩
    exact ⟨_, (isTo_call_of_none hnone).mpr ⟨env, rfl⟩, hstep⟩
  cases h with
  | @system j w hj h =>
    have hw := exec_writes (systemInstruction_tokensOnly hj) h
    obtain ⟨hadmissible, hout⟩ := systemInstruction_admissible ho hj
    refine ⟨.instruction j, ?_, ⟨hadmissible, ?_⟩, hout⟩
    · rw [ProgramEvent.IsTo, hj]
    · rw [Live.of_world (hw.destinations_eq.trans l.destinations_eq)]
      exact h
  | table hx h =>
    obtain ⟨hstep, hd⟩ := (tableInstruction_tabled hx h).step
    refine hbeside (systemInstruction_eq_none l (.inl ?_)) ?_
    · rw [hx]
      rfl
    · rw [Live.of_world (hd.trans l.destinations_eq)]
      exact hstep
  | registration hx h =>
    refine hbeside (systemInstruction_eq_none l (.inr (.inl ?_))) (step_beside rfl (.refl _ _))
    rw [hx]
    rfl
  | relay hx h =>
    refine hbeside (systemInstruction_eq_none l (.inr (.inr ?_)))
      (step_beside rfl ((ho.bytes l.world.ledger).trans (relayInstruction_keeps ho.keeps hx h)))
    rw [hx]
    rfl

/-- Initializing a vault makes one mint, at an address where none was. -/
theorem tryInitializeVault_mint {g : Genesis} {args : InitializeVaultArgs}
    (h : tryInitializeVault rt g accounts args = .ok w) :
    g.ledger.programOf w.vault.shareMint = none ∧
      w.ledger = g.ledger.setMint w.vault.shareMint (newShareMint w.vaultKey) := by
  simp only [tryInitializeVault, bind_eq_ok, Except.ok.injEq] at h
  obtain ⟨c, hc, _, -, v, hv, _, -, _, -, _, -, _, -, rfl⟩ := h
  obtain ⟨-, hmint, -⟩ := new_spec hv
  simp only [InitializeVaultContext.load, bind_eq_ok, Prod.exists, Except.ok.injEq,
    Genesis.requireUninitializedAccount, rejectIf_eq_ok, not_or, Bool.not_eq_true,
    Option.isSome_eq_false_iff, Option.isNone_iff_eq_none] at hc
  obtain ⟨_, _, -, _, _, -, _, _, -, _, -, _, _, -, _, -, _, _, -, shareMint, _, -, _, -, _,
    ⟨-, hnew⟩, _, _, -, _, _, -, _, -, _, _, -, _, -, _, -, _, -, _, _, -, _, -, _, -, rfl⟩ := hc
  rw [hmint]
  exact ⟨hnew, rfl⟩

theorem tryInitializeVault_mintKept {g : Genesis} {args : InitializeVaultArgs} {mint : Pubkey}
    (h : tryInitializeVault rt g accounts args = .ok w) :
    Ledger.MintKept mint g.ledger w.ledger := by
  obtain ⟨hnew, hledger⟩ := tryInitializeVault_mint h
  exact hledger ▸ Ledger.mintKept_setMint hnew rfl

/-- The vault of `d` is there, in the state `w`. -/
def Deployment.LiveAt (d : Deployment) (w : World) : Prop := ∃ l, d.stage = .live l ∧ l.world = w

def Deployment.live? (d : Deployment) : Option Live :=
  match d.stage with
  | .unborn _ => none
  | .live l => some l

theorem live?_eq_some : d.live? = some l ↔ d.stage = .live l := by
  rw [Deployment.live?]
  cases d.stage <;> simp

theorem Deployment.LiveAt.clock_eq (h : d.LiveAt w) : d.clock = w.clock := by
  obtain ⟨l, hl, rfl⟩ := h
  rw [Deployment.clock, hl]

theorem tryInitializeVault_world {g : Genesis} {args : InitializeVaultArgs}
    (h : tryInitializeVault rt g accounts args = .ok w) : (Live.of w fun _ => none).world = w := by
  simp only [tryInitializeVault, bind_eq_ok, Except.ok.injEq] at h
  obtain ⟨_, -, _, -, _, -, _, -, _, -, _, -, _, -, rfl⟩ := h
  rfl

end Steps

variable {e : ProgramEvent} {l l' : Live} {g : Ground} {w w' : World}

/-- **A vault that is there makes a step of the system**, whatever the program is asked to do. -/
theorem Moved.step (ha : d.Admits e) (hl : d.stage = .live l) (h : Moved rt d l e l') :
    ∃ e', e.IsTo rt l.world e' ∧ OutwardStep rt l.world e' l'.world := by
  cases h with
  | acted h => exact h.step (ha l hl)
  | @kept i accounts o hi =>
    obtain ⟨env, hstep⟩ : ∃ env, OutwardStep rt l.world (.environment env) l.world :=
      step_beside rfl (.refl _ _)
    exact ⟨_, (isTo_call_of_none (systemInstruction_of_vaultless hi)).mpr ⟨env, rfl⟩, hstep⟩
  | @neighbour args padding accounts o w hw =>
    have hkept : Ledger.MintKept l.world.vault.shareMint (d.ground rt).ledger w.ledger :=
      tryInitializeVault_mintKept hw
    have hledger : (d.ground rt).ledger = l.world.ledger := by
      rw [Deployment.ground, Deployment.ledger, hl]
    obtain ⟨env, hstep⟩ : ∃ env, OutwardStep rt l.world (.environment env)
        (Live.of { l.world with ledger := w.ledger } l.registrations).world :=
      step_beside rfl (hledger ▸ hkept)
    exact ⟨_, (isTo_call_of_none rfl).mpr ⟨env, rfl⟩, hstep⟩
  | tick clock =>
    refine ⟨.tick clock, rfl, ⟨trivial, ?_⟩, rfl⟩
    exact congrArg Except.ok (Live.of_world (w := { l.world with clock }) l.destinations_eq).symm
  | environment occupied ledger prices =>
    obtain ⟨env, hstep⟩ : ∃ env, OutwardStep rt l.world (.environment env)
        (Live.of { l.world with ledger, prices } l.registrations).world :=
      step_beside rfl (ha l hl)
    exact ⟨_, ⟨env, rfl⟩, hstep⟩

/-! ### Runs -/

/-- No step of the trace moves the clock back. -/
def ProgramForward (tr : ProgramTrace) : Prop :=
  ∀ x ∈ tr, x.pre.clock.unixTimestamp.toInt ≤ x.post.clock.unixTimestamp.toInt

/-- `y` is what `x` is to the vault.  A call of the program by itself would write the records, as
`Call.own` does; nothing in `Roshi.Program` follows that. -/
structure Mirrors (rt : Runtime) (x : Transition Deployment ProgramEvent)
    (y : Transition World Event) : Prop where
  outward : x.event.Outward
  pre : x.pre.LiveAt y.pre
  event : x.event.IsTo rt y.pre y.event
  post : x.post.LiveAt y.post

variable {tr : ProgramTrace}

/-- From a vault that is there on, a run of the program is a run of the system. -/
theorem run_mirrors (h : Run (ProgramStep rt) d tr d') (hout : ProgramOutward tr)
    (hd : d.LiveAt w) :
    ∃ tr' w', Run (OutwardStep rt) w tr' w' ∧ d'.LiveAt w' ∧ List.Forall₂ (Mirrors rt) tr tr' := by
  refine h.simulate (R := Deployment.LiveAt) hd ?_
  rintro x hx hstep _ ⟨l, hl, rfl⟩
  obtain ⟨l', hl', hmoved⟩ := hstep.moved hl
  obtain ⟨e', hto, hs⟩ := hmoved.step hstep.admits hl
  exact ⟨e', l'.world, hs, ⟨l', hl', rfl⟩, hout x hx, ⟨l, hl, rfl⟩, hto, ⟨l', hl', rfl⟩⟩

/-- A vault that is there was initialized by some step of the run. -/
theorem exists_initialization (h : Run (ProgramStep rt) (.genesis g) tr d) (hd : d.LiveAt w) :
    ∃ before x after w₀, tr = before ++ x :: after ∧ Initial rt w₀ ∧ x.post.LiveAt w₀ ∧
      Run (ProgramStep rt) x.post after d := by
  rcases h.last_change (Q := fun d => ∃ w, d.LiveAt w) ⟨w, hd⟩ with ⟨⟨_, l, hl, -⟩, -⟩ |
    ⟨before, x, after, rfl, hpre, ⟨w₁, l, hl, -⟩, -⟩
  · cases hl
  · obtain ⟨-, hstep, hrest⟩ := h.split
    cases hstage : x.pre.stage with
    | live l => exact absurd ⟨_, l, hstage, rfl⟩ hpre
    | unborn g' =>
      rcases hstep.unborn hstage with ⟨_, hunborn⟩ | ⟨args, _, accounts, _, w₀, -, hinit, hlive⟩
      · rw [hunborn] at hl
        cases hl
      · exact ⟨before, x, after, w₀, rfl, ⟨_, accounts, args, hinit⟩,
          ⟨_, hlive, tryInitializeVault_world hinit⟩, hrest⟩

theorem Deployment.LiveAt.unique (h : d.LiveAt w) (h' : d.LiveAt w') : w = w' := by
  obtain ⟨l, hl, rfl⟩ := h
  obtain ⟨l', hl', rfl⟩ := h'
  rw [Stage.live.inj (hl.symm.trans hl')]

/-- **The program refines the vault system.**  In every run from the deployment on that relays no
call of the program itself, a vault that is there was initialized by some step, and the steps
since are steps of the system. -/
theorem program_refines (h : Run (ProgramStep rt) (.genesis g) tr d) (hout : ProgramOutward tr)
    (hd : d.LiveAt w) :
    ∃ before x after w₀ tr', tr = before ++ x :: after ∧ Initial rt w₀ ∧ x.post.LiveAt w₀ ∧
      Run (OutwardStep rt) w₀ tr' w ∧ List.Forall₂ (Mirrors rt) after tr' := by
  obtain ⟨before, x, after, w₀, rfl, hinitial, hw₀, hrest⟩ := exists_initialization h hd
  have hafter : ProgramOutward after := fun y hy =>
    hout y (List.mem_append_right _ (List.mem_cons_of_mem _ hy))
  obtain ⟨tr', w', hrun, hd', hall⟩ := run_mirrors hrest hafter hw₀
  exact ⟨before, x, after, w₀, tr', rfl, hinitial, hw₀, hd.unique hd' ▸ hrun, hall⟩

/-- Transitions that mirror each other have the same clocks. -/
theorem forward_of_mirrors {tr' : Trace} (h : List.Forall₂ (Mirrors rt) tr tr')
    (hf : ProgramForward tr) : Forward tr' := by
  induction h with
  | nil => exact fun _ h => nomatch h
  | @cons x y _ _ hxy _ ih =>
    have hx := hf x List.mem_cons_self
    rw [hxy.pre.clock_eq, hxy.post.clock_eq] at hx
    intro z hz
    rcases List.mem_cons.mp hz with rfl | hz
    · exact hx
    · exact ih (fun x hx => hf x (List.mem_cons_of_mem _ hx)) z hz

/-- The vault of a run is a reachable one of the system. -/
theorem program_reachable (h : Run (ProgramStep rt) (.genesis g) tr d) (hout : ProgramOutward tr)
    (hd : d.LiveAt w) : Books w ∧ (ProgramForward tr → ReachableOutward rt w) := by
  obtain ⟨before, x, after, w₀, tr', rfl, hinitial, -, hrun, hall⟩ := program_refines h hout hd
  obtain ⟨hsteps, hsystem⟩ := run_of_outward hrun
  refine ⟨hinitial.books.run hrun, ?_⟩
  intro hf
  refine ⟨w₀, tr', hinitial, hsteps, forward_of_mirrors hall ?_, hsystem⟩
  intro y hy
  exact hf y (List.mem_append_right _ (List.mem_cons_of_mem _ hy))

/-- **The books of a deployed vault.**  In every run of the program that relays no call of itself
the stored vault validates, its tickets are unpriced and add up to the requested shares; with a
clock that never goes back, its unlock window is anchored and its share mint there to be read. -/
theorem program_sound (h : Run (ProgramStep rt) (.genesis g) tr d) (hout : ProgramOutward tr)
    (hd : d.LiveAt w) : Books w ∧ (ProgramForward tr → Sound w) := by
  obtain ⟨hbooks, hforward⟩ := program_reachable h hout hd
  exact ⟨hbooks, fun hf => (hforward hf).forward.sound⟩

/-- The record itself stands whatever is called. -/
theorem program_standing (h : Run (ProgramStep rt) (.genesis g) tr d) (hd : d.LiveAt w) :
    Standing w := by
  obtain ⟨_, x, after, w₀, rfl, hinitial, hw₀, hrest⟩ := exists_initialization h hd
  have hinv := hrest.invariant (P := fun d => ∃ w, d.LiveAt w ∧ Standing w)
    ⟨w₀, hw₀, hinitial.standing⟩ ?_
  · obtain ⟨w', hw', hs⟩ := hinv
    exact hd.unique hw' ▸ hs
  · rintro y - hstep ⟨_, ⟨l, hl, rfl⟩, hs⟩
    obtain ⟨l', hl', hmoved⟩ := hstep.moved hl
    obtain ⟨_, -, hsystem⟩ := hmoved.step hstep.admits hl
    exact ⟨l'.world, ⟨l', hl', rfl⟩, hs.step hsystem.toStep⟩

/-- Events that are admitted anywhere and all succeed make a run. -/
theorem exists_run_of_foldlM {es : List ProgramEvent}
    (h : es.foldlM (Deployment.apply rt) d = .ok d')
    (ha : ∀ e ∈ es, ∀ d : Deployment, d.Admits e) :
    ∃ tr, Run (ProgramStep rt) d tr d' ∧ tr.map Transition.event = es := by
  obtain ⟨tr, hrun, hes⟩ := run_of_foldlM h
  refine ⟨tr, ?_, hes⟩
  rw [← hes] at ha
  clear h hes
  induction hrun with
  | nil => exact .nil _
  | cons hstep _ ih =>
    refine .cons ⟨ha _ List.mem_cons_self _, hstep⟩ (ih ?_)
    intro e he
    exact ha e (List.mem_cons_of_mem _ he)

theorem Chain.ledger_mints_eq_some {c : Chain} {key : Pubkey}
    (h : isTokenProgram (c key).owner = true ∧ 82 ≤ (c key).data.length) :
    c.ledger.mints key = some (c key).toMint := if_pos h

namespace Sample

def emptyMint : RawAccount :=
  ⟨TOKEN_PROGRAM_ID, false, List.replicate 45 0 ++ [1] ++ List.replicate 36 0⟩

/-- A transaction in which no call succeeds; every account is an empty mint. -/
def silent : Surroundings where
  host := { transaction := routeHost.transaction, invoke := fun _ _ _ _ => .error .cpi }
  bytes _ _ := emptyMint

theorem silent_outward : silent.Outward := by
  intro i infos seeds c c' h
  cases h

theorem silent_neverMints (mint : Pubkey) : silent.NeverMints mint := by
  have hlayout : isTokenProgram emptyMint.owner = true ∧ 82 ≤ emptyMint.data.length := by decide
  have hmint : ∀ l, (silent.bytes l).ledger.mints mint = some emptyMint.toMint :=
    fun l => Chain.ledger_mints_eq_some (c := silent.bytes l) hlayout
  constructor
  · intro l
    refine ⟨?_, fun _ => ⟨_, hmint l, by decide, by decide⟩⟩
    rw [Ledger.supply_of_some (hmint l)]
    exact Nat.zero_le _
  · intro i infos seeds c c' h
    cases h

def ground : Ground where
  occupied _ := false
  ledger := ledger 6 1000000000000
  prices _ _ _ := .error .invalidArgument
  clock := { slot := 1000, unixTimestamp := 1700000000 }

def routeArgs : AuthorizeActionArgs where
  actionHash := routeDigest
  scope := .manager
  ops := routeOps
  amountOffset := 0
  feeNum := 0
  feeDen := 1

/-- The program's key signs, the authority opens a vault, its admin authorizes a route. -/
def deployEvents : List ProgramEvent :=
  [.call (.initializeProgram admin)
      [signer admin, signer ID, writable programConfig, readonly SYSTEM_PROGRAM_ID] silent,
    .call (.initializeVault (initializeArgs 6 1000) ⟨Bytes.zero 7, Bytes.zero 2⟩)
      initializeAccounts silent,
    .tick { slot := 1001, unixTimestamp := 1700000001 },
    .call (.authorizeAction routeArgs)
      [signer admin, readonly vaultKey, writable routeKey, readonly SYSTEM_PROGRAM_ID] silent]

theorem deployEvents_admitted : ∀ e ∈ deployEvents, ∀ d : Deployment, d.Admits e := by
  intro e he d
  simp only [deployEvents, List.mem_cons, List.not_mem_nil, or_false] at he
  rcases he with rfl | rfl | rfl | rfl
  · exact fun _ _ => silent_neverMints _
  · exact fun _ _ => silent_neverMints _
  · exact trivial
  · exact fun _ _ => silent_neverMints _

def deployed : Deployment :=
  okValue (deployEvents.foldlM (Deployment.apply routeRuntime) (.genesis ground))
    (by decide +kernel)

theorem deployed_run : ∃ tr, Run (ProgramStep routeRuntime) (.genesis ground) tr deployed ∧
    tr.map Transition.event = deployEvents :=
  exists_run_of_foldlM (eq_okValue _) deployEvents_admitted

theorem deployEvents_outward : ∀ e ∈ deployEvents, e.Outward := by
  intro e he
  simp only [deployEvents, List.mem_cons, List.not_mem_nil, or_false] at he
  rcases he with rfl | rfl | rfl | rfl
  · exact silent_outward
  · exact silent_outward
  · exact trivial
  · exact silent_outward

/-- The vault the run leaves. -/
def deployedLive : Live := deployed.live?.get (by decide +kernel)

theorem deployed_live : deployed.stage = .live deployedLive :=
  live?_eq_some.mp (Option.some_get _).symm

end Sample

theorem program_refines_deployed : ∃ w₀ tr', Initial Sample.routeRuntime w₀ ∧
    Run (OutwardStep Sample.routeRuntime) w₀ tr' Sample.deployedLive.world := by
  obtain ⟨tr, hrun, hevents⟩ := Sample.deployed_run
  have hout : ProgramOutward tr := fun x hx =>
    Sample.deployEvents_outward _ (hevents ▸ List.mem_map_of_mem hx)
  obtain ⟨_, _, _, w₀, tr', -, hinitial, -, hsystem, -⟩ :=
    program_refines hrun hout ⟨_, Sample.deployed_live, rfl⟩
  exact ⟨w₀, tr', hinitial, hsystem⟩

theorem program_sound_deployed : Books Sample.deployedLive.world := by
  obtain ⟨tr, hrun, hevents⟩ := Sample.deployed_run
  have hout : ProgramOutward tr := fun x hx =>
    Sample.deployEvents_outward _ (hevents ▸ List.mem_map_of_mem hx)
  exact (program_sound hrun hout ⟨_, Sample.deployed_live, rfl⟩).1

end Roshi

import Roshi.Addresses

/-!
# Who mints the shares

The token program lets the authority of a mint alone change it, and the program, which signs for
the vault, never does.  So the vault stays the authority of its share mint in every run in which
the programs called and everybody else leave it (`mintAuthority_of_run`).
-/

namespace Roshi

open Lib

/-! ### The authority of a mint -/

namespace Ledger

variable {l l' l'' : Ledger} {mint key : Pubkey}

def mintAuthority (l : Ledger) (mint : Pubkey) : Option Pubkey :=
  (l.mints mint).bind Mint.mintAuthority

theorem mintAuthority_eq_some {authority : Pubkey} : l.mintAuthority mint = some authority ↔
    ∃ m, l.mints mint = some m ∧ m.mintAuthority = some authority :=
  Option.bind_eq_some_iff

/-- The authority of `mint`, once there, stays. -/
def AuthorityKept (mint : Pubkey) (l l' : Ledger) : Prop :=
  ∀ authority, l.mintAuthority mint = some authority → l'.mintAuthority mint = some authority

instance : IsPreorder Ledger (AuthorityKept mint) where
  refl _ _ h := h
  trans _ _ _ h h' authority ha := h' authority (h authority ha)

theorem AuthorityKept.trans (h : AuthorityKept mint l l') (h' : AuthorityKept mint l' l'') :
    AuthorityKept mint l l'' := trans_of _ h h'

theorem AuthorityKept.of_mints (h : l'.mints = l.mints) : AuthorityKept mint l l' := by
  intro authority ha
  rw [mintAuthority, h]
  exact ha

/-- A mint in the place of one with the same authority, or of none. -/
theorem AuthorityKept.setMint {m : Mint}
    (hm : ∀ m', l.mints key = some m' → m.mintAuthority = m'.mintAuthority) :
    AuthorityKept mint l (l.setMint key m) := by
  intro authority ha
  obtain ⟨m', hm', hauthority⟩ := mintAuthority_eq_some.mp ha
  rw [mintAuthority_eq_some]
  rcases eq_or_ne mint key with rfl | hne
  · exact ⟨m, by simp [Ledger.setMint], (hm m' hm').trans hauthority⟩
  · exact ⟨m', by simp [Ledger.setMint, hne, hm'], hauthority⟩

end Ledger

namespace Spl

variable {l l' : Ledger} {program source destination authority mint key : Pubkey} {amount : U64}

theorem mintTo_authorityKept (h : mintTo l program mint destination authority amount = .ok l') :
    Ledger.AuthorityKept key l l' := by
  simp only [mintTo, bind_eq_ok, Except.ok.injEq] at h
  obtain ⟨_, -, -, -, m, hm, -, -, _, -, _, -, rfl⟩ := h
  refine Ledger.AuthorityKept.trans (.of_mints rfl) (.setMint ?_)
  intro m' hm'
  obtain rfl := Option.some.inj ((usableMint_eq_ok hm).symm.trans hm')
  rfl

theorem burn_authorityKept (h : burn l program source mint authority amount = .ok l') :
    Ledger.AuthorityKept key l l' := by
  simp only [burn, bind_eq_ok, Except.ok.injEq] at h
  obtain ⟨_, -, _, -, m, hm, _, -, _, -, _, -, rfl⟩ := h
  refine Ledger.AuthorityKept.trans (.of_mints rfl) (.setMint ?_)
  intro m' hm'
  obtain rfl := Option.some.inj ((usableMint_eq_ok hm).symm.trans hm')
  rfl

end Spl

/-! ### One lemma per instruction -/

variable {rt : Runtime} {w w' : World} {accounts : List AccountInfo} {mint : Pubkey}

/-- What the instruction calls, if it does, keeps the authority of `mint`. -/
def Instruction.SparesAuthority (rt : Runtime) (mint : Pubkey) : Instruction → Prop
  | .depositAndDeploy _ _ _ call =>
    ∀ w w', callRun rt w call = .ok w' → Ledger.AuthorityKept mint w.ledger w'.ledger
  | .atomicRedeem _ _ _ call =>
    ∀ w w', callRun rt w call = .ok w' → Ledger.AuthorityKept mint w.ledger w'.ledger
  | _ => True

theorem executeDeposit_authorityKept {c : DepositContext} {args : DepositArgs} (hc : c.Loaded w)
    (h : executeDeposit rt w c args = .ok w') : Ledger.AuthorityKept mint w.ledger w'.ledger := by
  obtain ⟨_, _, _, _, _, l, l', -, -, -, -, -, htransfer, hmint, rfl⟩ := executeDeposit_spec hc h
  exact Ledger.AuthorityKept.trans (.of_mints (Spl.transfer_spec htransfer).1)
    (Spl.mintTo_authorityKept hmint)

theorem tryProcessWithdrawals_authorityKept (h : tryProcessWithdrawals rt w accounts = .ok w') :
    Ledger.AuthorityKept mint w.ledger w'.ledger := by
  simp only [tryProcessWithdrawals, process, bind_eq_ok, Prod.exists, Except.ok.injEq] at h
  obtain ⟨_, -, _, -, _, _, _, -, _, -, _, _, hsettle, _, -, _, -, rfl⟩ := h
  exact .of_mints (settleAll_spec hsettle).1

theorem updateWritableVaultAsAdmin_authorityKept {update : Vault → ProgramResult Vault}
    (h : updateWritableVaultAsAdmin rt w accounts update = .ok w') :
    Ledger.AuthorityKept mint w.ledger w'.ledger := by
  obtain ⟨_, -, -, rfl⟩ := updateWritableVaultAsAdmin_spec h
  exact .of_mints rfl

theorem applyNavReport_authorityKept {args : NavReport} {kind : ReportKind}
    (h : applyNavReport rt w accounts args kind = .ok w') :
    Ledger.AuthorityKept mint w.ledger w'.ledger := by
  obtain ⟨_, _, _, -, -, -, -, -, rfl⟩ := applyNavReport_spec h
  exact .of_mints rfl

/-- **No instruction changes the authority of a mint**: it transfers, mints and burns only. -/
theorem exec_authorityKept {i : Instruction} (hi : i.SparesAuthority rt mint)
    (h : exec rt w i = .ok w') : Ledger.AuthorityKept mint w.ledger w'.ledger := by
  cases i with
  | deposit =>
    simp only [exec, tryDeposit, bind_eq_ok] at h
    obtain ⟨_, -, c, hc, h⟩ := h
    exact executeDeposit_authorityKept (DepositContext.load_spec hc) h
  | depositAndDeploy accounts args authorize call =>
    simp only [exec, tryDepositAndDeploy, bind_eq_ok, Prod.exists] at h
    obtain ⟨_, -, _, -, c, hc, _, _, -, _, _, -, _, -, _, -, _, -, _, -, _, -, _, -, _, -, _, -,
      _, -, w₁, hw₁, hcall⟩ := h
    exact (executeDeposit_authorityKept (DepositContext.load_spec hc) hw₁).trans (hi _ _ hcall)
  | redeem =>
    obtain ⟨_, _, _, -, -, hburn, -, rfl⟩ := tryRedeem_spec h
    exact Spl.burn_authorityKept hburn
  | cancelRedeem =>
    obtain ⟨_, _, _, -, hmint, -, rfl⟩ := tryCancelRedeem_spec h
    exact Spl.mintTo_authorityKept hmint
  | processWithdrawals => exact tryProcessWithdrawals_authorityKept h
  | atomicRedeem =>
    obtain ⟨_, _, _, _, _, _, w₁, l₂, l₃, _, -, -, -, -, -, hcall, -, -, -, htransfer, hburn, -, -,
      rfl⟩ := tryAtomicRedeem_spec h
    have hpaid : Ledger.AuthorityKept mint w₁.ledger l₂ := .of_mints (Spl.transfer_spec htransfer).1
    exact ((hi _ _ hcall).trans hpaid).trans (Spl.burn_authorityKept hburn)
  | reportNav => exact applyNavReport_authorityKept h
  | recoverNav => exact applyNavReport_authorityKept h
  | collectFees =>
    obtain ⟨_, _, _, _, _, _, htransfer, -, -, rfl⟩ := tryCollectFees_spec h
    exact .of_mints (Spl.transfer_spec htransfer).1
  | writeDownFees =>
    simp only [exec, tryWriteDownFees, bind_eq_ok] at h
    obtain ⟨_, -, h⟩ := h
    exact updateWritableVaultAsAdmin_authorityKept h
  | investExternal =>
    obtain ⟨_, _, hmints, -, rfl⟩ := tryInvestExternal_spec h
    exact .of_mints hmints
  | returnExternal =>
    obtain ⟨_, _, hmints, -, rfl⟩ := tryReturnExternal_spec h
    exact .of_mints hmints
  | updateVaultConfig =>
    obtain ⟨-, rfl⟩ := tryUpdateVaultConfig_spec h
    exact .of_mints rfl
  | setPauseFlags => exact updateWritableVaultAsAdmin_authorityKept h
  | setVaultAccess => exact updateWritableVaultAsAdmin_authorityKept h
  | setStrategist => exact updateWritableVaultAsAdmin_authorityKept h
  | setSwapAuthority => exact updateWritableVaultAsAdmin_authorityKept h
  | setNavAuthority => exact updateWritableVaultAsAdmin_authorityKept h
  | setWithdrawalAuthority => exact updateWritableVaultAsAdmin_authorityKept h
  | transferVaultAuthority => exact updateWritableVaultAsAdmin_authorityKept h

/-! ### Runs of the program -/

/-- Whoever else acts in the event leaves the authority of the share mint: the programs that a
relaying instruction calls, or everybody, between two instructions. -/
def Deployment.SparesAuthority (d : Deployment) : ProgramEvent → Prop
  | .call i _ o => i.relays = true → ∀ l, d.stage = .live l →
    o.Keeps (Ledger.AuthorityKept l.world.vault.shareMint)
  | .tick _ => True
  | .environment _ ledger _ => ∀ l, d.stage = .live l →
    Ledger.AuthorityKept l.world.vault.shareMint l.world.ledger ledger

def AuthoritySpared (tr : ProgramTrace) : Prop := ∀ x ∈ tr, x.pre.SparesAuthority x.event

/-- The vault is the authority of its share mint. -/
def World.MintsShares (w : World) : Prop :=
  w.ledger.mintAuthority w.vault.shareMint = some w.vaultKey

variable {d : Deployment} {l l' : Live} {i : RoshiInstruction} {o : Surroundings} {e : ProgramEvent}

/-- A call of another program that keeps the authority. -/
theorem Call.ledger_authorityKept {run : Ledger → ProgramResult Ledger}
    (hrun : ∀ l l', run l = .ok l' → Ledger.AuthorityKept mint l l')
    (h : callRun rt w (.ledger run) = .ok w') : Ledger.AuthorityKept mint w.ledger w'.ledger := by
  obtain ⟨env, henv, h⟩ := bind_eq_ok.mp h
  obtain ⟨l, hl, henv⟩ := bind_eq_ok.mp henv
  cases henv
  cases h
  exact hrun _ _ hl

theorem systemInstruction_sparesAuthority {j : Instruction}
    (ho : i.relays = true → o.Keeps (Ledger.AuthorityKept mint))
    (hj : systemInstruction rt o w accounts i = some j) : j.SparesAuthority rt mint := by
  cases i
  all_goals simp only [systemInstruction, Option.some.injEq, reduceCtorEq] at hj
  all_goals subst hj
  case depositAndDeploy args =>
    exact fun _ _ h => Call.ledger_authorityKept (fun _ _ h => deployed_keeps (ho rfl) h) h
  case atomicRedeem args =>
    exact fun _ _ h => Call.ledger_authorityKept (fun _ _ h => unwound_keeps (ho rfl) h) h
  all_goals exact trivial

theorem relays_of_relayInstruction {x : ProgramResult Chain}
    (hx : relayInstruction rt o w accounts i = some x) : i.relays = true := by
  cases i
  case manage | manageBatch | swap | setShareMetadata => rfl
  all_goals cases hx

theorem Acted.authorityKept (ho : i.relays = true → o.Keeps (Ledger.AuthorityKept mint))
    (h : Acted rt o accounts i l l') :
    Ledger.AuthorityKept mint l.world.ledger l'.world.ledger := by
  cases h with
  | @system _ w hj h =>
    have hkept : Ledger.AuthorityKept mint l.world.ledger w.ledger :=
      exec_authorityKept (systemInstruction_sparesAuthority ho hj) h
    exact hkept
  | table hx h =>
    have hledger := tableInstruction_tabled hx h
    cases hledger
    all_goals exact .of_mints rfl
  | registration => exact .of_mints rfl
  | relay hx h =>
    have ho := ho (relays_of_relayInstruction hx)
    exact (ho.bytes _).trans (relayInstruction_keeps ho hx h)

theorem tryInitializeVault_authorityKept {g : Genesis} {args : InitializeVaultArgs}
    (h : tryInitializeVault rt g accounts args = .ok w) :
    Ledger.AuthorityKept mint g.ledger w.ledger := by
  obtain ⟨hnew, hledger⟩ := tryInitializeVault_mint h
  rw [hledger]
  refine .setMint ?_
  intro m' hm'
  rw [Ledger.mints_eq_none hnew] at hm'
  cases hm'

theorem tryInitializeVault_mintsShares {g : Genesis} {args : InitializeVaultArgs}
    (h : tryInitializeVault rt g accounts args = .ok w) : w.MintsShares := by
  obtain ⟨-, hledger⟩ := tryInitializeVault_mint h
  rw [World.MintsShares, hledger]
  exact Ledger.mintAuthority_eq_some.mpr ⟨newShareMint w.vaultKey, by simp [Ledger.setMint], rfl⟩

/-- **One step leaves the authority of the share mint.** -/
theorem Moved.authorityKept (he : d.SparesAuthority e) (hl : d.stage = .live l)
    (h : Moved rt d l e l') :
    Ledger.AuthorityKept l.world.vault.shareMint l.world.ledger l'.world.ledger := by
  cases h with
  | acted h => exact h.authorityKept fun hi => he hi l hl
  | kept => exact .of_mints rfl
  | @neighbour _ _ _ _ w hw =>
    have hledger : (d.ground rt).ledger = l.world.ledger := by
      rw [Deployment.ground, Deployment.ledger, hl]
    have hkept : Ledger.AuthorityKept l.world.vault.shareMint (d.ground rt).ledger w.ledger :=
      tryInitializeVault_authorityKept hw
    exact hledger ▸ hkept
  | tick => exact .of_mints rfl
  | environment => exact he l hl

/-- What a step never changes. -/
theorem Change.identity_eq (h : Change rt accounts l l') :
    l'.world.vaultKey = l.world.vaultKey ∧ l'.world.vault.identity = l.world.vault.identity := by
  cases h with
  | books h => exact ⟨h.vaultKey_eq, h.written.identity_eq⟩
  | tables h =>
    cases h
    all_goals exact ⟨rfl, rfl⟩
  | destinations => exact ⟨rfl, rfl⟩
  | beside => exact ⟨rfl, rfl⟩

/-- **The vault mints its shares**, in every state of every run in which nobody else touches the
authority. -/
theorem mintAuthority_of_run {g : Ground} {tr : ProgramTrace}
    (h : Run (ProgramStep rt) (.genesis g) tr d) (hspared : AuthoritySpared tr)
    (hl : d.stage = .live l) : l.world.MintsShares := by
  have hborn : ∀ d accounts args w, tryInitializeVault rt (Deployment.ground rt d) accounts args =
      .ok w → w.MintsShares := fun _ _ _ _ hw => tryInitializeVault_mintsShares hw
  refine live_invariant_of_mem h hl (P := fun l => l.world.MintsShares) hborn ?_
  intro x hx l l' hl hm hb
  obtain ⟨hkey, hid⟩ := hm.change.identity_eq
  have hmint : l'.world.vault.shareMint = l.world.vault.shareMint :=
    congrArg VaultIdentity.shareMint hid
  rw [World.MintsShares, hmint, hkey]
  exact hm.authorityKept (hspared x hx) hl _ hb

end Roshi

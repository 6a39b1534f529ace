import Roshi.Authority

/-!
# Gates

Which switches and signatures a call needs: the three pauses, the switch of external custody, the
access tree of a private vault and the role of the signer.  `RoshiInstruction.Gate` is the table,
`Acted.gate` says that nothing passes it otherwise.

The gates look at settings only.  So while the admin does not sign, every call that succeeds has
passed the gate of the settings at the start (`gates_hold`): a pause holds until the admin lifts
it, and so does an access root.
-/

namespace Roshi

open Lib

/-- The first account, which signs, may deposit. -/
def Vault.AdmitsDepositor (rt : Runtime) (v : Vault) (accounts : List AccountInfo)
    (proof : List (Bytes 32)) : Prop :=
  ∃ depositor rest, accounts = depositor :: rest ∧ depositor.isSigner = true ∧
    v.allowsDepositor rt depositor.key proof = true

/-- What a successful call over a vault with the record `v` has passed.  A batch of no legs passes
nothing, and a redeem can always be cancelled. -/
def RoshiInstruction.Gate (rt : Runtime) (v : Vault) (accounts : List AccountInfo) :
    RoshiInstruction → Prop
  | .deposit args =>
    v.depositsPaused = .ok false ∧ v.AdmitsDepositor rt accounts args.accessProof
  | .depositAndDeploy args =>
    v.depositsPaused = .ok false ∧ v.AdmitsDepositor rt accounts args.accessProof
  | .redeem _ => v.withdrawalsPaused = .ok false
  | .atomicRedeem _ => v.withdrawalsPaused = .ok false
  | .cancelRedeem _ => True
  | .processWithdrawals => SignedBy accounts v.withdrawalAuthority
  | .reportNav _ => SignedBy accounts v.navAuthority
  | .recoverNav _ => v.depositsPaused = .ok true ∧ SignedBy accounts v.navAuthority ∧
    SignedBy accounts v.admin
  | .manage _ => v.managePaused = .ok false ∧ SignedBy accounts v.strategist
  | .manageBatch actions => actions = [] ∨
    v.managePaused = .ok false ∧ SignedBy accounts v.strategist
  | .swap _ => v.managePaused = .ok false ∧
    (SignedBy accounts v.swapAuthority ∨ SignedBy accounts v.strategist)
  | .investExternal _ _ => v.managePaused = .ok false ∧ v.externalEnabled = .ok true ∧
    SignedBy accounts v.strategist
  | .returnExternal _ _ => v.managePaused = .ok false ∧ v.externalEnabled = .ok true ∧
    SignedBy accounts v.strategist
  | .strategistLowerFlashFeeRate _ => SignedBy accounts v.strategist
  | .initializeProgram _ => True
  | .initializeVault _ _ => True
  | .transferProgramAuthority _ => True
  | .assertDelegateCleared => True
  | _ => SignedBy accounts v.admin

variable {rt : Runtime} {o : Surroundings} {w w' : World} {l l' : Live} {v v' : Vault}
  {accounts : List AccountInfo} {i : RoshiInstruction}

/-- A gate looks at settings only. -/
theorem gate_congr (h : v.SameSettings v') : i.Gate rt v accounts ↔ i.Gate rt v' accounts := by
  rw [← h]
  cases i <;> exact Iff.rfl

/-! ### Deposits and redeems -/

theorem DepositContext.load_signed {c : DepositContext}
    (h : DepositContext.load rt w accounts = .ok c) :
    c.vault = w.vault ∧ ∃ rest, accounts = c.depositor :: rest ∧ c.depositor.isSigner = true := by
  have hvault := (DepositContext.load_spec h).vault_eq
  simp only [DepositContext.load, bind_eq_ok, Prod.exists, Except.ok.injEq, nextAccount_eq_ok,
    requireSigner_eq_ok] at h
  obtain ⟨depositor, rest, rfl, _, hs, _, _, -, _, -, _, _, -, _, -, _, _, -, _, -, _, _, -, _, -, _,
    _, -, _, -, _, _, -, _, -, _, _, -, _, -, _, -, v, -, _, -, rfl⟩ := h
  exact ⟨hvault, rest, rfl, hs⟩

theorem executeDeposit_gate {c : DepositContext} {args : DepositArgs}
    (h : executeDeposit rt w c args = .ok w') :
    c.vault.depositsPaused = .ok false ∧
      c.vault.allowsDepositor rt c.depositor.key args.accessProof = true := by
  simp only [executeDeposit, bind_eq_ok, rejectIf_eq_ok, Bool.not_eq_true, Bool.not_eq_false] at h
  obtain ⟨_, hpaused, _, rfl, _, hallowed, -⟩ := h
  exact ⟨hpaused, hallowed⟩

theorem tryDeposit_gate {args : DepositArgs} (h : tryDeposit rt w accounts args = .ok w') :
    w.vault.depositsPaused = .ok false ∧
      w.vault.AdmitsDepositor rt accounts args.accessProof := by
  simp only [tryDeposit, bind_eq_ok] at h
  obtain ⟨_, -, c, hc, h⟩ := h
  obtain ⟨hvault, rest, hcons, hs⟩ := DepositContext.load_signed hc
  obtain ⟨hpaused, hallowed⟩ := executeDeposit_gate h
  rw [hvault] at hpaused hallowed
  exact ⟨hpaused, c.depositor, rest, hcons, hs, hallowed⟩

theorem tryDepositAndDeploy_gate {args : DepositAndDeployArgs} {relay : Relay}
    (h : tryDepositAndDeploy rt w accounts args relay = .ok w') :
    w.vault.depositsPaused = .ok false ∧
      w.vault.AdmitsDepositor rt accounts args.accessProof := by
  simp only [tryDepositAndDeploy, bind_eq_ok, Prod.exists] at h
  obtain ⟨_, -, _, -, c, hc, _, _, -, _, _, -, _, -, _, -, _, -, _, -, _, -, _, -, _, -, _, -, _, -,
    w₁, hw₁, -⟩ := h
  obtain ⟨hvault, rest, hcons, hs⟩ := DepositContext.load_signed hc
  obtain ⟨hpaused, hallowed⟩ := executeDeposit_gate hw₁
  rw [hvault] at hpaused hallowed
  -- the deposit takes the first eight accounts
  have haccounts : accounts = c.depositor :: (rest ++ accounts.drop 8) := by
    rw [← List.cons_append, ← hcons, List.take_append_drop]
  exact ⟨hpaused, c.depositor, _, haccounts, hs, hallowed⟩

theorem tryRedeem_gate {args : RedeemArgs} (h : tryRedeem rt w accounts args = .ok w') :
    w.vault.withdrawalsPaused = .ok false := by
  simp only [tryRedeem, bind_eq_ok, rejectIf_eq_ok, Bool.not_eq_true] at h
  obtain ⟨c, hload, paused, hpaused, _, rfl, -⟩ := h
  rw [← (RedeemContext.load_spec hload).vault_eq]
  exact hpaused

theorem tryAtomicRedeem_gate {args : AtomicRedeemArgs} {relay : Relay}
    (h : tryAtomicRedeem rt w accounts args relay = .ok w') :
    w.vault.withdrawalsPaused = .ok false := by
  simp only [tryAtomicRedeem, bind_eq_ok, rejectIf_eq_ok, Bool.not_eq_true] at h
  obtain ⟨c, hload, paused, hpaused, _, rfl, -⟩ := h
  rw [← (AtomicRedeemContext.load_spec hload).vault_eq]
  exact hpaused

/-! ### Reports -/

theorem tryRecoverNav_gate {args : NavReport} (h : tryRecoverNav rt w accounts args = .ok w') :
    w.vault.depositsPaused = .ok true ∧ SignedBy accounts w.vault.navAuthority ∧
      SignedBy accounts w.vault.admin := by
  have hnav := applyNavReport_signed h
  simp only [tryRecoverNav, applyNavReport, bind_eq_ok, Prod.exists, nextAccount_eq_ok] at h
  obtain ⟨nav, _, rfl, _, _, hadmin, _, _, -, _, -, v, hv, _, hreporters, _, -, _, _, -, _, -, _, -,
    S, -, _, hrecovery, -⟩ := h
  obtain ⟨rfl, -, -⟩ := loadChecked_eq_ok hv
  simp only [nextAdmin, bind_eq_ok, Prod.exists, nextAccount_eq_ok, Except.ok.injEq,
    Prod.mk.injEq] at hadmin
  obtain ⟨admin, _, rfl, rfl, rfl⟩ := hadmin
  simp only [verifyReporters, bind_eq_ok] at hreporters
  obtain ⟨_, -, hrole⟩ := hreporters
  simp only [verifyRecovery, bind_eq_ok, rejectIf_eq_ok, Bool.not_eq_false] at hrecovery
  obtain ⟨paused, hpaused, _, rfl, -⟩ := hrecovery
  exact ⟨hpaused, hnav, (signedBy_of_verifyRole hrole).cons⟩

/-! ### Relays -/

section Relays

variable {host : Host} {records : Chain → World} {chain chain' : Chain}

theorem verifyActionExecutor_eq_ok {executor : AccountInfo} {scope : ActionScope} {u : Unit}
    (h : verifyActionExecutor v executor scope = .ok u) :
    executor.isSigner = true ∧ v.strategist = executor.key := by
  cases scope <;> simp only [verifyActionExecutor, reduceCtorEq] at h
  all_goals exact verifyRole_eq_ok.mp h

theorem runLeg_gate {shared : ManageShared} {leg : ManageLeg}
    (h : runLeg rt host records shared chain leg = .ok chain') :
    (records chain).vault.managePaused = .ok false ∧ shared.executor.isSigner = true ∧
      (records chain).vault.strategist = shared.executor.key := by
  simp only [runLeg, ManageLeg.validate, validateManageAccounts, bind_eq_ok, Except.ok.injEq,
    verifyManageEnabled_eq_ok] at h
  obtain ⟨_, ⟨v, hv, _, -, _, -, _, -, _, hexecutor, _, hpaused, -⟩, -⟩ := h
  obtain ⟨rfl, -, -⟩ := loadChecked_eq_ok hv
  obtain ⟨hs, hkey⟩ := verifyActionExecutor_eq_ok hexecutor
  exact ⟨hpaused, hs, hkey⟩

theorem tryManage_gate {args : ManageArgs}
    (h : tryManage rt host w.beside chain accounts args = .ok chain') :
    w.vault.managePaused = .ok false ∧ SignedBy accounts w.vault.strategist := by
  simp only [tryManage, loadManage, bind_eq_ok, Prod.exists, Except.ok.injEq, Prod.mk.injEq,
    nextAccount_eq_ok] at h
  obtain ⟨_, _, ⟨executor, _, rfl, _, _, -, _, _, -, _, _, -, rfl, rfl⟩, h⟩ := h
  obtain ⟨hpaused, hs, hkey⟩ := runLeg_gate h
  exact ⟨hpaused, executor, List.mem_cons_self, hkey.symm, hs⟩

theorem tryManageBatch_gate {actions : List ManageArgs}
    (h : tryManageBatch rt host w.beside chain accounts actions = .ok chain') :
    actions = [] ∨ w.vault.managePaused = .ok false ∧ SignedBy accounts w.vault.strategist := by
  cases actions with
  | nil => exact .inl rfl
  | cons args actions =>
    right
    simp only [tryManageBatch, loadManageBatch, loadLegs, bind_eq_ok, Prod.exists, Except.ok.injEq,
      Prod.mk.injEq, nextAccount_eq_ok] at h
    obtain ⟨_, _, ⟨executor, _, rfl, _, _, -, _, _, ⟨_, _, -, _, _, -, _, _, -, rfl, rfl⟩, rfl, rfl⟩,
      h⟩ := h
    rw [List.foldlM_cons, bind_eq_ok] at h
    obtain ⟨_, hleg, -⟩ := h
    obtain ⟨hpaused, hs, hkey⟩ := runLeg_gate hleg
    exact ⟨hpaused, executor, List.mem_cons_self, hkey.symm, hs⟩

theorem trySwap_gate {args : SwapArgs}
    (h : trySwap rt host w.beside chain accounts args = .ok chain') :
    w.vault.managePaused = .ok false ∧
      (SignedBy accounts w.vault.swapAuthority ∨ SignedBy accounts w.vault.strategist) := by
  simp only [trySwap, SwapContext.load, verifyEitherRole, bind_eq_ok, Prod.exists,
    nextAccount_eq_ok, rejectIf_eq_ok, verifyManageEnabled_eq_ok, Bool.not_eq_false, not_and_or] at h
  obtain ⟨_, ⟨executor, _, rfl, _, _, -, v, hv, _, ⟨_, hs, hrole⟩, _, hpaused, -⟩, -⟩ := h
  obtain ⟨rfl, -, -⟩ := loadChecked_eq_ok hv
  refine ⟨hpaused, hrole.imp ?_ ?_⟩
  · exact fun hr => ⟨executor, List.mem_cons_self, (beq_iff_eq.mp hr).symm, hs⟩
  · exact fun hr => ⟨executor, List.mem_cons_self, (beq_iff_eq.mp hr).symm, hs⟩

theorem trySetShareMetadata_signed {args : SetShareMetadataArgs}
    (h : trySetShareMetadata rt host w.beside chain accounts args = .ok chain') :
    SignedBy accounts w.vault.admin := by
  simp only [trySetShareMetadata, ShareMetadataContext.load, bind_eq_ok, Prod.exists,
    nextAccount_eq_ok] at h
  obtain ⟨_, ⟨admin, _, rfl, _, -, _, _, -, v, hv, -⟩, -⟩ := h
  exact signedBy_of_loadVaultAs hv

end Relays

/-! ### Tables and registrations -/

theorem tryRevokeAction_signed {actionHash : Bytes 32}
    (h : tryRevokeAction rt w accounts actionHash = .ok w') : SignedBy accounts w.vault.admin := by
  simp only [tryRevokeAction, bind_eq_ok, Prod.exists, nextAccount_eq_ok] at h
  obtain ⟨admin, _, rfl, _, -, _, _, rfl, _, _, rfl, _, -, v, hv, -⟩ := h
  exact signedBy_of_loadVaultAs hv

theorem tableInstruction_gate {x : ProgramResult World}
    (hx : tableInstruction rt w accounts i = some x) (h : x = .ok w') :
    i.Gate rt w.vault accounts := by
  subst h
  cases i
  all_goals simp only [tableInstruction, Option.some.injEq, reduceCtorEq] at hx
  case authorizeAction =>
    obtain ⟨_, _, -, -, -, ha, -⟩ := tryAuthorizeAction_tabled hx
    exact ha.signed
  case revokeAction => exact tryRevokeAction_signed hx
  case adminSetFlashFeeRate => exact updateActionFlashFee_signed hx
  case strategistLowerFlashFeeRate => exact updateActionFlashFee_signed hx
  case initializeAsset =>
    obtain ⟨_, _, ha, -⟩ := tryInitializeAsset_spec hx
    exact ha.signed
  case updateAsset =>
    obtain ⟨_, _, hsigned, -⟩ := tryUpdateAsset_spec hx
    exact hsigned

theorem registrationInstruction_gate {r r' : Registrations} {x : ProgramResult Registrations}
    (hx : registrationInstruction rt w r accounts i = some x) (h : x = .ok r') :
    i.Gate rt w.vault accounts := by
  subst h
  cases i
  all_goals simp only [registrationInstruction, Option.some.injEq, reduceCtorEq] at hx
  case registerExternalDestination =>
    obtain ⟨_, _, hd, -⟩ := tryRegisterExternalDestination_spec hx
    exact hd.signed
  case revokeExternalDestination =>
    obtain ⟨_, _, hsigned, -⟩ := tryRevokeExternalDestination_spec hx
    exact hsigned

theorem relayInstruction_gate {x : ProgramResult Chain} {chain : Chain}
    (hx : relayInstruction rt o w accounts i = some x) (h : x = .ok chain) :
    i.Gate rt w.vault accounts := by
  subst h
  cases i
  all_goals simp only [relayInstruction, Option.some.injEq, reduceCtorEq] at hx
  case manage => exact tryManage_gate hx
  case manageBatch => exact tryManageBatch_gate hx
  case swap => exact trySwap_gate hx
  case setShareMetadata => exact trySetShareMetadata_signed hx

theorem systemInstruction_gate {j : Instruction}
    (hj : systemInstruction rt o w accounts i = some j) (h : exec rt w j = .ok w') :
    i.Gate rt w.vault accounts := by
  cases i
  all_goals simp only [systemInstruction, Option.some.injEq, reduceCtorEq] at hj
  all_goals subst hj
  case deposit => exact tryDeposit_gate h
  case depositAndDeploy => exact tryDepositAndDeploy_gate h
  case redeem => exact tryRedeem_gate h
  case atomicRedeem => exact tryAtomicRedeem_gate h
  case cancelRedeem => exact trivial
  case processWithdrawals =>
    simp only [exec, tryProcessWithdrawals, bind_eq_ok] at h
    obtain ⟨_, hload, -⟩ := h
    exact ProcessWithdrawalsContext.load_signed hload
  case reportNav => exact applyNavReport_signed h
  case recoverNav => exact tryRecoverNav_gate h
  case collectFees => exact tryCollectFees_signed h
  case writeDownFees =>
    simp only [exec, tryWriteDownFees, bind_eq_ok] at h
    obtain ⟨_, -, h⟩ := h
    exact updateWritableVaultAsAdmin_signed h
  case investExternal => exact tryInvestExternal_gate h
  case returnExternal => exact tryReturnExternal_gate h
  case updateVaultConfig => exact tryUpdateVaultConfig_signed h
  all_goals exact updateWritableVaultAsAdmin_signed h

/-- **Nothing passes a gate otherwise.** -/
theorem Acted.gate (h : Acted rt o accounts i l l') : i.Gate rt l.world.vault accounts := by
  cases h with
  | system hj h => exact systemInstruction_gate hj h
  | table hx h => exact tableInstruction_gate hx h
  | registration hx h => exact registrationInstruction_gate hx h
  | relay hx h => exact relayInstruction_gate hx h

/-! ### Runs -/

theorem Moved.gate {d : Deployment} (h : Moved rt d l (.call i accounts o) l') :
    i.Gate rt l.world.vault accounts := by
  cases h with
  | acted h => exact h.gate
  | kept hi =>
    cases i
    all_goals
      first
      | exact trivial
      | cases hi
  | neighbour => exact trivial

/-- **Gates hold until the admin signs.**  In a run in which the admin of the start does not sign,
every call that succeeded passed the gate of the settings at the start. -/
theorem gates_hold {d d' : Deployment} {tr : ProgramTrace} (h : Run (ProgramStep rt) d tr d')
    (hl : d.stage = .live l)
    (hsilent : ∀ x ∈ tr, ¬ SignedBy x.event.accounts l.world.vault.admin) :
    ∀ x ∈ tr, ∀ i accounts o, x.event = .call i accounts o →
      i.Gate rt l.world.vault accounts := by
  intro x hx i accounts o hevent
  have hstep := h.step_of_mem hx
  obtain ⟨⟨m, hm, hkept⟩, -⟩ := h.invariant_of_mem
    (P := fun d => ∃ m, d.stage = .live m ∧ Part.settings.Kept l m) ⟨l, hl, .refl l _⟩ (by
      rintro y hy hstep ⟨m, hm, hkept⟩
      obtain ⟨l', hl', hmoved⟩ := hstep.moved hm
      refine ⟨l', hl', (Part.kept_step hkept hkept hmoved.change ?_).1⟩
      intro k hk
      simp only [Part.keepers, List.mem_cons, List.not_mem_nil, or_false, or_self] at hk
      exact hk ▸ hsilent y hy) hx
  obtain ⟨l', -, hmoved⟩ := hstep.moved hm
  rw [hevent] at hmoved
  exact (gate_congr hkept).mpr hmoved.gate

theorem gates_hold_invested :
    Sample.deployedLive.world.vault.depositsPaused = .ok false := by
  have hadmin : Sample.deployedLive.world.vault.admin = Sample.admin := by decide +kernel
  exact (gates_hold Sample.invested_run Sample.deployed_live (hadmin ▸ Sample.invested_silent) _
    (List.mem_cons_of_mem _ List.mem_cons_self) _ _ _ rfl).1

end Roshi

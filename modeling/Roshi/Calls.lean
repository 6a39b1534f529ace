import Roshi.Program

/-!
# The calls of other programs

Six instructions call a program of somebody else's: five relay what the admin authorized, one sets
the metadata of the share mint.  `Licensed` is what such a call has to be, signer seeds included,
and `tryProcessInstruction_only` says that no instruction makes any other: on a host that refuses
every other call it gives the same result.

Refusing is stronger than looking at the call an instruction names in its context: it counts the
calls that are made, however often and from wherever.
-/

namespace Roshi

open Lib

/-! ### Refusing calls -/

open Classical in
/-- The host with every call outside `P` refused. -/
noncomputable def Host.only (host : Host) (P : RawInstruction → List (List U8) → Prop) : Host where
  transaction := host.transaction
  invoke i infos seeds chain :=
    if P i seeds then host.invoke i infos seeds chain else .error .cpi

noncomputable def Surroundings.only (o : Surroundings)
    (P : RawInstruction → List (List U8) → Prop) : Surroundings where
  host := o.host.only P
  bytes := o.bytes

/-! ### Licences -/

/-- The scopes whose actions an instruction relays. -/
def RoshiInstruction.scopes : RoshiInstruction → List ActionScope
  | .manage _ => [.manager, .flashApprove]
  | .manageBatch _ => [.manager, .flashApprove]
  | .swap _ => [.swap]
  | .atomicRedeem _ => [.atomicRedeem]
  | .depositAndDeploy _ => [.deploy]
  | _ => []

/-- What the hash of a call is taken over. -/
def RawInstruction.call (c : RawInstruction) (ops : Ops) (siblings : List ResolvedSibling) :
    ActionCall where
  programId := c.programId
  ops := ops
  accounts := c.accounts
  ixData := c.data
  siblings := siblings

/-- The seeds a sub-account of a vault signs with. -/
def subAccountSeeds (rt : Runtime) (vaultKey : Pubkey) (index : U8) : List (List U8) :=
  [SUB_ACCOUNT_SEED, vaultKey.toList, [index], [(subAccountAddress rt vaultKey index).2]]

/-- `a` lets an instruction relay `c`: what its ops commit of the call and of its siblings in the
transaction hashes to what it stores, and a sub-account of the vault signs. -/
structure Action.Licenses (rt : Runtime) (vaultKey : Pubkey) (t : Transaction) (a : Action)
    (c : RawInstruction) (seeds : List (List U8)) : Prop where
  hash : ∃ infos siblings, loadRequiredSiblings t a.ops infos = .ok siblings ∧
    (c.call a.ops siblings).hash rt = .ok a.actionHash
  seeds : ∃ index, seeds = subAccountSeeds rt vaultKey index

/-- The calls an instruction over the vault of `w` may make, `A` the actions there are. -/
inductive Licensed (rt : Runtime) (w : World) (t : Transaction) (A : Pubkey → Action → Prop)
    (i : RoshiInstruction) (c : RawInstruction) (seeds : List (List U8)) : Prop
  | action {key : Pubkey} {a : Action} (there : A key a) (scope : a.scope ∈ i.scopes)
      (licence : a.Licenses rt w.vaultKey t c seeds)
  /-- The vault signs for its share mint's name. -/
  | metadata {args : SetShareMetadataArgs} {tag : List U8} (hi : i = .setShareMetadata args)
      (hc : ∃ isNew, c = shareMetadataInstruction isNew w.vault.admin w.vaultKey w.vault.shareMint
        (findMetadataAddress rt w.vault.shareMint).1 args)
      (htag : w.vault.tagSeed = .ok tag)
      (hseeds : seeds = [VAULT_SEED, tag, w.vault.baseMint.toList, [w.vault.bump]])

theorem Licensed.imp {rt : Runtime} {w : World} {t : Transaction} {A B : Pubkey → Action → Prop}
    {i : RoshiInstruction} {c : RawInstruction} {seeds : List (List U8)}
    (h : Licensed rt w t A i c seeds) (hAB : ∀ key a, A key a → B key a) :
    Licensed rt w t B i c seeds := by
  cases h with
  | action there scope licence => exact .action (hAB _ _ there) scope licence
  | metadata hi hc htag hseeds => exact .metadata hi hc htag hseeds

/-- The actions stored in `w`. -/
def World.Stores (w : World) (key : Pubkey) (a : Action) : Prop := w.actions key = some a

/-- `P` holds of the calls that the actions of `w` license to `i`. -/
def Covers (rt : Runtime) (w : World) (t : Transaction) (i : RoshiInstruction)
    (P : RawInstruction → List (List U8) → Prop) : Prop :=
  ∀ c seeds, Licensed rt w t w.Stores i c seeds → P c seeds

variable {rt : Runtime} {host : Host} {o : Surroundings} {w w' : World} {chain chain' : Chain}
  {accounts cpiAccounts : List AccountInfo} {i : RoshiInstruction}
  {P : RawInstruction → List (List U8) → Prop} {validated : ValidatedManageAccounts}
  {accountsStart : U8} {accountFlags : PackedAccountFlags} {ixData : List U8} {cpi : AuthorizedCpi}

/-! ### One call -/

/-- The seeds of a relay. -/
def AuthorizedCpi.seeds (cpi : AuthorizedCpi) : List (List U8) :=
  [SUB_ACCOUNT_SEED, cpi.vaultKey.toList, [cpi.subAccountIndex], [cpi.subAccountBump]]

/-- The action is stored, of a scope that `i` relays, and the sub-account is the vault's. -/
structure ValidatedManageAccounts.Of (rt : Runtime) (w : World) (i : RoshiInstruction)
    (v : ValidatedManageAccounts) : Prop where
  stored : ∃ key, w.Stores key v.action
  scope : v.action.scope ∈ i.scopes
  vaultKey : v.vaultKey = w.vaultKey
  bump : v.subAccountBump = (subAccountAddress rt w.vaultKey v.subAccountIndex).2

theorem validateAuthorizedCpi_seeds
    (h : validateAuthorizedCpi rt host chain cpiAccounts validated accountsStart accountFlags ixData
      = .ok cpi) : cpi.seeds = [SUB_ACCOUNT_SEED, validated.vaultKey.toList,
        [validated.subAccountIndex], [validated.subAccountBump]] := by
  simp only [validateAuthorizedCpi, bind_eq_ok, Except.ok.injEq] at h
  obtain ⟨_, -, _, -, _, -, _, -, _, -, _, -, _, -, _, -, _, -, rfl⟩ := h
  rfl

/-- **What validation accepts is licensed.** -/
theorem validateAuthorizedCpi_licensed (hP : Covers rt w host.transaction i P)
    (hof : validated.Of rt w i)
    (h : validateAuthorizedCpi rt host chain cpiAccounts validated accountsStart accountFlags ixData
      = .ok cpi) : P cpi.instruction cpi.seeds := by
  obtain ⟨key, hkey⟩ := hof.stored
  obtain ⟨-, _, _, siblings, hb⟩ := validateAuthorizedCpi_spec h
  refine hP _ _ (.action hkey hof.scope ⟨⟨_, _, hb.siblings_eq, hb.hash⟩,
    validated.subAccountIndex, ?_⟩)
  rw [validateAuthorizedCpi_seeds h, hof.vaultKey, hof.bump]
  rfl

theorem invokeAuthorizedCpi_only (hP : P cpi.instruction cpi.seeds)
    (h : invokeAuthorizedCpi host cpi chain = .ok chain') :
    invokeAuthorizedCpi (host.only P) cpi chain = .ok chain' := (if_pos hP).trans h

theorem relayScanned_only (hP : P cpi.instruction cpi.seeds)
    (h : relayScanned host cpi chain = .ok chain') :
    relayScanned (host.only P) cpi chain = .ok chain' := by
  simp only [relayScanned, bind_eq_ok] at h ⊢
  obtain ⟨custody, hscan, after, hinvoke, hrest⟩ := h
  exact ⟨custody, hscan, after, invokeAuthorizedCpi_only hP hinvoke, hrest⟩

theorem settleAuthorizedCpi_only {action : Action} (hP : P cpi.instruction cpi.seeds)
    (h : settleAuthorizedCpi host cpi action cpiAccounts chain = .ok chain') :
    settleAuthorizedCpi (host.only P) cpi action cpiAccounts chain = .ok chain' := by
  rw [settleAuthorizedCpi] at h ⊢
  cases hscope : action.scope <;> simp only [hscope] at h ⊢
  case manager => exact relayScanned_only hP h
  case flashApprove =>
    simp only [bind_eq_ok] at h ⊢
    obtain ⟨u, happrove, source, hsource, amount, hbind, fee, hfee, expected, hexpected, custody,
      hscan, after, hinvoke, hrest⟩ := h
    exact ⟨u, happrove, source, hsource, amount, hbind, fee, hfee, expected, hexpected, custody,
      hscan, after, invokeAuthorizedCpi_only hP hinvoke, hrest⟩
  all_goals cases h

/-! ### Legs -/

section Legs

variable {shared : ManageShared} {leg : ManageLeg}

theorem verifySubAccountBytes_eq_ok {vaultKey : Pubkey} {index bump : U8} {a : AccountInfo}
    (h : verifySubAccountBytes rt chain vaultKey index a = .ok bump) :
    bump = (subAccountAddress rt vaultKey index).2 := by
  simp only [verifySubAccountBytes, bind_eq_ok, Except.ok.injEq] at h
  obtain ⟨_, -, _, -, _, -, rfl⟩ := h
  rfl

theorem ManageLeg.validate_of (hi : i.scopes = [.manager, .flashApprove])
    (h : leg.validate rt w.beside shared chain = .ok validated) : validated.Of rt w i := by
  simp only [ManageLeg.validate, validateManageAccounts, bind_eq_ok, Except.ok.injEq,
    loadAction_eq_ok] at h
  obtain ⟨v, hv, bump, hbump, action, haction, _, -, _, hexecutor, _, -, rfl⟩ := h
  obtain ⟨-, hkey, -⟩ := loadChecked_eq_ok hv
  refine ⟨⟨_, haction⟩, ?_, hkey, ?_⟩
  · rw [hi]
    cases hscope : action.scope <;>
      simp only [hscope, verifyActionExecutor, reduceCtorEq] at hexecutor
    · exact List.mem_cons_self
    · exact List.mem_cons_of_mem _ List.mem_cons_self
  · rw [verifySubAccountBytes_eq_ok hbump, hkey]
    rfl

theorem runLeg_only (hP : Covers rt w host.transaction i P)
    (hi : i.scopes = [.manager, .flashApprove])
    (h : runLeg rt host w.beside shared chain leg = .ok chain') :
    runLeg rt (host.only P) w.beside shared chain leg = .ok chain' := by
  simp only [runLeg, bind_eq_ok] at h ⊢
  obtain ⟨validated, hvalid, cpi, hcpi, hsettle⟩ := h
  have hlicensed := validateAuthorizedCpi_licensed hP (ManageLeg.validate_of hi hvalid) hcpi
  exact ⟨validated, hvalid, cpi, hcpi, settleAuthorizedCpi_only hlicensed hsettle⟩

end Legs

theorem tryManage_only {args : ManageArgs} (hP : Covers rt w host.transaction (.manage args) P)
    (h : tryManage rt host w.beside chain accounts args = .ok chain') :
    tryManage rt (host.only P) w.beside chain accounts args = .ok chain' := by
  simp only [tryManage, bind_eq_ok, Prod.exists] at h ⊢
  obtain ⟨shared, leg, hload, hleg⟩ := h
  exact ⟨shared, leg, hload, runLeg_only hP rfl hleg⟩

theorem tryManageBatch_only {actions : List ManageArgs}
    (hP : Covers rt w host.transaction (.manageBatch actions) P)
    (h : tryManageBatch rt host w.beside chain accounts actions = .ok chain') :
    tryManageBatch rt (host.only P) w.beside chain accounts actions = .ok chain' := by
  simp only [tryManageBatch, bind_eq_ok, Prod.exists] at h ⊢
  obtain ⟨shared, legs, hload, hlegs⟩ := h
  exact ⟨shared, legs, hload, 
    foldlM_eq_ok_of_imp (fun _ _ _ hleg => runLeg_only hP rfl hleg) hlegs⟩

theorem trySwap_only {args : SwapArgs} (hP : Covers rt w host.transaction (.swap args) P)
    (h : trySwap rt host w.beside chain accounts args = .ok chain') :
    trySwap rt (host.only P) w.beside chain accounts args = .ok chain' := by
  simp only [trySwap, executeSwapCpi, bind_eq_ok] at h ⊢
  obtain ⟨c, hload, flow, ⟨inPre, hin, outPre, hout, cpi, hcpi, custody, hsnapshot, after, hinvoke,
    hrest⟩, hvalue⟩ := h
  have hof : (ValidatedManageAccounts.mk c.action c.vaultKey c.subAccount.key c.subAccountIndex
      c.subAccountBump).Of rt w (.swap args) := by
    simp only [SwapContext.load, bind_eq_ok, Prod.exists, Except.ok.injEq, rejectIf_eq_ok,
      loadAction_eq_ok, not_not] at hload
    obtain ⟨_, _, -, vault, _, -, v, hv, _, -, _, -, sub, _, -, bump, hbump, _, _, -, _, _, -, _, -,
      _, _, -, action, haction, _, -, _, hscope, _, _, -, rfl⟩ := hload
    obtain ⟨-, hkey, -⟩ := loadChecked_eq_ok hv
    refine ⟨⟨_, haction⟩, List.mem_singleton.mpr hscope, hkey, ?_⟩
    show bump = _
    rw [verifySubAccountBytes_eq_ok hbump, hkey]
    rfl
  have hlicensed := validateAuthorizedCpi_licensed hP hof hcpi
  exact ⟨c, hload, flow, ⟨inPre, hin, outPre, hout, cpi, hcpi, custody, hsnapshot, after,
    invokeAuthorizedCpi_only hlicensed hinvoke, hrest⟩, hvalue⟩

theorem trySetShareMetadata_only {args : SetShareMetadataArgs}
    (hP : Covers rt w host.transaction (.setShareMetadata args) P)
    (h : trySetShareMetadata rt host w.beside chain accounts args = .ok chain') :
    trySetShareMetadata rt (host.only P) w.beside chain accounts args = .ok chain' := by
  simp only [trySetShareMetadata, bind_eq_ok] at h ⊢
  obtain ⟨c, hload, tag, htag, hinvoke⟩ := h
  refine ⟨c, hload, tag, htag, (if_pos (hP _ _ ?_)).trans hinvoke⟩
  simp only [ShareMetadataContext.load, bind_eq_ok, Prod.exists, Except.ok.injEq, rejectIf_eq_ok,
    not_not] at hload
  obtain ⟨admin, _, -, _, -, vault, _, -, v, hv, mint, _, -, _, hmint, metadata, _, -, _, -, _,
    haddress, _, _, -, _, -, _, _, -, _, -, rfl⟩ := hload
  obtain ⟨rfl, hvault, -, hadmin⟩ := loadVaultAs_eq_ok hv
  rw [verifyShareMint_eq_ok] at hmint
  have hmint : mint.key = w.vault.shareMint := hmint
  have hadmin : admin.key = w.vault.admin := hadmin
  refine .metadata rfl ⟨(chain metadata.key).data.isEmpty, ?_⟩ htag rfl
  rw [ShareMetadataContext.instruction, hadmin, hvault, haddress, hmint]
  rfl

/-! ### Public routes -/

theorem tryAtomicRedeem_only {args : UnwindArgs}
    (hP : Covers rt w o.host.transaction (.atomicRedeem args) P)
    (h : tryAtomicRedeem rt w accounts args.toAtomicRedeemArgs (o.unwindRelay rt w accounts args)
      = .ok w') :
    tryAtomicRedeem rt w accounts args.toAtomicRedeemArgs
      ((o.only P).unwindRelay rt w accounts args) = .ok w' := by
  simp only [tryAtomicRedeem, executeUnwindCpi, bind_eq_ok, Prod.exists, rejectIf_eq_ok,
    not_not] at h ⊢
  obtain ⟨c, hload, paused, hpaused, _, hopen, _, hzero, _, hscope, _, hfresh, owed, howed,
    received, w₂, ⟨_, hauth, pre, hpre, w₁, hrun, hmeasure⟩, hsettle⟩ := h
  refine ⟨c, hload, paused, hpaused, (), hopen, (), hzero, (), hscope, (), hfresh, owed, howed,
    received, w₂, ⟨(), hauth, pre, hpre, w₁, ?_, hmeasure⟩, hsettle⟩
  simp only [Surroundings.unwindRelay, Relay.other, Surroundings.unwound, UnwindCall.unwound,
    bind_eq_ok] at hrun ⊢
  obtain ⟨l, ⟨c', hload', cpi, hcpi, after, hinvoke, hledger⟩, hw₁⟩ := hrun
  obtain rfl : c = c' := Except.ok.inj (hload.symm.trans hload')
  refine ⟨l, ⟨c, hload, cpi, hcpi, after, invokeAuthorizedCpi_only ?_ hinvoke, hledger⟩, hw₁⟩
  simp only [UnwindCall.authorize, authorizeUnwind, bind_eq_ok, Except.ok.injEq] at hcpi
  obtain ⟨_, hvalid, _, -, _, -, rfl⟩ := hcpi
  refine validateAuthorizedCpi_licensed hP ?_ hvalid
  simp only [AtomicRedeemContext.load, bind_eq_ok, Prod.exists, Except.ok.injEq,
    loadAction_eq_ok] at hload
  obtain ⟨_, _, -, _, -, vault, _, -, _, -, _, _, -, _, -, _, _, -, _, -, _, _, -, _, -, _, _, -, _,
    -, _, _, -, _, _, -, action, _, -, _, _, -, _, -, v, hv, _, -, _, -, _, -, _, -, _, -, _, -, _,
    -, _, -, a, haction, _, -, rfl⟩ := hload
  obtain ⟨-, hkey, -⟩ := loadChecked_eq_ok hv
  refine ⟨⟨_, haction⟩, List.mem_singleton.mpr hscope, hkey, ?_⟩
  show (subAccountAddress rt vault.key args.subAccount).2 = _
  rw [hkey]
  rfl

theorem verifySubAccount_eq_ok {index bump : U8} {a : AccountInfo}
    (h : w.verifySubAccount rt index a = .ok bump) :
    bump = (subAccountAddress rt w.vaultKey index).2 := by
  simp only [World.verifySubAccount, bind_eq_ok, Except.ok.injEq] at h
  obtain ⟨_, -, _, -, rfl⟩ := h
  rfl

theorem DepositAndDeployContext.load_of {c : DepositAndDeployContext}
    (h : DepositAndDeployContext.load rt w accounts = .ok c)
    (hscope : c.validated.action.scope ∈ i.scopes) : c.validated.Of rt w i := by
  simp only [DepositAndDeployContext.load, bind_eq_ok, Prod.exists, Except.ok.injEq,
    loadAction_eq_ok] at h
  obtain ⟨_, -, c, hc, sub, _, -, _, _, -, bump, hbump, _, -, _, -, a, haction, _, -, rfl⟩ := h
  have hkey := (DepositContext.load_spec hc).key_eq
  exact ⟨⟨_, haction⟩, hscope, hkey, verifySubAccount_eq_ok hbump⟩

theorem tryDepositAndDeploy_only {args : DeployArgs}
    (hP : Covers rt w o.host.transaction (.depositAndDeploy args) P)
    (h : tryDepositAndDeploy rt w accounts args.toDepositAndDeployArgs
      (deployRelay rt o.host o.bytes w accounts args) = .ok w') :
    tryDepositAndDeploy rt w accounts args.toDepositAndDeployArgs
      (deployRelay rt (o.host.only P) o.bytes w accounts args) = .ok w' := by
  obtain ⟨c, cpi, before, after, hd⟩ := tryDepositAndDeploy_deployed h
  have hrun : ∀ w₁ w₂, (deployRelay rt o.host o.bytes w accounts args).run w₁ = .ok w₂ →
      (deployRelay rt (o.host.only P) o.bytes w accounts args).run w₁ = .ok w₂ := by
    intro w₁ w₂ h
    simp only [deployRelay, Relay.other, deployed, bind_eq_ok] at h ⊢
    obtain ⟨l, ⟨c', hload, cpi', hcpi, chain, hchain, hledger⟩, hw₂⟩ := h
    obtain rfl : c = c' := Except.ok.inj (hd.load.symm.trans hload)
    refine ⟨l, ⟨c, hload, cpi', hcpi, chain, relayScanned_only ?_ hchain, hledger⟩, hw₂⟩
    simp only [authorizeDeploy, bind_eq_ok, Except.ok.injEq] at hcpi
    obtain ⟨_, hvalid, _, -, rfl⟩ := hcpi
    exact validateAuthorizedCpi_licensed hP
      (DepositAndDeployContext.load_of hload (List.mem_singleton.mpr hd.scope)) hvalid
  simp only [tryDepositAndDeploy, bind_eq_ok, Prod.exists] at h ⊢
  obtain ⟨_, hproof, _, hlen, deposit, hdeposit, sub, remaining, hsub, acc, tail, hacc, bump, hbump,
    _, hmint, _, hclean, action, haction, _, hverify, _, hscope, amount, hamount, _, hmatch, _,
    hauth, w₁, hw₁, hend⟩ := h
  exact ⟨(), hproof, (), hlen, deposit, hdeposit, sub, remaining, hsub, acc, tail, hacc, bump, hbump,
    (), hmint, (), hclean, action, haction, (), hverify, (), hscope, amount, hamount, (), hmatch, (),
    hauth, w₁, hw₁, hrun _ _ hend⟩

/-! ### Every instruction -/

variable {d d' : Deployment}

/-- **No instruction makes another call.**  On a host that refuses every call but those that the
stored actions license, it gives the same result. -/
theorem tryProcessInstruction_only
    (hP : ∀ l, d.stage = .live l → Covers rt l.world o.host.transaction i P)
    (h : tryProcessInstruction rt o d accounts i = .ok d') :
    tryProcessInstruction rt (o.only P) d accounts i = .ok d' := by
  have hworld : ∀ {f g : World → ProgramResult World}, d.onWorld f = .ok d' →
      (∀ l w', d.stage = .live l → f l.world = .ok w' → g l.world = .ok w') →
      d.onWorld g = .ok d' := by
    intro f g hf hfg
    obtain ⟨l, w', hl, hw, hd⟩ := onWorld_eq_ok.mp hf
    exact onWorld_eq_ok.mpr ⟨l, w', hl, hfg l w' hl hw, hd⟩
  have hchain : ∀ {f g : (Chain → World) → Chain → ProgramResult Chain}, d.onChain o f = .ok d' →
      (∀ l chain chain', d.stage = .live l → f l.world.beside chain = .ok chain' →
        g l.world.beside chain = .ok chain') → d.onChain (o.only P) g = .ok d' := by
    intro f g hf hfg
    refine hworld hf ?_
    intro l w' hl hw
    obtain ⟨chain, hrun, hw⟩ := map_eq_ok.mp hw
    exact map_eq_ok.mpr ⟨chain, hfg l _ _ hl hrun, hw⟩
  cases i
  all_goals simp only [tryProcessInstruction] at h ⊢
  case manage => exact hchain h fun l _ _ hl => tryManage_only (hP l hl)
  case manageBatch => exact hchain h fun l _ _ hl => tryManageBatch_only (hP l hl)
  case swap => exact hchain h fun l _ _ hl => trySwap_only (hP l hl)
  case setShareMetadata => exact hchain h fun l _ _ hl => trySetShareMetadata_only (hP l hl)
  case atomicRedeem => exact hworld h fun l _ hl => tryAtomicRedeem_only (hP l hl)
  case depositAndDeploy => exact hworld h fun l _ hl => tryDepositAndDeploy_only (hP l hl)
  all_goals exact h

end Roshi

import Roshi.Instructions.Registrations
import Roshi.Invariants

/-!
# What an instruction writes, and who signed

Over the books an instruction has an effect (`exec_effect`); over the rest of the record and
the tickets it has an author.  `Written` lists the writes there are, each with the signature it
needs: payments by anyone, tickets by their owners or the withdrawal authority, reports by the
NAV authority, the external balance by the strategist, everything else by the admin.

`exec_writes` is the one place where the instructions are taken apart for it.  `Tabled` and
`Redirected` do the same for the tables of actions and assets, and for destinations.
-/

namespace Roshi

open Lib

/-! ### Fields -/

namespace Vault

/-- `v` with the fields a report writes taken from `x`. -/
def withReport (v x : Vault) : Vault :=
  { v with
    totalAssets := x.totalAssets
    lockedProfit := x.lockedProfit
    profitUnlockStartTs := x.profitUnlockStartTs
    profitUnlockEndTs := x.profitUnlockEndTs
    feesPayable := x.feesPayable
    highWatermark := x.highWatermark
    reportEpoch := x.reportEpoch
    lastReportHash := x.lastReportHash
    lastUpdateTs := x.lastUpdateTs }

/-- `v` with the fields the admin sets taken from `x`. -/
def withAdministration (v x : Vault) : Vault :=
  { v with
    admin := x.admin
    strategist := x.strategist
    swapAuthority := x.swapAuthority
    navAuthority := x.navAuthority
    withdrawalAuthority := x.withdrawalAuthority
    baseOracle := x.baseOracle
    depositCap := x.depositCap
    treasury := x.treasury
    accessMerkleRoot := x.accessMerkleRoot
    controls := x.controls
    performanceFeeBps := x.performanceFeeBps
    withdrawalBufferBps := x.withdrawalBufferBps
    depositSubAccount := x.depositSubAccount
    withdrawSubAccount := x.withdrawSubAccount
    depositsPausedFlag := x.depositsPausedFlag
    withdrawalsPausedFlag := x.withdrawalsPausedFlag
    managePausedFlag := x.managePausedFlag
    privateFlag := x.privateFlag
    externalEnabledFlag := x.externalEnabledFlag }

end Vault

def Instruction.accounts : Instruction → List AccountInfo
  | .deposit accounts _ => accounts
  | .depositAndDeploy accounts _ _ _ => accounts
  | .redeem accounts _ => accounts
  | .cancelRedeem accounts _ => accounts
  | .processWithdrawals accounts => accounts
  | .atomicRedeem accounts _ _ _ => accounts
  | .reportNav accounts _ => accounts
  | .recoverNav accounts _ => accounts
  | .collectFees accounts _ _ => accounts
  | .writeDownFees accounts _ => accounts
  | .investExternal accounts _ _ => accounts
  | .returnExternal accounts _ _ => accounts
  | .updateVaultConfig accounts _ => accounts
  | .setPauseFlags accounts _ _ _ => accounts
  | .setVaultAccess accounts _ _ => accounts
  | .setStrategist accounts _ => accounts
  | .setSwapAuthority accounts _ => accounts
  | .setNavAuthority accounts _ => accounts
  | .setWithdrawalAuthority accounts _ => accounts
  | .transferVaultAuthority accounts _ => accounts

/-- What the instruction calls, if it does, changes the token ledger only. -/
def Instruction.TokensOnly (rt : Runtime) : Instruction → Prop
  | .depositAndDeploy _ _ authorize call => (call.relay rt authorize).TokensOnly
  | .atomicRedeem _ _ authorize call => (call.relay rt authorize).TokensOnly
  | _ => True

/-! ### Writes -/

/-- A ticket at its own address. -/
structure WithdrawalTicket.At (rt : Runtime) (t : WithdrawalTicket) (vaultKey key : Pubkey) :
    Prop where
  vault : t.vault = vaultKey
  address : ticketAddress rt vaultKey t.owner t.ticketIndex = (key, t.bump)

/-- The record and the tickets an instruction with `accounts` may leave behind. -/
inductive Written (rt : Runtime) (w : World) (accounts : List AccountInfo) :
    Vault → Table Pubkey WithdrawalTicket → Prop
  | paid {v : Vault} (hv : w.vault.PaidFrom v) : Written rt w accounts v w.tickets
  | opened {v : Vault} {key : Pubkey} {t : WithdrawalTicket} (hv : w.vault.PaidFrom v)
      (fresh : w.Vacant key) (at_ : t.At rt w.vaultKey key)
      (signed : SignedBy accounts t.owner) : Written rt w accounts v (w.tickets.insert key t)
  | cancelled {v : Vault} {key : Pubkey} {t : WithdrawalTicket} (hv : w.vault.PaidFrom v)
      (live : w.tickets.lookup key = some t) (signed : SignedBy accounts t.owner) :
      Written rt w accounts v (w.tickets.erase key)
  | processed {v : Vault} {rows : List (Pubkey × WithdrawalTicket)} (hv : w.vault.PaidFrom v)
      (nodup : (rows.map Prod.fst).Nodup) (live : ∀ r ∈ rows, w.tickets.lookup r.1 = some r.2)
      (signed : SignedBy accounts w.vault.withdrawalAuthority) :
      Written rt w accounts v (w.tickets.eraseAll (rows.map Prod.fst))
  | reported {v : Vault} (hv : v = w.vault.withReport v)
      (signed : SignedBy accounts w.vault.navAuthority) : Written rt w accounts v w.tickets
  | collected {v : Vault} (hv : v = { w.vault with feesPayable := v.feesPayable })
      (signed : SignedBy accounts w.vault.admin) : Written rt w accounts v w.tickets
  | invested {v : Vault} (hv : v = { w.vault with externalAssets := v.externalAssets })
      (signed : SignedBy accounts w.vault.strategist) : Written rt w accounts v w.tickets
  | administered {v : Vault} (hv : v = w.vault.withAdministration v)
      (signed : SignedBy accounts w.vault.admin) : Written rt w accounts v w.tickets

/-- From `w` to `w'` the record, the tickets and the ledger were written, and nothing else. -/
structure Writes (rt : Runtime) (w w' : World) (accounts : List AccountInfo) : Prop where
  world : w' = { w with ledger := w'.ledger, vault := w'.vault, tickets := w'.tickets }
  written : Written rt w accounts w'.vault w'.tickets

variable {rt : Runtime} {w w' : World} {accounts : List AccountInfo}

theorem Writes.of {v : Vault} {t : Table Pubkey WithdrawalTicket} {l : Ledger}
    (h : Written rt w accounts v t) :
    Writes rt w { w with ledger := l, vault := v, tickets := t } accounts := ⟨rfl, h⟩

/-- What payments leave alone is the same, or one of the four signed writes was made. -/
theorem Written.view {α : Type} {v : Vault} {t : Table Pubkey WithdrawalTicket} (f : Vault → α)
    (hpaid : ∀ x, f (w.vault.withPayment x) = f w.vault) (h : Written rt w accounts v t) :
    f v = f w.vault ∨
      v = w.vault.withReport v ∧ SignedBy accounts w.vault.navAuthority ∨
      v = { w.vault with feesPayable := v.feesPayable } ∧ SignedBy accounts w.vault.admin ∨
      v = { w.vault with externalAssets := v.externalAssets } ∧
        SignedBy accounts w.vault.strategist ∨
      v = w.vault.withAdministration v ∧ SignedBy accounts w.vault.admin := by
  cases h with
  | paid hv => exact .inl (hv.eq hpaid)
  | opened hv => exact .inl (hv.eq hpaid)
  | cancelled hv => exact .inl (hv.eq hpaid)
  | processed hv => exact .inl (hv.eq hpaid)
  | reported hv signed => exact .inr (.inl ⟨hv, signed⟩)
  | collected hv signed => exact .inr (.inr (.inl ⟨hv, signed⟩))
  | invested hv signed => exact .inr (.inr (.inr (.inl ⟨hv, signed⟩)))
  | administered hv signed => exact .inr (.inr (.inr (.inr ⟨hv, signed⟩)))

theorem Writes.vaultKey_eq (h : Writes rt w w' accounts) : w'.vaultKey = w.vaultKey := by
  rw [h.world]

theorem Writes.clock_eq (h : Writes rt w w' accounts) : w'.clock = w.clock := by
  rw [h.world]

theorem Writes.assets_eq (h : Writes rt w w' accounts) : w'.assets = w.assets := by
  rw [h.world]

theorem Writes.actions_eq (h : Writes rt w w' accounts) : w'.actions = w.actions := by
  rw [h.world]

theorem Writes.destinations_eq (h : Writes rt w w' accounts) :
    w'.destinations = w.destinations := by
  rw [h.world]

/-! ### One lemma per instruction -/

theorem executeDeposit_writes {c : DepositContext} {args : DepositArgs} (hc : c.Loaded w)
    (h : executeDeposit rt w c args = .ok w') : Writes rt w w' accounts := by
  obtain ⟨_, _, _, _, total, l, l', -, -, -, -, -, -, -, rfl⟩ := executeDeposit_spec hc h
  exact .of (.paid rfl)

theorem tryDeposit_writes {args : DepositArgs} (h : tryDeposit rt w accounts args = .ok w') :
    Writes rt w w' accounts := by
  simp only [tryDeposit, bind_eq_ok] at h
  obtain ⟨_, -, c, hc, h⟩ := h
  exact executeDeposit_writes (DepositContext.load_spec hc) h

theorem tryDepositAndDeploy_writes {args : DepositAndDeployArgs} {relay : Relay}
    (hr : relay.TokensOnly) (h : tryDepositAndDeploy rt w accounts args relay = .ok w') :
    Writes rt w w' accounts := by
  simp only [tryDepositAndDeploy, bind_eq_ok, Prod.exists] at h
  obtain ⟨_, -, _, -, c, hc, _, _, -, _, _, -, _, -, _, -, _, -, _, -, _, -, _, -, _, -, _, -, _, -,
    w₁, hw₁, hrun⟩ := h
  obtain ⟨l, rfl⟩ := hr _ _ hrun
  obtain ⟨_, _, _, _, total, l₁, l₂, -, -, -, -, -, -, -, rfl⟩ :=
    executeDeposit_spec (DepositContext.load_spec hc) hw₁
  exact .of (.paid rfl)

theorem RedeemContext.load_opens {args : RedeemArgs} {c : RedeemContext}
    (h : RedeemContext.load rt w accounts args = .ok c) :
    SignedBy accounts c.owner.key ∧ w.Vacant c.ticket.key := by
  simp only [RedeemContext.load, bind_eq_ok, Prod.exists, Except.ok.injEq, nextAccount_eq_ok,
    requireWritableSigner_eq_ok] at h
  obtain ⟨owner, _, rfl, _, ⟨hs, -⟩, _, _, -, _, -, _, _, -, _, -, _, _, -, _, -, _, _, -, _, _, -,
    _, hnew, _, _, -, _, -, _, _, -, _, -, v, -, _, -, _, -, _, -, _, -, rfl⟩ := h
  exact ⟨.head hs, requireUninitializedAccount_eq_ok hnew⟩

theorem tryRedeem_writes {args : RedeemArgs} (h : tryRedeem rt w accounts args = .ok w') :
    Writes rt w w' accounts := by
  rw [tryRedeem, bind_eq_ok] at h
  obtain ⟨c, hload, h⟩ := h
  have hc := RedeemContext.load_spec hload
  simp only [RedeemContext.createTicket, bind_eq_ok, Except.ok.injEq, okOr_eq_ok, hc.vault_eq] at h
  obtain ⟨_, -, _, -, _, -, _, -, _, -, _, -, _, -, _, -, l, -, _, ⟨_, -, rfl⟩, requested, -,
    rfl⟩ := h
  obtain ⟨hsigned, hnew⟩ := RedeemContext.load_opens hload
  refine .of (.opened rfl hnew ⟨hc.key_eq, ?_⟩ hsigned)
  exact Prod.ext hc.ticket_key.symm hc.ticket_bump.symm

theorem CancelRedeemContext.load_signed {c : CancelRedeemContext}
    (h : CancelRedeemContext.load rt w accounts = .ok c) : SignedBy accounts c.ticket.owner := by
  simp only [CancelRedeemContext.load, bind_eq_ok, Prod.exists, Except.ok.injEq, nextAccount_eq_ok,
    requireWritableSigner_eq_ok, rejectIf_eq_ok, not_or, not_not] at h
  obtain ⟨owner, _, rfl, _, ⟨hs, -⟩, _, _, -, _, -, _, _, -, _, -, _, _, -, _, -, _, _, -, _, -,
    _, _, -, _, -, v, -, _, -, t, -, _, ⟨-, howner⟩, _, -, _, -, rfl⟩ := h
  exact howner ▸ SignedBy.head hs

theorem tryCancelRedeem_writes {minSharesOut : U64}
    (h : tryCancelRedeem rt w accounts minSharesOut = .ok w') : Writes rt w w' accounts := by
  rw [tryCancelRedeem, bind_eq_ok] at h
  obtain ⟨c, hload, h⟩ := h
  have hc := CancelRedeemContext.load_spec hload
  simp only [bind_eq_ok, Except.ok.injEq, okOr_eq_ok, hc.vault_eq] at h
  obtain ⟨_, -, _, -, _, -, _, -, _, -, _, -, _, -, l, -, requested, -, rfl⟩ := h
  exact .of (.cancelled rfl hc.lookup (CancelRedeemContext.load_signed hload))

/-- Striking writes what payments write, priced tickets or not, and keeps the batch in its order. -/
theorem strikeAll_keeps {v v' : Vault} {supply settled settled' : U64} {now : I64}
    {l l' : List TicketSettlement}
    (h : strikeAll supply now v settled l = .ok (v', settled', l')) :
    v.PaidFrom v' ∧ keysOf l' = keysOf l := by
  induction l generalizing v settled l' with
  | nil =>
    cases h
    exact ⟨.refl _, rfl⟩
  | cons s l ih =>
    simp only [strikeAll, bind_eq_ok, Prod.exists, Except.ok.injEq, Prod.mk.injEq] at h
    obtain ⟨v₁, t, hstrike, settled₁, -, v₂, settled₂, l₂, hrest, rfl, rfl, rfl⟩ := h
    obtain ⟨hpaid, hkeys⟩ := ih hrest
    refine ⟨Vault.PaidFrom.trans ?_ hpaid, congrArg (s.ticketAccount.key :: ·) hkeys⟩
    rw [strikeUnpriced] at hstrike
    split at hstrike
    · exact (strikeTicket_spec hstrike).2.2.frame
    · cases hstrike
      exact .refl _

theorem ProcessWithdrawalsContext.load_signed {c : ProcessWithdrawalsContext}
    (h : ProcessWithdrawalsContext.load rt w accounts = .ok c) :
    SignedBy accounts w.vault.withdrawalAuthority := by
  simp only [ProcessWithdrawalsContext.load, bind_eq_ok, Prod.exists, nextAccount_eq_ok] at h
  obtain ⟨authority, _, rfl, _, _, -, _, -, v, hv, _, hrole, -⟩ := h
  obtain ⟨rfl, -, -⟩ := loadChecked_eq_ok hv
  exact signedBy_of_verifyRole hrole

theorem tryProcessWithdrawals_writes (h : tryProcessWithdrawals rt w accounts = .ok w') :
    Writes rt w w' accounts := by
  rw [tryProcessWithdrawals, bind_eq_ok] at h
  obtain ⟨c, hload, h⟩ := h
  have hc := ProcessWithdrawalsContext.load_spec hload
  simp only [process, bind_eq_ok, Prod.exists, Except.ok.injEq, hc.vault_eq] at h
  obtain ⟨s, -, v₁, settled, batch, hstrike, _, -, l, tickets, hsettle, p, -, _, -, rfl⟩ := h
  obtain ⟨hpaid, hkeys⟩ := strikeAll_keeps hstrike
  obtain ⟨-, rfl⟩ := settleAll_spec hsettle
  have hrows : batch.map (fun s => s.ticketAccount.key) =
      (c.tickets.map TicketSettlement.row).map Prod.fst := by
    rw [← keysOf, ← hkeys, keysOf, List.map_map]
    rfl
  rw [hrows]
  exact .of (.processed (hpaid.trans rfl) hc.batch.nodup hc.batch.live
    (ProcessWithdrawalsContext.load_signed hload))

theorem tryAtomicRedeem_writes {args : AtomicRedeemArgs} {relay : Relay} (hr : relay.TokensOnly)
    (h : tryAtomicRedeem rt w accounts args relay = .ok w') : Writes rt w w' accounts := by
  obtain ⟨c, _, _, _, _, payout, w₁, _, l, v', -, -, -, -, -, hrun, -, -, -, -, -, hv', -, rfl⟩ :=
    tryAtomicRedeem_spec h
  obtain ⟨l₁, rfl⟩ := hr _ _ hrun
  obtain ⟨r, total, -, -, -, rfl⟩ := Vault.debit_spec.mp hv'
  exact .of (.paid rfl)

theorem applyNavReport_signed {args : NavReport} {kind : ReportKind}
    (h : applyNavReport rt w accounts args kind = .ok w') :
    SignedBy accounts w.vault.navAuthority := by
  simp only [applyNavReport, bind_eq_ok, Prod.exists, nextAccount_eq_ok, verifyReporters] at h
  obtain ⟨nav, _, rfl, _, _, -, _, _, -, _, -, v, hv, _, ⟨_, hrole, -⟩, -⟩ := h
  obtain ⟨rfl, -, -⟩ := loadChecked_eq_ok hv
  exact signedBy_of_verifyRole hrole

theorem applyNavReport_writes {args : NavReport} {kind : ReportKind}
    (h : applyNavReport rt w accounts args kind = .ok w') : Writes rt w w' accounts := by
  have hsigned := applyNavReport_signed h
  obtain ⟨G, S, v', -, -, -, hv', -, rfl⟩ := applyNavReport_spec h
  obtain ⟨B, fee, net, hwm, fees, epoch, v₁, -, -, -, -, hv₁, rfl⟩ := recordReport_spec hv'
  obtain ⟨E, -, ⟨-, gain, stop, -, -, rfl⟩ | ⟨-, rfl⟩⟩ := Vault.report_spec.mp hv₁
  -- with a drip and without one, the same fields are written
  all_goals exact .of (.reported rfl hsigned)

theorem verifyManageEnabled_eq_ok {v : Vault} {u : Unit} :
    v.verifyManageEnabled = .ok u ↔ v.managePaused = .ok false := by
  simp only [Vault.verifyManageEnabled, bind_eq_ok, rejectIf_eq_ok, Bool.not_eq_true]
  constructor
  · rintro ⟨b, hb, rfl⟩
    exact hb
  · exact fun h => ⟨false, h, rfl⟩

/-- What `load_writable_vault_as` finds at the head of the list. -/
theorem signedBy_of_loadWritableVaultAs {a b : AccountInfo} {rest : List AccountInfo} {role : Role}
    {v : Vault} (h : loadWritableVaultAs rt w a b role = .ok v) :
    SignedBy (a :: rest) (w.vault.authorityForRole role) := by
  obtain ⟨hs, hkey⟩ := loadWritableVaultAs_signed h
  exact hkey ▸ SignedBy.head hs

theorem tryCollectFees_signed {subAccount : U8} {amount : U64}
    (h : tryCollectFees rt w accounts subAccount amount = .ok w') :
    SignedBy accounts w.vault.admin := by
  simp only [tryCollectFees, bind_eq_ok, Prod.exists, nextAccount_eq_ok] at h
  obtain ⟨_, -, admin, _, rfl, _, _, -, v, hv, -⟩ := h
  exact signedBy_of_loadWritableVaultAs hv

theorem tryCollectFees_writes {subAccount : U8} {amount : U64}
    (h : tryCollectFees rt w accounts subAccount amount = .ok w') : Writes rt w w' accounts := by
  have hsigned := tryCollectFees_signed h
  obtain ⟨_, _, _, _, l, fees, -, -, -, rfl⟩ := tryCollectFees_spec h
  exact .of (.collected rfl hsigned)

theorem updateWritableVaultAsAdmin_signed {update : Vault → ProgramResult Vault}
    (h : updateWritableVaultAsAdmin rt w accounts update = .ok w') :
    SignedBy accounts w.vault.admin := by
  simp only [updateWritableVaultAsAdmin, bind_eq_ok, Prod.exists, nextAccount_eq_ok] at h
  obtain ⟨admin, _, rfl, _, _, -, v, hv, -⟩ := h
  exact signedBy_of_loadWritableVaultAs hv

theorem tryWriteDownFees_writes {amount : U64}
    (h : tryWriteDownFees rt w accounts amount = .ok w') : Writes rt w w' accounts := by
  simp only [tryWriteDownFees, bind_eq_ok] at h
  obtain ⟨_, -, h⟩ := h
  have hsigned := updateWritableVaultAsAdmin_signed h
  obtain ⟨v', hv', -, rfl⟩ := updateWritableVaultAsAdmin_spec h
  simp only [bind_eq_ok, Except.ok.injEq] at hv'
  obtain ⟨fees, -, rfl⟩ := hv'
  exact .of (.collected rfl hsigned)

theorem tryInvestExternal_gate {subAccount : U8} {amount : U64}
    (h : tryInvestExternal rt w accounts subAccount amount = .ok w') :
    w.vault.managePaused = .ok false ∧ w.vault.externalEnabled = .ok true ∧
      SignedBy accounts w.vault.strategist := by
  simp only [tryInvestExternal, bind_eq_ok, Prod.exists, nextAccount_eq_ok, rejectIf_eq_ok,
    Bool.not_eq_false, verifyManageEnabled_eq_ok] at h
  obtain ⟨_, -, strategist, _, rfl, _, _, -, v, hv, _, hmanage, enabled, henabled, _, rfl, -⟩ := h
  obtain ⟨rfl, -⟩ := loadWritableVaultAs_eq_ok hv
  exact ⟨hmanage, henabled, signedBy_of_loadWritableVaultAs hv⟩

theorem tryInvestExternal_writes {subAccount : U8} {amount : U64}
    (h : tryInvestExternal rt w accounts subAccount amount = .ok w') :
    Writes rt w w' accounts := by
  obtain ⟨-, -, hsigned⟩ := tryInvestExternal_gate h
  obtain ⟨l, ext, -, -, rfl⟩ := tryInvestExternal_spec h
  exact .of (.invested rfl hsigned)

theorem tryReturnExternal_gate {subAccount : U8} {amount : U64}
    (h : tryReturnExternal rt w accounts subAccount amount = .ok w') :
    w.vault.managePaused = .ok false ∧ w.vault.externalEnabled = .ok true ∧
      SignedBy accounts w.vault.strategist := by
  simp only [tryReturnExternal, bind_eq_ok, Prod.exists, nextAccount_eq_ok, rejectIf_eq_ok,
    Bool.not_eq_false, verifyManageEnabled_eq_ok] at h
  obtain ⟨_, -, strategist, _, rfl, _, _, -, _, -, _, _, -, v, hv, _, hmanage, enabled, henabled, _,
    rfl, -⟩ := h
  obtain ⟨rfl, -⟩ := loadWritableVaultAs_eq_ok hv
  exact ⟨hmanage, henabled, signedBy_of_loadWritableVaultAs hv⟩

theorem tryReturnExternal_writes {subAccount : U8} {amount : U64}
    (h : tryReturnExternal rt w accounts subAccount amount = .ok w') :
    Writes rt w w' accounts := by
  obtain ⟨-, -, hsigned⟩ := tryReturnExternal_gate h
  obtain ⟨l, ext, -, -, rfl⟩ := tryReturnExternal_spec h
  exact .of (.invested rfl hsigned)

theorem tryUpdateVaultConfig_signed {args : UpdateVaultConfigArgs}
    (h : tryUpdateVaultConfig rt w accounts args = .ok w') : SignedBy accounts w.vault.admin := by
  simp only [tryUpdateVaultConfig, bind_eq_ok, Prod.exists, nextAccount_eq_ok] at h
  obtain ⟨admin, _, rfl, _, _, -, v, hv, -⟩ := h
  exact signedBy_of_loadWritableVaultAs hv

theorem tryUpdateVaultConfig_writes {args : UpdateVaultConfigArgs}
    (h : tryUpdateVaultConfig rt w accounts args = .ok w') : Writes rt w w' accounts := by
  have hsigned := tryUpdateVaultConfig_signed h
  obtain ⟨-, rfl⟩ := tryUpdateVaultConfig_spec h
  exact .of (.administered rfl hsigned)

/-- A setter writes what the admin may set. -/
theorem setter_writes {f : Vault → Vault}
    (h : updateWritableVaultAsAdmin rt w accounts (fun v => .ok (f v)) = .ok w')
    (hf : ∀ v : Vault, f v = v.withAdministration (f v)) : Writes rt w w' accounts := by
  have hsigned := updateWritableVaultAsAdmin_signed h
  obtain ⟨v', hv', -, rfl⟩ := updateWritableVaultAsAdmin_spec h
  cases hv'
  exact .of (.administered (hf _) hsigned)

/-- **What a successful instruction writes, somebody entitled to it signed.** -/
theorem exec_writes {i : Instruction} (hi : i.TokensOnly rt) (h : exec rt w i = .ok w') :
    Writes rt w w' i.accounts := by
  cases i with
  | deposit => exact tryDeposit_writes h
  | depositAndDeploy => exact tryDepositAndDeploy_writes hi h
  | redeem => exact tryRedeem_writes h
  | cancelRedeem => exact tryCancelRedeem_writes h
  | processWithdrawals => exact tryProcessWithdrawals_writes h
  | atomicRedeem => exact tryAtomicRedeem_writes hi h
  | reportNav => exact applyNavReport_writes h
  | recoverNav => exact applyNavReport_writes h
  | collectFees => exact tryCollectFees_writes h
  | writeDownFees => exact tryWriteDownFees_writes h
  | investExternal => exact tryInvestExternal_writes h
  | returnExternal => exact tryReturnExternal_writes h
  | updateVaultConfig => exact tryUpdateVaultConfig_writes h
  | setPauseFlags => exact setter_writes h fun _ => rfl
  | setVaultAccess => exact setter_writes h fun _ => rfl
  | setStrategist => exact setter_writes h fun _ => rfl
  | setSwapAuthority => exact setter_writes h fun _ => rfl
  | setNavAuthority => exact setter_writes h fun _ => rfl
  | setWithdrawalAuthority => exact setter_writes h fun _ => rfl
  | transferVaultAuthority => exact setter_writes h fun _ => rfl

/-! ### Actions and assets -/

/-- A new action at `key`: admin-signed, at the address of its hash, with ops that decode, and
some of them when anyone may run it. -/
structure ActionAuthorized (rt : Runtime) (w : World) (accounts : List AccountInfo) (key : Pubkey)
    (a : Action) : Prop where
  signed : SignedBy accounts w.vault.admin
  fresh : w.Vacant key
  vault : a.vault = w.vaultKey
  address : actionAddress rt w.vaultKey a.actionHash = (key, a.bump)
  ops : validateOps a.ops = .ok ()
  relay : verifyRelayOps a.scope a.ops = .ok ()

/-- The tables of actions and assets an instruction with `accounts` may leave behind. -/
inductive Tabled (rt : Runtime) (w : World) (accounts : List AccountInfo) : World → Prop
  | authorized {key : Pubkey} {a : Action} (h : ActionAuthorized rt w accounts key a) :
      Tabled rt w accounts (w.setAction key (some a))
  | revoked {key : Pubkey} {a : Action} (live : w.actions key = some a)
      (signed : SignedBy accounts w.vault.admin) : Tabled rt w accounts (w.setAction key none)
  | rated {key : Pubkey} {a : Action} {role : Role} (feeNum feeDen : U64)
      (live : w.actions key = some a) (hrole : role = .admin ∨ role = .strategist)
      (signed : SignedBy accounts (w.vault.authorityForRole role)) :
      Tabled rt w accounts (w.setAction key (some { a with feeNum, feeDen }))
  | listed {key : Pubkey} {a : Asset} {args : InitializeAssetArgs}
      (h : AssetRegistered rt w accounts args key a) : Tabled rt w accounts (w.setAsset key a)
  | updated {key : Pubkey} {a : Asset} {args : UpdateAssetArgs} (live : w.assets key = some a)
      (signed : SignedBy accounts w.vault.admin)
      (valid : (a.withSettings args).validateState = .ok ()) :
      Tabled rt w accounts (w.setAsset key (a.withSettings args))

theorem tryAuthorizeAction_tabled {args : AuthorizeActionArgs}
    (h : tryAuthorizeAction rt w accounts args = .ok w') :
    ∃ key a, a.actionHash = args.actionHash ∧ a.scope = args.scope ∧ a.ops = args.ops ∧
      ActionAuthorized rt w accounts key a ∧ w' = w.setAction key (some a) := by
  simp only [tryAuthorizeAction, loadAuthorizeAction, bind_eq_ok, Prod.exists, Except.ok.injEq,
    Prod.mk.injEq, nextAccount_eq_ok, rejectIf_eq_ok, not_not] at h
  obtain ⟨_, bump, ⟨admin, _, rfl, _, -, vaultAccount, _, rfl, action, _, rfl, _, hnew, _, _, rfl, _,
    -, v, hv, _, haddress, rfl, rfl⟩, _, hops, _, hrelay, _, -, rfl⟩ := h
  obtain ⟨-, hvault, -, -⟩ := loadVaultAs_eq_ok hv
  rw [hvault] at haddress ⊢
  exact ⟨action.key, _, rfl, rfl, rfl, ⟨signedBy_of_loadVaultAs hv,
    requireUninitializedAccount_eq_ok hnew, rfl, Prod.ext haddress.symm rfl, hops, hrelay⟩, rfl⟩

theorem tryRevokeAction_tabled {actionHash : Bytes 32}
    (h : tryRevokeAction rt w accounts actionHash = .ok w') : Tabled rt w accounts w' := by
  simp only [tryRevokeAction, bind_eq_ok, Prod.exists, Except.ok.injEq, nextAccount_eq_ok,
    loadAction_eq_ok] at h
  obtain ⟨admin, _, rfl, _, -, _, _, rfl, action, _, rfl, _, -, v, hv, _, -, a, ha, _, -, rfl⟩ := h
  exact .revoked ha (signedBy_of_loadVaultAs hv)

theorem updateActionFlashFee_signed {role : Role} {update : Action → ProgramResult (U64 × U64)}
    (h : updateActionFlashFee rt w accounts role update = .ok w') :
    SignedBy accounts (w.vault.authorityForRole role) := by
  simp only [updateActionFlashFee, bind_eq_ok, Prod.exists, nextAccount_eq_ok] at h
  obtain ⟨authority, _, rfl, _, _, -, _, _, -, _, -, v, hv, -⟩ := h
  exact signedBy_of_loadVaultAs hv

theorem updateActionFlashFee_tabled {role : Role} {update : Action → ProgramResult (U64 × U64)}
    (hrole : role = .admin ∨ role = .strategist)
    (h : updateActionFlashFee rt w accounts role update = .ok w') : Tabled rt w accounts w' := by
  have hsigned := updateActionFlashFee_signed h
  obtain ⟨key, a, feeNum, feeDen, ha, -, rfl⟩ := updateActionFlashFee_spec h
  exact .rated feeNum feeDen ha hrole hsigned

theorem tryInitializeAsset_tabled {args : InitializeAssetArgs}
    (h : tryInitializeAsset rt w accounts args = .ok w') : Tabled rt w accounts w' := by
  obtain ⟨key, a, ha, rfl⟩ := tryInitializeAsset_spec h
  exact .listed ha

theorem tryUpdateAsset_tabled {args : UpdateAssetArgs}
    (h : tryUpdateAsset rt w accounts args = .ok w') : Tabled rt w accounts w' := by
  obtain ⟨key, a, hsigned, ha, hvalid, rfl⟩ := tryUpdateAsset_spec h
  exact .updated ha hsigned hvalid

/-! ### Destinations -/

/-- The registrations an instruction with `accounts` may leave behind. -/
inductive Redirected (rt : Runtime) (w : World) (r : Registrations) (accounts : List AccountInfo) :
    Registrations → Prop
  | registered {key : Pubkey} {d : ExternalDestination}
      (h : DestinationRegistered rt w accounts key d) :
      Redirected rt w r accounts (r.set key (some d))
  | revoked {key : Pubkey} {d : ExternalDestination} (live : r key = some d)
      (signed : SignedBy accounts w.vault.admin) : Redirected rt w r accounts (r.set key none)

variable {r r' : Registrations}

theorem tryRegisterExternalDestination_redirected
    (h : tryRegisterExternalDestination rt w r accounts = .ok r') :
    Redirected rt w r accounts r' := by
  obtain ⟨key, d, hd, rfl⟩ := tryRegisterExternalDestination_spec h
  exact .registered hd

theorem tryRevokeExternalDestination_redirected
    (h : tryRevokeExternalDestination rt w r accounts = .ok r') :
    Redirected rt w r accounts r' := by
  obtain ⟨key, d, hsigned, hd, rfl⟩ := tryRevokeExternalDestination_spec h
  exact .revoked hd hsigned

end Roshi

import Roshi.World

/-!
# NAV reports

`admin/report_nav.rs`: `ReportNav` and its two-signature sibling `RecoverNav`.  Gross
NAV is the base idle in the deposit and withdraw ATAs plus the reported external
value; fees payable and pending withdrawals come off it before the performance fee.
-/

namespace Roshi

open Lib

variable (rt : Runtime)

inductive ReportKind where
  | ordinary
  | recovery
  deriving DecidableEq, Repr

structure NavReport where
  externalValue : U64
  reportHash : Bytes 32

def expectBaseCustody (vaultKey : Pubkey) (subAccountIndex : U8) (baseMint baseTokenProgram : Pubkey)
    (custody : AccountInfo) : ProgramResult Pubkey := do
  let (subAccount, _) := subAccountAddress rt vaultKey subAccountIndex
  let expected := associatedTokenAddress rt subAccount baseMint baseTokenProgram
  rejectIf (custody.key ≠ expected) .invalidSeeds
  .ok expected

/-- An uncreated ATA holds nothing. -/
def custodyAmount (w : World) (custody : AccountInfo) : ProgramResult U64 :=
  if w.initialized custody.key = false then .ok 0 else w.ledger.tokenAmount custody

/-- A report is given by the NAV authority; a recovery also needs the admin. -/
def verifyReporters (v : Vault) (navAuthority : AccountInfo) (admin : Option AccountInfo) :
    ProgramResult Unit := do
  verifyRole v .navAuthority navAuthority
  match admin with
  | some admin => verifyRole v .admin admin
  | none => .ok ()

/-- The recovering admin comes second in the account list. -/
def nextAdmin (kind : ReportKind) (accounts : List AccountInfo) :
    ProgramResult (Option AccountInfo × List AccountInfo) :=
  match kind with
  | .recovery => do
    let (admin, accounts) ← nextAccount accounts
    .ok (some admin, accounts)
  | .ordinary => .ok (none, accounts)

/-- Recovery is for a vault whose deposits are paused and whose price rounded to zero. -/
def verifyRecovery (v : Vault) (economicShareSupply : U64) (kind : ReportKind) :
    ProgramResult Unit :=
  match kind with
  | .ordinary => .ok ()
  | .recovery => do
    rejectIf ((← v.depositsPaused) = false) (.custom .depositsMustBePaused)
    rejectIf (economicShareSupply = 0) (.custom .invalidVaultState)
    rejectIf ((← into (sharePriceFromAssets v.totalAssets economicShareSupply)) ≠ 0)
      (.custom .invalidVaultState)

/-- Idle base: the two ATAs, counted once when they coincide. -/
def readIdle (w : World) (v : Vault) (vaultKey baseTokenProgram : Pubkey)
    (depositCustody withdrawCustody : AccountInfo) : ProgramResult U64 := do
  let depositAta ←
    expectBaseCustody rt vaultKey v.depositSubAccount v.baseMint baseTokenProgram depositCustody
  let withdrawAta ←
    expectBaseCustody rt vaultKey v.withdrawSubAccount v.baseMint baseTokenProgram withdrawCustody
  let idle ← custodyAmount w depositCustody
  if withdrawAta ≠ depositAta then do
    let more ← custodyAmount w withdrawCustody
    okOr (checkedAdd idle more) (.custom .overflow)
  else .ok idle

def verifyGain (v : Vault) (net economicShareSupply : U64) (kind : ReportKind) :
    ProgramResult Unit :=
  match kind with
  | .ordinary => v.verifyNavGainBound net economicShareSupply
  | .recovery => .ok ()

/-- The record after a report of `grossTotalAssets`: fee, watermark, epoch, NAV, stamp. -/
def recordReport (v : Vault) (grossTotalAssets economicShareSupply : U64) (reportHash : Bytes 32)
    (kind : ReportKind) (now : I64) : ProgramResult Vault := do
  let lessFees ← okOr (checkedSub grossTotalAssets v.feesPayable) (.custom .invalidVaultState)
  let feeBase ← okOr (checkedSub lessFees v.pendingWithdrawalAssets) (.custom .invalidVaultState)
  let (feeAssets, netTotalAssets, highWatermark) ←
    into (performanceFeeForNav feeBase economicShareSupply v.highWatermark v.performanceFeeBps)
  verifyGain v netTotalAssets economicShareSupply kind
  let feesPayable ← okOr (checkedAdd v.feesPayable feeAssets) (.custom .overflow)
  let reportEpoch ← okOr (checkedAdd v.reportEpoch 1) (.custom .overflow)
  let v := { v with feesPayable, highWatermark, reportEpoch, lastReportHash := reportHash }
  -- the drip window derives from the previous `last_update_ts`
  let v ← v.applyReportedNav netTotalAssets now
  .ok { v with lastUpdateTs := now }

def applyNavReport (w : World) (accounts : List AccountInfo) (args : NavReport)
    (kind : ReportKind) : ProgramResult World := do
  let (navAuthority, accounts) ← nextAccount accounts
  let (admin, accounts) ← nextAdmin kind accounts
  let (vaultAccount, accounts) ← nextAccount accounts
  requireWritable vaultAccount
  let vault ← w.loadChecked rt vaultAccount
  verifyReporters vault navAuthority admin
  let now := w.clock.unixTimestamp
  vault.verifyReportInterval now
  let (shareMint, accounts) ← nextAccount accounts
  verifyShareMint vault shareMint
  let shareSupply ← w.ledger.mintSupply shareMint
  let economicShareSupply ← vault.economicShareSupply shareSupply
  verifyRecovery vault economicShareSupply kind
  rejectIf (args.reportHash = Bytes.zero 32) (.custom .invalidVaultState)
  let (baseMintAccount, accounts) ← nextAccount accounts
  let (depositCustody, accounts) ← nextAccount accounts
  let (withdrawCustody, _) ← nextAccount accounts
  let baseMint ← w.ledger.verifyMint baseMintAccount vault.baseMint vault.baseDecimals none
  let idle ← readIdle rt w vault vaultAccount.key baseMint.program depositCustody withdrawCustody
  let grossTotalAssets ← okOr (checkedAdd idle args.externalValue) (.custom .overflow)
  let vault ←
    recordReport vault grossTotalAssets economicShareSupply args.reportHash kind now
  vault.validateState
  .ok { w with vault }

def tryReportNav (w : World) (accounts : List AccountInfo) (args : NavReport) :
    ProgramResult World :=
  applyNavReport rt w accounts args .ordinary

def tryRecoverNav (w : World) (accounts : List AccountInfo) (args : NavReport) :
    ProgramResult World :=
  applyNavReport rt w accounts args .recovery

/-! ### What a report does -/

variable {rt} {w w' : World} {accounts : List AccountInfo} {v v' : Vault}

/-- The record around `apply_reported_nav`. -/
theorem recordReport_spec {G S : U64} {hash : Bytes 32} {kind : ReportKind} {now : I64}
    (h : recordReport v G S hash kind now = .ok v') :
    ∃ B fee net hwm fees epoch v₁,
      B.toNat + v.feesPayable.toNat + v.pendingWithdrawalAssets.toNat = G.toNat ∧
      performanceFeeForNav B S v.highWatermark v.performanceFeeBps = .ok (fee, net, hwm) ∧
      fees.toNat = v.feesPayable.toNat + fee.toNat ∧ epoch.toNat = v.reportEpoch.toNat + 1 ∧
      Vault.applyReportedNav { v with
        feesPayable := fees, highWatermark := hwm, reportEpoch := epoch, lastReportHash := hash }
        net now = .ok v₁ ∧
      v' = { v₁ with lastUpdateTs := now } := by
  simp only [recordReport, bind_eq_ok, okOr_eq_ok, checkedSub_eq_some, checkedAdd_eq_some,
    into_eq_ok, Prod.exists, Except.ok.injEq] at h
  obtain ⟨x, hx, B, hB, fee, net, hwm, hperf, _, -, fees, hfees, epoch, hepoch, v₁, hv₁, rfl⟩ := h
  have hone : (1 : U64).toNat = 1 := rfl
  exact ⟨B, fee, net, hwm, fees, epoch, v₁, by omega, hperf, hfees, by omega, hv₁, rfl⟩

/-- An ordinary report passed the gain bound with the assets it stored. -/
theorem recordReport_gain {G S : U64} {hash : Bytes 32} {now : I64}
    (h : recordReport v G S hash .ordinary now = .ok v') :
    v.verifyNavGainBound v'.totalAssets S = .ok () := by
  simp only [recordReport, bind_eq_ok, Prod.exists, Except.ok.injEq] at h
  obtain ⟨_, -, _, -, _, net, _, -, _, hgain, _, -, _, -, v₁, hv₁, rfl⟩ := h
  have hnet : v₁.totalAssets = net := by
    obtain ⟨E, -, ⟨-, gain, stop, -, -, rfl⟩ | ⟨-, rfl⟩⟩ := Vault.report_spec.mp hv₁
    · rfl
    · rfl
  show v.verifyNavGainBound v₁.totalAssets S = .ok ()
  rw [hnet]
  exact hgain

/-- The base ATA of the vault's sub-account `index`. -/
def baseAta (rt : Runtime) (w : World) (program : Pubkey) (index : U8) : Pubkey :=
  associatedTokenAddress rt (subAccountAddress rt w.vaultKey index).1 w.vault.baseMint program

/-- The base balance of the deposit and withdraw ATAs under a ledger, counted once when
they coincide. -/
def idleBase (rt : Runtime) (w : World) (program : Pubkey) (l : Ledger) : Nat :=
  (l.balance (baseAta rt w program w.vault.depositSubAccount)).toNat +
    if baseAta rt w program w.vault.withdrawSubAccount ≠
        baseAta rt w program w.vault.depositSubAccount then
      (l.balance (baseAta rt w program w.vault.withdrawSubAccount)).toNat
    else 0

theorem custodyAmount_eq_ok {a : AccountInfo} {n : U64} (h : custodyAmount w a = .ok n) :
    w.ledger.balance a.key = n := by
  unfold custodyAmount at h
  split at h
  · rename_i hun
    cases h
    have hnone : w.ledger.accounts a.key = none := by
      simp only [World.initialized, Ledger.programOf, Bool.or_eq_false_iff] at hun
      cases hacc : w.ledger.accounts a.key with
      | none => rfl
      | some t => simp [hacc] at hun
    rw [Ledger.balance, hnone]
  · exact Ledger.tokenAmount_eq_ok h

theorem readIdle_eq_ok {program : Pubkey} {dep wd : AccountInfo} {idle : U64}
    (h : readIdle rt w w.vault w.vaultKey program dep wd = .ok idle) :
    idle.toNat = idleBase rt w program w.ledger := by
  simp only [readIdle, expectBaseCustody, bind_eq_ok, rejectIf_eq_ok, not_not,
    Except.ok.injEq] at h
  obtain ⟨d, ⟨_, hd, rfl⟩, x, ⟨_, hx, rfl⟩, i, hi, h⟩ := h
  have hd : dep.key = baseAta rt w program w.vault.depositSubAccount := hd
  have hx : wd.key = baseAta rt w program w.vault.withdrawSubAccount := hx
  have hi := custodyAmount_eq_ok hi
  rw [hd] at hi
  rw [idleBase, hi]
  split at h
  · rename_i hne
    simp only [bind_eq_ok, okOr_eq_ok, checkedAdd_eq_some] at h
    obtain ⟨more, hmore, hsum⟩ := h
    have hmore := custodyAmount_eq_ok hmore
    rw [hx] at hmore
    rw [if_pos (show baseAta rt w program _ ≠ baseAta rt w program _ from hne), hmore, hsum]
  · rename_i heq
    cases h
    rw [if_neg (show ¬ baseAta rt w program _ ≠ baseAta rt w program _ from heq), Nat.add_zero]

/-- The gross value of a report: the idle base plus the reported external value. -/
def grossTotalAssets (rt : Runtime) (w : World) (args : NavReport) : Nat :=
  match w.ledger.mints w.vault.baseMint with
  | some m => idleBase rt w m.program w.ledger + args.externalValue.toNat
  | none => 0

/-- **A report** changes nothing but the record, and stores a valid one. -/
theorem applyNavReport_spec {args : NavReport} {kind : ReportKind}
    (h : applyNavReport rt w accounts args kind = .ok w') :
    ∃ (G S : U64) (v' : Vault), w.vault.WellFormed ∧
      S.toNat = w.economicSupply ∧ G.toNat = grossTotalAssets rt w args ∧
      recordReport w.vault G S args.reportHash kind w.clock.unixTimestamp = .ok v' ∧
      v'.WellFormed ∧ w' = { w with vault := v' } := by
  revert h
  simp only [applyNavReport, bind_ok_imp, Prod.forall, Except.ok.injEq, verifyShareMint_eq_ok,
    Vault.validateState_eq_ok, okOr_eq_ok, checkedAdd_eq_some]
  rintro _ _ - _ _ - _ _ - _ - v hv _ - _ - m _ - _ hm s hs S hS _ - _ - _ _ - _ _ - _ _ - b hb
    idle hidle G hG v' hv' _ hwf' rfl
  obtain ⟨rfl, hkey, hwf⟩ := loadChecked_eq_ok hv
  have hs := Ledger.mintSupply_eq_ok hs
  rw [hm] at hs
  rw [hkey] at hidle
  refine ⟨G, S, v', hwf, ?_, ?_, hv', hwf', rfl⟩
  · rw [Vault.economicShareSupply_eq_ok.mp hS, World.economicSupply, World.shareSupply, hs]
  · rw [hG, readIdle_eq_ok hidle, grossTotalAssets, Ledger.verifyMint_eq_ok hb]

/-- A report comes no sooner than the interval allows. -/
theorem applyNavReport_interval {args : NavReport} {kind : ReportKind}
    (h : applyNavReport rt w accounts args kind = .ok w') :
    w.vault.verifyReportInterval w.clock.unixTimestamp = .ok () := by
  revert h
  simp only [applyNavReport, bind_ok_imp, Prod.forall]
  rintro _ _ - _ _ - _ _ - _ - v hv _ - _ hinterval
  obtain ⟨rfl, -, -⟩ := loadChecked_eq_ok hv
  intros
  exact hinterval

end Roshi

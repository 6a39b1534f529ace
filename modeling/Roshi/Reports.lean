import Roshi.Fees
import Roshi.PerformanceFee
import Roshi.Queue

/-!
# The ledger of reports

Reports are the only instructions that write the watermark, the epoch, the report time
and the report hash, and each balances: what is recorded as assets, fees and pending
withdrawals is exactly the idle base plus the reported external value.  The fees owed
are at any time what the reports accrued minus what was collected and written down
(`report_ledger`).

The gain bound and the report interval together cap how fast a NAV authority can raise
the recorded assets, whatever it reports (`reported_gain_le`).
-/

namespace Roshi

open Lib

variable {rt : Runtime} {w w' : World} {tr : Trace} {v v' : Vault}

/-! ### One report -/

/-- The fee a report of `args` accrues: that of its gross value after liabilities. -/
def reportFee (rt : Runtime) (w : World) (args : NavReport) : Nat :=
  match performanceFeeForNav
      (BitVec.ofNat 64 (grossTotalAssets rt w args - w.vault.feesPayable.toNat -
        w.vault.pendingWithdrawalAssets.toNat))
      (BitVec.ofNat 64 w.economicSupply) w.vault.highWatermark w.vault.performanceFeeBps with
  | .ok (fee, _, _) => fee.toNat
  | .error _ => 0

/-- What a report writes. -/
structure ReportRecorded (rt : Runtime) (w w' : World) (args : NavReport) : Prop where
  balance : ∃ m, w.ledger.mints w.vault.baseMint = some m ∧
    w'.vault.totalAssets.toNat + w'.vault.feesPayable.toNat +
        w'.vault.pendingWithdrawalAssets.toNat =
      idleBase rt w m.program w.ledger + args.externalValue.toNat
  fees : w'.vault.feesPayable.toNat = w.vault.feesPayable.toNat + reportFee rt w args
  watermark : w.vault.highWatermark.toNat ≤ w'.vault.highWatermark.toNat
  epoch : w'.vault.reportEpoch.toNat = w.vault.reportEpoch.toNat + 1
  stamp : w'.vault.lastUpdateTs = w.clock.unixTimestamp
  hash : w'.vault.lastReportHash = args.reportHash

/-- A report stores the net assets and keeps pending withdrawals. -/
theorem applyReportedNav_total {net : U64} {now : I64} (h : v.applyReportedNav net now = .ok v') :
    v' = v.reported net v'.lockedProfit v'.profitUnlockStartTs v'.profitUnlockEndTs := by
  obtain ⟨E, -, ⟨-, gain, stop, -, -, rfl⟩ | ⟨-, rfl⟩⟩ := Vault.report_spec.mp h
  · rfl
  · rfl

/-- The base mint is there when a report reads its custody. -/
theorem exists_gross {accounts : List AccountInfo} {args : NavReport} {kind : ReportKind}
    (h : applyNavReport rt w accounts args kind = .ok w') :
    ∃ m, w.ledger.mints w.vault.baseMint = some m := by
  revert h
  simp only [applyNavReport, bind_ok_imp, Prod.forall]
  rintro _ _ - _ _ - _ _ - _ - v hv _ - _ - _ _ - _ - _ - _ - _ - _ - _ _ - _ _ - _ _ - m hm
  obtain ⟨rfl, -, -⟩ := loadChecked_eq_ok hv
  intros
  exact ⟨m, Ledger.verifyMint_eq_ok hm⟩

theorem applyNavReport_recorded {accounts : List AccountInfo} {args : NavReport}
    {kind : ReportKind} (h : applyNavReport rt w accounts args kind = .ok w') :
    ReportRecorded rt w w' args := by
  obtain ⟨m, hm⟩ := exists_gross h
  obtain ⟨G, S, v', -, hS, hG, hv', -, rfl⟩ := applyNavReport_spec h
  obtain ⟨B, fee, net, hwm, fees, epoch, v₁, hB, hperf, hfees, hepoch, hv₁, rfl⟩ :=
    recordReport_spec hv'
  obtain ⟨hrate, hout⟩ := performanceFeeForNav_eq_ok hperf
  have hspec := hout.spec hrate
  have hconserve := hspec.conserves
  have hgross : grossTotalAssets rt w args =
      idleBase rt w m.program w.ledger + args.externalValue.toNat := by
    rw [grossTotalAssets, hm]
  have hfee : reportFee rt w args = fee.toNat := by
    have hBn : BitVec.ofNat 64 (grossTotalAssets rt w args - w.vault.feesPayable.toNat -
        w.vault.pendingWithdrawalAssets.toNat) = B := by
      refine BitVec.eq_of_toNat_eq ?_
      have := B.isLt
      rw [BitVec.toNat_ofNat, Nat.mod_eq_of_lt (by omega)]
      omega
    have hSn : BitVec.ofNat 64 w.economicSupply = S := by
      refine BitVec.eq_of_toNat_eq ?_
      have := S.isLt
      rw [BitVec.toNat_ofNat, Nat.mod_eq_of_lt (by omega)]
      omega
    rw [reportFee, hBn, hSn, hperf]
  rw [applyReportedNav_total hv₁]
  refine ⟨⟨m, hm, ?_⟩, ?_, hspec.ratchets, hepoch, rfl, rfl⟩
  · show net.toNat + fees.toNat + w.vault.pendingWithdrawalAssets.toNat = _
    omega
  · show fees.toNat = _
    omega

/-! ### Everything else -/

/-- What a `CollectFees` takes off the fees owed. -/
def Instruction.collected : Instruction → Nat
  | .collectFees _ _ amount => amount.toNat
  | _ => 0

/-- What a `WriteDownFees` takes off them. -/
def Instruction.forgiven : Instruction → Nat
  | .writeDownFees _ amount => amount.toNat
  | _ => 0

def Instruction.paidFees (i : Instruction) : Nat := i.collected + i.forgiven

def Event.paidFees : Event → Nat
  | .instruction i => i.paidFees
  | _ => 0

/-- The fields only reports write, and the fees owed after `paid` of them is gone. -/
structure Vault.ReportKept (v v' : Vault) (paid : Nat) : Prop where
  highWatermark : v'.highWatermark = v.highWatermark
  reportEpoch : v'.reportEpoch = v.reportEpoch
  lastUpdateTs : v'.lastUpdateTs = v.lastUpdateTs
  lastReportHash : v'.lastReportHash = v.lastReportHash
  fees : v'.feesPayable.toNat + paid = v.feesPayable.toNat

theorem Vault.ReportKept.refl (v : Vault) : v.ReportKept v 0 := ⟨rfl, rfl, rfl, rfl, rfl⟩

/-- A setter that touches none of these fields. -/
theorem setter_reportKept {accounts : List AccountInfo} {f : Vault → Vault}
    (h : updateWritableVaultAsAdmin rt w accounts (fun v => .ok (f v)) = .ok w')
    (hf : ∀ v : Vault, v.ReportKept (f v) 0) : w.vault.ReportKept w'.vault 0 := by
  obtain ⟨v', hv', -, rfl⟩ := updateWritableVaultAsAdmin_spec h
  cases hv'
  exact hf _

theorem tryWriteDownFees_reportKept {accounts : List AccountInfo} {amount : U64}
    (h : tryWriteDownFees rt w accounts amount = .ok w') :
    w.vault.ReportKept w'.vault amount.toNat := by
  simp only [tryWriteDownFees, bind_eq_ok] at h
  obtain ⟨_, -, h⟩ := h
  obtain ⟨v', hv', -, rfl⟩ := updateWritableVaultAsAdmin_spec h
  simp only [bind_eq_ok, okOr_eq_ok, checkedSub_eq_some, Except.ok.injEq] at hv'
  obtain ⟨fees, hfees, rfl⟩ := hv'
  exact ⟨rfl, rfl, rfl, rfl, hfees⟩

/-- **The instructions that price nothing** take off the fees exactly what they pay or
forgive. -/
theorem exec_quiet_reportKept {i : Instruction} (hk : i.kind = .quiet)
    (h : exec rt w i = .ok w') :
    w.vault.ReportKept w'.vault i.paidFees := by
  have hsame := Vault.ReportKept.refl
  cases i with
  | collectFees =>
    obtain ⟨_, _, _, _, l, fees, -, hfees, -, rfl⟩ := tryCollectFees_spec h
    exact ⟨rfl, rfl, rfl, rfl, hfees⟩
  | writeDownFees accounts amount =>
    have hpaid : (Instruction.writeDownFees accounts amount).paidFees = amount.toNat :=
      Nat.zero_add _
    rw [hpaid]
    exact tryWriteDownFees_reportKept h
  | investExternal =>
    obtain ⟨l, ext, -, -, rfl⟩ := tryInvestExternal_spec h
    exact { hsame w.vault with }
  | returnExternal =>
    obtain ⟨l, ext, -, -, rfl⟩ := tryReturnExternal_spec h
    exact { hsame w.vault with }
  | updateVaultConfig =>
    obtain ⟨-, rfl⟩ := tryUpdateVaultConfig_spec h
    exact { hsame w.vault with }
  | setPauseFlags => exact setter_reportKept h fun v => { hsame v with }
  | setVaultAccess => exact setter_reportKept h fun v => { hsame v with }
  | setStrategist => exact setter_reportKept h fun v => { hsame v with }
  | setSwapAuthority => exact setter_reportKept h fun v => { hsame v with }
  | setNavAuthority => exact setter_reportKept h fun v => { hsame v with }
  | setWithdrawalAuthority => exact setter_reportKept h fun v => { hsame v with }
  | transferVaultAuthority => exact setter_reportKept h fun v => { hsame v with }
  | _ => cases hk

/-- The instructions that move shares leave the fees and the report fields alone. -/
theorem Effect.reportKept {k : Kind} (h : Effect w w' k) (hr : k ≠ .report) (hq : k ≠ .quiet) :
    w.vault.ReportKept w'.vault 0 := by
  cases h with
  | deposit h =>
    rw [h.vault]
    exact { Vault.ReportKept.refl w.vault with }
  | redeem h =>
    rw [h.vault]
    exact { Vault.ReportKept.refl w.vault with }
  | cancelRedeem h =>
    rw [h.vault]
    exact { Vault.ReportKept.refl w.vault with }
  | processWithdrawals h =>
    obtain ⟨v₁, settled, hst, hv'⟩ := h.struck
    rw [hv']
    refine ⟨hst.frame.eq (f := Vault.highWatermark) fun _ => rfl,
      hst.frame.eq (f := Vault.reportEpoch) fun _ => rfl,
      hst.frame.eq (f := Vault.lastUpdateTs) fun _ => rfl,
      hst.frame.eq (f := Vault.lastReportHash) fun _ => rfl, ?_⟩
    exact congrArg BitVec.toNat (hst.frame.eq (f := Vault.feesPayable) fun _ => rfl)
  | atomicRedeem h =>
    obtain ⟨r, total, -, -, -, hv⟩ := Vault.debit_spec.mp h.debit
    rw [hv]
    exact { Vault.ReportKept.refl w.vault with }
  | report => exact (hr rfl).elim
  | quiet => exact (hq rfl).elim

theorem paidFees_of_kind {i : Instruction} (hq : i.kind ≠ .quiet) :
    i.paidFees = 0 := by
  cases i with
  | collectFees => exact (hq rfl).elim
  | writeDownFees => exact (hq rfl).elim
  | _ => rfl

theorem kind_of_report? {e : Event} (h : e.report? = none) : e.kind ≠ .report := by
  intro hk
  cases e with
  | tick => cases hk
  | environment => cases hk
  | instruction i =>
    cases i with
    | reportNav => cases h
    | recoverNav => cases h
    | _ => cases hk

/-- **A step that is no report** writes none of the report's fields. -/
theorem OutwardStep.reportKept {e : Event} (ho : w.OpenTickets) (h : OutwardStep rt w e w')
    (hk : e.report? = none) : w.vault.ReportKept w'.vault e.paidFees := by
  cases e with
  | tick =>
    cases h.apply_eq
    exact .refl w.vault
  | environment =>
    cases h.apply_eq
    exact .refl w.vault
  | instruction i =>
    by_cases hq : i.kind = .quiet
    · exact exec_quiet_reportKept hq h.apply_eq
    · rw [Event.paidFees, paidFees_of_kind hq]
      exact (h.effect ho).reportKept (kind_of_report? hk) hq

/-! ### The ledger over a run -/

mutual

/-- The instructions that `i` runs from `w`, each with the world it starts from: itself, and
what its call runs in the program. -/
def Instruction.activations (rt : Runtime) (w : World) : Instruction → List (World × Instruction)
  | .atomicRedeem accounts args authorize call =>
    (w, .atomicRedeem accounts args authorize call) :: call.activations rt w
  | .depositAndDeploy accounts args authorize call =>
    -- the call meets the deposit already stored
    (w, .depositAndDeploy accounts args authorize call) ::
      match exec rt w (.depositAndDeploy accounts args authorize .done) with
      | .ok w' => call.activations rt w'
      | .error _ => []
  | i => [(w, i)]

def Call.activations (rt : Runtime) (w : World) : Call → List (World × Instruction)
  | .done => []
  | .other run rest =>
    match run w.environment with
    | .ok env => rest.activations rt (w.under env)
    | .error _ => []
  | .own i rest =>
    i.activations rt w ++
      match exec rt w i with
      | .ok w' => rest.activations rt w'
      | .error _ => []

end

def Event.activations (rt : Runtime) (w : World) : Event → List (World × Instruction)
  | .instruction i => i.activations rt w
  | _ => []

/-- The instructions a trace runs, those its atomic redeems call in the program included. -/
def activations (rt : Runtime) (tr : Trace) : List (World × Instruction) :=
  tr.flatMap fun x => x.event.activations rt x.pre

/-- The fees the reports of a trace accrued. -/
def accruedFees (rt : Runtime) (tr : Trace) : Nat :=
  ((activations rt tr).map fun a => (a.2.report?.map (reportFee rt a.1)).getD 0).sum

def collectedFees (rt : Runtime) (tr : Trace) : Nat :=
  ((activations rt tr).map fun a => a.2.collected).sum

def forgivenFees (rt : Runtime) (tr : Trace) : Nat :=
  ((activations rt tr).map fun a => a.2.forgiven).sum

/-- The number of reports of a trace. -/
def reportCount (rt : Runtime) (tr : Trace) : Nat :=
  (activations rt tr).countP fun a => a.2.report?.isSome

/-- What one step does to the ledger of reports. -/
structure ReportStep (rt : Runtime) (x : Transition World Event) : Prop where
  recorded : ∀ args, x.event.report? = some args → ReportRecorded rt x.pre x.post args
  kept : x.event.report? = none → x.pre.vault.ReportKept x.post.vault x.event.paidFees

/-- What a run `tr` from `w₀` to `w` adds up to. -/
structure ReportLedger (rt : Runtime) (w₀ : World) (tr : Trace) (w : World) : Prop where
  steps : ∀ x ∈ tr, ReportStep rt x
  fees : w.vault.feesPayable.toNat + collectedFees rt tr + forgivenFees rt tr =
    w₀.vault.feesPayable.toNat + accruedFees rt tr
  watermark : w₀.vault.highWatermark.toNat ≤ w.vault.highWatermark.toNat
  epoch : w.vault.reportEpoch.toNat = w₀.vault.reportEpoch.toNat + reportCount rt tr

theorem OutwardStep.reportStep {x : Transition World Event} (ho : x.pre.OpenTickets)
    (h : OutwardStep rt x.pre x.event x.post) : ReportStep rt x := by
  refine ⟨?_, h.reportKept ho⟩
  intro args hargs
  obtain ⟨accounts, kind, happly⟩ := exists_applyNavReport h.toStep hargs
  exact applyNavReport_recorded happly

theorem paidFees_of_report? {i : Instruction} {args : NavReport} (h : i.report? = some args) :
    i.collected = 0 ∧ i.forgiven = 0 := by
  cases i with
  | reportNav => exact ⟨rfl, rfl⟩
  | recoverNav => exact ⟨rfl, rfl⟩
  | _ => cases h

theorem Call.activations_of_outward : ∀ {call : Call} {w : World}, call.outward = true →
    call.activations rt w = []
  | .done, _, _ => rfl
  | .other run rest, w, hout => by
    rw [Call.activations]
    split
    · exact Call.activations_of_outward hout
    · rfl
  | .own _ _, _, hout => by cases hout

/-- An instruction whose call runs other programs only activates nothing but itself. -/
theorem Instruction.activations_of_outward {i : Instruction} (hout : i.outward = true) :
    i.activations rt w = [(w, i)] := by
  cases i with
  | atomicRedeem accounts args authorize call =>
    rw [Instruction.activations, Call.activations_of_outward hout]
  | depositAndDeploy accounts args authorize call =>
    rw [Instruction.activations]
    split
    · rw [Call.activations_of_outward hout]
    · rfl
  | _ => rfl

theorem activations_cons (x : Transition World Event) (tr : Trace) :
    activations rt (x :: tr) = x.event.activations rt x.pre ++ activations rt tr :=
  List.flatMap_cons

/-- One step in front of a run. -/
theorem ReportLedger.cons {w₁ : World} {e : Event} (hout : e.outward = true)
    (hx : ReportStep rt ⟨w, e, w₁⟩) (h : ReportLedger rt w₁ tr w') :
    ReportLedger rt w (⟨w, e, w₁⟩ :: tr) w' := by
  obtain ⟨hsteps, hfees, hmark, hepoch⟩ := h
  have hall : ∀ y ∈ ⟨w, e, w₁⟩ :: tr, ReportStep rt y := by
    intro y hy
    rcases List.mem_cons.mp hy with rfl | hy
    · exact hx
    · exact hsteps y hy
  cases e with
  | tick | environment =>
    have hkept : w.vault.ReportKept w₁.vault 0 := hx.kept rfl
    have hpaid := hkept.fees
    rw [hkept.highWatermark] at hmark
    rw [hkept.reportEpoch] at hepoch
    exact ⟨hall, hpaid ▸ hfees, hmark, hepoch⟩
  | instruction i =>
    have hact : activations rt (⟨w, .instruction i, w₁⟩ :: tr) = (w, i) :: activations rt tr := by
      rw [activations_cons, Event.activations, Instruction.activations_of_outward hout]
      rfl
    have hcollected : collectedFees rt (⟨w, .instruction i, w₁⟩ :: tr) =
        i.collected + collectedFees rt tr := by
      rw [collectedFees, hact]
      exact List.sum_cons
    have hforgiven : forgivenFees rt (⟨w, .instruction i, w₁⟩ :: tr) =
        i.forgiven + forgivenFees rt tr := by
      rw [forgivenFees, hact]
      exact List.sum_cons
    have haccrued : accruedFees rt (⟨w, .instruction i, w₁⟩ :: tr) =
        (i.report?.map (reportFee rt w)).getD 0 + accruedFees rt tr := by
      rw [accruedFees, hact]
      exact List.sum_cons
    have hcount : reportCount rt (⟨w, .instruction i, w₁⟩ :: tr) =
        reportCount rt tr + if i.report?.isSome then 1 else 0 := by
      rw [reportCount, hact]
      exact List.countP_cons
    cases hr : i.report? with
    | none =>
      have hkept : w.vault.ReportKept w₁.vault (i.collected + i.forgiven) := hx.kept hr
      have hpaid := hkept.fees
      rw [hr, Option.map_none, Option.getD_none] at haccrued
      rw [hr, Option.isSome_none, if_neg Bool.false_ne_true] at hcount
      rw [hkept.highWatermark] at hmark
      rw [hkept.reportEpoch] at hepoch
      exact ⟨hall, by omega, hmark, by omega⟩
    | some args =>
      have hrec : ReportRecorded rt w w₁ args := hx.recorded args hr
      obtain ⟨hc, hf⟩ := paidFees_of_report? hr
      have hacc := hrec.fees
      have hep := hrec.epoch
      rw [hr, Option.map_some, Option.getD_some] at haccrued
      rw [hr, Option.isSome_some, if_pos rfl] at hcount
      exact ⟨hall, by omega, hrec.watermark.trans hmark, by omega⟩

theorem Standing.reportLedger (hs : Standing w) (hrun : Run (OutwardStep rt) w tr w') :
    ReportLedger rt w tr w' := by
  induction hrun with
  | nil => exact ⟨by simp, rfl, le_refl _, rfl⟩
  | @cons w₁ w₂ _ e _ hstep _ ih =>
    have hx : ReportStep rt ⟨w₁, e, w₂⟩ := OutwardStep.reportStep hs.openTickets hstep
    exact ReportLedger.cons hstep.outward hx (ih (hs.step hstep.toStep))

/-- **The ledger of reports.**  On every run from `InitializeVault` whose atomic redeems call
other programs only, each accepted report balances, the fees owed are those accrued less those
collected and forgiven, the watermark never falls, and the epoch counts the reports, which
alone move it. -/
theorem report_ledger {w₀ : World} (h0 : Initial rt w₀) (hrun : Run (Step rt) w₀ tr w)
    (hout : Outward tr) :
    ReportLedger rt w₀ tr w ∧
      w.vault.feesPayable.toNat + collectedFees rt tr + forgivenFees rt tr = accruedFees rt tr := by
  have hledger := h0.standing.reportLedger (run_outward hrun hout)
  refine ⟨hledger, ?_⟩
  obtain ⟨g, accounts, args, hinit⟩ := h0
  obtain ⟨-, -, -, -, -, -, hfees, -⟩ := tryInitializeVault_spec hinit
  have hsum := hledger.fees
  rw [hfees] at hsum
  exact hsum.trans (Nat.zero_add _)

theorem report_ledger_strike :
    ReportLedger Sample.runtime Sample.start
        (traceOf Sample.runtime Sample.start Sample.strikeEvents)
        (Sample.start.afterAll Sample.runtime Sample.strikeEvents) ∧
      (Sample.start.afterAll Sample.runtime Sample.strikeEvents).vault.feesPayable.toNat +
          collectedFees Sample.runtime (traceOf Sample.runtime Sample.start Sample.strikeEvents) +
          forgivenFees Sample.runtime (traceOf Sample.runtime Sample.start Sample.strikeEvents) =
        accruedFees Sample.runtime (traceOf Sample.runtime Sample.start Sample.strikeEvents) :=
  report_ledger Sample.start_initial Sample.strikeEvents_run (by decide +kernel)

/-- **A report that an atomic redeem calls is lost**: the record stored over it is of the epoch
before. -/
theorem nested_report_lost :
    Initial Sample.runtime Sample.start ∧
      Run (Step Sample.runtime) Sample.start
        (traceOf Sample.runtime Sample.start Sample.ownReportEvents)
        (Sample.start.afterAll Sample.runtime Sample.ownReportEvents) ∧
      reportCount Sample.runtime
        (traceOf Sample.runtime Sample.start Sample.ownReportEvents) = 1 ∧
      (Sample.start.afterAll Sample.runtime Sample.ownReportEvents).vault.reportEpoch = 0 ∧
      ¬ ReportLedger Sample.runtime Sample.start
        (traceOf Sample.runtime Sample.start Sample.ownReportEvents)
        (Sample.start.afterAll Sample.runtime Sample.ownReportEvents) := by
  have hd : reportCount Sample.runtime
        (traceOf Sample.runtime Sample.start Sample.ownReportEvents) = 1 ∧
      (Sample.start.afterAll Sample.runtime Sample.ownReportEvents).vault.reportEpoch = 0 := by
    decide +kernel
  obtain ⟨hcount, hepoch⟩ := hd
  refine ⟨Sample.start_initial, Sample.ownReportEvents_run, hcount, hepoch, ?_⟩
  intro h
  have hsum := h.epoch
  rw [hcount, hepoch] at hsum
  cases hsum

/-! ### The ceiling on reported gains -/

/-- An epoch on, the interval holds exactly: the saturated difference saturates above it. -/
theorem verifyReportInterval_eq_ok {now : I64} (he : v.reportEpoch ≠ 0)
    (hI : v.controls.minReportIntervalSecs ≠ 0) (h : v.verifyReportInterval now = .ok ()) :
    v.lastUpdateTs.toInt + v.controls.minReportIntervalSecs.toNat ≤ now.toInt := by
  have hInt := U32.toInt_toI64 v.controls.minReportIntervalSecs
  have hpos : v.controls.minReportIntervalSecs.toNat ≠ 0 := fun h0 => hI (eq_zero_iff.mpr h0)
  have hI' : U32.toI64 v.controls.minReportIntervalSecs ≠ 0 := by
    have hzero : Int64.toInt 0 = 0 := rfl
    intro h0
    rw [h0] at hInt
    omega
  have hlt := v.controls.minReportIntervalSecs.isLt
  rw [Vault.verifyReportInterval, if_neg (not_or.mpr ⟨he, hI'⟩), rejectIf_eq_ok,
    Int64.lt_iff_toInt_lt, toInt_saturatingSubI, hInt] at h
  omega

/-- With shares out, the bound is exact in natural numbers. -/
theorem verifyNavGainBound_eq_ok {net S : U64} (hg : v.controls.maxNavGainBps ≠ 0) (hS : S ≠ 0)
    (h : v.verifyNavGainBound net S = .ok ()) :
    net.toNat * 10000 ≤ v.totalAssets.toNat * (10000 + v.controls.maxNavGainBps.toNat) := by
  have hsum : (U64.to128 (U16.to64 BPS_DENOMINATOR) +
      U64.to128 (U16.to64 v.controls.maxNavGainBps)).toNat =
        10000 + v.controls.maxNavGainBps.toNat := by
    have := v.controls.maxNavGainBps.isLt
    have hbps : BPS_DENOMINATOR.toNat = 10000 := rfl
    rw [BitVec.toNat_add, U64.toNat_to128, U64.toNat_to128, U16.toNat_to64, U16.toNat_to64, hbps]
    exact Nat.mod_eq_of_lt (by omega)
  rw [Vault.verifyNavGainBound, if_neg (not_or.mpr ⟨hg, hS⟩)] at h
  simp only [bind_eq_ok, okOr_eq_ok, checkedMul_eq_some, rejectIf_eq_ok, gt_iff_lt, BitVec.lt_def,
    Nat.not_lt] at h
  obtain ⟨x, hx, y, hy, hle⟩ := h
  rw [hx, hy, hsum, U64.toNat_to128, U64.toNat_to128, U64.toNat_to128] at hle
  exact hle

/-- A step in which the vault is left to the NAV authority: time passes, others act without
burning the last share, or an ordinary report is accepted. -/
def Reporting (x : Transition World Event) : Prop :=
  match x.event with
  | .tick _ => True
  | .environment _ => 0 < x.post.economicSupply
  | .instruction (.reportNav ..) => True
  | _ => False

/-- The times of the reports of a trace. -/
def reportTimes (tr : Trace) : List Int :=
  tr.filterMap fun x => x.event.report?.map fun _ => x.pre.clock.unixTimestamp.toInt

/-- Reports at `times` took the record `v` to `v'`: each waited out the interval, and the
assets grew by at most the bound each time. -/
structure GainCapped (v v' : Vault) (times : List Int) : Prop where
  spaced : (v.lastUpdateTs.toInt :: times).IsChain fun s t : Int =>
    s + v.controls.minReportIntervalSecs.toNat ≤ t
  last : (v.lastUpdateTs.toInt :: times).getLast (by simp) = v'.lastUpdateTs.toInt
  elapsed : (times.length : Int) * v.controls.minReportIntervalSecs.toNat ≤
    v'.lastUpdateTs.toInt - v.lastUpdateTs.toInt
  assets : v'.totalAssets.toNat * 10000 ^ times.length ≤
    v.totalAssets.toNat * (10000 + v.controls.maxNavGainBps.toNat) ^ times.length

/-- What the ceiling rests on: both controls are on, a report was made and shares are out. -/
structure Controlled (w : World) : Prop where
  gain : w.vault.controls.maxNavGainBps ≠ 0
  interval : w.vault.controls.minReportIntervalSecs ≠ 0
  epoch : 1 ≤ w.vault.reportEpoch.toNat
  supply : w.economicSupply ≠ 0

/-- **One ordinary report** waits out the interval and stays within the gain bound. -/
theorem tryReportNav_gain {accounts : List AccountInfo} {args : NavReport} (hc : Controlled w)
    (h : tryReportNav rt w accounts args = .ok w') :
    w.vault.lastUpdateTs.toInt + w.vault.controls.minReportIntervalSecs.toNat ≤
        w.clock.unixTimestamp.toInt ∧
      w'.vault.totalAssets.toNat * 10000 ≤
        w.vault.totalAssets.toNat * (10000 + w.vault.controls.maxNavGainBps.toNat) ∧
      w'.vault.lastUpdateTs = w.clock.unixTimestamp ∧
      w'.vault.controls = w.vault.controls ∧ Controlled w' := by
  have hrec := applyNavReport_recorded h
  have hrep := applyNavReport_reported h
  have hinterval := applyNavReport_interval h
  obtain ⟨G, S, v', -, hSn, -, hv', -, rfl⟩ := applyNavReport_spec h
  have hgain := recordReport_gain hv'
  have hcontrols : v'.controls = w.vault.controls := by
    obtain ⟨_, _, _, _, _, _, v₁, -, -, -, -, hv₁, rfl⟩ := recordReport_spec hv'
    rw [applyReportedNav_total hv₁]
    rfl
  have hepoch := hrec.epoch
  have he : w.vault.reportEpoch ≠ 0 := by
    have := hc.epoch
    intro h0
    rw [eq_zero_iff] at h0
    omega
  have hS : S ≠ 0 := by
    intro h0
    rw [eq_zero_iff] at h0
    exact hc.supply (by omega)
  refine ⟨verifyReportInterval_eq_ok he hc.interval hinterval,
    verifyNavGainBound_eq_ok hc.gain hS hgain, hrec.stamp, hcontrols, ?_, ?_, ?_, ?_⟩
  · rw [hcontrols]
    exact hc.gain
  · rw [hcontrols]
    exact hc.interval
  · omega
  · rw [hrep.economicSupply]
    exact hc.supply

/-- A report in front of others. -/
theorem GainCapped.report {u : Vault} {times : List Int} (h : GainCapped u v' times)
    (hwait : v.lastUpdateTs.toInt + v.controls.minReportIntervalSecs.toNat ≤ u.lastUpdateTs.toInt)
    (hgain : u.totalAssets.toNat * 10000 ≤
      v.totalAssets.toNat * (10000 + v.controls.maxNavGainBps.toNat))
    (hcontrols : u.controls = v.controls) :
    GainCapped v v' (u.lastUpdateTs.toInt :: times) := by
  obtain ⟨hspaced, hlast, helapsed, hassets⟩ := h
  rw [hcontrols] at hspaced helapsed hassets
  refine ⟨.cons_cons hwait hspaced, ?_, ?_, ?_⟩
  · rw [List.getLast_cons (by simp)]
    exact hlast
  · rw [List.length_cons]
    push_cast
    linarith
  · rw [List.length_cons]
    calc v'.totalAssets.toNat * 10000 ^ (times.length + 1)
        = v'.totalAssets.toNat * 10000 ^ times.length * 10000 := by ring
      _ ≤ u.totalAssets.toNat * (10000 + v.controls.maxNavGainBps.toNat) ^ times.length * 10000 :=
          Nat.mul_le_mul_right _ hassets
      _ = u.totalAssets.toNat * 10000 *
            (10000 + v.controls.maxNavGainBps.toNat) ^ times.length := by ring
      _ ≤ v.totalAssets.toNat * (10000 + v.controls.maxNavGainBps.toNat) *
            (10000 + v.controls.maxNavGainBps.toNat) ^ times.length :=
          Nat.mul_le_mul_right _ hgain
      _ = v.totalAssets.toNat *
            (10000 + v.controls.maxNavGainBps.toNat) ^ (times.length + 1) := by ring

/-- **The ceiling on reported gains.**  Whatever external values are reported, `n` ordinary
reports take at least `n` intervals and multiply the assets by at most the bound to the
`n`-th power. -/
theorem reported_gain_le (hrun : Run (Step rt) w tr w') (hrep : ∀ x ∈ tr, Reporting x)
    (hc : Controlled w) : GainCapped w.vault w'.vault (reportTimes tr) := by
  induction hrun with
  | nil => exact ⟨.singleton _, rfl, by simp [reportTimes], by simp [reportTimes]⟩
  | @cons w u w' e tr hstep _ ih =>
    have hx := hrep _ List.mem_cons_self
    have ih := ih fun x hx => hrep x (List.mem_cons_of_mem _ hx)
    have happly := hstep.apply_eq
    cases e with
    | tick =>
      cases happly
      exact ih { hc with }
    | environment =>
      have hsupply : 0 < u.economicSupply := hx
      cases happly
      exact ih { hc with supply := hsupply.ne' }
    | instruction i =>
      cases i with
      | reportNav accounts args =>
        obtain ⟨hwait, hgain, hstamp, hcontrols, hc'⟩ := tryReportNav_gain hc happly
        rw [← hstamp] at hwait
        have htimes : reportTimes (⟨w, .instruction (.reportNav accounts args), u⟩ :: tr) =
            u.vault.lastUpdateTs.toInt :: reportTimes tr := by
          rw [hstamp]
          rfl
        rw [htimes]
        exact (ih hc').report hwait hgain hcontrols
      | _ => exact hx.elim

namespace Sample

/-- A ten-percent gain bound and a minute between reports. -/
def boundConfig : Event := .instruction (.updateVaultConfig
  [signer admin, writable vaultKey, readonly treasury]
  { treasury := treasury
    depositSubAccount := 0
    withdrawSubAccount := 0
    baseOracle := .default
    performanceFeeBps := 1000
    withdrawalBufferBps := 0
    depositCap := 0
    controls := { controls with minReportIntervalSecs := 60, maxNavGainBps := 1000 }
    externalEnabled := false })

/-- A vault under these controls, after its first report. -/
def bounded : World := start.afterAll runtime
  [openShares start.ledger, boundConfig, deposit 1000000, reportNav 0]

/-- Two reports, a minute apart, of ten percent each. -/
def boundedEvents : List Event :=
  [tick 2000 1700000060, reportNav 100000, tick 3000 1700000120, reportNav 210000]

end Sample

theorem reported_gain_le_twice :
    GainCapped Sample.bounded.vault
      (Sample.bounded.afterAll Sample.runtime Sample.boundedEvents).vault
      (reportTimes (traceOf Sample.runtime Sample.bounded Sample.boundedEvents)) := by
  have hd : allOk Sample.runtime Sample.bounded Sample.boundedEvents = true ∧
      Sample.bounded.vault.controls.maxNavGainBps ≠ 0 ∧
      Sample.bounded.vault.controls.minReportIntervalSecs ≠ 0 ∧
      1 ≤ Sample.bounded.vault.reportEpoch.toNat ∧ Sample.bounded.economicSupply ≠ 0 := by
    decide +kernel
  obtain ⟨hok, hg, hI, he, hS⟩ := hd
  refine reported_gain_le (run_traceOf hok ⟨trivial, trivial, trivial, trivial, trivial⟩) ?_
    ⟨hg, hI, he, hS⟩
  simp [traceOf, Sample.boundedEvents, Sample.tick, Sample.reportNav, Sample.report, Reporting]

end Roshi

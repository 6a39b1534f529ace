import Roshi.Lib.Ratchet
import Roshi.Effect

/-!
# Performance fees over many reports

The watermark is stored as a price per share, rounded down, while fees are charged on
assets.  Read back in assets, the watermark after a charge can lie below what the
charge left, and the difference is charged again by the next report.

When it does not (`WatermarkExact`), a report is a step of `Lib.Ratchet`
(`recordReport_ratchet`), and the fees of any sequence of reports stay within
`f / 10^4` of what the highest of them exceeds the first watermark by
(`fees_le_of_reports`).
-/

namespace Roshi

open Lib

variable {rt : Runtime} {w w' : World} {tr : Trace} {v v' : Vault}

/-! ### One report -/

/-- The watermark in assets, as the fee reads it. -/
def watermarkAssets (v : Vault) (S : Nat) : Nat := v.highWatermark.toNat * S ⌈/⌉ 10 ^ 9

/-- What a report of `G` is charged on. -/
def feeBase (v : Vault) (G : Nat) : Nat :=
  G - v.feesPayable.toNat - v.pendingWithdrawalAssets.toNat

/-- What a charging report of `G` leaves after its fee. -/
def netAfterFee (v : Vault) (S G : Nat) : Nat :=
  feeBase v G -
    (feeBase v G - watermarkAssets v S) * v.performanceFeeBps.toNat / 10000

/-- Either a report of `G` is not charged, or what it leaves is a multiple of the price
quantum, up to less than one atom. -/
def WatermarkExact (v : Vault) (S G : Nat) : Prop :=
  v.highWatermark.toNat < feeBase v G * 10 ^ 9 / S → v.performanceFeeBps.toNat ≠ 0 →
    netAfterFee v S G * 10 ^ 9 % S < 10 ^ 9

instance (v : Vault) (S G : Nat) : Decidable (WatermarkExact v S G) :=
  inferInstanceAs (Decidable (_ → _ → _))

/-- A price rounded down reads back exactly when less than an atom was rounded off. -/
theorem ceilDiv_floor_price {n S : Nat} (h : n * 10 ^ 9 % S < 10 ^ 9) :
    n * 10 ^ 9 / S * S ⌈/⌉ 10 ^ 9 = n := by
  have hdiv := Nat.div_add_mod (n * 10 ^ 9) S
  rw [Nat.mul_comm] at hdiv
  rw [Nat.ceilDiv_eq_add_pred_div]
  omega

theorem ceilDiv_floor_price_le (n S : Nat) : n * 10 ^ 9 / S * S ⌈/⌉ 10 ^ 9 ≤ n := by
  rw [ceilDiv_le_iff_le_mul (by norm_num)]
  rw [Nat.mul_comm (10 ^ 9) n]
  exact Nat.div_mul_le_self _ _

/-- The record as a ratchet. -/
def Vault.ratchet (v : Vault) (S : Nat) : Ratchet where
  watermark := watermarkAssets v S
  fees := v.feesPayable.toNat

/-- What a report leaves of the fields the fee is computed from. -/
theorem recordReport_fees {G S : U64} {hash : Bytes 32} {kind : ReportKind} {now : I64}
    (h : recordReport v G S hash kind now = .ok v') :
    ∃ B fee net hwm, B.toNat + v.feesPayable.toNat + v.pendingWithdrawalAssets.toNat = G.toNat ∧
      performanceFeeForNav B S v.highWatermark v.performanceFeeBps = .ok (fee, net, hwm) ∧
      v'.feesPayable.toNat = v.feesPayable.toNat + fee.toNat ∧ v'.highWatermark = hwm ∧
      v'.performanceFeeBps = v.performanceFeeBps ∧
      v'.pendingWithdrawalAssets = v.pendingWithdrawalAssets := by
  obtain ⟨B, fee, net, hwm, fees, epoch, v₁, hB, hperf, hfees, -, hv₁, rfl⟩ := recordReport_spec h
  refine ⟨B, fee, net, hwm, hB, hperf, ?_⟩
  obtain ⟨E, -, ⟨-, gain, stop, -, -, rfl⟩ | ⟨-, rfl⟩⟩ := Vault.report_spec.mp hv₁
  · exact ⟨hfees, rfl, rfl, rfl⟩
  · exact ⟨hfees, rfl, rfl, rfl⟩

/-- **An exact report is a ratchet step.** -/
theorem recordReport_ratchet {G S : U64} {hash : Bytes 32} {kind : ReportKind} {now : I64}
    (h : recordReport v G S hash kind now = .ok v') (hS : S.toNat ≠ 0)
    (hH : v.highWatermark.toNat ≠ 0) (hp : v.pendingWithdrawalAssets.toNat = 0)
    (hexact : WatermarkExact v S.toNat G.toNat) :
    Ratchet.Step v.performanceFeeBps.toNat 10000 (v.ratchet S.toNat) G.toNat
        (v'.ratchet S.toNat) ∧
      v'.highWatermark.toNat ≠ 0 ∧ v.performanceFeeBps.toNat ≤ 10000 := by
  obtain ⟨B, fee, net, hwm, hB, hperf, hfees, hhwm, -, -⟩ := recordReport_fees h
  obtain ⟨hf, hout⟩ := performanceFeeForNav_eq_ok hperf
  have hbase : feeBase v G.toNat = B.toNat := by
    rw [feeBase]
    omega
  have hratchet : v'.ratchet S.toNat =
      ⟨hwm.toNat * S.toNat ⌈/⌉ 10 ^ 9, v.feesPayable.toNat + fee.toNat⟩ := by
    rw [Vault.ratchet, watermarkAssets, hhwm, hfees]
  rw [hratchet, hhwm]
  cases hout with
  | empty h0 => exact (hS h0).elim
  | @free p _ hprice hfree =>
    rw [toNat_umax]
    refine ⟨?_, by omega, hf⟩
    refine .free (r := v.ratchet S.toNat) ?_ ?_
    · refine (gc_mul_ceilDiv (by norm_num)).monotone_l ?_
      exact Nat.mul_le_mul_right _ (le_max_left _ _)
    · rcases Nat.le_total p.toNat v.highWatermark.toNat with hle | hge
      · left
        rw [max_eq_left hle]
        rfl
      · right
        rw [max_eq_right hge, hprice]
        have hle := ceilDiv_floor_price_le B.toNat S.toNat
        show _ + v.feesPayable.toNat ≤ G.toNat
        omega
  | @charged p fee' net' q _ hprice _ hgain hf0 hW hfee hnet hq =>
    have hW' : watermarkAssets v S.toNat ≤ B.toNat := hW
    have hfee' : fee.toNat =
        (v.ratchet S.toNat).fee v.performanceFeeBps.toNat 10000 G.toNat := by
      have hG : G.toNat - v.feesPayable.toNat = B.toNat := by omega
      show fee.toNat = (G.toNat - v.feesPayable.toNat - watermarkAssets v S.toNat) *
        v.performanceFeeBps.toNat / 10000
      rw [hG]
      exact hfee
    have hnetEq : netAfterFee v S.toNat G.toNat = net.toNat := by
      rw [netAfterFee, hbase]
      show B.toNat - (B.toNat - v.highWatermark.toNat * S.toNat ⌈/⌉ 10 ^ 9) *
        v.performanceFeeBps.toNat / 10000 = _
      rw [← hfee]
      omega
    have hmod : net.toNat * 10 ^ 9 % S.toNat < 10 ^ 9 := by
      rw [← hnetEq]
      exact hexact (by rw [hbase, ← hprice]; exact hgain) hf0
    -- the fee is part of the gain, so the watermark does not fall
    have hle := Ratchet.fee_le (r := v.ratchet S.toNat) (G := G.toNat) hf
    have hHq : v.highWatermark.toNat ≤ q.toNat := by
      rw [hq, Nat.le_div_iff_mul_le (by omega)]
      have hWn : watermarkAssets v S.toNat ≤ net.toNat := by
        have : fee.toNat ≤ G.toNat - v.feesPayable.toNat - watermarkAssets v S.toNat := by
          rw [hfee']
          exact hle
        omega
      rw [watermarkAssets, ceilDiv_le_iff_le_mul (by norm_num), Nat.mul_comm (10 ^ 9)] at hWn
      exact hWn
    rw [toNat_umax, max_eq_right hHq]
    refine ⟨?_, by omega, hf⟩
    have hnet' : net.toNat = G.toNat - v.feesPayable.toNat -
        (v.ratchet S.toNat).fee v.performanceFeeBps.toNat 10000 G.toNat := by
      rw [← hfee']
      omega
    rw [hq, ceilDiv_floor_price hmod, hnet', hfee']
    refine .charge (r := v.ratchet S.toNat) ?_
    show watermarkAssets v S.toNat + v.feesPayable.toNat ≤ G.toNat
    omega

/-! ### Many reports -/

/-- The report an instruction makes, if it makes one. -/
def Instruction.report? : Instruction → Option NavReport
  | .reportNav _ args => some args
  | .recoverNav _ args => some args
  | _ => none

def Event.report? : Event → Option NavReport
  | .instruction i => i.report?
  | _ => none

/-- Reports and time, and nothing in between. -/
def Event.reportOrTick : Event → Bool
  | .tick _ => true
  | e => e.report?.isSome

theorem reportOrTick_cases {e : Event} (h : e.reportOrTick = true) :
    (∃ clock, e = .tick clock) ∨ ∃ args, e.report? = some args := by
  cases e with
  | tick clock => exact .inl ⟨clock, rfl⟩
  | environment => cases h
  | instruction i => exact .inr (Option.isSome_iff_exists.mp h)

/-- The gross values reported in a trace. -/
def grossValues (rt : Runtime) (tr : Trace) : List Nat :=
  tr.filterMap fun x => x.event.report?.map (grossTotalAssets rt x.pre)

/-- The highest of them. -/
def highestGross (rt : Runtime) (tr : Trace) : Nat := (grossValues rt tr).foldr max 0

theorem le_foldr_max {l : List Nat} {n : Nat} (h : n ∈ l) : n ≤ l.foldr max 0 := by
  induction l with
  | nil => cases h
  | cons m l ih =>
    rcases List.mem_cons.mp h with rfl | h
    · exact le_max_left _ _
    · exact (ih h).trans (le_max_right _ _)

theorem gross_le_highest {x : Transition World Event} {args : NavReport} (hx : x ∈ tr)
    (hargs : x.event.report? = some args) :
    grossTotalAssets rt x.pre args ≤ highestGross rt tr := by
  refine le_foldr_max (List.mem_filterMap.mpr ⟨x, hx, ?_⟩)
  rw [hargs]
  rfl

/-- A step that makes a report is `apply_nav_report`. -/
theorem exists_applyNavReport {x : Transition World Event} {args : NavReport}
    (h : Step rt x.pre x.event x.post) (hargs : x.event.report? = some args) :
    ∃ accounts kind, applyNavReport rt x.pre accounts args kind = .ok x.post := by
  obtain ⟨w, e, w'⟩ := x
  have happly := h.apply_eq
  cases e with
  | tick => cases hargs
  | environment => cases hargs
  | instruction i =>
    cases i with
    | reportNav accounts args' =>
      cases hargs
      exact ⟨accounts, .ordinary, happly⟩
    | recoverNav accounts args' =>
      cases hargs
      exact ⟨accounts, .recovery, happly⟩
    | _ => cases hargs

/-- What the reports of a run keep: the fee rate, the supply, and the ratchet within the
highest report. -/
structure FeeInv (w : World) (M : Nat) (u : World) : Prop where
  supply : u.economicSupply = w.economicSupply
  bps : u.vault.performanceFeeBps = w.vault.performanceFeeBps
  pending : u.vault.pendingWithdrawalAssets = w.vault.pendingWithdrawalAssets
  watermark : u.vault.highWatermark.toNat ≠ 0
  ratchet : Ratchet.Inv w.vault.performanceFeeBps.toNat 10000
    (watermarkAssets w.vault w.economicSupply) M (u.vault.ratchet w.economicSupply)

theorem FeeInv.report {u u' : World} {M : Nat} {accounts : List AccountInfo} {args : NavReport}
    {kind : ReportKind} (hi : FeeInv w M u) (hS : 0 < w.economicSupply)
    (hp : w.vault.pendingWithdrawalAssets = 0)
    (h : applyNavReport rt u accounts args kind = .ok u')
    (hexact : WatermarkExact u.vault u.economicSupply (grossTotalAssets rt u args))
    (hM : grossTotalAssets rt u args ≤ M) : FeeInv w M u' := by
  have hrep := applyNavReport_reported h
  obtain ⟨G, S, v', -, hSn, hG, hv', -, rfl⟩ := applyNavReport_spec h
  obtain ⟨-, -, -, -, -, -, -, -, hbps, hpend⟩ := recordReport_fees hv'
  rw [← hSn, ← hG] at hexact
  have hS' : S.toNat = w.economicSupply := hSn.trans hi.supply
  obtain ⟨hstep, hH, hf⟩ := recordReport_ratchet hv' (by omega) hi.watermark
    (by rw [hi.pending, hp]; rfl) hexact
  rw [hS', hi.bps] at hstep
  rw [hi.bps] at hf
  refine ⟨?_, hbps.trans hi.bps, hpend.trans hi.pending, hH,
    hi.ratchet.step hf hstep (by omega)⟩
  rw [World.economicSupply, hrep.supply, hrep.requested, ← World.economicSupply]
  exact hi.supply

/-- **Exact reports never charge a gain twice.**  Over any run of reports from a positive
watermark, with no fees owed at the start, the fees accrued are at most `f / 10^4` of
what the highest gross value exceeds the first watermark by. -/
theorem fees_le_of_reports (hrun : Run (Step rt) w tr w')
    (hrep : ∀ x ∈ tr, x.event.reportOrTick = true) (hS : 0 < w.economicSupply)
    (hH : 0 < w.vault.highWatermark.toNat) (hfees : w.vault.feesPayable = 0)
    (hp : w.vault.pendingWithdrawalAssets = 0)
    (hexact : ∀ x ∈ tr, ∀ args, x.event.report? = some args →
      WatermarkExact x.pre.vault x.pre.economicSupply (grossTotalAssets rt x.pre args)) :
    w'.vault.feesPayable.toNat ≤
      w.vault.performanceFeeBps.toNat *
        (highestGross rt tr - w.vault.highWatermark.toNat * w.economicSupply ⌈/⌉ 10 ^ 9) /
          10000 := by
  have hstart : FeeInv w (highestGross rt tr) w := by
    refine ⟨rfl, rfl, rfl, by omega, ?_⟩
    have h0 : w.vault.ratchet w.economicSupply = ⟨watermarkAssets w.vault w.economicSupply, 0⟩ := by
      rw [Vault.ratchet, hfees]
      rfl
    rw [h0]
    exact Ratchet.Inv.start
  have hend := hrun.invariant hstart ?_
  · exact hend.ratchet.fees_le (by norm_num)
  · intro x hx hstep hi
    rcases reportOrTick_cases (hrep x hx) with ⟨clock, htick⟩ | ⟨args, hr⟩
    · -- time alone leaves the record as it is
      have happly := hstep.apply_eq
      rw [htick, apply, Except.ok.injEq] at happly
      rw [← happly]
      exact ⟨hi.supply, hi.bps, hi.pending, hi.watermark, hi.ratchet⟩
    · obtain ⟨accounts, kind, h⟩ := exists_applyNavReport hstep hr
      exact hi.report hS hp h (hexact x hx args hr) (gross_le_highest hx hr)

namespace Sample

/-- A fifty-percent fee, `10 ^ 12` share atoms, and a watermark from a first report. -/
def feeEvents (w : World) : List Event :=
  [openShares w.ledger, deposit 1000000000, reportNav 0]

def feeStart : World := okValue (initializeVault 6 1000000000000 5000) (by decide +kernel)

def marked : World := feeStart.afterAll runtime (feeEvents feeStart)

/-- Two gains, each charged in whole units of the watermark. -/
def exactEvents : List Event := [reportNav 2000, reportNav 4000]

/-- One atom more is reported the second time. -/
def twiceEvents : List Event := [reportNav 1998, reportNav 1999]

/-- Shares are out, the watermark is set and nothing is owed yet. -/
theorem marked_unowed : 0 < marked.economicSupply ∧ 0 < marked.vault.highWatermark.toNat ∧
    marked.vault.feesPayable = 0 ∧ marked.vault.pendingWithdrawalAssets = 0 := by
  decide +kernel

end Sample

theorem fees_le_of_reports_exact :
    (Sample.marked.afterAll Sample.runtime Sample.exactEvents).vault.feesPayable.toNat ≤
      Sample.marked.vault.performanceFeeBps.toNat *
        (highestGross Sample.runtime (traceOf Sample.runtime Sample.marked Sample.exactEvents) -
          Sample.marked.vault.highWatermark.toNat * Sample.marked.economicSupply ⌈/⌉ 10 ^ 9) /
          10000 := by
  obtain ⟨hS, hH, hfees, hp⟩ := Sample.marked_unowed
  refine fees_le_of_reports (run_traceOf (by decide +kernel) ⟨trivial, trivial, trivial⟩) ?_ hS hH
    hfees hp ?_
  · intro x hx
    rcases List.mem_cons.mp hx with rfl | hx
    · rfl
    · rw [List.mem_singleton.mp hx]
      rfl
  · intro x hx args hargs
    rcases List.mem_cons.mp hx with rfl | hx
    · cases hargs
      decide +kernel
    · rw [List.mem_singleton.mp hx] at hargs ⊢
      cases hargs
      decide +kernel

/-- **A gain can be charged twice.**  The first report is charged 999 on a gain of 1998 and
the watermark stays; the second, one atom higher, is charged 500 more. -/
theorem gain_charged_twice :
    Run (Step Sample.runtime) Sample.marked
        (traceOf Sample.runtime Sample.marked Sample.twiceEvents)
        (Sample.marked.afterAll Sample.runtime Sample.twiceEvents) ∧
      0 < Sample.marked.economicSupply ∧ 0 < Sample.marked.vault.highWatermark.toNat ∧
      Sample.marked.vault.feesPayable = 0 ∧ Sample.marked.vault.pendingWithdrawalAssets = 0 ∧
      (∀ x ∈ traceOf Sample.runtime Sample.marked Sample.twiceEvents,
        x.event.reportOrTick = true) ∧
      ¬ (Sample.marked.afterAll Sample.runtime Sample.twiceEvents).vault.feesPayable.toNat ≤
        Sample.marked.vault.performanceFeeBps.toNat *
          (highestGross Sample.runtime (traceOf Sample.runtime Sample.marked Sample.twiceEvents) -
            Sample.marked.vault.highWatermark.toNat * Sample.marked.economicSupply ⌈/⌉ 10 ^ 9) /
            10000 := by
  obtain ⟨hS, hH, hfees, hp⟩ := Sample.marked_unowed
  refine ⟨run_traceOf (by decide +kernel) ⟨trivial, trivial, trivial⟩, hS, hH, hfees, hp, ?_,
    by decide +kernel⟩
  intro x hx
  rcases List.mem_cons.mp hx with rfl | hx
  · rfl
  · rw [List.mem_singleton.mp hx]
    rfl

end Roshi

import Mathlib.Data.Rat.Floor
import Roshi.Price

/-!
# Batches of withdrawals

A batch strikes its tickets one after another, each at the price the strike before
it left.  `batch_fair`: whatever the order, every ticket is paid at least what the
opening price gives it, and all of them together at most what it gives their sum.
`process_eq_settle`: in a reachable state the accounting of a batch of due tickets
never fails, so that the call fails only where a token transfer does.
-/

namespace Roshi

open Lib

variable {rt : Runtime} {w : World} {v v' : Vault} {supply settled settled' : U64} {now : I64}
  {l l' : List TicketSettlement}

/-! ### Fairness -/

/-- The floor of `s` times a pool price. -/
theorem floor_mul_poolPrice (s E S V : Nat) :
    ⌊(s : ℚ) * poolPrice E S V⌋₊ = s * (E + 1) / (S + V) := by
  have hcast : (s : ℚ) * poolPrice E S V = ((s * (E + 1) : Nat) : ℚ) / ((S + V : Nat) : ℚ) := by
    rw [poolPrice]
    push_cast
    ring
  rw [hcast, Rat.natFloor_natCast_div_natCast]

/-- **A batch is fair in any order.**  With `p` the price before the first strike, a ticket of
`s` shares is paid at least `⌊s p⌋`, and the batch in total at most `⌊(Σ s) p⌋` and at
most the effective assets. -/
theorem batch_fair (hl : ∀ s ∈ l, s.ticket.assetsOwed = 0)
    (h : strikeAll supply now v settled l = .ok (v', settled', l')) {E : U64}
    (hE : v.effectiveTotalAssets now = .ok E) {p : ℚ}
    (hp : p = poolPrice E.toNat (supply.toNat + v.requestedWithdrawalShares.toNat)
      (virtualShares v.baseDecimals)) :
    List.Forall₂ (fun s s' =>
        s'.ticket.sharesBurned = s.ticket.sharesBurned ∧
          ⌊(s.ticket.sharesBurned.toNat : ℚ) * p⌋₊ ≤ s'.ticket.assetsOwed.toNat) l l' ∧
      (owedTo l').sum ≤ ⌊((sharesOf l).sum : ℚ) * p⌋₊ ∧
      (owedTo l').sum ≤ E.toNat := by
  have hst := strikeAll_spec hl h
  obtain ⟨hpay, E', hE', hsum⟩ := hst.payouts E hE
  have hreq := hst.requested
  have hV := virtualShares_pos v.baseDecimals
  have hlt : (sharesOf l).sum < supply.toNat + v.requestedWithdrawalShares.toNat +
      virtualShares v.baseDecimals := by omega
  subst hp
  refine ⟨?_, ?_, by omega⟩
  · -- ticket by ticket, `payAll` is at least the floor at the opening price
    have hfloor := floor_le_of_mem_payAll (E.toNat + 1)
      (supply.toNat + v.requestedWithdrawalShares.toNat + virtualShares v.baseDecimals)
      (by omega) hlt (Nat.le_refl ((E.toNat + 1) * _))
    rw [← hpay, sharesOf, owedTo, List.forall₂_map_left_iff, List.forall₂_map_right_iff] at hfloor
    refine List.Forall₂.mp ?_ hst.priced hfloor
    intro s s' hs hle
    refine ⟨by rw [hs], ?_⟩
    rw [floor_mul_poolPrice]
    exact hle
  · have hcast : ((sharesOf l).sum : ℚ) = (((sharesOf l).sum : Nat) : ℚ) := rfl
    rw [hcast, floor_mul_poolPrice, hpay]
    exact payAll_sum_le hlt

namespace Sample

/-- A batch entry of the user's for `shares`. -/
def settlement (shares : U64) : TicketSettlement where
  ticketAccount := writable ticket
  owner := writable user
  destination := writable userBase
  ticket :=
    { vault := vaultKey, owner := user, recipientTokenAccount := userBase, sharesBurned := shares
      assetsOwed := 0, requestEpoch := 0, requestSlot := 1000, ticketIndex := 0, bump := 255 }

/-- Two entries that do not divide evenly. -/
def pair : List TicketSettlement := [settlement 333333333, settlement 166666667]

/-- The pair, struck. -/
def struckPair : ProgramResult (Vault × U64 × List TicketSettlement) :=
  strikeAll queued.shareSupply queued.clock.unixTimestamp queued.vault 0 pair

end Sample

theorem batch_fair_pair :
    ∃ v' settled' l' E,
      Sample.struckPair = .ok (v', settled', l') ∧
      Sample.queued.vault.effectiveTotalAssets Sample.queued.clock.unixTimestamp = .ok E ∧
      (owedTo l').sum ≤ E.toNat := by
  have hd : Sample.struckPair.isOk = true ∧
      (Sample.queued.vault.effectiveTotalAssets Sample.queued.clock.unixTimestamp).isOk = true := by
    decide +kernel
  have hstruck := eq_okValue hd.1
  have hE := eq_okValue hd.2
  exact ⟨_, _, _, _, hstruck, hE, (batch_fair (by decide) hstruck hE rfl).2.2⟩

/-! ### The accounting of a batch -/

/-- A batch of live tickets holds no more shares than were requested. -/
theorem LoadedBatch.shares_le (hb : Books w) (h : LoadedBatch w l) :
    (sharesOf l).sum ≤ w.vault.requestedWithdrawalShares.toNat := by
  rw [hb.requested, ← h.total_add]
  exact Nat.le_add_left _ _

/-- Settling fails only in one of its transfers. -/
theorem exists_transfer_error {tp custody sub : AccountInfo} {ledger : Ledger}
    {tickets : Table Pubkey WithdrawalTicket} {e : ProgramError}
    (h : settleAll tp custody sub ledger tickets l = .error e) :
    ∃ s ∈ l, ∃ ledger',
      transferSigned ledger' tp custody s.destination sub s.ticket.assetsOwed = .error e := by
  induction l generalizing ledger tickets with
  | nil => cases h
  | cons s l ih =>
    rw [settleAll, bind_eq_error] at h
    rcases h with ht | ⟨ledger', -, h⟩
    · exact ⟨s, List.mem_cons_self, ledger, ht⟩
    · obtain ⟨s', hs', hrest⟩ := ih h
      exact ⟨s', List.mem_cons_of_mem _ hs', hrest⟩

/-- **The accounting of a batch never fails.**  In a state reached by a run whose atomic redeems
call other programs only, with an economic supply that fits in `u64`, at any later time, a batch
of distinct live tickets that are due is struck and booked in full: the call is the payment of
the batch followed by storing a record whose pending assets are the old ones. -/
theorem process_eq_settle (hw : ReachableOutward rt w) (hfit : w.economicSupply < 2 ^ 64)
    {clock : Clock} (hnow : w.clock.unixTimestamp.toInt ≤ clock.unixTimestamp.toInt)
    {c : ProcessWithdrawalsContext} (hc : c.Loaded w)
    (hdue : ∀ s ∈ c.tickets, s.ticket.requestEpoch.toNat + 1 ≤ w.vault.reportEpoch.toNat) :
    ∃ v' batch, Priced c.tickets batch ∧
      process { w with clock } c = (do
        let (ledger, tickets) ←
          settleAll c.tokenProgram c.custody c.subAccount w.ledger w.tickets batch
        .ok { w with clock, ledger, tickets, vault := v' }) ∧
      v'.pendingWithdrawalAssets = w.vault.pendingWithdrawalAssets ∧
      v'.requestedWithdrawalShares.toNat + (sharesOf c.tickets).sum =
        w.vault.requestedWithdrawalShares.toNat ∧
      v'.totalAssets.toNat + (owedTo batch).sum = w.vault.totalAssets.toNat ∧
      ∀ e, process { w with clock } c = .error e → ∃ s ∈ batch, ∃ ledger,
        transferSigned ledger c.tokenProgram c.custody s.destination c.subAccount
          s.ticket.assetsOwed = .error e := by
  have hs := hw.forward.sound
  have hanch : w.vault.Anchored clock.unixTimestamp.toInt := hs.anchored.later hnow
  have hsum := hc.batch.shares_le hw.books
  have hun : ∀ s ∈ c.tickets, s.ticket.assetsOwed = 0 := fun s hs' =>
    (hs.openTickets _ _ (hc.batch.live _ (List.mem_map_of_mem hs'))).1
  have hp0 : w.vault.pendingWithdrawalAssets.toNat = 0 := by
    rw [hs.pending]
    rfl
  have htotal := w.vault.totalAssets.isLt
  obtain ⟨⟨v₁, settled, batch⟩, hstrike⟩ : ∃ r,
      strikeAll w.shareSupply clock.unixTimestamp w.vault 0 c.tickets = .ok r :=
    exists_strikeAll hun hs.wellFormed hanch hdue hsum hfit (by omega) (by rw [hp0]; exact le_rfl)
  have hst := strikeAll_spec hun hstrike
  have hset : settled.toNat = (owedTo batch).sum := by simpa using hst.settled_eq
  have hpend := hst.pending
  obtain ⟨p, hp, hpn⟩ := exists_checkedSub (a := v₁.pendingWithdrawalAssets) (b := settled)
    (by omega)
  have hpw : p = w.vault.pendingWithdrawalAssets := BitVec.eq_of_toNat_eq (by omega)
  have hwf : Vault.WellFormed { v₁ with pendingWithdrawalAssets := p } :=
    { hst.wellFormed hs.wellFormed with }
  have hsupply : w.ledger.mintSupply c.shareMint = .ok w.shareSupply := by
    rw [Ledger.mintSupply_of_valid (by rw [hc.shareMint_eq]; exact hs.mint), hc.shareMint_eq,
      World.shareSupply]
  have hcheck : ¬ settled > v₁.pendingWithdrawalAssets := by
    rw [gt_iff_lt, BitVec.lt_def]
    omega
  have hvalid : Vault.validateState { v₁ with pendingWithdrawalAssets := p } = .ok () :=
    Vault.validateState_eq_ok.mpr hwf
  have hprocess : process { w with clock } c = (do
      let (ledger, tickets) ←
        settleAll c.tokenProgram c.custody c.subAccount w.ledger w.tickets batch
      .ok { w with
        clock, ledger, tickets, vault := { v₁ with pendingWithdrawalAssets := p } }) := by
    rw [process, hsupply, hc.vault_eq]
    show (strikeAll w.shareSupply clock.unixTimestamp w.vault 0 c.tickets >>= _) = _
    rw [hstrike]
    show (rejectIf (settled > v₁.pendingWithdrawalAssets) _ >>= _) = _
    rw [rejectIf_of_not hcheck]
    -- from here on only the payments can fail
    show (settleAll c.tokenProgram c.custody c.subAccount w.ledger w.tickets batch >>= _) = _
    refine bind_congr ?_
    rintro ⟨ledger, tickets⟩
    show (okOr (checkedSub v₁.pendingWithdrawalAssets settled) _ >>= _) = _
    rw [hp]
    show (Vault.validateState { v₁ with pendingWithdrawalAssets := p } >>= _) = _
    rw [hvalid]
    rfl
  refine ⟨{ v₁ with pendingWithdrawalAssets := p }, batch, hst.priced, hprocess, hpw, hst.requested,
    hst.total, ?_⟩
  intro e he
  rw [hprocess, bind_eq_error] at he
  rcases he with hsettle | ⟨_, -, hok⟩
  · exact exists_transfer_error hsettle
  · cases hok

namespace Sample

/-- Two tickets of the user's, and a report. -/
def pairEvents : List Event :=
  [openShares start.ledger, deposit 1000000, redeem 333333333,
    .instruction (redeemInto secondTicket 1 userShares 166666667), tick 2000 1700001000,
    reportNav 100]

def pairQueued : World := start.afterAll runtime pairEvents

theorem pairQueued_reachable : ReachableOutward runtime pairQueued :=
  ⟨start, _, start_initial, run_traceOf (by decide +kernel)
    ⟨openShares_admissible _, trivial, trivial, trivial, trivial, trivial, trivial⟩,
    by decide +kernel⟩

def pairAccounts : List AccountInfo := batchAccounts [ticket, secondTicket]

/-- The vault whose live ticket is not among the requested shares. -/
def uncounted : World := start.afterAll runtime ownRedeemEvents

end Sample

theorem process_eq_settle_pair :
    ∃ (c : ProcessWithdrawalsContext) (v' : Vault) (batch : List TicketSettlement),
      ProcessWithdrawalsContext.load Sample.runtime Sample.pairQueued Sample.pairAccounts = .ok c ∧
      sharesOf c.tickets = [333333333, 166666667] ∧
      Priced c.tickets batch ∧
      v'.totalAssets.toNat + (owedTo batch).sum = Sample.pairQueued.vault.totalAssets.toNat := by
  have hd : Sample.pairQueued.economicSupply < 2 ^ 64 ∧ ∃ h,
      sharesOf (okValue (ProcessWithdrawalsContext.load Sample.runtime Sample.pairQueued
        Sample.pairAccounts) h).tickets = [333333333, 166666667] ∧
      ∀ s ∈ (okValue (ProcessWithdrawalsContext.load Sample.runtime Sample.pairQueued
        Sample.pairAccounts) h).tickets,
        s.ticket.requestEpoch.toNat + 1 ≤ Sample.pairQueued.vault.reportEpoch.toNat := by
    decide +kernel
  obtain ⟨hfit, hok, hshares, hdue⟩ := hd
  have hload := eq_okValue hok
  obtain ⟨v', batch, hpriced, -, -, -, htotal, -⟩ :=
    process_eq_settle Sample.pairQueued_reachable hfit
      (le_refl Sample.pairQueued.clock.unixTimestamp.toInt)
      (ProcessWithdrawalsContext.load_spec hload) hdue
  exact ⟨_, v', batch, hload, hshares, hpriced, htotal⟩

/-- **An atomic redeem that calls `Redeem` wedges the queue.**  The record stored does not count
the ticket, so the strike of it takes more than was requested. -/
theorem nested_redeem_wedges :
    ReachableForward Sample.runtime Sample.uncounted ∧
      Sample.uncounted.economicSupply < 2 ^ 64 ∧
      ∃ c : ProcessWithdrawalsContext,
        ProcessWithdrawalsContext.load Sample.runtime Sample.uncounted Sample.processAccounts =
          .ok c ∧
        c.Loaded Sample.uncounted ∧
        (∀ s ∈ c.tickets,
          s.ticket.requestEpoch.toNat + 1 ≤ Sample.uncounted.vault.reportEpoch.toNat) ∧
        strikeAll Sample.uncounted.shareSupply Sample.uncounted.clock.unixTimestamp
          Sample.uncounted.vault 0 c.tickets = .error (.custom .overflow) ∧
        process Sample.uncounted c = .error (.custom .overflow) := by
  have hd : Sample.uncounted.economicSupply < 2 ^ 64 ∧ ∃ h,
      (∀ s ∈ (okValue (ProcessWithdrawalsContext.load Sample.runtime Sample.uncounted
        Sample.processAccounts) h).tickets,
        s.ticket.requestEpoch.toNat + 1 ≤ Sample.uncounted.vault.reportEpoch.toNat) ∧
      errorOf (strikeAll Sample.uncounted.shareSupply Sample.uncounted.clock.unixTimestamp
        Sample.uncounted.vault 0 (okValue (ProcessWithdrawalsContext.load Sample.runtime
          Sample.uncounted Sample.processAccounts) h).tickets) = some (.custom .overflow) ∧
      errorOf (process Sample.uncounted (okValue (ProcessWithdrawalsContext.load Sample.runtime
        Sample.uncounted Sample.processAccounts) h)) = some (.custom .overflow) := by
    decide +kernel
  obtain ⟨hfit, hok, hdue, hstrike, hprocess⟩ := hd
  have hload := eq_okValue hok
  exact ⟨⟨Sample.start, _, Sample.start_initial, Sample.ownRedeemEvents_run, by decide +kernel⟩,
    hfit, _, hload, ProcessWithdrawalsContext.load_spec hload, hdue, errorOf_eq_some.mp hstrike,
    errorOf_eq_some.mp hprocess⟩

end Roshi

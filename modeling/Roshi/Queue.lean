import Roshi.Invariants

/-!
# The withdrawal queue

What happens to the tickets of a vault over a whole run.  One step opens at most one
ticket at an address, by a redeem, and closes a ticket only by a cancel or a strike
(`Books.step_ticket`).  Over a run every closing is matched with the redeem that
opened exactly that ticket, with nothing happening to it in between, and a strike
has a report in between (`closed_once`).  `SupplyRule` says what each kind of step
does to the economic share supply.
-/

namespace Roshi

open Lib

variable {rt : Runtime} {w w' : World} {tr : Trace} {e : Event} {key : Pubkey}
  {t : WithdrawalTicket}

/-! ### The economic supply -/

/-- What a step does to the circulating shares plus those in the queue.  Shares only the
foreign program of a relay burned are counted as `burned`. -/
def SupplyRule (w w' : World) : Event → Prop
  | .instruction (.deposit ..) =>
    ∃ base shares, Deposited w w' base shares 0 ∧ w'.economicSupply = w.economicSupply + shares
  | .instruction (.depositAndDeploy ..) =>
    ∃ base shares burned, Deposited w w' base shares burned ∧
      w'.economicSupply + burned = w.economicSupply + shares
  | .instruction (.atomicRedeem _ args _ _) =>
    ∃ payout burned, Unwound w w' args.shares.toNat payout burned ∧
      w'.economicSupply + args.shares.toNat + burned = w.economicSupply
  | .instruction (.processWithdrawals _) =>
    ∃ l l', Processed w w' l l' ∧ w'.economicSupply + (sharesOf l).sum = w.economicSupply
  | .environment _ => w'.economicSupply ≤ w.economicSupply
  | _ => w'.economicSupply = w.economicSupply

theorem Deposited.economicSupply {base shares burned : Nat}
    (h : Deposited w w' base shares burned) :
    w'.economicSupply + burned = w.economicSupply + shares := by
  have hs := h.supply
  have hr : w'.vault.requestedWithdrawalShares = w.vault.requestedWithdrawalShares := by
    rw [h.vault]
  rw [World.economicSupply, World.economicSupply, hr]
  omega

theorem Opened.economicSupply (h : Opened w w' key t) : w'.economicSupply = w.economicSupply := by
  have hs := h.supply
  have hr := h.requested
  rw [World.economicSupply, World.economicSupply]
  omega

theorem Cancelled.economicSupply (h : Cancelled w w' key t) :
    w'.economicSupply = w.economicSupply := by
  have hs := h.supply
  have hr := h.requested
  rw [World.economicSupply, World.economicSupply]
  omega

theorem Processed.economicSupply {l l' : List TicketSettlement} (h : Processed w w' l l') :
    w'.economicSupply + (sharesOf l).sum = w.economicSupply := by
  obtain ⟨v₁, settled, hst, hv'⟩ := h.struck
  have hr := hst.requested
  rw [World.economicSupply, World.economicSupply, h.supply, hv']
  show _ + v₁.requestedWithdrawalShares.toNat + _ = _
  omega

theorem Unwound.economicSupply {shares burned : Nat} {payout : U64}
    (h : Unwound w w' shares payout burned) :
    w'.economicSupply + shares + burned = w.economicSupply := by
  obtain ⟨r, total, -, -, -, hv⟩ := Vault.debit_spec.mp h.debit
  have hs := h.supply
  rw [World.economicSupply, World.economicSupply, hv]
  show _ + w.vault.requestedWithdrawalShares.toNat + _ + _ = _
  omega

theorem Reported.economicSupply (h : Reported w w') : w'.economicSupply = w.economicSupply := by
  rw [World.economicSupply, World.economicSupply, h.supply, h.requested]

theorem Unpriced.economicSupply (h : Unpriced w w') : w'.economicSupply = w.economicSupply := by
  rw [World.economicSupply, World.economicSupply, h.supply, h.books.requestedWithdrawalShares]

theorem OutwardStep.supplyRule (ho : w.OpenTickets) (hstep : OutwardStep rt w e w') :
    SupplyRule w w' e := by
  have hm := hstep.admissible
  have hout := hstep.outward
  have h := hstep.apply_eq
  cases e with
  | tick =>
    cases h
    rfl
  | environment env =>
    cases h
    show (env.ledger.supply w.vault.shareMint).toNat + _ ≤ w.shareSupply.toNat + _
    exact Nat.add_le_add_right hm.supply_le _
  | instruction i =>
    cases i with
    | deposit =>
      obtain ⟨_, base, shares, -, -, hd⟩ := tryDeposit_deposited h
      exact ⟨base.toNat, shares.toNat, hd, hd.economicSupply⟩
    | depositAndDeploy =>
      obtain ⟨base, shares, burned, hd⟩ :=
        tryDepositAndDeploy_deposited (Call.leavesRecords hout hm.1) h
      exact ⟨base, shares, burned, hd, hd.economicSupply⟩
    | atomicRedeem =>
      obtain ⟨payout, burned, hu⟩ := tryAtomicRedeem_unwound (Call.leavesRecords hout hm) h
      exact ⟨payout, burned, hu, hu.economicSupply⟩
    | processWithdrawals =>
      obtain ⟨l, l', hp⟩ :=
        tryProcessWithdrawals_processed (fun k t hl => (ho k t hl).1) h
      exact ⟨l, l', hp, hp.economicSupply⟩
    | redeem =>
      obtain ⟨_, _, ho⟩ := tryRedeem_opened h
      exact ho.economicSupply
    | cancelRedeem =>
      obtain ⟨_, _, hc⟩ := tryCancelRedeem_cancelled h
      exact hc.economicSupply
    | reportNav => exact (applyNavReport_reported h).economicSupply
    | recoverNav => exact (applyNavReport_reported h).economicSupply
    | _ =>
      -- the remaining instructions move neither shares nor the queue
      cases hstep.effect ho with
      | quiet hq => exact hq.economicSupply

/-! ### One ticket in one step -/

/-- A step that opens the ticket `t` at `key`. -/
structure Creates (x : Transition World Event) (key : Pubkey) (t : WithdrawalTicket) : Prop where
  fresh : x.pre.tickets.lookup key = none
  live : x.post.tickets.lookup key = some t
  kind : x.event.kind = .redeem
  epoch : t.requestEpoch = x.post.vault.reportEpoch

/-- A step that closes the ticket `t` at `key`. -/
structure Closes (x : Transition World Event) (key : Pubkey) (t : WithdrawalTicket) : Prop where
  live : x.pre.tickets.lookup key = some t
  gone : x.post.tickets.lookup key = none

/-- A closing by `CancelRedeem`, which mints back exactly the burned shares. -/
structure Reminted (x : Transition World Event) (t : WithdrawalTicket) : Prop where
  kind : x.event.kind = .cancelRedeem
  supply : x.post.shareSupply.toNat = x.pre.shareSupply.toNat + t.sharesBurned.toNat
  requested : x.post.vault.requestedWithdrawalShares.toNat + t.sharesBurned.toNat =
    x.pre.vault.requestedWithdrawalShares.toNat

/-- What one step can do to one address. -/
theorem OutwardStep.ticket (ho : w.OpenTickets) (h : OutwardStep rt w e w') (key : Pubkey) :
    w'.tickets.lookup key = w.tickets.lookup key ∨
      (∃ t, Creates ⟨w, e, w'⟩ key t) ∨
      ∃ t, Closes ⟨w, e, w'⟩ key t ∧ (Reminted ⟨w, e, w'⟩ t ∨
        (e.kind = .processWithdrawals ∧ t.requestEpoch.toNat + 1 ≤ w.vault.reportEpoch.toNat)) := by
  cases e with
  | tick =>
    cases h.apply_eq
    exact .inl rfl
  | environment =>
    cases h.apply_eq
    exact .inl rfl
  | instruction i =>
    have he := h.effect ho
    generalize hk : i.kind = k at he
    cases he with
    | deposit h => exact .inl (by rw [h.tickets])
    | atomicRedeem h => exact .inl (by rw [h.tickets])
    | report h => exact .inl (by rw [h.tickets])
    | quiet h => exact .inl (by rw [h.tickets])
    | @redeem k t h =>
      rcases eq_or_ne key k with rfl | hne
      · refine .inr (.inl ⟨t, h.fresh, ?_, hk, ?_⟩)
        · show w'.tickets.lookup key = some t
          rw [h.tickets, AList.lookup_insert]
        · show t.requestEpoch = w'.vault.reportEpoch
          rw [h.epoch, h.vault]
      · exact .inl (by rw [h.tickets, AList.lookup_insert_ne hne])
    | @cancelRedeem k t h =>
      rcases eq_or_ne key k with rfl | hne
      · refine .inr (.inr ⟨t, ⟨h.live, ?_⟩, .inl ⟨hk, h.supply, h.requested⟩⟩)
        show w'.tickets.lookup key = none
        rw [h.tickets, AList.lookup_erase]
      · exact .inl (by rw [h.tickets, AList.lookup_erase_ne hne])
    | @processWithdrawals l l' h =>
      by_cases hmem : key ∈ keysOf l
      · obtain ⟨r, hr, rfl⟩ := List.mem_map.mp hmem
        have hlive := h.batch.live r hr
        obtain ⟨s, hs, rfl⟩ := List.mem_map.mp hr
        obtain ⟨v₁, settled, hst, -⟩ := h.struck
        refine .inr (.inr ⟨s.ticket, ⟨hlive, ?_⟩, .inr ⟨hk, hst.epochs s hs⟩⟩)
        show w'.tickets.lookup _ = none
        rw [h.tickets, Table.lookup_eraseAll_of_mem hmem]
      · exact .inl (by rw [h.tickets, Table.lookup_eraseAll_of_notMem hmem])

/-! ### One ticket over a run -/

/-- The report epoch moves only by reports. -/
theorem OutwardStep.reportEpoch_eq (ho : w.OpenTickets) (h : OutwardStep rt w e w')
    (hk : e.kind ≠ .report) :
    w'.vault.reportEpoch = w.vault.reportEpoch := by
  cases e with
  | tick =>
    cases h.apply_eq
    rfl
  | environment =>
    cases h.apply_eq
    rfl
  | instruction i =>
    have he := h.effect ho
    have hk : i.kind ≠ .report := hk
    generalize i.kind = k at he hk
    cases he with
    | deposit h => rw [h.vault]
    | redeem h => rw [h.vault]
    | cancelRedeem h => rw [h.vault]
    | processWithdrawals h =>
      obtain ⟨v₁, settled, hst, hv'⟩ := h.struck
      rw [hv']
      exact hst.frame.eq (f := Vault.reportEpoch) fun _ => rfl
    | atomicRedeem h =>
      obtain ⟨r, total, -, -, -, hv⟩ := Vault.debit_spec.mp h.debit
      rw [hv]
      rfl
    | report h => exact (hk rfl).elim
    | quiet h => exact h.books.reportEpoch

/-- Without a report the epoch stays. -/
theorem reportEpoch_of_run (hs : Standing w) (hrun : Run (OutwardStep rt) w tr w')
    (hno : ∀ x ∈ tr, x.event.kind ≠ .report) : w'.vault.reportEpoch = w.vault.reportEpoch := by
  have hinv := hrun.invariant
    (P := fun v => Standing v ∧ v.vault.reportEpoch = w.vault.reportEpoch) ⟨hs, rfl⟩ ?_
  · exact hinv.2
  · rintro x hx hstep ⟨hsx, hex⟩
    exact ⟨hsx.step hstep.toStep, (hstep.reportEpoch_eq hsx.openTickets (hno x hx)).trans hex⟩

/-- A closing step, with the story of the ticket before it. -/
structure ClosedOnce (pre : Trace) (x : Transition World Event) (key : Pubkey)
    (t : WithdrawalTicket) : Prop where
  story : ∃ before y between, pre = before ++ y :: between ∧ Creates y key t ∧
    (∀ z ∈ between, z.pre.tickets.lookup key = some t ∧ z.post.tickets.lookup key = some t) ∧
    (Reminted x t ∨
      (x.event.kind = .processWithdrawals ∧ ∃ z ∈ between, z.event.kind = .report))

/-- A live ticket was opened by some redeem and has not been touched since. -/
theorem exists_creation {w₀ : World} (hb : Books w₀) (h0 : w₀.tickets = ∅)
    (hrun : Run (OutwardStep rt) w₀ tr w) (hl : w.tickets.lookup key = some t) :
    ∃ before y between, tr = before ++ y :: between ∧ Creates y key t ∧
      ∀ z ∈ between, z.pre.tickets.lookup key = some t ∧ z.post.tickets.lookup key = some t := by
  rcases hrun.last_change (Q := fun v => v.tickets.lookup key = some t) hl with
    ⟨hw₀, -⟩ | ⟨before, y, between, rfl, hpre, hpost, hkeep⟩
  · rw [h0, AList.lookup_empty] at hw₀
    cases hw₀
  · refine ⟨before, y, between, rfl, ?_, hkeep⟩
    obtain ⟨hrun₁, hy, -⟩ := hrun.split
    rcases hy.ticket (hb.run hrun₁).standing.openTickets key with heq | ⟨t', hc⟩ | ⟨t', hc, -⟩
    · exact (hpre (heq ▸ hpost)).elim
    · obtain rfl : t' = t := Option.some.inj (hc.live.symm.trans hpost)
      exact hc
    · exact absurd (hc.gone.symm.trans hpost) (by simp)

/-- **Each ticket is closed once.** -/
theorem closed_once {w₀ : World} (hb : Books w₀) (h0 : w₀.tickets = ∅) {pre post : Trace}
    {x : Transition World Event} (hrun : Run (OutwardStep rt) w₀ (pre ++ x :: post) w)
    (hx : Closes x key t) : ClosedOnce pre x key t := by
  obtain ⟨hrun₁, hstep, -⟩ := hrun.split
  obtain ⟨before, y, between, rfl, hy, hkeep⟩ := exists_creation hb h0 hrun₁ hx.live
  refine ⟨before, y, between, rfl, hy, hkeep, ?_⟩
  have hbx := hb.run hrun₁
  rcases hstep.ticket hbx.standing.openTickets key with heq | ⟨t', hc⟩ | ⟨t', hc, hclose⟩
  · exact absurd (heq.symm.trans hx.gone) (by rw [hx.live]; simp)
  · exact absurd (hc.fresh.symm.trans hx.live) (by simp)
  · obtain rfl : t' = t := Option.some.inj (hc.live.symm.trans hx.live)
    rcases hclose with hrem | ⟨hk, hepoch⟩
    · exact .inl hrem
    · refine .inr ⟨hk, ?_⟩
      -- no report since the ticket was opened would leave it too young to strike
      by_contra hno
      push Not at hno
      obtain ⟨hrun₀, hstepy, hrun₂⟩ := hrun₁.split
      have hby := (hb.run hrun₀).step hstepy
      have heq := reportEpoch_of_run hby.standing hrun₂ hno
      rw [heq, ← hy.epoch] at hepoch
      omega

/-! ### The ledger of the queue -/

/-- What a run `tr` from `InitializeVault` to `w` keeps of the queue. -/
structure QueueLedger (tr : Trace) (w : World) : Prop where
  books : Books w
  supply : ∀ x ∈ tr, SupplyRule x.pre x.post x.event
  closed : ∀ pre x post key t, tr = pre ++ x :: post → Closes x key t → ClosedOnce pre x key t

/-- **The withdrawal-queue ledger.**  On every run from `InitializeVault` whose atomic redeems
call other programs only, the counters agree with the live tickets in every state; every
step moves the economic supply only by its own shares; and every closing is a cancel or a
strike of a ticket opened once before. -/
theorem withdrawal_queue_ledger {w₀ : World} (h0 : Initial rt w₀)
    (hrun : Run (Step rt) w₀ tr w) (hout : Outward tr) : QueueLedger tr w := by
  have hb := h0.books
  have hrun := run_outward hrun hout
  refine ⟨hb.run hrun, ?_, ?_⟩
  · intro x hx
    obtain ⟨pre, post, rfl⟩ := List.append_of_mem hx
    obtain ⟨hrun₁, hstep, -⟩ := hrun.split
    exact hstep.supplyRule (hb.run hrun₁).standing.openTickets
  · rintro pre x post key t rfl hc
    obtain ⟨g, accounts, args, h0⟩ := h0
    obtain ⟨-, -, ht, -⟩ := tryInitializeVault_spec h0
    exact closed_once hb ht hrun hc

theorem withdrawal_queue_ledger_strike :
    QueueLedger (traceOf Sample.runtime Sample.start Sample.strikeEvents)
      (Sample.start.afterAll Sample.runtime Sample.strikeEvents) :=
  withdrawal_queue_ledger Sample.start_initial Sample.strikeEvents_run (by decide +kernel)

/-- **An atomic redeem that calls `Redeem` loses the request.**  The ticket is live and its
shares are burned, but the record stored does not count them. -/
theorem nested_redeem_uncounted :
    Initial Sample.runtime Sample.start ∧
      Run (Step Sample.runtime) Sample.start
        (traceOf Sample.runtime Sample.start Sample.ownRedeemEvents)
        (Sample.start.afterAll Sample.runtime Sample.ownRedeemEvents) ∧
      (Sample.start.afterAll Sample.runtime Sample.ownRedeemEvents).ticketShares = 1000 ∧
      (Sample.start.afterAll Sample.runtime
        Sample.ownRedeemEvents).vault.requestedWithdrawalShares = 0 ∧
      ¬ QueueLedger (traceOf Sample.runtime Sample.start Sample.ownRedeemEvents)
        (Sample.start.afterAll Sample.runtime Sample.ownRedeemEvents) := by
  have hd : (Sample.start.afterAll Sample.runtime Sample.ownRedeemEvents).ticketShares = 1000 ∧
      (Sample.start.afterAll Sample.runtime
        Sample.ownRedeemEvents).vault.requestedWithdrawalShares = 0 := by decide +kernel
  obtain ⟨hshares, hrequested⟩ := hd
  refine ⟨Sample.start_initial, Sample.ownRedeemEvents_run, hshares, hrequested, ?_⟩
  intro h
  have hsum := h.books.requested
  rw [hshares, hrequested] at hsum
  cases hsum

end Roshi

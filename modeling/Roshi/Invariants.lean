import Roshi.Effect

/-!
# What holds in every reachable state

Three invariants, each proved over the seven kinds of effects.  Two hold whatever an atomic
redeem calls.

`Standing`: the stored record passes `validate_state`, at any clock, no live ticket is priced
or empty, nothing is pending between instructions.
`Sound`: under a clock that never goes back, the unlock window moreover is short and lies
behind what it locks, so that pricing never fails.

The third, `Books`, says that the record's counters agree with the ticket table.  It needs
that atomic redeems call other programs only: one that calls the program itself stores the
counters it loaded before the call.
-/

namespace Roshi

open Lib

variable {rt : Runtime} {w w' : World} {tr : Trace}

/-! ### The record stays valid -/

/-- A record `Vault::new` built. -/
def Vault.Created (v : Vault) : Prop :=
  ∃ tag a s sw n wd bm sm d o ds ws tr p q cap c pr root bump,
    Vault.new tag a s sw n wd bm sm d o ds ws tr p q cap c pr root bump = .ok v

theorem Initial.created (h : Initial rt w) : w.vault.Created := by
  obtain ⟨g, accounts, args, h⟩ := h
  simp only [tryInitializeVault, bind_eq_ok, Except.ok.injEq] at h
  obtain ⟨c, -, _, -, v, hv, _, -, _, -, _, -, _, -, rfl⟩ := h
  exact ⟨_, _, _, _, _, _, _, _, _, _, _, _, _, _, _, _, _, _, _, _, hv⟩

/-- Processing validates what it stores. -/
theorem tryProcessWithdrawals_wellFormed {accounts : List AccountInfo}
    (h : tryProcessWithdrawals rt w accounts = .ok w') : w'.vault.WellFormed := by
  simp only [tryProcessWithdrawals, process, bind_eq_ok, Prod.exists, Except.ok.injEq,
    Vault.validateState_eq_ok] at h
  obtain ⟨_, -, _, -, _, _, _, -, _, -, _, _, -, _, -, _, hwf, rfl⟩ := h
  exact hwf

/-- So does an atomic redeem, whatever it calls. -/
theorem tryAtomicRedeem_wellFormed {accounts : List AccountInfo} {args : AtomicRedeemArgs}
    {relay : Relay} (h : tryAtomicRedeem rt w accounts args relay = .ok w') :
    w'.vault.WellFormed := by
  obtain ⟨_, _, _, _, _, _, _, _, _, v', -, -, -, -, -, -, -, -, -, -, -, -, hwf, rfl⟩ :=
    tryAtomicRedeem_spec h
  exact hwf

/-- `Deposit`, `Redeem` and `CancelRedeem` store without validating; what they change keeps
a valid record valid.  Everything else validates before it stores. -/
theorem Effect.wellFormed {k : Kind} (h : Effect w w' k) (hwf : w.vault.WellFormed) :
    w'.vault.WellFormed := by
  cases h with
  | deposit h =>
    have hle := hwf.lockedProfit_le
    have htotal := h.total
    rw [h.vault]
    refine { hwf with lockedProfit_le := ?_ }
    show w.vault.lockedProfit.toNat ≤ w'.vault.totalAssets.toNat
    omega
  | redeem h =>
    rw [h.vault]
    exact { hwf with }
  | cancelRedeem h =>
    rw [h.vault]
    exact { hwf with }
  | processWithdrawals h => exact h.wellFormed
  | atomicRedeem h => exact h.wellFormed
  | report h => exact h.wellFormed
  | quiet h => exact h.wellFormed

theorem Step.wellFormed {e : Event} (h : Step rt w e w') (hwf : w.vault.WellFormed) :
    w'.vault.WellFormed := by
  obtain ⟨hm, h⟩ := h
  cases e with
  | instruction i =>
    by_cases hk : i.kind = .processWithdrawals
    · cases i <;> first | exact tryProcessWithdrawals_wellFormed h | cases hk
    · by_cases hout : i.outward = true
      · exact (exec_effect (Instruction.Admissible.neverMints hm) hout (fun hk' => (hk hk').elim)
          h).wellFormed hwf
      · cases i with
        | depositAndDeploy => exact (hout hm.2).elim
        | atomicRedeem => exact tryAtomicRedeem_wellFormed h
        | _ => exact (hout rfl).elim
  | tick =>
    cases h
    exact hwf
  | environment =>
    cases h
    exact hwf

/-- What every run keeps of the record and the tickets, whatever an atomic redeem calls. -/
structure Standing (w : World) : Prop where
  wellFormed : w.vault.WellFormed
  openTickets : w.OpenTickets
  pending : w.vault.pendingWithdrawalAssets = 0

theorem Initial.standing (h : Initial rt w) : Standing w := by
  obtain ⟨g, accounts, args, h⟩ := h
  obtain ⟨hwf, -, ht, -, -, hp, -, -⟩ := tryInitializeVault_spec h
  refine ⟨hwf, ?_, hp⟩
  intro k t hl
  rw [ht, AList.lookup_empty] at hl
  cases hl

theorem Effect.pending {k : Kind} (h : Effect w w' k) :
    w'.vault.pendingWithdrawalAssets = w.vault.pendingWithdrawalAssets := by
  cases h with
  | deposit h => rw [h.vault]
  | redeem h => rw [h.vault]
  | cancelRedeem h => rw [h.vault]
  | processWithdrawals h =>
    obtain ⟨v₁, settled, -, hv'⟩ := h.struck
    rw [hv']
  | atomicRedeem h =>
    obtain ⟨r, total, -, -, -, hv⟩ := Vault.debit_spec.mp h.debit
    rw [hv]
    rfl
  | report h => exact h.pending
  | quiet h => exact h.books.pendingWithdrawalAssets

theorem Restored.pending (h : Restored w w') :
    w'.vault.pendingWithdrawalAssets = w.vault.pendingWithdrawalAssets := by
  obtain ⟨payout, hdebit⟩ := h.debit
  obtain ⟨r, total, -, -, -, hv⟩ := Vault.debit_spec.mp hdebit
  rw [hv]
  rfl

theorem Standing.step {e : Event} (hs : Standing w) (h : Step rt w e w') : Standing w' := by
  cases e with
  | instruction i =>
    rcases h.effect_or_restored hs.openTickets with he | hr
    · exact ⟨he.wellFormed hs.wellFormed, he.openTickets hs.openTickets,
        he.pending.trans hs.pending⟩
    · exact ⟨hr.wellFormed, hr.openTickets, hr.pending.trans hs.pending⟩
  | tick =>
    cases h.apply_eq
    exact ⟨hs.wellFormed, hs.openTickets, hs.pending⟩
  | environment =>
    cases h.apply_eq
    exact ⟨hs.wellFormed, hs.openTickets, hs.pending⟩

theorem Standing.run (hs : Standing w) (hrun : Run (Step rt) w tr w') : Standing w' :=
  hrun.invariant hs fun _ _ h hs => hs.step h

theorem Reachable.standing (h : Reachable rt w) : Standing w :=
  h.invariant (fun _ h => h.standing) fun _ _ _ h hs => hs.step h

theorem wellFormed_of_run (hwf : w.vault.WellFormed) (hrun : Run (Step rt) w tr w') :
    w'.vault.WellFormed :=
  hrun.invariant (P := fun w => w.vault.WellFormed) hwf fun _ _ hs => hs.wellFormed

/-- **A vault never bricks itself.**  From a record `Vault::new` built, whatever instructions
write it and whatever the clock does, every stored record passes `validate_state`. -/
theorem stored_vault_validates (h0 : w.vault.Created) (hrun : Run (Step rt) w tr w') :
    w'.vault.validateState = .ok () ∧
      w'.vault.lockedProfit.toNat ≤ w'.vault.totalAssets.toNat ∧
      w'.vault.profitUnlockStartTs.toInt ≤ w'.vault.profitUnlockEndTs.toInt ∧
      (w'.vault.performanceFeeBps.toNat ≤ 10000 ∧ w'.vault.withdrawalBufferBps.toNat ≤ 10000 ∧
        w'.vault.controls.atomicRedeemFeeBps.toNat ≤ 10000 ∧
        w'.vault.controls.maxSwapSlippageBps.toNat ≤ 10000) ∧
      w'.vault.baseDecimals.toNat ≤ 9 ∧
      ∀ f ∈ [w'.vault.depositsPausedFlag, w'.vault.withdrawalsPausedFlag,
        w'.vault.managePausedFlag, w'.vault.privateFlag, w'.vault.externalEnabledFlag],
        f = 0 ∨ f = 1 := by
  obtain ⟨_, _, _, _, _, _, _, _, _, _, _, _, _, _, _, _, _, _, _, _, h0⟩ := h0
  have hwf := wellFormed_of_run (new_spec h0).1 hrun
  refine ⟨Vault.validateState_eq_ok.mpr hwf, hwf.lockedProfit_le, hwf.unlock_le,
    ⟨hwf.performanceFeeBps_le, hwf.withdrawalBufferBps_le, hwf.atomicRedeemFeeBps_le,
      hwf.maxSwapSlippageBps_le⟩, hwf.baseDecimals_le, ?_⟩
  intro f hf
  simp only [List.mem_cons, List.not_mem_nil, or_false] at hf
  rcases hf with rfl | rfl | rfl | rfl | rfl
  · exact hwf.depositsPausedFlag
  · exact hwf.withdrawalsPausedFlag
  · exact hwf.managePausedFlag
  · exact hwf.privateFlag
  · exact hwf.externalEnabledFlag

theorem stored_vault_validates_strike :
    (Sample.start.afterAll Sample.runtime Sample.strikeEvents).vault.validateState = .ok () :=
  (stored_vault_validates Sample.start_initial.created Sample.strikeEvents_run).1

/-! ### Deployments as two steps -/

theorem Forward.nil : Forward [] := by simp [Forward]

/-- A step at one instant in front. -/
theorem Forward.cons {x : Transition World Event} (h : x.post.clock = x.pre.clock)
    (hf : Forward tr) : Forward (x :: tr) := by
  intro y hy
  rcases List.mem_cons.mp hy with rfl | hy
  · rw [h]
  · exact hf y hy

mutual

/-- **What the dispatcher does is a run of steps**: an instruction called by a deployment is a
step after it. -/
theorem exec_run : ∀ (i : Instruction) {w w' : World}, i.NeverMints w.vault.shareMint →
    w.OpenTickets → exec rt w i = .ok w' → ∃ tr, Run (Step rt) w tr w' ∧ Forward tr := by
  intro i w w' hm ho h
  have hkept := exec_kept i hm ho h
  have hsingle : i.Admissible w.vault.shareMint → ∃ tr, Run (Step rt) w tr w' ∧ Forward tr := by
    intro ha
    have hstep : Step rt w (.instruction i) w' := ⟨ha, h⟩
    exact ⟨_, .single hstep, .cons hkept.clock .nil⟩
  cases i with
  | depositAndDeploy accounts args authorize call =>
    rw [exec_depositAndDeploy, bind_eq_ok] at h
    obtain ⟨w₁, hdeposit, hcall⟩ := h
    have hfirst := exec_kept (.depositAndDeploy accounts args authorize .done) trivial ho hdeposit
    have hm₁ : call.NeverMints w₁.vault.shareMint := hfirst.shareMint.symm ▸ hm
    have hstep : Step rt w (.instruction (.depositAndDeploy accounts args authorize .done)) w₁ :=
      ⟨⟨trivial, rfl⟩, hdeposit⟩
    obtain ⟨tr, hrun, hf⟩ := callRun_run call hm₁ hfirst.openTickets hcall
    exact ⟨_, .cons hstep hrun, .cons hfirst.clock hf⟩
  | atomicRedeem => exact hsingle hm
  | _ => exact hsingle trivial

theorem callRun_run : ∀ (call : Call) {w w' : World}, call.NeverMints w.vault.shareMint →
    w.OpenTickets → callRun rt w call = .ok w' → ∃ tr, Run (Step rt) w tr w' ∧ Forward tr := by
  intro call w w' hm ho h
  cases call with
  | done =>
    cases h
    exact ⟨[], .nil w, .nil⟩
  | other run rest =>
    obtain ⟨env, hrun, h⟩ := bind_eq_ok.mp h
    obtain ⟨tr, hrest, hf⟩ := callRun_run rest (w := w.under env) hm.2 ho h
    have hstep : Step rt w (.environment env) (w.under env) := ⟨hm.1 _ _ hrun, rfl⟩
    exact ⟨_, .cons hstep hrest, .cons rfl hf⟩
  | own i rest =>
    obtain ⟨w₁, hi, h⟩ := bind_eq_ok.mp h
    have hfirst := exec_kept i hm.1 ho hi
    have hm₁ : rest.NeverMints w₁.vault.shareMint := hfirst.shareMint.symm ▸ hm.2
    obtain ⟨tr, hrun, hf⟩ := exec_run i hm.1 ho hi
    obtain ⟨tr', hrest, hf'⟩ := callRun_run rest hm₁ hfirst.openTickets h
    exact ⟨_, hrun.append hrest, hf.append hf'⟩

end

/-- Whatever the dispatcher makes of a reachable state is reachable. -/
theorem ReachableForward.exec {i : Instruction} (hw : ReachableForward rt w)
    (hm : i.NeverMints w.vault.shareMint) (h : exec rt w i = .ok w') : ReachableForward rt w' := by
  obtain ⟨tr, hrun, hf⟩ := exec_run i hm hw.reachable.standing.openTickets h
  exact hw.run hrun hf

/-! ### The queue's books -/

/-- A live ticket as the queue keeps it: unpriced, not empty, stamped by the past. -/
structure WithdrawalTicket.Queued (t : WithdrawalTicket) (reportEpoch : U64) : Prop where
  unpriced : t.assetsOwed = 0
  shares_pos : 0 < t.sharesBurned.toNat
  epoch_le : t.requestEpoch.toNat ≤ reportEpoch.toNat

structure Books (w : World) : Prop where
  wellFormed : w.vault.WellFormed
  requested : w.vault.requestedWithdrawalShares.toNat = w.ticketShares
  queued : ∀ k t, w.tickets.lookup k = some t → t.Queued w.vault.reportEpoch
  pending : w.vault.pendingWithdrawalAssets = 0

theorem Books.standing (hb : Books w) : Standing w :=
  ⟨hb.wellFormed, fun k t hl => ⟨(hb.queued k t hl).unpriced, (hb.queued k t hl).shares_pos⟩,
    hb.pending⟩

theorem WithdrawalTicket.Queued.later {t : WithdrawalTicket} {a b : U64} (h : t.Queued a)
    (hab : a.toNat ≤ b.toNat) : t.Queued b :=
  ⟨h.unpriced, h.shares_pos, h.epoch_le.trans hab⟩

theorem Initial.books (h : Initial rt w) : Books w := by
  obtain ⟨g, accounts, args, h⟩ := h
  obtain ⟨hwf, -, ht, -, hr, hp, -, -⟩ := tryInitializeVault_spec h
  refine ⟨hwf, ?_, ?_, hp⟩
  · rw [hr, World.ticketShares, ht, Table.total_empty]
    rfl
  · intro k t hl
    rw [ht, AList.lookup_empty] at hl
    cases hl

/-- The books carry over when neither the queue nor its counters move. -/
theorem Books.of_same (hb : Books w) (hwf : w'.vault.WellFormed) (ht : w'.tickets = w.tickets)
    (hr : w'.vault.requestedWithdrawalShares = w.vault.requestedWithdrawalShares)
    (hp : w'.vault.pendingWithdrawalAssets = w.vault.pendingWithdrawalAssets)
    (he : w.vault.reportEpoch.toNat ≤ w'.vault.reportEpoch.toNat) : Books w' := by
  refine ⟨hwf, ?_, ?_, hp.trans hb.pending⟩
  · rw [hr, hb.requested, World.ticketShares, World.ticketShares, ht]
  · intro k t hl
    exact (hb.queued k t (ht ▸ hl)).later he

theorem Opened.books {key : Pubkey} {t : WithdrawalTicket} (h : Opened w w' key t) (hb : Books w)
    (hwf : w'.vault.WellFormed) : Books w' := by
  have hepoch : w'.vault.reportEpoch = w.vault.reportEpoch := by rw [h.vault]
  have hpend : w'.vault.pendingWithdrawalAssets = w.vault.pendingWithdrawalAssets := by
    rw [h.vault]
  refine ⟨hwf, ?_, ?_, hpend.trans hb.pending⟩
  · rw [h.requested, hb.requested, World.ticketShares, World.ticketShares, h.tickets,
      Table.total_insert h.fresh, Nat.add_comm]
  · intro k t' hl
    rw [h.tickets] at hl
    rw [hepoch]
    rcases eq_or_ne k key with rfl | hk
    · rw [AList.lookup_insert] at hl
      cases hl
      exact ⟨h.unpriced, h.shares_pos, by rw [h.epoch]⟩
    · rw [AList.lookup_insert_ne hk] at hl
      exact hb.queued k t' hl

theorem Cancelled.books {key : Pubkey} {t : WithdrawalTicket} (h : Cancelled w w' key t)
    (hb : Books w) (hwf : w'.vault.WellFormed) : Books w' := by
  have hepoch : w'.vault.reportEpoch = w.vault.reportEpoch := by rw [h.vault]
  have hpend : w'.vault.pendingWithdrawalAssets = w.vault.pendingWithdrawalAssets := by
    rw [h.vault]
  refine ⟨hwf, ?_, ?_, hpend.trans hb.pending⟩
  · have herase := Table.total_erase_add (f := fun t => t.sharesBurned.toNat) h.live
    have hreq := h.requested
    have hold := hb.requested
    simp only [World.ticketShares] at hold ⊢
    rw [h.tickets]
    omega
  · intro k t' hl
    rw [h.tickets] at hl
    rw [hepoch]
    rcases eq_or_ne k key with rfl | hk
    · rw [AList.lookup_erase] at hl
      cases hl
    · rw [AList.lookup_erase_ne hk] at hl
      exact hb.queued k t' hl

/-- The shares of a batch are those its tickets take with them when they close. -/
theorem LoadedBatch.total_add {l : List TicketSettlement} (h : LoadedBatch w l) :
    Table.total (fun t => t.sharesBurned.toNat) (Table.eraseAll w.tickets (keysOf l)) +
      (sharesOf l).sum = w.ticketShares := by
  have hrows : ((l.map TicketSettlement.row).map fun r => r.2.sharesBurned.toNat)
      = sharesOf l := List.map_map
  rw [← hrows]
  exact Table.total_eraseAll h.nodup h.live

theorem Processed.books {l l' : List TicketSettlement} (h : Processed w w' l l') (hb : Books w) :
    Books w' := by
  obtain ⟨v₁, settled, hst, hv'⟩ := h.struck
  have hepoch : w'.vault.reportEpoch = w.vault.reportEpoch := by
    rw [hv']
    exact hst.frame.eq (f := Vault.reportEpoch) fun _ => rfl
  refine ⟨h.wellFormed, ?_, ?_, by rw [hv']; exact hb.pending⟩
  · have htotal := h.batch.total_add
    have hreq : w'.vault.requestedWithdrawalShares = v₁.requestedWithdrawalShares := by rw [hv']
    have hsum := hst.requested
    have hold := hb.requested
    rw [World.ticketShares, hreq, h.tickets]
    omega
  · intro k t hl
    rw [h.tickets] at hl
    rw [hepoch]
    exact hb.queued k t (Table.lookup_of_eraseAll hl).2

theorem Effect.books {k : Kind} (h : Effect w w' k) (hb : Books w) : Books w' := by
  have hwf := h.wellFormed hb.wellFormed
  cases h with
  | deposit h =>
    have hv := h.vault
    exact hb.of_same hwf h.tickets (by rw [hv]) (by rw [hv]) (by rw [hv])
  | redeem h => exact h.books hb hwf
  | cancelRedeem h => exact h.books hb hwf
  | processWithdrawals h => exact h.books hb
  | atomicRedeem h =>
    obtain ⟨r, total, -, -, -, hv⟩ := Vault.debit_spec.mp h.debit
    exact hb.of_same hwf h.tickets (by rw [hv]; rfl) (by rw [hv]; rfl) (by rw [hv]; exact le_rfl)
  | report h => exact hb.of_same hwf h.tickets h.requested h.pending (by rw [h.epoch]; omega)
  | quiet h =>
    exact hb.of_same hwf h.tickets h.books.requestedWithdrawalShares
      h.books.pendingWithdrawalAssets (by rw [h.books.reportEpoch])

theorem Books.step {e : Event} (hb : Books w) (h : OutwardStep rt w e w') : Books w' := by
  cases e with
  | instruction i => exact (h.effect hb.standing.openTickets).books hb
  | tick =>
    cases h.apply_eq
    exact ⟨hb.wellFormed, hb.requested, hb.queued, hb.pending⟩
  | environment =>
    cases h.apply_eq
    exact ⟨hb.wellFormed, hb.requested, hb.queued, hb.pending⟩

theorem Books.run (hb : Books w) (hrun : Run (OutwardStep rt) w tr w') : Books w' :=
  hrun.invariant hb fun _ _ hs hb => hb.step hs

theorem ReachableOutward.books (h : ReachableOutward rt w) : Books w := by
  obtain ⟨w₀, tr, h0, hrun, -, hout⟩ := h
  exact h0.books.run (run_outward hrun hout)

/-! ### The unlock window under a forward clock -/

/-- The window is anchored in the past of the world's clock. -/
def World.Anchored (w : World) : Prop := w.vault.Anchored w.clock.unixTimestamp.toInt

theorem Effect.anchored {k : Kind} (h : Effect w w' k) (ha : w.Anchored) : w'.Anchored := by
  cases h with
  | deposit h =>
    rw [World.Anchored, h.clock, h.vault]
    exact ⟨ha.span_lt, ha.start_le⟩
  | redeem h =>
    rw [World.Anchored, h.clock, h.vault]
    exact ⟨ha.span_lt, ha.start_le⟩
  | cancelRedeem h =>
    rw [World.Anchored, h.clock, h.vault]
    exact ⟨ha.span_lt, ha.start_le⟩
  | processWithdrawals h =>
    obtain ⟨v₁, settled, hst, hv'⟩ := h.struck
    have ha₁ := hst.anchored ha
    rw [World.Anchored, h.clock, hv']
    exact ⟨ha₁.span_lt, ha₁.start_le⟩
  | atomicRedeem h =>
    rw [World.Anchored, h.clock]
    exact Vault.Anchored.debit ha h.debit
  | report h =>
    rw [World.Anchored, h.clock]
    exact h.anchored
  | quiet h =>
    rw [World.Anchored, h.clock]
    refine ⟨?_, ?_⟩
    · rw [h.books.profitUnlockEndTs, h.books.profitUnlockStartTs]
      exact ha.span_lt
    · rw [h.books.lockedProfit, h.books.profitUnlockStartTs]
      exact ha.start_le

theorem Restored.anchored (h : Restored w w') (ha : w.Anchored) : w'.Anchored := by
  obtain ⟨payout, hdebit⟩ := h.debit
  rw [World.Anchored, h.clock]
  exact Vault.Anchored.debit ha hdebit

/-- What pricing rests on: a valid record, open tickets, an anchored window and a share mint to
read. -/
structure Sound (w : World) : Prop extends Standing w where
  anchored : w.Anchored
  mint : w.ledger.ValidMint w.vault.shareMint

theorem Initial.sound (h : Initial rt w) : Sound w := by
  obtain ⟨g, accounts, args, hinit⟩ := h
  obtain ⟨-, hanch, -, -, -, -, -, -, hmint⟩ := tryInitializeVault_spec hinit
  exact ⟨Initial.standing ⟨g, accounts, args, hinit⟩, hanch, hmint⟩

theorem Sound.step {e : Event} (hs : Sound w) (h : Step rt w e w')
    (hf : w.clock.unixTimestamp.toInt ≤ w'.clock.unixTimestamp.toInt) : Sound w' := by
  have hstand := hs.toStanding.step h
  cases e with
  | instruction i =>
    rcases h.effect_or_restored hs.openTickets with he | hr
    · exact ⟨hstand, he.anchored hs.anchored, he.framed.shareMint ▸ he.framed.mint hs.mint⟩
    · exact ⟨hstand, hr.anchored hs.anchored, hr.shareMint ▸ hr.mint hs.mint⟩
  | tick =>
    cases h.apply_eq
    exact ⟨hstand, hs.anchored.later hf, hs.mint⟩
  | environment =>
    have hkept := h.admissible
    cases h.apply_eq
    exact ⟨hstand, ⟨hs.anchored.span_lt, hs.anchored.start_le⟩, hkept.valid hs.mint⟩

theorem Sound.run (hs : Sound w) (hrun : Run (Step rt) w tr w') (hf : Forward tr) : Sound w' :=
  hrun.invariant hs fun x hx h hs => hs.step h (hf x hx)

theorem ReachableForward.sound (h : ReachableForward rt w) : Sound w :=
  h.invariant (fun _ h => h.sound) fun _ _ _ h hf hs => hs.step h hf

/-- In a sound state pricing succeeds at every time. -/
theorem Sound.exists_effective (hs : Sound w) (t : I64) :
    ∃ E, w.vault.effectiveTotalAssets t = .ok E := by
  obtain ⟨E, hE, -⟩ := hs.wellFormed.exists_effective hs.anchored t
  exact ⟨E, hE⟩

end Roshi

import Roshi.Lib.SharePool
import Roshi.World

/-!
# Processing withdrawals

`admin/process_withdrawals.rs` and its account context.  The withdrawal authority
supplies a batch of tickets; each unpriced one is struck at the effective NAV, the
struck assets are paid from the withdraw sub-account's custody, and the ticket is
closed.

`strikeTicket_spec` says what one strike does to the record and `strikeAll_spec`
what a batch does: the shares and the payouts leave the record, the payouts pass
through `pending_withdrawal_assets`, and the payouts are `Lib.payAll` at the
virtual price the batch opened with.
-/

namespace Roshi

open Lib

variable (rt : Runtime)

/-! ### Loading the batch -/

structure TicketSettlement where
  ticketAccount : AccountInfo
  owner : AccountInfo
  destination : AccountInfo
  ticket : WithdrawalTicket

/-- The checks on one `(ticket, owner, destination)` group. -/
def TicketSettlement.load (w : World) (vault : Vault) (vaultKey : Pubkey)
    (tickets : List TicketSettlement) (ticketAccount owner destination : AccountInfo) :
    ProgramResult TicketSettlement := do
  requireWritable ticketAccount
  requireWritable owner
  requireWritable destination
  let ticket ← w.loadTicket ticketAccount
  rejectIf (ticket.vault ≠ vaultKey ∨ ticket.owner ≠ owner.key
    ∨ ticket.recipientTokenAccount ≠ destination.key ∨ ticket.sharesBurned = 0)
    (.custom .invalidWithdrawalTicketAccount)
  let (expectedTicket, expectedBump) := ticketAddress rt vaultKey owner.key ticket.ticketIndex
  rejectIf (ticketAccount.key ≠ expectedTicket ∨ ticket.bump ≠ expectedBump) .invalidSeeds
  w.ledger.verifyTokenAccountMint destination vault.baseMint
  rejectIf (ticketAccount.key ∈ tickets.map fun s => s.ticketAccount.key)
    (.custom .invalidWithdrawalTicketAccount)
  .ok { ticketAccount, owner, destination, ticket }

/-- The groups in order, each checked against those before it. -/
def loadSettlements (w : World) (vault : Vault) (vaultKey : Pubkey)
    (tickets : List TicketSettlement) : List AccountInfo → ProgramResult (List TicketSettlement)
  | ticketAccount :: owner :: destination :: rest => do
    let settlement ←
      TicketSettlement.load rt w vault vaultKey tickets ticketAccount owner destination
    loadSettlements w vault vaultKey (tickets ++ [settlement]) rest
  | [] => .ok tickets
  | _ => .error .notEnoughAccountKeys

structure ProcessWithdrawalsContext where
  vaultAccount : AccountInfo
  subAccount : AccountInfo
  custody : AccountInfo
  shareMint : AccountInfo
  tokenProgram : AccountInfo
  vault : Vault
  tickets : List TicketSettlement

def ProcessWithdrawalsContext.load (w : World) (accounts : List AccountInfo) :
    ProgramResult ProcessWithdrawalsContext := do
  let (withdrawalAuthority, accounts) ← nextAccount accounts
  let (vaultAccount, accounts) ← nextAccount accounts
  requireWritable vaultAccount
  let vault ← w.loadChecked rt vaultAccount
  verifyRole vault .withdrawalAuthority withdrawalAuthority
  let (subAccount, accounts) ← nextAccount accounts
  let _ ← w.verifySubAccount rt vault.withdrawSubAccount subAccount
  let (custody, accounts) ← nextAccount accounts
  requireWritable custody
  w.ledger.verifyTokenAccountMintAndOwner custody vault.baseMint subAccount.key
  let (shareMint, accounts) ← nextAccount accounts
  verifyShareMint vault shareMint
  let (tokenProgram, remaining) ← nextAccount accounts
  w.ledger.verifyTokenProgramFor tokenProgram custody
  rejectIf (remaining.length = 0 ∨ remaining.length % 3 ≠ 0) .notEnoughAccountKeys
  let tickets ← loadSettlements rt w vault vaultAccount.key [] remaining
  .ok { vaultAccount, subAccount, custody, shareMint, tokenProgram, vault, tickets }

/-! ### Striking -/

def strikeTicket (vault : Vault) (activeShareSupply : U64) (ticket : WithdrawalTicket) (now : I64) :
    ProgramResult (Vault × WithdrawalTicket) := do
  let earliestEpoch ←
    okOr (checkedAdd ticket.requestEpoch WITHDRAWAL_STRIKE_DELAY_EPOCHS) (.custom .overflow)
  rejectIf (vault.reportEpoch < earliestEpoch ∨ ticket.requestEpoch > vault.reportEpoch)
    (.custom .invalidWithdrawalTicketAccount)
  let economicShareSupply ← vault.economicShareSupply activeShareSupply
  let effective ← vault.effectiveTotalAssets now
  -- zero is a valid strike: a dust ticket settles and closes like any other
  let assetsOwed ←
    into (assetsForShares ticket.sharesBurned effective economicShareSupply vault.baseDecimals)
  let requestedWithdrawalShares ←
    okOr (checkedSub vault.requestedWithdrawalShares ticket.sharesBurned) (.custom .overflow)
  let vault ← { vault with requestedWithdrawalShares }.debitAssetsAtEffective assetsOwed now
  let pendingWithdrawalAssets ←
    okOr (checkedAdd vault.pendingWithdrawalAssets assetsOwed) (.custom .overflow)
  .ok ({ vault with pendingWithdrawalAssets }, { ticket with assetsOwed })

/-- An unpriced ticket is struck, a priced one kept. -/
def strikeUnpriced (vault : Vault) (activeShareSupply : U64) (ticket : WithdrawalTicket)
    (now : I64) : ProgramResult (Vault × WithdrawalTicket) :=
  if ticket.assetsOwed = 0 then strikeTicket vault activeShareSupply ticket now
  else .ok (vault, ticket)

/-- The first loop of `process`: the record, the settled sum and the priced batch. -/
def strikeAll (shareSupply : U64) (now : I64) (vault : Vault) (settledAssets : U64) :
    List TicketSettlement → ProgramResult (Vault × U64 × List TicketSettlement)
  | [] => .ok (vault, settledAssets, [])
  | settlement :: rest => do
    let (vault, ticket) ← strikeUnpriced vault shareSupply settlement.ticket now
    let settledAssets ← okOr (checkedAdd settledAssets ticket.assetsOwed) (.custom .overflow)
    let (vault, settledAssets, rest) ← strikeAll shareSupply now vault settledAssets rest
    .ok (vault, settledAssets, { settlement with ticket } :: rest)

/-! ### Settling -/

/-- The second loop of `process`: one transfer and one closed account per ticket. -/
def settleAll (tokenProgram custody subAccount : AccountInfo) (ledger : Ledger)
    (tickets : Table Pubkey WithdrawalTicket) :
    List TicketSettlement → ProgramResult (Ledger × Table Pubkey WithdrawalTicket)
  | [] => .ok (ledger, tickets)
  | settlement :: rest => do
    let ledger ←
      transferSigned ledger tokenProgram custody settlement.destination subAccount
        settlement.ticket.assetsOwed
    settleAll tokenProgram custody subAccount ledger
      (tickets.erase settlement.ticketAccount.key) rest

def process (w : World) (c : ProcessWithdrawalsContext) : ProgramResult World := do
  let shareSupply ← w.ledger.mintSupply c.shareMint
  let (vault, settledAssets, settled) ←
    strikeAll shareSupply w.clock.unixTimestamp c.vault 0 c.tickets
  rejectIf (settledAssets > vault.pendingWithdrawalAssets) (.custom .invalidVaultState)
  let (ledger, tickets) ←
    settleAll c.tokenProgram c.custody c.subAccount w.ledger w.tickets settled
  let pendingWithdrawalAssets ←
    okOr (checkedSub vault.pendingWithdrawalAssets settledAssets) (.custom .overflow)
  let vault := { vault with pendingWithdrawalAssets }
  vault.validateState
  .ok { w with ledger, tickets, vault }

def tryProcessWithdrawals (w : World) (accounts : List AccountInfo) : ProgramResult World := do
  let context ← ProcessWithdrawalsContext.load rt w accounts
  process w context

/-! ### What one strike does -/

variable {rt} {w w' : World} {accounts : List AccountInfo} {v v' : Vault} {supply : U64} {now : I64}

/-- A strike of `s` shares that fixed a payout of `a`. -/
structure Struck (v v' : Vault) (supply : U64) (now : I64) (s a : Nat) : Prop where
  frame : v.PaidFrom v'
  shares_le : s ≤ v.requestedWithdrawalShares.toNat
  requested : v'.requestedWithdrawalShares.toNat + s = v.requestedWithdrawalShares.toNat
  total : v'.totalAssets.toNat + a = v.totalAssets.toNat
  pending : v'.pendingWithdrawalAssets.toNat = v.pendingWithdrawalAssets.toNat + a
  wellFormed : v.WellFormed → v'.WellFormed
  anchored : v.Anchored now.toInt → v'.Anchored now.toInt
  priced : ∀ E, v.effectiveTotalAssets now = .ok E →
    a = s * (E.toNat + 1) / (supply.toNat + v.requestedWithdrawalShares.toNat +
      virtualShares v.baseDecimals) ∧
    ∃ E', v'.effectiveTotalAssets now = .ok E' ∧ E'.toNat + a = E.toNat

theorem strikeTicket_spec {t t' : WithdrawalTicket}
    (h : strikeTicket v supply t now = .ok (v', t')) :
    t' = { t with assetsOwed := t'.assetsOwed } ∧
      t.requestEpoch.toNat + 1 ≤ v.reportEpoch.toNat ∧
      Struck v v' supply now t.sharesBurned.toNat t'.assetsOwed.toNat := by
  simp only [strikeTicket, bind_eq_ok, okOr_eq_ok, checkedAdd_eq_some, checkedSub_eq_some,
    rejectIf_eq_ok, into_eq_ok, Vault.economicShareSupply_eq_ok, not_or, BitVec.lt_def,
    Except.ok.injEq, Prod.mk.injEq] at h
  obtain ⟨e, he, _, ⟨hepoch, -⟩, S, hS, E, hE, a, ha, req, hreq, v1, hv1, pend, hpend, rfl,
    rfl⟩ := h
  have hone : WITHDRAWAL_STRIKE_DELAY_EPOCHS.toNat = 1 := rfl
  obtain ⟨r, total, hr, hle, htotal, rfl⟩ := Vault.debit_spec.mp hv1
  obtain ⟨-, -, ha⟩ := assetsForShares_eq_ok.mp ha
  refine ⟨rfl, by omega, rfl, by omega, hreq, htotal, hpend, ?_, ?_, ?_⟩
  · intro hwf
    have hwf' := Vault.WellFormed.debit (v := { v with requestedWithdrawalShares := req })
      { hwf with } hv1
    exact { hwf' with }
  · intro hanch
    have hanch' := Vault.Anchored.debit (v := { v with requestedWithdrawalShares := req })
      ⟨hanch.span_lt, hanch.start_le⟩ hv1
    exact ⟨hanch'.span_lt, hanch'.start_le⟩
  · intro E₀ hE₀
    obtain rfl : E = E₀ := Except.ok.inj (hE.symm.trans hE₀)
    refine ⟨by rw [ha, hS], ?_⟩
    obtain ⟨E', hE', hsum⟩ :=
      Vault.effective_debit (v := { v with requestedWithdrawalShares := req }) hE hv1
    exact ⟨E', hE', hsum⟩

/-! ### What a batch does -/

/-- The shares of a batch, in order. -/
def sharesOf (l : List TicketSettlement) : List Nat := l.map fun s => s.ticket.sharesBurned.toNat

/-- The payouts fixed for a batch, in order. -/
def owedTo (l : List TicketSettlement) : List Nat := l.map fun s => s.ticket.assetsOwed.toNat

/-- `l'` is `l` with payouts fixed. -/
abbrev Priced (l l' : List TicketSettlement) : Prop :=
  List.Forall₂ (fun s s' => s' =
    { s with ticket := { s.ticket with assetsOwed := s'.ticket.assetsOwed } }) l l'

theorem Priced.map_eq {α : Type} {f : TicketSettlement → α} {l l' : List TicketSettlement}
    (h : Priced l l')
    (hf : ∀ s n, f { s with ticket := { s.ticket with assetsOwed := n } } = f s) :
    l'.map f = l.map f := by
  induction h with
  | nil => rfl
  | cons hs _ ih => rw [List.map_cons, List.map_cons, ih, hs, hf]

/-- A batch of unpriced tickets `l`, struck in order into `l'`. -/
structure StruckAll (v v' : Vault) (supply : U64) (now : I64) (settled settled' : U64)
    (l l' : List TicketSettlement) : Prop where
  frame : v.PaidFrom v'
  priced : Priced l l'
  epochs : ∀ s ∈ l, s.ticket.requestEpoch.toNat + 1 ≤ v.reportEpoch.toNat
  requested : v'.requestedWithdrawalShares.toNat + (sharesOf l).sum =
    v.requestedWithdrawalShares.toNat
  total : v'.totalAssets.toNat + (owedTo l').sum = v.totalAssets.toNat
  pending : v'.pendingWithdrawalAssets.toNat =
    v.pendingWithdrawalAssets.toNat + (owedTo l').sum
  settled_eq : settled'.toNat = settled.toNat + (owedTo l').sum
  wellFormed : v.WellFormed → v'.WellFormed
  anchored : v.Anchored now.toInt → v'.Anchored now.toInt
  payouts : ∀ E, v.effectiveTotalAssets now = .ok E →
    owedTo l' = payAll (E.toNat + 1) (supply.toNat + v.requestedWithdrawalShares.toNat +
      virtualShares v.baseDecimals) (sharesOf l) ∧
    ∃ E', v'.effectiveTotalAssets now = .ok E' ∧ E'.toNat + (owedTo l').sum = E.toNat

theorem strikeAll_spec {settled settled' : U64} {l l' : List TicketSettlement}
    (hl : ∀ s ∈ l, s.ticket.assetsOwed = 0)
    (h : strikeAll supply now v settled l = .ok (v', settled', l')) :
    StruckAll v v' supply now settled settled' l l' := by
  induction l generalizing v settled l' with
  | nil =>
    cases h
    refine ⟨.refl _, .nil, by simp, rfl, rfl, rfl, rfl, id, id, ?_⟩
    intro E hE
    exact ⟨rfl, E, hE, rfl⟩
  | cons s l ih =>
    simp only [strikeAll, bind_eq_ok, Prod.exists, strikeUnpriced,
      if_pos (hl s List.mem_cons_self), okOr_eq_ok, checkedAdd_eq_some, Except.ok.injEq,
      Prod.mk.injEq] at h
    obtain ⟨v₁, t, hstrike, settled₁, hsettled₁, v₂, settled₂, l₂, hrest, rfl, rfl, rfl⟩ := h
    obtain ⟨ht, hepoch, hs⟩ := strikeTicket_spec hstrike
    have hr := ih (fun s hs => hl s (List.mem_cons_of_mem _ hs)) hrest
    have hdec : v₁.baseDecimals = v.baseDecimals := hs.frame.eq fun _ => rfl
    have hrep : v₁.reportEpoch = v.reportEpoch := hs.frame.eq fun _ => rfl
    have hreq := hs.requested
    have hreq' := hr.requested
    have htot := hs.total
    have htot' := hr.total
    have hpend := hs.pending
    have hpend' := hr.pending
    have hset' := hr.settled_eq
    refine ⟨hs.frame.trans hr.frame, .cons (by rw [ht]) hr.priced, ?_, ?_, ?_, ?_, ?_,
      fun hwf => hr.wellFormed (hs.wellFormed hwf), fun ha => hr.anchored (hs.anchored ha), ?_⟩
    · intro x hx
      rcases List.mem_cons.mp hx with rfl | hx
      · exact hepoch
      · exact hrep ▸ hr.epochs x hx
    · simp only [sharesOf, List.map_cons, List.sum_cons] at hreq' ⊢
      omega
    · simp only [owedTo, List.map_cons, List.sum_cons] at htot' ⊢
      omega
    · simp only [owedTo, List.map_cons, List.sum_cons] at hpend' ⊢
      omega
    · simp only [owedTo, List.map_cons, List.sum_cons] at hset' ⊢
      omega
    · -- the strike leaves the pool `payAll` continues from
      intro E hE
      obtain ⟨ha, E₁, hE₁, hsum₁⟩ := hs.priced E hE
      obtain ⟨hpay, E₂, hE₂, hsum₂⟩ := hr.payouts E₁ hE₁
      have hA : E.toNat + 1 - t.assetsOwed.toNat = E₁.toNat + 1 := by omega
      have hS : supply.toNat + v.requestedWithdrawalShares.toNat + virtualShares v.baseDecimals
          - s.ticket.sharesBurned.toNat
          = supply.toNat + v₁.requestedWithdrawalShares.toNat + virtualShares v.baseDecimals := by
        omega
      refine ⟨?_, E₂, hE₂, ?_⟩
      · show t.assetsOwed.toNat :: owedTo l₂ = _
        rw [hpay, hdec]
        show _ = payAll _ _ (s.ticket.sharesBurned.toNat :: sharesOf l)
        rw [payAll, ← ha, hA, hS]
      · simp only [owedTo, List.map_cons, List.sum_cons] at hsum₂ ⊢
        omega

/-! ### When a batch can be struck -/

/-- A ticket the epoch has passed is struck at its price, as long as the payouts pending fit. -/
theorem exists_strikeTicket_at {t : WithdrawalTicket} {S E a : U64}
    (hepoch : t.requestEpoch.toNat + 1 ≤ v.reportEpoch.toNat)
    (hs : t.sharesBurned.toNat ≤ v.requestedWithdrawalShares.toNat)
    (hS : S.toNat = supply.toNat + v.requestedWithdrawalShares.toNat)
    (hE : v.effectiveTotalAssets now = .ok E)
    (ha : assetsForShares t.sharesBurned E S v.baseDecimals = .ok a)
    (hp : v.pendingWithdrawalAssets.toNat + a.toNat < 2 ^ 64) :
    ∃ v', strikeTicket v supply t now = .ok (v', { t with assetsOwed := a }) := by
  have hone : WITHDRAWAL_STRIKE_DELAY_EPOCHS.toNat = 1 := rfl
  have hR := v.reportEpoch.isLt
  obtain ⟨e, he, hen⟩ := exists_checkedAdd (a := t.requestEpoch)
    (b := WITHDRAWAL_STRIKE_DELAY_EPOCHS) (by omega)
  have haE : a.toNat ≤ E.toNat := by
    obtain ⟨hle, -, ha⟩ := assetsForShares_eq_ok.mp ha
    rw [ha]
    exact payout_le (virtualShares_pos _) hle
  obtain ⟨req, hreq, -⟩ := exists_checkedSub hs
  obtain ⟨v₁, hv₁⟩ := Vault.exists_debit (v := { v with requestedWithdrawalShares := req }) hE haE
  have hpend : v₁.pendingWithdrawalAssets = v.pendingWithdrawalAssets := by
    obtain ⟨r, total, -, -, -, rfl⟩ := Vault.debit_spec.mp hv₁
    rfl
  obtain ⟨p, hp₁, -⟩ := exists_checkedAdd (a := v₁.pendingWithdrawalAssets) (b := a)
    (by rw [hpend]; exact hp)
  refine ⟨{ v₁ with pendingWithdrawalAssets := p }, ?_⟩
  simp only [strikeTicket, bind_eq_ok, okOr_eq_ok, rejectIf_eq_ok, into_eq_ok]
  refine ⟨e, he, (), ?_, S, Vault.economicShareSupply_eq_ok.mpr hS, E, hE, a, ha, req, hreq, v₁,
    hv₁, p, hp₁, rfl⟩
  rw [not_or, BitVec.lt_def, gt_iff_lt, BitVec.lt_def]
  omega

theorem exists_strikeTicket {t : WithdrawalTicket} (hwf : v.WellFormed)
    (ha : v.Anchored now.toInt) (hepoch : t.requestEpoch.toNat + 1 ≤ v.reportEpoch.toNat)
    (hs : t.sharesBurned.toNat ≤ v.requestedWithdrawalShares.toNat)
    (hS : supply.toNat + v.requestedWithdrawalShares.toNat < 2 ^ 64)
    (hp : v.pendingWithdrawalAssets.toNat + v.totalAssets.toNat < 2 ^ 64) :
    ∃ v' t', strikeTicket v supply t now = .ok (v', t') := by
  obtain ⟨S, -, hS⟩ := exists_checkedAdd (a := supply) (b := v.requestedWithdrawalShares) hS
  obtain ⟨E, hE, hEn⟩ := hwf.exists_effective ha now
  obtain ⟨a, ha⟩ := exists_assetsForShares (A := E) (S := S) hwf.baseDecimals_le
    (show t.sharesBurned.toNat ≤ S.toNat by omega)
  have haE : a.toNat ≤ E.toNat := by
    obtain ⟨hle, -, ha⟩ := assetsForShares_eq_ok.mp ha
    rw [ha]
    exact payout_le (virtualShares_pos _) hle
  obtain ⟨v', hv'⟩ := exists_strikeTicket_at hepoch hs hS hE ha (by omega)
  exact ⟨v', _, hv'⟩

theorem exists_strikeAll {settled : U64} {l : List TicketSettlement}
    (hl : ∀ s ∈ l, s.ticket.assetsOwed = 0) (hwf : v.WellFormed) (ha : v.Anchored now.toInt)
    (hepoch : ∀ s ∈ l, s.ticket.requestEpoch.toNat + 1 ≤ v.reportEpoch.toNat)
    (hs : (sharesOf l).sum ≤ v.requestedWithdrawalShares.toNat)
    (hS : supply.toNat + v.requestedWithdrawalShares.toNat < 2 ^ 64)
    (hp : v.pendingWithdrawalAssets.toNat + v.totalAssets.toNat < 2 ^ 64)
    (hset : settled.toNat ≤ v.pendingWithdrawalAssets.toNat) :
    ∃ r, strikeAll supply now v settled l = .ok r := by
  induction l generalizing v settled with
  | nil => exact ⟨_, rfl⟩
  | cons s l ih =>
    have hsum : (sharesOf (s :: l)).sum = s.ticket.sharesBurned.toNat + (sharesOf l).sum := by
      rw [sharesOf, List.map_cons, List.sum_cons, sharesOf]
    obtain ⟨v₁, t, hstrike⟩ := exists_strikeTicket hwf ha (hepoch s List.mem_cons_self)
      (by omega) hS hp
    obtain ⟨-, -, hst⟩ := strikeTicket_spec hstrike
    have hreq := hst.requested
    have htot := hst.total
    have hpend := hst.pending
    have hrep : v₁.reportEpoch = v.reportEpoch := hst.frame.eq fun _ => rfl
    obtain ⟨settled₁, hset₁, hset₁n⟩ := exists_checkedAdd (a := settled) (b := t.assetsOwed)
      (by omega)
    obtain ⟨⟨v₂, settled₂, l₂⟩, hr⟩ : ∃ r, strikeAll supply now v₁ settled₁ l = .ok r := ih
      (fun s hs => hl s (List.mem_cons_of_mem _ hs)) (hst.wellFormed hwf) (hst.anchored ha)
      (fun s hs => by rw [hrep]; exact hepoch s (List.mem_cons_of_mem _ hs)) (by omega)
      (by omega) (by omega) (by omega)
    refine ⟨(v₂, settled₂, { s with ticket := t } :: l₂), ?_⟩
    simp only [strikeAll, bind_eq_ok, Prod.exists, strikeUnpriced,
      if_pos (hl s List.mem_cons_self), okOr_eq_ok]
    exact ⟨v₁, t, hstrike, settled₁, hset₁, v₂, settled₂, l₂, hr, rfl⟩

/-! ### What settling does -/

/-- Settling pays the batch, mints nothing, and closes its tickets. -/
theorem settleAll_spec {tokenProgram custody subAccount : AccountInfo} {l l' : Ledger}
    {tickets tickets' : Table Pubkey WithdrawalTicket} {batch : List TicketSettlement}
    (h : settleAll tokenProgram custody subAccount l tickets batch = .ok (l', tickets')) :
    l'.mints = l.mints ∧
      tickets' = tickets.eraseAll (batch.map fun s => s.ticketAccount.key) := by
  induction batch generalizing l tickets with
  | nil =>
    cases h
    exact ⟨rfl, rfl⟩
  | cons s batch ih =>
    simp only [settleAll, transferSigned, bind_eq_ok] at h
    obtain ⟨l₁, ⟨_, -, ht⟩, h⟩ := h
    obtain ⟨hm, htk⟩ := ih h
    exact ⟨hm.trans (Spl.transfer_spec ht).1, htk⟩

/-! ### What the instruction does -/

/-- The rows of the ticket table a batch names. -/
def TicketSettlement.row (s : TicketSettlement) : Pubkey × WithdrawalTicket :=
  (s.ticketAccount.key, s.ticket)

/-- A loaded batch: distinct live tickets of this vault, none of them empty. -/
structure LoadedBatch (w : World) (l : List TicketSettlement) : Prop where
  nodup : ((l.map TicketSettlement.row).map Prod.fst).Nodup
  live : ∀ r ∈ l.map TicketSettlement.row, w.tickets.lookup r.1 = some r.2

theorem TicketSettlement.load_spec {vaultKey : Pubkey} {tickets : List TicketSettlement}
    {ticketAccount owner destination : AccountInfo} {s : TicketSettlement}
    (h : TicketSettlement.load rt w v vaultKey tickets ticketAccount owner destination = .ok s) :
    w.tickets.lookup s.row.1 = some s.row.2 ∧
      s.row.1 ∉ (tickets.map TicketSettlement.row).map Prod.fst := by
  simp only [TicketSettlement.load, bind_eq_ok, Except.ok.injEq, World.loadTicket, okOr_eq_ok,
    rejectIf_eq_ok] at h
  obtain ⟨_, -, _, -, _, -, t, ht, _, -, _, -, _, -, _, hnew, rfl⟩ := h
  refine ⟨ht, ?_⟩
  rw [List.map_map]
  exact hnew

theorem loadSettlements_spec {vaultKey : Pubkey} {tickets l : List TicketSettlement}
    (h : loadSettlements rt w v vaultKey tickets accounts = .ok l) (ht : LoadedBatch w tickets) :
    LoadedBatch w l := by
  induction tickets, accounts using loadSettlements.induct with
  | case1 tickets a b c rest ih =>
    rw [loadSettlements, bind_eq_ok] at h
    obtain ⟨s, hs, h⟩ := h
    obtain ⟨hlive, hnew⟩ := TicketSettlement.load_spec hs
    refine ih s h ⟨?_, ?_⟩
    · rw [List.map_append, List.map_append, List.nodup_append]
      refine ⟨ht.nodup, List.nodup_singleton _, ?_⟩
      intro x hx y hy
      rw [List.mem_singleton.mp hy]
      exact fun he => hnew (he ▸ hx)
    · intro r hr
      rw [List.map_append, List.mem_append] at hr
      rcases hr with hr | hr
      · exact ht.live r hr
      · rw [List.mem_singleton.mp hr]
        exact hlive
  | case2 tickets =>
    cases h
    exact ht
  | case3 tickets l h₁ h₂ =>
    rw [loadSettlements] at h
    · cases h
    · exact h₁
    · exact h₂

structure ProcessWithdrawalsContext.Loaded (w : World) (c : ProcessWithdrawalsContext) :
    Prop where
  vault_eq : c.vault = w.vault
  shareMint_eq : c.shareMint.key = w.vault.shareMint
  wellFormed : w.vault.WellFormed
  batch : LoadedBatch w c.tickets

theorem ProcessWithdrawalsContext.load_spec {c : ProcessWithdrawalsContext}
    (h : ProcessWithdrawalsContext.load rt w accounts = .ok c) : c.Loaded w := by
  revert h
  simp only [ProcessWithdrawalsContext.load, bind_ok_imp, Prod.forall, Except.ok.injEq,
    verifyShareMint_eq_ok]
  rintro _ _ - _ _ - _ - v hv _ - _ _ - _ - _ _ - _ - _ - _ _ - _ hm _ _ - _ - _ - l hl rfl
  obtain ⟨rfl, -, hwf⟩ := loadChecked_eq_ok hv
  exact ⟨rfl, hm, hwf, loadSettlements_spec hl ⟨List.nodup_nil, by simp⟩⟩

/-- **Processing a batch** of unpriced tickets: strike them all, pay them all, close them
all, and store a valid record whose pending assets are what they were. -/
theorem tryProcessWithdrawals_spec
    (hlive : ∀ k t, w.tickets.lookup k = some t → t.assetsOwed = 0)
    (h : tryProcessWithdrawals rt w accounts = .ok w') :
    ∃ (c : ProcessWithdrawalsContext) (v₁ v' : Vault) (settled : U64) (batch : List TicketSettlement)
      (l : Ledger),
      c.Loaded w ∧
      StruckAll w.vault v₁ w.shareSupply w.clock.unixTimestamp 0 settled c.tickets batch ∧
      settleAll c.tokenProgram c.custody c.subAccount w.ledger w.tickets batch
        = .ok (l, w.tickets.eraseAll ((c.tickets.map TicketSettlement.row).map Prod.fst)) ∧
      l.mints = w.ledger.mints ∧
      v' = { v₁ with pendingWithdrawalAssets := v'.pendingWithdrawalAssets } ∧
      v'.pendingWithdrawalAssets = w.vault.pendingWithdrawalAssets ∧ v'.WellFormed ∧
      w' = { w with
        ledger := l
        tickets := w.tickets.eraseAll ((c.tickets.map TicketSettlement.row).map Prod.fst)
        vault := v' } := by
  rw [tryProcessWithdrawals, bind_eq_ok] at h
  obtain ⟨c, hc, h⟩ := h
  have hc := ProcessWithdrawalsContext.load_spec hc
  simp only [process, bind_eq_ok, Prod.exists, okOr_eq_ok, checkedSub_eq_some, Except.ok.injEq,
    Vault.validateState_eq_ok, hc.vault_eq] at h
  obtain ⟨s, hs, v₁, settled, batch, hstrike, _, -, l, tickets, hsettle, p, hp, _, hwf, rfl⟩ := h
  have hs := Ledger.mintSupply_eq_ok hs
  rw [hc.shareMint_eq] at hs
  subst hs
  have hun : ∀ s ∈ c.tickets, s.ticket.assetsOwed = 0 := by
    intro s hs
    exact hlive _ _ (hc.batch.live _ (List.mem_map_of_mem hs))
  have hst := strikeAll_spec hun hstrike
  obtain ⟨hm, rfl⟩ := settleAll_spec hsettle
  have hkeys : (batch.map fun s => s.ticketAccount.key)
      = (c.tickets.map TicketSettlement.row).map Prod.fst := by
    rw [List.map_map]
    exact hst.priced.map_eq fun _ _ => rfl
  rw [hkeys] at hsettle ⊢
  refine ⟨c, v₁, _, settled, batch, l, hc, hst, hsettle, hm, rfl, ?_, hwf, rfl⟩
  have h1 := hst.pending
  have h2 : settled.toNat = (owedTo batch).sum := by
    have := hst.settled_eq
    simpa using this
  apply BitVec.eq_of_toNat_eq
  show p.toNat = _
  omega

end Roshi

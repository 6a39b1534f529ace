import Roshi.World

/-!
# Redeem and cancel

`user/redeem.rs` and `user/cancel_redeem.rs` with their account contexts.  A redeem
burns shares into an unpriced ticket; the burned shares stay in the economic supply
through `requested_withdrawal_shares`.  A cancel closes the ticket and mints the
same shares back.  Neither validates the record it stores.
-/

namespace Roshi

open Lib

variable (rt : Runtime)

/-! ### Redeem -/

structure RedeemArgs where
  recipientTokenAccount : Pubkey
  ticketIndex : U8
  shares : U64

structure RedeemContext where
  owner : AccountInfo
  vaultAccount : AccountInfo
  shareSource : AccountInfo
  shareMint : AccountInfo
  recipientTokenAccount : AccountInfo
  ticket : AccountInfo
  tokenProgram : AccountInfo
  vault : Vault
  ticketBump : U8

def RedeemContext.load (w : World) (accounts : List AccountInfo) (args : RedeemArgs) :
    ProgramResult RedeemContext := do
  let (owner, accounts) ← nextAccount accounts
  requireWritableSigner owner
  let (vaultAccount, accounts) ← nextAccount accounts
  requireWritable vaultAccount
  let (shareSource, accounts) ← nextAccount accounts
  requireWritable shareSource
  let (shareMint, accounts) ← nextAccount accounts
  requireWritable shareMint
  let (recipientTokenAccount, accounts) ← nextAccount accounts
  let (ticket, accounts) ← nextAccount accounts
  w.requireUninitializedAccount ticket
  let (systemProgram, accounts) ← nextAccount accounts
  requireSystemProgram systemProgram
  let (tokenProgram, _) ← nextAccount accounts
  rejectIf (tokenProgram.key ≠ TOKEN_PROGRAM_ID) .incorrectProgramId
  let vault ← w.loadChecked rt vaultAccount
  verifyShareMint vault shareMint
  rejectIf (recipientTokenAccount.key ≠ args.recipientTokenAccount) (.custom .invalidTokenAccount)
  w.ledger.verifyTokenAccountMint recipientTokenAccount vault.baseMint
  let (expectedTicket, ticketBump) := ticketAddress rt vaultAccount.key owner.key args.ticketIndex
  rejectIf (ticket.key ≠ expectedTicket) .invalidSeeds
  .ok
    { owner, vaultAccount, shareSource, shareMint, recipientTokenAccount, ticket, tokenProgram,
      vault, ticketBump }

/-- The ticket account has to be writable for its creation to succeed. -/
def RedeemContext.createTicket (w : World) (c : RedeemContext) (t : WithdrawalTicket) :
    ProgramResult (Table Pubkey WithdrawalTicket) := do
  rejectIf (c.ticket.isWritable = false) .cpi
  .ok (w.tickets.insert c.ticket.key t)

/-- The ticket a redeem opens: unpriced, stamped with the report epoch and the slot. -/
def RedeemContext.newTicket (w : World) (c : RedeemContext) (args : RedeemArgs) :
    WithdrawalTicket where
  vault := c.vaultAccount.key
  owner := c.owner.key
  recipientTokenAccount := c.recipientTokenAccount.key
  ticketIndex := args.ticketIndex
  sharesBurned := args.shares
  assetsOwed := 0
  requestEpoch := c.vault.reportEpoch
  requestSlot := w.clock.slot
  bump := c.ticketBump

def tryRedeem (w : World) (accounts : List AccountInfo) (args : RedeemArgs) :
    ProgramResult World := do
  let context ← RedeemContext.load rt w accounts args
  let vault := context.vault
  rejectIf ((← vault.withdrawalsPaused) = true) (.custom .vaultPaused)
  rejectIf (args.shares = 0) (.custom .zeroOutput)
  let shareSupply ← w.ledger.mintSupply context.shareMint
  rejectIf (args.shares > shareSupply) (.custom .invalidVaultState)
  let economicShareSupply ← vault.economicShareSupply shareSupply
  let effective ← vault.effectiveTotalAssets w.clock.unixTimestamp
  -- dust guard only: the price is fixed later, at the strike
  let _ ← into (assetsForRedeem args.shares effective economicShareSupply vault.baseDecimals)
  let ledger ←
    burn w.ledger context.tokenProgram context.shareSource context.shareMint context.owner
      args.shares
  let tickets ← context.createTicket w (context.newTicket w args)
  let requestedWithdrawalShares ←
    okOr (checkedAdd vault.requestedWithdrawalShares args.shares) (.custom .overflow)
  .ok { w with ledger, tickets, vault := { vault with requestedWithdrawalShares } }

/-! ### Cancel -/

structure CancelRedeemContext where
  owner : AccountInfo
  vaultAccount : AccountInfo
  ticketAccount : AccountInfo
  shareMint : AccountInfo
  shareDest : AccountInfo
  tokenProgram : AccountInfo
  vault : Vault
  ticket : WithdrawalTicket

def CancelRedeemContext.load (w : World) (accounts : List AccountInfo) :
    ProgramResult CancelRedeemContext := do
  let (owner, accounts) ← nextAccount accounts
  requireWritableSigner owner
  let (vaultAccount, accounts) ← nextAccount accounts
  requireWritable vaultAccount
  let (ticketAccount, accounts) ← nextAccount accounts
  requireWritable ticketAccount
  let (shareMint, accounts) ← nextAccount accounts
  requireWritable shareMint
  let (shareDest, accounts) ← nextAccount accounts
  requireWritable shareDest
  let (tokenProgram, _) ← nextAccount accounts
  rejectIf (tokenProgram.key ≠ TOKEN_PROGRAM_ID) .incorrectProgramId
  let vault ← w.loadChecked rt vaultAccount
  verifyShareMint vault shareMint
  let ticket ← w.loadTicket ticketAccount
  rejectIf (ticket.vault ≠ vaultAccount.key ∨ ticket.owner ≠ owner.key)
    (.custom .invalidWithdrawalTicketAccount)
  let (expectedTicket, expectedBump) :=
    ticketAddress rt vaultAccount.key owner.key ticket.ticketIndex
  rejectIf (ticketAccount.key ≠ expectedTicket ∨ ticket.bump ≠ expectedBump) .invalidSeeds
  w.ledger.verifyTokenAccountMintAndOwner shareDest shareMint.key owner.key
  .ok { owner, vaultAccount, ticketAccount, shareMint, shareDest, tokenProgram, vault, ticket }

/-- Whether the configured grace has run out; zero disables it. -/
def graceElapsed (w : World) (vault : Vault) (ticket : WithdrawalTicket) : ProgramResult Bool :=
  let grace := U32.to64 vault.controls.cancelGraceSlots
  if grace > 0 then do
    let open_ ← okOr (checkedAdd ticket.requestSlot grace) (.custom .overflow)
    .ok (decide (w.clock.slot ≥ open_))
  else .ok false

def tryCancelRedeem (w : World) (accounts : List AccountInfo) (minSharesOut : U64) :
    ProgramResult World := do
  let context ← CancelRedeemContext.load rt w accounts
  let vault := context.vault
  let ticket := context.ticket
  rejectIf (ticket.assetsOwed ≠ 0) (.custom .invalidWithdrawalTicketAccount)
  let earliestStrikeEpoch ←
    okOr (checkedAdd ticket.requestEpoch WITHDRAWAL_STRIKE_DELAY_EPOCHS) (.custom .overflow)
  let cancelSlot ←
    okOr (checkedAdd ticket.requestSlot REDEEM_CANCEL_DELAY_SLOTS) (.custom .overflow)
  let graceElapsed ← graceElapsed w vault ticket
  rejectIf ((vault.reportEpoch ≥ earliestStrikeEpoch ∧ graceElapsed = false)
    ∨ w.clock.slot < cancelSlot) (.custom .invalidWithdrawalTicketAccount)
  rejectIf (ticket.sharesBurned < minSharesOut) (.custom .slippageExceeded)
  let _ ← vault.tagSeed
  let ledger ←
    mintToSigned w.ledger context.tokenProgram context.shareMint context.shareDest
      context.vaultAccount ticket.sharesBurned
  let tickets := w.tickets.erase context.ticketAccount.key
  let requestedWithdrawalShares ←
    okOr (checkedSub vault.requestedWithdrawalShares ticket.sharesBurned) (.custom .overflow)
  .ok { w with ledger, tickets, vault := { vault with requestedWithdrawalShares } }

/-! ### What they do -/

variable {rt} {w w' : World} {accounts : List AccountInfo}

/-- A redeem context belongs to this world's vault, with a ticket address still free. -/
structure RedeemContext.Loaded (rt : Runtime) (w : World) (args : RedeemArgs) (c : RedeemContext) :
    Prop where
  vault_eq : c.vault = w.vault
  key_eq : c.vaultAccount.key = w.vaultKey
  shareMint_eq : c.shareMint.key = w.vault.shareMint
  wellFormed : w.vault.WellFormed
  ticket_key : c.ticket.key = (ticketAddress rt w.vaultKey c.owner.key args.ticketIndex).1
  ticket_bump : c.ticketBump = (ticketAddress rt w.vaultKey c.owner.key args.ticketIndex).2
  ticket_new : w.tickets.lookup c.ticket.key = none

theorem RedeemContext.load_spec {args : RedeemArgs} {c : RedeemContext}
    (h : RedeemContext.load rt w accounts args = .ok c) : c.Loaded rt w args := by
  revert h
  simp only [RedeemContext.load, bind_ok_imp, Prod.forall, Except.ok.injEq, verifyShareMint_eq_ok,
    rejectIf_eq_ok, World.requireUninitializedAccount, not_not]
  rintro _ _ - _ - _ _ - _ - _ _ - _ - _ _ - _ - _ _ - ticket _ - _ hnew _ _ - _ - _ _ - _ - v hv _
    hm _ - _ - _ hticket rfl
  obtain ⟨rfl, hkey, hwf⟩ := loadChecked_eq_ok hv
  refine ⟨rfl, hkey, hm, hwf, hkey ▸ hticket, by rw [← hkey], ?_⟩
  -- a live ticket would make the address an initialized account
  show w.tickets.lookup ticket.key = none
  cases hl : w.tickets.lookup ticket.key with
  | none => rfl
  | some t => exact (hnew (by simp [World.initialized, hl])).elim

/-- The steps of a redeem, in its own context. -/
theorem tryRedeem_steps {args : RedeemArgs} (h : tryRedeem rt w accounts args = .ok w') :
    ∃ (c : RedeemContext) (l : Ledger) (requested : U64),
      RedeemContext.load rt w accounts args = .ok c ∧ args.shares.toNat ≠ 0 ∧
      Spl.burn w.ledger c.tokenProgram.key c.shareSource.key w.vault.shareMint c.owner.key
        args.shares = .ok l ∧
      requested.toNat = w.vault.requestedWithdrawalShares.toNat + args.shares.toNat ∧
      w' = { w with
        ledger := l
        tickets := w.tickets.insert c.ticket.key (c.newTicket w args)
        vault := { w.vault with requestedWithdrawalShares := requested } } := by
  rw [tryRedeem, bind_eq_ok] at h
  obtain ⟨c, hload, h⟩ := h
  have hc := RedeemContext.load_spec hload
  simp only [RedeemContext.createTicket, bind_eq_ok, Except.ok.injEq, okOr_eq_ok, burn,
    checkedAdd_eq_some, rejectIf_eq_ok, eq_zero_iff, hc.vault_eq, hc.shareMint_eq] at h
  obtain ⟨_, -, _, -, _, h0, _, -, _, -, _, -, _, -, _, -, l, ⟨_, -, hl⟩, _, ⟨_, -, rfl⟩, requested,
    hr, rfl⟩ := h
  exact ⟨c, l, requested, hload, h0, hl, hr, rfl⟩

/-- **A redeem** burns the shares into a new ticket. -/
theorem tryRedeem_spec {args : RedeemArgs} (h : tryRedeem rt w accounts args = .ok w') :
    ∃ (c : RedeemContext) (l : Ledger) (requested : U64), c.Loaded rt w args ∧
      args.shares.toNat ≠ 0 ∧
      Spl.burn w.ledger c.tokenProgram.key c.shareSource.key w.vault.shareMint c.owner.key
        args.shares = .ok l ∧
      requested.toNat = w.vault.requestedWithdrawalShares.toNat + args.shares.toNat ∧
      w' = { w with
        ledger := l
        tickets := w.tickets.insert c.ticket.key (c.newTicket w args)
        vault := { w.vault with requestedWithdrawalShares := requested } } := by
  obtain ⟨c, l, requested, hload, hsteps⟩ := tryRedeem_steps h
  exact ⟨c, l, requested, RedeemContext.load_spec hload, hsteps⟩

/-- A cancel context belongs to this world's vault and names a live ticket of it. -/
structure CancelRedeemContext.Loaded (w : World) (c : CancelRedeemContext) : Prop where
  vault_eq : c.vault = w.vault
  key_eq : c.vaultAccount.key = w.vaultKey
  shareMint_eq : c.shareMint.key = w.vault.shareMint
  wellFormed : w.vault.WellFormed
  lookup : w.tickets.lookup c.ticketAccount.key = some c.ticket

theorem CancelRedeemContext.load_spec {c : CancelRedeemContext}
    (h : CancelRedeemContext.load rt w accounts = .ok c) : c.Loaded w := by
  revert h
  simp only [CancelRedeemContext.load, bind_ok_imp, Prod.forall, Except.ok.injEq,
    verifyShareMint_eq_ok, World.loadTicket, okOr_eq_ok]
  rintro _ _ - _ - _ _ - _ - _ _ - _ - _ _ - _ - _ _ - _ - _ _ - _ - v hv _ hm t ht _ - _ - _ - rfl
  obtain ⟨rfl, hkey, hwf⟩ := loadChecked_eq_ok hv
  exact ⟨rfl, hkey, hm, hwf, ht⟩

/-- **A cancel** closes a live ticket and mints its shares back. -/
theorem tryCancelRedeem_spec {minSharesOut : U64}
    (h : tryCancelRedeem rt w accounts minSharesOut = .ok w') :
    ∃ (c : CancelRedeemContext) (l : Ledger) (requested : U64), c.Loaded w ∧
      Spl.mintTo w.ledger c.tokenProgram.key w.vault.shareMint c.shareDest.key w.vaultKey
        c.ticket.sharesBurned = .ok l ∧
      requested.toNat + c.ticket.sharesBurned.toNat = w.vault.requestedWithdrawalShares.toNat ∧
      w' = { w with
        ledger := l
        tickets := w.tickets.erase c.ticketAccount.key
        vault := { w.vault with requestedWithdrawalShares := requested } } := by
  rw [tryCancelRedeem, bind_eq_ok] at h
  obtain ⟨c, hc, h⟩ := h
  have hc := CancelRedeemContext.load_spec hc
  simp only [bind_eq_ok, Except.ok.injEq, okOr_eq_ok, mintToSigned, checkedSub_eq_some,
    hc.vault_eq, hc.key_eq, hc.shareMint_eq] at h
  obtain ⟨_, -, _, -, _, -, _, -, _, -, _, -, _, -, l, ⟨_, -, hl⟩, requested, hr, rfl⟩ := h
  exact ⟨c, l, requested, hc, hl, hr, rfl⟩

end Roshi

import Roshi.Authority
import Roshi.MintAuthority

/-!
# Leaving the queue

The two ends of the queue as a holder meets them: `roshi-client` builds the instruction, the
entrypoint decodes it, `CancelRedeem` is the escape when no report comes.

In any state of a run that relays no call of the program itself, a cancel goes through exactly when
its time has come and the token program mints (`cancel_iff`): no check of a record, an address, a
seed or a counter stands in its way.  And where only time has passed, 150 slots of it, it undoes the
redeem to the last byte (`cancel_undoes_redeem`).
-/

namespace Roshi

open Lib

/-! ### Building and receiving instructions -/

namespace AccountMeta

/-- `AccountMeta::new`: writable. -/
def new (pubkey : Pubkey) (isSigner : Bool) : AccountMeta :=
  { pubkey, isSigner, isWritable := true }

def newReadonly (pubkey : Pubkey) (isSigner : Bool) : AccountMeta :=
  { pubkey, isSigner, isWritable := false }

/-- The meta in a message of the one instruction: an account has the privileges of all its metas. -/
def compiled (metas : List AccountMeta) (m : AccountMeta) : AccountMeta where
  pubkey := m.pubkey
  isSigner := metas.any fun m' => m'.pubkey == m.pubkey && m'.isSigner
  isWritable := metas.any fun m' => m'.pubkey == m.pubkey && m'.isWritable

end AccountMeta

/-- The entrypoint. -/
def processInstruction (wc : Wincode) (rt : Runtime) (o : Surroundings) (d : Deployment)
    (programId : Pubkey) (accounts : List AccountInfo) (data : List U8) :
    ProgramResult Deployment := do
  rejectIf (programId ≠ ID) .incorrectProgramId
  let instruction ← okOr (RoshiInstruction.decode wc data) .invalidInstructionData
  tryProcessInstruction rt o d accounts instruction

/-- The accounts an instruction is run on. -/
def infosOf (metas : List AccountMeta) : List AccountInfo :=
  metas.map fun m => (m.compiled metas).info

/-- An instruction, sent and run. -/
def RawInstruction.submit (ix : RawInstruction) (wc : Wincode) (rt : Runtime) (o : Surroundings)
    (d : Deployment) : ProgramResult Deployment :=
  processInstruction wc rt o d ix.programId (infosOf ix.accounts) ix.data

namespace Client

variable (wc : Wincode)

def new (accounts : List AccountMeta) (args : RoshiInstruction) : Option RawInstruction := do
  let data ← args.serialize wc
  some { programId := ID, accounts, data }

def redeem (owner vault userShareAccount shareMint recipientTokenAccount withdrawalTicket : Pubkey)
    (ticketIndex : U8) (shares : U64) : Option RawInstruction :=
  new wc
    [.new owner true, .new vault false, .new userShareAccount false, .new shareMint false,
      .newReadonly recipientTokenAccount false, .new withdrawalTicket false,
      .newReadonly SYSTEM_PROGRAM_ID false, .newReadonly TOKEN_PROGRAM_ID false]
    (.redeem { recipientTokenAccount, ticketIndex, shares })

def cancelRedeem (owner vault withdrawalTicket shareMint ownerShareAccount : Pubkey)
    (minSharesOut : U64) : Option RawInstruction :=
  new wc
    [.new owner true, .new vault false, .new withdrawalTicket false, .new shareMint false,
      .new ownerShareAccount false, .newReadonly TOKEN_PROGRAM_ID false]
    (.cancelRedeem minSharesOut)

end Client

variable {wc : Wincode} {rt : Runtime} {o : Surroundings} {d d' : Deployment}

theorem AccountMeta.compiled_isSigner {metas : List AccountMeta} {m : AccountMeta} (hm : m ∈ metas)
    (h : m.isSigner = true) : (m.compiled metas).isSigner = true :=
  List.any_eq_true.mpr ⟨m, hm, by simp [h]⟩

theorem AccountMeta.compiled_isWritable {metas : List AccountMeta} {m : AccountMeta}
    (hm : m ∈ metas) (h : m.isWritable = true) : (m.compiled metas).isWritable = true :=
  List.any_eq_true.mpr ⟨m, hm, by simp [h]⟩

/-- What a client builds is what the program runs. -/
theorem Client.submit_new {accounts : List AccountMeta} {i : RoshiInstruction} {ix : RawInstruction}
    (h : Client.new wc accounts i = some ix) :
    ix.submit wc rt o d =
      tryProcessInstruction rt o d (infosOf accounts) i := by
  simp only [Client.new, Option.bind_eq_bind, Option.bind_eq_some_iff, Option.some.injEq] at h
  obtain ⟨data, hdata, rfl⟩ := h
  rw [RawInstruction.submit, processInstruction, rejectIf_of_not (not_not.mpr rfl), ok_bind,
    RoshiInstruction.decode_serialize hdata]
  rfl

/-! ### When a cancel goes through -/

variable {w w' : World} {t : WithdrawalTicket} {key : Pubkey}

/-- The time for a cancel: after the delay, and before the ticket may be struck or past the grace,
if there is one.  The epoch and the slots have to leave room for the additions. -/
structure WithdrawalTicket.CancelOpen (t : WithdrawalTicket) (w : World) : Prop where
  delay : t.requestSlot.toNat + 150 ≤ w.clock.slot.toNat
  unstruck : w.vault.reportEpoch.toNat ≤ t.requestEpoch.toNat ∨
    0 < w.vault.controls.cancelGraceSlots.toNat ∧
      t.requestSlot.toNat + w.vault.controls.cancelGraceSlots.toNat ≤ w.clock.slot.toNat
  epoch_fits : t.requestEpoch.toNat + 1 < 2 ^ 64
  grace_fits : 0 < w.vault.controls.cancelGraceSlots.toNat →
    t.requestSlot.toNat + w.vault.controls.cancelGraceSlots.toNat < 2 ^ 64

/-- It is time, and the token program mints the shares to an account of the owner, which makes the
ledger `l`. -/
structure Cancellable (w : World) (t : WithdrawalTicket) (shares : Pubkey) (minSharesOut : U64)
    (l : Ledger) : Prop where
  time : t.CancelOpen w
  min_le : minSharesOut.toNat ≤ t.sharesBurned.toNat
  owner : ∃ a, w.ledger.accounts shares = some a ∧ a.owner = t.owner
  minted : Spl.mintTo w.ledger TOKEN_PROGRAM_ID w.vault.shareMint shares w.vaultKey t.sharesBurned
    = .ok l

/-- The world without the ticket. -/
def World.withoutTicket (w : World) (key : Pubkey) (t : WithdrawalTicket) (l : Ledger) : World :=
  { w with
    ledger := l
    tickets := w.tickets.erase key
    vault :=
      { w.vault with
        requestedWithdrawalShares := w.vault.requestedWithdrawalShares - t.sharesBurned } }

theorem graceElapsed_eq_ok {b : Bool} : graceElapsed w w.vault t = .ok b ↔
    (0 < w.vault.controls.cancelGraceSlots.toNat →
      t.requestSlot.toNat + w.vault.controls.cancelGraceSlots.toNat < 2 ^ 64) ∧
    (b = true ↔ 0 < w.vault.controls.cancelGraceSlots.toNat ∧
      t.requestSlot.toNat + w.vault.controls.cancelGraceSlots.toNat ≤ w.clock.slot.toNat) := by
  have hslot := t.requestSlot.isLt
  rw [graceElapsed]
  by_cases hgrace : 0 < w.vault.controls.cancelGraceSlots.toNat
  · rw [if_pos (by rw [gt_iff_lt, BitVec.lt_def]; simpa using hgrace)]
    simp only [bind_eq_ok, okOr_eq_ok, checkedAdd_eq_some, U32.toNat_to64, Except.ok.injEq,
      hgrace, forall_const, true_and]
    constructor
    · rintro ⟨open_, hopen, rfl⟩
      have := open_.isLt
      refine ⟨by omega, ?_⟩
      rw [decide_eq_true_eq, ge_iff_le, BitVec.le_def, hopen]
    · rintro ⟨hfits, hb⟩
      obtain ⟨c, -, hc⟩ := exists_checkedAdd (a := t.requestSlot)
        (b := U32.to64 w.vault.controls.cancelGraceSlots) (by rw [U32.toNat_to64]; exact hfits)
      rw [U32.toNat_to64] at hc
      refine ⟨c, hc, ?_⟩
      rw [Bool.eq_iff_iff, decide_eq_true_eq, ge_iff_le, BitVec.le_def, hc, hb]
  · rw [if_neg (by rw [gt_iff_lt, BitVec.lt_def]; simpa using hgrace)]
    simp only [hgrace, IsEmpty.forall_iff, false_and, iff_false, true_and, Except.ok.injEq,
      Bool.not_eq_true]
    exact eq_comm

/-- The six accounts of a cancel, as its loader takes them. -/
structure CancelAccounts (w : World) (t : WithdrawalTicket) (key shares : Pubkey) where
  owner : AccountInfo
  vault : AccountInfo
  ticket : AccountInfo
  shareMint : AccountInfo
  dest : AccountInfo
  program : AccountInfo
  owner_key : owner.key = t.owner
  owner_signer : owner.isSigner = true
  owner_writable : owner.isWritable = true
  vault_key : vault.key = w.vaultKey
  vault_writable : vault.isWritable = true
  ticket_key : ticket.key = key
  ticket_writable : ticket.isWritable = true
  shareMint_key : shareMint.key = w.vault.shareMint
  shareMint_writable : shareMint.isWritable = true
  dest_key : dest.key = shares
  dest_writable : dest.isWritable = true
  program_key : program.key = TOKEN_PROGRAM_ID

namespace CancelAccounts

variable {shares : Pubkey}

def list (c : CancelAccounts w t key shares) : List AccountInfo :=
  [c.owner, c.vault, c.ticket, c.shareMint, c.dest, c.program]

/-- What the loader hands on. -/
def context (c : CancelAccounts w t key shares) : CancelRedeemContext where
  owner := c.owner
  vaultAccount := c.vault
  ticketAccount := c.ticket
  shareMint := c.shareMint
  shareDest := c.dest
  tokenProgram := c.program
  vault := w.vault
  ticket := t

theorem load_eq (c : CancelAccounts w t key shares)
    (hvault : w.loadChecked rt c.vault = .ok w.vault) (ht : w.tickets.lookup key = some t)
    (hat : t.At rt w.vaultKey key) :
    CancelRedeemContext.load rt w c.list =
      (w.ledger.verifyTokenAccountMintAndOwner c.dest w.vault.shareMint t.owner >>= fun _ =>
        .ok c.context) := by
  have hticket : w.loadTicket c.ticket = .ok t := by
    rw [World.loadTicket, c.ticket_key, ht]
    rfl
  simp only [CancelRedeemContext.load, list, nextAccount, ok_bind, requireWritableSigner,
    requireSigner, requireWritable, verifyShareMint, c.owner_signer, c.owner_writable,
    c.vault_writable, c.ticket_writable, c.shareMint_writable, c.dest_writable, c.program_key,
    hvault, hticket, c.shareMint_key, c.owner_key, c.vault_key, c.ticket_key, hat.vault, hat.address,
    rejectIf, ne_eq, not_true_eq_false, or_self, if_false, Bool.true_eq_false]
  rfl

/-- The accounts of a client's cancel. -/
def ofClient (w : World) (t : WithdrawalTicket) (key shares : Pubkey) :
    CancelAccounts w t key shares :=
  let metas : List AccountMeta :=
    [.new t.owner true, .new w.vaultKey false, .new key false, .new w.vault.shareMint false,
      .new shares false, .newReadonly TOKEN_PROGRAM_ID false]
  { owner := ((AccountMeta.new t.owner true).compiled metas).info
    vault := ((AccountMeta.new w.vaultKey false).compiled metas).info
    ticket := ((AccountMeta.new key false).compiled metas).info
    shareMint := ((AccountMeta.new w.vault.shareMint false).compiled metas).info
    dest := ((AccountMeta.new shares false).compiled metas).info
    program := ((AccountMeta.newReadonly TOKEN_PROGRAM_ID false).compiled metas).info
    owner_key := rfl
    owner_signer := AccountMeta.compiled_isSigner List.mem_cons_self rfl
    owner_writable := AccountMeta.compiled_isWritable (by simp [metas]) rfl
    vault_key := rfl
    vault_writable := AccountMeta.compiled_isWritable (by simp [metas]) rfl
    ticket_key := rfl
    ticket_writable := AccountMeta.compiled_isWritable (by simp [metas]) rfl
    shareMint_key := rfl
    shareMint_writable := AccountMeta.compiled_isWritable (by simp [metas]) rfl
    dest_key := rfl
    dest_writable := AccountMeta.compiled_isWritable (by simp [metas]) rfl
    program_key := rfl }

theorem verifyTokenAccountMintAndOwner_eq_ok {l : Ledger} {i : AccountInfo} {mint owner : Pubkey}
    {u : Unit} : l.verifyTokenAccountMintAndOwner i mint owner = .ok u ↔
      ∃ a, l.accounts i.key = some a ∧ isTokenProgram a.program = true ∧ a.state = 1 ∧
        a.mint = mint ∧ a.owner = owner := by
  have htoken : ∀ a, l.tokenAccount i.key = .ok a ↔
      l.accounts i.key = some a ∧ isTokenProgram a.program = true ∧ a.state = 1 := by
    intro a
    simp only [Ledger.tokenAccount, bind_eq_ok, okOr_eq_ok, rejectIf_eq_ok, Except.ok.injEq,
      exists_const, not_or, Bool.not_eq_false, not_not]
    constructor
    · rintro ⟨_, ha, hok, rfl⟩
      exact ⟨ha, hok⟩
    · rintro ⟨ha, hok⟩
      exact ⟨a, ha, hok, rfl⟩
  simp only [Ledger.verifyTokenAccountMintAndOwner, Ledger.verifyTokenAccountMint, bind_eq_ok,
    rejectIf_eq_ok, htoken, exists_const, not_not]
  constructor
  · rintro ⟨⟨a, ha, hmint⟩, b, hb, howner⟩
    obtain rfl : a = b := Option.some.inj (ha.1.symm.trans hb.1)
    exact ⟨a, ha.1, ha.2.1, ha.2.2, hmint, howner⟩
  · rintro ⟨a, ha, hprogram, hstate, hmint, howner⟩
    exact ⟨⟨a, ⟨ha, hprogram, hstate⟩, hmint⟩, a, ⟨ha, hprogram, hstate⟩, howner⟩

/-- The token program mints to an account the loader takes. -/
theorem verify_of_mintTo {l l' : Ledger} {i : AccountInfo} {mint authority owner : Pubkey}
    {amount : U64} (h : Spl.mintTo l TOKEN_PROGRAM_ID mint i.key authority amount = .ok l')
    {a : TokenAccount} (ha : l.accounts i.key = some a) (howner : a.owner = owner) :
    l.verifyTokenAccountMintAndOwner i mint owner = .ok () := by
  simp only [Spl.mintTo, Spl.usable, bind_eq_ok, okOr_eq_ok, rejectIf_eq_ok, Except.ok.injEq,
    exists_const, not_or, not_not] at h
  obtain ⟨_, ⟨_, hb, ⟨hprogram, hstate⟩, rfl⟩, hmint, -⟩ := h
  obtain rfl := Option.some.inj (ha.symm.trans hb)
  refine verifyTokenAccountMintAndOwner_eq_ok.mpr ⟨a, ha, ?_, hstate, hmint, howner⟩
  rw [hprogram]
  decide

/-- **In good books a cancel goes through exactly when its time has come** and the token program
mints. -/
theorem tryCancelRedeem_eq_ok (c : CancelAccounts w t key shares) {minSharesOut : U64}
    (hb : Books w) (hvault : w.loadChecked rt c.vault = .ok w.vault)
    (ht : w.tickets.lookup key = some t) (hat : t.At rt w.vaultKey key) :
    tryCancelRedeem rt w c.list minSharesOut = .ok w' ↔
      ∃ l, Cancellable w t shares minSharesOut l ∧ w' = w.withoutTicket key t l := by
  have hqueued := hb.queued key t ht
  have hone : WITHDRAWAL_STRIKE_DELAY_EPOCHS.toNat = 1 := rfl
  have hdelay : REDEEM_CANCEL_DELAY_SLOTS.toNat = 150 := rfl
  -- the requested shares are those of all tickets
  have hsub : checkedSub w.vault.requestedWithdrawalShares t.sharesBurned =
      some (w.vault.requestedWithdrawalShares - t.sharesBurned) := by
    have htotal := Table.total_erase_add (f := fun t => t.sharesBurned.toNat) ht
    have hle : t.sharesBurned.toNat ≤ w.vault.requestedWithdrawalShares.toNat := by
      rw [hb.requested, World.ticketShares]
      omega
    rw [checkedSub_eq_some, BitVec.toNat_sub_of_le hle]
    omega
  have hprivileges : requirePrivileges c.shareMint c.dest c.vault true = .ok () := by
    simp [requirePrivileges, c.shareMint_writable, c.dest_writable]
  obtain ⟨seed, hseed⟩ : ∃ seed, w.vault.tagSeed = .ok seed := by
    simp only [World.loadChecked, Vault.verifyAddress, bind_eq_ok] at hvault
    obtain ⟨_, -, _, -, _, ⟨seed, hseed, -⟩, -⟩ := hvault
    exact ⟨seed, hseed⟩
  rw [tryCancelRedeem, c.load_eq hvault ht hat]
  constructor
  · intro h
    obtain ⟨_, hload, h⟩ := bind_eq_ok.mp h
    obtain ⟨_, hdest, hcontext⟩ := bind_eq_ok.mp hload
    cases hcontext
    simp only [context, mintToSigned, bind_eq_ok, okOr_eq_ok, checkedAdd_eq_some, rejectIf_eq_ok,
      graceElapsed_eq_ok, Except.ok.injEq, c.dest_key, c.shareMint_key, c.vault_key, c.program_key,
      c.ticket_key, not_or, not_and, BitVec.lt_def, Nat.not_lt, hone, hdelay, ge_iff_le,
      BitVec.le_def, hsub, Option.some.injEq, exists_eq_left', Bool.not_eq_false] at h
    obtain ⟨_, -, epoch, hepoch, slot, hslot, grace, ⟨hfits, hgrace⟩, _, ⟨hunstruck, hwait⟩, _, hmin,
      _, -, l, ⟨_, -, hl⟩, rfl⟩ := h
    have hepoch_lt := epoch.isLt
    obtain ⟨a, ha, -, -, -, howner⟩ := verifyTokenAccountMintAndOwner_eq_ok.mp hdest
    rw [c.dest_key] at ha
    refine ⟨l, ⟨⟨by omega, ?_, by omega, hfits⟩, hmin, ⟨a, ha, howner⟩, hl⟩, rfl⟩
    by_cases hstruck : epoch.toNat ≤ w.vault.reportEpoch.toNat
    · exact .inr (hgrace.mp (hunstruck hstruck))
    · exact .inl (by omega)
  · rintro ⟨l, hc, rfl⟩
    obtain ⟨a, ha, howner⟩ := hc.owner
    have hminted := hc.minted
    rw [← c.dest_key] at ha hminted
    rw [verify_of_mintTo hminted ha howner, ok_bind, ok_bind]
    obtain ⟨epoch, -, hepoch⟩ := exists_checkedAdd (a := t.requestEpoch)
      (b := WITHDRAWAL_STRIKE_DELAY_EPOCHS) (by rw [hone]; exact hc.time.epoch_fits)
    obtain ⟨slot, -, hslot⟩ := exists_checkedAdd (a := t.requestSlot)
      (b := REDEEM_CANCEL_DELAY_SLOTS) (by
        have := w.clock.slot.isLt
        have := hc.time.delay
        omega)
    have hdelayed := hc.time.delay
    simp only [context, mintToSigned, bind_eq_ok, okOr_eq_ok, checkedAdd_eq_some, rejectIf_eq_ok,
      graceElapsed_eq_ok, Except.ok.injEq, c.shareMint_key, c.vault_key, c.program_key,
      c.ticket_key, not_or, not_and, BitVec.lt_def, Nat.not_lt, ge_iff_le, BitVec.le_def, hsub,
      Option.some.injEq, exists_eq_left', Bool.not_eq_false, hseed, hprivileges, exists_const,
      hqueued.unpriced, not_true_eq_false, ne_eq, not_false_eq_true, true_and]
    refine ⟨epoch, hepoch, slot, hslot,
      decide (0 < w.vault.controls.cancelGraceSlots.toNat ∧
        t.requestSlot.toNat + w.vault.controls.cancelGraceSlots.toNat ≤ w.clock.slot.toNat),
      ⟨hc.time.grace_fits, decide_eq_true_iff⟩, ⟨?_, by omega⟩, hc.min_le, l, hminted, rfl⟩
    intro hstruck
    rw [decide_eq_true_eq]
    exact hc.time.unstruck.resolve_left (by omega)

end CancelAccounts

/-- What a client's cancel does to a deployed vault. -/
theorem submit_cancelRedeem {g : Ground} {tr : ProgramTrace} {l : Live} {shares : Pubkey}
    {minSharesOut : U64} {ix : RawInstruction} (h : Run (ProgramStep rt) (.genesis g) tr d)
    (hout : ProgramOutward tr) (hl : d.stage = .live l) (ht : l.world.tickets.lookup key = some t)
    (hix : Client.cancelRedeem wc t.owner l.world.vaultKey key l.world.vault.shareMint shares
      minSharesOut = some ix) :
    ix.submit wc rt o d = .ok d' ↔ ∃ ledger, Cancellable l.world t shares minSharesOut ledger ∧
      d' = { d with
        stage := .live (.of (l.world.withoutTicket key t ledger) l.registrations) } := by
  have hat := (addressed_of_run h hl).ticket key t ht
  have hbooks := (program_sound h hout ⟨l, hl, rfl⟩).1
  have hcancel : ∀ w', tryCancelRedeem rt l.world
      (CancelAccounts.ofClient l.world t key shares).list minSharesOut = .ok w' ↔ _ := fun w' =>
    CancelAccounts.tryCancelRedeem_eq_ok _ hbooks
      (loadChecked_of_run h hl (CancelAccounts.vault_key _)) ht hat
  rw [Client.submit_new hix, tryProcessInstruction, onWorld_eq_ok]
  constructor
  · rintro ⟨l₁, w', hl₁, hw', rfl⟩
    obtain rfl : l = l₁ := Stage.live.inj (hl.symm.trans hl₁)
    obtain ⟨ledger, hc, rfl⟩ := (hcancel w').mp hw'
    exact ⟨ledger, hc, rfl⟩
  · rintro ⟨ledger, hc, rfl⟩
    exact ⟨l, _, hl, (hcancel _).mpr ⟨ledger, hc, rfl⟩, rfl⟩

/-- **No redeemer is trapped.**  In every state of every run that relays no call of the program
itself, the owner's cancel of a ticket goes through exactly when the time for it has come and the
token program mints: whatever else happened in the run, no record, address, seed or counter is in
the way. -/
theorem cancel_iff {g : Ground} {tr : ProgramTrace} {l : Live} {shares : Pubkey}
    {minSharesOut : U64} {ix : RawInstruction} (h : Run (ProgramStep rt) (.genesis g) tr d)
    (hout : ProgramOutward tr) (hl : d.stage = .live l) (ht : l.world.tickets.lookup key = some t)
    (hix : Client.cancelRedeem wc t.owner l.world.vaultKey key l.world.vault.shareMint shares
      minSharesOut = some ix) :
    (∃ d', ix.submit wc rt o d = .ok d') ↔
      ∃ ledger, Cancellable l.world t shares minSharesOut ledger := by
  simp only [submit_cancelRedeem h hout hl ht hix]
  constructor
  · rintro ⟨_, ledger, hc, -⟩
    exact ⟨ledger, hc⟩
  · rintro ⟨ledger, hc⟩
    exact ⟨_, ledger, hc, rfl⟩

/-! ### A redeem undone -/

theorem RedeemContext.load_keys
    {owner vault source mint recipient ticket system program : AccountInfo}
    {args : RedeemArgs} {c : RedeemContext}
    (h : RedeemContext.load rt w [owner, vault, source, mint, recipient, ticket, system, program]
      args = .ok c) :
    c.owner.key = owner.key ∧ c.shareSource.key = source.key ∧ c.ticket.key = ticket.key ∧
      c.tokenProgram.key = TOKEN_PROGRAM_ID := by
  simp only [RedeemContext.load, nextAccount, ok_bind, bind_eq_ok, rejectIf_eq_ok, Except.ok.injEq,
    not_not] at h
  obtain ⟨_, -, _, -, _, -, _, -, _, -, _, -, _, hprogram, _, -, _, -, _, -, _, -, _, -, rfl⟩ := h
  exact ⟨rfl, rfl, rfl, hprogram⟩

/-- The accounts of the two ends agree, and there is room for the additions: what it takes for a
cancel at the clock `clock` to follow a redeem in `w` from the share account `source`. -/
structure Undoable (w : World) (owner source : Pubkey) (clock : Clock) : Prop where
  source : ∃ a, w.ledger.accounts source = some a ∧ a.owner = owner ∧ a.delegate ≠ some owner
  delay : w.clock.slot.toNat + 150 ≤ clock.slot.toNat
  epoch_fits : w.vault.reportEpoch.toNat + 1 < 2 ^ 64
  grace_fits : w.clock.slot.toNat + w.vault.controls.cancelGraceSlots.toNat < 2 ^ 64

/-- **A redeem is undone**: the ticket it leaves can be cancelled later, and cancelling it leaves
what was there before. -/
theorem tryRedeem_undone {accounts : List AccountInfo} {args : RedeemArgs} {c : RedeemContext}
    {clock : Clock} (hmints : w.MintsShares) (hload : RedeemContext.load rt w accounts args = .ok c)
    (hprogram : c.tokenProgram.key = TOKEN_PROGRAM_ID)
    (hu : Undoable w c.owner.key c.shareSource.key clock)
    (h : tryRedeem rt w accounts args = .ok w') :
    ∃ t, w'.tickets.lookup c.ticket.key = some t ∧ t.owner = c.owner.key ∧
      t.At rt w.vaultKey c.ticket.key ∧
      Cancellable { w' with clock } t c.shareSource.key args.shares w.ledger ∧
      World.withoutTicket { w' with clock } c.ticket.key t w.ledger = { w with clock } := by
  obtain ⟨c', l, requested, hload', -, hburn, hrequested, rfl⟩ := tryRedeem_steps h
  obtain rfl : c = c' := Except.ok.inj (hload.symm.trans hload')
  have hc := RedeemContext.load_spec hload
  obtain ⟨a, ha, howner, hdelegate⟩ := hu.source
  obtain ⟨m, hm, hauthority⟩ := Ledger.mintAuthority_eq_some.mp hmints
  rw [hprogram] at hburn
  obtain ⟨hmint, b, hsource, hsame⟩ := Spl.mintTo_burn hburn ha hm hdelegate hauthority
  refine ⟨c.newTicket w args, AList.lookup_insert _, rfl, ⟨hc.key_eq, ?_⟩, ?_, ?_⟩
  · exact Prod.ext hc.ticket_key.symm hc.ticket_bump.symm
  · have hepoch : (c.newTicket w args).requestEpoch = w.vault.reportEpoch :=
      congrArg Vault.reportEpoch hc.vault_eq
    refine ⟨⟨hu.delay, .inl ?_, ?_, fun _ => hu.grace_fits⟩, Nat.le_refl _,
      ⟨b, hsource, hsame.trans howner⟩, hmint⟩
    · rw [hepoch]
    · rw [hepoch]
      exact hu.epoch_fits
  · have hback : requested - args.shares = w.vault.requestedWithdrawalShares := by
      refine BitVec.eq_of_toNat_eq ?_
      rw [BitVec.toNat_sub_of_le (by rw [BitVec.le_def]; omega)]
      omega
    simp only [World.withoutTicket, Table.erase_insert hc.ticket_new, RedeemContext.newTicket,
      hback]

/-- A run goes on with a call that reaches other programs only, and then only time passes. -/
theorem exists_run_tick {g : Ground} {tr : ProgramTrace} {e : ProgramEvent} {d₁ : Deployment}
    (h : Run (ProgramStep rt) (.genesis g) tr d) (hout : ProgramOutward tr)
    (hcall : ProgramStep rt d e d₁) (he : e.Outward) (clock : Clock) :
    ∃ tr', Run (ProgramStep rt) (.genesis g) tr' (d₁.tick clock) ∧ ProgramOutward tr' := by
  have htick : ProgramStep rt d₁ (.tick clock) (d₁.tick clock) := ⟨trivial, rfl⟩
  refine ⟨_, h.append (.cons hcall (.single htick)), ?_⟩
  intro x hx
  rcases List.mem_append.mp hx with hx | hx
  · exact hout x hx
  · rcases List.mem_pair.mp hx with rfl | rfl
    · exact he
    · exact trivial

/-- **A cancel undoes a redeem.**  Where a client's redeem went through in a state of a run and only
time has passed since, enough for the delay, the client's cancel back to the same account goes
through and leaves the program, the vault and every token account and mint as they were before the
redeem. -/
theorem cancel_undoes_redeem {g : Ground} {tr : ProgramTrace} {l : Live} {d₁ : Deployment}
    {owner source recipient ticket : Pubkey} {ticketIndex : U8} {shares : U64}
    {ix ix' : RawInstruction} {o' : Surroundings} {clock : Clock}
    (h : Run (ProgramStep rt) (.genesis g) tr d) (hout : ProgramOutward tr)
    (hspared : AuthoritySpared tr) (hl : d.stage = .live l)
    (hix : Client.redeem wc owner l.world.vaultKey source l.world.vault.shareMint recipient ticket
      ticketIndex shares = some ix)
    (hix' : Client.cancelRedeem wc owner l.world.vaultKey ticket l.world.vault.shareMint source
      shares = some ix')
    (hredeem : ix.submit wc rt o d = .ok d₁) (hu : Undoable l.world owner source clock) :
    ix'.submit wc rt o' (d₁.tick clock) = .ok (d.tick clock) := by
  rw [Client.submit_new hix] at hredeem
  -- a redeem calls no program of its surroundings
  have hcall : ProgramStep rt d (.call (.redeem _) _ Sample.silent) d₁ :=
    ⟨fun _ _ => Sample.silent_neverMints _, hredeem⟩
  obtain ⟨tr', hrun, hout'⟩ := exists_run_tick h hout hcall Sample.silent_outward clock
  rw [tryProcessInstruction, onWorld_eq_ok] at hredeem
  obtain ⟨l₁, w', hl₁, hw', rfl⟩ := hredeem
  obtain rfl : l = l₁ := Stage.live.inj (hl.symm.trans hl₁)
  obtain ⟨c, ledger, requested, hload, -, -, -, hw⟩ := tryRedeem_steps hw'
  obtain ⟨hsigner, hsource, hticket, hprogram⟩ := RedeemContext.load_keys hload
  obtain ⟨t, hlookup, howner, hat, hcancel, hback⟩ :=
    tryRedeem_undone (mintAuthority_of_run h hspared hl) hload hprogram
      (by rw [hsigner, hsource]; exact hu) hw'
  have hworld : (Live.of { w' with clock } l.registrations).world = { w' with clock } :=
    Live.of_world (hw ▸ l.destinations_eq)
  rw [hsource] at hcancel
  rw [hticket] at hlookup hback
  have hix'' : Client.cancelRedeem wc t.owner w'.vaultKey ticket w'.vault.shareMint source shares =
      some ix' := by
    rw [howner.trans hsigner, hw]
    exact hix'
  have hlater : d.tick clock =
      { d with stage := .live (.of { l.world with clock } l.registrations) } := by
    rw [Deployment.tick, hl]
  have hlater₁ : ({ d with stage := .live (.of w' l.registrations) } : Deployment).tick clock =
      { d with stage := .live (.of { w' with clock } l.registrations) } := rfl
  rw [hlater₁] at hrun ⊢
  rw [hlater, ← hback]
  refine (submit_cancelRedeem hrun hout' rfl hlookup hix'').mpr
    ⟨l.world.ledger, ?_, ?_⟩
  · rw [hworld]
    exact hcancel
  · rw [hworld]
    rfl

/-! ### A user who changes their mind -/

namespace Sample

def investedLive : Live := invested.live?.get (by decide +kernel)

theorem invested_live : invested.stage = .live investedLive :=
  live?_eq_some.mp (Option.some_get _).symm

/-- Half the user's shares. -/
def redeemIx : RawInstruction :=
  (Client.redeem wincode user investedLive.world.vaultKey userShares
    investedLive.world.vault.shareMint userBase ticket 0 500000).get (by decide +kernel)

def cancelIx : RawInstruction :=
  (Client.cancelRedeem wincode user investedLive.world.vaultKey ticket
    investedLive.world.vault.shareMint userShares 500000).get (by decide +kernel)

def redeemed : Deployment :=
  okValue (redeemIx.submit wincode routeRuntime silent invested) (by decide +kernel)

/-- A minute later. -/
def later : Clock := { investedLive.world.clock with slot := investedLive.world.clock.slot + 150 }

theorem deployEvents_spared : ∀ e ∈ deployEvents, ∀ d : Deployment, d.SparesAuthority e := by
  intro e he d
  simp only [deployEvents, List.mem_cons, List.not_mem_nil, or_false] at he
  rcases he with rfl | rfl | rfl | rfl
  · rintro ⟨⟩
  · rintro ⟨⟩
  · exact trivial
  · rintro ⟨⟩

/-- The user's account comes to be beside the share mint. -/
theorem investedTrace_spared : AuthoritySpared investedTrace := by
  intro x hx
  rcases List.mem_pair.mp hx with rfl | rfl
  · intro l hl
    obtain rfl : deployedLive = l := Stage.live.inj (deployed_live.symm.trans hl)
    have hledger : deployed.ledger = deployedLive.world.ledger := by
      rw [Deployment.ledger, deployed_live]
    rw [hledger]
    exact .of_mints rfl
  · rintro ⟨⟩

theorem investedTrace_outward : ProgramOutward investedTrace := by
  intro x hx
  rcases List.mem_pair.mp hx with rfl | rfl
  · exact trivial
  · exact silent_outward

/-- The user's deposit, from the deployment on. -/
theorem invested_reached : ∃ tr, Run (ProgramStep routeRuntime) (.genesis ground) tr invested ∧
    ProgramOutward tr ∧ AuthoritySpared tr := by
  obtain ⟨tr, hrun, hevents⟩ := deployed_run
  refine ⟨_, hrun.append invested_run, ?_, ?_⟩
  · intro x hx
    rcases List.mem_append.mp hx with hx | hx
    · exact deployEvents_outward _ (hevents ▸ List.mem_map_of_mem hx)
    · exact investedTrace_outward x hx
  · intro x hx
    rcases List.mem_append.mp hx with hx | hx
    · exact deployEvents_spared _ (hevents ▸ List.mem_map_of_mem hx) _
    · exact investedTrace_spared x hx

theorem redeemed_run : ∃ tr, Run (ProgramStep routeRuntime) (.genesis ground) tr
    (redeemed.tick later) ∧ ProgramOutward tr := by
  obtain ⟨tr, hrun, hout, -⟩ := invested_reached
  have hredeem : redeemIx.submit wincode routeRuntime silent invested = .ok redeemed :=
    eq_okValue _
  have hix : Client.redeem wincode user investedLive.world.vaultKey userShares
      investedLive.world.vault.shareMint userBase ticket 0 500000 = some redeemIx :=
    (Option.some_get _).symm
  rw [Client.submit_new hix] at hredeem
  have hcall : ProgramStep routeRuntime invested (.call (.redeem _) _ silent) redeemed :=
    ⟨fun _ _ => silent_neverMints _, hredeem⟩
  exact exists_run_tick hrun hout hcall silent_outward later

def redeemedLive : Live := (redeemed.tick later).live?.get (by decide +kernel)

theorem redeemed_live : (redeemed.tick later).stage = .live redeemedLive :=
  live?_eq_some.mp (Option.some_get _).symm

def openTicket : WithdrawalTicket :=
  (redeemedLive.world.tickets.lookup ticket).get (by decide +kernel)

/-- The cancel of the ticket that is there. -/
def againIx : RawInstruction :=
  (Client.cancelRedeem wincode openTicket.owner redeemedLive.world.vaultKey ticket
    redeemedLive.world.vault.shareMint userShares 500000).get (by decide +kernel)

theorem againIx_eq : Client.cancelRedeem wincode openTicket.owner redeemedLive.world.vaultKey ticket
    redeemedLive.world.vault.shareMint userShares 500000 = some againIx :=
  (Option.some_get _).symm

end Sample

theorem cancel_iff_redeemed : ∃ ledger,
    Cancellable Sample.redeemedLive.world Sample.openTicket Sample.userShares 500000 ledger := by
  obtain ⟨tr, hrun, hout⟩ := Sample.redeemed_run
  exact (cancel_iff (o := Sample.silent) hrun hout Sample.redeemed_live (Option.some_get _).symm
    Sample.againIx_eq).mp ⟨_, eq_okValue (by decide +kernel)⟩

theorem cancel_undoes_redeem_invested :
    Sample.cancelIx.submit Sample.wincode Sample.routeRuntime Sample.silent
      (Sample.redeemed.tick Sample.later) = .ok (Sample.invested.tick Sample.later) := by
  obtain ⟨tr, hrun, hout, hspared⟩ := Sample.invested_reached
  refine cancel_undoes_redeem hrun hout hspared Sample.invested_live (Option.some_get _).symm
    (Option.some_get _).symm (eq_okValue _) ⟨?_, ?_, ?_, ?_⟩
  · have hown : (Sample.investedLive.world.ledger.accounts Sample.userShares).any (fun a =>
        decide (a.owner = Sample.user ∧ a.delegate ≠ some Sample.user)) = true := by
      decide +kernel
    obtain ⟨a, ha, howner⟩ := (Option.any_eq_true _ _).mp hown
    exact ⟨a, ha, of_decide_eq_true howner⟩
  · decide +kernel
  · decide +kernel
  · decide +kernel

end Roshi

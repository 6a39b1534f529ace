import Roshi.Invariants

/-!
# What backs the claims

Two questions about tokens rather than shares.  Does a deposit bring in what it is
credited for?  `Deposit` does not compare the accounts it is handed, so the answer
depends on whether custody is also the source or the share account
(`deposit_backed_iff`).

Does settlement ever pay out more than it retires?  `World.exposure` is what the
record owes beyond the base idle in custody; redeems, cancels, batches, fee
collection, write-downs and atomic exits never raise it, wherever they pay from and
to (`exposure_le_of_run`).
-/

namespace Roshi

open Lib

variable {rt : Runtime} {w w' : World} {accounts : List AccountInfo} {tr : Trace}

/-! ### Deposits -/

/-- Custody gained the amount, and a base deposit is booked at the amount. -/
structure DepositBacked (w w' : World) (c : DepositContext) (args : DepositArgs) : Prop where
  custody : (w'.ledger.balance c.custody.key).toNat =
    (w.ledger.balance c.custody.key).toNat + args.amount.toNat
  total : args.assetMint = w.vault.baseMint →
    w'.vault.totalAssets.toNat = w.vault.totalAssets.toNat + args.amount.toNat

/-- The deposit's price makes its shares as many atoms as were deposited. -/
def MintsAmount (rt : Runtime) (w : World) (c : DepositContext) (args : DepositArgs) : Prop :=
  ∃ base E S : U64, c.resolveBaseAtoms rt w args = .ok base ∧
    w.vault.effectiveTotalAssets w.clock.unixTimestamp = .ok E ∧
    w.vault.economicShareSupply w.shareSupply = .ok S ∧
    sharesForDeposit base E S w.vault.baseDecimals = .ok args.amount

/-- Where custody stands among the accounts of a deposit. -/
def CustodyApart (rt : Runtime) (w : World) (c : DepositContext) (args : DepositArgs) : Prop :=
  (c.source.key ≠ c.custody.key ∧ c.shareDest.key ≠ c.custody.key) ∨
    (c.source.key = c.custody.key ∧ c.shareDest.key = c.custody.key ∧ MintsAmount rt w c args)

/-- The balance of custody through the transfer and the mint. -/
theorem custody_after {l₀ l l' : Ledger} {tp sp mint source custody dest auth auth' : Pubkey}
    {amount shares : U64} (hl : Spl.transfer l₀ tp source custody auth amount = .ok l)
    (hl' : Spl.mintTo l sp mint dest auth' shares = .ok l') :
    (l'.balance custody).toNat = (l₀.balance custody).toNat +
      (if source = custody then 0 else amount.toNat) +
      (if dest = custody then shares.toNat else 0) := by
  have hmint := (Spl.mintTo_spec hl').2 custody
  obtain ⟨-, hself, hmove⟩ := Spl.transfer_spec hl
  by_cases hs : source = custody
  · rw [hmint, hself hs, if_pos hs, Nat.add_zero]
    simp only [eq_comm]
  · have hbal := hmove hs custody
    rw [if_neg (Ne.symm hs), if_pos rfl, Nat.add_zero] at hbal
    rw [hmint, hbal, if_neg hs]
    simp only [eq_comm]

/-- **When a deposit is backed.**  A successful deposit raises custody by exactly its amount
if and only if custody is neither its source nor its share account (or both, at a price
that mints the amount). -/
theorem deposit_backed_iff {c : DepositContext} {args : DepositArgs}
    (hc : DepositContext.load rt w accounts = .ok c)
    (h : tryDeposit rt w accounts args = .ok w') :
    DepositBacked w w' c args ↔ CustodyApart rt w c args := by
  simp only [tryDeposit, bind_eq_ok] at h
  obtain ⟨_, -, c', hc', h⟩ := h
  obtain rfl : c = c' := Except.ok.inj (hc.symm.trans hc')
  obtain ⟨base, S, E, shares, total, l, l', hbase, hS, hE, hshares, htotal, hl, hl', rfl⟩ :=
    executeDeposit_spec (DepositContext.load_spec hc) h
  obtain ⟨-, -, hs0, hs⟩ := sharesForDeposit_eq_ok.mp hshares
  -- shares were minted, so something was deposited
  have ha0 : args.amount.toNat ≠ 0 := by
    intro ha
    rw [resolveBaseAtoms_zero hbase ha, Nat.zero_mul, Nat.zero_div] at hs
    exact hs0 hs
  have hbooked : args.assetMint = w.vault.baseMint → base.toNat = args.amount.toNat := by
    intro hm
    rw [DepositContext.resolveBaseAtoms, (DepositContext.load_spec hc).vault_eq, if_pos hm] at hbase
    simp only [bind_eq_ok, Except.ok.injEq] at hbase
    obtain ⟨_, -, rfl⟩ := hbase
    rfl
  have hafter := custody_after hl hl'
  have hcust : DepositBacked w { w with ledger := l', vault := { w.vault with totalAssets := total } }
      c args ↔ (if c.source.key = c.custody.key then 0 else args.amount.toNat) +
        (if c.shareDest.key = c.custody.key then shares.toNat else 0) = args.amount.toNat := by
    constructor
    · intro hb
      have hcustody : (l'.balance c.custody.key).toNat = _ := hb.custody
      omega
    · intro heq
      refine ⟨?_, fun hm => ?_⟩
      · show (l'.balance c.custody.key).toNat = _
        omega
      · show total.toNat = _
        rw [htotal, hbooked hm]
  have hmints : MintsAmount rt w c args ↔ shares.toNat = args.amount.toNat := by
    have hS' : w.vault.economicShareSupply w.shareSupply = .ok S :=
      Vault.economicShareSupply_eq_ok.mpr hS
    constructor
    · rintro ⟨base', E', S', hbase', hE', hS'', hm⟩
      obtain rfl : base = base' := Except.ok.inj (hbase.symm.trans hbase')
      obtain rfl : E = E' := Except.ok.inj (hE.symm.trans hE')
      obtain rfl : S = S' := Except.ok.inj (hS'.symm.trans hS'')
      rw [Except.ok.inj (hshares.symm.trans hm)]
    · intro heq
      exact ⟨base, E, S, hbase, hE, hS', by rw [hshares, BitVec.eq_of_toNat_eq heq]⟩
  rw [hcust, CustodyApart, hmints]
  by_cases hsrc : c.source.key = c.custody.key <;>
    by_cases hdst : c.shareDest.key = c.custody.key <;> simp [hsrc, hdst] <;> omega

namespace Sample

/-- Custody with an approval for the user, as in the middle of a flash loan. -/
def approvedCustody : TokenAccount :=
  { tokenAccount baseMint subAccount 1000000 with
    delegate := some user
    delegatedAmount := 1000000 }

/-- The vault after one deposit. -/
def deposited : World := start.afterAll runtime [openShares start.ledger, deposit 1000000]

def delegated : World :=
  { deposited with ledger := deposited.ledger.setAccount custody approvedCustody }

def depositFrom (source : Pubkey) : List AccountInfo :=
  [signer user, writable vaultKey, writable source, writable custody, writable userShares,
    writable shareMint, readonly TOKEN_PROGRAM_ID, readonly TOKEN_PROGRAM_ID]

def depositArgs : DepositArgs :=
  { assetMint := baseMint, amount := 500000, minSharesOut := 0, accessProof := [] }

end Sample

theorem deposit_backed_iff_userBase :
    ∃ c w', DepositContext.load Sample.runtime Sample.delegated (Sample.depositFrom Sample.userBase)
        = .ok c ∧
      tryDeposit Sample.runtime Sample.delegated (Sample.depositFrom Sample.userBase)
        Sample.depositArgs = .ok w' ∧
      (DepositBacked Sample.delegated w' c Sample.depositArgs ↔
        CustodyApart Sample.runtime Sample.delegated c Sample.depositArgs) :=
  ⟨_, _, eq_okValue (by decide +kernel), eq_okValue (by decide +kernel),
    deposit_backed_iff (eq_okValue _) (eq_okValue _)⟩

/-- **A deposit out of custody mints against nothing**: the transfer is to itself, the
shares and the booked assets are not. -/
theorem deposit_from_custody_unbacked :
    ∃ c w', DepositContext.load Sample.runtime Sample.delegated (Sample.depositFrom Sample.custody)
        = .ok c ∧
      tryDeposit Sample.runtime Sample.delegated (Sample.depositFrom Sample.custody)
        Sample.depositArgs = .ok w' ∧
      ¬ (w'.ledger.balance c.custody.key).toNat =
        (Sample.delegated.ledger.balance c.custody.key).toNat + Sample.depositArgs.amount.toNat ∧
      w'.shareSupply.toNat = Sample.delegated.shareSupply.toNat + 500000000 :=
  ⟨_, _, eq_okValue (by decide +kernel), eq_okValue (by decide +kernel), by decide +kernel,
    by decide +kernel⟩

/-! ### Idle base -/

section Idle

variable (rt) (program : Pubkey)

/-- The base atoms the deposit and withdraw ATAs of a vault hold, counted once when they
coincide. -/
def idleHeld (vaultKey : Pubkey) (v : Vault) (l : Ledger) : Nat :=
  let ata := fun index =>
    associatedTokenAddress rt (subAccountAddress rt vaultKey index).1 v.baseMint program
  l.held v.baseMint (ata v.depositSubAccount) +
    if ata v.withdrawSubAccount ≠ ata v.depositSubAccount then
      l.held v.baseMint (ata v.withdrawSubAccount)
    else 0

/-- What the record owes beyond the idle base; `program` is the base mint's token program. -/
def World.exposure (w : World) : Int :=
  (w.vault.totalAssets.toNat + w.vault.feesPayable.toNat + w.vault.pendingWithdrawalAssets.toNat :
    Int) - idleHeld rt program w.vaultKey w.vault w.ledger

/-- A settlement event: time, or one of six instructions, the unwind of an atomic redeem
leaving the idle base in place. -/
def Event.Settles (w : World) : Event → Prop
  | .tick _ => True
  | .instruction (.redeem ..) => True
  | .instruction (.cancelRedeem ..) => True
  | .instruction (.processWithdrawals ..) => True
  | .instruction (.collectFees ..) => True
  | .instruction (.writeDownFees ..) => True
  | .instruction (.atomicRedeem _ _ _ call) => ∀ w₁, callRun rt w call = .ok w₁ →
    idleHeld rt program w.vaultKey w.vault w.ledger ≤
      idleHeld rt program w.vaultKey w.vault w₁.ledger
  | _ => False

end Idle

variable {program key : Pubkey} {v : Vault} {l l' : Ledger}

/-- Holdings that only fall at one address make idle base fall by no more. -/
theorem idleHeld_le (source : Pubkey) {n : Nat}
    (h : ∀ k, l.held v.baseMint k ≤ l'.held v.baseMint k + if k = source then n else 0) :
    idleHeld rt program key v l ≤ idleHeld rt program key v l' + n := by
  unfold idleHeld
  set d := associatedTokenAddress rt (subAccountAddress rt key v.depositSubAccount).1 v.baseMint
    program
  set x := associatedTokenAddress rt (subAccountAddress rt key v.withdrawSubAccount).1 v.baseMint
    program
  have hd := h d
  have hx := h x
  show l.held v.baseMint d + (if x ≠ d then l.held v.baseMint x else 0) ≤
    l'.held v.baseMint d + (if x ≠ d then l'.held v.baseMint x else 0) + n
  by_cases hxd : x = d
  · rw [if_neg (not_not.mpr hxd), if_neg (not_not.mpr hxd)]
    split at hd <;> omega
  · rw [if_pos hxd, if_pos hxd]
    -- the source is at most one of the two
    by_cases hs : d = source
    · rw [if_pos hs] at hd
      rw [if_neg (fun hxs => hxd (hxs.trans hs.symm))] at hx
      omega
    · rw [if_neg hs] at hd
      split at hx <;> omega

theorem idleHeld_mono (h : ∀ k, l.held v.baseMint k ≤ l'.held v.baseMint k) :
    idleHeld rt program key v l ≤ idleHeld rt program key v l' := by
  refine idleHeld_le key (n := 0) ?_
  intro k
  have := h k
  split <;> omega

theorem idleHeld_transfer {tp source destination authority : Pubkey} {amount : U64}
    (h : Spl.transfer l tp source destination authority amount = .ok l') :
    idleHeld rt program key v l ≤ idleHeld rt program key v l' + amount.toNat :=
  idleHeld_le source fun k => Spl.transfer_held h v.baseMint k

/-- Paying a batch takes at most the sum of its payouts out of idle base. -/
theorem idleHeld_settleAll {tp custody sub : AccountInfo}
    {tickets tickets' : Table Pubkey WithdrawalTicket}
    {batch : List TicketSettlement}
    (h : settleAll tp custody sub l tickets batch = .ok (l', tickets')) :
    idleHeld rt program key v l ≤ idleHeld rt program key v l' + (owedTo batch).sum := by
  induction batch generalizing l tickets with
  | nil =>
    cases h
    exact Nat.le_add_right _ _
  | cons s batch ih =>
    simp only [settleAll, transferSigned, bind_eq_ok] at h
    obtain ⟨l₁, ⟨_, -, hl₁⟩, h⟩ := h
    have hfirst : idleHeld rt program key v l ≤ idleHeld rt program key v l₁ + _ :=
      idleHeld_transfer hl₁
    have hrest := ih h
    simp only [owedTo, List.map_cons, List.sum_cons] at hrest ⊢
    omega

/-! ### One settlement step -/

/-- The record keeps the fields that say where its custody is. -/
structure Vault.SameCustody (v v' : Vault) : Prop where
  baseMint : v'.baseMint = v.baseMint
  depositSubAccount : v'.depositSubAccount = v.depositSubAccount
  withdrawSubAccount : v'.withdrawSubAccount = v.withdrawSubAccount

theorem Vault.SameCustody.idleHeld_eq {v' : Vault} (h : v.SameCustody v') :
    idleHeld rt program key v' l = idleHeld rt program key v l := by
  rw [idleHeld, idleHeld, h.baseMint, h.depositSubAccount, h.withdrawSubAccount]

/-- A step that retires `n` of claims may take `n` out of idle base. -/
theorem exposure_le {n : Nat} (hkey : w'.vaultKey = w.vaultKey) (hc : w.vault.SameCustody w'.vault)
    (hclaims : w'.vault.totalAssets.toNat + w'.vault.feesPayable.toNat +
        w'.vault.pendingWithdrawalAssets.toNat + n ≤
      w.vault.totalAssets.toNat + w.vault.feesPayable.toNat + w.vault.pendingWithdrawalAssets.toNat)
    (hidle : idleHeld rt program w.vaultKey w.vault w.ledger ≤
      idleHeld rt program w.vaultKey w.vault w'.ledger + n) :
    w'.exposure rt program ≤ w.exposure rt program := by
  simp only [World.exposure]
  rw [hkey, hc.idleHeld_eq]
  omega

theorem tryRedeem_exposure {args : RedeemArgs} (h : tryRedeem rt w accounts args = .ok w') :
    w'.exposure rt program ≤ w.exposure rt program := by
  obtain ⟨c, l, requested, hc, -, hl, -, rfl⟩ := tryRedeem_spec h
  refine exposure_le (n := 0) rfl ⟨rfl, rfl, rfl⟩ le_rfl (idleHeld_mono ?_)
  exact Spl.burn_held hl hc.wellFormed.baseMint_ne_shareMint

theorem tryCancelRedeem_exposure {minSharesOut : U64}
    (h : tryCancelRedeem rt w accounts minSharesOut = .ok w') :
    w'.exposure rt program ≤ w.exposure rt program := by
  obtain ⟨c, l, requested, -, hl, -, rfl⟩ := tryCancelRedeem_spec h
  refine exposure_le (n := 0) rfl ⟨rfl, rfl, rfl⟩ le_rfl (idleHeld_mono ?_)
  exact Spl.mintTo_held hl w.vault.baseMint

theorem tryProcessWithdrawals_exposure (ho : w.OpenTickets)
    (h : tryProcessWithdrawals rt w accounts = .ok w') :
    w'.exposure rt program ≤ w.exposure rt program := by
  obtain ⟨c, v₁, v', settled, batch, l, -, hst, hsettle, -, hv', hpend, -, rfl⟩ :=
    tryProcessWithdrawals_spec (fun k t hl => (ho k t hl).1) h
  rw [hpend] at hv'
  have hfees : v₁.feesPayable = w.vault.feesPayable := hst.frame.eq fun _ => rfl
  have htotal := hst.total
  refine exposure_le rfl ⟨?_, ?_, ?_⟩ ?_ (idleHeld_settleAll hsettle)
  · rw [hv']
    exact hst.frame.eq (f := Vault.baseMint) fun _ => rfl
  · rw [hv']
    exact hst.frame.eq (f := Vault.depositSubAccount) fun _ => rfl
  · rw [hv']
    exact hst.frame.eq (f := Vault.withdrawSubAccount) fun _ => rfl
  · rw [hv']
    show v₁.totalAssets.toNat + v₁.feesPayable.toNat + w.vault.pendingWithdrawalAssets.toNat + _ ≤ _
    rw [hfees]
    omega

theorem tryCollectFees_exposure {subAccount : U8} {amount : U64}
    (h : tryCollectFees rt w accounts subAccount amount = .ok w') :
    w'.exposure rt program ≤ w.exposure rt program := by
  obtain ⟨_, _, _, _, l, fees, hl, hfees, -, rfl⟩ := tryCollectFees_spec h
  refine exposure_le (n := amount.toNat) rfl ⟨rfl, rfl, rfl⟩ ?_ (idleHeld_transfer hl)
  show w.vault.totalAssets.toNat + fees.toNat + w.vault.pendingWithdrawalAssets.toNat + _ ≤ _
  omega

theorem tryWriteDownFees_exposure {amount : U64}
    (h : tryWriteDownFees rt w accounts amount = .ok w') :
    w'.exposure rt program ≤ w.exposure rt program := by
  simp only [tryWriteDownFees, bind_eq_ok] at h
  obtain ⟨_, -, h⟩ := h
  obtain ⟨v', hv', -, rfl⟩ := updateWritableVaultAsAdmin_spec h
  simp only [bind_eq_ok, okOr_eq_ok, checkedSub_eq_some, Except.ok.injEq] at hv'
  obtain ⟨fees, hfees, rfl⟩ := hv'
  refine exposure_le (n := 0) rfl ⟨rfl, rfl, rfl⟩ ?_ le_rfl
  show w.vault.totalAssets.toNat + fees.toNat + w.vault.pendingWithdrawalAssets.toNat + 0 ≤ _
  omega

/-- An atomic redeem stores the claims it loaded less the payout, whatever it calls. -/
theorem tryAtomicRedeem_exposure {args : AtomicRedeemArgs} {relay : Relay}
    (hkey : ∀ w₁, relay.run w = .ok w₁ → w₁.vaultKey = w.vaultKey)
    (hrelay : ∀ w₁, relay.run w = .ok w₁ → idleHeld rt program w.vaultKey w.vault w.ledger ≤
      idleHeld rt program w.vaultKey w.vault w₁.ledger)
    (h : tryAtomicRedeem rt w accounts args relay = .ok w') :
    w'.exposure rt program ≤ w.exposure rt program := by
  obtain ⟨c, S, E, owed, received, payout, w₁, l₂, l₃, v', hc, -, -, -, -, hrun, -, -, -, hl₂, hl₃,
    hv', -, rfl⟩ := tryAtomicRedeem_spec h
  obtain ⟨r, total, -, -, htotal, rfl⟩ := Vault.debit_spec.mp hv'
  have h₁ := hrelay w₁ hrun
  have h₂ : idleHeld rt program w.vaultKey w.vault w₁.ledger ≤
      idleHeld rt program w.vaultKey w.vault l₂ + payout.toNat := idleHeld_transfer hl₂
  have h₃ : idleHeld rt program w.vaultKey w.vault l₂ ≤ idleHeld rt program w.vaultKey w.vault l₃ :=
    idleHeld_mono (Spl.burn_held hl₃ hc.wellFormed.baseMint_ne_shareMint)
  have hidle : idleHeld rt program w.vaultKey w.vault w.ledger ≤
      idleHeld rt program w.vaultKey w.vault l₃ + payout.toNat := by omega
  refine exposure_le (n := payout.toNat) (hkey w₁ hrun) ⟨rfl, rfl, rfl⟩ ?_ hidle
  show total.toNat + w.vault.feesPayable.toNat + w.vault.pendingWithdrawalAssets.toNat + _ ≤ _
  omega

theorem Step.exposure_le {e : Event} (ho : w.OpenTickets) (h : Step rt w e w')
    (hs : e.Settles rt program w) : w'.exposure rt program ≤ w.exposure rt program := by
  have happly := h.apply_eq
  cases e with
  | tick =>
    cases happly
    exact le_rfl
  | environment => exact hs.elim
  | instruction i =>
    cases i with
    | redeem => exact tryRedeem_exposure happly
    | cancelRedeem => exact tryCancelRedeem_exposure happly
    | processWithdrawals => exact tryProcessWithdrawals_exposure ho happly
    | collectFees => exact tryCollectFees_exposure happly
    | writeDownFees => exact tryWriteDownFees_exposure happly
    | atomicRedeem accounts args authorize call =>
      have hkey : ∀ w₁, (call.relay rt authorize).run w = .ok w₁ → w₁.vaultKey = w.vaultKey :=
        fun w₁ hrun => (callRun_kept call h.admissible ho hrun).vaultKey
      exact tryAtomicRedeem_exposure hkey hs happly
    | _ => exact hs.elim

/-! ### Whole runs of settlement -/

/-- **Claims never outgrow backing through settlement.**  From any reachable state, a run of
settlement events never raises what the record owes beyond its idle base. -/
theorem exposure_le_of_run (hw : Reachable rt w) (hrun : Run (Step rt) w tr w')
    (hs : ∀ x ∈ tr, x.event.Settles rt program x.pre) :
    w'.exposure rt program ≤ w.exposure rt program := by
  have hend := hrun.invariant
    (P := fun u => Standing u ∧ u.exposure rt program ≤ w.exposure rt program)
    ⟨hw.standing, le_rfl⟩ ?_
  · exact hend.2
  · rintro x hx hstep ⟨hsx, hle⟩
    exact ⟨hsx.step hstep, (hstep.exposure_le hsx.openTickets (hs x hx)).trans hle⟩

/-- A called `Redeem` burns shares only. -/
theorem idleHeld_called_redeem {args : RedeemArgs}
    (h : callRun rt w (.own (.redeem accounts args) .done) = .ok w') :
    idleHeld rt program w.vaultKey w.vault w.ledger ≤
      idleHeld rt program w.vaultKey w.vault w'.ledger := by
  obtain ⟨w₁, hredeem, hdone⟩ := bind_eq_ok.mp h
  cases hdone
  obtain ⟨c, l, requested, hc, -, hl, -, rfl⟩ := tryRedeem_spec hredeem
  exact idleHeld_mono (Spl.burn_held hl hc.wellFormed.baseMint_ne_shareMint)

namespace Sample

/-- A ticket to strike, and fees from the second report. -/
def settleSetup : List Event :=
  [openRoutes start.ledger, deposit 1000000, .instruction (depositInto otherShares 500000),
    redeem 500000000, tick 2000 1700001000, reportNav 100, reportNav 5000]

def settling : World := start.afterAll runtime settleSetup

def collectFees (amount : U64) : Event := .instruction (.collectFees
  [signer admin, writable vaultKey, readonly subAccount, writable custody, writable treasury,
    readonly TOKEN_PROGRAM_ID] 0 amount)

/-- A strike, a collection of fees, and an atomic redeem that calls `Redeem`. -/
def settleEvents : List Event := [processWithdrawals, collectFees 100, ownRedeem]

theorem settling_reachable : Reachable runtime settling :=
  ⟨start, _, start_initial, run_traceOf (by decide +kernel)
    ⟨openRoutes_admissible _, trivial, trivial, trivial, trivial, trivial, trivial, trivial⟩⟩

end Sample

theorem exposure_le_of_run_settling :
    (Sample.settling.afterAll Sample.runtime Sample.settleEvents).exposure Sample.runtime
        TOKEN_PROGRAM_ID ≤
      Sample.settling.exposure Sample.runtime TOKEN_PROGRAM_ID := by
  refine exposure_le_of_run Sample.settling_reachable
    (run_traceOf (by decide +kernel) ⟨trivial, trivial, ⟨trivial, trivial⟩, trivial⟩) ?_
  intro x hx
  simp only [Sample.settleEvents, traceOf, List.mem_cons, List.not_mem_nil, or_false] at hx
  rcases hx with rfl | rfl | rfl
  · trivial
  · trivial
  · exact fun w₁ hcall => idleHeld_called_redeem hcall

end Roshi

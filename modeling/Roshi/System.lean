import Roshi.Instructions.Admin
import Roshi.Instructions.AtomicRedeem
import Roshi.Instructions.InitializeVault
import Roshi.Instructions.ProcessWithdrawals
import Roshi.Instructions.Redeem
import Roshi.Instructions.ReportNav
import Roshi.Lib.Run

/-!
# The system

`processor.rs` as a transition system.  `Instruction` lists every instruction that
writes the vault record or its tickets, `exec` dispatches on it.  A failed
instruction is rolled back by the runtime, so only successful ones are steps.

Two of them relay a call.  `Call` is what the called program does: the work of other
programs, and instructions of the program itself, which `exec` runs.  `DepositAndDeploy`
has stored its record before it calls and stores nothing after, so an instruction it calls
is a step of its own (`ReachableForward.exec`).  `AtomicRedeem` stores the record it loaded before
the call, over whatever the call stored: there the call is part of the step, and
`Event.outward` says that it runs other programs only.

Between instructions the clock moves (`tick`) and everybody else acts
(`environment`): other programs, holders burning their own shares, the strategist's
`Manage` and `Swap`, registrations.  None of them writes the record or a ticket, and the
share mint's only authority is the vault, so the record and the tickets stay and the share
mint can only be burned from.  An instruction that `Manage` or `Swap` calls in the program
is a step between two of the environment's.
-/

namespace Roshi

open Lib

mutual

inductive Instruction where
  | deposit (accounts : List AccountInfo) (args : DepositArgs)
  | depositAndDeploy (accounts : List AccountInfo) (args : DepositAndDeployArgs)
      (authorize : ProgramResult Unit) (call : Call)
  | redeem (accounts : List AccountInfo) (args : RedeemArgs)
  | cancelRedeem (accounts : List AccountInfo) (minSharesOut : U64)
  | processWithdrawals (accounts : List AccountInfo)
  | atomicRedeem (accounts : List AccountInfo) (args : AtomicRedeemArgs)
      (authorize : ProgramResult Unit) (call : Call)
  | reportNav (accounts : List AccountInfo) (args : NavReport)
  | recoverNav (accounts : List AccountInfo) (args : NavReport)
  | collectFees (accounts : List AccountInfo) (subAccount : U8) (amount : U64)
  | writeDownFees (accounts : List AccountInfo) (amount : U64)
  | investExternal (accounts : List AccountInfo) (subAccount : U8) (amount : U64)
  | returnExternal (accounts : List AccountInfo) (subAccount : U8) (amount : U64)
  | updateVaultConfig (accounts : List AccountInfo) (args : UpdateVaultConfigArgs)
  | setPauseFlags (accounts : List AccountInfo) (deposits withdrawals manage : Bool)
  | setVaultAccess (accounts : List AccountInfo) (isPrivate : Bool) (accessMerkleRoot : Bytes 32)
  | setStrategist (accounts : List AccountInfo) (strategist : Pubkey)
  | setSwapAuthority (accounts : List AccountInfo) (swapAuthority : Pubkey)
  | setNavAuthority (accounts : List AccountInfo) (navAuthority : Pubkey)
  | setWithdrawalAuthority (accounts : List AccountInfo) (withdrawalAuthority : Pubkey)
  | transferVaultAuthority (accounts : List AccountInfo) (newAuthority : Pubkey)

/-- What a relayed call does before it returns: work of other programs, and instructions of
the program itself. -/
inductive Call where
  | done
  | other (run : Environment → ProgramResult Environment) (rest : Call)
  | own (i : Instruction) (rest : Call)

end

variable (rt : Runtime)

mutual

/-- `process_instruction`. -/
def exec (w : World) : Instruction → ProgramResult World
  | .deposit accounts args => tryDeposit rt w accounts args
  | .depositAndDeploy accounts args authorize call =>
    tryDepositAndDeploy rt w accounts args ⟨authorize, fun w => callRun w call⟩
  | .redeem accounts args => tryRedeem rt w accounts args
  | .cancelRedeem accounts minSharesOut => tryCancelRedeem rt w accounts minSharesOut
  | .processWithdrawals accounts => tryProcessWithdrawals rt w accounts
  | .atomicRedeem accounts args authorize call =>
    tryAtomicRedeem rt w accounts args ⟨authorize, fun w => callRun w call⟩
  | .reportNav accounts args => tryReportNav rt w accounts args
  | .recoverNav accounts args => tryRecoverNav rt w accounts args
  | .collectFees accounts subAccount amount => tryCollectFees rt w accounts subAccount amount
  | .writeDownFees accounts amount => tryWriteDownFees rt w accounts amount
  | .investExternal accounts subAccount amount => tryInvestExternal rt w accounts subAccount amount
  | .returnExternal accounts subAccount amount => tryReturnExternal rt w accounts subAccount amount
  | .updateVaultConfig accounts args => tryUpdateVaultConfig rt w accounts args
  | .setPauseFlags accounts d x m => trySetPauseFlags rt w accounts d x m
  | .setVaultAccess accounts p root => trySetVaultAccess rt w accounts p root
  | .setStrategist accounts key => trySetStrategist rt w accounts key
  | .setSwapAuthority accounts key => trySetSwapAuthority rt w accounts key
  | .setNavAuthority accounts key => trySetNavAuthority rt w accounts key
  | .setWithdrawalAuthority accounts key => trySetWithdrawalAuthority rt w accounts key
  | .transferVaultAuthority accounts key => tryTransferVaultAuthority rt w accounts key

/-- The called program at work. -/
def callRun (w : World) : Call → ProgramResult World
  | .done => .ok w
  | .other run rest => do
    let env ← run w.environment
    callRun (w.under env) rest
  | .own i rest => do
    let w ← exec w i
    callRun w rest

end

/-- The call as the relaying instruction meets it. -/
def Call.relay (authorize : ProgramResult Unit) (call : Call) : Relay where
  authorize := authorize
  run w := callRun rt w call

/-- A call of one other program, at work on the token ledger. -/
def Call.ledger (run : Ledger → ProgramResult Ledger) : Call :=
  .other (fun env => do
    let ledger ← run env.ledger
    .ok { env with ledger }) .done

mutual

/-- No other program called by the instruction mints `mint`. -/
def Instruction.NeverMints (mint : Pubkey) : Instruction → Prop
  | .depositAndDeploy _ _ _ call => call.NeverMints mint
  | .atomicRedeem _ _ _ call => call.NeverMints mint
  | _ => True

def Call.NeverMints (mint : Pubkey) : Call → Prop
  | .done => True
  | .other run rest =>
    (∀ env env', run env = .ok env' → Ledger.MintKept mint env.ledger env'.ledger) ∧
      rest.NeverMints mint
  | .own i rest => i.NeverMints mint ∧ rest.NeverMints mint

end

/-- The call runs other programs only. -/
def Call.outward : Call → Bool
  | .done => true
  | .other _ rest => rest.outward
  | .own _ _ => false

def Instruction.outward : Instruction → Bool
  | .depositAndDeploy _ _ _ call => call.outward
  | .atomicRedeem _ _ _ call => call.outward
  | _ => true

inductive Event where
  | instruction (i : Instruction)
  | tick (clock : Clock)
  | environment (env : Environment)

def apply (w : World) : Event → ProgramResult World
  | .instruction i => exec rt w i
  | .tick clock => .ok { w with clock }
  | .environment env => .ok (w.under env)

/-- Nobody but the vault mints `mint`; and what a deployment calls in the program is a step of
its own. -/
def Instruction.Admissible (mint : Pubkey) : Instruction → Prop
  | .depositAndDeploy _ _ _ call => call.NeverMints mint ∧ call.outward = true
  | .atomicRedeem _ _ _ call => call.NeverMints mint
  | _ => True

def Event.Admissible (w : World) : Event → Prop
  | .instruction i => i.Admissible w.vault.shareMint
  | .tick _ => True
  | .environment env => Ledger.MintKept w.vault.shareMint w.ledger env.ledger

/-- The event is no atomic redeem that calls the program itself. -/
def Event.outward : Event → Bool
  | .instruction i => i.outward
  | _ => true

structure Step (w : World) (e : Event) (w' : World) : Prop where
  admissible : e.Admissible w
  apply_eq : apply rt w e = .ok w'

/-- A step whose call, if it makes one, runs other programs only. -/
structure OutwardStep (w : World) (e : Event) (w' : World) : Prop extends Step rt w e w' where
  outward : e.outward = true

/-- The world after the runtime has processed `e`: a failed instruction is rolled back. -/
def World.after (w : World) (e : Event) : World :=
  match apply rt w e with
  | .ok w' => w'
  | .error _ => w

abbrev Trace := List (Transition World Event)

/-- A vault just initialized. -/
def Initial (w : World) : Prop :=
  ∃ g accounts args, tryInitializeVault rt g accounts args = .ok w

/-- No step of the trace moves the clock back. -/
def Forward (tr : Trace) : Prop :=
  ∀ x ∈ tr, x.pre.clock.unixTimestamp.toInt ≤ x.post.clock.unixTimestamp.toInt

/-- No atomic redeem of the trace calls the program itself. -/
def Outward (tr : Trace) : Prop := ∀ x ∈ tr, x.event.outward = true

/-- Some run from `InitializeVault` ends here. -/
def Reachable (w : World) : Prop :=
  ∃ w₀ tr, Initial rt w₀ ∧ Run (Step rt) w₀ tr w

/-- Some run from `InitializeVault` with a clock that never goes back ends here. -/
def ReachableForward (w : World) : Prop :=
  ∃ w₀ tr, Initial rt w₀ ∧ Run (Step rt) w₀ tr w ∧ Forward tr

/-- The same, by a run whose atomic redeems call other programs only. -/
def ReachableOutward (w : World) : Prop :=
  ∃ w₀ tr, Initial rt w₀ ∧ Run (Step rt) w₀ tr w ∧ Forward tr ∧ Outward tr

/-! ### Kinds of instructions -/

/-- The kinds a step on the books can have: those that move shares or NAV, and the rest. -/
inductive Kind where
  | deposit
  | redeem
  | cancelRedeem
  | processWithdrawals
  | atomicRedeem
  | report
  | quiet
  deriving DecidableEq, Repr

def Instruction.kind : Instruction → Kind
  | .deposit .. => .deposit
  | .depositAndDeploy .. => .deposit
  | .redeem .. => .redeem
  | .cancelRedeem .. => .cancelRedeem
  | .processWithdrawals .. => .processWithdrawals
  | .atomicRedeem .. => .atomicRedeem
  | .reportNav .. => .report
  | .recoverNav .. => .report
  | _ => .quiet

def Event.kind : Event → Kind
  | .instruction i => i.kind
  | _ => .quiet

/-! ### Calls -/

variable {rt} {w w' : World} {tr : Trace}

/-- A call that runs other programs only leaves the records. -/
theorem callRun_outward {mint : Pubkey} : ∀ {call : Call} {w w' : World},
    call.outward = true → call.NeverMints mint → callRun rt w call = .ok w' →
      ∃ env, w' = w.under env ∧ Ledger.MintKept mint w.ledger env.ledger
  | .done, w, _, _, _, h => by
    cases h
    exact ⟨w.environment, rfl, .refl _ _⟩
  | .other run rest, w, w', hout, hm, h => by
    obtain ⟨env, hrun, h⟩ := bind_eq_ok.mp h
    have hrest : rest.outward = true := hout
    obtain ⟨env', rfl, hkept⟩ := callRun_outward hrest hm.2 h
    exact ⟨env', rfl, (hm.1 _ _ hrun).trans hkept⟩
  | .own _ _, _, _, hout, _, _ => by cases hout

theorem Call.leavesRecords {mint : Pubkey} {authorize : ProgramResult Unit} {call : Call}
    (hout : call.outward = true) (hm : call.NeverMints mint) :
    (call.relay rt authorize).LeavesRecords mint :=
  fun _ _ h => callRun_outward hout hm h

theorem Call.relay_ledger (authorize : ProgramResult Unit) (run : Ledger → ProgramResult Ledger) :
    (Call.ledger run).relay rt authorize = .other authorize run := by
  simp only [Call.relay, Call.ledger, callRun, Relay.other, Relay.mk.injEq, true_and]
  funext w
  simp only [bind_assoc, ok_bind]
  rfl

/-- **What a deployment calls in the program runs after it**: nothing of the deposit is left
to do once the call starts. -/
theorem exec_depositAndDeploy (accounts : List AccountInfo) (args : DepositAndDeployArgs)
    (authorize : ProgramResult Unit) (call : Call) :
    exec rt w (.depositAndDeploy accounts args authorize call) =
      exec rt w (.depositAndDeploy accounts args authorize .done) >>= fun w =>
        callRun rt w call := by
  simp only [exec, tryDepositAndDeploy, callRun, bind_assoc, ok_bind]

theorem Instruction.Admissible.neverMints {mint : Pubkey} {i : Instruction}
    (h : i.Admissible mint) : i.NeverMints mint := by
  cases i with
  | depositAndDeploy => exact h.1
  | atomicRedeem => exact h
  | _ => trivial

/-! ### Runs and reachability -/

/-- An event that succeeds leads to `World.after`. -/
theorem Step.after {e : Event} (ha : e.Admissible w) (h : (apply rt w e).isOk = true) :
    Step rt w e (w.after rt e) := by
  refine ⟨ha, ?_⟩
  rw [World.after]
  cases hw : apply rt w e with
  | ok w' => rfl
  | error e => rw [hw] at h; cases h

theorem Forward.append {tr' : Trace} (h : Forward tr) (h' : Forward tr') : Forward (tr ++ tr') := by
  intro x hx
  rcases List.mem_append.mp hx with hx | hx
  · exact h x hx
  · exact h' x hx

theorem ReachableForward.reachable (h : ReachableForward rt w) : Reachable rt w := by
  obtain ⟨w₀, tr, h0, hrun, -⟩ := h
  exact ⟨w₀, tr, h0, hrun⟩

theorem ReachableOutward.forward (h : ReachableOutward rt w) : ReachableForward rt w := by
  obtain ⟨w₀, tr, h0, hrun, hf, -⟩ := h
  exact ⟨w₀, tr, h0, hrun, hf⟩

/-- A run without nested calls is one of outward steps. -/
theorem run_outward (hrun : Run (Step rt) w tr w') (hout : Outward tr) :
    Run (OutwardStep rt) w tr w' :=
  hrun.mono fun x hx hs => ⟨hs, hout x hx⟩

theorem run_of_outward (hrun : Run (OutwardStep rt) w tr w') : Run (Step rt) w tr w' ∧ Outward tr :=
  ⟨hrun.mono fun _ _ hs => hs.toStep, fun _ hx => (hrun.step_of_mem hx).outward⟩

theorem ReachableForward.run (h : ReachableForward rt w) (hrun : Run (Step rt) w tr w')
    (hf : Forward tr) : ReachableForward rt w' := by
  obtain ⟨w₀, tr₀, h0, hrun₀, hf₀⟩ := h
  exact ⟨w₀, tr₀ ++ tr, h0, hrun₀.append hrun, hf₀.append hf⟩

section Replay

variable (rt)

/-- The world after the runtime has processed a list of events. -/
def World.afterAll (w : World) : List Event → World
  | [] => w
  | e :: es => World.afterAll (w.after rt e) es

/-- The transitions on the way. -/
def traceOf (w : World) : List Event → Trace
  | [] => []
  | e :: es => ⟨w, e, w.after rt e⟩ :: traceOf (w.after rt e) es

/-- Every event of the list succeeds in its turn. -/
def allOk (w : World) : List Event → Bool
  | [] => true
  | e :: es => (apply rt w e).isOk && allOk (w.after rt e) es

/-- Every event of the list is admissible in its turn. -/
def AllAdmissible (w : World) : List Event → Prop
  | [] => True
  | e :: es => e.Admissible w ∧ AllAdmissible (w.after rt e) es

end Replay

/-- Events that all succeed make a run. -/
theorem run_traceOf {es : List Event} (hok : allOk rt w es = true) (ha : AllAdmissible rt w es) :
    Run (Step rt) w (traceOf rt w es) (w.afterAll rt es) := by
  induction es generalizing w with
  | nil => exact .nil w
  | cons e es ih =>
    rw [allOk, Bool.and_eq_true] at hok
    exact .cons (.after ha.1 hok.1) (ih hok.2 ha.2)

instance (tr : Trace) : Decidable (Forward tr) :=
  inferInstanceAs (Decidable (∀ x ∈ tr, _))

instance (tr : Trace) : Decidable (Outward tr) :=
  inferInstanceAs (Decidable (∀ x ∈ tr, _))

/-- **Invariant rule.**  What `InitializeVault` establishes and every step preserves holds
in every reachable state. -/
theorem Reachable.invariant {P : World → Prop} (h : Reachable rt w)
    (h0 : ∀ w, Initial rt w → P w) (hstep : ∀ w e w', Step rt w e w' → P w → P w') : P w := by
  obtain ⟨w₀, tr, hi, hrun⟩ := h
  exact hrun.invariant (h0 w₀ hi) fun x _ => hstep x.pre x.event x.post

/-- The same under a clock that never goes back. -/
theorem ReachableForward.invariant {P : World → Prop} (h : ReachableForward rt w)
    (h0 : ∀ w, Initial rt w → P w)
    (hstep : ∀ w e w', Step rt w e w' →
      w.clock.unixTimestamp.toInt ≤ w'.clock.unixTimestamp.toInt → P w → P w') : P w := by
  obtain ⟨w₀, tr, hi, hrun, hf⟩ := h
  exact hrun.invariant (h0 w₀ hi) fun x hx hs => hstep x.pre x.event x.post hs (hf x hx)

/-! ### A small chain

One vault with one sub-account and one user, for running the system on.  The derived
addresses are those of the real derivation for the seeds that occur. -/

namespace Sample

def baseMint : Pubkey := Vector.replicate 32 2

def user : Pubkey := Vector.replicate 32 3

/-- Holds every role. -/
def admin : Pubkey := Vector.replicate 32 4

def treasury : Pubkey := Vector.replicate 32 5

/-- The user's base token account. -/
def userBase : Pubkey := Vector.replicate 32 6

/-- The user's share token account. -/
def userShares : Pubkey := Vector.replicate 32 7

/-- Another share token account of the user's. -/
def otherShares : Pubkey := Vector.replicate 32 9

/-- The PDA of `["vault", [1], baseMint]`, bump 255. -/
def vaultKey : Pubkey :=
  #v[128, 225, 96, 59, 31, 75, 0, 134, 19, 175, 43, 190, 123, 68, 59, 152, 150, 235, 151, 157,
    223, 34, 202, 160, 9, 113, 172, 61, 103, 40, 35, 240]

/-- The PDA of `["share_mint", vaultKey]`, bump 254. -/
def shareMint : Pubkey :=
  #v[140, 3, 218, 89, 143, 55, 217, 187, 76, 131, 120, 222, 235, 138, 163, 88, 146, 207, 199,
    16, 15, 145, 42, 229, 167, 104, 124, 231, 79, 4, 81, 253]

/-- The PDA of `["sub_account", vaultKey, [0]]`, bump 255. -/
def subAccount : Pubkey :=
  #v[194, 63, 206, 178, 231, 9, 90, 117, 189, 85, 93, 242, 3, 113, 74, 15, 179, 227, 80, 17,
    246, 36, 109, 194, 167, 152, 155, 234, 52, 152, 119, 248]

/-- The associated token account of `subAccount` and `baseMint`, bump 254. -/
def custody : Pubkey :=
  #v[213, 195, 169, 204, 229, 230, 102, 187, 53, 253, 150, 188, 236, 113, 203, 248, 57, 193,
    222, 155, 1, 131, 142, 240, 224, 94, 49, 156, 118, 219, 14, 84]

/-- The PDA of `["ticket", vaultKey, user, [0]]`, bump 255. -/
def ticket : Pubkey :=
  #v[86, 67, 108, 135, 28, 114, 226, 151, 244, 239, 232, 220, 167, 34, 195, 19, 21, 177, 87,
    140, 64, 36, 133, 35, 155, 168, 38, 106, 143, 51, 243, 226]

/-- The PDA of `["ticket", vaultKey, user, [1]]`, bump 254. -/
def secondTicket : Pubkey :=
  #v[135, 133, 37, 121, 77, 137, 106, 186, 178, 184, 113, 84, 61, 249, 251, 109, 208, 48, 46, 32,
    205, 24, 177, 104, 29, 69, 156, 18, 3, 73, 71, 77]

/-- The PDA of `["program_config"]`, bump 254. -/
def programConfig : Pubkey :=
  #v[248, 55, 237, 127, 214, 208, 100, 91, 204, 129, 84, 133, 146, 242, 86, 103, 224, 90, 20,
    109, 153, 226, 176, 164, 44, 31, 155, 38, 28, 135, 122, 124]

/-- The action hashes of three calls of the program itself: the user cancels the ticket into
`otherShares`, redeems out of it, or the admin reports.  Each commits the writable accounts. -/
def cancelDigest : Bytes 32 :=
  #v[204, 31, 243, 250, 249, 38, 61, 64, 18, 245, 173, 83, 174, 26, 74, 182, 210, 160, 33, 241,
    114, 183, 188, 231, 94, 190, 124, 151, 160, 86, 208, 175]

def redeemDigest : Bytes 32 :=
  #v[235, 209, 125, 46, 186, 252, 157, 41, 90, 227, 82, 106, 248, 207, 222, 82, 244, 113, 9, 140,
    227, 5, 130, 114, 174, 90, 225, 103, 194, 140, 38, 69]

def reportDigest : Bytes 32 :=
  #v[169, 71, 72, 60, 156, 137, 157, 50, 232, 191, 104, 151, 228, 77, 24, 106, 0, 98, 121, 1, 82,
    108, 144, 7, 142, 113, 80, 176, 171, 201, 232, 42]

/-- The PDA of `["action", vaultKey, cancelDigest]`, bump 255. -/
def cancelRoute : Pubkey :=
  #v[181, 224, 239, 192, 218, 248, 249, 192, 65, 158, 245, 175, 168, 84, 239, 43, 38, 32, 191,
    129, 50, 118, 154, 222, 122, 89, 64, 167, 106, 129, 139, 186]

/-- The PDA of `["action", vaultKey, redeemDigest]`, bump 255. -/
def redeemRoute : Pubkey :=
  #v[127, 243, 195, 54, 9, 135, 86, 140, 174, 242, 211, 255, 126, 8, 55, 38, 81, 31, 37, 217, 125,
    190, 77, 53, 42, 111, 250, 127, 96, 201, 206, 121]

/-- The PDA of `["action", vaultKey, reportDigest]`, bump 254. -/
def reportRoute : Pubkey :=
  #v[108, 187, 71, 172, 124, 185, 240, 103, 74, 153, 58, 197, 82, 102, 18, 53, 120, 16, 88, 86,
    18, 162, 77, 75, 230, 134, 145, 205, 57, 150, 71, 70]

/-- Address derivation on the seeds above; no vault here is private, so nothing is hashed. -/
def runtime : Runtime where
  findProgramAddress seeds program :=
    if program = ID then
      if seeds = [VAULT_SEED, [1], baseMint.toList] then (vaultKey, 255)
      else if seeds = [SHARE_MINT_SEED, vaultKey.toList] then (shareMint, 254)
      else if seeds = [SUB_ACCOUNT_SEED, vaultKey.toList, [0]] then (subAccount, 255)
      else if seeds = [TICKET_SEED, vaultKey.toList, user.toList, [0]] then (ticket, 255)
      else if seeds = [TICKET_SEED, vaultKey.toList, user.toList, [1]] then (secondTicket, 254)
      else if seeds = [PROGRAM_CONFIG_SEED] then (programConfig, 254)
      else if seeds = [ACTION_SEED, vaultKey.toList, cancelDigest.toList] then (cancelRoute, 255)
      else if seeds = [ACTION_SEED, vaultKey.toList, redeemDigest.toList] then (redeemRoute, 255)
      else if seeds = [ACTION_SEED, vaultKey.toList, reportDigest.toList] then (reportRoute, 254)
      else (Bytes.zero 32, 0)
    else if seeds = [subAccount.toList, TOKEN_PROGRAM_ID.toList, baseMint.toList] then
      (custody, 254)
    else (Bytes.zero 32, 0)
  hashv _ := Bytes.zero 32

def signer (key : Pubkey) : AccountInfo := { key, isSigner := true, isWritable := true }

def writable (key : Pubkey) : AccountInfo := { key, isSigner := false, isWritable := true }

def readonly (key : Pubkey) : AccountInfo := { key, isSigner := false, isWritable := false }

def tokenAccount (mint owner : Pubkey) (amount : U64) : TokenAccount where
  program := TOKEN_PROGRAM_ID
  mint := mint
  owner := owner
  amount := amount
  delegate := none
  delegatedAmount := 0
  state := 1
  closeAuthority := none

/-- A base mint of `decimals`, a treasury, an empty custody and `amount` with the user. -/
def ledger (decimals : U8) (amount : U64) : Ledger where
  accounts key :=
    if key = treasury then some (tokenAccount baseMint admin 0)
    else if key = custody then some (tokenAccount baseMint subAccount 0)
    else if key = userBase then some (tokenAccount baseMint user amount)
    else none
  mints key :=
    if key = baseMint then some
      { program := TOKEN_PROGRAM_ID, mintAuthority := none, supply := amount, decimals
        isInitialized := true, extensions := [] }
    else none

def genesis (decimals : U8) (amount : U64) : Genesis where
  programAuthority := some admin
  occupied _ := false
  ledger := ledger decimals amount
  prices _ _ _ := .error .invalidArgument
  clock := { slot := 1000, unixTimestamp := 1700000000 }

def controls : VaultControls where
  maxUnlockDurationSecs := 86400
  maxReportAgeSecs := 0
  minReportIntervalSecs := 0
  cancelGraceSlots := 0
  maxNavGainBps := 0
  atomicRedeemFeeBps := 50
  maxSwapSlippageBps := 100

def initializeAccounts : List AccountInfo :=
  [signer admin, readonly programConfig, signer admin, writable vaultKey, readonly baseMint,
    writable shareMint, readonly treasury, readonly SYSTEM_PROGRAM_ID, readonly TOKEN_PROGRAM_ID]

def initializeArgs (decimals : U8) (feeBps : U16) : InitializeVaultArgs where
  tag := (Bytes.zero 32).set 0 1
  tagLen := 1
  admin := admin
  strategist := admin
  swapAuthority := admin
  navAuthority := admin
  withdrawalAuthority := admin
  baseMint := baseMint
  baseDecimals := decimals
  baseOracle := .default
  depositSubAccount := 0
  withdrawSubAccount := 0
  treasury := treasury
  performanceFeeBps := feeBps
  withdrawalBufferBps := 0
  depositCap := 0
  controls := controls
  isPrivate := false
  accessMerkleRoot := Bytes.zero 32

/-- The vault of a base mint with `decimals`, just initialized. -/
def initializeVault (decimals : U8) (amount : U64) (feeBps : U16) : ProgramResult World :=
  tryInitializeVault runtime (genesis decimals amount) initializeAccounts
    (initializeArgs decimals feeBps)

/-- The user's empty share account comes to be. -/
def openShares (l : Ledger) : Event := .environment
  { assets := fun _ => none
    actions := fun _ => none
    destinations := fun _ => false
    ledger := l.setAccount userShares (tokenAccount shareMint user 0)
    prices := fun _ _ _ => .error .invalidArgument }

theorem openShares_admissible (w : World) : (openShares w.ledger).Admissible w :=
  ⟨Nat.le_refl _, id⟩

/-- The user deposits for shares in the account `dest`. -/
def depositInto (dest : Pubkey) (amount : U64) : Instruction := .deposit
  [signer user, writable vaultKey, writable userBase, writable custody, writable dest,
    writable shareMint, readonly TOKEN_PROGRAM_ID, readonly TOKEN_PROGRAM_ID]
  { assetMint := baseMint, amount, minSharesOut := 0, accessProof := [] }

/-- The user redeems shares of the account `source` into the ticket at `key`. -/
def redeemInto (key : Pubkey) (ticketIndex : U8) (source : Pubkey) (shares : U64) : Instruction :=
  .redeem
    [signer user, writable vaultKey, writable source, writable shareMint, readonly userBase,
      writable key, readonly SYSTEM_PROGRAM_ID, readonly TOKEN_PROGRAM_ID]
    { recipientTokenAccount := userBase, ticketIndex, shares }

def redeemFrom (source : Pubkey) (shares : U64) : Instruction := redeemInto ticket 0 source shares

/-- The user cancels for shares in the account `dest`. -/
def cancelInto (dest : Pubkey) : Instruction := .cancelRedeem
  [signer user, writable vaultKey, writable ticket, writable shareMint, writable dest,
    readonly TOKEN_PROGRAM_ID] 0

def deposit (amount : U64) : Event := .instruction (depositInto userShares amount)

def redeem (shares : U64) : Event := .instruction (redeemFrom userShares shares)

def cancelRedeem : Event := .instruction (cancelInto userShares)

/-- The batch of the tickets at `keys`. -/
def batchAccounts (keys : List Pubkey) : List AccountInfo :=
  [signer admin, writable vaultKey, readonly subAccount, writable custody, readonly shareMint,
    readonly TOKEN_PROGRAM_ID] ++
    keys.flatMap fun key => [writable key, writable user, writable userBase]

def processAccounts : List AccountInfo := batchAccounts [ticket]

def processWithdrawals : Event := .instruction (.processWithdrawals processAccounts)

def report (externalValue : U64) : Instruction := .reportNav
  [signer admin, writable vaultKey, readonly shareMint, readonly baseMint, readonly custody,
    readonly custody]
  { externalValue, reportHash := (Bytes.zero 32).set 0 1 }

def reportNav (externalValue : U64) : Event := .instruction (report externalValue)

def tick (slot : U64) (unixTimestamp : I64) : Event := .tick { slot, unixTimestamp }

/-- A six-decimal vault with a ten-percent fee, and a user holding a million. -/
def start : World := okValue (initializeVault 6 1000000000000 1000) (by decide +kernel)

theorem start_initial : Initial runtime start := ⟨_, _, _, eq_okValue _⟩

/-- A deposit, a redeem and a report: a ticket that can be struck. -/
def queueEvents : List Event :=
  [openShares start.ledger, deposit 1000000, redeem 500000000, tick 2000 1700001000,
    reportNav 100]

/-- The same, and the strike. -/
def strikeEvents : List Event := queueEvents ++ [processWithdrawals]

theorem queueEvents_run : Run (Step runtime) start (traceOf runtime start queueEvents)
    (start.afterAll runtime queueEvents) :=
  run_traceOf (by decide +kernel)
    ⟨openShares_admissible _, trivial, trivial, trivial, trivial, trivial⟩

theorem strikeEvents_run : Run (Step runtime) start (traceOf runtime start strikeEvents)
    (start.afterAll runtime strikeEvents) :=
  run_traceOf (by decide +kernel)
    ⟨openShares_admissible _, trivial, trivial, trivial, trivial, trivial, trivial⟩

/-- The vault before the strike. -/
def queued : World := start.afterAll runtime queueEvents

/-- The vault after the strike, with a gain still dripping out. -/
def struck : World := start.afterAll runtime strikeEvents

theorem struck_reachable : ReachableForward runtime struck :=
  ⟨start, _, start_initial, strikeEvents_run, by decide +kernel⟩

/-- An action of scope `AtomicRedeem`; the amount of its call starts at `amountOffset`. -/
def ownAction (digest : Bytes 32) (ops : List U8) (amountOffset : U16) (bump : U8) : Action where
  vault := vaultKey
  actionHash := digest
  ops := storedOps (ops.map fun index => ⟨2, index, 0, 0⟩)
  feeNum := 0
  feeDen := 1
  scope := .atomicRedeem
  amountOffset := amountOffset
  bump := bump

/-- Both share accounts come to be, and the admin authorizes the three calls. -/
def openRoutes (l : Ledger) : Event := .environment
  { assets := fun _ => none
    actions := fun key =>
      if key = cancelRoute then some (ownAction cancelDigest [0, 1, 2, 3, 4] 1 255)
      else if key = redeemRoute then some (ownAction redeemDigest [0, 1, 2, 3, 5] 34 255)
      else if key = reportRoute then some (ownAction reportDigest [1] 1 254)
      else none
    destinations := fun _ => false
    ledger := (l.setAccount userShares (tokenAccount shareMint user 0)).setAccount otherShares
      (tokenAccount shareMint user 0)
    prices := fun _ _ _ => .error .invalidArgument }

theorem openRoutes_admissible (w : World) : (openRoutes w.ledger).Admissible w :=
  ⟨Nat.le_refl _, id⟩

/-- An atomic redeem under `route`, which calls `i` of the program itself with `ixData`. -/
def atomicRedeemOwn (route : Pubkey) (shares : U64) (ixData : List U8) (i : Instruction) : Event :=
  .instruction (.atomicRedeem
    [signer user, writable vaultKey, writable userShares, writable shareMint, writable userBase,
      writable custody, readonly TOKEN_PROGRAM_ID, readonly subAccount, readonly route,
      readonly TOKEN_PROGRAM_ID]
    { shares, minOutput := 0, subAccount := 0, ixData } (.ok ()) (.own i .done))

/-- A deposit and a redeem, to be cancelled once the delay is over. -/
def ownCancelSetup : List Event :=
  [openRoutes start.ledger, deposit 1000000, redeem 500000000, tick 2000 1700001000]

/-- An atomic redeem of a million share atoms that calls `CancelRedeem`. -/
def ownCancel : Event :=
  atomicRedeemOwn cancelRoute 1000000 (9 :: toLeBytes 8 (0 : U64)) (cancelInto otherShares)

/-- An atomic redeem of two million share atoms that calls `Redeem` of a thousand. -/
def ownRedeem : Event :=
  atomicRedeemOwn redeemRoute 2000000
    (8 :: userBase.toList ++ [0] ++ toLeBytes 8 (1000 : U64)) (redeemFrom otherShares 1000)

/-- Two share accounts with a deposit each, that atomic redeem, and a report. -/
def ownRedeemEvents : List Event :=
  [openRoutes start.ledger, deposit 1000000, .instruction (depositInto otherShares 500000),
    ownRedeem, tick 2000 1700001000, reportNav 100]

/-- A deposit, and an atomic redeem of two million share atoms that calls `ReportNav`. -/
def ownReportEvents : List Event :=
  [openRoutes start.ledger, deposit 1000000,
    atomicRedeemOwn reportRoute 2000000
      (6 :: toLeBytes 8 (100 : U64) ++ ((Bytes.zero 32).set 0 1).toList) (report 100)]

/-- The vault before the cancel. -/
def cancellable : World := start.afterAll runtime ownCancelSetup

theorem cancellable_reachable : ReachableForward runtime cancellable :=
  ⟨start, _, start_initial, run_traceOf (by decide +kernel)
    ⟨openRoutes_admissible _, trivial, trivial, trivial, trivial⟩, by decide +kernel⟩

theorem ownCancel_step : Step runtime cancellable ownCancel (cancellable.after runtime ownCancel) :=
  .after ⟨trivial, trivial⟩ (by decide +kernel)

theorem ownRedeemEvents_run : Run (Step runtime) start (traceOf runtime start ownRedeemEvents)
    (start.afterAll runtime ownRedeemEvents) :=
  run_traceOf (by decide +kernel)
    ⟨openRoutes_admissible _, trivial, trivial, ⟨trivial, trivial⟩, trivial, trivial, trivial⟩

theorem ownReportEvents_run : Run (Step runtime) start (traceOf runtime start ownReportEvents)
    (start.afterAll runtime ownReportEvents) :=
  run_traceOf (by decide +kernel) ⟨openRoutes_admissible _, trivial, ⟨trivial, trivial⟩, trivial⟩

/-- Later: a deposit, a redeem and its cancellation. -/
def cancelEvents : List Event :=
  [tick 2100 1700001700, deposit 777777, redeem 300000000, tick 2300 1700002000, cancelRedeem]

theorem cancelEvents_run : Run (Step runtime) struck (traceOf runtime struck cancelEvents)
    (struck.afterAll runtime cancelEvents) :=
  run_traceOf (by decide +kernel) ⟨trivial, trivial, trivial, trivial, trivial, trivial⟩

end Sample

end Roshi

import Roshi.Relay.Custody
import Roshi.Relay.Flags
import Roshi.State.Records

/-!
# Authorized CPIs

`execution/shared.rs` up to the call itself.  A relay rebuilds the metas of the downstream
instruction from the accounts and flags its caller supplies, recomputes the action hash
over them and compares it with the stored one; the selected sub-account signs.

What the downstream program does is a parameter: `Host.invoke` is any function of the
instruction and the accounts, and no result assumes anything of it.  The siblings of the
executing instruction are read from the transaction.

`validateAuthorizedCpi_spec` says what an accepted relay consists of.
-/

namespace Roshi

open Lib

/-! ### The transaction and its host -/

/-- Solana's `Instruction`. -/
structure RawInstruction where
  programId : Pubkey
  accounts : List AccountMeta
  data : List U8

/-- The instructions sysvar: the top-level instructions and the index of the one running. -/
structure Transaction where
  instructions : List RawInstruction
  current : U16

namespace Transaction

variable (t : Transaction)

/-- `load_instruction_at_checked`. -/
def loadInstructionAt (index : Nat) : ProgramResult RawInstruction :=
  okOr t.instructions[index]? .invalidArgument

/-- `get_instruction_relative`. -/
def getInstructionRelative (relative : Int) : ProgramResult RawInstruction := do
  let index := (t.current.toNat : Int) + relative
  rejectIf (index < 0) .invalidArgument
  t.loadInstructionAt index.toNat

end Transaction

/-- What a relay runs in. -/
structure Host where
  transaction : Transaction
  /-- `invoke_signed`: the instruction, the account infos passed, the signer seeds. -/
  invoke : RawInstruction → List AccountInfo → List (List U8) → Chain → ProgramResult Chain

/-- The instructions sysvar. -/
def INSTRUCTIONS_SYSVAR_ID : Pubkey :=
  #v[6, 167, 213, 23, 24, 123, 209, 102, 53, 218, 212, 4, 85, 253, 194, 192, 193, 36, 198, 143,
    33, 86, 117, 165, 219, 186, 203, 95, 8, 0, 0, 0]

/-! ### Siblings -/

/-- A stored op, decoded when it is reached. -/
def decodeOp (stored : StoredOp) : ProgramResult Op :=
  stored.tryToOp.mapError fun _ => .custom .invalidOp

/-- The stored ops in use. -/
def iterOps (ops : Ops) : ProgramResult (List StoredOp) :=
  ops.iter.mapError fun _ => .custom .invalidOp

/-- The sysvar has to be among the accounts, and the running top-level instruction has to
be the program's own: sibling indices are relative to it. -/
def instructionsSysvar (t : Transaction) (cpiAccounts : List AccountInfo) :
    ProgramResult Transaction := do
  let _ ← okOr (cpiAccounts.find? fun a => a.key = INSTRUCTIONS_SYSVAR_ID)
    (.custom .missingInstructionsSysvar)
  let executing ← t.loadInstructionAt t.current.toNat
  rejectIf (executing.programId ≠ ID) (.custom .siblingsRequireTopLevel)
  .ok t

/-- One pass of the loop that collects the distinct relative indices. -/
def collectRelative (indices : List I8) (stored : StoredOp) : ProgramResult (List I8) := do
  match ← decodeOp stored with
  | .ingestSiblingInstruction relativeIndex _ _ =>
    .ok (if relativeIndex ∈ indices then indices else indices ++ [relativeIndex])
  | .ingestSiblingAccount relativeIndex _ =>
    .ok (if relativeIndex ∈ indices then indices else indices ++ [relativeIndex])
  | _ => .ok indices

def loadSibling (t : Transaction) (relativeIndex : I8) : ProgramResult ResolvedSibling := do
  let instruction ← (t.getInstructionRelative relativeIndex.toInt).mapError fun _ =>
    .custom .requiredSiblingMissing
  .ok
    { relativeIndex
      programId := instruction.programId
      data := instruction.data
      accounts := instruction.accounts.map AccountMeta.pubkey }

/-- The sysvar is only asked for when an op needs a sibling. -/
def loadRequiredSiblings (t : Transaction) (ops : Ops) (cpiAccounts : List AccountInfo) :
    ProgramResult (List ResolvedSibling) := do
  let relativeIndices ← (← iterOps ops).foldlM collectRelative []
  if relativeIndices = [] then .ok []
  else do
    let sysvar ← instructionsSysvar t cpiAccounts
    relativeIndices.mapM (loadSibling sysvar)

/-! ### Validation -/

structure ValidatedManageAccounts where
  action : Action
  vaultKey : Pubkey
  subAccountKey : Pubkey
  subAccountIndex : U8
  subAccountBump : U8
  deriving DecidableEq

structure AuthorizedCpi where
  instruction : RawInstruction
  accountInfos : List AccountInfo
  vaultKey : Pubkey
  subAccountKey : Pubkey
  subAccountIndex : U8
  subAccountBump : U8

/-- The meta of one account: no privilege the account lacks, and the sub-account signs. -/
def cpiMeta (subAccountKey : Pubkey) (entry : AccountInfo × AccountFlags) :
    ProgramResult AccountMeta := do
  let (acc, flags) := entry
  rejectIf (flags.isWritable = true ∧ acc.isWritable = false) .invalidAccountData
  let isSubAccount := acc.key == subAccountKey
  rejectIf (flags.isSigner = true ∧ acc.isSigner = false ∧ isSubAccount = false)
    .missingRequiredSignature
  .ok
    { pubkey := acc.key
      isSigner := flags.isSigner || isSubAccount
      isWritable := flags.isWritable }

def validateAuthorizedCpi (rt : Runtime) (host : Host) (chain : Chain)
    (cpiAccounts : List AccountInfo) (validated : ValidatedManageAccounts) (accountsStart : U8)
    (accountFlags : PackedAccountFlags) (ixData : List U8) : ProgramResult AuthorizedCpi := do
  let start := accountsStart.toNat
  let accountsEnd := start + accountFlags.accountsLen.toNat
  let cpiMetaAccounts ← okOr (getRange cpiAccounts start accountsEnd) .notEnoughAccountKeys
  let cpiProgramAcc ← okOr cpiAccounts[accountsEnd]? .notEnoughAccountKeys
  rejectIf ((chain cpiProgramAcc.key).executable = false) .invalidAccountData
  let flags ← accountFlags.iter
  let cpiAccountMetas ← (cpiMetaAccounts.zip flags).mapM (cpiMeta validated.subAccountKey)
  let siblings ← loadRequiredSiblings host.transaction validated.action.ops cpiAccounts
  let actionHash ← (computeActionHashFromMetas rt cpiProgramAcc.key validated.action.ops
    cpiAccountMetas ixData siblings).mapError actionHashErrorToProgramError
  rejectIf (validated.action.actionHash ≠ actionHash) (.custom .unauthorizedAction)
  let accountInfos ← okOr (getRange cpiAccounts start (accountsEnd + 1)) .notEnoughAccountKeys
  .ok
    { instruction :=
        { programId := cpiProgramAcc.key, accounts := cpiAccountMetas, data := ixData }
      accountInfos
      vaultKey := validated.vaultKey
      subAccountKey := validated.subAccountKey
      subAccountIndex := validated.subAccountIndex
      subAccountBump := validated.subAccountBump }

def invokeAuthorizedCpi (host : Host) (cpi : AuthorizedCpi) (chain : Chain) :
    ProgramResult Chain :=
  host.invoke cpi.instruction cpi.accountInfos
    [SUB_ACCOUNT_SEED, cpi.vaultKey.toList, [cpi.subAccountIndex], [cpi.subAccountBump]] chain

/-! ### Checks around the call -/

/-- The loop of `ingests_account`. -/
def findIngest (index : Nat) : List StoredOp → ProgramResult Bool
  | [] => .ok false
  | stored :: rest => do
    match ← decodeOp stored with
    | .ingestAccount ingested => if ingested.toNat = index then .ok true else findIngest index rest
    | _ => findIngest index rest

/-- Whether some op commits the account at `index`. -/
def ingestsAccount (ops : Ops) (index : Nat) : ProgramResult Bool := do
  findIngest index (← iterOps ops)

namespace AuthorizedCpi

variable (cpi : AuthorizedCpi)

def hasAccountMeta (key : Pubkey) : Bool := cpi.instruction.accounts.any fun m => m.pubkey == key

/-- The account an account info shows. -/
def accountOf (chain : Chain) (key : Pubkey) : ProgramResult RawAccount :=
  match cpi.accountInfos.find? fun info => info.key = key with
  | some info => .ok (chain info.key)
  | none => .error (.custom .invalidTokenAccount)

/-- One pass of the scan. -/
def scanEntry (chain : Chain) (keys : List Pubkey) (entry : AccountMeta × AccountInfo) :
    ProgramResult (List Pubkey) := do
  if entry.1.isWritable = false then .ok keys
  else if ← (chain entry.2.key).isCleanCustody cpi.subAccountKey then
    .ok (keys ++ [entry.2.key])
  else .ok keys

/-- The writable custodies of the sub-account; each has to be clean. -/
def scanSubaccountCustody (chain : Chain) : ProgramResult (List Pubkey) :=
  (cpi.instruction.accounts.zip cpi.accountInfos).foldlM (cpi.scanEntry chain) []

/-- After the call each of `keys`, `exempt` apart, has to be a clean custody still. -/
def reverifySubaccountCustodyExcept (chain : Chain) (keys : List Pubkey)
    (exempt : Option Pubkey) : ProgramResult Unit :=
  keys.forM fun key => do
    if exempt = some key then .ok ()
    else do
      let account ← cpi.accountOf chain key
      rejectIf ((← account.isCleanCustody cpi.subAccountKey) = false) (.custom .invalidTokenAccount)

def reverifySubaccountCustody (chain : Chain) (keys : List Pubkey) : ProgramResult Unit :=
  cpi.reverifySubaccountCustodyExcept chain keys none

/-- Every writable meta is committed by the action. -/
def requireWritableMetasBound (ops : Ops) : ProgramResult Unit :=
  cpi.instruction.accounts.zipIdx.forM fun (m, index) => do
    if m.isWritable = false then .ok ()
    else rejectIf ((← ingestsAccount ops index) = false) (.custom .unboundAtomicRedeemAccount)

/-- Every meta is. -/
def requireAllMetasBound (ops : Ops) : ProgramResult Unit :=
  (List.range cpi.instruction.accounts.length).forM fun index => do
    rejectIf ((← ingestsAccount ops index) = false) (.custom .unboundDeployAccount)

end AuthorizedCpi

/-! ### What validation gives -/

/-- A meta takes no privilege from its account but the sub-account's signature. -/
structure AccountMeta.Backed (subAccountKey : Pubkey) (m : AccountMeta) (info : AccountInfo) :
    Prop where
  pubkey : m.pubkey = info.key
  writable : m.isWritable = true → info.isWritable = true
  signer : m.isSigner = true → info.isSigner = true ∨ info.key = subAccountKey

theorem cpiMeta_eq_ok {sub : Pubkey} {entry : AccountInfo × AccountFlags} {m : AccountMeta}
    (h : cpiMeta sub entry = .ok m) : m.Backed sub entry.1 := by
  obtain ⟨acc, flags⟩ := entry
  simp only [cpiMeta, bind_eq_ok, rejectIf_eq_ok, Except.ok.injEq] at h
  obtain ⟨_, hwritable, _, hsigner, rfl⟩ := h
  refine ⟨rfl, ?_, ?_⟩
  · intro hw
    by_contra hno
    exact hwritable ⟨hw, Bool.not_eq_true _ ▸ hno⟩
  · intro hs
    have hs : (flags.isSigner || acc.key == sub) = true := hs
    rcases Bool.or_eq_true _ _ ▸ hs with hflag | hsub
    · by_contra hno
      obtain ⟨hacc, hkey⟩ := not_or.mp hno
      exact hsigner ⟨hflag, Bool.not_eq_true _ ▸ hacc, beq_eq_false_iff_ne.mpr hkey⟩
    · exact .inr (beq_iff_eq.mp hsub)

/-- What the hash of a relay is taken over. -/
def AuthorizedCpi.call (cpi : AuthorizedCpi) (ops : Ops) (siblings : List ResolvedSibling) :
    ActionCall where
  programId := cpi.instruction.programId
  ops := ops
  accounts := cpi.instruction.accounts
  ixData := cpi.instruction.data
  siblings := siblings

/-- **An accepted relay.**  The metas are those of `metaAccounts`, the accounts from
`accountsStart` on; the program follows them; and the stored hash is that of the rebuilt
call. -/
structure AuthorizedCpi.Built (rt : Runtime) (host : Host) (cpiAccounts : List AccountInfo)
    (validated : ValidatedManageAccounts) (accountsStart : U8) (cpi : AuthorizedCpi)
    (metaAccounts : List AccountInfo) (programAcc : AccountInfo) (siblings : List ResolvedSibling) :
    Prop where
  metaAccounts_eq : metaAccounts =
    (cpiAccounts.drop accountsStart.toNat).take metaAccounts.length
  accountInfos : cpi.accountInfos = metaAccounts ++ [programAcc]
  program : cpi.instruction.programId = programAcc.key
  metas : List.Forall₂ (AccountMeta.Backed validated.subAccountKey) cpi.instruction.accounts
    metaAccounts
  subAccountKey : cpi.subAccountKey = validated.subAccountKey
  siblings_eq : loadRequiredSiblings host.transaction validated.action.ops cpiAccounts =
    .ok siblings
  hash : (cpi.call validated.action.ops siblings).hash rt = .ok validated.action.actionHash

theorem forall₂_cpiMeta {sub : Pubkey} {infos : List AccountInfo} {flags : List AccountFlags}
    {metas : List AccountMeta} (hlen : flags.length = infos.length)
    (h : (infos.zip flags).mapM (cpiMeta sub) = .ok metas) :
    List.Forall₂ (AccountMeta.Backed sub) metas infos := by
  rw [mapM_eq_ok] at h
  have hfst : (infos.zip flags).map Prod.fst = infos := by
    rw [List.map_fst_zip]
    omega
  have hmap := List.forall₂_map_right_iff (f := Prod.fst)
    (R := AccountMeta.Backed sub) (l := metas) (u := infos.zip flags)
  rw [hfst] at hmap
  exact hmap.mpr (h.flip.imp fun m entry hm => cpiMeta_eq_ok hm)

variable {rt : Runtime} {host : Host} {chain chain' : Chain} {cpiAccounts : List AccountInfo}
  {validated : ValidatedManageAccounts} {accountsStart : U8} {accountFlags : PackedAccountFlags}
  {ixData : List U8} {cpi : AuthorizedCpi}

theorem validateAuthorizedCpi_spec
    (h : validateAuthorizedCpi rt host chain cpiAccounts validated accountsStart accountFlags ixData
      = .ok cpi) :
    cpi.instruction.data = ixData ∧ ∃ metaAccounts programAcc siblings,
      cpi.Built rt host cpiAccounts validated accountsStart metaAccounts programAcc siblings := by
  revert h
  simp only [validateAuthorizedCpi, bind_ok_imp, okOr_eq_ok, mapError_eq_ok, rejectIf_eq_ok,
    not_not, Except.ok.injEq]
  rintro metaAccounts hmeta programAcc hprogram _ - flags hflags metas hmetas siblings hsiblings
    digest hdigest _ hhash infos hinfos rfl
  obtain ⟨-, hend, hmeta⟩ := getRange_eq_some hmeta
  obtain ⟨-, hend', hinfos⟩ := getRange_eq_some hinfos
  have hlen : metaAccounts.length = accountFlags.accountsLen.toNat := by
    rw [hmeta, List.length_take, List.length_drop]
    omega
  refine ⟨rfl, metaAccounts, programAcc, siblings, ?_, ?_, rfl, ?_, rfl, hsiblings, ?_⟩
  · rw [hlen, hmeta]
    congr 1
    omega
  · rw [hinfos, hmeta]
    have hget : (cpiAccounts.drop accountsStart.toNat)[accountFlags.accountsLen.toNat]? =
        some programAcc := by
      rw [List.getElem?_drop]
      exact hprogram
    rw [Nat.add_sub_cancel_left, Nat.add_assoc, Nat.add_sub_cancel_left, List.take_add_one, hget]
    rfl
  · exact forall₂_cpiMeta ((PackedAccountFlags.length_of_iter hflags).trans hlen.symm) hmetas
  · rw [hhash]
    exact hdigest

/-! ### What the checks around the call give -/

/-- A writable custody of the sub-account is clean, and among `keys`. -/
def AuthorizedCpi.Found (cpi : AuthorizedCpi) (chain : Chain) (entry : AccountMeta × AccountInfo)
    (keys : List Pubkey) : Prop :=
  entry.1.isWritable = true → (chain entry.2.key).CustodyOf cpi.subAccountKey →
    (chain entry.2.key).Clean cpi.subAccountKey ∧ entry.2.key ∈ keys

/-- One pass finds a writable custody, which is clean, and forgets nothing. -/
theorem scanEntry_spec {entry : AccountMeta × AccountInfo} {acc keys : List Pubkey}
    (h : cpi.scanEntry chain acc entry = .ok keys) :
    acc ⊆ keys ∧ cpi.Found chain entry keys := by
  unfold AuthorizedCpi.scanEntry at h
  split at h
  · rename_i hw
    cases h
    refine ⟨fun k hk => hk, ?_⟩
    intro hw'
    rw [hw] at hw'
    cases hw'
  · rw [bind_eq_ok] at h
    obtain ⟨b, hb, h⟩ := h
    cases b with
    | true =>
      cases h
      refine ⟨fun k hk => List.mem_append_left _ hk, ?_⟩
      intro _ _
      exact ⟨RawAccount.isCleanCustody_eq_true.mp hb,
        List.mem_append_right _ (List.mem_singleton.mpr rfl)⟩
    | false =>
      cases h
      refine ⟨fun k hk => hk, ?_⟩
      intro _ hc
      exact (RawAccount.isCleanCustody_eq_false.mp hb hc).elim

/-- Each meta of a built relay stands opposite the account info of its key. -/
theorem AuthorizedCpi.Built.mem_zip {metaAccounts : List AccountInfo} {programAcc : AccountInfo}
    {siblings : List ResolvedSibling}
    (hb : cpi.Built rt host cpiAccounts validated accountsStart metaAccounts programAcc siblings)
    {m : AccountMeta} (hm : m ∈ cpi.instruction.accounts) :
    ∃ info, (m, info) ∈ cpi.instruction.accounts.zip cpi.accountInfos ∧ m.pubkey = info.key := by
  obtain ⟨i, hi, rfl⟩ := List.getElem_of_mem hm
  have hi' : i < metaAccounts.length := hb.metas.length_eq ▸ hi
  refine ⟨metaAccounts[i], ?_, (hb.metas.get hi hi').pubkey⟩
  rw [hb.accountInfos]
  refine List.mem_iff_getElem?.mpr ⟨i, ?_⟩
  rw [List.getElem?_zip_eq_some]
  exact ⟨List.getElem?_eq_getElem hi, by rw [List.getElem?_append_left hi',
    List.getElem?_eq_getElem hi']⟩

/-- **The scan**: every writable custody is clean, and found. -/
theorem scan_spec {metaAccounts : List AccountInfo} {programAcc : AccountInfo}
    {siblings : List ResolvedSibling} {keys : List Pubkey}
    (hb : cpi.Built rt host cpiAccounts validated accountsStart metaAccounts programAcc siblings)
    (h : cpi.scanSubaccountCustody chain = .ok keys) {m : AccountMeta}
    (hm : m ∈ cpi.instruction.accounts) (hw : m.isWritable = true)
    (hc : (chain m.pubkey).CustodyOf cpi.subAccountKey) :
    (chain m.pubkey).Clean cpi.subAccountKey ∧ m.pubkey ∈ keys := by
  obtain ⟨info, hmem, hkey⟩ := hb.mem_zip hm
  rw [hkey] at hc ⊢
  have hmono : ∀ (entry : AccountMeta × AccountInfo) (s s' : List Pubkey), s ⊆ s' →
      cpi.Found chain entry s → cpi.Found chain entry s' := by
    intro entry s s' hsub hfound hw hc
    exact (hfound hw hc).imp_right fun hk => hsub hk
  obtain ⟨-, -, hcover⟩ := foldlM_covers (I := fun _ => True) hmono
    (fun _ _ _ _ hstep => ⟨trivial, scanEntry_spec hstep⟩) trivial h
  exact hcover (m, info) hmem hw hc

theorem accountOf_eq_ok {key : Pubkey} {a : RawAccount} (h : cpi.accountOf chain key = .ok a) :
    a = chain key := by
  unfold AuthorizedCpi.accountOf at h
  split at h
  · rename_i info hfind
    cases h
    have hkey := List.find?_some hfind
    rw [of_decide_eq_true hkey]
  · cases h

/-- **The re-check** leaves every custody found, the exempt one apart, clean. -/
theorem reverify_spec {keys : List Pubkey} {exempt : Option Pubkey}
    (h : cpi.reverifySubaccountCustodyExcept chain keys exempt = .ok ()) :
    ∀ k ∈ keys, exempt ≠ some k → (chain k).Clean cpi.subAccountKey := by
  intro k hk hne
  have hcheck := forM_eq_ok.mp h k hk
  rw [if_neg hne] at hcheck
  simp only [bind_eq_ok, rejectIf_eq_ok] at hcheck
  obtain ⟨a, ha, b, hb, hb'⟩ := hcheck
  obtain rfl := accountOf_eq_ok ha
  rw [Bool.not_eq_false] at hb'
  rw [hb'] at hb
  exact RawAccount.isCleanCustody_eq_true.mp hb

/-! ### Committed metas -/

theorem findIngest_eq_true {index : Nat} {stored : List StoredOp} {l : List Op}
    (hl : stored.mapM StoredOp.tryToOp = .ok l) (h : findIngest index stored = .ok true) :
    ∃ i : U8, Op.ingestAccount i ∈ l ∧ i.toNat = index := by
  rw [mapM_eq_ok] at hl
  induction hl with
  | nil => cases h
  | @cons s op stored l hop _ ih =>
    rw [findIngest, decodeOp, hop] at h
    have hrest : findIngest index stored = .ok true →
        ∃ i : U8, Op.ingestAccount i ∈ op :: l ∧ i.toNat = index := by
      intro h
      obtain ⟨i, hi, hn⟩ := ih h
      exact ⟨i, List.mem_cons_of_mem _ hi, hn⟩
    cases op with
    | ingestAccount i =>
      by_cases hi : i.toNat = index
      · exact ⟨i, List.mem_cons_self, hi⟩
      · exact hrest ((if_neg hi).symm.trans h)
    | _ => exact hrest h

/-- An account the ops commit is the same in two calls that agree. -/
theorem ActionCall.Agree.accounts_eq {c c' : ActionCall} (h : c.Agree c') {index : Nat}
    (hi : ingestsAccount c.ops index = .ok true) :
    ∃ m, c.accounts[index]? = some m ∧ c'.accounts[index]? = some m := by
  obtain ⟨l, hl, -, hall⟩ := h.committed
  simp only [ingestsAccount, iterOps, bind_eq_ok, mapError_eq_ok] at hi
  obtain ⟨stored, hstored, hi⟩ := hi
  rw [Ops.decode, hstored] at hl
  obtain ⟨i, hmem, rfl⟩ := findIngest_eq_true hl hi
  obtain ⟨x, hx, hx'⟩ := hall _ hmem
  simp only [ActionCall.commit, Roshi.commit, bind_eq_ok, okOr_eq_ok, Except.ok.injEq] at hx hx'
  obtain ⟨m, hm, rfl⟩ := hx
  obtain ⟨m', hm', he⟩ := hx'
  obtain ⟨-, hkey, hsigner, hwritable⟩ := Commitment.account.inj he
  obtain rfl : m' = m := by
    cases m
    cases m'
    simp only [AccountMeta.mk.injEq]
    exact ⟨hkey, hsigner, hwritable⟩
  exact ⟨m', hm, hm'⟩

theorem requireWritableMetasBound_spec {ops : Ops} (h : cpi.requireWritableMetasBound ops = .ok ())
    {i : Nat} {m : AccountMeta} (hm : cpi.instruction.accounts[i]? = some m)
    (hw : m.isWritable = true) : ingestsAccount ops i = .ok true := by
  have hcheck := forM_eq_ok.mp h (m, i) (List.mem_zipIdx_iff_getElem?.mpr hm)
  simp only [hw, Bool.true_eq_false, if_false, bind_eq_ok, rejectIf_eq_ok,
    Bool.not_eq_false] at hcheck
  obtain ⟨b, hb, rfl⟩ := hcheck
  exact hb

theorem requireAllMetasBound_spec {ops : Ops} (h : cpi.requireAllMetasBound ops = .ok ())
    {i : Nat} (hi : i < cpi.instruction.accounts.length) : ingestsAccount ops i = .ok true := by
  have hcheck := forM_eq_ok.mp h i (List.mem_range.mpr hi)
  simp only [bind_eq_ok, rejectIf_eq_ok, Bool.not_eq_false] at hcheck
  obtain ⟨b, hb, rfl⟩ := hcheck
  exact hb

end Roshi

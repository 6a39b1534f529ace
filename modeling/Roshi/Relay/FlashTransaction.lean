import Roshi.Relay.FlashRate
import Roshi.Wire.Instruction

/-!
# The transaction around a flash approval

`assert_delegate_cleared.rs` and the transaction it is a part of.  A flash approval leaves a
delegate behind and counts on a later instruction of its transaction, the backstop, to find the
delegate gone.  That the backstop is there is checked by the approval, over siblings its action
commits; that it passes is what it takes for the transaction to go through.

So in a transaction that goes through, an approval whose action commits the backstop is followed
by a state in which the approved account has no delegate (`flash_transaction_clears`).
-/

namespace Roshi

open Lib

/-! ### The backstop -/

namespace RawAccount

variable (a : RawAccount)

def assertDelegateCleared : ProgramResult Unit := do
  rejectIf (a.isTokenAccount = false) (.custom .invalidTokenAccount)
  rejectIf (a.u32At TOKEN_ACCOUNT_DELEGATE ≠ 0 ∨ a.u64At TOKEN_ACCOUNT_DELEGATED_AMOUNT ≠ 0)
    (.custom .delegateNotCleared)

/-- A token account nobody has an allowance on. -/
structure DelegateCleared : Prop where
  tokenAccount : a.isTokenAccount = true
  delegate : a.toTokenAccount.delegate = none
  delegatedAmount : a.toTokenAccount.delegatedAmount = 0

end RawAccount

theorem assertDelegateCleared_eq_ok {a : RawAccount} {u : Unit} :
    a.assertDelegateCleared = .ok u ↔ a.DelegateCleared := by
  simp only [RawAccount.assertDelegateCleared, bind_eq_ok, rejectIf_eq_ok, exists_const,
    Bool.not_eq_false, not_or, not_not, ← optionalKeyAt_eq_none]
  constructor
  · rintro ⟨htoken, hdelegate, hamount⟩
    exact ⟨htoken, hdelegate, hamount⟩
  · rintro ⟨htoken, hdelegate, hamount⟩
    exact ⟨htoken, hdelegate, hamount⟩

def tryAssertDelegateCleared (chain : Chain) (accounts : List AccountInfo) :
    ProgramResult Unit := do
  let account ← okOr accounts.head? .notEnoughAccountKeys
  (chain account.key).assertDelegateCleared

/-! ### Transactions -/

/-- The instructions of a transaction; an index into them is a `u16`. -/
structure Message where
  instructions : List RawInstruction
  length_le : instructions.length ≤ 2 ^ 16

/-- What the relays do not determine: the effect of a CPI, and that of a top-level instruction
which is neither a relay of the strategist's nor the backstop. -/
structure Outside where
  invoke : RawInstruction → List AccountInfo → List (List U8) → Chain → ProgramResult Chain
  process : RawInstruction → Chain → ProgramResult Chain

/-- The account as the message passes it. -/
def AccountMeta.info (m : AccountMeta) : AccountInfo := ⟨m.pubkey, m.isSigner, m.isWritable⟩

variable (wc : Wincode) (rt : Runtime) (records : Chain → World) (o : Outside)

/-- What the instruction at `index` runs in. -/
def Message.host (m : Message) (index : Nat) : Host where
  transaction := { instructions := m.instructions, current := BitVec.ofNat 16 index }
  invoke := o.invoke

/-- One top-level instruction, with its index. -/
def Message.processInstruction (m : Message) (chain : Chain) (entry : RawInstruction × Nat) :
    ProgramResult Chain :=
  let (i, index) := entry
  let accounts := i.accounts.map AccountMeta.info
  if i.programId = ID then
    match RoshiInstruction.decode wc i.data with
    | none => .error .invalidInstructionData
    | some (.manage args) => tryManage rt (m.host o index) records chain accounts args
    | some (.manageBatch actions) =>
      tryManageBatch rt (m.host o index) records chain accounts actions
    | some .assertDelegateCleared => do
      tryAssertDelegateCleared chain accounts
      .ok chain
    | some _ => o.process i chain
  else o.process i chain

/-- The instructions in order; the first to fail fails the transaction. -/
def Message.run (m : Message) (chain : Chain) : ProgramResult Chain :=
  m.instructions.zipIdx.foldlM (m.processInstruction wc rt records o) chain

/-- The legs a relay of the strategist's runs, with the accounts they share. -/
def relayLegs (accounts : List AccountInfo) : RoshiInstruction →
    ProgramResult (ManageShared × List ManageLeg)
  | .manage args => do
    let (shared, leg) ← loadManage accounts args
    .ok (shared, [leg])
  | .manageBatch actions => loadManageBatch accounts actions
  | _ => .error .invalidInstructionData

/-- An approval relayed by the instruction at `index`, up to `after`, and what the rest of the
transaction `tr` makes of it: the source has the capped allowance and no more, until a later
instruction finds it without one. -/
def ApprovalCleared (tr : List (Transition Chain (RawInstruction × Nat))) (host : Host)
    (index : Nat) (cpi : AuthorizedCpi) (action : Action) (after : Chain) : Prop :=
  ∃ source amount cap, cpi.accountInfos.head? = some source ∧
    FlashBound host.transaction action.ops source.key amount ∧
    flashCap amount action.feeNum action.feeDen = .ok cap ∧
    (after source.key).toTokenAccount.delegatedAmount = cap ∧
    ∃ y ∈ tr, index < y.event.2 ∧ y.post = y.pre ∧ (y.pre source.key).DelegateCleared

/-! ### What an action commits of its siblings -/

/-- A call as the admin hashed it: each sibling of the program's own is a later
`AssertDelegateCleared`, whose tag byte is committed, on the account it is given first. -/
structure ActionCall.CommitsBackstop (c : ActionCall) : Prop where
  instruction : ∀ l r offset len s, c.ops.decode = .ok l →
    Op.ingestSiblingInstruction r offset len ∈ l → resolveSibling c.siblings r = .ok s →
      s.programId = ID →
        0 < r.toInt ∧ offset.toNat = 0 ∧ 0 < len.toNat ∧
          s.data.head? = some RoshiInstruction.assertDelegateCleared.tag
  account : ∀ l r index s, c.ops.decode = .ok l → Op.ingestSiblingAccount r index ∈ l →
    resolveSibling c.siblings r = .ok s → s.programId = ID → index.toNat = 0

variable {wc rt records o} {m : Message} {t : Transaction} {infos : List AccountInfo} {ops : Ops}
  {siblings : List ResolvedSibling} {r : I8} {s : ResolvedSibling}

/-- A resolved sibling is the transaction's instruction at its relative index. -/
theorem resolveSibling_loaded (h : loadRequiredSiblings t ops infos = .ok siblings)
    (hs : resolveSibling siblings r = .ok s) :
    ∃ i, t.getInstructionRelative r.toInt = .ok i ∧ s.programId = i.programId ∧ s.data = i.data := by
  rw [resolveSibling, okOr_eq_ok] at hs
  have hmem := List.mem_of_find?_eq_some hs
  have hmatch := List.find?_some hs
  obtain rfl : s.relativeIndex = r := of_decide_eq_true hmatch
  simp only [loadRequiredSiblings, bind_eq_ok] at h
  obtain ⟨stored, -, indices, -, h⟩ := h
  split at h
  · cases h
    cases hmem
  · simp only [instructionsSysvar, bind_eq_ok, Except.ok.injEq] at h
    obtain ⟨_, ⟨_, -, _, -, _, -, rfl⟩, h⟩ := h
    rw [mapM_eq_ok] at h
    obtain ⟨k, hk, hget⟩ := List.getElem_of_mem hmem
    have hload := h.get (h.length_eq ▸ hk) hk
    rw [List.get_eq_getElem, List.get_eq_getElem, hget] at hload
    simp only [loadSibling, bind_eq_ok, mapError_eq_ok, Except.ok.injEq] at hload
    obtain ⟨i, hi, rfl⟩ := hload
    exact ⟨i, hi, rfl, rfl⟩

/-- A slice from the start of the data has their first byte. -/
theorem head?_of_instructionSlice {data : List U8} {len : U8} {slice : Bytes len.toNat}
    (hlen : 0 < len.toNat) (h : instructionSlice data 0 len = .ok slice) :
    data.head? = slice.toList.head? := by
  rw [instructionSlice] at h
  split at h
  · cases h
    cases data with
    | nil =>
      rename_i hle
      rw [List.length_nil] at hle
      omega
    | cons b data =>
      obtain ⟨n, hn⟩ := Nat.exists_eq_succ_of_ne_zero hlen.ne'
      simp [hn]
  · cases h

/-- **The committed backstop.**  A call that agrees with one that commits the backstop has it:
the program's own sibling comes later, starts with the tag, and is tied by its first
account. -/
theorem ActionCall.CommitsBackstop.sibling {ref c : ActionCall} (href : ref.CommitsBackstop)
    (hagree : ref.Agree c) {l : List Op} {offset len index : U8} {s : ResolvedSibling}
    (hl : c.ops.decode = .ok l) (hi : Op.ingestSiblingInstruction r offset len ∈ l)
    (ha : Op.ingestSiblingAccount r index ∈ l) (hs : resolveSibling c.siblings r = .ok s)
    (hid : s.programId = ID) :
    0 < r.toInt ∧ index.toNat = 0 ∧
      s.data.head? = some RoshiInstruction.assertDelegateCleared.tag := by
  obtain ⟨l', hl', hl'', hall⟩ := hagree.committed
  obtain rfl : l' = l := Except.ok.inj (hl''.symm.trans hl)
  obtain ⟨x, hx, hx'⟩ := hall _ hi
  simp only [ActionCall.commit, Roshi.commit, bind_eq_ok, Except.ok.injEq] at hx hx'
  obtain ⟨s₀, hs₀, slice₀, hslice₀, rfl⟩ := hx
  obtain ⟨s', hs', slice, hslice, heq⟩ := hx'
  obtain rfl : s = s' := Except.ok.inj (hs.symm.trans hs')
  obtain ⟨-, hprogram, -, -, hbytes⟩ := Commitment.siblingInstruction.inj heq
  obtain rfl := eq_of_heq hbytes
  rw [hid] at hprogram
  obtain ⟨hpos, hoffset, hlen, htag⟩ := href.instruction l' r offset len s₀ hl' hi hs₀ hprogram.symm
  rw [hoffset] at hslice hslice₀
  refine ⟨hpos, href.account l' r index s₀ hl' ha hs₀ hprogram.symm, ?_⟩
  rw [head?_of_instructionSlice hlen hslice, ← head?_of_instructionSlice hlen hslice₀, htag]

/-! ### The approval and its backstop -/

/-- What decodes under the backstop's tag is the backstop. -/
theorem decode_assertDelegateCleared {data : List U8} {i : RoshiInstruction}
    (htag : data.head? = some RoshiInstruction.assertDelegateCleared.tag)
    (h : RoshiInstruction.decode wc data = some i) : i = .assertDelegateCleared := by
  cases data with
  | nil => cases h
  | cons b payload =>
    cases htag
    have hpayload : Wincode.decodePayload .unit payload (fun _ => .assertDelegateCleared) =
        some i := h
    rw [Wincode.decodePayload, Option.map_eq_some_iff] at hpayload
    obtain ⟨_, -, rfl⟩ := hpayload
    rfl

/-- **A passed backstop**: the first account has no delegate, and nothing has changed. -/
theorem processInstruction_backstop {i : RawInstruction} {index : Nat} {before after : Chain}
    (hid : i.programId = ID)
    (htag : i.data.head? = some RoshiInstruction.assertDelegateCleared.tag)
    (h : m.processInstruction wc rt records o before (i, index) = .ok after) :
    after = before ∧ ∃ a, i.accounts[0]? = some a ∧ (before a.pubkey).DelegateCleared := by
  simp only [Message.processInstruction, if_pos hid] at h
  cases hdecode : RoshiInstruction.decode wc i.data with
  | none =>
    rw [hdecode] at h
    cases h
  | some ix =>
    obtain rfl := decode_assertDelegateCleared htag hdecode
    simp only [hdecode, tryAssertDelegateCleared, bind_eq_ok, okOr_eq_ok, Except.ok.injEq,
      assertDelegateCleared_eq_ok] at h
    obtain ⟨_, ⟨info, hinfo, hcleared⟩, rfl⟩ := h
    rw [List.head?_map, Option.map_eq_some_iff] at hinfo
    obtain ⟨a, ha, rfl⟩ := hinfo
    rw [List.head?_eq_getElem?] at ha
    exact ⟨rfl, a, ha, hcleared⟩

/-- A settled flash approval: its siblings are bound to the source, whose allowance is the cap
of the borrowed amount. -/
theorem settleAuthorizedCpi_flashApprove {host : Host} {cpi : AuthorizedCpi} {action : Action}
    {before after : Chain} (hscope : action.scope = .flashApprove)
    (h : settleAuthorizedCpi host cpi action infos before = .ok after) :
    ∃ source amount cap, cpi.accountInfos.head? = some source ∧
      FlashBound host.transaction action.ops source.key amount ∧
      flashCap amount action.feeNum action.feeDen = .ok cap ∧
      (after source.key).toTokenAccount.delegatedAmount = cap := by
  simp only [settleAuthorizedCpi, hscope, AuthorizedCpi.approveSource,
    AuthorizedCpi.verifyFlashDelegate, bind_eq_ok, okOr_eq_ok,
    RawAccount.verifyFlashDelegate_eq_ok, Except.ok.injEq] at h
  obtain ⟨_, -, source, hsource, amount, hamount, fee, hfee, cap, hcap, _, -, _, -, _, -, _,
    ⟨source', hsource', -, -, hdelegated⟩, rfl⟩ := h
  obtain rfl : source = source' := Option.some.inj (hsource.symm.trans hsource')
  refine ⟨source, amount, cap, hsource, bindFlashSiblings_bound hamount, ?_, hdelegated⟩
  rw [flashCap, hfee, ok_bind, hcap]
  rfl

/-- A leg that ran settled its CPI. -/
theorem runLeg_settled {host : Host} {shared : ManageShared} {leg : ManageLeg}
    {before after : Chain} {validated : ValidatedManageAccounts} {cpi : AuthorizedCpi}
    (h : runLeg rt host records shared before leg = .ok after)
    (hv : leg.validate rt records shared before = .ok validated)
    (hcpi : leg.authorize rt host shared before validated = .ok cpi) :
    settleAuthorizedCpi host cpi validated.action shared.cpiAccounts before = .ok after := by
  rw [runLeg, hv, ok_bind, hcpi, ok_bind] at h
  exact h

/-- **A relay of the strategist's** is a run of its legs. -/
theorem processInstruction_legs {entry : RawInstruction × Nat} {before after : Chain}
    {i : RoshiInstruction} {shared : ManageShared} {legs : List ManageLeg}
    (hid : entry.1.programId = ID) (hdecode : RoshiInstruction.decode wc entry.1.data = some i)
    (hlegs : relayLegs (entry.1.accounts.map AccountMeta.info) i = .ok (shared, legs))
    (h : m.processInstruction wc rt records o before entry = .ok after) :
    ∃ legTr, Run (fun c leg c' => runLeg rt (m.host o entry.2) records shared c leg = .ok c')
        before legTr after ∧ legTr.map Transition.event = legs := by
  refine run_of_foldlM ?_
  cases i with
  | manage args =>
    simp only [Message.processInstruction, if_pos hid, hdecode, tryManage] at h
    simp only [relayLegs, bind_eq_ok, Except.ok.injEq, Prod.mk.injEq] at hlegs
    obtain ⟨⟨shared', leg⟩, hload, rfl, rfl⟩ := hlegs
    rw [hload, ok_bind] at h
    rw [List.foldlM_cons, h]
    rfl
  | manageBatch actions =>
    simp only [Message.processInstruction, if_pos hid, hdecode, tryManageBatch] at h
    have hload : loadManageBatch (entry.1.accounts.map AccountMeta.info) actions =
        .ok (shared, legs) := hlegs
    rw [hload, ok_bind] at h
    exact h
  | _ => cases hlegs

/-- Any two calls of one hash agree, or are a collision. -/
theorem ActionCall.agree_of_hash {ref c : ActionCall} {digest : Bytes 32}
    (h : ref.hash rt = .ok digest) (h' : c.hash rt = .ok digest)
    (hcol : ∀ b b', ref.preimage = .ok b → c.preimage = .ok b' → rt.hashv [b] = rt.hashv [b'] →
      b = b') : ref.Agree c := by
  obtain ⟨b, hb, hd⟩ := ActionCall.hash_eq_ok.mp h
  obtain ⟨b', hb', hd'⟩ := ActionCall.hash_eq_ok.mp h'
  obtain rfl := hcol b b' hb hb' (hd.trans hd'.symm)
  exact ActionCall.preimage_inj hb hb'

/-- **An approval leg binds its backstop**: a later instruction of the transaction, the
program's own, tagged as the backstop and given the source first. -/
theorem exists_backstop {index : Nat} (hindex : index < m.instructions.length)
    {validated : ValidatedManageAccounts} {accountsStart : U8} {accountFlags : PackedAccountFlags}
    {ixData : List U8} {chain : Chain} {cpi : AuthorizedCpi} {ref : ActionCall} {source : Pubkey}
    {amount : U64}
    (hcpi : validateAuthorizedCpi rt (m.host o index) chain infos validated accountsStart
      accountFlags ixData = .ok cpi)
    (hbound : FlashBound (m.host o index).transaction validated.action.ops source amount)
    (hhash : ref.hash rt = .ok validated.action.actionHash) (href : ref.CommitsBackstop)
    (hcol : NoCollision rt (ref.preimage.mapError actionHashErrorToProgramError)
      (cpi.hashed (m.host o index) infos validated.action.ops)) :
    ∃ i k a, m.instructions[k]? = some i ∧ index < k ∧ i.programId = ID ∧
      i.data.head? = some RoshiInstruction.assertDelegateCleared.tag ∧
      i.accounts[0]? = some a ∧ a.pubkey = source := by
  obtain ⟨-, _, _, siblings, hb⟩ := validateAuthorizedCpi_spec hcpi
  have hagree : ref.Agree (cpi.call validated.action.ops siblings) := by
    refine ActionCall.agree_of_hash hhash hb.hash ?_
    intro b b' hpre hpre'
    refine hcol b b' (by rw [hpre]; rfl) ?_
    rw [AuthorizedCpi.hashed, hb.siblings_eq, ok_bind, hpre']
    rfl
  obtain ⟨l, borrow, cleared, offset, len, offset', len', j, j', b, c, hl, -, hinstr, haccount, -,
    -, ⟨hfound, a, ha, hkey⟩, hid, -⟩ := hbound
  have hi : Op.ingestSiblingInstruction cleared offset' len' ∈ l := by
    have hmem : (cleared, offset', len') ∈ l.filterMap Op.siblingInstruction? :=
      hinstr.mem_iff.mpr (by simp)
    obtain ⟨op, hop, heq⟩ := List.mem_filterMap.mp hmem
    cases op <;> cases heq
    exact hop
  have hacc : Op.ingestSiblingAccount cleared j' ∈ l := by
    have hmem : (cleared, j') ∈ l.filterMap Op.siblingAccount? := haccount.mem_iff.mpr (by simp)
    obtain ⟨op, hop, heq⟩ := List.mem_filterMap.mp hmem
    cases op <;> cases heq
    exact hop
  obtain ⟨l', -, hl', hall⟩ := hagree.committed
  obtain rfl : l' = l := Except.ok.inj (hl'.symm.trans hl)
  -- the sibling the hash was taken over is the transaction's
  obtain ⟨x, -, hx⟩ := hall _ hi
  simp only [ActionCall.commit, Roshi.commit, bind_eq_ok] at hx
  obtain ⟨s, hs, -⟩ := hx
  obtain ⟨i, hget, hprogram, hdata⟩ := resolveSibling_loaded hb.siblings_eq hs
  obtain rfl : i = c := Except.ok.inj (hget.symm.trans hfound)
  obtain ⟨hpos, hzero, htag⟩ := href.sibling hagree hl hi hacc hs (hprogram.trans hid)
  rw [hzero] at ha
  rw [hdata] at htag
  simp only [Transaction.getInstructionRelative, Transaction.loadInstructionAt, bind_eq_ok,
    rejectIf_eq_ok, okOr_eq_ok] at hget
  obtain ⟨_, hge, hk⟩ := hget
  refine ⟨i, _, a, hk, ?_, hid, htag, ha, hkey⟩
  have hle := m.length_le
  show index < (((BitVec.ofNat 16 index).toNat : Int) + cleared.toInt).toNat
  rw [BitVec.toNat_ofNat, Nat.mod_eq_of_lt (by omega)]
  omega

/-- **A flash approval is gone before its transaction goes through.**  Take any transaction
that succeeds, whatever its other instructions and the CPIs do, and in it a leg of `Manage` or
`ManageBatch` under a flash-approving action whose hash the admin took over a call with the
backstop.  The leg grants the source the capped allowance and no more, and some later
instruction of the transaction finds the source without a delegate and without an
allowance. -/
theorem flash_transaction_clears (wc : Wincode) (rt : Runtime) (records : Chain → World)
    (o : Outside) (m : Message) (before after : Chain)
    (h : m.run wc rt records o before = .ok after) :
    ∃ tr, Run (fun c e c' => m.processInstruction wc rt records o c e = .ok c') before tr after ∧
      tr.map Transition.event = m.instructions.zipIdx ∧
      ∀ x ∈ tr, ∀ i shared legs, x.event.1.programId = ID →
        RoshiInstruction.decode wc x.event.1.data = some i →
        relayLegs (x.event.1.accounts.map AccountMeta.info) i = .ok (shared, legs) →
        ∃ legTr, Run (fun c leg c' => runLeg rt (m.host o x.event.2) records shared c leg = .ok c')
            x.pre legTr x.post ∧ legTr.map Transition.event = legs ∧
          ∀ z ∈ legTr, ∀ validated cpi (ref : ActionCall),
            z.event.validate rt records shared z.pre = .ok validated →
            z.event.authorize rt (m.host o x.event.2) shared z.pre validated = .ok cpi →
            validated.action.scope = .flashApprove →
            ref.hash rt = .ok validated.action.actionHash → ref.CommitsBackstop →
            NoCollision rt (ref.preimage.mapError actionHashErrorToProgramError)
              (cpi.hashed (m.host o x.event.2) shared.cpiAccounts validated.action.ops) →
            ApprovalCleared tr (m.host o x.event.2) x.event.2 cpi validated.action z.post := by
  obtain ⟨tr, hrun, htr⟩ := run_of_foldlM h
  refine ⟨tr, hrun, htr, ?_⟩
  intro x hx i shared legs hid hdecode hlegs
  have hindex : x.event.2 < m.instructions.length := by
    have hmem : x.event ∈ m.instructions.zipIdx := htr ▸ List.mem_map_of_mem hx
    exact (List.getElem?_eq_some_iff.mp (List.mem_zipIdx_iff_getElem?.mp hmem)).1
  obtain ⟨legTr, hlegRun, hevents⟩ := processInstruction_legs hid hdecode hlegs (hrun.step_of_mem hx)
  refine ⟨legTr, hlegRun, hevents, ?_⟩
  intro z hz validated cpi ref hv hcpi hscope hhash href hcol
  obtain ⟨source, amount, cap, hsource, hbound, hcap, hdelegated⟩ :=
    settleAuthorizedCpi_flashApprove hscope (runLeg_settled (hlegRun.step_of_mem hz) hv hcpi)
  refine ⟨source, amount, cap, hsource, hbound, hcap, hdelegated, ?_⟩
  -- the instruction the action committed ran, later in the transaction
  obtain ⟨b, k, a, hk, hlt, hbid, htag, ha, hkey⟩ :=
    exists_backstop hindex hcpi hbound hhash href hcol
  have hmem : (b, k) ∈ tr.map Transition.event := htr ▸ List.mem_zipIdx_iff_getElem?.mpr hk
  obtain ⟨y, hy, hevent⟩ := List.mem_map.mp hmem
  have hstep := hrun.step_of_mem hy
  rw [hevent] at hstep
  obtain ⟨hpost, a', ha', hcleared⟩ := processInstruction_backstop hbid htag hstep
  obtain rfl : a' = a := Option.some.inj (ha'.symm.trans ha)
  exact ⟨y, hy, by rw [hevent]; exact hlt, hpost, hkey ▸ hcleared⟩

namespace Sample

/-- What an approval hashes whose backstop is the program's own: `flashBytes`, with the tag of
`AssertDelegateCleared`. -/
def backstopBytes : List U8 :=
  TOKEN_PROGRAM_ID.toList ++ ([4, 1] ++ lender.toList ++ [0, 1, 20]) ++
    ([5, 1, 0] ++ custody.toList) ++ ([4, 2] ++ ID.toList ++ [0, 1, 31]) ++
    ([5, 2, 0] ++ custody.toList)

/-- The SHA-256 of `backstopBytes`. -/
def backstopDigest : Bytes 32 :=
  #v[46, 74, 196, 235, 82, 96, 233, 24, 206, 46, 8, 118, 21, 40, 139, 155, 47, 55, 58, 219,
    155, 252, 222, 39, 178, 127, 184, 57, 31, 136, 48, 159]

/-- The PDA of `["action", vaultKey, backstopDigest]`, bump 253. -/
def backstopKey : Pubkey :=
  #v[250, 100, 18, 125, 214, 247, 51, 222, 221, 94, 155, 5, 109, 176, 38, 126, 24, 176, 82, 214,
    32, 130, 179, 180, 74, 142, 169, 206, 161, 51, 205, 88]

def backstopAction : Action :=
  { flashAction with actionHash := backstopDigest, bump := 253 }

def backstopRuntime : Runtime where
  findProgramAddress seeds program :=
    if seeds = [ACTION_SEED, vaultKey.toList, backstopDigest.toList] then (backstopKey, 253)
    else runtime.findProgramAddress seeds program
  hashv chunks := if chunks = [backstopBytes] then backstopDigest else Bytes.zero 32

def approveArgs : ManageArgs where
  subAccount := 0
  accountsStart := 0
  accountFlags := ⟨3, [2]⟩
  ixData := [4]

def approveData : List U8 := ((RoshiInstruction.manage approveArgs).serialize wincode).getD []

/-- The approval, a loan of 1000 repaid at once, and the backstop. -/
def loan : Message where
  instructions :=
    [⟨ID, [⟨admin, true, false⟩, ⟨vaultKey, false, false⟩, ⟨subAccount, false, false⟩,
        ⟨backstopKey, false, false⟩, ⟨custody, false, true⟩, ⟨lender, false, false⟩,
        ⟨subAccount, false, false⟩, ⟨TOKEN_PROGRAM_ID, false, false⟩,
        ⟨INSTRUCTIONS_SYSVAR_ID, false, false⟩],
        approveData⟩,
      ⟨lender, [⟨custody, false, true⟩], 20 :: toLeBytes 8 (1000 : U64)⟩,
      ⟨ID, [⟨custody, false, false⟩], [31]⟩]
  length_le := by decide

/-- The token program grants what the lender uses up. -/
def lending : Outside where
  invoke := flashHost.invoke
  process _ chain := .ok fun key => if key = custody then managedChain custody else chain key

def backstopRecords : Chain → World := fun _ =>
  { start with actions := fun key => if key = backstopKey then some backstopAction else none }

def loanRun : ProgramResult Chain :=
  loan.run wincode backstopRuntime backstopRecords lending flashChain

def loanShared : ManageShared where
  executor := ⟨admin, true, false⟩
  vault := readonly vaultKey
  cpiAccounts := flashAccounts

def approveLeg : ManageLeg where
  subAccount := readonly subAccount
  action := readonly backstopKey
  args := approveArgs

/-- The call the admin hashed: none of its accounts or data are committed, the siblings are. -/
def backstopCall : ActionCall where
  programId := TOKEN_PROGRAM_ID
  ops := flashOps
  accounts := []
  ixData := []
  siblings := [⟨1, lender, [20], [custody]⟩, ⟨2, ID, [31], [custody]⟩]

def backstopValidated : ValidatedManageAccounts :=
  { managedValidated with action := backstopAction }

/-- The approve the leg relays. -/
def approveCpi : AuthorizedCpi :=
  okValue (approveLeg.authorize backstopRuntime (loan.host lending 0) loanShared flashChain
    backstopValidated) (by decide +kernel)

theorem backstopCall_commits : backstopCall.CommitsBackstop := by
  have hops : backstopCall.ops.decode = .ok
      [.ingestSiblingInstruction 1 0 1, .ingestSiblingAccount 1 0,
        .ingestSiblingInstruction 2 0 1, .ingestSiblingAccount 2 0] := by decide +kernel
  have hborrow : ∀ s, resolveSibling backstopCall.siblings 1 = .ok s → s.programId ≠ ID := by
    rintro s hs
    cases hs
    decide
  constructor
  · intro l r offset len s hl hop hs hid
    obtain rfl := Except.ok.inj (hops.symm.trans hl)
    simp only [List.mem_cons, Op.ingestSiblingInstruction.injEq, reduceCtorEq, List.not_mem_nil,
      or_false, false_or] at hop
    rcases hop with ⟨rfl, rfl, rfl⟩ | ⟨rfl, rfl, rfl⟩
    · exact absurd hid (hborrow s hs)
    · cases hs
      decide
  · intro l r index s hl hop hs hid
    obtain rfl := Except.ok.inj (hops.symm.trans hl)
    simp only [List.mem_cons, Op.ingestSiblingAccount.injEq, reduceCtorEq, List.not_mem_nil,
      or_false, false_or] at hop
    rcases hop with ⟨rfl, rfl⟩ | ⟨rfl, rfl⟩ <;> rfl

end Sample

theorem flash_transaction_clears_loan :
    ∃ after tr granted,
      Run (fun c e c' => Sample.loan.processInstruction Sample.wincode Sample.backstopRuntime
        Sample.backstopRecords Sample.lending c e = .ok c') Sample.flashChain tr after ∧
      ApprovalCleared tr (Sample.loan.host Sample.lending 0) 0 Sample.approveCpi
        Sample.backstopAction granted := by
  have hd : Sample.loanRun.isOk = true ∧
      Sample.approveLeg.validate Sample.backstopRuntime Sample.backstopRecords Sample.loanShared
        Sample.flashChain = .ok Sample.backstopValidated ∧
      Sample.backstopCall.hash Sample.backstopRuntime = .ok Sample.backstopDigest ∧
      Sample.backstopCall.preimage.mapError actionHashErrorToProgramError =
        Sample.approveCpi.hashed (Sample.loan.host Sample.lending 0) Sample.flashAccounts
          Sample.backstopAction.ops ∧
      (RoshiInstruction.manage Sample.approveArgs).serialize Sample.wincode =
        some Sample.approveData := by
    decide +kernel
  obtain ⟨hok, hv, hhash, hpre, hdata⟩ := hd
  obtain ⟨after, hafter⟩ : ∃ after, Sample.loanRun = .ok after := ⟨_, eq_okValue hok⟩
  obtain ⟨tr, hrun, hevents, hlegs⟩ := flash_transaction_clears Sample.wincode
    Sample.backstopRuntime Sample.backstopRecords Sample.lending Sample.loan Sample.flashChain after
    hafter
  refine ⟨after, tr, ?_⟩
  -- the approval is the first instruction, and its only leg
  cases hrun with
  | nil => cases hevents
  | @cons _ c _ e tr hstep hrest =>
    obtain ⟨rfl, -⟩ := List.cons.inj hevents
    obtain ⟨legTr, hlegRun, hlegEvents, hcleared⟩ := hlegs _ List.mem_cons_self
      (.manage Sample.approveArgs) Sample.loanShared [Sample.approveLeg] rfl
      (RoshiInstruction.decode_serialize hdata) rfl
    cases hlegRun with
    | nil => cases hlegEvents
    | @cons _ granted _ leg legTr hleg hlegRest =>
      obtain ⟨rfl, -⟩ := List.cons.inj hlegEvents
      exact ⟨granted, .cons hstep hrest, hcleared _ List.mem_cons_self _ Sample.approveCpi
        Sample.backstopCall hv (eq_okValue _) rfl hhash Sample.backstopCall_commits
        (NoCollision.of_eq hpre)⟩

end Roshi

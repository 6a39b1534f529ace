import Roshi.Relay.Manage

/-!
# Flash approvals

A `FlashApprove` leg leaves a delegate behind on purpose.  Its action commits two sibling
instructions of the transaction, a flash borrow and the program's own check that the
delegate is gone at the end, and the leg ties both to the approved account and its
allowance to the borrowed amount plus the fee (`flash_approve_bounded`).

Siblings are paired with their accounts by the first op of the same relative index.  That
a pairing is one to one follows from the two siblings being told apart by their program:
one index cannot name both.
-/

namespace Roshi

open Lib

/-! ### The committed siblings -/

/-- The relative index, offset and length of a sibling-instruction op. -/
def Op.siblingInstruction? : Op → Option (I8 × U8 × U8)
  | .ingestSiblingInstruction relativeIndex offset len => some (relativeIndex, offset, len)
  | _ => none

/-- The relative index and account index of a sibling-account op. -/
def Op.siblingAccount? : Op → Option (I8 × U8)
  | .ingestSiblingAccount relativeIndex index => some (relativeIndex, index)
  | _ => none

/-- The sibling at `relativeIndex` is `instruction`, and its account `index` is `source`. -/
structure Tied (t : Transaction) (source : Pubkey) (relativeIndex : I8) (index : Nat)
    (instruction : RawInstruction) : Prop where
  found : t.getInstructionRelative relativeIndex.toInt = .ok instruction
  tied : ∃ m, instruction.accounts[index]? = some m ∧ m.pubkey = source

/-- Two committed siblings, one of them the program's own, each tied to `source`; the other
one borrows `amount`, the eight bytes after its committed selector. -/
def FlashBound (t : Transaction) (ops : Ops) (source : Pubkey) (amount : U64) : Prop :=
  ∃ (l : List Op) (borrow cleared : I8) (offset len offset' len' index index' : U8)
    (b c : RawInstruction),
    ops.decode = .ok l ∧ borrow ≠ cleared ∧
    (l.filterMap Op.siblingInstruction?).Perm [(borrow, offset, len), (cleared, offset', len')] ∧
    (l.filterMap Op.siblingAccount?).Perm [(borrow, index), (cleared, index')] ∧
    Tied t source borrow index.toNat b ∧ b.programId ≠ ID ∧
    Tied t source cleared index'.toNat c ∧ c.programId = ID ∧
    offset.toNat + len.toNat + 8 ≤ b.data.length ∧
    amount = BitVec.ofNat 64 (leNat ((b.data.drop (offset.toNat + len.toNat)).take 8))

/-- With the sibling ops of `l` added. -/
def SiblingOps.adding (found : SiblingOps) (l : List Op) : SiblingOps where
  instructions := found.instructions ++
    (l.filterMap Op.siblingInstruction?).map fun x => (x.1, x.2.1.toNat + x.2.2.toNat)
  accounts := found.accounts ++ (l.filterMap Op.siblingAccount?).map fun x => (x.1, x.2.toNat)

theorem collectSiblingOp_eq (found : SiblingOps) (stored : StoredOp) :
    collectSiblingOp found stored = (decodeOp stored).map fun op => found.adding [op] := by
  rw [collectSiblingOp]
  cases decodeOp stored with
  | error e => rfl
  | ok op =>
    obtain ⟨instructions, accounts⟩ := found
    cases op with
    | ingestSiblingInstruction relativeIndex offset len =>
      show _ = Except.ok (SiblingOps.mk _ (accounts ++ []))
      rw [List.append_nil]
      rfl
    | ingestSiblingAccount relativeIndex index =>
      show _ = Except.ok (SiblingOps.mk (instructions ++ []) _)
      rw [List.append_nil]
      rfl
    | _ =>
      show _ = Except.ok (SiblingOps.mk (instructions ++ []) (accounts ++ []))
      rw [List.append_nil, List.append_nil]
      rfl

theorem foldl_adding (l : List Op) (found : SiblingOps) :
    l.foldl (fun found op => found.adding [op]) found = found.adding l := by
  induction l generalizing found with
  | nil => simp [SiblingOps.adding]
  | cons op l ih =>
    rw [List.foldl_cons, ih]
    cases hi : op.siblingInstruction? <;> cases ha : op.siblingAccount? <;>
      simp [SiblingOps.adding, hi, ha]

/-- The loop over the ops decodes all of them and collects the sibling ops in their order. -/
theorem foldlM_collectSiblingOp {stored : List StoredOp} {found found' : SiblingOps}
    (h : stored.foldlM collectSiblingOp found = .ok found') :
    ∃ l, stored.mapM StoredOp.tryToOp = .ok l ∧ found' = found.adding l := by
  rw [foldlM_eq_map_mapM collectSiblingOp_eq, map_eq_ok] at h
  obtain ⟨l, hl, rfl⟩ := h
  refine ⟨l, ?_, foldl_adding l found⟩
  simp only [mapM_eq_ok, decodeOp, mapError_eq_ok] at hl
  exact mapM_eq_ok.mpr hl

/-! ### The loop over the siblings -/

/-- **One sibling**: tied to the source, and the first of its kind. -/
theorem bindSibling_eq_ok {t : Transaction} {source : Pubkey} {accountOps : List (I8 × Nat)}
    {seen seen' : FlashSeen} {relativeIndex : I8} {amountOffset : Nat}
    (h : bindSibling t source accountOps seen (relativeIndex, amountOffset) = .ok seen') :
    ∃ index instruction, (relativeIndex, index) ∈ accountOps ∧
      Tied t source relativeIndex index instruction ∧
      ((instruction.programId = ID ∧ seen.clearedCheckSeen = false ∧
          seen' = ⟨seen.flashAmount, true⟩) ∨
        (instruction.programId ≠ ID ∧ seen.flashAmount = none ∧
          amountOffset + 8 ≤ instruction.data.length ∧
          seen' = ⟨some (BitVec.ofNat 64 (leNat ((instruction.data.drop amountOffset).take 8))),
            seen.clearedCheckSeen⟩)) := by
  simp only [bindSibling, bind_eq_ok, okOr_eq_ok, mapError_eq_ok, rejectIf_eq_ok, not_not,
    Prod.exists] at h
  obtain ⟨rel, index, hfind, instruction, hinstr, m, hm, _, htied, h⟩ := h
  have hmatch := List.find?_some hfind
  obtain rfl : rel = relativeIndex := of_decide_eq_true hmatch
  refine ⟨index, instruction, List.mem_of_find?_eq_some hfind, ⟨hinstr, m, hm, htied⟩, ?_⟩
  split at h
  · rename_i hid
    simp only [bind_eq_ok, rejectIf_eq_ok, Bool.not_eq_true, Except.ok.injEq] at h
    obtain ⟨_, hseen, rfl⟩ := h
    exact .inl ⟨hid, hseen, rfl⟩
  · rename_i hid
    simp only [bind_eq_ok, rejectIf_eq_ok, Bool.not_eq_true, Option.isSome_eq_false_iff,
      Option.isNone_iff_eq_none, okOr_eq_ok, Except.ok.injEq] at h
    obtain ⟨_, hseen, bytes, hbytes, rfl⟩ := h
    obtain ⟨-, hlen, rfl⟩ := getRange_eq_some hbytes
    refine .inr ⟨hid, hseen, hlen, ?_⟩
    rw [Nat.add_sub_cancel_left]

/-- Two different elements of a list of two are all of it. -/
theorem perm_pair {α : Type} {l : List α} {a b : α} (hl : l.length = 2) (ha : a ∈ l) (hb : b ∈ l)
    (hab : a ≠ b) : l.Perm [a, b] := by
  have hnodup : [a, b].Nodup := by simp [hab]
  have hsub : [a, b] ⊆ l := by
    intro x hx
    rcases List.mem_pair.mp hx with rfl | rfl
    · exact ha
    · exact hb
  exact ((hnodup.subperm hsub).perm_of_length_le (by rw [hl]; rfl)).symm

/-- The two siblings, in the order of their ops: of different kinds, so at different
indices. -/
theorem foldlM_bindSibling {t : Transaction} {source : Pubkey} {accountOps : List (I8 × Nat)}
    {r₁ r₂ : I8} {o₁ o₂ : Nat} {amount : U64}
    (h : [(r₁, o₁), (r₂, o₂)].foldlM (bindSibling t source accountOps) ⟨none, false⟩ =
      .ok ⟨some amount, true⟩) :
    ∃ (i₁ i₂ : Nat) (x₁ x₂ : RawInstruction), r₁ ≠ r₂ ∧ (r₁, i₁) ∈ accountOps ∧
      (r₂, i₂) ∈ accountOps ∧ Tied t source r₁ i₁ x₁ ∧ Tied t source r₂ i₂ x₂ ∧
      ((x₁.programId ≠ ID ∧ x₂.programId = ID ∧ o₁ + 8 ≤ x₁.data.length ∧
          amount = BitVec.ofNat 64 (leNat ((x₁.data.drop o₁).take 8))) ∨
        (x₂.programId ≠ ID ∧ x₁.programId = ID ∧ o₂ + 8 ≤ x₂.data.length ∧
          amount = BitVec.ofNat 64 (leNat ((x₂.data.drop o₂).take 8)))) := by
  simp only [List.foldlM_cons, List.foldlM_nil, bind_eq_ok] at h
  obtain ⟨seen₁, h₁, seen₂, h₂, hend⟩ := h
  obtain rfl : seen₂ = ⟨some amount, true⟩ := Except.ok.inj hend
  obtain ⟨i₁, x₁, hmem₁, htied₁, hkind₁⟩ := bindSibling_eq_ok h₁
  obtain ⟨i₂, x₂, hmem₂, htied₂, hkind₂⟩ := bindSibling_eq_ok h₂
  -- one index names one instruction, which is not of both kinds
  have hne : (x₁.programId = ID ↔ x₂.programId ≠ ID) → r₁ ≠ r₂ := by
    rintro hkind rfl
    obtain rfl : x₁ = x₂ := Except.ok.inj (htied₁.found.symm.trans htied₂.found)
    tauto
  rcases hkind₁ with ⟨hid₁, -, rfl⟩ | ⟨hid₁, -, hlen₁, rfl⟩
  · rcases hkind₂ with ⟨-, hseen, -⟩ | ⟨hid₂, -, hlen₂, heq⟩
    · cases hseen
    · obtain ⟨hamount, -⟩ := FlashSeen.mk.inj heq
      exact ⟨i₁, i₂, x₁, x₂, hne (by tauto), hmem₁, hmem₂, htied₁, htied₂,
        .inr ⟨hid₂, hid₁, hlen₂, Option.some.inj hamount⟩⟩
  · rcases hkind₂ with ⟨hid₂, -, heq⟩ | ⟨-, hseen, -⟩
    · obtain ⟨hamount, -⟩ := FlashSeen.mk.inj heq
      exact ⟨i₁, i₂, x₁, x₂, hne (by tauto), hmem₁, hmem₂, htied₁, htied₂,
        .inl ⟨hid₁, hid₂, hlen₁, Option.some.inj hamount⟩⟩
    · cases hseen

/-- The tied account of a relative index is one of the committed ones. -/
theorem exists_of_mem_accounts {l : List (I8 × U8)} {r : I8} {i : Nat}
    (h : (r, i) ∈ l.map fun x => (x.1, x.2.toNat)) :
    ∃ index : U8, (r, index) ∈ l ∧ index.toNat = i := by
  obtain ⟨⟨r', index⟩, hmem, heq⟩ := List.mem_map.mp h
  obtain ⟨rfl, rfl⟩ := Prod.mk.inj heq
  exact ⟨index, hmem, rfl⟩

/-- **Binding the siblings.** -/
theorem bindFlashSiblings_bound {t : Transaction} {ops : Ops} {cpiAccounts : List AccountInfo}
    {source : Pubkey} {amount : U64}
    (h : bindFlashSiblings t ops cpiAccounts source = .ok amount) :
    FlashBound t ops source amount := by
  simp only [bindFlashSiblings, iterOps, instructionsSysvar, bind_eq_ok, mapError_eq_ok,
    rejectIf_eq_ok, not_or, not_not, Except.ok.injEq] at h
  obtain ⟨stored, hstored, found, hfound, _, ⟨hlen, hlen'⟩, _, ⟨_, -, _, -, _, -, rfl⟩, seen, hseen,
    h⟩ := h
  obtain ⟨l, hmap, rfl⟩ := foldlM_collectSiblingOp hfound
  have hl : ops.decode = .ok l := by
    rw [Ops.decode, hstored]
    exact hmap
  have hinstr := List.nil_append
    ((l.filterMap Op.siblingInstruction?).map fun x => (x.1, x.2.1.toNat + x.2.2.toNat))
  have hacc := List.nil_append ((l.filterMap Op.siblingAccount?).map fun x => (x.1, x.2.toNat))
  simp only [SiblingOps.adding, hinstr, hacc] at hlen hlen' hseen
  obtain rfl : seen = ⟨some amount, true⟩ := by
    obtain ⟨a, b⟩ := seen
    cases a with
    | none => cases h
    | some a =>
      cases b with
      | false => cases h
      | true =>
        cases h
        rfl
  rw [List.length_map] at hlen hlen'
  obtain ⟨⟨r₁, o₁, n₁⟩, ⟨r₂, o₂, n₂⟩, hpair⟩ := List.length_eq_two.mp hlen
  rw [hpair] at hseen
  obtain ⟨i₁, i₂, x₁, x₂, hne, hmem₁, hmem₂, htied₁, htied₂, hkind⟩ := foldlM_bindSibling hseen
  obtain ⟨j₁, hj₁, rfl⟩ := exists_of_mem_accounts hmem₁
  obtain ⟨j₂, hj₂, rfl⟩ := exists_of_mem_accounts hmem₂
  have hperm := perm_pair hlen' hj₁ hj₂ fun h => hne (Prod.mk.inj h).1
  rcases hkind with ⟨hid₁, hid₂, hle, hamount⟩ | ⟨hid₂, hid₁, hle, hamount⟩
  · exact ⟨l, r₁, r₂, o₁, n₁, o₂, n₂, j₁, j₂, x₁, x₂, hl, hne, by rw [hpair], hperm, htied₁, hid₁,
      htied₂, hid₂, hle, hamount⟩
  · exact ⟨l, r₂, r₁, o₂, n₂, o₁, n₁, j₂, j₁, x₂, x₁, hl, hne.symm,
      by rw [hpair]; exact .swap _ _ _, hperm.trans (.swap _ _ _), htied₂, hid₂, htied₁, hid₁, hle,
      hamount⟩

/-! ### The approval -/

/-- What a flash approval leaves: an SPL approve was relayed, the siblings are bound to its
source, every custody the call could write was clean and all but the source still are, and
the source's allowance is the borrowed amount and its fee. -/
structure FlashApproved (host : Host) (cpi : AuthorizedCpi) (action : Action)
    (source : AccountInfo) (amount fee : U64) (before after : Chain) : Prop where
  program : isTokenProgram cpi.instruction.programId = true
  approve : cpi.instruction.data.head? = some SPL_APPROVE_TAG
  source_eq : cpi.accountInfos.head? = some source
  bound : FlashBound host.transaction action.ops source.key amount
  fee_eq : roundWithMin1 amount action.feeNum action.feeDen = .ok fee
  invoked : invokeAuthorizedCpi host cpi before = .ok after
  cleanBefore : ∀ m ∈ cpi.instruction.accounts, m.isWritable = true →
    (before m.pubkey).CustodyOf cpi.subAccountKey → (before m.pubkey).Clean cpi.subAccountKey
  cleanAfter : ∀ m ∈ cpi.instruction.accounts, m.isWritable = true →
    (before m.pubkey).CustodyOf cpi.subAccountKey → m.pubkey ≠ source.key →
      (after m.pubkey).Clean cpi.subAccountKey
  custody : (after source.key).CustodyOf cpi.subAccountKey
  noCloseAuthority : (after source.key).u32At TOKEN_ACCOUNT_CLOSE_AUTHORITY = 0
  delegated : ((after source.key).u64At TOKEN_ACCOUNT_DELEGATED_AMOUNT).toNat =
    amount.toNat + fee.toNat

/-- **A flash approval binds exactly one bounded allowance.** -/
theorem flash_approve_bounded {rt : Runtime} {host : Host} {chain before after : Chain}
    {cpiAccounts infos : List AccountInfo} {validated : ValidatedManageAccounts}
    {accountsStart : U8} {accountFlags : PackedAccountFlags} {ixData : List U8}
    {cpi : AuthorizedCpi} {action : Action}
    (hcpi : validateAuthorizedCpi rt host chain infos validated accountsStart accountFlags ixData
      = .ok cpi) (hscope : action.scope = .flashApprove)
    (h : settleAuthorizedCpi host cpi action cpiAccounts before = .ok after) :
    ∃ source amount fee, FlashApproved host cpi action source amount fee before after := by
  obtain ⟨-, _, _, _, hb⟩ := validateAuthorizedCpi_spec hcpi
  simp only [settleAuthorizedCpi, hscope, AuthorizedCpi.verifyIsApprove,
    AuthorizedCpi.approveSource, AuthorizedCpi.verifyFlashDelegate, bind_eq_ok, okOr_eq_ok,
    into_eq_ok, rejectIf_eq_ok,
    checkedAdd_eq_some, RawAccount.verifyFlashDelegate_eq_ok, Bool.not_eq_false, not_not,
    Except.ok.injEq] at h
  obtain ⟨_, ⟨_, hprogram, htag⟩, source, hsource, amount, hamount, fee, hfee, expected, hexpected,
    keys, hscan, _, hinvoke, _, hcheck, _, ⟨source', hsource', hcustody, hclose, hdelegated⟩,
    rfl⟩ := h
  obtain rfl : source = source' := Option.some.inj (hsource.symm.trans hsource')
  refine ⟨source, amount, fee, hprogram, htag, hsource, bindFlashSiblings_bound hamount, hfee,
    hinvoke, ?_, ?_, hcustody, hclose, ?_⟩
  · intro m hm hw hc
    exact (scan_spec hb hscan hm hw hc).1
  · intro m hm hw hc hne
    obtain ⟨-, hmem⟩ := scan_spec hb hscan hm hw hc
    exact reverify_spec hcheck _ hmem fun h => hne (Option.some.inj h).symm
  · rw [hdelegated, hexpected]

namespace Sample

/-- The lender. -/
def lender : Pubkey := Vector.replicate 32 9

/-- The running instruction, a borrow of 1000 into custody, and the backstop on custody. -/
def flashTransaction : Transaction where
  instructions :=
    [⟨ID, [], []⟩, ⟨lender, [⟨custody, false, true⟩], 20 :: toLeBytes 8 (1000 : U64)⟩,
      ⟨ID, [⟨custody, false, false⟩], [30]⟩]
  current := 0

/-- The selector and the first account of each of the two siblings. -/
def flashOps : Ops := storedOps [⟨4, 1, 0, 1⟩, ⟨5, 1, 0, 0⟩, ⟨4, 2, 0, 1⟩, ⟨5, 2, 0, 0⟩]

/-- What a flash approval of these siblings hashes. -/
def flashBytes : List U8 :=
  TOKEN_PROGRAM_ID.toList ++ ([4, 1] ++ lender.toList ++ [0, 1, 20]) ++
    ([5, 1, 0] ++ custody.toList) ++ ([4, 2] ++ ID.toList ++ [0, 1, 30]) ++
    ([5, 2, 0] ++ custody.toList)

/-- The SHA-256 of `flashBytes`. -/
def flashDigest : Bytes 32 :=
  #v[5, 7, 188, 218, 254, 215, 113, 127, 19, 144, 221, 203, 140, 220, 205, 171, 193, 236,
    155, 124, 51, 198, 146, 31, 189, 188, 66, 159, 164, 141, 204, 221]

/-- One percent for the lender. -/
def flashAction : Action :=
  { routeAction .flashApprove with
    actionHash := flashDigest, ops := flashOps, feeNum := 1, feeDen := 100 }

def flashRuntime : Runtime where
  findProgramAddress := runtime.findProgramAddress
  hashv chunks := if chunks = [flashBytes] then flashDigest else Bytes.zero 32

/-- The token program grants the lender 1010 of custody. -/
def flashHost : Host where
  transaction := flashTransaction
  invoke _ _ _ chain := .ok fun key =>
    if key = custody then ⟨TOKEN_PROGRAM_ID, false, tokenBytes
      { tokenAccount baseMint subAccount 0 with delegate := some lender, delegatedAmount := 1010 }⟩
    else chain key

/-- The chain with an executable token program. -/
def flashChain : Chain := fun key =>
  if key = TOKEN_PROGRAM_ID then ⟨SYSTEM_PROGRAM_ID, true, []⟩ else managedChain key

def flashAccounts : List AccountInfo :=
  [writable custody, readonly lender, readonly subAccount, readonly TOKEN_PROGRAM_ID,
    readonly INSTRUCTIONS_SYSVAR_ID]

/-- The approve: custody writable, the delegate, the sub-account signing. -/
def flashCpi : ProgramResult AuthorizedCpi :=
  validateAuthorizedCpi flashRuntime flashHost flashChain flashAccounts
    { managedValidated with action := flashAction } 0 ⟨3, [2]⟩ [4]

end Sample

theorem flash_approve_bounded_percent :
    ∃ cpi after source amount fee, Sample.flashCpi = .ok cpi ∧
      FlashApproved Sample.flashHost cpi Sample.flashAction source amount fee Sample.flashChain
        after := by
  have hok : (Sample.flashCpi.bind fun cpi => settleAuthorizedCpi Sample.flashHost cpi
      Sample.flashAction Sample.flashAccounts Sample.flashChain).isOk = true := by decide +kernel
  cases hcpi : Sample.flashCpi with
  | error e =>
    rw [hcpi] at hok
    cases hok
  | ok cpi =>
    rw [hcpi] at hok
    obtain ⟨source, amount, fee, happroved⟩ :=
      flash_approve_bounded hcpi (show Sample.flashAction.scope = _ from rfl) (eq_okValue hok)
    exact ⟨cpi, _, source, amount, fee, rfl, happroved⟩

end Roshi

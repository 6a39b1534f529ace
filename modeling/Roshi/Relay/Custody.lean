import Roshi.Token

/-!
# Custody accounts as bytes

A relayed program may do anything to the accounts it is given, so what the vault program
asks about them afterwards is asked of their bytes.  `Chain` is every account with its
data; the checks of `token.rs` the relays use are here as they read the token-account
layout.

`CustodyOf` is an initialized token account of a sub-account, `Clean` one nobody else
can spend or close.  `is_clean_custody` tells the three cases apart
(`isCleanCustody_eq_true`, `isCleanCustody_eq_false`).  Decoding the bytes gives back the
token ledger the rest of the development works with (`Chain.ledger`), and there the
checks agree.
-/

namespace Roshi

open Lib

/-! ### The token-account layout -/

def TOKEN_ACCOUNT_MINT : Nat := 0

def TOKEN_ACCOUNT_OWNER : Nat := 32

def TOKEN_ACCOUNT_AMOUNT : Nat := 64

def TOKEN_ACCOUNT_DELEGATE : Nat := 72

def TOKEN_ACCOUNT_STATE : Nat := 108

def TOKEN_ACCOUNT_DELEGATED_AMOUNT : Nat := 121

def TOKEN_ACCOUNT_CLOSE_AUTHORITY : Nat := 129

def TOKEN_ACCOUNT_LEN : Nat := 165

namespace RawAccount

variable (a : RawAccount)

/-- `Pubkey::try_from(&data[offset..offset + 32])`, within the data. -/
def pubkeyAt (offset : Nat) : Pubkey := Vector.ofFn fun i => a.data.getD (offset + i.val) 0

/-- `u32::from_le_bytes` of four bytes. -/
def u32At (offset : Nat) : U32 := BitVec.ofNat 32 (leNat ((a.data.drop offset).take 4))

/-- `u64::from_le_bytes` of eight bytes. -/
def u64At (offset : Nat) : U64 := BitVec.ofNat 64 (leNat ((a.data.drop offset).take 8))

/-- What every check on a token account asks first: owned by a token program, long enough
and initialized. -/
def isTokenAccount : Bool :=
  isTokenProgram a.owner && decide (TOKEN_ACCOUNT_LEN ≤ a.data.length) &&
    a.data.getD TOKEN_ACCOUNT_STATE 0 == 1

def hasTransferAuthority : Bool :=
  a.u32At TOKEN_ACCOUNT_DELEGATE != 0 || a.u32At TOKEN_ACCOUNT_CLOSE_AUTHORITY != 0

def hasCloseAuthority : Bool := a.u32At TOKEN_ACCOUNT_CLOSE_AUTHORITY != 0

def tokenAccountMint : ProgramResult Pubkey := do
  rejectIf (a.data.length < TOKEN_ACCOUNT_LEN) (.custom .invalidTokenAccount)
  .ok (a.pubkeyAt TOKEN_ACCOUNT_MINT)

def tokenAmount : ProgramResult U64 := do
  rejectIf (a.isTokenAccount = false) (.custom .invalidTokenAccount)
  .ok (a.u64At TOKEN_ACCOUNT_AMOUNT)

def verifyCustodyAccount (subaccount : Pubkey) : ProgramResult Unit := do
  rejectIf (a.isTokenAccount = false) (.custom .invalidTokenAccount)
  rejectIf (a.pubkeyAt TOKEN_ACCOUNT_OWNER ≠ subaccount) (.custom .invalidTokenAccount)
  rejectIf (a.hasTransferAuthority = true) (.custom .invalidTokenAccount)

/-- A swap endpoint may carry a delegate, but no close authority. -/
def verifySwapEndpointCustody (subaccount : Pubkey) : ProgramResult Unit := do
  rejectIf (a.isTokenAccount = false) (.custom .invalidTokenAccount)
  rejectIf (a.pubkeyAt TOKEN_ACCOUNT_OWNER ≠ subaccount) (.custom .invalidTokenAccount)
  rejectIf (a.hasCloseAuthority = true) (.custom .invalidTokenAccount)

/-- Every byte outside the amount is as it was in `pre`. -/
def verifySwapEndpointUnchanged (pre : List U8) : ProgramResult Unit :=
  rejectIf (pre.length ≠ a.data.length ∨
      pre.take TOKEN_ACCOUNT_AMOUNT ≠ a.data.take TOKEN_ACCOUNT_AMOUNT ∨
      pre.drop (TOKEN_ACCOUNT_AMOUNT + 8) ≠ a.data.drop (TOKEN_ACCOUNT_AMOUNT + 8))
    (.custom .invalidTokenAccount)

/-- `true` for a clean custody of `subaccount`, `false` for any other account, an error for
a custody somebody else can spend or close. -/
def isCleanCustody (subaccount : Pubkey) : ProgramResult Bool :=
  if a.isTokenAccount = false then .ok false
  else if a.pubkeyAt TOKEN_ACCOUNT_OWNER ≠ subaccount then .ok false
  else if a.hasTransferAuthority = true then .error (.custom .invalidTokenAccount)
  else .ok true

/-- The one-shot delegate of a flash repayment: exactly `expectedAmount`, no close
authority.  Who holds it is not asked. -/
def verifyFlashDelegate (subaccount : Pubkey) (expectedAmount : U64) : ProgramResult Unit := do
  rejectIf (a.isTokenAccount = false) (.custom .invalidTokenAccount)
  rejectIf (a.pubkeyAt TOKEN_ACCOUNT_OWNER ≠ subaccount) (.custom .invalidTokenAccount)
  rejectIf (a.u32At TOKEN_ACCOUNT_CLOSE_AUTHORITY ≠ 0) (.custom .flashDelegateMismatch)
  rejectIf (a.u64At TOKEN_ACCOUNT_DELEGATED_AMOUNT ≠ expectedAmount)
    (.custom .flashDelegateUnbounded)

/-! ### What the checks say -/

/-- An initialized token account of `subaccount`. -/
structure CustodyOf (subaccount : Pubkey) : Prop where
  program : isTokenProgram a.owner = true
  length : TOKEN_ACCOUNT_LEN ≤ a.data.length
  initialized : a.data.getD TOKEN_ACCOUNT_STATE 0 = 1
  owner : a.pubkeyAt TOKEN_ACCOUNT_OWNER = subaccount

/-- One that nobody else can spend or close. -/
structure Clean (subaccount : Pubkey) : Prop extends a.CustodyOf subaccount where
  noDelegate : a.u32At TOKEN_ACCOUNT_DELEGATE = 0
  noCloseAuthority : a.u32At TOKEN_ACCOUNT_CLOSE_AUTHORITY = 0

variable {a} {subaccount : Pubkey}

theorem isTokenAccount_iff : a.isTokenAccount = true ↔ isTokenProgram a.owner = true ∧
    TOKEN_ACCOUNT_LEN ≤ a.data.length ∧ a.data.getD TOKEN_ACCOUNT_STATE 0 = 1 := by
  rw [isTokenAccount, Bool.and_eq_true, Bool.and_eq_true, decide_eq_true_eq, beq_iff_eq, and_assoc]

theorem custodyOf_iff : a.CustodyOf subaccount ↔
    a.isTokenAccount = true ∧ a.pubkeyAt TOKEN_ACCOUNT_OWNER = subaccount := by
  rw [isTokenAccount_iff]
  constructor
  · rintro ⟨h1, h2, h3, h4⟩
    exact ⟨⟨h1, h2, h3⟩, h4⟩
  · rintro ⟨⟨h1, h2, h3⟩, h4⟩
    exact ⟨h1, h2, h3, h4⟩

theorem hasTransferAuthority_eq_false : a.hasTransferAuthority = false ↔
    a.u32At TOKEN_ACCOUNT_DELEGATE = 0 ∧ a.u32At TOKEN_ACCOUNT_CLOSE_AUTHORITY = 0 := by
  rw [hasTransferAuthority, Bool.or_eq_false_iff, bne_eq_false_iff_eq, bne_eq_false_iff_eq]

theorem clean_iff : a.Clean subaccount ↔
    a.CustodyOf subaccount ∧ a.hasTransferAuthority = false := by
  rw [hasTransferAuthority_eq_false]
  constructor
  · rintro ⟨h1, h2, h3⟩
    exact ⟨h1, h2, h3⟩
  · rintro ⟨h1, h2, h3⟩
    exact ⟨h1, h2, h3⟩

/-- **The classifier accepts** exactly the clean custodies. -/
theorem isCleanCustody_eq_true : a.isCleanCustody subaccount = .ok true ↔ a.Clean subaccount := by
  rw [clean_iff, custodyOf_iff, isCleanCustody]
  split
  · simp_all
  · split
    · simp_all
    · split
      · simp_all
      · simp_all

/-- **The classifier passes over** exactly the accounts that are no custody. -/
theorem isCleanCustody_eq_false :
    a.isCleanCustody subaccount = .ok false ↔ ¬ a.CustodyOf subaccount := by
  rw [custodyOf_iff, isCleanCustody]
  split
  · simp_all
  · split
    · simp_all
    · split
      · simp_all
      · simp_all

theorem verifySwapEndpointCustody_eq_ok {u : Unit} :
    a.verifySwapEndpointCustody subaccount = .ok u ↔
      a.CustodyOf subaccount ∧ a.u32At TOKEN_ACCOUNT_CLOSE_AUTHORITY = 0 := by
  rw [custodyOf_iff, ← bne_eq_false_iff_eq (a := a.u32At TOKEN_ACCOUNT_CLOSE_AUTHORITY),
    ← hasCloseAuthority]
  simp only [verifySwapEndpointCustody, bind_eq_ok, rejectIf_eq_ok, exists_const, not_not,
    Bool.not_eq_false, Bool.not_eq_true, and_assoc]

theorem verifyFlashDelegate_eq_ok {n : U64} {u : Unit} :
    a.verifyFlashDelegate subaccount n = .ok u ↔
      a.CustodyOf subaccount ∧ a.u32At TOKEN_ACCOUNT_CLOSE_AUTHORITY = 0 ∧
        a.u64At TOKEN_ACCOUNT_DELEGATED_AMOUNT = n := by
  rw [custodyOf_iff]
  simp only [verifyFlashDelegate, bind_eq_ok, rejectIf_eq_ok, exists_const, not_not,
    Bool.not_eq_false, and_assoc, ne_eq]

theorem tokenAmount_eq_ok {n : U64} :
    a.tokenAmount = .ok n ↔ a.isTokenAccount = true ∧ a.u64At TOKEN_ACCOUNT_AMOUNT = n := by
  simp only [tokenAmount, bind_eq_ok, rejectIf_eq_ok, exists_const, Bool.not_eq_false,
    Except.ok.injEq]

/-- The data differ at most in the eight bytes of the amount. -/
structure SameButAmount (pre post : List U8) : Prop where
  length : post.length = pre.length
  byte : ∀ i, ¬ (TOKEN_ACCOUNT_AMOUNT ≤ i ∧ i < TOKEN_ACCOUNT_AMOUNT + 8) → post[i]? = pre[i]?

theorem verifySwapEndpointUnchanged_eq_ok {pre : List U8} {u : Unit} :
    a.verifySwapEndpointUnchanged pre = .ok u ↔ SameButAmount pre a.data := by
  simp only [verifySwapEndpointUnchanged, rejectIf_eq_ok, not_or, not_not, ne_eq]
  constructor
  · rintro ⟨hlen, htake, hdrop⟩
    refine ⟨hlen.symm, ?_⟩
    intro i hi
    rcases Nat.lt_or_ge i TOKEN_ACCOUNT_AMOUNT with hlt | hge
    · rw [← List.getElem?_take_of_lt hlt, ← htake, List.getElem?_take_of_lt hlt]
    · obtain ⟨j, rfl⟩ := Nat.exists_eq_add_of_le
        (show TOKEN_ACCOUNT_AMOUNT + 8 ≤ i from Nat.le_of_not_lt fun h => hi ⟨hge, h⟩)
      rw [← List.getElem?_drop, ← hdrop, List.getElem?_drop]
  · rintro ⟨hlen, hbyte⟩
    refine ⟨hlen.symm, ?_, ?_⟩
    · refine List.ext_getElem? fun i => ?_
      rw [List.getElem?_take, List.getElem?_take]
      split
      · rename_i hlt
        exact (hbyte i fun h => absurd h.1 (Nat.not_le.mpr hlt)).symm
      · rfl
    · refine List.ext_getElem? fun i => ?_
      rw [List.getElem?_drop, List.getElem?_drop]
      exact (hbyte _ fun h => absurd h.2 (Nat.not_lt.mpr (Nat.le_add_right _ _))).symm

end RawAccount

/-! ### The ledger behind the bytes -/

/-- A `COption` key: its four-byte tag, then the key. -/
def RawAccount.optionalKeyAt (a : RawAccount) (offset : Nat) : Option Pubkey :=
  if a.u32At offset = 0 then none else some (a.pubkeyAt (offset + 4))

def RawAccount.toTokenAccount (a : RawAccount) : TokenAccount where
  program := a.owner
  mint := a.pubkeyAt TOKEN_ACCOUNT_MINT
  owner := a.pubkeyAt TOKEN_ACCOUNT_OWNER
  amount := a.u64At TOKEN_ACCOUNT_AMOUNT
  delegate := a.optionalKeyAt TOKEN_ACCOUNT_DELEGATE
  delegatedAmount := a.u64At TOKEN_ACCOUNT_DELEGATED_AMOUNT
  state := a.data.getD TOKEN_ACCOUNT_STATE 0
  closeAuthority := a.optionalKeyAt TOKEN_ACCOUNT_CLOSE_AUTHORITY

section SameButAmount

variable {pre post : List U8}

/-- A byte outside the amount is the same on both sides. -/
theorem RawAccount.SameButAmount.getD (h : SameButAmount pre post) {i : Nat}
    (hi : i < TOKEN_ACCOUNT_AMOUNT ∨ TOKEN_ACCOUNT_AMOUNT + 8 ≤ i) :
    post.getD i 0 = pre.getD i 0 := by
  rw [List.getD_eq_getElem?_getD, List.getD_eq_getElem?_getD, h.byte i (by omega)]

/-- And so is a field. -/
theorem RawAccount.SameButAmount.slice (h : SameButAmount pre post) {offset n : Nat}
    (ho : offset + n ≤ TOKEN_ACCOUNT_AMOUNT ∨ TOKEN_ACCOUNT_AMOUNT + 8 ≤ offset) :
    (post.drop offset).take n = (pre.drop offset).take n := by
  refine List.ext_getElem? fun i => ?_
  rw [List.getElem?_take, List.getElem?_take]
  split
  · rw [List.getElem?_drop, List.getElem?_drop]
    exact h.byte _ (by omega)
  · rfl

end SameButAmount

/-- **Every field but the balance is kept**: mint, owner, delegate and its allowance, state
and close authority. -/
theorem RawAccount.SameButAmount.toTokenAccount_eq {a b : RawAccount}
    (h : SameButAmount a.data b.data) :
    b.toTokenAccount = { a.toTokenAccount with
      program := b.owner, amount := b.u64At TOKEN_ACCOUNT_AMOUNT } := by
  have hkey : ∀ offset, (offset + 32 ≤ TOKEN_ACCOUNT_AMOUNT ∨ TOKEN_ACCOUNT_AMOUNT + 8 ≤ offset) →
      b.pubkeyAt offset = a.pubkeyAt offset := by
    intro offset ho
    refine Vector.ext fun i hi => ?_
    simp only [RawAccount.pubkeyAt, Vector.getElem_ofFn]
    exact h.getD (by omega)
  have hoption : ∀ offset, TOKEN_ACCOUNT_AMOUNT + 8 ≤ offset →
      b.optionalKeyAt offset = a.optionalKeyAt offset := by
    intro offset ho
    rw [optionalKeyAt, optionalKeyAt, u32At, u32At, h.slice (.inr ho), hkey _ (.inr (by omega))]
  have hallowance : b.u64At TOKEN_ACCOUNT_DELEGATED_AMOUNT =
      a.u64At TOKEN_ACCOUNT_DELEGATED_AMOUNT := by
    rw [u64At, u64At, h.slice (.inr (by decide))]
  simp only [toTokenAccount, TokenAccount.mk.injEq]
  exact ⟨trivial, hkey _ (.inl (by decide)), hkey _ (.inl (by decide)), trivial,
    hoption _ (by decide), hallowance, h.getD (.inr (by decide)), hoption _ (by decide)⟩

/-- The mint layout: authority, supply, decimals, the initialized byte, extensions. -/
def RawAccount.toMint (a : RawAccount) : Mint where
  program := a.owner
  mintAuthority := a.optionalKeyAt 0
  supply := a.u64At 36
  decimals := a.data.getD 44 0
  isInitialized := a.data.getD 45 0 == 1
  extensions := a.data.drop 82

/-- The token ledger a chain holds. -/
def Chain.ledger (c : Chain) : Ledger where
  accounts key :=
    if isTokenProgram (c key).owner = true ∧ TOKEN_ACCOUNT_LEN ≤ (c key).data.length then
      some (c key).toTokenAccount
    else none
  mints key :=
    if isTokenProgram (c key).owner = true ∧ 82 ≤ (c key).data.length then some (c key).toMint
    else none

theorem Chain.ledger_tokenAccount (c : Chain) (key : Pubkey) :
    c.ledger.tokenAccount key =
      if (c key).isTokenAccount = true then .ok (c key).toTokenAccount
      else .error (.custom .invalidTokenAccount) := by
  by_cases hl : isTokenProgram (c key).owner = true ∧ TOKEN_ACCOUNT_LEN ≤ (c key).data.length
  · have hacc : c.ledger.accounts key = some (c key).toTokenAccount := if_pos hl
    rw [Ledger.tokenAccount, hacc]
    by_cases hs : (c key).data.getD TOKEN_ACCOUNT_STATE 0 = 1
    · have hpass : ¬ (isTokenProgram (c key).toTokenAccount.program = false ∨
          (c key).toTokenAccount.state ≠ 1) :=
        not_or.mpr ⟨Bool.ne_false_iff.mpr hl.1, not_not.mpr hs⟩
      rw [if_pos (RawAccount.isTokenAccount_iff.mpr ⟨hl.1, hl.2, hs⟩), okOr, ok_bind,
        rejectIf_of_not hpass, ok_bind]
    · have hfail : isTokenProgram (c key).toTokenAccount.program = false ∨
          (c key).toTokenAccount.state ≠ 1 := .inr hs
      rw [if_neg fun h => hs (RawAccount.isTokenAccount_iff.mp h).2.2, okOr, ok_bind, rejectIf,
        if_pos hfail]
      rfl
  · have hacc : c.ledger.accounts key = none := if_neg hl
    rw [Ledger.tokenAccount, hacc, if_neg]
    · rfl
    · intro h
      obtain ⟨h1, h2, -⟩ := RawAccount.isTokenAccount_iff.mp h
      exact hl ⟨h1, h2⟩

/-- **Amounts agree** between the bytes and the ledger. -/
theorem Chain.ledger_tokenAmount (c : Chain) (info : AccountInfo) :
    c.ledger.tokenAmount info = (c info.key).tokenAmount := by
  rw [Ledger.tokenAmount, Chain.ledger_tokenAccount, RawAccount.tokenAmount]
  cases (c info.key).isTokenAccount <;> rfl

theorem optionalKeyAt_eq_none {a : RawAccount} {offset : Nat} :
    a.optionalKeyAt offset = none ↔ a.u32At offset = 0 := by
  simp [RawAccount.optionalKeyAt]

/-- **Custody checks agree** between the bytes and the ledger. -/
theorem Chain.ledger_verifyCustodyAccount (c : Chain) (info : AccountInfo) (subaccount : Pubkey) :
    c.ledger.verifyCustodyAccount info subaccount =
      (c info.key).verifyCustodyAccount subaccount := by
  rw [Ledger.verifyCustodyAccount, Chain.ledger_tokenAccount, RawAccount.verifyCustodyAccount]
  cases (c info.key).isTokenAccount with
  | false => rfl
  | true =>
    have hauth : ((c info.key).toTokenAccount.delegate ≠ none ∨
        (c info.key).toTokenAccount.closeAuthority ≠ none) ↔
        (c info.key).hasTransferAuthority = true := by
      rw [← not_iff_not, not_or, not_not, not_not, Bool.not_eq_true,
        RawAccount.hasTransferAuthority_eq_false, ← optionalKeyAt_eq_none, ← optionalKeyAt_eq_none]
      rfl
    have hreject : rejectIf ((c info.key).toTokenAccount.delegate ≠ none ∨
        (c info.key).toTokenAccount.closeAuthority ≠ none)
          (ProgramError.custom .invalidTokenAccount) =
        rejectIf ((c info.key).hasTransferAuthority = true) (.custom .invalidTokenAccount) :=
      if_congr hauth rfl rfl
    have hpass : rejectIf (true = false) (ProgramError.custom .invalidTokenAccount) = .ok () := rfl
    have howner : (c info.key).toTokenAccount.owner = (c info.key).pubkeyAt TOKEN_ACCOUNT_OWNER :=
      rfl
    rw [if_pos rfl, ok_bind, hreject, hpass, ok_bind, howner]

end Roshi

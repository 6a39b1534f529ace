import Roshi.Runtime

/-!
# Token accounts

The token ledger the program reads and moves through CPIs, and the checks of
`token.rs` on the accounts it is handed.

`transfer`, `mintTo` and `burn` follow the SPL Token processor: an account of
another token program, a frozen or uninitialized account, a mint mismatch, an
authority that is neither the owner nor a delegate with allowance, or a balance
that does not suffice make the CPI fail; a transfer from an account to itself
passes the same checks and changes nothing.
-/

namespace Roshi

open Lib

/-- An SPL token account; `state` is 0 uninitialized, 1 initialized, 2 frozen. -/
structure TokenAccount where
  /-- The token program that owns the account. -/
  program : Pubkey
  mint : Pubkey
  owner : Pubkey
  amount : U64
  delegate : Option Pubkey
  delegatedAmount : U64
  state : U8
  closeAuthority : Option Pubkey
  deriving DecidableEq

/-- An SPL mint; `extensions` is the account data after the 82-byte base layout. -/
structure Mint where
  program : Pubkey
  mintAuthority : Option Pubkey
  supply : U64
  decimals : U8
  isInitialized : Bool
  extensions : List U8
  deriving DecidableEq

/-- Every token account and mint, by address. -/
structure Ledger where
  accounts : Pubkey → Option TokenAccount
  mints : Pubkey → Option Mint

namespace Ledger

/-- The amount an address holds; nothing at an address with no token account. -/
def balance (l : Ledger) (key : Pubkey) : U64 :=
  match l.accounts key with
  | some a => a.amount
  | none => 0

/-- The `mint` tokens an address holds. -/
def held (l : Ledger) (mint key : Pubkey) : Nat :=
  match l.accounts key with
  | some a => if a.mint = mint then a.amount.toNat else 0
  | none => 0

/-- The supply of a mint. -/
def supply (l : Ledger) (key : Pubkey) : U64 :=
  match l.mints key with
  | some m => m.supply
  | none => 0

def setAccount (l : Ledger) (key : Pubkey) (a : TokenAccount) : Ledger :=
  { l with accounts := Function.update l.accounts key (some a) }

def setMint (l : Ledger) (key : Pubkey) (m : Mint) : Ledger :=
  { l with mints := Function.update l.mints key (some m) }

end Ledger

/-! ### The SPL processor -/

namespace Spl

/-- The failure of a token CPI. -/
def fail : ProgramError := .token

/-- `validate_owner` with the delegate branch: a delegate spends its allowance, anyone
else has to be the owner.  `spend` is off for a self-transfer. -/
def authorize (a : TokenAccount) (authority : Pubkey) (amount : U64) (spend : Bool) :
    ProgramResult TokenAccount :=
  if a.delegate = some authority then do
    let left ← okOr (checkedSub a.delegatedAmount amount) fail
    .ok (if spend then
      { a with delegatedAmount := left, delegate := if left = 0 then none else a.delegate } else a)
  else do
    rejectIf (a.owner ≠ authority) fail
    .ok a

/-- An initialized, unfrozen account of the token program that is called. -/
def usable (l : Ledger) (program key : Pubkey) : ProgramResult TokenAccount := do
  let a ← okOr (l.accounts key) fail
  rejectIf (a.program ≠ program ∨ a.state ≠ 1) fail
  .ok a

def usableMint (l : Ledger) (program key : Pubkey) : ProgramResult Mint := do
  let m ← okOr (l.mints key) fail
  rejectIf (m.program ≠ program ∨ m.isInitialized = false) fail
  .ok m

/-- `Transfer`. -/
def transfer (l : Ledger) (program source destination authority : Pubkey) (amount : U64) :
    ProgramResult Ledger := do
  let src ← usable l program source
  let dst ← usable l program destination
  let left ← okOr (checkedSub src.amount amount) fail
  rejectIf (src.mint ≠ dst.mint) fail
  if source = destination then do
    let _ ← authorize src authority amount false
    .ok l
  else do
    let src ← authorize src authority amount true
    let raised ← okOr (checkedAdd dst.amount amount) fail
    .ok ((l.setAccount source { src with amount := left }).setAccount destination
      { dst with amount := raised })

/-- `MintTo`. -/
def mintTo (l : Ledger) (program mint destination authority : Pubkey) (amount : U64) :
    ProgramResult Ledger := do
  let dst ← usable l program destination
  rejectIf (dst.mint ≠ mint) fail
  let m ← usableMint l program mint
  rejectIf (m.mintAuthority ≠ some authority) fail
  let raised ← okOr (checkedAdd dst.amount amount) fail
  let supply ← okOr (checkedAdd m.supply amount) fail
  .ok ((l.setAccount destination { dst with amount := raised }).setMint mint { m with supply })

/-- Tokens held by the system program or the incinerator burn for anyone. -/
def authorizeBurn (a : TokenAccount) (authority : Pubkey) (amount : U64) :
    ProgramResult TokenAccount :=
  if a.owner = SYSTEM_PROGRAM_ID ∨ a.owner = INCINERATOR_ID then .ok a
  else authorize a authority amount true

/-- `Burn`. -/
def burn (l : Ledger) (program source mint authority : Pubkey) (amount : U64) :
    ProgramResult Ledger := do
  let src ← usable l program source
  rejectIf (src.mint ≠ mint) fail
  let m ← usableMint l program mint
  let left ← okOr (checkedSub src.amount amount) fail
  let src ← authorizeBurn src authority amount
  let supply ← okOr (checkedSub m.supply amount) fail
  .ok ((l.setAccount source { src with amount := left }).setMint mint { m with supply })

end Spl

/-! ### The CPIs of `token.rs` -/

/-- The privileges of a token CPI: both token accounts writable, and the authority
signing, either itself or as a PDA of the program. -/
def requirePrivileges (first second authority : AccountInfo) (pdaSigned : Bool) :
    ProgramResult Unit :=
  rejectIf (first.isWritable = false ∨ second.isWritable = false
    ∨ (pdaSigned = false ∧ authority.isSigner = false)) .cpi

section Cpis

variable (l : Ledger) (tokenProgram : AccountInfo)

/-- `transfer`: authorized by a transaction signer. -/
def transfer (source destination authority : AccountInfo) (amount : U64) :
    ProgramResult Ledger := do
  requirePrivileges source destination authority false
  Spl.transfer l tokenProgram.key source.key destination.key authority.key amount

/-- `transfer_signed`: authorized by a PDA. -/
def transferSigned (source destination authority : AccountInfo) (amount : U64) :
    ProgramResult Ledger := do
  requirePrivileges source destination authority true
  Spl.transfer l tokenProgram.key source.key destination.key authority.key amount

def burn (account mint authority : AccountInfo) (amount : U64) : ProgramResult Ledger := do
  requirePrivileges account mint authority false
  Spl.burn l tokenProgram.key account.key mint.key authority.key amount

def mintToSigned (mint destination mintAuthority : AccountInfo) (amount : U64) :
    ProgramResult Ledger := do
  requirePrivileges mint destination mintAuthority true
  Spl.mintTo l tokenProgram.key mint.key destination.key mintAuthority.key amount

end Cpis

/-! ### Checks on accounts -/

def isTokenProgram (key : Pubkey) : Bool :=
  key == TOKEN_PROGRAM_ID || key == TOKEN_2022_PROGRAM_ID

/-- The walk over the `(type, length, value)` entries behind the account-type byte: only
display metadata (types 18 and 19) is allowed, type 0 ends the list. -/
def verifyExtensionEntries : List U8 → ProgramResult Unit
  | [] => .ok ()
  | t0 :: t1 :: l0 :: l1 :: rest =>
    let extensionType := leNat [t0, t1]
    let length := leNat [l0, l1]
    if extensionType = 0 then .ok ()
    else if extensionType ≠ 18 ∧ extensionType ≠ 19 then .error (.custom .invalidMintAccount)
    else if rest.length < length then .error (.custom .invalidMintAccount)
    else verifyExtensionEntries (rest.drop length)
  | _ => .error (.custom .invalidMintAccount)
termination_by data => data.length
decreasing_by
  simp only [List.length_drop, List.length_cons]
  omega

def verifyToken2022MintExtensions (data : List U8) : ProgramResult Unit :=
  if data.length = 82 then .ok ()
  else do
    rejectIf (data.length ≤ 165 ∨ data.getD 165 0 ≠ 1) (.custom .invalidMintAccount)
    verifyExtensionEntries (data.drop 166)

namespace Ledger

variable (l : Ledger)

/-- The token program owning whatever is stored at `key`. -/
def programOf (key : Pubkey) : Option Pubkey :=
  match l.accounts key with
  | some a => some a.program
  | none => (l.mints key).map Mint.program

def verifyTokenProgramFor (tokenProgram account : AccountInfo) : ProgramResult Unit := do
  rejectIf (isTokenProgram tokenProgram.key = false) .incorrectProgramId
  rejectIf (l.programOf account.key ≠ some tokenProgram.key) .incorrectProgramId

/-- An initialized token account of either token program. -/
def tokenAccount (key : Pubkey) : ProgramResult TokenAccount := do
  let a ← okOr (l.accounts key) (.custom .invalidTokenAccount)
  rejectIf (isTokenProgram a.program = false ∨ a.state ≠ 1) (.custom .invalidTokenAccount)
  .ok a

def tokenAmount (account : AccountInfo) : ProgramResult U64 := do
  let a ← l.tokenAccount account.key
  .ok a.amount

def mintSupply (account : AccountInfo) : ProgramResult U64 := do
  let m ← okOr (l.mints account.key) (.custom .invalidMintAccount)
  rejectIf (isTokenProgram m.program = false ∨ m.isInitialized = false)
    (.custom .invalidMintAccount)
  .ok m.supply

/-- An initialized mint of a token program. -/
def ValidMint (key : Pubkey) : Prop :=
  ∃ m, l.mints key = some m ∧ isTokenProgram m.program = true ∧ m.isInitialized = true

/-- What a token program lets anyone but the authority of `mint` do to it: burn. -/
structure MintKept (mint : Pubkey) (l l' : Ledger) : Prop where
  supply_le : (l'.supply mint).toNat ≤ (l.supply mint).toNat
  valid : l.ValidMint mint → l'.ValidMint mint

def verifyTokenAccountMint (account : AccountInfo) (expectedMint : Pubkey) :
    ProgramResult Unit := do
  let a ← l.tokenAccount account.key
  rejectIf (a.mint ≠ expectedMint) (.custom .invalidTokenAccount)

def verifyTokenAccountMintAndOwner (account : AccountInfo) (expectedMint expectedOwner : Pubkey) :
    ProgramResult Unit := do
  l.verifyTokenAccountMint account expectedMint
  let a ← l.tokenAccount account.key
  rejectIf (a.owner ≠ expectedOwner) (.custom .invalidTokenAccount)

/-- A token account fully controlled by `subaccount`: no delegate, no close authority. -/
def verifyCustodyAccount (account : AccountInfo) (subaccount : Pubkey) : ProgramResult Unit := do
  let a ← l.tokenAccount account.key
  rejectIf (a.owner ≠ subaccount) (.custom .invalidTokenAccount)
  rejectIf (a.delegate ≠ none ∨ a.closeAuthority ≠ none) (.custom .invalidTokenAccount)

/-- Token-2022 mints may carry display metadata, classic mints nothing.  The base bytes
of the layout are not read by the extension walk, so any 82 stand in for them. -/
def verifyMintLayout (m : Mint) : ProgramResult Unit :=
  if m.program = TOKEN_2022_PROGRAM_ID then
    verifyToken2022MintExtensions (List.replicate 82 0 ++ m.extensions)
  else rejectIf (m.extensions.length ≠ 0) (.custom .invalidMintAccount)

def verifyMint (account : AccountInfo) (expectedKey : Pubkey) (decimals : U8)
    (expectedAuthority : Option Pubkey) : ProgramResult Mint := do
  rejectIf (account.key ≠ expectedKey) (.custom .invalidMintAccount)
  let m ← okOr (l.mints account.key) (.custom .invalidMintAccount)
  rejectIf (isTokenProgram m.program = false) (.custom .invalidMintAccount)
  verifyMintLayout m
  rejectIf (m.isInitialized = false ∨ m.decimals ≠ decimals) (.custom .invalidMintAccount)
  rejectIf (expectedAuthority ≠ none ∧ m.mintAuthority ≠ expectedAuthority)
    (.custom .invalidMintAccount)
  .ok m

end Ledger

/-! ### What the token CPIs do -/

namespace Ledger

variable {l : Ledger} {k key : Pubkey} {a : TokenAccount} {m : Mint}

@[simp] theorem balance_setAccount :
    (l.setAccount key a).balance k = if k = key then a.amount else l.balance k := by
  unfold balance setAccount
  rcases eq_or_ne k key with rfl | h
  · simp
  · simp [h]

theorem held_setAccount {mint : Pubkey} :
    (l.setAccount key a).held mint k =
      if k = key then (if a.mint = mint then a.amount.toNat else 0) else l.held mint k := by
  unfold held setAccount
  rcases eq_or_ne k key with rfl | h
  · simp
  · simp [h]

@[simp] theorem held_setMint {mint : Pubkey} : (l.setMint key m).held mint k = l.held mint k := rfl

theorem held_of_some (mint : Pubkey) (h : l.accounts key = some a) :
    l.held mint key = if a.mint = mint then a.amount.toNat else 0 := by
  rw [held, h]

@[simp] theorem balance_setMint : (l.setMint key m).balance k = l.balance k := rfl

@[simp] theorem supply_setAccount : (l.setAccount key a).supply k = l.supply k := rfl

@[simp] theorem supply_setMint :
    (l.setMint key m).supply k = if k = key then m.supply else l.supply k := by
  unfold supply setMint
  rcases eq_or_ne k key with rfl | h
  · simp
  · simp [h]

theorem balance_of_some (h : l.accounts key = some a) : l.balance key = a.amount := by
  rw [balance, h]

theorem supply_of_some (h : l.mints key = some m) : l.supply key = m.supply := by
  rw [supply, h]

/-- The supply of a mint is read off the mints alone. -/
theorem supply_congr {l' : Ledger} (h : l'.mints = l.mints) (k : Pubkey) :
    l'.supply k = l.supply k := by
  rw [supply, supply, h]

theorem mintSupply_eq_ok {account : AccountInfo} {s : U64} (h : l.mintSupply account = .ok s) :
    l.supply account.key = s := by
  simp only [mintSupply, bind_eq_ok, okOr_eq_ok, Except.ok.injEq] at h
  obtain ⟨m, hm, -, -, rfl⟩ := h
  exact supply_of_some hm

theorem mintSupply_of_valid {account : AccountInfo} (h : l.ValidMint account.key) :
    l.mintSupply account = .ok (l.supply account.key) := by
  obtain ⟨m, hm, hp, hi⟩ := h
  simp only [mintSupply, bind_eq_ok, okOr_eq_ok, rejectIf_eq_ok, Except.ok.injEq]
  exact ⟨m, hm, (), by simp [hp, hi], (supply_of_some hm).symm⟩

theorem validMint_congr {l' : Ledger} (h : l'.mints = l.mints) (hv : l.ValidMint k) :
    l'.ValidMint k := by
  rw [ValidMint, h]
  exact hv

/-- A mint is valid at any supply. -/
theorem ValidMint.setMint_supply {s : U64} (hm : l.mints key = some m) (h : l.ValidMint k) :
    (l.setMint key { m with supply := s }).ValidMint k := by
  obtain ⟨m', hm', hp, hi⟩ := h
  rcases eq_or_ne k key with rfl | hk
  · obtain rfl : m' = m := Option.some.inj (hm'.symm.trans hm)
    exact ⟨{ m' with supply := s }, by simp [setMint], hp, hi⟩
  · exact ⟨m', by simp [setMint, hk, hm'], hp, hi⟩

theorem verifyMint_eq_ok {account : AccountInfo} {d : U8} {auth : Option Pubkey}
    (h : l.verifyMint account k d auth = .ok m) : l.mints k = some m := by
  simp only [verifyMint, bind_eq_ok, okOr_eq_ok, rejectIf_eq_ok, not_not, Except.ok.injEq] at h
  obtain ⟨_, hk, m', hm, _, -, _, -, _, -, _, -, rfl⟩ := h
  rw [← hk]
  exact hm

theorem tokenAccount_eq_ok {k : Pubkey} {a : TokenAccount} (h : l.tokenAccount k = .ok a) :
    l.accounts k = some a := by
  simp only [tokenAccount, bind_eq_ok, okOr_eq_ok, Except.ok.injEq] at h
  obtain ⟨a', ha, -, -, rfl⟩ := h
  exact ha

theorem tokenAmount_eq_ok {account : AccountInfo} {n : U64} (h : l.tokenAmount account = .ok n) :
    l.balance account.key = n := by
  simp only [tokenAmount, bind_eq_ok, Except.ok.injEq] at h
  obtain ⟨a, ha, rfl⟩ := h
  exact balance_of_some (tokenAccount_eq_ok ha)

theorem MintKept.refl (mint : Pubkey) (l : Ledger) : l.MintKept mint l := ⟨Nat.le_refl _, id⟩

theorem MintKept.trans {mint : Pubkey} {l' l'' : Ledger} (h : l.MintKept mint l')
    (h' : l'.MintKept mint l'') : l.MintKept mint l'' :=
  ⟨h'.supply_le.trans h.supply_le, h'.valid ∘ h.valid⟩

theorem mints_eq_none (hnew : l.programOf key = none) : l.mints key = none := by
  rw [programOf] at hnew
  split at hnew
  · cases hnew
  · exact Option.map_eq_none_iff.mp hnew

/-- A mint made where nothing was is another one. -/
theorem mintKept_setMint (hnew : l.programOf key = none) (hm : m.supply = 0) :
    l.MintKept k (l.setMint key m) := by
  constructor
  · rw [supply_setMint]
    split
    · rw [hm]
      exact Nat.zero_le _
    · exact Nat.le_refl _
  · rintro ⟨m', hm', hp, hi⟩
    have hne : k ≠ key := by
      rintro rfl
      rw [mints_eq_none hnew] at hm'
      cases hm'
    exact ⟨m', by simp [setMint, hne, hm'], hp, hi⟩

end Ledger

namespace Spl

variable {l l' : Ledger} {program source destination authority mint : Pubkey} {amount : U64}
  {a a' : TokenAccount}

theorem usable_eq_ok {k : Pubkey} (h : usable l program k = .ok a) : l.accounts k = some a := by
  simp only [usable, bind_eq_ok, okOr_eq_ok, Except.ok.injEq] at h
  obtain ⟨a', ha, -, -, rfl⟩ := h
  exact ha

theorem usableMint_eq_ok {k : Pubkey} {m : Mint} (h : usableMint l program k = .ok m) :
    l.mints k = some m := by
  simp only [usableMint, bind_eq_ok, okOr_eq_ok, Except.ok.injEq] at h
  obtain ⟨m', hm, -, -, rfl⟩ := h
  exact hm

/-- **A transfer** moves exactly `amount` between distinct accounts, nothing between an
account and itself, and touches no mint. -/
theorem transfer_spec (h : transfer l program source destination authority amount = .ok l') :
    l'.mints = l.mints ∧ (source = destination → l' = l) ∧
      (source ≠ destination → ∀ k,
        (l'.balance k).toNat + (if k = source then amount.toNat else 0) =
          (l.balance k).toNat + if k = destination then amount.toNat else 0) := by
  simp only [transfer, bind_eq_ok, okOr_eq_ok, checkedSub_eq_some] at h
  obtain ⟨src, hsrc, dst, hdst, left, hleft, -, -, h⟩ := h
  have hs := Ledger.balance_of_some (usable_eq_ok hsrc)
  have hd := Ledger.balance_of_some (usable_eq_ok hdst)
  split at h
  · rename_i heq
    simp only [bind_eq_ok, Except.ok.injEq] at h
    obtain ⟨-, -, rfl⟩ := h
    exact ⟨rfl, fun _ => rfl, fun hne => (hne heq).elim⟩
  · rename_i hne
    simp only [bind_eq_ok, okOr_eq_ok, checkedAdd_eq_some, Except.ok.injEq] at h
    obtain ⟨src', -, raised, hraised, rfl⟩ := h
    refine ⟨rfl, fun heq => (hne heq).elim, fun _ k => ?_⟩
    rw [Ledger.balance_setAccount, Ledger.balance_setAccount]
    rcases eq_or_ne k destination with rfl | hkd
    · rw [if_pos rfl, if_pos rfl, if_neg (Ne.symm hne), hd, hraised]
      rfl
    · rw [if_neg hkd, if_neg hkd]
      rcases eq_or_ne k source with rfl | hks
      · rw [if_pos rfl, if_pos rfl, hs]
        exact hleft
      · rw [if_neg hks, if_neg hks]

/-- **A mint** raises the supply and one balance by exactly `amount`. -/
theorem mintTo_spec (h : mintTo l program mint destination authority amount = .ok l') :
    (∀ k, (l'.supply k).toNat = (l.supply k).toNat + if k = mint then amount.toNat else 0) ∧
      ∀ k, (l'.balance k).toNat =
        (l.balance k).toNat + if k = destination then amount.toNat else 0 := by
  simp only [mintTo, bind_eq_ok, okOr_eq_ok, checkedAdd_eq_some, Except.ok.injEq] at h
  obtain ⟨dst, hdst, -, -, m, hm, -, -, raised, hraised, supply, hsupply, rfl⟩ := h
  have hd := Ledger.balance_of_some (usable_eq_ok hdst)
  have hms := Ledger.supply_of_some (usableMint_eq_ok hm)
  constructor
  · intro k
    rw [Ledger.supply_setMint, Ledger.supply_setAccount]
    rcases eq_or_ne k mint with rfl | hk
    · rw [if_pos rfl, if_pos rfl, hms, hsupply]
    · rw [if_neg hk, if_neg hk, Nat.add_zero]
  · intro k
    rw [Ledger.balance_setMint, Ledger.balance_setAccount]
    rcases eq_or_ne k destination with rfl | hk
    · rw [if_pos rfl, if_pos rfl, hd, hraised]
    · rw [if_neg hk, if_neg hk, Nat.add_zero]

/-- **A burn** lowers the supply and one balance by exactly `amount`. -/
theorem burn_spec (h : burn l program source mint authority amount = .ok l') :
    (∀ k, (l'.supply k).toNat + (if k = mint then amount.toNat else 0) = (l.supply k).toNat) ∧
      ∀ k, (l'.balance k).toNat + (if k = source then amount.toNat else 0) =
        (l.balance k).toNat := by
  simp only [burn, bind_eq_ok, okOr_eq_ok, checkedSub_eq_some, Except.ok.injEq] at h
  obtain ⟨src, hsrc, -, -, m, hm, left, hleft, src', -, supply, hsupply, rfl⟩ := h
  have hs := Ledger.balance_of_some (usable_eq_ok hsrc)
  have hms := Ledger.supply_of_some (usableMint_eq_ok hm)
  constructor
  · intro k
    rw [Ledger.supply_setMint, Ledger.supply_setAccount]
    rcases eq_or_ne k mint with rfl | hk
    · rw [if_pos rfl, if_pos rfl, hms, hsupply]
    · rw [if_neg hk, if_neg hk, Nat.add_zero]
  · intro k
    rw [Ledger.balance_setMint, Ledger.balance_setAccount]
    rcases eq_or_ne k source with rfl | hk
    · rw [if_pos rfl, if_pos rfl, hs]
      exact hleft
    · rw [if_neg hk, if_neg hk, Nat.add_zero]

theorem mintTo_valid {k : Pubkey}
    (h : mintTo l program mint destination authority amount = .ok l') (hv : l.ValidMint k) :
    l'.ValidMint k := by
  simp only [mintTo, bind_eq_ok, Except.ok.injEq] at h
  obtain ⟨_, -, -, -, m, hm, -, -, _, -, _, -, rfl⟩ := h
  exact Ledger.ValidMint.setMint_supply (l := l.setAccount _ _) (usableMint_eq_ok hm) hv

theorem burn_valid {k : Pubkey} (h : burn l program source mint authority amount = .ok l')
    (hv : l.ValidMint k) : l'.ValidMint k := by
  simp only [burn, bind_eq_ok, Except.ok.injEq] at h
  obtain ⟨_, -, -, -, m, hm, _, -, _, -, _, -, rfl⟩ := h
  exact Ledger.ValidMint.setMint_supply (l := l.setAccount _ _) (usableMint_eq_ok hm) hv

/-- **Minting back what was burned** restores the ledger, where the burn spent no allowance. -/
theorem mintTo_burn {owner : Pubkey} {m : Mint}
    (h : burn l program source mint owner amount = .ok l') (ha : l.accounts source = some a)
    (hm : l.mints mint = some m) (hdelegate : a.delegate ≠ some owner)
    (hauthority : m.mintAuthority = some authority) :
    mintTo l' program mint source authority amount = .ok l ∧
      ∃ b, l'.accounts source = some b ∧ b.owner = a.owner := by
  simp only [burn, usable, usableMint, bind_eq_ok, okOr_eq_ok, rejectIf_eq_ok, Except.ok.injEq,
    checkedSub_eq_some, exists_const, not_or, not_not] at h
  obtain ⟨_, ⟨_, ha', hused, rfl⟩, hmint, _, ⟨_, hm', hminted, rfl⟩, left, hleft, src, hsrc, supply,
    hsupply, rfl⟩ := h
  obtain rfl := Option.some.inj (ha.symm.trans ha')
  obtain rfl := Option.some.inj (hm.symm.trans hm')
  obtain rfl : src = a := by
    simp only [authorizeBurn, authorize, if_neg hdelegate] at hsrc
    split at hsrc
    · exact (Except.ok.inj hsrc).symm
    · simp only [bind_eq_ok, Except.ok.injEq] at hsrc
      obtain ⟨_, -, hsrc⟩ := hsrc
      exact hsrc.symm
  have hburned : ((l.setAccount source { src with amount := left }).setMint mint
      { m with supply }).accounts source = some { src with amount := left } := by
    simp [Ledger.setAccount, Ledger.setMint]
  have hmint' : ((l.setAccount source { src with amount := left }).setMint mint
      { m with supply }).mints mint = some { m with supply } := by
    simp [Ledger.setMint]
  have hraised : checkedAdd left amount = some src.amount := checkedAdd_eq_some.mpr hleft.symm
  have hback : checkedAdd supply amount = some m.supply := checkedAdd_eq_some.mpr hsupply.symm
  refine ⟨?_, _, hburned, rfl⟩
  simp only [mintTo, usable, usableMint, hburned, hmint', okOr_some, ok_bind]
  rw [rejectIf_of_not (not_or.mpr ⟨not_not.mpr hused.1, not_not.mpr hused.2⟩), ok_bind, ok_bind,
    rejectIf_of_not (not_not.mpr hmint), ok_bind,
    rejectIf_of_not (not_or.mpr ⟨not_not.mpr hminted.1, hminted.2⟩), ok_bind, ok_bind,
    rejectIf_of_not (not_not.mpr hauthority), ok_bind, hraised, okOr_some, ok_bind, hback,
    okOr_some, ok_bind]
  -- both writes put back what was there
  have haccounts : Function.update l.accounts source (some src) = l.accounts :=
    Function.update_eq_self_iff.mpr ha.symm
  have hmints : Function.update l.mints mint (some m) = l.mints :=
    Function.update_eq_self_iff.mpr hm.symm
  simp only [Ledger.setAccount, Ledger.setMint, Function.update_idem]
  rw [haccounts, hmints]

/-! ### What they leave of a mint's holdings -/

theorem authorize_mint {spend : Bool} (h : authorize a authority amount spend = .ok a') :
    a'.mint = a.mint := by
  unfold authorize at h
  split at h
  · simp only [bind_eq_ok, Except.ok.injEq] at h
    obtain ⟨_, -, rfl⟩ := h
    split <;> rfl
  · simp only [bind_eq_ok, Except.ok.injEq] at h
    obtain ⟨_, -, rfl⟩ := h
    rfl

/-- A transfer takes at most `amount`, and only from its source. -/
theorem transfer_held (h : transfer l program source destination authority amount = .ok l')
    (m k : Pubkey) :
    l.held m k ≤ l'.held m k + if k = source then amount.toNat else 0 := by
  simp only [transfer, bind_eq_ok, okOr_eq_ok, checkedSub_eq_some] at h
  obtain ⟨src, hsrc, dst, hdst, left, hleft, -, -, h⟩ := h
  have hs := Ledger.held_of_some m (usable_eq_ok hsrc)
  have hd := Ledger.held_of_some m (usable_eq_ok hdst)
  split at h
  · simp only [bind_eq_ok, Except.ok.injEq] at h
    obtain ⟨-, -, rfl⟩ := h
    exact Nat.le_add_right _ _
  · rename_i hne
    simp only [bind_eq_ok, okOr_eq_ok, checkedAdd_eq_some, Except.ok.injEq] at h
    obtain ⟨src', hauth, raised, hraised, rfl⟩ := h
    rw [Ledger.held_setAccount, Ledger.held_setAccount]
    rcases eq_or_ne k destination with rfl | hkd
    · rw [if_pos rfl, hd]
      show (if dst.mint = m then dst.amount.toNat else 0) ≤
        (if dst.mint = m then raised.toNat else 0) + _
      split <;> omega
    · rw [if_neg hkd]
      rcases eq_or_ne k source with rfl | hks
      · rw [if_pos rfl, if_pos rfl, hs]
        show _ ≤ (if src'.mint = m then left.toNat else 0) + _
        rw [authorize_mint hauth]
        split <;> omega
      · rw [if_neg hks, if_neg hks]
        exact Nat.le_add_right _ _

/-- A mint takes nothing from anybody. -/
theorem mintTo_held (h : mintTo l program mint destination authority amount = .ok l')
    (m k : Pubkey) : l.held m k ≤ l'.held m k := by
  simp only [mintTo, bind_eq_ok, okOr_eq_ok, checkedAdd_eq_some, Except.ok.injEq] at h
  obtain ⟨dst, hdst, -, -, _, -, -, -, raised, hraised, _, -, rfl⟩ := h
  rw [Ledger.held_setMint, Ledger.held_setAccount]
  rcases eq_or_ne k destination with rfl | hk
  · rw [if_pos rfl, Ledger.held_of_some _ (usable_eq_ok hdst)]
    show _ ≤ if dst.mint = m then raised.toNat else 0
    split <;> omega
  · rw [if_neg hk]

/-- A burn of one mint leaves the holdings of every other. -/
theorem burn_held {m : Pubkey} (h : burn l program source mint authority amount = .ok l')
    (hm : m ≠ mint) (k : Pubkey) : l.held m k ≤ l'.held m k := by
  simp only [burn, bind_eq_ok, okOr_eq_ok, rejectIf_eq_ok, not_not, Except.ok.injEq] at h
  obtain ⟨src, hsrc, _, hmint, _, -, left, -, src', -, _, -, rfl⟩ := h
  rw [Ledger.held_setMint, Ledger.held_setAccount]
  rcases eq_or_ne k source with rfl | hk
  · rw [if_pos rfl, Ledger.held_of_some _ (usable_eq_ok hsrc),
      if_neg (by rw [hmint]; exact hm.symm)]
    exact Nat.zero_le _
  · rw [if_neg hk]

end Spl

end Roshi

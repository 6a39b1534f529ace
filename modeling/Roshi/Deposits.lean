import Roshi.Price

/-!
# Deposits cannot be gamed

A deposit is priced against one virtual atom and `V` virtual shares, and every floor
falls on the depositor.  `depositAll` makes a list of deposits at one time.  It is
`Lib.mintAll` at the virtual pool (`depositAll_eq_ok`), so splitting a deposit mints no
more and redeeming at once pays no more than was put in (`deposits_never_overpay`); a
run of deposit instructions at one clock is such a list (`mintAll_of_depositRun`).

The virtual shares are also what a donation pays for: whoever holds every share and
inflates the price loses about `V - 1` times what the next depositor loses
(`donation_costs_offset_multiple`).
-/

namespace Roshi

open Lib

variable {A S A' S' b s : U64} {d : U8}

/-! ### Donations -/

/-- **Donation attacks cost the offset multiple.**  All `S` shares are held by one party
that put in `A` atoms, and the next depositor brings `b`.  What the holder is short
exceeds `V - 1` times the depositor's loss, up to `V + 1` atoms; so it never gains more
than `V + 1`. -/
theorem donation_costs_offset_multiple (hs : sharesForDeposit b A S d = .ok s)
    (hA : A'.toNat = A.toNat + b.toNat) (hS : S'.toNat = S.toNat + s.toNat) :
    ∃ (V : U128) (claim holderClaim : U64),
      virtualShareOffset d = .ok V ∧
      assetsForShares s A' S' d = .ok claim ∧
      assetsForShares S A' S' d = .ok holderClaim ∧
      0 ≤ (b.toNat : ℤ) - claim.toNat ∧
      ((V.toNat : ℤ) - 1) * (b.toNat - claim.toNat) - (V.toNat + 1)
        < A.toNat - holderClaim.toNat ∧
      (holderClaim.toNat : ℤ) - A.toNat < V.toNat + 1 := by
  obtain ⟨hd, -, -, hshares⟩ := sharesForDeposit_eq_ok.mp hs
  have hVle := virtualShares_le d
  have hVpos := virtualShares_pos d
  obtain ⟨V, hV⟩ := exists_toNat_eq (w := 128) (n := virtualShares d) (by omega)
  obtain ⟨claim, hclaim⟩ := exists_assetsForShares (A := A') hd (show s.toNat ≤ S'.toNat by omega)
  obtain ⟨holderClaim, hholder⟩ :=
    exists_assetsForShares (A := A') hd (show S.toNat ≤ S'.toNat by omega)
  obtain ⟨-, -, hp⟩ := assetsForShares_eq_ok.mp hclaim
  obtain ⟨-, -, hq⟩ := assetsForShares_eq_ok.mp hholder
  rw [hA, hS] at hp hq
  have hloss : claim.toNat ≤ b.toNat := by
    have hfair : s.toNat * (A.toNat + 1) ≤ b.toNat * (S.toNat + virtualShares d) := by
      rw [hshares]
      exact Nat.div_mul_le_self _ _
    have hle := floor_pay_after_mint_le hfair (Nat.le_refl s.toNat)
    rwa [Nat.add_right_comm, Nat.add_right_comm S.toNat, ← hp] at hle
  have hcost := offset_cost hVpos hshares hp hq
  have hnonneg : (0 : ℤ) ≤ (b.toNat : ℤ) - claim.toNat := by omega
  have hV1 : (0 : ℤ) ≤ ((virtualShares d : ℤ) - 1) * (b.toNat - claim.toNat) :=
    mul_nonneg (by omega) hnonneg
  refine ⟨V, claim, holderClaim, virtualShareOffset_eq_ok.mpr ⟨hd, hV⟩, hclaim, hholder, hnonneg,
    ?_, ?_⟩
  · rw [hV]
    exact hcost
  · rw [hV]
    omega

theorem donation_costs_offset_multiple_sample :
    ∃ (V : U128) (claim holderClaim : U64),
      virtualShareOffset 6 = .ok V ∧
      assetsForShares 1 1001000001 1001 6 = .ok claim ∧
      assetsForShares 1000 1001000001 1001 6 = .ok holderClaim ∧
      0 ≤ ((1000000 : U64).toNat : ℤ) - claim.toNat ∧
      ((V.toNat : ℤ) - 1) * ((1000000 : U64).toNat - claim.toNat) - (V.toNat + 1)
        < (1000000001 : U64).toNat - holderClaim.toNat ∧
      (holderClaim.toNat : ℤ) - (1000000001 : U64).toNat < V.toNat + 1 :=
  donation_costs_offset_multiple (b := 1000000) (A := 1000000001) (S := 1000) (s := 1) (d := 6)
    (by decide +kernel) (by decide) (by decide)

/-! ### A list of deposits -/

/-- Deposits of `bs` base atoms one after another at one time: the shares each mints,
and the assets and supply they leave. -/
def depositAll (baseDecimals : U8) : U64 → U64 → List U64 → MathResult (List U64 × U64 × U64)
  | totalAssets, totalShares, [] => .ok ([], totalAssets, totalShares)
  | totalAssets, totalShares, baseAtoms :: bs => do
    let shares ← sharesForDeposit baseAtoms totalAssets totalShares baseDecimals
    let totalAssets ← okOr (checkedAdd totalAssets baseAtoms) .overflow
    let totalShares ← okOr (checkedAdd totalShares shares) .overflow
    let (minted, pool) ← depositAll baseDecimals totalAssets totalShares bs
    .ok (shares :: minted, pool)

/-- The sum of a list of amounts. -/
def sumOf (l : List U64) : Nat := (l.map BitVec.toNat).sum

@[simp] theorem sumOf_nil : sumOf [] = 0 := rfl

@[simp] theorem sumOf_cons (b : U64) (l : List U64) : sumOf (b :: l) = b.toNat + sumOf l := by
  simp [sumOf]

/-- The deposits mint what the pool of the virtual position mints. -/
theorem depositAll_eq_ok {bs minted : List U64} (h : depositAll d A S bs = .ok (minted, A', S')) :
    minted.map BitVec.toNat =
        mintAll (A.toNat + 1) (S.toNat + virtualShares d) (bs.map BitVec.toNat) ∧
      A'.toNat = A.toNat + sumOf bs ∧ S'.toNat = S.toNat + sumOf minted := by
  induction bs generalizing A S minted with
  | nil =>
    cases h
    exact ⟨rfl, rfl, rfl⟩
  | cons b bs ih =>
    simp only [depositAll, bind_eq_ok, okOr_eq_ok, checkedAdd_eq_some, Prod.exists,
      Except.ok.injEq, Prod.mk.injEq] at h
    obtain ⟨s, hs, A₁, hA₁, S₁, hS₁, minted, A₂, S₂, hrest, rfl, rfl, rfl⟩ := h
    obtain ⟨-, -, -, hshares⟩ := sharesForDeposit_eq_ok.mp hs
    obtain ⟨hminted, hA, hS⟩ := ih hrest
    refine ⟨?_, ?_, ?_⟩
    · rw [List.map_cons, List.map_cons, mintAll, ← hshares, hminted, hA₁, hS₁,
        Nat.add_right_comm, Nat.add_right_comm S.toNat]
    · rw [sumOf_cons]
      omega
    · rw [sumOf_cons]
      omega

/-- **Deposits cannot be gamed by splitting or round-tripping.** -/
theorem deposits_never_overpay {bs minted : List U64} (hd : d.toNat ≤ 9)
    (h : depositAll d A S bs = .ok (minted, A', S')) :
    -- splitting: no more shares than the sum is worth, or than one deposit of it mints
    sumOf minted ≤ sumOf bs * (S.toNat + virtualShares d) / (A.toNat + 1) ∧
    (∀ b s : U64, b.toNat = sumOf bs → sharesForDeposit b A S d = .ok s →
      sumOf minted ≤ s.toNat) ∧
    -- round trips: no number of the minted shares redeems for more than was put in
    ∀ r : U64, r.toNat ≤ sumOf minted →
      (∃ a, assetsForShares r A' S' d = .ok a ∧ a.toNat ≤ sumOf bs) ∧
      ∀ a, assetsForRedeem r A' S' d = .ok a → a.toNat ≤ sumOf bs := by
  obtain ⟨hminted, hA, hS⟩ := depositAll_eq_ok h
  have hfair : sumOf minted * (A.toNat + 1) ≤ sumOf bs * (S.toNat + virtualShares d) := by
    rw [sumOf, hminted]
    exact mintAll_fair (by omega)
  have hfloor : sumOf minted ≤ sumOf bs * (S.toNat + virtualShares d) / (A.toNat + 1) := by
    rw [sumOf, hminted]
    exact mintAll_sum_le (by omega)
  refine ⟨hfloor, ?_, ?_⟩
  · intro b s hb hs
    obtain ⟨-, -, -, hshares⟩ := sharesForDeposit_eq_ok.mp hs
    rw [hshares, hb]
    exact hfloor
  · intro r hr
    have hpay : ∀ a, assetsForShares r A' S' d = .ok a → a.toNat ≤ sumOf bs := by
      intro a ha
      obtain ⟨-, -, hval⟩ := assetsForShares_eq_ok.mp ha
      rw [hval, hA, hS, Nat.add_right_comm, Nat.add_right_comm S.toNat]
      exact floor_pay_after_mint_le hfair hr
    obtain ⟨a, ha⟩ := exists_assetsForShares (A := A') hd (show r.toNat ≤ S'.toNat by omega)
    refine ⟨⟨a, ha, hpay a ha⟩, ?_⟩
    intro a ha
    exact hpay a (assetsForRedeem_eq_ok.mp ha).1

theorem deposits_never_overpay_three :
    sumOf [6, 3, 4] ≤
      sumOf [10, 5, 7] * ((3 : U64).toNat + virtualShares 9) / ((5 : U64).toNat + 1) ∧
    (∀ b s : U64, b.toNat = sumOf [10, 5, 7] → sharesForDeposit b 5 3 9 = .ok s →
      sumOf [6, 3, 4] ≤ s.toNat) ∧
    ∀ r : U64, r.toNat ≤ sumOf [6, 3, 4] →
      (∃ a, assetsForShares r 27 16 9 = .ok a ∧ a.toNat ≤ sumOf [10, 5, 7]) ∧
      ∀ a, assetsForRedeem r 27 16 9 = .ok a → a.toNat ≤ sumOf [10, 5, 7] :=
  deposits_never_overpay (d := 9) (by decide) (by decide +kernel)

/-! ### Deposit instructions -/

variable {rt : Runtime} {w w' : World}

/-- Deposit instructions one after another, at the world's own clock. -/
def depositRun (rt : Runtime) (w : World) (l : List (List AccountInfo × DepositArgs)) :
    ProgramResult World :=
  l.foldlM (fun w i => tryDeposit rt w i.1 i.2) w

/-- **A run of deposits is a list of deposits.**  The instructions mint what `mintAll`
mints for their base atoms in the virtual pool they start from, and leave that pool. -/
theorem mintAll_of_depositRun {l : List (List AccountInfo × DepositArgs)} {E : U64}
    (hE : w.vault.effectiveTotalAssets w.clock.unixTimestamp = .ok E)
    (h : depositRun rt w l = .ok w') :
    ∃ (bs : List Nat) (E' : U64), bs.length = l.length ∧
      w'.vault.effectiveTotalAssets w'.clock.unixTimestamp = .ok E' ∧
      E'.toNat = E.toNat + bs.sum ∧ w'.vault.baseDecimals = w.vault.baseDecimals ∧
      w'.economicSupply = w.economicSupply +
        (mintAll (E.toNat + 1) (w.economicSupply + virtualShares w.vault.baseDecimals) bs).sum := by
  induction l generalizing w E with
  | nil =>
    cases h
    exact ⟨[], E, rfl, hE, rfl, rfl, rfl⟩
  | cons i l ih =>
    rw [depositRun, List.foldlM_cons, bind_eq_ok] at h
    obtain ⟨w₁, h₁, h⟩ := h
    obtain ⟨c, base, shares, -, -, hdep⟩ := tryDeposit_deposited h₁
    obtain ⟨E₁, hE₁, hsum₁⟩ := hdep.effective hE
    have hshares := hdep.shares_eq hE
    have hsupply := hdep.economicSupply
    obtain ⟨bs, E', hlen, hE', hsum, hdec, hpool⟩ := ih hE₁ h
    refine ⟨base.toNat :: bs, E', by rw [List.length_cons, List.length_cons, hlen], hE', ?_,
      hdec.trans hdep.baseDecimals, ?_⟩
    · rw [List.sum_cons]
      omega
    · have hS : w₁.economicSupply = w.economicSupply + shares.toNat := by omega
      have hpool' : w₁.economicSupply + virtualShares w.vault.baseDecimals =
          w.economicSupply + virtualShares w.vault.baseDecimals + shares.toNat := by omega
      rw [hpool, hdep.baseDecimals, hpool', hS, hsum₁, mintAll, List.sum_cons, ← hshares,
        Nat.add_right_comm E.toNat, Nat.add_assoc w.economicSupply shares.toNat]

/-- **Round trips through the instructions.**  After any run of deposits at one clock,
no number of the shares it minted is worth more than the base atoms it brought in. -/
theorem depositRun_never_overpays {l : List (List AccountInfo × DepositArgs)} {E E' S' : U64}
    (hE : w.vault.effectiveTotalAssets w.clock.unixTimestamp = .ok E)
    (h : depositRun rt w l = .ok w')
    (hE' : w'.vault.effectiveTotalAssets w'.clock.unixTimestamp = .ok E')
    (hS' : S'.toNat = w'.economicSupply) {r a : U64}
    (hr : r.toNat + w.economicSupply ≤ w'.economicSupply)
    (ha : assetsForShares r E' S' w'.vault.baseDecimals = .ok a) :
    a.toNat + E.toNat ≤ E'.toNat := by
  obtain ⟨bs, E₁, -, hE₁, hsum, hdec, hpool⟩ := mintAll_of_depositRun hE h
  obtain rfl : E' = E₁ := Except.ok.inj (hE'.symm.trans hE₁)
  have hfair := mintAll_fair (S := w.economicSupply + virtualShares w.vault.baseDecimals) (l := bs)
    (show 0 < E.toNat + 1 by omega)
  obtain ⟨-, -, hval⟩ := assetsForShares_eq_ok.mp ha
  have hle := floor_pay_after_mint_le hfair (r := r.toNat) (by omega)
  rw [hS', hpool, hsum, hdec, Nat.add_right_comm, Nat.add_right_comm w.economicSupply] at hval
  omega

end Roshi

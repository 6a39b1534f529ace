import Roshi.FlashFee
import Roshi.Instructions.Actions
import Roshi.Relay.Flash

/-!
# Lowering the flash-fee rate

A flash approval grants a delegate of `flashCap`: the borrowed amount and the fee at the
action's committed rate.  The strategist may lower the rate, which is meant to shrink the
cap for every amount (`Shrinks`).

A rate `num / 0` with `num > 0` grants nothing at all, yet any rate with a denominator
compares strictly lower than it: `strategist_raises_from_zero_denominator`.  From every
other stored rate a lowering does shrink the cap, step by step and along whole runs
(`strategist_shrinks_flash_allowance`).
-/

namespace Roshi

open Lib

/-! ### Allowances -/

/-- The delegate `settleAuthorizedCpi` binds a flash approval of `flashAmount` to. -/
def flashCap (flashAmount feeNum feeDen : U64) : ProgramResult U64 := do
  let fee ← into (roundWithMin1 flashAmount feeNum feeDen)
  okOr (checkedAdd flashAmount fee) (.custom .overflow)

/-- What a flash approval left delegated is the cap at the action's rate. -/
theorem FlashApproved.flashCap_eq {host : Host} {cpi : AuthorizedCpi} {action : Action}
    {source : AccountInfo} {amount fee : U64} {before after : Chain}
    (h : FlashApproved host cpi action source amount fee before after) :
    flashCap amount action.feeNum action.feeDen =
      .ok ((after source.key).u64At TOKEN_ACCOUNT_DELEGATED_AMOUNT) := by
  simp only [flashCap, bind_eq_ok, into_eq_ok, okOr_eq_ok, checkedAdd_eq_some]
  exact ⟨fee, h.fee_eq, h.delegated⟩

/-- Going from the rate `num / den` to `num' / den'` shrinks every allowance. -/
structure Shrinks (num den num' den' : U64) : Prop where
  /-- A fee charged after was at least as large before, or past `u64`. -/
  fee : ∀ F f', roundWithMin1 F num' den' = .ok f' →
    (∃ f, roundWithMin1 F num den = .ok f ∧ f'.toNat ≤ f.toNat) ∨
      roundWithMin1 F num den = .error .resultDoesNotFit
  /-- What could not be granted before cannot be granted after. -/
  granted : ∀ F, roundWithMin1 F num den = .error .divisionByZero →
    ∀ f', roundWithMin1 F num' den' ≠ .ok f'
  /-- The delegate cap never grows. -/
  cap : ∀ F c', flashCap F num' den' = .ok c' →
    (∃ c, flashCap F num den = .ok c ∧ c'.toNat ≤ c.toNat) ∨
      flashCap F num den = .error (.custom .resultDoesNotFit) ∨
      flashCap F num den = .error (.custom .overflow)

variable {num den num' den' : U64}

/-- The first clause is the whole of it. -/
theorem Shrinks.of_fee
    (h : ∀ F f', roundWithMin1 F num' den' = .ok f' →
      (∃ f, roundWithMin1 F num den = .ok f ∧ f'.toNat ≤ f.toNat) ∨
        roundWithMin1 F num den = .error .resultDoesNotFit) : Shrinks num den num' den' := by
  refine ⟨h, ?_, ?_⟩
  · intro F hzero f' hf'
    rcases h F f' hf' with ⟨f, hf, -⟩ | hfit
    · rw [hf] at hzero
      cases hzero
    · rw [hfit] at hzero
      cases hzero
  · intro F c' hc'
    simp only [flashCap, bind_eq_ok, into_eq_ok, okOr_eq_ok, checkedAdd_eq_some] at hc'
    obtain ⟨f', hf', hsum'⟩ := hc'
    rcases h F f' hf' with ⟨f, hf, hle⟩ | hfit
    · by_cases hover : F.toNat + f.toNat < 2 ^ 64
      · obtain ⟨c, hc, hsum⟩ := exists_checkedAdd hover
        refine .inl ⟨c, ?_, by omega⟩
        simp only [flashCap, bind_eq_ok, into_eq_ok, okOr_eq_ok]
        exact ⟨f, hf, hc⟩
      · have hnone : checkedAdd F f = none := by
          rw [Option.eq_none_iff_forall_ne_some]
          intro c hc
          have := checkedAdd_eq_some.mp hc
          have := c.isLt
          omega
        refine .inr (.inr ?_)
        rw [flashCap, hf]
        show okOr (checkedAdd F f) _ = _
        rw [hnone]
        rfl
    · refine .inr (.inl ?_)
      rw [flashCap, hfit]
      rfl

/-- A rate that can be charged: nothing, or a fraction with a denominator. -/
def RateSound (num den : U64) : Prop := num.toNat = 0 ∨ den.toNat ≠ 0

/-- No amount is charged more at `num' / den'` than at `num / den`. -/
def ChargesLess (num den num' den' : U64) : Prop :=
  ∀ F : Nat, flashCharge F num'.toNat den'.toNat ≤ flashCharge F num.toNat den.toNat

theorem ChargesLess.refl (num den : U64) : ChargesLess num den num den := fun _ => Nat.le_refl _

theorem ChargesLess.trans {num₁ den₁ num₂ den₂ num₃ den₃ : U64}
    (h : ChargesLess num₁ den₁ num₂ den₂) (h' : ChargesLess num₂ den₂ num₃ den₃) :
    ChargesLess num₁ den₁ num₃ den₃ :=
  fun F => (h' F).trans (h F)

/-- Between sound rates, charging less is shrinking. -/
theorem ChargesLess.shrinks (h : ChargesLess num den num' den') (hs : RateSound num den)
    (hs' : RateSound num' den') : Shrinks num den num' den' := by
  refine .of_fee ?_
  intro F f' hf'
  rw [roundWithMin1_of_sound hs'] at hf'
  have hle := h F.toNat
  split at hf'
  · rename_i hfit'
    cases hf'
    rw [roundWithMin1_of_sound hs]
    by_cases hfit : flashCharge F.toNat num.toNat den.toNat < 2 ^ 64
    · refine .inl ⟨_, if_pos hfit, ?_⟩
      rwa [BitVec.toNat_ofNat, BitVec.toNat_ofNat, Nat.mod_eq_of_lt hfit, Nat.mod_eq_of_lt hfit']
    · exact .inr (if_neg hfit)
  · cases hf'

/-- Only a rate that can be charged compares strictly lower than anything. -/
theorem rateSound_of_strictlyLower (h : rateStrictlyLower num' den' num den = true) :
    RateSound num' den' := by
  obtain ⟨-, hnum' | hlt⟩ := rateStrictlyLower_iff.mp h
  · exact .inl hnum'
  · refine .inr ?_
    intro h0
    rw [h0, Nat.mul_zero] at hlt
    omega

/-- **One lowering.**  From a sound rate, a rate that compares strictly lower charges less. -/
theorem chargesLess_of_strictlyLower (hs : RateSound num den)
    (h : rateStrictlyLower num' den' num den = true) : ChargesLess num den num' den' := by
  obtain ⟨hnum, hlower⟩ := rateStrictlyLower_iff.mp h
  have hden : 0 < den.toNat := Nat.pos_of_ne_zero (hs.resolve_left hnum)
  intro F
  by_cases hfree : num'.toNat = 0 ∨ F = 0
  · rw [flashCharge, if_pos hfree]
    exact Nat.zero_le _
  · rw [not_or] at hfree
    have hden' : 0 < den'.toNat :=
      Nat.pos_of_ne_zero ((rateSound_of_strictlyLower h).resolve_left hfree.1)
    rw [flashCharge, flashCharge, if_neg (by omega), if_neg (by omega)]
    exact flashFee_le hden' hden (hlower.resolve_left hfree.1).le

/-- One atom is charged at most the numerator, which fits. -/
theorem flashCharge_one_lt (hs : RateSound num den) :
    flashCharge 1 num.toNat den.toNat < 2 ^ 64 := by
  rw [flashCharge]
  split
  · exact Nat.two_pow_pos 64
  · rename_i h0
    have hle := roundDiv_le_self (1 * num.toNat)
      (Nat.pos_of_ne_zero (hs.resolve_left fun h => h0 (.inl h)))
    have hlt := num.isLt
    rw [flashFee]
    omega

/-- From `num / 0` every lowering grants one atom a fee, and nothing could be granted. -/
theorem not_shrinks_of_den_zero (hden : den.toNat = 0)
    (h : rateStrictlyLower num' den' num den = true) : ¬ Shrinks num den num' den' := by
  intro hshrinks
  have hs' := rateSound_of_strictlyLower h
  have hzero : roundWithMin1 1 num den = .error .divisionByZero :=
    roundWithMin1_division_by_zero (by decide) (rateStrictlyLower_iff.mp h).1 hden
  have hgrant : roundWithMin1 1 num' den' = .ok _ :=
    (roundWithMin1_of_sound hs').trans (if_pos (flashCharge_one_lt hs'))
  exact hshrinks.granted 1 hzero _ hgrant

/-- **When a lowering shrinks the allowance**: exactly when the stored rate had a
denominator. -/
theorem shrinks_iff (h : rateStrictlyLower num' den' num den = true) :
    Shrinks num den num' den' ↔ den.toNat ≠ 0 := by
  constructor
  · intro hshrinks h0
    exact not_shrinks_of_den_zero h0 h hshrinks
  · intro hden
    exact (chargesLess_of_strictlyLower (.inr hden) h).shrinks (.inr hden)
      (rateSound_of_strictlyLower h)

/-! ### Runs of rate updates -/

/-- An instruction that writes the action table. -/
inductive ActionEvent where
  | authorize (accounts : List AccountInfo) (args : AuthorizeActionArgs)
  | revoke (accounts : List AccountInfo) (actionHash : Bytes 32)
  | adminSetRate (accounts : List AccountInfo) (args : FlashFeeRateArgs)
  | strategistLowerRate (accounts : List AccountInfo) (args : FlashFeeRateArgs)

def ActionEvent.exec (rt : Runtime) (w : World) : ActionEvent → ProgramResult World
  | .authorize accounts args => tryAuthorizeAction rt w accounts args
  | .revoke accounts actionHash => tryRevokeAction rt w accounts actionHash
  | .adminSetRate accounts args => tryAdminSetFlashFeeRate rt w accounts args
  | .strategistLowerRate accounts args => tryStrategistLowerFlashFeeRate rt w accounts args

def ActionStep (rt : Runtime) (w : World) (e : ActionEvent) (w' : World) : Prop :=
  e.exec rt w = .ok w'

/-- The strategist's update. -/
def ActionEvent.IsLowering : ActionEvent → Prop
  | .strategistLowerRate _ _ => True
  | _ => False

/-- The rate an admin stores can be charged. -/
def ActionEvent.RateSound : ActionEvent → Prop
  | .authorize _ args => Roshi.RateSound args.feeNum args.feeDen
  | .adminSetRate _ args => Roshi.RateSound args.feeNum args.feeDen
  | _ => True

/-- Every stored rate can be charged. -/
def World.RatesSound (w : World) : Prop :=
  ∀ key action, w.actions key = some action → RateSound action.feeNum action.feeDen

variable {rt : Runtime} {w w' : World}

theorem World.RatesSound.setAction (hw : w.RatesSound) {key : Pubkey} {action : Action}
    (h : RateSound action.feeNum action.feeDen) : (w.setAction key (some action)).RatesSound := by
  intro k a hk
  rw [setAction_actions] at hk
  split at hk
  · cases hk
    exact h
  · exact hw k a hk

/-- **One step** keeps every stored rate sound, when the admin stores sound ones. -/
theorem ActionStep.ratesSound {e : ActionEvent} (h : ActionStep rt w e w') (he : e.RateSound)
    (hw : w.RatesSound) : w'.RatesSound := by
  cases e with
  | authorize accounts args =>
    obtain ⟨key, bump, rfl⟩ := tryAuthorizeAction_spec h
    exact hw.setAction he
  | revoke accounts actionHash =>
    obtain ⟨key, rfl⟩ := tryRevokeAction_spec h
    intro k a hk
    rw [setAction_actions] at hk
    split at hk
    · cases hk
    · exact hw k a hk
  | adminSetRate accounts args =>
    obtain ⟨key, action, -, rfl⟩ := tryAdminSetFlashFeeRate_spec h
    exact hw.setAction he
  | strategistLowerRate accounts args =>
    obtain ⟨key, action, -, hlower, rfl⟩ := tryStrategistLowerFlashFeeRate_spec h
    exact hw.setAction (rateSound_of_strictlyLower hlower)

/-- `w'` stores at `key` a sound rate that charges no more than `action`'s. -/
def LoweredAt (key : Pubkey) (action : Action) (w' : World) : Prop :=
  ∃ action', w'.actions key = some action' ∧ RateSound action'.feeNum action'.feeDen ∧
    ChargesLess action.feeNum action.feeDen action'.feeNum action'.feeDen

/-- **One lowering**, of this action or another one. -/
theorem ActionStep.loweredAt {e : ActionEvent} {key : Pubkey} {action : Action}
    (h : ActionStep rt w e w') (he : e.IsLowering) (hw : LoweredAt key action w) :
    LoweredAt key action w' := by
  obtain ⟨a, ha, hsound, hless⟩ := hw
  cases e with
  | strategistLowerRate accounts args =>
    obtain ⟨k, b, hb, hlower, rfl⟩ := tryStrategistLowerFlashFeeRate_spec h
    by_cases hk : key = k
    · subst hk
      obtain rfl : a = b := Option.some.inj (ha.symm.trans hb)
      refine ⟨_, by rw [setAction_actions, if_pos rfl], rateSound_of_strictlyLower hlower, ?_⟩
      exact hless.trans (chargesLess_of_strictlyLower hsound hlower)
    · exact ⟨a, by rw [setAction_actions, if_neg hk, ha], hsound, hless⟩
  | authorize => exact he.elim
  | revoke => exact he.elim
  | adminSetRate => exact he.elim

/-- **A strategist only shrinks the flash allowance**, when the stored rate can be charged.
A successful lowering shrinks it exactly when the stored rate has a denominator; along a
run of lowerings no cap of an action that starts at a sound rate ever grows; and as long as
the admin stores sound rates, no lowering in any run does anything else. -/
theorem strategist_shrinks_flash_allowance (rt : Runtime) :
    (∀ w accounts args w', tryStrategistLowerFlashFeeRate rt w accounts args = .ok w' →
      ∃ key action, w.actions key = some action ∧
        w' = w.setAction key
          (some { action with feeNum := args.feeNum, feeDen := args.feeDen }) ∧
        (Shrinks action.feeNum action.feeDen args.feeNum args.feeDen ↔
          action.feeDen.toNat ≠ 0)) ∧
    (∀ w tr w', Run (ActionStep rt) w tr w' → (∀ x ∈ tr, x.event.IsLowering) →
      ∀ key action, w.actions key = some action → RateSound action.feeNum action.feeDen →
        ∃ action', w'.actions key = some action' ∧
          Shrinks action.feeNum action.feeDen action'.feeNum action'.feeDen) ∧
    (∀ w tr w', w.RatesSound → Run (ActionStep rt) w tr w' → (∀ x ∈ tr, x.event.RateSound) →
      ∀ x ∈ tr, ∀ accounts args, x.event = .strategistLowerRate accounts args →
        ∃ key action, x.pre.actions key = some action ∧
          x.post = x.pre.setAction key
            (some { action with feeNum := args.feeNum, feeDen := args.feeDen }) ∧
          Shrinks action.feeNum action.feeDen args.feeNum args.feeDen) := by
  refine ⟨?_, ?_, ?_⟩
  · intro w accounts args w' h
    obtain ⟨key, action, haction, hlower, rfl⟩ := tryStrategistLowerFlashFeeRate_spec h
    exact ⟨key, action, haction, rfl, shrinks_iff hlower⟩
  · intro w tr w' hrun hlowering key action haction hsound
    have hstart : LoweredAt key action w := ⟨action, haction, hsound, .refl _ _⟩
    obtain ⟨action', haction', hsound', hless⟩ :=
      hrun.invariant hstart fun x hx hstep => hstep.loweredAt (hlowering x hx)
    exact ⟨action', haction', hless.shrinks hsound hsound'⟩
  · intro w tr w' hw hrun hadmin x hx accounts args he
    obtain ⟨hpre, -⟩ := hrun.invariant_of_mem hw
      (fun y hy hstep => hstep.ratesSound (hadmin y hy)) hx
    obtain ⟨before, after, rfl⟩ := List.append_of_mem hx
    obtain ⟨-, hstep, -⟩ := hrun.split
    rw [he] at hstep
    obtain ⟨key, action, haction, hlower, hpost⟩ := tryStrategistLowerFlashFeeRate_spec hstep
    have hsound := hpre key action haction
    exact ⟨key, action, haction, hpost, (chargesLess_of_strictlyLower hsound hlower).shrinks hsound
      (rateSound_of_strictlyLower hlower)⟩

namespace Sample

/-- The strategist is the admin here. -/
def rateAccounts : List AccountInfo := [signer admin, readonly vaultKey, writable routeKey]

/-- One percent for the lender, at the route's address. -/
def percentAction : Action :=
  { routeAction .flashApprove with ops := flashOps, feeNum := 1, feeDen := 100 }

def percentWorld : World := start.setAction routeKey (some percentAction)

def halvedWorld : World :=
  okValue (tryStrategistLowerFlashFeeRate routeRuntime percentWorld rateAccounts ⟨1, 200⟩)
    (by decide +kernel)

def quarteredWorld : World :=
  okValue (tryStrategistLowerFlashFeeRate routeRuntime halvedWorld rateAccounts ⟨1, 400⟩)
    (by decide +kernel)

end Sample

theorem strategist_shrinks_flash_allowance_twice :
    ∃ action', Sample.quarteredWorld.actions Sample.routeKey = some action' ∧
      Shrinks 1 100 action'.feeNum action'.feeDen := by
  have hrun : Run (ActionStep Sample.routeRuntime) Sample.percentWorld
      [⟨Sample.percentWorld, .strategistLowerRate Sample.rateAccounts ⟨1, 200⟩,
        Sample.halvedWorld⟩,
      ⟨Sample.halvedWorld, .strategistLowerRate Sample.rateAccounts ⟨1, 400⟩,
        Sample.quarteredWorld⟩] Sample.quarteredWorld :=
    .cons (eq_okValue _) (.single (eq_okValue _))
  refine (strategist_shrinks_flash_allowance Sample.routeRuntime).2.1 _ _ _ hrun ?_ Sample.routeKey
    Sample.percentAction rfl (.inr (by decide))
  intro x hx
  rcases List.mem_cons.mp hx with rfl | hx
  · trivial
  · obtain rfl := List.mem_singleton.mp hx
    trivial

/-! ### A rate without a denominator -/

namespace Sample

/-- A flash action committed at the rate `1 / 0`. -/
def zeroDenArgs : AuthorizeActionArgs where
  actionHash := routeDigest
  scope := .flashApprove
  ops := flashOps
  amountOffset := 0
  feeNum := 1
  feeDen := 0

def authorizeAccounts : List AccountInfo :=
  [signer admin, readonly vaultKey, writable routeKey, readonly SYSTEM_PROGRAM_ID]

/-- The whole of `u64`, as a rate. -/
def maxRateArgs : FlashFeeRateArgs := ⟨18446744073709551615, 1⟩

def zeroDenWorld : World :=
  okValue (tryAuthorizeAction routeRuntime start authorizeAccounts zeroDenArgs) (by decide +kernel)

def loweredWorld : World :=
  okValue (tryStrategistLowerFlashFeeRate routeRuntime zeroDenWorld rateAccounts maxRateArgs)
    (by decide +kernel)

end Sample

/-- The admin authorizes an action at `1 / 0`, under which one atom cannot be borrowed; the
strategist "lowers" the rate to the largest there is, and one atom is granted the whole
of `u64` as its fee. -/
theorem strategist_raises_from_zero_denominator :
    tryAuthorizeAction Sample.routeRuntime Sample.start Sample.authorizeAccounts
        Sample.zeroDenArgs = .ok Sample.zeroDenWorld ∧
    tryStrategistLowerFlashFeeRate Sample.routeRuntime Sample.zeroDenWorld Sample.rateAccounts
        Sample.maxRateArgs = .ok Sample.loweredWorld ∧
    ((Sample.zeroDenWorld.actions Sample.routeKey).map fun a => (a.feeNum, a.feeDen))
      = some (1, 0) ∧
    ((Sample.loweredWorld.actions Sample.routeKey).map fun a => (a.feeNum, a.feeDen))
      = some (18446744073709551615, 1) ∧
    roundWithMin1 1 1 0 = .error .divisionByZero ∧
    roundWithMin1 1 18446744073709551615 1 = .ok 18446744073709551615 ∧
    ¬ Shrinks 1 0 18446744073709551615 1 := by
  refine ⟨eq_okValue _, eq_okValue _, by decide +kernel, by decide +kernel, by decide +kernel,
    by decide +kernel, ?_⟩
  intro h
  exact h.granted 1 (by decide +kernel) 18446744073709551615 (by decide +kernel)

end Roshi

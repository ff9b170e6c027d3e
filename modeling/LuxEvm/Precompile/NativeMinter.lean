import LuxEvm.Precompile.AllowList

/-!
# The native minter

Enabled addresses may mint native coin to any address. Minting writes
balances and account existence only, never storage, so it leaves every role in
place.
-/

set_option autoImplicit false

namespace LuxEvm.Precompile.NativeMinter
open Lib.StateRel Lib.ByteString

def ContractAddress : Address := 0x10401

def mintInputLen : ℕ := HashLength+HashLength
def MintGasCost : UInt64 := 30000
def NativeCoinMintedEventGasCost : UInt64 := LogGas+LogTopicGas*3+LogDataGas*32

inductive NativeMinterMethod where
  | mintNativeCoin
  deriving DecidableEq, Repr

structure NativeMinterABI where
  methodID : NativeMinterMethod → List UInt8
  unpackMintNativeCoin : List UInt8 → Bool → Except String (Address × ℤ)

def unpackMintNativeCoinInput (abi : NativeMinterABI) (input : List UInt8) (useStrictMode : Bool) :
    Except PrecompileError (Address × ℤ) :=
  if useStrictMode && input.length != mintInputLen then
    .error (.invalidMintInputLength input.length)
  else (abi.unpackMintNativeCoin input useStrictMode).mapError .abi

def mintNativeCoin (abi : NativeMinterABI) : RunStatefulPrecompileFunc :=
  fun evm caller _ input suppliedGas readOnly => do
    let remainingGas ← orFail (deductGas suppliedGas MintGasCost) 0
    failIf readOnly .writeProtection remainingGas
    let useStrictMode := !isDurangoActivated evm
    let (recipient, amount) ← orFail (unpackMintNativeCoinInput abi input useStrictMode)
      remainingGas
    let stateDB ← get
    let callerStatus := getAllowListStatus stateDB ContractAddress caller
    failIf (!callerStatus.isEnabled) (.cannotMint caller) remainingGas
    let remainingGas ← emitEvent evm remainingGas NativeCoinMintedEventGasCost ContractAddress
      (.nativeCoinMinted caller recipient amount)
    modify fun stateDB =>
      if stateDB.exist recipient then stateDB else stateDB.createAccount recipient
    -- `uint256.FromBig` keeps the amount modulo `2^256`
    modify (·.addBalance recipient (amount % 2^256).toNat)
    pure ([], remainingGas)

def createNativeMinterPrecompile (allowListABI : AllowListABI) (abi : NativeMinterABI) :
    Except PrecompileError StatefulPrecompileWithFunctionSelectors :=
  newStatefulPrecompileContract none (createAllowListFunctions allowListABI ContractAddress ++
    [⟨abi.methodID .mintNativeCoin, mintNativeCoin abi, none⟩])

theorem keeps_mintNativeCoin (p : Address) (abi : NativeMinterABI) (evm : AccessibleState)
    (caller addr : Address) (input : List UInt8) (suppliedGas : UInt64) (readOnly : Bool) :
    Keeps (SameRoles p) (mintNativeCoin abi evm caller addr input suppliedGas readOnly) := by
  refine keeps_bind (SameRoles p) (keeps_orFail _ _ _) fun remainingGas => ?_
  refine keeps_bind (SameRoles p) (keeps_failIf _ _ _ _) fun _ => ?_
  refine keeps_bind (SameRoles p) (keeps_orFail _ _ _) fun ⟨recipient, amount⟩ => ?_
  refine keeps_bind (SameRoles p) (keeps_get _) fun s => ?_
  refine keeps_bind (SameRoles p) (keeps_failIf _ _ _ _) fun _ => ?_
  refine keeps_bind (SameRoles p) (keeps_emitEvent p _ _ _ _ _) fun remainingGas => ?_
  refine keeps_bind (SameRoles p) (keeps_modify _ _ fun s => ?_) fun _ => ?_
  · by_cases h : s.exist recipient
    · simp only [h, if_true]
      exact Std.Refl.refl s
    · simp only [h, Bool.false_eq_true, if_false]
      exact sameRoles_of_storage_eq p (StateDB.storage_createAccount s recipient)
  refine keeps_bind (SameRoles p) (keeps_modify _ _ fun s => ?_) fun _ => keeps_pure _ _
  exact sameRoles_of_storage_eq p (StateDB.storage_addBalance s _ _)

/-! ## What a successful mint does to balances -/

section Mint
variable {abi : NativeMinterABI} {evm : AccessibleState} {caller addr : Address}
  {input : List UInt8} {suppliedGas : UInt64} {readOnly : Bool}

theorem balance_step_emitEvent (remainingGas eventGasCost : UInt64) (address : Address)
    (event : Event) (s : StateDB) :
    (step (emitEvent evm remainingGas eventGasCost address event) s).2.balance = s.balance ∧
      (step (emitEvent evm remainingGas eventGasCost address event) s).2.accountExists =
        s.accountExists := by
  obtain ⟨logs, h⟩ := step_emitEvent evm remainingGas eventGasCost address event s
  rw [h]
  exact ⟨rfl, rfl⟩

theorem step_mintNativeCoin_eq_ok {s s' : StateDB} {out : List UInt8 × UInt64}
    (h : step (mintNativeCoin abi evm caller addr input suppliedGas readOnly) s = (.ok out, s')) :
    ∃ recipient amount,
      unpackMintNativeCoinInput abi input (!isDurangoActivated evm) = .ok (recipient, amount) ∧
      (getAllowListStatus s ContractAddress caller).isEnabled = true ∧
      s'.balance = Function.update s.balance recipient
        (((if s.exist recipient then s.balance recipient else 0) + (amount % 2^256).toNat) % 2^256) := by
  unfold mintNativeCoin at h
  -- peel the checks off one at a time: none of them writes the state
  obtain ⟨remainingGas, s₁, h₁, hk₁⟩ := step_bind_eq_ok.mp h
  obtain ⟨-, hs₁⟩ := step_orFail_eq_ok.mp h₁
  obtain ⟨_, s₂, h₂, hk₂⟩ := step_bind_eq_ok.mp (hs₁ ▸ hk₁)
  obtain ⟨-, hs₂⟩ := step_failIf_eq_ok.mp h₂
  obtain ⟨⟨recipient, amount⟩, s₃, h₃, hk₃⟩ := step_bind_eq_ok.mp (hs₂ ▸ hk₂)
  obtain ⟨hdecode, hs₃⟩ := step_orFail_eq_ok.mp h₃
  rw [hs₃, step_get_bind] at hk₃
  obtain ⟨_, s₄, h₄, hk₄⟩ := step_bind_eq_ok.mp hk₃
  obtain ⟨henabled, hs₄⟩ := step_failIf_eq_ok.mp h₄
  obtain ⟨remainingGas', s₅, h₅, hk₅⟩ := step_bind_eq_ok.mp (hs₄ ▸ hk₄)
  have hevent : s₅.balance = s.balance ∧ s₅.accountExists = s.accountExists := by
    have := @balance_step_emitEvent evm remainingGas NativeCoinMintedEventGasCost
      ContractAddress (.nativeCoinMinted caller recipient amount) s
    rwa [h₅] at this
  simp only [step_bind, step_modify, step_pure, Prod.mk.injEq] at hk₅
  refine ⟨recipient, amount, hdecode, by simpa using henabled, ?_⟩
  rw [← hk₅.2]
  by_cases hex : s₅.exist recipient
  · simp only [hex, if_true, StateDB.addBalance]
    simp only [StateDB.exist, hevent.2] at hex
    simp [StateDB.exist, hex, hevent.1]
  · simp only [hex, Bool.false_eq_true, if_false, StateDB.addBalance, StateDB.createAccount]
    simp only [StateDB.exist, hevent.2, Bool.not_eq_true] at hex
    simp [StateDB.exist, hex, hevent.1]

end Mint

/-- A mint of `2^256 - 1` by an admin, to an account holding one wei. -/
def wrapInput : List UInt8 := encode 32 2 ++ encode 32 (2^256-1)

/-- `(address, uint256)` read as two words, the address in the low 20 bytes of
the first. -/
def twoWordsABI : NativeMinterABI :=
  ⟨fun _ => [], fun input _ =>
    if input.length < 64 then .error "abi: length insufficient"
    else .ok (bytesToAddress (input.take 32), value ((input.drop 32).take 32))⟩

def fundedState : StateDB :=
  (AllowListConfig.mk [1] [] []).configure ContractAddress
    ⟨fun _ _ => 0, fun a => if a = 2 then 1 else 0, fun a => a = 2, []⟩

theorem mint_wraps_recipient_balance :
    fundedState.balance 2 = 1 ∧
      (step (mintNativeCoin twoWordsABI ⟨some 0, 0, 0⟩ 1 ContractAddress wrapInput 100000 false)
        fundedState).1.isOk = true ∧
      (step (mintNativeCoin twoWordsABI ⟨some 0, 0, 0⟩ 1 ContractAddress wrapInput 100000 false)
        fundedState).2.balance 2 = 0 := by
  decide

end LuxEvm.Precompile.NativeMinter

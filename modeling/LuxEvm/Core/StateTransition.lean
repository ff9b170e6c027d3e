import LuxEvm.Core.IntrinsicGas
import LuxEvm.Lib.Ledger
import LuxEvm.Lib.StateRel

/-!
# State transition

`TransitionDb` applies a message: `preCheck` checks the sender's nonce and
code, the tx allow list, the fee fields and the blob fields, then `buyGas`
checks the balance against the gas limit at the fee cap plus the value and
charges the gas limit at the price. The intrinsic gas is taken, the value is
checked, the EVM runs the call or the creation, `refundGas` pays the gas left
(with the refund counter, capped at half the gas used, outside the EVM mode)
back at the price and to the block's gas pool, and the coinbase receives the
gas used at the price.

For a message without blobs whose price is at most its fee cap, on a state
whose balances total less than `2^256`, with an EVM that returns at most the
gas it is given and keeps the total of the balances, a transition that
succeeds keeps the total, charges the sender and pays the coinbase exactly the
gas used at the price, and takes exactly the gas used from the pool; the gas
used plus the refund covers the intrinsic gas (`transitionDb_conserves`).
Outside these hypotheses the charge wraps, and a refund takes the gas used
below the intrinsic gas (`transitionDb_conservation_fails`).

The state database keeps what the transition reads and writes. `Prepare`,
which only warms the access list, and the tracing hooks are left out; the
base fee that a nil one defaults to under the EVM mode is used for the check
it guards only.
-/

set_option autoImplicit false

namespace LuxEvm.Core
open Lib.StateRel Lib.Ledger Lib.MachineInt

/-! ## Constants and errors -/

/-- `params.MaxInitCodeSize`, twice the maximum code size. -/
def MaxInitCodeSize : ℕ := 2 * 65536

/-- `params.BlobTxBlobGasPerBlob`. -/
def BlobTxBlobGasPerBlob : ℕ := 131072

/-- `types.EmptyCodeHash`, the Keccak-256 hash of no bytes. -/
def EmptyCodeHash : Hash := 0xc5d2460186f7233c927e7db2dcc703c0e500b653ca82273b7bfad8045d85a470#256

/-- The errors of the transition; `ρ` is the type of the predicaters' errors. -/
inductive TxError (ρ : Type) where
  | nonceTooHigh (msgNonce stNonce : UInt64)
  | nonceTooLow (msgNonce stNonce : UInt64)
  | nonceMax (stNonce : UInt64)
  | senderNoEOA (codeHash : Hash)
  | senderAddressNotAllowListed
  | feeCapVeryHigh (bitLen : ℕ)
  | tipVeryHigh (bitLen : ℕ)
  | tipAboveFeeCap (gasTipCap gasFeeCap : ℕ)
  /-- "BaseFee is nil in EVM context" -/
  | baseFeeNil
  | feeCapTooLow (gasFeeCap baseFee : ℕ)
  /-- a nil fee cap dereferenced under London; Go panics -/
  | nilGasFeeCap
  | blobTxCreate
  | missingBlobHashes
  /-- "blob %d has invalid hash version" -/
  | invalidBlobHashVersion (i : ℕ)
  | blobFeeCapTooLow (blobGasFeeCap blobBaseFee : ℕ)
  /-- `ErrInsufficientFunds`: "required balance exceeds 256 bits" -/
  | insufficientFundsExceeds256Bits
  /-- `ErrInsufficientFunds`, with the balance and the amount wanted -/
  | insufficientFunds (balance want : ℕ)
  | gasLimitReached
  | intrinsicGas (err : IntrinsicGasError ρ)
  /-- `ErrIntrinsicGas`, with the gas had and wanted -/
  | intrinsicGasTooLow (gas want : UInt64)
  | insufficientFundsForTransfer
  | maxInitCodeSizeExceeded (size limit : ℕ)
  | gasUintOverflow
  /-- `GasPool.AddGas` above a `uint64`; Go panics -/
  | gasPoolOverflow
  deriving Repr

/-! ## The state, the message and the EVM -/

/-- What the transition reads and writes of `vm.StateDB`; `uint256` balances.
The tx allow-list role of an address is kept as whether it is enabled. -/
structure Vm.StateDB (α : Type) where
  balance : α → ℕ
  nonce : α → UInt64
  codeHash : α → Hash
  refund : UInt64
  allowListEnabled : α → Bool

namespace Vm.StateDB

variable {α : Type} [DecidableEq α]

/-- `AddBalance`: the `uint256` balance wraps at `2^256`. -/
def addBalance (s : Vm.StateDB α) (a : α) (amount : ℕ) : Vm.StateDB α :=
  { s with balance := Function.update s.balance a ((s.balance a + amount) % 2^256) }

/-- `SubBalance` of a `uint256` amount: the balance wraps below zero. -/
def subBalance (s : Vm.StateDB α) (a : α) (amount : ℕ) : Vm.StateDB α :=
  { s with balance := Function.update s.balance a ((s.balance a + 2^256 - amount) % 2^256) }

def setNonce (s : Vm.StateDB α) (a : α) (nonce : UInt64) : Vm.StateDB α :=
  { s with nonce := Function.update s.nonce a nonce }

end Vm.StateDB

/-- `core.Message`; the recipient is `To`, nil for a creation, and the sender
`From`. A nil fee cap or access list is `none`. -/
structure Message (α : Type) where
  recipient : Option α
  sender : α
  nonce : UInt64
  value : ℕ
  gasLimit : UInt64
  gasPrice : ℕ
  gasFeeCap : Option ℕ
  gasTipCap : ℕ
  data : List UInt8
  accessList : Option (List Predicate.AccessTuple)
  blobGasFeeCap : ℕ
  blobHashes : Option (List Hash)
  skipAccountChecks : Bool

/-- What the transition reads of the block context, the chain configuration
at the block and the EVM's configuration. -/
structure Env (α ρ : Type) where
  coinbase : α
  baseFee : Option ℕ
  blobBaseFee : ℕ
  /-- `vm.Config.NoBaseFee` -/
  noBaseFee : Bool
  isLondon : Bool
  isCancun : Bool
  /-- `IsEVM` at the block's time -/
  isEVM : Bool
  /-- the tx allow-list precompile is enabled at the block's time -/
  txAllowListActive : Bool
  /-- `FeeConfig.MinBaseFee` -/
  minBaseFee : ℕ
  rules : Rules ρ

/-- What `Call` and `Create` return. -/
structure EVMResult (α ε : Type) where
  ret : List UInt8
  state : Vm.StateDB α
  gasLeft : UInt64
  err : Option ε

/-- The EVM's `Call` (caller, address, input, gas, value) and `Create`
(caller, code, gas, value), on a state. -/
structure EVM (α ε : Type) where
  call : Vm.StateDB α → α → α → List UInt8 → UInt64 → ℕ → EVMResult α ε
  create : Vm.StateDB α → α → List UInt8 → UInt64 → ℕ → EVMResult α ε

/-- `ExecutionResult`. -/
structure ExecutionResult (ε : Type) where
  usedGas : UInt64
  refundedGas : UInt64
  err : Option ε
  returnData : List UInt8

/-! ## The transition -/

section Model

variable {α ε ρ : Type} [DecidableEq α]

/-- `GasPool.SubGas`. -/
def subGas (gp amount : UInt64) : Except (TxError ρ) UInt64 :=
  if gp < amount then .error .gasLimitReached else .ok (gp - amount)

/-- `GasPool.AddGas`. -/
def addGas (gp amount : UInt64) : Except (TxError ρ) UInt64 :=
  if gp > MaxUint64 - amount then .error .gasPoolOverflow else .ok (gp + amount)

/-- `big.Int.BitLen` of a natural. -/
def bitLen (n : ℕ) : ℕ := if n = 0 then 0 else n.log2 + 1

/-- `blobGasUsed`. -/
def blobGasUsed (msg : Message α) : ℕ := (msg.blobHashes.getD []).length * BlobTxBlobGasPerBlob

/-- `kzg4844.IsValidVersionedHash` of a 32-byte hash: its first byte is `1`. -/
def isValidVersionedHash (h : Hash) : Bool := h.toNat / 2^248 == 1

/-- The account checks of `preCheck`, skipped for fake messages. -/
def accountChecks (env : Env α ρ) (msg : Message α) (state : Vm.StateDB α) : Except (TxError ρ) Unit :=
  if msg.skipAccountChecks then .ok ()
  else
    let stNonce := state.nonce msg.sender
    if stNonce < msg.nonce then .error (.nonceTooHigh msg.nonce stNonce)
    else if stNonce > msg.nonce then .error (.nonceTooLow msg.nonce stNonce)
    else if stNonce + 1 < stNonce then .error (.nonceMax stNonce)
    else
      let codeHash := state.codeHash msg.sender
      if codeHash ≠ 0 ∧ codeHash ≠ EmptyCodeHash then .error (.senderNoEOA codeHash)
      else if env.txAllowListActive ∧ !state.allowListEnabled msg.sender then
        .error .senderAddressNotAllowListed
      else .ok ()

/-- The base-fee check of `preCheck` under London. -/
def feeChecks (env : Env α ρ) (msg : Message α) : Except (TxError ρ) Unit :=
  if !env.isLondon then .ok ()
  else
    match msg.gasFeeCap with
    | none => .error .nilGasFeeCap
    | some feeCap =>
      let skipCheck := env.noBaseFee && bitLen feeCap == 0 && bitLen msg.gasTipCap == 0
      if skipCheck then .ok ()
      else if bitLen feeCap > 256 then .error (.feeCapVeryHigh (bitLen feeCap))
      else if bitLen msg.gasTipCap > 256 then .error (.tipVeryHigh (bitLen msg.gasTipCap))
      else if feeCap < msg.gasTipCap then .error (.tipAboveFeeCap msg.gasTipCap feeCap)
      else
        -- a nil base fee is skipped under `NoBaseFee` and is the minimum under the EVM mode
        match env.baseFee with
        | some baseFee => if feeCap < baseFee then .error (.feeCapTooLow feeCap baseFee) else .ok ()
        | none =>
          if env.noBaseFee then .ok ()
          else if env.isEVM then
            if feeCap < env.minBaseFee then .error (.feeCapTooLow feeCap env.minBaseFee) else .ok ()
          else .error .baseFeeNil

/-- The blob checks of `preCheck`. -/
def blobChecks (env : Env α ρ) (msg : Message α) : Except (TxError ρ) Unit := do
  match msg.blobHashes with
  | none => pure ()
  | some hashes =>
    if msg.recipient.isNone then throw .blobTxCreate
    if hashes.isEmpty then throw .missingBlobHashes
    match hashes.findIdx? (fun h => !isValidVersionedHash h) with
    | some i => throw (.invalidBlobHashVersion i)
    | none => pure ()
  if env.isCancun ∧ 0 < blobGasUsed msg then
    let skipCheck := env.noBaseFee && bitLen msg.blobGasFeeCap == 0
    if !skipCheck ∧ msg.blobGasFeeCap < env.blobBaseFee then
      throw (.blobFeeCapTooLow msg.blobGasFeeCap env.blobBaseFee)

/-- The blob gas charged under Cancun: at the blob base fee, or at the blob
fee cap for the balance check. -/
def blobCharge (env : Env α ρ) (msg : Message α) (price : ℕ) : ℕ :=
  if env.isCancun ∧ 0 < blobGasUsed msg then blobGasUsed msg * price else 0

/-- `mgval`: the gas limit at the price, plus the blob fee. -/
def mgval (env : Env α ρ) (msg : Message α) : ℕ :=
  msg.gasLimit.toNat * msg.gasPrice + blobCharge env msg env.blobBaseFee

/-- `balanceCheck`: the gas limit at the fee cap plus the value when there is
a fee cap, else `mgval`; plus the blob gas at its fee cap. -/
def balanceCheck (env : Env α ρ) (msg : Message α) : ℕ :=
  (match msg.gasFeeCap with
    | none => msg.gasLimit.toNat * msg.gasPrice
    | some feeCap => msg.gasLimit.toNat * feeCap + msg.value) +
  blobCharge env msg msg.blobGasFeeCap

/-- `buyGas`: the pool and the state after the gas is bought. The charge is
taken through `uint256.FromBig`, whose overflow flag is dropped. -/
def buyGas (env : Env α ρ) (msg : Message α) (state : Vm.StateDB α) (gp : UInt64) :
    Except (TxError ρ) (UInt64 × Vm.StateDB α) :=
  if 2^256 ≤ balanceCheck env msg then .error .insufficientFundsExceeds256Bits
  else if state.balance msg.sender < balanceCheck env msg then
    .error (.insufficientFunds (state.balance msg.sender) (balanceCheck env msg))
  else
    match subGas gp msg.gasLimit with
    | .error err => .error err
    | .ok gp => .ok (gp, state.subBalance msg.sender (mgval env msg % 2^256))

/-- `preCheck`. -/
def preCheck (env : Env α ρ) (msg : Message α) (state : Vm.StateDB α) (gp : UInt64) :
    Except (TxError ρ) (UInt64 × Vm.StateDB α) := do
  accountChecks env msg state
  feeChecks env msg
  blobChecks env msg
  buyGas env msg state gp

/-- The value and init-code checks of `TransitionDb`. -/
def transferChecks (env : Env α ρ) (msg : Message α) (state : Vm.StateDB α) :
    Except (TxError ρ) Unit :=
  if 2^256 ≤ msg.value then .error .insufficientFundsForTransfer
  else if msg.value ≠ 0 ∧ state.balance msg.sender < msg.value then .error .insufficientFundsForTransfer
  else if env.rules.extra.isDurango ∧ msg.recipient.isNone ∧ MaxInitCodeSize < msg.data.length then
    .error (.maxInitCodeSizeExceeded msg.data.length MaxInitCodeSize)
  else .ok ()

/-- The creation, or the call after the sender's nonce is incremented. -/
def runEvm (evm : EVM α ε) (msg : Message α) (state : Vm.StateDB α) (gas : UInt64) : EVMResult α ε :=
  match msg.recipient with
  | none => evm.create state msg.sender msg.data gas msg.value
  | some addr =>
    evm.call (state.setNonce msg.sender (state.nonce msg.sender + 1)) msg.sender addr msg.data gas msg.value

/-- The refund of `refundGas`: the refund counter capped at half the gas used,
outside the EVM mode. -/
def refundOf (isEVM : Bool) (initialGas gasRemaining refundCounter : UInt64) : UInt64 :=
  if !isEVM then min ((initialGas - gasRemaining) / 2) refundCounter else 0

/-- `refundGas`: the refund, the gas remaining, the state and the pool. -/
def refundGas (isEVM : Bool) (msg : Message α) (initialGas gasRemaining : UInt64) (state : Vm.StateDB α)
    (gp : UInt64) : Except (TxError ρ) (UInt64 × UInt64 × Vm.StateDB α × UInt64) :=
  let refund := refundOf isEVM initialGas gasRemaining state.refund
  let gasRemaining := gasRemaining + refund
  let state := state.addBalance msg.sender ((gasRemaining.toNat * msg.gasPrice) % 2^256)
  (fun gp => (refund, gasRemaining, state, gp)) <$> addGas gp gasRemaining

/-- `TransitionDb`: the result, the pool and the state. The gas remaining
starts at the gas limit bought, which is also the initial gas. -/
def transitionDb (env : Env α ρ) (evm : EVM α ε) (msg : Message α) (gp : UInt64) (state : Vm.StateDB α) :
    Except (TxError ρ) (ExecutionResult ε × UInt64 × Vm.StateDB α) := do
  let (gp, state) ← preCheck env msg state gp
  let gas ← (intrinsicGas msg.data msg.accessList msg.recipient.isNone env.rules).mapError .intrinsicGas
  if msg.gasLimit < gas then throw (.intrinsicGasTooLow msg.gasLimit gas)
  transferChecks env msg state
  let r := runEvm evm msg state (msg.gasLimit - gas)
  if 2^256 ≤ msg.gasPrice then throw .gasUintOverflow
  let (gasRefund, gasRemaining, refunded, pool) ← refundGas env.isEVM msg msg.gasLimit r.gasLeft r.state gp
  let gasUsed := msg.gasLimit - gasRemaining
  pure (⟨gasUsed, gasRefund, r.err, r.ret⟩, pool,
    refunded.addBalance env.coinbase ((gasUsed.toNat * msg.gasPrice) % 2^256))

end Model

/-! ## What each part of the transition does -/

namespace Vm.StateDB

variable {α : Type} [DecidableEq α]

theorem balance_addBalance_of_lt (s : Vm.StateDB α) (a : α) {v : ℕ} (hv : s.balance a + v < 2^256) :
    (s.addBalance a v).balance = Function.update s.balance a (s.balance a + v) := by
  rw [addBalance, Nat.mod_eq_of_lt hv]

theorem subBalance_of_le (s : Vm.StateDB α) (a : α) {v : ℕ} (hv : v ≤ s.balance a)
    (hlt : s.balance a < 2^256) :
    s.subBalance a v = { s with balance := Function.update s.balance a (s.balance a - v) } := by
  rw [subBalance, show s.balance a + 2^256 - v = s.balance a - v + 2^256 by omega, Nat.add_mod_right,
    Nat.mod_eq_of_lt (by omega)]

theorem total_addBalance [Fintype α] (s : Vm.StateDB α) (a : α) {v : ℕ} (hv : total s.balance + v < 2^256) :
    total (s.addBalance a v).balance = total s.balance + v := by
  have hle := le_total s.balance a
  rw [balance_addBalance_of_lt s a (by omega), total_credit]

theorem addBalance_addBalance [Fintype α] (s : Vm.StateDB α) (a b : α) {x y : ℕ}
    (hxy : total s.balance + x + y < 2^256) :
    total ((s.addBalance a x).addBalance b y).balance = total s.balance + x + y ∧
      ((s.addBalance a x).addBalance b y).balance =
        fun c => s.balance c + (if c = a then x else 0) + (if c = b then y else 0) := by
  have hx : total s.balance + x < 2^256 := by omega
  have htotal₁ := total_addBalance s a hx
  have hy : total (s.addBalance a x).balance + y < 2^256 := by omega
  have hle₁ := le_total s.balance a
  have hle₂ := le_total (s.addBalance a x).balance b
  refine ⟨by rw [total_addBalance _ b hy, htotal₁], ?_⟩
  rw [balance_addBalance_of_lt _ b (by omega), balance_addBalance_of_lt s a (by omega), update_credit_credit]

end Vm.StateDB

section Spec

variable {α ε ρ : Type} {env : Env α ρ} {msg : Message α}

theorem blobCharge_of_none (hblob : msg.blobHashes = none) (price : ℕ) : blobCharge env msg price = 0 := by
  simp [blobCharge, blobGasUsed, hblob]

theorem mgval_le_balanceCheck (hblob : msg.blobHashes = none)
    (hcap : ∀ feeCap, msg.gasFeeCap = some feeCap → msg.gasPrice ≤ feeCap) :
    mgval env msg = msg.gasLimit.toNat * msg.gasPrice ∧ mgval env msg ≤ balanceCheck env msg := by
  have hmgval : mgval env msg = msg.gasLimit.toNat * msg.gasPrice := by
    rw [mgval, blobCharge_of_none hblob, Nat.add_zero]
  refine ⟨hmgval, ?_⟩
  rw [hmgval, balanceCheck, blobCharge_of_none hblob, Nat.add_zero]
  cases hfc : msg.gasFeeCap with
  | none => exact le_refl _
  | some feeCap =>
    have := Nat.mul_le_mul_left msg.gasLimit.toNat (hcap feeCap hfc)
    dsimp only
    omega

variable [DecidableEq α]

theorem preCheck_eq_ok {state : Vm.StateDB α} {gp : UInt64} {r : UInt64 × Vm.StateDB α}
    (h : preCheck env msg state gp = .ok r) : buyGas env msg state gp = .ok r := by
  obtain ⟨_, -, h⟩ := bind_eq_ok.mp h
  obtain ⟨_, -, h⟩ := bind_eq_ok.mp h
  obtain ⟨_, -, h⟩ := bind_eq_ok.mp h
  exact h

theorem buyGas_eq_ok {state : Vm.StateDB α} {gp gp' : UInt64} {s' : Vm.StateDB α}
    (h : buyGas env msg state gp = .ok (gp', s')) :
    balanceCheck env msg < 2^256 ∧ balanceCheck env msg ≤ state.balance msg.sender ∧
      msg.gasLimit ≤ gp ∧ gp' = gp - msg.gasLimit ∧
      s' = state.subBalance msg.sender (mgval env msg % 2^256) := by
  unfold buyGas at h
  split_ifs at h with hfit hbal
  unfold subGas at h
  split_ifs at h with hpool
  cases h
  exact ⟨by omega, by omega, UInt64.not_lt.mp hpool, rfl, rfl⟩

theorem refundGas_eq_ok {isEVM : Bool} {initialGas gasLeft : UInt64} {state : Vm.StateDB α}
    {gp refund rem gp' : UInt64} {s' : Vm.StateDB α}
    (h : refundGas (ρ := ρ) isEVM msg initialGas gasLeft state gp = .ok (refund, rem, s', gp')) :
    refund = refundOf isEVM initialGas gasLeft state.refund ∧ rem = gasLeft + refund ∧
      s' = state.addBalance msg.sender ((rem.toNat * msg.gasPrice) % 2^256) ∧
      gp'.toNat = gp.toNat + rem.toNat := by
  unfold refundGas at h
  dsimp only at h
  cases hg : addGas (ρ := ρ) gp (gasLeft + refundOf isEVM initialGas gasLeft state.refund) with
  | error e =>
    rw [hg] at h
    cases h
  | ok g =>
    rw [hg] at h
    cases h
    refine ⟨rfl, rfl, rfl, ?_⟩
    unfold addGas at hg
    by_cases hpool : gp > MaxUint64 - (gasLeft + refundOf isEVM initialGas gasLeft state.refund)
    · rw [if_pos hpool] at hg
      cases hg
    rw [if_neg hpool] at hg
    cases hg
    have hle : gp.toNat ≤ 2^64 - 1 - (gasLeft + refundOf isEVM initialGas gasLeft state.refund).toNat := by
      have := UInt64.not_lt.mp hpool
      rw [UInt64.le_iff_toNat_le, UInt64.toNat_sub_of_le _ _ (UInt64.le_iff_toNat_le.mpr
        (by rw [toNat_MaxUint64]; exact Nat.le_sub_one_of_lt (UInt64.toNat_lt _))), toNat_MaxUint64] at this
      exact this
    have hlt := UInt64.toNat_lt (gasLeft + refundOf isEVM initialGas gasLeft state.refund)
    rw [UInt64.toNat_add, Nat.mod_eq_of_lt (by omega)]

theorem toNat_refundOf_le (isEVM : Bool) {initialGas gasLeft : UInt64} (refundCounter : UInt64)
    (hl : gasLeft ≤ initialGas) :
    2 * (refundOf isEVM initialGas gasLeft refundCounter).toNat ≤ initialGas.toNat - gasLeft.toNat := by
  have hused : (initialGas - gasLeft).toNat = initialGas.toNat - gasLeft.toNat := UInt64.toNat_sub_of_le _ _ hl
  unfold refundOf
  split
  · rw [UInt64.toNat_min, UInt64.toNat_div, hused, show (2 : UInt64).toNat = 2 from rfl]
    have := Nat.min_le_left ((initialGas.toNat - gasLeft.toNat) / 2) refundCounter.toNat
    change _ ≤ _ at this
    omega
  · simp

/-- A transition that succeeds passed `preCheck`, took the intrinsic gas from
the gas limit, ran the EVM on what was left, passed the price check and the
refund, and paid the coinbase the gas used at the price. -/
theorem transitionDb_eq_ok {evm : EVM α ε} {gp gp' : UInt64} {state state' : Vm.StateDB α}
    {res : ExecutionResult ε} (h : transitionDb env evm msg gp state = .ok (res, gp', state')) :
    ∃ gpBuy sBuy gas refund rem sRefund,
      preCheck env msg state gp = .ok (gpBuy, sBuy) ∧
      intrinsicGas msg.data msg.accessList msg.recipient.isNone env.rules = .ok gas ∧
      gas ≤ msg.gasLimit ∧ msg.gasPrice < 2^256 ∧
      refundGas (ρ := ρ) env.isEVM msg msg.gasLimit (runEvm evm msg sBuy (msg.gasLimit - gas)).gasLeft
        (runEvm evm msg sBuy (msg.gasLimit - gas)).state gpBuy = .ok (refund, rem, sRefund, gp') ∧
      res = ⟨msg.gasLimit - rem, refund, (runEvm evm msg sBuy (msg.gasLimit - gas)).err,
        (runEvm evm msg sBuy (msg.gasLimit - gas)).ret⟩ ∧
      state' = sRefund.addBalance env.coinbase (((msg.gasLimit - rem).toNat * msg.gasPrice) % 2^256) := by
  obtain ⟨⟨gpBuy, sBuy⟩, hpre, h⟩ := bind_eq_ok.mp h
  obtain ⟨gas, hgas, h⟩ := bind_eq_ok.mp h
  simp only [↓ite_throw_bind_eq_ok] at h
  obtain ⟨hfits, h⟩ := h
  obtain ⟨_, -, h⟩ := bind_eq_ok.mp h
  simp only [↓ite_throw_bind_eq_ok] at h
  obtain ⟨hprice, h⟩ := h
  obtain ⟨⟨refund, rem, sRefund, gpRefund⟩, hrefund, h⟩ := bind_eq_ok.mp h
  cases h
  exact ⟨gpBuy, sBuy, gas, refund, rem, sRefund, hpre, mapError_eq_ok.mp hgas, UInt64.not_lt.mp hfits,
    Nat.lt_of_not_le hprice, hrefund, rfl, rfl⟩

theorem runEvm_spec [Fintype α] {evm : EVM α ε}
    (hcall : ∀ s caller addr input gas value, (evm.call s caller addr input gas value).gasLeft ≤ gas ∧
      total (evm.call s caller addr input gas value).state.balance = total s.balance)
    (hcreate : ∀ s caller code gas value, (evm.create s caller code gas value).gasLeft ≤ gas ∧
      total (evm.create s caller code gas value).state.balance = total s.balance)
    (s : Vm.StateDB α) (gas : UInt64) :
    (runEvm evm msg s gas).gasLeft ≤ gas ∧ total (runEvm evm msg s gas).state.balance = total s.balance := by
  unfold runEvm
  cases msg.recipient with
  | none => exact hcreate _ _ _ _ _
  | some addr => exact hcall _ _ _ _ _ _

/-- Without blobs, at a price at most the fee cap, on balances that total less
than `2^256`: `preCheck` takes the gas limit from the pool and the gas limit at
the price, which fits a word, from the sender. -/
theorem preCheck_charges [Fintype α] {state : Vm.StateDB α} {gp gpBuy : UInt64} {sBuy : Vm.StateDB α}
    (hblob : msg.blobHashes = none) (hcap : ∀ feeCap, msg.gasFeeCap = some feeCap → msg.gasPrice ≤ feeCap)
    (htotal : total state.balance < 2^256) (h : preCheck env msg state gp = .ok (gpBuy, sBuy)) :
    msg.gasLimit.toNat * msg.gasPrice < 2^256 ∧ msg.gasLimit ≤ gp ∧ gpBuy = gp - msg.gasLimit ∧
      sBuy = { state with
        balance := Function.update state.balance msg.sender
          (state.balance msg.sender - msg.gasLimit.toNat * msg.gasPrice) } ∧
      total sBuy.balance + msg.gasLimit.toNat * msg.gasPrice = total state.balance := by
  obtain ⟨hfit, hbal, hpool, hgp, hs⟩ := buyGas_eq_ok (preCheck_eq_ok h)
  obtain ⟨hmgval, hcheck⟩ : mgval env msg = _ ∧ mgval env msg ≤ balanceCheck env msg :=
    mgval_le_balanceCheck hblob hcap
  have hsender := le_total state.balance msg.sender
  have hcharge : msg.gasLimit.toNat * msg.gasPrice < 2^256 := by omega
  rw [hmgval, Nat.mod_eq_of_lt hcharge, Vm.StateDB.subBalance_of_le state msg.sender (by omega) (by omega)] at hs
  subst hs
  exact ⟨hcharge, hpool, hgp, rfl, total_debit state.balance msg.sender (by omega)⟩

/-- The gas of a transition: with the intrinsic gas taken from the limit, at
most the rest left by the EVM and a refund of at most half the gas used, the
gas remaining is their sum without a carry, and at most the limit; the gas
used is the limit less the gas remaining, and the limit less the gas used is
the gas remaining again. -/
theorem toNat_gasRemaining {gasLimit gas gasLeft refund : UInt64} (hg : gas ≤ gasLimit)
    (hl : gasLeft ≤ gasLimit - gas) (hr : 2 * refund.toNat ≤ gasLimit.toNat - gasLeft.toNat) :
    (gasLeft + refund).toNat = gasLeft.toNat + refund.toNat ∧
      gas.toNat + gasLeft.toNat + refund.toNat ≤ gasLimit.toNat + refund.toNat ∧
      (gasLimit - (gasLeft + refund)).toNat = gasLimit.toNat - (gasLeft.toNat + refund.toNat) ∧
      gasLeft.toNat + refund.toNat ≤ gasLimit.toNat ∧
      gasLimit - (gasLeft + refund) ≤ gasLimit ∧
      (gasLimit - (gasLimit - (gasLeft + refund))).toNat = gasLeft.toNat + refund.toNat := by
  have hg' := UInt64.le_iff_toNat_le.mp hg
  have hl' := UInt64.le_iff_toNat_le.mp hl
  rw [UInt64.toNat_sub_of_le _ _ hg] at hl'
  have hlim := UInt64.toNat_lt gasLimit
  have hsum : (gasLeft + refund).toNat = gasLeft.toNat + refund.toNat := by
    rw [UInt64.toNat_add, Nat.mod_eq_of_lt (by omega)]
  have hused : (gasLimit - (gasLeft + refund)).toNat = gasLimit.toNat - (gasLeft.toNat + refund.toNat) := by
    rw [UInt64.toNat_sub_of_le _ _ (UInt64.le_iff_toNat_le.mpr (by omega)), hsum]
  have husedLe : gasLimit - (gasLeft + refund) ≤ gasLimit := UInt64.le_iff_toNat_le.mpr (by omega)
  refine ⟨hsum, by omega, hused, by omega, husedLe, ?_⟩
  rw [UInt64.toNat_sub_of_le _ _ husedLe, hused]
  omega

end Spec

/-! ## Conservation -/

section Conservation

variable {α ε ρ : Type} [DecidableEq α] [Fintype α]

theorem transitionDb_conserves (env : Env α ρ) (evm : EVM α ε) (msg : Message α) (gp : UInt64)
    (state : Vm.StateDB α) (hblob : msg.blobHashes = none)
    (hcap : ∀ feeCap, msg.gasFeeCap = some feeCap → msg.gasPrice ≤ feeCap)
    (htotal : total state.balance < 2^256)
    (hcall : ∀ s caller addr input gas value, (evm.call s caller addr input gas value).gasLeft ≤ gas ∧
      total (evm.call s caller addr input gas value).state.balance = total s.balance)
    (hcreate : ∀ s caller code gas value, (evm.create s caller code gas value).gasLeft ≤ gas ∧
      total (evm.create s caller code gas value).state.balance = total s.balance)
    (res : ExecutionResult ε) (gp' : UInt64) (state' : Vm.StateDB α)
    (h : transitionDb env evm msg gp state = .ok (res, gp', state')) :
    (msg.gasLimit.toNat * msg.gasPrice < 2^256 ∧
        (msg.gasLimit - res.usedGas).toNat * msg.gasPrice < 2^256 ∧
        res.usedGas.toNat * msg.gasPrice < 2^256) ∧
      total state'.balance = total state.balance ∧
      ((msg.gasLimit - res.usedGas).toNat * msg.gasPrice + res.usedGas.toNat * msg.gasPrice =
          msg.gasLimit.toNat * msg.gasPrice ∧
        ∃ gas, state'.balance = fun a =>
          (runEvm evm msg { state with
              balance := Function.update state.balance msg.sender
                (state.balance msg.sender - msg.gasLimit.toNat * msg.gasPrice) } gas).state.balance a +
            (if a = msg.sender then (msg.gasLimit - res.usedGas).toNat * msg.gasPrice else 0) +
            (if a = env.coinbase then res.usedGas.toNat * msg.gasPrice else 0)) ∧
      gp'.toNat + res.usedGas.toNat = gp.toNat ∧ res.usedGas ≤ msg.gasLimit ∧
      (∀ gas, intrinsicGas msg.data msg.accessList msg.recipient.isNone env.rules = .ok gas →
        gas.toNat ≤ res.usedGas.toNat + res.refundedGas.toNat) ∧
      2 * res.refundedGas.toNat ≤ res.usedGas.toNat + res.refundedGas.toNat ∧
      (env.isEVM = true → res.refundedGas = 0) := by
  obtain ⟨gpBuy, sBuy, gas, refund, rem, sRefund, hpre, hgas, hfits, hprice, hrefund, rfl, rfl⟩ :=
    transitionDb_eq_ok h
  obtain ⟨hcharge, hpool, rfl, rfl, htotalBuy⟩ := preCheck_charges hblob hcap htotal hpre
  set r := runEvm evm msg { state with
    balance := Function.update state.balance msg.sender
      (state.balance msg.sender - msg.gasLimit.toNat * msg.gasPrice) } (msg.gasLimit - gas) with hr
  obtain ⟨hleft, htotalEvm⟩ := runEvm_spec hcall hcreate _ (msg.gasLimit - gas)
  rw [← hr] at hleft htotalEvm
  obtain ⟨rfl, rfl, rfl, hpoolBack⟩ := refundGas_eq_ok hrefund
  have hleft' : r.gasLeft ≤ msg.gasLimit := by
    have := UInt64.le_iff_toNat_le.mp hleft
    rw [UInt64.toNat_sub_of_le _ _ hfits] at this
    exact UInt64.le_iff_toNat_le.mpr (by omega)
  have hhalf := toNat_refundOf_le env.isEVM r.state.refund hleft'
  set R := refundOf env.isEVM msg.gasLimit r.gasLeft r.state.refund with hR
  obtain ⟨hremNat, hintr, husedNat, hremLe, husedLe, hback⟩ := toNat_gasRemaining hfits hleft hhalf
  have hsplit : (r.gasLeft.toNat + R.toNat) * msg.gasPrice +
      (msg.gasLimit.toNat - (r.gasLeft.toNat + R.toNat)) * msg.gasPrice = msg.gasLimit.toNat * msg.gasPrice := by
    rw [← Nat.add_mul, Nat.add_sub_cancel' hremLe]
  have hremCharge : (r.gasLeft.toNat + R.toNat) * msg.gasPrice < 2^256 := by omega
  have husedCharge : (msg.gasLimit.toNat - (r.gasLeft.toNat + R.toNat)) * msg.gasPrice < 2^256 := by omega
  obtain ⟨htotal', hbal'⟩ := r.state.addBalance_addBalance msg.sender env.coinbase
    (x := (r.gasLeft.toNat + R.toNat) * msg.gasPrice)
    (y := (msg.gasLimit.toNat - (r.gasLeft.toNat + R.toNat)) * msg.gasPrice) (by rw [htotalEvm]; omega)
  simp only [hremNat, husedNat, hback, Nat.mod_eq_of_lt hremCharge, Nat.mod_eq_of_lt husedCharge]
  refine ⟨⟨hcharge, hremCharge, husedCharge⟩, ?_, ⟨hsplit, msg.gasLimit - gas, ?_⟩, ?_, husedLe, ?_, ?_, ?_⟩
  · -- (b) the sender's refund and the coinbase's fee make up the charge
    rw [htotal', htotalEvm]
    omega
  · -- (c) the two credits on top of what the EVM left
    rw [hbal', ← hr]
  · -- (d) the pool got back the gas remaining
    rw [hpoolBack, UInt64.toNat_sub_of_le _ _ hpool, hremNat]
    have := UInt64.le_iff_toNat_le.mp hpool
    omega
  · intro gas' hgas'
    rw [hgas] at hgas'
    cases hgas'
    omega
  · omega
  · intro hevm
    simp [hR, refundOf, hevm]

end Conservation

/-! ## A refund below the intrinsic gas, and charges that wrap -/

def sampleEvm : EVM Bool Empty where
  call s _ _ _ gas _ := ⟨[], { s with refund := 20000 }, gas / 2, none⟩
  create s _ _ gas _ := ⟨[], { s with refund := 20000 }, gas / 2, none⟩

theorem sampleEvm_keeps :
    (∀ s caller addr input gas value, (sampleEvm.call s caller addr input gas value).gasLeft ≤ gas ∧
      total (sampleEvm.call s caller addr input gas value).state.balance = total s.balance) ∧
    (∀ s caller code gas value, (sampleEvm.create s caller code gas value).gasLeft ≤ gas ∧
      total (sampleEvm.create s caller code gas value).state.balance = total s.balance) := by
  have hhalf (gas : UInt64) : gas / 2 ≤ gas :=
    UInt64.le_iff_toNat_le.mpr (by rw [UInt64.toNat_div]; exact Nat.div_le_self _ _)
  exact ⟨fun _ _ _ _ gas _ => ⟨hhalf gas, rfl⟩, fun _ _ _ gas _ => ⟨hhalf gas, rfl⟩⟩

/-- A block before London and Cancun whose coinbase is `false`. -/
def sampleEnv : Env Bool Empty := ⟨false, none, 0, false, false, false, false, false, 0, plainRules⟩

/-- A plain call from `true` to `false` of `30000` gas at price `1`. -/
def sampleMsg : Message Bool := ⟨some false, true, 0, 0, 30000, 1, none, 0, [], none, 0, none, true⟩

/-- The call of `30001` gas at price `2^255` with a fee cap of `0`. -/
def overpricedMsg : Message Bool := { sampleMsg with gasLimit := 30001, gasPrice := 2^255, gasFeeCap := some 0 }

def sampleState : Vm.StateDB Bool := ⟨fun a => if a then 1000000 else 0, fun _ => 0, fun _ => 0, 0, fun _ => true⟩

/-- The coinbase holds `2^256 - 1`. -/
def richState : Vm.StateDB Bool := { sampleState with balance := fun a => if a then 1000000 else 2^256 - 1 }

/-- The sample call succeeds, and keeps the total of the balances. -/
theorem transitionDb_conserves_sample :
    ∃ res gp' state', transitionDb sampleEnv sampleEvm sampleMsg 8000000 sampleState = .ok (res, gp', state') ∧
      total state'.balance = total sampleState.balance := by
  obtain ⟨res, gp', state', h⟩ : ∃ res gp' state',
      transitionDb sampleEnv sampleEvm sampleMsg 8000000 sampleState = .ok (res, gp', state') :=
    ⟨_, _, _, rfl⟩
  exact ⟨res, gp', state', h, (transitionDb_conserves sampleEnv sampleEvm sampleMsg 8000000 sampleState rfl
    (fun _ h => by cases h) (by decide) sampleEvm_keeps.1 sampleEvm_keeps.2 res gp' state' h).2.1⟩

theorem transitionDb_conservation_fails :
    ((∀ s caller addr input gas value, (sampleEvm.call s caller addr input gas value).gasLeft ≤ gas ∧
        total (sampleEvm.call s caller addr input gas value).state.balance = total s.balance) ∧
      (∀ s caller code gas value, (sampleEvm.create s caller code gas value).gasLeft ≤ gas ∧
        total (sampleEvm.create s caller code gas value).state.balance = total s.balance)) ∧
    sampleMsg.blobHashes = none ∧ overpricedMsg.blobHashes = none ∧
    intrinsicGas sampleMsg.data sampleMsg.accessList sampleMsg.recipient.isNone sampleEnv.rules = .ok 21000 ∧
    (∃ res gp' state', transitionDb sampleEnv sampleEvm sampleMsg 8000000 sampleState = .ok (res, gp', state') ∧
      res.usedGas.toNat < 21000) ∧
    -- at a price above the fee cap the charge wraps, and the balances gain `2^256`
    (∃ res gp' state', transitionDb sampleEnv sampleEvm overpricedMsg 8000000 sampleState = .ok (res, gp', state') ∧
      2^256 ≤ overpricedMsg.gasLimit.toNat * overpricedMsg.gasPrice ∧
      total state'.balance = total sampleState.balance + 2^256) ∧
    -- the fee wraps the coinbase's balance, and the balances lose `2^256`
    (∃ res gp' state', transitionDb sampleEnv sampleEvm sampleMsg 8000000 richState = .ok (res, gp', state') ∧
      total state'.balance + 2^256 = total richState.balance) := by
  refine ⟨sampleEvm_keeps, rfl, rfl, rfl, ⟨_, _, _, rfl, by decide⟩, ⟨_, _, _, rfl, by decide, by decide⟩,
    ⟨_, _, _, rfl, by decide⟩⟩

end LuxEvm.Core

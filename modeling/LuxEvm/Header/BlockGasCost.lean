import LuxEvm.HeaderExtra
import LuxEvm.CommonType
import LuxEvm.Lib.MachineInt

/-!
# Block gas cost and the required tip

After EVM activation every block carries a block gas cost: the parent's cost
moved by `BlockGasCostStep` for each second the block came earlier or later
than the target block rate, kept within the fee config's bounds. The code
computes it in 64-bit words with checked arithmetic, falling back to the bound
a failed operation would have passed; that lands on the clamped exact value
whatever the operands (`toNat_blockGasCost`). The step is read from the fee
config with `Uint64()`, which keeps its low 64 bits only, while `Verify` admits
any step below `2^256`: the header cost follows the exact formula exactly when
the step fits a word (`blockGasCost_eq_exact`).

`EstimateRequiredTip` spreads the block fee, the cost times the base fee, over
the gas the block used, rounding up.
-/

set_option autoImplicit false

namespace LuxEvm.Fee

open CommonType Lib.MachineInt Lib.StateRel

/-- `types.Header` with the fee fields the header code reads: `BaseFee`, and
`BlockGasCost` of the header extra. Both are `*big.Int`s decoded from RLP, never
negative; `none` is a nil pointer. -/
structure Header extends HeaderExtra.Header where
  baseFee : Option ℕ
  blockGasCost : Option ℕ

inductive Panic where
  /-- a method called on a nil `*big.Int` -/
  | nilPointer
  /-- `big.Int` division by zero -/
  | divisionByZero
  deriving DecidableEq, Repr

/-- `x.Uint64()` of a `*big.Int` field. -/
def uint64Of (x : Option ℤ) : Except Panic UInt64 :=
  match x with
  | some x => .ok (lowUint64 x)
  | none => .error .nilPointer

namespace BlockGasCost

/-- `blockgascost.BlockGasCost`: `parentCost + step * (TargetBlockRate - timeElapsed)`
in checked word arithmetic, clamped to `[MinBlockGasCost, MaxBlockGasCost]`. -/
def blockGasCost (feeConfig : FeeConfig) (parentCost step timeElapsed : UInt64) :
    Except Panic UInt64 := do
  let deviation := absDiff feeConfig.targetBlockRate timeElapsed
  let change := match mul64 step deviation with
    | .ok change => change
    | .error _ => FeeWindow.maxUint64
  let minBlockGasCost ← uint64Of feeConfig.minBlockGasCost
  let maxBlockGasCost ← uint64Of feeConfig.maxBlockGasCost
  let cost :=
    if feeConfig.targetBlockRate < timeElapsed then
      match sub parentCost change with
      | .ok cost => cost
      | .error _ => minBlockGasCost
    else
      match add64 parentCost change with
      | .ok cost => cost
      | .error _ => maxBlockGasCost
  return if cost < minBlockGasCost then minBlockGasCost
    else if maxBlockGasCost < cost then maxBlockGasCost
    else cost

end BlockGasCost

/-- `BlockGasCostWithStep`: the minimum without a parent cost. -/
def blockGasCostWithStep (feeConfig : FeeConfig) (parentCost : Option ℕ)
    (step timeElapsed : UInt64) : Except Panic UInt64 :=
  match parentCost with
  | none => uint64Of feeConfig.minBlockGasCost
  | some parentCost => BlockGasCost.blockGasCost feeConfig (lowUint64 parentCost) step timeElapsed

/-- `BlockGasCost`: nil before EVM activation; a timestamp before the parent's
counts as no time elapsed. -/
def blockGasCost (config : HeaderExtra.ChainConfig) (feeConfig : FeeConfig) (parent : Header)
    (timestamp : UInt64) : Except Panic (Option ℕ) :=
  if !config.isEVM timestamp then .ok none
  else do
    let step ← uint64Of feeConfig.blockGasCostStep
    let timeElapsed := if parent.time ≤ timestamp then timestamp - parent.time else 0
    let cost ← blockGasCostWithStep feeConfig parent.blockGasCost step timeElapsed
    return some cost.toNat

inductive TipError where
  | baseFeeNil
  | blockGasCostNil
  | noGasUsed
  deriving DecidableEq, Repr

/-- `EstimateRequiredTip`: `(blockGasCost * baseFee + gasUsed - 1) / gasUsed`, nil
before EVM activation. -/
def estimateRequiredTip (config : HeaderExtra.ChainConfig) (header : Header) :
    Except TipError (Option ℕ) :=
  if !config.isEVM header.time then .ok none
  else
    match header.baseFee, header.blockGasCost with
    | none, _ => .error .baseFeeNil
    | some _, none => .error .blockGasCostNil
    | some baseFee, some blockGasCost =>
      let totalGasUsed := header.gasUsed.toNat
      if totalGasUsed = 0 then .error .noGasUsed
      else
        -- adding `totalGasUsed - 1` rounds the division up
        let totalRequiredTips := blockGasCost * baseFee + totalGasUsed - 1
        .ok (some (totalRequiredTips / totalGasUsed))

/-! ## The exact cost -/

def exactBlockGasCost (minBlockGasCost maxBlockGasCost step : ℤ) (targetBlockRate timeElapsed : ℕ) :
    Option ℕ → ℤ
  | none => minBlockGasCost
  | some parentCost =>
    clamp minBlockGasCost maxBlockGasCost (parentCost + step * ((targetBlockRate : ℤ) - timeElapsed))

theorem exactBlockGasCost_le {lo hi : ℤ} (hlh : lo ≤ hi) (step : ℤ) (targetBlockRate timeElapsed : ℕ)
    (parentCost : Option ℕ) :
    exactBlockGasCost lo hi step targetBlockRate timeElapsed parentCost ≤ hi := by
  cases parentCost with
  | none => exact hlh
  | some p => exact clamp_le_hi hlh _

theorem toNat_maxUint64 : FeeWindow.maxUint64.toNat = 2^64 - 1 := rfl

theorem toNat_uint64Of {x : Option ℤ} {v : ℤ} (hx : x = some v) (h0 : 0 ≤ v) (h : v < 2^64) :
    ∃ w, uint64Of x = .ok w ∧ (w.toNat : ℤ) = v :=
  ⟨_, by rw [hx, uint64Of], toNat_lowUint64_of_lt h0 h⟩

/-- The checked word computation, with the bound each failed operation falls
back to, clamps to what the exact one clamps to: for every parent cost, step
and elapsed time that are words. -/
theorem toNat_blockGasCost {feeConfig : FeeConfig} {lo hi : ℤ}
    (hlo : feeConfig.minBlockGasCost = some lo) (hhi : feeConfig.maxBlockGasCost = some hi)
    (hbounds : 0 ≤ lo ∧ lo ≤ hi ∧ hi < 2^64) (parentCost step timeElapsed : UInt64) :
    ∃ cost, BlockGasCost.blockGasCost feeConfig parentCost step timeElapsed = .ok cost ∧
      (cost.toNat : ℤ) = clamp lo hi (parentCost.toNat +
        step.toNat * ((feeConfig.targetBlockRate.toNat : ℤ) - timeElapsed.toNat)) := by
  obtain ⟨hlo0, hlohi, hhi64⟩ := hbounds
  obtain ⟨minW, hminW, hmin⟩ := toNat_uint64Of hlo hlo0 (by omega)
  obtain ⟨maxW, hmaxW, hmax⟩ := toNat_uint64Of hhi (by omega) hhi64
  simp only [BlockGasCost.blockGasCost, hminW, hmaxW, ok_bind, pure_eq_ok, Except.ok.injEq,
    exists_eq_left']
  rw [toNat_clamp64, map_clamp (f := (Nat.cast : ℕ → ℤ)) Nat.strictMono_cast, hmin, hmax]
  apply clamp_eq_clamp hlohi
  -- the deviation `|rate - elapsed|`, and what the exact change is in each direction
  have hdev := toNat_absDiff feeConfig.targetBlockRate timeElapsed
  set dev := absDiff feeConfig.targetBlockRate timeElapsed
  set m := step.toNat * dev.toNat with hm
  have hp := UInt64.toNat_lt parentCost
  have hexact : (step.toNat : ℤ) * ((feeConfig.targetBlockRate.toNat : ℤ) - timeElapsed.toNat) =
      if feeConfig.targetBlockRate < timeElapsed then -(m : ℤ) else m := by
    split_ifs with hlt
    · have hlt' := UInt64.lt_iff_toNat_lt.mp hlt
      rw [abs_of_neg (by omega)] at hdev
      rw [hm, Nat.cast_mul, hdev]
      ring
    · have hle := UInt64.le_iff_toNat_le.mp (UInt64.not_lt.mp hlt)
      rw [abs_of_nonneg (by omega)] at hdev
      rw [hm, Nat.cast_mul, hdev]
  rw [hexact]
  -- the change saturates at the largest word when the product overflows, and each
  -- direction falls back to the bound it would have passed
  cases hmul : mul64 step dev with
  | ok change =>
    have hchange := toNat_of_mul64_eq_ok hmul
    by_cases hlt : feeConfig.targetBlockRate < timeElapsed
    · cases hsub : sub parentCost change with
      | ok cost =>
        have := toNat_of_sub_eq_ok hsub
        simp only [hlt, ↓reduceIte]
        omega
      | error _ =>
        have := lt_of_sub_eq_error hsub
        simp only [hlt, ↓reduceIte]
        omega
    · cases hadd : add64 parentCost change with
      | ok cost =>
        have := toNat_of_add64_eq_ok hadd
        simp only [hlt, ↓reduceIte]
        omega
      | error _ =>
        have := le_of_add64_eq_error hadd
        simp only [hlt, ↓reduceIte]
        omega
  | error _ =>
    have hover := le_of_mul64_eq_error hmul
    have hmax64 := toNat_maxUint64
    by_cases hlt : feeConfig.targetBlockRate < timeElapsed
    · cases hsub : sub parentCost FeeWindow.maxUint64 with
      | ok cost =>
        have := toNat_of_sub_eq_ok hsub
        simp only [hlt, ↓reduceIte]
        omega
      | error _ =>
        simp only [hlt, ↓reduceIte]
        omega
    · cases hadd : add64 parentCost FeeWindow.maxUint64 with
      | ok cost =>
        have := toNat_of_add64_eq_ok hadd
        simp only [hlt, ↓reduceIte]
        omega
      | error _ =>
        simp only [hlt, ↓reduceIte]
        omega

theorem toNat_timeElapsed (parentTime timestamp : UInt64) :
    (if parentTime ≤ timestamp then timestamp - parentTime else 0).toNat =
      timestamp.toNat - parentTime.toNat := by
  split_ifs with h
  · exact UInt64.toNat_sub_of_le _ _ h
  · have := UInt64.lt_iff_toNat_lt.mp (UInt64.not_le.mp h)
    simp only [UInt64.toNat_zero]
    omega

/-- **After EVM activation the header's block gas cost is the exact clamped cost**,
for every verified fee config whose step fits a word and every parent whose cost
is within the maximum. -/
theorem blockGasCost_eq_exact (config : HeaderExtra.ChainConfig) (feeConfig : FeeConfig)
    (parent : Header) (timestamp : UInt64) (hv : feeConfig.verify = .ok ())
    (hevm : config.isEVM timestamp = true) {lo hi step : ℤ}
    (hlo : feeConfig.minBlockGasCost = some lo) (hhi : feeConfig.maxBlockGasCost = some hi)
    (hstep : feeConfig.blockGasCostStep = some step) (hstep64 : step < 2^64)
    (hparent : ∀ p ∈ parent.blockGasCost, p ≤ hi) :
    ∃ cost, blockGasCost config feeConfig parent timestamp = .ok (some cost) ∧
      (cost : ℤ) = exactBlockGasCost lo hi step feeConfig.targetBlockRate.toNat
        (timestamp.toNat - parent.time.toNat) parent.blockGasCost := by
  have hr := FeeConfig.inRange_of_verify hv
  have hbounds := hr.blockGasCost lo hlo hi hhi
  obtain ⟨stepW, hstepW, hs⟩ := toNat_uint64Of hstep (hr.blockGasCostStep step hstep).1 hstep64
  simp only [blockGasCost, hevm, Bool.not_true, Bool.false_eq_true, ↓reduceIte, hstepW, ok_bind]
  cases hp : parent.blockGasCost with
  | none =>
    obtain ⟨minW, hminW, hmin⟩ := toNat_uint64Of hlo hbounds.1 (by omega)
    simp only [blockGasCostWithStep, hminW, ok_bind, pure_eq_ok, Except.ok.injEq, Option.some.injEq,
      exists_eq_left', exactBlockGasCost]
    exact hmin
  | some p =>
    have hp64 : (p : ℤ) < 2^64 := by
      have := hparent p hp
      omega
    obtain ⟨cost, hcost, hval⟩ := toNat_blockGasCost hlo hhi hbounds (lowUint64 p) stepW
      (if parent.time ≤ timestamp then timestamp - parent.time else 0)
    simp only [blockGasCostWithStep, hcost, ok_bind, pure_eq_ok, Except.ok.injEq,
      Option.some.injEq, exists_eq_left', exactBlockGasCost]
    rw [hval, toNat_lowUint64_of_lt (Int.natCast_nonneg p) hp64, hs, toNat_timeElapsed]

/-! ## A step that does not fit a word -/

/-- A fee config that `Verify` accepts, with a block gas cost step of `2^64`. -/
def wideStepFeeConfig : FeeConfig :=
  ⟨some 8000000, 2, some 25000000000, some 15000000, some 36, some 0, some 1000000, some (2^64)⟩

def zeroCostParent : Header := ⟨⟨0, 1, 0, []⟩, some 1, some 0⟩

def evmFromGenesis : HeaderExtra.ChainConfig := ⟨some 0⟩

/-- With a step of `2^64`, a block two seconds early should cost the maximum, but
`Uint64()` reads the step as 0 and the cost stays at the parent's. -/
theorem blockGasCost_truncates_step :
    wideStepFeeConfig.verify = .ok () ∧
      blockGasCost evmFromGenesis wideStepFeeConfig zeroCostParent 0 = .ok (some 0) ∧
      exactBlockGasCost 0 1000000 (2^64) 2 0 (some 0) = 1000000 := by
  refine ⟨by decide, by decide, ?_⟩
  rw [exactBlockGasCost, clamp_of_hi_le (by norm_num) (by norm_num)]

end LuxEvm.Fee

import LuxEvm.Header.BlockGasCost

/-!
# The base fee from the fee window

After EVM activation a block's base fee is its parent's, moved towards the target
gas: up when the window of recent gas holds more than `TargetGas`, down when it
holds less, by at least one and by the excess relative to the target over
`BaseFeeChangeDenominator`; a decrease is repeated for every full window of
seconds that passed without blocks. The result is kept between `MinBaseFee` and
`2^256 - 1`. The first EVM block, and a block on genesis, get `MinBaseFee`.

The code reads `TargetGas` with `Uint64()` and `MinBaseFee` with `Int64()`, which
keep 64 bits only, while `Verify` admits either below `2^256`. For every verified
config with a target below `2^64` and a minimum below `2^63` the code computes
the exact integer base fee (`baseFeeFromWindow_eq_exact`,
`baseFeeFromWindow_of_genesis`); a target of `2^64` is read as zero and the
first window with any gas in it divides by it (`baseFeeFromWindow_divides_by_zero`).
-/

set_option autoImplicit false

namespace LuxEvm.Fee

open CommonType Lib.MachineInt Lib.StateRel FeeWindow

inductive BaseFeeError where
  | window (e : HeaderExtra.ExtraError)
  | invalidTimestamp (timestamp parentTime : UInt64)
  | panic (p : Panic)
  deriving DecidableEq, Repr

def maxUint256 : ℤ := 2^256 - 1

/-- `selectBigWithinBounds`: the bound `value` passed, if any; a nil bound is no
bound. -/
def selectBigWithinBounds (lowerBound : Option ℤ) (value : ℤ) (upperBound : Option ℤ) : ℤ :=
  match lowerBound.filter (value < ·), upperBound.filter (· < value) with
  | some lowerBound, _ => lowerBound
  | none, some upperBound => upperBound
  | none, none => value

/-- `big.Int` division by a `*big.Int`, which panics on nil and on zero. -/
def bigDiv (x : ℤ) (y : Option ℤ) : Except BaseFeeError ℤ :=
  match y with
  | none => .error (.panic .nilPointer)
  | some y => if y = 0 then .error (.panic .divisionByZero) else .ok (x / y)

/-- `baseFeeFromWindow`. -/
def baseFeeFromWindow (config : HeaderExtra.ChainConfig) (feeConfig : FeeConfig) (parent : Header)
    (timestamp : UInt64) : Except BaseFeeError ℤ :=
  if !config.isEVM parent.time || parent.number == 0 then
    -- `big.NewInt(feeConfig.MinBaseFee.Int64())`
    match feeConfig.minBaseFee with
    | none => .error (.panic .nilPointer)
    | some minBaseFee => .ok (lowInt64 minBaseFee)
  else
    match HeaderExtra.feeWindow config parent.toHeader timestamp with
    | .error e => .error (.window e)
    | .ok dynamicFeeWindow => do
      let baseFee ← match parent.baseFee with
        | none => .error (.panic .nilPointer)
        | some baseFee => .ok (baseFee : ℤ)
      let parentGasTarget ← (uint64Of feeConfig.targetGas).mapError .panic
      let totalGas := dynamicFeeWindow.sum
      if totalGas = parentGasTarget then .ok baseFee
      else do
        let baseFee ←
          if parentGasTarget < totalGas then do
            -- more gas than the target: the base fee rises
            let num ← bigDiv ((totalGas - parentGasTarget).toNat * baseFee)
              (some parentGasTarget.toNat)
            let num ← bigDiv num feeConfig.baseFeeChangeDenominator
            let baseFeeDelta := max num 1
            .ok (baseFee + baseFeeDelta)
          else do
            -- less gas than the target: the base fee falls, once per window elapsed
            let num ← bigDiv ((parentGasTarget - totalGas).toNat * baseFee)
              (some parentGasTarget.toNat)
            let num ← bigDiv num feeConfig.baseFeeChangeDenominator
            let baseFeeDelta := max num 1
            if timestamp < parent.time then .error (.invalidTimestamp timestamp parent.time)
            else
              let timeElapsed := timestamp - parent.time
              let windowsElapsed := timeElapsed / UInt64.ofNat WindowLen
              let baseFeeDelta :=
                if 1 < windowsElapsed then baseFeeDelta * windowsElapsed.toNat else baseFeeDelta
              .ok (baseFee - baseFeeDelta)
        .ok (selectBigWithinBounds feeConfig.minBaseFee baseFee (some maxUint256))

/-! ## The exact base fee -/

/-- The base fee over unbounded integers, from the target `T`, the window sum `S`,
the parent's base fee and the windows elapsed. -/
def exactBaseFee (minBaseFee targetGas baseFeeChangeDenominator : ℤ) (windowSum baseFee : ℕ)
    (windowsElapsed : ℕ) : ℤ :=
  if (windowSum : ℤ) = targetGas then baseFee
  else if targetGas < windowSum then
    clamp minBaseFee maxUint256
      (baseFee + max 1 ((windowSum - targetGas) * baseFee / targetGas / baseFeeChangeDenominator))
  else
    clamp minBaseFee maxUint256
      (baseFee - max 1 ((targetGas - windowSum) * baseFee / targetGas / baseFeeChangeDenominator) *
        (if 1 < windowsElapsed then windowsElapsed else 1))

theorem selectBigWithinBounds_some (lo hi value : ℤ) :
    selectBigWithinBounds (some lo) value (some hi) = clamp lo hi value := by
  by_cases h1 : value < lo
  · simp [selectBigWithinBounds, clamp, h1, Option.filter]
  · by_cases h2 : hi < value
    · simp [selectBigWithinBounds, clamp, h1, h2, Option.filter]
    · simp [selectBigWithinBounds, clamp, h1, h2, Option.filter]

theorem bigDiv_eq_ok (x : ℤ) {y : Option ℤ} {d : ℤ} (hy : y = some d) (hd : d ≠ 0) :
    bigDiv x y = .ok (x / d) := by
  simp [bigDiv, hy, hd]

theorem toNat_windowsElapsed {parentTime timestamp : UInt64} (h : parentTime ≤ timestamp) :
    ((timestamp - parentTime) / UInt64.ofNat WindowLen).toNat =
      (timestamp.toNat - parentTime.toNat) / WindowLen := by
  rw [UInt64.toNat_div, UInt64.toNat_sub_of_le _ _ h]
  rfl

/-- **The first EVM block and a block on genesis get `MinBaseFee`**, when it is
below `2^63`. -/
theorem baseFeeFromWindow_of_genesis (config : HeaderExtra.ChainConfig) (feeConfig : FeeConfig)
    (parent : Header) (timestamp : UInt64)
    (hfirst : config.isEVM parent.time = false ∨ parent.number = 0) {minBaseFee : ℤ}
    (hmin : feeConfig.minBaseFee = some minBaseFee) (h0 : 0 ≤ minBaseFee) (h63 : minBaseFee < 2^63) :
    baseFeeFromWindow config feeConfig parent timestamp = .ok minBaseFee := by
  have hcond : (!config.isEVM parent.time || parent.number == 0) = true := by
    rcases hfirst with h | h <;> simp [h]
  simp only [baseFeeFromWindow, hcond, ↓reduceIte, hmin, lowInt64_of_lt h0 h63]

/-- **After EVM activation the base fee is the exact one**, for every verified
config with a target below `2^64`, every parent past genesis with a base fee, and
every timestamp at or after the parent's whose fee window exists. -/
theorem baseFeeFromWindow_eq_exact (config : HeaderExtra.ChainConfig) (feeConfig : FeeConfig)
    (parent : Header) (timestamp : UInt64) (hv : feeConfig.verify = .ok ())
    (hevm : config.isEVM parent.time = true) (hnum : parent.number ≠ 0) {baseFee : ℕ}
    (hbase : parent.baseFee = some baseFee) (htime : parent.time ≤ timestamp)
    {minBaseFee targetGas baseFeeChangeDenominator : ℤ} (hmin : feeConfig.minBaseFee = some minBaseFee)
    (htarget : feeConfig.targetGas = some targetGas) (h64 : targetGas < 2^64)
    (hden : feeConfig.baseFeeChangeDenominator = some baseFeeChangeDenominator)
    {w : Window} (hw : HeaderExtra.feeWindow config parent.toHeader timestamp = .ok w) :
    baseFeeFromWindow config feeConfig parent timestamp =
      .ok (exactBaseFee minBaseFee targetGas baseFeeChangeDenominator w.sum.toNat baseFee
        ((timestamp.toNat - parent.time.toNat) / WindowLen)) := by
  have hr := FeeConfig.inRange_of_verify hv
  have hT := hr.targetGas targetGas htarget
  have hD := hr.baseFeeChangeDenominator baseFeeChangeDenominator hden
  obtain ⟨target, htargetW, hTW⟩ := toNat_uint64Of htarget hT.1.le h64
  subst hTW
  have hcond : (!config.isEVM parent.time || parent.number == 0) = false := by simp [hevm, hnum]
  rw [baseFeeFromWindow, if_neg (by simp [hcond]), hw]
  simp only [hbase, htargetW, mapError_ok, ok_bind]
  have hTne : (target.toNat : ℤ) ≠ 0 := by omega
  have hDne : baseFeeChangeDenominator ≠ 0 := by omega
  unfold exactBaseFee
  by_cases heq : w.sum = target
  · simp only [heq, ↓reduceIte]
  have hne : (w.sum.toNat : ℤ) ≠ target.toNat := fun h => heq (UInt64.toNat_inj.mp (by exact_mod_cast h))
  by_cases hlt : target < w.sum
  · -- the base fee rises by the excess
    have hlt' : (target.toNat : ℤ) < w.sum.toNat := by exact_mod_cast UInt64.lt_iff_toNat_lt.mp hlt
    have hsub : ((w.sum - target).toNat : ℤ) = w.sum.toNat - target.toNat := by
      rw [UInt64.toNat_sub_of_le _ _ (UInt64.le_of_lt hlt),
        Nat.cast_sub (UInt64.le_iff_toNat_le.mp (UInt64.le_of_lt hlt))]
    simp only [heq, hlt, ↓reduceIte, hne, hlt', bigDiv_eq_ok _ rfl hTne, bigDiv_eq_ok _ hden hDne,
      ok_bind, hsub, hmin, selectBigWithinBounds_some, max_comm]
  · -- the base fee falls by the shortfall, once per window elapsed
    have hle : (w.sum.toNat : ℤ) < target.toNat := by
      have h1 := UInt64.le_iff_toNat_le.mp (UInt64.not_lt.mp hlt)
      have h2 : w.sum.toNat ≠ target.toNat := fun h => heq (UInt64.toNat_inj.mp h)
      omega
    have hsub : ((target - w.sum).toNat : ℤ) = target.toNat - w.sum.toNat := by
      rw [UInt64.toNat_sub_of_le _ _ (UInt64.not_lt.mp hlt),
        Nat.cast_sub (UInt64.le_iff_toNat_le.mp (UInt64.not_lt.mp hlt))]
    have hwin := toNat_windowsElapsed htime
    have hwin' : (1 < (timestamp - parent.time) / UInt64.ofNat WindowLen) ↔
        1 < (timestamp.toNat - parent.time.toNat) / WindowLen := by
      rw [UInt64.lt_iff_toNat_lt, hwin]
      rfl
    simp only [heq, hlt, ↓reduceIte, hne, not_lt.mpr hle.le, bigDiv_eq_ok _ rfl hTne,
      bigDiv_eq_ok _ hden hDne, ok_bind, hsub, UInt64.not_lt.mpr htime, hmin,
      selectBigWithinBounds_some, max_comm, hwin', hwin]
    split_ifs <;> simp

/-! ## Reads that keep 64 bits -/

/-- A config that `Verify` accepts, with a target gas of `2^64`. -/
def wideTargetFeeConfig : FeeConfig :=
  ⟨some 8000000, 2, some 25000000000, some (2^64), some 36, some 0, some 1000000, some 200000⟩

/-- A config that `Verify` accepts, with a minimum base fee of `2^63`. -/
def wideMinimumFeeConfig : FeeConfig :=
  ⟨some 8000000, 2, some (2^63), some 15000000, some 36, some 0, some 1000000, some 200000⟩

/-- The first block after genesis: gas used 1, an empty window, base fee `25 gwei`. -/
def firstParent : Header := ⟨⟨0, 1, 1, List.replicate WindowSize 0⟩, some 25000000000, some 0⟩

def genesisParent : Header := ⟨⟨0, 0, 0, []⟩, some 25000000000, none⟩

/-- A target of `2^64` reads as zero: the window holding the parent's one unit of
gas is above it, and the increase divides by it, where the exact base fee stays at
the minimum. A minimum base fee of `2^63` reads as `-2^63`, and that is the base
fee after genesis. -/
theorem baseFeeFromWindow_divides_by_zero :
    wideTargetFeeConfig.verify = .ok () ∧
      baseFeeFromWindow evmFromGenesis wideTargetFeeConfig firstParent 0 =
        .error (.panic .divisionByZero) ∧
      exactBaseFee 25000000000 (2^64) 36 1 25000000000 0 = 25000000000 ∧
      wideMinimumFeeConfig.verify = .ok () ∧
      baseFeeFromWindow evmFromGenesis wideMinimumFeeConfig genesisParent 0 = .ok (-2^63) := by
  refine ⟨by decide, by decide, by decide, by decide, by decide⟩

end LuxEvm.Fee

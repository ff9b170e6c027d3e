import Mathlib.Data.Int.Basic
import Mathlib.Algebra.Group.Nat.Defs
import Mathlib.Algebra.Group.Int.Defs
import LuxEvm.Lib.StateRel

/-!
# Fee configuration

`commontype.FeeConfig` holds the parameters of the dynamic fee algorithm.
Its big-integer fields are pointers and may be missing; `Verify` first
requires every pointer, then checks signs and the order of the block gas
cost bounds, then that every value fits a 32-byte word.
-/

set_option autoImplicit false

namespace LuxEvm.CommonType

/-- `commontype.FeeConfig`; a missing `*big.Int` is `none`. -/
structure FeeConfig where
  gasLimit : Option ℤ
  targetBlockRate : UInt64
  minBaseFee : Option ℤ
  targetGas : Option ℤ
  baseFeeChangeDenominator : Option ℤ
  minBlockGasCost : Option ℤ
  maxBlockGasCost : Option ℤ
  blockGasCostStep : Option ℤ
  deriving DecidableEq, Repr

inductive FeeConfigField where
  | gasLimit
  | targetBlockRate
  | minBaseFee
  | targetGas
  | baseFeeChangeDenominator
  | minBlockGasCost
  | maxBlockGasCost
  | blockGasCostStep
  deriving DecidableEq, Repr

inductive FeeConfigError where
  | isNil (field : FeeConfigField)
  | notPositive (field : FeeConfigField) (value : ℤ)
  | negative (field : FeeConfigField) (value : ℤ)
  | minAboveMax (minBlockGasCost maxBlockGasCost : ℤ)
  | notUint64 (maxBlockGasCost : ℤ)
  | exceedsHashLength (field : FeeConfigField)
  deriving DecidableEq, Repr

def HashLength : ℕ := 32

/-- `isBiggerThanHashLen`: the magnitude needs more than 32 bytes. -/
def isBiggerThanHashLen (x : ℤ) : Bool := 2^(8*HashLength) ≤ x.natAbs

theorem natAbs_lt_of_not_isBiggerThanHashLen {x : ℤ} (h : ¬isBiggerThanHashLen x = true) :
    x.natAbs < 2^256 :=
  Nat.lt_of_not_le fun hle => h (decide_eq_true hle)

/-- `utils.BigNumEqual`: both missing, or both present and equal. -/
def bigNumEqual (x y : Option ℤ) : Bool :=
  match x, y with
  | some x, some y => x == y
  | x, y => x.isNone && y.isNone

theorem bigNumEqual_iff (x y : Option ℤ) : bigNumEqual x y = true ↔ x = y := by
  cases x <;> cases y <;> simp [bigNumEqual]

def required (x : Option ℤ) (field : FeeConfigField) : Except FeeConfigError ℤ :=
  match x with
  | none => .error (.isNil field)
  | some v => .ok v

theorem required_eq_ok {x : Option ℤ} {field : FeeConfigField} {v : ℤ} :
    required x field = .ok v ↔ x = some v := by
  cases x <;> simp [required]

namespace FeeConfig

def checkByteLens (f : FeeConfig) (gasLimit minBaseFee targetGas baseFeeChangeDenominator
    minBlockGasCost maxBlockGasCost blockGasCostStep : ℤ) : Except FeeConfigError Unit :=
  if isBiggerThanHashLen gasLimit then .error (.exceedsHashLength .gasLimit)
  else if isBiggerThanHashLen f.targetBlockRate.toNat then
    .error (.exceedsHashLength .targetBlockRate)
  else if isBiggerThanHashLen minBaseFee then .error (.exceedsHashLength .minBaseFee)
  else if isBiggerThanHashLen targetGas then .error (.exceedsHashLength .targetGas)
  else if isBiggerThanHashLen baseFeeChangeDenominator then
    .error (.exceedsHashLength .baseFeeChangeDenominator)
  else if isBiggerThanHashLen minBlockGasCost then .error (.exceedsHashLength .minBlockGasCost)
  else if isBiggerThanHashLen maxBlockGasCost then .error (.exceedsHashLength .maxBlockGasCost)
  else if isBiggerThanHashLen blockGasCostStep then .error (.exceedsHashLength .blockGasCostStep)
  else .ok ()

def verify (f : FeeConfig) : Except FeeConfigError Unit := do
  let gasLimit ← required f.gasLimit .gasLimit
  let minBaseFee ← required f.minBaseFee .minBaseFee
  let targetGas ← required f.targetGas .targetGas
  let baseFeeChangeDenominator ← required f.baseFeeChangeDenominator .baseFeeChangeDenominator
  let minBlockGasCost ← required f.minBlockGasCost .minBlockGasCost
  let maxBlockGasCost ← required f.maxBlockGasCost .maxBlockGasCost
  let blockGasCostStep ← required f.blockGasCostStep .blockGasCostStep
  if gasLimit ≤ 0 then throw (.notPositive .gasLimit gasLimit)
  if f.targetBlockRate = 0 then throw (.notPositive .targetBlockRate 0)
  if minBaseFee < 0 then throw (.negative .minBaseFee minBaseFee)
  if targetGas ≤ 0 then throw (.notPositive .targetGas targetGas)
  if baseFeeChangeDenominator ≤ 0 then
    throw (.notPositive .baseFeeChangeDenominator baseFeeChangeDenominator)
  if minBlockGasCost < 0 then throw (.negative .minBlockGasCost minBlockGasCost)
  if maxBlockGasCost < minBlockGasCost then
    throw (.minAboveMax minBlockGasCost maxBlockGasCost)
  if blockGasCostStep < 0 then throw (.negative .blockGasCostStep blockGasCostStep)
  if maxBlockGasCost < 0 ∨ 2^64 ≤ maxBlockGasCost then throw (.notUint64 maxBlockGasCost)
  f.checkByteLens gasLimit minBaseFee targetGas baseFeeChangeDenominator minBlockGasCost
    maxBlockGasCost blockGasCostStep

/-- `FeeConfig.Equal`, against a present config. -/
def equal (f other : FeeConfig) : Bool :=
  bigNumEqual f.gasLimit other.gasLimit && f.targetBlockRate == other.targetBlockRate &&
    bigNumEqual f.minBaseFee other.minBaseFee && bigNumEqual f.targetGas other.targetGas &&
    bigNumEqual f.baseFeeChangeDenominator other.baseFeeChangeDenominator &&
    bigNumEqual f.minBlockGasCost other.minBlockGasCost &&
    bigNumEqual f.maxBlockGasCost other.maxBlockGasCost &&
    bigNumEqual f.blockGasCostStep other.blockGasCostStep

theorem equal_iff (f other : FeeConfig) : f.equal other = true ↔ f = other := by
  cases f
  cases other
  simp [equal, bigNumEqual_iff, and_assoc]

/-- The ranges `Verify` establishes for the fields the fee code reads. -/
structure InRange (f : FeeConfig) : Prop where
  minBaseFee : ∀ x ∈ f.minBaseFee, 0 ≤ x ∧ x < 2^256
  targetGas : ∀ x ∈ f.targetGas, 0 < x ∧ x < 2^256
  baseFeeChangeDenominator : ∀ x ∈ f.baseFeeChangeDenominator, 0 < x
  blockGasCost : ∀ lo ∈ f.minBlockGasCost, ∀ hi ∈ f.maxBlockGasCost, 0 ≤ lo ∧ lo ≤ hi ∧ hi < 2^64
  blockGasCostStep : ∀ x ∈ f.blockGasCostStep, 0 ≤ x ∧ x < 2^256

theorem checkByteLens_eq_ok {f : FeeConfig} {gasLimit minBaseFee targetGas baseFeeChangeDenominator
    minBlockGasCost maxBlockGasCost blockGasCostStep : ℤ}
    (h : f.checkByteLens gasLimit minBaseFee targetGas baseFeeChangeDenominator minBlockGasCost
      maxBlockGasCost blockGasCostStep = .ok ()) :
    minBaseFee.natAbs < 2^256 ∧ targetGas.natAbs < 2^256 ∧ blockGasCostStep.natAbs < 2^256 := by
  unfold checkByteLens at h
  simp only [↓Lib.StateRel.ite_error_eq_ok] at h
  obtain ⟨-, -, h3, h4, -, -, -, h8, -⟩ := h
  exact ⟨natAbs_lt_of_not_isBiggerThanHashLen h3, natAbs_lt_of_not_isBiggerThanHashLen h4,
    natAbs_lt_of_not_isBiggerThanHashLen h8⟩

theorem inRange_of_verify {f : FeeConfig} (h : f.verify = .ok ()) : f.InRange := by
  simp only [verify, Lib.StateRel.bind_eq_ok, required_eq_ok] at h
  obtain ⟨gasLimit, -, minBaseFee, hb, targetGas, ht, d, hd, lo, hlo, hi, hhi, step, hs, h⟩ := h
  simp only [↓Lib.StateRel.ite_throw_bind_eq_ok] at h
  obtain ⟨-, -, h1, h2, h3, h4, h5, h6, h7, h⟩ := h
  obtain ⟨hb', ht', hs'⟩ := checkByteLens_eq_ok h
  refine ⟨?_, ?_, ?_, ?_, ?_⟩ <;>
    simp only [hb, ht, hd, hlo, hhi, hs, Option.mem_def, Option.some_inj] <;> rintro x rfl <;> omega

end FeeConfig

end LuxEvm.CommonType

import Mathlib.Order.Monotone.Basic
import Mathlib.Algebra.Order.Group.Unbundled.Int
import Mathlib.Algebra.Group.Nat.Defs

/-!
# Machine words and checked word arithmetic

Code that keeps amounts in unbounded integers reads them into 64-bit words by
keeping the low 64 bits: of the magnitude for an unsigned read, as two's
complement for a signed one. A value in range is read back exactly; one out of
range is not, and nothing reports it. Code that keeps amounts in words uses
checked operations that report an overflow or an underflow instead of
wrapping, or a carry flag or a division guard that report the same sums.

`clamp lo hi x` keeps `x` within `[lo, hi]`. It commutes with every strictly
monotone map, and a value on the far side of a bound may be replaced by any
other there: this is how a saturating computation can still land on the
clamped exact value.
-/

set_option autoImplicit false

namespace Lib.MachineInt

/-! ## Reading an integer into a word -/

def lowUint64 (x : ℤ) : UInt64 := UInt64.ofNat x.natAbs

def lowInt64 (x : ℤ) : ℤ := x.bmod (2^64)

@[simp] theorem toNat_lowUint64 (x : ℤ) : (lowUint64 x).toNat = x.natAbs % 2^64 := by
  simp [lowUint64, UInt64.toNat_ofNat']

theorem toNat_lowUint64_of_lt {x : ℤ} (h0 : 0 ≤ x) (h : x < 2^64) :
    ((lowUint64 x).toNat : ℤ) = x := by
  have hx : (x.natAbs : ℤ) = x := Int.natAbs_of_nonneg h0
  rw [toNat_lowUint64, Nat.mod_eq_of_lt (by omega), hx]

theorem lowInt64_of_lt {x : ℤ} (h0 : 0 ≤ x) (h : x < 2^63) : lowInt64 x = x := by
  rw [lowInt64, Int.bmod_def]
  omega

/-! ## Checked word arithmetic -/

inductive ArithError where
  | overflow
  | underflow
  deriving DecidableEq, Repr

/-- `Mul64`: the product, unless it does not fit a word. -/
def mul64 (a b : UInt64) : Except ArithError UInt64 :=
  if a.toNat * b.toNat < 2^64 then .ok (a * b) else .error .overflow

/-- `Add64`: the sum, unless it does not fit a word. -/
def add64 (a b : UInt64) : Except ArithError UInt64 :=
  if a.toNat + b.toNat < 2^64 then .ok (a + b) else .error .overflow

/-- `Sub`: the difference, unless it is negative. -/
def sub (a b : UInt64) : Except ArithError UInt64 :=
  if b ≤ a then .ok (a - b) else .error .underflow

/-- `AbsDiff`: the larger minus the smaller. -/
def absDiff (a b : UInt64) : UInt64 := if a ≤ b then b - a else a - b

section Checked

variable {a b c : UInt64} {e : ArithError}

theorem toNat_of_mul64_eq_ok (h : mul64 a b = .ok c) : c.toNat = a.toNat * b.toNat := by
  unfold mul64 at h
  split at h
  · cases h
    rw [UInt64.toNat_mul, Nat.mod_eq_of_lt ‹_›]
  · cases h

theorem le_of_mul64_eq_error (h : mul64 a b = .error e) : 2^64 ≤ a.toNat * b.toNat := by
  unfold mul64 at h
  split at h
  · cases h
  · omega

theorem toNat_of_add64_eq_ok (h : add64 a b = .ok c) : c.toNat = a.toNat + b.toNat := by
  unfold add64 at h
  split at h
  · cases h
    rw [UInt64.toNat_add, Nat.mod_eq_of_lt ‹_›]
  · cases h

theorem le_of_add64_eq_error (h : add64 a b = .error e) : 2^64 ≤ a.toNat + b.toNat := by
  unfold add64 at h
  split at h
  · cases h
  · omega

theorem toNat_of_sub_eq_ok (h : sub a b = .ok c) :
    b.toNat ≤ a.toNat ∧ c.toNat = a.toNat - b.toNat := by
  unfold sub at h
  split at h
  · cases h
    exact ⟨UInt64.le_iff_toNat_le.mp ‹_›, UInt64.toNat_sub_of_le _ _ ‹_›⟩
  · cases h

theorem lt_of_sub_eq_error (h : sub a b = .error e) : a.toNat < b.toNat := by
  unfold sub at h
  split at h
  · cases h
  · exact UInt64.lt_iff_toNat_lt.mp (UInt64.not_le.mp ‹_›)

theorem toNat_absDiff (a b : UInt64) :
    ((absDiff a b).toNat : ℤ) = |(a.toNat : ℤ) - b.toNat| := by
  unfold absDiff
  split
  · have hle := UInt64.le_iff_toNat_le.mp ‹_›
    rw [UInt64.toNat_sub_of_le _ _ ‹_›, abs_of_nonpos (by omega)]
    omega
  · have hlt := UInt64.lt_iff_toNat_lt.mp (UInt64.not_le.mp ‹_›)
    rw [UInt64.toNat_sub_of_le _ _ (UInt64.le_of_lt (UInt64.not_le.mp ‹_›)),
      abs_of_nonneg (by omega)]
    omega

end Checked

/-! ## Word arithmetic that reports a carry

Go code adds words with `cmath.SafeAdd`, which returns the wrapped sum and a
carry flag, or guards `gas += n * c` with the division `(MaxUint64 - gas) / c
< n`. Both report exactly the sums that do not fit a word (`safeAdd_snd_eq_false`,
`div_sub_lt_iff`), and otherwise the word holds the exact sum. -/

/-- `math.MaxUint64`. -/
def MaxUint64 : UInt64 := 18446744073709551615

@[simp] theorem toNat_MaxUint64 : MaxUint64.toNat = 2^64 - 1 := rfl

/-- `cmath.SafeAdd`: the sum modulo `2^64`, and whether it carried. -/
def safeAdd (x y : UInt64) : UInt64 × Bool := (x + y, decide (2^64 ≤ x.toNat + y.toNat))

section Carry

variable {x y gas c n : UInt64}

theorem safeAdd_snd_eq_false : (safeAdd x y).2 = false ↔ x.toNat + y.toNat < 2^64 := by
  simp [safeAdd]

theorem toNat_add_of_lt (h : x.toNat + y.toNat < 2^64) : (x + y).toNat = x.toNat + y.toNat := by
  rw [UInt64.toNat_add, Nat.mod_eq_of_lt h]

theorem toNat_safeAdd_fst (h : x.toNat + y.toNat < 2^64) :
    (safeAdd x y).1.toNat = x.toNat + y.toNat :=
  toNat_add_of_lt h

/-- The guard `(MaxUint64 - gas) / c < n` of `gas += n * c` fails exactly when
the sum does not fit a word. -/
theorem div_sub_lt_iff (hc : 0 < c.toNat) :
    (MaxUint64 - gas) / c < n ↔ 2^64 ≤ gas.toNat + n.toNat * c.toNat := by
  have hgas : gas.toNat < 2^64 := UInt64.toNat_lt gas
  have hsub : (MaxUint64 - gas).toNat = 2^64 - 1 - gas.toNat := by
    rw [UInt64.toNat_sub_of_le _ _ (UInt64.le_iff_toNat_le.mpr (by simp; omega)), toNat_MaxUint64]
  rw [UInt64.lt_iff_toNat_lt, UInt64.toNat_div, hsub, Nat.div_lt_iff_lt_mul hc]
  omega

theorem toNat_add_mul_of_lt (h : gas.toNat + n.toNat * c.toNat < 2^64) :
    (gas + n * c).toNat = gas.toNat + n.toNat * c.toNat := by
  have hmul : n.toNat * c.toNat < 2^64 := by omega
  rw [UInt64.toNat_add, UInt64.toNat_mul, Nat.mod_eq_of_lt hmul, Nat.mod_eq_of_lt h]

end Carry

/-! ## Clamping -/

section Clamp

variable {α β : Type} [LinearOrder α] [LinearOrder β]

/-- `x` if it is within `[lo, hi]`, else the bound it passed. -/
def clamp (lo hi x : α) : α := if x < lo then lo else if hi < x then hi else x

variable {lo hi x : α}

theorem clamp_of_le_lo (hlh : lo ≤ hi) (h : x ≤ lo) : clamp lo hi x = lo := by
  unfold clamp
  split_ifs with h1 h2
  · rfl
  · exact absurd (lt_of_le_of_lt hlh h2) (not_lt.mpr h)
  · exact le_antisymm h (not_lt.mp h1)

theorem clamp_of_hi_le (hlh : lo ≤ hi) (h : hi ≤ x) : clamp lo hi x = hi := by
  unfold clamp
  split_ifs with h1 h2
  · exact absurd (lt_of_le_of_lt (hlh.trans h) h1) (lt_irrefl _)
  · rfl
  · exact le_antisymm (not_lt.mp h2) h

theorem clamp_le_hi (hlh : lo ≤ hi) (x : α) : clamp lo hi x ≤ hi := by
  unfold clamp
  split_ifs with h1 h2
  · exact hlh
  · exact le_rfl
  · exact not_lt.mp h2

theorem clamp_eq_clamp {y : α} (hlh : lo ≤ hi)
    (h : x = y ∨ (x ≤ lo ∧ y ≤ lo) ∨ (hi ≤ x ∧ hi ≤ y)) : clamp lo hi x = clamp lo hi y := by
  rcases h with rfl | ⟨hx, hy⟩ | ⟨hx, hy⟩
  · rfl
  · rw [clamp_of_le_lo hlh hx, clamp_of_le_lo hlh hy]
  · rw [clamp_of_hi_le hlh hx, clamp_of_hi_le hlh hy]

theorem map_clamp {f : α → β} (hf : StrictMono f) (lo hi x : α) :
    f (clamp lo hi x) = clamp (f lo) (f hi) (f x) := by
  simp only [clamp, hf.lt_iff_lt]
  split_ifs <;> rfl

theorem toNat_clamp64 (lo hi x : UInt64) :
    (if x < lo then lo else if hi < x then hi else x).toNat = clamp lo.toNat hi.toNat x.toNat := by
  simp only [clamp, UInt64.lt_iff_toNat_lt]
  split_ifs <;> rfl

end Clamp

end Lib.MachineInt

import LuxEvm.Lib.ByteString
import Mathlib.Logic.Function.Basic

/-!
# The dynamic fee window

`feewindow.Window` holds the gas consumed in each of the last `WindowLen`
seconds, oldest entry first. `Add` puts gas on the newest entry and
saturates at the largest `uint64`, `Shift` drops the oldest entries, and
the byte form is the big-endian concatenation of the entries, which
`ParseWindow` reads back from the front of any longer string.
-/

set_option autoImplicit false

namespace LuxEvm.FeeWindow
open Lib.ByteString

def WindowLen : ℕ := 10

def LongLen : ℕ := 8

def WindowSize : ℕ := LongLen*WindowLen

def maxUint64 : UInt64 := 18446744073709551615

/-- `binary.BigEndian.PutUint64`: the eight bytes of `v`, most significant first. -/
def putUint64 (v : UInt64) : List UInt8 := encode LongLen v.toNat

/-- `binary.BigEndian.Uint64`: the first eight bytes read most significant first. -/
def uint64 (b : List UInt8) : UInt64 := UInt64.ofNat (value (b.take LongLen))

@[simp] theorem length_putUint64 (v : UInt64) : (putUint64 v).length = LongLen := by
  simp [putUint64]

theorem uint64_putUint64_append (v : UInt64) (rest : List UInt8) :
    uint64 (putUint64 v ++ rest) = v := by
  rw [uint64, List.take_left' (length_putUint64 v), putUint64, value_encode,
    Nat.mod_eq_of_lt (by simpa [LongLen] using v.toNat_lt), UInt64.ofNat_toNat]

/-- `safemath.SafeAdd`: the wrapped sum and whether it overflowed. -/
def safeAdd (a b : UInt64) : UInt64 × Bool := (a+b, 2^64 ≤ a.toNat+b.toNat)

/-- `add`: the sum of the values onto `sum`, or `MaxUint64` on the first overflow. -/
def add (sum : UInt64) : List UInt64 → UInt64
  | [] => sum
  | v :: values =>
    let (next, overflow) := safeAdd sum v
    if overflow then maxUint64 else add next values

theorem toNat_add (sum : UInt64) (values : List UInt64) :
    (add sum values).toNat = min (sum.toNat+(values.map UInt64.toNat).sum) (2^64-1) := by
  induction values generalizing sum with
  | nil =>
    have := sum.toNat_lt
    simp [add]
    omega
  | cons v values ih =>
    have hs := sum.toNat_lt
    have hv := v.toNat_lt
    by_cases h : 2^64 ≤ sum.toNat+v.toNat
    · have hadd : add sum (v :: values) = maxUint64 := by
        simp only [add, safeAdd, h, decide_true, if_true]
      rw [hadd]
      simp [maxUint64]
      omega
    · have hadd : add sum (v :: values) = add (sum+v) values := by
        simp only [add, safeAdd, h, decide_false, Bool.false_eq_true, if_false]
      rw [hadd, ih, UInt64.toNat_add, Nat.mod_eq_of_lt (by omega)]
      simp
      omega

/-- `feewindow.Window`, a `[WindowLen]uint64` array. -/
@[ext] structure Window where
  entry : Fin WindowLen → UInt64

def lastIndex : Fin WindowLen := ⟨WindowLen-1, by decide⟩

namespace Window

def zero : Window := ⟨fun _ => 0⟩

def add (w : Window) (amounts : List UInt64) : Window :=
  ⟨Function.update w.entry lastIndex (FeeWindow.add (w.entry lastIndex) amounts)⟩

/-- `(*Window).Shift`: drop the oldest `n` entries and append `n` empty ones. -/
def shift (w : Window) (n : UInt64) : Window :=
  if WindowLen ≤ n.toNat then zero
  else ⟨fun i => if h : i.val+n.toNat < WindowLen then w.entry ⟨i.val+n.toNat, h⟩ else 0⟩

def sum (w : Window) : UInt64 := FeeWindow.add 0 (List.ofFn w.entry)

def bytes (w : Window) : List UInt8 := (List.ofFn w.entry).flatMap putUint64

@[simp] theorem length_bytes (w : Window) : w.bytes.length = WindowSize := by
  simp [bytes, List.length_flatMap, WindowSize, Function.comp_def, Nat.mul_comm]

theorem shift_entry (w : Window) (n : UInt64) (i : Fin WindowLen) :
    (w.shift n).entry i =
      if h : i.val+n.toNat < WindowLen then w.entry ⟨i.val+n.toNat, h⟩ else 0 := by
  unfold shift
  by_cases hn : WindowLen ≤ n.toNat
  · have hi : ¬i.val+n.toNat < WindowLen := by omega
    simp [hn, hi, zero]
  · simp [hn]

end Window

inductive WindowError where
  | insufficientLength (expected got : ℕ)
  deriving DecidableEq, Repr

/-- `ParseWindow`: the entries from the first `WindowSize` bytes. -/
def parseWindow (bytes : List UInt8) : Except WindowError Window :=
  if bytes.length < WindowSize then .error (.insufficientLength WindowSize bytes.length)
  else .ok ⟨fun i => uint64 (bytes.drop (i.val*LongLen))⟩

theorem drop_bytes_append (w : Window) (rest : List UInt8) (i : Fin WindowLen) :
    (w.bytes ++ rest).drop (i.val*LongLen) = putUint64 (w.entry i) ++
      ((List.ofFn w.entry).drop (i.val+1)).flatMap putUint64 ++ rest := by
  have hi : i.val < (List.ofFn w.entry).length := by simp
  have hb : i.val*LongLen ≤ w.bytes.length := by
    have := i.isLt
    rw [Window.length_bytes]
    simp only [WindowSize, LongLen, WindowLen] at *
    omega
  rw [List.drop_append_of_le_length hb,
    Window.bytes, Nat.mul_comm,
    flatMap_drop_mul putUint64 LongLen length_putUint64, List.drop_eq_getElem_cons hi,
    List.flatMap_cons, List.getElem_ofFn]

theorem parseWindow_bytes_append (w : Window) (rest : List UInt8) :
    parseWindow (w.bytes ++ rest) = .ok w := by
  have hl : ¬(w.bytes ++ rest).length < WindowSize := by simp
  rw [parseWindow, if_neg hl]
  congr 1
  ext i : 2
  dsimp only
  rw [drop_bytes_append, List.append_assoc, uint64_putUint64_append]

end LuxEvm.FeeWindow

import Mathlib.Data.List.Basic

/-!
# Writing and reading a buffer at offsets

An encoder that sizes its output first makes a zeroed buffer and copies each
field in at a running offset; a decoder slices fields out at a running offset.
While the offset is the length of what has been written, the buffer is what has
been written followed by the zeros not yet written over
(`writeAt_append_replicate`). A slice at a field's offset and width gives the
field back (`slice_append`).
-/

set_option autoImplicit false

namespace Lib.ByteBuffer

variable {α : Type}

/-- `copy(out[off:off+len(data)], data)`: `data` written over `out` from `off`. -/
def writeAt (out : List α) (off : ℕ) (data : List α) : List α :=
  out.take off ++ data ++ out.drop (off + data.length)

/-- `b[lo:hi]`. -/
def slice (b : List α) (lo hi : ℕ) : List α := (b.drop lo).take (hi - lo)

/-- Writing a field into the zeros after what has been written appends it. -/
theorem writeAt_append_replicate (written data : List α) (z : α) (k : ℕ) :
    writeAt (written ++ List.replicate k z) written.length data =
      written ++ data ++ List.replicate (k - data.length) z := by
  unfold writeAt
  rw [List.take_left, List.drop_append, List.drop_eq_nil_of_le (by omega), List.nil_append,
    Nat.add_sub_cancel_left, List.drop_replicate]

/-- `b[lo:hi]` as Go runs it: the slice, or `none` for the run-time panic
unless `lo ≤ hi ≤ len(b)`. -/
def sliceChecked (b : List α) (lo hi : ℕ) : Option (List α) :=
  if lo ≤ hi ∧ hi ≤ b.length then some (slice b lo hi) else none

theorem sliceChecked_of_le {b : List α} {lo hi : ℕ} (hlo : lo ≤ hi) (hhi : hi ≤ b.length) :
    sliceChecked b lo hi = some (slice b lo hi) :=
  if_pos ⟨hlo, hhi⟩

theorem length_slice {b : List α} {lo hi : ℕ} (hhi : hi ≤ b.length) :
    (slice b lo hi).length = hi - lo := by
  rw [slice, List.length_take, List.length_drop]
  omega

theorem slice_take (b : List α) {n lo hi : ℕ} (hhi : hi ≤ n) : slice (b.take n) lo hi = slice b lo hi := by
  unfold slice
  rw [List.drop_take, List.take_take, Nat.min_eq_left (by omega)]

theorem take_eq_of_take_eq {b c : List α} {m n : ℕ} (h : c.take n = b.take n) (hmn : m ≤ n) :
    c.take m = b.take m := by
  have := congrArg (List.take m) h
  rwa [List.take_take, List.take_take, Nat.min_eq_left hmn] at this

theorem slice_eq_drop (b : List α) (lo : ℕ) : slice b lo b.length = b.drop lo := by
  rw [slice, List.take_of_length_le (Nat.le_of_eq List.length_drop)]

theorem slice_eq_of_take_eq {b c : List α} {n lo hi : ℕ} (h : c.take n = b.take n) (hhi : hi ≤ n) :
    slice c lo hi = slice b lo hi := by
  rw [← slice_take c hhi, h, slice_take b hhi]

theorem slice_append (pre mid post : List α) :
    slice (pre ++ mid ++ post) pre.length (pre.length + mid.length) = mid := by
  unfold slice
  rw [List.append_assoc, List.drop_left' rfl, Nat.add_sub_cancel_left, List.take_left]

theorem length_le_length_flatMap_of_mem {β : Type} (f : β → List α) {l : List β} {x : β}
    (hx : x ∈ l) : (f x).length ≤ (l.flatMap f).length := by
  induction l with
  | nil => cases hx
  | cons y l ih =>
    rw [List.flatMap_cons, List.length_append]
    rcases List.mem_cons.mp hx with rfl | hx
    · omega
    · have := ih hx
      omega

theorem length_le_length_flatMap {β : Type} (f : β → List α) (l : List β)
    (hf : ∀ x ∈ l, 1 ≤ (f x).length) : l.length ≤ (l.flatMap f).length := by
  induction l with
  | nil => simp
  | cons y l ih =>
    rw [List.flatMap_cons, List.length_append, List.length_cons]
    have h₁ := hf y List.mem_cons_self
    have h₂ := ih fun x hx => hf x (List.mem_cons_of_mem y hx)
    omega

end Lib.ByteBuffer

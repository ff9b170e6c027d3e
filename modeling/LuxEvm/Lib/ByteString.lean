import Mathlib.Data.Nat.Digits.Lemmas

/-!
# Big-endian byte strings

A byte string read most significant byte first denotes an unsigned integer.
Fixed-width encoding is the inverse of that reading, lexicographic
comparison of two strings of one length is comparison of their values, and
adding one with carry from the last byte is addition modulo the width.
-/

set_option autoImplicit false

namespace Lib.ByteString

def value (bs : List UInt8) : ℕ := Nat.ofDigits 256 (bs.reverse.map UInt8.toNat)

@[simp] theorem value_nil : value [] = 0 := rfl

theorem value_append_singleton (bs : List UInt8) (b : UInt8) :
    value (bs ++ [b]) = b.toNat+256*value bs := by
  simp [value, Nat.ofDigits_cons]

theorem value_cons (b : UInt8) (bs : List UInt8) :
    value (b :: bs) = value bs+256^bs.length*b.toNat := by
  simp [value, Nat.ofDigits_append, Nat.ofDigits_singleton]

theorem value_lt (bs : List UInt8) : value bs < 256^bs.length := by
  have h := @Nat.ofDigits_lt_base_pow_length 256 (bs.reverse.map UInt8.toNat)
    (by decide) (by
      intro x hx
      obtain ⟨b, -, rfl⟩ := List.mem_map.mp hx
      exact b.toNat_lt)
  simpa [value] using h

theorem value_append (as bs : List UInt8) :
    value (as ++ bs) = value as*256^bs.length+value bs := by
  induction bs using List.reverseRecOn with
  | nil => simp
  | append_singleton bs b ih =>
    rw [← List.append_assoc, value_append_singleton, ih, value_append_singleton,
      List.length_append, List.length_singleton, pow_succ]
    ring

theorem value_replicate_max (m : ℕ) : value (List.replicate m 255) = 256^m-1 := by
  induction m with
  | zero => rfl
  | succ m ih =>
    have hpos : 1 ≤ 256^m := Nat.one_le_pow _ _ (by norm_num)
    rw [List.replicate_succ, value_cons, ih, List.length_replicate, pow_succ]
    have h255 : (255 : UInt8).toNat = 255 := rfl
    rw [h255]
    omega

/-- `width` bytes holding `n` modulo `256 ^ width`, most significant first. -/
def encode : ℕ → ℕ → List UInt8
  | 0, _ => []
  | w+1, n => encode w (n/256) ++ [UInt8.ofNat n]

@[simp] theorem length_encode (w n : ℕ) : (encode w n).length = w := by
  induction w generalizing n with
  | zero => rfl
  | succ w ih => simp [encode, ih]

theorem value_encode (w n : ℕ) : value (encode w n) = n % 256^w := by
  induction w generalizing n with
  | zero => simp [encode, Nat.mod_one]
  | succ w ih =>
    have hb : (UInt8.ofNat n).toNat = n % 256 := by simp
    rw [encode, value_append_singleton, ih, hb, Nat.pow_succ, Nat.mul_comm (256^w) 256,
      Nat.mod_mul]

theorem encode_value (bs : List UInt8) : encode bs.length (value bs) = bs := by
  induction bs using List.reverseRecOn with
  | nil => rfl
  | append_singleton bs b ih =>
    have hb := b.toNat_lt
    rw [List.length_append, List.length_singleton, encode, value_append_singleton]
    have hd : (b.toNat+256*value bs)/256 = value bs := by omega
    rw [hd, ih]
    congr 2
    apply UInt8.toNat_inj.mp
    rw [UInt8.toNat_ofNat']
    omega

theorem ofNat_value_encode {n : ℕ} (w : ℕ) (x : BitVec n) (hw : n ≤ 8 * w) :
    BitVec.ofNat n (value (encode w x.toNat)) = x := by
  have hlt : x.toNat < 256^w :=
    calc x.toNat < 2^n := x.isLt
      _ ≤ 2^(8 * w) := Nat.pow_le_pow_right (by decide) hw
      _ = 256^w := by rw [Nat.pow_mul]
  rw [value_encode, Nat.mod_eq_of_lt hlt, BitVec.ofNat_toNat, BitVec.setWidth_eq]

theorem flatMap_drop_mul {α : Type*} (f : α → List UInt8) (k : ℕ)
    (hf : ∀ a, (f a).length = k) (l : List α) (i : ℕ) :
    (l.flatMap f).drop (k*i) = (l.drop i).flatMap f := by
  induction l generalizing i with
  | nil => simp
  | cons a l ih =>
    cases i with
    | zero => simp
    | succ i =>
      rw [List.flatMap_cons, Nat.mul_succ, Nat.add_comm, ← List.drop_drop,
        List.drop_left' (hf a), ih, List.drop_succ_cons]

def compare : List UInt8 → List UInt8 → Ordering
  | [], [] => .eq
  | [], _ :: _ => .lt
  | _ :: _, [] => .gt
  | a :: as, b :: bs => if a < b then .lt else if b < a then .gt else compare as bs

theorem compare_swap (as bs : List UInt8) : compare bs as = (compare as bs).swap := by
  induction as generalizing bs with
  | nil => cases bs <;> rfl
  | cons a as ih =>
    cases bs with
    | nil => rfl
    | cons b bs =>
      simp only [compare, ih bs]
      by_cases hab : a < b
      · have hba : ¬b < a := by
          rw [UInt8.lt_iff_toNat_lt] at hab ⊢
          omega
        simp [hab, hba]
      · by_cases hba : b < a <;> simp [hab, hba]

theorem compare_cons_ne_gt (a b : UInt8) (as bs : List UInt8) :
    compare (a :: as) (b :: bs) ≠ .gt ↔ a < b ∨ a = b ∧ compare as bs ≠ .gt := by
  simp only [compare]
  by_cases hab : a < b
  · simp [hab]
  · by_cases hba : b < a
    · have hne : a ≠ b := by rintro rfl; simp at hba
      simp [hab, hba, hne]
    · have heq : a = b := by
        apply UInt8.toNat_inj.mp
        rw [UInt8.lt_iff_toNat_lt] at hab hba
        omega
      simp [heq]

theorem compare_eq_eq_iff {as bs : List UInt8} : compare as bs = .eq ↔ as = bs := by
  induction as generalizing bs with
  | nil => cases bs <;> simp [compare]
  | cons a as ih =>
    cases bs with
    | nil => simp [compare]
    | cons b bs =>
      simp only [compare, List.cons.injEq]
      by_cases hab : a < b
      · have hne : a ≠ b := by rintro rfl; simp at hab
        simp [hab, hne]
      · by_cases hba : b < a
        · have hne : a ≠ b := by rintro rfl; simp at hba
          simp [hab, hba, hne]
        · have heq : a = b := by
            apply UInt8.toNat_inj.mp
            rw [UInt8.lt_iff_toNat_lt] at hab hba
            omega
          simp [heq, ih]

theorem eq_of_compare_ne_gt {as bs : List UInt8} (h₁ : compare as bs ≠ .gt)
    (h₂ : compare bs as ≠ .gt) : as = bs := by
  rw [compare_swap] at h₂
  apply compare_eq_eq_iff.mp
  cases h : compare as bs <;> simp_all

theorem compare_ne_gt_trans {as bs cs : List UInt8} (h₁ : compare as bs ≠ .gt)
    (h₂ : compare bs cs ≠ .gt) : compare as cs ≠ .gt := by
  induction as generalizing bs cs with
  | nil => cases cs <;> simp [compare]
  | cons a as ih =>
    cases bs with
    | nil => simp [compare] at h₁
    | cons b bs =>
      cases cs with
      | nil => simp [compare] at h₂
      | cons c cs =>
        rw [compare_cons_ne_gt] at h₁ h₂ ⊢
        rcases h₁ with hab | ⟨rfl, h₁⟩ <;> rcases h₂ with hbc | ⟨rfl, h₂⟩
        · left
          rw [UInt8.lt_iff_toNat_lt] at hab hbc ⊢
          omega
        · exact .inl hab
        · exact .inl hbc
        · exact .inr ⟨rfl, ih h₁ h₂⟩

theorem compare_ne_gt_total (as bs : List UInt8) : compare as bs ≠ .gt ∨ compare bs as ≠ .gt := by
  rw [compare_swap as bs]
  cases compare as bs <;> simp

theorem compare_cons_of_eq_length (a b : UInt8) (as bs : List UInt8)
    (hl : as.length = bs.length) :
    Ord.compare (value (a :: as)) (value (b :: bs)) =
      if a < b then .lt else if b < a then .gt else Ord.compare (value as) (value bs) := by
  have ha := value_lt as
  have hb := value_lt bs
  rw [value_cons, value_cons, ← hl]
  rw [← hl] at hb
  have hp : 0 < 256^as.length := by positivity
  split_ifs with hab hba
  · have h : a.toNat+1 ≤ b.toNat := UInt8.lt_iff_toNat_lt.mp hab
    have : value as+256^as.length*a.toNat < value bs+256^as.length*b.toNat := by
      nlinarith
    exact Nat.compare_eq_lt.mpr this
  · have h : b.toNat+1 ≤ a.toNat := UInt8.lt_iff_toNat_lt.mp hba
    have : value bs+256^as.length*b.toNat < value as+256^as.length*a.toNat := by
      nlinarith
    exact Nat.compare_eq_gt.mpr this
  · have hab' : a = b := by
      apply UInt8.toNat_inj.mp
      have := UInt8.lt_iff_toNat_lt.not.mp hab
      have := UInt8.lt_iff_toNat_lt.not.mp hba
      omega
    subst hab'
    rcases Nat.lt_trichotomy (value as) (value bs) with h | h | h
    · rw [Nat.compare_eq_lt.mpr h, Nat.compare_eq_lt.mpr (by omega)]
    · rw [h]
      simp
    · rw [Nat.compare_eq_gt.mpr h, Nat.compare_eq_gt.mpr (by omega)]

theorem compare_eq_of_length_eq {as bs : List UInt8} (hl : as.length = bs.length) :
    compare as bs = Ord.compare (value as) (value bs) := by
  induction as generalizing bs with
  | nil =>
    cases bs with
    | nil => rfl
    | cons b bs => simp at hl
  | cons a as ih =>
    cases bs with
    | nil => simp at hl
    | cons b bs =>
      have hl' : as.length = bs.length := by simpa using hl
      rw [compare, compare_cons_of_eq_length a b as bs hl', ih hl']

def incrOneRev : List UInt8 → List UInt8
  | [] => []
  | b :: bs => if b < 255 then (b+1) :: bs else 0 :: incrOneRev bs

/-- Add one with carry from the last byte; all `0xff` wraps to all zeros. -/
def incrOne (bs : List UInt8) : List UInt8 := (incrOneRev bs.reverse).reverse

theorem incrOne_append_singleton (bs : List UInt8) (b : UInt8) :
    incrOne (bs ++ [b]) = if b < 255 then bs ++ [b+1] else incrOne bs ++ [0] := by
  by_cases hb : b < 255 <;> simp [incrOne, incrOneRev, hb]

@[simp] theorem length_incrOne (bs : List UInt8) : (incrOne bs).length = bs.length := by
  induction bs using List.reverseRecOn with
  | nil => rfl
  | append_singleton bs b ih =>
    rw [incrOne_append_singleton]
    split_ifs <;> simp [ih]

end Lib.ByteString

import LuxEvm.Predicate.Results
import LuxEvm.FeeWindow
import LuxEvm.Lib.MachineInt
import LuxEvm.Lib.StateRel

/-!
# `ParseResults` stays inside its buffer, but not inside memory

`ParseResults` reads counts and lengths from its input and moves a `uint64`
offset by them, slicing the buffer at each field; Go panics on a slice past
the buffer's end. `parseResultsChecked` runs it as Go does, every offset a
`uint64` and every slice checked, a panic being `none`, and records the maps it
allocates.

On every buffer it does not panic, and returns and allocates what
`parseResultsRun` does (`parseResultsChecked_eq`): each slice comes after a
length check that covers it, and the offset, at most the buffer's length and so
below `2^20`, never wraps. A parse that succeeds stops at an offset within the
buffer, every buffer that begins with the bytes before it parses the same, and
every map it made could be filled from the bytes left (`parseResults_fits_of_ok`).
The size hints are read and allocated before they are checked, though: six
bytes make a map with room for `2^32 - 1` transactions
(`parseResults_allocates_beyond_input`).
-/

set_option autoImplicit false

namespace LuxEvm.Predicate

open Lib.ByteString (value value_lt)
open Lib.ByteBuffer (slice sliceChecked sliceChecked_of_le length_slice slice_eq_of_take_eq take_eq_of_take_eq
  slice_eq_drop)
open Lib.MachineInt (toNat_add_of_lt)
open Lib.StateRel (bind_eq_ok)

/-! ## The parser as Go runs it -/

/-- The parser as Go runs it: an error or a value, or a panic (`none`), with the
maps allocated so far. -/
abbrev GoParse := ExceptT ResultsError (StateT (List MapAllocation) Option)

/-- `b[lo:hi]` at `uint64` bounds. -/
def sliceAt (b : List UInt8) (lo hi : UInt64) : GoParse (List UInt8) :=
  ExceptT.lift (StateT.lift (sliceChecked b lo.toNat hi.toNat))

/-- `make(…, alloc.hint)`. -/
def makeMap (alloc : MapAllocation) : GoParse Unit :=
  ExceptT.lift (modify fun allocated => allocated ++ [alloc])

/-- The inner loop of `ParseResults`: `n` addresses from `off`. -/
def parseTxChecked (b : List UInt8) : ℕ → UInt64 → TxResults → GoParse (TxResults × UInt64)
  | 0, off, txRes => pure (txRes, off)
  | n + 1, off, txRes => do
    if b.length < (off + UInt64.ofNat addrLen + 4).toNat then throw .shortBuffer
    let addr : Address := BitVec.ofNat 160 (value (← sliceAt b off (off + UInt64.ofNat addrLen)))
    let off := off + UInt64.ofNat addrLen
    let bytesLen := value (← sliceAt b off (off + 4))
    let off := off + 4
    if b.length < (off + UInt64.ofNat bytesLen).toNat then throw .shortBuffer
    let val ← sliceAt b off (off + UInt64.ofNat bytesLen)
    parseTxChecked b n (off + UInt64.ofNat bytesLen) (txRes.insert addr val)

/-- The outer loop of `ParseResults`: `n` transactions from `off`. -/
def parseOuterChecked (b : List UInt8) : ℕ → UInt64 → Results → GoParse (Results × UInt64)
  | 0, off, res => pure (res, off)
  | n + 1, off, res => do
    if b.length < (off + UInt64.ofNat hashLen + 4).toNat then throw .shortBuffer
    let hash : Hash := BitVec.ofNat 256 (value (← sliceAt b off (off + UInt64.ofNat hashLen)))
    let off := off + UInt64.ofNat hashLen
    let innerN := value (← sliceAt b off (off + 4))
    let off := off + 4
    makeMap ⟨innerN, addrLen + 4, b.length - off.toNat⟩
    let tx ← parseTxChecked b innerN off ∅
    parseOuterChecked b n tx.2 (res.insert hash tx.1)

/-- `ParseResults`, with `uint64` offsets and checked slices. -/
def parseResultsChecked (b : List UInt8) : GoParse Results := do
  if b.length < 2 then throw .shortBuffer
  if maxResultsSize < b.length then throw .tooLarge
  let ver := value (← sliceAt b 0 2)
  if ver ≠ version then throw (.badVersion ver)
  if b.length < 6 then throw .shortBuffer
  let outerN := value (← sliceAt b 2 6)
  makeMap ⟨outerN, hashLen + 4, b.length - 6⟩
  (·.1) <$> parseOuterChecked b outerN 6 ∅

/-- `ParseResultsFromHeaderExtra`: no results when the extra holds no more
than the fee window. -/
def parseResultsFromHeaderExtra (extra : List UInt8) : GoParse (Option Results) := do
  if extra.length ≤ FeeWindow.WindowSize then return none
  let predicateBytes ← ExceptT.lift (StateT.lift (sliceChecked extra FeeWindow.WindowSize extra.length))
  some <$> parseResultsChecked predicateBytes

/-! ## Where a parse stops

A loop that succeeds moves its offset forward, past the fewest bytes its rounds
take, to at most the buffer's length, and reads nothing at or past the offset it
stops at. -/

theorem parseTx_le {b : List UInt8} {n off off' : ℕ} {txRes txRes' : TxResults}
    (h : parseTx b n off txRes = .ok (txRes', off')) :
    off + n * (addrLen + 4) ≤ off' ∧ (off ≤ b.length → off' ≤ b.length) := by
  induction n generalizing off txRes with
  | zero =>
    cases h
    exact ⟨by omega, id⟩
  | succ n ih =>
    simp only [parseTx] at h
    split_ifs at h with hg hg₂
    obtain ⟨hle, hlen⟩ := ih h
    exact ⟨by rw [Nat.succ_mul]; omega, fun _ => hlen (by omega)⟩

theorem parseOuter_le {b : List UInt8} {n off off' : ℕ} {res res' : Results}
    (h : (parseOuter b n off res).result = .ok (res', off')) :
    off + n * (hashLen + 4) ≤ off' ∧ (off ≤ b.length → off' ≤ b.length) ∧
      ∀ a ∈ (parseOuter b n off res).allocated, a.Fits := by
  induction n generalizing off res with
  | zero =>
    simp only [parseOuter, Except.ok.injEq, Prod.mk.injEq] at h
    obtain ⟨-, rfl⟩ := h
    exact ⟨by omega, id, by simp [parseOuter]⟩
  | succ n ih =>
    simp only [parseOuter] at h ⊢
    split_ifs at h ⊢ with hg
    obtain ⟨⟨txRes, offTx⟩, htx, h⟩ := Parsed.afterMake_eq_ok.mp h
    obtain ⟨hle₁, hlen₁⟩ := parseTx_le htx
    obtain ⟨hle₂, hlen₂, hfits⟩ := ih h
    have hend := hlen₁ (by omega)
    rw [htx, Parsed.afterMake_ok]
    refine ⟨by rw [Nat.succ_mul]; omega, fun _ => hlen₂ hend, fun a ha => ?_⟩
    rcases List.mem_cons.mp ha with rfl | ha
    · -- the inner loop read its entries from the bytes left
      dsimp only [MapAllocation.Fits]
      omega
    · exact hfits a ha

theorem parseTx_of_take_eq {b c : List UInt8} {n off off' : ℕ} {txRes txRes' : TxResults}
    (h : parseTx b n off txRes = .ok (txRes', off')) (hc : c.take off' = b.take off')
    (hlen : off' ≤ c.length) : parseTx c n off txRes = .ok (txRes', off') := by
  induction n generalizing off txRes with
  | zero => exact h
  | succ n ih =>
    simp only [parseTx] at h ⊢
    split_ifs at h with hg hg₂
    have hle := (parseTx_le h).1
    rw [slice_eq_of_take_eq hc (show off + addrLen ≤ off' by omega),
      slice_eq_of_take_eq hc (show off + addrLen + 4 ≤ off' by omega),
      slice_eq_of_take_eq hc (show off + addrLen + 4 + value (slice b (off + addrLen) (off + addrLen + 4)) ≤ off'
        by omega), if_neg (by omega), if_neg (by omega)]
    exact ih h

theorem parseOuter_of_take_eq {b c : List UInt8} {n off off' : ℕ} {res res' : Results}
    (h : (parseOuter b n off res).result = .ok (res', off')) (hc : c.take off' = b.take off')
    (hlen : off' ≤ c.length) : (parseOuter c n off res).result = .ok (res', off') := by
  induction n generalizing off res with
  | zero => exact h
  | succ n ih =>
    simp only [parseOuter] at h ⊢
    split_ifs at h with hg
    obtain ⟨⟨txRes, offTx⟩, htx, h⟩ := Parsed.afterMake_eq_ok.mp h
    have hle₁ := (parseTx_le htx).1
    have hle₂ := (parseOuter_le h).1
    rw [slice_eq_of_take_eq hc (show off + hashLen ≤ off' by omega),
      slice_eq_of_take_eq hc (show off + hashLen + 4 ≤ off' by omega), if_neg (by omega),
      parseTx_of_take_eq htx (take_eq_of_take_eq hc (by omega)) (by omega), Parsed.afterMake_ok]
    exact ih h

/-- A parse that succeeds stops at an offset within the buffer, and reads the
same from every buffer, within the size limit, that begins with the bytes
before it. -/
theorem parseResults_eq_ok {b : List UInt8} {r : Results} (h : parseResults b = .ok r) :
    ∃ off, (parseOuter b (value (slice b 2 6)) 6 ∅).result = .ok (r, off) ∧ off ≤ b.length ∧
      b.length ≤ maxResultsSize ∧
      ∀ c, b.take off <+: c → c.length ≤ maxResultsSize → parseResults c = .ok r := by
  simp only [parseResults, parseResultsRun] at h
  split_ifs at h with h₂ hmax hver h₆
  obtain ⟨⟨r', off⟩, hout⟩ : ∃ p, (parseOuter b (value (slice b 2 6)) 6 ∅).result = .ok p := by
    cases hout : (parseOuter b (value (slice b 2 6)) 6 ∅).result with
    | error e =>
      rw [hout] at h
      cases h
    | ok p => exact ⟨p, rfl⟩
  rw [hout] at h
  cases h
  have hoff := parseOuter_le hout
  refine ⟨off, hout, hoff.2.1 (by omega), by omega, fun c hpre hc => ?_⟩
  have hlen : off ≤ c.length := by
    have := hpre.length_le
    rwa [List.length_take, Nat.min_eq_left (hoff.2.1 (by omega))] at this
  have htake : c.take off = b.take off := by
    have := List.prefix_iff_eq_take.mp hpre
    rw [List.length_take, Nat.min_eq_left (hoff.2.1 (by omega))] at this
    exact this.symm
  simp only [parseResults, parseResultsRun]
  rw [if_neg (by omega), if_neg (by omega), slice_eq_of_take_eq htake (show 2 ≤ off by omega),
    if_neg hver, if_neg (by omega), slice_eq_of_take_eq htake (show 6 ≤ off by omega),
    parseOuter_of_take_eq hout htake hlen]
  rfl

/-- On every buffer `ParseResults` accepts, no map was made larger than the
bytes left could fill. -/
theorem parseResults_fits_of_ok {b : List UInt8} {r : Results} (h : parseResults b = .ok r) :
    ∀ a ∈ (parseResultsRun b).allocated, a.Fits := by
  obtain ⟨off, hout, hoff, -, -⟩ := parseResults_eq_ok h
  obtain ⟨hle, -, hfits⟩ := parseOuter_le hout
  simp only [parseResults, parseResultsRun] at h ⊢
  split_ifs at h ⊢ with h₂ hmax hver h₆
  intro a ha
  rcases List.mem_cons.mp ha with rfl | ha
  · -- the outer loop read its transactions from the bytes after the count
    dsimp only [MapAllocation.Fits]
    omega
  · exact hfits a ha

/-! ## Each slice is in bounds, and the offset never wraps -/

theorem run_sliceAt_bind {β : Type} (b : List UInt8) {lo hi : UInt64} (hlo : lo.toNat ≤ hi.toNat)
    (hhi : hi.toNat ≤ b.length) (k : List UInt8 → GoParse β) (allocated : List MapAllocation) :
    (sliceAt b lo hi >>= k).run.run allocated = (k (slice b lo.toNat hi.toNat)).run.run allocated := by
  simp [sliceAt, sliceChecked_of_le hlo hhi]

theorem run_makeMap_bind {β : Type} (alloc : MapAllocation) (k : Unit → GoParse β)
    (allocated : List MapAllocation) :
    (makeMap alloc >>= k).run.run allocated = (k ()).run.run (allocated ++ [alloc]) := by
  simp [makeMap]

theorem run_bind_of_run_eq_ok {α β : Type} {x : GoParse α} {k : α → GoParse β} {s s' : List MapAllocation}
    {a : α} (h : x.run.run s = some (.ok a, s')) : (x >>= k).run.run s = (k a).run.run s' := by
  rw [ExceptT.run_bind, StateT.run_bind, h]
  rfl

theorem run_bind_of_run_eq_error {α β : Type} {x : GoParse α} {k : α → GoParse β}
    {s s' : List MapAllocation} {e : ResultsError} (h : x.run.run s = some (.error e, s')) :
    (x >>= k).run.run s = some (.error e, s') := by
  rw [ExceptT.run_bind, StateT.run_bind, h]
  rfl

theorem toNat_add_ofNat {x : UInt64} {k : ℕ} (h : x.toNat + k < 2^64) :
    (x + UInt64.ofNat k).toNat = x.toNat + k := by
  have hk : (UInt64.ofNat k).toNat = k :=
    UInt64.toNat_ofNat_of_lt' (lt_of_le_of_lt (Nat.le_add_left k x.toNat) h)
  rw [toNat_add_of_lt (by rw [hk]; exact h), hk]

theorem parseTxChecked_eq {b : List UInt8} (hb : b.length ≤ maxResultsSize) (n : ℕ) :
    ∀ (off : UInt64) (txRes : TxResults) (allocated : List MapAllocation), off.toNat ≤ b.length →
      (parseTxChecked b n off txRes).run.run allocated =
        some ((fun p => (p.1, UInt64.ofNat p.2)) <$> parseTx b n off.toNat txRes, allocated) := by
  have hmax : maxResultsSize = 1048576 := rfl
  induction n with
  | zero =>
    intro off txRes allocated _
    simp [parseTxChecked, parseTx, UInt64.ofNat_toNat]
  | succ n ih =>
    intro off txRes allocated hoff
    have h₁ : (off + UInt64.ofNat addrLen).toNat = off.toNat + addrLen :=
      toNat_add_ofNat (by simp only [addrLen]; omega)
    have h₂ : (off + UInt64.ofNat addrLen + 4).toNat = off.toNat + addrLen + 4 := by
      rw [toNat_add_of_lt (by rw [h₁, show (4 : UInt64).toNat = 4 from rfl]; simp only [addrLen]; omega), h₁]
      rfl
    simp only [parseTxChecked, parseTx, h₂]
    by_cases hg : b.length < off.toNat + addrLen + 4
    · rw [if_pos hg, if_pos hg]
      rfl
    rw [if_neg hg, if_neg hg, run_sliceAt_bind b (by omega) (by omega),
      run_sliceAt_bind b (by omega) (by omega), h₁, h₂]
    -- the length read is below `2^32`, so the offset after the bytes stays below `2^33`
    have hlen : value (slice b (off.toNat + addrLen) (off.toNat + addrLen + 4)) < 2^32 := by
      have := value_lt (slice b (off.toNat + addrLen) (off.toNat + addrLen + 4))
      rwa [length_slice (by omega), show off.toNat + addrLen + 4 - (off.toNat + addrLen) = 4 by omega] at this
    set bytesLen := value (slice b (off.toNat + addrLen) (off.toNat + addrLen + 4))
    have h₃ : (off + UInt64.ofNat addrLen + 4 + UInt64.ofNat bytesLen).toNat =
        off.toNat + addrLen + 4 + bytesLen := by
      rw [toNat_add_ofNat (by rw [h₂]; simp only [addrLen]; omega), h₂]
    simp only [h₃]
    by_cases hg₂ : b.length < off.toNat + addrLen + 4 + bytesLen
    · rw [if_pos hg₂, if_pos hg₂]
      rfl
    rw [if_neg hg₂, if_neg hg₂, run_sliceAt_bind b (by rw [h₂, h₃]; omega) (by rw [h₃]; omega),
      ih _ _ _ (by rw [h₃]; omega), h₂, h₃]

theorem parseOuterChecked_eq {b : List UInt8} (hb : b.length ≤ maxResultsSize) (n : ℕ) :
    ∀ (off : UInt64) (res : Results) (allocated : List MapAllocation), off.toNat ≤ b.length →
      (parseOuterChecked b n off res).run.run allocated =
        some ((fun p => (p.1, UInt64.ofNat p.2)) <$> (parseOuter b n off.toNat res).result,
          allocated ++ (parseOuter b n off.toNat res).allocated) := by
  have hmax : maxResultsSize = 1048576 := rfl
  induction n with
  | zero =>
    intro off res allocated _
    simp [parseOuterChecked, parseOuter, UInt64.ofNat_toNat]
  | succ n ih =>
    intro off res allocated hoff
    have h₁ : (off + UInt64.ofNat hashLen).toNat = off.toNat + hashLen :=
      toNat_add_ofNat (by simp only [hashLen]; omega)
    have h₂ : (off + UInt64.ofNat hashLen + 4).toNat = off.toNat + hashLen + 4 := by
      rw [toNat_add_of_lt (by rw [h₁, show (4 : UInt64).toNat = 4 from rfl]; simp only [hashLen]; omega), h₁]
      rfl
    simp only [parseOuterChecked, parseOuter, h₂]
    by_cases hg : b.length < off.toNat + hashLen + 4
    · rw [if_pos hg, if_pos hg]
      simp only [List.append_nil]
      rfl
    rw [if_neg hg, if_neg hg, run_sliceAt_bind b (by omega) (by omega),
      run_sliceAt_bind b (by omega) (by omega), h₁, h₂, run_makeMap_bind]
    set innerN := value (slice b (off.toNat + hashLen) (off.toNat + hashLen + 4))
    have hrun := fun s => parseTxChecked_eq hb innerN (off + UInt64.ofNat hashLen + 4) ∅ s (by rw [h₂]; omega)
    rw [h₂] at hrun
    cases htx : parseTx b innerN (off.toNat + hashLen + 4) ∅ with
    | error e =>
      rw [htx] at hrun
      rw [run_bind_of_run_eq_error (hrun _), Parsed.afterMake_error]
      rfl
    | ok tx =>
      obtain ⟨txRes, offTx⟩ := tx
      rw [htx] at hrun
      have hlen := (parseTx_le htx).2 (by omega)
      have hconv : (UInt64.ofNat offTx).toNat = offTx := UInt64.toNat_ofNat_of_lt' (by rw [UInt64.size]; omega)
      rw [run_bind_of_run_eq_ok (hrun _), Parsed.afterMake_ok]
      show (parseOuterChecked b n (UInt64.ofNat offTx)
        (res.insert (BitVec.ofNat 256 (value (slice b off.toNat (off.toNat + hashLen)))) txRes)).run.run _ = _
      rw [ih _ _ _ (by rw [hconv]; exact hlen), hconv, List.append_assoc]
      rfl

/-- On every buffer, the parser as Go runs it does not panic, and returns and
allocates what `parseResultsRun` does. -/
theorem parseResultsChecked_eq (b : List UInt8) :
    (parseResultsChecked b).run.run [] = some ((parseResultsRun b).result, (parseResultsRun b).allocated) := by
  simp only [parseResultsChecked, parseResultsRun]
  by_cases h₂ : b.length < 2
  · rw [if_pos h₂, if_pos h₂]
    rfl
  by_cases hmax : maxResultsSize < b.length
  · rw [if_neg h₂, if_neg h₂, if_pos hmax, if_pos hmax]
    rfl
  have h0 : (0 : UInt64).toNat = 0 := rfl
  have h2 : (2 : UInt64).toNat = 2 := rfl
  have h6 : (6 : UInt64).toNat = 6 := rfl
  rw [if_neg h₂, if_neg h₂, if_neg hmax, if_neg hmax,
    run_sliceAt_bind b (by decide) (by rw [h2]; omega), h0, h2]
  by_cases hver : value (slice b 0 2) ≠ version
  · rw [if_pos hver, if_pos hver]
    rfl
  by_cases h₆ : b.length < 6
  · rw [if_neg hver, if_neg hver, if_pos h₆, if_pos h₆]
    rfl
  rw [if_neg hver, if_neg hver, if_neg h₆, if_neg h₆,
    run_sliceAt_bind b (by decide) (by rw [h6]; omega), h2, h6, run_makeMap_bind,
    ExceptT.run_map, StateT.run_map,
    parseOuterChecked_eq (show b.length ≤ maxResultsSize by omega) (value (slice b 2 6)) 6 ∅ _
      (by rw [h6]; omega), h6]
  cases (parseOuter b (value (slice b 2 6)) 6 ∅).result <;> rfl

theorem parseResultsFromHeaderExtra_eq (extra : List UInt8) :
    (parseResultsFromHeaderExtra extra).run.run [] =
      if extra.length ≤ FeeWindow.WindowSize then some (.ok none, [])
      else some (some <$> (parseResultsRun (extra.drop FeeWindow.WindowSize)).result,
        (parseResultsRun (extra.drop FeeWindow.WindowSize)).allocated) := by
  simp only [parseResultsFromHeaderExtra]
  by_cases hw : extra.length ≤ FeeWindow.WindowSize
  · rw [if_pos hw, if_pos hw]
    rfl
  have hcut : (ExceptT.lift (StateT.lift (sliceChecked extra FeeWindow.WindowSize extra.length)) :
      GoParse (List UInt8)).run.run [] = some (.ok (extra.drop FeeWindow.WindowSize), []) := by
    rw [sliceChecked_of_le (by omega) (Nat.le_refl _), slice_eq_drop]
    rfl
  rw [if_neg hw, if_neg hw, run_bind_of_run_eq_ok hcut, ExceptT.run_map, StateT.run_map, parseResultsChecked_eq]
  rfl

/-! ## The size hints are allocated before they are checked -/

/-- Version `0` and a count of `2^32 - 1` transactions, with nothing after it. -/
def hugeOuterCount : List UInt8 := [0, 0, 255, 255, 255, 255]

theorem parseResults_allocates_beyond_input :
    (parseResultsChecked hugeOuterCount).run.run [] =
        some (.error .shortBuffer, [⟨2^32 - 1, hashLen + 4, 0⟩]) ∧
      ¬ (⟨2^32 - 1, hashLen + 4, 0⟩ : MapAllocation).Fits := by
  refine ⟨?_, by decide⟩
  rw [parseResultsChecked_eq]
  rfl

end LuxEvm.Predicate

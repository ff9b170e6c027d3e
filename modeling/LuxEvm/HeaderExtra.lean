import LuxEvm.FeeWindow
import LuxEvm.Common

/-!
# The header `Extra` field

After EVM activation a block's `Extra` starts with the fee window its parent
implies and continues with the predicate results. The block builder
prepends the recomputed window to the predicate bytes the miner left in
`Extra`; the verifier recomputes the window, checks it as a prefix and the
length against the rules, and reads the predicate bytes at the fixed offset
`WindowSize`. The two paths agree on every parent and every gap in time.
-/

set_option autoImplicit false

namespace LuxEvm.HeaderExtra
open LuxEvm.FeeWindow

-- Only the fields the header code reads are kept from `extras.ChainConfig`,
-- `extras.LuxRules` and `types.Header`.
structure ChainConfig where
  evmTimestamp : Option UInt64

def ChainConfig.isEVM (c : ChainConfig) (time : UInt64) : Bool :=
  isTimestampForked c.evmTimestamp time

structure LuxRules where
  isEVM : Bool
  isDurango : Bool

structure Header where
  time : UInt64
  number : ℕ
  gasUsed : UInt64
  extra : List UInt8

def maximumExtraDataSize : ℕ := 64

inductive ExtraError where
  | window (e : WindowError)
  | invalidTimestamp (timestamp parentTime : UInt64)
  | invalidExtraPrefix (expected found : List UInt8)
  | invalidExtraLength (expected got : ℕ)
  deriving DecidableEq, Repr

/-- `feeWindow`: the parent's window with its gas added, rolled forward to
`timestamp`. -/
def feeWindow (config : ChainConfig) (parent : Header) (timestamp : UInt64) :
    Except ExtraError Window :=
  if !config.isEVM parent.time || parent.number == 0 then .ok Window.zero
  else
    match parseWindow parent.extra with
    | .error e => .error (.window e)
    | .ok w =>
      if timestamp < parent.time then .error (.invalidTimestamp timestamp parent.time)
      else .ok ((w.add [parent.gasUsed]).shift (timestamp-parent.time))

def extraPrefix (config : ChainConfig) (parent header : Header) :
    Except ExtraError (List UInt8) :=
  if config.isEVM header.time then
    match feeWindow config parent header.time with
    | .error e => .error e
    | .ok w => .ok w.bytes
  else .ok []

def verifyExtraPrefix (config : ChainConfig) (parent header : Header) :
    Except ExtraError Unit :=
  if config.isEVM header.time then
    match feeWindow config parent header.time with
    | .error e => .error e
    | .ok w =>
      if w.bytes <+: header.extra then .ok ()
      else .error (.invalidExtraPrefix w.bytes header.extra)
  else .ok ()

def verifyExtra (rules : LuxRules) (extra : List UInt8) : Except ExtraError Unit :=
  if rules.isDurango then
    if extra.length < WindowSize then .error (.invalidExtraLength WindowSize extra.length)
    else .ok ()
  else if rules.isEVM then
    if extra.length ≠ WindowSize then .error (.invalidExtraLength WindowSize extra.length)
    else .ok ()
  else if maximumExtraDataSize < extra.length then
    .error (.invalidExtraLength maximumExtraDataSize extra.length)
  else .ok ()

def predicateBytesFromExtra (extra : List UInt8) : List UInt8 :=
  if extra.length ≤ WindowSize then [] else extra.drop WindowSize

def setPredicateBytesInExtra (extra predicateBytes : List UInt8) : List UInt8 :=
  let extra :=
    if extra.length < WindowSize then extra ++ List.replicate (WindowSize-extra.length) 0
    else extra.take WindowSize
  extra ++ predicateBytes

/-- The `Extra` that `DummyEngine.FinalizeAndAssemble` writes: the prefix the
parent implies, followed by the predicate bytes the miner left in `Extra`. -/
def finalizeExtra (config : ChainConfig) (parent header : Header) :
    Except ExtraError (List UInt8) :=
  match extraPrefix config parent header with
  | .error e => .error e
  | .ok extraPrefix => .ok (setPredicateBytesInExtra extraPrefix header.extra)

theorem isEVM_mono (config : ChainConfig) {t t' : UInt64} (ht : t ≤ t')
    (h : config.isEVM t = true) : config.isEVM t' = true := by
  unfold ChainConfig.isEVM isTimestampForked at *
  cases hs : config.evmTimestamp with
  | none => simp [hs] at h
  | some s =>
    simp only [hs, decide_eq_true_eq] at h ⊢
    exact UInt64.le_trans h ht

theorem feeWindow_ok (config : ChainConfig) (parent : Header) (timestamp : UInt64)
    (hparent : WindowSize ≤ parent.extra.length) (htime : parent.time ≤ timestamp) :
    ∃ w, feeWindow config parent timestamp = .ok w := by
  have hp : parseWindow parent.extra =
      .ok ⟨fun i => uint64 (parent.extra.drop (i.val*LongLen))⟩ := by
    simp [parseWindow, Nat.not_lt.mpr hparent]
  have ht : ¬timestamp < parent.time := UInt64.not_lt.mpr htime
  unfold feeWindow
  rw [hp]
  simp only [ht, if_false]
  split_ifs <;> exact ⟨_, rfl⟩

theorem feeWindow_zero (config : ChainConfig) (parent : Header) (timestamp : UInt64)
    (h : config.isEVM parent.time = false ∨ parent.number = 0) :
    feeWindow config parent timestamp = .ok Window.zero := by
  unfold feeWindow
  rcases h with h | h <;> simp [h]

theorem feeWindow_entry (config : ChainConfig) (parent : Header) (timestamp : UInt64)
    (w : Window) (hevm : config.isEVM parent.time = true) (hnum : parent.number ≠ 0)
    (hp : parseWindow parent.extra = .ok w) (htime : parent.time ≤ timestamp)
    (i : Fin WindowLen) :
    ∃ w', feeWindow config parent timestamp = .ok w' ∧
      w'.entry i = if h : i.val+(timestamp-parent.time).toNat < WindowLen then
        (if i.val+(timestamp-parent.time).toNat = WindowLen-1
          then FeeWindow.add (w.entry lastIndex) [parent.gasUsed]
          else w.entry ⟨i.val+(timestamp-parent.time).toNat, h⟩)
      else 0 := by
  have ht : ¬timestamp < parent.time := UInt64.not_lt.mpr htime
  refine ⟨(w.add [parent.gasUsed]).shift (timestamp-parent.time),
    by simp [feeWindow, hevm, hnum, hp, ht], ?_⟩
  rw [Window.shift_entry]
  split_ifs with h₁ h₂
  · simp only [Window.add]
    rw [show (⟨i.val+(timestamp-parent.time).toNat, h₁⟩ : Fin WindowLen) = lastIndex from
      Fin.ext h₂, Function.update_self]
  · simp only [Window.add]
    rw [Function.update_of_ne (fun h => h₂ (congrArg Fin.val h))]
  · rfl

theorem predicateBytesFromExtra_append (w : List UInt8) (p : List UInt8)
    (hw : w.length = WindowSize) : predicateBytesFromExtra (w ++ p) = p := by
  unfold predicateBytesFromExtra
  split_ifs with h
  · have : p = [] := List.eq_nil_of_length_eq_zero (by simp at h; omega)
    exact this.symm
  · exact List.drop_left' hw

theorem setPredicateBytesInExtra_of_length (w p : List UInt8) (hw : w.length = WindowSize) :
    setPredicateBytesInExtra w p = w ++ p := by
  simp [setPredicateBytesInExtra, hw]

theorem finalizeExtra_eq (config : ChainConfig) (parent header : Header) (w : Window)
    (hw : feeWindow config parent header.time = .ok w) :
    finalizeExtra config parent header =
      .ok ((if config.isEVM header.time then w.bytes else List.replicate WindowSize 0) ++
        header.extra) := by
  unfold finalizeExtra extraPrefix
  split_ifs with h
  · simp only [hw, setPredicateBytesInExtra_of_length _ _ (Window.length_bytes w)]
  · simp [setPredicateBytesInExtra, WindowSize, LongLen, WindowLen]

theorem feeWindow_of_not_isEVM (config : ChainConfig) (parent : Header) (timestamp : UInt64)
    (htime : parent.time ≤ timestamp) (h : config.isEVM timestamp = false) :
    feeWindow config parent timestamp = .ok Window.zero := by
  apply feeWindow_zero
  left
  cases hp : config.isEVM parent.time with
  | false => rfl
  | true => rw [isEVM_mono config htime hp] at h; cases h

theorem zero_bytes : Window.zero.bytes = List.replicate WindowSize 0 := by
  decide

end LuxEvm.HeaderExtra

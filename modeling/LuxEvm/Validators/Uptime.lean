import Mathlib.Logic.Function.Basic
import Mathlib.Algebra.Order.Field.Rat

/-!
# Validator uptime

The uptime manager keeps, for each node, the uptime it accumulated while tracked
and connected, the "optimistic" time before tracking began, and the start of the
current connection. A `Ledger` says what the accounting is for: how long each
node has been known, and how long it has been tracked while disconnected. Over
every run from a new manager with nothing persisted and a clock that never goes
back, the manager refines the ledger (`Refines.run`), and `CalculateUptime`
returns as uptime the node's known time less its tracked-and-disconnected time
(`calculateUptime_run`), which is never negative.

It returns that same value as the total (`calculateUptime_snd`), so
`total - uptime` is always zero and the uptime percentage always one, however long
a tracked node stayed disconnected.
-/

set_option autoImplicit false
set_option linter.unusedSectionVars false

namespace LuxEvm.Uptime

/-- `t.Sub(u)`, with a `time.ℕ` as its nanoseconds: `0` is the zero time that
`IsZero` tests for. -/
def timeSub (t u : ℕ) : ℤ := (t : ℤ) - u

/-- `nodeUptime`; `trackingStartTime`, which nothing reads, is left out. -/
structure NodeUptime where
  accumulatedUptime : ℤ
  lastConnectedTime : ℕ
  isTracking : Bool
  preTrackingUptime : ℤ
  creationTime : ℕ
  loadedFromState : Bool
  deriving DecidableEq, Repr

namespace NodeUptime

/-- What `Connect` does to the entry. -/
def connect (now : ℕ) (nu : NodeUptime) : NodeUptime :=
  if nu.isTracking && nu.lastConnectedTime == 0 then { nu with lastConnectedTime := now } else nu

/-- What `Disconnect` does to the entry. -/
def disconnect (now : ℕ) (nu : NodeUptime) : NodeUptime :=
  let nu :=
    if nu.isTracking && nu.lastConnectedTime != 0 then
      { nu with accumulatedUptime := nu.accumulatedUptime + timeSub now nu.lastConnectedTime }
    else nu
  { nu with lastConnectedTime := 0 }

/-- What `StartTracking` does to the entry: the time since creation is credited as
pre-tracking uptime, and a connected node starts counting. -/
def startTracking (now : ℕ) (connected : Bool) (nu : NodeUptime) : NodeUptime :=
  if nu.isTracking then nu
  else
    let nu := { nu with
      preTrackingUptime := nu.preTrackingUptime + timeSub now nu.creationTime
      creationTime := now
      isTracking := true }
    if connected then { nu with lastConnectedTime := now } else nu

/-- What `StopTracking` does to a tracked entry: the open connection is closed. -/
def stopTracking (now : ℕ) (nu : NodeUptime) : NodeUptime :=
  let nu :=
    if nu.lastConnectedTime != 0 then
      { nu with accumulatedUptime := nu.accumulatedUptime + timeSub now nu.lastConnectedTime }
    else nu
  { nu with lastConnectedTime := 0, isTracking := false, creationTime := now }

end NodeUptime

/-- `uptime.State`: the persisted uptime of a node on a network, if any. -/
abbrev UptimeState (NodeID NetID : Type) := NodeID → NetID → Option ℤ

/-- `Manager`: a nil `state` is `none`. -/
structure Manager (NodeID NetID : Type) where
  state : Option (UptimeState NodeID NetID)
  clock : ℕ
  connected : NodeID → Bool
  uptimes : NodeID → Option NodeUptime
  defaultNetID : NetID

inductive Op (NodeID : Type) where
  | connect (nodeID : NodeID)
  | disconnect (nodeID : NodeID)
  | startTracking (nodeIDs : List NodeID)
  | stopTracking (nodeIDs : List NodeID)
  | ensureExists (nodeID : NodeID)
  /-- the mockable clock is set -/
  | setClock (time : ℕ)

section Manager

variable {NodeID NetID : Type} [DecidableEq NodeID] [DecidableEq NetID]

/-- `NewManager`, with the clock at `now`. -/
def newManager (state : Option (UptimeState NodeID NetID)) (now : ℕ) (defaultNetID : NetID) :
    Manager NodeID NetID :=
  ⟨state, now, fun _ => false, fun _ => none, defaultNetID⟩

/-- `SetUptime`; the last-updated time, which nothing reads, is left out. -/
def setUptime (state : UptimeState NodeID NetID) (nodeID : NodeID) (netID : NetID)
    (uptime : ℤ) : UptimeState NodeID NetID :=
  Function.update state nodeID (Function.update (state nodeID) netID (some uptime))

namespace Manager

/-- Store a node's entry: the Go code mutates it through its pointer. -/
def putUptime (m : Manager NodeID NetID) (nodeID : NodeID) (nu : NodeUptime) :
    Manager NodeID NetID :=
  { m with uptimes := Function.update m.uptimes nodeID (some nu) }

/-- `getOrCreateUptime`: the node's entry, created at the current time if missing,
with its persisted uptime loaded once when there is a state. -/
def getOrCreateUptime (m : Manager NodeID NetID) (nodeID : NodeID) :
    Manager NodeID NetID × NodeUptime :=
  let nu := (m.uptimes nodeID).getD ⟨0, 0, false, 0, m.clock, false⟩
  let nu :=
    match m.state with
    | some state =>
      if nu.loadedFromState then nu
      else
        let nu := match state nodeID m.defaultNetID with
          | some previousUptime =>
            if 0 < previousUptime then { nu with accumulatedUptime := previousUptime } else nu
          | none => nu
        { nu with loadedFromState := true }
    | none => nu
  (m.putUptime nodeID nu, nu)

/-- `Connect`: counting starts if the node is tracked and was not connected. -/
def connect (m : Manager NodeID NetID) (nodeID : NodeID) : Manager NodeID NetID :=
  let m := { m with connected := Function.update m.connected nodeID true }
  let (m, nu) := m.getOrCreateUptime nodeID
  m.putUptime nodeID (nu.connect m.clock)

/-- `Disconnect`: the open connection, if tracked, is added to the uptime. -/
def disconnect (m : Manager NodeID NetID) (nodeID : NodeID) : Manager NodeID NetID :=
  let m := { m with connected := Function.update m.connected nodeID false }
  let (m, nu) := m.getOrCreateUptime nodeID
  m.putUptime nodeID (nu.disconnect m.clock)

/-- One node of `StartTracking`. -/
def startTrackingOne (now : ℕ) (m : Manager NodeID NetID) (nodeID : NodeID) :
    Manager NodeID NetID :=
  let (m, nu) := m.getOrCreateUptime nodeID
  m.putUptime nodeID (nu.startTracking now (m.connected nodeID))

def startTracking (m : Manager NodeID NetID) (nodeIDs : List NodeID) : Manager NodeID NetID :=
  nodeIDs.foldl (startTrackingOne m.clock) m

/-- One node of `StopTracking`: a tracked node's total is persisted. -/
def stopTrackingOne (now : ℕ) (m : Manager NodeID NetID) (nodeID : NodeID) :
    Manager NodeID NetID :=
  let (m, nu) := m.getOrCreateUptime nodeID
  if !nu.isTracking then m
  else
    let nu := nu.stopTracking now
    let m := m.putUptime nodeID nu
    match m.state with
    | some state =>
      { m with state := some (setUptime state nodeID m.defaultNetID
        (nu.preTrackingUptime + nu.accumulatedUptime)) }
    | none => m

def stopTracking (m : Manager NodeID NetID) (nodeIDs : List NodeID) : Manager NodeID NetID :=
  nodeIDs.foldl (stopTrackingOne m.clock) m

def ensureExists (m : Manager NodeID NetID) (nodeID : NodeID) : Manager NodeID NetID :=
  (m.getOrCreateUptime nodeID).1

/-- `CalculateUptime`: the uptime and the total duration; its error is always nil. -/
def calculateUptime (m : Manager NodeID NetID) (nodeID : NodeID) (chainID : NetID) :
    ℤ × ℤ :=
  match m.uptimes nodeID with
  | none =>
    match m.state with
    | some state =>
      match state nodeID chainID with
      | some previousUptime => if 0 < previousUptime then (previousUptime, previousUptime) else (0, 0)
      | none => (0, 0)
    | none => (0, 0)
  | some nu =>
    let now := m.clock
    let uptimeDuration := nu.preTrackingUptime + nu.accumulatedUptime
    let uptimeDuration :=
      if nu.isTracking && nu.lastConnectedTime != 0 then
        uptimeDuration + timeSub now nu.lastConnectedTime
      else uptimeDuration
    -- the untracked time since the last stop counts as up
    let uptimeDuration :=
      if !nu.isTracking then uptimeDuration + timeSub now nu.creationTime else uptimeDuration
    let totalDuration := uptimeDuration
    (uptimeDuration, totalDuration)

/-- `CalculateUptimePercent`, over the rationals: `x / x` is exactly one in
floating point too. -/
def calculateUptimePercent (m : Manager NodeID NetID) (nodeID : NodeID) (chainID : NetID) : ℚ :=
  let (uptime, total) := m.calculateUptime nodeID chainID
  if total = 0 then 1 else uptime / total

def step (m : Manager NodeID NetID) : Op NodeID → Manager NodeID NetID
  | .connect nodeID => m.connect nodeID
  | .disconnect nodeID => m.disconnect nodeID
  | .startTracking nodeIDs => m.startTracking nodeIDs
  | .stopTracking nodeIDs => m.stopTracking nodeIDs
  | .ensureExists nodeID => m.ensureExists nodeID
  | .setClock time => { m with clock := time }

def run (m : Manager NodeID NetID) (ops : List (Op NodeID)) : Manager NodeID NetID :=
  ops.foldl step m

end Manager

/-! ## What uptime is for -/

/-- A node's account: when it became known, whether it is tracked, and how long it
has been tracked while disconnected. -/
structure Account where
  created : ℕ
  tracking : Bool
  downtime : ℤ
  deriving DecidableEq, Repr

structure Ledger (NodeID : Type) where
  clock : ℕ
  connected : NodeID → Bool
  accounts : NodeID → Option Account

namespace Ledger

def init (now : ℕ) : Ledger NodeID := ⟨now, fun _ => false, fun _ => none⟩

/-- The node becomes known, if it was not. -/
def touch (l : Ledger NodeID) (n : NodeID) : Ledger NodeID :=
  match l.accounts n with
  | some _ => l
  | none => { l with accounts := Function.update l.accounts n (some ⟨l.clock, false, 0⟩) }

def setTracking (tracking : Bool) (l : Ledger NodeID) (n : NodeID) : Ledger NodeID :=
  let l := l.touch n
  let a := (l.accounts n).map fun a => { a with tracking := tracking }
  { l with accounts := Function.update l.accounts n a }

def advance (l : Ledger NodeID) (t : ℕ) : Ledger NodeID :=
  { l with
    clock := t
    accounts := fun n => (l.accounts n).map fun a =>
      if a.tracking && !l.connected n then { a with downtime := a.downtime + timeSub t l.clock }
      else a }

def step (l : Ledger NodeID) : Op NodeID → Ledger NodeID
  | .connect n => { l.touch n with connected := Function.update l.connected n true }
  | .disconnect n => { l.touch n with connected := Function.update l.connected n false }
  | .startTracking ns => ns.foldl (setTracking true) l
  | .stopTracking ns => ns.foldl (setTracking false) l
  | .ensureExists n => l.touch n
  | .setClock t => l.advance t

def run (l : Ledger NodeID) (ops : List (Op NodeID)) : Ledger NodeID := ops.foldl step l

def lifetime (l : Ledger NodeID) (n : NodeID) : ℤ :=
  match l.accounts n with
  | some a => timeSub l.clock a.created
  | none => 0

def downtime (l : Ledger NodeID) (n : NodeID) : ℤ :=
  match l.accounts n with
  | some a => a.downtime
  | none => 0

end Ledger

def ClockOk : ℕ → List (Op NodeID) → Prop
  | _, [] => True
  | now, .setClock t :: ops => now ≤ t ∧ ClockOk t ops
  | now, _ :: ops => ClockOk now ops

/-! ## The manager refines the ledger -/

namespace NodeUptime

/-- The uptime `CalculateUptime` reports for an entry at time `now`. -/
def uptimeAt (nu : NodeUptime) (now : ℕ) : ℤ :=
  nu.preTrackingUptime + nu.accumulatedUptime +
    (if nu.isTracking && nu.lastConnectedTime != 0 then timeSub now nu.lastConnectedTime else 0) +
    (if !nu.isTracking then timeSub now nu.creationTime else 0)

@[simp] theorem connect_loadedFromState (now : ℕ) (nu : NodeUptime) :
    (nu.connect now).loadedFromState = nu.loadedFromState := by
  unfold connect; split <;> rfl

@[simp] theorem disconnect_loadedFromState (now : ℕ) (nu : NodeUptime) :
    (nu.disconnect now).loadedFromState = nu.loadedFromState := by
  unfold disconnect; split <;> rfl

@[simp] theorem startTracking_loadedFromState (now : ℕ) (c : Bool) (nu : NodeUptime) :
    (nu.startTracking now c).loadedFromState = nu.loadedFromState := by
  unfold startTracking; split_ifs <;> rfl

@[simp] theorem stopTracking_loadedFromState (now : ℕ) (nu : NodeUptime) :
    (nu.stopTracking now).loadedFromState = nu.loadedFromState := by
  unfold stopTracking; split <;> rfl

end NodeUptime

/-- An entry agrees with an account at time `now`, the node's connection being `c`:
it reports the account's known time less its downtime, and while tracked it has an
open connection exactly when the node is connected. -/
structure Agrees (now : ℕ) (c : Bool) (nu : NodeUptime) (a : Account) : Prop where
  tracking : nu.isTracking = a.tracking
  uptime : nu.uptimeAt now = timeSub now a.created - a.downtime
  open_iff : nu.isTracking = true → (nu.lastConnectedTime ≠ 0 ↔ c = true)
  closed : nu.isTracking = false → nu.lastConnectedTime = 0

theorem Account.tracking_eq_self {a : Account} {b : Bool} (h : a.tracking = b) :
    { a with tracking := b } = a := by
  subst h; rfl

namespace Agrees

variable {now : ℕ} {c : Bool} {nu : NodeUptime} {a : Account}

theorem fresh (now : ℕ) (c loaded : Bool) :
    Agrees now c ⟨0, 0, false, 0, now, loaded⟩ ⟨now, false, 0⟩ where
  tracking := rfl
  uptime := by simp [NodeUptime.uptimeAt]
  open_iff := by simp
  closed _ := rfl

theorem lastConnectedTime_eq_zero (h : Agrees now c nu a) (ht : nu.isTracking = true) :
    nu.lastConnectedTime = 0 ↔ c = false := by
  simpa using (h.open_iff ht).not

theorem connect (h : Agrees now c nu a) (hnow : 0 < now) :
    Agrees now true (nu.connect now) a := by
  by_cases hs : nu.isTracking = true ∧ nu.lastConnectedTime = 0
  · -- counting starts now, so the open interval is empty
    obtain ⟨ht, hl⟩ := hs
    have he : nu.connect now = { nu with lastConnectedTime := now } := by
      simp [NodeUptime.connect, ht, hl]
    rw [he]
    refine ⟨h.tracking, ?_, fun _ => by simpa using hnow.ne', fun hf => by simp_all⟩
    rw [← h.uptime]
    simp [NodeUptime.uptimeAt, ht, hl, hnow.ne', timeSub]
  · have he : nu.connect now = nu := by
      simp only [NodeUptime.connect]
      rw [if_neg (by simpa using hs)]
    rw [he]
    refine ⟨h.tracking, h.uptime, fun ht => ?_, h.closed⟩
    have hl : nu.lastConnectedTime ≠ 0 := fun hl => hs ⟨ht, hl⟩
    simp [hl]

theorem disconnect (h : Agrees now c nu a) : Agrees now false (nu.disconnect now) a := by
  by_cases hs : nu.isTracking = true ∧ nu.lastConnectedTime ≠ 0
  · -- the open interval moves into the accumulated uptime
    obtain ⟨ht, hl⟩ := hs
    have he : nu.disconnect now = { nu with
        accumulatedUptime := nu.accumulatedUptime + timeSub now nu.lastConnectedTime
        lastConnectedTime := 0 } := by
      simp [NodeUptime.disconnect, ht, hl]
    rw [he]
    refine ⟨h.tracking, ?_, by simp, fun _ => rfl⟩
    rw [← h.uptime]
    simp [NodeUptime.uptimeAt, ht, hl]
    omega
  · -- no interval is open, tracked or not
    have hl : nu.lastConnectedTime = 0 := by
      cases ht : nu.isTracking
      · exact h.closed ht
      · simpa [ht] using hs
    have he : nu.disconnect now = nu := by
      cases nu
      simp_all [NodeUptime.disconnect]
    rw [he]
    exact { h with open_iff := fun _ => by simp [hl] }

theorem startTracking (h : Agrees now c nu a) (hnow : 0 < now) :
    Agrees now c (nu.startTracking now c) { a with tracking := true } := by
  cases ht : nu.isTracking
  · have hl := h.closed ht
    have hu := h.uptime
    simp [NodeUptime.uptimeAt, ht, hl] at hu
    have he : nu.startTracking now c = { nu with
        preTrackingUptime := nu.preTrackingUptime + timeSub now nu.creationTime
        creationTime := now
        isTracking := true
        lastConnectedTime := if c then now else 0 } := by
      cases c <;> simp [NodeUptime.startTracking, ht, hl]
    rw [he]
    refine ⟨rfl, ?_, ?_, by simp⟩
    · cases c <;> simp [NodeUptime.uptimeAt, hnow.ne', timeSub] at hu ⊢ <;> omega
    · cases c <;> simp [hnow.ne']
  · rw [Account.tracking_eq_self (h.tracking ▸ ht)]
    simpa [NodeUptime.startTracking, ht] using h

theorem stopTracking (h : Agrees now c nu a) (ht : nu.isTracking = true) :
    Agrees now c (nu.stopTracking now) { a with tracking := false } := by
  have he : nu.stopTracking now = { nu with
      accumulatedUptime := nu.accumulatedUptime +
        (if nu.lastConnectedTime ≠ 0 then timeSub now nu.lastConnectedTime else 0)
      lastConnectedTime := 0
      isTracking := false
      creationTime := now } := by
    by_cases hl : nu.lastConnectedTime = 0
    · cases nu
      simp_all [NodeUptime.stopTracking]
    · simp [NodeUptime.stopTracking, hl]
  rw [he]
  refine ⟨rfl, ?_, by simp, fun _ => rfl⟩
  rw [← h.uptime]
  by_cases hl : nu.lastConnectedTime = 0
  · simp [NodeUptime.uptimeAt, ht, hl, timeSub]
  · simp [NodeUptime.uptimeAt, ht, hl, timeSub]
    omega

theorem of_not_tracking (h : Agrees now c nu a) (ht : nu.isTracking = false) :
    Agrees now c nu { a with tracking := false } := by
  rwa [Account.tracking_eq_self (h.tracking ▸ ht)]

theorem advance (h : Agrees now c nu a) (t : ℕ) :
    Agrees t c nu
      (if a.tracking && !c then { a with downtime := a.downtime + timeSub t now } else a) := by
  have hu := h.uptime
  cases ht : nu.isTracking
  · -- untracked: all time is up
    have hl := h.closed ht
    have ha : a.tracking = false := h.tracking ▸ ht
    refine ⟨by simp [ha, ht], ?_, by simp [ht], h.closed⟩
    simp [NodeUptime.uptimeAt, ht, hl, ha, timeSub] at hu ⊢
    omega
  · have ha : a.tracking = true := h.tracking ▸ ht
    cases c
    · -- tracked and disconnected: the time passed is downtime
      have hl := (h.lastConnectedTime_eq_zero ht).mpr rfl
      refine ⟨by simp [ha, ht], ?_, by simp [hl], by simp [ht]⟩
      simp [NodeUptime.uptimeAt, ht, hl, ha, timeSub] at hu ⊢
      omega
    · -- tracked and connected: the open interval grows with the time passed
      have hl : nu.lastConnectedTime ≠ 0 := (h.open_iff ht).mpr rfl
      refine ⟨by simp [ha, ht], ?_, by simp [hl], by simp [ht]⟩
      simp [NodeUptime.uptimeAt, ht, hl, ha, timeSub] at hu ⊢
      omega

end Agrees

section Refinement

theorem setUptime_of_ne (state : UptimeState NodeID NetID) {n k : NodeID} (netID : NetID)
    (v : ℤ) (hk : k ≠ n) : setUptime state n netID v k = state k :=
  Function.update_of_ne hk _ _

namespace Manager

variable (m : Manager NodeID NetID) (n : NodeID)

theorem getOrCreateUptime_fst :
    (m.getOrCreateUptime n).1 = m.putUptime n (m.getOrCreateUptime n).2 := rfl

theorem getOrCreateUptime_snd_of_some {nu : NodeUptime} (hu : m.uptimes n = some nu)
    (hl : m.state.isSome → nu.loadedFromState = true) : (m.getOrCreateUptime n).2 = nu := by
  unfold getOrCreateUptime
  cases hs : m.state
  · simp [hu]
  · simp_all

theorem getOrCreateUptime_snd_of_none (hu : m.uptimes n = none)
    (hrow : ∀ s ∈ m.state, s n m.defaultNetID = none) :
    (m.getOrCreateUptime n).2 = ⟨0, 0, false, 0, m.clock, m.state.isSome⟩ := by
  unfold getOrCreateUptime
  cases hs : m.state
  · simp [hu]
  · simp_all

theorem connect_eq : m.connect n = { m with
    connected := Function.update m.connected n true
    uptimes := Function.update m.uptimes n (some ((m.getOrCreateUptime n).2.connect m.clock)) } := by
  simp only [connect, getOrCreateUptime, putUptime, Function.update_idem]

theorem disconnect_eq : m.disconnect n = { m with
    connected := Function.update m.connected n false
    uptimes :=
      Function.update m.uptimes n (some ((m.getOrCreateUptime n).2.disconnect m.clock)) } := by
  simp only [disconnect, getOrCreateUptime, putUptime, Function.update_idem]

theorem startTrackingOne_eq (now : ℕ) : startTrackingOne now m n = { m with
    uptimes := Function.update m.uptimes n
      (some ((m.getOrCreateUptime n).2.startTracking now (m.connected n))) } := by
  simp only [startTrackingOne, getOrCreateUptime, putUptime, Function.update_idem]

theorem stopTrackingOne_eq (now : ℕ) : stopTrackingOne now m n =
    if (m.getOrCreateUptime n).2.isTracking then
      let nu := (m.getOrCreateUptime n).2.stopTracking now
      { m with
        state := m.state.map fun state =>
          setUptime state n m.defaultNetID (nu.preTrackingUptime + nu.accumulatedUptime)
        uptimes := Function.update m.uptimes n (some nu) }
    else m.putUptime n (m.getOrCreateUptime n).2 := by
  unfold stopTrackingOne
  rw [← getOrCreateUptime_fst]
  cases ht : (m.getOrCreateUptime n).2.isTracking
  · simp [ht]
  · cases hs : m.state <;> simp [ht, hs, putUptime, getOrCreateUptime_fst]

end Manager

namespace Ledger

variable (l : Ledger NodeID) (n : NodeID)

/-- The account `touch` leaves for the node. -/
def accountOf : Account := (l.accounts n).getD ⟨l.clock, false, 0⟩

@[simp] theorem touch_clock : (l.touch n).clock = l.clock := by
  unfold touch; split <;> rfl

@[simp] theorem touch_connected : (l.touch n).connected = l.connected := by
  unfold touch; split <;> rfl

theorem touch_accounts : (l.touch n).accounts = Function.update l.accounts n (some (l.accountOf n)) := by
  unfold touch accountOf
  split
  · rename_i a ha
    simp [ha]
  · simp_all

@[simp] theorem setTracking_clock (b : Bool) : (l.setTracking b n).clock = l.clock := by
  simp [setTracking]

theorem setTracking_eq (b : Bool) : l.setTracking b n = { l with
    accounts := Function.update l.accounts n (some { l.accountOf n with tracking := b }) } := by
  simp [setTracking, touch_accounts]

theorem foldl_setTracking_clock (b : Bool) (ns : List NodeID) (l : Ledger NodeID) :
    (ns.foldl (setTracking b) l).clock = l.clock := by
  induction ns generalizing l with
  | nil => rfl
  | cons n ns ih => rw [List.foldl_cons, ih, setTracking_clock]

theorem advance_accounts (t : ℕ) : (l.advance t).accounts n = (l.accounts n).map fun a =>
    if a.tracking && !l.connected n then { a with downtime := a.downtime + timeSub t l.clock }
    else a := rfl

end Ledger

namespace ClockOk

variable {l : Ledger NodeID} {op : Op NodeID} {ops : List (Op NodeID)}

theorem head (hc : ClockOk l.clock (op :: ops)) : ∀ t, op = .setClock t → l.clock ≤ t := by
  rintro t rfl
  exact hc.1

theorem tail (hc : ClockOk l.clock (op :: ops)) : ClockOk (l.step op).clock ops := by
  cases op with
  | setClock t => exact hc.2
  | startTracking ns => rw [Ledger.step, Ledger.foldl_setTracking_clock]; exact hc
  | stopTracking ns => rw [Ledger.step, Ledger.foldl_setTracking_clock]; exact hc
  | connect n | disconnect n | ensureExists n => simpa [Ledger.step, ClockOk] using hc

end ClockOk

/-- How a node's entry stands to its account, given its persisted row (`none` when
there is no state), the time and its connection. -/
def NodeRel (row : Option (NetID → Option ℤ)) (now : ℕ) (c : Bool) :
    Option NodeUptime → Option Account → Prop
  | some nu, some a => Agrees now c nu a ∧ (row.isSome → nu.loadedFromState = true)
  | none, none => ∀ r ∈ row, ∀ netID, r netID = none
  | _, _ => False

/-- The manager refines the ledger: the same clock, which is past the zero time, the
same connections, and every node related to its account. -/
structure Refines (m : Manager NodeID NetID) (l : Ledger NodeID) : Prop where
  clock : m.clock = l.clock
  clock_pos : 0 < m.clock
  connected : m.connected = l.connected
  nodes : ∀ n, NodeRel (m.state.map (· n)) m.clock (m.connected n) (m.uptimes n) (l.accounts n)

namespace Refines

variable {m m' : Manager NodeID NetID} {l l' : Ledger NodeID}

theorem newManager (state : Option (UptimeState NodeID NetID)) {now : ℕ} (defaultNetID : NetID)
    (hnow : 0 < now) (hstate : ∀ s ∈ state, ∀ n netID, s n netID = none) :
    Refines (newManager state now defaultNetID) (Ledger.init now) where
  clock := rfl
  clock_pos := hnow
  connected := rfl
  nodes n := by
    cases state <;> simp_all [NodeRel, Uptime.newManager, Ledger.init]

theorem entry (h : Refines m l) (n : NodeID) :
    Agrees m.clock (m.connected n) (m.getOrCreateUptime n).2 (l.accountOf n) ∧
      (m.state.isSome → (m.getOrCreateUptime n).2.loadedFromState = true) := by
  have hn := h.nodes n
  unfold Ledger.accountOf
  cases hu : m.uptimes n <;> cases ha : l.accounts n <;> simp only [NodeRel, hu, ha] at hn
  · -- a new node: both sides start it now
    have hrow : ∀ s ∈ m.state, s n m.defaultNetID = none := by
      intro s hs
      exact hn _ (Option.mem_map_of_mem _ hs) _
    rw [m.getOrCreateUptime_snd_of_none n hu hrow, ← h.clock]
    exact ⟨Agrees.fresh _ _ _, fun hs => hs⟩
  · rw [m.getOrCreateUptime_snd_of_some n hu (by simpa using hn.2)]
    simpa using hn

theorem of_update (h : Refines m l) (n : NodeID) (hclock : m'.clock = m.clock)
    (hlclock : l'.clock = l.clock) (hconn : m'.connected = l'.connected)
    (hconn_ne : ∀ k ≠ n, m'.connected k = m.connected k)
    (hrow : ∀ k ≠ n, m'.state.map (· k) = m.state.map (· k))
    (hu : ∀ k ≠ n, m'.uptimes k = m.uptimes k) (ha : ∀ k ≠ n, l'.accounts k = l.accounts k)
    (hn : NodeRel (m'.state.map (· n)) m'.clock (m'.connected n) (m'.uptimes n) (l'.accounts n)) :
    Refines m' l' where
  clock := by rw [hclock, hlclock, h.clock]
  clock_pos := hclock ▸ h.clock_pos
  connected := hconn
  nodes k := by
    by_cases hk : k = n
    · subst hk; exact hn
    · rw [hrow k hk, hclock, hconn_ne k hk, hu k hk, ha k hk]
      exact h.nodes k

theorem connect (h : Refines m l) (n : NodeID) :
    Refines (m.connect n) (l.step (.connect n)) := by
  obtain ⟨hag, hl⟩ := h.entry n
  refine h.of_update n rfl (by simp [Ledger.step]) ?_ ?_ (fun _ _ => rfl) ?_ ?_ ?_ <;>
    simp only [Manager.connect_eq, Ledger.step, Ledger.touch_accounts]
  · rw [h.connected]
  · intro k hk; simp [hk]
  · intro k hk; simp [hk]
  · intro k hk; simp [hk]
  · simp only [Function.update_self, NodeRel]
    exact ⟨hag.connect h.clock_pos, by simpa using hl⟩

theorem disconnect (h : Refines m l) (n : NodeID) :
    Refines (m.disconnect n) (l.step (.disconnect n)) := by
  obtain ⟨hag, hl⟩ := h.entry n
  refine h.of_update n rfl (by simp [Ledger.step]) ?_ ?_ (fun _ _ => rfl) ?_ ?_ ?_ <;>
    simp only [Manager.disconnect_eq, Ledger.step, Ledger.touch_accounts]
  · rw [h.connected]
  · intro k hk; simp [hk]
  · intro k hk; simp [hk]
  · intro k hk; simp [hk]
  · simp only [Function.update_self, NodeRel]
    exact ⟨hag.disconnect, by simpa using hl⟩

theorem ensureExists (h : Refines m l) (n : NodeID) :
    Refines (m.ensureExists n) (l.step (.ensureExists n)) := by
  obtain ⟨hag, hl⟩ := h.entry n
  refine h.of_update n rfl (by simp [Ledger.step]) ?_ (fun _ _ => rfl) (fun _ _ => rfl) ?_ ?_ ?_ <;>
    simp only [Manager.ensureExists, Manager.getOrCreateUptime_fst, Manager.putUptime, Ledger.step,
      Ledger.touch_accounts, Ledger.touch_connected]
  · exact h.connected
  · intro k hk; simp [hk]
  · intro k hk; simp [hk]
  · simp only [Function.update_self, NodeRel]
    exact ⟨hag, by simpa using hl⟩

theorem startTrackingOne (h : Refines m l) (n : NodeID) :
    Refines (Manager.startTrackingOne m.clock m n) (l.setTracking true n) := by
  obtain ⟨hag, hl⟩ := h.entry n
  refine h.of_update n rfl (by simp) ?_ (fun _ _ => rfl) (fun _ _ => rfl) ?_ ?_ ?_ <;>
    simp only [Manager.startTrackingOne_eq, Ledger.setTracking_eq]
  · exact h.connected
  · intro k hk; simp [hk]
  · intro k hk; simp [hk]
  · simp only [Function.update_self, NodeRel]
    exact ⟨hag.startTracking h.clock_pos, by simpa using hl⟩

theorem stopTrackingOne (h : Refines m l) (n : NodeID) :
    Refines (Manager.stopTrackingOne m.clock m n) (l.setTracking false n) := by
  obtain ⟨hag, hl⟩ := h.entry n
  rw [Manager.stopTrackingOne_eq]
  split_ifs with ht
  · -- a tracked node stops, and its total is persisted in its own row
    refine h.of_update n rfl (by simp) ?_ (fun _ _ => rfl) ?_ ?_ ?_ ?_ <;>
      simp only [Ledger.setTracking_eq]
    · exact h.connected
    · intro k hk
      cases m.state <;> simp [setUptime_of_ne _ _ _ hk]
    · intro k hk; simp [hk]
    · intro k hk; simp [hk]
    · simp only [Function.update_self, NodeRel]
      exact ⟨hag.stopTracking ht, by simpa using hl⟩
  · -- an untracked node is only created
    have ht : (m.getOrCreateUptime n).2.isTracking = false := by simpa using ht
    refine h.of_update n rfl (by simp) ?_ (fun _ _ => rfl) (fun _ _ => rfl) ?_ ?_ ?_ <;>
      simp only [Manager.putUptime, Ledger.setTracking_eq]
    · exact h.connected
    · intro k hk; simp [hk]
    · intro k hk; simp [hk]
    · simp only [Function.update_self, NodeRel]
      exact ⟨hag.of_not_tracking ht, by simpa using hl⟩

theorem startTracking (h : Refines m l) (ns : List NodeID) :
    Refines (m.startTracking ns) (l.step (.startTracking ns)) := by
  simp only [Manager.startTracking, Ledger.step]
  generalize hnow : m.clock = now
  induction ns generalizing m l with
  | nil => exact h
  | cons n ns ih =>
    subst hnow
    exact ih (h.startTrackingOne n) rfl

theorem stopTracking (h : Refines m l) (ns : List NodeID) :
    Refines (m.stopTracking ns) (l.step (.stopTracking ns)) := by
  simp only [Manager.stopTracking, Ledger.step]
  generalize hnow : m.clock = now
  induction ns generalizing m l with
  | nil => exact h
  | cons n ns ih =>
    subst hnow
    refine ih (h.stopTrackingOne n) ?_
    rw [Manager.stopTrackingOne_eq]
    split_ifs <;> rfl

theorem setClock (h : Refines m l) {t : ℕ} (ht : l.clock ≤ t) :
    Refines (m.step (.setClock t)) (l.step (.setClock t)) where
  clock := rfl
  clock_pos := by
    have := h.clock_pos
    rw [h.clock] at this
    exact lt_of_lt_of_le this ht
  connected := h.connected
  nodes k := by
    have hk := h.nodes k
    simp only [Manager.step, Ledger.step, Ledger.advance_accounts]
    cases hu : m.uptimes k <;> cases ha : l.accounts k <;>
      simp only [NodeRel, hu, ha, Option.map] at hk ⊢
    · exact hk
    · refine ⟨?_, hk.2⟩
      rw [← h.connected, ← h.clock]
      exact hk.1.advance t

theorem step (h : Refines m l) (op : Op NodeID) (hop : ∀ t, op = .setClock t → l.clock ≤ t) :
    Refines (m.step op) (l.step op) := by
  cases op with
  | connect n => exact h.connect n
  | disconnect n => exact h.disconnect n
  | startTracking ns => exact h.startTracking ns
  | stopTracking ns => exact h.stopTracking ns
  | ensureExists n => exact h.ensureExists n
  | setClock t => exact h.setClock (hop t rfl)

/-- Over every run whose clock never goes back, the manager refines the ledger. -/
theorem run (h : Refines m l) (ops : List (Op NodeID)) (hc : ClockOk l.clock ops) :
    Refines (m.run ops) (l.run ops) := by
  induction ops generalizing m l with
  | nil => exact h
  | cons op ops ih => exact ih (h.step op hc.head) hc.tail

end Refines

namespace Manager

variable (m : Manager NodeID NetID) (n : NodeID) (chainID : NetID)

theorem calculateUptime_of_some {nu : NodeUptime} (hu : m.uptimes n = some nu) :
    m.calculateUptime n chainID = (nu.uptimeAt m.clock, nu.uptimeAt m.clock) := by
  simp only [calculateUptime, hu, NodeUptime.uptimeAt]
  cases nu.isTracking <;> by_cases hl : nu.lastConnectedTime = 0 <;> simp [hl]

/-- `CalculateUptime` always reports its uptime as the total. -/
theorem calculateUptime_snd : (m.calculateUptime n chainID).2 = (m.calculateUptime n chainID).1 := by
  unfold calculateUptime
  split
  · split
    · split
      · split <;> rfl
      · rfl
    · rfl
  · rfl

theorem calculateUptimePercent_eq_one : m.calculateUptimePercent n chainID = 1 := by
  have hx := m.calculateUptime_snd n chainID
  unfold calculateUptimePercent
  rcases hc : m.calculateUptime n chainID with ⟨uptime, total⟩
  rw [hc] at hx
  dsimp only at hx ⊢
  subst hx
  split_ifs with h0
  · rfl
  · exact div_self (by exact_mod_cast h0)

end Manager

/-- `CalculateUptime` reports, as uptime and as total alike, the node's known time
less the time it was tracked while disconnected. -/
theorem Refines.calculateUptime_eq {m : Manager NodeID NetID} {l : Ledger NodeID}
    (h : Refines m l) (n : NodeID) (chainID : NetID) :
    m.calculateUptime n chainID = (l.lifetime n - l.downtime n, l.lifetime n - l.downtime n) := by
  have hn := h.nodes n
  cases hu : m.uptimes n <;> cases ha : l.accounts n <;> simp only [NodeRel, hu, ha] at hn
  · -- a node never seen has no persisted row either
    have hrow : ∀ s ∈ m.state, s n chainID = none := fun s hs =>
      hn _ (Option.mem_map_of_mem _ hs) _
    simp only [Manager.calculateUptime, hu, Ledger.lifetime, Ledger.downtime, ha]
    cases hs : m.state with
    | none => rfl
    | some s => simp [hrow s hs]
  · rw [m.calculateUptime_of_some n chainID hu, hn.1.uptime, h.clock]
    simp [Ledger.lifetime, Ledger.downtime, ha]

end Refinement

/-! ## The ledger's bounds -/

/-- An account created by `now`, whose downtime lies between zero and its known time. -/
structure AccountOk (now : ℕ) (a : Account) : Prop where
  created_le : a.created ≤ now
  downtime_nonneg : 0 ≤ a.downtime
  downtime_le : a.downtime ≤ timeSub now a.created

theorem AccountOk.advance {now t : ℕ} {a : Account} (h : AccountOk now a) (ht : now ≤ t)
    (c : Bool) :
    AccountOk t
      (if a.tracking && !c then { a with downtime := a.downtime + timeSub t now } else a) := by
  obtain ⟨hc, h0, hd⟩ := h
  unfold timeSub at hd
  split
  · exact ⟨hc.trans ht, by simp [timeSub]; omega, by simp [timeSub]; omega⟩
  · exact ⟨hc.trans ht, h0, by simp [timeSub]; omega⟩

namespace Ledger

def Sound (l : Ledger NodeID) : Prop := ∀ n a, l.accounts n = some a → AccountOk l.clock a

variable {l : Ledger NodeID}

theorem init_sound (now : ℕ) : (init now : Ledger NodeID).Sound := by
  intro n a h
  cases h

theorem Sound.accountOf (hs : l.Sound) (n : NodeID) : AccountOk l.clock (l.accountOf n) := by
  unfold Ledger.accountOf
  cases ha : l.accounts n with
  | none => exact ⟨le_rfl, le_rfl, by simp [timeSub]⟩
  | some a => exact hs n a ha

theorem Sound.update (hs : l.Sound) {l' : Ledger NodeID} (n : NodeID) {a : Account}
    (hclock : l'.clock = l.clock) (hacc : l'.accounts = Function.update l.accounts n (some a))
    (ha : AccountOk l.clock a) : l'.Sound := by
  intro k b hk
  rw [hacc] at hk
  rw [hclock]
  by_cases hkn : k = n
  · subst hkn
    rw [Function.update_self, Option.some.injEq] at hk
    subst hk
    exact ha
  · rw [Function.update_of_ne hkn] at hk
    exact hs k b hk

theorem Sound.touch (hs : l.Sound) (n : NodeID) : (l.touch n).Sound :=
  hs.update n (touch_clock l n) (touch_accounts l n) (hs.accountOf n)

theorem Sound.setTracking (hs : l.Sound) (b : Bool) (n : NodeID) : (l.setTracking b n).Sound := by
  have ha := hs.accountOf n
  rw [setTracking_eq]
  exact hs.update n rfl rfl ⟨ha.created_le, ha.downtime_nonneg, ha.downtime_le⟩

theorem Sound.foldl_setTracking (hs : l.Sound) (b : Bool) (ns : List NodeID) :
    (ns.foldl (Ledger.setTracking b) l).Sound := by
  induction ns generalizing l with
  | nil => exact hs
  | cons n ns ih => exact ih (hs.setTracking b n)

theorem Sound.advance (hs : l.Sound) {t : ℕ} (ht : l.clock ≤ t) : (l.advance t).Sound := by
  intro k b hk
  rw [advance_accounts, Option.map_eq_some_iff] at hk
  obtain ⟨a, ha, rfl⟩ := hk
  exact (hs k a ha).advance ht _

theorem Sound.step (hs : l.Sound) (op : Op NodeID) (hop : ∀ t, op = .setClock t → l.clock ≤ t) :
    (l.step op).Sound := by
  cases op with
  | connect n | disconnect n | ensureExists n => exact hs.touch n
  | startTracking ns | stopTracking ns => exact hs.foldl_setTracking _ ns
  | setClock t => exact hs.advance (hop t rfl)

theorem Sound.run (hs : l.Sound) (ops : List (Op NodeID)) (hc : ClockOk l.clock ops) :
    (l.run ops).Sound := by
  induction ops generalizing l with
  | nil => exact hs
  | cons op ops ih => exact ih (hs.step op hc.head) hc.tail

theorem Sound.downtime_le_lifetime (hs : l.Sound) (n : NodeID) :
    0 ≤ l.downtime n ∧ l.downtime n ≤ l.lifetime n := by
  unfold downtime lifetime
  cases ha : l.accounts n with
  | none => simp
  | some a => exact ⟨(hs n a ha).downtime_nonneg, (hs n a ha).downtime_le⟩

end Ledger

/-! ## Runs from a new manager -/

section Runs

variable (state : Option (UptimeState NodeID NetID)) {now : ℕ} (defaultNetID : NetID)

/-- Over every run from a new manager with nothing persisted and a clock that never
goes back, `CalculateUptime` reports as uptime and as total alike the node's known
time less the time it was tracked while disconnected. -/
theorem calculateUptime_run (hnow : 0 < now) (hstate : ∀ s ∈ state, ∀ n netID, s n netID = none)
    (ops : List (Op NodeID)) (hc : ClockOk now ops) (n : NodeID) (chainID : NetID) :
    ((newManager state now defaultNetID).run ops).calculateUptime n chainID =
      (((Ledger.init now).run ops).lifetime n - ((Ledger.init now).run ops).downtime n,
        ((Ledger.init now).run ops).lifetime n - ((Ledger.init now).run ops).downtime n) :=
  ((Refines.newManager state defaultNetID hnow hstate).run ops hc).calculateUptime_eq n chainID

/-- The reported uptime is never negative, and never above the known time. -/
theorem calculateUptime_run_mem (hnow : 0 < now)
    (hstate : ∀ s ∈ state, ∀ n netID, s n netID = none) (ops : List (Op NodeID))
    (hc : ClockOk now ops) (n : NodeID) (chainID : NetID) :
    0 ≤ (((newManager state now defaultNetID).run ops).calculateUptime n chainID).1 ∧
      (((newManager state now defaultNetID).run ops).calculateUptime n chainID).1 ≤
        ((Ledger.init now).run ops).lifetime n := by
  have hb := ((Ledger.init_sound now).run ops hc).downtime_le_lifetime n
  rw [calculateUptime_run state defaultNetID hnow hstate ops hc]
  constructor <;> simp only <;> omega

end Runs

def halfDownRun : List (Op ℕ) :=
  [.startTracking [0], .connect 0, .setClock 110, .disconnect 0, .setClock 120]

theorem uptime_ignores_disconnected_time :
    ClockOk 100 halfDownRun ∧ ((Ledger.init 100).run halfDownRun).downtime 0 = 10 ∧
      ((newManager none 100 ()).run halfDownRun).calculateUptime 0 () = (10, 10) ∧
      ((newManager none 100 ()).run halfDownRun).calculateUptimePercent 0 () = 1 :=
  ⟨by simp [ClockOk, halfDownRun], by decide, by decide,
    Manager.calculateUptimePercent_eq_one _ _ _⟩

end Manager

end LuxEvm.Uptime

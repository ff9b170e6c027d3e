import LuxEvm.Validators.Uptime

/-!
# The pausable uptime manager

`pausableManager` wraps the uptime manager: a validator that the validator
state marks inactive is paused, and a paused node is kept disconnected in the
inner manager so that it accrues no uptime. Five entry points move three sets:
`Connect` and `Disconnect` from the network, and the state callbacks that pause
and resume. Over every sequence of those calls, interleaved with the inner
manager's own `StartTracking`, `StopTracking` and clock moves, the inner
connected set stays `connectedVdrs \ pausedVdrs` (`ConnectedInv.run`), so the
branch of `Disconnect` that its comment calls unreachable is never taken
(`pausable_connected_eq_diff`).

The validation ID and weight the callbacks take are not read and are left out.
-/

set_option autoImplicit false
set_option linter.unusedSectionVars false

namespace LuxEvm.Uptime

/-- `errPausedDisconnect`: "paused node cannot be disconnected". -/
inductive PausableError where
  | pausedDisconnect
  deriving DecidableEq, Repr

/-- `pausableManager`: the inner `Manager` and the two node sets. -/
structure PausableManager (NodeID NetID : Type) where
  manager : Manager NodeID NetID
  pausedVdrs : NodeID → Bool
  connectedVdrs : NodeID → Bool

/-- The calls of the `PausableManager` interface that change state. -/
inductive PausableOp (NodeID : Type) where
  | connect (nodeID : NodeID)
  | disconnect (nodeID : NodeID)
  | onValidatorAdded (nodeID : NodeID) (isActive : Bool)
  | onValidatorRemoved (nodeID : NodeID)
  | onValidatorStatusUpdated (nodeID : NodeID) (isActive : Bool)
  | startTracking (nodeIDs : List NodeID)
  | stopTracking (nodeIDs : List NodeID)
  /-- the inner manager's mockable clock is set -/
  | setClock (time : ℕ)

section Pausable

variable {NodeID NetID : Type} [DecidableEq NodeID] [DecidableEq NetID]

/-- `NewPausableManager`. -/
def newPausableManager (manager : Manager NodeID NetID) : PausableManager NodeID NetID :=
  ⟨manager, fun _ => false, fun _ => false⟩

namespace PausableManager

def isPaused (p : PausableManager NodeID NetID) (nodeID : NodeID) : Bool := p.pausedVdrs nodeID

def isConnected (p : PausableManager NodeID NetID) (nodeID : NodeID) : Bool :=
  p.connectedVdrs nodeID

/-- `Connect`: a paused node is not connected in the inner manager, whose
`Connect` returns no error. -/
def connect (p : PausableManager NodeID NetID) (nodeID : NodeID) : PausableManager NodeID NetID :=
  let p := { p with connectedVdrs := Function.update p.connectedVdrs nodeID true }
  if !p.isPaused nodeID && !p.manager.connected nodeID then
    { p with manager := p.manager.connect nodeID }
  else p

/-- `Disconnect`, with the error it returns. -/
def disconnect (p : PausableManager NodeID NetID) (nodeID : NodeID) :
    PausableManager NodeID NetID × Option PausableError :=
  let p := { p with connectedVdrs := Function.update p.connectedVdrs nodeID false }
  if p.manager.connected nodeID then
    if p.isPaused nodeID then (p, some .pausedDisconnect)
    else ({ p with manager := p.manager.disconnect nodeID }, none)
  else (p, none)

/-- `pause`: the node's entry is created, and a connected node is disconnected
in the inner manager. -/
def pause (p : PausableManager NodeID NetID) (nodeID : NodeID) : PausableManager NodeID NetID :=
  let p := { p with manager := p.manager.ensureExists nodeID }
  let p := { p with pausedVdrs := Function.update p.pausedVdrs nodeID true }
  if p.manager.connected nodeID then { p with manager := p.manager.disconnect nodeID } else p

/-- `resume`: a node connected to the wrapper is connected in the inner manager. -/
def resume (p : PausableManager NodeID NetID) (nodeID : NodeID) : PausableManager NodeID NetID :=
  let p := { p with pausedVdrs := Function.update p.pausedVdrs nodeID false }
  if p.connectedVdrs nodeID && !p.manager.connected nodeID then
    { p with manager := p.manager.connect nodeID }
  else p

def onValidatorAdded (p : PausableManager NodeID NetID) (nodeID : NodeID) (isActive : Bool) :
    PausableManager NodeID NetID :=
  if !isActive then p.pause nodeID else p

def onValidatorRemoved (p : PausableManager NodeID NetID) (nodeID : NodeID) :
    PausableManager NodeID NetID :=
  if p.isPaused nodeID then p.resume nodeID else p

def onValidatorStatusUpdated (p : PausableManager NodeID NetID) (nodeID : NodeID)
    (isActive : Bool) : PausableManager NodeID NetID :=
  if isActive then p.resume nodeID else p.pause nodeID

def step (p : PausableManager NodeID NetID) :
    PausableOp NodeID → PausableManager NodeID NetID × Option PausableError
  | .connect nodeID => (p.connect nodeID, none)
  | .disconnect nodeID => p.disconnect nodeID
  | .onValidatorAdded nodeID isActive => (p.onValidatorAdded nodeID isActive, none)
  | .onValidatorRemoved nodeID => (p.onValidatorRemoved nodeID, none)
  | .onValidatorStatusUpdated nodeID isActive => (p.onValidatorStatusUpdated nodeID isActive, none)
  | .startTracking nodeIDs => ({ p with manager := p.manager.startTracking nodeIDs }, none)
  | .stopTracking nodeIDs => ({ p with manager := p.manager.stopTracking nodeIDs }, none)
  | .setClock time => ({ p with manager := { p.manager with clock := time } }, none)

def run (p : PausableManager NodeID NetID) (ops : List (PausableOp NodeID)) :
    PausableManager NodeID NetID :=
  ops.foldl (fun p op => (p.step op).1) p

end PausableManager

/-! ## The inner connected set -/

namespace Manager

variable (m : Manager NodeID NetID) (n : NodeID)

@[simp] theorem connected_connect : (m.connect n).connected = Function.update m.connected n true := by
  rw [connect_eq]

@[simp] theorem connected_disconnect :
    (m.disconnect n).connected = Function.update m.connected n false := by
  rw [disconnect_eq]

@[simp] theorem connected_ensureExists : (m.ensureExists n).connected = m.connected := rfl

theorem connected_foldl {f : Manager NodeID NetID → NodeID → Manager NodeID NetID}
    (hf : ∀ m n, (f m n).connected = m.connected) (ns : List NodeID) :
    ∀ m : Manager NodeID NetID, (ns.foldl f m).connected = m.connected := by
  induction ns with
  | nil => intro m; rfl
  | cons k ns ih =>
    intro m
    rw [List.foldl_cons, ih, hf]

@[simp] theorem connected_startTracking (ns : List NodeID) :
    (m.startTracking ns).connected = m.connected :=
  connected_foldl (fun m n => by rw [startTrackingOne_eq]) ns m

@[simp] theorem connected_stopTracking (ns : List NodeID) :
    (m.stopTracking ns).connected = m.connected := by
  refine connected_foldl (fun m n => ?_) ns m
  rw [stopTrackingOne_eq]
  split_ifs <;> rfl

end Manager

namespace PausableManager

abbrev ConnectedInv (p : PausableManager NodeID NetID) : Prop :=
  ∀ n, p.manager.connected n = (p.connectedVdrs n && !p.pausedVdrs n)

variable {p : PausableManager NodeID NetID}

theorem ConnectedInv.new {m : Manager NodeID NetID} (hm : ∀ n, m.connected n = false) :
    (newPausableManager m).ConnectedInv := by
  intro n
  simp [newPausableManager, hm n]

theorem ConnectedInv.connect (inv : p.ConnectedInv) (n : NodeID) : (p.connect n).ConnectedInv := by
  intro k
  have hk := inv k
  unfold PausableManager.connect isPaused
  dsimp only
  by_cases hkn : k = n
  · subst hkn
    split_ifs with h <;> simp_all
  · split_ifs <;> simp [Function.update_of_ne hkn, hk]

theorem ConnectedInv.disconnect (inv : p.ConnectedInv) (n : NodeID) :
    (p.disconnect n).1.ConnectedInv := by
  intro k
  have hk := inv k
  unfold PausableManager.disconnect isPaused
  dsimp only
  by_cases hkn : k = n
  · subst hkn
    split_ifs <;> simp_all
  · split_ifs <;> simp [Function.update_of_ne hkn, hk]

theorem ConnectedInv.disconnect_snd (inv : p.ConnectedInv) (n : NodeID) :
    (p.disconnect n).2 = none := by
  have hn := inv n
  unfold PausableManager.disconnect isPaused
  dsimp only
  split_ifs with hc hp
  · -- connected inside, so not paused
    simp [hc, hp] at hn
  · rfl
  · rfl

theorem ConnectedInv.pause (inv : p.ConnectedInv) (n : NodeID) : (p.pause n).ConnectedInv := by
  intro k
  have hk := inv k
  unfold PausableManager.pause
  dsimp only
  by_cases hkn : k = n
  · subst hkn
    split_ifs with h
    · simp
    · simpa using h
  · split_ifs <;> simp [Function.update_of_ne hkn, hk]

theorem ConnectedInv.resume (inv : p.ConnectedInv) (n : NodeID) : (p.resume n).ConnectedInv := by
  intro k
  have hk := inv k
  unfold PausableManager.resume
  dsimp only
  by_cases hkn : k = n
  · subst hkn
    split_ifs with h <;> simp_all
  · split_ifs <;> simp [Function.update_of_ne hkn, hk]

theorem ConnectedInv.step (inv : p.ConnectedInv) (op : PausableOp NodeID) :
    (p.step op).1.ConnectedInv := by
  cases op with
  | connect n => exact inv.connect n
  | disconnect n => exact inv.disconnect n
  | onValidatorAdded n isActive =>
    show (p.onValidatorAdded n isActive).ConnectedInv
    unfold onValidatorAdded
    split_ifs
    · exact inv.pause n
    · exact inv
  | onValidatorRemoved n =>
    show (p.onValidatorRemoved n).ConnectedInv
    unfold onValidatorRemoved
    split_ifs
    · exact inv.resume n
    · exact inv
  | onValidatorStatusUpdated n isActive =>
    show (p.onValidatorStatusUpdated n isActive).ConnectedInv
    unfold onValidatorStatusUpdated
    split_ifs
    · exact inv.resume n
    · exact inv.pause n
  | startTracking ns => exact fun k => by simp [PausableManager.step, inv k]
  | stopTracking ns => exact fun k => by simp [PausableManager.step, inv k]
  | setClock t => exact inv

theorem ConnectedInv.run (ops : List (PausableOp NodeID)) :
    ∀ {p : PausableManager NodeID NetID}, p.ConnectedInv → (p.run ops).ConnectedInv := by
  induction ops with
  | nil => intro p inv; exact inv
  | cons op ops ih =>
    intro p inv
    exact ih (inv.step op)

end PausableManager

/-- **The inner connected set is `connectedVdrs \ pausedVdrs`.** From
`NewPausableManager(NewManager(..))`, after every sequence of calls, a node is
connected in the inner manager exactly when it is connected to the wrapper and
not paused, and `Disconnect` returns no error. -/
theorem pausable_connected_eq_diff (state : Option (UptimeState NodeID NetID)) (now : ℕ)
    (defaultNetID : NetID) (ops : List (PausableOp NodeID)) :
    (∀ n, ((newPausableManager (newManager state now defaultNetID)).run ops).manager.connected n =
        (((newPausableManager (newManager state now defaultNetID)).run ops).connectedVdrs n &&
          !((newPausableManager (newManager state now defaultNetID)).run ops).pausedVdrs n)) ∧
      ∀ n, (((newPausableManager (newManager state now defaultNetID)).run ops).disconnect n).2 =
        none := by
  have inv := PausableManager.ConnectedInv.run ops
    (PausableManager.ConnectedInv.new (m := newManager state now defaultNetID) fun _ => rfl)
  exact ⟨inv, inv.disconnect_snd⟩

end Pausable

end LuxEvm.Uptime

import LuxEvm.Validators.State

/-!
# Validator sync

`loadValidators` makes the stored validators the current set. It deletes
every validation ID of a snapshot of the state that the new set lacks,
dropping the errors, then updates each validator of the new set whose ID the
snapshot has and adds the others, returning at the first error. Every
validator it writes starts at time `0`, is active and is not an L1 validator.

Over every state reached through `loadValidators` alone, failed syncs
included, the record map and the index stay inverse and every record keeps
those constants (`SyncInv`). From such a state, for a new set whose node IDs
are distinct and that keeps the node ID of every validator the state already
has, `loadValidators` succeeds and leaves exactly the new set, each record with
its node ID and weight and active (`loadValidators_syncs`). A new set that
moves a validation ID to another node stops at `UpdateValidator`'s
immutable-field check, after the deletions (`loadValidators_moved_node_fails`).
-/

set_option autoImplicit false

namespace LuxEvm.ValidatorState
open Lib.StateRel

/-- `GetValidatorOutput`, the fields `loadValidators` reads. -/
structure ValidatorOutput where
  nodeID : NodeID
  weight : UInt64
  deriving DecidableEq, Repr

/-- `map[ids.ID]*GetValidatorOutput`, its entries in the order the loop visits
them. -/
abbrev ValidatorSet := AList fun _ : ID => ValidatorOutput

/-- The validator `loadValidators` writes for an entry of the new set. -/
def currentVdr (newVID : ID) (newVdr : ValidatorOutput) : Validator :=
  ⟨newVID, newVdr.nodeID, newVdr.weight, 0, true, false⟩

/-- `GetValidationIDs()`: the IDs with a record, in the order a loop visits
them. -/
def State.ValidationIDs (s : State) (currentValidationIDs : List ID) : Prop :=
  ∀ vID, vID ∈ currentValidationIDs ↔ (s.data vID).isSome

/-- The delete loop: every ID of the snapshot that the new set lacks is
deleted, the error dropped. -/
def deleteMissing (newValidators : ValidatorSet) (s : State) (currentValidationIDs : List ID) : State :=
  currentValidationIDs.foldl
    (fun s vID => if vID ∈ newValidators then s else (s.deleteValidator vID).1) s

/-- The body of the load loop: an update when the snapshot has the ID, else an
addition. -/
def loadNewValidator (currentValidationIDs : List ID) (s : State)
    (entry : Sigma fun _ : ID => ValidatorOutput) : State × Option StateError :=
  if entry.1 ∈ currentValidationIDs then s.updateValidator (currentVdr entry.1 entry.2)
  else s.addValidator (currentVdr entry.1 entry.2)

/-- `loadValidators`, on the snapshot `currentValidationIDs` of
`GetValidationIDs()`: the state it leaves and its error. -/
def loadValidators (s : State) (currentValidationIDs : List ID) (newValidators : ValidatorSet) :
    State × Option StateError :=
  untilError (loadNewValidator currentValidationIDs)
    (deleteMissing newValidators s currentValidationIDs) newValidators.entries

inductive Reachable : State → Prop
  | init (updatedData : AList fun _ : ID => DbUpdateStatus) (db : Database) :
      Reachable ⟨fun _ => none, fun _ => none, updatedData, db⟩
  /-- a sync, whether it succeeds or not -/
  | load {s : State} {currentValidationIDs : List ID} (newValidators : ValidatorSet) :
      Reachable s → s.ValidationIDs currentValidationIDs →
      Reachable (loadValidators s currentValidationIDs newValidators).1

/-! ## What one call writes -/

namespace State

variable {s : State}

theorem data_deleteValidator (hc : s.Consistent) (vID : ID) :
    (s.deleteValidator vID).1.data = Function.update s.data vID none := by
  unfold State.deleteValidator
  split
  · rename_i hd
    exact (Function.update_eq_self_iff.mpr hd.symm).symm
  · rename_i d hd
    rw [hc.key vID d hd]

theorem updateValidator_eq_none {vdr : Validator} (h : (s.updateValidator vdr).2 = none) :
    ∃ d, s.data vdr.validationID = some d ∧
      (s.updateValidator vdr).1.data = Function.update s.data vdr.validationID
        (some { d with isActive := vdr.isActive, weight := vdr.weight }) := by
  cases hd : s.data vdr.validationID with
  | none => simp [State.updateValidator, hd] at h
  | some d =>
    by_cases hc : constantsAreUnmodified d vdr = true
    · refine ⟨d, rfl, ?_⟩
      rw [updateValidator_of_some hd hc]
      split_ifs <;> rfl
    · simp [State.updateValidator, hd, hc] at h

theorem addValidator_eq_none {vdr : Validator} (h : (s.addValidator vdr).2 = none) :
    (s.addValidator vdr).1.data = Function.update s.data vdr.validationID
      (some ⟨0, vdr.startTimestamp, vdr.nodeID, vdr.weight, vdr.startTimestamp, vdr.isActive,
        vdr.isL1Validator, vdr.validationID⟩) := by
  unfold State.addValidator at h ⊢
  dsimp only at h ⊢
  split at h
  · cases h
  · rename_i s' hs'
    obtain ⟨-, -, rfl⟩ := addData_eq_ok hs'
    rfl

end State

theorem loadNewValidator_eq_step (currentValidationIDs : List ID) (s : State)
    (entry : Sigma fun _ : ID => ValidatorOutput) :
    loadNewValidator currentValidationIDs s entry =
      s.step (if entry.1 ∈ currentValidationIDs then .updateValidator (currentVdr entry.1 entry.2)
        else .addValidator (currentVdr entry.1 entry.2)) := by
  unfold loadNewValidator
  split_ifs <;> rfl

/-! ## The invariant of every synced state -/

/-- A record as sync writes it: start time `0`, not an L1 validator. -/
def Synced (d : ValidatorData) : Prop := d.startTime = 0 ∧ d.isL1Validator = false

/-- The record map and the index are inverse, and every record is one sync
writes. -/
structure SyncInv (s : State) : Prop where
  consistent : s.Consistent
  synced : ∀ vID d, s.data vID = some d → Synced d

theorem synced_update {f : ID → Option ValidatorData} (hf : ∀ vID d, f vID = some d → Synced d)
    (vID : ID) {od : Option ValidatorData} (hod : ∀ d, od = some d → Synced d) :
    ∀ w d, Function.update f vID od w = some d → Synced d := by
  intro w d hw
  rw [Function.update_apply] at hw
  split_ifs at hw
  exacts [hod d hw, hf w d hw]

variable {s : State}

theorem SyncInv.init (updatedData : AList fun _ : ID => DbUpdateStatus) (db : Database) :
    SyncInv ⟨fun _ => none, fun _ => none, updatedData, db⟩ :=
  ⟨State.Consistent.empty db |>.withStore updatedData db, fun _ _ h => nomatch h⟩

theorem SyncInv.deleteValidator (inv : SyncInv s) (vID : ID) : SyncInv (s.deleteValidator vID).1 where
  consistent := inv.consistent.step (.deleteValidator vID)
  synced := by
    rw [State.data_deleteValidator inv.consistent]
    exact synced_update inv.synced vID fun _ h => nomatch h

theorem SyncInv.loadNewValidator (inv : SyncInv s) (currentValidationIDs : List ID)
    (entry : Sigma fun _ : ID => ValidatorOutput) :
    SyncInv (loadNewValidator currentValidationIDs s entry).1 := by
  rw [loadNewValidator_eq_step]
  refine ⟨inv.consistent.step _, ?_⟩
  -- a failed call keeps the state; a successful one writes one record sync's way
  cases herr : (s.step _).2 with
  | some err =>
    rw [State.step_of_error herr]
    exact inv.synced
  | none =>
    split_ifs at herr ⊢ <;> simp only [State.step] at herr ⊢
    · obtain ⟨d, hd, hdata⟩ := State.updateValidator_eq_none herr
      rw [hdata]
      exact synced_update inv.synced _ fun _ h => by
        cases h
        exact inv.synced _ d hd
    · rw [State.addValidator_eq_none herr]
      exact synced_update inv.synced _ fun _ h => by
        cases h
        exact ⟨rfl, rfl⟩

/-- The delete loop keeps the invariant, and removes exactly the IDs of the
snapshot that the new set lacks. -/
theorem deleteMissing_spec (inv : SyncInv s) (newValidators : ValidatorSet)
    (currentValidationIDs : List ID) :
    SyncInv (deleteMissing newValidators s currentValidationIDs) ∧
      ∀ vID, (deleteMissing newValidators s currentValidationIDs).data vID =
        if vID ∈ currentValidationIDs ∧ vID ∉ newValidators then none else s.data vID := by
  induction currentValidationIDs generalizing s with
  | nil => exact ⟨inv, fun _ => by simp [deleteMissing]⟩
  | cons v ids ih =>
    obtain ⟨inv', hdata'⟩ : SyncInv (if v ∈ newValidators then s else (s.deleteValidator v).1) ∧
        ∀ w, (if v ∈ newValidators then s else (s.deleteValidator v).1).data w =
          if w = v ∧ v ∉ newValidators then none else s.data w := by
      by_cases hv : v ∈ newValidators
      · simp [hv, inv]
      · refine ⟨by simpa [hv] using inv.deleteValidator v, fun w => ?_⟩
        simp only [hv, if_false, State.data_deleteValidator inv.consistent, Function.update_apply]
        simp
    obtain ⟨inv'', hdata''⟩ := ih inv'
    refine ⟨inv'', fun w => ?_⟩
    rw [show deleteMissing newValidators s (v :: ids) =
      deleteMissing newValidators (if v ∈ newValidators then s else (s.deleteValidator v).1) ids from rfl,
      hdata'', hdata']
    by_cases hwv : w = v
    · subst hwv
      by_cases hw : w ∈ newValidators <;> simp [hw]
    · simp [hwv]

theorem SyncInv.loadValidators (inv : SyncInv s) (currentValidationIDs : List ID)
    (newValidators : ValidatorSet) :
    SyncInv (loadValidators s currentValidationIDs newValidators).1 :=
  untilError_keeps SyncInv (fun _ e h => h.loadNewValidator currentValidationIDs e) _
    (deleteMissing_spec inv newValidators currentValidationIDs).1

theorem Reachable.syncInv {s : State} (h : Reachable s) : SyncInv s := by
  induction h with
  | init updatedData db => exact SyncInv.init updatedData db
  | load newValidators _ _ ih => exact ih.loadValidators _ newValidators

/-! ## A sync that keeps node IDs succeeds -/

/-- What the load loop has built after a prefix of the new set's entries: the
invariant, each entry done written as sync writes it, every other ID as the
delete loop left it, and no record outside the new set. -/
structure Loading (newValidators : ValidatorSet) (s₁ : State)
    (done : List (Sigma fun _ : ID => ValidatorOutput)) (t : State) : Prop where
  inv : SyncInv t
  loaded : ∀ e ∈ done, ∃ d, t.data e.1 = some d ∧
    d.nodeID = e.2.nodeID ∧ d.weight = e.2.weight ∧ d.isActive = true
  rest : ∀ vID, vID ∉ done.keys → t.data vID = s₁.data vID
  fromSet : ∀ vID d, t.data vID = some d → ∃ o, newValidators.lookup vID = some o ∧ d.nodeID = o.nodeID

variable {newValidators : ValidatorSet} {currentValidationIDs : List ID}

theorem Loading.init (inv : SyncInv s) (hids : s.ValidationIDs currentValidationIDs)
    (hkeep : ∀ vID d o, s.data vID = some d → newValidators.lookup vID = some o → o.nodeID = d.nodeID) :
    Loading newValidators (deleteMissing newValidators s currentValidationIDs) []
      (deleteMissing newValidators s currentValidationIDs) where
  inv := (deleteMissing_spec inv newValidators currentValidationIDs).1
  loaded _ h := nomatch h
  rest _ _ := rfl
  fromSet vID d h := by
    rw [(deleteMissing_spec inv newValidators currentValidationIDs).2] at h
    split_ifs at h with hdel
    have hmem : vID ∈ newValidators := by
      by_contra hv
      exact hdel ⟨(hids vID).mpr (by rw [h]; rfl), hv⟩
    obtain ⟨o, ho⟩ := Option.isSome_iff_exists.mp (AList.lookup_isSome.mpr hmem)
    exact ⟨o, ho, (hkeep vID d o h ho).symm⟩

theorem Loading.write {s₁ t t' : State} {done : List (Sigma fun _ : ID => ValidatorOutput)}
    {e : Sigma fun _ : ID => ValidatorOutput} (ht : Loading newValidators s₁ done t)
    (he : e.1 ∉ done.keys) (hV : newValidators.lookup e.1 = some e.2) (inv' : SyncInv t')
    {d : ValidatorData} (hdata : t'.data = Function.update t.data e.1 (some d))
    (hd : d.nodeID = e.2.nodeID ∧ d.weight = e.2.weight ∧ d.isActive = true) :
    Loading newValidators s₁ (done ++ [e]) t' where
  inv := inv'
  loaded e' he' := by
    rw [hdata]
    rcases List.mem_append.mp he' with he' | he'
    · have hne : e'.1 ≠ e.1 := fun h => he (h ▸ List.mem_keys_of_mem he')
      rw [Function.update_of_ne hne]
      exact ht.loaded e' he'
    · rw [List.mem_singleton.mp he', Function.update_self]
      exact ⟨d, rfl, hd⟩
  rest w hw := by
    simp only [List.keys_append, List.keys_cons, List.keys_nil, List.mem_append, List.mem_singleton,
      not_or] at hw
    rw [hdata, Function.update_of_ne hw.2]
    exact ht.rest w hw.1
  fromSet w d' hw := by
    rw [hdata] at hw
    by_cases hwe : w = e.1
    · subst hwe
      rw [Function.update_self] at hw
      cases hw
      exact ⟨e.2, hV, hd.1⟩
    · rw [Function.update_of_ne hwe] at hw
      exact ht.fromSet w d' hw

theorem Loading.step (inv : SyncInv s) (hids : s.ValidationIDs currentValidationIDs)
    (hkeep : ∀ vID d o, s.data vID = some d → newValidators.lookup vID = some o → o.nodeID = d.nodeID)
    (hnodes : ∀ v w o p, newValidators.lookup v = some o → newValidators.lookup w = some p →
      o.nodeID = p.nodeID → v = w)
    {done rest : List (Sigma fun _ : ID => ValidatorOutput)} {e : Sigma fun _ : ID => ValidatorOutput}
    {t : State} (hl : done ++ e :: rest = newValidators.entries)
    (ht : Loading newValidators (deleteMissing newValidators s currentValidationIDs) done t) :
    (loadNewValidator currentValidationIDs t e).2 = none ∧
      Loading newValidators (deleteMissing newValidators s currentValidationIDs) (done ++ [e])
        (loadNewValidator currentValidationIDs t e).1 := by
  have he : e.1 ∉ done.keys := State.fst_notMem_keys newValidators.nodupKeys hl
  have hV : newValidators.lookup e.1 = some e.2 := AList.mem_lookup_iff.mpr (by rw [← hl]; simp)
  have hmem : e.1 ∈ newValidators := AList.lookup_isSome.mp (by rw [hV]; rfl)
  have hte : t.data e.1 = s.data e.1 := by
    rw [ht.rest e.1 he, (deleteMissing_spec inv newValidators currentValidationIDs).2,
      if_neg fun h => h.2 hmem]
  have inv' := ht.inv.loadNewValidator currentValidationIDs e
  by_cases hin : e.1 ∈ currentValidationIDs
  · -- an update, which passes the immutable-field check
    simp only [loadNewValidator, if_pos hin] at inv' ⊢
    obtain ⟨d, hd⟩ := Option.isSome_iff_exists.mp ((hids e.1).mp hin)
    have htd : t.data e.1 = some d := hte.trans hd
    have hsync := ht.inv.synced _ d htd
    have hc : State.constantsAreUnmodified d (currentVdr e.1 e.2) = true := by
      simp [State.constantsAreUnmodified, currentVdr, ht.inv.consistent.key _ d htd, hkeep _ d _ hd hV,
        hsync.1, hsync.2]
    have hok : (t.updateValidator (currentVdr e.1 e.2)).2 = none := by
      rw [@State.updateValidator_of_some t (currentVdr e.1 e.2) d htd hc]
      split_ifs <;> rfl
    obtain ⟨d', hd', hdata⟩ := State.updateValidator_eq_none hok
    obtain rfl : d' = d := Option.some_injective _ (hd'.symm.trans htd)
    exact ⟨hok, ht.write he hV inv' hdata ⟨(hkeep _ _ _ hd hV).symm, rfl, rfl⟩⟩
  · -- an addition, which finds both IDs free
    simp only [loadNewValidator, if_neg hin] at inv' ⊢
    have hnone : t.data e.1 = none := by
      rw [hte]
      exact Option.not_isSome_iff_eq_none.mp fun h => hin ((hids e.1).mpr h)
    have hidx : t.index e.2.nodeID = none := by
      cases hi : t.index e.2.nodeID with
      | none => rfl
      | some w =>
        obtain ⟨d, hd, hdn⟩ := ht.inv.consistent.data_index _ w hi
        obtain ⟨o, ho, hdo⟩ := ht.fromSet w d hd
        obtain rfl : w = e.1 := hnodes w e.1 o e.2 ho hV (hdo.symm.trans hdn)
        rw [hnone] at hd
        cases hd
    have hok : (t.addValidator (currentVdr e.1 e.2)).2 = none := by
      unfold State.addValidator
      dsimp only [currentVdr]
      rw [@State.addData_of_none t e.1 ⟨0, 0, e.2.nodeID, e.2.weight, 0, true, false, e.1⟩ hnone hidx]
    exact ⟨hok, ht.write he hV inv' (State.addValidator_eq_none hok) ⟨rfl, rfl, rfl⟩⟩

theorem loadValidators_syncs (s : State) (hs : Reachable s) (currentValidationIDs : List ID)
    (hids : s.ValidationIDs currentValidationIDs) (newValidators : ValidatorSet)
    (hnodes : ∀ v w o p, newValidators.lookup v = some o → newValidators.lookup w = some p →
      o.nodeID = p.nodeID → v = w)
    (hkeep : ∀ vID d o, s.data vID = some d → newValidators.lookup vID = some o → o.nodeID = d.nodeID) :
    (loadValidators s currentValidationIDs newValidators).2 = none ∧
      (∀ vID, ((loadValidators s currentValidationIDs newValidators).1.data vID).isSome ↔
        vID ∈ newValidators) ∧
      ∀ vID o, newValidators.lookup vID = some o →
        ∃ d, (loadValidators s currentValidationIDs newValidators).1.data vID = some d ∧
          d.nodeID = o.nodeID ∧ d.weight = o.weight ∧ d.isActive = true := by
  have inv := hs.syncInv
  obtain ⟨hok, hload⟩ := untilError_inv newValidators.entries
    (Loading newValidators (deleteMissing newValidators s currentValidationIDs))
    (fun _ _ _ _ hl ht => ht.step inv hids hkeep hnodes hl) (Loading.init inv hids hkeep)
  refine ⟨hok, fun vID => ⟨fun h => ?_, fun h => ?_⟩,
    fun vID o h => hload.loaded ⟨vID, o⟩ (AList.mem_lookup_iff.mp h)⟩
  · -- every record left is of the new set
    obtain ⟨d, hd⟩ := Option.isSome_iff_exists.mp h
    obtain ⟨o, ho, -⟩ := hload.fromSet vID d hd
    exact AList.lookup_isSome.mp (by rw [ho]; rfl)
  · -- every ID of the new set was loaded
    obtain ⟨o, ho⟩ := Option.isSome_iff_exists.mp (AList.lookup_isSome.mpr h)
    obtain ⟨d, hd, -⟩ := hload.loaded ⟨vID, o⟩ (AList.mem_lookup_iff.mp ho)
    exact Option.isSome_iff_exists.mpr ⟨d, hd⟩

/-! ## A validation ID that moves to another node -/

/-- Validation ID `1` on node `1`, of weight `10`. -/
def syncedSet : ValidatorSet := AList.singleton 1 ⟨1, 10⟩

/-- Validation ID `1` moved to node `2`. -/
def movedSet : ValidatorSet := AList.singleton 1 ⟨2, 10⟩

theorem eq_of_lookup_singleton {v w : ID} {o p : ValidatorOutput}
    (h : (AList.singleton w p : ValidatorSet).lookup v = some o) : v = w := by
  have hv : v ∈ (AList.singleton w p : ValidatorSet) := AList.lookup_isSome.mp (by rw [h]; rfl)
  rwa [AList.mem_keys, AList.keys_singleton, List.mem_singleton] at hv

theorem nodes_distinct_singleton (w : ID) (p : ValidatorOutput) :
    ∀ v v' o o', (AList.singleton w p : ValidatorSet).lookup v = some o →
      (AList.singleton w p : ValidatorSet).lookup v' = some o' → o.nodeID = o'.nodeID → v = v' :=
  fun _ _ _ _ hv hw _ => (eq_of_lookup_singleton hv).trans (eq_of_lookup_singleton hw).symm

theorem lookup_insert_singleton {a b v : ID} {x y o : ValidatorOutput}
    (h : ((AList.singleton a x).insert b y : ValidatorSet).lookup v = some o) :
    v = b ∧ o = y ∨ v = a ∧ o = x := by
  by_cases hb : v = b
  · subst hb
    rw [AList.lookup_insert, Option.some_inj] at h
    exact .inl ⟨rfl, h.symm⟩
  · rw [AList.lookup_insert_ne hb] at h
    obtain rfl := eq_of_lookup_singleton h
    simp only [AList.lookup, AList.singleton_entries, List.dlookup_cons_eq, Option.some_inj] at h
    exact .inr ⟨rfl, h.symm⟩

/-- Validation IDs `1` and `2` on nodes `1` and `2`. -/
def pairSet : ValidatorSet := (AList.singleton 1 ⟨1, 10⟩).insert 2 ⟨2, 20⟩

/-- Validation ID `1` with its weight raised to `15`, and a new validation ID
`3` on node `3`. -/
def reweightedSet : ValidatorSet := (AList.singleton 1 ⟨1, 15⟩).insert 3 ⟨3, 30⟩

/-- From the state synced to `pairSet`, syncing to `reweightedSet` updates the
weight of validation ID `1`, deletes `2` and adds `3`. -/
theorem loadValidators_syncs_add_update_remove :
    (loadValidators (loadValidators emptyState [] pairSet).1 [1, 2] reweightedSet).2 = none ∧
      ((loadValidators (loadValidators emptyState [] pairSet).1 [1, 2] reweightedSet).1.data 2).isSome =
        false ∧
      (∃ d, (loadValidators (loadValidators emptyState [] pairSet).1 [1, 2] reweightedSet).1.data 1 =
        some d ∧ d.weight = 15) ∧
      ∃ d, (loadValidators (loadValidators emptyState [] pairSet).1 [1, 2] reweightedSet).1.data 3 =
        some d ∧ d.nodeID = 3 := by
  have hdata : (loadValidators emptyState [] pairSet).1.data =
      Function.update (Function.update (fun _ => none) 2 (some ⟨0, 0, 2, 20, 0, true, false, 2⟩)) 1
        (some ⟨0, 0, 1, 10, 0, true, false, 1⟩) := rfl
  have hids : (loadValidators emptyState [] pairSet).1.ValidationIDs [1, 2] := fun v => by
    rw [hdata]
    by_cases h1 : v = 1
    · simp [h1]
    · rw [Function.update_of_ne h1]
      by_cases h2 : v = 2
      · simp [h2]
      · rw [Function.update_of_ne h2]
        simp only [List.mem_cons, List.not_mem_nil, Option.isSome_none, Bool.false_eq_true, iff_false]
        exact not_or.mpr ⟨h1, not_or.mpr ⟨h2, not_false⟩⟩
  have hnodes : ∀ v w o p, reweightedSet.lookup v = some o → reweightedSet.lookup w = some p →
      o.nodeID = p.nodeID → v = w := by
    intro v w o p hv hw hn
    rcases lookup_insert_singleton hv with ⟨rfl, rfl⟩ | ⟨rfl, rfl⟩ <;>
      rcases lookup_insert_singleton hw with ⟨rfl, rfl⟩ | ⟨rfl, rfl⟩
    all_goals first | rfl | exact absurd hn (by decide)
  have hkeep : ∀ vID d o, (loadValidators emptyState [] pairSet).1.data vID = some d →
      reweightedSet.lookup vID = some o → o.nodeID = d.nodeID := fun vID d o hd ho => by
    rcases lookup_insert_singleton ho with ⟨rfl, rfl⟩ | ⟨rfl, rfl⟩
    · rw [hdata, Function.update_of_ne (by decide), Function.update_of_ne (by decide)] at hd
      cases hd
    · rw [hdata, Function.update_self, Option.some_inj] at hd
      rw [← hd]
  obtain ⟨hok, hdom, hrec⟩ := loadValidators_syncs _ (.load pairSet (.init ∅ ∅) (fun _ => by simp))
    [1, 2] hids reweightedSet hnodes hkeep
  obtain ⟨d₁, hd₁, -, hw₁, -⟩ := hrec 1 ⟨1, 15⟩ rfl
  obtain ⟨d₃, hd₃, hn₃, -, -⟩ := hrec 3 ⟨3, 30⟩ rfl
  have hgone : reweightedSet.lookup 2 = none := rfl
  refine ⟨hok, Bool.eq_false_iff.mpr fun h => ?_, ⟨d₁, hd₁, hw₁⟩, d₃, hd₃, hn₃⟩
  have h2 := AList.lookup_isSome.mpr ((hdom 2).mp h)
  rw [hgone] at h2
  cases h2

theorem loadValidators_moved_node_fails :
    Reachable (loadValidators emptyState [] syncedSet).1 ∧
      (loadValidators emptyState [] syncedSet).1.ValidationIDs [1] ∧
      (∀ v w o p, movedSet.lookup v = some o → movedSet.lookup w = some p → o.nodeID = p.nodeID → v = w) ∧
      (loadValidators (loadValidators emptyState [] syncedSet).1 [1] movedSet).2 = some .immutableField := by
  have hdata : (loadValidators emptyState [] syncedSet).1.data =
      Function.update (fun _ => none) 1 (some ⟨0, 0, 1, 10, 0, true, false, 1⟩) := rfl
  refine ⟨.load syncedSet (.init ∅ ∅) (fun _ => by simp [emptyState]), fun v => ?_,
    nodes_distinct_singleton 1 _, rfl⟩
  rw [hdata]
  by_cases hv : v = 1
  · subst hv
    simp
  · rw [Function.update_of_ne hv]
    simp only [List.mem_singleton, Option.isSome_none, Bool.false_eq_true, iff_false]
    exact hv


end LuxEvm.ValidatorState

import Mathlib.Logic.Function.Basic

/-!
# A key-value store with an uncommitted layer

Writes go to the uncommitted layer, reads see it first, a commit moves it into
the committed store in one write, and an abort or a crash drops it. Writing
the layer as a batch leaves it in place until it is dropped.
-/

set_option autoImplicit false

namespace Lib

structure VersionDB (κ ν : Type) where
  committed : κ → Option ν
  pending : κ → Option ν

namespace VersionDB

variable {κ ν : Type}

def empty : VersionDB κ ν := ⟨fun _ => none, fun _ => none⟩

def get (db : VersionDB κ ν) (k : κ) : Option ν := (db.pending k).or (db.committed k)

def put [DecidableEq κ] (db : VersionDB κ ν) (k : κ) (v : ν) : VersionDB κ ν :=
  { db with pending := fun k' => if k' = k then some v else db.pending k' }

/-- The uncommitted writes, written to the committed store as one batch; they
stay uncommitted too until they are dropped. -/
def writeBatch (db : VersionDB κ ν) : VersionDB κ ν :=
  { db with committed := fun k => (db.pending k).or (db.committed k) }

def abort (db : VersionDB κ ν) : VersionDB κ ν := { db with pending := fun _ => none }

def commit (db : VersionDB κ ν) : VersionDB κ ν := db.writeBatch.abort

def Clean (db : VersionDB κ ν) : Prop := ∀ k, db.pending k = none

@[simp] theorem committed_put [DecidableEq κ] (db : VersionDB κ ν) (k : κ) (v : ν) :
    (db.put k v).committed = db.committed := rfl

@[simp] theorem committed_abort (db : VersionDB κ ν) : db.abort.committed = db.committed := rfl

@[simp] theorem pending_abort (db : VersionDB κ ν) (k : κ) : db.abort.pending k = none := rfl

@[simp] theorem pending_writeBatch (db : VersionDB κ ν) : db.writeBatch.pending = db.pending := rfl

@[simp] theorem pending_put [DecidableEq κ] (db : VersionDB κ ν) (k k' : κ) (v : ν) :
    (db.put k v).pending k' = if k' = k then some v else db.pending k' := rfl

theorem clean_abort (db : VersionDB κ ν) : db.abort.Clean := fun _ => rfl

end VersionDB

end Lib

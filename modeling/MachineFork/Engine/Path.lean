import MachineFork.Engine.Basic

/-!
This module contains the steps of a path of execution: saving the live devices into the active
snapshot, restoring them from a snapshot, and splitting a snapshot in two.
-/

namespace MachineFork

variable {ι : Type} {M : Machine ι}

namespace Engine

/--
Save the live devices into the active snapshot. A save that fails half way leaves the blob as it is
at that point.
-/
def save (e : Engine ι) (devices : Devices M) (id : SnapshotId) :
    Except EngineError Unit × Engine ι :=
  match e.snapshot? id with
  | none => (.error (.noSnapshot id), e)
  | some s =>
    if s.frozen then
      (.error (.frozen id), e)
    else if e.active ≠ some id then
      (.error (.notActive id), e)
    else
      match e.registry.save devices s.blob.reset with
      | (.error error, blob) => (.error (.blob error), e.setSnapshot { s with blob })
      | (.ok (), blob) =>
        (.ok (), e.setSnapshot ({ s with blob := blob.truncate }.noteSave e.config))

/--
Restore the live devices from a snapshot, which becomes the active one. The live devices already
hold the state of an active snapshot that has never been saved. After a failure no snapshot is
active, because devices may have been restored up to that point.
-/
def restore [DecidableEq ι] (e : Engine ι) (devices : Devices M) (id : SnapshotId) :
    Except EngineError Unit × Engine ι × Devices M :=
  match e.snapshot? id with
  | none => (.error (.noSnapshot id), e, devices)
  | some s =>
    if s.frozen then
      (.error (.frozen id), e, devices)
    else if s.blob.isEmpty ∧ e.active = some id then
      (.ok (), e, devices)
    else
      match e.registry.restore devices s.blob.reset with
      | (.error error, devices, blob) =>
        (.error (.blob error), { e.setSnapshot { s with blob } with active := none }, devices)
      | (.ok (), devices, blob) =>
        let s := { s with blob, restored := true }
        (.ok (), { e.setSnapshot s with active := some id }, devices)

def requireDepth (e : Engine ι) (id : SnapshotId) : Except EngineError Unit :=
  match e.config.maxForkDepth with
  | none => .ok ()
  | some limit =>
    match e.depth id with
    | .error error => .error error
    | .ok depth => if limit < depth + 1 then .error (.depthLimit (depth + 1) limit) else .ok ()

/--
Split a path in two. Each child has a copy of the blob and a node of its own below the node of the
snapshot, which is frozen from now on and no longer active.
-/
def fork (e : Engine ι) (id : SnapshotId) : Except EngineError (Snapshot × Snapshot) × Engine ι :=
  match e.snapshot? id with
  | none => (.error (.noSnapshot id), e)
  | some s =>
    if s.frozen then
      (.error (.frozen id), e)
    else
      match e.requireDepth id with
      | .error error => (.error error, e.settle)
      | .ok () =>
        let e := e.settle
        match e.lineage.fork s.node with
        | (.error error, lineage) => (.error (.disk error), { e with lineage })
        | (.ok (leftNode, rightNode), lineage) =>
          let e := ({ e with lineage }.setSnapshot { s with frozen := true }).deactivate id
          let (left, e) := e.addSnapshot s.blob.clone leftNode
          let (right, e) := e.addSnapshot s.blob.clone rightNode
          (.ok (left, right), e)

end Engine

end MachineFork

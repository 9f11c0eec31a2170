import MachineFork.Blob.Section
import MachineFork.Device.Model

/-!
This module contains the registry of the devices that a blob holds, and the saving and restoring of
a whole machine through it. The order of registration is the layout of every blob: one section per
device, in that order. Devices that are registered after startup come last; for them the registry
keeps the section they would have written at that moment, because blobs saved before it have none.
-/

namespace MachineFork

inductive Origin where
  | startup
  /-- Later, when the device would have written the given section. -/
  | custom (registered : Stream)
  deriving DecidableEq, Repr

structure Descriptor (ι : Type) where
  id : DeviceId
  device : ι
  origin : Origin
  deriving DecidableEq, Repr

def Descriptor.isCustom {ι : Type} (descriptor : Descriptor ι) : Bool :=
  match descriptor.origin with
  | .startup => false
  | .custom _ => true

structure Registry (ι : Type) where
  /-- In order of registration. -/
  descriptors : List (Descriptor ι) := []
  isInitialized : Bool := false
  deriving DecidableEq, Repr

variable {ι : Type} {M : Machine ι}

namespace Devices

def saveSection (devices : Devices M) (id : DeviceId) (i : ι) (s : Stream) :
    Except BlobError Unit × Stream :=
  if devices.access i = .exclusive then
    (.error (.deviceFailed id "device is mutably borrowed"), s)
  else
    let (start, s) := s.openSection id
    match ((M.model i).save (devices.state i)).run () s with
    | (.error e, _, s) => (.error e, s)
    | (.ok (), _, s) =>
      match s.closeSection start with
      | .error e => (.error e, s)
      | .ok s => (.ok (), s)

/--
Read one device's section at the cursor back into the device. The section is left however the
device's own program has ended; the device's failure outranks that of leaving.
-/
def restoreSection [DecidableEq ι] (devices : Devices M) (id : DeviceId) (i : ι) (s : Stream) :
    Except BlobError Unit × Devices M × Stream :=
  if devices.access i ≠ .free then
    (.error (.deviceFailed id "device is already borrowed"), devices, s)
  else
    match s.enter id with
    | (.error e, s) => (.error e, devices, s)
    | (.ok (), s) =>
      let (restored, state, s) := ((M.model i).restore (devices.state i)).run (devices.state i) s
      let (left, s) := s.leave
      match restored with
      | .error e => (.error e, devices.set i state, s)
      | .ok () => (left, devices.set i state, s)

end Devices

namespace Registry

def empty : Registry ι := {}

def find? (registry : Registry ι) (id : DeviceId) : Option (Descriptor ι) :=
  registry.descriptors.find? (·.id = id)

def contains (registry : Registry ι) (id : DeviceId) : Bool :=
  (registry.find? id).isSome

def isCustom (registry : Registry ι) (id : DeviceId) : Bool :=
  (registry.find? id).any (·.isCustom)

def size (registry : Registry ι) : Nat :=
  registry.descriptors.length

def isEmpty (registry : Registry ι) : Bool :=
  registry.descriptors.isEmpty

def ids (registry : Registry ι) : List DeviceId :=
  registry.descriptors.map (·.id)

def insert (registry : Registry ι) (id : DeviceId) (i : ι) (origin : Origin) : Registry ι :=
  { registry with descriptors := registry.descriptors ++ [⟨id, i, origin⟩] }

/--
Register the device `i` as `id`. To repeat a registration changes nothing; an identity that another
device has is refused. After startup the device's own section is written and kept.
-/
def register [DecidableEq ι] (registry : Registry ι) (devices : Devices M) (id : DeviceId)
    (i : ι) : Except BlobError Unit × Registry ι :=
  match registry.find? id with
  | some known =>
    (if known.device = i then .ok () else .error (.duplicate id), registry)
  | none =>
    if registry.isInitialized then
      match devices.saveSection id i .empty with
      | (.error e, _) => (.error e, registry)
      | (.ok (), s) => (.ok (), registry.insert id i (.custom s))
    else
      (.ok (), registry.insert id i .startup)

/--
Run startup registration unless it has succeeded before; the result tells whether it was run. When
the body fails, what it has registered stays, and it may be run again.
-/
def startUp (registry : Registry ι)
    (body : Registry ι → Except BlobError Unit × Registry ι) :
    Except BlobError Bool × Registry ι :=
  if registry.isInitialized then
    (.ok false, registry)
  else
    match body registry with
    | (.error e, registry) => (.error e, registry)
    | (.ok (), registry) => (.ok true, { registry with isInitialized := true })

def forEach {τ : Type} (registry : Registry ι)
    (visit : Descriptor ι → τ → Except BlobError Unit × τ) (state : τ) :
    Except BlobError Unit × τ :=
  go registry.descriptors state
where
  go : List (Descriptor ι) → τ → Except BlobError Unit × τ
  | [], state => (.ok (), state)
  | descriptor :: rest, state =>
    match visit descriptor state with
    | (.error e, state) => (.error e, state)
    | (.ok (), state) => go rest state

def save (registry : Registry ι) (devices : Devices M) (s : Stream) :
    Except BlobError Unit × Stream :=
  registry.forEach (fun descriptor s => devices.saveSection descriptor.id descriptor.device s) s

/--
Restore one device from its section in the blob. A blob that was saved before a device was
registered ends early, and then the device goes back to what it was when it was registered.
-/
def restoreOne [DecidableEq ι] (descriptor : Descriptor ι) (devices : Devices M) (s : Stream) :
    Except BlobError Unit × Devices M × Stream :=
  match descriptor.origin with
  | .custom registered =>
    if s.remaining = 0 then
      let (result, devices, _) :=
        devices.restoreSection descriptor.id descriptor.device registered.clone
      (result, devices, s)
    else
      devices.restoreSection descriptor.id descriptor.device s
  | .startup => devices.restoreSection descriptor.id descriptor.device s

/--
Read the sections of all devices at the cursor back into them. Every device has to consume its own
section exactly, and no bytes may be left after the last one.
-/
def restore [DecidableEq ι] (registry : Registry ι) (devices : Devices M) (s : Stream) :
    Except BlobError Unit × Devices M × Stream :=
  match registry.forEach (fun descriptor (devices, s) => restoreOne descriptor devices s)
      (devices, s) with
  | (.error e, devices, s) => (.error e, devices, s)
  | (.ok (), devices, s) =>
    if s.remaining = 0 then
      (.ok (), devices, s)
    else
      (.error (.trailingBytes s.remaining), devices, s)

end Registry

end MachineFork

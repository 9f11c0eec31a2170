import MachineFork.Blob.Stream

/-!
This module contains the framing of device sections. A section is a header, that is the device's
kind, its number and the length of what follows, and then the payload. Writing opens a section with
a length of zero and patches the length when it is closed; reading enters a section, which confines
reads to its payload, and leaves it when the payload has been consumed.
-/

namespace MachineFork

namespace Section

def header (device : DeviceId) (payloadLength : Nat) : Bytes :=
  device.kind.toBytes ++ Bytes.littleEndian 2 device.number.toNat
    ++ Bytes.littleEndian 4 payloadLength

def frame (device : DeviceId) (payload : Bytes) : Bytes :=
  header device payload.length ++ payload

@[simp]
theorem length_header (device : DeviceId) (payloadLength : Nat) :
    (header device payloadLength).length = 10 := by
  simp [header]

@[simp]
theorem length_frame (device : DeviceId) (payload : Bytes) :
    (frame device payload).length = 10 + payload.length := by
  simp [frame]

end Section

namespace Stream

/--
Write the header of a section whose length is not known yet, part by part. The first component of
the result is where the payload starts.
-/
def openSection (device : DeviceId) (s : Stream) : Nat × Stream :=
  let s := s.put device.kind.toBytes
  let s := s.put (Bytes.littleEndian 2 device.number.toNat)
  let s := s.put (Bytes.littleEndian 4 0)
  (s.cursor, s)

def closeSection (start : Nat) (s : Stream) : Except BlobError Stream :=
  if s.cursor < start then
    .error (.invalidField "device moved the cursor before its section")
  else if UInt32.size ≤ s.cursor - start then
    .error (.invalidField "device section exceeds 4 GiB")
  else
    let length := Bytes.littleEndian 4 (s.cursor - start)
    .ok { s with bytes := s.bytes.overwrite (start - 4) length }

/--
Read the header of the next section, which has to be that of `expected`, and confine reads to the
payload. A failure leaves the cursor behind the last part of the header that could be read.
-/
def enter (expected : DeviceId) (s : Stream) : Except BlobError Unit × Stream :=
  let s := { s with entered := none }
  match s.take 4 with
  | .error e => (.error e, s)
  | .ok (kind, s) =>
    match s.take 2 with
    | .error e => (.error e, s)
    | .ok (number, s) =>
      let found : DeviceId := ⟨Kind.ofBytes kind, .ofNat (Bytes.ofLittleEndian number)⟩
      if found ≠ expected then
        (.error (.unexpectedSection expected found), s)
      else
        match s.take 4 with
        | .error e => (.error e, s)
        | .ok (length, s) =>
          let length := Bytes.ofLittleEndian length
          if s.remaining < length then
            (.error (.underrun length s.remaining), s)
          else
            (.ok (), { s with entered := some ⟨expected, s.cursor, s.cursor + length⟩ })

/--
Lift the confinement to a section, which has to have been consumed exactly. A reset has lifted the
confinement already, and then there is nothing left to check.
-/
def leave (s : Stream) : Except BlobError Unit × Stream :=
  match s.entered with
  | none => (.ok (), s)
  | some entered =>
    let s := { s with entered := none }
    if s.cursor = entered.stop then
      (.ok (), s)
    else
      let consumed := s.cursor - entered.start
      (.error (.lengthMismatch entered.device (entered.stop - entered.start) consumed), s)

end Stream

end MachineFork

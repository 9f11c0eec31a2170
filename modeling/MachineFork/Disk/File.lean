import MachineFork.Disk.Image

/-!
This module contains images that are read from a file. A sector is put together from as many
positional reads as it takes: each may be interrupted or may deliver fewer bytes than are there, and
none delivers bytes behind the end of the file, where the image goes on with zeroes.
-/

namespace MachineFork

inductive HostFile where
  | unopenable (reason : String)
  | directory (length : Nat)
  | regular (content : ByteArray)

namespace HostFile

def length : HostFile → Nat
  | unopenable _ => 0
  | directory length => length
  | regular content => content.size

def slice (content : ByteArray) (offset count : Nat) : Bytes :=
  (content.extract offset (offset + count)).data.toList

end HostFile

/--
How one positional read goes: it is interrupted before it starts, or it delivers no more than
`limit` bytes and at least one if there is any.
-/
inductive ReadEvent where
  | interrupted
  | short (limit : Nat)
  deriving DecidableEq, Repr

/--
Up to `count` bytes of `content` from `offset` on, read as `events` say. Once these are used up, a
read delivers all that is there.
-/
def readAt (content : ByteArray) : List ReadEvent → (offset count : Nat) → Bytes
  | [], offset, count => HostFile.slice content offset count
  | .interrupted :: events, offset, count => readAt content events offset count
  | .short limit :: events, offset, count =>
    let got := HostFile.slice content offset (min count (max limit 1))
    if got.isEmpty then
      []
    else
      got ++ readAt content events (offset + got.length) (count - got.length)

/--
An image of what is in a file. Its number of sectors is settled when it is opened, even if the file
grows or shrinks afterwards.
-/
structure FileImage where
  sectorCount : UInt64
  file : HostFile

namespace FileImage

def ofFile : HostFile → Except DiskError FileImage
  | .unopenable reason => .error (.io reason)
  | file => .ok ⟨.ofNat ((file.length + (sectorSize - 1)) / sectorSize), file⟩

def fetch (image : FileImage) (events : List ReadEvent) (index : UInt64) :
    Except DiskError Sector :=
  match image.file with
  | .unopenable reason => .error (.io reason)
  | .directory _ => .error (.io "Is a directory (os error 21)")
  | .regular content =>
    .ok (.padded (readAt content events (index.toNat * sectorSize) sectorSize))

def toBase (image : FileImage) (events : UInt64 → List ReadEvent := fun _ => []) : BaseImage :=
  .ofSectors image.sectorCount fun index => image.fetch (events index) index

end FileImage

end MachineFork

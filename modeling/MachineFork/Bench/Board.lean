import MachineFork.Device.Model

/-!
This module contains the machine that the benchmark forks: an interrupt controller and a serial port
whose receive queue differs in length from path to path.
-/

namespace MachineFork.Bench

structure Pic where
  mask : UInt8 := 0
  requests : UInt8 := 0
  deriving DecidableEq, Repr

structure Uart where
  lineControl : UInt8 := 0
  divisor : UInt16 := 0
  received : Bytes := []
  deriving DecidableEq, Repr

def Uart.queueLength : Nat := 16

namespace Pic

def save (pic : Pic) : Program Unit Unit := do
  .putU8 pic.mask
  .putU8 pic.requests

def restore (pic : Pic) : Program Pic Unit := do
  let pic := { pic with mask := ← .getU8 }
  .assign pic do
    let pic := { pic with requests := ← .getU8 }
    .assign pic (return)

def emulate (pic : Pic) (line : Nat) (mask : UInt8) : Pic :=
  { mask, requests := pic.requests ||| (1 <<< UInt8.ofNat line) }

end Pic

namespace Uart

def save (uart : Uart) : Program Unit Unit := do
  .putU8 uart.lineControl
  .putU16 uart.divisor
  .putPrefixed uart.received

def restore (uart : Uart) : Program Uart Unit := do
  let uart := { uart with lineControl := ← .getU8 }
  .assign uart do
    let uart := { uart with divisor := ← .getU16 }
    .assign uart do
      let uart := { uart with received := ← .getPrefixed queueLength }
      .assign uart (return)

def emulate (uart : Uart) (byte : UInt8) : Uart :=
  let queue := if uart.received.length = queueLength then [] else uart.received
  { uart with divisor := uart.divisor + 1, received := queue ++ [byte] }

end Uart

inductive Part where
  | pic
  | uart
  deriving DecidableEq, Repr

namespace Part

def id : Part → DeviceId
  | pic => ⟨⟨0x50, 0x49, 0x43, 0x20⟩, 0⟩
  | uart => ⟨⟨0x55, 0x41, 0x52, 0x54⟩, 0⟩

abbrev State : Part → Type
  | pic => Pic
  | uart => Uart

end Part

abbrev board : Machine Part where
  State := Part.State
  model
    | .pic => ⟨Pic.save, Pic.restore⟩
    | .uart => ⟨Uart.save, Uart.restore⟩

def powerOn : Devices board where
  state
    | .pic => {}
    | .uart => {}

end MachineFork.Bench

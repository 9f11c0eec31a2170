import MachineFork.Bench.Session
import MachineFork.Proofs.Blob.FailedReads
import MachineFork.Proofs.Registry.Grammar

/-!
This module contains how the benchmark's board is saved and restored. The serial port only reads a
queue back that is not too long. All blobs of the board hold such a queue, so the board can be
restored from all of them.
-/

namespace MachineFork

namespace Program

variable {σ α β : Type}

theorem GetsOnly.bind {p : Program σ α} {f : α → Program σ β} (h : p.GetsOnly)
    (hnext : ∀ a, (f a).GetsOnly) : (p >>= f).GetsOnly := by
  show (p.bind f).GetsOnly
  induction p with
  | done value => exact hnext value
  | fail error => trivial
  | take count next ih => exact fun bytes => ih bytes (h bytes)
  | assign assigned next ih => exact ih h
  | put | reset | truncate | shrink | look => exact absurd h id

theorem getsOnly_pure (value : α) : (pure value : Program σ α).GetsOnly :=
  True.intro

theorem getsOnly_get (count : Nat) : (get (σ := σ) count).GetsOnly := by
  intro bytes
  cases bytes <;> trivial

theorem getsOnly_getU8 : (getU8 (σ := σ)).GetsOnly :=
  ((getsOnly_get 1).bind fun _ => getsOnly_pure _).bind fun _ => getsOnly_pure _

theorem getsOnly_getU16 : (getU16 (σ := σ)).GetsOnly :=
  ((getsOnly_get 2).bind fun _ => getsOnly_pure _).bind fun _ => getsOnly_pure _

theorem getsOnly_getPrefixed (limit : Nat) : (getPrefixed (σ := σ) limit).GetsOnly := by
  have hlength : (getU32 (σ := σ)).GetsOnly :=
    ((getsOnly_get 4).bind fun _ => getsOnly_pure _).bind fun _ => getsOnly_pure _
  apply hlength.bind
  intro length
  split
  · trivial
  · exact getsOnly_get _

end Program

namespace Stream.Holds

variable {σ : Type} {s : Stream} {device : DeviceId} {rest bytes : Bytes} {state : σ}

/-! Values that come next in a section are read, wherever the section lies. -/

theorem take_append (h : s.Holds device (bytes ++ rest)) :
    s.take bytes.length = .ok (bytes, { s with cursor := s.cursor + bytes.length }) ∧
      { s with cursor := s.cursor + bytes.length }.Holds device rest := by
  have hle : bytes.length ≤ (bytes ++ rest).length := by simp
  have htake := h.take_of_le hle
  have hmore := h.advance hle
  rw [List.take_left] at htake
  rw [List.drop_left] at hmore
  exact ⟨htake, hmore⟩

theorem run_getU8 {value : UInt8} (state : σ)
    (h : s.Holds device (Bytes.littleEndian 1 value.toNat ++ rest)) :
    Program.getU8.run state s = (.ok value, state, { s with cursor := s.cursor + 1 }) ∧
      { s with cursor := s.cursor + 1 }.Holds device rest := by
  obtain ⟨htake, hmore⟩ := h.take_append
  have hvalue : Bytes.ofLittleEndian (Bytes.littleEndian 1 value.toNat) = value.toNat :=
    Bytes.ofLittleEndian_littleEndian value.toNat_lt
  refine ⟨?_, hmore⟩
  rw [Program.converts_getU8.run_of_ok htake, hvalue, UInt8.ofNat_toNat]
  rfl

theorem run_getU16 {value : UInt16} (state : σ)
    (h : s.Holds device (Bytes.littleEndian 2 value.toNat ++ rest)) :
    Program.getU16.run state s = (.ok value, state, { s with cursor := s.cursor + 2 }) ∧
      { s with cursor := s.cursor + 2 }.Holds device rest := by
  obtain ⟨htake, hmore⟩ := h.take_append
  have hvalue : Bytes.ofLittleEndian (Bytes.littleEndian 2 value.toNat) = value.toNat :=
    Bytes.ofLittleEndian_littleEndian value.toNat_lt
  refine ⟨?_, hmore⟩
  rw [Program.converts_getU16.run_of_ok htake, hvalue, UInt16.ofNat_toNat]
  rfl

theorem run_getPrefixed {limit : Nat} (state : σ) (hlimit : bytes.length ≤ limit)
    (hfits : bytes.length < UInt32.size)
    (h : s.Holds device (Bytes.littleEndian 4 bytes.length ++ bytes)) :
    (Program.getPrefixed limit).run state s
      =
    (.ok bytes, state, { s with cursor := s.cursor + 4 + bytes.length }) := by
  obtain ⟨hlength, hbytes⟩ := h.take_append
  rw [← List.append_nil bytes] at hbytes
  have hvalue : Bytes.ofLittleEndian (Bytes.littleEndian 4 bytes.length) = bytes.length :=
    Bytes.ofLittleEndian_littleEndian hfits
  rw [Program.run_getPrefixed limit hlength, hvalue, if_neg (Nat.not_lt.mpr hlimit)]
  exact (Program.converts_get _).run_of_ok hbytes.take_append.1

end Stream.Holds

theorem Devices.payload_of_lays {ι : Type} {M : Machine ι} {i : ι} {state : M.State i} {t : Stream}
    {bytes : Bytes} (hrun : ((M.model i).save state).run () .empty = (.ok (), (), t))
    (hlays : Stream.empty.Lays bytes t) : payload M i state = (.ok (), bytes) := by
  unfold payload
  rw [hrun]
  dsimp only
  rw [hlays.bytes]
  exact Prod.ext rfl (Bytes.overwrite_end [] bytes)

namespace Bench

/-! The parts of the board. -/

def Pic.payload (pic : Pic) : Bytes :=
  Bytes.littleEndian 1 pic.mask.toNat ++ Bytes.littleEndian 1 pic.requests.toNat

def Uart.payload (uart : Uart) : Bytes :=
  Bytes.littleEndian 1 uart.lineControl.toNat ++ Bytes.littleEndian 2 uart.divisor.toNat
    ++ Bytes.littleEndian 4 uart.received.length ++ uart.received

@[simp]
theorem Pic.length_payload (pic : Pic) : pic.payload.length = 2 := by
  simp [payload]

@[simp]
theorem Uart.length_payload (uart : Uart) : uart.payload.length = 7 + uart.received.length := by
  simp only [payload, List.length_append, Bytes.length_littleEndian]

def Uart.Fits (uart : Uart) : Prop :=
  uart.received.length ≤ queueLength

theorem Uart.Fits.length_lt {uart : Uart} (h : uart.Fits) : uart.received.length < UInt32.size :=
  Nat.lt_of_le_of_lt h (by decide)

theorem Pic.length_payload_lt (pic : Pic) : pic.payload.length < UInt32.size := by
  rw [pic.length_payload]
  decide

theorem Uart.Fits.length_payload_lt {uart : Uart} (h : uart.Fits) :
    uart.payload.length < UInt32.size := by
  rw [uart.length_payload]
  exact Nat.lt_of_le_of_lt (Nat.add_le_add_left h 7) (by decide)

theorem Uart.Fits.emulate {uart : Uart} (h : uart.Fits) (byte : UInt8) :
    (uart.emulate byte).Fits := by
  unfold Fits at *
  unfold Uart.emulate
  dsimp only
  rw [List.length_append, List.length_singleton]
  split
  · decide
  · next hfull => omega

theorem payload_pic (pic : Pic) : Devices.payload board .pic pic = (.ok (), pic.payload) := by
  apply Devices.payload_of_lays rfl
  exact (Stream.Lays.put _).trans (.put _) (Nat.le_refl _)

theorem payload_uart {uart : Uart} (hfits : uart.Fits) :
    Devices.payload board .uart uart = (.ok (), uart.payload) := by
  have hcontrol := Stream.Lays.put (s := .empty) (Bytes.littleEndian 1 uart.lineControl.toNat)
  have hdivisor := hcontrol.trans (.put (Bytes.littleEndian 2 uart.divisor.toNat)) (Nat.le_refl _)
  have hlength := hdivisor.trans (.put (Bytes.littleEndian 4 uart.received.length)) (Nat.le_refl _)
  apply Devices.payload_of_lays _ (hlength.trans (.put uart.received) (Nat.le_refl _))
  show (Uart.save uart).run () .empty = _
  unfold Uart.save Program.putPrefixed
  rw [if_neg (Nat.not_le.mpr hfits.length_lt)]
  rfl

theorem run_restore_pic {s : Stream} {device : DeviceId} (live pic : Pic)
    (h : s.Holds device pic.payload) :
    live.restore.run live s = (.ok (), pic, { s with cursor := s.cursor + 2 }) := by
  unfold Pic.payload at h
  obtain ⟨hmask, hbehind⟩ := h.run_getU8 live
  rw [← List.append_nil (Bytes.littleEndian 1 pic.requests.toNat)] at hbehind
  obtain ⟨hrequests, -⟩ := hbehind.run_getU8 { live with mask := pic.mask }
  unfold Pic.restore
  rw [Program.run_bind_of_ok hmask, Program.run, Program.run_bind_of_ok hrequests]
  rfl

theorem run_restore_uart {s : Stream} {device : DeviceId} (live : Uart) {uart : Uart}
    (hfits : uart.Fits) (h : s.Holds device uart.payload) :
    live.restore.run live s
      =
    (.ok (), uart, { s with cursor := s.cursor + (7 + uart.received.length) }) := by
  unfold Uart.payload at h
  rw [List.append_assoc, List.append_assoc] at h
  obtain ⟨hcontrol, hbehind⟩ := h.run_getU8 live
  obtain ⟨hdivisor, hqueue⟩ := hbehind.run_getU16 { live with lineControl := uart.lineControl }
  have hreceived := hqueue.run_getPrefixed
    { live with lineControl := uart.lineControl, divisor := uart.divisor } hfits hfits.length_lt
  have hcursor : s.cursor + (7 + uart.received.length)
      = s.cursor + 1 + 2 + 4 + uart.received.length := by omega
  unfold Uart.restore
  rw [Program.run_bind_of_ok hcontrol, Program.run, Program.run_bind_of_ok hdivisor, Program.run,
    Program.run_bind_of_ok hreceived, hcursor]
  rfl

/-! The whole board. -/

def boardRegistry : Registry Part where
  descriptors := [⟨Part.pic.id, .pic, .startup⟩, ⟨Part.uart.id, .uart, .startup⟩]
  isInitialized := true

theorem startUp_registerParts :
    ({} : Registry Part).startUp registerParts = (.ok true, boardRegistry) := rfl

def boardBlob (pic : Pic) (uart : Uart) : Bytes :=
  Section.frame Part.pic.id pic.payload ++ Section.frame Part.uart.id uart.payload

def Saved (blob : Bytes) : Prop :=
  ∃ (pic : Pic) (uart : Uart), uart.Fits ∧ blob = boardBlob pic uart

theorem Saved.length {blob : Bytes} (h : Saved blob) : 29 ≤ blob.length ∧ blob.length ≤ 45 := by
  obtain ⟨pic, uart, hfits, rfl⟩ := h
  rw [Uart.Fits, Uart.queueLength] at hfits
  simp only [boardBlob, List.length_append, Section.length_frame, Pic.length_payload,
    Uart.length_payload]
  omega

structure Ready (devices : Devices board) : Prop where
  free : ∀ i, devices.access i = .free
  fits : Uart.Fits (devices.state .uart)

theorem ready_powerOn : Ready powerOn where
  free _ := rfl
  fits := Nat.zero_le _

variable {devices : Devices board} {s : Stream}

theorem putsOnly_save (i : Part) (state : board.State i) :
    ((board.model i).save state).PutsOnly := by
  cases i with
  | pic => trivial
  | uart =>
    show (Uart.save state).PutsOnly
    unfold Uart.save Program.putPrefixed
    split <;> trivial

theorem getsOnly_restore (i : Part) (state : board.State i) :
    ((board.model i).restore state).GetsOnly := by
  cases i with
  | pic =>
    exact Program.getsOnly_getU8.bind fun _ => Program.getsOnly_getU8.bind fun _ => trivial
  | uart =>
    exact Program.getsOnly_getU8.bind fun _ => Program.getsOnly_getU16.bind fun _ =>
      (Program.getsOnly_getPrefixed _).bind fun _ => trivial

theorem Ready.layout (h : Ready devices) :
    Registry.layout devices boardRegistry.descriptors
      =
    (.ok (), boardBlob (devices.state .pic) (devices.state .uart)) := by
  have hfree (i : Part) : devices.access i ≠ .exclusive := by
    rw [h.free i]
    simp
  have hpic : devices.layout Part.pic.id .pic
      = (.ok (), Section.frame Part.pic.id (Pic.payload (devices.state .pic))) :=
    Devices.layout_eq_ok_iff.mpr
      ⟨hfree .pic, _, payload_pic (devices.state .pic), Pic.length_payload_lt _, rfl⟩
  have huart : devices.layout Part.uart.id .uart
      = (.ok (), Section.frame Part.uart.id (Uart.payload (devices.state .uart))) :=
    Devices.layout_eq_ok_iff.mpr
      ⟨hfree .uart, _, payload_uart h.fits, h.fits.length_payload_lt, rfl⟩
  apply Registry.layout_cons_eq_ok_iff.mpr
  refine ⟨_, _, hpic, Registry.layout_cons_eq_ok_iff.mpr ⟨_, _, huart, rfl, rfl⟩, ?_⟩
  rw [List.append_nil]
  rfl

theorem Ready.save (h : Ready devices) (hcursor : s.cursor = 0) :
    ∃ t, boardRegistry.save devices s = (.ok (), t) ∧ Saved t.truncate.bytes := by
  have hputs : ∀ descriptor ∈ boardRegistry.descriptors,
      ((board.model descriptor.device).save (devices.state descriptor.device)).PutsOnly :=
    fun _ _ => putsOnly_save _ _
  obtain ⟨t, hsave, -⟩ := Registry.saveEach_lays (s := s) hputs (hcursor ▸ Nat.zero_le _)
  rw [h.layout] at hsave
  have hbytes := Registry.layout_of_save hputs hcursor hsave
  rw [h.layout] at hbytes
  exact ⟨t, hsave, _, _, h.fits, (Prod.mk.inj hbytes).2.symm⟩

theorem restored?_pic (devices : Devices board) (pic : Pic) :
    devices.restored? Part.pic.id .pic pic.payload = some pic := by
  have hholds := Stream.Holds.payload Part.pic.id pic.payload
  have hrun := run_restore_pic (devices.state .pic) pic hholds
  rw [← pic.length_payload] at hrun
  exact (Devices.restored?_eq_some_iff (getsOnly_restore .pic _) hholds).mpr hrun

theorem restored?_uart (devices : Devices board) {uart : Uart} (hfits : uart.Fits) :
    devices.restored? Part.uart.id .uart uart.payload = some uart := by
  have hholds := Stream.Holds.payload Part.uart.id uart.payload
  have hrun := run_restore_uart (devices.state .uart) hfits hholds
  rw [← uart.length_payload] at hrun
  exact (Devices.restored?_eq_some_iff (getsOnly_restore .uart _) hholds).mpr hrun

theorem reads_boardBlob (devices : Devices board) (pic : Pic) {uart : Uart} (hfits : uart.Fits) :
    Registry.Reads boardRegistry.descriptors devices (boardBlob pic uart)
      [⟨⟨Part.pic.id, .pic, .startup⟩, pic.payload⟩,
        ⟨⟨Part.uart.id, .uart, .startup⟩, uart.payload⟩]
      [] := by
  have hnone : Registry.Reads [] devices [] [] [] := ⟨rfl, rfl, by simp, by simp, by simp⟩
  have huart : Registry.Reads [⟨Part.uart.id, .uart, .startup⟩] devices
      (Section.frame Part.uart.id uart.payload)
      [⟨⟨Part.uart.id, .uart, .startup⟩, uart.payload⟩] [] := by
    rw [← List.append_nil (Section.frame _ _)]
    apply hnone.early_cons hfits.length_payload_lt
    exact Option.isSome_of_eq_some (restored?_uart devices hfits)
  apply huart.early_cons pic.length_payload_lt
  exact Option.isSome_of_eq_some (restored?_pic devices pic)

theorem Ready.restore (h : Ready devices) (hsaved : Saved s.bytes) :
    ∃ devices' t, boardRegistry.restore devices s.reset = (.ok (), devices', t) ∧
      Ready devices' ∧ t.bytes = s.bytes := by
  obtain ⟨pic, uart, hfits, hblob⟩ := hsaved
  have hreads := reads_boardBlob devices pic hfits
  rw [← hblob] at hreads
  obtain ⟨devices', t, heach, hremaining, hstates, -⟩ :=
    Registry.Reads.restoreEach_eq_ok (s := s.reset) (fun _ _ => getsOnly_restore _)
      (fun _ _ => h.free _) (by decide) rfl hreads
  have hrestore : boardRegistry.restore devices s.reset = (.ok (), devices', t) :=
    Registry.restore_eq_ok_iff.mpr ⟨heach, hremaining⟩
  obtain ⟨haccess, hreset⟩ := boardRegistry.restore_preserves devices s.reset getsOnly_restore
  have hbytes := congrArg Stream.bytes hreset
  rw [hrestore] at haccess hbytes
  refine ⟨devices', t, hrestore, ⟨?_, ?_⟩, hbytes⟩
  · intro i
    rw [haccess, h.free]
  · have huart := hstates ⟨⟨Part.uart.id, .uart, .startup⟩, uart.payload⟩ (by simp)
    have hstate : uart = devices'.state .uart :=
      Option.some.inj ((restored?_uart devices hfits).symm.trans huart)
    rwa [← hstate]

end Bench

end MachineFork

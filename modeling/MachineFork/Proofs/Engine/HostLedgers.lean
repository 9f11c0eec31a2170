import MachineFork.Proofs.Engine.Hosts
import MachineFork.Proofs.Engine.Ledgers

/-!
This module contains hosts together with their ledger. The devices may be borrowed while a call is
made, and calls may be made in the middle of a read.
-/

namespace MachineFork

variable {ι : Type} {M : Machine ι}

def Ledger.after (l : Ledger M) (h : Host M) : Host.Call M → Ledger M
  | .startUp _ | .register _ _ => l.register h.engine h.devices
  | .save id => l.save h.engine h.devices id
  | .fork id => if h.engine.readers = 0 then l.fork h.engine id else l
  | _ => l

namespace Host

variable {l : Ledger M} {h : Host M}

def leave (h : Host M) : Host M where
  engine := { h.engine with readers := h.engine.readers - 1 }
  devices := h.devices
  reading := h.reading.tail

variable [DecidableEq ι]

mutual

def Call.Registers : Call M → Prop
  | .startUp body => ∃ registering : Registry.Body M, body = registering.run
  | .read _ _ _ _ meanwhile _ => RegistersAll meanwhile
  | _ => True

def Call.RegistersAll : List (Call M) → Prop
  | [] => True
  | call :: calls => call.Registers ∧ RegistersAll calls

end

omit [DecidableEq ι] in
def Call.IsRead : Call M → Prop
  | .read _ _ _ _ _ _ => True
  | _ => False

/--
A host and its ledger. A read is entered and left, with the calls of its fallback in between.
-/
inductive Recorded : Host M → Ledger M → Prop where
  | start {config : Config} {engine : Engine ι} (hnew : Engine.new config = .ok engine)
    (devices : Devices M) : Recorded { engine, devices } { registered := fun _ => devices.state }
  | perform {h : Host M} {l : Ledger M} (hrec : Recorded h l) {call : Call M}
    (hread : ¬call.IsRead) (hregisters : call.Registers) :
    Recorded (h.perform call).2 (l.after h call)
  | enter {h : Host M} {l : Ledger M} (hrec : Recorded h l) {id : SnapshotId}
    (hid : (h.engine.snapshot? id).isSome) : Recorded (h.enter id) l
  | leave {h : Host M} {l : Ledger M} (hrec : Recorded h l) : Recorded h.leave l

def ledgerAfterAll (h : Host M) (l : Ledger M) : List (Call M) → Ledger M
  | [] => l
  | call :: calls => (h.perform call).2.ledgerAfterAll (l.after h call) calls

theorem Recorded.performAll {h : Host M} {l : Ledger M} (hrec : Recorded h l)
    {calls : List (Call M)} (hread : ∀ call ∈ calls, ¬call.IsRead)
    (hregisters : ∀ call ∈ calls, call.Registers) :
    Recorded (h.performAll calls) (h.ledgerAfterAll l calls) := by
  induction calls generalizing h l with
  | nil => exact hrec
  | cons call calls ih =>
    rw [List.forall_mem_cons] at hread hregisters
    exact ih (hrec.perform hread.1 hregisters.1) hread.2 hregisters.2

mutual

theorem Recorded.exists_perform {h : Host M} {l : Ledger M} (hrec : Recorded h l) :
    ∀ call : Call M, call.Registers → ∃ l', Recorded (h.perform call).2 l' := by
  intro call hregisters
  by_cases hread : call.IsRead
  · cases call with
    | read id disk index buffer meanwhile answer =>
      rw [Call.Registers] at hregisters
      unfold Host.perform
      apply Engine.readInto_preserves
        (fun engine devices => ∃ l', Recorded ⟨engine, devices, id :: h.reading⟩ l')
        (fun engine devices => ∃ l', Recorded ⟨engine, devices, h.reading⟩ l')
      · exact fun _ => ⟨l, hrec⟩
      · intro hid
        have hentered := hrec.enter hid
        refine ⟨⟨l, hentered⟩, fun old => ?_⟩
        obtain ⟨l', hafter⟩ := hentered.exists_performAll meanwhile hregisters
        have hreading := reading_performAll (h.enter id) meanwhile
        change ∃ l', Recorded ⟨((h.enter id).performAll meanwhile).engine,
          ((h.enter id).performAll meanwhile).devices, id :: h.reading⟩ l'
        generalize (h.enter id).performAll meanwhile = after at *
        obtain ⟨engine, devices, reading⟩ := after
        obtain rfl : reading = id :: h.reading := hreading
        exact ⟨l', hafter⟩
      · rintro engine devices ⟨l', hafter⟩
        exact ⟨l', hafter.leave⟩
    | _ => exact absurd hread id
  · exact ⟨_, hrec.perform hread hregisters⟩

theorem Recorded.exists_performAll {h : Host M} {l : Ledger M} (hrec : Recorded h l) :
    ∀ calls : List (Call M), Call.RegistersAll calls → ∃ l', Recorded (h.performAll calls) l'
  | [], _ => ⟨l, hrec⟩
  | call :: calls, hregisters => by
    rw [Call.RegistersAll] at hregisters
    obtain ⟨l', hrec'⟩ := hrec.exists_perform call hregisters.1
    exact hrec'.exists_performAll calls hregisters.2

end

end Host

/-! The calls of an engine about disks leave its snapshots alone. -/

namespace Engine

variable (e : Engine ι)

theorem narrows_attach (name : String) (image : BaseImage) :
    e.Narrows (e.attach name image).2 := by
  unfold attach
  dsimp only
  split
  · exact Narrows.settle.trans (.of_snapshots_eq rfl rfl rfl)
  · exact Narrows.settle.trans (.of_snapshots_eq rfl rfl rfl)

theorem narrows_detach (disk : DiskHandle) : e.Narrows (e.detach disk).2 := by
  unfold detach
  dsimp only
  split
  · exact Narrows.settle.trans (.of_snapshots_eq rfl rfl rfl)
  · exact Narrows.settle.trans (.of_snapshots_eq rfl rfl rfl)

theorem narrows_withNode (id : SnapshotId)
    (write : Lineage → NodeId → Except DiskError Unit × Lineage) :
    e.Narrows (e.withNode id write).2 := by
  unfold withNode
  split
  · exact .refl
  · split
    · exact .refl
    · exact Narrows.settle.trans (.of_snapshots_eq rfl rfl rfl)

end Engine

/-! The ledger stays right. -/

namespace Ledger.Sound

variable {l l' : Ledger M} {h : Host M}

theorem useAlone {α : Type} (hl : l.Sound h.engine) {done : Except EngineError α × Engine ι}
    (hdone : l'.Sound done.2) :
    (if h.engine.readers = 0 then l' else l).Sound (h.useAlone done).2.engine := by
  rw [Host.snd_useAlone]
  split
  · exact hdone
  · exact hl

theorem useAlone_self {α : Type} (hl : l.Sound h.engine) {done : Except EngineError α × Engine ι}
    (hdone : l.Sound done.2) : l.Sound (h.useAlone done).2.engine := by
  have hsound := hl.useAlone hdone
  rwa [ite_self] at hsound

variable [DecidableEq ι]

theorem perform (hl : l.Sound h.engine) (hfaithful : ∀ i, (M.model i).Faithful)
    {call : Host.Call M} (hread : ¬call.IsRead) (hregisters : call.Registers) :
    (l.after h call).Sound (h.perform call).2.engine := by
  have hsettle : l.Sound h.engine.settle := hl.narrow .settle
  cases call with
  | change => exact hl
  | startUp body =>
    obtain ⟨registering, rfl⟩ := hregisters
    exact hl.startUp h.devices registering
  | register id i => exact hl.register (fun i => (hfaithful i).puts) h.devices id i
  | attach name image => exact hl.useAlone_self (hl.narrow (h.engine.narrows_attach name image))
  | detach disk => exact hl.useAlone_self (hl.narrow (h.engine.narrows_detach disk))
  | addRoot => exact hl.useAlone_self hl.addRoot
  | save id => exact hl.save (fun i => (hfaithful i).puts) h.devices id
  | restore id =>
    exact hl.narrow (h.engine.narrows_restore h.devices (fun i => (hfaithful i).gets)
      fun s hs => (hl.keyed id s hs).1)
  | fork id => exact hl.useAlone (hl.fork id)
  | destroy id =>
    unfold Host.perform
    split
    · exact hl
    · exact hl.narrow (h.engine.narrows_destroy id)
  | write id | writeRun id => exact hl.useAlone_self (hl.narrow (h.engine.narrows_withNode id _))
  | read => exact absurd trivial hread
  | _ => exact hsettle

end Ledger.Sound

theorem Host.Recorded.sound [DecidableEq ι] {l : Ledger M} {h : Host M} (hrec : h.Recorded l)
    (hfaithful : ∀ i, (M.model i).Faithful) : l.Sound h.engine := by
  induction hrec with
  | start hnew devices =>
    obtain rfl := Engine.eq_of_new hnew
    exact .start _ devices.state
  | perform _ hread hregisters ih => exact ih.perform hfaithful hread hregisters
  | enter _ _ ih => exact ih.narrow (Engine.Narrows.settle.trans (.of_snapshots_eq rfl rfl rfl))
  | leave _ ih => exact ih.narrow (.of_snapshots_eq rfl rfl rfl)

end MachineFork

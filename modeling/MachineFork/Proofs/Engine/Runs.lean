import MachineFork.Proofs.Engine.Ledgers

/-!
This module contains runs of an engine together with their ledger. Between the calls the live devices
change in any way; during the calls nobody uses them.
-/

namespace MachineFork

variable {ι : Type}

inductive Action (M : Machine ι) where
  | change (state : (i : ι) → M.State i)
  | startUp (body : Registry.Body M)
  | register (id : DeviceId) (i : ι)
  | addRoot
  | save (id : SnapshotId)
  | restore (id : SnapshotId)
  | fork (id : SnapshotId)
  | destroy (id : SnapshotId)

structure World (M : Machine ι) extends Ledger M where
  engine : Engine ι
  devices : Devices M

namespace World

variable {M : Machine ι}

def start (config : Config) (state : (i : ι) → M.State i) : World M where
  engine := { config }
  devices := .ofState state
  registered _ := state

structure Sound (w : World M) : Prop where
  free : w.devices = .ofState w.devices.state
  ledger : w.toLedger.Sound w.engine

variable [DecidableEq ι]

def step (w : World M) : Action M → World M
  | .change state => { w with devices := { w.devices with state } }
  | .startUp body =>
    { w with
      engine := (w.engine.startUp body.run).2
      toLedger := w.toLedger.register w.engine w.devices }
  | .register id i =>
    { w with
      engine := (w.engine.register w.devices id i).2
      toLedger := w.toLedger.register w.engine w.devices }
  | .addRoot => { w with engine := w.engine.addRoot.2 }
  | .save id =>
    { w with
      engine := (w.engine.save w.devices id).2
      toLedger := w.toLedger.save w.engine w.devices id }
  | .restore id =>
    { w with
      engine := (w.engine.restore w.devices id).2.1
      devices := (w.engine.restore w.devices id).2.2 }
  | .fork id =>
    { w with
      engine := (w.engine.fork id).2
      toLedger := w.toLedger.fork w.engine id }
  | .destroy id => { w with engine := (w.engine.destroy id).2 }

def run (config : Config) (state : (i : ι) → M.State i) (actions : List (Action M)) : World M :=
  actions.foldl step (start config state)

/-! What a run keeps. -/

variable {w : World M}

theorem Sound.restore (h : w.Sound) (hgets : ∀ i state, ((M.model i).restore state).GetsOnly)
    (id : SnapshotId) : (w.step (.restore id)).Sound where
  free := by
    have haccess : (w.engine.restore w.devices id).2.2.access = fun _ => .free :=
      (Engine.access_restore hgets).trans (congrArg Devices.access h.free)
    simp only [World.step, Devices.ofState, ← haccess]
  ledger := h.ledger.narrow (w.engine.narrows_restore w.devices hgets
    fun s hs => (h.ledger.keyed id s hs).1)

theorem Sound.step (h : w.Sound) (hfaithful : ∀ i, (M.model i).Faithful) (action : Action M) :
    (w.step action).Sound := by
  cases action with
  | change state => exact ⟨by rw [World.step, h.free]; rfl, h.ledger⟩
  | startUp body => exact ⟨h.free, h.ledger.startUp w.devices body⟩
  | register id i => exact ⟨h.free, h.ledger.register (fun i => (hfaithful i).puts) w.devices id i⟩
  | addRoot => exact ⟨h.free, h.ledger.addRoot⟩
  | save id => exact ⟨h.free, h.ledger.save (fun i => (hfaithful i).puts) w.devices id⟩
  | restore id => exact h.restore (fun i => (hfaithful i).gets) id
  | fork id => exact ⟨h.free, h.ledger.fork id⟩
  | destroy id => exact ⟨h.free, h.ledger.narrow (w.engine.narrows_destroy id)⟩

theorem sound_run (hfaithful : ∀ i, (M.model i).Faithful) (config : Config)
    (state : (i : ι) → M.State i) (actions : List (Action M)) : (run config state actions).Sound := by
  have hfoldl (w : World M) (h : w.Sound) : (actions.foldl step w).Sound := by
    induction actions generalizing w with
    | nil => exact h
    | cons action rest ih => exact ih _ (h.step hfaithful action)
  exact hfoldl _ ⟨rfl, .start config state⟩

end World

end MachineFork

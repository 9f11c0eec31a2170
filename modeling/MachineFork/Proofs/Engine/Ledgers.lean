import MachineFork.Proofs.Engine.FailedSave
import MachineFork.Proofs.Registry.Registrations

/-!
This module contains ledgers of what the blobs and the registrations of an engine stand for: for
every snapshot what its blob, or the blob it was copied from, was saved with last, and for every
device what it was when it was registered. Neither is known to the engine. A save that fails is
entered if it has changed the blob.
-/

namespace MachineFork

variable {ι : Type}

structure Saved (M : Machine ι) where
  descriptors : List (Descriptor ι)
  state : (i : ι) → M.State i

structure Ledger (M : Machine ι) where
  /-- What each blob, or the blob that it was copied from, was saved with, if it still holds that. -/
  saved : SnapshotId → Option (Saved M) := fun _ => none
  everSaved : SnapshotId → Bool := fun _ => false
  registered : DeviceId → (i : ι) → M.State i

variable {M : Machine ι}

def Engine.blob? (e : Engine ι) (id : SnapshotId) : Option Bytes :=
  (e.snapshot? id).map (·.blob.bytes)

namespace Ledger

def register (l : Ledger M) (e : Engine ι) (devices : Devices M) : Ledger M :=
  { l with
    registered := fun id =>
      if e.registry.contains id then l.registered id else devices.state }

def save (l : Ledger M) (e : Engine ι) (devices : Devices M) (id : SnapshotId) : Ledger M :=
  match e.save devices id with
  | (.ok (), _) =>
    { l with
      saved := Function.update l.saved id (some ⟨e.registry.descriptors, devices.state⟩)
      everSaved := Function.update l.everSaved id true }
  | (.error _, e') =>
    if e'.blob? id = e.blob? id then
      l
    else
      { l with saved := Function.update l.saved id none }

def fork (l : Ledger M) (e : Engine ι) (id : SnapshotId) : Ledger M :=
  match (e.fork id).1 with
  | .ok (left, right) =>
    { l with
      saved := Function.update (Function.update l.saved left.id (l.saved id)) right.id
        (l.saved id) }
  | .error _ => l

end Ledger

/-! The invariant of a ledger. -/

variable {r r' : Registry ι} {bytes : Bytes}

structure Saved.Fits (saved : Saved M) (r : Registry ι) (bytes : Bytes) : Prop where
  layout : Registry.layout (.ofState saved.state) saved.descriptors = (.ok (), bytes)
  custom : ∃ late, r.descriptors = saved.descriptors ++ late ∧
    ∀ descriptor ∈ late, descriptor.isCustom

theorem Saved.Fits.mono {saved : Saved M} (h : saved.Fits r bytes) (hextends : r.Extends r')
    (hinit : r.isInitialized) : saved.Fits r' bytes := by
  obtain ⟨late, hlate, hcustom⟩ := h.custom
  obtain ⟨more, hmore, hcustom'⟩ := hextends.descriptors
  refine ⟨h.layout, late ++ more, by rw [hmore, hlate, List.append_assoc], ?_⟩
  intro descriptor hmem
  rcases List.mem_append.mp hmem with hmem | hmem
  · exact hcustom descriptor hmem
  · exact hcustom' hinit descriptor hmem

/--
Whether the entries are right, and where a blob is empty although its snapshot has been saved, all
devices were registered after startup.
-/
structure Ledger.Sound (l : Ledger M) (e : Engine ι) : Prop where
  records : e.registry.Records l.registered
  keyed : ∀ id s, e.snapshot? id = some s → s.id = id ∧ id.number < e.nextId
  initialized : ∀ id s, e.snapshot? id = some s → e.registry.isInitialized
  fresh : ∀ id, e.nextId ≤ id.number → l.saved id = none ∧ l.everSaved id = false
  saved : ∀ id s saved, e.snapshot? id = some s → l.saved id = some saved →
    saved.Fits e.registry s.blob.bytes
  custom : ∀ id s, e.snapshot? id = some s → l.everSaved id → s.blob.bytes = [] →
    ∀ descriptor ∈ e.registry.descriptors, descriptor.isCustom

namespace Ledger.Sound

variable {l : Ledger M} {e e' : Engine ι} {devices : Devices M}

theorem start (config : Config) (state : (i : ι) → M.State i) :
    Ledger.Sound { registered := fun _ => state } { config } where
  records := ⟨List.nodup_nil, by simp⟩
  keyed := by simp [Engine.snapshot?]
  initialized := by simp [Engine.snapshot?]
  fresh := fun _ _ => ⟨rfl, rfl⟩
  saved := by simp
  custom := by simp

theorem narrow (hl : l.Sound e) (hnarrows : e.Narrows e') : l.Sound e' where
  records := hnarrows.registry ▸ hl.records
  keyed := by
    intro id s hs
    obtain ⟨t, ht, hid, -⟩ := hnarrows.snapshots id s hs
    obtain ⟨hkey, hlt⟩ := hl.keyed id t ht
    exact ⟨hid.trans hkey, Nat.lt_of_lt_of_eq hlt hnarrows.nextId.symm⟩
  initialized := by
    intro id s hs
    obtain ⟨t, ht, -, -⟩ := hnarrows.snapshots id s hs
    exact hnarrows.registry ▸ hl.initialized id t ht
  fresh := fun id hid => hl.fresh id (Nat.le_trans (Nat.le_of_eq hnarrows.nextId.symm) hid)
  saved := by
    intro id s saved hs hsaved
    obtain ⟨t, ht, -, hbytes⟩ := hnarrows.snapshots id s hs
    rw [hbytes, hnarrows.registry]
    exact hl.saved id t saved ht hsaved
  custom := by
    intro id s hs hever hempty
    obtain ⟨t, ht, -, hbytes⟩ := hnarrows.snapshots id s hs
    rw [hbytes] at hempty
    rw [hnarrows.registry]
    exact hl.custom id t ht hever hempty

/-! Snapshots are put in and replaced. -/

theorem putSnapshot (hl : l.Sound e) {t : Snapshot} {nextId : Nat}
    (hinit : e.registry.isInitialized) (hlt : t.id.number < nextId) (hle : e.nextId ≤ nextId)
    (record : Option (Saved M))
    (hrecord : ∀ saved, record = some saved → saved.Fits e.registry t.blob.bytes)
    (everSaved : SnapshotId → Bool) (hothers : ∀ id, id ≠ t.id → everSaved id = l.everSaved id)
    (hcustom : everSaved t.id → t.blob.bytes = [] →
      ∀ descriptor ∈ e.registry.descriptors, descriptor.isCustom) :
    Ledger.Sound { l with saved := Function.update l.saved t.id record, everSaved }
      { e.setSnapshot t with nextId } where
  records := hl.records
  keyed := by
    intro id s hs
    change (e.setSnapshot t).snapshot? id = some s at hs
    rw [Engine.snapshot?_setSnapshot] at hs
    split at hs
    · next heq =>
      cases hs
      exact ⟨heq, heq ▸ hlt⟩
    · obtain ⟨hkey, hold⟩ := hl.keyed id s hs
      exact ⟨hkey, Nat.lt_of_lt_of_le hold hle⟩
  initialized := fun _ _ _ => hinit
  fresh := by
    intro id hid
    have hne : id ≠ t.id := by
      intro heq
      rw [heq] at hid
      exact Nat.not_le.mpr hlt hid
    obtain ⟨hsaved, hever⟩ := hl.fresh id (Nat.le_trans hle hid)
    dsimp only
    rw [Function.update_of_ne hne, hothers id hne]
    exact ⟨hsaved, hever⟩
  saved := by
    intro id s saved hs hsaved
    change (e.setSnapshot t).snapshot? id = some s at hs
    rw [Engine.snapshot?_setSnapshot] at hs
    dsimp only at hsaved
    split at hs
    · next heq =>
      cases hs
      subst heq
      rw [Function.update_self] at hsaved
      exact hrecord saved hsaved
    · next hne =>
      rw [Function.update_of_ne (Ne.symm hne)] at hsaved
      exact hl.saved id s saved hs hsaved
  custom := by
    intro id s hs hever hempty
    change (e.setSnapshot t).snapshot? id = some s at hs
    rw [Engine.snapshot?_setSnapshot] at hs
    dsimp only at hever
    split at hs
    · next heq =>
      cases hs
      rw [← heq] at hever
      exact hcustom hever hempty
    · next hne =>
      rw [hothers id (Ne.symm hne)] at hever
      exact hl.custom id s hs hever hempty

theorem addSnapshot (hl : l.Sound e) (hinit : e.registry.isInitialized) (blob : Stream)
    (node : NodeId) (record : Option (Saved M))
    (hrecord : ∀ saved, record = some saved → saved.Fits e.registry blob.bytes) :
    Ledger.Sound { l with saved := Function.update l.saved ⟨e.nextId⟩ record }
      (e.addSnapshot blob node).2 := by
  apply hl.putSnapshot (t := { id := ⟨e.nextId⟩, blob, node }) hinit (Nat.lt_succ_self _)
    (Nat.le_succ _) record hrecord l.everSaved (fun _ _ => rfl)
  intro hever
  rw [(hl.fresh ⟨e.nextId⟩ (Nat.le_refl _)).2] at hever
  contradiction

theorem setSnapshot (hl : l.Sound e) {s t : Snapshot} (hs : e.snapshot? t.id = some s)
    (record : Option (Saved M))
    (hrecord : ∀ saved, record = some saved → saved.Fits e.registry t.blob.bytes)
    (everSaved : SnapshotId → Bool) (hothers : ∀ id, id ≠ t.id → everSaved id = l.everSaved id)
    (hcustom : everSaved t.id → t.blob.bytes = [] →
      ∀ descriptor ∈ e.registry.descriptors, descriptor.isCustom) :
    Ledger.Sound { l with saved := Function.update l.saved t.id record, everSaved }
      (e.setSnapshot t) :=
  hl.putSnapshot (hl.initialized t.id s hs) (hl.keyed t.id s hs).2 (Nat.le_refl _) record hrecord
    everSaved hothers hcustom

theorem setBlob (hl : l.Sound e) {s : Snapshot} (hs : e.snapshot? s.id = some s) {blob : Stream}
    (hempty : blob.bytes = [] → s.blob.bytes = []) :
    Ledger.Sound
      (if (e.setSnapshot { s with blob }).blob? s.id = e.blob? s.id then l
        else { l with saved := Function.update l.saved s.id none })
      (e.setSnapshot { s with blob }) := by
  have hset (record : Option (Saved M))
      (hrecord : ∀ saved, record = some saved → saved.Fits e.registry blob.bytes) :=
    hl.setSnapshot (t := { s with blob }) hs record hrecord l.everSaved (fun _ _ => rfl)
      fun hever hnil => hl.custom s.id s hs hever (hempty hnil)
  have hafter : (e.setSnapshot { s with blob }).blob? s.id = some blob.bytes := by
    rw [Engine.blob?, Engine.snapshot?_setSnapshot, if_pos rfl]
    rfl
  have hbefore : e.blob? s.id = some s.blob.bytes := by
    rw [Engine.blob?, hs]
    rfl
  split
  · next hsame =>
    rw [hafter, hbefore, Option.some.injEq] at hsame
    have hkept := hset (l.saved s.id) fun saved hsaved => hsame ▸ hl.saved s.id s saved hs hsaved
    rw [Function.update_eq_self] at hkept
    exact hkept
  · exact hset none (by simp)

/-! The calls that make entries. -/

theorem save (hl : l.Sound e) (hputs : ∀ i state, ((M.model i).save state).PutsOnly)
    (devices : Devices M) (id : SnapshotId) :
    (l.save e devices id).Sound (e.save devices id).2 := by
  cases hs : e.snapshot? id with
  | none =>
    have hsave : e.save devices id = (.error (.noSnapshot id), e) := by
      simp [Engine.save, hs]
    rw [Ledger.save, hsave]
    dsimp only
    rw [if_pos rfl]
    exact hl
  | some s =>
    obtain ⟨rfl, -⟩ := hl.keyed id s hs
    rcases Engine.save_cases devices hs with
      ⟨-, error, hsave, -⟩ | ⟨-, ⟨failure, blob, hblob, hsave⟩ | ⟨blob, hblob, hsave⟩⟩
    · rw [Ledger.save, hsave]
      dsimp only
      rw [if_pos rfl]
      exact hl
    · have hbytes := Engine.saved_blob_of_putsOnly (fun _ _ => hputs _ _) hblob
      rw [Ledger.save, hsave]
      apply hl.setBlob hs
      intro hnil
      rw [hbytes] at hnil
      exact Bytes.eq_nil_of_overwrite (Nat.zero_le _) hnil
    · have hlayout := Registry.layout_of_save (fun _ _ => hputs _ _) rfl hblob
      have hset := hl.setSnapshot (t := { s with blob := blob.truncate }.noteSave e.config)
        (by rw [Snapshot.id_noteSave]; exact hs)
        (some ⟨e.registry.descriptors, devices.state⟩) ?_
        (Function.update l.everSaved s.id true) ?_ ?_
      · rw [Snapshot.id_noteSave] at hset
        rw [Ledger.save, hsave]
        exact hset
      · intro saved hsaved
        cases hsaved
        rw [Snapshot.bytes_noteSave]
        exact ⟨Registry.layout_ofState_of_ok hlayout, [], (List.append_nil _).symm, by simp⟩
      · intro id hne
        rw [Snapshot.id_noteSave] at hne
        exact Function.update_of_ne hne _ _
      · intro _ hnil
        rw [Snapshot.bytes_noteSave] at hnil
        rw [hnil] at hlayout
        simp [Registry.eq_nil_of_layout hlayout]

theorem fork (hl : l.Sound e) (id : SnapshotId) : (l.fork e id).Sound (e.fork id).2 := by
  rw [Ledger.fork]
  rcases e.fork_cases id fun s hs => (hl.keyed id s hs).1 with
    ⟨⟨error, herror⟩, hnarrows⟩ | ⟨s, e', left, right, hs, he, hresult, hfork⟩
  · rw [herror]
    exact hl.narrow hnarrows
  · rw [hresult, hfork]
    have hinit : e'.registry.isInitialized := he.registry ▸ hl.initialized id s hs
    have hrecord (saved : Saved M) (hsaved : l.saved id = some saved) :
        saved.Fits e'.registry s.blob.clone.bytes :=
      he.registry ▸ hl.saved id s saved hs hsaved
    have hleft := (hl.narrow he).addSnapshot hinit s.blob.clone left _ hrecord
    exact hleft.addSnapshot hinit s.blob.clone right _ hrecord

theorem addRoot (hl : l.Sound e) : l.Sound e.addRoot.2 := by
  rcases e.addRoot_cases with ⟨-, hnarrows⟩ | ⟨hinit, e', blob, node, he, -, hnarrows⟩
  · exact hl.narrow hnarrows
  · have hadd := (hl.narrow he).addSnapshot (he.registry ▸ hinit) blob node none (by simp)
    have hfresh := hl.fresh ⟨e'.nextId⟩ (Nat.le_of_eq he.nextId.symm)
    rw [← hfresh.1, Function.update_eq_self] at hadd
    exact hadd.narrow hnarrows

theorem setRegistry (hl : l.Sound e) (hextends : e.registry.Extends r)
    (hrecords : r.Records (l.register e devices).registered) :
    (l.register e devices).Sound { e with registry := r } where
  records := hrecords
  keyed := hl.keyed
  initialized := fun id s hs => hextends.initialized (hl.initialized id s hs)
  fresh := hl.fresh
  saved := fun id s saved hs hsaved =>
    (hl.saved id s saved hs hsaved).mono hextends (hl.initialized id s hs)
  custom := by
    intro id s hs hever hempty
    obtain ⟨more, hmore, hcustom⟩ := hextends.descriptors
    dsimp only
    rw [hmore, List.forall_mem_append]
    exact ⟨hl.custom id s hs hever hempty, hcustom (hl.initialized id s hs)⟩

theorem records_register (hl : l.Sound e) (devices : Devices M) :
    e.registry.Records (l.register e devices).registered :=
  hl.records.congr fun id hid => by simp [Ledger.register, Registry.contains, hid]

variable [DecidableEq ι]

theorem register (hl : l.Sound e) (hputs : ∀ i state, ((M.model i).save state).PutsOnly)
    (devices : Devices M) (id : DeviceId) (i : ι) :
    (l.register e devices).Sound (e.register devices id i).2 := by
  apply hl.setRegistry (e.registry.extends_register devices id i)
  apply (hl.records_register devices).register hputs
  intro id hnone
  simp [Ledger.register, Registry.contains, hnone]

theorem startUp (hl : l.Sound e) (devices : Devices M) (body : Registry.Body M) :
    (l.register e devices).Sound (e.startUp body.run).2 := by
  have hnow := hl.records_register devices
  have hrecords : (e.registry.startUp body.run).2.Records (l.register e devices).registered := by
    cases hinit : e.registry.isInitialized with
    | true =>
      rw [Registry.startUp_of_initialized _ hinit]
      exact hnow
    | false => exact hnow.startUp (hnow.run hinit body)
  exact hl.setRegistry (Registry.extends_startUp (body.extends_run _)) hrecords

theorem restore_of_saved (hl : l.Sound e) (hfaithful : ∀ i, (M.model i).Faithful)
    (hdistinct : (e.registry.descriptors.map (·.device)).Nodup)
    (hfree : ∀ i, devices.access i = .free) {id : SnapshotId} {s : Snapshot} {saved : Saved M}
    (hs : e.snapshot? id = some s) (hsaved : l.saved id = some saved) :
    ∃ devices' t, e.registry.restore devices s.blob.reset = (.ok (), devices', t) ∧
      (∀ descriptor ∈ saved.descriptors,
        devices'.state descriptor.device = saved.state descriptor.device) ∧
      ∀ descriptor ∈ e.registry.descriptors, descriptor ∉ saved.descriptors →
        descriptor.isCustom ∧
          devices'.state descriptor.device = l.registered descriptor.id descriptor.device := by
  have hfits := hl.saved id s saved hs hsaved
  obtain ⟨late, hall, hcustom⟩ := hfits.custom
  obtain ⟨devices', t, hrestore, hearlyState, hlateState⟩ :=
    Registry.restore_of_layout (s := s.blob.reset) hfaithful hall hfits.layout
      (fun descriptor hmem => hl.records.exists_section
        (hall ▸ List.mem_append_right _ hmem) (hcustom descriptor hmem))
      hdistinct hfree rfl rfl
  refine ⟨devices', t, hrestore, hearlyState, ?_⟩
  intro descriptor hmem hnotMem
  rw [hall] at hmem
  have hlate := (List.mem_append.mp hmem).resolve_left hnotMem
  exact ⟨hcustom descriptor hlate, hlateState descriptor hlate⟩

end Ledger.Sound

end MachineFork

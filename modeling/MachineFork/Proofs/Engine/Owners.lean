import MachineFork.Engine.Path
import MachineFork.Engine.Sectors
import MachineFork.Proofs.Engine.Snapshots
import MachineFork.Proofs.Lineage.Owners

/-!
This module contains the snapshots of an engine as the owners of the lineage's nodes. The calls of
an engine keep it that way, whether a read is going on or not: what cannot be released at once is
pending until it can.
-/

namespace MachineFork

@[simp]
theorem Snapshot.node_noteSave (s : Snapshot) (config : Config) :
    (s.noteSave config).node = s.node := by
  unfold noteSave
  dsimp only
  split <;> split <;> rfl

@[simp]
theorem Snapshot.frozen_noteSave (s : Snapshot) (config : Config) :
    (s.noteSave config).frozen = s.frozen := by
  unfold noteSave
  dsimp only
  split <;> split <;> rfl

theorem Lineage.Owned.releaseAll {l : Lineage} {owners : List (NodeId × Bool)}
    {pending : List NodeId} (h : l.Owned owners pending) :
    (Engine.releaseAll l pending).Owned owners [] := by
  induction pending generalizing l with
  | nil => exact h
  | cons node rest ih => exact ih h.release

namespace Engine

variable {ι : Type} {M : Machine ι} {e : Engine ι} {devices : Devices M} {id other : SnapshotId}
variable {s t : Snapshot} {reading : List SnapshotId} {lineage : Lineage}

def owners (e : Engine ι) : List (NodeId × Bool) :=
  e.snapshots.entries.map fun (_, s) => (s.node, s.frozen)

structure Keeps (e : Engine ι) (reading : List SnapshotId) : Prop where
  keyed : ∀ id s, e.snapshot? id = some s → s.id = id ∧ id.number < e.nextId
  readers : e.readers = reading.length
  reading : ∀ id ∈ reading, (e.snapshot? id).isSome

structure Owns (e : Engine ι) (reading : List SnapshotId) : Prop extends e.Keeps reading where
  owned : e.lineage.Owned e.owners e.pending

theorem perm_owners (hs : e.snapshot? id = some s) :
    e.owners.Perm ((s.node, s.frozen) :: { e with snapshots := e.snapshots.erase id }.owners) :=
  (e.snapshots.perm_erase hs).map _

theorem mem_owners (hs : e.snapshot? id = some s) : (s.node, s.frozen) ∈ e.owners :=
  (perm_owners hs).mem_iff.mpr (.head _)

theorem Owns.isFrozen (h : e.Owns reading) (hs : e.snapshot? id = some s) :
    e.lineage.isFrozen s.node = .ok s.frozen :=
  h.owned.frozen _ (mem_owners hs)

theorem Owns.live (h : e.Owns reading) (hs : e.snapshot? id = some s) :
    ∃ node, e.lineage.node? s.node = some node ∧ node.frozen = s.frozen :=
  h.owned.live (mem_owners hs)

theorem Owns.node_ne (h : e.Owns reading) (hs : e.snapshot? id = some s)
    (ht : e.snapshot? other = some t) (hne : id ≠ other) : t.node ≠ s.node := by
  have ht' : { e with snapshots := e.snapshots.erase id }.snapshot? other = some t := by
    rw [snapshot?, Table.find?_erase, if_neg hne]
    exact ht
  have hnodup := ((perm_owners hs).map Prod.fst).nodup_iff.mp h.owned.nodup
  rw [List.map_cons, List.nodup_cons] at hnodup
  intro heq
  apply hnodup.1
  dsimp only
  rw [← heq]
  exact List.mem_map_of_mem (mem_owners ht')

theorem Owns.empty (config : Config) : Owns (ι := ι) { config } [] where
  keyed := by simp [snapshot?]
  readers := rfl
  reading := by simp
  owned := .empty

/-! Settling. -/

theorem deactivate_eq (e : Engine ι) (id : SnapshotId) :
    ∃ active, e.deactivate id = { e with active } := by
  unfold deactivate
  split
  · exact ⟨none, rfl⟩
  · exact ⟨e.active, rfl⟩

theorem Owns.settle (h : e.Owns reading) : e.settle.Owns reading := by
  unfold Engine.settle
  split
  · exact ⟨⟨h.keyed, h.readers, h.reading⟩, h.owned.releaseAll⟩
  · exact h

/-! Snapshots that are put in place of others, or added. -/

theorem Keeps.setSnapshot (h : e.Keeps reading) (hid : s.id.number < e.nextId) :
    (e.setSnapshot s).Keeps reading where
  keyed := by
    intro id t ht
    simp only [snapshot?, Engine.setSnapshot, Table.find?_insert] at ht
    split at ht
    · next heq =>
      obtain rfl := Option.some.inj ht
      exact ⟨heq, heq ▸ hid⟩
    · exact h.keyed id t ht
  readers := h.readers
  reading := by
    intro id hmem
    have := h.reading id hmem
    simp only [snapshot?, Engine.setSnapshot, Table.find?_insert] at this ⊢
    split
    · rfl
    · exact this

theorem Keeps.addSnapshot (h : e.Keeps reading) (blob : Stream) (node : NodeId) :
    (e.addSnapshot blob node).2.Keeps reading := by
  have hnext : { e with nextId := e.nextId + 1 }.Keeps reading :=
    ⟨fun id s hs => (h.keyed id s hs).imp_right Nat.lt_succ_of_lt, h.readers, h.reading⟩
  exact hnext.setSnapshot (Nat.lt_succ_self _)

theorem Keeps.owners_addSnapshot (h : e.Keeps reading) (blob : Stream) (node : NodeId) :
    (e.addSnapshot blob node).2.owners = (node, false) :: e.owners := by
  have hnone : e.snapshots.find? ⟨e.nextId⟩ = none := by
    cases hs : e.snapshots.find? ⟨e.nextId⟩ with
    | none => rfl
    | some s => exact absurd (h.keyed _ s hs).2 (Nat.lt_irrefl _)
  simp only [Engine.addSnapshot, owners, Engine.setSnapshot, Table.insert, List.map_cons,
    Table.entries_erase_of_find?_eq_none _ hnone]

theorem Owns.setSnapshot (h : e.Owns reading) (hs : e.snapshot? id = some s) (hid : t.id = s.id)
    (hnode : t.node = s.node) (hfrozen : t.frozen = s.frozen) : (e.setSnapshot t).Owns reading := by
  obtain ⟨hkey, hlt⟩ := h.keyed id s hs
  refine ⟨h.toKeeps.setSnapshot (by rw [hid, hkey]; exact hlt), ?_⟩
  have howned := h.owned.perm (perm_owners hs)
  rw [← hnode, ← hfrozen, ← hkey, ← hid] at howned
  exact howned

/-! Disks and devices. -/

theorem Owns.setRegistry (h : e.Owns reading) (registry : Registry ι) :
    { e with registry }.Owns reading :=
  ⟨⟨h.keyed, h.readers, h.reading⟩, h.owned⟩

theorem Owns.setActive (h : e.Owns reading) (active : Option SnapshotId) :
    { e with active }.Owns reading :=
  ⟨⟨h.keyed, h.readers, h.reading⟩, h.owned⟩

theorem Owns.setLineage (h : e.Owns reading) (howned : lineage.Owned e.owners e.pending)
    (images : Table DiskHandle BaseImage) : { e with lineage, images }.Owns reading :=
  ⟨⟨h.keyed, h.readers, h.reading⟩, howned⟩

theorem Owns.attach (h : e.Owns reading) (name : String) (image : BaseImage) :
    (e.attach name image).2.Owns reading := by
  have hsettled := h.settle
  have howned := hsettled.owned.perform (.attach name image.sectorCount) rfl rfl
    fun id => Lineage.isFrozen_attach _ _ _ id
  unfold Engine.attach
  dsimp only [Lineage.perform] at howned ⊢
  split
  · next hattach =>
    rw [hattach] at howned
    exact hsettled.setLineage howned _
  · next hattach =>
    rw [hattach] at howned
    exact hsettled.setLineage howned _

theorem Owns.detach (h : e.Owns reading) (disk : DiskHandle) :
    (e.detach disk).2.Owns reading := by
  have hsettled := h.settle
  have howned := hsettled.owned.perform (.detach disk) rfl rfl
    fun id => Lineage.isFrozen_detach _ _ id
  unfold Engine.detach
  dsimp only [Lineage.perform] at howned ⊢
  split
  · next hdetach =>
    rw [hdetach] at howned
    exact hsettled.setLineage howned _
  · next hdetach =>
    rw [hdetach] at howned
    exact hsettled.setLineage howned _

theorem Owns.withNode (h : e.Owns reading) (id : SnapshotId)
    {write : Lineage → NodeId → Except DiskError Unit × Lineage}
    (hwrite : ∀ l node owners pending, l.Owned owners pending →
      (write l node).2.Owned owners pending) :
    (e.withNode id write).2.Owns reading := by
  unfold Engine.withNode
  split
  · exact h
  · split
    · exact h
    · exact h.settle.setLineage (hwrite _ _ _ _ h.settle.owned) _

theorem Owns.write (h : e.Owns reading) (id : SnapshotId) (disk : DiskHandle) (index : UInt64)
    (data : Bytes) : (e.write id disk index data).2.Owns reading :=
  h.withNode id fun _ node _ _ howned =>
    howned.perform (.write node disk index data) rfl rfl
      fun other => Lineage.isFrozen_write _ _ _ _ _ other

theorem Owns.writeRun (h : e.Owns reading) (id : SnapshotId) (disk : DiskHandle) (first : UInt64)
    (data : Bytes) : (e.writeRun id disk first data).2.Owns reading :=
  h.withNode id fun _ node _ _ howned =>
    howned.perform (.writeRun node disk first data) rfl rfl
      fun other => Lineage.isFrozen_writeRun _ _ _ _ _ other

/-! Paths. -/

theorem Owns.save (h : e.Owns reading) (devices : Devices M) (id : SnapshotId) :
    (e.save devices id).2.Owns reading := by
  cases hs : e.snapshot? id with
  | none => simpa [Engine.save, hs] using h
  | some s =>
    rcases save_cases devices hs with
      ⟨-, error, hsave, -⟩ | ⟨-, ⟨failure, blob, -, hsave⟩ | ⟨blob, -, hsave⟩⟩
    · rw [hsave]
      exact h
    · rw [hsave]
      exact h.setSnapshot hs rfl rfl rfl
    · rw [hsave]
      exact h.setSnapshot hs (by simp) (by simp) (by simp)

theorem Owns.restore [DecidableEq ι] (h : e.Owns reading) (devices : Devices M)
    (id : SnapshotId) : (e.restore devices id).2.1.Owns reading := by
  unfold Engine.restore
  split
  · exact h
  · next s hs =>
    split
    · exact h
    · split
      · exact h
      · split
        · next blob _ =>
          have hset := h.setSnapshot (t := { s with blob }) hs rfl rfl rfl
          exact hset.setActive none
        · next blob _ =>
          have hset := h.setSnapshot (t := { s with blob, restored := true }) hs rfl rfl rfl
          exact hset.setActive (some id)

theorem Owns.addRoot (h : e.Owns reading) : e.addRoot.2.Owns reading := by
  unfold Engine.addRoot
  split
  · exact h
  · split
    · exact h
    · split
      · exact h
      · next blob _ =>
        have hsettled := h.settle
        dsimp only
        split
        · next lineage hroot =>
          rw [Lineage.eq_of_addRoot_error hroot]
          exact hsettled
        · next node lineage hroot =>
          have hkeeps : { e.settle with lineage, rootCreated := true }.Keeps reading :=
            ⟨hsettled.keyed, hsettled.readers, hsettled.reading⟩
          have howned := hsettled.owned.addRoot hroot
          have howns : ({ e.settle with lineage, rootCreated := true }.addSnapshot blob node).2.Owns
              reading := by
            refine ⟨hkeeps.addSnapshot blob node, ?_⟩
            rw [hkeeps.owners_addSnapshot]
            exact howned
          exact howns.setActive _

theorem Owns.split {left right : NodeId} (h : e.Owns reading) (hs : e.snapshot? id = some s)
    (hopen : s.frozen = false) (hfork : e.lineage.fork s.node = (.ok (left, right), lineage))
    (active : Option SnapshotId) (blob blob' : Stream) :
    (({ { e with lineage }.setSnapshot { s with frozen := true } with active }.addSnapshot
      blob left).2.addSnapshot blob' right).2.Owns reading := by
  obtain ⟨hkey, hlt⟩ := h.keyed id s hs
  have hsplit : { e with lineage }.Keeps reading := ⟨h.keyed, h.readers, h.reading⟩
  have hset : ({ e with lineage }.setSnapshot { s with frozen := true }).Keeps reading :=
    hsplit.setSnapshot (by rw [hkey]; exact hlt)
  have hactive :
      { { e with lineage }.setSnapshot { s with frozen := true } with active }.Keeps reading :=
    ⟨hset.keyed, hset.readers, hset.reading⟩
  refine ⟨(hactive.addSnapshot blob left).addSnapshot blob' right, ?_⟩
  rw [(hactive.addSnapshot blob left).owners_addSnapshot, hactive.owners_addSnapshot]
  have howned := h.owned.perm (perm_owners hs)
  rw [hopen, ← hkey] at howned
  exact (howned.fork hfork).perm (.swap ..)

theorem Owns.fork (h : e.Owns reading) (id : SnapshotId) : (e.fork id).2.Owns reading := by
  unfold Engine.fork
  split
  · exact h
  · next s hs =>
    split
    · exact h
    · next hfrozen =>
      split
      · exact h.settle
      · have hsettled := h.settle
        have hs' := (e.snapshot?_settle id).trans hs
        dsimp only
        split
        · next lineage hfork =>
          rw [Lineage.eq_of_fork_error hfork]
          exact hsettled
        · next left right lineage hfork =>
          obtain ⟨active, hactive⟩ :=
            deactivate_eq ({ e.settle with lineage }.setSnapshot { s with frozen := true }) id
          rw [hactive]
          exact hsettled.split hs' (by simpa using hfrozen) hfork active s.blob.clone s.blob.clone

theorem destroy_eq_settle (hs : e.snapshot? id = some s) :
    ∃ active, (e.destroy id).2 =
      { e with
        active
        snapshots := e.snapshots.erase id
        pending := e.pending ++ [s.node] }.settle := by
  -- To release a node that belongs to nobody any more is the same as to put off its release, and
  -- then do what can be done at once.
  obtain ⟨active, hactive⟩ := e.deactivate_eq id
  refine ⟨active, ?_⟩
  unfold Engine.destroy Engine.settle
  rw [hs, hactive]
  dsimp only
  split
  · simp [releaseAll]
  · rfl

theorem Owns.destroy (h : e.Owns reading) (hid : id ∉ reading) :
    (e.destroy id).2.Owns reading := by
  cases hs : e.snapshot? id with
  | none => simpa [Engine.destroy, hs] using h
  | some s =>
    obtain ⟨active, hdestroy⟩ := destroy_eq_settle hs
    rw [hdestroy]
    refine Owns.settle ⟨⟨?_, h.readers, ?_⟩, (h.owned.perm (perm_owners hs)).putOff⟩
    · intro other t ht
      simp only [snapshot?, Table.find?_erase] at ht
      split at ht
      · contradiction
      · exact h.keyed other t ht
    · intro other hmem
      have := h.reading other hmem
      simp only [snapshot?, Table.find?_erase] at this ⊢
      rw [if_neg]
      · exact this
      · rintro rfl
        exact hid hmem

theorem snapshot?_destroy (e : Engine ι) (id other : SnapshotId) :
    (e.destroy id).2.snapshot? other = if id = other then none else e.snapshot? other := by
  cases hs : e.snapshot? id with
  | none =>
    have hsame : (e.destroy id).2 = e := by simp [Engine.destroy, hs]
    rw [hsame]
    split
    · next heq => rw [← heq, hs]
    · rfl
  | some s =>
    obtain ⟨active, hdestroy⟩ := destroy_eq_settle hs
    rw [hdestroy, snapshot?_settle]
    apply Table.find?_erase

/-! Who refers to a node. -/

theorem Owns.refcount_eq (h : e.Owns reading) {node : NodeId} {n : Node}
    (hnode : e.lineage.node? node = some n) :
    n.refcount = e.snapshots.entries.countP (·.2.node = node) + e.pending.count node
      + e.lineage.childCount node := by
  have hrefs := h.owned.counted.refcount_eq hnode
  have hcount : (e.owners.map Prod.fst).count node
      = e.snapshots.entries.countP (·.2.node = node) := by
    rw [owners, List.map_map, List.count, List.countP_map]
    rfl
  rw [hcount, Bool.toNat_false] at hrefs
  omega

theorem Owns.stats_eq_zero (h : e.Owns reading) (hnone : ∀ id, e.snapshot? id = none) :
    e.stats.liveNodes = 0 ∧ e.stats.overlaySectors = 0 ∧ e.stats.overlayBytes = 0 := by
  have hreaders : e.readers = 0 := by
    -- Only snapshots are read, so no read can be going on.
    rw [h.readers, List.length_eq_zero_iff, List.eq_nil_iff_forall_not_mem]
    intro id hmem
    have hread := h.reading id hmem
    simp [hnone id] at hread
  have hsettled := h.owned.releaseAll
  rw [owners, e.snapshots.entries_eq_nil hnone] at hsettled
  unfold stats Engine.settle
  rw [if_pos hreaders]
  exact hsettled.eq_zero

/-! Reads. -/

theorem Owns.enter (h : e.Owns reading) (hid : (e.snapshot? id).isSome) :
    { e with readers := e.readers + 1 }.Owns (id :: reading) :=
  ⟨⟨h.keyed, congrArg (· + 1) h.readers, List.forall_mem_cons.mpr ⟨hid, h.reading⟩⟩, h.owned⟩

theorem Owns.leave (h : e.Owns (id :: reading)) :
    { e with readers := e.readers - 1 }.Owns reading :=
  ⟨⟨h.keyed, congrArg (· - 1) h.readers, (List.forall_mem_cons.mp h.reading).2⟩, h.owned⟩

theorem readInto_preserves {τ : Type} {disk : DiskHandle} {index : UInt64} {buffer : Bytes}
    {fallback : Fallback (Engine ι × τ)} {state : τ} (P Q : Engine ι → τ → Prop)
    (hnone : e.snapshot? id = none → Q e state)
    (henter : (e.snapshot? id).isSome →
      P { e.settle with readers := e.settle.readers + 1 } state ∧
        ∀ old, let during :=
            (fallback disk index old
              ({ e.settle with readers := e.settle.readers + 1 }, state)).2.2
          P during.1 during.2)
    (hleave : ∀ e state, P e state → Q { e with readers := e.readers - 1 } state) :
    Q (e.readInto id disk index buffer fallback state).2.2.1
      (e.readInto id disk index buffer fallback state).2.2.2 := by
  unfold readInto
  split
  · next hs => exact hnone hs
  · next s hs =>
    obtain ⟨hentered, hfallback⟩ := henter (by simp [hs])
    apply hleave
    exact e.settle.lineage.read_preserves
      (P := fun during : Engine ι × τ => P during.1 during.2) s.node buffer hentered hfallback

theorem Owns.readInto {τ : Type} (h : e.Owns reading) (disk : DiskHandle) (index : UInt64)
    (buffer : Bytes) {fallback : Fallback (Engine ι × τ)} (state : τ)
    (hfallback : ∀ old e state, e.Owns (id :: reading) →
      (fallback disk index old (e, state)).2.2.1.Owns (id :: reading)) :
    (e.readInto id disk index buffer fallback state).2.2.1.Owns reading := by
  apply readInto_preserves (fun e _ => e.Owns (id :: reading)) (fun e _ => e.Owns reading)
  · exact fun _ => h
  · intro hid
    have hentered := h.settle.enter (by rwa [snapshot?_settle])
    exact ⟨hentered, fun old => hfallback old _ state hentered⟩
  · exact fun _ _ hafter => hafter.leave

end Engine

end MachineFork

import MachineFork.Proofs.Bench.Boards
import MachineFork.Proofs.Engine.Depths
import MachineFork.Proofs.Lineage.Consistency
import MachineFork.Proofs.Lineage.Room

/-!
This module contains the tree that a benchmark grows: an engine all of whose snapshots are paths
that have been saved and not been forked. Such an engine refuses nothing but forks that are too deep,
or for which there are no slots any more.
-/

namespace MachineFork

namespace Engine

variable {ι : Type} {M : Machine ι} {e : Engine ι} {id : SnapshotId} {s : Snapshot}

theorem settle_of_pending (h : e.pending = []) : e.settle = e := by
  unfold settle
  split
  · rw [h]
    show { e with pending := [] } = e
    rw [← h]
  · rfl

theorem save_of_ok {devices : Devices M} {blob : Stream} (hs : e.snapshot? id = some s)
    (hopen : s.frozen = false) (hactive : e.active = some id)
    (h : e.registry.save devices s.blob.reset = (.ok (), blob)) :
    e.save devices id
      =
    (.ok (), e.setSnapshot ({ s with blob := blob.truncate }.noteSave e.config)) := by
  rw [save, hs]
  dsimp only
  rw [if_neg (by simp [hopen]), if_neg (by simp [hactive]), h]

theorem fork_of_refused {error : EngineError} (hs : e.snapshot? id = some s)
    (hopen : s.frozen = false) (h : e.requireDepth id = .error error) :
    e.fork id = (.error error, e.settle) := by
  rw [fork, hs]
  dsimp only
  rw [if_neg (by simp [hopen]), h]

theorem fork_of_error {error : DiskError} {lineage : Lineage} (hs : e.snapshot? id = some s)
    (hopen : s.frozen = false) (hrequire : e.requireDepth id = .ok ())
    (h : e.settle.lineage.fork s.node = (.error error, lineage)) :
    e.fork id = (.error (.disk error), { e.settle with lineage }) := by
  rw [fork, hs]
  dsimp only
  rw [if_neg (by simp [hopen]), hrequire, h]

theorem fork_of_ok {left right : NodeId} {lineage : Lineage} (hs : e.snapshot? id = some s)
    (hopen : s.frozen = false) (hrequire : e.requireDepth id = .ok ())
    (h : e.settle.lineage.fork s.node = (.ok (left, right), lineage)) :
    let e' := ({ e.settle with lineage }.setSnapshot { s with frozen := true }).deactivate id
    let first := e'.addSnapshot s.blob.clone left
    let second := first.2.addSnapshot s.blob.clone right
    e.fork id = (.ok (first.1, second.1), second.2) := by
  rw [fork, hs]
  dsimp only
  rw [if_neg (by simp [hopen]), hrequire, h]

end Engine

namespace Bench

open Engine

variable {e : Engine Part} {forks : Nat} {paths : List SnapshotId} {id : SnapshotId}
variable {s t : Snapshot} {devices : Devices board}

structure Tended (e : Engine Part) (forks : Nat) : Prop extends e.Owns [] where
  settled : e.pending = []
  registry_eq : e.registry = boardRegistry
  sparing : e.lineage.Sparing
  nodes_eq : e.lineage.stats.liveNodes + e.lineage.stats.releasedNodes = 1 + 2 * forks
  depth_le : ∀ id n, e.depth? id = some n →
    n ≤ forks ∧ ∀ limit, e.config.maxForkDepth = some limit → n ≤ limit

structure Leaves (e : Engine Part) (paths : List SnapshotId) : Prop where
  nodup : paths.Nodup
  mem_iff : ∀ id, id ∈ paths ↔ (e.snapshot? id).isSome
  unforked : ∀ id s, e.snapshot? id = some s → s.frozen = false ∧ Saved s.blob.bytes

structure Steady (e e' : Engine Part) : Prop where
  config : e'.config = e.config
  disks : e'.lineage.disks = e.lineage.disks

theorem Steady.trans {e₁ e₂ : Engine Part} (h : Steady e e₁) (hnext : Steady e₁ e₂) :
    Steady e e₂ :=
  ⟨hnext.config.trans h.config, hnext.disks.trans h.disks⟩

theorem Leaves.exists_snapshot (h : Leaves e paths) (hid : id ∈ paths) :
    ∃ s, e.snapshot? id = some s ∧ s.frozen = false ∧ Saved s.blob.bytes := by
  obtain ⟨s, hs⟩ := Option.isSome_iff_exists.mp ((h.mem_iff id).mp hid)
  exact ⟨s, hs, h.unforked id s hs⟩

theorem Leaves.perm {others : List SnapshotId} (h : Leaves e paths)
    (hperm : others.Perm paths) : Leaves e others where
  nodup := hperm.nodup_iff.mpr h.nodup
  mem_iff id := hperm.mem_iff.trans (h.mem_iff id)
  unforked := h.unforked

namespace Tended

theorem settle_eq (h : Tended e forks) : e.settle = e :=
  settle_of_pending h.settled

theorem setSnapshot (h : Tended e forks) (hs : e.snapshot? id = some s) (hid : t.id = s.id)
    (hnode : t.node = s.node) (hfrozen : t.frozen = s.frozen) :
    Tended (e.setSnapshot t) forks where
  toOwns := h.toOwns.setSnapshot hs hid hnode hfrozen
  settled := h.settled
  registry_eq := h.registry_eq
  sparing := h.sparing
  nodes_eq := h.nodes_eq
  depth_le := by
    intro other n hn
    exact h.depth_le other n ((SparesDisks.setSnapshot h.toKeeps hs hid hnode).keepsDepths _ _ hn)

theorem setActive (h : Tended e forks) (active : Option SnapshotId) :
    Tended { e with active } forks :=
  { h with toOwns := h.toOwns.setActive active }

end Tended

theorem Leaves.setSnapshot (h : Leaves e paths) (hs : e.snapshot? t.id = some s)
    (hopen : t.frozen = false) (hsaved : Saved t.blob.bytes) : Leaves (e.setSnapshot t) paths where
  nodup := h.nodup
  mem_iff := by
    intro id
    rw [h.mem_iff, snapshot?_setSnapshot]
    split
    · next heq => rw [← heq, hs]; simp
    · rfl
  unforked := by
    intro id u hu
    rw [snapshot?_setSnapshot] at hu
    split at hu
    · cases hu
      exact ⟨hopen, hsaved⟩
    · exact h.unforked id u hu

/-! Saving and restoring a path. -/

theorem Tended.restore (h : Tended e forks) (hleaves : Leaves e paths) (hid : id ∈ paths)
    (hready : Ready devices) :
    ∃ e' devices', e.restore devices id = (.ok (), e', devices') ∧ Tended e' forks ∧
      Leaves e' paths ∧ Ready devices' ∧ e'.active = some id ∧ Steady e e' := by
  obtain ⟨s, hs, hopen, hsaved⟩ := hleaves.exists_snapshot hid
  have hkey := (h.keyed id s hs).1
  obtain ⟨devices', blob, hrestore, hready', hbytes⟩ := hready.restore hsaved
  rw [← h.registry_eq] at hrestore
  have hlive : ¬(s.blob.isEmpty ∧ e.active = some id) := by
    intro hempty
    have hlength := hsaved.length.1
    rw [List.isEmpty_iff.mp hempty.1] at hlength
    contradiction
  rw [restore_of_ok hs hopen hlive hrestore]
  refine ⟨_, devices', rfl, ?_, ?_, hready', rfl, ⟨rfl, rfl⟩⟩
  · exact (h.setSnapshot (t := { s with blob, restored := true }) hs rfl rfl rfl).setActive _
  · rw [← hkey] at hs
    have hset := hleaves.setSnapshot (t := { s with blob, restored := true }) hs hopen
      (by rw [hbytes]; exact hsaved)
    exact ⟨hset.nodup, hset.mem_iff, hset.unforked⟩

theorem Tended.exists_save (h : Tended e forks) (hs : e.snapshot? id = some s)
    (hopen : s.frozen = false) (hactive : e.active = some id) (hready : Ready devices) :
    ∃ t, e.save devices id = (.ok (), e.setSnapshot t) ∧ t.id = id ∧ t.frozen = false ∧
      Saved t.blob.bytes ∧ Tended (e.setSnapshot t) forks := by
  obtain ⟨blob, hsave, hsaved⟩ := hready.save (s := s.blob.reset) rfl
  rw [← h.registry_eq] at hsave
  refine ⟨_, save_of_ok hs hopen hactive hsave, ?_, ?_, ?_, ?_⟩
  · rw [Snapshot.id_noteSave]
    exact (h.keyed id s hs).1
  · rw [Snapshot.frozen_noteSave]
    exact hopen
  · rw [Snapshot.bytes_noteSave]
    exact hsaved
  · exact h.setSnapshot hs (by simp) (by simp) (by simp)

theorem Tended.save (h : Tended e forks) (hleaves : Leaves e paths) (hid : id ∈ paths)
    (hactive : e.active = some id) (hready : Ready devices) :
    ∃ e', e.save devices id = (.ok (), e') ∧ Tended e' forks ∧ Leaves e' paths ∧
      e'.active = e.active ∧ Steady e e' := by
  obtain ⟨s, hs, hopen, -⟩ := hleaves.exists_snapshot hid
  obtain ⟨t, hsave, hkey, hopen', hsaved, htended⟩ := h.exists_save hs hopen hactive hready
  rw [← hkey] at hs
  exact ⟨_, hsave, htended, hleaves.setSnapshot hs hopen' hsaved, rfl, ⟨rfl, rfl⟩⟩

/-! Writing to a path. -/

theorem Tended.write {disk : DiskHandle} {count index : UInt64} (h : Tended e forks)
    (hleaves : Leaves e paths) (hid : id ∈ paths)
    (hdisk : e.lineage.sectorCount disk = .ok count) (hindex : index < count) (sector : Sector) :
    ∃ e', e.write id disk index sector.bytes = (.ok (), e') ∧ Tended e' forks ∧ Leaves e' paths ∧
      e'.active = e.active ∧ Steady e e' := by
  obtain ⟨s, hs, hopen, -⟩ := hleaves.exists_snapshot hid
  obtain ⟨node, hnode, hfrozen⟩ := h.live hs
  have hlineage := Lineage.write_eq_ok hdisk hindex hnode (hfrozen.trans hopen) sector
  have hwrite : e.write id disk index sector.bytes
      = (.ok (), { e with lineage := e.lineage.store s.node node (disk, index) sector }) := by
    rw [Engine.write, withNode, hs]
    dsimp only
    rw [if_neg (by simp [hopen]), h.settle_eq, hlineage]
    rfl
  have hperform : e.lineage.perform (.write s.node disk index sector.bytes)
      = e.lineage.store s.node node (disk, index) sector := congrArg Prod.snd hlineage
  refine ⟨_, hwrite, ?_, ⟨hleaves.nodup, hleaves.mem_iff, hleaves.unforked⟩, rfl,
    ⟨rfl, Lineage.disks_store _ _⟩⟩
  constructor
  · have howns := h.toOwns.write id disk index sector.bytes
    rw [hwrite] at howns
    exact howns
  · exact h.settled
  · exact h.registry_eq
  · exact h.sparing.store hnode _ _
  · have hturnover := (Lineage.Turnover.refl e.lineage).store s.node node (disk, index) sector
    exact hturnover.nodes_eq.trans h.nodes_eq
  · intro other n hn
    have hkeeps : e.KeepsDepths
        { e with lineage := e.lineage.store s.node node (disk, index) sector } :=
      h.toOwns.keepsDepths (.write s.node disk index sector.bytes) hperform.symm rfl
    exact h.depth_le other n (hkeeps other n hn)

/-! Destroying a path. -/

theorem Tended.exists_destroy (h : Tended e forks) (hs : e.snapshot? id = some s) :
    ∃ active, (e.destroy id).2 =
      { e with
        active
        snapshots := e.snapshots.erase id
        lineage := (e.lineage.release s.node).2 } := by
  obtain ⟨active, hactive⟩ := e.deactivate_eq id
  have hreaders : e.readers = 0 := h.readers
  have hsettle : { e with active, snapshots := e.snapshots.erase id }.settle = _ :=
    settle_of_pending h.settled
  refine ⟨active, ?_⟩
  unfold Engine.destroy
  rw [hs, hactive]
  dsimp only
  rw [if_pos hreaders, hsettle]

theorem Tended.destroy (h : Tended e forks) (hs : e.snapshot? id = some s) :
    Tended (e.destroy id).2 forks ∧ Steady e (e.destroy id).2 := by
  have howns : (e.destroy id).2.Owns [] := h.toOwns.destroy (by simp)
  have hkeeps := (SparesDisks.destroy e id).keepsDepths
  obtain ⟨active, hdestroy⟩ := h.exists_destroy hs
  rw [hdestroy] at howns hkeeps ⊢
  have hturnover := h.owned.tallied.turnover_releaseUp (some s.node) (e.lineage.slots.size + 1)
  refine ⟨?_, rfl, (e.lineage.frame_release s.node).1⟩
  exact {
    toOwns := howns
    settled := h.settled
    registry_eq := h.registry_eq
    sparing := h.sparing.releaseUp h.owned.tallied _ _
    nodes_eq := hturnover.nodes_eq.trans h.nodes_eq
    depth_le := fun other n hn => h.depth_le other n (hkeeps other n hn) }

theorem Leaves.destroy (h : Leaves e paths) (id : SnapshotId) :
    Leaves (e.destroy id).2 (paths.erase id) where
  nodup := h.nodup.erase id
  mem_iff := by
    intro other
    rw [h.nodup.mem_erase_iff, h.mem_iff, snapshot?_destroy]
    split
    · next heq => simp [heq]
    · next hne => simp [Ne.symm hne]
  unforked := by
    intro other s hs
    rw [snapshot?_destroy] at hs
    split at hs
    · contradiction
    · exact h.unforked other s hs

/-! Forking a path. -/

structure Splits (e : Engine Part) (s left right : Snapshot) (e' : Engine Part) : Prop where
  snapshot? : ∀ id, e'.snapshot? id =
    if right.id = id then some right
    else if left.id = id then some left
    else if s.id = id then some { s with frozen := true }
    else e.snapshot? id
  left_ne_right : left.id ≠ right.id
  fresh : e.snapshot? left.id = none ∧ e.snapshot? right.id = none
  unforked : ∀ child ∈ [left, right], child.frozen = false ∧ child.blob.bytes = s.blob.bytes

theorem Tended.splits {left right : NodeId} {lineage : Lineage} (h : Tended e forks)
    (active : Option SnapshotId) :
    let e' := { { e with lineage }.setSnapshot { s with frozen := true } with active }
    let first := e'.addSnapshot s.blob.clone left
    let second := first.2.addSnapshot s.blob.clone right
    Splits e s first.1 second.1 second.2 := by
  have hfresh {number : Nat} (hle : e.nextId ≤ number) : e.snapshot? ⟨number⟩ = none := by
    cases hs : e.snapshot? ⟨number⟩ with
    | none => rfl
    | some s => exact absurd (h.keyed _ s hs).2 (Nat.not_lt.mpr hle)
  constructor
  · intro id
    rw [snapshot?_addSnapshot, snapshot?_addSnapshot]
    exact if_congr Iff.rfl rfl
      (if_congr Iff.rfl rfl (snapshot?_setSnapshot { e with lineage } { s with frozen := true } id))
  · intro heq
    exact absurd (congrArg SnapshotId.number heq) (Nat.ne_of_lt (Nat.lt_succ_self _))
  · exact ⟨hfresh (Nat.le_refl _), hfresh (Nat.le_succ _)⟩
  · intro child hchild
    rcases List.mem_pair.mp hchild with rfl | rfl
    · exact ⟨rfl, rfl⟩
    · exact ⟨rfl, rfl⟩

theorem Tended.of_fork {left right : Snapshot} {nodes : NodeId × NodeId} {e' : Engine Part}
    (h : Tended e forks) (hlineage : e.lineage.fork s.node = (.ok nodes, e'.lineage))
    (hfork : e.fork id = (.ok (left, right), e')) (hpending : e'.pending = e.pending)
    (hregistry : e'.registry = e.registry) (hconfig : e'.config = e.config) :
    Tended e' (forks + 1) where
  toOwns := by
    have howns := h.toOwns.fork id
    rwa [hfork] at howns
  settled := hpending.trans h.settled
  registry_eq := hregistry.trans h.registry_eq
  sparing := by
    have hsparing := h.sparing.fork h.owned.tallied.freeSlots s.node
    rwa [hlineage] at hsparing
  nodes_eq := by
    have hnodes := (e.lineage.turnover_fork s.node).nodes_eq
    have hbefore := h.nodes_eq
    rw [hlineage] at hnodes
    simp only [Except.isOk, Except.toBool, Bool.toNat_true] at hnodes
    omega
  depth_le := by
    have hdeepens := h.toOwns.deepens_fork id
    rw [hfork] at hdeepens
    intro other n hn
    rw [hconfig]
    rcases hdeepens.kept other n hn with hold | hnew
    · obtain ⟨hforks, hlimit⟩ := h.depth_le other n hold
      exact ⟨Nat.le_succ_of_le hforks, hlimit⟩
    · obtain ⟨birth, hbirth, rfl⟩ := List.mem_map.mp hnew
      obtain ⟨m, hm, hallots⟩ := hdeepens.allotted birth hbirth
      cases Option.some.inj (hm.symm.trans hn)
      have hparent : birth.parent = some id := by
        rcases List.mem_pair.mp hbirth with rfl | rfl
        · rfl
        · rfl
      rw [hparent] at hallots
      obtain ⟨above, habove, rfl, hlimit⟩ := hallots
      exact ⟨Nat.succ_le_succ (h.depth_le id above habove).1, hlimit⟩

theorem Tended.fork_cases (h : Tended e forks) (hs : e.snapshot? id = some s)
    (hopen : s.frozen = false) :
    (∃ depth limit, e.fork id = (.error (.depthLimit depth limit), e)) ∨
      (∃ needed, Lineage.maxIndex < needed ∧ needed ≤ 2 * forks + 3 ∧
        e.fork id = (.error (.disk (.outOfMemory needed)), e)) ∨
      ∃ left right e', e.fork id = (.ok (left, right), e') ∧ Splits e s left right e' ∧
        Tended e' (forks + 1) ∧ Steady e e' := by
  obtain ⟨n, hn⟩ := h.toOwns.exists_depth hs
  have hrequire := requireDepth_eq (h.toOwns.depth_eq_ok_iff.mpr hn)
  obtain ⟨node, hnode, hfrozen⟩ := h.live hs
  have hsize := h.sparing.size_le
  have hnodes := h.nodes_eq
  cases hresult : e.requireDepth id with
  | error error =>
    have hfork := fork_of_refused hs hopen hresult
    rw [hresult] at hrequire
    rw [h.settle_eq] at hfork
    split at hrequire
    · contradiction
    · split at hrequire
      · cases hrequire
        exact .inl ⟨_, _, hfork⟩
      · contradiction
  | ok =>
    rcases h.sparing.fork_cases hnode (hfrozen.trans hopen) with
      ⟨needed, hfull, hneeded, hlineage⟩ | ⟨left, right, lineage, hlineage⟩
    · have hfork := fork_of_error hs hopen hresult (by rwa [h.settle_eq])
      rw [h.settle_eq] at hfork
      exact .inr (.inl ⟨needed, hfull, by omega, hfork⟩)
    · have hfork := fork_of_ok hs hopen hresult (by rwa [h.settle_eq])
      obtain ⟨active, hactive⟩ :=
        deactivate_eq ({ e with lineage }.setSnapshot { s with frozen := true }) id
      rw [h.settle_eq, hactive] at hfork
      exact .inr (.inr ⟨_, _, _, hfork, h.splits active, h.of_fork hlineage hfork rfl rfl rfl,
        rfl, Lineage.disks_of_fork hlineage⟩)

theorem Leaves.fork {left right : Snapshot} {e' : Engine Part} (h : Leaves e paths)
    (hs : e.snapshot? s.id = some s) (hsplits : Splits e s left right e') :
    Leaves (e'.destroy s.id).2 (paths.erase s.id ++ [left.id, right.id]) := by
  have hnew {child : Snapshot} (hnone : e.snapshot? child.id = none) : child.id ∉ paths := by
    rw [h.mem_iff, hnone]
    simp
  have hself {child : Snapshot} (hnone : e.snapshot? child.id = none) : s.id ≠ child.id := by
    intro heq
    rw [← heq, hs] at hnone
    contradiction
  have hsnapshot (id : SnapshotId) : (e'.destroy s.id).2.snapshot? id =
      if s.id = id then none
      else if right.id = id then some right
      else if left.id = id then some left
      else e.snapshot? id := by
    rw [snapshot?_destroy, hsplits.snapshot?]
    split
    · rfl
    · rfl
  obtain ⟨hleft, hright⟩ := hsplits.fresh
  constructor
  · rw [List.nodup_append]
    refine ⟨h.nodup.erase s.id, by simpa using hsplits.left_ne_right, ?_⟩
    intro old hold new hmem heq
    have hmem' := List.mem_of_mem_erase hold
    rcases List.mem_pair.mp hmem with rfl | rfl
    · exact hnew hleft (heq ▸ hmem')
    · exact hnew hright (heq ▸ hmem')
  · intro id
    rw [hsnapshot, List.mem_append, List.mem_pair, h.nodup.mem_erase_iff, h.mem_iff]
    split
    · next heq =>
      subst heq
      simp [hself hleft, hself hright]
    · next hne =>
      split
      · next heq => simp [heq]
      · next hr =>
        split
        · next heq => simp [heq]
        · next hl => simp [Ne.symm hne, Ne.symm hr, Ne.symm hl]
  · intro id u hu
    have hsaved := (h.unforked s.id s hs).2
    rw [hsnapshot] at hu
    split at hu
    · contradiction
    · split at hu
      · cases hu
        obtain ⟨hopen, hbytes⟩ := hsplits.unforked right (by simp)
        exact ⟨hopen, hbytes ▸ hsaved⟩
      · split at hu
        · cases hu
          obtain ⟨hopen, hbytes⟩ := hsplits.unforked left (by simp)
          exact ⟨hopen, hbytes ▸ hsaved⟩
        · exact h.unforked id u hu

end Bench

end MachineFork

import MachineFork.Proofs.Bench.Trees

/-!
This module contains what the steps of a benchmark preserve. A session is sound as long as its paths
are the leaves of its tree and fit the round it is in. From a sound session a whole round succeeds,
unless there are no slots for the children of a fork.
-/

namespace MachineFork

namespace Bench

variable {config : Config} {rounds place : Nat} {s : Session} {failure : Failure}

/--
Whether a failure says that there are no slots for the children of a fork. That takes half as many
attempts as there are slots.
-/
def Exhausted (attempts : Nat) (failure : Failure) : Prop :=
  2 ^ 31 ≤ attempts ∧
    ∃ needed, Lineage.maxIndex < needed ∧ failure = .ofEngine (.disk (.outOfMemory needed))

theorem Exhausted.mono {attempts more : Nat} (h : Exhausted attempts failure)
    (hle : attempts ≤ more) : Exhausted more failure :=
  ⟨Nat.le_trans h.1 hle, h.2⟩

theorem Exhausted.of_needed {attempts forks needed : Nat} (hfull : Lineage.maxIndex < needed)
    (hneeded : needed ≤ 2 * forks + 3) (hforks : forks < attempts) :
    Exhausted attempts (.ofEngine (.disk (.outOfMemory needed))) := by
  refine ⟨?_, needed, hfull, rfl⟩
  have hmax : Lineage.maxIndex = 2 ^ 32 - 1 := rfl
  omega

/--
Whether a result has the property `P`, or there is none because the slots have run out.
-/
def Delivers {α : Type} (attempts : Nat) (P : α → Prop) : Except Failure α → Prop
  | .ok value => P value
  | .error failure => Exhausted attempts failure

theorem Rolls.below_lt (rolls : Rolls) {bound : Nat} (h : 0 < bound) :
    (rolls.below bound).1 < bound :=
  Nat.mod_lt _ h

theorem swapRemove_perm {α : Type} {list : List α} (h : place < list.length) :
    (swapRemove list place).Perm (list.eraseIdx place) := by
  have hne : list ≠ [] := List.ne_nil_of_length_pos (by omega)
  have hset (last : α) : list.set place last ≠ [] := by simpa using hne
  have hend : (list.set place (list.getLast hne)).getLast (hset _) = list.getLast hne := by
    rw [List.getLast_eq_getElem, List.getLast_eq_getElem, List.getElem_set]
    simp
  have hperm := List.set_perm_cons_eraseIdx h (list.getLast hne)
  rw [← List.dropLast_concat_getLast (hset _), hend] at hperm
  rw [swapRemove, List.getLast?_eq_some_getLast hne]
  exact ((List.perm_append_singleton _ _).symm.trans hperm).cons_inv

namespace Session

structure Sound (s : Session) (config : Config) (rounds : Nat) : Prop where
  tended : Tended s.engine s.forks
  leaves : Leaves s.engine s.paths
  ready : Ready s.devices
  config_eq : s.engine.config = config
  attached : s.engine.lineage.sectorCount s.disk = .ok s.sectorCount
  sectorCount_ne : s.sectorCount ≠ 0
  rounds_eq : s.forks + s.depthLimited = rounds
  length_ge : min (s.forks + 1) 2 ≤ s.paths.length

structure Standing (s : Session) (config : Config) (rounds place : Nat) : Prop
    extends s.Sound config rounds where
  place_lt : place < s.paths.length
  active : s.engine.active = some (s.path place)

theorem path_eq (h : place < s.paths.length) : s.path place = s.paths[place] := by
  rw [path, List.getD_eq_getElem?_getD, List.getElem?_eq_getElem h, Option.getD_some]

theorem path_mem (h : place < s.paths.length) : s.path place ∈ s.paths := by
  rw [path_eq h]
  exact List.getElem_mem h

theorem Sound.update {engine : Engine Part} {devices : Devices board} (h : s.Sound config rounds)
    (htended : Tended engine s.forks) (hleaves : Leaves engine s.paths)
    (hsteady : Steady s.engine engine) (hready : Ready devices) (rolls : Rolls) (restores : Nat) :
    { s with engine, devices, rolls, restores }.Sound config rounds where
  tended := htended
  leaves := hleaves
  ready := hready
  config_eq := hsteady.config.trans h.config_eq
  attached := (Lineage.sectorCount_of_disks_eq hsteady.disks s.disk).trans h.attached
  sectorCount_ne := h.sectorCount_ne
  rounds_eq := h.rounds_eq
  length_ge := h.length_ge

theorem Sound.roll (h : s.Sound config rounds) (rolls : Rolls) :
    { s with rolls }.Sound config rounds :=
  h.update h.tended h.leaves ⟨rfl, rfl⟩ h.ready rolls s.restores

theorem Sound.length_pos (h : s.Sound config rounds) : 0 < s.paths.length := by
  have hlength := h.length_ge
  omega

/-! A path is chosen, restored and exercised. -/

theorem Sound.choose (h : s.Sound config rounds) :
    s.choose.1 < s.choose.2.paths.length ∧ s.choose.2.Sound config rounds :=
  ⟨Rolls.below_lt _ h.length_pos, h.roll _⟩

theorem Sound.restore (h : s.Sound config rounds) (hplace : place < s.paths.length) :
    ∃ s', s.restore place = .ok s' ∧ s'.Standing config rounds place := by
  obtain ⟨engine, devices, hrestore, htended, hleaves, hready, hactive, hsteady⟩ :=
    h.tended.restore h.leaves (path_mem hplace) h.ready
  refine ⟨{ s with engine, devices, restores := s.restores + 1 }, ?_, ?_⟩
  · rw [Session.restore, hrestore]
  · exact ⟨h.update htended hleaves hsteady hready s.rolls _, hplace, hactive⟩

theorem Standing.emulate (h : s.Standing config rounds place) :
    s.emulate.Standing config rounds place := by
  have hready : Ready s.emulate.devices := by
    constructor
    · intro i
      unfold Session.emulate
      simp [h.ready.free]
    · unfold Session.emulate
      simpa using h.ready.fits.emulate _
  exact ⟨h.update h.tended h.leaves ⟨rfl, rfl⟩ hready _ _, h.place_lt, h.active⟩

theorem ofNat_mod_lt {count : UInt64} (h : count ≠ 0) (n : Nat) :
    UInt64.ofNat (n % count.toNat) < count := by
  have hpos : 0 < count.toNat := by
    rw [Nat.pos_iff_ne_zero]
    intro heq
    exact h (UInt64.toNat_inj.mp heq)
  have hmod := Nat.mod_lt n hpos
  rw [UInt64.lt_iff_toNat_lt, UInt64.toNat_ofNat_of_lt' (Nat.lt_trans hmod count.toNat_lt)]
  exact hmod

def marked (byte : UInt8) : Sector where
  bytes := byte :: List.replicate (sectorSize - 1) 0
  length_eq := by rw [List.length_cons, List.length_replicate, sectorSize]

theorem Standing.write (h : s.Standing config rounds place) (count : Nat) :
    ∃ s', s.write place count = .ok s' ∧ s'.Standing config rounds place := by
  induction count generalizing s with
  | zero => exact ⟨s, rfl, h⟩
  | succ count ih =>
    have hindex := ofNat_mod_lt h.sectorCount_ne s.rolls.next.1.toNat
    obtain ⟨engine, hwrite, htended, hleaves, hactive, hsteady⟩ :=
      h.tended.write h.leaves (path_mem h.place_lt) h.attached hindex
        (marked s.rolls.next.2.byte.1)
    obtain ⟨s', hrest, hstanding⟩ := ih (s := { s with rolls := s.rolls.next.2.byte.2, engine })
      ⟨h.update htended hleaves hsteady h.ready _ _, h.place_lt, hactive.trans h.active⟩
    refine ⟨s', ?_, hstanding⟩
    rw [← hrest, Session.write]
    unfold marked at hwrite
    dsimp only [Rolls.below, Rolls.byte, Rolls.next] at hwrite ⊢
    rw [hwrite]

theorem Standing.save (h : s.Standing config rounds place) :
    ∃ s', s.save place = .ok s' ∧ s'.Standing config rounds place := by
  obtain ⟨engine, hsave, htended, hleaves, hactive, hsteady⟩ :=
    h.tended.save h.leaves (path_mem h.place_lt) h.active h.ready
  refine ⟨{ s with engine }, ?_, ?_⟩
  · rw [Session.save, hsave]
  · exact ⟨h.update htended hleaves hsteady h.ready s.rolls s.restores, h.place_lt,
      hactive.trans h.active⟩

theorem Standing.exercise (h : s.Standing config rounds place) (writes : Nat) :
    ∃ s', s.exercise place writes = .ok s' ∧ s'.Standing config rounds place := by
  obtain ⟨written, hwrite, hwritten⟩ := h.emulate.write writes
  obtain ⟨saved, hsave, hsaved⟩ := hwritten.save
  refine ⟨saved, ?_, hsaved⟩
  rw [Session.exercise, hwrite]
  exact hsave

/-! A path is forked, and maybe another one is given up. -/

theorem paths_drop (hnodup : s.paths.Nodup) (hplace : place < s.paths.length) :
    (s.drop place).paths.Perm (s.paths.erase (s.path place)) := by
  rw [path_eq hplace, hnodup.erase_getElem]
  exact swapRemove_perm hplace

theorem Sound.regrow {engine : Engine Part} {paths : List SnapshotId} (h : s.Sound config rounds)
    (more : Nat) (htended : Tended engine (s.forks + more)) (hleaves : Leaves engine paths)
    (hsteady : Steady s.engine engine) (hlength : min (s.forks + more + 1) 2 ≤ paths.length) :
    { s with engine, paths, forks := s.forks + more }.Sound config (rounds + more) where
  tended := htended
  leaves := hleaves
  ready := h.ready
  config_eq := hsteady.config.trans h.config_eq
  attached := (Lineage.sectorCount_of_disks_eq hsteady.disks s.disk).trans h.attached
  sectorCount_ne := h.sectorCount_ne
  rounds_eq := by
    have hrounds := h.rounds_eq
    dsimp only
    omega
  length_ge := hlength

theorem Sound.drop (h : s.Sound config rounds) (hplace : place < s.paths.length)
    (hlength : min (s.forks + 1) 2 < s.paths.length) : (s.drop place).Sound config rounds := by
  have hmem := path_mem hplace
  obtain ⟨t, ht, -⟩ := h.leaves.exists_snapshot hmem
  obtain ⟨htended, hsteady⟩ := h.tended.destroy ht
  have hpaths := paths_drop h.leaves.nodup hplace
  apply h.regrow 0 htended ((h.leaves.destroy (s.path place)).perm hpaths) hsteady
  rw [hpaths.length_eq, List.length_erase_of_mem hmem]
  exact Nat.le_sub_one_of_lt hlength

theorem Sound.retire (h : s.Sound config rounds) : s.retire.Sound config rounds := by
  unfold Session.retire
  split
  · exact h
  · next hlength =>
    dsimp only
    split
    · exact h.roll _
    · refine (h.roll _).drop (Rolls.below_lt _ h.length_pos) ?_
      dsimp only
      omega

theorem Sound.split {t left right : Snapshot} {engine : Engine Part} {paths : List SnapshotId}
    (h : s.Sound config rounds) (hplace : place < s.paths.length)
    (ht : s.engine.snapshot? (s.path place) = some t)
    (hsplits : Splits s.engine t left right engine) (htended : Tended engine (s.forks + 1))
    (hsteady : Steady s.engine engine)
    (hpaths : paths.Perm (s.paths.erase (s.path place) ++ [left.id, right.id])) :
    { s with
      engine := (engine.destroy (s.path place)).2
      forks := s.forks + 1
      paths }.Sound config (rounds + 1) := by
  have hmem := path_mem hplace
  have hkey := (h.tended.keyed _ t ht).1
  rw [← hkey] at ht hmem hpaths ⊢
  have hforked : (engine.snapshot? t.id).isSome := by
    rw [hsplits.snapshot?, if_pos (rfl : t.id = t.id)]
    split
    · rfl
    · split <;> rfl
  obtain ⟨u, hu⟩ := Option.isSome_iff_exists.mp hforked
  obtain ⟨hdestroyed, hpruned⟩ := htended.destroy hu
  apply h.regrow 1 hdestroyed ((h.leaves.fork ht hsplits).perm hpaths) (hsteady.trans hpruned)
  have hlength := List.length_erase_of_mem hmem
  have hpos := h.length_pos
  rw [hpaths.length_eq, List.length_append, hlength, List.length_cons, List.length_singleton]
  omega

theorem Sound.fork (h : s.Sound config rounds) (hplace : place < s.paths.length) :
    Delivers (rounds + 1) (·.2.Sound config (rounds + 1)) (s.fork place) := by
  obtain ⟨t, ht, hopen, -⟩ := h.leaves.exists_snapshot (path_mem hplace)
  have hrounds := h.rounds_eq
  rcases h.tended.fork_cases ht hopen with
    ⟨depth, limit, hfork⟩ | ⟨needed, hfull, hneeded, hfork⟩ |
      ⟨left, right, engine, hfork, hsplits, htended, hsteady⟩
  · rw [Session.fork, hfork]
    exact { h with rounds_eq := congrArg (· + 1) hrounds }
  · rw [Session.fork, hfork]
    exact .of_needed hfull hneeded (by omega)
  · have hpaths := paths_drop h.leaves.nodup hplace
    rw [Session.fork, hfork]
    exact h.split hplace ht hsplits htended hsteady (hpaths.append_right _)

/-! A session starts with the root. -/

def mounted (config : Config) (image : BaseImage) : Engine Part where
  config
  registry := boardRegistry
  lineage.disks := #[some { name := "hda", sectorCount := image.sectorCount }]
  images := (∅ : Table DiskHandle BaseImage).insert ⟨0⟩ image

theorem attach_board (config : Config) (image : BaseImage) :
    ({ config, registry := boardRegistry } : Engine Part).attach "hda" image
      =
    (.ok ⟨0⟩, mounted config image) :=
  rfl

theorem owns_mounted (config : Config) (image : BaseImage) : (mounted config image).Owns [] :=
  ((Engine.Owns.empty config).setRegistry boardRegistry).attach "hda" image

def root (config : Config) : Snapshot where
  id := ⟨0⟩
  blob := { capacity := config.preferredSize }
  node := ⟨0, 0⟩

def planted (config : Config) (image : BaseImage) : Engine Part :=
  { ({ mounted config image with
      lineage := ((mounted config image).lineage.insertNode { parent := none, depth := 0 }).2
      rootCreated := true }.addSnapshot (root config).blob (root config).node).2 with
    active := some (root config).id }

theorem addRoot_mounted (image : BaseImage) (h : config.preferredSize ≤ Config.maxPreferredSize) :
    (mounted config image).addRoot = (.ok (root config), planted config image) := by
  have hcapacity : Stream.withCapacity (mounted config image).config.preferredSize
      = .ok (root config).blob :=
    if_pos (Nat.lt_of_le_of_lt h (by decide))
  unfold Engine.addRoot
  rw [hcapacity]
  rfl

theorem tended_planted (image : BaseImage) (h : config.preferredSize ≤ Config.maxPreferredSize) :
    Tended (planted config image) 0 where
  toOwns := by
    have howns := (owns_mounted config image).addRoot
    rwa [addRoot_mounted image h] at howns
  settled := rfl
  registry_eq := rfl
  sparing := by
    have hmounted : (mounted config image).lineage.Sparing :=
      ⟨Nat.zero_le _, fun hnode _ => absurd hnode (by simp [mounted, Lineage.node?])⟩
    exact hmounted.insertNode (owns_mounted config image).owned.tallied.freeSlots _ (Nat.le_refl 1)
  nodes_eq := rfl
  depth_le := by
    have hdeepens := (owns_mounted config image).deepens_addRoot
    rw [addRoot_mounted image h] at hdeepens
    intro id n hn
    rcases hdeepens.kept id n hn with hold | hnew
    · contradiction
    · obtain ⟨birth, hbirth, rfl⟩ := List.mem_map.mp hnew
      obtain ⟨m, hm, hallots⟩ := hdeepens.allotted birth hbirth
      cases Option.some.inj (hm.symm.trans hn)
      cases List.mem_singleton.mp hbirth
      cases hallots
      exact ⟨Nat.zero_le _, fun _ _ => Nat.zero_le _⟩

theorem snapshot?_planted (image : BaseImage) (id : SnapshotId) :
    (planted config image).snapshot? id
      =
    if (root config).id = id then some (root config) else none :=
  Engine.snapshot?_addSnapshot _ _ _ id

theorem leaves_planted {saved : Snapshot} (image : BaseImage) (hkey : saved.id = (root config).id)
    (hopen : saved.frozen = false) (hsaved : Saved saved.blob.bytes) :
    Leaves ((planted config image).setSnapshot saved) [(root config).id] := by
  have hsnapshot (id : SnapshotId) :
      ((planted config image).setSnapshot saved).snapshot? id
        =
      if (root config).id = id then some saved else none := by
    rw [Engine.snapshot?_setSnapshot, snapshot?_planted, hkey]
    split <;> rfl
  constructor
  · exact List.nodup_singleton _
  · intro id
    rw [hsnapshot, List.mem_singleton]
    split
    · next heq => simp [heq]
    · next hne => simp [Ne.symm hne]
  · intro id t ht
    rw [hsnapshot] at ht
    split at ht
    · cases ht
      exact ⟨hopen, hsaved⟩
    · contradiction

theorem start_sound (image : BaseImage) (rolls : Rolls)
    (hsize : config.preferredSize ≤ Config.maxPreferredSize) (himage : image.sectorCount ≠ 0) :
    ∃ s, start { config, registry := boardRegistry } image rolls = .ok s ∧
      s.Sound config 0 := by
  obtain ⟨saved, hsave, hkey, hopen, hsaved, htended⟩ :=
    (tended_planted image hsize).exists_save (s := root config) rfl rfl rfl ready_powerOn
  refine ⟨{
    engine := (planted config image).setSnapshot saved
    devices := powerOn
    disk := ⟨0⟩
    paths := [(root config).id]
    rolls
    sectorCount := image.sectorCount }, ?_, ?_⟩
  · have hroot := addRoot_mounted image hsize
    unfold start
    rw [if_neg himage, attach_board]
    dsimp only [Except.mapError, bind, Except.bind, pure, Except.pure]
    rw [hroot]
    dsimp only
    rw [hsave]
  · exact {
      tended := htended
      leaves := leaves_planted image hkey hopen hsaved
      ready := ready_powerOn
      config_eq := rfl
      attached := rfl
      sectorCount_ne := himage
      rounds_eq := rfl
      length_ge := Nat.le_refl 1 }

end Session

end Bench

end MachineFork

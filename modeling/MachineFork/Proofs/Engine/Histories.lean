import MachineFork.Proofs.Engine.Evolution
import MachineFork.Proofs.Engine.Hosts

/-!
This module contains the histories of programs that use an engine in any way: which snapshots they make,
and which snapshot is active in between. Snapshots are numbered as they are made and no number is used
again, also when a snapshot is gone; and the live devices are never taken to hold the state of a
snapshot that has been forked or is gone.
-/

namespace MachineFork

namespace Host

variable {ι : Type} {M : Machine ι} {h g : Host M} {born : List Birth}

/--
The snapshots that a call makes. A read makes none, because all calls that could are left out while
it goes on.
-/
def births (h : Host M) : Call M → List Birth
  | .addRoot => if h.engine.readers = 0 then Birth.ofRoot h.engine.addRoot.1 else []
  | .fork id => if h.engine.readers = 0 then Birth.ofFork id (h.engine.fork id).1 else []
  | _ => []

theorem births_eq_nil (hreaders : h.engine.readers ≠ 0) (call : Call M) : h.births call = [] := by
  unfold births
  split
  · rw [if_neg hreaders]
  · rw [if_neg hreaders]
  · rfl

theorem evolves_useAlone {α : Type} {done : Except EngineError α × Engine ι}
    (hdone : h.engine.Evolves born done.2) :
    h.engine.Evolves (if h.engine.readers = 0 then born else []) (h.useAlone done).2.engine := by
  rw [snd_useAlone]
  split
  · exact hdone
  · exact .refl

theorem evolves_useAlone_nil {α : Type} {done : Except EngineError α × Engine ι}
    (hdone : h.engine.Evolves [] done.2) : h.engine.Evolves [] (h.useAlone done).2.engine := by
  have hevolves := evolves_useAlone hdone
  rwa [ite_self] at hevolves

theorem evolves_enter (h : Host M) (id : SnapshotId) :
    h.engine.Evolves [] (h.enter id).engine := by
  apply Engine.Evolves.settle.trans
  exact .of_eq rfl rfl rfl rfl

variable [DecidableEq ι]

inductive Later (h : Host M) : List Birth → Host M → Prop where
  | refl : Later h [] h
  | perform {g : Host M} {born : List Birth} (later : Later h born g) (call : Call M) :
    Later h (born ++ g.births call) (g.perform call).2
  | enter {g : Host M} {born : List Birth} {id : SnapshotId} (later : Later h born g)
    (hid : (g.engine.snapshot? id).isSome) : Later h born (g.enter id)

mutual

theorem Sound.evolves {h : Host M} (hsound : h.Sound) :
    ∀ call : Call M, h.engine.Evolves (h.births call) (h.perform call).2.engine
  | .change _ => .refl
  | .startUp body => h.engine.evolves_startUp body
  | .register id i => h.engine.evolves_register h.devices id i
  | .attach name image => evolves_useAlone_nil (h.engine.evolves_attach name image)
  | .detach disk => evolves_useAlone_nil (h.engine.evolves_detach disk)
  | .sectorCount _ => .settle
  | .addRoot => evolves_useAlone h.engine.evolves_addRoot
  | .save id => Engine.evolves_save hsound.toKeeps h.devices id
  | .restore id => Engine.evolves_restore hsound.toKeeps h.devices id
  | .fork id => evolves_useAlone (Engine.evolves_fork hsound.toKeeps id)
  | .destroy id => by
    unfold Host.perform
    split
    · exact .refl
    · exact h.engine.evolves_destroy id
  | .depth _ => .settle
  | .write id _ _ _ => evolves_useAlone_nil (h.engine.evolves_withNode id _)
  | .writeRun id _ _ _ => evolves_useAlone_nil (h.engine.evolves_withNode id _)
  -- While the read goes on there is a reader, so none of the calls in its middle makes a snapshot.
  | .read id disk index buffer meanwhile answer => by
    unfold Host.perform
    apply Engine.evolves_readInto
    intro hid old
    exact (hsound.enter hid).evolvesAll (List.cons_ne_nil _ _) meanwhile
  | .readThrough _ _ _ => .settle
  | .readRunThrough _ _ _ _ => .settle
  | .canTransfer _ _ => .settle
  | .stats => .settle

theorem Sound.evolvesAll {h : Host M} (hsound : h.Sound) (hreading : h.reading ≠ []) :
    ∀ calls : List (Call M), h.engine.Evolves [] (h.performAll calls).engine
  | [] => .refl
  | call :: calls => by
    have hreaders := hsound.readers_ne_zero hreading
    have hfirst := hsound.evolves call
    rw [births_eq_nil hreaders] at hfirst
    apply hfirst.trans
    apply (hsound.perform call).evolvesAll
    rw [reading_perform]
    exact hreading

end

theorem Later.reachable (later : h.Later born g) (hreach : h.Reachable) : g.Reachable := by
  induction later with
  | refl => exact hreach
  | perform _ call ih => exact ih.perform call
  | enter _ hid ih => exact ih.enter hid

theorem Later.evolves (later : h.Later born g) (hreach : h.Reachable) :
    h.engine.Evolves born g.engine := by
  induction later with
  | refl => exact .refl
  | perform later call ih =>
    apply ih.trans
    exact (later.reachable hreach).sound.evolves call
  | @enter g born id later hid ih =>
    have htrans := ih.trans (evolves_enter g id)
    rwa [List.append_nil] at htrans

theorem Later.evolves_new {config : Config} {engine : Engine ι} {devices : Devices M}
    (hnew : Engine.new config = .ok engine)
    (later : Later ({ engine, devices } : Host M) born h) :
    Engine.Evolves { config } born h.engine := by
  have hevolves := later.evolves (.start hnew devices)
  cases Engine.eq_of_new hnew
  exact hevolves

/-! Saves and restores. -/

theorem snapshot?_perform_save (hreach : h.Reachable) {id other : SnapshotId}
    (hchanged : (h.perform (.save id)).2.engine.snapshot? other ≠ h.engine.snapshot? other) :
    other = id ∧ h.engine.active = some id := by
  have hperform : (h.perform (.save id)).2.engine = (h.engine.save h.devices id).2 := rfl
  rw [hperform] at hchanged
  cases hs : h.engine.snapshot? id with
  | none =>
    unfold Engine.save at hchanged
    rw [hs] at hchanged
    contradiction
  | some s =>
    have hkey := (hreach.sound.keyed id s hs).1
    have hset {t : Snapshot} (ht : t.id = id)
        (hchanged : (h.engine.setSnapshot t).snapshot? other ≠ h.engine.snapshot? other) :
        other = id := by
      rw [Engine.snapshot?_setSnapshot] at hchanged
      split at hchanged
      · next heq => rw [← heq, ht]
      · contradiction
    rcases Engine.save_cases h.devices hs with
      ⟨-, error, hsave, -⟩ | ⟨hopen, ⟨failure, blob, -, hsave⟩ | ⟨blob, -, hsave⟩⟩
    · rw [hsave] at hchanged
      contradiction
    · rw [hsave] at hchanged
      rw [not_or, Decidable.not_not] at hopen
      exact ⟨hset (t := { s with blob }) hkey hchanged, hopen.2⟩
    · rw [hsave] at hchanged
      rw [not_or, Decidable.not_not] at hopen
      refine ⟨hset ?_ hchanged, hopen.2⟩
      rw [Snapshot.id_noteSave, hkey]

theorem active_perform_restore {id : SnapshotId} {s : Snapshot}
    (hs : h.engine.snapshot? id = some s) (hopen : s.frozen = false) :
    (h.perform (.restore id)).1 = .ok () ∧
        (h.perform (.restore id)).2.engine.active = some id ∨
      (∃ error, (h.perform (.restore id)).1 = .error error) ∧
        (h.perform (.restore id)).2.engine.active = none := by
  have hresult : (h.perform (.restore id)).1 = (h.engine.restore h.devices id).1 := rfl
  have hengine : (h.perform (.restore id)).2.engine = (h.engine.restore h.devices id).2.1 := rfl
  rw [hresult, hengine]
  rcases Engine.restore_cases h.devices hs with
    ⟨hfrozen, -⟩ | ⟨-, ⟨hactive, hrestore⟩ | ⟨_, _, _, hrestore⟩ | ⟨_, _, hrestore⟩⟩
  · rw [hopen] at hfrozen
    contradiction
  · rw [hrestore]
    exact .inl ⟨rfl, hactive⟩
  · rw [hrestore]
    exact .inr ⟨⟨_, rfl⟩, rfl⟩
  · rw [hrestore]
    exact .inl ⟨rfl, rfl⟩

/--
At any time the live devices are taken to hold the state of one snapshot, which is there and has not
been forked, or of none. Snapshots have the numbers from zero on in the order in which they are made,
and only one of them is not a child of another. What has been forked stays frozen, and what is gone
stays away. To save changes no snapshot but the active one, and whether a restore succeeds decides
whether its snapshot is active, or none is.
-/
theorem active_of_history {config : Config} {engine : Engine ι} {devices : Devices M}
    (hnew : Engine.new config = .ok engine)
    (later : Later ({ engine, devices } : Host M) born h) :
    (∀ id, h.engine.active = some id →
      ∃ s, h.engine.snapshot? id = some s ∧ s.id = id ∧ s.frozen = false ∧
        ∀ other t, h.engine.snapshot? other = some t → t.id = id → other = id) ∧
    born.map (·.id.number) = List.range h.engine.nextId ∧
    (∀ id s, h.engine.snapshot? id = some s → s.id = id ∧ id ∈ born.map (·.id)) ∧
    born.countP (·.parent.isNone) ≤ 1 ∧
    (∀ born' g, h.Later born' g →
      (∀ id s t, h.engine.snapshot? id = some s → g.engine.snapshot? id = some t →
        s.frozen = true → t.frozen = true) ∧
      ∀ id ∈ born.map (·.id), h.engine.snapshot? id = none → g.engine.snapshot? id = none) ∧
    (∀ id other,
      (h.perform (.save id)).2.engine.snapshot? other ≠ h.engine.snapshot? other →
        other = id ∧ h.engine.active = some id) ∧
    ∀ id s, h.engine.snapshot? id = some s → s.frozen = false →
      (h.perform (.restore id)).1 = .ok () ∧
          (h.perform (.restore id)).2.engine.active = some id ∨
        (∃ error, (h.perform (.restore id)).1 = .error error) ∧
          (h.perform (.restore id)).2.engine.active = none := by
  have hreach := later.reachable (.start hnew devices)
  have hevolves := later.evolves_new hnew
  have hkeyed := hreach.sound.keyed
  have hids := hevolves.map_number
  refine ⟨?_, hids, ?_, hevolves.countP_le, ?_, ?_, ?_⟩
  · intro id hid
    obtain ⟨s, hs, hopen⟩ := hevolves.mirrored_of_new id hid
    refine ⟨s, hs, (hkeyed id s hs).1, hopen, ?_⟩
    intro other t ht hother
    rw [← hother]
    exact (hkeyed other t ht).1.symm
  · intro id s hs
    exact ⟨(hkeyed id s hs).1, hevolves.mem hs⟩
  · intro born' g later'
    have hevolves' := later'.evolves hreach
    constructor
    · intro id s t hs ht hfrozen
      obtain ⟨u, hu, hkept⟩ := hevolves'.exists_snapshot (hkeyed id s hs).2 ht
      rw [hs] at hu
      cases hu
      exact hkept hfrozen
    · intro id hborn hgone
      have hnumber := Birth.number_mem hborn
      rw [hids, List.mem_range] at hnumber
      exact hevolves'.snapshot?_eq_none hnumber hgone
  · intro id other hchanged
    exact snapshot?_perform_save hreach hchanged
  · intro id s hs hopen
    exact active_perform_restore hs hopen

-- The root is saved and forked, and one of the paths goes on.
def branched : Host counters :=
  zeroes.performAll [.startUp fun r => (.ok (), r), .addRoot, .save ⟨0⟩, .fork ⟨0⟩, .restore ⟨1⟩]

theorem active_of_history_branched :
    branched.engine.active = some ⟨1⟩ ∧
      (∃ s, branched.engine.snapshot? ⟨1⟩ = some s ∧ s.frozen = false) ∧
      branched.engine.nextId = 3 ∧
      (∃ s, branched.engine.snapshot? ⟨0⟩ = some s ∧ s.frozen = true ∧
        ∀ born g t, branched.Later born g → g.engine.snapshot? ⟨0⟩ = some t → t.frozen = true) ∧
      ∃ born : List Birth, born = [⟨⟨0⟩, none⟩, ⟨⟨1⟩, some ⟨0⟩⟩, ⟨⟨2⟩, some ⟨0⟩⟩] ∧
        born.map (·.id.number) = List.range branched.engine.nextId := by
  have hnew : Engine.new {} = .ok zeroes.engine := rfl
  have later : zeroes.Later _ branched :=
    ((((Later.refl.perform (.startUp fun r => (.ok (), r))).perform .addRoot).perform
      (.save ⟨0⟩)).perform (.fork ⟨0⟩)).perform (.restore ⟨1⟩)
  obtain ⟨hactive, hids, -, -, hkept, -⟩ := active_of_history hnew later
  have hroot : (branched.engine.snapshot? ⟨0⟩).any (·.frozen) = true := by decide +kernel
  obtain ⟨s, hs, hfrozen⟩ := (Option.any_eq_true _ _).mp hroot
  have hone : branched.engine.active = some ⟨1⟩ := by decide +kernel
  obtain ⟨t, ht, -, hopen, -⟩ := hactive ⟨1⟩ hone
  refine ⟨hone, ⟨t, ht, hopen⟩, by decide +kernel, ⟨s, hs, hfrozen, ?_⟩, _, ?_, hids⟩
  · intro born g u later' hu
    exact (hkept born g later').1 ⟨0⟩ s u hs hu hfrozen
  · decide +kernel

end Host

end MachineFork

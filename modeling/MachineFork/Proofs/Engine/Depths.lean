import MachineFork.Proofs.Engine.Mounts
import MachineFork.Proofs.Engine.Walks
import MachineFork.Proofs.Lineage.Depths

/-!
This module contains what the depth of a snapshot says: how many forks there have been on the way
from the root to it, also when snapshots on the way are gone. A limit on the depth is a limit on all
snapshots that are ever made.
-/

namespace MachineFork

inductive ForksAbove (born : List Birth) : SnapshotId → Nat → Prop
  | root {id : SnapshotId} (hborn : ⟨id, none⟩ ∈ born) : ForksAbove born id 0
  | child {id parent : SnapshotId} {n : Nat} (hborn : ⟨id, some parent⟩ ∈ born)
    (above : ForksAbove born parent n) : ForksAbove born id (n + 1)

namespace ForksAbove

variable {born more : List Birth} {id : SnapshotId} {m n : Nat}

theorem append (h : ForksAbove born id n) (more : List Birth) :
    ForksAbove (born ++ more) id n := by
  induction h with
  | root hborn => exact .root (List.mem_append_left _ hborn)
  | child hborn _ ih => exact .child (List.mem_append_left _ hborn) ih

theorem unique (hnodup : (born.map (·.id)).Nodup) (hm : ForksAbove born id m)
    (hn : ForksAbove born id n) : m = n := by
  induction hm generalizing n with
  | root hborn =>
    cases hn with
    | root => rfl
    | child hborn' => cases List.inj_on_of_nodup_map hnodup hborn hborn' rfl
  | child hborn _ ih =>
    cases hn with
    | root hborn' => cases List.inj_on_of_nodup_map hnodup hborn hborn' rfl
    | child hborn' above =>
      cases List.inj_on_of_nodup_map hnodup hborn hborn' rfl
      rw [ih above]

end ForksAbove

namespace Engine

variable {ι : Type} {M : Machine ι} {e e' e'' : Engine ι} {id : SnapshotId} {s t : Snapshot}
variable {reading : List SnapshotId} {n : Nat} {births : List Birth}

def depth? (e : Engine ι) (id : SnapshotId) : Option Nat := do
  let s ← e.snapshot? id
  let node ← e.lineage.node? s.node
  return node.depth

theorem depth?_eq_some_iff :
    e.depth? id = some n ↔ ∃ s node, e.snapshot? id = some s ∧
      e.lineage.node? s.node = some node ∧ node.depth = n := by
  simp [depth?, Option.bind_eq_some_iff]

theorem Owns.exists_depth (h : e.Owns reading) (hs : e.snapshot? id = some s) :
    ∃ n, e.depth? id = some n := by
  obtain ⟨node, hnode, -⟩ := h.live hs
  exact ⟨node.depth, depth?_eq_some_iff.mpr ⟨s, node, hs, hnode, rfl⟩⟩

def KeepsDepths (e e' : Engine ι) : Prop :=
  ∀ id n, e'.depth? id = some n → e.depth? id = some n

theorem KeepsDepths.refl : e.KeepsDepths e :=
  fun _ _ h => h

theorem KeepsDepths.trans (h : e.KeepsDepths e') (h' : e'.KeepsDepths e'') : e.KeepsDepths e'' :=
  fun id n hn => h id n (h' id n hn)

theorem SparesDisks.keepsDepths (h : e.SparesDisks e') : e.KeepsDepths e' := by
  intro id n hn
  obtain ⟨t, node, ht, hnode, hdepth⟩ := depth?_eq_some_iff.mp hn
  obtain ⟨s, hs, hsame⟩ := h.nodes id t ht
  obtain ⟨refcount, hold⟩ := h.kept t.node node hnode
  rw [hsame] at hold
  exact depth?_eq_some_iff.mpr ⟨s, _, hs, hold, hdepth⟩

theorem keepsDepths_settle (e : Engine ι) : e.KeepsDepths e.settle :=
  SparesDisks.settle.keepsDepths

theorem Owns.keepsDepths (h : e.Owns reading) (call : Lineage.Call)
    (hlineage : e'.lineage = e.lineage.perform call) (hsnapshots : e'.snapshots = e.snapshots) :
    e.KeepsDepths e' := by
  intro id n hn
  obtain ⟨s, node, hs, hnode, hdepth⟩ := depth?_eq_some_iff.mp hn
  have hs : e.snapshot? id = some s := by rwa [snapshot?, ← hsnapshots]
  obtain ⟨old, hold, -⟩ := h.live hs
  rw [hlineage] at hnode
  have hsame := Lineage.depth_perform h.owned.counted.freeSlots hold hnode
  exact depth?_eq_some_iff.mpr ⟨s, old, hs, hold, hsame.symm.trans hdepth⟩

theorem Owns.keepsDepths_attach (h : e.Owns reading) (name : String) (image : BaseImage) :
    e.KeepsDepths (e.attach name image).2 := by
  apply e.keepsDepths_settle.trans
  unfold Engine.attach
  dsimp only
  split
  · next hattach =>
    have hlineage := congrArg Prod.snd hattach
    exact h.settle.keepsDepths (.attach name image.sectorCount) hlineage.symm rfl
  · next hattach =>
    have hlineage := congrArg Prod.snd hattach
    exact h.settle.keepsDepths (.attach name image.sectorCount) hlineage.symm rfl

theorem Owns.keepsDepths_detach (h : e.Owns reading) (disk : DiskHandle) :
    e.KeepsDepths (e.detach disk).2 := by
  apply e.keepsDepths_settle.trans
  unfold Engine.detach
  dsimp only
  split
  · next hdetach =>
    have hlineage := congrArg Prod.snd hdetach
    exact h.settle.keepsDepths (.detach disk) hlineage.symm rfl
  · next hdetach =>
    have hlineage := congrArg Prod.snd hdetach
    exact h.settle.keepsDepths (.detach disk) hlineage.symm rfl

theorem Owns.keepsDepths_withNode (h : e.Owns reading) (id : SnapshotId)
    {write : Lineage → NodeId → Except DiskError Unit × Lineage}
    (hwrite : ∀ l node, ∃ call : Lineage.Call, (write l node).2 = l.perform call) :
    e.KeepsDepths (e.withNode id write).2 := by
  unfold Engine.withNode
  split
  · exact .refl
  · split
    · exact .refl
    · next s _ _ =>
      obtain ⟨call, hlineage⟩ := hwrite e.settle.lineage s.node
      exact e.keepsDepths_settle.trans (h.settle.keepsDepths call hlineage rfl)

theorem Owns.depth_eq_ok_iff (h : e.Owns reading) : e.depth id = .ok n ↔ e.depth? id = some n := by
  cases hs : e.snapshot? id with
  | none => simp [depth, depth?, hs]
  | some s =>
    have hs' : e.settle.snapshot? id = some s := (e.snapshot?_settle id).trans hs
    obtain ⟨node, hnode, -⟩ := h.settle.live hs'
    have hdepth : e.depth id = .ok node.depth := by
      simp [depth, hs, Lineage.depth, Lineage.node, hnode, Except.map, Except.mapError]
    have hdepth? : e.depth? id = some node.depth :=
      e.keepsDepths_settle id _ (depth?_eq_some_iff.mpr ⟨s, node, hs', hnode, rfl⟩)
    rw [hdepth, hdepth?, Except.ok.injEq, Option.some.injEq]

/-! The limit. -/

theorem requireDepth_eq (hdepth : e.depth id = .ok n) :
    e.requireDepth id
      =
    match e.config.maxForkDepth with
    | none => .ok ()
    | some limit =>
      if limit < n + 1 then .error (.depthLimit (n + 1) limit) else .ok () := by
  unfold requireDepth
  cases e.config.maxForkDepth with
  | none => rfl
  | some limit => simp only [hdepth]

theorem le_of_requireDepth {limit : Nat} (hdepth : e.depth id = .ok n)
    (h : e.requireDepth id = .ok ()) (hlimit : e.config.maxForkDepth = some limit) :
    n + 1 ≤ limit := by
  rw [requireDepth_eq hdepth, hlimit] at h
  dsimp only at h
  split at h
  · contradiction
  · omega

theorem fork_eq_depthLimit_iff {depth limit : Nat} (hs : e.snapshot? id = some s)
    (hopen : s.frozen = false) (hdepth : e.depth id = .ok n) :
    (e.fork id).1 = .error (.depthLimit depth limit)
      ↔
    depth = n + 1 ∧ e.config.maxForkDepth = some limit ∧ limit ≤ n := by
  have hrequire := requireDepth_eq hdepth
  unfold fork
  rw [hs]
  dsimp only
  rw [if_neg (by simp [hopen]), hrequire]
  cases e.config.maxForkDepth with
  | none =>
    dsimp only
    split
    · simp
    · simp
  | some bound =>
    dsimp only
    by_cases hbound : bound < n + 1
    · rw [if_pos hbound]
      simp only [Except.error.injEq, EngineError.depthLimit.injEq, Option.some.injEq]
      omega
    · rw [if_neg hbound]
      dsimp only
      simp only [Option.some.injEq]
      split
      · simp only [Except.error.injEq, reduceCtorEq, false_iff]
        omega
      · simp only [reduceCtorEq, false_iff]
        omega

/-! How deep new snapshots are. -/

def Allots (e : Engine ι) (n : Nat) (parent? : Option SnapshotId) : Prop :=
  match parent? with
  | none => n = 0
  | some parent =>
    ∃ m, e.depth? parent = some m ∧ n = m + 1 ∧
      ∀ limit, e.config.maxForkDepth = some limit → n ≤ limit

structure Deepens (e : Engine ι) (births : List Birth) (e' : Engine ι) : Prop where
  kept : ∀ id n, e'.depth? id = some n → e.depth? id = some n ∨ id ∈ births.map (·.id)
  allotted : ∀ birth ∈ births, ∃ n, e'.depth? birth.id = some n ∧ e.Allots n birth.parent

theorem KeepsDepths.deepens (h : e.KeepsDepths e') : e.Deepens [] e' where
  kept id n hn := .inl (h id n hn)
  allotted := by simp

theorem depth?_addSnapshot (e : Engine ι) (blob : Stream) (node : NodeId) (id : SnapshotId) :
    (e.addSnapshot blob node).2.depth? id
      =
    if ⟨e.nextId⟩ = id then (e.lineage.node? node).map (·.depth) else e.depth? id := by
  rw [depth?, snapshot?_addSnapshot]
  split
  · cases hnode : e.lineage.node? node with
    | none => simp [addSnapshot, setSnapshot, hnode]
    | some found => simp [addSnapshot, setSnapshot, hnode]
  · rfl

theorem KeepsDepths.deepens_root {node : NodeId} {active : Option SnapshotId}
    (h : e.KeepsDepths e') (blob : Stream)
    (hnode : (e'.lineage.node? node).map (·.depth) = some 0) :
    e.Deepens [⟨⟨e'.nextId⟩, none⟩] { (e'.addSnapshot blob node).2 with active } := by
  have hadded (other : SnapshotId) :
      { (e'.addSnapshot blob node).2 with active }.depth? other
        =
      if ⟨e'.nextId⟩ = other then some 0 else e'.depth? other := by
    rw [← hnode]
    apply depth?_addSnapshot
  constructor
  · intro other m hm
    rw [hadded] at hm
    split at hm
    · next heq => exact .inr (by simp [heq])
    · exact .inl (h other m hm)
  · intro birth hbirth
    obtain rfl := List.mem_singleton.mp hbirth
    exact ⟨0, (hadded _).trans (if_pos rfl), rfl⟩

theorem KeepsDepths.deepens_children {left right : NodeId} (h : e.KeepsDepths e')
    (hallots : e.Allots n (some id)) (blob : Stream)
    (hleft : (e'.lineage.node? left).map (·.depth) = some n)
    (hright : (e'.lineage.node? right).map (·.depth) = some n) :
    e.Deepens [⟨⟨e'.nextId⟩, some id⟩, ⟨⟨e'.nextId + 1⟩, some id⟩]
      ((e'.addSnapshot blob left).2.addSnapshot blob right).2 := by
  have hadded (other : SnapshotId) :
      ((e'.addSnapshot blob left).2.addSnapshot blob right).2.depth? other
        =
      if ⟨e'.nextId + 1⟩ = other then some n
      else if ⟨e'.nextId⟩ = other then some n
      else e'.depth? other := by
    rw [depth?_addSnapshot, depth?_addSnapshot, hleft]
    exact if_congr Iff.rfl hright rfl
  constructor
  · intro other m hm
    rw [hadded] at hm
    split at hm
    · next heq => exact .inr (by simp [heq])
    · split at hm
      · next heq => exact .inr (by simp [heq])
      · exact .inl (h other m hm)
  · intro birth hbirth
    rw [List.mem_pair] at hbirth
    cases hbirth with
    | inl hfirst =>
      refine ⟨n, ?_, by rw [hfirst]; exact hallots⟩
      rw [hadded, hfirst]
      simp
    | inr hsecond =>
      refine ⟨n, ?_, by rw [hsecond]; exact hallots⟩
      rw [hadded, hsecond, if_pos rfl]

theorem Owns.deepens_addRoot (h : e.Owns reading) :
    e.Deepens (Birth.ofRoot e.addRoot.1) e.addRoot.2 := by
  have hsettled := h.settle
  unfold Engine.addRoot
  split
  · exact KeepsDepths.refl.deepens
  · split
    · exact KeepsDepths.refl.deepens
    · split
      · exact KeepsDepths.refl.deepens
      · next blob _ =>
        dsimp only
        split
        · next lineage hroot =>
          rw [Lineage.eq_of_addRoot_error hroot]
          exact e.keepsDepths_settle.deepens
        · next node lineage hroot =>
          have hissued : node ∈ e.settle.lineage.issues .addRoot := by
            simp [Lineage.issues, hroot]
          have hlineage : e.settle.lineage.perform .addRoot = lineage := by
            rw [Lineage.perform, hroot]
          obtain ⟨found, hfound, hdepth⟩ :=
            Lineage.depth_issued hsettled.owned.counted.freeSlots hissued
          rw [hlineage] at hfound
          have hkeeps : e.KeepsDepths { e.settle with lineage, rootCreated := true } :=
            e.keepsDepths_settle.trans (hsettled.keepsDepths _ hlineage.symm rfl)
          apply hkeeps.deepens_root blob
          dsimp only
          rw [hfound, Option.map_some, hdepth]

theorem Owns.keepsDepths_freeze {lineage : Lineage} (h : e.Owns reading)
    (hs : e.snapshot? id = some s)
    (hlineage : e.settle.lineage.perform (.fork s.node) = lineage) :
    e.KeepsDepths
      (({ e.settle with lineage }.setSnapshot { s with frozen := true }).deactivate id) := by
  have hsettled := h.settle
  have hs' : { e.settle with lineage }.snapshot? id = some s := (e.snapshot?_settle id).trans hs
  have hkeeps : { e.settle with lineage }.Keeps reading :=
    ⟨hsettled.keyed, hsettled.readers, hsettled.reading⟩
  have hforked : e.KeepsDepths { e.settle with lineage } :=
    e.keepsDepths_settle.trans (hsettled.keepsDepths _ hlineage.symm rfl)
  have hfrozen : { e.settle with lineage }.KeepsDepths
      ({ e.settle with lineage }.setSnapshot { s with frozen := true }) :=
    (SparesDisks.setSnapshot (t := { s with frozen := true }) hkeeps hs' rfl rfl).keepsDepths
  obtain ⟨active, hactive⟩ :=
    deactivate_eq ({ e.settle with lineage }.setSnapshot { s with frozen := true }) id
  rw [hactive]
  exact (hforked.trans hfrozen).trans (SparesDisks.of_eq rfl rfl rfl).keepsDepths

theorem Owns.deepens_fork (h : e.Owns reading) (id : SnapshotId) :
    e.Deepens (Birth.ofFork id (e.fork id).1) (e.fork id).2 := by
  have hsettled := h.settle
  unfold Engine.fork
  cases hs : e.snapshot? id with
  | none => exact KeepsDepths.refl.deepens
  | some s =>
    have hs' : e.settle.snapshot? id = some s := (e.snapshot?_settle id).trans hs
    dsimp only
    split
    · exact KeepsDepths.refl.deepens
    · split
      · exact e.keepsDepths_settle.deepens
      · next hrequire =>
        split
        · next lineage hfork =>
          rw [Lineage.eq_of_fork_error hfork]
          exact e.keepsDepths_settle.deepens
        · next left right lineage hfork =>
          have hlineage : e.settle.lineage.perform (.fork s.node) = lineage := by
            rw [Lineage.perform, hfork]
          have hissues : e.settle.lineage.issues (.fork s.node) = [left, right] := by
            rw [Lineage.issues, hfork]
          obtain ⟨above, habove, -⟩ := hsettled.live hs'
          have hparent : e.depth? id = some above.depth :=
            e.keepsDepths_settle id _ (depth?_eq_some_iff.mpr ⟨s, above, hs', habove, rfl⟩)
          have hallots : e.Allots (above.depth + 1) (some id) := by
            refine ⟨above.depth, hparent, rfl, ?_⟩
            intro limit hlimit
            exact le_of_requireDepth (h.depth_eq_ok_iff.mpr hparent) hrequire hlimit
          have hchild {node : NodeId} (hmem : node ∈ [left, right]) :
              (lineage.node? node).map (·.depth) = some (above.depth + 1) := by
            rw [← hissues] at hmem
            obtain ⟨found, hfound, above', habove', hdepth⟩ :=
              Lineage.depth_issued hsettled.owned.counted.freeSlots hmem
            obtain rfl := Option.some.inj (habove.symm.trans habove')
            rw [hlineage] at hfound
            rw [hfound, Option.map_some, hdepth]
          have hkeeps := h.keepsDepths_freeze hs hlineage
          obtain ⟨active, hactive⟩ :=
            deactivate_eq ({ e.settle with lineage }.setSnapshot { s with frozen := true }) id
          rw [hactive] at hkeeps ⊢
          exact hkeeps.deepens_children hallots s.blob.clone (hchild (by simp)) (hchild (by simp))

/-! All snapshots that have been made. -/

structure Measured (e : Engine ι) (born : List Birth) : Prop where
  forksAbove : ∀ id n, e.depth? id = some n → ForksAbove born id n
  bounded : ∀ birth ∈ born, ∃ n, ForksAbove born birth.id n ∧
    ∀ limit, e.config.maxForkDepth = some limit → n ≤ limit

theorem Measured.of_allots {born : List Birth} {birth : Birth} (h : e.Measured born)
    (hborn : birth ∈ born ++ births) (hallots : e.Allots n birth.parent) :
    ForksAbove (born ++ births) birth.id n ∧
      ∀ limit, e.config.maxForkDepth = some limit → n ≤ limit := by
  obtain ⟨id, parent?⟩ := birth
  cases parent? with
  | none =>
    cases hallots
    exact ⟨.root hborn, fun _ _ => Nat.zero_le _⟩
  | some parent =>
    obtain ⟨m, hparent, rfl, hlimit⟩ := hallots
    exact ⟨.child hborn ((h.forksAbove parent m hparent).append births), hlimit⟩

theorem Measured.deepens {born : List Birth} (h : e.Measured born) (hdeepens : e.Deepens births e')
    (hconfig : e'.config = e.config) : e'.Measured (born ++ births) where
  forksAbove := by
    intro id n hn
    cases hdeepens.kept id n hn with
    | inl hold => exact (h.forksAbove id n hold).append births
    | inr hnew =>
      obtain ⟨birth, hbirth, rfl⟩ := List.mem_map.mp hnew
      obtain ⟨m, hm, hallots⟩ := hdeepens.allotted birth hbirth
      cases Option.some.inj (hm.symm.trans hn)
      exact (h.of_allots (List.mem_append_right _ hbirth) hallots).1
  bounded := by
    intro birth hborn
    rw [hconfig]
    cases List.mem_append.mp hborn with
    | inl hold =>
      obtain ⟨n, habove, hlimit⟩ := h.bounded birth hold
      exact ⟨n, habove.append births, hlimit⟩
    | inr hnew =>
      obtain ⟨n, -, hallots⟩ := hdeepens.allotted birth hnew
      exact ⟨n, h.of_allots hborn hallots⟩

end Engine

namespace Host

variable {ι : Type} {M : Machine ι} {h : Host M} {born births : List Birth}

theorem deepens_useAlone {α : Type} {done : Except EngineError α × Engine ι}
    (hdone : h.engine.Deepens births done.2) :
    h.engine.Deepens (if h.engine.readers = 0 then births else []) (h.useAlone done).2.engine := by
  rw [snd_useAlone]
  split
  · exact hdone
  · exact Engine.KeepsDepths.refl.deepens

theorem deepens_useAlone_nil {α : Type} {done : Except EngineError α × Engine ι}
    (hdone : h.engine.KeepsDepths done.2) : h.engine.Deepens [] (h.useAlone done).2.engine := by
  have hdeepens := deepens_useAlone hdone.deepens
  rwa [ite_self] at hdeepens

variable [DecidableEq ι]

theorem Sound.deepens (hsound : h.Sound) (call : Call M) :
    h.engine.Deepens (h.births call) (h.perform call).2.engine := by
  cases hcall : call.isExclusive with
  | false =>
    have hbirths : h.births call = [] := by
      cases call with
      | addRoot | fork => contradiction
      | _ => rfl
    rw [hbirths]
    exact (hsound.sparesDisks call hcall).keepsDepths.deepens
  | true =>
    cases call with
    | attach name image =>
      exact deepens_useAlone_nil (Engine.Owns.keepsDepths_attach hsound name image)
    | detach disk => exact deepens_useAlone_nil (Engine.Owns.keepsDepths_detach hsound disk)
    | addRoot => exact deepens_useAlone (Engine.Owns.deepens_addRoot hsound)
    | fork id => exact deepens_useAlone (Engine.Owns.deepens_fork hsound id)
    | write id disk index data =>
      apply deepens_useAlone_nil
      apply Engine.Owns.keepsDepths_withNode hsound
      exact fun l node => ⟨.write node disk index data, rfl⟩
    | writeRun id disk first data =>
      apply deepens_useAlone_nil
      apply Engine.Owns.keepsDepths_withNode hsound
      exact fun l node => ⟨.writeRun node disk first data, rfl⟩
    | _ => contradiction

theorem Later.config_eq {g : Host M} (later : h.Later born g) :
    g.engine.config = h.engine.config := by
  induction later with
  | refl => rfl
  | perform _ call ih => exact (config_perform _ call).trans ih
  | enter _ _ ih => exact (Engine.config_settle _).trans ih

theorem Later.measured {config : Config} {engine : Engine ι} {devices : Devices M}
    (hnew : Engine.new config = .ok engine)
    (later : Later ({ engine, devices } : Host M) born h) : h.engine.Measured born := by
  have hstart : Reachable ({ engine, devices } : Host M) := .start hnew devices
  induction later with
  | refl =>
    obtain rfl := Engine.eq_of_new hnew
    exact ⟨fun id n hn => by contradiction, by simp⟩
  | @perform g born later call ih =>
    exact ih.deepens ((later.reachable hstart).sound.deepens call) (config_perform g call)
  | @enter g born id later _ ih =>
    have hkeeps : g.engine.KeepsDepths (g.enter id).engine :=
      g.engine.keepsDepths_settle.trans (Engine.SparesDisks.of_eq rfl rfl rfl).keepsDepths
    have hmeasured := ih.deepens hkeeps.deepens g.engine.config_settle
    rwa [List.append_nil] at hmeasured

/--
Every snapshot that is there reports how many forks there have been between the root and it, even if
the snapshots in between are gone. No snapshot that is ever made is deeper than the configuration
allows. A snapshot that may be forked is refused for its depth exactly when its children would be.
-/
theorem depth_of_history {config : Config} {engine : Engine ι} {devices : Devices M}
    (hnew : Engine.new config = .ok engine)
    (later : Later ({ engine, devices } : Host M) born h) :
    (∀ id s, h.engine.snapshot? id = some s →
      ∃ n, h.engine.depth id = .ok n ∧ ∀ m, ForksAbove born id m ↔ m = n) ∧
    (∀ birth ∈ born, ∃ n, (∀ m, ForksAbove born birth.id m ↔ m = n) ∧
      ∀ limit, config.maxForkDepth = some limit → n ≤ limit) ∧
    ∀ id s n, h.engine.snapshot? id = some s → s.frozen = false → h.engine.depth id = .ok n →
      ∀ depth limit, (h.engine.fork id).1 = .error (.depthLimit depth limit)
        ↔
      depth = n + 1 ∧ config.maxForkDepth = some limit ∧ limit ≤ n := by
  have hsound := (later.reachable (.start hnew devices)).sound
  have hconfig : h.engine.config = config := by
    rw [later.config_eq]
    cases Engine.eq_of_new hnew
    rfl
  have hmeasured := later.measured hnew
  have hnodup : (born.map (·.id)).Nodup := by
    apply List.Nodup.of_map (·.number)
    rw [List.map_map]
    exact (later.evolves_new hnew).map_number.symm ▸ List.nodup_range
  have hunique {id : SnapshotId} {n : Nat} (habove : ForksAbove born id n) (m : Nat) :
      ForksAbove born id m ↔ m = n := by
    constructor
    · exact fun hm => hm.unique hnodup habove
    · rintro rfl
      exact habove
  refine ⟨?_, ?_, ?_⟩
  · intro id s hs
    obtain ⟨n, hn⟩ := Engine.Owns.exists_depth hsound hs
    exact ⟨n, Engine.Owns.depth_eq_ok_iff hsound |>.mpr hn, hunique (hmeasured.forksAbove id n hn)⟩
  · intro birth hborn
    obtain ⟨n, habove, hlimit⟩ := hmeasured.bounded birth hborn
    rw [hconfig] at hlimit
    exact ⟨n, hunique habove, hlimit⟩
  · intro id s n hs hopen hdepth depth limit
    rw [← hconfig]
    exact Engine.fork_eq_depthLimit_iff hs hopen hdepth

def shallow : Host counters where
  engine := { config := { maxForkDepth := some 2 } }
  devices := zeroes.devices

-- All snapshots above the last ones are destroyed.
def pruned : Host counters :=
  shallow.performAll [
    .startUp fun r => (.ok (), r), .addRoot, .fork ⟨0⟩, .fork ⟨1⟩,
    .destroy ⟨0⟩, .destroy ⟨1⟩, .destroy ⟨2⟩]

theorem depth_of_history_pruned :
    (∃ s, pruned.engine.snapshot? ⟨3⟩ = some s ∧ s.frozen = false) ∧
      pruned.engine.snapshot? ⟨1⟩ = none ∧ pruned.engine.depth ⟨3⟩ = .ok 2 ∧
      (pruned.engine.fork ⟨3⟩).1 = .error (.depthLimit 3 2) ∧
      ∃ born : List Birth, born = [⟨⟨0⟩, none⟩, ⟨⟨1⟩, some ⟨0⟩⟩, ⟨⟨2⟩, some ⟨0⟩⟩, ⟨⟨3⟩, some ⟨1⟩⟩,
          ⟨⟨4⟩, some ⟨1⟩⟩] ∧
        ∀ m, ForksAbove born ⟨3⟩ m ↔ m = 2 := by
  have hnew : Engine.new { maxForkDepth := some 2 } = .ok shallow.engine := rfl
  have later : shallow.Later _ pruned :=
    ((((((Later.refl.perform (.startUp fun r => (.ok (), r))).perform .addRoot).perform
      (.fork ⟨0⟩)).perform (.fork ⟨1⟩)).perform (.destroy ⟨0⟩)).perform (.destroy ⟨1⟩)).perform
      (.destroy ⟨2⟩)
  obtain ⟨hdepths, -, hlimit⟩ := depth_of_history hnew later
  have hleaf : (pruned.engine.snapshot? ⟨3⟩).any (!·.frozen) = true := by decide +kernel
  obtain ⟨s, hs, hopen⟩ := (Option.any_eq_true _ _).mp hleaf
  rw [Bool.not_eq_true'] at hopen
  have hdepth : pruned.engine.depth ⟨3⟩ = .ok 2 := by decide +kernel
  have hgone : (pruned.engine.snapshot? ⟨1⟩).isNone := by decide +kernel
  obtain ⟨n, hn, hforks⟩ := hdepths ⟨3⟩ s hs
  cases Except.ok.inj (hn.symm.trans hdepth)
  refine ⟨⟨s, hs, hopen⟩, Option.isNone_iff_eq_none.mp hgone, hdepth, ?_, _, ?_, hforks⟩
  · exact (hlimit ⟨3⟩ s 2 hs hopen hdepth 3 2).mpr ⟨rfl, rfl, Nat.le_refl 2⟩
  · decide +kernel

end Host

end MachineFork

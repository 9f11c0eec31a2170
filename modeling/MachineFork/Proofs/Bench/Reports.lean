import MachineFork.Proofs.Bench.Sessions

/-!
This module contains what a sound session reports. When all its paths are destroyed, nothing is left
of the tree, because every node that is still live belongs to a path or lies above one.
-/

namespace MachineFork

namespace Bench

variable {config : Config} {rounds forks : Nat} {s : Session} {e : Engine Part}
variable {paths : List SnapshotId}

structure Report.Sound (report : Report) (attempts : Nat) (maxForkDepth : Option Nat) : Prop where
  forks_eq : report.forks + report.depthLimitedForks = attempts
  releasedCleanly : report.releasedCleanly = true
  nodes_eq : report.liveNodes + report.releasedNodes = 1 + 2 * report.forks
  overlayBytes_eq : report.overlayBytes = 512 * report.overlaySectors
  livePaths_pos : 1 ≤ report.livePaths
  livePaths_two : 1 ≤ report.forks → 2 ≤ report.livePaths
  maxDepth_le_forks : report.maxDepth ≤ report.forks
  maxDepth_le_limit : ∀ limit, maxForkDepth = some limit → report.maxDepth ≤ limit
  le_blobBytes : 29 * report.livePaths ≤ report.registerBlobBytes
  blobBytes_le : report.registerBlobBytes ≤ 45 * report.livePaths

/-! Folds over the paths. -/

theorem exists_mapM_eq_ok {ε α β : Type} {f : α → Except ε β} {P : β → Prop} {as : List α}
    (h : ∀ a ∈ as, ∃ b, f a = .ok b ∧ P b) : ∃ bs, as.mapM f = .ok bs ∧ ∀ b ∈ bs, P b := by
  induction as with
  | nil => exact ⟨[], rfl, by simp⟩
  | cons a as ih =>
    rw [List.forall_mem_cons] at h
    obtain ⟨⟨b, hb, hP⟩, hrest⟩ := h
    obtain ⟨bs, hbs, hPs⟩ := ih hrest
    refine ⟨b :: bs, ?_, List.forall_mem_cons.mpr ⟨hP, hPs⟩⟩
    rw [List.mapM_cons, hb, hbs]
    rfl

theorem foldl_max_le {bound : Nat} {depths : List Nat} (h : ∀ n ∈ depths, n ≤ bound) :
    depths.foldl max 0 ≤ bound := by
  apply List.foldlRecOn (motive := (· ≤ bound)) depths max (Nat.zero_le bound)
  intro deepest hle n hn
  exact Nat.max_le.mpr ⟨hle, h n hn⟩

def blobLengths (e : Engine Part) (paths : List SnapshotId) : List Nat :=
  paths.filterMap fun id => (e.snapshot? id).map (·.blob.length)

theorem sum_blobLengths (e : Engine Part) (paths : List SnapshotId)
    (h : ∀ id ∈ paths, ∃ s, e.snapshot? id = some s ∧ Saved s.blob.bytes) :
    29 * paths.length ≤ (blobLengths e paths).sum ∧
      (blobLengths e paths).sum ≤ 45 * paths.length := by
  induction paths with
  | nil => exact ⟨Nat.le_refl 0, Nat.le_refl 0⟩
  | cons id paths ih =>
    rw [List.forall_mem_cons] at h
    obtain ⟨⟨s, hs, hsaved⟩, hrest⟩ := h
    have hlength := hsaved.length
    have hsum := ih hrest
    have hcons : blobLengths e (id :: paths) = s.blob.bytes.length :: blobLengths e paths :=
      List.filterMap_cons_some (by rw [hs]; rfl)
    rw [hcons, List.sum_cons, List.length_cons]
    omega

/-! All paths are destroyed. -/

theorem Tended.stats_eq (h : Tended e forks) : e.stats = e.lineage.stats := by
  rw [Engine.stats, h.settle_eq]

theorem Tended.overlayBytes_eq (h : Tended e forks) :
    e.lineage.stats.overlayBytes = 512 * e.lineage.stats.overlaySectors := by
  rw [h.owned.tallied.overlayBytes, h.owned.tallied.overlaySectors, Nat.mul_comm]
  rfl

theorem Tended.liveNodes_destroyAll (h : Tended e forks) (hleaves : Leaves e paths) :
    (paths.foldl (fun e id => (e.destroy id).2) e).stats.liveNodes = 0 := by
  induction paths generalizing e with
  | nil =>
    refine (h.stats_eq_zero fun id => ?_).1
    rw [← Option.not_isSome_iff_eq_none, ← hleaves.mem_iff]
    exact List.not_mem_nil
  | cons id paths ih =>
    obtain ⟨s, hs, -⟩ := hleaves.exists_snapshot List.mem_cons_self
    have hrest := hleaves.destroy id
    rw [List.erase_cons_head] at hrest
    exact ih (h.destroy hs).1 hrest

theorem Session.Sound.report (h : s.Sound config rounds) (seed forkTime restoreTime : Nat) :
    ∃ report, s.report seed forkTime restoreTime = .ok report ∧
      report.Sound rounds config.maxForkDepth := by
  have hdepth : ∀ id ∈ s.paths, ∃ n, (s.engine.depth id).mapError Failure.ofEngine = .ok n ∧
      n ≤ s.forks ∧ ∀ limit, config.maxForkDepth = some limit → n ≤ limit := by
    intro id hid
    obtain ⟨t, ht, -⟩ := h.leaves.exists_snapshot hid
    obtain ⟨n, hn⟩ := h.tended.toOwns.exists_depth ht
    have hbound := h.tended.depth_le id n hn
    rw [h.config_eq] at hbound
    refine ⟨n, ?_, hbound⟩
    rw [h.tended.toOwns.depth_eq_ok_iff.mpr hn]
    rfl
  obtain ⟨depths, hdepths, hbounds⟩ := exists_mapM_eq_ok hdepth
  have hblobs := sum_blobLengths s.engine s.paths fun id hid =>
    (h.leaves.exists_snapshot hid).imp fun t ht => ⟨ht.1, ht.2.2⟩
  rw [List.sum_eq_foldl] at hblobs
  unfold Session.report
  rw [hdepths]
  refine ⟨_, rfl, ?_⟩
  exact {
    forks_eq := h.rounds_eq
    releasedCleanly := decide_eq_true (h.tended.liveNodes_destroyAll h.leaves)
    nodes_eq := by rw [h.tended.stats_eq]; exact h.tended.nodes_eq
    overlayBytes_eq := by
      rw [h.tended.stats_eq]
      exact h.tended.overlayBytes_eq
    livePaths_pos := h.length_pos
    livePaths_two := by
      intro hforks
      have hlength := h.length_ge
      dsimp only at hforks ⊢
      omega
    maxDepth_le_forks := foldl_max_le fun n hn => (hbounds n hn).1
    maxDepth_le_limit := by
      intro limit hlimit
      exact foldl_max_le fun n hn => (hbounds n hn).2 limit hlimit
    le_blobBytes := hblobs.1
    blobBytes_le := hblobs.2 }

end Bench

end MachineFork

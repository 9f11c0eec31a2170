import MachineFork.Proofs.Lineage.Ownership

/-!
This module contains what a call that fails leaves behind. All calls are checked as a whole before
they change anything, except for a release. That is carried out node by node on the way up, and when
the way breaks off at a node that is gone, the nodes below have been freed already. A way up can only
break off after somebody has released a node twice.
-/

namespace MachineFork

namespace Lineage

variable {l : Lineage} {id : NodeId} {node : Node} {call : Call} {e : DiskError}

def outcome (l : Lineage) : Call → Except DiskError Unit
  | .attach name sectorCount => (l.attach name sectorCount).1.map fun _ => ()
  | .detach disk => (l.detach disk).1
  | .addRoot => l.addRoot.1.map fun _ => ()
  | .fork id => (l.fork id).1.map fun _ => ()
  | .write id disk index data => (l.write id disk index data).1
  | .writeRun id disk first data => (l.writeRun id disk first data).1
  | .release id => (l.release id).1

theorem perform_eq_self_of_error (h : l.outcome call = .error e) (hreleased : call.released? = none) :
    l.perform call = l := by
  cases call with
  | attach name sectorCount =>
    dsimp only [outcome, perform, attach] at h ⊢
    split at h
    · next hfull => rw [if_pos hfull]
    · simp [Except.map] at h
  | detach disk =>
    dsimp only [outcome, perform] at h ⊢
    cases detach_cases l disk with
    | inl hcase =>
      obtain ⟨_, hcase⟩ := hcase
      rw [hcase]
    | inr hcase =>
      obtain ⟨_, hcase⟩ := hcase
      simp [hcase] at h
  | addRoot =>
    dsimp only [outcome, perform] at h ⊢
    cases addRoot_cases l with
    | inl hcase =>
      obtain ⟨_, hcase⟩ := hcase
      rw [hcase]
    | inr hcase => simp [hcase, Except.map] at h
  | fork id =>
    dsimp only [outcome, perform] at h ⊢
    cases fork_cases l id with
    | inl hcase =>
      obtain ⟨_, hcase⟩ := hcase
      rw [hcase]
    | inr hcase =>
      obtain ⟨_, _, _, _, hcase, _⟩ := hcase
      simp [hcase, Except.map] at h
  | write id disk index data =>
    dsimp only [outcome, perform] at h ⊢
    cases write_cases l id disk index data with
    | inl hcase =>
      obtain ⟨_, hcase⟩ := hcase
      rw [hcase]
    | inr hcase =>
      obtain ⟨_, _, _, _, _, hcase⟩ := hcase
      simp [hcase] at h
  | writeRun id disk first data =>
    dsimp only [outcome, perform] at h ⊢
    cases writeRun_cases l id disk first data with
    | inl hcase =>
      obtain ⟨_, hcase⟩ := hcase
      rw [hcase]
    | inr hcase =>
      obtain ⟨_, _, _, _, hcase, _⟩ := hcase
      simp [hcase] at h
  | release id => simp [Call.released?] at hreleased

theorem eq_of_attach_error {m : Lineage} {name : String} {sectorCount : UInt64}
    (h : l.attach name sectorCount = (.error e, m)) : m = l := by
  have herror : l.outcome (.attach name sectorCount) = .error e := by
    rw [outcome, h]
    rfl
  have hsame := perform_eq_self_of_error herror rfl
  rwa [perform, h] at hsame

theorem eq_of_detach_error {m : Lineage} {disk : DiskHandle}
    (h : l.detach disk = (.error e, m)) : m = l := by
  have herror : l.outcome (.detach disk) = .error e := congrArg Prod.fst h
  have hsame := perform_eq_self_of_error herror rfl
  rwa [perform, h] at hsame

theorem eq_of_write_error {m : Lineage} {disk : DiskHandle} {index : UInt64} {data : Bytes}
    (h : l.write id disk index data = (.error e, m)) : m = l := by
  have herror : l.outcome (.write id disk index data) = .error e := congrArg Prod.fst h
  have hsame := perform_eq_self_of_error herror rfl
  rwa [perform, h] at hsame

theorem eq_of_writeRun_error {m : Lineage} {disk : DiskHandle} {first : UInt64} {data : Bytes}
    (h : l.writeRun id disk first data = (.error e, m)) : m = l := by
  have herror : l.outcome (.writeRun id disk first data) = .error e := congrArg Prod.fst h
  have hsame := perform_eq_self_of_error herror rfl
  rwa [perform, h] at hsame

/-! A release that fails. -/

theorem node?_eq_none_of_release_error (h : (l.release id).1 = .error e)
    (hid : l.node? id = some node) : (l.release id).2.node? id = none := by
  unfold release releaseUp at h ⊢
  simp only [hid] at h ⊢
  split at h
  · simp at h
  · next hlast =>
    rw [if_neg hlast]
    -- What the rest of the way up leaves live was live when it was begun, and the node was not.
    have hkept := kept_releaseUp (l.freeNode id node) node.parent l.slots.size id
    have hfreed := node?_freeNode hid id
    rw [if_pos rfl] at hfreed
    simp only [hfreed, reduceCtorEq, exists_false, imp_false] at hkept
    rw [← Option.not_isSome_iff_eq_none, Option.isSome_iff_exists]
    simpa using hkept

namespace Account

theorem once_append {a : Account} {calls : List Call} :
    a.once (calls ++ [call]) = (a.once calls && (a.run calls).allows call) := by
  induction calls generalizing a with
  | nil => simp [once, run]
  | cons first rest ih =>
    rw [List.cons_append, once, once, ih, Bool.and_assoc]
    rfl

theorem Sound.release_eq_ok {a : Account} (h : a.Sound) (hallows : a.allows (.release id) = true)
    (hid : a.lineage.node? id = some node) : (a.lineage.release id).1 = .ok () := by
  have hissued := h.issued_of_live hid
  have howned : a.owned id = true := by simpa [allows, hissued] using hallows
  apply (h.counted.release_owed _).1
  rw [howned]
  apply Nat.one_pos

end Account

/--
A call that fails leaves a lineage as it was, unless it is the release of a live node. Such a release
has freed its node before it fails; it does not fail as long as no node is released twice.
-/
theorem perform_eq_self_iff_of_error (h : l.outcome call = .error e) :
    (l.perform call = l ↔ ∀ id, call.released? = some id → l.isLive id = false) ∧
    (∀ id, call.released? = some id → l.isLive id = true →
      (l.perform call).isLive id = false) ∧
    ∀ calls, Account.once {} (calls ++ [call]) = true → (Account.run {} calls).lineage = l →
      l.perform call = l := by
  cases hreleased : call.released? with
  | none =>
    have hsame := perform_eq_self_of_error h hreleased
    refine ⟨?_, ?_, ?_⟩
    · simp [hsame]
    · simp
    · intros
      assumption
  | some id =>
    obtain rfl : call = .release id := by
      cases call <;> simp_all [Call.released?]
    cases hid : l.node? id with
    | none =>
      have hsame : l.perform (.release id) = l := congrArg Prod.snd (release_of_stale hid)
      refine ⟨?_, ?_, ?_⟩
      · simp [hsame, isLive, hid]
      · simp [hsame, isLive, hid]
      · intros
        assumption
    | some node =>
      have hfreed : (l.perform (.release id)).node? id = none :=
        node?_eq_none_of_release_error h hid
      refine ⟨?_, ?_, ?_⟩
      · constructor
        · intro hsame
          rw [hsame, hid] at hfreed
          contradiction
        · intro hstale
          specialize hstale id rfl
          simp [isLive, hid] at hstale
      · simp [isLive, hfreed]
      · intro calls honce hrun
        rw [Account.once_append, Bool.and_eq_true] at honce
        have hsound := Account.Sound.empty.run honce.1
        have hok := hsound.release_eq_ok honce.2 (hrun ▸ hid)
        rw [hrun] at hok
        simp only [outcome, hok] at h
        contradiction

-- The root goes away while it still has children, because it is released too often.
def orphans : Lineage :=
  [Call.addRoot, .fork ⟨0, 0⟩, .release ⟨0, 0⟩, .release ⟨0, 0⟩, .release ⟨0, 0⟩].foldl perform {}

theorem perform_eq_self_iff_of_error_orphans :
    orphans.outcome (.release ⟨1, 0⟩) = .error (.staleNode ⟨0, 0⟩) ∧
      orphans.perform (.release ⟨1, 0⟩) ≠ orphans ∧
      (orphans.perform (.release ⟨1, 0⟩)).isLive ⟨1, 0⟩ = false ∧
      orphans.outcome (.fork ⟨0, 0⟩) = .error (.staleNode ⟨0, 0⟩) ∧
      orphans.perform (.fork ⟨0, 0⟩) = orphans := by
  have hrelease : orphans.outcome (.release ⟨1, 0⟩) = .error (.staleNode ⟨0, 0⟩) := by
    decide +kernel
  have hfork : orphans.outcome (.fork ⟨0, 0⟩) = .error (.staleNode ⟨0, 0⟩) := by decide +kernel
  have hlive : orphans.isLive ⟨1, 0⟩ = true := by decide +kernel
  obtain ⟨hsame, hfreed, -⟩ := perform_eq_self_iff_of_error hrelease
  refine ⟨hrelease, ?_, hfreed ⟨1, 0⟩ rfl hlive, hfork, ?_⟩
  · intro heq
    have hstale := hsame.mp heq ⟨1, 0⟩ rfl
    rw [hlive] at hstale
    contradiction
  · apply (perform_eq_self_iff_of_error hfork).1.mpr
    simp [Call.released?]

end Lineage

end MachineFork

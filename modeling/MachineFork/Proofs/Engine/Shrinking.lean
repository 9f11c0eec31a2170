import MachineFork.Proofs.Engine.SavedBlobs
import MachineFork.Proofs.Engine.StableSaves
import MachineFork.Proofs.Registry.Growth

/-!
This module contains when the memory of a blob is given back: at a successful save that comes right
after enough others of the same length, and at no other time. Saves that fail do not count, however
many there are in between.
-/

namespace MachineFork

namespace Host

variable {ι : Type} {M : Machine ι} {h : Host M} {id : SnapshotId}
variable {s t : Snapshot} {lengths : List Nat} {length : Nat}

def Saves (id : SnapshotId) : Step M → Prop
  | .perform (.save saved) _ => saved = id
  | _ => False

def savedLength? (h : Host M) (id : SnapshotId) : Step M → Option Nat
  | .perform (.save saved) _ =>
    if saved = id then
      match h.engine.save h.devices id with
      | (.ok (), e) => (e.snapshot? id).map (·.blob.length)
      | (.error _, _) => none
    else
      none
  | _ => none

inductive Effect (h : Host M) (id : SnapshotId) (step : Step M) (t : Snapshot) : Prop
  | kept {s : Snapshot} (hs : h.engine.snapshot? id = some s)
    (hnone : h.savedLength? id step = none) (halike : s.SavedAlike t)
  | born (hnew : h.engine.nextId ≤ id.number) (hnone : h.savedLength? id step = none)
    (hlast : t.lastSavedLength = none)
  | failed {s : Snapshot} {blob : Stream} (hs : h.engine.snapshot? id = some s)
    (hnone : h.savedLength? id step = none) (hsaves : Saves id step)
    (hgrown : s.blob.capacity ≤ blob.capacity) (ht : t = { s with blob })
  /-- Memory is reserved only if there is too little for the blob that is saved. -/
  | saved {s : Snapshot} {blob : Stream} (hs : h.engine.snapshot? id = some s)
    (hlength : h.savedLength? id step = some blob.length)
    (hlayout : Registry.layout h.devices h.engine.registry.descriptors = (.ok (), blob.bytes))
    (hgrown : s.blob.capacity ≤ blob.capacity)
    (hroom : blob.length ≤ blob.capacity)
    (hspare : blob.length ≤ s.blob.capacity → blob.capacity = s.blob.capacity)
    (ht : t = { s with blob }.noteSave h.engine.config)

theorem save_of_savedLength? {step : Step M} (hlength : h.savedLength? id step = some length) :
    ∃ hread e t, step = .perform (.save id) hread ∧ h.engine.save h.devices id = (.ok (), e) ∧
      e.snapshot? id = some t ∧ t.blob.length = length := by
  unfold savedLength? at hlength
  split at hlength
  · next saved hread =>
    split at hlength
    · next hid =>
      subst hid
      split at hlength
      · next e hsave =>
        obtain ⟨t, ht, hlength⟩ := Option.map_eq_some_iff.mp hlength
        exact ⟨hread, e, t, rfl, hsave, ht, hlength⟩
      · contradiction
    · contradiction
  · contradiction

theorem exists_of_savedLength? {step : Step M} (hlength : h.savedLength? id step = some length) :
    ∃ s, h.engine.snapshot? id = some s := by
  obtain ⟨_, e, _, -, hsave, -⟩ := save_of_savedLength? hlength
  cases hs : h.engine.snapshot? id with
  | some s => exact ⟨s, rfl⟩
  | none => simp [Engine.save, hs] at hsave

theorem Sound.effect_save (hsound : h.Sound)
    (hputs : ∀ i state, ((M.model i).save state).PutsOnly) {saved : SnapshotId}
    {hread : ¬(Call.save (M := M) saved).IsRead}
    (ht : (h.engine.save h.devices saved).2.snapshot? id = some t) :
    h.Effect id (.perform (.save saved) hread) t := by
  by_cases hid : saved = id
  · subst hid
    cases hs : h.engine.snapshot? saved with
    | none => simp [Engine.save, hs] at ht
    | some s =>
      have hkey := (hsound.keyed saved s hs).1
      have hgrows := h.engine.registry.grows_save h.devices s.blob.reset hputs
      have hlength : h.savedLength? saved (.perform (.save saved) hread)
          = match h.engine.save h.devices saved with
            | (.ok (), e) => (e.snapshot? saved).map (·.blob.length)
            | (.error _, _) => none := if_pos rfl
      rcases Engine.save_cases h.devices hs with
        ⟨-, error, hsave, -⟩ | ⟨-, ⟨failure, blob, hblob, hsave⟩ | ⟨blob, hblob, hsave⟩⟩
      · rw [hsave] at ht hlength
        cases hs.symm.trans ht
        exact .kept hs hlength (.refl _)
      · rw [hblob] at hgrows
        rw [hsave] at ht hlength
        rw [Engine.snapshot?_setSnapshot, if_pos hkey] at ht
        exact .failed hs hlength rfl hgrows.capacity_le (Option.some.inj ht).symm
      · have hend := Registry.length_of_save hputs rfl (congrArg Prod.snd hblob)
        have hlayout := Registry.layout_of_save (fun _ _ => hputs _ _) rfl hblob
        rw [hblob] at hgrows
        rw [hsave] at ht hlength
        dsimp only at ht hlength
        rw [ht] at hlength
        rw [Engine.snapshot?_setSnapshot, Snapshot.id_noteSave, if_pos hkey] at ht
        obtain rfl := Option.some.inj ht
        have hbytes := Snapshot.bytes_noteSave { s with blob := blob.truncate } h.engine.config
        apply Effect.saved hs _ hlayout hgrows.capacity_le _ _ rfl
        · rw [hlength, Option.map_some, Stream.length, hbytes]
          rfl
        · rw [hend]
          exact hgrows.within (Nat.zero_le _)
        · rw [hend]
          exact hgrows.capacity_eq
  · have hnone : h.savedLength? id (.perform (.save saved) hread) = none := if_neg hid
    rw [Engine.snapshot?_save_of_ne hsound.toKeeps h.devices hid] at ht
    exact .kept ht hnone (.refl t)

theorem keepsSaves_useAlone {α : Type} {done : Except EngineError α × Engine ι}
    (hdone : h.engine.KeepsSaves done.2) : h.engine.KeepsSaves (h.useAlone done).2.engine := by
  rw [snd_useAlone]
  split
  · exact hdone
  · exact .refl

variable [DecidableEq ι]

theorem Sound.keepsSaves (hsound : h.Sound)
    (hgets : ∀ i state, ((M.model i).restore state).GetsOnly) (step : Step M)
    (hother : ∀ id, ¬Saves id step) : h.engine.KeepsSaves (h.step step).engine := by
  have hsettle : h.engine.KeepsSaves h.engine.settle := .settle
  cases step with
  | enter id =>
    rw [Host.step]
    split
    · exact hsettle.trans (.of_eq rfl rfl)
    · exact .refl
  | leave =>
    rw [Host.step]
    split
    · exact .refl
    · exact .of_eq rfl rfl
  | perform call hread =>
    cases call with
    | save id => exact absurd rfl (hother id)
    | change | startUp | register => exact .of_eq rfl rfl
    | attach name image => exact keepsSaves_useAlone (.attach _ name image)
    | detach disk => exact keepsSaves_useAlone (.detach _ disk)
    | addRoot => exact keepsSaves_useAlone (.addRoot _)
    | restore id => exact .restore hsound.toKeeps h.devices id hgets
    | fork id => exact keepsSaves_useAlone (.fork hsound.toKeeps id)
    | destroy id =>
      rw [Host.step]
      unfold Host.perform
      split
      · exact .refl
      · exact .destroy _ id
    | write id | writeRun id => exact keepsSaves_useAlone (.withNode _ id _)
    | read => exact absurd trivial hread
    | sectorCount | depth | readThrough | readRunThrough | canTransfer | stats => exact hsettle

omit [DecidableEq ι] in
theorem exists_saves_or (step : Step M) :
    (∃ saved hread, step = .perform (.save saved) hread) ∨
      (∀ id, ¬Saves id step) ∧ ∀ (h : Host M) id, h.savedLength? id step = none := by
  cases step with
  | perform call hread =>
    cases call with
    | save saved => exact .inl ⟨saved, hread, rfl⟩
    | _ => exact .inr ⟨fun _ hsaves => hsaves, fun _ _ => rfl⟩
  | _ => exact .inr ⟨fun _ hsaves => hsaves, fun _ _ => rfl⟩

theorem Sound.nextId_le_step (hsound : h.Sound)
    (hgets : ∀ i state, ((M.model i).restore state).GetsOnly) (step : Step M) :
    h.engine.nextId ≤ (h.step step).engine.nextId := by
  cases exists_saves_or step with
  | inl hsave =>
    obtain ⟨saved, hread, rfl⟩ := hsave
    exact Nat.le_of_eq (h.engine.nextId_save h.devices saved).symm
  | inr hother => exact (hsound.keepsSaves hgets step hother.1).nextId_le

/-! What follows from the history. -/

def savedLengths (h : Host M) (id : SnapshotId) : List (Step M) → List Nat
  | [] => []
  | step :: steps => (h.savedLength? id step).toList ++ (h.step step).savedLengths id steps

structure Accounted (h : Host M) (id : SnapshotId) (lengths : List Nat) : Prop where
  fresh : h.engine.nextId ≤ id.number → lengths = []
  counts : ∀ t, h.engine.snapshot? id = some t → t.Counts lengths
  room : ∀ t length, h.engine.snapshot? id = some t → t.lastSavedLength = some length →
    length ≤ t.blob.capacity

omit [DecidableEq ι] in
theorem accounted_of_new {config : Config} {engine : Engine ι}
    (hnew : Engine.new config = .ok engine) (devices : Devices M) (id : SnapshotId) :
    Accounted { engine, devices } id [] := by
  obtain rfl := Engine.eq_of_new hnew
  refine ⟨fun _ => rfl, ?_, ?_⟩
  · intro t ht
    contradiction
  · intro t length ht
    contradiction

section

variable (hputs : ∀ i state, ((M.model i).save state).PutsOnly)
variable (hgets : ∀ i state, ((M.model i).restore state).GetsOnly)

include hputs hgets

theorem Sound.effect {step : Step M} (hsound : h.Sound)
    (ht : (h.step step).engine.snapshot? id = some t) : h.Effect id step t := by
  cases exists_saves_or step with
  | inl hsave =>
    obtain ⟨saved, hread, rfl⟩ := hsave
    exact hsound.effect_save hputs ht
  | inr hother =>
    obtain ⟨hother, hnone⟩ := hother
    cases (hsound.keepsSaves hgets step hother).snapshots id t ht with
    | inl hkept =>
      obtain ⟨s, hs, halike⟩ := hkept
      exact .kept hs (hnone h id) halike
    | inr hborn => exact .born hborn.1 (hnone h id) hborn.2

theorem Accounted.step (haccounted : h.Accounted id lengths) (hsound : h.Sound)
    (step : Step M) :
    (h.step step).Accounted id (lengths ++ (h.savedLength? id step).toList) where
  fresh := by
    intro hnew
    have hnew := Nat.le_trans (hsound.nextId_le_step hgets step) hnew
    rw [haccounted.fresh hnew, List.nil_append, Option.toList_eq_nil_iff]
    by_contra hsaved
    obtain ⟨length, hlength⟩ := Option.ne_none_iff_exists'.mp hsaved
    obtain ⟨s, hs⟩ := exists_of_savedLength? hlength
    exact absurd (hsound.keyed id s hs).2 (Nat.not_lt.mpr hnew)
  counts := by
    intro t ht
    cases hsound.effect hputs hgets ht with
    | kept hs hnone halike =>
      rw [hnone, Option.toList_none, List.append_nil]
      exact (haccounted.counts _ hs).congr halike.lastSavedLength halike.stableSaves
    | born hnew hnone hlast =>
      rw [hnone, haccounted.fresh hnew]
      exact Snapshot.counts_nil hlast
    | failed hs hnone _ _ ht =>
      rw [hnone, Option.toList_none, List.append_nil, ht]
      exact (haccounted.counts _ hs).congr rfl rfl
    | @saved s blob hs hlength _ _ _ _ ht =>
      rw [hlength, ht]
      have hcounts : Snapshot.Counts { s with blob } lengths :=
        (haccounted.counts s hs).congr rfl rfl
      exact hcounts.noteSave h.engine.config
  room := by
    intro t length ht hlast
    cases hsound.effect hputs hgets ht with
    | kept hs _ halike =>
      rw [halike.lastSavedLength] at hlast
      rw [halike.capacity]
      exact haccounted.room _ length hs hlast
    | born _ _ hnone =>
      rw [hnone] at hlast
      contradiction
    | failed hs _ _ hgrown ht =>
      rw [ht] at hlast ⊢
      exact Nat.le_trans (haccounted.room _ length hs hlast) hgrown
    | saved hs _ _ _ hroom _ ht =>
      rw [ht, Snapshot.noteSave_eq] at hlast
      rw [ht, Snapshot.capacity_noteSave]
      obtain rfl := Option.some.inj hlast
      split
      · exact hroom
      · exact Nat.le_min.mpr ⟨hroom, Nat.le_max_left ..⟩

theorem Accounted.walk (haccounted : h.Accounted id lengths) (hsound : h.Sound)
    (steps : List (Step M)) :
    (h.walk steps).Accounted id (lengths ++ h.savedLengths id steps) := by
  induction steps generalizing h lengths with
  | nil =>
    rw [savedLengths, List.append_nil]
    exact haccounted
  | cons step steps ih =>
    rw [savedLengths, ← List.append_assoc]
    exact ih (haccounted.step hputs hgets hsound step) (hsound.step step)

theorem Sound.shrinks {step : Step M} (hsound : h.Sound)
    (hs : h.engine.snapshot? id = some s) (ht : (h.step step).engine.snapshot? id = some t)
    (hless : t.blob.capacity < s.blob.capacity) :
    ∃ blob : Stream, h.savedLength? id step = some blob.length ∧
      0 < h.engine.config.shrinkAfter ∧
      h.engine.config.shrinkAfter ≤ Snapshot.stableAfter { s with blob } ∧
      t.blob.capacity = max blob.length h.engine.config.preferredSize := by
  cases hsound.effect hputs hgets ht with
  | kept hs' _ halike =>
    cases hs.symm.trans hs'
    exact absurd halike.capacity (Nat.ne_of_lt hless)
  | born hnew => exact absurd (hsound.keyed id s hs).2 (Nat.not_lt.mpr hnew)
  | failed hs' _ _ hgrown ht =>
    cases hs.symm.trans hs'
    rw [ht] at hless
    exact absurd hgrown (Nat.not_le.mpr hless)
  | @saved _ blob hs' hlength _ hgrown _ _ ht =>
    cases hs.symm.trans hs'
    rw [ht, Snapshot.capacity_noteSave] at hless
    rw [ht, Snapshot.capacity_noteSave]
    split at hless
    · exact absurd hgrown (Nat.not_le.mpr hless)
    · next hstable =>
      rw [if_neg hstable]
      rw [not_or, Nat.not_lt] at hstable
      dsimp only at hless ⊢
      refine ⟨blob, hlength, Nat.pos_of_ne_zero hstable.1, hstable.2, ?_⟩
      rw [Nat.min_eq_right (by omega)]

/-! What a save does to the memory, said through the history. -/

omit [DecidableEq ι] hputs hgets in
theorem Accounted.le_stableAfter_iff (haccounted : h.Accounted id lengths)
    (hs : h.engine.snapshot? id = some s) (blob : Stream) {k : Nat}
    (hk : k ≤ Snapshot.maxStableSaves) :
    k ≤ Snapshot.stableAfter { s with blob } ↔ List.replicate k blob.length <:+ lengths := by
  have hcounts : Snapshot.Counts { s with blob } lengths :=
    (haccounted.counts s hs).congr rfl rfl
  exact hcounts.le_stableAfter_iff hk

theorem Accounted.saved {step : Step M} (haccounted : h.Accounted id lengths) (hsound : h.Sound)
    (hlimit : h.engine.config.shrinkAfter ≤ Snapshot.maxStableSaves)
    (hlength : h.savedLength? id step = some length) :
    ∃ t, (h.step step).engine.snapshot? id = some t ∧ t.blob.length = length ∧
      Registry.layout h.devices h.engine.registry.descriptors = (.ok (), t.blob.bytes) ∧
      (0 < h.engine.config.shrinkAfter →
        List.replicate h.engine.config.shrinkAfter length <:+ lengths →
          t.blob.capacity ≤ max length h.engine.config.preferredSize) := by
  obtain ⟨t, ht⟩ : ∃ t, (h.step step).engine.snapshot? id = some t := by
    obtain ⟨hread, e, t, rfl, hsave, ht, -⟩ := save_of_savedLength? hlength
    have hstep : (h.step (.perform (.save id) hread)).engine = (h.engine.save h.devices id).2 := rfl
    rw [hstep, hsave]
    exact ⟨t, ht⟩
  cases hsound.effect hputs hgets ht with
  | kept _ hnone | born _ hnone | failed _ hnone =>
    rw [hlength] at hnone
    contradiction
  | @saved s blob hs hlength' hlayout _ _ _ htaken =>
    obtain rfl := Option.some.inj (hlength.symm.trans hlength')
    have hbytes : t.blob.bytes = blob.bytes := by
      rw [htaken, Snapshot.bytes_noteSave]
    refine ⟨t, ht, congrArg List.length hbytes, ?_, ?_⟩
    · rw [hbytes, hlayout]
    · intro hpos hstable
      rw [← haccounted.le_stableAfter_iff hs blob hlimit] at hstable
      rw [htaken, Snapshot.capacity_noteSave, if_neg (by omega)]
      exact Nat.min_le_right ..

theorem Accounted.shrinks {step : Step M} (haccounted : h.Accounted id lengths)
    (hsound : h.Sound) (hlimit : h.engine.config.shrinkAfter ≤ Snapshot.maxStableSaves)
    (hs : h.engine.snapshot? id = some s) (ht : (h.step step).engine.snapshot? id = some t)
    (hless : t.blob.capacity < s.blob.capacity) :
    ∃ length, h.savedLength? id step = some length ∧ 0 < h.engine.config.shrinkAfter ∧
      List.replicate h.engine.config.shrinkAfter length <:+ lengths ∧
      t.blob.capacity = max length h.engine.config.preferredSize := by
  obtain ⟨blob, hlength, hpos, hstable, hcapacity⟩ := hsound.shrinks hputs hgets hs ht hless
  rw [haccounted.le_stableAfter_iff hs blob hlimit] at hstable
  exact ⟨blob.length, hlength, hpos, hstable, hcapacity⟩

omit [DecidableEq ι] hputs hgets in
theorem Accounted.le_capacity (haccounted : h.Accounted id lengths)
    (hs : h.engine.snapshot? id = some s) (hlast : lengths.getLast? = some length) :
    length ≤ s.blob.capacity := by
  rw [← List.singleton_suffix_iff_getLast?_eq_some] at hlast
  obtain ⟨hlast, -⟩ := (haccounted.counts s hs 0 length (Nat.zero_le _)).mpr hlast
  exact haccounted.room s length hs hlast

/-! What becomes of the memory later on. -/

theorem Sound.snapshot_walk {P : Snapshot → Prop} {wrong : Host M → Step M → Prop}
    {more : List (Step M)} (hsound : h.Sound)
    (hs : h.engine.snapshot? id = some s) (hP : P s) (hright : ¬h.Happened more wrong)
    (hstep : ∀ (g : Host M) step s t, g.Sound → g.engine.config = h.engine.config →
      ¬wrong g step → g.engine.snapshot? id = some s → P s →
      (g.step step).engine.snapshot? id = some t → P t)
    (ht : (h.walk more).engine.snapshot? id = some t) : P t := by
  have hlt : ∀ steps, id.number < (h.walk steps).engine.nextId := by
    intro steps
    induction steps using List.reverseRecOn with
    | nil => exact (hsound.keyed id s hs).2
    | append_singleton steps last ih =>
      rw [walk_concat]
      exact Nat.lt_of_lt_of_le ih ((hsound.walk steps).nextId_le_step hgets last)
  induction more using List.reverseRecOn generalizing t with
  | nil =>
    cases hs.symm.trans ht
    exact hP
  | append_singleton more last ih =>
    rw [happened_concat, not_or] at hright
    rw [walk_concat] at ht
    have hsound' := hsound.walk more
    -- Snapshots that are made later have other numbers.
    obtain ⟨u, hu⟩ : ∃ u, (h.walk more).engine.snapshot? id = some u := by
      cases hsound'.effect hputs hgets ht with
      | kept hu | failed hu | saved hu => exact ⟨_, hu⟩
      | born hnew => exact absurd (hlt more) (Nat.not_lt.mpr hnew)
    exact hstep _ last u t hsound' (h.config_walk more) hright.2 hu (ih hright.1 hu) ht

theorem Sound.capacity_le_walk {more : List (Step M)} (hsound : h.Sound)
    (hnever : h.engine.config.shrinkAfter = 0) (hs : h.engine.snapshot? id = some s)
    (ht : (h.walk more).engine.snapshot? id = some t) : s.blob.capacity ≤ t.blob.capacity := by
  have hright : ¬h.Happened more fun _ _ => False := by
    rintro ⟨_, _, _, hwrong⟩
    exact hwrong
  apply hsound.snapshot_walk (P := fun t => s.blob.capacity ≤ t.blob.capacity)
    hputs hgets hs (Nat.le_refl _) hright _ ht
  intro g step u v hsound hconfig _ hu hle hv
  apply Nat.le_trans hle
  by_contra hless
  obtain ⟨_, _, hpos, -⟩ := hsound.shrinks hputs hgets hu hv (Nat.not_le.mp hless)
  rw [hconfig, hnever] at hpos
  contradiction

theorem Sound.capacity_eq_walk {more : List (Step M)} (hsound : h.Sound)
    (hs : h.engine.snapshot? id = some s) (hroom : length ≤ s.blob.capacity)
    (hfits : s.blob.capacity ≤ max length h.engine.config.preferredSize)
    (hsame : ¬h.Happened more fun g step => Saves id step ∧ g.savedLength? id step ≠ some length)
    (ht : (h.walk more).engine.snapshot? id = some t) : t.blob.capacity = s.blob.capacity := by
  apply hsound.snapshot_walk (P := fun t => t.blob.capacity = s.blob.capacity)
    hputs hgets hs rfl hsame _ ht
  intro g step u v hsound hconfig hright hu hcapacity hv
  cases hsound.effect hputs hgets hv with
  | kept hu' _ halike =>
    cases hu.symm.trans hu'
    rw [halike.capacity, hcapacity]
  | born hnew => exact absurd (hsound.keyed id u hu).2 (Nat.not_lt.mpr hnew)
  | failed _ hnone hsaves =>
    rw [hnone] at hright
    exact absurd ⟨hsaves, by simp⟩ hright
  | @saved _ blob hu' hlength _ _ _ hspare hv =>
    cases hu.symm.trans hu'
    have hlength : blob.length = length := by
      by_contra hne
      apply hright
      obtain ⟨_, _, _, rfl, -⟩ := save_of_savedLength? hlength
      refine ⟨rfl, ?_⟩
      rw [hlength]
      exact fun h => hne (Option.some.inj h)
    rw [hv, Snapshot.capacity_noteSave, hconfig]
    dsimp only
    rw [hlength, hspare (by omega), hcapacity]
    split
    · rfl
    · exact Nat.min_eq_left hfits

end

/--
Memory is given back by a successful save alone, if its blob is as long as those of the successful
saves that the configuration asks for and that are the last ones before. The blob then keeps what it
needs, or what the configuration prefers if that is more. Zero stands for never. Saved bytes do not
depend on any of this, and further saves of the same length leave the memory as it is.
-/
theorem capacity_of_walk {config : Config} {engine : Engine ι}
    (hnew : Engine.new config = .ok engine) (hlimit : config.shrinkAfter < UInt32.size)
    (hputs : ∀ i state, ((M.model i).save state).PutsOnly)
    (hgets : ∀ i state, ((M.model i).restore state).GetsOnly)
    (devices : Devices M) (steps : List (Step M)) (id : SnapshotId) :
    let start : Host M := { engine, devices }
    let h := start.walk steps
    let lengths := start.savedLengths id steps
    (∀ step length, h.savedLength? id step = some length →
      ∃ t, (h.step step).engine.snapshot? id = some t ∧ t.blob.length = length ∧
        Registry.layout h.devices h.engine.registry.descriptors = (.ok (), t.blob.bytes) ∧
        (0 < config.shrinkAfter → List.replicate config.shrinkAfter length <:+ lengths →
          t.blob.capacity ≤ max length config.preferredSize)) ∧
    (∀ step s t, h.engine.snapshot? id = some s → (h.step step).engine.snapshot? id = some t →
      t.blob.capacity < s.blob.capacity →
        ∃ length, h.savedLength? id step = some length ∧ 0 < config.shrinkAfter ∧
          List.replicate config.shrinkAfter length <:+ lengths ∧
          t.blob.capacity = max length config.preferredSize) ∧
    (∀ more s t, h.engine.snapshot? id = some s → (h.walk more).engine.snapshot? id = some t →
      (config.shrinkAfter = 0 → s.blob.capacity ≤ t.blob.capacity) ∧
      ∀ length, lengths.getLast? = some length →
        s.blob.capacity ≤ max length config.preferredSize →
        ¬h.Happened more (fun g step => Saves id step ∧ g.savedLength? id step ≠ some length) →
          t.blob.capacity = s.blob.capacity) := by
  intro start h lengths
  have hstart : start.Sound := (Reachable.start hnew devices).sound
  have hsound : h.Sound := hstart.walk steps
  have haccounted : h.Accounted id lengths :=
    (accounted_of_new hnew devices id).walk hputs hgets hstart steps
  have hconfig : h.engine.config = config := by
    rw [start.config_walk steps]
    cases Engine.eq_of_new hnew
    rfl
  have hlimit : h.engine.config.shrinkAfter ≤ Snapshot.maxStableSaves := by
    rw [hconfig]
    exact Nat.le_pred_of_lt hlimit
  rw [← hconfig]
  refine ⟨?_, ?_, ?_⟩
  · intro step length hlength
    exact haccounted.saved hputs hgets hsound hlimit hlength
  · intro step s t hs ht hless
    exact haccounted.shrinks hputs hgets hsound hlimit hs ht hless
  · intro more s t hs ht
    constructor
    · intro hnever
      exact hsound.capacity_le_walk hputs hgets hnever hs ht
    · intro length hlast hfits hsame
      have hroom := haccounted.le_capacity hs hlast
      exact hsound.capacity_eq_walk hputs hgets hs hroom hfits hsame ht

/-! A note that has been long once. The second save after the one that shortens it gives back. -/

def roomyConfig : Config where
  preferredSize := 16
  shrinkAfter := 2

def blank : Host notes where
  engine := { config := roomyConfig }
  devices := { state := fun _ => [] }

def shortened : List (Step notes) := [
  .perform (.startUp fun r => (.ok (), r.insert (.singleton ⟨65, 0, 0, 0⟩) false .startup))
    (fun h => h),
  .perform .addRoot (fun h => h),
  .perform (.change { state := fun _ => List.replicate 40 7 }) (fun h => h),
  .perform (.save ⟨0⟩) (fun h => h),
  .perform (.change { state := fun _ => [7] }) (fun h => h),
  .perform (.save ⟨0⟩) (fun h => h),
  .perform (.save ⟨0⟩) (fun h => h)]

def saveRoot : Step notes :=
  .perform (.save ⟨0⟩) (fun h => h)

theorem capacity_of_walk_shortened :
    blank.savedLengths ⟨0⟩ shortened = [50, 11, 11] ∧
      (blank.walk shortened).savedLength? ⟨0⟩ saveRoot = some 11 ∧
      ∃ s t, (blank.walk shortened).engine.snapshot? ⟨0⟩ = some s ∧ s.blob.capacity = 50 ∧
        (blank.walk (shortened ++ [saveRoot])).engine.snapshot? ⟨0⟩ = some t ∧
        t.blob.capacity = 16 := by
  have hnew : Engine.new roomyConfig = .ok blank.engine := rfl
  have hputs : ∀ i state, ((notes.model i).save state).PutsOnly := fun _ _ => trivial
  have hgets : ∀ i state, ((notes.model i).restore state).GetsOnly := fun _ _ => trivial
  obtain ⟨hsaved, hless, -⟩ :=
    capacity_of_walk hnew (by decide) hputs hgets blank.devices shortened ⟨0⟩
  have hlengths : blank.savedLengths ⟨0⟩ shortened = [50, 11, 11] := by decide +kernel
  have hlength : (blank.walk shortened).savedLength? ⟨0⟩ saveRoot = some 11 := by decide +kernel
  have hroomy : ((blank.walk shortened).engine.snapshot? ⟨0⟩).map (·.blob.capacity) = some 50 := by
    decide +kernel
  obtain ⟨s, hs, hroomy⟩ := Option.map_eq_some_iff.mp hroomy
  obtain ⟨t, ht, -, -, htight⟩ := hsaved saveRoot 11 hlength
  have hstable : List.replicate 2 11 <:+ blank.savedLengths ⟨0⟩ shortened := by
    rw [hlengths]
    exact ⟨[50], rfl⟩
  have htight : t.blob.capacity ≤ 16 := htight (by decide) hstable
  obtain ⟨length, hlength', -, -, hcapacity⟩ := hless saveRoot s t hs ht (by omega)
  obtain rfl := Option.some.inj (hlength.symm.trans hlength')
  refine ⟨hlengths, hlength, s, t, hs, hroomy, ?_, hcapacity⟩
  rw [walk_concat]
  exact ht

end Host

end MachineFork

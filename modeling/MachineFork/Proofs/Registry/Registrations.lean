import MachineFork.Proofs.Registry.Records
import Mathlib.Data.List.Induction
import Mathlib.Data.List.Nodup
import Mathlib.Logic.Function.Basic

/-!
This module contains registries as they come about: by registrations one after the other and by
startup bodies that only register devices. The identities have a position each, and that position
stays theirs; startup devices come first, and the devices after them carry the section that they
wrote when they were registered.
-/

namespace MachineFork

variable {ι : Type} {M : Machine ι}

namespace Registry

structure Attempt (M : Machine ι) where
  devices : Devices M
  id : DeviceId
  device : ι

/--
A startup body that only registers devices. How it goes on may depend on what has come of it so far.
-/
inductive Body (M : Machine ι) where
  | finish (result : Except BlobError Unit)
  | register (attempt : Attempt M) (next : Except BlobError Unit → Registry ι → Body M)

inductive Call (M : Machine ι) where
  | register (attempt : Attempt M)
  | startUp (body : Body M)

structure Indexed (ι : Type) where
  registry : Registry ι := .empty
  index : DeviceId → Option Nat := fun _ => none

def Indexed.insert (x : Indexed ι) (id : DeviceId) (i : ι) (origin : Origin) : Indexed ι where
  registry := x.registry.insert id i origin
  index := Function.update x.index id (some x.registry.size)

variable [DecidableEq ι]

def Attempt.make (attempt : Attempt M) (r : Registry ι) : Except BlobError Unit × Registry ι :=
  r.register attempt.devices attempt.id attempt.device

def Body.run : Body M → Registry ι → Except BlobError Unit × Registry ι
  | finish result, r => (result, r)
  | register attempt next, r =>
    (next (attempt.make r).1 (attempt.make r).2).run (attempt.make r).2

namespace Indexed

def attempt (x : Indexed ι) (attempt : Attempt M) : Indexed ι where
  registry := (attempt.make x.registry).2
  index :=
    if (attempt.make x.registry).2.size = x.registry.size then
      x.index
    else
      Function.update x.index attempt.id (some x.registry.size)

def follow (x : Indexed ι) : Body M → Indexed ι
  | .finish _ => x
  | .register attempt next =>
    (x.attempt attempt).follow (next (attempt.make x.registry).1 (attempt.make x.registry).2)

def perform (x : Indexed ι) : Call M → Indexed ι
  | .register attempt => x.attempt attempt
  | .startUp body =>
    { registry := (x.registry.startUp body.run).2
      index := if x.registry.isInitialized then x.index else (x.follow body).index }

def performAll (calls : List (Call M)) : Indexed ι :=
  calls.foldl perform {}

theorem performAll_concat (calls : List (Call M)) (call : Call M) :
    performAll (calls ++ [call]) = (performAll calls).perform call := by
  rw [performAll, List.foldl_append, List.foldl_cons, List.foldl_nil, performAll]

end Indexed

/-! What registrations and startup bodies do to a registry. -/

omit [DecidableEq ι] in
theorem startUp_of_initialized {r : Registry ι}
    (body : Registry ι → Except BlobError Unit × Registry ι) (hinit : r.isInitialized) :
    r.startUp body = (.ok false, r) := by
  rw [startUp, if_pos hinit]

theorem Attempt.isInitialized_make (attempt : Attempt M) (r : Registry ι) :
    (attempt.make r).2.isInitialized = r.isInitialized := by
  have hcases := r.registration attempt.devices attempt.id attempt.device
  unfold make
  generalize r.register attempt.devices attempt.id attempt.device = result at hcases
  cases hcases <;> rfl

theorem Body.isInitialized_run (body : Body M) (r : Registry ι) :
    (body.run r).2.isInitialized = r.isInitialized := by
  induction body generalizing r with
  | finish => rfl
  | register attempt next ih => exact (ih _ _ _).trans (attempt.isInitialized_make r)

theorem Body.extends_run (body : Body M) (r : Registry ι) : r.Extends (body.run r).2 := by
  induction body generalizing r with
  | finish => exact .refl
  | register attempt next ih =>
    exact (r.extends_register attempt.devices attempt.id attempt.device).trans (ih _ _ _)

theorem Records.run {registered : DeviceId → (i : ι) → M.State i} {r : Registry ι}
    (h : r.Records registered) (hinit : r.isInitialized = false) (body : Body M) :
    (body.run r).2.Records registered := by
  induction body generalizing r with
  | finish => exact h
  | register attempt next ih =>
    apply ih
    · have hcases := r.registration attempt.devices attempt.id attempt.device
      unfold Attempt.make
      generalize r.register attempt.devices attempt.id attempt.device = result at hcases
      cases hcases with
      | repeated | duplicate | failed => exact h
      | startup hnone => exact h.insert hnone (by simp)
      | custom _ hcustom => simp [hinit] at hcustom
    · exact (attempt.isInitialized_make r).trans hinit

/-! The invariant of a registry and its index. -/

structure Indexed.Sound (x : Indexed ι) : Prop where
  index : ∀ id k, x.index id = some k ↔ x.registry.ids[k]? = some id
  ordered : ∃ early late, x.registry.descriptors = early ++ late ∧
    (∀ descriptor ∈ early, descriptor.origin = .startup) ∧
    (∀ descriptor ∈ late, descriptor.isCustom) ∧
    (x.registry.isInitialized = false → late = [])

omit [DecidableEq ι] in
theorem getElem?_insert {r : Registry ι} {id : DeviceId} {i : ι} {origin : Origin} {k : Nat}
    {descriptor : Descriptor ι} (h : (r.insert id i origin).descriptors[k]? = some descriptor) :
    r.descriptors[k]? = some descriptor ∨ r.size = k ∧ descriptor = ⟨id, i, origin⟩ := by
  rw [Registry.insert, List.getElem?_append] at h
  split at h
  · exact .inl h
  · next hge =>
    right
    obtain ⟨hlt, heq⟩ := List.getElem?_eq_some_iff.mp h
    simp only [List.length_singleton] at hlt
    rw [size]
    exact ⟨by omega, by simpa using heq.symm⟩

omit [DecidableEq ι] in
theorem find?_eq_none_iff {r : Registry ι} {id : DeviceId} : r.find? id = none ↔ id ∉ r.ids := by
  simp [find?, ids]

theorem Attempt.make_repeated (attempt : Attempt M) {r : Registry ι} {known : Descriptor ι}
    (hfind : r.find? attempt.id = some known) (hsame : known.device = attempt.device) :
    attempt.make r = (.ok (), r) := by
  rw [make, Registry.register, hfind]
  dsimp only
  rw [if_pos hsame]

namespace Indexed

variable {x : Indexed ι}

theorem attempt_eq_self {x : Indexed ι} {attempt : Attempt M}
    (h : (attempt.make x.registry).2 = x.registry) : x.attempt attempt = x := by
  rw [Indexed.attempt, h, if_pos rfl]

theorem attempt_cases (x : Indexed ι) (attempt : Attempt M) :
    x.attempt attempt = x ∧
        (x.registry.contains attempt.id ∨ ∃ e, (attempt.make x.registry).1 = .error e) ∨
      x.registry.find? attempt.id = none ∧
        (x.registry.isInitialized = false ∧
            x.attempt attempt = x.insert attempt.id attempt.device .startup ∨
          x.registry.isInitialized ∧
            ∃ u, attempt.devices.saveSection attempt.id attempt.device .empty = (.ok (), u) ∧
              x.attempt attempt = x.insert attempt.id attempt.device (.custom u)) := by
  have hinsert {origin : Origin}
      (h : (attempt.make x.registry).2 = x.registry.insert attempt.id attempt.device origin) :
      x.attempt attempt = x.insert attempt.id attempt.device origin := by
    rw [Indexed.attempt, h, if_neg (by simp [size, Registry.insert]), Indexed.insert]
  have hcases := x.registry.registration attempt.devices attempt.id attempt.device
  have hmake : attempt.make x.registry
      = x.registry.register attempt.devices attempt.id attempt.device := rfl
  generalize x.registry.register attempt.devices attempt.id attempt.device = result at hcases hmake
  cases hcases with
  | repeated hfind | duplicate hfind =>
    exact .inl ⟨attempt_eq_self (by rw [hmake]), .inl (by rw [contains, hfind, Option.isSome_some])⟩
  | failed => exact .inl ⟨attempt_eq_self (by rw [hmake]), .inr ⟨_, congrArg Prod.fst hmake⟩⟩
  | startup hnone hinit => exact .inr ⟨hnone, .inl ⟨hinit, hinsert (by rw [hmake])⟩⟩
  | custom hnone hinit hsave =>
    exact .inr ⟨hnone, .inr ⟨hinit, _, hsave, hinsert (by rw [hmake])⟩⟩

theorem attempt_eq_insert {attempt : Attempt M} (hnew : x.registry.contains attempt.id = false)
    (hok : (attempt.make x.registry).1 = .ok ()) :
    ∃ origin, x.attempt attempt = x.insert attempt.id attempt.device origin ∧
      (x.registry.isInitialized = false ∧ origin = .startup ∨
        x.registry.isInitialized ∧ ∃ u, origin = .custom u ∧
          attempt.devices.saveSection attempt.id attempt.device .empty = (.ok (), u)) := by
  rcases x.attempt_cases attempt with
    ⟨-, hknown | ⟨e, herror⟩⟩ | ⟨-, ⟨hinit, heq⟩ | ⟨hinit, u, hsave, heq⟩⟩
  · simp [hnew] at hknown
  · simp [herror] at hok
  · exact ⟨.startup, heq, .inl ⟨hinit, rfl⟩⟩
  · exact ⟨.custom u, heq, .inr ⟨hinit, u, rfl, hsave⟩⟩

theorem registry_follow (x : Indexed ι) (body : Body M) :
    (x.follow body).registry = (body.run x.registry).2 := by
  induction body generalizing x with
  | finish => rfl
  | register attempt next ih => exact ih _ _ _

theorem perform_startUp_of_initialized (body : Body M) (hinit : x.registry.isInitialized) :
    x.perform (.startUp body) = x := by
  rw [perform, startUp, if_pos hinit, if_pos hinit]

theorem perform_startUp_of_not_initialized (body : Body M)
    (hinit : x.registry.isInitialized = false) :
    (∃ e, (x.registry.startUp body.run).1 = .error e) ∧ x.perform (.startUp body) = x.follow body ∨
      (x.registry.startUp body.run).1 = .ok true ∧
        x.perform (.startUp body) =
          { x.follow body with
            registry := { (x.follow body).registry with isInitialized := true } } := by
  have hfollow := x.registry_follow body
  rw [perform, startUp, hinit, if_neg Bool.false_ne_true, if_neg Bool.false_ne_true]
  rcases hrun : body.run x.registry with ⟨e | _, r⟩
  · left
    rw [hrun] at hfollow
    refine ⟨⟨e, rfl⟩, ?_⟩
    rw [← hfollow]
  · right
    rw [hrun] at hfollow
    refine ⟨rfl, ?_⟩
    dsimp only
    rw [hfollow]

theorem extends_perform (x : Indexed ι) (call : Call M) :
    x.registry.Extends (x.perform call).registry := by
  cases call with
  | register attempt => apply extends_register
  | startUp body => exact extends_startUp (body.extends_run x.registry)

theorem extends_performAll (calls more : List (Call M)) :
    (performAll calls).registry.Extends (performAll (calls ++ more)).registry := by
  induction more using List.reverseRecOn with
  | nil =>
    rw [List.append_nil]
    exact .refl
  | append_singleton more call ih =>
    rw [← List.append_assoc, performAll_concat]
    exact ih.trans (extends_perform _ call)

theorem isInitialized_follow (x : Indexed ι) (body : Body M) :
    (x.follow body).registry.isInitialized = x.registry.isInitialized := by
  rw [registry_follow, body.isInitialized_run]

namespace Sound

omit [DecidableEq ι] in
theorem start : Sound ({} : Indexed ι) where
  index := by simp [empty, ids]
  ordered := ⟨[], [], rfl, by simp, by simp, fun _ => rfl⟩

omit [DecidableEq ι] in
theorem insert {id : DeviceId} {i : ι} {origin : Origin} (h : x.Sound)
    (hnone : x.registry.find? id = none)
    (horigin : x.registry.isInitialized ↔ origin ≠ .startup) : (x.insert id i origin).Sound where
  index := by
    intro id' k
    have hids : (x.insert id i origin).registry.ids = x.registry.ids ++ [id] := by
      simp [Indexed.insert, Registry.insert, ids]
    have hsize : x.registry.size = x.registry.ids.length := by
      simp [size, ids]
    rw [hids, Indexed.insert]
    dsimp only
    by_cases hsame : id' = id
    · subst hsame
      rw [Function.update_self, List.getElem?_append, hsize]
      split
      · next hlt =>
        have hnotMem := find?_eq_none_iff.mp hnone
        constructor
        · intro heq
          cases heq
          omega
        · intro hget
          exact absurd (List.mem_of_getElem? hget) hnotMem
      · next hge =>
        rw [List.getElem?_singleton]
        grind
    · rw [Function.update_of_ne hsame, h.index, List.getElem?_append]
      split
      · rfl
      · next hge =>
        rw [List.getElem?_eq_none (by omega), List.getElem?_singleton]
        grind
  ordered := by
    obtain ⟨early, late, hdescriptors, hearly, hlate, hinit⟩ := h.ordered
    cases origin with
    | startup =>
      have hnot : x.registry.isInitialized = false := by simpa using horigin
      obtain rfl := hinit hnot
      refine ⟨early ++ [⟨id, i, .startup⟩], [], ?_, ?_, hlate, fun _ => rfl⟩
      · simp [Indexed.insert, Registry.insert, hdescriptors]
      · intro descriptor hmem
        rcases List.mem_append.mp hmem with hmem | hmem
        · exact hearly descriptor hmem
        · rw [List.mem_singleton.mp hmem]
    | custom u =>
      have his : x.registry.isInitialized := by simpa using horigin
      refine ⟨early, late ++ [⟨id, i, .custom u⟩], ?_, hearly, ?_, ?_⟩
      · simp [Indexed.insert, Registry.insert, hdescriptors]
      · intro descriptor hmem
        rcases List.mem_append.mp hmem with hmem | hmem
        · exact hlate descriptor hmem
        · rw [List.mem_singleton.mp hmem]
          rfl
      · intro hnot
        simp [Indexed.insert, Registry.insert, his] at hnot

theorem attempt (h : x.Sound) (attempt : Attempt M) : (x.attempt attempt).Sound := by
  rcases x.attempt_cases attempt with ⟨heq, -⟩ | ⟨hnone, ⟨hinit, heq⟩ | ⟨hinit, u, -, heq⟩⟩
  · rw [heq]
    exact h
  · rw [heq]
    exact h.insert hnone (by simp [hinit])
  · rw [heq]
    exact h.insert hnone (by simp [hinit])

theorem follow (h : x.Sound) (body : Body M) : (x.follow body).Sound := by
  induction body generalizing x with
  | finish => exact h
  | register attempt next ih => exact ih _ _ (h.attempt attempt)

theorem perform (h : x.Sound) (call : Call M) : (x.perform call).Sound := by
  cases call with
  | register attempt => exact h.attempt attempt
  | startUp body =>
    cases hinit : x.registry.isInitialized with
    | true =>
      rw [perform_startUp_of_initialized body hinit]
      exact h
    | false =>
      rcases perform_startUp_of_not_initialized body hinit with ⟨-, heq⟩ | ⟨-, heq⟩
      · rw [heq]
        exact h.follow body
      · rw [heq]
        obtain ⟨hindex, early, late, hdescriptors, hearly, hlate, -⟩ := h.follow body
        exact ⟨hindex, early, late, hdescriptors, hearly, hlate, by simp⟩

theorem performAll (calls : List (Call M)) : (Indexed.performAll calls).Sound := by
  induction calls using List.reverseRecOn with
  | nil => exact .start
  | append_singleton calls call ih =>
    rw [performAll_concat]
    exact ih.perform call

omit [DecidableEq ι] in
theorem nodup (h : x.Sound) : x.registry.ids.Nodup := by
  rw [List.nodup_iff_getElem?_ne_getElem?]
  intro k l hlt hl heq
  rw [List.getElem?_eq_getElem hl] at heq
  have hk := (h.index _ k).mpr heq
  rw [(h.index _ l).mpr (List.getElem?_eq_getElem hl)] at hk
  exact absurd (Option.some.inj hk) (by omega)

omit [DecidableEq ι] in
theorem index_eq (h : x.Sound) (id : DeviceId) (k : Nat) :
    x.index id = some k
      ↔
    ∃ descriptor, x.registry.descriptors[k]? = some descriptor ∧ descriptor.id = id := by
  rw [h.index, ids, List.getElem?_map, Option.map_eq_some_iff]

omit [DecidableEq ι] in
theorem find?_eq_some (h : x.Sound) {descriptor : Descriptor ι}
    (hmem : descriptor ∈ x.registry.descriptors) :
    x.registry.find? descriptor.id = some descriptor := by
  rw [find?, List.find?_eq_some_iff_getElem]
  obtain ⟨k, hk, rfl⟩ := List.getElem_of_mem hmem
  refine ⟨by simp, k, hk, rfl, ?_⟩
  intro l hlt
  have hne := List.nodup_iff_getElem?_ne_getElem?.mp h.nodup l k hlt (by simpa [ids] using hk)
  simpa [ids, hk, Nat.lt_trans hlt hk] using hne

omit [DecidableEq ι] in
theorem find?_eq (h : x.Sound) (id : DeviceId) :
    x.registry.find? id = (x.index id).bind (x.registry.descriptors[·]?) := by
  cases hindex : x.index id with
  | some k =>
    obtain ⟨descriptor, hget, rfl⟩ := (h.index_eq id k).mp hindex
    rw [h.find?_eq_some (List.mem_of_getElem? hget)]
    exact hget.symm
  | none =>
    rw [Option.bind_none, find?_eq_none_iff]
    intro hmem
    obtain ⟨k, hk⟩ := List.getElem?_of_mem hmem
    simp [(h.index id k).mpr hk] at hindex

omit [DecidableEq ι] in
theorem origin_eq (h : x.Sound) (hinit : x.registry.isInitialized = false)
    {descriptor : Descriptor ι} (hmem : descriptor ∈ x.registry.descriptors) :
    descriptor.origin = .startup := by
  obtain ⟨early, late, hdescriptors, hearly, -, hlate⟩ := h.ordered
  rw [hdescriptors, hlate hinit, List.append_nil] at hmem
  exact hearly descriptor hmem

end Sound

/-! What a request comes to, and where the registrations after startup come from. -/

theorem Sound.make_eq_error_iff (h : x.Sound) (attempt : Attempt M) (e : BlobError) :
    (attempt.make x.registry).1 = .error e
      ↔
    (∃ known ∈ x.registry.descriptors, known.id = attempt.id ∧ known.device ≠ attempt.device ∧
      e = .duplicate attempt.id) ∨
    x.registry.contains attempt.id = false ∧ x.registry.isInitialized ∧
      (attempt.devices.saveSection attempt.id attempt.device .empty).1 = .error e := by
  have hknown {known : Descriptor ι} (hmem : known ∈ x.registry.descriptors)
      (hid : known.id = attempt.id) : x.registry.find? attempt.id = some known := by
    rw [← hid]
    exact h.find?_eq_some hmem
  rw [Attempt.make, Registry.register, contains]
  cases hfind : x.registry.find? attempt.id with
  | some known =>
    dsimp only
    constructor
    · intro herror
      left
      refine ⟨known, List.mem_of_find?_eq_some hfind, by simpa using List.find?_some hfind, ?_⟩
      split at herror
      · simp at herror
      · next hother => exact ⟨hother, (Except.error.inj herror).symm⟩
    · rintro (⟨other, hmem, hid, hother, rfl⟩ | ⟨hnone, -⟩)
      · rw [hknown hmem hid, Option.some.injEq] at hfind
        rw [← hfind, if_neg hother]
      · simp at hnone
  | none =>
    dsimp only
    constructor
    · intro herror
      right
      split at herror
      · next hinit =>
        split at herror
        · next hsave =>
          rw [hsave]
          exact ⟨rfl, hinit, herror⟩
        · simp at herror
      · simp at herror
    · rintro (⟨known, hmem, hid, -⟩ | ⟨-, hinit, hsave⟩)
      · simp [hknown hmem hid] at hfind
      · rw [if_pos hinit]
        split
        · next hsaved =>
          rw [hsaved] at hsave
          exact hsave
        · next hsaved =>
          rw [hsaved] at hsave
          simp at hsave

theorem isInitialized_of_startUp {before : List (Call M)} {body : Body M}
    (h : ((performAll before).registry.startUp body.run).1 = .ok true) (after : List (Call M)) :
    (performAll (before ++ .startUp body :: after)).registry.isInitialized := by
  have hextends := extends_performAll (before ++ [.startUp body]) after
  rw [List.append_assoc, List.singleton_append] at hextends
  apply hextends.initialized
  rw [performAll_concat]
  cases hinit : (performAll before).registry.isInitialized with
  | true => simp [startUp_of_initialized _ hinit] at h
  | false =>
    rcases perform_startUp_of_not_initialized body hinit with ⟨⟨e, herror⟩, -⟩ | ⟨-, heq⟩
    · simp [herror] at h
    · rw [heq]

theorem exists_startUp_of_initialized {calls : List (Call M)}
    (h : (performAll calls).registry.isInitialized) :
    ∃ before body after, calls = before ++ .startUp body :: after ∧
      ((performAll before).registry.startUp body.run).1 = .ok true := by
  induction calls using List.reverseRecOn with
  | nil => simp [performAll, empty] at h
  | append_singleton calls call ih =>
    cases hinit : (performAll calls).registry.isInitialized with
    | true =>
      obtain ⟨before, body, after, rfl, hstart⟩ := ih hinit
      exact ⟨before, body, after ++ [call], by simp, hstart⟩
    | false =>
      rw [performAll_concat] at h
      cases call with
      | register attempt =>
        rw [perform, Indexed.attempt, attempt.isInitialized_make, hinit] at h
        contradiction
      | startUp body =>
        rcases perform_startUp_of_not_initialized body hinit with ⟨-, heq⟩ | ⟨hstart, -⟩
        · simp [heq, isInitialized_follow, hinit] at h
        · exact ⟨calls, body, [], rfl, hstart⟩

theorem exists_attempt_of_custom {calls : List (Call M)} {k : Nat} {descriptor : Descriptor ι}
    {u : Stream} (hget : (performAll calls).registry.descriptors[k]? = some descriptor)
    (hcustom : descriptor.origin = .custom u) :
    ∃ before attempt after, calls = before ++ .register attempt :: after ∧
      (performAll before).registry.size = k ∧
      descriptor.id = attempt.id ∧ descriptor.device = attempt.device ∧
      attempt.devices.saveSection attempt.id attempt.device .empty = (.ok (), u) := by
  induction calls using List.reverseRecOn with
  | nil => simp [performAll, empty] at hget
  | append_singleton calls call ih =>
    have hold (hget : (performAll calls).registry.descriptors[k]? = some descriptor) :
        ∃ before attempt after, calls ++ [call] = before ++ .register attempt :: after ∧
          (performAll before).registry.size = k ∧
          descriptor.id = attempt.id ∧ descriptor.device = attempt.device ∧
          attempt.devices.saveSection attempt.id attempt.device .empty = (.ok (), u) := by
      obtain ⟨before, attempt, after, rfl, hattempt⟩ := ih hget
      exact ⟨before, attempt, after ++ [call], by simp, hattempt⟩
    rw [performAll_concat] at hget
    cases call with
    | register attempt =>
      rw [perform] at hget
      rcases (performAll calls).attempt_cases attempt with
        ⟨heq, -⟩ | ⟨hnone, ⟨-, heq⟩ | ⟨-, v, hsave, heq⟩⟩
      · rw [heq] at hget
        exact hold hget
      · rw [heq] at hget
        rcases getElem?_insert hget with hget | ⟨-, rfl⟩
        · exact hold hget
        · simp at hcustom
      · rw [heq] at hget
        rcases getElem?_insert hget with hget | ⟨hsize, rfl⟩
        · exact hold hget
        · cases hcustom
          exact ⟨calls, attempt, [], rfl, hsize, rfl, rfl, hsave⟩
    | startUp body =>
      cases hinit : (performAll calls).registry.isInitialized with
      | true =>
        rw [perform_startUp_of_initialized body hinit] at hget
        exact hold hget
      | false =>
        have hfollow := (Sound.performAll calls).follow body
        have hmem : descriptor ∈ ((performAll calls).follow body).registry.descriptors := by
          rcases perform_startUp_of_not_initialized body hinit with ⟨-, heq⟩ | ⟨-, heq⟩
          · rw [heq] at hget
            exact List.mem_of_getElem? hget
          · rw [heq] at hget
            exact List.mem_of_getElem? hget
        have hstartup := hfollow.origin_eq (by rw [isInitialized_follow, hinit]) hmem
        simp [hstartup] at hcustom

/--
After any registrations and startup bodies, the identities and their positions are one to one, the
order stays as more is registered, and what is registered after startup has its section from then. A
new identity goes to the end, a request that is refused changes nothing, and startup is not run again
once it has succeeded.
-/
theorem orderly_performAll (calls more : List (Call M)) :
    let x := performAll calls
    let r := x.registry
    (r.ids.Nodup ∧
      (∀ id k, x.index id = some k ↔ ∃ descriptor, r.descriptors[k]? = some descriptor ∧
        descriptor.id = id) ∧
      ∀ id, r.find? id = (x.index id).bind (r.descriptors[·]?)) ∧
    (∃ late, (performAll (calls ++ more)).registry.descriptors = r.descriptors ++ late) ∧
    (∃ early late, r.descriptors = early ++ late ∧
      (∀ descriptor ∈ early, descriptor.origin = .startup) ∧
      ∀ descriptor ∈ late, descriptor.isCustom) ∧
    (∀ k descriptor u, r.descriptors[k]? = some descriptor → descriptor.origin = .custom u →
      ∃ before attempt after, calls = before ++ .register attempt :: after ∧
        (performAll before).registry.size = k ∧
        descriptor.id = attempt.id ∧ descriptor.device = attempt.device ∧
        attempt.devices.saveSection attempt.id attempt.device .empty = (.ok (), u) ∧
        (((M.model attempt.device).save (attempt.devices.state attempt.device)).PutsOnly →
          ∃ payload,
            Devices.payload M attempt.device (attempt.devices.state attempt.device)
                = (.ok (), payload) ∧
              u.bytes = Section.frame attempt.id payload)) ∧
    (∀ descriptor ∈ r.descriptors, ∀ devices : Devices M,
      r.register devices descriptor.id descriptor.device = (.ok (), r)) ∧
    (∀ attempt : Attempt M, r.contains attempt.id = false → (attempt.make r).1 = .ok () →
      ∃ origin,
        (x.attempt attempt).registry.descriptors
            = r.descriptors ++ [⟨attempt.id, attempt.device, origin⟩] ∧
          (x.attempt attempt).index attempt.id = some r.size ∧
          (r.isInitialized = false ∧ origin = .startup ∨
            r.isInitialized ∧ ∃ u, origin = .custom u ∧
              attempt.devices.saveSection attempt.id attempt.device .empty = (.ok (), u))) ∧
    (∀ (attempt : Attempt M) e,
      ((attempt.make r).1 = .error e
        ↔
      (∃ known ∈ r.descriptors, known.id = attempt.id ∧ known.device ≠ attempt.device ∧
        e = .duplicate attempt.id) ∨
      r.contains attempt.id = false ∧ r.isInitialized ∧
        (attempt.devices.saveSection attempt.id attempt.device .empty).1 = .error e) ∧
      ((attempt.make r).1 = .error e → x.attempt attempt = x)) ∧
    (r.isInitialized ↔
      ∃ before body after, calls = before ++ .startUp body :: after ∧
        ((performAll before).registry.startUp body.run).1 = .ok true) ∧
    (r.isInitialized → ∀ body, r.startUp body = (.ok false, r)) := by
  intro x r
  have hsound : x.Sound := .performAll calls
  refine ⟨⟨hsound.nodup, hsound.index_eq, hsound.find?_eq⟩, ?_, ?_, ?_, ?_, ?_, ?_, ?_, ?_⟩
  · obtain ⟨late, hlate, -⟩ := (extends_performAll calls more).descriptors
    exact ⟨late, hlate⟩
  · obtain ⟨early, late, hdescriptors, hearly, hlate, -⟩ := hsound.ordered
    exact ⟨early, late, hdescriptors, hearly, hlate⟩
  · intro k descriptor u hget hcustom
    obtain ⟨before, attempt, after, hcalls, hsize, hid, hdevice, hsave⟩ :=
      exists_attempt_of_custom hget hcustom
    refine ⟨before, attempt, after, hcalls, hsize, hid, hdevice, hsave, ?_⟩
    intro hputs
    have hlayout := Devices.layout_of_saveSection hputs hsave
    obtain ⟨-, payload, hpayload, -, hbytes⟩ := Devices.layout_eq_ok_iff.mp hlayout
    exact ⟨payload, hpayload, hbytes⟩
  · intro descriptor hmem devices
    exact Attempt.make_repeated ⟨devices, _, _⟩ (hsound.find?_eq_some hmem) rfl
  · intro attempt hnew hok
    obtain ⟨origin, heq, horigin⟩ := attempt_eq_insert hnew hok
    refine ⟨origin, ?_, ?_, horigin⟩
    · rw [heq]
      rfl
    · rw [heq]
      exact Function.update_self _ _ _
  · intro attempt e
    refine ⟨hsound.make_eq_error_iff attempt e, ?_⟩
    intro herror
    apply attempt_eq_self
    exact eq_of_register_error (Prod.ext herror rfl)
  · constructor
    · exact exists_startUp_of_initialized
    · rintro ⟨before, body, after, hcalls, hstart⟩
      have hinit := isInitialized_of_startUp hstart after
      rw [← hcalls] at hinit
      exact hinit
  · exact fun hinit body => startUp_of_initialized body hinit

-- The first startup body fails half way; the second one repeats what the first one has registered.
example :
    let devices : Devices counters := { state := fun _ => (5 : UInt8) }
    let first : Attempt counters := ⟨devices, ⟨⟨65, 65, 65, 65⟩, 0⟩, false⟩
    let second : Attempt counters := ⟨devices, ⟨⟨66, 66, 66, 66⟩, 0⟩, true⟩
    let x := performAll [
      .startUp (.register first fun _ _ => .finish (.error (.invalidField "half way"))),
      .startUp (.register first fun result _ => .finish result),
      .register second,
      .register second]
    x.registry.descriptors = [
      ⟨first.id, false, .startup⟩,
      ⟨second.id, true,
        .custom { bytes := Section.frame second.id [5], cursor := 11, capacity := 16 }⟩] ∧
      x.index second.id = some 1 := by
  decide +kernel

end Indexed

end Registry

end MachineFork

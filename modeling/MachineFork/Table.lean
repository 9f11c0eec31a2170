/-!
This module contains finite maps. A table is a list of entries with distinct keys; what it means is
given by `find?`, and every operation comes with the lemma that says what it does to `find?`.
-/

namespace MachineFork

structure Table (κ α : Type) where
  entries : List (κ × α) := []
  nodup_keys : (entries.map Prod.fst).Nodup := by simp

namespace Table

variable {κ α : Type}

def empty : Table κ α := {}

instance : EmptyCollection (Table κ α) := ⟨empty⟩

instance : Inhabited (Table κ α) := ⟨empty⟩

def size (t : Table κ α) : Nat := t.entries.length

def keys (t : Table κ α) : List κ := t.entries.map Prod.fst

def filterKeys (p : κ → Bool) (t : Table κ α) : Table κ α where
  entries := t.entries.filter fun entry => p entry.1
  nodup_keys := by
    have := (List.filter_sublist (p := fun entry => p entry.1) (l := t.entries)).map Prod.fst
    exact this.nodup t.nodup_keys

variable [DecidableEq κ]

def find? (t : Table κ α) (key : κ) : Option α :=
  (t.entries.find? fun entry => entry.1 = key).map Prod.snd

def contains (t : Table κ α) (key : κ) : Bool := (t.find? key).isSome

def erase (t : Table κ α) (key : κ) : Table κ α :=
  t.filterKeys (· ≠ key)

def insert (t : Table κ α) (key : κ) (value : α) : Table κ α where
  entries := (key, value) :: (t.erase key).entries
  nodup_keys := by
    rw [List.map_cons, List.nodup_cons]
    refine ⟨?_, (t.erase key).nodup_keys⟩
    simp [erase, filterKeys]

@[simp]
theorem find?_empty (key : κ) : (∅ : Table κ α).find? key = none := rfl

theorem find?_filterKeys (p : κ → Bool) (t : Table κ α) (key : κ) :
    (t.filterKeys p).find? key = if p key then t.find? key else none := by
  obtain ⟨entries, h⟩ := t
  simp only [find?, filterKeys]
  clear h
  induction entries with
  | nil => simp
  | cons entry rest ih => grind

@[simp]
theorem find?_erase (t : Table κ α) (key other : κ) :
    (t.erase key).find? other = if key = other then none else t.find? other := by
  rw [erase, find?_filterKeys]
  grind

@[simp]
theorem find?_insert (t : Table κ α) (key : κ) (value : α) (other : κ) :
    (t.insert key value).find? other = if key = other then some value else t.find? other := by
  have h := t.find?_erase key other
  simp only [find?, insert, List.find?_cons] at h ⊢
  grind

theorem mem_keys_iff (t : Table κ α) (key : κ) : key ∈ t.keys ↔ (t.find? key).isSome := by
  simp only [keys, find?, Option.isSome_map, List.find?_isSome, List.mem_map, decide_eq_true_eq]

theorem size_erase (t : Table κ α) (key : κ) :
    (t.erase key).size = if key ∈ t.keys then t.size - 1 else t.size := by
  have hkeys : (t.erase key).keys = t.keys.erase key := by
    rw [show t.keys.erase key = t.keys.filter (· != key) from t.nodup_keys.erase_eq_filter key]
    simp only [keys, erase, filterKeys, List.filter_map, Function.comp_def, bne, ne_eq,
      decide_not]
    rfl
  have hsize (u : Table κ α) : u.size = u.keys.length := by simp [size, keys]
  rw [hsize, hsize, hkeys, List.length_erase]

theorem size_insert (t : Table κ α) (key : κ) (value : α) :
    (t.insert key value).size = if key ∈ t.keys then t.size else t.size + 1 := by
  have h := t.size_erase key
  have hs : (t.insert key value).size = (t.erase key).size + 1 := by simp [size, insert]
  rw [hs, h]
  split
  · next hk =>
    have : 0 < t.keys.length := List.length_pos_of_mem hk
    simp only [keys, List.length_map, size] at this ⊢
    omega
  · rfl

theorem entries_eq_nil (t : Table κ α) (h : ∀ key, t.find? key = none) : t.entries = [] := by
  rw [List.eq_nil_iff_forall_not_mem]
  intro entry hmem
  have hkey : entry.1 ∈ t.keys := List.mem_map_of_mem hmem
  rw [mem_keys_iff, h entry.1] at hkey
  contradiction

theorem entries_erase_of_find?_eq_none (t : Table κ α) {key : κ} (h : t.find? key = none) :
    (t.erase key).entries = t.entries := by
  simp only [find?, Option.map_eq_none_iff, List.find?_eq_none] at h
  apply List.filter_eq_self.mpr
  intro entry hmem
  simpa using h entry hmem

theorem perm_erase (t : Table κ α) {key : κ} {value : α} (h : t.find? key = some value) :
    t.entries.Perm ((key, value) :: (t.erase key).entries) := by
  obtain ⟨entries, hnodup⟩ := t
  simp only [find?, erase, filterKeys] at h ⊢
  induction entries with
  | nil => simp at h
  | cons entry rest ih =>
    rw [List.map_cons, List.nodup_cons] at hnodup
    by_cases hkey : entry.1 = key
    · -- No other entry has the key, so all of the others are kept.
      have hrest : rest.filter (fun entry => entry.1 ≠ key) = rest := by
        apply List.filter_eq_self.mpr
        intro other hmem
        have hne : other.1 ≠ entry.1 := fun heq => hnodup.1 (heq ▸ List.mem_map_of_mem hmem)
        simpa [← hkey] using hne
      simp only [List.find?_cons, hkey, decide_true, Option.map_some, Option.some.injEq] at h
      rw [List.filter_cons_of_neg (by simp [hkey]), hrest, ← h, ← hkey]
    · simp only [List.find?_cons, hkey, decide_false] at h
      rw [List.filter_cons_of_pos (by simp [hkey])]
      exact ((ih hnodup.2 h).cons entry).trans (.swap ..)

end Table

end MachineFork

import MachineFork.Device.Script
import MachineFork.Proofs.Blob.Fields

/-!
This module contains devices whose saved state is a list of typed fields: they write the fields in
order and read them back in the same order.
-/

namespace MachineFork

namespace Script

variable {s : Stream} {fields : List Field}

theorem putsOnly_putAll (fields : List Field) : (putAll fields).PutsOnly := by
  induction fields with
  | nil => trivial
  | cons field rest ih => exact (Field.putsOnly_put field).bind fun _ => ih

theorem run_putAll (hfits : ∀ field ∈ fields, field.Fits) (hcursor : s.cursor ≤ s.length) :
    ∃ t, (putAll fields).run () s = (.ok (), (), t) ∧ s.Lays (fields.flatMap Field.encode) t := by
  induction fields generalizing s with
  | nil => exact ⟨s, rfl, .refl⟩
  | cons field rest ih =>
    rw [List.forall_mem_cons] at hfits
    obtain ⟨t, hput, hfirst⟩ := Field.run_put hfits.1 hcursor ()
    obtain ⟨u, hrest, hmore⟩ := ih hfits.2 (hfirst.cursor_le_length hcursor)
    refine ⟨u, ?_, hfirst.trans hmore hcursor⟩
    rw [putAll, Program.run_bind, hput]
    exact hrest

end Script

/--
Whether `values` are what is read from `s` as fields of the same types as `fields`. It makes no
difference in which state a device is when it reads one of them.
-/
inductive Field.ReadEach (σ : Type) : List Field → Stream → List Field → Stream → Prop where
  | nil {s : Stream} : ReadEach σ [] s [] s
  | cons {field value : Field} {rest values : List Field} {state : σ} {s t u : Stream}
    (first : field.get.run state s = (.ok value, state, t)) (behind : ReadEach σ rest t values u) :
    ReadEach σ (field :: rest) s (value :: values) u

theorem Field.ReadEach.takes {σ : Type} {fields values : List Field} {s t : Stream}
    (h : ReadEach σ fields s values t) :
    s.Takes (values.flatMap encode) t ∧ ∀ value ∈ values, value.Fits := by
  induction h with
  | nil => exact ⟨.refl, by simp⟩
  | cons first behind ih =>
    have hfirst := (decodes_get _ _ _ _ _ _ first).1
    exact ⟨hfirst.trans ih.1, List.forall_mem_cons.mpr ⟨fits_of_get first, ih.2⟩⟩

structure DeviceModel.Typed {σ : Type} (model : DeviceModel σ) (fields : σ → List Field) :
    Prop where
  save (state : σ) : model.save state = Script.putAll (fields state)
  restore (live state : σ) (s t : Stream) :
    (model.restore live).run live s = (.ok (), state, t) →
      Field.ReadEach σ (fields live) s (fields state) t

theorem Script.readEach_of_getFrom (fields : List Field) {rest state : List Field} {s t : Stream}
    (h : (getFrom (fields ++ rest) fields.length rest).run (fields ++ rest) s = (.ok (), state, t)) :
    ∃ values, state = fields ++ values ∧ Field.ReadEach (List Field) rest s values t := by
  induction rest generalizing fields s with
  | nil =>
    obtain ⟨-, rfl, rfl⟩ := Program.run_pure_eq_ok h
    exact ⟨[], rfl, .nil⟩
  | cons field rest ih =>
    rw [getFrom] at h
    obtain ⟨value, _, u, hfirst, hbehind⟩ := Program.run_bind_eq_ok h
    have hset : (fields ++ field :: rest).set fields.length value = (fields ++ [value]) ++ rest := by
      simp
    have hlength : fields.length + 1 = (fields ++ [value]).length := by
      simp
    rw [Program.run, hset, hlength] at hbehind
    obtain ⟨values, rfl, hread⟩ := ih _ hbehind
    obtain rfl := (Field.decodes_get field _ _ _ _ _ hfirst).2
    exact ⟨value :: values, List.append_assoc _ _ _, .cons hfirst hread⟩

theorem Script.typed_model : (model none none).Typed id where
  save _ := rfl
  restore live state s t h := by
    obtain ⟨values, rfl, hread⟩ := readEach_of_getFrom [] h
    exact hread

end MachineFork

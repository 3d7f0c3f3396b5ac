import DBus.Proofs.Typable

/-!
# Exact types

The signature that is inferred for a value is that of a type if and only if the value is of the
type (`Value.HasForm`), and no array in it is empty (`Value.Filled`), since there is nothing that
the type of the items could be told by. One direction is `Value.hasForm_of_infer`, that the text of
a signature is read in one way only. The other is by induction on how the value has the type
(`Value.HasForm.infer_eq`). So there is no other type that the value has (`Value.HasForm.unique`).

The items of an array have a type in common in the same sense (`Value.haveElementType_iff_infer`).
-/

namespace DBus

namespace Value

/-- No array in the value is empty, outside of variants. -/
inductive Filled : Value → Prop
  | scalar (s : Scalar) : Filled (.scalar s)
  | text (c : TextCode) (s : String) : Filled (.text c s)
  | array {vs : List Value} : vs ≠ [] → (∀ v ∈ vs, Filled v) → Filled (.array vs)
  | struct {vs : List Value} : (∀ v ∈ vs, Filled v) → Filled (.struct vs)
  | dictEntry {key value : Value} : Filled key → Filled value → Filled (.dictEntry key value)
  | variant (a : Argument) (v : Value) : Filled (.variant a v)

variable {v : Value} {vs : List Value} {t u : Ty}

/-! ## Values with an inferred signature -/

theorem exists_infer_of_inferFields {s : Bytes} (h : inferFields vs = .ok s) :
    ∀ v ∈ vs, ∃ a, v.infer = .ok a := by
  induction vs generalizing s with
  | nil => exact nofun
  | cons v vs ih =>
    obtain ⟨a, ha, hrest⟩ := inferFields_cons_eq_ok_iff.mp h
    refine List.forall_mem_cons.mpr ⟨⟨a, ha⟩, ?_⟩
    rcases hrest with ⟨rfl, -⟩ | ⟨b, hb, -⟩
    · exact nofun
    · exact ih hb

mutual

/-- Nothing is inferred for an empty array. -/
theorem filled_of_infer : ∀ (v : Value) {s : Bytes}, v.infer = .ok s → v.Filled
  | .scalar u, _, _ => .scalar u
  | .text c u, _, _ => .text c u
  | .array vs, s, h => by
    simp only [infer, bind_eq_ok, pure_eq_ok] at h
    obtain ⟨e, he, -⟩ := h
    obtain ⟨hne, hall⟩ := inferElement_eq_ok_iff.mp he
    exact .array hne (filled_of_exists_infer vs fun v hv => ⟨e, hall v hv⟩)
  | .struct vs, s, h => by
    simp only [infer, bind_eq_ok, pure_eq_ok] at h
    obtain ⟨e, he, -⟩ := h
    exact .struct (filled_of_exists_infer vs (exists_infer_of_inferFields he))
  | .dictEntry key value, s, h => by
    simp only [infer, bind_eq_ok, pure_eq_ok] at h
    obtain ⟨a, ha, b, hb, -⟩ := h
    exact .dictEntry (filled_of_infer key ha) (filled_of_infer value hb)
  | .variant a v, _, _ => .variant a v

theorem filled_of_exists_infer : ∀ (vs : List Value), (∀ v ∈ vs, ∃ s, v.infer = .ok s) →
    ∀ v ∈ vs, v.Filled
  | [], _ => nofun
  | v :: vs, h => by
    obtain ⟨⟨s, hs⟩, hvs⟩ := List.forall_mem_cons.mp h
    exact List.forall_mem_cons.mpr ⟨filled_of_infer v hs, filled_of_exists_infer vs hvs⟩

end

/-! ## Values of a type -/

/-- The signature of the type that a value has is inferred for it. -/
theorem HasForm.infer_eq (h : v.HasForm t) (ht : t.Regular) (hv : v.Filled) :
    v.infer = .ok t.render := by
  induction h with
  | scalar s => rfl
  | text c s => rfl
  | array _ ih =>
    cases hv with
    | array hne hvs =>
      exact Inferable.infer_array hne fun v hmem => ih v hmem ht.element (hvs v hmem)
  | @struct vs ts hlen _ ih =>
    cases hv with
    | struct hvs =>
      obtain ⟨hts, hregular⟩ := ht.fields
      -- Nothing is inferred for an empty struct, but that is of no type in a signature.
      have hne : vs ≠ [] := by
        rintro rfl
        exact hts (List.eq_nil_of_length_eq_zero hlen.symm)
      have hfields := Inferable.inferFields_eq hne hlen fun p hp =>
        ih p hp (hregular p.2 (List.of_mem_zip hp).2) (hvs p.1 (List.of_mem_zip hp).1)
      rw [infer, hfields]
      rfl
  | dictEntry _ _ ihkey ihvalue =>
    cases hv with
    | dictEntry hkey hvalue =>
      rw [infer, ihkey (Ty.regular_basic _) hkey, ihvalue ht.value hvalue]
      rfl
  | variant a v => rfl

theorem infer_eq_render_iff (ht : t.Regular) :
    v.infer = .ok t.render ↔ v.HasForm t ∧ v.Filled := by
  constructor
  · intro h
    exact ⟨(hasForm_of_infer v (x := []) (y := []) h rfl).2.2, filled_of_infer v h⟩
  · intro ⟨hform, hfilled⟩
    exact hform.infer_eq ht hfilled

/-- A value without empty arrays has no second type. -/
theorem HasForm.unique (h : v.HasForm t) (h' : v.HasForm u) (ht : t.Regular) (hu : u.Regular)
    (hv : v.Filled) : t = u := by
  have hrender : t.render = u.render :=
    Except.ok.inj ((h.infer_eq ht hv).symm.trans (h'.infer_eq hu hv))
  exact Ty.render_inj hrender

theorem toVariant_eq_ok_iff {w : Value} :
    v.toVariant = .ok w ↔
      ∃ t : Ty, t.Valid ∧ v.HasForm t ∧ v.Filled ∧ w = .variant ⟨t, none⟩ v := by
  simp only [toVariant, bind_eq_ok, pure_eq_ok, inferArgument_eq_ok_iff]
  constructor
  · rintro ⟨⟨t, _⟩, ⟨ht, rfl, hinfer⟩, rfl⟩
    obtain ⟨hform, hfilled⟩ := (infer_eq_render_iff ht.regular).mp hinfer
    exact ⟨t, ht, hform, hfilled, rfl⟩
  · rintro ⟨t, ht, hform, hfilled, rfl⟩
    exact ⟨⟨t, none⟩, ⟨ht, rfl, hform.infer_eq ht.regular hfilled⟩, rfl⟩

/-- Items have a type in common if one is inferred for the array of them, or there are none. -/
theorem haveElementType_iff_infer :
    haveElementType vs = true ↔ vs = [] ∨ ∃ s, (array vs).infer = .ok s := by
  rw [haveElementType_iff]
  by_cases hne : vs = []
  · simp only [hne, true_or]
  · simp only [hne, false_or, infer, bind_eq_ok, pure_eq_ok, inferElement_eq_ok_iff]
    constructor
    · intro ⟨e, he⟩
      exact ⟨_, e, ⟨hne, he⟩, rfl⟩
    · intro ⟨_, e, ⟨_, he⟩, _⟩
      exact ⟨e, he⟩

/-- Inference is exact. The signature of a type is inferred for a value if and only if the value
is of the type and holds no empty array outside of its variants. A variant of a value states the
one type that the value has. And items that can be told to have a type in common are those that an
array can be typed with, or none at all. -/
theorem infer_exact (v : Value) :
    (∀ a : Argument, a.ty.Valid → (v.infer = .ok a.ty.render ↔ v.HasForm a.ty ∧ v.Filled)) ∧
    (∀ w, v.toVariant = .ok w → ∃ t : Ty, t.Valid ∧ w = .variant ⟨t, none⟩ v ∧ v.HasForm t ∧
      ∀ u : Ty, u.Valid → v.HasForm u → u = t) ∧
    ∀ items, haveElementType items = true ↔ items = [] ∨ ∃ s, (array items).infer = .ok s := by
  refine ⟨fun a ha => infer_eq_render_iff ha.regular, ?_, fun items => haveElementType_iff_infer⟩
  intro w hw
  obtain ⟨t, ht, hform, hfilled, rfl⟩ := toVariant_eq_ok_iff.mp hw
  refine ⟨t, ht, rfl, hform, ?_⟩
  intro u hu hform'
  exact hform'.unique hform hu.regular ht.regular hfilled

/-- An array of byte arrays is typed by what is in it, and not if one of these is empty. -/
theorem infer_exact_byteArrays :
    let one : Value := .scalar (.int .byte 1 (by decide))
    let t : Ty := .array (.array (.int .byte))
    t.Valid ∧
      ((Value.array [.array [one]]).infer = .ok t.render ↔
        (Value.array [.array [one]]).HasForm t ∧ (Value.array [.array [one]]).Filled) ∧
      (Value.array [.array [one]]).infer = .ok t.render ∧
      ¬((Value.array [.array [one], .array []]).HasForm t ∧
        (Value.array [.array [one], .array []]).Filled) := by
  intro one t
  have ht : t.Valid := ⟨[97, 97, 121], by rfl⟩
  refine ⟨ht, (infer_exact _).1 ⟨t, none⟩ ht, rfl, ?_⟩
  rw [← (infer_exact _).1 ⟨t, none⟩ ht]
  exact nofun

end Value

end DBus

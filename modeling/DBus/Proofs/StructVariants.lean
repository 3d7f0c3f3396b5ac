import DBus.Proofs.DataRoundTrip

/-!
# Records in variants

A record is read from a dictionary, and the empty array is one without entries, all of whose fields
are missing. The contents of a variant of an enumeration are read as they look by themselves, and so
the empty array is a sequence there, which has too few elements for any field.

Otherwise such a record comes back as any other one does : from a struct always, and from a
dictionary if the fields that it leaves out are options (`Shape.decode_structVariant_iff`). A record
of which every field is a missing option does not (`Shape.exists_decode_structVariant_ne`).
-/

namespace DBus

namespace Shape

section

variable {p : StructPolicy} {enum name expected label : String} {fields : List (String × Part)}
  {vs : List Value}

/-- A dictionary without entries is read as a sequence, where the first field is not found. -/
theorem fieldsOf_emptyArray (hne : fields ≠ []) :
    Decoder.fieldsOf expected label (fieldDecoders (fields.map fun f => (f.1, f.2.shape)))
      (Value.array []).viewAny = .error (.decoding (.invalidLength 0 label)) := by
  cases fields with
  | nil => exact absurd rfl hne
  | cons f fields => rfl

/-- The record in a dictionary comes back just if something is in it, and only options are not. -/
theorem fieldsOf_dictionary_iff (hne : fields ≠ []) (hnames : (fields.map Prod.fst).Nodup)
    (hfields : ∀ f ∈ fields, f.2.Decodes p)
    (hvs : Data.toFields p .dictionary (fields.map fun f => (f.1, f.2.data)) = .ok vs) :
    (Decoder.fieldsOf expected label (fieldDecoders (fields.map fun f => (f.1, f.2.shape)))
        (Value.array vs).viewAny = .ok (.seq (fields.map fun f => f.2.decoded)) ↔
      (∃ f ∈ fields, f.2.leftOut p = false) ∧
        ∀ f ∈ fields, f.2.leftOut p = true → f.2.shape.isOption = true) ∧
    (vs = [] ↔ ∀ f ∈ fields, f.2.leftOut p = true) := by
  obtain ⟨es, hes, hempty, hcollect⟩ :=
    exists_ofEntries_of_toFields hfields [] [] rfl hnames hvs
  cases es with
  | nil =>
    obtain rfl : vs = [] := Value.array.inj hes
    have hleft : ∀ f ∈ fields, f.2.leftOut p = true := hempty.mp rfl
    rw [fieldsOf_emptyArray hne]
    refine ⟨iff_of_false nofun ?_, iff_of_true rfl hleft⟩
    rintro ⟨⟨f, hf, hfound⟩, -⟩
    rw [hleft f hf] at hfound
    cases hfound
  | cons e es =>
    have hfound : ¬∀ f ∈ fields, f.2.leftOut p = true := fun h => nomatch hempty.mpr h
    have hvs : vs ≠ [] := by
      rintro rfl
      cases hes
    simp only [List.nil_append, List.map_const'] at hcollect
    simp only [hes, Value.viewAny_ofEntries, Decoder.fieldsOf, List.map_const',
      length_fieldDecoders, List.length_map, hcollect, ok_bind, bind_eq_ok, pure_eq_ok,
      Decoded.seq.injEq, exists_eq_right, complete_found_iff hfields]
    refine ⟨(and_iff_right ?_).symm, iff_of_false hvs hfound⟩
    simpa using hfound

end

/-- A record in a variant of an enumeration comes back exactly if it is written as a struct, or if
some of its fields are in the dictionary and only options are left out of it. If all of them are
left out, a sequence is found instead of the dictionary, and it is too short. The fields may be of
any shapes in which their own values are read back. -/
theorem decode_structVariant_iff {p : StructPolicy} {enum name : String}
    {variants : List (String × VariantShape)} {fields : List (String × Part)}
    (hvariants : (variants.map Prod.fst).Nodup)
    (hname : (name, .struct (fields.map fun f => (f.1, f.2.shape))) ∈ variants)
    (hne : fields ≠ []) (hnames : (fields.map Prod.fst).Nodup)
    (hfields : ∀ f ∈ fields, f.2.Decodes p) {v : Value}
    (hv : (Data.structVariant enum name (fields.map fun f => (f.1, f.2.data))).toValue p = .ok v) :
    ((Shape.enum enum variants).decode v =
        .ok (.variant name (.seq (fields.map fun f => f.2.decoded))) ↔
      p name = .positional ∨ ((∃ f ∈ fields, f.2.leftOut p = false) ∧
        ∀ f ∈ fields, f.2.leftOut p = true → f.2.shape.isOption = true)) ∧
    (p name = .dictionary → (∀ f ∈ fields, f.2.leftOut p = true) →
      (Shape.enum enum variants).decode v = .error (.decoding (.invalidLength 0
        (withElements ("struct variant " ++ enum ++ "::" ++ name) fields.length)))) := by
  simp only [Data.toValue, bind_eq_ok, Value.ofVariant_eq_ok_iff, Value.wrap_eq_ok_iff] at hv
  obtain ⟨vs, hvs, _, ⟨a, -, rfl⟩, rfl⟩ := hv
  have hview : (Value.variant a ((p name).record vs)).viewAny = ((p name).record vs).viewAny := rfl
  simp only [decode_pair hvariants hname, contentsDecoder, variantContents, ok_bind, hview,
    bind_eq_ok, pure_eq_ok, Decoded.variant.injEq, true_and, exists_eq_right, List.length_map]
  cases hstyle : p name with
  | positional =>
    rw [hstyle] at hvs
    exact ⟨iff_of_true (fieldsOf_positional hne hfields hvs) (.inl rfl), fun h => by cases h⟩
  | dictionary =>
    rw [hstyle] at hvs
    obtain ⟨hiff, hempty⟩ := fieldsOf_dictionary_iff hne hnames hfields hvs
    refine ⟨hiff.trans (or_iff_right (by decide)).symm, fun _ hleft => ?_⟩
    obtain rfl := hempty.mpr hleft
    rw [StructStyle.record, fieldsOf_emptyArray hne]
    rfl

/-- A point with a number and without a label. -/
theorem decode_structVariant_iff_label :
    let point := Shape.enum "Place"
      [("Point", .struct [("x", .int (.wire .byte)), ("label", .option (.text true))])]
    let three := Scalar.int .byte 3 (by decide)
    let value := Value.struct [.ofString "Point",
      .variant ⟨.array (.dictEntry (.text .string) .variant), none⟩
        (.array [.dictEntry (.ofString "x") (.variant ⟨.int .byte, none⟩ (.scalar three))])]
    (Data.structVariant "Place" "Point" [("x", .scalar three), ("label", .none)]).toValue
        .dictionaries = .ok value ∧
      point.decode value = .ok (.variant "Point" (.seq [.int (.wire .byte) 3, .none])) := by
  intro point three value
  let fields : List (String × Part) := [("x", ⟨.int (.wire .byte), .scalar three,
    .int (.wire .byte) 3⟩), ("label", ⟨.option (.text true), .none, .none⟩)]
  have hv : (Data.structVariant "Place" "Point" [("x", .scalar three), ("label", .none)]).toValue
      .dictionaries = .ok value := by rfl
  have hfields : ∀ f ∈ fields, f.2.Decodes .dictionaries := by
    refine List.forall_mem_cons.mpr ⟨?_, List.forall_mem_singleton.mpr ?_⟩
    · rintro _ ⟨⟩
      rfl
    · rintro _ ⟨⟩
      rfl
  have hfound : ∃ f ∈ fields, f.2.leftOut .dictionaries = false := ⟨_, List.mem_cons_self, rfl⟩
  have hoption : ∀ f ∈ fields, f.2.leftOut .dictionaries = true → f.2.shape.isOption = true :=
    List.forall_mem_cons.mpr ⟨nofun, List.forall_mem_singleton.mpr fun _ => rfl⟩
  have hiff := @decode_structVariant_iff .dictionaries "Place" "Point"
    [("Point", .struct (fields.map fun f => (f.1, f.2.shape)))] fields
    (by decide) (by simp) (by simp [fields]) (by decide) hfields _ hv
  exact ⟨hv, hiff.1.mpr (.inr ⟨hfound, hoption⟩)⟩

/-- A record in a variant whose only field is a missing option is written as a dictionary, and
does not come back, although the option by itself does. -/
theorem exists_decode_structVariant_ne :
    ∃ v, (Data.structVariant "E" "S" [("a", .none)]).toValue .dictionaries = .ok v ∧
      (∀ w, Data.toValue .dictionaries .none = .ok w →
        (Shape.option (.int (.wire .uint32))).decode w = .ok .none) ∧
      (Shape.enum "E" [("S", .struct [("a", .option (.int (.wire .uint32)))])]).decode v ≠
        .ok (.variant "S" (.seq [.none])) := by
  refine ⟨.struct [.ofString "S", .variant ⟨.array .variant, none⟩ (.array [])], by rfl, ?_, nofun⟩
  rintro _ ⟨⟩
  rfl

end Shape

end DBus

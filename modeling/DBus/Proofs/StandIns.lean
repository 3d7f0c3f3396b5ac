import DBus.Proofs.Deserializing
import DBus.Proofs.Typable

/-!
# What stands for nothing in a sequence

Among elements that are put into variants, an empty array of bytes stands for the empty struct,
which no variant can hold (`Value.standIn`). Where an option is asked for, it is taken for the
missing one, as the empty struct is. Otherwise it looks like an empty array (`Pulls.standIn`), and
the empty struct does not.

So the stand-in is as good as the empty struct for the shapes that ask for an option or for nothing
at all (`Shape.knowsStandIn`), and for no others. A sequence with empty structs among its elements
comes back only if its elements are of such a shape (`Shape.decode_standIn_iff`). One of units does
not (`Shape.exists_decode_standIn_ne`).
-/

namespace DBus

/-! ## Seeing the stand-in -/

/-- What stands for the empty struct among elements that are put into variants. -/
def Value.standIn : Value := .variant ⟨absentType, none⟩ (.array [])

namespace Value

theorem wrapElement_of_isNothing {v : Value} (h : v.isNothing = true) :
    v.wrapElement = .ok standIn := if_pos h

theorem eq_struct_of_isNothing {v : Value} (h : v.isNothing = true) : v = .struct [] := by
  cases v with
  | struct vs => rw [List.isEmpty_iff.mp h]
  | _ => cases h

/-- Elements that have a type in common are something. -/
theorem isNothing_of_haveElementType {vs : List Value} (h : haveElementType vs = true) :
    ∀ v ∈ vs, v.isNothing = false := by
  intro v hv
  rcases haveElementType_iff.mp h with rfl | ⟨s, hs⟩
  · cases hv
  · cases hnothing : v.isNothing with
    | false => rfl
    | true =>
      have hinfer := hs v hv
      rw [eq_struct_of_isNothing hnothing] at hinfer
      cases hinfer

end Value

/-- Whoever asks for an option is told of the stand-in what is told of the empty struct. Whoever
looks at it sees an empty array. -/
theorem Pulls.standIn {α : Type} {f : Value → Except Error α} (hf : Pulls f) :
    f .standIn = f (.struct []) ∨ f .standIn = f (.array []) := by
  cases hf with
  | look request hrequest told => exact .inr (told _ _ (view_variant hrequest _ _))
  | option absent _ told => exact .inl (by rw [told, told]; rfl)

namespace Shape

/-- The shape takes the stand-in for nothing. -/
def knowsStandIn : Shape → Bool
  | option _ | ignored | observed .option => true
  | newtype _ t => t.knowsStandIn
  | _ => false

/-- What is got out of the empty struct is got out of the stand-in just by the shapes that know
it. -/
theorem decode_standIn : ∀ {t : Shape} {x : Decoded}, t.decode (.struct []) = .ok x →
    (t.decode .standIn = .ok x ↔ t.knowsStandIn = true)
  | .option _, _, h | .ignored, _, h => iff_of_true h rfl
  | .newtype _ t, _, h => by
    rw [decode] at h ⊢
    exact decode_standIn h
  | .unit, _, h | .unitStruct _, _, h => by
    cases h
    exact iff_of_false (fun h => by cases h) Bool.false_ne_true
  | .observed request, _, h => by
    cases request with
    | option => exact iff_of_true h rfl
    | _ =>
      -- the empty struct is not seen as an empty array is
      cases h <;> exact iff_of_false (fun h => by cases h) Bool.false_ne_true
  | .int k, _, h => by
    simp only [decode, Decoder.int] at h
    split at h <;> cases h
  | .single, _, h | .double, _, h | .boolean, _, h | .char, _, h | .text _, _, h | .bytes _, _, h
  | .seq _, _, h | .tuple _, _, h | .tupleStruct _ _, _, h | .map _ _, _, h | .mapValueFirst, _, h
  | .struct _ _, _, h | .enum _ _, _, h => by cases h

/-! ## Sequences -/

variable {p : StructPolicy} {t : Shape}

/-- A part comes back through the variant that it is put into as an element, if it is something, or
if its shape knows what stands for nothing. -/
theorem decode_wrapElement_iff {q : Part} (hq : q.Decodes p) {v w : Value}
    (hv : q.data.toValue p = .ok v) (hw : v.wrapElement = .ok w) :
    q.shape.decode w = .ok q.decoded ↔ q.shape.knowsStandIn = true ∨ q.leftOut p = false := by
  rw [Part.leftOut_eq hv]
  cases hnothing : v.isNothing with
  | false =>
    rcases Value.wrapElement_eq_ok_iff.mp hw with ⟨h, -⟩ | ⟨-, hw⟩
    · cases hnothing.symm.trans h
    · exact iff_of_true (hq.wrap hv hw) (.inr rfl)
  | true =>
    have hdecode := hq hv
    rw [Value.eq_struct_of_isNothing hnothing] at hdecode
    rw [Value.wrapElement_of_isNothing hnothing, Except.ok.injEq] at hw
    rw [← hw, decode_standIn hdecode]
    simp

/-- The stand-in is as good as the empty struct for the shapes that know it. So a sequence comes
back from the value that it makes, if the elements come back from theirs, just if their shape knows
the stand-in or none of them is the empty struct. -/
theorem decode_standIn_iff (t : Shape) :
    (∀ x, t.decode (.struct []) = .ok x →
        (t.decode .standIn = .ok x ↔ t.knowsStandIn = true)) ∧
      ∀ (p : StructPolicy) (parts : List Part), (∀ q ∈ parts, q.shape = t) →
        (∀ q ∈ parts, q.Decodes p) → ∀ v, (Data.seq (parts.map Part.data)).toValue p = .ok v →
          ((Shape.seq t).decode v = .ok (.seq (parts.map Part.decoded)) ↔
            t.knowsStandIn = true ∨ ∀ q ∈ parts, q.leftOut p = false) := by
  refine ⟨fun x => decode_standIn, fun p parts hshapes hparts v hv => ?_⟩
  simp only [Data.toValue, bind_eq_ok] at hv
  obtain ⟨vs, hvs, hv⟩ := hv
  rcases Value.ofElements_eq_ok_iff.mp hv with ⟨htype, rfl⟩ | ⟨-, ws, hws, rfl⟩
  · refine iff_of_true (decode_array hshapes hparts hvs) (.inr fun q hq => ?_)
    -- each of the elements has a type
    rw [Data.toValues_eq_mapM] at hvs
    obtain ⟨v, hmem, hv⟩ := exists_result_of_mapM hvs (List.mem_map_of_mem hq)
    rw [Part.leftOut_eq hv, Value.isNothing_of_haveElementType htype v hmem]
  · rw [decode, Decoder.seq_array_eq_ok_iff (Value.code_of_wrapElements hws),
      mapM_decode_eq_ok_iff (P := fun q => t.knowsStandIn = true ∨ q.leftOut p = false)
        (fun q hq v w hv hw => ?_) hvs hws]
    · by_cases ht : t.knowsStandIn = true <;> simp [ht]
    · rw [← hshapes q hq]
      exact decode_wrapElement_iff (hparts q hq) hv hw

/-- An option that is missing, among strings. -/
theorem decode_standIn_iff_missing :
    let t := Shape.option (.text true)
    let value := Value.array [.variant ⟨.text .string, none⟩ (.ofString "x"), .standIn]
    (Data.seq [.some (.text "x"), .none]).toValue .dictionaries = .ok value ∧
      t.decode .standIn = .ok .none ∧
      (Shape.seq t).decode value = .ok (.seq [.some (.text "x"), .none]) := by
  intro t value
  let parts : List Part := [⟨t, .some (.text "x"), .some (.text "x")⟩, ⟨t, .none, .none⟩]
  have hv : (Data.seq [.some (.text "x"), .none]).toValue .dictionaries = .ok value := by rfl
  have hparts : ∀ q ∈ parts, q.Decodes .dictionaries := by
    refine List.forall_mem_cons.mpr ⟨?_, List.forall_mem_singleton.mpr ?_⟩
    · rintro _ ⟨⟩
      rfl
    · rintro _ ⟨⟩
      rfl
  obtain ⟨hone, hseq⟩ := decode_standIn_iff t
  exact ⟨hv, (hone .none rfl).mpr rfl,
    (hseq .dictionaries parts (by simp [parts]) hparts value hv).mpr (.inl rfl)⟩

/-- The empty struct is a unit, and what stands for it is none. A sequence of one unit does not come
back. -/
theorem exists_decode_standIn_ne :
    Shape.unit.decode (.struct []) = .ok .unit ∧ Shape.unit.decode .standIn ≠ .ok .unit ∧
      Data.unit.toValue .dictionaries = .ok (.struct []) ∧
      ∃ v, (Data.seq [.unit]).toValue .dictionaries = .ok v ∧
        (Shape.seq .unit).decode v ≠ .ok (.seq [.unit]) :=
  ⟨rfl, nofun, rfl, .array [.standIn], rfl, nofun⟩

end Shape

end DBus

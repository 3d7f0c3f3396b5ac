import DBus.Proofs.Inference
import DBus.Proofs.RoundTrip
import DBus.Shape

/-!
# Values made from data

Whatever data a value is made from, the variants in it are of the types that they state and name
none (`Data.sendable_of_toValue`). So it is of the type that is inferred for it, and a message
that is made from it holds the value itself. Data got out of the message is what is got out of the
value (`Data.decodeMessage_of_toMessage`).
-/

namespace DBus

-- `^` is the power of the standard library, whichever others are in scope.
attribute [local instance (1100)] instPowNat

/-! ## Texts in data -/

namespace Data

mutual

/-- The texts in data, with the names of variants and fields. -/
def strings : Data → List String
  | text s => [s]
  | some d | newtypeStruct _ d => d.strings
  | seq ds | tuple ds | tupleStruct _ ds => stringsAll ds
  | map parts => stringsOfParts parts
  | struct _ fields => stringsOfFields fields
  | unitVariant _ v => [v]
  | newtypeVariant _ v d => v :: d.strings
  | tupleVariant _ v ds => v :: stringsAll ds
  | structVariant _ v fields => v :: stringsOfFields fields
  | _ => []

/-- The texts in a list of data. -/
def stringsAll : List Data → List String
  | [] => []
  | d :: ds => d.strings ++ stringsAll ds

/-- The texts in the parts of a map. -/
def stringsOfParts : List (MapRole × Data) → List String
  | [] => []
  | (_, d) :: parts => d.strings ++ stringsOfParts parts

/-- The texts in the fields of a record. -/
def stringsOfFields : List (String × Data) → List String
  | [] => []
  | (name, d) :: fields => name :: (d.strings ++ stringsOfFields fields)

end

end Data

namespace Value

/-! ## Values that messages carry as they are -/

/-- The value has a single form at the type that is inferred for it : its variants are of the types
that they state and name none, and its texts are short enough. -/
structure Sendable (v : Value) : Prop where
  consistent : v.Consistent
  unnamed : v.Unnamed
  short : v.Short

variable {v w : Value} {vs ws : List Value}

namespace Sendable

theorem scalar (s : Scalar) : (Value.scalar s).Sendable where
  consistent := .scalar s
  unnamed := by simp [Unnamed, variants]
  short := by simp [Short, texts]

theorem ofString {s : String} (hs : (utf8 s).length < 2 ^ (32 : Nat)) :
    (Value.ofString s).Sendable where
  consistent := .text .string s
  unnamed := by simp [Unnamed, variants, Value.ofString]
  short := short_text.mpr hs

/-- An array is sendable if its items are. -/
theorem array (h : ∀ v ∈ vs, v.Sendable) : (Value.array vs).Sendable where
  consistent := .array fun v hv => (h v hv).consistent
  unnamed := unnamed_array.mpr fun v hv => (h v hv).unnamed
  short := short_array.mpr fun v hv => (h v hv).short

theorem struct (h : ∀ v ∈ vs, v.Sendable) : (Value.struct vs).Sendable where
  consistent := .struct fun v hv => (h v hv).consistent
  unnamed := unnamed_struct.mpr fun v hv => (h v hv).unnamed
  short := short_struct.mpr fun v hv => (h v hv).short

theorem dictEntry (hv : v.Sendable) (hw : w.Sendable) : (Value.dictEntry v w).Sendable where
  consistent := .dictEntry hv.consistent hw.consistent
  unnamed := unnamed_dictEntry.mpr ⟨hv.unnamed, hw.unnamed⟩
  short := short_dictEntry.mpr ⟨hv.short, hw.short⟩

/-- A variant is sendable if its contents are, and are of the type that it states without a name. -/
theorem variant {a : Argument} (ha : a.ty.Valid) (hname : a.name = none) (htype : v.HasType a.ty)
    (h : v.Sendable) : (Value.variant a v).Sendable where
  consistent := .variant ha htype
  unnamed := unnamed_variant.mpr ⟨hname, h.unnamed⟩
  short := short_variant.mpr h.short

end Sendable

/-- The type of a value made from data : the empty array counts as one of variants, and for any
other value the type is inferred. -/
theorem dataArgument_eq_ok_iff {a : Argument} :
    v.dataArgument = .ok a ↔
      (v = .array [] ∧ a = ⟨.array .variant, none⟩) ∨
        (v ≠ .array [] ∧ v.inferArgument = .ok a) := by
  unfold dataArgument
  split
  · simp [eq_comm]
  · next hv =>
    have hne : v ≠ array [] := hv
    simp [hne]

/-- The type that is found for data is one that the value has. -/
theorem Consistent.dataArgument (h : v.Consistent) {a : Argument} (ha : v.dataArgument = .ok a) :
    a.ty.Valid ∧ a.name = none ∧ v.HasType a.ty := by
  rcases dataArgument_eq_ok_iff.mp ha with ⟨rfl, rfl⟩ | ⟨-, ha⟩
  · exact ⟨⟨[97, 118], by rfl⟩, rfl, .array (by simp)⟩
  · obtain ⟨hvalid, hname, hinfer⟩ := inferArgument_eq_ok_iff.mp ha
    exact ⟨hvalid, hname, hasType_of_infer h hinfer⟩

/-! ## The makers -/

/-- A value is put into a variant of the type that is found for it. -/
theorem wrap_eq_ok_iff : v.wrap = .ok w ↔ ∃ a, v.dataArgument = .ok a ∧ variant a v = w := by
  simp only [wrap, bind_eq_ok, pure_eq_ok]

/-- An element that is nothing is put into a variant as the stand-in, and another one as it is. -/
theorem wrapElement_eq_ok_iff :
    v.wrapElement = .ok w ↔ (v.isNothing = true ∧ variant ⟨absentType, none⟩ (array []) = w) ∨
      (v.isNothing = false ∧ v.wrap = .ok w) := by
  unfold wrapElement
  cases v.isNothing <;> simp

/-- Elements make an array of their own type, or one of variants if they have none in common. -/
theorem ofElements_eq_ok_iff :
    ofElements vs = .ok w ↔ (haveElementType vs = true ∧ array vs = w) ∨
      (haveElementType vs = false ∧ ∃ ws, vs.mapM wrapElement = .ok ws ∧ array ws = w) := by
  unfold ofElements
  cases haveElementType vs <;> simp

/-- A variant with contents is made of its name and the contents in a variant. -/
theorem ofVariant_eq_ok_iff {name : String} :
    v.ofVariant name = .ok w ↔ ∃ u, v.wrap = .ok u ∧ struct [ofString name, u] = w := by
  simp only [ofVariant, bind_eq_ok, pure_eq_ok]

/-- An entry is made for each value but nothing. -/
theorem entries_eq_ok_iff {key : Value} :
    v.entries key = .ok vs ↔ (v.isNothing = true ∧ [] = vs) ∨
      (v.isNothing = false ∧ ∃ w, v.wrap = .ok w ∧ [dictEntry key w] = vs) := by
  unfold entries
  cases v.isNothing <;> simp

/-- A value is a key if it is basic. -/
theorem asKey_eq_ok_iff : v.asKey = .ok w ↔ v.code.isContainer = false ∧ v = w := by
  unfold asKey
  split <;> simp_all

/-! ## What is kept -/

/-- A property that a value has if its parts do, whatever makes the value from data. The texts in
the data have a property of their own. -/
structure Kept (S : String → Prop) (P : Value → Prop) : Prop where
  scalar (s : Scalar) : P (.scalar s)
  ofString {s : String} : S s → P (.ofString s)
  array {vs : List Value} : (∀ v ∈ vs, P v) → P (.array vs)
  struct {vs : List Value} : (∀ v ∈ vs, P v) → P (.struct vs)
  wrap {v w : Value} : P v → v.wrap = .ok w → P w
  absent : P (.variant ⟨absentType, none⟩ (.array []))
  dictEntry {key v w : Value} : key.code.isContainer = false → P key → P v → v.wrap = .ok w →
    P (.dictEntry key w)

namespace Kept

variable {S : String → Prop} {P : Value → Prop} (hP : Kept S P)

include hP

/-- What is kept is kept in the variant around an element. -/
theorem wrapElement (h : P v) (hw : v.wrapElement = .ok w) : P w := by
  rcases wrapElement_eq_ok_iff.mp hw with ⟨-, rfl⟩ | ⟨-, hw⟩
  · exact hP.absent
  · exact hP.wrap h hw

/-- What is kept is kept in the array that elements make. -/
theorem ofElements (h : ∀ v ∈ vs, P v) (hw : Value.ofElements vs = .ok w) : P w := by
  rcases ofElements_eq_ok_iff.mp hw with ⟨-, rfl⟩ | ⟨-, ws, hws, rfl⟩
  · exact hP.array h
  · refine hP.array fun w hw => ?_
    obtain ⟨v, hv, hvw⟩ := exists_mem_of_mapM hws hw
    exact hP.wrapElement (h v hv) hvw

/-- What is kept is kept in a variant with contents. -/
theorem ofVariant {name : String} (hname : S name) (h : P v) (hw : v.ofVariant name = .ok w) :
    P w := by
  obtain ⟨u, hu, rfl⟩ := ofVariant_eq_ok_iff.mp hw
  refine hP.struct ?_
  simpa using ⟨hP.ofString hname, hP.wrap h hu⟩

/-- What is kept is kept in the entries of a dictionary. -/
theorem entries (h : P v) {key : Value} (hcode : key.code.isContainer = false) (hkey : P key)
    (hw : v.entries key = .ok ws) : ∀ w ∈ ws, P w := by
  rcases entries_eq_ok_iff.mp hw with ⟨-, rfl⟩ | ⟨-, u, hu, rfl⟩
  · simp
  · simpa using hP.dictEntry hcode hkey h hu

/-- What is kept is kept in a field of a record, of either style. -/
theorem field (h : P v) {name : String} (hname : S name) {style : StructStyle}
    (hw : style.field name v = .ok ws) : ∀ w ∈ ws, P w := by
  cases style with
  | positional =>
    cases hw
    simpa using h
  | dictionary => exact hP.entries h rfl (hP.ofString hname) hw

theorem record (h : ∀ v ∈ vs, P v) (style : StructStyle) : P (style.record vs) := by
  cases style with
  | positional => exact hP.struct h
  | dictionary => exact hP.array h

end Kept

/-- To be sendable is kept by everything that makes values from data. -/
theorem Sendable.kept : Kept (fun s => (utf8 s).length < 2 ^ (32 : Nat)) Sendable where
  scalar := .scalar
  ofString := .ofString
  array := .array
  struct := .struct
  wrap h hw := by
    obtain ⟨a, ha, rfl⟩ := wrap_eq_ok_iff.mp hw
    obtain ⟨hvalid, hname, htype⟩ := h.consistent.dataArgument ha
    exact .variant hvalid hname htype h
  absent := .variant (a := ⟨absentType, none⟩) ⟨[97, 121], by rfl⟩ rfl (.array (by simp))
    (.array (by simp))
  dictEntry _ hkey h hw := by
    obtain ⟨a, ha, rfl⟩ := wrap_eq_ok_iff.mp hw
    obtain ⟨hvalid, hname, htype⟩ := h.consistent.dataArgument ha
    exact .dictEntry hkey (.variant hvalid hname htype h)

end Value

namespace Data

/-! ## Values made from data -/

variable {p : StructPolicy} {S : String → Prop} {P : Value → Prop}

open Value

mutual

/-- A value that is made from data has what is kept. -/
theorem kept_of_toValue (hP : Kept S P) : ∀ (d : Data) {v : Value}, (∀ s ∈ d.strings, S s) →
    d.toValue p = .ok v → P v
  | .scalar s, v, _, h => by
    cases h
    exact hP.scalar s
  | .int8 _, v, _, h | .single _, v, _, h | .char _, v, _, h => by
    cases h
    exact hP.scalar _
  | .text s, v, hs, h => by
    cases h
    exact hP.ofString (hs s (by simp [strings]))
  | .bytes bs, v, _, h => by
    cases h
    refine hP.array fun v hv => ?_
    obtain ⟨b, -, rfl⟩ := List.mem_map.mp hv
    exact hP.scalar _
  | .none, v, _, h | .unit, v, _, h | .unitStruct _, v, _, h => by
    cases h
    exact hP.struct (by simp)
  | .some d, v, hs, h | .newtypeStruct _ d, v, hs, h => kept_of_toValue hP d hs h
  | .seq ds, v, hs, h => by
    simp only [toValue, bind_eq_ok] at h
    obtain ⟨vs, hvs, h⟩ := h
    exact hP.ofElements (kept_of_toValues hP ds hs hvs) h
  | .tuple ds, v, hs, h | .tupleStruct _ ds, v, hs, h => by
    simp only [toValue, bind_eq_ok, pure_eq_ok] at h
    obtain ⟨vs, hvs, rfl⟩ := h
    exact hP.struct (kept_of_toValues hP ds hs hvs)
  | .map parts, v, hs, h => by
    simp only [toValue, bind_eq_ok, pure_eq_ok] at h
    obtain ⟨vs, hvs, rfl⟩ := h
    exact hP.array (kept_of_toEntries hP parts hs (by simp) hvs)
  | .struct name fields, v, hs, h => by
    simp only [toValue, bind_eq_ok, pure_eq_ok] at h
    obtain ⟨vs, hvs, rfl⟩ := h
    exact hP.record (kept_of_toFields hP fields hs hvs) _
  | .unitVariant _ s, v, hs, h => by
    cases h
    exact hP.ofString (hs s (by simp [strings]))
  | .newtypeVariant _ s d, v, hs, h => by
    simp only [toValue, bind_eq_ok] at h
    obtain ⟨u, hu, h⟩ := h
    rw [strings, List.forall_mem_cons] at hs
    exact hP.ofVariant hs.1 (kept_of_toValue hP d hs.2 hu) h
  | .tupleVariant _ s ds, v, hs, h => by
    simp only [toValue, bind_eq_ok] at h
    obtain ⟨vs, hvs, h⟩ := h
    rw [strings, List.forall_mem_cons] at hs
    exact hP.ofVariant hs.1 (hP.struct (kept_of_toValues hP ds hs.2 hvs)) h
  | .structVariant _ s fields, v, hs, h => by
    simp only [toValue, bind_eq_ok] at h
    obtain ⟨vs, hvs, h⟩ := h
    rw [strings, List.forall_mem_cons] at hs
    exact hP.ofVariant hs.1 (hP.record (kept_of_toFields hP fields hs.2 hvs) _) h

/-- It holds of the values made from a list of data. -/
theorem kept_of_toValues (hP : Kept S P) : ∀ (ds : List Data) {vs : List Value},
    (∀ s ∈ stringsAll ds, S s) → toValues p ds = .ok vs → ∀ v ∈ vs, P v
  | [], vs, _, h => by
    cases h
    simp
  | d :: ds, vs, hs, h => by
    simp only [toValues, bind_eq_ok, pure_eq_ok] at h
    obtain ⟨v, hv, ws, hws, rfl⟩ := h
    rw [stringsAll, List.forall_mem_append] at hs
    exact List.forall_mem_cons.mpr ⟨kept_of_toValue hP d hs.1 hv, kept_of_toValues hP ds hs.2 hws⟩

/-- It holds of the entries of a map, where a key waits for its value. -/
theorem kept_of_toEntries (hP : Kept S P) : ∀ (parts : List (MapRole × Data)) {key : Option Value}
    {vs : List Value}, (∀ s ∈ stringsOfParts parts, S s) →
      (∀ k, key = Option.some k → k.code.isContainer = false ∧ P k) →
        toEntries p key parts = .ok vs → ∀ v ∈ vs, P v
  | [], key, vs, _, _, h => by
    cases h
    simp
  | (.key, d) :: parts, key, vs, hs, _, h => by
    simp only [toEntries, bind_eq_ok, Value.asKey_eq_ok_iff] at h
    obtain ⟨u, hu, k, ⟨hcode, rfl⟩, h⟩ := h
    rw [stringsOfParts, List.forall_mem_append] at hs
    refine kept_of_toEntries hP parts hs.2 ?_ h
    rintro _ ⟨⟩
    exact ⟨hcode, kept_of_toValue hP d hs.1 hu⟩
  | (.value, d) :: parts, key, vs, hs, hkey, h => by
    rw [stringsOfParts, List.forall_mem_append] at hs
    cases key with
    | none => cases h
    | some k =>
      simp only [toEntries, bind_eq_ok, pure_eq_ok] at h
      obtain ⟨u, hu, entry, hentry, rest, hrest, rfl⟩ := h
      obtain ⟨hcode, hk⟩ := hkey k rfl
      exact List.forall_mem_append.mpr
        ⟨hP.entries (kept_of_toValue hP d hs.1 hu) hcode hk hentry,
          kept_of_toEntries hP parts hs.2 (by simp) hrest⟩

/-- It holds of the fields of a record. -/
theorem kept_of_toFields (hP : Kept S P) : ∀ (fields : List (String × Data)) {style : StructStyle}
    {vs : List Value}, (∀ s ∈ stringsOfFields fields, S s) → toFields p style fields = .ok vs →
      ∀ v ∈ vs, P v
  | [], style, vs, _, h => by
    cases h
    simp
  | (name, d) :: fields, style, vs, hs, h => by
    simp only [toFields, bind_eq_ok, pure_eq_ok] at h
    obtain ⟨u, hu, field, hfield, rest, hrest, rfl⟩ := h
    rw [stringsOfFields, List.forall_mem_cons, List.forall_mem_append] at hs
    exact List.forall_mem_append.mpr
      ⟨hP.field (kept_of_toValue hP d hs.2.1 hu) hs.1 hfield,
        kept_of_toFields hP fields hs.2.2 hrest⟩

end

/-- Data make values that messages carry as they are. -/
theorem sendable_of_toValue (d : Data) {v : Value}
    (hs : ∀ s ∈ d.strings, (utf8 s).length < 2 ^ (32 : Nat)) (h : d.toValue p = .ok v) :
    v.Sendable :=
  kept_of_toValue Value.Sendable.kept d hs h

end Data

/-! ## Values sent and received -/

/-- A body that is one value of the type holds that value. -/
theorem Message.value_of_laidOut {t : Ty} (ht : t.Valid) {v : Value} {cs : List Cell}
    (h : LaidOut .little (min ({} : Marshaller).maxDepth maxNesting) t v 0 cs) :
    Message.value ⟨fill cs, t.render⟩ = .ok v := by
  have hparse : parseTypes t.render = .ok [t] := parseType_eq_ok_iff.mp ht.parseType_render
  have hr : Message.reader ⟨fill cs, t.render⟩ .little = .ok _ :=
    Message.reader_eq_ok_iff.mpr ⟨⟨[t], hparse⟩, rfl⟩
  have hargs : Argument.listOfSignature t.render = .ok [⟨t, none⟩] :=
    Argument.listOfSignature_eq_ok_iff.mpr ⟨[t], hparse, rfl⟩
  have hat : At (fill cs) 0 cs := by simpa using at_fill [] cs []
  have hall := LaidOutAll.cons h .nil
  rw [List.append_nil] at hall
  have hregular : ∀ a ∈ [(⟨t, none⟩ : Argument)], a.ty.Regular := by simpa using ht.regular
  obtain ⟨s, hs, hdata, hpos⟩ := Marshaller.receiveAll_of_laidOutAll (m := {}) rfl hregular
    (Message.follows_of_reader hr hparse) hall hat
  have hfinish : s.finish = .ok () := Reader.finish_eq_ok_iff.mpr (by simp [hdata, hpos])
  have htext : readText t.render = .ok t.signature := readText_eq_ok_iff.mpr t.utf8_signature
  rw [EStateM.run] at hs
  simp only [value, htext, hargs, hr, ok_bind, hs, hfinish]
  rfl

/-- A value that messages carry as it is is what the message holds that is made from it. -/
theorem Value.Sendable.toMessage {v : Value} (h : v.Sendable) {m : Message}
    (hm : v.toMessage = .ok m) :
    ∃ a, v.dataArgument = .ok a ∧ m.signature = a.ty.render ∧ m.value = .ok v := by
  simp only [Value.toMessage, bind_eq_ok] at hm
  obtain ⟨a, ha, hm⟩ := hm
  split at hm
  · next msg hwrite =>
    cases hm
    obtain ⟨hvalid, -, htype⟩ := h.consistent.dataArgument ha
    have hcode : a.ty.code = .dictEntry → (Writer.top .little).records = false := fun hcode =>
      absurd hcode hvalid.code_ne_dictEntry
    obtain ⟨cs, hcs, rfl⟩ :=
      (Marshaller.writeValue_eq_ok_iff (m := {}) rfl h.short hcode).mp hwrite
    rw [Value.normalise_eq_self htype h.unnamed] at hcs
    exact ⟨a, ha, rfl, Message.value_of_laidOut hvalid hcs⟩
  · cases hm

namespace Data

variable {p : StructPolicy}

/-- Data that are sent as a message are received as the value that they make. The signature of the
message is the one that is inferred for the value, and for the empty array that of an array of
variants. What is got out of the message is what is got out of the value, for any shape that is
expected. -/
theorem decodeMessage_of_toMessage {d : Data}
    (hd : ∀ s ∈ d.strings, (utf8 s).length < 2 ^ (32 : Nat)) {m : Message}
    (h : d.toMessage p = .ok m) :
    ∃ v, d.toValue p = .ok v ∧
      (v = .array [] → m.signature = utf8 "av") ∧ (v ≠ .array [] → v.infer = .ok m.signature) ∧
      m.value = .ok v ∧ ∀ t : Shape, t.decodeMessage m = t.decode v := by
  simp only [toMessage, bind_eq_ok] at h
  obtain ⟨v, hv, hm⟩ := h
  obtain ⟨a, ha, hsignature, hvalue⟩ := (sendable_of_toValue d hd hv).toMessage hm
  refine ⟨v, hv, ?_, ?_, hvalue, fun t => by rw [Shape.decodeMessage, hvalue, ok_bind]⟩
  · rintro rfl
    cases ha
    rw [hsignature]
    decide
  · intro hne
    rcases Value.dataArgument_eq_ok_iff.mp ha with ⟨rfl, -⟩ | ⟨-, ha⟩
    · exact absurd rfl hne
    · rw [hsignature, (Value.inferArgument_eq_ok_iff.mp ha).2.2]

/-- A sequence of a boolean and of nothing, which an empty array of bytes stands for. -/
theorem decodeMessage_of_toMessage_absent :
    (seq [scalar (.boolean true), none]).toMessage .dictionaries =
        .ok ⟨[16, 0, 0, 0, 1, 98, 0, 0, 1, 0, 0, 0, 2, 97, 121, 0, 0, 0, 0, 0], [97, 118]⟩ ∧
      Message.value ⟨[16, 0, 0, 0, 1, 98, 0, 0, 1, 0, 0, 0, 2, 97, 121, 0, 0, 0, 0, 0], [97, 118]⟩ =
        .ok (.array [.variant ⟨.fixed .boolean, Option.none⟩ (.scalar (.boolean true)),
          .variant ⟨.array (.int .byte), Option.none⟩ (.array [])]) ∧
      (Shape.seq (.option .boolean)).decodeMessage
          ⟨[16, 0, 0, 0, 1, 98, 0, 0, 1, 0, 0, 0, 2, 97, 121, 0, 0, 0, 0, 0], [97, 118]⟩ =
        .ok (.seq [.some (.boolean true), .none]) := by
  have hm : (seq [scalar (.boolean true), none]).toMessage .dictionaries =
      .ok ⟨[16, 0, 0, 0, 1, 98, 0, 0, 1, 0, 0, 0, 2, 97, 121, 0, 0, 0, 0, 0], [97, 118]⟩ := by rfl
  obtain ⟨v, hv, -, -, hvalue, hdecode⟩ :=
    decodeMessage_of_toMessage (by simp [strings, stringsAll]) hm
  cases hv
  exact ⟨hm, hvalue, by rw [hdecode]; rfl⟩

end Data

end DBus

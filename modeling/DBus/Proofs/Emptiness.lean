import DBus.Proofs.Deserializing
import DBus.Proofs.Typable

/-!
# Empty sequences and maps

Plain data are numbers, texts, sequences, tuples, maps and records, without anything that is missing
(`Data.Plain`). An empty sequence has no type of its own, and counts as one of variants where it is
put into a variant by itself : as a field in a dictionary, as an element next to others, or as all
of a message. As the field of a struct it does not, and then the struct has no type, and nothing
that it is part of has one.

So plain data are sent exactly if no field of a struct in them is an empty sequence or map
(`Data.toMessage_iff_filled`), whichever other ones are empty. The values of data are had more
often, since a struct needs a type only if it is within an array or a dictionary
(`Data.NeedsType`).
-/

namespace DBus

namespace Data

/-! ## The parts of data -/

/-- The data right inside of data. -/
def children : Data → List Data
  | some d | newtypeStruct _ d | newtypeVariant _ _ d => [d]
  | seq ds | tuple ds | tupleStruct _ ds | tupleVariant _ _ ds => ds
  | map parts => parts.map Prod.snd
  | struct _ fields | structVariant _ _ fields => fields.map Prod.snd
  | _ => []

/-- The data that become the fields of a struct. -/
def structFields (p : StructPolicy) : Data → List Data
  | tuple ds | tupleStruct _ ds | tupleVariant _ _ ds => ds
  | struct name fields | structVariant _ name fields =>
    match p name with
    | .positional => fields.map Prod.snd
    | .dictionary => []
  | _ => []

/-- A sequence or a map without elements. -/
def isEmpty : Data → Bool
  | seq ds => ds.isEmpty
  | map parts => parts.isEmpty
  | _ => false

theorem isEmpty_iff {d : Data} : d.isEmpty = true ↔ d = seq [] ∨ d = map [] := by
  cases d <;> simp [isEmpty]

/-- The one data are the other, or are somewhere inside of them. -/
inductive Within : Data → Data → Prop
  | self {d : Data} : Within d d
  | child {c d e : Data} : c ∈ d.children → Within e c → Within e d

/-- A value of the one data has to have a type when the value of the other is made : they are the
outermost data in them that are not in fields of a struct alone. -/
inductive NeedsType (p : StructPolicy) : Data → Data → Prop
  | child {c d : Data} : d.structFields p = [] → c ∈ d.children → NeedsType p c d
  | field {f d e : Data} : f ∈ d.structFields p → NeedsType p e f → NeedsType p e d

variable {p : StructPolicy} {d : Data} {ds : List Data} {n : Nat}

/-- No field of a struct in the data is an empty sequence or map. -/
def Filled (p : StructPolicy) (d : Data) : Prop :=
  ∀ e : Data, e.Within d → ∀ f ∈ e.structFields p, f.isEmpty = false

/-- Every part that has to be of a type is filled. -/
def TypesFilled (p : StructPolicy) (d : Data) : Prop := ∀ e : Data, NeedsType p e d → e.Filled p

/-- What holds everywhere in data holds of them and everywhere in the parts right inside. -/
theorem forall_within_iff {P : Data → Prop} :
    (∀ e : Data, e.Within d → P e) ↔ P d ∧ ∀ c ∈ d.children, ∀ e : Data, e.Within c → P e := by
  constructor
  · exact fun h => ⟨h d .self, fun c hc e he => h e (.child hc he)⟩
  · rintro ⟨hself, hchildren⟩ e he
    cases he with
    | self => exact hself
    | child hc he => exact hchildren _ hc e he

theorem filled_iff : d.Filled p ↔
    (∀ f ∈ d.structFields p, f.isEmpty = false) ∧ ∀ c ∈ d.children, c.Filled p :=
  forall_within_iff

theorem structFields_subset {f : Data} (hf : f ∈ d.structFields p) : f ∈ d.children := by
  cases d with
  | tuple | tupleStruct | tupleVariant => exact hf
  | struct name fields | structVariant _ name fields =>
    simp only [structFields] at hf
    split at hf
    · exact hf
    · cases hf
  | _ => cases hf

theorem filled_of_children_eq_nil (hd : d.children = []) : d.Filled p := by
  refine filled_iff.mpr ⟨fun f hf => ?_, by simp [hd]⟩
  have hmem := structFields_subset hf
  rw [hd] at hmem
  cases hmem

theorem Filled.typesFilled (h : d.Filled p) : d.TypesFilled p := by
  intro e he
  induction he with
  | child _ hc => exact (filled_iff.mp h).2 _ hc
  | field hf _ ih => exact ih ((filled_iff.mp h).2 _ (structFields_subset hf))

/-- Without the fields of a struct all parts right inside have to be of a type. -/
theorem filled_iff_of_structFields_eq_nil (hd : d.structFields p = []) :
    (d.Filled p ↔ ∀ c ∈ d.children, c.Filled p) ∧
      (d.TypesFilled p ↔ ∀ c ∈ d.children, c.Filled p) := by
  constructor
  · rw [filled_iff, hd]
    simp
  · refine ⟨fun h c hc => h c (.child hd hc), fun h e he => ?_⟩
    cases he with
    | child _ hc => exact h _ hc
    | field hf _ =>
      rw [hd] at hf
      cases hf

theorem filled_iff_of_structFields_eq_children (hd : d.structFields p = d.children) :
    d.Filled p ↔ ∀ c ∈ d.children, c.isEmpty = false ∧ c.Filled p := by
  rw [filled_iff, hd]
  exact ⟨fun h c hc => ⟨h.1 c hc, h.2 c hc⟩,
    fun h => ⟨fun c hc => (h c hc).1, fun c hc => (h c hc).2⟩⟩

/-- What is inside of a struct has to be of a type if it has to in one of the fields. -/
theorem typesFilled_iff_of_structFields_ne_nil (hd : d.structFields p ≠ []) :
    d.TypesFilled p ↔ ∀ f ∈ d.structFields p, f.TypesFilled p := by
  refine ⟨fun h f hf e he => h e (.field hf he), fun h e he => ?_⟩
  cases he with
  | child hnil _ => exact absurd hnil hd
  | field hf he => exact h _ hf e he

/-! ## Plain data -/

/-- The parts of a map with names for keys. -/
def namedParts (pairs : List (String × Data)) : List (MapRole × Data) :=
  pairs.flatMap fun e => [(.key, .text e.1), (.value, e.2)]

/-- Made of numbers of at most 64 bits, texts without a zero byte, sequences, tuples and records of
at least one field, and maps with such texts for keys, in no more than `levels` levels. -/
inductive Plain : (levels : Nat) → Data → Prop
  | scalar {n : Nat} (s : Scalar) : Plain n (.scalar s)
  | int8 {n : Nat} (k : Int8) : Plain n (.int8 k)
  | single {n : Nat} (s : Single) : Plain n (.single s)
  | char {n : Nat} (c : Char) : Plain n (.char c)
  | text {n : Nat} {s : String} (hs : 0 ∉ utf8 s) : Plain n (.text s)
  | seq {n : Nat} {ds : List Data} (h : ∀ d ∈ ds, Plain n d) : Plain (n + 1) (.seq ds)
  | tuple {n : Nat} {ds : List Data} (hne : ds ≠ []) (h : ∀ d ∈ ds, Plain n d) :
      Plain (n + 1) (.tuple ds)
  | tupleStruct {n : Nat} (name : String) {ds : List Data} (hne : ds ≠ [])
      (h : ∀ d ∈ ds, Plain n d) : Plain (n + 1) (.tupleStruct name ds)
  | map {n : Nat} {pairs : List (String × Data)} (hnames : ∀ e ∈ pairs, 0 ∉ utf8 e.1)
      (h : ∀ e ∈ pairs, Plain n e.2) : Plain (n + 1) (.map (namedParts pairs))
  | struct {n : Nat} (name : String) {fields : List (String × Data)} (hne : fields ≠ [])
      (hnames : ∀ f ∈ fields, 0 ∉ utf8 f.1) (h : ∀ f ∈ fields, Plain n f.2) :
      Plain (n + 1) (.struct name fields)

/-- The signature that is inferred for a value of any part of the data is not too long. -/
def ShortSignatures (p : StructPolicy) (d : Data) : Prop :=
  ∀ e : Data, e.Within d → ∀ (v : Value) (s : Bytes), e.toValue p = .ok v → v.infer = .ok s →
    s.length ≤ maxSignatureLength

theorem shortSignatures_iff : d.ShortSignatures p ↔
    (∀ (v : Value) (s : Bytes), d.toValue p = .ok v → v.infer = .ok s →
      s.length ≤ maxSignatureLength) ∧ ∀ c ∈ d.children, c.ShortSignatures p :=
  forall_within_iff

theorem ShortSignatures.child {c : Data} (h : d.ShortSignatures p) (hc : c ∈ d.children) :
    c.ShortSignatures p :=
  (shortSignatures_iff.mp h).2 c hc

/-- No signature is inferred for the empty array. -/
theorem shortSignatures_of_isEmpty (hd : d.isEmpty = true) : d.ShortSignatures p := by
  rw [shortSignatures_iff]
  rcases isEmpty_iff.mp hd with rfl | rfl <;>
  · refine ⟨fun v s hv hs => ?_, nofun⟩
    cases hv
    cases hs

/-! ## What is made of plain data -/

/-- What a value is that is made of plain data of some levels. -/
inductive Made (p : StructPolicy) (n : Nat) (d : Data) : Value → Prop
  /-- The empty array. -/
  | empty (hd : d.isEmpty = true) (hn : 0 < n) (hfilled : d.Filled p) : Made p n d (.array [])
  /-- A value of a type. -/
  | typed {v : Value} {t : Ty} (hd : d.isEmpty = false) (hfilled : d.Filled p)
      (ht : v.Inferable t n) (hlen : t.render.length ≤ maxSignatureLength) : Made p n d v
  /-- A value without a type, since a struct in it has none. -/
  | untyped {v : Value} (hfilled : ¬d.Filled p) (hne : v ≠ .array []) (hsome : v.isNothing = false)
      (hinfer : v.infer = .error (.typeMismatch .emptyArray)) : Made p n d v

namespace Made

variable {v : Value} (h : Made p n d v)

include h

theorem isNothing_eq_false : v.isNothing = false := by
  cases h with
  | empty => rfl
  | typed _ _ ht => exact ht.isNothing_eq_false
  | untyped _ _ hsome => exact hsome

/-- A type is inferred for filled data that are not empty. -/
theorem infer : Decided (d.isEmpty = false ∧ d.Filled p) (.typeMismatch .emptyArray)
    (fun _ => ∃ t : Ty, v.Inferable t n) v.infer := by
  cases h with
  | empty hd => exact .error (by simp [hd]) rfl
  | typed hd hfilled ht => exact .ok ⟨hd, hfilled⟩ ht.infer ⟨_, ht⟩
  | untyped hfilled _ _ hinfer => exact .error (fun h => hfilled h.2) hinfer

/-- Filled data have a type in a message and in a variant. -/
theorem dataArgument (hn : n ≤ maxTypeDepth) : Decided (d.Filled p) (.typeMismatch .emptyArray)
    (fun a => a.ty.Valid ∧ a.name = Option.none ∧ v.WellFormed a.ty (3 * n)) v.dataArgument := by
  cases h with
  | empty _ hpos hfilled =>
    exact .ok hfilled rfl
      ⟨⟨[97, 118], by rfl⟩, rfl, (Value.emptyArray_wellFormed 0).mono (by omega)⟩
  | typed _ hfilled ht hlen =>
    exact .ok hfilled (ht.dataArgument hn hlen) ⟨ht.valid hn hlen, rfl, ht.wellFormed⟩
  | untyped hfilled hne _ hinfer =>
    exact .error hfilled (Value.dataArgument_eq_error hne hinfer)

theorem wrap (hn : n ≤ maxTypeDepth) :
    Decided (d.Filled p) (.typeMismatch .emptyArray) (fun w => w.Boxed n) v.wrap :=
  (h.dataArgument hn).map fun a _ ⟨hvalid, hname, hv⟩ => by
    obtain ⟨t, name⟩ := a
    obtain rfl : name = Option.none := hname
    exact ⟨rfl, .variant hvalid hv⟩

theorem wrapElement (hn : n ≤ maxTypeDepth) :
    Decided (d.Filled p) (.typeMismatch .emptyArray) (fun w => w.Boxed n) v.wrapElement := by
  rw [Value.wrapElement, h.isNothing_eq_false]
  exact h.wrap hn

end Made

/-- The data become a value if all parts that have to be of a type are filled. -/
def Outcome (p : StructPolicy) (n : Nat) (d : Data) : Prop :=
  Decided (d.TypesFilled p) (.typeMismatch .emptyArray) (Made p n d) (d.toValue p)

/-! ## Structs -/

theorem Outcome.toValues (h : ∀ c ∈ ds, Outcome p n c) :
    Decided (∀ c ∈ ds, c.TypesFilled p) (.typeMismatch .emptyArray)
      (fun vs => (∀ c ∈ ds, ∃ v ∈ vs, Made p n c v) ∧ ∀ v ∈ vs, ∃ c ∈ ds, Made p n c v)
      (Data.toValues p ds) := by
  rw [toValues_eq_mapM]
  exact .mapM h

/-- Each field of a struct has to be of a type, which the empty array by itself is not. -/
theorem Outcome.of_fields (h : ∀ c ∈ ds, Outcome p n c) (hsig : d.ShortSignatures p) (hne : ds ≠ [])
    (hd : d.isEmpty = false) (hfields : d.structFields p = ds) (hchildren : d.children = ds)
    (hvalue : d.toValue p = do return .struct (← Data.toValues p ds)) : Outcome p (n + 1) d := by
  have htypes : d.TypesFilled p ↔ ∀ c ∈ ds, c.TypesFilled p := by
    rw [typesFilled_iff_of_structFields_ne_nil (by rwa [hfields]), hfields]
  have hfilled : d.Filled p ↔ ∀ c ∈ ds, c.isEmpty = false ∧ c.Filled p := by
    rw [filled_iff_of_structFields_eq_children (hfields.trans hchildren.symm), hchildren]
  rw [Outcome, hvalue]
  refine ((Outcome.toValues h).congr htypes.symm).map fun vs hvs ⟨hcover, hfrom⟩ => ?_
  have hvne : vs ≠ [] := ne_nil_of_forall_exists hne hcover
  by_cases hall : ∀ c ∈ ds, c.isEmpty = false ∧ c.Filled p
  · obtain ⟨ts, hts⟩ := Value.Inferable.exists_struct (n := n) hvne fun v hv => by
      obtain ⟨c, hc, hmade⟩ := hfrom v hv
      obtain ⟨-, -, ht⟩ := hmade.infer.exists_of (hall c hc)
      exact ht
    have hv : d.toValue p = .ok (.struct vs) := by
      rw [hvalue, hvs]
      rfl
    exact .typed hd (hfilled.mpr hall) hts (hsig d .self _ _ hv hts.infer)
  · have hinfer : Value.inferFields vs = .error (.typeMismatch .emptyArray) := by
      refine Value.inferFields_eq_error (fun v hv => ?_) ?_
      · obtain ⟨c, -, hmade⟩ := hfrom v hv
        by_cases hc : c.isEmpty = false ∧ c.Filled p
        · exact .inl (hmade.infer.exists_ok_iff.mpr hc)
        · exact .inr (hmade.infer.eq_error hc)
      · obtain ⟨c, hc, hnot⟩ : ∃ c ∈ ds, ¬(c.isEmpty = false ∧ c.Filled p) := by simpa using hall
        obtain ⟨v, hv, hmade⟩ := hcover c hc
        exact ⟨v, hv, hmade.infer.eq_error hnot⟩
    refine .untyped (fun hf => hall (hfilled.mp hf)) nofun ?_ ?_
    · simpa [Value.isNothing] using hvne
    · rw [Value.infer, hinfer]
      rfl

/-! ## Arrays and dictionaries -/

/-- Data that are not written as a struct have a type of their own, or else no value. -/
theorem Outcome.of_parts (hsig : d.ShortSignatures p) (hd : d.isEmpty = false)
    (hfields : d.structFields p = [])
    (h : Decided (∀ c ∈ d.children, c.Filled p) (.typeMismatch .emptyArray)
      (fun v => ∃ t : Ty, v.Inferable t n) (d.toValue p)) : Outcome p n d := by
  obtain ⟨hfilled, htypes⟩ := filled_iff_of_structFields_eq_nil hfields
  cases h with
  | ok hall hv hex =>
    obtain ⟨t, ht⟩ := hex
    have hlen := hsig d .self _ _ hv ht.infer
    exact .ok (htypes.mpr hall) hv (.typed hd (hfilled.mpr hall) ht hlen)
  | error hnot he => exact .error (fun hf => hnot (htypes.mp hf)) he

/-- Elements without a type in common are put into variants. -/
theorem Outcome.ofElements (h : ∀ c ∈ ds, Outcome p n c) (hn : n ≤ maxTypeDepth) (hne : ds ≠ [])
    {vs : List Value} (hvs : Data.toValues p ds = .ok vs) :
    Decided (∀ c ∈ ds, c.Filled p) (.typeMismatch .emptyArray)
      (fun v => ∃ t : Ty, v.Inferable t (n + 1)) (Value.ofElements vs) := by
  obtain ⟨-, hcover, hfrom⟩ := (Outcome.toValues h).of_eq_ok hvs
  have hvne : vs ≠ [] := ne_nil_of_forall_exists hne hcover
  by_cases hcommon : Value.haveElementType vs = true
  · obtain ⟨s, hs⟩ := (Value.haveElementType_iff.mp hcommon).resolve_left hvne
    have hv : Value.ofElements vs = .ok (.array vs) := by
      rw [Value.ofElements, if_pos hcommon]
      rfl
    refine .ok (fun c hc => ?_) hv ?_
    · obtain ⟨v, hv, hmade⟩ := hcover c hc
      exact (hmade.infer.of_eq_ok (hs v hv)).1.2
    · obtain ⟨t, ht⟩ := Value.Inferable.exists_array (n := n) hvne hs fun v hv => by
        obtain ⟨c, -, hmade⟩ := hfrom v hv
        exact (hmade.infer.of_eq_ok (hs v hv)).2
      exact ⟨_, ht⟩
  · -- not only for lack of a common type : an element may have none, the empty array among them
    have hwrap : Value.ofElements vs = do return .array (← vs.mapM Value.wrapElement) := by
      simp [Value.ofElements, hcommon]
    rw [toValues_eq_mapM] at hvs
    rw [hwrap, mapM_mapM hvs]
    refine (Decided.mapM fun c hc => (h c hc).bind Filled.typesFilled fun v _ hmade =>
      hmade.wrapElement hn).map fun ws _ ⟨hcover, hfrom⟩ => ?_
    refine ⟨_, .variants (ne_nil_of_forall_exists hne hcover) fun w hw => ?_⟩
    obtain ⟨-, -, hboxed⟩ := hfrom w hw
    exact hboxed

theorem Outcome.of_seq (h : ∀ c ∈ ds, Outcome p n c) (hn : n ≤ maxTypeDepth)
    (hsig : (seq ds).ShortSignatures p) : Outcome p (n + 1) (seq ds) := by
  by_cases hne : ds = []
  · subst hne
    have hfilled : (seq []).Filled p := filled_of_children_eq_nil rfl
    exact .ok hfilled.typesFilled rfl (.empty rfl (Nat.succ_pos n) hfilled)
  · refine .of_parts hsig (by simpa [isEmpty] using hne) rfl ?_
    rw [toValue]
    exact (Outcome.toValues h).bind (fun hall c hc => (hall c hc).typesFilled) fun vs hvs _ =>
      Outcome.ofElements h hn hne hvs

/-- A map with names for keys becomes the same entries as a record of those fields. -/
theorem toEntries_namedParts : ∀ pairs : List (String × Data),
    toEntries p Option.none (namedParts pairs) = toFields p .dictionary pairs
  | [] => rfl
  | (name, d) :: pairs => by
    simp only [toFields, ← toEntries_namedParts pairs]
    rfl

/-- A field with its contents in a variant. -/
def toEntry (p : StructPolicy) (f : String × Data) : Except Error Value := do
  return .dictEntry (.ofString f.1) (← (← f.2.toValue p).wrap)

section

variable {fields : List (String × Data)}

/-- No field is left out of a dictionary if none is nothing. -/
theorem toFields_dictionary_eq_mapM
    (h : ∀ f ∈ fields, ∀ v, f.2.toValue p = .ok v → v.isNothing = false) :
    toFields p .dictionary fields = fields.mapM (toEntry p) := by
  induction fields with
  | nil => rfl
  | cons f fields ih =>
    obtain ⟨hf, hfields⟩ := List.forall_mem_cons.mp h
    rw [List.mapM_cons, toFields, ih hfields, toEntry]
    cases hv : f.2.toValue p with
    | error e => rfl
    | ok v =>
      simp only [ok_bind, StructStyle.field, Value.entries, hf v hv]
      cases v.wrap <;> rfl

theorem Outcome.of_entries (hnames : ∀ f ∈ fields, 0 ∉ utf8 f.1)
    (h : ∀ f ∈ fields, Outcome p n f.2) (hn : n ≤ maxTypeDepth) (hsig : d.ShortSignatures p)
    (hne : fields ≠ []) (hd : d.isEmpty = false) (hfields : d.structFields p = [])
    (hparts : (∀ c ∈ d.children, c.Filled p) ↔ ∀ f ∈ fields, f.2.Filled p)
    (hvalue : d.toValue p = do return .array (← toFields p .dictionary fields)) :
    Outcome p (n + 1) d := by
  refine .of_parts hsig hd hfields ?_
  have hentry : ∀ f ∈ fields, Decided (f.2.Filled p) (.typeMismatch .emptyArray)
      (fun v => ∃ w : Value, v = .dictEntry (.ofString f.1) w ∧ w.Boxed n) (toEntry p f) :=
    fun f hf => (h f hf).bind Filled.typesFilled fun v _ hmade =>
      (hmade.wrap hn).map fun w _ hw => ⟨w, rfl, hw⟩
  rw [hvalue, toFields_dictionary_eq_mapM fun f hf v hv =>
    ((h f hf).of_eq_ok hv).2.isNothing_eq_false]
  refine ((Decided.mapM hentry).congr hparts.symm).map fun vs _ ⟨hcover, hfrom⟩ => ?_
  refine ⟨_, .entries (ne_nil_of_forall_exists hne hcover) fun v hv => ?_⟩
  obtain ⟨f, hf, w, rfl, hboxed⟩ := hfrom v hv
  exact ⟨f.1, w, rfl, hnames f hf, hboxed⟩

end

/-! ## All plain data -/

/-- Data without anything inside of them are of a type if the value they become is. -/
theorem Outcome.of_leaf {v : Value} {t : Ty} (hsig : d.ShortSignatures p) (hd : d.isEmpty = false)
    (hchildren : d.children = []) (hv : d.toValue p = .ok v) (ht : v.Inferable t n) :
    Outcome p n d := by
  have hfilled : d.Filled p := filled_of_children_eq_nil hchildren
  exact .ok hfilled.typesFilled hv (.typed hd hfilled ht (hsig d .self v _ hv ht.infer))

theorem forall_filled_namedParts (pairs : List (String × Data)) :
    (∀ c ∈ (map (namedParts pairs)).children, c.Filled p) ↔ ∀ e ∈ pairs, e.2.Filled p := by
  induction pairs with
  | nil => simp [children, namedParts]
  | cons e pairs ih =>
    rw [List.forall_mem_cons, ← ih]
    simp [children, namedParts, filled_of_children_eq_nil (d := text e.1) rfl]

theorem Plain.outcome (h : d.Plain n) (hn : n ≤ maxTypeDepth) (hsig : d.ShortSignatures p) :
    Outcome p n d := by
  -- one level of data is at most one level of a type, so the types stay within the limit
  induction h with
  | scalar s => exact .of_leaf hsig rfl rfl rfl (.scalar s _)
  | int8 k => exact .of_leaf hsig rfl rfl rfl (.scalar _ _)
  | single s => exact .of_leaf hsig rfl rfl rfl (.scalar _ _)
  | char c => exact .of_leaf hsig rfl rfl rfl (.scalar _ _)
  | text hs => exact .of_leaf hsig rfl rfl rfl (.ofString hs _)
  | seq _ ih => exact .of_seq (fun c hc => ih c hc (by omega) (hsig.child hc)) (by omega) hsig
  | tuple hne _ ih =>
    exact .of_fields (fun c hc => ih c hc (by omega) (hsig.child hc)) hsig hne rfl rfl rfl rfl
  | tupleStruct name hne _ ih =>
    exact .of_fields (fun c hc => ih c hc (by omega) (hsig.child hc)) hsig hne rfl rfl rfl rfl
  | @map n pairs hnames _ ih =>
    by_cases hne : pairs = []
    · subst hne
      have hfilled : (Data.map []).Filled p := filled_of_children_eq_nil rfl
      exact .ok hfilled.typesFilled rfl (.empty rfl (Nat.succ_pos n) hfilled)
    · refine .of_entries hnames (fun e he => ih e he (by omega) (hsig.child ?_)) (by omega) hsig hne
        ?_ rfl (forall_filled_namedParts pairs) (by rw [toValue, toEntries_namedParts])
      · exact List.mem_map.mpr ⟨(.value, e.2), List.mem_flatMap.mpr ⟨e, he, by simp⟩, rfl⟩
      · cases pairs with
        | nil => exact absurd rfl hne
        | cons e pairs => rfl
  | @struct n name fields hne hnames _ ih =>
    have hfields : ∀ f ∈ fields, Outcome p n f.2 := fun f hf =>
      ih f hf (by omega) (hsig.child (List.mem_map_of_mem hf))
    cases hstyle : p name with
    | positional =>
      refine .of_fields (List.forall_mem_map.mpr hfields) hsig (by simpa using hne) rfl ?_ rfl ?_
      · simp [structFields, hstyle]
      · simp only [toValue, hstyle, toFields_positional]
        rfl
    | dictionary =>
      refine .of_entries hnames hfields (by omega) hsig hne rfl ?_ ?_ ?_
      · simp [structFields, hstyle]
      · exact List.forall_mem_map
      · simp only [toValue, hstyle]
        rfl

/-! ## Messages made from plain data -/

/-- The body of the message that is made from the data is not longer than an array can be. -/
def FitsBody (p : StructPolicy) (d : Data) : Prop :=
  ∀ (v : Value) (a : Argument), d.toValue p = .ok v → v.dataArgument = .ok a →
    v.endAs a.ty 0 ≤ maxArrayLength

theorem Outcome.toMessage (h : Outcome p n d) (hn : n ≤ maxTypeDepth)
    (hlevels : 3 * n ≤ maxNesting) (hfits : d.FitsBody p) :
    Decided (d.Filled p) (.typeMismatch .emptyArray) (fun _ => True) (d.toMessage p) := by
  refine h.bind Filled.typesFilled fun v hv hmade => ?_
  cases hmade.dataArgument hn with
  | ok hfilled ha hq =>
    obtain ⟨hvalid, -, hwf⟩ := hq
    obtain ⟨m, hm⟩ := hwf.exists_toMessage hlevels ha hvalid (hfits _ _ hv ha)
    exact .ok hfilled hm trivial
  | error hnot he => exact .error hnot (by rw [Value.toMessage, he]; rfl)

/-- An empty sequence or map by itself is sent as an array of variants. -/
theorem toMessage_of_isEmpty (hd : d.isEmpty = true) :
    d.toMessage p = .ok ⟨[0, 0, 0, 0], utf8 "av"⟩ := by
  rcases isEmpty_iff.mp hd with rfl | rfl <;> rfl

/-- Plain data become a value if what has to be of a type is filled, and are sent if all of it is.
There is only one error. -/
theorem toMessage_iff_filled (h : d.Plain n) (hn : 3 * n ≤ maxNesting)
    (hsig : d.ShortSignatures p) (hfits : d.FitsBody p) :
    ((∃ v, d.toValue p = .ok v) ↔ d.TypesFilled p) ∧
      ((∃ m, d.toMessage p = .ok m) ↔ d.Filled p) ∧
      (¬d.TypesFilled p → d.toValue p = .error (.typeMismatch .emptyArray)) ∧
      (¬d.Filled p → d.toMessage p = .error (.typeMismatch .emptyArray)) ∧
      (d.isEmpty = true → d.toMessage p = .ok ⟨[0, 0, 0, 0], utf8 "av"⟩) := by
  have hdepth : n ≤ maxTypeDepth := by
    simp only [maxNesting, maxTypeDepth] at hn ⊢
    omega
  have hvalue := h.outcome hdepth hsig
  have hmessage := hvalue.toMessage hdepth hn hfits
  exact ⟨hvalue.exists_ok_iff, hmessage.exists_ok_iff, hvalue.eq_error, hmessage.eq_error,
    toMessage_of_isEmpty⟩

/-- A record of lamps and labels, with none of either. -/
theorem toMessage_iff_filled_record :
    ∃ m, (struct "Room" [("lamps", seq []), ("labels", map [])]).toMessage .dictionaries =
      .ok m := by
  have hplain : (struct "Room" [("lamps", seq []), ("labels", map [])]).Plain 2 := by
    refine .struct "Room" nofun (by decide) ?_
    have hlamps : (seq []).Plain 1 := .seq nofun
    have hlabels : (map (namedParts [])).Plain 1 := .map nofun nofun
    simpa using ⟨hlamps, hlabels⟩
  have hsig : (struct "Room" [("lamps", seq []), ("labels", map [])]).ShortSignatures
      .dictionaries := by
    refine shortSignatures_iff.mpr ⟨fun v s hv hs => ?_, ?_⟩
    · cases hv
      cases hs
      decide
    · simpa [children] using
        ⟨shortSignatures_of_isEmpty (d := seq []) rfl, shortSignatures_of_isEmpty (d := map []) rfl⟩
  have hfits : (struct "Room" [("lamps", seq []), ("labels", map [])]).FitsBody .dictionaries := by
    intro v a hv ha
    cases hv
    cases ha
    decide
  have hfilled : (struct "Room" [("lamps", seq []), ("labels", map [])]).Filled .dictionaries := by
    refine filled_iff.mpr ⟨nofun, ?_⟩
    simpa [children] using ⟨filled_of_children_eq_nil (d := seq []) rfl,
      filled_of_children_eq_nil (d := map []) rfl⟩
  exact (toMessage_iff_filled hplain (by decide) hsig hfits).2.1.mpr hfilled

/-- The pair of an empty sequence and a byte. -/
theorem exists_plain_toMessage_ne :
    ∃ d : Data, d.Plain 2 ∧ d.ShortSignatures .dictionaries ∧ d.FitsBody .dictionaries ∧
      ∀ m, d.toMessage .dictionaries ≠ .ok m := by
  refine ⟨tuple [seq [], scalar (.int .byte 1 (by decide))], ?_, ?_, ?_, ?_⟩
  · refine .tuple nofun ?_
    simpa using ⟨Plain.seq (n := 0) nofun, Plain.scalar _⟩
  · refine shortSignatures_iff.mpr ⟨fun v s hv hs => ?_, ?_⟩
    · cases hv
      cases hs
    · refine List.forall_mem_cons.mpr ⟨shortSignatures_of_isEmpty rfl, ?_⟩
      refine List.forall_mem_singleton.mpr (shortSignatures_iff.mpr ⟨fun v s hv hs => ?_, nofun⟩)
      cases hv
      cases hs
      decide
  · intro v a hv ha
    cases hv
    cases ha
  · exact nofun

end Data

end DBus

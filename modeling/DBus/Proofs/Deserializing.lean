import DBus.Proofs.Layers

/-!
# Data got out of values

A shape looks through variants (`Shape.decode_variant`), but for the variant that stands for nothing
among the elements of an array. So it does not matter which of the values made from data were put
into variants.

The lemmas of this file follow the parts of data, one by one, into a value and out of it again :
the elements of a sequence, the fields of a tuple, the entries of a map, and the fields of a
record, some of which a dictionary leaves out. Each takes it for granted that the parts survive on
their own (`Part.Survives`).
-/

namespace DBus

/-! ## Values made from data -/

namespace Data

/-- Data make no variant and no dict entry. -/
theorem code_of_toValue {p : StructPolicy} : ∀ (d : Data) {v : Value}, d.toValue p = .ok v →
    v.code ≠ .variant ∧ v.code ≠ .dictEntry
  | .some d, v, h | .newtypeStruct _ d, v, h => code_of_toValue d h
  | .scalar _, v, h | .int8 _, v, h | .single _, v, h | .char _, v, h | .text _, v, h
  | .bytes _, v, h | .none, v, h | .unit, v, h | .unitStruct _, v, h | .unitVariant _ _, v, h => by
    cases h
    simp [Value.code, Value.ofString]
  | .seq ds, v, h => by
    simp only [toValue, bind_eq_ok, Value.ofElements_eq_ok_iff] at h
    obtain ⟨vs, -, ⟨-, rfl⟩ | ⟨-, ws, -, rfl⟩⟩ := h <;> simp [Value.code]
  | .tuple ds, v, h | .tupleStruct _ ds, v, h | .map parts, v, h => by
    simp only [toValue, bind_eq_ok, pure_eq_ok] at h
    obtain ⟨vs, -, rfl⟩ := h
    simp [Value.code]
  | .struct name fields, v, h => by
    simp only [toValue, bind_eq_ok, pure_eq_ok] at h
    obtain ⟨vs, -, rfl⟩ := h
    cases p name <;> simp [Value.code, StructStyle.record]
  | .newtypeVariant _ s d, v, h | .tupleVariant _ s ds, v, h | .structVariant _ s fields, v, h => by
    simp only [toValue, bind_eq_ok, Value.ofVariant_eq_ok_iff] at h
    obtain ⟨_, -, _, -, rfl⟩ := h
    simp [Value.code]

theorem toValues_eq_mapM {p : StructPolicy} : ∀ ds : List Data, toValues p ds = ds.mapM (toValue p)
  | [] => rfl
  | d :: ds => by rw [toValues, List.mapM_cons, toValues_eq_mapM ds]

theorem code_of_toValues {p : StructPolicy} {ds : List Data} {vs : List Value}
    (h : toValues p ds = .ok vs) : ∀ v ∈ vs, v.code ≠ .dictEntry := by
  intro v hv
  rw [toValues_eq_mapM] at h
  obtain ⟨d, -, hd⟩ := exists_mem_of_mapM h hv
  exact (code_of_toValue d hd).2

end Data

/-! ## Parts -/

/-- A part of data, with the shape that is expected of it and with what is to be got out of it. -/
structure Part where
  shape : Shape
  data : Data
  decoded : Decoded

/-- The value of the part holds what is to be got out of it. -/
def Part.Decodes (p : StructPolicy) (q : Part) : Prop :=
  ∀ ⦃v : Value⦄, q.data.toValue p = .ok v → q.shape.decode v = .ok q.decoded

/-- The value of the part holds what is to be got out of it, and is nothing for no other part than
an option that is missing. -/
structure Part.Survives (p : StructPolicy) (q : Part) : Prop where
  decode {v : Value} (h : q.data.toValue p = .ok v) : q.shape.decode v = .ok q.decoded
  missing {v : Value} (h : q.data.toValue p = .ok v) (hv : v.isNothing = true) :
    q.shape.isOption = true ∧ q.decoded = .none

/-- A part is read through the variant that it is put into. -/
theorem Part.Decodes.wrap {p : StructPolicy} {q : Part} {v w : Value} (hq : q.Decodes p)
    (hv : q.data.toValue p = .ok v) (hw : v.wrap = .ok w) : q.shape.decode w = .ok q.decoded := by
  obtain ⟨a, ha, rfl⟩ := Value.wrap_eq_ok_iff.mp hw
  rw [Shape.decode_variant _ (Value.showsThrough_of_dataArgument ha), hq hv]

namespace Part.Survives

variable {p : StructPolicy} {q : Part} {v w : Value}

theorem decodes (hq : q.Survives p) : q.Decodes p := fun _ hv => hq.decode hv

theorem decode_wrap (hq : q.Survives p) (hv : q.data.toValue p = .ok v) (hw : v.wrap = .ok w) :
    q.shape.decode w = .ok q.decoded :=
  hq.decodes.wrap hv hw

/-- Nothing is made of a missing option only, and the variant that stands for it is read as one. -/
theorem decode_wrapElement (hq : q.Survives p) (hv : q.data.toValue p = .ok v)
    (hw : v.wrapElement = .ok w) : q.shape.decode w = .ok q.decoded := by
  rcases Value.wrapElement_eq_ok_iff.mp hw with ⟨hnothing, rfl⟩ | ⟨-, hw⟩
  · obtain ⟨hoption, hdecoded⟩ := hq.missing hv hnothing
    rw [hdecoded]
    cases hshape : q.shape with
    | option t => rfl
    | _ => simp [hshape, Shape.isOption] at hoption
  · exact hq.decode_wrap hv hw

/-- A part survives if whatever is made of it is something and is got out again. -/
theorem of_something
    (h : ∀ v, q.data.toValue p = .ok v → v.isNothing = false ∧ q.shape.decode v = .ok q.decoded) :
    q.Survives p where
  decode hv := (h _ hv).2
  missing hv hnothing := by
    rw [(h _ hv).1] at hnothing
    cases hnothing

/-- It is enough to look at the value where it is known. -/
theorem of_toValue (hv : q.data.toValue p = .ok v) (hsomething : v.isNothing = false)
    (hdecode : q.shape.decode v = .ok q.decoded) : q.Survives p := by
  refine .of_something fun w hw => ?_
  obtain rfl : v = w := Except.ok.inj (hv.symm.trans hw)
  exact ⟨hsomething, hdecode⟩

theorem isNothing_eq_false (hq : q.Survives p) (hv : q.data.toValue p = .ok v)
    (hoption : q.shape.isOption = false) : v.isNothing = false := by
  cases hnothing : v.isNothing with
  | false => rfl
  | true =>
    rw [(hq.missing hv hnothing).1] at hoption
    cases hoption

end Part.Survives

/-! ## Elements -/

section Elements

variable {p : StructPolicy} {parts : List Part} {t : Shape} {v : Value} {vs ws : List Value}

/-- All is got out of the elements, each of which is remade by `f`, just if each is got out of its
own. -/
theorem mapM_decode_eq_ok_iff {f : Value → Except Error Value} {P : Part → Prop}
    (hf : ∀ q ∈ parts, ∀ v w, q.data.toValue p = .ok v → f v = .ok w →
      (t.decode w = .ok q.decoded ↔ P q))
    (hvs : Data.toValues p (parts.map Part.data) = .ok vs) (hws : vs.mapM f = .ok ws) :
    ws.mapM t.decode = .ok (parts.map Part.decoded) ↔ ∀ q ∈ parts, P q := by
  induction parts generalizing vs ws with
  | nil =>
    cases hvs
    cases hws
    exact iff_of_true rfl nofun
  | cons q parts ih =>
    simp only [List.map_cons, Data.toValues, bind_eq_ok, pure_eq_ok] at hvs
    obtain ⟨v, hv, vs, hvs, rfl⟩ := hvs
    simp only [List.mapM_cons, bind_eq_ok, pure_eq_ok] at hws
    obtain ⟨w, hw, ws, hws, rfl⟩ := hws
    obtain ⟨hq, hparts⟩ := List.forall_mem_cons.mp hf
    rw [List.forall_mem_cons, ← hq v w hv hw, ← ih hparts hvs hws, List.mapM_cons, List.map_cons]
    simp

theorem mapM_decode {f : Value → Except Error Value}
    (hf : ∀ q ∈ parts, ∀ v w, q.data.toValue p = .ok v → f v = .ok w → t.decode w = .ok q.decoded)
    (hvs : Data.toValues p (parts.map Part.data) = .ok vs) (hws : vs.mapM f = .ok ws) :
    ws.mapM t.decode = .ok (parts.map Part.decoded) :=
  (mapM_decode_eq_ok_iff (P := fun _ => True) (fun q hq v w hv hw => iff_true_intro
    (hf q hq v w hv hw)) hvs hws).mpr fun _ _ => trivial

/-- An array without entries is seen as a sequence. -/
theorem Value.viewAny_array (hvs : ∀ v ∈ vs, v.code ≠ .dictEntry) :
    (array vs).viewAny = .seq vs := by
  cases vs with
  | nil => rfl
  | cons v vs =>
    cases v with
    | dictEntry => exact absurd rfl (hvs _ List.mem_cons_self)
    | _ => rfl

theorem Decoder.seq_array_eq_ok_iff {f : Decoder} {xs : List Decoded}
    (hvs : ∀ v ∈ vs, v.code ≠ .dictEntry) :
    Decoder.seq f (.array vs) = .ok (.seq xs) ↔ vs.mapM f = .ok xs := by
  simp only [Decoder.seq, Value.viewAny_array hvs, bind_eq_ok, pure_eq_ok, Decoded.seq.injEq,
    exists_eq_right]

/-- The elements that are put into variants are no entries. -/
theorem Value.code_of_wrapElements (hws : vs.mapM wrapElement = .ok ws) :
    ∀ w ∈ ws, w.code ≠ .dictEntry := by
  intro w hw
  obtain ⟨u, -, hu⟩ := exists_mem_of_mapM hws hw
  rcases wrapElement_eq_ok_iff.mp hu with ⟨-, rfl⟩ | ⟨-, hu⟩
  · simp [code]
  · obtain ⟨a, -, rfl⟩ := wrap_eq_ok_iff.mp hu
    simp [code]

theorem isNothing_ofElements (hv : Value.ofElements vs = .ok v) : v.isNothing = false := by
  rcases Value.ofElements_eq_ok_iff.mp hv with ⟨-, rfl⟩ | ⟨-, ws, -, rfl⟩ <;> rfl

/-- The elements of a sequence come back where they are not put into variants. -/
theorem decode_array (ht : ∀ q ∈ parts, q.shape = t) (hparts : ∀ q ∈ parts, q.Decodes p)
    (hvs : Data.toValues p (parts.map Part.data) = .ok vs) :
    (Shape.seq t).decode (.array vs) = .ok (.seq (parts.map Part.decoded)) := by
  have hsame : vs.mapM (m := Except Error) pure = .ok vs :=
    (List.mapM_pure (f := id)).trans (congrArg Except.ok (List.map_id vs))
  refine (Decoder.seq_array_eq_ok_iff (Data.code_of_toValues hvs)).mpr
    (mapM_decode (fun q hq v w hv hw => ?_) hvs hsame)
  cases hw
  rw [← ht q hq]
  exact hparts q hq hv

/-- The elements of a sequence survive, whether they are put into variants or not. -/
theorem decode_ofElements (ht : ∀ q ∈ parts, q.shape = t) (hparts : ∀ q ∈ parts, q.Survives p)
    (hvs : Data.toValues p (parts.map Part.data) = .ok vs) (hv : Value.ofElements vs = .ok v) :
    (Shape.seq t).decode v = .ok (.seq (parts.map Part.decoded)) := by
  rcases Value.ofElements_eq_ok_iff.mp hv with ⟨-, rfl⟩ | ⟨-, ws, hws, rfl⟩
  · exact decode_array ht (fun q hq => (hparts q hq).decodes) hvs
  · refine (Decoder.seq_array_eq_ok_iff (Value.code_of_wrapElements hws)).mpr
      (mapM_decode (fun q hq v w hv hw => ?_) hvs hws)
    rw [← ht q hq]
    exact (hparts q hq).decode_wrapElement hv hw

/-- The fields of a tuple survive, each by the decoder in its place. -/
theorem elements_of_toValues (hparts : ∀ q ∈ parts, q.Decodes p)
    (hvs : Data.toValues p (parts.map Part.data) = .ok vs) (label : String) (k : Nat) :
    Decoder.elements label k (Shape.decoders (parts.map Part.shape)) vs =
      .ok (parts.map Part.decoded) := by
  induction parts generalizing vs k with
  | nil => rfl
  | cons q parts ih =>
    simp only [List.map_cons, Data.toValues, bind_eq_ok, pure_eq_ok] at hvs
    obtain ⟨v, hv, vs, hvs, rfl⟩ := hvs
    obtain ⟨hq, hparts⟩ := List.forall_mem_cons.mp hparts
    simp only [List.map_cons, Shape.decoders, Decoder.elements, hq hv, ih hparts hvs (k + 1)]
    rfl

theorem isNothing_struct (hne : parts ≠ [])
    (hvs : Data.toValues p (parts.map Part.data) = .ok vs) :
    (Value.struct vs).isNothing = false := by
  cases vs with
  | nil =>
    rw [Data.toValues_eq_mapM] at hvs
    have hlen := (mapM_eq_ok_iff.mp hvs).1
    simp [hne] at hlen
  | cons v vs => rfl

theorem viewAny_struct (h : (Value.struct vs).isNothing = false) :
    (Value.struct vs).viewAny = .seq vs := by
  rw [Value.isNothing] at h
  rw [Value.viewAny, h]
  rfl

/-- A tuple survives. -/
theorem decode_struct {expected label : String} (hne : parts ≠ [])
    (hparts : ∀ q ∈ parts, q.Survives p)
    (hvs : Data.toValues p (parts.map Part.data) = .ok vs) :
    Decoder.tuple expected label (Shape.decoders (parts.map Part.shape)) (.struct vs) =
      .ok (.seq (parts.map Part.decoded)) := by
  simp only [Decoder.tuple, viewAny_struct (isNothing_struct hne hvs),
    elements_of_toValues (fun q hq => (hparts q hq).decodes) hvs]
  rfl

end Elements

/-! ## Entries -/

/-- The dictionary with the entries. -/
def Value.ofEntries (es : List (Value × Value)) : Value :=
  .array (es.map fun e => .dictEntry e.1 e.2)

theorem Value.ofEntries_cons {vs : List Value} {es : List (Value × Value)}
    (h : .array vs = ofEntries es) (e : Value × Value) :
    .array (.dictEntry e.1 e.2 :: vs) = ofEntries (e :: es) := by
  rw [ofEntries, array.injEq] at h
  rw [h]
  rfl

theorem Value.dictionary?_cons : ∀ (es : List (Value × Value)) (e : Value × Value),
    dictionary? ((e :: es).map fun e => .dictEntry e.1 e.2) = some (e :: es)
  | [], _ => rfl
  | e' :: es, e => by
    have h := dictionary?_cons es e'
    rw [List.map_cons] at h
    simp only [List.map_cons, dictionary?, h]
    rfl

/-- A dictionary that is not empty is seen to be one. -/
theorem Value.viewAny_ofEntries (e : Value × Value) (es : List (Value × Value)) :
    (ofEntries (e :: es)).viewAny = .map (e :: es) := by
  rw [ofEntries, viewAny, dictionary?_cons]

theorem Value.viewMap_ofEntries : ∀ es, (Value.ofEntries es).viewMap = .map es
  | [] => rfl
  | e :: es => viewAny_ofEntries e es

section Entries

variable {p : StructPolicy} {v : Value} {vs : List Value}

/-- The parts of a map that has the pairs as keys and values. -/
def pairParts (pairs : List (Part × Part)) : List (MapRole × Data) :=
  pairs.flatMap fun e => [(.key, e.1.data), (.value, e.2.data)]

theorem exists_ofEntries_of_toEntries {k t : Shape} (ht : t.isOption = false)
    {pairs : List (Part × Part)} (hshapes : ∀ e ∈ pairs, e.1.shape = k ∧ e.2.shape = t)
    (hpairs : ∀ e ∈ pairs, e.1.Survives p ∧ e.2.Survives p)
    (hvs : Data.toEntries p none (pairParts pairs) = .ok vs) :
    ∃ es, .array vs = Value.ofEntries es ∧
      (es.mapM fun e => do
        let x ← k.decode e.1
        let y ← t.decode e.2
        return (x, y)) = Except.ok (pairs.map fun e => (e.1.decoded, e.2.decoded)) := by
  induction pairs generalizing vs with
  | nil =>
    cases hvs
    exact ⟨[], rfl, rfl⟩
  | cons e pairs ih =>
    obtain ⟨⟨rfl, rfl⟩, hshapes⟩ := List.forall_mem_cons.mp hshapes
    obtain ⟨⟨hkey, hvalue⟩, hpairs⟩ := List.forall_mem_cons.mp hpairs
    simp only [pairParts, List.flatMap_cons, List.cons_append, List.nil_append, Data.toEntries,
      bind_eq_ok, pure_eq_ok, Value.asKey_eq_ok_iff] at hvs
    obtain ⟨u, hu, _, ⟨-, rfl⟩, v, hv, entry, hentry, rest, hrest, rfl⟩ := hvs
    obtain ⟨es, hes, hdecode⟩ := ih hshapes hpairs hrest
    have hsome := hvalue.isNothing_eq_false hv ht
    obtain ⟨w, hw, rfl⟩ : ∃ w, v.wrap = .ok w ∧ [.dictEntry u w] = entry := by
      simpa [hsome] using Value.entries_eq_ok_iff.mp hentry
    refine ⟨_, Value.ofEntries_cons hes (u, w), ?_⟩
    simp only [List.mapM_cons, hkey.decode hu, hvalue.decode_wrap hv hw, ok_bind, hdecode]
    rfl

/-- The keys and the values of a map survive, if none of the values can be missing. -/
theorem decode_toEntries {k t : Shape} (ht : t.isOption = false) {pairs : List (Part × Part)}
    (hshapes : ∀ e ∈ pairs, e.1.shape = k ∧ e.2.shape = t)
    (hpairs : ∀ e ∈ pairs, e.1.Survives p ∧ e.2.Survives p)
    (hvs : Data.toEntries p none (pairParts pairs) = .ok vs) :
    Decoder.map k.decode t.decode (.array vs) =
      .ok (.map (pairs.map fun e => (e.1.decoded, e.2.decoded))) := by
  obtain ⟨es, hes, hdecode⟩ := exists_ofEntries_of_toEntries ht hshapes hpairs hvs
  simp only [hes, Decoder.map, Value.viewMap_ofEntries, hdecode]
  rfl

end Entries

/-! ## Records -/

section Records

variable {p : StructPolicy} {v w : Value} {vs : List Value}

theorem Data.toFields_positional : ∀ fields : List (String × Data),
    toFields p .positional fields = toValues p (fields.map Prod.snd)
  | [] => rfl
  | (_, d) :: fields => by
    simp only [toFields, StructStyle.field, List.map_cons, toValues, toFields_positional fields]
    rfl

theorem Shape.map_decode_fieldDecoders : ∀ fields : List (String × Shape),
    (fieldDecoders fields).map Decoder.Field.decode = decoders (fields.map Prod.snd)
  | [] => rfl
  | (_, _) :: fields => by
    simp only [fieldDecoders, List.map_cons, decoders, map_decode_fieldDecoders fields]

theorem Shape.length_fieldDecoders : ∀ fields : List (String × Shape),
    (fieldDecoders fields).length = fields.length
  | [] => rfl
  | (_, _) :: fields => by
    simp only [fieldDecoders, List.length_cons, length_fieldDecoders fields]

namespace Decoder

variable {before after : List Field} {f : Field}

/-- A name stands for the first field that has it. -/
theorem fieldIndex_ofString (h : ∀ g ∈ before, g.name ≠ f.name) :
    fieldIndex (before ++ f :: after) (.ofString f.name) = .ok (some before.length) := by
  have hbefore : before.findIdx? (fun g => g.name = f.name) = none := by
    simpa [List.findIdx?_eq_none_iff] using h
  simp [fieldIndex, Value.ofString, Value.viewAny, List.findIdx?_append, hbefore,
    List.findIdx?_cons]

/-- An entry fills in its field, if the field has not been found before. -/
theorem collect_cons {d : Decoded} {done left : List (Option Decoded)} {es : List (Value × Value)}
    (hnames : ∀ g ∈ before, g.name ≠ f.name) (hlen : before.length = done.length)
    (hw : f.decode w = .ok d) :
    collect (before ++ f :: after) (done ++ none :: left) ((.ofString f.name, w) :: es) =
      collect (before ++ f :: after) (done ++ some d :: left) es := by
  rw [collect, fieldIndex_ofString hnames]
  simp [hlen, hw]

end Decoder

/-- A dictionary leaves the part out, as nothing. -/
def Part.leftOut (p : StructPolicy) (q : Part) : Bool :=
  match q.data.toValue p with
  | .ok v => v.isNothing
  | .error _ => false

/-- What a dictionary has of the part. -/
def Part.found (p : StructPolicy) (q : Part) : Option Decoded :=
  if q.leftOut p then none else some q.decoded

section

variable {q : Part}

theorem Part.leftOut_eq (hv : q.data.toValue p = .ok v) : q.leftOut p = v.isNothing := by
  rw [leftOut, hv]

theorem Part.exists_of_leftOut (h : q.leftOut p = true) :
    ∃ v, q.data.toValue p = .ok v ∧ v.isNothing = true := by
  unfold leftOut at h
  split at h
  · exact ⟨_, ‹_›, h⟩
  · cases h

theorem Part.found_of_leftOut (h : q.leftOut p = true) : q.found p = none := if_pos h

theorem Part.found_of_not_leftOut (h : q.leftOut p = false) : q.found p = some q.decoded := by
  rw [found, h]
  rfl

theorem Part.Survives.isOption (hq : q.Survives p) (hleft : q.leftOut p = true) :
    q.shape.isOption = true := by
  obtain ⟨v, hv, hnothing⟩ := Part.exists_of_leftOut hleft
  exact (hq.missing hv hnothing).1

/-- An option that is left out is a missing one. -/
theorem Part.Decodes.eq_none (hq : q.Decodes p) (hleft : q.leftOut p = true)
    (hoption : q.shape.isOption = true) : q.decoded = .none := by
  obtain ⟨v, hv, hnothing⟩ := Part.exists_of_leftOut hleft
  have habsent : v.isAbsent = true := by
    cases v with
    | struct vs => exact hnothing
    | _ => cases hnothing
  have hdecode := hq hv
  cases hshape : q.shape with
  | option t => simpa [hshape, Shape.decode, habsent, eq_comm] using hdecode
  | _ => simp [hshape, Shape.isOption] at hoption

end

/-- The fields are found in the dictionary, but for those that it leaves out. The fields `before`
them, of which `done` are found, have other names. -/
theorem exists_ofEntries_of_toFields {fields : List (String × Part)}
    (hfields : ∀ f ∈ fields, f.2.Decodes p) (before : List Decoder.Field)
    (done : List (Option Decoded)) (hlen : before.length = done.length)
    (hnames : (before.map Decoder.Field.name ++ fields.map Prod.fst).Nodup)
    (hvs : Data.toFields p .dictionary (fields.map fun f => (f.1, f.2.data)) = .ok vs) :
    ∃ es, .array vs = Value.ofEntries es ∧ (es = [] ↔ ∀ f ∈ fields, f.2.leftOut p = true) ∧
      Decoder.collect (before ++ Shape.fieldDecoders (fields.map fun f => (f.1, f.2.shape)))
        (done ++ fields.map fun _ => none) es =
          .ok (done ++ fields.map fun f => f.2.found p) := by
  induction fields generalizing before done vs with
  | nil =>
    cases hvs
    exact ⟨[], rfl, by simp, rfl⟩
  | cons field fields ih =>
    obtain ⟨name, q⟩ := field
    have hq : q.Decodes p := hfields (name, q) List.mem_cons_self
    have hfields := (List.forall_mem_cons.mp hfields).2
    simp only [List.map_cons, Data.toFields, StructStyle.field, bind_eq_ok, pure_eq_ok] at hvs
    obtain ⟨v, hv, entry, hentry, rest, hrest, rfl⟩ := hvs
    have hother : ∀ g ∈ before, g.name ≠ name := by
      intro g hg heq
      exact (List.nodup_append.mp hnames).2.2 g.name (List.mem_map_of_mem hg) name (by simp) heq
    let field : Decoder.Field := ⟨name, q.shape.isOption, q.shape.decode⟩
    have hnames' : ((before ++ [field]).map Decoder.Field.name ++ fields.map Prod.fst).Nodup := by
      simpa [field] using hnames
    obtain ⟨es, hes, hempty, hcollect⟩ :=
      ih hfields (before ++ [field]) (done ++ [q.found p]) (by simpa using hlen) hnames' hrest
    have hleft : q.leftOut p = v.isNothing := Part.leftOut_eq hv
    rcases Value.entries_eq_ok_iff.mp hentry with ⟨hnothing, rfl⟩ | ⟨hsome, w, hw, rfl⟩
    · have hfound := Part.found_of_leftOut (hleft.trans hnothing)
      refine ⟨es, hes, ?_, ?_⟩
      · simpa [hleft, hnothing] using hempty
      · simpa [Shape.fieldDecoders, hfound] using hcollect
    · have hfound := Part.found_of_not_leftOut (hleft.trans hsome)
      refine ⟨_, Value.ofEntries_cons hes (.ofString name, w), ?_, ?_⟩
      · simp [hleft, hsome]
      · rw [List.map_cons, List.map_cons, Shape.fieldDecoders,
          Decoder.collect_cons hother hlen (hq.wrap hv hw)]
        simpa [hfound] using hcollect

/-- What is found makes up a record just if all that is left out is optional. -/
theorem complete_found_iff {fields : List (String × Part)} (hfields : ∀ f ∈ fields, f.2.Decodes p) :
    Decoder.complete (Shape.fieldDecoders (fields.map fun f => (f.1, f.2.shape)))
        (fields.map fun f => f.2.found p) = .ok (fields.map fun f => f.2.decoded) ↔
      ∀ f ∈ fields, f.2.leftOut p = true → f.2.shape.isOption = true := by
  induction fields with
  | nil => simp [Shape.fieldDecoders, Decoder.complete]
  | cons field fields ih =>
    obtain ⟨name, q⟩ := field
    obtain ⟨hq, hfields⟩ := List.forall_mem_cons.mp hfields
    rw [List.forall_mem_cons, ← ih hfields]
    simp only [List.map_cons, Shape.fieldDecoders, Decoder.complete, List.head?_cons,
      List.tail_cons]
    cases hleft : q.leftOut p with
    | false =>
      rw [Part.found_of_not_leftOut hleft]
      simp
    | true =>
      rw [Part.found_of_leftOut hleft]
      cases hoption : q.shape.isOption with
      | false => simp
      | true =>
        rw [hq.eq_none hleft hoption]
        simp

theorem toValues_of_toFields {fields : List (String × Part)}
    (hvs : Data.toFields p .positional (fields.map fun f => (f.1, f.2.data)) = .ok vs) :
    Data.toValues p ((fields.map Prod.snd).map Part.data) = .ok vs := by
  simpa [Data.toFields_positional, Function.comp_def] using hvs

theorem isNothing_record {fields : List (String × Part)} (hne : fields ≠ []) {style : StructStyle}
    (hvs : Data.toFields p style (fields.map fun f => (f.1, f.2.data)) = .ok vs) :
    (style.record vs).isNothing = false := by
  cases style with
  | positional => exact isNothing_struct (by simpa using hne) (toValues_of_toFields hvs)
  | dictionary => rfl

/-- The record in a struct is read in order. -/
theorem fieldsOf_positional {expected label : String} {fields : List (String × Part)}
    (hne : fields ≠ []) (hfields : ∀ f ∈ fields, f.2.Decodes p)
    (hvs : Data.toFields p .positional (fields.map fun f => (f.1, f.2.data)) = .ok vs) :
    Decoder.fieldsOf expected label (Shape.fieldDecoders (fields.map fun f => (f.1, f.2.shape)))
      (Value.struct vs).viewAny = .ok (.seq (fields.map fun f => f.2.decoded)) := by
  have hvs := toValues_of_toFields hvs
  have helements := elements_of_toValues (List.forall_mem_map.mpr hfields) hvs label 0
  simp only [List.map_map, Function.comp_def] at helements
  simp only [viewAny_struct (isNothing_struct (by simpa using hne) hvs), Decoder.fieldsOf,
    Shape.map_decode_fieldDecoders, List.map_map, Function.comp_def, helements]
  rfl

/-- A record survives, whether it is a struct or a dictionary. -/
theorem decode_record {expected label : String} {fields : List (String × Part)} (hne : fields ≠ [])
    (hnames : (fields.map Prod.fst).Nodup) (hfields : ∀ f ∈ fields, f.2.Survives p)
    {style : StructStyle}
    (hvs : Data.toFields p style (fields.map fun f => (f.1, f.2.data)) = .ok vs) :
    Decoder.fieldsOf expected label (Shape.fieldDecoders (fields.map fun f => (f.1, f.2.shape)))
      (style.record vs).viewMap = .ok (.seq (fields.map fun f => f.2.decoded)) := by
  have hdecodes : ∀ f ∈ fields, f.2.Decodes p := fun f hf => (hfields f hf).decodes
  cases style with
  | positional => exact fieldsOf_positional hne hdecodes hvs
  | dictionary =>
    obtain ⟨es, hes, -, hcollect⟩ :=
      exists_ofEntries_of_toFields hdecodes [] [] rfl hnames hvs
    have hcomplete := (complete_found_iff hdecodes).mpr fun f hf => (hfields f hf).isOption
    have hview : (StructStyle.dictionary.record vs).viewMap = .map es := by
      rw [StructStyle.record, hes, Value.viewMap_ofEntries]
    simp only [List.nil_append, List.map_const'] at hcollect
    simp only [hview, Decoder.fieldsOf, List.map_const', Shape.length_fieldDecoders,
      List.length_map, hcollect, ok_bind, hcomplete]
    rfl

end Records

/-! ## Enumerations -/

section Enumerations

variable {p : StructPolicy} {enum name : String} {variants : List (String × VariantShape)}
  {shape : VariantShape} {x : Decoded}

/-- A name stands for the first variant that has it. -/
theorem Shape.find?_variantDecoders (hnames : (variants.map Prod.fst).Nodup)
    (h : (name, shape) ∈ variants) :
    (variantDecoders enum variants).find? (fun x => x.name = name) =
      some ⟨name, contentsDecoder enum name shape⟩ := by
  induction variants with
  | nil => cases h
  | cons variant variants ih =>
    obtain ⟨other, shape'⟩ := variant
    rw [List.map_cons, List.nodup_cons] at hnames
    rcases List.mem_cons.mp h with heq | h
    · cases heq
      simp [variantDecoders]
    · have hne : other ≠ name := by
        rintro rfl
        exact hnames.1 (List.mem_map.mpr ⟨_, h, rfl⟩)
      simp [variantDecoders, hne, ih hnames.2 h]

theorem decode_unitVariant (hnames : (variants.map Prod.fst).Nodup) (h : (name, .unit) ∈ variants) :
    (Shape.enum enum variants).decode (.ofString name) = .ok (.variant name .unit) := by
  simp only [Shape.decode, Decoder.enum, Value.ofString, Value.viewEnum, Value.bare, ok_bind,
    Shape.find?_variantDecoders hnames h]
  rfl

theorem isNothing_ofVariant {v w : Value} (hw : v.ofVariant name = .ok w) :
    w.isNothing = false := by
  obtain ⟨u, -, rfl⟩ := Value.ofVariant_eq_ok_iff.mp hw
  rfl

/-- A pair of a name and of contents is read as the name says. -/
theorem decode_pair (hnames : (variants.map Prod.fst).Nodup) (h : (name, shape) ∈ variants)
    (u : Value) :
    (Shape.enum enum variants).decode (.struct [.ofString name, u]) = do
      return .variant name (← Shape.contentsDecoder enum name shape (some u)) := by
  simp only [Shape.decode, Decoder.enum, Value.ofString, Value.viewEnum, Value.bare, ok_bind,
    Shape.find?_variantDecoders hnames h]

/-- A variant survives if its contents do, behind the variant that they are in. -/
theorem decode_ofVariant (hnames : (variants.map Prod.fst).Nodup) (h : (name, shape) ∈ variants)
    {v w : Value} (hw : v.ofVariant name = .ok w)
    (hv : ∀ u, v.wrap = .ok u → Shape.contentsDecoder enum name shape (some u) = .ok x) :
    (Shape.enum enum variants).decode w = .ok (.variant name x) := by
  obtain ⟨u, hu, rfl⟩ := Value.ofVariant_eq_ok_iff.mp hw
  rw [decode_pair hnames h, hv u hu]
  rfl

end Enumerations

end DBus

import DBus.Proofs.Deserializing

/-!
# Data through values and back

Data of most shapes are got out again of the values that they make, in whichever way their
sequences and records are written (`Shape.decode_toValue`). `Shape.Portable` is the grammar of
these shapes, and `Shape.Corresponds` says which data are of a shape, and what they are when they
are got out.

Nothing is only told from something where it is an option that may be missing. So the shapes have no
option right inside of another or of a newtype, where it would be looked through, and none as a
value of a map, which leaves it out together with its key.
-/

namespace DBus

namespace Shape

/-! ## Shapes of data that survive -/

/-- Made of numbers, texts, sequences, maps, records and enumerations, where only an option makes
nothing, and is where it can be told to be missing. -/
inductive Portable : Shape → Prop
  | int (k : IntKind) : Portable (.int (.wire k))
  | int8 : Portable (.int .int8)
  | double : Portable .double
  | boolean : Portable .boolean
  | char : Portable .char
  | text (owned : Bool) : Portable (.text owned)
  | option {t : Shape} (hoption : t.isOption = false) (h : Portable t) : Portable (.option t)
  | newtype (name : String) {t : Shape} (hoption : t.isOption = false) (h : Portable t) :
      Portable (.newtype name t)
  | seq {t : Shape} (h : Portable t) : Portable (.seq t)
  | tuple {ts : List Shape} (hne : ts ≠ []) (h : ∀ t ∈ ts, Portable t) : Portable (.tuple ts)
  | tupleStruct (name : String) {ts : List Shape} (hne : ts ≠ []) (h : ∀ t ∈ ts, Portable t) :
      Portable (.tupleStruct name ts)
  | map {k t : Shape} (hoption : t.isOption = false) (hk : Portable k) (h : Portable t) :
      Portable (.map k t)
  | struct (name : String) {fields : List (String × Shape)} (hne : fields ≠ [])
      (hnames : (fields.map Prod.fst).Nodup) (h : ∀ f ∈ fields, Portable f.2) :
      Portable (.struct name fields)
  | enum (name : String) {variants : List (String × VariantShape)}
      (hnames : (variants.map Prod.fst).Nodup)
      (hnewtype : ∀ s t, (s, .newtype t) ∈ variants → Portable t)
      (hne : ∀ s ts, (s, .tuple ts) ∈ variants → ts ≠ [])
      (htuple : ∀ s ts, (s, .tuple ts) ∈ variants → ∀ t ∈ ts, Portable t)
      (hstruct : ∀ s fields, (s, .struct fields) ∉ variants) :
      Portable (.enum name variants)

/-- The data are of the shape, and are the same as what is got out of a value. -/
inductive Corresponds : Shape → Data → Decoded → Prop
  | int (k : IntKind) (n : Int) (h : k.Fits n) :
      Corresponds (.int (.wire k)) (.scalar (.int k n h)) (.int (.wire k) n)
  | int8 (n : Int8) : Corresponds (.int .int8) (.int8 n) (.int .int8 n.toInt)
  | double (d : Double) : Corresponds .double (.scalar (.double d)) (.double d)
  | boolean (b : Bool) : Corresponds .boolean (.scalar (.boolean b)) (.boolean b)
  | char (c : Char) : Corresponds .char (.char c) (.char c)
  | text (owned : Bool) (s : String) : Corresponds (.text owned) (.text s) (.text s)
  | none (t : Shape) : Corresponds (.option t) .none .none
  | some {t : Shape} {d : Data} {x : Decoded} (h : Corresponds t d x) :
      Corresponds (.option t) (.some d) (.some x)
  | newtype (name : String) {t : Shape} {d : Data} {x : Decoded} (h : Corresponds t d x) :
      Corresponds (.newtype name t) (.newtypeStruct name d) x
  | seq {t : Shape} (parts : List Part) (ht : ∀ q ∈ parts, q.shape = t)
      (h : ∀ q ∈ parts, Corresponds q.shape q.data q.decoded) :
      Corresponds (.seq t) (.seq (parts.map Part.data)) (.seq (parts.map Part.decoded))
  | tuple (parts : List Part) (h : ∀ q ∈ parts, Corresponds q.shape q.data q.decoded) :
      Corresponds (.tuple (parts.map Part.shape)) (.tuple (parts.map Part.data))
        (.seq (parts.map Part.decoded))
  | tupleStruct (name : String) (parts : List Part)
      (h : ∀ q ∈ parts, Corresponds q.shape q.data q.decoded) :
      Corresponds (.tupleStruct name (parts.map Part.shape))
        (.tupleStruct name (parts.map Part.data)) (.seq (parts.map Part.decoded))
  | map {k t : Shape} (pairs : List (Part × Part))
      (hshapes : ∀ e ∈ pairs, e.1.shape = k ∧ e.2.shape = t)
      (hkey : ∀ e ∈ pairs, Corresponds e.1.shape e.1.data e.1.decoded)
      (hvalue : ∀ e ∈ pairs, Corresponds e.2.shape e.2.data e.2.decoded) :
      Corresponds (.map k t) (.map (pairParts pairs))
        (.map (pairs.map fun e => (e.1.decoded, e.2.decoded)))
  | struct (name : String) (fields : List (String × Part))
      (h : ∀ f ∈ fields, Corresponds f.2.shape f.2.data f.2.decoded) :
      Corresponds (.struct name (fields.map fun f => (f.1, f.2.shape)))
        (.struct name (fields.map fun f => (f.1, f.2.data)))
        (.seq (fields.map fun f => f.2.decoded))
  | unitVariant (enum : String) {variants : List (String × VariantShape)} {s : String}
      (hs : (s, .unit) ∈ variants) :
      Corresponds (.enum enum variants) (.unitVariant enum s) (.variant s .unit)
  | newtypeVariant (enum : String) {variants : List (String × VariantShape)} {s : String}
      {t : Shape} {d : Data} {x : Decoded} (hs : (s, .newtype t) ∈ variants)
      (h : Corresponds t d x) :
      Corresponds (.enum enum variants) (.newtypeVariant enum s d) (.variant s x)
  | tupleVariant (enum : String) {variants : List (String × VariantShape)} {s : String}
      (parts : List Part) (hs : (s, .tuple (parts.map Part.shape)) ∈ variants)
      (h : ∀ q ∈ parts, Corresponds q.shape q.data q.decoded) :
      Corresponds (.enum enum variants) (.tupleVariant enum s (parts.map Part.data))
        (.variant s (.seq (parts.map Part.decoded)))

/-! ## The round trip -/

theorem decode_char (c : Char) {h : IntKind.uint32.Fits c.toNat} :
    Shape.char.decode (.scalar (.int .uint32 c.toNat h)) = .ok (.char c) := by
  have hvalid : c.toNat.isValidChar := c.valid
  have hview : Value.viewChar (.scalar (.int .uint32 c.toNat h)) = .ok (.char c) := by
    simp only [Value.viewChar, Value.bare, Int.toNat_natCast, if_pos hvalid, Char.ofNat_toNat]
  simp only [decode, Decoder.char, hview]
  rfl

variable {p : StructPolicy} {t : Shape} {d : Data} {x : Decoded}

/-- Data of such a shape survive. -/
theorem Portable.survives (ht : t.Portable) (h : t.Corresponds d x) :
    Part.Survives p ⟨t, d, x⟩ := by
  induction h with
  | int k n hn => exact .of_toValue rfl rfl (if_pos hn)
  | int8 n => exact .of_toValue rfl rfl (if_pos ⟨n.le_toInt, n.toInt_lt⟩)
  | double d | boolean b | text owned s => exact .of_toValue rfl rfl rfl
  | char c => exact .of_toValue rfl rfl (decode_char c)
  | none t =>
    constructor
    · rintro _ ⟨⟩
      rfl
    · rintro _ ⟨⟩ -
      exact ⟨rfl, rfl⟩
  | some h ih =>
    cases ht with
    | option hoption ht =>
      refine .of_something fun v hv => ?_
      have hsome := (ih ht).isNothing_eq_false hv hoption
      have habsent : v.isAbsent = false := by
        rw [Value.isAbsent_eq_isNothing (Data.code_of_toValue _ hv).1, hsome]
      refine ⟨hsome, ?_⟩
      simp only [decode, habsent, (ih ht).decode hv]
      rfl
  | newtype name h ih =>
    cases ht with
    | newtype _ hoption ht =>
      exact .of_something fun v hv => ⟨(ih ht).isNothing_eq_false hv hoption, (ih ht).decode hv⟩
  | seq parts hshapes h ih =>
    cases ht with
    | seq ht =>
      refine .of_something fun v hv => ?_
      simp only [Data.toValue, bind_eq_ok] at hv
      obtain ⟨vs, hvs, hv⟩ := hv
      refine ⟨isNothing_ofElements hv, decode_ofElements hshapes (fun q hq => ?_) hvs hv⟩
      exact ih q hq (hshapes q hq ▸ ht)
  | tuple parts h ih | tupleStruct name parts h ih =>
    obtain ⟨hne, hts⟩ : parts ≠ [] ∧ ∀ q ∈ parts, q.shape.Portable := by
      cases ht
      next hne hts => exact ⟨by simpa using hne, List.forall_mem_map.mp hts⟩
    refine .of_something fun v hv => ?_
    simp only [Data.toValue, bind_eq_ok, pure_eq_ok] at hv
    obtain ⟨vs, hvs, rfl⟩ := hv
    exact ⟨isNothing_struct hne hvs, decode_struct hne (fun q hq => ih q hq (hts q hq)) hvs⟩
  | map pairs hshapes hkey hvalue ihk iht =>
    cases ht with
    | map hoption hk ht =>
      refine .of_something fun v hv => ?_
      simp only [Data.toValue, bind_eq_ok, pure_eq_ok] at hv
      obtain ⟨vs, hvs, rfl⟩ := hv
      refine ⟨rfl, decode_toEntries hoption hshapes (fun e he => ?_) hvs⟩
      exact ⟨ihk e he ((hshapes e he).1 ▸ hk), iht e he ((hshapes e he).2 ▸ ht)⟩
  | struct name fields h ih =>
    cases ht with
    | struct _ hne hnames hts =>
      have hne : fields ≠ [] := by simpa using hne
      have hnames : (fields.map Prod.fst).Nodup := by simpa [Function.comp_def] using hnames
      have hfields : ∀ f ∈ fields, f.2.Survives p := fun f hf =>
        ih f hf (List.forall_mem_map.mp hts f hf)
      refine .of_something fun v hv => ?_
      simp only [Data.toValue, bind_eq_ok, pure_eq_ok] at hv
      obtain ⟨vs, hvs, rfl⟩ := hv
      exact ⟨isNothing_record hne hvs, decode_record hne hnames hfields hvs⟩
  | unitVariant enum hs =>
    cases ht with
    | enum _ hnames =>
      exact .of_toValue rfl rfl (decode_unitVariant hnames hs)
  | newtypeVariant enum hs h ih =>
    cases ht with
    | enum _ hnames hnewtype =>
      refine .of_something fun v hv => ?_
      simp only [Data.toValue, bind_eq_ok] at hv
      obtain ⟨u, hu, hv⟩ := hv
      have hcontents := ih (hnewtype _ _ hs)
      exact ⟨isNothing_ofVariant hv,
        decode_ofVariant hnames hs hv fun w hw => hcontents.decode_wrap hu hw⟩
  | tupleVariant enum parts hs h ih =>
    cases ht with
    | enum _ hnames _ hne htuple =>
      refine .of_something fun v hv => ?_
      simp only [Data.toValue, bind_eq_ok] at hv
      obtain ⟨vs, hvs, hv⟩ := hv
      have hparts : ∀ q ∈ parts, q.Survives p := fun q hq =>
        ih q hq (htuple _ _ hs _ (List.mem_map_of_mem hq))
      refine ⟨isNothing_ofVariant hv, decode_ofVariant hnames hs hv fun w hw => ?_⟩
      obtain ⟨a, -, rfl⟩ := Value.wrap_eq_ok_iff.mp hw
      exact decode_struct (by simpa using hne _ _ hs) hparts hvs

/-- Data of a portable shape are got out again of the value that they make, in whichever way the
records in them are written. -/
theorem decode_toValue (ht : t.Portable) (h : t.Corresponds d x) {v : Value}
    (hv : d.toValue p = .ok v) : t.decode v = .ok x :=
  (ht.survives h).decode hv

/-- A lamp that is off, no lamp, and one that is on at level 3 : all of them are put into variants,
and an empty array of bytes stands for no lamp. -/
theorem decode_toValue_lamps :
    let lamp := Shape.enum "Lamp" [("Off", .unit), ("On", .newtype (.int (.wire .byte)))]
    let three := Scalar.int .byte 3 (by decide)
    let lamps := Data.seq [.some (.unitVariant "Lamp" "Off"), .none,
      .some (.newtypeVariant "Lamp" "On" (.scalar three))]
    let value := Value.array [.variant ⟨.text .string, none⟩ (.ofString "Off"),
      .variant ⟨.array (.int .byte), none⟩ (.array []),
      .variant ⟨.struct [.text .string, .variant], none⟩
        (.struct [.ofString "On", .variant ⟨.int .byte, none⟩ (.scalar three)])]
    let found := Decoded.seq [.some (.variant "Off" .unit), .none,
      .some (.variant "On" (.int (.wire .byte) 3))]
    (Shape.seq (.option lamp)).Portable ∧ (Shape.seq (.option lamp)).Corresponds lamps found ∧
      lamps.toValue .dictionaries = .ok value ∧
      (Shape.seq (.option lamp)).decode value = .ok found := by
  intro lamp three lamps value found
  have hlamp : lamp.Portable := by
    refine .enum _ (by decide) ?_ (by simp) (by simp) (by simp)
    intro s t h
    obtain ⟨-, rfl⟩ : s = "On" ∧ t = .int (.wire .byte) := by simpa using h
    exact .int .byte
  have ht : (Shape.seq (.option lamp)).Portable := .seq (.option rfl hlamp)
  have hoff : lamp.Corresponds (.unitVariant "Lamp" "Off") (.variant "Off" .unit) :=
    .unitVariant "Lamp" (by simp)
  have hon : lamp.Corresponds (.newtypeVariant "Lamp" "On" (.scalar three))
      (.variant "On" (.int (.wire .byte) 3)) :=
    .newtypeVariant "Lamp" (t := .int (.wire .byte)) (by simp) (.int .byte 3 _)
  have h : (Shape.seq (.option lamp)).Corresponds lamps found :=
    .seq [⟨_, _, _⟩, ⟨_, _, _⟩, ⟨_, _, _⟩] (by simp)
      (List.forall_mem_cons.mpr ⟨.some hoff,
        List.forall_mem_cons.mpr ⟨.none lamp, List.forall_mem_singleton.mpr (.some hon)⟩⟩)
  have hv : lamps.toValue .dictionaries = .ok value := by rfl
  exact ⟨ht, h, hv, decode_toValue ht h hv⟩

end Shape

end DBus

import DBus.Proofs.Grammar

/-!
# Types of values

`Value.HasType` relates a value to the types it has. An empty array has every array type. A
variant has the one type of variants, and its contents have the type that it states, which has
to be the type of some signature (`Ty.Valid`).

What a type does not say is had by collecting it: the texts in a value (`Value.texts`), the types
its variants state (`Value.variants`), and how deep containers are nested (`Value.nesting`).
-/

namespace DBus

-- `^` is the power of the standard library, whichever others are in scope.
attribute [local instance (1100)] instPowNat

/-! ## Types of arguments -/

/-- A signature makes the type. -/
def Ty.Valid (t : Ty) : Prop := ∃ s, parseType s = .ok t

namespace Ty

/-- A type is valid if its rendering is short enough to be a signature, and the type is complete. -/
theorem valid_iff {t : Ty} :
    t.Valid ↔ t.render.length ≤ maxSignatureLength ∧ t.Complete := by
  simp only [Valid, parseType_eq_ok_iff, parseTypes_eq_singleton_iff]
  constructor
  · rintro ⟨_, hlen, ht, rfl⟩
    exact ⟨hlen, ht⟩
  · rintro ⟨hlen, ht⟩
    exact ⟨_, hlen, ht, rfl⟩

/-- The signature of such a type makes it. -/
theorem Valid.parseType_render {t : Ty} (h : t.Valid) : parseType t.render = .ok t := by
  obtain ⟨hlen, ht⟩ := valid_iff.mp h
  exact parseType_eq_ok_iff.mpr (parseTypes_eq_singleton_iff.mpr ⟨hlen, ht, rfl⟩)

/-- A dict entry is no type by itself. -/
theorem Complete.code_ne_dictEntry {t : Ty} (h : t.Complete) : t.code ≠ .dictEntry := by
  cases h <;> simp [code]

/-- A dict entry has no signature of its own. -/
theorem Valid.code_ne_dictEntry {t : Ty} (h : t.Valid) : t.code ≠ .dictEntry :=
  Complete.code_ne_dictEntry (valid_iff.mp h).2

/-- A signature is parsed to a valid type, of which it is the rendering. -/
theorem parseType_eq_ok_iff_valid {s : Bytes} {t : Ty} :
    parseType s = .ok t ↔ t.Valid ∧ s = t.render := by
  constructor
  · intro h
    obtain ⟨-, -, hrender⟩ := parseTypes_eq_singleton_iff.mp (parseType_eq_ok_iff.mp h)
    exact ⟨⟨s, h⟩, hrender.symm⟩
  · rintro ⟨ht, rfl⟩
    exact ht.parseType_render

end Ty

/-- A signature lists valid types, and is what they render to. -/
theorem Argument.listOfSignature_eq_ok {s : Bytes} {as : List Argument}
    (h : listOfSignature s = .ok as) :
    s.length ≤ maxSignatureLength ∧ (∀ a ∈ as, a.ty.Valid) ∧
      Ty.renderAll (as.map Argument.ty) = s := by
  obtain ⟨ts, hts, rfl⟩ := listOfSignature_eq_ok_iff.mp h
  obtain ⟨hlen, hcomplete, rfl⟩ := parseTypes_eq_ok_iff.mp hts
  refine ⟨hlen, fun a ha => ?_, by simp [Function.comp_def]⟩
  obtain ⟨t, ht, rfl⟩ := List.mem_map.mp ha
  exact Ty.valid_iff.mpr ⟨Nat.le_trans (Ty.length_render_le ht) hlen, hcomplete t ht⟩

/-- The type of the contents of a variant is told by the signature of a valid type. -/
theorem variantType_eq_ok_iff {bs : Bytes} {t : Ty} :
    variantType bs = .ok t ↔ t.Valid ∧ bs = t.render := by
  rw [← Ty.parseType_eq_ok_iff_valid]
  simp only [variantType, bind_eq_ok]
  constructor
  · rintro ⟨_, -, h⟩
    split at h
    · next u hu =>
      cases h
      exact hu
    · simp at h
  · intro h
    obtain ⟨-, rfl⟩ := Ty.parseType_eq_ok_iff_valid.mp h
    refine ⟨t.signature, readText_eq_ok_iff.mpr t.utf8_signature, ?_⟩
    rw [h]
    rfl

namespace Value

/-! ## Having a type -/

/-- The value is of exactly the type. -/
inductive HasType : Value → Ty → Prop
  | scalar (s : Scalar) : HasType (.scalar s) (.fixed s.code)
  | text (c : TextCode) (s : String) : HasType (.text c s) (.text c)
  | array {vs : List Value} {e : Ty} : (∀ v ∈ vs, HasType v e) → HasType (.array vs) (.array e)
  | struct {vs : List Value} {ts : List Ty} : vs.length = ts.length →
      (∀ p ∈ vs.zip ts, HasType p.1 p.2) → HasType (.struct vs) (.struct ts)
  | dictEntry {key value : Value} {k : BasicCode} {t : Ty} : HasType key (.basic k) →
      HasType value t → HasType (.dictEntry key value) (.dictEntry k t)
  | variant {a : Argument} {v : Value} : a.ty.Valid → HasType v a.ty →
      HasType (.variant a v) .variant

/-! ## Texts and variants -/

mutual

/-- The texts in a value, each with its type. -/
def texts : Value → List (TextCode × String)
  | scalar _ => []
  | text c s => [(c, s)]
  | array vs | struct vs => textsAll vs
  | dictEntry key value => key.texts ++ value.texts
  | variant _ v => v.texts

/-- The texts in a list of values. -/
def textsAll : List Value → List (TextCode × String)
  | [] => []
  | v :: vs => v.texts ++ textsAll vs

end

mutual

/-- The types that the variants in a value state. -/
def variants : Value → List Argument
  | scalar _ | text _ _ => []
  | array vs | struct vs => variantsAll vs
  | dictEntry key value => key.variants ++ value.variants
  | variant a v => a :: v.variants

/-- The types that the variants in a list of values state. -/
def variantsAll : List Value → List Argument
  | [] => []
  | v :: vs => v.variants ++ variantsAll vs

end

/-- The texts in several values are those in each of them. -/
theorem textsAll_eq_flatMap (vs : List Value) : textsAll vs = vs.flatMap texts := by
  induction vs with
  | nil => rfl
  | cons v vs ih => simp [textsAll, ih]

/-- The variants in several values are those in each of them. -/
theorem variantsAll_eq_flatMap (vs : List Value) : variantsAll vs = vs.flatMap variants := by
  induction vs with
  | nil => rfl
  | cons v vs ih => simp [variantsAll, ih]

/-- The lengths of the texts in a value fit into four bytes. -/
def Short (v : Value) : Prop := ∀ p ∈ v.texts, (utf8 p.2).length < 2 ^ (32 : Nat)

/-- The bound is about the bytes of a text and not about its characters. -/
theorem short_text {c : TextCode} {s : String} :
    (text c s).Short ↔ (utf8 s).length < 2 ^ (32 : Nat) := by
  simp [Short, texts]

/-- An array is short if its items are, however many they are. -/
theorem short_array {vs : List Value} : (array vs).Short ↔ ∀ v ∈ vs, v.Short := by
  simp only [Short, texts, textsAll_eq_flatMap, List.mem_flatMap]
  exact ⟨fun h v hv p hp => h p ⟨v, hv, hp⟩, fun h p ⟨v, hv, hp⟩ => h v hv p hp⟩

theorem short_struct {vs : List Value} : (struct vs).Short ↔ ∀ v ∈ vs, v.Short := short_array

/-- A dict entry is short if its key and its value are. -/
theorem short_dictEntry {key value : Value} :
    (dictEntry key value).Short ↔ key.Short ∧ value.Short := by
  simp only [Short, texts, List.forall_mem_append]

theorem short_variant {a : Argument} {v : Value} : (variant a v).Short ↔ v.Short := Iff.rfl

/-- No variant in the value names its type. -/
def Unnamed (v : Value) : Prop := ∀ a ∈ v.variants, a.name = none

/-- An array is unnamed if its items are. -/
theorem unnamed_array {vs : List Value} : (array vs).Unnamed ↔ ∀ v ∈ vs, v.Unnamed := by
  simp only [Unnamed, variants, variantsAll_eq_flatMap, List.mem_flatMap]
  exact ⟨fun h v hv a ha => h a ⟨v, hv, ha⟩, fun h a ⟨v, hv, ha⟩ => h v hv a ha⟩

theorem unnamed_struct {vs : List Value} : (struct vs).Unnamed ↔ ∀ v ∈ vs, v.Unnamed :=
  unnamed_array

/-- A dict entry is unnamed if its key and its value are. -/
theorem unnamed_dictEntry {key value : Value} :
    (dictEntry key value).Unnamed ↔ key.Unnamed ∧ value.Unnamed := by
  simp only [Unnamed, variants, List.forall_mem_append]

/-- A variant is unnamed if the type that it states is, and what is inside. -/
theorem unnamed_variant {a : Argument} {v : Value} :
    (variant a v).Unnamed ↔ a.name = none ∧ v.Unnamed := by
  simp only [Unnamed, variants, List.forall_mem_cons]

mutual

/-- The value without the names of the types of its variants. -/
def unname : Value → Value
  | scalar s => scalar s
  | text c s => text c s
  | array vs => array (unnameAll vs)
  | struct vs => struct (unnameAll vs)
  | dictEntry key value => dictEntry key.unname value.unname
  | variant a v => variant ⟨a.ty, none⟩ v.unname

/-- Values without the names of the types of their variants. -/
def unnameAll : List Value → List Value
  | [] => []
  | v :: vs => v.unname :: unnameAll vs

end

theorem unnameAll_eq_map (vs : List Value) : unnameAll vs = vs.map unname := by
  induction vs with
  | nil => rfl
  | cons v vs ih => rw [unnameAll, ih, List.map_cons]

mutual

/-- Without names there are none to leave out. -/
theorem unname_eq_self : ∀ v : Value, v.Unnamed → v.unname = v
  | scalar _, _ => rfl
  | text _ _, _ => rfl
  | array vs, h => by rw [unname, unnameAll_eq_self vs (unnamed_array.mp h)]
  | struct vs, h => by rw [unname, unnameAll_eq_self vs (unnamed_struct.mp h)]
  | dictEntry key value, h => by
    obtain ⟨hkey, hvalue⟩ := unnamed_dictEntry.mp h
    rw [unname, unname_eq_self key hkey, unname_eq_self value hvalue]
  | variant ⟨_, _⟩ v, h => by
    obtain ⟨rfl, hv⟩ := unnamed_variant.mp h
    rw [unname, unname_eq_self v hv]

/-- Unnamed values lose nothing either. -/
theorem unnameAll_eq_self : ∀ vs : List Value, (∀ v ∈ vs, v.Unnamed) → unnameAll vs = vs
  | [], _ => rfl
  | v :: vs, h => by
    rw [List.forall_mem_cons] at h
    rw [unnameAll, unname_eq_self v h.1, unnameAll_eq_self vs h.2]

end

/-! ## Nesting -/

mutual

/-- How many containers are nested in a value at most, itself included. -/
def nesting : Value → Nat
  | scalar _ | text _ _ => 0
  | array vs | struct vs => nestingAll vs + 1
  | dictEntry key value => max key.nesting value.nesting + 1
  | variant _ v => v.nesting + 1

/-- How many containers are nested in a list of values at most. -/
def nestingAll : List Value → Nat
  | [] => 0
  | v :: vs => max v.nesting (nestingAll vs)

end

/-- Several values are nested as deep as the deepest of them. -/
theorem nestingAll_le_iff {vs : List Value} {n : Nat} :
    nestingAll vs ≤ n ↔ ∀ v ∈ vs, v.nesting ≤ n := by
  induction vs with
  | nil => simp [nestingAll]
  | cons v vs ih => rw [nestingAll, Nat.max_le, ih, List.forall_mem_cons]

end Value

/-! ## Well-formed values -/

/-- A text that its type allows : it has no zero byte and the form that the type asks for. -/
def TextCode.Allows (c : TextCode) (s : String) : Prop := 0 ∉ utf8 s ∧ c.check s = .ok ()

namespace Value

/-- A value of a type as a body can hold it : its texts are allowed, its variants do not name
their types, and no more than `depth` containers are nested in it. -/
structure WellFormed (v : Value) (t : Ty) (depth : Nat) : Prop where
  hasType : v.HasType t
  unnamed : v.Unnamed
  allowed : ∀ p ∈ v.texts, p.1.Allows p.2
  nesting_le : v.nesting ≤ depth

namespace WellFormed

variable {v : Value} {vs : List Value} {t : Ty} {ts : List Ty} {d : Nat}

theorem scalar (s : Scalar) : WellFormed (.scalar s) (.fixed s.code) d where
  hasType := .scalar s
  unnamed := by simp [Unnamed, variants]
  allowed := by simp [texts]
  nesting_le := Nat.zero_le d

/-- A text that the code allows is well formed at any depth. -/
theorem text {c : TextCode} {s : String} (h : c.Allows s) :
    WellFormed (.text c s) (.text c) d where
  hasType := .text c s
  unnamed := by simp [Unnamed, variants]
  allowed := by simpa [texts] using h
  nesting_le := Nat.zero_le d

/-- A value is well formed at any greater depth. -/
theorem mono {k : Nat} (h : WellFormed v t d) (hd : d ≤ k) : WellFormed v t k :=
  ⟨h.hasType, h.unnamed, h.allowed, Nat.le_trans h.nesting_le hd⟩

/-- What the items of a well-formed container have in common. -/
theorem all (h : ∀ v ∈ vs, ∃ t, WellFormed v t d) :
    (∀ a ∈ variantsAll vs, a.name = none) ∧ (∀ p ∈ textsAll vs, p.1.Allows p.2) ∧
      nestingAll vs ≤ d := by
  refine ⟨fun a ha => ?_, fun p hp => ?_, nestingAll_le_iff.mpr fun v hv => ?_⟩
  · rw [variantsAll_eq_flatMap, List.mem_flatMap] at ha
    obtain ⟨v, hv, ha⟩ := ha
    obtain ⟨t, ht⟩ := h v hv
    exact ht.unnamed a ha
  · rw [textsAll_eq_flatMap, List.mem_flatMap] at hp
    obtain ⟨v, hv, hp⟩ := hp
    obtain ⟨t, ht⟩ := h v hv
    exact ht.allowed p hp
  · obtain ⟨t, ht⟩ := h v hv
    exact ht.nesting_le

/-- An array takes one level more than its items. -/
theorem array (h : ∀ v ∈ vs, WellFormed v t d) :
    WellFormed (.array vs) (.array t) (d + 1) := by
  obtain ⟨hnames, htexts, hnesting⟩ := all fun v hv => ⟨t, h v hv⟩
  exact ⟨.array fun v hv => (h v hv).hasType, hnames, htexts, Nat.add_le_add_right hnesting 1⟩

/-- A struct takes one level more than its fields. -/
theorem struct (hlen : vs.length = ts.length) (h : ∀ p ∈ vs.zip ts, WellFormed p.1 p.2 d) :
    WellFormed (.struct vs) (.struct ts) (d + 1) := by
  obtain ⟨hnames, htexts, hnesting⟩ := all fun v hv => by
    obtain ⟨t, ht⟩ := exists_mem_zip hlen hv
    exact ⟨t, h _ ht⟩
  exact ⟨.struct hlen fun p hp => (h p hp).hasType, hnames, htexts,
    Nat.add_le_add_right hnesting 1⟩

/-- A dict entry takes one level more than its key and its value. -/
theorem dictEntry {key value : Value} {k : BasicCode} (hk : WellFormed key (.basic k) d)
    (hv : WellFormed value t d) :
    WellFormed (.dictEntry key value) (.dictEntry k t) (d + 1) where
  hasType := .dictEntry hk.hasType hv.hasType
  unnamed a ha := by
    rcases List.mem_append.mp ha with ha | ha
    · exact hk.unnamed a ha
    · exact hv.unnamed a ha
  allowed p hp := by
    rcases List.mem_append.mp hp with hp | hp
    · exact hk.allowed p hp
    · exact hv.allowed p hp
  nesting_le := by
    rw [nesting, Nat.add_le_add_iff_right]
    exact Nat.max_le.mpr ⟨hk.nesting_le, hv.nesting_le⟩

/-- A variant takes one level more than its contents, and its type has no name. -/
theorem variant (ht : t.Valid) (h : WellFormed v t d) :
    WellFormed (.variant ⟨t, none⟩ v) .variant (d + 1) where
  hasType := .variant ht h.hasType
  unnamed a ha := by
    rcases List.mem_cons.mp ha with rfl | ha
    · rfl
    · exact h.unnamed a ha
  allowed := h.allowed
  nesting_le := Nat.add_le_add_right h.nesting_le 1

/-- What a well-formed container holds goes one level less deep. -/
theorem mem_of_all {k : Nat} (hnames : ∀ a ∈ variantsAll vs, a.name = none)
    (htexts : ∀ p ∈ textsAll vs, p.1.Allows p.2) (hnesting : nestingAll vs ≤ k) (hv : v ∈ vs)
    (ht : v.HasType t) : WellFormed v t k where
  hasType := ht
  unnamed a ha := hnames a (variantsAll_eq_flatMap vs ▸ List.mem_flatMap.mpr ⟨v, hv, ha⟩)
  allowed p hp := htexts p (textsAll_eq_flatMap vs ▸ List.mem_flatMap.mpr ⟨v, hv, hp⟩)
  nesting_le := nestingAll_le_iff.mp hnesting v hv

/-- The items of a well-formed array are well formed with one level less. -/
theorem items (h : WellFormed (.array vs) (.array t) d) :
    ∃ k, d = k + 1 ∧ ∀ v ∈ vs, WellFormed v t k := by
  obtain ⟨ht, hnames, htexts, hnesting⟩ := h
  obtain ⟨k, rfl⟩ := Nat.exists_eq_add_of_le' (Nat.le_trans (Nat.le_add_left 1 _) hnesting)
  cases ht with
  | array ht =>
    exact ⟨k, rfl, fun v hv =>
      mem_of_all hnames htexts (Nat.le_of_succ_le_succ hnesting) hv (ht v hv)⟩

/-- The fields of a well-formed struct are well formed with one level less. -/
theorem fields (h : WellFormed (.struct vs) (.struct ts) d) :
    ∃ k, d = k + 1 ∧ vs.length = ts.length ∧ ∀ p ∈ vs.zip ts, WellFormed p.1 p.2 k := by
  obtain ⟨ht, hnames, htexts, hnesting⟩ := h
  obtain ⟨k, rfl⟩ := Nat.exists_eq_add_of_le' (Nat.le_trans (Nat.le_add_left 1 _) hnesting)
  cases ht with
  | struct hlen ht =>
    exact ⟨k, rfl, hlen, fun p hp => mem_of_all hnames htexts (Nat.le_of_succ_le_succ hnesting)
      (List.of_mem_zip hp).1 (ht p hp)⟩

/-- The key and the value of a well-formed dict entry are well formed with one level less. -/
theorem entry {key value : Value} {k : BasicCode}
    (h : WellFormed (.dictEntry key value) (.dictEntry k t) d) :
    ∃ n, d = n + 1 ∧ WellFormed key (.basic k) n ∧ WellFormed value t n := by
  obtain ⟨ht, hnames, htexts, hnesting⟩ := h
  obtain ⟨n, rfl⟩ := Nat.exists_eq_add_of_le' (Nat.le_trans (Nat.le_add_left 1 _) hnesting)
  obtain ⟨hkey, hvalue⟩ := Nat.max_le.mp (Nat.le_of_succ_le_succ hnesting)
  obtain ⟨hkeyNames, hvalueNames⟩ := unnamed_dictEntry.mp hnames
  obtain ⟨hkeyTexts, hvalueTexts⟩ := List.forall_mem_append.mp htexts
  cases ht with
  | dictEntry hk ht =>
    exact ⟨n, rfl, ⟨hk, hkeyNames, hkeyTexts, hkey⟩, ⟨ht, hvalueNames, hvalueTexts, hvalue⟩⟩

/-- The contents of a well-formed variant are well formed as the type that is stated. -/
theorem contents {a : Argument} (h : WellFormed (.variant a v) .variant d) :
    ∃ k, d = k + 1 ∧ a.ty.Valid ∧ a.name = none ∧ WellFormed v a.ty k := by
  obtain ⟨ht, hnames, htexts, hnesting⟩ := h
  obtain ⟨k, rfl⟩ := Nat.exists_eq_add_of_le' (Nat.le_trans (Nat.le_add_left 1 _) hnesting)
  obtain ⟨hname, hnames⟩ := unnamed_variant.mp hnames
  cases ht with
  | variant ha ht =>
    exact ⟨k, rfl, ha, hname, ht, hnames, htexts, Nat.le_of_succ_le_succ hnesting⟩

end WellFormed

end Value

end DBus

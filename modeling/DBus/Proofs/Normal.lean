import DBus.Marshal
import DBus.Proofs.Typing

/-!
# Values taken as a type

Writing takes a value as one of the type that is asked for, which need not be the type that the
value has : an integer stands for the number in another kind of integer or the double it makes, a
string for an object path or a signature, and a plain value for a variant of it.
`Value.normalise` is the value that is meant. A value that cannot be taken as the type stays as
it is, and so does one that is of the type already (`Value.normalise_eq_self`).

The type of a plain value in a variant is inferred, and it has the outermost code of the value
(`Value.code_of_inferArgument`), so that it is no variant again.
-/

namespace DBus

namespace Value

/-! ## Normal forms -/

/-- A plain value taken as a type, given what it is as a type that is no variant. As a variant it
is of the type that is inferred. -/
def asPlain (v : Value) (plain : Ty → Value) : Ty → Value
  | .variant =>
    match v.inferArgument with
    | .ok a => variant ⟨a.ty, none⟩ (plain a.ty)
    | .error _ => v
  | t => plain t

mutual

/-- The value as one of a type, with no name at any variant. -/
def normalise : Value → Ty → Value
  | scalar s => (scalar s).asPlain fun
    | .basic (.fixed c) => scalar ((s.convert? c).getD s)
    | _ => scalar s
  | text d s => (text d s).asPlain fun
    | .basic (.text c) => text (if d = .string then c else d) s
    | _ => text d s
  | array vs => (array vs).asPlain fun
    | .array t => array (normaliseItems vs t)
    | _ => array vs
  | struct vs => (struct vs).asPlain fun
    | .struct ts => struct (normaliseFields vs ts)
    | _ => struct vs
  | dictEntry key value => (dictEntry key value).asPlain fun
    | .dictEntry k t => dictEntry (key.normalise (.basic k)) (value.normalise t)
    | _ => dictEntry key value
  | variant a v => fun
    | .variant => variant ⟨a.ty, none⟩ (v.normalise a.ty)
    | _ => variant a v

/-- Values as items of a type. -/
def normaliseItems : List Value → Ty → List Value
  | [], _ => []
  | v :: vs, t => v.normalise t :: normaliseItems vs t

/-- Values as fields of the types. -/
def normaliseFields : List Value → List Ty → List Value
  | v :: vs, t :: ts => v.normalise t :: normaliseFields vs ts
  | vs, _ => vs

end

@[simp] theorem length_normaliseItems (vs : List Value) (t : Ty) :
    (normaliseItems vs t).length = vs.length := by
  induction vs with
  | nil => rfl
  | cons v vs ih => simp [normaliseItems, ih]

@[simp] theorem length_normaliseFields (vs : List Value) (ts : List Ty) :
    (normaliseFields vs ts).length = vs.length := by
  induction vs generalizing ts with
  | nil => cases ts <;> rfl
  | cons v vs ih =>
    cases ts with
    | nil => rfl
    | cons t ts => simp [normaliseFields, ih]

/-! ## Inferred types -/

/-- The signature that is inferred for a value starts with the code of the value. -/
theorem infer_eq_cons {v : Value} {s : Bytes} (h : v.infer = .ok s) :
    ∃ bs, s = v.code.byte :: bs := by
  cases v <;> simp only [infer, bind_eq_ok, pure_eq_ok, Except.ok.injEq] at h
  case scalar | text | variant => exact ⟨[], h.symm⟩
  case array | struct =>
    obtain ⟨_, -, rfl⟩ := h
    exact ⟨_, rfl⟩
  case dictEntry =>
    obtain ⟨_, -, _, -, rfl⟩ := h
    exact ⟨_, rfl⟩

/-- The type that is inferred for a value has the code of the value. -/
theorem code_of_inferArgument {v : Value} {a : Argument} (h : v.inferArgument = .ok a) :
    a.ty.code = v.code := by
  simp only [inferArgument, bind_eq_ok, Argument.ofSignature_eq_ok_iff] at h
  obtain ⟨s, hs, t, ht, rfl⟩ := h
  obtain ⟨bs, rfl⟩ := infer_eq_cons hs
  obtain ⟨-, hrender⟩ := Ty.parseType_eq_ok_iff_valid.mp ht
  obtain ⟨cs, hcs⟩ := t.render_eq_cons
  rw [hcs] at hrender
  exact (TypeCode.byte_inj (List.cons.inj hrender).1).symm

/-- The value is no variant. -/
def Plain (v : Value) : Prop := v.code ≠ .variant

/-- Only variants take plain values in. -/
theorem asPlain_of_ne {v : Value} {plain : Ty → Value} {t : Ty} (ht : t ≠ .variant) :
    v.asPlain plain t = plain t := by
  cases t <;> first | rfl | exact absurd rfl ht

/-- A plain value becomes a variant of the type that is inferred for it, if there is one. -/
theorem asPlain_variant {v : Value} (hv : v.Plain) (plain : Ty → Value) :
    v.asPlain plain .variant =
      match v.inferArgument with
      | .ok a => variant ⟨a.ty, none⟩ (v.asPlain plain a.ty)
      | .error _ => v := by
  rw [asPlain]
  split
  · next a ha =>
    have hne : a.ty ≠ .variant := by
      intro h
      have := code_of_inferArgument ha
      rw [h] at this
      exact hv this.symm
    rw [asPlain_of_ne hne]
  · rfl

/-- The contents of such a variant are normalised as the type that is inferred. -/
theorem normalise_plain {v : Value} (hv : v.Plain) :
    v.normalise .variant =
      match v.inferArgument with
      | .ok a => variant ⟨a.ty, none⟩ (v.normalise a.ty)
      | .error _ => v := by
  cases v with
  | variant => exact absurd rfl hv
  | _ => exact asPlain_variant hv _

/-! ## What has a normal form of a type -/

/-- A scalar converts to one of the type that is asked for. -/
theorem code_of_convert? {s u : Scalar} {c : FixedCode} (h : s.convert? c = some u) :
    u.code = c := by
  cases c <;> cases s <;> simp [Scalar.convert?, Scalar.int?] at h
  case int.int =>
    obtain ⟨_, rfl⟩ := h
    rfl
  all_goals
    subst h
    rfl

/-- A scalar converts to itself. -/
theorem convert?_code (s : Scalar) : s.convert? s.code = some s := by
  rcases s with b | ⟨k, n, h⟩ | d
  · rfl
  · exact dif_pos h
  · rfl

variable {v : Value}

/-- What becomes a scalar of the type is a scalar that converts to it. -/
theorem normalise_fixed_iff {c : FixedCode} {u : Scalar} :
    (u.code = c ∧ v.normalise (.fixed c) = scalar u) ↔
      ∃ s, v = scalar s ∧ s.convert? c = some u := by
  cases v <;> simp [normalise, asPlain]
  case scalar s =>
    constructor
    · rintro ⟨rfl, h⟩
      cases hs : s.convert? u.code with
      | none =>
        rw [hs] at h
        obtain rfl : s = u := h
        rw [convert?_code] at hs
        cases hs
      | some t =>
        rw [hs] at h
        exact congrArg some h
    · intro h
      exact ⟨code_of_convert? h, by simp [h]⟩

/-- What becomes a text of the type is one already or a string. -/
theorem normalise_text_iff {c : TextCode} {s : String} :
    v.normalise (.text c) = text c s ↔ ∃ d, v = text d s ∧ (d = c ∨ d = .string) := by
  cases v <;> simp [normalise, asPlain, and_assoc]
  case text d t =>
    by_cases hd : d = .string <;> simp [hd, and_comm]

/-- Only arrays become arrays, item by item. -/
theorem normalise_array_iff {t : Ty} {ws : List Value} :
    v.normalise (.array t) = array ws ↔ ∃ vs, v = array vs ∧ normaliseItems vs t = ws := by
  cases v <;> simp [normalise, asPlain]

/-- Only structs become structs, field by field. -/
theorem normalise_struct_iff {ts : List Ty} {ws : List Value} :
    v.normalise (.struct ts) = struct ws ↔ ∃ vs, v = struct vs ∧ normaliseFields vs ts = ws := by
  cases v <;> simp [normalise, asPlain]

/-- Only dict entries become dict entries. -/
theorem normalise_dictEntry_iff {k : BasicCode} {t : Ty} {key value : Value} :
    v.normalise (.dictEntry k t) = dictEntry key value ↔
      ∃ x y, v = dictEntry x y ∧ x.normalise (.basic k) = key ∧ y.normalise t = value := by
  cases v <;> simp [normalise, asPlain, and_assoc]

/-- A variant is written as the one that is had of it. -/
theorem normalise_variant_iff {t : Ty} {w : Value} :
    v.normalise .variant = variant ⟨t, none⟩ w ↔
      ∃ a x, v.asVariant = .ok (a, x) ∧ a.ty = t ∧ x.normalise a.ty = w := by
  by_cases hv : v.Plain
  · have hvariant : v.asVariant = do return (← v.inferArgument, v) := by
      cases v with
      | variant => exact absurd rfl hv
      | _ => rfl
    rw [normalise_plain hv, hvariant]
    cases v.inferArgument with
    | ok a => simp [and_assoc]
    | error e =>
      have hne : v ≠ variant ⟨t, none⟩ w := fun h => hv (by rw [h]; rfl)
      simp [hne]
  · cases v with
    | variant a x =>
      simp [normalise, asVariant, and_assoc]
    | _ => exact absurd nofun hv

/-- Taken as a variant, a value has no more texts inside than before. -/
theorem short_of_asVariant {a : Argument} {x : Value} (h : v.asVariant = .ok (a, x))
    (hv : v.Short) : x.Short := by
  cases v <;> simp [asVariant] at h
  case variant =>
    obtain ⟨rfl, rfl⟩ := h
    exact short_variant.mp hv
  all_goals
    obtain ⟨_, -, -, rfl⟩ := h
    exact hv

/-! ## Values of the type -/

/-- Items are normalised one by one. -/
theorem normaliseItems_eq_map {vs : List Value} {t : Ty} {f : Value → Value}
    (h : ∀ v ∈ vs, v.normalise t = f v) : normaliseItems vs t = vs.map f := by
  induction vs with
  | nil => rfl
  | cons v vs ih =>
    rw [normaliseItems, h v (by simp), ih fun w hw => h w (by simp [hw]), List.map_cons]

/-- Fields are normalised one by one, if there are as many of them as types. -/
theorem normaliseFields_eq_map {vs : List Value} {ts : List Ty} {f : Value → Value}
    (hlen : vs.length = ts.length) (h : ∀ p ∈ vs.zip ts, p.1.normalise p.2 = f p.1) :
    normaliseFields vs ts = vs.map f := by
  induction vs generalizing ts with
  | nil => cases ts <;> rfl
  | cons v vs ih =>
    cases ts with
    | nil => simp at hlen
    | cons t ts =>
      rw [List.zip_cons_cons, List.forall_mem_cons] at h
      rw [normaliseFields, h.1, ih (by simpa using hlen) h.2, List.map_cons]

theorem normaliseFields_eq_self {vs : List Value} {ts : List Ty} (hlen : vs.length = ts.length)
    (h : ∀ p ∈ vs.zip ts, p.1.normalise p.2 = p.1) : normaliseFields vs ts = vs :=
  (normaliseFields_eq_map hlen h).trans (List.map_id' vs)

/-- A value of the type is taken as it is, but for the names at its variants. -/
theorem normalise_eq_unname {v : Value} {t : Ty} (h : v.HasType t) : v.normalise t = v.unname := by
  induction h with
  | scalar s => simp [normalise, asPlain, convert?_code, unname]
  | text c s => simp [normalise, asPlain, unname]
  | array _ ih =>
    simp only [normalise, asPlain, unname]
    rw [normaliseItems_eq_map ih, unnameAll_eq_map]
  | struct hlen _ ih =>
    simp only [normalise, asPlain, unname]
    rw [normaliseFields_eq_map hlen ih, unnameAll_eq_map]
  | dictEntry _ _ ihkey ihvalue => simp only [normalise, asPlain, ihkey, ihvalue, unname]
  | variant _ _ ih => simp only [normalise, ih, unname]

/-- A value of the type, with no name at any variant, is taken as it is. -/
theorem normalise_eq_self {v : Value} {t : Ty} (h : v.HasType t) (hv : v.Unnamed) :
    v.normalise t = v :=
  (normalise_eq_unname h).trans (unname_eq_self v hv)

end Value

end DBus

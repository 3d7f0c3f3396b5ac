import DBus.Proofs.Normal

/-!
# Inferred types

`Value.infer` gathers a signature from the codes of a value, and need not gather one of a type :
the key of a dict entry may be an array. But a signature that is one of a type is gathered only
from values that have the type (`Value.hasForm_of_infer`), as far as variants are not looked into
(`Value.HasForm`). If the variants in the value are of the types that they state
(`Value.Consistent`), the value has the type altogether.
-/

namespace DBus

namespace Value

/-! ## Having a type on the outside of variants -/

/-- The value is of the type, whatever its variants hold. -/
inductive HasForm : Value → Ty → Prop
  | scalar (s : Scalar) : HasForm (.scalar s) (.fixed s.code)
  | text (c : TextCode) (s : String) : HasForm (.text c s) (.text c)
  | array {vs : List Value} {e : Ty} : (∀ v ∈ vs, HasForm v e) → HasForm (.array vs) (.array e)
  | struct {vs : List Value} {ts : List Ty} : vs.length = ts.length →
      (∀ p ∈ vs.zip ts, HasForm p.1 p.2) → HasForm (.struct vs) (.struct ts)
  | dictEntry {key value : Value} {k : BasicCode} {t : Ty} : HasForm key (.basic k) →
      HasForm value t → HasForm (.dictEntry key value) (.dictEntry k t)
  | variant (a : Argument) (v : Value) : HasForm (.variant a v) .variant

/-- The variants in the value are of the types that they state. -/
inductive Consistent : Value → Prop
  | scalar (s : Scalar) : Consistent (.scalar s)
  | text (c : TextCode) (s : String) : Consistent (.text c s)
  | array {vs : List Value} : (∀ v ∈ vs, Consistent v) → Consistent (.array vs)
  | struct {vs : List Value} : (∀ v ∈ vs, Consistent v) → Consistent (.struct vs)
  | dictEntry {key value : Value} : Consistent key → Consistent value →
      Consistent (.dictEntry key value)
  | variant {a : Argument} {v : Value} : a.ty.Valid → HasType v a.ty → Consistent (.variant a v)

variable {v : Value} {vs : List Value} {t : Ty}

/-- A value of the form whose variants are of the types that they state has the type. -/
theorem HasForm.hasType (h : v.HasForm t) (hv : v.Consistent) : v.HasType t := by
  induction h with
  | scalar s => exact .scalar s
  | text c s => exact .text c s
  | array _ ih =>
    cases hv with
    | array hvs => exact .array fun v hmem => ih v hmem (hvs v hmem)
  | struct hlen _ ih =>
    cases hv with
    | struct hvs =>
      exact .struct hlen fun p hp => ih p hp (hvs p.1 (List.of_mem_zip hp).1)
  | dictEntry _ _ ihkey ihvalue =>
    cases hv with
    | dictEntry hkey hvalue => exact .dictEntry (ihkey hkey) (ihvalue hvalue)
  | variant a v =>
    cases hv with
    | variant ha hcontents => exact .variant ha hcontents

/-! ## Inferring -/

/-- The items of an array have one signature. -/
theorem inferSame_eq_ok_iff {e : Bytes} {u : Unit} :
    inferSame e vs = .ok u ↔ ∀ v ∈ vs, v.infer = .ok e := by
  induction vs with
  | nil => simp [inferSame]
  | cons v vs ih =>
    simp only [inferSame, bind_eq_ok, List.forall_mem_cons]
    constructor
    · rintro ⟨s, hs, h⟩
      split at h
      · next heq =>
        subst heq
        exact ⟨hs, ih.mp h⟩
      · cases h
    · rintro ⟨hs, h⟩
      exact ⟨e, hs, by simpa using ih.mpr h⟩

/-- All items of an array have the signature that is inferred for them, and there are some. -/
theorem inferElement_eq_ok_iff {e : Bytes} :
    inferElement vs = .ok e ↔ vs ≠ [] ∧ ∀ v ∈ vs, v.infer = .ok e := by
  cases vs with
  | nil => simp [inferElement]
  | cons v vs =>
    simp only [inferElement, bind_eq_ok, pure_eq_ok, inferSame_eq_ok_iff, List.forall_mem_cons]
    constructor
    · rintro ⟨s, hs, -, h, rfl⟩
      exact ⟨List.cons_ne_nil v vs, hs, h⟩
    · rintro ⟨-, hs, h⟩
      exact ⟨e, hs, (), h, rfl⟩

theorem inferFields_cons_eq_ok_iff {s : Bytes} :
    inferFields (v :: vs) = .ok s ↔
      ∃ a, v.infer = .ok a ∧ ((vs = [] ∧ a = s) ∨ ∃ b, inferFields vs = .ok b ∧ a ++ b = s) := by
  cases vs with
  | nil => simp [inferFields]
  | cons w ws => simp [inferFields]

/-- What is inferred starts with the code of the value, and so does what it is the beginning of. -/
theorem code_of_infer {s x y : Bytes} (h : v.infer = .ok s) (hs : s ++ x = t.render ++ y) :
    v.code = t.code := by
  obtain ⟨bs, rfl⟩ := infer_eq_cons h
  obtain ⟨cs, ht⟩ := t.render_eq_cons
  rw [ht, List.cons_append, List.cons_append, List.cons.injEq] at hs
  exact TypeCode.byte_inj hs.1

/-- What is inferred for fields is not over before there is none left. -/
theorem renderAll_ne_nil_of_inferFields {ts : List Ty} {s x y : Bytes}
    (h : inferFields vs = .ok s) (hs : s ++ x = Ty.renderAll ts ++ Ty.structEnd :: y) :
    ∃ t us, ts = t :: us := by
  cases ts with
  | cons t us => exact ⟨t, us, rfl⟩
  | nil =>
    cases vs with
    | nil => cases h
    | cons v vs =>
      obtain ⟨a, ha, hrest⟩ := inferFields_cons_eq_ok_iff.mp h
      obtain ⟨bs, rfl⟩ := infer_eq_cons ha
      rcases hrest with ⟨-, rfl⟩ | ⟨b, -, rfl⟩ <;>
        exact absurd (List.cons.inj hs).1 (TypeCode.byte_ne_structEnd _)

mutual

/-- If the signature that is inferred for a value starts the signature of a type, it is all of it,
and the value is of the type. -/
theorem hasForm_of_infer : ∀ (v : Value) {t : Ty} {s x y : Bytes}, v.infer = .ok s →
    s ++ x = t.render ++ y → s = t.render ∧ x = y ∧ v.HasForm t
  | .scalar u, t, s, x, y, h, hs => by
    have hcode := code_of_infer h hs
    cases t with
    | basic b =>
      obtain rfl : BasicCode.fixed u.code = b := by simpa [code, Ty.code] using hcode
      cases h
      exact ⟨rfl, List.append_cancel_left hs, .scalar u⟩
    | _ => simp [code, Ty.code] at hcode
  | .text c u, t, s, x, y, h, hs => by
    have hcode := code_of_infer h hs
    cases t with
    | basic b =>
      obtain rfl : BasicCode.text c = b := by simpa [code, Ty.code] using hcode
      cases h
      exact ⟨rfl, List.append_cancel_left hs, .text c u⟩
    | _ => simp [code, Ty.code] at hcode
  | .array vs, t, s, x, y, h, hs => by
    have hcode := code_of_infer h hs
    cases t with
    | array t =>
      simp only [infer, bind_eq_ok, pure_eq_ok] at h
      obtain ⟨e, he, rfl⟩ := h
      rw [Ty.render, List.cons_append, List.cons_append, List.cons.injEq] at hs
      obtain ⟨hne, hall⟩ := inferElement_eq_ok_iff.mp he
      obtain ⟨rfl, rfl, hitems⟩ := hasForm_of_inferItems vs hne hall hs.2
      exact ⟨rfl, rfl, .array hitems⟩
    | _ => simp [code, Ty.code] at hcode
  | .struct vs, t, s, x, y, h, hs => by
    have hcode := code_of_infer h hs
    cases t with
    | struct ts =>
      simp only [infer, bind_eq_ok, pure_eq_ok] at h
      obtain ⟨e, he, rfl⟩ := h
      rw [Ty.render, List.cons_append, List.cons_append, List.cons.injEq, List.append_assoc,
        List.append_assoc] at hs
      obtain ⟨rfl, rfl, hlen, hfields⟩ := hasForm_of_inferFields vs he hs.2
      exact ⟨rfl, rfl, .struct hlen hfields⟩
    | _ => simp [code, Ty.code] at hcode
  | .dictEntry key value, t, s, x, y, h, hs => by
    have hcode := code_of_infer h hs
    cases t with
    | dictEntry k t =>
      simp only [infer, bind_eq_ok, pure_eq_ok] at h
      obtain ⟨a, ha, b, hb, rfl⟩ := h
      have hrender : (Ty.dictEntry k t).render =
          TypeCode.dictEntry.byte :: ((Ty.basic k).render ++ (t.render ++ [Ty.entryEnd])) := rfl
      rw [hrender, List.cons_append, List.cons_append, List.cons.injEq] at hs
      simp only [List.append_assoc] at hs
      obtain ⟨rfl, hrest, hkey⟩ := hasForm_of_infer key ha hs.2
      obtain ⟨rfl, hend, hvalue⟩ := hasForm_of_infer value hb hrest
      rw [hrender, List.append_assoc]
      exact ⟨rfl, (List.cons.inj hend).2, .dictEntry hkey hvalue⟩
    | _ => simp [code, Ty.code] at hcode
  | .variant a v, t, s, x, y, h, hs => by
    have hcode := code_of_infer h hs
    cases t with
    | variant =>
      cases h
      exact ⟨rfl, List.append_cancel_left hs, .variant a v⟩
    | _ => simp [code, Ty.code] at hcode

/-- The items of an array are of the form if the signature of each is rendered of the type. -/
theorem hasForm_of_inferItems : ∀ (vs : List Value) {t : Ty} {s x y : Bytes}, vs ≠ [] →
    (∀ v ∈ vs, v.infer = .ok s) → s ++ x = t.render ++ y →
      s = t.render ∧ x = y ∧ ∀ v ∈ vs, v.HasForm t
  | v :: vs, t, s, x, y, _, h, hs => by
    rw [List.forall_mem_cons] at h
    obtain ⟨rfl, rfl, hv⟩ := hasForm_of_infer v h.1 hs
    refine ⟨rfl, rfl, List.forall_mem_cons.mpr ⟨hv, ?_⟩⟩
    cases vs with
    | nil => simp
    | cons w ws => exact (hasForm_of_inferItems (w :: ws) (List.cons_ne_nil w ws) h.2 hs).2.2

/-- The fields of a struct are of the forms of their types. The closing bracket tells where they
end. -/
theorem hasForm_of_inferFields : ∀ (vs : List Value) {ts : List Ty} {s x y : Bytes},
    inferFields vs = .ok s → s ++ Ty.structEnd :: x = Ty.renderAll ts ++ Ty.structEnd :: y →
      s = Ty.renderAll ts ∧ x = y ∧ vs.length = ts.length ∧ ∀ p ∈ vs.zip ts, p.1.HasForm p.2
  | v :: vs, ts, s, x, y, h, hs => by
    obtain ⟨t, us, rfl⟩ := renderAll_ne_nil_of_inferFields h hs
    obtain ⟨a, ha, hrest⟩ := inferFields_cons_eq_ok_iff.mp h
    rw [Ty.renderAll, List.append_assoc] at hs
    rcases hrest with ⟨rfl, rfl⟩ | ⟨b, hb, rfl⟩
    · obtain ⟨rfl, hend, hv⟩ := hasForm_of_infer v ha hs
      cases us with
      | nil =>
        rw [Ty.renderAll, List.nil_append, List.cons.injEq] at hend
        exact ⟨by simp [Ty.renderAll], hend.2, rfl, by simpa using hv⟩
      | cons u us =>
        obtain ⟨bs, hu⟩ := u.render_eq_cons
        rw [Ty.renderAll, hu, List.cons_append, List.cons_append, List.cons.injEq] at hend
        exact absurd hend.1.symm (TypeCode.byte_ne_structEnd _)
    · rw [List.append_assoc] at hs
      obtain ⟨rfl, hend, hv⟩ := hasForm_of_infer v ha hs
      obtain ⟨rfl, rfl, hlen, hvs⟩ := hasForm_of_inferFields vs hb hend
      refine ⟨rfl, rfl, by simp [hlen], ?_⟩
      rw [List.zip_cons_cons, List.forall_mem_cons]
      exact ⟨hv, hvs⟩

end

/-- An argument is inferred if the signature that is inferred is one of a valid type. -/
theorem inferArgument_eq_ok_iff {a : Argument} :
    v.inferArgument = .ok a ↔ a.ty.Valid ∧ a.name = none ∧ v.infer = .ok a.ty.render := by
  simp only [inferArgument, bind_eq_ok, Argument.ofSignature_eq_ok_iff,
    Ty.parseType_eq_ok_iff_valid]
  constructor
  · rintro ⟨s, hs, t, ⟨ht, rfl⟩, rfl⟩
    exact ⟨ht, rfl, hs⟩
  · obtain ⟨t, name⟩ := a
    rintro ⟨ht, rfl, hs⟩
    exact ⟨_, hs, t, ⟨ht, rfl⟩, rfl⟩

/-- A value whose variants are of the types that they state is of the type that is inferred. -/
theorem hasType_of_infer (hv : v.Consistent) (h : v.infer = .ok t.render) : v.HasType t :=
  (hasForm_of_infer v (x := []) (y := []) h rfl).2.2.hasType hv

end Value

end DBus

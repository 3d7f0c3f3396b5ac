import DBus.Proofs.Measure
import DBus.Proofs.Serializing

/-!
# Values with a type of their own

A value is `Inferable` at a type if the type is the one that is inferred for it, and the value is
one that a body can hold. Signatures do not go through variants, and so the type is nested less
deep than the value is. Both are counted in the levels of the data that the value is made from : a
level of data adds at most one level to the type, and three to the value, since an entry of a
dictionary is within an array, and its contents within a variant.
-/

namespace DBus

namespace Value

/-- The type is inferred for the value, and both are nested as deep as those that are made of `n`
levels of data. -/
structure Inferable (v : Value) (t : Ty) (n : Nat) : Prop where
  infer : v.infer = .ok t.render
  formed : t.Formed false n n
  wellFormed : v.WellFormed t (3 * n)

/-- The value is a variant that can be part of what is made of one level more. -/
structure Boxed (w : Value) (n : Nat) : Prop where
  variant : w.code = .variant
  wellFormed : w.WellFormed .variant (3 * n + 1)

variable {v w : Value} {vs : List Value} {t : Ty} {ts : List Ty} {n : Nat}

/-- The type of a variant is inferred without looking into it. -/
theorem Boxed.infer (h : w.Boxed n) : w.infer = .ok Ty.variant.render := by
  have hcode := h.variant
  cases w with
  | variant a v => rfl
  | _ => cases hcode

namespace Inferable

theorem scalar (s : Scalar) (n : Nat) : (Value.scalar s).Inferable (.fixed s.code) n :=
  ⟨rfl, .basic _, .scalar s⟩

theorem ofString {s : String} (hs : 0 ∉ utf8 s) (n : Nat) :
    (Value.ofString s).Inferable (.text .string) n :=
  ⟨rfl, .basic _, .text ⟨hs, rfl⟩⟩

theorem infer_array (hne : vs ≠ []) (h : ∀ v ∈ vs, v.infer = .ok t.render) :
    (Value.array vs).infer = .ok (Ty.array t).render := by
  have helement := inferElement_eq_ok_iff.mpr ⟨hne, h⟩
  simp only [Value.infer, helement]
  rfl

/-- An array is inferable if its items are, at one type. -/
theorem array (hne : vs ≠ []) (h : ∀ v ∈ vs, v.Inferable t n) :
    (Value.array vs).Inferable (.array t) (n + 1) where
  infer := infer_array hne fun v hv => (h v hv).infer
  formed := by
    obtain ⟨v, hv⟩ := List.exists_mem_of_ne_nil vs hne
    exact .array ((h v hv).formed.mono (Nat.le_refl n) (Nat.le_succ n)).element
  wellFormed := (WellFormed.array fun v hv => (h v hv).wellFormed).mono (by omega)

theorem inferFields_eq (hne : vs ≠ []) (hlen : vs.length = ts.length)
    (h : ∀ q ∈ vs.zip ts, q.1.infer = .ok q.2.render) :
    inferFields vs = .ok (Ty.renderAll ts) := by
  induction vs generalizing ts with
  | nil => exact absurd rfl hne
  | cons v vs ih =>
    cases ts with
    | nil => cases hlen
    | cons t ts =>
      rw [List.zip_cons_cons, List.forall_mem_cons] at h
      refine inferFields_cons_eq_ok_iff.mpr ⟨t.render, h.1, ?_⟩
      cases vs with
      | nil =>
        obtain rfl : ts = [] := List.eq_nil_of_length_eq_zero (Nat.succ.inj hlen).symm
        exact .inl ⟨rfl, by simp [Ty.renderAll]⟩
      | cons w ws => exact .inr ⟨_, ih nofun (Nat.succ.inj hlen) h.2, rfl⟩

/-- A struct is inferable if its fields are. -/
theorem struct (hne : vs ≠ []) (hlen : vs.length = ts.length)
    (h : ∀ q ∈ vs.zip ts, q.1.Inferable q.2 n) :
    (Value.struct vs).Inferable (.struct ts) (n + 1) where
  infer := by
    have hfields := inferFields_eq hne hlen fun q hq => (h q hq).infer
    simp only [Value.infer, hfields]
    rfl
  formed := by
    have hts : ts ≠ [] := by
      rintro rfl
      exact hne (List.eq_nil_of_length_eq_zero hlen)
    refine .struct hts fun t ht => ?_
    obtain ⟨v, hv⟩ := exists_mem_zip_right hlen ht
    exact (h _ hv).formed.mono (Nat.le_succ n) (Nat.le_refl n)
  wellFormed := (WellFormed.struct hlen fun q hq => (h q hq).wellFormed).mono (by omega)

/-- Values that the same type is inferred for have it in common. -/
theorem exists_array {s : Bytes} (hne : vs ≠ []) (hs : ∀ v ∈ vs, v.infer = .ok s)
    (h : ∀ v ∈ vs, ∃ t, v.Inferable t n) : ∃ t, (Value.array vs).Inferable (.array t) (n + 1) := by
  obtain ⟨v, hv⟩ := List.exists_mem_of_ne_nil vs hne
  obtain ⟨t, ht⟩ := h v hv
  refine ⟨t, array hne fun w hw => ?_⟩
  obtain ⟨u, hu⟩ := h w hw
  have hrender : u.render = t.render := by
    rw [← Except.ok.injEq, ← hu.infer, ← ht.infer, hs w hw, hs v hv]
  rwa [Ty.render_inj hrender] at hu

/-- A struct is inferable at some type if each of its fields is. -/
theorem exists_struct (hne : vs ≠ []) (h : ∀ v ∈ vs, ∃ t, v.Inferable t n) :
    ∃ ts, (Value.struct vs).Inferable (.struct ts) (n + 1) := by
  have htypes : ∃ ts : List Ty, vs.length = ts.length ∧ ∀ q ∈ vs.zip ts, q.1.Inferable q.2 n := by
    clear hne
    induction vs with
    | nil => exact ⟨[], rfl, nofun⟩
    | cons v vs ih =>
      obtain ⟨⟨t, ht⟩, hvs⟩ := List.forall_mem_cons.mp h
      obtain ⟨ts, hlen, hts⟩ := ih hvs
      exact ⟨t :: ts, congrArg _ hlen, List.forall_mem_cons.mpr ⟨ht, hts⟩⟩
  obtain ⟨ts, hlen, hts⟩ := htypes
  exact ⟨ts, struct hne hlen hts⟩

/-- An array of variants is inferable, whatever is in them. -/
theorem variants (hne : vs ≠ []) (h : ∀ w ∈ vs, w.Boxed n) :
    (Value.array vs).Inferable (.array .variant) (n + 1) where
  infer := infer_array hne fun w hw => (h w hw).infer
  formed := .array .variant
  wellFormed := (WellFormed.array fun w hw => (h w hw).wellFormed).mono (by omega)

/-- The entries of a dictionary have names for keys, and variants for values. -/
theorem entries (hne : vs ≠ [])
    (h : ∀ v ∈ vs, ∃ s w, v = .dictEntry (.ofString s) w ∧ 0 ∉ utf8 s ∧ w.Boxed n) :
    (Value.array vs).Inferable (.array (.dictEntry (.text .string) .variant)) (n + 1) where
  infer := by
    refine infer_array hne fun v hv => ?_
    obtain ⟨s, w, rfl, -, hw⟩ := h v hv
    simp only [Value.infer, Value.ofString, hw.infer]
    rfl
  formed := .array (.dictEntry _ .variant)
  wellFormed := by
    refine (WellFormed.array (d := 3 * n + 2) fun v hv => ?_).mono (by omega)
    obtain ⟨s, w, rfl, hs, hw⟩ := h v hv
    exact .dictEntry (.text ⟨hs, rfl⟩) hw.wellFormed

variable (h : v.Inferable t n) (hn : n ≤ maxTypeDepth)
  (hlen : t.render.length ≤ maxSignatureLength)

include h

theorem ne_emptyArray : v ≠ .array [] := by
  rintro rfl
  cases h.infer

theorem isNothing_eq_false : v.isNothing = false := by
  cases v with
  | struct vs =>
    cases vs with
    | nil => cases h.infer
    | cons v vs => rfl
  | _ => rfl

include hn hlen

/-- A type that is not nested too deep and has a short signature is valid. -/
theorem valid : t.Valid := Ty.valid_iff.mpr ⟨hlen, h.formed.mono hn hn⟩

/-- The type that is found for the data is the inferred one. -/
theorem dataArgument : v.dataArgument = .ok ⟨t, none⟩ :=
  dataArgument_eq_ok_iff.mpr (.inr ⟨h.ne_emptyArray,
    inferArgument_eq_ok_iff.mpr ⟨h.valid hn hlen, rfl, h.infer⟩⟩)

end Inferable

/-! ## Without a type -/

/-- The empty array counts as one of variants. -/
theorem emptyArray_wellFormed (d : Nat) :
    (Value.array []).WellFormed (.array .variant) (d + 1) :=
  .array nofun

theorem dataArgument_eq_error {e : Error} (hne : v ≠ .array []) (h : v.infer = .error e) :
    v.dataArgument = .error e := by
  have hinfer : v.dataArgument = v.inferArgument := by
    unfold dataArgument
    split
    · exact absurd rfl hne
    · rfl
  rw [hinfer, inferArgument, h]
  rfl

/-- The types of fields are inferred one by one. -/
theorem inferFields_eq_error {e : Error}
    (h : ∀ v ∈ vs, (∃ s, v.infer = .ok s) ∨ v.infer = .error e)
    (hex : ∃ v ∈ vs, v.infer = .error e) : inferFields vs = .error e := by
  induction vs with
  | nil =>
    obtain ⟨v, hv, -⟩ := hex
    cases hv
  | cons v vs ih =>
    obtain ⟨hv, hvs⟩ := List.forall_mem_cons.mp h
    cases vs with
    | nil =>
      obtain ⟨w, hw, he⟩ := hex
      rwa [inferFields, ← List.mem_singleton.mp hw]
    | cons w ws =>
      rw [inferFields]
      rcases hv with ⟨s, hs⟩ | he
      · have hex : ∃ u ∈ w :: ws, u.infer = .error e := by
          obtain ⟨u, hu, he⟩ := hex
          rcases List.mem_cons.mp hu with rfl | hu
          · rw [hs] at he
            cases he
          · exact ⟨u, hu, he⟩
        rw [hs, ih hvs hex]
        rfl
      · rw [he]
        rfl
      · intro h
        cases h

/-- Values have a type in common if the same one is inferred for all of them. -/
theorem haveElementType_iff :
    haveElementType vs = true ↔ vs = [] ∨ ∃ s, ∀ v ∈ vs, v.infer = .ok s := by
  cases vs with
  | nil => simp [haveElementType]
  | cons v vs =>
    rw [haveElementType]
    cases hv : v.infer with
    | error e => simp [hv]
    | ok s =>
      have hright : (v :: vs = [] ∨ ∃ s, ∀ u ∈ v :: vs, u.infer = .ok s) ↔
          ∀ u ∈ vs, u.infer = .ok s := by simp [hv]
      rw [hright]
      simp only [List.all_eq_true]
      refine forall₂_congr fun u _ => ?_
      cases u.infer <;> simp

/-! ## Messages -/

/-- A well-formed value of the type of a message is written to it if it ends soon enough. -/
theorem WellFormed.exists_toMessage {a : Argument} {k : Nat} (h : v.WellFormed a.ty k)
    (hk : k ≤ maxNesting) (ha : v.dataArgument = .ok a) (hvalid : a.ty.Valid)
    (hend : v.endAs a.ty 0 ≤ maxArrayLength) : ∃ m, v.toMessage = .ok m := by
  have hcode : a.ty.code = .dictEntry → (Writer.top .little).records = false := fun hcode =>
    absurd hcode hvalid.code_ne_dictEntry
  have hwrite : ∃ m, (({} : Marshaller).writeValue a.ty v (.top .little)).run {} = .ok () m ∧ _ :=
    Marshaller.exists_writeValue rfl hcode (h.mono hk) hend
  obtain ⟨m, hm, -⟩ := hwrite
  rw [EStateM.run] at hm
  exact ⟨m, by rw [toMessage, ha, ok_bind, hm]; rfl⟩

end Value

end DBus

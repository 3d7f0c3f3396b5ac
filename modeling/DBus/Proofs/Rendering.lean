import DBus.Reader

/-!
# Rendered types

A signature is read from the left without looking ahead : no rendered type is the beginning of
another one (`Ty.render_append_inj`), and no rendered list of types goes on with the closing
bracket of a struct (`Ty.renderAll_append_inj`). So a type is told by its signature
(`Ty.render_inj`).

The two readers that look at a signature without parsing it agree with the rendering. The scan
by brackets takes exactly one type off the front (`typeWidth?_render`), and the text of a
signature encodes to the bytes it was made of (`Ty.utf8_signature`).
-/

namespace DBus

/-! ## Codes and brackets -/

namespace TypeCode

/-- A code is told by its byte. -/
theorem byte_inj {c d : TypeCode} (h : c.byte = d.byte) : c = d := by
  have hc := ofByte?_byte c
  rw [h, ofByte?_byte, Option.some.injEq] at hc
  exact hc.symm

/-- No code is the closing bracket of a struct. -/
theorem byte_ne_structEnd (c : TypeCode) : c.byte ≠ Ty.structEnd := by
  intro h
  have hc := ofByte?_byte c
  rw [h, show ofByte? Ty.structEnd = none by decide] at hc
  simp at hc

theorem byte_ne_entryEnd (c : TypeCode) : c.byte ≠ Ty.entryEnd := by
  intro h
  have hc := ofByte?_byte c
  rw [h, show ofByte? Ty.entryEnd = none by decide] at hc
  simp at hc

/-- Codes are ASCII. -/
theorem byte_lt (c : TypeCode) : c.byte < 128 := by
  have h : ∀ c ∈ all, c.byte < 128 := by decide
  exact h c c.mem_all

end TypeCode

namespace Ty

/-! ## The first byte -/

/-- A rendered type starts with the code of its outermost type. -/
theorem render_eq_cons (t : Ty) : ∃ bs, t.render = t.code.byte :: bs := by
  cases t <;> simp [render, code]

/-- No type is rendered as nothing. -/
theorem length_render_pos (t : Ty) : 0 < t.render.length := by
  obtain ⟨bs, ht⟩ := t.render_eq_cons
  simp [ht]

/-- Lists of types are rendered one behind the other. -/
theorem renderAll_append (ss ts : List Ty) :
    renderAll (ss ++ ts) = renderAll ss ++ renderAll ts := by
  induction ss with
  | nil => rfl
  | cons s ss ih => simp [renderAll, ih]

/-- Each type of a list takes up a part of the rendering of all. -/
theorem length_render_le {t : Ty} {ts : List Ty} (h : t ∈ ts) :
    t.render.length ≤ (renderAll ts).length := by
  obtain ⟨front, back, rfl⟩ := List.append_of_mem h
  simp only [renderAll_append, renderAll, List.length_append]
  omega

theorem renderAll_eq_flatten (ts : List Ty) : renderAll ts = (ts.map render).flatten := by
  induction ts with
  | nil => rfl
  | cons t ts ih => simp [renderAll, ih]

/-- Renderings that start alike are of types with the same code. -/
theorem code_eq_of_render_append {s t : Ty} {x y : Bytes}
    (h : s.render ++ x = t.render ++ y) : s.code = t.code := by
  obtain ⟨bs, hs⟩ := s.render_eq_cons
  obtain ⟨cs, ht⟩ := t.render_eq_cons
  rw [hs, ht, List.cons_append, List.cons_append, List.cons.injEq] at h
  exact TypeCode.byte_inj h.1

/-! ## Unique reading -/

mutual

/-- No rendered type is the beginning of another one. -/
theorem render_append_inj :
    ∀ (s t : Ty) {x y : Bytes}, s.render ++ x = t.render ++ y → s = t ∧ x = y
  | basic c, t, x, y, h => by
    have hc := code_eq_of_render_append h
    cases t with
    | basic d =>
      obtain rfl : c = d := by simpa [code] using hc
      simpa [render] using h
    | _ => simp [code] at hc
  | variant, t, x, y, h => by
    have hc := code_eq_of_render_append h
    cases t with
    | variant => simpa [render] using h
    | _ => simp [code] at hc
  | array s, t, x, y, h => by
    have hc := code_eq_of_render_append h
    cases t with
    | array t =>
      obtain ⟨rfl, hxy⟩ := render_append_inj s t (x := x) (y := y) (by simpa [render] using h)
      exact ⟨rfl, hxy⟩
    | _ => simp [code] at hc
  | struct ss, t, x, y, h => by
    have hc := code_eq_of_render_append h
    cases t with
    | struct ts =>
      obtain ⟨rfl, hxy⟩ := renderAll_append_inj ss ts (x := x) (y := y) (by simpa [render] using h)
      exact ⟨rfl, hxy⟩
    | _ => simp [code] at hc
  | dictEntry k s, t, x, y, h => by
    have hc := code_eq_of_render_append h
    cases t with
    | dictEntry l t =>
      simp only [render, List.cons_append, List.append_assoc, List.cons.injEq, true_and] at h
      obtain rfl : k = l := by simpa using TypeCode.byte_inj h.1
      obtain ⟨rfl, hxy⟩ := render_append_inj s t h.2
      exact ⟨rfl, by simpa using hxy⟩
    | _ => simp [code] at hc

/-- The closing bracket of a struct tells where its fields end. -/
theorem renderAll_append_inj : ∀ (ss ts : List Ty) {x y : Bytes},
    renderAll ss ++ structEnd :: x = renderAll ts ++ structEnd :: y → ss = ts ∧ x = y
  | [], [], x, y, h => by simpa [renderAll] using h
  | [], t :: ts, x, y, h => by
    obtain ⟨bs, ht⟩ := t.render_eq_cons
    simp [renderAll, ht, (TypeCode.byte_ne_structEnd _).symm] at h
  | s :: ss, [], x, y, h => by
    obtain ⟨bs, hs⟩ := s.render_eq_cons
    simp [renderAll, hs, TypeCode.byte_ne_structEnd] at h
  | s :: ss, t :: ts, x, y, h => by
    simp only [renderAll, List.append_assoc] at h
    obtain ⟨rfl, hr⟩ := render_append_inj s t h
    obtain ⟨rfl, hxy⟩ := renderAll_append_inj ss ts hr
    exact ⟨rfl, hxy⟩

end

/-- A type is told by its rendering. -/
theorem render_inj {s t : Ty} (h : s.render = t.render) : s = t :=
  (render_append_inj s t (x := []) (y := []) (by rw [h])).1

/-- A list of types is told by its rendering. -/
theorem renderAll_inj {ss ts : List Ty} (h : renderAll ss = renderAll ts) : ss = ts :=
  (renderAll_append_inj ss ts (x := []) (y := []) (by rw [h])).1

/-! ## Brackets -/

/-- The code of an array is one byte in front of the type of the items. -/
theorem typeWidth?_array (nesting : Nat) (bs : Bytes) :
    typeWidth? nesting (TypeCode.array.byte :: bs) = (typeWidth? nesting bs).map (· + 1) := by
  rw [typeWidth?, if_pos rfl]

/-- An opening bracket takes the scan inside. -/
theorem typeWidth?_open {b : UInt8} (hb : b = TypeCode.struct.byte ∨ b = TypeCode.dictEntry.byte)
    (nesting : Nat) (bs : Bytes) :
    typeWidth? nesting (b :: bs) = (typeWidth? (nesting + 1) bs).map (· + 1) := by
  rcases hb with rfl | rfl <;> rw [typeWidth?] <;> exact if_neg (by decide)

/-- A closing bracket ends the type that was opened first, or takes the scan out by one. -/
theorem typeWidth?_close {b : UInt8} (hb : b = structEnd ∨ b = entryEnd) (nesting : Nat)
    (bs : Bytes) : typeWidth? (nesting + 1) (b :: bs) =
      if nesting = 0 then some 1 else (typeWidth? nesting bs).map (· + 1) := by
  rcases hb with rfl | rfl <;> rw [typeWidth?] <;> exact if_neg (by decide)

/-- A code without contents is a whole type, unless brackets are open. -/
theorem typeWidth?_leaf {c : TypeCode} (ha : c ≠ .array) (hs : c ≠ .struct)
    (hd : c ≠ .dictEntry) (nesting : Nat) (bs : Bytes) :
    typeWidth? nesting (c.byte :: bs) =
      if nesting = 0 then some 1 else (typeWidth? nesting bs).map (· + 1) := by
  have ha : c.byte ≠ TypeCode.array.byte := fun h => ha (TypeCode.byte_inj h)
  have hs : c.byte ≠ TypeCode.struct.byte := fun h => hs (TypeCode.byte_inj h)
  have hd : c.byte ≠ TypeCode.dictEntry.byte := fun h => hd (TypeCode.byte_inj h)
  simp [typeWidth?, ha, hs, hd, c.byte_ne_structEnd, c.byte_ne_entryEnd]

mutual

/-- The first type of a signature ends where its brackets do. Inside other brackets the scan
goes on behind it. -/
theorem typeWidth?_render : ∀ (nesting : Nat) (t : Ty) (rest : Bytes),
    typeWidth? nesting (t.render ++ rest) =
      if nesting = 0 then some t.render.length
      else (typeWidth? nesting rest).map (· + t.render.length)
  | nesting, basic c, rest => by
    simpa [render] using typeWidth?_leaf (c := .basic c) nofun nofun nofun nesting rest
  | nesting, variant, rest => by
    simpa [render] using typeWidth?_leaf (c := .variant) nofun nofun nofun nesting rest
  | nesting, array e, rest => by
    rw [render, List.cons_append, typeWidth?_array, typeWidth?_render]
    split <;> simp [Option.map_map, Function.comp_def, Nat.add_assoc]
  | nesting, struct ts, rest => by
    rw [render, List.cons_append, typeWidth?_open (.inl rfl), List.append_assoc,
      typeWidth?_renderAll, List.singleton_append, typeWidth?_close (.inl rfl)]
    split <;> simp [Option.map_map, Function.comp_def, Nat.add_assoc, Nat.add_left_comm,
      Nat.add_comm]
  | nesting, dictEntry k t, rest => by
    rw [render, List.cons_append, typeWidth?_open (.inr rfl), List.cons_append,
      typeWidth?_leaf (c := .basic k) nofun nofun nofun, if_neg (by omega), List.append_assoc,
      typeWidth?_render, if_neg (by omega), List.singleton_append, typeWidth?_close (.inr rfl)]
    split <;> simp [Option.map_map, Function.comp_def, Nat.add_assoc, Nat.add_left_comm,
      Nat.add_comm]

/-- Inside of brackets the scan passes one type after the other. -/
theorem typeWidth?_renderAll : ∀ (nesting : Nat) (ts : List Ty) (rest : Bytes),
    typeWidth? (nesting + 1) (renderAll ts ++ rest) =
      (typeWidth? (nesting + 1) rest).map (· + (renderAll ts).length)
  | nesting, [], rest => by simp [renderAll]
  | nesting, t :: ts, rest => by
    rw [renderAll, List.append_assoc, typeWidth?_render, if_neg (by omega),
      typeWidth?_renderAll, Option.map_map]
    congr 1
    funext n
    simp
    omega

end

/-! ## Signatures as texts -/

mutual

/-- Renderings are ASCII. -/
theorem byte_lt_of_mem_render : ∀ (t : Ty), ∀ b ∈ t.render, b < 128
  | basic c, b, h => by
    rw [List.mem_singleton.mp h]
    exact TypeCode.byte_lt _
  | variant, b, h => by
    rw [List.mem_singleton.mp h]
    exact TypeCode.byte_lt _
  | array e, b, h => by
    rcases List.mem_cons.mp h with rfl | h
    · exact TypeCode.byte_lt _
    · exact byte_lt_of_mem_render e b h
  | struct ts, b, h => by
    rcases List.mem_cons.mp h with rfl | h
    · exact TypeCode.byte_lt _
    · rcases List.mem_append.mp h with h | h
      · exact byte_lt_of_mem_renderAll ts b h
      · rw [List.mem_singleton.mp h]
        decide
  | dictEntry k t, b, h => by
    rcases List.mem_cons.mp h with rfl | h
    · exact TypeCode.byte_lt _
    rcases List.mem_cons.mp h with rfl | h
    · exact TypeCode.byte_lt _
    · rcases List.mem_append.mp h with h | h
      · exact byte_lt_of_mem_render t b h
      · rw [List.mem_singleton.mp h]
        decide

theorem byte_lt_of_mem_renderAll : ∀ (ts : List Ty), ∀ b ∈ renderAll ts, b < 128
  | [], b, h => by simp [renderAll] at h
  | t :: ts, b, h => by
    rcases List.mem_append.mp h with h | h
    · exact byte_lt_of_mem_render t b h
    · exact byte_lt_of_mem_renderAll ts b h

end

end Ty

/-- A text is encoded character by character. -/
theorem utf8_ofList (cs : List Char) :
    utf8 (String.ofList cs) = cs.flatMap String.utf8EncodeChar := by
  simp [utf8, List.utf8Encode]

/-- The encoding of an ASCII character is its byte. -/
theorem utf8EncodeChar_of_lt {b : UInt8} (h : b < 128) :
    String.utf8EncodeChar (Char.ofNat b.toNat) = [b] := by
  have hb : b.toNat < 128 := h
  have hv : (Char.ofNat b.toNat).val.toNat = b.toNat := by
    have hvalid : b.toNat.isValidChar := Or.inl (by omega)
    rw [Char.ofNat, dif_pos hvalid]
    rfl
  simp only [String.utf8EncodeChar, hv]
  rw [if_pos (by omega), UInt8.ofNat_toNat]

/-- The text of ASCII bytes encodes to the same bytes. -/
theorem utf8_asciiText {bs : Bytes} (h : ∀ b ∈ bs, b < 128) : utf8 (asciiText bs) = bs := by
  rw [asciiText, utf8_ofList]
  induction bs with
  | nil => rfl
  | cons b bs ih =>
    rw [List.map_cons, List.flatMap_cons, ih fun c hc => h c (by simp [hc]),
      utf8EncodeChar_of_lt (h b (by simp)), List.singleton_append]

/-- The signature of a type as a text has the bytes of its rendering. -/
theorem Ty.utf8_signature (t : Ty) : utf8 t.signature = t.render :=
  utf8_asciiText t.byte_lt_of_mem_render

end DBus

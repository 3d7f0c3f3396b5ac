import DBus.Proofs.Extent
import DBus.Proofs.NodeLinks

/-!
# Ends of types by brackets

A cursor does not parse its signature. It finds the end of a type by its brackets, without telling
the kinds of them apart, and the parser knows the type itself. From every place where one of the
parsed types starts, however deep, the two come to the same end
(`Ty.StartsAt.typeEnd_eq`), in the whole signature and in each part of it that a cursor has as
its own (`Ty.Row`).

So the tree of types can be taken along with a cursor, although the cursor has only bytes
(`Reader.Walks`). The current signature is then that of the type in the tree, and the signature
inside of a container is that of the types inside of it.
-/

namespace DBus

namespace Ty

variable {ts us vs : List Ty} {t u : Ty} {i : Nat}

/-! ## Places of types -/

/-- The types stand side by side, at the top or inside of one type. A cursor there has just their
signature. -/
inductive Row (ts : List Ty) : List Ty → Prop
  | top : Row ts ts
  | inside {us : List Ty} {u : Ty} : Row ts us → u ∈ us → Row ts u.children

/-- A type starts at a place of the signature of `ts`, at any depth. What is inside of a type
comes after its code. -/
inductive StartsAt (ts : List Ty) : Nat → Ty → Prop
  | here (front back : List Ty) {t : Ty} : ts = front ++ t :: back →
      StartsAt ts (renderAll front).length t
  | inside (front back : List Ty) {i : Nat} {t u : Ty} : StartsAt ts i t →
      t.children = front ++ u :: back → StartsAt ts (i + 1 + (renderAll front).length) u

/-- A type starts where the rest of the signature begins with it. -/
theorem StartsAt.exists_drop_eq (h : StartsAt ts i t) :
    ∃ rest, (renderAll ts).drop i = t.render ++ rest := by
  induction h with
  | @here front back t hts =>
    refine ⟨renderAll back, ?_⟩
    rw [hts, renderAll_append, List.drop_left, renderAll]
  | @inside front back i t u _ hchildren ih =>
    obtain ⟨rest, hrest⟩ := ih
    obtain ⟨close, hrender, -⟩ := t.exists_render_eq
    have hdrop : (renderAll ts).drop i = (t.code.byte :: renderAll front) ++
        (u.render ++ (renderAll back ++ close ++ rest)) := by
      rw [hrest, hrender, hchildren, renderAll_append, renderAll]
      simp only [List.cons_append, List.append_assoc]
    have hinside := Reader.drop_add_of_drop hdrop
    rw [List.length_cons, Nat.add_comm _ 1, ← Nat.add_assoc] at hinside
    exact ⟨_, hinside⟩

/-- Counting brackets comes to the end of the type. -/
theorem StartsAt.typeEnd_eq (h : StartsAt ts i t) :
    typeEnd (renderAll ts) i = .ok (i + t.render.length) := by
  obtain ⟨rest, hrest⟩ := h.exists_drop_eq
  exact Reader.typeEnd_of_drop hrest

/-- The bytes up to the end of a type are its rendering. -/
theorem StartsAt.text_eq (h : StartsAt ts i t) :
    ((renderAll ts).take (i + t.render.length)).drop i = t.render := by
  obtain ⟨rest, hrest⟩ := h.exists_drop_eq
  exact Reader.drop_take_of_drop hrest

/-! ## Types of a signature -/

/-- What is inside of something inside is inside. -/
theorem Row.trans (h : Row ts us) (h' : Row us vs) : Row ts vs := by
  induction h' with
  | top => exact h
  | inside _ hu ih => exact .inside ih hu

theorem StartsAt.exists_row (h : StartsAt ts i t) : ∃ us, Row ts us ∧ t ∈ us := by
  induction h with
  | here _ _ hts => exact ⟨ts, .top, by simp [hts]⟩
  | inside _ _ _ hchildren ih =>
    obtain ⟨us, hus, ht⟩ := ih
    exact ⟨_, .inside hus ht, by simp [hchildren]⟩

/-- What is inside of valid types is valid, but for dict entries. -/
theorem Row.valid (h : Row ts us) (hts : ∀ t ∈ ts, t.Valid) (hu : u ∈ us)
    (hcode : u.code ≠ .dictEntry) : u.Valid := by
  have hall : ∀ u ∈ us, u.render.length ≤ maxSignatureLength ∧
      u.Formed true maxTypeDepth maxTypeDepth := by
    clear hu
    induction h with
    | top =>
      intro t ht
      obtain ⟨hlen, hcomplete⟩ := valid_iff.mp (hts t ht)
      exact ⟨hlen, hcomplete.element⟩
    | @inside us t _ ht ih =>
      intro u hu
      obtain ⟨hlen, hformed⟩ := ih t ht
      exact ⟨Nat.le_trans (length_render_child_le hu) hlen, hformed.of_mem_children hu⟩
  obtain ⟨hlen, hformed⟩ := hall u hu
  exact valid_iff.mpr ⟨hlen, hformed.complete hcode⟩

/-- All types inside of valid ones are regular. -/
theorem Row.regular (h : Row ts us) (hts : ∀ t ∈ ts, t.Valid) : ∀ u ∈ us, u.Regular := by
  induction h with
  | top => exact fun t ht => (hts t ht).regular
  | inside _ ht ih => exact fun u hu => (ih _ ht).of_mem_children hu

/-- A dict entry is the element of a valid array. -/
theorem Row.valid_array (h : Row ts us) (hts : ∀ t ∈ ts, t.Valid) (hu : u ∈ us)
    (hcode : u.code = .dictEntry) : (array u).Valid := by
  cases h with
  | top => exact absurd hcode (hts u hu).code_ne_dictEntry
  | @inside us t h ht =>
    have harray := (h.regular hts t ht).code_of_mem_children hu hcode
    cases t with
    | array e =>
      obtain rfl := List.mem_singleton.mp hu
      exact h.valid hts ht nofun
    | _ => cases harray

end Ty

/-! ## Cursors with their types -/

namespace Reader

variable {r s : Reader} {ts us : List Ty} {t u : Ty} {k : Nat} {more : Bool}

/-- `k` moves, none of which fails, take the cursor `r` to the other one. -/
inductive Moved (r : Reader) : Nat → Reader → Prop
  | none : Moved r 0 r
  | next {k : Nat} {s s' : Reader} {more : Bool} : Moved r k s → s.next = (.ok more, s') →
      Moved r (k + 1) s'

/-- The cursor is had from the message, and `ts` are the types that the parser has for its
signature. It is at the one with number `k`, or at the end of them. -/
inductive Walks (m : Message) (e : Endian) : Reader → List Ty → Nat → Prop
  | start {r : Reader} {as : List Argument} : m.reader e = .ok r →
      Argument.listOfSignature m.signature = .ok as → Walks m e r (as.map Argument.ty) 0
  | next {r s : Reader} {ts : List Ty} {k : Nat} {more : Bool} : Walks m e r ts k →
      r.next = (.ok more, s) → Walks m e s ts (if r.repeats then k else k + 1)
  | enter {r s : Reader} {ts : List Ty} {k : Nat} {t : Ty} : Walks m e r ts k →
      ts[k]? = some t → t.code ≠ .variant → r.enter = .ok s → Walks m e s t.children 0
  | contents {r s : Reader} {ts : List Ty} {k : Nat} {u : Ty} : Walks m e r ts k →
      ts[k]? = some .variant → r.enter = .ok s → variantType s.signature = .ok u →
      Walks m e s [u] 0

/-- The cursor is at the type with number `k` of those in its signature. An array cursor stays at
the first and only one. -/
structure AtType (r : Reader) (ts : List Ty) (k : Nat) : Prop where
  placed : r.Placed (ts.take k) (ts.drop k)
  single : r.repeats = true → k = 0 ∧ ∃ t, ts = [t]

namespace AtType

theorem first (h : r.Placed [] ts) (hrep : r.repeats = true → ∃ t, ts = [t]) : r.AtType ts 0 :=
  ⟨h, fun hr => ⟨rfl, hrep hr⟩⟩

/-- The signature of the cursor is that of its types. -/
theorem signature_eq (h : r.AtType ts k) : r.signature = Ty.renderAll ts := by
  rw [h.placed.signature, List.take_append_drop]

theorem of_drop_eq_cons (h : ts.drop k = t :: us) : ts[k]? = some t ∧ us = ts.drop (k + 1) := by
  rw [← List.head?_drop, ← List.tail_drop, h]
  exact ⟨rfl, rfl⟩

/-- A current value is of the type in the tree. -/
theorem exists_standsAt (h : r.AtType ts k) {c : TypeCode} (hc : r.require = .ok c) :
    ∃ t, ts[k]? = some t ∧ r.StandsAt t (ts.drop (k + 1)) := by
  obtain ⟨t, us, hdrop, hst⟩ := h.placed.exists_standsAt hc
  obtain ⟨ht, rfl⟩ := of_drop_eq_cons hdrop
  exact ⟨t, ht, hst⟩

/-- There is a current value, unless the array is at its end. -/
theorem standsAt (h : r.AtType ts k) (ht : ts[k]? = some t)
    (hmore : r.repeats = true → r.pos < r.stop) : r.StandsAt t (ts.drop (k + 1)) := by
  refine ⟨hmore, ?_⟩
  obtain ⟨hk, rfl⟩ := List.getElem?_eq_some_iff.mp ht
  rw [h.placed.drop_eq, List.drop_eq_getElem_cons hk]

/-- What is entered is of the type in the tree. -/
theorem standsAt_of_enter (h : r.AtType ts k) (ht : ts[k]? = some t) (hs : r.enter = .ok s) :
    r.StandsAt t (ts.drop (k + 1)) := by
  obtain ⟨c, hc⟩ := require_of_enter hs
  obtain ⟨u, hu, hst⟩ := h.exists_standsAt hc
  obtain rfl := Option.some.inj (ht.symm.trans hu)
  exact hst

theorem current_eq_none (h : r.AtType ts k) (hk : ts.length ≤ k) : r.current = none := by
  have hdrop := h.placed.drop_eq
  rw [List.drop_eq_nil_of_le hk] at hdrop
  exact current_of_drop_eq_nil hdrop

/-- A cursor that moves on passes one type, but for a cursor over items, which has only one. -/
theorem next (h : r.AtType ts k) (hs : r.next = (.ok more, s)) :
    s.repeats = r.repeats ∧ s.AtType ts (if r.repeats then k else k + 1) := by
  obtain ⟨t, us, p, hdrop, -, -, -, rfl⟩ := h.placed.of_next_eq_ok hs
  obtain ⟨ht, -⟩ := of_drop_eq_cons hdrop
  refine ⟨rfl, ?_⟩
  cases hrep : r.repeats with
  | true =>
    obtain ⟨rfl, hsingle⟩ := h.single hrep
    exact first ⟨h.signature_eq, by simp [moveOn, hrep, Ty.renderAll]⟩ fun _ => hsingle
  | false =>
    refine ⟨⟨?_, ?_⟩, fun hr => absurd hr (by simp [moveOn, hrep])⟩
    · rw [if_neg Bool.false_ne_true, List.take_append_drop]
      exact h.signature_eq
    · rw [if_neg Bool.false_ne_true, List.take_add_one, ht, Ty.renderAll_append,
        List.length_append, ← h.placed.ix]
      simp [moveOn, hrep, Ty.renderAll]

/-- The cursor over the contents of a container is at the first of the types inside. -/
theorem exists_holds (hst : r.StandsAt t ts) (hs : r.enter = .ok s) :
    ∃ us, t.Holds us ∧ s.AtType us 0 := by
  obtain ⟨us, hholds, hplaced, hrep⟩ := hst.enter hs
  refine ⟨us, hholds, first hplaced fun h => ?_⟩
  have hcode := hrep.mp h
  cases hholds with
  | children _ =>
    cases t with
    | array e => exact ⟨e, rfl⟩
    | _ => cases hcode
  | contents _ => cases hcode

/-- The types inside of a container are those that stand directly inside of its type. -/
theorem enter (hst : r.StandsAt t ts) (hs : r.enter = .ok s) (ht : t.code ≠ .variant) :
    s.AtType t.children 0 := by
  obtain ⟨us, hholds, hat⟩ := exists_holds hst hs
  cases hholds with
  | children _ => exact hat
  | contents _ => exact absurd rfl ht

/-- What is in a variant has a signature of its own, with exactly one type. -/
theorem contents (hst : r.StandsAt .variant ts) (hs : r.enter = .ok s) :
    ∃ u, variantType s.signature = .ok u ∧ s.AtType [u] 0 := by
  obtain ⟨us, hholds, hat⟩ := exists_holds hst hs
  cases hholds with
  | children hcode => exact absurd rfl hcode
  | @contents u hu =>
    refine ⟨u, variantType_eq_ok_iff.mpr ⟨hu, ?_⟩, hat⟩
    rw [hat.signature_eq, Ty.renderAll, Ty.renderAll, List.append_nil]

end AtType

/-! ## Walks -/

variable {m : Message} {e : Endian}

theorem atType_start {as : List Argument} (hr : m.reader e = .ok r)
    (has : Argument.listOfSignature m.signature = .ok as) : r.AtType (as.map Argument.ty) 0 := by
  obtain ⟨-, rfl⟩ := Message.reader_eq_ok_iff.mp hr
  obtain ⟨-, -, hsignature⟩ := Argument.listOfSignature_eq_ok has
  exact .first ⟨hsignature.symm, rfl⟩ nofun

/-- Wherever a cursor has been taken, it is at a type of its row or at the end. -/
theorem Walks.atType (h : r.Walks m e ts k) : r.AtType ts k := by
  induction h with
  | start hr has => exact atType_start hr has
  | next _ hs ih => exact (ih.next hs).2
  | enter _ ht hcode hs ih => exact .enter (ih.standsAt_of_enter ht hs) hs hcode
  | contents _ ht hs hu ih =>
    obtain ⟨u', hu', hat⟩ := AtType.contents (ih.standsAt_of_enter ht hs) hs
    obtain rfl := Except.ok.inj (hu.symm.trans hu')
    exact hat

/-- Moving over values of the body goes from type to type. -/
theorem Moved.walks {r' : Reader} (h : r.Moved k r') (hrep : r.repeats = false)
    (hr : r.Walks m e ts 0) : r'.repeats = false ∧ r'.Walks m e ts k := by
  induction h with
  | none => exact ⟨hrep, hr⟩
  | next _ hs ih =>
    obtain ⟨hrep, hwalks⟩ := ih
    obtain ⟨hrep', -⟩ := hwalks.atType.next hs
    have hnext := hwalks.next hs
    rw [hrep, if_neg Bool.false_ne_true] at hnext
    exact ⟨hrep'.trans hrep, hnext⟩

theorem AtType.currentSignature_eq (h : r.AtType ts k) (ht : ts[k]? = some t)
    (hmore : r.repeats = true → r.pos < r.stop) :
    r.currentSignature = .ok (utf8 t.signature) := by
  rw [(h.standsAt ht hmore).currentSignature_eq, t.utf8_signature]

/-- Only a container is entered, and then its type is known with what is inside. -/
theorem AtType.of_enter (h : r.AtType ts k) (hs : r.enter = .ok s) :
    ∃ t, ts[k]? = some t ∧ r.currentSignature = .ok (utf8 t.signature) ∧
      (t.code ≠ .variant → s.signature = Ty.renderAll t.children) ∧
      (t.code = .variant → ∃ u, variantType s.signature = .ok u) := by
  obtain ⟨c, hc⟩ := require_of_enter hs
  obtain ⟨t, ht, hst⟩ := h.exists_standsAt hc
  refine ⟨t, ht, h.currentSignature_eq ht hst.more,
    fun hcode => (AtType.enter hst hs hcode).signature_eq, fun hcode => ?_⟩
  cases t with
  | variant =>
    obtain ⟨u, hu, -⟩ := AtType.contents hst hs
    exact ⟨u, hu⟩
  | _ => cases hcode

end Reader

/-! ## Signatures of messages -/

namespace Argument

/-- Counting the brackets of a signature finds the types that parsing it finds. From every place
where a type starts, it comes to the end of that type, and what is in between is parsed as the
type. A dict entry is parsed with the array it is in. The place may be anywhere in the signature,
or in the part of it that is inside of a container. Of a body with that signature, a cursor that
has moved `k` times has the signature of argument `k` as the current one. Wherever else it goes, it
keeps to the types that have been parsed : the cursor over the contents of a container has the
signature of the element, or of the fields, and no other. -/
theorem ends_by_brackets {s : Bytes} {as : List Argument} (h : listOfSignature s = .ok as) :
    Ty.renderAll (as.map Argument.ty) = s ∧
      (∀ us, Ty.Row (as.map Argument.ty) us → ∀ i t, Ty.StartsAt us i t →
        typeEnd (Ty.renderAll us) i = .ok (i + t.render.length) ∧
          ((Ty.renderAll us).take (i + t.render.length)).drop i = t.render ∧
          (t.code ≠ .dictEntry → ofSignature t.render = .ok ⟨t, none⟩) ∧
          (t.code = .dictEntry →
            ofSignature (TypeCode.array.byte :: t.render) = .ok ⟨.array t, none⟩)) ∧
      (∀ data e, ∃ r, Message.reader ⟨data, s⟩ e = .ok r ∧ ∀ k r', r.Moved k r' →
        (∀ a, as[k]? = some a → r'.currentSignature = .ok (utf8 a.ty.signature)) ∧
          (as.length ≤ k → r'.current = none)) ∧
      ∀ data e r ts k, Reader.Walks ⟨data, s⟩ e r ts k →
        r.signature = Ty.renderAll ts ∧
          (∀ t, ts[k]? = some t → (r.repeats = true → r.pos < r.stop) →
            r.currentSignature = .ok (utf8 t.signature)) ∧
          ∀ r', r.enter = .ok r' → ∃ t, ts[k]? = some t ∧
            r.currentSignature = .ok (utf8 t.signature) ∧
            (t.code ≠ .variant → r'.signature = Ty.renderAll t.children) ∧
            (t.code = .variant → ∃ u, variantType r'.signature = .ok u) := by
  obtain ⟨-, hvalid, hs⟩ := listOfSignature_eq_ok h
  refine ⟨hs, fun us hus i t ht => ⟨ht.typeEnd_eq, ht.text_eq, ?_⟩, fun data e => ?_,
    fun data e r ts k hwalks => ?_⟩
  · obtain ⟨vs, hvs, hmem⟩ := ht.exists_row
    have hrow := hus.trans hvs
    have hts := List.forall_mem_map.mpr hvalid
    exact ⟨fun hcode => ofSignature_eq_ok_iff.mpr
        ⟨t, (hrow.valid hts hmem hcode).parseType_render, rfl⟩,
      fun hcode => ofSignature_eq_ok_iff.mpr
        ⟨.array t, (hrow.valid_array hts hmem hcode).parseType_render, rfl⟩⟩
  · obtain ⟨ts, hts, -⟩ := listOfSignature_eq_ok_iff.mp h
    have hr : Message.reader ⟨data, s⟩ e = .ok _ := Message.reader_eq_ok_iff.mpr ⟨⟨ts, hts⟩, rfl⟩
    refine ⟨_, hr, fun k r' hmoved => ?_⟩
    obtain ⟨hrep, hwalks⟩ := hmoved.walks rfl (.start hr h)
    refine ⟨fun a ha => hwalks.atType.currentSignature_eq ?_ fun h => ?_,
      fun hk => hwalks.atType.current_eq_none (by rwa [List.length_map])⟩
    · rw [List.getElem?_map, ha, Option.map_some]
    · exact absurd (hrep.symm.trans h) Bool.false_ne_true
  · have hat := hwalks.atType
    exact ⟨hat.signature_eq, fun t ht => hat.currentSignature_eq ht, fun r' hr' => hat.of_enter hr'⟩

/-- A dictionary with a struct in it, and an integer behind it. -/
theorem ends_by_brackets_dictionary :
    listOfSignature [97, 123, 115, 40, 105, 118, 41, 125, 117] =
        .ok [⟨.array (.dictEntry (.text .string) (.struct [.int .int32, .variant])), none⟩,
          ⟨.int .uint32, none⟩] ∧
      typeEnd [97, 123, 115, 40, 105, 118, 41, 125, 117] 1 = .ok 8 ∧
      typeEnd [115, 40, 105, 118, 41] 1 = .ok 5 ∧
      ∃ r r', Message.reader ⟨[16, 0, 0, 0, 0, 0, 0, 0, 1, 0, 0, 0, 107, 0, 0, 0, 5, 0, 0, 0,
          1, 121, 0, 9, 7, 0, 0, 0], [97, 123, 115, 40, 105, 118, 41, 125, 117]⟩ .little = .ok r ∧
        r.Moved 1 r' ∧ r'.currentSignature = .ok [117] := by
  have hs : listOfSignature [97, 123, 115, 40, 105, 118, 41, 125, 117] =
      .ok [⟨.array (.dictEntry (.text .string) (.struct [.int .int32, .variant])), none⟩,
        ⟨.int .uint32, none⟩] := by rfl
  obtain ⟨-, hends, hbody, -⟩ := ends_by_brackets hs
  have hentry := (hends _ .top _ _ (.inside [] [] (.here [] [.int .uint32] rfl) rfl)).1
  have hstruct := (hends _ (.inside (.inside .top (.head _)) (.head _)) _ _
    (.here [.text .string] [] rfl)).1
  obtain ⟨r, hr, hmoved⟩ := hbody [16, 0, 0, 0, 0, 0, 0, 0, 1, 0, 0, 0, 107, 0, 0, 0, 5, 0, 0, 0,
    1, 121, 0, 9, 7, 0, 0, 0] .little
  have hnext : r.Moved 1 r.next.2 := by
    cases hr
    exact .next .none rfl
  exact ⟨hs, hentry, hstruct, r, _, hr, hnext, (hmoved 1 _ hnext).1 _ rfl⟩

end Argument

end DBus

import DBus.Proofs.Measure
import DBus.Proofs.Recording

/-!
# What can be written

A value of exactly the type is written in either byte order, if its texts are allowed, the
contents of its arrays fit and no more containers are nested in it than the writer and the
marshaller have room for (`Marshaller.exists_writeValue_of_hasType`). Nothing else can go wrong:
no check of a kind, a count or a depth fails on such a value.

How long the contents of the arrays are depends on where the value starts
(`Value.arrayLengths`). The body goes through the places that `Value.endAs` tells, and so an
operation is known by the length that it finds and the length that it leaves (`Write.Reaches`).
-/

namespace DBus

-- `^` is the power of the standard library, whichever others are in scope.
attribute [local instance (1100)] instPowNat

/-! ## Arrays in a value -/

namespace Value

mutual

/-- How long the contents of the arrays in a value are, each without the padding in front of it,
where the value starts at a position. -/
def arrayLengths : Value → Ty → (p : Nat) → List Nat
  | array vs, .array t, p =>
    let ts := List.replicate vs.length t
    let start := itemsStart p t
    (endAll vs ts start - start) :: arrayLengthsAll vs ts start
  | struct vs, .struct ts, p => arrayLengthsAll vs ts (alignUp p 8)
  | dictEntry key value, .dictEntry k t, p =>
    key.arrayLengths (.basic k) (alignUp p 8) ++
      value.arrayLengths t (key.endAs (.basic k) (alignUp p 8))
  | variant a v, _, p => v.arrayLengths a.ty (p + a.ty.render.length + 2)
  | _, _, _ => []

/-- How long the contents of the arrays in values are that stand one right after the other. -/
def arrayLengthsAll : List Value → List Ty → (p : Nat) → List Nat
  | v :: vs, t :: ts, p => v.arrayLengths t p ++ arrayLengthsAll vs ts (v.endAs t p)
  | _, _, _ => []

end

/-- All arrays in the value have contents of a length that can be written. -/
def Fits (v : Value) (t : Ty) (p : Nat) : Prop := ∀ n ∈ v.arrayLengths t p, n ≤ maxArrayLength

end Value

/-! ## Lengths of bodies -/

/-- The operation succeeds with a result on every body of length `p`, and leaves one of length
`q`. -/
def Write.Reaches {α : Type} (x : Write α) (p : Nat) (a : α) (q : Nat) : Prop :=
  ∀ msg : Message, msg.data.length = p →
    ∃ msg', x.run msg = .ok a msg' ∧ msg'.data.length = q

namespace Write.Reaches

variable {α β : Type} {p q r : Nat} {a : α} {b : β}

theorem pure (a : α) : Reaches (Pure.pure a) p a p := fun msg hp => ⟨msg, rfl, hp⟩

theorem lift {x : Except Error α} (h : x = .ok a) : Reaches (liftM x) p a p := by
  subst h
  exact .pure a

/-- Two steps, from one length to the next. -/
theorem bind {x : Write α} {f : α → Write β} (hx : Reaches x p a q) (hf : Reaches (f a) q b r) :
    Reaches (x >>= f) p b r := by
  intro msg hp
  obtain ⟨mid, hmid, hq⟩ := hx msg hp
  obtain ⟨msg', hmsg', hr⟩ := hf mid hq
  exact ⟨msg', run_bind_eq_ok.mpr ⟨a, mid, hmid, hmsg'⟩, hr⟩

end Write.Reaches

namespace Writer

variable {w : Writer} {p q levels : Nat}

/-- A word reaches behind its padding and its bytes. -/
theorem reaches_putWord (w : Writer) (c : FixedCode) (word : Word) :
    (w.putWord c word).Reaches p () (alignUp p c.size + c.size) := by
  rintro msg rfl
  refine ⟨_, run_putWord c word, ?_⟩
  rw [Message.length_data_extend, List.length_append, length_gap, length_fixed,
    Endian.length_encodeWord, ← Nat.add_assoc, ← alignUp]

/-- A text that is allowed reaches behind its zero byte. -/
theorem reaches_putText (w : Writer) {c : TextCode} {s : String} (h : c.Allows s) :
    (w.putText c s).Reaches p () (textStart p c + (utf8 s).length + 1) := by
  rintro msg rfl
  have hlen : c = .signature → (utf8 s).length ≤ maxSignatureLength := by
    rintro rfl
    exact h.length_le
  refine ⟨_, putText_eq_ok_iff.mpr ⟨h.1, hlen, rfl⟩, ?_⟩
  rw [Message.length_data_extend, List.length_append, ← Nat.add_assoc, add_length_textHead,
    length_fixed, List.length_append, ← Nat.add_assoc]
  rfl

/-- An array is opened up to where its items start. -/
theorem reaches_openArray (hw : w.levels = levels + 1) (t : Ty) :
    (w.openArray t.render).Reaches p
      ⟨w.endian, false, some ⟨alignUp p 4, itemsStart p t⟩, levels⟩ (itemsStart p t) := by
  rintro msg rfl
  refine ⟨_, openArray_eq_ok_iff.mpr ⟨levels, hw, rfl, rfl⟩, ?_⟩
  rw [Message.length_data_extend, add_length_arrayHead]

/-- A struct is opened up to its first field. -/
theorem reaches_openStruct (hw : w.levels = levels + 1) (signature : Bytes) :
    (w.openStruct signature).Reaches p ⟨w.endian, false, none, levels⟩ (alignUp p 8) := by
  rintro msg rfl
  refine ⟨_, openStruct_eq_ok_iff.mpr ⟨levels, hw, rfl, rfl⟩, ?_⟩
  rw [Message.length_data_extend, length_gap, alignUp]

theorem reaches_openDictEntry (hw : w.levels = levels + 1) :
    w.openDictEntry.Reaches p ⟨w.endian, false, none, levels⟩ (alignUp p 8) := by
  rintro msg rfl
  refine ⟨_, openDictEntry_eq_ok_iff.mpr ⟨levels, hw, rfl, rfl⟩, ?_⟩
  rw [Message.length_data_extend, length_gap, alignUp]

/-- A variant is opened up to its contents. -/
theorem reaches_openVariant (hw : w.levels = levels + 1) {t : Ty} (ht : t.Valid) :
    (w.openVariant t.render).Reaches p ⟨w.endian, false, none, levels⟩
      (p + t.render.length + 2) := by
  rintro msg rfl
  refine ⟨_, openVariant_eq_ok_iff.mpr ⟨levels, ht, hw, rfl, rfl⟩, ?_⟩
  rw [Message.length_data_extend, add_length_variantHead]

/-- Patching does not change the length. -/
theorem length_patch {data bs : Bytes} {start : Nat} (h : start + bs.length ≤ data.length) :
    (patch data start bs).length = data.length := by
  simp only [patch, List.length_append, List.length_take, List.length_drop]
  omega

theorem reaches_close (hw : w.array = none) : w.close.Reaches p () p := by
  unfold close
  rw [hw]
  exact .pure ()

/-- The length of an array replaces bytes that are there. -/
theorem reaches_close_array {frame : ArrayFrame} (hw : w.array = some frame)
    (hat : frame.lengthAt + 4 ≤ p) (hlen : p - frame.start ≤ maxArrayLength) :
    w.close.Reaches p () p := by
  rintro msg rfl
  refine ⟨_, by rw [run_close_array hw, if_neg (Nat.not_lt.mpr hlen)], length_patch ?_⟩
  rwa [Endian.length_encode]

end Writer

/-! ## Values -/

namespace Marshaller

open Write

/-- The items of an array are written as fields of one type. -/
theorem forM_eq_writeFields (write : Ty → Value → Write Unit) (t : Ty) (vs : List Value) :
    vs.forM (write t) = writeFields write (List.replicate vs.length t) vs := by
  induction vs with
  | nil => rfl
  | cons v vs ih =>
    rw [List.length_cons, List.replicate_succ, writeFields, ← ih]
    rfl

/-- Fields reach the end of the last, if each of them reaches its own. -/
theorem reaches_writeFields {write : Ty → Value → Write Unit} {vs : List Value} {ts : List Ty}
    {p : Nat} (hlen : vs.length = ts.length)
    (h : ∀ q ∈ vs.zip ts, ∀ p, q.1.Fits q.2 p → (write q.2 q.1).Reaches p () (q.1.endAs q.2 p))
    (hfits : ∀ n ∈ Value.arrayLengthsAll vs ts p, n ≤ maxArrayLength) :
    (writeFields write ts vs).Reaches p () (Value.endAll vs ts p) := by
  induction vs generalizing ts p with
  | nil =>
    obtain rfl := List.eq_nil_of_length_eq_zero hlen.symm
    exact .pure ()
  | cons v vs ih =>
    cases ts with
    | nil => cases hlen
    | cons t ts =>
      rw [List.zip_cons_cons, List.forall_mem_cons] at h
      rw [Value.arrayLengthsAll, List.forall_mem_append] at hfits
      exact (h.1 p hfits.1).bind (ih (Nat.succ.inj hlen) h.2 hfits.2)

section

variable {m : Marshaller} (hm : m.policy = .standard)

include hm

/-- A basic value reaches the end of what it is unboxed to. -/
theorem reaches_writeWithin_basic {c : BasicCode} {v : Value} {u : Unboxed}
    (hu : m.unbox (.basic c) v = .ok u) {w : Writer} {p q : Nat}
    (h : (writeUnboxed (.basic c) w u).Reaches p () q) (levels room : Nat) :
    (m.writeWithin levels room (.basic c) v w).Reaches p () q := by
  rw [writeWithin_basic (entry_standard hm _)]
  exact .bind (.lift hu) h

/-- A value of the type takes the body to where it ends. -/
theorem reaches_writeWithin {v : Value} {t : Ty} (ht : v.HasType t)
    (hallows : ∀ q ∈ v.texts, q.1.Allows q.2) {levels room : Nat}
    (hn : v.nesting ≤ min room levels) {w : Writer} (hw : w.levels = levels) {p : Nat}
    (hfits : v.Fits t p) : (m.writeWithin levels room t v w).Reaches p () (v.endAs t p) := by
  induction ht generalizing levels room w p with
  | scalar s =>
    have hu : m.unbox (.fixed s.code) (.scalar s) = .ok (.word s.toWord) :=
      (unbox_fixed_eq_ok_iff hm).mpr ⟨s, s, rfl, Value.convert?_code s, rfl⟩
    exact reaches_writeWithin_basic hm hu (w.reaches_putWord s.code s.toWord) levels room
  | text c s =>
    have hs : c.Allows s := hallows (c, s) (List.mem_singleton.mpr rfl)
    have hu : m.unbox (.text c) (.text c s) = .ok (.str s) :=
      (unbox_text_eq_ok_iff hm).mpr ⟨c, s, rfl, .inl rfl, hs.2, rfl⟩
    exact reaches_writeWithin_basic hm hu (w.reaches_putText hs) levels room
  | @array vs e _ ih =>
    obtain ⟨k, n, rfl, rfl, hroom⟩ := exists_succ_of_le_min hn
    rw [Value.Fits, Value.arrayLengths, List.forall_mem_cons] at hfits
    rw [Value.texts, Value.textsAll_eq_flatMap, List.forall_mem_flatMap] at hallows
    rw [writeWithin, writeBy_array hm, Value.endAs]
    have hitems : ∀ items : Writer, items.levels = n →
        (vs.forM fun v => m.writeWithin n k e v items).Reaches (itemsStart p e) ()
          (Value.endAll vs (List.replicate vs.length e) (itemsStart p e)) := fun items hitems => by
      -- the items are written like fields that are all of one type
      rw [forM_eq_writeFields fun t v => m.writeWithin n k t v items]
      refine reaches_writeFields List.length_replicate.symm (fun q hq p hfits => ?_) hfits.2
      obtain ⟨hv, hu⟩ := List.of_mem_zip hq
      rw [List.eq_of_mem_replicate hu] at hfits ⊢
      exact ih q.1 hv (hallows q.1 hv) (Value.nestingAll_le_iff.mp hroom q.1 hv) hitems hfits
    refine .bind (.lift rfl) (.bind (Writer.reaches_openArray hw e) (.bind (hitems _ rfl) ?_))
    refine Writer.reaches_close_array rfl ?_ hfits.1
    exact Nat.le_trans (Nat.le_add_right _ _) (Value.le_endAll vs _ (itemsStart p e))
  | @struct vs ts hlen _ ih =>
    obtain ⟨k, n, rfl, rfl, hroom⟩ := exists_succ_of_le_min hn
    rw [Value.Fits, Value.arrayLengths] at hfits
    rw [Value.texts, Value.textsAll_eq_flatMap, List.forall_mem_flatMap] at hallows
    rw [writeWithin, writeBy_struct hm _ _ _ hlen.symm, Value.endAs]
    have hfields : ∀ fields : Writer, fields.levels = n →
        (writeFields (fun t v => m.writeWithin n k t v fields) ts vs).Reaches (alignUp p 8) ()
          (Value.endAll vs ts (alignUp p 8)) := fun fields hfields => by
      refine reaches_writeFields hlen (fun q hq p hfits => ?_) hfits
      have hv := (List.of_mem_zip hq).1
      exact ih q hq (hallows q.1 hv) (Value.nestingAll_le_iff.mp hroom q.1 hv) hfields hfits
    exact .bind (.lift rfl) (.bind (Writer.reaches_openStruct hw _)
      (.bind (hfields _ rfl) (Writer.reaches_close rfl)))
  | @dictEntry key value k t _ _ ihkey ihvalue =>
    obtain ⟨room, n, rfl, rfl, hroom⟩ := exists_succ_of_le_min hn
    rw [Nat.max_le] at hroom
    rw [Value.Fits, Value.arrayLengths, List.forall_mem_append] at hfits
    rw [Value.texts, List.forall_mem_append] at hallows
    rw [writeWithin, writeBy_dictEntry hm, Value.endAs]
    have hkey := fun (entry : Writer) (h : entry.levels = n) =>
      ihkey hallows.1 hroom.1 h hfits.1
    have hvalue := fun (entry : Writer) (h : entry.levels = n) =>
      ihvalue hallows.2 hroom.2 h hfits.2
    exact .bind (.lift rfl) (.bind (Writer.reaches_openDictEntry hw)
      (.bind (.bind (hkey _ rfl) (hvalue _ rfl)) (Writer.reaches_close rfl)))
  | @variant a x ha _ ih =>
    obtain ⟨room, n, rfl, rfl, hroom⟩ := exists_succ_of_le_min hn
    rw [writeWithin, writeBy_variant hm, Value.endAs]
    have hcontents := fun (inside : Writer) (h : inside.levels = n) => ih hallows hroom h hfits
    exact .bind (.lift rfl) (.bind (.lift rfl) (.bind (Writer.reaches_openVariant hw ha)
      (.bind (hcontents _ rfl) (Writer.reaches_close rfl))))

end

/-- Every well-typed value can be written. A value of exactly the type of an argument is written
to a fresh message in either byte order, if no text in it has a zero byte, its object paths and
signatures are well formed, the contents of no array in it take more than 64 MiB, and at most 64
containers are nested in it. The message has the signature of the argument, and its body ends
where the value does. -/
theorem exists_writeValue_of_hasType {a : Argument} (ha : a.ty.Valid) {v : Value}
    (hv : v.HasType a.ty) (hzero : ∀ c s, (c, s) ∈ v.texts → 0 ∉ utf8 s)
    (hpaths : ∀ s, (TextCode.objectPath, s) ∈ v.texts → ObjectPath.isValid s = true)
    (hsignatures : ∀ s, (TextCode.signature, s) ∈ v.texts →
      Argument.checkSignature (utf8 s) = .ok ())
    (hlengths : ∀ n ∈ v.arrayLengths a.ty 0, n ≤ 2 ^ (26 : Nat)) (hnesting : v.nesting ≤ 64)
    (e : Endian) :
    ∃ msg, (({} : Marshaller).writeValue a.ty v (.top e)).run {} = .ok () msg ∧
      msg.signature = a.ty.render ∧ msg.data.length = v.endAs a.ty 0 := by
  have hallows : ∀ q ∈ v.texts, q.1.Allows q.2 := by
    rintro ⟨c, s⟩ hs
    refine ⟨hzero c s hs, ?_⟩
    cases c with
    | string => rfl
    | objectPath => exact if_pos (hpaths s hs)
    | signature => exact hsignatures s hs
  have hreaches : (({} : Marshaller).writeValue a.ty v (.top e)).Reaches 0 () (v.endAs a.ty 0) :=
    reaches_writeWithin rfl hv hallows hnesting rfl hlengths
  obtain ⟨msg, hmsg, hlen⟩ := hreaches {} rfl
  have hsignature := recording_writeValue a.ty v (.top e)
    (fun h => absurd h ha.code_ne_dictEntry) {} () msg hmsg
  exact ⟨msg, hmsg, hsignature, hlen⟩

/-- A dictionary of a path in a variant that names its type. -/
theorem exists_writeValue_of_hasType_dictionary :
    Value.HasType (.array [.dictEntry (.text .string "a")
        (.variant ⟨.text .objectPath, some "path"⟩ (.text .objectPath "/"))])
      (.array (.dictEntry (.text .string) .variant)) ∧
    ∃ msg, (({} : Marshaller).writeValue (.array (.dictEntry (.text .string) .variant))
        (.array [.dictEntry (.text .string "a")
          (.variant ⟨.text .objectPath, some "path"⟩ (.text .objectPath "/"))])
        (.top .big)).run {} = .ok () msg ∧
      msg.signature = [97, 123, 115, 118, 125] ∧ msg.data.length = 26 := by
  have ha : (Ty.array (.dictEntry (.text .string) .variant)).Valid :=
    ⟨[97, 123, 115, 118, 125], by rfl⟩
  have hv : Value.HasType (.array [.dictEntry (.text .string "a")
      (.variant ⟨.text .objectPath, some "path"⟩ (.text .objectPath "/"))])
      (.array (.dictEntry (.text .string) .variant)) :=
    .array (List.forall_mem_singleton.mpr
      (.dictEntry (.text _ _) (.variant ⟨[111], by rfl⟩ (.text _ _))))
  have htexts : Value.texts (.array [.dictEntry (.text .string "a")
      (.variant ⟨.text .objectPath, some "path"⟩ (.text .objectPath "/"))]) =
        [(.string, "a"), (.objectPath, "/")] := rfl
  have hzero : ∀ q ∈ [(TextCode.string, "a"), (.objectPath, "/")], 0 ∉ utf8 q.2 := by decide
  obtain ⟨msg, hmsg, hsignature, hlen⟩ := exists_writeValue_of_hasType (a := ⟨_, none⟩) ha hv
    (fun c s hs => hzero (c, s) (htexts ▸ hs)) (fun s hs => by simp [htexts] at hs; subst hs; rfl)
    (fun s hs => by simp [htexts] at hs) (by decide) (by decide) .big
  exact ⟨hv, msg, hmsg, hsignature, hlen⟩

end Marshaller

end DBus

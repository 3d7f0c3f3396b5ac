import DBus.Proofs.Reading
import DBus.Proofs.Writing

/-!
# Round trips

Reading and writing are two readings of one relation, the layout of values. So what has been
written is read back as the normal form of what was given (`Marshaller.readValue_of_writeValue`),
and what has been read is written back as it was, with zeros for the padding
(`Marshaller.writeFields_of_receiveAll`).
-/

namespace DBus

-- `^` is the power of the standard library, whichever others are in scope.
attribute [local instance (1100)] instPowNat

/-! ## Starting to read -/

/-- A message is opened where its signature lists types. -/
theorem Message.reader_eq_ok_iff {msg : Message} {e : Endian} {r : Reader} :
    msg.reader e = .ok r ↔ (∃ ts, parseTypes msg.signature = .ok ts) ∧
      r = ⟨e, msg.data, 0, msg.data.length, msg.signature, 0, false, maxNesting⟩ := by
  simp only [Message.reader, bind_eq_ok, pure_eq_ok, discard_eq_ok,
    Argument.checkSignature_eq_ok_iff]
  constructor
  · rintro ⟨_, -, _, hts, rfl⟩
    exact ⟨hts, rfl⟩
  · rintro ⟨⟨ts, hts⟩, rfl⟩
    obtain ⟨-, -, hrender⟩ := parseTypes_eq_ok_iff.mp hts
    have htext : utf8 (asciiText msg.signature) = msg.signature := by
      rw [← hrender]
      exact utf8_asciiText (Ty.byte_lt_of_mem_renderAll ts)
    exact ⟨(), ⟨_, readText_eq_ok_iff.mpr htext⟩, (), ⟨ts, hts⟩, rfl⟩

/-- The cursor at the start goes through the types of the signature. -/
theorem Message.follows_of_reader {msg : Message} {e : Endian} {r : Reader} {ts : List Ty}
    (hr : msg.reader e = .ok r) (hts : parseTypes msg.signature = .ok ts) : r.Follows ts := by
  obtain ⟨-, rfl⟩ := Message.reader_eq_ok_iff.mp hr
  obtain ⟨-, -, hrender⟩ := parseTypes_eq_ok_iff.mp hts
  exact ⟨rfl, hrender.symm⟩

theorem Reader.finish_eq_ok_iff {r : Reader} {u : Unit} :
    r.finish = .ok u ↔ r.data.length ≤ r.pos := by
  unfold finish
  split <;> simp [*]

namespace Marshaller

/-! ## Writing and reading back -/

/-- A value that is laid out from the start of a body to its end is read from it, and nothing
else is. -/
theorem exists_reader_of_laidOut {t : Ty} (ht : t.Valid) {v : Value} {e : Endian} {maxDepth : Nat}
    {cells : List Cell} (h : LaidOut e (min maxDepth maxNesting) t v 0 cells) :
    ∃ r s, Message.reader ⟨fill cells, t.render⟩ e = .ok r ∧
      (⟨.standard, maxDepth⟩ : Marshaller).readValue t r = .ok v ∧
      r.next = (.ok false, s) ∧ s.finish = .ok () := by
  have hparse : parseTypes t.render = .ok [t] := parseType_eq_ok_iff.mp ht.parseType_render
  have hr : Message.reader ⟨fill cells, t.render⟩ e = .ok _ :=
    Message.reader_eq_ok_iff.mpr ⟨⟨[t], hparse⟩, rfl⟩
  have hfollows := Message.follows_of_reader hr hparse
  have hat : At (fill cells) 0 cells := by simpa using at_fill [] cells []
  have hread := (readValue_eq_ok_iff (m := ⟨.standard, maxDepth⟩) rfl ht.regular
    hfollows.standsAt).mpr ⟨cells, h, hat⟩
  have hnext := Reader.next_eq (Nat.min_le_right _ _) h hat hfollows
  rw [(hfollows.past _).current_nil] at hnext
  refine ⟨_, _, hr, hread, hnext, Reader.finish_eq_ok_iff.mpr ?_⟩
  simp [Reader.past]

/-- What is written as a type is read back as it. The signature of the message is that of the
type, the value is read through the cursor at the start of the message, no other value follows
and nothing is left over. The value that is read is the normal form of the one that was written,
which is that value itself if it is of the type and names no type of a variant. -/
theorem readValue_of_writeValue {a : Argument} (ha : a.ty.Valid) {v : Value}
    (hv : ∀ q ∈ v.texts, (utf8 q.2).length < 2 ^ (32 : Nat)) {e : Endian} {maxDepth : Nat}
    {msg : Message}
    (hmsg : ((⟨.standard, maxDepth⟩ : Marshaller).writeValue a.ty v (.top e)).run {} =
      .ok () msg) :
    msg.signature = utf8 a.ty.signature ∧
      (∃ r s, msg.reader e = .ok r ∧
        (⟨.standard, maxDepth⟩ : Marshaller).readValue a.ty r = .ok (v.normalise a.ty) ∧
        r.next = (.ok false, s) ∧ s.finish = .ok ()) ∧
      (v.HasType a.ty → v.Unnamed → v.normalise a.ty = v) := by
  have hentry : a.ty.code = .dictEntry → (Writer.top e).records = false := fun h =>
    absurd h (Ty.Complete.code_ne_dictEntry (Ty.valid_iff.mp ha).2)
  obtain ⟨cells, h, rfl⟩ := (writeValue_eq_ok_iff rfl hv hentry).mp hmsg
  have hmsg : Message.extend {} cells ((Writer.top e).recorded a.ty.render) =
      ⟨fill cells, a.ty.render⟩ := rfl
  rw [hmsg, a.ty.utf8_signature]
  exact ⟨rfl, exists_reader_of_laidOut ha h, Value.normalise_eq_self⟩

/-- A plain boolean as the only item of an array of variants. -/
theorem readValue_of_writeValue_item :
    (Ty.array .variant).Valid ∧
      ((⟨.standard, 64⟩ : Marshaller).writeValue (.array .variant)
        (.array [.scalar (.boolean true)]) (.top .little)).run {} =
          .ok () ⟨[8, 0, 0, 0, 1, 98, 0, 0, 1, 0, 0, 0], [97, 118]⟩ ∧
      ∃ r s, Message.reader ⟨[8, 0, 0, 0, 1, 98, 0, 0, 1, 0, 0, 0], [97, 118]⟩ .little = .ok r ∧
        (⟨.standard, 64⟩ : Marshaller).readValue (.array .variant) r =
          .ok (.array [.variant ⟨.fixed .boolean, none⟩ (.scalar (.boolean true))]) ∧
        r.next = (.ok false, s) ∧ s.finish = .ok () := by
  have ht : (Ty.array .variant).Valid := ⟨[97, 118], by rfl⟩
  have hmsg : ((⟨.standard, 64⟩ : Marshaller).writeValue (.array .variant)
      (.array [.scalar (.boolean true)]) (.top .little)).run {} =
        .ok () ⟨[8, 0, 0, 0, 1, 98, 0, 0, 1, 0, 0, 0], [97, 118]⟩ := by rfl
  obtain ⟨-, hread, -⟩ := readValue_of_writeValue (a := ⟨.array .variant, none⟩) ht
    (by simp [Value.texts, Value.textsAll]) hmsg
  exact ⟨ht, hmsg, hread⟩

/-! ## Reading and writing back -/

/-- Values that are laid out from the start of a body are written as a body that has zeros for
the padding. -/
theorem writeFields_of_laidOutAll {ts : List Ty} (hts : ∀ t ∈ ts, t.Complete)
    {vs : List Value} {e : Endian} {maxDepth : Nat} {cells : List Cell}
    (h : LaidOutAll e (min maxDepth maxNesting) ts vs 0 cells) :
    (writeFields (fun t v => (⟨.standard, maxDepth⟩ : Marshaller).writeValue t v (.top e)) ts
      vs).run {} = .ok () ⟨fill cells, Ty.renderAll ts⟩ := by
  have hlen := h.length_eq
  have hmem : ∀ v ∈ vs, v.Short := h.forall_mem fun _ _ _ _ => LaidOut.short
  have hnormal : Value.normaliseFields vs ts = vs := by
    obtain ⟨-, hall⟩ := h.forall (P := fun v t => v.normalise t = v) fun _ _ _ _ h =>
      Value.normalise_eq_self h.wellFormed.hasType h.wellFormed.unnamed
    exact Value.normaliseFields_eq_self hlen hall
  rw [← hnormal] at h
  have hwrite := writes_writeValue (m := ⟨.standard, maxDepth⟩) rfl (Writer.top e).levels
  exact (writeFields_eq_ok_iff hwrite (fun t ht hcode => absurd hcode (hts t ht).code_ne_dictEntry)
    hlen hmem).mpr ⟨cells, h, rfl⟩

/-- What is read as the types of a signature, to the end of the body, is written back as it was.
The values that are read are laid out over the whole body, in one way only. The bytes that they fix
come back as they are, and padding as zeros. -/
theorem writeFields_of_receiveAll {msg : Message} {e : Endian} {r s : Reader}
    {as : List Argument} {vs : List Value} {maxDepth : Nat} (hr : msg.reader e = .ok r)
    (has : Argument.listOfSignature msg.signature = .ok as)
    (hvs : ((⟨.standard, maxDepth⟩ : Marshaller).receiveAll as).run r = .ok vs s)
    (hs : s.finish = .ok ()) :
    ∃ cells out, LaidOutAll e (min maxDepth maxNesting) (as.map Argument.ty) vs 0 cells ∧
      (∀ d ds, LaidOutAll e d (as.map Argument.ty) vs 0 ds → ds = cells) ∧
      (writeFields (fun t v => (⟨.standard, maxDepth⟩ : Marshaller).writeValue t v (.top e))
        (as.map Argument.ty) vs).run {} = .ok () out ∧
      out.signature = msg.signature ∧ out.data.length = msg.data.length ∧
      cells.length = msg.data.length ∧
      (∀ i : Nat, cells[i]? = some none → out.data[i]? = some 0) ∧
      (∀ i : Nat, cells[i]? ≠ some none → out.data[i]? = msg.data[i]?) ∧
      ((∀ i : Nat, cells[i]? = some none → msg.data[i]? = some 0) → out = msg) := by
  obtain ⟨ts, hts, rfl⟩ := Argument.listOfSignature_eq_ok_iff.mp has
  have hmap : (ts.map fun t => (⟨t, none⟩ : Argument)).map Argument.ty = ts := by
    simp [Function.comp_def]
  obtain ⟨-, hcomplete, hrender⟩ := parseTypes_eq_ok_iff.mp hts
  have hregular : ∀ a ∈ ts.map fun t => (⟨t, none⟩ : Argument), a.ty.Regular := by
    rintro _ ha
    obtain ⟨t, ht, rfl⟩ := List.mem_map.mp ha
    exact ⟨_, _, _, hcomplete t ht⟩
  have hfollows := Message.follows_of_reader hr hts
  obtain ⟨-, rfl⟩ := Message.reader_eq_ok_iff.mp hr
  rw [← hmap] at hfollows
  obtain ⟨cells, h, hat, hdata, hpos⟩ := laidOutAll_of_receiveAll rfl hregular hfollows
    (Nat.zero_le _) hvs
  rw [Reader.finish_eq_ok_iff, hdata, hpos] at hs
  have hlen : cells.length = msg.data.length := by
    have := hat.1
    simp at this hs
    omega
  rw [hmap] at h ⊢
  refine ⟨cells, _, h, fun _ _ h' => h'.unique h, writeFields_of_laidOutAll hcomplete h, hrender,
    by simpa using hlen, hlen, fun i => getElem?_fill_of_padding,
    fun i => hat.getElem?_fill hlen, fun hzero => ?_⟩
  have hdata : fill cells = msg.data := List.ext_getElem? fun i => by
    by_cases hi : cells[i]? = some none
    · rw [getElem?_fill_of_padding hi, hzero i hi]
    · exact hat.getElem?_fill hlen hi
  rw [hdata, hrender]

/-- An empty signature and a boolean, with padding between them that is not zero. -/
theorem writeFields_of_receiveAll_padding :
    Message.reader ⟨[0, 0, 9, 9, 1, 0, 0, 0], [103, 98]⟩ .little =
        .ok ⟨.little, [0, 0, 9, 9, 1, 0, 0, 0], 0, 8, [103, 98], 0, false, 64⟩ ∧
      Argument.listOfSignature [103, 98] = .ok [⟨.text .signature, none⟩, ⟨.fixed .boolean, none⟩] ∧
      ((⟨.standard, 64⟩ : Marshaller).receiveAll [⟨.text .signature, none⟩,
        ⟨.fixed .boolean, none⟩]).run
          ⟨.little, [0, 0, 9, 9, 1, 0, 0, 0], 0, 8, [103, 98], 0, false, 64⟩ =
        .ok [.text .signature "", .scalar (.boolean true)]
          ⟨.little, [0, 0, 9, 9, 1, 0, 0, 0], 8, 8, [103, 98], 2, false, 64⟩ ∧
      ∃ out, (writeFields (fun t v => (⟨.standard, 64⟩ : Marshaller).writeValue t v (.top .little))
        [.text .signature, .fixed .boolean] [.text .signature "", .scalar (.boolean true)]).run {} =
          .ok () out ∧ out.signature = [103, 98] ∧ out.data.length = 8 := by
  have hr : Message.reader ⟨[0, 0, 9, 9, 1, 0, 0, 0], [103, 98]⟩ .little =
      .ok ⟨.little, [0, 0, 9, 9, 1, 0, 0, 0], 0, 8, [103, 98], 0, false, 64⟩ := by rfl
  have has : Argument.listOfSignature [103, 98] =
      .ok [⟨.text .signature, none⟩, ⟨.fixed .boolean, none⟩] := by rfl
  have hvs : ((⟨.standard, 64⟩ : Marshaller).receiveAll [⟨.text .signature, none⟩,
      ⟨.fixed .boolean, none⟩]).run
        ⟨.little, [0, 0, 9, 9, 1, 0, 0, 0], 0, 8, [103, 98], 0, false, 64⟩ =
      .ok [.text .signature "", .scalar (.boolean true)]
        ⟨.little, [0, 0, 9, 9, 1, 0, 0, 0], 8, 8, [103, 98], 2, false, 64⟩ := by rfl
  obtain ⟨_, out, -, -, hout, hsignature, hlength, -⟩ :=
    writeFields_of_receiveAll hr has hvs (by rfl)
  exact ⟨hr, has, hvs, out, hout, hsignature, hlength⟩

end Marshaller

end DBus

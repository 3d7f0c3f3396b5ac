import DBus.Signal
import DBus.Proofs.AppendOnly
import DBus.Proofs.Numbering
import DBus.Proofs.RoundTrip

/-!
# What is recorded

A writer at the top records the signature of what is written through it. An operation that
succeeds adds the signature of its type to that of the message (`Write.Records`), whatever policy
and limits it is written with and whatever the value is. One level of writing does so if the level
below does (`Marshaller.recording_writeBy`), so what is recorded over a whole message is the
signature of the arguments it carries (`Method.records_marshal`, `Signal.records_marshal`).

Each argument keeps to the limits of signatures, and so does any row of them but for the length,
which nothing limits while it is recorded. Opening the message does (`Message.opensIfShort`).
-/

namespace DBus

/-! ## Operations that record -/

/-- Where the operation succeeds, it has added exactly `s` to the signature of the message. -/
def Write.Records {α : Type} (x : Write α) (s : Bytes) : Prop :=
  ∀ msg a msg', x.run msg = .ok a msg' → msg'.signature = msg.signature ++ s

/-- Where the operation succeeds, it has opened a container and added `s` to the signature of the
message. What is written through the writer inside adds nothing. -/
def Write.Opens (x : Write Writer) (s : Bytes) : Prop :=
  ∀ msg items mid, x.run msg = .ok items mid →
    items.records = false ∧ mid.signature = msg.signature ++ s

namespace Write

variable {α β : Type} {s t : Bytes}

namespace Records

theorem pure (a : α) : Records (Pure.pure a) [] := by
  intro msg b msg' h
  obtain ⟨-, rfl⟩ := run_pure_eq_ok.mp h
  rw [List.append_nil]

theorem throw (e : Error) : Records (MonadExcept.throw e : Write α) s :=
  fun _ _ _ h => absurd h run_throw_ne_ok

theorem throw_bind (e : Error) (f : α → Write β) : Records (MonadExcept.throw e >>= f) s :=
  throw e

theorem bind {x : Write α} {f : α → Write β} (hx : Records x s) (hf : ∀ a, Records (f a) t) :
    Records (x >>= f) (s ++ t) := by
  intro msg b msg' h
  obtain ⟨a, mid, hrun, hrest⟩ := run_bind_eq_ok.mp h
  rw [hf a mid b msg' hrest, hx msg a mid hrun, List.append_assoc]

/-- Going on from a step that records nothing. -/
theorem after {x : Write α} {f : α → Write β} (hx : Records x [])
    (hf : ∀ a, Records (f a) s) : Records (x >>= f) s := hx.bind hf

/-- Going on inside a container. -/
theorem inside {x : Write Writer} {f : Writer → Write β} (hx : Opens x s)
    (hf : ∀ items, items.records = false → Records (f items) []) : Records (x >>= f) s := by
  intro msg b msg' h
  obtain ⟨items, mid, hrun, hrest⟩ := run_bind_eq_ok.mp h
  obtain ⟨hitems, hmid⟩ := hx msg items mid hrun
  rw [hf items hitems mid b msg' hrest, hmid, List.append_nil]

theorem lift (x : Except Error α) : Records (liftM x : Write α) [] := by
  intro msg a msg' h
  obtain ⟨-, rfl⟩ := lift_eq_ok.mp h
  rw [List.append_nil]

theorem discard_lift (x : Except Error α) : Records (discard (liftM x) : Write PUnit) [] := by
  cases x with
  | ok a => exact pure _
  | error e => exact throw e

end Records

end Write

namespace Writer

variable {w : Writer}

theorem records_appendWord (b : BasicCode) (word : Word) :
    (w.appendWord (.basic b) word).Records (w.recorded (Ty.basic b).render) := by
  cases b with
  | fixed c =>
    intro msg u msg' h
    rw [appendWord, run_putWord] at h
    cases h
    rfl
  | text c => exact Write.Records.throw _

theorem records_appendText (b : BasicCode) (s : String) :
    (w.appendText (.basic b) s).Records (w.recorded (Ty.basic b).render) := by
  cases b with
  | fixed c =>
    unfold appendText
    split
    · next h => cases h
    · split <;> exact Write.Records.throw _
  | text c =>
    intro msg u msg' h
    obtain ⟨-, -, rfl⟩ := putText_eq_ok_iff.mp h
    rfl

theorem opens_array (t : Ty) : (w.openArray t.render).Opens (w.recorded (Ty.array t).render) := by
  intro msg items mid h
  obtain ⟨levels, -, rfl, rfl⟩ := openArray_eq_ok_iff.mp h
  exact ⟨rfl, rfl⟩

theorem opens_struct (signature : Bytes) :
    (w.openStruct signature).Opens (w.recorded signature) := by
  intro msg items mid h
  obtain ⟨levels, -, rfl, rfl⟩ := openStruct_eq_ok_iff.mp h
  exact ⟨rfl, rfl⟩

theorem opens_dictEntry : w.openDictEntry.Opens [] := by
  intro msg items mid h
  obtain ⟨levels, -, rfl, rfl⟩ := openDictEntry_eq_ok_iff.mp h
  exact ⟨rfl, rfl⟩

theorem opens_variant (t : Ty) :
    (w.openVariant t.render).Opens (w.recorded Ty.variant.render) := by
  intro msg items mid h
  obtain ⟨levels, -, -, rfl, rfl⟩ := openVariant_eq_ok_iff.mp h
  exact ⟨rfl, rfl⟩

theorem records_close (w : Writer) : w.close.Records [] := by
  intro msg u msg' h
  have hleft := signature_left_close w msg
  rw [Write.left, h] at hleft
  rw [List.append_nil]
  exact hleft

end Writer

/-! ## Values -/

namespace Marshaller

open Write

/-- An operation that writes values of a type records the type. Only a dict entry, which is no
type by itself, is not recorded. -/
def Recording (write : Value → Writer → Write Unit) (t : Ty) : Prop :=
  ∀ (v : Value) (w : Writer), (t.code = .dictEntry → w.records = false) →
    (write v w).Records (w.recorded t.render)

section

variable {w : Writer} {vs : List Value}

/-- Inside a container nothing is recorded. -/
theorem Recording.records_inside {write : Value → Writer → Write Unit} {t : Ty}
    (h : Recording write t) (v : Value) (hw : w.records = false) : (write v w).Records [] := by
  have hv := h v w fun _ => hw
  rwa [Writer.recorded_inside hw] at hv

theorem records_forM {write : Value → Writer → Write Unit} {t : Ty} (hwrite : Recording write t)
    (hw : w.records = false) : Records (vs.forM fun v => write v w) [] := by
  induction vs with
  | nil => exact Records.pure _
  | cons v vs ih => exact (hwrite.records_inside v hw).after fun _ => ih

/-- Values in a row record their types in a row. -/
theorem records_writeFields {write : Ty → Value → Writer → Write Unit} {ts : List Ty}
    (hwrite : ∀ t, Recording (write t) t)
    (hw : ∀ t ∈ ts, t.code = .dictEntry → w.records = false) (hlen : vs.length = ts.length) :
    Records (writeFields (fun t v => write t v w) ts vs) (w.recorded (Ty.renderAll ts)) := by
  induction ts generalizing vs with
  | nil =>
    obtain rfl := List.eq_nil_of_length_eq_zero hlen
    rw [Ty.renderAll, w.recorded_nil]
    exact Records.pure _
  | cons t ts ih =>
    cases vs with
    | nil => cases hlen
    | cons v vs =>
      rw [List.forall_mem_cons] at hw
      rw [Ty.renderAll, w.recorded_append]
      exact (hwrite t v w hw.1).bind fun _ => ih hw.2 (Nat.succ.inj hlen)

theorem records_writeUnboxed (b : BasicCode) (u : Unboxed) :
    (writeUnboxed (.basic b) w u).Records (w.recorded (Ty.basic b).render) := by
  cases u with
  | word word => exact Writer.records_appendWord b word
  | str s => exact Writer.records_appendText b s

end

variable {m : Marshaller}

/-- One level of writing records the type, if the level below does. -/
theorem recording_writeBy {inner : (room : Nat) → Ty → Value → Writer → Write Unit}
    (hinner : ∀ room t, Recording (inner room t) t) (room : Nat) (t : Ty) :
    Recording (m.writeBy inner room t) t := by
  intro v w hw
  refine (Records.discard_lift _).after fun _ => ?_
  split
  · exact (Records.lift _).after fun u => records_writeUnboxed _ u
  · -- the items of an array
    refine (Records.lift _).after fun room => .inside (Writer.opens_array _) fun items hitems => ?_
    exact (records_forM (hinner room _) hitems).after fun _ => items.records_close
  · -- the fields of a struct, where they are as many as their types
    split
    · exact Records.throw_bind _ _
    · next ts vs hlen =>
      refine (Records.lift _).after fun room =>
        .inside (Writer.opens_struct _) fun items hitems => ?_
      have hfields := records_writeFields (hinner room) (fun t _ _ => hitems)
        (Decidable.of_not_not hlen).symm
      rw [Writer.recorded_inside hitems] at hfields
      exact hfields.after fun _ => items.records_close
  · next k u key value =>
    -- a dict entry stands inside an array, where nothing is recorded
    rw [Writer.recorded_inside (hw rfl)]
    refine (Records.lift _).after fun room => .inside Writer.opens_dictEntry fun items hitems => ?_
    exact ((hinner room (.basic k)).records_inside key hitems).after fun _ =>
      ((hinner room u).records_inside value hitems).after fun _ => items.records_close
  · -- the contents of a variant, whose own type is not recorded
    refine (Records.lift _).after fun ⟨u, contents⟩ => (Records.lift _).after fun room =>
      .inside (Writer.opens_variant _) fun items hitems => ?_
    exact ((hinner room u.ty).records_inside contents hitems).after fun _ => items.records_close
  · exact Records.throw _

theorem recording_writeWithin (levels room : Nat) (t : Ty) :
    Recording (m.writeWithin levels room t) t := by
  induction levels generalizing room t with
  | zero => exact recording_writeBy (fun _ _ _ _ _ => Records.throw _) room t
  | succ levels ih => exact recording_writeBy ih room t

/-- Writing a value records its type. -/
theorem recording_writeValue (t : Ty) : Recording (m.writeValue t) t :=
  fun v w => recording_writeWithin w.levels m.maxDepth t v w

/-- Writing what a slot holds records the type that it is written as. -/
theorem records_writeSlot {t : Ty} {w : Writer} (hw : t.code = .dictEntry → w.records = false)
    (s : Slot) : (m.writeSlot t w s).Records (w.recorded t.render) := by
  cases s with
  | empty => exact Records.throw _
  | value v => exact recording_writeValue t v w hw
  | word word =>
    simp only [writeSlot]
    split
    · exact Records.throw_bind _ _
    · refine (Records.lift _).after fun entry => ?_
      split
      · exact recording_writeValue t _ w hw
      · exact Records.throw _
  | str s =>
    refine (Records.discard_lift _).after fun _ => (Records.lift _).after fun _ => ?_
    cases t with
    | basic b => exact Writer.records_appendText b s
    | _ =>
      simp only [Ty.code, Writer.appendText]
      split <;> exact Records.throw _

end Marshaller

/-! ## Messages -/

section

variable {x : Marshaller} {w : Writer}

theorem Marshaller.records_writeFrom {a : Argument} (ha : a.ty.Valid) (record : CallRecord)
    (index : Int) : (x.writeFrom a.ty record index w).Records (w.recorded a.ty.render) :=
  (Write.Records.lift _).after fun s =>
    records_writeSlot (fun h => absurd h (Ty.Valid.code_ne_dictEntry ha)) s

/-- Values in a row record the types of the arguments that they are written as. -/
theorem Marshaller.records_writeArguments {as : List Argument} (has : ∀ a ∈ as, a.ty.Valid)
    {vs : List Value} (hlen : vs.length = as.length) :
    (writeFields (fun t v => x.writeValue t v w) (as.map Argument.ty) vs).Records
      (w.recorded (Ty.renderAll (as.map Argument.ty))) := by
  refine records_writeFields recording_writeValue (fun t ht hcode => ?_) (by simpa using hlen)
  obtain ⟨a, ha, rfl⟩ := List.mem_map.mp ht
  exact absurd hcode (Ty.Valid.code_ne_dictEntry (has a ha))

theorem Method.records_marshalInputs {record : CallRecord} {index : Nat} {as : List Argument}
    (has : ∀ a ∈ as, a.ty.Valid) :
    (marshalInputs x record w index as).Records
      (w.recorded (Ty.renderAll (as.map Argument.ty))) := by
  induction as generalizing index with
  | nil =>
    rw [List.map_nil, Ty.renderAll, w.recorded_nil]
    exact Write.Records.pure _
  | cons a as ih =>
    rw [List.forall_mem_cons] at has
    rw [List.map_cons, Ty.renderAll, w.recorded_append]
    exact (Marshaller.records_writeFrom has.1 record index).bind fun _ => ih has.2

/-- Writing a message of a method records the signature that the method has for it. -/
theorem Method.records_marshal {m : Method} {record : CallRecord} {kind : MessageKind}
    (hm : ∀ a ∈ m.carried kind, a.ty.Valid) :
    (m.marshal x record w kind).Records (w.recorded (m.messageSignature kind)) := by
  cases kind with
  | call => exact records_marshalInputs hm
  | reply =>
    obtain ⟨name, interface, path, inputs, _ | ⟨a, _ | ⟨b, outputs⟩⟩, annotations⟩ := m
    · simp only [marshal, messageSignature, carried, List.map_nil, Ty.renderAll, w.recorded_nil]
      exact Write.Records.pure _
    · simp only [messageSignature, carried, List.map_cons, List.map_nil, Ty.renderAll,
        List.append_nil]
      exact Marshaller.records_writeFrom (hm a List.mem_cons_self) record _
    · simp only [marshal]
      split
      · split
        · next hlen => exact Marshaller.records_writeArguments hm hlen
        · exact Write.Records.throw _
      · exact Write.Records.throw _

/-- Writing a signal records the signature of the signal. -/
theorem Signal.records_marshal {s : Signal} {values : List Value}
    (hs : ∀ a ∈ s.args, a.ty.Valid) :
    (s.marshal x values w).Records (w.recorded s.messageSignature) := by
  unfold marshal
  split
  · exact Write.Records.throw_bind _ _
  · next hlen => exact Marshaller.records_writeArguments hs (Decidable.of_not_not hlen)

end

theorem parseTypes_tooLong {s : Bytes} (h : maxSignatureLength < s.length) :
    parseTypes s = .error (.tooLong s.length) := by
  simp [parseTypes, checkLength, Nat.not_le.mpr h, bind, Except.bind]

/-- The message can be opened exactly if its signature is no longer than signatures may be.
Otherwise it is refused for that length. -/
structure Message.OpensIfShort (msg : Message) (e : Endian) : Prop where
  opens : (∃ r, msg.reader e = .ok r) ↔ msg.signature.length ≤ 255
  refused : 255 < msg.signature.length → msg.reader e =
    .error (.malformedSignature (shownText msg.signature) (.tooLong msg.signature.length))

/-- In a row of valid types nothing but its length stands against opening a message. -/
theorem Message.opensIfShort {msg : Message} {ts : List Ty} (hts : ∀ t ∈ ts, t.Valid)
    (h : msg.signature = Ty.renderAll ts) (e : Endian) : msg.OpensIfShort e := by
  have hcomplete : ∀ t ∈ ts, t.Complete := fun t ht => (Ty.valid_iff.mp (hts t ht)).2
  refine ⟨?_, fun hlong => ?_⟩
  · simp only [Message.reader_eq_ok_iff, exists_and_left, exists_eq, and_true]
    constructor
    · rintro ⟨us, hus⟩
      exact (parseTypes_eq_ok_iff.mp hus).1
    · exact fun hlen => ⟨ts, parseTypes_eq_ok_iff.mpr ⟨hlen, hcomplete, h.symm⟩⟩
  · have htext : readText msg.signature = .ok (asciiText msg.signature) := by
      rw [readText_eq_ok_iff, h]
      exact utf8_asciiText (Ty.byte_lt_of_mem_renderAll ts)
    simp only [Message.reader, htext, Argument.checkSignature, Argument.listOfSignature,
      parseTypes_tooLong hlong]
    rfl

/-- What a method or a signal writes has the signature of what is described. The message can be
opened exactly if that is no longer than signatures may be, which it is for a method or a signal
that is made from signatures. -/
theorem Message.opensIfShort_of_marshal (x : Marshaller) (e e' : Endian) :
    (∀ (m : Method) kind record msg, (∀ a ∈ m.carried kind, a.ty.Valid) →
      (m.marshal x record (.top e) kind).run {} = .ok () msg →
        msg.signature = m.messageSignature kind ∧ msg.OpensIfShort e') ∧
    (∀ (s : Signal) values msg, (∀ a ∈ s.args, a.ty.Valid) →
      (s.marshal x values (.top e)).run {} = .ok () msg →
        msg.signature = s.messageSignature ∧ msg.OpensIfShort e') ∧
    (∀ name inputs outputs m kind record msg, Method.ofSignatures name inputs outputs = .ok m →
      (m.marshal x record (.top e) kind).run {} = .ok () msg → ∃ r, msg.reader e' = .ok r) ∧
    (∀ name signature s values msg, Signal.ofSignature name signature = .ok s →
      (s.marshal x values (.top e)).run {} = .ok () msg → ∃ r, msg.reader e' = .ok r) := by
  have hmethod : ∀ (m : Method) kind record msg, (∀ a ∈ m.carried kind, a.ty.Valid) →
      (m.marshal x record (.top e) kind).run {} = .ok () msg →
        msg.signature = m.messageSignature kind ∧ msg.OpensIfShort e' := by
    intro m kind record msg hm h
    have hsignature := Method.records_marshal hm _ _ _ h
    exact ⟨hsignature, opensIfShort (List.forall_mem_map.mpr hm) hsignature e'⟩
  have hsignal : ∀ (s : Signal) values msg, (∀ a ∈ s.args, a.ty.Valid) →
      (s.marshal x values (.top e)).run {} = .ok () msg →
        msg.signature = s.messageSignature ∧ msg.OpensIfShort e' := by
    intro s values msg hs h
    have hsignature := Signal.records_marshal hs _ _ _ h
    exact ⟨hsignature, opensIfShort (List.forall_mem_map.mpr hs) hsignature e'⟩
  refine ⟨hmethod, hsignal, ?_, ?_⟩
  · intro name inputs outputs m kind record msg hm h
    obtain ⟨hvalid, hlen⟩ := (Method.ofSignatures_eq_ok hm).1 kind
    obtain ⟨hsignature, hopens⟩ := hmethod m kind record msg hvalid h
    exact hopens.opens.mpr (hsignature ▸ hlen)
  · intro name signature s values msg hs h
    simp only [Signal.ofSignature, bind_eq_ok, pure_eq_ok] at hs
    obtain ⟨args, hargs, rfl⟩ := hs
    obtain ⟨hlen, hvalid, hrender⟩ := Argument.listOfSignature_eq_ok hargs
    obtain ⟨hsignature, hopens⟩ := hsignal _ values msg hvalid h
    exact hopens.opens.mpr (by rwa [hsignature, Signal.messageSignature, hrender])

/-- A call with a byte. -/
theorem Message.opensIfShort_of_marshal_byte :
    let m : Method := { name := "M", inputs := [⟨.int .byte, none⟩] }
    let record : CallRecord := ⟨⟨[.scalar (.int .byte)], .void⟩, [.word (.ofNat 9)], .empty, rfl⟩
    Method.ofSignatures "M" [121] [] = .ok m ∧
      (m.marshal ⟨.standard, 64⟩ record (.top .little) .call).run {} = .ok () ⟨[9], [121]⟩ ∧
      ∃ r, Message.reader ⟨[9], [121]⟩ .little = .ok r := by
  intro m record
  have hm : Method.ofSignatures "M" [121] [] = .ok m := by rfl
  have hmsg : (m.marshal ⟨.standard, 64⟩ record (.top .little) .call).run {} =
      .ok () ⟨[9], [121]⟩ := by rfl
  obtain ⟨-, -, hmethod, -⟩ := opensIfShort_of_marshal ⟨.standard, 64⟩ .little .little
  exact ⟨hm, hmsg, hmethod _ _ _ _ _ _ _ hm hmsg⟩

/-- Two arguments that are valid one by one, of 129 bytes each. A signal of them is written, but
its message cannot be opened. -/
theorem Signal.exists_marshal_unopened :
    let t : Ty := .array (.struct (List.replicate 126 (.int .byte)))
    let s : Signal := { name := "S", args := [⟨t, none⟩, ⟨t, none⟩] }
    let msg : Message := ⟨[0, 0, 0, 0, 0, 0, 0, 0, 0, 0, 0, 0, 0, 0, 0, 0], t.render ++ t.render⟩
    (∀ a ∈ s.args, a.ty.Valid) ∧
      (s.marshal ⟨.standard, 64⟩ [.array [], .array []] (.top .little)).run {} = .ok () msg ∧
      ∀ r, msg.reader .little ≠ .ok r := by
  intro t s msg
  have hlen : t.render.length = 129 := by simp [t, Ty.render, Ty.renderAll_eq_flatten]
  have ht : t.Valid := by
    refine Ty.valid_iff.mpr
      ⟨by simp [hlen, maxSignatureLength], .array (.struct (by simp) fun u hu => ?_)⟩
    obtain rfl := List.eq_of_mem_replicate hu
    exact .basic _
  have hts : ∀ u ∈ [t, t], u.Valid := by simpa using ht
  have hopens : msg.OpensIfShort .little :=
    Message.opensIfShort hts (by simp [Ty.renderAll, msg]) _
  refine ⟨by simpa [s] using ht, by rfl, fun r hr => ?_⟩
  exact absurd (hopens.opens.mp ⟨r, hr⟩) (by simp [msg, hlen])

end DBus

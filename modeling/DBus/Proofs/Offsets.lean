import DBus.Proofs.AppendOnly
import DBus.Proofs.Checked

/-!
# Writing at other offsets

What is appended to a body depends on the length of the body only modulo 8, the widest alignment,
and how much it is does not depend on the byte order (`Marshaller.writeValue_congruent`).

Two runs of writing are followed side by side, each from its own `Origin`. The messages stay
`Beside` each other: both have grown by as many bytes, in one byte order by the same ones. A
position in a body goes with the position in the other one that is as far from where its run began,
and so do the frames of open arrays. Every operation keeps this or fails on both sides with the same
error (`Write.Beside`).
-/

namespace DBus

/-- Where a run of writing begins, and its byte order. -/
structure Origin where
  message : Message
  endian : Endian

variable {o o' : Origin}

/-- The bodies that two runs begin with differ in length by a multiple of the widest alignment. -/
def Origin.Congruent (o o' : Origin) : Prop :=
  o.message.data.length % 8 = o'.message.data.length % 8

/-- Bytes that two runs append. -/
structure Origin.Parallel (o o' : Origin) (bs bs' : Bytes) : Prop where
  length : bs.length = bs'.length
  eq : o.endian = o'.endian → bs = bs'

/-- Two runs have come to messages that both have grown by as many bytes, in one byte order by the
same ones, and by the same signature. -/
def Message.Beside (o o' : Origin) (msg msg' : Message) : Prop :=
  ∃ bs bs' s, o.Parallel o' bs bs' ∧ msg = ⟨o.message.data ++ bs, o.message.signature ++ s⟩ ∧
    msg' = ⟨o'.message.data ++ bs', o'.message.signature ++ s⟩

/-- Positions as far from where the runs begin. -/
def Origin.Shifted (o o' : Origin) (p p' : Nat) : Prop :=
  ∃ n, p = o.message.data.length + n ∧ p' = o'.message.data.length + n

/-- Two runs of an operation fail with the same error, or both succeed. Then the results go
together, and the messages do. -/
def Write.Beside {α : Type} (o o' : Origin) (R : α → α → Prop) (x x' : Write α) : Prop :=
  ∀ msg msg', Message.Beside o o' msg msg' →
    (∃ e left left', x.run msg = .error e left ∧ x'.run msg' = .error e left') ∨
    ∃ a a' mid mid', x.run msg = .ok a mid ∧ x'.run msg' = .ok a' mid' ∧ R a a' ∧
      Message.Beside o o' mid mid'

namespace Origin.Parallel

variable {bs bs' cs cs' : Bytes}

theorem refl (bs : Bytes) : o.Parallel o' bs bs := ⟨rfl, fun _ => rfl⟩

/-- What is appended in parallel stays parallel. -/
theorem append (h : o.Parallel o' bs bs') (h' : o.Parallel o' cs cs') :
    o.Parallel o' (bs ++ cs) (bs' ++ cs') :=
  ⟨by rw [List.length_append, List.length_append, h.length, h'.length],
    fun he => by rw [h.eq he, h'.eq he]⟩

/-- Bytes are patched at the same place of both. -/
theorem patch (h : o.Parallel o' bs bs') (h' : o.Parallel o' cs cs') (start : Nat) :
    o.Parallel o' (Writer.patch bs start cs) (Writer.patch bs' start cs') := by
  refine ⟨?_, fun he => by rw [h.eq he, h'.eq he]⟩
  simp [Writer.patch, h.length, h'.length]

end Origin.Parallel

/-- Patching leaves what is in front alone. -/
theorem Writer.patch_front (front data bs : Bytes) (n : Nat) :
    patch (front ++ data) (front.length + n) bs = front ++ patch data n bs := by
  simp only [patch, List.take_length_add_append, Nat.add_assoc, List.drop_length_add_append,
    List.append_assoc]

/-- Sizes divide the widest alignment. -/
theorem FixedCode.size_dvd (c : FixedCode) : c.size ∣ 8 := by
  rcases Checked.size_cases c with h | h | h | h <;> rw [h] <;> decide

/-- Alignments divide the widest one. -/
theorem TypeCode.alignment_dvd (c : TypeCode) : c.alignment ∣ 8 := by
  rcases Checked.alignment_cases c with h | h | h | h <;> rw [h] <;> decide

namespace Message.Beside

variable {msg msg' : Message} (h : Beside o o' msg msg')

include h

/-- Messages stay side by side when parallel bytes are appended. -/
theorem append_data {bs bs' : Bytes} (hbs : o.Parallel o' bs bs') :
    Beside o o' { msg with data := msg.data ++ bs } { msg' with data := msg'.data ++ bs' } := by
  obtain ⟨cs, cs', s, hcs, rfl, rfl⟩ := h
  exact ⟨cs ++ bs, cs' ++ bs', s, hcs.append hbs, by rw [List.append_assoc],
    by rw [List.append_assoc]⟩

/-- Messages stay side by side when one signature is recorded in both. -/
theorem append_signature (s : Bytes) : Beside o o' { msg with signature := msg.signature ++ s }
    { msg' with signature := msg'.signature ++ s } := by
  obtain ⟨cs, cs', t, hcs, rfl, rfl⟩ := h
  exact ⟨cs, cs', t ++ s, hcs, by rw [List.append_assoc], by rw [List.append_assoc]⟩

/-- The ends of messages side by side are positions that go together. -/
theorem shifted : o.Shifted o' msg.data.length msg'.data.length := by
  obtain ⟨cs, cs', s, hcs, rfl, rfl⟩ := h
  exact ⟨cs.length, List.length_append, by rw [hcs.length]; exact List.length_append⟩

/-- Bytes are replaced as far from where the runs begin. -/
theorem patch {p p' : Nat} (hp : o.Shifted o' p p') {bs bs' : Bytes} (hbs : o.Parallel o' bs bs') :
    Beside o o' { msg with data := Writer.patch msg.data p bs }
      { msg' with data := Writer.patch msg'.data p' bs' } := by
  obtain ⟨cs, cs', s, hcs, rfl, rfl⟩ := h
  obtain ⟨n, rfl, rfl⟩ := hp
  exact ⟨_, _, s, hcs.patch hbs n, by rw [Writer.patch_front], by rw [Writer.patch_front]⟩

end Message.Beside

/-- Padding is the same where the positions are congruent. -/
theorem Origin.Shifted.padding_eq {p p' : Nat} (h : o.Shifted o' p p') (ho : o.Congruent o')
    {alignment : Nat} (ha : alignment ∣ 8) : padding p alignment = padding p' alignment := by
  obtain ⟨n, rfl, rfl⟩ := h
  have hmod : o.message.data.length % alignment = o'.message.data.length % alignment := by
    rw [← Nat.mod_mod_of_dvd _ ha, ho, Nat.mod_mod_of_dvd _ ha]
  rw [padding, padding, Nat.add_mod, hmod, ← Nat.add_mod]

/-- Distances between positions are the same in both runs. -/
theorem Origin.Shifted.sub_eq {p p' q q' : Nat} (hp : o.Shifted o' p p')
    (hq : o.Shifted o' q q') : p - q = p' - q' := by
  obtain ⟨n, rfl, rfl⟩ := hp
  obtain ⟨k, rfl, rfl⟩ := hq
  omega

/-! ## Composing -/

namespace Write.Beside

variable {α β : Type} {R : α → α → Prop} {S : β → β → Prop}

theorem pure {a a' : α} (h : R a a') : Beside o o' R (Pure.pure a) (Pure.pure a') :=
  fun msg msg' hmsg => .inr ⟨a, a', msg, msg', rfl, rfl, h, hmsg⟩

theorem throw (e : Error) : Beside o o' R (MonadExcept.throw e) (MonadExcept.throw e) :=
  fun msg msg' _ => .inl ⟨e, msg, msg', rfl, rfl⟩

/-- Two steps run side by side if the first do and the second do from results that go together. -/
theorem bind {x x' : Write α} {f f' : α → Write β} (hx : Beside o o' R x x')
    (hf : ∀ a a', R a a' → Beside o o' S (f a) (f' a')) :
    Beside o o' S (x >>= f) (x' >>= f') := by
  intro msg msg' hmsg
  rcases hx msg msg' hmsg with ⟨e, left, left', h, h'⟩ | ⟨a, a', mid, mid', h, h', ha, hmid⟩
  · exact .inl ⟨e, left, left', run_bind_eq_error.mpr (.inl h), run_bind_eq_error.mpr (.inl h')⟩
  · rcases hf a a' ha mid mid' hmid with
      ⟨e, left, left', hb, hb'⟩ | ⟨b, b', last, last', hb, hb', hS, hlast⟩
    · exact .inl ⟨e, left, left', run_bind_eq_error.mpr (.inr ⟨a, mid, h, hb⟩),
        run_bind_eq_error.mpr (.inr ⟨a', mid', h', hb'⟩)⟩
    · exact .inr ⟨b, b', last, last', run_bind_eq_ok.mpr ⟨a, mid, h, hb⟩,
        run_bind_eq_ok.mpr ⟨a', mid', h', hb'⟩, hS, hlast⟩

/-- An operation behind one without a result of its own. -/
theorem after {x x' : Write Unit} {f f' : Unit → Write β} (hx : Beside o o' Eq x x')
    (hf : Beside o o' S (f ()) (f' ())) : Beside o o' S (x >>= f) (x' >>= f') :=
  hx.bind fun _ _ _ => hf

/-- What does not write is the same on both sides. -/
theorem lift (x : Except Error α) : Beside o o' Eq (liftM x) (liftM x) := by
  cases x with
  | ok a => exact .pure rfl
  | error e => exact .throw e

theorem discard_lift (x : Except Error α) :
    Beside o o' Eq (discard (liftM x) : Write PUnit) (discard (liftM x)) := by
  cases x with
  | ok a => exact .pure rfl
  | error e => exact .throw e

end Write.Beside

namespace Writer

open Write

/-! ## Bytes -/

theorem beside_emit {bs bs' : Bytes} (h : o.Parallel o' bs bs') :
    Beside o o' Eq (emit bs) (emit bs') :=
  fun _ _ hmsg => .inr ⟨(), (), _, _, rfl, rfl, rfl, hmsg.append_data h⟩

/-- Padding is the same on both sides, for the origins are the same modulo 8. -/
theorem beside_align (ho : o.Congruent o') {alignment : Nat} (ha : alignment ∣ 8) :
    Beside o o' Eq (align alignment) (align alignment) := by
  intro msg msg' hmsg
  have hzeros : o.Parallel o' (List.replicate (padding msg.data.length alignment) 0)
      (List.replicate (padding msg'.data.length alignment) 0) := by
    rw [hmsg.shifted.padding_eq ho ha]
    exact .refl _
  exact .inr ⟨(), (), _, _, rfl, rfl, rfl, hmsg.append_data hzeros⟩

theorem beside_position : Beside o o' (o.Shifted o') position position :=
  fun _ _ hmsg => .inr ⟨_, _, _, _, rfl, rfl, hmsg.shifted, hmsg⟩

/-- Writers of the two runs. A frame is as far from where one run begins as the other frame is
from where the other one does. -/
structure Beside (w : Writer) (o o' : Origin) (w' : Writer) : Prop where
  endian : w.endian = o.endian
  endian' : w'.endian = o'.endian
  records : w.records = w'.records
  levels : w.levels = w'.levels
  array : (w.array = none ∧ w'.array = none) ∨
    ∃ frame frame', w.array = some frame ∧ w'.array = some frame' ∧
      o.Shifted o' frame.lengthAt frame'.lengthAt ∧ o.Shifted o' frame.start frame'.start

/-! ## Values -/

namespace Beside

variable {w w' : Writer} (h : w.Beside o o' w')

include h

/-- Signatures are recorded on both sides or on neither. -/
theorem record (signature : Bytes) :
    Write.Beside o o' Eq (w.record signature) (w'.record signature) := by
  unfold Writer.record
  rw [h.records]
  split
  · exact fun _ _ hmsg => .inr ⟨(), (), _, _, rfl, rfl, rfl, hmsg.append_signature signature⟩
  · exact .pure rfl

/-- Bytes that the byte order decides, as many in either. -/
theorem parallel {f : Endian → Bytes} (hlen : ∀ e e', (f e).length = (f e').length) :
    o.Parallel o' (f w.endian) (f w'.endian) :=
  ⟨hlen _ _, fun he => by rw [h.endian, h.endian', he]⟩

/-- A number takes as many bytes in one byte order as in the other. -/
theorem encode (width n : Nat) :
    o.Parallel o' (w.endian.encode width n) (w'.endian.encode width n) :=
  h.parallel (f := fun e => e.encode width n) fun e e' => by
    rw [Endian.length_encode, Endian.length_encode]

/-- A word is put on both sides. -/
theorem putWord (ho : o.Congruent o') (c : FixedCode) (word : Word) :
    Write.Beside o o' Eq (w.putWord c word) (w'.putWord c word) := by
  have hword := h.parallel (f := fun e => e.encodeWord c word) fun e e' => by
    rw [Endian.length_encodeWord, Endian.length_encodeWord]
  exact (beside_align ho c.size_dvd).after ((beside_emit hword).after (h.record _))

theorem putLength (ho : o.Congruent o') (c : TextCode) (s : String) :
    Write.Beside o o' Eq (w.putLength c s) (w'.putLength c s) := by
  unfold Writer.putLength
  cases c with
  | signature =>
    dsimp only
    split
    · exact beside_emit (.refl _)
    · exact .throw _
  | string | objectPath =>
    exact (beside_align ho (by decide)).after (beside_emit (h.encode 4 _))

/-- A text is put or refused on both sides. -/
theorem putText (ho : o.Congruent o') (c : TextCode) (s : String) :
    Write.Beside o o' Eq (w.putText c s) (w'.putText c s) := by
  unfold Writer.putText
  split
  · exact .bind (R := Eq) (.throw _) fun _ _ _ => .after (h.putLength ho c s) <|
      .after (beside_emit (.refl _)) (h.record _)
  · exact .after (h.putLength ho c s) (.after (beside_emit (.refl _)) (h.record _))

theorem appendWord (ho : o.Congruent o') (c : TypeCode) (word : Word) :
    Write.Beside o o' Eq (w.appendWord c word) (w'.appendWord c word) := by
  unfold Writer.appendWord
  split
  · exact h.putWord ho _ word
  · exact .throw _

theorem appendText (ho : o.Congruent o') (c : TypeCode) (s : String) :
    Write.Beside o o' Eq (w.appendText c s) (w'.appendText c s) := by
  unfold Writer.appendText
  split
  · exact h.putText ho _ s
  · split <;> exact .throw _

/-! ## Containers -/

/-- The writers inside of containers that are no arrays go together. -/
theorem nested : Write.Beside o o' (Writer.Beside · o o' ·) (w.nested none) (w'.nested none) := by
  unfold Writer.nested
  rw [h.levels]
  split
  · exact .throw _
  · exact .pure ⟨h.endian, h.endian', rfl, rfl, .inl ⟨rfl, rfl⟩⟩

/-- The writers inside of an array keep frames that go together. -/
theorem nested_array {frame frame' : ArrayFrame}
    (hat : o.Shifted o' frame.lengthAt frame'.lengthAt)
    (hstart : o.Shifted o' frame.start frame'.start) :
    Write.Beside o o' (Writer.Beside · o o' ·) (w.nested (some frame))
      (w'.nested (some frame')) := by
  unfold Writer.nested
  rw [h.levels]
  split
  · exact .throw _
  · exact .pure ⟨h.endian, h.endian', rfl, rfl, .inr ⟨_, _, rfl, rfl, hat, hstart⟩⟩

/-- An array is opened or refused on both sides. -/
theorem openArray (ho : o.Congruent o') (element : Bytes) :
    Write.Beside o o' (Writer.Beside · o o' ·) (w.openArray element) (w'.openArray element) := by
  unfold Writer.openArray
  split
  · exact .throw _
  · next c hc =>
    refine .after (h.record _) (.after (beside_align ho (by decide)) ?_)
    refine .bind beside_position fun p p' hat => .after (beside_emit (.refl _)) ?_
    exact .after (beside_align ho c.alignment_dvd) (.bind beside_position fun q q' hstart =>
      h.nested_array hat hstart)

theorem openStruct (ho : o.Congruent o') (signature : Bytes) :
    Write.Beside o o' (Writer.Beside · o o' ·) (w.openStruct signature)
      (w'.openStruct signature) :=
  .after (h.record _) (.after (beside_align ho (by decide)) h.nested)

theorem openDictEntry (ho : o.Congruent o') :
    Write.Beside o o' (Writer.Beside · o o' ·) w.openDictEntry w'.openDictEntry :=
  .after (beside_align ho (by decide)) h.nested

/-- A variant is opened or refused on both sides. -/
theorem openVariant (contents : Bytes) :
    Write.Beside o o' (Writer.Beside · o o' ·) (w.openVariant contents)
      (w'.openVariant contents) := by
  unfold Writer.openVariant
  split
  · exact .throw _
  · exact .after (h.record _) (.after (beside_emit (.refl _)) h.nested)

/-- The length of an array is the same in both runs, and it is put in the same place. -/
theorem close : Write.Beside o o' Eq w.close w'.close := by
  rcases h.array with ⟨hw, hw'⟩ | ⟨frame, frame', hw, hw', hat, hstart⟩
  · unfold Writer.close
    rw [hw, hw']
    exact .pure rfl
  · -- the contents end and start as far from where the runs begin, so they are equally long
    intro msg msg' hmsg
    have hlen := hmsg.shifted.sub_eq hstart
    rw [run_close_array hw, run_close_array hw', ← hlen]
    split
    · exact .inl ⟨_, _, _, rfl, rfl⟩
    · exact .inr ⟨(), (), _, _, rfl, rfl, rfl, hmsg.patch hat (h.encode 4 _)⟩

end Beside

end Writer

/-! ## Writing values -/

namespace Marshaller

open Write

variable {m : Marshaller} {w w' : Writer}

/-- Items are written side by side. -/
theorem beside_forM {write write' : Value → Write Unit}
    (h : ∀ v, Beside o o' Eq (write v) (write' v)) (vs : List Value) :
    Beside o o' Eq (vs.forM write) (vs.forM write') := by
  induction vs with
  | nil => exact .pure rfl
  | cons v vs ih => exact (h v).after ih

/-- Fields are written side by side. -/
theorem beside_writeFields {write write' : Ty → Value → Write Unit}
    (h : ∀ t v, Beside o o' Eq (write t v) (write' t v)) :
    ∀ (ts : List Ty) (vs : List Value),
      Beside o o' Eq (writeFields write ts vs) (writeFields write' ts vs)
  | t :: ts, v :: vs => (h t v).after (beside_writeFields h ts vs)
  | [], _ => .pure rfl
  | _ :: _, [] => .pure rfl

/-- A container is written side by side if what is inside of it is. -/
theorem beside_container {opening opening' : Write Writer}
    (hopen : Beside o o' (Writer.Beside · o o' ·) opening opening')
    {fill : (room : Nat) → Writer → Write Unit}
    (hfill : ∀ room items items', Writer.Beside items o o' items' →
      Beside o o' Eq (fill room items) (fill room items')) (room : Nat) :
    Beside o o' Eq
      (do
        let room ← liftM (m.deeper room)
        let items ← opening
        fill room items
        items.close)
      (do
        let room ← liftM (m.deeper room)
        let items ← opening'
        fill room items
        items.close) := by
  refine (Beside.lift _).bind fun room _ hroom => ?_
  subst hroom
  exact hopen.bind fun items items' hitems => (hfill room items items' hitems).after hitems.close

/-- One level of writing goes side by side, if the level below does. -/
theorem beside_writeBy (ho : o.Congruent o')
    {inner : (room : Nat) → Ty → Value → Writer → Write Unit}
    (hinner : ∀ room t v (w w' : Writer), w.Beside o o' w' →
      Beside o o' Eq (inner room t v w) (inner room t v w'))
    (room : Nat) (t : Ty) (v : Value) (hw : w.Beside o o' w') :
    Beside o o' Eq (m.writeBy inner room t v w) (m.writeBy inner room t v w') := by
  refine (Beside.discard_lift _).after ?_
  split
  · refine (Beside.lift _).bind fun u u' hu => ?_
    subst hu
    cases u with
    | word word => exact hw.appendWord ho _ word
    | str s => exact hw.appendText ho _ s
  · next e vs =>
    exact beside_container (hw.openArray ho _) (fun room items items' hitems =>
      beside_forM (fun v => hinner room e v items items' hitems) vs) room
  · next ts vs =>
    split
    · exact .bind (R := Eq) (.throw _) fun _ _ _ =>
        beside_container (hw.openStruct ho _) (fun room fields fields' hfields =>
          beside_writeFields (fun t v => hinner room t v fields fields' hfields) ts vs) room
    · exact beside_container (hw.openStruct ho _) (fun room fields fields' hfields =>
        beside_writeFields (fun t v => hinner room t v fields fields' hfields) ts vs) room
  · next k u key value =>
    -- the key and the value are what is inside
    simp only [← bind_assoc]
    exact beside_container (hw.openDictEntry ho) (fun room entry entry' hentry =>
      (hinner room (.basic k) key entry entry' hentry).after
        (hinner room u value entry entry' hentry)) room
  · refine (Beside.lift _).bind fun p _ hp => ?_
    subst hp
    obtain ⟨u, contents⟩ := p
    exact beside_container (hw.openVariant _) (fun room inside inside' hinside =>
      hinner room u.ty contents inside inside' hinside) room
  · exact .throw _

/-- Any number of levels of writing, by induction on them. -/
theorem beside_writeWithin (ho : o.Congruent o') (levels room : Nat) (t : Ty) (v : Value)
    (hw : w.Beside o o' w') :
    Beside o o' Eq (m.writeWithin levels room t v w) (m.writeWithin levels room t v w') := by
  induction levels generalizing room t v w w' with
  | zero => exact beside_writeBy ho (fun _ _ _ _ _ _ => .throw _) room t v hw
  | succ levels ih =>
    exact beside_writeBy ho (fun room t v w w' hw => ih room t v hw) room t v hw

/-- Writing depends on the length of a body only modulo 8. On two messages with bodies of
congruent lengths, and in either byte order, a value is refused with the same error, or it is
appended in as many bytes and with the same signature. In one byte order these are the same
bytes. -/
theorem writeValue_congruent {msg msg' : Message}
    (hlen : msg.data.length % 8 = msg'.data.length % 8) (maxDepth : Nat) (t : Ty) (v : Value)
    (e e' : Endian) :
    (∃ err left left',
      ((⟨.standard, maxDepth⟩ : Marshaller).writeValue t v (.top e)).run msg = .error err left ∧
      ((⟨.standard, maxDepth⟩ : Marshaller).writeValue t v (.top e')).run msg' =
        .error err left') ∨
    ∃ bs bs' s,
      ((⟨.standard, maxDepth⟩ : Marshaller).writeValue t v (.top e)).run msg =
        .ok () ⟨msg.data ++ bs, msg.signature ++ s⟩ ∧
      ((⟨.standard, maxDepth⟩ : Marshaller).writeValue t v (.top e')).run msg' =
        .ok () ⟨msg'.data ++ bs', msg'.signature ++ s⟩ ∧
      bs.length = bs'.length ∧ (e = e' → bs = bs') := by
  have hw : Writer.Beside (.top e) ⟨msg, e⟩ ⟨msg', e'⟩ (.top e') :=
    ⟨rfl, rfl, rfl, rfl, .inl ⟨rfl, rfl⟩⟩
  have hmsg : Message.Beside ⟨msg, e⟩ ⟨msg', e'⟩ msg msg' :=
    ⟨[], [], [], .refl [], by simp, by simp⟩
  have ho : Origin.Congruent ⟨msg, e⟩ ⟨msg', e'⟩ := hlen
  rcases beside_writeWithin (m := ⟨.standard, maxDepth⟩) ho maxNesting maxDepth t v hw msg msg'
    hmsg with hfail | ⟨_, _, _, _, hrun, hrun', -, bs, bs', s, hbs, rfl, rfl⟩
  · exact .inl hfail
  · exact .inr ⟨bs, bs', s, hrun, hrun', hbs.length, hbs.eq⟩

/-- An array in a variant, behind one byte and behind nine. -/
theorem writeValue_congruent_variant :
    ((⟨.standard, 64⟩ : Marshaller).writeValue .variant (.array [.scalar (.boolean true)])
        (.top .little)).run ⟨[7], [121]⟩ =
      .ok () ⟨[7, 2, 97, 98, 0, 0, 0, 0, 4, 0, 0, 0, 1, 0, 0, 0], [121, 118]⟩ ∧
    ((⟨.standard, 64⟩ : Marshaller).writeValue .variant (.array [.scalar (.boolean true)])
        (.top .little)).run ⟨[1, 2, 3, 4, 5, 6, 7, 8, 9], [116, 121]⟩ =
      .ok () ⟨[1, 2, 3, 4, 5, 6, 7, 8, 9] ++ [2, 97, 98, 0, 0, 0, 0, 4, 0, 0, 0, 1, 0, 0, 0],
        [116, 121, 118]⟩ := by
  have hrun : ((⟨.standard, 64⟩ : Marshaller).writeValue .variant (.array [.scalar (.boolean true)])
      (.top .little)).run ⟨[7], [121]⟩ =
        .ok () ⟨[7, 2, 97, 98, 0, 0, 0, 0, 4, 0, 0, 0, 1, 0, 0, 0], [121, 118]⟩ := by rfl
  refine ⟨hrun, ?_⟩
  have hlen : (⟨[7], [121]⟩ : Message).data.length % 8 =
      (⟨[1, 2, 3, 4, 5, 6, 7, 8, 9], [116, 121]⟩ : Message).data.length % 8 := rfl
  rcases writeValue_congruent hlen 64 .variant (.array [.scalar (.boolean true)]) .little .little
    with ⟨err, left, -, h, -⟩ | ⟨bs, bs', s, h, h', -, heq⟩
  · cases hrun.symm.trans h
  · obtain rfl := heq rfl
    cases hrun.symm.trans h
    exact h'

end Marshaller

end DBus

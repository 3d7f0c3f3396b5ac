import DBus.Proofs.Appending

/-!
# Sequences of writer operations

What is done through a writer is a list of `Action`s. A container is opened, filled by actions
through the writer that opening gives, and closed or given up. Any of it may fail, and the actions
behind it are done all the same.

Every operation but closing leaves a message that goes on from the one it found
(`Writer.Appended`), whether it succeeds or not (`Write.Appends`). Closing an array writes into
what is there, but only at the length that its own opening has written (`Writer.close_openArray`),
which is behind everything that had been written before. So a list of actions goes on from the
message it found, too (`Writer.appended_performAll`).
-/

namespace DBus

-- `^` is the power of the standard library, whichever others are in scope.
attribute [local instance (1100)] instPowNat

/-- The message that an operation leaves, also where it fails. -/
def Write.left {α : Type} (x : Write α) (msg : Message) : Message :=
  match x.run msg with
  | .ok _ msg' => msg'
  | .error _ msg' => msg'

namespace Writer

/-! ## Actions -/

/-- A container to open, with the signature that is given for it. -/
inductive Opening
  | array (element : Bytes)
  | struct (signature : Bytes)
  | dictEntry
  | variant (contents : Bytes)

/-- Open a container. -/
def Opening.run (w : Writer) : Opening → Write Writer
  | array element => w.openArray element
  | struct signature => w.openStruct signature
  | dictEntry => w.openDictEntry
  | variant contents => w.openVariant contents

/-- One thing that is done through a writer. A container is filled through the writer inside it,
and then closed, or dropped as it is. -/
inductive Action
  | word (code : TypeCode) (word : Word)
  | text (code : TypeCode) (s : String)
  | container (opening : Opening) (inside : List Action) (closed : Bool)

mutual

/-- The message that an action leaves. Nothing is done inside a container that fails to open. -/
def perform (w : Writer) (msg : Message) : Action → Message
  | .word c word => (w.appendWord c word).left msg
  | .text c s => (w.appendText c s).left msg
  | .container opening inside closed =>
    match (opening.run w).run msg with
    | .error _ mid => mid
    | .ok items mid =>
      let filled := items.performAll mid inside
      if closed then items.close.left filled else filled

/-- The message that actions leave, one after the other. -/
def performAll (w : Writer) (msg : Message) : List Action → Message
  | [] => msg
  | a :: as => w.performAll (w.perform msg a) as

end

/-! ## Going on from a message -/

/-- The second message goes on from the first one, as far as the writer may add to it : the body
in any case, and the signature where the writer records types. -/
structure Appended (w : Writer) (msg msg' : Message) : Prop where
  data : msg.data <+: msg'.data
  signature : ∃ s, msg'.signature = msg.signature ++ w.recorded s

namespace Appended

variable {w items : Writer} {msg mid msg' : Message}

/-- Nothing has to be appended. -/
theorem refl (w : Writer) (msg : Message) : w.Appended msg msg :=
  ⟨List.prefix_refl _, [], by simp [recorded_nil]⟩

/-- What goes on from a message that goes on from another goes on from that one. -/
theorem trans (h : w.Appended msg mid) (h' : w.Appended mid msg') : w.Appended msg msg' := by
  obtain ⟨s, hs⟩ := h.signature
  obtain ⟨t, ht⟩ := h'.signature
  exact ⟨h.data.trans h'.data, s ++ t, by rw [ht, hs, recorded_append, List.append_assoc]⟩

/-- What has been recorded stays at the front of the signature. -/
theorem signature_prefix (h : w.Appended msg msg') : msg.signature <+: msg'.signature := by
  obtain ⟨s, hs⟩ := h.signature
  exact ⟨w.recorded s, hs.symm⟩

/-- Below the top no signature is recorded. -/
theorem signature_eq (h : w.Appended msg msg') (hw : w.records = false) :
    msg'.signature = msg.signature := by
  obtain ⟨s, hs⟩ := h.signature
  rw [hs, recorded_inside hw, List.append_nil]

/-- What is done inside a container is done through any other writer, too. -/
theorem of_inside (h : items.Appended msg msg') (hitems : items.records = false) :
    w.Appended msg msg' :=
  ⟨h.data, [], by rw [h.signature_eq hitems, recorded_nil, List.append_nil]⟩

end Appended

end Writer

/-! ## Operations one by one -/

namespace Write

variable {α β : Type} {w : Writer}

/-- The operation goes on from any message it finds. -/
def Appends (w : Writer) (x : Write α) : Prop := ∀ msg, w.Appended msg (x.left msg)

namespace Appends

open Writer

theorem pure (a : α) : Appends w (Pure.pure a : Write α) := Appended.refl w

/-- A failure appends nothing. -/
theorem throw (e : Error) : Appends w (MonadExcept.throw e : Write α) := Appended.refl w

/-- Two steps append, whether the first succeeds or not. -/
theorem bind {x : Write α} {f : α → Write β} (hx : Appends w x) (hf : ∀ a, Appends w (f a)) :
    Appends w (x >>= f) := by
  intro msg
  have h := hx msg
  unfold left at h ⊢
  rw [EStateM.run_bind]
  cases hrun : x.run msg with
  | ok a mid =>
    rw [hrun] at h
    exact h.trans (hf a mid)
  | error e mid =>
    rw [hrun] at h
    exact h

theorem ite {p : Prop} [Decidable p] {x y : Write α} (hx : Appends w x) (hy : Appends w y) :
    Appends w (if p then x else y) := by
  split
  · exact hx
  · exact hy

/-- An operation that does not fail and adds cells and a signature. -/
theorem of_run {x : Write α} {a : α} {cells : Message → List Cell} {s : Bytes}
    (h : ∀ msg, x.run msg = .ok a (msg.extend (cells msg) (w.recorded s))) : Appends w x := by
  intro msg
  rw [left, h msg]
  exact ⟨List.prefix_append _ _, s, rfl⟩

theorem emit (bs : Bytes) : Appends w (Writer.emit bs) :=
  of_run (s := []) fun _ => by rw [run_emit, recorded_nil]

theorem align (alignment : Nat) : Appends w (Writer.align alignment) :=
  of_run (s := []) fun _ => by rw [run_align, recorded_nil]

theorem position : Appends w Writer.position := Appended.refl w

theorem record (signature : Bytes) : Appends w (w.record signature) :=
  of_run fun _ => run_record signature

theorem nested (array : Option ArrayFrame) : Appends w (w.nested array) := by
  unfold Writer.nested
  split
  · exact throw _
  · exact pure _

theorem putWord (c : FixedCode) (word : Word) : Appends w (w.putWord c word) :=
  of_run fun _ => run_putWord c word

/-- A length is appended, or refused. -/
theorem putLength (c : TextCode) (s : String) : Appends w (w.putLength c s) := by
  cases c with
  | signature => exact ite (emit _) (throw _)
  | string | objectPath => exact (align 4).bind fun _ => emit _

/-- A text is appended, or refused. -/
theorem putText (c : TextCode) (s : String) : Appends w (w.putText c s) :=
  ite ((throw _).bind fun _ => (putLength c s).bind fun _ => (emit _).bind fun _ => record _)
    ((putLength c s).bind fun _ => (emit _).bind fun _ => record _)

/-- A word is appended, or refused for the type. -/
theorem appendWord (c : TypeCode) (word : Word) : Appends w (w.appendWord c word) := by
  unfold Writer.appendWord
  split
  · exact putWord _ word
  · exact throw _

theorem appendText (c : TypeCode) (s : String) : Appends w (w.appendText c s) := by
  unfold Writer.appendText
  split
  · exact putText _ s
  · exact ite (throw _) (throw _)

/-- Opening an array appends its head, or a part of it if no level is left. -/
theorem openArray (element : Bytes) : Appends w (w.openArray element) := by
  unfold Writer.openArray
  split
  · exact throw _
  · exact (record _).bind fun _ => (align 4).bind fun _ => position.bind fun _ =>
      (emit _).bind fun _ => (align _).bind fun _ => position.bind fun _ => nested _

/-- Opening a variant appends its head, unless the signature of the contents is refused. -/
theorem openVariant (contents : Bytes) : Appends w (w.openVariant contents) := by
  unfold Writer.openVariant
  split
  · exact throw _
  · exact (record _).bind fun _ => (emit _).bind fun _ => nested none

/-- Opening any container appends. -/
theorem opening (o : Opening) : Appends w (o.run w) := by
  cases o with
  | array element => exact openArray element
  | struct signature => exact (record _).bind fun _ => (align 8).bind fun _ => nested none
  | dictEntry => exact (align 8).bind fun _ => nested none
  | variant contents => exact openVariant contents

end Appends

end Write

namespace Writer

variable {w items : Writer} {msg mid filled out : Message} {e : Error}

/-! ## Failures -/

/-- A word that is refused leaves the message as it was. -/
theorem appendWord_error {c : TypeCode} {word : Word}
    (h : (w.appendWord c word).run msg = .error e out) : out = msg := by
  unfold appendWord at h
  split at h
  · rw [run_putWord] at h
    cases h
  · cases h
    rfl

/-- So does a length. -/
theorem putLength_error {c : TextCode} {s : String}
    (h : (w.putLength c s).run msg = .error e out) : out = msg := by
  cases c with
  | signature =>
    simp only [putLength] at h
    split at h
    · rw [run_emit] at h
      cases h
    · cases h
      rfl
  | string => cases h
  | objectPath => cases h

/-- So does a text. -/
theorem appendText_error {c : TypeCode} {s : String}
    (h : (w.appendText c s).run msg = .error e out) : out = msg := by
  unfold appendText at h
  split at h
  · unfold putText at h
    split at h
    · cases h
      rfl
    · rcases run_bind_eq_error.mp h with h | ⟨_, mid, -, h⟩
      · exact putLength_error h
      · simp at h
  · split at h
    · cases h
      rfl
    · cases h
      rfl

/-! ## Containers -/

/-- An array is filled from the end of what opening it has written. -/
theorem openArray_eq_ok {element : Bytes} (h : (w.openArray element).run msg = .ok items mid) :
    ∃ c levels, element.head?.bind TypeCode.ofByte? = some c ∧
      items = ⟨w.endian, false,
        some ⟨alignUp msg.data.length 4, alignUp (alignUp msg.data.length 4 + 4) c.alignment⟩,
        levels⟩ ∧
      mid.data = msg.data ++ List.replicate (padding msg.data.length 4) 0 ++ [0, 0, 0, 0] ++
        List.replicate (padding (alignUp msg.data.length 4 + 4) c.alignment) 0 := by
  unfold openArray at h
  split at h
  · cases h
  · next c hc =>
    simp [nested_eq_ok_iff] at h
    obtain ⟨levels, -, rfl, rfl⟩ := h
    exact ⟨c, levels, hc, by simp [alignUp, Nat.add_assoc],
      by simp [Message.extend, alignUp, Nat.add_assoc]⟩

/-- The writer inside of a variant has no length to patch. -/
theorem openVariant_eq_ok {contents : Bytes}
    (h : (w.openVariant contents).run msg = .ok items mid) :
    ∃ levels, items = ⟨w.endian, false, none, levels⟩ := by
  cases hparse : parseType contents with
  | error fault =>
    simp only [openVariant, hparse] at h
    cases h
  | ok t =>
    obtain ⟨-, rfl⟩ := Ty.parseType_eq_ok_iff_valid.mp hparse
    obtain ⟨levels, -, -, hitems, -⟩ := openVariant_eq_ok_iff.mp h
    exact ⟨levels, hitems⟩

/-- The writer inside a container leaves the signature alone. If it fills an array, the length of
that array stands behind everything that was there before. -/
theorem opening_eq_ok {o : Opening} (h : (o.run w).run msg = .ok items mid) :
    items.records = false ∧ ∀ frame ∈ items.array, msg.data.length ≤ frame.lengthAt := by
  cases o with
  | array element =>
    obtain ⟨c, levels, -, rfl, -⟩ := openArray_eq_ok h
    simp [alignUp]
  | struct signature =>
    obtain ⟨levels, -, rfl, -⟩ := openStruct_eq_ok_iff.mp h
    simp
  | dictEntry =>
    obtain ⟨levels, -, rfl, -⟩ := openDictEntry_eq_ok_iff.mp h
    simp
  | variant contents =>
    obtain ⟨levels, rfl⟩ := openVariant_eq_ok h
    simp

/-- Patching behind a beginning leaves the beginning alone. -/
theorem prefix_patch {front data bs : Bytes} {start : Nat} (h : front <+: data)
    (hstart : front.length ≤ start) : front <+: patch data start bs := by
  unfold patch
  rw [List.append_assoc]
  exact (List.prefix_take_iff.mpr ⟨h, hstart⟩).trans (List.prefix_append _ _)

/-- Closing an array writes the length of its items where the opening has left room, or refuses
them. -/
theorem run_close_array {frame : ArrayFrame} (hw : w.array = some frame) :
    w.close.run msg =
      if maxArrayLength < msg.data.length - frame.start then
        .error (.arrayTooLong (msg.data.length - frame.start)) msg
      else
        .ok () ⟨patch msg.data frame.lengthAt
          (w.endian.encode 4 (msg.data.length - frame.start)), msg.signature⟩ := by
  simp only [close, hw, EStateM.run_bind, run_position]
  split <;> rfl

/-- Closing changes nothing in front of the length that it writes, and not the signature. -/
theorem left_close {front : Bytes} (hfront : front <+: msg.data)
    (harray : ∀ frame ∈ w.array, front.length ≤ frame.lengthAt) :
    front <+: (w.close.left msg).data ∧ (w.close.left msg).signature = msg.signature := by
  cases hw : w.array with
  | none =>
    unfold close Write.left
    rw [hw]
    exact ⟨hfront, rfl⟩
  | some frame =>
    rw [Write.left, run_close_array hw]
    split
    · next h =>
      split at h <;> cases h
      exact ⟨prefix_patch hfront (harray frame hw), rfl⟩
    · next h =>
      split at h <;> cases h
      exact ⟨hfront, rfl⟩

/-- Closing records no signature. -/
theorem signature_left_close (w : Writer) (msg : Message) :
    (w.close.left msg).signature = msg.signature :=
  (left_close List.nil_prefix fun _ _ => Nat.zero_le _).2

/-- A container that is opened goes on from the message before. -/
theorem appended_of_opening {o : Opening} (h : (o.run w).run msg = .ok items mid) :
    w.Appended msg mid := by
  have hleft := Write.Appends.opening (w := w) o msg
  rwa [Write.left, h] at hleft

/-- A container goes on from the message in which it is opened, also when it is closed. -/
theorem appended_close {o : Opening} (h : (o.run w).run msg = .ok items mid)
    (hfilled : items.Appended mid filled) : w.Appended msg (items.close.left filled) := by
  obtain ⟨hrecords, harray⟩ := opening_eq_ok h
  have hall := (appended_of_opening h).trans (hfilled.of_inside hrecords)
  obtain ⟨hdata, hsignature⟩ := left_close hall.data harray
  exact ⟨hdata, by rw [hsignature]; exact hall.signature⟩

/-! ## Whole sequences -/

mutual

/-- An action goes on from the message it finds. -/
theorem appended_perform (w : Writer) (msg : Message) :
    ∀ a : Action, w.Appended msg (w.perform msg a)
  | .word c word => Write.Appends.appendWord c word msg
  | .text c s => Write.Appends.appendText c s msg
  | .container o inside closed => by
    rw [perform]
    split
    · next e mid h =>
      have hleft := Write.Appends.opening (w := w) o msg
      rwa [Write.left, h] at hleft
    · next items mid h =>
      have hinside := appended_performAll items mid inside
      cases closed with
      | true => exact appended_close h hinside
      | false => exact (appended_of_opening h).trans (hinside.of_inside (opening_eq_ok h).1)

/-- So do actions one after the other. -/
theorem appended_performAll (w : Writer) (msg : Message) :
    ∀ as : List Action, w.Appended msg (w.performAll msg as)
  | [] => .refl w msg
  | a :: as => by
    rw [performAll]
    exact (appended_perform w msg a).trans (appended_performAll w _ as)

end

/-- Closing an array writes the number of bytes that it has been filled with over the four zeros
that opening it has left for that, and changes nothing else. -/
theorem close_openArray {element : Bytes} (h : (w.openArray element).run msg = .ok items mid)
    (hfilled : items.Appended mid filled) (hclose : items.close.run filled = .ok () out) :
    ∃ c contents, element.head?.bind TypeCode.ofByte? = some c ∧
      contents.length ≤ maxArrayLength ∧
      filled.data = msg.data ++ List.replicate (padding msg.data.length 4) 0 ++ [0, 0, 0, 0] ++
        List.replicate (padding (alignUp msg.data.length 4 + 4) c.alignment) 0 ++ contents ∧
      out.data = msg.data ++ List.replicate (padding msg.data.length 4) 0 ++
        w.endian.encode 4 contents.length ++
        List.replicate (padding (alignUp msg.data.length 4 + 4) c.alignment) 0 ++ contents ∧
      out.signature = filled.signature := by
  obtain ⟨c, levels, hc, rfl, hmid⟩ := openArray_eq_ok h
  obtain ⟨contents, hcontents⟩ := hfilled.data
  have hlength : filled.data.length - alignUp (alignUp msg.data.length 4 + 4) c.alignment =
      contents.length := by
    rw [← hcontents, hmid]
    simp [alignUp]
    omega
  rw [run_close_array rfl, hlength] at hclose
  split at hclose
  · cases hclose
  · next hle =>
    cases hclose
    -- the length stands behind the padding, and the elements behind another one
    have hpatch := @patch_append (msg.data ++ List.replicate (padding msg.data.length 4) 0)
      [0, 0, 0, 0] (w.endian.encode 4 contents.length)
      (List.replicate (padding (alignUp msg.data.length 4 + 4) c.alignment) 0 ++ contents)
      (w.endian.length_encode 4 _)
    rw [List.length_append, List.length_replicate, ← List.append_assoc, ← List.append_assoc,
      ← hmid, hcontents] at hpatch
    exact ⟨c, contents, hc, Nat.le_of_not_lt hle, by rw [← hcontents, hmid], hpatch, rfl⟩

/-! ## Appending only -/

/-- A writer only appends. Whatever is done through it, what was in the message stays in front of
what is there afterwards. Inside containers the signature stays as it is. A basic value that is
refused leaves the message as it was. An array that is closed gets the number of bytes behind the
padding as its length, in four bytes that opening it has written, and nothing else changes. -/
theorem append_only (w : Writer) (msg : Message) (as : List Action) :
    (msg.data <+: (w.performAll msg as).data ∧
      msg.signature <+: (w.performAll msg as).signature) ∧
    (∀ o items mid, (Opening.run w o).run msg = .ok items mid →
      (items.performAll mid as).signature = mid.signature ∧
      (items.close.left (items.performAll mid as)).signature = mid.signature) ∧
    (∀ c word e out, (w.appendWord c word).run msg = .error e out → out = msg) ∧
    (∀ c s e out, (w.appendText c s).run msg = .error e out → out = msg) ∧
    (∀ element items mid out, (w.openArray element).run msg = .ok items mid →
      items.close.run (items.performAll mid as) = .ok () out →
      ∃ c contents, element.head?.bind TypeCode.ofByte? = some c ∧
        contents.length ≤ 2 ^ (26 : Nat) ∧
        (items.performAll mid as).data =
          msg.data ++ List.replicate (padding msg.data.length 4) 0 ++ [0, 0, 0, 0] ++
            List.replicate (padding (alignUp msg.data.length 4 + 4) c.alignment) 0 ++ contents ∧
        out.data =
          msg.data ++ List.replicate (padding msg.data.length 4) 0 ++
            w.endian.encode 4 contents.length ++
            List.replicate (padding (alignUp msg.data.length 4 + 4) c.alignment) 0 ++ contents ∧
        out.signature = (items.performAll mid as).signature) := by
  have hall := appended_performAll w msg as
  refine ⟨⟨hall.data, hall.signature_prefix⟩, fun o items mid h => ?_,
    fun c word e out => appendWord_error, fun c s e out => appendText_error,
    fun element items mid out h hclose =>
      close_openArray h (appended_performAll items mid as) hclose⟩
  obtain ⟨hrecords, -⟩ := opening_eq_ok h
  have hinside := (appended_performAll items mid as).signature_eq hrecords
  exact ⟨hinside, (signature_left_close _ _).trans hinside⟩

/-- An array with a number in it, between a word that is refused and a struct that is not
closed. -/
theorem append_only_items :
    let items : Writer := ⟨.little, false, some ⟨4, 8⟩, 63⟩
    let mid : Message := ⟨[7, 0, 0, 0, 0, 0, 0, 0], [121, 97, 117]⟩
    let as : List Action := [.word .array (.ofNat 1), .word (.int .uint32) (.ofNat 5),
      .container (.struct [40, 121, 41]) [.word (.int .byte) (.ofNat 9)] false]
    ((top .little).openArray [117]).run ⟨[7], [121]⟩ = .ok items mid ∧
      items.close.run (items.performAll mid as) =
        .ok () ⟨[7, 0, 0, 0, 9, 0, 0, 0, 5, 0, 0, 0, 0, 0, 0, 0, 9], [121, 97, 117]⟩ ∧
      (items.performAll mid as).signature = mid.signature ∧
      ∃ contents, (items.performAll mid as).data = [7, 0, 0, 0, 0, 0, 0, 0] ++ contents := by
  intro items mid as
  obtain ⟨-, hinside, -, -, hclose⟩ := append_only (top .little) ⟨[7], [121]⟩ as
  have hopen : ((top .little).openArray [117]).run ⟨[7], [121]⟩ = .ok items mid := by rfl
  have hrun : items.close.run (items.performAll mid as) =
      .ok () ⟨[7, 0, 0, 0, 9, 0, 0, 0, 5, 0, 0, 0, 0, 0, 0, 0, 9], [121, 97, 117]⟩ := by
    simp only [items, mid, as]
    rfl
  obtain ⟨c, contents, hc, -, hdata, -⟩ := hclose [117] items mid _ hopen hrun
  cases hc
  exact ⟨hopen, hrun, (hinside (.array [117]) items mid hopen).1, contents, hdata⟩

end Writer

end DBus

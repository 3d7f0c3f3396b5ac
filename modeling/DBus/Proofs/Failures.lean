import DBus.Proofs.Traversal

/-!
# What reading and writing fail for

Looking at a body in one place fails only for what the bytes are (`Error.isMalformed`). Entering a
container and moving on may also find the nesting too deep, and a type that is read may have no
entry in the policy. Those are all the reasons for which the reading of a value fails
(`Marshaller.failsOnly_readValue`).

Writing fails for the value and not for bytes : it does not suit the type, is too long or too deep,
or its type cannot be inferred (`Marshaller.failsOnly_writeValue`). Neither finds that a type lacks
a child.

There is one lemma for each operation, and it is put together from those of the operations that it
calls, as the operation is (`FailsOnly.bind`, `Write.FailsOnly.bind`).
-/

namespace DBus

/-! ## Classes of errors -/

namespace Error

/-- Whether the bytes, or the signature they come with, are what went wrong. That a type lacks a
child is not their fault. -/
def isMalformed : Error → Bool
  | typeMismatch (.missingChild ..) => false
  | malformedSignature .. | malformedVariant .. | typeMismatch _ | indexOutOfBounds _
  | invalidBoolean _ | cursorExhausted | missingNul _ | arrayTooLong _ | utf8 _ => true
  | _ => false

/-- Whether the reading of a value may go wrong in this way. -/
def isReading : Error → Bool
  | depthExceeded _ | unregisteredType _ => true
  | e => e.isMalformed

/-- Whether the writing of a value may go wrong in this way. -/
def isWriting : Error → Bool
  | typeMismatch (.missingChild ..) => false
  | malformedSignature .. | malformedVariant .. | unregisteredType _ | typeMismatch _
  | depthExceeded _ | arrayTooLong _ => true
  | _ => false

/-- Malformed bytes are a reason for a reading to fail. -/
theorem isReading_of_isMalformed {e : Error} (h : e.isMalformed = true) : e.isReading = true := by
  cases e <;> first | exact h | rfl

end Error

/-- The operation fails only with errors of the class. -/
def FailsOnly {α : Type} (P : Error → Bool) (x : Except Error α) : Prop :=
  ∀ e, x = .error e → P e = true

namespace FailsOnly

variable {α β : Type} {P Q : Error → Bool} {x : Except Error α} {f : α → Except Error β}

theorem ok (a : α) : FailsOnly P (.ok a) := nofun

theorem error {e : Error} (h : P e = true) : FailsOnly P (.error e : Except Error α) := by
  rintro _ ⟨⟩
  exact h

/-- An operation that fails only with errors of a class fails only with those of a wider one. -/
theorem mono (hx : FailsOnly P x) (h : ∀ e, P e = true → Q e = true) : FailsOnly Q x :=
  fun e he => h e (hx e he)

/-- Two operations, one after the other. -/
theorem bind (hx : FailsOnly P x) (hf : ∀ a, FailsOnly P (f a)) : FailsOnly P (x >>= f) := by
  cases x with
  | ok a => exact hf a
  | error e =>
    rintro _ ⟨⟩
    exact hx e rfl

/-- The result does not matter. -/
theorem discard (hx : FailsOnly P x) : FailsOnly P (Functor.discard x) := by
  cases x with
  | ok a => exact .ok _
  | error e =>
    rintro _ ⟨⟩
    exact hx e rfl

theorem throw_bind {e : Error} (h : P e = true) (f : α → Except Error β) :
    FailsOnly P (throw e >>= f) := error h

theorem ite {p : Prop} [Decidable p] {x y : Except Error α} (hx : FailsOnly P x)
    (hy : FailsOnly P y) : FailsOnly P (if p then x else y) := by
  split
  · exact hx
  · exact hy

/-- What looks at bytes may stand where values are read. -/
theorem reading (hx : FailsOnly Error.isMalformed x) : FailsOnly Error.isReading x :=
  hx.mono fun _ => Error.isReading_of_isMalformed

end FailsOnly

/-! ## Looking at a body -/

/-- A signature may have no complete type at a place. -/
theorem failsOnly_typeEnd (signature : Bytes) (start : Nat) :
    FailsOnly Error.isMalformed (typeEnd signature start) := by
  unfold typeEnd
  split
  · exact .ok _
  · exact .error rfl

/-- Bytes may not be a text. -/
theorem failsOnly_readText (bs : Bytes) : FailsOnly Error.isMalformed (readText bs) := by
  unfold readText
  cases decodeUtf8 bs with
  | ok s => exact .ok s
  | error fault => exact .error rfl

/-- The signature of a variant may not be one of a single type. -/
theorem failsOnly_variantType (signature : Bytes) :
    FailsOnly Error.isMalformed (variantType signature) := by
  unfold variantType
  refine .bind (failsOnly_readText signature) fun s => ?_
  split
  · exact .ok _
  · exact .error rfl

/-- The bytes of a boolean may be neither zero nor one. -/
theorem Endian.failsOnly_decodeWord (e : Endian) (c : FixedCode) (bs : Bytes) :
    FailsOnly Error.isMalformed (e.decodeWord c bs) := by
  unfold decodeWord
  split
  · exact .ok _
  · exact .ok _
  · exact .error rfl
  · exact .ok _

/-- A text may not be an object path or a signature. -/
theorem TextCode.failsOnly_check (c : TextCode) (s : String) :
    FailsOnly Error.isMalformed (c.check s) := by
  unfold check
  cases c with
  | string => exact .ok ()
  | objectPath => exact .ite (.ok ()) (.error rfl)
  | signature =>
    refine .discard ?_
    unfold Argument.listOfSignature
    split
    · exact .ok _
    · exact .error rfl

namespace Reader

theorem failsOnly_require (r : Reader) : FailsOnly Error.isMalformed r.require := by
  unfold require
  split
  · exact .ok _
  · exact .error rfl

/-- The body may be too short. -/
theorem failsOnly_slice (r : Reader) (start length : Nat) :
    FailsOnly Error.isMalformed (r.slice start length) := .ite (.ok _) (.error rfl)

theorem failsOnly_number (r : Reader) (start width : Nat) :
    FailsOnly Error.isMalformed (r.number start width) :=
  .bind (r.failsOnly_slice start width) fun _ => .ok _

/-- The zero byte behind a text may be missing. -/
theorem failsOnly_nulTerminated (r : Reader) (start length : Nat) :
    FailsOnly Error.isMalformed (r.nulTerminated start length) :=
  .bind (r.failsOnly_slice start (length + 1)) fun _ => .ite (.ok _) (.error rfl)

theorem failsOnly_textExtent (r : Reader) (c : TextCode) :
    FailsOnly Error.isMalformed (r.textExtent c) := by
  rw [textExtent_eq]
  exact .bind (r.failsOnly_number _ _) fun _ => .ok _

/-- Reading a word fails for the type at the cursor, or for the bytes. -/
theorem failsOnly_word (r : Reader) : FailsOnly Error.isMalformed r.word := by
  refine .bind r.failsOnly_require fun c => ?_
  split
  · exact .bind (r.failsOnly_slice _ _) fun bs => r.endian.failsOnly_decodeWord _ bs
  · exact .error rfl

/-- Reading a text fails for the type at the cursor, or for the bytes. -/
theorem failsOnly_text (r : Reader) : FailsOnly Error.isMalformed r.text := by
  refine .bind r.failsOnly_require fun c => ?_
  split
  · refine .bind (r.failsOnly_textExtent _) fun extent => ?_
    refine .bind (r.failsOnly_nulTerminated _ _) fun bs => ?_
    exact .bind (failsOnly_readText bs) fun s => .ite (.error rfl) (.ok s)
  · exact .error rfl

theorem failsOnly_moveTo (r : Reader) (p : Nat) : FailsOnly Error.isMalformed (r.moveTo p) :=
  .bind (failsOnly_typeEnd _ _) fun _ => .ok _

theorem failsOnly_rewind (r : Reader) : FailsOnly Error.isMalformed r.rewind :=
  .ite (.ite (.ok _) (.error rfl)) (.ok _)

/-! ## Entering and moving on -/

/-- There may be no level left. -/
theorem failsOnly_nested (r : Reader) (pos stop : Nat) (signature : Bytes) (repeats : Bool) :
    FailsOnly Error.isReading (r.nested pos stop signature repeats) := by
  unfold nested
  split
  · exact .error rfl
  · exact .ok _

/-- Entering a container fails for the bytes of its head, or for the levels. -/
theorem failsOnly_enter (r : Reader) : FailsOnly Error.isReading r.enter := by
  refine .bind r.failsOnly_require.reading fun c => ?_
  split
  · refine .bind (r.failsOnly_number _ _).reading fun length =>
      .ite (.throw_bind rfl _) ?_
    exact .bind (failsOnly_typeEnd _ _).reading fun _ =>
      .bind (r.failsOnly_slice _ _).discard.reading fun _ => r.failsOnly_nested _ _ _ _
  iterate 2
    exact .bind (failsOnly_typeEnd _ _).reading fun _ =>
      .ite (.throw_bind rfl _) (r.failsOnly_nested _ _ _ _)
  · exact .bind (r.failsOnly_number _ _).reading fun length =>
      .bind (r.failsOnly_nulTerminated _ _).reading fun signature =>
        .bind (failsOnly_variantType signature).discard.reading fun _ => r.failsOnly_nested _ _ _ _
  · exact .error rfl

/-- Moving past fields fails only as moving past one of them does. -/
theorem failsOnly_lastEnd {endOf : Reader → Except Error Nat}
    (hend : ∀ s, FailsOnly Error.isReading (endOf s)) (n : Nat) (r : Reader) :
    FailsOnly Error.isReading (lastEnd endOf n r) := by
  induction n generalizing r with
  | zero => exact .ok _
  | succ n ih =>
    unfold lastEnd
    split
    · exact .ok _
    · exact .bind (hend r) fun p => .bind (r.failsOnly_moveTo p).reading fun s =>
        .bind s.failsOnly_rewind.reading ih

/-- One level of moving on fails only as entering does, or as the level below. -/
theorem failsOnly_endBy {endOf : Reader → Except Error Nat}
    (hend : ∀ s, FailsOnly Error.isReading (endOf s)) (r : Reader) :
    FailsOnly Error.isReading (endBy endOf r) := by
  refine .bind r.failsOnly_require.reading fun c => ?_
  split
  · exact .bind (r.failsOnly_slice _ _).discard.reading fun _ => .ok _
  · exact .bind (r.failsOnly_textExtent _).reading fun _ =>
      .bind (r.failsOnly_slice _ _).discard.reading fun _ => .ok _
  · exact .bind r.failsOnly_enter fun _ => .ok _
  all_goals exact .bind r.failsOnly_enter fun contents => failsOnly_lastEnd hend _ contents

/-- Any number of levels of moving on, by induction on them. -/
theorem failsOnly_endWithin (levels : Nat) (r : Reader) :
    FailsOnly Error.isReading (endWithin levels r) := by
  induction levels generalizing r with
  | zero => exact failsOnly_endBy (fun _ => .error rfl) r
  | succ levels ih => exact failsOnly_endBy ih r

/-- Moving on fails for the bytes, or for the levels. -/
theorem failsOnly_advance (r : Reader) : FailsOnly Error.isReading r.advance :=
  .bind (r.failsOnly_endWithin _) fun p => .bind (r.failsOnly_moveTo p).reading fun s =>
    s.failsOnly_rewind.reading

/-- A cursor that is not moved along could not be moved on. -/
theorem advance_of_next_eq_error {r s : Reader} {e : Error} (h : r.next = (.error e, s)) :
    r.advance = .error e := by
  unfold next at h
  unfold advance
  cases hend : r.valueEnd with
  | error e' =>
    rw [hend] at h
    cases h
    rfl
  | ok p =>
    rw [hend] at h
    cases hmove : r.moveTo p with
    | error e' =>
      simp only [ok_bind, hmove] at h ⊢
      cases h
      rfl
    | ok moved =>
      simp only [ok_bind, hmove] at h ⊢
      cases hrewind : moved.rewind with
      | error e' =>
        simp only [hrewind] at h
        cases h
        rfl
      | ok t =>
        simp only [hrewind] at h
        cases h

/-- A step that fails does so for the bytes, or for the levels. -/
theorem isReading_of_step {r s : Reader} {e : Error} (h : step.run r = .error e s) :
    e.isReading = true := by
  simp only [step, EStateM.run] at h
  split at h
  · cases h
  · next heq =>
    cases h
    exact r.failsOnly_advance _ (advance_of_next_eq_error heq)

end Reader

/-! ## Reading values -/

namespace Marshaller

variable {m : Marshaller}

/-- A type may not be registered. -/
theorem failsOnly_entry {P : Error → Bool} (p : BoxingPolicy) {c : TypeCode}
    (h : P (.unregisteredType c) = true) : FailsOnly P (p.entry c) := by
  unfold BoxingPolicy.entry
  split
  · exact .ok _
  · exact .error h

/-- There may be no room left. -/
theorem failsOnly_deeper {P : Error → Bool} (room : Nat)
    (h : P (.depthExceeded m.maxDepth) = true) : FailsOnly P (m.deeper room) := by
  cases room with
  | zero => exact .error h
  | succ room => exact .ok room

/-- The type at the cursor may be another one. -/
theorem failsOnly_expectCode (c : TypeCode) (r : Reader) :
    FailsOnly Error.isMalformed (expectCode c r) :=
  .bind r.failsOnly_require fun _ => .ite (.ok _) (.error rfl)

/-- Items are read as far as each of them is, and moved past. -/
theorem failsOnly_readItems {read : Reader → Except Error Value}
    (hread : ∀ r, FailsOnly Error.isReading (read r)) (n : Nat) (r : Reader) :
    FailsOnly Error.isReading (readItems read n r) := by
  induction n generalizing r with
  | zero => exact .ok _
  | succ n ih =>
    unfold readItems
    split
    · exact .ok _
    · exact .bind (hread r) fun v => .bind r.failsOnly_advance fun s => .bind (ih s) fun _ => .ok _

/-- Fields are read as far as each of them is, and moved past. -/
theorem failsOnly_readFields {read : Ty → Reader → Except Error Value}
    (hread : ∀ t r, FailsOnly Error.isReading (read t r)) (ts : List Ty) (r : Reader) :
    FailsOnly Error.isReading (readFields read ts r) := by
  induction ts generalizing r with
  | nil => exact .ok _
  | cons t ts ih =>
    exact .bind (hread t r) fun v => .bind r.failsOnly_advance fun s => .bind (ih s) fun _ => .ok _

/-- One level of reading fails only as looking, entering and moving on do, or as the level below. -/
theorem failsOnly_readBy {inner : (room : Nat) → Ty → Reader → Except Error Value}
    (hinner : ∀ room t r, FailsOnly Error.isReading (inner room t r)) (room : Nat) (t : Ty)
    (r : Reader) : FailsOnly Error.isReading (m.readBy inner room t r) := by
  refine .bind (failsOnly_entry m.policy rfl).discard fun _ =>
    .bind (failsOnly_expectCode t.code r).reading fun _ => ?_
  rcases t with (c | c) | e | ts | ⟨k, u⟩ | _
  · exact .bind r.failsOnly_word.reading fun _ => .ok _
  · exact .bind r.failsOnly_text.reading fun s => .bind (c.failsOnly_check s).reading fun _ => .ok _
  · exact .bind (failsOnly_deeper room rfl) fun room => .bind r.failsOnly_enter fun items =>
      .bind (failsOnly_readItems (hinner room e) _ items) fun _ => .ok _
  · exact .bind (failsOnly_deeper room rfl) fun room => .bind r.failsOnly_enter fun fields =>
      .bind (failsOnly_readFields (hinner room) ts fields) fun _ => .ok _
  · exact .bind (failsOnly_deeper room rfl) fun room => .bind r.failsOnly_enter fun entry =>
      .bind (hinner room (.basic k) entry) fun _ => .bind entry.failsOnly_advance fun s =>
        .bind (hinner room u s) fun _ => .ok _
  · exact .bind (failsOnly_deeper room rfl) fun room => .bind r.failsOnly_enter fun contents =>
      .bind (failsOnly_variantType _).reading fun u =>
        .bind (hinner room u contents) fun _ => .ok _

/-- Any number of levels of reading, by induction on them. -/
theorem failsOnly_readWithin (levels room : Nat) (t : Ty) (r : Reader) :
    FailsOnly Error.isReading (m.readWithin levels room t r) := by
  induction levels generalizing room t r with
  | zero => exact failsOnly_readBy (fun _ _ _ => .error rfl) room t r
  | succ levels ih => exact failsOnly_readBy ih room t r

/-- Whatever the policy and the body are, a value is not read because the bytes are malformed, the
nesting is too deep or a type is not registered. -/
theorem failsOnly_readValue (t : Ty) (r : Reader) : FailsOnly Error.isReading (m.readValue t r) :=
  failsOnly_readWithin _ _ t r

/-- An unboxed value is read for a type that is registered as one. -/
theorem failsOnly_readUnboxed (b : BasicCode) (r : Reader) :
    FailsOnly Error.isReading (m.readUnboxed b r) := by
  refine .bind (failsOnly_entry _ rfl) fun entry =>
    .bind (failsOnly_expectCode _ r).reading fun _ => ?_
  split
  · exact .bind r.failsOnly_text.reading fun s =>
      .bind (TextCode.failsOnly_check _ s).reading fun _ => .ok _
  · refine .bind r.failsOnly_word.reading fun word => ?_
    dsimp only
    split
    · exact .ok _
    · exact .error rfl
  · exact .error rfl

/-- A slot is filled, boxed or not, for no other reasons than a value is read. -/
theorem failsOnly_readSlot (t : Ty) (r : Reader) (boxed : Bool) :
    FailsOnly Error.isReading (m.readSlot t r boxed) := by
  unfold readSlot
  split
  · exact .bind (failsOnly_readUnboxed _ r) fun _ => .ok _
  · exact .bind (failsOnly_readValue _ r) fun _ => .ok _

/-- Looking does not move the cursor, also when it fails. -/
theorem run_look_eq_error {f : Reader → Except Error Value} {r s : Reader} {e : Error} :
    (Reader.look f).run r = .error e s ↔ f r = .error e ∧ r = s := by
  simp only [EStateM.run, Reader.look]
  split <;> simp [*]

/-- Receiving several values fails for what reading one of them fails for. -/
theorem isReading_of_receiveAll {as : List Argument} {r s : Reader} {e : Error}
    (h : (m.receiveAll as).run r = .error e s) : e.isReading = true := by
  induction as generalizing r with
  | nil => cases h
  | cons a as ih =>
    simp only [receiveAll, receive, run_bind_eq_error, run_look_eq_error] at h
    rcases h with (⟨h, -⟩ | ⟨v, _, -, h | ⟨_, _, -, h⟩⟩) | ⟨v, _, -, h | ⟨vs, _, -, h⟩⟩
    · exact failsOnly_readValue a.ty r e h
    · exact Reader.isReading_of_step h
    · cases h
    · exact ih h
    · cases h

end Marshaller

/-! ## Inferring types -/

namespace Value

mutual

/-- A type is not inferred where an array is empty, items differ or a struct has no fields. -/
theorem failsOnly_infer : ∀ v : Value, FailsOnly Error.isWriting v.infer
  | scalar _ => .ok _
  | text _ _ => .ok _
  | variant _ _ => .ok _
  | array vs => .bind (failsOnly_inferElement vs) fun _ => .ok _
  | struct vs => .bind (failsOnly_inferFields vs) fun _ => .ok _
  | dictEntry k v => .bind (failsOnly_infer k) fun _ => .bind (failsOnly_infer v) fun _ => .ok _

theorem failsOnly_inferElement : ∀ vs : List Value, FailsOnly Error.isWriting (inferElement vs)
  | [] => .error rfl
  | v :: vs => .bind (failsOnly_infer v) fun e => .bind (failsOnly_inferSame e vs) fun _ => .ok _

theorem failsOnly_inferSame (element : Bytes) :
    ∀ vs : List Value, FailsOnly Error.isWriting (inferSame element vs)
  | [] => .ok _
  | v :: vs => .bind (failsOnly_infer v) fun _ => .ite (failsOnly_inferSame element vs) (.error rfl)

theorem failsOnly_inferFields : ∀ vs : List Value, FailsOnly Error.isWriting (inferFields vs)
  | [] => .error rfl
  | [v] => failsOnly_infer v
  | v :: w :: vs => .bind (failsOnly_infer v) fun _ =>
      .bind (failsOnly_inferFields (w :: vs)) fun _ => .ok _

end

/-- What is written as a variant states its type, or the type is inferred and has to be one. -/
theorem failsOnly_asVariant (v : Value) : FailsOnly Error.isWriting v.asVariant := by
  unfold asVariant
  split
  · exact .ok _
  · refine .bind (.bind (failsOnly_infer _) fun s => ?_) fun _ => .ok _
    unfold Argument.ofSignature
    split
    · exact .ok _
    · exact .error rfl

end Value

/-! ## Writing values -/

/-- The operation fails only with errors of the class, whatever has been written. -/
def Write.FailsOnly {α : Type} (P : Error → Bool) (x : Write α) : Prop :=
  ∀ msg e msg', x.run msg = .error e msg' → P e = true

namespace Write.FailsOnly

variable {α β : Type} {P : Error → Bool} {x : Write α} {f : α → Write β}

theorem pure (a : α) : FailsOnly P (Pure.pure a : Write α) := nofun

theorem of_modify (g : Message → Message) : FailsOnly P (modify g : Write PUnit) := nofun

theorem throw {e : Error} (h : P e = true) : FailsOnly P (MonadExcept.throw e : Write α) := by
  rintro msg _ msg' ⟨⟩
  exact h

theorem bind (hx : FailsOnly P x) (hf : ∀ a, FailsOnly P (f a)) : FailsOnly P (x >>= f) := by
  intro msg e msg' h
  rcases run_bind_eq_error.mp h with h | ⟨a, mid, -, h⟩
  · exact hx msg e msg' h
  · exact hf a mid e msg' h

theorem throw_bind {e : Error} (h : P e = true) (f : α → Write β) :
    FailsOnly P (MonadExcept.throw e >>= f) := throw h

theorem discard (hx : FailsOnly P x) : FailsOnly P (Functor.discard x) :=
  bind hx fun _ => pure _

/-- An operation that writes nothing. -/
theorem lift {x : Except Error α} (hx : DBus.FailsOnly P x) : FailsOnly P (liftM x : Write α) := by
  cases x with
  | ok a => exact .pure a
  | error e => exact .throw (hx e rfl)

theorem ite {p : Prop} [Decidable p] {x y : Write α} (hx : FailsOnly P x) (hy : FailsOnly P y) :
    FailsOnly P (if p then x else y) := by
  split
  · exact hx
  · exact hy

end Write.FailsOnly

namespace Writer

variable (w : Writer)

theorem failsOnly_emit (bs : Bytes) : Write.FailsOnly Error.isWriting (emit bs) := .of_modify _

theorem failsOnly_align (alignment : Nat) : Write.FailsOnly Error.isWriting (align alignment) :=
  .of_modify _

theorem failsOnly_position : Write.FailsOnly Error.isWriting position := nofun

/-- The signature is recorded, or not, and that is all. -/
theorem failsOnly_record (signature : Bytes) :
    Write.FailsOnly Error.isWriting (w.record signature) := .ite (.of_modify _) (.pure _)

/-- A word is appended for fixed types only. -/
theorem failsOnly_appendWord (c : TypeCode) (word : Word) :
    Write.FailsOnly Error.isWriting (w.appendWord c word) := by
  unfold appendWord
  split
  · exact .bind (failsOnly_align _) fun _ => .bind (failsOnly_emit _) fun _ => w.failsOnly_record _
  · exact .throw rfl

/-- The length of a signature may not fit its byte. -/
theorem failsOnly_putLength (c : TextCode) (s : String) :
    Write.FailsOnly Error.isWriting (w.putLength c s) := by
  cases c with
  | signature => exact .ite (failsOnly_emit _) (.throw rfl)
  | _ => exact .bind (failsOnly_align _) fun _ => failsOnly_emit _

/-- A text may be appended for no text type, or contain a zero byte. -/
theorem failsOnly_appendText (c : TypeCode) (s : String) :
    Write.FailsOnly Error.isWriting (w.appendText c s) := by
  unfold appendText
  split
  · exact .ite (.throw_bind rfl _) (.bind (w.failsOnly_putLength _ s) fun _ =>
      .bind (failsOnly_emit _) fun _ => w.failsOnly_record _)
  · exact .ite (.throw rfl) (.throw rfl)

/-- There may be no level left. -/
theorem failsOnly_nested (array : Option ArrayFrame) :
    Write.FailsOnly Error.isWriting (w.nested array) := by
  unfold nested
  split
  · exact .throw rfl
  · exact .pure _

/-- An array is opened for one type of items, if a level is left. -/
theorem failsOnly_openArray (element : Bytes) :
    Write.FailsOnly Error.isWriting (w.openArray element) := by
  unfold openArray
  split
  · exact .throw rfl
  · exact .bind (w.failsOnly_record _) fun _ => .bind (failsOnly_align _) fun _ =>
      .bind failsOnly_position fun _ => .bind (failsOnly_emit _) fun _ =>
        .bind (failsOnly_align _) fun _ => .bind failsOnly_position fun _ => w.failsOnly_nested _

theorem failsOnly_openStruct (signature : Bytes) :
    Write.FailsOnly Error.isWriting (w.openStruct signature) :=
  .bind (w.failsOnly_record _) fun _ => .bind (failsOnly_align _) fun _ => w.failsOnly_nested _

theorem failsOnly_openDictEntry : Write.FailsOnly Error.isWriting w.openDictEntry :=
  .bind (failsOnly_align _) fun _ => w.failsOnly_nested _

/-- A variant is opened for one type, if a level is left. -/
theorem failsOnly_openVariant (contents : Bytes) :
    Write.FailsOnly Error.isWriting (w.openVariant contents) := by
  unfold openVariant
  split
  · exact .throw rfl
  · exact .bind (w.failsOnly_record _) fun _ => .bind (failsOnly_emit _) fun _ =>
      w.failsOnly_nested _

/-- The items of an array may be too long when it is closed. -/
theorem failsOnly_close : Write.FailsOnly Error.isWriting w.close := by
  unfold close
  split
  · exact .pure _
  · exact .bind failsOnly_position fun _ => .ite (.throw_bind rfl _) (.of_modify _)

end Writer

namespace Marshaller

variable {m : Marshaller} {inner : (room : Nat) → Ty → Value → Writer → Write Unit}

/-- A value may be of a kind that is not unboxed for the type. -/
theorem failsOnly_unbox (t : Ty) (v : Value) : FailsOnly Error.isWriting (m.unbox t v) := by
  refine .ite (.throw_bind rfl _)
    (.bind (.bind (failsOnly_entry _ rfl) fun entry => ?_) fun u => ?_)
  · split
    · exact .ok _
    · exact .error rfl
  · split
    · exact .ok _
    · exact .error rfl

theorem failsOnly_writeUnboxed (c : TypeCode) (w : Writer) (u : Unboxed) :
    Write.FailsOnly Error.isWriting (writeUnboxed c w u) := by
  cases u with
  | word word => exact w.failsOnly_appendWord c word
  | str s => exact w.failsOnly_appendText c s

theorem failsOnly_forM {write : Value → Write Unit}
    (hwrite : ∀ v, Write.FailsOnly Error.isWriting (write v)) (vs : List Value) :
    Write.FailsOnly Error.isWriting (vs.forM write) := by
  induction vs with
  | nil => exact .pure _
  | cons v vs ih => exact .bind (hwrite v) fun _ => ih

theorem failsOnly_writeFields {write : Ty → Value → Write Unit}
    (hwrite : ∀ t v, Write.FailsOnly Error.isWriting (write t v)) (ts : List Ty) (vs : List Value) :
    Write.FailsOnly Error.isWriting (writeFields write ts vs) := by
  induction ts generalizing vs with
  | nil => exact .pure _
  | cons t ts ih =>
    cases vs with
    | nil => exact .pure _
    | cons v vs => exact .bind (hwrite t v) fun _ => ih vs

/-- One level of writing fails only as unboxing, opening and closing do, or as the level below. -/
theorem failsOnly_writeBy
    (hinner : ∀ room t v w, Write.FailsOnly Error.isWriting (inner room t v w)) (room : Nat)
    (t : Ty) (v : Value) (w : Writer) :
    Write.FailsOnly Error.isWriting (m.writeBy inner room t v w) := by
  have hdeeper : ∀ room, Write.FailsOnly Error.isWriting (liftM (m.deeper room)) :=
    fun room => .lift (failsOnly_deeper room rfl)
  refine .bind (.discard (.lift (failsOnly_entry m.policy rfl))) fun _ => ?_
  split
  · exact .bind (.lift (failsOnly_unbox _ _)) fun _ => failsOnly_writeUnboxed _ _ _
  · exact .bind (hdeeper room) fun room => .bind (w.failsOnly_openArray _) fun items =>
      .bind (failsOnly_forM (fun v => hinner room _ v items) _) fun _ => items.failsOnly_close
  · refine .ite (.throw_bind rfl _) ?_
    exact .bind (hdeeper room) fun room => .bind (w.failsOnly_openStruct _) fun fields =>
      .bind (failsOnly_writeFields (fun t v => hinner room t v fields) _ _) fun _ =>
        fields.failsOnly_close
  · exact .bind (hdeeper room) fun room => .bind w.failsOnly_openDictEntry fun entry =>
      .bind (hinner room _ _ entry) fun _ => .bind (hinner room _ _ entry) fun _ =>
        entry.failsOnly_close
  · exact .bind (.lift (Value.failsOnly_asVariant _)) fun _ => .bind (hdeeper room) fun room =>
      .bind (w.failsOnly_openVariant _) fun inside => .bind (hinner room _ _ inside) fun _ =>
        inside.failsOnly_close
  · exact .throw rfl

/-- Any number of levels of writing, by induction on them. -/
theorem failsOnly_writeWithin (levels room : Nat) (t : Ty) (v : Value) (w : Writer) :
    Write.FailsOnly Error.isWriting (m.writeWithin levels room t v w) := by
  induction levels generalizing room t v w with
  | zero => exact failsOnly_writeBy (fun _ _ _ _ => .throw rfl) room t v w
  | succ levels ih => exact failsOnly_writeBy ih room t v w

/-- Whatever the policy is, a value is not written because it does not suit the type, is too long or
too deep, or because a type is not registered or ill formed. -/
theorem failsOnly_writeValue (t : Ty) (v : Value) (w : Writer) :
    Write.FailsOnly Error.isWriting (m.writeValue t v w) :=
  failsOnly_writeWithin _ _ t v w

end Marshaller

end DBus

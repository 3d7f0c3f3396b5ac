import DBus.Proofs.Calls

/-!
# Declared native types

A call record declares a native type for each of its slots, and holds something in each. A message
that is read has to suit the declared types : every value of it goes into a slot of which the
native type suits its type (`Method.suits_of_unmarshal`). A message that is written is made of what
the slots hold. That is taken for a native type that suits, too (`Method.taken_of_marshal`), but no
declared type is looked at (`Method.marshal_congr`). So the declared types of what is written are
sure to suit only where the slots hold what is declared for them, or where the method has checked
them (`Method.suits_of_check`).
-/

namespace DBus

namespace BoxingPolicy

/-- Boxed, a type is of the kind that boxed values of it have. -/
theorem boxingState_boxedType (t : Ty) :
    standard.boxingState t (.boxed t.boxedType) = .boxed := by
  cases t with
  | basic c =>
    rcases c with (_ | _ | _) | (_ | _ | _) <;> rfl
  | array e => cases e <;> rfl
  | struct ts => rfl
  | dictEntry k v => rfl
  | variant => rfl

theorem boxingState_fixed (c : FixedCode) :
    standard.boxingState (.fixed c) (.scalar c) = .unboxed := by
  simp [boxingState, basicState, standard, TypeEntry.standard]

end BoxingPolicy

/-! ## What slots are taken for -/

namespace Slot

/-- The native type that the content of a slot is taken for where it is written as a type. -/
def takenFor? : Slot → Ty → Option NativeType
  | value _, t => some (.boxed t.boxedType)
  | word _, .basic (.fixed c) => some (.scalar c)
  | str _, .basic (.text _) => some .str
  | _, _ => none

/-- Whatever a slot is taken for suits the type. -/
theorem isValid_takenFor? {s : Slot} {t : Ty} {n : NativeType} (h : s.takenFor? t = some n) :
    (BoxingPolicy.standard.boxingState t n).isValid = true := by
  unfold takenFor? at h
  split at h <;> cases h
  · rw [BoxingPolicy.boxingState_boxedType]
    rfl
  · rw [BoxingPolicy.boxingState_fixed]
    rfl
  · next c => cases c <;> rfl

end Slot

namespace Marshaller

variable {x : Marshaller} (hx : x.policy = .standard) {w : Writer} {msg msg' : Message}

include hx

/-- A slot that is written has been taken for something. -/
theorem exists_takenFor?_of_writeSlot {t : Ty} {s : Slot}
    (h : (x.writeSlot t w s).run msg = .ok () msg') : ∃ n, s.takenFor? t = some n := by
  cases s with
  | empty => cases h
  | value v => exact ⟨_, rfl⟩
  | word word =>
    rcases t with (c | c) | e | ts | ⟨k, u⟩ | _
    · exact ⟨_, rfl⟩
    all_goals
      simp only [writeSlot, Ty.code, entry_standard hx] at h
      cases h
  | str s =>
    rcases t with (c | c) | e | ts | ⟨k, u⟩ | _
    case basic.text => exact ⟨_, rfl⟩
    all_goals
      simp only [writeSlot, Ty.code, run_bind_eq_ok, Writer.appendText] at h
      obtain ⟨_, _, -, _, _, -, h⟩ := h
      split at h <;> cases h

end Marshaller

/-! ## Slots of a message -/

namespace Method

/-- The types of arguments with the indices of their slots, which are counted from `index` on. -/
def placesFrom (index : Nat) : List Argument → List (Ty × Int)
  | [] => []
  | a :: as => (a.ty, index) :: placesFrom (index + 1) as

/-- The types that a message carries, each with the index of the slot it has for itself. Several
outputs have one slot together. -/
def places (m : Method) : MessageKind → List (Ty × Int)
  | .call => placesFrom 0 m.inputs
  | .reply =>
    match m.outputs with
    | [a] => [(a.ty, CallRecord.returnIndex)]
    | _ => []

variable {m : Method} {x : Marshaller} {kind : MessageKind}

/-! ## Writing -/

section

variable {r r' : CallRecord} {w : Writer} {msg msg' : Message}

theorem exists_writeSlot_of_marshalInputs {index : Nat} {as : List Argument}
    (h : (marshalInputs x r w index as).run msg = .ok () msg') :
    ∀ q ∈ placesFrom index as, ∃ s mid mid', r.slot q.2 = .ok s ∧
      (x.writeSlot q.1 w s).run mid = .ok () mid' := by
  induction as generalizing index msg with
  | nil => exact nofun
  | cons a as ih =>
    simp only [marshalInputs, Marshaller.writeFrom, run_bind_eq_ok, Write.lift_eq_ok] at h
    obtain ⟨_, mid, ⟨s, _, ⟨hs, rfl⟩, hwrite⟩, hrest⟩ := h
    exact List.forall_mem_cons.mpr ⟨⟨s, msg, mid, hs, hwrite⟩, ih hrest⟩

/-- What is written at a place is what its slot holds. -/
theorem exists_writeSlot_of_marshal (h : (m.marshal x r w kind).run msg = .ok () msg') :
    ∀ q ∈ m.places kind, ∃ s mid mid', r.slot q.2 = .ok s ∧
      (x.writeSlot q.1 w s).run mid = .ok () mid' := by
  cases kind with
  | call => exact exists_writeSlot_of_marshalInputs h
  | reply =>
    obtain ⟨name, interface, path, inputs, _ | ⟨a, _ | ⟨b, outputs⟩⟩, annotations⟩ := m
    · exact nofun
    · simp only [places, List.forall_mem_singleton]
      exact ⟨r.ret, msg, msg', rfl, h⟩
    · exact nofun

/-- What is written at a place is taken for a native type that suits. -/
theorem taken_of_marshal (hx : x.policy = .standard)
    (h : (m.marshal x r w kind).run msg = .ok () msg') :
    ∀ q ∈ m.places kind, ∃ s n, r.slot q.2 = .ok s ∧ s.takenFor? q.1 = some n ∧
      (BoxingPolicy.standard.boxingState q.1 n).isValid = true := by
  intro q hq
  obtain ⟨s, mid, mid', hs, hwrite⟩ := exists_writeSlot_of_marshal h q hq
  obtain ⟨n, hn⟩ := Marshaller.exists_takenFor?_of_writeSlot hx hwrite
  exact ⟨s, n, hs, hn, Slot.isValid_takenFor? hn⟩

theorem marshalInputs_congr (hargs : r'.args = r.args) (hret : r'.ret = r.ret) {index : Nat}
    {as : List Argument} : (marshalInputs x r' w index as).run msg = .ok () msg' ↔
      (marshalInputs x r w index as).run msg = .ok () msg' := by
  induction as generalizing index msg with
  | nil => rfl
  | cons a as ih =>
    simp only [marshalInputs, Marshaller.writeFrom, run_bind_eq_ok, Write.lift_eq_ok,
      CallRecord.slot_congr hargs hret, ih]

/-- Records that hold the same are written alike, whatever native types they declare. -/
theorem marshal_congr (hargs : r'.args = r.args) (hret : r'.ret = r.ret) :
    (m.marshal x r' w kind).run msg = .ok () msg' ↔
      (m.marshal x r w kind).run msg = .ok () msg' := by
  cases kind with
  | call => exact marshalInputs_congr hargs hret
  | reply =>
    obtain ⟨name, interface, path, inputs, _ | ⟨a, _ | ⟨b, outputs⟩⟩, annotations⟩ := m
    · rfl
    · simp only [marshal, Marshaller.writeFrom, run_bind_eq_ok, Write.lift_eq_ok,
        CallRecord.slot_congr hargs hret]
    · simp only [marshal, hret]

end

/-! ## Reading -/

section

variable {d d' : Delivery}

/-- A value is read into a slot of a native type that suits, and no declared type is changed. -/
theorem suits_of_deliver {t : Ty} {index : Int} (h : (m.deliver x t index).run d = .ok () d') :
    (∃ n, d.record.nativeType index = .ok n ∧ (x.policy.boxingState t n).isValid = true) ∧
      d'.record.signature = d.record.signature := by
  simp only [deliver, run_bind_eq_ok, lift_eq_ok, lift_receive_eq_ok] at h
  obtain ⟨_, _, hget, n, _, ⟨hn, rfl⟩, b, _, ⟨hb, rfl⟩, record, _, ⟨hrecord, rfl⟩, _, _, hset,
    _, -, rfl⟩ := h
  cases hget
  cases hset
  simp only [Marshaller.readInto, bind_eq_ok] at hrecord
  obtain ⟨s, -, hrecord⟩ := hrecord
  exact ⟨⟨n, hn, (isBoxedAs_eq_ok_iff.mp hb).1⟩, CallRecord.signature_of_set hrecord⟩

theorem suits_of_deliverInputs {index : Nat} {as : List Argument}
    (h : (m.deliverInputs x index as).run d = .ok () d') :
    ∀ q ∈ placesFrom index as, ∃ n, d.record.nativeType q.2 = .ok n ∧
      (x.policy.boxingState q.1 n).isValid = true := by
  induction as generalizing index d with
  | nil => exact nofun
  | cons a as ih =>
    simp only [deliverInputs, run_bind_eq_ok] at h
    obtain ⟨_, mid, hdeliver, hrest⟩ := h
    obtain ⟨hsuits, hsignature⟩ := suits_of_deliver hdeliver
    refine List.forall_mem_cons.mpr ⟨hsuits, fun q hq => ?_⟩
    obtain ⟨n, hn, hstate⟩ := ih hrest q hq
    exact ⟨n, (CallRecord.nativeType_congr hsignature).mp hn, hstate⟩

/-- What is read goes into slots of native types that suit. -/
theorem suits_of_unmarshal (h : (m.unmarshal x kind).run d = .ok () d') :
    ∀ q ∈ m.places kind, ∃ n, d.record.nativeType q.2 = .ok n ∧
      (x.policy.boxingState q.1 n).isValid = true := by
  cases kind with
  | call => exact suits_of_deliverInputs h
  | reply =>
    obtain ⟨name, interface, path, inputs, _ | ⟨a, _ | ⟨b, outputs⟩⟩, annotations⟩ := m
    · exact nofun
    · simp only [places, List.forall_mem_singleton]
      exact (suits_of_deliver h).1
    · exact nofun

end

/-! ## Checking -/

theorem suits_of_zip {p : BoxingPolicy} {r : CallRecord} {index : Nat} {as : List Argument}
    {ns : List NativeType} (hns : r.signature.args.drop index = ns) (hlen : ns.length = as.length)
    (hstate : ∀ q ∈ as.zip ns, (p.boxingState q.1.ty q.2).isValid = true) :
    ∀ q ∈ placesFrom index as, ∃ n, r.nativeType q.2 = .ok n ∧
      (p.boxingState q.1 n).isValid = true := by
  induction as generalizing index ns with
  | nil => exact nofun
  | cons a as ih =>
    cases ns with
    | nil => cases hlen
    | cons n ns =>
      rw [List.zip_cons_cons, List.forall_mem_cons] at hstate
      obtain ⟨hentry, hrest⟩ := CallRecord.getElem?_of_drop hns
      have hn : r.nativeType index = .ok n :=
        CallRecord.nativeType_natCast_eq_ok_iff.mpr hentry
      exact List.forall_mem_cons.mpr ⟨⟨n, hn, hstate.1⟩, ih hrest (Nat.succ.inj hlen) hstate.2⟩

/-- A native signature that passes the check of the method suits at every place. -/
theorem suits_of_check {p : BoxingPolicy} {r : CallRecord} (h : m.check p r.signature = .ok ()) :
    ∀ q ∈ m.places kind, ∃ n, r.nativeType q.2 = .ok n ∧
      (p.boxingState q.1 n).isValid = true := by
  obtain ⟨hlen, hstate, hret⟩ := check_eq_ok_iff.mp h
  cases kind with
  | call => exact suits_of_zip rfl hlen hstate
  | reply =>
    obtain ⟨name, interface, path, inputs, _ | ⟨a, _ | ⟨b, outputs⟩⟩, annotations⟩ := m
    · exact nofun
    · simp only [places, List.forall_mem_singleton]
      exact ⟨r.signature.ret, rfl, hret⟩
    · exact nofun

/-! ## Both directions -/

/-- Reading a message goes by the native types that the record declares, and each of them suits
where it succeeds. Writing goes by what the record holds alone. What a slot is taken for suits
where that succeeds, but another record that holds the same is written as the same message,
whatever it declares. What is declared suits in both directions if the method has checked it. -/
theorem declared_types (m : Method) (kind : MessageKind) (maxDepth : Nat) :
    (∀ d d', (m.unmarshal ⟨.standard, maxDepth⟩ kind).run d = .ok () d' →
      ∀ q ∈ m.places kind, ∃ n, d.record.nativeType q.2 = .ok n ∧
        (BoxingPolicy.standard.boxingState q.1 n).isValid = true) ∧
    (∀ r w msg msg', (m.marshal ⟨.standard, maxDepth⟩ r w kind).run msg = .ok () msg' →
      (∀ q ∈ m.places kind, ∃ s n, r.slot q.2 = .ok s ∧ s.takenFor? q.1 = some n ∧
        (BoxingPolicy.standard.boxingState q.1 n).isValid = true) ∧
      ∀ r', r'.args = r.args → r'.ret = r.ret →
        (m.marshal ⟨.standard, maxDepth⟩ r' w kind).run msg = .ok () msg') ∧
    (∀ r : CallRecord, m.check .standard r.signature = .ok () →
      ∀ q ∈ m.places kind, ∃ n, r.nativeType q.2 = .ok n ∧
        (BoxingPolicy.standard.boxingState q.1 n).isValid = true) :=
  ⟨fun _ _ h => suits_of_unmarshal h, fun _ _ _ _ h =>
    ⟨taken_of_marshal rfl h, fun _ hargs hret => (marshal_congr hargs hret).mpr h⟩,
    fun _ h => suits_of_check h⟩

/-- A boolean is read into a slot that is declared to hold one, and written from it. -/
theorem declared_types_boolean :
    let m : Method := { name := "Frob", inputs := [⟨.fixed .boolean, none⟩] }
    let record : CallRecord := ⟨⟨[.scalar .boolean], .void⟩, [.word (.ofNat 1)], .empty, rfl⟩
    let r : Reader := ⟨.little, [1, 0, 0, 0], 0, 4, [98], 0, false, 64⟩
    (m.unmarshal ⟨.standard, 64⟩ .call).run ⟨r, .new record.signature⟩ =
        .ok () ⟨{ r with pos := 4, ix := 1 }, record⟩ ∧
      (m.marshal ⟨.standard, 64⟩ record (.top .little) .call).run {} =
        .ok () ⟨[1, 0, 0, 0], [98]⟩ ∧
      ∀ q ∈ m.places .call,
        (∃ n, (CallRecord.new record.signature).nativeType q.2 = .ok n ∧
          (BoxingPolicy.standard.boxingState q.1 n).isValid = true) ∧
        ∃ s n, record.slot q.2 = .ok s ∧ s.takenFor? q.1 = some n ∧
          (BoxingPolicy.standard.boxingState q.1 n).isValid = true := by
  intro m record r
  have hd : (m.unmarshal ⟨.standard, 64⟩ .call).run ⟨r, .new record.signature⟩ =
      .ok () ⟨{ r with pos := 4, ix := 1 }, record⟩ := by
    simp only [m, record, r]
    rfl
  have hmsg : (m.marshal ⟨.standard, 64⟩ record (.top .little) .call).run {} =
      .ok () ⟨[1, 0, 0, 0], [98]⟩ := by rfl
  obtain ⟨hread, hwrite, -⟩ := declared_types m .call 64
  exact ⟨hd, hmsg, fun q hq => ⟨hread _ _ hd q hq, (hwrite record _ _ _ hmsg).1 q hq⟩⟩

/-- A slot that is declared to hold a text holds a number. The number is written, though no message
can be read into the record. -/
theorem exists_marshal_unsuited :
    let m : Method := { name := "Frob", inputs := [⟨.int .int32, none⟩] }
    let record : CallRecord := ⟨⟨[.str], .void⟩, [.word (.ofNat 7)], .empty, rfl⟩
    (m.marshal ⟨.standard, 64⟩ record (.top .little) .call).run {} =
        .ok () ⟨[7, 0, 0, 0], [105]⟩ ∧
      record.nativeType 0 = .ok .str ∧
      BoxingPolicy.standard.boxingState (.int .int32) .str = .invalid ∧
      ∀ d d', d.record = record → (m.unmarshal ⟨.standard, 64⟩ .call).run d ≠ .ok () d' := by
  intro m record
  have hinvalid : BoxingPolicy.standard.boxingState (.int .int32) .str = .invalid := by decide
  refine ⟨by rfl, by rfl, hinvalid, fun d d' hd h => ?_⟩
  obtain ⟨n, hn, hstate⟩ := suits_of_unmarshal h (.int .int32, 0) List.mem_cons_self
  rw [hd] at hn
  cases hn
  rw [hinvalid] at hstate
  cases hstate

end Method

end DBus

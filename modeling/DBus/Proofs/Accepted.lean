import DBus.Proofs.Failures
import DBus.Proofs.SlotTypes

/-!
# Accepted native signatures

A policy gives each type a native type and compares native types with types. What it gives also
suits (`BoxingPolicy.isValid_boxingState_of_nativeType`), whatever its entries are, so that a
method accepts the native signatures it makes (`Method.check_of_nativeSignature`).

Where a message is read into a record of an accepted signature, every value has a slot and the
native type of the slot suits. So reading fails only for what the message is
(`Method.isReading_of_unmarshal`).
-/

namespace DBus

namespace BoxingPolicy

variable {p : BoxingPolicy} {t : Ty} {c : TypeCode} {e : TypeEntry} {k : BoxedType} {n : NativeType}
  {boxed : Bool}

/-! ## Types that a policy gives -/

theorem entry_eq_ok_iff : p.entry c = .ok e ↔ p.entry? c = some e := by
  unfold entry
  cases p.entry? c <;> simp

/-- A type is boxed on demand, and a container always. -/
theorem nativeType_eq_ok_iff : p.nativeType t boxed = .ok n ↔
    if boxed || t.isContainer then ∃ k, p.boxedType t = .ok k ∧ .boxed k = n
    else ∃ e, p.entry? t.code = some e ∧ e.unboxed = n := by
  unfold nativeType
  split <;> simp only [bind_eq_ok, pure_eq_ok, entry_eq_ok_iff]

/-- An entry names the kind of a basic type, whatever kind that is. -/
theorem boxed_of_boxedType {b : BasicCode} (h : p.boxedType (.basic b) = .ok k)
    (he : p.entry? (.basic b) = some e) : e.boxed = some k := by
  simp only [boxedType, Ty.code, entry_eq_ok_iff.mpr he, ok_bind] at h
  split at h
  · next hkind =>
    cases h
    exact hkind
  · next hkind =>
    cases h
    exact hkind
  · cases h

/-- The kind of the boxed values of a type suits it. -/
theorem boxingState_of_boxedType (h : p.boxedType t = .ok k) :
    p.boxingState t (.boxed k) = .boxed := by
  cases t with
  | basic b =>
    have hentry := h
    simp only [boxedType, bind_eq_ok, entry_eq_ok_iff] at hentry
    obtain ⟨e, he, -⟩ := hentry
    rw [Ty.code] at he
    rw [boxingState, basicState, he]
    simp [boxed_of_boxedType h he]
  | array e => cases e <;> simp [boxingState, h]
  | struct ts => simp [boxingState, h]
  | dictEntry k v => simp [boxingState, h]
  | variant => simp [boxingState, h]

/-- The native type without boxing suits a basic type, though it may pass for the boxed one. -/
theorem isValid_basicState_unboxed {b : BasicCode} (he : p.entry? (.basic b) = some e) :
    (p.basicState b e.unboxed).isValid = true := by
  rw [basicState, he]
  dsimp only
  split
  · rfl
  · rw [if_pos rfl]
    rfl

/-- What a policy gives for a type suits the type. -/
theorem isValid_boxingState_of_nativeType (h : p.nativeType t boxed = .ok n) :
    (p.boxingState t n).isValid = true := by
  rw [nativeType_eq_ok_iff] at h
  split at h
  · obtain ⟨k, hk, rfl⟩ := h
    rw [boxingState_of_boxedType hk]
    rfl
  · next hbasic =>
    obtain ⟨e, he, rfl⟩ := h
    cases t with
    | basic b => exact isValid_basicState_unboxed he
    | _ => simp [Ty.isContainer, Ty.code, TypeCode.isContainer] at hbasic

/-! ## The standard policy -/

/-- The standard policy boxes every type, and as what the type says. -/
theorem boxedType_standard (t : Ty) : standard.boxedType t = .ok t.boxedType := by
  cases t with
  | basic b =>
    rcases b with (_ | _ | _) | (_ | _ | _) <;> rfl
  | array e => cases e <;> rfl
  | struct ts => rfl
  | dictEntry k v => rfl
  | variant => rfl

theorem nativeType_standard (t : Ty) (boxed : Bool) : standard.nativeType t boxed =
    .ok (if boxed then .boxed t.boxedType else t.unboxedType) := by
  rw [nativeType_eq_ok_iff]
  cases boxed with
  | true => exact ⟨t.boxedType, boxedType_standard t, rfl⟩
  | false =>
    cases t with
    | basic b =>
      refine ⟨.standard (.basic b), rfl, ?_⟩
      cases b <;> rfl
    | _ => exact ⟨_, boxedType_standard _, rfl⟩

/-- Only basic types are taken without boxing. -/
theorem boxingState_unboxedType (t : Ty) :
    standard.boxingState t t.unboxedType = if t.isContainer then .boxed else .unboxed := by
  cases t with
  | basic b =>
    cases b with
    | fixed c => exact boxingState_fixed c
    | text c => cases c <;> rfl
  | _ => exact boxingState_boxedType _

/-- What the standard policy gives for a type is boxed or not as the type asks for. -/
theorem boxingState_standard (t : Ty) (boxed : Bool) :
    standard.boxingState t (if boxed then .boxed t.boxedType else t.unboxedType) =
      if boxed || t.isContainer then .boxed else .unboxed := by
  cases boxed with
  | true => exact boxingState_boxedType t
  | false => exact boxingState_unboxedType t

end BoxingPolicy

namespace CallRecord

variable {r : CallRecord} {index : Int} {n : NativeType}

/-- Where a record declares a native type, it has a slot. -/
theorem exists_slot_of_nativeType (h : r.nativeType index = .ok n) :
    ∃ s, r.slot index = .ok s := by
  by_cases hindex : index = returnIndex
  · exact ⟨r.ret, by rw [slot, if_pos hindex]⟩
  · cases index with
    | negSucc k =>
      rw [nativeType, if_neg hindex] at h
      cases h
    | ofNat k =>
      obtain ⟨hk, -⟩ := List.getElem?_eq_some_iff.mp (nativeType_natCast_eq_ok_iff.mp h)
      rw [← r.length_args] at hk
      exact ⟨r.args[k], slot_natCast_eq_ok_iff.mpr (List.getElem?_eq_getElem hk)⟩

end CallRecord

namespace Method

variable {m : Method} {p : BoxingPolicy} {s : NativeSignature} {boxed : Bool}

/-! ## Signatures that a method makes -/

/-- The result of the native call, all of it boxed or as little as possible. -/
def nativeResult (m : Method) (p : BoxingPolicy) (boxed : Bool) : Except Error NativeType :=
  match m.outputs with
  | [] => .ok .void
  | [a] => p.nativeType a.ty boxed
  | outputs =>
    if boxed then .ok (.boxed .struct) else .error (.unrepresentableReturn outputs.length)

theorem nativeSignature_eq (m : Method) (p : BoxingPolicy) (boxed : Bool) :
    m.nativeSignature p boxed = do
      let args ← m.inputs.mapM fun a => p.nativeType a.ty boxed
      return ⟨args, ← m.nativeResult p boxed⟩ := by
  obtain ⟨name, interface, path, inputs, _ | ⟨a, _ | ⟨b, outputs⟩⟩, annotations⟩ := m
  · rfl
  · rfl
  · cases boxed <;> rfl

/-- The native signature of a method has a native type for each input, and the one of the result. -/
theorem nativeSignature_eq_ok_iff : m.nativeSignature p boxed = .ok s ↔
    (m.inputs.mapM fun a => p.nativeType a.ty boxed) = .ok s.args ∧
      m.nativeResult p boxed = .ok s.ret := by
  simp only [nativeSignature_eq, bind_eq_ok, pure_eq_ok]
  constructor
  · rintro ⟨args, hargs, ret, hret, rfl⟩
    exact ⟨hargs, hret⟩
  · rintro ⟨hargs, hret⟩
    exact ⟨_, hargs, _, hret, rfl⟩

/-- The result that a policy gives suits the outputs. -/
theorem isValid_returnState_of_nativeResult (h : m.nativeResult p boxed = .ok s.ret) :
    (m.returnState p s).isValid = true := by
  obtain ⟨name, interface, path, inputs, _ | ⟨a, _ | ⟨b, outputs⟩⟩, annotations⟩ := m
  · have hret : s.ret = .void := (Except.ok.inj h).symm
    simp [returnState, hret, BoxingState.isValid]
  · exact BoxingPolicy.isValid_boxingState_of_nativeType h
  · cases boxed with
    | true =>
      have hret : s.ret = .boxed .struct := (Except.ok.inj h).symm
      simp [returnState, hret, BoxingState.isValid]
    | false => cases h

/-- A method accepts the native signatures it makes. -/
theorem check_of_nativeSignature (h : m.nativeSignature p boxed = .ok s) :
    m.check p s = .ok () := by
  obtain ⟨hargs, hret⟩ := nativeSignature_eq_ok_iff.mp h
  obtain ⟨hlen, hall⟩ := mapM_eq_ok_iff.mp hargs
  exact check_eq_ok_iff.mpr ⟨hlen.symm,
    fun q hq => BoxingPolicy.isValid_boxingState_of_nativeType (hall q hq),
    isValid_returnState_of_nativeResult hret⟩

/-! ## Reading into an accepted signature -/

section

variable {x : Marshaller} {d d' : Delivery} {e : Error}

theorem lift_eq_error {α : Type} {y : Except Error α} :
    (liftM y : Deliver α).run d = .error e d' ↔ y = .error e ∧ d = d' := by
  cases y with
  | ok b =>
    have hrun : (liftM (Except.ok b : Except Error α) : Deliver α).run d = .ok b d := rfl
    rw [hrun]
    exact iff_of_false nofun fun h => by cases h.1
  | error e' =>
    have hrun : (liftM (Except.error e' : Except Error α) : Deliver α).run d = .error e' d := rfl
    rw [hrun, EStateM.Result.error.injEq, Except.error.injEq]

theorem lift_receive_eq_error {α : Type} {y : Receive α} :
    (liftM y : Deliver α).run d = .error e d' ↔
      ∃ r, y.run d.reader = .error e r ∧ { d with reader := r } = d' := by
  simp only [EStateM.run, liftM, monadLift, MonadLift.monadLift]
  cases y d.reader <;> simp [and_assoc]

/-- A slot of a type that suits is filled unless the reading fails. -/
theorem isReading_of_readInto {t : Ty} {r : Reader} {record : CallRecord} {index : Int}
    (hn : ∃ n, record.nativeType index = .ok n)
    (h : x.readInto t r record index boxed = .error e) : e.isReading = true := by
  obtain ⟨n, hn⟩ := hn
  obtain ⟨old, hold⟩ := CallRecord.exists_slot_of_nativeType hn
  have hread : FailsOnly Error.isReading (x.readInto t r record index boxed) :=
    .bind (Marshaller.failsOnly_readSlot t r boxed) fun s => by
      obtain ⟨record', hset⟩ := CallRecord.exists_set hold s
      rw [hset]
      exact .ok record'
  exact hread e h

/-- A value with a slot of a native type that suits is read, or the message is at fault. -/
theorem isReading_of_deliver {t : Ty} {index : Int}
    (hslot : ∃ n, d.record.nativeType index = .ok n ∧ (x.policy.boxingState t n).isValid = true)
    (h : (m.deliver x t index).run d = .error e d') : e.isReading = true := by
  obtain ⟨n, hn, hstate⟩ := hslot
  have hboxed : m.isBoxedAs x.policy t n = .ok (x.policy.boxes t n) :=
    isBoxedAs_eq_ok_iff.mpr ⟨hstate, rfl⟩
  simp only [deliver, run_bind_eq_error, lift_eq_error, lift_eq_ok, lift_receive_eq_error] at h
  rcases h with h | ⟨_, _, hget, ⟨h, -⟩ | ⟨_, _, ⟨hn', rfl⟩, ⟨h, -⟩ | ⟨_, _, ⟨-, rfl⟩, h⟩⟩⟩
  · cases h
  · cases hget
    cases hn.symm.trans h
  · cases hget
    obtain rfl := Except.ok.inj (hn.symm.trans hn')
    cases hboxed.symm.trans h
  rcases h with ⟨h, -⟩ | ⟨_, _, -, h | ⟨_, _, -, _, h, -⟩⟩
  · cases hget
    exact isReading_of_readInto ⟨n, hn⟩ h
  · cases h
  · exact Reader.isReading_of_step h

/-- Inputs whose slots suit are delivered unless the reading of one fails. -/
theorem isReading_of_deliverInputs {index : Nat} {as : List Argument}
    (hslots : ∀ q ∈ placesFrom index as, ∃ n, d.record.nativeType q.2 = .ok n ∧
      (x.policy.boxingState q.1 n).isValid = true)
    (h : (m.deliverInputs x index as).run d = .error e d') : e.isReading = true := by
  induction as generalizing index d with
  | nil => cases h
  | cons a as ih =>
    rw [placesFrom, List.forall_mem_cons] at hslots
    rcases run_bind_eq_error.mp h with h | ⟨_, mid, hdeliver, h⟩
    · exact isReading_of_deliver hslots.1 h
    · -- the declared types are the same for the inputs that are left
      obtain ⟨-, hsignature⟩ := suits_of_deliver hdeliver
      refine ih (fun q hq => ?_) h
      obtain ⟨n, hn, hstate⟩ := hslots.2 q hq
      exact ⟨n, (CallRecord.nativeType_congr hsignature).mpr hn, hstate⟩

/-- A message is read into a record of an accepted signature, or the message is at fault. -/
theorem isReading_of_unmarshal {kind : MessageKind}
    (hcheck : m.check x.policy d.record.signature = .ok ())
    (h : (m.unmarshal x kind).run d = .error e d') : e.isReading = true := by
  have hslots : ∀ q ∈ m.places kind, ∃ n, d.record.nativeType q.2 = .ok n ∧
      (x.policy.boxingState q.1 n).isValid = true := suits_of_check hcheck
  cases kind with
  | call => exact isReading_of_deliverInputs hslots h
  | reply =>
    obtain ⟨name, interface, path, inputs, _ | ⟨a, _ | ⟨b, outputs⟩⟩, annotations⟩ := m
    · cases h
    · exact isReading_of_deliver (hslots _ List.mem_cons_self) h
    · simp only [unmarshal, run_bind_eq_error, lift_receive_eq_error, lift_eq_error] at h
      rcases h with ⟨_, h, -⟩ | ⟨vs, _, -, h | ⟨_, _, -, ⟨h, -⟩ | ⟨_, _, -, h⟩⟩⟩
      · exact Marshaller.isReading_of_receiveAll h
      · cases h
      · cases h
      · cases h

end

/-! ## The standard policy -/

theorem mapM_nativeType_standard (as : List Argument) (boxed : Bool) :
    (as.mapM fun a => BoxingPolicy.standard.nativeType a.ty boxed) =
      .ok (as.map fun a => if boxed then .boxed a.ty.boxedType else a.ty.unboxedType) := by
  simp only [BoxingPolicy.nativeType_standard]
  exact List.mapM_pure

/-- Only several outputs without boxing have no native call. -/
theorem exists_nativeSignature_standard (m : Method) (boxed : Bool)
    (h : boxed = false → m.outputs.length < 2) :
    ∃ s, m.nativeSignature .standard boxed = .ok s := by
  suffices hret : ∃ ret, m.nativeResult .standard boxed = .ok ret by
    obtain ⟨ret, hret⟩ := hret
    exact ⟨⟨_, ret⟩,
      nativeSignature_eq_ok_iff.mpr ⟨mapM_nativeType_standard m.inputs boxed, hret⟩⟩
  obtain ⟨name, interface, path, inputs, _ | ⟨a, _ | ⟨b, outputs⟩⟩, annotations⟩ := m
  · exact ⟨.void, rfl⟩
  · exact ⟨_, BoxingPolicy.nativeType_standard a.ty boxed⟩
  · cases boxed with
    | true => exact ⟨.boxed .struct, rfl⟩
    | false => exact absurd (h rfl) (by simp)

/-- Several outputs have no native type of their own. -/
theorem nativeSignature_standard_eq_error (h : 2 ≤ m.outputs.length) :
    m.nativeSignature .standard false = .error (.unrepresentableReturn m.outputs.length) := by
  rw [nativeSignature_eq, mapM_nativeType_standard, ok_bind]
  obtain ⟨name, interface, path, inputs, _ | ⟨a, _ | ⟨b, outputs⟩⟩, annotations⟩ := m
  · simp at h
  · simp at h
  · rfl

theorem argumentState_standard (h : m.nativeSignature .standard boxed = .ok s) {i : Nat}
    {a : Argument} (ha : m.inputs[i]? = some a) :
    m.argumentState .standard i s i = if boxed || a.ty.isContainer then .boxed else .unboxed := by
  obtain ⟨hargs, -⟩ := nativeSignature_eq_ok_iff.mp h
  rw [mapM_nativeType_standard, Except.ok.injEq] at hargs
  rw [argumentState, ← hargs, List.getElem?_map, ha]
  exact BoxingPolicy.boxingState_standard a.ty boxed

/-- The result is boxed on demand, and where every output is a container. -/
theorem returnState_standard (h : m.nativeSignature .standard boxed = .ok s) :
    m.returnState .standard s =
      if boxed || m.outputs.all fun a => a.ty.isContainer then .boxed else .unboxed := by
  obtain ⟨-, hret⟩ := nativeSignature_eq_ok_iff.mp h
  obtain ⟨name, interface, path, inputs, _ | ⟨a, _ | ⟨b, outputs⟩⟩, annotations⟩ := m
  · have hvoid : s.ret = .void := (Except.ok.inj hret).symm
    simp [returnState, hvoid]
  · have hnative := hret.symm.trans (BoxingPolicy.nativeType_standard a.ty boxed)
    rw [Except.ok.injEq] at hnative
    simp only [returnState, hnative, List.all_cons, List.all_nil, Bool.and_true]
    exact BoxingPolicy.boxingState_standard a.ty boxed
  · cases boxed with
    | true =>
      have hstruct : s.ret = .boxed .struct := (Except.ok.inj hret).symm
      simp [returnState, hstruct]
    | false => cases hret

/-! ## All policies -/

/-- A method accepts the native signatures it makes, under any policy. A message that is read into
a record of an accepted signature is never refused for the signature or for want of a slot. Under
the standard policy there is a native call that is boxed at every position, and one without boxing
unless several outputs are to be returned. That one is unboxed just at the basic positions. -/
theorem accepted_signatures (m : Method) :
    (∀ p boxed s, m.nativeSignature p boxed = .ok s → m.check p s = .ok ()) ∧
    (∀ p s, m.check p s = .ok () → ∀ maxDepth kind r e d',
      (m.unmarshal ⟨p, maxDepth⟩ kind).run ⟨r, .new s⟩ = .error e d' →
        (∀ why, e ≠ .incompatibleSignature why) ∧
          ∀ index inputs outputs, e ≠ .indexOutOfRange index inputs outputs) ∧
    (∃ s, m.nativeSignature .standard true = .ok s ∧
      (∀ i a, m.inputs[i]? = some a → m.argumentState .standard i s i = .boxed) ∧
        m.returnState .standard s = .boxed) ∧
    if 2 ≤ m.outputs.length then
      m.nativeSignature .standard false = .error (.unrepresentableReturn m.outputs.length)
    else ∃ s, m.nativeSignature .standard false = .ok s ∧
      (∀ i a, m.inputs[i]? = some a →
        m.argumentState .standard i s i = if a.ty.isContainer then .boxed else .unboxed) ∧
      m.returnState .standard s =
        if m.outputs.all fun a => a.ty.isContainer then .boxed else .unboxed := by
  refine ⟨fun p boxed s h => check_of_nativeSignature h, ?_, ?_, ?_⟩
  · intro p s hcheck maxDepth kind r e d' h
    have hreading := isReading_of_unmarshal (d := ⟨r, .new s⟩) hcheck h
    constructor
    · rintro why rfl
      cases hreading
    · rintro index inputs outputs rfl
      cases hreading
  · obtain ⟨s, hs⟩ := exists_nativeSignature_standard m true nofun
    exact ⟨s, hs, fun i a ha => argumentState_standard hs ha, returnState_standard hs⟩
  · split
    · next hlen => exact nativeSignature_standard_eq_error hlen
    · next hlen =>
      obtain ⟨s, hs⟩ := exists_nativeSignature_standard m false fun _ => Nat.lt_of_not_le hlen
      exact ⟨s, hs, fun i a ha => argumentState_standard hs ha, returnState_standard hs⟩

/-- A policy that takes a boolean without boxing as a boxed number and with boxing as a string. The
body ends too early. -/
theorem accepted_signatures_unusual :
    let m : Method := { name := "Frob", inputs := [⟨.fixed .boolean, none⟩] }
    let p := BoxingPolicy.standard.register (.fixed .boolean) ⟨.boxed .number, some .string, none⟩
    let r : Reader := ⟨.little, [1, 0], 0, 2, [98], 0, false, 64⟩
    m.nativeSignature p false = .ok ⟨[.boxed .number], .void⟩ ∧
      m.check p ⟨[.boxed .number], .void⟩ = .ok () ∧
      m.check p ⟨[.boxed .string], .void⟩ = .ok () ∧
      ∃ e d', (m.unmarshal ⟨p, 64⟩ .call).run ⟨r, .new ⟨[.boxed .string], .void⟩⟩ = .error e d' ∧
        (∀ why, e ≠ .incompatibleSignature why) ∧
          ∀ index inputs outputs, e ≠ .indexOutOfRange index inputs outputs := by
  intro m p r
  have hnative : m.nativeSignature p false = .ok ⟨[.boxed .number], .void⟩ := by rfl
  have hboxed : m.nativeSignature p true = .ok ⟨[.boxed .string], .void⟩ := by rfl
  have hrun : (m.unmarshal ⟨p, 64⟩ .call).run ⟨r, .new ⟨[.boxed .string], .void⟩⟩ =
      .error (.indexOutOfBounds 4) ⟨r, .new ⟨[.boxed .string], .void⟩⟩ := by
    simp only [m, p, r]
    rfl
  obtain ⟨hcheck, hread, -⟩ := accepted_signatures m
  exact ⟨hnative, hcheck _ _ _ hnative, hcheck _ _ _ hboxed, _, _, hrun,
    hread p _ (hcheck _ _ _ hboxed) 64 .call r _ _ hrun⟩

end Method

end DBus

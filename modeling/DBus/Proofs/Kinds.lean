import DBus.Proofs.Accepted
import DBus.Proofs.Soundness

/-!
# Kinds of boxed values

The kind that a type is boxed as is had from the policy (`BoxingPolicy.boxedType`) and from the type
itself (`Ty.boxedType`), and a value has a kind of its own (`Value.boxedType`), which is had from
what is in it. The first two are the same (`BoxingPolicy.boxedType_standard`). A value of the type
is of that kind too, but for one case : with no entry in it, a dictionary cannot be told from any
other array (`Value.HasType.boxedType_eq`).

So a slot for boxed values of a kind is given a value of that kind whenever one is read, or else it
is given the array without items for a dictionary (`Marshaller.boxedType_of_readValue`).
-/

namespace DBus

namespace Value

/-- The value is what a dictionary without entries is read as, and the type is one of
dictionaries. -/
def IsEmptyDictionary (v : Value) (t : Ty) : Prop := t.isDictionary = true ∧ v = .array []

/-- With an item in it, an array tells whether it is a dictionary. -/
theorem boxedType_array_cons {v : Value} {vs : List Value} {t : Ty} (h : v.HasType t) :
    (array (v :: vs)).boxedType = (Ty.array t).boxedType := by
  cases h <;> rfl

/-- A value is of the kind of its type, if it is no empty dictionary. -/
theorem HasType.boxedType_eq {v : Value} {t : Ty} (h : v.HasType t)
    (hne : ¬v.IsEmptyDictionary t) : v.boxedType = t.boxedType := by
  cases h with
  | @array vs e hvs =>
    cases vs with
    | nil =>
      have hdict : (Ty.array e).isDictionary = false := by
        simpa [IsEmptyDictionary] using hne
      cases e with
      | dictEntry k u => cases hdict
      | _ => rfl
    | cons v vs => exact boxedType_array_cons (hvs v List.mem_cons_self)
  | _ => rfl

theorem IsEmptyDictionary.boxedType_eq {v : Value} {t : Ty} (h : v.IsEmptyDictionary t) :
    v.boxedType = .array ∧ t.boxedType = .dictionary := by
  obtain ⟨ht, rfl⟩ := h
  refine ⟨rfl, ?_⟩
  match t, ht with
  | .array (.dictEntry _ _), _ => rfl

end Value

namespace BoxingPolicy

/-- Boxed values of one kind suit a type, and no others. -/
theorem boxingState_boxed (t : Ty) (k : BoxedType) :
    standard.boxingState t (.boxed k) = if t.boxedType = k then .boxed else .invalid := by
  cases t with
  | basic b =>
    have hstate : standard.basicState b (.boxed k) =
        if b.boxedType = k then .boxed else .invalid := by
      cases b <;>
        simp [basicState, standard, TypeEntry.standard, eq_comm]
    rw [boxingState, hstate]
    rfl
  | _ =>
    unfold boxingState
    rw [boxedType_standard]

theorem boxedType_of_isValid {t : Ty} {k : BoxedType}
    (h : (standard.boxingState t (.boxed k)).isValid = true) : t.boxedType = k := by
  rw [boxingState_boxed] at h
  split at h
  · assumption
  · cases h

end BoxingPolicy

namespace Marshaller

section

variable {m : Marshaller} {r : Reader} {t : Ty} {v : Value}

theorem readSlot_boxed (h : m.readValue t r = .ok v) : m.readSlot t r true = .ok (.value v) := by
  cases t <;> simp only [readSlot, h] <;> rfl

end

/-- A value that is read is of the kind that the policy has for its type, and so is what a slot for
boxed values of a kind is given. A dictionary without entries alone is of the kind of arrays, where
the policy has that of dictionaries. -/
theorem boxedType_of_readValue {r : Reader} {maxDepth : Nat} {t : Ty} {v : Value}
    (h : (⟨.standard, maxDepth⟩ : Marshaller).readValue t r = .ok v) :
    (¬v.IsEmptyDictionary t → BoxingPolicy.standard.boxedType t = .ok v.boxedType) ∧
      (v.IsEmptyDictionary t →
        BoxingPolicy.standard.boxedType t = .ok .dictionary ∧ v.boxedType = .array) ∧
      ∀ kind, (BoxingPolicy.standard.boxingState t (.boxed kind)).isValid = true →
        BoxingPolicy.standard.boxingState t (.boxed kind) = .boxed ∧
          (⟨.standard, maxDepth⟩ : Marshaller).readSlot t r true = .ok (.value v) ∧
          (v.boxedType = kind ∨ kind = .dictionary ∧ v.IsEmptyDictionary t) := by
  have htype := (wellFormed_of_readValue h).hasType
  refine ⟨fun hne => ?_, fun hempty => ?_, fun kind hvalid => ?_⟩
  · rw [BoxingPolicy.boxedType_standard, htype.boxedType_eq hne]
  · obtain ⟨harray, hdict⟩ := hempty.boxedType_eq
    rw [BoxingPolicy.boxedType_standard, hdict]
    exact ⟨rfl, harray⟩
  · obtain rfl := BoxingPolicy.boxedType_of_isValid hvalid
    refine ⟨BoxingPolicy.boxingState_boxedType t, readSlot_boxed h, ?_⟩
    by_cases hempty : v.IsEmptyDictionary t
    · exact .inr ⟨hempty.boxedType_eq.2, hempty⟩
    · exact .inl (htype.boxedType_eq hempty)

/-- A dictionary with an entry. -/
theorem boxedType_of_readValue_entry :
    let t : Ty := .array (.dictEntry (.fixed .boolean) (.fixed .boolean))
    let v : Value := .array [.dictEntry (.scalar (.boolean false)) (.scalar (.boolean true))]
    ∃ r, Message.reader ⟨[8, 0, 0, 0, 0, 0, 0, 0, 0, 0, 0, 0, 1, 0, 0, 0], [97, 123, 98, 98, 125]⟩
        .little = .ok r ∧
      ({} : Marshaller).readValue t r = .ok v ∧
      BoxingPolicy.standard.boxedType t = .ok v.boxedType ∧ v.boxedType = .dictionary ∧
      ({} : Marshaller).readSlot t r true = .ok (.value v) := by
  intro t v
  let r : Reader := ⟨.little, [8, 0, 0, 0, 0, 0, 0, 0, 0, 0, 0, 0, 1, 0, 0, 0], 0, 16,
    [97, 123, 98, 98, 125], 0, false, 64⟩
  have hr : Message.reader ⟨[8, 0, 0, 0, 0, 0, 0, 0, 0, 0, 0, 0, 1, 0, 0, 0],
      [97, 123, 98, 98, 125]⟩ .little = .ok r := by rfl
  have hread : ({} : Marshaller).readValue t r = .ok v := by
    simp only [t, v, r]
    rfl
  have hnonempty : ¬v.IsEmptyDictionary t := by simp [v, Value.IsEmptyDictionary]
  obtain ⟨hkind, -, hslot⟩ := boxedType_of_readValue hread
  obtain ⟨-, hboxed, -⟩ := hslot .dictionary (by rfl)
  exact ⟨r, hr, hread, hkind hnonempty, rfl, hboxed⟩

/-- A dictionary without entries is held as one where the value in the slot is none. -/
theorem exists_boxedType_ne :
    let t : Ty := .array (.dictEntry (.text .string) .variant)
    ∃ r, Message.reader ⟨[0, 0, 0, 0, 0, 0, 0, 0], [97, 123, 115, 118, 125]⟩ .little = .ok r ∧
      ({} : Marshaller).readValue t r = .ok (.array []) ∧
      BoxingPolicy.standard.boxingState t (.boxed .dictionary) = .boxed ∧
      ({} : Marshaller).readSlot t r true = .ok (.value (.array [])) ∧
      BoxingPolicy.standard.boxedType t ≠ .ok (Value.array []).boxedType := by
  intro t
  let r : Reader := ⟨.little, [0, 0, 0, 0, 0, 0, 0, 0], 0, 8, [97, 123, 115, 118, 125], 0, false,
    64⟩
  have hr : Message.reader ⟨[0, 0, 0, 0, 0, 0, 0, 0], [97, 123, 115, 118, 125]⟩ .little =
      .ok r := by rfl
  have hread : ({} : Marshaller).readValue t r = .ok (.array []) := by
    simp only [t, r]
    rfl
  refine ⟨r, hr, hread, by rfl, readSlot_boxed hread, ?_⟩
  rw [BoxingPolicy.boxedType_standard]
  exact nofun

end Marshaller

end DBus

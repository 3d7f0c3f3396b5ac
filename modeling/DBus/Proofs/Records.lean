import DBus.CallRecord
import DBus.Proofs.Outcome

/-!
# Slots of a record

An index addresses the result or one of the arguments (`CallRecord.set_cases`), and any other has
the same error for reading a slot and for setting it (`CallRecord.set_eq_error_iff`). Setting a slot
changes that slot and nothing else (`CallRecord.slot_set_self`, `CallRecord.slot_set_of_ne`).
-/

namespace DBus

namespace CallRecord

variable {r r' : CallRecord} {k : Nat} {index : Int} {s old : Slot} {e : Error}

/-! ## Indices of arguments -/

/-- No argument has the index of the result. -/
theorem natCast_ne_returnIndex (k : Nat) : (k : Int) ≠ returnIndex := by
  rw [returnIndex]
  omega

theorem at?_natCast {α : Type} (xs : List α) (k : Nat) : at? xs k = xs[k]? := rfl

/-- The slots of the arguments are counted from zero. -/
theorem slot_natCast_eq_ok_iff : r.slot k = .ok s ↔ r.args[k]? = some s := by
  rw [slot, if_neg (natCast_ne_returnIndex k), at?_natCast]
  cases r.args[k]? <;> simp

/-- A list from a place on has its entry there first. -/
theorem getElem?_of_drop {α : Type} {xs ys : List α} {x : α} (h : xs.drop k = x :: ys) :
    xs[k]? = some x ∧ xs.drop (k + 1) = ys := by
  rw [← List.head?_drop, ← List.tail_drop, h]
  exact ⟨rfl, rfl⟩

/-- So are their native types. -/
theorem nativeType_natCast_eq_ok_iff {n : NativeType} :
    r.nativeType k = .ok n ↔ r.signature.args[k]? = some n := by
  rw [nativeType, if_neg (natCast_ne_returnIndex k), at?_natCast]
  cases r.signature.args[k]? <;> simp

/-- The slot of an argument is set to anything. -/
theorem exists_set_natCast (hk : k < r.args.length) (s : Slot) :
    ∃ r', r.set k s = .ok r' ∧ r'.signature = r.signature ∧ r'.args = r.args.set k s := by
  have hslot : r.slot k = .ok r.args[k] :=
    slot_natCast_eq_ok_iff.mpr (List.getElem?_eq_getElem hk)
  simp only [set, hslot, if_neg (natCast_ne_returnIndex k)]
  exact ⟨_, rfl, rfl, rfl⟩

/-- The slot of the result is set to anything. -/
theorem set_returnIndex (s : Slot) : r.set returnIndex s = .ok { r with ret := s } := rfl

/-! ## Records that agree -/

theorem slot_congr (hargs : r'.args = r.args) (hret : r'.ret = r.ret) {index : Int} {s : Slot} :
    r'.slot index = .ok s ↔ r.slot index = .ok s := by
  simp only [slot, hargs, hret]
  split
  · rfl
  · split <;> simp

theorem nativeType_congr (h : r'.signature = r.signature) {index : Int}
    {n : NativeType} : r'.nativeType index = .ok n ↔ r.nativeType index = .ok n := by
  simp only [nativeType, h]
  split
  · rfl
  · split <;> simp

/-! ## Setting a slot -/

/-- There is a slot at an index, or there is the one error for it. -/
theorem set_eq_error_iff : r.set index s = .error e ↔ r.slot index = .error e := by
  cases hslot : r.slot index with
  | error e' =>
    have hset : r.set index s = .error e' := by
      rw [set, hslot]
      rfl
    rw [hset, Except.error.injEq, Except.error.injEq]
  | ok old =>
    refine iff_of_false ?_ nofun
    have hdiscard : discard (r.slot index) = .ok ⟨⟩ := discard_eq_ok.mpr ⟨old, hslot⟩
    rw [set, hdiscard, ok_bind]
    split <;> exact nofun

/-- A slot that can be read can be set. -/
theorem exists_set (h : r.slot index = .ok old) (s : Slot) : ∃ r', r.set index s = .ok r' := by
  cases hset : r.set index s with
  | ok r' => exact ⟨r', rfl⟩
  | error e => cases (set_eq_error_iff.mp hset).symm.trans h

/-- A slot that is set is the result or one of the arguments. -/
theorem set_cases (h : r.set index s = .ok r') :
    (index = returnIndex ∧ r' = { r with ret := s }) ∨
      ∃ k : Nat, index = k ∧ k < r.args.length ∧ r'.signature = r.signature ∧
        r'.args = r.args.set k s ∧ r'.ret = r.ret := by
  simp only [set, bind_eq_ok, discard_eq_ok] at h
  obtain ⟨-, ⟨old, hold⟩, h⟩ := h
  by_cases hindex : index = returnIndex
  · rw [if_pos hindex] at h
    exact .inl ⟨hindex, (Except.ok.inj h).symm⟩
  · rw [if_neg hindex] at h
    cases h
    cases index with
    | negSucc k =>
      rw [slot, if_neg hindex] at hold
      cases hold
    | ofNat k =>
      obtain ⟨hk, -⟩ := List.getElem?_eq_some_iff.mp (slot_natCast_eq_ok_iff.mp hold)
      exact .inr ⟨k, rfl, hk, rfl, rfl, rfl⟩

/-- The native types stay as they are. -/
theorem signature_of_set (h : r.set index s = .ok r') : r'.signature = r.signature := by
  rcases set_cases h with ⟨-, rfl⟩ | ⟨k, -, -, hsignature, -⟩
  · rfl
  · exact hsignature

theorem outOfRange_of_set (h : r.set index s = .ok r') (j : Int) :
    r'.outOfRange j = r.outOfRange j := by
  rw [outOfRange, outOfRange, r'.length_args, r.length_args, signature_of_set h]

/-- A slot holds what it is set to. -/
theorem slot_set_self (h : r.set index s = .ok r') : r'.slot index = .ok s := by
  rcases set_cases h with ⟨rfl, rfl⟩ | ⟨k, rfl, hk, -, hargs, -⟩
  · rfl
  · rw [slot_natCast_eq_ok_iff, hargs, List.getElem?_set_self hk]

/-- No other slot changes, and none comes or goes. -/
theorem slot_set_of_ne (h : r.set index s = .ok r') {j : Int} (hj : j ≠ index) :
    r'.slot j = r.slot j := by
  have hout := outOfRange_of_set h j
  rcases set_cases h with ⟨rfl, rfl⟩ | ⟨k, rfl, -, -, hargs, hret⟩
  · rw [slot, slot, if_neg hj, if_neg hj, hout]
  · have hat : at? r'.args j = at? r.args j := by
      cases j with
      | negSucc i => rfl
      | ofNat i =>
        have hne : k ≠ i := fun hki => hj (congrArg Int.ofNat hki.symm)
        rw [hargs]
        exact List.getElem?_set_ne hne
    rw [slot, slot, hret, hat, hout]

end CallRecord

end DBus

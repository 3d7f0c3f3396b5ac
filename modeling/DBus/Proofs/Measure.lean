import DBus.Proofs.Writing

/-!
# How far values reach

Where a value ends in a body depends on where it starts, since padding does, but not on the byte
order and on nothing else in the body. `Value.endAs` says where, without laying out any cells, and
`LaidOut.add_length_eq` that the cells of a value end there.

A value that a body can hold is laid out unless something in it is too long. Where it ends soon
enough nothing is (`exists_laidOut`), and then it is written (`Marshaller.exists_writeValue`).
-/

namespace DBus

namespace Value

mutual

/-- Where a value of a type ends that starts at a position. -/
def endAs : Value → Ty → (p : Nat) → Nat
  | scalar s, _, p => alignUp p s.code.size + s.code.size
  | text c s, _, p => textStart p c + (utf8 s).length + 1
  | array vs, .array t, p => endAll vs (List.replicate vs.length t) (itemsStart p t)
  | struct vs, .struct ts, p => endAll vs ts (alignUp p 8)
  | dictEntry key value, .dictEntry k t, p => value.endAs t (key.endAs (.basic k) (alignUp p 8))
  | variant a v, _, p => v.endAs a.ty (p + a.ty.render.length + 2)
  | _, _, p => p

/-- Where values of the types end, one right after the other. -/
def endAll : List Value → List Ty → (p : Nat) → Nat
  | v :: vs, t :: ts, p => endAll vs ts (v.endAs t p)
  | _, _, p => p

end

end Value

/-! ## Cells -/

section

variable {e : Endian} {d p : Nat} {t : Ty} {v : Value} {ts : List Ty} {vs : List Value}
  {cs : List Cell}

/-- Values laid out one behind the other end where the last of them does. -/
theorem LaidOutAll.add_length_of_forall
    (h : ∀ t v p cs, LaidOut e d t v p cs → p + cs.length = v.endAs t p) :
    ∀ {vs : List Value} {ts : List Ty} {p : Nat} {cs : List Cell}, LaidOutAll e d ts vs p cs →
      p + cs.length = Value.endAll vs ts p
  | [], _, _, _, .nil => rfl
  | v :: vs, t :: ts, p, _, .cons hc hcs => by
    have hrest := LaidOutAll.add_length_of_forall h hcs
    rw [h t v p _ hc] at hrest
    rw [Value.endAll, ← hrest, ← h t v p _ hc, List.length_append, Nat.add_assoc]

theorem add_length_scalar (s : Scalar) : p + (gap p s.code.size ++
    fixed (e.encodeWord s.code s.toWord)).length = (Value.scalar s).endAs t p := by
  rw [List.length_append, length_gap, length_fixed, Endian.length_encodeWord, ← Nat.add_assoc,
    ← alignUp, Value.endAs]

theorem add_length_text (c : TextCode) (s : String) : p + (textHead e p c (utf8 s).length ++
    fixed (utf8 s ++ [0])).length = (Value.text c s).endAs t p := by
  rw [List.length_append, ← Nat.add_assoc, add_length_textHead, length_fixed, List.length_append,
    Value.endAs]
  rfl

/-- The cells of a value end where the value does. -/
theorem LaidOut.add_length_eq (h : LaidOut e d t v p cs) : p + cs.length = v.endAs t p := by
  induction d generalizing t v p cs with
  | zero =>
    cases h with
    | scalar hs =>
      subst hs
      exact add_length_scalar _
    | text _ _ => exact add_length_text ..
  | succ d ih =>
    have hall : ∀ t v p cs, LaidOut e d t v p cs → p + cs.length = v.endAs t p :=
      fun _ _ _ _ h => ih h
    cases h with
    | scalar hs =>
      subst hs
      exact add_length_scalar _
    | text _ _ => exact add_length_text ..
    | array h _ =>
      rw [List.length_append, ← Nat.add_assoc, add_length_arrayHead,
        h.add_length_of_forall hall, Value.endAs]
    | struct h =>
      have hfields := h.add_length_of_forall hall
      rw [List.length_append, length_gap, ← Nat.add_assoc, ← alignUp, hfields, Value.endAs]
    | dictEntry h =>
      have hfields := h.add_length_of_forall hall
      rw [List.length_append, length_gap, ← Nat.add_assoc, ← alignUp, hfields, Value.endAs]
      rfl
    | variant _ h =>
      rw [List.length_append, ← Nat.add_assoc, add_length_variantHead, ih h, Value.endAs]

end

/-! ## Values that are laid out -/

namespace Value

mutual

/-- No value ends before it starts. -/
theorem le_endAs : ∀ (v : Value) (t : Ty) (p : Nat), p ≤ v.endAs t p
  | scalar s, t, p => by
    rw [endAs, alignUp]
    omega
  | text c s, t, p => by
    rw [endAs, textStart, alignUp]
    omega
  | array vs, .array t, p => by
    have := le_endAll vs (List.replicate vs.length t) (itemsStart p t)
    rw [endAs]
    rw [itemsStart, alignUp, alignUp] at this ⊢
    omega
  | struct vs, .struct ts, p => by
    have := le_endAll vs ts (alignUp p 8)
    rw [endAs]
    rw [alignUp] at this ⊢
    omega
  | dictEntry key value, .dictEntry k t, p => by
    have hkey := le_endAs key (.basic k) (alignUp p 8)
    have hvalue := le_endAs value t (key.endAs (.basic k) (alignUp p 8))
    have hp : p ≤ alignUp p 8 := Nat.le_add_right _ _
    rw [endAs]
    omega
  | variant a v, t, p => by
    have := le_endAs v a.ty (p + a.ty.render.length + 2)
    rw [endAs]
    omega
  | array _, .basic _, p | array _, .struct _, p | array _, .dictEntry _ _, p
  | array _, .variant, p | struct _, .basic _, p | struct _, .array _, p
  | struct _, .dictEntry _ _, p | struct _, .variant, p | dictEntry _ _, .basic _, p
  | dictEntry _ _, .array _, p | dictEntry _ _, .struct _, p | dictEntry _ _, .variant, p =>
    Nat.le_refl p

theorem le_endAll : ∀ (vs : List Value) (ts : List Ty) (p : Nat), p ≤ endAll vs ts p
  | v :: vs, t :: ts, p => Nat.le_trans (le_endAs v t p) (le_endAll vs ts (v.endAs t p))
  | [], _, p | _ :: _, [], p => Nat.le_refl p

end

end Value

section

variable {e : Endian} {v : Value} {t : Ty}

/-- Values are laid out one after the other if each of them is, wherever it may end in time. -/
theorem exists_laidOutAll {d n : Nat} : ∀ {vs : List Value} {ts : List Ty} {p : Nat},
    vs.length = ts.length →
      (∀ q ∈ vs.zip ts, ∀ p, q.1.endAs q.2 p ≤ n → ∃ cs, LaidOut e d q.2 q.1 p cs) →
        Value.endAll vs ts p ≤ n → ∃ cs, LaidOutAll e d ts vs p cs
  | [], [], p, _, _, _ => ⟨[], .nil⟩
  | v :: vs, t :: ts, p, hlen, h, hn => by
    rw [List.zip_cons_cons, List.forall_mem_cons] at h
    rw [Value.endAll] at hn
    obtain ⟨c, hc⟩ := h.1 p (Nat.le_trans (Value.le_endAll vs ts _) hn)
    rw [← hc.add_length_eq] at hn
    obtain ⟨cs, hcs⟩ := exists_laidOutAll (Nat.succ.inj hlen) h.2 hn
    exact ⟨c ++ cs, .cons hc hcs⟩

/-- A well-formed value is laid out if it ends before anything in it could be too long. -/
theorem Value.WellFormed.exists_laidOut {d p : Nat} (h : v.WellFormed t d)
    (hend : v.endAs t p ≤ maxArrayLength) : ∃ cs, LaidOut e d t v p cs := by
  have ht := h.hasType
  induction ht generalizing d p with
  | scalar s => exact ⟨_, .scalar rfl⟩
  | text c s =>
    have hlen : (utf8 s).length < 2 ^ 32 := by
      rw [Value.endAs, maxArrayLength] at hend
      omega
    exact ⟨_, .text (h.allowed (c, s) (by simp [Value.texts])) hlen⟩
  | @array vs u _ ih =>
    obtain ⟨d, rfl, hvs⟩ := h.items
    rw [Value.endAs] at hend
    have hlen : vs.length = (List.replicate vs.length u).length := List.length_replicate.symm
    obtain ⟨cs, hcs⟩ := exists_laidOutAll (e := e) (d := d) hlen (fun q hq p hp => by
      obtain ⟨hv, hu⟩ := List.of_mem_zip hq
      rw [List.eq_of_mem_replicate hu] at hp ⊢
      exact ih q.1 hv (hvs q.1 hv) hp) hend
    have hlength := hcs.add_length_of_forall fun _ _ _ _ => LaidOut.add_length_eq
    exact ⟨_, .array hcs (by omega)⟩
  | struct hlen _ ih =>
    obtain ⟨d, rfl, -, hvs⟩ := h.fields
    rw [Value.endAs] at hend
    obtain ⟨cs, hcs⟩ :=
      exists_laidOutAll (e := e) hlen (fun q hq p hp => ih q hq (hvs q hq) hp) hend
    exact ⟨_, .struct hcs⟩
  | @dictEntry key value k u _ _ ihkey ihvalue =>
    obtain ⟨d, rfl, hkey, hvalue⟩ := h.entry
    have hall : ∀ q ∈ [key, value].zip [.basic k, u], ∀ p, q.1.endAs q.2 p ≤ maxArrayLength →
        ∃ cs, LaidOut e d q.2 q.1 p cs :=
      List.forall_mem_cons.mpr ⟨fun p hp => ihkey hkey hp,
        List.forall_mem_singleton.mpr fun p hp => ihvalue hvalue hp⟩
    obtain ⟨cs, hcs⟩ := exists_laidOutAll rfl hall hend
    exact ⟨_, .dictEntry hcs⟩
  | @variant a w _ _ ih =>
    obtain ⟨d, rfl, ha, hname, hw⟩ := h.contents
    obtain ⟨u, name⟩ := a
    obtain rfl : name = none := hname
    obtain ⟨cs, hcs⟩ := ih hw hend
    exact ⟨_, .variant ha hcs⟩

end

namespace Marshaller

/-- A well-formed value is written if it is not nested too deep and ends before anything in it
could be too long. -/
theorem exists_writeValue {m : Marshaller} (hm : m.policy = .standard) {t : Ty} {v : Value}
    {w : Writer} (hw : t.code = .dictEntry → w.records = false) {msg : Message}
    (h : v.WellFormed t (min m.maxDepth w.levels))
    (hend : v.endAs t msg.data.length ≤ maxArrayLength) :
    ∃ msg', (m.writeValue t v w).run msg = .ok () msg' ∧
      msg'.data.length = v.endAs t msg.data.length := by
  obtain ⟨cs, hcs⟩ := h.exists_laidOut (e := w.endian) hend
  have hself := Value.normalise_eq_self h.hasType h.unnamed
  have hwrite : (m.writeValue t v w).run msg = .ok () (msg.extend cs (w.recorded t.render)) :=
    (writeValue_eq_ok_iff hm hcs.short hw).mpr ⟨cs, by rwa [hself], rfl⟩
  exact ⟨_, hwrite, by rw [Message.length_data_extend, hcs.add_length_eq]⟩

end Marshaller

end DBus

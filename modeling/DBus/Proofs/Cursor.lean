import DBus.Proofs.Outcome
import DBus.Receive

/-!
# Cursors

What the operations on a cursor make sure of when they succeed. Every cursor that can be had from
a message is `Reachable` : opened on it, moved on, or entered from another one. Moving on keeps
the level of a cursor and entering takes one level away, so that none has more than
`maxNesting` of them left (`Reachable.levels_le`).
-/

namespace DBus

namespace Reader

variable {r s : Reader}

/-! ## Text -/

/-- A text that is read has no zero byte in it. -/
theorem zero_notMem_of_text {t : String} (h : r.text = .ok t) : 0 ∉ utf8 t := by
  simp only [text, bind_eq_ok] at h
  obtain ⟨c, -, h⟩ := h
  split at h
  · simp only [bind_eq_ok] at h
    obtain ⟨extent, -, bs, -, u, hu, h⟩ := h
    simp only [ite_throw_eq_ok, pure_eq_ok] at h
    obtain ⟨h0, rfl⟩ := h
    rw [readText_eq_ok_iff.mp hu]
    simpa using h0
  · simp at h

/-! ## Levels -/

theorem nested_eq_ok {pos stop : Nat} {signature : Bytes} {repeats : Bool} :
    r.nested pos stop signature repeats = .ok s ↔
      ∃ levels, r.levels = levels + 1 ∧
        s = ⟨r.endian, r.data, pos, stop, signature, 0, repeats, levels⟩ := by
  unfold nested
  split <;> simp_all [eq_comm]

/-- Only a value that is there is entered. -/
theorem require_of_enter (h : r.enter = .ok s) : ∃ c, r.require = .ok c := by
  simp only [enter, bind_eq_ok] at h
  obtain ⟨c, hc, -⟩ := h
  exact ⟨c, hc⟩

/-- Entering a container takes one level away. -/
theorem levels_of_enter (h : r.enter = .ok s) : r.levels = s.levels + 1 := by
  simp only [enter, bind_eq_ok] at h
  obtain ⟨c, -, h⟩ := h
  split at h
  case h_1 =>
    simp only [enterArray, throw_bind, bind_eq_ok, ite_throw_eq_ok, nested_eq_ok] at h
    obtain ⟨-, -, -, -, -, -, -, levels, hlevels, rfl⟩ := h
    exact hlevels
  case h_2 | h_3 =>
    simp only [enterStruct, throw_bind, bind_eq_ok, ite_throw_eq_ok, nested_eq_ok] at h
    obtain ⟨-, -, -, levels, hlevels, rfl⟩ := h
    exact hlevels
  case h_4 =>
    simp only [enterVariant, bind_eq_ok, nested_eq_ok] at h
    obtain ⟨-, -, -, -, -, -, levels, hlevels, rfl⟩ := h
    exact hlevels
  case h_5 => simp at h

theorem levels_of_moveTo {pos : Nat} (h : r.moveTo pos = .ok s) : s.levels = r.levels := by
  simp only [moveTo, bind_eq_ok, pure_eq_ok] at h
  obtain ⟨-, -, rfl⟩ := h
  rfl

theorem levels_of_rewind (h : r.rewind = .ok s) : s.levels = r.levels := by
  unfold rewind at h
  split at h
  · split at h <;> cases h
    rfl
  · cases h
    rfl

theorem levels_of_advance (h : r.advance = .ok s) : s.levels = r.levels := by
  simp only [advance, bind_eq_ok] at h
  obtain ⟨e, -, moved, hm, hs⟩ := h
  rw [levels_of_rewind hs, levels_of_moveTo hm]

/-- Moving on changes the place in the body and in the signature and nothing else, also when it
fails. -/
theorem exists_next_eq (r : Reader) : ∃ p i, r.next.2 = { r with pos := p, ix := i } := by
  unfold next
  split
  · exact ⟨r.pos, r.ix, rfl⟩
  · next moved hm =>
    simp only [moveTo, bind_eq_ok, pure_eq_ok] at hm
    obtain ⟨p, -, i, -, rfl⟩ := hm
    split
    · exact ⟨p, i, rfl⟩
    · next s hs =>
      unfold rewind at hs
      split at hs
      · split at hs <;> cases hs
        exact ⟨p, 0, rfl⟩
      · cases hs
        exact ⟨p, i, rfl⟩

/-- Moving on stays on the same level. -/
theorem levels_next (r : Reader) : r.next.2.levels = r.levels := by
  obtain ⟨p, i, h⟩ := r.exists_next_eq
  rw [h]

theorem levels_of_reader {m : Message} {e : Endian} (h : m.reader e = .ok r) :
    r.levels = maxNesting := by
  simp only [Message.reader, bind_eq_ok, pure_eq_ok] at h
  obtain ⟨-, -, -, -, rfl⟩ := h
  rfl

/-! ## Reachable cursors -/

/-- The cursor can be had from the message. -/
inductive Reachable (m : Message) (e : Endian) : Reader → Prop
  | start {r : Reader} : m.reader e = .ok r → Reachable m e r
  | next {r : Reader} : Reachable m e r → Reachable m e r.next.2
  | enter {r s : Reader} : Reachable m e r → r.enter = .ok s → Reachable m e s

theorem Reachable.levels_le {m : Message} {e : Endian} (h : Reachable m e r) :
    r.levels ≤ maxNesting := by
  induction h with
  | start h => exact Nat.le_of_eq (levels_of_reader h)
  | @next r _ ih => rwa [levels_next]
  | enter _ hs ih =>
    have := levels_of_enter hs
    omega

end Reader

end DBus

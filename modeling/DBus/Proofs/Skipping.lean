import DBus.Proofs.Measure
import DBus.Proofs.Safety

/-!
# Skipping values

A value is gone past in three ways. A cursor skips it by the lengths and the types that stand in
the body, reading takes its items and fields one by one, and writing puts padding in front of
every part. All three come to the same place, the end of its cells
(`Marshaller.next_of_readValue`).

The cursor may be any that can be had of a message. Over an array, it fails to move on just where
the value reaches beyond the array.
-/

namespace DBus

/-! ## Room for more levels -/

section

variable {e : Endian} {d d' p : Nat} {t : Ty} {v : Value} {cs : List Cell}

theorem LaidOutAll.imp (h : ∀ t v p cs, LaidOut e d t v p cs → LaidOut e d' t v p cs) :
    ∀ {vs : List Value} {ts : List Ty} {p : Nat} {cs : List Cell}, LaidOutAll e d ts vs p cs →
      LaidOutAll e d' ts vs p cs
  | [], _, _, _, .nil => .nil
  | _ :: _, _, _, _, .cons hc hcs => .cons (h _ _ _ _ hc) (LaidOutAll.imp h hcs)

/-- The cells of a value are the same where it may be nested deeper. -/
theorem LaidOut.mono (h : LaidOut e d t v p cs) (hd : d ≤ d') : LaidOut e d' t v p cs := by
  induction d generalizing d' t v p cs with
  | zero =>
    cases h with
    | scalar hs => exact .scalar hs
    | text hs hlen => exact .text hs hlen
  | succ d ih =>
    obtain ⟨d', rfl⟩ := Nat.exists_eq_add_of_le' (Nat.le_trans (Nat.le_add_left 1 d) hd)
    have hall : ∀ t v p cs, LaidOut e d t v p cs → LaidOut e d' t v p cs :=
      fun _ _ _ _ h => ih h (Nat.le_of_succ_le_succ hd)
    cases h with
    | scalar hs => exact .scalar hs
    | text hs hlen => exact .text hs hlen
    | array h hlen => exact .array (h.imp hall) hlen
    | struct h => exact .struct (h.imp hall)
    | dictEntry h => exact .dictEntry (h.imp hall)
    | variant ht h => exact .variant ht (hall _ _ _ _ h)

end

/-! ## Cursors of a message -/

namespace Reader.Reachable

variable {msg : Message} {e : Endian} {r : Reader}

/-- Every cursor of a message is inside of some number of containers. -/
theorem exists_opened (h : r.Reachable msg e) : ∃ depth, r.Opened msg e depth := by
  induction h with
  | start h => exact ⟨0, .start h⟩
  | next _ ih =>
    obtain ⟨depth, ih⟩ := ih
    exact ⟨depth, .next ih⟩
  | enter _ hs ih =>
    obtain ⟨depth, ih⟩ := ih
    exact ⟨depth + 1, .enter ih hs⟩

theorem inPlace (h : r.Reachable msg e) : r.InPlace := by
  obtain ⟨depth, h⟩ := h.exists_opened
  exact h.inPlace

theorem data_eq (h : r.Reachable msg e) : r.data = msg.data := by
  obtain ⟨depth, h⟩ := h.exists_opened
  exact h.data_eq

/-- Every cursor of a message reads numbers in the same order. -/
theorem endian_eq (h : r.Reachable msg e) : r.endian = e := by
  induction h with
  | start h =>
    obtain ⟨-, rfl⟩ := Message.reader_eq_ok_iff.mp h
    rfl
  | @next r _ ih =>
    obtain ⟨p, i, hnext⟩ := r.exists_next_eq
    rwa [hnext]
  | enter hr hs ih =>
    obtain ⟨c, hc⟩ := require_of_enter hs
    obtain ⟨t, ts, hst, -, -⟩ := hr.inPlace.exists_standsAt hc
    rw [(hst.inside hs).endian, ih]

/-- The type whose signature is the current one is the one that the cursor stands at. -/
theorem standsAt (h : r.Reachable msg e) {t : Ty} (ht : r.currentSignature = .ok t.render) :
    t.Regular ∧ ∃ ts, r.StandsAt t ts := by
  have hrequire := ht
  simp only [currentSignature, bind_eq_ok, discard_eq_ok] at hrequire
  obtain ⟨-, ⟨c, hc⟩, -⟩ := hrequire
  obtain ⟨u, us, hst, -, hformed⟩ := h.inPlace.exists_standsAt hc
  rw [hst.currentSignature_eq, Except.ok.injEq] at ht
  obtain rfl := Ty.render_inj ht
  exact ⟨⟨_, _, _, hformed⟩, us, hst⟩

end Reader.Reachable

namespace Marshaller

/-! ## Writing anywhere -/

theorem writeBy_dictEntry_records (m : Marshaller)
    (inner : (room : Nat) → Ty → Value → Writer → Write Unit) (room : Nat) (k : BasicCode) (t : Ty)
    (v : Value) (w : Writer) :
    m.writeBy inner room (.dictEntry k t) v w =
      m.writeBy inner room (.dictEntry k t) v { w with records := false } := by
  have hopen : w.openDictEntry = Writer.openDictEntry { w with records := false } := by
    rw [Writer.openDictEntry, Writer.openDictEntry]
    rfl
  cases v with
  | dictEntry key value => simp only [writeBy, hopen]
  | _ => rfl

/-- A dict entry by itself is not recorded, so that a writer at the top writes it as one inside a
container does. -/
theorem writeValue_dictEntry (m : Marshaller) (k : BasicCode) (t : Ty) (v : Value) (w : Writer) :
    m.writeValue (.dictEntry k t) v w =
      m.writeValue (.dictEntry k t) v { w with records := false } := by
  have hwithin : ∀ levels, m.writeWithin levels m.maxDepth (.dictEntry k t) v w =
      m.writeWithin levels m.maxDepth (.dictEntry k t) v { w with records := false } := by
    intro levels
    cases levels with
    | zero => exact m.writeBy_dictEntry_records ..
    | succ levels => exact m.writeBy_dictEntry_records ..
  exact hwithin w.levels

/-- A value that is laid out behind a body is written there, whatever its type. -/
theorem exists_writeValue_of_laidOut {m : Marshaller} (hm : m.policy = .standard) {t : Ty}
    {v : Value} {w : Writer} {msg : Message} {cs : List Cell}
    (h : LaidOut w.endian (min m.maxDepth w.levels) t v msg.data.length cs) :
    ∃ msg', (m.writeValue t v w).run msg = .ok () msg' ∧ msg'.data = msg.data ++ fill cs := by
  have hself := Value.normalise_eq_self h.wellFormed.hasType h.wellFormed.unnamed
  cases hcode : t.code with
  | dictEntry =>
    cases t with
    | dictEntry k t =>
      have hwrite := (writeValue_eq_ok_iff hm h.short (w := { w with records := false })
        (fun _ => rfl)).mpr ⟨cs, by rwa [hself], rfl⟩
      rw [← writeValue_dictEntry] at hwrite
      exact ⟨_, hwrite, rfl⟩
    | _ => cases hcode
  | _ =>
    have hwrite := (writeValue_eq_ok_iff hm h.short (w := w)
      (fun h => by rw [hcode] at h; cases h)).mpr
      ⟨cs, by rwa [hself], rfl⟩
    exact ⟨_, hwrite, rfl⟩

/-! ## Three ways past a value -/

/-- Skipping agrees with reading and with writing. If a value is read through a cursor of a
message as the type that the cursor stands at, it ends where it does when it is written in the
same byte order behind a body that is as long as the place of the cursor, with any limit that is
no narrower. The cursor moves on to there, unless it is over an array that ends before. Then it
fails to. -/
theorem next_of_readValue {msg : Message} {e : Endian} {r : Reader}
    (hr : Reader.Reachable msg e r) {t : Ty} (ht : r.currentSignature = .ok t.render)
    {maxDepth : Nat} {v : Value}
    (hv : (⟨.standard, maxDepth⟩ : Marshaller).readValue t r = .ok v) :
    ∃ p, (∀ limit, min maxDepth 64 ≤ limit → ∀ out : Message, out.data.length = r.pos →
        ∃ out', ((⟨.standard, limit⟩ : Marshaller).writeValue t v (.top e)).run out =
          .ok () out' ∧ out'.data.length = p) ∧
      (r.repeats = false → ∃ more s, r.next = (.ok more, s) ∧ s.pos = p) ∧
      (r.repeats = true → p ≤ r.stop → ∃ more s, r.next = (.ok more, s) ∧ s.pos = p) ∧
      (r.repeats = true → r.stop < p → ∃ s, r.next = (.error (.indexOutOfBounds p), s)) := by
  obtain ⟨hregular, ts, hst⟩ := hr.standsAt ht
  obtain ⟨cs, hcs, hat⟩ := (readValue_eq_ok_iff rfl hregular hst).mp hv
  have hnext := hst.next_eq (Reader.valueEnd_eq (Nat.min_le_right _ _) hcs hat hst)
  rw [hr.endian_eq] at hcs
  have hmoves : ¬(r.repeats = true ∧ r.stop < r.pos + cs.length) →
      ∃ more s, r.next = (.ok more, s) ∧ s.pos = r.pos + cs.length := fun hin => by
    rw [if_neg hin] at hnext
    exact ⟨_, _, hnext, rfl⟩
  refine ⟨r.pos + cs.length, fun limit hlimit out hout => ?_,
    fun hrep => hmoves fun h => ?_, fun _ hle => hmoves fun h => Nat.not_le.mpr h.2 hle,
    fun hrep hlt => ⟨_, by rw [hnext, if_pos ⟨hrep, hlt⟩]⟩⟩
  · -- what was read is nested no deeper than a fresh writer can go
    have hlevels := hr.levels_le
    have hdepth : min maxDepth r.levels ≤ min limit maxNesting := by
      rw [maxNesting] at hlevels ⊢
      omega
    rw [← hout] at hcs
    obtain ⟨out', hwrite, hdata⟩ := exists_writeValue_of_laidOut
      (m := ⟨.standard, limit⟩) rfl (w := .top e) (hcs.mono hdepth)
    exact ⟨out', hwrite, by rw [hdata, List.length_append, length_fill, hout]⟩
  · rw [hrep] at h
    cases h.1

/-- A boolean that reaches two bytes beyond the array it is in. -/
theorem next_of_readValue_overrun :
    Reader.Reachable ⟨[2, 0, 0, 0, 1, 0, 0, 0], [97, 98]⟩ .little
        ⟨.little, [2, 0, 0, 0, 1, 0, 0, 0], 4, 6, [98], 0, true, 63⟩ ∧
      (⟨.standard, 64⟩ : Marshaller).readValue (.fixed .boolean)
          ⟨.little, [2, 0, 0, 0, 1, 0, 0, 0], 4, 6, [98], 0, true, 63⟩ =
        .ok (.scalar (.boolean true)) ∧
      ∃ p, 6 < p ∧
        (∃ out, ((⟨.standard, 64⟩ : Marshaller).writeValue (.fixed .boolean)
          (.scalar (.boolean true)) (.top .little)).run ⟨[9, 9, 9, 9], [117]⟩ = .ok () out ∧
            out.data.length = p) ∧
        ∃ s, Reader.next ⟨.little, [2, 0, 0, 0, 1, 0, 0, 0], 4, 6, [98], 0, true, 63⟩ =
          (.error (.indexOutOfBounds p), s) := by
  have hstart : Message.reader ⟨[2, 0, 0, 0, 1, 0, 0, 0], [97, 98]⟩ .little =
      .ok ⟨.little, [2, 0, 0, 0, 1, 0, 0, 0], 0, 8, [97, 98], 0, false, 64⟩ := by rfl
  have hr : Reader.Reachable ⟨[2, 0, 0, 0, 1, 0, 0, 0], [97, 98]⟩ .little
      ⟨.little, [2, 0, 0, 0, 1, 0, 0, 0], 4, 6, [98], 0, true, 63⟩ :=
    .enter (.start hstart) (by rfl)
  have hv : (⟨.standard, 64⟩ : Marshaller).readValue (.fixed .boolean)
      ⟨.little, [2, 0, 0, 0, 1, 0, 0, 0], 4, 6, [98], 0, true, 63⟩ =
        .ok (.scalar (.boolean true)) := by rfl
  obtain ⟨p, hwrite, -, -, hover⟩ := next_of_readValue hr (by rfl) hv
  obtain ⟨out, hout, hp⟩ := hwrite 64 (Nat.le_refl 64) ⟨[9, 9, 9, 9], [117]⟩ rfl
  have height : p = 8 := by
    cases hout
    exact hp.symm
  subst height
  exact ⟨hr, hv, 8, by decide, ⟨out, hout, hp⟩, hover rfl (by decide)⟩

end Marshaller

end DBus

import DBus.Proofs.Outcome
import DBus.Proofs.Rendering

/-!
# What the scan accepts

`CompleteType m n s` is the grammar of one complete type `s` with at most `m` arrays, and at most
`n` structs and dict entries together, on any path from the type inwards. It speaks of texts
alone. `Ty.Formed` is the same on trees, and `completeType_iff` joins the two by rendering.

`Scan.step` keeps two invariants. The text of a scan is what has been read (`Scan.text_step`),
and its types, the completed ones and those inside open containers, are formed within what the
containers around them leave of the limits (`Scan.Valid`). From the other side a formed type is
scanned in one go (`Scan.foldlM_render`), whatever is open around it. Together they say that
parsing is the inverse of rendering formed types (`parseTypes_eq_ok_iff`,
`parseType_eq_ok_iff`).
-/

namespace DBus

/-! ## The grammar -/

/-- A complete type inside of which no path meets more than `arrays` arrays, or more than
`structs` structs and dict entries. -/
inductive CompleteType : (arrays structs : Nat) → Bytes → Prop
  | basic {m n : Nat} (c : BasicCode) : CompleteType m n [(TypeCode.basic c).byte]
  | variant {m n : Nat} : CompleteType m n [TypeCode.variant.byte]
  | array {m n : Nat} {s : Bytes} : CompleteType m n s →
      CompleteType (m + 1) n (TypeCode.array.byte :: s)
  | dictionary {m n : Nat} {s : Bytes} (k : BasicCode) : CompleteType m n s →
      CompleteType (m + 1) (n + 1) (TypeCode.array.byte :: TypeCode.dictEntry.byte ::
        (TypeCode.basic k).byte :: (s ++ [Ty.entryEnd]))
  | struct {m n : Nat} {parts : List Bytes} : parts ≠ [] → (∀ p ∈ parts, CompleteType m n p) →
      CompleteType m (n + 1) (TypeCode.struct.byte :: (parts.flatten ++ [Ty.structEnd]))

/-- A tree of a complete type within the same limits, or, directly inside an array, of a dict
entry. -/
inductive Ty.Formed : (inArray : Bool) → (arrays structs : Nat) → Ty → Prop
  | basic {b : Bool} {m n : Nat} (c : BasicCode) : Formed b m n (.basic c)
  | variant {b : Bool} {m n : Nat} : Formed b m n .variant
  | array {b : Bool} {m n : Nat} {e : Ty} : Formed true m n e → Formed b (m + 1) n (.array e)
  | struct {b : Bool} {m n : Nat} {ts : List Ty} : ts ≠ [] → (∀ t ∈ ts, Formed false m n t) →
      Formed b m (n + 1) (.struct ts)
  | dictEntry {m n : Nat} {v : Ty} (k : BasicCode) : Formed false m n v →
      Formed true m (n + 1) (.dictEntry k v)

/-- A complete type as signatures limit it. -/
abbrev Ty.Complete (t : Ty) : Prop := t.Formed false maxTypeDepth maxTypeDepth

namespace Ty.Formed

variable {b : Bool} {m n : Nat} {t : Ty}

theorem element (h : t.Formed false m n) : t.Formed true m n := by
  cases h with
  | basic c => exact .basic c
  | variant => exact .variant
  | array he => exact .array he
  | struct hne hts => exact .struct hne hts

/-- Wider limits hold, too. -/
theorem mono {m' n' : Nat} (h : t.Formed b m n) (hm : m ≤ m') (hn : n ≤ n') :
    t.Formed b m' n' := by
  induction h generalizing m' n' with
  | basic c => exact .basic c
  | variant => exact .variant
  | array _ ih =>
    obtain ⟨k, rfl⟩ := Nat.exists_eq_add_of_lt hm
    exact .array (ih (by omega) hn)
  | struct hne _ ih =>
    obtain ⟨k, rfl⟩ := Nat.exists_eq_add_of_lt hn
    exact .struct hne fun t ht => ih t ht hm (by omega)
  | dictEntry k _ ih =>
    obtain ⟨j, rfl⟩ := Nat.exists_eq_add_of_lt hn
    exact .dictEntry k (ih hm (by omega))

/-- A formed type is the element of an array, and complete if it may stand outside of one. -/
theorem completeType (h : t.Formed b m n) :
    CompleteType (m + 1) n (TypeCode.array.byte :: t.render) ∧
      (b = false → CompleteType m n t.render) := by
  induction h with
  | basic c => exact ⟨.array (.basic c), fun _ => .basic c⟩
  | variant => exact ⟨.array .variant, fun _ => .variant⟩
  | array _ ih => exact ⟨.array ih.1, fun _ => ih.1⟩
  | @struct b m n ts hne _ ih =>
    have hs : CompleteType m (n + 1) (Ty.struct ts).render := by
      rw [Ty.render, Ty.renderAll_eq_flatten]
      refine .struct (by simpa using hne) fun p hp => ?_
      obtain ⟨t, ht, rfl⟩ := List.mem_map.mp hp
      exact (ih t ht).2 rfl
    exact ⟨.array hs, fun _ => hs⟩
  | dictEntry k _ ih => exact ⟨.dictionary k (ih.2 rfl), nofun⟩

end Ty.Formed

/-- A list of complete texts is the list of renderings of formed types. -/
theorem exists_formed_of_forall {m n : Nat} {parts : List Bytes}
    (h : ∀ p ∈ parts, ∃ t : Ty, t.Formed false m n ∧ t.render = p) :
    ∃ ts : List Ty, (∀ t ∈ ts, t.Formed false m n) ∧ ts.map Ty.render = parts := by
  induction parts with
  | nil => exact ⟨[], by simp, rfl⟩
  | cons p ps ih =>
    obtain ⟨t, ht, rfl⟩ := h p (by simp)
    obtain ⟨ts, hts, rfl⟩ := ih fun q hq => h q (by simp [hq])
    exact ⟨t :: ts, by simpa using ⟨ht, hts⟩, rfl⟩

/-- The complete texts are the renderings of the formed types. -/
theorem completeType_iff {m n : Nat} {s : Bytes} :
    CompleteType m n s ↔ ∃ t : Ty, t.Formed false m n ∧ t.render = s := by
  constructor
  · intro h
    induction h with
    | basic c => exact ⟨.basic c, .basic c, rfl⟩
    | variant => exact ⟨.variant, .variant, rfl⟩
    | array _ ih =>
      obtain ⟨t, ht, rfl⟩ := ih
      exact ⟨.array t, .array ht.element, rfl⟩
    | dictionary k _ ih =>
      obtain ⟨t, ht, rfl⟩ := ih
      exact ⟨.array (.dictEntry k t), .array (.dictEntry k ht), rfl⟩
    | struct hne _ ih =>
      obtain ⟨ts, hts, rfl⟩ := exists_formed_of_forall ih
      refine ⟨.struct ts, .struct (by simpa using hne) hts, ?_⟩
      rw [Ty.render, Ty.renderAll_eq_flatten]
  · rintro ⟨t, ht, rfl⟩
    exact ht.completeType.2 rfl

namespace Scan

/-! ## The moves of the scan -/

/-- What a byte can do, with the types `done` behind it. -/
inductive Move (done : List Ty) : Expected → UInt8 → Scan → Prop
  | basic (c : BasicCode) (fs : List Frame) :
    Move done (.type fs) (TypeCode.basic c).byte (complete done (.basic c) fs)
  | variant (fs : List Frame) :
    Move done (.type fs) TypeCode.variant.byte (complete done .variant fs)
  | array {fs : List Frame} : arrays fs < maxTypeDepth →
    Move done (.type fs) TypeCode.array.byte ⟨done, .type (.array :: fs)⟩
  | struct {fs : List Frame} : structs fs < maxTypeDepth →
    Move done (.type fs) TypeCode.struct.byte ⟨done, .type (.struct [] :: fs)⟩
  | structEnd {ts : List Ty} {fs : List Frame} : ts ≠ [] →
    Move done (.type (.struct ts :: fs)) Ty.structEnd (complete done (.struct ts.reverse) fs)
  | dictEntry {fs : List Frame} : structs fs < maxTypeDepth →
    Move done (.type (.array :: fs)) TypeCode.dictEntry.byte ⟨done, .key (.array :: fs)⟩
  | key (k : BasicCode) (fs : List Frame) :
    Move done (.key fs) (TypeCode.basic k).byte ⟨done, .type (.entry k :: fs)⟩
  | entryEnd (k : BasicCode) (t : Ty) (fs : List Frame) :
    Move done (.entryEnd k t fs) Ty.entryEnd (complete done (.dictEntry k t) fs)

theorem move_of_openType {done : List Ty} {c : TypeCode} {fs : List Frame} {s : Scan}
    (h : openType done c fs = .ok s) : Move done (.type fs) c.byte s := by
  cases c with
  | basic b =>
    cases h
    exact .basic b fs
  | variant =>
    cases h
    exact .variant fs
  | array =>
    simp only [openType] at h
    split at h
    · cases h
      exact .array ‹_›
    · cases h
  | struct =>
    simp only [openType] at h
    split at h
    · cases h
      exact .struct ‹_›
    · cases h
  | dictEntry =>
    simp only [openType] at h
    split at h
    · split at h
      · cases h
        exact .dictEntry ‹_›
      · cases h
    · cases h

theorem move_of_close {done : List Ty} {b : UInt8} {fs : List Frame} {s : Scan}
    (h : close done b fs = .ok s) : Move done (.type fs) b s := by
  rcases fs with _ | ⟨_ | ts | k, fs⟩
  · cases h
  · simp only [close] at h
    split at h <;> cases h
  · simp only [close] at h
    split at h
    · next hb =>
      split at h
      · cases h
      · next hts =>
        cases h
        subst hb
        exact .structEnd (by simpa using hts)
    · cases h
  · simp only [close] at h
    split at h <;> cases h

/-- A byte that is not refused makes one of the moves. -/
theorem move_of_step {s s' : Scan} {b : UInt8} (h : s.step b = .ok s') :
    Move s.done s.expected b s' := by
  obtain ⟨done, fs | fs | ⟨k, t, fs⟩⟩ := s
  · simp only [step] at h
    split at h
    · next c hc =>
      rw [← TypeCode.byte_of_ofByte? hc]
      exact move_of_openType h
    · exact move_of_close h
  · simp only [step] at h
    split at h
    · next k hk =>
      cases h
      rw [← TypeCode.byte_of_ofByte? hk]
      exact .key k fs
    · cases h
    · cases h
  · simp only [step] at h
    split at h
    · next hb =>
      cases h
      subst hb
      exact .entryEnd k t fs
    · cases h

/-! ## What has been read -/

/-- The text that opened the containers, innermost first, and filled them so far. -/
def opened : List Frame → Bytes
  | [] => []
  | .array :: fs => opened fs ++ [TypeCode.array.byte]
  | .struct ts :: fs => opened fs ++ TypeCode.struct.byte :: Ty.renderAll ts.reverse
  | .entry k :: fs => opened fs ++ [TypeCode.dictEntry.byte, (TypeCode.basic k).byte]

/-- The text read since the last type completed at the top. -/
def pending : Expected → Bytes
  | .type fs => opened fs
  | .key fs => opened fs ++ [TypeCode.dictEntry.byte]
  | .entryEnd k t fs =>
    opened fs ++ TypeCode.dictEntry.byte :: (TypeCode.basic k).byte :: t.render

/-- The text that the scan has read. -/
def text (s : Scan) : Bytes := Ty.renderAll s.done.reverse ++ pending s.expected

theorem text_mk (done : List Ty) (e : Expected) :
    (⟨done, e⟩ : Scan).text = Ty.renderAll done.reverse ++ pending e :=
  rfl

theorem text_complete (done : List Ty) (t : Ty) (fs : List Frame) :
    (complete done t fs).text = Ty.renderAll done.reverse ++ opened fs ++ t.render := by
  induction fs generalizing t with
  | nil => simp [complete, text_mk, pending, opened, Ty.renderAll_append, Ty.renderAll]
  | cons f fs ih =>
    cases f with
    | array => simp [complete, ih, opened, Ty.render]
    | struct ts => simp [complete, text_mk, pending, opened, Ty.renderAll_append, Ty.renderAll]
    | entry k => simp [complete, text_mk, pending, opened]

/-- A step reads its byte. -/
theorem text_step {s s' : Scan} {b : UInt8} (h : s.step b = .ok s') :
    s'.text = s.text ++ [b] := by
  obtain ⟨done, expected⟩ := s
  have hm := move_of_step h
  cases hm <;> simp [text_complete, text_mk, pending, opened, Ty.render, Ty.renderAll]

theorem text_foldlM {bs : Bytes} {s s' : Scan} (h : bs.foldlM step s = .ok s') :
    s'.text = s.text ++ bs := by
  induction bs generalizing s with
  | nil =>
    cases h
    simp
  | cons b bs ih =>
    rw [List.foldlM_cons] at h
    cases hs : s.step b with
    | error e => simp [hs, bind, Except.bind] at h
    | ok s₁ =>
      rw [hs] at h
      rw [ih h, text_step hs]
      simp

/-! ## The limits -/

/-- Whether the innermost open container is an array. -/
def inArray : List Frame → Bool
  | .array :: _ => true
  | _ => false

/-- The type may stand inside the open containers. -/
abbrev Fits (fs : List Frame) (t : Ty) : Prop :=
  t.Formed (inArray fs) (maxTypeDepth - arrays fs) (maxTypeDepth - structs fs)

/-- An array fits where its items fit inside of it. -/
theorem fits_array {fs : List Frame} {e : Ty} (h : arrays fs < maxTypeDepth)
    (he : Fits (.array :: fs) e) : Fits fs (.array e) := by
  have hroom : maxTypeDepth - arrays fs = maxTypeDepth - (arrays fs + 1) + 1 := by omega
  rw [Fits, hroom]
  exact .array he

/-- A struct fits where its fields fit inside of it. -/
theorem fits_struct {fs : List Frame} {us ts : List Ty} (h : structs fs < maxTypeDepth)
    (hne : ts ≠ []) (hts : ∀ t ∈ ts, Fits (.struct us :: fs) t) : Fits fs (.struct ts) := by
  have hroom : maxTypeDepth - structs fs = maxTypeDepth - (structs fs + 1) + 1 := by omega
  rw [Fits, hroom]
  exact .struct hne hts

/-- A dict entry fits in an array, where its value fits inside of it. -/
theorem fits_dictEntry {fs : List Frame} {k : BasicCode} {v : Ty} (h : structs fs < maxTypeDepth)
    (hin : inArray fs = true) (hv : Fits (.entry k :: fs) v) : Fits fs (.dictEntry k v) := by
  have hroom : maxTypeDepth - structs fs = maxTypeDepth - (structs fs + 1) + 1 := by omega
  rw [Fits, hroom, hin]
  exact .dictEntry k hv

/-- The containers were opened within the limits, and the types in them fit. -/
def ValidFrames : List Frame → Prop
  | [] => True
  | .array :: fs => arrays fs < maxTypeDepth ∧ ValidFrames fs
  | .struct ts :: fs =>
    structs fs < maxTypeDepth ∧ (∀ t ∈ ts, Fits (.struct ts :: fs) t) ∧ ValidFrames fs
  | .entry _ :: fs => structs fs < maxTypeDepth ∧ inArray fs = true ∧ ValidFrames fs

/-- The part of the scan that is not completed keeps to the limits. -/
def ValidExpected : Expected → Prop
  | .type fs => ValidFrames fs
  | .key fs => structs fs < maxTypeDepth ∧ inArray fs = true ∧ ValidFrames fs
  | .entryEnd k t fs => ValidFrames (.entry k :: fs) ∧ Fits (.entry k :: fs) t

/-- Every type in the scan keeps to the limits. -/
def Valid (s : Scan) : Prop := (∀ t ∈ s.done, t.Complete) ∧ ValidExpected s.expected

theorem valid_complete {done : List Ty} {t : Ty} {fs : List Frame}
    (hdone : ∀ t ∈ done, t.Complete) (hfs : ValidFrames fs) (ht : Fits fs t) :
    (complete done t fs).Valid := by
  induction fs generalizing t with
  | nil => exact ⟨List.forall_mem_cons.mpr ⟨ht, hdone⟩, trivial⟩
  | cons f fs ih =>
    cases f with
    | array =>
      obtain ⟨hlt, hfs⟩ := hfs
      exact ih hfs (fits_array hlt ht)
    | struct ts =>
      obtain ⟨hlt, hts, hfs⟩ := hfs
      exact ⟨hdone, hlt, List.forall_mem_cons.mpr ⟨ht, hts⟩, hfs⟩
    | entry k => exact ⟨hdone, hfs, ht⟩

/-- A step keeps to the limits. -/
theorem valid_step {s s' : Scan} {b : UInt8} (h : s.step b = .ok s') (hs : s.Valid) :
    s'.Valid := by
  obtain ⟨done, expected⟩ := s
  obtain ⟨hdone, hs⟩ := hs
  cases move_of_step h with
  | basic c fs => exact valid_complete hdone hs (.basic c)
  | variant fs => exact valid_complete hdone hs .variant
  | array hlt => exact ⟨hdone, hlt, hs⟩
  | struct hlt => exact ⟨hdone, hlt, by simp, hs⟩
  | @structEnd ts fs hne =>
    obtain ⟨hlt, hts, hfs⟩ := hs
    have hall : ∀ t ∈ ts.reverse, Fits (.struct ts :: fs) t :=
      fun t ht => hts t (List.mem_reverse.mp ht)
    exact valid_complete hdone hfs (fits_struct hlt (by simpa using hne) hall)
  | dictEntry hlt => exact ⟨hdone, hlt, rfl, hs⟩
  | key k fs => exact ⟨hdone, hs⟩
  | entryEnd k t fs =>
    obtain ⟨⟨hlt, hin, hfs⟩, ht⟩ := hs
    exact valid_complete hdone hfs (fits_dictEntry hlt hin ht)

theorem valid_foldlM {bs : Bytes} {s s' : Scan} (h : bs.foldlM step s = .ok s')
    (hs : s.Valid) : s'.Valid := by
  induction bs generalizing s with
  | nil =>
    cases h
    exact hs
  | cons b bs ih =>
    rw [List.foldlM_cons] at h
    cases hb : s.step b with
    | error e => simp [hb, bind, Except.bind] at h
    | ok s₁ =>
      rw [hb] at h
      exact ih h (valid_step hb hs)

/-- A scan that may end here has read its types and nothing else. -/
theorem finish_eq_ok {s : Scan} {ts : List Ty} (h : s.finish = .ok ts) (hs : s.Valid) :
    s.text = Ty.renderAll ts ∧ ∀ t ∈ ts, t.Complete := by
  obtain ⟨done, (_ | ⟨_ | us | k, fs⟩) | fs | ⟨k, t, fs⟩⟩ := s
  · cases h
    exact ⟨by simp [text, pending, opened], fun t ht => hs.1 t (by simpa using ht)⟩
  all_goals cases h

/-! ## Scanning a rendered type -/

/-- A step that is the scan's own as long as no further type completes at the top. -/
def AgreesOn (done : List Ty) (f : Scan → UInt8 → Except SignatureFault Scan) : Prop :=
  ∀ e b, f ⟨done, e⟩ b = step ⟨done, e⟩ b

theorem foldlM_cons_of_step {done : List Ty} {f : Scan → UInt8 → Except SignatureFault Scan}
    (hf : AgreesOn done f) {e : Expected} {b : UInt8} {s : Scan}
    (h : step ⟨done, e⟩ b = .ok s) (bs : Bytes) :
    (b :: bs).foldlM f ⟨done, e⟩ = bs.foldlM f s := by
  rw [List.foldlM_cons, hf, h]
  rfl

theorem step_type (done : List Ty) (c : TypeCode) (fs : List Frame) :
    step ⟨done, .type fs⟩ c.byte = openType done c fs := by
  simp [step, TypeCode.ofByte?_byte]

theorem step_array (done : List Ty) {fs : List Frame} (h : arrays fs < maxTypeDepth) :
    step ⟨done, .type fs⟩ TypeCode.array.byte = .ok ⟨done, .type (.array :: fs)⟩ := by
  rw [step_type, openType, if_pos h]

theorem step_struct (done : List Ty) {fs : List Frame} (h : structs fs < maxTypeDepth) :
    step ⟨done, .type fs⟩ TypeCode.struct.byte = .ok ⟨done, .type (.struct [] :: fs)⟩ := by
  rw [step_type, openType, if_pos h]

theorem step_structEnd (done : List Ty) {ts : List Ty} (h : ts ≠ []) (fs : List Frame) :
    step ⟨done, .type (.struct ts :: fs)⟩ Ty.structEnd =
      .ok (complete done (.struct ts.reverse) fs) := by
  have hb : TypeCode.ofByte? Ty.structEnd = none := by decide
  simp [step, hb, close, h]

theorem step_dictEntry (done : List Ty) {fs : List Frame} (ha : inArray fs = true)
    (h : structs fs < maxTypeDepth) :
    step ⟨done, .type fs⟩ TypeCode.dictEntry.byte = .ok ⟨done, .key fs⟩ := by
  rw [step_type]
  rcases fs with _ | ⟨_ | ts | k, fs⟩
  case cons.array => exact if_pos h
  all_goals cases ha

theorem step_key (done : List Ty) (k : BasicCode) (fs : List Frame) :
    step ⟨done, .key fs⟩ (TypeCode.basic k).byte = .ok ⟨done, .type (.entry k :: fs)⟩ := by
  simp [step, TypeCode.ofByte?_byte]

theorem step_entryEnd (done : List Ty) (k : BasicCode) (t : Ty) (fs : List Frame) :
    step ⟨done, .entryEnd k t fs⟩ Ty.entryEnd = .ok (complete done (.dictEntry k t) fs) :=
  rfl

variable {done : List Ty} {f : Scan → UInt8 → Except SignatureFault Scan}

/-- Fields that are scanned in one go each are scanned in one go together. -/
theorem foldlM_renderAll {fs : List Frame} {ts : List Ty} (acc : List Ty)
    (h : ∀ t ∈ ts, ∀ acc rest, (t.render ++ rest).foldlM f ⟨done, .type (.struct acc :: fs)⟩ =
      rest.foldlM f (complete done t (.struct acc :: fs))) (rest : Bytes) :
    (Ty.renderAll ts ++ rest).foldlM f ⟨done, .type (.struct acc :: fs)⟩ =
      rest.foldlM f ⟨done, .type (.struct (ts.reverse ++ acc) :: fs)⟩ := by
  induction ts generalizing acc with
  | nil => rfl
  | cons t ts ih =>
    rw [Ty.renderAll, List.append_assoc, h t (by simp), complete,
      ih _ fun u hu => h u (by simp [hu])]
    simp

/-- A formed type is scanned in one go, whatever is open around it, if the limits leave room
for it. -/
theorem foldlM_render (hf : AgreesOn done f) {b : Bool} {m n : Nat} {t : Ty}
    (ht : t.Formed b m n) (fs : List Frame) (hb : b = true → inArray fs = true)
    (hm : m + arrays fs ≤ maxTypeDepth) (hn : n + structs fs ≤ maxTypeDepth) (rest : Bytes) :
    (t.render ++ rest).foldlM f ⟨done, .type fs⟩ = rest.foldlM f (complete done t fs) := by
  induction ht generalizing fs rest with
  | basic c => exact foldlM_cons_of_step hf (step_type done (.basic c) fs) rest
  | variant => exact foldlM_cons_of_step hf (step_type done .variant fs) rest
  | array _ ih =>
    rw [Ty.render, List.cons_append, foldlM_cons_of_step hf (step_array done (by omega)),
      ih (.array :: fs) (fun _ => rfl) (by simp only [arrays]; omega) hn]
    rfl
  | @struct b m n ts hne _ ih =>
    have hfields : ∀ t ∈ ts, ∀ acc rest,
        (t.render ++ rest).foldlM f ⟨done, .type (.struct acc :: fs)⟩ =
          rest.foldlM f (complete done t (.struct acc :: fs)) := fun t ht acc rest =>
      ih t ht (.struct acc :: fs) nofun hm (by simp only [structs]; omega) rest
    rw [Ty.render, List.cons_append, foldlM_cons_of_step hf (step_struct done (by omega)),
      List.append_assoc, foldlM_renderAll [] hfields, List.append_nil, List.singleton_append,
      foldlM_cons_of_step hf (step_structEnd done (by simpa using hne) fs), List.reverse_reverse]
  | dictEntry k _ ih =>
    rw [Ty.render, List.cons_append,
      foldlM_cons_of_step hf (step_dictEntry done (hb rfl) (by omega)), List.cons_append,
      foldlM_cons_of_step hf (step_key done k fs), List.append_assoc,
      ih (.entry k :: fs) nofun hm (by simp only [structs]; omega), complete,
      List.singleton_append, foldlM_cons_of_step hf (step_entryEnd done k _ fs)]

end Scan

/-! ## Parsing -/

theorem checkLength_eq_ok_iff {s : Bytes} {u : Unit} :
    checkLength s = .ok u ↔ s.length ≤ maxSignatureLength := by
  unfold checkLength
  split <;> simp_all

/-- Scanning formed types one after the other completes all of them. -/
theorem foldlM_renderAll_start (ts done : List Ty) (h : ∀ t ∈ ts, t.Complete) :
    (Ty.renderAll ts).foldlM Scan.step ⟨done, .type []⟩ =
      .ok ⟨ts.reverse ++ done, .type []⟩ := by
  induction ts generalizing done with
  | nil => rfl
  | cons t ts ih =>
    rw [Ty.renderAll, Scan.foldlM_render (fun _ _ => rfl) (h t (by simp)) [] nofun (Nat.le_refl _)
      (Nat.le_refl _), Scan.complete, ih _ fun u hu => h u (by simp [hu])]
    simp

/-- Parsing is the inverse of rendering complete types. -/
theorem parseTypes_eq_ok_iff {s : Bytes} {ts : List Ty} :
    parseTypes s = .ok ts ↔
      s.length ≤ maxSignatureLength ∧ (∀ t ∈ ts, t.Complete) ∧ Ty.renderAll ts = s := by
  simp only [parseTypes, bind_eq_ok, checkLength_eq_ok_iff, exists_const]
  refine and_congr_right fun _ => ?_
  constructor
  · rintro ⟨scan, hscan, hfinish⟩
    have hvalid := Scan.valid_foldlM hscan ⟨by simp [Scan.start], trivial⟩
    obtain ⟨htext, hts⟩ := Scan.finish_eq_ok hfinish hvalid
    refine ⟨hts, ?_⟩
    rw [← htext, Scan.text_foldlM hscan]
    rfl
  · rintro ⟨hts, rfl⟩
    refine ⟨_, foldlM_renderAll_start ts [] hts, ?_⟩
    simp [Scan.finish]

/-- What the scan of a single type does not refuse, the scan of any number does not either. -/
theorem foldlM_step_of_stepSingle {bs : Bytes} {s s' : Scan}
    (h : bs.foldlM Scan.stepSingle s = .ok s') : bs.foldlM Scan.step s = .ok s' := by
  induction bs generalizing s with
  | nil => exact h
  | cons b bs ih =>
    rw [List.foldlM_cons, bind_eq_ok] at h ⊢
    obtain ⟨s₁, hs₁, h⟩ := h
    rw [Scan.stepSingle] at hs₁
    split at hs₁
    · exact ⟨s₁, hs₁, ih h⟩
    · cases hs₁

/-- A list of types that renders to the text of one type is that type. -/
theorem parseTypes_eq_singleton_iff {s : Bytes} {t : Ty} :
    parseTypes s = .ok [t] ↔ s.length ≤ maxSignatureLength ∧ t.Complete ∧ t.render = s := by
  simp [parseTypes_eq_ok_iff, Ty.renderAll]

/-- A single type is parsed exactly where a list of one type is. -/
theorem parseType_eq_ok_iff {s : Bytes} {t : Ty} :
    parseType s = .ok t ↔ parseTypes s = .ok [t] := by
  constructor
  · intro h
    simp only [parseType, bind_eq_ok] at h
    obtain ⟨u, hlen, scan, hscan, ts, hts, h⟩ := h
    split at h
    · cases h
      simp only [parseTypes, bind_eq_ok]
      exact ⟨u, hlen, scan, foldlM_step_of_stepSingle hscan, hts⟩
    · cases h
    · cases h
  · rw [parseTypes_eq_singleton_iff]
    rintro ⟨hlen, ht, rfl⟩
    -- nothing completes at the top before the type itself does
    have hagrees : Scan.AgreesOn [] Scan.stepSingle := fun _ _ => rfl
    have hscan := Scan.foldlM_render hagrees ht [] (fun h => absurd h Bool.false_ne_true)
      (Nat.le_refl _) (Nat.le_refl _) []
    rw [List.append_nil] at hscan
    simp only [parseType, bind_eq_ok]
    exact ⟨(), checkLength_eq_ok_iff.mpr hlen, _, hscan, [t], rfl, rfl⟩

/-! ## Arguments -/

namespace Argument

theorem listOfSignature_eq_ok_iff {s : Bytes} {as : List Argument} :
    listOfSignature s = .ok as ↔
      ∃ ts, parseTypes s = .ok ts ∧ ts.map (fun t => ⟨t, none⟩) = as := by
  unfold listOfSignature
  split <;> simp [*]

theorem ofSignature_eq_ok_iff {s : Bytes} {a : Argument} :
    ofSignature s = .ok a ↔ ∃ t, parseType s = .ok t ∧ (⟨t, none⟩ : Argument) = a := by
  unfold ofSignature
  split <;> simp [*]

/-- A single argument is had exactly where the list of arguments has that one alone. -/
theorem ofSignature_eq_ok_iff_listOfSignature {s : Bytes} {a : Argument} :
    ofSignature s = .ok a ↔ listOfSignature s = .ok [a] := by
  rw [ofSignature_eq_ok_iff, listOfSignature_eq_ok_iff]
  constructor
  · rintro ⟨t, ht, rfl⟩
    exact ⟨[t], parseType_eq_ok_iff.mp ht, rfl⟩
  · rintro ⟨ts, hts, h⟩
    obtain ⟨t, rfl, rfl⟩ := List.map_eq_singleton_iff.mp h
    exact ⟨t, parseType_eq_ok_iff.mpr hts, rfl⟩

theorem checkSignature_eq_ok_iff {s : Bytes} {u : Unit} :
    checkSignature s = .ok u ↔ ∃ ts, parseTypes s = .ok ts := by
  simp only [checkSignature, discard_eq_ok, listOfSignature_eq_ok_iff]
  constructor
  · rintro ⟨as, ts, hts, -⟩
    exact ⟨ts, hts⟩
  · rintro ⟨ts, hts⟩
    exact ⟨_, ts, hts, rfl⟩

/-- The complete types of a text are told apart in one way only. -/
theorem eq_map_render_of_flatten_eq {m n : Nat} {ts : List Ty} {parts : List Bytes}
    (hparts : ∀ p ∈ parts, CompleteType m n p) (h : parts.flatten = Ty.renderAll ts) :
    parts = ts.map Ty.render := by
  obtain ⟨us, -, rfl⟩ := exists_formed_of_forall fun p hp => completeType_iff.mp (hparts p hp)
  rw [← Ty.renderAll_eq_flatten] at h
  rw [Ty.renderAll_inj h]

/-- Signatures are read by the grammar. A text lists arguments exactly if it is short enough and
a concatenation of complete types; then it is one in a single way, with one argument for each
type. A text makes a single argument exactly if it lists that argument alone. -/
theorem listOfSignature_grammar (s : Bytes) :
    ((∃ as, listOfSignature s = .ok as) ↔
      s.length ≤ 255 ∧
        ∃ parts : List Bytes, parts.flatten = s ∧ ∀ p ∈ parts, CompleteType 32 32 p) ∧
    (∀ as, listOfSignature s = .ok as →
      (as.map fun a => utf8 a.ty.signature).flatten = s ∧
      (∀ a ∈ as, a.name = none ∧ CompleteType 32 32 (utf8 a.ty.signature)) ∧
      ∀ parts : List Bytes, parts.flatten = s → (∀ p ∈ parts, CompleteType 32 32 p) →
        parts = as.map fun a => utf8 a.ty.signature) ∧
    (∀ a, ofSignature s = .ok a ↔ listOfSignature s = .ok [a]) := by
  refine ⟨⟨?_, ?_⟩, ?_, fun a => ofSignature_eq_ok_iff_listOfSignature⟩
  · rintro ⟨as, has⟩
    obtain ⟨ts, hts, -⟩ := listOfSignature_eq_ok_iff.mp has
    obtain ⟨hlen, hc, rfl⟩ := parseTypes_eq_ok_iff.mp hts
    refine ⟨hlen, ts.map Ty.render, (Ty.renderAll_eq_flatten ts).symm, fun p hp => ?_⟩
    obtain ⟨t, ht, rfl⟩ := List.mem_map.mp hp
    exact completeType_iff.mpr ⟨t, hc t ht, rfl⟩
  · rintro ⟨hlen, parts, rfl, hparts⟩
    obtain ⟨ts, hts, rfl⟩ :=
      exists_formed_of_forall fun p hp => completeType_iff.mp (hparts p hp)
    rw [← Ty.renderAll_eq_flatten] at hlen ⊢
    exact ⟨_, listOfSignature_eq_ok_iff.mpr
      ⟨ts, parseTypes_eq_ok_iff.mpr ⟨hlen, hts, rfl⟩, rfl⟩⟩
  · intro as has
    obtain ⟨ts, hts, rfl⟩ := listOfSignature_eq_ok_iff.mp has
    obtain ⟨hlen, hc, rfl⟩ := parseTypes_eq_ok_iff.mp hts
    have hmap : ((ts.map fun t => (⟨t, none⟩ : Argument)).map fun a => utf8 a.ty.signature) =
        ts.map Ty.render := by simp [Function.comp_def, Ty.utf8_signature]
    rw [hmap]
    refine ⟨(Ty.renderAll_eq_flatten ts).symm, fun a ha => ?_, fun parts h hparts =>
      eq_map_render_of_flatten_eq hparts h⟩
    obtain ⟨t, ht, rfl⟩ := List.mem_map.mp ha
    rw [Ty.utf8_signature]
    exact ⟨rfl, completeType_iff.mpr ⟨t, hc t ht, rfl⟩⟩

end Argument

end DBus

import DBus.Proofs.Typing
import DBus.Reader
import DBus.Writer

/-!
# Layout of values

A value of a type takes up the bytes of a body from some position on. `LaidOut` says which :
a list of cells, each a byte that the value fixes or one byte of alignment padding. It is the wire
format as a relation, apart from the operations that read and write it, and it counts the levels
of containers that the value takes.

Padding depends on the position in the whole body. A scalar stands at a multiple of its width, a
text behind its length, the items of an array behind their length and the padding of their type,
fields one after the other from a multiple of eight, and the contents of a variant right behind
their signature.
-/

namespace DBus

-- `^` is the power of the standard library, whichever others are in scope.
attribute [local instance (1100)] instPowNat

/-! ## Cells -/

/-- A byte of a body that a value fixes, or one of padding. -/
abbrev Cell := Option UInt8

/-- Bytes that are all fixed. -/
def fixed (bs : Bytes) : List Cell := bs.map some

/-- The padding between a position and the next multiple of the alignment. -/
def gap (p alignment : Nat) : List Cell := List.replicate (padding p alignment) none

/-- The bytes of the cells, with zeros for padding. -/
def fill (cells : List Cell) : Bytes := cells.map (·.getD 0)

@[simp] theorem length_fixed (bs : Bytes) : (fixed bs).length = bs.length := by simp [fixed]

@[simp] theorem length_gap (p alignment : Nat) :
    (gap p alignment).length = padding p alignment := by simp [gap]

@[simp] theorem length_fill (cells : List Cell) : (fill cells).length = cells.length := by
  simp [fill]

@[simp] theorem fill_append (cs ds : List Cell) : fill (cs ++ ds) = fill cs ++ fill ds := by
  simp [fill]

@[simp] theorem fill_fixed (bs : Bytes) : fill (fixed bs) = bs := by
  simp [fill, fixed, Function.comp_def]

/-- Padding is written as zeros. -/
@[simp] theorem fill_gap (p alignment : Nat) :
    fill (gap p alignment) = List.replicate (padding p alignment) 0 := by simp [fill, gap]

/-! ## Cells in a body -/

/-- The body has the cells at the position : all of them are within it, and the fixed ones have
the bytes they ask for. -/
def At (data : Bytes) (p : Nat) (cells : List Cell) : Prop :=
  p + cells.length ≤ data.length ∧
    ∀ i x, cells[i]? = some (some x) → data[p + i]? = some x

variable {data : Bytes} {p : Nat} {cs ds : List Cell}

/-- Cells stand one behind the other if the first ones do and the others do where these end. -/
theorem at_append : At data p (cs ++ ds) ↔ At data p cs ∧ At data (p + cs.length) ds := by
  constructor
  · rintro ⟨hlen, h⟩
    rw [List.length_append] at hlen
    refine ⟨⟨by omega, fun i x hi => h i x ?_⟩, by omega, fun i x hi => ?_⟩
    · rw [List.getElem?_append_left]
      · exact hi
      · exact (List.getElem?_eq_some_iff.mp hi).1
    · rw [Nat.add_assoc]
      refine h _ x ?_
      rw [List.getElem?_append_right (by omega), Nat.add_sub_cancel_left]
      exact hi
  · rintro ⟨⟨-, hc⟩, hlen, hd⟩
    refine ⟨by rw [List.length_append]; omega, fun i x hi => ?_⟩
    by_cases hlt : i < cs.length
    · rw [List.getElem?_append_left hlt] at hi
      exact hc i x hi
    · rw [List.getElem?_append_right (by omega)] at hi
      have := hd _ x hi
      rwa [show p + cs.length + (i - cs.length) = p + i by omega] at this

/-- Padding stands anywhere in the body : its bytes may be any. -/
theorem at_gap {q alignment : Nat} :
    At data p (gap q alignment) ↔ p + padding q alignment ≤ data.length := by
  simp [At, gap, List.getElem?_replicate]

@[simp] theorem at_nil : At data p [] ↔ p ≤ data.length := by
  simp [At]

/-- Padding asks for nothing but its place. -/
theorem at_gap_append {q alignment : Nat} :
    At data p (gap q alignment ++ cs) ↔ At data (p + padding q alignment) cs := by
  rw [at_append, at_gap, length_gap]
  exact and_iff_right_of_imp fun h => Nat.le_trans (Nat.le_add_right _ _) h.1

/-- Fixed bytes stand where the body has just them. -/
theorem at_fixed {bs : Bytes} :
    At data p (fixed bs) ↔
      p + bs.length ≤ data.length ∧ (data.drop p).take bs.length = bs := by
  have hsome : ∀ (i : Nat) (x : UInt8), (fixed bs)[i]? = some (some x) ↔ bs[i]? = some x := by
    simp [fixed]
  simp only [At, length_fixed, hsome]
  refine and_congr_right fun hlen => ⟨fun h => List.ext_getElem? fun i => ?_, fun h i x hi => ?_⟩
  · by_cases hi : i < bs.length
    · rw [List.getElem?_take_of_lt hi, List.getElem?_drop, List.getElem?_eq_getElem hi]
      exact h i _ (List.getElem?_eq_getElem hi)
    · rw [List.getElem?_eq_none (by simp; omega), List.getElem?_eq_none (by omega)]
  · have hlt : i < bs.length := (List.getElem?_eq_some_iff.mp hi).1
    rw [← h, List.getElem?_take_of_lt hlt, List.getElem?_drop] at hi
    exact hi

/-- Filled cells are where they were put. -/
theorem at_fill (front : Bytes) (cells : List Cell) (back : Bytes) :
    At (front ++ fill cells ++ back) front.length cells := by
  refine ⟨by simp, fun i x hi => ?_⟩
  have hlt : i < cells.length := (List.getElem?_eq_some_iff.mp hi).1
  rw [List.getElem?_append_left (by simp; omega), List.getElem?_append_right (by omega),
    Nat.add_sub_cancel_left, fill, List.getElem?_map, hi]
  rfl

/-- A byte of padding is written as zero. -/
theorem getElem?_fill_of_padding {i : Nat} (h : cs[i]? = some none) : (fill cs)[i]? = some 0 := by
  simp [fill, h]

/-- Filling the cells of a whole body gives it back but for the padding. -/
theorem At.getElem?_fill (h : At data 0 cs) (hlen : cs.length = data.length) {i : Nat}
    (hi : cs[i]? ≠ some none) : (fill cs)[i]? = data[i]? := by
  rcases hc : cs[i]? with _ | _ | x
  · rw [List.getElem?_eq_none_iff] at hc
    rw [List.getElem?_eq_none (by simpa using hc), List.getElem?_eq_none (by omega)]
  · exact absurd hc hi
  · have hx := h.2 i x hc
    rw [Nat.zero_add] at hx
    simp [fill, hc, hx]

/-! ## Heads -/

/-- How many bytes the length of a text of the type takes. -/
def TextCode.lengthWidth (c : TextCode) : Nat := (TypeCode.text c).alignment

theorem TextCode.Allows.length_le {s : String} (h : TextCode.signature.Allows s) :
    (utf8 s).length ≤ maxSignatureLength := by
  obtain ⟨_, hs⟩ := Argument.checkSignature_eq_ok_iff.mp h.2
  exact (parseTypes_eq_ok_iff.mp hs).1

/-- The length of a text fits into the bytes for it. -/
theorem TextCode.Allows.length_lt {c : TextCode} {s : String} (h : c.Allows s)
    (hs : (utf8 s).length < 2 ^ (32 : Nat)) : (utf8 s).length < 256 ^ c.lengthWidth := by
  cases c with
  | signature => exact Nat.lt_of_le_of_lt h.length_le (by decide)
  | string | objectPath => exact hs

/-- A length in front of a text fits four bytes, also where it has only one. -/
theorem TextCode.lt_of_lengthWidth {c : TextCode} {n : Nat} (h : n < 256 ^ c.lengthWidth) :
    n < 2 ^ (32 : Nat) :=
  Nat.lt_of_lt_of_le h (by cases c <;> decide)

/-- Where the bytes of a text start that stands at a position. -/
def textStart (p : Nat) (c : TextCode) : Nat := alignUp p c.lengthWidth + c.lengthWidth

/-- What stands in front of a text of `n` bytes. -/
def textHead (e : Endian) (p : Nat) (c : TextCode) (n : Nat) : List Cell :=
  gap p c.lengthWidth ++ fixed (e.encode c.lengthWidth n)

/-- The bytes of a text start behind its head. -/
theorem add_length_textHead (e : Endian) (p : Nat) (c : TextCode) (n : Nat) :
    p + (textHead e p c n).length = textStart p c := by
  simp [textHead, textStart, alignUp, Endian.length_encode, Nat.add_assoc]

/-- Where the items of an array of the type start that stands at a position. -/
def itemsStart (p : Nat) (t : Ty) : Nat := alignUp (alignUp p 4 + 4) t.code.alignment

/-- What stands in front of the items of an array, `n` bytes in all. -/
def arrayHead (e : Endian) (p : Nat) (t : Ty) (n : Nat) : List Cell :=
  gap p 4 ++ fixed (e.encode 4 n) ++ gap (alignUp p 4 + 4) t.code.alignment

/-- The items of an array start behind its head. -/
theorem add_length_arrayHead (e : Endian) (p : Nat) (t : Ty) (n : Nat) :
    p + (arrayHead e p t n).length = itemsStart p t := by
  simp [arrayHead, itemsStart, alignUp, Endian.length_encode]
  omega

/-- What stands in front of the contents of a variant. -/
def variantHead (e : Endian) (t : Ty) : List Cell :=
  fixed (e.encode 1 t.render.length) ++ fixed (t.render ++ [0])

/-- The contents of a variant start behind its head, that is two bytes and the signature. -/
theorem add_length_variantHead (e : Endian) (p : Nat) (t : Ty) :
    p + (variantHead e t).length = p + t.render.length + 2 := by
  simp [variantHead, Endian.length_encode]
  omega

/-! ## Values in cells -/

mutual

/-- A value of a type takes up the cells from a position on, with no more than `depth` containers
nested in it. -/
inductive LaidOut (e : Endian) : (depth : Nat) → Ty → Value → (p : Nat) → List Cell → Prop
  | scalar {d p : Nat} {c : FixedCode} {s : Scalar} : s.code = c →
      LaidOut e d (.fixed c) (.scalar s) p (gap p c.size ++ fixed (e.encodeWord c s.toWord))
  | text {d p : Nat} {c : TextCode} {s : String} : c.Allows s → (utf8 s).length < 2 ^ (32 : Nat) →
      LaidOut e d (.text c) (.text c s) p
        (textHead e p c (utf8 s).length ++ fixed (utf8 s ++ [0]))
  | array {d p : Nat} {t : Ty} {vs : List Value} {items : List Cell} :
      LaidOutAll e d (List.replicate vs.length t) vs (itemsStart p t) items →
      items.length ≤ maxArrayLength →
      LaidOut e (d + 1) (.array t) (.array vs) p (arrayHead e p t items.length ++ items)
  | struct {d p : Nat} {ts : List Ty} {vs : List Value} {fields : List Cell} :
      LaidOutAll e d ts vs (alignUp p 8) fields →
      LaidOut e (d + 1) (.struct ts) (.struct vs) p (gap p 8 ++ fields)
  | dictEntry {d p : Nat} {k : BasicCode} {t : Ty} {key value : Value} {fields : List Cell} :
      LaidOutAll e d [.basic k, t] [key, value] (alignUp p 8) fields →
      LaidOut e (d + 1) (.dictEntry k t) (.dictEntry key value) p (gap p 8 ++ fields)
  | variant {d p : Nat} {t : Ty} {v : Value} {contents : List Cell} : t.Valid →
      LaidOut e d t v (p + t.render.length + 2) contents →
      LaidOut e (d + 1) .variant (.variant ⟨t, none⟩ v) p (variantHead e t ++ contents)

/-- Values of the types take up the cells, one right after the other. -/
inductive LaidOutAll (e : Endian) :
    (depth : Nat) → List Ty → List Value → (p : Nat) → List Cell → Prop
  | nil {d p : Nat} : LaidOutAll e d [] [] p []
  | cons {d p : Nat} {t : Ty} {ts : List Ty} {v : Value} {vs : List Value} {c cs : List Cell} :
      LaidOut e d t v p c → LaidOutAll e d ts vs (p + c.length) cs →
      LaidOutAll e d (t :: ts) (v :: vs) p (c ++ cs)

end

section

variable {e : Endian} {d : Nat} {t : Ty} {v : Value} {ts : List Ty} {vs : List Value}

theorem laidOutAll_nil : LaidOutAll e d ts [] p cs ↔ ts = [] ∧ cs = [] := by
  constructor
  · rintro ⟨⟩
    exact ⟨rfl, rfl⟩
  · rintro ⟨rfl, rfl⟩
    exact .nil

/-- Fields are laid out one behind the other. -/
theorem laidOutAll_cons : LaidOutAll e d (t :: ts) (v :: vs) p cs ↔
    ∃ c ds, LaidOut e d t v p c ∧ LaidOutAll e d ts vs (p + c.length) ds ∧ cs = c ++ ds := by
  constructor
  · rintro ⟨⟩
    exact ⟨_, _, ‹_›, ‹_›, rfl⟩
  · rintro ⟨c, ds, hc, hds, rfl⟩
    exact .cons hc hds

/-- A scalar is laid out behind padding to its size. -/
theorem laidOut_fixed {c : FixedCode} : LaidOut e d (.fixed c) v p cs ↔
    ∃ s : Scalar, s.code = c ∧ v = .scalar s ∧
      cs = gap p c.size ++ fixed (e.encodeWord c s.toWord) := by
  constructor
  · rintro ⟨⟩
    exact ⟨_, ‹_›, rfl, rfl⟩
  · rintro ⟨s, hs, rfl, rfl⟩
    exact .scalar hs

/-- A text is laid out with its length in front and a zero byte behind. -/
theorem laidOut_text {c : TextCode} : LaidOut e d (.text c) v p cs ↔
    ∃ s, c.Allows s ∧ (utf8 s).length < 2 ^ (32 : Nat) ∧ v = .text c s ∧
      cs = textHead e p c (utf8 s).length ++ fixed (utf8 s ++ [0]) := by
  constructor
  · rintro ⟨⟩
    exact ⟨_, ‹_›, ‹_›, rfl, rfl⟩
  · rintro ⟨s, hs, hlen, rfl, rfl⟩
    exact .text hs hlen

/-- Items are laid out behind the head of the array, as deep as one level less, and they are not too
long. -/
theorem laidOut_array : LaidOut e d (.array t) v p cs ↔
    ∃ k vs items, d = k + 1 ∧ v = .array vs ∧
      LaidOutAll e k (List.replicate vs.length t) vs (itemsStart p t) items ∧
      items.length ≤ maxArrayLength ∧ cs = arrayHead e p t items.length ++ items := by
  constructor
  · rintro ⟨⟩
    exact ⟨_, _, _, rfl, rfl, ‹_›, ‹_›, rfl⟩
  · rintro ⟨k, vs, items, rfl, rfl, h, hlen, rfl⟩
    exact .array h hlen

/-- Fields are laid out behind padding to eight. -/
theorem laidOut_struct : LaidOut e d (.struct ts) v p cs ↔
    ∃ k vs fields, d = k + 1 ∧ v = .struct vs ∧ LaidOutAll e k ts vs (alignUp p 8) fields ∧
      cs = gap p 8 ++ fields := by
  constructor
  · rintro ⟨⟩
    exact ⟨_, _, _, rfl, rfl, ‹_›, rfl⟩
  · rintro ⟨k, vs, fields, rfl, rfl, h, rfl⟩
    exact .struct h

/-- A dict entry is laid out as a struct of its key and its value. -/
theorem laidOut_dictEntry {k : BasicCode} : LaidOut e d (.dictEntry k t) v p cs ↔
    ∃ n key value fields, d = n + 1 ∧ v = .dictEntry key value ∧
      LaidOutAll e n [.basic k, t] [key, value] (alignUp p 8) fields ∧ cs = gap p 8 ++ fields := by
  constructor
  · rintro ⟨⟩
    exact ⟨_, _, _, _, rfl, rfl, ‹_›, rfl⟩
  · rintro ⟨n, key, value, fields, rfl, rfl, h, rfl⟩
    exact .dictEntry h

/-- The contents of a variant are laid out as the type that is stated, which has no name. -/
theorem laidOut_variant : LaidOut e d .variant v p cs ↔
    ∃ k u w contents, d = k + 1 ∧ v = .variant ⟨u, none⟩ w ∧ u.Valid ∧
      LaidOut e k u w (p + u.render.length + 2) contents ∧ cs = variantHead e u ++ contents := by
  constructor
  · rintro ⟨⟩
    exact ⟨_, _, _, _, rfl, rfl, ‹_›, ‹_›, rfl⟩
  · rintro ⟨k, u, w, contents, rfl, rfl, hu, h, rfl⟩
    exact .variant hu h

/-- What holds of each value laid out by itself holds of all in a row. -/
theorem LaidOutAll.forall {P : Value → Ty → Prop}
    (hP : ∀ t v p cs, LaidOut e d t v p cs → P v t) :
    ∀ {vs : List Value} {ts : List Ty} {p : Nat} {cs : List Cell}, LaidOutAll e d ts vs p cs →
      vs.length = ts.length ∧ ∀ q ∈ vs.zip ts, P q.1 q.2
  | [], _, _, _, .nil => by simp
  | v :: vs, t :: ts, p, _, .cons hc hcs => by
    obtain ⟨hlen, hall⟩ := LaidOutAll.forall hP hcs
    rw [List.zip_cons_cons, List.forall_mem_cons]
    exact ⟨by simp [hlen], hP _ _ _ _ hc, hall⟩

/-- What holds of each value that is laid out holds of all of several ones. -/
theorem LaidOutAll.forall_mem {P : Value → Prop}
    (hP : ∀ t v p cs, LaidOut e d t v p cs → P v) (h : LaidOutAll e d ts vs p cs) :
    ∀ v ∈ vs, P v := by
  obtain ⟨hlen, hall⟩ := h.forall (P := fun v _ => P v) hP
  intro v hv
  obtain ⟨t, ht⟩ := exists_mem_zip hlen hv
  exact hall _ ht

/-- As many values are laid out as there are types. -/
theorem LaidOutAll.length_eq (h : LaidOutAll e d ts vs p cs) : vs.length = ts.length :=
  (h.forall (P := fun _ _ => True) fun _ _ _ _ _ => trivial).1

/-- What holds of each value that is laid out as the type holds of the items of an array. -/
theorem LaidOutAll.forall_replicate {P : Value → Prop}
    (hP : ∀ v p cs, LaidOut e d t v p cs → P v) :
    ∀ {vs : List Value} {p : Nat} {cs : List Cell},
      LaidOutAll e d (List.replicate vs.length t) vs p cs → ∀ v ∈ vs, P v
  | [], _, _, _ => by simp
  | v :: vs, p, cs, h => by
    obtain ⟨c, ds, hc, hds, -⟩ := laidOutAll_cons.mp h
    exact List.forall_mem_cons.mpr ⟨hP _ _ _ hc, forall_replicate hP hds⟩

/-! ## What is laid out -/

/-- A value that is laid out is well formed. -/
theorem LaidOut.wellFormed (h : LaidOut e d t v p cs) : v.WellFormed t d := by
  induction d generalizing t v p cs with
  | zero =>
    cases h with
    | scalar hs => exact hs ▸ .scalar _
    | text hs _ => exact .text hs
  | succ d ih =>
    cases h with
    | scalar hs => exact hs ▸ .scalar _
    | text hs _ => exact .text hs
    | array h _ => exact .array (h.forall_replicate fun _ _ _ => ih)
    | struct h =>
      obtain ⟨hlen, hall⟩ := h.forall (P := fun v t => v.WellFormed t d) fun _ _ _ _ => ih
      exact .struct hlen hall
    | dictEntry h =>
      obtain ⟨c, ds, hkey, h, -⟩ := laidOutAll_cons.mp h
      obtain ⟨c, ds, hvalue, -⟩ := laidOutAll_cons.mp h
      exact .dictEntry (ih hkey) (ih hvalue)
    | variant ht h => exact .variant ht (ih h)

/-- The texts in what is laid out are short. -/
theorem LaidOut.short (h : LaidOut e d t v p cs) : v.Short := by
  have hscalar : ∀ s, (Value.scalar s).Short := by simp [Value.Short, Value.texts]
  induction d generalizing t v p cs with
  | zero =>
    cases h with
    | scalar _ => exact hscalar _
    | text _ hs => exact Value.short_text.mpr hs
  | succ d ih =>
    cases h with
    | scalar _ => exact hscalar _
    | text _ hs => exact Value.short_text.mpr hs
    | array h _ => exact Value.short_array.mpr (h.forall_replicate fun _ _ _ => ih)
    | struct h => exact Value.short_struct.mpr (h.forall_mem fun _ _ _ _ => ih)
    | dictEntry h =>
      obtain ⟨c, ds, hkey, h, -⟩ := laidOutAll_cons.mp h
      obtain ⟨c, ds, hvalue, -⟩ := laidOutAll_cons.mp h
      exact Value.short_dictEntry.mpr ⟨ih hkey, ih hvalue⟩
    | variant _ h => exact Value.short_variant.mpr (ih h)

/-- Several values are laid out in one way if each of them is. -/
theorem LaidOutAll.unique_of_forall {d' : Nat}
    (hP : ∀ t v p cs ds, LaidOut e d t v p cs → LaidOut e d' t v p ds → cs = ds) :
    ∀ {vs : List Value} {ts : List Ty} {p : Nat} {cs ds : List Cell},
      LaidOutAll e d ts vs p cs → LaidOutAll e d' ts vs p ds → cs = ds
  | [], _, _, _, _, .nil, .nil => rfl
  | v :: vs, _, _, _, _, .cons hc hcs, .cons hd hds => by
    obtain rfl := hP _ _ _ _ _ hc hd
    rw [unique_of_forall hP hcs hds]

/-- A value is laid out in one way only. -/
theorem LaidOut.unique {d' : Nat} (h : LaidOut e d t v p cs) (h' : LaidOut e d' t v p ds) :
    cs = ds := by
  induction d generalizing d' t v p cs ds with
  | zero => cases h <;> cases h' <;> rfl
  | succ d ih =>
    have hall : ∀ {d'} t v p cs ds, LaidOut e d t v p cs → LaidOut e d' t v p ds → cs = ds :=
      fun _ _ _ _ _ h h' => ih h h'
    cases h with
    | scalar _ | text _ _ => cases h'; rfl
    | array h _ =>
      cases h' with
      | array h' _ => rw [h.unique_of_forall hall h']
    | struct h =>
      cases h' with
      | struct h' => rw [h.unique_of_forall hall h']
    | dictEntry h =>
      cases h' with
      | dictEntry h' => rw [h.unique_of_forall hall h']
    | variant _ h =>
      cases h' with
      | variant _ h' => rw [ih h h']

/-- Several values are laid out in one way. -/
theorem LaidOutAll.unique {d' : Nat} (h : LaidOutAll e d ts vs p cs)
    (h' : LaidOutAll e d' ts vs p ds) : cs = ds :=
  h.unique_of_forall (fun _ _ _ _ _ => LaidOut.unique) h'

/-- The type is part of one that a signature makes. -/
def Ty.Regular (t : Ty) : Prop := ∃ b m n, t.Formed b m n

namespace Ty

/-- A valid type is regular, as a signature is parsed to it. -/
theorem Valid.regular {t : Ty} (h : t.Valid) : t.Regular := ⟨_, _, _, (valid_iff.mp h).2⟩

theorem regular_basic (c : BasicCode) : (basic c).Regular := ⟨false, 0, 0, .basic c⟩

/-- The items of an array are of a regular type. -/
theorem Regular.element {t : Ty} : (array t).Regular → t.Regular := by
  rintro ⟨_, _, _, ⟨⟩⟩
  exact ⟨_, _, _, ‹_›⟩

/-- There are fields in a regular struct, and they are of regular types. -/
theorem Regular.fields {ts : List Ty} : (struct ts).Regular → ts ≠ [] ∧ ∀ t ∈ ts, t.Regular := by
  rintro ⟨_, _, _, ⟨⟩⟩
  exact ⟨‹_›, fun t ht => ⟨_, _, _, ‹∀ _ ∈ _, _› t ht⟩⟩

/-- The value of a dict entry is of a regular type. -/
theorem Regular.value {k : BasicCode} {t : Ty} : (dictEntry k t).Regular → t.Regular := by
  rintro ⟨_, _, _, ⟨⟩⟩
  exact ⟨_, _, _, ‹_›⟩

end Ty

/-- No scalar takes up nothing. -/
theorem FixedCode.size_pos (c : FixedCode) : 0 < c.size := by
  rcases c with _ | k | _
  case int => cases k <;> decide
  all_goals decide

/-- Every value takes up a byte at least. -/
theorem LaidOut.length_pos (ht : t.Regular) (h : LaidOut e d t v p cs) : 0 < cs.length := by
  obtain ⟨b, m, n, ht⟩ := ht
  induction ht generalizing d v p cs with
  | basic c =>
    cases h with
    | scalar _ =>
      rw [List.length_append, length_fixed, Endian.length_encodeWord]
      exact Nat.lt_of_lt_of_le (FixedCode.size_pos _) (Nat.le_add_left _ _)
    | text _ _ =>
      simp only [List.length_append, length_fixed, List.length_singleton]
      omega
  | variant =>
    cases h
    simp only [variantHead, List.length_append, length_fixed, List.length_singleton]
    omega
  | array _ _ =>
    cases h
    simp only [arrayHead, List.length_append, length_fixed, Endian.length_encode]
    omega
  | @struct _ _ _ ts hne _ ih =>
    cases h with
    | @struct _ _ _ vs fields h =>
      cases h with
      | nil => exact absurd rfl hne
      | cons hc _ =>
        have := ih _ (by simp) hc
        simp only [List.length_append]
        omega
  | dictEntry _ _ ih =>
    cases h with
    | dictEntry h =>
      obtain ⟨_, _, -, hrest, rfl⟩ := laidOutAll_cons.mp h
      obtain ⟨_, _, hvalue, -, rfl⟩ := laidOutAll_cons.mp hrest
      have := ih hvalue
      simp only [List.length_append]
      omega

end

end DBus

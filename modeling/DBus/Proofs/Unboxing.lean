import DBus.Proofs.Words
import DBus.Proofs.Writing

/-!
# Unboxed forms of values

A basic type takes the values that convert to it : an integer of any kind whose number is within
the bounds of the type, and a double for the number in it; a string also for an object path or a
signature, if it is well formed. `Unboxes` lists the cases, with the word or the text that a value
is taken for.

Boxing that word or text again gives the value as one of the type, its normal form
(`Marshaller.box_of_unboxes`), and the normal form is taken for the same word or text as the value
is (`Unboxes.normalise`). So a number that is unboxed is neither cut off nor changed in sign : it
is refused if the type does not have it (`Marshaller.box_of_unbox`).
-/

namespace DBus

-- `^` is the power of the standard library, whichever others are in scope.
attribute [local instance (1100)] instPowNat

/-! ## Converted scalars -/

namespace Scalar

variable {k : IntKind} {s t : Scalar}

theorem int?_eq_some_iff {n : Int} : int? k n = some t ↔ ∃ h : k.Fits n, t = int k n h := by
  unfold int?
  split
  · next h => simp [h, eq_comm]
  · next h => simp [h]

/-- A scalar converts to an integer type as the number that it has. -/
theorem convert?_int (k : IntKind) (s : Scalar) :
    s.convert? (.int k) = s.integer?.bind (int? k) := by
  cases s <;> rfl

/-- A scalar converts to an integer type if it is an integer within the bounds. -/
theorem convert?_int_eq_some_iff :
    s.convert? (.int k) = some t ↔ ∃ n, ∃ h : k.Fits n, s.integer? = some n ∧ t = int k n h := by
  simp only [convert?_int, Option.bind_eq_some_iff, int?_eq_some_iff]
  refine exists_congr fun n => ?_
  constructor
  · rintro ⟨hn, h, ht⟩
    exact ⟨h, hn, ht⟩
  · rintro ⟨h, hn, ht⟩
    exact ⟨hn, h, ht⟩

/-- A scalar that is cut out of a word converts to itself. -/
theorem convert?_ofWord (c : FixedCode) (w : Word) :
    (ofWord c w).convert? c = some (ofWord c w) := by
  have h := Value.convert?_code (ofWord c w)
  rwa [code_ofWord] at h

/-- A scalar takes no more of its word than its native type is wide. -/
theorem toNat_toWord_lt_size (s : Scalar) :
    s.toWord.toNat < 2 ^ (8 * (NativeType.scalar s.code).size) := by
  cases s with
  | boolean b => cases b <;> decide
  | int k n h => exact Word.toNat_ofInt_lt k n
  | double d => exact d.bits.toNat_lt

end Scalar

/-! ## Values that a basic type takes -/

namespace Value

theorem HasType.code_basic {b : BasicCode} {v : Value} (h : v.HasType (.basic b)) :
    v.code = .basic b := by
  cases h <;> rfl

theorem normalise_scalar {c : FixedCode} {s t : Scalar} (h : s.convert? c = some t) :
    (scalar s).normalise (.fixed c) = scalar t :=
  (normalise_fixed_iff.mpr ⟨s, rfl, h⟩).2

theorem normalise_text {c d : TextCode} (h : d = c ∨ d = .string) (s : String) :
    (text d s).normalise (.text c) = text c s :=
  normalise_text_iff.mpr ⟨d, rfl, h⟩

end Value

/-- A value is taken for `u` by a basic type. -/
inductive Unboxes : BasicCode → Value → Unboxed → Prop
  | scalar {c : FixedCode} {s t : Scalar} : s.convert? c = some t →
      Unboxes (.fixed c) (.scalar s) (.word t.toWord)
  | text {c d : TextCode} {s : String} : d = c ∨ d = .string → c.check s = .ok () →
      Unboxes (.text c) (.text d s) (.str s)

namespace Unboxes

variable {b : BasicCode} {v : Value} {u : Unboxed}

/-- A scalar of the type is taken for its word. -/
theorem of_code {c : FixedCode} {s : Scalar} (h : s.code = c) :
    Unboxes (.fixed c) (.scalar s) (.word s.toWord) := by
  subst h
  exact .scalar (Value.convert?_code s)

/-- A value of the type is taken if its text, where it is one, is well formed. -/
theorem of_hasType (hv : v.HasType (.basic b)) (hallows : ∀ q ∈ v.texts, q.1.Allows q.2) :
    ∃ u, Unboxes b v u := by
  cases hv with
  | scalar s => exact ⟨_, of_code rfl⟩
  | text c s => exact ⟨_, .text (.inl rfl) (hallows (c, s) (List.mem_singleton.mpr rfl)).2⟩

theorem code_normalise (h : Unboxes b v u) : (v.normalise (.basic b)).code = .basic b := by
  cases h with
  | @scalar c s t ht =>
    rw [Value.normalise_scalar ht, Value.code, Value.code_of_convert? ht]
  | @text c d s hd _ =>
    rw [Value.normalise_text hd]
    rfl

/-- A value that has the type is its own normal form. -/
theorem normalise_eq_self (h : Unboxes b v u) (hv : v.code = .basic b) :
    v.normalise (.basic b) = v := by
  cases h with
  | @scalar c s t ht =>
    obtain rfl : s.code = c := by simpa [Value.code] using hv
    rw [Value.normalise_scalar (Value.convert?_code s)]
  | @text c d s hd _ =>
    obtain rfl : d = c := by simpa [Value.code] using hv
    rw [Value.normalise_text hd]

/-- The normal form is taken for the same as the value is. -/
theorem normalise (h : Unboxes b v u) : Unboxes b (v.normalise (.basic b)) u := by
  cases h with
  | @scalar c s t ht =>
    rw [Value.normalise_scalar ht]
    exact of_code (Value.code_of_convert? ht)
  | @text c d s hd hcheck =>
    rw [Value.normalise_text hd]
    exact .text (.inl rfl) hcheck

/-- An integer type leaves the number as it is. -/
theorem integer?_normalise {k : IntKind} (h : Unboxes (.fixed (.int k)) v u) :
    (v.normalise (.int k)).integer? = v.integer? := by
  cases h with
  | @scalar _ s t ht =>
    obtain ⟨n, hfits, hn, rfl⟩ := Scalar.convert?_int_eq_some_iff.mp ht
    rw [Value.normalise_scalar ht, Value.integer?, Value.integer?, hn]
    rfl

/-- A text type leaves the characters as they are. -/
theorem text?_normalise (h : Unboxes b v u) : (v.normalise (.basic b)).text? = v.text? := by
  cases h with
  | @scalar c s t ht =>
    rw [Value.normalise_scalar ht]
    rfl
  | @text c d s hd _ =>
    rw [Value.normalise_text hd]
    rfl

/-- The word of an unboxed value has no bits beyond those of its type. -/
theorem toNat_lt {c : FixedCode} {w : Word} (h : Unboxes (.fixed c) v (.word w)) :
    w.toNat < 2 ^ (8 * (NativeType.scalar c).size) := by
  cases h with
  | @scalar _ s t ht =>
    rw [← Value.code_of_convert? ht]
    exact t.toNat_toWord_lt_size

/-- An integer type takes the numbers that it has, of whatever kind. -/
theorem exists_iff_fits {k : IntKind} :
    (∃ u, Unboxes (.fixed (.int k)) v u) ↔ ∃ n, v.integer? = some n ∧ k.Fits n := by
  constructor
  · intro ⟨u, h⟩
    cases h with
    | @scalar _ s t ht =>
      obtain ⟨n, hfits, hn, -⟩ := Scalar.convert?_int_eq_some_iff.mp ht
      exact ⟨n, hn, hfits⟩
  · intro ⟨n, hn, hfits⟩
    cases v with
    | scalar s => exact ⟨_, .scalar (Scalar.convert?_int_eq_some_iff.mpr ⟨n, hfits, hn, rfl⟩)⟩
    | _ => cases hn

end Unboxes

/-! ## Unboxing and boxing -/

namespace Marshaller

variable {m : Marshaller} (hm : m.policy = .standard)

include hm

/-- A value is unboxed for a basic type if it is one that the type takes. -/
theorem unbox_eq_ok_iff {b : BasicCode} {v : Value} {u : Unboxed} :
    m.unbox (.basic b) v = .ok u ↔ Unboxes b v u := by
  cases b with
  | fixed c =>
    rw [unbox_fixed_eq_ok_iff hm]
    constructor
    · rintro ⟨s, t, rfl, ht, rfl⟩
      exact .scalar ht
    · rintro ⟨ht⟩
      exact ⟨_, _, rfl, ht, rfl⟩
  | text c =>
    rw [unbox_text_eq_ok_iff hm]
    constructor
    · rintro ⟨d, s, rfl, hd, hcheck, rfl⟩
      exact .text hd hcheck
    · rintro ⟨⟩
      exact ⟨_, _, rfl, ‹_›, ‹_›, rfl⟩

theorem box_word (c : FixedCode) (w : Word) :
    m.box (.fixed c) (.word w) = .ok (.scalar (.ofWord c w)) := by
  have hboxed : discard (m.policy.boxedType (.fixed c)) = .ok () := by
    rw [hm]
    cases c <;> rfl
  simp only [box, hboxed, ok_bind]
  rfl

theorem box_str (c : TextCode) (s : String) : m.box (.text c) (.str s) = .ok (.text c s) := by
  have hboxed : discard (m.policy.boxedType (.text c)) = .ok () := by
    rw [hm]
    cases c <;> rfl
  simp only [box, hboxed, ok_bind]
  rfl

/-- What a value is taken for is boxed as its normal form. -/
theorem box_of_unboxes {b : BasicCode} {v : Value} {u : Unboxed} (h : Unboxes b v u) :
    m.box (.basic b) u = .ok (v.normalise (.basic b)) := by
  cases h with
  | @scalar c s t ht =>
    rw [box_word hm, Value.normalise_scalar ht, ← Value.code_of_convert? ht,
      Scalar.ofWord_toWord]
  | @text c d s hd _ => rw [box_str hm, Value.normalise_text hd]

/-- Unboxing normalises and is exact. Whatever a basic type takes a value for is boxed again as a
value of the type : the value itself if it has the type, the same number as another kind of
integer, and the same text as another kind of text. It is taken for the same again, and a word
is no wider than its type. An integer type takes integers of all kinds, and of them exactly those
within its bounds. -/
theorem box_of_unbox (b : BasicCode) (v : Value) :
    (∀ u, m.unbox (.basic b) v = .ok u →
      ∃ w, m.box (.basic b) u = .ok w ∧ w.code = .basic b ∧
        (v.code = .basic b → w = v) ∧
        (∀ k n, b = .fixed (.int k) → v.integer? = some n → w.integer? = some n) ∧
        (∀ s, v.text? = some s → w.text? = some s) ∧
        m.unbox (.basic b) w = .ok u ∧
        ∀ c word, b = .fixed c → u = .word word →
          word.toNat < 2 ^ (8 * (NativeType.scalar c).size)) ∧
    ∀ k, b = .fixed (.int k) →
      ((∃ u, m.unbox (.basic b) v = .ok u) ↔ ∃ n, v.integer? = some n ∧ k.Fits n) := by
  simp only [unbox_eq_ok_iff hm]
  constructor
  · intro u h
    refine ⟨_, box_of_unboxes hm h, h.code_normalise, h.normalise_eq_self, ?_, ?_, h.normalise, ?_⟩
    · rintro k n rfl hn
      rw [← hn]
      exact h.integer?_normalise
    · intro s hs
      rw [← hs]
      exact h.text?_normalise
    · rintro c word rfl rfl
      exact h.toNat_lt
  · rintro k rfl
    exact Unboxes.exists_iff_fits

omit hm in
/-- A number of 64 bits is narrowed to a byte, and a negative one is no unsigned number. -/
theorem box_of_unbox_narrowed :
    ({} : Marshaller).policy = .standard ∧
      ({} : Marshaller).unbox (.int .byte) (.scalar (.int .int64 200 (by decide))) =
        .ok (.word ⟨200⟩) ∧
      (∃ w, ({} : Marshaller).box (.int .byte) (.word ⟨200⟩) = .ok w ∧ w.code = .int .byte ∧
        w.integer? = some 200) ∧
      ¬∃ u, ({} : Marshaller).unbox (.int .uint16) (.scalar (.int .int16 (-1) (by decide))) =
        .ok u := by
  have hu : ({} : Marshaller).unbox (.int .byte) (.scalar (.int .int64 200 (by decide))) =
      .ok (.word ⟨200⟩) := rfl
  obtain ⟨w, hw, hcode, -, hinteger, -⟩ := (box_of_unbox (m := {}) rfl _ _).1 _ hu
  refine ⟨rfl, hu, ⟨w, hw, hcode, hinteger .byte 200 rfl rfl⟩, fun h => ?_⟩
  obtain ⟨n, hn, hfits⟩ := ((box_of_unbox (m := {}) rfl _ _).2 .uint16 rfl).mp h
  obtain rfl : -1 = n := Option.some.inj hn
  exact absurd hfits (by decide)

end Marshaller

end DBus

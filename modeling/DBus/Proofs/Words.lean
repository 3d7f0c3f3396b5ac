import DBus.Codec

/-!
# Words in bytes

A word that is read from the bytes of a fixed-width type is the word of a scalar of the type, and
writing that scalar gives the bytes back (`Endian.decodeWord_eq_ok_iff`). Every number of as many
bits as an integer kind has is the word of an integer, and of the numbers in four bytes zero and
one alone are booleans.

Any word may be written. It is read back as the word of the scalar that was in it
(`Endian.encodeWord_inverse`).
-/

namespace DBus

-- `^` is the power of the standard library, whichever others are in scope.
attribute [local instance (1100)] instPowNat

/-! ## Integers and words -/

theorem Word.toNat_ofNat {n : Nat} (h : n < 2 ^ (64 : Nat)) : (ofNat n).toNat = n := by
  rw [toNat, ofNat, UInt64.toNat_ofNat', Nat.mod_eq_of_lt h]

theorem Word.ofNat_toNat (w : Word) : ofNat w.toNat = w := by
  simp [ofNat, toNat]

/-- An integer is its low bits up to a multiple. -/
theorem Word.toInt_emod (k : IntKind) (w : Word) :
    w.toInt k % (2 ^ k.bits : Nat) = (w.toNat % 2 ^ k.bits : Nat) := by
  have hlt := Int.ofNat_lt.mpr (Nat.mod_lt w.toNat (Nat.two_pow_pos k.bits))
  rw [toInt]
  split
  · exact Int.emod_eq_of_lt (Int.natCast_nonneg _) hlt
  · rw [Int.sub_emod_right]
    exact Int.emod_eq_of_lt (Int.natCast_nonneg _) hlt

/-- The integer of a word keeps the low bits. -/
theorem Word.ofInt_toInt_eq (k : IntKind) (w : Word) :
    ofInt k (w.toInt k) = ofNat (w.toNat % 2 ^ k.bits) := by
  rw [ofInt, toInt_emod, Int.toNat_natCast]

/-- A word without higher bits is that of its integer. -/
theorem Word.ofInt_toInt {k : IntKind} {w : Word} (h : w.toNat < 2 ^ k.bits) :
    ofInt k (w.toInt k) = w := by
  rw [ofInt_toInt_eq, Nat.mod_eq_of_lt h, ofNat_toNat]

/-- The word of an integer has no bits beyond those of its kind. -/
theorem Word.toNat_ofInt_lt (k : IntKind) (n : Int) : (ofInt k n).toNat < 2 ^ k.bits := by
  have hpos : (0 : Int) < (2 ^ k.bits : Nat) := Int.ofNat_lt.mpr (Nat.two_pow_pos _)
  have h0 := Int.emod_nonneg n (Int.ne_of_gt hpos)
  have h1 := Int.emod_lt_of_pos n hpos
  have hle : 2 ^ k.bits ≤ 2 ^ (64 : Nat) := Nat.pow_le_pow_right (by omega) (by cases k <;> decide)
  rw [ofInt, toNat_ofNat (by omega)]
  omega

/-- An integer kind has eight bits to each byte. -/
theorem IntKind.two_pow_bits (k : IntKind) : 2 ^ k.bits = 256 ^ k.size := by
  rw [bits, Nat.pow_mul]

/-- The word of a scalar fits the bytes of its type. -/
theorem Scalar.toNat_toWord_lt {s : Scalar} {c : FixedCode} (h : s.code = c) :
    s.toWord.toNat < 256 ^ c.size := by
  subst h
  rcases s with b | ⟨k, n, _⟩ | d
  · cases b <;> decide
  · rw [code, toWord, FixedCode.size, ← IntKind.two_pow_bits]
    exact Word.toNat_ofInt_lt k n
  · exact d.bits.toNat_lt

/-! ## Words and bytes -/

/-- The bytes of a boolean are the number zero or one. -/
theorem Endian.decodeWord_boolean {e : Endian} {bs : Bytes} {w : Word} :
    e.decodeWord .boolean bs = .ok w ↔
      ∃ b : Bool, e.decode bs = (Word.ofBool b).toNat ∧ w = .ofBool b := by
  have htrue : (Word.ofBool true).toNat = 1 := rfl
  have hfalse : (Word.ofBool false).toNat = 0 := rfl
  rcases hn : e.decode bs with _ | _ | n <;>
    simp [decodeWord, hn, Bool.exists_bool, htrue, hfalse, eq_comm]

/-- The bytes of a word are those of its number, but for booleans. -/
theorem Endian.encodeWord_eq {e : Endian} {c : FixedCode} (w : Word) (h : c ≠ .boolean) :
    e.encodeWord c w = e.encode c.size w.toNat := by
  cases c <;> first | rfl | exact absurd rfl h

theorem Word.toBool_ofBool (b : Bool) : (ofBool b).toBool = b := by cases b <;> rfl

/-- The bytes of a fixed-width type hold the word of a scalar, or, for a boolean, nothing. -/
theorem Endian.decodeWord_eq_ok_iff {e : Endian} {c : FixedCode} {bs : Bytes} {w : Word}
    (hlen : bs.length = c.size) :
    e.decodeWord c bs = .ok w ↔ w = (Scalar.ofWord c w).toWord ∧ bs = e.encodeWord c w := by
  have hlt := e.decode_lt bs
  have hbs := e.encode_decode bs
  rw [hlen] at hlt hbs
  by_cases hc : c = .boolean
  · subst hc
    rw [decodeWord_boolean]
    constructor
    · rintro ⟨b, hb, rfl⟩
      rw [hb] at hbs
      simp [Scalar.ofWord, Scalar.toWord, encodeWord, Word.toBool_ofBool, hbs]
    · rintro ⟨hw, rfl⟩
      refine ⟨w.toBool, ?_, hw⟩
      rw [encodeWord, decode_encode]
      cases w.toBool <;> rfl
  · have hdecode : e.decodeWord c bs = .ok (.ofNat (e.decode bs)) := by
      cases c <;> first | rfl | exact absurd rfl hc
    have hsize : 256 ^ c.size ≤ 2 ^ (64 : Nat) := by
      cases c with
      | int k => cases k <;> decide
      | _ => decide
    rw [hdecode, Except.ok.injEq, encodeWord_eq w hc]
    constructor
    · rintro rfl
      have hw := Word.toNat_ofNat (Nat.lt_of_lt_of_le hlt hsize)
      refine ⟨?_, by rw [hw, hbs]⟩
      cases c with
      | boolean => exact absurd rfl hc
      | int k =>
        refine (Word.ofInt_toInt ?_).symm
        rwa [hw, IntKind.two_pow_bits]
      | double => rfl
    · rintro ⟨hw, rfl⟩
      have hlt := Scalar.toNat_toWord_lt (Scalar.code_ofWord c w)
      rw [← hw] at hlt
      rw [decode_encode, Nat.mod_eq_of_lt hlt, Word.ofNat_toNat]

/-- A single byte is the same in either order. -/
theorem Endian.encode_one (e : Endian) (n : Nat) : e.encode 1 n = [.ofNat n] := by
  cases e <;> rfl

/-! ## Reduced words -/

theorem Word.toNat_ofBool (b : Bool) : (ofBool b).toNat = if b then 1 else 0 := by
  cases b <;> rfl

theorem Word.toBool_eq_true_iff {w : Word} : w.toBool = true ↔ w.toNat ≠ 0 := by
  rw [toBool, decide_eq_true_iff, toNat, ne_eq, ne_eq, ← UInt64.toNat_inj, UInt64.toNat_zero]

/-- The word of the scalar in a word has its low bits, or is zero or one. -/
theorem Scalar.toNat_toWord_ofWord (c : FixedCode) (w : Word) :
    (ofWord c w).toWord.toNat =
      if c = .boolean then if w.toNat = 0 then 0 else 1 else w.toNat % 2 ^ (8 * c.size) := by
  cases c with
  | boolean =>
    rw [ofWord, toWord, Word.toNat_ofBool, if_pos rfl]
    simp only [Word.toBool_eq_true_iff, ne_eq, ite_not]
  | int k =>
    have hlt := Nat.mod_lt w.toNat (Nat.two_pow_pos k.bits)
    have hle : 2 ^ k.bits ≤ 2 ^ 64 := Nat.pow_le_pow_right (by omega) (by cases k <;> decide)
    rw [ofWord, toWord, Word.ofInt_toInt_eq, Word.toNat_ofNat (Nat.lt_of_lt_of_le hlt hle)]
    rfl
  | double => exact (Nat.mod_eq_of_lt w.bits.toNat_lt).symm

/-- Bytes do not show the bits above them. -/
theorem Endian.encode_mod (e : Endian) (width n : Nat) :
    e.encode width (n % 256 ^ width) = e.encode width n := by
  rw [← e.decode_encode width n]
  simpa only [length_encode] using e.encode_decode (e.encode width n)

/-- What is written of a word is the scalar in it. -/
theorem Endian.encodeWord_toWord_ofWord (e : Endian) (c : FixedCode) (w : Word) :
    e.encodeWord c (Scalar.ofWord c w).toWord = e.encodeWord c w := by
  by_cases hc : c = .boolean
  · subst hc
    rw [Scalar.ofWord, Scalar.toWord, encodeWord, encodeWord, Word.toBool_ofBool]
  · have hlow := Scalar.toNat_toWord_ofWord c w
    rw [if_neg hc, Nat.pow_mul] at hlow
    rw [encodeWord_eq _ hc, encodeWord_eq _ hc, hlow]
    exact e.encode_mod c.size w.toNat

/-- What is written of a word is read as the word of the scalar in it. -/
theorem Endian.decodeWord_encodeWord (e : Endian) (c : FixedCode) (w : Word) :
    e.decodeWord c (e.encodeWord c w) = .ok (Scalar.ofWord c w).toWord := by
  have hself := Scalar.ofWord_toWord (Scalar.ofWord c w)
  rw [Scalar.code_ofWord] at hself
  refine (decodeWord_eq_ok_iff (length_encodeWord e c w)).mpr ⟨by rw [hself], ?_⟩
  exact (e.encodeWord_toWord_ofWord c w).symm

/-- No bytes are refused but those of a boolean that is neither zero nor one. -/
theorem Endian.decodeWord_eq_error_iff {e : Endian} {c : FixedCode} {bs : Bytes} {err : Error} :
    e.decodeWord c bs = .error err ↔
      c = .boolean ∧ 1 < e.decode bs ∧ err = .invalidBoolean (e.decode bs) := by
  by_cases hc : c = .boolean
  · subst hc
    rcases hn : e.decode bs with _ | _ | n <;> simp [decodeWord, hn, eq_comm]
  · have hdecode : e.decodeWord c bs = .ok (.ofNat (e.decode bs)) := by
      cases c <;> first | rfl | exact absurd rfl hc
    simp [hdecode, hc]

/-- Writing and reading fixed-width types undo each other, in either byte order. A word is written
in as many bytes as its type has and read back as the word of the scalar in it: its low bits, or,
for a boolean, one if it is not zero. Bytes that are read as a word are what is written of that
word, and they are refused only as a boolean, and only if their number is neither zero nor one. -/
theorem Endian.encodeWord_inverse (e : Endian) (c : FixedCode) :
    (∀ w : Word, (e.encodeWord c w).length = c.size ∧
      ∃ u : Word, e.decodeWord c (e.encodeWord c w) = .ok u ∧ u = (Scalar.ofWord c w).toWord ∧
        u.toNat =
          if c = .boolean then if w.toNat = 0 then 0 else 1 else w.toNat % 2 ^ (8 * c.size)) ∧
    ∀ bs : Bytes, bs.length = c.size →
      (∀ w, e.decodeWord c bs = .ok w → e.encodeWord c w = bs) ∧
      ∀ err, e.decodeWord c bs = .error err ↔
        c = .boolean ∧ 1 < e.decode bs ∧ err = .invalidBoolean (e.decode bs) := by
  refine ⟨fun w => ⟨length_encodeWord e c w, _, e.decodeWord_encodeWord c w, rfl,
    Scalar.toNat_toWord_ofWord c w⟩, fun bs hlen => ⟨fun w hw => ?_, fun err => ?_⟩⟩
  · exact ((decodeWord_eq_ok_iff hlen).mp hw).2.symm
  · exact decodeWord_eq_error_iff

/-- A negative number in a word with other bits above it, and a boolean that is none. -/
theorem Endian.encodeWord_inverse_negative :
    Endian.big.encodeWord (.int .int16) ⟨0xABCDFFFE⟩ = [255, 254] ∧
      Endian.big.decodeWord (.int .int16) [255, 254] = .ok ⟨0xFFFE⟩ ∧
        Endian.big.encodeWord (.int .int16) ⟨0xFFFE⟩ = [255, 254] ∧
          Endian.little.decodeWord .boolean [0, 0, 1, 0] = .error (.invalidBoolean 65536) := by
  have hread : Endian.big.decodeWord (.int .int16) [255, 254] = .ok ⟨0xFFFE⟩ := by rfl
  obtain ⟨-, hint⟩ := encodeWord_inverse .big (.int .int16)
  obtain ⟨-, hboolean⟩ := encodeWord_inverse .little .boolean
  exact ⟨by rfl, hread, (hint [255, 254] rfl).1 _ hread,
    ((hboolean [0, 0, 1, 0] rfl).2 _).mpr ⟨rfl, by decide, rfl⟩⟩

end DBus

import DBus.Proofs.Writing

/-!
# The grammar of object paths

`IsPath` is the grammar: a slash alone, or one or more elements, each behind a slash.

The scan of a path keeps no list of elements. Every slash cuts it into two scans that know
nothing of each other (`isTail_append_slash`), and a scan without slashes is that of one element
(`isTail_iff_isElement`). So it accepts a text exactly if all pieces between its slashes are
elements (`isTail_iff_splitOn`). The pieces of a path are its elements, and elements are joined
to a path again (`isPath_iff`), which gives `isValid_grammar`.
-/

namespace DBus

namespace ObjectPath

variable {c : Char} {s t : String}

/-! ## Paths -/

/-- One of the characters `[A-Za-z0-9_]`. -/
def InElement (c : Char) : Prop :=
  ('A' ≤ c ∧ c ≤ 'Z') ∨ ('a' ≤ c ∧ c ≤ 'z') ∨ ('0' ≤ c ∧ c ≤ '9') ∨ c = '_'

/-- A run of such characters that is not empty. -/
structure IsElement (e : List Char) : Prop where
  ne_nil : e ≠ []
  inElement : ∀ c ∈ e, InElement c

/-- A slash alone, or one or more elements, each behind a slash. -/
inductive IsPath : List Char → Prop
  | root : IsPath ['/']
  | elements {es : List (List Char)} : es ≠ [] → (∀ e ∈ es, IsElement e) →
      IsPath (es.flatMap ('/' :: ·))

theorem InElement.toNat_lt (h : InElement c) : c.toNat < 128 := by
  have hle {d : Char} (hd : c ≤ d) : c.toNat ≤ d.toNat := hd
  rcases h with ⟨-, h⟩ | ⟨-, h⟩ | ⟨-, h⟩ | rfl
  · exact Nat.lt_of_le_of_lt (hle h) (by decide)
  · exact Nat.lt_of_le_of_lt (hle h) (by decide)
  · exact Nat.lt_of_le_of_lt (hle h) (by decide)
  · decide

theorem not_inElement_slash : ¬InElement '/' := by
  unfold InElement
  decide

theorem IsElement.slash_notMem {e : List Char} (h : IsElement e) : '/' ∉ e :=
  fun hmem => not_inElement_slash (h.inElement _ hmem)

/-- Paths are ASCII. -/
theorem IsPath.toNat_lt {p : List Char} (h : IsPath p) (hc : c ∈ p) : c.toNat < 128 := by
  cases h with
  | root =>
    rw [List.mem_singleton.mp hc]
    decide
  | elements _ hes =>
    obtain ⟨e, he, hc⟩ := List.mem_flatMap.mp hc
    rcases List.mem_cons.mp hc with rfl | hc
    · decide
    · exact ((hes e he).inElement c hc).toNat_lt

/-- Elements each behind a slash are a slash and the elements with slashes between them. -/
theorem flatMap_slash {es : List (List Char)} (h : es ≠ []) :
    es.flatMap ('/' :: ·) = '/' :: ['/'].intercalate es := by
  induction es with
  | nil => exact absurd rfl h
  | cons e es ih =>
    cases es with
    | nil => simp
    | cons f es =>
      rw [List.flatMap_cons, ih (List.cons_ne_nil f es), List.intercalate_cons_cons]
      simp

/-- A path is told by the pieces behind its first slash. -/
theorem isPath_iff {p : List Char} :
    IsPath p ↔ p = ['/'] ∨ ∃ cs, p = '/' :: cs ∧ ∀ e ∈ cs.splitOn '/', IsElement e := by
  constructor
  · rintro (_ | ⟨hne, hes⟩)
    · exact .inl rfl
    · refine .inr ⟨_, flatMap_slash hne, ?_⟩
      rwa [List.splitOn_intercalate '/' (fun e he => (hes e he).slash_notMem) hne]
  · rintro (rfl | ⟨cs, rfl, hes⟩)
    · exact .root
    · have hne := List.splitOn_ne_nil '/' cs
      have hpath := IsPath.elements hne hes
      rwa [flatMap_slash hne, List.intercalate_splitOn] at hpath

/-! ## The scan -/

/-- The scan knows the characters of elements. -/
theorem isElementChar_iff : isElementChar c = true ↔ InElement c := by
  have halphanum : c.isAlphanum = ((c.isUpper || c.isLower) || c.isDigit) := rfl
  have hupper : c.isUpper = decide ('A' ≤ c ∧ c ≤ 'Z') := rfl
  have hlower : c.isLower = (decide ('a' ≤ c) && decide (c ≤ 'z')) := rfl
  have hdigit : c.isDigit = (decide ('0' ≤ c) && decide (c ≤ '9')) := rfl
  rw [isElementChar, halphanum, hupper, hlower, hdigit]
  simp only [Bool.or_eq_true, Bool.and_eq_true, decide_eq_true_iff, or_assoc, InElement]

/-- A character that is no slash has to be one of an element. -/
theorem isTail_cons (begun : Bool) (hc : c ≠ '/') (cs : List Char) :
    isTail begun (c :: cs) = (isElementChar c && isTail true cs) := by
  rw [isTail]
  exact hc

/-- A slash ends one scan and starts another. -/
theorem isTail_append_slash (begun : Bool) (cs ds : List Char) :
    isTail begun (cs ++ '/' :: ds) = (isTail begun cs && isTail false ds) := by
  induction cs generalizing begun with
  | nil => rfl
  | cons c cs ih =>
    by_cases hc : c = '/'
    · subst hc
      rw [List.cons_append, isTail, isTail, ih, Bool.and_assoc]
    · rw [List.cons_append, isTail_cons begun hc, isTail_cons begun hc, ih, Bool.and_assoc]

/-- Without slashes the scan is that of one element, which may have begun. -/
theorem isTail_of_notMem {begun : Bool} {cs : List Char} (h : '/' ∉ cs) :
    isTail begun cs = true ↔ (begun = true ∨ cs ≠ []) ∧ ∀ c ∈ cs, InElement c := by
  induction cs generalizing begun with
  | nil => simp [isTail]
  | cons c cs ih =>
    rw [List.mem_cons, not_or] at h
    obtain ⟨hc, hcs⟩ := h
    rw [isTail_cons begun (Ne.symm hc), Bool.and_eq_true, isElementChar_iff, ih hcs]
    simp

/-- A scan without slashes is that of one element. -/
theorem isTail_iff_isElement {cs : List Char} (h : '/' ∉ cs) :
    isTail false cs = true ↔ IsElement cs := by
  rw [isTail_of_notMem h]
  constructor
  · rintro ⟨hne, hcs⟩
    exact ⟨by simpa using hne, hcs⟩
  · rintro ⟨hne, hcs⟩
    exact ⟨.inr hne, hcs⟩

/-- The scan accepts what is split into elements. -/
theorem isTail_iff_splitOn (cs : List Char) :
    isTail false cs = true ↔ ∀ e ∈ cs.splitOn '/', IsElement e := by
  -- By recursion on what is behind the first slash, not on the characters: the scan of an
  -- element that has begun is not of the form that is proved.
  by_cases h : '/' ∈ cs
  · obtain ⟨e, ds, hcut, he⟩ := List.eq_append_cons_of_mem h
    rw [hcut, isTail_append_slash, Bool.and_eq_true, isTail_iff_isElement he,
      isTail_iff_splitOn ds, List.splitOn_append_cons_self_of_not_mem he, List.forall_mem_cons]
  · rw [isTail_iff_isElement h, List.splitOn_eq_singleton h, List.forall_mem_singleton]
termination_by cs.length
decreasing_by
  rw [hcut, List.length_append, List.length_cons]
  omega

/-- What is behind any slash of a path is scanned like what is behind the first. -/
theorem isTail_behind_slash {cs xs ys : List Char} (h : isTail false cs = true)
    (hcut : '/' :: cs = xs ++ '/' :: ys) : isTail false ys = true := by
  cases xs with
  | nil =>
    obtain rfl : cs = ys := List.tail_eq_of_cons_eq hcut
    exact h
  | cons x xs =>
    obtain rfl : cs = xs ++ '/' :: ys := List.tail_eq_of_cons_eq hcut
    rw [isTail_append_slash, Bool.and_eq_true] at h
    exact h.2

/-! ## Accepted texts -/

/-- A path is the slash alone, or a slash with a scan behind it. -/
theorem isValid_iff_isTail :
    isValid s = true ↔ s = "/" ∨ ∃ cs, s.toList = '/' :: cs ∧ isTail false cs = true := by
  have hroot : s = "/" ↔ s.toList = ['/'] := String.toList_inj.symm
  rw [hroot, isValid]
  split <;> simp_all [isTail]

/-- The texts that are accepted are the paths. -/
theorem isValid_iff_isPath : isValid s = true ↔ IsPath s.toList := by
  have hroot : s = "/" ↔ s.toList = ['/'] := String.toList_inj.symm
  simp only [isValid_iff_isTail, isPath_iff, hroot, isTail_iff_splitOn]

theorem exists_isTail (h : isValid s = true) (hs : s ≠ "/") :
    ∃ cs, s.toList = '/' :: cs ∧ isTail false cs = true :=
  (isValid_iff_isTail.mp h).resolve_left hs

/-- No path but the slash alone ends with a slash. -/
theorem not_suffix_slash (h : isValid s = true) (hs : s ≠ "/") : ¬"/".toList <:+ s.toList := by
  obtain ⟨cs, hcs, htail⟩ := exists_isTail h hs
  rintro ⟨xs, hxs⟩
  have hend : isTail false [] = true := isTail_behind_slash htail (hcs.symm.trans hxs.symm)
  cases hend

/-- No path has two slashes in a row. -/
theorem not_infix_slashes (h : isValid s = true) (hs : s ≠ "/") :
    ¬"//".toList <:+: s.toList := by
  obtain ⟨cs, hcs, htail⟩ := exists_isTail h hs
  rintro ⟨xs, ys, hxs⟩
  have hcut : '/' :: cs = xs ++ '/' :: ('/' :: ys) := by
    rw [← hcs, ← hxs]
    simp
  have hslash : isTail false ('/' :: ys) = true := isTail_behind_slash htail hcut
  cases hslash

/-- Paths with elements are joined to a path. -/
theorem isValid_append (hs : isValid s = true) (ht : isValid t = true) (hs1 : s ≠ "/")
    (ht1 : t ≠ "/") : isValid (s ++ t) = true := by
  obtain ⟨cs, hcs, hstail⟩ := exists_isTail hs hs1
  obtain ⟨ds, hds, httail⟩ := exists_isTail ht ht1
  refine isValid_iff_isTail.mpr (.inr ⟨cs ++ '/' :: ds, ?_, ?_⟩)
  · rw [String.toList_append, hcs, hds, List.cons_append]
  · rw [isTail_append_slash, hstail, httail, Bool.and_self]

/-! ## Checked texts -/

/-- A text passes the check of object paths if it is one. -/
theorem check_eq_ok_iff : TextCode.objectPath.check s = .ok () ↔ IsPath s.toList := by
  rw [← isValid_iff_isPath, TextCode.check]
  by_cases h : isValid s = true <;> simp [h]

theorem check_eq_error_iff {err : Error} :
    TextCode.objectPath.check s = .error err ↔
      ¬IsPath s.toList ∧ err = .typeMismatch (.objectPath s) := by
  rw [← isValid_iff_isPath, TextCode.check]
  by_cases h : isValid s = true
  · simp [h]
  · rw [if_neg h, Except.error.injEq]
    simp [h, eq_comm]

/-- Object paths are accepted by the grammar. A text is valid exactly if it is a slash, or one or
more elements, each behind a slash. No other valid text than the slash ends in one, none holds
two in a row or a character that is not ASCII, and two of them make one when they are joined. Every
check of an object path asks for this: a text that is no path is refused, and a value is taken for
an object path exactly if it is one or a string, and its text is a path. -/
theorem isValid_grammar :
    (∀ s, isValid s = true ↔ IsPath s.toList) ∧
    (∀ s, isValid s = true → s ≠ "/" →
      ¬"/".toList <:+ s.toList ∧ ¬"//".toList <:+: s.toList ∧
        ∀ c ∈ s.toList, c.toNat < 128) ∧
    (∀ s t, isValid s = true → isValid t = true → s ≠ "/" → t ≠ "/" →
      isValid (s ++ t) = true) ∧
    (∀ s err, TextCode.objectPath.check s = .error err ↔
      ¬IsPath s.toList ∧ err = .typeMismatch (.objectPath s)) ∧
    ∀ (maxDepth : Nat) (v : Value) (u : Unboxed),
      (⟨.standard, maxDepth⟩ : Marshaller).unbox (.text .objectPath) v = .ok u ↔
        ∃ d s, v = .text d s ∧ (d = .objectPath ∨ d = .string) ∧ IsPath s.toList ∧
          u = .str s := by
  refine ⟨fun s => isValid_iff_isPath, fun s h hs => ⟨not_suffix_slash h hs,
    not_infix_slashes h hs, fun c hc => (isValid_iff_isPath.mp h).toNat_lt hc⟩,
    fun s t => isValid_append, fun s err => check_eq_error_iff, fun maxDepth v u => ?_⟩
  rw [Marshaller.unbox_text_eq_ok_iff rfl]
  simp only [check_eq_ok_iff]

/-- Two paths, the path they make, and a text that ends in a slash. -/
theorem isValid_grammar_joined :
    isValid "/org/DBus_1" = true ∧ isValid "/x" = true ∧ "/org/DBus_1" ≠ "/" ∧ "/x" ≠ "/" ∧
      isValid ("/org/DBus_1" ++ "/x") = true ∧ ¬"//".toList <:+: "/org/DBus_1".toList ∧
        ¬IsPath "/org/".toList := by
  have hs : isValid "/org/DBus_1" = true := by decide
  have ht : isValid "/x" = true := by decide
  have hs1 : "/org/DBus_1" ≠ "/" := by decide
  have ht1 : "/x" ≠ "/" := by decide
  have hends : isValid "/org/" = false := by decide
  obtain ⟨hgrammar, hform, hjoined, -⟩ := isValid_grammar
  refine ⟨hs, ht, hs1, ht1, hjoined _ _ hs ht hs1 ht1, (hform _ hs hs1).2.1, fun h => ?_⟩
  rw [(hgrammar _).mpr h] at hends
  cases hends

end ObjectPath

end DBus

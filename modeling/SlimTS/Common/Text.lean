import Mathlib.Data.List.Basic
import Mathlib.Data.List.TakeWhile
import SlimTS.Common.Basic

/-!
# Positions in a string

What the program uses of the `find` functions of `std::string`, of `substr` and of `replace`. A
position is a `size_t`, and the one that says that nothing was found is its largest value. It is
`-1` here, which is what the program gets when it puts it in an `int`; a negative `int` that is used
as a position is past the end of every string, and one that is used as a count takes all there is.
-/

namespace SlimTS

/-- `std::out_of_range`. -/
inductive OutOfRange
  | outOfRange
deriving DecidableEq, Repr

/-! ## What stands in a line -/

/-- What stands in a line. -/
def LineText (s : Str) : Prop := '\r' ∉ s ∧ '\n' ∉ s ∧ '\x00' ∉ s

/-- What stands in a line between spaces. -/
def Word (s : Str) : Prop := ' ' ∉ s ∧ LineText s

instance (s : Str) : Decidable (LineText s) := inferInstanceAs (Decidable (_ ∧ _ ∧ _))

instance (s : Str) : Decidable (Word s) := inferInstanceAs (Decidable (_ ∧ _))

theorem LineText.append {s t : Str} (hs : LineText s) (ht : LineText t) : LineText (s ++ t) :=
  ⟨by simp [hs.1, ht.1], by simp [hs.2.1, ht.2.1], by simp [hs.2.2, ht.2.2]⟩

theorem LineText.cons {s : Str} {c : Char} (hc : c ≠ '\r' ∧ c ≠ '\n' ∧ c ≠ '\x00')
    (hs : LineText s) : LineText (c :: s) :=
  ⟨by simp [hs.1, hc.1.symm], by simp [hs.2.1, hc.2.1.symm], by simp [hs.2.2, hc.2.2.symm]⟩

/-! ## Finding and cutting -/

namespace Text

/-- `std::string::npos`. -/
def npos : ℤ := -1

/-- `find`, of one character. -/
def find (s : Str) (c : Char) : ℤ := if c ∈ s then s.idxOf c else npos

/-- `substr`. It throws when it starts past the end. -/
def substr (s : Str) (pos count : ℤ) : Except OutOfRange Str :=
  if pos < 0 ∨ s.length < pos then .error .outOfRange
  else .ok (if count < 0 then s.drop pos.toNat else (s.drop pos.toNat).take count.toNat)

/-- `find_last_of`, of one character. -/
def findLast (s : Str) (c : Char) : ℤ :=
  if c ∈ s then s.length - 1 - s.reverse.idxOf c else npos

/-- Where a text has its first occurrence of another. -/
def firstAt (token : Str) : Str → Option ℕ
  | [] => if token.isPrefixOf [] then some 0 else none
  | c :: text =>
    if token.isPrefixOf (c :: text) then some 0 else (firstAt token text).map (· + 1)

/-- `find`, of a string, from a position on. -/
def findFrom (s token : Str) (pos : ℤ) : ℤ :=
  if pos < 0 ∨ s.length < pos then npos
  else match firstAt token (s.drop pos.toNat) with
    | none => npos
    | some k => pos + k

/-- `replace`. It throws when it starts past the end. -/
def replace (s : Str) (pos : ℤ) (count : ℕ) (replacement : Str) : Except OutOfRange Str :=
  if pos < 0 ∨ s.length < pos then .error .outOfRange
  else .ok (s.take pos.toNat ++ (replacement ++ s.drop (pos.toNat + count)))

variable {s p : Str} {c : Char}

/-- The character is found where it stands first. -/
theorem find_append (h : c ∉ p) (text : Str) : find (p ++ c :: text) c = p.length := by
  rw [find, if_pos (List.mem_append_right _ List.mem_cons_self), List.idxOf_append_of_notMem h,
    List.idxOf_cons_self, Nat.add_zero]

/-- The last position of a character. -/
theorem findLast_append (h : c ∉ p) (text : Str) :
    findLast (text ++ c :: p) c = text.length := by
  rw [findLast, if_pos (List.mem_append_right _ List.mem_cons_self), List.reverse_append,
    List.reverse_cons, List.append_assoc, List.singleton_append,
    List.idxOf_append_of_notMem (fun hmem ↦ h (List.mem_reverse.mp hmem)), List.idxOf_cons_self,
    List.length_append, List.length_cons, List.length_reverse]
  omega

theorem substr_of_neg {pos : ℤ} (h : pos < 0) (count : ℤ) :
    substr s pos count = .error .outOfRange := if_pos (Or.inl h)

/-- What a part of a string is replaced by stands in its place. -/
theorem replace_append (a t b r : Str) :
    replace (a ++ (t ++ b)) a.length t.length r = .ok (a ++ (r ++ b)) := by
  rw [replace, if_neg (by simp only [List.length_append]; omega), Int.toNat_natCast,
    List.take_left, List.drop_length_add_append, List.drop_left]

theorem replace_eq_ok {pos : ℤ} {count : ℕ} {r result : Str}
    (h : replace s pos count r = .ok result) : 0 ≤ pos ∧ pos ≤ s.length ∧
      result = s.take pos.toNat ++ (r ++ s.drop (pos.toNat + count)) := by
  rw [replace] at h
  split at h
  · exact absurd h (by simp)
  · next hrange => exact ⟨by omega, by omega, (Except.ok.inj h).symm⟩

/-- What stands before a character. -/
theorem takeWhile_append_cons (h : c ∉ p) (text : Str) :
    (p ++ c :: text).takeWhile (· ≠ c) = p := by
  have hall : ∀ a ∈ p, decide (a ≠ c) = true := by
    intro a ha
    rw [decide_eq_true_eq]
    rintro rfl
    exact h ha
  rw [List.takeWhile_append_of_pos hall, List.takeWhile_cons_of_neg (by simp), List.append_nil]

/-- The text up to a character. -/
theorem substr_find_append (h : c ∉ p) (text : Str) :
    substr (p ++ c :: text) 0 (find (p ++ c :: text) c) = .ok p := by
  rw [substr, if_neg (by omega), find_append h, if_neg (by omega)]
  simp

/-- The beginning of a string. -/
theorem substr_append_left (p text : Str) : substr (p ++ text) 0 p.length = .ok p := by
  rw [substr, if_neg (by omega), if_neg (by omega)]
  simp

/-- The rest of a string. -/
theorem substr_append_right (p text : Str) : substr (p ++ text) p.length npos = .ok text := by
  have hlength : ((p ++ text).length : ℤ) = p.length + text.length := by simp
  rw [substr, if_neg (by omega), if_pos (by decide)]
  simp

/-- A string cut off at its beginning is no longer than the count, or it is all of it. -/
theorem eq_or_length_le_of_substr {count : ℤ} {t : Str} (h : substr s 0 count = .ok t) :
    t = s ∨ (t.length : ℤ) ≤ count := by
  rw [substr, if_neg (by omega)] at h
  split at h
  · exact .inl (Except.ok.inj h).symm
  · rw [← Except.ok.inj h, List.length_take]
    omega

end Text

end SlimTS

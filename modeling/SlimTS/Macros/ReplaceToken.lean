import SlimTS.Macros.Passes

/-!
# A pass with any token and any replacement

`replace_token` in general: the token may overlap itself, and the replacement may hold the token.
The line has two parts again, what is done and what is left of the line as it was. The loop looks
for the token behind what is done and puts the replacement there, so it never sees what it has put
in, and the rest gets shorter.

All of this is as long as the positions fit in an `int`. A token that is found at a position that
does not fit is not replaced: the line has been shorter than `2 ^ 31` characters, so the position
becomes a negative number other than `npos`, and `replace` throws. A position behind a replacement
may be negative at the end, when there is no token left; if it comes out as a smaller position, the
loop goes back into what it has done (`replaceToken_replaces_iff`).
-/

namespace SlimTS

namespace Macros

open Tokens

variable {t r a b line text : Str}

/-! ## What is replaced -/

/-- An occurrence of the token that is found from left to right, behind the ones before it: what
stands in front of it, and behind. -/
inductive Found (t : Str) : Str → Str → Str → Prop
  | first (a b : Str) : Before t a → Found t (a ++ (t ++ b)) a b
  | later (a b a' b' : Str) : Before t a → Found t b a' b' →
      Found t (a ++ (t ++ b)) (a ++ (t ++ a')) b'

/-- Every further search of the loop begins behind the replacement, or is past the end. -/
def SkipsInserted (t r : Str) : ℕ → ℤ → Str → Prop
  | 0, _, _ => True
  | rounds + 1, pos, line =>
    toInt (Text.findFrom line t pos) ≠ Text.npos →
      ∀ line', Text.replace line (toInt (Text.findFrom line t pos)) t.length r = .ok line' →
        (toInt (toInt (Text.findFrom line t pos) + r.length) < 0 ∨
            toInt (Text.findFrom line t pos) + r.length
              ≤ toInt (toInt (Text.findFrom line t pos) + r.length)) ∧
          SkipsInserted t r rounds (toInt (toInt (Text.findFrom line t pos) + r.length)) line'

/-- What `replace_token` puts in the line. -/
def inserted (replaceWith : Str) (isText : Bool) : Str :=
  if isText then quote replaceWith else replaceWith

/-- The pass ends, what it leaves is the line with every occurrence replaced, and it never examines
what it has put in. -/
def Replaces (t line replaceWith : Str) (isText : Bool) : Prop :=
  ∃ rounds, replaceToken rounds t line replaceWith isText
      = .ok (substituteOne t (inserted replaceWith isText) line) ∧
    SkipsInserted t (inserted replaceWith isText) rounds 0 line

/-- The position fits in an `int`, and the one behind the replacement does too, or becomes
negative. -/
def FitsPosition (r : Str) (position : ℕ) : Prop :=
  position < 2 ^ 31 ∧ (position + r.length < 2 ^ 31 ∨ toInt (position + r.length) < 0)

/-- With the ones in front of it replaced, every occurrence is at a position that fits. -/
def InRange (t r line : Str) : Prop :=
  ∀ a b, Found t line a b → FitsPosition r (substituteOne t r a).length

/-! ## The occurrences one by one -/

/-- The pass over a text up to and with its first occurrence. -/
theorem substituteOne_first (hne : t ≠ []) (h : Before t a) (b : Str) :
    substituteOne t r (a ++ (t ++ b)) = a ++ (r ++ substituteOne t r b) := by
  have hfree : ∀ v, v <:+ a → v ≠ [] → ∀ u ∈ [t], ¬ u <+: v ++ (t ++ b) := by
    intro v hv hv' u hu
    rw [List.mem_singleton.mp hu]
    exact h.not_isPrefix hv hv' b
  rw [substituteOne, substitute_append hfree, substitute_singleton hne]

theorem substituteOne_behind (hne : t ≠ []) (h : Before t a) (done b : Str) :
    done ++ substituteOne t r (a ++ (t ++ b)) = done ++ (a ++ r) ++ substituteOne t r b := by
  rw [substituteOne_first hne h]
  simp only [List.append_assoc]

/-- What holds of the texts without the token, and of a text if it holds behind its first
occurrence, holds of every text. -/
theorem found_induction (hne : t ≠ []) {motive : Str → Prop}
    (none : ∀ text, ¬ t <:+: text → motive text)
    (first : ∀ a b, Before t a → motive b → motive (a ++ (t ++ b))) (text : Str) : motive text := by
  by_cases h : t <:+: text
  · obtain ⟨a, b, rfl, hbefore⟩ := exists_before hne h
    exact first a b hbefore (found_induction hne none first b)
  · exact none text h
termination_by text.length
decreasing_by
  rename_i heq _
  have hpos := List.length_pos_iff.mpr hne
  simp only [heq, List.length_append]
  omega

/-- Where there is an occurrence there is the token. -/
theorem Found.isInfix (h : Found t line a b) : t <:+: line := by
  cases h with
  | first a b => exact ⟨a, b, List.append_assoc a t b⟩
  | later a b => exact ⟨a, b, List.append_assoc a t b⟩

/-- There is one first occurrence. -/
theorem Before.unique {a' b' : Str} (h : Before t a) (h' : Before t a')
    (heq : a ++ (t ++ b) = a' ++ (t ++ b')) : a = a' ∧ b = b' := by
  have hlength : a.length = a'.length := by
    rw [← Option.some_inj, ← firstAt_append h b, heq, firstAt_append h' b']
  obtain ⟨ha, hrest⟩ := List.append_inj heq hlength
  exact ⟨ha, List.append_cancel_left hrest⟩

/-- An occurrence is the first, or is found behind it. -/
theorem found_iff (h : Before t a) {a' b' : Str} : Found t (a ++ (t ++ b)) a' b' ↔
    (a' = a ∧ b' = b) ∨ ∃ between, a' = a ++ (t ++ between) ∧ Found t b between b' := by
  constructor
  · intro hfound
    generalize hline : a ++ (t ++ b) = line at hfound
    cases hfound with
    | first a₀ b₀ h₀ =>
      obtain ⟨rfl, rfl⟩ := h.unique h₀ hline
      exact .inl ⟨rfl, rfl⟩
    | later a₀ b₀ between b' h₀ hlater =>
      obtain ⟨rfl, rfl⟩ := h.unique h₀ hline
      exact .inr ⟨between, rfl, hlater⟩
  · rintro (⟨rfl, rfl⟩ | ⟨between, rfl, hlater⟩)
    · exact .first _ _ h
    · exact .later _ _ _ _ h hlater

/-- The occurrences are at positions that fit, behind a number of characters. -/
def InRangeBehind (t r : Str) (n : ℕ) (line : Str) : Prop :=
  ∀ a b, Found t line a b → FitsPosition r (n + (substituteOne t r a).length)

theorem inRangeBehind_zero_iff : InRangeBehind t r 0 line ↔ InRange t r line := by
  simp only [InRangeBehind, InRange, Nat.zero_add]

theorem inRangeBehind_of_not_isInfix (h : ¬ t <:+: line) (n : ℕ) : InRangeBehind t r n line :=
  fun _ _ hfound ↦ absurd hfound.isInfix h

/-- The first occurrence, and those behind it. -/
theorem inRangeBehind_first_iff (hne : t ≠ []) (h : Before t a) (n : ℕ) (b : Str) :
    InRangeBehind t r n (a ++ (t ++ b)) ↔
      FitsPosition r (n + a.length) ∧ InRangeBehind t r (n + a.length + r.length) b := by
  have hfront : substituteOne t r a = a := substituteOne_of_not_isInfix h.not_isInfix
  have hlength : ∀ between, n + (substituteOne t r (a ++ (t ++ between))).length
      = n + a.length + r.length + (substituteOne t r between).length := fun between ↦ by
    rw [substituteOne_first hne h, List.length_append, List.length_append]
    omega
  constructor
  · intro hrange
    refine ⟨hfront ▸ hrange a b (.first a b h), fun between b' hlater ↦ ?_⟩
    rw [← hlength]
    exact hrange _ b' (.later a b between b' h hlater)
  · rintro ⟨hfirst, hlater⟩ a' b' hfound
    rcases (found_iff h).mp hfound with ⟨rfl, rfl⟩ | ⟨between, rfl, hbehind⟩
    · rwa [hfront]
    · rw [hlength]
      exact hlater between b' hbehind

/-! ## One round -/

section

variable {pos : ℤ} {rounds : ℕ}

theorem skipsInserted_of_npos (h : toInt (Text.findFrom line t pos) = Text.npos) (rounds : ℕ) :
    SkipsInserted t r (rounds + 1) pos line := fun hfound ↦ absurd h hfound

/-- A round that finds its token. -/
theorem skipsInserted_succ (h0 : 0 ≤ pos) (hle : pos ≤ a.length) (h : Before t (a.drop pos.toNat))
    (hint : a.length < 2 ^ 31) (b : Str) (rounds : ℕ) :
    SkipsInserted t r (rounds + 1) pos (a ++ (t ++ b)) ↔
      (toInt (a ++ r).length < 0 ∨ ((a ++ r).length : ℤ) ≤ toInt (a ++ r).length) ∧
        SkipsInserted t r rounds (toInt (a ++ r).length) (a ++ (r ++ b)) := by
  have hfound : toInt (Text.findFrom (a ++ (t ++ b)) t pos) = a.length := by
    rw [findFrom_append h0 hle h, toInt_eq_self_iff.mpr ⟨by omega, by omega⟩]
  have hnpos : (a.length : ℤ) ≠ Text.npos := by
    rw [Text.npos]
    omega
  rw [SkipsInserted, hfound, List.length_append, Nat.cast_add, Text.replace_append]
  constructor
  · exact fun hskips ↦ hskips hnpos _ rfl
  · intro hskips _ line' hline'
    rwa [← Except.ok.inj hline']

/-- Such a round, with a part of the line that is done. -/
theorem skipsInserted_behind {done : Str} (h : Before t a) (hint : (done ++ a).length < 2 ^ 31)
    (b : Str) (rounds : ℕ) :
    SkipsInserted t r (rounds + 1) done.length (done ++ (a ++ (t ++ b))) ↔
      (toInt (done ++ (a ++ r)).length < 0 ∨
          ((done ++ (a ++ r)).length : ℤ) ≤ toInt (done ++ (a ++ r)).length) ∧
        SkipsInserted t r rounds (toInt (done ++ (a ++ r)).length) (done ++ (a ++ r) ++ b) := by
  simpa only [List.append_assoc] using skipsInserted_succ (r := r) (a := done ++ a) (by omega)
    (by simp) (by simpa using h) hint b rounds

/-- A search that begins past the end ends the pass. -/
theorem replaceFrom_of_neg (hpos : pos < 0) (rounds : ℕ) :
    replaceFrom t r (rounds + 1) pos line = .ok line ∧ SkipsInserted t r (rounds + 1) pos line := by
  have hnpos : Text.findFrom line t pos = Text.npos := by rw [Text.findFrom, if_pos (.inl hpos)]
  exact ⟨replaceFrom_of_npos hnpos rounds, skipsInserted_of_npos (by rw [hnpos]; rfl) rounds⟩

end

/-! ## The loop within the range -/

/-- **The pass within the range**, from a state with a part that is done. -/
theorem replaceFrom_of_inRange (hne : t ≠ []) (rest : Str) {done : Str}
    (hdone : done.length < 2 ^ 31) (hrange : InRangeBehind t r done.length rest) {rounds : ℕ}
    (hrounds : rest.length < rounds) :
    replaceFrom t r rounds done.length (done ++ rest) = .ok (done ++ substituteOne t r rest) ∧
      SkipsInserted t r rounds done.length (done ++ rest) := by
  have hpos := List.length_pos_iff.mpr hne
  obtain ⟨rounds, rfl⟩ : ∃ n, rounds = n + 1 := ⟨rounds - 1, by omega⟩
  induction rest using found_induction hne generalizing done rounds with
  | none rest hnone =>
    have hnpos := findFrom_behind hnone done
    rw [substituteOne_of_not_isInfix hnone]
    exact ⟨replaceFrom_of_npos hnpos rounds, skipsInserted_of_npos (by rw [hnpos]; rfl) rounds⟩
  | first a b hbefore ih =>
    obtain ⟨⟨hhere, hbehind⟩, hrest⟩ := (inRangeBehind_first_iff hne hbefore _ b).mp hrange
    have hlength : (done ++ (a ++ r)).length = done.length + a.length + r.length := by
      rw [List.length_append, List.length_append, Nat.add_assoc]
    have hint : (done ++ a).length < 2 ^ 31 := by rwa [List.length_append]
    simp only [List.length_append] at hrounds
    obtain ⟨rounds, rfl⟩ : ∃ n, rounds = n + 1 := ⟨rounds - 1, by omega⟩
    rw [replaceFrom_behind hbefore hint, skipsInserted_behind hbefore hint,
      substituteOne_behind hne hbefore]
    -- The next search begins behind what has been put in, or past the end of any line.
    by_cases hwide : (done ++ (a ++ r)).length < 2 ^ 31
    · rw [toInt_eq_self_iff.mpr (by omega)]
      obtain ⟨hreplace, hskips⟩ := ih hwide (hlength ▸ hrest) rounds (by omega)
      exact ⟨hreplace, .inr le_rfl, hskips⟩
    · -- There is nothing left to be found.
      have hneg : toInt (done ++ (a ++ r)).length < 0 := by
        rw [hlength] at hwide ⊢
        have := hbehind.resolve_left hwide
        push_cast at this ⊢
        exact this
      -- A token further on would be at a position that the range excludes.
      have hnone : ¬ t <:+: b := fun hoccur ↦ by
        obtain ⟨a', b', rfl, hbefore'⟩ := exists_before hne hoccur
        have hlater := ((inRangeBehind_first_iff hne hbefore' _ b').mp hrest).1.1
        omega
      rw [substituteOne_of_not_isInfix hnone]
      obtain ⟨hreplace, hskips⟩ := replaceFrom_of_neg (t := t) (r := r) hneg rounds
      exact ⟨hreplace, .inl hneg, hskips⟩

/-! ## The loop replaces everything within the range only -/

/-- A longer replacement makes no text shorter. -/
theorem length_le_substituteOne (hne : t ≠ []) (hle : t.length ≤ r.length) (text : Str) :
    text.length ≤ (substituteOne t r text).length := by
  induction text using found_induction hne with
  | none text hnone => rw [substituteOne_of_not_isInfix hnone]
  | first a b hbefore ih =>
    rw [substituteOne_first hne hbefore]
    simp only [List.length_append]
    omega

/-- A text that a longer replacement leaves as it is has no token in it. -/
theorem not_isInfix_of_substituteOne (hne : t ≠ []) (hlt : t.length < r.length)
    (h : substituteOne t r text = text) : ¬ t <:+: text := by
  intro hoccur
  obtain ⟨a, b, rfl, hbefore⟩ := exists_before hne hoccur
  have hle := length_le_substituteOne hne hlt.le b
  rw [substituteOne_first hne hbefore] at h
  have hlength := congrArg List.length h
  simp only [List.length_append] at hlength
  omega

/-- A token at a position that does not fit makes `replace` throw: behind a part that is done, a
line of fewer than `2 ^ 31` characters has none at a position that becomes `npos`. -/
theorem replaceFrom_late {done : Str} (hdone : done.length < 2 ^ 31) (h : Before t a)
    (hrest : (a ++ (t ++ b)).length < 2 ^ 31) (hne : t ≠ [])
    (hlate : 2 ^ 31 ≤ (done ++ a).length) (rounds : ℕ) :
    replaceFrom t r (rounds + 1) done.length (done ++ (a ++ (t ++ b))) = .error .outOfRange := by
  have hpos := List.length_pos_iff.mpr hne
  simp only [List.length_append] at hrest hlate
  have hfound : Text.findFrom (done ++ (a ++ (t ++ b))) t done.length = (done ++ a).length := by
    rw [← List.append_assoc]
    exact findFrom_append (by omega) (by simp) (by simpa using h) b
  have hint : toInt (done ++ a).length < Text.npos := by
    rw [List.length_append, toInt, Int.bmod_def, Text.npos]
    omega
  have hthrows : Text.replace (done ++ (a ++ (t ++ b)))
      (toInt (Text.findFrom (done ++ (a ++ (t ++ b))) t done.length)) t.length r
        = .error .outOfRange := by
    rw [hfound, Text.replace, if_pos (.inl (hint.trans (by decide)))]
  refine replaceFrom_of_error ?_ hthrows rounds
  rw [hfound]
  exact hint.ne

/-- A search past the end that leaves a line with everything replaced had nothing to replace. -/
theorem not_isInfix_of_replaceFrom_neg (hne : t ≠ []) (hlt : t.length < r.length) {pos : ℤ}
    (hneg : pos < 0) {done : Str} {rounds : ℕ}
    (h : replaceFrom t r rounds pos (done ++ b) = .ok (done ++ substituteOne t r b)) :
    ¬ t <:+: b := by
  refine not_isInfix_of_substituteOne hne hlt ?_
  cases rounds with
  | zero => exact absurd h nofun
  | succ rounds =>
    rw [(replaceFrom_of_neg hneg rounds).1] at h
    exact (List.append_cancel_left (Except.ok.inj h)).symm

/-- **The pass that replaces everything** is within the range, from a state with a part that is
done. A replacement that is no longer than the token keeps the line as short as it was, so only a
longer one can bring a position past the range. -/
theorem inRange_of_replaceFrom (hne : t ≠ []) (rest : Str) {done : Str}
    (hdone : done.length < 2 ^ 31) (hrest : rest.length < 2 ^ 31)
    (hshort : r.length ≤ t.length → done.length + rest.length < 2 ^ 31) {rounds : ℕ}
    (hreplace : replaceFrom t r rounds done.length (done ++ rest)
      = .ok (done ++ substituteOne t r rest))
    (hskips : SkipsInserted t r rounds done.length (done ++ rest)) :
    InRangeBehind t r done.length rest := by
  induction rest using found_induction hne generalizing done rounds with
  | none rest hnone => exact inRangeBehind_of_not_isInfix hnone _
  | first a b hbefore ih =>
    cases rounds with
    | zero => exact absurd hreplace nofun
    | succ rounds =>
      -- A first position that does not fit makes `replace` throw, so there is no result.
      by_cases hint : (done ++ a).length < 2 ^ 31
      · have hlength : (done ++ (a ++ r)).length = done.length + a.length + r.length := by
          rw [List.length_append, List.length_append, Nat.add_assoc]
        simp only [List.length_append] at hint hrest hshort
        rw [inRangeBehind_first_iff hne hbefore, ← hlength]
        rw [skipsInserted_behind hbefore (by rwa [List.length_append])] at hskips
        rw [replaceFrom_behind hbefore (by rwa [List.length_append]),
          substituteOne_behind hne hbefore] at hreplace
        obtain ⟨hneg | hle, hskips⟩ := hskips
        · -- The search begins past the end, and the pass is over.
          have hlt : t.length < r.length := by
            by_contra hge
            have hfits := hshort (not_lt.mp hge)
            rw [toInt_eq_self_iff.mpr (by omega)] at hneg
            omega
          refine ⟨⟨hint, .inr ?_⟩, inRangeBehind_of_not_isInfix
            (not_isInfix_of_replaceFrom_neg hne hlt hneg hreplace) _⟩
          rw [hlength] at hneg
          push_cast at hneg ⊢
          exact hneg
        · -- The search begins just behind what was put in, and the rest is a smaller case.
          have hself := le_antisymm (toInt_le_self (Nat.cast_nonneg _)) hle
          have hwide := (toInt_eq_self_iff.mp hself).2
          rw [hself] at hreplace hskips
          exact ⟨⟨hint, .inl (by omega)⟩,
            ih (by omega) (by omega) (fun hge ↦ by have := hshort hge; omega) hreplace hskips⟩
      · rw [replaceFrom_late hdone hbefore hrest hne (by omega)] at hreplace
        cases hreplace

/-! ## Every token and every replacement -/

theorem replaces_of_inRange (hne : t ≠ []) {replaceWith : Str} {isText : Bool}
    (hrange : InRange t (inserted replaceWith isText) line) :
    Replaces t line replaceWith isText := by
  have hdone : ([] : Str).length < 2 ^ 31 := by decide
  exact ⟨line.length + 1, replaceFrom_of_inRange hne line hdone
    (inRangeBehind_zero_iff.mpr hrange) (Nat.lt_succ_self _)⟩

theorem Replaces.inRange (hne : t ≠ []) (hline : line.length < 2 ^ 31) {replaceWith : Str}
    {isText : Bool} (h : Replaces t line replaceWith isText) :
    InRange t (inserted replaceWith isText) line := by
  obtain ⟨rounds, hreplace, hskips⟩ := h
  have hdone : ([] : Str).length < 2 ^ 31 := by decide
  exact inRangeBehind_zero_iff.mp (inRange_of_replaceFrom hne line hdone hline
    (fun _ ↦ by simpa using hline) hreplace hskips)

/-- **A pass replaces every occurrence** of any token by any replacement, without looking at what it
has put in, exactly when every position of the loop fits in an `int`. -/
theorem replaceToken_replaces_iff (hne : t ≠ []) (hline : line.length < 2 ^ 31)
    (replaceWith : Str) (isText : Bool) :
    Replaces t line replaceWith isText ↔ InRange t (inserted replaceWith isText) line :=
  ⟨Replaces.inRange hne hline, replaces_of_inRange hne⟩

/-- What is put in stands where its token was. -/
theorem Found.substituteOne_eq (hne : t ≠ []) (h : Found t line a b) :
    substituteOne t r line = substituteOne t r a ++ (r ++ substituteOne t r b) := by
  induction h with
  | first a b hbefore =>
    rw [substituteOne_first hne hbefore, substituteOne_of_not_isInfix hbefore.not_isInfix]
  | later a b a' b' hbefore _ ih =>
    rw [substituteOne_first hne hbefore, substituteOne_first hne hbefore, ih]
    simp only [List.append_assoc]

/-- All positions fit if the result does. -/
theorem inRange_of_length (hne : t ≠ []) (h : (substituteOne t r line).length < 2 ^ 31) :
    InRange t r line := by
  intro a b hfound
  rw [hfound.substituteOne_eq hne, List.length_append, List.length_append] at h
  exact ⟨by omega, .inl (by omega)⟩

/-- A token that overlaps itself, in a replacement that holds it. -/
theorem replaceToken_replaces_overlapping :
    Replaces "aa".toList "baaaa".toList "aaa".toList true :=
  (replaceToken_replaces_iff (by decide) (by decide) _ _).mpr
    (inRange_of_length (by decide) (by decide))

/-! ## Many tokens in one line -/

/-- A text again and again. -/
def repeated (n : ℕ) (text : Str) : Str := (List.replicate n text).flatten

@[simp] theorem repeated_zero (text : Str) : repeated 0 text = [] := rfl

theorem repeated_succ (n : ℕ) (text : Str) : repeated (n + 1) text = text ++ repeated n text := by
  rw [repeated, List.replicate_succ, List.flatten_cons, repeated]

theorem length_repeated (n : ℕ) (text : Str) : (repeated n text).length = n * text.length := by
  simp [repeated]

theorem substituteOne_repeated (hne : t ≠ []) (n : ℕ) :
    substituteOne t r (repeated n t) = repeated n r := by
  induction n with
  | zero => rfl
  | succ n ih =>
    rw [repeated_succ, repeated_succ, ← List.nil_append (t ++ _),
      substituteOne_first hne (before_nil hne), ih, List.nil_append]

theorem found_repeated (hne : t ≠ []) (n : ℕ) : Found t (repeated (n + 1) t) (repeated n t) [] := by
  induction n with
  | zero => simpa [repeated_succ] using Found.first [] [] (before_nil hne)
  | succ n ih =>
    rw [repeated_succ, repeated_succ n]
    exact .later [] _ _ [] (before_nil hne) ih

/-- The last of many tokens is at a position that does not fit. -/
theorem not_inRange_repeated (hne : t ≠ []) {n : ℕ} (hfar : 2 ^ 31 ≤ n * r.length) :
    ¬ InRange t r (repeated (n + 1) t) := by
  intro hrange
  have hlast := (hrange _ _ (found_repeated hne n)).1
  rw [substituteOne_repeated hne, length_repeated] at hlast
  omega

/-- A line of more than a million tokens, and a directory of 2046 characters in quotes. -/
theorem not_forall_replaces : ¬ ∀ (t line replaceWith : Str) (isText : Bool), t ≠ [] →
    line.length < 2 ^ 31 → Replaces t line replaceWith isText := by
  intro h
  have hne : dirnameToken ≠ [] := by decide
  have hline : (repeated (2 ^ 20 + 1) dirnameToken).length < 2 ^ 31 := by
    rw [length_repeated, show dirnameToken.length = 9 from rfl]
    norm_num
  refine not_inRange_repeated hne (n := 2 ^ 20) ?_
    ((h dirnameToken _ (List.replicate 2046 'a') true hne hline).inRange hne hline)
  rw [inserted, if_pos rfl, length_quote, List.length_replicate]
  norm_num

end Macros

end SlimTS

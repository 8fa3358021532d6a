import SlimTS.Library.Tokens
import SlimTS.Macros.Apply

/-!
# One pass over a line

The loop of `replace_token` against the pass of the library. The loop has the line in two parts:
what is done, up to its position, and what is left. As long as each token is found at a position
that an `int` can hold, the loop does what the pass does. The first token that is found further on
is never replaced: the conversion to `int` makes its position negative, which ends the loop or
throws, or brings it to the front of the line, where other text is overwritten and the token stays
behind.
-/

namespace SlimTS

namespace Macros

open Tokens

variable {t r a b text line : Str}

/-! ## The first occurrence -/

/-- In front of the text nothing begins the token: with the token after it, the text has its first
occurrence at the end. -/
def Before (t a : Str) : Prop := ¬ t <:+: a ++ t.dropLast

theorem Before.not_isInfix (h : Before t a) : ¬ t <:+: a :=
  fun hoccur ↦ h (hoccur.trans (List.prefix_append a _).isInfix)

theorem Before.of_suffix {v : Str} (h : Before t a) (hv : v <:+ a) : Before t v := by
  obtain ⟨front, rfl⟩ := hv
  intro hoccur
  rw [Before, List.append_assoc] at h
  exact h (hoccur.trans (List.suffix_append front _).isInfix)

/-- An occurrence that begins in front of a token ends in front of its end. -/
theorem prefix_append_dropLast {v : Str} (hne : v ≠ []) (h : t <+: v ++ (t ++ b)) :
    t <+: v ++ t.dropLast := by
  have hpos := List.length_pos_iff.mpr hne
  rcases eq_or_ne t [] with rfl | ht
  · exact List.nil_prefix
  have hsplit : v ++ (t ++ b) = (v ++ t.dropLast) ++ (t.getLast ht :: b) := by
    rw [List.append_assoc, ← List.singleton_append (l := b), ← List.append_assoc t.dropLast,
      List.dropLast_append_getLast ht]
  rw [hsplit] at h
  refine List.prefix_of_prefix_length_le h (List.prefix_append _ _) ?_
  rw [List.length_append, List.length_dropLast]
  omega

theorem Before.not_isPrefix {v : Str} (h : Before t a) (hv : v <:+ a) (hne : v ≠ []) (b : Str) :
    ¬ t <+: v ++ (t ++ b) :=
  fun hstarts ↦ h.of_suffix hv (prefix_append_dropLast hne hstarts).isInfix

theorem before_nil (hne : t ≠ []) : Before t [] := by
  intro hoccur
  have hle := hoccur.length_le
  rw [List.nil_append, List.length_dropLast] at hle
  have hpos := List.length_pos_iff.mpr hne
  omega

/-- Nothing is found in a text that does not hold the token. -/
theorem firstAt_eq_none (h : ¬ t <:+: text) : Text.firstAt t text = none := by
  induction text with
  | nil =>
    rw [Text.firstAt, if_neg fun hstarts ↦ h (List.isPrefixOf_iff_prefix.mp hstarts).isInfix]
  | cons c text ih =>
    rw [Text.firstAt, if_neg fun hstarts ↦ h (List.isPrefixOf_iff_prefix.mp hstarts).isInfix,
      ih fun hoccur ↦ h (List.infix_cons hoccur)]
    rfl

/-- The first occurrence is found. -/
theorem firstAt_append (h : Before t a) (b : Str) :
    Text.firstAt t (a ++ (t ++ b)) = some a.length := by
  induction a with
  | nil =>
    have hstarts : t.isPrefixOf (t ++ b) = true :=
      List.isPrefixOf_iff_prefix.mpr (List.prefix_append t b)
    rw [List.nil_append]
    cases htext : t ++ b with
    | nil =>
      rw [htext] at hstarts
      rw [Text.firstAt, if_pos hstarts]
      rfl
    | cons c text =>
      rw [htext] at hstarts
      rw [Text.firstAt, if_pos hstarts]
      rfl
  | cons c a ih =>
    have hnot : ¬ t.isPrefixOf (c :: (a ++ (t ++ b))) = true := fun hstarts ↦
      h.not_isPrefix List.suffix_rfl (List.cons_ne_nil c a) b
        (List.isPrefixOf_iff_prefix.mp hstarts)
    rw [List.cons_append, Text.firstAt, if_neg hnot, ih (h.of_suffix (List.suffix_cons c a))]
    rfl

/-- A text that holds a token has a first occurrence of it. -/
theorem exists_before (hne : t ≠ []) (h : t <:+: text) :
    ∃ a b, text = a ++ (t ++ b) ∧ Before t a := by
  induction text with
  | nil => exact absurd (List.infix_nil.mp h) hne
  | cons c text ih =>
    by_cases hstarts : t <+: c :: text
    · obtain ⟨b, hb⟩ := hstarts
      exact ⟨[], b, hb.symm, before_nil hne⟩
    · obtain ⟨a, b, rfl, hbefore⟩ := ih ((List.infix_cons_iff.mp h).resolve_left hstarts)
      refine ⟨c :: a, b, rfl, fun hoccur ↦ ?_⟩
      rw [List.cons_append] at hoccur
      rcases List.infix_cons_iff.mp hoccur with hhere | hoccur
      · -- What stands in front of the last element of the token stands in the text.
        refine hstarts (hhere.trans ?_)
        rw [List.cons_prefix_cons]
        exact ⟨rfl, List.prefix_append_right_inj a |>.mpr
          ((List.dropLast_prefix t).trans (List.prefix_append t b))⟩
      · exact hbefore hoccur

/-- Nothing is found behind a part of the line that is done. -/
theorem findFrom_behind (h : ¬ t <:+: text) (done : Str) :
    Text.findFrom (done ++ text) t done.length = Text.npos := by
  rw [Text.findFrom, if_neg (by simp only [List.length_append]; omega), Int.toNat_natCast,
    List.drop_left, firstAt_eq_none h]

theorem findFrom_eq_npos (h : ¬ t <:+: line) (pos : ℤ) : Text.findFrom line t pos = Text.npos := by
  rw [Text.findFrom]
  split
  · rfl
  · rw [firstAt_eq_none fun hoccur ↦ h (hoccur.trans (List.drop_suffix _ line).isInfix)]

/-- The first occurrence behind a position is found. -/
theorem findFrom_append {pos : ℤ} (h0 : 0 ≤ pos) (hle : pos ≤ a.length)
    (h : Before t (a.drop pos.toNat)) (b : Str) :
    Text.findFrom (a ++ (t ++ b)) t pos = a.length := by
  have hdrop : (a ++ (t ++ b)).drop pos.toNat = a.drop pos.toNat ++ (t ++ b) :=
    List.drop_append_of_le_length (by omega)
  rw [Text.findFrom, if_neg (by simp only [List.length_append]; omega), hdrop, firstAt_append h]
  simp only [List.length_drop]
  omega

/-! ## One round -/

section

variable {pos : ℤ} {rounds : ℕ} {line' result : Str}

theorem replaceFrom_of_last (h : toInt (Text.findFrom line t pos) = Text.npos) (rounds : ℕ) :
    replaceFrom t r (rounds + 1) pos line = .ok line := if_pos h

/-- The last round finds nothing. -/
theorem replaceFrom_of_npos (h : Text.findFrom line t pos = Text.npos) (rounds : ℕ) :
    replaceFrom t r (rounds + 1) pos line = .ok line :=
  replaceFrom_of_last (by rw [h]; rfl) rounds

theorem replaceFrom_of_replace (h : toInt (Text.findFrom line t pos) ≠ Text.npos)
    (hreplace : Text.replace line (toInt (Text.findFrom line t pos)) t.length r = .ok line')
    (rounds : ℕ) : replaceFrom t r (rounds + 1) pos line
      = replaceFrom t r rounds (toInt (toInt (Text.findFrom line t pos) + r.length)) line' := by
  refine (if_neg h).trans ?_
  rw [hreplace]

theorem replaceFrom_of_error (h : toInt (Text.findFrom line t pos) ≠ Text.npos)
    {fault : OutOfRange}
    (hreplace : Text.replace line (toInt (Text.findFrom line t pos)) t.length r = .error fault)
    (rounds : ℕ) : replaceFrom t r (rounds + 1) pos line = .error .outOfRange := by
  refine (if_neg h).trans ?_
  rw [hreplace]

/-- **What a round does** that a loop with a result begins with. -/
theorem exists_of_replaceFrom (h : replaceFrom t r rounds pos line = .ok result) :
    ∃ n, rounds = n + 1 ∧
      ((toInt (Text.findFrom line t pos) = Text.npos ∧ result = line) ∨
        (toInt (Text.findFrom line t pos) ≠ Text.npos ∧ ∃ line',
          Text.replace line (toInt (Text.findFrom line t pos)) t.length r = .ok line' ∧
          replaceFrom t r n (toInt (toInt (Text.findFrom line t pos) + r.length)) line'
            = .ok result)) := by
  cases rounds with
  | zero => exact absurd h nofun
  | succ n =>
    refine ⟨n, rfl, ?_⟩
    by_cases hfound : toInt (Text.findFrom line t pos) = Text.npos
    · exact .inl ⟨hfound, Except.ok.inj (h.symm.trans (replaceFrom_of_last hfound n))⟩
    · refine .inr ⟨hfound, ?_⟩
      cases hreplace : Text.replace line (toInt (Text.findFrom line t pos)) t.length r with
      | error fault => exact absurd (h.symm.trans (replaceFrom_of_error hfound hreplace n)) nofun
      | ok line' => exact ⟨line', rfl, (replaceFrom_of_replace hfound hreplace n).symm.trans h⟩

/-- A round that finds its token. -/
theorem replaceFrom_succ (h0 : 0 ≤ pos) (hle : pos ≤ a.length) (h : Before t (a.drop pos.toNat))
    (hint : a.length < 2 ^ 31) (b : Str) (rounds : ℕ) :
    replaceFrom t r (rounds + 1) pos (a ++ (t ++ b))
      = replaceFrom t r rounds (toInt (a ++ r).length) (a ++ (r ++ b)) := by
  have hfound : toInt (Text.findFrom (a ++ (t ++ b)) t pos) = a.length := by
    rw [findFrom_append h0 hle h, toInt_eq_self_iff.mpr ⟨by omega, by omega⟩]
  have hreplace : Text.replace (a ++ (t ++ b))
      (toInt (Text.findFrom (a ++ (t ++ b)) t pos)) t.length r = .ok (a ++ (r ++ b)) := by
    rw [hfound, Text.replace_append]
  rw [replaceFrom_of_replace (by rw [hfound, Text.npos]; omega) hreplace, hfound,
    List.length_append, Nat.cast_add]

/-- Such a round, with a part of the line that is done. -/
theorem replaceFrom_behind {done : Str} (h : Before t a) (hint : (done ++ a).length < 2 ^ 31)
    (b : Str) (rounds : ℕ) :
    replaceFrom t r (rounds + 1) done.length (done ++ (a ++ (t ++ b)))
      = replaceFrom t r rounds (toInt (done ++ (a ++ r)).length) (done ++ (a ++ r) ++ b) := by
  simpa only [List.append_assoc] using replaceFrom_succ (r := r) (a := done ++ a) (by omega)
    (by simp) (by simpa using h) hint b rounds

/-- More rounds do not change a result. -/
theorem replaceFrom_mono {rounds' : ℕ} (hle : rounds ≤ rounds')
    (h : replaceFrom t r rounds pos line = .ok result) :
    replaceFrom t r rounds' pos line = .ok result := by
  induction rounds generalizing rounds' pos line with
  | zero => exact absurd h nofun
  | succ rounds ih =>
    obtain ⟨rounds', rfl⟩ : ∃ n, rounds' = n + 1 := ⟨rounds' - 1, by omega⟩
    obtain ⟨n, hn, ⟨hnpos, rfl⟩ | ⟨hnpos, line', hreplace, hrest⟩⟩ := exists_of_replaceFrom h
    · exact replaceFrom_of_last hnpos rounds'
    · obtain rfl : rounds = n := Nat.succ.inj hn
      rw [replaceFrom_of_replace hnpos hreplace]
      exact ih (by omega) hrest

/-- Nothing comes into a line but the replacement. -/
theorem mem_of_mem_replaceFrom {c : Char} (h : replaceFrom t r rounds pos line = .ok result)
    (hc : c ∈ result) : c ∈ line ∨ c ∈ r := by
  induction rounds generalizing pos line with
  | zero => exact absurd h nofun
  | succ rounds ih =>
    obtain ⟨n, hn, ⟨-, rfl⟩ | ⟨-, line', hreplace, hrest⟩⟩ := exists_of_replaceFrom h
    · exact .inl hc
    · obtain rfl : rounds = n := Nat.succ.inj hn
      refine (ih hrest).elim (fun hmem ↦ ?_) .inr
      rw [(Text.replace_eq_ok hreplace).2.2, List.mem_append, List.mem_append] at hmem
      rcases hmem with hmem | hmem | hmem
      · exact .inl (List.mem_of_mem_take hmem)
      · exact .inr hmem
      · exact .inl (List.mem_of_mem_drop hmem)

end

/-! ## The loop within the range of an `int` -/

/-- The result of the pass for one token. -/
abbrev substituteOne (t r text : Str) : Str := substitute [t] (fun _ ↦ r) text

/-- Each token is found, with the ones before it replaced, at a position that an `int` can hold. If
the replacement holds the token itself, then so is the position behind it. -/
def Reachable (t r line : Str) : Prop :=
  ∀ a b, line = a ++ (t ++ b) → (substituteOne t r a).length < 2 ^ 31 ∧
    (t <:+: r → (substituteOne t r a).length + r.length < 2 ^ 31)

theorem substituteOne_of_not_isInfix (h : ¬ t <:+: text) : substituteOne t r text = text :=
  substitute_of_not_isInfix fun u hu ↦ by rwa [List.mem_singleton.mp hu]

/-- The pass over a text with a token in it. -/
theorem substituteOne_append (ht : Apart [t]) (a b : Str) :
    substituteOne t r (a ++ (t ++ b)) = substituteOne t r a ++ (r ++ substituteOne t r b) :=
  substitute_append_token ht List.mem_cons_self a b

/-- The pass over a text up to and with its first token. -/
theorem substituteOne_before (ht : Apart [t]) (h : Before t a) (b : Str) :
    substituteOne t r (a ++ (t ++ b)) = a ++ (r ++ substituteOne t r b) := by
  have hfront : substituteOne t r a = a := substituteOne_of_not_isInfix h.not_isInfix
  rw [substituteOne_append ht, hfront]

/-- What is done holds no beginning of the token, if the replacement does not hold the token. -/
def Done (t r done : Str) : Prop := ¬ t <:+: r → ∀ text, t <:+: done ++ text → t <:+: text

theorem Done.next {done : Str} (h : Done t r done) (hne : t ≠ []) (hr : Guarded t r)
    (hbefore : Before t a) : Done t r (done ++ (a ++ r)) := by
  intro hfree text hoccur
  rw [List.append_assoc, List.append_assoc] at hoccur
  rcases hr.infix_append hne (h hfree _ hoccur) with hoccur | hoccur | hoccur
  · exact absurd hoccur hbefore.not_isInfix
  · exact absurd hoccur hfree
  · exact hoccur

/-- The loop, from a state with a part that is done. -/
theorem replaceFrom_eq (ht : Apart [t]) (hr : Guarded t r) {done : Str} (hdone : Done t r done)
    (hint : done.length < 2 ^ 31) {rest : Str}
    (hreach : ∀ a b, rest = a ++ (t ++ b) → done.length + (substituteOne t r a).length < 2 ^ 31 ∧
      (t <:+: r → done.length + (substituteOne t r a).length + r.length < 2 ^ 31))
    {rounds : ℕ} (hrounds : rest.length < rounds) :
    replaceFrom t r rounds done.length (done ++ rest) = .ok (done ++ substituteOne t r rest) := by
  have hne : t ≠ [] := ht.ne_nil t List.mem_cons_self
  have hpos := List.length_pos_iff.mpr hne
  induction rounds generalizing done rest with
  | zero => exact absurd hrounds (Nat.not_lt_zero _)
  | succ rounds ih =>
    by_cases hoccur : t <:+: rest
    · obtain ⟨a, b, rfl, hbefore⟩ := exists_before hne hoccur
      obtain ⟨hhere, hbehind⟩ := hreach a b rfl
      rw [substituteOne_of_not_isInfix hbefore.not_isInfix] at hhere hbehind
      simp only [List.length_append] at hrounds
      have hhere : (done ++ a).length < 2 ^ 31 := by rwa [List.length_append]
      have hresult : done ++ substituteOne t r (a ++ (t ++ b))
          = done ++ (a ++ r) ++ substituteOne t r b := by
        rw [substituteOne_before ht hbefore]
        simp only [List.append_assoc]
      rw [replaceFrom_behind hbefore hhere, hresult]
      have hdone' := hdone.next hne hr hbefore
      -- What the rest holds is reached behind the part that is done.
      have hreach' : ∀ a' b', b = a' ++ (t ++ b') →
          (done ++ (a ++ r)).length + (substituteOne t r a').length < 2 ^ 31 ∧
            (t <:+: r →
              (done ++ (a ++ r)).length + (substituteOne t r a').length + r.length < 2 ^ 31) := by
        rintro a' b' rfl
        have hlater := hreach (a ++ (t ++ a')) b' (by simp only [List.append_assoc])
        rw [substituteOne_before ht hbefore] at hlater
        simp only [List.length_append] at hlater ⊢
        exact ⟨by omega, fun hmem ↦ by have := hlater.2 hmem; omega⟩
      by_cases hwide : (done ++ (a ++ r)).length < 2 ^ 31
      · rw [toInt_eq_self_iff.mpr (by omega)]
        exact ih hdone' hwide hreach' (by omega)
      · -- The position may wrap around, but there is nothing left to be found.
        have hfree : ¬ t <:+: r := fun hmem ↦ hwide (by
          have := hbehind hmem
          simp only [List.length_append]
          omega)
        have hrest : ¬ t <:+: b := by
          intro hoccur
          obtain ⟨a', b', rfl, -⟩ := exists_before hne hoccur
          have := (hreach' a' b' rfl).1
          omega
        obtain ⟨rounds, rfl⟩ : ∃ n, rounds = n + 1 := ⟨rounds - 1, by omega⟩
        have hnone : ¬ t <:+: done ++ (a ++ r) ++ b := fun hoccur ↦ hrest (hdone' hfree b hoccur)
        rw [replaceFrom_of_npos (findFrom_eq_npos hnone _), substituteOne_of_not_isInfix hrest]
    · rw [substituteOne_of_not_isInfix hoccur,
        replaceFrom_of_npos (findFrom_behind hoccur done)]

/-- **A pass within the range of an `int`** is the pass of the library. -/
theorem replaceFrom_of_reachable (ht : Apart [t]) (hr : Guarded t r) (hreach : Reachable t r line)
    {rounds : ℕ} (hrounds : line.length < rounds) :
    replaceFrom t r rounds 0 line = .ok (substituteOne t r line) := by
  have hdone : Done t r [] := fun _ _ h ↦ h
  refine replaceFrom_eq ht hr hdone (by simp) (fun a b heq ↦ ?_) hrounds
  simpa using hreach a b heq

/-- Whatever the rounds, a pass within the range of an `int` has the result of the library's. -/
theorem eq_of_replaceFrom (ht : Apart [t]) (hr : Guarded t r) (hreach : Reachable t r line)
    {rounds : ℕ} {result : Str} (h : replaceFrom t r rounds 0 line = .ok result) :
    result = substituteOne t r line := by
  have hmore := replaceFrom_mono (Nat.le_add_right rounds (line.length + 1)) h
  rw [replaceFrom_of_reachable ht hr hreach (by omega)] at hmore
  exact (Except.ok.inj hmore).symm

/-! ## Beyond the range of an `int` -/

/-- A token that is found too far on stays in the line, whatever the loop does with it. -/
theorem infix_of_replaceFrom_late (ht : t.length < 2 ^ 31) (hne : t ≠ []) (hr : Guarded t r)
    (hfree : ¬ t <:+: r) {rounds : ℕ} {pos : ℤ} (hpos : pos < 2 ^ 31) (hbefore : Before t a)
    (hlate : 2 ^ 31 ≤ a.length) {result : Str}
    (h : replaceFrom t r rounds pos (a ++ (t ++ b)) = .ok result) : t <:+: result := by
  induction rounds generalizing a pos with
  | zero => exact absurd h nofun
  | succ rounds ih =>
    have hstays : t <:+: a ++ (t ++ b) := ⟨a, b, List.append_assoc a t b⟩
    obtain ⟨n, hn, ⟨-, rfl⟩ | ⟨hnpos, line, hreplace, hrest⟩⟩ := exists_of_replaceFrom h
    · exact hstays
    obtain rfl : rounds = n := Nat.succ.inj hn
    have h0 : ¬ pos < 0 := fun hneg ↦ hnpos (by rw [Text.findFrom, if_pos (.inl hneg)]; rfl)
    rw [findFrom_append (by omega) (by omega) (hbefore.of_suffix (List.drop_suffix _ a))]
      at hreplace hrest
    -- Other text is overwritten, further in front.
    obtain ⟨hposition, -, hline⟩ := Text.replace_eq_ok hreplace
    have hwrap : (toInt (a.length : ℤ)).toNat + 2 ^ 32 ≤ a.length := by
      rw [toInt, Int.bmod_def] at hposition ⊢
      omega
    rw [hline, List.take_append_of_le_length (by omega), List.drop_append_of_le_length (by omega),
      ← List.append_assoc r, ← List.append_assoc (List.take _ a)] at hrest
    refine ih (toInt_range _).2 ?_ ?_ hrest
    · intro hoccur
      rw [List.append_assoc, List.append_assoc] at hoccur
      rcases hr.infix_append hne hoccur with hoccur | hoccur | hoccur
      · exact hbefore.not_isInfix (hoccur.trans (List.take_prefix _ a).isInfix)
      · exact hfree hoccur
      · exact hbefore.of_suffix (List.drop_suffix _ a) hoccur
    · simp only [List.length_append, List.length_drop, List.length_take]
      omega

/-- Another occurrence of the token is behind the first. -/
theorem eq_or_later (ht : Apart [t]) (hbefore : Before t a) {a' b' : Str}
    (heq : a ++ (t ++ b) = a' ++ (t ++ b')) :
    a' = a ∨ ∃ between, a' = a ++ (t ++ between) ∧ b = between ++ (t ++ b') := by
  have hstarts : a' <+: a ++ (t ++ b) := heq ▸ List.prefix_append a' _
  rcases List.prefix_or_prefix_of_prefix (List.prefix_append a (t ++ b)) hstarts with
    ⟨w, rfl⟩ | ⟨v, rfl⟩
  · rw [List.append_assoc, List.append_cancel_left_eq] at heq
    rcases eq_or_ne w [] with rfl | hne
    · exact .inl (List.append_nil a)
    right
    have hw : w <+: t ++ b := heq ▸ List.prefix_append w _
    rcases List.prefix_or_prefix_of_prefix (List.prefix_append t b) hw with
      ⟨between, rfl⟩ | ⟨v, hv⟩
    · rw [List.append_assoc, List.append_cancel_left_eq] at heq
      exact ⟨between, rfl, heq⟩
    · -- The other occurrence would overlap with the first.
      rcases eq_or_ne v [] with rfl | hne'
      · rw [List.append_nil] at hv
        rw [hv] at heq ⊢
        exact ⟨[], by rw [List.append_nil], List.append_cancel_left heq⟩
      rw [← hv, List.append_assoc, List.append_cancel_left_eq] at heq
      have hover : t <+: v ++ b := by
        rw [heq, hv]
        exact List.prefix_append t b'
      exact absurd hover (ht.not_prefix_of_suffix List.mem_cons_self List.mem_cons_self
        ⟨w, hv⟩ hne' (.inl fun heq ↦ hne (List.append_left_eq_self.mp (hv.trans heq.symm))))
  · rcases eq_or_ne v [] with rfl | hne
    · exact .inl (List.append_nil a').symm
    · rw [List.append_assoc, List.append_cancel_left_eq] at heq
      exact absurd (heq ▸ List.prefix_append t b')
        (hbefore.not_isPrefix (List.suffix_append a' v) hne b)

/-- The first occurrence behind a part that is done is the first of the line. -/
theorem Done.before {done : Str} (h : Done t r done) (hfree : ¬ t <:+: r) (hbefore : Before t a) :
    Before t (done ++ a) := by
  intro hoccur
  rw [List.append_assoc] at hoccur
  exact hbefore (h hfree _ hoccur)

/-- The loop, from a state with a part that is done, when a token is too far on. -/
theorem infix_of_replaceFrom (ht : Apart [t]) (hlength : t.length < 2 ^ 31) (hr : Guarded t r)
    (hfree : ¬ t <:+: r) {done : Str} (hdone : Done t r done) (hint : done.length < 2 ^ 31)
    (hlate : 2 ^ 31 ≤ done.length + (substituteOne t r a).length) {rounds : ℕ} {result : Str}
    (h : replaceFrom t r rounds done.length (done ++ (a ++ (t ++ b))) = .ok result) :
    t <:+: result := by
  have hne : t ≠ [] := ht.ne_nil t List.mem_cons_self
  induction rounds generalizing done a b with
  | zero => exact absurd h nofun
  | succ rounds ih =>
    have hstands : t <:+: a ++ (t ++ b) := ⟨a, b, List.append_assoc a t b⟩
    obtain ⟨a₀, b₀, heq, hbefore⟩ := exists_before hne hstands
    rw [heq] at h
    by_cases hhere : (done ++ a₀).length < 2 ^ 31
    · have hdone' := hdone.next hne hr hbefore
      rw [replaceFrom_behind hbefore hhere] at h
      rcases eq_or_later ht hbefore heq.symm with rfl | ⟨between, rfl, rfl⟩
      · rw [substituteOne_of_not_isInfix hbefore.not_isInfix, ← List.length_append] at hlate
        omega
      -- Behind the range no token is replaced any more, and the next one is there.
      by_cases hwide : (done ++ (a₀ ++ r)).length < 2 ^ 31
      · rw [toInt_eq_self_iff.mpr (by omega)] at h
        refine ih hdone' hwide ?_ h
        rw [substituteOne_before ht hbefore] at hlate
        simp only [List.length_append] at hlate ⊢
        omega
      · have hstands₁ : t <:+: between ++ (t ++ b) := ⟨between, b, List.append_assoc between t b⟩
        obtain ⟨a₁, b₁, heq₁, hbefore₁⟩ := exists_before hne hstands₁
        rw [heq₁, ← List.append_assoc (done ++ (a₀ ++ r))] at h
        refine infix_of_replaceFrom_late hlength hne hr hfree (toInt_range _).2
          (hdone'.before hfree hbefore₁) ?_ h
        rw [List.length_append]
        omega
    · rw [← List.append_assoc] at h
      exact infix_of_replaceFrom_late hlength hne hr hfree (by omega)
        (hdone.before hfree hbefore) (by omega) h

/-- **A pass beyond the range of an `int`** leaves a token in the line, if it ends at all. -/
theorem infix_of_not_reachable (ht : Apart [t]) (hlength : t.length < 2 ^ 31) (hr : Guarded t r)
    (hfree : ¬ t <:+: r) (hreach : ¬Reachable t r line) {rounds : ℕ} {result : Str}
    (h : replaceFrom t r rounds 0 line = .ok result) : t <:+: result := by
  simp only [Reachable, not_forall] at hreach
  obtain ⟨a, b, rfl, hlate⟩ := hreach
  have hdone : Done t r [] := fun _ _ h ↦ h
  refine infix_of_replaceFrom (a := a) (b := b) ht hlength hr hfree hdone (by simp) ?_ h
  simpa [hfree] using hlate

end Macros

end SlimTS

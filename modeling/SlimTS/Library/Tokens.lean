import Mathlib.Algebra.Order.Group.Nat
import Mathlib.Data.List.Infix

/-!
# Replacing tokens in a text

One pass over a text, from left to right, that replaces each of some tokens by a text of its own.
The tokens are `Apart`: no suffix of one begins another, or is begun by it, so occurrences of tokens
never overlap and a text has them in one way only. A replacement is `Guarded` when it begins and
ends with elements that stand in no token, so that nothing can be put together at its edges.

Passes compose. A pass for one more token, after a pass for some, is one pass for all of them,
in which the earlier replacements have gone through the later pass.
-/

namespace Tokens

variable {α : Type*}

/-! ## Tokens -/

/-- No token is empty, and none overlaps with another or with itself. -/
structure Apart (tokens : List (List α)) : Prop where
  ne_nil : ∀ t ∈ tokens, t ≠ []
  eq_of_overlap : ∀ t ∈ tokens, ∀ u ∈ tokens, ∀ v, v <:+ t → v ≠ [] → (v <+: u ∨ u <+: v) →
    v = t ∧ t = u

/-- The text is not empty, and what it begins and ends with does not stand in the token. -/
structure Guarded (t r : List α) : Prop where
  first : ∃ c, r.head? = some c ∧ c ∉ t
  last : ∃ c, r.getLast? = some c ∧ c ∉ t

variable {tokens : List (List α)} {t u r a b text : List α} {c : α}

theorem Apart.sublist {tokens' : List (List α)} (h : Apart tokens) (hsub : tokens' ⊆ tokens) :
    Apart tokens' :=
  ⟨fun t ht ↦ h.ne_nil t (hsub ht), fun t ht u hu ↦ h.eq_of_overlap t (hsub ht) u (hsub hu)⟩

/-- A token stands in front of a text that begins with another only if it is the other. -/
theorem Apart.eq_of_isPrefix (h : Apart tokens) (ht : t ∈ tokens) (hu : u ∈ tokens)
    (hstarts : u <+: t ++ text) : t = u :=
  (h.eq_of_overlap t ht u hu t List.suffix_rfl (h.ne_nil t ht)
    (List.prefix_or_prefix_of_prefix (List.prefix_append t text) hstarts)).2

/-- No token begins inside another. -/
theorem Apart.not_prefix_of_suffix (h : Apart tokens) (ht : t ∈ tokens) (hu : u ∈ tokens)
    {v : List α} (hv : v <:+ t) (hne : v ≠ []) (hproper : v ≠ t ∨ t ≠ u) :
    ¬ u <+: v ++ text := by
  intro hstarts
  obtain ⟨hvt, htu⟩ := h.eq_of_overlap t ht u hu v hv hne
    (List.prefix_or_prefix_of_prefix (List.prefix_append v text) hstarts)
  exact hproper.elim (· hvt) (· htu)

/-- What stands in front of a separator is in front of it. -/
theorem prefix_of_prefix_append_cons (hc : c ∉ t) (h : t <+: a ++ c :: b) : t <+: a := by
  rcases List.prefix_or_prefix_of_prefix h (List.prefix_append a (c :: b)) with h' | ⟨rest, rfl⟩
  · exact h'
  · cases rest with
    | nil => rw [List.append_nil]
    | cons d rest =>
      obtain ⟨tail, htail⟩ := h
      rw [List.append_assoc, List.append_cancel_left_eq, List.cons_append, List.cons.injEq] at htail
      exact absurd (List.mem_append_right a (htail.1 ▸ List.mem_cons_self)) hc

/-- A separator keeps occurrences apart. -/
theorem infix_append_cons (hc : c ∉ t) (hne : t ≠ []) (h : t <:+: a ++ c :: b) :
    t <:+: a ∨ t <:+: b := by
  induction a with
  | nil =>
    rcases List.infix_cons_iff.mp h with h | h
    · obtain ⟨d, t, rfl⟩ := List.exists_cons_of_ne_nil hne
      obtain ⟨rfl, -⟩ := List.cons_prefix_cons.mp h
      exact absurd List.mem_cons_self hc
    · exact .inr h
  | cons d a ih =>
    rcases List.infix_cons_iff.mp h with h | h
    · exact .inl (prefix_of_prefix_append_cons hc h).isInfix
    · exact (ih h).imp_left List.infix_cons

/-- What is guarded keeps occurrences apart. -/
theorem Guarded.infix_append (h : Guarded t r) (hne : t ≠ []) (hoccur : t <:+: a ++ (r ++ b)) :
    t <:+: a ∨ t <:+: r ∨ t <:+: b := by
  obtain ⟨c, hhead, hc⟩ := h.first
  obtain ⟨r, rfl⟩ := List.head?_eq_some_iff.mp hhead
  rw [List.cons_append] at hoccur
  refine (infix_append_cons hc hne hoccur).imp_right fun hoccur ↦ ?_
  obtain ⟨d, hlast, hd⟩ := h.last
  rcases List.eq_nil_or_concat r with rfl | ⟨r, d', rfl⟩
  · exact .inr hoccur
  · obtain rfl : d' = d := by
      rw [List.concat_eq_append, ← List.cons_append, List.getLast?_concat] at hlast
      exact Option.some.inj hlast
    rw [List.concat_eq_append, List.append_assoc, List.singleton_append] at hoccur
    refine (infix_append_cons hd hne hoccur).imp_left fun h ↦ ?_
    exact h.trans ((List.prefix_append r [d']).isInfix.trans
      (by rw [List.concat_eq_append]; exact (List.suffix_cons c _).isInfix))

/-! ## Weight -/

/-- What is counted in a text, element by element. -/
def weigh (w : α → ℕ) : List α → ℕ
  | [] => 0
  | c :: text => w c + weigh w text

@[simp] theorem weigh_nil (w : α → ℕ) : weigh w [] = 0 := rfl

theorem weigh_cons (w : α → ℕ) (c : α) (a : List α) : weigh w (c :: a) = w c + weigh w a := rfl

theorem weigh_append (w : α → ℕ) (a b : List α) : weigh w (a ++ b) = weigh w a + weigh w b := by
  induction a with
  | nil => rw [List.nil_append, weigh_nil, Nat.zero_add]
  | cons c a ih => rw [List.cons_append, weigh_cons, weigh_cons, ih, Nat.add_assoc]

theorem weigh_eq_zero {w : α → ℕ} {a : List α} (h : ∀ c ∈ a, w c = 0) : weigh w a = 0 := by
  induction a with
  | nil => rfl
  | cons c a ih =>
    rw [weigh_cons, h c List.mem_cons_self, ih fun d hd ↦ h d (List.mem_cons_of_mem c hd)]

theorem weigh_one (a : List α) : weigh (fun _ ↦ 1) a = a.length := by
  induction a with
  | nil => rfl
  | cons c a ih => rw [weigh_cons, ih, List.length_cons, Nat.add_comm]

/-! ## One pass -/

section Pass

variable [DecidableEq α]

/-- The token the text begins with. -/
def tokenAt (tokens : List (List α)) (text : List α) : Option (List α) :=
  tokens.find? fun t ↦ t.isPrefixOf text

/-- The pass, with the number of elements of a token that are still to be passed over. -/
def pass (tokens : List (List α)) (f : List α → List α) : ℕ → List α → List α
  | _, [] => []
  | skip + 1, _ :: text => pass tokens f skip text
  | 0, c :: text =>
    match tokenAt tokens (c :: text) with
    | some t => f t ++ pass tokens f (t.length - 1) text
    | none => c :: pass tokens f 0 text

/-- The text with each of the tokens replaced. -/
def substitute (tokens : List (List α)) (f : List α → List α) (text : List α) : List α :=
  pass tokens f 0 text

variable {f g : List α → List α}

theorem tokenAt_eq_none : tokenAt tokens text = none ↔ ∀ t ∈ tokens, ¬ t <+: text := by
  rw [tokenAt, List.find?_eq_none]
  simp only [List.isPrefixOf_iff_prefix]

theorem tokenAt_eq_some (h : tokenAt tokens text = some t) : t ∈ tokens ∧ t <+: text := by
  have hstarts : t.isPrefixOf text = true := by simpa using List.find?_some h
  exact ⟨List.mem_of_find?_eq_some h, List.isPrefixOf_iff_prefix.mp hstarts⟩

theorem tokenAt_append (h : Apart tokens) (ht : t ∈ tokens) (text : List α) :
    tokenAt tokens (t ++ text) = some t := by
  cases hat : tokenAt tokens (t ++ text) with
  | none => exact absurd (List.prefix_append t text) (tokenAt_eq_none.mp hat t ht)
  | some u =>
    obtain ⟨hu, hstarts⟩ := tokenAt_eq_some hat
    rw [h.eq_of_isPrefix ht hu hstarts]

@[simp] theorem substitute_nil : substitute tokens f [] = [] := rfl

theorem pass_append (skipped text : List α) :
    pass tokens f skipped.length (skipped ++ text) = substitute tokens f text := by
  induction skipped with
  | nil => rfl
  | cons c skipped ih => rw [List.cons_append, List.length_cons, pass, ih]

/-- A token the text begins with is replaced. -/
theorem substitute_of_tokenAt (hne : t ≠ []) (hat : tokenAt tokens (t ++ text) = some t) :
    substitute tokens f (t ++ text) = f t ++ substitute tokens f text := by
  obtain ⟨c, rest, rfl⟩ := List.exists_cons_of_ne_nil hne
  rw [List.cons_append] at hat
  rw [List.cons_append, substitute, pass, hat]
  exact congrArg _ (pass_append rest text)

/-- A token in front is replaced. -/
theorem substitute_token (h : Apart tokens) (ht : t ∈ tokens) (text : List α) :
    substitute tokens f (t ++ text) = f t ++ substitute tokens f text :=
  substitute_of_tokenAt (h.ne_nil t ht) (tokenAt_append h ht text)

/-- The only token there is is replaced where the text begins with it. It may overlap itself. -/
theorem substitute_singleton (hne : t ≠ []) (text : List α) :
    substitute [t] f (t ++ text) = f t ++ substitute [t] f text :=
  substitute_of_tokenAt hne
    (List.find?_cons_of_pos (List.isPrefixOf_iff_prefix.mpr (List.prefix_append t text)))

/-- An element that begins no token stays. -/
theorem substitute_cons (h : tokenAt tokens (c :: text) = none) :
    substitute tokens f (c :: text) = c :: substitute tokens f text := by
  rw [substitute, pass, h]
  rfl

/-- **Induction along the pass.** A text is empty, begins with a token, or begins with an element at
which no token begins. -/
theorem induction (h : Apart tokens) {motive : List α → Prop} (nil : motive [])
    (token : ∀ t ∈ tokens, ∀ text, motive text → motive (t ++ text))
    (cons : ∀ c text, tokenAt tokens (c :: text) = none → motive text → motive (c :: text))
    (text : List α) : motive text := by
  induction hlength : text.length using Nat.strong_induction_on generalizing text with
  | _ n ih =>
    cases text with
    | nil => exact nil
    | cons c text =>
      cases hat : tokenAt tokens (c :: text) with
      | none => exact cons c text hat (ih text.length (by simp [← hlength]) text rfl)
      | some t =>
        obtain ⟨ht, rest, hrest⟩ := tokenAt_eq_some hat
        have hpos := List.length_pos_iff.mpr (h.ne_nil t ht)
        have hsum := congrArg List.length hrest
        rw [List.length_append] at hsum
        rw [← hrest]
        exact token t ht rest (ih rest.length (by omega) rest rfl)

/-- A text without tokens stays. -/
theorem substitute_of_not_isInfix (hfree : ∀ t ∈ tokens, ¬ t <:+: text) :
    substitute tokens f text = text := by
  induction text with
  | nil => rfl
  | cons c text ih =>
    rw [substitute_cons (tokenAt_eq_none.mpr fun t ht hstarts ↦ hfree t ht hstarts.isInfix),
      ih fun t ht hoccur ↦ hfree t ht (List.infix_cons hoccur)]

/-- Elements at which no token begins stay. -/
theorem substitute_append (hfree : ∀ v, v <:+ a → v ≠ [] → ∀ t ∈ tokens, ¬ t <+: v ++ text) :
    substitute tokens f (a ++ text) = a ++ substitute tokens f text := by
  induction a with
  | nil => rfl
  | cons c a ih =>
    have hhere : tokenAt tokens (c :: (a ++ text)) = none :=
      tokenAt_eq_none.mpr (hfree (c :: a) List.suffix_rfl (List.cons_ne_nil c a))
    rw [List.cons_append, substitute_cons hhere,
      ih fun v hv hne ↦ hfree v (hv.trans (List.suffix_cons c a)) hne, List.cons_append]

/-- A token that is not replaced stays. -/
theorem substitute_other (h : Apart (u :: tokens)) (hu : u ∉ tokens) (text : List α) :
    substitute tokens f (u ++ text) = u ++ substitute tokens f text :=
  substitute_append fun _ hv hne _ ht ↦
    h.not_prefix_of_suffix List.mem_cons_self (List.mem_cons_of_mem u ht) hv hne
      (.inr fun heq ↦ hu (heq ▸ ht))

/-- The pass begins anew at a separator. -/
theorem substitute_append_cons (h : Apart tokens) (hc : ∀ t ∈ tokens, c ∉ t) (a b : List α) :
    substitute tokens f (a ++ c :: b) = substitute tokens f a ++ c :: substitute tokens f b := by
  induction a using induction h with
  | nil =>
    refine substitute_cons (tokenAt_eq_none.mpr fun t ht hstarts ↦ h.ne_nil t ht ?_)
    exact List.prefix_nil.mp (prefix_of_prefix_append_cons (a := []) (hc t ht) hstarts)
  | token _ ht a ih =>
    rw [List.append_assoc, substitute_token h ht, substitute_token h ht, ih, List.append_assoc]
  | cons d a hat ih =>
    have hat' : tokenAt tokens (d :: (a ++ c :: b)) = none :=
      tokenAt_eq_none.mpr fun t ht hstarts ↦
        tokenAt_eq_none.mp hat t ht (prefix_of_prefix_append_cons (a := d :: a) (hc t ht) hstarts)
    rw [List.cons_append, substitute_cons hat', ih, substitute_cons hat, List.cons_append]

/-- A token anywhere in the text is replaced. -/
theorem substitute_append_token (h : Apart tokens) (ht : t ∈ tokens) (a b : List α) :
    substitute tokens f (a ++ (t ++ b))
      = substitute tokens f a ++ (f t ++ substitute tokens f b) := by
  induction a using induction h with
  | nil => exact substitute_token h ht b
  | token _ hu a ih =>
    rw [List.append_assoc, substitute_token h hu, substitute_token h hu, ih, List.append_assoc]
  | cons c a hat ih =>
    have hat' : tokenAt tokens (c :: (a ++ (t ++ b))) = none := by
      refine tokenAt_eq_none.mpr fun u hu hstarts ↦ ?_
      rcases List.prefix_or_prefix_of_prefix hstarts (List.prefix_append (c :: a) (t ++ b)) with
        hhere | ⟨w, rfl⟩
      · exact tokenAt_eq_none.mp hat u hu hhere
      · -- Otherwise the end of a token would overlap with the token.
        have hw : w <+: t ++ b := (List.prefix_append_right_inj (c :: a)).mp hstarts
        rcases eq_or_ne w [] with rfl | hne
        · refine tokenAt_eq_none.mp hat _ hu ?_
          rw [List.append_nil]
        · have hwhole := (h.eq_of_overlap _ hu t ht w (List.suffix_append _ w) hne
            (List.prefix_or_prefix_of_prefix hw (List.prefix_append t b))).1
          exact List.cons_ne_nil c a (List.append_left_eq_self.mp hwhole.symm)
    rw [List.cons_append, substitute_cons hat', ih, substitute_cons hat, List.cons_append]

/-- The pass begins anew in front of what is guarded, and behind it. -/
theorem substitute_guarded (h : Apart tokens) (hr : ∀ t ∈ tokens, Guarded t r) (hne : tokens ≠ [])
    (a b : List α) : substitute tokens f (a ++ (r ++ b))
      = substitute tokens f a ++ (substitute tokens f r ++ substitute tokens f b) := by
  obtain ⟨t₀, ht₀⟩ := List.exists_mem_of_ne_nil tokens hne
  obtain ⟨c, hhead, -⟩ := (hr t₀ ht₀).first
  obtain ⟨d, hlast, -⟩ := (hr t₀ ht₀).last
  have hc : ∀ t ∈ tokens, c ∉ t := fun t ht ↦ by
    obtain ⟨c', hhead', hc'⟩ := (hr t ht).first
    rwa [Option.some.inj (hhead.symm.trans hhead')]
  have hd : ∀ t ∈ tokens, d ∉ t := fun t ht ↦ by
    obtain ⟨d', hlast', hd'⟩ := (hr t ht).last
    rwa [Option.some.inj (hlast.symm.trans hlast')]
  have hbehind : substitute tokens f (r ++ b) = substitute tokens f r ++ substitute tokens f b := by
    obtain ⟨r, rfl⟩ := List.getLast?_eq_some_iff.mp hlast
    rw [List.append_assoc, List.singleton_append, substitute_append_cons h hd,
      substitute_append_cons h hd, substitute_nil, List.append_assoc, List.singleton_append]
  -- Now the same in front.
  rw [← hbehind]
  obtain ⟨r, rfl⟩ := List.head?_eq_some_iff.mp hhead
  rw [List.cons_append, substitute_append_cons h hc,
    ← List.nil_append (c :: (r ++ b)), substitute_append_cons h hc, substitute_nil, List.nil_append]

/-! ## What a pass leaves -/

/-- The result is made of the text and the replacements. -/
theorem mem_of_mem_substitute (h : Apart tokens) (hc : c ∈ substitute tokens f text) :
    c ∈ text ∨ ∃ t ∈ tokens, c ∈ f t := by
  induction text using induction h with
  | nil => exact .inl hc
  | token t ht text ih =>
    rw [substitute_token h ht] at hc
    rcases List.mem_append.mp hc with hc | hc
    · exact .inr ⟨t, ht, hc⟩
    · exact (ih hc).imp_left (List.mem_append_right t)
  | cons d text hat ih =>
    rw [substitute_cons hat] at hc
    rcases List.mem_cons.mp hc with rfl | hc
    · exact .inl List.mem_cons_self
    · exact (ih hc).imp_left (List.mem_cons_of_mem d)

/-- Text that the pass has left, as far as it holds no beginning of a replacement. -/
theorem prefix_of_prefix_substitute (h : Apart tokens)
    (hfirst : ∀ u ∈ tokens, ∃ c, (f u).head? = some c ∧ c ∉ t)
    (hstarts : t <+: substitute tokens f text) : t <+: text := by
  induction text using induction h generalizing t with
  | nil => exact hstarts
  | token u hu text ih =>
    rw [substitute_token h hu] at hstarts
    -- Here a replacement begins, with an element that `t` does not have.
    obtain ⟨c, hhead, hc⟩ := hfirst u hu
    obtain ⟨rest, hrest⟩ := List.head?_eq_some_iff.mp hhead
    cases t with
    | nil => exact List.nil_prefix
    | cons d t =>
      rw [hrest, List.cons_append, List.cons_prefix_cons] at hstarts
      exact absurd (hstarts.1 ▸ List.mem_cons_self) hc
  | cons d text hat ih =>
    rw [substitute_cons hat] at hstarts
    cases t with
    | nil => exact List.nil_prefix
    | cons d' t =>
      obtain ⟨heq, htail⟩ := List.cons_prefix_cons.mp hstarts
      refine List.cons_prefix_cons.mpr ⟨heq, ih (fun u hu ↦ ?_) htail⟩
      obtain ⟨c, hhead, hc⟩ := hfirst u hu
      exact ⟨c, hhead, fun hmem ↦ hc (List.mem_cons_of_mem _ hmem)⟩

/-- A token that is replaced does not stand in the result, unless a replacement holds it. -/
theorem not_infix_substitute (h : Apart tokens) (ht : t ∈ tokens)
    (hguarded : ∀ u ∈ tokens, Guarded t (f u)) (hfree : ∀ u ∈ tokens, ¬ t <:+: f u)
    (text : List α) : ¬ t <:+: substitute tokens f text := by
  have hne := h.ne_nil t ht
  induction text using induction h with
  | nil => exact fun hoccur ↦ hne (List.infix_nil.mp hoccur)
  | token u hu text ih =>
    rw [substitute_token h hu]
    intro hoccur
    rcases (hguarded u hu).infix_append (a := []) hne hoccur with hoccur | hoccur | hoccur
    · exact hne (List.infix_nil.mp hoccur)
    · exact hfree u hu hoccur
    · exact ih hoccur
  | cons c text hat ih =>
    intro hoccur
    rw [substitute_cons hat] at hoccur
    -- One that begins here would begin in the text, where the pass has found none.
    rcases List.infix_cons_iff.mp hoccur with hstarts | hoccur
    · rw [← substitute_cons (f := f) hat] at hstarts
      exact tokenAt_eq_none.mp hat t ht
        (prefix_of_prefix_substitute h (fun u hu ↦ (hguarded u hu).first) hstarts)
    · exact ih hoccur

/-- Where a token stands in a text that begins with a token. -/
theorem infix_token_append (h : Apart tokens) (ht : t ∈ tokens) (hu : u ∈ tokens)
    (hoccur : u <:+: t ++ text) : u = t ∨ u <:+: text := by
  by_contra! hnot
  obtain ⟨hne, hfree⟩ := hnot
  -- No end of `t` begins another token, so `u` begins behind all of them.
  have hsuffix : ∀ v, v <:+ t → ¬ u <:+: v ++ text := by
    intro v hv
    induction v with
    | nil => exact hfree
    | cons c v ih =>
      intro hoccur
      rcases List.infix_cons_iff.mp hoccur with hstarts | hoccur
      · exact h.not_prefix_of_suffix ht hu hv (List.cons_ne_nil c v) (.inr (Ne.symm hne)) hstarts
      · exact ih ((List.suffix_cons c v).trans hv) hoccur
  exact hsuffix t List.suffix_rfl hoccur

/-- A token that is not replaced stays where it is. -/
theorem infix_substitute (h : Apart (u :: tokens)) (hu : u ∉ tokens) (hoccur : u <:+: text) :
    u <:+: substitute tokens f text := by
  have htokens : Apart tokens := h.sublist (List.subset_cons_self u tokens)
  induction text using induction htokens with
  | nil => exact hoccur
  | token t ht text ih =>
    rw [substitute_token htokens ht]
    rcases infix_token_append h (List.mem_cons_of_mem u ht) List.mem_cons_self hoccur with
      rfl | hoccur
    · exact absurd ht hu
    · exact (ih hoccur).trans (List.suffix_append _ _).isInfix
  | cons c text hat ih =>
    rcases List.infix_cons_iff.mp hoccur with ⟨rest, hrest⟩ | hoccur
    · rw [← hrest, substitute_other h hu]
      exact (List.prefix_append _ _).isInfix
    · rw [substitute_cons hat]
      exact List.infix_cons (ih hoccur)

/-! ## Two passes -/

/-- What an earlier replacement becomes in a later pass for one more token. -/
def extend (f : List α → List α) (t r : List α) (u : List α) : List α :=
  if u = t then r else substitute [t] (fun _ ↦ r) (f u)

/-- **Passes compose**: a pass for some tokens and then one for another are one pass. -/
theorem substitute_substitute (h : Apart (t :: tokens)) (ht : t ∉ tokens)
    (hguarded : ∀ u ∈ tokens, Guarded t (f u)) (text : List α) :
    substitute [t] (fun _ ↦ r) (substitute tokens f text)
      = substitute (t :: tokens) (extend f t r) text := by
  have htokens : Apart tokens := h.sublist (List.subset_cons_self t tokens)
  have hsingle : Apart [t] := h.sublist (by simp)
  induction text using induction h with
  | nil => rfl
  | token u hu text ih =>
    rw [substitute_token h hu, ← ih, extend]
    split
    · -- The token of the later pass is passed over by the earlier one.
      next heq =>
      rw [heq, substitute_other h ht, substitute_token hsingle List.mem_cons_self]
    · next hne =>
      have hu' : u ∈ tokens := (List.mem_cons.mp hu).resolve_left hne
      rw [substitute_token htokens hu', ← List.nil_append (f u ++ _),
        substitute_guarded hsingle (by simpa using hguarded u hu') (List.cons_ne_nil _ _),
        substitute_nil, List.nil_append]
  | cons c text hat ih =>
    have hat' : tokenAt tokens (c :: text) = none :=
      tokenAt_eq_none.mpr fun u hu ↦ tokenAt_eq_none.mp hat u (List.mem_cons_of_mem t hu)
    -- What the earlier pass has put in does not complete a token that begins here.
    have hfirst : tokenAt [t] (c :: substitute tokens f text) = none := by
      refine tokenAt_eq_none.mpr fun u hu hstarts ↦ ?_
      rw [List.mem_singleton.mp hu, ← substitute_cons (f := f) hat'] at hstarts
      exact tokenAt_eq_none.mp hat t List.mem_cons_self
        (prefix_of_prefix_substitute htokens (fun u hu ↦ (hguarded u hu).first) hstarts)
    rw [substitute_cons hat', substitute_cons hfirst, ih, substitute_cons hat]

/-! ## Comparing replacements -/

/-- Tokens replaced by themselves. -/
theorem substitute_id (h : Apart tokens) (text : List α) : substitute tokens id text = text := by
  induction text using induction h with
  | nil => rfl
  | token t ht text ih => rw [substitute_token h ht, ih, id]
  | cons c text hat ih => rw [substitute_cons hat, ih]

/-- A text whose tokens are replaced by texts of a bounded length. -/
theorem length_substitute_le (h : Apart tokens) {m : ℕ} (hm : 1 ≤ m)
    (hlength : ∀ t ∈ tokens, (f t).length ≤ m) (text : List α) :
    (substitute tokens f text).length ≤ text.length * m := by
  induction text using induction h with
  | nil => exact Nat.zero_le _
  | token t ht text ih =>
    have hpos := List.length_pos_iff.mpr (h.ne_nil t ht)
    rw [substitute_token h ht, List.length_append, List.length_append, Nat.add_mul]
    exact Nat.add_le_add ((hlength t ht).trans (Nat.le_mul_of_pos_left m hpos)) ih
  | cons c text hat ih =>
    rw [substitute_cons hat, List.length_cons, List.length_cons, Nat.add_mul, Nat.one_mul]
    exact Nat.add_le_add ih hm

/-- Replacements that agree on the tokens that stand in the text. -/
theorem substitute_congr (h : Apart tokens) (heq : ∀ t ∈ tokens, t <:+: text → f t = g t) :
    substitute tokens f text = substitute tokens g text := by
  induction text using induction h with
  | nil => rfl
  | token t ht text ih =>
    rw [substitute_token h ht, substitute_token h ht, heq t ht (List.prefix_append t text).isInfix,
      ih fun u hu hoccur ↦ heq u hu (hoccur.trans (List.suffix_append t text).isInfix)]
  | cons c text hat ih =>
    rw [substitute_cons hat, substitute_cons hat,
      ih fun u hu hoccur ↦ heq u hu (List.infix_cons hoccur)]

/-- Heavier replacements make a heavier text. -/
theorem weigh_substitute_le (h : Apart tokens) {w : α → ℕ}
    (hle : ∀ t ∈ tokens, t <:+: text → weigh w (f t) ≤ weigh w (g t)) :
    weigh w (substitute tokens f text) ≤ weigh w (substitute tokens g text) := by
  induction text using induction h with
  | nil => exact le_rfl
  | token t ht text ih =>
    rw [substitute_token h ht, substitute_token h ht, weigh_append, weigh_append]
    exact Nat.add_le_add (hle t ht (List.prefix_append t text).isInfix)
      (ih fun u hu hoccur ↦ hle u hu (hoccur.trans (List.suffix_append t text).isInfix))
  | cons c text hat ih =>
    rw [substitute_cons hat, substitute_cons hat, weigh_cons, weigh_cons]
    exact Nat.add_le_add_left (ih fun u hu hoccur ↦ hle u hu (List.infix_cons hoccur)) _

/-- One heavier replacement that is made makes a heavier text. -/
theorem weigh_substitute_lt (h : Apart tokens) {w : α → ℕ}
    (hle : ∀ t ∈ tokens, t <:+: text → weigh w (f t) ≤ weigh w (g t)) (ht : t ∈ tokens)
    (hoccur : t <:+: text) (hlt : weigh w (f t) < weigh w (g t)) :
    weigh w (substitute tokens f text) < weigh w (substitute tokens g text) := by
  induction text using induction h with
  | nil => exact absurd (List.infix_nil.mp hoccur) (h.ne_nil t ht)
  | token u hu text ih =>
    have hrest : ∀ v ∈ tokens, v <:+: text → weigh w (f v) ≤ weigh w (g v) := fun v hv hoccur ↦
      hle v hv (hoccur.trans (List.suffix_append u text).isInfix)
    rw [substitute_token h hu, substitute_token h hu, weigh_append, weigh_append]
    rcases infix_token_append h hu ht hoccur with rfl | hoccur
    · exact Nat.add_lt_add_of_lt_of_le hlt (weigh_substitute_le h hrest)
    · exact Nat.add_lt_add_of_le_of_lt (hle u hu (List.prefix_append u text).isInfix)
        (ih hrest hoccur)
  | cons c text hat ih =>
    rw [substitute_cons hat, substitute_cons hat, weigh_cons, weigh_cons]
    refine Nat.add_lt_add_left (ih (fun u hu hoccur ↦ hle u hu (List.infix_cons hoccur)) ?_) _
    exact (List.infix_cons_iff.mp hoccur).resolve_left (tokenAt_eq_none.mp hat t ht)

/-- Replacements that are no lighter than the tokens make the text no lighter. -/
theorem weigh_le_substitute (h : Apart tokens) {w : α → ℕ}
    (hle : ∀ t ∈ tokens, t <:+: text → weigh w t ≤ weigh w (f t)) :
    weigh w text ≤ weigh w (substitute tokens f text) := by
  have hweigh := weigh_substitute_le (f := id) h hle
  rwa [substitute_id h] at hweigh

theorem weigh_lt_substitute (h : Apart tokens) {w : α → ℕ}
    (hle : ∀ t ∈ tokens, t <:+: text → weigh w t ≤ weigh w (f t)) (ht : t ∈ tokens)
    (hoccur : t <:+: text) (hlt : weigh w t < weigh w (f t)) :
    weigh w text < weigh w (substitute tokens f text) := by
  have hweigh := weigh_substitute_lt (f := id) h hle ht hoccur hlt
  rwa [substitute_id h] at hweigh

/-- Replacements that are no heavier than the tokens make the text no heavier. -/
theorem weigh_substitute_le_weigh (h : Apart tokens) {w : α → ℕ}
    (hle : ∀ t ∈ tokens, t <:+: text → weigh w (f t) ≤ weigh w t) :
    weigh w (substitute tokens f text) ≤ weigh w text := by
  have hweigh := weigh_substitute_le (g := id) h hle
  rwa [substitute_id h] at hweigh

theorem weigh_substitute_lt_weigh (h : Apart tokens) {w : α → ℕ}
    (hle : ∀ t ∈ tokens, t <:+: text → weigh w (f t) ≤ weigh w t) (ht : t ∈ tokens)
    (hoccur : t <:+: text) (hlt : weigh w (f t) < weigh w t) :
    weigh w (substitute tokens f text) < weigh w text := by
  have hweigh := weigh_substitute_lt (g := id) h hle ht hoccur hlt
  rwa [substitute_id h] at hweigh

/-- Replacements as long as each other can be told apart in the result. -/
theorem eq_of_substitute_eq (h : Apart tokens) (hlength : ∀ t ∈ tokens, (f t).length = (g t).length)
    (heq : substitute tokens f text = substitute tokens g text) (ht : t ∈ tokens)
    (hoccur : t <:+: text) : f t = g t := by
  induction text using induction h with
  | nil => exact absurd (List.infix_nil.mp hoccur) (h.ne_nil t ht)
  | token u hu text ih =>
    rw [substitute_token h hu, substitute_token h hu] at heq
    obtain ⟨hhere, hrest⟩ := List.append_inj heq (hlength u hu)
    rcases infix_token_append h hu ht hoccur with rfl | hoccur
    · exact hhere
    · exact ih hrest hoccur
  | cons c text hat ih =>
    rw [substitute_cons hat, substitute_cons hat] at heq
    exact ih (List.cons.inj heq).2
      ((List.infix_cons_iff.mp hoccur).resolve_left (tokenAt_eq_none.mp hat t ht))

end Pass

end Tokens

import Mathlib

/-!
# Doubles that count

The `double` is the binary64 number of Lean's own model, which adds by unpacking two numbers, adding
them exactly and rounding the sum. This module says what becomes of natural numbers there, and what
a stream writes for a `double`.

## No rounding

A natural number below `2 ^ 53` has its bits in the mantissa, whatever the exponent it is given
with: rounding only moves zeros in and out behind it (`round_exact`). So it is packed and unpacked
unchanged, and a sum that stays below `2 ^ 53` is exact (`ofNat_add_ofNat`).

## Six digits

A stream writes the number of significant digits it has been told, six if it has been told nothing,
and leaves out the zeros at the end of a fraction. A natural number of no more digits is written as
it is (`shown_ofNat`); 1000001 is written `1e+06`.
-/

open Float.Model Float.Model.UnpackedFloat Float.Model.Format

/-- A `double`. The values that are no numbers are one. -/
abbrev Double := Float.Model

namespace Double

/-! ## Numbers that are not rounded -/

theorem log2_mul_two_pow {n : ℕ} (hn : n ≠ 0) (k : ℕ) : (n * 2 ^ k).log2 = n.log2 + k := by
  rw [Nat.log2_eq_iff (Nat.mul_ne_zero hn (Nat.two_pow_pos k).ne')]
  obtain ⟨hle, hlt⟩ := (Nat.log2_eq_iff hn).mp rfl
  have hpow : 2 ^ (n.log2 + k + 1) = 2 ^ (n.log2 + 1) * 2 ^ k := by ring
  rw [hpow, pow_add]
  exact ⟨Nat.mul_le_mul_right _ hle, Nat.mul_lt_mul_of_pos_right hlt (Nat.two_pow_pos k)⟩

/-- Zeros are shifted out without a trace. -/
theorem shiftRight_exact (n k : ℕ) :
    (⟨n * 2 ^ k, false, false⟩ : ExtendedMantissa) >>> k = ⟨n, false, false⟩ := by
  change Nat.repeat ExtendedMantissa.shiftRightOne k _ = _
  induction k generalizing n with
  | zero => rw [pow_zero, mul_one, Nat.repeat]
  | succ k ih =>
    have hpow : n * 2 ^ (k + 1) = n * 2 * 2 ^ k := by ring
    rw [hpow, Nat.repeat, ih, ExtendedMantissa.shiftRightOne]
    simp

/-- The exponent of a number does not depend on the zeros it is written with. -/
theorem targetExponent_totalExponent {n : ℕ} (hn : n ≠ 0) (k : ℕ) :
    binary64.targetExponent (totalExponent (n * 2 ^ k) (-k)) = n.log2 - 52 := by
  rw [totalExponent, log2_mul_two_pow hn, targetExponent]
  simp only [minExponent, mantissaBits]
  omega

theorem shiftToTargetExponent_exact {n : ℕ} (hn : n ≠ 0) (hlog : n.log2 ≤ 52) {k : ℕ}
    (hk : 52 ≤ n.log2 + k) :
    shiftToTargetExponent binary64 (n * 2 ^ k) (-k) .exact
      = (⟨n * 2 ^ (52 - n.log2), false, false⟩, (n.log2 : ℤ) - 52) := by
  obtain ⟨i, rfl⟩ : ∃ i, k = 52 - n.log2 + i := ⟨n.log2 + k - 52, by omega⟩
  rw [shiftToTargetExponent, targetExponent_totalExponent hn, shiftToExponent]
  have hshift : ((n.log2 : ℤ) - 52 - -((52 - n.log2 + i : ℕ) : ℤ)).toNat = i := by omega
  rw [hshift, ExtendedMantissa.ofMantissaAndAccuracy, pow_add, ← mul_assoc, shiftRight_exact,
    Prod.mk.injEq]
  exact ⟨rfl, by omega⟩

theorem log2_le {n : ℕ} (hn : n ≠ 0) (hlt : n < 2 ^ 53) : n.log2 ≤ 52 :=
  Nat.lt_succ_iff.mp ((Nat.log2_lt hn).mpr hlt)

theorem shifted_pos {n : ℕ} (hn : n ≠ 0) (k : ℕ) : 0 < n * 2 ^ k :=
  Nat.mul_pos (Nat.pos_of_ne_zero hn) (Nat.two_pow_pos k)

/-- **A number below `2 ^ 53` is not rounded**, however many zeros it is written with. -/
theorem round_exact {n : ℕ} (hn : n ≠ 0) (hlt : n < 2 ^ 53) (k : ℕ) (sign : Sign) :
    UnpackedFloat.round binary64 sign (n * 2 ^ k) (-k)
      = .finite sign (n * 2 ^ (52 - n.log2)) (n.log2 - 52) (shifted_pos hn _) := by
  have hlog := log2_le hn hlt
  have hdecrease : decreaseExponent (n * 2 ^ k) (-k) ((n.log2 : ℤ) - 52)
      = (n * 2 ^ (max k (52 - n.log2)), -((max k (52 - n.log2) : ℕ) : ℤ)) := by
    have hshift : (-(k : ℤ) - ((n.log2 : ℤ) - 52)).toNat = max k (52 - n.log2) - k := by omega
    have hmax : k + (max k (52 - n.log2) - k) = max k (52 - n.log2) := by omega
    rw [decreaseExponent, hshift, Nat.shiftLeft_eq, mul_assoc, ← pow_add, hmax, Prod.mk.injEq]
    exact ⟨rfl, by omega⟩
  have hfirst : shiftToTargetExponent binary64 (n * 2 ^ (max k (52 - n.log2)))
      (-((max k (52 - n.log2) : ℕ) : ℤ)) .exact
        = (⟨n * 2 ^ (52 - n.log2), false, false⟩, (n.log2 : ℤ) - 52) :=
    shiftToTargetExponent_exact hn hlog (by omega)
  -- The mantissa has its length by now, so the second shift moves nothing.
  have hsecond : shiftToTargetExponent binary64 (n * 2 ^ (52 - n.log2)) ((n.log2 : ℤ) - 52) .exact
      = (⟨n * 2 ^ (52 - n.log2), false, false⟩, (n.log2 : ℤ) - 52) := by
    have hexponent : (n.log2 : ℤ) - 52 = -((52 - n.log2 : ℕ) : ℤ) := by omega
    rw [hexponent, shiftToTargetExponent_exact hn hlog (by omega), hexponent]
  rw [UnpackedFloat.round, targetExponent_totalExponent hn]
  simp only [hdecrease, roundWithAccuracy, hfirst, ExtendedMantissa.roundedMantissa,
    ExtendedMantissa.accuracy, Accuracy.roundToNearestEven, hsecond]
  exact dif_neg (shifted_pos hn _).ne'

/-! ## Packing -/

/-- The first bit of a mantissa of full length is the one that is left out. -/
theorem toNat_one_append {m : ℕ} (hle : 2 ^ 52 ≤ m) (hlt : m < 2 ^ 53) :
    (1#1 ++ BitVec.ofNat 52 m).toNat = m := by
  have hone : (1#1 : BitVec 1).toNat = 1 := rfl
  rw [BitVec.toNat_append, hone, BitVec.toNat_ofNat,
    ← Nat.shiftLeft_add_eq_or_of_lt (Nat.mod_lt _ (by decide)), Nat.shiftLeft_eq]
  omega

theorem ofNat_ne_ofNat {biased other : ℕ} (hbiased : biased < 2 ^ 11) (hother : other < 2 ^ 11)
    (hne : biased ≠ other) : BitVec.ofNat 11 biased ≠ BitVec.ofNat 11 other := by
  intro h
  have hnat := congrArg BitVec.toNat h
  rw [BitVec.toNat_ofNat, BitVec.toNat_ofNat, Nat.mod_eq_of_lt hbiased,
    Nat.mod_eq_of_lt hother] at hnat
  exact hne hnat

/-- A number with a mantissa of full length is unpacked as it was packed. -/
theorem unpack_pack {m : ℕ} (hle : 2 ^ 52 ≤ m) (hlt : m < 2 ^ 53) {exponent : ℤ}
    (hmin : -1074 ≤ exponent) (hmax : exponent ≤ 971) (sign : Sign) (hpos : 0 < m) :
    UnpackedFloat.unpack binary64 (UnpackedFloat.pack binary64 (.finite sign m exponent hpos))
      = .finite sign m exponent hpos := by
  obtain ⟨biased, rfl⟩ : ∃ biased : ℕ, exponent = biased - 1075 :=
    ⟨(exponent + 1075).toNat, by omega⟩
  have hbiased : biased < 2 ^ 11 := by omega
  have hpack : UnpackedFloat.pack binary64 (.finite sign m (biased - 1075) hpos)
      = packComponents binary64 sign (BitVec.ofNat 11 biased) (BitVec.ofNat 52 m) := by
    have hlog : m.log2 = 52 := (Nat.log2_eq_iff hpos.ne').mpr ⟨hle, hlt⟩
    have hnat : ((biased : ℤ) - 1075 + 1023 + 52).toNat = biased := by omega
    rw [UnpackedFloat.pack]
    simp [exponentBias, mantissaBits, hlog, hnat]
    omega
  have hones : BitVec.ofNat 11 biased ≠ -1#11 := by
    have hall : -1#11 = BitVec.ofNat 11 2047 := by decide
    exact hall ▸ ofNat_ne_ofNat hbiased (by decide) (by omega)
  have hzero : BitVec.ofNat 11 biased ≠ 0#11 := ofNat_ne_ofNat hbiased (by decide) (by omega)
  have hofNat : (BitVec.ofNat 11 biased).toNat = biased := by
    rw [BitVec.toNat_ofNat, Nat.mod_eq_of_lt hbiased]
  rw [hpack, UnpackedFloat.unpack]
  simp only [unpackExponent_packComponents, unpackMantissa_packComponents,
    unpackSign_packComponents, if_neg hones, if_neg hzero, hofNat, UnpackedFloat.finite.injEq]
  refine ⟨Sign.ofBitVec_toBitVec sign, toNat_one_append hle hlt, ?_⟩
  have hbias : (binary64.exponentBias : ℤ) = 1023 := rfl
  omega

/-! ## Natural numbers -/

/-- What a natural number is, unpacked. -/
theorem ofNat_eq_finite {n : ℕ} (hn : n ≠ 0) (hlt : n < 2 ^ 53) : UnpackedFloat.ofNat binary64 n
    = .finite .positive (n * 2 ^ (52 - n.log2)) (n.log2 - 52) (shifted_pos hn _) := by
  have hcompare : compare (n : ℤ) 0 = .gt := compare_gt_iff_gt.mpr (by omega)
  have hround := round_exact hn hlt 0 .positive
  rw [pow_zero, mul_one] at hround
  rw [UnpackedFloat.ofNat, UnpackedFloat.ofInt, UnpackedFloat.normalize, hcompare]
  exact hround

/-- **A natural number is kept.** -/
theorem unpack_ofNat {n : ℕ} (hlt : n < 2 ^ 53) :
    (Float.Model.ofNat n).unpack = UnpackedFloat.ofNat binary64 n := by
  by_cases hn : n = 0
  · rw [hn]
    rfl
  · obtain ⟨hle, hlog⟩ := (Nat.log2_eq_iff (shifted_pos hn (52 - n.log2)).ne').mp
      ((log2_mul_two_pow hn _).trans (Nat.add_sub_cancel' (log2_le hn hlt)))
    rw [Float.Model.ofNat, Float.Model.pack, Float.Model.unpack, ofNat_eq_finite hn hlt]
    exact unpack_pack hle hlog (by omega) (by have := log2_le hn hlt; omega) _ _

/-- Two numbers are written with the exponent of the smaller one. -/
theorem decreaseExponent_exact {n : ℕ} (hn : n ≠ 0) (hlt : n < 2 ^ 53) {k : ℕ}
    (hk : 52 ≤ n.log2 + k) :
    (decreaseExponent (n * 2 ^ (52 - n.log2)) (n.log2 - 52) (-k)).1 = n * 2 ^ k := by
  have hlog := log2_le hn hlt
  have hshift : ((n.log2 : ℤ) - 52 - -(k : ℤ)).toNat = n.log2 + k - 52 := by omega
  have hsum : 52 - n.log2 + (n.log2 + k - 52) = k := by omega
  rw [decreaseExponent, hshift, Nat.shiftLeft_eq, mul_assoc, ← pow_add, hsum]

theorem add_ofNat {m n : ℕ} (h : m + n < 2 ^ 53) :
    UnpackedFloat.add binary64 (UnpackedFloat.ofNat binary64 m) (UnpackedFloat.ofNat binary64 n)
      = UnpackedFloat.ofNat binary64 (m + n) := by
  have hzero : UnpackedFloat.ofNat binary64 0 = .zero .positive := rfl
  by_cases hm : m = 0
  · by_cases hn : n = 0
    · rw [hm, hn]
      rfl
    · rw [hm, Nat.zero_add, hzero, ofNat_eq_finite hn (by omega)]
      rfl
  by_cases hn : n = 0
  · rw [hn, Nat.add_zero, hzero, ofNat_eq_finite hm (by omega)]
    rfl
  obtain ⟨k, hk⟩ : ∃ k : ℕ, min ((m.log2 : ℤ) - 52) (n.log2 - 52) = -k := by
    have := log2_le hm (by omega)
    exact ⟨52 - min m.log2 n.log2, by omega⟩
  have hsign : Sign.positive.apply ((m * 2 ^ k : ℕ) : ℤ) + Sign.positive.apply ((n * 2 ^ k : ℕ) : ℤ)
      = (((m + n) * 2 ^ k : ℕ) : ℤ) := by
    rw [Sign.apply, Sign.apply]
    push_cast
    ring
  have hcompare : compare (((m + n) * 2 ^ k : ℕ) : ℤ) 0 = .gt :=
    compare_gt_iff_gt.mpr (Int.natCast_pos.mpr (shifted_pos (by omega) _))
  rw [ofNat_eq_finite hm (by omega), ofNat_eq_finite hn (by omega),
    ofNat_eq_finite (by omega : m + n ≠ 0) h, ← round_exact (by omega) h k, UnpackedFloat.add]
  simp only [hk, decreaseExponent_exact hm (by omega) (k := k) (by omega),
    decreaseExponent_exact hn (by omega) (k := k) (by omega), hsign, UnpackedFloat.normalize,
    hcompare, Int.toNat_natCast]

/-- **Sums below `2 ^ 53` are exact.** -/
theorem ofNat_add_ofNat {m n : ℕ} (h : m + n < 2 ^ 53) :
    Float.Model.ofNat m + Float.Model.ofNat n = Float.Model.ofNat (m + n) := by
  change Float.Model.add _ _ = _
  rw [Float.Model.add, unpack_ofNat (by omega), unpack_ofNat (by omega), add_ofNat h]
  rfl

/-! ## What a stream writes -/

/-- The nearest natural number, and the even one of two. -/
def roundEven (x : ℚ) : ℕ :=
  if x - ⌊x⌋₊ < 1 / 2 ∨ (x - ⌊x⌋₊ = 1 / 2 ∧ ⌊x⌋₊ % 2 = 0) then ⌊x⌋₊ else ⌊x⌋₊ + 1

/-- The significant digits of a positive number, as one number, and the exponent of the first. -/
def significant (precision : ℕ) (x : ℚ) : ℕ × ℤ :=
  let exponent := Int.log 10 x
  let digits := roundEven (x * 10 ^ ((precision : ℤ) - 1 - exponent))
  -- Rounding may give a number with one digit more.
  if digits < 10 ^ precision then (digits, exponent) else (10 ^ (precision - 1), exponent + 1)

/-- A number with a fraction, whose last zeros are left out. -/
def withFraction (whole fraction : List Char) : List Char :=
  match fraction.rdropWhile (· = '0') with
  | [] => whole
  | digits => whole ++ '.' :: digits

/-- An exponent has a sign and two digits at least. -/
def shownExponent (exponent : ℤ) : List Char :=
  (if exponent < 0 then '-' else '+') ::
    (if exponent.natAbs < 10 then ['0'] else []) ++ Nat.toDigits 10 exponent.natAbs

/-- A positive number, as `%g` writes it. -/
def shownPositive (precision : ℕ) (x : ℚ) : List Char :=
  let exponent := (significant precision x).2
  let digits := Nat.toDigits 10 (significant precision x).1
  if exponent < -4 ∨ (precision : ℤ) ≤ exponent then
    withFraction (digits.take 1) (digits.drop 1) ++ 'e' :: shownExponent exponent
  else if exponent < 0 then
    withFraction ['0'] (List.replicate (exponent.natAbs - 1) '0' ++ digits)
  else withFraction (digits.take (exponent.natAbs + 1)) (digits.drop (exponent.natAbs + 1))

/-- The sign of what is written. -/
def shownSign : Sign → List Char
  | .negative => ['-']
  | .positive => []

/-- A `double`, as a stream with the given precision writes it. -/
def shown (precision : ℕ) (d : Double) : List Char :=
  match d.unpack with
  | .notANumber => "nan".toList
  | .infinity sign => shownSign sign ++ "inf".toList
  | .zero sign => shownSign sign ++ ['0']
  | .finite sign mantissa exponent _ =>
    shownSign sign ++ shownPositive precision (mantissa * 2 ^ exponent)

/-! ## Natural numbers are written as they are -/

theorem roundEven_natCast (n : ℕ) : roundEven n = n := by
  rw [roundEven, Nat.floor_natCast, sub_self, if_pos (.inl (by norm_num))]

/-- A power of ten adds zeros. -/
theorem toDigits_mul_ten_pow {n : ℕ} (hn : 0 < n) (k : ℕ) :
    Nat.toDigits 10 (n * 10 ^ k) = Nat.toDigits 10 n ++ List.replicate k '0' := by
  induction k with
  | zero => rw [pow_zero, mul_one, List.replicate_zero, List.append_nil]
  | succ k ih =>
    have hpow : n * 10 ^ (k + 1) = 10 * (n * 10 ^ k) + 0 := by ring
    rw [hpow, ← Nat.toDigits_append_toDigits (by decide) (Nat.mul_pos hn (by positivity))
      (by decide), ih, Nat.toDigits_zero, List.append_assoc, List.replicate_succ']

theorem length_toDigits {n : ℕ} (hn : n ≠ 0) :
    (Nat.toDigits 10 n).length = Nat.log 10 n + 1 := by
  refine le_antisymm ?_ ?_
  · exact (Nat.length_toDigits_le_iff (by decide) (Nat.succ_pos _)).mpr
      (Nat.lt_pow_succ_log_self (by decide) n)
  · rcases hlog : Nat.log 10 n with - | k
    · exact Nat.length_toDigits_pos
    · refine Nat.lt_of_not_le fun hle ↦ ?_
      have hlt := (Nat.length_toDigits_le_iff (by decide) (Nat.succ_pos k)).mp hle
      exact (Nat.log_lt_of_lt_pow hn hlt).ne hlog

theorem withFraction_replicate (whole : List Char) (k : ℕ) :
    withFraction whole (List.replicate k '0') = whole := by
  have hdrop : (List.replicate k '0').rdropWhile (· = '0') = [] :=
    List.rdropWhile_eq_nil_iff.mpr fun c hc ↦ decide_eq_true (List.eq_of_mem_replicate hc)
  rw [withFraction, hdrop]

/-- The digits of a natural number that has no more are significant. -/
theorem significant_natCast {precision n : ℕ} (hn : n ≠ 0) (hlt : n < 10 ^ precision) :
    significant precision n = (n * 10 ^ (precision - 1 - Nat.log 10 n), (Nat.log 10 n : ℤ)) := by
  have hlog : Nat.log 10 n < precision := Nat.log_lt_of_lt_pow hn hlt
  have hexponent : (precision : ℤ) - 1 - Nat.log 10 n
      = ((precision - 1 - Nat.log 10 n : ℕ) : ℤ) := by omega
  have hdigits : (n : ℚ) * 10 ^ ((precision - 1 - Nat.log 10 n : ℕ) : ℤ)
      = ((n * 10 ^ (precision - 1 - Nat.log 10 n) : ℕ) : ℚ) := by
    push_cast
    rw [zpow_natCast]
  have hbound : n * 10 ^ (precision - 1 - Nat.log 10 n) < 10 ^ precision := by
    have hpow : 10 ^ precision = 10 ^ (Nat.log 10 n + 1) * 10 ^ (precision - 1 - Nat.log 10 n) := by
      rw [← pow_add]
      congr 1
      omega
    rw [hpow]
    exact Nat.mul_lt_mul_of_pos_right (Nat.lt_pow_succ_log_self (by decide) n) (by positivity)
  simp only [significant, Int.log_natCast, hexponent, hdigits, roundEven_natCast,
    if_pos hbound]

theorem shownPositive_natCast {precision n : ℕ} (hn : n ≠ 0) (hlt : n < 10 ^ precision) :
    shownPositive precision n = Nat.toDigits 10 n := by
  have hlog : Nat.log 10 n < precision := Nat.log_lt_of_lt_pow hn hlt
  have hlength := length_toDigits hn
  rw [shownPositive, significant_natCast hn hlt,
    toDigits_mul_ten_pow (Nat.pos_of_ne_zero hn)]
  have hfixed : ¬((Nat.log 10 n : ℤ) < -4 ∨ (precision : ℤ) ≤ Nat.log 10 n) := by omega
  have hwhole : ¬(Nat.log 10 n : ℤ) < 0 := by omega
  simp only [if_neg hfixed, if_neg hwhole, Int.natAbs_natCast, ← hlength, List.take_left',
    List.drop_left', withFraction_replicate]

/-- **A natural number is written as it is** if it has no more digits than the stream writes. -/
theorem shown_ofNat {precision n : ℕ} (hlt : n < 2 ^ 53) (hdigits : n < 10 ^ precision) :
    shown precision (Float.Model.ofNat n) = Nat.toDigits 10 n := by
  by_cases hn : n = 0
  · rw [hn]
    rfl
  · have hlog := log2_le hn hlt
    have hvalue : ((n * 2 ^ (52 - n.log2) : ℕ) : ℚ) * 2 ^ ((n.log2 : ℤ) - 52) = n := by
      have hexponent : (n.log2 : ℤ) - 52 = -((52 - n.log2 : ℕ) : ℤ) := by omega
      push_cast
      rw [hexponent, zpow_neg, zpow_natCast, mul_assoc, mul_inv_cancel₀ (by positivity), mul_one]
    rw [shown, unpack_ofNat hlt, ofNat_eq_finite hn hlt]
    simp only [hvalue, shownPositive_natCast hn hdigits]
    rfl

/-- A seventh digit is lost. -/
example : shown 6 (Float.Model.ofNat 1000001) = "1e+06".toList := by decide +kernel

/-! ## Words -/

/-- A text of digits and a few signs. -/
def Word (text : List Char) : Prop := ∀ c ∈ text, c.isDigit ∨ c ∈ "+-.einfa".toList

theorem Word.not_mem {text : List Char} (h : Word text) {c : Char} (hdigit : ¬c.isDigit)
    (hsign : c ∉ "+-.einfa".toList) : c ∉ text := fun hc ↦ (h c hc).elim hdigit hsign

theorem word_toDigits (n : ℕ) : Word (Nat.toDigits 10 n) := fun _ h ↦
  .inl (Nat.isDigit_of_mem_toDigits (by decide) (by decide) h)

theorem Word.append {text text' : List Char} (h : Word text) (h' : Word text') :
    Word (text ++ text') := fun c hc ↦ (List.mem_append.mp hc).elim (h c) (h' c)

theorem Word.mono {text text' : List Char} (h : Word text') (hsub : text ⊆ text') : Word text :=
  fun c hc ↦ h c (hsub hc)

theorem word_withFraction {whole fraction : List Char} (hwhole : Word whole)
    (hfraction : Word fraction) : Word (withFraction whole fraction) := by
  rw [withFraction]
  split
  · exact hwhole
  · refine hwhole.append fun c hc ↦ (List.mem_cons.mp hc).elim (fun hpoint ↦ ?_) fun hdigits ↦ ?_
    · exact .inr (hpoint ▸ by decide)
    · exact hfraction c ((List.rdropWhile_prefix _ _).subset hdigits)

theorem word_shownExponent (exponent : ℤ) : Word (shownExponent exponent) := by
  refine .append ?_ (word_toDigits _)
  intro c hc
  rcases List.mem_cons.mp hc with rfl | hc
  · split
    · exact .inr (by decide)
    · exact .inr (by decide)
  · split at hc
    · exact .inl (List.mem_singleton.mp hc ▸ by decide)
    · cases hc

theorem word_shownPositive (precision : ℕ) (x : ℚ) : Word (shownPositive precision x) := by
  have hdigits := word_toDigits (significant precision x).1
  rw [shownPositive]
  split
  · refine (word_withFraction (hdigits.mono (List.take_subset _ _))
      (hdigits.mono (List.drop_subset _ _))).append fun c hc ↦ ?_
    rcases List.mem_cons.mp hc with rfl | hc
    · exact .inr (by decide)
    · exact word_shownExponent _ c hc
  · split
    · refine word_withFraction (fun c hc ↦ ?_) (.append (fun c hc ↦ ?_) hdigits)
      · exact .inl (List.mem_singleton.mp hc ▸ by decide)
      · exact .inl (List.eq_of_mem_replicate hc ▸ by decide)
    · exact word_withFraction (hdigits.mono (List.take_subset _ _))
        (hdigits.mono (List.drop_subset _ _))

theorem word_shownSign (sign : Sign) : Word (shownSign sign) := by
  cases sign with
  | negative => exact fun c hc ↦ .inr (List.mem_singleton.mp hc ▸ by decide)
  | positive => exact fun c hc ↦ absurd hc List.not_mem_nil

/-- **What a stream writes is one word.** -/
theorem word_shown (precision : ℕ) (d : Double) : Word (shown precision d) := by
  have hnan : "nan".toList ⊆ "+-.einfa".toList := by decide
  have hinf : "inf".toList ⊆ "+-.einfa".toList := by decide
  rw [shown]
  split
  · exact fun c hc ↦ .inr (hnan hc)
  · exact (word_shownSign _).append fun c hc ↦ .inr (hinf hc)
  · exact (word_shownSign _).append fun c hc ↦ .inl (List.mem_singleton.mp hc ▸ by decide)
  · exact (word_shownSign _).append (word_shownPositive precision _)

end Double

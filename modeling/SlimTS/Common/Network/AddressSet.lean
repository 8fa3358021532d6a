import SlimTS.Common.Text
import SlimTS.Plugin.ConsoleCopy

/-!
# Addresses with a port

`string_to_address_set` splits a text at its first colon. Three things decide what becomes of the
port. `get_int_value` answers `-1` for a text without a number and reads the number at the front of
any other, so what stands behind the colon is never checked; a zero is not stored; and what is not
stored stays as the memory was, which is a parameter. So no text without a valid port gives the port
zero in every memory, and a valid port is what comes out of every text whose colon an `int` can hold
the position of (`stringToAddressSet_laws`).

From `2 ^ 31 - 1` on the position, or the one behind it, does not fit. The text is then cut
elsewhere, or not at all, or the cut throws.
-/

namespace SlimTS

/-! ## The program -/

/-- `AddressSet`. -/
structure AddressSet where
  port : ℤ
  address : Str
deriving DecidableEq, Repr

/-- `get_int_value`. -/
def getIntValue (value : Str) : ℤ :=
  if value = [] then -1
  else match stoi value with
    | .ok n => n
    | .error .invalidArgument => -1
    | .error .outOfRange => -1

/-- The address, for the position of the delimiter. -/
def addressPart (addressString : Str) (delimiterPosition : ℤ) : Except OutOfRange Str :=
  -- The test is for zero, so `npos` counts as a position and cuts nothing off.
  if delimiterPosition = 0 then .ok [] else Text.substr addressString 0 delimiterPosition

/-- The port, for the position of the delimiter and what the memory holds. A position below zero is
past the end of the string. -/
def portPart (indeterminate : ℤ) (addressString : Str) (delimiterPosition : ℤ) :
    Except OutOfRange ℤ :=
  if 0 ≤ delimiterPosition ∧ delimiterPosition < addressString.length then
    -- A port of zero is not assigned.
    (Text.substr addressString (toInt (delimiterPosition + 1)) Text.npos).map fun rest ↦
      if getIntValue rest = 0 then indeterminate else getIntValue rest
  else .ok indeterminate

/-- `string_to_address_set`. -/
def stringToAddressSet (indeterminate : ℤ) (addressString : Str) : Except OutOfRange AddressSet :=
  if addressString = [] then .ok ⟨indeterminate, []⟩
  else do
    let address ← addressPart addressString (toInt (Text.find addressString ':'))
    let port ← portPart indeterminate addressString (toInt (Text.find addressString ':'))
    return ⟨port, address⟩

/-! ## What is written -/

/-- What stands behind the first colon. -/
def portText (text : Str) : Str := (text.dropWhile (· ≠ ':')).tail

/-- The port that is written there, or zero. -/
def writtenPort (text : Str) : ℕ :=
  if (portText text).all Char.isDigit = true ∧ Nat.ofDigitChars 10 (portText text) 0 ≤ 65535 then
    Nat.ofDigitChars 10 (portText text) 0
  else 0

/-- A host without a colon, and a port. -/
structure Endpoint where
  host : Str
  port : ℕ
  no_colon : ':' ∉ host
  one_le_port : 1 ≤ port
  port_le : port ≤ 65535

/-- The two, as they are written. -/
def Endpoint.text (e : Endpoint) : Str := e.host ++ ':' :: Nat.toDigits 10 e.port

/-- Whatever the memory holds, the port is what is written. -/
def YieldsPort (text : Str) : Prop :=
  ∀ indeterminate, ∃ address,
    stringToAddressSet indeterminate text = .ok ⟨writtenPort text, address⟩

/-- A port is written, and the position of its colon fits in an `int` with the one behind it, or the
number behind the wrong position happens to be the same. -/
def ReadablePort (text : Str) : Prop :=
  writtenPort text ≠ 0 ∧
    (Text.find text ':' < 2 ^ 31 - 1 ∨
      0 ≤ toInt (Text.find text ':') ∧ toInt (Text.find text ':') < 2 ^ 31 - 1 ∧
        getIntValue (text.drop ((toInt (Text.find text ':')).toNat + 1)) = writtenPort text)

/-! ## Reading the port -/

variable {text host digits : Str} {d : ℤ} {w : ℕ}

/-- `get_int_value` of a port. -/
theorem getIntValue_of_isDigit (hdigits : digits.all Char.isDigit = true)
    (hw : Nat.ofDigitChars 10 digits 0 ≠ 0) (hle : Nat.ofDigitChars 10 digits 0 ≤ 65535) :
    getIntValue digits = Nat.ofDigitChars 10 digits 0 := by
  cases digits with
  | nil => exact absurd rfl hw
  | cons c digits =>
    have hc : c.isDigit = true := List.all_eq_true.mp hdigits c List.mem_cons_self
    have htake : (c :: digits).takeWhile Char.isDigit = c :: digits :=
      List.takeWhile_eq_self_iff.mpr (List.all_eq_true.mp hdigits)
    have hstoi : stoi (c :: digits) = .ok (Nat.ofDigitChars 10 (c :: digits) 0) := by
      rw [stoi_eq_stoiDigits hc, stoiDigits, htake, if_neg (List.cons_ne_nil c digits)]
      simp only
      rw [Int.one_mul, if_pos (by omega)]
    rw [getIntValue, if_neg (List.cons_ne_nil c digits), hstoi]

/-- Behind the first colon. -/
theorem portText_append (hhost : ':' ∉ host) (digits : Str) :
    portText (host ++ ':' :: digits) = digits := by
  rw [portText, List.dropWhile_append_of_pos, List.dropWhile_cons_of_neg (by simp), List.tail_cons]
  intro c hc
  rw [decide_eq_true_eq]
  rintro rfl
  exact hhost hc

theorem portText_of_not_mem (h : ':' ∉ text) : portText text = [] := by
  rw [portText, List.dropWhile_eq_nil_iff.mpr, List.tail_nil]
  intro c hc
  rw [decide_eq_true_eq]
  rintro rfl
  exact h hc

/-- A port behind a first colon is the one that is written. -/
theorem writtenPort_append (hhost : ':' ∉ host) (hdigits : digits.all Char.isDigit = true)
    (hle : Nat.ofDigitChars 10 digits 0 ≤ 65535) :
    writtenPort (host ++ ':' :: digits) = Nat.ofDigitChars 10 digits 0 := by
  rw [writtenPort, portText_append hhost, if_pos ⟨hdigits, hle⟩]

/-- A port that is written stands behind a first colon. -/
theorem exists_of_writtenPort (h : writtenPort text ≠ 0) :
    ∃ host digits, text = host ++ ':' :: digits ∧ ':' ∉ host ∧
      getIntValue digits = writtenPort text := by
  by_cases hcolon : ':' ∈ text
  · obtain ⟨host, digits, rfl, hhost⟩ := List.eq_append_cons_of_mem hcolon
    rw [writtenPort, portText_append hhost] at h ⊢
    split at h
    · next hwritten =>
      rw [if_pos hwritten]
      exact ⟨host, digits, rfl, hhost, getIntValue_of_isDigit hwritten.1 h hwritten.2⟩
    · exact absurd rfl h
  · rw [writtenPort, portText_of_not_mem hcolon] at h
    exact absurd rfl h

/-! ## The position of the delimiter -/

/-- Behind a position that fits in an `int` with the next one. -/
theorem substr_behind (h0 : 0 ≤ d) (hd : d < 2 ^ 31 - 1) (hlength : d < text.length) :
    Text.substr text (toInt (d + 1)) Text.npos = .ok (text.drop (d.toNat + 1)) := by
  have hnext : toInt (d + 1) = d + 1 := toInt_eq_self_iff.mpr ⟨by omega, by omega⟩
  rw [hnext, Text.substr, if_neg (by omega), if_pos (by decide), Int.toNat_add h0 (by decide)]
  rfl

/-- Behind the largest `int` the cut throws. -/
theorem substr_behind_last : Text.substr text (toInt (2 ^ 31 - 1 + 1)) Text.npos
    = .error .outOfRange := Text.substr_of_neg (by decide) _

/-- The port does not depend on the memory exactly if a number is read and the cut does not
throw. -/
theorem portPart_eq_iff (hd : d < 2 ^ 31) (hw : w ≠ 0) :
    (∀ indeterminate, portPart indeterminate text d = .ok w) ↔
      0 ≤ d ∧ d < 2 ^ 31 - 1 ∧ d < text.length ∧ getIntValue (text.drop (d.toNat + 1)) = w := by
  by_cases hrange : 0 ≤ d ∧ d < text.length
  · -- At the largest `int` the position behind the delimiter overflows.
    by_cases hlast : d < 2 ^ 31 - 1
    · have hport : ∀ indeterminate, portPart indeterminate text d
          = .ok (if getIntValue (text.drop (d.toNat + 1)) = 0 then indeterminate
            else getIntValue (text.drop (d.toNat + 1))) := fun indeterminate ↦ by
        rw [portPart, if_pos hrange, substr_behind hrange.1 hlast hrange.2]
        rfl
      constructor
      · intro h
        refine ⟨hrange.1, hlast, hrange.2, ?_⟩
        have hzero := Except.ok.inj ((hport 0).symm.trans (h 0))
        split at hzero
        · omega
        · exact hzero
      · rintro ⟨-, -, -, hvalue⟩ indeterminate
        rw [hport, hvalue, if_neg (Int.natCast_ne_zero.mpr hw)]
    · obtain rfl : d = 2 ^ 31 - 1 := by omega
      refine iff_of_false (fun h ↦ ?_) fun h ↦ absurd h.2.1 (lt_irrefl _)
      have hport := h 0
      rw [portPart, if_pos hrange, substr_behind_last] at hport
      cases hport
  · -- Out of range the port is what the memory held, and that may be zero.
    refine iff_of_false (fun h ↦ ?_) fun h ↦ hrange ⟨h.1, h.2.2.1⟩
    have hport := h 0
    rw [portPart, if_neg hrange, Except.ok.injEq] at hport
    omega

/-- The memory can hold something else than zero. -/
theorem portPart_ne_zero : portPart 1 text d ≠ .ok 0 := by
  rw [portPart]
  split
  · cases Text.substr text (toInt (d + 1)) Text.npos with
    | error e => exact fun h ↦ by cases h
    | ok rest =>
      intro h
      have hvalue : (if getIntValue rest = 0 then 1 else getIntValue rest) = 0 := Except.ok.inj h
      split at hvalue
      · cases hvalue
      · next hne => exact hne hvalue
  · exact fun h ↦ by cases h

/-! ## The whole text -/

/-- The address never throws. -/
theorem exists_addressPart (text : Str) (d : ℤ) : ∃ address, addressPart text d = .ok address := by
  rw [addressPart]
  split
  · exact ⟨[], rfl⟩
  · rw [Text.substr, if_neg (by omega)]
    exact ⟨_, rfl⟩

theorem stringToAddressSet_eq_iff (htext : text ≠ []) {indeterminate port : ℤ} {address : Str} :
    stringToAddressSet indeterminate text = .ok ⟨port, address⟩ ↔
      addressPart text (toInt (Text.find text ':')) = .ok address ∧
        portPart indeterminate text (toInt (Text.find text ':')) = .ok port := by
  obtain ⟨address', haddress⟩ := exists_addressPart text (toInt (Text.find text ':'))
  rw [stringToAddressSet, if_neg htext, haddress, ok_bind]
  cases portPart indeterminate text (toInt (Text.find text ':')) with
  | error e => exact iff_of_false (fun h ↦ by cases h) fun h ↦ by cases h.2
  | ok port' =>
    rw [ok_bind, Except.ok.injEq, Except.ok.injEq]
    constructor
    · intro h
      cases Except.ok.inj h
      exact ⟨rfl, rfl⟩
    · rintro ⟨rfl, rfl⟩
      rfl

/-- A text without a port yields none, not even zero. -/
theorem not_yieldsPort (h : writtenPort text = 0) : ¬YieldsPort text := by
  intro hyields
  obtain ⟨address, hresult⟩ := hyields 1
  rw [h] at hresult
  by_cases htext : text = []
  · rw [stringToAddressSet, if_pos htext] at hresult
    cases hresult
  · exact portPart_ne_zero ((stringToAddressSet_eq_iff htext).mp hresult).2

/-- Which texts yield their port. -/
theorem yieldsPort_iff_readablePort : YieldsPort text ↔ ReadablePort text := by
  by_cases hw : writtenPort text = 0
  · exact iff_of_false (not_yieldsPort hw) fun h ↦ h.1 hw
  obtain ⟨host, digits, rfl, hhost, hvalue⟩ := exists_of_writtenPort hw
  have htext : host ++ ':' :: digits ≠ [] := by simp
  have hfind := Text.find_append hhost digits
  have hlength : (toInt host.length : ℤ) < (host ++ ':' :: digits).length := by
    have hle := toInt_le_self (Int.natCast_nonneg host.length)
    rw [List.length_append, List.length_cons]
    omega
  have hport : YieldsPort (host ++ ':' :: digits) ↔ ∀ indeterminate,
      portPart indeterminate (host ++ ':' :: digits) (toInt host.length)
        = .ok (writtenPort (host ++ ':' :: digits)) := by
    refine forall_congr' fun indeterminate ↦ ?_
    obtain ⟨address, haddress⟩ := exists_addressPart (host ++ ':' :: digits) (toInt host.length)
    simp only [stringToAddressSet_eq_iff htext, hfind]
    exact ⟨fun h ↦ h.choose_spec.2, fun h ↦ ⟨address, haddress, h⟩⟩
  rw [hport, portPart_eq_iff (toInt_range _).2 hw, ReadablePort, hfind]
  constructor
  · rintro ⟨h0, hlast, -, hread⟩
    exact ⟨hw, .inr ⟨h0, hlast, hread⟩⟩
  · rintro ⟨-, hfits | ⟨h0, hlast, hread⟩⟩
    · have hsame : toInt host.length = host.length :=
        toInt_eq_self_iff.mpr ⟨by omega, by omega⟩
      rw [hsame] at hlength ⊢
      refine ⟨Int.natCast_nonneg _, hfits, hlength, ?_⟩
      rw [Int.toNat_natCast, List.drop_length_add_append]
      exact hvalue
    · exact ⟨h0, hlast, hlength, hread⟩

/-! ## There and back -/

variable (e : Endpoint)

theorem Endpoint.writtenPort_text : writtenPort e.text = e.port := by
  have hdigits : (Nat.toDigits 10 e.port).all Char.isDigit = true :=
    List.all_eq_true.mpr fun _ hc ↦ Nat.isDigit_of_mem_toDigits (by decide) (by decide) hc
  have hvalue : Nat.ofDigitChars 10 (Nat.toDigits 10 e.port) 0 = e.port :=
    Nat.ofDigitChars_ten_toDigits
  rw [text, writtenPort_append e.no_colon hdigits (hvalue.symm ▸ e.port_le), hvalue]

theorem Endpoint.text_ne_nil : e.text ≠ [] := by simp [text]

theorem Endpoint.find_text : Text.find e.text ':' = e.host.length := Text.find_append e.no_colon _

/-- The address is the host exactly if the position of the colon fits in an `int`. -/
theorem Endpoint.addressPart_eq_iff :
    addressPart e.text (toInt e.host.length) = .ok e.host ↔ (e.host.length : ℤ) < 2 ^ 31 := by
  have hle := toInt_le_self (Int.natCast_nonneg e.host.length)
  have hrange := (toInt_range e.host.length).2
  have hlength : e.text.length = e.host.length + ((Nat.toDigits 10 e.port).length + 1) := by
    rw [text, List.length_append, List.length_cons]
  constructor
  · intro h
    rw [addressPart] at h
    split at h
    · rw [← Except.ok.inj h]
      decide
    · rcases Text.eq_or_length_le_of_substr h with hwhole | hcount
      · have := congrArg List.length hwhole
        omega
      · omega
  · intro h
    have hsame : toInt e.host.length = e.host.length := toInt_eq_self_iff.mpr ⟨by omega, h⟩
    rw [hsame, addressPart]
    split
    · next hzero => rw [List.length_eq_zero_iff.mp (Int.natCast_eq_zero.mp hzero)]
    · exact Text.substr_append_left e.host _

theorem Endpoint.port_ne_zero : e.port ≠ 0 := Nat.one_le_iff_ne_zero.mp e.one_le_port

/-- Which hosts and ports come back. -/
theorem Endpoint.stringToAddressSet_text_iff :
    (∀ indeterminate, stringToAddressSet indeterminate e.text = .ok ⟨e.port, e.host⟩) ↔
      (e.host.length : ℤ) < 2 ^ 31 - 1 := by
  constructor
  · intro h
    have hparts := fun indeterminate ↦
      (stringToAddressSet_eq_iff e.text_ne_nil).mp (h indeterminate)
    simp only [e.find_text] at hparts
    have hfits := e.addressPart_eq_iff.mp (hparts 0).1
    have hsame : toInt e.host.length = e.host.length := toInt_eq_self_iff.mpr ⟨by omega, hfits⟩
    obtain ⟨-, hlast, -⟩ := (portPart_eq_iff (toInt_range _).2 e.port_ne_zero).mp
      fun indeterminate ↦ (hparts indeterminate).2
    rwa [hsame] at hlast
  · intro h indeterminate
    have hreadable : ReadablePort e.text :=
      ⟨e.writtenPort_text.symm ▸ e.port_ne_zero, .inl (e.find_text.symm ▸ h)⟩
    obtain ⟨address, hresult⟩ := yieldsPort_iff_readablePort.mpr hreadable indeterminate
    rw [e.writtenPort_text] at hresult
    obtain ⟨haddress, -⟩ := (stringToAddressSet_eq_iff e.text_ne_nil).mp hresult
    rw [e.find_text, e.addressPart_eq_iff.mpr (by omega), Except.ok.injEq] at haddress
    rw [hresult, haddress]

/-- **When a text is read right.** A text yields its port exactly if it has a readable one, and a
host and a port come back from what is written of them exactly if the position behind the host fits
in an `int` with the next one. -/
theorem stringToAddressSet_laws (text : Str) (e : Endpoint) :
    (YieldsPort text ↔ ReadablePort text) ∧
      ((∀ indeterminate, stringToAddressSet indeterminate e.text = .ok ⟨e.port, e.host⟩) ↔
        (e.host.length : ℤ) < 2 ^ 31 - 1) :=
  ⟨yieldsPort_iff_readablePort, e.stringToAddressSet_text_iff⟩

/-- A text without a number for a port gives the port `-1`. -/
theorem not_forall_yieldsPort :
    (∀ indeterminate, stringToAddressSet indeterminate "localhost:http".toList
        = .ok ⟨-1, "localhost".toList⟩) ∧
      ¬∀ text, YieldsPort text := by
  refine ⟨fun _ ↦ rfl, fun h ↦ ?_⟩
  exact not_yieldsPort (by decide) (h "localhost:http".toList)

end SlimTS

import SlimTS.Common.Network.ConnectionHandler

/-!
# The read buffer of a connection

The read loop clears its buffer, lets `read` put its bytes at the front and hands the buffer to the
request handler if its first character is not a NUL. The handler gets a pointer and no length: the
parser reads on until it meets a NUL, in the buffer or behind it.

The zeros of `memset` end the text as long as one of them is left. `read` is given the whole size of
the buffer, so a segment of that size leaves none, and unless it brings a NUL of its own the parser
reads the memory behind the buffer (`handedBuffer_seesReceived_iff`).
-/

namespace SlimTS

/-! ## Clearing and reading -/

/-- `char read_buffer[BUFFER_SIZE]`. -/
structure ReadBuffer where
  chars : Str
  length_eq : chars.length = bufferSize

/-- What `read` answers for a buffer of that size. -/
inductive ReadResult
  /-- It fails, and the buffer stays as it is. -/
  | failed
  /-- The bytes it puts in the buffer. There are none at the end of the stream. -/
  | bytes (segment : Str) (fits : segment.length ≤ bufferSize)

/-- The bytes that have been received. -/
def ReadResult.segment : ReadResult → Str
  | .failed => []
  | .bytes segment _ => segment

theorem ReadResult.length_segment_le : ∀ result : ReadResult, result.segment.length ≤ bufferSize
  | .failed => Nat.zero_le _
  | .bytes _ fits => fits

namespace ReadBuffer

/-- `memset(read_buffer, '\0', sizeof(read_buffer))`. -/
def cleared (_ : ReadBuffer) : ReadBuffer :=
  ⟨List.replicate bufferSize '\x00', List.length_replicate⟩

/-- `read(socket_handle, read_buffer, BUFFER_SIZE)`. -/
def read (buffer : ReadBuffer) (result : ReadResult) : ReadBuffer where
  chars := result.segment ++ buffer.chars.drop result.segment.length
  length_eq := by
    rw [List.length_append, List.length_drop, buffer.length_eq]
    exact Nat.add_sub_cancel' result.length_segment_le

end ReadBuffer

/-- The array the handler is given after a read: none unless its first character is set. -/
def handedBuffer (buffer : ReadBuffer) (result : ReadResult) : Option ReadBuffer :=
  if (buffer.cleared.read result).chars.headD '\x00' = '\x00' then none
  else some (buffer.cleared.read result)

/-- The text in the array ends in it, and is made of the received bytes up to their first NUL or of
all of them, whatever is in the memory behind the array. -/
structure SeesReceived (segment : Str) (buffer : ReadBuffer) : Prop where
  terminated : '\x00' ∈ buffer.chars
  text : ∀ memory, cString (buffer.chars ++ memory) = cString segment

/-! ## What is left of the zeros -/

variable (buffer : ReadBuffer) (result : ReadResult)

theorem chars_read : (buffer.read result).chars
    = result.segment ++ buffer.chars.drop result.segment.length := rfl

theorem chars_read_cleared : (buffer.cleared.read result).chars
    = result.segment ++ List.replicate (bufferSize - result.segment.length) '\x00' := by
  rw [chars_read, ReadBuffer.cleared, List.drop_replicate]

/-- A zero is left unless the segment fills the buffer. -/
theorem nul_mem_read_iff : '\x00' ∈ (buffer.cleared.read result).chars ↔
    result.segment.length < bufferSize ∨ '\x00' ∈ result.segment := by
  rw [chars_read_cleared, List.mem_append, List.mem_replicate, or_comm]
  refine or_congr_left ⟨fun h ↦ Nat.lt_of_sub_ne_zero h.1, fun h ↦ ?_⟩
  exact ⟨Nat.sub_ne_zero_of_lt h, rfl⟩

/-- What is behind the first NUL is not read. -/
theorem cString_append_of_mem {text : Str} (h : '\x00' ∈ text) (memory : Str) :
    cString (text ++ memory) = cString text := by
  obtain ⟨before, after, rfl, hbefore⟩ := List.eq_append_cons_of_mem h
  rw [List.append_assoc, cString_append hbefore, cString_append hbefore]
  rfl

/-- Before the zeros there is the text of the segment. -/
theorem cString_append_replicate (segment : Str) (n : ℕ) :
    cString (segment ++ List.replicate n '\x00') = cString segment := by
  by_cases hnul : '\x00' ∈ segment
  · exact cString_append_of_mem hnul _
  · have hzeros : cString (List.replicate n '\x00') = [] := by
      rw [cString, List.takeWhile_replicate]
      rfl
    rw [cString_append hnul, hzeros, List.append_nil, cString_of_not_mem hnul]

/-- The text in a buffer with a NUL. -/
theorem seesReceived_of_nul_mem (h : '\x00' ∈ (buffer.cleared.read result).chars) :
    SeesReceived result.segment (buffer.cleared.read result) where
  terminated := h
  text memory := by
    rw [cString_append_of_mem h, chars_read_cleared, cString_append_replicate]

/-! ## What the parser reads -/

theorem handedBuffer_eq_some_iff {handed : ReadBuffer} :
    handedBuffer buffer result = some handed ↔
      (buffer.cleared.read result).chars.headD '\x00' ≠ '\x00' ∧
        buffer.cleared.read result = handed := by
  rw [handedBuffer, Option.ite_none_left_eq_some, Option.some_inj]

/-- The first character of the buffer is that of the segment, or a zero. -/
theorem headD_read_cleared :
    (buffer.cleared.read result).chars.headD '\x00' = result.segment.headD '\x00' := by
  rw [chars_read_cleared]
  cases result.segment with
  | nil => rfl
  | cons c segment => rfl

/-- A buffer without a NUL is handed over. -/
theorem handedBuffer_of_nul_not_mem (h : '\x00' ∉ (buffer.cleared.read result).chars) :
    handedBuffer buffer result = some (buffer.cleared.read result) := by
  refine (handedBuffer_eq_some_iff buffer result).mpr ⟨fun hhead ↦ ?_, rfl⟩
  rw [headD_read_cleared] at hhead
  rw [nul_mem_read_iff, not_or] at h
  cases hsegment : result.segment with
  | nil => exact h.1 (hsegment ▸ Nat.two_pow_pos 11)
  | cons c segment =>
    rw [hsegment, List.headD_cons] at hhead
    exact h.2 (by rw [hsegment, hhead]; exact List.mem_cons_self)

/-- **The buffer handed to the handler.** The handler sees the received bytes exactly if they do not
fill the buffer or have a NUL among them. -/
theorem handedBuffer_seesReceived_iff :
    (∀ handed, handedBuffer buffer result = some handed → SeesReceived result.segment handed) ↔
      result.segment.length < bufferSize ∨ '\x00' ∈ result.segment := by
  rw [← nul_mem_read_iff buffer]
  constructor
  · intro h
    by_contra hnul
    exact hnul (h _ (handedBuffer_of_nul_not_mem buffer result hnul)).terminated
  · intro h handed hhanded
    obtain ⟨-, rfl⟩ := (handedBuffer_eq_some_iff buffer result).mp hhanded
    exact seesReceived_of_nul_mem buffer result h

/-- A segment of the size of the buffer leaves no zero. -/
theorem not_forall_seesReceived :
    ¬∀ (buffer : ReadBuffer) (result : ReadResult) (handed : ReadBuffer),
      handedBuffer buffer result = some handed → SeesReceived result.segment handed := by
  intro h
  have hlength : (List.replicate bufferSize 'a').length = bufferSize := List.length_replicate
  have hnul : '\x00' ∉ List.replicate bufferSize 'a' := fun hmem ↦
    absurd (List.eq_of_mem_replicate hmem) (by decide)
  let full : ReadResult := .bytes (List.replicate bufferSize 'a') hlength.le
  have hchars : '\x00' ∉ ((ReadBuffer.cleared ⟨_, hlength⟩).read full).chars := by
    rw [nul_mem_read_iff, not_or]
    exact ⟨hlength.ge.not_gt, hnul⟩
  exact hchars (h _ full _ (handedBuffer_of_nul_not_mem _ full hchars)).terminated

end SlimTS

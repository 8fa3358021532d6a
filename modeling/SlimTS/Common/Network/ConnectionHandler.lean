import Mathlib.Data.List.TakeDrop
import SlimTS.Common.Network.Metrics

/-!
# The handling of a connection

`handle_client_connection`: a loop around `select` and `read`, the call of the request handler, and
a loop around `select` and `send`. What the kernel answers is in the lists of turns, one for each
call of `select` with what is called behind it; a loop that has used up its turns is still waiting.
The handler is a parameter. It is given the read buffer as a C string.

Both loops are left after their first read and their first send. So a request is served when its
first segment holds its header section and ends within the buffer, and the first send takes the
whole response (`handleClientConnection_serves_iff`). What the parser reads of a request is its
header section, so the response to a request that is served is one that does not depend on the
segments.
-/

namespace SlimTS

open Getline

/-! ## The two loops -/

/-- `BUFFER_SIZE`. -/
def bufferSize : ℕ := 2048

/-- A turn of the read loop. -/
inductive ReadTurn
  /-- `select` is interrupted by a signal. -/
  | interrupted
  /-- `select` fails otherwise. -/
  | failed
  /-- The socket is readable, and `read` puts the segment in the buffer. It is empty at the end of
  the stream, and when `read` fails. -/
  | readable (segment : Str)
  /-- There is urgent data only, and `recv` returns the number. The byte goes to the buffer, which
  is cleared before the next read. -/
  | exceptional (received : ℤ)
deriving DecidableEq, Repr

/-- How the read loop ends. -/
inductive ReadLoopOutcome
  /-- It has not ended. -/
  | waiting
  /-- Without a call of the handler. -/
  | left
  /-- The handler is given the text. -/
  | called (requestPointer : Str)
  /-- The handler is given a buffer in which no string ends. -/
  | undefined
deriving DecidableEq, Repr

/-- What follows a read. The rest of the buffer is zero. -/
def received (segment : Str) : ReadLoopOutcome :=
  if segment.headD '\x00' = '\x00' then .left
  else if segment.length < bufferSize ∨ '\x00' ∈ segment then .called (cString segment)
  else .undefined

/-- The read loop. -/
def readLoop : ℤ → List ReadTurn → ReadLoopOutcome
  | _, [] => .waiting
  | bytesRead, .interrupted :: turns => readLoop bytesRead turns
  | _, .failed :: _ => .left
  -- The loop breaks after its first read.
  | _, .readable segment :: _ => received segment
  | bytesRead, .exceptional n :: turns =>
    if bytesRead + n < 1 then .left else readLoop (bytesRead + n) turns

/-- A turn of the write loop. -/
inductive SendTurn
  | interrupted
  | failed
  /-- The socket is writable, and `send` takes that many bytes. -/
  | writable (taken : ℕ)
  /-- The socket is writable, and `send` fails. -/
  | refused
deriving DecidableEq, Repr

/-- The write loop: what has been sent when it ends. -/
def writeLoop (responseString : Str) : List SendTurn → Option Str
  | [] => none
  | .interrupted :: turns => writeLoop responseString turns
  | .failed :: _ | .refused :: _ => some []
  -- It breaks after its first `send`, whatever that has taken.
  | .writable taken :: _ => some (responseString.take taken)

/-- How the handling of a connection ends. -/
inductive ConnectionOutcome (ε : Type)
  /-- One of the loops has not ended. -/
  | waiting
  | undefined
  /-- The exception of the handler leaves the function. -/
  | thrown (error : ε)
  /-- The text the handler was given, its response, and what has been sent of it. -/
  | ended (requestPointer : Option Str) (responseString sent : Str)
deriving DecidableEq

variable {ε : Type}

/-- The write loop behind a call of the handler, or behind none. -/
def sendResponse (requestPointer : Option Str) (responseString : Str) (sends : List SendTurn) :
    ConnectionOutcome ε :=
  match writeLoop responseString sends with
  | none => .waiting
  | some sent => .ended requestPointer responseString sent

/-- What follows the read loop. -/
def respondTo (clientRequestHandler : Str → Except ε Str) (sends : List SendTurn) :
    ReadLoopOutcome → ConnectionOutcome ε
  | .waiting => .waiting
  | .undefined => .undefined
  | .left => sendResponse none [] sends
  | .called requestPointer =>
    match clientRequestHandler requestPointer with
    | .error e => .thrown e
    | .ok responseString => sendResponse (some requestPointer) responseString sends

/-- `handle_client_connection`. -/
def handleClientConnection (clientRequestHandler : Str → Except ε Str) (reads : List ReadTurn)
    (sends : List SendTurn) : ConnectionOutcome ε :=
  respondTo clientRequestHandler sends (readLoop 0 reads)

/-! ## What the client and the kernel do -/

/-- The segment of a turn. -/
def ReadTurn.segment : ReadTurn → Option Str
  | .readable segment => some segment
  | _ => none

/-- The turns split a request over reads: they may be interrupted and see urgent data, and their
segments make up the request. -/
structure Splits (request : Str) (reads : List ReadTurn) : Prop where
  turns : ∀ turn ∈ reads, turn = .interrupted ∨ (∃ n, 1 ≤ n ∧ turn = .exceptional n) ∨
    ∃ segment, turn = .readable segment ∧ segment ≠ [] ∧ segment.length ≤ bufferSize
  whole : (reads.filterMap ReadTurn.segment).flatten = request

/-- The count of a turn. -/
def SendTurn.count : SendTurn → Option ℕ
  | .writable taken => some taken
  | _ => none

/-- The turns take counts, and may be interrupted. -/
def Takes (sends : List SendTurn) : Prop :=
  ∀ turn ∈ sends, turn = .interrupted ∨ ∃ taken, turn = .writable taken

/-- The handler has been given the header section, and its response has been sent. -/
def Serves (clientRequestHandler : Str → Except ε Str) (headerSection : Str) :
    ConnectionOutcome ε → Prop
  | .ended (some requestPointer) responseString sent =>
    headerSection <+: requestPointer ∧ clientRequestHandler requestPointer = .ok responseString ∧
      sent = responseString
  | _ => False

/-- The first segment holds the header section and ends in the buffer, and the first send takes the
response to it. -/
def FirstSuffices (clientRequestHandler : Str → Except ε Str) (headerSection : Str)
    (reads : List ReadTurn) (sends : List SendTurn) : Prop :=
  ∃ segment ∈ (reads.filterMap ReadTurn.segment).head?,
    ∃ taken ∈ (sends.filterMap SendTurn.count).head?,
    headerSection <+: segment ∧ '\x00' ∉ headerSection ∧
      (segment.length < bufferSize ∨ '\x00' ∈ segment) ∧
      ∃ responseString, clientRequestHandler (cString segment) = .ok responseString ∧
        responseString.length ≤ taken

/-! ## The loops see the first read and the first send -/

theorem readLoop_eq {reads : List ReadTurn} {bytesRead : ℤ} (hbytes : 0 ≤ bytesRead)
    (h : ∀ turn ∈ reads, turn = .interrupted ∨ (∃ n, 1 ≤ n ∧ turn = .exceptional n) ∨
      ∃ segment, turn = .readable segment ∧ segment ≠ [] ∧ segment.length ≤ bufferSize) :
    readLoop bytesRead reads
      = ((reads.filterMap ReadTurn.segment).head?.map received).getD .waiting := by
  induction reads generalizing bytesRead with
  | nil => rfl
  | cons turn reads ih =>
    rw [List.forall_mem_cons] at h
    obtain ⟨hturn, hreads⟩ := h
    rcases hturn with rfl | ⟨n, hn, rfl⟩ | ⟨segment, rfl, -⟩
    · exact ih hbytes hreads
    · rw [readLoop, if_neg (by omega)]
      exact ih (by omega) hreads
    · rfl

theorem writeLoop_eq {sends : List SendTurn} (h : Takes sends) (responseString : Str) :
    writeLoop responseString sends
      = (sends.filterMap SendTurn.count).head?.map responseString.take := by
  induction sends with
  | nil => rfl
  | cons turn sends ih =>
    rw [Takes, List.forall_mem_cons] at h
    rcases h.1 with rfl | ⟨taken, rfl⟩
    · exact ih h.2
    · rfl

/-! ## What the handler is given -/

variable {clientRequestHandler : Str → Except ε Str} {headerSection request : Str}
  {reads : List ReadTurn} {sends : List SendTurn}

theorem not_serves_none (responseString : Str) :
    ¬Serves clientRequestHandler headerSection (sendResponse none responseString sends) := by
  rw [sendResponse]
  split <;> exact id

/-- A handler that was called. -/
theorem serves_called_iff (hsends : Takes sends) (requestPointer : Str) :
    Serves clientRequestHandler headerSection
        (respondTo clientRequestHandler sends (.called requestPointer)) ↔
      ∃ taken ∈ (sends.filterMap SendTurn.count).head?, headerSection <+: requestPointer ∧
        ∃ responseString, clientRequestHandler requestPointer = .ok responseString ∧
          responseString.length ≤ taken := by
  rw [respondTo]
  rcases hresponse : clientRequestHandler requestPointer with e | responseString
  · simp [Serves]
  · simp only [sendResponse, writeLoop_eq hsends]
    rcases (sends.filterMap SendTurn.count).head? with - | taken
    · simp [Serves]
    · simp [Serves, hresponse, List.take_eq_self_iff]

/-- A segment that was read. -/
theorem serves_received_iff (hsends : Takes sends) (hne : headerSection ≠ []) (segment : Str) :
    Serves clientRequestHandler headerSection
        (respondTo clientRequestHandler sends (received segment)) ↔
      ∃ taken ∈ (sends.filterMap SendTurn.count).head?,
        headerSection <+: segment ∧ '\x00' ∉ headerSection ∧
          (segment.length < bufferSize ∨ '\x00' ∈ segment) ∧
          ∃ responseString, clientRequestHandler (cString segment) = .ok responseString ∧
            responseString.length ≤ taken := by
  rw [received]
  split
  · next hnul =>
    refine ⟨fun h ↦ absurd h (not_serves_none _), ?_⟩
    -- A text that begins with a NUL has no header section.
    rintro ⟨taken, -, ⟨rest, rfl⟩, hheader, -⟩
    obtain ⟨c, text, rfl⟩ := List.exists_cons_of_ne_nil hne
    rw [List.cons_append, List.headD_cons] at hnul
    exact absurd (hnul ▸ List.mem_cons_self) hheader
  · split
    · next hends =>
      rw [serves_called_iff hsends]
      refine exists_congr fun taken ↦ and_congr_right fun _ ↦ ?_
      rw [prefix_cString_iff, and_assoc]
      exact and_congr_right fun _ ↦ and_congr_right fun _ ↦ (and_iff_right hends).symm
    · next hends =>
      refine ⟨fun h ↦ h.elim, ?_⟩
      rintro ⟨taken, -, -, -, hends', -⟩
      exact absurd hends' hends

theorem serves_iff (hreads : Splits request reads) (hsends : Takes sends)
    (hne : headerSection ≠ []) :
    Serves clientRequestHandler headerSection
        (handleClientConnection clientRequestHandler reads sends) ↔
      FirstSuffices clientRequestHandler headerSection reads sends := by
  rw [handleClientConnection, readLoop_eq le_rfl hreads.turns, FirstSuffices]
  rcases (reads.filterMap ReadTurn.segment).head? with - | segment
  · simp [respondTo, Serves]
  · rw [Option.map_some, Option.getD_some, serves_received_iff hsends hne]
    simp

/-! ## What the parser reads -/

/-- The header section ends with a line end, and the empty line and the rest follow. -/
theorem splitEmptyLine_spec {text head rest : Str} (h : splitEmptyLine text = some (head, rest)) :
    ∃ lines, head = lines ++ crlf ∧ text = head ++ (crlf ++ rest) := by
  induction text generalizing head with
  | nil => exact absurd h (by simp [splitEmptyLine])
  | cons c text ih =>
    rw [splitEmptyLine] at h
    split at h
    · next hstarts =>
      obtain ⟨rest', hrest'⟩ := List.isPrefixOf_iff_prefix.mp hstarts
      rw [Option.some_inj, Prod.mk.injEq] at h
      obtain ⟨rfl, hrest⟩ := h
      refine ⟨[], rfl, ?_⟩
      rw [← hrest, ← hrest', List.append_assoc]
      have htext : text = '\n' :: '\r' :: '\n' :: rest' := (List.cons.inj hrest').2.symm
      rw [htext]
      rfl
    · obtain ⟨⟨head', rest''⟩, hsplit, heq⟩ := Option.map_eq_some_iff.mp h
      rw [Prod.mk.injEq] at heq
      obtain ⟨rfl, rfl⟩ := heq
      obtain ⟨lines, rfl, rfl⟩ := ih hsplit
      exact ⟨c :: lines, rfl, rfl⟩

/-- The lines end at the empty one. -/
theorem parseHeaderLines_append (lines more : List Str) (request : Request) :
    parseHeaderLines (lines ++ ['\r'] :: more) request
      = parseHeaderLines (lines ++ [['\r']]) request := by
  induction lines generalizing request with
  | nil => rfl
  | cons line lines ih =>
    rw [List.cons_append, List.cons_append, parseHeaderLines, parseHeaderLines]
    split
    · rfl
    · split
      · exact bind_congr fun request ↦ ih request
      · exact ih request

/-- **The parser reads the header section**, and nothing behind it. -/
theorem parseHttpRequest_append {lines : Str} (h : '\x00' ∉ lines) (rest : Str)
    (request : Request) :
    parseHttpRequest (lines ++ crlf ++ (crlf ++ rest)) request
      = parseHttpRequest (lines ++ crlf ++ crlf) request := by
  have hnul : '\x00' ∉ lines ++ crlf := by
    rw [List.mem_append, not_or]
    exact ⟨h, by decide⟩
  -- The lines before the empty one, the empty one, and the lines of the rest.
  have hpieces : ∀ text, pieces '\n' (lines ++ crlf ++ (crlf ++ text))
      = pieces '\n' (lines ++ crlf) ++ ['\r'] :: pieces '\n' text := by
    intro text
    have htext : lines ++ crlf ++ (crlf ++ text)
        = (lines ++ ['\r']) ++ '\n' :: (['\r'] ++ '\n' :: text) := by
      simp only [crlf, List.append_assoc, List.cons_append, List.nil_append]
    have hlines : lines ++ crlf = (lines ++ ['\r']) ++ ['\n'] := by
      simp only [crlf, List.append_assoc, List.cons_append, List.nil_append]
    rw [htext, pieces_append_sep_append, hlines, @pieces_append_sep _ '\n' _ ['\r'] (by decide)]
  have hne : lines ++ crlf ≠ [] := List.append_ne_nil_of_right_ne_nil _ (List.cons_ne_nil _ _)
  obtain ⟨first, others, hfirst⟩ := List.exists_cons_of_ne_nil (pieces_ne_nil '\n' hne)
  have hparse : ∀ text, parseHttpRequest (lines ++ crlf ++ (crlf ++ text)) request
      = Text.substr first 0 (Text.find first '\r') >>= fun line ↦
          parseHeaderLines (others ++ [['\r']]) (parseLine1 line request) := by
    intro text
    have hstring : cString (lines ++ crlf ++ (crlf ++ text))
        = lines ++ crlf ++ (crlf ++ cString text) := by
      rw [cString_append hnul, cString_append (by decide)]
    rw [parseHttpRequest, hstring, hpieces, hfirst]
    exact bind_congr fun line ↦ parseHeaderLines_append others _ _
  have hempty := hparse []
  rw [List.append_nil] at hempty
  rw [hparse, hempty]

/-- The handler of the metrics reads its text through the parser. -/
theorem handleRequest_congr (e : MetricsEnvironment) (metrics : Metrics)
    {text text' : Str} (h : parseHttpRequest text .new = parseHttpRequest text' .new) :
    (handleRequest e text metrics).map Prod.snd = (handleRequest e text' metrics).map Prod.snd := by
  rw [handleRequest, handleRequest, h]

/-! ## Every split, every short send -/

/-- What a connection that is served gets is the response to the request as it was sent. -/
theorem ended_of_serves {clientRequestHandler : Str → Except ε Str} {head rest : Str}
    (hparser : ∀ text text', parseHttpRequest text .new = parseHttpRequest text' .new →
      clientRequestHandler text = clientRequestHandler text')
    (hrequest : splitEmptyLine request = some (head, rest))
    (hreads : Splits request reads) (hsends : Takes sends)
    (hserves : Serves clientRequestHandler (head ++ crlf)
      (handleClientConnection clientRequestHandler reads sends)) :
    ∃ requestPointer responseString, clientRequestHandler request = .ok responseString ∧
      handleClientConnection clientRequestHandler reads sends
        = .ended (some requestPointer) responseString responseString := by
  obtain ⟨lines, rfl, htext⟩ := splitEmptyLine_spec hrequest
  have hne : lines ++ crlf ++ crlf ≠ [] :=
    List.append_ne_nil_of_right_ne_nil _ (List.cons_ne_nil _ _)
  obtain ⟨-, -, -, -, -, hnul, -⟩ := (serves_iff hreads hsends hne).mp hserves
  have hlines : '\x00' ∉ lines := fun h ↦
    hnul (List.mem_append_left _ (List.mem_append_left _ h))
  rcases houtcome : handleClientConnection clientRequestHandler reads sends with
    - | - | e | ⟨- | requestPointer, responseString, sent⟩
  · exact absurd hserves (by rw [houtcome]; exact id)
  · exact absurd hserves (by rw [houtcome]; exact id)
  · exact absurd hserves (by rw [houtcome]; exact id)
  · exact absurd hserves (by rw [houtcome]; exact id)
  · rw [houtcome] at hserves
    obtain ⟨⟨behind, rfl⟩, hresponse, rfl⟩ := hserves
    refine ⟨_, _, ?_, rfl⟩
    rw [← hresponse]
    refine hparser _ _ ?_
    rw [htext, parseHttpRequest_append hlines, List.append_assoc (lines ++ crlf),
      parseHttpRequest_append hlines]

/-- **When a connection is served.** However the kernel splits a request with a header section over
the reads, and whatever the sends take: the handler is given the whole header section and its whole
response is sent if and only if the first read and the first send suffice. The response to a
connection that is served is then the one to the request as it was sent, whatever the segments, for
every handler that reads its text through the parser. -/
theorem handleClientConnection_serves_iff (clientRequestHandler : Str → Except ε Str)
    {head rest : Str} (hrequest : splitEmptyLine request = some (head, rest))
    (hreads : Splits request reads) (hsends : Takes sends) :
    (Serves clientRequestHandler (head ++ crlf)
        (handleClientConnection clientRequestHandler reads sends) ↔
      FirstSuffices clientRequestHandler (head ++ crlf) reads sends) ∧
    ((∀ text text', parseHttpRequest text .new = parseHttpRequest text' .new →
        clientRequestHandler text = clientRequestHandler text') →
      Serves clientRequestHandler (head ++ crlf)
        (handleClientConnection clientRequestHandler reads sends) →
      ∃ requestPointer responseString, clientRequestHandler request = .ok responseString ∧
        handleClientConnection clientRequestHandler reads sends
          = .ended (some requestPointer) responseString responseString) := by
  obtain ⟨lines, rfl, -⟩ := splitEmptyLine_spec hrequest
  have hne : lines ++ crlf ++ crlf ≠ [] :=
    List.append_ne_nil_of_right_ne_nil _ (List.cons_ne_nil _ _)
  exact ⟨serves_iff hreads hsends hne, fun hparser hserves ↦
    ended_of_serves hparser hrequest hreads hsends hserves⟩

/-- Any segments that fit the buffer. -/
theorem splits_map_readable {segments : List Str}
    (h : ∀ segment ∈ segments, segment ≠ [] ∧ segment.length ≤ bufferSize) :
    Splits segments.flatten (segments.map .readable) where
  turns turn hturn := by
    obtain ⟨segment, hsegment, rfl⟩ := List.mem_map.mp hturn
    exact .inr (.inr ⟨segment, rfl, h segment hsegment⟩)
  whole := by
    rw [List.filterMap_map]
    exact congrArg _ (List.filterMap_some)

/-- Any counts. -/
theorem takes_map_writable (counts : List ℕ) : Takes (counts.map .writable) := by
  intro turn hturn
  obtain ⟨taken, -, rfl⟩ := List.mem_map.mp hturn
  exact .inr ⟨taken, rfl⟩

/-- The lines of a request up to the empty one. -/
def hostLines : Str := "GET / HTTP/1.1\r\nHost: localhost\r\n".toList

/-- A request. -/
def hostRequest : Str := hostLines ++ crlf

/-- A handler that answers with the host it has parsed. -/
def hostHandler (requestPointer : Str) : Except OutOfRange Str :=
  (parseHttpRequest requestPointer .new).map fun request ↦
    (request.headersMap.lookup "Host".toList).getD []

/-- One segment, and one send. -/
theorem handleClientConnection_serves_iff_hostRequest :
    (splitEmptyLine hostRequest = some (hostLines, []) ∧
      Splits hostRequest [.readable hostRequest] ∧ Takes [.writable 9]) ∧
    (Serves hostHandler (hostLines ++ crlf)
        (handleClientConnection hostHandler [.readable hostRequest] [.writable 9]) ↔
      FirstSuffices hostHandler (hostLines ++ crlf) [.readable hostRequest] [.writable 9]) ∧
    ∃ requestPointer responseString, hostHandler hostRequest = .ok responseString ∧
      handleClientConnection hostHandler [.readable hostRequest] [.writable 9]
        = .ended (some requestPointer) responseString responseString := by
  have hrequest : splitEmptyLine hostRequest = some (hostLines, []) := by decide
  have hreads : Splits hostRequest [.readable hostRequest] :=
    @splits_map_readable [hostRequest] (by decide)
  have hsends : Takes [.writable 9] := takes_map_writable [9]
  have hsuffices : FirstSuffices hostHandler (hostLines ++ crlf) [.readable hostRequest]
      [.writable 9] :=
    ⟨hostRequest, rfl, 9, rfl, List.prefix_refl _, by decide, by decide, "localhost".toList, rfl,
      by decide⟩
  have hserves := handleClientConnection_serves_iff hostHandler hrequest hreads hsends
  exact ⟨⟨hrequest, hreads, hsends⟩, hserves.1,
    hserves.2 (fun _ _ h ↦ congrArg (Except.map _) h) (hserves.1.mpr hsuffices)⟩

/-- The request in two segments is answered as if it had no host, and of the answer to the request
in one segment only what the first send takes is sent. -/
theorem handleClientConnection_firstOnly :
    (Splits hostRequest [.readable (hostRequest.take 16), .readable (hostRequest.drop 16)] ∧
      handleClientConnection hostHandler
          [.readable (hostRequest.take 16), .readable (hostRequest.drop 16)] [.writable 9]
        = .ended (some "GET / HTTP/1.1\r\n".toList) [] []) ∧
    Splits hostRequest [.readable hostRequest] ∧
      handleClientConnection hostHandler [.readable hostRequest] [.writable 4, .writable 5]
        = .ended (some hostRequest) "localhost".toList "loca".toList :=
  ⟨⟨@splits_map_readable [hostRequest.take 16, hostRequest.drop 16] (by decide), rfl⟩,
    @splits_map_readable [hostRequest] (by decide), rfl⟩

end SlimTS

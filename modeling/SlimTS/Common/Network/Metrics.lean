import SlimTS.Common.Http.Framing
import SlimTS.Library.Double

/-!
# The metrics handler

`handle_request` of the metrics server: it parses the request, sets a response and writes its text.
The counters hold `double`s, and the maps of counters and headers are visited in an order of their
own.

A response is written with one empty line too many, so that what a client takes for the body begins
with a line end. No body that is set begins with one: a client never reads the body.
-/

namespace SlimTS

open Getline

/-! ## The metrics -/

/-- `slim::common::metrics::Counter`. -/
structure Counter where
  help : Str
  type : Str
  format : Str
  count : Double
deriving DecidableEq

/-- `slim::common::Metrics`. -/
structure Metrics where
  pidString : Str
  counters : AList fun _ : Str ↦ Counter

/-- The order in which an iteration visits the entries of an `unordered_map`. -/
structure IterationOrder (V : Type) where
  order : (AList fun _ : Str ↦ V) → List (Sigma fun _ : Str ↦ V)
  perm : ∀ m, (order m).Perm m.entries

/-- What the handler finds around it: the order of its maps, and the file `/proc/self/stat`, which
is empty if it cannot be opened. -/
structure MetricsEnvironment where
  counterOrder : IterationOrder Counter
  headerOrder : IterationOrder Str
  statFile : Str

/-- `Counter::inc`. -/
def Counter.inc (counter : Counter) : Counter :=
  { counter with count := counter.count + .ofNat 1 }

/-- The counter that `operator[]` makes. -/
def Counter.new : Counter := ⟨[], [], [], .ofNat 0⟩

/-- The counter of the requests. -/
def metricsRequests : Str := "metrics_requests".toList

/-- `counters["metrics_requests"].inc()`. A counter that is not there is made. -/
def Metrics.countRequest (metrics : Metrics) : Metrics :=
  { metrics with
    counters := metrics.counters.insert metricsRequests
      ((metrics.counters.lookup metricsRequests).getD .new).inc }

/-- What the three lines about the threads begin with. -/
def threadsRunning : Str := "tendril_process_threads_running".toList

/-- The lines about the threads: there are some when the first line of the file has a twentieth
value. -/
def threadLines (e : MetricsEnvironment) (metrics : Metrics) : Str :=
  match (pieces ' ' (((next '\n' e.statFile).map Prod.fst).getD []))[19]? with
  | none => []
  | some value =>
    '#' :: ' ' :: (threadsRunning ++ " number of threads running in a specific process\n".toList)
      ++ ('#' :: ' ' :: (threadsRunning ++ " number summary\n".toList))
      ++ (threadsRunning ++ metrics.pidString ++ ' ' :: (value ++ ['\n']))

/-- The lines of a counter. -/
def counterLines (counter : Counter) : Str :=
  '#' :: ' ' :: (counter.help ++ ['\n']) ++ ('#' :: ' ' :: (counter.type ++ ['\n']))
    ++ (counter.format ++ ' ' :: (Double.shown 6 counter.count ++ ['\n']))

/-- `get_metrics`. -/
def getMetrics (e : MetricsEnvironment) (metrics : Metrics) : Metrics × Str :=
  (metrics.countRequest, threadLines e metrics.countRequest ++
    (e.counterOrder.order metrics.countRequest.counters).flatMap fun entry ↦
      counterLines entry.2)

/-! ## The handler -/

/-- The version the handler speaks. -/
def http11 : Str := "HTTP/1.1".toList

/-- The method it knows. -/
def getMethod : Str := "GET".toList

/-- The path of the landing page. -/
def rootPath : Str := "/".toList

/-- The path of the metrics. -/
def metricsPath : Str := "/metrics".toList

/-- The landing page. -/
def landingPage : Str :=
  "<html><div>Tendril metrics</div><a href=\"/metrics\">metrics</a></html>".toList

/-- The header of the type. -/
def contentTypeKey : Str := "Content-type".toList

/-- The header of the length. -/
def contentLengthKey : Str := "Content-length".toList

/-- `handle_request`, as far as it sets the response. -/
def respond (e : MetricsEnvironment) (request : Request) (metrics : Metrics) :
    Metrics × Response :=
  if request.versionString = http11 then
    let response := Response.new.version request.versionString
    if request.methodString = getMethod then
      if request.pathString = rootPath then
        let response := response.body landingPage
        let response := response.setHeader contentTypeKey "text/html".toList
        let response := response.setHeader contentLengthKey
          (Nat.toDigits 10 response.bodyString.length)
        (metrics, response.responseCode 200)
      else if request.pathString = metricsPath then
        let result := getMetrics e metrics
        let response := response.body result.2
        let response := response.setHeader contentTypeKey "text/plain".toList
        let response := response.setHeader contentLengthKey
          -- One more than the body has.
          (Nat.toDigits 10 (response.bodyString.length + 1))
        (result.1, response.responseCode 200)
      else (metrics, response.responseCode 404)
    else (metrics, response.responseCode 501)
  else (metrics, (Response.new.version http11).responseCode 505)

/-- The text of a response, as `handle_request` streams it. -/
def responseText (e : MetricsEnvironment) (response : Response) : Str :=
  response.statusLine ++ crlf
    ++ ((e.headerOrder.order response.headersMap).flatMap fun header ↦
      headerLine header.1 header.2 ++ crlf)
    ++ (crlf ++ crlf ++ response.bodyString ++ crlf)

/-- `handle_request`: the metrics it leaves and the text it returns. -/
def handleRequest (e : MetricsEnvironment) (requestPointer : Str) (metrics : Metrics) :
    Except OutOfRange (Metrics × Str) := do
  let request ← parseHttpRequest requestPointer .new
  return ((respond e request metrics).1, responseText e (respond e request metrics).2)

/-! ## What the client reads -/

/-- A function that is undefined or `b` on a list, and `b` somewhere, is `b` first. -/
private theorem findSome?_eq_some {α β : Type} {f : α → Option β} {l : List α} {b : β}
    (h : ∀ a ∈ l, f a = none ∨ f a = some b) (hex : ∃ a ∈ l, f a = some b) :
    l.findSome? f = some b := by
  induction l with
  | nil =>
    obtain ⟨a, ha, -⟩ := hex
    exact absurd ha List.not_mem_nil
  | cons a l ih =>
    rw [List.findSome?_cons]
    rcases h a List.mem_cons_self with ha | ha
    · rw [ha]
      obtain ⟨a', ha', hsome⟩ := hex
      rcases List.mem_cons.mp ha' with rfl | ha'
      · exact absurd (ha.symm.trans hsome) (by simp)
      · exact ih (fun c hc ↦ h c (List.mem_cons_of_mem _ hc)) ⟨a', ha', hsome⟩
    · rw [ha]

variable {e : MetricsEnvironment} {request : Request} {metrics : Metrics}

/-- The headers of a response with a body: its type and a length. -/
def bodyHeaders (type : Str) (n : ℕ) : Headers :=
  ((∅ : Headers).insert contentTypeKey type).insert contentLengthKey (Nat.toDigits 10 n)

theorem mem_order_bodyHeaders {type : Str} {n : ℕ} {header : Sigma fun _ : Str ↦ Str} :
    header ∈ e.headerOrder.order (bodyHeaders type n)
      ↔ header = ⟨contentLengthKey, Nat.toDigits 10 n⟩ ∨ header = ⟨contentTypeKey, type⟩ := by
  rw [(e.headerOrder.perm _).mem_iff]
  have hentries : (bodyHeaders type n).entries
      = [⟨contentLengthKey, Nat.toDigits 10 n⟩, ⟨contentTypeKey, type⟩] := rfl
  rw [hentries, List.mem_cons, List.mem_singleton]

/-- A response with a body. -/
def okResponse (body type : Str) (n : ℕ) : Response :=
  ⟨body, http11, 200, "OK".toList, bodyHeaders type n⟩

/-- The status line of a response with a body. -/
def okLine : Str := "HTTP/1.1 200 OK".toList

theorem statusLine_okResponse (body type : Str) (n : ℕ) :
    (okResponse body type n).statusLine = okLine := by
  have hdigits : Nat.toDigits 10 200 = ['2', '0', '0'] := by decide
  rw [Response.statusLine, okResponse, hdigits]
  rfl

/-- **The client reads past the head and one line end too few.** Of a response with a body it reads
the announced number of bytes of a text that begins with a line end. -/
theorem readBody_okResponse {body type : Str} {n : ℕ} (htype : LineText type)
    (hn : n ≤ (crlf ++ (body ++ crlf)).length) :
    readBody (responseText e (okResponse body type n))
      = some ((crlf ++ (body ++ crlf)).take n) := by
  set lines := okLine :: (e.headerOrder.order (bodyHeaders type n)).map
    fun header ↦ headerLine header.1 header.2 with hlines
  have htext : responseText e (okResponse body type n)
      = crlfLines lines ++ (crlf ++ (crlf ++ (body ++ crlf))) := by
    rw [responseText, statusLine_okResponse, hlines, crlfLines_cons, crlfLines, List.flatMap_map]
    simp only [okResponse, List.append_assoc]
  have hmem : ∀ line ∈ lines, line = okLine ∨
      line = headerLine contentLengthKey (Nat.toDigits 10 n) ∨
      line = headerLine contentTypeKey type := by
    intro line hline
    rcases List.mem_cons.mp hline with rfl | hline
    · exact .inl rfl
    · obtain ⟨header, hheader, rfl⟩ := List.mem_map.mp hline
      rcases mem_order_bodyHeaders.mp hheader with rfl | rfl
      · exact .inr (.inl rfl)
      · exact .inr (.inr rfl)
  have hlength : lineLength (headerLine contentLengthKey (Nat.toDigits 10 n)) = some n :=
    lineLength_contentLength n
  have hline : ∀ line ∈ lines, line ≠ [] ∧ LineText line := by
    intro line hline
    rcases hmem line hline with rfl | rfl | rfl
    · decide
    · exact ⟨by simp [headerLine], .append (by decide) (.cons (by decide) (.cons (by decide)
        (lineText_toDigits n)))⟩
    · exact ⟨by simp [headerLine], .append (by decide) (.cons (by decide) (.cons (by decide)
        htype))⟩
  have hfind : lines.findSome? lineLength = some n := by
    refine findSome?_eq_some (fun line hline ↦ ?_) ⟨_, ?_, hlength⟩
    · rcases hmem line hline with rfl | rfl | rfl
      · exact .inl rfl
      · exact .inr hlength
      · exact .inl rfl
    · exact List.mem_cons_of_mem _ (List.mem_map.mpr ⟨_, mem_order_bodyHeaders.mpr (.inl rfl), rfl⟩)
  rw [htext, readBody_lines hline (List.cons_ne_nil _ _), hfind, Option.bind_some, if_pos hn]

/-- The text of the metrics begins with a number sign, for there is always the counter of the
requests. -/
theorem head_getMetrics (e : MetricsEnvironment) (metrics : Metrics) :
    (getMetrics e metrics).2.head? = some '#' := by
  have hne : e.counterOrder.order metrics.countRequest.counters ≠ [] := by
    intro hnil
    have hperm := e.counterOrder.perm metrics.countRequest.counters
    rw [hnil, List.nil_perm] at hperm
    have hmem : metricsRequests ∈ metrics.countRequest.counters := by
      rw [Metrics.countRequest, AList.mem_insert]
      exact .inl rfl
    rw [AList.mem_keys, AList.keys, hperm] at hmem
    exact absurd hmem List.not_mem_nil
  obtain ⟨entry, entries, hentries⟩ := List.exists_cons_of_ne_nil hne
  rw [getMetrics, hentries, List.flatMap_cons, threadLines]
  split
  · rfl
  · rfl

/-- No text that begins with something else is read behind a line end. -/
theorem take_crlf_ne {body : Str} {c : Char} (hbody : body.head? = some c) (hc : c ≠ '\r')
    (n : ℕ) : (crlf ++ (body ++ crlf)).take n ≠ body := by
  intro h
  rw [← h, List.head?_take] at hbody
  split at hbody
  · exact absurd hbody (by simp)
  · exact hc (Option.some.inj hbody).symm

/-- The response to a request for the landing page. -/
theorem respond_root (hversion : request.versionString = http11)
    (hmethod : request.methodString = getMethod) (hpath : request.pathString = rootPath) :
    respond e request metrics
      = (metrics, okResponse landingPage "text/html".toList landingPage.length) := by
  rw [respond, if_pos hversion, if_pos hmethod, if_pos hpath, hversion]
  rfl

/-- The response to a request for the metrics. -/
theorem respond_metrics (hversion : request.versionString = http11)
    (hmethod : request.methodString = getMethod) (hpath : request.pathString = metricsPath) :
    respond e request metrics = ((getMetrics e metrics).1,
      okResponse (getMetrics e metrics).2 "text/plain".toList
        ((getMetrics e metrics).2.length + 1)) := by
  have hroot : request.pathString ≠ rootPath := by
    rw [hpath]
    decide
  rw [respond, if_pos hversion, if_pos hmethod, if_neg hroot, if_pos hpath, hversion]
  rfl

/-- A response without headers announces no length. -/
theorem readBody_refused (e : MetricsEnvironment) :
    readBody (responseText e ((Response.new.version http11).responseCode 505)) = none := by
  have horder : e.headerOrder.order ((Response.new.version http11).responseCode 505).headersMap
      = [] := List.perm_nil.mp (e.headerOrder.perm ∅)
  rw [responseText, horder]
  rfl

/-- A request that is parsed is answered. -/
theorem handleRequest_of_parse {requestPointer : Str}
    (hparse : parseHttpRequest requestPointer .new = .ok request) (e : MetricsEnvironment)
    (metrics : Metrics) : handleRequest e requestPointer metrics
      = .ok ((respond e request metrics).1, responseText e (respond e request metrics).2) := by
  rw [handleRequest, hparse]
  rfl

/-- **The client never reads the body that was set.** -/
theorem readBody_handleRequest_ne {requestPointer : Str}
    (hparse : parseHttpRequest requestPointer .new = .ok request)
    (hmethod : request.methodString = getMethod)
    (hpath : request.pathString = rootPath ∨ request.pathString = metricsPath)
    (e : MetricsEnvironment) (metrics : Metrics) :
    ∃ metrics' text, handleRequest e requestPointer metrics = .ok (metrics', text) ∧
      readBody text ≠ some (respond e request metrics).2.bodyString := by
  refine ⟨_, _, handleRequest_of_parse hparse e metrics, ?_⟩
  by_cases hversion : request.versionString = http11
  · rcases hpath with hpath | hpath
    · rw [respond_root hversion hmethod hpath]
      intro h
      rw [readBody_okResponse (by decide) (by decide), Option.some_inj] at h
      exact take_crlf_ne (by rfl) (by decide) _ h
    · rw [respond_metrics hversion hmethod hpath]
      intro h
      rw [readBody_okResponse (by decide) (by simp [crlf]), Option.some_inj] at h
      exact take_crlf_ne (head_getMetrics e metrics) (by decide) _ h
  · have hrespond : (respond e request metrics).2
        = (Response.new.version http11).responseCode 505 := by
      rw [respond, if_neg hversion]
    rw [hrespond, readBody_refused]
    exact (Option.some_ne_none _).symm

/-! ## The landing page -/

/-- Maps visited as they are, and no file. -/
def countingEnvironment : MetricsEnvironment where
  counterOrder := ⟨AList.entries, fun _ ↦ .refl _⟩
  headerOrder := ⟨AList.entries, fun _ ↦ .refl _⟩
  statFile := []

/-- `GET / HTTP/1.1`. -/
def landingRequest : Str := "GET / HTTP/1.1\r\n\r\n".toList

/-- What the request is parsed into. -/
def landingParsed : Request := ⟨getMethod, rootPath, http11, ∅⟩

theorem parse_landingRequest : parseHttpRequest landingRequest .new = .ok landingParsed := by rfl

theorem readBody_handleRequest_ne_landingRequest : ∃ metrics' text,
    handleRequest countingEnvironment landingRequest ⟨[], ∅⟩ = .ok (metrics', text) ∧
      readBody text ≠ some landingPage :=
  readBody_handleRequest_ne parse_landingRequest rfl (.inl rfl) countingEnvironment ⟨[], ∅⟩

/-- Of the landing page the client reads a line end and all but the last two characters. -/
theorem readBody_landingRequest : ∃ metrics' text,
    handleRequest countingEnvironment landingRequest ⟨[], ∅⟩ = .ok (metrics', text) ∧
      readBody text = some (crlf ++ landingPage.dropLast.dropLast) ∧
      readBody text ≠ some landingPage := by
  have htake : (crlf ++ (landingPage ++ crlf)).take landingPage.length
      = crlf ++ landingPage.dropLast.dropLast := by decide
  have hread : readBody (responseText countingEnvironment
      (respond countingEnvironment landingParsed ⟨[], ∅⟩).2)
        = some (crlf ++ landingPage.dropLast.dropLast) := by
    rw [respond_root rfl rfl rfl, readBody_okResponse (by decide) (by decide), htake]
  refine ⟨_, _, handleRequest_of_parse parse_landingRequest countingEnvironment _, hread, ?_⟩
  rw [hread]
  decide

end SlimTS

import SlimTS.Common.Network.Metrics
import SlimTS.Library.Exposition

/-!
# Scraping the metrics

What `get_metrics` writes is a text of samples: two comments and a sample for each counter, and
before them those of the threads. This module says what a reader of such texts gets from what a
client of `handle_request` takes for the body.

The client never takes the body that was set: it reads a line end before it, and not the last one of
the body. For the samples neither matters. The line end in front makes a line that is passed over,
and the last line of the body is read without its end (`samples_readBody_metrics`).

A count is a `double`, and a stream writes six significant digits of it, so the samples say exactly
what is counted as long as a count has no more. From a million on they do not: 1000001 is written
`1e+06`.

The samples are read as they were meant when the texts of the counters are texts of one line and no
format begins with a number sign. The counters that `add_counter` makes of such texts are so, with
the process in the place of the token `%pid`.
-/

namespace SlimTS

open Getline Exposition

/-- The marks of the text format. -/
def scrapeMarks : Marks Char where
  mark := '#'
  blank := ' '
  lineEnd := '\n'
  mark_ne_blank := by decide
  lineEnd_ne_mark := by decide
  lineEnd_ne_blank := by decide

/-! ## Counters of one line -/

/-- The texts of a counter are texts of one line, and its format begins no comment. -/
structure Counter.WellFormed (counter : Counter) : Prop where
  help : '\n' ∉ counter.help
  type : '\n' ∉ counter.type
  format : '\n' ∉ counter.format
  mark : counter.format.head? ≠ some '#'

/-- The text of the process is a text of one line, and all counters are well formed. -/
structure Metrics.WellFormed (metrics : Metrics) : Prop where
  pidString : '\n' ∉ metrics.pidString
  counters : ∀ key counter, metrics.counters.lookup key = some counter → counter.WellFormed

/-- `Metrics::Metrics`, in the process with the given number. -/
def Metrics.new (pid : ℕ) : Metrics where
  pidString := "\x7bpid=\"".toList ++ Nat.toDigits 10 pid ++ "\"\x7d".toList
  counters := ∅

/-- The token that stands for the process. -/
def pidToken : Str := "%pid".toList

/-- The format that `add_counter` puts in a counter. A token at the very beginning is not seen. -/
def Metrics.putPid (metrics : Metrics) (format : Str) : Except OutOfRange Str :=
  let pidTokenPosition := toInt (Text.findFrom format pidToken 0)
  if 0 < pidTokenPosition then Text.replace format pidTokenPosition 4 metrics.pidString
  else .ok format

/-- The arguments of a call of `add_counter`. -/
structure CounterTexts where
  key : Str
  help : Str
  type : Str
  format : Str

/-- `Metrics::add_counter`. -/
def Metrics.addCounter (metrics : Metrics) (texts : CounterTexts) :
    Except OutOfRange (Metrics) := do
  let format ← metrics.putPid texts.format
  return { metrics with
    counters := metrics.counters.insert texts.key ⟨texts.help, texts.type, format, .ofNat 0⟩ }

/-- Texts of one line, and a format that begins no comment. -/
structure CounterTexts.WellFormed (texts : CounterTexts) : Prop where
  help : '\n' ∉ texts.help
  type : '\n' ∉ texts.type
  format : '\n' ∉ texts.format
  mark : texts.format.head? ≠ some '#'

instance (texts : CounterTexts) : Decidable texts.WellFormed :=
  decidable_of_iff ('\n' ∉ texts.help ∧ '\n' ∉ texts.type ∧ '\n' ∉ texts.format ∧
    texts.format.head? ≠ some '#')
    ⟨fun ⟨h₁, h₂, h₃, h₄⟩ ↦ ⟨h₁, h₂, h₃, h₄⟩, fun ⟨h₁, h₂, h₃, h₄⟩ ↦ ⟨h₁, h₂, h₃, h₄⟩⟩

/-! ## What `add_counter` makes -/

variable {e : MetricsEnvironment} {metrics : Metrics}

theorem firstAt_le_length {token text : Str} {k : ℕ} (h : Text.firstAt token text = some k) :
    k ≤ text.length := by
  induction text generalizing k with
  | nil =>
    rw [Text.firstAt] at h
    split at h
    · exact (Option.some.inj h).ge
    · cases h
  | cons c text ih =>
    rw [Text.firstAt] at h
    split at h
    · exact (Option.some.inj h) ▸ Nat.zero_le _
    · obtain ⟨k', hk', rfl⟩ := Option.map_eq_some_iff.mp h
      exact Nat.succ_le_succ (ih hk')

/-- The token is found in the string. -/
theorem findFrom_le_length (text token : Str) : Text.findFrom text token 0 ≤ text.length := by
  rw [Text.findFrom, if_neg (by omega)]
  split
  · rw [Text.npos]
    omega
  · next k hk =>
    have hle := firstAt_le_length hk
    rw [Int.toNat_zero, List.drop_zero] at hle
    omega

/-- The replacement never throws, it leaves the first character, and what it puts in is the text of
the process. -/
theorem putPid_spec (metrics : Metrics) (format : Str) :
    ∃ format', metrics.putPid format = .ok format' ∧ format'.head? = format.head? ∧
      ∀ c ∈ format', c ∈ format ∨ c ∈ metrics.pidString := by
  rw [Metrics.putPid]
  split
  · next hpos =>
    have hle : toInt (Text.findFrom format pidToken 0) ≤ format.length := by
      rcases lt_or_ge (Text.findFrom format pidToken 0) 0 with hneg | hge
      · -- `npos` is no position.
        rw [Text.findFrom, if_neg (by omega)] at hneg hpos
        split at hneg
        · next hnone =>
          simp only [hnone] at hpos
          exact absurd hpos (by decide)
        · omega
      · exact (toInt_le_self hge).trans (findFrom_le_length format pidToken)
    refine ⟨_, by rw [Text.replace, if_neg (by omega)], ?_, fun c hc ↦ ?_⟩
    · obtain ⟨k, hk⟩ : ∃ k, (toInt (Text.findFrom format pidToken 0)).toNat = k + 1 :=
        ⟨(toInt (Text.findFrom format pidToken 0)).toNat - 1, by omega⟩
      cases format with
      | nil =>
        rw [List.length_nil] at hle
        omega
      | cons c format => rw [hk]; rfl
    · rcases List.mem_append.mp hc with hc | hc
      · exact .inl (List.mem_of_mem_take hc)
      · rcases List.mem_append.mp hc with hc | hc
        · exact .inr hc
        · exact .inl (List.mem_of_mem_drop hc)
  · exact ⟨format, rfl, rfl, fun c hc ↦ .inl hc⟩

/-- The metrics of a process without counters are well formed. -/
theorem wellFormed_new (pid : ℕ) : (Metrics.new pid : Metrics).WellFormed where
  pidString h := by
    rcases List.mem_append.mp h with h | h
    · exact (List.mem_append.mp h).elim (by decide) (lineText_toDigits pid).2.1
    · exact absurd h (by decide)
  counters key counter h := by
    cases (AList.lookup_empty key).symm.trans h

/-- **`add_counter` keeps the metrics well formed**, and never throws. -/
theorem Metrics.WellFormed.addCounter (h : metrics.WellFormed) {texts : CounterTexts}
    (htexts : texts.WellFormed) :
    ∃ metrics', metrics.addCounter texts = .ok metrics' ∧ metrics'.WellFormed := by
  obtain ⟨format, hput, hhead, hmem⟩ := putPid_spec metrics texts.format
  have hadd : metrics.addCounter texts = .ok { metrics with
      counters := metrics.counters.insert texts.key
        ⟨texts.help, texts.type, format, .ofNat 0⟩ } := by
    rw [Metrics.addCounter, hput]
    rfl
  refine ⟨_, hadd, h.pidString, fun key counter hlookup ↦ ?_⟩
  rcases lookup_insert_eq_some_iff.mp hlookup with ⟨-, rfl⟩ | ⟨-, hold⟩
  · exact ⟨htexts.help, htexts.type,
      fun hend ↦ (hmem _ hend).elim htexts.format h.pidString, hhead ▸ htexts.mark⟩
  · exact h.counters key counter hold

/-! ## Counting up -/

/-- `counters[key].inc()`. A counter that is not there is made. -/
def Metrics.inc (key : Str) (metrics : Metrics) : Metrics :=
  { metrics with
    counters := metrics.counters.insert key
      ((metrics.counters.lookup key).getD .new).inc }

theorem countRequest_eq_inc (metrics : Metrics) :
    metrics.countRequest = metrics.inc metricsRequests := rfl

/-- A counter made by counting begins no comment. -/
theorem Metrics.WellFormed.inc (h : metrics.WellFormed) (key : Str) :
    (metrics.inc key).WellFormed where
  pidString := h.pidString
  counters key' counter hlookup := by
    rcases lookup_insert_eq_some_iff.mp hlookup with ⟨-, rfl⟩ | ⟨-, hold⟩
    · rcases hcounter : metrics.counters.lookup key with - | counter
      · exact ⟨List.not_mem_nil, List.not_mem_nil, List.not_mem_nil, (Option.some_ne_none _).symm⟩
      · have hwell := h.counters key counter hcounter
        exact ⟨hwell.help, hwell.type, hwell.format, hwell.mark⟩
    · exact h.counters key' counter hold

/-! ## The text and its samples -/

/-- The number of threads, as the file gives it. -/
def threadsValue (e : MetricsEnvironment) : Option Str :=
  (pieces ' ' (((next '\n' e.statFile).map Prod.fst).getD []))[19]?

/-- The lines about the threads. -/
def threadExposition (metrics : Metrics) (value : Str) : List (Line Char) :=
  [.comment (' ' :: (threadsRunning ++ " number of threads running in a specific process".toList)),
    .comment (' ' :: (threadsRunning ++ " number summary".toList)),
    .sample (threadsRunning ++ metrics.pidString) value]

/-- The lines of a counter. -/
def Counter.exposition (counter : Counter) : List (Line Char) :=
  [.comment (' ' :: counter.help), .comment (' ' :: counter.type),
    .sample counter.format (Double.shown 6 counter.count)]

/-- The lines of the metrics. -/
def Metrics.exposition (e : MetricsEnvironment) (metrics : Metrics) : List (Line Char) :=
  (threadsValue e).toList.flatMap (threadExposition metrics)
    ++ (e.counterOrder.order metrics.counters).flatMap fun entry ↦ entry.2.exposition

/-- What the metrics say: the number of threads where the file gives one, and each counter. -/
def Metrics.samples (e : MetricsEnvironment) (metrics : Metrics) : List (Str × Str) :=
  (threadsValue e).toList.map (fun value ↦ (threadsRunning ++ metrics.pidString, value))
    ++ (e.counterOrder.order metrics.counters).map fun entry ↦
      (entry.2.format, Double.shown 6 entry.2.count)

/-- `get_metrics` writes a text of samples. -/
theorem getMetrics_eq_terminate (e : MetricsEnvironment) (metrics : Metrics) :
    (getMetrics e metrics).2
      = terminate '\n' (((metrics.countRequest).exposition e).map (Line.write scrapeMarks)) := by
  have hthreads : threadLines e (metrics.countRequest) = terminate '\n'
      (((threadsValue e).toList.flatMap (threadExposition (metrics.countRequest))).map
        (Line.write scrapeMarks)) := by
    have hnumber : " number of threads running in a specific process\n".toList
        = " number of threads running in a specific process".toList ++ ['\n'] := by decide
    have hsummary : " number summary\n".toList = " number summary".toList ++ ['\n'] := by decide
    unfold threadLines threadsValue
    generalize (pieces ' ' (((next '\n' e.statFile).map Prod.fst).getD []))[19]? = value
    cases value with
    | none => rfl
    | some value =>
      simp only [hnumber, hsummary, Option.toList_some, List.flatMap_singleton, threadExposition,
        List.map_cons, List.map_nil, terminate_cons, terminate_nil, Line.write, scrapeMarks,
        List.append_assoc, List.cons_append, List.nil_append]
  have hcounters : ∀ entries : List (Sigma fun _ : Str ↦ Counter),
      (entries.flatMap fun entry ↦ counterLines entry.2) = terminate '\n'
        ((entries.flatMap fun entry ↦ entry.2.exposition).map (Line.write scrapeMarks)) := by
    intro entries
    induction entries with
    | nil => rfl
    | cons entry entries ih =>
      rw [List.flatMap_cons, List.flatMap_cons, List.map_append, terminate_append, ih]
      simp [terminate, counterLines, Counter.exposition, Line.write, scrapeMarks]
  rw [getMetrics, Metrics.exposition, List.map_append, terminate_append, hthreads, hcounters]

theorem filterMap_toSample_exposition (e : MetricsEnvironment) (metrics : Metrics) :
    (metrics.exposition e).filterMap Line.toSample = metrics.samples e := by
  have hcounters : ∀ entries : List (Sigma fun _ : Str ↦ Counter),
      (entries.flatMap fun entry ↦ entry.2.exposition).filterMap Line.toSample
        = entries.map fun entry ↦ (entry.2.format, Double.shown 6 entry.2.count) := by
    intro entries
    induction entries with
    | nil => rfl
    | cons entry entries ih =>
      rw [List.flatMap_cons, List.filterMap_append, ih]
      rfl
  rw [Metrics.exposition, Metrics.samples, List.filterMap_append, hcounters]
  rcases threadsValue e with - | value <;> rfl

/-- A count of at most six digits is shown exactly. -/
theorem Metrics.mem_samples {key : Str} {counter : Counter} {n : ℕ}
    (hlookup : metrics.counters.lookup key = some counter) (hcount : counter.count = .ofNat n)
    (hlt : n < 10 ^ 6) : (counter.format, Nat.toDigits 10 n) ∈ metrics.samples e := by
  have hentry : (⟨key, counter⟩ : Sigma fun _ : Str ↦ Counter) ∈
      e.counterOrder.order metrics.counters :=
    (e.counterOrder.perm _).mem_iff.mpr (AList.mem_lookup_iff.mp hlookup)
  have hshown : Double.shown 6 counter.count = Nat.toDigits 10 n := by
    rw [hcount, Double.shown_ofNat (hlt.trans (by decide)) hlt]
  exact List.mem_append_right _ (List.mem_map.mpr ⟨_, hentry, by rw [hshown]⟩)

/-- The value that the file gives is one word. -/
theorem not_mem_threadsValue {value : Str} (h : threadsValue e = some value) :
    ' ' ∉ value ∧ '\n' ∉ value := by
  have hmem := List.mem_of_getElem? h
  refine ⟨not_mem_of_mem_pieces hmem, fun hend ↦ ?_⟩
  have hline := (infix_of_mem_pieces hmem).subset hend
  rcases hnext : next '\n' e.statFile with - | ⟨line, rest⟩
  · rw [hnext] at hline
    exact absurd hline List.not_mem_nil
  · rw [hnext, Option.map_some, Option.getD_some] at hline
    rw [next] at hnext
    split at hnext
    · cases hnext
    · cases hnext
      simpa using List.mem_takeWhile_imp hline

/-- Every line of the metrics is written in one line and means what it says. -/
theorem Metrics.WellFormed.exposition (h : metrics.WellFormed) (e : MetricsEnvironment) :
    ∀ line ∈ metrics.exposition e, line.WellFormed scrapeMarks := by
  intro line hline
  rcases List.mem_append.mp hline with hline | hline
  · obtain ⟨value, hvalue, hline⟩ := List.mem_flatMap.mp hline
    obtain ⟨hblank, hend⟩ := not_mem_threadsValue (Option.mem_toList.mp hvalue)
    simp only [threadExposition, List.mem_cons, List.not_mem_nil, or_false] at hline
    have hnumber : '\n' ∉ ' ' :: (threadsRunning
        ++ " number of threads running in a specific process".toList) := by decide
    have hsummary : '\n' ∉ ' ' :: (threadsRunning ++ " number summary".toList) := by decide
    have hhead : (threadsRunning ++ metrics.pidString).head? = some 't' := rfl
    have hname : '\n' ∉ threadsRunning ++ metrics.pidString := fun hname ↦
      (List.mem_append.mp hname).elim (by decide) h.pidString
    rcases hline with rfl | rfl | rfl
    · exact hnumber
    · exact hsummary
    · exact ⟨fun hmark ↦ absurd (hhead.symm.trans hmark) (by decide), hname, hend, hblank⟩
  · obtain ⟨⟨key, counter⟩, hentry, hline⟩ := List.mem_flatMap.mp hline
    have hwell : counter.WellFormed :=
      h.counters key counter (AList.mem_lookup_iff.mpr ((e.counterOrder.perm _).mem_iff.mp hentry))
    simp only [Counter.exposition, List.mem_cons, List.not_mem_nil, or_false] at hline
    rcases hline with rfl | rfl | rfl
    · exact fun hend ↦ (List.mem_cons.mp hend).elim (by decide) hwell.help
    · exact fun hend ↦ (List.mem_cons.mp hend).elim (by decide) hwell.type
    · have hword := Double.word_shown 6 counter.count
      exact ⟨hwell.mark, hwell.format, hword.not_mem (by decide) (by decide),
        hword.not_mem (by decide) (by decide)⟩

/-! ## What the client reads of them -/

/-- A request for the metrics. -/
structure Request.IsScrape (request : Request) : Prop where
  version : request.versionString = http11
  method : request.methodString = getMethod
  path : request.pathString = metricsPath

instance (request : Request) : Decidable request.IsScrape :=
  decidable_of_iff (request.versionString = http11 ∧ request.methodString = getMethod ∧
    request.pathString = metricsPath)
    ⟨fun ⟨h₁, h₂, h₃⟩ ↦ ⟨h₁, h₂, h₃⟩, fun ⟨h₁, h₂, h₃⟩ ↦ ⟨h₁, h₂, h₃⟩⟩

/-- Of one byte more than the body the client reads a line end, and the body but for its last
character. -/
theorem take_crlf_body {body : Str} (h : body ≠ []) :
    (crlf ++ (body ++ crlf)).take (body.length + 1) = '\r' :: '\n' :: body.dropLast := by
  have hpos : 0 < body.length := List.length_pos_of_ne_nil h
  obtain ⟨n, hn⟩ : ∃ n, body.length = n + 1 := ⟨body.length - 1, by omega⟩
  have htake : (body ++ crlf).take n = body.dropLast := by
    rw [List.take_append_of_le_length (by omega), List.dropLast_eq_take, hn, Nat.add_sub_cancel]
  rw [hn, crlf, List.cons_append, List.cons_append, List.nil_append, List.take_succ_cons,
    List.take_succ_cons, ← htake, crlf]

/-- A counter of the connections that shows the process. -/
def connectionsTexts : CounterTexts where
  key := "tcp_connections".toList
  help := "connections".toList
  type := "counter".toList
  format := "tcp%pid".toList

/-- The metrics of process 7 with that counter. -/
def connectionsMetrics : Metrics where
  pidString := "\x7bpid=\"7\"\x7d".toList
  counters := (∅ : AList fun _ : Str ↦ Counter).insert "tcp_connections".toList
    ⟨"connections".toList, "counter".toList, "tcp\x7bpid=\"7\"\x7d".toList, .ofNat 0⟩

theorem addCounter_connectionsTexts :
    (Metrics.new 7).addCounter connectionsTexts = .ok connectionsMetrics := by
  rfl

theorem wellFormed_connectionsMetrics : connectionsMetrics.WellFormed := by
  have htexts : connectionsTexts.WellFormed := by decide
  obtain ⟨metrics, hadd, h⟩ := (wellFormed_new 7).addCounter htexts
  rw [addCounter_connectionsTexts, Except.ok.injEq] at hadd
  exact hadd ▸ h

/-- `GET /metrics HTTP/1.1`. -/
def scrapeRequest : Str := "GET /metrics HTTP/1.1\r\n\r\n".toList

/-- What is parsed of it. -/
def scrapeParsed : Request := ⟨getMethod, metricsPath, http11, ∅⟩

theorem parse_scrapeRequest : parseHttpRequest scrapeRequest .new = .ok scrapeParsed := by rfl

end SlimTS

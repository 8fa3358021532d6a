import SlimTS.Plugin.Property

/-!
# Polling a broker

`kafka.consumer.consume` reads a time-out and a number of retries from its arguments and then polls
the broker. The broker is a parameter: what it answers to each poll, for a given time-out.

A poll that fails leads straight to the next one. The check of the retries is in a comment, and the
code that would throw the error stands behind a `goto`, where no run gets. So the number of retries
decides nothing, and the call ends with the first message, however late it is. The properties of the
object it returns are then set from two pointers, to the key and to the payload, and either is null
for a message that has none.
-/

namespace SlimTS

variable {Value State : Type}

/-! ## The arguments -/

/-- `V8ValueToInt`, behind what has been thrown: the number, what has been thrown after it, and the
state the conversion leaves. -/
def V8Values.intValue (v8 : V8Values Value State) (value : Value) (thrown : List Str) (s : State) :
    Option (ℤ × List Str × State) :=
  (v8.toInt32 value s).1.map fun n ↦
    (n, v8.thrownBeforeInt value thrown, (v8.toInt32 value s).2)

/-- What `consume` makes of its arguments. -/
structure ConsumeArguments where
  timeout : ℤ := 500
  retriesMax : ℤ := 1
  exceptions : List Str := []
deriving DecidableEq, Repr

section

variable [DecidableEq Value] (v8 : V8Values Value State)

/-- The second argument. -/
def readRetriesMax (first : ConsumeArguments) (args : List Value) (s : State) :
    Option ConsumeArguments :=
  match args with
  | [] => some first
  | value :: _ =>
    if value = v8.undefined then some first
    else (v8.intValue value first.exceptions s).map fun result ↦
      { first with
        retriesMax := result.1
        exceptions := result.2.1 }

/-- The arguments. The second is only looked at if there is a first. -/
def consumeArguments (args : List Value) (s : State) : Option ConsumeArguments :=
  match args with
  | [] => some {}
  | value :: args =>
    if value = v8.undefined then some {}
    else (v8.intValue value [] s).bind fun result ↦
      readRetriesMax v8 { timeout := result.1, exceptions := result.2.1 } args result.2.2

/-- The value is a number in the range of an `int32_t`, and its conversion gives it. -/
def V8Values.IsInteger (value : Value) (s : State) (n : ℤ) (s' : State) : Prop :=
  v8.isInt32 value = true ∧ v8.toInt32 value s = (some n, s')

/-- The script asks for a time-out and a number of retries. It may leave both of them to the
program, or the second. -/
inductive Requests (v8 : V8Values Value State) (s : State) : List Value → ℤ → ℤ → Prop
  | nothing (args : List Value) : args.headD v8.undefined = v8.undefined → Requests v8 s args 500 1
  | timeout (value : Value) (args : List Value) (timeout : ℤ) (s' : State) :
      value ≠ v8.undefined → v8.IsInteger value s timeout s' →
      args.headD v8.undefined = v8.undefined → Requests v8 s (value :: args) timeout 1
  | both (value value' : Value) (args : List Value) (timeout retriesMax : ℤ) (s' s'' : State) :
      value ≠ v8.undefined → v8.IsInteger value s timeout s' →
      value' ≠ v8.undefined → v8.IsInteger value' s' retriesMax s'' →
      Requests v8 s (value :: value' :: args) timeout retriesMax

end

/-! ## The loop -/

/-- A message of the broker. The payload is the bytes from the payload pointer on. -/
structure KafkaMessage where
  len : ℕ
  key : Option Str
  payload : Option Str
deriving DecidableEq, Repr

/-- What a poll gives. -/
inductive Polled
  | failed (err : ℤ) (errstr : Str)
  | received (message : KafkaMessage)
deriving DecidableEq, Repr

/-- The poll fails. -/
def Polled.Fails : Polled → Prop
  | .failed _ _ => True
  | .received _ => False

/-- The object of a message. -/
structure TopicMessage where
  len : ℤ
  key : JsString
  payload : JsString
deriving DecidableEq

/-- How the call ends. -/
inductive ConsumeOutcome
  | returned (object : TopicMessage)
  /-- The exception of the code behind the `goto`, an object made a string. -/
  | thrown (code : ℤ) (message : JsString)
  /-- A null pointer is read, or the number of an empty handle. -/
  | undefined
deriving DecidableEq

/-- A call that has ended. -/
structure ConsumeCall where
  exceptions : List Str
  polls : ℕ
  outcome : ConsumeOutcome
deriving DecidableEq

section

variable (v8 : Transcoding)

/-- The object the call returns for a message. -/
def topicMessage (message : KafkaMessage) : Option TopicMessage :=
  message.key.bind fun key ↦ message.payload.map fun payload ↦
    { len := toInt message.len
      key := stringToV8String v8 key
      payload := newFromUtf8 v8 payload }

/-- How the call ends with a message. -/
def deliverMessage (message : KafkaMessage) : ConsumeOutcome :=
  (topicMessage v8 message).elim .undefined .returned

/-- The code behind `do_consume`, for a number of rounds and the number of polls so far. -/
def doConsume (answers : ℕ → Polled) : ℕ → ℕ → Option (ℕ × ConsumeOutcome)
  | 0, _ => none
  | rounds + 1, polls =>
    match answers polls with
    -- `goto do_consume`, whatever the error, without a look at `retries_max`.
    | .failed _ _ => doConsume answers rounds (polls + 1)
    | .received message => some (polls + 1, deliverMessage v8 message)

/-- The call polls within the retries: it returns the first message, and throws the last error if
all polls have failed. -/
def KeepsRetries (answers : ℕ → Polled) (retriesMax : ℤ) (call : ConsumeCall) : Prop :=
  call.exceptions = [] ∧ ∃ k : ℕ, (k : ℤ) ≤ retriesMax ∧ call.polls = k + 1 ∧
    (∀ i < k, (answers i).Fails) ∧
    ((∃ message object, answers k = .received message ∧
        topicMessage v8 message = some object ∧ call.outcome = .returned object) ∨
      ((k : ℤ) = retriesMax ∧ ∃ err errstr, answers k = .failed err errstr ∧
        call.outcome = .thrown err (stringToV8String v8 errstr)))

end

section

variable [DecidableEq Value] (v8 : V8Values Value State)

/-- `consumer::consume`, for a number of rounds. The broker's answers depend on the time-out. -/
def consume (answers : ℤ → ℕ → Polled) (args : List Value) (s : State) (rounds : ℕ) :
    Option ConsumeCall :=
  match consumeArguments v8 args s with
  | none => some ⟨[], 0, .undefined⟩
  | some read => (doConsume v8.toTranscoding (answers read.timeout) rounds 0).map fun result ↦
      ⟨read.exceptions, result.1, result.2⟩

end

/-! ## What the arguments ask for -/

section

variable {v8 : V8Values Value State} {s s' : State} {value : Value}

/-- Nothing is thrown for an integer. -/
theorem V8Values.intValue_of_isInteger {n : ℤ} (h : v8.IsInteger value s n s')
    (thrown : List Str) : v8.intValue value thrown s = some (n, thrown, s') := by
  rw [intValue, h.2, thrownBeforeInt_of_isInt32 h.1]
  rfl

variable [DecidableEq Value]

theorem readRetriesMax_of_headD {first : ConsumeArguments} {args : List Value}
    (h : args.headD v8.undefined = v8.undefined) : readRetriesMax v8 first args s = some first := by
  cases args with
  | nil => rfl
  | cons value args => exact if_pos h

theorem consumeArguments_of_requests {args : List Value} {timeout retriesMax : ℤ}
    (h : Requests v8 s args timeout retriesMax) :
    consumeArguments v8 args s = some ⟨timeout, retriesMax, []⟩ := by
  cases h with
  | nothing _ hhead =>
    cases args with
    | nil => rfl
    | cons value args => exact if_pos hhead
  | timeout value args _ s' hvalue hinteger hhead =>
    rw [consumeArguments, if_neg hvalue, V8Values.intValue_of_isInteger hinteger]
    exact readRetriesMax_of_headD hhead
  | both value value' args _ _ s' s'' hvalue hinteger hvalue' hinteger' =>
    rw [consumeArguments, if_neg hvalue, V8Values.intValue_of_isInteger hinteger, Option.bind_some,
      readRetriesMax, if_neg hvalue', V8Values.intValue_of_isInteger hinteger']
    rfl

end

/-! ## The first message -/

section

variable {v8 : Transcoding} {answers : ℕ → Polled}

/-- The loop runs to the first message. -/
theorem doConsume_of_received {message : KafkaMessage} {k d polls : ℕ} (hk : polls + d = k)
    (hfails : ∀ i < k, polls ≤ i → (answers i).Fails) (hreceived : answers k = .received message) :
    doConsume v8 answers (d + 1) polls
      = some (k + 1, deliverMessage v8 message) := by
  induction d generalizing polls with
  | zero =>
    rw [Nat.add_zero] at hk
    rw [doConsume, hk, hreceived]
  | succ d ih =>
    have hfirst : (answers polls).Fails := hfails polls (by omega) le_rfl
    rw [doConsume]
    cases hpoll : answers polls with
    | failed err errstr => exact ih (by omega) fun i hi hle ↦ hfails i hi (by omega)
    | received message' =>
      rw [hpoll] at hfirst
      exact hfirst.elim

/-- It ends in no other way. -/
theorem exists_of_doConsume {rounds polls : ℕ} {result : ℕ × ConsumeOutcome}
    (h : doConsume v8 answers rounds polls = some result) :
    ∃ k message, polls ≤ k ∧ (∀ i < k, polls ≤ i → (answers i).Fails) ∧
      answers k = .received message ∧ result = (k + 1, deliverMessage v8 message) := by
  induction rounds generalizing polls with
  | zero => cases h
  | succ rounds ih =>
    rw [doConsume] at h
    cases hpoll : answers polls with
    | failed err errstr =>
      rw [hpoll] at h
      obtain ⟨k, message, hle, hfails, hreceived, rfl⟩ := ih h
      refine ⟨k, message, by omega, fun i hi hpolls ↦ ?_, hreceived, rfl⟩
      rcases hpolls.eq_or_lt with rfl | hpolls
      · rw [hpoll]
        trivial
      · exact hfails i hi hpolls
    | received message =>
      rw [hpoll] at h
      exact ⟨polls, message, le_rfl, fun i hi hpolls ↦ absurd hi hpolls.not_gt, hpoll,
        (Option.some_inj.mp h).symm⟩

/-- A broker that never delivers keeps the loop going. -/
theorem doConsume_eq_none (h : ∀ i, (answers i).Fails) (rounds polls : ℕ) :
    doConsume v8 answers rounds polls = none := by
  refine Option.eq_none_iff_forall_ne_some.mpr fun result hresult ↦ ?_
  obtain ⟨k, message, -, -, hreceived, -⟩ := exists_of_doConsume hresult
  have hk := h k
  rw [hreceived] at hk
  exact hk

theorem deliverMessage_eq_returned_iff {message : KafkaMessage} {object : TopicMessage} :
    deliverMessage v8 message = .returned object ↔
      topicMessage v8 message = some object := by
  rw [deliverMessage]
  cases topicMessage v8 message with
  | none => simp
  | some object' => simp

theorem deliverMessage_ne_thrown (message : KafkaMessage) (code : ℤ) (string : JsString) :
    deliverMessage v8 message ≠ .thrown code string := by
  rw [deliverMessage]
  cases topicMessage v8 message with
  | none => exact ConsumeOutcome.noConfusion
  | some object => exact ConsumeOutcome.noConfusion

/-- The object needs both pointers. -/
theorem topicMessage_isSome_iff (v8 : Transcoding) {message : KafkaMessage} :
    (∃ object, topicMessage v8 message = some object) ↔
      message.key.isSome = true ∧ message.payload.isSome = true := by
  rw [topicMessage]
  cases message.key <;> cases message.payload <;> simp

end

/-! ## Which calls keep to the retries -/

variable [DecidableEq Value] {v8 : V8Values Value State} {consumer : ℤ → ℕ → Polled}
  {args : List Value} {s : State}

/-- The first message comes within the retries, and has a key and a payload. -/
def ArrivesWithin (answers : ℕ → Polled) (retriesMax : ℤ) : Prop :=
  ∃ (k : ℕ) (message : KafkaMessage), (k : ℤ) ≤ retriesMax ∧ (∀ i < k, (answers i).Fails) ∧
    answers k = .received message ∧ message.key.isSome = true ∧ message.payload.isSome = true

theorem consume_of_requests {timeout retriesMax : ℤ} (h : Requests v8 s args timeout retriesMax)
    (rounds : ℕ) : consume v8 consumer args s rounds
      = (doConsume v8.toTranscoding (consumer timeout) rounds 0).map fun result ↦
          ⟨[], result.1, result.2⟩ := by
  rw [consume, consumeArguments_of_requests h]

/-- With numbers for arguments, the retries decide nothing but what the call should have done. -/
theorem exists_consume_iff_arrivesWithin {timeout retriesMax : ℤ}
    (h : Requests v8 s args timeout retriesMax) :
    (∃ rounds call, consume v8 consumer args s rounds = some call ∧
        KeepsRetries v8.toTranscoding (consumer timeout) retriesMax call) ↔
      ArrivesWithin (consumer timeout) retriesMax := by
  constructor
  · rintro ⟨rounds, call, hcall, -, k, hk, hpolls, -, hend⟩
    rw [consume_of_requests h, Option.map_eq_some_iff] at hcall
    obtain ⟨result, hresult, rfl⟩ := hcall
    obtain ⟨k', message, -, hfails, hreceived, rfl⟩ := exists_of_doConsume hresult
    -- The number of polls tells which of them was the last.
    obtain rfl : k' = k := Nat.succ_injective hpolls
    have hobject : ∃ object, topicMessage v8.toTranscoding message = some object := by
      rcases hend with ⟨-, object, -, -, hreturned⟩ | ⟨-, err, errstr, -, hthrown⟩
      · exact ⟨object, deliverMessage_eq_returned_iff.mp hreturned⟩
      · exact absurd hthrown (deliverMessage_ne_thrown message err _)
    exact ⟨k', message, hk, fun i hi ↦ hfails i hi (Nat.zero_le i), hreceived,
      (topicMessage_isSome_iff v8.toTranscoding).mp hobject⟩
  · rintro ⟨k, message, hk, hfails, hreceived, hpointers⟩
    obtain ⟨object, hobject⟩ := (topicMessage_isSome_iff v8.toTranscoding).mpr hpointers
    have hloop : doConsume v8.toTranscoding (consumer timeout) (k + 1) 0
        = some (k + 1, deliverMessage v8.toTranscoding message) :=
      doConsume_of_received (Nat.zero_add k) (fun i hi _ ↦ hfails i hi) hreceived
    refine ⟨k + 1, ⟨[], k + 1, deliverMessage v8.toTranscoding message⟩, ?_, rfl, k, hk, rfl,
      hfails, .inl ⟨message, object, hreceived, hobject,
        deliverMessage_eq_returned_iff.mpr hobject⟩⟩
    rw [consume_of_requests h, hloop, Option.map_some]

/-- A broker that times out. -/
def timedOut : Polled := .failed (-185) "Local: Timed out".toList

end SlimTS

import Mathlib.Data.Finset.Dedup
import SlimTS.Common.Basic
import SlimTS.Library.Lifetime

/-!
# The clients of the kafka plugin

The plugin keeps its two clients and their configurations behind six pointers of the module, all
null at first. `configure` sets those of a role, the other functions use the client, and `shutdown`
releases all that is there and leaves the pointers as they are. So a script that goes on after a
shutdown may use a client that is gone, and a second shutdown may release what has been released.

A call is modelled by what it does with the pointers, in its order; what the broker and the library
answer are data of the call. A role is not configured at once: a configuration that is refused
leaves the consumer as it was, and of the producer its topic configuration. A message is asked for
its key and its payload, and either pointer is null for one that has none. The calls are then
actions of their own (`run_accesses`), and a script's calls are defined just when each of them finds
the pointers as it needs them by the calls before it (`isSome_calls_iff`).
-/

namespace SlimTS

open Lifetime Transition

/-! ## The calls -/

/-- `ROLE`. -/
inductive KafkaRole
  | consumer
  | producer
deriving DecidableEq, Repr

/-- The pointers of the module. -/
inductive KafkaPointer
  | consumerConfiguration
  | producerConfiguration
  | consumerTopicConfiguration
  | producerTopicConfiguration
  | kafkaConsumer
  | kafkaProducer
deriving DecidableEq, Repr

/-- The pointers, in the order in which `shutdown` releases what they lead to. -/
def kafkaPointers : List KafkaPointer :=
  [.kafkaConsumer, .kafkaProducer, .consumerConfiguration, .producerConfiguration,
    .consumerTopicConfiguration, .producerTopicConfiguration]

theorem mem_kafkaPointers (p : KafkaPointer) : p ∈ kafkaPointers := by cases p <;> decide

instance : Fintype KafkaPointer :=
  ⟨kafkaPointers.toFinset, fun p ↦ List.mem_toFinset.mpr (mem_kafkaPointers p)⟩

/-- The client of a role. -/
def KafkaRole.client : KafkaRole → KafkaPointer
  | .consumer => .kafkaConsumer
  | .producer => .kafkaProducer

/-- The topic configuration of a role. -/
def KafkaRole.topicConfiguration : KafkaRole → KafkaPointer
  | .consumer => .consumerTopicConfiguration
  | .producer => .producerTopicConfiguration

/-- What the library answers to a configuration. A refusal comes with a text, and so does a client
that is not created. -/
structure ConfigureAnswers where
  /-- The setting of the role, the group of a consumer or the report of a producer, is refused. -/
  refused : Bool := false
  /-- The client is created, or null is returned. -/
  created : Bool := true
  /-- The topic configuration is refused. -/
  topicRefused : Bool := false
deriving DecidableEq, Repr

/-- A call of a function of the plugin. -/
inductive KafkaCall
  | consumerConfigure (answers : ConfigureAnswers)
  | producerConfigure (answers : ConfigureAnswers)
  | getName (role : KafkaRole)
  /-- The polls that fail, before the one that does not, and whether its message has a key and a
  payload. -/
  | consume (failed : ℕ) (key payload : Bool)
  /-- The arguments are those it asks for, or it throws. -/
  | produce (valid : Bool)
  | topicCreate (role : KafkaRole) (valid created : Bool)
  | topicRemove (role : KafkaRole)
  | subscribe
  | subscription
  | trace
  | shutdown
deriving DecidableEq, Repr

namespace KafkaCall

/-- `consumer::configure`. The client is only made once the group has been accepted. -/
def consumerConfigureAccesses (answers : ConfigureAnswers) : List (Access KafkaPointer) :=
  .assign .consumerConfiguration true ::
  .use .consumerConfiguration ::
  .use .consumerConfiguration ::
  if answers.refused then [] else
  .use .consumerConfiguration ::
  .assign .kafkaConsumer answers.created ::
  if !answers.created then [] else
  .assign .consumerTopicConfiguration true ::
  .use .consumerConfiguration ::
  .use .consumerTopicConfiguration ::
  if answers.topicRefused then [] else [.use .kafkaConsumer]

/-- `producer::configure`. The client is made first, and that it was not is only seen by the text
that is left at the end. -/
def producerConfigureAccesses (answers : ConfigureAnswers) : List (Access KafkaPointer) :=
  .assign .producerConfiguration true ::
  .use .producerConfiguration ::
  .use .producerConfiguration ::
  .assign .kafkaProducer answers.created ::
  .use .producerConfiguration ::
  if answers.refused then [] else
  .assign .producerTopicConfiguration true ::
  .use .producerConfiguration ::
  .use .producerTopicConfiguration ::
  if answers.topicRefused || !answers.created then [] else [.use .kafkaProducer]

/-- `topic::create`. A consumer subscribes to the topic that it creates. -/
def topicCreateAccesses (role : KafkaRole) (created : Bool) : List (Access KafkaPointer) :=
  .use role.client ::
  .useUnlessNull role.topicConfiguration ::
  match role with
  | .consumer => if created then [.use .kafkaConsumer] else []
  | .producer => []

/-- What a call does with the pointers. -/
def accesses : KafkaCall → List (Access KafkaPointer)
  | consumerConfigure answers => consumerConfigureAccesses answers
  | producerConfigure answers => producerConfigureAccesses answers
  | getName role => [.use role.client]
  | consume failed key payload =>
    List.replicate (failed + 1) (.use .kafkaConsumer) ++ [.useFound key, .useFound payload]
  | produce valid => if valid then [.use .kafkaProducer] else []
  | topicCreate role valid created => if valid then topicCreateAccesses role created else []
  | topicRemove _ => []
  | subscribe => [.use .kafkaConsumer]
  | subscription => [.use .kafkaConsumer]
  | trace => []
  | shutdown => .useUnlessNull .kafkaConsumer :: kafkaPointers.map .release

/-! ## A call as one action -/

/-- What a call needs of a pointer. -/
def needs : KafkaCall → KafkaPointer → Need
  | getName role, p => if p = role.client then .live else .nothing
  | consume _ key payload, p =>
    if (key && payload) = false then .never
    else if p = .kafkaConsumer then .live
    else .nothing
  | subscribe, .kafkaConsumer | subscription, .kafkaConsumer => .live
  | produce true, .kafkaProducer => .live
  | topicCreate role true _, p =>
    if p = role.client then .live
    else if p = role.topicConfiguration then .notFreed
    else .nothing
  | shutdown, _ => .notFreed
  | _, _ => .nothing

/-- What a call does to a pointer. -/
def does : KafkaCall → KafkaPointer → Deed
  | consumerConfigure _, .consumerConfiguration => .sets true
  | consumerConfigure answers, .kafkaConsumer =>
    if answers.refused then .leaves else .sets answers.created
  | consumerConfigure answers, .consumerTopicConfiguration =>
    if answers.refused || !answers.created then .leaves else .sets true
  | producerConfigure _, .producerConfiguration => .sets true
  | producerConfigure answers, .kafkaProducer => .sets answers.created
  | producerConfigure answers, .producerTopicConfiguration =>
    if answers.refused then .leaves else .sets true
  | shutdown, _ => .releases
  | _, _ => .leaves

/-- The calls as actions. -/
def discipline : Discipline KafkaCall KafkaPointer := ⟨needs, does⟩

variable {s : KafkaPointer → Holding}

/-- A call that needs nothing is defined. -/
private theorem step_of_needs_nothing (call : KafkaCall) (h : ∀ p, call.needs p = .nothing) :
    discipline.step s call = some fun p ↦ (call.does p).apply (s p) :=
  if_pos fun p ↦ (congrArg (Need.Met · (s p)) (h p)).mpr trivial

/-- A call that needs one pointer and leaves them all. -/
private theorem step_of_needs_live {call : KafkaCall} {q : KafkaPointer}
    (hneeds : ∀ p, call.needs p = if p = q then .live else .nothing)
    (hdoes : ∀ p, call.does p = .leaves) :
    discipline.step s call = if s q = .live then some s else none := by
  refine if_congr ?_ (congrArg some (funext fun p ↦ ?_)) rfl
  · exact (forall_congr' fun p ↦ (congrArg (Need.Met · (s p)) (hneeds p)).to_iff).trans
      (Need.forall_ite_iff (M := fun p need ↦ need.Met (s p)) (fun _ ↦ trivial) q .live)
  · exact congrArg (Deed.apply · (s p)) (hdoes p)

theorem run_consumerConfigure (answers : ConfigureAnswers) :
    runFrom Access.discipline.step s (consumerConfigureAccesses answers)
      = discipline.step s (consumerConfigure answers) := by
  rw [step_of_needs_nothing _ fun _ ↦ rfl]
  obtain ⟨refused, created, topicRefused⟩ := answers
  cases refused <;> cases created <;> cases topicRefused <;>
    simp [consumerConfigureAccesses, Access.runFrom_assign, Access.runFrom_use] <;>
    funext p <;> cases p <;> rfl

theorem run_producerConfigure (answers : ConfigureAnswers) :
    runFrom Access.discipline.step s (producerConfigureAccesses answers)
      = discipline.step s (producerConfigure answers) := by
  rw [step_of_needs_nothing _ fun _ ↦ rfl]
  obtain ⟨refused, created, topicRefused⟩ := answers
  cases refused <;> cases created <;> cases topicRefused <;>
    simp [producerConfigureAccesses, Access.runFrom_assign, Access.runFrom_use] <;>
    funext p <;> cases p <;> rfl

/-- What a creation needs of the two pointers of its role. -/
private theorem forall_needs_topicCreate_iff {M : KafkaPointer → Need → Prop}
    (hM : ∀ p, M p .nothing) (role : KafkaRole) (created : Bool) :
    (∀ p, M p (needs (topicCreate role true created) p)) ↔
      M role.client .live ∧ M role.topicConfiguration .notFreed := by
  constructor
  · intro h
    have hclient := h role.client
    have htopic := h role.topicConfiguration
    rw [needs, if_pos rfl] at hclient
    rw [needs, if_neg (by cases role <;> decide), if_pos rfl] at htopic
    exact ⟨hclient, htopic⟩
  · rintro ⟨hclient, htopic⟩ p
    rw [needs]
    split_ifs with hp hp'
    · exact hp ▸ hclient
    · exact hp' ▸ htopic
    · exact hM p

theorem run_topicCreate (role : KafkaRole) (created : Bool) :
    runFrom Access.discipline.step s (topicCreateAccesses role created)
      = discipline.step s (topicCreate role true created) := by
  have hcoarse : discipline.step s (topicCreate role true created)
      = if s role.client = .live ∧ s role.topicConfiguration ≠ .freed then some s else none :=
    if_congr (forall_needs_topicCreate_iff (M := fun p need ↦ need.Met (s p)) (fun _ ↦ trivial)
      role created) rfl rfl
  unfold topicCreateAccesses
  rw [hcoarse, Access.runFrom_use, Access.runFrom_useUnlessNull, ite_and]
  refine ite_congr rfl (fun hclient ↦ ite_congr rfl (fun _ ↦ ?_) fun _ ↦ rfl) fun _ ↦ rfl
  cases role with
  | consumer =>
    cases created with
    | true => exact Access.runFrom_use.trans (if_pos hclient)
    | false => rfl
  | producer => rfl

/-- A message without a key or without a payload cannot be consumed. -/
private theorem needs_consume_of_null {key payload : Bool} (h : (key && payload) = false)
    (failed : ℕ) (p : KafkaPointer) : needs (consume failed key payload) p = .never := if_pos h

/-- The two pointers of the message are used as they come. -/
theorem run_consume (failed : ℕ) (key payload : Bool) :
    runFrom Access.discipline.step s (consume failed key payload).accesses
      = discipline.step s (consume failed key payload) := by
  have : Nonempty KafkaPointer := ⟨.kafkaConsumer⟩
  rw [accesses, Access.runFrom_replicate_use, Access.runFrom_useFound, Access.runFrom_useFound]
  cases hfound : key && payload with
  | true =>
    obtain ⟨rfl, rfl⟩ := (Bool.and_eq_true _ _).mp hfound
    exact (step_of_needs_live (fun _ ↦ rfl) fun _ ↦ rfl).symm
  | false =>
    have hnever : discipline.step s (consume failed key payload) = none := by
      refine if_neg fun h ↦ ?_
      have hmet : (needs (consume failed key payload) .kafkaConsumer).Met (s .kafkaConsumer) :=
        h .kafkaConsumer
      rwa [needs_consume_of_null hfound] at hmet
    rw [hnever]
    cases key with
    | true =>
      rw [Bool.true_and] at hfound
      rw [hfound, if_pos rfl, if_neg Bool.false_ne_true, ite_self]
    | false => rw [if_neg Bool.false_ne_true, ite_self]

theorem run_shutdown :
    runFrom Access.discipline.step s shutdown.accesses = discipline.step s shutdown := by
  rw [accesses, Access.runFrom_useUnlessNull, Access.runFrom_releases (by decide)]
  have hall : (∀ p ∈ kafkaPointers, s p ≠ .freed) ↔ ∀ p, s p ≠ .freed :=
    forall_congr' fun p ↦ imp_iff_right (mem_kafkaPointers p)
  by_cases h : ∀ p, s p ≠ .freed
  · rw [if_pos (h _), if_pos (hall.mpr h)]
    refine Eq.trans (congrArg some (funext fun p ↦ ?_)) (if_pos h).symm
    exact if_pos (mem_kafkaPointers p)
  · rw [if_neg (hall.not.mpr h), ite_self]
    exact (if_neg h).symm

/-- **A call is one action.** -/
theorem run_accesses (s : KafkaPointer → Holding) (call : KafkaCall) :
    runFrom Access.discipline.step s call.accesses = discipline.step s call := by
  cases call with
  | consumerConfigure answers => exact run_consumerConfigure answers
  | producerConfigure answers => exact run_producerConfigure answers
  | getName role =>
    exact Access.runFrom_use.trans (step_of_needs_live (fun _ ↦ rfl) fun _ ↦ rfl).symm
  | consume failed key payload => exact run_consume failed key payload
  | produce valid =>
    cases valid with
    | true =>
      refine Access.runFrom_use.trans (step_of_needs_live ?_ fun _ ↦ rfl).symm
      intro p
      cases p <;> rfl
    | false => exact (step_of_needs_nothing (produce false) fun _ ↦ rfl).symm
  | topicCreate role valid created =>
    cases valid with
    | true => exact run_topicCreate role created
    | false => exact (step_of_needs_nothing (topicCreate role false created) fun _ ↦ rfl).symm
  | subscribe | subscription =>
    refine Access.runFrom_use.trans (step_of_needs_live ?_ fun _ ↦ rfl).symm
    intro p
    cases p <;> rfl
  | topicRemove role => exact (step_of_needs_nothing (topicRemove role) fun _ ↦ rfl).symm
  | trace => exact (step_of_needs_nothing trace fun _ ↦ rfl).symm
  | shutdown => exact run_shutdown

/-! ## Which calls are defined -/

/-- The pointer was set to a resource, and no call since has touched it. -/
abbrev Live (p : KafkaPointer) (before : List KafkaCall) : Prop := discipline.Live p before

/-- A shutdown has released the resource of the pointer, which has not been set since. -/
abbrev Freed (p : KafkaPointer) (before : List KafkaCall) : Prop := discipline.Freed p before

/-- The call is defined behind others. -/
def SafeAfter (before : List KafkaCall) : KafkaCall → Prop
  | consumerConfigure _ | producerConfigure _ | topicRemove _ | trace => True
  | getName role => Live role.client before
  | consume _ key payload => key = true ∧ payload = true ∧ Live .kafkaConsumer before
  | subscribe | subscription => Live .kafkaConsumer before
  | produce valid => valid = true → Live .kafkaProducer before
  | topicCreate role valid _ =>
    valid = true → Live role.client before ∧ ¬Freed role.topicConfiguration before
  | shutdown => ∀ p, ¬Freed p before

private theorem permitted_of_needs_live {call : KafkaCall} {q : KafkaPointer}
    (hneeds : ∀ p, call.needs p = if p = q then .live else .nothing) (before : List KafkaCall) :
    discipline.Permitted before call ↔ Live q before :=
  (forall_congr' fun p ↦ (congrArg (discipline.MetBy before p) (hneeds p)).to_iff).trans
    (Need.forall_ite_iff (M := discipline.MetBy before) (fun _ ↦ trivial) q .live)

theorem permitted_iff (before : List KafkaCall) (call : KafkaCall) :
    discipline.Permitted before call ↔ call.SafeAfter before := by
  cases call with
  | consumerConfigure answers | producerConfigure answers | topicRemove role | trace =>
    exact iff_of_true (fun _ ↦ trivial) trivial
  | getName role => exact permitted_of_needs_live (fun _ ↦ rfl) before
  | consume failed key payload =>
    rw [SafeAfter, ← and_assoc, ← Bool.and_eq_true_iff]
    cases hfound : key && payload with
    | true =>
      obtain ⟨rfl, rfl⟩ := (Bool.and_eq_true _ _).mp hfound
      exact (permitted_of_needs_live (fun _ ↦ rfl) before).trans (and_iff_right rfl).symm
    | false =>
      refine iff_of_false (fun h ↦ ?_) fun h ↦ Bool.false_ne_true h.1
      have hmet : discipline.MetBy before .kafkaConsumer
          (needs (consume failed key payload) .kafkaConsumer) := h .kafkaConsumer
      rwa [needs_consume_of_null hfound] at hmet
  | subscribe | subscription =>
    exact permitted_of_needs_live (fun p ↦ by cases p <;> rfl) before
  | produce valid =>
    cases valid with
    | true =>
      exact (permitted_of_needs_live (fun p ↦ by cases p <;> rfl) before).trans
        (imp_iff_right rfl).symm
    | false => exact iff_of_true (fun _ ↦ trivial) fun h ↦ absurd h Bool.false_ne_true
  | topicCreate role valid created =>
    cases valid with
    | true =>
      exact (forall_needs_topicCreate_iff (M := discipline.MetBy before) (fun _ ↦ trivial) role
        created).trans (imp_iff_right rfl).symm
    | false => exact iff_of_true (fun _ ↦ trivial) fun h ↦ absurd h Bool.false_ne_true
  | shutdown => exact Iff.rfl

/-- A script that has used both clients configures one of them again before its second shutdown. -/
example : (runFrom Access.discipline.step (fun _ ↦ .null)
    ([consumerConfigure {}, producerConfigure {}, shutdown, producerConfigure {}, produce true,
      shutdown].flatMap accesses)).isSome = false := by decide

end KafkaCall

end SlimTS

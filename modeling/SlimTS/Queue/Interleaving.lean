import Mathlib.Logic.Function.Basic
import SlimTS.Library.Transition
import SlimTS.Queue.Job

/-!
# Submitters and workers on the queues

One step of the system is one critical section of `queue_mutex`: a submitter pushing its job, its
poll of `completed`, its clean-up loop; a worker's scan in `get_job`; and the two separately locked
halves of `complete`, the search of `find_job` and the write to the job it returned. Any number of
parties takes any number of such steps in any order, so a run is a list of actions.

What the program does not determine is in the actions: the ticket that a fresh job object happens
to carry, the value of the uninitialised pointer in `find_job`, and everything a script may put in
the object it passes to `complete`.

`history` is the log of what happened, kept for stating properties; no step reads it.
-/

namespace SlimTS

/-- Where the one `submit` call for a job stands. -/
inductive SubmitPhase
  /-- The call has not been made. -/
  | absent
  /-- The job is in its queue; the call polls `completed`. -/
  | waiting
  /-- The poll has seen `completed`; the clean-up loop comes next. -/
  | woken
  /-- The call has returned. -/
  | returned
deriving DecidableEq, Repr

/-- Log entries. -/
inductive QueueEvent
  /-- `submit` pushed the job to the named queue. -/
  | submitted (job : JobId) (queueName : Str)
  /-- `get_job` on the named queue returned the job under the ticket. -/
  | delivered (job : JobId) (queueName : Str) (ticketId : ℤ)
  /-- `complete`, called with the object, wrote to the job. -/
  | completed (object : JobObject) (job : JobId)
  /-- `submit` returned; the job then held the egress file. -/
  | returned (job : JobId) (egressJobFile : FileStorage)
deriving DecidableEq, Repr

/-- The globals of `slim::queue`, the job objects, and the parties' control points. -/
structure QueueState where
  /-- The job objects. -/
  jobs : JobId → Job
  /-- `queues`. -/
  queues : Str → List JobId
  /-- `ticket_id`. -/
  ticketId : ℤ
  /-- The submitters. -/
  phase : JobId → SubmitPhase
  /-- The calls of `complete` between their two critical sections, with the job each one found. -/
  completing : List (JobObject × JobId)
  /-- The log. -/
  history : List QueueEvent

/-- One critical section. -/
inductive QueueAction
  /-- `submit`, first section: the job object goes to its queue. -/
  | submit (j : JobId) (fresh : FreshJob)
  /-- `submit`, one turn of the polling loop. -/
  | poll (j : JobId)
  /-- `submit`, last section: the clean-up loop. -/
  | cleanUp (j : JobId)
  /-- `get_job`, one turn of its loop. -/
  | getJob (queueName : Str)
  /-- `complete`, first section: `find_job`, whose pointer held `indeterminate`. -/
  | findJob (object : JobObject) (indeterminate : Option JobId)
  /-- `complete`, second section, of the `n`-th call in flight. -/
  | complete (n : ℕ)

namespace QueueState

/-- The state at program start. The heap has no job object yet, so its values do not matter. -/
def start : QueueState where
  jobs _ := Job.construct 0 [] [] []
  queues _ := []
  ticketId := 0
  phase _ := .absent
  completing := []
  history := []

variable (s : QueueState)

/-- `submit`, first section. -/
def submit (j : JobId) (fresh : FreshJob) : QueueState :=
  { s with
    jobs := Function.update s.jobs j fresh.ready
    queues := Function.update s.queues fresh.queueNameString
      (s.queues fresh.queueNameString ++ [j])
    phase := Function.update s.phase j .waiting
    history := s.history ++ [.submitted j fresh.queueNameString] }

/-- `submit`, one turn of the polling loop. -/
def poll (j : JobId) : QueueState :=
  if (s.jobs j).completed then { s with phase := Function.update s.phase j .woken } else s

/-- `submit`, last section. -/
def cleanUp (j : JobId) : QueueState :=
  { s with
    queues := Function.update s.queues (s.jobs j).queueNameString
      (cleanUpLoop s.jobs (s.jobs j).ticketId [] (s.queues (s.jobs j).queueNameString))
    phase := Function.update s.phase j .returned
    history := s.history ++ [.returned j (s.jobs j).egressJobFile] }

/-- What `get_job` does to the job `j` it has picked. -/
def deliver (queueName : Str) (j : JobId) : QueueState :=
  { s with
    jobs := Function.update s.jobs j
      { s.jobs j with ticketId := toLong (s.ticketId + 1), submitted := true }
    ticketId := toLong (s.ticketId + 1)
    history := s.history ++ [.delivered j queueName (toLong (s.ticketId + 1))] }

/-- `get_job`, one turn of its loop: without a deliverable job it sleeps and tries again. -/
def getJob (queueName : Str) : QueueState :=
  match nextJob s.jobs (s.queues queueName) with
  | none => s
  | some j => s.deliver queueName j

/-- `complete`, first section. A null pointer ends the call. -/
def findJob (object : JobObject) (indeterminate : Option JobId) : QueueState :=
  match SlimTS.findJob s.jobs object.ticketId indeterminate (s.queues object.queueNameString) with
  | none => s
  | some j => { s with completing := s.completing ++ [(object, j)] }

/-- `complete`, second section, of the call that found `j`. -/
def complete (n : ℕ) (object : JobObject) (j : JobId) : QueueState :=
  { s with
    jobs := Function.update s.jobs j ((s.jobs j).complete object)
    completing := s.completing.eraseIdx n
    history := s.history ++ [.completed object j] }

/-- One step. An action is enabled when its party stands at that point of its code. -/
def step : QueueAction → Option QueueState
  | .submit j fresh => if s.phase j = .absent then some (s.submit j fresh) else none
  | .poll j => if s.phase j = .waiting then some (s.poll j) else none
  | .cleanUp j => if s.phase j = .woken then some (s.cleanUp j) else none
  | .getJob queueName => some (s.getJob queueName)
  | .findJob object indeterminate => some (s.findJob object indeterminate)
  | .complete n => s.completing[n]?.map fun call ↦ s.complete n call.1 call.2

/-- The runs of the system, from program start. -/
def run (actions : List QueueAction) : Option QueueState :=
  Transition.runFrom step start actions

/-! ## The effects, field by field -/

section Effects

variable (j : JobId) (fresh : FreshJob) (q : Str) (n : ℕ) (object : JobObject)

theorem submit_jobs : (s.submit j fresh).jobs = Function.update s.jobs j fresh.ready := rfl
theorem submit_queues : (s.submit j fresh).queues
    = Function.update s.queues fresh.queueNameString (s.queues fresh.queueNameString ++ [j]) := rfl
@[simp] theorem submit_ticketId : (s.submit j fresh).ticketId = s.ticketId := rfl
theorem submit_phase : (s.submit j fresh).phase = Function.update s.phase j .waiting := rfl
@[simp] theorem submit_completing : (s.submit j fresh).completing = s.completing := rfl
@[simp] theorem submit_history :
    (s.submit j fresh).history = s.history ++ [.submitted j fresh.queueNameString] := rfl

@[simp] theorem cleanUp_jobs : (s.cleanUp j).jobs = s.jobs := rfl
theorem cleanUp_queues : (s.cleanUp j).queues = Function.update s.queues
    (s.jobs j).queueNameString
    (cleanUpLoop s.jobs (s.jobs j).ticketId [] (s.queues (s.jobs j).queueNameString)) := rfl
@[simp] theorem cleanUp_ticketId : (s.cleanUp j).ticketId = s.ticketId := rfl
theorem cleanUp_phase : (s.cleanUp j).phase = Function.update s.phase j .returned := rfl
@[simp] theorem cleanUp_completing : (s.cleanUp j).completing = s.completing := rfl
@[simp] theorem cleanUp_history :
    (s.cleanUp j).history = s.history ++ [.returned j (s.jobs j).egressJobFile] := rfl

theorem deliver_jobs : (s.deliver q j).jobs = Function.update s.jobs j
    { s.jobs j with ticketId := toLong (s.ticketId + 1), submitted := true } := rfl
@[simp] theorem deliver_queues : (s.deliver q j).queues = s.queues := rfl
@[simp] theorem deliver_ticketId : (s.deliver q j).ticketId = toLong (s.ticketId + 1) := rfl
@[simp] theorem deliver_phase : (s.deliver q j).phase = s.phase := rfl
@[simp] theorem deliver_completing : (s.deliver q j).completing = s.completing := rfl
@[simp] theorem deliver_history :
    (s.deliver q j).history = s.history ++ [.delivered j q (toLong (s.ticketId + 1))] := rfl

theorem complete_jobs : (s.complete n object j).jobs
    = Function.update s.jobs j ((s.jobs j).complete object) := rfl
@[simp] theorem complete_queues : (s.complete n object j).queues = s.queues := rfl
@[simp] theorem complete_ticketId : (s.complete n object j).ticketId = s.ticketId := rfl
@[simp] theorem complete_phase : (s.complete n object j).phase = s.phase := rfl
@[simp] theorem complete_completing :
    (s.complete n object j).completing = s.completing.eraseIdx n := rfl
@[simp] theorem complete_history :
    (s.complete n object j).history = s.history ++ [.completed object j] := rfl

end Effects

/-! ## What a step can do

The step function inverted, once for all the invariants: a step has one of six effects, or none.
A poll that sees no `completed`, a scan that finds no job and a search that ends in a null pointer
are the steps without effect. -/

/-- The effect of a step, with what the step had tested. -/
inductive Effect : QueueAction → QueueState → Prop
  | submit (j : JobId) (fresh : FreshJob) (hphase : s.phase j = .absent) :
      Effect (.submit j fresh) (s.submit j fresh)
  | wake (j : JobId) (hphase : s.phase j = .waiting) (hcompleted : (s.jobs j).completed = true) :
      Effect (.poll j) { s with phase := Function.update s.phase j .woken }
  | cleanUp (j : JobId) (hphase : s.phase j = .woken) : Effect (.cleanUp j) (s.cleanUp j)
  | deliver (queueName : Str) (j : JobId)
      (hnext : nextJob s.jobs (s.queues queueName) = some j) :
      Effect (.getJob queueName) (s.deliver queueName j)
  | find (object : JobObject) (indeterminate : Option JobId) (j : JobId)
      (hfind : SlimTS.findJob s.jobs object.ticketId indeterminate
        (s.queues object.queueNameString) = some j) :
      Effect (.findJob object indeterminate)
        { s with completing := s.completing ++ [(object, j)] }
  | complete (n : ℕ) (object : JobObject) (j : JobId)
      (hcall : s.completing[n]? = some (object, j)) :
      Effect (.complete n) (s.complete n object j)
  | idle (a : QueueAction) : Effect a s

variable {s}

theorem effect_of_step {a : QueueAction} {s' : QueueState} (h : s.step a = some s') :
    Effect s a s' := by
  cases a with
  | submit j fresh =>
    rw [step, Option.ite_none_right_eq_some, Option.some_inj] at h
    exact h.2 ▸ .submit j fresh h.1
  | poll j =>
    rw [step, Option.ite_none_right_eq_some, Option.some_inj, poll] at h
    obtain ⟨hphase, h⟩ := h
    split at h
    · next hcompleted => exact h ▸ .wake j hphase hcompleted
    · exact h ▸ .idle _
  | cleanUp j =>
    rw [step, Option.ite_none_right_eq_some, Option.some_inj] at h
    exact h.2 ▸ .cleanUp j h.1
  | getJob queueName =>
    rw [step, Option.some_inj, getJob] at h
    split at h
    · exact h ▸ .idle _
    · next j hnext => exact h ▸ .deliver queueName j hnext
  | findJob object indeterminate =>
    rw [step, Option.some_inj, findJob] at h
    split at h
    · exact h ▸ .idle _
    · next j hfind => exact h ▸ .find object indeterminate j hfind
  | complete n =>
    rw [step, Option.map_eq_some_iff] at h
    obtain ⟨⟨object, j⟩, hcall, rfl⟩ := h
    exact .complete n object j hcall

/-! ## Two importers and one worker

Runs on which the results about all runs can be watched. -/

/-- The job of the module under the given name, whose memory held the given ticket. -/
def importJob (indeterminate : ℤ) (name : Str) : FreshJob :=
  .construct indeterminate "typescript".toList "source_code_storage".toList name
    "typescript_storage".toList

/-- What the worker passes to `complete` for the module under the given name. -/
def resultOf (ticketId : ℤ) (name : Str) : JobObject where
  ticketId := ticketId
  queueNameString := "typescript".toList
  ingressJobFile := ⟨name, "source_code_storage".toList⟩
  egressJobFile := ⟨name, "typescript_storage".toList⟩
  errors := []

/-- The job of `/a.ts` is delivered under ticket `1` and completed while that of `/b.ts` waits in
the queue, the memory of whose ticket held the given number. Then the job `woken` returns. -/
def waitingRun (indeterminate : ℤ) (woken : JobId) : List QueueAction :=
  [.submit 0 (importJob 0 "/a.ts".toList), .submit 1 (importJob indeterminate "/b.ts".toList),
    .getJob "typescript".toList, .findJob (resultOf 1 "/a.ts".toList) none, .complete 0,
    .poll woken, .cleanUp woken]

/-- The job of `/b.ts` is pushed only after that of `/a.ts` has been completed, and before the
submitter of `/a.ts` cleans up. -/
def lateRun (indeterminate : ℤ) : List QueueAction :=
  [.submit 0 (importJob 0 "/a.ts".toList), .getJob "typescript".toList,
    .findJob (resultOf 1 "/a.ts".toList) none, .complete 0,
    .submit 1 (importJob indeterminate "/b.ts".toList), .poll 0, .cleanUp 0]

end QueueState

end SlimTS

import Mathlib.Data.List.Nodup
import SlimTS.Common.Basic

/-!
# Jobs, and the loops over a queue's vector

The data of `slim::queue` and the four loops that run over the vector of one queue inside a
critical section: the scan of `get_job`, the search of `find_job`, the clean-up loop of `submit`,
and the copies made between a job and the JavaScript object a worker sees.

A job object is named by a number standing for its address, and what the object holds is looked up
in a heap `jobs : JobId → Job`. No constructor gives `ticket_id` a value, so a job's ticket before
`get_job` assigns one is a free parameter of its construction.
-/

namespace SlimTS

/-- `slim::queue::file_storage`. -/
structure FileStorage where
  /-- Key of the file in its container. -/
  fileNameString : Str
  /-- Name of the container in the in-memory store. -/
  storageContainerHandle : Str
deriving DecidableEq, Repr

/-- `slim::queue::job`. -/
structure Job where
  queueNameString : Str
  ingressJobFile : FileStorage
  egressJobFile : FileStorage
  errors : List Str
  completed : Bool
  readyToProcess : Bool
  submitted : Bool
  errored : Bool
  ticketId : ℤ
deriving DecidableEq, Repr

/-- The address of a job object. -/
abbrev JobId := ℕ

namespace Job

/-- The constructor. `indeterminate` is what the memory of `ticket_id` held. -/
def construct (indeterminate : ℤ) (queueNameString sourceStorageHandle sourceFileName : Str) :
    Job where
  queueNameString := queueNameString
  ingressJobFile := ⟨sourceFileName, sourceStorageHandle⟩
  egressJobFile := ⟨[], []⟩
  errors := []
  completed := false
  readyToProcess := false
  submitted := false
  errored := false
  ticketId := indeterminate

end Job

/-- A job object as its submitter hands it over: no flag touched since its construction, no error
recorded. Its ticket and its file names are arbitrary. -/
structure FreshJob extends Job where
  completed_eq : completed = false
  readyToProcess_eq : readyToProcess = false
  submitted_eq : submitted = false
  errored_eq : errored = false
  errors_eq : errors = []

/-- The job an importer builds: constructed, then given the container its output goes to. -/
def FreshJob.construct (indeterminate : ℤ)
    (queueNameString sourceStorageHandle sourceFileName egressStorageHandle : Str) : FreshJob where
  toJob := { Job.construct indeterminate queueNameString sourceStorageHandle sourceFileName with
    egressJobFile := ⟨[], egressStorageHandle⟩ }
  completed_eq := rfl
  readyToProcess_eq := rfl
  submitted_eq := rfl
  errored_eq := rfl
  errors_eq := rfl

/-- The job once `submit` has pushed it. -/
def FreshJob.ready (fresh : FreshJob) : Job := { fresh.toJob with readyToProcess := true }

section Fresh

variable (fresh : FreshJob)

@[simp] theorem FreshJob.ready_queueNameString :
    fresh.ready.queueNameString = fresh.queueNameString := rfl
@[simp] theorem FreshJob.ready_readyToProcess : fresh.ready.readyToProcess = true := rfl
@[simp] theorem FreshJob.ready_completed : fresh.ready.completed = false := fresh.completed_eq
@[simp] theorem FreshJob.ready_submitted : fresh.ready.submitted = false := fresh.submitted_eq
@[simp] theorem FreshJob.ready_errored : fresh.ready.errored = false := fresh.errored_eq
@[simp] theorem FreshJob.ready_errors : fresh.ready.errors = [] := fresh.errors_eq

end Fresh

/-- The JavaScript object that `listen` resolves its promise with, and that a worker passes to
`complete`. -/
structure JobObject where
  /-- As `complete` reads it, through `V8ValueToInt`. -/
  ticketId : ℤ
  queueNameString : Str
  ingressJobFile : FileStorage
  egressJobFile : FileStorage
  errors : List Str
deriving DecidableEq, Repr

namespace Job

/-- The object `listen` builds. The ticket passes through `v8::Integer::New`, which takes an
`int32_t`; the egress file name and the errors start out empty. -/
def listen (job : Job) : JobObject where
  ticketId := toInt job.ticketId
  queueNameString := job.queueNameString
  ingressJobFile := job.ingressJobFile
  egressJobFile := ⟨[], job.egressJobFile.storageContainerHandle⟩
  errors := []

/-- The second critical section of `complete`: what it writes to the job that was found. -/
def complete (job : Job) (object : JobObject) : Job :=
  { job with
    egressJobFile :=
      ⟨object.egressJobFile.fileNameString, object.egressJobFile.storageContainerHandle⟩
    completed := true }

variable (job : Job) (object : JobObject)

@[simp] theorem complete_queueNameString :
    (job.complete object).queueNameString = job.queueNameString := rfl
@[simp] theorem complete_egressJobFile :
    (job.complete object).egressJobFile = object.egressJobFile := rfl
@[simp] theorem complete_errors : (job.complete object).errors = job.errors := rfl
@[simp] theorem complete_completed : (job.complete object).completed = true := rfl
@[simp] theorem complete_readyToProcess :
    (job.complete object).readyToProcess = job.readyToProcess := rfl
@[simp] theorem complete_submitted : (job.complete object).submitted = job.submitted := rfl
@[simp] theorem complete_errored : (job.complete object).errored = job.errored := rfl
@[simp] theorem complete_ticketId : (job.complete object).ticketId = job.ticketId := rfl

end Job

/-! ## The loops -/

section Loops

variable (jobs : JobId → Job)

/-- `ready_to_process && !submitted`: the job can be delivered. -/
def deliverable (j : JobId) : Bool := (jobs j).readyToProcess && !(jobs j).submitted

/-- The scan of `get_job`: the first deliverable job of the vector. -/
def nextJob : List JobId → Option JobId
  | [] => none
  | j :: rest => if deliverable jobs j then some j else nextJob rest

/-- The search of `find_job`. The pointer it returns starts out uninitialised (`found` is whatever
it held) and is overwritten at every match, so the last match wins. -/
def findJob (ticketId : ℤ) (found : Option JobId) : List JobId → Option JobId
  | [] => found
  | j :: rest =>
    findJob ticketId (if (jobs j).ticketId = ticketId then some j else found) rest

/-- The clean-up loop of `submit`. The iterator stands between `kept`, the jobs it has passed, and
the rest of the vector; erasing moves the tail down under the iterator, which stays where it is. -/
def cleanUpLoop (ticketId : ℤ) (kept : List JobId) : List JobId → List JobId
  | [] => kept
  | j :: rest =>
    if ticketId = (jobs j).ticketId then cleanUpLoop ticketId kept rest
    else cleanUpLoop ticketId (kept ++ [j]) rest

variable {jobs}

theorem nextJob_eq_some {v : List JobId} {j : JobId} (h : nextJob jobs v = some j) :
    ∃ before after, v = before ++ j :: after ∧ deliverable jobs j = true ∧
      ∀ k ∈ before, deliverable jobs k = false := by
  induction v with
  | nil => simp [nextJob] at h
  | cons k rest ih =>
    rw [nextJob] at h
    by_cases hk : deliverable jobs k = true
    · rw [if_pos hk, Option.some_inj] at h
      subst h
      exact ⟨[], rest, rfl, hk, by simp⟩
    · rw [if_neg hk] at h
      obtain ⟨before, after, rfl, hj, hbefore⟩ := ih h
      refine ⟨k :: before, after, rfl, hj, ?_⟩
      intro k' hk'
      rcases List.mem_cons.mp hk' with rfl | hk'
      · exact Bool.not_eq_true _ ▸ hk
      · exact hbefore k' hk'

/-- The scan comes back empty only when no job can be delivered. -/
theorem nextJob_eq_none {v : List JobId} (h : nextJob jobs v = none) :
    ∀ j ∈ v, deliverable jobs j = false := by
  induction v with
  | nil => exact fun _ hj ↦ absurd hj List.not_mem_nil
  | cons k rest ih =>
    rw [nextJob] at h
    split at h
    · cases h
    · next hk => exact List.forall_mem_cons.mpr ⟨Bool.not_eq_true _ ▸ hk, ih h⟩

/-- The search returns a job with the ticket, or the pointer as it was when there is none. -/
theorem findJob_eq_some {ticketId : ℤ} {found : Option JobId} {v : List JobId} {j : JobId}
    (h : findJob jobs ticketId found v = some j) :
    (j ∈ v ∧ (jobs j).ticketId = ticketId) ∨
      found = some j ∧ ∀ k ∈ v, (jobs k).ticketId ≠ ticketId := by
  induction v generalizing found with
  | nil => exact Or.inr ⟨h, by simp⟩
  | cons k rest ih =>
    rw [findJob] at h
    rcases ih h with ⟨hj, hticket⟩ | ⟨hfound, hrest⟩
    · exact Or.inl ⟨List.mem_cons_of_mem k hj, hticket⟩
    · by_cases hk : (jobs k).ticketId = ticketId
      · rw [if_pos hk, Option.some_inj] at hfound
        exact Or.inl (hfound ▸ ⟨List.mem_cons_self, hk⟩)
      · rw [if_neg hk] at hfound
        exact Or.inr ⟨hfound, List.forall_mem_cons.mpr ⟨hk, hrest⟩⟩

/-- The search returns null only when there is no job with the ticket. -/
theorem findJob_eq_none {ticketId : ℤ} {found : Option JobId} {v : List JobId}
    (h : findJob jobs ticketId found v = none) :
    found = none ∧ ∀ k ∈ v, (jobs k).ticketId ≠ ticketId := by
  induction v generalizing found with
  | nil => exact ⟨h, fun _ hk ↦ absurd hk List.not_mem_nil⟩
  | cons k rest ih =>
    obtain ⟨hfound, hrest⟩ := ih h
    split at hfound
    · cases hfound
    · next hk => exact ⟨hfound, List.forall_mem_cons.mpr ⟨hk, hrest⟩⟩

/-- The clean-up loop keeps exactly the jobs with another ticket, in their order. -/
theorem cleanUpLoop_eq_filter (ticketId : ℤ) (kept v : List JobId) :
    cleanUpLoop jobs ticketId kept v
      = kept ++ v.filter fun j ↦ decide (ticketId ≠ (jobs j).ticketId) := by
  induction v generalizing kept with
  | nil => rw [cleanUpLoop, List.filter_nil, List.append_nil]
  | cons j rest ih =>
    rw [cleanUpLoop, List.filter_cons]
    by_cases hj : ticketId = (jobs j).ticketId
    · rw [if_pos hj, ih, if_neg (by simp [hj])]
    · rw [if_neg hj, ih, if_pos (by simp [hj]), List.append_assoc, List.singleton_append]

end Loops

end SlimTS

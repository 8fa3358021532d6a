import Mathlib.Data.List.Perm.Basic
import SlimTS.Queue.CleanUp
import SlimTS.Queue.Completion
import SlimTS.Queue.TicketWidth

/-!
# Workers that report what they were given

The searches and the clean-ups compare tickets, and what goes wrong in them does so through the
memory of jobs that have no ticket yet. Here the conditions on single searches and clean-ups
(`FindsItsJob`, `CleansUpAlone`) are traced back to what the parties themselves do: the memory of a
new job holds no number that is given out as a ticket, and a worker calls `complete` with an object
that `listen` has made, once for each job.

In every run of such parties, with any number of submitters, workers and queues, every search and
every clean-up meets its condition. So a job goes through the queue as one would draw it: the log
says of it that it was submitted, delivered, completed and returned, in this order, each once, or
the beginning of that (`lives_of_honest`). The ticket is the same in the second and the third, and
the result in the third and the fourth.
-/

namespace SlimTS

/-- The tickets `complete` has been through with. -/
def reportedTickets (history : List QueueEvent) : List ℤ :=
  history.filterMap fun
    | .completed object _ => some object.ticketId
    | _ => none

section Reported

variable (h : List QueueEvent)

@[simp] theorem reportedTickets_append (h' : List QueueEvent) :
    reportedTickets (h ++ h') = reportedTickets h ++ reportedTickets h' := List.filterMap_append

@[simp] theorem reportedTickets_submitted (j : JobId) (q : Str) :
    reportedTickets [.submitted j q] = [] := rfl
@[simp] theorem reportedTickets_delivered (j : JobId) (q : Str) (t : ℤ) :
    reportedTickets [.delivered j q t] = [] := rfl
@[simp] theorem reportedTickets_completed (object : JobObject) (j : JobId) :
    reportedTickets [.completed object j] = [object.ticketId] := rfl
@[simp] theorem reportedTickets_returned (j : JobId) (egress : FileStorage) :
    reportedTickets [.returned j egress] = [] := rfl

variable {h}

theorem mem_reportedTickets {t : ℤ} :
    t ∈ reportedTickets h ↔ ∃ object j, .completed object j ∈ h ∧ object.ticketId = t := by
  rw [reportedTickets, List.mem_filterMap]
  constructor
  · rintro ⟨e, he, heq⟩
    cases e with
    | completed object j => exact ⟨object, j, he, Option.some_inj.mp heq⟩
    | submitted | delivered | returned => cases heq
  · rintro ⟨object, j, hmem, rfl⟩
    exact ⟨_, hmem, rfl⟩

end Reported

/-- The job a log entry is about. -/
def QueueEvent.job : QueueEvent → JobId
  | .submitted j _ | .delivered j _ _ | .completed _ j | .returned j _ => j

namespace QueueState

/-- The calls of `complete` that have been made, by ticket. -/
def called (s : QueueState) : List ℤ :=
  s.completing.map (fun call ↦ call.1.ticketId) ++ reportedTickets s.history

/-- What the parties keep to. The memory of a new job holds no ticket up to the bound, and
`complete` is called for a job that was delivered, with the ticket and the queue's name that
`listen` has put in its object, and not again. -/
def Honest (bound : ℕ) (s : QueueState) : QueueAction → Prop
  | .submit _ fresh => fresh.ticketId < 1 ∨ bound < fresh.ticketId
  | .findJob object _ =>
    (∃ d ∈ deliveries s.history, object.ticketId = (s.jobs d.1).listen.ticketId ∧
      object.queueNameString = (s.jobs d.1).listen.queueNameString) ∧
    object.ticketId ∉ s.called
  | _ => True

instance (bound : ℕ) (s : QueueState) : ∀ a, Decidable (s.Honest bound a)
  | .submit _ fresh => inferInstanceAs (Decidable (fresh.ticketId < 1 ∨ bound < fresh.ticketId))
  | .findJob object _ => inferInstanceAs (Decidable (
    (∃ d ∈ deliveries s.history, object.ticketId = (s.jobs d.1).listen.ticketId ∧
      object.queueNameString = (s.jobs d.1).listen.queueNameString) ∧
    object.ticketId ∉ s.called))
  | .poll _ | .cleanUp _ | .getJob _ | .complete _ => isTrue trivial

/-- The invariant of the runs of honest parties. -/
structure HonestInv (bound : ℕ) (s : QueueState) : Prop where
  delivery : DeliveryInv s
  tickets : KeepsTickets s
  completion : CompletionInv s
  keeps : KeepsJobs s
  /-- A job that waits for a worker carries no ticket. -/
  fresh : ∀ k, s.phase k ≠ .absent → (s.jobs k).submitted = false →
    (s.jobs k).ticketId < 1 ∨ bound < (s.jobs k).ticketId
  /-- No two calls of `complete` are about one ticket. -/
  called_nodup : s.called.Nodup
  /-- A job is marked completed when `complete` has written to it, and when `submit` has
  returned. -/
  completed : ∀ k, (∃ object, .completed object k ∈ s.history) ∨ s.phase k = .returned →
    (s.jobs k).completed = true
  /-- A job whose `submit` has returned is in no queue. -/
  gone : ∀ k, s.phase k = .returned → ∀ q, k ∉ s.queues q

theorem honestInv_start (bound : ℕ) : HonestInv bound start where
  delivery := deliveryInv_start
  tickets _ _ h := absurd h List.not_mem_nil
  completion := completionInv_start
  keeps _ h := by simp [InSubmit, start] at h
  fresh _ h := absurd rfl h
  called_nodup := List.nodup_nil
  completed k h := by simp [start] at h
  gone _ _ _ := List.not_mem_nil

variable {bound : ℕ} {s : QueueState}

/-! ## Tickets -/

/-- A search that finds a job begins a call. -/
theorem called_find_perm {object : JobObject} {j : JobId} :
    ({ s with completing := s.completing ++ [(object, j)] } : QueueState).called.Perm
      (object.ticketId :: s.called) := by
  rw [called, called, List.map_append, List.append_assoc, List.map_singleton,
    List.singleton_append]
  exact List.perm_middle

/-- The ticket of a call that ends moves from the calls in flight to those that are over. -/
theorem called_complete_perm {n : ℕ} {object : JobObject} {j : JobId}
    (hcall : s.completing[n]? = some (object, j)) :
    (s.complete n object j).called.Perm s.called := by
  obtain ⟨hn, hget⟩ := List.getElem?_eq_some_iff.mp hcall
  have hperm := (List.getElem_cons_eraseIdx_perm hn).map fun call ↦ call.1.ticketId
  rw [hget, List.map_cons] at hperm
  rw [called, called, complete_completing, complete_history, reportedTickets_append,
    reportedTickets_completed, ← List.append_assoc]
  exact (List.perm_append_singleton _ _).trans (hperm.append_right _)

/-- The tickets of the deliveries are the numbers from one on. -/
theorem DeliveryInv.ticket_range (inv : DeliveryInv s)
    (hcount : (deliveries s.history).length < 2 ^ 31) {j : JobId} {t : ℤ}
    (h : (j, t) ∈ deliveries s.history) : 1 ≤ t ∧ t ≤ (deliveries s.history).length := by
  obtain ⟨i, hi, rfl⟩ := (inv.mem_tickets t).mp ⟨j, h⟩
  rw [toLong_of_lt (by omega) (by omega)]
  omega

/-- A ticket belongs to one job. -/
theorem DeliveryInv.ticket_inj (inv : DeliveryInv s)
    (hcount : (deliveries s.history).length < 2 ^ 31) {j k : JobId} {t : ℤ}
    (hj : (j, t) ∈ deliveries s.history) (hk : (k, t) ∈ deliveries s.history) : j = k := by
  have hnodup : ((deliveries s.history).map Prod.snd).Nodup := by
    rw [inv.tickets]
    refine List.Nodup.map_on (fun a ha b hb hab ↦ ?_) List.nodup_range
    rw [List.mem_range] at ha hb
    rw [toLong_of_lt (by omega) (by omega), toLong_of_lt (by omega) (by omega)] at hab
    omega
  exact congrArg Prod.fst (List.inj_on_of_nodup_map hnodup hj hk rfl)

namespace HonestInv

/-- A taken job is the one delivered under the ticket it carries. -/
theorem mem_deliveries_of_submitted (inv : HonestInv bound s) {k : JobId}
    (hk : (s.jobs k).submitted = true) : (k, (s.jobs k).ticketId) ∈ deliveries s.history := by
  obtain ⟨-, q, hq⟩ := inv.completion.taken k hk
  exact mem_deliveries.mpr ⟨q, hq⟩

/-- A job of a queue with the ticket of a delivery is the job delivered. -/
theorem eq_of_ticket (inv : HonestInv bound s) (hcount : (deliveries s.history).length ≤ bound)
    (hbound : bound < 2 ^ 31) {j k : JobId} {t : ℤ} (hj : (j, t) ∈ deliveries s.history)
    (hphase : s.phase k ≠ .absent) (hticket : (s.jobs k).ticketId = t) :
    (s.jobs k).submitted = true ∧ k = j := by
  obtain ⟨hlow, hhigh⟩ := inv.delivery.ticket_range (by omega) hj
  have hsubmitted : (s.jobs k).submitted = true := by
    by_contra hfalse
    rcases inv.fresh k hphase (Bool.not_eq_true _ ▸ hfalse) with hout | hout <;>
      rw [hticket] at hout <;> omega
  refine ⟨hsubmitted, inv.delivery.ticket_inj (by omega) ?_ hj⟩
  exact hticket ▸ inv.mem_deliveries_of_submitted hsubmitted

/-- `listen` and `complete` keep the ticket. -/
theorem listen_ticketId (inv : HonestInv bound s)
    (hcount : (deliveries s.history).length ≤ bound) (hbound : bound < 2 ^ 31) {j : JobId} {t : ℤ}
    (hj : (j, t) ∈ deliveries s.history) : (s.jobs j).listen.ticketId = t := by
  obtain ⟨hlow, hhigh⟩ := inv.delivery.ticket_range (by omega) hj
  rw [Job.listen, inv.tickets j t hj, toInt_eq_self_iff]
  omega

/-- `complete` has been called for a job that is marked completed. -/
theorem called_of_completed (inv : HonestInv bound s) {k : JobId}
    (hk : (s.jobs k).completed = true) : (s.jobs k).ticketId ∈ s.called := by
  obtain ⟨-, object, hobject, hticket, -⟩ := inv.completion.done k hk
  exact List.mem_append_right _ (mem_reportedTickets.mpr ⟨object, k, hobject, hticket⟩)

/-- A job with an end has a `submit` call. -/
theorem phase_of_ended (inv : HonestInv bound s) {k : JobId}
    (hk : (∃ object, .completed object k ∈ s.history) ∨ s.phase k = .returned) :
    s.phase k ≠ .absent := by
  rcases hk with ⟨object, hobject⟩ | hreturned
  · obtain ⟨q, hq⟩ := inv.completion.completes object k hobject
    exact (inv.delivery.delivered_flag k (List.mem_map_of_mem (mem_deliveries.mpr ⟨q, hq⟩))).2
  · rw [hreturned]
    decide

/-! ## The conditions hold -/

theorem findsItsJob (inv : HonestInv bound s) (hcount : (deliveries s.history).length ≤ bound)
    (hbound : bound < 2 ^ 31) {a : QueueAction} (h : s.Honest bound a) : s.FindsItsJob a := by
  cases a with
  | submit | poll | cleanUp | getJob => trivial
  | findJob object indeterminate =>
    obtain ⟨⟨⟨j, t⟩, hj, hticket, hname⟩, hnew⟩ := h
    have hsame := inv.listen_ticketId hcount hbound hj
    rw [hsame] at hticket
    have hphase := (inv.delivery.delivered_flag j (List.mem_map_of_mem hj)).2
    refine ⟨fun k hk hkt ↦ ?_, .inl ⟨j, ?_, (inv.tickets j t hj).trans hticket.symm⟩⟩
    · exact (inv.eq_of_ticket hcount hbound hj (inv.delivery.queued _ k hk).2.2
        (hkt.trans hticket)).1
    · -- The `submit` of the job has not returned, for nobody has reported its ticket.
      have hreturned : s.phase j ≠ .returned := fun hreturned ↦ by
        have hcalled := inv.called_of_completed (inv.completed j (.inr hreturned))
        rw [inv.tickets j t hj, ← hticket] at hcalled
        exact hnew hcalled
      have hin : s.InSubmit j := by
        rw [InSubmit]
        cases hp : s.phase j with
        | absent => exact absurd hp hphase
        | waiting => exact .inl rfl
        | woken => exact .inr rfl
        | returned => exact absurd hp hreturned
      rw [hname]
      exact inv.keeps j hin
  | complete n =>
    intro call hcall hreturned
    have hmem := List.mem_of_getElem? hcall
    have hreported : call.1.ticketId ∈ reportedTickets s.history := by
      obtain ⟨-, object, hobject, hticket, -⟩ :=
        inv.completion.done call.2 (inv.completed call.2 (.inr hreturned))
      exact mem_reportedTickets.mpr ⟨object, call.2, hobject,
        hticket.trans (inv.completion.inFlight call hmem).2⟩
    have hdisjoint := (List.nodup_append.mp inv.called_nodup).2.2
    exact hdisjoint _ (List.mem_map_of_mem hmem) _ hreported rfl

theorem cleansUpAlone (inv : HonestInv bound s) (hcount : (deliveries s.history).length ≤ bound)
    (hbound : bound < 2 ^ 31) {a : QueueAction} {s' : QueueState} (h : s.step a = some s') :
    s.CleansUpAlone a := by
  cases a with
  | submit | poll | getJob | findJob | complete => trivial
  | cleanUp j =>
    rw [step, Option.ite_none_right_eq_some] at h
    intro k hk hticket
    have hsubmitted := (inv.completion.done j (inv.completion.woken j h.1)).1
    exact (inv.eq_of_ticket hcount hbound (inv.mem_deliveries_of_submitted hsubmitted)
      (inv.delivery.queued _ k hk).2.2 hticket).2

/-! ## The steps -/

variable {s' : QueueState} {a : QueueAction}

/-- A job becomes one that waits for a worker by `submit`, whose memory holds no ticket. -/
theorem fresh_step (inv : HonestInv bound s) (h : s.step a = some s') (hhonest : s.Honest bound a)
    {k : JobId} (hphase : s'.phase k ≠ .absent) (hk : (s'.jobs k).submitted = false) :
    (s'.jobs k).ticketId < 1 ∨ bound < (s'.jobs k).ticketId := by
  cases effect_of_step h with
  | submit j fresh habsent =>
    by_cases hkj : k = j
    · subst hkj
      rw [submit_jobs, Function.update_self]
      exact hhonest
    · rw [submit_phase, Function.update_of_ne hkj] at hphase
      rw [submit_jobs, Function.update_of_ne hkj] at hk ⊢
      exact inv.fresh k hphase hk
  | wake j hwaiting | cleanUp j hwaiting =>
    refine inv.fresh k (fun habsent ↦ hphase ?_) hk
    have hkj : k ≠ j := fun hkj ↦ by rw [hkj, hwaiting] at habsent; cases habsent
    exact (Function.update_of_ne hkj _ _).trans habsent
  | deliver queueName j hnext =>
    by_cases hkj : k = j
    · subst hkj
      rw [deliver_jobs, Function.update_self] at hk
      cases hk
    · rw [deliver_jobs, Function.update_of_ne hkj] at hk ⊢
      exact inv.fresh k hphase hk
  | find => exact inv.fresh k hphase hk
  | complete n object j hcall =>
    by_cases hkj : k = j
    · subst hkj
      rw [complete_jobs, Function.update_self] at hk ⊢
      exact inv.fresh k hphase hk
    · rw [complete_jobs, Function.update_of_ne hkj] at hk ⊢
      exact inv.fresh k hphase hk
  | idle => exact inv.fresh k hphase hk

/-- A call begins with a ticket no other call has, and keeps it. -/
theorem called_nodup_step (inv : HonestInv bound s) (h : s.step a = some s')
    (hhonest : s.Honest bound a) : s'.called.Nodup := by
  have hnodup := inv.called_nodup
  cases effect_of_step h with
  | submit | cleanUp | deliver | wake | idle => simpa [called] using hnodup
  | find object indeterminate j hfind =>
    exact called_find_perm.nodup_iff.mpr (List.nodup_cons.mpr ⟨hhonest.2, hnodup⟩)
  | complete n object j hcall => exact (called_complete_perm hcall).nodup_iff.mpr hnodup

/-- A job is not unmarked. `complete` marks the job it writes to, and `submit` returns for a job
that is marked. -/
theorem completed_step (inv : HonestInv bound s) (h : s.step a = some s') {k : JobId}
    (hk : (∃ object, .completed object k ∈ s'.history) ∨ s'.phase k = .returned) :
    (s'.jobs k).completed = true := by
  cases effect_of_step h with
  | submit j fresh habsent =>
    by_cases hkj : k = j
    · subst hkj
      have hwaiting : (s.submit k fresh).phase k ≠ .returned := by simp [submit_phase]
      obtain ⟨object, hobject⟩ := hk.resolve_right hwaiting
      rw [submit_history, List.mem_append] at hobject
      have hold := hobject.resolve_right (by simp)
      exact absurd habsent (inv.phase_of_ended (.inl ⟨object, hold⟩))
    · rw [submit_jobs, Function.update_of_ne hkj]
      rw [submit_phase, Function.update_of_ne hkj] at hk
      exact inv.completed k (by simpa using hk)
  | wake j hwaiting hcompleted =>
    by_cases hkj : k = j
    · exact hkj ▸ hcompleted
    · exact inv.completed k (by simpa [hkj] using hk)
  | cleanUp j hwoken =>
    by_cases hkj : k = j
    · exact hkj ▸ inv.completion.woken j hwoken
    · rw [cleanUp_phase, Function.update_of_ne hkj] at hk
      exact inv.completed k (by simpa using hk)
  | deliver queueName j hnext =>
    have hold := inv.completed k (by simpa using hk)
    by_cases hkj : k = j
    · subst hkj
      rw [deliver_jobs, Function.update_self]
      exact hold
    · rw [deliver_jobs, Function.update_of_ne hkj]
      exact hold
  | find => exact inv.completed k hk
  | complete n object j hcall =>
    by_cases hkj : k = j
    · subst hkj
      simp [complete_jobs]
    · rw [complete_jobs, Function.update_of_ne hkj]
      exact inv.completed k (by simpa [hkj] using hk)
  | idle => exact inv.completed k hk

/-- The clean-up of a job takes it out of its queue, and nothing puts it back. -/
theorem gone_step (inv : HonestInv bound s) (h : s.step a = some s') (halone : s.CleansUpAlone a)
    {k : JobId} (hk : s'.phase k = .returned) (q : Str) : k ∉ s'.queues q := by
  cases effect_of_step h with
  | submit j fresh habsent =>
    have hkj : k ≠ j := fun hkj ↦ by simp [submit_phase, hkj] at hk
    rw [submit_phase, Function.update_of_ne hkj] at hk
    rw [queues_submit, List.mem_append, not_or]
    exact ⟨inv.gone k hk q, by split <;> simp [hkj]⟩
  | wake j hwaiting hcompleted =>
    have hkj : k ≠ j := fun hkj ↦ by simp [hkj] at hk
    exact inv.gone k (by simpa [hkj] using hk) q
  | cleanUp j hwoken =>
    have hown := inv.keeps j (.inr hwoken)
    obtain ⟨-, hqueues⟩ := (cleanUp_removesExactly_iff inv.delivery hown).mpr halone
    rw [hqueues, Function.update_apply]
    by_cases hkj : k = j
    · subst hkj
      split
      · exact (inv.delivery.queue_nodup _).not_mem_erase
      · next hq => exact fun hmem ↦ hq (inv.delivery.queued q k hmem).1.symm
    · rw [cleanUp_phase, Function.update_of_ne hkj] at hk
      split
      · exact fun hmem ↦ inv.gone k hk _ (List.mem_of_mem_erase hmem)
      · exact inv.gone k hk q
  | deliver | find | complete | idle => exact inv.gone k hk q

/-- **A step of honest parties keeps the invariant.** -/
theorem step (inv : HonestInv bound s) (hcount : (deliveries s.history).length ≤ bound)
    (hbound : bound < 2 ^ 31) (h : s.step a = some s') (hhonest : s.Honest bound a) :
    HonestInv bound s' where
  delivery := inv.delivery.step h
  tickets := inv.tickets.step inv.delivery h
  completion := inv.completion.step inv.delivery (inv.findsItsJob hcount hbound hhonest) h
  keeps := inv.keeps.step inv.delivery (inv.cleansUpAlone hcount hbound h) h
  fresh _ := inv.fresh_step h hhonest
  called_nodup := inv.called_nodup_step h hhonest
  completed _ := inv.completed_step h
  gone _ := inv.gone_step h (inv.cleansUpAlone hcount hbound h)

end HonestInv

/-! ## The life of a job -/

/-- The log entries about a job. -/
def log (s : QueueState) (j : JobId) : List QueueEvent := s.history.filter fun e ↦ e.job = j

/-- The log of a job that has gone all the way, with the last result that `complete` gave it. -/
def lifeOf (j : JobId) (job : Job) (object : JobObject) : List QueueEvent :=
  [.submitted j job.queueNameString, .delivered j job.queueNameString job.ticketId,
    .completed object j, .returned j object.egressJobFile]

/-- How many entries the log of a job has. -/
def age (s : QueueState) (j : JobId) : ℕ :=
  match s.phase j with
  | .absent => 0
  | .returned => 4
  | .waiting | .woken =>
    if (s.jobs j).completed then 3 else if (s.jobs j).submitted then 2 else 1

/-- The log of a job is the beginning of its life, as far as the job has come. -/
def Lives (s : QueueState) (j : JobId) : Prop :=
  ∃ object : JobObject, object.ticketId = (s.jobs j).ticketId ∧
    ((s.jobs j).completed = true → object.egressJobFile = (s.jobs j).egressJobFile) ∧
    s.log j = (lifeOf j (s.jobs j) object).take (s.age j)

theorem log_append {s' : QueueState} {e : QueueEvent} (hlog : s'.history = s.history ++ [e])
    (k : JobId) : s'.log k = s.log k ++ if e.job = k then [e] else [] := by
  rw [log, hlog, List.filter_append, ← log]
  split <;> simp [*]

theorem log_append_of_ne {s' : QueueState} {e : QueueEvent} (hlog : s'.history = s.history ++ [e])
    {k : JobId} (hk : e.job ≠ k) : s'.log k = s.log k := by
  rw [log_append hlog, if_neg hk, List.append_nil]

theorem age_of_inSubmit {j : JobId} (h : s.InSubmit j) : s.age j
    = if (s.jobs j).completed then 3 else if (s.jobs j).submitted then 2 else 1 := by
  rw [age]
  rcases h with h | h <;> rw [h]

/-- The `submit` of a job that is not completed is still polling. -/
theorem HonestInv.waiting (inv : HonestInv bound s) {j : JobId} (hphase : s.phase j ≠ .absent)
    (hj : (s.jobs j).completed = false) : s.phase j = .waiting := by
  cases hp : s.phase j with
  | absent => exact absurd hp hphase
  | waiting => rfl
  | woken => rw [inv.completion.woken j hp] at hj; cases hj
  | returned => rw [inv.completed j (.inr hp)] at hj; cases hj

/-- A call in flight is about a job that is taken and not yet completed. -/
theorem HonestInv.of_inFlight (inv : HonestInv bound s) {object : JobObject} {j : JobId}
    (hcall : (object, j) ∈ s.completing) : s.phase j = .waiting ∧
      (s.jobs j).submitted = true ∧ (s.jobs j).ticketId = object.ticketId ∧
      (s.jobs j).completed = false := by
  obtain ⟨hsubmitted, hticket⟩ := inv.completion.inFlight _ hcall
  have hcompleted : (s.jobs j).completed = false := by
    by_contra htrue
    obtain ⟨-, object', hobject', hticket', -⟩ :=
      inv.completion.done j (Bool.not_eq_false _ ▸ htrue)
    have hdisjoint := (List.nodup_append.mp inv.called_nodup).2.2
    exact hdisjoint _ (List.mem_map_of_mem hcall) _
      (mem_reportedTickets.mpr ⟨object', j, hobject', hticket'.trans hticket⟩) rfl
  exact ⟨inv.waiting (inv.completion.taken j hsubmitted).1 hcompleted, hsubmitted, hticket,
    hcompleted⟩

/-- A job that the scan picks waits for its first delivery. -/
theorem HonestInv.of_nextJob (inv : HonestInv bound s) {queueName : Str} {j : JobId}
    (hnext : nextJob s.jobs (s.queues queueName) = some j) : s.phase j = .waiting ∧
      (s.jobs j).queueNameString = queueName ∧ (s.jobs j).submitted = false ∧
      (s.jobs j).completed = false := by
  obtain ⟨before, after, hsplit, hj, -⟩ := nextJob_eq_some hnext
  obtain ⟨hname, hready, hphase⟩ := inv.delivery.queued queueName j (by simp [hsplit])
  have hsubmitted : (s.jobs j).submitted = false := by
    rw [submitted_eq_not_deliverable hready, hj, Bool.not_true]
  have hcompleted : (s.jobs j).completed = false := by
    by_contra htrue
    rw [(inv.completion.done j (Bool.not_eq_false _ ▸ htrue)).1] at hsubmitted
    cases hsubmitted
  exact ⟨inv.waiting hphase hcompleted, hname, hsubmitted, hcompleted⟩

/-- What a step does to other jobs leaves the life of a job as it is. -/
theorem Lives.of_frame {s' : QueueState} {k : JobId} (hlives : s.Lives k)
    (hlog : s'.log k = s.log k) (hjob : s'.jobs k = s.jobs k) (hage : s'.age k = s.age k) :
    s'.Lives k := by
  obtain ⟨object, hticket, hegress, hlife⟩ := hlives
  rw [Lives, hlog, hjob, hage]
  exact ⟨object, hticket, hegress, hlife⟩

theorem age_congr {s' : QueueState} {k : JobId} (hjob : s'.jobs k = s.jobs k)
    (hphase : s'.phase k = s.phase k) : s'.age k = s.age k := by
  rw [age, age, hjob, hphase]

theorem Lives.submit {j k : JobId} (hlives : s.Lives k) (fresh : FreshJob)
    (habsent : s.phase j = .absent) : (s.submit j fresh).Lives k := by
  by_cases hkj : k = j
  · subst hkj
    obtain ⟨object, -, -, hlife⟩ := hlives
    have hage : (s.submit k fresh).age k = 1 := by
      rw [age_of_inSubmit (.inl (by simp [submit_phase]))]
      simp [submit_jobs]
    refine ⟨{ object with ticketId := ((s.submit k fresh).jobs k).ticketId }, rfl, ?_, ?_⟩
    · simp [submit_jobs]
    · rw [log_append (s.submit_history k fresh), hlife, hage, age, habsent]
      simp [lifeOf, submit_jobs, QueueEvent.job]
  · have hjob : (s.submit j fresh).jobs k = s.jobs k := Function.update_of_ne hkj _ _
    exact hlives.of_frame (log_append_of_ne (s.submit_history j fresh) (Ne.symm hkj)) hjob
      (age_congr hjob (Function.update_of_ne hkj _ _))

/-- The turn that ends the wait is not logged. -/
theorem Lives.wake {j k : JobId} (hlives : s.Lives k) (hwaiting : s.phase j = .waiting) :
    { s with phase := Function.update s.phase j .woken }.Lives k := by
  refine hlives.of_frame rfl rfl ?_
  by_cases hkj : k = j
  · subst hkj
    rw [age_of_inSubmit (.inl hwaiting), age_of_inSubmit (.inr (by simp))]
  · exact age_congr rfl (Function.update_of_ne hkj _ _)

theorem Lives.cleanUp {j k : JobId} (hlives : s.Lives k) (inv : HonestInv bound s)
    (hwoken : s.phase j = .woken) : (s.cleanUp j).Lives k := by
  by_cases hkj : k = j
  · subst hkj
    have hcompleted := inv.completion.woken k hwoken
    obtain ⟨object, hticket, hegress, hlife⟩ := hlives
    refine ⟨object, hticket, hegress, ?_⟩
    rw [age_of_inSubmit (.inr hwoken), if_pos hcompleted] at hlife
    have hage : (s.cleanUp k).age k = 4 := by simp [age, cleanUp_phase]
    rw [log_append (s.cleanUp_history k), hlife, hage, ← hegress hcompleted]
    simp [lifeOf, QueueEvent.job]
  · exact hlives.of_frame (log_append_of_ne (s.cleanUp_history j) (Ne.symm hkj)) rfl
      (age_congr rfl (Function.update_of_ne hkj _ _))

theorem Lives.deliver {j k : JobId} {queueName : Str} (hlives : s.Lives k)
    (inv : HonestInv bound s) (hnext : nextJob s.jobs (s.queues queueName) = some j) :
    (s.deliver queueName j).Lives k := by
  by_cases hkj : k = j
  · subst hkj
    obtain ⟨hwaiting, hname, hsubmitted, hcompleted⟩ := inv.of_nextJob hnext
    obtain ⟨object, -, -, hlife⟩ := hlives
    have hage : (s.deliver queueName k).age k = 2 := by
      rw [@age_of_inSubmit (s.deliver queueName k) k (.inl hwaiting)]
      simp [deliver_jobs, hcompleted]
    refine ⟨{ object with ticketId := ((s.deliver queueName k).jobs k).ticketId }, rfl, ?_, ?_⟩
    · simp [deliver_jobs, hcompleted]
    · rw [age_of_inSubmit (.inl hwaiting), hcompleted, hsubmitted] at hlife
      rw [log_append (s.deliver_history k queueName), hlife, hage]
      simp [lifeOf, deliver_jobs, QueueEvent.job, hname]
  · have hjob : (s.deliver queueName j).jobs k = s.jobs k := Function.update_of_ne hkj _ _
    exact hlives.of_frame (log_append_of_ne (s.deliver_history j queueName) (Ne.symm hkj)) hjob
      (age_congr hjob rfl)

theorem Lives.complete {j k : JobId} {n : ℕ} {object : JobObject} (hlives : s.Lives k)
    (inv : HonestInv bound s) (hcall : s.completing[n]? = some (object, j)) :
    (s.complete n object j).Lives k := by
  by_cases hkj : k = j
  · subst hkj
    obtain ⟨hwaiting, hsubmitted, hticket, hcompleted⟩ :=
      inv.of_inFlight (List.mem_of_getElem? hcall)
    obtain ⟨_, -, -, hlife⟩ := hlives
    have hage : (s.complete n object k).age k = 3 := by
      rw [@age_of_inSubmit (s.complete n object k) k (.inl hwaiting)]
      simp [complete_jobs]
    refine ⟨object, by simp [complete_jobs, hticket], by simp [complete_jobs], ?_⟩
    rw [age_of_inSubmit (.inl hwaiting), hcompleted, hsubmitted] at hlife
    rw [log_append (s.complete_history k n object), hlife, hage]
    simp [lifeOf, complete_jobs, QueueEvent.job]
  · have hjob : (s.complete n object j).jobs k = s.jobs k := Function.update_of_ne hkj _ _
    exact hlives.of_frame (log_append_of_ne (s.complete_history j n object) (Ne.symm hkj)) hjob
      (age_congr hjob rfl)

theorem Lives.step (inv : HonestInv bound s) {a : QueueAction} {s' : QueueState} {k : JobId}
    (hlives : s.Lives k) (h : s.step a = some s') : s'.Lives k := by
  cases effect_of_step h with
  | submit j fresh habsent => exact hlives.submit fresh habsent
  | wake j hwaiting => exact hlives.wake hwaiting
  | cleanUp j hwoken => exact hlives.cleanUp inv hwoken
  | deliver queueName j hnext => exact hlives.deliver inv hnext
  | find object indeterminate j hfind => exact hlives.of_frame rfl rfl rfl
  | complete n object j hcall => exact hlives.complete inv hcall
  | idle => exact hlives

theorem lives_start (k : JobId) : start.Lives k := by
  refine ⟨⟨0, [], ⟨[], []⟩, ⟨[], []⟩, []⟩, rfl, ?_, rfl⟩
  intro h
  cases h

/-! ## Whole runs -/

theorem deliveries_length_le {a : QueueAction} {s' : QueueState} (h : s.step a = some s') :
    (deliveries s.history).length ≤ (deliveries s'.history).length := by
  cases effect_of_step h with
  | submit | cleanUp | complete | deliver => simp
  | wake | find | idle => exact le_rfl

theorem honestInv_of_run {actions : List QueueAction} (hbound : bound < 2 ^ 31)
    (hrun : run actions = some s)
    (hhonest : Transition.Meets step (Honest bound) start actions)
    (hcount : (deliveries s.history).length ≤ bound) : HonestInv bound s ∧ ∀ j, s.Lives j :=
  Transition.invariant_of_meets
    (I := fun s ↦ (deliveries s.history).length ≤ bound → HonestInv bound s ∧ ∀ j, s.Lives j)
    (fun _ _ _ ih hcond h hcount' ↦ by
      obtain ⟨inv, hlives⟩ := ih ((deliveries_length_le h).trans hcount')
      exact ⟨inv.step ((deliveries_length_le h).trans hcount') hbound h hcond,
        fun j ↦ (hlives j).step inv h⟩)
    (fun _ ↦ ⟨honestInv_start bound, lives_start⟩) hhonest hrun hcount

/-- **Every job lives its life.** In every run of parties that keep to their part, with fewer than
`2 ^ 31` deliveries, the log of each job is the beginning of one submission, one delivery, one
completion under the ticket of the delivery, and one return with the result of the completion.
While its `submit` runs, the job is in its queue; the clean-up takes it out and no other. -/
theorem lives_of_honest {actions : List QueueAction} (hbound : bound < 2 ^ 31)
    (hrun : run actions = some s)
    (hhonest : Transition.Meets step (Honest bound) start actions)
    (hcount : (deliveries s.history).length ≤ bound) :
    (∀ j, ∃ object : JobObject, object.ticketId = (s.jobs j).ticketId ∧
      s.log j <+: lifeOf j (s.jobs j) object) ∧
    KeepsJobs s ∧ ∀ j s', s.step (.cleanUp j) = some s' → RemovesExactly s s' j := by
  obtain ⟨inv, hlives⟩ := honestInv_of_run hbound hrun hhonest hcount
  refine ⟨fun j ↦ ?_, inv.keeps, fun j s' h ↦ ?_⟩
  · obtain ⟨object, hticket, -, hlife⟩ := hlives j
    exact ⟨object, hticket, hlife ▸ List.take_prefix _ _⟩
  · have halone := inv.cleansUpAlone hcount hbound h
    rw [step, Option.ite_none_right_eq_some, Option.some_inj] at h
    obtain ⟨hwoken, rfl⟩ := h
    exact (cleanUp_removesExactly_iff inv.delivery (inv.keeps j (.inr hwoken))).mpr halone

theorem lives_of_honest_waitingRun :
    ∃ s, run (waitingRun 0 0) = some s ∧ (s.log 0).length = 4 ∧ (s.log 1).length = 1 ∧
      (∀ j, ∃ object : JobObject, object.ticketId = (s.jobs j).ticketId ∧
        s.log j <+: lifeOf j (s.jobs j) object) ∧
      KeepsJobs s ∧ ∀ j s', s.step (.cleanUp j) = some s' → RemovesExactly s s' j :=
  ⟨_, rfl, by decide, by decide,
    @lives_of_honest 1 _ (waitingRun 0 0) (by decide) rfl (by decide) (by decide)⟩

end QueueState

end SlimTS

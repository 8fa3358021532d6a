import Mathlib.Data.List.Range
import SlimTS.Queue.Interleaving

/-!
# Each job is delivered at most once, in the order of submission

Three facts about the log of a run: no job is delivered twice, the tickets are the numbers
`1, 2, 3, …` reduced to 64 bits, and every queue delivers in the order in which it was filled.

The order rests on one invariant, `DeliveryInv.order`: what a queue has delivered, followed by
what it still holds undelivered, is a subsequence of what was submitted to it. A push appends to
both sides, a scan moves the first undelivered job across the seam, and a removal, wherever in
the vector it happens and whatever it was meant to remove, only shortens the subsequence. Tickets
of jobs not yet delivered are never looked at, so their arbitrary values do no harm here.
-/

namespace SlimTS

/-! ## Reading the log -/

/-- The jobs pushed to a queue, in the order of the pushes. -/
def submittedTo (queueName : Str) (history : List QueueEvent) : List JobId :=
  history.filterMap fun
    | .submitted j q => if q = queueName then some j else none
    | _ => none

/-- The jobs `get_job` returned from a queue, in the order of the deliveries. -/
def deliveredFrom (queueName : Str) (history : List QueueEvent) : List JobId :=
  history.filterMap fun
    | .delivered j q _ => if q = queueName then some j else none
    | _ => none

/-- All deliveries, over all queues, with their tickets. -/
def deliveries (history : List QueueEvent) : List (JobId × ℤ) :=
  history.filterMap fun
    | .delivered j _ ticketId => some (j, ticketId)
    | _ => none

section Log

variable (q : Str) (h : List QueueEvent)

@[simp] theorem submittedTo_append (h' : List QueueEvent) :
    submittedTo q (h ++ h') = submittedTo q h ++ submittedTo q h' := List.filterMap_append

@[simp] theorem deliveredFrom_append (h' : List QueueEvent) :
    deliveredFrom q (h ++ h') = deliveredFrom q h ++ deliveredFrom q h' := List.filterMap_append

@[simp] theorem deliveries_append (h' : List QueueEvent) :
    deliveries (h ++ h') = deliveries h ++ deliveries h' := List.filterMap_append

@[simp] theorem submittedTo_submitted (j : JobId) (q' : Str) :
    submittedTo q [.submitted j q'] = if q' = q then [j] else [] := by
  rw [submittedTo, List.filterMap_cons]
  split <;> rename_i heq <;> split at heq <;> simp_all

@[simp] theorem submittedTo_delivered (j : JobId) (q' : Str) (t : ℤ) :
    submittedTo q [.delivered j q' t] = [] := rfl
@[simp] theorem submittedTo_completed (object : JobObject) (j : JobId) :
    submittedTo q [.completed object j] = [] := rfl
@[simp] theorem submittedTo_returned (j : JobId) (egress : FileStorage) :
    submittedTo q [.returned j egress] = [] := rfl

@[simp] theorem deliveredFrom_delivered (j : JobId) (q' : Str) (t : ℤ) :
    deliveredFrom q [.delivered j q' t] = if q' = q then [j] else [] := by
  rw [deliveredFrom, List.filterMap_cons]
  split <;> rename_i heq <;> split at heq <;> simp_all

@[simp] theorem deliveredFrom_submitted (j : JobId) (q' : Str) :
    deliveredFrom q [.submitted j q'] = [] := rfl
@[simp] theorem deliveredFrom_completed (object : JobObject) (j : JobId) :
    deliveredFrom q [.completed object j] = [] := rfl
@[simp] theorem deliveredFrom_returned (j : JobId) (egress : FileStorage) :
    deliveredFrom q [.returned j egress] = [] := rfl

@[simp] theorem deliveries_delivered (j : JobId) (q' : Str) (t : ℤ) :
    deliveries [.delivered j q' t] = [(j, t)] := rfl
@[simp] theorem deliveries_submitted (j : JobId) (q' : Str) :
    deliveries [.submitted j q'] = [] := rfl
@[simp] theorem deliveries_completed (object : JobObject) (j : JobId) :
    deliveries [.completed object j] = [] := rfl
@[simp] theorem deliveries_returned (j : JobId) (egress : FileStorage) :
    deliveries [.returned j egress] = [] := rfl

variable {h}

theorem mem_deliveries {j : JobId} {t : ℤ} :
    (j, t) ∈ deliveries h ↔ ∃ q, .delivered j q t ∈ h := by
  rw [deliveries, List.mem_filterMap]
  constructor
  · rintro ⟨e, he, heq⟩
    cases e with
    | delivered k q t' =>
      rw [Option.some_inj, Prod.mk.injEq] at heq
      exact ⟨q, heq.1 ▸ heq.2 ▸ he⟩
    | submitted => cases heq
    | completed => cases heq
    | returned => cases heq
  · rintro ⟨q, hq⟩
    exact ⟨_, hq, rfl⟩

end Log

namespace QueueState

/-! ## What a step logs of deliveries -/

section Deliveries

variable (s : QueueState) (j : JobId) (q : Str) (n : ℕ)

theorem deliveries_submit (fresh : FreshJob) :
    deliveries (s.submit j fresh).history = deliveries s.history := by
  rw [submit_history, deliveries_append, deliveries_submitted, List.append_nil]

theorem deliveries_cleanUp : deliveries (s.cleanUp j).history = deliveries s.history := by
  rw [cleanUp_history, deliveries_append, deliveries_returned, List.append_nil]

theorem deliveries_deliver : deliveries (s.deliver q j).history
    = deliveries s.history ++ [(j, toLong (s.ticketId + 1))] := by
  rw [deliver_history, deliveries_append, deliveries_delivered]

theorem deliveries_complete (object : JobObject) :
    deliveries (s.complete n object j).history = deliveries s.history := by
  rw [complete_history, deliveries_append, deliveries_completed, List.append_nil]

end Deliveries

/-! ## The invariant -/

/-- The jobs of a queue that no worker has taken yet. -/
def undelivered (s : QueueState) (queueName : Str) : List JobId :=
  (s.queues queueName).filter fun j ↦ !(s.jobs j).submitted

/-- The invariant behind the order of delivery. -/
structure DeliveryInv (s : QueueState) : Prop where
  /-- A queued job belongs to its queue, is ready, and has a `submit` call. -/
  queued : ∀ q, ∀ k ∈ s.queues q,
    (s.jobs k).queueNameString = q ∧ (s.jobs k).readyToProcess = true ∧ s.phase k ≠ .absent
  /-- No job is in its queue twice. -/
  queue_nodup : ∀ q, (s.queues q).Nodup
  /-- A submitted job has a `submit` call. -/
  submitted_phase : ∀ q, ∀ k ∈ submittedTo q s.history, s.phase k ≠ .absent
  /-- `submit` is called once for each job. -/
  submitted_nodup : ∀ q, (submittedTo q s.history).Nodup
  /-- A delivered job carries the flag that keeps it from being delivered again. -/
  delivered_flag : ∀ k ∈ (deliveries s.history).map Prod.fst,
    (s.jobs k).submitted = true ∧ s.phase k ≠ .absent
  /-- No job is delivered twice. -/
  delivered_nodup : ((deliveries s.history).map Prod.fst).Nodup
  /-- Deliveries, then what is still undelivered, follow the submissions. -/
  order : ∀ q, (deliveredFrom q s.history ++ s.undelivered q).Sublist (submittedTo q s.history)
  /-- The counter counts the deliveries. -/
  counter : s.ticketId = toLong (deliveries s.history).length
  /-- The tickets are the successive values of the counter. -/
  tickets : (deliveries s.history).map Prod.snd
    = (List.range (deliveries s.history).length).map fun i : ℕ ↦ toLong (i + 1)

theorem deliveryInv_start : DeliveryInv start where
  queued _ _ hk := absurd hk List.not_mem_nil
  queue_nodup _ := List.nodup_nil
  submitted_phase _ _ hk := absurd hk List.not_mem_nil
  submitted_nodup _ := List.nodup_nil
  delivered_flag _ hk := absurd hk List.not_mem_nil
  delivered_nodup := List.nodup_nil
  order _ := List.Sublist.slnil
  counter := by simp [start, deliveries, toLong]
  tickets := by simp [start, deliveries]

variable {s : QueueState}

/-- Nothing the invariant looks at distinguishes the states. -/
theorem DeliveryInv.of_frame {s' : QueueState} (inv : DeliveryInv s)
    (hjobs : ∀ k, (s'.jobs k).queueNameString = (s.jobs k).queueNameString ∧
      (s'.jobs k).readyToProcess = (s.jobs k).readyToProcess ∧
      (s'.jobs k).submitted = (s.jobs k).submitted)
    (hqueues : s'.queues = s.queues) (hticket : s'.ticketId = s.ticketId)
    (hphase : ∀ k, s.phase k ≠ .absent → s'.phase k ≠ .absent)
    (hsub : ∀ q, submittedTo q s'.history = submittedTo q s.history)
    (hfrom : ∀ q, deliveredFrom q s'.history = deliveredFrom q s.history)
    (hdel : deliveries s'.history = deliveries s.history) : DeliveryInv s' where
  queued q k hk := by
    rw [hqueues] at hk
    obtain ⟨hname, hready, hk'⟩ := inv.queued q k hk
    exact ⟨(hjobs k).1.trans hname, (hjobs k).2.1.trans hready, hphase k hk'⟩
  queue_nodup q := by rw [hqueues]; exact inv.queue_nodup q
  submitted_phase q k hk := hphase k (inv.submitted_phase q k (hsub q ▸ hk))
  submitted_nodup q := by rw [hsub]; exact inv.submitted_nodup q
  delivered_flag k hk := by
    rw [hdel] at hk
    obtain ⟨hflag, hk'⟩ := inv.delivered_flag k hk
    exact ⟨(hjobs k).2.2.trans hflag, hphase k hk'⟩
  delivered_nodup := by rw [hdel]; exact inv.delivered_nodup
  order q := by
    have hund : s'.undelivered q = s.undelivered q := by
      rw [undelivered, undelivered, hqueues]
      exact List.filter_congr fun k _ ↦ by rw [(hjobs k).2.2]
    rw [hund, hsub, hfrom]
    exact inv.order q
  counter := by rw [hticket, hdel]; exact inv.counter
  tickets := by rw [hdel]; exact inv.tickets

theorem phase_update_ne_absent {j k : JobId} {p : SubmitPhase} (hp : p ≠ .absent)
    (hk : s.phase k ≠ .absent) : Function.update s.phase j p k ≠ .absent := by
  rw [Function.update_apply]
  split
  · exact hp
  · exact hk

/-! ## The steps -/

/-- A job whose `submit` has not been called is in no queue. -/
theorem DeliveryInv.not_mem_queues (inv : DeliveryInv s) {j : JobId} (hphase : s.phase j = .absent)
    (q : Str) : j ∉ s.queues q := fun hj ↦ (inv.queued q j hj).2.2 hphase

theorem queues_submit (s : QueueState) (j : JobId) (fresh : FreshJob) (q : Str) :
    (s.submit j fresh).queues q
      = s.queues q ++ if fresh.queueNameString = q then [j] else [] := by
  rw [submit_queues, Function.update_apply]
  by_cases hq : fresh.queueNameString = q
  · rw [if_pos hq.symm, if_pos hq, hq]
  · rw [if_neg (Ne.symm hq), if_neg hq, List.append_nil]

/-- A submission adds its job at the end. -/
theorem DeliveryInv.undelivered_submit (inv : DeliveryInv s) {j : JobId} (fresh : FreshJob)
    (hphase : s.phase j = .absent) (q : Str) : (s.submit j fresh).undelivered q
      = s.undelivered q ++ if fresh.queueNameString = q then [j] else [] := by
  have hold : (s.queues q).filter (fun k ↦ !((s.submit j fresh).jobs k).submitted)
      = s.undelivered q :=
    List.filter_congr fun k hk ↦ by
      have hkj : k ≠ j := ne_of_mem_of_not_mem hk (inv.not_mem_queues hphase q)
      rw [submit_jobs, Function.update_of_ne hkj]
  rw [undelivered, queues_submit, List.filter_append, hold]
  split <;> simp [submit_jobs]

theorem DeliveryInv.submit (inv : DeliveryInv s) {j : JobId} (fresh : FreshJob)
    (hphase : s.phase j = .absent) : DeliveryInv (s.submit j fresh) := by
  have hnew := inv.not_mem_queues hphase
  have hphase' : ∀ k, s.phase k ≠ .absent → (s.submit j fresh).phase k ≠ .absent :=
    fun k hk ↦ phase_update_ne_absent (by decide) hk
  constructor
  case queued =>
    intro q k hk
    rw [queues_submit, List.mem_append] at hk
    rcases hk with hk | hk
    · obtain ⟨hname, hready, hk'⟩ := inv.queued q k hk
      rw [submit_jobs, Function.update_of_ne (ne_of_mem_of_not_mem hk (hnew q))]
      exact ⟨hname, hready, hphase' k hk'⟩
    · split at hk
      · next hq =>
        rw [List.mem_singleton] at hk
        subst hk
        rw [submit_jobs, submit_phase, Function.update_self, Function.update_self]
        exact ⟨hq, rfl, by decide⟩
      · exact absurd hk List.not_mem_nil
  case queue_nodup =>
    intro q
    rw [queues_submit]
    refine (inv.queue_nodup q).append (by split <;> simp) ?_
    split <;> simp [hnew q]
  case submitted_phase =>
    intro q k hk
    rw [submit_history, submittedTo_append, submittedTo_submitted, List.mem_append] at hk
    rcases hk with hk | hk
    · exact hphase' k (inv.submitted_phase q k hk)
    · split at hk <;> simp_all [submit_phase]
  case submitted_nodup =>
    intro q
    have hnew : j ∉ submittedTo q s.history := fun hj ↦ inv.submitted_phase q j hj hphase
    rw [submit_history, submittedTo_append, submittedTo_submitted]
    refine (inv.submitted_nodup q).append (by split <;> simp) ?_
    split <;> simp [hnew]
  case delivered_flag =>
    intro k hk
    rw [deliveries_submit] at hk
    obtain ⟨hflag, hk'⟩ := inv.delivered_flag k hk
    have hkj : k ≠ j := fun h ↦ hk' (h ▸ hphase)
    exact ⟨by rw [submit_jobs, Function.update_of_ne hkj]; exact hflag, hphase' k hk'⟩
  case delivered_nodup =>
    rw [deliveries_submit]
    exact inv.delivered_nodup
  case order =>
    intro q
    rw [inv.undelivered_submit fresh hphase, submit_history, deliveredFrom_append,
      deliveredFrom_submitted, List.append_nil, submittedTo_append, submittedTo_submitted,
      ← List.append_assoc]
    exact (inv.order q).append (List.Sublist.refl _)
  case counter =>
    rw [deliveries_submit]
    exact inv.counter
  case tickets =>
    rw [deliveries_submit]
    exact inv.tickets

/-- A delivery leaves all fields of the jobs but the ticket and the flag. -/
theorem jobs_deliver_stays (s : QueueState) (q : Str) (j k : JobId) :
    ((s.deliver q j).jobs k).queueNameString = (s.jobs k).queueNameString ∧
      ((s.deliver q j).jobs k).readyToProcess = (s.jobs k).readyToProcess := by
  by_cases hkj : k = j
  · subst hkj
    rw [deliver_jobs, Function.update_self]
    exact ⟨rfl, rfl⟩
  · rw [deliver_jobs, Function.update_of_ne hkj]
    exact ⟨rfl, rfl⟩

theorem filter_deliver_of_not_mem {q : Str} {j : JobId} {l : List JobId} (h : j ∉ l) :
    l.filter (fun k ↦ !((s.deliver q j).jobs k).submitted)
      = l.filter fun k ↦ !(s.jobs k).submitted :=
  List.filter_congr fun k hk ↦ by
    have hkj : k ≠ j := ne_of_mem_of_not_mem hk h
    rw [deliver_jobs, Function.update_of_ne hkj]

/-- A ready job that can be delivered has not been. -/
theorem submitted_eq_not_deliverable {j : JobId} (hready : (s.jobs j).readyToProcess = true) :
    (s.jobs j).submitted = !deliverable s.jobs j := by
  rw [deliverable, hready, Bool.true_and, Bool.not_not]

/-- The scan takes the first undelivered job. -/
theorem DeliveryInv.undelivered_deliver (inv : DeliveryInv s) {queueName : Str} {j : JobId}
    (hnext : nextJob s.jobs (s.queues queueName) = some j) (q : Str) : s.undelivered q
      = (if queueName = q then [j] else []) ++ (s.deliver queueName j).undelivered q := by
  obtain ⟨before, after, hsplit, hj, hbefore⟩ := nextJob_eq_some hnext
  have hready : ∀ k ∈ before ++ j :: after, (s.jobs k).readyToProcess = true :=
    fun k hk ↦ (inv.queued queueName k (hsplit ▸ hk)).2.1
  by_cases hq : queueName = q
  · subst hq
    have hnodup := inv.queue_nodup queueName
    rw [hsplit, List.nodup_append, List.nodup_cons] at hnodup
    obtain ⟨-, ⟨hja, -⟩, hdisjoint⟩ := hnodup
    have hjb : j ∉ before := fun h ↦ hdisjoint j h j List.mem_cons_self rfl
    have htaken : before.filter (fun k ↦ !(s.jobs k).submitted) = [] :=
      List.filter_eq_nil_iff.mpr fun k hk ↦ by
        rw [submitted_eq_not_deliverable (hready k (List.mem_append_left _ hk)), hbefore k hk]
        decide
    have hflag : (s.jobs j).submitted = false := by
      rw [submitted_eq_not_deliverable (hready j (by simp)), hj, Bool.not_true]
    have hqueue : (s.deliver queueName j).queues queueName = before ++ j :: after := hsplit
    rw [undelivered, undelivered, hqueue, hsplit, if_pos rfl, List.filter_append,
      List.filter_append, htaken, filter_deliver_of_not_mem hjb, htaken, List.nil_append,
      List.nil_append, List.filter_cons_of_pos (by simp [hflag]),
      List.filter_cons_of_neg (by simp [deliver_jobs]), filter_deliver_of_not_mem hja,
      List.singleton_append]
  · have hmem : j ∈ s.queues queueName := by rw [hsplit]; simp
    have hname := (inv.queued queueName j hmem).1
    have hjq : j ∉ s.queues q := fun h ↦ hq (hname.symm.trans (inv.queued q j h).1)
    rw [if_neg hq, List.nil_append, undelivered, undelivered]
    exact (filter_deliver_of_not_mem hjq).symm

theorem DeliveryInv.deliver (inv : DeliveryInv s) {queueName : Str} {j : JobId}
    (hnext : nextJob s.jobs (s.queues queueName) = some j) :
    DeliveryInv (s.deliver queueName j) := by
  obtain ⟨before, after, hsplit, hj, -⟩ := nextJob_eq_some hnext
  have hmem : j ∈ s.queues queueName := by rw [hsplit]; simp
  obtain ⟨-, hready, hphase⟩ := inv.queued _ j hmem
  have hnew : j ∉ (deliveries s.history).map Prod.fst := fun h ↦ by
    have hflag := (inv.delivered_flag j h).1
    rw [submitted_eq_not_deliverable hready, hj] at hflag
    exact absurd hflag (by decide)
  constructor
  case queued =>
    intro q k hk
    obtain ⟨hn, hr, hk'⟩ := inv.queued q k hk
    obtain ⟨hname, hready⟩ := s.jobs_deliver_stays queueName j k
    exact ⟨hname.trans hn, hready.trans hr, hk'⟩
  case queue_nodup => exact inv.queue_nodup
  case submitted_phase =>
    intro q k hk
    rw [deliver_history, submittedTo_append, submittedTo_delivered, List.append_nil] at hk
    exact inv.submitted_phase q k hk
  case submitted_nodup =>
    intro q
    rw [deliver_history, submittedTo_append, submittedTo_delivered, List.append_nil]
    exact inv.submitted_nodup q
  case delivered_flag =>
    intro k hk
    by_cases hkj : k = j
    · subst hkj
      exact ⟨by simp [deliver_jobs], hphase⟩
    · rw [deliveries_deliver, List.map_append, List.mem_append] at hk
      obtain ⟨hf, hk'⟩ := inv.delivered_flag k (hk.resolve_right (by simp [hkj]))
      exact ⟨by rw [deliver_jobs, Function.update_of_ne hkj]; exact hf, hk'⟩
  case delivered_nodup =>
    rw [deliveries_deliver, List.map_append]
    exact inv.delivered_nodup.append (List.nodup_singleton j) (by simpa using hnew)
  case order =>
    intro q
    have h := inv.order q
    rw [inv.undelivered_deliver hnext q, ← List.append_assoc] at h
    rw [deliver_history, deliveredFrom_append, deliveredFrom_delivered, submittedTo_append,
      submittedTo_delivered, List.append_nil]
    exact h
  case counter =>
    rw [deliveries_deliver, List.length_append, deliver_ticketId, inv.counter,
      toLong_toLong_add]
    simp
  case tickets =>
    rw [deliveries_deliver, List.map_append, inv.tickets, List.length_append,
      List.length_singleton, List.range_succ, List.map_append, inv.counter, toLong_toLong_add]
    simp

theorem DeliveryInv.cleanUp (inv : DeliveryInv s) {j : JobId} : DeliveryInv (s.cleanUp j) := by
  -- Every queue keeps a subsequence of what it held.
  have hsub : ∀ q, ((s.cleanUp j).queues q).Sublist (s.queues q) := by
    intro q
    rw [cleanUp_queues, Function.update_apply]
    split
    · next hq =>
      subst hq
      rw [cleanUpLoop_eq_filter, List.nil_append]
      exact List.filter_sublist
    · exact List.Sublist.refl _
  have hphase : ∀ k, s.phase k ≠ .absent → (s.cleanUp j).phase k ≠ .absent :=
    fun k hk ↦ phase_update_ne_absent (by decide) hk
  have hsubmitted : ∀ q, submittedTo q (s.cleanUp j).history = submittedTo q s.history := by
    simp
  have hdeliveries := s.deliveries_cleanUp j
  constructor
  case queued =>
    intro q k hk
    obtain ⟨hn, hr, hk'⟩ := inv.queued q k ((hsub q).subset hk)
    exact ⟨hn, hr, hphase k hk'⟩
  case queue_nodup => exact fun q ↦ (inv.queue_nodup q).sublist (hsub q)
  case submitted_phase =>
    exact fun q k hk ↦ hphase k (inv.submitted_phase q k (hsubmitted q ▸ hk))
  case submitted_nodup => exact fun q ↦ hsubmitted q ▸ inv.submitted_nodup q
  case delivered_flag =>
    intro k hk
    obtain ⟨hf, hk'⟩ := inv.delivered_flag k (hdeliveries ▸ hk)
    exact ⟨hf, hphase k hk'⟩
  case delivered_nodup => exact hdeliveries ▸ inv.delivered_nodup
  case order =>
    intro q
    have hfrom : deliveredFrom q (s.cleanUp j).history = deliveredFrom q s.history := by
      simp
    rw [hfrom, hsubmitted]
    exact (((hsub q).filter _).append_left _).trans (inv.order q)
  case counter =>
    rw [hdeliveries]
    exact inv.counter
  case tickets =>
    rw [hdeliveries]
    exact inv.tickets

theorem DeliveryInv.step {a : QueueAction} {s' : QueueState} (inv : DeliveryInv s)
    (h : s.step a = some s') : DeliveryInv s' := by
  cases effect_of_step h with
  | submit j fresh hphase => exact inv.submit fresh hphase
  | wake j hphase hcompleted =>
    exact inv.of_frame (fun _ ↦ ⟨rfl, rfl, rfl⟩) rfl rfl
      (fun _ hk ↦ phase_update_ne_absent (by decide) hk) (fun _ ↦ rfl) (fun _ ↦ rfl) rfl
  | cleanUp j hphase => exact inv.cleanUp
  | deliver queueName j hnext => exact inv.deliver hnext
  | find object indeterminate j hfind =>
    exact inv.of_frame (fun _ ↦ ⟨rfl, rfl, rfl⟩) rfl rfl (fun _ hk ↦ hk) (fun _ ↦ rfl)
      (fun _ ↦ rfl) rfl
  | complete n object j hcall =>
    refine inv.of_frame (fun k ↦ ?_) rfl rfl (fun _ hk ↦ hk) (by simp) (by simp) (by simp)
    by_cases hkj : k = j
    · subst hkj
      simp [complete_jobs]
    · simp [complete_jobs, Function.update_of_ne hkj]
  | idle => exact inv

theorem deliveryInv_of_run {actions : List QueueAction} (hrun : run actions = some s) :
    DeliveryInv s :=
  Transition.invariant_of_run (fun _ _ _ inv h ↦ inv.step h) deliveryInv_start hrun

/-! ## The order of delivery -/

/-- **Delivery.** In every run of fewer than `2 ^ 63` deliveries no job is delivered twice, the
tickets increase strictly over all queues, and each queue delivers in the order in which jobs were
submitted to it. -/
theorem delivered_once_in_order {actions : List QueueAction} (hrun : run actions = some s)
    (hcount : (deliveries s.history).length < 2 ^ 63) :
    ((deliveries s.history).map Prod.fst).Nodup ∧
      ((deliveries s.history).map Prod.snd).Pairwise (· < ·) ∧
      ∀ q, (submittedTo q s.history).Nodup ∧
        (deliveredFrom q s.history).Sublist (submittedTo q s.history) := by
  have inv := deliveryInv_of_run hrun
  refine ⟨inv.delivered_nodup, ?_, fun q ↦ ⟨inv.submitted_nodup q, ?_⟩⟩
  · rw [inv.tickets, List.pairwise_map]
    refine List.Pairwise.imp_of_mem ?_ List.pairwise_lt_range
    intro a b ha hb hab
    rw [List.mem_range] at ha hb
    rw [toLong_of_lt (by omega) (by omega), toLong_of_lt (by omega) (by omega)]
    omega
  · exact (List.sublist_append_left _ _).trans (inv.order q)

theorem delivered_once_in_order_waitingRun :
    ∃ s, run (waitingRun 1 1) = some s ∧ (deliveries s.history).length < 2 ^ 63 ∧
      ((deliveries s.history).map Prod.fst).Nodup ∧
      ((deliveries s.history).map Prod.snd).Pairwise (· < ·) ∧
      ∀ q, (submittedTo q s.history).Nodup ∧
        (deliveredFrom q s.history).Sublist (submittedTo q s.history) :=
  ⟨_, rfl, by decide, @delivered_once_in_order _ (waitingRun 1 1) rfl (by decide)⟩

end QueueState

end SlimTS

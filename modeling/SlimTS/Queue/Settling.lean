import Mathlib.Algebra.BigOperators.Group.Finset.Basic
import Mathlib.Algebra.Order.BigOperators.Group.Finset
import SlimTS.Queue.HonestWorkers

/-!
# Every `submit` comes back

No order of steps of honest parties strands a job: what is left to do at the queues is a number,
every step that changes anything lowers it by one, and while it is not zero some party has a step
that changes something. So once no more jobs come in, every run of such steps ends after that many
of them, whichever they are, with every `submit` returned, every queue empty and no call of
`complete` under way.

The count is by job, and each job passes through five steps: taken by a worker, looked up, written
to, seen by the poll and cleaned up. Polls and scans that find nothing change nothing, so they may
be left out of a run.
-/

namespace SlimTS

/-- The jobs pushed to any queue. -/
def submittedJobs (history : List QueueEvent) : List JobId :=
  history.filterMap fun
    | .submitted j _ => some j
    | _ => none

section Log

variable (h : List QueueEvent)

@[simp] theorem submittedJobs_append (h' : List QueueEvent) :
    submittedJobs (h ++ h') = submittedJobs h ++ submittedJobs h' := List.filterMap_append

@[simp] theorem submittedJobs_delivered (j : JobId) (q : Str) (t : ℤ) :
    submittedJobs [.delivered j q t] = [] := rfl
@[simp] theorem submittedJobs_completed (object : JobObject) (j : JobId) :
    submittedJobs [.completed object j] = [] := rfl
@[simp] theorem submittedJobs_returned (j : JobId) (egress : FileStorage) :
    submittedJobs [.returned j egress] = [] := rfl

variable {h}

theorem mem_submittedJobs {j : JobId} : j ∈ submittedJobs h ↔ ∃ q, .submitted j q ∈ h := by
  rw [submittedJobs, List.mem_filterMap]
  constructor
  · rintro ⟨e, he, heq⟩
    cases e with
    | submitted k q => exact ⟨q, Option.some_inj.mp heq ▸ he⟩
    | delivered | completed | returned => cases heq
  · rintro ⟨q, hmem⟩
    exact ⟨_, hmem, rfl⟩

end Log

/-- The action brings a new job. -/
def QueueAction.IsSubmit : QueueAction → Prop
  | .submit _ _ => True
  | _ => False

namespace QueueState

/-- The steps that a job has before it. -/
def remaining (s : QueueState) (j : JobId) : ℕ :=
  match s.phase j with
  | .absent | .returned => 0
  | .woken => 1
  | .waiting =>
    if (s.jobs j).completed then 2
    else if (s.jobs j).submitted then if (s.jobs j).ticketId ∈ s.called then 3 else 4
    else 5

/-- The steps that all jobs have before them. -/
def pending (s : QueueState) : ℕ := ∑ j ∈ (submittedJobs s.history).toFinset, s.remaining j

/-- A step of an honest party that brings no new job and changes something. -/
def Advances (bound : ℕ) (s : QueueState) (a : QueueAction) : Prop :=
  s.Honest bound a ∧ ¬a.IsSubmit ∧ s.step a ≠ some s

/-- Nothing is left to do, and every job that was submitted has its whole life behind it. -/
structure Settled (s : QueueState) : Prop where
  returned : ∀ j, ¬s.InSubmit j
  queues : ∀ q, s.queues q = []
  completing : s.completing = []
  lives : ∀ j ∈ submittedJobs s.history, ∃ object : JobObject,
    object.ticketId = (s.jobs j).ticketId ∧ s.log j = lifeOf j (s.jobs j) object

/-- What the count relies on. -/
structure SettlingInv (bound : ℕ) (s : QueueState) : Prop where
  honest : HonestInv bound s
  lives : ∀ j, s.Lives j
  submissions : (submittedJobs s.history).length ≤ bound

variable {bound : ℕ} {s : QueueState}

/-! ## The log -/

namespace SettlingInv

theorem mem_submittedJobs (inv : SettlingInv bound s) {j : JobId} (hphase : s.phase j ≠ .absent) :
    j ∈ submittedJobs s.history := by
  obtain ⟨object, -, -, hlife⟩ := inv.lives j
  have hage : 1 ≤ s.age j := by
    rw [age]
    cases hp : s.phase j with
    | absent => exact absurd hp hphase
    | returned => exact Nat.le_add_left 1 3
    | waiting | woken => grind
  have hmem : .submitted j (s.jobs j).queueNameString ∈ s.log j := by
    rw [hlife, ← Nat.sub_add_cancel hage, lifeOf, List.take_succ_cons]
    exact List.mem_cons_self
  exact SlimTS.mem_submittedJobs.mpr ⟨_, List.mem_of_mem_filter hmem⟩

/-- A job is delivered only after it was submitted, and not twice. -/
theorem deliveries_length_le (inv : SettlingInv bound s) :
    (deliveries s.history).length ≤ bound := by
  rw [← List.length_map (f := Prod.fst)]
  refine (List.subperm_of_subset inv.honest.delivery.delivered_nodup fun j hj ↦ ?_).length_le.trans
    inv.submissions
  exact inv.mem_submittedJobs (inv.honest.delivery.delivered_flag j hj).2

end SettlingInv

/-- Every called ticket was given out. -/
theorem HonestInv.exists_of_called (inv : HonestInv bound s) {t : ℤ} (ht : t ∈ s.called) :
    ∃ j, (j, t) ∈ deliveries s.history := by
  rcases List.mem_append.mp ht with ht | ht
  · obtain ⟨⟨object, j⟩, hcall, rfl⟩ := List.mem_map.mp ht
    obtain ⟨-, hsubmitted, hticket, -⟩ := inv.of_inFlight hcall
    exact ⟨j, hticket ▸ inv.mem_deliveries_of_submitted hsubmitted⟩
  · obtain ⟨object, j, hobject, rfl⟩ := mem_reportedTickets.mp ht
    exact ⟨j, mem_deliveries.mpr (inv.completion.completes object j hobject)⟩

/-! ## The steps -/

/-- The step brings the job `j` one further and leaves the others where they are. -/
structure Moves (s s' : QueueState) (j : JobId) : Prop where
  moved : s'.remaining j + 1 = s.remaining j
  others : ∀ k, k ≠ j → s'.remaining k = s.remaining k

theorem remaining_congr {s' : QueueState} {k : JobId} (hjob : s'.jobs k = s.jobs k)
    (hphase : s'.phase k = s.phase k)
    (hcalled : (s.jobs k).submitted = true →
      ((s.jobs k).ticketId ∈ s'.called ↔ (s.jobs k).ticketId ∈ s.called)) :
    s'.remaining k = s.remaining k := by
  rw [remaining, remaining, hjob, hphase]
  cases hsubmitted : (s.jobs k).submitted with
  | false => rfl
  | true => simp only [hcalled hsubmitted]

theorem moves_wake {j : JobId} (hwaiting : s.phase j = .waiting)
    (hcompleted : (s.jobs j).completed = true) :
    s.Moves { s with phase := Function.update s.phase j .woken } j where
  moved := by simp [remaining, hwaiting, hcompleted]
  others k hkj := remaining_congr rfl (Function.update_of_ne hkj _ _) fun _ ↦ Iff.rfl

theorem moves_cleanUp {j : JobId} (hwoken : s.phase j = .woken) : s.Moves (s.cleanUp j) j where
  moved := by simp [remaining, cleanUp_phase, hwoken]
  others k hkj := remaining_congr rfl (Function.update_of_ne hkj _ _) fun _ ↦ by simp [called]

theorem moves_deliver (inv : HonestInv bound s) {queueName : Str} {j : JobId}
    (hcount : (deliveries (s.deliver queueName j).history).length < 2 ^ 31)
    (hnext : nextJob s.jobs (s.queues queueName) = some j) :
    s.Moves (s.deliver queueName j) j where
  moved := by
    obtain ⟨hwaiting, -, hsubmitted, hcompleted⟩ := inv.of_nextJob hnext
    -- The ticket is new, so nobody has reported it.
    have hnew : toLong (s.ticketId + 1) ∉ (s.deliver queueName j).called := by
      intro hcalled
      obtain ⟨k, hk⟩ := inv.exists_of_called (by simpa [called] using hcalled)
      have hlog := s.deliveries_deliver j queueName
      have hkj : k = j := (inv.delivery.deliver hnext).ticket_inj hcount
        (hlog ▸ List.mem_append_left _ hk) (hlog ▸ List.mem_append_right _ List.mem_cons_self)
      rw [hkj] at hk
      rw [(inv.delivery.delivered_flag j (List.mem_map_of_mem hk)).1] at hsubmitted
      cases hsubmitted
    simp [remaining, deliver_jobs, hwaiting, hsubmitted, hcompleted, hnew]
  others k hkj := remaining_congr (Function.update_of_ne hkj _ _) rfl fun _ ↦ by simp [called]

theorem moves_find (inv : HonestInv bound s) (hcount : (deliveries s.history).length ≤ bound)
    (hbound : bound < 2 ^ 31) {object : JobObject} {j : JobId} (hphase : s.phase j ≠ .absent)
    (hsubmitted : (s.jobs j).submitted = true) (hticket : (s.jobs j).ticketId = object.ticketId)
    (hnew : object.ticketId ∉ s.called) :
    s.Moves { s with completing := s.completing ++ [(object, j)] } j where
  moved := by
    have hcompleted : (s.jobs j).completed = false := by
      by_contra htrue
      exact hnew (hticket ▸ inv.called_of_completed (Bool.not_eq_false _ ▸ htrue))
    have hwaiting := inv.waiting hphase hcompleted
    have hcalled : object.ticketId ∈
        ({ s with completing := s.completing ++ [(object, j)] } : QueueState).called :=
      called_find_perm.mem_iff.mpr List.mem_cons_self
    simp [remaining, hwaiting, hcompleted, hsubmitted, hticket, hnew, hcalled]
  others k hkj := remaining_congr rfl rfl fun hk ↦ by
    rw [called_find_perm.mem_iff, List.mem_cons, or_iff_right]
    intro hsame
    have hown := hticket ▸ inv.mem_deliveries_of_submitted hsubmitted
    exact hkj (inv.eq_of_ticket hcount hbound hown (inv.completion.taken k hk).1 hsame).2

theorem moves_complete (inv : HonestInv bound s) {n : ℕ} {object : JobObject} {j : JobId}
    (hcall : s.completing[n]? = some (object, j)) : s.Moves (s.complete n object j) j where
  moved := by
    have hmem := List.mem_of_getElem? hcall
    obtain ⟨hwaiting, hsubmitted, hticket, hcompleted⟩ := inv.of_inFlight hmem
    have hcalled : object.ticketId ∈ s.called :=
      List.mem_append_left _ (List.mem_map.mpr ⟨_, hmem, rfl⟩)
    simp [remaining, complete_jobs, hwaiting, hsubmitted, hcompleted, hticket, hcalled]
  others k hkj := remaining_congr (Function.update_of_ne hkj _ _) rfl fun _ ↦
    (called_complete_perm hcall).mem_iff

theorem submittedJobs_of_advances {a : QueueAction} {s' : QueueState} (ha : s.Advances bound a)
    (h : s.step a = some s') : submittedJobs s'.history = submittedJobs s.history := by
  cases effect_of_step h with
  | submit j fresh => exact absurd trivial ha.2.1
  | cleanUp | deliver | complete => simp
  | wake | find | idle => rfl

theorem SettlingInv.step (inv : SettlingInv bound s) (hbound : bound < 2 ^ 31) {a : QueueAction}
    {s' : QueueState} (ha : s.Advances bound a) (h : s.step a = some s') :
    SettlingInv bound s' where
  honest := inv.honest.step inv.deliveries_length_le hbound h ha.1
  lives j := (inv.lives j).step inv.honest h
  submissions := (submittedJobs_of_advances ha h).symm ▸ inv.submissions

/-- A step that changes something brings one job one step further. -/
theorem SettlingInv.moves (inv : SettlingInv bound s) (hbound : bound < 2 ^ 31) {a : QueueAction}
    {s' : QueueState} (ha : s.Advances bound a) (h : s.step a = some s') : ∃ j, s.Moves s' j := by
  have hcount := inv.deliveries_length_le
  have hcount' := (inv.step hbound ha h).deliveries_length_le
  have hfinds := inv.honest.findsItsJob hcount hbound ha.1
  cases effect_of_step h with
  | submit j fresh => exact absurd trivial ha.2.1
  | wake j hwaiting hcompleted => exact ⟨j, moves_wake hwaiting hcompleted⟩
  | cleanUp j hwoken => exact ⟨j, moves_cleanUp hwoken⟩
  | deliver queueName j hnext =>
    exact ⟨j, moves_deliver inv.honest (hcount'.trans_lt hbound) hnext⟩
  | find object indeterminate j hfind =>
    rcases findJob_eq_some hfind with ⟨hj, hticket⟩ | ⟨hpointer, hnone⟩
    · exact ⟨j, moves_find inv.honest hcount hbound (inv.honest.delivery.queued _ j hj).2.2
        (hfinds.1 j hj hticket) hticket ha.1.2⟩
    · rcases hfinds.2 with ⟨k, hk, hticket⟩ | hnull
      · exact absurd hticket (hnone k hk)
      · exact absurd (hpointer.symm.trans hnull) (by simp)
  | complete n object j hcall => exact ⟨j, moves_complete inv.honest hcall⟩
  | idle => exact absurd h ha.2.2

theorem SettlingInv.pending_step (inv : SettlingInv bound s) (hbound : bound < 2 ^ 31)
    {a : QueueAction} {s' : QueueState} (ha : s.Advances bound a) (h : s.step a = some s') :
    s'.pending + 1 = s.pending := by
  obtain ⟨j, hmoved, hothers⟩ := inv.moves hbound ha h
  have hj : j ∈ (submittedJobs s.history).toFinset := by
    refine List.mem_toFinset.mpr (inv.mem_submittedJobs fun habsent ↦ ?_)
    simp [remaining, habsent] at hmoved
  have hrest : ∑ k ∈ (submittedJobs s.history).toFinset.erase j, s'.remaining k
      = ∑ k ∈ (submittedJobs s.history).toFinset.erase j, s.remaining k :=
    Finset.sum_congr rfl fun k hk ↦ hothers k (Finset.ne_of_mem_erase hk)
  rw [pending, pending, submittedJobs_of_advances ha h, ← Finset.add_sum_erase _ _ hj, hrest,
    ← Finset.add_sum_erase _ s.remaining hj, ← hmoved]
  omega

/-! ## There is always a step -/

theorem exists_of_ne {a : QueueAction} {s' : QueueState} (hhonest : s.Honest bound a)
    (hold : ¬a.IsSubmit) (h : s.step a = some s') (hne : s' ≠ s) :
    ∃ a s', s.Advances bound a ∧ s.step a = some s' :=
  ⟨a, s', ⟨hhonest, hold, fun heq ↦ hne (Option.some_inj.mp (h.symm.trans heq))⟩, h⟩

theorem ne_of_history {s' : QueueState} {e : QueueEvent} (h : s'.history = s.history ++ [e]) :
    s' ≠ s := by
  rintro rfl
  simpa using congrArg List.length h

theorem ne_of_phase {s' : QueueState} {j : JobId} (h : s'.phase j ≠ s.phase j) : s' ≠ s := by
  rintro rfl
  exact h rfl

/-- The last report about a delivered job that is not completed is still under way. -/
theorem HonestInv.exists_inFlight (inv : HonestInv bound s)
    (hcount : (deliveries s.history).length ≤ bound) (hbound : bound < 2 ^ 31) {j : JobId}
    (hsubmitted : (s.jobs j).submitted = true) (hcompleted : (s.jobs j).completed = false)
    (hcalled : (s.jobs j).ticketId ∈ s.called) :
    ∃ (n : ℕ) (call : JobObject × JobId), s.completing[n]? = some call := by
  rcases List.mem_append.mp hcalled with hcall | hreported
  · obtain ⟨call, hcall, -⟩ := List.mem_map.mp hcall
    obtain ⟨n, hn⟩ := List.mem_iff_getElem?.mp hcall
    exact ⟨n, call, hn⟩
  · obtain ⟨object, k, hobject, hticket⟩ := mem_reportedTickets.mp hreported
    have hk : (k, (s.jobs j).ticketId) ∈ deliveries s.history :=
      mem_deliveries.mpr (hticket ▸ inv.completion.completes object k hobject)
    obtain rfl := inv.delivery.ticket_inj (by omega) hk (inv.mem_deliveries_of_submitted hsubmitted)
    rw [inv.completed k (.inl ⟨object, hobject⟩)] at hcompleted
    cases hcompleted

/-- **No deadlock.** While a job has a step before it, some party has a step that changes
something. -/
theorem SettlingInv.exists_advance (inv : SettlingInv bound s) (hbound : bound < 2 ^ 31)
    {j : JobId} (hj : s.remaining j ≠ 0) : ∃ a s', s.Advances bound a ∧ s.step a = some s' := by
  have hcount := inv.deliveries_length_le
  cases hphase : s.phase j with
  | absent | returned => simp [remaining, hphase] at hj
  | woken =>
    refine exists_of_ne (a := .cleanUp j) trivial id (if_pos hphase) ?_
    exact ne_of_history (s.cleanUp_history j)
  | waiting =>
    have hqueue := inv.honest.keeps j (.inl hphase)
    cases hcompleted : (s.jobs j).completed with
    | true =>
      refine exists_of_ne (a := .poll j) trivial id (if_pos hphase) (ne_of_phase (j := j) ?_)
      simp [poll, hcompleted, hphase]
    | false =>
      cases hsubmitted : (s.jobs j).submitted with
      | false =>
        refine exists_of_ne (a := .getJob (s.jobs j).queueNameString) trivial id rfl ?_
        rw [getJob]
        split
        · next hnone =>
          have hready := (inv.honest.delivery.queued _ j hqueue).2.1
          have htaken := nextJob_eq_none hnone j hqueue
          rw [deliverable, hready, hsubmitted] at htaken
          cases htaken
        · next k _ => exact ne_of_history (s.deliver_history k _)
      | true =>
        by_cases hcalled : (s.jobs j).ticketId ∈ s.called
        · obtain ⟨n, call, hcall⟩ :=
            inv.honest.exists_inFlight hcount hbound hsubmitted hcompleted hcalled
          refine exists_of_ne (a := .complete n) trivial id
            (congrArg (Option.map _) hcall) ?_
          exact ne_of_history (s.complete_history call.2 n call.1)
        · -- The worker passes the object that `listen` has made of the job.
          have hdelivered := inv.honest.mem_deliveries_of_submitted hsubmitted
          have hlisten := inv.honest.listen_ticketId hcount hbound hdelivered
          refine exists_of_ne (a := .findJob (s.jobs j).listen none)
            ⟨⟨_, hdelivered, rfl, rfl⟩, hlisten.symm ▸ hcalled⟩ id rfl ?_
          rw [findJob]
          split
          · next hnone => exact absurd hlisten.symm ((findJob_eq_none hnone).2 j hqueue)
          · exact fun heq ↦ by simpa using congrArg (fun s ↦ s.completing.length) heq

/-! ## Whole runs -/

theorem remaining_eq_zero_iff {j : JobId} : s.remaining j = 0 ↔ ¬s.InSubmit j := by
  rw [remaining, InSubmit]
  cases s.phase j <;> grind

theorem remaining_le (j : JobId) : s.remaining j ≤ 5 := by
  rw [remaining]
  cases s.phase j <;> grind

theorem SettlingInv.settled (inv : SettlingInv bound s) (h : ∀ j, ¬s.InSubmit j) : s.Settled := by
  have hreturned : ∀ j, s.phase j ≠ .absent → s.phase j = .returned := fun j hphase ↦ by
    have hj := h j
    rw [InSubmit] at hj
    cases hp : s.phase j with
    | absent => exact absurd hp hphase
    | returned => rfl
    | waiting | woken => simp [hp] at hj
  constructor
  case returned => exact h
  case queues =>
    refine fun q ↦ List.eq_nil_iff_forall_not_mem.mpr fun k hk ↦ ?_
    exact inv.honest.gone k (hreturned k (inv.honest.delivery.queued q k hk).2.2) q hk
  case completing =>
    refine List.eq_nil_iff_forall_not_mem.mpr fun call hcall ↦ ?_
    exact h call.2 (.inl (inv.honest.of_inFlight hcall).1)
  case lives =>
    intro j hj
    obtain ⟨q, hq⟩ := SlimTS.mem_submittedJobs.mp hj
    obtain ⟨object, hticket, -, hlife⟩ := inv.lives j
    have hphase : s.phase j ≠ .absent := fun habsent ↦ by
      have hlog : .submitted j q ∈ s.log j := List.mem_filter.mpr ⟨hq, by simp [QueueEvent.job]⟩
      rw [hlife, age, habsent] at hlog
      cases hlog
    rw [age, hreturned j hphase] at hlife
    exact ⟨object, hticket, hlife⟩

theorem SettlingInv.pending_eq_zero_iff (inv : SettlingInv bound s) :
    s.pending = 0 ↔ s.Settled := by
  rw [pending, Finset.sum_eq_zero_iff]
  constructor
  · refine fun hzero ↦ inv.settled fun j hj ↦ ?_
    have hphase : s.phase j ≠ .absent := fun habsent ↦ by
      rw [InSubmit, habsent] at hj
      simp at hj
    exact remaining_eq_zero_iff.mp (hzero j (List.mem_toFinset.mpr (inv.mem_submittedJobs hphase)))
      hj
  · exact fun hsettled j _ ↦ remaining_eq_zero_iff.mpr (hsettled.returned j)

theorem submittedJobs_length_le {a : QueueAction} {s' : QueueState} (h : s.step a = some s') :
    (submittedJobs s.history).length ≤ (submittedJobs s'.history).length := by
  cases effect_of_step h with
  | submit | cleanUp | complete | deliver => simp
  | wake | find | idle => exact le_rfl

theorem settlingInv_of_run {actions : List QueueAction} (hbound : bound < 2 ^ 31)
    (hrun : run actions = some s)
    (hhonest : Transition.Meets step (Honest bound) start actions)
    (hcount : (submittedJobs s.history).length ≤ bound) : SettlingInv bound s :=
  Transition.invariant_of_meets
    (I := fun s ↦ (submittedJobs s.history).length ≤ bound → SettlingInv bound s)
    (fun _ _ _ ih hcond h hcount' ↦ by
      have inv := ih ((submittedJobs_length_le h).trans hcount')
      exact ⟨inv.honest.step inv.deliveries_length_le hbound h hcond,
        fun j ↦ (inv.lives j).step inv.honest h, hcount'⟩)
    (fun hcount' ↦ ⟨honestInv_start bound, lives_start, hcount'⟩) hhonest hrun hcount

/-- **Every `submit` comes back.** Wherever a run of honest parties has led, what is left to do is
a number of steps, at most five for each job submitted. Whichever steps the parties take from
there, as long as no further job comes in and each step changes something, they take exactly that
many, and are then done. -/
theorem settles_of_honest {actions : List QueueAction} (hbound : bound < 2 ^ 31)
    (hrun : run actions = some s)
    (hhonest : Transition.Meets step (Honest bound) start actions)
    (hcount : (submittedJobs s.history).length ≤ bound) :
    s.pending ≤ 5 * (submittedJobs s.history).length ∧
      Transition.SettlesIn step (Advances bound) Settled s s.pending := by
  have inv := settlingInv_of_run hbound hrun hhonest hcount
  constructor
  · calc s.pending
      ≤ (submittedJobs s.history).toFinset.card * 5 :=
        Finset.sum_le_card_nsmul _ _ _ fun j _ ↦ remaining_le j
    _ ≤ 5 * (submittedJobs s.history).length := by
        rw [Nat.mul_comm]
        exact Nat.mul_le_mul_left 5 (List.toFinset_card_le _)
  · exact Transition.settlesIn_rank (I := SettlingInv bound)
      (fun _ _ _ inv ha h ↦ ⟨inv.step hbound ha h, inv.pending_step hbound ha h⟩)
      (fun _ inv ↦ inv.pending_eq_zero_iff)
      (fun s inv hpending ↦ by
        obtain ⟨j, -, hj⟩ := Finset.exists_ne_zero_of_sum_ne_zero hpending
        exact inv.exists_advance hbound hj)
      inv

theorem settles_of_honest_waitingRun :
    ∃ s, run (waitingRun 0 0) = some s ∧ s.pending = 5 ∧
      s.pending ≤ 5 * (submittedJobs s.history).length ∧
      Transition.SettlesIn step (Advances 2) Settled s s.pending :=
  ⟨_, rfl, by decide,
    @settles_of_honest 2 _ (waitingRun 0 0) (by decide) rfl (by decide) (by decide)⟩

end QueueState

end SlimTS

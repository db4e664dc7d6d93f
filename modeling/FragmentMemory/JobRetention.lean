import FragmentMemory.BatchRememberWorker

/-! # No batch job is lost

Whatever commands fail and wherever the process crashes, a job whose enqueue has succeeded is in the queue, in
processing or among the dead letters, or has been processed: a value leaves processing only when the job is
settled elsewhere.
-/
namespace FragmentMemory.JobRetention
open FragmentTables RedisLists BatchRememberWorker TransitionRuns

variable {Raw Params : Type} (codec : JsonCodec Raw Params) (retryLimit : ℕ)

/-- A value of a list that holds a job. -/
def Holds (raw : Raw) (job : Job Params) : Prop := ∃ envelope, codec.parse raw = some envelope ∧ envelope.job = job

/-- A job is in the queue or among the dead letters, or its `process` call has completed. -/
def Settled (system : System Raw Params) (job : Job Params) : Prop :=
  (∃ raw, (raw ∈ system.lists.queue ∨ raw ∈ system.lists.dead) ∧ Holds codec raw job) ∨ job ∈ system.completed

/-- A job is in one of the three lists, or its `process` call has completed. -/
def Kept (system : System Raw Params) (job : Job Params) : Prop :=
  (∃ raw ∈ system.lists.processing, Holds codec raw job) ∨ Settled codec system job

/-- A step that completes `requeueProcessing` leaves no job in processing alone. -/
def RecoversAll [DecidableEq Raw] (system : System Raw Params) (event : Event Params) : Prop :=
  ∀ now, event = .command now .answered → system.worker = .recovering →
    (step codec retryLimit system event).worker = .polling →
      ∀ job ∈ (step codec retryLimit system event).accepted, Settled codec (step codec retryLimit system event) job

/-- What holds in every run: accepted jobs are kept, the job in process is that of its raw value, and a job that
is about to be acknowledged is settled. -/
structure Retains (system : System Raw Params) : Prop where
  accepted : ∀ job ∈ system.accepted, Kept codec system job
  working : ∀ raw envelope, system.worker = .working raw envelope → codec.parse raw = some envelope
  disposing : ∀ raw envelope error, system.worker = .disposing raw envelope error → codec.parse raw = some envelope
  acking : ∀ raw, system.worker = .acking raw → ∀ job, Holds codec raw job → Settled codec system job

variable {codec retryLimit}

theorem holds_stringify (envelope : Envelope Params) : Holds codec (codec.stringify envelope) envelope.job :=
  ⟨envelope, codec.parse_stringify envelope, rfl⟩

theorem job_eq_of_holds {raw : Raw} {envelope : Envelope Params} {job : Job Params}
    (hparse : codec.parse raw = some envelope)
    (h : Holds codec raw job) : job = envelope.job := by
  obtain ⟨other, hother, rfl⟩ := h
  rw [Option.some.inj (hparse.symm.trans hother)]

/-- Settled jobs stay so when queue, dead letters and completions only grow. -/
theorem Settled.mono {before after : System Raw Params} {job : Job Params} (h : Settled codec before job)
    (hqueue : ∀ raw ∈ before.lists.queue, raw ∈ after.lists.queue) (hdead : ∀ raw ∈ before.lists.dead, raw ∈ after.lists.dead)
    (hcompleted : ∀ job ∈ before.completed, job ∈ after.completed) : Settled codec after job := by
  rcases h with ⟨raw, hqueued | hbroken, hholds⟩ | hdone
  · exact Or.inl ⟨raw, Or.inl (hqueue raw hqueued), hholds⟩
  · exact Or.inl ⟨raw, Or.inr (hdead raw hbroken), hholds⟩
  · exact Or.inr (hcompleted job hdone)

/-- Kept jobs stay so when no value leaves the lists. -/
theorem Kept.mono {before after : System Raw Params} {job : Job Params} (h : Kept codec before job)
    (hlists : ∀ raw, raw ∈ before.lists.processing ∨ raw ∈ before.lists.queue →
      raw ∈ after.lists.processing ∨ raw ∈ after.lists.queue)
    (hdead : ∀ raw ∈ before.lists.dead, raw ∈ after.lists.dead)
    (hcompleted : ∀ job ∈ before.completed, job ∈ after.completed) : Kept codec after job := by
  have hmoved : ∀ raw, raw ∈ before.lists.processing ∨ raw ∈ before.lists.queue → Holds codec raw job →
    Kept codec after job := by
    intro raw hraw hholds
    rcases hlists raw hraw with hprocessing | hqueue
    · exact Or.inl ⟨raw, hprocessing, hholds⟩
    · exact Or.inr (Or.inl ⟨raw, Or.inl hqueue, hholds⟩)
  rcases h with ⟨raw, hprocessing, hholds⟩ | ⟨raw, hqueued | hbroken, hholds⟩ | hdone
  · exact hmoved raw (Or.inl hprocessing) hholds
  · exact hmoved raw (Or.inr hqueued) hholds
  · exact Or.inr (Or.inl ⟨raw, Or.inr (hdead raw hbroken), hholds⟩)
  · exact Or.inr (Or.inr (hcompleted job hdone))

/-- A command changes the lists alone. -/
theorem kept_of_lists {system : System Raw Params} {lists : BatchRememberWorker.Lists Raw} {worker : Worker Raw Params}
    {job : Job Params} (h : Kept codec system job)
    (hlists : ∀ raw, raw ∈ system.lists.processing ∨ raw ∈ system.lists.queue → raw ∈ lists.processing ∨
      raw ∈ lists.queue)
    (hdead : ∀ raw ∈ system.lists.dead, raw ∈ lists.dead) :
      Kept codec { system with lists := lists, worker := worker } job :=
  h.mono hlists hdead fun _ hjob => hjob

theorem mem_pushToQueue (lists : BatchRememberWorker.Lists Raw) (envelope : Envelope Params) (now : Time)
    (delivery : Delivery)
    {raw : Raw} (h : raw ∈ lists.queue) : raw ∈ (pushToQueue codec lists envelope now delivery).queue := by
  simp only [pushToQueue]
  split
  · exact mem_lpush.mpr (Or.inr h)
  · exact h

theorem pushToQueue_others (lists : BatchRememberWorker.Lists Raw) (envelope : Envelope Params) (now : Time)
    (delivery : Delivery) :
    (pushToQueue codec lists envelope now delivery).processing = lists.processing ∧
      (pushToQueue codec lists envelope now delivery).dead = lists.dead := by
  simp only [pushToQueue]
  split <;> exact ⟨rfl, rfl⟩

theorem mem_pushToQueueDead (lists : BatchRememberWorker.Lists Raw) (envelope : Envelope Params) (now : Time)
    (delivery : Delivery)
    {raw : Raw} (h : raw ∈ lists.dead) : raw ∈ (pushToQueueDead codec lists envelope now delivery).dead := by
  simp only [pushToQueueDead]
  split
  · exact mem_lpush.mpr (Or.inr h)
  · exact h

theorem pushToQueueDead_others (lists : BatchRememberWorker.Lists Raw) (envelope : Envelope Params) (now : Time)
    (delivery : Delivery) :
    (pushToQueueDead codec lists envelope now delivery).processing = lists.processing ∧
      (pushToQueueDead codec lists envelope now delivery).queue = lists.queue := by
  simp only [pushToQueueDead]
  split <;> exact ⟨rfl, rfl⟩

/-- The push of a failed job settles it when the push is answered. -/
theorem dispose_spec {lists : BatchRememberWorker.Lists Raw} {raw : Raw} {envelope : Envelope Params} {error : String}
    {now : Time}
    {delivery : Delivery} :
    (dispose codec retryLimit lists raw envelope error now delivery).1.processing = lists.processing ∧
    (∀ other ∈ lists.queue, other ∈ (dispose codec retryLimit lists raw envelope error now delivery).1.queue) ∧
    (∀ other ∈ lists.dead, other ∈ (dispose codec retryLimit lists raw envelope error now delivery).1.dead) ∧
    (delivery = .answered →
      ∃ pushed, (pushed ∈ (dispose codec retryLimit lists raw envelope error now delivery).1.queue ∨
      pushed ∈ (dispose codec retryLimit lists raw envelope error now delivery).1.dead) ∧
        Holds codec pushed envelope.job) := by
  simp only [dispose]
  split
  · obtain ⟨hprocessing, hdead⟩ := @pushToQueue_others _ _ codec lists
      { job := envelope.job, retryCount := envelope.retryCount + 1 } now delivery
    refine ⟨hprocessing, fun other hother => mem_pushToQueue lists _ now delivery hother, fun other hother => hdead ▸ hother, ?_⟩
    rintro rfl
    exact ⟨_, Or.inl (mem_lpush.mpr (Or.inl rfl)), holds_stringify _⟩
  · obtain ⟨hprocessing, hqueue⟩ := @pushToQueueDead_others _ _ codec lists
      { job := envelope.job, retryCount := envelope.retryCount, lastError := some error } now delivery
    refine ⟨hprocessing, fun other hother => hqueue ▸ hother, fun other hother => mem_pushToQueueDead lists _ now delivery hother, ?_⟩
    rintro rfl
    exact ⟨_, Or.inr (mem_lpush.mpr (Or.inl rfl)), holds_stringify _⟩

/-- A worker that neither processes nor is about to acknowledge needs the accepted jobs to be kept. -/
theorem retains_of_idle {system : System Raw Params} (haccepted : ∀ job ∈ system.accepted, Kept codec system job)
    (hidle : system.worker = .down ∨ system.worker = .recovering ∨ system.worker = .polling) :
    Retains codec system := by
  constructor
  · exact haccepted
  · intro raw envelope hworker
    rw [hworker] at hidle
    rcases hidle with hidle | hidle | hidle <;> cases hidle
  · intro raw envelope error hworker
    rw [hworker] at hidle
    rcases hidle with hidle | hidle | hidle <;> cases hidle
  · intro raw hworker
    rw [hworker] at hidle
    rcases hidle with hidle | hidle | hidle <;> cases hidle

variable [DecidableEq Raw]

/-- An enqueue adds a value and, when it is answered, the job that it holds. -/
theorem retains_enqueue {system : System Raw Params} (h : Retains codec system) (job : Job Params) (now : Time)
    (delivery : Delivery) : Retains codec (step codec retryLimit system (.enqueue job now delivery)) := by
  have hothers := @pushToQueue_others _ _ codec system.lists { job := job } now delivery
  have hqueue : ∀ raw ∈ system.lists.queue, raw ∈ (pushToQueue codec system.lists { job := job } now delivery).queue :=
    fun raw hraw => mem_pushToQueue system.lists _ now delivery hraw
  have hkept : ∀ other, Kept codec system other →
    Kept codec (step codec retryLimit system (.enqueue job now delivery)) other := by
    intro other hother
    refine hother.mono (fun raw hraw => ?_) (fun raw hraw => hothers.2 ▸ hraw) fun _ hdone => hdone
    rcases hraw with hprocessing | hwaiting
    · exact Or.inl (hothers.1 ▸ hprocessing)
    · exact Or.inr (hqueue raw hwaiting)
  constructor
  · intro other hother
    by_cases hanswered : delivery = .answered
    · rw [step, if_pos hanswered] at hother
      rcases List.mem_cons.mp hother with rfl | hold
      · rw [hanswered]
        exact Or.inr (Or.inl ⟨_, Or.inl (mem_lpush.mpr (Or.inl rfl)), holds_stringify _⟩)
      · exact hkept other (h.accepted other hold)
    · rw [step, if_neg hanswered] at hother
      exact hkept other (h.accepted other hother)
  · exact h.working
  · exact h.disposing
  · intro raw hacking other hholds
    exact (h.acking raw hacking other hholds).mono hqueue (fun raw hraw => hothers.2 ▸ hraw) fun _ hdone => hdone

/-- A turn of the recovery moves values from processing to the queue. -/
theorem retains_recovering {system : System Raw Params} (h : Retains codec system)
    (hworker : system.worker = .recovering)
    (now : Time) (delivery : Delivery) : Retains codec (step codec retryLimit system (.command now delivery)) := by
  rw [step, hworker]
  refine retains_of_idle (fun job hjob => kept_of_lists (h.accepted job hjob) (fun raw hraw => ?_) fun raw hraw => ?_) ?_
  · simp only [command, requeueTurn]
    split
    · exact (mem_rpoplpush system.lists.processing system.lists.queue raw).mpr hraw
    · exact hraw
  · simp only [command, requeueTurn]
    split <;> exact hraw
  · right
    simp only [command, requeueTurn]
    split
    · exact Or.inl rfl
    · exact Or.inr rfl

/-- A pop moves a value from the queue to processing, and hands the job over when the value parses. -/
theorem retains_polling {system : System Raw Params} (h : Retains codec system) (hworker : system.worker = .polling)
    (now : Time) (delivery : Delivery) : Retains codec (step codec retryLimit system (.command now delivery)) := by
  rw [step, hworker]
  have haccepted : ∀ worker, ∀ job ∈ system.accepted, Kept codec
      { system with lists := (popTurn codec system.lists delivery).1, worker := worker } job := by
    intro worker job hjob
    refine kept_of_lists (h.accepted job hjob) (fun raw hraw => ?_) fun raw hraw => ?_
    · simp only [popTurn]
      split
      · exact ((mem_rpoplpush system.lists.queue system.lists.processing raw).mpr hraw.symm).symm
      · exact hraw
    · simp only [popTurn]
      split <;> exact hraw
  simp only [command]
  rcases hpopped :
    (popTurn codec system.lists delivery).2 with _ | _ | _ | ⟨raw, envelope⟩ | ⟨raw, envelope, error⟩ | raw
  · exact retains_of_idle (haccepted _) (Or.inl rfl)
  · exact retains_of_idle (haccepted _) (Or.inr (Or.inl rfl))
  · exact retains_of_idle (haccepted _) (Or.inr (Or.inr rfl))
  · refine ⟨haccepted _, fun other found hsame => ?_, fun _ _ _ hother => (by cases hother), fun _ hother => (by cases hother)⟩
    obtain ⟨rfl, rfl⟩ := Worker.working.inj hsame
    simp only [popTurn] at hpopped
    split at hpopped
    · split at hpopped
      · rename_i hparse
        obtain ⟨rfl, rfl⟩ := Worker.working.inj hpopped
        exact hparse
      · cases hpopped
    · cases hpopped
  all_goals
    simp only [popTurn] at hpopped
    split at hpopped
    · split at hpopped <;> cases hpopped
    · cases hpopped

/-- The push of a failed job, after which the job is settled or not acknowledged. -/
theorem retains_disposing {system : System Raw Params} {raw : Raw} {envelope : Envelope Params} {error : String}
    (h : Retains codec system) (hworker : system.worker = .disposing raw envelope error) (now : Time) (delivery : Delivery) :
    Retains codec (step codec retryLimit system (.command now delivery)) := by
  rw [step, hworker]
  obtain ⟨hprocessing, hqueue, hdead, hpushed⟩ :=
    @dispose_spec _ _ codec retryLimit system.lists raw envelope error now delivery
  have haccepted : ∀ worker, ∀ job ∈ system.accepted, Kept codec
      { system with
        lists := (dispose codec retryLimit system.lists raw envelope error now delivery).1
        worker := worker } job := by
    intro worker job hjob
    refine kept_of_lists (h.accepted job hjob) (fun other hother => ?_) hdead
    rcases hother with hin | hwaiting
    · exact Or.inl (hprocessing.symm ▸ hin)
    · exact Or.inr (hqueue other hwaiting)
  simp only [command]
  by_cases hanswered : delivery = .answered
  · have hacking : (dispose codec retryLimit system.lists raw envelope error now delivery).2 = .acking raw := by
      simp only [dispose, if_pos hanswered]
    rw [hacking]
    refine ⟨haccepted _,
      fun _ _ hother => (by cases hother), fun _ _ _ hother => (by cases hother), fun other hsame job hholds => ?_⟩
    obtain rfl := Worker.acking.inj hsame
    rw [job_eq_of_holds (h.disposing _ _ _ hworker) hholds]
    obtain ⟨pushed, hplace, hjob⟩ := hpushed hanswered
    exact Or.inl ⟨pushed, hplace, hjob⟩
  · have hpolling : (dispose codec retryLimit system.lists raw envelope error now delivery).2 = .polling := by
      simp only [dispose, if_neg hanswered]
    rw [hpolling]
    exact retains_of_idle (haccepted _) (Or.inr (Or.inr rfl))

/-- The acknowledgement takes one value out of processing, whose job is settled. -/
theorem retains_acking {system : System Raw Params} {raw : Raw} (h : Retains codec system)
    (hworker : system.worker = .acking raw)
    (now : Time) (delivery : Delivery) : Retains codec (step codec retryLimit system (.command now delivery)) := by
  rw [step, hworker]
  refine retains_of_idle (fun job hjob => ?_) (Or.inr (Or.inr rfl))
  simp only [command, ackTurn]
  split
  · by_cases hholds : Holds codec raw job
    · exact Or.inr (h.acking raw hworker job hholds)
    · rcases h.accepted job hjob with ⟨other, hother, hheld⟩ | hsettled
      · have hne : other ≠ raw := by
          rintro rfl
          exact hholds hheld
        exact Or.inl ⟨other, (mem_lrem_of_ne hne).mpr hother, hheld⟩
      · exact Or.inr hsettled
  · exact h.accepted job hjob

theorem retains_step (system : System Raw Params) (event : Event Params) (h : Retains codec system) :
    Retains codec (step codec retryLimit system event) := by
  cases event with
  | enqueue job now delivery => exact retains_enqueue h job now delivery
  | command now delivery =>
    cases hworker : system.worker with
    | recovering => exact retains_recovering h hworker now delivery
    | polling => exact retains_polling h hworker now delivery
    | disposing raw envelope error => exact retains_disposing h hworker now delivery
    | acking raw => exact retains_acking h hworker now delivery
    | down | working raw envelope =>
      have hsame : step codec retryLimit system (.command now delivery) = system := by
        simp only [step, hworker, command]
        rw [← hworker]
      rw [hsame]
      exact h
  | processed error =>
    cases hworker : system.worker with
    | working raw envelope =>
      have hparse := h.working raw envelope hworker
      cases error with
      | none =>
        simp only [step, hworker]
        have hcompleted : ∀ job ∈ system.completed, job ∈ envelope.job :: system.completed :=
          fun job hjob => List.mem_cons_of_mem _ hjob
        refine ⟨fun job hjob => (h.accepted job hjob).mono (fun _ hraw => hraw) (fun _ hraw => hraw) hcompleted,
          fun _ _ hother => (by cases hother), fun _ _ _ hother => (by cases hother), fun other hsame job hholds => ?_⟩
        obtain rfl := Worker.acking.inj hsame
        rw [job_eq_of_holds hparse hholds]
        exact Or.inr List.mem_cons_self
      | some reason =>
        simp only [step, hworker]
        refine ⟨h.accepted, fun _ _ hother => (by cases hother), fun other found failure hsame => ?_,
          fun _ hother => (by cases hother)⟩
        obtain ⟨rfl, rfl, -⟩ := Worker.disposing.inj hsame
        exact hparse
    | down | recovering | polling | disposing raw envelope reason | acking raw =>
      simp only [step, hworker]
      exact h
  | crash => exact retains_of_idle h.accepted (Or.inl rfl)
  | restart =>
    cases hworker : system.worker with
    | down =>
      simp only [step, hworker]
      exact retains_of_idle h.accepted (Or.inr (Or.inl rfl))
    | recovering | polling | working raw envelope | disposing raw envelope error | acking raw =>
      simp only [step, hworker]
      exact h

/-- The turn that ends the recovery has found nothing in processing. -/
theorem recoversAll_of_retains {system : System Raw Params} (h : Retains codec system) (event : Event Params) :
    RecoversAll codec retryLimit system event := by
  rintro now rfl hworker hpolling job hjob
  have hempty : (rpoplpush system.lists.processing system.lists.queue).2.1 = [] := by
    have hmoved := hpolling
    simp only [step, hworker, command, requeueTurn, true_and] at hmoved
    split at hmoved
    · cases hmoved
    · rename_i hnothing
      rw [Bool.not_eq_true, Option.isSome_eq_false_iff, Option.isNone_iff_eq_none, rpoplpush_eq_none_iff] at hnothing
      rw [hnothing]
      rfl
  have hprocessing : (step codec retryLimit system (.command now .answered)).lists.processing = [] := by
    rw [step, hworker]
    exact hempty
  rcases (retains_step system (.command now .answered) h).accepted job hjob with ⟨raw, hraw, -⟩ | hsettled
  · rw [hprocessing] at hraw
    cases hraw
  · exact hsettled

/-- In every run, from any lists and a stopped worker, every job whose enqueue has succeeded is in one of the three
lists or its `process` call has completed, and a completed recovery leaves none in processing alone. -/
theorem jobs_kept (codec : JsonCodec Raw Params) (retryLimit : ℕ) (lists : BatchRememberWorker.Lists Raw) (events : List (Event Params)) :
    (∀ job ∈ (run (step codec retryLimit) { lists := lists } events).accepted,
      Kept codec (run (step codec retryLimit) { lists := lists } events) job) ∧
    StepsMeet (step codec retryLimit) (RecoversAll codec retryLimit) { lists := lists } events := by
  have hstart : Retains codec { lists := lists } := retains_of_idle (fun _ hjob => (by cases hjob)) (Or.inl rfl)
  have hany : StepsMeet (step codec retryLimit) (fun _ _ => True) { lists := lists } events :=
    stepsMeet_of_forall (fun _ _ => trivial) _ _
  refine ⟨(invariant_run (I := Retains codec) retains_step hstart events).accepted, ?_⟩
  exact stepsMeet_of_invariant (I := Retains codec)
    (fun system event h _ => ⟨retains_step system event h, recoversAll_of_retains h event⟩) hstart hany

/-- A job whose worker crashes before the acknowledgement is recovered and processed again. -/
example (job : Job Params) :
    let codec : JsonCodec (Envelope Params) Params := ⟨id, some, fun _ => rfl⟩
    have : DecidableEq (Envelope Params) := Classical.decEq _
    (run (step codec 3) {} [.restart, .command 0 .answered, .enqueue job 1 .answered, .command 2 .answered, .crash, .restart,
      .command 3 .answered, .command 4 .answered, .command 5 .answered, .processed none]).completed = [job] := rfl

end FragmentMemory.JobRetention

import Sinnlos.Cms.CronTasks

/-! # The runs of a guarded task

No two runs overlap, a run ends after its tracked work, and its outcome says
whether its body threw or something was reported in it before its end. The status
row keeps the last failure as long as no success is written over one whose own
write failed.
-/

namespace Sinnlos.Cms.Cron

open Runs (Run)

variable {everyMinutes : Nat} {s s' : CronState} {label : CronLabel}

/-! ## One run -/

/-- The outcome and the instant of a run that has ended. -/
def CronRun.ended (run : CronRun) : Option (CronOutcome × Int) :=
  match run.phase with
  | .body | .waiting => none
  | .recording outcome finishedAt | .done outcome finishedAt _ => some (outcome, finishedAt)

def CronRun.active (run : CronRun) : Bool :=
  match run.phase with
  | .done _ _ _ => false
  | _ => true

/-- The body threw or something was reported. -/
def CronRun.bad (run : CronRun) : Bool := run.threw || run.failed

/-- The events that make a run fail. -/
def RunEvent.fails : RunEvent → Bool
  | .report => true
  | .settle _ rejected => rejected
  | .bodyEnds threw => threw
  | _ => false

variable {run' : CronRun} {event : RunEvent} {runs : List CronRun} {i j : Nat}
  {labels : List CronLabel} {store : CronStore} {startedAt finishedAt t t' : Int}
  {readFails written written' : Bool} {outcome : CronOutcome}

/-- An event that happened could happen, and this is what it did. -/
theorem of_enabled {p : Prop} [Decidable p] {run : CronRun}
    (h : (if p then some run else none) = some run') : p ∧ run = run' := by
  obtain ⟨henabled, heq⟩ := Option.ite_none_right_eq_some.mp h
  exact ⟨henabled, Option.some.inj heq⟩

/-- What a run has tracked has settled or is waited for. -/
structure CronRun.Waits (run : CronRun) : Prop where
  covered : ∀ work ∈ run.tracked, work ∈ run.settled ∨ work ∈ run.pending ∨ work ∈ run.awaited
  ended : run.ended.isSome = true → ∀ work ∈ run.tracked, work ∈ run.settled
  body : run.phase = .body → run.threw = false

theorem runCronTask_waits (now : Int) : (runCronTask now).Waits where
  covered work h := by cases h
  ended h := by cases h
  body _ := rfl

theorem CronRun.ended_of_body {run : CronRun} (h : run.phase = .body) : run.ended = none := by
  rw [CronRun.ended, h]

theorem CronRun.ended_of_waiting {run : CronRun} (h : run.phase = .waiting) : run.ended = none := by
  rw [CronRun.ended, h]

theorem CronRun.Waits.next {run : CronRun} (h : run.Waits) (step : run.next event = some run') :
    run'.Waits := by
  cases event with
  | report =>
      cases step
      exact ⟨h.covered, h.ended, h.body⟩
  | track work =>
      simp only [CronRun.next, Option.ite_none_right_eq_some, Option.some.injEq,
        Bool.and_eq_true] at step
      obtain ⟨⟨hbusy, -⟩, rfl⟩ := step
      refine ⟨?_, ?_, h.body⟩
      · intro other hother
        rcases List.mem_append.mp hother with hold | hnew
        · rcases h.covered other hold with hs | hp | ha
          · exact Or.inl hs
          · exact Or.inr (Or.inl (List.mem_append_left _ hp))
          · exact Or.inr (Or.inr ha)
        · exact Or.inr (Or.inl (List.mem_append_right _ hnew))
      · intro hended
        -- nothing that the run waits for is left to track more
        have hsome : run.ended.isSome = true := hended
        have hall := h.ended hsome
        simp only [CronRun.busy, Bool.or_eq_true, decide_eq_true_eq, List.any_eq_true] at hbusy
        rcases hbusy with hbody | ⟨other, hother, hunsettled⟩
        · rw [CronRun.ended_of_body hbody] at hsome
          cases hsome
        · have hsettled := hall other hother
          simp [hsettled] at hunsettled
  | settle work rejected =>
      obtain ⟨-, rfl⟩ := of_enabled step
      refine ⟨?_, ?_, h.body⟩
      · intro other hother
        rcases h.covered other hother with hs | hrest
        · exact Or.inl (List.mem_append_left _ hs)
        · exact Or.inr hrest
      · intro hended other hother
        exact List.mem_append_left _ (h.ended hended other hother)
  | bodyEnds threw =>
      obtain ⟨-, rfl⟩ := of_enabled step
      exact ⟨h.covered, fun hended => (by cases hended), fun hbody => by cases hbody⟩
  | turn =>
      obtain ⟨⟨hwaiting, hall, -⟩, rfl⟩ := of_enabled step
      refine ⟨?_, ?_, h.body⟩
      · intro other hother
        rcases h.covered other hother with hs | hp | ha
        · exact Or.inl hs
        · exact Or.inr (Or.inr hp)
        · exact Or.inl (List.contains_iff_mem.mp (List.all_eq_true.mp hall other ha))
      · intro hended
        have hsome : run.ended.isSome = true := hended
        rw [CronRun.ended_of_waiting hwaiting] at hsome
        cases hsome
  | finish now =>
      obtain ⟨⟨hwaiting, hall, hnone⟩, rfl⟩ := of_enabled step
      have hsettled : ∀ work ∈ run.tracked, work ∈ run.settled := by
        intro work hwork
        rcases h.covered work hwork with hs | hp | ha
        · exact hs
        · rw [hnone] at hp
          cases hp
        · exact List.contains_iff_mem.mp (List.all_eq_true.mp hall work ha)
      exact ⟨fun work hwork => Or.inl (hsettled work hwork), fun _ => hsettled,
        fun hbody => by cases hbody⟩

/-- A run goes bad by the events that make it fail, and stays so. -/
theorem CronRun.bad_next {run : CronRun} (h : run.Waits) (step : run.next event = some run') :
    run'.bad = (run.bad || event.fails) := by
  cases event with
  | report =>
      cases step
      simp [CronRun.bad, RunEvent.fails]
  | track work =>
      obtain ⟨-, rfl⟩ := of_enabled step
      simp [CronRun.bad, RunEvent.fails]
  | settle work rejected =>
      obtain ⟨-, rfl⟩ := of_enabled step
      simp [CronRun.bad, RunEvent.fails, Bool.or_assoc]
  | bodyEnds threw =>
      obtain ⟨hbody, rfl⟩ := of_enabled step
      simp [CronRun.bad, RunEvent.fails, h.body hbody, Bool.or_comm]
  | turn | finish now =>
      obtain ⟨-, rfl⟩ := of_enabled step
      simp [CronRun.bad, RunEvent.fails]

/-- The phase moves on in three events only, each from a phase of its own. -/
theorem CronRun.phase_next {run : CronRun} (step : run.next event = some run') :
    run'.phase = run.phase ∨ run.phase = .body ∧ run'.phase = .waiting ∨
      ∃ now, event = .finish now ∧ run.phase = .waiting ∧
        run'.phase = .recording (if run.bad then .failed else .ok) now := by
  cases event with
  | report =>
      cases step
      exact Or.inl rfl
  | track work | settle work rejected =>
      obtain ⟨-, rfl⟩ := of_enabled step
      exact Or.inl rfl
  | bodyEnds threw =>
      obtain ⟨hbody, rfl⟩ := of_enabled step
      exact Or.inr (Or.inl ⟨hbody, rfl⟩)
  | turn =>
      obtain ⟨-, rfl⟩ := of_enabled step
      exact Or.inl rfl
  | finish now =>
      obtain ⟨⟨hwaiting, -, -⟩, rfl⟩ := of_enabled step
      exact Or.inr (Or.inr ⟨now, rfl, hwaiting, rfl⟩)

theorem CronRun.active_next {run : CronRun} (step : run.next event = some run') :
    run'.active = run.active := by
  unfold CronRun.active
  rcases CronRun.phase_next step with h | ⟨h, h'⟩ | ⟨now, -, h, h'⟩
  · rw [h]
  · rw [h, h']
  · rw [h, h']

/-- An outcome does not change any more. -/
theorem CronRun.ended_next {run : CronRun} (step : run.next event = some run')
    {outcome : CronOutcome × Int} (h : run.ended = some outcome) : run'.ended = some outcome := by
  rcases CronRun.phase_next step with hphase | ⟨hphase, -⟩ | ⟨now, -, hphase, -⟩
  · rw [← h, CronRun.ended, CronRun.ended, hphase]
  · rw [CronRun.ended_of_body hphase] at h
    cases h
  · rw [CronRun.ended_of_waiting hphase] at h
    cases h

/-! ## One step of the task -/

/-- What a step can do. -/
inductive Moves (everyMinutes : Nat) (s : CronState) : CronLabel → CronState → Prop
  | skipped (now : Int) : s.inFlight = true → Moves everyMinutes s (.invoke now) s
  | started (now : Int) : s.inFlight = false →
      Moves everyMinutes s (.invoke now)
        { s with inFlight := true, runs := s.runs ++ [runCronTask now] }
  | event (i : Nat) (event : RunEvent) (run run' : CronRun) : s.runs[i]? = some run →
      run.next event = some run' →
      Moves everyMinutes s (.event i event) { s with runs := s.runs.set i run' }
  | recorded (i : Nat) (readFails writeFails : Bool) (run : CronRun) (outcome : CronOutcome)
      (finishedAt : Int) : s.runs[i]? = some run → run.phase = .recording outcome finishedAt →
      Moves everyMinutes s (.record i readFails writeFails)
        { inFlight := false
          runs := s.runs.set i
            { run with
              phase := .done outcome finishedAt
                (recordCronRun everyMinutes s.store outcome run.started finishedAt readFails
                  writeFails).2 }
          store := (recordCronRun everyMinutes s.store outcome run.started finishedAt readFails
            writeFails).1 }

theorem step_cases (h : CronStep everyMinutes s label s') : Moves everyMinutes s label s' := by
  cases label with
  | invoke now =>
      simp only [CronStep, guardedTask] at h
      split at h
      · next hflight =>
          cases h
          exact .skipped now hflight
      · next hfree =>
          cases h
          exact .started now (Bool.eq_false_iff.mpr hfree)
  | event i event =>
      obtain ⟨run, hrun, hrest⟩ := Option.bind_eq_some_iff.mp h
      obtain ⟨run', hnext, rfl⟩ := Option.map_eq_some_iff.mp hrest
      exact .event i event run run' hrun hnext
  | record i readFails writeFails =>
      obtain ⟨run, hrun, hrest⟩ := Option.bind_eq_some_iff.mp h
      split at hrest
      · next outcome finishedAt hphase =>
          cases hrest
          exact .recorded i readFails writeFails run outcome finishedAt hrun hphase
      · cases hrest

variable {found : CronRun} {now : Int} {writeFails : Bool}

/-- A run of the list after one of them was replaced. -/
theorem getElem?_set_cases (h : (runs.set i run')[j]? = some found) :
    j = i ∧ found = run' ∨ j ≠ i ∧ runs[j]? = some found := by
  by_cases hj : j = i
  · subst hj
    rw [List.getElem?_set_self'] at h
    obtain ⟨-, -, rfl⟩ := Option.map_eq_some_iff.mp h
    exact Or.inl ⟨rfl, rfl⟩
  · rw [List.getElem?_set_ne (Ne.symm hj)] at h
    exact Or.inr ⟨hj, h⟩

/-- A run of the list after another was appended. -/
theorem getElem?_append_cases (h : (runs ++ [run'])[j]? = some found) :
    runs[j]? = some found ∨ j = runs.length ∧ found = run' := by
  by_cases hj : j < runs.length
  · rw [List.getElem?_append_left hj] at h
    exact Or.inl h
  · have hlt := (List.getElem?_eq_some_iff.mp h).1
    rw [List.length_append, List.length_singleton] at hlt
    have heq : j = runs.length := by omega
    subst heq
    rw [List.getElem?_concat_length] at h
    exact Or.inr ⟨rfl, (Option.some.inj h).symm⟩

/-- The run that has not been recorded is the last one, and the guard is held. -/
structure Guarded (s : CronState) : Prop where
  last : ∀ (i : Nat) (run : CronRun), s.runs[i]? = some run → run.active = true →
    s.inFlight = true ∧ i + 1 = s.runs.length
  waits : ∀ (i : Nat) (run : CronRun), s.runs[i]? = some run → run.Waits

theorem Guarded.start (h : s.Started) : Guarded s where
  last i run hrun := by
    rw [h.2.1] at hrun
    cases hrun
  waits i run hrun := by
    rw [h.2.1] at hrun
    cases hrun

theorem Guarded.step (h : Guarded s) (step : CronStep everyMinutes s label s') : Guarded s' := by
  cases step_cases step with
  | skipped now hflight => exact h
  | started now hfree =>
      have hidle : ∀ (i : Nat) (run : CronRun), s.runs[i]? = some run → run.active = false := by
        intro i run hrun
        by_contra hactive
        have hheld := (h.last i run hrun (Bool.not_eq_false _ ▸ hactive)).1
        rw [hfree] at hheld
        cases hheld
      refine ⟨?_, ?_⟩
      · intro i run hrun hactive
        rcases getElem?_append_cases hrun with hold | ⟨rfl, -⟩
        · rw [hidle i run hold] at hactive
          cases hactive
        · exact ⟨rfl, by simp⟩
      · intro i run hrun
        rcases getElem?_append_cases hrun with hold | ⟨-, rfl⟩
        · exact h.waits i run hold
        · exact runCronTask_waits now
  | event i event run run' hrun hnext =>
      refine ⟨?_, ?_⟩
      · intro j found hfound hactive
        rw [List.length_set]
        rcases getElem?_set_cases hfound with ⟨rfl, rfl⟩ | ⟨-, hold⟩
        · rw [CronRun.active_next hnext] at hactive
          exact h.last j run hrun hactive
        · exact h.last j found hold hactive
      · intro j found hfound
        rcases getElem?_set_cases hfound with ⟨rfl, rfl⟩ | ⟨-, hold⟩
        · exact (h.waits j run hrun).next hnext
        · exact h.waits j found hold
  | recorded i readFails writeFails run outcome finishedAt hrun hphase =>
      have hlast := (h.last i run hrun (by rw [CronRun.active, hphase])).2
      have hwaits := h.waits i run hrun
      refine ⟨?_, ?_⟩
      · intro j found hfound hactive
        rcases getElem?_set_cases hfound with ⟨rfl, rfl⟩ | ⟨hne, hold⟩
        · cases hactive
        · have hother := (h.last j found hold hactive).2
          omega
      · intro j found hfound
        rcases getElem?_set_cases hfound with ⟨rfl, rfl⟩ | ⟨-, hold⟩
        · refine ⟨hwaits.covered, fun _ => hwaits.ended ?_, fun hbody => by cases hbody⟩
          rw [CronRun.ended, hphase]
          rfl
        · exact h.waits j found hold

theorem Guarded.run {start : CronState} (h : start.Started)
    (run : Run (CronStep everyMinutes) start labels s) : Guarded s :=
  run.invariant (fun _ _ _ step guarded => guarded.step step) (Guarded.start h)

/-! ## What a run is blamed for -/

/-- The label makes the run `i` fail. -/
def CronLabel.failsRun (i : Nat) : CronLabel → Bool
  | .event j happening => j = i && happening.fails
  | _ => false

/-- A run is bad exactly when something in its own history made it fail. -/
structure Blamed (labels : List CronLabel) (s : CronState) : Prop where
  bad : ∀ (i : Nat) (run : CronRun), s.runs[i]? = some run →
    (run.bad = true ↔ ∃ label ∈ labels, label.failsRun i = true)
  started : ∀ i, (∃ label ∈ labels, CronLabel.failsRun i label = true) → i < s.runs.length

theorem exists_snoc :
    (∃ l ∈ labels ++ [label], l.failsRun i = true) ↔
      (∃ l ∈ labels, l.failsRun i = true) ∨ label.failsRun i = true := by
  simp only [List.mem_append, List.mem_singleton, or_and_right, exists_or, exists_eq_left]

/-- A step that is no event of a run blames none. -/
theorem Blamed.other (h : Blamed labels s) (label : CronLabel)
    (hlabel : ∀ i, label.failsRun i = false) : Blamed (labels ++ [label]) s where
  bad i run hrun := by
    rw [h.bad i run hrun, exists_snoc, hlabel]
    simp
  started i hi := by
    rw [exists_snoc, hlabel] at hi
    exact h.started i (hi.resolve_right Bool.false_ne_true)

theorem Blamed.step (h : Blamed labels s) (guarded : Guarded s)
    (step : CronStep everyMinutes s label s') : Blamed (labels ++ [label]) s' := by
  cases step_cases step with
  | skipped now hflight => exact h.other _ fun i => rfl
  | started now hfree =>
      have hold := h.other (.invoke now) fun i => rfl
      refine ⟨?_, ?_⟩
      · intro i run hrun
        rcases getElem?_append_cases hrun with hsome | ⟨rfl, rfl⟩
        · exact hold.bad i run hsome
        · constructor
          · intro hbad
            cases hbad
          · intro hsome
            exact absurd (hold.started _ hsome) (Nat.lt_irrefl _)
      · intro i hi
        rw [List.length_append]
        exact Nat.lt_add_right _ (hold.started i hi)
  | event i event run run' hrun hnext =>
      have hlt := (List.getElem?_eq_some_iff.mp hrun).1
      refine ⟨?_, ?_⟩
      · intro j found hfound
        rw [exists_snoc]
        rcases getElem?_set_cases hfound with ⟨rfl, rfl⟩ | ⟨hne, hold⟩
        · rw [CronRun.bad_next (guarded.waits j run hrun) hnext, Bool.or_eq_true, h.bad j run hrun]
          simp [CronLabel.failsRun]
        · rw [h.bad j found hold]
          simp [CronLabel.failsRun, Ne.symm hne]
      · intro j hj
        rw [List.length_set]
        rw [exists_snoc] at hj
        rcases hj with hj | hj
        · exact h.started j hj
        · simp only [CronLabel.failsRun, Bool.and_eq_true, decide_eq_true_eq] at hj
          exact hj.1 ▸ hlt
  | recorded i readFails writeFails run outcome finishedAt hrun hphase =>
      have hsame := h.other (.record i readFails writeFails) fun i => rfl
      refine ⟨?_, ?_⟩
      · intro j found hfound
        rcases getElem?_set_cases hfound with ⟨rfl, rfl⟩ | ⟨-, hold⟩
        · exact hsame.bad j run hrun
        · exact hsame.bad j found hold
      · intro j hj
        rw [List.length_set]
        exact hsame.started j hj

theorem Blamed.run {start : CronState} (h : start.Started)
    (run : Run (CronStep everyMinutes) start labels s) : Blamed labels s := by
  refine Run.snocInduction (motive := Blamed) ?_ ?_ run
  · refine ⟨?_, ?_⟩
    · intro i run hrun
      rw [h.2.1] at hrun
      cases hrun
    · rintro i ⟨label, hlabel, -⟩
      cases hlabel
  · intro labels t label r before ih step
    exact ih.step (Guarded.run h before) step

/-- The outcome of a run is there to stay. -/
theorem ended_step (step : CronStep everyMinutes s label s') {outcome : CronOutcome × Int}
    (h : ∃ run, s.runs[i]? = some run ∧ run.ended = some outcome) :
    ∃ run, s'.runs[i]? = some run ∧ run.ended = some outcome := by
  obtain ⟨found, hfound, hended⟩ := h
  have hlt := (List.getElem?_eq_some_iff.mp hfound).1
  cases step_cases step with
  | skipped now hflight => exact ⟨found, hfound, hended⟩
  | started now hfree => exact ⟨found, (List.getElem?_append_left hlt).trans hfound, hended⟩
  | event j event run run' hrun hnext =>
      by_cases hj : i = j
      · subst hj
        have hsame : run = found := Option.some.inj (hrun.symm.trans hfound)
        subst hsame
        exact ⟨run', List.getElem?_set_self hlt, CronRun.ended_next hnext hended⟩
      · exact ⟨found, (List.getElem?_set_ne (Ne.symm hj)).trans hfound, hended⟩
  | recorded j readFails writeFails run outcome' finishedAt hrun hphase =>
      by_cases hj : i = j
      · subst hj
        have hsame : run = found := Option.some.inj (hrun.symm.trans hfound)
        subst hsame
        rw [CronRun.ended, hphase] at hended
        exact ⟨_, List.getElem?_set_self hlt, hended⟩
      · exact ⟨found, (List.getElem?_set_ne (Ne.symm hj)).trans hfound, hended⟩

/-- A run that ended is failed exactly when something made it fail before its end. -/
theorem outcome_of_history {start : CronState} (h : start.Started) {before after : List CronLabel}
    (run : Run (CronStep everyMinutes) start (before ++ .event i (.finish now) :: after) s) :
    ∃ run outcome, s.runs[i]? = some run ∧ run.ended = some (outcome, now) ∧
      (outcome = .failed ↔ ∃ label ∈ before, label.failsRun i = true) := by
  obtain ⟨m, hbefore, hrest⟩ := run.split
  cases hrest with
  | cons step hafter =>
      have hblamed := Blamed.run h hbefore
      obtain ⟨ending, hending, hmap⟩ := Option.bind_eq_some_iff.mp step
      obtain ⟨ended, hnext, rfl⟩ := Option.map_eq_some_iff.mp hmap
      have hlt := (List.getElem?_eq_some_iff.mp hending).1
      have hphase : ended.phase = .recording (if ending.bad then .failed else .ok) now := by
        rcases CronRun.phase_next hnext with hsame | ⟨hbody, hwaiting⟩ | ⟨now', heq, -, hphase⟩
        · simp only [CronRun.next, Option.ite_none_right_eq_some, Option.some.injEq] at hnext
          obtain ⟨⟨hwaiting, -, -⟩, rfl⟩ := hnext
          rw [hwaiting] at hsame
          cases hsame
        · simp only [CronRun.next, Option.ite_none_right_eq_some] at hnext
          rw [hbody] at hnext
          cases hnext.1.1
        · cases heq
          exact hphase
      let Kept (s : CronState) : Prop := ∃ run, s.runs[i]? = some run ∧
        run.ended = some (if ending.bad then .failed else .ok, now)
      have hkept : ∀ s label s', CronStep everyMinutes s label s' → Kept s → Kept s' :=
        fun _ _ _ step kept => ended_step step kept
      have hafterwards : Kept s := by
        refine hafter.invariant hkept ⟨ended, List.getElem?_set_self hlt, ?_⟩
        rw [CronRun.ended, hphase]
      obtain ⟨final, hfinal, hended⟩ := hafterwards
      refine ⟨final, _, hfinal, hended, ?_⟩
      rw [← hblamed.bad i ending hending]
      cases ending.bad <;> simp

/-! ## The last failure in the status row -/

/-- The run `i` is recorded with this outcome, and its row was written or not. -/
def DoneAt (runs : List CronRun) (i : Nat) (outcome : CronOutcome) (finishedAt : Int)
    (written : Bool) : Prop :=
  ∃ run, runs[i]? = some run ∧ run.phase = .done outcome finishedAt written

/-- The run `i` is the latest of the recorded runs that failed. -/
def LatestFailed (runs : List CronRun) (i : Nat) (finishedAt : Int) (written : Bool) : Prop :=
  DoneAt runs i .failed finishedAt written ∧
    ∀ j, i < j → ∀ finishedAt written, ¬ DoneAt runs j .failed finishedAt written

/-- Once a row is written after the latest failed run or by it, the last failure in
the row is not older than the end of that run. -/
def LastFailureStored (s : CronState) : Prop :=
  ∀ i t written, LatestFailed s.runs i t written →
    (∃ j outcome t', i ≤ j ∧ DoneAt s.runs j outcome t' true) →
    ∃ status lastFailedAt, s.store.stored = some status ∧
      status.lastFailedAt = some lastFailedAt ∧ t ≤ lastFailedAt

/-- While the status of the latest failed run is not written, no status of a
successful run is. -/
def Careful (s : CronState) (label : CronLabel) : Prop :=
  ∀ i readFails writeFails, label = .record i readFails writeFails →
    ∀ run finishedAt, s.runs[i]? = some run → run.phase = .recording .ok finishedAt →
      ∀ j t, LatestFailed s.runs j t false → writeFails = true

def CarefulStep (everyMinutes : Nat) (s : CronState) (label : CronLabel) (s' : CronState) : Prop :=
  CronStep everyMinutes s label s' ∧ Careful s label

/-- The row and the memory of the process hold the instant as the last failure. -/
def CronStore.Holds (store : CronStore) (t : Int) : Prop :=
  ∃ status, store.stored = some status ∧ status.lastFailedAt = some t ∧
    ∃ last, store.last = some (some last) ∧ last.lastFailedAt = some t

theorem recordCronRun_failed
    (h : (recordCronRun everyMinutes store .failed startedAt finishedAt readFails writeFails).2 =
      true) :
    (recordCronRun everyMinutes store .failed startedAt finishedAt readFails writeFails).1.Holds
      finishedAt := by
  unfold recordCronRun at h ⊢
  cases hlast : store.lastStatus readFails with
  | none => simp [hlast] at h
  | some last =>
      have hchanged : unchangedOk last .failed finishedAt = false := by
        cases last <;> simp [unchangedOk]
      cases writeFails with
      | true => simp [hlast, hchanged] at h
      | false =>
          simp only [hchanged, Bool.false_eq_true, if_false]
          exact ⟨_, rfl, rfl, _, rfl, rfl⟩

/-- Recording a success keeps the last failure. -/
theorem recordCronRun_ok (h : store.Holds t) :
    (recordCronRun everyMinutes store .ok startedAt finishedAt readFails writeFails).1.Holds t := by
  obtain ⟨status, hstored, hstatus, last, hlast, hfailed⟩ := h
  have hread : store.lastStatus readFails = some (some last) := by
    rw [CronStore.lastStatus, hlast]
  simp only [recordCronRun, hread]
  split
  · exact ⟨status, hstored, hstatus, last, rfl, hfailed⟩
  · split
    · exact ⟨status, hstored, hstatus, last, hlast, hfailed⟩
    · exact ⟨_, rfl, hfailed, _, rfl, hfailed⟩

theorem recordCronRun_writeFails :
    (recordCronRun everyMinutes store outcome startedAt finishedAt readFails true).2 = false := by
  unfold recordCronRun
  cases store.lastStatus readFails with
  | none => rfl
  | some last =>
      dsimp only
      split <;> rfl

/-- What the row holds of the latest failed run. -/
structure Remembered (s : CronState) : Prop where
  written : ∀ i t, LatestFailed s.runs i t true → s.store.Holds t
  lost : ∀ i t, LatestFailed s.runs i t false →
    ∀ j outcome t', i ≤ j → ¬ DoneAt s.runs j outcome t' true

theorem Remembered.stored (h : Remembered s) : LastFailureStored s := by
  rintro i t written hlatest ⟨j, outcome, t', hij, hdone⟩
  cases written with
  | true =>
      obtain ⟨status, hstored, hfailed, -⟩ := h.written i t hlatest
      exact ⟨status, t, hstored, hfailed, Int.le_refl t⟩
  | false => exact absurd hdone (h.lost i t hlatest j outcome t' hij)

theorem latestFailed_congr {runs' : List CronRun}
    (same : ∀ j outcome t written,
      DoneAt runs' j outcome t written ↔ DoneAt runs j outcome t written) :
    LatestFailed runs' i t written ↔ LatestFailed runs i t written := by
  unfold LatestFailed
  simp only [same]

/-- A step that records nothing keeps what is remembered. -/
theorem Remembered.congr (h : Remembered s) (hstore : s'.store = s.store)
    (same : ∀ j outcome t written,
      DoneAt s'.runs j outcome t written ↔ DoneAt s.runs j outcome t written) : Remembered s' where
  written i t hlatest := by
    rw [hstore]
    exact h.written i t ((latestFailed_congr same).mp hlatest)
  lost i t hlatest j outcome t' hij hdone :=
    h.lost i t ((latestFailed_congr same).mp hlatest) j outcome t' hij ((same ..).mp hdone)

theorem doneAt_append : DoneAt (runs ++ [runCronTask now]) j outcome t written ↔
      DoneAt runs j outcome t written := by
  constructor
  · rintro ⟨run, hrun, hphase⟩
    rcases getElem?_append_cases hrun with hold | ⟨-, rfl⟩
    · exact ⟨run, hold, hphase⟩
    · cases hphase
  · rintro ⟨run, hrun, hphase⟩
    have hlt := (List.getElem?_eq_some_iff.mp hrun).1
    exact ⟨run, (List.getElem?_append_left hlt).trans hrun, hphase⟩

/-- Replacing a run by one in another phase, where neither is recorded, or by one in
the same phase changes nothing that is recorded. -/
theorem doneAt_set_event {run : CronRun} (hrun : runs[i]? = some run)
    (hnext : run.next event = some run') :
    DoneAt (runs.set i run') j outcome t written ↔ DoneAt runs j outcome t written := by
  have hphase : run'.phase = .done outcome t written ↔ run.phase = .done outcome t written := by
    rcases CronRun.phase_next hnext with h | ⟨h, h'⟩ | ⟨now, -, h, h'⟩
    · rw [h]
    · rw [h, h']
      simp
    · rw [h, h']
      simp
  have hlt := (List.getElem?_eq_some_iff.mp hrun).1
  unfold DoneAt
  by_cases hj : j = i
  · subst hj
    rw [List.getElem?_set_self hlt, hrun]
    simp [hphase]
  · rw [List.getElem?_set_ne (Ne.symm hj)]

/-- What is recorded after one more run was. -/
theorem doneAt_set_record {run : CronRun} (hlt : i < runs.length) {outcome' : CronOutcome} :
    DoneAt (runs.set i { run with phase := .done outcome t written }) j outcome' t' written' ↔
      j = i ∧ outcome' = outcome ∧ t' = t ∧ written' = written ∨
        j ≠ i ∧ DoneAt runs j outcome' t' written' := by
  unfold DoneAt
  by_cases hj : j = i
  · subst hj
    rw [List.getElem?_set_self hlt]
    simp only [Option.some.injEq, exists_eq_left', RunPhase.done.injEq, true_and, ne_eq,
      not_true_eq_false, false_and, or_false]
    constructor <;> rintro ⟨rfl, rfl, rfl⟩ <;> exact ⟨rfl, rfl, rfl⟩
  · rw [List.getElem?_set_ne (Ne.symm hj)]
    simp [hj]

theorem DoneAt.lt (h : DoneAt runs i outcome t written) : i < runs.length := by
  obtain ⟨run, hrun, -⟩ := h
  exact (List.getElem?_eq_some_iff.mp hrun).1

/-- A failed run that is recorded now is the latest failed one. -/
theorem latestFailed_after_failed {run : CronRun} (hlast : i + 1 = runs.length)
    (h : LatestFailed (runs.set i { run with phase := .done .failed t written }) j t' written') :
    j = i ∧ t' = t ∧ written' = written := by
  have hlt : i < runs.length := by omega
  obtain ⟨hdone, hlater⟩ := h
  rcases (doneAt_set_record hlt).mp hdone with ⟨hj, -, ht, hwritten⟩ | ⟨hj, hold⟩
  · exact ⟨hj, ht, hwritten⟩
  · have hji : j < i := by
      have hjlt := hold.lt
      omega
    exact absurd ((doneAt_set_record hlt).mpr (Or.inl ⟨rfl, rfl, rfl, rfl⟩)) (hlater i hji _ _)

/-- A success that is recorded leaves the latest failed run as it is. -/
theorem latestFailed_after_ok {run : CronRun} (hlt : i < runs.length)
    (hnot : ∀ outcome t written, ¬ DoneAt runs i outcome t written)
    (h : LatestFailed (runs.set i { run with phase := .done .ok t written }) j t' written') :
    LatestFailed runs j t' written' := by
  obtain ⟨hdone, hlater⟩ := h
  rcases (doneAt_set_record hlt).mp hdone with ⟨-, houtcome, -⟩ | ⟨hj, hold⟩
  · cases houtcome
  · refine ⟨hold, fun k hjk t'' written'' hk => ?_⟩
    have hki : k ≠ i := fun heq => hnot _ _ _ (heq ▸ hk)
    exact hlater k hjk t'' written'' ((doneAt_set_record hlt).mpr (Or.inr ⟨hki, hk⟩))

theorem Remembered.step (h : Remembered s) (guarded : Guarded s)
    (step : CarefulStep everyMinutes s label s') : Remembered s' := by
  cases step_cases step.1 with
  | skipped now hflight => exact h
  | started now hfree => exact h.congr rfl fun _ _ _ _ => doneAt_append
  | event i event run run' hrun hnext =>
      exact h.congr rfl fun _ _ _ _ => doneAt_set_event hrun hnext
  | recorded i readFails writeFails run outcome finishedAt hrun hphase =>
      have hlast := (guarded.last i run hrun (by rw [CronRun.active, hphase])).2
      have hlt : i < s.runs.length := by omega
      have hnot : ∀ outcome t written, ¬ DoneAt s.runs i outcome t written := by
        rintro outcome' t' written' ⟨found, hfound, hdone⟩
        have hsame : run = found := Option.some.inj (hrun.symm.trans hfound)
        rw [← hsame, hphase] at hdone
        cases hdone
      cases outcome with
      | failed =>
          refine ⟨?_, ?_⟩
          · intro j t hfailed
            obtain ⟨-, rfl, hwritten⟩ := latestFailed_after_failed hlast hfailed
            exact recordCronRun_failed hwritten.symm
          · intro j t hfailed k outcome t' hjk hdone
            obtain ⟨rfl, -, hwritten⟩ := latestFailed_after_failed hlast hfailed
            rcases (doneAt_set_record hlt).mp hdone with ⟨-, -, -, hwritten'⟩ | ⟨hk, hold⟩
            · rw [← hwritten] at hwritten'
              cases hwritten'
            · have hklt := hold.lt
              omega
      | ok =>
          refine ⟨?_, ?_⟩
          · intro j t hfailed
            exact recordCronRun_ok (h.written j t (latestFailed_after_ok hlt hnot hfailed))
          · intro j t hfailed k outcome t' hjk hdone
            have hold := latestFailed_after_ok hlt hnot hfailed
            rcases (doneAt_set_record hlt).mp hdone with ⟨-, -, -, hwritten⟩ | ⟨-, hdone⟩
            · have hfails := step.2 i readFails writeFails rfl run finishedAt hrun hphase j t hold
              rw [hfails, recordCronRun_writeFails] at hwritten
              cases hwritten
            · exact h.lost j t hold k outcome t' hjk hdone

/-! ## Every run of a task -/

/-- In every run of a task no two of its runs overlap, a run that ended has no tracked
work left, and it is failed exactly when before its end its body threw or something was
reported in it; and while a successful status is not written over a failed run whose
status was lost, the row holds the latest failure. -/
theorem cron_failures_recorded (everyMinutes : Nat) {start : CronState} (h : start.Started) :
    (∀ labels s, Run (CronStep everyMinutes) start labels s →
      (∀ (i j : Nat) (run other : CronRun), s.runs[i]? = some run → s.runs[j]? = some other →
        run.active = true → other.active = true → i = j) ∧
      (∀ (i : Nat) (run : CronRun), s.runs[i]? = some run → run.ended.isSome = true →
        ∀ work ∈ run.tracked, work ∈ run.settled) ∧
      ∀ before i now after, labels = before ++ .event i (.finish now) :: after →
        ∃ run outcome, s.runs[i]? = some run ∧ run.ended = some (outcome, now) ∧
          (outcome = .failed ↔ ∃ label ∈ before, label.failsRun i = true)) ∧
    ∀ labels s, Run (CarefulStep everyMinutes) start labels s → LastFailureStored s := by
  refine ⟨?_, ?_⟩
  · intro labels s run
    have guarded := Guarded.run h run
    refine ⟨?_, ?_, ?_⟩
    · intro i j first second hfirst hsecond hactive hactive'
      have hi := (guarded.last i first hfirst hactive).2
      have hj := (guarded.last j second hsecond hactive').2
      omega
    · intro i found hfound hended
      exact (guarded.waits i found hfound).ended hended
    · rintro before i now after rfl
      exact outcome_of_history h run
  · intro labels s run
    have hstart : Guarded start ∧ Remembered start := by
      refine ⟨Guarded.start h, ?_, ?_⟩
      · intro i t hlatest
        have hlt := hlatest.1.lt
        rw [h.2.1] at hlt
        cases hlt
      · intro i t hlatest
        have hlt := hlatest.1.lt
        rw [h.2.1] at hlt
        cases hlt
    have hend : Guarded s ∧ Remembered s := by
      refine run.invariant (P := fun s => Guarded s ∧ Remembered s) ?_ hstart
      intro u label v step both
      exact ⟨both.1.step step.1, both.2.step both.1 step⟩
    exact hend.2.stored

/-! ## A task every minute -/

/-- A process that has just started, and no row. -/
def freshState : CronState := ⟨false, [], none, none⟩

theorem freshState_started : freshState.Started := ⟨rfl, rfl, rfl⟩

/-- A run whose tracked work tracks more work and is rejected, and a call in between. -/
def rejectedWork : List CronLabel :=
  [ .invoke 0, .event 0 (.track 1), .event 0 (.bodyEnds false), .event 0 .turn, .invoke 60000,
    .event 0 (.track 2), .event 0 (.settle 1 true), .event 0 .turn, .event 0 (.settle 2 false),
    .event 0 (.finish 61000), .record 0 false false ]

def afterRejectedWork : CronState where
  inFlight := false
  runs := [⟨0, .done .failed 61000 true, false, true, [], [2], [1, 2], [1, 2]⟩]
  store := ⟨some ⟨0, 61000, .failed, some 61000, 1⟩, some (some ⟨0, 61000, .failed, some 61000, 1⟩)⟩

theorem cron_failures_recorded_rejected :
    ∃ run outcome, afterRejectedWork.runs[0]? = some run ∧ run.ended = some (outcome, 61000) ∧
      (outcome = .failed ↔ ∃ label ∈ rejectedWork.take 9, label.failsRun 0 = true) :=
  ((cron_failures_recorded 1 freshState_started).1 rejectedWork afterRejectedWork
    (Runs.run_of_follow (by decide))).2.2 (rejectedWork.take 9) 0 61000 [.record 0 false false] rfl

/-- A success, a run that fails and whose status write fails, and a success that is
written ten minutes after the first. -/
def lostFailure : List CronLabel :=
  [ .invoke 0, .event 0 (.bodyEnds false), .event 0 (.finish 10), .record 0 false false,
    .invoke 60000, .event 1 (.bodyEnds true), .event 1 (.finish 60010), .record 1 false true,
    .invoke 660000, .event 2 (.bodyEnds false), .event 2 (.finish 660010), .record 2 false false ]

def afterLostFailure : CronState where
  inFlight := false
  runs :=
    [ ⟨0, .done .ok 10 true, false, false, [], [], [], []⟩,
      ⟨60000, .done .failed 60010 false, true, false, [], [], [], []⟩,
      ⟨660000, .done .ok 660010 true, false, false, [], [], [], []⟩ ]
  store := ⟨some ⟨660000, 660010, .ok, none, 1⟩, some (some ⟨660000, 660010, .ok, none, 1⟩)⟩

/-- The failure is in no row after that. -/
theorem failure_lost : ¬ ∀ labels s, Run (CronStep 1) freshState labels s → LastFailureStored s := by
  intro hall
  have hrun : Run (CronStep 1) freshState lostFailure afterLostFailure :=
    Runs.run_of_follow (by decide)
  have hlatest : LatestFailed afterLostFailure.runs 1 60010 false := by
    refine ⟨⟨_, rfl, rfl⟩, ?_⟩
    rintro j hj t written ⟨run, hfound, hphase⟩
    have hlt := (List.getElem?_eq_some_iff.mp hfound).1
    have heq : j = 2 := by
      simp only [afterLostFailure, List.length_cons, List.length_nil] at hlt
      omega
    subst heq
    cases hfound
    cases hphase
  obtain ⟨status, t, hstored, hfailed, -⟩ := hall lostFailure afterLostFailure hrun 1 60010 false
    hlatest ⟨2, .ok, 660010, by decide, _, rfl, rfl⟩
  cases hstored
  cases hfailed

end Sinnlos.Cms.Cron

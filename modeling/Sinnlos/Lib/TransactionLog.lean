import Sinnlos.Lib.TransactionSoundness

/-! # The log of a run

What a run of sound transactions leaves behind: its commits link the first rows
to the last, each moves the rows along the guarantee, results are returned after
their COMMIT, and who was refused or failed commits nothing.
-/

namespace Sinnlos.Database

variable {τ κ ν ε ρ α γ : Type}

/-- The commits followed one another: each found the rows the one before it left. -/
def Linked (first : κ → ν) : List (Commit τ κ ν α γ) → (κ → ν) → Prop
  | [], rows => rows = first
  | commit :: earlier, rows => rows = commit.after ∧ Linked first earlier commit.before

/-- Where every commit moves the rows, each of them left rows that moved on since. -/
theorem Linked.moves {G : Guarantee ν} {first rows : κ → ν} {log : List (Commit τ κ ν α γ)}
    (h : Linked first log rows)
    (moved : ∀ commit ∈ log, ∀ k, G.moves (commit.before k) (commit.after k)) :
    (∀ k, G.moves (first k) (rows k)) ∧ (∀ commit ∈ log, ∀ k, G.moves (commit.after k) (rows k)) ∧
      log.Pairwise fun later earlier => ∀ k, G.moves (earlier.after k) (later.before k) := by
  induction log generalizing rows with
  | nil =>
      cases h
      exact ⟨fun k => G.refl _, by simp, .nil⟩
  | cons commit earlier ih =>
      obtain ⟨rfl, hrest⟩ := h
      rw [List.forall_mem_cons] at moved
      obtain ⟨start, since, ordered⟩ := ih hrest moved.2
      refine ⟨?_, ?_, ?_⟩
      · intro k
        exact G.trans _ _ _ (start k) (moved.1 k)
      · intro c hc k
        rcases List.mem_cons.mp hc with rfl | hold
        · exact G.refl _
        · exact G.trans _ _ _ (since c hold k) (moved.1 k)
      · exact .cons since ordered

/-- Who committed is past its COMMIT; who was refused or failed never commits. -/
structure Traced (s : Database τ κ ν ε ρ α γ) : Prop where
  written : ∀ commit ∈ s.log, s.phase commit.writer = some (commit.call, .applied commit.result) ∨
    s.phase commit.writer = some (commit.call, .finished)
  refused : ∀ t r, (t, r) ∈ s.replies → (r = .failed ∨ ∃ e, r = .refused e) →
    (∃ call, s.phase t = some (call, .finished)) ∧ ∀ commit ∈ s.log, commit.writer ≠ t

variable {s : Database τ κ ν ε ρ α γ}

theorem Started.traced {blank : ν} (h : s.Started blank) : s.Traced := by
  refine ⟨?_, ?_⟩
  · intro commit hc
    rw [h.log] at hc
    cases hc
  · intro t r hr
    rw [h.replies] at hr
    cases hr

/-- A step of `t` that commits nothing. -/
theorem Traced.advance {s' : Database τ κ ν ε ρ α γ} {t : τ} {call : γ} {phase : Phase κ ν ε ρ α}
    (h : s.Traced) (other : ∀ t', t' ≠ t → s'.phase t' = s.phase t')
    (entered : s'.phase t = some (call, phase))
    (live : ∀ call', s.phase t ≠ some (call', .finished)) (log : s'.log = s.log)
    (past : ∀ call' result, s.phase t = some (call', .applied result) →
      call' = call ∧ phase = .finished)
    (replies : ∀ t' r, (t', r) ∈ s'.replies → (r = .failed ∨ ∃ e, r = .refused e) →
      (t', r) ∈ s.replies ∨
        t' = t ∧ phase = .finished ∧ ∀ call' result, s.phase t ≠ some (call', .applied result)) :
    s'.Traced := by
  refine ⟨?_, ?_⟩
  · intro commit hc
    rw [log] at hc
    by_cases ht : commit.writer = t
    · rcases h.written commit hc with happlied | hfinished
      · rw [ht] at happlied ⊢
        obtain ⟨hcall, hphase⟩ := past _ _ happlied
        rw [entered, hcall, hphase]
        exact Or.inr rfl
      · rw [ht] at hfinished
        exact absurd hfinished (live _)
    · rw [other _ ht]
      exact h.written commit hc
  · intro t' r hr hne
    rw [log]
    rcases replies t' r hr hne with hold | ⟨rfl, hphase, unapplied⟩
    · obtain ⟨⟨call', hp⟩, hnone⟩ := h.refused t' r hold hne
      have ht : t' ≠ t := by
        intro e
        subst e
        exact live call' hp
      rw [other t' ht]
      exact ⟨⟨call', hp⟩, hnone⟩
    · refine ⟨⟨call, by rw [entered, hphase]⟩, ?_⟩
      intro commit hc ht
      rcases h.written commit hc with happlied | hfinished
      · rw [ht] at happlied
        exact unapplied _ _ happlied
      · rw [ht] at hfinished
        exact live _ hfinished

section Transitions
variable [DecidableEq τ] {s s' : Database τ κ ν ε ρ α γ} {t : τ} {call : γ}
  {phase phase' : Phase κ ν ε ρ α}

/-- The step of `t` that commits. -/
theorem Traced.apply {result : α} (h : s.Traced) (hp : s.phase t = some (call, phase))
    (live : phase ≠ .finished) (unapplied : ∀ result, phase ≠ .applied result)
    (past : phase' = .applied result ∨ phase' = .finished) :
    ((s.apply t call result).enter t call phase').Traced := by
  have other : ∀ t', t' ≠ t → ((s.apply t call result).enter t call phase').phase t' =
      s.phase t' := by
    intro t' ht
    simp [Database.enter, Database.apply, Database.release, ht]
  have unwritten : ∀ commit ∈ s.log, commit.writer ≠ t := by
    intro commit hc ht
    rcases h.written commit hc with happlied | hfinished
    · rw [ht, hp] at happlied
      cases happlied
      exact unapplied _ rfl
    · rw [ht, hp] at hfinished
      cases hfinished
      exact live rfl
  refine ⟨?_, ?_⟩
  · intro commit hc
    rcases List.mem_cons.mp hc with rfl | hold
    · rw [enter_phase_self]
      rcases past with rfl | rfl
      · exact Or.inl rfl
      · exact Or.inr rfl
    · rw [other _ (unwritten commit hold)]
      exact h.written commit hold
  · intro t' r hr hne
    obtain ⟨⟨call', hf⟩, hnone⟩ := h.refused t' r hr hne
    have ht : t' ≠ t := by
      intro e
      subst e
      rw [hp] at hf
      cases hf
      exact live rfl
    refine ⟨⟨call', by rw [other t' ht, hf]⟩, ?_⟩
    intro commit hc
    rcases List.mem_cons.mp hc with rfl | hold
    · exact ht.symm
    · exact hnone commit hold

/-- A step of `t` to another phase, with at most a reply to `t`. -/
theorem Traced.enter {call' : γ} {m : Database τ κ ν ε ρ α γ} (h : s.Traced)
    (hp : s.phase t = some (call, phase)) (phases : m.phase = s.phase) (log : m.log = s.log)
    (live : phase ≠ .finished)
    (past : ∀ result, phase = .applied result → call = call' ∧ phase' = .finished)
    (replies : m.replies = s.replies ∨ ∃ r, m.replies = s.replies ++ [(t, r)] ∧
      ((r = .failed ∨ ∃ e, r = .refused e) →
        phase' = .finished ∧ ∀ result, phase ≠ .applied result)) :
    (m.enter t call' phase').Traced := by
  refine h.advance ?_ (enter_phase_self call' phase') ?_ log ?_ ?_
  · intro t' ht
    simp [Database.enter, ht, phases]
  · intro call'' hf
    rw [hp] at hf
    cases hf
    exact live rfl
  · intro call'' result happlied
    rw [hp] at happlied
    cases happlied
    exact past result rfl
  · intro t' r hr hne
    change (t', r) ∈ m.replies at hr
    rcases replies with hsame | ⟨r', hmore, hfinal⟩
    · rw [hsame] at hr
      exact Or.inl hr
    · rw [hmore] at hr
      rcases List.mem_append.mp hr with hold | hnew
      · exact Or.inl hold
      · cases List.mem_singleton.mp hnew
        obtain ⟨hphase, unapplied⟩ := hfinal hne
        refine Or.inr ⟨rfl, hphase, ?_⟩
        intro call'' result happlied
        rw [hp] at happlied
        cases happlied
        exact unapplied result rfl

end Transitions

section Steps
variable [DecidableEq τ] [DecidableEq κ] {G : Guarantee ν} {post : Post κ ν α γ}
  {program : γ → Txn κ ν ε ρ α} {s s' : Database τ κ ν ε ρ α γ} {t : τ}

/-! ## What a run does to the committed rows -/

variable {label : TxnLabel τ κ ε γ} {labels : List (TxnLabel τ κ ε γ)}

/-- A statement commits nothing, and answers at most its refusal. -/
theorem statement_leaves {call : γ} {key : κ} {rest : Txn κ ν ε ρ α}
    (hs : s.statement t call key rest = some s') :
    ∃ phase, s'.phase = Function.update s.phase t (some (call, phase)) ∧
      (∀ result, phase ≠ .applied result) ∧ s'.rows = s.rows ∧ s'.log = s.log ∧
      (s'.replies = s.replies ∨
        phase = .finished ∧ ∃ refusal, s'.replies = s.replies ++ [(t, .refused refusal)]) := by
  cases rest <;> simp only [Database.statement] at hs
  case refuse refusal =>
    cases hs
    exact ⟨_, rfl, by simp, rfl, rfl, Or.inr ⟨rfl, refusal, rfl⟩⟩
  all_goals
    first
    | (cases hs; exact ⟨_, rfl, by simp, rfl, rfl, Or.inl rfl⟩)
    | (split at hs <;> (try split at hs) <;> cases hs <;>
        exact ⟨_, rfl, by simp, rfl, rfl, Or.inl rfl⟩)

/-- A step commits nothing, or it commits the work of one transaction. -/
theorem Step.commit_cases (hs : Step program s label s') :
    (s'.rows = s.rows ∧ s'.log = s.log) ∨
      ∃ t call result, label = .commit t ∧ s'.rows = s.current t ∧ s'.env = s.env ∧
        s'.log = ⟨t, call, result, s.rows, s.draft t⟩ :: s.log ∧
        (s.phase t = some (call, .committing result) ∨
          s.phase t = some (call, .abandoned result)) := by
  unfold Step at hs
  cases label with
  | commit t =>
      simp only [next] at hs
      split at hs
      · rename_i call result hp
        cases hs
        exact Or.inr ⟨t, call, result, rfl, rfl, rfl, rfl, Or.inl hp⟩
      · rename_i call result hp
        cases hs
        exact Or.inr ⟨t, call, result, rfl, rfl, rfl, rfl, Or.inr hp⟩
      · cases hs
  | run t key =>
      simp only [next] at hs
      split at hs
      · obtain ⟨_, _, _, hrows, hlog, _⟩ := statement_leaves hs
        exact Or.inl ⟨hrows, hlog⟩
      · cases hs
  | _ =>
      simp only [next] at hs
      first
      | (cases hs; exact Or.inl ⟨rfl, rfl⟩)
      | (split at hs <;> cases hs <;> exact Or.inl ⟨rfl, rfl⟩)

theorem Step.linked {first : κ → ν} (hs : Step program s label s') (h : Linked first s.log s.rows) :
    Linked first s'.log s'.rows := by
  rcases hs.commit_cases with ⟨hr, hl⟩ | ⟨t, call, result, _, hr, _, hl, _⟩
  · rw [hr, hl]
    exact h
  · rw [hr, hl]
    exact ⟨rfl, h⟩

/-- A run adds commits to the log, which link the rows it started with to those
it reached. -/
theorem run_linked (hr : Runs.Run (Step program) s labels s') :
    ∃ new, s'.log = new ++ s.log ∧ Linked s.rows new s'.rows := by
  have base : ∃ new, s.log = new ++ s.log ∧ Linked s.rows new s.rows := ⟨[], rfl, rfl⟩
  refine hr.invariant (P := fun m => ∃ new, m.log = new ++ s.log ∧ Linked s.rows new m.rows) ?_
    base
  intro m label m' hs hm
  obtain ⟨new, hlog, hlinked⟩ := hm
  rcases hs.commit_cases with ⟨hr, hl⟩ | ⟨t, call, result, _, hr, _, hl, _⟩
  · exact ⟨new, hl.trans hlog, by rw [hr]; exact hlinked⟩
  · refine ⟨⟨t, call, result, m.rows, m.draft t⟩ :: new, ?_, ?_⟩
    · rw [hl, hlog]
      rfl
    · rw [hr]
      exact ⟨rfl, hlinked⟩

/-- The log of a run links the rows it started with to the rows it reached. -/
theorem Started.linked {blank : ν} (h : s.Started blank)
    (hr : Runs.Run (Step program) s labels s') : Linked s.rows s'.log s'.rows := by
  refine hr.invariant (fun _ _ _ hs hm => hs.linked hm) ?_
  rw [h.log]
  rfl

theorem Step.moves (h : s.Consistent G) (hs : Step program s label s') (k : κ) :
    G.moves (s.rows k) (s'.rows k) := by
  rcases hs.commit_cases with ⟨hr, _⟩ | ⟨t, _, _, _, hr, _⟩
  · rw [hr]
    exact G.refl _
  · rw [hr]
    exact h.current_moves t k

/-- Along every run each committed row moves along the guarantee. -/
theorem Sound.moves (h : s.Sound G post)
    (ensures : ∀ call rows held,
      (program call).Ensures G (post.holds call) ⟨rows, held, fun _ => none⟩)
    (hr : Runs.Run (Step program) s labels s') (k : κ) : G.moves (s.rows k) (s'.rows k) := by
  have both := hr.relates (P := Sound G post)
    (R := fun a b : Database τ κ ν ε ρ α γ => G.moves (a.rows k) (b.rows k))
    (fun a => G.refl _) (fun a b c => G.trans _ _ _)
    (fun _ _ _ hs hm => hm.step ensures hs) (fun _ _ _ hs hm => hs.moves hm.toConsistent k) h
  exact both

/-- A result is returned only where its COMMIT is confirmed, after it took effect. -/
theorem Step.ok_cases (hs : Step program s label s') {result : α}
    (h : (t, Reply.ok result) ∈ s'.replies) :
    (t, Reply.ok result) ∈ s.replies ∨
      label = .confirm t ∧ ∃ call, s.phase t = some (call, .applied result) := by
  have of_append : ∀ {u : τ} {r : Reply ρ α}, (∀ result, r ≠ .ok result) →
      (t, Reply.ok result) ∈ s.replies ++ [(u, r)] → (t, Reply.ok result) ∈ s.replies := by
    intro u r hne hmem
    rcases List.mem_append.mp hmem with hold | hnew
    · exact hold
    · cases List.mem_singleton.mp hnew
      exact absurd rfl (hne result)
  unfold Step at hs
  cases label with
  | run t' key =>
      simp only [next] at hs
      split at hs
      · obtain ⟨_, _, _, _, _, hsame | ⟨_, _, hmore⟩⟩ := statement_leaves hs
        · exact Or.inl (hsame ▸ h)
        · exact Or.inl (of_append (by simp) (hmore ▸ h))
      · cases hs
  | confirm t' =>
      simp only [next] at hs
      split at hs
      · rename_i call result' hp
        cases hs
        rcases List.mem_append.mp h with hold | hnew
        · exact Or.inl hold
        · cases List.mem_singleton.mp hnew
          exact Or.inr ⟨rfl, call, hp⟩
      · cases hs
  | _ =>
      simp only [next] at hs
      first
      | (cases hs; exact Or.inl h)
      | (split at hs <;> cases hs <;>
          first | exact Or.inl h | exact Or.inl (of_append (by simp) h))

/-- What was replied stays replied. -/
theorem Step.replies_grow (hs : Step program s label s') {answer : τ × Reply ρ α}
    (h : answer ∈ s.replies) : answer ∈ s'.replies := by
  unfold Step at hs
  cases label with
  | run t' key =>
      simp only [next] at hs
      split at hs
      · obtain ⟨_, _, _, _, _, hsame | ⟨_, _, hmore⟩⟩ := statement_leaves hs
        · exact hsame ▸ h
        · exact hmore ▸ List.mem_append_left _ h
      · cases hs
  | _ =>
      simp only [next] at hs
      first
      | (cases hs; exact h)
      | (split at hs <;> cases hs <;> first | exact h | exact List.mem_append_left _ h)

/-! ## What never commits -/

theorem Traced.statement {call : γ} {key : κ} {rest : Txn κ ν ε ρ α} (h : s.Traced)
    (hp : s.phase t = some (call, .working rest)) (hs : s.statement t call key rest = some s') :
    s'.Traced := by
  obtain ⟨phase, hphase, _, _, log, replies⟩ := statement_leaves hs
  refine h.advance ?_ (by rw [hphase, Function.update_self]) (by simp [hp]) log (by simp [hp]) ?_
  · intro t' ht
    rw [hphase, Function.update_of_ne ht]
  · intro t' r hr _
    rcases replies with hsame | ⟨hfinished, refusal, hmore⟩
    · exact Or.inl (hsame ▸ hr)
    · rw [hmore] at hr
      rcases List.mem_append.mp hr with hold | hnew
      · exact Or.inl hold
      · cases List.mem_singleton.mp hnew
        exact Or.inr ⟨rfl, hfinished, by simp [hp]⟩

theorem Traced.step (h : s.Traced) (hs : Step program s label s') : s'.Traced := by
  unfold Step at hs
  cases label with
  | begin t call =>
      simp only [next] at hs
      split at hs
      · rename_i hp
        cases hs
        refine h.advance ?_ (enter_phase_self call _) ?_ rfl ?_ fun _ _ hr _ => Or.inl hr
        · intro t' ht
          simp [Database.enter, ht]
        · intro call' hf
          rw [hp] at hf
          cases hf
        · intro call' result happlied
          rw [hp] at happlied
          cases happlied
      · cases hs
  | run t key =>
      simp only [next] at hs
      split at hs
      · rename_i hp
        exact h.statement hp hs
      · cases hs
  | fail t =>
      simp only [next] at hs
      split at hs
      · rename_i hp
        cases hs
        exact Traced.enter (m := (s.release t).reply t .failed) h hp rfl rfl (by simp) (by simp)
          (Or.inr ⟨_, rfl, fun _ => ⟨rfl, by simp⟩⟩)
      · rename_i hp
        cases hs
        exact Traced.enter (m := (s.release t).reply t .failed) h hp rfl rfl (by simp) (by simp)
          (Or.inr ⟨_, rfl, fun _ => ⟨rfl, by simp⟩⟩)
      · cases hs
  | abandon t =>
      simp only [next] at hs
      split at hs
      · rename_i hp
        cases hs
        exact Traced.enter (m := s.reply t .unknown) h hp rfl rfl (by simp) (by simp)
          (Or.inr ⟨_, rfl, by simp⟩)
      · cases hs
  | commit t =>
      simp only [next] at hs
      split at hs
      · rename_i hp
        cases hs
        exact h.apply hp (by simp) (by simp) (Or.inl rfl)
      · rename_i hp
        cases hs
        exact h.apply hp (by simp) (by simp) (Or.inr rfl)
      · cases hs
  | drop t =>
      simp only [next] at hs
      split at hs
      · rename_i hp
        cases hs
        exact h.enter hp rfl rfl (by simp) (by simp) (Or.inl rfl)
      · cases hs
  | confirm t =>
      simp only [next] at hs
      split at hs
      · rename_i hp
        cases hs
        exact Traced.enter (m := s.reply t (.ok _)) h hp rfl rfl (by simp) (by simp)
          (Or.inr ⟨_, rfl, by simp⟩)
      · cases hs
  | lose t =>
      simp only [next] at hs
      split at hs
      · rename_i hp
        cases hs
        exact Traced.enter (m := s.reply t .unknown) h hp rfl rfl (by simp) (by simp)
          (Or.inr ⟨_, rfl, by simp⟩)
      · cases hs
  | move env =>
      cases hs
      exact ⟨h.written, h.refused⟩

theorem Traced.run (h : s.Traced) (hr : Runs.Run (Step program) s labels s') : s'.Traced :=
  hr.invariant (fun _ _ _ hs hm => hm.step hs) h

end Steps

end Sinnlos.Database

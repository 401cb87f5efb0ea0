import Sinnlos.Lib.TransactionLogic

/-! # The database keeps what its transactions ensure

`Database.Sound` is the invariant of a database whose transactions keep a
guarantee: locks, drafts and commits fit together, and every transaction still
ensures its postcondition. Every step keeps it.
-/

namespace Sinnlos

variable {τ κ ν ε ρ α γ : Type}

namespace Database

def knowledge (s : Database τ κ ν ε ρ α γ) (t : τ) : Knowledge κ ν :=
  ⟨s.rows, fun k => s.holder k = some t, s.draft t⟩

/-- What a call promises where it returns: of its result, of the rows it was
committed on and of what it changed in them. -/
abbrev Post (κ ν α γ : Type) : Type := γ → α → (κ → ν) → (κ → Option ν) → Prop

def Post.holds (post : Post κ ν α γ) (call : γ) (result : α) (l : Knowledge κ ν) : Prop :=
  post call result l.rows l.changes

/-- A commit of `t` in the log has this call and this result. -/
def Committed (s : Database τ κ ν ε ρ α γ) (t : τ) (call : γ) (result : α) : Prop :=
  ∃ commit ∈ s.log, commit.writer = t ∧ commit.call = call ∧ commit.result = result

/-- The committed rows, the locks and the drafts fit together. -/
structure Consistent (G : Guarantee ν) (s : Database τ κ ν ε ρ α γ) : Prop where
  fresh : ∀ k, k ∉ s.keys → s.rows k = G.blank ∧ ∀ t, s.draft t k = none
  held : ∀ t k row, s.draft t k = some row → s.holder k = some t
  moved : ∀ t k row, s.draft t k = some row → G.moves (s.rows k) row
  resting : ∀ t, s.phase t = none → s.draft t = fun _ => none

/-- No transaction has begun, and only the keys listed have rows. -/
structure Started (blank : ν) (s : Database τ κ ν ε ρ α γ) : Prop where
  fresh : ∀ k, k ∉ s.keys → s.rows k = blank
  holder : ∀ k, s.holder k = none
  draft : ∀ t k, s.draft t k = none
  phase : ∀ t, s.phase t = none
  log : s.log = []
  replies : s.replies = []

/-! ## What one transaction does to the others -/

/-- A step of `t`, as the other transactions see it. -/
structure Others (G : Guarantee ν) (t : τ) (s s' : Database τ κ ν ε ρ α γ) : Prop where
  phase : ∀ t', t' ≠ t → s'.phase t' = s.phase t'
  later : ∀ t', t' ≠ t → (s.knowledge t').Later G (s'.knowledge t')
  log : ∀ commit ∈ s.log, commit ∈ s'.log

theorem Others.refl (G : Guarantee ν) (t : τ) (s : Database τ κ ν ε ρ α γ) : Others G t s s :=
  ⟨fun _ _ => rfl, fun _ _ => .refl G _, fun _ h => h⟩

variable {G : Guarantee ν} {t : τ} {s : Database τ κ ν ε ρ α γ}

theorem Others.trans {m r : Database τ κ ν ε ρ α γ} (h₁ : Others G t s m) (h₂ : Others G t m r) :
    Others G t s r := by
  refine ⟨?_, ?_, ?_⟩
  · intro t' ht
    rw [h₂.phase t' ht, h₁.phase t' ht]
  · intro t' ht
    exact (h₁.later t' ht).trans (h₂.later t' ht)
  · intro commit hc
    exact h₂.log commit (h₁.log commit hc)

/-- What COMMIT makes of a row is a move, for the transaction's own rows too. -/
theorem Consistent.current_moves (h : s.Consistent G) (t : τ) (k : κ) :
    G.moves (s.rows k) (s.current t k) := by
  unfold current overlay
  cases hd : s.draft t k with
  | none => exact G.refl _
  | some row => exact h.moved t k row hd

/-- COMMIT leaves the rows that others hold. -/
theorem Consistent.current_of_held (h : s.Consistent G) {t' : τ} {k : κ} (ht : t' ≠ t)
    (hk : s.holder k = some t') : s.current t k = s.rows k := by
  unfold current overlay
  cases hd : s.draft t k with
  | none => rfl
  | some row =>
      rw [h.held t k row hd] at hk
      cases hk
      exact absurd rfl ht

theorem reply_others (r : Reply ρ α) : Others G t s (s.reply t r) :=
  ⟨fun _ _ => rfl, fun _ _ => .refl G _, fun _ h => h⟩

theorem Consistent.reply (h : s.Consistent G) (r : Reply ρ α) : (s.reply t r).Consistent G :=
  ⟨h.fresh, h.held, h.moved, h.resting⟩

theorem knowledge_hold [DecidableEq κ] (s : Database τ κ ν ε ρ α γ) (t : τ) (k : κ) :
    (s.hold t k).knowledge t = (s.knowledge t).hold k := by
  unfold knowledge Knowledge.hold Database.hold
  congr 1
  funext j
  by_cases hj : j = k
  · simp [hj]
  · simp [hj]

/-! ## Soundness -/

section Soundness
variable [DecidableEq κ]

def PhaseSound (G : Guarantee ν) (post : Post κ ν α γ) (s : Database τ κ ν ε ρ α γ) (t : τ)
    (call : γ) : Phase κ ν ε ρ α → Prop
  | .working rest => rest.Ensures G (post.holds call) (s.knowledge t)
  | .committing result => (Txn.ret result : Txn κ ν ε ρ α).Ensures G (post.holds call)
      (s.knowledge t)
  | .abandoned result => (Txn.ret result : Txn κ ν ε ρ α).Ensures G (post.holds call)
      (s.knowledge t)
  | .applied result => s.Committed t call result
  | .finished => True

structure Sound (G : Guarantee ν) (post : Post κ ν α γ) (s : Database τ κ ν ε ρ α γ) : Prop
    extends Consistent G s where
  phases : ∀ t call phase, s.phase t = some (call, phase) → s.PhaseSound G post t call phase
  /-- Every commit went along the guarantee and reached its postcondition. -/
  logged : ∀ commit ∈ s.log, (∀ k, G.moves (commit.before k) (commit.after k)) ∧
    post commit.call commit.result commit.before commit.changes
  answered : ∀ t result, (t, Reply.ok result) ∈ s.replies →
    ∃ call phase, s.phase t = some (call, phase) ∧ s.Committed t call result

variable {G : Guarantee ν} {s : Database τ κ ν ε ρ α γ} {post : Post κ ν α γ}

theorem Started.sound (h : s.Started G.blank) (post : Post κ ν α γ) : s.Sound G post := by
  refine ⟨⟨?_, ?_, ?_, ?_⟩, ?_, ?_, ?_⟩
  · intro k hk
    exact ⟨h.fresh k hk, fun t => h.draft t k⟩
  · intro t k row hrow
    rw [h.draft] at hrow
    cases hrow
  · intro t k row hrow
    rw [h.draft] at hrow
    cases hrow
  · intro t _
    funext k
    exact h.draft t k
  · intro t call phase hp
    rw [h.phase] at hp
    cases hp
  · intro commit hc
    rw [h.log] at hc
    cases hc
  · intro t result hr
    rw [h.replies] at hr
    cases hr

variable {call : γ} {s' : Database τ κ ν ε ρ α γ} {phase : Phase κ ν ε ρ α}

theorem PhaseSound.later (h : s.PhaseSound G post t call phase)
    (hl : (s.knowledge t).Later G (s'.knowledge t)) (log : ∀ commit ∈ s.log, commit ∈ s'.log) :
    s'.PhaseSound G post t call phase := by
  cases phase with
  | working rest | committing result | abandoned result => exact Txn.Ensures.later h hl
  | applied result =>
      obtain ⟨commit, hc, hsame⟩ := h
      exact ⟨commit, log commit hc, hsame⟩
  | finished => trivial

/-- A step of `t` keeps the database sound if it is sound for `t` itself. -/
theorem Sound.advance (h : s.Sound G post) (consistent : s'.Consistent G)
    (others : Others G t s s') (entered : s'.phase t = some (call, phase))
    (same : ∀ call' phase', s.phase t = some (call', phase') → call' = call)
    (own : s'.PhaseSound G post t call phase)
    (log : ∀ commit ∈ s'.log, commit ∈ s.log ∨
      (∀ k, G.moves (commit.before k) (commit.after k)) ∧
        post commit.call commit.result commit.before commit.changes)
    (replies : ∀ t' result, (t', Reply.ok result) ∈ s'.replies →
      (t', Reply.ok result) ∈ s.replies ∨ t' = t ∧ s'.Committed t call result) :
    s'.Sound G post := by
  refine ⟨consistent, ?_, ?_, ?_⟩
  · intro t' call' phase' hp
    by_cases ht : t' = t
    · subst ht
      rw [entered] at hp
      cases hp
      exact own
    · rw [others.phase t' ht] at hp
      exact (h.phases t' call' phase' hp).later (others.later t' ht) others.log
  · intro commit hc
    rcases log commit hc with hold | hnew
    · exact h.logged commit hold
    · exact hnew
  · intro t' result hr
    rcases replies t' result hr with hold | ⟨rfl, hc⟩
    · obtain ⟨call', phase', hp, commit, hc, hsame⟩ := h.answered t' result hold
      by_cases ht : t' = t
      · subst ht
        rw [same call' phase' hp] at hsame
        exact ⟨call, phase, entered, commit, others.log commit hc, hsame⟩
      · refine ⟨call', phase', ?_, commit, others.log commit hc, hsame⟩
        rw [others.phase t' ht, hp]
    · exact ⟨call, phase, entered, hc⟩

/-- A reply that returns no result. -/
theorem Sound.reply (h : s.Sound G post) (t : τ) {r : Reply ρ α} (hne : ∀ result, r ≠ .ok result) :
    (s.reply t r).Sound G post := by
  refine ⟨h.toConsistent.reply _, h.phases, h.logged, ?_⟩
  intro t' result hr
  rcases List.mem_append.mp hr with hold | hnew
  · exact h.answered t' result hold
  · cases List.mem_singleton.mp hnew
    exact absurd rfl (hne result)

end Soundness

/-! ## The operations keep the database consistent -/

section Operations
variable [DecidableEq τ] {G : Guarantee ν} {s : Database τ κ ν ε ρ α γ} {t : τ}

@[simp] theorem enter_phase_self (call : γ) (phase : Phase κ ν ε ρ α) :
    (s.enter t call phase).phase t = some (call, phase) := by
  simp [enter]

theorem enter_others (call : γ) (phase : Phase κ ν ε ρ α) :
    Others G t s (s.enter t call phase) := by
  refine ⟨?_, fun _ _ => .refl G _, fun _ h => h⟩
  intro t' ht
  simp [enter, ht]

theorem Consistent.enter (h : s.Consistent G) (call : γ) (phase : Phase κ ν ε ρ α) :
    (s.enter t call phase).Consistent G := by
  refine ⟨h.fresh, h.held, h.moved, ?_⟩
  intro t' hp
  by_cases ht : t' = t
  · subst ht
    simp [Database.enter] at hp
  · simp only [Database.enter, Function.update_of_ne ht] at hp
    exact h.resting t' hp

variable {k j : κ} {row : ν}

theorem free_iff : s.free t k = true ↔ s.holder k = none ∨ s.holder k = some t := by
  simp [free]

theorem release_others : Others G t s (s.release t) := by
  refine ⟨fun _ _ => rfl, ?_, fun _ h => h⟩
  intro t' ht
  refine ⟨?_, ?_, fun k => G.refl _, fun _ _ => rfl⟩
  · funext j
    simp only [knowledge, release]
    by_cases hj : s.holder j = some t
    · simp [hj, ht.symm]
    · simp [hj]
  · simp [knowledge, release, ht]

theorem release_draft_eq (t' : τ) (j : κ) :
    (s.release t).draft t' j = if t' = t then none else s.draft t' j := by
  by_cases ht : t' = t
  · subst ht
    simp [release]
  · simp [release, ht]

variable {t' : τ}

theorem release_draft_some (h : (s.release t).draft t' j = some row) :
    t' ≠ t ∧ s.draft t' j = some row := by
  rw [release_draft_eq] at h
  by_cases ht : t' = t
  · rw [if_pos ht] at h
    cases h
  · rw [if_neg ht] at h
    exact ⟨ht, h⟩

theorem Consistent.release (h : s.Consistent G) (t : τ) : (s.release t).Consistent G := by
  refine ⟨?_, ?_, ?_, ?_⟩
  · intro k hk
    refine ⟨(h.fresh k hk).1, ?_⟩
    intro t'
    rw [release_draft_eq, (h.fresh k hk).2 t', ite_self]
  · intro t' j row hrow
    obtain ⟨ht, hd⟩ := release_draft_some hrow
    have hh := h.held t' j row hd
    simp [Database.release, hh, ht]
  · intro t' j row hrow
    exact h.moved t' j row (release_draft_some hrow).2
  · intro t' hp
    funext j
    rw [release_draft_eq, h.resting t' hp, ite_self]

theorem apply_others (h : s.Consistent G) (call : γ) (result : α) :
    Others G t s (s.apply t call result) := by
  have hrel := release_others (G := G) (s := s) (t := t)
  refine ⟨fun _ _ => rfl, ?_, fun _ hc => List.mem_cons_of_mem _ hc⟩
  intro t' ht
  refine ⟨(hrel.later t' ht).held, (hrel.later t' ht).changes, h.current_moves t, ?_⟩
  intro k hk
  exact h.current_of_held ht hk

theorem Consistent.apply (h : s.Consistent G) (t : τ) (call : γ) (result : α) :
    (s.apply t call result).Consistent G := by
  refine ⟨?_, (h.release t).held, ?_, (h.release t).resting⟩
  · intro k hk
    refine ⟨?_, ((h.release t).fresh k hk).2⟩
    show s.current t k = G.blank
    simp [current, overlay, (h.fresh k hk).2 t, (h.fresh k hk).1]
  · intro t' j row hrow
    obtain ⟨ht, hd⟩ := release_draft_some hrow
    show G.moves (s.current t j) row
    rw [h.current_of_held ht (h.held t' j row hd)]
    exact h.moved t' j row hd

variable [DecidableEq κ]

/-- Who holds a free row may take it: no other transaction loses one. -/
theorem held_by_other (free : s.free t k = true) (ht : t' ≠ t) :
    (s.hold t k).holder j = some t' ↔ s.holder j = some t' := by
  rw [free_iff] at free
  by_cases hj : j = k
  · subst hj
    rcases free with hn | hs
    · simp [hold, hn, ht.symm]
    · simp [hold, hs]
  · simp [hold, hj]

theorem hold_others (free : s.free t k = true) : Others G t s (s.hold t k) := by
  refine ⟨fun _ _ => rfl, ?_, fun _ h => h⟩
  intro t' ht
  refine ⟨?_, rfl, fun k => G.refl _, fun _ _ => rfl⟩
  funext j
  exact propext (held_by_other free ht)

theorem Consistent.hold (h : s.Consistent G) (free : s.free t k = true) :
    (s.hold t k).Consistent G := by
  refine ⟨h.fresh, ?_, h.moved, h.resting⟩
  intro t' j row hrow
  by_cases ht : t' = t
  · subst ht
    by_cases hj : j = k
    · simp [Database.hold, hj]
    · simpa [Database.hold, hj] using h.held t' j row hrow
  · exact (held_by_other free ht).mpr (h.held t' j row hrow)

theorem put_others (row : ν) (free : s.free t k = true) : Others G t s (s.put t k row) := by
  refine ⟨fun _ _ => rfl, ?_, fun _ h => h⟩
  intro t' ht
  refine ⟨?_, ?_, fun k => G.refl _, fun _ _ => rfl⟩
  · funext j
    exact propext (held_by_other free ht)
  · simp [knowledge, put, ht]

theorem knowledge_put (k : κ) (row : ν) :
    (s.put t k row).knowledge t = (s.knowledge t).put k row := by
  have hh := congrArg Knowledge.held (knowledge_hold s t k)
  unfold knowledge Knowledge.put Database.put
  simp only [Function.update_self]
  congr 1

theorem mem_put_keys : j ∈ (s.put t k row).keys ↔ j = k ∨ j ∈ s.keys := by
  unfold put
  by_cases hk : k ∈ s.keys
  · simp only [List.contains_iff_mem, hk, if_true]
    grind
  · simp only [List.contains_iff_mem, hk, if_false, List.mem_append, List.mem_singleton]
    exact Or.comm

theorem Consistent.put (h : s.Consistent G) (free : s.free t k = true)
    (moves : G.moves (s.rows k) row) (begun : s.phase t ≠ none) : (s.put t k row).Consistent G := by
  have draft_eq : ∀ t' j, (s.put t k row).draft t' j =
      if t' = t ∧ j = k then some row else s.draft t' j := by
    intro t' j
    by_cases ht : t' = t
    · subst ht
      by_cases hj : j = k <;> simp [Database.put, hj]
    · simp [Database.put, ht]
  refine ⟨?_, ?_, ?_, ?_⟩
  · intro j hj
    rw [mem_put_keys] at hj
    obtain ⟨hne, hold⟩ := not_or.mp hj
    refine ⟨(h.fresh j hold).1, ?_⟩
    intro t'
    simp [draft_eq, hne, (h.fresh j hold).2 t']
  · intro t' j row' hrow
    rw [draft_eq] at hrow
    by_cases hj : t' = t ∧ j = k
    · simp [Database.put, Database.hold, hj.1, hj.2]
    · rw [if_neg hj] at hrow
      exact (h.hold free).held t' j row' hrow
  · intro t' j row' hrow
    rw [draft_eq] at hrow
    by_cases hj : t' = t ∧ j = k
    · rw [if_pos hj] at hrow
      cases hrow
      rw [hj.2]
      exact moves
    · rw [if_neg hj] at hrow
      exact h.moved t' j row' hrow
  · intro t' hp
    have ht : t' ≠ t := by
      intro e
      subst e
      exact begun hp
    funext j
    rw [draft_eq, if_neg (fun e => ht e.1), h.resting t' hp]

end Operations

/-! ## The steps -/

section Steps
variable [DecidableEq τ] [DecidableEq κ] {G : Guarantee ν} {post : Post κ ν α γ}
  {s s' : Database τ κ ν ε ρ α γ} {t : τ} {call : γ} {phase : Phase κ ν ε ρ α}
  {phase' : Phase κ ν ε ρ α}

/-- A transaction moves on in its program after an operation on the state. -/
theorem Sound.moveOn {m : Database τ κ ν ε ρ α γ} (h : s.Sound G post)
    (hp : s.phase t = some (call, phase)) (consistent : m.Consistent G) (others : Others G t s m)
    (log : m.log = s.log) (replies : m.replies = s.replies)
    (own : m.PhaseSound G post t call phase') : (m.enter t call phase').Sound G post := by
  refine h.advance (consistent.enter call _) (others.trans (enter_others call _))
    (enter_phase_self call _) ?_ ?_ ?_ ?_
  · intro call' phase'' hp'
    rw [hp] at hp'
    cases hp'
    rfl
  · exact own.later (.refl G _) fun _ hc => hc
  · intro commit hc
    change commit ∈ m.log at hc
    rw [log] at hc
    exact Or.inl hc
  · intro t' result hr
    change (t', Reply.ok result) ∈ m.replies at hr
    rw [replies] at hr
    exact Or.inl hr

/-- A transaction that ends without a commit keeps the database sound. -/
theorem Sound.rollback (h : s.Sound G post) (hp : s.phase t = some (call, phase)) :
    ((s.release t).enter t call .finished).Sound G post :=
  h.moveOn hp (h.toConsistent.release t) release_others rfl rfl trivial

/-- The client's side of a transaction whose work is done. -/
theorem Sound.settle (phase' : Phase κ ν ε ρ α) (h : s.Sound G post)
    (hp : s.phase t = some (call, phase)) (own : s.PhaseSound G post t call phase') :
    (s.enter t call phase').Sound G post :=
  h.moveOn hp h.toConsistent (.refl G t s) rfl rfl own

theorem Sound.statement {key : κ} {rest : Txn κ ν ε ρ α} (h : s.Sound G post)
    (hp : s.phase t = some (call, .working rest)) (hs : s.statement t call key rest = some s') :
    s'.Sound G post := by
  have own : rest.Ensures G (post.holds call) (s.knowledge t) := h.phases t call _ hp
  have begun : s.phase t ≠ none := by
    rw [hp]
    exact Option.some_ne_none _
  cases rest with
  | ret result =>
      cases hs
      exact h.settle _ hp own
  | refuse refusal =>
      cases hs
      exact (h.rollback hp).reply t (by simp)
  | lock k found next =>
      obtain ⟨locked, missing⟩ := own (s.knowledge t) (.refl G _)
      simp only [Database.statement] at hs
      cases hf : found (s.current t k) with
      | true =>
          simp only [hf, if_true] at hs
          split at hs
          · rename_i free
            cases hs
            refine h.moveOn hp (h.toConsistent.hold free) (hold_others free) rfl rfl ?_
            unfold PhaseSound
            rw [knowledge_hold]
            exact locked hf
          · cases hs
      | false =>
          simp only [hf, Bool.false_eq_true, if_false] at hs
          cases hs
          exact h.settle _ hp (missing hf)
  | read next =>
      cases hs
      exact h.settle _ hp (own _ (.refl G _) s.keys)
  | update k found set next =>
      obtain ⟨changed, missing⟩ := own (s.knowledge t) (.refl G _)
      simp only [Database.statement] at hs
      cases hf : found (s.current t k) with
      | true =>
          simp only [hf, if_true] at hs
          split at hs
          · rename_i free
            cases hs
            obtain ⟨moves, next'⟩ := changed hf
            refine h.moveOn hp (h.toConsistent.put free moves begun) (put_others _ free) rfl rfl ?_
            unfold PhaseSound
            rw [knowledge_put]
            exact next'
          · cases hs
      | false =>
          simp only [hf, Bool.false_eq_true, if_false] at hs
          cases hs
          exact h.settle _ hp (missing hf)
  | create kind row next =>
      simp only [Database.statement] at hs
      split at hs
      · rename_i fits
        cases hs
        simp only [Bool.and_eq_true, Bool.not_eq_true'] at fits
        obtain ⟨⟨hk, unused⟩, free⟩ := fits
        have hnew : key ∉ s.keys := by simpa using unused
        obtain ⟨blank, undrafted⟩ := h.fresh key hnew
        obtain ⟨moves, next'⟩ := own _ (.refl G _) key hk blank (undrafted t)
        rw [← blank] at moves
        refine h.moveOn hp (h.toConsistent.put free moves begun) (put_others row free) rfl rfl ?_
        unfold PhaseSound
        rw [knowledge_put]
        exact next'
      · cases hs
  | observe next =>
      cases hs
      exact h.settle _ hp (own _ (.refl G _) s.env)

/-- COMMIT takes effect for work that has reached its postcondition. -/
theorem Sound.apply {result : α} (h : s.Sound G post) (hp : s.phase t = some (call, phase))
    (reached : (Txn.ret result : Txn κ ν ε ρ α).Ensures G (post.holds call) (s.knowledge t))
    (own : (s.apply t call result).PhaseSound G post t call phase') :
    ((s.apply t call result).enter t call phase').Sound G post := by
  refine h.advance ((h.toConsistent.apply t call result).enter call _)
    ((apply_others h.toConsistent call result).trans (enter_others call _))
    (enter_phase_self call _) ?_ ?_ ?_ fun _ _ hr => Or.inl hr
  · intro call' phase'' hp'
    rw [hp] at hp'
    cases hp'
    rfl
  · exact own.later (.refl G _) fun _ hc => hc
  · intro commit hc
    rcases List.mem_cons.mp hc with rfl | hold
    · exact Or.inr ⟨h.toConsistent.current_moves t, reached (s.knowledge t) (.refl G _)⟩
    · exact Or.inl hold

variable {program : γ → Txn κ ν ε ρ α}

theorem Sound.step {label : TxnLabel τ κ ε γ} (h : s.Sound G post)
    (ensures : ∀ call rows held,
      (program call).Ensures G (post.holds call) ⟨rows, held, fun _ => none⟩)
    (hs : Step program s label s') : s'.Sound G post := by
  unfold Step at hs
  cases label with
  | begin t call =>
      simp only [next] at hs
      split at hs
      · rename_i hp
        cases hs
        refine h.advance (h.toConsistent.enter call _) (enter_others call _)
          (enter_phase_self call _) ?_ ?_ (fun _ hc => Or.inl hc) fun _ _ hr => Or.inl hr
        · intro call' phase' hp'
          rw [hp] at hp'
          cases hp'
        · have start := ensures call s.rows fun k => s.holder k = some t
          rw [← h.resting t hp] at start
          exact start
      · cases hs
  | run t key =>
      simp only [next] at hs
      split at hs
      · rename_i hp
        exact h.statement hp hs
      · cases hs
  | fail t =>
      simp only [next] at hs
      split at hs
      · rename_i hp
        cases hs
        exact (h.rollback hp).reply t (by simp)
      · rename_i hp
        cases hs
        exact (h.rollback hp).reply t (by simp)
      · cases hs
  | abandon t =>
      simp only [next] at hs
      split at hs
      · rename_i call result hp
        cases hs
        have reached : s.PhaseSound G post t call (.committing result) := h.phases t call _ hp
        exact (h.settle (.abandoned result) hp reached).reply t (by simp)
      · cases hs
  | commit t =>
      simp only [next] at hs
      split at hs
      · rename_i call result hp
        cases hs
        refine h.apply hp (h.phases t call _ hp) ?_
        exact ⟨⟨t, call, result, s.rows, s.draft t⟩, List.mem_cons_self, rfl, rfl, rfl⟩
      · rename_i call result hp
        cases hs
        exact h.apply hp (h.phases t call _ hp) trivial
      · cases hs
  | drop t =>
      simp only [next] at hs
      split at hs
      · rename_i hp
        cases hs
        exact h.rollback hp
      · cases hs
  | confirm t =>
      simp only [next] at hs
      split at hs
      · rename_i call result hp
        cases hs
        have done : s.Committed t call result := h.phases t call _ hp
        refine h.advance ((h.toConsistent.enter call _).reply _)
          ((enter_others call .finished).trans (reply_others _)) (enter_phase_self call _) ?_
          trivial (fun _ hc => Or.inl hc) ?_
        · intro call' phase' hp'
          rw [hp] at hp'
          cases hp'
          rfl
        · intro t' result' hr
          rcases List.mem_append.mp hr with hold | hnew
          · exact Or.inl hold
          · cases List.mem_singleton.mp hnew
            exact Or.inr ⟨rfl, done⟩
      · cases hs
  | lose t =>
      simp only [next] at hs
      split at hs
      · rename_i hp
        cases hs
        exact (h.settle .finished hp trivial).reply t (by simp)
      · cases hs
  | move env =>
      cases hs
      exact ⟨⟨h.fresh, h.held, h.moved, h.resting⟩, h.phases, h.logged, h.answered⟩

/-- Every run of transactions that ensure their postconditions is sound. -/
theorem Sound.run {labels : List (TxnLabel τ κ ε γ)} (h : s.Sound G post)
    (ensures : ∀ call rows held,
      (program call).Ensures G (post.holds call) ⟨rows, held, fun _ => none⟩)
    (hr : Runs.Run (Step program) s labels s') : s'.Sound G post :=
  hr.invariant (fun _ _ _ hs hm => hm.step ensures hs) h

end Steps

end Database

end Sinnlos

import Sinnlos.Lib.TransactionCalls

/-! # What an answered call has done

A fact about the committed rows that lasts while rows move along the guarantee
is known to whoever was told that the call bringing it about has succeeded.
-/

namespace Sinnlos

variable {τ κ ν ε ρ α γ β : Type}

/-- The rows moved along the guarantee. -/
def Guarantee.Moved (G : Guarantee ν) (rows rows' : κ → ν) : Prop :=
  ∀ k, G.moves (rows k) (rows' k)

theorem Guarantee.Moved.refl (G : Guarantee ν) (rows : κ → ν) : G.Moved rows rows :=
  fun k => G.refl (rows k)

theorem Guarantee.Moved.trans {G : Guarantee ν} {a b c : κ → ν} (h₁ : G.Moved a b)
    (h₂ : G.Moved b c) : G.Moved a c :=
  fun k => G.trans _ _ _ (h₁ k) (h₂ k)

/-- A fact about the rows that no move takes back. -/
def Guarantee.Lasts (G : Guarantee ν) (fact : (κ → ν) → Prop) : Prop :=
  ∀ rows rows', fact rows → G.Moved rows rows' → fact rows'

/-- Facts about single rows that no move takes back. -/
def Guarantee.Keeps (G : Guarantee ν) (fact : κ → ν → Prop) : Prop :=
  ∀ k a b, fact k a → G.moves a b → fact k b

namespace Txn

/-- `UPDATE … WHERE id IN (…)`, row by row. -/
def updateEach (found : ν → Bool) (set : κ → ν → ν) : List κ → Txn κ ν ε ρ Unit
  | [] => pure ()
  | k :: keys => updateWhere k found (set k) >>= fun _ => updateEach found set keys

/-- `SELECT … WHERE id IN (…) FOR UPDATE`, row by row. -/
def lockEach (found : ν → Bool) : List κ → Txn κ ν ε ρ Unit
  | [] => pure ()
  | k :: keys => forUpdate k found >>= fun _ => lockEach found keys

theorem lockEach_quiet (found : ν → Bool) (keys : List κ) :
    (lockEach found keys : Txn κ ν ε ρ Unit).Quiet := by
  induction keys with
  | nil => trivial
  | cons k keys ih => exact fun _ => ih

end Txn

namespace Database

section Reading
variable [DecidableEq τ] [DecidableEq κ] {program : γ → Txn κ ν ε ρ α}
  {s s' : Database τ κ ν ε ρ α γ} {t : τ}

variable {call : γ}

omit [DecidableEq κ] in
theorem applied_of_update {t' : τ} {call' : γ} {phase : Phase κ ν ε ρ α} {result : α}
    (hp : Function.update s.phase t' (some (call', phase)) t = some (call, .applied result)) :
    s.phase t = some (call, .applied result) ∨ t = t' ∧ call' = call ∧ phase = .applied result := by
  by_cases heq : t = t'
  · rw [heq, Function.update_self] at hp
    cases hp
    exact Or.inr ⟨heq, rfl, rfl⟩
  · rw [Function.update_of_ne heq] at hp
    exact Or.inl hp

/-- A transaction is in the phase behind its COMMIT by the step that commits. -/
theorem Step.applied_cases {label : TxnLabel τ κ ε γ} (hs : Step program s label s') {result : α}
    (hp : s'.phase t = some (call, .applied result)) :
    s.phase t = some (call, .applied result) ∨
      s.phase t = some (call, .committing result) ∧ s'.rows = s.current t := by
  have old : ∀ {t' : τ} {call' : γ} {phase : Phase κ ν ε ρ α},
      s'.phase = Function.update s.phase t' (some (call', phase)) →
      (∀ result, phase ≠ .applied result) → s.phase t = some (call, .applied result) := by
    intro t' call' phase hphase hne
    rw [hphase] at hp
    rcases applied_of_update hp with hold | ⟨_, _, happlied⟩
    · exact hold
    · exact absurd happlied (hne result)
  unfold Step at hs
  cases label with
  | run t' key =>
      simp only [next] at hs
      split at hs
      · obtain ⟨_, hphase, hne, _⟩ := statement_leaves hs
        exact Or.inl (old hphase hne)
      · cases hs
  | commit t' =>
      simp only [next] at hs
      split at hs
      · rename_i call' result' hcommitting
        cases hs
        rcases applied_of_update (s := s.apply t' call' result') hp with hold | ⟨rfl, rfl, happlied⟩
        · exact Or.inl hold
        · cases happlied
          exact Or.inr ⟨hcommitting, rfl⟩
      · cases hs
        exact Or.inl (old rfl (by simp))
      · cases hs
  | move env =>
      simp only [next] at hs
      cases hs
      exact Or.inl hp
  | _ =>
      simp only [next] at hs
      split at hs <;>
        first
        | (cases hs; exact Or.inl (old rfl (by simp)))
        | cases hs

/-- A transaction that was begun keeps its call. -/
theorem Step.phase_kept {label : TxnLabel τ κ ε γ} (hs : Step program s label s')
    {phase : Phase κ ν ε ρ α} (hp : s.phase t = some (call, phase)) :
    ∃ phase', s'.phase t = some (call, phase') := by
  have kept : ∀ {t' : τ} {call' : γ} {phase' old : Phase κ ν ε ρ α},
      s.phase t' = some (call', old) →
      s'.phase = Function.update s.phase t' (some (call', phase')) →
      ∃ phase', s'.phase t = some (call, phase') := by
    intro t' call' phase' old hold hphase
    rw [hphase]
    by_cases heq : t = t'
    · rw [heq, Function.update_self]
      rw [heq, hold] at hp
      cases hp
      exact ⟨phase', rfl⟩
    · rw [Function.update_of_ne heq]
      exact ⟨phase, hp⟩
  unfold Step at hs
  cases label with
  | begin t' call' =>
      simp only [next] at hs
      split at hs
      · rename_i hnone
        cases hs
        have hne : t ≠ t' := by
          intro heq
          rw [heq, hnone] at hp
          cases hp
        exact ⟨phase, by simp [Database.enter, hne, hp]⟩
      · cases hs
  | run t' key =>
      simp only [next] at hs
      split at hs
      · rename_i rest hrest
        obtain ⟨_, hphase, _⟩ := statement_leaves hs
        exact kept hrest hphase
      · cases hs
  | move env =>
      simp only [next] at hs
      cases hs
      exact ⟨phase, hp⟩
  | _ =>
      simp only [next] at hs
      split at hs <;>
        first
        | (cases hs; exact kept (by assumption) rfl)
        | cases hs

end Reading

variable [DecidableEq τ] [DecidableEq κ]

/-- What a transaction relies on where the others only move rows. -/
def moving (G : Guarantee ν) : Reliance τ κ ν ε ρ α γ where
  good := Consistent G
  keeps := fun _ s s' => G.Moved s.rows s'.rows
  refl := fun _ s => .refl G s.rows
  trans := fun _ _ _ _ => Guarantee.Moved.trans
  hold := fun _ s _ _ => .refl G s.rows
  put := fun _ s _ _ _ => .refl G s.rows
  enter := fun _ s _ _ => .refl G s.rows

/-- What a call has done once it is committed. -/
abbrev Deed (κ ν γ : Type) : Type := γ → (κ → ν) → Prop

/-- Where the work of a call is done, its deed is done in the rows to commit. -/
def Deed.reached (deed : Deed κ ν γ) (call : γ) (t : τ) (_ : α)
    (s : Database τ κ ν ε ρ α γ) : Prop :=
  deed call (s.current t)

/-- What everybody may count on: sound transactions, on their way to their deeds,
and every deed of an answered call done. -/
structure Served (G : Guarantee ν) (post : Post κ ν α γ) (deed : Deed κ ν γ)
    (s : Database τ κ ν ε ρ α γ) : Prop where
  sound : s.Sound G post
  kept : Kept (moving G) deed.reached s
  applied : ∀ t call result, s.phase t = some (call, .applied result) → deed call s.rows
  answered : ∀ t call phase result, (t, Reply.ok result) ∈ s.replies →
    s.phase t = some (call, phase) → deed call s.rows

section Served
variable {G : Guarantee ν} {post : Post κ ν α γ} {deed : Deed κ ν γ}
  {program : γ → Txn κ ν ε ρ α} {s s' : Database τ κ ν ε ρ α γ}

theorem Started.served (h : s.Started G.blank) (post : Post κ ν α γ) (deed : Deed κ ν γ) :
    s.Served G post deed := by
  refine ⟨h.sound post, h.kept, ?_, ?_⟩
  · intro t call result hp
    rw [h.phase] at hp
    cases hp
  · intro t call phase result hr
    rw [h.replies] at hr
    cases hr

theorem Step.moved {label : TxnLabel τ κ ε γ} (h : s.Consistent G) (hs : Step program s label s') :
    G.Moved s.rows s'.rows :=
  fun k => hs.moves h k

theorem Served.step {label : TxnLabel τ κ ε γ} (h : s.Served G post deed)
    (ensures : ∀ call rows held,
      (program call).Ensures G (post.holds call) ⟨rows, held, fun _ => none⟩)
    (lasts : ∀ call, G.Lasts (deed call))
    (does : ∀ (t : τ) call m, (∀ k, m.draft t k = none) →
      (program call).Along (moving G) t (deed.reached call t) m)
    (hs : Step program s label s') : s'.Served G post deed := by
  have consistent := h.sound.toConsistent
  have moved := hs.moved consistent
  refine ⟨h.sound.step ensures hs,
    h.kept.step consistent consistent hs does fun _ _ => moved, ?_, ?_⟩
  · intro t call result hp
    rcases hs.applied_cases hp with hold | ⟨hcommitting, hrows⟩
    · exact lasts call _ _ (h.applied t call result hold) moved
    · have reached := h.kept.reached consistent (Or.inl hcommitting)
      rw [hrows]
      exact reached
  · intro t call phase result hr hp
    rcases hs.ok_cases hr with hold | ⟨_, call', happlied⟩
    · obtain ⟨call', phase', hbefore, _⟩ := h.sound.answered t result hold
      obtain ⟨phase'', hafter⟩ := hs.phase_kept hbefore
      rw [hp] at hafter
      cases hafter
      exact lasts call _ _ (h.answered t call phase' result hold hbefore) moved
    · obtain ⟨phase'', hafter⟩ := hs.phase_kept happlied
      rw [hp] at hafter
      cases hafter
      exact lasts call _ _ (h.applied t call result happlied) moved

end Served

end Database

/-! ## The deeds of statements -/

namespace Txn
open Database

variable [DecidableEq τ] [DecidableEq κ] {G : Guarantee ν} {t : τ}
  {s s' : Database τ κ ν ε ρ α γ}

/-- The transaction sees the row as `fact` says. -/
def SeenAs (t : τ) (fact : κ → ν → Prop) (s : Database τ κ ν ε ρ α γ) (k : κ) : Prop :=
  fact k (s.current t k)

variable {fact : κ → ν → Prop}

/-- What a row has come to stays while the others commit. -/
theorem SeenAs.onward {k : κ} (keeps : G.Keeps fact) (h : SeenAs t fact s k)
    (hs : Onward (moving G) t s s') : SeenAs t fact s' k := by
  unfold SeenAs current overlay at *
  rw [hs.draft]
  cases hd : s.draft t k with
  | none =>
      rw [hd] at h
      exact keeps k _ _ h (hs.keeps k)
  | some row =>
      rw [hd] at h
      exact h

theorem SeenAs.put {k j : κ} {row : ν} (h : j = k ∨ SeenAs t fact s j) (hrow : fact k row) :
    SeenAs t fact (s.put t k row) j := by
  unfold SeenAs current overlay at *
  by_cases heq : j = k
  · rw [heq]
    simpa [Database.put] using hrow
  · have hold := h.resolve_left heq
    simpa [Database.put, Database.hold, heq] using hold

/-- Every row of the list is found and set, or it already is as it would be set. -/
theorem updateEach_along {found : ν → Bool} {set : κ → ν → ν} (keeps : G.Keeps fact)
    (missing : ∀ k row, found row = false → fact k row) {keys : List κ}
    (becomes : ∀ k ∈ keys, ∀ row, fact k (set k row)) (h : ∀ k, k ∈ keys ∨ SeenAs t fact s k) :
    (updateEach found set keys : Txn κ ν ε ρ Unit).Along (moving G) t
      (fun _ s' => ∀ k, SeenAs t fact s' k) s := by
  induction keys generalizing s with
  | nil =>
      intro s' hs _ k
      have hk := (h k).resolve_left List.not_mem_nil
      exact hk.onward keeps hs
  | cons k keys ih =>
      have rest : ∀ j ∈ keys, ∀ row, fact j (set j row) := fun j hj =>
        becomes j (List.mem_cons_of_mem k hj)
      have own := becomes k List.mem_cons_self
      apply along_updateWhere
      · intro s' hs _ hfound _
        apply ih rest
        intro j
        rcases h j with hmem | hseen
        · rcases List.mem_cons.mp hmem with rfl | hrest
          · exact Or.inr (.put (Or.inl rfl) (own _))
          · exact Or.inl hrest
        · exact Or.inr (.put (Or.inr (hseen.onward keeps hs)) (own _))
      · intro s' hs _ hmissing
        apply ih rest
        intro j
        rcases h j with hmem | hseen
        · rcases List.mem_cons.mp hmem with rfl | hrest
          · exact Or.inr (missing _ _ hmissing)
          · exact Or.inl hrest
        · exact Or.inr (hseen.onward keeps hs)

end Txn

end Sinnlos

import Sinnlos.Lib.TransactionLog
import Sinnlos.Lib.TransactionRely

/-! # The calls of a run

Every transaction of a run was begun with its call, so a property of the calls
that are begun is one of the transactions under way and of the commits. The
rows there have been so far are the moments of a database.
-/

namespace Sinnlos

variable {τ κ ν ε ρ α γ : Type}

/-- A transaction that the label begins has a call with this property. -/
def TxnLabel.Begins (P : γ → Prop) (label : TxnLabel τ κ ε γ) : Prop :=
  ∀ t call, label = .begin t call → P call

namespace Database

variable {program : γ → Txn κ ν ε ρ α} {s s' : Database τ κ ν ε ρ α γ}

/-- Every call under way or committed has this property. -/
structure CallsMeet (P : γ → Prop) (s : Database τ κ ν ε ρ α γ) : Prop where
  underWay : ∀ t call phase, s.phase t = some (call, phase) → P call
  committed : ∀ commit ∈ s.log, P commit.call

theorem Started.callsMeet {blank : ν} (h : s.Started blank) (P : γ → Prop) : s.CallsMeet P := by
  refine ⟨?_, ?_⟩
  · intro t call phase hp
    rw [h.phase] at hp
    cases hp
  · intro commit hc
    rw [h.log] at hc
    cases hc

/-- The committed rows there have been, the latest first. -/
def moments (s : Database τ κ ν ε ρ α γ) : List (κ → ν) := s.rows :: s.log.map Commit.before

variable [DecidableEq τ] {t : τ} {call : γ} {t' : τ} {call' : γ} {phase phase' : Phase κ ν ε ρ α}

theorem call_of_update {old : Phase κ ν ε ρ α} (hold : s.phase t = some (call, old))
    (hp : Function.update s.phase t (some (call, phase)) t' = some (call', phase')) :
    ∃ phase'', s.phase t' = some (call', phase'') := by
  by_cases heq : t' = t
  · rw [heq, Function.update_self] at hp
    cases hp
    exact ⟨old, heq ▸ hold⟩
  · rw [Function.update_of_ne heq] at hp
    exact ⟨phase', hp⟩

variable [DecidableEq κ]

theorem statement_call {key : κ} {rest : Txn κ ν ε ρ α}
    (hold : s.phase t = some (call, .working rest)) (hs : s.statement t call key rest = some s')
    (hp : s'.phase t' = some (call', phase')) : ∃ phase'', s.phase t' = some (call', phase'') := by
  obtain ⟨_, hphase, _⟩ := statement_leaves hs
  exact call_of_update hold (hphase ▸ hp)

variable {label : TxnLabel τ κ ε γ}

/-- A transaction keeps its call from its begin on. -/
theorem Step.call_cases (hs : Step program s label s') (hp : s'.phase t = some (call, phase)) :
    label = .begin t call ∨ ∃ phase', s.phase t = some (call, phase') := by
  unfold Step at hs
  cases label with
  | begin t' call' =>
      simp only [next] at hs
      split at hs
      · cases hs
        by_cases heq : t = t'
        · rw [heq] at hp ⊢
          have hentered : some (call', _) = some (call, phase) :=
            (enter_phase_self call' _).symm.trans hp
          cases hentered
          exact Or.inl rfl
        · have hother : s.phase t = some (call, phase) := by
            simpa [Database.enter, heq] using hp
          exact Or.inr ⟨phase, hother⟩
      · cases hs
  | run t' key =>
      simp only [next] at hs
      split at hs
      · rename_i hold
        exact Or.inr (statement_call hold hs hp)
      · cases hs
  | move env =>
      simp only [next] at hs
      cases hs
      exact Or.inr ⟨phase, hp⟩
  | _ =>
      simp only [next] at hs
      split at hs <;>
        first
        | (cases hs; exact Or.inr (call_of_update (by assumption) hp))
        | cases hs

theorem CallsMeet.step {P : γ → Prop} (h : s.CallsMeet P) (hs : Step program s label s')
    (begins : label.Begins P) : s'.CallsMeet P := by
  refine ⟨?_, ?_⟩
  · intro t call phase hp
    rcases hs.call_cases hp with rfl | ⟨phase', hold⟩
    · exact begins t call rfl
    · exact h.underWay t call phase' hold
  · intro commit hc
    rcases hs.commit_cases with ⟨_, hlog⟩ | ⟨t, call, result, _, _, _, hlog, hp⟩
    · rw [hlog] at hc
      exact h.committed commit hc
    · rw [hlog] at hc
      rcases List.mem_cons.mp hc with rfl | hold
      · rcases hp with hp | hp
        · exact h.underWay t call _ hp
        · exact h.underWay t call _ hp
      · exact h.committed commit hold

end Database

end Sinnlos

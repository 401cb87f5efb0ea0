import Mathlib.Logic.Basic
import Mathlib.Order.Basic
import Mathlib.Data.List.Basic
import Mathlib.Data.List.Induction

/-! # Runs of a labelled transition relation

Finite runs with their labels, and the rules by which a property of one step
becomes a property of every run: invariants, invariants of runs whose labels
are restricted, and preorders that every step respects. Nothing here depends on
what the states or the labels are.
-/

namespace Sinnlos.Runs

universe u v
variable {σ : Type u} {α : Type v} {step : σ → α → σ → Prop}

/-- `Run step s labels t`: the labels lead from `s` to `t`, one step each. -/
inductive Run (step : σ → α → σ → Prop) : σ → List α → σ → Prop
  | refl (s : σ) : Run step s [] s
  | cons {s t r : σ} {a : α} {labels : List α} :
      step s a t → Run step t labels r → Run step s (a :: labels) r

/-- Some run from an initial state ends in `s`. -/
def Reachable (init : σ → Prop) (step : σ → α → σ → Prop) (s : σ) : Prop :=
  ∃ first labels, init first ∧ Run step first labels s

theorem Run.single {s t : σ} {a : α} (h : step s a t) : Run step s [a] t :=
  .cons h (.refl t)

theorem Run.append {s t r : σ} {first second : List α}
    (h₁ : Run step s first t) (h₂ : Run step t second r) : Run step s (first ++ second) r := by
  induction h₁ with
  | refl _ => exact h₂
  | cons hs _ ih => exact .cons hs (ih h₂)

theorem Run.snoc {s t r : σ} {a : α} {labels : List α}
    (h : Run step s labels t) (hs : step t a r) : Run step s (labels ++ [a]) r :=
  h.append (.single hs)

/-- Cut a run between two label lists. -/
theorem Run.split {s r : σ} {first second : List α} (h : Run step s (first ++ second) r) :
    ∃ t, Run step s first t ∧ Run step t second r := by
  induction first generalizing s with
  | nil => exact ⟨s, .refl s, h⟩
  | cons a first ih =>
      cases h with
      | cons hs hr =>
          obtain ⟨t, h₁, h₂⟩ := ih hr
          exact ⟨t, .cons hs h₁, h₂⟩

theorem run_nil_iff {s t : σ} : Run step s [] t ↔ s = t := by
  constructor
  · intro h
    cases h
    rfl
  · intro h
    subst h
    exact .refl s

/-- Induction over a run from its end: the last step comes apart. -/
theorem Run.snocInduction {s : σ} {motive : List α → σ → Prop}
    (refl : motive [] s)
    (snoc : ∀ labels t a r, Run step s labels t → motive labels t → step t a r →
      motive (labels ++ [a]) r)
    {labels : List α} {t : σ} (h : Run step s labels t) : motive labels t := by
  induction labels using List.reverseRecOn generalizing t with
  | nil =>
      rw [run_nil_iff] at h
      exact h ▸ refl
  | append_singleton labels a ih =>
      obtain ⟨m, h₁, h₂⟩ := h.split
      cases h₂ with
      | cons hs hr =>
          rw [run_nil_iff] at hr
          subst hr
          exact snoc labels m a _ h₁ (ih h₁) hs

theorem Reachable.refl (init : σ → Prop) {s : σ} (h : init s) : Reachable init step s :=
  ⟨s, [], h, .refl s⟩

theorem Reachable.run {init : σ → Prop} {s t : σ} {labels : List α}
    (h : Reachable init step s) (hr : Run step s labels t) : Reachable init step t := by
  obtain ⟨first, before, hi, hb⟩ := h
  exact ⟨first, before ++ labels, hi, hb.append hr⟩

theorem Reachable.next {init : σ → Prop} {s t : σ} {a : α}
    (h : Reachable init step s) (hs : step s a t) : Reachable init step t :=
  h.run (.single hs)

theorem Run.restrict (step' : σ → α → σ → Prop) {s t : σ} {labels : List α}
    (h : Run step s labels t) (holds : ∀ a ∈ labels, ∀ s t, step s a t → step' s a t) :
    Run step' s labels t := by
  induction h with
  | refl s => exact .refl s
  | cons hs _ ih =>
      rw [List.forall_mem_cons] at holds
      exact .cons (holds.1 _ _ hs) (ih holds.2)

/-- Where a step has one outcome, so has a run. -/
theorem Run.unique (functional : ∀ s a t t', step s a t → step s a t' → t = t')
    {s t t' : σ} {labels : List α} (h : Run step s labels t) (h' : Run step s labels t') :
    t = t' := by
  induction h with
  | refl s => exact run_nil_iff.mp h'
  | cons hs _ ih =>
      cases h' with
      | cons hs' hr' =>
          have hmid := functional _ _ _ _ hs hs'
          subst hmid
          exact ih hr'

/-! ## Computed runs -/

/-- Follow a step function along its labels. -/
def follow (next : σ → α → Option σ) : σ → List α → Option σ
  | s, [] => some s
  | s, a :: labels => (next s a).bind fun t => follow next t labels

theorem run_of_follow {next : σ → α → Option σ} {s t : σ} {labels : List α}
    (h : follow next s labels = some t) : Run (fun s a t => next s a = some t) s labels t := by
  induction labels generalizing s with
  | nil =>
      cases h
      exact .refl _
  | cons a labels ih =>
      obtain ⟨m, hm, hrest⟩ := Option.bind_eq_some_iff.mp h
      exact .cons hm (ih hrest)

/-! ## The invariant rules -/

/-- What every step preserves holds at the end of every run. -/
theorem Run.invariant {P : σ → Prop} (preserved : ∀ s a t, step s a t → P s → P t)
    {s t : σ} {labels : List α} (h : Run step s labels t) (hs : P s) : P t := by
  induction h with
  | refl _ => exact hs
  | cons h₁ _ ih => exact ih (preserved _ _ _ h₁ hs)

/-- The same for runs all of whose labels satisfy `Q`. -/
theorem Run.invariant_of_labels {P : σ → Prop} {Q : α → Prop}
    (preserved : ∀ s a t, Q a → step s a t → P s → P t)
    {s t : σ} {labels : List α} (h : Run step s labels t) (hq : ∀ a ∈ labels, Q a)
    (hs : P s) : P t := by
  induction h with
  | refl _ => exact hs
  | cons h₁ _ ih =>
      rw [List.forall_mem_cons] at hq
      exact ih hq.2 (preserved _ _ _ hq.1 h₁ hs)

/-- A property of every state that a run with these labels goes through. -/
def Throughout (step : σ → α → σ → Prop) (P : σ → Prop) (s : σ) (labels : List α) : Prop :=
  ∀ before after t, labels = before ++ after → Run step s before t → P t

theorem Throughout.tail {P : σ → Prop} {s t : σ} {a : α} {labels : List α}
    (h : Throughout step P s (a :: labels)) (hs : step s a t) : Throughout step P t labels := by
  intro before after r heq hr
  exact h (a :: before) after r (by rw [heq, List.cons_append]) (.cons hs hr)

/-- What a step preserves in states of one kind, where all states are of that kind. -/
theorem Run.invariant_throughout {P Q : σ → Prop}
    (preserved : ∀ s a t, P s → step s a t → Q s → Q t)
    {s t : σ} {labels : List α} (h : Run step s labels t) (through : Throughout step P s labels)
    (hs : Q s) : Q t := by
  induction h with
  | refl _ => exact hs
  | cons h₁ _ ih =>
      have hfirst := through [] _ _ rfl (.refl _)
      exact ih (through.tail h₁) (preserved _ _ _ hfirst h₁ hs)

/-- An invariant of every reachable state. -/
theorem Reachable.invariant {init : σ → Prop} {P : σ → Prop} (base : ∀ s, init s → P s)
    (preserved : ∀ s a t, step s a t → P s → P t) {s : σ} (h : Reachable init step s) : P s := by
  obtain ⟨first, labels, hi, hr⟩ := h
  exact hr.invariant preserved (base first hi)

/-- A reflexive and transitive relation that every step respects, given an
invariant, relates the two ends of every run. -/
theorem Run.relates {P : σ → Prop} {R : σ → σ → Prop} (rfl' : ∀ s, R s s)
    (trans : ∀ s t r, R s t → R t r → R s r)
    (preserved : ∀ s a t, step s a t → P s → P t)
    (respects : ∀ s a t, step s a t → P s → R s t)
    {s t : σ} {labels : List α} (h : Run step s labels t) (hs : P s) : R s t := by
  induction h with
  | refl s => exact rfl' s
  | cons h₁ _ ih => exact trans _ _ _ (respects _ _ _ h₁ hs) (ih (preserved _ _ _ h₁ hs))

/-- What held and no longer holds was ended by one step of the run. -/
theorem Run.exists_ending_step {P : σ → Prop} {s t : σ} {labels : List α}
    (h : Run step s labels t) (hs : P s) (ht : ¬ P t) :
    ∃ u a w, a ∈ labels ∧ step u a w ∧ P u ∧ ¬ P w := by
  induction h with
  | refl _ => exact absurd hs ht
  | @cons s m r a labels h₁ _ ih =>
      by_cases hm : P m
      · obtain ⟨u, b, w, hb, hstep, hu, hw⟩ := ih hm ht
        exact ⟨u, b, w, List.mem_cons_of_mem _ hb, hstep, hu, hw⟩
      · exact ⟨s, a, m, List.mem_cons_self, h₁, hs, hm⟩

end Sinnlos.Runs

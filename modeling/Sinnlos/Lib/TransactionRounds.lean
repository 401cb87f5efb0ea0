import Sinnlos.Lib.TransactionAnswers

/-! # Workers that read and call in rounds

A worker reads committed rows outside any transaction, sends the calls it makes
of them one by one, each once the one before it has succeeded, and reads again.
A read or a call that fails ends its work. Any number of workers share a
database. What a worker knows at a stage holds there on every run, if moves keep
it and one round carries it to the next stage.
-/

namespace Sinnlos

variable {ω σ κ ν ε ρ α γ : Type}

/-- What a worker does at each stage of its work. -/
structure Rounds (σ κ ν γ : Type) where
  finished : σ → Bool
  /-- The calls it makes of what it reads, and the stage behind them. -/
  read : σ → View κ ν → List γ × σ

inductive Duty (σ γ : Type)
  | reading (stage : σ)
  | sending (call : γ) (calls : List γ) (next : σ)
  /-- The transaction of this number is under way for the first call. -/
  | awaiting (number : Nat) (call : γ) (calls : List γ) (next : σ)
  | failed
deriving DecidableEq

namespace Duty

def after (calls : List γ) (next : σ) : Duty σ γ :=
  match calls with
  | [] => .reading next
  | call :: calls => .sending call calls next

/-- The calls it has not sent yet. -/
def unsent : Duty σ γ → Nat
  | .reading _ => 0
  | .sending _ calls _ => calls.length + 1
  | .awaiting _ _ calls _ => calls.length
  | .failed => 0

@[simp] theorem unsent_after (calls : List γ) (next : σ) :
    (after calls next).unsent = calls.length := by
  cases calls <;> rfl

theorem after_ne (calls : List γ) (stage : σ) :
    ∀ number call rest next, after calls stage ≠ .awaiting number call rest next := by
  cases calls <;> simp [after]

end Duty

structure Worker (σ γ : Type) where
  duty : Duty σ γ
  /-- The reads that succeeded. -/
  reads : Nat
  /-- The transactions it has begun; they are numbered in their order. -/
  begun : Nat

def Worker.fresh (stage : σ) : Worker σ γ := ⟨.reading stage, 0, 0⟩

/-- A database and who works on it; a worker's transactions are numbered. -/
structure Crew (ω σ κ ν ε ρ α γ : Type) where
  db : Database (ω × Nat) κ ν ε ρ α γ
  worker : ω → Worker σ γ

inductive CrewLabel (ω κ ε γ : Type)
  /-- A step of a transaction under way. -/
  | database (label : TxnLabel (ω × Nat) κ ε γ)
  | read (w : ω)
  | failRead (w : ω)
  | send (w : ω)
  | hear (w : ω)

def TxnLabel.isBegin {τ : Type} : TxnLabel τ κ ε γ → Bool
  | .begin _ _ => true
  | _ => false

namespace Crew

variable [DecidableEq ω]

def set (s : Crew ω σ κ ν ε ρ α γ) (w : ω) (worker : Worker σ γ) : Crew ω σ κ ν ε ρ α γ :=
  { s with worker := Function.update s.worker w worker }

/-- The first reply to a transaction. -/
def reply? (s : Crew ω σ κ ν ε ρ α γ) (t : ω × Nat) : Option (Reply ρ α) :=
  (s.db.replies.find? fun answer => answer.1 = t).map Prod.snd

@[simp] theorem set_db (s : Crew ω σ κ ν ε ρ α γ) (w : ω) (worker : Worker σ γ) :
    (s.set w worker).db = s.db := rfl

@[simp] theorem set_worker_self (s : Crew ω σ κ ν ε ρ α γ) (w : ω) (worker : Worker σ γ) :
    (s.set w worker).worker w = worker := by
  simp [set]

theorem set_worker_of_ne (s : Crew ω σ κ ν ε ρ α γ) {w v : ω} (worker : Worker σ γ) (h : v ≠ w) :
    (s.set w worker).worker v = s.worker v := by
  simp [set, h]

theorem mem_of_reply? {s : Crew ω σ κ ν ε ρ α γ} {t : ω × Nat} {reply : Reply ρ α}
    (h : s.reply? t = some reply) : (t, reply) ∈ s.db.replies := by
  obtain ⟨answer, hfound, rfl⟩ := Option.map_eq_some_iff.mp h
  have hsame : answer.1 = t := by simpa using List.find?_some hfound
  rw [← hsame]
  exact List.mem_of_find?_eq_some hfound

/-- How the duty goes on once its call is answered. -/
def heard (calls : List γ) (next : σ) : Reply ρ α → Duty σ γ
  | .ok _ => .after calls next
  | _ => .failed

variable [DecidableEq κ]

def next (rounds : ω → Rounds σ κ ν γ) (program : γ → Txn κ ν ε ρ α)
    (s : Crew ω σ κ ν ε ρ α γ) : CrewLabel ω κ ε γ → Option (Crew ω σ κ ν ε ρ α γ)
  | .database label =>
      if label.isBegin then none
      else (s.db.next program label).map fun db => { s with db := db }
  | .read w =>
      match (s.worker w).duty with
      | .reading stage =>
          if (rounds w).finished stage then none
          else
            let found := (rounds w).read stage ⟨s.db.keys, s.db.rows⟩
            some (s.set w ⟨.after found.1 found.2, (s.worker w).reads + 1, (s.worker w).begun⟩)
      | _ => none
  | .failRead w =>
      match (s.worker w).duty with
      | .reading stage =>
          if (rounds w).finished stage then none
          else some (s.set w ⟨.failed, (s.worker w).reads, (s.worker w).begun⟩)
      | _ => none
  | .send w =>
      match (s.worker w).duty with
      | .sending call calls stage =>
          let number := (s.worker w).begun
          (s.db.next program (.begin (w, number) call)).map fun db =>
            { s with db := db }.set w
              ⟨.awaiting number call calls stage, (s.worker w).reads, number + 1⟩
      | _ => none
  | .hear w =>
      match (s.worker w).duty with
      | .awaiting number _ calls stage =>
          (s.reply? (w, number)).map fun reply =>
            s.set w ⟨heard calls stage reply, (s.worker w).reads, (s.worker w).begun⟩
      | _ => none

def Step (rounds : ω → Rounds σ κ ν γ) (program : γ → Txn κ ν ε ρ α)
    (s : Crew ω σ κ ν ε ρ α γ) (label : CrewLabel ω κ ε γ) (s' : Crew ω σ κ ν ε ρ α γ) : Prop :=
  s.next rounds program label = some s'

/-- What a step does. -/
inductive Takes (rounds : ω → Rounds σ κ ν γ) (program : γ → Txn κ ν ε ρ α)
    (s : Crew ω σ κ ν ε ρ α γ) : CrewLabel ω κ ε γ → Crew ω σ κ ν ε ρ α γ → Prop
  | database (label : TxnLabel (ω × Nat) κ ε γ) (db : Database (ω × Nat) κ ν ε ρ α γ)
      (ongoing : label.isBegin = false) (step : s.db.Step program label db) :
      Takes rounds program s (.database label) { s with db := db }
  | read (w : ω) (stage : σ) (calls : List γ) (next : σ)
      (duty : (s.worker w).duty = .reading stage) (unfinished : (rounds w).finished stage = false)
      (found : (rounds w).read stage ⟨s.db.keys, s.db.rows⟩ = (calls, next)) :
      Takes rounds program s (.read w)
        (s.set w ⟨.after calls next, (s.worker w).reads + 1, (s.worker w).begun⟩)
  | failRead (w : ω) (stage : σ) (duty : (s.worker w).duty = .reading stage) :
      Takes rounds program s (.failRead w)
        (s.set w ⟨.failed, (s.worker w).reads, (s.worker w).begun⟩)
  | send (w : ω) (call : γ) (calls : List γ) (stage : σ)
      (db : Database (ω × Nat) κ ν ε ρ α γ)
      (duty : (s.worker w).duty = .sending call calls stage)
      (step : s.db.Step program (.begin (w, (s.worker w).begun) call) db) :
      Takes rounds program s (.send w)
        ({ s with db := db }.set w ⟨.awaiting (s.worker w).begun call calls stage,
          (s.worker w).reads, (s.worker w).begun + 1⟩)
  | hear (w : ω) (number : Nat) (call : γ) (calls : List γ) (stage : σ) (reply : Reply ρ α)
      (duty : (s.worker w).duty = .awaiting number call calls stage)
      (answer : ((w, number), reply) ∈ s.db.replies) :
      Takes rounds program s (.hear w)
        (s.set w ⟨heard calls stage reply, (s.worker w).reads, (s.worker w).begun⟩)

theorem Step.takes {rounds : ω → Rounds σ κ ν γ} {program : γ → Txn κ ν ε ρ α}
    {s s' : Crew ω σ κ ν ε ρ α γ} {label : CrewLabel ω κ ε γ}
    (hs : Step rounds program s label s') : Takes rounds program s label s' := by
  unfold Step at hs
  cases label with
  | database label =>
      simp only [next] at hs
      split at hs
      · cases hs
      · next hbegin =>
          obtain ⟨db, hdb, rfl⟩ := Option.map_eq_some_iff.mp hs
          exact .database label db (Bool.eq_false_iff.mpr hbegin) hdb
  | read w =>
      simp only [next] at hs
      split at hs
      · next stage hduty =>
          split at hs
          · cases hs
          · next hunfinished =>
              cases hs
              exact .read w stage _ _ hduty (Bool.eq_false_iff.mpr hunfinished) rfl
      · cases hs
  | failRead w =>
      simp only [next] at hs
      split at hs
      · next stage hduty =>
          split at hs
          · cases hs
          · cases hs
            exact .failRead w stage hduty
      · cases hs
  | send w =>
      simp only [next] at hs
      split at hs
      · next call calls stage hduty =>
          obtain ⟨db, hdb, rfl⟩ := Option.map_eq_some_iff.mp hs
          exact .send w call calls stage db hduty hdb
      · cases hs
  | hear w =>
      simp only [next] at hs
      split at hs
      · next number call calls stage hduty =>
          obtain ⟨reply, hreply, rfl⟩ := Option.map_eq_some_iff.mp hs
          exact .hear w number call calls stage reply hduty (mem_of_reply? hreply)
      · cases hs

/-! ## What a worker knows -/

section Rules
variable {G : Guarantee ν} {post : Database.Post κ ν α γ} {deed : Database.Deed κ ν γ}
  {program : γ → Txn κ ν ε ρ α} {rounds : ω → Rounds σ κ ν γ} {s s' : Crew ω σ κ ν ε ρ α γ}
  {label : CrewLabel ω κ ε γ}

/-- The database serves its workers, and a worker waits for its own call. -/
structure Manned (G : Guarantee ν) (post : Database.Post κ ν α γ) (deed : Database.Deed κ ν γ)
    (s : Crew ω σ κ ν ε ρ α γ) : Prop where
  served : s.db.Served G post deed
  underWay : ∀ w number call calls stage,
    (s.worker w).duty = .awaiting number call calls stage →
      ∃ phase, s.db.phase (w, number) = some (call, phase)
  /-- The numbers that were not given out have no transaction. -/
  unused : ∀ w number, (s.worker w).begun ≤ number → s.db.phase (w, number) = none

/-- Programs that keep the guarantee and reach their deeds, which last. -/
structure Serving (ω : Type) [DecidableEq ω] (G : Guarantee ν) (post : Database.Post κ ν α γ) (deed : Database.Deed κ ν γ)
    (program : γ → Txn κ ν ε ρ α) : Prop where
  ensures : ∀ call rows held, (program call).Ensures G (post.holds call) ⟨rows, held, fun _ => none⟩
  lasts : ∀ call, G.Lasts (deed call)
  does : ∀ (t : ω × Nat) call (m : Database (ω × Nat) κ ν ε ρ α γ), (∀ k, m.draft t k = none) →
    (program call).Along (Database.moving G) t (deed.reached call t) m

/-- What is known at each stage, after so many reads and calls: moves keep it, and
a round whose calls are done carries it on, within the bounds. -/
structure RoundRule (G : Guarantee ν) (deed : Database.Deed κ ν γ) (rounds : Rounds σ κ ν γ)
    (maxReads maxCalls : Nat) (P : σ → Nat → Nat → (κ → ν) → Prop) : Prop where
  lasts : ∀ stage reads begun, G.Lasts (P stage reads begun)
  bounds : ∀ stage reads begun rows keys, P stage reads begun rows →
    rounds.finished stage = false → (∀ k, k ∉ keys → rows k = G.blank) →
      reads + 1 ≤ maxReads ∧ begun + (rounds.read stage ⟨keys, rows⟩).1.length ≤ maxCalls
  round : ∀ stage reads begun rows keys, P stage reads begun rows →
    rounds.finished stage = false → (∀ k, k ∉ keys → rows k = G.blank) →
      ∀ rows', G.Moved rows rows' →
        (∀ call ∈ (rounds.read stage ⟨keys, rows⟩).1, deed call rows') →
        P (rounds.read stage ⟨keys, rows⟩).2 (reads + 1)
          (begun + (rounds.read stage ⟨keys, rows⟩).1.length) rows'

/-- Once these calls are done, what is known at the next stage will hold. -/
def Promise (G : Guarantee ν) (deed : Database.Deed κ ν γ) (P : (κ → ν) → Prop)
    (calls : List γ) (rows : κ → ν) : Prop :=
  ∀ rows', G.Moved rows rows' → (∀ call ∈ calls, deed call rows') → P rows'

/-- What is known of a worker: of its stage, or of the stage its calls lead to. -/
def Knows (G : Guarantee ν) (deed : Database.Deed κ ν γ) (P : σ → Nat → Nat → (κ → ν) → Prop)
    (worker : Worker σ γ) (rows : κ → ν) : Prop :=
  match worker.duty with
  | .reading stage => P stage worker.reads worker.begun rows
  | .sending call calls next =>
      Promise G deed (P next worker.reads (worker.begun + (calls.length + 1))) (call :: calls) rows
  | .awaiting _ call calls next =>
      Promise G deed (P next worker.reads (worker.begun + calls.length)) (call :: calls) rows
  | .failed => True

omit [DecidableEq κ] in
theorem Promise.later {P : (κ → ν) → Prop} {calls : List γ} {rows rows' : κ → ν}
    (h : Promise G deed P calls rows) (moved : G.Moved rows rows') :
    Promise G deed P calls rows' :=
  fun rows'' moved' done => h rows'' (moved.trans moved') done

omit [DecidableEq κ] in
/-- A call that is done need not be waited for. -/
theorem Promise.tail {P : (κ → ν) → Prop} {call : γ} {calls : List γ} {rows : κ → ν}
    (h : Promise G deed P (call :: calls) rows) (lasts : G.Lasts (deed call))
    (done : deed call rows) : Promise G deed P calls rows := by
  intro rows' moved rest
  apply h rows' moved
  intro c hc
  rcases List.mem_cons.mp hc with rfl | hc
  · exact lasts _ _ done moved
  · exact rest c hc

omit [DecidableEq κ] in
/-- Where the calls are behind it, a worker knows what they lead to. -/
theorem Promise.after {P : σ → Nat → Nat → (κ → ν) → Prop} {calls : List γ} {stage : σ}
    {rows : κ → ν} {reads begun : Nat}
    (h : Promise G deed (P stage reads (begun + calls.length)) calls rows) :
    Knows G deed P ⟨.after calls stage, reads, begun⟩ rows := by
  cases calls with
  | nil => exact h rows (.refl G rows) (by simp)
  | cons call calls => exact h

omit [DecidableEq κ] in
theorem Knows.later {P : σ → Nat → Nat → (κ → ν) → Prop} {worker : Worker σ γ} {rows rows' : κ → ν}
    (lasts : ∀ stage reads begun, G.Lasts (P stage reads begun)) (h : Knows G deed P worker rows)
    (moved : G.Moved rows rows') : Knows G deed P worker rows' := by
  unfold Knows at *
  cases hduty : worker.duty with
  | reading stage =>
      rw [hduty] at h
      exact lasts _ _ _ _ _ h moved
  | sending call calls next | awaiting number call calls next =>
      rw [hduty] at h
      exact Promise.later h moved
  | failed => trivial

/-- A worker that knows what its stage says has kept within its bounds. -/
structure Working (G : Guarantee ν) (deed : Database.Deed κ ν γ) (maxReads maxCalls : Nat)
    (P : σ → Nat → Nat → (κ → ν) → Prop) (worker : Worker σ γ) (rows : κ → ν) : Prop where
  knows : Knows G deed P worker rows
  reads : worker.reads ≤ maxReads
  calls : worker.begun + worker.duty.unsent ≤ maxCalls

/-- The committed rows only move. -/
theorem Step.moved (h : s.Manned G post deed) (hs : Step rounds program s label s') :
    G.Moved s.db.rows s'.db.rows := by
  have consistent := h.served.sound.toConsistent
  cases hs.takes with
  | database label db ongoing step => exact step.moved consistent
  | send w call calls stage db duty step => exact Database.Step.moved consistent step
  | read w stage calls next duty unfinished found | failRead w stage duty
  | hear w number call calls stage reply duty answer => exact .refl G _

/-- The log goes on linking the first rows to those there are. -/
theorem Step.linked {first : κ → ν} (hs : Step rounds program s label s')
    (h : Database.Linked first s.db.log s.db.rows) : Database.Linked first s'.db.log s'.db.rows := by
  cases hs.takes with
  | database label db ongoing step => exact step.linked h
  | send w call calls stage db duty step => exact Database.Step.linked step h
  | _ => exact h

/-- A worker that stops waiting, or never did, leaves the database as it is. -/
theorem Manned.set (h : s.Manned G post deed) {w : ω} {duty : Duty σ γ}
    (resting : ∀ number call calls stage, duty ≠ .awaiting number call calls stage) (reads : Nat) :
    (s.set w ⟨duty, reads, (s.worker w).begun⟩).Manned G post deed := by
  refine ⟨h.served, ?_, ?_⟩
  · intro v number call calls stage hduty
    by_cases hv : v = w
    · rw [hv, set_worker_self] at hduty
      exact absurd hduty (resting number call calls stage)
    · rw [set_worker_of_ne s _ hv] at hduty
      exact h.underWay v number call calls stage hduty
  · intro v number hle
    by_cases hv : v = w
    · rw [hv, set_worker_self] at hle
      rw [hv]
      exact h.unused w number hle
    · rw [set_worker_of_ne s _ hv] at hle
      exact h.unused v number hle

omit [DecidableEq ω] [DecidableEq κ] in
theorem heard_ne (calls : List γ) (stage : σ) (reply : Reply ρ α) :
    ∀ number call rest next, heard calls stage reply ≠ .awaiting number call rest next := by
  cases reply with
  | ok result => exact Duty.after_ne calls stage
  | _ => simp [heard]

theorem begin_cases {τ : Type} [DecidableEq τ] {db db' : Database τ κ ν ε ρ α γ} {t : τ} {call : γ}
    (hs : db.Step program (.begin t call) db') :
    db.phase t = none ∧ db' = db.enter t call (.working (program call)) := by
  simp only [Database.Step, Database.next] at hs
  split at hs
  · next hnone =>
      cases hs
      exact ⟨hnone, rfl⟩
  · cases hs

theorem Manned.send (h : s.Manned G post deed) {w : ω} {call : γ} {calls : List γ} {stage : σ}
    {db : Database (ω × Nat) κ ν ε ρ α γ} (served : db.Served G post deed)
    (step : s.db.Step program (.begin (w, (s.worker w).begun) call) db) :
    (({ s with db := db } : Crew ω σ κ ν ε ρ α γ).set w
      ⟨.awaiting (s.worker w).begun call calls stage, (s.worker w).reads,
        (s.worker w).begun + 1⟩).Manned G post deed := by
  obtain ⟨-, rfl⟩ := begin_cases step
  refine ⟨served, ?_, ?_⟩
  · intro v number call' calls' stage' hduty
    by_cases hv : v = w
    · rw [hv, set_worker_self] at hduty
      cases hduty
      rw [hv]
      exact ⟨_, Database.enter_phase_self call _⟩
    · rw [set_worker_of_ne _ _ hv] at hduty
      obtain ⟨phase, hphase⟩ := h.underWay v number call' calls' stage' hduty
      exact Database.Step.phase_kept step hphase
  · intro v number hle
    have hne : (v, number) ≠ (w, (s.worker w).begun) := by
      intro heq
      cases heq
      rw [set_worker_self] at hle
      exact absurd hle (Nat.not_succ_le_self _)
    have hold : (s.worker v).begun ≤ number := by
      by_cases hv : v = w
      · rw [hv, set_worker_self] at hle
        rw [hv]
        exact Nat.le_of_succ_le hle
      · rwa [set_worker_of_ne _ _ hv] at hle
    simpa [Database.enter, hne] using h.unused v number hold

theorem Manned.step (h : s.Manned G post deed) (serving : Serving ω G post deed program)
    (hs : Step rounds program s label s') : s'.Manned G post deed := by
  have served : ∀ {label db}, s.db.Step program label db → db.Served G post deed := fun step =>
    h.served.step serving.ensures serving.lasts serving.does step
  cases hs.takes with
  | database label db ongoing step =>
      refine ⟨served step, ?_, ?_⟩
      · intro w number call calls stage hduty
        obtain ⟨phase, hphase⟩ := h.underWay w number call calls stage hduty
        exact step.phase_kept hphase
      · intro w number hle
        cases hphase : db.phase (w, number) with
        | none => rfl
        | some entry =>
            rcases step.call_cases hphase with rfl | ⟨phase, hold⟩
            · cases ongoing
            · rw [h.unused w number hle] at hold
              cases hold
  | read w stage calls next duty unfinished found => exact h.set (Duty.after_ne calls next) _
  | failRead w stage duty => exact h.set (by simp) _
  | send w call calls stage db duty step => exact h.send (served step) step
  | hear w number call calls stage reply duty answer => exact h.set (heard_ne calls stage reply) _

/-- The calls of an answered worker have done their deeds. -/
theorem Manned.done (h : s.Manned G post deed) {w : ω} {number : Nat} {call : γ} {calls : List γ}
    {stage : σ} {result : α} (duty : (s.worker w).duty = .awaiting number call calls stage)
    (answer : ((w, number), Reply.ok result) ∈ s.db.replies) : deed call s.db.rows := by
  obtain ⟨phase, hphase⟩ := h.underWay w number call calls stage duty
  exact h.served.answered _ call phase result answer hphase

section Working
variable {maxReads maxCalls : Nat} {P : σ → Nat → Nat → (κ → ν) → Prop} {w : ω}

omit [DecidableEq ω] [DecidableEq κ] in
theorem Working.later {worker : Worker σ γ} {rows rows' : κ → ν}
    (lasts : ∀ stage reads begun, G.Lasts (P stage reads begun))
    (h : Working G deed maxReads maxCalls P worker rows) (moved : G.Moved rows rows') :
    Working G deed maxReads maxCalls P worker rows' :=
  ⟨h.knows.later lasts moved, h.reads, h.calls⟩

theorem Working.read (rule : RoundRule G deed (rounds w) maxReads maxCalls P)
    (manned : s.Manned G post deed)
    (h : Working G deed maxReads maxCalls P (s.worker w) s.db.rows) {stage next : σ}
    {calls : List γ} (duty : (s.worker w).duty = .reading stage)
    (unfinished : (rounds w).finished stage = false)
    (found : (rounds w).read stage ⟨s.db.keys, s.db.rows⟩ = (calls, next)) :
    Working G deed maxReads maxCalls P
      ⟨.after calls next, (s.worker w).reads + 1, (s.worker w).begun⟩ s.db.rows := by
  have known : P stage (s.worker w).reads (s.worker w).begun s.db.rows := by
    have hknows := h.knows
    unfold Knows at hknows
    rwa [duty] at hknows
  have fresh : ∀ k, k ∉ s.db.keys → s.db.rows k = G.blank := fun k hk =>
    (manned.served.sound.fresh k hk).1
  have bounds := rule.bounds stage _ _ _ s.db.keys known unfinished fresh
  have carried := rule.round stage _ _ _ s.db.keys known unfinished fresh
  rw [found] at bounds carried
  refine ⟨Promise.after carried, bounds.1, ?_⟩
  rw [Duty.unsent_after]
  exact bounds.2

omit [DecidableEq ω] [DecidableEq κ] in
theorem Working.send (h : Working G deed maxReads maxCalls P (s.worker w) s.db.rows) {call : γ}
    {calls : List γ} {stage : σ} (duty : (s.worker w).duty = .sending call calls stage)
    (number : Nat) :
    Working G deed maxReads maxCalls P
      ⟨.awaiting number call calls stage, (s.worker w).reads, (s.worker w).begun + 1⟩
      s.db.rows := by
  have knows := h.knows
  have hcalls := h.calls
  unfold Knows at knows
  rw [duty] at knows hcalls
  refine ⟨?_, h.reads, ?_⟩
  · show Promise G deed _ (call :: calls) s.db.rows
    have hsum : (s.worker w).begun + (calls.length + 1) =
        (s.worker w).begun + 1 + calls.length := by
      omega
    rw [← hsum]
    exact knows
  · simp only [Duty.unsent] at hcalls ⊢
    omega

theorem Working.hear (lasts : ∀ call, G.Lasts (deed call)) (manned : s.Manned G post deed)
    (h : Working G deed maxReads maxCalls P (s.worker w) s.db.rows) {number : Nat} {call : γ}
    {calls : List γ} {stage : σ} {reply : Reply ρ α}
    (duty : (s.worker w).duty = .awaiting number call calls stage)
    (answer : ((w, number), reply) ∈ s.db.replies) :
    Working G deed maxReads maxCalls P
      ⟨heard calls stage reply, (s.worker w).reads, (s.worker w).begun⟩ s.db.rows := by
  have knows := h.knows
  have hcalls := h.calls
  unfold Knows at knows
  rw [duty] at knows hcalls
  cases reply with
  | ok result =>
      have rest := Promise.tail knows (lasts call) (manned.done duty answer)
      refine ⟨Promise.after rest, h.reads, ?_⟩
      show _ + (Duty.after calls stage).unsent ≤ maxCalls
      rw [Duty.unsent_after]
      exact hcalls
  | _ => exact ⟨trivial, h.reads, Nat.le_trans (Nat.le_add_right _ _) hcalls⟩

/-- What a worker knows holds on. -/
theorem Working.step (rule : RoundRule G deed (rounds w) maxReads maxCalls P)
    (serving : Serving ω G post deed program) (manned : s.Manned G post deed)
    (hs : Step rounds program s label s')
    (h : Working G deed maxReads maxCalls P (s.worker w) s.db.rows) :
    Working G deed maxReads maxCalls P (s'.worker w) s'.db.rows := by
  have moved := hs.moved manned
  have other : ∀ {v : ω} {worker : Worker σ γ} {m : Crew ω σ κ ν ε ρ α γ}, m.worker = s.worker →
      (v = w → Working G deed maxReads maxCalls P worker m.db.rows) →
      G.Moved s.db.rows m.db.rows →
      Working G deed maxReads maxCalls P ((m.set v worker).worker w) m.db.rows := by
    intro v worker m hm hself hmoved
    by_cases hv : w = v
    · rw [hv, set_worker_self]
      exact hself hv.symm
    · rw [set_worker_of_ne m worker hv, hm]
      exact h.later rule.lasts hmoved
  cases hs.takes with
  | database label db ongoing step => exact h.later rule.lasts moved
  | read v stage calls next duty unfinished found =>
      refine other rfl ?_ moved
      rintro rfl
      exact h.read rule manned duty unfinished found
  | failRead v stage duty =>
      refine other rfl ?_ moved
      rintro rfl
      exact ⟨trivial, h.reads, Nat.le_trans (Nat.le_add_right _ _) h.calls⟩
  | send v call calls stage db duty step =>
      refine other rfl ?_ moved
      rintro rfl
      exact (h.send duty _).later rule.lasts moved
  | hear v number call calls stage reply duty answer =>
      refine other rfl ?_ moved
      rintro rfl
      exact h.hear serving.lasts manned duty answer

/-- A run keeps the crew at work, and what a worker knows. -/
theorem Working.run {labels : List (CrewLabel ω κ ε γ)}
    (rule : RoundRule G deed (rounds w) maxReads maxCalls P)
    (serving : Serving ω G post deed program) (manned : s.Manned G post deed)
    (h : Working G deed maxReads maxCalls P (s.worker w) s.db.rows)
    (run : Runs.Run (Step rounds program) s labels s') :
    s'.Manned G post deed ∧ Working G deed maxReads maxCalls P (s'.worker w) s'.db.rows := by
  refine run.invariant (P := fun m => m.Manned G post deed ∧
    Working G deed maxReads maxCalls P (m.worker w) m.db.rows) ?_ ⟨manned, h⟩
  intro m label m' hs hm
  exact ⟨hm.1.step serving hs, hm.2.step rule serving hm.1 hs⟩

end Working

/-! ## Whole runs -/

/-- Nobody has begun to work. -/
structure Rests (blank : ν) (start : ω → σ) (s : Crew ω σ κ ν ε ρ α γ) : Prop where
  db : s.db.Started blank
  fresh : ∀ w, s.worker w = .fresh (start w)

theorem Rests.manned {start : ω → σ} (h : s.Rests G.blank start) (post : Database.Post κ ν α γ)
    (deed : Database.Deed κ ν γ) : s.Manned G post deed := by
  refine ⟨h.db.served post deed, ?_, ?_⟩
  · intro w number call calls stage hduty
    rw [h.fresh w] at hduty
    cases hduty
  · intro w number _
    exact h.db.phase _

omit [DecidableEq κ] in
/-- A worker that has not begun knows what its first stage says. -/
theorem Working.fresh {maxReads maxCalls : Nat} {P : σ → Nat → Nat → (κ → ν) → Prop} {stage : σ}
    {rows : κ → ν} (h : P stage 0 0 rows) :
    Working G deed maxReads maxCalls P (Worker.fresh stage) rows :=
  ⟨h, Nat.zero_le _, Nat.zero_le _⟩

/-- A worker can go on unless it has failed or finished, or its transaction is
still under way. -/
theorem Manned.goesOn (rounds : ω → Rounds σ κ ν γ) (program : γ → Txn κ ν ε ρ α)
    (h : s.Manned G post deed) (w : ω) :
    (s.worker w).duty = .failed ∨
      (∃ stage, (s.worker w).duty = .reading stage ∧ (rounds w).finished stage = true) ∨
      (∃ number call calls stage, (s.worker w).duty = .awaiting number call calls stage ∧
        s.reply? (w, number) = none) ∨
      ∃ label ∈ [CrewLabel.read w, .send w, .hear w], ∃ s', Step rounds program s label s' := by
  cases hduty : (s.worker w).duty with
  | failed => exact Or.inl rfl
  | reading stage =>
      cases hfinished : (rounds w).finished stage with
      | true => exact Or.inr (Or.inl ⟨stage, rfl, hfinished⟩)
      | false =>
          refine Or.inr (Or.inr (Or.inr ⟨.read w, by simp, ?_⟩))
          simp only [Step, next, hduty, hfinished]
          exact ⟨_, rfl⟩
  | sending call calls stage =>
      refine Or.inr (Or.inr (Or.inr ⟨.send w, by simp, ?_⟩))
      have hunused := h.unused w _ (Nat.le_refl _)
      simp only [Step, next, hduty, Database.next, hunused]
      exact ⟨_, rfl⟩
  | awaiting number call calls stage =>
      cases hreply : s.reply? (w, number) with
      | none => exact Or.inr (Or.inr (Or.inl ⟨number, call, calls, stage, rfl, hreply⟩))
      | some reply =>
          refine Or.inr (Or.inr (Or.inr ⟨.hear w, by simp, ?_⟩))
          simp only [Step, next, hduty, hreply]
          exact ⟨_, rfl⟩

end Rules

end Crew

end Sinnlos

import Sinnlos.Lib.TransactionSoundness

/-! # What a transaction may rely on

`Txn.Along` checks one program against the whole database instead of single
rows: between its statements the others may do whatever the reliance allows, so
that a fact about many rows can be kept by a lock that all who could break it
take. Where every step of the others is within the reliance, every commit has
reached its postcondition.
-/

namespace Sinnlos

variable {τ κ ν ε ρ α γ β δ : Type}

/-- Facts about the database that always hold, and what the steps of the others
leave to a transaction. -/
structure Reliance (τ κ ν ε ρ α γ : Type) [DecidableEq τ] [DecidableEq κ] where
  good : Database τ κ ν ε ρ α γ → Prop
  keeps : τ → Database τ κ ν ε ρ α γ → Database τ κ ν ε ρ α γ → Prop
  refl : ∀ t s, keeps t s s
  trans : ∀ t a b c, keeps t a b → keeps t b c → keeps t a c
  hold : ∀ t s k, s.free t k = true → keeps t s (s.hold t k)
  put : ∀ t s k row, s.free t k = true → keeps t s (s.put t k row)
  enter : ∀ t s call phase, keeps t s (s.enter t call phase)

namespace Database

variable {s : Database τ κ ν ε ρ α γ} {k : κ} {t : τ}

/-- What the transaction sees of a row it has not changed. -/
theorem current_of_draft_none (h : s.draft t k = none) : s.current t k = s.rows k := by
  simp [current, overlay, h]

theorem current_of_draft_some {row : ν} (h : s.draft t k = some row) : s.current t k = row := by
  simp [current, overlay, h]

variable [DecidableEq τ] [DecidableEq κ] {R : Reliance τ κ ν ε ρ α γ} {t : τ}

/-- From `s` to `s'` the transaction wrote nothing: it may hold more, and the
others did what it relies on. -/
structure Onward (R : Reliance τ κ ν ε ρ α γ) (t : τ) (s s' : Database τ κ ν ε ρ α γ) : Prop where
  draft : s'.draft t = s.draft t
  held : ∀ k, s.holder k = some t → s'.holder k = some t
  rows : ∀ k, s.holder k = some t → s'.rows k = s.rows k
  keeps : R.keeps t s s'

theorem Onward.refl (R : Reliance τ κ ν ε ρ α γ) (t : τ) (s : Database τ κ ν ε ρ α γ) :
    Onward R t s s :=
  ⟨rfl, fun _ h => h, fun _ _ => rfl, R.refl t s⟩

theorem Onward.trans {a b c : Database τ κ ν ε ρ α γ} (h₁ : Onward R t a b)
    (h₂ : Onward R t b c) : Onward R t a c := by
  refine ⟨h₂.draft.trans h₁.draft, ?_, ?_, R.trans t a b c h₁.keeps h₂.keeps⟩
  · intro k hk
    exact h₂.held k (h₁.held k hk)
  · intro k hk
    rw [h₂.rows k (h₁.held k hk), h₁.rows k hk]

theorem Onward.hold {s' : Database τ κ ν ε ρ α γ} (h : Onward R t s s')
    (free : s'.free t k = true) : Onward R t s (s'.hold t k) := by
  refine h.trans ⟨rfl, ?_, fun _ _ => rfl, R.hold t s' k free⟩
  intro j hj
  unfold Database.hold
  by_cases hjk : j = k
  · simp [hjk]
  · simp [hjk, hj]

end Database

open Database

namespace Txn

/-! ## Programs known by what they write -/

/-- The program inserts nothing, and its updates change rows as `ok` says. -/
def Writes (ok : κ → ν → ν → Prop) : Txn κ ν ε ρ β → Prop
  | .ret _ => True
  | .refuse _ => True
  | .lock _ _ next => ∀ b, (next b).Writes ok
  | .read next => ∀ view, (next view).Writes ok
  | .update k found set next =>
      (∀ row, found row = true → ok k row (set row)) ∧ ∀ b, (next b).Writes ok
  | .create _ _ _ => False
  | .observe next => ∀ e, (next e).Writes ok

variable {p : Txn κ ν ε ρ β} {f : β → Txn κ ν ε ρ δ}

theorem Writes.bind {ok : κ → ν → ν → Prop} (hp : p.Writes ok)
    (hf : ∀ result, (f result).Writes ok) : (p >>= f).Writes ok := by
  show (Txn.bind p f).Writes ok
  induction p with
  | ret result => exact hf result
  | refuse _ => trivial
  | lock k found next ih => exact fun b => ih b (hp b)
  | read next ih => exact fun view => ih view (hp view)
  | update k found set next ih => exact ⟨hp.1, fun b => ih b (hp.2 b)⟩
  | create _ _ _ _ => exact hp.elim
  | observe next ih => exact fun e => ih e (hp e)

/-! ## Programs among others -/

variable [DecidableEq τ] [DecidableEq κ]

/-- Whatever the others do between its statements, where the program returns it
has reached `Q`. -/
def Along (R : Reliance τ κ ν ε ρ α γ) (t : τ) : Txn κ ν ε ρ β →
    (β → Database τ κ ν ε ρ α γ → Prop) → Database τ κ ν ε ρ α γ → Prop
  | .ret result, Q, s => ∀ s', Onward R t s s' → R.good s' → Q result s'
  | .refuse _, _, _ => True
  | .lock k found next, Q, s => ∀ s', Onward R t s s' → R.good s' →
      (found (s'.current t k) = true → s'.free t k = true → (next true).Along R t Q (s'.hold t k)) ∧
      (found (s'.current t k) = false → (next false).Along R t Q s')
  | .read next, Q, s => ∀ s', Onward R t s s' → R.good s' → (next (s'.view t)).Along R t Q s'
  | .update k found set next, Q, s => ∀ s', Onward R t s s' → R.good s' →
      (found (s'.current t k) = true → s'.free t k = true →
        (next true).Along R t Q (s'.put t k (set (s'.current t k)))) ∧
      (found (s'.current t k) = false → (next false).Along R t Q s')
  | .create kind row next, Q, s => ∀ s', Onward R t s s' → R.good s' → ∀ k, kind k = true →
      k ∉ s'.keys → s'.free t k = true → (next k).Along R t Q (s'.put t k row)
  | .observe next, Q, s => ∀ s', Onward R t s s' → R.good s' → (next s'.env).Along R t Q s'

variable {R : Reliance τ κ ν ε ρ α γ} {t : τ} {Q : β → Database τ κ ν ε ρ α γ → Prop}
  {s : Database τ κ ν ε ρ α γ}

/-- What the others do before the next statement is accounted for. -/
theorem Along.onward {s' : Database τ κ ν ε ρ α γ} (h : p.Along R t Q s) (hs : Onward R t s s') :
    p.Along R t Q s' := by
  cases p with
  | refuse _ => trivial
  | ret result | lock k found next | read next | update k found set next | create kind row next
  | observe next =>
      intro m hm
      exact h m (hs.trans hm)

theorem Along.of_onward (h : ∀ s', Onward R t s s' → R.good s' → p.Along R t Q s') :
    p.Along R t Q s := by
  cases p with
  | refuse _ => trivial
  | ret result | lock k found next | read next | update k found set next | create kind row next
  | observe next =>
      intro m hm good
      exact h m hm good m (.refl R t m) good

/-- A program in sequence with another, where the second starts from what the first
reaches. -/
theorem Along.bind_of {Q₀ : β → Database τ κ ν ε ρ α γ → Prop}
    {Q : δ → Database τ κ ν ε ρ α γ → Prop} (h : p.Along R t Q₀ s)
    (rest : ∀ result m, (∀ m', Onward R t m m' → R.good m' → Q₀ result m') →
      (f result).Along R t Q m) : (p >>= f).Along R t Q s := by
  show (Txn.bind p f).Along R t Q s
  induction p generalizing s with
  | ret result => exact rest result s h
  | refuse _ => trivial
  | lock k found next ih =>
      intro m hm good
      obtain ⟨h₁, h₂⟩ := h m hm good
      exact ⟨fun hf free => ih true (h₁ hf free), fun hf => ih false (h₂ hf)⟩
  | read next ih =>
      intro m hm good
      exact ih _ (h m hm good)
  | update k found set next ih =>
      intro m hm good
      obtain ⟨h₁, h₂⟩ := h m hm good
      exact ⟨fun hf free => ih true (h₁ hf free), fun hf => ih false (h₂ hf)⟩
  | create kind row next ih =>
      intro m hm good k hk fresh free
      exact ih k (h m hm good k hk fresh free)
  | observe next ih =>
      intro m hm good
      exact ih _ (h m hm good)

/-- The first reaches what the second needs. -/
theorem Along.bind {Q : δ → Database τ κ ν ε ρ α γ → Prop}
    (h : p.Along R t (fun result s' => (f result).Along R t Q s') s) : (p >>= f).Along R t Q s :=
  h.bind_of fun _ _ hm => Along.of_onward hm

theorem Along.mono {Q' : β → Database τ κ ν ε ρ α γ → Prop} (h : p.Along R t Q s)
    (weaker : ∀ result m, R.good m → Q result m → Q' result m) : p.Along R t Q' s := by
  rw [← p.bind_ret]
  exact h.bind_of fun result m hm m' hs good => weaker result m' good (hm m' hs good)

/-- A quiet program takes the database onward. -/
theorem Quiet.along (h : p.Quiet) (s : Database τ κ ν ε ρ α γ) :
    p.Along R t (fun _ s' => Onward R t s s') s := by
  have onto : ∀ m, Onward R t s m → p.Along R t (fun _ s' => Onward R t s s') m := by
    induction p with
    | ret _ =>
        intro m hm r hr _
        exact hm.trans hr
    | refuse _ =>
        intro m _
        trivial
    | lock k found next ih =>
        intro m hm r hr _
        have hmr := hm.trans hr
        exact ⟨fun _ free => ih true (h true) _ (hmr.hold free), fun _ => ih false (h false) r hmr⟩
    | read next ih =>
        intro m hm r hr _
        exact ih _ (h _) r (hm.trans hr)
    | update _ _ _ _ _ => exact h.elim
    | create _ _ _ _ => exact h.elim
    | observe next ih =>
        intro m hm r hr _
        exact ih _ (h _) r (hm.trans hr)
  exact onto s (.refl R t s)

/-! ## The rules for single statements -/

section Rules
variable {f : Bool → Txn κ ν ε ρ β} {Q : β → Database τ κ ν ε ρ α γ → Prop}
  {s : Database τ κ ν ε ρ α γ}

theorem along_quiet {p : Txn κ ν ε ρ δ} {f : δ → Txn κ ν ε ρ β} (quiet : p.Quiet)
    (h : ∀ result s', Onward R t s s' → (f result).Along R t Q s') : (p >>= f).Along R t Q s :=
  Along.bind ((quiet.along s).mono fun result s' _ hs => h result s' hs)

theorem along_select {f : View κ ν → Txn κ ν ε ρ β}
    (h : ∀ s', Onward R t s s' → R.good s' → (f (s'.view t)).Along R t Q s') :
    (select >>= f).Along R t Q s := h

theorem along_ask {f : ε → Txn κ ν ε ρ β}
    (h : ∀ s', Onward R t s s' → R.good s' → (f s'.env).Along R t Q s') :
    (ask >>= f).Along R t Q s := h

variable {k : κ} {found : ν → Bool}

theorem along_forUpdate
    (locked : ∀ s', Onward R t s s' → R.good s' → found (s'.current t k) = true →
      s'.free t k = true → (f true).Along R t Q (s'.hold t k))
    (missing : ∀ s', Onward R t s s' → R.good s' → found (s'.current t k) = false →
      (f false).Along R t Q s') : (forUpdate k found >>= f).Along R t Q s := by
  intro s' hs good
  exact ⟨locked s' hs good, missing s' hs good⟩

theorem along_updateWhere {set : ν → ν}
    (changed : ∀ s', Onward R t s s' → R.good s' → found (s'.current t k) = true →
      s'.free t k = true → (f true).Along R t Q (s'.put t k (set (s'.current t k))))
    (missing : ∀ s', Onward R t s s' → R.good s' → found (s'.current t k) = false →
      (f false).Along R t Q s') : (updateWhere k found set >>= f).Along R t Q s := by
  intro s' hs good
  exact ⟨changed s' hs good, missing s' hs good⟩

theorem along_insert {kind : κ → Bool} {row : ν} {f : κ → Txn κ ν ε ρ β}
    (h : ∀ s', Onward R t s s' → R.good s' → ∀ k, kind k = true → k ∉ s'.keys →
      s'.free t k = true → (f k).Along R t Q (s'.put t k row)) :
    (insert kind row >>= f).Along R t Q s := h

end Rules

/-! ## What such programs leave behind -/

/-- What the transaction changed, it changed as `ok` says, on rows it holds. -/
def Drafted (ok : κ → ν → ν → Prop) (t : τ) (s : Database τ κ ν ε ρ α γ) : Prop :=
  ∀ k row, s.draft t k = some row → s.holder k = some t ∧ ok k (s.rows k) row

section Drafts
variable {ok : κ → ν → ν → Prop} {s s' : Database τ κ ν ε ρ α γ}

theorem Drafted.onward (h : Drafted ok t s) (hs : Onward R t s s') : Drafted ok t s' := by
  intro k row hrow
  rw [hs.draft] at hrow
  obtain ⟨held, hok⟩ := h k row hrow
  rw [hs.rows k held]
  exact ⟨hs.held k held, hok⟩

omit [DecidableEq τ] in
theorem Drafted.hold (h : Drafted ok t s) (k : κ) : Drafted ok t (s.hold t k) := by
  intro j row hrow
  obtain ⟨held, hok⟩ := h j row hrow
  refine ⟨?_, hok⟩
  unfold Database.hold
  by_cases hj : j = k
  · simp [hj]
  · simp [hj, held]

theorem Drafted.put (h : Drafted ok t s) (trans : ∀ k a b c, ok k a b → ok k b c → ok k a c)
    {k : κ} {row : ν} (hok : ok k (s.current t k) row) : Drafted ok t (s.put t k row) := by
  intro j row' hrow
  by_cases hj : j = k
  · subst hj
    simp only [Database.put, Function.update_self, Option.some.injEq] at hrow
    subst hrow
    refine ⟨by simp [Database.put, Database.hold], ?_⟩
    show ok j (s.rows j) row
    cases hd : s.draft t j with
    | none =>
        rw [current_of_draft_none hd] at hok
        exact hok
    | some mid =>
        rw [current_of_draft_some hd] at hok
        exact trans j _ _ _ (h j mid hd).2 hok
  · simp only [Database.put, Function.update_self, Function.update_of_ne hj] at hrow
    obtain ⟨held, hok'⟩ := h j row' hrow
    refine ⟨?_, hok'⟩
    simp [Database.put, Database.hold, hj, held]

/-- A program known by its writes leaves a draft of such writes. -/
theorem Writes.along (hp : p.Writes ok) (trans : ∀ k a b c, ok k a b → ok k b c → ok k a c)
    (h : Drafted ok t s) : p.Along R t (fun _ s' => Drafted ok t s' ∧ R.keeps t s s') s := by
  have onto : ∀ m, Drafted ok t m → R.keeps t s m →
      p.Along R t (fun _ s' => Drafted ok t s' ∧ R.keeps t s s') m := by
    clear h
    induction p with
    | ret _ =>
        intro m hm hk r hr _
        exact ⟨hm.onward hr, R.trans t s m r hk hr.keeps⟩
    | refuse _ =>
        intro m _ _
        trivial
    | lock k found next ih =>
        intro m hm hk r hr _
        have hkr := R.trans t s m r hk hr.keeps
        refine ⟨?_, fun _ => ih false (hp false) r (hm.onward hr) hkr⟩
        intro _ free
        exact ih true (hp true) _ ((hm.onward hr).hold k) (R.trans t s r _ hkr (R.hold t r k free))
    | read next ih =>
        intro m hm hk r hr _
        exact ih _ (hp _) r (hm.onward hr) (R.trans t s m r hk hr.keeps)
    | update k found set next ih =>
        intro m hm hk r hr _
        have hkr := R.trans t s m r hk hr.keeps
        refine ⟨?_, fun _ => ih false (hp.2 false) r (hm.onward hr) hkr⟩
        intro hf free
        exact ih true (hp.2 true) _ ((hm.onward hr).put trans (hp.1 _ hf))
          (R.trans t s r _ hkr (R.put t r k _ free))
    | create _ _ _ _ => exact hp.elim
    | observe next ih =>
        intro m hm hk r hr _
        exact ih _ (hp _) r (hm.onward hr) (R.trans t s m r hk hr.keeps)
  exact onto s h (R.refl t s)

end Drafts

end Txn

/-! ## Every commit reaches its postcondition -/

/-- Whose locks and changes a step may touch. -/
def TxnLabel.worker : TxnLabel τ κ ε γ → Option τ
  | .begin t _ => some t
  | .run t _ => some t
  | .fail t => some t
  | .commit t => some t
  | .drop t => some t
  | _ => none

namespace Database

variable [DecidableEq τ] [DecidableEq κ] {R : Reliance τ κ ν ε ρ α γ} {G : Guarantee ν}
  {program : γ → Txn κ ν ε ρ α} {post : γ → τ → α → Database τ κ ν ε ρ α γ → Prop}
  {s s' : Database τ κ ν ε ρ α γ} {t : τ} {call : γ} {label : TxnLabel τ κ ε γ}
  {phase : Phase κ ν ε ρ α} {key : κ} {rest : Txn κ ν ε ρ α}

/-- A statement leaves the other transactions where they are. -/
theorem statement_others (hs : s.statement t call key rest = some s') : Others G t s s' := by
  cases rest <;> simp only [Database.statement] at hs
  case ret result =>
    cases hs
    exact enter_others call _
  case refuse refusal =>
    cases hs
    exact (release_others.trans (enter_others call _)).trans (reply_others _)
  case lock k found next =>
    split at hs
    · split at hs
      · rename_i free
        cases hs
        exact (hold_others free).trans (enter_others call _)
      · cases hs
    · cases hs
      exact enter_others call _
  case read next =>
    cases hs
    exact enter_others call _
  case update k found set next =>
    split at hs
    · split at hs
      · rename_i free
        cases hs
        exact (put_others _ free).trans (enter_others call _)
      · cases hs
    · cases hs
      exact enter_others call _
  case create kind row next =>
    split at hs
    · rename_i fits
      cases hs
      simp only [Bool.and_eq_true] at fits
      exact (put_others row fits.2).trans (enter_others call _)
    · cases hs
  case observe next =>
    cases hs
    exact enter_others call _

theorem Step.others (consistent : s.Consistent G) (hs : Step program s label s')
    (ht : label.worker = some t) : Others G t s s' := by
  unfold Step at hs
  cases label <;> simp only [TxnLabel.worker] at ht <;> cases ht <;> simp only [next] at hs
  case begin call =>
    split at hs
    · cases hs
      exact enter_others call _
    · cases hs
  case run key =>
    split at hs
    · exact statement_others hs
    · cases hs
  case fail =>
    split at hs
    · cases hs
      exact (release_others.trans (enter_others _ _)).trans (reply_others _)
    · cases hs
      exact (release_others.trans (enter_others _ _)).trans (reply_others _)
    · cases hs
  case commit =>
    split at hs
    · cases hs
      exact (apply_others consistent _ _).trans (enter_others _ _)
    · cases hs
      exact (apply_others consistent _ _).trans (enter_others _ _)
    · cases hs
  case drop =>
    split at hs
    · cases hs
      exact release_others.trans (enter_others _ _)
    · cases hs

/-- A step of no worker changes no rows, locks or drafts. -/
theorem Step.idle (hs : Step program s label s') (ht : label.worker = none) :
    s'.rows = s.rows ∧ s'.holder = s.holder ∧ s'.draft = s.draft ∧ s'.log = s.log := by
  unfold Step at hs
  cases label with
  | move env =>
      cases hs
      exact ⟨rfl, rfl, rfl, rfl⟩
  | abandon _ | confirm _ | lose _ =>
      simp only [next] at hs
      split at hs <;> cases hs
      exact ⟨rfl, rfl, rfl, rfl⟩
  | _ => cases ht

/-- The phase after such a step: the one before it, or the answer was given. -/
theorem Step.idle_phase (hs : Step program s label s') (ht : label.worker = none)
    (hp : s'.phase t = some (call, phase)) :
    s.phase t = some (call, phase) ∨ phase = .finished ∨
      ∃ result, phase = .abandoned result ∧ s.phase t = some (call, .committing result) := by
  have settled : ∀ {other : τ} {call' : γ} {phase' : Phase κ ν ε ρ α}
      {m : Database τ κ ν ε ρ α γ}, m.phase = Function.update s.phase other (some (call', phase')) →
      m.phase t = some (call, phase) →
      s.phase t = some (call, phase) ∨ t = other ∧ call = call' ∧ phase = phase' := by
    intro other call' phase' m hm hmp
    rw [hm] at hmp
    by_cases heq : t = other
    · subst heq
      rw [Function.update_self] at hmp
      cases hmp
      exact Or.inr ⟨rfl, rfl, rfl⟩
    · rw [Function.update_of_ne heq] at hmp
      exact Or.inl hmp
  unfold Step at hs
  cases label with
  | move env =>
      cases hs
      exact Or.inl hp
  | abandon other =>
      simp only [next] at hs
      split at hs
      · rename_i call' result hother
        cases hs
        rcases settled rfl hp with hold | ⟨rfl, rfl, rfl⟩
        · exact Or.inl hold
        · exact Or.inr (Or.inr ⟨result, rfl, hother⟩)
      · cases hs
  | confirm other | lose other =>
      simp only [next] at hs
      split at hs
      · cases hs
        rcases settled rfl hp with hold | ⟨_, _, hdone⟩
        · exact Or.inl hold
        · exact Or.inr (Or.inl hdone)
      · cases hs
  | _ => cases ht

/-- A step of another transaction, or of none, leaves `t` its draft, its locks
and the rows under them. -/
theorem Step.untouched (consistent : s.Consistent G) (hs : Step program s label s')
    (ht : label.worker ≠ some t) :
    s'.draft t = s.draft t ∧ ∀ k, s.holder k = some t →
      s'.holder k = some t ∧ s'.rows k = s.rows k := by
  cases hw : label.worker with
  | none =>
      obtain ⟨hrows, hholder, hdraft, _⟩ := hs.idle hw
      refine ⟨by rw [hdraft], ?_⟩
      intro k hk
      rw [hholder, hrows]
      exact ⟨hk, rfl⟩
  | some other =>
      have hne : t ≠ other := by
        intro heq
        rw [hw, heq] at ht
        exact ht rfl
      have later := (hs.others consistent hw).later t hne
      refine ⟨later.changes, ?_⟩
      intro k hk
      have hheld := congrFun later.held k
      exact ⟨cast hheld.symm hk, later.kept k hk⟩

/-- Such a step is within the reliance where it keeps what the reliance asks. -/
theorem Step.onward (consistent : s.Consistent G) (hs : Step program s label s')
    (ht : label.worker ≠ some t) (keeps : R.keeps t s s') : Onward R t s s' := by
  obtain ⟨hdraft, hheld⟩ := hs.untouched consistent ht
  exact ⟨hdraft, fun k hk => (hheld k hk).1, fun k hk => (hheld k hk).2, keeps⟩

/-- What is known of a transaction at each phase. -/
def PhaseKept (R : Reliance τ κ ν ε ρ α γ)
    (post : γ → τ → α → Database τ κ ν ε ρ α γ → Prop) (s : Database τ κ ν ε ρ α γ) (t : τ)
    (call : γ) : Phase κ ν ε ρ α → Prop
  | .working rest => rest.Along R t (post call t) s
  | .committing result => (Txn.ret result : Txn κ ν ε ρ α).Along R t (post call t) s
  | .abandoned result => (Txn.ret result : Txn κ ν ε ρ α).Along R t (post call t) s
  | .applied _ => True
  | .finished => True

def Kept (R : Reliance τ κ ν ε ρ α γ) (post : γ → τ → α → Database τ κ ν ε ρ α γ → Prop)
    (s : Database τ κ ν ε ρ α γ) : Prop :=
  ∀ t call phase, s.phase t = some (call, phase) → PhaseKept R post s t call phase

theorem PhaseKept.onward (h : PhaseKept R post s t call phase) (hs : Onward R t s s') :
    PhaseKept R post s' t call phase := by
  cases phase with
  | working rest | committing result | abandoned result => exact Txn.Along.onward h hs
  | applied result => trivial
  | finished => trivial

theorem onward_enter (R : Reliance τ κ ν ε ρ α γ) (t : τ) (s : Database τ κ ν ε ρ α γ) (call : γ)
    (phase : Phase κ ν ε ρ α) : Onward R t s (s.enter t call phase) :=
  ⟨rfl, fun _ h => h, fun _ _ => rfl, R.enter t s call phase⟩

/-- The worker of a statement is where its program says. -/
theorem PhaseKept.statement (good : R.good s) (h : rest.Along R t (post call t) s)
    (hs : s.statement t call key rest = some s') :
    ∃ phase, s'.phase t = some (call, phase) ∧ PhaseKept R post s' t call phase := by
  have own := h
  cases rest <;> simp only [Database.statement] at hs
  case ret result =>
    cases hs
    exact ⟨_, enter_phase_self call _, own.onward (onward_enter R t s call _)⟩
  case refuse refusal =>
    cases hs
    exact ⟨.finished, enter_phase_self call _, trivial⟩
  case lock k found next =>
    obtain ⟨locked, missing⟩ := own s (.refl R t s) good
    cases hf : found (s.current t k) with
    | true =>
        simp only [hf, if_true] at hs
        split at hs
        · rename_i free
          cases hs
          exact ⟨_, enter_phase_self call _, (locked hf free).onward (onward_enter R t _ call _)⟩
        · cases hs
    | false =>
        simp only [hf, Bool.false_eq_true, if_false] at hs
        cases hs
        exact ⟨_, enter_phase_self call _, (missing hf).onward (onward_enter R t s call _)⟩
  case read next =>
    cases hs
    exact ⟨_, enter_phase_self call _,
      (own s (.refl R t s) good).onward (onward_enter R t s call _)⟩
  case update k found set next =>
    obtain ⟨changed, missing⟩ := own s (.refl R t s) good
    cases hf : found (s.current t k) with
    | true =>
        simp only [hf, if_true] at hs
        split at hs
        · rename_i free
          cases hs
          exact ⟨_, enter_phase_self call _, (changed hf free).onward (onward_enter R t _ call _)⟩
        · cases hs
    | false =>
        simp only [hf, Bool.false_eq_true, if_false] at hs
        cases hs
        exact ⟨_, enter_phase_self call _, (missing hf).onward (onward_enter R t s call _)⟩
  case create kind row next =>
    split at hs
    · rename_i fits
      cases hs
      simp only [Bool.and_eq_true, Bool.not_eq_true'] at fits
      have fresh : key ∉ s.keys := by simpa using fits.1.2
      exact ⟨_, enter_phase_self call _,
        (own s (.refl R t s) good key fits.1.1 fresh fits.2).onward (onward_enter R t _ call _)⟩
    · cases hs
  case observe next =>
    cases hs
    exact ⟨_, enter_phase_self call _,
      (own s (.refl R t s) good).onward (onward_enter R t s call _)⟩

/-- The worker of a step. -/
theorem Kept.own (h : Kept R post s) (consistent : s.Consistent G) (good : R.good s)
    (hs : Step program s label s')
    (start : ∀ t call m, (∀ k, m.draft t k = none) → (program call).Along R t (post call t) m)
    (ht : label.worker = some t) (hp : s'.phase t = some (call, phase)) :
    PhaseKept R post s' t call phase := by
  unfold Step at hs
  cases label <;> simp only [TxnLabel.worker] at ht <;> cases ht <;> simp only [next] at hs
  case begin call' =>
    split at hs
    · rename_i hnone
      cases hs
      rw [enter_phase_self] at hp
      cases hp
      apply start
      intro k
      exact congrFun (consistent.resting t hnone) k
    · cases hs
  case run key =>
    split at hs
    · rename_i call' rest hrest
      obtain ⟨phase', hp', hkept⟩ := PhaseKept.statement good (h t call' _ hrest) hs
      rw [hp'] at hp
      cases hp
      exact hkept
    · cases hs
  all_goals
    split at hs <;> cases hs <;>
      (simp only [Database.reply, enter_phase_self] at hp; cases hp; trivial)

/-- A transaction that is not the worker of the step. -/
theorem Kept.aside (h : Kept R post s) (consistent : s.Consistent G)
    (hs : Step program s label s') (ht : label.worker ≠ some t) (keeps : R.keeps t s s')
    (hp : s'.phase t = some (call, phase)) : PhaseKept R post s' t call phase := by
  have onward := hs.onward consistent ht keeps
  have same : s'.phase t = s.phase t → PhaseKept R post s' t call phase := by
    intro heq
    rw [heq] at hp
    exact (h t call phase hp).onward onward
  cases hw : label.worker with
  | some other =>
      apply same
      refine (hs.others consistent hw).phase t ?_
      intro heq
      rw [hw, heq] at ht
      exact ht rfl
  | none =>
      rcases hs.idle_phase hw hp with hold | rfl | ⟨result, rfl, hold⟩
      · exact (h t call phase hold).onward onward
      · trivial
      · exact (h t call _ hold).onward onward

/-- Every step keeps what is known of every transaction. -/
theorem Kept.step (h : Kept R post s) (consistent : s.Consistent G) (good : R.good s)
    (hs : Step program s label s')
    (start : ∀ t call m, (∀ k, m.draft t k = none) → (program call).Along R t (post call t) m)
    (others : ∀ t, label.worker ≠ some t → R.keeps t s s') : Kept R post s' := by
  intro t call phase hp
  by_cases ht : label.worker = some t
  · exact h.own consistent good hs start ht hp
  · exact h.aside consistent hs ht (others t ht) hp

theorem Started.kept {blank : ν} (h : s.Started blank) : Kept R post s := by
  intro t call phase hp
  rw [h.phase] at hp
  cases hp

/-- Work that is done has reached its postcondition where it is committed. -/
theorem Kept.reached {result : α} (h : Kept R post s) (good : R.good s)
    (hp : s.phase t = some (call, .committing result) ∨
      s.phase t = some (call, .abandoned result)) : post call t result s := by
  rcases hp with hp | hp
  · exact h t call _ hp s (.refl R t s) good
  · exact h t call _ hp s (.refl R t s) good

end Database

end Sinnlos

import Sinnlos.Lib.Transaction

/-! # What every transaction ensures

A guarantee is a preorder on rows along which every transaction changes them.
`Txn.Ensures` computes, for one program alone, that it keeps the guarantee and
reaches its postcondition whatever the others commit in between: a row it holds
stays as it is, every other row moves along the guarantee.
-/

namespace Sinnlos

variable {κ ν ε ρ α β : Type}

/-- How the rows may move, and the row under a key that never had one. -/
structure Guarantee (ν : Type) where
  blank : ν
  moves : ν → ν → Prop
  refl : ∀ row, moves row row
  trans : ∀ a b c, moves a b → moves b c → moves a c

/-- The committed rows, the keys one transaction holds and what it changed. -/
structure Knowledge (κ ν : Type) where
  rows : κ → ν
  held : κ → Prop
  changes : κ → Option ν

namespace Knowledge

def current (l : Knowledge κ ν) : κ → ν := overlay l.changes l.rows

def hold (l : Knowledge κ ν) (k : κ) : Knowledge κ ν :=
  { l with held := fun j => j = k ∨ l.held j }

def put [DecidableEq κ] (l : Knowledge κ ν) (k : κ) (row : ν) : Knowledge κ ν :=
  { l.hold k with changes := Function.update l.changes k (some row) }

/-- The same transaction after others have committed. -/
structure Later (G : Guarantee ν) (l l' : Knowledge κ ν) : Prop where
  held : l'.held = l.held
  changes : l'.changes = l.changes
  moved : ∀ k, G.moves (l.rows k) (l'.rows k)
  kept : ∀ k, l.held k → l'.rows k = l.rows k

theorem Later.refl (G : Guarantee ν) (l : Knowledge κ ν) : l.Later G l :=
  ⟨rfl, rfl, fun k => G.refl (l.rows k), fun _ _ => rfl⟩

variable {G : Guarantee ν} {l : Knowledge κ ν} {k : κ} {m r l' : Knowledge κ ν}

theorem Later.trans (h₁ : l.Later G m) (h₂ : m.Later G r) : l.Later G r := by
  refine ⟨h₂.held.trans h₁.held, h₂.changes.trans h₁.changes, ?_, ?_⟩
  · intro k
    exact G.trans _ _ _ (h₁.moved k) (h₂.moved k)
  · intro k hk
    have hm : m.held k := by
      rw [h₁.held]
      exact hk
    rw [h₂.kept k hm, h₁.kept k hk]

theorem current_of_none (h : l.changes k = none) : l.current k = l.rows k := by
  simp [current, overlay, h]

theorem current_of_some {row : ν} (h : l.changes k = some row) : l.current k = row := by
  simp [current, overlay, h]

/-- A row the transaction holds looks the same later. -/
theorem Later.current_eq (h : l.Later G l') (hk : l.held k) : l'.current k = l.current k := by
  simp only [current, overlay, h.changes, h.kept k hk]

/-- The same transaction after statements that change nothing: it may hold more. -/
structure Onward (G : Guarantee ν) (l l' : Knowledge κ ν) : Prop where
  held : ∀ k, l.held k → l'.held k
  changes : l'.changes = l.changes
  moved : ∀ k, G.moves (l.rows k) (l'.rows k)
  kept : ∀ k, l.held k → l'.rows k = l.rows k

theorem Later.onward (h : l.Later G l') : l.Onward G l' := by
  refine ⟨?_, h.changes, h.moved, h.kept⟩
  intro k hk
  rw [h.held]
  exact hk

theorem Onward.trans (h₁ : l.Onward G m) (h₂ : m.Onward G r) : l.Onward G r := by
  refine ⟨?_, h₂.changes.trans h₁.changes, ?_, ?_⟩
  · intro k hk
    exact h₂.held k (h₁.held k hk)
  · intro k
    exact G.trans _ _ _ (h₁.moved k) (h₂.moved k)
  · intro k hk
    rw [h₂.kept k (h₁.held k hk), h₁.kept k hk]

theorem Onward.refl (G : Guarantee ν) (l : Knowledge κ ν) : l.Onward G l :=
  (Later.refl G l).onward

theorem onward_hold (G : Guarantee ν) (l : Knowledge κ ν) (k : κ) : l.Onward G (l.hold k) :=
  ⟨fun _ hk => Or.inr hk, rfl, fun j => G.refl (l.rows j), fun _ _ => rfl⟩

section Put
variable [DecidableEq κ] {j : κ}

@[simp] theorem put_rows (l : Knowledge κ ν) (k : κ) (row : ν) : (l.put k row).rows = l.rows := rfl

@[simp] theorem put_changes_self (l : Knowledge κ ν) (k : κ) (row : ν) :
    (l.put k row).changes k = some row := by
  simp [put]

theorem put_changes_of_ne (l : Knowledge κ ν) (row : ν) (h : j ≠ k) :
    (l.put k row).changes j = l.changes j := by
  simp [put, h]

theorem put_current_of_ne (l : Knowledge κ ν) (row : ν) (h : j ≠ k) :
    (l.put k row).current j = l.current j := by
  simp only [current, overlay, put_changes_of_ne l row h, put_rows]

@[simp] theorem put_held_self (l : Knowledge κ ν) (k : κ) (row : ν) : (l.put k row).held k :=
  Or.inl rfl

@[simp] theorem put_current_self (l : Knowledge κ ν) (k : κ) (row : ν) :
    (l.put k row).current k = row :=
  current_of_some (put_changes_self l k row)

end Put

@[simp] theorem hold_rows (l : Knowledge κ ν) (k : κ) : (l.hold k).rows = l.rows := rfl

@[simp] theorem hold_changes (l : Knowledge κ ν) (k : κ) : (l.hold k).changes = l.changes := rfl

@[simp] theorem hold_held_self (l : Knowledge κ ν) (k : κ) : (l.hold k).held k := Or.inl rfl

@[simp] theorem hold_current (l : Knowledge κ ν) (k : κ) : (l.hold k).current = l.current := rfl

end Knowledge

open Knowledge

namespace Txn

/-- A program that reads and locks and changes nothing. -/
def Quiet : Txn κ ν ε ρ α → Prop
  | .ret _ => True
  | .refuse _ => True
  | .lock _ _ next => ∀ b, (next b).Quiet
  | .read next => ∀ view, (next view).Quiet
  | .update _ _ _ _ => False
  | .create _ _ _ => False
  | .observe next => ∀ e, (next e).Quiet

variable {p : Txn κ ν ε ρ α} {f : α → Txn κ ν ε ρ β}

theorem Quiet.bind (hp : p.Quiet) (hf : ∀ result, (f result).Quiet) : (p >>= f).Quiet := by
  show (Txn.bind p f).Quiet
  induction p with
  | ret result => exact hf result
  | refuse _ => trivial
  | lock k found next ih => exact fun b => ih b (hp b)
  | read next ih => exact fun view => ih view (hp view)
  | update _ _ _ _ _ => exact hp.elim
  | create _ _ _ _ => exact hp.elim
  | observe next ih => exact fun e => ih e (hp e)

variable [DecidableEq κ]

/-- From `l`, whatever others commit between its statements, the program changes
rows along the guarantee only, and where it returns it has reached `Q`. -/
def Ensures (G : Guarantee ν) : Txn κ ν ε ρ α → (α → Knowledge κ ν → Prop) →
    Knowledge κ ν → Prop
  | .ret result, Q, l => ∀ l', l.Later G l' → Q result l'
  | .refuse _, _, _ => True
  | .lock k found next, Q, l => ∀ l', l.Later G l' →
      (found (l'.current k) = true → (next true).Ensures G Q (l'.hold k)) ∧
      (found (l'.current k) = false → (next false).Ensures G Q l')
  | .read next, Q, l => ∀ l', l.Later G l' → ∀ keys, (next ⟨keys, l'.current⟩).Ensures G Q l'
  | .update k found set next, Q, l => ∀ l', l.Later G l' →
      (found (l'.current k) = true → G.moves (l'.rows k) (set (l'.current k)) ∧
        (next true).Ensures G Q (l'.put k (set (l'.current k)))) ∧
      (found (l'.current k) = false → (next false).Ensures G Q l')
  | .create kind row next, Q, l => ∀ l', l.Later G l' → ∀ k, kind k = true →
      l'.rows k = G.blank → l'.changes k = none →
      G.moves G.blank row ∧ (next k).Ensures G Q (l'.put k row)
  | .observe next, Q, l => ∀ l', l.Later G l' → ∀ e, (next e).Ensures G Q l'

variable {G : Guarantee ν} {l : Knowledge κ ν} {Q : β → Knowledge κ ν → Prop}

/-- What others commit before the next statement is already accounted for. -/
theorem Ensures.later {Q : α → Knowledge κ ν → Prop} {l' : Knowledge κ ν} (h : p.Ensures G Q l)
    (hl : l.Later G l') : p.Ensures G Q l' := by
  cases p with
  | refuse _ => trivial
  | ret result | lock k found next | read next | update k found set next | create kind row next
  | observe next =>
      intro m hm
      exact h m (hl.trans hm)

/-- A program in sequence with another, where the second starts from what the first
ensures. -/
theorem Ensures.bind_of {Q₀ : α → Knowledge κ ν → Prop} (h : p.Ensures G Q₀ l)
    (rest : ∀ result m, (∀ m', m.Later G m' → Q₀ result m') → (f result).Ensures G Q m) :
    (p >>= f).Ensures G Q l := by
  show (Txn.bind p f).Ensures G Q l
  induction p generalizing l with
  | ret result => exact rest result l h
  | refuse _ => trivial
  | lock k found next ih =>
      intro m hm
      obtain ⟨h₁, h₂⟩ := h m hm
      exact ⟨fun hf => ih true (h₁ hf), fun hf => ih false (h₂ hf)⟩
  | read next ih =>
      intro m hm keys
      exact ih _ (h m hm keys)
  | update k found set next ih =>
      intro m hm
      obtain ⟨h₁, h₂⟩ := h m hm
      exact ⟨fun hf => ⟨(h₁ hf).1, ih true (h₁ hf).2⟩, fun hf => ih false (h₂ hf)⟩
  | create kind row next ih =>
      intro m hm k hk hb hc
      obtain ⟨h₁, h₂⟩ := h m hm k hk hb hc
      exact ⟨h₁, ih k h₂⟩
  | observe next ih =>
      intro m hm e
      exact ih e (h m hm e)

/-- The first ensures what the second needs. -/
theorem Ensures.bind (h : p.Ensures G (fun result l => (f result).Ensures G Q l) l) :
    (p >>= f).Ensures G Q l :=
  h.bind_of fun _ m hm => hm m (.refl G m)

theorem Ensures.mono {Q Q' : α → Knowledge κ ν → Prop} (h : p.Ensures G Q l)
    (weaker : ∀ result m, Q result m → Q' result m) : p.Ensures G Q' l := by
  rw [← p.bind_ret]
  exact h.bind_of fun result m hm m' hm' => weaker result m' (hm m' hm')

/-- A program whose result is only wrapped at the end. -/
theorem Ensures.map {f : α → β} (h : p.Ensures G (fun result => Q (f result)) l) :
    (p >>= fun result => pure (f result)).Ensures G Q l :=
  h.bind_of fun _ _ hm => hm

/-- After a quiet program the transaction may hold more, and that is all. -/
theorem Quiet.ensures (h : p.Quiet) (l : Knowledge κ ν) :
    p.Ensures G (fun _ l' => l.Onward G l') l := by
  have onto : ∀ m, l.Onward G m → p.Ensures G (fun _ l' => l.Onward G l') m := by
    induction p with
    | ret _ =>
        intro m hm r hr
        exact hm.trans hr.onward
    | refuse _ =>
        intro m _
        trivial
    | lock k found next ih =>
        intro m hm r hr
        have hmr := hm.trans hr.onward
        exact ⟨fun _ => ih true (h true) _ (hmr.trans (onward_hold G r k)),
          fun _ => ih false (h false) r hmr⟩
    | read next ih =>
        intro m hm r hr keys
        exact ih _ (h _) r (hm.trans hr.onward)
    | update _ _ _ _ _ => exact h.elim
    | create _ _ _ _ => exact h.elim
    | observe next ih =>
        intro m hm r hr e
        exact ih e (h e) r (hm.trans hr.onward)
  exact onto l (.refl G l)

/-! ## The rules for single statements -/

section Rules
variable {G : Guarantee ν} {f : Bool → Txn κ ν ε ρ α} {Q : α → Knowledge κ ν → Prop}
  {l : Knowledge κ ν}

theorem ensures_quiet {p : Txn κ ν ε ρ β} {f : β → Txn κ ν ε ρ α} (quiet : p.Quiet)
    (h : ∀ result l', l.Onward G l' → (f result).Ensures G Q l') : (p >>= f).Ensures G Q l :=
  Ensures.bind ((quiet.ensures l).mono fun result l' hl => h result l' hl)

theorem ensures_select {f : View κ ν → Txn κ ν ε ρ α}
    (h : ∀ l', l.Later G l' → ∀ keys, (f ⟨keys, l'.current⟩).Ensures G Q l') :
    (select >>= f).Ensures G Q l := h

theorem ensures_ask {f : ε → Txn κ ν ε ρ α} (h : ∀ e, (f e).Ensures G Q l) :
    (ask >>= f).Ensures G Q l := by
  intro l' hl e
  exact (h e).later hl

variable {k : κ} {found : ν → Bool}

theorem ensures_forUpdate
    (locked : ∀ l', l.Later G l' → found (l'.current k) = true → (f true).Ensures G Q (l'.hold k))
    (missing : ∀ l', l.Later G l' → found (l'.current k) = false → (f false).Ensures G Q l') :
    (forUpdate k found >>= f).Ensures G Q l := by
  intro l' hl
  exact ⟨locked l' hl, missing l' hl⟩

theorem ensures_updateWhere {set : ν → ν}
    (changed : ∀ l', l.Later G l' → found (l'.current k) = true →
      G.moves (l'.rows k) (set (l'.current k)) ∧
        (f true).Ensures G Q (l'.put k (set (l'.current k))))
    (missing : ∀ l', l.Later G l' → found (l'.current k) = false → (f false).Ensures G Q l') :
    (updateWhere k found set >>= f).Ensures G Q l := by
  intro l' hl
  exact ⟨changed l' hl, missing l' hl⟩

theorem ensures_insert {kind : κ → Bool} {row : ν} {f : κ → Txn κ ν ε ρ α}
    (h : ∀ l', l.Later G l' → ∀ k, kind k = true → l'.rows k = G.blank → l'.changes k = none →
      G.moves G.blank row ∧ (f k).Ensures G Q (l'.put k row)) :
    (insert kind row >>= f).Ensures G Q l := h

end Rules

end Txn

end Sinnlos

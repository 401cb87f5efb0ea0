import Sinnlos.Cms.DocumentLock
import Sinnlos.Lib.TransactionLog

/-! # No update is lost under the document lock

What a transaction of mutations ensures of the documents it commits, and what
follows for every interleaving of such transactions: a scoped mutation commits
on the revision its tokens name, every committed mutation advances the revision
by one, and the version row goes with the last row of the document.
-/

namespace Sinnlos.Cms

open Txn Knowledge

variable {Row : Type}

/-! ## What a record says -/

/-- The mutation advanced the revision by one, or removed it with the last row. -/
def MutationRecord.Advanced (r : MutationRecord Row) : Prop :=
  (r.remaining = 0 ∧ r.committed = none) ∨ (r.remaining ≠ 0 ∧ r.committed = some (r.prior + 1))

/-- The mutations lead from one revision to the other, each from where the one
before it left the document. -/
def Counts (revision : Nat) : List (MutationRecord Row) → Nat → Prop
  | [], last => last = revision
  | r :: rest, last => r.prior = revision ∧ r.Advanced ∧ Counts (r.committed.getD 0) rest last

variable {first last : Nat}

theorem Counts.append {mid : Nat} {before after : List (MutationRecord Row)}
    (h₁ : Counts first before mid) (h₂ : Counts mid after last) :
    Counts first (before ++ after) last := by
  induction before generalizing first with
  | nil =>
      cases h₁
      exact h₂
  | cons r before ih =>
      obtain ⟨hprior, hadvanced, hrest⟩ := h₁
      exact ⟨hprior, hadvanced, ih hrest⟩

/-- While the document has rows, its revision grows by one a mutation. -/
theorem Counts.length {records : List (MutationRecord Row)} (h : Counts first records last)
    (exists_ : ∀ r ∈ records, r.remaining ≠ 0) : last = first + records.length := by
  induction records generalizing first with
  | nil => exact h
  | cons r records ih =>
      obtain ⟨hprior, hadvanced, hrest⟩ := h
      rw [List.forall_mem_cons] at exists_
      rcases hadvanced with ⟨hnone, _⟩ | ⟨_, hcommitted⟩
      · exact absurd hnone exists_.1
      · rw [hcommitted] at hrest
        have := ih hrest exists_.2
        simp only [Option.getD_some] at this
        rw [List.length_cons]
        omega

def onRef (ref : DocumentRef) (records : List (MutationRecord Row)) : List (MutationRecord Row) :=
  records.filter fun r => r.ref = ref

/-- A scoped mutation of the scope's document ran on the revision of all its
tokens, and its class held on the rows read under the lock. -/
def MutationRecord.Accepted (scope : Option (AuthoringScope Row)) (r : MutationRecord Row) : Prop :=
  r.target = true → ∃ doc, r.locked = some doc ∧
    (∀ revision, r.expected = some revision → doc.revision = revision) ∧
    (∀ revision, r.observed = some revision → doc.revision = revision) ∧
    ∀ classify, scope.bind AuthoringScope.classify = some classify →
      ∃ view, r.classifiedOn = some view ∧ (classify view).isSome = true ∧ view.row r.ref = doc

/-- Where the transaction locked the document first, it found the committed one. -/
def MutationRecord.Found (rows : DocumentRef → Doc Row) (r : MutationRecord Row) : Prop :=
  r.first = true → ∀ doc, r.locked = some doc →
    doc.rows = (rows r.ref).rows ∧ doc.revision = (rows r.ref).revision

/-- The first mutation of the scope's document carries the tokens of the call. -/
def ClientTokens (scope : Option (AuthoringScope Row)) (records : List (MutationRecord Row)) :
    Prop :=
  ∀ before r after, records = before ++ r :: after → r.target = true →
    (∀ x ∈ before, x.target = false) →
    r.expected = scope.bind AuthoringScope.expectedRevision ∧
      r.observed = scope.bind AuthoringScope.observedRevision

/-! ## The state of a transaction between its mutations -/

def docGuarantee (Row : Type) : Guarantee (Doc Row) where
  blank := Doc.absent
  moves := fun _ _ => True
  refl := fun _ => trivial
  trans := fun _ _ _ _ _ => trivial

/-- The version row is there exactly when the document has rows. -/
def Doc.Settled (doc : Doc Row) : Prop := doc.rows = [] ↔ doc.version = none

/-- What holds of a transaction between two statements. `busy` are the documents
of the mutations that are still running. -/
structure Session.Inv (scope : Option (AuthoringScope Row)) (busy : List DocumentRef)
    (st : Session Row) (l : Knowledge DocumentRef (Doc Row)) : Prop where
  unheld : ∀ ref, ref ∉ st.held → l.changes ref = none ∧ ∀ r ∈ st.records, r.ref ≠ ref
  held : ∀ ref ∈ st.held, l.held ref
  counts : ∀ ref, Counts (l.rows ref).revision (onRef ref st.records) (l.current ref).revision
  settled : ∀ ref ∈ st.held, ref ∉ busy →
    (∃ r ∈ st.records, r.ref = ref) ∧ (l.current ref).Settled
  accepted : ∀ r ∈ st.records, r.Accepted scope
  found : ∀ r ∈ st.records, r.Found l.rows
  client : ClientTokens scope st.records
  classify : st.scope.bind AuthoringScope.classify = scope.bind AuthoringScope.classify
  tokens : (∀ r ∈ st.records, r.target = false) →
    st.scope.bind AuthoringScope.expectedRevision =
        scope.bind AuthoringScope.expectedRevision ∧
      st.scope.bind AuthoringScope.observedRevision =
        scope.bind AuthoringScope.observedRevision

section Invariant
variable {scope : Option (AuthoringScope Row)} {busy : List DocumentRef} {st : Session Row}
  {l l' : Knowledge DocumentRef (Doc Row)} {ref : DocumentRef}

theorem onRef_eq_nil {records : List (MutationRecord Row)} (h : ∀ r ∈ records, r.ref ≠ ref) :
    onRef ref records = [] := by
  unfold onRef
  rw [List.filter_eq_nil_iff]
  intro r hr
  simpa using h r hr

variable {r : MutationRecord Row}

theorem Session.Inv.mem_held (h : st.Inv scope busy l) (hr : r ∈ st.records) : r.ref ∈ st.held := by
  by_cases hheld : r.ref ∈ st.held
  · exact hheld
  · exact absurd rfl ((h.unheld _ hheld).2 r hr)

/-- A step that keeps what the transaction holds: the documents it has not locked
may be any, and those it has locked keep their rows and their revision. -/
theorem Session.Inv.frame (h : st.Inv scope busy l) (held : ∀ ref ∈ st.held, l'.held ref)
    (changes : ∀ ref, ref ∉ st.held → l'.changes ref = none)
    (rows : ∀ ref ∈ st.held, l'.rows ref = l.rows ref)
    (revision : ∀ ref ∈ st.held, (l'.current ref).revision = (l.current ref).revision)
    (settled : ∀ ref ∈ st.held, ref ∉ busy → l'.current ref = l.current ref) :
    st.Inv scope busy l' := by
  refine ⟨?_, held, ?_, ?_, h.accepted, ?_, h.client, h.classify, h.tokens⟩
  · intro ref hr
    exact ⟨changes ref hr, (h.unheld ref hr).2⟩
  · intro ref
    by_cases hr : ref ∈ st.held
    · rw [rows ref hr, revision ref hr]
      exact h.counts ref
    · rw [onRef_eq_nil (h.unheld ref hr).2, current_of_none (changes ref hr)]
      rfl
  · intro ref hr hb
    rw [settled ref hr hb]
    exact h.settled ref hr hb
  · intro r hr hf doc hd
    rw [rows r.ref (h.mem_held hr)]
    exact h.found r hr hf doc hd

theorem Session.Inv.later (h : st.Inv scope busy l) (hl : l.Later (docGuarantee Row) l') :
    st.Inv scope busy l' := by
  refine h.frame ?_ ?_ ?_ ?_ ?_
  · intro ref hr
    rw [hl.held]
    exact h.held ref hr
  · intro ref hr
    rw [hl.changes]
    exact (h.unheld ref hr).1
  · intro ref hr
    exact hl.kept ref (h.held ref hr)
  · intro ref hr
    rw [hl.current_eq (h.held ref hr)]
  · intro ref hr _
    exact hl.current_eq (h.held ref hr)

/-- A write to the rows of a running mutation's document. -/
theorem Session.Inv.write {doc : Doc Row} (h : st.Inv scope busy l) (hheld : ref ∈ st.held)
    (hbusy : ref ∈ busy) (hrevision : doc.revision = (l.current ref).revision) :
    st.Inv scope busy (l.put ref doc) := by
  have ne_of : ∀ other, other ∉ st.held → other ≠ ref := by
    intro other ho e
    subst e
    exact ho hheld
  refine h.frame ?_ ?_ (fun _ _ => rfl) ?_ ?_
  · intro other ho
    exact Or.inr (h.held other ho)
  · intro other ho
    rw [put_changes_of_ne l doc (ne_of other ho)]
    exact (h.unheld other ho).1
  · intro other _
    by_cases he : other = ref
    · rw [he, put_current_self]
      exact hrevision
    · rw [put_current_of_ne l doc he]
  · intro other _ hb
    have he : other ≠ ref := by
      intro e
      subst e
      exact hb hbusy
    exact put_current_of_ne l doc he

/-- Statements that change the row of `ref` only, and keep all that is held. -/
structure Touches (ref : DocumentRef) (l l' : Knowledge DocumentRef (Doc Row)) : Prop where
  held : ∀ x, l.held x → l'.held x
  rows : ∀ x, l.held x → l'.rows x = l.rows x
  changes : ∀ x, x ≠ ref → l'.changes x = l.changes x

theorem Touches.trans {m : Knowledge DocumentRef (Doc Row)} (h₁ : Touches ref l m)
    (h₂ : Touches ref m l') : Touches ref l l' := by
  refine ⟨fun x hx => h₂.held x (h₁.held x hx), ?_, ?_⟩
  · intro x hx
    rw [h₂.rows x (h₁.held x hx), h₁.rows x hx]
  · intro x hx
    rw [h₂.changes x hx, h₁.changes x hx]

theorem touches_later (ref : DocumentRef) (h : l.Later (docGuarantee Row) l') :
    Touches ref l l' :=
  ⟨h.onward.held, h.kept, fun _ _ => by rw [h.changes]⟩

theorem touches_put (l : Knowledge DocumentRef (Doc Row)) (ref : DocumentRef) (doc : Doc Row) :
    Touches ref l (l.put ref doc) :=
  ⟨fun _ hx => Or.inr hx, fun _ _ => rfl, fun _ hx => put_changes_of_ne l doc hx⟩

theorem touches_hold (l : Knowledge DocumentRef (Doc Row)) (ref other : DocumentRef) :
    Touches ref l (l.hold other) :=
  ⟨fun _ hx => Or.inr hx, fun _ _ => rfl, fun _ _ => rfl⟩

theorem Touches.current_of_ne (h : Touches ref l l') {x : DocumentRef} (hx : x ≠ ref)
    (held : l.held x) : l'.current x = l.current x := by
  simp only [current, overlay, h.changes x hx, h.rows x held]

/-- Once `ref` is locked its mutation runs; its revision is what it was. -/
theorem Session.Inv.lock (h : st.Inv scope busy l) (touches : Touches ref l l')
    (held : l'.held ref) (rows : l'.rows ref = l.rows ref)
    (revision : (l'.current ref).revision = (l.current ref).revision) :
    (st.lock ref).Inv scope (ref :: busy) l' := by
  refine ⟨?_, ?_, ?_, ?_, h.accepted, ?_, h.client, h.classify, h.tokens⟩
  · intro x hx
    obtain ⟨hne, hnot⟩ := not_or.mp (mt List.mem_cons.mpr hx)
    obtain ⟨hc, hr⟩ := h.unheld x hnot
    exact ⟨by rw [touches.changes x hne, hc], hr⟩
  · intro x hx
    rcases List.mem_cons.mp hx with rfl | hold
    · exact held
    · exact touches.held x (h.held x hold)
  · intro x
    by_cases hx : x = ref
    · subst hx
      rw [rows, revision]
      exact h.counts x
    · by_cases hxs : x ∈ st.held
      · rw [touches.rows x (h.held x hxs), touches.current_of_ne hx (h.held x hxs)]
        exact h.counts x
      · have hnone : l'.changes x = none := by
          rw [touches.changes x hx]
          exact (h.unheld x hxs).1
        rw [current_of_none hnone]
        show Counts _ (onRef x st.records) _
        rw [onRef_eq_nil (h.unheld x hxs).2]
        rfl
  · intro x hx hb
    obtain ⟨hne, hnot⟩ := not_or.mp (mt List.mem_cons.mpr hb)
    rcases List.mem_cons.mp hx with rfl | hold
    · exact absurd rfl hne
    · rw [touches.current_of_ne hne (h.held x hold)]
      exact h.settled x hold hnot
  · intro r hr hf doc hd
    rw [touches.rows r.ref (h.held _ (h.mem_held hr))]
    exact h.found r hr hf doc hd

/-- The last statement of a mutation: its record joins the others. -/
theorem Session.Inv.record {after : Option (AuthoringScope Row)}
    (h : st.Inv scope (r.ref :: busy) l) (locked : r.ref ∈ st.held) (touches : Touches r.ref l l')
    (prior : r.prior = (l.current r.ref).revision) (advanced : r.Advanced)
    (revision : (l'.current r.ref).revision = r.committed.getD 0)
    (settled : (l'.current r.ref).Settled) (accepted : r.Accepted scope) (found : r.Found l.rows)
    (client : r.target = true → (∀ x ∈ st.records, x.target = false) →
      r.expected = scope.bind AuthoringScope.expectedRevision ∧
        r.observed = scope.bind AuthoringScope.observedRevision)
    (classify : after.bind AuthoringScope.classify = st.scope.bind AuthoringScope.classify)
    (tokens : r.target = false →
      after.bind AuthoringScope.expectedRevision =
          st.scope.bind AuthoringScope.expectedRevision ∧
        after.bind AuthoringScope.observedRevision =
          st.scope.bind AuthoringScope.observedRevision) :
    Session.Inv scope busy ⟨after, st.held, st.records ++ [r]⟩ l' := by
  refine ⟨?_, ?_, ?_, ?_, ?_, ?_, ?_, ?_, ?_⟩
  · intro x hx
    have hne : x ≠ r.ref := by
      intro e
      subst e
      exact hx locked
    obtain ⟨hc, hr⟩ := h.unheld x hx
    refine ⟨by rw [touches.changes x hne, hc], ?_⟩
    intro y hy
    rcases List.mem_append.mp hy with hold | hnew
    · exact hr y hold
    · cases List.mem_singleton.mp hnew
      exact hne.symm
  · intro x hx
    exact touches.held x (h.held x hx)
  · intro x
    show Counts _ (onRef x (st.records ++ [r])) _
    unfold onRef
    rw [List.filter_append]
    by_cases hx : x = r.ref
    · subst hx
      rw [touches.rows _ (h.held _ locked), revision]
      refine (h.counts r.ref).append ?_
      simp only [List.filter_cons, decide_true, if_true, List.filter_nil]
      exact ⟨prior, advanced, rfl⟩
    · have hnil : [r].filter (fun y => decide (y.ref = x)) = [] := by
        simp [Ne.symm hx]
      rw [hnil, List.append_nil]
      by_cases hxs : x ∈ st.held
      · rw [touches.rows x (h.held x hxs), touches.current_of_ne hx (h.held x hxs)]
        exact h.counts x
      · have hnone : l'.changes x = none := by
          rw [touches.changes x hx]
          exact (h.unheld x hxs).1
        rw [current_of_none hnone]
        show Counts _ (onRef x st.records) _
        rw [onRef_eq_nil (h.unheld x hxs).2]
        rfl
  · intro x hx hb
    by_cases hne : x = r.ref
    · subst hne
      exact ⟨⟨r, List.mem_append_right _ List.mem_cons_self, rfl⟩, settled⟩
    · obtain ⟨⟨y, hy, hyx⟩, hset⟩ := h.settled x hx (List.not_mem_cons_of_ne_of_not_mem hne hb)
      rw [touches.current_of_ne hne (h.held x hx)]
      exact ⟨⟨y, List.mem_append_left _ hy, hyx⟩, hset⟩
  · intro y hy
    rcases List.mem_append.mp hy with hold | hnew
    · exact h.accepted y hold
    · cases List.mem_singleton.mp hnew
      exact accepted
  · intro y hy hf doc hd
    rcases List.mem_append.mp hy with hold | hnew
    · rw [touches.rows y.ref (h.held _ (h.mem_held hold))]
      exact h.found y hold hf doc hd
    · cases List.mem_singleton.mp hnew
      rw [touches.rows r.ref (h.held _ locked)]
      exact found hf doc hd
  · intro before x rest hsplit htarget hbefore
    rcases List.append_eq_append_iff.mp hsplit with ⟨mid, hmid, hrest⟩ | ⟨mid, hmid, hrest⟩
    · cases mid with
      | nil =>
          rw [List.append_nil] at hmid
          subst hmid
          cases hrest
          exact client htarget hbefore
      | cons y mid =>
          simp at hrest
    · cases mid with
      | nil =>
          rw [List.append_nil] at hmid
          subst hmid
          cases hrest
          exact client htarget hbefore
      | cons y mid =>
          rw [List.cons_append] at hrest
          cases hrest
          exact h.client before x mid hmid htarget hbefore
  · rw [← h.classify]
    exact classify
  · intro hall
    have hr : r.target = false := hall r (List.mem_append_right _ List.mem_cons_self)
    have hold := h.tokens fun x hx => hall x (List.mem_append_left _ hx)
    obtain ⟨he, ho⟩ := tokens hr
    exact ⟨he.trans hold.1, ho.trans hold.2⟩

end Invariant

/-! ## The statements of the middleware -/

section Statements
variable {α : Type} {Q : α → Knowledge DocumentRef (Doc Row) → Prop}
  {l : Knowledge DocumentRef (Doc Row)} {ref : DocumentRef}

/-- The version row exists; the rows and the revision are what they were. -/
theorem ensures_ensureRow {f : Bool → DocTxn Row α}
    (h : ∀ l' b, l.Later (docGuarantee Row) l' → (l'.current ref).version.isSome = true →
      (f b).Ensures (docGuarantee Row) Q l')
    (created : ∀ l' m, l.Later (docGuarantee Row) l' → (l'.current ref).version = none →
      m = l'.put ref ((l'.current ref).withVersion (some 0)) →
      (f true).Ensures (docGuarantee Row) Q m) :
    (ensureRow ref >>= f).Ensures (docGuarantee Row) Q l := by
  refine ensures_updateWhere ?_ ?_
  · intro l' hl hnone
    exact ⟨trivial, created l' _ hl (by simpa using hnone) rfl⟩
  · intro l' hl hsome
    exact h l' false hl (by simpa using hsome)

variable {f : Nat → DocTxn Row α} {locked : Nat}

/-- Under the lock the revision is read that the document had. -/
theorem ensures_lockDocument
    (h : ∀ m l', l.Later (docGuarantee Row) m → Touches ref m l' → l'.held ref →
      l'.rows ref = m.rows ref → (l'.current ref).rows = (m.current ref).rows →
      (l'.current ref).revision = (m.current ref).revision →
      (f (l'.current ref).revision).Ensures (docGuarantee Row) Q l') :
    (lockDocument ref >>= f).Ensures (docGuarantee Row) Q l := by
  refine Ensures.bind (ensures_ensureRow ?_ ?_)
  · intro l₁ _ h₁ _
    refine ensures_forUpdate ?_ fun _ _ hf => nomatch hf
    intro l₂ h₂ _
    refine ensures_select fun l₃ h₃ keys => ?_
    intro l₄ h₄
    have hcur : l₃.current ref = l₂.current ref := by
      rw [h₃.current_eq (hold_held_self l₂ ref), hold_current]
    refine (h l₂ l₃ (h₁.trans h₂) ?_ ?_ ?_ ?_ ?_).later h₄
    · exact (touches_hold l₂ ref ref).trans (touches_later ref h₃)
    · rw [h₃.held]
      exact hold_held_self l₂ ref
    · rw [h₃.kept ref (hold_held_self l₂ ref), hold_rows]
    · rw [hcur]
    · rw [hcur]
  · intro l₁ m h₁ hnone hm
    subst hm
    refine ensures_forUpdate ?_ fun _ _ hf => nomatch hf
    intro l₂ h₂ _
    refine ensures_select fun l₃ h₃ keys => ?_
    intro l₄ h₄
    have held := put_held_self l₁ ref ((l₁.current ref).withVersion (some 0))
    have hcur : l₃.current ref = (l₁.current ref).withVersion (some 0) := by
      rw [h₃.current_eq (hold_held_self l₂ ref), hold_current, h₂.current_eq held,
        put_current_self]
    refine (h l₁ l₃ h₁ ?_ ?_ ?_ ?_ ?_).later h₄
    · exact (((touches_put l₁ ref _).trans (touches_later ref h₂)).trans
        (touches_hold l₂ ref ref)).trans (touches_later ref h₃)
    · rw [h₃.held]
      exact hold_held_self l₂ ref
    · rw [h₃.kept ref (hold_held_self l₂ ref), hold_rows, h₂.kept ref held, put_rows]
    · rw [hcur]
      rfl
    · rw [hcur]
      simp [Doc.revision, Doc.withVersion, hnone]

/-- Advancing a document that is held adds one to its revision. -/
theorem ensures_advanceRevision (held : l.held ref)
    (h : ∀ l', Touches ref l l' →
      l'.current ref = (l.current ref).withVersion (some ((l.current ref).revision + 1)) →
      (f ((l.current ref).revision + 1)).Ensures (docGuarantee Row) Q l') :
    (advanceRevision ref >>= f).Ensures (docGuarantee Row) Q l := by
  -- From the ensured row on, both ways are the same.
  have finish : ∀ l₁ : Knowledge DocumentRef (Doc Row), Touches ref l l₁ → l₁.held ref →
      (l₁.current ref).rows = (l.current ref).rows →
      (l₁.current ref).revision = (l.current ref).revision →
      ((do
        let _ ← updateWhere ref (fun _ => true) fun doc =>
          doc.withVersion (some (doc.revision + 1))
        selectRevision ref) : DocTxn Row Nat).Ensures (docGuarantee Row)
        (fun result m => (f result).Ensures (docGuarantee Row) Q m) l₁ := by
    intro l₁ t₁ held₁ hrows hrevision
    refine ensures_updateWhere ?_ fun _ _ hf => nomatch hf
    intro l₂ h₂ _
    refine ⟨trivial, ensures_select fun l₃ h₃ keys => ?_⟩
    intro l₄ h₄
    have hcur : l₃.current ref =
        (l.current ref).withVersion (some ((l.current ref).revision + 1)) := by
      rw [h₃.current_eq (put_held_self _ _ _), put_current_self, h₂.current_eq held₁, hrevision]
      simp [Doc.withVersion, hrows]
    have hrev : (l₃.current ref).revision = (l.current ref).revision + 1 := by
      rw [hcur]
      rfl
    show (f (l₃.current ref).revision).Ensures (docGuarantee Row) Q l₄
    rw [hrev]
    refine (h l₃ ?_ hcur).later h₄
    exact ((t₁.trans (touches_later ref h₂)).trans (touches_put l₂ ref _)).trans
      (touches_later ref h₃)
  refine Ensures.bind (ensures_ensureRow ?_ ?_)
  · intro l₁ _ h₁ _
    refine finish l₁ (touches_later ref h₁) (h₁.onward.held ref held) ?_ ?_
    · rw [h₁.current_eq held]
    · rw [h₁.current_eq held]
  · intro l₁ m h₁ hnone hm
    subst hm
    refine finish _ ((touches_later ref h₁).trans (touches_put l₁ ref _)) (put_held_self _ _ _) ?_ ?_
    · rw [put_current_self, h₁.current_eq held]
      rfl
    · rw [put_current_self, ← h₁.current_eq held]
      simp [Doc.revision, Doc.withVersion, hnone]

theorem ensures_currentDoc {f : Doc Row → DocTxn Row α}
    (h : ∀ l', l.Later (docGuarantee Row) l' →
      (f (l'.current ref)).Ensures (docGuarantee Row) Q l') :
    (currentDoc ref >>= f).Ensures (docGuarantee Row) Q l := by
  refine Ensures.bind (ensures_select fun l₁ h₁ keys => ?_)
  intro l₂ h₂
  exact (h l₁ h₁).later h₂

/-- What a comparison that lets the mutation through has checked. -/
def Compared (st : Session Row) (ref : DocumentRef) (locked : Nat) (doc : Doc Row)
    (seen : Option (DocView Row)) : Prop :=
  ∀ sc, st.scope = some sc → isTarget sc ref = true → tokensMatch sc locked = true ∧
    ∀ classify, sc.classify = some classify →
      ∃ view, seen = some view ∧ (classify view).isSome = true ∧ view.row ref = doc

theorem acceptTokens_ensures {sc : AuthoringScope Row} {seen : Option (DocView Row)}
    {R : Option (DocView Row) → Knowledge DocumentRef (Doc Row) → Prop}
    (h : tokensMatch sc locked = true → ∀ l', l.Later (docGuarantee Row) l' → R seen l') :
    (acceptTokens sc locked seen).Ensures (docGuarantee Row) R l := by
  unfold acceptTokens
  by_cases hmatch : tokensMatch sc locked = true
  · rw [if_pos hmatch]
    exact h hmatch
  · rw [if_neg hmatch]
    trivial

theorem ensures_compareTarget {st : Session Row} {f : Option (DocView Row) → DocTxn Row α}
    (h : ∀ l' seen, l.Later (docGuarantee Row) l' →
      Compared st ref locked (l'.current ref) seen →
      (f seen).Ensures (docGuarantee Row) Q l') :
    (compareTarget st ref locked >>= f).Ensures (docGuarantee Row) Q l := by
  unfold compareTarget
  cases hsome : st.scope with
  | none =>
      refine h l none (.refl _ l) ?_
      intro sc hsc
      rw [hsome] at hsc
      cases hsc
  | some sc =>
      by_cases htarget : isTarget sc ref = true
      · simp only [htarget, if_true]
        unfold compareScope
        cases hclass : sc.classify with
        | none =>
            refine Ensures.bind (acceptTokens_ensures fun hmatch l₁ h₁ => h l₁ none h₁ ?_)
            intro sc' hsc' _
            rw [hsome] at hsc'
            cases hsc'
            refine ⟨hmatch, ?_⟩
            intro classify hc
            rw [hclass] at hc
            cases hc
        | some classify =>
            refine Ensures.bind (ensures_select fun l₁ h₁ keys => ?_)
            split
            · trivial
            rename_i _ roleClass hrole
            refine acceptTokens_ensures fun hmatch l₂ h₂ => (h l₁ _ h₁ ?_).later h₂
            intro sc' hsc' _
            rw [hsome] at hsc'
            cases hsc'
            refine ⟨hmatch, ?_⟩
            intro classify' hc
            rw [hclass] at hc
            cases hc
            exact ⟨_, rfl, by rw [hrole]; rfl, rfl⟩
      · simp only [htarget]
        refine h l none (.refl _ l) ?_
        intro sc' hsc' ht
        rw [hsome] at hsc'
        cases hsc'
        exact absurd ht htarget

/-- The last statements of a mutation settle the version row. -/
theorem ensures_settleRevision {f : Option Nat → DocTxn Row α} {left : Doc Row}
    (held : l.held ref) (hleft : left = l.current ref)
    (h : ∀ l' committed, Touches ref l l' →
      ((left.rows.length = 0 ∧ committed = none) ∨
        (left.rows.length ≠ 0 ∧ committed = some (left.revision + 1))) →
      (l'.current ref).rows = left.rows → (l'.current ref).version = committed →
      (f committed).Ensures (docGuarantee Row) Q l') :
    (settleRevision ref left >>= f).Ensures (docGuarantee Row) Q l := by
  unfold settleRevision
  split
  · rename_i hempty
    have hlength : left.rows.length = 0 := by simpa using hempty
    refine Ensures.bind (ensures_updateWhere ?_ ?_)
    · intro l₁ h₁ _
      refine ⟨trivial, fun l₂ h₂ => ?_⟩
      refine h l₂ none ?_ (Or.inl ⟨hlength, rfl⟩) ?_ ?_
      · exact ((touches_later ref h₁).trans (touches_put l₁ ref _)).trans (touches_later ref h₂)
      · rw [h₂.current_eq (put_held_self _ _ _), put_current_self, h₁.current_eq held, hleft]
        rfl
      · rw [h₂.current_eq (put_held_self _ _ _), put_current_self]
        rfl
    · intro l₁ h₁ hnone l₂ h₂
      refine h l₂ none ((touches_later ref h₁).trans (touches_later ref h₂))
        (Or.inl ⟨hlength, rfl⟩) ?_ ?_
      · rw [(h₁.trans h₂).current_eq held, hleft]
      · rw [h₂.current_eq (h₁.onward.held ref held)]
        simpa using hnone
  · rename_i hrows
    have hlength : left.rows.length ≠ 0 := by simpa using hrows
    refine Ensures.bind (ensures_advanceRevision held fun l₁ t₁ hcur => ?_)
    intro l₂ h₂
    have held₁ : l₁.held ref := t₁.held ref held
    rw [← hleft] at hcur ⊢
    refine h l₂ _ (t₁.trans (touches_later ref h₂)) (Or.inr ⟨hlength, rfl⟩) ?_ ?_
    · rw [h₂.current_eq held₁, hcur]
      rfl
    · rw [h₂.current_eq held₁, hcur]
      rfl

end Statements

/-! ## The mutations -/

/-- Later in the same transaction: more is locked and recorded, and the committed
rows of what was locked are the same. -/
structure Extends (st st' : Session Row) (l l' : Knowledge DocumentRef (Doc Row)) : Prop where
  records : ∃ more, st'.records = st.records ++ more
  held : ∀ x ∈ st.held, x ∈ st'.held
  rows : ∀ x ∈ st.held, l'.rows x = l.rows x

variable {st st' : Session Row} {l l' : Knowledge DocumentRef (Doc Row)}
  {scope : Option (AuthoringScope Row)}

theorem Extends.trans {st'' : Session Row} {l'' : Knowledge DocumentRef (Doc Row)}
    (h₁ : Extends st st' l l') (h₂ : Extends st' st'' l' l'') : Extends st st'' l l'' := by
  obtain ⟨a, ha⟩ := h₁.records
  obtain ⟨b, hb⟩ := h₂.records
  refine ⟨⟨a ++ b, by rw [hb, ha, List.append_assoc]⟩, ?_, ?_⟩
  · intro x hx
    exact h₂.held x (h₁.held x hx)
  · intro x hx
    rw [h₂.rows x (h₁.held x hx), h₁.rows x hx]

/-- The records so far are among those later. -/
theorem Extends.untargeted (h : Extends st st' l l') (hall : ∀ x ∈ st'.records, x.target = false) :
    ∀ x ∈ st.records, x.target = false := by
  obtain ⟨more, hmore⟩ := h.records
  intro x hx
  apply hall
  rw [hmore]
  exact List.mem_append_left more hx

/-- A finished mutation adds its record to what its action extended. -/
theorem Extends.record {ref : DocumentRef} {m m' : Knowledge DocumentRef (Doc Row)}
    {after : Option (AuthoringScope Row)} {r : MutationRecord Row}
    (h : Extends (st.lock ref) st' m m') (rows : ∀ x ∈ st.held, l'.rows x = l.rows x) :
    Extends st ⟨after, st'.held, st'.records ++ [r]⟩ l l' := by
  obtain ⟨more, hmore⟩ := h.records
  refine ⟨⟨more ++ [r], ?_⟩, fun x hx => h.held x (List.mem_cons_of_mem ref hx), rows⟩
  show st'.records ++ [r] = st.records ++ (more ++ [r])
  rw [hmore, ← List.append_assoc]
  rfl

theorem Extends.refl (st : Session Row) (rows : ∀ x ∈ st.held, l'.rows x = l.rows x) :
    Extends st st l l' :=
  ⟨⟨[], by simp⟩, fun _ hx => hx, rows⟩

variable {busy : List DocumentRef}

/-- Going on from a later state adds to what the first part extended. -/
theorem Extends.ensures {p : DocTxn Row (Session Row)} {st₁ : Session Row}
    {l₁ : Knowledge DocumentRef (Doc Row)} (ext : Extends st st₁ l l₁)
    (hp : p.Ensures (docGuarantee Row)
      (fun st' l' => st'.Inv scope busy l' ∧ Extends st₁ st' l₁ l') l₁) :
    p.Ensures (docGuarantee Row) (fun st' l' => st'.Inv scope busy l' ∧ Extends st st' l l') l₁ :=
  hp.mono fun _ _ both => ⟨both.1, ext.trans both.2⟩

section Mutations
variable {scope : Option (AuthoringScope Row)} {busy : List DocumentRef} {st : Session Row}
  {l : Knowledge DocumentRef (Doc Row)} {ref : DocumentRef}

theorem advance_classify (after : Option (AuthoringScope Row)) (revision : Nat) :
    (after.map fun sc => sc.advance revision).bind AuthoringScope.classify =
      after.bind AuthoringScope.classify := by
  cases after <;> rfl

theorem bindCreated_same (after : Option (AuthoringScope Row)) (ref : DocumentRef)
    (revision : Nat) :
    (after.map fun sc => sc.bindCreated ref revision).bind AuthoringScope.classify =
        after.bind AuthoringScope.classify ∧
      (after.map fun sc => sc.bindCreated ref revision).bind AuthoringScope.expectedRevision =
        after.bind AuthoringScope.expectedRevision ∧
      (after.map fun sc => sc.bindCreated ref revision).bind AuthoringScope.observedRevision =
        after.bind AuthoringScope.observedRevision := by
  cases after with
  | none => exact ⟨rfl, rfl, rfl⟩
  | some sc =>
      simp only [Option.map_some, Option.bind_some, AuthoringScope.bindCreated]
      split <;> exact ⟨rfl, rfl, rfl⟩

/-- What was compared is what the record says. -/
theorem Compared.accepted {r : MutationRecord Row} {locked : Nat} {doc : Doc Row}
    {seen : Option (DocView Row)} (h : Compared st r.ref locked doc seen)
    (sameClass : st.scope.bind AuthoringScope.classify = scope.bind AuthoringScope.classify)
    (hlocked : doc.revision = locked) (target : r.target = st.targets r.ref)
    (expected : r.expected = st.scope.bind AuthoringScope.expectedRevision)
    (observed : r.observed = st.scope.bind AuthoringScope.observedRevision)
    (document : r.locked = some doc) (classified : r.classifiedOn = seen) :
    r.Accepted scope := by
  intro ht
  rw [target] at ht
  unfold Session.targets at ht
  cases hsc : st.scope with
  | none =>
      rw [hsc] at ht
      cases ht
  | some sc =>
      rw [hsc] at ht sameClass expected observed
      obtain ⟨hmatch, hclass⟩ := h sc hsc ht
      unfold tokensMatch at hmatch
      rw [Bool.and_eq_true] at hmatch
      refine ⟨doc, document, ?_, ?_, ?_⟩
      · intro revision hr
        rw [expected, Option.bind_some] at hr
        rw [hr] at hmatch
        rw [hlocked]
        exact (eq_of_beq hmatch.1).symm
      · intro revision hr
        rw [observed, Option.bind_some] at hr
        rw [hr] at hmatch
        rw [hlocked]
        exact (eq_of_beq hmatch.2).symm
      · intro classify hc
        rw [← sameClass] at hc
        rw [classified]
        exact hclass classify hc

theorem onDocument_ensures {next : Session Row → DocTxn Row (Session Row)}
    (h : st.Inv scope busy l)
    (inner : ∀ m, (st.lock ref).Inv scope (ref :: busy) m →
      (next (st.lock ref)).Ensures (docGuarantee Row) (fun st' l' =>
        st'.Inv scope (ref :: busy) l' ∧ Extends (st.lock ref) st' m l') m) :
    (onDocument ref next st).Ensures (docGuarantee Row)
      (fun st' l' => st'.Inv scope busy l' ∧ Extends st st' l l') l := by
  unfold onDocument
  split
  · trivial
  split
  · trivial
  refine ensures_lockDocument fun m l₁ hm t₁ held₁ rows₁ docRows₁ revision₁ => ?_
  have inv₁ : (st.lock ref).Inv scope (ref :: busy) l₁ := (h.later hm).lock t₁ held₁ rows₁ revision₁
  refine ensures_currentDoc fun l₂ h₂ => ?_
  refine ensures_compareTarget fun l₃ seen h₃ compared => ?_
  have held₂ : l₂.held ref := h₂.onward.held ref held₁
  have held₃ : l₃.held ref := h₃.onward.held ref held₂
  refine Ensures.bind ((inner l₃ ((inv₁.later h₂).later h₃)).mono fun st' l₄ both => ?_)
  obtain ⟨inv₄, ext⟩ := both
  have mem₄ : ref ∈ st'.held := ext.held ref List.mem_cons_self
  refine ensures_currentDoc fun l₅ h₅ => ?_
  have inv₅ := inv₄.later h₅
  have held₅ : l₅.held ref := inv₅.held ref mem₄
  refine ensures_settleRevision held₅ rfl fun l₆ committed t₆ advanced rows₆ version₆ => ?_
  intro l₇ h₇
  have held₆ : l₆.held ref := t₆.held ref held₅
  have doc₇ : l₇.current ref = l₆.current ref := h₇.current_eq held₆
  have doc₃ : l₃.current ref = l₂.current ref := h₃.current_eq held₂
  have doc₂ : l₂.current ref = l₁.current ref := h₂.current_eq held₁
  -- The committed rows of `ref` are the same from the lock to the end.
  have same : l₅.rows ref = m.rows ref := by
    rw [h₅.kept ref (inv₄.held ref mem₄), ext.rows ref List.mem_cons_self, h₃.kept ref held₂,
      h₂.kept ref held₁, rows₁]
  refine ⟨inv₅.record mem₄ (t₆.trans (touches_later ref h₇)) rfl advanced ?_ ?_ ?_ ?_ ?_ ?_ ?_, ?_⟩
  · rw [doc₇]
    unfold Doc.revision
    rw [version₆]
  · rw [doc₇]
    unfold Doc.Settled
    rw [rows₆, version₆, ← List.length_eq_zero_iff]
    rcases advanced with ⟨hz, hc⟩ | ⟨hz, hc⟩
    · simp [hz, hc]
    · simp [hz, hc]
  · refine Compared.accepted compared h.classify ?_ rfl rfl rfl ?_ rfl
    · rw [doc₃, doc₂]
    · rw [doc₃]
  · intro hfirst doc hdoc
    cases hdoc
    have hnot : ref ∉ st.held := by simpa using hfirst
    have unchanged : m.current ref = m.rows ref :=
      current_of_none ((h.later hm).unheld ref hnot).1
    show (l₂.current ref).rows = (l₅.rows ref).rows ∧
      (l₂.current ref).revision = (l₅.rows ref).revision
    rw [doc₂, same, docRows₁, revision₁, unchanged]
    exact ⟨rfl, rfl⟩
  · intro _ hall
    have earlier : ∀ x ∈ (st.lock ref).records, x.target = false := ext.untargeted hall
    exact h.tokens earlier
  · split
    · exact advance_classify _ _
    · rfl
  · intro htarget
    change st.targets ref = false at htarget
    simp [htarget]
  · refine ext.record fun x hx => ?_
    have hx₄ : x ∈ st'.held := ext.held x (List.mem_cons_of_mem ref hx)
    have hx₅ : l₅.held x := inv₅.held x hx₄
    have hx₁ : l₁.held x := inv₁.held x (List.mem_cons_of_mem ref hx)
    rw [h₇.kept x (t₆.held x hx₅), t₆.rows x hx₅, h₅.kept x (inv₄.held x hx₄),
      ext.rows x (List.mem_cons_of_mem ref hx), h₃.kept x (h₂.onward.held x hx₁), h₂.kept x hx₁,
      t₁.rows x (hm.onward.held x (h.held x hx)), hm.kept x (h.held x hx)]

theorem onCreate_ensures {uid : String} {row : Row} {more : List Row}
    (h : st.Inv scope busy l) :
    (onCreate uid row more st).Ensures (docGuarantee Row)
      (fun st' l' => st'.Inv scope busy l' ∧ Extends st st' l l') l := by
  unfold onCreate
  split
  · trivial
  refine ensures_insert fun l₁ h₁ ref _ hblank hnew => ⟨trivial, ?_⟩
  have inv₂ : (st.lock ref).Inv scope (ref :: busy) (l₁.put ref ⟨row :: more, none⟩) := by
    refine (h.later h₁).lock (touches_put l₁ ref _) (put_held_self _ _ _) rfl ?_
    rw [put_current_self, current_of_none hnew, hblank]
    rfl
  refine ensures_currentDoc fun l₃ h₃ => ?_
  have inv₃ := inv₂.later h₃
  have held₃ : l₃.held ref := inv₃.held ref List.mem_cons_self
  have doc₃ : l₃.current ref = ⟨row :: more, none⟩ := by
    rw [h₃.current_eq (put_held_self _ _ _), put_current_self]
  refine ensures_advanceRevision held₃ fun l₄ t₄ doc₄ => ?_
  intro l₅ h₅
  have doc₅ : l₅.current ref = l₄.current ref := h₅.current_eq (t₄.held ref held₃)
  show Session.Inv scope busy ⟨_, (st.lock ref).held, (st.lock ref).records ++ [_]⟩ l₅ ∧ _
  refine ⟨inv₃.record List.mem_cons_self (t₄.trans (touches_later ref h₅)) rfl ?_ ?_ ?_ ?_ ?_ ?_ ?_
    ?_, ?_⟩
  · refine Or.inr ⟨?_, rfl⟩
    rw [doc₃]
    simp
  · rw [doc₅, doc₄]
    rfl
  · rw [doc₅, doc₄, doc₃]
    simp [Doc.Settled, Doc.withVersion]
  · intro ht
    cases ht
  · intro _ doc hd
    cases hd
  · intro ht
    cases ht
  · exact (bindCreated_same st.scope ref _).1
  · intro _
    exact (bindCreated_same st.scope ref _).2
  · refine ⟨⟨[_], rfl⟩, fun x hx => List.mem_cons_of_mem ref hx, ?_⟩
    intro x hx
    have hx₃ : l₃.held x := inv₃.held x (List.mem_cons_of_mem ref hx)
    rw [h₅.kept x (t₄.held x hx₃), t₄.rows x hx₃,
      h₃.kept x (inv₂.held x (List.mem_cons_of_mem ref hx)), put_rows, h₁.kept x (h.held x hx)]

end Mutations

/-- Every action keeps the invariant, whatever it does to the rows it may write. -/
theorem Action.run_ensures (action : Action Row) {current : Option DocumentRef}
    (within : ∀ ref, current = some ref → ref ∈ busy ∧ ref ∈ st.held) (h : st.Inv scope busy l) :
    (action.run current st).Ensures (docGuarantee Row)
      (fun st' l' => st'.Inv scope busy l' ∧ Extends st st' l l') l := by
  induction action generalizing current busy st l with
  | done =>
      intro l' hl
      exact ⟨h.later hl, .refl st fun x hx => hl.kept x (h.held x hx)⟩
  | throw => cases current <;> trivial
  | read next ih =>
      cases current <;>
      · refine ensures_select fun l₁ h₁ keys => ?_
        have ext : Extends st st l l₁ := .refl st fun x hx => h₁.kept x (h.held x hx)
        exact ext.ensures (ih _ within (h.later h₁))
  | write change next ih =>
      cases current with
      | none => exact ih within h
      | some ref =>
          obtain ⟨hbusy, hheld⟩ := within ref rfl
          refine ensures_updateWhere ?_ fun _ _ hf => nomatch hf
          intro l₁ h₁ _
          have ext : Extends st st l (l₁.put ref (Doc.mapRows change (l₁.current ref))) :=
            .refl st fun x hx => h₁.kept x (h.held x hx)
          exact ⟨trivial, ext.ensures (ih within ((h.later h₁).write hheld hbusy rfl))⟩
  | mutate ref inner next ihInner ihNext =>
      cases current <;>
      · refine Ensures.bind ((onDocument_ensures h fun m hm => ?_).mono fun st₁ l₁ both => ?_)
        · refine ihInner ?_ hm
          intro ref' hr
          cases hr
          exact ⟨List.mem_cons_self, List.mem_cons_self⟩
        · refine both.2.ensures (ihNext ?_ both.1)
          intro ref' hr
          obtain ⟨hb, hs⟩ := within ref' hr
          exact ⟨hb, both.2.held ref' hs⟩
  | create uid row more next ih =>
      cases current <;>
      · refine Ensures.bind ((onCreate_ensures h).mono fun st₁ l₁ both => ?_)
        refine both.2.ensures (ih ?_ both.1)
        intro ref' hr
        obtain ⟨hb, hs⟩ := within ref' hr
        exact ⟨hb, both.2.held ref' hs⟩

/-! ## Every interleaving -/

/-- What a committed transaction says of the documents before and after it. -/
structure Lawful (scope : Option (AuthoringScope Row)) (records : List (MutationRecord Row))
    (before after : DocumentRef → Doc Row) : Prop where
  accepted : ∀ r ∈ records, r.Accepted scope
  found : ∀ r ∈ records, r.Found before
  client : ClientTokens scope records
  counts : ∀ ref, Counts (before ref).revision (onRef ref records) (after ref).revision
  settled : ∀ ref, (∃ r ∈ records, r.ref = ref) → (after ref).Settled
  untouched : ∀ ref, (∀ r ∈ records, r.ref ≠ ref) → after ref = before ref

def docPost (Row : Type) : Database.Post DocumentRef (Doc Row) (Session Row) (DocCall Row) :=
  fun call result before changes =>
    Lawful call.scope result.records before (overlay changes before)

/-- At the end of a transaction no mutation runs any more. -/
theorem Session.Inv.lawful (h : st.Inv scope [] l) :
    Lawful scope st.records l.rows (overlay l.changes l.rows) := by
  refine ⟨h.accepted, h.found, h.client, h.counts, ?_, ?_⟩
  · intro ref hr
    obtain ⟨r, hmem, rfl⟩ := hr
    exact (h.settled r.ref (h.mem_held hmem) (List.not_mem_nil)).2
  · intro ref hr
    by_cases hheld : ref ∈ st.held
    · obtain ⟨⟨r, hmem, hrr⟩, _⟩ := h.settled ref hheld List.not_mem_nil
      exact absurd hrr (hr r hmem)
    · exact current_of_none (h.unheld ref hheld).1

theorem docCall_ensures (call : DocCall Row) (rows : DocumentRef → Doc Row)
    (held : DocumentRef → Prop) :
    call.program.Ensures (docGuarantee Row) ((docPost Row).holds call)
      ⟨rows, held, fun _ => none⟩ := by
  have start : Session.Inv call.scope [] ⟨call.scope, [], []⟩ ⟨rows, held, fun _ => none⟩ := by
    refine ⟨?_, by simp, fun _ => rfl, by simp, by simp, by simp, ?_, rfl, fun _ => ⟨rfl, rfl⟩⟩
    · intro ref _
      exact ⟨rfl, by simp⟩
    · intro before r after hsplit
      simp at hsplit
  have outside : ∀ ref, none = some ref → ref ∈ ([] : List DocumentRef) ∧ ref ∈ [] := by simp
  have run := call.action.run_ensures outside start
  exact run.mono fun st l both => both.1.lawful

section Runs
variable {τ : Type} [DecidableEq τ]

/-- The documents with their writers; `τ` names the transactions. -/
abbrev DocSystem (τ Row : Type) : Type :=
  Database τ DocumentRef (Doc Row) Unit LockRefusal (Session Row) (DocCall Row)

abbrev DocStep (Row : Type) : DocSystem τ Row → TxnLabel τ DocumentRef Unit (DocCall Row) →
    DocSystem τ Row → Prop :=
  Database.Step DocCall.program

/-- The mutations of a document in a part of the log, the oldest first. -/
def mutationsOf (ref : DocumentRef) :
    List (Commit τ DocumentRef (Doc Row) (Session Row) (DocCall Row)) → List (MutationRecord Row)
  | [] => []
  | commit :: earlier => mutationsOf ref earlier ++ onRef ref commit.result.records

omit [DecidableEq τ] in
/-- Commit after commit, the mutations count the revision on. -/
theorem counts_of_linked {first rows : DocumentRef → Doc Row}
    {log : List (Commit τ DocumentRef (Doc Row) (Session Row) (DocCall Row))}
    (linked : Database.Linked first log rows)
    (lawful : ∀ commit ∈ log, Lawful commit.call.scope commit.result.records commit.before
      commit.after) (ref : DocumentRef) :
    Counts (first ref).revision (mutationsOf ref log) (rows ref).revision ∧
      (mutationsOf ref log ≠ [] → (rows ref).Settled) := by
  induction log generalizing rows with
  | nil =>
      cases linked
      exact ⟨rfl, fun hne => absurd rfl hne⟩
  | cons commit earlier ih =>
      obtain ⟨rfl, hrest⟩ := linked
      rw [List.forall_mem_cons] at lawful
      obtain ⟨hcounts, hsettled⟩ := ih hrest lawful.2
      refine ⟨hcounts.append (lawful.1.counts ref), ?_⟩
      intro hne
      by_cases hown : ∀ r ∈ commit.result.records, r.ref ≠ ref
      · rw [lawful.1.untouched ref hown]
        apply hsettled
        intro hnil
        apply hne
        rw [mutationsOf, hnil, onRef_eq_nil hown]
        rfl
      · push Not at hown
        exact lawful.1.settled ref hown

/-- In every interleaving of transactions of scoped and unscoped mutations, which
may fail anywhere: a committed scoped mutation ran on the revision of its tokens
and with its class held under the lock; every committed mutation advances the
revision of its document by one, or removes it with the last row; and a
transaction that threw or failed has changed nothing. -/
theorem no_lost_update {s s' s'' : DocSystem τ Row}
    {labels labels' : List (TxnLabel τ DocumentRef Unit (DocCall Row))}
    (start : s.Started Doc.absent) (first : Runs.Run (DocStep Row) s labels s')
    (second : Runs.Run (DocStep Row) s' labels' s'') :
    (∀ commit ∈ s'.log, Lawful commit.call.scope commit.result.records commit.before
      commit.after) ∧
    (∃ new, s''.log = new ++ s'.log ∧ Database.Linked s'.rows new s''.rows ∧
      ∀ ref, Counts (s'.rows ref).revision (mutationsOf ref new) (s''.rows ref).revision ∧
        ((∀ r ∈ mutationsOf ref new, r.remaining ≠ 0) →
          (s''.rows ref).revision = (s'.rows ref).revision + (mutationsOf ref new).length)) ∧
    (∀ ref, mutationsOf ref s'.log ≠ [] → ((s'.rows ref).rows = [] ↔ (s'.rows ref).version = none)) ∧
    (∀ t r, (t, r) ∈ s'.replies → (r = .failed ∨ ∃ refusal, r = .refused refusal) →
      ∀ commit ∈ s''.log, commit.writer ≠ t) := by
  have sound : s'.Sound (docGuarantee Row) (docPost Row) :=
    (Database.Started.sound (G := docGuarantee Row) start _).run docCall_ensures first
  have sound'' : s''.Sound (docGuarantee Row) (docPost Row) := sound.run docCall_ensures second
  have lawful : ∀ commit ∈ s''.log, Lawful commit.call.scope commit.result.records commit.before
      commit.after := fun commit hc => (sound''.logged commit hc).2
  refine ⟨fun commit hc => (sound.logged commit hc).2, ?_, ?_, ?_⟩
  · obtain ⟨new, hlog, hlinked⟩ := Database.run_linked second
    refine ⟨new, hlog, hlinked, ?_⟩
    intro ref
    have counts := (counts_of_linked hlinked (fun commit hc => by
      apply lawful
      rw [hlog]
      exact List.mem_append_left _ hc) ref).1
    exact ⟨counts, counts.length⟩
  · intro ref
    exact (counts_of_linked (start.linked first) (fun commit hc => (sound.logged commit hc).2) ref).2
  · intro t r hr hne commit hc
    have kept : (t, r) ∈ s''.replies := by
      refine second.invariant (P := fun m => (t, r) ∈ m.replies) ?_ hr
      intro a label b hs ha
      exact hs.replies_grow ha
    exact (((start.traced.run first).run second).refused t r kept hne).2 commit hc

end Runs

/-! ## Two writers with the same token -/

def eventRef : DocumentRef := ⟨"api::event.event", "summerparty"⟩

/-- A form that was loaded at revision 0. -/
def formScope : AuthoringScope Nat where
  uid := some eventRef.uid
  documentId := some eventRef.documentId
  expectedRevision := some 0
  observedRevision := none
  classify := none
  missingClass := none
  committedRevision := none

def saveForm (value : Nat) : DocCall Nat :=
  ⟨some formScope, .mutate eventRef (.write (fun _ => [value]) .done) .done⟩

def oneEvent : DocSystem Nat Nat where
  rows := fun ref => if ref ∈ [eventRef] then ⟨[7], none⟩ else Doc.absent
  keys := [eventRef]
  holder := fun _ => none
  draft := fun _ _ => none
  phase := fun _ => none
  env := ()
  log := []
  replies := []

/-- Both writers begin; the second one waits for the lock of the first. -/
def twoSaves : List (TxnLabel Nat DocumentRef Unit (DocCall Nat)) :=
  [.begin 0 (saveForm 1), .begin 1 (saveForm 2)] ++ List.replicate 10 (.run 0 eventRef) ++
  [.commit 0, .confirm 0] ++ List.replicate 5 (.run 1 eventRef)

def afterTwoSaves : DocSystem Nat Nat :=
  (Runs.follow (Database.next DocCall.program) oneEvent twoSaves).getD oneEvent

theorem oneEvent_started : oneEvent.Started Doc.absent := by
  refine ⟨?_, fun _ => rfl, fun _ _ => rfl, fun _ => rfl, rfl, rfl⟩
  intro k hk
  exact if_neg hk

theorem twoSaves_run : Runs.Run (DocStep Nat) oneEvent twoSaves afterTwoSaves := by
  have hrun : Runs.follow (Database.next DocCall.program) oneEvent twoSaves =
      some afterTwoSaves := rfl
  exact Runs.run_of_follow hrun

theorem no_lost_update_two_saves :
    (afterTwoSaves.rows eventRef).rows = [1] ∧ (afterTwoSaves.rows eventRef).revision = 1 ∧
      (1, Reply.refused (.revisionStale 1)) ∈ afterTwoSaves.replies ∧
      ∀ commit ∈ afterTwoSaves.log, commit.writer ≠ 1 := by
  have refused : (1, Reply.refused (.revisionStale 1)) ∈ afterTwoSaves.replies := by
    have second : afterTwoSaves.replies[1]? = some (1, .refused (.revisionStale 1)) := rfl
    exact List.mem_of_getElem? second
  have all := no_lost_update oneEvent_started twoSaves_run (.refl afterTwoSaves)
  exact ⟨rfl, rfl, refused, all.2.2.2 1 _ refused (Or.inr ⟨_, rfl⟩)⟩

end Sinnlos.Cms

import Sinnlos.Cms.ErasureSweep

/-! # What the erasure's calls ensure

A row of the database only goes away or loses the name of the person, whichever
call changes it and whatever the others commit meanwhile; and every call leaves
behind what it was sent for.
-/

namespace Sinnlos.Cms.Erasure

open Notify Database

/-! ## Rows without the name -/

/-- The row as the rewrite leaves it. -/
def Record.nameless (row : Record) : Record := row.rewrite row

/-- A notification that names nobody any more and is otherwise the same. -/
structure Notification.Nameless (before after : Notification) : Prop where
  actor : after.actor = none
  titleParams : after.titleParams.get? "actor" = none
  type : after.type = before.type
  recipient : after.recipient = before.recipient
  link : after.link = before.link
  sourceType : after.sourceType = before.sourceType
  sourceDocumentId : after.sourceDocumentId = before.sourceDocumentId

theorem nameless_titleParams (row : Notification) :
    ((nameless row).titleParams.getD row.titleParams).get? "actor" = none := by
  unfold nameless
  cases hparams : row.titleParams with
  | obj fields =>
      apply toJson_actor
      rw [buildNotification_titleParams]
      have hfield : Json.field? "actor" (fields.filter fun field => field.1 ≠ "actor") = none := by
        rw [← Option.not_isSome_iff_eq_none, Json.field?_isSome_iff]
        simp
      simp only [cleanTitleParams, hfield, cleanValue]
  | _ => simp [Json.get?, Json.fields?, Json.field?]

theorem write_nameless (row : Notification) : Notification.Nameless row (row.write (nameless row)) where
  actor := rfl
  titleParams := nameless_titleParams row
  type := rfl
  recipient := rfl
  link := rfl
  sourceType := rfl
  sourceDocumentId := rfl

theorem nameless_notification (row : Notification) :
    (Record.notification row).nameless = .notification (row.write (nameless row)) := rfl

variable {row : Record} {person : Nat}

@[simp] theorem names_rewrite (person : Nat) (read row : Record)
    (h : read.names person = true) : (read.rewrite row).names person = false := by
  cases read with
  | notification found =>
      cases row <;> simp [Record.rewrite, Record.names, Notification.write]
  | _ => cases h

@[simp] theorem present_gone : Record.gone.present = false := rfl

theorem eq_gone_of_not_present (h : row.present = false) : row = .gone := by
  cases row with
  | gone => rfl
  | _ => cases h

theorem present_of_names (h : row.names person = true) : row ≠ .gone := by
  rintro rfl
  cases h

/-! ## How rows move -/

def Record.Moves (person : Nat) (before after : Record) : Prop :=
  after = before ∨ after = .gone ∨ (before.names person = true ∧ after = before.nameless)

theorem Moves.of_gone (h : Record.Moves person .gone row) : row = .gone := by
  rcases h with rfl | rfl | ⟨hnames, -⟩
  · rfl
  · rfl
  · cases hnames

theorem Moves.trans {a b c : Record} (h₁ : Record.Moves person a b) (h₂ : Record.Moves person b c) :
    Record.Moves person a c := by
  rcases h₁ with rfl | rfl | ⟨hnames, rfl⟩
  · exact h₂
  · exact Or.inr (Or.inl (Moves.of_gone h₂))
  · rcases h₂ with rfl | rfl | ⟨hagain, -⟩
    · exact Or.inr (Or.inr ⟨hnames, rfl⟩)
    · exact Or.inr (Or.inl rfl)
    · rw [Record.nameless, names_rewrite person a a hnames] at hagain
      cases hagain

def erasureGuarantee (person : Nat) : Guarantee Record where
  blank := .gone
  moves := Record.Moves person
  refl := fun _ => Or.inl rfl
  trans := fun _ _ _ => Moves.trans

section Moves
variable {person : Nat} {before after : Record}

/-- A row that names the person did so before. -/
theorem Moves.names (h : Record.Moves person before after) (names : after.names person = true) :
    before = after := by
  rcases h with rfl | rfl | ⟨hnames, rfl⟩
  · rfl
  · cases names
  · rw [Record.nameless, names_rewrite person before before hnames] at names
    cases names

variable {field : String}

/-- What a row loses with the name is only the actor. -/
theorem relation_nameless (hfield : field ≠ "actor") (row : Record) :
    row.nameless.relation field = row.relation field := by
  cases row with
  | notification row => simp [nameless_notification, Record.relation, Notification.write, hfield]
  | _ => rfl

theorem Moves.links (hfield : field ≠ "actor") (h : Record.Moves person before after)
    (links : after.links field person = true) : before.links field person = true := by
  rcases h with rfl | rfl | ⟨-, rfl⟩
  · exact links
  · cases links
  · rwa [Record.links, relation_nameless hfield] at links

/-- A row that is no notification stays or goes. -/
theorem Moves.eq_or_gone (h : Record.Moves person before after)
    (other : before.names person = false) : after = before ∨ after = .gone := by
  rcases h with rfl | rfl | ⟨hnames, -⟩
  · exact Or.inl rfl
  · exact Or.inr rfl
  · rw [other] at hnames
    cases hnames

theorem Moves.isShareOf (h : Record.Moves person before after)
    (share : after.isShareOf person = true) : before = after := by
  rcases h with rfl | rfl | ⟨hnames, rfl⟩
  · rfl
  · cases share
  · cases before <;> first | cases hnames | cases share

end Moves

/-! ## The ids of a read -/

variable {uid : Uid}

theorem mem_idsWhere {view : View RowKey Record} {condition : Record → Bool} {id : Nat} :
    id ∈ idsWhere view uid condition ↔
      ⟨uid, id⟩ ∈ view.keys ∧ condition (view.row ⟨uid, id⟩) = true := by
  simp only [idsWhere, List.mem_map, List.mem_filter, List.mem_dedup, Bool.and_eq_true,
    decide_eq_true_eq]
  constructor
  · rintro ⟨⟨uid', id'⟩, ⟨hkey, rfl, hcondition⟩, rfl⟩
    exact ⟨hkey, hcondition⟩
  · rintro ⟨hkey, hcondition⟩
    exact ⟨⟨uid, id⟩, ⟨hkey, rfl, hcondition⟩, rfl⟩

theorem idsWhere_nodup (view : View RowKey Record) (uid : Uid) (condition : Record → Bool) :
    (idsWhere view uid condition).Nodup := by
  apply List.Nodup.map_on
  · rintro ⟨uid₁, id₁⟩ h₁ ⟨uid₂, id₂⟩ h₂ rfl
    simp only [List.mem_filter, Bool.and_eq_true, decide_eq_true_eq] at h₁ h₂
    rw [h₁.2.1, h₂.2.1]
  · exact (List.nodup_dedup view.keys).filter _

theorem mem_keysOf {ids : List Nat} {k : RowKey} :
    k ∈ keysOf uid ids ↔ k.uid = uid ∧ k.id ∈ ids := by
  obtain ⟨uid', id⟩ := k
  simp only [keysOf, List.mem_map, RowKey.mk.injEq]
  constructor
  · rintro ⟨id', hid, rfl, rfl⟩
    exact ⟨rfl, hid⟩
  · rintro ⟨rfl, hid⟩
    exact ⟨id, hid, rfl, rfl⟩

/-! ## Along the guarantee -/

/-- What a call commits: the rows it deletes, or those that lose the name. -/
def erasePost (person : Nat) : Post RowKey Record EraseResult EraseCall :=
  fun call _ before changes => ∀ k row, changes k = some row →
    match call with
    | .rewriteActorPage _ => (before k).names person = true ∧ row = (before k).nameless
    | _ => row = .gone

section Ensures
variable {person : Nat} {ε ρ : Type} {l : Knowledge RowKey Record}

/-- Rows that are only deleted. -/
def Deletes (l : Knowledge RowKey Record) : Prop := ∀ k row, l.changes k = some row → row = .gone

theorem Deletes.put (h : Deletes l) (k : RowKey) : Deletes (l.put k .gone) := by
  intro j row hrow
  by_cases hj : j = k
  · rw [hj, Knowledge.put_changes_self] at hrow
    exact (Option.some.inj hrow).symm
  · rw [Knowledge.put_changes_of_ne l _ hj] at hrow
    exact h j row hrow

variable {G : Guarantee Record} {l' : Knowledge RowKey Record}

theorem Deletes.later (h : Deletes l) (later : l.Later G l') : Deletes l' := by
  intro k row hrow
  rw [later.changes] at hrow
  exact h k row hrow

variable {keys : List RowKey} {read : RowKey → Record}

theorem deleteEach_ensures (condition : Record → Bool) (h : Deletes l) :
    (deleteEach condition keys).Ensures (erasureGuarantee person) (fun _ => Deletes) l := by
  unfold deleteEach
  induction keys generalizing l with
  | nil => exact fun l' later => h.later later
  | cons k keys ih =>
      apply Txn.ensures_updateWhere
      · intro l' later _
        exact ⟨Or.inr (Or.inl rfl), ih ((h.later later).put k)⟩
      · intro l' later _
        exact ih (h.later later)

/-- Every row to lock is held in the end, or it is gone. -/
theorem lockEach_ensures (locked : RowKey → Prop) (clean : l.changes = fun _ => none)
    (h : ∀ k, locked k → k ∈ keys ∨ l.held k ∨ l.rows k = .gone) :
    (Txn.lockEach Record.present keys : EraseTxn Unit).Ensures (erasureGuarantee person)
      (fun _ l' => l'.changes = (fun _ => none) ∧ ∀ k, locked k → l'.held k ∨ l'.rows k = .gone)
      l := by
  have later : ∀ {l l' : Knowledge RowKey Record} {k : RowKey}, l.Later (erasureGuarantee person) l' →
      l.held k ∨ l.rows k = .gone → l'.held k ∨ l'.rows k = .gone := by
    intro l l' k hlater hk
    rcases hk with hheld | hgone
    · rw [hlater.held]
      exact Or.inl hheld
    · have hmoved := hlater.moved k
      rw [hgone] at hmoved
      exact Or.inr (Moves.of_gone hmoved)
  induction keys generalizing l with
  | nil =>
      intro l' hlater
      refine ⟨hlater.changes.trans clean, ?_⟩
      intro k hk
      exact later hlater ((h k hk).resolve_left List.not_mem_nil)
  | cons j keys ih =>
      apply Txn.ensures_forUpdate
      · intro l' hlater _
        apply ih (l := l'.hold j) (hlater.changes.trans clean)
        intro k hk
        rcases h k hk with hmem | hknown
        · rcases List.mem_cons.mp hmem with rfl | hrest
          · exact Or.inr (Or.inl (Knowledge.hold_held_self l' k))
          · exact Or.inl hrest
        · exact Or.inr ((later hlater hknown).imp_left Or.inr)
      · intro l' hlater hmissing
        apply ih (hlater.changes.trans clean)
        intro k hk
        rcases h k hk with hmem | hknown
        · rcases List.mem_cons.mp hmem with rfl | hrest
          · rw [Knowledge.current_of_none (by rw [hlater.changes, clean])] at hmissing
            exact Or.inr (Or.inr (eq_gone_of_not_present hmissing))
          · exact Or.inl hrest
        · exact Or.inr (later hlater hknown)

/-- What is known while rows are rewritten: those of the list are held as they
were read, and only such rows were changed. -/
structure Rewriting (person : Nat) (read : RowKey → Record) (keys : List RowKey)
    (l : Knowledge RowKey Record) : Prop where
  held : ∀ k ∈ keys, l.held k ∧ l.rows k = read k
  names : ∀ k ∈ keys, (read k).names person = true
  unchanged : ∀ k ∈ keys, l.changes k = none
  changed : ∀ k row, l.changes k = some row →
    l.held k ∧ (l.rows k).names person = true ∧ row = (l.rows k).nameless

theorem Rewriting.later (h : Rewriting person read keys l) (later : l.Later G l') :
    Rewriting person read keys l' := by
  refine ⟨?_, h.names, ?_, ?_⟩
  · intro k hk
    obtain ⟨hheld, hrow⟩ := h.held k hk
    rw [later.held, later.kept k hheld]
    exact ⟨hheld, hrow⟩
  · intro k hk
    rw [later.changes]
    exact h.unchanged k hk
  · intro k row hrow
    rw [later.changes] at hrow
    obtain ⟨hheld, hnames⟩ := h.changed k row hrow
    rw [later.held, later.kept k hheld]
    exact ⟨hheld, hnames⟩

variable {k : RowKey}

theorem Rewriting.put (h : Rewriting person read (k :: keys) l) (fresh : k ∉ keys) :
    Rewriting person read keys (l.put k (read k).nameless) := by
  have ne : ∀ j ∈ keys, j ≠ k := by
    rintro j hj rfl
    exact fresh hj
  refine ⟨?_, ?_, ?_, ?_⟩
  · intro j hj
    obtain ⟨hheld, hrow⟩ := h.held j (List.mem_cons_of_mem k hj)
    exact ⟨Or.inr hheld, hrow⟩
  · intro j hj
    exact h.names j (List.mem_cons_of_mem k hj)
  · intro j hj
    rw [Knowledge.put_changes_of_ne l _ (ne j hj)]
    exact h.unchanged j (List.mem_cons_of_mem k hj)
  · intro j row hrow
    by_cases hj : j = k
    · rw [hj, Knowledge.put_changes_self] at hrow
      obtain ⟨_, hread⟩ := h.held k List.mem_cons_self
      have hnames := h.names k List.mem_cons_self
      rw [hj, Knowledge.put_rows, hread]
      exact ⟨Knowledge.put_held_self l k _, hnames, (Option.some.inj hrow).symm⟩
    · rw [Knowledge.put_changes_of_ne l _ hj] at hrow
      obtain ⟨hheld, hrest⟩ := h.changed j row hrow
      exact ⟨Or.inr hheld, hrest⟩

theorem rewriteEach_ensures (unique : keys.Nodup) (h : Rewriting person read keys l) :
    (Txn.updateEach Record.present (fun k => (read k).rewrite) keys : EraseTxn Unit).Ensures
      (erasureGuarantee person) (fun _ => Rewriting person read []) l := by
  induction keys generalizing l with
  | nil => exact fun l' later => h.later later
  | cons k keys ih =>
      rw [List.nodup_cons] at unique
      apply Txn.ensures_updateWhere
      · intro l' later _
        have hnow := h.later later
        obtain ⟨_, hrow⟩ := hnow.held k List.mem_cons_self
        have hcurrent : l'.current k = read k := by
          rw [Knowledge.current_of_none (hnow.unchanged k List.mem_cons_self), hrow]
        have hnames := hnow.names k List.mem_cons_self
        rw [hcurrent, hrow]
        exact ⟨Or.inr (Or.inr ⟨hnames, rfl⟩), ih unique.2 (hnow.put unique.1)⟩
      · intro l' later hmissing
        have hnow := h.later later
        obtain ⟨_, hrow⟩ := hnow.held k List.mem_cons_self
        rw [Knowledge.current_of_none (hnow.unchanged k List.mem_cons_self), hrow] at hmissing
        exact absurd (eq_gone_of_not_present hmissing)
          (present_of_names (hnow.names k List.mem_cons_self))

/-- The rows to rewrite are on the page and name the person as they are read. -/
theorem mem_naming {view : View RowKey Record} {page : List Nat}
    (h : k ∈ keysOf .notification
      ((idsWhere view .notification (Record.names person)).filter page.contains)) :
    k ∈ keysOf .notification page ∧ (view.row k).names person = true := by
  obtain ⟨uid, id⟩ := k
  obtain ⟨rfl, hid⟩ := mem_keysOf.mp h
  obtain ⟨hids, hpage⟩ := List.mem_filter.mp hid
  exact ⟨mem_keysOf.mpr ⟨rfl, by simpa using hpage⟩, (mem_idsWhere.mp hids).2⟩

theorem keysOf_nodup {uid : Uid} {ids : List Nat} (h : ids.Nodup) : (keysOf uid ids).Nodup := by
  apply h.map
  intro a b heq
  cases heq
  rfl

theorem rewriteActorPage_ensures (page : List Nat) (clean : l.changes = fun _ => none) :
    (rewriteActorPage person page).Ensures (erasureGuarantee person)
      ((erasePost person).holds (.rewriteActorPage page)) l := by
  apply Txn.Ensures.bind
  refine (lockEach_ensures (fun k => k ∈ keysOf .notification page) clean
    fun k hk => Or.inl hk).mono ?_
  rintro - m ⟨hclean, hlocked⟩
  apply Txn.ensures_select
  intro l' later keys
  have hchanges : l'.changes = fun _ => none := later.changes.trans hclean
  have hcurrent : ∀ k, l'.current k = l'.rows k := fun k =>
    Knowledge.current_of_none (by rw [hchanges])
  apply Txn.Ensures.bind
  refine (rewriteEach_ensures (keysOf_nodup ((idsWhere_nodup _ _ _).filter _)) ?_).mono ?_
  · refine ⟨?_, ?_, ?_, ?_⟩
    · intro k hk
      obtain ⟨hpage, hnames⟩ := mem_naming hk
      rcases hlocked k hpage with hheld | hgone
      · refine ⟨?_, (hcurrent k).symm⟩
        rw [later.held]
        exact hheld
      · have hmoved := later.moved k
        rw [hgone] at hmoved
        exact absurd ((hcurrent k).trans (Moves.of_gone hmoved)) (present_of_names hnames)
    · exact fun k hk => (mem_naming hk).2
    · intro k _
      rw [hchanges]
    · intro k row hrow
      rw [hchanges] at hrow
      cases hrow
  · rintro - m' hm l'' later'
    intro k row hrow
    exact ((hm.later later').changed k row hrow).2

theorem deleteWhere_ensures (uid : Uid) (condition : Record → Bool) (h : Deletes l) :
    (deleteWhere uid condition).Ensures (erasureGuarantee person) (fun _ => Deletes) l := by
  apply Txn.ensures_select
  intro l' later keys
  apply Txn.Ensures.bind
  refine (deleteEach_ensures condition (h.later later)).mono ?_
  intro _ m hm l'' later'
  exact hm.later later'

theorem deleteMany_ensures (uid : Uid) (ids : List Nat) (h : Deletes l) :
    (deleteMany uid ids).Ensures (erasureGuarantee person) (fun _ => Deletes) l := by
  apply Txn.Ensures.bind
  refine (deleteEach_ensures Record.present h).mono ?_
  intro _ m hm l' later
  exact hm.later later

theorem eraseProgram_ensures (person : Nat) (call : EraseCall) (rows : RowKey → Record)
    (held : RowKey → Prop) :
    (eraseProgram person call).Ensures (erasureGuarantee person) ((erasePost person).holds call)
      ⟨rows, held, fun _ => none⟩ := by
  have none : Deletes ⟨rows, held, fun _ => none⟩ := by
    intro k row hrow
    cases hrow
  cases call with
  | deleteMany uid ids => exact (deleteMany_ensures uid ids none).mono fun _ _ h => h
  | deleteClassified documentId | deleteShareNotifications shares =>
      exact (deleteWhere_ensures _ _ none).mono fun _ _ h => h
  | rewriteActorPage page => exact rewriteActorPage_ensures page rfl

end Ensures

/-! ## What the calls leave behind -/

def eraseDeed (person : Nat) : Deed RowKey Record EraseCall
  | .deleteMany uid ids, rows => ∀ id ∈ ids, rows ⟨uid, id⟩ = .gone
  | .deleteClassified documentId, rows => ∀ id, (rows ⟨.classified, id⟩).ofDocument documentId = false
  | .deleteShareNotifications shares, rows => ∀ id, (rows ⟨.notification, id⟩).announces shares = false
  | .rewriteActorPage page, rows => ∀ id ∈ page, (rows ⟨.notification, id⟩).names person = false

section Deeds
variable {person : Nat} {before after : Record}

theorem Moves.ofDocument {documentId : String} (h : Record.Moves person before after)
    (no : before.ofDocument documentId = false) : after.ofDocument documentId = false := by
  rcases h with rfl | rfl | ⟨hnames, rfl⟩
  · exact no
  · rfl
  · cases before <;> first | rfl | cases hnames

theorem Moves.announces {shares : List SecretShare} (h : Record.Moves person before after)
    (no : before.announces shares = false) : after.announces shares = false := by
  rcases h with rfl | rfl | ⟨-, rfl⟩
  · exact no
  · rfl
  · cases before with
    | notification row => exact no
    | _ => rfl

theorem Moves.not_names (h : Record.Moves person before after)
    (no : before.names person = false) : after.names person = false := by
  rw [← Bool.not_eq_true] at no ⊢
  intro hnames
  rw [Moves.names h hnames] at no
  exact no hnames

theorem eraseDeed_lasts (call : EraseCall) :
    (erasureGuarantee person).Lasts (eraseDeed person call) := by
  intro rows rows' h moved
  cases call with
  | deleteMany uid ids =>
      intro id hid
      have hmoved := moved ⟨uid, id⟩
      rw [h id hid] at hmoved
      exact Moves.of_gone hmoved
  | deleteClassified documentId => exact fun id => Moves.ofDocument (moved _) (h id)
  | deleteShareNotifications shares => exact fun id => Moves.announces (moved _) (h id)
  | rewriteActorPage page => exact fun id hid => Moves.not_names (moved _) (h id hid)

variable {τ : Type} [DecidableEq τ] {t : τ}
  {s : Database τ RowKey Record Unit Empty EraseResult EraseCall}

theorem deleteMany_along (uid : Uid) (ids : List Nat) :
    (deleteMany uid ids).Along (moving (erasureGuarantee person)) t
      ((eraseDeed person).reached (.deleteMany uid ids) t) s := by
  let fact : RowKey → Record → Prop := fun k row => k ∈ keysOf uid ids → row = .gone
  have keeps : (erasureGuarantee person).Keeps fact := by
    intro k a b ha moves hk
    rw [ha hk] at moves
    exact Moves.of_gone moves
  apply Txn.Along.bind
  refine (Txn.updateEach_along keeps ?_ ?_ ?_).mono ?_
  · exact fun k row hrow _ => eq_gone_of_not_present hrow
  · exact fun k _ row _ => rfl
  · intro k
    by_cases hk : k ∈ keysOf uid ids
    · exact Or.inl hk
    · exact Or.inr fun h => absurd h hk
  · intro _ m _ hm m' onward _ id hid
    exact (hm ⟨uid, id⟩).onward keeps onward (mem_keysOf.mpr ⟨rfl, hid⟩)

/-- What meets the condition is deleted, and nothing comes to meet it meanwhile. -/
theorem deleteWhere_along {uid : Uid} {condition : Record → Bool} (absent : condition .gone = false)
    (keeps : ∀ a b, condition a = false → Record.Moves person a b → condition b = false) :
    (deleteWhere uid condition).Along (moving (erasureGuarantee person)) t
      (fun _ m => ∀ id, condition (m.current t ⟨uid, id⟩) = false) s := by
  let fact : RowKey → Record → Prop := fun k row => k.uid = uid → condition row = false
  have keeps : (erasureGuarantee person).Keeps fact := by
    intro k a b ha moves hk
    exact keeps a b (ha hk) moves
  apply Txn.along_select
  intro s' _ good
  apply Txn.Along.bind
  refine (Txn.updateEach_along keeps ?_ ?_ ?_).mono ?_
  · exact fun k row hrow _ => hrow
  · exact fun k _ row _ => absent
  · intro k
    by_cases hk : k ∈ keysOf uid (idsWhere (s'.view t) uid condition)
    · exact Or.inl hk
    · refine Or.inr fun huid => ?_
      rw [← Bool.not_eq_true]
      intro hcondition
      by_cases hkey : k ∈ s'.keys
      · obtain ⟨kuid, id⟩ := k
        cases huid
        exact hk (mem_keysOf.mpr ⟨rfl, mem_idsWhere.mpr ⟨hkey, hcondition⟩⟩)
      · obtain ⟨hrow, hdraft⟩ := good.fresh k hkey
        rw [current_of_draft_none (hdraft t), hrow] at hcondition
        exact Bool.false_ne_true (absent.symm.trans hcondition)
  · intro _ m _ hm m' onward _ id
    exact (hm ⟨uid, id⟩).onward keeps onward rfl

theorem rewriteActorPage_along (page : List Nat) :
    (rewriteActorPage person page).Along (moving (erasureGuarantee person)) t
      ((eraseDeed person).reached (.rewriteActorPage page) t) s := by
  let fact : RowKey → Record → Prop := fun k row =>
    k ∈ keysOf .notification page → row.names person = false
  have keeps : (erasureGuarantee person).Keeps fact := by
    intro k a b ha moves hk
    exact Moves.not_names moves (ha hk)
  apply Txn.along_quiet (Txn.lockEach_quiet _ _)
  intro _ s₁ _
  apply Txn.along_select
  intro s₂ _ good
  apply Txn.Along.bind
  refine (Txn.updateEach_along keeps ?_ ?_ ?_).mono ?_
  · intro k row hrow _
    rw [eq_gone_of_not_present hrow]
    rfl
  · exact fun k hk row _ => names_rewrite person _ row (mem_naming hk).2
  · intro k
    by_cases hk : k ∈ keysOf .notification
        ((idsWhere (s₂.view t) .notification (Record.names person)).filter page.contains)
    · exact Or.inl hk
    · refine Or.inr fun hpage => ?_
      rw [← Bool.not_eq_true]
      intro hnames
      obtain ⟨huid, hid⟩ := mem_keysOf.mp hpage
      by_cases hkey : k ∈ s₂.keys
      · obtain ⟨kuid, id⟩ := k
        cases huid
        have hids : id ∈ idsWhere (s₂.view t) .notification (Record.names person) :=
          mem_idsWhere.mpr ⟨hkey, hnames⟩
        exact hk (mem_keysOf.mpr ⟨rfl, List.mem_filter.mpr ⟨hids, by simpa using hid⟩⟩)
      · obtain ⟨hrow, hdraft⟩ := good.fresh k hkey
        rw [current_of_draft_none (hdraft t), hrow] at hnames
        cases hnames
  · intro _ m _ hm m' onward _ id hid
    exact (hm ⟨.notification, id⟩).onward keeps onward (mem_keysOf.mpr ⟨rfl, hid⟩)

theorem eraseProgram_along (call : EraseCall) :
    (eraseProgram person call).Along (moving (erasureGuarantee person)) t
      ((eraseDeed person).reached call t) s := by
  cases call with
  | deleteMany uid ids => exact deleteMany_along uid ids
  | deleteClassified documentId =>
      exact (deleteWhere_along rfl fun a b no moves => Moves.ofDocument moves no).mono
        fun _ _ _ h => h
  | deleteShareNotifications shares =>
      exact (deleteWhere_along rfl fun a b no moves => Moves.announces moves no).mono
        fun _ _ _ h => h
  | rewriteActorPage page => exact rewriteActorPage_along page

theorem erasure_serving (ω : Type) [DecidableEq ω] (person : Nat) :
    Crew.Serving ω (erasureGuarantee person) (erasePost person) (eraseDeed person)
      (eraseProgram person) where
  ensures := eraseProgram_ensures person
  lasts := eraseDeed_lasts
  does := fun _ call _ _ => eraseProgram_along call

end Deeds

end Sinnlos.Cms.Erasure

import Sinnlos.Cms.PublishReadiness

/-! # A publish keeps the links it was shown

What the core action is relied on for, what another transaction's commit leaves
of the rows of a document, and from both: a guarded action that commits has
published every readiness relation of its draft, and one that does not commit
leaves the rows to the others.
-/

namespace Sinnlos.Cms.Readiness

/-! ## The core action -/

/-- Beside a draft there is a published row, whose readiness relations are resolved from
the draft's: to the same document, or to none. -/
def Copied (tables : Tables) (uid documentId : String) : Prop :=
  ∀ draft, tables.rowOf uid documentId false = some draft →
    ∃ row, tables.rowOf uid documentId true = some row ∧ ∀ key ∈ READINESS_RELATIONS uid,
      tables.linkedDocumentId row key = none ∨
        tables.linkedDocumentId row key = tables.linkedDocumentId draft key

/-- What the core action does, in any content type and among any other commits. -/
structure CoreLaw (core : Core) : Prop where
  /-- A create answers the row it made. -/
  named : ∀ {uid data status acts tables result after},
    core uid (.create data status) acts tables = .done result after →
      ∃ documentId, result = some documentId ∧ documentId ≠ ""
  /-- A publish makes no draft. -/
  noDraft : ∀ {uid} {documentId : DocumentId} {acts tables result after},
    core uid (.publish documentId) acts tables = .done result after →
      tables.rowOf uid documentId.text false = none → after.rowOf uid documentId.text false = none
  /-- An action that publishes copies the draft. -/
  copies : ∀ {uid action acts tables result after documentId},
    core uid action acts tables = .done result after → action.publishes = true →
      documentIdOf action result = some documentId → Copied after uid documentId

/-- Each readiness relation that the draft links, the published row links too, to the
same document. -/
def KeepsLinks (tables : Tables) (uid documentId : String) : Prop :=
  ∀ draft, tables.rowOf uid documentId false = some draft →
    ∃ row, tables.rowOf uid documentId true = some row ∧ ∀ key ∈ READINESS_RELATIONS uid,
      ∀ target, tables.linkedDocumentId draft key = some target →
        tables.linkedDocumentId row key = some target

/-- No required scalar is missing. -/
def FullyGiven (attributes : Attributes) (draft : List (String × Json)) : Prop :=
  ∀ entry ∈ attributes, ∀ type, entry.2.type = some type → type ≠ "" → type ∉ SKIPPED_TYPES →
    entry.2.required = true → isGiven (Json.field? entry.1 draft) = true

/-! ## What an act leaves of a row -/

section Apply
variable {tables : Tables} {act : TargetAct}

/-- A filter that keeps the first match keeps what is found. -/
theorem find?_filter_of_first {α : Type} {p q : α → Bool} {items : List α}
    (first : ∀ a, items.find? p = some a → q a = true) :
    (items.filter q).find? p = items.find? p := by
  induction items with
  | nil => rfl
  | cons a items ih =>
      cases hp : p a with
      | true =>
          have hq : q a = true := first a (List.find?_cons_of_pos hp)
          simp [hq, hp]
      | false =>
          have hrest := ih fun b hb => first b (by simpa [hp] using hb)
          cases hq : q a with
          | true | false => simp [hq, hp, hrest]

variable {uid : String} {row : Row}

theorem find?_apply {p : Row → Bool} (added : ∀ row ∈ act.adds uid, p row = false)
    (stays : ∀ row, (tables uid).find? p = some row → uid = act.uid → act.removes row = false)
    (blind : ∀ row, p (tables.relinked act row) = p row) :
    (tables.apply act uid).find? p = ((tables uid).find? p).map (tables.relinked act) := by
  have hadds : (act.adds uid).find? p = none := by
    rw [List.find?_eq_none]
    intro row hrow
    rw [added row hrow]
    decide
  have hcomp : p ∘ tables.relinked act = p := funext blind
  unfold Tables.apply
  rw [List.find?_append, hadds, Option.or_none, List.find?_map, hcomp, find?_filter_of_first]
  intro row hrow
  by_cases huid : uid = act.uid
  · simp [stays row hrow huid]
  · simp [huid]

theorem uid_of_mem_adds (h : row ∈ act.adds uid) :
    uid = act.uid ∧ row.documentId = act.documentId ∧ act.movesTo.getD row.id = row.id := by
  cases act with
  | publish own documentId new relinks =>
      simp only [TargetAct.adds] at h
      split at h
      · subst own
        rw [List.mem_singleton] at h
        subst h
        cases relinks <;> exact ⟨rfl, rfl, rfl⟩
      · cases h
  | unpublish _ _ => cases h
  | delete _ _ => cases h

theorem documentId_of_removes (h : act.removes row = true) : row.documentId = act.documentId := by
  cases act with
  | publish _ documentId _ _ | unpublish _ documentId =>
      simp only [TargetAct.removes, Bool.and_eq_true, beq_iff_eq] at h
      exact h.1
  | delete _ documentId => exact beq_iff_eq.mp h

/-- A document that the act is not about keeps its rows, but for where they link. -/
theorem rowOf_apply {documentId : String} {published : Bool}
    (other : ¬(act.uid = uid ∧ act.documentId = documentId)) :
    (tables.apply act).rowOf uid documentId published =
      (tables.rowOf uid documentId published).map (tables.relinked act) := by
  apply find?_apply
  · intro row hrow
    obtain ⟨huid, hdocument, _⟩ := uid_of_mem_adds hrow
    have hne : row.documentId ≠ documentId := fun h => other ⟨huid.symm, hdocument.symm.trans h⟩
    simp [hne]
  · intro row hfound huid
    have hrow := List.find?_some hfound
    simp only [Bool.and_eq_true, beq_iff_eq] at hrow
    cases hremoves : act.removes row with
    | false => rfl
    | true =>
        exact absurd ⟨huid.symm, (documentId_of_removes hremoves).symm.trans hrow.1⟩ other
  · intro row
    rfl

variable {id : Nat} {target : String}

/-- The row with an id stays, unless the act removes it. -/
theorem rowById_apply (fresh : ∀ row ∈ act.adds uid, row.id ≠ id)
    (stays : ∀ row, tables.rowById uid id = some row → uid = act.uid → act.removes row = false) :
    (tables.apply act).rowById uid id = (tables.rowById uid id).map (tables.relinked act) := by
  apply find?_apply
  · intro row hrow
    exact beq_false_of_ne (fresh row hrow)
  · exact stays
  · intro row
    rfl

/-- The id of a row that the act adds is new. -/
theorem ne_of_admits (admits : tables.admits uid act = true) (hrow : row ∈ act.adds target) :
    (∀ other ∈ tables target, other.id ≠ row.id) ∧
      ∀ holder ∈ tables uid, ∀ link ∈ holder.links, link.id ≠ some row.id := by
  cases act with
  | publish own documentId new relinks =>
      simp only [TargetAct.adds] at hrow
      split at hrow
      · subst own
        rw [List.mem_singleton] at hrow
        subst hrow
        simpa [Tables.admits] using admits
      · cases hrow
  | unpublish _ _ => cases hrow
  | delete _ _ => cases hrow

/-- The row that the act adds is the one with its id. -/
theorem rowById_adds (admits : tables.admits uid act = true) (adds : act.adds target = [row]) :
    (tables.apply act).rowById target row.id = some row := by
  have hfresh := (ne_of_admits admits (adds ▸ List.mem_singleton_self row)).1
  have hnone : (((tables target).filter fun row => !(target == act.uid && act.removes row)).map
      (tables.relinked act)).find? (fun other => other.id == row.id) = none := by
    rw [List.find?_eq_none]
    intro other hother
    obtain ⟨old, hold, rfl⟩ := List.mem_map.mp hother
    have hne : old.id ≠ row.id := hfresh old (List.mem_filter.mp hold).1
    simpa [Tables.relinked] using hne
  unfold Tables.rowById Tables.apply
  rw [List.find?_append, hnone, adds, Option.none_or]
  simp

/-- The row that a link moves to is the one the act adds. -/
theorem rowById_movesTo (admits : tables.admits uid act = true) (moves : act.movesTo = some id) :
    ((tables.apply act).rowById act.uid id).map Row.documentId = some act.documentId := by
  cases act with
  | publish own documentId new relinks =>
      cases relinks with
      | false => cases moves
      | true =>
          cases moves
          have hnew : (TargetAct.publish own documentId new true).adds own =
              [{ new with documentId := documentId, published := true }] := by
            simp [TargetAct.adds]
          have hadds := rowById_adds admits hnew
          simp only [TargetAct.uid, TargetAct.documentId] at hadds ⊢
          rw [hadds, Option.map_some]
  | unpublish _ _ => cases moves
  | delete _ _ => cases moves

theorem linkedRow_relink (admits : tables.admits uid act = true) {holder : Row}
    (mem : holder ∈ tables uid) {link : Link} (hlink : link ∈ holder.links) :
    ((tables.apply act).linkedRow (tables.relink act link)).map Row.documentId = none ∨
      ((tables.apply act).linkedRow (tables.relink act link)).map Row.documentId =
        (tables.linkedRow link).map Row.documentId := by
  cases hid : link.id with
  | none =>
      have hrow : tables.linkedRow link = none := by simp [Tables.linkedRow, hid]
      have hsame : tables.relink act link = link := by simp [Tables.relink, hrow]
      left
      rw [hsame]
      simp [Tables.linkedRow, hid]
  | some id =>
      have hrow : tables.linkedRow link = tables.rowById link.target id := by
        simp [Tables.linkedRow, hid]
      have hfresh : ∀ row ∈ act.adds link.target, row.id ≠ id := by
        intro row hadds heq
        exact (ne_of_admits admits hadds).2 holder mem link hlink (heq ▸ hid)
      by_cases hbreaks : ∃ row, tables.linkedRow link = some row ∧ link.target = act.uid ∧
          act.removes row = true
      · obtain ⟨row, hfound, htarget, hremoves⟩ := hbreaks
        have hmoved : tables.relink act link = { link with id := act.movesTo } := by
          simp [Tables.relink, hfound, htarget, hremoves]
        rw [hmoved, hfound]
        cases hmoves : act.movesTo with
        | none => exact Or.inl rfl
        | some new =>
            right
            have hnew := rowById_movesTo admits hmoves
            simp only [Tables.linkedRow, Option.bind_some, htarget, hnew, Option.map_some,
              documentId_of_removes hremoves]
      · have hstays : ∀ row, tables.rowById link.target id = some row → link.target = act.uid →
            act.removes row = false := by
          intro row hfound htarget
          cases hremoves : act.removes row with
          | false => rfl
          | true => exact absurd ⟨row, hrow.trans hfound, htarget, hremoves⟩ hbreaks
        have hsame : tables.relink act link = link := by
          unfold Tables.relink
          split
          · next row hfound =>
              rw [if_neg]
              intro h
              rw [Bool.and_eq_true, beq_iff_eq] at h
              exact hbreaks ⟨row, hfound, h.1, h.2⟩
          · rfl
        right
        rw [hsame, hrow]
        have happly : (tables.apply act).linkedRow link =
            (tables.apply act).rowById link.target id := by simp [Tables.linkedRow, hid]
        rw [happly, rowById_apply hfresh hstays, Option.map_map]
        rfl

/-- A relation of a row that stays leads to the same document as before, or nowhere. -/
theorem linkedDocumentId_relinked (admits : tables.admits uid act = true) (mem : row ∈ tables uid)
    (key : String) :
    (tables.apply act).linkedDocumentId (tables.relinked act row) key = none ∨
      (tables.apply act).linkedDocumentId (tables.relinked act row) key =
        tables.linkedDocumentId row key := by
  have hkey : ∀ link, (tables.relink act link).key = link.key := by
    intro link
    unfold Tables.relink
    split
    · split <;> rfl
    · rfl
  have hfind : (row.links.map (tables.relink act)).find? (fun link => link.key == key) =
      (row.links.find? fun link => link.key == key).map (tables.relink act) := by
    rw [List.find?_map]
    congr 2
    funext link
    simp [hkey]
  unfold Tables.linkedDocumentId Tables.relinked
  rw [hfind]
  cases hlink : row.links.find? fun link => link.key == key with
  | none => exact Or.inl rfl
  | some link => exact linkedRow_relink admits mem (List.mem_of_find?_eq_some hlink)

end Apply

/-! ## What others leave of a document -/

/-- The rows of a document are as before, but for relations whose target was withdrawn. -/
structure Kept (uid documentId : String) (before after : Tables) : Prop where
  absent : ∀ {published}, before.rowOf uid documentId published = none →
    after.rowOf uid documentId published = none
  present : ∀ {published row}, before.rowOf uid documentId published = some row →
    ∃ row', after.rowOf uid documentId published = some row' ∧ row'.id = row.id ∧
      row'.fields = row.fields ∧ ∀ key,
        after.linkedDocumentId row' key = none ∨
          after.linkedDocumentId row' key = before.linkedDocumentId row key

namespace Kept

variable {uid documentId : String} {a b c : Tables}

theorem refl (uid documentId : String) (tables : Tables) : Kept uid documentId tables tables where
  absent h := h
  present h := ⟨_, h, rfl, rfl, fun _ => Or.inr rfl⟩

theorem trans (first : Kept uid documentId a b) (second : Kept uid documentId b c) :
    Kept uid documentId a c where
  absent h := second.absent (first.absent h)
  present h := by
    obtain ⟨row, hrow, hid, hfields, hlinks⟩ := first.present h
    obtain ⟨last, hlast, hid', hfields', hlinks'⟩ := second.present hrow
    refine ⟨last, hlast, hid'.trans hid, hfields'.trans hfields, fun key => ?_⟩
    rcases hlinks' key with hnone | hsame
    · exact Or.inl hnone
    · rw [hsame]
      exact hlinks key

theorem apply {tables : Tables} {act : TargetAct} (admits : tables.admits uid act = true)
    (other : ¬(act.uid = uid ∧ act.documentId = documentId)) :
    Kept uid documentId tables (tables.apply act) where
  absent h := by rw [rowOf_apply other, h, Option.map_none]
  present {published row} h := by
    refine ⟨tables.relinked act row, ?_, rfl, rfl, fun key => ?_⟩
    · rw [rowOf_apply other, h, Option.map_some]
    · exact linkedDocumentId_relinked admits (List.mem_of_find?_eq_some h) key

end Kept

/-- What others have committed from one moment to a later one is all that changed in
the committed tables, and it left the guarded document its rows. -/
structure Meanwhile (own : Guarded) (before after : World) : Prop where
  commits : ∃ acts, after.others = before.others ++ acts ∧
    after.committed = acts.foldl Tables.apply before.committed
  kept : ∀ {documentId}, own.documentId = some documentId →
    Kept own.uid documentId before.committed after.committed

namespace Meanwhile

variable {own : Guarded} {a b c : World}

theorem refl (own : Guarded) (world : World) : Meanwhile own world world where
  commits := ⟨[], (List.append_nil _).symm, rfl⟩
  kept _ := Kept.refl _ _ _

theorem trans (first : Meanwhile own a b) (second : Meanwhile own b c) : Meanwhile own a c where
  commits := by
    obtain ⟨acts, hothers, hcommitted⟩ := first.commits
    obtain ⟨more, hothers', hcommitted'⟩ := second.commits
    refine ⟨acts ++ more, ?_, ?_⟩
    · rw [hothers', hothers, List.append_assoc]
    · rw [hcommitted', hcommitted, List.foldl_append]
  kept h := (first.kept h).trans (second.kept h)

/-- It does not matter how the transaction's own sight changed. -/
theorem withSeen (h : Meanwhile own a b) (seen : Tables) : Meanwhile own a { b with seen := seen } :=
  ⟨h.commits, h.kept⟩

end Meanwhile

section Await
variable {own : Guarded} {world : World} {documentId : String}

theorem not_about_own {act : TargetAct} (waits : act.waits own = false)
    (named : own.documentId = some documentId) :
    ¬(act.uid = own.uid ∧ act.documentId = documentId) := by
  intro h
  simp [TargetAct.waits, named, h.1, h.2] at waits

theorem commit_cases (own : Guarded) (world : World) (act : TargetAct) :
    world.commit own act = world ∨
      act.waits own = false ∧ world.committed.admits own.uid act = true ∧
        world.seen.admits own.uid act = true ∧
        world.commit own act = { world with
          committed := world.committed.apply act
          seen := world.seen.apply act
          others := world.others ++ [act] } := by
  unfold World.commit
  split
  · next h =>
      simp only [Bool.and_eq_true, Bool.not_eq_true'] at h
      exact Or.inr ⟨h.1.1, h.1.2, h.2, rfl⟩
  · exact Or.inl rfl

theorem commit_meanwhile (act : TargetAct) : Meanwhile own world (world.commit own act) := by
  rcases commit_cases own world act with h | ⟨waits, committed, _, h⟩
  · rw [h]
    exact Meanwhile.refl _ _
  · rw [h]
    exact ⟨⟨[act], rfl, rfl⟩, fun named => Kept.apply committed (not_about_own waits named)⟩

theorem commit_seen (named : own.documentId = some documentId) (act : TargetAct) :
    Kept own.uid documentId world.seen (world.commit own act).seen := by
  rcases commit_cases own world act with h | ⟨waits, _, seen, h⟩
  · rw [h]
    exact Kept.refl _ _ _
  · rw [h]
    exact Kept.apply seen (not_about_own waits named)

theorem await_meanwhile (own : Guarded) (world : World) :
    Meanwhile own world (world.await own) := by
  have hall : ∀ (acts : List TargetAct) (w : World), Meanwhile own w (acts.foldl (World.commit own) w) := by
    intro acts
    induction acts with
    | nil => exact Meanwhile.refl own
    | cons act acts ih => exact fun w => (commit_meanwhile act).trans (ih _)
  obtain ⟨commits, kept⟩ := hall (world.schedule.headD []) { world with schedule := world.schedule.tail }
  exact ⟨commits, kept⟩

theorem await_seen (named : own.documentId = some documentId) (world : World) :
    Kept own.uid documentId world.seen (world.await own).seen := by
  have hall : ∀ (acts : List TargetAct) (w : World),
      Kept own.uid documentId w.seen (acts.foldl (World.commit own) w).seen := by
    intro acts
    induction acts with
    | nil => exact fun w => Kept.refl _ _ w.seen
    | cons act acts ih => exact fun w => (commit_seen named act).trans (ih _)
  exact hall (world.schedule.headD []) { world with schedule := world.schedule.tail }

end Await

/-! ## The parts of the action -/

section Parts
variable {own : Guarded} {attributes : Attributes} {draft : List (String × Json)} {world : World}

theorem storedDraft_meanwhile : Meanwhile own world (storedDraft own world).2 := by
  unfold storedDraft
  split
  · exact Meanwhile.refl _ _
  · exact await_meanwhile own world

theorem relationBlockers_meanwhile (keys : List String) :
    Meanwhile own world (relationBlockers own attributes draft keys world).2 := by
  induction keys generalizing world with
  | nil => exact Meanwhile.refl _ _
  | cons key keys ih =>
      unfold relationBlockers
      cases targetOf attributes key with
      | none => exact ih
      | some target =>
          cases (Json.field? key draft).bind refOf with
          | none => exact ih
          | some ref =>
              cases ref with
              | documentId _ =>
                  dsimp only
                  split
                  · exact ih
                  · exact (await_meanwhile own _).trans ih
              | id _ =>
                  have hresolved := await_meanwhile own world
                  dsimp only
                  split
                  · exact hresolved.trans ih
                  · exact hresolved.trans ((await_meanwhile own _).trans ih)

/-- What the check lets through has every required scalar. -/
theorem fullyGiven_of_no_blockers {numberBelow : Json → Rat → Bool}
    (none : (publishBlockers numberBelow own attributes draft world).1 = []) :
    FullyGiven attributes draft := by
  intro entry hentry type htype hne hskipped hrequired
  cases hgiven : isGiven (Json.field? entry.1 draft) with
  | true => rfl
  | false =>
      have hblocks : scalarBlocks numberBelow entry.2 (Json.field? entry.1 draft) = true := by
        simp [scalarBlocks, htype, hne, hskipped, hrequired, hgiven]
      have hmem : entry.1 ∈ scalarBlockers numberBelow attributes draft :=
        List.mem_map_of_mem (List.mem_filter.mpr ⟨hentry, hblocks⟩)
      have hblocked : entry.1 ∈ (publishBlockers numberBelow own attributes draft world).1 :=
        (List.mem_insertionSort _).mpr (List.mem_append_left _ hmem)
      rw [none] at hblocked
      cases hblocked

end Parts

section Core
variable {core : Core} {own : Guarded} {action : Action} {world : World}

theorem runCore_meanwhile : Meanwhile own world (runCore core own action world).2 := by
  unfold runCore
  dsimp only
  split
  · exact (await_meanwhile own world).withSeen _
  · exact await_meanwhile own world

variable {result : Option String} {documentId : String}

theorem runCore_done {ran : World} (h : runCore core own action world = (.done result, ran)) :
    ∃ acts, core own.uid action acts world.seen = .done result ran.seen := by
  unfold runCore at h
  dsimp only at h
  split at h
  · next answer seen hcore =>
      cases h
      exact ⟨_, hcore⟩
  · cases h

/-- Links that others withdraw after the copy are missed by the last read, which refuses. -/
theorem Copied.keepsLinks {uid : String} {copied last : Tables} (h : Copied copied uid documentId)
    (kept : Kept uid documentId copied last) (lost : lostLinks last uid documentId = []) :
    KeepsLinks last uid documentId := by
  intro draft hdraft
  cases hbefore : copied.rowOf uid documentId false with
  | none => cases (kept.absent hbefore).symm.trans hdraft
  | some old =>
      obtain ⟨row, hrow, hcopied⟩ := h old hbefore
      obtain ⟨draft', hdraft', _, _, hdraftLinks⟩ := kept.present hbefore
      obtain ⟨row', hrow', _, _, hrowLinks⟩ := kept.present hrow
      cases hdraft.symm.trans hdraft'
      refine ⟨row', hrow', fun key hkey target htarget => ?_⟩
      have hold : copied.linkedDocumentId old key = some target := by
        rcases hdraftLinks key with hnone | hsame
        · cases hnone.symm.trans htarget
        · exact hsame.symm.trans htarget
      have hheld : last.linkedDocumentId row' key ≠ none := by
        intro hnone
        have hmem : key ∈ lostLinks last uid documentId := by
          simp [lostLinks, hdraft, hrow', hkey, htarget, hnone]
        rw [lost] at hmem
        cases hmem
      rcases hrowLinks key with hnone | hsame
      · exact absurd hnone hheld
      rcases hcopied key hkey with hnone | heq
      · exact absurd (hsame.trans hnone) hheld
      · exact hsame.trans (heq.trans hold)

theorem lastRead_meanwhile : Meanwhile own world (lastRead own world) := by
  unfold lastRead
  split
  · exact Meanwhile.refl _ _
  · exact await_meanwhile own world

theorem lastRead_seen (named : own.documentId = some documentId) :
    Kept own.uid documentId world.seen (lastRead own world).seen := by
  unfold lastRead
  split
  · exact Kept.refl _ _ _
  · exact await_seen named world

theorem afterCore_meanwhile : Meanwhile own world (afterCore own result world).2 := by
  unfold afterCore
  split
  · exact Meanwhile.refl _ _
  · dsimp only
    split
    · exact lastRead_meanwhile
    · exact lastRead_meanwhile

theorem afterCore_done {answer : Option String} {last : World}
    (named : own.documentId = some documentId) (copied : Copied world.seen own.uid documentId)
    (h : afterCore own result world = (.done answer, last)) :
    answer = result ∧ KeepsLinks last.seen own.uid documentId := by
  unfold afterCore at h
  rw [named] at h
  dsimp only at h
  split at h
  · cases h
  · next hlost =>
      cases h
      exact ⟨rfl, copied.keepsLinks (lastRead_seen named) (not_not.mp hlost)⟩

end Core

/-! ## The action as a whole -/

section Action
variable {core : Core} {numberBelow : Json → Rat → Bool} {attributes : Attributes} {uid : String}
  {action : Action} {world : World} {documentId : String}

theorem documentIdOf_named (result : Option String) (h : action.documentId? = some documentId) :
    documentIdOf action result = some documentId := by
  rw [documentIdOf, h, Option.some_or]

variable {result : Option String}

/-- The document that an action is found to be about after it is the one it named. -/
theorem Meanwhile.ofNamed {a b : World} (h : Meanwhile ⟨uid, documentIdOf action result⟩ a b) :
    Meanwhile ⟨uid, action.documentId?⟩ a b where
  commits := h.commits
  kept named := h.kept (documentIdOf_named result named)

theorem documentIdOf_done (law : CoreLaw core) {acts : List TargetAct} {tables after : Tables}
    (h : core uid action acts tables = .done result after) :
    ∃ documentId, documentIdOf action result = some documentId := by
  cases action with
  | publish documentId => exact ⟨documentId.text, rfl⟩
  | create data status =>
      obtain ⟨documentId, rfl, hne⟩ := law.named h
      exact ⟨documentId, by simp [documentIdOf, Action.documentId?, hne]⟩
  | update documentId data status => exact ⟨documentId.text, rfl⟩

theorem createPublishReadiness_meanwhile :
    Meanwhile ⟨uid, action.documentId?⟩ world
      (createPublishReadiness core numberBelow attributes uid action world).2 := by
  unfold createPublishReadiness
  dsimp only
  split
  · exact runCore_meanwhile
  · split
    · exact storedDraft_meanwhile.trans runCore_meanwhile
    · next draft _ =>
        have hrelations : Meanwhile ⟨uid, action.documentId?⟩
            (storedDraft ⟨uid, action.documentId?⟩ world).2
            (relationBlockers ⟨uid, action.documentId?⟩ attributes draft (READINESS_RELATIONS uid)
              (storedDraft ⟨uid, action.documentId?⟩ world).2).2 :=
          relationBlockers_meanwhile _
        have hchecked := storedDraft_meanwhile.trans hrelations
        split
        · exact hchecked
        · have hran := hchecked.trans
            (show Meanwhile _ _ (runCore core ⟨uid, action.documentId?⟩ action _).2 from
              runCore_meanwhile)
          split
          · next result ran heq =>
              rw [publishBlockers] at heq
              rw [heq] at hran
              exact hran.trans afterCore_meanwhile.ofNamed
          · exact hran

/-- Only a publish without a stored draft is not judged. -/
theorem judgedDraft_none {stored : Option (List (String × Json))}
    (h : judgedDraft stored action = none) :
    stored = none ∧ ∃ documentId, action = .publish documentId := by
  cases action with
  | publish documentId => exact ⟨h, documentId, rfl⟩
  | create _ _ => cases h
  | update _ _ _ => cases h

theorem storedDraft_none {own : Guarded} (named : own.documentId = some documentId)
    (h : (storedDraft own world).1 = none) :
    (storedDraft own world).2.seen.rowOf own.uid documentId false = none := by
  unfold storedDraft at h ⊢
  rw [named] at h ⊢
  exact Option.map_eq_none_iff.mp h

theorem createPublishReadiness_done (law : CoreLaw core) (scheduled : uid ∈ SCHEDULED_UIDS)
    (publishes : action.publishes = true) {last : World}
    (h : createPublishReadiness core numberBelow attributes uid action world =
      (.done result, last)) :
    (∃ documentId, documentIdOf action result = some documentId ∧
        KeepsLinks last.seen uid documentId) ∧
      ∀ draft, judgedDraft (storedDraft ⟨uid, action.documentId?⟩ world).1 action = some draft →
        FullyGiven attributes draft := by
  have hguarded : (!SCHEDULED_UIDS.contains uid || !action.publishes) = false := by
    simp [scheduled, publishes]
  unfold createPublishReadiness at h
  dsimp only at h
  rw [hguarded, if_neg Bool.false_ne_true] at h
  split at h
  · next hjudged =>
      obtain ⟨hstored, documentId, rfl⟩ := judgedDraft_none hjudged
      obtain ⟨acts, hcore⟩ := runCore_done h
      have habsent := law.noDraft hcore (storedDraft_none rfl hstored)
      refine ⟨⟨documentId.text, rfl, fun draft hdraft => ?_⟩, fun draft hdraft => ?_⟩
      · cases habsent.symm.trans hdraft
      · cases hjudged.symm.trans hdraft
  · next draft hjudged =>
      split at h
      · cases h
      · next hblockers =>
          refine ⟨?_, fun other hother => ?_⟩
          · split at h
            · next answer ran hrun =>
                obtain ⟨acts, hcore⟩ := runCore_done hrun
                obtain ⟨documentId, hdocument⟩ := documentIdOf_done law hcore
                have hnamed : (Guarded.mk uid (documentIdOf action answer)).documentId =
                  some documentId := hdocument
                have hcopied := law.copies hcore publishes hdocument
                obtain ⟨rfl, hkeeps⟩ := afterCore_done hnamed hcopied h
                exact ⟨documentId, hdocument, hkeeps⟩
            · next hnot => exact absurd h (hnot _ _)
          · cases hjudged.symm.trans hother
            exact fullyGiven_of_no_blockers (not_not.mp hblockers)

/-- A guarded action that commits has judged a draft without gaps and published every
readiness relation of the stored draft; one that does not commit leaves the committed
tables to the others, and the rows of its document as they were. -/
theorem guardedAction_keeps_links (numberBelow : Json → Rat → Bool) (attributes : Attributes)
    (law : CoreLaw core) (scheduled : uid ∈ SCHEDULED_UIDS) (publishes : action.publishes = true)
    (world : World) :
    let answer := guardedAction core numberBelow attributes uid action world
    (∀ result, answer.1 = .done result →
      (∃ documentId, documentIdOf action result = some documentId ∧
        KeepsLinks answer.2.committed uid documentId) ∧
      ∀ draft, judgedDraft (storedDraft ⟨uid, action.documentId?⟩ world.begin).1 action =
        some draft → FullyGiven attributes draft) ∧
    ((∀ result, answer.1 ≠ .done result) →
      answer.2.committed = answer.2.others.foldl Tables.apply world.committed ∧
      ∀ documentId, action.documentId? = some documentId →
        Kept uid documentId world.committed answer.2.committed) := by
  have hmeanwhile : Meanwhile ⟨uid, action.documentId?⟩ world.begin
      (createPublishReadiness core numberBelow attributes uid action world.begin).2 :=
    createPublishReadiness_meanwhile
  unfold guardedAction
  dsimp only
  split
  · next result last hrun =>
      refine ⟨fun answer heq => ?_, fun hnot => absurd rfl (hnot result)⟩
      cases heq
      exact createPublishReadiness_done law scheduled publishes hrun
  · next outcome last hnot hrun =>
      rw [hrun] at hmeanwhile
      refine ⟨fun answer heq => (hnot answer heq).elim, fun _ => ?_⟩
      obtain ⟨acts, hothers, hcommitted⟩ := hmeanwhile.commits
      refine ⟨?_, fun documentId hdocument => hmeanwhile.kept hdocument⟩
      rw [hcommitted, hothers]
      rfl

end Action

/-! ## A lesson whose course is published again meanwhile -/

instance (tables : Tables) (uid documentId : String) : Decidable (Copied tables uid documentId) :=
  decidable_of_iff
    (∀ draft ∈ tables.rowOf uid documentId false, ∃ row ∈ tables.rowOf uid documentId true,
      ∀ key ∈ READINESS_RELATIONS uid, tables.linkedDocumentId row key = none ∨
        tables.linkedDocumentId row key = tables.linkedDocumentId draft key)
    Iff.rfl

/-- The target of a published row: the published row of the draft's target. -/
def Tables.resolve (tables : Tables) (link : Link) : Link :=
  { link with
    id := (tables.linkedRow link).bind fun row =>
      (tables.rowOf link.target row.documentId true).map Row.id }

/-- Publishes a stored draft as the core action does, and does nothing else. -/
def sampleCore : Core := fun uid action acts tables =>
  match action with
  | .create _ _ | .update _ _ _ => .threw
  | .publish documentId =>
      let seen := acts.foldl Tables.apply tables
      match tables.rowOf uid documentId.text false, seen.rowOf uid documentId.text false with
      | some _, some draft =>
          let row : Row := { draft with
            id := 99, published := true, links := draft.links.map seen.resolve }
          let after : Tables := fun other =>
            if other = uid then
              (seen uid).filter (fun old => !(old.documentId == documentId.text && old.published)) ++
                [row]
            else seen other
          if Copied after uid documentId.text then .done (some documentId.text) after else .threw
      | _, _ => .threw

theorem sampleCore_publish {uid : String} {documentId : DocumentId} {acts : List TargetAct}
    {tables after : Tables} {result : Option String}
    (h : sampleCore uid (.publish documentId) acts tables = .done result after) :
    tables.rowOf uid documentId.text false ≠ none ∧ Copied after uid documentId.text := by
  simp only [sampleCore] at h
  split at h
  · next _ _ hbefore _ =>
      split at h
      · next hcopied =>
          cases h
          exact ⟨by rw [hbefore]; exact Option.some_ne_none _, hcopied⟩
      · cases h
  · cases h

theorem sampleCore_law : CoreLaw sampleCore where
  named h := by cases h
  noDraft h hnone := absurd hnone (sampleCore_publish h).1
  copies {uid action _ _ _ _ documentId} h publishes hdocument := by
    cases action with
    | publish named =>
        cases hdocument
        exact (sampleCore_publish h).2
    | create _ _ => cases h
    | update _ _ _ => cases h

def sampleAttributes : Attributes :=
  [("title", ⟨some "string", true, none, some 2, none⟩),
    ("course", ⟨some "relation", false, none, none, some "api::course.course"⟩)]

def sampleCourse (id : Nat) (published : Bool) : Row :=
  ⟨id, "course", published, [("title", .str "Safety")], []⟩

/-- The course is published again before the copy, and once more before the last read. -/
def sampleWorld : World where
  committed := fun uid =>
    if uid = LESSON_UID then
      [⟨1, "lesson", false, [("title", .str "Fire")], [⟨"course", "api::course.course", some 10⟩]⟩]
    else if uid = "api::course.course" then [sampleCourse 10 false, sampleCourse 11 true]
    else []
  seen := fun _ => []
  schedule := [[], [], [.publish "api::course.course" "course" (sampleCourse 12 true) true],
    [.publish "api::course.course" "course" (sampleCourse 13 true) true]]
  others := []

def samplePublished : Outcome × World :=
  guardedAction sampleCore (fun _ _ => false) sampleAttributes LESSON_UID
    (.publish ⟨"lesson", by decide⟩) sampleWorld

theorem guardedAction_keeps_links_sample :
    samplePublished.1 = .done (some "lesson") ∧
      KeepsLinks samplePublished.2.committed LESSON_UID "lesson" := by
  have hdone : samplePublished.1 = .done (some "lesson") := by decide +kernel
  have publishes : (Action.publish ⟨"lesson", by decide⟩).publishes = true := rfl
  obtain ⟨⟨documentId, hdocument, hkeeps⟩, _⟩ := (guardedAction_keeps_links (fun _ _ => false)
    sampleAttributes sampleCore_law (by decide : LESSON_UID ∈ SCHEDULED_UIDS) publishes
    sampleWorld).1 _ hdone
  cases hdocument
  exact ⟨hdone, hkeeps⟩

end Sinnlos.Cms.Readiness

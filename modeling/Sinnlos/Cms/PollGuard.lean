import Sinnlos.Cms.Polls

/-! # What a guarded write can do to a poll

Writes column by column, and what the guard's comparisons say about the row a
guarded publish or update would publish: it says to a voter what the published
row says, and closes when that row closes once the voters were removed.
-/

namespace Sinnlos.Cms

open Text

variable {platform : Platform}

theorem ok_then {α β : Type} {first : Except ValidationError α}
    {rest : α → Except ValidationError β} {result : β} (h : (do rest (← first)) = .ok result) :
    ∃ value, first = .ok value ∧ rest value = .ok result := by
  cases first with
  | error _ => cases h
  | ok value => exact ⟨value, rfl, h⟩

/-! ## What a voter sees -/

/-- What a row says to a voter: the options position by position, and whether
the vote is anonymous. -/
def PollRow.paper (row : PollRow) : Option (List String) × Bool :=
  (row.options.map fun options => options.texts.map trim, row.anonymous = some true)

variable {row draft : PollRow} {key : String} {params : PollParams} {poll : Poll}
  {action : PollAction}

theorem PollRow.paper_eq {row' : PollRow}
    (options : (row'.options.map fun options => options.texts.map trim) =
      row.options.map fun options => options.texts.map trim)
    (anonymous : row'.anonymous = some true ↔ row.anonymous = some true) :
    row'.paper = row.paper := by
  unfold PollRow.paper
  rw [options, decide_eq_decide.mpr anonymous]

theorem PollRow.frozen_anonymous (row : PollRow) :
    row.frozen .anonymous = .bool true ↔ row.anonymous = some true := by
  unfold PollRow.frozen
  cases row.anonymous with
  | none => simp
  | some value => simp

theorem sameFrozen_anonymous {a : Json}
    (h : sameFrozen .anonymous (some a) (some (row.frozen .anonymous)) = true) :
    a = .bool true ↔ row.anonymous = some true := by
  rw [← row.frozen_anonymous]
  rw [sameFrozen, beq_iff_eq, Bool.eq_iff_iff] at h
  simpa only [beq_iff_eq, Option.some.injEq] using h

variable {value raw : Json} {options : Option PollOptions} {field : FrozenField}

/-- A value that says the same as a row's options and that the lifecycle takes
is stored as options that say the same. -/
theorem stored_sameOptions
    (same : sameFrozen .options (some value) (some (row.frozen .options)) = true)
    (stored : value = .null ∧ options = none ∨
      ∃ list, options = some list ∧ storedOptions value = .ok list) :
    (options.map fun options => options.texts.map trim) =
      row.options.map fun options => options.texts.map trim := by
  simp only [sameFrozen, PollRow.frozen] at same
  cases hrow : row.options with
  | none =>
      rw [hrow] at same
      rcases stored with ⟨rfl, rfl⟩ | ⟨list, rfl, hlist⟩
      · rfl
      · obtain ⟨values, rfl, -⟩ := validatePollOptions_texts (storedOptions_ok hlist)
        cases same
  | some before =>
      rw [hrow] at same
      rcases stored with ⟨rfl, rfl⟩ | ⟨list, rfl, hlist⟩
      · cases same
      · obtain ⟨values, rfl, htexts⟩ := validatePollOptions_texts (storedOptions_ok hlist)
        have hsame := (samePollOptions_texts values before.texts).mp same
        simp only [Option.map_some, Option.some.injEq]
        rw [list.trimmed, htexts, hsame]

/-! ## Writes -/

theorem writeColumn_none {α : Type} {before after : α} {write : Json → Except ValidationError α}
    (h : writeColumn before write none = .ok after) : after = before := by
  cases h
  rfl

theorem accepted_ok {α : Type} {value : Option α} {after : α} (h : accepted key value = .ok after) :
    value = some after := by
  cases value with
  | none => cases h
  | some value =>
      cases h
      rfl

/-- A write, column by column. -/
structure Written (platform : Platform) (params : PollParams) (before after : PollRow) : Prop where
  options : writeColumn before.options (assertValidOptions platform) (params.field "options") =
    .ok after.options
  anonymous : writeColumn before.anonymous
    (fun raw => accepted "anonymous" (platform.storedBoolean raw)) (params.field "anonymous") =
      .ok after.anonymous
  closesAt : writeColumn before.closesAt
    (fun raw => accepted "closesAt" (platform.storedInstant raw)) (params.field "closesAt") =
      .ok after.closesAt
  votersRemovedAt : writeColumn before.votersRemovedAt
    (fun raw => accepted "votersRemovedAt" (platform.storedInstant raw))
    (params.field "votersRemovedAt") = .ok after.votersRemovedAt

theorem writeRow_ok {before after : PollRow} (h : writeRow platform params before = .ok after) :
    Written platform params before after := by
  obtain ⟨anonymous, hanonymous, h⟩ := ok_then h
  obtain ⟨closesAt, hclosesAt, h⟩ := ok_then h
  obtain ⟨votersRemovedAt, hremoved, h⟩ := ok_then h
  obtain ⟨options, hoptions, h⟩ := ok_then h
  cases h
  exact ⟨hoptions, hanonymous, hclosesAt, hremoved⟩

/-- The options a payload carries, once the lifecycle took them. -/
theorem assertValidOptions_ok (h : assertValidOptions platform raw = .ok options) :
    ∃ value, parseAdminJsonField platform.parse raw = some value ∧
      (value = .null ∧ options = none ∨
        ∃ list, options = some list ∧ storedOptions value = .ok list) := by
  unfold assertValidOptions at h
  split at h
  · cases h
  · rename_i hparse
    cases h
    exact ⟨.null, hparse, .inl ⟨rfl, rfl⟩⟩
  · rename_i value _ hparse
    split at h
    · cases h
    · rename_i list hlist
      cases h
      exact ⟨value, hparse, .inr ⟨list, rfl, hlist⟩⟩

theorem publishIf_ok {status : Option String} {poll' : Poll}
    (h : poll.publishIf status = .ok poll') :
    status = some "published" ∧ poll' = { poll with published := some poll.draft } ∨
      status ≠ some "published" ∧ poll' = poll := by
  unfold Poll.publishIf at h
  split at h
  · rename_i hstatus
    unfold Poll.publishDraft at h
    split at h
    · cases h
    · cases h
      exact .inl ⟨hstatus, rfl⟩
  · rename_i hstatus
    cases h
    exact .inr ⟨hstatus, rfl⟩

/-! ## The guard -/

theorem field?_filter_ne (fields : List (String × Json)) {other : String} (h : key ≠ other) :
    Json.field? key (fields.filter fun field => field.1 ≠ other) = Json.field? key fields := by
  induction fields with
  | nil => rfl
  | cons field fields ih =>
      simp only [decide_not] at ih ⊢
      by_cases hother : field.1 = other
      · have hkey : ¬ field.1 = key := by
          intro hkey
          exact h (hkey.symm.trans hother)
        rw [List.filter_cons_of_neg (by simp [hother])]
        simp only [Json.field?, if_neg hkey, ih]
      · rw [List.filter_cons_of_pos (by simp [hother])]
        simp only [Json.field?, ih]

theorem field?_filter_self (fields : List (String × Json)) (key : String) :
    Json.field? key (fields.filter fun field => field.1 ≠ key) = none := by
  induction fields with
  | nil => rfl
  | cons field fields ih =>
      simp only [decide_not] at ih ⊢
      by_cases hkey : field.1 = key
      · rw [List.filter_cons_of_neg (by simp [hkey])]
        exact ih
      · rw [List.filter_cons_of_pos (by simp [hkey])]
        simp only [Json.field?, if_neg hkey]
        exact ih

@[simp] theorem withoutVotersRemoved_status (action : PollAction) (params : PollParams) :
    (withoutVotersRemoved action params).status = params.status := by
  simp only [withoutVotersRemoved]
  split
  · rfl
  · split <;> rfl

/-- The guard drops `votersRemovedAt` from the payload of a create or update. -/
theorem withoutVotersRemoved_dropped (h : action ≠ .clone) (params : PollParams) :
    (withoutVotersRemoved action params).field "votersRemovedAt" = none := by
  simp only [withoutVotersRemoved, if_neg h]
  split
  · rename_i hnone
    rcases hnone with hnone | hnone
    · rw [Option.isNone_iff_eq_none] at hnone
      simp only [PollParams.field, PollParams.fields, hnone]
      rfl
    · exact hnone
  · exact field?_filter_self params.fields "votersRemovedAt"

/-- It leaves every other field of the payload alone. -/
theorem withoutVotersRemoved_field (h : key ≠ "votersRemovedAt") (params : PollParams) :
    (withoutVotersRemoved action params).field key = params.field key := by
  simp only [withoutVotersRemoved]
  split
  · simp only [PollParams.field]
    show Json.field? key (("votersRemovedAt", Json.null) :: _) = _
    rw [Json.field?, if_neg (Ne.symm h)]
    exact field?_filter_ne params.fields h
  · split
    · rfl
    · exact field?_filter_ne params.fields h

structure Guarded (platform : Platform) (action : PollAction) (params : PollParams) (poll : Poll) :
    Prop where
  frozen : assertPollNotFrozen platform action params (some poll.draft) poll.published
    poll.ballots.length = .ok ()
  reopened : assertPollNotReopened platform action params (some poll.draft) poll.published = .ok ()

theorem pollGuard_ok {params' : PollParams}
    (h : pollGuard platform action params (some poll.draft) poll.published poll.ballots.length =
      .ok params') :
    params' = withoutVotersRemoved action params ∧ Guarded platform action params' poll := by
  obtain ⟨_, hfrozen, h⟩ := ok_then h
  obtain ⟨_, hreopened, h⟩ := ok_then h
  cases h
  exact ⟨rfl, hfrozen, hreopened⟩

/-- A voted poll stays published. -/
theorem Guarded.not_unpublish (h : Guarded platform action params poll)
    (voted : poll.ballots ≠ []) : action ≠ .unpublish := by
  intro haction
  have hlen : poll.ballots.length ≠ 0 := by
    intro hlen
    exact voted (List.eq_nil_of_length_eq_zero hlen)
  have hfrozen := h.frozen
  rw [assertPollNotFrozen, if_pos haction, if_neg hlen] at hfrozen
  cases hfrozen

/-- No frozen field of a voted poll changes through the guard. -/
theorem Guarded.unchanged (h : Guarded platform action params poll) (voted : poll.ballots ≠ [])
    (published : poll.published = some row) (writes : action = .publish ∨ action = .update)
    (field : FrozenField) :
    changesFrozen platform action params (some poll.draft) row field = false := by
  have hlen : poll.ballots.length ≠ 0 := by
    intro hlen
    exact voted (List.eq_nil_of_length_eq_zero hlen)
  have hwrites : ¬ (action ≠ .publish ∧ action ≠ .update) := by tauto
  have hunpublish : action ≠ .unpublish := h.not_unpublish voted
  have hfrozen := h.frozen
  rw [assertPollNotFrozen, if_neg hunpublish, if_neg hwrites, published,
    if_neg (Option.some_ne_none row)] at hfrozen
  simp only [hlen, or_false] at hfrozen
  split at hfrozen
  · rename_i hchanged
    rw [frozenChanges, if_neg hwrites] at hchanged
    have hall := List.filter_eq_nil_iff.mp hchanged field (by cases field <;> simp [POLL_FROZEN_FIELDS])
    simpa using hall
  · cases hfrozen

/-- What a guarded publish compares: each frozen field of the draft to be, with
the published row's. -/
theorem changesFrozen_publish (publishing : publishes action params = true)
    (carried : action = .update → params.field field.name = none)
    (h : changesFrozen platform action params (some draft) row field = false) :
    sameFrozen field (some (draft.frozen field)) (some (row.frozen field)) = true := by
  have hcarried : carriedBy action params field.name = none := by
    unfold carriedBy
    split
    · rename_i haction
      exact carried haction
    · rfl
  simpa only [changesFrozen, hcarried, publishing, Bool.true_and, Option.map_some,
    Bool.not_eq_false'] using h

theorem changesFrozen_carried {draft : Option PollRow}
    (carried : params.field field.name = some raw)
    (written : writtenFrozen platform field raw = some value)
    (h : changesFrozen platform .update params draft row field = false) :
    sameFrozen field (some value) (some (row.frozen field)) = true := by
  have hcarried : carriedBy .update params field.name = some raw := carried
  simpa only [changesFrozen, hcarried, written, Bool.not_eq_false'] using h

/-- A draft's own options are stored as they are. -/
theorem PollRow.frozen_options_stored (row : PollRow) :
    row.frozen .options = .null ∧ row.options = none ∨
      ∃ list, row.options = some list ∧ storedOptions (row.frozen .options) = .ok list := by
  unfold PollRow.frozen
  cases row.options with
  | none => exact .inl ⟨rfl, rfl⟩
  | some list => exact .inr ⟨list, rfl, list.stored⟩

/-- A guarded publish of a voted poll's draft says what the published row says. -/
theorem Guarded.publish_paper (h : Guarded platform .publish params poll)
    (voted : poll.ballots ≠ []) (published : poll.published = some row) :
    poll.draft.paper = row.paper := by
  have hsame : ∀ field : FrozenField,
      sameFrozen field (some (poll.draft.frozen field)) (some (row.frozen field)) = true := by
    intro field
    have hcarried : PollAction.publish = .update → params.field field.name = none := nofun
    exact changesFrozen_publish rfl hcarried (h.unchanged voted published (.inl rfl) field)
  apply PollRow.paper_eq
  · exact stored_sameOptions (hsame .options) poll.draft.frozen_options_stored
  · rw [← poll.draft.frozen_anonymous]
    exact sameFrozen_anonymous (hsame .anonymous)

/-- The payload writes `anonymous` as true in another spelling than `true`. -/
def SpellsTrue (platform : Platform) (params : PollParams) : Prop :=
  ∃ raw, params.field "anonymous" = some raw ∧ raw ≠ .bool true ∧
    platform.storedBoolean raw = some (some true)

/-- The same for an update that publishes, unless it spells `anonymous` as true
where the published row is not anonymous. -/
theorem Guarded.update_paper (h : Guarded platform .update params poll)
    (voted : poll.ballots ≠ []) (published : poll.published = some row)
    (publishing : params.status = some "published")
    (spelling : SpellsTrue platform params → row.anonymous = some true)
    (written : Written platform params poll.draft draft) : draft.paper = row.paper := by
  have hpublishes : publishes .update params = true := by simp [publishes, publishing]
  have hunchanged := h.unchanged voted published (.inr rfl)
  apply PollRow.paper_eq
  · have hwritten := written.options
    cases hraw : params.field "options" with
    | none =>
        rw [hraw] at hwritten
        rw [writeColumn_none hwritten]
        have hcarried : PollAction.update = .update →
            params.field FrozenField.options.name = none := fun _ => hraw
        exact stored_sameOptions (changesFrozen_publish hpublishes hcarried (hunchanged .options))
          poll.draft.frozen_options_stored
    | some raw =>
        rw [hraw] at hwritten
        obtain ⟨value, hparse, hstored⟩ := assertValidOptions_ok hwritten
        exact stored_sameOptions (changesFrozen_carried hraw hparse (hunchanged .options)) hstored
  · have hwritten := written.anonymous
    cases hraw : params.field "anonymous" with
    | none =>
        rw [hraw] at hwritten
        rw [writeColumn_none hwritten, ← poll.draft.frozen_anonymous]
        have hcarried : PollAction.update = .update →
            params.field FrozenField.anonymous.name = none := fun _ => hraw
        exact sameFrozen_anonymous
          (changesFrozen_publish hpublishes hcarried (hunchanged .anonymous))
    | some raw =>
        rw [hraw] at hwritten
        have hvalue := accepted_ok hwritten
        have hsame := sameFrozen_anonymous (changesFrozen_carried hraw rfl (hunchanged .anonymous))
        constructor
        · intro hafter
          by_cases htrue : raw = .bool true
          · exact hsame.mp htrue
          · exact spelling ⟨raw, hraw, htrue, hvalue.trans (congrArg some hafter)⟩
        · intro hrow
          rw [hsame.mpr hrow, platform.storedBoolean_bool] at hvalue
          exact (Option.some.inj hvalue).symm

/-! ## Removed voters -/

/-- A row of the poll carries `votersRemovedAt`. -/
def Poll.Removed (poll : Poll) : Prop := ∃ row ∈ poll.rows, row.votersRemovedAt.isSome

/-- The row whose `closesAt` the guard compares with. -/
def Poll.baseline (poll : Poll) : PollRow := poll.published.getD poll.draft

/-- What every poll of a history satisfies. -/
structure Poll.Sound (poll : Poll) : Prop where
  published : poll.ballots ≠ [] → poll.published ≠ none
  numbered : ∀ ballot ∈ poll.ballots, ballot.id < poll.nextBallot
  distinct : (poll.ballots.map Ballot.id).Nodup
  closed : poll.Removed → ∀ row ∈ poll.rows, row.votersRemovedAt.isSome ∧ row.closesAt.isSome

theorem Poll.baseline_mem (poll : Poll) : poll.baseline ∈ poll.rows := by
  unfold Poll.baseline Poll.rows
  cases poll.published with
  | none => exact List.mem_cons_self
  | some row => exact List.mem_cons_of_mem _ List.mem_cons_self

theorem Guarded.closesAt (h : Guarded platform action params poll)
    (writes : action = .publish ∨ action = .update) (removed : poll.Removed) :
    match carriedBy action params "closesAt" with
    | some raw => payloadInstant platform raw = poll.baseline.closesAt
    | none => publishes action params = true → poll.draft.closesAt = poll.baseline.closesAt := by
  have hwrites : ¬ (action ≠ .publish ∧ action ≠ .update) := by tauto
  have hstamped : ¬ ((Option.toList (some poll.draft) ++ poll.published.toList).all
      fun row => row.votersRemovedAt.isNone) = true := by
    obtain ⟨row, hmem, hrow⟩ := removed
    intro hall
    have hnone := List.all_eq_true.mp hall row hmem
    rw [Option.isNone_iff_eq_none] at hnone
    rw [hnone] at hrow
    cases hrow
  have hbaseline : (poll.published.or (some poll.draft)).bind PollRow.closesAt =
      poll.baseline.closesAt := by
    unfold Poll.baseline
    cases poll.published with
    | none => rfl
    | some row => rfl
  have hreopened := h.reopened
  rw [assertPollNotReopened, if_neg hwrites] at hreopened
  cases hcarried : carriedBy action params "closesAt" with
  | none =>
      intro hpublishes
      simp only [hcarried, hpublishes, Bool.true_eq_false, and_false, if_false, hstamped,
        Bool.false_eq_true, hbaseline, Option.elim_none, Option.bind_some] at hreopened
      split at hreopened
      · assumption
      · cases hreopened
  | some raw =>
      simp only [hcarried, reduceCtorEq, false_and, if_false, hstamped,
        Bool.false_eq_true, hbaseline, Option.elim_some] at hreopened
      split at hreopened
      · assumption
      · cases hreopened

/-- An update leaves `votersRemovedAt` alone and, once it is set, leaves the
draft closed; one that publishes leaves the closing instant alone. -/
theorem Guarded.update_closesAt (h : Guarded platform .update params poll) (sound : poll.Sound)
    (removed : poll.Removed) (written : Written platform params poll.draft draft) :
    draft.closesAt.isSome ∧
      (params.status = some "published" → draft.closesAt = poll.baseline.closesAt) := by
  have hclosed := sound.closed removed
  have hguard := h.closesAt (.inr rfl) removed
  have hwritten := written.closesAt
  rw [carriedBy, if_pos rfl] at hguard
  cases hraw : params.field "closesAt" with
  | none =>
      rw [hraw] at hwritten hguard
      rw [writeColumn_none hwritten]
      constructor
      · exact (hclosed poll.draft List.mem_cons_self).2
      · intro hstatus
        exact hguard (by simp [publishes, hstatus])
  | some raw =>
      rw [hraw] at hwritten hguard
      have hvalue := accepted_ok hwritten
      obtain ⟨ms, hms⟩ := Option.isSome_iff_exists.mp (hclosed poll.baseline poll.baseline_mem).2
      simp only [hms] at hguard
      have hstored : draft.closesAt = some ms := by
        cases raw with
        | str text =>
            rcases platform.storedInstant_text text ms hguard with hrefused | hstored
            · cases hrefused.symm.trans hvalue
            · exact Option.some.inj (hvalue.symm.trans hstored)
        | null | bool _ | num _ | arr _ | obj _ => cases hguard
      rw [hstored, hms]
      exact ⟨rfl, fun _ => rfl⟩

end Sinnlos.Cms

import Sinnlos.Lib.Runs
import Sinnlos.Cms.PollGuard

/-! # The vote freeze over whole runs

What every history of a poll keeps from its first ballot on: the published row,
what it says to a voter, and, once the voters were removed, the instant it
closed.
-/

namespace Sinnlos.Cms

open Sinnlos.Runs

variable {platform : Platform}

/-! ## Ballots -/

variable {poll : Poll} {request : VoteRequest} {before after poll' : Poll}

/-- A vote the handler accepts inserts one ballot and deletes none: the voter
had none before. -/
theorem insertBallot_new (h : ∀ ballot ∈ poll.ballots, ballot.voter ≠ some request.voter) :
    insertBallot request poll = (.voted poll.nextBallot, { poll with
      ballots := poll.ballots ++ [request.ballot poll.nextBallot]
      nextBallot := poll.nextBallot + 1 }) := by
  have hmine : ((poll.ballots ++ [request.ballot poll.nextBallot]).filter
      fun b : Ballot => b.voter = some request.voter) = [request.ballot poll.nextBallot] := by
    rw [List.filter_append, List.filter_eq_nil_iff.mpr (by simpa using h)]
    simp [VoteRequest.ballot]
  simp only [insertBallot, hmine, List.insertionSort_cons, List.insertionSort_nil,
    List.orderedInsert_nil, List.head?_cons, List.tail_cons]
  simp [VoteRequest.ballot]

theorem voteRefusal_none {row : PollRow} (h : voteRefusal request poll row = none) :
    ∀ ballot ∈ poll.ballots, ballot.voter ≠ some request.voter := by
  simp only [voteRefusal, List.any_eq_true, decide_eq_true_eq] at h
  repeat (split at h; · cases h)
  rename_i hany
  intro ballot hmem hvoter
  exact hany ⟨ballot, hmem, hvoter⟩

/-- A vote leaves the rows alone; what it commits is one ballot more, of a poll
that is published. -/
theorem castVote_cases (request : VoteRequest) (poll : Poll) :
    (castVote request poll).2 = poll ∨
      poll.published ≠ none ∧ (castVote request poll).2 = { poll with
        ballots := poll.ballots ++ [request.ballot poll.nextBallot]
        nextBallot := poll.nextBallot + 1 } := by
  unfold castVote
  split
  · exact .inl rfl
  · rename_i row hrow
    split
    · exact .inl rfl
    · rename_i hnone
      rw [insertBallot_new (voteRefusal_none hnone), hrow]
      exact .inr ⟨nofun, rfl⟩

/-- The plan deletes and unlinks none but these ballots. -/
theorem planBallots_subset {id : Nat} (seen : List Nat) (ballots : List Ballot)
    (h : id ∈ (planBallots seen ballots).1 ∨ id ∈ (planBallots seen ballots).2) :
    id ∈ ballots.map Ballot.id := by
  induction ballots generalizing seen with
  | nil => simp [planBallots] at h
  | cons ballot ballots ih =>
      rw [List.map_cons, List.mem_cons]
      simp only [planBallots] at h
      split at h
      · exact Or.inr (ih seen h)
      · rename_i voter _
        split at h
        · rw [List.mem_cons, or_assoc] at h
          exact h.imp_right (ih seen)
        · rw [List.mem_cons, or_left_comm] at h
          exact h.imp_right (ih (voter :: seen))

/-- The ballot with the lowest id stays. -/
theorem planBallots_head {ballot : Ballot} {rest : List Ballot}
    (distinct : ((ballot :: rest).map Ballot.id).Nodup) :
    ballot.id ∉ (planBallots [] (ballot :: rest)).1 := by
  rw [List.map_cons, List.nodup_cons] at distinct
  intro hid
  apply distinct.1
  simp only [planBallots] at hid
  split at hid
  · exact planBallots_subset [] rest (Or.inl hid)
  · rename_i voter _
    rw [if_neg (List.not_mem_nil)] at hid
    exact planBallots_subset [voter] rest (Or.inl hid)

/-- The retention never takes a poll's last ballot. -/
theorem ballotPlan_keeps {ballots : List Ballot} (distinct : (ballots.map Ballot.id).Nodup)
    (h : ballots ≠ []) : ∃ ballot ∈ ballots, ballot.id ∉ (ballotPlan ballots).1 := by
  have hperm := List.perm_insertionSort (fun a b : Ballot => a.id ≤ b.id) ballots
  have hsorted : ((ballots.insertionSort (·.id ≤ ·.id)).map Ballot.id).Nodup :=
    (hperm.map Ballot.id).nodup_iff.mpr distinct
  cases hlist : ballots.insertionSort (·.id ≤ ·.id) with
  | nil =>
      rw [hlist] at hperm
      exact absurd hperm.nil_eq.symm h
  | cons ballot rest =>
      rw [hlist] at hperm hsorted
      refine ⟨ballot, hperm.subset List.mem_cons_self, ?_⟩
      unfold ballotPlan
      rw [hlist]
      exact planBallots_head hsorted

/-- What the retention does, where its rule holds. -/
theorem removePollVoters_cases (now : Int) (poll : Poll) :
    removePollVoters now poll = poll ∨
      ∃ unlink : Ballot → Ballot, (∀ ballot, (unlink ballot).id = ballot.id) ∧
        (∀ row ∈ poll.rows, row.closesAt.isSome) ∧
        removePollVoters now poll = { poll with
          draft := poll.draft.stamped now
          published := poll.published.map (·.stamped now)
          ballots := (poll.ballots.filter fun b => b.id ∉ (ballotPlan poll.ballots).1).map
            unlink } := by
  unfold removePollVoters
  split
  · rename_i hrule
    refine .inr ⟨_, ?_, ?_, rfl⟩
    · intro ballot
      split <;> rfl
    · intro row hrow
      simp only [votersRemovable, Bool.and_eq_true, List.all_eq_true] at hrule
      have hclosed := hrule.1.2 row hrow
      rw [Option.any_eq_true] at hclosed
      obtain ⟨ms, hms, -⟩ := hclosed
      rw [hms]
      rfl
  · exact .inl rfl

/-! ## What a poll keeps -/

/-- What a voted poll keeps while it exists. -/
structure Poll.Kept (before after : Poll) : Prop where
  voted : after.ballots ≠ []
  published : ∀ row, before.published = some row → ∃ row', after.published = some row' ∧
    row'.paper = row.paper ∧ (before.Removed → row'.closesAt = row.closesAt)
  removed : before.Removed → after.Removed

theorem Poll.Kept.refl (voted : poll.ballots ≠ []) : poll.Kept poll where
  voted := voted
  published := fun row hrow => ⟨row, hrow, rfl, fun _ => rfl⟩
  removed := id

theorem Poll.Kept.trans {first second third : Poll} (h₁ : first.Kept second)
    (h₂ : second.Kept third) : first.Kept third where
  voted := h₂.voted
  published := by
    intro row hrow
    obtain ⟨row', hrow', hpaper, hcloses⟩ := h₁.published row hrow
    obtain ⟨row'', hrow'', hpaper', hcloses'⟩ := h₂.published row' hrow'
    refine ⟨row'', hrow'', hpaper'.trans hpaper, ?_⟩
    intro hremoved
    exact (hcloses' (h₁.removed hremoved)).trans (hcloses hremoved)
  removed := fun h => h₂.removed (h₁.removed h)

/-- A change of the rows alone keeps a voted poll's ballots. -/
theorem Poll.Sound.of_rows (sound : before.Sound) (ballots : after.ballots = before.ballots)
    (next : after.nextBallot = before.nextBallot)
    (published : before.ballots ≠ [] → after.published ≠ none)
    (closed : after.Removed → ∀ row ∈ after.rows, row.votersRemovedAt.isSome ∧ row.closesAt.isSome) :
    after.Sound where
  published := by
    intro hvoted
    rw [ballots] at hvoted
    exact published hvoted
  numbered := by
    rw [ballots, next]
    exact sound.numbered
  distinct := by
    rw [ballots]
    exact sound.distinct
  closed := closed

/-- Rows that are all among rows already there leave a sound poll sound. -/
theorem Poll.Sound.of_subset (sound : before.Sound) (ballots : after.ballots = before.ballots)
    (next : after.nextBallot = before.nextBallot)
    (published : before.ballots ≠ [] → after.published ≠ none)
    (rows : ∀ row ∈ after.rows, row ∈ before.rows) : after.Sound := by
  apply sound.of_rows ballots next published
  intro hremoved row hrow
  obtain ⟨stamped, hmem, hstamped⟩ := hremoved
  exact sound.closed ⟨stamped, rows stamped hmem, hstamped⟩ row (rows row hrow)

/-- A poll's rows after an update: the new draft, and the published row or its
copy. -/
theorem Poll.updated_rows {draft : PollRow} {status : Option String}
    (h : Poll.publishIf status { poll with draft := draft } = .ok poll') :
    ∀ row ∈ poll'.rows, row = draft ∨ row ∈ poll.rows := by
  intro row hrow
  rcases publishIf_ok h with ⟨-, rfl⟩ | ⟨-, rfl⟩
  · simp only [Poll.rows, Option.toList_some, List.mem_cons, List.not_mem_nil, or_false,
      or_self] at hrow
    exact .inl hrow
  · rcases List.mem_cons.mp hrow with rfl | hrow
    · exact .inl rfl
    · exact .inr (List.mem_cons_of_mem _ hrow)

section Update
variable {params : PollParams} {poll poll' : Poll} {draft : PollRow}

theorem Guarded.update_sound (h : Guarded platform .update params poll) (sound : poll.Sound)
    (dropped : params.field "votersRemovedAt" = none)
    (written : Written platform params poll.draft draft)
    (stored : Poll.publishIf params.status { poll with draft := draft } = .ok poll') :
    poll'.Sound := by
  have hstamp : draft.votersRemovedAt = poll.draft.votersRemovedAt := by
    have hwritten := written.votersRemovedAt
    rw [dropped] at hwritten
    exact writeColumn_none hwritten
  have hrows := Poll.updated_rows stored
  have hremoved : poll'.Removed → poll.Removed := by
    rintro ⟨row, hmem, hrow⟩
    rcases hrows row hmem with rfl | hmem
    · exact ⟨poll.draft, List.mem_cons_self, hstamp ▸ hrow⟩
    · exact ⟨row, hmem, hrow⟩
  have hclosed : poll'.Removed →
      ∀ row ∈ poll'.rows, row.votersRemovedAt.isSome ∧ row.closesAt.isSome := by
    intro hafter row hmem
    have hbefore := hremoved hafter
    rcases hrows row hmem with rfl | hmem
    · rw [hstamp]
      exact ⟨(sound.closed hbefore _ List.mem_cons_self).1,
        (h.update_closesAt sound hbefore written).1⟩
    · exact sound.closed hbefore row hmem
  rcases publishIf_ok stored with ⟨-, rfl⟩ | ⟨-, rfl⟩
  · exact sound.of_rows rfl rfl (fun _ => nofun) hclosed
  · exact sound.of_rows rfl rfl sound.published hclosed

theorem Guarded.update_kept (h : Guarded platform .update params poll) (sound : poll.Sound)
    (voted : poll.ballots ≠ [])
    (spelling : ∀ row, poll.published = some row → params.status = some "published" →
      SpellsTrue platform params → row.anonymous = some true)
    (dropped : params.field "votersRemovedAt" = none)
    (written : Written platform params poll.draft draft)
    (stored : Poll.publishIf params.status { poll with draft := draft } = .ok poll') :
    poll.Kept poll' := by
  have hremoved : poll.Removed → poll'.Removed := by
    intro hbefore
    have hdraft := (sound.closed hbefore poll.draft List.mem_cons_self).1
    have hwritten := written.votersRemovedAt
    rw [dropped] at hwritten
    rw [← writeColumn_none hwritten] at hdraft
    rcases publishIf_ok stored with ⟨-, rfl⟩ | ⟨-, rfl⟩
    · exact ⟨draft, List.mem_cons_self, hdraft⟩
    · exact ⟨draft, List.mem_cons_self, hdraft⟩
  rcases publishIf_ok stored with ⟨hstatus, rfl⟩ | ⟨hstatus, rfl⟩
  · refine ⟨voted, ?_, hremoved⟩
    intro row hrow
    refine ⟨draft, rfl, h.update_paper voted hrow hstatus (spelling row hrow hstatus) written, ?_⟩
    intro hbefore
    have hcloses := (h.update_closesAt sound hbefore written).2 hstatus
    rwa [Poll.baseline, hrow, Option.getD_some] at hcloses
  · exact ⟨voted, fun row hrow => ⟨row, hrow, rfl, fun _ => rfl⟩, hremoved⟩

end Update

section Publish
variable {params : PollParams} {poll poll' : Poll}

theorem publishDraft_ok (h : poll.publishDraft = .ok poll') :
    poll' = { poll with published := some poll.draft } := by
  unfold Poll.publishDraft at h
  split at h
  · cases h
  · cases h
    rfl

theorem Poll.Sound.publish (sound : poll.Sound) :
    ({ poll with published := some poll.draft } : Poll).Sound := by
  refine sound.of_subset ?_ ?_ (fun _ => nofun) ?_
  · rfl
  · rfl
  intro row hrow
  simp only [Poll.rows, Option.toList_some, List.mem_cons, List.not_mem_nil, or_false,
    or_self] at hrow
  rw [hrow]
  exact List.mem_cons_self

theorem Guarded.publish_kept (h : Guarded platform .publish params poll) (sound : poll.Sound)
    (voted : poll.ballots ≠ []) : poll.Kept { poll with published := some poll.draft } where
  voted := voted
  published := by
    intro row hrow
    refine ⟨poll.draft, rfl, h.publish_paper voted hrow, ?_⟩
    intro hremoved
    have hkept := h.closesAt (.inl rfl) hremoved rfl
    rwa [Poll.baseline, hrow, Option.getD_some] at hkept
  removed := by
    intro hremoved
    exact ⟨poll.draft, List.mem_cons_self, (sound.closed hremoved _ List.mem_cons_self).1⟩

variable {row : PollRow}

theorem Poll.Sound.discard (sound : poll.Sound) (h : poll.published = some row) :
    ({ poll with draft := row } : Poll).Sound := by
  refine sound.of_subset ?_ ?_ sound.published ?_
  · rfl
  · rfl
  intro other hother
  rw [Poll.rows, h] at hother ⊢
  simp only [Option.toList_some, List.mem_cons, List.not_mem_nil, or_false] at hother ⊢
  tauto

theorem Poll.Kept.discard (sound : poll.Sound) (voted : poll.ballots ≠ [])
    (h : poll.published = some row) : poll.Kept { poll with draft := row } where
  voted := voted
  published := fun row hrow => ⟨row, hrow, rfl, fun _ => rfl⟩
  removed := by
    intro hremoved
    have hmem : row ∈ poll.rows := by
      rw [Poll.rows, h]
      exact List.mem_cons_of_mem _ List.mem_cons_self
    exact ⟨row, List.mem_cons_self, (sound.closed hremoved row hmem).1⟩

end Publish

section Ballots
variable {poll : Poll}

theorem castVote_sound (request : VoteRequest) (sound : poll.Sound) :
    (castVote request poll).2.Sound := by
  rcases castVote_cases request poll with h | ⟨hpublished, h⟩
  · rw [h]
    exact sound
  · rw [h]
    refine ⟨fun _ => hpublished, ?_, ?_, sound.closed⟩
    · intro ballot hmem
      rcases List.mem_append.mp hmem with hmem | hmem
      · exact Nat.lt_succ_of_lt (sound.numbered ballot hmem)
      · rw [List.mem_singleton] at hmem
        rw [hmem]
        exact Nat.lt_succ_self _
    · simp only [List.map_append, List.map_cons, List.map_nil]
      apply List.Nodup.append sound.distinct (List.nodup_singleton _)
      intro id hold hnew
      obtain ⟨ballot, hmem, rfl⟩ := List.mem_map.mp hold
      have hlt := sound.numbered ballot hmem
      rw [List.mem_singleton] at hnew
      exact absurd hnew (Nat.ne_of_lt hlt)

theorem castVote_kept (request : VoteRequest) (voted : poll.ballots ≠ []) :
    poll.Kept (castVote request poll).2 := by
  rcases castVote_cases request poll with h | ⟨-, h⟩
  · rw [h]
    exact .refl voted
  · rw [h]
    refine ⟨?_, fun row hrow => ⟨row, hrow, rfl, fun _ => rfl⟩, id⟩
    simp

/-- The retention stamps every row, each of them closed. -/
theorem stamped_rows (now : Int) (draft : PollRow) (published : Option PollRow) :
    draft.stamped now :: (published.map (·.stamped now)).toList =
      (draft :: published.toList).map (·.stamped now) := by
  cases published <;> rfl

theorem removePollVoters_sound (now : Int) (sound : poll.Sound) :
    (removePollVoters now poll).Sound := by
  rcases removePollVoters_cases now poll with h | ⟨unlink, hid, hclosed, h⟩
  · rw [h]
    exact sound
  · rw [h]
    have hids : (((poll.ballots.filter fun b => b.id ∉ (ballotPlan poll.ballots).1).map
        unlink).map Ballot.id).Sublist (poll.ballots.map Ballot.id) := by
      rw [List.map_map, show Ballot.id ∘ unlink = Ballot.id from funext hid]
      exact List.filter_sublist.map Ballot.id
    refine ⟨?_, ?_, hids.nodup sound.distinct, ?_⟩
    · intro hvoted hnone
      simp only [Option.map_eq_none_iff] at hnone
      apply sound.published _ hnone
      intro hnil
      apply hvoted
      simp only [hnil, List.filter_nil, List.map_nil]
    · intro ballot hmem
      have hmem' := hids.subset (List.mem_map_of_mem hmem)
      obtain ⟨before, hbefore, heq⟩ := List.mem_map.mp hmem'
      rw [← heq]
      exact sound.numbered before hbefore
    · intro _ row hrow
      rw [Poll.rows, stamped_rows] at hrow
      obtain ⟨before, hbefore, rfl⟩ := List.mem_map.mp hrow
      exact ⟨rfl, hclosed before hbefore⟩

theorem removePollVoters_kept (now : Int) (sound : poll.Sound) (voted : poll.ballots ≠ []) :
    poll.Kept (removePollVoters now poll) := by
  rcases removePollVoters_cases now poll with h | ⟨unlink, hid, -, h⟩
  · rw [h]
    exact .refl voted
  · rw [h]
    refine ⟨?_, ?_, ?_⟩
    · obtain ⟨ballot, hmem, hkeep⟩ := ballotPlan_keeps sound.distinct voted
      have hstays : unlink ballot ∈ (poll.ballots.filter
          fun b => b.id ∉ (ballotPlan poll.ballots).1).map unlink :=
        List.mem_map_of_mem (List.mem_filter.mpr ⟨hmem, by simpa using hkeep⟩)
      exact List.ne_nil_of_mem hstays
    · intro row hrow
      exact ⟨row.stamped now, by simp only [hrow, Option.map_some], rfl, fun _ => rfl⟩
    · intro _
      exact ⟨poll.draft.stamped now, List.mem_cons_self, rfl⟩

end Ballots

/-! ## One call -/

/-- What holds of a document that may not exist. -/
def SoundDoc (doc : Option Poll) : Prop := ∀ poll, doc = some poll → poll.Sound

/-- A voted poll keeps its freeze from one state of its document to another. -/
def KeptDoc (doc doc' : Option Poll) : Prop :=
  ∀ poll, doc = some poll → poll.ballots ≠ [] → ∃ poll', doc' = some poll' ∧ poll.Kept poll'

theorem SoundDoc.none : SoundDoc none := by
  intro poll hpoll
  cases hpoll

theorem SoundDoc.some (sound : poll.Sound) : SoundDoc (some poll) := by
  intro other hother
  cases hother
  exact sound

theorem KeptDoc.some (h : poll.ballots ≠ [] → poll.Kept poll') :
    KeptDoc (some poll) (some poll') := by
  intro other hother voted
  cases hother
  exact ⟨poll', rfl, h voted⟩

theorem KeptDoc.refl (doc : Option Poll) : KeptDoc doc doc :=
  fun poll h voted => ⟨poll, h, .refl voted⟩

theorem KeptDoc.trans {first second third : Option Poll} (h₁ : KeptDoc first second)
    (h₂ : KeptDoc second third) : KeptDoc first third := by
  intro poll hpoll voted
  obtain ⟨poll', hpoll', hkept⟩ := h₁ poll hpoll voted
  obtain ⟨poll'', hpoll'', hkept'⟩ := h₂ poll' hpoll' hkept.voted
  exact ⟨poll'', hpoll'', hkept.trans hkept'⟩

/-- An update that publishes, spells `anonymous` as true, and meets a voted poll
whose published row is not anonymous. -/
def Misspelt (platform : Platform) (doc : Option Poll) : PollEvent → Prop
  | .call action params => action = .update ∧ params.status = some "published" ∧
      SpellsTrue platform params ∧ ∃ poll row, doc = some poll ∧ poll.ballots ≠ [] ∧
        poll.published = some row ∧ row.anonymous ≠ some true
  | _ => False

variable {params : PollParams} {doc doc' : Option Poll} {action : PollAction}

theorem documentService_create (h : documentService platform .create params none = .ok doc) :
    SoundDoc doc := by
  obtain ⟨params', hguard, h⟩ := ok_then h
  obtain ⟨draft, hdraft, h⟩ := ok_then h
  obtain ⟨poll, hpoll, h⟩ := ok_then h
  cases h
  have hparams : params' = withoutVotersRemoved .create params := by
    obtain ⟨_, -, hguard⟩ := ok_then hguard
    obtain ⟨_, -, hguard⟩ := ok_then hguard
    cases hguard
    rfl
  have hunstamped : draft.votersRemovedAt = none := by
    have hwritten := (writeRow_ok hdraft).votersRemovedAt
    rw [hparams, withoutVotersRemoved_dropped (by decide)] at hwritten
    exact writeColumn_none hwritten
  have hrows : ∀ row ∈ poll.rows, row = draft := by
    intro row hrow
    rcases publishIf_ok hpoll with ⟨-, rfl⟩ | ⟨-, rfl⟩
    · simpa [Poll.rows] using hrow
    · simpa [Poll.rows] using hrow
  have hballots : poll.ballots = [] := by
    rcases publishIf_ok hpoll with ⟨-, rfl⟩ | ⟨-, rfl⟩ <;> rfl
  apply SoundDoc.some
  refine ⟨?_, ?_, ?_, ?_⟩
  · intro hvoted
    exact absurd hballots hvoted
  · rw [hballots]
    exact nofun
  · rw [hballots]
    exact List.nodup_nil
  · intro hremoved
    obtain ⟨row, hmem, hrow⟩ := hremoved
    rw [hrows row hmem, hunstamped] at hrow
    cases hrow

/-- Nothing but a create makes a document. -/
theorem documentService_none (other : action ≠ .create)
    (h : documentService platform action params none = .ok doc) : doc = none := by
  have hnone : ∀ params, repository platform action params none = .ok none := by
    intro params
    cases action <;> first | rfl | exact absurd rfl other
  rw [documentService] at h
  split at h
  · obtain ⟨params', -, h⟩ := ok_then h
    rw [hnone] at h
    cases h
    rfl
  · rw [hnone] at h
    cases h
    rfl

theorem documentService_guarded (guarded : action.guarded = true)
    (h : documentService platform action params (some poll) = .ok doc) :
    Guarded platform action (withoutVotersRemoved action params) poll ∧
      repository platform action (withoutVotersRemoved action params) (some poll) = .ok doc := by
  rw [documentService, if_pos guarded] at h
  obtain ⟨params', hguard, h⟩ := ok_then h
  obtain ⟨rfl, hguarded⟩ := pollGuard_ok hguard
  exact ⟨hguarded, h⟩

theorem repository_update (h : repository platform .update params (some poll) = .ok doc) :
    ∃ draft poll', Written platform params poll.draft draft ∧
      Poll.publishIf params.status { poll with draft := draft } = .ok poll' ∧
      doc = some poll' := by
  simp only [repository] at h
  obtain ⟨draft, hdraft, h⟩ := ok_then h
  obtain ⟨poll', hpoll', h⟩ := ok_then h
  cases h
  exact ⟨draft, poll', writeRow_ok hdraft, hpoll', rfl⟩

/-- A call other than a delete leaves a sound document, and a voted poll keeps
its freeze through it. -/
theorem documentService_some (sound : poll.Sound)
    (h : documentService platform action params (some poll) = .ok doc) :
    SoundDoc doc ∧ (action ≠ .delete →
      ¬ Misspelt platform (some poll) (.call action params) → KeptDoc (some poll) doc) := by
  cases action with
  | create | clone =>
      obtain ⟨-, h⟩ := documentService_guarded rfl h
      cases h
      exact ⟨.some sound, fun _ _ => .refl _⟩
  | update =>
      obtain ⟨hguarded, h⟩ := documentService_guarded rfl h
      obtain ⟨draft, poll', hwritten, hpoll', rfl⟩ := repository_update h
      have hdropped := withoutVotersRemoved_dropped (by decide : PollAction.update ≠ .clone) params
      refine ⟨.some (hguarded.update_sound sound hdropped hwritten hpoll'), ?_⟩
      intro _ hspelt
      apply KeptDoc.some
      intro hvoted
      refine hguarded.update_kept sound hvoted ?_ hdropped hwritten hpoll'
      intro row hrow hstatus hspelling
      rw [withoutVotersRemoved_status] at hstatus
      by_contra hplain
      obtain ⟨raw, hraw, hne, hstored⟩ := hspelling
      rw [withoutVotersRemoved_field (by decide)] at hraw
      exact hspelt ⟨rfl, hstatus, ⟨raw, hraw, hne, hstored⟩, poll, row, rfl, hvoted, hrow, hplain⟩
  | publish =>
      obtain ⟨hguarded, h⟩ := documentService_guarded rfl h
      obtain ⟨poll', hpoll', h⟩ := ok_then h
      cases h
      rw [publishDraft_ok hpoll']
      exact ⟨.some sound.publish, fun _ _ => .some fun hvoted => hguarded.publish_kept sound hvoted⟩
  | unpublish =>
      obtain ⟨hguarded, h⟩ := documentService_guarded rfl h
      cases h
      have hunvoted : poll.ballots = [] := by
        by_contra hvoted
        exact hguarded.not_unpublish hvoted rfl
      constructor
      · apply SoundDoc.some
        refine sound.of_subset ?_ ?_ ?_ ?_
        · rfl
        · rfl
        · intro hvoted
          exact absurd hunvoted hvoted
        · intro row hrow
          rw [Poll.rows] at hrow
          exact List.mem_cons.mpr ((List.mem_cons.mp hrow).imp_right nofun)
      · intro _ _
        apply KeptDoc.some
        intro hvoted
        exact absurd hunvoted hvoted
  | discardDraft =>
      obtain ⟨-, h⟩ := documentService_guarded rfl h
      cases h
      cases hrow : poll.published with
      | none =>
          refine ⟨.none, ?_⟩
          intro _ _ other hother voted
          cases hother
          exact absurd hrow (sound.published voted)
      | some row =>
          have hsound := sound.discard hrow
          have hkept := fun hvoted => Poll.Kept.discard sound hvoted hrow
          rw [hrow] at hsound hkept
          exact ⟨.some hsound, fun _ _ => .some hkept⟩
  | delete =>
      cases h
      exact ⟨.none, fun hdelete => absurd rfl hdelete⟩

/-! ## Every history -/

def PollStep (platform : Platform) (doc : Option Poll) (event : PollEvent) (doc' : Option Poll) :
    Prop := pollNext platform doc event = doc'

/-- A step that is no misspelt update. -/
def CarefulStep (platform : Platform) (doc : Option Poll) (event : PollEvent)
    (doc' : Option Poll) : Prop :=
  PollStep platform doc event doc' ∧ ¬ Misspelt platform doc event

/-- The event leaves the document there. -/
def PollEvent.keepsDocument : PollEvent → Prop
  | .call action _ => action ≠ .delete
  | _ => True

variable {event : PollEvent} {events : List PollEvent}

theorem PollStep.sound (h : PollStep platform doc event doc') (sound : SoundDoc doc) :
    SoundDoc doc' := by
  unfold PollStep pollNext at h
  cases event with
  | call action params =>
      dsimp only at h
      cases hcall : documentService platform action params doc with
      | error _ =>
          rw [hcall] at h
          exact h ▸ sound
      | ok after =>
          rw [hcall] at h
          subst h
          cases doc with
          | some poll => exact (documentService_some (sound poll rfl) hcall).1
          | none =>
              by_cases hcreate : action = .create
              · subst hcreate
                exact documentService_create hcall
              · rw [documentService_none hcreate hcall]
                exact .none
  | failed => exact h ▸ sound
  | vote request =>
      subst h
      intro poll' hpoll'
      obtain ⟨poll, hpoll, rfl⟩ := Option.map_eq_some_iff.mp hpoll'
      exact castVote_sound request (sound poll hpoll)
  | retention now =>
      subst h
      intro poll' hpoll'
      obtain ⟨poll, hpoll, rfl⟩ := Option.map_eq_some_iff.mp hpoll'
      exact removePollVoters_sound now (sound poll hpoll)

theorem CarefulStep.kept (h : CarefulStep platform doc event doc') (sound : SoundDoc doc)
    (exists' : event.keepsDocument) : KeptDoc doc doc' := by
  obtain ⟨hstep, hspelt⟩ := h
  intro poll hpoll voted
  subst hpoll
  have hsound := sound poll rfl
  unfold PollStep pollNext at hstep
  cases event with
  | call action params =>
      dsimp only at hstep
      cases hcall : documentService platform action params (some poll) with
      | error _ =>
          rw [hcall] at hstep
          exact ⟨poll, hstep.symm, .refl voted⟩
      | ok after =>
          rw [hcall] at hstep
          subst hstep
          exact (documentService_some hsound hcall).2 exists' hspelt poll rfl voted
  | failed => exact ⟨poll, hstep.symm, .refl voted⟩
  | vote request => exact ⟨_, hstep.symm, castVote_kept request voted⟩
  | retention now => exact ⟨_, hstep.symm, removePollVoters_kept now hsound voted⟩

theorem run_sound (h : Run (CarefulStep platform) doc events doc') (sound : SoundDoc doc) :
    SoundDoc doc' :=
  h.invariant (P := SoundDoc) (fun _ _ _ hstep => hstep.1.sound) sound

theorem run_kept (h : Run (CarefulStep platform) doc events doc') (sound : SoundDoc doc)
    (exists' : ∀ event ∈ events, event.keepsDocument) : KeptDoc doc doc' := by
  induction h with
  | refl doc => exact .refl doc
  | cons hstep _ ih =>
      rw [List.forall_mem_cons] at exists'
      exact (hstep.kept sound exists'.1).trans (ih (hstep.1.sound sound) exists'.2)

/-- **The vote freeze holds over whole runs.** From the first ballot on, and as
long as the document exists, the published row stays published and says what the
first voter saw; and once the voters were removed it keeps its closing instant.
No step may spell `anonymous` as true in a published update of a voted poll that
is not anonymous. -/
theorem vote_freeze_holds (platform : Platform) {before first rest : List PollEvent}
    {poll : Poll} {request : VoteRequest} {mid last : Option Poll}
    (history : Run (CarefulStep platform) none before (some poll))
    (unvoted : poll.ballots = [])
    (voted : (castVote request poll).2.ballots ≠ [])
    (onward : Run (CarefulStep platform) (some (castVote request poll).2) first mid)
    (later : Run (CarefulStep platform) mid rest last)
    (lives : ∀ event ∈ first ++ rest, event.keepsDocument) :
    ∃ seen, poll.published = some seen ∧
      ∃ midPoll midRow, mid = some midPoll ∧ midPoll.published = some midRow ∧
        midRow.paper = seen.paper ∧
      ∃ lastPoll lastRow, last = some lastPoll ∧ lastPoll.published = some lastRow ∧
        lastRow.paper = seen.paper ∧
        (midPoll.Removed → lastRow.closesAt = midRow.closesAt) := by
  have hsound : poll.Sound := run_sound history .none poll rfl
  rw [List.forall_mem_append] at lives
  rcases castVote_cases request poll with hvote | ⟨hpublished, hvote⟩
  · rw [hvote] at voted
    exact absurd unvoted voted
  · obtain ⟨seen, hseen⟩ := Option.ne_none_iff_exists'.mp hpublished
    have hstart : SoundDoc (some (castVote request poll).2) := .some (castVote_sound request hsound)
    obtain ⟨midPoll, rfl, hmid⟩ := run_kept onward hstart lives.1 _ rfl voted
    have hseen' : (castVote request poll).2.published = some seen := by
      rw [hvote]
      exact hseen
    obtain ⟨midRow, hmidRow, hmidPaper, -⟩ := hmid.published seen hseen'
    obtain ⟨lastPoll, rfl, hlast⟩ :=
      run_kept later (run_sound onward hstart) lives.2 midPoll rfl hmid.voted
    obtain ⟨lastRow, hlastRow, hlastPaper, hcloses⟩ := hlast.published midRow hmidRow
    exact ⟨seen, hseen, midPoll, midRow, rfl, hmidRow, hmidPaper, lastPoll, lastRow, rfl, hlastRow,
      hlastPaper.trans hmidPaper, hcloses⟩

/-! ## The spelling that gets through -/

/-- `yup.boolean()` on numbers and text. -/
def yupBoolean : Json → Option (Option Bool)
  | .null => some none
  | .bool value => some (some value)
  | .num value => if value = 1 then some (some true) else if value = 0 then some (some false) else none
  | .str value =>
      if value.toLower = "true" ∨ value = "1" then some (some true)
      else if value.toLower = "false" ∨ value = "0" then some (some false)
      else none
  | _ => none

def sampleInstant (text : String) : Option Int :=
  if text = "2026-09-01T21:59:59.000Z" then some 1788299999000 else none

/-- A platform that reads one instant and no JSON text. -/
def samplePlatform : Platform where
  parse := fun _ => none
  instantMsOrNull := sampleInstant
  storedBoolean := yupBoolean
  storedInstant
    | .null => some none
    | .str text => (sampleInstant text).map some
    | _ => none
  storedBoolean_bool := fun _ => rfl
  storedBoolean_null := rfl
  storedInstant_text := by
    intro text ms h
    exact .inr (congrArg (Option.map some) h)

def sampleOptions : PollOptions := ⟨["Yes", "No"], by decide⟩

def sampleRow : PollRow := ⟨some sampleOptions, some false, some 1788299999000, none⟩

def sampleCreate : PollEvent := .call .create ⟨some "published", .obj
  [("options", .arr [.str "Yes", .str " No"]), ("closesAt", .str "2026-09-01T21:59:59.000Z")]⟩

def sampleVote : VoteRequest := ⟨⟨true, true, true⟩, 7, 0, some "Yes", 1788000000000⟩

/-- A published poll before its first ballot. -/
def samplePoll : Poll := ⟨sampleRow, some sampleRow, [], 0⟩

theorem samplePoll_created : pollNext samplePlatform none sampleCreate = some samplePoll := by
  decide +kernel

theorem not_misspelt
    (h : ∀ raw, params.field "anonymous" = some raw → platform.storedBoolean raw = some (some true) →
      raw = .bool true) : ¬ Misspelt platform doc (.call action params) := by
  rintro ⟨-, -, ⟨raw, hraw, hne, hstored⟩, -⟩
  exact hne (h raw hraw hstored)

/-- An update that publishes other spellings of the same options. -/
def sampleUpdate : PollEvent := .call .update ⟨some "published", .obj
  [("options", .arr [.str " Yes", .str "No "]), ("anonymous", .bool false)]⟩

/-- Thirty-one days after the poll closed. -/
def sampleRetention : PollEvent := .retention (1788299999000 + 31 * 86400000)

/-- An attempt to reopen the poll, which the guard refuses. -/
def sampleReopening : PollEvent := .call .update ⟨some "published", .obj [("closesAt", .null)]⟩

/-- A vote, an update that publishes, the retention, and an attempt to reopen. -/
theorem vote_freeze_holds_sample :
    ∃ seen, samplePoll.published = some seen ∧
      ∃ midPoll midRow,
        pollNext samplePlatform (pollNext samplePlatform
          (some (castVote sampleVote samplePoll).2) sampleUpdate) sampleRetention = some midPoll ∧
        midPoll.published = some midRow ∧ midRow.paper = seen.paper ∧
      ∃ lastPoll lastRow,
        pollNext samplePlatform (pollNext samplePlatform (pollNext samplePlatform
          (some (castVote sampleVote samplePoll).2) sampleUpdate) sampleRetention) sampleReopening =
            some lastPoll ∧
        lastPoll.published = some lastRow ∧ lastRow.paper = seen.paper ∧
        (midPoll.Removed → lastRow.closesAt = midRow.closesAt) := by
  have hupdate : ¬ Misspelt samplePlatform (some (castVote sampleVote samplePoll).2)
      sampleUpdate := by
    apply not_misspelt
    intro raw hraw hstored
    cases hraw
    cases hstored
  have hreopening : ∀ doc, ¬ Misspelt samplePlatform doc sampleReopening := by
    intro doc
    apply not_misspelt
    intro raw hraw
    cases hraw
  have hcreate : ¬ Misspelt samplePlatform none sampleCreate := nofun
  exact vote_freeze_holds samplePlatform (.single ⟨samplePoll_created, hcreate⟩) rfl (by decide)
    (.cons ⟨rfl, hupdate⟩ (.single ⟨rfl, nofun⟩)) (.single ⟨rfl, hreopening _⟩) (by
      intro event hmem
      simp only [List.cons_append, List.nil_append, List.mem_cons, List.not_mem_nil, or_false] at hmem
      rcases hmem with rfl | rfl | rfl
      · exact (by decide : PollAction.update ≠ .delete)
      · trivial
      · exact (by decide : PollAction.update ≠ .delete))

def sampleMisspelt : PollEvent := .call .update ⟨some "published", .obj [("anonymous", .num 1)]⟩

/-- Without the condition on the steps the freeze does not hold: an update with
`anonymous: 1` makes the vote of `sampleVote` an anonymous one. -/
theorem misspelt_update_breaks_freeze :
    ¬ ∀ (before after : List PollEvent) (poll last : Poll) (request : VoteRequest),
      Run (PollStep samplePlatform) none before (some poll) → poll.ballots = [] →
      (castVote request poll).2.ballots ≠ [] →
      Run (PollStep samplePlatform) (some (castVote request poll).2) after (some last) →
      (∀ event ∈ after, event.keepsDocument) →
      last.published.map PollRow.paper = poll.published.map PollRow.paper := by
  intro hfreeze
  have hlast : pollNext samplePlatform (some (castVote sampleVote samplePoll).2) sampleMisspelt =
      some { samplePoll with
        draft := { sampleRow with anonymous := some true }
        published := some { sampleRow with anonymous := some true }
        ballots := [sampleVote.ballot 0]
        nextBallot := 1 } := by
    decide +kernel
  have hpapers := hfreeze [sampleCreate] [sampleMisspelt] samplePoll _ sampleVote
    (.single samplePoll_created) rfl (by decide) (.single hlast) (by
      intro event hmem
      rw [List.mem_singleton] at hmem
      subst hmem
      exact (by decide : PollAction.update ≠ .delete))
  exact absurd hpapers (by decide)

end Sinnlos.Cms

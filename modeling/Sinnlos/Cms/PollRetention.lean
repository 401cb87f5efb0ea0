import Sinnlos.Cms.PollVoters

/-! # The voter retention over whole histories

After the retention a poll's results are those of before, its ballots name
nobody, and it takes no vote again, whatever calls come before and after.
-/

namespace Sinnlos.Cms

open Sinnlos.Runs

variable {platform : Platform}

/-! ## The rows of a poll's ballots -/

def Ballot.row (ballot : Ballot) : BallotRow := ⟨ballot.id, some ballot.optionIndex, ballot.voter⟩

/-- A poll's ballots as the tallies read them. -/
def Poll.ballotRows (poll : Poll) : List BallotRow := poll.ballots.map Ballot.row

theorem planBallots_planned (seen : List Nat) (ballots : List Ballot) :
    planBallots seen (ballots.map fun ballot => ballot.row.planned) = planBallots seen ballots := by
  induction ballots generalizing seen with
  | nil => rfl
  | cons ballot ballots ih =>
      rw [List.map_cons, planBallots, planBallots]
      simp only [ih]
      rfl

/-- The plan reads ids and voters alone. -/
theorem ballotPlan_planned (ballots : List Ballot) :
    ballotPlan ((ballots.map Ballot.row).map BallotRow.planned) = ballotPlan ballots := by
  unfold ballotPlan
  have hsort := List.map_insertionSort (r := fun a b : Ballot => a.id ≤ b.id)
    (s := fun a b : Ballot => a.id ≤ b.id) (fun ballot : Ballot => ballot.row.planned) ballots
    (fun _ _ _ _ => Iff.rfl)
  rw [List.map_map]
  have hmap : ballots.map (BallotRow.planned ∘ Ballot.row) =
      ballots.map fun ballot => ballot.row.planned := rfl
  rw [hmap, ← hsort, planBallots_planned]

variable {poll poll' : Poll} {now : Int} {event : PollEvent} {doc doc' : Option Poll}
  {events : List PollEvent} {id optionIndex : Nat}

/-- The retention of a poll is the plan on its rows. -/
theorem ballotRows_removePollVoters (due : votersRemovable poll.rows now = true) :
    (removePollVoters now poll).ballotRows = forgetVoters poll.ballotRows := by
  unfold removePollVoters
  rw [if_pos due]
  unfold Poll.ballotRows forgetVoters
  rw [ballotPlan_planned]
  dsimp only
  rw [List.map_map, List.filter_map, List.map_map]
  apply List.map_congr_left
  intro ballot _
  simp only [Function.comp_apply]
  have hid : ballot.row.id = ballot.id := rfl
  rw [hid]
  split <;> rfl

/-! ## The statements of one removal -/

inductive RemovalWrite
  | deleteVote (id : Nat)
  | unlinkVote (id : Nat)
  | stampRows (now : Int)
  /-- The revision of the document, which no rule here reads. -/
  | advanceRevision

def RemovalWrite.apply : RemovalWrite → Poll → Poll
  | .deleteVote id, poll => { poll with ballots := poll.ballots.filter fun b => b.id ≠ id }
  | .unlinkVote id, poll =>
      { poll with ballots := poll.ballots.map fun b => if b.id = id then { b with voter := none } else b }
  | .stampRows now, poll =>
      { poll with draft := poll.draft.stamped now, published := poll.published.map (·.stamped now) }
  | .advanceRevision, poll => poll

/-- The writes of a removal, one after the other; none where its rule does not
hold. -/
def removalWrites (now : Int) (poll : Poll) : List RemovalWrite :=
  if votersRemovable poll.rows now then
    let plan := ballotPlan poll.ballots
    plan.1.map .deleteVote ++ plan.2.map .unlinkVote ++ [.stampRows now, .advanceRevision]
  else []

/-- Run writes; none where the one with number `fails` throws. -/
def runWrites : List RemovalWrite → Option Nat → Poll → Option Poll
  | [], _, poll => some poll
  | write :: writes, fails, poll =>
      if fails = some 0 then none else runWrites writes (fails.map (· - 1)) (write.apply poll)

/-- One removal in its transaction, which a throw rolls back. -/
def removalTransaction (now : Int) (fails : Option Nat) (poll : Poll) : Poll :=
  (runWrites (removalWrites now poll) fails poll).getD poll

variable {number : Nat} {params : PollParams}

theorem runWrites_fails {writes : List RemovalWrite} (h : number < writes.length) (poll : Poll) :
    runWrites writes (some number) poll = none := by
  induction writes generalizing number poll with
  | nil => simp at h
  | cons write writes ih =>
      rw [runWrites]
      split
      · rfl
      · next hlater =>
          have hpos : number ≠ 0 := fun hzero => hlater (congrArg some hzero)
          rw [List.length_cons] at h
          have hrest : number - 1 < writes.length := by omega
          exact ih hrest _

theorem runWrites_none (writes : List RemovalWrite) (poll : Poll) :
    runWrites writes none poll = some (writes.foldl (fun poll write => write.apply poll) poll) := by
  induction writes generalizing poll with
  | nil => rfl
  | cons write writes ih =>
      rw [runWrites, if_neg (by simp), List.foldl_cons]
      exact ih _

theorem foldl_deleteVote (ids : List Nat) (poll : Poll) :
    (ids.map RemovalWrite.deleteVote).foldl (fun poll write => write.apply poll) poll =
      { poll with ballots := poll.ballots.filter fun b => b.id ∉ ids } := by
  induction ids generalizing poll with
  | nil => simp
  | cons id ids ih =>
      rw [List.map_cons, List.foldl_cons, ih]
      unfold RemovalWrite.apply
      dsimp only
      rw [List.filter_filter]
      congr 1
      apply List.filter_congr
      intro ballot _
      simp [Bool.and_comm]

theorem foldl_unlinkVote (ids : List Nat) (poll : Poll) :
    (ids.map RemovalWrite.unlinkVote).foldl (fun poll write => write.apply poll) poll =
      { poll with ballots := poll.ballots.map fun b =>
          if b.id ∈ ids then { b with voter := none } else b } := by
  induction ids generalizing poll with
  | nil => simp
  | cons id ids ih =>
      rw [List.map_cons, List.foldl_cons, ih]
      unfold RemovalWrite.apply
      dsimp only
      rw [List.map_map]
      congr 1
      apply List.map_congr_left
      intro ballot _
      by_cases hid : ballot.id = id
      · simp [hid]
      · simp [hid]

/-- The writes in their order are the removal. -/
theorem removalTransaction_ok (now : Int) (poll : Poll) :
    removalTransaction now none poll = removePollVoters now poll := by
  unfold removalTransaction
  rw [runWrites_none, Option.getD_some]
  unfold removalWrites removePollVoters
  split
  · dsimp only
    rw [List.foldl_append, List.foldl_append, foldl_deleteVote, foldl_unlinkVote]
    rfl
  · rfl

/-- A removal that fails midway leaves everything as it was. -/
theorem removalTransaction_fails (h : number < (removalWrites now poll).length) :
    removalTransaction now (some number) poll = poll := by
  unfold removalTransaction
  rw [runWrites_fails h]
  rfl

/-! ## One call -/

/-- What a call leaves of a poll that it does not delete: the ballots, and rows
stamped as before. -/
structure Poll.SameBallots (before after : Poll) : Prop where
  ballots : after.ballots = before.ballots
  next : after.nextBallot = before.nextBallot
  rows : ∀ row ∈ after.rows, ∃ old ∈ before.rows, row.votersRemovedAt = old.votersRemovedAt

theorem Poll.SameBallots.refl (poll : Poll) : poll.SameBallots poll :=
  ⟨rfl, rfl, fun row hrow => ⟨row, hrow, rfl⟩⟩

theorem documentService_sameBallots {action : PollAction}
    (h : documentService platform action params (some poll) = .ok (some poll')) :
    poll.SameBallots poll' := by
  cases action with
  | create | clone =>
      obtain ⟨-, h⟩ := documentService_guarded rfl h
      cases h
      exact .refl poll
  | update =>
      obtain ⟨-, h⟩ := documentService_guarded rfl h
      obtain ⟨draft, poll'', hwritten, hstored, heq⟩ := repository_update h
      cases heq
      have hdropped := withoutVotersRemoved_dropped (by decide : PollAction.update ≠ .clone) params
      have hstamp : draft.votersRemovedAt = poll.draft.votersRemovedAt := by
        have hcolumn := hwritten.votersRemovedAt
        rw [hdropped] at hcolumn
        exact writeColumn_none hcolumn
      have hrows : ∀ row ∈ poll'.rows, ∃ old ∈ poll.rows,
          row.votersRemovedAt = old.votersRemovedAt := by
        intro row hrow
        rcases Poll.updated_rows hstored row hrow with rfl | hold
        · exact ⟨poll.draft, List.mem_cons_self, hstamp⟩
        · exact ⟨row, hold, rfl⟩
      rcases publishIf_ok hstored with ⟨-, rfl⟩ | ⟨-, rfl⟩
      · exact ⟨rfl, rfl, hrows⟩
      · exact ⟨rfl, rfl, hrows⟩
  | publish =>
      obtain ⟨-, h⟩ := documentService_guarded rfl h
      obtain ⟨poll'', hpoll, h⟩ := ok_then h
      cases h
      rw [publishDraft_ok hpoll]
      refine ⟨rfl, rfl, ?_⟩
      intro row hrow
      simp only [Poll.rows, Option.toList_some, List.mem_cons, List.not_mem_nil, or_false,
        or_self] at hrow
      exact ⟨poll.draft, List.mem_cons_self, by rw [hrow]⟩
  | unpublish =>
      obtain ⟨-, h⟩ := documentService_guarded rfl h
      cases h
      refine ⟨rfl, rfl, ?_⟩
      intro row hrow
      have hdraft : row = poll.draft := by
        simpa [Poll.rows] using hrow
      exact ⟨row, by rw [hdraft]; exact List.mem_cons_self, rfl⟩
  | discardDraft =>
      obtain ⟨-, h⟩ := documentService_guarded rfl h
      cases hrow : poll.published with
      | none =>
          simp only [repository, hrow, Option.map_none] at h
          cases h
      | some row =>
          simp only [repository, hrow, Option.map_some] at h
          cases h
          refine ⟨rfl, rfl, ?_⟩
          intro other hother
          rw [Poll.rows] at hother
          have hpublished : row ∈ poll.rows := by
            rw [Poll.rows, hrow]
            exact List.mem_cons_of_mem _ List.mem_cons_self
          rcases List.mem_cons.mp hother with rfl | hother
          · exact ⟨other, hpublished, rfl⟩
          · have hmem : other ∈ poll.published.toList := by
              rw [hrow]
              exact hother
            exact ⟨other, List.mem_cons_of_mem _ hmem, rfl⟩
  | delete => cases h

/-- The event makes no new document. -/
def PollEvent.sameDocument : PollEvent → Prop
  | .call action _ => action ≠ .create
  | _ => True

/-- What one event does to the poll, where the document is there afterwards. -/
theorem step_cases (hstep : PollStep platform doc event (some poll')) (hsame : event.sameDocument) :
    ∃ poll, doc = some poll ∧
      (poll.SameBallots poll' ∨ (∃ request, event = .vote request ∧ poll' = (castVote request poll).2) ∨
        ∃ now, event = .retention now ∧ poll' = removePollVoters now poll) := by
  unfold PollStep pollNext at hstep
  cases event with
  | call action params =>
      dsimp only at hstep
      cases hcall : documentService platform action params doc with
      | error _ =>
          rw [hcall] at hstep
          exact ⟨poll', hstep, .inl (.refl poll')⟩
      | ok after =>
          rw [hcall] at hstep
          dsimp only at hstep
          subst hstep
          cases doc with
          | none =>
              have hnone := documentService_none hsame hcall
              cases hnone
          | some poll => exact ⟨poll, rfl, .inl (documentService_sameBallots hcall)⟩
  | failed => exact ⟨poll', hstep, .inl (.refl poll')⟩
  | vote request =>
      obtain ⟨poll, rfl, hpoll⟩ := Option.map_eq_some_iff.mp hstep
      exact ⟨poll, rfl, .inr (.inl ⟨request, rfl, hpoll.symm⟩)⟩
  | retention now =>
      obtain ⟨poll, rfl, hpoll⟩ := Option.map_eq_some_iff.mp hstep
      exact ⟨poll, rfl, .inr (.inr ⟨now, rfl, hpoll.symm⟩)⟩

/-- A create makes a new document or leaves the one that is there. -/
theorem create_cases (hstep : PollStep platform doc (.call .create params) (some poll')) :
    doc = some poll' ∨ poll'.Sound := by
  unfold PollStep pollNext at hstep
  dsimp only at hstep
  cases hcall : documentService platform .create params doc with
  | error _ =>
      rw [hcall] at hstep
      exact .inl hstep
  | ok after =>
      rw [hcall] at hstep
      dsimp only at hstep
      subst hstep
      cases doc with
      | none => exact .inr (documentService_create hcall poll' rfl)
      | some poll =>
          obtain ⟨-, h⟩ := documentService_guarded rfl hcall
          cases h
          exact .inl rfl

/-! ## After the removal -/

/-- Every row is stamped, and no ballot names a voter. -/
structure Forgotten (poll : Poll) : Prop where
  stamped : ∀ row ∈ poll.rows, row.votersRemovedAt.isSome
  voterless : ∀ ballot ∈ poll.ballots, ballot.voter = none

theorem voteRefusal_stamped (request : VoteRequest) (poll : Poll) {row : PollRow}
    (h : row.votersRemovedAt.isSome) : ∃ outcome, voteRefusal request poll row = some outcome ∧
      ∀ id, outcome ≠ .voted id := by
  unfold voteRefusal
  dsimp only
  repeat' split
  · exact ⟨_, rfl, nofun⟩
  · exact ⟨_, rfl, nofun⟩
  · exact ⟨_, rfl, nofun⟩
  · exact ⟨_, rfl, nofun⟩
  · exact ⟨_, rfl, nofun⟩
  · exact ⟨_, rfl, nofun⟩
  · exact ⟨_, rfl, nofun⟩
  · next hclosed _ => exact absurd (by rw [h, Bool.or_true]) hclosed

/-- No vote is accepted any more. -/
theorem Forgotten.castVote (h : Forgotten poll) (request : VoteRequest) :
    (castVote request poll).2 = poll ∧ ∀ id, (Cms.castVote request poll).1 ≠ .voted id := by
  unfold Cms.castVote
  cases hrow : poll.published with
  | none => exact ⟨rfl, nofun⟩
  | some row =>
      have hmem : row ∈ poll.rows := by
        rw [Poll.rows, hrow]
        exact List.mem_cons_of_mem _ List.mem_cons_self
      obtain ⟨outcome, hrefusal, hnot⟩ :=
        voteRefusal_stamped request poll (h.stamped row hmem)
      dsimp only
      rw [hrefusal]
      exact ⟨rfl, hnot⟩

/-- A second removal changes nothing. -/
theorem Forgotten.removePollVoters (h : Forgotten poll) (now : Int) :
    removePollVoters now poll = poll := by
  unfold Cms.removePollVoters
  rw [if_neg]
  intro hdue
  unfold votersRemovable at hdue
  rw [Bool.and_eq_true, List.any_eq_true] at hdue
  obtain ⟨-, row, hrow, hnone⟩ := hdue
  have hstamped := h.stamped row hrow
  rw [Option.isNone_iff_eq_none] at hnone
  rw [hnone] at hstamped
  cases hstamped

theorem removePollVoters_forgotten (distinct : (poll.ballots.map Ballot.id).Nodup)
    (due : votersRemovable poll.rows now = true) : Forgotten (removePollVoters now poll) := by
  constructor
  · intro row hrow
    unfold removePollVoters at hrow
    rw [if_pos due] at hrow
    dsimp only [Poll.rows] at hrow
    rcases List.mem_cons.mp hrow with rfl | hrow
    · rfl
    · rw [Option.mem_toList, Option.map_eq_some_iff] at hrow
      obtain ⟨old, -, rfl⟩ := hrow
      rfl
  · intro ballot hballot
    have hids : (poll.ballotRows.map BallotRow.id).Nodup := by
      unfold Poll.ballotRows
      rw [List.map_map]
      exact distinct
    have hrow : ballot.row ∈ (removePollVoters now poll).ballotRows := List.mem_map_of_mem hballot
    rw [ballotRows_removePollVoters due, forgetVoters_eq hids] at hrow
    obtain ⟨old, -, heq⟩ := List.mem_map.mp hrow
    exact (congrArg BallotRow.voter heq).symm

theorem step_forgotten (hstep : PollStep platform doc event (some poll'))
    (hsame : event.sameDocument) (h : ∀ poll, doc = some poll → Forgotten poll) :
    Forgotten poll' := by
  obtain ⟨poll, hpoll, hballots | ⟨request, -, rfl⟩ | ⟨now, -, rfl⟩⟩ := step_cases hstep hsame
  · have hbefore := h poll hpoll
    constructor
    · intro row hrow
      obtain ⟨old, hold, hstamp⟩ := hballots.rows row hrow
      rw [hstamp]
      exact hbefore.stamped old hold
    · rw [hballots.ballots]
      exact hbefore.voterless
  · have hbefore := h poll hpoll
    rw [(hbefore.castVote request).1]
    exact hbefore
  · have hbefore := h poll hpoll
    rw [hbefore.removePollVoters now]
    exact hbefore

/-- Once forgotten, always forgotten, as long as the document is there. -/
theorem run_forgotten (run : Run (PollStep platform) doc events doc')
    (hsame : ∀ event ∈ events, event.sameDocument) (h : ∀ poll, doc = some poll → Forgotten poll) :
    ∀ poll, doc' = some poll → Forgotten poll := by
  refine Run.invariant_of_labels (P := fun doc => ∀ poll, doc = some poll → Forgotten poll)
    (Q := PollEvent.sameDocument) ?_ run hsame h
  intro s event t hevent hstep hs poll hpoll
  rw [hpoll] at hstep
  exact step_forgotten hstep hevent hs

/-! ## Accepted votes -/

/-- Ballot ids are distinct and below the sequence. -/
structure Numbered (poll : Poll) : Prop where
  numbered : ∀ ballot ∈ poll.ballots, ballot.id < poll.nextBallot
  distinct : (poll.ballots.map Ballot.id).Nodup

theorem ballotRows_ids (distinct : (poll.ballots.map Ballot.id).Nodup) :
    (poll.ballotRows.map BallotRow.id).Nodup := by
  unfold Poll.ballotRows
  rw [List.map_map]
  exact distinct

theorem insert_numbered (h : Numbered poll) (request : VoteRequest) :
    Numbered { poll with
      ballots := poll.ballots ++ [request.ballot poll.nextBallot]
      nextBallot := poll.nextBallot + 1 } := by
  constructor
  · intro ballot hballot
    rcases List.mem_append.mp hballot with hold | hnew
    · exact Nat.lt_succ_of_lt (h.numbered ballot hold)
    · rw [List.mem_singleton.mp hnew]
      exact Nat.lt_succ_self _
  · dsimp only
    rw [List.map_append, List.nodup_append]
    refine ⟨h.distinct, List.nodup_singleton _, ?_⟩
    intro a ha b hb heq
    obtain ⟨old, hold, rfl⟩ := List.mem_map.mp ha
    have hlt := h.numbered old hold
    have hb' : b = poll.nextBallot := List.mem_singleton.mp hb
    omega

theorem castVote_numbered (h : Numbered poll) (request : VoteRequest) :
    Numbered (castVote request poll).2 := by
  rcases castVote_cases request poll with heq | ⟨-, heq⟩
  · rw [heq]
    exact h
  · rw [heq]
    exact insert_numbered h request

theorem removePollVoters_numbered (h : Numbered poll) (now : Int) :
    Numbered (removePollVoters now poll) := by
  rcases removePollVoters_cases now poll with heq | ⟨unlink, hid, -, heq⟩
  · rw [heq]
    exact h
  · rw [heq]
    constructor
    · intro ballot hballot
      obtain ⟨old, hold, rfl⟩ := List.mem_map.mp hballot
      rw [hid]
      exact h.numbered old (List.mem_filter.mp hold).1
    · dsimp only
      rw [List.map_map]
      have hids : (Ballot.id ∘ unlink) = Ballot.id := funext hid
      rw [hids]
      exact h.distinct.sublist (List.filter_sublist.map _)

theorem step_numbered (hstep : PollStep platform doc event doc')
    (h : ∀ poll, doc = some poll → Numbered poll) : ∀ poll, doc' = some poll → Numbered poll := by
  intro poll' hpoll'
  rw [hpoll'] at hstep
  by_cases hsame : event.sameDocument
  · obtain ⟨poll, hpoll, hballots | ⟨request, -, rfl⟩ | ⟨now, -, rfl⟩⟩ := step_cases hstep hsame
    · have hbefore := h poll hpoll
      constructor
      · rw [hballots.ballots, hballots.next]
        exact hbefore.numbered
      · rw [hballots.ballots]
        exact hbefore.distinct
    · exact castVote_numbered (h poll hpoll) request
    · exact removePollVoters_numbered (h poll hpoll) now
  · obtain ⟨params, rfl⟩ : ∃ params, event = .call .create params := by
      cases event with
      | call action params =>
          refine ⟨params, ?_⟩
          by_contra hother
          exact hsame fun hcreate => hother (by rw [hcreate])
      | failed | vote _ | retention _ => exact absurd trivial hsame
    rcases create_cases hstep with hdoc | hsound
    · exact h poll' hdoc
    · exact ⟨hsound.numbered, hsound.distinct⟩

theorem run_numbered (run : Run (PollStep platform) doc events doc')
    (h : ∀ poll, doc = some poll → Numbered poll) : ∀ poll, doc' = some poll → Numbered poll :=
  run.invariant (P := fun doc => ∀ poll, doc = some poll → Numbered poll)
    (fun _ _ _ hstep => step_numbered hstep) h

/-- A ballot that is stored, with its option, and counts. -/
def CountsBallot (id optionIndex : Nat) (poll : Poll) : Prop :=
  ∃ ballot ∈ poll.ballots, ballot.id = id ∧ ballot.optionIndex = optionIndex ∧
    isFirst poll.ballotRows ballot.row = true

/-- An accepted vote is the voter's only ballot. -/
theorem castVote_voted {request : VoteRequest} (hvoted : (castVote request poll).1 = .voted id) :
    CountsBallot id request.optionIndex (castVote request poll).2 := by
  unfold castVote at hvoted ⊢
  cases hrow : poll.published with
  | none =>
      rw [hrow] at hvoted
      cases hvoted
  | some row =>
      rw [hrow] at hvoted
      dsimp only at hvoted ⊢
      cases hrefusal : voteRefusal request poll row with
      | some outcome =>
          exfalso
          rw [hrefusal] at hvoted
          dsimp only at hvoted
          rw [hvoted] at hrefusal
          unfold voteRefusal at hrefusal
          dsimp only at hrefusal
          split_ifs at hrefusal
          all_goals cases hrefusal
      | none =>
          have hnew := voteRefusal_none hrefusal
          rw [hrefusal, insertBallot_new hnew] at hvoted
          rw [insertBallot_new hnew]
          cases hvoted
          refine ⟨request.ballot poll.nextBallot, by simp, rfl, rfl, ?_⟩
          rw [isFirst_iff]
          refine .inr ?_
          intro other hother hsame
          obtain ⟨ballot, hballot, rfl⟩ := List.mem_map.mp hother
          rcases List.mem_append.mp hballot with hold | hlast
          · exact absurd hsame (hnew ballot hold)
          · rw [List.mem_singleton.mp hlast]

/-- A counting ballot counts after every event that leaves the document there. -/
theorem step_counts (hstep : PollStep platform doc event (some poll'))
    (hsame : event.sameDocument) (hnumbered : ∀ poll, doc = some poll → Numbered poll)
    (h : ∀ poll, doc = some poll → CountsBallot id optionIndex poll) :
    CountsBallot id optionIndex poll' := by
  obtain ⟨poll, hpoll, hballots | ⟨request, -, rfl⟩ | ⟨now, -, rfl⟩⟩ := step_cases hstep hsame
  · have hbefore := h poll hpoll
    unfold CountsBallot Poll.ballotRows at hbefore ⊢
    rw [hballots.ballots]
    exact hbefore
  · obtain ⟨ballot, hballot, hid, hoption, hfirst⟩ := h poll hpoll
    rcases castVote_cases request poll with heq | ⟨-, heq⟩
    · rw [heq]
      exact ⟨ballot, hballot, hid, hoption, hfirst⟩
    · rw [heq]
      refine ⟨ballot, List.mem_append_left _ hballot, hid, hoption, ?_⟩
      rw [isFirst_iff] at hfirst ⊢
      refine hfirst.imp_right ?_
      intro hleast other hother hsame'
      obtain ⟨cast, hcast, rfl⟩ := List.mem_map.mp hother
      rcases List.mem_append.mp hcast with hold | hnew
      · exact hleast cast.row (List.mem_map_of_mem hold) hsame'
      · -- the new ballot takes the next id
        have hlt := (hnumbered poll hpoll).numbered ballot hballot
        rw [List.mem_singleton.mp hnew]
        exact Nat.le_of_lt hlt
  · obtain ⟨ballot, hballot, hid, hoption, hfirst⟩ := h poll hpoll
    by_cases due : votersRemovable poll.rows now = true
    · have hids := ballotRows_ids (hnumbered poll hpoll).distinct
      have hmem : (⟨ballot.id, some ballot.optionIndex, none⟩ : BallotRow) ∈
          (removePollVoters now poll).ballotRows := by
        rw [ballotRows_removePollVoters due, forgetVoters_eq hids]
        exact List.mem_map.mpr ⟨ballot.row,
          List.mem_filter.mpr ⟨List.mem_map_of_mem hballot, hfirst⟩, rfl⟩
      obtain ⟨kept, hkept, heq⟩ := List.mem_map.mp hmem
      have hkeptId : kept.id = ballot.id := congrArg BallotRow.id heq
      have hkeptOption : some (kept.optionIndex : Int) = some (ballot.optionIndex : Int) :=
        congrArg BallotRow.optionIndex heq
      have hkeptVoter : kept.row.voter = none := congrArg BallotRow.voter heq
      refine ⟨kept, hkept, hkeptId.trans hid, ?_, isFirst_of_voterless hkeptVoter⟩
      have hcast := Option.some.inj hkeptOption
      omega
    · have hsame : removePollVoters now poll = poll := by
        unfold removePollVoters
        rw [if_neg due]
      rw [hsame]
      exact ⟨ballot, hballot, hid, hoption, hfirst⟩

theorem run_counts (run : Run (PollStep platform) doc events doc')
    (hsame : ∀ event ∈ events, event.sameDocument)
    (hnumbered : ∀ poll, doc = some poll → Numbered poll)
    (h : ∀ poll, doc = some poll → CountsBallot id optionIndex poll) :
    ∀ poll, doc' = some poll → CountsBallot id optionIndex poll := by
  have hboth := Run.invariant_of_labels
    (P := fun doc => (∀ poll, doc = some poll → Numbered poll) ∧
      ∀ poll, doc = some poll → CountsBallot id optionIndex poll)
    (Q := PollEvent.sameDocument) (fun s event t hevent hstep hs => by
      refine ⟨step_numbered hstep hs.1, ?_⟩
      intro poll hpoll
      rw [hpoll] at hstep
      exact step_counts hstep hevent hs.1 hs.2) run hsame ⟨hnumbered, h⟩
  exact hboth.2

theorem CountsBallot.counted (h : CountsBallot id optionIndex poll) (hnumbered : Numbered poll) :
    ∃ row ∈ countedBallots poll.ballotRows, row.id = id ∧ row.optionIndex = some (optionIndex : Int) := by
  obtain ⟨ballot, hballot, hid, hoption, hfirst⟩ := h
  refine ⟨ballot.row, ?_, hid, congrArg (fun n : Nat => some (n : Int)) hoption⟩
  rw [(countedBallots_perm (ballotRows_ids hnumbered.distinct)).mem_iff]
  exact List.mem_filter.mpr ⟨List.mem_map_of_mem hballot, hfirst⟩

/-! ## The results are kept -/

/-- Two polls with the same results, by the fold and by the statement of any
databases that hold their ballots. -/
structure SameResults (poll poll' : Poll) : Prop where
  tally : ∀ optionCount callerId callerId',
    (tallyBallots poll'.ballotRows optionCount callerId).counts =
        (tallyBallots poll.ballotRows optionCount callerId').counts ∧
      (tallyBallots poll'.ballotRows optionCount callerId).total =
        (tallyBallots poll.ballotRows optionCount callerId').total
  count : ∀ (host host' : BallotCountHost) pollId pollId' optionCount callerId callerId',
    (host.tables.ballotsOf pollId).Perm poll.ballotRows →
    (host'.tables.ballotsOf pollId').Perm poll'.ballotRows →
      (countPollBallots host' pollId' callerId optionCount).counts =
          (countPollBallots host pollId callerId' optionCount).counts ∧
        (countPollBallots host' pollId' callerId optionCount).total =
          (countPollBallots host pollId callerId' optionCount).total

theorem forgetVoters_perm {rows rows' : List BallotRow} (perm : rows.Perm rows')
    (ids : (rows'.map BallotRow.id).Nodup) : (forgetVoters rows).Perm (forgetVoters rows') := by
  have hids : (rows.map BallotRow.id).Nodup := (perm.map _).nodup_iff.mpr ids
  have hfirst : isFirst rows = isFirst rows' := funext (isFirst_perm perm)
  rw [forgetVoters_eq hids, forgetVoters_eq ids, hfirst]
  exact (perm.filter _).map _

theorem removePollVoters_results (h : Numbered poll) (due : votersRemovable poll.rows now = true) :
    SameResults poll (removePollVoters now poll) := by
  have ids := ballotRows_ids h.distinct
  have hrows := ballotRows_removePollVoters due
  constructor
  · intro optionCount callerId callerId'
    rw [hrows]
    exact tally_forgetVoters ids optionCount callerId callerId'
  · intro host host' pollId pollId' optionCount callerId callerId' hbefore hafter
    rw [hrows] at hafter
    exact count_forgetVoters host host' (hafter.trans (forgetVoters_perm hbefore ids).symm)
      optionCount callerId callerId'

/-- **Forgetting the voters changes no result.** On ballots of any options and voters the plan keeps
the counts and the total. In any history of a poll's calls, votes and removals: a removal that is due
keeps the results, and from then on, while the document exists, every row is stamped, no ballot names
a voter, no vote is accepted and a removal changes nothing; one that is not due or that fails at any
of its writes changes nothing; and a vote that was accepted is counted in every later state. -/
theorem forgetting_voters_changes_no_result {start : Option Poll} {events : List PollEvent}
    {doc : Option Poll} (hstart : ∀ poll, start = some poll → Numbered poll)
    (run : Run (PollStep platform) start events doc) :
    (∀ rows : List BallotRow, (rows.map BallotRow.id).Nodup → ∀ optionCount callerId callerId',
      (tallyBallots (forgetVoters rows) optionCount callerId).counts =
          (tallyBallots rows optionCount callerId').counts ∧
        (tallyBallots (forgetVoters rows) optionCount callerId).total =
          (tallyBallots rows optionCount callerId').total) ∧
    (∀ (host host' : BallotCountHost) pollId pollId',
      (host'.tables.ballotsOf pollId').Perm (forgetVoters (host.tables.ballotsOf pollId)) →
      ∀ optionCount callerId callerId',
        (countPollBallots host' pollId' callerId optionCount).counts =
            (countPollBallots host pollId callerId' optionCount).counts ∧
          (countPollBallots host' pollId' callerId optionCount).total =
            (countPollBallots host pollId callerId' optionCount).total) ∧
    (∀ before now after poll, events = before ++ .retention now :: after →
      Run (PollStep platform) start before (some poll) →
      removalTransaction now none poll = removePollVoters now poll ∧
      (∀ number, number < (removalWrites now poll).length →
        removalTransaction now (some number) poll = poll) ∧
      (votersRemovable poll.rows now = false → removePollVoters now poll = poll) ∧
      (votersRemovable poll.rows now = true →
        SameResults poll (removePollVoters now poll) ∧
        Forgotten (removePollVoters now poll) ∧
        ((∀ event ∈ after, event.sameDocument) → ∀ last, doc = some last →
          Forgotten last ∧
          (∀ request, (castVote request last).2 = last ∧
            ∀ id, (castVote request last).1 ≠ .voted id) ∧
          ∀ later, removePollVoters later last = last))) ∧
    (∀ before request after poll id, events = before ++ .vote request :: after →
      Run (PollStep platform) start before (some poll) →
      (castVote request poll).1 = .voted id → (∀ event ∈ after, event.sameDocument) →
      ∀ last, doc = some last →
        ∃ row ∈ countedBallots last.ballotRows, row.id = id ∧
          row.optionIndex = some (request.optionIndex : Int)) := by
  have hunique : ∀ s a t t', PollStep platform s a t → PollStep platform s a t' → t = t' :=
    fun _ _ _ _ h h' => h.symm.trans h'
  refine ⟨fun rows ids => tally_forgetVoters ids,
    fun host host' pollId pollId' h => count_forgetVoters host host' h, ?_, ?_⟩
  · intro before now after poll hevents hbefore
    have hnumbered := run_numbered hbefore hstart poll rfl
    refine ⟨removalTransaction_ok now poll, fun number h => removalTransaction_fails h, ?_, ?_⟩
    · intro hnot
      unfold removePollVoters
      rw [if_neg (by rw [hnot]; decide)]
    · intro due
      have hforgotten := removePollVoters_forgotten hnumbered.distinct due
      refine ⟨removePollVoters_results hnumbered due, hforgotten, ?_⟩
      intro hsame last hlast
      rw [hevents] at run
      obtain ⟨mid, hmid, hrest⟩ := run.split
      have hpoll := Run.unique hunique hmid hbefore
      subst hpoll
      cases hrest with
      | cons hstep hafter =>
          have hdoc : PollStep platform (some poll) (.retention now)
              (some (removePollVoters now poll)) := rfl
          have hnext := hunique _ _ _ _ hstep hdoc
          subst hnext
          have hfinal := run_forgotten hafter hsame (fun other hother => by
            cases hother
            exact hforgotten) last hlast
          exact ⟨hfinal, hfinal.castVote, hfinal.removePollVoters⟩
  · intro before request after poll id hevents hbefore hvoted hsame last hlast
    have hnumbered := run_numbered hbefore hstart poll rfl
    rw [hevents] at run
    obtain ⟨mid, hmid, hrest⟩ := run.split
    have hpoll := Run.unique hunique hmid hbefore
    subst hpoll
    cases hrest with
    | cons hstep hafter =>
        have hdoc : PollStep platform (some poll) (.vote request)
            (some (castVote request poll).2) := rfl
        have hnext := hunique _ _ _ _ hstep hdoc
        subst hnext
        have hcast := castVote_numbered hnumbered request
        have hsome : ∀ other, some (castVote request poll).2 = some other → Numbered other := by
          intro other hother
          cases hother
          exact hcast
        have hcounts := run_counts hafter hsame hsome (fun other hother => by
          cases hother
          exact castVote_voted hvoted) last hlast
        exact hcounts.counted (run_numbered hafter hsome last hlast)

/-! ## A poll with duplicates -/

/-- Three ballots of one voter and one of a deleted account. -/
def crowdedPoll : Poll where
  draft := sampleRow
  published := some sampleRow
  ballots := [⟨4, 1, some 7⟩, ⟨2, 0, some 7⟩, ⟨3, 0, none⟩, ⟨6, 1, some 8⟩]
  nextBallot := 7

def laterVote : VoteRequest := ⟨⟨true, true, true⟩, 9, 1, some "No", 1788000000000⟩

theorem crowdedPoll_numbered : Numbered crowdedPoll where
  numbered := by decide
  distinct := by decide

/-- A month after it closed the crowded poll loses its voters; the vote cast before stays. -/
theorem forgetting_voters_changes_no_result_crowded :
    SameResults (castVote laterVote crowdedPoll).2
        (removePollVoters (1788299999000 + 31 * 86400000) (castVote laterVote crowdedPoll).2) ∧
      ∃ row ∈ countedBallots
          (removePollVoters (1788299999000 + 31 * 86400000) (castVote laterVote crowdedPoll).2).ballotRows,
        row.id = 7 ∧ row.optionIndex = some 1 := by
  have hrun : Run (PollStep samplePlatform) (some crowdedPoll) [.vote laterVote, sampleRetention]
      (some (removePollVoters (1788299999000 + 31 * 86400000) (castVote laterVote crowdedPoll).2)) :=
    .cons rfl (.single rfl)
  obtain ⟨-, -, hremovals, hvotes⟩ := forgetting_voters_changes_no_result
    (fun poll hpoll => by
      cases hpoll
      exact crowdedPoll_numbered) hrun
  obtain ⟨-, -, -, hdue⟩ := hremovals [.vote laterVote] _ [] _ rfl (.single rfl)
  have due : votersRemovable (castVote laterVote crowdedPoll).2.rows
      (1788299999000 + 31 * 86400000) = true := by decide
  refine ⟨(hdue due).1, ?_⟩
  exact hvotes [] laterVote [sampleRetention] crowdedPoll 7 rfl (.refl _) (by decide)
    (by simp [sampleRetention, PollEvent.sameDocument]) _ rfl

end Sinnlos.Cms

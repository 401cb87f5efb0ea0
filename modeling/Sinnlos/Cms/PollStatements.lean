import Sinnlos.Cms.PollTallies

/-! # The counting statements

The rows that a statement groups are the ballots that count, and its result,
read in any order, gives their tally. The statement for several polls groups the
same rows poll by poll.
-/

namespace Sinnlos.Cms

open Sql Text

/-! ## The rows -/

def JoinedRow.ballot (row : JoinedRow) : BallotRow := ⟨row.1.1.id, row.1.1.optionIndex, row.voter⟩

section Rows
variable (tables : BallotTables)

theorem ballotsOf_ids (poll : Nat) : ((tables.ballotsOf poll).map BallotRow.id).Nodup := by
  unfold BallotTables.ballotsOf
  rw [List.map_map]
  exact (List.filter_sublist.map VoteRow.id).nodup tables.ids

theorem filter_eq_vote (links : List LinkRow) (vote : Nat) :
    (links.filter fun l => holds (eq l.vote (some vote))) =
      links.filter fun l => l.vote = some vote := by
  apply List.filter_congr
  intro l _
  rw [Bool.eq_iff_iff, holds_eq, decide_eq_true_eq]
  constructor
  · rintro ⟨value, hl, hvalue⟩
    rw [hl, hvalue]
  · exact fun h => ⟨vote, h, rfl⟩

/-- Rows that yield one row or none. -/
theorem flatMap_once {α β : Type} {rows : List α} {f : α → List β} {p : α → Bool} {g : α → β}
    (h : ∀ row ∈ rows, f row = if p row = true then [g row] else []) :
    rows.flatMap f = (rows.filter p).map g := by
  induction rows with
  | nil => rfl
  | cons row rows ih =>
      rw [List.forall_mem_cons] at h
      rw [List.flatMap_cons, ih h.2, h.1, List.filter_cons]
      split
      · rfl
      · rfl

/-- Every vote has one voter link at most, so the left join adds it. -/
theorem joined_eq : tables.joined =
    (join tables.votes tables.pollLinks fun v pl => eq pl.vote (some v.id)).map fun row =>
      (row, tables.voterLinks.find? fun l => l.vote = some row.1.id) := by
  unfold BallotTables.joined
  rw [leftJoin_eq_map]
  · apply List.map_congr_left
    intro row _
    rw [filter_eq_vote, List.head?_filter]
  · intro row _
    rw [filter_eq_vote]
    exact tables.voter_once row.1.id

theorem poll_links_once (vote poll : Nat) :
    (tables.pollLinks.filter fun l => l.vote = some vote ∧ l.target = some poll) =
      if (tables.pollLinks.any fun l => l.vote = some vote ∧ l.target = some poll) = true then
        [⟨some vote, some poll⟩] else [] := by
  have honce := tables.polls_once vote poll
  split
  · rename_i hany
    obtain ⟨link, hmem, hlink⟩ := List.any_eq_true.mp hany
    have hin : link ∈ tables.pollLinks.filter fun l => l.vote = some vote ∧ l.target = some poll :=
      List.mem_filter.mpr ⟨hmem, hlink⟩
    rw [decide_eq_true_eq] at hlink
    have heq : link = ⟨some vote, some poll⟩ := by
      cases link
      simp only [LinkRow.mk.injEq]
      exact hlink
    rw [heq] at hin
    exact ((List.singleton_sublist.mpr hin).eq_of_length_le honce).symm
  · rename_i hany
    rw [List.filter_eq_nil_iff]
    intro link hmem hlink
    exact hany (List.any_eq_true.mpr ⟨link, hmem, hlink⟩)

/-- The joined rows of a poll are its ballots. -/
theorem joined_ballots (poll : Nat) :
    ((select tables.joined fun row => eq row.poll (some poll)).map JoinedRow.ballot) =
      tables.ballotsOf poll := by
  have hvote : ∀ v : VoteRow, ((((tables.pollLinks.filter fun pl => holds (eq pl.vote (some v.id))).map
      fun pl => (v, pl)).filter fun row => holds (eq row.2.target (some poll))).map
        fun row => (⟨row.1.id, row.1.optionIndex, tables.voterOf row.1.id⟩ : BallotRow)) =
      if (tables.pollLinks.any fun l => l.vote = some v.id ∧ l.target = some poll) = true then
        [⟨v.id, v.optionIndex, tables.voterOf v.id⟩] else [] := by
    intro v
    have hlinks : ((tables.pollLinks.filter fun pl => holds (eq pl.vote (some v.id))).filter
        fun pl => holds (eq pl.target (some poll))) =
          tables.pollLinks.filter fun l => l.vote = some v.id ∧ l.target = some poll := by
      rw [List.filter_filter]
      apply List.filter_congr
      intro l _
      rw [Bool.eq_iff_iff, Bool.and_eq_true, holds_eq, holds_eq, decide_eq_true_eq]
      constructor
      · rintro ⟨⟨value, htarget, hvalue⟩, value', hl, hvalue'⟩
        exact ⟨hl.trans hvalue'.symm, htarget.trans hvalue.symm⟩
      · rintro ⟨hl, htarget⟩
        exact ⟨⟨poll, htarget, rfl⟩, v.id, hl, rfl⟩
    rw [List.filter_map, List.map_map]
    simp only [Function.comp_def]
    rw [hlinks, poll_links_once]
    split <;> rfl
  unfold select
  rw [joined_eq, List.filter_map, List.map_map]
  unfold join
  rw [List.filter_flatMap, List.map_flatMap]
  exact flatMap_once fun v _ => hvote v

/-- A vote that the subquery finds is an earlier ballot of the same voter. -/
theorem earlier_eq_nil {row : JoinedRow} {poll : Nat} (hpoll : row.poll = some poll) :
    tables.earlier row = [] ↔ isFirst (tables.ballotsOf poll) row.ballot = true := by
  rw [isFirst_iff, List.eq_nil_iff_forall_not_mem]
  constructor
  · intro hnone
    cases hvoter : row.ballot.voter with
    | none => exact .inl rfl
    | some voter =>
        refine .inr ?_
        intro other hother hsame
        by_contra hlater
        obtain ⟨v, hv, rfl⟩ := List.mem_map.mp hother
        obtain ⟨hvotes, hlinked⟩ := List.mem_filter.mp hv
        obtain ⟨pl, hpl, hlink⟩ := List.any_eq_true.mp hlinked
        rw [decide_eq_true_eq] at hlink
        dsimp only at hsame hlater
        unfold BallotTables.voterOf at hsame
        obtain ⟨vl, hvl, htarget⟩ := Option.bind_eq_some_iff.mp hsame
        have hfound := List.find?_some hvl
        have hvote : vl.vote = some v.id := of_decide_eq_true hfound
        apply hnone ((pl, v), vl)
        unfold BallotTables.earlier
        rw [mem_select, mem_join, mem_join]
        refine ⟨⟨⟨hpl, hvotes, ?_⟩, List.mem_of_find?_eq_some hvl, ?_⟩, ?_⟩
        · rw [holds_eq]
          exact ⟨v.id, rfl, hlink.1⟩
        · rw [holds_eq]
          exact ⟨v.id, hvote, hlink.1⟩
        · rw [holds_conj, holds_conj, Bool.and_eq_true, Bool.and_eq_true, holds_eq, holds_eq,
            holds_less]
          exact ⟨⟨poll, hlink.2, hpoll⟩, ⟨voter, htarget, hvoter⟩, v.id, row.1.1.id, hlink.1, rfl,
            Nat.lt_of_not_le hlater⟩
  · rintro hfirst ⟨⟨pl, v⟩, vl⟩ hfound
    unfold BallotTables.earlier at hfound
    rw [mem_select, mem_join, mem_join, holds_conj, holds_conj, Bool.and_eq_true,
      Bool.and_eq_true, holds_eq, holds_eq, holds_eq, holds_eq, holds_less] at hfound
    obtain ⟨⟨⟨hpl, hv, x, hx, hplv⟩, hvl, y, hvly, hply⟩, ⟨z, hplz, hz⟩, ⟨voter, hvoter, hown⟩, n, m,
      hn, hm, hlt⟩ := hfound
    dsimp only at hx hplv hvly hply hplz hvoter hn
    cases hx
    rw [hplv] at hply hn
    cases hply
    cases hn
    cases hm
    rw [hpoll] at hz
    cases hz
    have hfind : (tables.voterLinks.find? fun l => l.vote = some v.id) = some vl := by
      have hin : vl ∈ tables.voterLinks.filter fun l => l.vote = some v.id :=
        List.mem_filter.mpr ⟨hvl, decide_eq_true hvly⟩
      have hone := (List.singleton_sublist.mpr hin).eq_of_length_le (tables.voter_once v.id)
      rw [← List.head?_filter, ← hone]
      rfl
    have hballot : (⟨v.id, v.optionIndex, tables.voterOf v.id⟩ : BallotRow) ∈
        tables.ballotsOf poll := by
      apply List.mem_map_of_mem (f := fun v : VoteRow =>
        (⟨v.id, v.optionIndex, tables.voterOf v.id⟩ : BallotRow))
      exact List.mem_filter.mpr ⟨hv, List.any_eq_true.mpr ⟨pl, hpl, decide_eq_true ⟨hplv, hplz⟩⟩⟩
    have hvoted : tables.voterOf v.id = some voter := by
      unfold BallotTables.voterOf
      rw [hfind]
      exact hvoter
    have hmine : row.ballot.voter = some voter := hown
    rw [hmine] at hfirst
    have hle := hfirst.resolve_left (by simp) _ hballot hvoted
    have hid : row.ballot.id = row.1.1.id := rfl
    dsimp only at hle
    omega

/-- The joined rows of a poll that the statements group. -/
def countedRows (poll : Nat) : List JoinedRow :=
  select tables.joined fun row => conj (eq row.poll (some poll)) (notExists (tables.earlier row))

theorem countedRows_ballots (poll : Nat) : (countedRows tables poll).map JoinedRow.ballot =
    (tables.ballotsOf poll).filter (isFirst (tables.ballotsOf poll)) := by
  have hrows : countedRows tables poll =
      (select tables.joined fun row => eq row.poll (some poll)).filter fun row =>
        isFirst (tables.ballotsOf poll) row.ballot := by
    unfold countedRows select
    rw [List.filter_filter]
    apply List.filter_congr
    intro row _
    rw [Bool.eq_iff_iff, holds_conj, Bool.and_eq_true, Bool.and_eq_true, holds_notExists, holds_eq]
    constructor
    · rintro ⟨⟨value, hpoll, hvalue⟩, hnone⟩
      cases hvalue
      exact ⟨(earlier_eq_nil tables hpoll).mp hnone, poll, hpoll, rfl⟩
    · rintro ⟨hfirst, value, hpoll, hvalue⟩
      cases hvalue
      exact ⟨⟨poll, hpoll, rfl⟩, (earlier_eq_nil tables hpoll).mpr hfirst⟩
  rw [hrows, ← joined_ballots, List.filter_map]
  rfl

end Rows

/-! ## The result -/

/-- `tallyFromCounts` on the values of a result. -/
def tallyResult (optionCount : Nat) (tally : BallotTally) (row : CountRow) : BallotTally :=
  { counts := addBallots optionCount tally.counts row.optionIndex row.ballots
    total := tally.total + row.ballots
    myVoteIndex := if 0 < row.mine then optionOf row.optionIndex else tally.myVoteIndex }

variable {cell : Cell} {result : CountRow}

theorem count_of_shows {value : Int} (h : cell.Shows value) : cell.count = value := by
  rcases h with rfl | rfl
  · rfl
  · simp only [Cell.count, readInt_toString, Option.getD_some]

theorem option_of_shows {value : Option Int} (h : cell.ShowsColumn value) :
    cell.option = value := by
  cases value with
  | none =>
      cases h
      rfl
  | some value =>
      rcases h with rfl | rfl
      · rfl
      · exact readInt_toString value

theorem tallyCount_eq {row : BallotCountRow} (h : row.Carries result) (optionCount : Nat)
    (tally : BallotTally) :
    tallyCount optionCount tally row = tallyResult optionCount tally result := by
  simp only [tallyCount, tallyResult, option_of_shows h.option_index, count_of_shows h.ballots,
    count_of_shows h.mine, Int.natCast_pos, optionOf]

theorem foldl_tallyCount {rows : List BallotCountRow} {results : List CountRow}
    (h : List.Forall₂ BallotCountRow.Carries rows results) (optionCount : Nat) :
    ∀ tally, rows.foldl (tallyCount optionCount) tally =
      results.foldl (tallyResult optionCount) tally := by
  induction h with
  | nil => exact fun _ => rfl
  | cons hrow _ ih =>
      intro tally
      rw [List.foldl_cons, List.foldl_cons, tallyCount_eq hrow, ih]

theorem foldl_tallyResult (optionCount : Nat) (results : List CountRow) :
    ∀ tally : BallotTally, results.foldl (tallyResult optionCount) tally =
      ⟨(results.map fun r => (r.optionIndex, (r.ballots : Int))).foldl
          (fun counts w => addBallots optionCount counts w.1 w.2) tally.counts,
        tally.total + ((results.map CountRow.ballots).sum : Nat),
        results.foldl (fun m r => if decide (0 < r.mine) = true then optionOf r.optionIndex else m)
          tally.myVoteIndex⟩ := by
  induction results with
  | nil =>
      intro tally
      simp
  | cons r results ih =>
      intro tally
      rw [List.foldl_cons, ih]
      simp only [tallyResult, List.map_cons, List.foldl_cons, List.sum_cons, decide_eq_true_eq]
      congr 1
      push_cast
      omega

/-- The result of a statement on rows, one group for every option. -/
def resultOf (callerId : Option Nat) (rows : List JoinedRow) : List CountRow :=
  (groupBy JoinedRow.optionIndex rows).map fun group =>
    ⟨none, group.1, group.2.length, sumWhere (BallotTables.isMine callerId) group.2⟩

variable {callerId : Option Nat} {rows : List JoinedRow} {row : JoinedRow} {order : List CountRow}

theorem holds_isMine : holds (BallotTables.isMine callerId row) = isOwn callerId row.ballot := by
  rw [Bool.eq_iff_iff]
  unfold BallotTables.isMine isOwn
  rw [holds_eq, decide_eq_true_eq]
  have hballot : row.ballot.voter = row.voter := rfl
  rw [hballot]
  cases hvoter : row.voter with
  | none =>
      simp only [Option.map_none, reduceCtorEq, false_and, exists_false, ne_eq, false_iff, not_and]
      exact fun hcaller hnone => hcaller hnone.symm
  | some voter =>
      cases callerId with
      | none => simp
      | some caller =>
          simp only [Option.map_some, Option.some.injEq, Option.elim_some, ne_eq, reduceCtorEq,
            not_false_eq_true, true_and, exists_eq_left']
          omega

theorem weightOf_perm {weights weights' : List (Option Int × Int)} (perm : weights.Perm weights')
    (option : Int) : weightOf weights option = weightOf weights' option :=
  (perm.map _).sum_eq

theorem weightOf_resultOf (callerId : Option Nat) (rows : List JoinedRow) (option : Int) :
    weightOf ((resultOf callerId rows).map fun r => (r.optionIndex, (r.ballots : Int))) option =
      (((rows.map JoinedRow.ballot).countP fun b => b.optionIndex = some option : Nat) : Int) := by
  have hsum := sum_groupBy_key JoinedRow.optionIndex rows (some option)
  unfold weightOf resultOf
  rw [List.map_map, List.map_map, List.countP_map, Function.comp_def]
  have hcast : ((groupBy JoinedRow.optionIndex rows).map fun g =>
      if g.1 = some option then ((g.2.length : Nat) : Int) else 0).sum =
        (((groupBy JoinedRow.optionIndex rows).map fun g =>
          if g.1 = some option then g.2.length else 0).sum : Nat) := by
    generalize groupBy JoinedRow.optionIndex rows = groups
    induction groups with
    | nil => rfl
    | cons g groups ih =>
        rw [List.map_cons, List.sum_cons, ih, List.map_cons, List.sum_cons]
        push_cast
        split <;> rfl
  exact hcast.trans (congrArg _ hsum)

theorem total_resultOf (callerId : Option Nat) (rows : List JoinedRow) :
    ((resultOf callerId rows).map CountRow.ballots).sum = rows.length := by
  unfold resultOf
  rw [List.map_map]
  exact sum_groupBy_length JoinedRow.optionIndex rows

/-- A group has a ballot of the caller's exactly where the caller's option is its
own. -/
theorem mine_resultOf (h : result ∈ resultOf callerId rows) : 0 < result.mine ↔
      ∃ row ∈ rows, isOwn callerId row.ballot = true ∧ row.optionIndex = result.optionIndex := by
  obtain ⟨⟨option, group⟩, hgroup, rfl⟩ := List.mem_map.mp h
  obtain ⟨-, rfl⟩ := mem_groupBy.mp hgroup
  dsimp only [sumWhere]
  rw [List.countP_pos_iff]
  constructor
  · rintro ⟨row, hrow, hmine⟩
    obtain ⟨hin, hoption⟩ := List.mem_filter.mp hrow
    exact ⟨row, hin, holds_isMine ▸ hmine, of_decide_eq_true hoption⟩
  · rintro ⟨row, hrow, hown, hoption⟩
    exact ⟨row, List.mem_filter.mpr ⟨hrow, decide_eq_true hoption⟩, holds_isMine.trans hown⟩

theorem exists_mine (hrow : row ∈ rows) (hown : isOwn callerId row.ballot = true) :
    ∃ result ∈ resultOf callerId rows, result.optionIndex = row.optionIndex ∧ 0 < result.mine := by
  have hgroup := mem_groupBy.mpr ⟨List.mem_map_of_mem (f := JoinedRow.optionIndex) hrow,
    (rfl : (rows.filter fun r => r.optionIndex = row.optionIndex) = _)⟩
  have hresult := List.mem_map_of_mem (f := fun group : Option Int × List JoinedRow =>
    (⟨none, group.1, group.2.length, sumWhere (BallotTables.isMine callerId) group.2⟩ : CountRow))
    hgroup
  exact ⟨_, hresult, rfl, (mine_resultOf hresult).mpr ⟨row, hrow, hown, rfl⟩⟩

/-- The option of the caller's ballot, read from a result in any order. -/
theorem mine_of_order (once : ((rows.map JoinedRow.ballot).filter (isOwn callerId)).length ≤ 1)
    (perm : order.Perm (resultOf callerId rows)) :
    ((order.filter fun r => decide (0 < r.mine)).getLast?).elim none
        (fun r => optionOf r.optionIndex) =
      (((rows.map JoinedRow.ballot).filter (isOwn callerId)).getLast?).elim none
        fun b => optionOf b.optionIndex := by
  have hmine : ∀ r ∈ order, 0 < r.mine ↔
      ∃ row ∈ rows, isOwn callerId row.ballot = true ∧ row.optionIndex = r.optionIndex :=
    fun r hr => mine_resultOf (perm.mem_iff.mp hr)
  match hown : (rows.map JoinedRow.ballot).filter (isOwn callerId) with
  | [] =>
      have hnil : (order.filter fun r => decide (0 < r.mine)) = [] := by
        rw [List.filter_eq_nil_iff]
        intro r hr hpos
        obtain ⟨row, hrow, hrowOwn, -⟩ := (hmine r hr).mp (of_decide_eq_true hpos)
        have hin : row.ballot ∈ (rows.map JoinedRow.ballot).filter (isOwn callerId) :=
          List.mem_filter.mpr ⟨List.mem_map_of_mem hrow, hrowOwn⟩
        rw [hown] at hin
        cases hin
      rw [hnil]
      rfl
  | [ballot] =>
      have hsingle : ∀ row ∈ rows, isOwn callerId row.ballot = true → row.ballot = ballot := by
        intro row hrow hrowOwn
        have hin : row.ballot ∈ (rows.map JoinedRow.ballot).filter (isOwn callerId) :=
          List.mem_filter.mpr ⟨List.mem_map_of_mem hrow, hrowOwn⟩
        rw [hown] at hin
        exact List.mem_singleton.mp hin
      have hballot : ballot ∈ (rows.map JoinedRow.ballot).filter (isOwn callerId) :=
        hown ▸ List.mem_cons_self
      obtain ⟨hmem, hballotOwn⟩ := List.mem_filter.mp hballot
      obtain ⟨row, hrow, rfl⟩ := List.mem_map.mp hmem
      have hoptions : ∀ r ∈ order.filter fun r => decide (0 < r.mine),
          r.optionIndex = row.ballot.optionIndex := by
        intro r hr
        obtain ⟨hin, hpos⟩ := List.mem_filter.mp hr
        obtain ⟨other, hother, hotherOwn, hoption⟩ := (hmine r hin).mp (of_decide_eq_true hpos)
        have heq := hsingle other hother hotherOwn
        rw [← hoption, ← heq]
        rfl
      obtain ⟨own, hgroup, -, hpos⟩ := exists_mine hrow hballotOwn
      have hin : own ∈ order.filter fun r => decide (0 < r.mine) :=
        List.mem_filter.mpr ⟨perm.mem_iff.mpr hgroup, decide_eq_true hpos⟩
      cases hlast : (order.filter fun r => decide (0 < r.mine)).getLast? with
      | none =>
          rw [List.getLast?_eq_none_iff] at hlast
          rw [hlast] at hin
          cases hin
      | some r =>
          have hr := hoptions r (List.mem_of_getLast? hlast)
          simp only [Option.elim, List.getLast?_singleton, hr]
  | _ :: _ :: _ =>
      rw [hown] at once
      simp only [List.length_cons] at once
      omega

/-- A result in any order gives the tally of the ballots it counts. -/
theorem tally_of_order (once : ((rows.map JoinedRow.ballot).filter (isOwn callerId)).length ≤ 1)
    (perm : order.Perm (resultOf callerId rows)) (optionCount : Nat) :
    order.foldl (tallyResult optionCount) ⟨emptyCounts optionCount, 0, none⟩ =
      tallyOf (rows.map JoinedRow.ballot) optionCount callerId := by
  have hweights : ∀ option, weightOf (order.map fun r => (r.optionIndex, (r.ballots : Int))) option =
      (((rows.map JoinedRow.ballot).countP fun b => b.optionIndex = some option : Nat) : Int) := by
    intro option
    rw [weightOf_perm (perm.map _), weightOf_resultOf]
  have htotal : (order.map CountRow.ballots).sum = (rows.map JoinedRow.ballot).length := by
    rw [(perm.map _).sum_eq, total_resultOf, List.length_map]
  have hmine := mine_of_order once perm
  rw [foldl_tallyResult, foldl_ite, htotal, hmine]
  dsimp only
  rw [foldl_addBallots _ _ (emptyCounts optionCount) List.length_replicate]
  simp only [tallyOf, emptyCounts_getD, Int.zero_add, hweights]

/-! ## One poll -/

section Host
variable (host : BallotCountHost) (callerId : Option Nat)

/-- The tally of a poll's counted ballots. -/
def pollTally (pollId optionCount : Nat) : BallotTally :=
  tallyOf ((host.tables.ballotsOf pollId).filter (isFirst (host.tables.ballotsOf pollId)))
    optionCount callerId

theorem counted_once (pollId : Nat) :
    (((countedRows host.tables pollId).map JoinedRow.ballot).filter (isOwn callerId)).length ≤ 1 := by
  rw [countedRows_ballots]
  exact own_once (ballotsOf_ids host.tables pollId) callerId

theorem countPollBallots_eq (pollId optionCount : Nat) :
    countPollBallots host pollId callerId optionCount = pollTally host callerId pollId optionCount := by
  obtain ⟨order, hperm, hcarries⟩ := host.ballotCount_answers pollId callerId
  have hresult : order.Perm (resultOf callerId (countedRows host.tables pollId)) := hperm
  unfold countPollBallots tallyFromCounts pollTally
  rw [foldl_tallyCount hcarries, tally_of_order (counted_once host callerId pollId) hresult,
    countedRows_ballots]

/-! ## Several polls -/

variable {ids : List Nat}

theorem mem_distinctIds {id : Nat} : id ∈ distinctIds ids ↔ id ∈ ids := by
  unfold distinctIds
  induction ids using List.reverseRecOn with
  | nil => rfl
  | append_singleton ids last ih =>
      rw [List.foldl_append, List.foldl_cons, List.foldl_nil, List.mem_append, List.mem_singleton,
        ← ih]
      split
      · rename_i hlast
        constructor
        · exact .inl
        · rintro (h | rfl)
          · exact h
          · exact hlast
      · rw [List.mem_append, List.mem_singleton]

theorem get?_byPoll (rows : List BallotCountRow) (number : Option Int) :
    ((byPoll rows).get? number).getD [] = rows.filter fun row => row.poll_id.number = number := by
  unfold byPoll
  induction rows using List.reverseRecOn with
  | nil => rfl
  | append_singleton rows row ih =>
      rw [List.foldl_append, List.foldl_cons, List.foldl_nil, List.filter_append,
        OrderedMap.get?_set]
      by_cases h : number = row.poll_id.number
      · subst h
        simp [ih]
      · simp [h, Ne.symm h, ih]

def CountRow.alone (row : CountRow) : CountRow := { row with pollId := none }

variable {pollId : Nat}

/-- What the statement for several polls says of one of them is what the
statement for it alone says. -/
theorem statement_of_poll (tables : BallotTables) (hid : pollId ∈ ids) :
    (((tables.ballotCountsStatement ids callerId).filter fun r => r.pollId = some pollId).map
      CountRow.alone).Perm (resultOf callerId (countedRows tables pollId)) := by
  have hrows : ((select tables.joined fun row =>
      conj (inList row.poll ids) (notExists (tables.earlier row))).filter
        fun row => row.poll = some pollId) = countedRows tables pollId := by
    unfold select countedRows
    rw [List.filter_filter]
    apply List.filter_congr
    intro row _
    rw [Bool.eq_iff_iff, holds_conj, holds_conj, Bool.and_eq_true, Bool.and_eq_true,
      Bool.and_eq_true, holds_inList, holds_eq, decide_eq_true_eq]
    constructor
    · rintro ⟨hpoll, -, hnone⟩
      exact ⟨⟨pollId, hpoll, rfl⟩, hnone⟩
    · rintro ⟨⟨value, hpoll, hvalue⟩, hnone⟩
      cases hvalue
      exact ⟨hpoll, ⟨pollId, hid, hpoll⟩, hnone⟩
  have hgroups := groupBy_pair_perm JoinedRow.poll JoinedRow.optionIndex
    (select tables.joined fun row =>
      conj (inList row.poll ids) (notExists (tables.earlier row))) (some pollId)
  rw [hrows] at hgroups
  have hresults := hgroups.map fun group : Option Int × List JoinedRow =>
    (⟨none, group.1, group.2.length, sumWhere (BallotTables.isMine callerId) group.2⟩ : CountRow)
  unfold BallotTables.ballotCountsStatement
  rw [List.filter_map, List.map_map]
  rw [List.map_map] at hresults
  exact hresults

/-- Every row of the statement for several polls names one of them. -/
theorem pollId_of_statement (tables : BallotTables) {r : CountRow}
    (h : r ∈ tables.ballotCountsStatement ids callerId) : ∃ pollId, r.pollId = some pollId := by
  unfold BallotTables.ballotCountsStatement at h
  obtain ⟨⟨⟨poll, option⟩, group⟩, hgroup, rfl⟩ := List.mem_map.mp h
  obtain ⟨hkey, -⟩ := mem_groupBy.mp hgroup
  obtain ⟨row, hrow, heq⟩ := List.mem_map.mp hkey
  rw [mem_select, holds_conj, Bool.and_eq_true, holds_inList] at hrow
  obtain ⟨-, ⟨pollId, -, hpoll⟩, -⟩ := hrow
  cases heq
  exact ⟨pollId, hpoll⟩

theorem number_of_carries {row : BallotCountRow} {result : CountRow} (h : row.Carries result)
    {named : Nat} (hnamed : result.pollId = some named) (pollId : Nat) :
    row.poll_id.number = some (pollId : Int) ↔ result.pollId = some pollId := by
  have hshows := h.poll_id
  rw [hnamed] at hshows ⊢
  have hnumber : row.poll_id.number = some (named : Int) := by
    rcases hshows with hint | htext
    · rw [hint]
      rfl
    · rw [htext]
      exact readInt_toString _
  rw [hnumber, Option.some.injEq, Option.some.injEq]
  omega

/-- Rows and results that carry each other still do when one poll is picked. -/
theorem carries_of_poll {rows : List BallotCountRow} {results : List CountRow}
    (h : List.Forall₂ BallotCountRow.Carries rows results)
    (named : ∀ r ∈ results, ∃ poll, r.pollId = some poll) (pollId : Nat) :
    List.Forall₂ BallotCountRow.Carries
      (rows.filter fun row => row.poll_id.number = some (pollId : Int))
      (results.filter fun r => r.pollId = some pollId) := by
  induction h with
  | nil => exact .nil
  | @cons row result rows results hrow _ ih =>
      rw [List.forall_mem_cons] at named
      obtain ⟨⟨poll, hpoll⟩, hrest⟩ := named
      have hsame := number_of_carries hrow hpoll pollId
      rw [List.filter_cons, List.filter_cons]
      by_cases hpicked : result.pollId = some pollId
      · rw [if_pos (decide_eq_true (hsame.mpr hpicked)), if_pos (decide_eq_true hpicked)]
        exact .cons hrow (ih hrest)
      · rw [if_neg (by simpa using fun hn => hpicked (hsame.mp hn)), if_neg (by simpa using hpicked)]
        exact ih hrest

theorem foldl_alone (optionCount : Nat) (results : List CountRow) (tally : BallotTally) :
    results.foldl (tallyResult optionCount) tally =
      (results.map CountRow.alone).foldl (tallyResult optionCount) tally := by
  rw [List.foldl_map]
  rfl

theorem tally_byPoll (hid : pollId ∈ ids) (optionCount : Nat) :
    tallyFromCounts (((byPoll (host.ballotCounts ids callerId)).get? (some (pollId : Int))).getD [])
      optionCount = pollTally host callerId pollId optionCount := by
  obtain ⟨order, hperm, hcarries⟩ := host.ballotCounts_answers ids callerId
  have hnamed : ∀ r ∈ order, ∃ poll, r.pollId = some poll := fun r hr =>
    pollId_of_statement callerId host.tables (hperm.mem_iff.mp hr)
  have hpicked := ((hperm.filter fun r => decide (r.pollId = some pollId)).map CountRow.alone).trans
    (statement_of_poll callerId host.tables hid)
  rw [get?_byPoll]
  unfold tallyFromCounts pollTally
  rw [foldl_tallyCount (carries_of_poll hcarries hnamed pollId), foldl_alone,
    tally_of_order (counted_once host callerId pollId) hpicked, countedRows_ballots]

/-- The tallies of a list of polls; of an id that is named twice, the later one. -/
theorem get?_foldl_set (tallyOfPoll : BallotPoll → BallotTally) (polls : List BallotPoll)
    (id : Nat) :
    (polls.foldl (fun tallies poll => tallies.set poll.id (tallyOfPoll poll))
      (.empty : OrderedMap Nat BallotTally)).get? id =
        (polls.reverse.find? fun poll => poll.id = id).map tallyOfPoll := by
  induction polls using List.reverseRecOn with
  | nil => rfl
  | append_singleton polls poll ih =>
      rw [List.foldl_append, List.foldl_cons, List.foldl_nil, OrderedMap.get?_set,
        List.reverse_append, List.reverse_singleton, List.singleton_append, List.find?_cons]
      by_cases h : id = poll.id
      · simp [h]
      · simp [h, Ne.symm h, ih]

/-- **Tallies agree on every path.** The grouped statement gives the tally of the
poll's ballots, loaded in any order; the statement for several polls, up to the
most that it takes, gives for each of them what the statement for it alone
gives. -/
theorem poll_tallies_agree :
    (∀ pollId optionCount rows, rows.Perm (host.tables.ballotsOf pollId) →
      countPollBallots host pollId callerId optionCount =
        tallyBallots rows optionCount callerId) ∧
    ∀ polls : List BallotPoll,
      (MAX_BATCHED_POLLS < (distinctIds (polls.map BallotPoll.id)).length →
        countPollBallotsMany host polls callerId =
          .error (tooManyPolls (distinctIds (polls.map BallotPoll.id)).length)) ∧
      ((distinctIds (polls.map BallotPoll.id)).length ≤ MAX_BATCHED_POLLS →
        ∃ tallies, countPollBallotsMany host polls callerId = .ok tallies ∧
          ∀ id, tallies.get? id = (polls.reverse.find? fun poll => poll.id = id).map fun poll =>
            countPollBallots host poll.id callerId poll.optionCount) := by
  constructor
  · intro pollId optionCount rows hperm
    rw [countPollBallots_eq, tallyBallots_first hperm (ballotsOf_ids host.tables pollId)]
    rfl
  · intro polls
    by_cases hnil : polls = []
    · subst hnil
      constructor
      · intro hmore
        exact absurd hmore (by decide)
      · exact fun _ => ⟨.empty, rfl, fun _ => rfl⟩
    · constructor
      · intro hmore
        simp only [countPollBallotsMany, if_neg hnil, if_pos hmore]
      · intro hfits
        have htallies : countPollBallotsMany host polls callerId =
            .ok (polls.foldl (fun tallies poll => tallies.set poll.id (tallyFromCounts
              (((byPoll (host.ballotCounts (distinctIds (polls.map BallotPoll.id))
                callerId)).get? (some (poll.id : Int))).getD []) poll.optionCount)) .empty) := by
          unfold countPollBallotsMany
          rw [if_neg hnil]
          dsimp only
          rw [if_neg (Nat.not_lt.mpr hfits)]
        refine ⟨_, htallies, ?_⟩
        intro id
        rw [get?_foldl_set fun poll => tallyFromCounts (((byPoll (host.ballotCounts
          (distinctIds (polls.map BallotPoll.id)) callerId)).get? (some (poll.id : Int))).getD [])
            poll.optionCount]
        cases hfind : polls.reverse.find? fun poll => poll.id = id with
        | none => rfl
        | some poll =>
            have hmem : poll ∈ polls := List.mem_reverse.mp (List.mem_of_find?_eq_some hfind)
            have hid : poll.id ∈ distinctIds (polls.map BallotPoll.id) :=
              mem_distinctIds.mpr (List.mem_map_of_mem hmem)
            rw [Option.map_some, Option.map_some, tally_byPoll host callerId hid,
              countPollBallots_eq]

end Host

theorem links_once {links : List LinkRow} (distinct : (links.map LinkRow.vote).Nodup) (vote : Nat) :
    (links.filter fun l => l.vote = some vote).length ≤ 1 := by
  have hcount := List.nodup_iff_count_le_one.mp distinct (some vote)
  rw [List.count, List.countP_map, List.countP_eq_length_filter] at hcount
  have hsame : (links.filter fun l => l.vote = some vote) =
      links.filter ((fun v => v == some vote) ∘ LinkRow.vote) := by
    apply List.filter_congr
    intro l _
    rw [Bool.eq_iff_iff, decide_eq_true_eq, Function.comp_apply, beq_iff_eq]
  rw [hsame]
  exact hcount

/-- Two ballots of one voter, one without a voter, and one for an option that is
gone. -/
def fourVotes : BallotTables where
  votes := [⟨1, some 0⟩, ⟨2, some 1⟩, ⟨3, some 1⟩, ⟨4, some 9⟩]
  pollLinks := [⟨some 1, some 5⟩, ⟨some 2, some 5⟩, ⟨some 3, some 5⟩, ⟨some 4, some 5⟩]
  voterLinks := [⟨some 1, some 7⟩, ⟨some 2, some 7⟩, ⟨some 4, some 8⟩]
  ids := by decide
  polls_once := by
    intro vote poll
    have honce := @links_once [⟨some 1, some 5⟩, ⟨some 2, some 5⟩, ⟨some 3, some 5⟩,
      ⟨some 4, some 5⟩] (by decide) vote
    refine Nat.le_trans ?_ honce
    rw [← List.countP_eq_length_filter, ← List.countP_eq_length_filter]
    apply List.countP_mono_left
    intro l _ hl
    rw [decide_eq_true_eq] at hl ⊢
    exact hl.1
  voter_once := links_once (by decide)

theorem poll_tallies_agree_four_votes :
    countPollBallots fourVotes.host 5 (some 7) 2 = ⟨[1, 1], 3, some 0⟩ ∧
      countPollBallots fourVotes.host 5 (some 7) 2 =
        tallyBallots (fourVotes.ballotsOf 5).reverse 2 (some 7) :=
  ⟨by decide +kernel,
    (poll_tallies_agree fourVotes.host (some 7)).1 5 2 _ (List.reverse_perm _)⟩

end Sinnlos.Cms

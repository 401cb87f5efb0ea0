import Sinnlos.Cms.PollFreeze
import Sinnlos.Cms.PollStatements

/-! # What the voter retention does to the ballots

The plan of `poll-voter-retention.ts` row by row: of each voter the ballot that
counts loses its voter and the others go, so that the tallies, by the fold and
by the statement, are those of before.
-/

namespace Sinnlos.Cms

/-- What the plan reads of a row. -/
def BallotRow.planned (row : BallotRow) : Ballot := ⟨row.id, 0, row.voter⟩

/-- The rows after the plan's deletes and unlinks. -/
def forgetVoters (rows : List BallotRow) : List BallotRow :=
  let plan := ballotPlan (rows.map BallotRow.planned)
  (rows.filter fun row => row.id ∉ plan.1).map fun row =>
    if row.id ∈ plan.2 then { row with voter := none } else row

/-! ## The plan -/

section Plan
variable {seen : List Nat} {ballots : List Ballot}

/-- A ballot of a voter who was met before, or who has an earlier one. -/
def Repeats (seen : List Nat) (ballots : List Ballot) (ballot : Ballot) : Prop :=
  ∃ voter, ballot.voter = some voter ∧
    (voter ∈ seen ∨ ∃ other ∈ ballots, other.voter = some voter ∧ other.id < ballot.id)

variable {head : Ballot} {ballot : Ballot}

/-- One ballot of the plan, and the others with its voter met. -/
theorem repeats_cons {voter : Nat} (hhead : head.voter = some voter) (hlt : head.id < ballot.id) :
    Repeats seen (head :: ballots) ballot ↔ Repeats (voter :: seen) ballots ballot := by
  unfold Repeats
  constructor
  · rintro ⟨own, hown, hseen | ⟨other, hother, hvoter, hbefore⟩⟩
    · exact ⟨own, hown, .inl (List.mem_cons_of_mem _ hseen)⟩
    · rcases List.mem_cons.mp hother with rfl | hother
      · rw [hhead] at hvoter
        cases hvoter
        exact ⟨voter, hown, .inl List.mem_cons_self⟩
      · exact ⟨own, hown, .inr ⟨other, hother, hvoter, hbefore⟩⟩
  · rintro ⟨own, hown, hseen | ⟨other, hother, hvoter, hbefore⟩⟩
    · rcases List.mem_cons.mp hseen with rfl | hseen
      · exact ⟨own, hown, .inr ⟨head, List.mem_cons_self, hhead, hlt⟩⟩
      · exact ⟨own, hown, .inl hseen⟩
    · exact ⟨own, hown, .inr ⟨other, List.mem_cons_of_mem _ hother, hvoter, hbefore⟩⟩

/-- A ballot without a voter, or of a voter met before, changes nothing for the
ballots behind it. -/
theorem repeats_skip (hhead : ∀ voter, head.voter = some voter → voter ∈ seen) :
    Repeats seen (head :: ballots) ballot ↔ Repeats seen ballots ballot := by
  unfold Repeats
  constructor
  · rintro ⟨own, hown, hseen | ⟨other, hother, hvoter, hbefore⟩⟩
    · exact ⟨own, hown, .inl hseen⟩
    · rcases List.mem_cons.mp hother with rfl | hother
      · exact ⟨own, hown, .inl (hhead own hvoter)⟩
      · exact ⟨own, hown, .inr ⟨other, hother, hvoter, hbefore⟩⟩
  · rintro ⟨own, hown, hseen | ⟨other, hother, hvoter, hbefore⟩⟩
    · exact ⟨own, hown, .inl hseen⟩
    · exact ⟨own, hown, .inr ⟨other, List.mem_cons_of_mem _ hother, hvoter, hbefore⟩⟩

theorem not_repeats_head (hsorted : (head :: ballots).Pairwise fun a b => a.id < b.id)
    (hhead : ∀ voter, head.voter = some voter → voter ∉ seen) :
    ¬ Repeats seen (head :: ballots) head := by
  rintro ⟨voter, hvoter, hseen | ⟨other, hother, -, hbefore⟩⟩
  · exact hhead voter hvoter hseen
  · rcases List.mem_cons.mp hother with rfl | hother
    · omega
    · have hlt := (List.pairwise_cons.mp hsorted).1 other hother
      omega

/-- Of the ballots in id order, those that repeat a voter go and the first of
each voter loses the link. -/
theorem mem_planBallots (hsorted : ballots.Pairwise fun a b => a.id < b.id) :
    ∀ ballot ∈ ballots,
      (ballot.id ∈ (planBallots seen ballots).1 ↔ Repeats seen ballots ballot) ∧
      (ballot.id ∈ (planBallots seen ballots).2 ↔
        ballot.voter ≠ none ∧ ¬ Repeats seen ballots ballot) := by
  induction ballots generalizing seen with
  | nil => nofun
  | cons head ballots ih =>
      obtain ⟨hahead, hrest⟩ := List.pairwise_cons.mp hsorted
      have hfresh : head.id ∉ ballots.map Ballot.id := by
        intro hmem
        obtain ⟨other, hother, hid⟩ := List.mem_map.mp hmem
        have hlt := hahead other hother
        omega
      have hbehind (seen : List Nat) : head.id ∉ (planBallots seen ballots).1 ∧
          head.id ∉ (planBallots seen ballots).2 :=
        ⟨fun h => hfresh (planBallots_subset seen ballots (Or.inl h)),
          fun h => hfresh (planBallots_subset seen ballots (Or.inr h))⟩
      intro ballot hballot
      cases hvoter : head.voter with
      | none =>
          have hplan : planBallots seen (head :: ballots) = planBallots seen ballots := by
            simp [planBallots, hvoter]
          have hnone : ∀ voter, head.voter = some voter → voter ∈ seen := by
            simp [hvoter]
          rw [hplan]
          rcases List.mem_cons.mp hballot with rfl | hballot
          · have hrepeats : ¬ Repeats seen (ballot :: ballots) ballot := by
              rintro ⟨voter, hown, -⟩
              rw [hvoter] at hown
              cases hown
            simp [hbehind seen, hrepeats, hvoter]
          · rw [repeats_skip hnone]
            exact ih hrest ballot hballot
      | some voter =>
          by_cases hseen : voter ∈ seen
          · have hplan : planBallots seen (head :: ballots) =
                (head.id :: (planBallots seen ballots).1, (planBallots seen ballots).2) := by
              simp [planBallots, hvoter, hseen]
            have hmet : ∀ other, head.voter = some other → other ∈ seen := by
              intro other hother
              rw [hvoter] at hother
              cases hother
              exact hseen
            rw [hplan]
            rcases List.mem_cons.mp hballot with rfl | hballot
            · have hrepeats : Repeats seen (ballot :: ballots) ballot :=
                ⟨voter, hvoter, .inl hseen⟩
              simp [hbehind seen, hrepeats]
            · have hlt := hahead ballot hballot
              have hne : ballot.id ≠ head.id := by omega
              rw [repeats_skip hmet]
              simpa [hne] using ih hrest ballot hballot
          · have hplan : planBallots seen (head :: ballots) =
                ((planBallots (voter :: seen) ballots).1,
                  head.id :: (planBallots (voter :: seen) ballots).2) := by
              simp [planBallots, hvoter, hseen]
            rw [hplan]
            rcases List.mem_cons.mp hballot with rfl | hballot
            · have hrepeats : ¬ Repeats seen (ballot :: ballots) ballot := by
                apply not_repeats_head hsorted
                intro other hother
                rw [hvoter] at hother
                cases hother
                exact hseen
              simp [hbehind (voter :: seen), hrepeats, hvoter]
            · have hlt := hahead ballot hballot
              have hne : ballot.id ≠ head.id := by omega
              rw [repeats_cons hvoter hlt]
              simpa [hne] using ih hrest ballot hballot

/-- The plan for ballots of distinct ids, in any order. -/
theorem mem_ballotPlan (distinct : (ballots.map Ballot.id).Nodup) :
    ∀ ballot ∈ ballots,
      (ballot.id ∈ (ballotPlan ballots).1 ↔ Repeats [] ballots ballot) ∧
      (ballot.id ∈ (ballotPlan ballots).2 ↔
        ballot.voter ≠ none ∧ ¬ Repeats [] ballots ballot) := by
  have hperm := List.perm_insertionSort (fun a b : Ballot => a.id ≤ b.id) ballots
  have hsorted : (ballots.insertionSort fun a b => a.id ≤ b.id).Pairwise
      fun a b => a.id < b.id := by
    have htotal : Std.Total fun a b : Ballot => a.id ≤ b.id := ⟨fun a b => by omega⟩
    have htrans : IsTrans Ballot fun a b => a.id ≤ b.id := ⟨fun a b c => by omega⟩
    have hle := List.pairwise_insertionSort (fun a b : Ballot => a.id ≤ b.id) ballots
    have hne := List.pairwise_map.mp ((hperm.map Ballot.id).nodup_iff.mpr distinct)
    exact hle.imp₂ (fun a b h hne => by omega) hne
  have hrepeats (ballot : Ballot) :
      Repeats [] (ballots.insertionSort fun a b => a.id ≤ b.id) ballot ↔
        Repeats [] ballots ballot := by
    unfold Repeats
    simp only [hperm.mem_iff]
  intro ballot hballot
  unfold ballotPlan
  rw [← hrepeats]
  exact mem_planBallots hsorted ballot (hperm.mem_iff.mpr hballot)

end Plan

/-! ## The tallies -/

section Tallies
variable {rows : List BallotRow} {row : BallotRow}

theorem not_repeats_iff_isFirst :
    ¬ Repeats [] (rows.map BallotRow.planned) row.planned ↔ isFirst rows row = true := by
  rw [isFirst_iff]
  unfold Repeats
  simp only [List.not_mem_nil, false_or, List.mem_map, exists_exists_and_eq_and]
  constructor
  · intro hnot
    cases hvoter : row.voter with
    | none => exact .inl rfl
    | some voter =>
        refine .inr ?_
        intro other hother hsame
        by_contra hlt
        exact hnot ⟨voter, hvoter, other, hother, hsame, Nat.lt_of_not_le hlt⟩
  · rintro (hnone | hleast) ⟨voter, hvoter, other, hother, hsame, hlt⟩
    · change row.voter = some voter at hvoter
      rw [hnone] at hvoter
      cases hvoter
    · have hle := hleast other hother (hsame.trans hvoter.symm)
      change other.id < row.id at hlt
      omega

theorem planned_ids (ids : (rows.map BallotRow.id).Nodup) :
    ((rows.map BallotRow.planned).map Ballot.id).Nodup := by
  rw [List.map_map]
  exact ids

/-- The rows that stay are those that count, without their voters. -/
theorem forgetVoters_eq (ids : (rows.map BallotRow.id).Nodup) :
    forgetVoters rows =
      (rows.filter (isFirst rows)).map fun row => { row with voter := none } := by
  have hplan (row : BallotRow) (hrow : row ∈ rows) :=
    mem_ballotPlan (planned_ids ids) row.planned (List.mem_map_of_mem hrow)
  unfold forgetVoters
  dsimp only
  have hfilter : (rows.filter fun row => row.id ∉ (ballotPlan (rows.map BallotRow.planned)).1) =
      rows.filter (isFirst rows) := by
    apply List.filter_congr
    intro row hrow
    have hdeleted : row.id ∈ (ballotPlan (rows.map BallotRow.planned)).1 ↔
        Repeats [] (rows.map BallotRow.planned) row.planned := (hplan row hrow).1
    rw [Bool.eq_iff_iff, decide_eq_true_eq, hdeleted]
    exact not_repeats_iff_isFirst
  rw [hfilter]
  apply List.map_congr_left
  intro row hrow
  rw [List.mem_filter] at hrow
  have hunlinked : row.id ∈ (ballotPlan (rows.map BallotRow.planned)).2 ↔
      row.planned.voter ≠ none ∧ ¬ Repeats [] (rows.map BallotRow.planned) row.planned :=
    (hplan row hrow.1).2
  rw [not_repeats_iff_isFirst] at hunlinked
  split
  · rfl
  · next hkept =>
      have hnone : row.voter = none := by
        by_contra hlinked
        exact hkept (hunlinked.mpr ⟨hlinked, hrow.2⟩)
      obtain ⟨id, option, voter⟩ := row
      cases hnone
      rfl

theorem isFirst_of_voterless (h : row.voter = none) : isFirst rows row = true :=
  isFirst_iff.mpr (.inl h)

/-- Counts and total depend on the options alone. -/
theorem tallyOf_unlinked (ballots : List BallotRow) (optionCount : Nat) (callerId callerId' : Option Nat) :
    (tallyOf (ballots.map fun row => { row with voter := none }) optionCount callerId).counts =
        (tallyOf ballots optionCount callerId').counts ∧
      (tallyOf (ballots.map fun row => { row with voter := none }) optionCount callerId).total =
        (tallyOf ballots optionCount callerId').total := by
  unfold tallyOf
  refine ⟨?_, by simp⟩
  apply List.map_congr_left
  intro i _
  rw [List.countP_map]
  rfl

theorem forgetVoters_ids (ids : (rows.map BallotRow.id).Nodup) :
    ((forgetVoters rows).map BallotRow.id).Nodup := by
  rw [forgetVoters_eq ids, List.map_map]
  exact ids.sublist (List.filter_sublist.map _)

/-- The counted ballots of the rows that stay are all of them. -/
theorem forgetVoters_counted (ids : (rows.map BallotRow.id).Nodup) :
    (forgetVoters rows).filter (isFirst (forgetVoters rows)) = forgetVoters rows := by
  rw [List.filter_eq_self]
  intro row hrow
  apply isFirst_of_voterless
  rw [forgetVoters_eq ids] at hrow
  obtain ⟨before, -, rfl⟩ := List.mem_map.mp hrow
  rfl

/-- The tally of the rows, by the fold, before and after. -/
theorem tally_forgetVoters (ids : (rows.map BallotRow.id).Nodup) (optionCount : Nat)
    (callerId callerId' : Option Nat) :
    (tallyBallots (forgetVoters rows) optionCount callerId).counts =
        (tallyBallots rows optionCount callerId').counts ∧
      (tallyBallots (forgetVoters rows) optionCount callerId).total =
        (tallyBallots rows optionCount callerId').total := by
  rw [tallyBallots_first (.refl _) (forgetVoters_ids ids), tallyBallots_first (.refl _) ids,
    forgetVoters_counted ids, forgetVoters_eq ids]
  exact tallyOf_unlinked _ optionCount callerId callerId'

/-- The same by the statement, over any two databases that hold the ballots of
before and of after. -/
theorem count_forgetVoters (host host' : BallotCountHost) {pollId pollId' : Nat}
    (after : (host'.tables.ballotsOf pollId').Perm (forgetVoters (host.tables.ballotsOf pollId)))
    (optionCount : Nat) (callerId callerId' : Option Nat) :
    (countPollBallots host' pollId' callerId optionCount).counts =
        (countPollBallots host pollId callerId' optionCount).counts ∧
      (countPollBallots host' pollId' callerId optionCount).total =
        (countPollBallots host pollId callerId' optionCount).total := by
  have ids := ballotsOf_ids host.tables pollId
  have hids := forgetVoters_ids ids
  have hafter := tallyBallots_first after hids optionCount callerId
  have hstatement := tallyBallots_first (.refl (host'.tables.ballotsOf pollId'))
    (ballotsOf_ids host'.tables pollId') optionCount callerId
  rw [countPollBallots_eq, countPollBallots_eq]
  unfold pollTally
  rw [← hstatement, hafter, forgetVoters_counted ids, forgetVoters_eq ids]
  exact tallyOf_unlinked _ optionCount callerId callerId'

end Tallies

end Sinnlos.Cms

import Mathlib.Data.Option.Basic
import Sinnlos.Cms.PollBallots

/-! # The tally of counted ballots

The fold over loaded rows gives the tally of the ballots that count: all without
a voter, and the first of every voter. It does not depend on the order in which
the rows are read.
-/

namespace Sinnlos.Cms

open Sql Text

/-! ## The tally of counted ballots -/

/-- The ballots of an option, of weights that each belong to one. -/
def weightOf (weights : List (Option Int × Int)) (option : Int) : Int :=
  (weights.map fun w => if w.1 = some option then w.2 else 0).sum

theorem addBallots_length (optionCount : Nat) (counts : List Int) (option : Option Int)
    (ballots : Int) : (addBallots optionCount counts option ballots).length = counts.length := by
  unfold addBallots
  cases option with
  | none => rfl
  | some n =>
      dsimp only
      split
      · exact List.length_modify _ _ _
      · rfl

theorem getElem_addBallots {optionCount : Nat} {counts : List Int} (option : Option Int)
    (ballots : Int) (length : counts.length = optionCount) {i : Nat} (hi : i < optionCount) :
    (addBallots optionCount counts option ballots)[i]? =
      counts[i]?.map fun n => n + if option = some (i : Int) then ballots else 0 := by
  have hsome : counts[i]? = some counts[i] := List.getElem?_eq_getElem (by omega)
  unfold addBallots
  cases option with
  | none => simp [hsome]
  | some n =>
      dsimp only
      split
      · rename_i hn
        rw [List.getElem?_modify, hsome]
        by_cases hni : n = (i : Int)
        · have hnat : n.toNat = i := by omega
          simp [hni]
        · have hnat : n.toNat ≠ i := by omega
          simp [hnat, hni]
      · rename_i hn
        have hni : n ≠ (i : Int) := by omega
        simp [hsome, hni]

theorem foldl_addBallots (optionCount : Nat) (weights : List (Option Int × Int)) :
    ∀ counts : List Int, counts.length = optionCount →
      weights.foldl (fun counts w => addBallots optionCount counts w.1 w.2) counts =
        (List.range optionCount).map fun i => counts.getD i 0 + weightOf weights i := by
  induction weights with
  | nil =>
      intro counts hlength
      apply List.ext_getElem
      · rw [List.length_map, List.length_range, List.foldl_nil, hlength]
      · intro i hi _
        rw [List.foldl_nil] at hi
        have hget : counts.getD i 0 = counts[i] := by
          rw [List.getD_eq_getElem?_getD, List.getElem?_eq_getElem hi, Option.getD_some]
        rw [List.getElem_map, List.getElem_range, hget]
        simp [weightOf]
  | cons w weights ih =>
      intro counts hlength
      rw [List.foldl_cons, ih _ ((addBallots_length _ _ _ _).trans hlength)]
      apply List.map_congr_left
      intro i hi
      rw [List.mem_range] at hi
      have hstep := getElem_addBallots w.1 w.2 hlength hi
      rw [List.getD_eq_getElem?_getD, List.getD_eq_getElem?_getD, hstep]
      have hsome : counts[i]? = some counts[i] := List.getElem?_eq_getElem (by omega)
      simp only [hsome, Option.map_some, Option.getD_some, weightOf, List.map_cons, List.sum_cons]
      omega

/-- The last row that decides, of a fold in which rows may decide anew. -/
theorem foldl_ite {α β : Type} (rows : List α) (p : α → Bool) (f : α → β) (init : β) :
    rows.foldl (fun m row => if p row = true then f row else m) init =
      ((rows.filter p).getLast?).elim init f := by
  induction rows using List.reverseRecOn with
  | nil => rfl
  | append_singleton rows row ih =>
      rw [List.foldl_append, List.foldl_cons, List.foldl_nil, ih, List.filter_append]
      by_cases h : p row = true
      · simp [h]
      · simp [h]

def optionOf (option : Option Int) : Option Int := option.filter fun n => isOptionIndex (some n)

/-- The caller's ballots; none without a caller. -/
def isOwn (callerId : Option Nat) (ballot : BallotRow) : Bool :=
  decide (callerId ≠ none ∧ ballot.voter = callerId)

/-- The tally of ballots that all count. -/
def tallyOf (ballots : List BallotRow) (optionCount : Nat) (callerId : Option Nat) : BallotTally where
  counts := (List.range optionCount).map fun i : Nat =>
    ((ballots.countP fun b => b.optionIndex = some (i : Int) : Nat) : Int)
  total := ballots.length
  myVoteIndex := ((ballots.filter (isOwn callerId)).getLast?).elim none fun b => optionOf b.optionIndex

theorem emptyCounts_getD (optionCount i : Nat) : (emptyCounts optionCount).getD i 0 = 0 := by
  rw [List.getD_eq_getElem?_getD, emptyCounts, List.getElem?_replicate]
  split <;> rfl

theorem weightOf_ones (ballots : List BallotRow) (option : Int) :
    weightOf (ballots.map fun b => (b.optionIndex, 1)) option =
      ((ballots.countP fun b => b.optionIndex = some option : Nat) : Int) := by
  unfold weightOf
  rw [List.map_map]
  induction ballots with
  | nil => rfl
  | cons b ballots ih =>
      rw [List.map_cons, List.sum_cons, ih, List.countP_cons]
      by_cases h : b.optionIndex = some option
      · simp [h]
        omega
      · simp [h]

theorem foldl_tallyBallot (optionCount : Nat) (callerId : Option Nat) (ballots : List BallotRow) :
    ∀ tally : BallotTally, ballots.foldl (tallyBallot optionCount callerId) tally =
      ⟨(ballots.map fun b => (b.optionIndex, (1 : Int))).foldl
          (fun counts w => addBallots optionCount counts w.1 w.2) tally.counts,
        tally.total,
        ballots.foldl (fun m b => if isOwn callerId b = true then optionOf b.optionIndex else m)
          tally.myVoteIndex⟩ := by
  induction ballots with
  | nil => exact fun _ => rfl
  | cons b ballots ih =>
      intro tally
      rw [List.foldl_cons, ih]
      simp only [tallyBallot, List.map_cons, List.foldl_cons, isOwn, decide_eq_true_eq, optionOf]

theorem tallyBallots_eq (rows : List BallotRow) (optionCount : Nat) (callerId : Option Nat) :
    tallyBallots rows optionCount callerId =
      tallyOf (countedBallots rows) optionCount callerId := by
  simp only [tallyBallots, foldl_tallyBallot, foldl_ite, tallyOf]
  rw [foldl_addBallots _ _ (emptyCounts optionCount) List.length_replicate]
  simp only [emptyCounts_getD, Int.zero_add, weightOf_ones]

/-- Lists with at most one entry that are permutations are equal. -/
theorem eq_of_perm_of_length_le_one {α : Type} {a b : List α} (perm : a.Perm b)
    (h : b.length ≤ 1) : a = b := by
  cases b with
  | nil => exact perm.eq_nil
  | cons x rest =>
      have hrest : rest = [] := List.eq_nil_of_length_eq_zero (by rw [List.length_cons] at h; omega)
      subst hrest
      exact List.perm_singleton.mp perm

/-- The order of ballots does not matter where the caller has one at most. -/
theorem tallyOf_perm {ballots ballots' : List BallotRow} (perm : ballots.Perm ballots')
    (optionCount : Nat) {callerId : Option Nat}
    (once : (ballots'.filter (isOwn callerId)).length ≤ 1) :
    tallyOf ballots optionCount callerId = tallyOf ballots' optionCount callerId := by
  have hown := eq_of_perm_of_length_le_one (perm.filter (isOwn callerId)) once
  unfold tallyOf
  rw [hown, perm.length_eq]
  simp only [perm.countP_eq]

/-! ## The ballots that count -/

/-- No vote of the same voter is earlier. -/
def isFirst (rows : List BallotRow) (ballot : BallotRow) : Bool :=
  ballot.voter = none || rows.all fun other => other.voter ≠ ballot.voter || ballot.id ≤ other.id

variable {rows counted : List BallotRow} {voter : Nat} {firstByVoter : OrderedMap Nat BallotRow}

theorem isFirst_iff {ballot : BallotRow} :
    isFirst rows ballot = true ↔
      ballot.voter = none ∨ ∀ other ∈ rows, other.voter = ballot.voter → ballot.id ≤ other.id := by
  simp only [isFirst, Bool.or_eq_true, decide_eq_true_eq, List.all_eq_true, ne_eq]
  constructor
  · rintro (hnone | hall)
    · exact .inl hnone
    · refine .inr fun other hmem hvoter => ?_
      rcases hall other hmem with hne | hle
      · exact absurd hvoter hne
      · exact hle
  · rintro (hnone | hall)
    · exact .inl hnone
    · refine .inr fun other hmem => ?_
      by_cases hvoter : other.voter = ballot.voter
      · exact .inr (hall other hmem hvoter)
      · exact .inl hvoter

theorem isFirst_perm {rows' : List BallotRow} (perm : rows.Perm rows') (ballot : BallotRow) :
    isFirst rows ballot = isFirst rows' ballot := by
  rw [Bool.eq_iff_iff, isFirst_iff, isFirst_iff]
  simp only [perm.mem_iff]

/-- Two first votes of one voter are one vote. -/
theorem first_unique (ids : (rows.map BallotRow.id).Nodup) {a b : BallotRow} (ha : a ∈ rows)
    (hb : b ∈ rows) (fa : isFirst rows a = true) (fb : isFirst rows b = true)
    (va : a.voter = some voter) (vb : b.voter = some voter) : a = b := by
  rw [isFirst_iff, va] at fa
  rw [isFirst_iff, vb] at fb
  have hab := fa.resolve_left (by simp) b hb vb
  have hba := fb.resolve_left (by simp) a ha va
  exact List.inj_on_of_nodup_map ids ha hb (by omega)

theorem own_once (ids : (rows.map BallotRow.id).Nodup) (callerId : Option Nat) :
    ((rows.filter (isFirst rows)).filter (isOwn callerId)).length ≤ 1 := by
  have hnodup : ((rows.filter (isFirst rows)).filter (isOwn callerId)).Nodup :=
    (ids.of_map _).filter _ |>.filter _
  cases hcaller : callerId with
  | none =>
      have hnil : (rows.filter (isFirst rows)).filter (isOwn none) = [] := by
        simp [isOwn]
      rw [hnil]
      exact Nat.zero_le 1
  | some caller =>
      subst hcaller
      by_contra hmore
      match hlist : (rows.filter (isFirst rows)).filter (isOwn (some caller)) with
      | [] => simp [hlist] at hmore
      | [_] => simp [hlist] at hmore
      | a :: b :: rest =>
          have hmem : ∀ ballot ∈ a :: b :: rest, ballot ∈ rows ∧ isFirst rows ballot = true ∧
              ballot.voter = some caller := by
            intro ballot hballot
            rw [← hlist, List.mem_filter, List.mem_filter] at hballot
            have hown := of_decide_eq_true hballot.2
            exact ⟨hballot.1.1, hballot.1.2, hown.2⟩
          obtain ⟨ha, fa, va⟩ := hmem a List.mem_cons_self
          obtain ⟨hb, fb, vb⟩ := hmem b (List.mem_cons_of_mem _ List.mem_cons_self)
          have heq := first_unique ids ha hb fa fb va vb
          rw [hlist, List.nodup_cons, heq] at hnodup
          exact hnodup.1 List.mem_cons_self

/-- What the fold over loaded rows has collected. -/
structure Collected (rows counted : List BallotRow) (firstByVoter : OrderedMap Nat BallotRow) :
    Prop where
  voterless : counted = rows.filter fun b => b.voter = none
  sound : ∀ voter ballot, firstByVoter.get? voter = some ballot →
    ballot ∈ rows ∧ ballot.voter = some voter
  least : ∀ voter ballot, firstByVoter.get? voter = some ballot →
    ∀ other ∈ rows, other.voter = some voter → ballot.id ≤ other.id
  complete : ∀ other ∈ rows, ∀ voter, other.voter = some voter →
    ∃ ballot, firstByVoter.get? voter = some ballot

/-- A row that becomes its voter's first one. -/
theorem Collected.set (h : Collected rows counted firstByVoter) {row : BallotRow}
    (hvoter : row.voter = some voter)
    (least : ∀ other ∈ rows, other.voter = some voter → row.id ≤ other.id) :
    Collected (rows ++ [row]) counted (firstByVoter.set voter row) where
  voterless := by
    rw [List.filter_append, h.voterless]
    simp [hvoter]
  sound := by
    intro u ballot hget
    rw [OrderedMap.get?_set] at hget
    split at hget
    · rename_i hu
      cases hget
      exact ⟨List.mem_append_right _ List.mem_cons_self, hu ▸ hvoter⟩
    · have hold := h.sound u ballot hget
      exact ⟨List.mem_append_left _ hold.1, hold.2⟩
  least := by
    intro u ballot hget other hmem hother
    rw [OrderedMap.get?_set] at hget
    split at hget
    · rename_i hu
      cases hget
      rcases List.mem_append.mp hmem with hmem | hmem
      · exact least other hmem (hu ▸ hother)
      · rw [List.mem_singleton.mp hmem]
    · rename_i hu
      rcases List.mem_append.mp hmem with hmem | hmem
      · exact h.least u ballot hget other hmem hother
      · rw [List.mem_singleton.mp hmem, hvoter] at hother
        exact absurd (Option.some.inj hother).symm hu
  complete := by
    intro other hmem u hother
    rw [OrderedMap.get?_set]
    split
    · exact ⟨row, rfl⟩
    · rename_i hu
      rcases List.mem_append.mp hmem with hmem | hmem
      · exact h.complete other hmem u hother
      · rw [List.mem_singleton.mp hmem, hvoter] at hother
        exact absurd (Option.some.inj hother).symm hu

/-- A row of a voter with an earlier one. -/
theorem Collected.keep (h : Collected rows counted firstByVoter) {row first : BallotRow}
    (hvoter : row.voter = some voter) (hfirst : firstByVoter.get? voter = some first)
    (later : ¬ row.id < first.id) : Collected (rows ++ [row]) counted firstByVoter where
  voterless := by
    rw [List.filter_append, h.voterless]
    simp [hvoter]
  sound := by
    intro u ballot hget
    have hold := h.sound u ballot hget
    exact ⟨List.mem_append_left _ hold.1, hold.2⟩
  least := by
    intro u ballot hget other hmem hother
    rcases List.mem_append.mp hmem with hmem | hmem
    · exact h.least u ballot hget other hmem hother
    · rw [List.mem_singleton.mp hmem] at hother ⊢
      rw [hvoter] at hother
      rw [Option.some.inj hother] at hfirst
      rw [hfirst] at hget
      cases hget
      omega
  complete := by
    intro other hmem u hother
    rcases List.mem_append.mp hmem with hmem | hmem
    · exact h.complete other hmem u hother
    · rw [List.mem_singleton.mp hmem, hvoter] at hother
      rw [← Option.some.inj hother]
      exact ⟨first, hfirst⟩

theorem collected (rows : List BallotRow) :
    Collected rows (rows.foldl countStep ([], .empty)).1 (rows.foldl countStep ([], .empty)).2 := by
  induction rows using List.reverseRecOn with
  | nil => exact ⟨rfl, nofun, nofun, nofun⟩
  | append_singleton rows row ih =>
      rw [List.foldl_append, List.foldl_cons, List.foldl_nil]
      generalize rows.foldl countStep ([], .empty) = state at ih ⊢
      unfold countStep
      cases hvoter : row.voter with
      | none =>
          refine ⟨?_, ?_, ?_, ?_⟩
          · dsimp only
            rw [List.filter_append, ih.voterless]
            simp [hvoter]
          · intro u ballot hget
            have hold := ih.sound u ballot hget
            exact ⟨List.mem_append_left _ hold.1, hold.2⟩
          · intro u ballot hget other hmem hother
            rcases List.mem_append.mp hmem with hmem | hmem
            · exact ih.least u ballot hget other hmem hother
            · rw [List.mem_singleton.mp hmem, hvoter] at hother
              cases hother
          · intro other hmem u hother
            rcases List.mem_append.mp hmem with hmem | hmem
            · exact ih.complete other hmem u hother
            · rw [List.mem_singleton.mp hmem, hvoter] at hother
              cases hother
      | some voter =>
          dsimp only
          unfold countFirst
          cases hfirst : state.2.get? voter with
          | none =>
              apply ih.set hvoter
              intro other hmem hother
              obtain ⟨ballot, hballot⟩ := ih.complete other hmem voter hother
              rw [hfirst] at hballot
              cases hballot
          | some first =>
              dsimp only
              split
              · rename_i hlt
                apply ih.set hvoter
                intro other hmem hother
                have hle := ih.least voter first hfirst other hmem hother
                omega
              · rename_i hlt
                exact ih.keep hvoter hfirst hlt

theorem Collected.values_nodup (h : Collected rows counted firstByVoter) :
    firstByVoter.values.Nodup := by
  have hvoters : firstByVoter.values.map BallotRow.voter = firstByVoter.keys.map some := by
    unfold OrderedMap.values OrderedMap.keys
    rw [List.map_map, List.map_map]
    apply List.map_congr_left
    rintro ⟨voter, ballot⟩ hentry
    exact (h.sound voter ballot (OrderedMap.get?_eq_some.mpr hentry)).2
  apply List.Nodup.of_map BallotRow.voter
  rw [hvoters]
  exact firstByVoter.keys_nodup.map (Option.some_injective Nat)

/-- The rows that count are the ones without a voter and the first of each. -/
theorem countedBallots_perm (ids : (rows.map BallotRow.id).Nodup) :
    (countedBallots rows).Perm (rows.filter (isFirst rows)) := by
  have hcollected := collected rows
  unfold countedBallots
  refine (List.mergeSort_perm _ _).trans ?_
  generalize rows.foldl countStep ([], .empty) = state at hcollected
  obtain ⟨counted, firstByVoter⟩ := state
  dsimp only at hcollected ⊢
  have hvalues : ∀ ballot, ballot ∈ firstByVoter.values ↔
      ∃ voter, firstByVoter.get? voter = some ballot := fun _ => OrderedMap.mem_values
  rw [List.perm_ext_iff_of_nodup]
  · intro ballot
    rw [List.mem_append, hvalues, hcollected.voterless, List.mem_filter, List.mem_filter,
      isFirst_iff]
    constructor
    · rintro (⟨hmem, hnone⟩ | ⟨voter, hget⟩)
      · exact ⟨hmem, .inl (of_decide_eq_true hnone)⟩
      · obtain ⟨hmem, hvoter⟩ := hcollected.sound voter ballot hget
        refine ⟨hmem, .inr ?_⟩
        intro other hother hsame
        exact hcollected.least voter ballot hget other hother (hsame.trans hvoter)
    · rintro ⟨hmem, hfirst⟩
      cases hvoter : ballot.voter with
      | none => exact .inl ⟨hmem, decide_eq_true rfl⟩
      | some voter =>
          obtain ⟨first, hget⟩ := hcollected.complete ballot hmem voter hvoter
          obtain ⟨hin, hvoted⟩ := hcollected.sound voter first hget
          have hle := hcollected.least voter first hget ballot hmem hvoter
          have hge := hfirst.resolve_left (by simp [hvoter]) first hin (hvoted.trans hvoter.symm)
          have heq : first = ballot := List.inj_on_of_nodup_map ids hin hmem (by omega)
          exact .inr ⟨voter, heq ▸ hget⟩
  · apply List.Nodup.append
    · rw [hcollected.voterless]
      exact (ids.of_map _).filter _
    · exact hcollected.values_nodup
    · intro ballot hvoterless hvalue
      rw [hcollected.voterless, List.mem_filter, decide_eq_true_eq] at hvoterless
      obtain ⟨voter, hget⟩ := (hvalues ballot).mp hvalue
      rw [(hcollected.sound voter ballot hget).2] at hvoterless
      cases hvoterless.2
  · exact (ids.of_map _).filter _

/-- The reference tally, of rows in any order. -/
theorem tallyBallots_first {ballots : List BallotRow} (perm : rows.Perm ballots)
    (ids : (ballots.map BallotRow.id).Nodup) (optionCount : Nat) (callerId : Option Nat) :
    tallyBallots rows optionCount callerId =
      tallyOf (ballots.filter (isFirst ballots)) optionCount callerId := by
  have hids : (rows.map BallotRow.id).Nodup := (perm.map _).nodup_iff.mpr ids
  have hfirst : isFirst rows = isFirst ballots := funext (isFirst_perm perm)
  have hcounted : (countedBallots rows).Perm (ballots.filter (isFirst ballots)) := by
    refine (countedBallots_perm hids).trans ?_
    rw [hfirst]
    exact perm.filter _
  rw [tallyBallots_eq]
  exact tallyOf_perm hcounted optionCount (own_once ids callerId)

end Sinnlos.Cms

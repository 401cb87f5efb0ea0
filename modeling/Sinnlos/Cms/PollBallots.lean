import Sinnlos.Lib.OrderedMap
import Sinnlos.Lib.Sql
import Sinnlos.Lib.Text

/-! # Poll tallies

`apps/cms/src/utils/poll-ballots.ts`: which stored votes count, as a fold over
loaded rows and as a statement that the database evaluates, for one poll and for
several. Rows are as the query engine stores them: votes, and a link table each
for a vote's poll and its voter. The names of the tables are taken as known.
-/

namespace Sinnlos.Cms

open Sql Text

/-! ## The reference -/

/-- A vote as it is loaded: its option and its voter, where there is one. -/
structure BallotRow where
  id : Nat
  optionIndex : Option Int
  voter : Option Nat
deriving DecidableEq

structure BallotTally where
  /-- Ballots per option, by option index. -/
  counts : List Int
  /-- Every counted ballot, including one whose option no longer exists. -/
  total : Int
  /-- The option of the caller's counted ballot. -/
  myVoteIndex : Option Int
deriving DecidableEq

def isOptionIndex (value : Option Int) : Bool := value.any fun n => 0 ≤ n

/-- One row of `countedBallots`: the voter's row with the lowest id. -/
def countFirst (firstByVoter : OrderedMap Nat BallotRow) (voter : Nat) (row : BallotRow) :
    OrderedMap Nat BallotRow :=
  match firstByVoter.get? voter with
  | none => firstByVoter.set voter row
  | some first => if row.id < first.id then firstByVoter.set voter row else firstByVoter

def countStep (state : List BallotRow × OrderedMap Nat BallotRow) (row : BallotRow) :
    List BallotRow × OrderedMap Nat BallotRow :=
  match row.voter with
  | none => (state.1 ++ [row], state.2)
  | some voter => (state.1, countFirst state.2 voter row)

/-- The rows that count, one per voter, by id; rows without a voter each count. -/
def countedBallots (rows : List BallotRow) : List BallotRow :=
  let counted := rows.foldl countStep ([], .empty)
  (counted.1 ++ counted.2.values).mergeSort fun a b => a.id ≤ b.id

/-- `counts[option] += ballots`, where there is such an option. -/
def addBallots (optionCount : Nat) (counts : List Int) (option : Option Int) (ballots : Int) :
    List Int :=
  match option with
  | none => counts
  | some n => if 0 ≤ n ∧ n < optionCount then counts.modify n.toNat (· + ballots) else counts

def emptyCounts (optionCount : Nat) : List Int := List.replicate optionCount 0

def tallyBallot (optionCount : Nat) (callerId : Option Nat) (tally : BallotTally)
    (ballot : BallotRow) : BallotTally :=
  { tally with
    counts := addBallots optionCount tally.counts ballot.optionIndex 1
    myVoteIndex :=
      if callerId ≠ none ∧ ballot.voter = callerId then
        ballot.optionIndex.filter fun n => isOptionIndex (some n)
      else tally.myVoteIndex }

def tallyBallots (rows : List BallotRow) (optionCount : Nat) (callerId : Option Nat) :
    BallotTally :=
  let ballots := countedBallots rows
  { ballots.foldl (tallyBallot optionCount callerId) ⟨emptyCounts optionCount, 0, none⟩ with
    total := ballots.length }

/-! ## The tables -/

structure VoteRow where
  id : Nat
  optionIndex : Option Int
deriving DecidableEq

/-- A row of a link table; either column may be NULL. -/
structure LinkRow where
  vote : Option Nat
  target : Option Nat
deriving DecidableEq

/-- The three tables. Ids are a primary key, a vote is linked to a poll row at
most once, and it has one voter at most. -/
structure BallotTables where
  votes : List VoteRow
  pollLinks : List LinkRow
  voterLinks : List LinkRow
  ids : (votes.map VoteRow.id).Nodup
  polls_once : ∀ vote poll, (pollLinks.filter fun l =>
    l.vote = some vote ∧ l.target = some poll).length ≤ 1
  voter_once : ∀ vote, (voterLinks.filter fun l => l.vote = some vote).length ≤ 1

namespace BallotTables
variable (tables : BallotTables)

/-- The voter of a vote, none where the link is gone. -/
def voterOf (vote : Nat) : Option Nat :=
  (tables.voterLinks.find? fun l => l.vote = some vote).bind LinkRow.target

/-- The votes of a poll row as a query loads them, with their voters. -/
def ballotsOf (poll : Nat) : List BallotRow :=
  (tables.votes.filter fun v => tables.pollLinks.any fun l =>
    l.vote = some v.id ∧ l.target = some poll).map fun v =>
      ⟨v.id, v.optionIndex, tables.voterOf v.id⟩

end BallotTables

/-! ## The statements -/

/-- A row of `FROM votes v JOIN pollLinks pl LEFT JOIN voterLinks vl`. -/
abbrev JoinedRow := (VoteRow × LinkRow) × Option LinkRow

def JoinedRow.optionIndex (row : JoinedRow) : Option Int := row.1.1.optionIndex
def JoinedRow.poll (row : JoinedRow) : Option Nat := row.1.2.target
def JoinedRow.voter (row : JoinedRow) : Option Nat := row.2.bind LinkRow.target

/-- One row of the result: poll, option, `count(v.id)` and `mine`. -/
structure CountRow where
  pollId : Option Nat
  optionIndex : Option Int
  ballots : Nat
  mine : Nat
deriving DecidableEq

namespace BallotTables
variable (tables : BallotTables)

def joined : List JoinedRow :=
  leftJoin
    (join tables.votes tables.pollLinks fun v pl => eq pl.vote (some v.id))
    tables.voterLinks fun row vl => eq vl.vote (some row.1.id)

/-- The subquery of `NOT EXISTS`: an earlier vote of the same voter for the same
poll. -/
def earlier (row : JoinedRow) : List ((LinkRow × VoteRow) × LinkRow) :=
  select
    (join (join tables.pollLinks tables.votes fun pl2 v2 => eq (some v2.id) pl2.vote)
      tables.voterLinks fun row2 vl2 => eq vl2.vote row2.1.vote)
    fun row2 => conj (eq row2.1.1.target row.poll)
      (conj (eq row2.2.target row.voter) (less row2.1.1.vote (some row.1.1.id)))

/-- `vl.user = ?`; without a caller no voter has the value. -/
def isMine (callerId : Option Nat) (row : JoinedRow) : Truth :=
  eq (row.voter.map fun voter : Nat => (voter : Int))
    (some (callerId.elim (-1) fun caller : Nat => (caller : Int)))

def ballotCountStatement (pollId : Nat) (callerId : Option Nat) : List CountRow :=
  let rows := select tables.joined fun row =>
    conj (eq row.poll (some pollId)) (notExists (tables.earlier row))
  (groupBy JoinedRow.optionIndex rows).map fun group =>
    ⟨none, group.1, group.2.length, sumWhere (isMine callerId) group.2⟩

def ballotCountsStatement (pollIds : List Nat) (callerId : Option Nat) : List CountRow :=
  let rows := select tables.joined fun row =>
    conj (inList row.poll pollIds) (notExists (tables.earlier row))
  (groupBy (fun row : JoinedRow => (row.poll, row.optionIndex)) rows).map fun group =>
    ⟨group.1.1, group.1.2, group.2.length, sumWhere (isMine callerId) group.2⟩

end BallotTables

/-! ## The results -/

/-- A value as a driver hands it over; a number may come as text. -/
inductive Cell
  | null
  | int (value : Int)
  | text (value : String)
deriving DecidableEq

structure BallotCountRow where
  poll_id : Cell
  option_index : Cell
  ballots : Cell
  mine : Cell
deriving DecidableEq

/-- A database count as a number. -/
def Cell.count : Cell → Int
  | .null => 0
  | .int value => value
  | .text value => (readInt value).getD 0

/-- An option index as a number, where it is one. -/
def Cell.option : Cell → Option Int
  | .null => none
  | .int value => some value
  | .text value => readInt value

/-- `Number(value)`; none is NaN. -/
def Cell.number : Cell → Option Int
  | .null => some 0
  | .int value => some value
  | .text value => readInt value

def tallyCount (optionCount : Nat) (tally : BallotTally) (row : BallotCountRow) : BallotTally :=
  { counts := addBallots optionCount tally.counts row.option_index.option row.ballots.count
    total := tally.total + row.ballots.count
    myVoteIndex :=
      if 0 < row.mine.count then
        row.option_index.option.filter fun n => isOptionIndex (some n)
      else tally.myVoteIndex }

def tallyFromCounts (rows : List BallotCountRow) (optionCount : Nat) : BallotTally :=
  rows.foldl (tallyCount optionCount) ⟨emptyCounts optionCount, 0, none⟩

/-! ## The database -/

def Cell.Shows (cell : Cell) (value : Int) : Prop :=
  cell = .int value ∨ cell = .text (toString value)

def Cell.ShowsColumn (cell : Cell) : Option Int → Prop
  | none => cell = .null
  | some value => cell.Shows value

/-- A result row carries the values of a statement's row. -/
structure BallotCountRow.Carries (row : BallotCountRow) (result : CountRow) : Prop where
  poll_id : row.poll_id.ShowsColumn (result.pollId.map fun poll : Nat => (poll : Int))
  option_index : row.option_index.ShowsColumn result.optionIndex
  ballots : row.ballots.Shows result.ballots
  mine : row.mine.Shows result.mine

/-- The rows of a result, in any order. -/
def Answers (rows : List BallotCountRow) (results : List CountRow) : Prop :=
  ∃ order : List CountRow, order.Perm results ∧ List.Forall₂ BallotCountRow.Carries rows order

/-- A connection to a database that holds the tables. -/
structure BallotCountHost where
  tables : BallotTables
  ballotCount : Nat → Option Nat → List BallotCountRow
  ballotCounts : List Nat → Option Nat → List BallotCountRow
  ballotCount_answers : ∀ pollId callerId,
    Answers (ballotCount pollId callerId) (tables.ballotCountStatement pollId callerId)
  ballotCounts_answers : ∀ pollIds callerId,
    Answers (ballotCounts pollIds callerId) (tables.ballotCountsStatement pollIds callerId)

/-- A result row whose numbers come as numbers. -/
def CountRow.cells (result : CountRow) : BallotCountRow where
  poll_id := result.pollId.elim .null fun poll => .int poll
  option_index := result.optionIndex.elim .null .int
  ballots := .int result.ballots
  mine := .int result.mine

theorem CountRow.cells_carries (result : CountRow) : result.cells.Carries result where
  poll_id := by
    unfold CountRow.cells
    cases result.pollId with
    | none => rfl
    | some poll => exact .inl rfl
  option_index := by
    unfold CountRow.cells
    cases result.optionIndex with
    | none => rfl
    | some option => exact .inl rfl
  ballots := .inl rfl
  mine := .inl rfl

theorem answers_cells (results : List CountRow) : Answers (results.map CountRow.cells) results := by
  refine ⟨results, .refl results, ?_⟩
  rw [List.forall₂_map_left_iff]
  exact List.forall₂_same.mpr fun result _ => result.cells_carries

/-- A database that answers with numbers, in the order of the statement. -/
def BallotTables.host (tables : BallotTables) : BallotCountHost where
  tables := tables
  ballotCount := fun pollId callerId =>
    (tables.ballotCountStatement pollId callerId).map CountRow.cells
  ballotCounts := fun pollIds callerId =>
    (tables.ballotCountsStatement pollIds callerId).map CountRow.cells
  ballotCount_answers := fun _ _ => answers_cells _
  ballotCounts_answers := fun _ _ => answers_cells _

/-! ## One poll and several -/

def countPollBallots (host : BallotCountHost) (pollId : Nat) (callerId : Option Nat)
    (optionCount : Nat) : BallotTally :=
  tallyFromCounts (host.ballotCount pollId callerId) optionCount

def MAX_BATCHED_POLLS : Nat := 50

structure BallotPoll where
  id : Nat
  optionCount : Nat
deriving DecidableEq

def tooManyPolls (count : Nat) : String :=
  s!"[poll-results] 1..{MAX_BATCHED_POLLS} polls per statement, got {count}"

/-- The values of a list, each at its first place. -/
def distinctIds (ids : List Nat) : List Nat :=
  ids.foldl (fun seen id => if id ∈ seen then seen else seen ++ [id]) []

/-- The rows of every poll, in the order of the result. -/
def byPoll (rows : List BallotCountRow) : OrderedMap (Option Int) (List BallotCountRow) :=
  rows.foldl (fun groups row =>
    groups.set row.poll_id.number ((groups.get? row.poll_id.number).getD [] ++ [row])) .empty

def countPollBallotsMany (host : BallotCountHost) (polls : List BallotPoll)
    (callerId : Option Nat) : Except String (OrderedMap Nat BallotTally) :=
  if polls = [] then .ok .empty
  else
    let ids := distinctIds (polls.map BallotPoll.id)
    if MAX_BATCHED_POLLS < ids.length then .error (tooManyPolls ids.length)
    else
      let groups := byPoll (host.ballotCounts ids callerId)
      .ok (polls.foldl (fun tallies poll => tallies.set poll.id
        (tallyFromCounts ((groups.get? (some (poll.id : Int))).getD []) poll.optionCount)) .empty)

end Sinnlos.Cms

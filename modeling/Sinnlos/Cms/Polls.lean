import Mathlib.Data.List.Sort
import Sinnlos.Cms.PollOptions
import Sinnlos.Cms.Relations

/-! # Polls

One poll document: the guard of `apps/cms/src/utils/poll-audience-guard.ts` (the
vote freeze and the voter removal freeze), the Document Service's writes it
stands in front of, the vote handler (`api/poll-vote/controllers/poll-vote.ts`)
and the voter retention (`utils/poll-voter-retention.ts`). All of them hold the
poll's lock from their first read to their commit, so a poll's history is a
sequence of whole calls.
-/

namespace Sinnlos.Cms

/-- What a write passes through outside the repository. The two conditions say
what the guard relies on: a boolean and null are stored as they are, and text
the guard reads as an instant is stored as that instant or refused. -/
structure Platform where
  /-- `JSON.parse`; none where it throws. -/
  parse : String → Option Json
  /-- `instantMsOrNull` on text. -/
  instantMsOrNull : String → Option Int
  /-- What a boolean attribute stores for a value; none where the validator
  refuses it. -/
  storedBoolean : Json → Option (Option Bool)
  /-- The same for a datetime attribute. -/
  storedInstant : Json → Option (Option Int)
  storedBoolean_bool : ∀ b, storedBoolean (.bool b) = some (some b)
  storedBoolean_null : storedBoolean .null = some none
  storedInstant_text : ∀ text ms, instantMsOrNull text = some ms →
    storedInstant (.str text) = none ∨ storedInstant (.str text) = some (some ms)

/-! ## Rows -/

/-- A poll row, draft or published. Instants are epoch milliseconds. -/
structure PollRow where
  options : Option PollOptions
  anonymous : Option Bool
  closesAt : Option Int
  votersRemovedAt : Option Int
deriving DecidableEq

/-- A row of `poll_votes` linked to the poll, through either of its rows. -/
structure Ballot where
  id : Nat
  optionIndex : Nat
  voter : Option Nat
deriving DecidableEq

/-- A poll document and its ballots. Every write leaves a draft row. -/
structure Poll where
  draft : PollRow
  published : Option PollRow
  ballots : List Ballot
  /-- The sequence of ballot ids. -/
  nextBallot : Nat
deriving DecidableEq

def Poll.rows (poll : Poll) : List PollRow := poll.draft :: poll.published.toList

/-! ## Refusals -/

def FROZEN_AFTER_VOTES : String := "frozenAfterVotes"
def VOTERS_REMOVED : String := "votersRemoved"

def votedPollRefusal (message : String) : ValidationError := ⟨message, [FORM_KEY], []⟩

/-! ## Actions -/

/-- Document Service actions that write rows. -/
inductive PollAction
  | create
  | update
  | clone
  | publish
  | unpublish
  | discardDraft
  | delete
deriving DecidableEq

/-- `POLL_WRITE_ACTIONS`. -/
def PollAction.guarded (action : PollAction) : Bool := action ≠ .delete

/-- The parameters of an action on the poll; the document id is the poll's. -/
structure PollParams where
  status : Option String
  data : Json

/-- `isRecord(params.data) ? params.data : {}`. -/
def PollParams.fields (params : PollParams) : List (String × Json) :=
  params.data.fields?.getD []

def PollParams.field (params : PollParams) (key : String) : Option Json :=
  Json.field? key params.fields

/-- What an update carries under a key; the other actions carry nothing. -/
def carriedBy (action : PollAction) (params : PollParams) (key : String) : Option Json :=
  if action = .update then params.field key else none

/-- Whether the action makes the draft the published row. -/
def publishes (action : PollAction) (params : PollParams) : Bool :=
  action = .publish || (action = .update && params.status = some "published")

/-! ## The vote freeze -/

inductive FrozenField
  | options
  | anonymous
deriving DecidableEq

def FrozenField.name : FrozenField → String
  | .options => "options"
  | .anonymous => "anonymous"

def POLL_FROZEN_FIELDS : List FrozenField := [.options, .anonymous]

/-- A frozen field of a row, as a read returns it. -/
def PollRow.frozen (row : PollRow) : FrozenField → Json
  | .options => row.options.elim .null PollOptions.json
  | .anonymous => row.anonymous.elim .null .bool

/-- Whether two values of a frozen field say the same to a voter. -/
def sameFrozen : FrozenField → Option Json → Option Json → Bool
  | .anonymous, a, b => (a == some (.bool true)) == (b == some (.bool true))
  | .options, a, b => samePollOptions a b

/-- The value an update writes into a frozen field, none to skip it. -/
def writtenFrozen (platform : Platform) : FrozenField → Json → Option Json
  | .options, raw => parseAdminJsonField platform.parse raw
  | .anonymous, raw => some raw

/-- Whether the action changes the field against the published row. -/
def changesFrozen (platform : Platform) (action : PollAction) (params : PollParams)
    (draft : Option PollRow) (published : PollRow) (field : FrozenField) : Bool :=
  match carriedBy action params field.name with
  | none =>
      publishes action params &&
        !sameFrozen field (draft.map (·.frozen field)) (some (published.frozen field))
  | some raw =>
      match writtenFrozen platform field raw with
      | none => false
      | some value => !sameFrozen field (some value) (some (published.frozen field))

/-- The frozen fields an action would change, before any vote is counted. -/
def frozenChanges (platform : Platform) (action : PollAction) (params : PollParams)
    (draft published : Option PollRow) : List FrozenField :=
  match published with
  | none => []
  | some row =>
      if action ≠ .publish ∧ action ≠ .update then []
      else POLL_FROZEN_FIELDS.filter (changesFrozen platform action params draft row)

def frozenRefusal (changed : List FrozenField) : ValidationError :=
  let keys := (changed.map FrozenField.name).insertionSort (· ≤ ·)
  let named := String.intercalate " and " keys
  ⟨s!"This poll has votes: {named} can no longer change", keys,
    keys.map fun key => (key, FROZEN_AFTER_VOTES)⟩

/-- Throws when the action would change a frozen field of a voted poll,
unpublish it, or publish it without a published row to compare with. -/
def assertPollNotFrozen (platform : Platform) (action : PollAction) (params : PollParams)
    (draft published : Option PollRow) (ballots : Nat) : Except ValidationError Unit :=
  if action = .unpublish then
    if ballots = 0 then .ok ()
    else .error (votedPollRefusal
      "This poll has votes: it can no longer be unpublished (delete it, or let it close)")
  else if action ≠ .publish ∧ action ≠ .update then .ok ()
  else if published = none then
    if publishes action params = false ∨ ballots = 0 then .ok ()
    else .error (votedPollRefusal
      "This poll has votes but no published version: it can no longer be published")
  else
    let changed := frozenChanges platform action params draft published
    if changed = [] ∨ ballots = 0 then .ok ()
    else .error (frozenRefusal changed)

/-! ## The voter removal freeze -/

/-- Only the retention writes `votersRemovedAt`: dropped from every payload,
cleared on a clone. -/
def withoutVotersRemoved (action : PollAction) (params : PollParams) : PollParams :=
  let rest := params.fields.filter fun field => field.1 ≠ "votersRemovedAt"
  if action = .clone then { params with data := .obj (("votersRemovedAt", .null) :: rest) }
  else if params.data.fields?.isNone ∨ params.field "votersRemovedAt" = none then params
  else { params with data := .obj rest }

/-- The instant in a payload value. -/
def payloadInstant (platform : Platform) : Json → Option Int
  | .str text => platform.instantMsOrNull text
  | _ => none

/-- Throws when the action would reopen a poll whose voters were removed. -/
def assertPollNotReopened (platform : Platform) (action : PollAction) (params : PollParams)
    (draft published : Option PollRow) : Except ValidationError Unit :=
  let carried := carriedBy action params "closesAt"
  if action ≠ .publish ∧ action ≠ .update then .ok ()
  else if carried = none ∧ publishes action params = false then .ok ()
  else if (draft.toList ++ published.toList).all fun row => row.votersRemovedAt.isNone then .ok ()
  else
    let baseline := (published.or draft).bind PollRow.closesAt
    let next := carried.elim (draft.bind PollRow.closesAt) (payloadInstant platform)
    if next = baseline then .ok ()
    else .error ⟨"This poll's voters were removed after it closed: it can no longer be reopened",
      ["closesAt"], [("closesAt", VOTERS_REMOVED)]⟩

/-- What the poll guard runs before the write; it changes the parameters the
rest of the chain sees. -/
def pollGuard (platform : Platform) (action : PollAction) (params : PollParams)
    (draft published : Option PollRow) (ballots : Nat) : Except ValidationError PollParams := do
  let params := withoutVotersRemoved action params
  assertPollNotFrozen platform action params draft published ballots
  assertPollNotReopened platform action params draft published
  .ok params

/-! ## The Document Service -/

/-- The lifecycle of a row that carries `options`. -/
def assertValidOptions (platform : Platform) (raw : Json) :
    Except ValidationError (Option PollOptions) :=
  match parseAdminJsonField platform.parse raw with
  | none => .error (.plain "options: not valid JSON")
  | some .null => .ok none
  | some value =>
      match storedOptions value with
      | .error message => .error (.plain message)
      | .ok options => .ok (some options)

/-- The value of a column after a write: what the payload carries, else what
it was. -/
def writeColumn {α : Type} (before : α) (write : Json → Except ValidationError α) :
    Option Json → Except ValidationError α
  | none => .ok before
  | some raw => write raw

def accepted {α : Type} (key : String) : Option α → Except ValidationError α
  | none => .error ⟨s!"{key} is invalid", [key], []⟩
  | some value => .ok value

/-- A row with the payload written over it. -/
def writeRow (platform : Platform) (params : PollParams) (row : PollRow) :
    Except ValidationError PollRow := do
  let anonymous ← writeColumn row.anonymous
    (fun raw => accepted "anonymous" (platform.storedBoolean raw)) (params.field "anonymous")
  let closesAt ← writeColumn row.closesAt
    (fun raw => accepted "closesAt" (platform.storedInstant raw)) (params.field "closesAt")
  let votersRemovedAt ← writeColumn row.votersRemovedAt
    (fun raw => accepted "votersRemovedAt" (platform.storedInstant raw))
    (params.field "votersRemovedAt")
  let options ← writeColumn row.options (assertValidOptions platform) (params.field "options")
  .ok ⟨options, anonymous, closesAt, votersRemovedAt⟩

/-- The schema's defaults. -/
def PollRow.blank : PollRow := ⟨none, some false, none, none⟩

/-- Copy the draft into a new published row; `options` are required there. -/
def Poll.publishDraft (poll : Poll) : Except ValidationError Poll :=
  if poll.draft.options = none then
    .error ⟨"options must be defined.", ["options"], []⟩
  else .ok { poll with published := some poll.draft }

def Poll.publishIf (status : Option String) (poll : Poll) : Except ValidationError Poll :=
  if status = some "published" then poll.publishDraft else .ok poll

/-- The repository's actions on the document; none is a document that does not
exist. A clone writes another document. -/
def repository (platform : Platform) (action : PollAction) (params : PollParams) :
    Option Poll → Except ValidationError (Option Poll)
  | none =>
      match action with
      | .create => do
          let draft ← writeRow platform params .blank
          let poll ← Poll.publishIf params.status ⟨draft, none, [], 0⟩
          .ok (some poll)
      | _ => .ok none
  | some poll =>
      match action with
      | .create | .clone => .ok (some poll)
      | .update => do
          let draft ← writeRow platform params poll.draft
          let poll ← Poll.publishIf params.status { poll with draft := draft }
          .ok (some poll)
      | .publish => do
          let poll ← poll.publishDraft
          .ok (some poll)
      | .unpublish => .ok (some { poll with published := none })
      | .discardDraft =>
          -- without a published row the document goes with its draft
          .ok (poll.published.map fun row => { poll with draft := row })
      | .delete => .ok none

/-- A Document Service call on the poll, through the guard. -/
def documentService (platform : Platform) (action : PollAction) (params : PollParams)
    (doc : Option Poll) : Except ValidationError (Option Poll) :=
  if action.guarded then do
    let params ← pollGuard platform action params (doc.map Poll.draft) (doc.bind Poll.published)
      (doc.elim 0 fun poll => poll.ballots.length)
    repository platform action params doc
  else repository platform action params doc

/-! ## Ballots -/

/-- What the poll's audience rules say about the caller and the published row. -/
structure PollStanding where
  sees : Bool
  inAudience : Bool
  mayVote : Bool

structure VoteRequest where
  standing : PollStanding
  voter : Nat
  optionIndex : Nat
  /-- The option text the card showed. -/
  shown : Option String
  now : Int

inductive VoteOutcome
  | notFound
  | forbidden (message : String)
  | badRequest (message : String)
  | voted (id : Nat)
deriving DecidableEq

/-- Closed iff `now >= closesAt`. -/
def isPollClosed (closesAt : Option Int) (now : Int) : Bool := closesAt.any (· ≤ now)

/-- The checks before the insert. -/
def voteRefusal (vote : VoteRequest) (poll : Poll) (row : PollRow) : Option VoteOutcome :=
  let options := row.options.elim [] PollOptions.texts
  if ¬ vote.standing.sees then some .notFound
  else if ¬ vote.standing.inAudience then some (.forbidden "Not in poll audience")
  else if ¬ vote.standing.mayVote then some (.forbidden "Guests cannot vote on this poll")
  else if options.length ≤ vote.optionIndex then some (.badRequest "Invalid optionIndex")
  else if vote.shown.any fun shown => options[vote.optionIndex]? ≠ some shown then
    some (.badRequest "Poll options changed")
  else if isPollClosed row.closesAt vote.now || row.votersRemovedAt.isSome then
    some (.badRequest "Poll is closed")
  else if poll.ballots.any fun ballot => ballot.voter = some vote.voter then
    some (.badRequest "Already voted")
  else none

def VoteRequest.ballot (vote : VoteRequest) (id : Nat) : Ballot :=
  ⟨id, vote.optionIndex, some vote.voter⟩

/-- Insert a ballot and keep the voter's first one. -/
def insertBallot (vote : VoteRequest) (poll : Poll) : VoteOutcome × Poll :=
  let ballot := vote.ballot poll.nextBallot
  let ballots := poll.ballots ++ [ballot]
  let mine := (ballots.filter fun b => b.voter = some vote.voter).insertionSort (·.id ≤ ·.id)
  let later := mine.tail.map Ballot.id
  let poll := { poll with
    ballots := ballots.filter fun b => b.id ∉ later
    nextBallot := poll.nextBallot + 1 }
  if mine.head?.any fun first => first.id ≠ ballot.id then (.badRequest "Already voted", poll)
  else (.voted ballot.id, poll)

def castVote (vote : VoteRequest) (poll : Poll) : VoteOutcome × Poll :=
  match poll.published with
  | none => (.notFound, poll)
  | some row =>
      match voteRefusal vote poll row with
      | some outcome => (outcome, poll)
      | none => insertBallot vote poll

/-! ## The voter retention -/

def POLL_VOTER_RETENTION_DAYS : Int := 30
def DAY_MS : Int := 86400000

def votersRemovable (rows : List PollRow) (now : Int) : Bool :=
  !rows.isEmpty &&
    rows.all (fun row => row.closesAt.any (· < now - POLL_VOTER_RETENTION_DAYS * DAY_MS)) &&
    rows.any fun row => row.votersRemovedAt.isNone

/-- Which ballots go and which lose their voter, in id order; `seen` are the
voters met so far. -/
def planBallots (seen : List Nat) : List Ballot → List Nat × List Nat
  | [] => ([], [])
  | ballot :: rest =>
      match ballot.voter with
      | none => planBallots seen rest
      | some voter =>
          if voter ∈ seen then
            let plan := planBallots seen rest
            (ballot.id :: plan.1, plan.2)
          else
            let plan := planBallots (voter :: seen) rest
            (plan.1, ballot.id :: plan.2)

def ballotPlan (ballots : List Ballot) : List Nat × List Nat :=
  planBallots [] (ballots.insertionSort (·.id ≤ ·.id))

def PollRow.stamped (now : Int) (row : PollRow) : PollRow := { row with votersRemovedAt := some now }

def removePollVoters (now : Int) (poll : Poll) : Poll :=
  if votersRemovable poll.rows now then
    let plan := ballotPlan poll.ballots
    { poll with
      draft := poll.draft.stamped now
      published := poll.published.map (·.stamped now)
      ballots := (poll.ballots.filter fun b => b.id ∉ plan.1).map fun b =>
        if b.id ∈ plan.2 then { b with voter := none } else b }
  else poll

/-! ## A poll's history -/

inductive PollEvent
  | call (action : PollAction) (params : PollParams)
  /-- A call or a vote that fails outside the rules modelled here. -/
  | failed
  | vote (request : VoteRequest)
  | retention (now : Int)

/-- One call under the poll's lock; a refused one writes nothing. -/
def pollNext (platform : Platform) (doc : Option Poll) : PollEvent → Option Poll
  | .call action params =>
      match documentService platform action params doc with
      | .ok doc' => doc'
      | .error _ => doc
  | .failed => doc
  | .vote request => doc.map fun poll => (castVote request poll).2
  | .retention now => doc.map (removePollVoters now)

end Sinnlos.Cms

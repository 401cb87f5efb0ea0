import Mathlib.Data.Finset.Card
import Mathlib.Data.Finset.Dedup
import Sinnlos.Lib.Json

/-! # The live contract

Event and frame shapes, channel names and the subscription body that the cms
emitter, the web bus, the subscribe route and the browser client share
(`packages/domain/src/live-contract.ts`).
-/

namespace Sinnlos.Live

abbrev UserId := Int
abbrev ConnId := String
abbrev Channel := String

/-- `LIVE_TARGET_TYPES`: the types that have content channels. -/
def liveTargetTypes : List String := ["announcement", "wiki-page"]

def notificationsChannel : Channel := "notifications"
def announcementsChannel : Channel := "announcements"
def globalChannels : List Channel := [notificationsChannel, announcementsChannel]

inductive LiveEvent
  | content (targetType targetDocumentId : String)
  | notification (recipientId : UserId)
  | announcements
  | keepalive
deriving DecidableEq

inductive LiveFrame
  | content (channel : Channel)
  | notification
  | announcements
deriving DecidableEq

inductive ByeReason
  | evicted
  | shutdown
  | rotate
  | expired
deriving DecidableEq

def liveKeepaliveMs : Nat := 20000
def emitFreshMs : Nat := 2 * liveKeepaliveMs + 5000
def maxSubscribeList : Nat := 100

/-- One character of `CHANNEL_ID_PATTERN`. -/
def isChannelIdChar (c : Char) : Bool :=
  ('A' ≤ c && c ≤ 'Z') || ('a' ≤ c && c ≤ 'z') || ('0' ≤ c && c ≤ '9') || c == '_' || c == '-'

def isChannelId (chars : List Char) : Bool :=
  1 ≤ chars.length && chars.length ≤ 64 && chars.all isChannelIdChar

/-- What follows `type:` in `chars`, when they begin so. -/
def afterType (type : String) (chars : List Char) : Option (List Char) :=
  let head := type.toList ++ [':']
  if head <+: chars then some (chars.drop head.length) else none

/-- `CHANNEL_RE`: a comment target type, `:`, a documentId. -/
def isContentChannel (channel : Channel) : Bool :=
  liveTargetTypes.any fun type => (afterType type channel.toList).any isChannelId

/-- The content channel of a target, or none when it cannot have one. -/
def channelFor (targetType targetDocumentId : String) : Option Channel :=
  let channel := targetType ++ ":" ++ targetDocumentId
  if isContentChannel channel then some channel else none

/-- The channel a client refetches when the frame arrives. -/
def frameChannel : LiveFrame → Channel
  | .content channel => channel
  | .notification => notificationsChannel
  | .announcements => announcementsChannel

/-- The full-set body of `POST /live/subscribe`. -/
structure LiveSubscribeRequest where
  connId : ConnId
  rev : Nat
  channels : List Channel
deriving DecidableEq

/-- `new Set(channels)` as a list: the first occurrence of each. -/
def firstOccurrences : List Channel → List Channel
  | [] => []
  | c :: cs => c :: (firstOccurrences cs).filter (· ≠ c)

def maxSafeInteger : Nat := 9007199254740991

/-- A subscribe body, or none when malformed. -/
def parseSubscribeRequest (body : LiveSubscribeRequest) : Option LiveSubscribeRequest :=
  if body.connId = "" ∨ 100 < body.connId.length then none
  else if maxSafeInteger < body.rev ∨ body.rev < 1 then none
  else if maxSubscribeList < body.channels.length then none
  else if !body.channels.all isContentChannel then none
  else some { body with channels := firstOccurrences body.channels }

/-! ## Frames as they arrive -/

structure HelloFrame where
  connId : ConnId
  emitFresh : Bool
  revision : Option String
deriving DecidableEq

/-- `emitFresh !== false` of a frame's data. -/
def freshUnlessFalse (value : Option Json) : Bool := value ≠ some (.bool false)

def isHexChar (c : Char) : Bool :=
  ('0' ≤ c && c ≤ '9') || ('a' ≤ c && c ≤ 'f') || ('A' ≤ c && c ≤ 'F')

/-- A build revision: 7 to 64 hex characters, lower-cased. -/
def buildRevision? (value : String) : Option String :=
  let chars := value.toList
  if 7 ≤ chars.length && chars.length ≤ 64 && chars.all isHexChar then some value.toLower
  else none

/-- A `hello` event's data, or none without a connection id. -/
def parseHelloFrame (value : Json) : Option HelloFrame :=
  match (value.get? "connId").bind Json.str? with
  | none => none
  | some connId =>
      if connId = "" then none
      else some {
        connId
        emitFresh := freshUnlessFalse (value.get? "emitFresh")
        revision := ((value.get? "revision").bind Json.str?).bind buildRevision? }

/-- An `hb` event's data: only an explicit false is stale. -/
def parseHeartbeatFrame (value : Json) : Bool := freshUnlessFalse (value.get? "emitFresh")

def byeReason? : String → Option ByeReason
  | "evicted" => some .evicted
  | "shutdown" => some .shutdown
  | "rotate" => some .rotate
  | "expired" => some .expired
  | _ => none

/-- A `bye` event's data, or none when malformed. -/
def parseByeFrame (value : Json) : Option ByeReason :=
  ((value.get? "reason").bind Json.str?).bind byeReason?

/-- A `ping` event's data, or none when malformed. -/
def parseLiveFrame (value : Json) : Option LiveFrame :=
  match (value.get? "type").bind Json.str? with
  | some "content" =>
      match (value.get? "channel").bind Json.str? with
      | some channel => if isContentChannel channel then some (.content channel) else none
      | none => none
  | some "notification" => some .notification
  | some "announcements" => some .announcements
  | _ => none

/-! ## Facts -/

theorem mem_firstOccurrences {c : Channel} {cs : List Channel} :
    c ∈ firstOccurrences cs ↔ c ∈ cs := by
  induction cs with
  | nil => simp [firstOccurrences]
  | cons d cs ih =>
      by_cases h : c = d
      · simp [firstOccurrences, h]
      · simp [firstOccurrences, h, ih]

example : channelFor "wiki-page" "abc_1" = some "wiki-page:abc_1" := by decide

end Sinnlos.Live

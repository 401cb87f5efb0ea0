import Sinnlos.Lib.Json
import Sinnlos.Lib.Text

/-! # Notification rows

How `apps/cms/src/utils/notify.ts` builds the row of one notification: the
cleaned values and the stored English title, from the templates of
`packages/domain/src/notification-title.ts`.
-/

namespace Sinnlos.Cms.Notify

open Text (trim)

inductive NotificationType
  | announcement
  | comment
  | event
  | kudos
  | trainingDue
  | trainingExpired
  | secretShared
deriving DecidableEq

inductive TitleParam
  | actor
  | subject
deriving DecidableEq

def TitleParam.key : TitleParam → String
  | .actor => "actor"
  | .subject => "subject"

/-- Fixed text, or a value with the text that stands in for it. -/
inductive NotificationTitlePart
  | text (fixed : String)
  | value (param : TitleParam) (fallback : String)

/-- `NOTIFICATION_TITLES.en` -/
def notificationTitlesEn : NotificationType → List NotificationTitlePart
  | .announcement => [.text "New announcement: ", .value .subject "Untitled"]
  | .event => [.text "New event: ", .value .subject "Untitled"]
  | .kudos => [.value .actor "Someone", .text " gave you kudos!"]
  | .comment =>
      [.value .actor "Someone", .text " commented on \"", .value .subject "an announcement",
        .text "\""]
  | .trainingDue => [.text "Training \"", .value .subject "a course", .text "\" is due soon"]
  | .trainingExpired =>
      [.text "Training \"", .value .subject "a course",
        .text "\" has expired, please repeat it"]
  | .secretShared => [.value .actor "Someone", .text " sent you a secret"]

structure NotificationTitleParams where
  actor : Option String
  subject : Option String
deriving DecidableEq

def NotificationTitleParams.get (params : NotificationTitleParams) : TitleParam → Option String
  | .actor => params.actor
  | .subject => params.subject

/-- The value as it is stored: only the properties that are set. -/
def NotificationTitleParams.toJson (params : NotificationTitleParams) : Json :=
  .obj ((params.actor.toList.map fun actor => ("actor", .str actor)) ++
    params.subject.toList.map fun subject => ("subject", .str subject))

def NOTIFICATION_TITLE_MAX : Nat := 255

def ELLIPSIS : Char := Char.ofNat 0x2026

/-! ## The title -/

inductive TitlePart
  | text (fixed : String)
  | value (value : Option String) (fallback : String)

structure ResolvedPart where
  chars : List Char
  /-- A real value, shortened when it is too long. -/
  shrinkable : Bool

def resolvePart : TitlePart → ResolvedPart
  | .text fixed => ⟨fixed.toList, false⟩
  | .value value fallback =>
      let trimmed := trim (value.getD "")
      if trimmed = "" then ⟨fallback.toList, false⟩ else ⟨trimmed.toList, true⟩

/-- The length of the title when every value longer than `cap` is cut to `cap`
and the ellipsis. -/
def lengthWithCap (parts : List ResolvedPart) (cap : Nat) : Nat :=
  parts.foldl (fun total part =>
    total + if part.shrinkable && cap < part.chars.length then cap + 1 else part.chars.length) 0

/-- The longest cut, from `cap` down, at which the title fits. -/
def fittingCap (parts : List ResolvedPart) (max : Nat) : Nat → Nat
  | 0 => 0
  | cap + 1 => if max < lengthWithCap parts (cap + 1) then fittingCap parts max cap else cap + 1

def ResolvedPart.shown (cap : Nat) (part : ResolvedPart) : List Char :=
  if part.shrinkable && cap < part.chars.length then part.chars.take cap ++ [ELLIPSIS]
  else part.chars

def buildTitle (parts : List TitlePart) (max : Nat) : String :=
  let resolved := parts.map resolvePart
  let longest := ((resolved.filter ResolvedPart.shrinkable).map fun part =>
    part.chars.length).foldl Nat.max 0
  let cap := fittingCap resolved max longest
  let title := resolved.flatMap (ResolvedPart.shown cap)
  String.ofList (if title.length ≤ max then title else title.take (max - 1) ++ [ELLIPSIS])

/-! ## The row -/

/-- A value as it is stored: a text that is not blank, trimmed and cut. -/
def cleanValue : Option Json → Option String
  | some (.str value) =>
      if trim value = "" then none
      else some (String.ofList ((trim value).toList.take NOTIFICATION_TITLE_MAX))
  | _ => none

def cleanTitleParams (input : List (String × Json)) : NotificationTitleParams :=
  ⟨cleanValue (Json.field? "actor" input), cleanValue (Json.field? "subject" input)⟩

inductive NotificationSourceType
  | announcement
  | event
  | course
deriving DecidableEq

structure NotificationSource where
  sourceType : NotificationSourceType
  sourceDocumentId : Option String
deriving DecidableEq

structure NotificationInput where
  type : NotificationType
  titleParams : List (String × Json)
  link : String
  recipient : Nat
  actor : Option Nat
  source : Option NotificationSource

structure NotificationData where
  type : NotificationType
  title : String
  titleParams : NotificationTitleParams
  link : String
  recipient : Nat
  actor : Option Nat
  source : Option NotificationSource
deriving DecidableEq

def NotificationTitlePart.filled (titleParams : NotificationTitleParams) :
    NotificationTitlePart → TitlePart
  | .text fixed => .text fixed
  | .value param fallback => .value (titleParams.get param) fallback

def buildNotification (input : NotificationInput) : NotificationData :=
  let titleParams := cleanTitleParams input.titleParams
  let parts := (notificationTitlesEn input.type).map (NotificationTitlePart.filled titleParams)
  { type := input.type
    title := buildTitle parts NOTIFICATION_TITLE_MAX
    titleParams := titleParams
    link := input.link
    recipient := input.recipient
    actor := input.actor
    source := input.source }

@[simp] theorem buildNotification_titleParams (input : NotificationInput) :
    (buildNotification input).titleParams = cleanTitleParams input.titleParams := rfl

/-- Values without an actor name none where they are stored. -/
theorem toJson_actor {params : NotificationTitleParams} (h : params.actor = none) :
    params.toJson.get? "actor" = none := by
  obtain ⟨actor, subject⟩ := params
  cases h
  cases subject <;> simp [NotificationTitleParams.toJson, Json.get?, Json.fields?, Json.field?]

end Sinnlos.Cms.Notify

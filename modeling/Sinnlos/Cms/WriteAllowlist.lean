import Sinnlos.Cms.WriteFlags

/-!
# The targeted types of the write allowlist

The rules of the types that carry a targeting flag or are written by department
authors. The checks of single values and across fields are parameters.
-/

namespace Sinnlos.Cms.Write

def GUEST : String := "guest"

/-- The seeded roles, the most privileged first. -/
def ROLE_PRIVILEGE_ORDER : List String :=
  ["admin_role", "editor", "department_head", "team_lead", "member", "guest"]

def STAFF_ROLES : List String := ROLE_PRIVILEGE_ORDER.filter (· ≠ GUEST)

def MAX_TARGET_DEPARTMENTS : Nat := 50

abbrev CrossCheck := Record → List String → WriteRuleEnvironment → List (String × String)

/-- The checks of single values and across fields, and the derived slug. -/
structure Validators where
  checkRequiredString : ValueCheck
  checkMarkdown : ValueCheck
  checkBoolean : ValueCheck
  checkEnum : List String → ValueCheck
  checkInstant : ValueCheck
  checkNullableInstant : ValueCheck
  checkNullablePlainDate : ValueCheck
  checkNullableString : ValueCheck
  checkNullableWebUrl : ValueCheck
  checkPositiveIntOrNull : ValueCheck
  checkQuickLinkUrl : ValueCheck
  checkIconKey : ValueCheck
  checkOrder : ValueCheck
  checkAckFlag : ValueCheck
  checkValidityMonths : ValueCheck
  checkPollOptions : ValueCheck
  samePollOptions : Option Json → Option Json → Bool
  dutyTemplatesCode : ValueCheck
  dutyShiftsCode : ValueCheck
  kpiValuesCode : ValueCheck
  announcementCrossCheck : CrossCheck
  eventCrossCheck : CrossCheck
  scheduledCrossCheck : CrossCheck
  kpiCrossCheck : CrossCheck
  uniqueSlugFrom : String → Record → Json

def value (check : ValueCheck) : FieldSpec := .value check none

def toOne (check : RelationCheckName) : FieldSpec := .relation check false false

def toMany (check : RelationListCheckName) : FieldSpec :=
  .relationList check MAX_TARGET_DEPARTMENTS false false

def media (check : MediaCheckName) : FieldSpec := .media check

def roleTypes (allowed : List String) : FieldSpec := .roleTypes allowed allowed.length

def frozen (check : ValueCheck) (same : Option Json → Option Json → Bool) : FieldSpec :=
  .value check (some ⟨.pollHasVotes, same⟩)

/-- A NULL column reads as false. -/
def sameFlag (a b : Option Json) : Bool :=
  decide (a = some (.bool true)) == decide (b = some (.bool true))

/-- The caller's department, on a department author's create. -/
def OWNER_DEPARTMENT (env : WriteRuleEnvironment) : Except Failure Json :=
  match env.callerDepartment with
  | none => .error .noCallerDepartment
  | some department => .ok (setOf [department.documentId])

/-- A rule with these fields and derivations, and nothing else. -/
def ruleOf (fields : List (String × FieldSpec)) (derived : List (String × MergedDerivation))
    (crossCheck : Option CrossCheck) (readinessWhenScheduled : Bool) : WriteRule where
  fields := .ofList fields
  callerFields := []
  derivedFields := .empty
  derivedFromMerged := .ofList derived
  derivedOnCreate := .empty
  crossCheck := crossCheck
  readinessWhenScheduled := readinessWhenScheduled

/-- The rule on create: the caller field, and the owner of a department author's item. -/
def createOf (rule : WriteRule) (callerField : String) (owner : Bool) : WriteRule :=
  { rule with
    callerFields := [callerField]
    derivedOnCreate := if owner then .ofList [("ownerDepartment", OWNER_DEPARTMENT)] else .empty }

section Rules

variable (v : Validators)

def COURSE_MODERATOR : WriteRule :=
  ruleOf
    [("title", value v.checkRequiredString), ("description", value v.checkMarkdown),
      ("mandatory", value v.checkBoolean),
      ("completionMode", value (v.checkEnum ["confirm", "quizGate", "exam"])),
      ("validityMonths", value v.checkValidityMonths), ("contact", value v.checkNullableString),
      ("departments", toMany .departments), ("coverImage", media .ownUpload),
      ("publishAt", value v.checkNullableInstant)]
    [("audience", DEPARTMENTS_FLAG)] (some v.scheduledCrossCheck) true

def COURSE_MODERATOR_CREATE : WriteRule :=
  { COURSE_MODERATOR v with derivedFields := .ofList [("slug", v.uniqueSlugFrom "title")] }

def ANNOUNCEMENT_COMMON : List (String × FieldSpec) :=
  [("title", value v.checkRequiredString), ("body", value v.checkMarkdown),
    ("expiresAt", value v.checkNullableInstant)]

def ANNOUNCEMENT_DERIVED : List (String × MergedDerivation) :=
  [("audience", ANNOUNCEMENT_AUDIENCE), ("retargetRequired", ANNOUNCEMENT_RETARGET)]

def ANNOUNCEMENT_MODERATOR : WriteRule :=
  ruleOf
    (ANNOUNCEMENT_COMMON v ++
      [("pinned", value v.checkBoolean), ("department", toOne .department), ("team", toOne .team),
        ("audienceRoles", roleTypes ROLE_PRIVILEGE_ORDER), ("requiresAck", value v.checkAckFlag),
        ("ackDeadline", value v.checkNullablePlainDate),
        ("publishAt", value v.checkNullableInstant)])
    ANNOUNCEMENT_DERIVED (some v.announcementCrossCheck) true

def ANNOUNCEMENT_DEPARTMENT_AUTHOR : WriteRule :=
  ruleOf
    (ANNOUNCEMENT_COMMON v ++
      [("department", .relation .callerDepartment false true),
        ("team", toOne .teamOfCallerDepartment), ("audienceRoles", roleTypes STAFF_ROLES)])
    ANNOUNCEMENT_DERIVED (some v.announcementCrossCheck) false

def EVENT_COMMON : List (String × FieldSpec) :=
  [("title", value v.checkRequiredString), ("description", value v.checkMarkdown),
    ("start", value v.checkInstant), ("end", value v.checkNullableInstant),
    ("allDay", value v.checkBoolean), ("location", value v.checkNullableString),
    ("url", value v.checkNullableWebUrl), ("rsvpEnabled", value v.checkBoolean),
    ("capacity", value v.checkPositiveIntOrNull)]

def EVENT_MODERATOR : WriteRule :=
  ruleOf
    (EVENT_COMMON v ++
      [("departments", toMany .departments), ("publishAt", value v.checkNullableInstant)])
    [("notifyAudience", DEPARTMENTS_FLAG)] (some v.eventCrossCheck) true

/-- Departments that are the caller's alone, and on create without the payload naming them. -/
def toCallerDepartments : FieldSpec :=
  .relationList .callerDepartments MAX_TARGET_DEPARTMENTS true false

def EVENT_DEPARTMENT_AUTHOR : WriteRule :=
  ruleOf (EVENT_COMMON v ++ [("departments", toCallerDepartments)])
    [("notifyAudience", DEPARTMENTS_FLAG)] (some v.eventCrossCheck) false

def QUICK_LINK_CATEGORIES : List String := ["hr", "it", "tools", "extern"]

def QUICK_LINK_MODERATOR : WriteRule :=
  ruleOf
    [("label", value v.checkRequiredString), ("url", value v.checkQuickLinkUrl),
      ("icon", value v.checkIconKey), ("category", value (v.checkEnum QUICK_LINK_CATEGORIES)),
      ("order", value v.checkOrder), ("departments", toMany .departments),
      ("publishAt", value v.checkNullableInstant), ("unpublishAt", value v.checkNullableInstant)]
    [("audience", DEPARTMENTS_FLAG)] (some v.scheduledCrossCheck) true

def DOCUMENT_CATEGORIES : List String := ["policy", "form", "template", "guide", "other"]

def DOCUMENT_COMMON : List (String × FieldSpec) :=
  [("title", value v.checkRequiredString), ("description", value v.checkMarkdown),
    ("category", value (v.checkEnum DOCUMENT_CATEGORIES))]

def DOCUMENT_MODERATOR : WriteRule :=
  ruleOf
    (DOCUMENT_COMMON v ++
      [("departments", toMany .departments), ("file", media .ownUpload),
        ("requiresAck", value v.checkAckFlag), ("publishAt", value v.checkNullableInstant),
        ("unpublishAt", value v.checkNullableInstant)])
    [("audience", DEPARTMENTS_FLAG)] (some v.scheduledCrossCheck) true

def DOCUMENT_DEPARTMENT_AUTHOR : WriteRule :=
  ruleOf (DOCUMENT_COMMON v ++ [("departments", toCallerDepartments), ("file", media .ownUpload)])
    [("audience", DEPARTMENTS_FLAG)] (some v.scheduledCrossCheck) false

def POLL_MODERATOR : WriteRule :=
  ruleOf
    [("question", value v.checkRequiredString),
      ("options", frozen v.checkPollOptions v.samePollOptions),
      ("closesAt", value v.checkNullableInstant), ("anonymous", frozen v.checkBoolean sameFlag),
      ("departments", toMany .departments), ("visibleToGuests", value v.checkBoolean),
      ("guestsCanVote", value v.checkBoolean)]
    [("audience", DEPARTMENTS_FLAG)] none false

def DUTY_PLAN_COMMON : List (String × FieldSpec) :=
  [("name", value v.checkRequiredString), ("note", value v.checkNullableString),
    ("shiftTemplates", value v.dutyTemplatesCode), ("shifts", value v.dutyShiftsCode)]

def DUTY_PLAN_DEPARTMENT_AUTHOR : WriteRule :=
  ruleOf (DUTY_PLAN_COMMON v ++ [("department", .relation .callerDepartment false true)]) []
    none false

def KPI_PERIODS : List String := ["month", "quarter", "year"]

def KPI_AGGREGATIONS : List String := ["sum", "last"]

def KPI_COMMON : List (String × FieldSpec) :=
  [("name", value v.checkRequiredString), ("unit", value v.checkNullableString),
    ("description", value v.checkNullableString), ("period", value (v.checkEnum KPI_PERIODS)),
    ("aggregation", value (v.checkEnum KPI_AGGREGATIONS)), ("values", value v.kpiValuesCode)]

def KPI_DEPARTMENT_AUTHOR : WriteRule :=
  ruleOf (KPI_COMMON v ++ [("department", .relation .callerDepartment false true)]) []
    (some v.kpiCrossCheck) false

/-! ## The flags of the allowlist -/

/-- Every rule that derives a targeting flag, with the flag and the keys of its targets. -/
def flaggedRules : List (WriteRule × String × List String) :=
  [(COURSE_MODERATOR_CREATE v, "audience", ["departments"]),
    (COURSE_MODERATOR v, "audience", ["departments"]),
    (createOf (ANNOUNCEMENT_MODERATOR v) "author" false, "audience", ["department", "team"]),
    (ANNOUNCEMENT_MODERATOR v, "audience", ["department", "team"]),
    (createOf (ANNOUNCEMENT_DEPARTMENT_AUTHOR v) "author" true, "audience", ["department", "team"]),
    (ANNOUNCEMENT_DEPARTMENT_AUTHOR v, "audience", ["department", "team"]),
    (createOf (EVENT_MODERATOR v) "organizer" false, "notifyAudience", ["departments"]),
    (EVENT_MODERATOR v, "notifyAudience", ["departments"]),
    (createOf (EVENT_DEPARTMENT_AUTHOR v) "organizer" true, "notifyAudience", ["departments"]),
    (EVENT_DEPARTMENT_AUTHOR v, "notifyAudience", ["departments"]),
    (QUICK_LINK_MODERATOR v, "audience", ["departments"]),
    (createOf (DOCUMENT_MODERATOR v) "uploadedBy" false, "audience", ["departments"]),
    (DOCUMENT_MODERATOR v, "audience", ["departments"]),
    (createOf (DOCUMENT_DEPARTMENT_AUTHOR v) "uploadedBy" true, "audience", ["departments"]),
    (DOCUMENT_DEPARTMENT_AUTHOR v, "audience", ["departments"]),
    (createOf (POLL_MODERATOR v) "author" false, "audience", ["departments"]),
    (POLL_MODERATOR v, "audience", ["departments"])]

end Rules

variable {flag : String} {targets : List String}

/-- A flag of a rule without anything set on create. -/
theorem targetFlag_ruleOf {fields : List (String × FieldSpec)}
    {derived : List (String × MergedDerivation)} {crossCheck : Option CrossCheck} {ready : Bool}
    (derivation : OrderedMap.find flag derived.reverse = some (audienceOf targets))
    (notField : OrderedMap.find flag fields.reverse = none)
    (inOrder : (targets.all fun target =>
      (OrderedMap.find target fields.reverse).any FieldSpec.isTarget &&
        (OrderedMap.find target derived.reverse).isNone) = true) :
    TargetFlag (ruleOf fields derived crossCheck ready) flag targets := by
  rw [List.all_eq_true] at inOrder
  constructor
  · exact (OrderedMap.get?_ofList derived flag).trans derivation
  · exact (OrderedMap.get?_ofList fields flag).trans notField
  · exact List.not_mem_nil
  · exact List.not_mem_nil
  · exact List.not_mem_nil
  · intro target htarget
    have hboth := inOrder target htarget
    rw [Bool.and_eq_true, Option.isNone_iff_eq_none] at hboth
    constructor
    · have hfield : (ruleOf fields derived crossCheck ready).fields.get? target =
          OrderedMap.find target fields.reverse := OrderedMap.get?_ofList fields target
      rw [hfield]
      exact hboth.1
    · intro hset
      rcases hset with hplain | hmerged | hcreate | hcaller
      · exact List.not_mem_nil hplain
      · have hnone : (OrderedMap.ofList derived).get? target = none :=
          (OrderedMap.get?_ofList derived target).trans hboth.2
        exact OrderedMap.get?_eq_none.mp hnone hmerged
      · exact List.not_mem_nil hcreate
      · exact List.not_mem_nil hcaller

variable {rule : WriteRule}

/-- What the server sets on create is neither the flag nor one of its targets. -/
theorem TargetFlag.onCreate (h : TargetFlag rule flag targets) {callerField : String}
    {owner : Bool} (hflag : flag ≠ callerField ∧ flag ≠ "ownerDepartment")
    (htargets : callerField ∉ targets ∧ "ownerDepartment" ∉ targets) :
    TargetFlag (createOf rule callerField owner) flag targets := by
  have howner {key : String} (hkey : key ∈ (createOf rule callerField owner).derivedOnCreate.keys) :
      key = "ownerDepartment" := by
    cases owner with
    | true => exact List.mem_singleton.mp hkey
    | false => exact absurd hkey List.not_mem_nil
  constructor
  · exact h.derivation
  · exact h.notField
  · exact h.notDerived
  · exact fun hkey => hflag.2 (howner hkey)
  · exact fun hkey => hflag.1 (List.mem_singleton.mp hkey)
  · intro target htarget
    obtain ⟨hspec, hserver⟩ := h.targets target htarget
    constructor
    · exact hspec
    · intro hset
      rcases hset with hplain | hmerged | hcreate | hcaller
      · exact hserver (Or.inl hplain)
      · exact hserver (Or.inr (Or.inl hmerged))
      · exact htargets.2 (howner hcreate ▸ htarget)
      · exact htargets.1 (List.mem_singleton.mp hcaller ▸ htarget)

/-- A derived slug is neither the flag nor one of its targets. -/
theorem TargetFlag.withSlug (h : TargetFlag rule flag targets) (slug : Record → Json)
    (hflag : flag ≠ "slug") (htargets : "slug" ∉ targets) :
    TargetFlag { rule with derivedFields := .ofList [("slug", slug)] } flag targets := by
  constructor
  · exact h.derivation
  · exact h.notField
  · exact fun hkey => hflag (List.mem_singleton.mp (OrderedMap.mem_keys_ofList.mp hkey))
  · exact h.notCreated
  · exact h.notCaller
  · intro target htarget
    obtain ⟨hspec, hserver⟩ := h.targets target htarget
    constructor
    · exact hspec
    · intro hset
      rcases hset with hplain | hrest
      · have hslug : target = "slug" := List.mem_singleton.mp (OrderedMap.mem_keys_ofList.mp hplain)
        exact htargets (hslug ▸ htarget)
      · exact hserver (Or.inr hrest)

section Flags

variable (v : Validators)

theorem course_flag : TargetFlag (COURSE_MODERATOR v) "audience" ["departments"] :=
  targetFlag_ruleOf rfl rfl rfl

theorem course_create_flag :
    TargetFlag (COURSE_MODERATOR_CREATE v) "audience" ["departments"] :=
  (course_flag v).withSlug _ (by decide) (by decide)

theorem announcement_moderator_flag :
    TargetFlag (ANNOUNCEMENT_MODERATOR v) "audience" ["department", "team"] :=
  targetFlag_ruleOf rfl rfl rfl

theorem announcement_departmentAuthor_flag :
    TargetFlag (ANNOUNCEMENT_DEPARTMENT_AUTHOR v) "audience" ["department", "team"] :=
  targetFlag_ruleOf rfl rfl rfl

theorem event_moderator_flag :
    TargetFlag (EVENT_MODERATOR v) "notifyAudience" ["departments"] :=
  targetFlag_ruleOf rfl rfl rfl

theorem event_departmentAuthor_flag :
    TargetFlag (EVENT_DEPARTMENT_AUTHOR v) "notifyAudience" ["departments"] :=
  targetFlag_ruleOf rfl rfl rfl

theorem quickLink_flag : TargetFlag (QUICK_LINK_MODERATOR v) "audience" ["departments"] :=
  targetFlag_ruleOf rfl rfl rfl

theorem document_moderator_flag :
    TargetFlag (DOCUMENT_MODERATOR v) "audience" ["departments"] :=
  targetFlag_ruleOf rfl rfl rfl

theorem document_departmentAuthor_flag :
    TargetFlag (DOCUMENT_DEPARTMENT_AUTHOR v) "audience" ["departments"] :=
  targetFlag_ruleOf rfl rfl rfl

theorem poll_flag : TargetFlag (POLL_MODERATOR v) "audience" ["departments"] :=
  targetFlag_ruleOf rfl rfl rfl

/-- Each flag of the allowlist is derived from its targets, and set in no other way. -/
theorem flaggedRules_targetFlag :
    ∀ entry ∈ flaggedRules v, TargetFlag entry.1 entry.2.1 entry.2.2 := by
  unfold flaggedRules
  simp only [List.forall_mem_cons, List.not_mem_nil, false_imp_iff, implies_true, and_true]
  refine ⟨course_create_flag v, course_flag v, ?_, announcement_moderator_flag v, ?_,
    announcement_departmentAuthor_flag v, ?_, event_moderator_flag v, ?_,
    event_departmentAuthor_flag v, quickLink_flag v, ?_, document_moderator_flag v, ?_,
    document_departmentAuthor_flag v, ?_, poll_flag v⟩
  · exact (announcement_moderator_flag v).onCreate (by decide) (by decide)
  · exact (announcement_departmentAuthor_flag v).onCreate (by decide) (by decide)
  · exact (event_moderator_flag v).onCreate (by decide) (by decide)
  · exact (event_departmentAuthor_flag v).onCreate (by decide) (by decide)
  · exact (document_moderator_flag v).onCreate (by decide) (by decide)
  · exact (document_departmentAuthor_flag v).onCreate (by decide) (by decide)
  · exact (poll_flag v).onCreate (by decide) (by decide)

end Flags

end Sinnlos.Cms.Write

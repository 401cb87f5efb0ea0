import Sinnlos.Cms.DepartmentAuthors
import Sinnlos.Cms.WriteSpellings

/-!
# A write payload is confined to its rule

The accepted writes of any rule, the payloads that are answered alike, and the
payloads that are refused before anything is asked.
-/

namespace Sinnlos.Cms.Write

/-- The check of a plain value. -/
def FieldSpec.plainCheck : FieldSpec → Option ValueCheck
  | .value check _ | .controller check => some check
  | _ => none

/-- The check answers a target where it is asked for one. -/
def KeepsTarget (check : RelationCheck) : Prop :=
  ∀ input before answer, check input before = some answer →
    (∃ ref, input.target = some (some ref)) → ∃ documentId, answer.target = some (some documentId)

/-- What an accepted write is confined to. -/
structure Confined (rule : WriteRule) (env : WriteRuleEnvironment) (fields : List (String × Json))
    (out : Record) : Prop where
  /-- Every key sent is a field of the rule. -/
  keys : ∀ key ∈ fields.map Prod.fst, ∃ spec, rule.fields.get? key = some spec
  /-- Every plain value sent passed its check. -/
  values : ∀ key raw check, (OrderedMap.ofList fields).get? key = some raw →
    (rule.fields.get? key).bind FieldSpec.plainCheck = some check → check raw = .accepted
  /-- What the server does not set is a plain value, or what supplied checks answered. -/
  entries : ∃ payload, payloadOf (.obj fields) rule env = .ok payload ∧
    ∀ key, ¬ ServerSet rule key → ∃ merged, Entry rule env payload key (out.get? key) merged
  /-- A required relation is set to one target that its check answered. -/
  required : ∀ key name pinned, rule.fields.get? key = some (.relation name true pinned) →
    ¬ ServerSet rule key → ∃ input check before answer, input.singleTarget = true ∧
      env.relationChecks name = some check ∧ check input before = some answer ∧
      out.get? key = toStrapiRelation answer ∧
      (KeepsTarget check → ∃ documentId, out.get? key = some (setOf [documentId]))
  /-- The caller fields name the caller. -/
  caller : ∀ key ∈ rule.callerFields, out.get? key = some (.num env.callerId)
  /-- On create, the server's values stand. -/
  created : isCreate env = true → ∀ key derive, rule.derivedOnCreate.get? key = some derive →
    key ∉ rule.callerFields → ∃ value, derive env = .ok value ∧ out.get? key = some value
  /-- A written flag is `all` only over a row that links no target. -/
  flag : ∀ flag targets, TargetFlag rule flag targets →
    out.get? flag = some (.str AUDIENCE_ALL) → ∀ target ∈ targets, writtenLinks env out target = []
  /-- A flag that matched the stored links admits no more than the links after the write. -/
  narrow : ∀ flag targets before, TargetFlag rule flag targets →
    (before = some (.str AUDIENCE_ALL) → ∀ target ∈ targets, storedLinks env target = []) →
    (out.get? flag).or before = some (.str AUDIENCE_ALL) →
    ∀ target ∈ targets, writtenLinks env out target = []

section Confined

variable {rule : WriteRule} {env : WriteRuleEnvironment} {fields : List (String × Json)}
  {out payload : Record} {acc : Accepted} {created : Record}

theorem singleTarget_target {input : ToOneRelationInput} (h : input.singleTarget = true) :
    ∃ ref, input.target = some (some ref) := by
  obtain ⟨hsome, _⟩ := of_decide_eq_true h
  obtain ⟨ref, htarget, hne⟩ := hsome
  cases ref with
  | none => exact absurd rfl hne
  | some ref => exact ⟨ref, htarget⟩

theorem Read.field {key : String} {raw : Json} {reading : Reading}
    (h : Read rule key raw reading) : ∃ spec, rule.fields.get? key = some spec := by
  cases h with
  | value spec | controller spec | relation spec | list spec | delta spec | roles spec
  | media spec => exact ⟨_, spec⟩

theorem Read.plain {key : String} {raw : Json} {reading : Reading} {check : ValueCheck}
    (h : Read rule key raw reading)
    (hcheck : (rule.fields.get? key).bind FieldSpec.plainCheck = some check) :
    check raw = .accepted := by
  cases h with
  | value spec passed | controller spec passed =>
      rw [spec] at hcheck
      cases hcheck
      exact passed
  | relation spec | list spec | delta spec | roles spec | media spec =>
      rw [spec] at hcheck; cases hcheck

variable {key : String} {name : RelationCheckName} {pinned : Bool}

/-- A required relation is in the payload. -/
theorem required_sent (h : Applied (.obj fields) rule env out payload acc created)
    (hspec : rule.fields.get? key = some (.relation name true pinned)) :
    ∃ raw, payload.get? key = some raw := by
  obtain ⟨_, _, hmissing⟩ := readPayload_ok h.readable
  apply OrderedMap.mem_keys.mp
  by_contra hnot
  have hmem : key ∈ missingRequired rule payload := by
    unfold missingRequired
    apply List.mem_map_of_mem (f := Prod.fst) (a := (key, FieldSpec.relation name true pinned))
    rw [List.mem_filter]
    exact ⟨OrderedMap.get?_eq_some.mp hspec, Bool.and_eq_true _ _ |>.mpr ⟨rfl, decide_eq_true hnot⟩⟩
  rw [hmissing] at hmem
  exact List.not_mem_nil hmem

theorem Applied.required (h : Applied (.obj fields) rule env out payload acc created)
    (hspec : rule.fields.get? key = some (.relation name true pinned))
    (hserver : ¬ ServerSet rule key) :
    ∃ input check before answer, input.singleTarget = true ∧
      env.relationChecks name = some check ∧ check input before = some answer ∧
      out.get? key = toStrapiRelation answer ∧
      (KeepsTarget check → ∃ documentId, out.get? key = some (setOf [documentId])) := by
  obtain ⟨raw, hsent⟩ := required_sent h hspec
  obtain ⟨input, hone, check, before, answer, hsupplied, hanswer, hresult⟩ :=
    h.relation hspec hserver hsent
  refine ⟨input, check, before, answer, hone rfl, hsupplied, hanswer, hresult, ?_⟩
  intro hkeeps
  obtain ⟨documentId, htarget⟩ :=
    hkeeps input before answer hanswer (singleTarget_target (hone rfl))
  refine ⟨documentId, hresult.trans ?_⟩
  unfold toStrapiRelation
  rw [htarget]
  rfl

theorem confined_of_applied (h : Applied (.obj fields) rule env out payload acc created) :
    Confined rule env fields out := by
  have hsent : ∀ key raw, (OrderedMap.ofList fields).get? key = some raw →
      payload.get? key = some raw := payloadOf_keys h.sent
  constructor
  · intro key hkey
    obtain ⟨raw, hraw⟩ := OrderedMap.mem_keys.mp (OrderedMap.mem_keys_ofList.mpr hkey)
    exact (h.read (hsent key raw hraw)).field
  · intro key raw check hraw hcheck
    exact (h.read (hsent key raw hraw)).plain hcheck
  · refine ⟨payload, h.sent, ?_⟩
    intro key hserver
    rw [out_of_not_serverSet h hserver]
    exact ⟨_, h.sound.entries key⟩
  · exact fun key name pinned hspec hserver => h.required hspec hserver
  · intro key hkey
    rw [get?_out h, get?_callerValues, if_pos hkey]
    rfl
  · intro hcreate key derive hderive hcaller
    have hvalue := createValues_spec h.server hcreate key
    rw [hderive] at hvalue
    obtain ⟨value, hok, hcreated⟩ := hvalue
    refine ⟨value, hok, ?_⟩
    rw [get?_out h, get?_callerValues, if_neg hcaller, hcreated]
    rfl
  · exact fun flag targets hflag hall => flag_all_links_none h hflag hall
  · exact fun flag targets before hflag hmatched hafter => flag_stays_narrow h hflag hmatched hafter

end Confined

/-- A key of the payload that no field reads, or whose value its field refuses. -/
def Refused (rule : WriteRule) (data : Json) : Prop :=
  ∃ fields key raw, data = .obj fields ∧ (OrderedMap.ofList fields).get? key = some raw ∧
    (readKey rule key raw).refusal ≠ none

/-- A refused key or value ends the write before any check is asked. -/
theorem refused_before_asking {rule : WriteRule} {env : WriteRuleEnvironment} {data : Json}
    (h : Refused rule data) :
    ∃ e, applyWriteRule data rule env = ⟨.error e, []⟩ := by
  obtain ⟨fields, key, raw, rfl, hraw, hrefusal⟩ := h
  cases hpayload : payloadOf (.obj fields) rule env with
  | error e =>
      refine ⟨e, ?_⟩
      unfold applyWriteRule
      rw [hpayload]
      exact Gate.bind_error rfl
  | ok payload =>
      obtain ⟨keys, codes, hread⟩ :=
        readPayload_error (Or.inl ⟨key, raw, payloadOf_keys hpayload key raw hraw, hrefusal⟩)
      exact ⟨_, refused_asks_nothing hpayload hread⟩

section Authoring

variable {env : WriteRuleEnvironment} {dir : Directory} {mine : Option CallerDepartment}
  {ref ref' : RelationRef} {table : Table}

theorem toOneCheck_same (h : rowOf dir table ref = rowOf dir table ref')
    (accept : TargetRow → Bool) (options : ToOneOptions) (before : List (String × ResolvedToOne)) :
    toOneCheck dir table accept options ⟨some (some ref), []⟩ before =
      toOneCheck dir table accept options ⟨some (some ref'), []⟩ before := by
  simp only [toOneCheck, h, reduceCtorEq, Option.some.injEq]

theorem listCheck_same (h : rowOf dir table ref = rowOf dir table ref')
    (accept : TargetRow → Bool) (front back : List RelationRef) :
    listCheck dir table accept (front ++ ref :: back) =
      listCheck dir table accept (front ++ ref' :: back) := by
  simp only [listCheck, List.mapM_append, List.mapM_cons, h]

/-- The authoring checks do not tell the refs of one row apart. -/
theorem sameTarget_of_row (supplied : env.relationChecks = authoringRelationChecks dir mine)
    {name : RelationCheckName} (htable : name.table = some table)
    (h : rowOf dir table ref = rowOf dir table ref') : SameTarget env name ref ref' := by
  intro check before hcheck
  rw [supplied] at hcheck
  cases name with
  | wikiSpace => cases htable
  | wikiParent => cases htable
  | callerDepartment | teamOfCallerDepartment =>
      cases htable
      unfold authoringRelationChecks at hcheck
      dsimp only at hcheck
      split at hcheck
      · cases hcheck
        rfl
      · cases hcheck
        exact toOneCheck_same h _ _ before
  | _ =>
      cases htable
      cases hcheck
      exact toOneCheck_same h _ _ before

theorem sameElement_of_row (supplied : env.relationListChecks = authoringListChecks dir mine)
    {name : RelationListCheckName} (h : rowOf dir name.table ref = rowOf dir name.table ref') :
    SameElement env name ref ref' := by
  intro check front back hcheck
  rw [supplied] at hcheck
  cases name with
  | callerDepartments =>
      cases hcheck
      have hlist : listCheck dir .departments (isMine mine) (front ++ ref :: back) =
          listCheck dir .departments (isMine mine) (front ++ ref' :: back) :=
        listCheck_same h _ front back
      have hsome (ref : RelationRef) : front ++ ref :: back ≠ [] := by simp
      unfold callerDepartments
      rw [hlist]
      simp only [hsome, or_false]
  | _ =>
      cases hcheck
      exact listCheck_same h _ front back

end Authoring

/-- An accepted write is confined to its rule; payloads that spell the same targets are answered
alike, where the authoring checks take the refs of a row for the same; a refused key or value is
asked nothing; and the flags of the allowlist are targeting flags. -/
theorem write_payload_confined (rule : WriteRule) (env : WriteRuleEnvironment) :
    (∀ data out, (applyWriteRule data rule env).result = .ok out →
      ∃ fields, data = .obj fields ∧ Confined rule env fields out) ∧
    (∀ fields fields', SamePayload rule env (.ofList fields) (.ofList fields') →
      applyWriteRule (.obj fields) rule env = applyWriteRule (.obj fields') rule env) ∧
    (∀ dir mine, env.relationChecks = authoringRelationChecks dir mine →
      env.relationListChecks = authoringListChecks dir mine →
      (∀ name table ref ref', RelationCheckName.table name = some table →
        rowOf dir table ref = rowOf dir table ref' → SameTarget env name ref ref') ∧
      ∀ name ref ref', rowOf dir (RelationListCheckName.table name) ref =
        rowOf dir (RelationListCheckName.table name) ref' → SameElement env name ref ref') ∧
    (∀ data, Refused rule data → ∃ e, applyWriteRule data rule env = ⟨.error e, []⟩) ∧
    ∀ v : Validators, ∀ entry ∈ flaggedRules v, TargetFlag entry.1 entry.2.1 entry.2.2 := by
  refine ⟨?_, fun fields fields' => applyWriteRule_same, ?_, fun data => refused_before_asking,
    flaggedRules_targetFlag⟩
  case refine_2 =>
    intro dir mine hrelations hlists
    exact ⟨fun name table ref ref' htable h => sameTarget_of_row hrelations htable h,
      fun name ref ref' h => sameElement_of_row hlists h⟩
  intro data out h
  obtain ⟨payload, acc, created, happlied⟩ := applyWriteRule_ok h
  cases data with
  | obj fields => exact ⟨fields, rfl, confined_of_applied happlied⟩
  | _ => cases happlied.sent

/-- A department that is required, and the flag derived from it. -/
def departmentRule : WriteRule :=
  ruleOf [("department", .relation .department true false)]
    [("audience", audienceOf ["department"])] none false

/-- An update that finds the department `sales` under the id 7. -/
def departmentEnv : WriteRuleEnvironment where
  callerId := 1
  action := some .update
  relationChecks name :=
    if name = .department then
      some fun input _ =>
        if input.target = some (some (.id 7)) then some ⟨some (some "sales"), []⟩ else none
    else none
  relationListChecks _ := none
  roleTypesCheck := none
  mediaChecks _ := none
  frozenChecks _ := none
  existing := none
  published := none
  callerDepartment := none
  readiness := none
  now := none

theorem write_payload_confined_department :
    ∃ out, (applyWriteRule (.obj [("department", .str "7")]) departmentRule departmentEnv).result =
        .ok out ∧
      Confined departmentRule departmentEnv [("department", .str "7")] out ∧
      out.get? "department" = some (setOf ["sales"]) := by
  have hrun : (applyWriteRule (.obj [("department", .str "7")]) departmentRule
      departmentEnv).result = .ok (.ofList [("department", setOf ["sales"]),
        ("audience", .str AUDIENCE_DEPARTMENTS)]) := rfl
  obtain ⟨fields, hfields, hconfined⟩ := (write_payload_confined departmentRule departmentEnv).1 _ _ hrun
  cases hfields
  exact ⟨_, hrun, hconfined, rfl⟩

end Sinnlos.Cms.Write

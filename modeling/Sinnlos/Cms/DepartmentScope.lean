import Sinnlos.Cms.DepartmentAuthors

/-!
# Department authors stay in their department

Whatever an author's payload holds, the rows they write are owned by their
department and in its scope, over whole runs of authors' requests.
-/

namespace Sinnlos.Cms.Write

open Runs

/-! ## Lookups -/

section Lookups

variable {dir : Directory} {table : Table} {row : TargetRow}

theorem mem_rowOf {ref : RelationRef} (h : rowOf dir table ref = some row) :
    row ∈ dir.rows table := List.mem_of_find?_eq_some h

/-- A row is found under its documentId. -/
theorem rowOf_documentId (hrow : row ∈ dir.rows table) :
    rowOf dir table (.documentId row.documentId) = some row :=
  Lookup.find_own_key (dir.unique table) hrow

theorem roleOf_documentId {role : RoleRow} (hrole : role ∈ dir.roles) :
    (dir.roles.find? fun row => row.documentId = role.documentId) = some role :=
  Lookup.find_own_key dir.uniqueRoles hrole

/-- A check for one target or null answers null, or the document of an accepted row. -/
theorem toOneCheck_exact {accept : TargetRow → Bool} {options : ToOneOptions}
    {input : ToOneRelationInput} {before : List (String × ResolvedToOne)} {answer : ResolvedToOne}
    (h : toOneCheck dir table accept options input before = some answer)
    (hrequire : options.requireTarget = true) :
    (options.allowClear = true ∧ answer.target = some none) ∨
      ∃ row ∈ dir.rows table, accept row = true ∧
        answer.target = some (some row.documentId) := by
  unfold toOneCheck at h
  split at h
  · cases h
  · rename_i hclear
    split at h
    · cases h
    · split at h
      · cases h
      · rename_i hnone
        obtain ⟨target, htarget, h⟩ := Option.bind_eq_some_iff.mp h
        obtain ⟨disconnect, _, rfl⟩ := Option.map_eq_some_iff.mp h
        cases hinput : input.target with
        | none => exact absurd ⟨hinput, hrequire⟩ hnone
        | some asked =>
            rw [hinput] at htarget
            cases asked with
            | none =>
                cases htarget
                rw [hinput] at hclear
                left
                refine ⟨?_, rfl⟩
                cases hallow : options.allowClear with
                | true => rfl
                | false => exact absurd ⟨rfl, hallow⟩ hclear
            | some ref =>
                obtain ⟨row, hrow, rfl⟩ := Option.map_eq_some_iff.mp htarget
                obtain ⟨hfound, haccept⟩ := Option.filter_eq_some_iff.mp hrow
                exact Or.inr ⟨row, mem_rowOf hfound, haccept, rfl⟩

variable {documentIds : List String}

/-- Exactly one row is linked where the caller's departments are asked for. -/
theorem callerDepartments_answer {department : CallerDepartment} {refs : List RelationRef}
    (h : callerDepartments dir (some department) refs = some documentIds) :
    ∃ row ∈ dir.rows .departments, row.id = department.id ∧ documentIds = [row.documentId] := by
  unfold callerDepartments at h
  split at h
  · cases h
  · obtain ⟨hlist, hone⟩ := Option.filter_eq_some_iff.mp h
    obtain ⟨documentId, rfl⟩ := List.length_eq_one_iff.mp (of_decide_eq_true hone)
    obtain ⟨named, hnamed, hdistinct⟩ := Option.map_eq_some_iff.mp hlist
    have hmem : documentId ∈ named := by
      rw [← List.mem_eraseDups, hdistinct]
      exact List.mem_singleton.mpr rfl
    obtain ⟨ref, _, href⟩ := Lookup.mem_of_mapM hnamed hmem
    obtain ⟨row, hrow, rfl⟩ := Option.map_eq_some_iff.mp href
    obtain ⟨hfound, haccept⟩ := Option.filter_eq_some_iff.mp hrow
    exact ⟨row, mem_rowOf hfound, of_decide_eq_true haccept, rfl⟩

/-- The roles that are answered have the types asked for. -/
theorem roleTypesCheck_answer {types : List String}
    (h : roleTypesCheck dir types = some documentIds) {documentId : String}
    (hmem : documentId ∈ documentIds) :
    ∃ role ∈ dir.roles, role.documentId = documentId ∧ role.type ∈ types := by
  unfold roleTypesCheck at h
  split at h
  · obtain ⟨type, htype, hfind⟩ := Lookup.mem_of_mapM h hmem
    obtain ⟨role, hrole, rfl⟩ := Option.map_eq_some_iff.mp hfind
    have hsame : role.type = type := Lookup.key_of_find hrole
    exact ⟨role, List.mem_of_find?_eq_some hrole, rfl, hsame ▸ htype⟩
  · cases h

end Lookups

/-! ## Rules of department authors -/

/-- The relations that decide the scope of a type, as its rule lists them. -/
def scopeFields : DepartmentAuthored → List (String × FieldSpec)
  | .announcement =>
      [("department", .relation .callerDepartment false true),
        ("team", toOne .teamOfCallerDepartment), ("audienceRoles", roleTypes STAFF_ROLES)]
  | .event | .document => [("departments", toCallerDepartments)]
  | .dutyPlan | .kpi => [("department", .relation .callerDepartment false true)]

/-- The rule lists the relations of the scope, and sets none of them but the owner on create. -/
structure ScopeRule (rule : WriteRule) (uid : DepartmentAuthored) : Prop where
  fields : ∀ field ∈ scopeFields uid,
    rule.fields.get? field.1 = some field.2 ∧ ¬ ServerSet rule field.1
  owner : rule.fields.get? "ownerDepartment" = none
  ownerNotDerived : "ownerDepartment" ∉ rule.derivedFields.keys
  ownerNotMerged : "ownerDepartment" ∉ rule.derivedFromMerged.keys
  ownerNotCaller : "ownerDepartment" ∉ rule.callerFields

/-- The update rule of a type, and its create rule with the owner. -/
structure ScopeRules (update create : WriteRule) (uid : DepartmentAuthored) : Prop where
  onUpdate : ScopeRule update uid
  ownerKept : "ownerDepartment" ∉ update.derivedOnCreate.keys
  onCreate : ScopeRule create uid
  ownerSet : create.derivedOnCreate.get? "ownerDepartment" = some OWNER_DEPARTMENT

variable {fields : List (String × FieldSpec)} {derived : List (String × MergedDerivation)}
  {crossCheck : Option CrossCheck} {ready : Bool}

theorem not_serverSet_ruleOf {key : String}
    (hderived : OrderedMap.find key derived.reverse = none) :
    ¬ ServerSet (ruleOf fields derived crossCheck ready) key := by
  intro hset
  rcases hset with hplain | hmerged | hcreate | hcaller
  · exact List.not_mem_nil hplain
  · exact OrderedMap.get?_eq_none.mp ((OrderedMap.get?_ofList derived key).trans hderived) hmerged
  · exact List.not_mem_nil hcreate
  · exact List.not_mem_nil hcaller

theorem scopeRules_of {uid : DepartmentAuthored} {callerField : String}
    (listed : ∀ field ∈ scopeFields uid, OrderedMap.find field.1 fields.reverse = some field.2)
    (inOrder : ((scopeFields uid).all fun field =>
      (OrderedMap.find field.1 derived.reverse).isNone &&
        decide (field.1 ≠ callerField ∧ field.1 ≠ "ownerDepartment")) = true)
    (owner : OrderedMap.find "ownerDepartment" fields.reverse = none)
    (ownerNotMerged : OrderedMap.find "ownerDepartment" derived.reverse = none)
    (ownerNotCaller : "ownerDepartment" ≠ callerField) :
    ScopeRules (ruleOf fields derived crossCheck ready)
      (createOf (ruleOf fields derived crossCheck ready) callerField true) uid := by
  have hfield (field : String × FieldSpec) (hmem : field ∈ scopeFields uid) :
      (ruleOf fields derived crossCheck ready).fields.get? field.1 = some field.2 :=
    (OrderedMap.get?_ofList fields field.1).trans (listed field hmem)
  have horder (field : String × FieldSpec) (hmem : field ∈ scopeFields uid) :
      OrderedMap.find field.1 derived.reverse = none ∧ field.1 ≠ callerField ∧
        field.1 ≠ "ownerDepartment" := by
    have hboth := List.all_eq_true.mp inOrder field hmem
    rw [Bool.and_eq_true, Option.isNone_iff_eq_none, decide_eq_true_eq] at hboth
    exact hboth
  have howner : (ruleOf fields derived crossCheck ready).fields.get? "ownerDepartment" = none :=
    (OrderedMap.get?_ofList fields "ownerDepartment").trans owner
  have hmerged : "ownerDepartment" ∉ (ruleOf fields derived crossCheck ready).derivedFromMerged.keys :=
    OrderedMap.get?_eq_none.mp ((OrderedMap.get?_ofList derived "ownerDepartment").trans ownerNotMerged)
  constructor
  · refine ⟨fun field hmem => ⟨hfield field hmem, ?_⟩, howner, List.not_mem_nil, hmerged,
      List.not_mem_nil⟩
    exact not_serverSet_ruleOf (horder field hmem).1
  · exact List.not_mem_nil
  · refine ⟨fun field hmem => ⟨hfield field hmem, ?_⟩, howner, List.not_mem_nil, hmerged,
      fun hmem => ownerNotCaller (List.mem_singleton.mp hmem)⟩
    obtain ⟨hderived, hcaller, hname⟩ := horder field hmem
    have hupdate : ¬ ServerSet (ruleOf fields derived crossCheck ready) field.1 :=
      not_serverSet_ruleOf hderived
    intro hset
    rcases hset with hplain | hmerged | hcreate | hcallerField
    · exact hupdate (Or.inl hplain)
    · exact hupdate (Or.inr (Or.inl hmerged))
    · exact hname (List.mem_singleton.mp hcreate)
    · exact hcaller (List.mem_singleton.mp hcallerField)
  · rfl

/-- The rules of every type that department authors write. -/
theorem departmentAuthorRule_scope (v : Validators) (uid : DepartmentAuthored) :
    ScopeRules (departmentAuthorRule v uid .update) (departmentAuthorRule v uid .create) uid := by
  cases uid with
  | announcement =>
      apply scopeRules_of
      · exact List.forall_mem_cons.mpr ⟨rfl, List.forall_mem_cons.mpr ⟨rfl,
          List.forall_mem_cons.mpr ⟨rfl, fun _ hmem => absurd hmem List.not_mem_nil⟩⟩⟩
      · rfl
      · rfl
      · rfl
      · decide
  | event | document | dutyPlan | kpi =>
      apply scopeRules_of
      · exact List.forall_mem_cons.mpr ⟨rfl, fun _ hmem => absurd hmem List.not_mem_nil⟩
      · rfl
      · rfl
      · rfl
      · decide

/-! ## Rows after a write -/

section Written

variable {dir : Directory} {author : DepartmentAuthor dir} {action : WriteAction}
  {request : WriteRuleEnvironment} {rule : WriteRule} {data : Json} {out payload : Record}
  {acc : Accepted} {created : Record} {row : Row} {table : Table} {target : TargetRow}

theorem relationId_single (h : target ∈ dir.rows table) :
    relationId dir table [target.documentId] = some target.id := by
  unfold relationId
  rw [List.head?_cons, Option.bind_some, rowOf_documentId h]
  rfl

theorem relationIds_single (h : target ∈ dir.rows table) :
    relationIds dir table [target.documentId] = [target.id] := by
  unfold relationIds
  rw [List.filterMap_cons, rowOf_documentId h]
  rfl

/-- The links that a relation resolved to one target or null leaves. -/
theorem linksAfter_target {answer : ResolvedToOne} {target : Option String}
    (h : answer.target = some target) (stored : List String) :
    linksAfter stored (toStrapiRelation answer) = target.toList := by
  unfold toStrapiRelation
  rw [h]
  cases target with
  | none => rfl
  | some documentId => exact linksAfter_set stored [documentId]

theorem not_media_of_relation {key : String} {name : RelationCheckName} {required pinned : Bool}
    (hspec : rule.fields.get? key = some (.relation name required pinned)) (media : MediaCheckName) :
    rule.fields.get? key ≠ some (.media media) := by
  rw [hspec]
  intro heq
  cases heq

/-- The department stays the author's, or becomes it. -/
theorem department_written
    (h : Applied data rule (authorEnv author action request) out payload acc created)
    (hspec : rule.fields.get? "department" = some (.relation .callerDepartment false true))
    (hserver : ¬ ServerSet rule "department")
    (hbefore : relationId dir .departments (row "department") = some author.department.id ∨
      "department" ∈ payload.keys) :
    relationId dir .departments (writeRow row out "department") = some author.department.id := by
  unfold writeRow
  by_cases hsent : "department" ∈ payload.keys
  · obtain ⟨raw, hraw⟩ := OrderedMap.mem_keys.mp hsent
    obtain ⟨input, _, check, before, answer, hsupplied, hanswer, hout⟩ :=
      h.relation hspec hserver hraw
    have hcheck : check =
        toOneCheck dir .departments (isMine (some author.department)) EXACTLY_ONE := by
      cases hsupplied
      rfl
    subst hcheck
    rcases toOneCheck_exact hanswer rfl with hclear | htarget
    · cases hclear.1
    · obtain ⟨target, hrow, haccept, htarget⟩ := htarget
      have hmine : target.id = author.department.id := of_decide_eq_true haccept
      rw [hout, linksAfter_target htarget, Option.toList_some, relationId_single hrow, hmine]
  · rw [h.unsent hsent (not_media_of_relation hspec) hserver]
    exact hbefore.resolve_right hsent

/-- The departments stay the author's alone, or become it. -/
theorem departments_written
    (h : Applied data rule (authorEnv author action request) out payload acc created)
    (hspec : rule.fields.get? "departments" = some toCallerDepartments)
    (hserver : ¬ ServerSet rule "departments")
    (hbefore : relationIds dir .departments (row "departments") = [author.department.id] ∨
      "departments" ∈ payload.keys) :
    relationIds dir .departments (writeRow row out "departments") = [author.department.id] := by
  unfold writeRow
  by_cases hsent : "departments" ∈ payload.keys
  · obtain ⟨raw, hraw⟩ := OrderedMap.mem_keys.mp hsent
    obtain ⟨refs, check, documentIds, hsupplied, hanswer, hout⟩ := h.list hspec hserver hraw
    have hcheck : check = callerDepartments dir (some author.department) := by
      cases hsupplied
      rfl
    subst hcheck
    obtain ⟨target, hrow, hmine, rfl⟩ := callerDepartments_answer hanswer
    rw [hout, linksAfter_set, relationIds_single hrow, hmine]
  · have hmedia (media : MediaCheckName) : rule.fields.get? "departments" ≠ some (.media media) := by
      rw [hspec]
      intro heq
      cases heq
    rw [h.unsent hsent hmedia hserver]
    exact hbefore.resolve_right hsent

/-- The team stays one of the department, or none. -/
theorem team_written
    (h : Applied data rule (authorEnv author action request) out payload acc created)
    (hspec : rule.fields.get? "team" = some (toOne .teamOfCallerDepartment))
    (hserver : ¬ ServerSet rule "team")
    (hbefore : teamInScope dir row author.department = true) :
    teamInScope dir (writeRow row out) author.department = true := by
  unfold teamInScope writeRow
  by_cases hsent : "team" ∈ payload.keys
  · obtain ⟨raw, hraw⟩ := OrderedMap.mem_keys.mp hsent
    obtain ⟨input, _, check, before, answer, hsupplied, hanswer, hout⟩ :=
      h.relation hspec hserver hraw
    have hcheck : check =
        toOneCheck dir .teams (inMine (some author.department)) EXACTLY_ONE_OR_CLEAR := by
      cases hsupplied
      rfl
    subst hcheck
    rcases toOneCheck_exact hanswer rfl with hclear | htarget
    · rw [hout, linksAfter_target hclear.2]
      rfl
    · obtain ⟨target, hrow, haccept, htarget⟩ := htarget
      have hmine : target.department = some author.department.id := of_decide_eq_true haccept
      rw [hout, linksAfter_target htarget, Option.toList_some, List.head?_cons, Option.bind_some,
        rowOf_documentId hrow]
      exact decide_eq_true hmine
  · rw [h.unsent hsent (not_media_of_relation hspec) hserver]
    exact hbefore

/-- The audience roles stay staff roles. -/
theorem roles_written
    (h : Applied data rule (authorEnv author action request) out payload acc created)
    (hspec : rule.fields.get? "audienceRoles" = some (roleTypes STAFF_ROLES))
    (hserver : ¬ ServerSet rule "audienceRoles") (hbefore : rolesInScope dir row = true) :
    rolesInScope dir (writeRow row out) = true := by
  unfold rolesInScope writeRow
  rcases h.roles hspec hserver with hnone | hsome
  · rw [hnone]
    exact hbefore
  · obtain ⟨types, documentIds, hallowed, hanswer, hout⟩ := hsome
    rw [hout, linksAfter_set, List.all_eq_true]
    intro documentId hmem
    rcases hanswer with hempty | hchecked
    · rw [hempty] at hmem
      cases hmem
    · obtain ⟨check, hsupplied, hroles⟩ := hchecked
      cases hsupplied
      obtain ⟨role, hrole, rfl, htype⟩ := roleTypesCheck_answer hroles hmem
      rw [roleOf_documentId hrole]
      exact decide_eq_true (hallowed role.type htype)

/-- What a row needs before the write: each relation of its scope in order, or sent. -/
structure ScopeBefore (dir : Directory) (uid : DepartmentAuthored) (row : Row) (payload : Record)
    (department : CallerDepartment) : Prop where
  single : ("department", FieldSpec.relation .callerDepartment false true) ∈ scopeFields uid →
    relationId dir .departments (row "department") = some department.id ∨
      "department" ∈ payload.keys
  several : ("departments", toCallerDepartments) ∈ scopeFields uid →
    relationIds dir .departments (row "departments") = [department.id] ∨
      "departments" ∈ payload.keys
  team : uid = .announcement → teamInScope dir row department = true
  roles : uid = .announcement → rolesInScope dir row = true

theorem scope_written {uid : DepartmentAuthored} (scope : ScopeRule rule uid)
    (h : Applied data rule (authorEnv author action request) out payload acc created)
    (howner : relationId dir .departments (writeRow row out "ownerDepartment") =
      some author.department.id)
    (hbefore : ScopeBefore dir uid row payload author.department) :
    rowInDepartmentScope dir uid (writeRow row out) author.department = true := by
  unfold rowInDepartmentScope
  rw [Bool.and_eq_true]
  refine ⟨decide_eq_true howner, ?_⟩
  have hlisted := scope.fields
  cases uid with
  | announcement =>
      have hfield := hlisted _ List.mem_cons_self
      have hteam := hlisted _ (List.mem_cons_of_mem _ List.mem_cons_self)
      have hroles := hlisted _ (List.mem_cons_of_mem _ (List.mem_cons_of_mem _ List.mem_cons_self))
      dsimp only
      rw [Bool.and_eq_true, Bool.and_eq_true]
      refine ⟨⟨?_, ?_⟩, ?_⟩
      · exact decide_eq_true (department_written h hfield.1 hfield.2
          (hbefore.single List.mem_cons_self))
      · exact team_written h hteam.1 hteam.2 (hbefore.team rfl)
      · exact roles_written h hroles.1 hroles.2 (hbefore.roles rfl)
  | event | document =>
      have hfield := hlisted _ List.mem_cons_self
      exact decide_eq_true (departments_written h hfield.1 hfield.2
        (hbefore.several List.mem_cons_self))
  | dutyPlan | kpi =>
      have hfield := hlisted _ List.mem_cons_self
      exact decide_eq_true (department_written h hfield.1 hfield.2
        (hbefore.single List.mem_cons_self))

end Written

/-! ## Updates and creates -/

section Writes

variable {dir : Directory} {author : DepartmentAuthor dir} {request : WriteRuleEnvironment}
  {v : Validators} {uid : DepartmentAuthored} {data : Json} {out : Record} {row : Row}

/-- A row in scope has all that an update asks of it. -/
theorem scopeBefore_of_scope {department : CallerDepartment}
    (h : rowInDepartmentScope dir uid row department = true) (payload : Record) :
    relationId dir .departments (row "ownerDepartment") = some department.id ∧
      ScopeBefore dir uid row payload department := by
  unfold rowInDepartmentScope at h
  rw [Bool.and_eq_true] at h
  obtain ⟨howner, hrest⟩ := h
  refine ⟨of_decide_eq_true howner, ?_⟩
  cases uid with
  | announcement =>
      dsimp only at hrest
      rw [Bool.and_eq_true, Bool.and_eq_true] at hrest
      obtain ⟨⟨hdepartment, hteam⟩, hroles⟩ := hrest
      constructor
      · exact fun _ => Or.inl (of_decide_eq_true hdepartment)
      · intro hmem
        simp [scopeFields] at hmem
      · exact fun _ => hteam
      · exact fun _ => hroles
  | event | document =>
      constructor
      · intro hmem
        simp [scopeFields] at hmem
      · exact fun _ => Or.inl (of_decide_eq_true hrest)
      · exact fun huid => by cases huid
      · exact fun huid => by cases huid
  | dutyPlan | kpi =>
      constructor
      · exact fun _ => Or.inl (of_decide_eq_true hrest)
      · intro hmem
        simp [scopeFields] at hmem
      · exact fun huid => by cases huid
      · exact fun huid => by cases huid

/-- An update keeps a row in scope. -/
theorem update_in_scope (h : (applyWriteRule data (departmentAuthorRule v uid .update)
      (authorEnv author .update request)).result = .ok out)
    (hrow : rowInDepartmentScope dir uid row author.department = true) :
    rowInDepartmentScope dir uid (writeRow row out) author.department = true := by
  obtain ⟨payload, acc, created, happlied⟩ := applyWriteRule_ok h
  have hrules := departmentAuthorRule_scope v uid
  obtain ⟨howner, hbefore⟩ := scopeBefore_of_scope hrow payload
  apply scope_written hrules.onUpdate happlied _ hbefore
  have hserver : ¬ ServerSet (departmentAuthorRule v uid .update) "ownerDepartment" := by
    unfold ServerSet
    rw [not_or, not_or, not_or]
    exact ⟨hrules.onUpdate.ownerNotDerived, hrules.onUpdate.ownerNotMerged, hrules.ownerKept,
      hrules.onUpdate.ownerNotCaller⟩
  have hnone : out.get? "ownerDepartment" = none :=
    (out_of_not_serverSet happlied hserver).trans
      ((happlied.sound.entries "ownerDepartment").of_no_field hrules.onUpdate.owner)
  unfold writeRow
  rw [hnone]
  exact howner

/-- A new row is in scope. -/
theorem create_in_scope
    (h : (applyWriteRule data (departmentAuthorRule v uid .create)
      (authorEnv author .create request)).result = .ok out) :
    rowInDepartmentScope dir uid (writeRow (fun _ => []) out) author.department = true := by
  obtain ⟨payload, acc, created, happlied⟩ := applyWriteRule_ok h
  have hrules := departmentAuthorRule_scope v uid
  have hpinned (field : String × FieldSpec) (hfield : field ∈ scopeFields uid)
      (hpin : field.2.pinned.isSome = true) : field.1 ∈ payload.keys := by
    have hsent := happlied.sent
    cases data with
    | obj fields =>
        have hpinning : pinCallerDepartment (departmentAuthorRule v uid .create)
            (authorEnv author .create request) (.ofList fields) = .ok payload := hsent
        unfold pinCallerDepartment at hpinning
        exact pinned_sent hpinning
          (OrderedMap.get?_eq_some.mp (hrules.onCreate.fields field hfield).1) hpin
    | _ => cases hsent
  apply scope_written hrules.onCreate happlied
  · have hvalue := createValues_spec happlied.server rfl "ownerDepartment"
    rw [hrules.ownerSet] at hvalue
    obtain ⟨value, howner, hcreated⟩ := hvalue
    cases howner
    obtain ⟨target, htarget, hid, hdocument⟩ := author.listed
    have hout : out.get? "ownerDepartment" = some (setOf [author.department.documentId]) := by
      rw [get?_out happlied, get?_callerValues, if_neg hrules.onCreate.ownerNotCaller, hcreated]
      rfl
    unfold writeRow
    rw [hout, linksAfter_set, ← hdocument, relationId_single htarget, hid]
  · constructor
    · exact fun hmem => Or.inr (hpinned _ hmem rfl)
    · exact fun hmem => Or.inr (hpinned _ hmem rfl)
    · exact fun _ => rfl
    · exact fun _ => rfl

end Writes

/-! ## Requests of authors -/

section Steps

variable {dir : Directory} {v : Validators} {docs docs' : Documents} {step : AuthorStep dir}

theorem put_same (docs : Documents) (uid : DepartmentAuthored) (documentId : String)
    (doc : DocumentRows) : docs.put uid documentId doc uid documentId = some doc :=
  if_pos ⟨rfl, rfl⟩

variable {uid : DepartmentAuthored}

theorem put_other (docs : Documents) {uid' : DepartmentAuthored} {documentId documentId' : String}
    (doc : DocumentRows) (h : ¬ (uid' = uid ∧ documentId' = documentId)) :
    docs.put uid documentId doc uid' documentId' = docs uid' documentId' :=
  if_neg h

variable {department : CallerDepartment}

theorem owns_of_rows {draft : Row} {published : Option Row}
    (hdraft : rowInDepartmentScope dir uid draft department = true)
    (hpublished : published.all (fun row => rowInDepartmentScope dir uid row department) = true) :
    departmentAuthorOwns dir uid ⟨draft, published⟩ department = true := by
  unfold departmentAuthorOwns
  rw [Bool.and_eq_true]
  exact ⟨hdraft, hpublished⟩

theorem owns_writeDraft {row : Row} {before : Option Row} (published : Bool)
    (hrow : rowInDepartmentScope dir uid row department = true)
    (hbefore : before.all (fun row => rowInDepartmentScope dir uid row department) = true) :
    departmentAuthorOwns dir uid (writeDraft row before published) department = true := by
  unfold writeDraft
  cases published with
  | true => exact owns_of_rows hrow hrow
  | false => exact owns_of_rows hrow hbefore

/-- A request that is carried out writes the one document it names, which was new or the author's,
and leaves it owned and in scope. -/
theorem authorStep_spec (h : authorStep v docs step = some docs') :
    (∀ doc, docs step.uid step.documentId = some doc →
      departmentAuthorOwns dir step.uid doc step.author.department = true) ∧
    ∃ doc, docs' = docs.put step.uid step.documentId doc ∧
      departmentAuthorOwns dir step.uid doc step.author.department = true := by
  unfold authorStep at h
  split at h
  · rename_i data request published hstored haction
    constructor
    · intro doc hdoc
      rw [hstored] at hdoc
      cases hdoc
    · split at h
      · cases h
      · rename_i out hout
        cases h
        exact ⟨_, rfl, owns_writeDraft published (create_in_scope hout) rfl⟩
  · cases h
  · cases h
  · rename_i doc hstored hnotCreate
    by_cases howns : departmentAuthorOwns dir step.uid doc step.author.department = true
    · rw [if_neg (by rw [howns]; decide)] at h
      have hboth := howns
      unfold departmentAuthorOwns at hboth
      rw [Bool.and_eq_true] at hboth
      obtain ⟨hdraft, hpublished⟩ := hboth
      constructor
      · intro stored hdoc
        rw [hstored] at hdoc
        cases hdoc
        exact howns
      · split at h
        · cases h
        · rename_i data request published haction
          split at h
          · cases h
          · rename_i out hout
            cases h
            exact ⟨_, rfl, owns_writeDraft published (update_in_scope hout hdraft) hpublished⟩
        · cases h
          exact ⟨_, rfl, owns_of_rows hdraft hdraft⟩
        · cases h
          exact ⟨_, rfl, owns_of_rows hdraft rfl⟩
        · split at h
          · cases h
          · rename_i row hrow
            cases h
            rw [hrow] at hpublished
            exact ⟨_, rfl, owns_of_rows hpublished hpublished⟩
    · rw [if_pos (Bool.not_eq_true _ |>.mp howns)] at h
      cases h

end Steps

end Sinnlos.Cms.Write

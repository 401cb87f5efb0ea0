import Sinnlos.Cms.DepartmentScope

/-!
# Runs of department authors

Any sequence of authors' requests keeps what is in a department's scope there,
and leaves what is in no acting author's scope as it is.
-/

namespace Sinnlos.Cms.Write

open Runs

section Runs

variable {dir : Directory} {v : Validators} {docs docs' : Documents} {uid : DepartmentAuthored}
  {documentId : String} {department department' : CallerDepartment} {step : AuthorStep dir}

/-- The scope of a department is that of its id. -/
theorem rowInDepartmentScope_congr (h : department.id = department'.id) (row : Row) :
    rowInDepartmentScope dir uid row department = rowInDepartmentScope dir uid row department' := by
  unfold rowInDepartmentScope teamInScope
  rw [h]

theorem departmentAuthorOwns_congr (h : department.id = department'.id) (doc : DocumentRows) :
    departmentAuthorOwns dir uid doc department = departmentAuthorOwns dir uid doc department' := by
  unfold departmentAuthorOwns
  simp only [rowInDepartmentScope_congr h]

variable {doc : DocumentRows}

/-- A document has one owner. -/
theorem owner_unique (h : departmentAuthorOwns dir uid doc department = true)
    (h' : departmentAuthorOwns dir uid doc department' = true) :
    department.id = department'.id := by
  unfold departmentAuthorOwns at h h'
  rw [Bool.and_eq_true] at h h'
  have hfirst := (scopeBefore_of_scope h.1 OrderedMap.empty).1
  have hsecond := (scopeBefore_of_scope h'.1 OrderedMap.empty).1
  rw [hfirst] at hsecond
  exact Option.some.inj hsecond

/-- The document is stored, owned by the department and in its scope. -/
def InScope (dir : Directory) (docs : Documents) (uid : DepartmentAuthored) (documentId : String)
    (department : CallerDepartment) : Prop :=
  ∃ doc, docs uid documentId = some doc ∧ departmentAuthorOwns dir uid doc department = true

/-- No author's request takes a document out of a department's scope. -/
theorem authorStep_keeps (h : authorStep v docs step = some docs')
    (hscope : InScope dir docs uid documentId department) :
    InScope dir docs' uid documentId department := by
  obtain ⟨hbefore, doc', rfl, howns'⟩ := authorStep_spec h
  obtain ⟨doc, hdoc, howns⟩ := hscope
  by_cases hkey : uid = step.uid ∧ documentId = step.documentId
  · obtain ⟨rfl, rfl⟩ := hkey
    have hsame := owner_unique howns (hbefore doc hdoc)
    refine ⟨doc', put_same docs _ _ doc', ?_⟩
    rw [departmentAuthorOwns_congr hsame]
    exact howns'
  · exact ⟨doc, (put_other docs doc' hkey).trans hdoc, howns⟩

/-- What an author's request changes is in the author's scope afterwards. -/
theorem authorStep_changes (h : authorStep v docs step = some docs')
    (hchanged : docs' uid documentId ≠ docs uid documentId) :
    InScope dir docs' uid documentId step.author.department := by
  obtain ⟨_, doc', rfl, howns'⟩ := authorStep_spec h
  by_cases hkey : uid = step.uid ∧ documentId = step.documentId
  · obtain ⟨rfl, rfl⟩ := hkey
    exact ⟨doc', put_same docs _ _ doc', howns'⟩
  · exact absurd (put_other docs doc' hkey) hchanged

/-- A request leaves a document that is not in its author's scope as it is. -/
theorem authorStep_leaves (h : authorStep v docs step = some docs')
    (hdoc : docs uid documentId = some doc)
    (hnot : ¬ departmentAuthorOwns dir uid doc step.author.department = true) :
    docs' uid documentId = some doc := by
  obtain ⟨hbefore, doc', rfl, _⟩ := authorStep_spec h
  by_cases hkey : uid = step.uid ∧ documentId = step.documentId
  · obtain ⟨rfl, rfl⟩ := hkey
    exact absurd (hbefore doc hdoc) hnot
  · exact (put_other docs doc' hkey).trans hdoc

theorem authorRun_keeps {steps : List (AuthorStep dir)} (run : AuthorRun v docs steps docs')
    (hscope : InScope dir docs uid documentId department) :
    InScope dir docs' uid documentId department :=
  run.invariant (P := fun docs => InScope dir docs uid documentId department)
    (fun _ _ _ hstep => authorStep_keeps hstep) hscope

/-- Whatever department authors send, in any order: what is in a department's scope stays in it,
what one of them creates or changes is in the author's scope from then on, and what is in no acting
author's scope is never written. -/
theorem department_authors_confined {steps : List (AuthorStep dir)}
    (run : AuthorRun v docs steps docs') (uid : DepartmentAuthored) (documentId : String) :
    (∀ author : DepartmentAuthor dir, InScope dir docs uid documentId author.department →
      InScope dir docs' uid documentId author.department) ∧
    (∀ before step after mid mid', steps = before ++ step :: after →
      AuthorRun v docs before mid → authorStep v mid step = some mid' →
      AuthorRun v mid' after docs' → mid' uid documentId ≠ mid uid documentId →
      InScope dir docs' uid documentId step.author.department) ∧
    (∀ doc, docs uid documentId = some doc →
      (∀ step ∈ steps, ¬ departmentAuthorOwns dir uid doc step.author.department = true) →
      docs' uid documentId = some doc) := by
  refine ⟨fun author => authorRun_keeps run, ?_, ?_⟩
  · intro before step after mid mid' _ _ hstep hafter hchanged
    exact authorRun_keeps hafter (authorStep_changes hstep hchanged)
  · intro doc hdoc hnot
    apply Run.invariant_of_labels (P := fun docs : Documents => docs uid documentId = some doc)
      (Q := fun step : AuthorStep dir =>
        ¬ departmentAuthorOwns dir uid doc step.author.department = true) _ run hnot hdoc
    intro docs step docs' hlabel hstep hsame
    exact authorStep_leaves hstep hsame hlabel

end Runs

/-! ## A run -/

def salesDirectory : Directory where
  rows table := if table = .departments then [⟨1, "sales", none⟩] else []
  roles := []
  unique table := by cases table <;> decide
  uniqueRoles := by decide

def salesHead : DepartmentAuthor salesDirectory where
  callerId := 7
  department := ⟨1, "sales"⟩
  listed := ⟨⟨1, "sales", none⟩, List.mem_cons_self, rfl, rfl⟩

/-- Validators that accept everything. -/
def acceptAll : Validators where
  checkRequiredString _ := .accepted
  checkMarkdown _ := .accepted
  checkBoolean _ := .accepted
  checkEnum _ _ := .accepted
  checkInstant _ := .accepted
  checkNullableInstant _ := .accepted
  checkNullablePlainDate _ := .accepted
  checkNullableString _ := .accepted
  checkNullableWebUrl _ := .accepted
  checkPositiveIntOrNull _ := .accepted
  checkQuickLinkUrl _ := .accepted
  checkIconKey _ := .accepted
  checkOrder _ := .accepted
  checkAckFlag _ := .accepted
  checkValidityMonths _ := .accepted
  checkPollOptions _ := .accepted
  samePollOptions _ _ := true
  dutyTemplatesCode _ := .accepted
  dutyShiftsCode _ := .accepted
  kpiValuesCode _ := .accepted
  announcementCrossCheck _ _ _ := []
  eventCrossCheck _ _ _ := []
  scheduledCrossCheck _ _ _ := []
  kpiCrossCheck _ _ _ := []
  uniqueSlugFrom _ _ := .null

def emptyRequest : WriteRuleEnvironment where
  callerId := 0
  action := none
  relationChecks _ := none
  relationListChecks _ := none
  roleTypesCheck := none
  mediaChecks _ := none
  frozenChecks _ := none
  existing := none
  published := none
  callerDepartment := none
  readiness := none
  now := none

/-- The head creates a plan that names no department. -/
def createPlan : AuthorStep salesDirectory where
  author := salesHead
  uid := .dutyPlan
  documentId := "plan"
  action := .create (.obj [("name", .str "Plan")]) emptyRequest false

theorem department_authors_confined_plan :
    ∃ docs', AuthorRun acceptAll (fun _ _ => none) [createPlan] docs' ∧
      InScope salesDirectory docs' .dutyPlan "plan" salesHead.department := by
  have hdone : (authorStep acceptAll (fun _ _ => none) createPlan).isSome = true := by
    decide +kernel
  obtain ⟨docs', hstep⟩ := Option.isSome_iff_exists.mp hdone
  have hrun : AuthorRun acceptAll (fun _ _ => none) [createPlan] docs' := Run.single hstep
  refine ⟨docs', hrun, ?_⟩
  apply (department_authors_confined hrun .dutyPlan "plan").2.1 [] createPlan [] _ docs' rfl
    (Run.refl _) hstep (Run.refl docs')
  obtain ⟨_, doc, rfl, _⟩ := authorStep_spec hstep
  intro hnone
  have hstored : (some doc : Option DocumentRows) = none := hnone
  cases hstored

end Sinnlos.Cms.Write

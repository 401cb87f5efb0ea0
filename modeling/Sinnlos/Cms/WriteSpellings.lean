import Sinnlos.Cms.WriteConfined

/-!
# Payloads that spell the same targets

Two payloads that differ only in how they write their targets are answered
alike, down to what is asked on the way.
-/

namespace Sinnlos.Cms.Write

/-! ## The same targets -/

/-- The check of a relation does not tell two refs apart, as with the id and the documentId of a
row. -/
def SameTarget (env : WriteRuleEnvironment) (name : RelationCheckName) (ref ref' : RelationRef) :
    Prop :=
  ∀ check before, env.relationChecks name = some check →
    check ⟨some (some ref), []⟩ before = check ⟨some (some ref'), []⟩ before

/-- The same of the check of a list. -/
def SameElement (env : WriteRuleEnvironment) (name : RelationListCheckName)
    (ref ref' : RelationRef) : Prop :=
  ∀ check front back, env.relationListChecks name = some check →
    check (front ++ ref :: back) = check (front ++ ref' :: back)

/-- Two values of a field that are equal or spell the same targets. -/
inductive SameSpelling (env : WriteRuleEnvironment) : Option FieldSpec → Json → Json → Prop
  | same {spec : Option FieldSpec} {raw : Json} : SameSpelling env spec raw raw
  | toOne {name : RelationCheckName} {required pinned : Bool} {ref ref' : RelationRef}
      {raw raw' : Json} (spelling : ToOneSpelling ref raw) (spelling' : ToOneSpelling ref' raw')
      (same : SameTarget env name ref ref') :
      SameSpelling env (some (.relation name required pinned)) raw raw'
  | cleared {name : RelationCheckName} {required pinned : Bool} {raw raw' : Json}
      (spelling : ClearSpelling raw) (spelling' : ClearSpelling raw') :
      SameSpelling env (some (.relation name required pinned)) raw raw'
  | toMany {name : RelationListCheckName} {max : Nat} {pinned : Bool}
      {refs refs' : List RelationRef} {raw raw' : Json} (spelling : ListSpelling refs raw)
      (spelling' : ListSpelling refs' raw') (same : List.Forall₂ (SameElement env name) refs refs') :
      SameSpelling env (some (.relationList name max pinned false)) raw raw'
  | delta {name : RelationListCheckName} {max : Nat} {pinned : Bool}
      {changes changes' : RelationDelta} {raw raw' : Json} (spelling : DeltaSpelling changes raw)
      (spelling' : DeltaSpelling changes' raw')
      (connect : List.Forall₂ (SameElement env name) changes.connect changes'.connect)
      (disconnect : List.Forall₂ (SameElement env name) changes.disconnect changes'.disconnect) :
      SameSpelling env (some (.relationList name max pinned true)) raw raw'
  | media {name : MediaCheckName} {fileId : Nat} {raw raw' : Json}
      (spelling : RefSpelling (.id fileId) raw) (spelling' : RefSpelling (.id fileId) raw') :
      SameSpelling env (some (.media name)) raw raw'

/-- Two readings of a field that name the same targets. -/
inductive SameReading (env : WriteRuleEnvironment) : Option FieldSpec → Reading → Reading → Prop
  | same {spec : Option FieldSpec} {reading : Reading} : SameReading env spec reading reading
  | toOne {name : RelationCheckName} {required pinned : Bool} {ref ref' : RelationRef}
      (same : SameTarget env name ref ref') :
      SameReading env (some (.relation name required pinned)) (.relation ⟨some (some ref), []⟩)
        (.relation ⟨some (some ref'), []⟩)
  | toMany {name : RelationListCheckName} {max : Nat} {pinned delta : Bool}
      {refs refs' : List RelationRef} (same : List.Forall₂ (SameElement env name) refs refs') :
      SameReading env (some (.relationList name max pinned delta)) (.list refs) (.list refs')
  | delta {name : RelationListCheckName} {max : Nat} {pinned delta : Bool}
      {changes changes' : RelationDelta}
      (connect : List.Forall₂ (SameElement env name) changes.connect changes'.connect)
      (disconnect : List.Forall₂ (SameElement env name) changes.disconnect changes'.disconnect) :
      SameReading env (some (.relationList name max pinned delta)) (.delta changes)
        (.delta changes')

section Spellings

variable {rule : WriteRule} {env : WriteRuleEnvironment} {name : RelationListCheckName}
  {refs refs' : List RelationRef} {raw raw' : Json}

/-- A list check answers lists of the same targets alike. -/
theorem check_same {check : RelationListCheck}
    (supplied : env.relationListChecks name = some check)
    (same : List.Forall₂ (SameElement env name) refs refs') : check refs = check refs' := by
  have hfront : ∀ front, check (front ++ refs) = check (front ++ refs') := by
    induction same with
    | nil => exact fun _ => rfl
    | @cons ref ref' refs refs' hhead _ ih =>
        intro front
        rw [hhead check front refs supplied]
        have hrest := ih (front ++ [ref'])
        rw [List.append_assoc, List.append_assoc] at hrest
        exact hrest
  exact hfront []

/-- Values that spell the same targets are read alike. -/
theorem readField_same {spec : FieldSpec} (h : SameSpelling env (some spec) raw raw') :
    SameReading env (some spec) (readField spec raw) (readField spec raw') := by
  cases h with
  | same => exact .same
  | @toOne name required pinned ref ref' _ _ spelling spelling' same =>
      dsimp only [readField]
      rw [parseToOne_spelling spelling, parseToOne_spelling spelling']
      have hsingle (ref : RelationRef) :
          (ToOneRelationInput.mk (some (some ref)) []).singleTarget = true :=
        decide_eq_true ⟨⟨some ref, rfl, fun h => by cases h⟩, rfl⟩
      dsimp only
      rw [hsingle, hsingle, Bool.not_true, Bool.and_false]
      exact .toOne same
  | cleared spelling spelling' =>
      dsimp only [readField]
      rw [parseToOne_clear spelling, parseToOne_clear spelling']
      exact .same
  | @toMany name max _ refs refs' _ _ spelling spelling' same =>
      dsimp only [readField]
      rw [parseList_spelling spelling, parseList_spelling spelling', ← same.length_eq]
      by_cases hlong : max < refs.length
      · rw [if_pos hlong, if_pos hlong]
        exact .same
      · rw [if_neg hlong, if_neg hlong]
        exact .toMany same
  | @delta name max _ changes changes' _ _ spelling spelling' connect disconnect =>
      dsimp only [readField]
      rw [parseDelta_spelling spelling, parseDelta_spelling spelling', ← connect.length_eq,
        ← disconnect.length_eq]
      by_cases hlong : max < changes.connect.length + changes.disconnect.length
      · rw [if_pos hlong, if_pos hlong]
        exact .same
      · rw [if_neg hlong, if_neg hlong]
        exact .delta connect disconnect
  | media spelling spelling' =>
      dsimp only [readField]
      rw [parseMedia_spelling spelling, parseMedia_spelling spelling']
      exact .same

theorem readKey_same {key : String} (h : SameSpelling env (rule.fields.get? key) raw raw') :
    SameReading env (rule.fields.get? key) (readKey rule key raw) (readKey rule key raw') := by
  unfold readKey
  cases hspec : rule.fields.get? key with
  | none => exact .same
  | some spec =>
      rw [hspec] at h
      exact readField_same h

theorem SameReading.refusal {spec : Option FieldSpec} {reading reading' : Reading}
    (h : SameReading env spec reading reading') :
    reading.refusal = reading'.refusal := by
  cases h <;> rfl

/-! ## Payloads and their readings -/

/-- Two payloads with the same keys, and values that spell the same targets. -/
def SamePayload (rule : WriteRule) (env : WriteRuleEnvironment) : Record → Record → Prop :=
  OrderedMap.Related fun key raw raw' => SameSpelling env (rule.fields.get? key) raw raw'

def SameReadings (rule : WriteRule) (env : WriteRuleEnvironment) : Readings → Readings → Prop :=
  OrderedMap.Related fun key reading reading' => SameReading env (rule.fields.get? key) reading reading'

variable {payload payload' : Record} {read read' : Readings}

/-- Results that are the same failure, or values that are related. -/
def SameResult {α : Type} (R : α → α → Prop) : Except Failure α → Except Failure α → Prop
  | .ok a, .ok b => R a b
  | .error e, .error e' => e = e'
  | _, _ => False

theorem pinField_same (h : SamePayload rule env payload payload') (field : String × FieldSpec) :
    SameResult (SamePayload rule env) (pinField env payload field)
      (pinField env payload' field) := by
  unfold pinField
  cases field.2.pinned with
  | none => exact h
  | some render =>
      dsimp only
      rw [← h.keys]
      by_cases hmem : field.1 ∈ payload.keys
      · rw [if_pos hmem, if_pos hmem]
        exact h
      · rw [if_neg hmem, if_neg hmem]
        cases env.callerDepartment with
        | none => exact rfl
        | some department => exact h.set .same

theorem SameResult.bind {α β : Type} {R : α → α → Prop} {S : β → β → Prop}
    {first second : Except Failure α} {f : α → Except Failure β} (h : SameResult R first second)
    (hf : ∀ a b, R a b → SameResult S (f a) (f b)) : SameResult S (first >>= f) (second >>= f) := by
  cases first with
  | ok a =>
      cases second with
      | ok b => exact hf a b h
      | error e => exact h.elim
  | error e =>
      cases second with
      | ok b => exact h.elim
      | error e' => exact h

theorem pinCallerDepartment_same (h : SamePayload rule env payload payload') :
    SameResult (SamePayload rule env) (pinCallerDepartment rule env payload)
      (pinCallerDepartment rule env payload') := by
  unfold pinCallerDepartment
  generalize rule.fields.entries = fields
  induction fields generalizing payload payload' with
  | nil => exact h
  | cons field fields ih =>
      rw [List.foldlM_cons, List.foldlM_cons]
      exact (pinField_same h field).bind fun _ _ hmid => ih hmid

variable {fields fields' : List (String × Json)}

theorem payloadOf_same (h : SamePayload rule env (.ofList fields) (.ofList fields')) :
    SameResult (SamePayload rule env) (payloadOf (.obj fields) rule env)
      (payloadOf (.obj fields') rule env) := by
  dsimp only [payloadOf]
  split
  · exact pinCallerDepartment_same h
  · exact h

theorem readPayload_same (h : SamePayload rule env payload payload') :
    SameResult (SameReadings rule env) (readPayload rule payload) (readPayload rule payload') := by
  have hreadings : SameReadings rule env (readings rule payload) (readings rule payload') :=
    h.filterMap fun key raw raw' hraw => readKey_same hraw
  have hrefused : (readings rule payload).filterMap (fun _ reading => reading.refusal) =
      (readings rule payload').filterMap fun _ reading => reading.refusal :=
    hreadings.filterMap_eq fun _ _ _ hreading => hreading.refusal
  have hmissing : missingRequired rule payload = missingRequired rule payload' := by
    unfold missingRequired
    rw [h.keys]
  unfold readPayload
  dsimp only
  rw [hrefused, hmissing]
  split
  · exact hreadings
  · exact rfl

/-! ## The checks are asked alike -/

theorem acceptValues_same (h : SameReadings rule env read read') :
    acceptValues read = acceptValues read' := by
  have hvalues : (acceptValues read).out = (acceptValues read').out := by
    unfold acceptValues
    dsimp only
    apply h.filterMap_eq
    intro key reading reading' hreading
    generalize rule.fields.get? key = spec at hreading
    cases hreading <;> rfl
  calc acceptValues read
      = ⟨(acceptValues read).out, (acceptValues read).out, [], []⟩ := rfl
    _ = ⟨(acceptValues read').out, (acceptValues read').out, [], []⟩ := by rw [hvalues]
    _ = acceptValues read' := rfl

theorem checkRelation_same {name : RelationCheckName} {ref ref' : RelationRef}
    (same : SameTarget env name ref ref') (acc : Accepted) (key : String) :
    checkRelation env acc key name ⟨some (some ref), []⟩ =
      checkRelation env acc key name ⟨some (some ref'), []⟩ := by
  unfold checkRelation
  cases hcheck : env.relationChecks name with
  | none => rfl
  | some check =>
      dsimp only
      rw [same check acc.resolved hcheck]

theorem checkRelations_same (h : SameReadings rule env read read')
    (fields : List (String × FieldSpec))
    (hfields : ∀ field ∈ fields, rule.fields.get? field.1 = some field.2) (acc : Accepted) :
    checkRelations env read fields acc = checkRelations env read' fields acc := by
  unfold checkRelations
  induction fields generalizing acc with
  | nil => rfl
  | cons field fields ih =>
      rw [List.forall_mem_cons] at hfields
      rw [List.foldlM_cons, List.foldlM_cons]
      congr 1
      · rcases h.get? field.1 with hnone | hsome
        · rw [hnone.1, hnone.2]
        · obtain ⟨reading, reading', hreading, hreading', hsame⟩ := hsome
          rw [hreading, hreading']
          rw [hfields.1] at hsame
          generalize field.2 = spec at hsame
          cases hsame with
          | same => rfl
          | toOne same => exact checkRelation_same same acc field.1
          | toMany same => rfl
          | delta connect disconnect => rfl
      · funext acc
        exact ih hfields.2 acc

theorem checkList_same (same : List.Forall₂ (SameElement env name) refs refs') (acc : Accepted)
    (key : String) : checkList env acc key name refs = checkList env acc key name refs' := by
  unfold checkList
  cases hcheck : env.relationListChecks name with
  | none => rfl
  | some check =>
      dsimp only
      rw [check_same hcheck same]

theorem checkDelta_same {changes changes' : RelationDelta}
    (connect : List.Forall₂ (SameElement env name) changes.connect changes'.connect)
    (disconnect : List.Forall₂ (SameElement env name) changes.disconnect changes'.disconnect)
    (acc : Accepted) (key : String) :
    checkDelta env acc key name changes = checkDelta env acc key name changes' := by
  unfold checkDelta
  cases hcheck : env.relationListChecks name with
  | none => rfl
  | some check =>
      dsimp only
      rw [check_same hcheck connect, check_same hcheck disconnect]

theorem checkEntry_same {kind : LaterKind} {acc : Accepted} {entry entry' : String × Reading}
    (hkey : entry.1 = entry'.1)
    (h : SameReading env (rule.fields.get? entry.1) entry.2 entry'.2) :
    checkEntry rule env kind acc entry = checkEntry rule env kind acc entry' := by
  obtain ⟨key, reading⟩ := entry
  obtain ⟨key', reading'⟩ := entry'
  dsimp only at hkey h
  subst hkey
  unfold checkEntry
  dsimp only
  generalize rule.fields.get? key = spec at h
  cases h with
  | same => rfl
  | toOne same => cases kind <;> rfl
  | toMany same =>
      cases kind with
      | list => exact checkList_same same acc key
      | _ => rfl
  | delta connect disconnect =>
      cases kind with
      | delta => exact checkDelta_same connect disconnect acc key
      | _ => rfl

theorem checkEntries_same (h : SameReadings rule env read read') (kind : LaterKind) (acc : Accepted) :
    checkEntries rule env read kind acc = checkEntries rule env read' kind acc := by
  unfold checkEntries
  unfold SameReadings OrderedMap.Related at h
  generalize read.entries = entries at h
  generalize read'.entries = entries' at h
  induction h generalizing acc with
  | nil => rfl
  | cons hhead _ ih =>
      rw [List.foldlM_cons, List.foldlM_cons, checkEntry_same hhead.1 hhead.2]
      congr 1
      funext acc
      exact ih acc

theorem checkTargets_same (h : SameReadings rule env read read') :
    checkTargets rule env read = checkTargets rule env read' := by
  unfold checkTargets
  have hfields : ∀ field ∈ rule.fields.entries, rule.fields.get? field.1 = some field.2 :=
    fun _ hfield => OrderedMap.get?_eq_some.mpr hfield
  simp only [acceptValues_same h, checkRelations_same h rule.fields.entries hfields,
    checkEntries_same h]

theorem checkFrozen_same (h : SameReadings rule env read read') (acc : Accepted) :
    checkFrozen rule env acc read = checkFrozen rule env acc read' := by
  have hchanged : changedFrozen rule env acc read = changedFrozen rule env acc read' := by
    unfold changedFrozen
    unfold SameReadings OrderedMap.Related at h
    generalize read.entries = entries at h
    generalize read'.entries = entries' at h
    induction h with
    | nil => rfl
    | @cons entry entry' _ _ hhead _ ih =>
        obtain ⟨key, reading⟩ := entry
        obtain ⟨key', reading'⟩ := entry'
        obtain ⟨hkey, hreading⟩ := hhead
        dsimp only at hkey hreading
        subst hkey
        rw [List.filterMap_cons, List.filterMap_cons, ih]
        dsimp only
        generalize rule.fields.get? key = spec at hreading
        cases hreading <;> rfl
  unfold checkFrozen
  rw [hchanged]

/-- The same failures, or values with which the rest goes the same way. -/
theorem lift_same {α β : Type} {R : α → α → Prop} {first second : Except Failure α}
    {f g : α → Gate β} (h : SameResult R first second) (hfg : ∀ a b, R a b → f a = g b) :
    Gate.lift first >>= f = Gate.lift second >>= g := by
  cases first with
  | ok a =>
      cases second with
      | ok b =>
          rw [Gate.lift_bind_ok, Gate.lift_bind_ok]
          exact hfg a b h
      | error e => exact h.elim
  | error e =>
      cases second with
      | ok b => exact h.elim
      | error e' =>
          cases h
          rfl

/-- Payloads with the same keys that spell the same targets are answered alike. -/
theorem applyWriteRule_same (h : SamePayload rule env (.ofList fields) (.ofList fields')) :
    applyWriteRule (.obj fields) rule env = applyWriteRule (.obj fields') rule env := by
  unfold applyWriteRule
  apply lift_same (payloadOf_same h)
  intro payload payload' hpayload
  apply lift_same (readPayload_same hpayload)
  intro read read' hread
  have hcarried (acc : Accepted) : carriedKeys payload acc = carriedKeys payload' acc := by
    unfold carriedKeys
    rw [hpayload.keys]
  simp only [checkTargets_same hread, checkFrozen_same hread, hcarried]

end Spellings

end Sinnlos.Cms.Write

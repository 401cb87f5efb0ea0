import Sinnlos.Cms.WriteConfined

/-!
# What an accepted write leaves in the row

An accepted write taken apart: the keys of its payload, and under each key of
the result what was accepted, derived or set by the server.
-/

namespace Sinnlos.Cms.Write

/-! ## Relations of the payload -/

section Relations

variable {rule : WriteRule} {env : WriteRuleEnvironment} {payload : Record} {key : String}
  {input : ToOneRelationInput}

/-- The relation under a key was resolved by a supplied check. -/
def Resolved (env : WriteRuleEnvironment) (name : RelationCheckName) (key : String)
    (input : ToOneRelationInput) (acc : Accepted) : Prop :=
  ∃ check before answer, env.relationChecks name = some check ∧
    check input before = some answer ∧ acc.out.get? key = toStrapiRelation answer

variable {pinned : Bool} {acc acc' : Accepted} {name : RelationCheckName} {required : Bool}
  {kind : LaterKind} {max : Nat} {refs : List RelationRef}

theorem checkRelations_resolved {read : Readings}
    (h : (checkRelations env read rule.fields.entries acc).result = .ok acc')
    (hspec : rule.fields.get? key = some (.relation name required pinned))
    (hinput : read.get? key = some (.relation input)) (huntouched : Untouched acc key) :
    Resolved env name key input acc' := by
  have hfinal := Gate.foldlM_rule
    (P := fun (rest : List (String × FieldSpec)) (acc : Accepted) =>
      (key ∈ rest.map Prod.fst → Untouched acc key) ∧
        (key ∉ rest.map Prod.fst → Resolved env name key input acc) ∧ (rest.map Prod.fst).Nodup)
    rule.fields.entries ?_ h ⟨fun _ => huntouched, ?_, rule.fields.nodup⟩
  · exact hfinal.2.1 List.not_mem_nil
  · intro field rest a a' hfield hstep hP
    obtain ⟨hbefore, hdone, hdistinct⟩ := hP
    rw [List.map_cons, List.nodup_cons] at hdistinct
    rw [List.map_cons, List.mem_cons] at hbefore hdone
    by_cases hkey : key = field.1
    · subst hkey
      have hfieldSpec : field.2 = .relation name required pinned := by
        have hget := OrderedMap.get?_eq_some.mpr hfield
        rw [hspec] at hget
        exact (Option.some.inj hget).symm
      rw [hfieldSpec, hinput] at hstep
      obtain ⟨check, answer, hsupplied, hanswer, rfl⟩ := checkRelation_ok hstep
      refine ⟨fun hmem => absurd hmem hdistinct.1, fun _ => ?_, hdistinct.2⟩
      refine ⟨check, a.resolved, answer, hsupplied, hanswer, ?_⟩
      rw [get?_resolve_out, if_pos rfl, (hbefore (Or.inl rfl)).out, Option.or_none]
    · have hsame : (key ∈ rest.map Prod.fst → Untouched a' key) ∧
          (key ∉ rest.map Prod.fst → Resolved env name key input a') := by
        split at hstep
        · obtain ⟨check, answer, _, _, rfl⟩ := checkRelation_ok hstep
          constructor
          · exact fun hmem => (hbefore (Or.inr hmem)).resolve hkey
          · intro hmem
            obtain ⟨check', before, answer', hsupplied, hanswer, hout⟩ :=
              hdone fun h => h.elim hkey hmem
            refine ⟨check', before, answer', hsupplied, hanswer, ?_⟩
            rw [get?_resolve_out, if_neg hkey]
            exact hout
        · cases Gate.pure_ok.mp hstep
          exact ⟨fun hmem => hbefore (Or.inr hmem), fun hmem => hdone fun h => h.elim hkey hmem⟩
      exact ⟨hsame.1, hsame.2, hdistinct.2⟩
  · intro hmissing
    exact absurd (OrderedMap.mem_keys_of_get? hspec) hmissing

/-- A later check leaves every other key as it is. -/
theorem checkEntry_frame {entry : String × Reading}
    (h : (checkEntry rule env kind acc entry).result = .ok acc') (hne : key ≠ entry.1) :
    acc'.out.get? key = acc.out.get? key := by
  have hset (out merged : Json) :
      (acc.set entry.1 out merged).out.get? key = acc.out.get? key :=
    OrderedMap.get?_set_of_ne acc.out out hne
  unfold checkEntry at h
  split at h
  · obtain ⟨_, _, _, _, rfl⟩ := checkList_ok h
    exact hset _ _
  · obtain ⟨_, _, _, _, _, _, rfl⟩ := checkDelta_ok h
    exact OrderedMap.get?_set_of_ne acc.out _ hne
  · obtain ⟨_, _, rfl⟩ := checkRoles_ok h
    exact hset _ _
  · rcases checkMedia_ok h with hclear | hkept | hchecked
    · rw [hclear.2]
      exact hset _ _
    · obtain ⟨_, _, rfl⟩ := hkept
      exact hset _ _
    · obtain ⟨_, _, _, _, _, _, rfl⟩ := hchecked
      exact hset _ _
  · rw [Gate.pure_ok.mp h]

/-- The kind of a reading, where it is one of those checked after the relations. -/
def Reading.laterKind : Reading → Option LaterKind
  | .list _ => some .list
  | .delta _ => some .delta
  | .roles _ => some .roles
  | .media _ => some .media
  | _ => none

/-- Checking one kind leaves the keys of every other kind as they are. -/
theorem checkEntries_frame {read : Readings} {reading : Reading}
    (h : (checkEntries rule env read kind acc).result = .ok acc')
    (hget : read.get? key = some reading) (hkind : reading.laterKind ≠ some kind) :
    acc'.out.get? key = acc.out.get? key := by
  apply Gate.foldlM_rule
    (P := fun (_ : List (String × Reading)) (a : Accepted) => a.out.get? key = acc.out.get? key)
    read.entries _ h rfl
  intro entry rest a a' hentry hstep ha
  by_cases hkey : key = entry.1
  · have hreading : entry.2 = reading := by
      have hfound := OrderedMap.get?_eq_some.mpr hentry
      rw [← hkey, hget] at hfound
      exact (Option.some.inj hfound).symm
    unfold checkEntry at hstep
    rw [hreading] at hstep
    split at hstep
    · exact absurd rfl hkind
    · exact absurd rfl hkind
    · exact absurd rfl hkind
    · exact absurd rfl hkind
    · exact Gate.pure_ok.mp hstep ▸ ha
  · exact (checkEntry_frame hstep hkey).trans ha

/-- A list of the payload is set to what its check answered. -/
theorem checkEntries_listed {name : RelationListCheckName} {read : Readings}
    (h : (checkEntries rule env read .list acc).result = .ok acc')
    (hspec : rule.fields.get? key = some (.relationList name max pinned false))
    (hlist : read.get? key = some (.list refs)) :
    ∃ check documentIds, env.relationListChecks name = some check ∧
      check refs = some documentIds ∧ acc'.out.get? key = some (setOf documentIds) := by
  have hfinal := Gate.foldlM_rule
    (P := fun (rest : List (String × Reading)) (a : Accepted) =>
      key ∉ rest.map Prod.fst → ∃ check documentIds, env.relationListChecks name = some check ∧
        check refs = some documentIds ∧ a.out.get? key = some (setOf documentIds))
    read.entries ?_ h (fun hmissing => absurd (OrderedMap.mem_keys_of_get? hlist) hmissing)
  · exact hfinal List.not_mem_nil
  · intro entry rest a a' hentry hstep ha hmem
    by_cases hkey : key = entry.1
    · have hreading : entry.2 = .list refs := by
        have hget := OrderedMap.get?_eq_some.mpr hentry
        rw [← hkey, hlist] at hget
        exact (Option.some.inj hget).symm
      unfold checkEntry at hstep
      rw [hreading, ← hkey, hspec] at hstep
      obtain ⟨check, documentIds, hsupplied, hanswer, rfl⟩ := checkList_ok hstep
      exact ⟨check, documentIds, hsupplied, hanswer, OrderedMap.get?_set_self a.out key _⟩
    · rw [List.map_cons, List.mem_cons, not_or] at ha
      rw [checkEntry_frame hstep hkey]
      exact ha ⟨hkey, hmem⟩

/-- A relation of the payload is in the result as its check resolved it. -/
theorem checkTargets_resolved {read : Readings} (hread : readPayload rule payload = .ok read)
    (h : (checkTargets rule env read).result = .ok acc)
    (hspec : rule.fields.get? key = some (.relation name required pinned))
    (hinput : read.get? key = some (.relation input)) : Resolved env name key input acc := by
  obtain ⟨_, huntouched⟩ := @acceptValues_sound rule env payload read hread
  unfold checkTargets at h
  rw [Gate.bind_ok] at h
  obtain ⟨relations, hrelations, h⟩ := h
  rw [Gate.bind_ok] at h
  obtain ⟨lists, hlists, h⟩ := h
  rw [Gate.bind_ok] at h
  obtain ⟨deltas, hdeltas, h⟩ := h
  rw [Gate.bind_ok] at h
  obtain ⟨roles, hroles, hmedia⟩ := h
  obtain ⟨check, before, answer, hsupplied, hanswer, hout⟩ :=
    checkRelations_resolved hrelations hspec hinput
      (huntouched key _ hinput fun raw heq => by cases heq)
  refine ⟨check, before, answer, hsupplied, hanswer, ?_⟩
  have hother (kind : LaterKind) : (Reading.relation input).laterKind ≠ some kind :=
    fun heq => by cases heq
  rw [checkEntries_frame hmedia hinput (hother _), checkEntries_frame hroles hinput (hother _),
    checkEntries_frame hdeltas hinput (hother _), checkEntries_frame hlists hinput (hother _)]
  exact hout

/-- A list of the payload is in the result as its check resolved it. -/
theorem checkTargets_listed {name : RelationListCheckName} {read : Readings}
    (h : (checkTargets rule env read).result = .ok acc)
    (hspec : rule.fields.get? key = some (.relationList name max pinned false))
    (hlist : read.get? key = some (.list refs)) :
    ∃ check documentIds, env.relationListChecks name = some check ∧
      check refs = some documentIds ∧ acc.out.get? key = some (setOf documentIds) := by
  unfold checkTargets at h
  rw [Gate.bind_ok] at h
  obtain ⟨relations, _, h⟩ := h
  rw [Gate.bind_ok] at h
  obtain ⟨lists, hlists, h⟩ := h
  rw [Gate.bind_ok] at h
  obtain ⟨deltas, hdeltas, h⟩ := h
  rw [Gate.bind_ok] at h
  obtain ⟨roles, hroles, hmedia⟩ := h
  rw [checkEntries_frame hmedia hlist (fun heq => by cases heq),
    checkEntries_frame hroles hlist (fun heq => by cases heq),
    checkEntries_frame hdeltas hlist (fun heq => by cases heq)]
  exact checkEntries_listed hlists hspec hlist

end Relations

variable {rule : WriteRule} {env : WriteRuleEnvironment} {data : Json} {out : Record}

/-! ## The parts of an accepted write -/

/-- An accepted write, taken apart. -/
structure Applied (data : Json) (rule : WriteRule) (env : WriteRuleEnvironment) (out payload : Record)
    (acc : Accepted) (created : Record) : Prop where
  sent : payloadOf data rule env = .ok payload
  readable : readPayload rule payload = .ok (readings rule payload)
  checked : (checkTargets rule env (readings rule payload)).result = .ok acc
  sound : Sound rule env payload acc
  server : createValues rule env = .ok created
  result : out = (((acc.out.overlay (derivedValues rule acc.out)).overlay
    (mergedValues rule (mergedRecord env acc) (carriedKeys payload acc))).overlay created).overlay
      (callerValues rule env)

theorem applyWriteRule_ok (h : (applyWriteRule data rule env).result = .ok out) :
    ∃ payload acc created, Applied data rule env out payload acc created := by
  unfold applyWriteRule at h
  rw [Gate.bind_ok] at h
  obtain ⟨payload, hpayload, h⟩ := h
  rw [Gate.bind_ok] at h
  obtain ⟨read, hread, h⟩ := h
  rw [Gate.bind_ok] at h
  obtain ⟨acc, hacc, h⟩ := h
  rw [Gate.bind_ok] at h
  obtain ⟨_, _, h⟩ := h
  dsimp only at h
  rw [Gate.bind_ok] at h
  obtain ⟨_, _, h⟩ := h
  rw [Gate.bind_ok] at h
  obtain ⟨_, _, h⟩ := h
  rw [Gate.bind_ok] at h
  obtain ⟨created, hcreated, h⟩ := h
  rw [Gate.lift_ok] at hpayload hread hcreated
  obtain ⟨rfl, _, _⟩ := readPayload_ok hread
  exact ⟨payload, acc, created, hpayload, hread, hacc, checkTargets_sound hread hacc, hcreated,
    (Gate.pure_ok.mp h).symm⟩

variable {payload payload' : Record} {field : String × FieldSpec}

/-- A payload with a refused key or value, or without a required relation, is asked nothing. -/
theorem refused_asks_nothing {e : Failure} (hpayload : payloadOf data rule env = .ok payload)
    (hread : readPayload rule payload = .error e) :
    applyWriteRule data rule env = ⟨.error e, []⟩ := by
  have hsecond : (Gate.lift (readPayload rule payload)).result = .error e := hread
  unfold applyWriteRule
  rw [hpayload, Gate.lift_bind_ok]
  exact Gate.bind_error hsecond

/-- Why a payload is refused before anything is asked. -/
def Refuses (rule : WriteRule) (payload : Record) : Prop :=
  (∃ key raw, payload.get? key = some raw ∧ (readKey rule key raw).refusal ≠ none) ∨
    missingRequired rule payload ≠ []

theorem readPayload_error (h : Refuses rule payload) :
    ∃ keys codes, readPayload rule payload = .error (.refused keys codes) := by
  cases hread : readPayload rule payload with
  | ok read =>
      exfalso
      obtain ⟨rfl, horder, hmissing⟩ := readPayload_ok hread
      rcases h with hkey | hrequired
      · obtain ⟨key, raw, hsent, hrefusal⟩ := hkey
        exact hrefusal (horder key _ (get?_readings_of_sent hsent))
      · exact hrequired hmissing
  | error e =>
      unfold readPayload at hread
      dsimp only at hread
      split at hread
      · cases hread
      · cases hread
        exact ⟨_, _, rfl⟩

/-! ## The keys of the payload -/

theorem pinField_ok (h : pinField env payload field = .ok payload') :
    (payload' = payload ∧ (field.2.pinned = none ∨ field.1 ∈ payload.keys)) ∨
      (field.1 ∉ payload.keys ∧ ∃ value, payload' = payload.set field.1 value) := by
  unfold pinField at h
  cases hpinned : field.2.pinned with
  | none =>
      rw [hpinned] at h
      cases h
      exact Or.inl ⟨rfl, Or.inl rfl⟩
  | some render =>
      rw [hpinned] at h
      dsimp only at h
      by_cases hmem : field.1 ∈ payload.keys
      · rw [if_pos hmem] at h
        cases h
        exact Or.inl ⟨rfl, Or.inr hmem⟩
      · rw [if_neg hmem] at h
        cases hdepartment : env.callerDepartment with
        | none =>
            rw [hdepartment] at h
            cases h
        | some department =>
            rw [hdepartment] at h
            cases h
            exact Or.inr ⟨hmem, _, rfl⟩

variable {key : String} {raw : Json} {fields : List (String × FieldSpec)}

theorem pinField_keys (h : pinField env payload field = .ok payload')
    (hsent : payload.get? key = some raw) : payload'.get? key = some raw := by
  rcases pinField_ok h with hsame | hset
  · rw [hsame.1]
    exact hsent
  · obtain ⟨hmissing, value, rfl⟩ := hset
    have hne : key ≠ field.1 := by
      intro heq
      exact hmissing (heq ▸ OrderedMap.mem_keys_of_get? hsent)
    exact (OrderedMap.get?_set_of_ne payload value hne).trans hsent

theorem pin_keys (h : fields.foldlM (pinField env) payload = .ok payload')
    (hsent : payload.get? key = some raw) : payload'.get? key = some raw := by
  induction fields generalizing payload with
  | nil =>
      cases h
      exact hsent
  | cons field fields ih =>
      rw [List.foldlM_cons] at h
      obtain ⟨mid, hstep, h⟩ := Text.bind_eq_ok.mp h
      exact ih h (pinField_keys hstep hsent)

/-- A pinned key is in the payload once the fields are pinned. -/
theorem pinned_sent (h : fields.foldlM (pinField env) payload = .ok payload')
    (hfield : field ∈ fields) (hpinned : field.2.pinned.isSome = true) :
    field.1 ∈ payload'.keys := by
  induction fields generalizing payload with
  | nil => cases hfield
  | cons first fields ih =>
      rw [List.foldlM_cons] at h
      obtain ⟨mid, hstep, hfold⟩ := Text.bind_eq_ok.mp h
      rcases List.mem_cons.mp hfield with hfirst | hrest
      · subst hfirst
        have hmid : field.1 ∈ mid.keys := by
          rcases pinField_ok hstep with hsame | hset
          · rw [hsame.1]
            apply hsame.2.resolve_left
            intro hnone
            rw [hnone] at hpinned
            cases hpinned
          · obtain ⟨_, value, rfl⟩ := hset
            exact OrderedMap.mem_keys_set.mpr (Or.inl rfl)
        obtain ⟨raw, hraw⟩ := OrderedMap.mem_keys.mp hmid
        exact OrderedMap.mem_keys_of_get? (pin_keys hfold hraw)
      · exact ih hfold hrest

/-- Every value sent is in the payload that the rule is applied to. -/
theorem payloadOf_keys {fields : List (String × Json)}
    (h : payloadOf (.obj fields) rule env = .ok payload) :
    ∀ key raw, (OrderedMap.ofList fields).get? key = some raw → payload.get? key = some raw := by
  dsimp only [payloadOf] at h
  split at h
  · exact fun key raw hraw => pin_keys h hraw
  · cases h
    exact fun key raw hraw => hraw

/-- The server sets this key, whatever the payload says. -/
def ServerSet (rule : WriteRule) (key : String) : Prop :=
  key ∈ rule.derivedFields.keys ∨ key ∈ rule.derivedFromMerged.keys ∨
    key ∈ rule.derivedOnCreate.keys ∨ key ∈ rule.callerFields

theorem createValues_spec {created : Record} (h : createValues rule env = .ok created)
    (hcreate : isCreate env = true) (key : String) :
    match rule.derivedOnCreate.get? key with
    | none => created.get? key = none
    | some derive => ∃ value, derive env = .ok value ∧ created.get? key = some value := by
  unfold createValues at h
  rw [if_pos hcreate] at h
  have hfold : ∀ (fields : List (String × (WriteRuleEnvironment → Except Failure Json)))
      (start : Record), (fields.map Prod.fst).Nodup →
      fields.foldlM (fun record field =>
        (field.2 env).map fun value => record.set field.1 value) start = .ok created →
      match OrderedMap.find key fields with
      | none => created.get? key = start.get? key
      | some derive => ∃ value, derive env = .ok value ∧ created.get? key = some value := by
    intro fields
    induction fields with
    | nil =>
        intro start _ hend
        cases hend
        rfl
    | cons field fields ih =>
        intro start hnodup hend
        rw [List.map_cons, List.nodup_cons] at hnodup
        rw [List.foldlM_cons] at hend
        obtain ⟨_, hstep, hend⟩ := Text.bind_eq_ok.mp hend
        obtain ⟨value, hvalue, hstep⟩ := Text.bind_eq_ok.mp hstep
        cases hstep
        have hrest := ih (start.set field.1 value) hnodup.2 hend
        by_cases hkey : field.1 = key
        · subst hkey
          rw [OrderedMap.find_eq_none.mpr hnodup.1] at hrest
          dsimp only at hrest
          rw [OrderedMap.get?_set_self] at hrest
          simp only [OrderedMap.find, if_true]
          exact ⟨value, hvalue, hrest⟩
        · have hne : ¬ key = field.1 := fun heq => hkey heq.symm
          simp only [OrderedMap.find, hkey, if_false]
          rw [OrderedMap.get?_set_of_ne start value hne] at hrest
          exact hrest
  exact hfold rule.derivedOnCreate.entries OrderedMap.empty rule.derivedOnCreate.nodup h

theorem get?_callerValues (rule : WriteRule) (env : WriteRuleEnvironment) (key : String) :
    (callerValues rule env).get? key =
      if key ∈ rule.callerFields then some (.num env.callerId) else none := by
  have hall : ∀ (fields : List String) (m : Record),
      (m.setAll (fields.map fun field => (field, Json.num env.callerId))).get? key =
        if key ∈ fields then some (.num env.callerId) else m.get? key := by
    intro fields
    induction fields with
    | nil => exact fun m => rfl
    | cons field fields ih =>
        intro m
        have hstep := ih (m.set field (.num env.callerId))
        rw [OrderedMap.get?_set] at hstep
        refine hstep.trans ?_
        by_cases hrest : key ∈ fields
        · simp [hrest]
        · by_cases hkey : key = field
          · simp [hkey]
          · simp [hrest, hkey]
  exact hall rule.callerFields OrderedMap.empty

section Result

variable {payload : Record} {acc : Accepted} {created : Record}

theorem get?_out (h : Applied data rule env out payload acc created) (key : String) :
    out.get? key = ((callerValues rule env).get? key).or ((created.get? key).or
      (((mergedValues rule (mergedRecord env acc) (carriedKeys payload acc)).get? key).or
        (((derivedValues rule acc.out).get? key).or (acc.out.get? key)))) := by
  rw [h.result, OrderedMap.get?_overlay, OrderedMap.get?_overlay, OrderedMap.get?_overlay,
    OrderedMap.get?_overlay]

variable {key : String} {raw : Json}

theorem created_none (h : createValues rule env = .ok created)
    (hkey : key ∉ rule.derivedOnCreate.keys) : created.get? key = none := by
  by_cases hcreate : isCreate env = true
  · have hspec := createValues_spec h hcreate key
    rw [OrderedMap.get?_eq_none.mpr hkey] at hspec
    exact hspec
  · unfold createValues at h
    rw [if_neg hcreate] at h
    cases h
    rfl

theorem derived_none (hkey : key ∉ rule.derivedFields.keys) (accepted : Record) :
    (derivedValues rule accepted).get? key = none := by
  unfold derivedValues
  rw [OrderedMap.get?_filterMap, OrderedMap.get?_eq_none.mpr hkey]
  rfl

theorem mergedValues_none (hkey : key ∉ rule.derivedFromMerged.keys) (merged : Record)
    (carried : List String) : (mergedValues rule merged carried).get? key = none := by
  unfold mergedValues
  rw [OrderedMap.get?_filterMap, OrderedMap.get?_eq_none.mpr hkey]
  rfl

/-- What the server does not set is what was accepted. -/
theorem out_of_not_serverSet (h : Applied data rule env out payload acc created)
    (hkey : ¬ ServerSet rule key) : out.get? key = acc.out.get? key := by
  unfold ServerSet at hkey
  rw [not_or, not_or, not_or] at hkey
  obtain ⟨hderived, hmerged, hcreated, hcaller⟩ := hkey
  rw [get?_out h, get?_callerValues, if_neg hcaller, created_none h.server hcreated,
    mergedValues_none hmerged, derived_none hderived]
  rfl

/-- Every key of an accepted payload is read as its field says. -/
theorem Applied.read (h : Applied data rule env out payload acc created)
    (hsent : payload.get? key = some raw) : Read rule key raw (readKey rule key raw) := by
  obtain ⟨_, horder, _⟩ := readPayload_ok h.readable
  apply readKey_cases rfl
  exact horder key _ (get?_readings_of_sent hsent)

variable {pinned : Bool}

/-- A relation of the payload is written as its check answered. -/
theorem Applied.relation (h : Applied data rule env out payload acc created)
    {name : RelationCheckName} {required : Bool}
    (hspec : rule.fields.get? key = some (.relation name required pinned))
    (hserver : ¬ ServerSet rule key) (hsent : payload.get? key = some raw) :
    ∃ input, (required = true → input.singleTarget = true) ∧ ∃ check before answer,
      env.relationChecks name = some check ∧ check input before = some answer ∧
        out.get? key = toStrapiRelation answer := by
  have hread := h.read hsent
  have hget := @get?_readings_of_sent rule _ _ _ hsent
  generalize readKey rule key raw = reading at hread hget
  cases hread with
  | relation spec parsed one =>
      rw [hspec] at spec
      cases spec
      obtain ⟨check, before, answer, hsupplied, hanswer, hout⟩ :=
        checkTargets_resolved h.readable h.checked hspec hget
      exact ⟨_, one, check, before, answer, hsupplied, hanswer,
        (out_of_not_serverSet h hserver).trans hout⟩
  | value spec | controller spec | list spec | delta spec | roles spec | media spec =>
      rw [hspec] at spec; cases spec

/-- A list of the payload is written as its check answered. -/
theorem Applied.list (h : Applied data rule env out payload acc created)
    {name : RelationListCheckName} {max : Nat}
    (hspec : rule.fields.get? key = some (.relationList name max pinned false))
    (hserver : ¬ ServerSet rule key) (hsent : payload.get? key = some raw) :
    ∃ refs check documentIds, env.relationListChecks name = some check ∧
      check refs = some documentIds ∧ out.get? key = some (setOf documentIds) := by
  have hread := h.read hsent
  have hget := @get?_readings_of_sent rule _ _ _ hsent
  generalize readKey rule key raw = reading at hread hget
  cases hread with
  | list spec parsed =>
      rw [hspec] at spec
      cases spec
      obtain ⟨check, documentIds, hsupplied, hanswer, hout⟩ :=
        checkTargets_listed h.checked hspec hget
      exact ⟨_, check, documentIds, hsupplied, hanswer, (out_of_not_serverSet h hserver).trans hout⟩
  | value spec | controller spec | relation spec | delta spec | roles spec | media spec =>
      rw [hspec] at spec; cases spec

/-- A relation that is not sent is not written. -/
theorem Applied.unsent (h : Applied data rule env out payload acc created)
    (hkey : key ∉ payload.keys) (hmedia : ∀ name, rule.fields.get? key ≠ some (.media name))
    (hserver : ¬ ServerSet rule key) : out.get? key = none := by
  rw [out_of_not_serverSet h hserver]
  have hentry := h.sound.entries key
  generalize acc.out.get? key = value at hentry
  generalize acc.merged.get? key = merged at hentry
  cases hentry with
  | untouched => rfl
  | value sent | relation sent | list sent | delta sent | roles sent =>
      exact absurd (OrderedMap.mem_keys_of_get? sent) hkey
  | mediaCleared spec | mediaKept spec => exact absurd spec (hmedia _)
  | mediaChecked sent => exact absurd (OrderedMap.mem_keys_of_get? sent) hkey

/-- Roles are written as the roles of types that the field allows. -/
theorem Applied.roles (h : Applied data rule env out payload acc created) {key : String}
    {allowed : List String} {max : Nat}
    (hspec : rule.fields.get? key = some (.roleTypes allowed max))
    (hserver : ¬ ServerSet rule key) :
    out.get? key = none ∨ ∃ types documentIds, (∀ type ∈ types, type ∈ allowed) ∧
      (documentIds = [] ∨
        ∃ check, env.roleTypesCheck = some check ∧ check types = some documentIds) ∧
      out.get? key = some (setOf documentIds) := by
  rw [out_of_not_serverSet h hserver]
  have hentry := h.sound.entries key
  generalize acc.out.get? key = value at hentry
  generalize acc.merged.get? key = merged at hentry
  cases hentry with
  | untouched => exact Or.inl rfl
  | @roles _ _ _ types documentIds _ spec parsed answered =>
      rw [hspec] at spec
      cases spec
      exact Or.inr ⟨types, documentIds, parseRoleTypes_allowed parsed,
        answered.imp (fun h => h.2) id, rfl⟩
  | value _ read => cases read with
    | value spec | controller spec => rw [hspec] at spec; cases spec
  | relation _ spec | list _ spec | delta _ spec | mediaCleared spec | mediaKept spec
  | mediaChecked _ spec => rw [hspec] at spec; cases spec

end Result

end Sinnlos.Cms.Write

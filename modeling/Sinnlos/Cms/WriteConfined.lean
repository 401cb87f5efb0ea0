import Sinnlos.Cms.WriteRules

/-!
# A write payload is confined to its rule

What the payload of an accepted write can hold: under each key a value that
passed its check, what a supplied check answered, or what the server sets.
-/

namespace Sinnlos.Cms.Write

/-! ## Results of gates -/

namespace Gate

variable {α β ε : Type}

theorem bind_eq (g : Gate α) (f : α → Gate β) : g >>= f = Gate.bind g f := rfl

variable {g : Gate α} {f : α → Gate β}

theorem bind_ok {b : β} :
    (g >>= f).result = .ok b ↔ ∃ a, g.result = .ok a ∧ (f a).result = .ok b := by
  rw [bind_eq, Gate.bind]
  cases hg : g.result with
  | ok a =>
      constructor
      · intro h
        exact ⟨a, rfl, h⟩
      · intro h
        obtain ⟨_, heq, hb⟩ := h
        cases heq
        exact hb
  | error e =>
      constructor
      · intro h
        cases h
      · intro h
        obtain ⟨_, heq, _⟩ := h
        cases heq

variable {a : α} {b : α}

theorem pure_ok : (pure a : Gate α).result = .ok b ↔ a = b := by
  constructor
  · intro h
    cases h
    rfl
  · intro h
    rw [h]
    rfl

theorem lift_ok {result : Except Failure α} :
    (Gate.lift result).result = .ok a ↔ result = .ok a := Iff.rfl

theorem lift_bind_ok (a : α) (f : α → Gate β) : Gate.lift (.ok a) >>= f = f a := rfl

/-- A failed read ends the gate with nothing more asked. -/
theorem bind_error {e : Failure} (h : g.result = .error e) : g >>= f = ⟨.error e, g.asked⟩ := by
  rw [bind_eq, Gate.bind, h]

/-- What holds of the suffixes of a fold and is preserved by its steps holds at its end. -/
theorem foldlM_rule {P : List ε → α → Prop} {step : α → ε → Gate α} (es : List ε)
    (preserved : ∀ e rest a a', e ∈ es → (step a e).result = .ok a' → P (e :: rest) a → P rest a')
    (h : (es.foldlM step a).result = .ok b) (start : P es a) : P [] b := by
  have hsuffix : ∀ (rest : List ε) (a : α), (∀ e ∈ rest, e ∈ es) →
      (rest.foldlM step a).result = .ok b → P rest a → P [] b := by
    intro rest
    induction rest with
    | nil =>
        intro a _ h hP
        rw [List.foldlM_nil, pure_ok] at h
        exact h ▸ hP
    | cons e rest ih =>
        intro a hmem h hP
        rw [List.foldlM_cons, bind_ok] at h
        obtain ⟨mid, hmid, hrest⟩ := h
        rw [List.forall_mem_cons] at hmem
        exact ih mid hmem.2 hrest (preserved e rest a mid hmem.1 hmid hP)
  exact hsuffix es a (fun _ he => he) h start

end Gate

/-! ## What a reading says of its field -/

section Readings

variable {rule : WriteRule} {payload : Record} {key : String} {raw : Json}

theorem get?_readings (rule : WriteRule) (payload : Record) (key : String) :
    (readings rule payload).get? key = (payload.get? key).map (readKey rule key) := by
  unfold readings
  rw [OrderedMap.get?_filterMap]
  cases payload.get? key <;> rfl

theorem get?_readings_of_sent (hsent : payload.get? key = some raw) :
    (readings rule payload).get? key = some (readKey rule key raw) := by
  rw [get?_readings, hsent]
  rfl

variable {reading : Reading}

/-- A reading is that of a raw value of the payload. -/
theorem readings_some (h : (readings rule payload).get? key = some reading) :
    ∃ raw, payload.get? key = some raw ∧ readKey rule key raw = reading := by
  rw [get?_readings, Option.map_eq_some_iff] at h
  exact h

theorem elim_ne_refused {α : Type} {o : Option α} {f : α → Reading}
    (h : o.elim (.refused none) f = reading) (hne : reading.refusal = none) :
    ∃ a, o = some a ∧ f a = reading := by
  cases o with
  | none =>
      rw [← h] at hne
      cases hne
  | some a => exact ⟨a, rfl, h⟩

/-- What each reading of a key in order says of its field. -/
inductive Read (rule : WriteRule) (key : String) (raw : Json) : Reading → Prop
  | value {check : ValueCheck} {frozenWhen : Option FrozenWhen}
      (spec : rule.fields.get? key = some (.value check frozenWhen))
      (passed : check raw = .accepted) : Read rule key raw (.value raw)
  | controller {check : ValueCheck} (spec : rule.fields.get? key = some (.controller check))
      (passed : check raw = .accepted) : Read rule key raw (.value raw)
  | relation {name : RelationCheckName} {required pinned : Bool} {input : ToOneRelationInput}
      (spec : rule.fields.get? key = some (.relation name required pinned))
      (parsed : parseToOneRelation raw = some input)
      (one : required = true → input.singleTarget = true) : Read rule key raw (.relation input)
  | list {name : RelationListCheckName} {max : Nat} {pinned : Bool} {refs : List RelationRef}
      (spec : rule.fields.get? key = some (.relationList name max pinned false))
      (parsed : parseRelationList raw max = some refs) : Read rule key raw (.list refs)
  | delta {name : RelationListCheckName} {max : Nat} {pinned : Bool} {changes : RelationDelta}
      (spec : rule.fields.get? key = some (.relationList name max pinned true))
      (parsed : parseRelationDelta raw max = some changes) : Read rule key raw (.delta changes)
  | roles {allowed : List String} {max : Nat} {types : List String}
      (spec : rule.fields.get? key = some (.roleTypes allowed max))
      (parsed : parseRoleTypes raw allowed max = some types) : Read rule key raw (.roles types)
  | media {name : MediaCheckName} {fileId : Option Nat}
      (spec : rule.fields.get? key = some (.media name))
      (parsed : parseMedia raw = some fileId) : Read rule key raw (.media fileId)

theorem readKey_cases (h : readKey rule key raw = reading) (hne : reading.refusal = none) :
    Read rule key raw reading := by
  unfold readKey at h
  cases hspec : rule.fields.get? key with
  | none =>
      rw [hspec] at h
      rw [← h] at hne
      cases hne
  | some spec =>
      rw [hspec] at h
      dsimp only at h
      cases spec with
      | value check frozenWhen =>
          dsimp only [readField] at h
          split at h
          · rename_i hcheck
            exact h ▸ .value hspec hcheck
          · rw [← h] at hne
            cases hne
      | controller check =>
          dsimp only [readField] at h
          split at h
          · rename_i hcheck
            exact h ▸ .controller hspec hcheck
          · rw [← h] at hne
            cases hne
      | relation name required pinned =>
          dsimp only [readField] at h
          split at h
          · rw [← h] at hne
            cases hne
          · rename_i input hparse
            split at h
            · rw [← h] at hne
              cases hne
            · rename_i hone
              rw [← h]
              apply Read.relation hspec hparse
              intro hrequired
              rw [hrequired, Bool.true_and, Bool.not_eq_true', Bool.not_eq_false] at hone
              exact hone
      | relationList name max pinned delta =>
          dsimp only [readField] at h
          cases delta with
          | true =>
              rw [if_pos rfl] at h
              obtain ⟨changes, hparse, rfl⟩ := elim_ne_refused h hne
              exact .delta hspec hparse
          | false =>
              rw [if_neg Bool.false_ne_true] at h
              obtain ⟨refs, hparse, rfl⟩ := elim_ne_refused h hne
              exact .list hspec hparse
      | roleTypes allowed max =>
          obtain ⟨types, hparse, rfl⟩ := elim_ne_refused h hne
          exact .roles hspec hparse
      | media name =>
          obtain ⟨fileId, hparse, rfl⟩ := elim_ne_refused h hne
          exact .media hspec hparse

theorem readPayload_ok {read : Readings} (h : readPayload rule payload = .ok read) :
    read = readings rule payload ∧
      (∀ key reading, read.get? key = some reading → reading.refusal = none) ∧
      missingRequired rule payload = [] := by
  unfold readPayload at h
  dsimp only at h
  split at h
  · rename_i hnone
    cases h
    obtain ⟨hrefused, hmissing⟩ := List.append_eq_nil_iff.mp hnone
    refine ⟨rfl, ?_, hmissing⟩
    intro key reading hget
    cases href : reading.refusal with
    | none => rfl
    | some code =>
        have hmem : ((readings rule payload).filterMap fun _ r => r.refusal).get? key = some code := by
          rw [OrderedMap.get?_filterMap, hget]
          exact href
        have hkey := OrderedMap.mem_keys_of_get? hmem
        rw [hrefused] at hkey
        cases hkey
  · cases h

end Readings

/-! ## What is accepted under a key -/

/-- The merged value of a resolved relation; none where no target was named. -/
def mergedOf (answer : ResolvedToOne) : Option Json :=
  match answer.target with
  | none => none
  | some none => some .null
  | some (some documentId) => some (.str documentId)

/-- What can stand under a key of the accepted payload, and what of it the rules across fields
read. -/
inductive Entry (rule : WriteRule) (env : WriteRuleEnvironment) (payload : Record) (key : String) :
    Option Json → Option Json → Prop
  | untouched : Entry rule env payload key none none
  | value {raw : Json} (sent : payload.get? key = some raw)
      (read : Read rule key raw (.value raw)) : Entry rule env payload key (some raw) (some raw)
  | relation {name : RelationCheckName} {required pinned : Bool} {raw : Json}
      {input : ToOneRelationInput} {check : RelationCheck} {before : List (String × ResolvedToOne)}
      {answer : ResolvedToOne} (sent : payload.get? key = some raw)
      (spec : rule.fields.get? key = some (.relation name required pinned))
      (parsed : parseToOneRelation raw = some input)
      (one : required = true → input.singleTarget = true)
      (supplied : env.relationChecks name = some check)
      (answered : check input before = some answer) :
      Entry rule env payload key (toStrapiRelation answer) (mergedOf answer)
  | list {name : RelationListCheckName} {max : Nat} {pinned : Bool} {raw : Json}
      {refs : List RelationRef} {check : RelationListCheck} {documentIds : List String}
      (sent : payload.get? key = some raw)
      (spec : rule.fields.get? key = some (.relationList name max pinned false))
      (parsed : parseRelationList raw max = some refs)
      (supplied : env.relationListChecks name = some check)
      (answered : check refs = some documentIds) :
      Entry rule env payload key (some (setOf documentIds)) (some (stringsJson documentIds))
  | delta {name : RelationListCheckName} {max : Nat} {pinned : Bool} {raw : Json}
      {changes : RelationDelta} {check : RelationListCheck} {connect disconnect : List String}
      {merged : Option Json} (sent : payload.get? key = some raw)
      (spec : rule.fields.get? key = some (.relationList name max pinned true))
      (parsed : parseRelationDelta raw max = some changes)
      (supplied : env.relationListChecks name = some check)
      (connected : check changes.connect = some connect)
      (disconnected : check changes.disconnect = some disconnect) :
      Entry rule env payload key (some (.obj [("connect", documentsJson connect),
        ("disconnect", documentsJson disconnect)])) merged
  | roles {allowed : List String} {max : Nat} {raw : Json} {types documentIds : List String}
      (sent : payload.get? key = some raw)
      (spec : rule.fields.get? key = some (.roleTypes allowed max))
      (parsed : parseRoleTypes raw allowed max = some types)
      (answered : types = [] ∧ documentIds = [] ∨
        ∃ check, env.roleTypesCheck = some check ∧ check types = some documentIds) :
      Entry rule env payload key (some (setOf documentIds)) (some (stringsJson types))
  | mediaCleared {name : MediaCheckName} (spec : rule.fields.get? key = some (.media name)) :
      Entry rule env payload key (some .null) (some .null)
  | mediaKept {name : MediaCheckName} {fileId : Nat}
      (spec : rule.fields.get? key = some (.media name))
      (current : currentFile env key = some (.num fileId)) :
      Entry rule env payload key (some (.num fileId)) (some (.num fileId))
  | mediaChecked {name : MediaCheckName} {raw : Json} {fileId authorized : Nat} {check : MediaCheck}
      (sent : payload.get? key = some raw) (spec : rule.fields.get? key = some (.media name))
      (parsed : parseMedia raw = some (some fileId)) (supplied : env.mediaChecks name = some check)
      (answered : check fileId key = some authorized) :
      Entry rule env payload key (some (.num authorized)) (some (.num authorized))

/-- Every key of what was accepted so far is in order, and relations without a target have no merged
value. -/
structure Sound (rule : WriteRule) (env : WriteRuleEnvironment) (payload : Record)
    (acc : Accepted) : Prop where
  entries : ∀ key, Entry rule env payload key (acc.out.get? key) (acc.merged.get? key)
  noTarget : ∀ key ∈ acc.noTarget, acc.merged.get? key = none ∧
    ∃ name required pinned, rule.fields.get? key = some (.relation name required pinned)

section Folds

variable {rule : WriteRule} {env : WriteRuleEnvironment} {payload : Record} {read : Readings}

/-- A key under which nothing was accepted yet. -/
structure Untouched (acc : Accepted) (key : String) : Prop where
  out : acc.out.get? key = none
  merged : acc.merged.get? key = none
  noTarget : key ∉ acc.noTarget

variable {acc acc' : Accepted} {key : String}

theorem Sound.set {out merged : Json} (h : Sound rule env payload acc)
    (entry : Entry rule env payload key (some out) (some merged))
    (other : ∀ name required pinned,
      rule.fields.get? key ≠ some (.relation name required pinned)) :
    Sound rule env payload (acc.set key out merged) := by
  constructor
  · intro k
    unfold Accepted.set
    dsimp only
    rw [OrderedMap.get?_set, OrderedMap.get?_set]
    split
    · rename_i hk
      exact hk ▸ entry
    · exact h.entries k
  · intro k hk
    obtain ⟨hnone, name, required, pinned, hspec⟩ := h.noTarget k hk
    have hne : k ≠ key := by
      intro heq
      exact other name required pinned (heq ▸ hspec)
    exact ⟨(OrderedMap.get?_set_of_ne acc.merged merged hne).trans hnone, name, required, pinned,
      hspec⟩

theorem get?_resolve_out (acc : Accepted) (key : String) (answer : ResolvedToOne) (k : String) :
    (acc.resolve key answer).out.get? k =
      if k = key then (toStrapiRelation answer).or (acc.out.get? k) else acc.out.get? k := by
  unfold Accepted.resolve
  dsimp only
  cases toStrapiRelation answer with
  | none =>
      rw [Option.elim_none, Option.none_or, ite_self]
  | some relation =>
      rw [Option.elim_some, OrderedMap.get?_set, Option.some_or]

theorem get?_resolve_merged (acc : Accepted) (key : String) (answer : ResolvedToOne) (k : String) :
    (acc.resolve key answer).merged.get? k =
      if k = key then (mergedOf answer).or (acc.merged.get? k) else acc.merged.get? k := by
  unfold Accepted.resolve mergedOf
  dsimp only
  cases answer.target with
  | none => rw [Option.none_or, ite_self]
  | some target =>
      cases target with
      | none | some documentId => rw [OrderedMap.get?_set, Option.some_or]

variable {answer : ResolvedToOne} {name : RelationListCheckName} {kind : LaterKind}

theorem Sound.resolve (h : Sound rule env payload acc) (untouched : Untouched acc key)
    (entry : Entry rule env payload key (toStrapiRelation answer) (mergedOf answer))
    (spec : ∃ name required pinned,
      rule.fields.get? key = some (.relation name required pinned)) :
    Sound rule env payload (acc.resolve key answer) := by
  constructor
  · intro k
    rw [get?_resolve_out, get?_resolve_merged]
    by_cases hk : k = key
    · rw [if_pos hk, if_pos hk, hk, untouched.out, untouched.merged, Option.or_none, Option.or_none]
      exact entry
    · rw [if_neg hk, if_neg hk]
      exact h.entries k
  · intro k hk
    rw [get?_resolve_merged]
    by_cases heq : k = key
    · subst heq
      have hmerged : mergedOf answer = none := by
        unfold Accepted.resolve at hk
        dsimp only at hk
        split at hk
        · rename_i hnone
          unfold mergedOf
          rw [hnone]
        · exact absurd hk untouched.noTarget
      rw [if_pos rfl, hmerged, Option.none_or]
      exact ⟨untouched.merged, spec⟩
    · rw [if_neg heq]
      apply h.noTarget k
      unfold Accepted.resolve at hk
      dsimp only at hk
      split at hk
      · rcases List.mem_append.mp hk with hold | hnew
        · exact hold
        · exact absurd (List.mem_singleton.mp hnew) heq
      · exact hk

/-- What a resolved relation leaves untouched. -/
theorem Untouched.resolve {other : String} (h : Untouched acc other) (hne : other ≠ key) :
    Untouched (acc.resolve key answer) other := by
  constructor
  · rw [get?_resolve_out, if_neg hne]
    exact h.out
  · rw [get?_resolve_merged, if_neg hne]
    exact h.merged
  · unfold Accepted.resolve
    dsimp only
    split
    · rw [List.mem_append, List.mem_singleton, not_or]
      exact ⟨h.noTarget, hne⟩
    · exact h.noTarget

/-- The plain values are in order, and nothing else is touched by them. -/
theorem acceptValues_sound (hread : readPayload rule payload = .ok read) :
    Sound rule env payload (acceptValues read) ∧
      ∀ key reading, read.get? key = some reading → (∀ raw, reading ≠ .value raw) →
        Untouched (acceptValues read) key := by
  obtain ⟨rfl, horder, _⟩ := readPayload_ok hread
  have hget (key : String) : (acceptValues (readings rule payload)).out.get? key =
      ((readings rule payload).get? key).bind Reading.plain := OrderedMap.get?_filterMap _ _ key
  have hnone {key : String} {reading : Reading}
      (h : (readings rule payload).get? key = some reading) (hne : ∀ raw, reading ≠ .value raw) :
      (acceptValues (readings rule payload)).out.get? key = none := by
    rw [hget, h, Option.bind_some]
    cases reading with
    | value raw => exact absurd rfl (hne raw)
    | _ => rfl
  constructor
  · constructor
    · intro key
      have hsame : (acceptValues (readings rule payload)).merged.get? key =
          (acceptValues (readings rule payload)).out.get? key := rfl
      rw [hsame]
      cases hreading : (readings rule payload).get? key with
      | none =>
          rw [hget, hreading]
          exact .untouched
      | some reading =>
          by_cases hvalue : ∃ raw, reading = .value raw
          · obtain ⟨raw, rfl⟩ := hvalue
            obtain ⟨sent, hsent, hkey⟩ := readings_some hreading
            have hcases := readKey_cases hkey rfl
            have hraw : sent = raw := by cases hcases <;> rfl
            subst hraw
            rw [hget, hreading]
            exact .value hsent hcases
          · rw [hnone hreading fun raw heq => hvalue ⟨raw, heq⟩]
            exact .untouched
    · exact fun key hkey => absurd hkey List.not_mem_nil
  · intro key reading hreading hne
    exact ⟨hnone hreading hne, hnone hreading hne, List.not_mem_nil⟩

theorem checkRelation_ok {name : RelationCheckName} {input : ToOneRelationInput}
    (h : (checkRelation env acc key name input).result = .ok acc') :
    ∃ check answer, env.relationChecks name = some check ∧
      check input acc.resolved = some answer ∧ acc' = acc.resolve key answer := by
  unfold checkRelation at h
  split at h
  · cases h
  · rename_i check hcheck
    obtain ⟨_, hanswer, h⟩ := Gate.bind_ok.mp h
    cases hanswer
    split at h
    · cases h
    · rename_i answer hresult
      exact ⟨check, answer, hcheck, hresult, (Gate.pure_ok.mp h).symm⟩

/-- The relations of the remaining fields are untouched. -/
def RelationsUntouched (read : Readings) (rest : List (String × FieldSpec)) (acc : Accepted) :
    Prop :=
  ∀ field ∈ rest, ∀ input, read.get? field.1 = some (.relation input) → Untouched acc field.1

theorem checkRelations_sound (hread : readPayload rule payload = .ok read)
    (h : (checkRelations env read rule.fields.entries acc).result = .ok acc')
    (hsound : Sound rule env payload acc)
    (huntouched : RelationsUntouched read rule.fields.entries acc) :
    Sound rule env payload acc' := by
  obtain ⟨rfl, horder, _⟩ := readPayload_ok hread
  have hfinal := Gate.foldlM_rule
    (P := fun (rest : List (String × FieldSpec)) (acc : Accepted) =>
      Sound rule env payload acc ∧ RelationsUntouched (readings rule payload) rest acc ∧
        (rest.map Prod.fst).Nodup)
    rule.fields.entries ?_ h ⟨hsound, huntouched, rule.fields.nodup⟩
  · exact hfinal.1
  · intro field rest a a' hfield hstep hP
    obtain ⟨ha, hrest, hdistinct⟩ := hP
    rw [List.map_cons, List.nodup_cons] at hdistinct
    have hothers : ∀ other ∈ rest, other.1 ≠ field.1 := by
      intro other hother heq
      exact hdistinct.1 (heq ▸ List.mem_map_of_mem hother)
    split at hstep
    · rename_i name required pinned input hspec hinput
      obtain ⟨check, answer, hsupplied, hanswer, rfl⟩ := checkRelation_ok hstep
      have hget : rule.fields.get? field.1 = some (.relation name required pinned) :=
        OrderedMap.get?_eq_some.mpr (hspec ▸ hfield)
      obtain ⟨raw, hsent, hkey⟩ := readings_some hinput
      have hcases := readKey_cases hkey rfl
      cases hcases with
      | relation spec parsed one =>
          rw [hget] at spec
          cases spec
          refine ⟨?_, ?_, hdistinct.2⟩
          · exact ha.resolve (hrest field List.mem_cons_self input hinput)
              (.relation hsent hget parsed one hsupplied hanswer) ⟨name, required, pinned, hget⟩
          · intro other hother input' hinput'
            exact (hrest other (List.mem_cons_of_mem field hother) input' hinput').resolve
              (hothers other hother)
    · cases Gate.pure_ok.mp hstep
      exact ⟨ha, fun other hother => hrest other (List.mem_cons_of_mem field hother), hdistinct.2⟩

theorem checkList_ok {refs : List RelationRef}
    (h : (checkList env acc key name refs).result = .ok acc') :
    ∃ check documentIds, env.relationListChecks name = some check ∧
      check refs = some documentIds ∧
      acc' = acc.set key (setOf documentIds) (stringsJson documentIds) := by
  unfold checkList at h
  split at h
  · cases h
  · rename_i check hcheck
    obtain ⟨_, hanswer, h⟩ := Gate.bind_ok.mp h
    cases hanswer
    split at h
    · cases h
    · rename_i documentIds hresult
      exact ⟨check, documentIds, hcheck, hresult, (Gate.pure_ok.mp h).symm⟩

theorem checkDelta_ok {changes : RelationDelta}
    (h : (checkDelta env acc key name changes).result = .ok acc') :
    ∃ check connect disconnect, env.relationListChecks name = some check ∧
      check changes.connect = some connect ∧ check changes.disconnect = some disconnect ∧
      acc' = { acc with
        out := acc.out.set key (.obj [("connect", documentsJson connect),
          ("disconnect", documentsJson disconnect)]) } := by
  unfold checkDelta at h
  split at h
  · cases h
  · rename_i check hcheck
    obtain ⟨_, hconnect, h⟩ := Gate.bind_ok.mp h
    obtain ⟨_, hdisconnect, h⟩ := Gate.bind_ok.mp h
    cases hconnect
    cases hdisconnect
    split at h
    · rename_i connect disconnect hconnect hdisconnect
      split at h
      · cases h
      · exact ⟨check, connect, disconnect, hcheck, hconnect, hdisconnect, (Gate.pure_ok.mp h).symm⟩
    · cases h

theorem checkRoles_ok {types : List String} (h : (checkRoles env acc key types).result = .ok acc') :
    ∃ documentIds, (types = [] ∧ documentIds = [] ∨
        ∃ check, env.roleTypesCheck = some check ∧ check types = some documentIds) ∧
      acc' = acc.set key (setOf documentIds) (stringsJson types) := by
  unfold checkRoles at h
  split at h
  · rename_i hempty
    exact ⟨[], Or.inl ⟨hempty, rfl⟩, hempty ▸ (Gate.pure_ok.mp h).symm⟩
  · split at h
    · cases h
    · rename_i check hcheck
      obtain ⟨_, hanswer, h⟩ := Gate.bind_ok.mp h
      cases hanswer
      split at h
      · cases h
      · rename_i documentIds hresult
        exact ⟨documentIds, Or.inr ⟨check, hcheck, hresult⟩, (Gate.pure_ok.mp h).symm⟩

theorem checkMedia_ok {name : MediaCheckName} {fileId : Option Nat}
    (h : (checkMedia env acc key name fileId).result = .ok acc') :
    (fileId = none ∧ acc' = acc.set key .null .null) ∨
    (∃ id : Nat, currentFile env key = some (.num id) ∧ acc' = acc.set key (.num id) (.num id)) ∨
    ∃ id check authorized, fileId = some id ∧ env.mediaChecks name = some check ∧
      check id key = some authorized ∧
      acc' = acc.set key (.num authorized) (.num authorized) := by
  unfold checkMedia at h
  cases fileId with
  | none => exact Or.inl ⟨rfl, (Gate.pure_ok.mp h).symm⟩
  | some id =>
      dsimp only at h
      split at h
      · rename_i hcurrent
        exact Or.inr (Or.inl ⟨id, hcurrent, (Gate.pure_ok.mp h).symm⟩)
      · split at h
        · cases h
        · rename_i check hcheck
          obtain ⟨_, hanswer, h⟩ := Gate.bind_ok.mp h
          cases hanswer
          split at h
          · cases h
          · rename_i authorized hresult
            exact Or.inr (Or.inr ⟨id, check, authorized, rfl, hcheck, hresult,
              (Gate.pure_ok.mp h).symm⟩)

theorem Sound.delta {acc : Accepted} {key : String} {out : Json} (h : Sound rule env payload acc)
    (entry : Entry rule env payload key (some out) (acc.merged.get? key)) :
    Sound rule env payload { acc with out := acc.out.set key out } := by
  constructor
  · intro k
    dsimp only
    rw [OrderedMap.get?_set]
    split
    · rename_i hk
      exact hk ▸ entry
    · exact h.entries k
  · exact h.noTarget

theorem checkEntry_sound {entry : String × Reading}
    (hentry : (readings rule payload).get? entry.1 = some entry.2)
    (h : (checkEntry rule env kind acc entry).result = .ok acc')
    (hsound : Sound rule env payload acc) : Sound rule env payload acc' := by
  obtain ⟨key, reading⟩ := entry
  obtain ⟨raw, hsent, hkey⟩ := readings_some hentry
  unfold checkEntry at h
  split at h
  · rename_i refs name max pinned delta hreading hspec
    dsimp only at hreading hspec hkey
    subst hreading
    obtain ⟨check, documentIds, hsupplied, hanswer, rfl⟩ := checkList_ok h
    cases readKey_cases hkey rfl with
    | list spec parsed =>
        apply hsound.set (.list hsent spec parsed (by rw [spec] at hspec; cases hspec; exact hsupplied)
          hanswer)
        intro name' required pinned' hrelation
        rw [spec] at hrelation
        cases hrelation
  · rename_i changes name max pinned delta hreading hspec
    dsimp only at hreading hspec hkey
    subst hreading
    obtain ⟨check, connect, disconnect, hsupplied, hconnect, hdisconnect, rfl⟩ := checkDelta_ok h
    cases readKey_cases hkey rfl with
    | delta spec parsed =>
        exact hsound.delta (.delta hsent spec parsed
          (by rw [spec] at hspec; cases hspec; exact hsupplied) hconnect hdisconnect)
  · rename_i types hreading
    dsimp only at hreading hkey
    subst hreading
    obtain ⟨documentIds, hanswer, rfl⟩ := checkRoles_ok h
    cases readKey_cases hkey rfl with
    | roles spec parsed =>
        apply hsound.set (.roles hsent spec parsed hanswer)
        intro name' required pinned' hrelation
        rw [spec] at hrelation
        cases hrelation
  · rename_i fileId name hreading hspec
    dsimp only at hreading hspec hkey
    subst hreading
    have hother : ∀ name' required pinned',
        rule.fields.get? key ≠ some (.relation name' required pinned') := by
      intro name' required pinned' hrelation
      rw [hspec] at hrelation
      cases hrelation
    cases readKey_cases hkey rfl with
    | media spec parsed =>
        rcases checkMedia_ok h with hclear | hkept | hchecked
        · rw [hclear.2]
          exact hsound.set (.mediaCleared hspec) hother
        · obtain ⟨id, hcurrent, rfl⟩ := hkept
          have hkeep : currentFile env key = some (.num id) := hcurrent
          exact hsound.set (.mediaKept hspec hkeep) hother
        · obtain ⟨id, check, authorized, rfl, hsupplied, hanswer, rfl⟩ := hchecked
          exact hsound.set (.mediaChecked hsent hspec parsed hsupplied hanswer) hother
  · exact Gate.pure_ok.mp h ▸ hsound

theorem checkEntries_sound
    (h : (checkEntries rule env (readings rule payload) kind acc).result = .ok acc')
    (hsound : Sound rule env payload acc) : Sound rule env payload acc' := by
  apply Gate.foldlM_rule
    (P := fun (_ : List (String × Reading)) (acc : Accepted) => Sound rule env payload acc)
    (readings rule payload).entries _ h hsound
  intro entry rest a a' hentry hstep ha
  exact checkEntry_sound (OrderedMap.get?_eq_some.mpr hentry) hstep ha

/-- Whatever passes all checks is in order. -/
theorem checkTargets_sound (hread : readPayload rule payload = .ok read)
    (h : (checkTargets rule env read).result = .ok acc) : Sound rule env payload acc := by
  obtain ⟨hvalues, huntouched⟩ := @acceptValues_sound rule env payload read hread
  unfold checkTargets at h
  rw [Gate.bind_ok] at h
  obtain ⟨relations, hrelations, h⟩ := h
  rw [Gate.bind_ok] at h
  obtain ⟨lists, hlists, h⟩ := h
  rw [Gate.bind_ok] at h
  obtain ⟨deltas, hdeltas, h⟩ := h
  rw [Gate.bind_ok] at h
  obtain ⟨roles, hroles, hmedia⟩ := h
  have hstart := checkRelations_sound hread hrelations hvalues
    fun field _ input hinput => huntouched field.1 _ hinput fun raw heq => by cases heq
  obtain ⟨rfl, _, _⟩ := readPayload_ok hread
  exact checkEntries_sound hmedia (checkEntries_sound hroles (checkEntries_sound hdeltas
    (checkEntries_sound hlists hstart)))


end Folds

end Sinnlos.Cms.Write

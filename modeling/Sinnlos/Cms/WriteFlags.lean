import Sinnlos.Cms.WriteResult

/-!
# Targeting flags of written rows

A flag is `all` or `departments`, and derived from the linked targets only when
a payload says where the item points. No accepted write widens it beyond what
the row links afterwards.
-/

namespace Sinnlos.Cms.Write

/-! ## The derivations -/

def AUDIENCE_DEPARTMENTS : String := "departments"

def AUDIENCE_ALL : String := "all"

/-- Some target is linked, as merged values have it. -/
def linked : Option Json → Bool
  | none => false
  | some .null => false
  | some (.arr items) => !items.isEmpty
  | some _ => true

/-- The flag of the targets under `keys`, re-derived when the payload carries one of them. -/
def audienceOf (keys : List String) : MergedDerivation where
  «when» := keys
  derive merged :=
    .str (if keys.any fun key => linked (merged.get? key) then AUDIENCE_DEPARTMENTS
      else AUDIENCE_ALL)

def ANNOUNCEMENT_AUDIENCE : MergedDerivation := audienceOf ["department", "team"]

/-- Lowered only by an explicit new target. -/
def ANNOUNCEMENT_RETARGET : MergedDerivation where
  «when» := ["department", "team", "audienceRoles"]
  derive _ := .bool false

def DEPARTMENTS_FLAG : MergedDerivation := audienceOf ["departments"]

/-! ## The links of a row -/

/-- The documents that a stored relation links. -/
def linksOf : Option Json → List String
  | some (.str documentId) => [documentId]
  | some (.arr items) => items.filterMap Json.str?
  | _ => []

/-- The documents that a relation payload names. -/
def documentsOf : Json → List String
  | .arr items =>
      items.filterMap fun item =>
        (item.fields?.bind (Json.field? "documentId")).bind Json.str?
  | _ => []

/-- The links of a row once a payload is written over it: `set` replaces them, null clears them,
`disconnect` takes some away, and a missing key leaves them. -/
def linksAfter (stored : List String) : Option Json → List String
  | none => stored
  | some .null => []
  | some (.obj [(operation, documents)]) =>
      if operation = "set" then documentsOf documents
      else if operation = "disconnect" then
        stored.filter fun documentId => documentId ∉ documentsOf documents
      else stored
  | some _ => stored

theorem documentsOf_documentsJson (documentIds : List String) :
    documentsOf (documentsJson documentIds) = documentIds := by
  unfold documentsJson
  dsimp only [documentsOf]
  rw [List.filterMap_map]
  induction documentIds with
  | nil => rfl
  | cons documentId rest ih =>
      rw [List.filterMap_cons, ih]
      rfl

theorem linksAfter_set (stored documentIds : List String) :
    linksAfter stored (some (setOf documentIds)) = documentIds := by
  unfold setOf
  dsimp only [linksAfter]
  rw [if_pos rfl, documentsOf_documentsJson]

/-- What is not linked names no document. -/
theorem linksOf_of_not_linked {value : Option Json} (h : linked value = false) :
    linksOf value = [] := by
  unfold linked at h
  split at h
  · rfl
  · rfl
  · rename_i items
    rw [Bool.not_eq_false'] at h
    rw [List.isEmpty_iff.mp h]
    rfl
  · cases h

/-- A relation without a target only takes links away. -/
theorem linksAfter_noTarget {answer : ResolvedToOne} (h : answer.target = none)
    {stored : List String} (hnone : stored = []) :
    linksAfter stored (toStrapiRelation answer) = [] := by
  subst hnone
  unfold toStrapiRelation
  rw [h]
  dsimp only
  split
  · rfl
  · rfl

/-! ## Flags of a rule -/

/-- The spec of a relation that a flag may read: one that is never written as changes. -/
def FieldSpec.isTarget : FieldSpec → Bool
  | .relation _ _ _ => true
  | .relationList _ _ _ delta => !delta
  | _ => false

/-- The rule derives `flag` from the relations under `targets`, and sets neither in another way. -/
structure TargetFlag (rule : WriteRule) (flag : String) (targets : List String) : Prop where
  derivation : rule.derivedFromMerged.get? flag = some (audienceOf targets)
  notField : rule.fields.get? flag = none
  notDerived : flag ∉ rule.derivedFields.keys
  notCreated : flag ∉ rule.derivedOnCreate.keys
  notCaller : flag ∉ rule.callerFields
  targets : ∀ target ∈ targets,
    (rule.fields.get? target).any FieldSpec.isTarget = true ∧ ¬ ServerSet rule target

/-- The links of the stored draft under a key. -/
def storedLinks (env : WriteRuleEnvironment) (key : String) : List String :=
  linksOf (env.existing.bind fun existing => existing.get? key)

/-- The links under a key after the write. -/
def writtenLinks (env : WriteRuleEnvironment) (out : Record) (key : String) : List String :=
  linksAfter (storedLinks env key) (out.get? key)

section Flags

variable {rule : WriteRule} {env : WriteRuleEnvironment} {data : Json} {out payload : Record}
  {acc : Accepted} {created : Record} {key target : String} {value merged : Option Json}

/-- Nothing is accepted under a key that is no field. -/
theorem Entry.of_no_field (h : Entry rule env payload key value merged)
    (hfield : rule.fields.get? key = none) : value = none := by
  cases h with
  | untouched => rfl
  | value sent read => cases read with
    | value spec | controller spec => rw [hfield] at spec; cases spec
  | relation sent spec | list sent spec | delta sent spec | roles sent spec | mediaCleared spec
  | mediaKept spec | mediaChecked sent spec => rw [hfield] at spec; cases spec

/-- What can stand under a target: nothing, a resolved relation, or a list. -/
theorem Entry.of_target (h : Entry rule env payload key value merged)
    (htarget : (rule.fields.get? key).any FieldSpec.isTarget = true) :
    value = none ∧ merged = none ∨
      (key ∈ payload.keys ∧ ∃ answer, value = toStrapiRelation answer ∧ merged = mergedOf answer) ∨
      (key ∈ payload.keys ∧ ∃ documentIds,
        value = some (setOf documentIds) ∧ merged = some (stringsJson documentIds)) := by
  cases h with
  | untouched => exact Or.inl ⟨rfl, rfl⟩
  | value sent read => cases read with
    | value spec | controller spec => rw [spec] at htarget; cases htarget
  | relation sent => exact Or.inr (Or.inl ⟨OrderedMap.mem_keys_of_get? sent, _, rfl, rfl⟩)
  | list sent => exact Or.inr (Or.inr ⟨OrderedMap.mem_keys_of_get? sent, _, rfl, rfl⟩)
  | delta sent spec | roles sent spec | mediaCleared spec | mediaKept spec
  | mediaChecked sent spec => rw [spec] at htarget; cases htarget

theorem get?_mergedRecord (env : WriteRuleEnvironment) (acc : Accepted) (key : String) :
    (mergedRecord env acc).get? key =
      (acc.merged.get? key).or (env.existing.bind fun existing => existing.get? key) := by
  unfold mergedRecord
  rw [OrderedMap.get?_overlay]
  cases env.existing <;> rfl

/-- A target that is not linked once the payload is merged links nothing after the write. -/
theorem writtenLinks_of_not_linked (h : Applied data rule env out payload acc created)
    (htarget : (rule.fields.get? target).any FieldSpec.isTarget = true)
    (hserver : ¬ ServerSet rule target)
    (hlinked : linked ((mergedRecord env acc).get? target) = false) :
    writtenLinks env out target = [] := by
  unfold writtenLinks
  rw [out_of_not_serverSet h hserver]
  rw [get?_mergedRecord] at hlinked
  rcases (h.sound.entries target).of_target htarget with hnone | hrelation | hlist
  · rw [hnone.2, Option.none_or] at hlinked
    rw [hnone.1]
    exact linksOf_of_not_linked hlinked
  · obtain ⟨_, answer, hout, hmerged⟩ := hrelation
    rw [hmerged] at hlinked
    rw [hout]
    unfold mergedOf at hlinked
    cases hanswer : answer.target with
    | none =>
        rw [hanswer, Option.none_or] at hlinked
        exact linksAfter_noTarget hanswer (linksOf_of_not_linked hlinked)
    | some target' =>
        cases target' with
        | none =>
            unfold toStrapiRelation
            rw [hanswer]
            rfl
        | some documentId =>
            rw [hanswer] at hlinked
            cases hlinked
  · obtain ⟨_, documentIds, hout, hmerged⟩ := hlist
    rw [hmerged, Option.some_or] at hlinked
    rw [hout, linksAfter_set]
    cases documentIds with
    | nil => rfl
    | cons first rest => cases hlinked

variable {flag : String} {targets : List String}

/-- The flag is what the derivation says, where the payload says where the item points. -/
theorem get?_flag (h : Applied data rule env out payload acc created)
    (hflag : TargetFlag rule flag targets) :
    out.get? flag =
      if targets.any fun key => key ∈ carriedKeys payload acc then
        some ((audienceOf targets).derive (mergedRecord env acc))
      else none := by
  have haccepted : acc.out.get? flag = none :=
    (h.sound.entries flag).of_no_field hflag.notField
  rw [get?_out h, get?_callerValues, if_neg hflag.notCaller,
    created_none h.server hflag.notCreated, derived_none hflag.notDerived, haccepted]
  unfold mergedValues
  rw [OrderedMap.get?_filterMap, hflag.derivation, Option.bind_some]
  simp only [Option.none_or, Option.or_none]
  by_cases hcarried : (targets.any fun key => key ∈ carriedKeys payload acc) = true
  · rw [if_pos hcarried]
    exact if_pos hcarried
  · rw [if_neg hcarried]
    exact if_neg hcarried

/-- A written flag is `all` only over a row that links no target. -/
theorem flag_all_links_none (h : Applied data rule env out payload acc created)
    (hflag : TargetFlag rule flag targets) (hall : out.get? flag = some (.str AUDIENCE_ALL)) :
    ∀ target ∈ targets, writtenLinks env out target = [] := by
  rw [get?_flag h hflag] at hall
  split at hall
  · dsimp only [audienceOf] at hall
    split at hall
    · exact absurd (Json.str.inj (Option.some.inj hall)) (by decide)
    · rename_i hunlinked
      intro target htarget
      have hnot : linked ((mergedRecord env acc).get? target) = false := by
        rw [Bool.not_eq_true, List.any_eq_false] at hunlinked
        exact Bool.eq_false_iff.mpr (hunlinked target htarget)
      obtain ⟨hspec, hserver⟩ := hflag.targets target htarget
      exact writtenLinks_of_not_linked h hspec hserver hnot
  · cases hall

/-- A target that the payload does not carry only loses links. -/
theorem writtenLinks_of_not_carried (h : Applied data rule env out payload acc created)
    (htarget : (rule.fields.get? target).any FieldSpec.isTarget = true)
    (hserver : ¬ ServerSet rule target) (hcarried : target ∉ carriedKeys payload acc)
    (hstored : storedLinks env target = []) : writtenLinks env out target = [] := by
  have hsilent (hsent : target ∈ payload.keys) : acc.merged.get? target = none := by
    have hnone : target ∈ acc.noTarget := by
      by_contra hne
      exact hcarried (List.mem_filter.mpr ⟨hsent, decide_eq_true hne⟩)
    exact (h.sound.noTarget target hnone).1
  unfold writtenLinks
  rw [out_of_not_serverSet h hserver]
  rcases (h.sound.entries target).of_target htarget with hnone | hrelation | hlist
  · rw [hnone.1]
    exact hstored
  · obtain ⟨hsent, answer, hout, hmerged⟩ := hrelation
    rw [hsilent hsent] at hmerged
    rw [hout]
    unfold mergedOf at hmerged
    cases hanswer : answer.target with
    | none => exact linksAfter_noTarget hanswer hstored
    | some target' =>
        rw [hanswer] at hmerged
        cases target' <;> cases hmerged
  · obtain ⟨hsent, documentIds, _, hmerged⟩ := hlist
    rw [hsilent hsent] at hmerged
    cases hmerged

/-- Where `before` was the flag of the stored links, the flag after the write admits no more than
the links after it. -/
theorem flag_stays_narrow (h : Applied data rule env out payload acc created)
    (hflag : TargetFlag rule flag targets) {before : Option Json}
    (hmatched : before = some (.str AUDIENCE_ALL) →
      ∀ target ∈ targets, storedLinks env target = [])
    (hafter : (out.get? flag).or before = some (.str AUDIENCE_ALL)) :
    ∀ target ∈ targets, writtenLinks env out target = [] := by
  cases hwritten : out.get? flag with
  | some value =>
      rw [hwritten, Option.some_or] at hafter
      exact flag_all_links_none h hflag (hwritten.trans hafter)
  | none =>
      rw [hwritten, Option.none_or] at hafter
      intro target htarget
      obtain ⟨hspec, hserver⟩ := hflag.targets target htarget
      rw [get?_flag h hflag] at hwritten
      split at hwritten
      · cases hwritten
      · rename_i hcarried
        rw [Bool.not_eq_true, List.any_eq_false] at hcarried
        have hnot : target ∉ carriedKeys payload acc := by
          intro hmem
          exact hcarried target htarget (decide_eq_true hmem)
        exact writtenLinks_of_not_carried h hspec hserver hnot (hmatched hafter target htarget)

end Flags

end Sinnlos.Cms.Write

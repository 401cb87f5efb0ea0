import Sinnlos.Lib.Dependencies
import Sinnlos.Lib.OrderedMap
import Sinnlos.Lib.Utf16
import Mathlib.Data.List.Lex
import Mathlib.Data.List.Sort

/-!
# The order of the draft repair

`planDraftTwinTypes` of `apps/cms/src/utils/draft-twins.ts`: the target of a
unidirectional relation is repaired before its source. What cannot be placed
because of a cycle is appended in the order of the alphabet.
-/

namespace Sinnlos.Cms.DraftTwins

open Dependencies Relation

/-! ## Content types -/

/-- The slice of an attribute that the planner reads. -/
structure DraftTwinAttribute where
  type : Option String
  target : Option String
  inversedBy : Option String
  mappedBy : Option String
deriving DecidableEq

structure DraftTwinModel where
  /-- Whether `options.draftAndPublish` is `true`. -/
  draftAndPublish : Bool
  attributes : List (Option DraftTwinAttribute)

abbrev ContentTypes := OrderedMap String (Option DraftTwinModel)

structure DraftTwinPlan where
  order : List String
  cyclic : List String
deriving DecidableEq

/-- A text that counts as true. -/
def truthy (text : Option String) : Bool := text.any (· ≠ "")

def isRepairable (uid : String) (model : Option DraftTwinModel) (skipped : List String) : Bool :=
  "api::".toList.isPrefixOf uid.toList ∧ model.any DraftTwinModel.draftAndPublish ∧ uid ∉ skipped

/-- The code units by which `sort` compares. -/
def codeUnits (text : String) : List Nat := (Utf16.encode text.toList).map UInt16.toNat

/-- The types to repair, in the order of the alphabet. -/
def repairableTypes (contentTypes : ContentTypes) (skipped : List String) : List String :=
  (contentTypes.keys.filter fun uid =>
    isRepairable uid (contentTypes.get? uid).join skipped).insertionSort
      fun a b => codeUnits a ≤ codeUnits b

/-- The target of a relation that only its own side knows. -/
def unidirectionalTarget (field : DraftTwinAttribute) : Option String :=
  if field.type ≠ some "relation" then none
  else if truthy field.inversedBy ∨ truthy field.mappedBy then none
  else field.target.filter (· ≠ "")

/-- The types that must be repaired before a type. -/
def before (contentTypes : ContentTypes) (candidates : List String) (uid : String) : List String :=
  let fields := ((contentTypes.get? uid).join.map DraftTwinModel.attributes).getD []
  (fields.filterMap fun field => field.bind unidirectionalTarget).filter
    fun target => target ≠ uid ∧ target ∈ candidates

/-- The first type that is not done and whose targets are. -/
def nextReady (uids : List String) (needed : String → List String) (done : List String) :
    Option String :=
  uids.find? fun uid => uid ∉ done ∧ (needed uid).all (· ∈ done)

/-- The loop, which begins again at A after every type that it places. -/
def placeReady (uids : List String) (needed : String → List String) :
    Nat → List String → Option (List String)
  | 0, _ => none
  | fuel + 1, done =>
      match nextReady uids needed done with
      | none => some done
      | some uid => placeReady uids needed fuel (done ++ [uid])

/-- Which types to repair, and in which order. -/
def planDraftTwinTypes (contentTypes : ContentTypes) (skipped : List String) :
    Option DraftTwinPlan :=
  let uids := repairableTypes contentTypes skipped
  (placeReady uids (before contentTypes uids) (uids.length + 1) []).map fun order =>
    let cyclic := uids.filter fun uid => uid ∉ order
    { order := order ++ cyclic, cyclic }

/-! ## Placing what is ready -/

section

variable {uids done : List String} {needed : String → List String}

theorem placeReady_succ (fuel : Nat) : placeReady uids needed (fuel + 1) done =
    match nextReady uids needed done with
    | none => some done
    | some uid => placeReady uids needed fuel (done ++ [uid]) := rfl

/-- A listed type needs another one. -/
def Needs (uids : List String) (needed : String → List String) (x y : String) : Prop :=
  x ∈ uids ∧ y ∈ needed x

/-- Every type that is needed is placed before the one that needs it. -/
structure Placed (uids : List String) (needed : String → List String) (done : List String) :
    Prop where
  listed : ∀ uid ∈ done, uid ∈ uids
  nodup : done.Nodup
  inOrder : InOrder (Needs uids needed) done

variable {uid : String}

theorem nextReady_spec (h : nextReady uids needed done = some uid) :
    uid ∈ uids ∧ uid ∉ done ∧ ∀ y ∈ needed uid, y ∈ done := by
  have hready := List.find?_some h
  rw [decide_eq_true_eq, List.all_eq_true] at hready
  exact ⟨List.mem_of_find?_eq_some h, hready.1, fun y hy => of_decide_eq_true (hready.2 y hy)⟩

theorem nextReady_none (h : nextReady uids needed done = none) (hmem : uid ∈ uids)
    (hnot : uid ∉ done) : ∃ y ∈ needed uid, y ∉ done := by
  have hstuck := List.find?_eq_none.mp h uid hmem
  rw [decide_eq_true_eq, List.all_eq_true] at hstuck
  by_contra hall
  push Not at hall
  exact hstuck ⟨hnot, fun y hy => decide_eq_true (hall y hy)⟩

theorem Placed.step (placed : Placed uids needed done) (h : nextReady uids needed done = some uid) :
    Placed uids needed (done ++ [uid]) := by
  obtain ⟨hmem, hnew, hneeded⟩ := nextReady_spec h
  exact {
    listed := by
      intro x hx
      rcases List.mem_append.mp hx with hold | hlast
      · exact placed.listed x hold
      · exact List.mem_singleton.mp hlast ▸ hmem
    nodup := by
      rw [List.nodup_append]
      refine ⟨placed.nodup, List.nodup_singleton uid, ?_⟩
      intro a ha b hb heq
      rw [List.mem_singleton.mp hb] at heq
      exact hnew (heq ▸ ha)
    inOrder := placed.inOrder.concat fun y hy => hneeded y hy.2 }

/-- The loop ends when nothing is ready any more. -/
theorem placeReady_spec (fuel : Nat) (placed : Placed uids needed done)
    (enough : uids.length < fuel + done.length) :
    ∃ order, placeReady uids needed fuel done = some order ∧ Placed uids needed order ∧
      nextReady uids needed order = none := by
  induction fuel generalizing done with
  | zero =>
      have hsubset : done ⊆ uids := fun x hx => placed.listed x hx
      have hlen := (List.subperm_of_subset placed.nodup hsubset).length_le
      omega
  | succ fuel ih =>
      rw [placeReady_succ]
      cases hnext : nextReady uids needed done with
      | none => exact ⟨done, rfl, placed, hnext⟩
      | some uid =>
          have hlen : (done ++ [uid]).length = done.length + 1 := by simp
          exact ih (placed.step hnext) (by omega)

/-- What is left over is what leads to a cycle. -/
theorem Placed.left_iff (placed : Placed uids needed done)
    (stuck : nextReady uids needed done = none) (inside : ∀ x, ∀ y ∈ needed x, y ∈ uids)
    (hmem : uid ∈ uids) : uid ∉ done ↔ LeadsToCycle (Needs uids needed) uid := by
  constructor
  · intro hnot
    have hleft : uid ∈ uids.filter fun uid => uid ∉ done := by simp [hmem, hnot]
    refine leadsToCycle_of_stuck ?_ hleft
    intro x hx
    rw [List.mem_filter, decide_eq_true_eq] at hx
    obtain ⟨y, hy, hynot⟩ := nextReady_none stuck hx.1 hx.2
    refine ⟨y, ?_, hx.1, hy⟩
    rw [List.mem_filter, decide_eq_true_eq]
    exact ⟨inside x y hy, hynot⟩
  · intro hleads hdone
    exact placed.inOrder.not_leadsToCycle hdone hleads

end

/-! ## The plan -/

section

variable (contentTypes : ContentTypes) (skipped : List String)

def Repairable (uid : String) : Prop :=
  ∃ model, contentTypes.get? uid = some model ∧ isRepairable uid model skipped = true

/-- A repairable type holds a unidirectional relation to another one. -/
def Relates (source target : String) : Prop :=
  Repairable contentTypes skipped source ∧ Repairable contentTypes skipped target ∧
    target ≠ source ∧ ∃ model field, contentTypes.get? source = some (some model) ∧
      some field ∈ model.attributes ∧ unidirectionalTarget field = some target

/-- A plan that repairs every type once and targets first, but for what leads to a
cycle, which it names and appends. -/
structure SoundPlan (plan : DraftTwinPlan) : Prop where
  nodup : plan.order.Nodup
  complete : ∀ uid, uid ∈ plan.order ↔ Repairable contentTypes skipped uid
  targets_first : ∀ source target, Relates contentTypes skipped source target →
    ¬ LeadsToCycle (Relates contentTypes skipped) source →
    plan.order.idxOf target < plan.order.idxOf source
  cyclic : ∀ uid, uid ∈ plan.cyclic ↔ LeadsToCycle (Relates contentTypes skipped) uid
  appended : ∃ placed, plan.order = placed ++ plan.cyclic
  alphabetical : plan.cyclic.Pairwise fun a b => codeUnits a ≤ codeUnits b

variable {contentTypes skipped}

theorem mem_repairableTypes {uid : String} :
    uid ∈ repairableTypes contentTypes skipped ↔ Repairable contentTypes skipped uid := by
  unfold repairableTypes Repairable
  rw [List.mem_insertionSort, List.mem_filter, OrderedMap.mem_keys]
  constructor
  · intro h
    obtain ⟨model, hmodel⟩ := h.1
    refine ⟨model, hmodel, ?_⟩
    rw [hmodel] at h
    exact h.2
  · intro h
    obtain ⟨model, hmodel, hrepairable⟩ := h
    rw [hmodel]
    exact ⟨⟨model, rfl⟩, hrepairable⟩

theorem nodup_repairableTypes : (repairableTypes contentTypes skipped).Nodup := by
  unfold repairableTypes
  rw [(List.perm_insertionSort _ _).nodup_iff]
  exact contentTypes.keys_nodup.filter _

/-- Texts are compared by the order of their code units. -/
theorem sorted_repairableTypes :
    (repairableTypes contentTypes skipped).Pairwise fun a b => codeUnits a ≤ codeUnits b := by
  have htotal : Std.Total fun a b : String => codeUnits a ≤ codeUnits b :=
    ⟨fun a b => le_total (codeUnits a) (codeUnits b)⟩
  have htrans : IsTrans String fun a b => codeUnits a ≤ codeUnits b :=
    ⟨fun _ _ _ => le_trans⟩
  exact List.pairwise_insertionSort _ _

/-- The map of the targets is the relation between the types. -/
theorem needs_iff {source target : String} :
    Needs (repairableTypes contentTypes skipped)
        (before contentTypes (repairableTypes contentTypes skipped)) source target ↔
      Relates contentTypes skipped source target := by
  unfold Needs before Relates
  rw [mem_repairableTypes, List.mem_filter, List.mem_filterMap, decide_eq_true_eq,
    mem_repairableTypes]
  constructor
  · intro h
    obtain ⟨hsource, hfield, hne, htarget⟩ := h
    obtain ⟨field, hmem, hread⟩ := hfield
    cases hget : contentTypes.get? source with
    | none => simp [hget] at hmem
    | some model =>
        cases model with
        | none => simp [hget] at hmem
        | some model =>
            cases field with
            | none => cases hread
            | some field =>
                have hlisted : some field ∈ model.attributes := by simpa [hget] using hmem
                exact ⟨hsource, htarget, hne, model, field, rfl, hlisted, hread⟩
  · intro h
    obtain ⟨hsource, htarget, hne, model, field, hget, hmem, hread⟩ := h
    exact ⟨hsource, ⟨some field, by simpa [hget] using hmem, hread⟩, hne, htarget⟩

/-- The plan is made for all content types. -/
theorem draftTwinPlan_sound (contentTypes : ContentTypes) (skipped : List String) :
    ∃ plan, planDraftTwinTypes contentTypes skipped = some plan ∧
      SoundPlan contentTypes skipped plan := by
  have hnone : Placed (repairableTypes contentTypes skipped)
      (before contentTypes (repairableTypes contentTypes skipped)) [] :=
    ⟨by simp, List.nodup_nil, inOrder_nil⟩
  obtain ⟨placed, hplaced, hspec, hstuck⟩ :=
    placeReady_spec ((repairableTypes contentTypes skipped).length + 1) hnone (by simp)
  have hrelation : Needs (repairableTypes contentTypes skipped)
      (before contentTypes (repairableTypes contentTypes skipped)) =
        Relates contentTypes skipped := by
    funext source target
    exact propext needs_iff
  have hinside (x y : String)
      (hy : y ∈ before contentTypes (repairableTypes contentTypes skipped) x) :
      y ∈ repairableTypes contentTypes skipped := by
    unfold before at hy
    rw [List.mem_filter, decide_eq_true_eq] at hy
    exact hy.2.2
  have hleft (uid : String) (hmem : uid ∈ repairableTypes contentTypes skipped) :
      uid ∉ placed ↔ LeadsToCycle (Relates contentTypes skipped) uid := by
    rw [← hrelation]
    exact hspec.left_iff hstuck hinside hmem
  refine ⟨_, by simp only [planDraftTwinTypes, hplaced, Option.map_some]; rfl, ?_⟩
  exact {
    nodup := by
      rw [List.nodup_append]
      refine ⟨hspec.nodup, nodup_repairableTypes.filter _, ?_⟩
      intro a ha b hb heq
      rw [List.mem_filter, decide_eq_true_eq] at hb
      exact hb.2 (heq ▸ ha)
    complete := by
      intro uid
      rw [← mem_repairableTypes, List.mem_append, List.mem_filter, decide_eq_true_eq]
      have hlisted := hspec.listed uid
      tauto
    targets_first := by
      intro source target hrelates hleads
      have hsource : source ∈ placed := by
        by_contra hnot
        exact hleads ((hleft source (mem_repairableTypes.mpr hrelates.1)).mp hnot)
      rw [← needs_iff] at hrelates
      have hlt := hspec.inOrder.idxOf_lt hsource hrelates
      show (placed ++ _).idxOf target < (placed ++ _).idxOf source
      rw [List.idxOf_append_of_mem hlt.1, List.idxOf_append_of_mem hsource]
      exact hlt.2
    cyclic := by
      intro uid
      rw [List.mem_filter, decide_eq_true_eq]
      constructor
      · intro h
        exact (hleft uid h.1).mp h.2
      · intro h
        obtain ⟨target, hrelates⟩ := h.exists_needs
        have hmem := mem_repairableTypes.mpr hrelates.1
        exact ⟨hmem, (hleft uid hmem).mpr h⟩
    appended := ⟨placed, rfl⟩
    alphabetical := sorted_repairableTypes.sublist List.filter_sublist }

end

/-! ## A type that depends on a cycle -/

/-- A draft & publish type with relations to others. -/
def relationTo (targets : List String) : Option DraftTwinModel :=
  some ⟨true, targets.map fun target => some ⟨some "relation", some target, none, none⟩⟩

/-- One type with a relation to the first of two that have relations to each other. -/
def dependentTypes : ContentTypes :=
  ((OrderedMap.empty.set "api::a.a" (relationTo ["api::b.b"])).set "api::b.b"
    (relationTo ["api::c.c"])).set "api::c.c" (relationTo ["api::b.b"])

/-- The dependent type is reported and comes before the type that it points to,
although nothing leads back to it. -/
theorem dependent_before_cycle :
    planDraftTwinTypes dependentTypes [] =
        some ⟨["api::a.a", "api::b.b", "api::c.c"], ["api::a.a", "api::b.b", "api::c.c"]⟩ ∧
      Relates dependentTypes [] "api::a.a" "api::b.b" ∧
      ∀ source, ¬ Relates dependentTypes [] source "api::a.a" := by
  have hplan : planDraftTwinTypes dependentTypes [] =
        some ⟨["api::a.a", "api::b.b", "api::c.c"], ["api::a.a", "api::b.b", "api::c.c"]⟩ ∧
      ("api::a.a" ∈ repairableTypes dependentTypes [] ∧
        "api::b.b" ∈ before dependentTypes (repairableTypes dependentTypes []) "api::a.a") ∧
      ∀ source ∈ repairableTypes dependentTypes [],
        "api::a.a" ∉ before dependentTypes (repairableTypes dependentTypes []) source := by
    decide +kernel
  refine ⟨hplan.1, needs_iff.mp hplan.2.1, ?_⟩
  intro source h
  have hneeds := needs_iff.mpr h
  exact hplan.2.2 source hneeds.1 hneeds.2

end Sinnlos.Cms.DraftTwins

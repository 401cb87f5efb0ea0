import Sinnlos.Web.OrgTreeWalks

/-!
# The org chart is a forest of everybody

When all walks are done no cycle is left, so that the chart is a finite forest in
which every id occurs once, under exactly the references that were kept.
-/

namespace Sinnlos.Web.OrgChart

open Distinct ParentGraph

variable {P ι : Type} [DecidableEq ι]

section

variable {ids : List ι} {initial chart : Chart ι}

/-! ## Drawing -/

/-- Whether a person is drawn among the regular roots, or among the marked ones. -/
def IsRegular (chart : Chart ι) (x : ι) : Bool := chart.parent x = none ∧ chart.issue x = none

def IsMarked (chart : Chart ι) (x : ι) : Bool := chart.parent x = none ∧ chart.issue x ≠ none

/-- One person is drawn once. -/
theorem place_spec (hparent : ∀ x y, chart.parent x = some y → y ∈ ids) (drawn : Drawn ι) (id : ι) :
    ∃ next, place ids chart drawn id = some next ∧
      (∀ y, next.children y =
        drawn.children y ++ if chart.parent id = some y then [id] else []) ∧
      next.roots = drawn.roots ++ (if IsRegular chart id then [id] else []) ∧
      next.marked = drawn.marked ++ (if IsMarked chart id then [id] else []) := by
  unfold place IsRegular IsMarked
  cases h : chart.parent id with
  | some manager =>
      dsimp only
      rw [if_pos (hparent id manager h)]
      refine ⟨_, rfl, ?_, by simp, by simp⟩
      intro y
      by_cases hsame : y = manager
      · simp [hsame]
      · have hne : ¬ manager = y := fun heq => hsame heq.symm
        simp [Function.update_of_ne hsame, hne]
  | none =>
      cases hissue : chart.issue id with
      | some issue | none => exact ⟨_, rfl, by simp⟩

/-- Persons are drawn below their parents and among the roots in their order. -/
theorem places_spec (hparent : ∀ x y, chart.parent x = some y → y ∈ ids) (people : List ι)
    (drawn : Drawn ι) :
    ∃ last, people.foldlM (place ids chart) drawn = some last ∧
      (∀ y, last.children y =
        drawn.children y ++ people.filter fun x => chart.parent x = some y) ∧
      last.roots = drawn.roots ++ people.filter (IsRegular chart) ∧
      last.marked = drawn.marked ++ people.filter (IsMarked chart) := by
  induction people generalizing drawn with
  | nil => exact ⟨drawn, rfl, by simp⟩
  | cons id rest ih =>
      obtain ⟨next, hnext, hchildren, hroots, hmarked⟩ := place_spec hparent drawn id
      obtain ⟨last, hlast, hchildren', hroots', hmarked'⟩ := ih next
      refine ⟨last, ?_, ?_, ?_, ?_⟩
      · rw [List.foldlM_cons, hnext, Option.bind_eq_bind, Option.bind_some, hlast]
      · intro y
        rw [hchildren', hchildren, List.filter_cons, List.append_assoc]
        by_cases h : chart.parent id = some y
        · simp [h]
        · simp [h]
      · rw [hroots', hroots, List.filter_cons, List.append_assoc]
        split <;> simp
      · rw [hmarked', hmarked, List.filter_cons, List.append_assoc]
        split <;> simp

end

/-! ## The whole chart -/

section

variable (idOf : P → ι) (managerOf : P → Option ι) (people : List P)

/-- The manager of a person, if that is somebody else on the list. -/
def reference (id : ι) : Option ι :=
  (personOf idOf people id).bind fun person =>
    (managerOf person).filter fun manager => manager ≠ id ∧ manager ∈ people.map idOf

def SelfManager (id : ι) : Prop :=
  ∃ person, personOf idOf people id = some person ∧ managerOf person = some id

/-- A person on a cycle of references who comes before the others in the input. -/
def FirstOfItsCycle (id : ι) : Prop :=
  FirstOfCycle (reference idOf managerOf people) (idsOf idOf people).idxOf id

def OrgTree.childrenOf (tree : OrgTree P ι) (id : ι) : List ι :=
  (tree.nodes id).elim [] OrgNode.children

def OrgTree.issueOf (tree : OrgTree P ι) (id : ι) : Option OrgIssue :=
  (tree.nodes id).bind OrgNode.issue

/-- A chart of everybody on a list. -/
structure Charts (tree : OrgTree P ι) : Prop where
  persons : ∀ id, (tree.nodes id).map OrgNode.person = personOf idOf people id
  /-- The forest is finite and shows every id once. -/
  once : ∃ visited, Visits tree.childrenOf tree.roots visited ∧ visited.Nodup ∧
    ∀ id, id ∈ visited ↔ id ∈ people.map idOf
  edges : ∀ id, (tree.childrenOf id).Nodup ∧ ∀ child, child ∈ tree.childrenOf id ↔
    Points (reference idOf managerOf people) child id ∧
      ¬ FirstOfItsCycle idOf managerOf people child
  selfManager : ∀ id, tree.issueOf id = some .selfManager ↔ SelfManager idOf managerOf people id
  breaker : ∀ id, tree.issueOf id = some .cycle ↔ FirstOfItsCycle idOf managerOf people id
  issues : tree.issues = {id | SelfManager idOf managerOf people id}.ncard +
    (cycles (reference idOf managerOf people)).ncard
  roots : ∃ regular marked, tree.roots = regular ++ marked ∧
    regular.Sublist (idsOf idOf people) ∧ marked.Sublist (idsOf idOf people) ∧
    (∀ id ∈ regular, tree.issueOf id = none) ∧ ∀ id ∈ marked, tree.issueOf id ≠ none

variable {idOf managerOf people} {id : ι}

theorem mem_idsOf : id ∈ idsOf idOf people ↔ id ∈ people.map idOf := by
  unfold idsOf
  rw [mem_keys_firsts]
  simp

theorem personOf_isSome : (personOf idOf people id).isSome ↔ id ∈ people.map idOf := by
  simp [personOf]

theorem initialChart_parent :
    (initialChart idOf managerOf people).parent = reference idOf managerOf people := by
  funext id
  simp only [initialChart, reference, mem_idsOf]

theorem initialChart_issue (id : ι) :
    (initialChart idOf managerOf people).issue id = some .selfManager ↔
      SelfManager idOf managerOf people id := by
  unfold initialChart SelfManager
  cases hperson : personOf idOf people id with
  | none => simp [hperson]
  | some person => simp [hperson]

theorem initialChart_noCycle (id : ι) :
    (initialChart idOf managerOf people).issue id ≠ some .cycle := by
  unfold initialChart
  cases hperson : personOf idOf people id with
  | none => simp [hperson]
  | some person =>
      simp only [hperson, Option.bind_some]
      split <;> simp

theorem SelfManager.reference_eq_none (h : SelfManager idOf managerOf people id) :
    reference idOf managerOf people id = none := by
  obtain ⟨person, hperson, hmanager⟩ := h
  simp [reference, hperson, hmanager]

theorem prepared_initialChart :
    Prepared (idsOf idOf people) (initialChart idOf managerOf people) where
  nodup := nodup_firsts people []
  inside x y h := by
    rw [initialChart_parent] at h
    unfold Points reference at h
    obtain ⟨person, hperson, hmanager⟩ := Option.bind_eq_some_iff.mp h
    have hlisted : (personOf idOf people x).isSome := by
      rw [hperson]
      rfl
    have hmanager' := Option.filter_eq_some_iff.mp hmanager
    rw [mem_idsOf, mem_idsOf]
    exact ⟨personOf_isSome.mp hlisted, (of_decide_eq_true hmanager'.2).2⟩
  unmarked _ := rfl
  self x h := by
    have hissue : (initialChart idOf managerOf people).issue x = some .selfManager := by
      cases hissue : (initialChart idOf managerOf people).issue x with
      | none => exact absurd hissue h
      | some issue =>
          cases issue with
          | selfManager => rfl
          | cycle => exact absurd hissue (initialChart_noCycle x)
    rw [initialChart_parent]
    exact ⟨((initialChart_issue x).mp hissue).reference_eq_none, hissue⟩

/-- A cycle's person has a manager, so nobody on one is their own. -/
theorem FirstOfItsCycle.not_selfManager (h : FirstOfItsCycle idOf managerOf people id) :
    ¬ SelfManager idOf managerOf people id := by
  intro hself
  obtain ⟨manager, hpoints, -⟩ := h.1.exists_points
  have hnone := hself.reference_eq_none
  rw [hpoints] at hnone
  cases hnone

variable {chart : Chart ι}

theorem Cut.issue_eq_cycle
    (cut : Cut (idsOf idOf people) (initialChart idOf managerOf people) chart) (id : ι) :
    chart.issue id = some .cycle ↔ FirstOfItsCycle idOf managerOf people id := by
  have hbreaker : IsBreaker (idsOf idOf people) (initialChart idOf managerOf people) id ↔
      FirstOfItsCycle idOf managerOf people id := by
    unfold IsBreaker FirstOfItsCycle
    rw [initialChart_parent]
  rw [← hbreaker]
  constructor
  · intro h
    by_contra hnot
    rw [(cut.kept id hnot).2] at h
    exact initialChart_noCycle id h
  · intro h
    exact (cut.cut id h).2

theorem Cut.issue_eq_selfManager
    (cut : Cut (idsOf idOf people) (initialChart idOf managerOf people) chart) (id : ι) :
    chart.issue id = some .selfManager ↔ SelfManager idOf managerOf people id := by
  have hcycle := cut.issue_eq_cycle id
  by_cases hbreaker : IsBreaker (idsOf idOf people) (initialChart idOf managerOf people) id
  · have hissue := (cut.cut id hbreaker).2
    have hfirst := hcycle.mp hissue
    simp [hissue, hfirst.not_selfManager]
  · rw [(cut.kept id hbreaker).2]
    exact initialChart_issue id

theorem Cut.parent_of_issue
    (cut : Cut (idsOf idOf people) (initialChart idOf managerOf people) chart)
    (h : chart.issue id ≠ none) : chart.parent id = none := by
  by_cases hbreaker : IsBreaker (idsOf idOf people) (initialChart idOf managerOf people) id
  · exact (cut.cut id hbreaker).1
  · have hkept := cut.kept id hbreaker
    rw [hkept.2] at h
    rw [hkept.1]
    exact (prepared_initialChart.self id h).1

/-- The marked roots are the persons who are their own managers and one of each cycle. -/
theorem Cut.length_marked
    (cut : Cut (idsOf idOf people) (initialChart idOf managerOf people) chart) :
    ((idsOf idOf people).filter (IsMarked chart)).length =
      {id | SelfManager idOf managerOf people id}.ncard +
        (cycles (reference idOf managerOf people)).ncard := by
  have prepared : Prepared (idsOf idOf people) (initialChart idOf managerOf people) :=
    prepared_initialChart
  have hmem (issue : OrgIssue) (id : ι) :
      id ∈ (idsOf idOf people).filter (fun id => chart.issue id = some issue) ↔
        id ∈ idsOf idOf people ∧ chart.issue id = some issue := by simp
  have hself (id : ι) : id ∈ (idsOf idOf people).filter
      (fun id => chart.issue id = some .selfManager) ↔ SelfManager idOf managerOf people id := by
    rw [hmem, cut.issue_eq_selfManager, mem_idsOf]
    constructor
    · exact And.right
    · intro h
      have hself := h
      obtain ⟨person, hperson, -⟩ := h
      exact ⟨personOf_isSome.mp (by rw [hperson]; rfl), hself⟩
  have hcycle (id : ι) : id ∈ (idsOf idOf people).filter
      (fun id => chart.issue id = some .cycle) ↔ FirstOfItsCycle idOf managerOf people id := by
    rw [hmem, cut.issue_eq_cycle]
    constructor
    · exact And.right
    · intro h
      obtain ⟨manager, hpoints, -⟩ := h.1.exists_points
      have hinside := prepared.inside id manager
      rw [initialChart_parent] at hinside
      exact ⟨(hinside hpoints).1, h⟩
  have hinjective (x y : ι) (hx : OnCycle (reference idOf managerOf people) x)
      (_ : OnCycle (reference idOf managerOf people) y)
      (hrank : (idsOf idOf people).idxOf x = (idsOf idOf people).idxOf y) : x = y := by
    obtain ⟨manager, hpoints, -⟩ := hx.exists_points
    have hinside := prepared.inside x manager
    rw [initialChart_parent] at hinside
    exact (List.idxOf_inj (hinside hpoints).1).mp hrank
  have hselfs : {id | SelfManager idOf managerOf people id}.ncard = _ :=
    ncard_of_mem_iff (prepared.nodup.filter _) hself
  rw [hselfs, ncard_cycles (prepared.nodup.filter _) hcycle hinjective]
  have hsplit : ∀ list : List ι, (list.filter (IsMarked chart)).length =
      (list.filter fun id => chart.issue id = some .selfManager).length +
        (list.filter fun id => chart.issue id = some .cycle).length := by
    intro list
    induction list with
    | nil => rfl
    | cons id rest ih =>
        cases hissue : chart.issue id with
        | none => simpa [List.filter_cons, IsMarked, hissue] using ih
        | some issue =>
            have hparent : chart.parent id = none := by
              apply cut.parent_of_issue
              rw [hissue]
              simp
            cases issue with
            | selfManager | cycle =>
                simp [IsMarked, hissue, hparent] at ih ⊢
                omega
  exact hsplit (idsOf idOf people)

theorem FirstOfItsCycle.listed (h : FirstOfItsCycle idOf managerOf people id) :
    id ∈ people.map idOf := by
  obtain ⟨manager, hpoints, -⟩ := h.1.exists_points
  rw [← initialChart_parent] at hpoints
  exact mem_idsOf.mp (prepared_initialChart.inside id manager hpoints).1

theorem SelfManager.listed (h : SelfManager idOf managerOf people id) : id ∈ people.map idOf := by
  obtain ⟨person, hperson, -⟩ := h
  apply personOf_isSome.mp
  rw [hperson]
  rfl

/-- A tree whose nodes and roots are drawn from a chart with all cycles cut. -/
structure DrawnFrom (idOf : P → ι) (people : List P) (chart : Chart ι) (tree : OrgTree P ι) :
    Prop where
  nodes : ∀ id, tree.nodes id = (personOf idOf people id).map fun person =>
    { person
      children := (idsOf idOf people).filter fun child => chart.parent child = some id
      issue := chart.issue id }
  roots : tree.roots = (idsOf idOf people).filter (IsRegular chart) ++
    (idsOf idOf people).filter (IsMarked chart)
  issues : tree.issues = ((idsOf idOf people).filter (IsMarked chart)).length

variable {tree : OrgTree P ι}

theorem DrawnFrom.childrenOf (drawn : DrawnFrom idOf people chart tree)
    (cut : Cut (idsOf idOf people) (initialChart idOf managerOf people) chart) (id : ι) :
    tree.childrenOf id =
      (idsOf idOf people).filter fun child => chart.parent child = some id := by
  unfold OrgTree.childrenOf
  rw [drawn.nodes]
  cases hperson : personOf idOf people id with
  | some person => rfl
  | none =>
      symm
      rw [Option.map_none, Option.elim_none, List.filter_eq_nil_iff]
      intro child _ h
      have hpoints : chart.parent child = some id := of_decide_eq_true h
      have hlisted := ((cut.acyclic prepared_initialChart).inside child id hpoints).2
      rw [mem_idsOf, ← personOf_isSome, hperson] at hlisted
      cases hlisted

theorem DrawnFrom.issueOf (drawn : DrawnFrom idOf people chart tree)
    (cut : Cut (idsOf idOf people) (initialChart idOf managerOf people) chart) (id : ι) :
    tree.issueOf id = chart.issue id := by
  unfold OrgTree.issueOf
  rw [drawn.nodes]
  cases hperson : personOf idOf people id with
  | some person => rfl
  | none =>
      have hunlisted : id ∉ people.map idOf := by
        rw [← personOf_isSome, hperson]
        simp
      cases hissue : chart.issue id with
      | none => rfl
      | some issue =>
          cases issue with
          | selfManager =>
              exact absurd ((cut.issue_eq_selfManager id).mp hissue).listed hunlisted
          | cycle => exact absurd ((cut.issue_eq_cycle id).mp hissue).listed hunlisted

theorem DrawnFrom.charts (drawn : DrawnFrom idOf people chart tree)
    (cut : Cut (idsOf idOf people) (initialChart idOf managerOf people) chart) :
    Charts idOf managerOf people tree := by
  have prepared : Prepared (idsOf idOf people) (initialChart idOf managerOf people) :=
    prepared_initialChart
  have hroot (id : ι) : id ∈ tree.roots ↔ id ∈ idsOf idOf people ∧ chart.parent id = none := by
    simp only [drawn.roots, List.mem_append, List.mem_filter, IsRegular, IsMarked,
      decide_eq_true_eq]
    tauto
  have hpoints (id child : ι) : child ∈ tree.childrenOf id ↔ Points chart.parent child id := by
    rw [drawn.childrenOf cut, List.mem_filter, decide_eq_true_eq]
    constructor
    · exact And.right
    · intro h
      exact ⟨((cut.acyclic prepared).inside child id h).1, h⟩
  have hnodup (id : ι) : (tree.childrenOf id).Nodup := by
    rw [drawn.childrenOf cut]
    exact prepared.nodup.filter _
  have hroots : tree.roots.Nodup := by
    rw [drawn.roots, List.nodup_append]
    refine ⟨prepared.nodup.filter _, prepared.nodup.filter _, ?_⟩
    intro a ha b hb heq
    simp only [List.mem_filter, IsRegular, IsMarked, decide_eq_true_eq] at ha hb
    exact hb.2.2 (heq ▸ ha.2.2)
  obtain ⟨visited, hvisits, hperm⟩ :=
    (cut.acyclic prepared).visits_perm (fun id => ⟨hnodup id, hpoints id⟩) prepared.nodup hroots
      hroot
  exact {
    persons := by
      intro id
      rw [drawn.nodes, Option.map_map]
      cases personOf idOf people id <;> rfl
    once := by
      refine ⟨visited, hvisits, hperm.nodup_iff.mpr prepared.nodup, ?_⟩
      intro id
      rw [hperm.mem_iff, mem_idsOf]
    edges := by
      intro id
      refine ⟨hnodup id, fun child => ?_⟩
      rw [hpoints, cut.points_iff, initialChart_parent]
      unfold IsBreaker FirstOfItsCycle
      rw [initialChart_parent]
    selfManager := fun id => by rw [drawn.issueOf cut, cut.issue_eq_selfManager]
    breaker := fun id => by rw [drawn.issueOf cut, cut.issue_eq_cycle]
    issues := drawn.issues.trans cut.length_marked
    roots := by
      refine ⟨_, _, drawn.roots, List.filter_sublist, List.filter_sublist, ?_, ?_⟩
      · intro id h
        simp only [List.mem_filter, IsRegular, decide_eq_true_eq] at h
        rw [drawn.issueOf cut]
        exact h.2.2
      · intro id h
        simp only [List.mem_filter, IsMarked, decide_eq_true_eq] at h
        rw [drawn.issueOf cut]
        exact h.2.2 }

end

/-- Every list of people has a chart, in which everybody occurs once. -/
theorem orgTree_charts (idOf : P → ι) (managerOf : P → Option ι) (people : List P) :
    ∃ tree, buildOrgTree idOf managerOf people = some tree ∧
      Charts idOf managerOf people tree := by
  have prepared : Prepared (idsOf idOf people) (initialChart idOf managerOf people) :=
    prepared_initialChart
  obtain ⟨chart, hchart, cut⟩ := allWalks_spec prepared
  have acyclic := cut.acyclic prepared
  obtain ⟨drawn, hdrawn, hchildren, hroots, hmarked⟩ :=
    places_spec (fun x y h => (acyclic.inside x y h).2) (idsOf idOf people)
      ⟨fun _ => [], [], []⟩
  obtain ⟨tree, htree⟩ : ∃ tree, buildOrgTree idOf managerOf people = some tree := by
    simp [buildOrgTree, hchart, hdrawn]
  refine ⟨tree, htree, ?_⟩
  simp only [buildOrgTree, hchart, hdrawn, Option.bind_some, Option.map_some,
    Option.some.injEq] at htree
  have hfrom : DrawnFrom idOf people chart tree := by
    rw [← htree]
    exact {
      nodes := fun id => by simp [hchildren]
      roots := by simp [hroots, hmarked]
      issues := by simp [hmarked] }
  exact hfrom.charts cut

/-- A root that breaks a cycle stands before one that breaks none. -/
theorem breaker_before_selfManager :
    (buildOrgTree Prod.fst Prod.snd [((1 : Nat), some 2), (2, some 1), (3, some 3)]).map
        (fun tree => (tree.roots, tree.issueOf 1, tree.issueOf 3)) =
      some ([1, 3], some .cycle, some .selfManager) := by
  decide +kernel

end Sinnlos.Web.OrgChart

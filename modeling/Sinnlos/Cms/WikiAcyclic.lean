import Sinnlos.Cms.WikiChecks

/-! # The parent graph stays acyclic

The search of `loopThrough` finds the added edges that lie on a cycle, the diff
finds every added edge, and so no accepted action closes a cycle. An action
whose new edges lie on no cycle passes, whatever cycles there are elsewhere.
-/

namespace Sinnlos.Cms.Wiki

open Runs Text Walk Relation

/-! ## The search -/

variable {edges : List ParentEdge}

theorem mem_parentsOf {child parent : String} :
    parent ∈ ((parentsOf edges).get? child).getD [] ↔ (child, parent) ∈ edges := by
  unfold parentsOf
  induction edges using List.reverseRecOn with
  | nil => exact ⟨nofun, nofun⟩
  | append_singleton edges edge ih =>
      rw [List.foldl_append, List.foldl_cons, List.foldl_nil, OrderedMap.get?_set, List.mem_append,
        List.mem_singleton, ← ih]
      generalize edges.foldl _ _ = parents
      obtain ⟨c, p⟩ := edge
      dsimp only
      by_cases hchild : child = c
      · subst hchild
        rw [if_pos rfl, Option.getD_some]
        simp only [Prod.mk.injEq, true_and]
        split
        · rename_i hin
          constructor
          · exact .inl
          · rintro (h | rfl)
            · exact h
            · exact hin
        · rw [List.mem_append, List.mem_singleton]
      · rw [if_neg hchild]
        simp only [Prod.mk.injEq, hchild, false_and, or_false]

theorem finds_child (edge : ParentEdge) :
    finds (fun node => ((parentsOf edges).get? node).getD []) edge.1 (edges.length + 1)
        ⟨[edge.2], [edge.2]⟩ = true ↔
      ReflTransGen (Edge edges) edge.2 edge.1 := by
  have hclosed : ∀ a, ∀ b ∈ ((parentsOf edges).get? a).getD [], b ∈ edges.map Prod.snd := by
    intro a b hb
    exact List.mem_map_of_mem (f := Prod.snd) (mem_parentsOf.mp hb)
  have hfinds := finds_iff hclosed edge.2 edge.1
  rw [List.length_map] at hfinds
  rw [hfinds]
  have hedge : (fun a b => b ∈ ((parentsOf edges).get? a).getD []) = Edge edges := by
    funext a b
    exact propext mem_parentsOf
  rw [hedge]

/-- What `loopThrough` returns is an added edge whose child can be reached from
its parent, and it returns one where there is one. -/
theorem loopThrough_isSome {added : List ParentEdge} :
    (loopThrough edges added).isSome = true ↔
      ∃ e ∈ added, ReflTransGen (Edge edges) e.2 e.1 := by
  unfold loopThrough
  rw [List.find?_isSome]
  simp only [finds_child]

-- The edge that closes a loop is found, one beside an older loop is not.
example : loopThrough [("a", "b"), ("b", "a"), ("c", "a")] [("c", "a"), ("b", "a")] =
    some ("b", "a") := by decide +kernel

/-! ## The diff -/

section Distinct
variable {α : Type} {κ : Type} [DecidableEq κ]

/-- Values that are told apart by their keys are each kept once. -/
theorem mem_values_foldl_set {key : α → κ} {items : List α}
    (injective : ∀ a ∈ items, ∀ b ∈ items, key a = key b → a = b) {item : α} :
    item ∈ (items.foldl (fun m a => m.set (key a) a) (.empty : OrderedMap κ α)).values ↔
      item ∈ items := by
  have hget : ∀ items : List α, (∀ a ∈ items, ∀ b ∈ items, key a = key b → a = b) → ∀ k a,
      (items.foldl (fun m a => m.set (key a) a) (.empty : OrderedMap κ α)).get? k = some a ↔
        a ∈ items ∧ key a = k := by
    intro items
    induction items using List.reverseRecOn with
    | nil => exact fun _ k a => ⟨nofun, nofun⟩
    | append_singleton items last ih =>
        intro hinj k a
        have hbefore : ∀ a ∈ items, ∀ b ∈ items, key a = key b → a = b := fun a ha b hb =>
          hinj a (List.mem_append_left _ ha) b (List.mem_append_left _ hb)
        rw [List.foldl_append, List.foldl_cons, List.foldl_nil, OrderedMap.get?_set,
          List.mem_append, List.mem_singleton]
        split
        · rename_i hk
          constructor
          · intro heq
            cases heq
            exact ⟨.inr rfl, hk.symm⟩
          · rintro ⟨hmem | rfl, hkey⟩
            · exact congrArg some (hinj last (List.mem_append_right _ List.mem_cons_self) a
                (List.mem_append_left _ hmem) (hk.symm.trans hkey.symm))
            · rfl
        · rename_i hk
          rw [ih hbefore]
          constructor
          · exact fun h => ⟨.inl h.1, h.2⟩
          · rintro ⟨hmem | rfl, hkey⟩
            · exact ⟨hmem, hkey⟩
            · exact absurd hkey.symm hk
  rw [OrderedMap.mem_values]
  constructor
  · rintro ⟨k, hk⟩
    exact ((hget items injective k item).mp hk).1
  · intro hmem
    exact ⟨key item, (hget items injective _ item).mpr ⟨hmem, rfl⟩⟩

end Distinct

/-- An edge between documents whose ids hold no NUL character. -/
def NulFree (edge : ParentEdge) : Prop := '\x00' ∉ edge.1.toList ∧ '\x00' ∉ edge.2.toList

theorem keyOf_injective {e e' : ParentEdge} (h : NulFree e) (h' : NulFree e')
    (heq : keyOf e = keyOf e') : e = e' := by
  have hchars : e.1.toList ++ '\x00' :: e.2.toList = e'.1.toList ++ '\x00' :: e'.2.toList := by
    have hlists := congrArg String.toList heq
    simpa [keyOf, String.toList_append] using hlists
  have hparts := join_injective h.1 h'.1 hchars
  exact Prod.ext (String.toList_inj.mp hparts.1) (String.toList_inj.mp hparts.2)

variable {edge : ParentEdge}

/-- The diff holds the edges of `after` that `before` does not hold. -/
theorem mem_addedEdges {before after : List ParentEdge} (hbefore : ∀ e ∈ before, NulFree e)
    (hafter : ∀ e ∈ after, NulFree e) :
    edge ∈ addedEdges before after ↔ edge ∈ after ∧ edge ∉ before := by
  have hfilter : addedEdges before after =
      ((after.filter fun e => keyOf e ∉ before.map keyOf).foldl (fun m e => m.set (keyOf e) e)
        (.empty : OrderedMap String ParentEdge)).values := by
    unfold addedEdges
    rw [List.foldl_filter]
    dsimp only
    congr 2
    funext m e
    by_cases hknown : keyOf e ∈ before.map keyOf
    · simp only [hknown, if_true, not_true, decide_false, Bool.false_eq_true, if_false]
    · simp only [hknown, if_false, not_false_iff, decide_true, if_true]
  rw [hfilter, mem_values_foldl_set, List.mem_filter, decide_eq_true_eq]
  · constructor
    · rintro ⟨hmem, hnew⟩
      exact ⟨hmem, fun hold => hnew (List.mem_map_of_mem hold)⟩
    · rintro ⟨hmem, hnew⟩
      refine ⟨hmem, fun hknown => hnew ?_⟩
      obtain ⟨old, hold, hkey⟩ := List.mem_map.mp hknown
      exact keyOf_injective (hbefore old hold) (hafter edge hmem) hkey ▸ hold
  · intro a ha b hb hkey
    exact keyOf_injective (hafter a (List.mem_of_mem_filter ha)) (hafter b (List.mem_of_mem_filter hb))
      hkey

/-! ## The graph -/

variable {pages : List PageRow}

theorem documentsOf_nulFree {id : Int} {documentId : String}
    (h : (documentsOf pages).get? id = some documentId) : '\x00' ∉ documentId.toList := by
  unfold documentsOf at h
  induction pages using List.reverseRecOn with
  | nil => cases h
  | append_singleton pages page ih =>
      rw [List.foldl_append, List.foldl_cons, List.foldl_nil] at h
      split at h
      · exact ih h
      · rename_i text htext
        rw [OrderedMap.get?_set] at h
        split at h
        · cases h
          unfold isDocumentId at htext
          obtain ⟨column, -, hcolumn⟩ := Option.map_eq_some_iff.mp
            (Option.filter_eq_some_iff.mp htext).1
          exact hcolumn ▸ column.no_nul
        · exact ih h

theorem edgeOf_nulFree {link : PageLink} (h : edgeOf (documentsOf pages) link = some edge) :
    NulFree edge := by
  unfold edgeOf at h
  split at h
  · rename_i child parent hchild hparent
    cases h
    exact ⟨documentsOf_nulFree hchild, documentsOf_nulFree hparent⟩
  · cases h

theorem mem_readParentEdges {db : WikiDb} :
    edge ∈ readParentEdges db ↔
      ∃ link ∈ db.parentLinks, edgeOf (documentsOf db.pages) link = some edge := by
  have hfilterMap : readParentEdges db =
      ((db.parentLinks.filterMap (edgeOf (documentsOf db.pages))).foldl
        (fun m e => m.set (keyOf e) e) (.empty : OrderedMap String ParentEdge)).values := by
    unfold readParentEdges
    rw [List.foldl_filterMap]
    dsimp only
    congr 2
    funext m link
    cases edgeOf (documentsOf db.pages) link with
    | none => rfl
    | some edge => rfl
  rw [hfilterMap, mem_values_foldl_set, List.mem_filterMap]
  intro a ha b hb hkey
  obtain ⟨link, -, hlink⟩ := List.mem_filterMap.mp ha
  obtain ⟨link', -, hlink'⟩ := List.mem_filterMap.mp hb
  exact keyOf_injective (edgeOf_nulFree hlink) (edgeOf_nulFree hlink') hkey

theorem readParentEdges_nulFree (db : WikiDb) : ∀ e ∈ readParentEdges db, NulFree e := by
  intro e he
  obtain ⟨link, -, hlink⟩ := mem_readParentEdges.mp he
  exact edgeOf_nulFree hlink

/-- The removal of a page's history leaves the graph. -/
theorem readParentEdges_afterRemoval (action : WikiAction) (params : WikiParams) (db : WikiDb) :
    readParentEdges (afterRemoval action params db) = readParentEdges db := by
  unfold afterRemoval
  split
  · cases namedDocument params.documentId with
    | none => rfl
    | some documentId =>
        rw [Option.elim_some]
        unfold deleteRevisionsOfRemovedPage
        split
        · rfl
        · rfl
  · rfl

/-- The check refuses exactly where an edge that the action added lies on a
cycle. -/
theorem loop_iff (db db' : WikiDb) :
    (loopThrough (readParentEdges db') (addedEdges (readParentEdges db) (readParentEdges db'))).isSome =
        true ↔
      ∃ e, e ∉ readParentEdges db ∧ OnCycle (readParentEdges db') e := by
  rw [loopThrough_isSome]
  simp only [mem_addedEdges (readParentEdges_nulFree db) (readParentEdges_nulFree db')]
  constructor
  · rintro ⟨e, ⟨hafter, hnew⟩, hback⟩
    exact ⟨e, hnew, hafter, hback⟩
  · rintro ⟨e, hnew, hafter, hback⟩
    exact ⟨e, ⟨hafter, hnew⟩, hback⟩

/-! ## Actions -/

section Actions
variable {toLowerCase : String → String} {db db' : WikiDb}

/-- What an accepted action went through. -/
theorem wikiPageAction_ok {next : DocumentService} {action : WikiAction} {params : WikiParams}
    {result : WikiResult}
    (h : wikiPageAction toLowerCase next action params db = .ok (db', result)) :
    ∃ written, loopThrough (readParentEdges written)
        (addedEdges (readParentEdges db) (readParentEdges written)) = none ∧
      db' = afterRemoval action params written := by
  unfold wikiPageAction at h
  split at h
  · cases h
  · split at h
    · cases h
    · rename_i written answer _
      dsimp only at h
      split at h
      · cases h
      · rename_i hloop
        split at h
        · cases h
        · cases h
          exact ⟨written, hloop, rfl⟩

theorem WikiStep.acyclic {call : WikiAction × WikiParams} (h : WikiStep toLowerCase db call db')
    (acyclic : Acyclic (readParentEdges db)) : Acyclic (readParentEdges db') := by
  obtain ⟨next, result, hok⟩ := h
  obtain ⟨written, hloop, rfl⟩ := wikiPageAction_ok hok
  rw [readParentEdges_afterRemoval]
  apply acyclic_of_old acyclic
  intro e hcycle
  by_contra hnew
  have hfound := (loop_iff db written).mpr ⟨e, hnew, hcycle⟩
  rw [hloop] at hfound
  cases hfound

/-- **The parent graph stays acyclic** over every sequence of accepted actions;
`loopThrough` finds exactly the added edges on cycles; and an action whose new
edges lie on no cycle passes this check, whatever cycles are older. -/
theorem wiki_parent_graph_acyclic (toLowerCase : String → String) :
    (∀ db calls db', Run (WikiStep toLowerCase) db calls db' → Acyclic (readParentEdges db) →
      Acyclic (readParentEdges db')) ∧
    (∀ after added : List ParentEdge, (∀ e ∈ added, e ∈ after) →
      ((loopThrough after added).isSome = true ↔ ∃ e ∈ added, OnCycle after e)) ∧
    ∀ next action params db db' result,
      refusalBefore toLowerCase action params db = none →
      next action (paramsFor action params) db = .ok (db', result) →
      refusalAfter action params db' result = none →
      (∀ e ∈ readParentEdges db', e ∉ readParentEdges db → ¬ OnCycle (readParentEdges db') e) →
      wikiPageAction toLowerCase next action params db =
        .ok (afterRemoval action params db', result) := by
  refine ⟨?_, ?_, ?_⟩
  · intro db calls db' hrun hacyclic
    exact hrun.invariant (P := fun db => Acyclic (readParentEdges db))
      (fun _ _ _ hstep => hstep.acyclic) hacyclic
  · intro after added hsubset
    rw [loopThrough_isSome]
    constructor
    · rintro ⟨e, hmem, hback⟩
      exact ⟨e, hmem, hsubset e hmem, hback⟩
    · rintro ⟨e, hmem, hcycle⟩
      exact ⟨e, hmem, hcycle.2⟩
  · intro next action params db db' result hbefore hnext hafter hnone
    have hloop : loopThrough (readParentEdges db')
        (addedEdges (readParentEdges db) (readParentEdges db')) = none := by
      rw [← Option.not_isSome_iff_eq_none, loop_iff]
      rintro ⟨e, hnew, hcycle⟩
      exact hnone e hcycle.1 hnew hcycle
    simp only [wikiPageAction, hbefore, hnext, hloop, hafter]

end Actions

end Sinnlos.Cms.Wiki

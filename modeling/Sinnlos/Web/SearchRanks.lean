import Mathlib.Data.List.Nodup
import Sinnlos.Web.SearchLive

/-! # Ranked search against plain search

The ranked rows of a kind are its candidates, in the order of the index, and, where
there are fewer than the limit, the rows of the plain search. The number of rows
decides, not that of the items they give.
-/

namespace Sinnlos.Web.Search

open Sinnlos.Cms.Search Sinnlos.Domain

/-! ## Ranks -/

/-- Names at ascending positions of a list stand there in their order. -/
theorem sublist_of_positions {items names : List String} (position : String → Nat)
    (stands : ∀ name ∈ names, items[position name]? = some name)
    (ordered : names.Pairwise fun a b => position a < position b) : names.Sublist items := by
  have hlt : ∀ name ∈ names, position name < items.length := fun name hname =>
    (List.getElem?_eq_some_iff.mp (stands name hname)).1
  have hsub : ((names.pmap (fun name h => Fin.mk (position name) h) hlt).map
      fun i => items[i]).Sublist items :=
    List.map_getElem_sublist
      (by simpa only [List.pairwise_pmap, Fin.mk_lt_mk] using ordered.imp fun h _ _ => h)
  have hnames : (names.pmap (fun name h => Fin.mk (position name) h) hlt).map
      (fun i => items[i]) = names := by
    rw [List.map_pmap]
    calc names.pmap _ hlt = names.pmap (fun name _ => name) hlt := by
          apply List.pmap_congr_left
          intro name hname h₁ _
          exact (List.getElem?_eq_some_iff.mp (stands name hname)).2
      _ = names := by simp
  rw [hnames] at hsub
  exact hsub

variable {ids : List String}

theorem rankOf_some {id : String} {i r : Nat} (h : rankOf id ids i = some r) :
    i ≤ r ∧ ids[r - i]? = some id := by
  induction ids generalizing i with
  | nil => cases h
  | cons first ids ih =>
      rw [rankOf] at h
      cases hlater : rankOf id ids (i + 1) with
      | some later =>
          rw [hlater, Option.some_or] at h
          cases h
          have hrest := ih hlater
          have hpos : r - i = (r - (i + 1)) + 1 := by omega
          exact ⟨by omega, by rw [hpos, List.getElem?_cons_succ, hrest.2]⟩
      | none =>
          rw [hlater, Option.none_or] at h
          by_cases hfirst : first = id
          · rw [if_pos hfirst] at h
            cases h
            exact ⟨Nat.le_refl _, by rw [Nat.sub_self, List.getElem?_cons_zero, hfirst]⟩
          · rw [if_neg hfirst] at h
            cases h

theorem rankOf_isSome {id : String} (i : Nat) (h : id ∈ ids) : (rankOf id ids i).isSome := by
  induction ids generalizing i with
  | nil => cases h
  | cons first ids ih =>
      rw [rankOf, Option.isSome_or]
      rcases List.mem_cons.mp h with heq | hmem
      · rw [if_pos heq.symm]
        exact Bool.or_true _
      · rw [ih (i + 1) hmem]
        rfl

/-- Different names of the index in the order of their ranks are a part of it. -/
theorem sublist_of_ranks {names : List String} (named : ∀ name ∈ names, name ∈ ids)
    (ordered : names.Pairwise fun a b =>
      (rankOf a ids 0).getD ids.length ≤ (rankOf b ids 0).getD ids.length) (once : names.Nodup) :
    names.Sublist ids := by
  have stands : ∀ name ∈ names, ids[(rankOf name ids 0).getD ids.length]? = some name := by
    intro name hname
    obtain ⟨r, hr⟩ := Option.isSome_iff_exists.mp (rankOf_isSome 0 (named name hname))
    have hat := (rankOf_some hr).2
    rw [Nat.sub_zero] at hat
    rw [hr, Option.getD_some, hat]
  apply sublist_of_positions (fun name => (rankOf name ids 0).getD ids.length) stands
  apply List.Pairwise.imp_of_mem _ (ordered.and once)
  intro a b ha hb both
  have hne : (rankOf a ids 0).getD ids.length ≠ (rankOf b ids 0).getD ids.length := by
    intro heq
    have hb' := stands b hb
    rw [← heq, stands a ha] at hb'
    exact both.2 (Option.some.inj hb')
  omega

/-! ## The items of a kind -/

section Items

variable {textOf : TextOf} {format : SearchFormat} {kind : SearchKind}

theorem item_some {key : String} {title href subtitle : Option String} {shown : SearchItem}
    (h : item key kind title href subtitle = some shown) : shown.key = key ∧ shown.kind = kind := by
  cases title with
  | none => cases h
  | some title =>
      cases href with
      | none => cases h
      | some href =>
          rw [item] at h
          split at h
          · cases h
          · cases h
            exact ⟨rfl, rfl⟩

/-- An item has the key of its row and its kind. -/
theorem toItem_some {row : Row} {shown : SearchItem}
    (h : toItem textOf format kind row = some shown) :
    keyOf textOf kind row = some shown.key ∧ shown.kind = kind := by
  rw [toItem] at h
  cases hkey : keyOf textOf kind row with
  | none => rw [hkey] at h; cases h
  | some key =>
      suffices hitem : shown.key = key ∧ shown.kind = kind from ⟨by rw [hitem.1], hitem.2⟩
      rw [hkey] at h
      dsimp only at h
      split at h
      · cases h
      · split at h
        case h_9 =>
          split at h
          · exact item_some h
          · cases h
        all_goals exact item_some h

variable {row : Json}

theorem itemOf_some {shown : SearchItem} (h : itemOf textOf format kind row = some shown) :
    ∃ fields, isRow row = some fields ∧ keyOf textOf kind fields = some shown.key ∧
      shown.kind = kind := by
  obtain ⟨fields, hrow, hitem⟩ := Option.bind_eq_some_iff.mp h
  exact ⟨fields, hrow, toItem_some hitem⟩

/-- The row of a documentId gives the item of this document. -/
theorem key_of_documentId {shown : SearchItem} {id : String}
    (h : itemOf textOf format kind row = some shown)
    (hid : text (isRow row) "documentId" = some id) : shown.key = kind.name ++ ":" ++ id := by
  obtain ⟨fields, hrow, hkey, -⟩ := itemOf_some h
  rw [hrow] at hid
  rw [keyOf, hid] at hkey
  exact (Option.some.inj hkey).symm

theorem rankAt_of_documentId {id : String} (ids : List String)
    (hid : text (isRow row) "documentId" = some id) :
    rankAt textOf ids row = (rankOf id ids 0).getD ids.length := by
  cases hrow : isRow row with
  | none => rw [hrow] at hid; cases hid
  | some fields =>
      rw [hrow] at hid
      have hfield : Json.field? "documentId" fields = some (.str id) := by
        rw [text, Option.bind_some] at hid
        split at hid
        · next value hvalue =>
            split at hid
            · cases hid
            · rw [hvalue, Option.some.inj hid]
        · cases hid
      rw [rankAt, hrow]
      dsimp only
      rw [hfield, valueText]

@[simp] theorem rowsIn_listResponse (rows : List Json) : rowsIn (listResponse rows) = rows := by
  simp [listResponse, rowsIn, isRow, Json.field?]

@[simp] theorem rowList_listResponse (rows : List Json) : rowList (listResponse rows) = rows := by
  simp [listResponse, rowList, isRow, Json.field?]

end Items

/-! ## What is shown of a kind -/

namespace LiveSearch

variable (s : LiveSearch)

/-- The items of a content kind. -/
def shown (kind : IndexedSearchKind) : List SearchItem :=
  s.searchLive.filter fun item => decide (item.kind = .content kind)

/-- A content kind is read in this search. -/
def searched (kind : IndexedSearchKind) : Bool :=
  MIN_TERM_LENGTH ≤ textLength s.term && !searchKindSwitchedOff (.content kind) s.off &&
    !searchKindDenied (.content kind) s.role

/-- The ids of the index that are used for a content kind. -/
def usedIds (kind : IndexedSearchKind) : Option (List String) :=
  if s.searched kind then s.ranked kind else none

/-- The items that rows of a content kind give, with those of one key. -/
def rowItems (kind : IndexedSearchKind) (rows : List Json) : List SearchItem :=
  rows.filterMap (itemOf s.textOf s.format (.content kind))

variable {s} {item : SearchItem} {kind : IndexedSearchKind} {ids : List String}

theorem kind_of_itemsOf {kind : SearchKind} (h : item ∈ s.itemsOf kind) : item.kind = kind := by
  have hfirst := (Distinct.firsts_sublist _ _).subset (List.mem_of_mem_take h)
  obtain ⟨row, -, hrow⟩ := List.mem_filterMap.mp hfirst
  obtain ⟨-, -, -, hkind⟩ := itemOf_some hrow
  exact hkind

theorem filter_itemsOf (kind : SearchKind) (content : IndexedSearchKind) :
    (s.itemsOf kind).filter (fun item => decide (item.kind = .content content)) =
      if kind = .content content then s.itemsOf kind else [] := by
  split
  · next heq =>
      apply List.filter_eq_self.mpr
      intro item hitem
      exact decide_eq_true ((kind_of_itemsOf hitem).trans heq)
  · next hne =>
      apply List.filter_eq_nil_iff.mpr
      intro item hitem hkind
      exact hne ((kind_of_itemsOf hitem).symm.trans (of_decide_eq_true hkind))

theorem shown_eq (kind : IndexedSearchKind) :
    s.shown kind =
      if textLength s.term < MIN_TERM_LENGTH then [] else s.itemsOf (.content kind) := by
  rw [shown, searchLive]
  split
  · rfl
  · cases kind <;>
      simp [LIVE_KINDS, List.flatMap_cons, List.filter_append, filter_itemsOf]

theorem shown_of_not_searched (h : s.searched kind = false) : s.shown kind = [] := by
  rw [shown_eq]
  split
  · rfl
  · next hlong =>
      have hread : s.read (.content kind) = .arr [] := by
        rw [read]
        split
        · rfl
        · next hon =>
            rw [searched] at h
            simp only [Bool.and_eq_false_imp, Bool.and_eq_true, decide_eq_true_eq,
              Bool.not_eq_true', Bool.not_eq_false'] at h
            rw [if_pos (h ⟨by omega, by simpa using hon⟩)]
      rw [itemsOf, hread]
      rfl

/-- What is read of a kind that is read at all. -/
theorem read_ranked (h : s.searched kind = true) (hids : s.ranked kind = some ids) :
    s.read (.content kind) = .arr (s.rankedRows kind ids) := by
  rw [searched, Bool.and_eq_true, Bool.and_eq_true] at h
  rw [read, if_neg (by simpa using h.1.2), if_neg (by simpa using h.2), hids]

theorem read_unranked (h : s.searched kind = true) (hnone : s.ranked kind = none) :
    s.read (.content kind) = listResponse (s.reads.content kind) := by
  rw [searched, Bool.and_eq_true, Bool.and_eq_true] at h
  rw [read, if_neg (by simpa using h.1.2), if_neg (by simpa using h.2), hnone]

theorem shown_of_searched (h : s.searched kind = true) :
    s.shown kind =
      (Distinct.firsts SearchItem.key []
        (s.rowItems kind (rowsIn (s.read (.content kind))))).take LIVE_LIMIT := by
  rw [searched, Bool.and_eq_true, Bool.and_eq_true, decide_eq_true_eq] at h
  rw [shown_eq, if_neg (by omega)]
  rfl

theorem searched_of_usedIds (h : s.usedIds kind = some ids) :
    s.searched kind = true ∧ s.ranked kind = some ids := by
  rw [usedIds] at h
  split at h
  · next hs => exact ⟨hs, h⟩
  · cases h

theorem plain_ranked (kind : IndexedSearchKind) : s.plain.ranked kind = none := by
  rw [ranked, plain]
  split <;> rfl

theorem plain_shown (h : s.searched kind = true) :
    s.plain.shown kind =
      (Distinct.firsts SearchItem.key [] (s.rowItems kind (s.reads.content kind))).take
        LIVE_LIMIT := by
  have hs : s.plain.searched kind = true := h
  rw [shown_of_searched hs, read_unranked hs (plain_ranked kind), rowsIn_listResponse]
  rfl

/-- Where the index names no ids for a kind, it is shown as without the index. -/
theorem shown_of_no_ids (h : s.usedIds kind = none) : s.shown kind = s.plain.shown kind := by
  cases hs : s.searched kind with
  | false => rw [shown_of_not_searched hs, shown_of_not_searched (s := s.plain) hs]
  | true =>
      rw [usedIds, if_pos hs] at h
      rw [plain_shown hs, shown_of_searched hs, read_unranked hs h, rowsIn_listResponse]

/-- Without a map of candidates the search is the plain one. -/
theorem searchLive_of_no_map (h : meiliCandidates s.answer = none) :
    s.searchLive = s.plain.searchLive := by
  have hranked : ∀ kind, s.ranked kind = none := by
    intro kind
    rw [ranked, h]
    split <;> rfl
  have hread : s.read = s.plain.read := by
    funext kind
    cases kind with
    | content kind => simp only [read, hranked, plain_ranked]; rfl
    | _ => rfl
  have hitems : s.itemsOf = s.plain.itemsOf := by
    funext kind
    rw [itemsOf, itemsOf, hread]
    rfl
  rw [searchLive, searchLive, hitems]
  rfl

/-! ## Never poorer -/

variable (s)

/-- The rows that the viewer's reads answer for a content kind. -/
def viewerRows (kind : IndexedSearchKind) : List Json :=
  (s.usedIds kind).elim [] (s.candidateRows kind) ++ s.reads.content kind

/-- The documentId of a row, where the index named it. -/
def namedId (ids : List String) (row : Json) : Option String :=
  (text (isRow row) "documentId").filter (· ∈ ids)

/-- The shown items `front` are those of candidates, in the order in which the index
has their ids. -/
def FromCandidates (kind : IndexedSearchKind) (ids : List String) (front : List SearchItem) :
    Prop :=
  ∃ chosen : List Json, chosen ⊆ s.candidateRows kind ids ∧
    chosen.map (itemOf s.textOf s.format (.content kind)) = front.map some ∧
    (chosen.filterMap (namedId ids)).Sublist ids

/-- What is shown of a kind against what is shown without the index. -/
structure NeverPoorer (kind : IndexedSearchKind) : Prop where
  different : ((s.shown kind).map SearchItem.key).Nodup
  readable : ∀ item ∈ s.shown kind, ∃ row ∈ s.viewerRows kind,
    itemOf s.textOf s.format (.content kind) row = some item
  asMany : (s.plain.shown kind).length ≤ (s.shown kind).length
  filled : (s.shown kind).length < LIVE_LIMIT → ∀ item ∈ s.plain.shown kind,
    ∃ other ∈ s.shown kind, other.key = item.key ∧
      (other = item ∨ ∃ ids, s.usedIds kind = some ids ∧
        some other ∈ (s.candidateRows kind ids).map (itemOf s.textOf s.format (.content kind)))
  ordered : ∀ ids, s.usedIds kind = some ids → ∃ front fill,
    s.shown kind = front ++ fill ∧ s.FromCandidates kind ids front ∧
      ∀ item ∈ fill, item ∈ s.rowItems kind (s.reads.content kind)

/-- The different keys of the items that rows of a kind give, in their order. -/
def distinctKeys (kind : IndexedSearchKind) (rows : List Json) : List String :=
  Distinct.firsts id [] ((s.rowItems kind rows).map SearchItem.key)

/-- As many rows as the limit are enough where they give as many items, or all those
of the plain search. -/
def Enough (kind : IndexedSearchKind) (ids : List String) : Prop :=
  LIVE_LIMIT ≤ (s.candidateRows kind ids).length →
    LIVE_LIMIT ≤ (s.distinctKeys kind (s.candidateRows kind ids)).length ∨
      ∀ key ∈ (s.distinctKeys kind (s.reads.content kind)).take LIVE_LIMIT,
        key ∈ s.distinctKeys kind (s.candidateRows kind ids)

variable {s}

/-- The items of the candidates in the order of the index. -/
def candidateItems (s : LiveSearch) (kind : IndexedSearchKind) (ids : List String) :
    List SearchItem :=
  s.rowItems kind ((s.candidateRows kind ids).insertionSort
    fun a b => rankAt s.textOf ids a ≤ rankAt s.textOf ids b)

theorem sorted_perm (kind : IndexedSearchKind) (ids : List String) :
    ((s.candidateRows kind ids).insertionSort
      fun a b => rankAt s.textOf ids a ≤ rankAt s.textOf ids b).Perm (s.candidateRows kind ids) :=
  List.perm_insertionSort _ _

/-- What is shown of a kind that the index ranks. -/
theorem shown_ranked (h : s.usedIds kind = some ids) :
    s.shown kind = (Distinct.firsts SearchItem.key []
      (if LIVE_LIMIT ≤ (s.candidateRows kind ids).length then s.candidateItems kind ids
        else s.candidateItems kind ids ++ s.rowItems kind (s.reads.content kind))).take
          LIVE_LIMIT := by
  obtain ⟨hs, hids⟩ := searched_of_usedIds h
  have hlength := (sorted_perm (s := s) kind ids).length_eq
  rw [shown_of_searched hs, read_ranked hs hids, rankedRows]
  rw [hlength, rowList_listResponse]
  split
  · rfl
  · simp only [rowsIn, rowItems, List.filterMap_append, candidateItems]

theorem keys_of_candidates (kind : IndexedSearchKind) (ids : List String) :
    (s.distinctKeys kind (s.candidateRows kind ids)).length =
      (Distinct.firsts SearchItem.key [] (s.candidateItems kind ids)).length := by
  rw [distinctKeys, ← Distinct.map_firsts, List.length_map]
  exact Distinct.length_firsts_perm ((sorted_perm kind ids).symm.filterMap _)

/-! ## The candidates keep their order -/

theorem map_filter_isSome {α β : Type} (f : α → Option β) (as : List α) :
    (as.filter fun a => (f a).isSome).map f = (as.filterMap f).map some := by
  induction as with
  | nil => rfl
  | cons a as ih =>
      cases hf : f a with
      | none => simp [hf, ih]
      | some b => simp [hf, ih]

theorem namedId_some {row : Json} {id : String} (h : namedId ids row = some id) :
    text (isRow row) "documentId" = some id ∧ id ∈ ids := by
  obtain ⟨hid, hmem⟩ := Option.filter_eq_some_iff.mp h
  exact ⟨hid, of_decide_eq_true hmem⟩

/-- Items of the sorted candidates that have every key once keep the order of the
index. -/
theorem fromCandidates {front : List SearchItem}
    (part : front.Sublist (s.candidateItems kind ids)) (once : (front.map SearchItem.key).Nodup) :
    s.FromCandidates kind ids front := by
  obtain ⟨rows, hrows, rfl⟩ := List.sublist_filterMap_iff.mp part
  let chosen := rows.filter fun row => (itemOf s.textOf s.format (.content kind) row).isSome
  have hmap := map_filter_isSome (itemOf s.textOf s.format (.content kind)) rows
  have hsorted : chosen.Sublist _ := (List.filter_sublist).trans hrows
  have ranks : chosen.Pairwise fun a b => rankAt s.textOf ids a ≤ rankAt s.textOf ids b :=
    (List.pairwise_insertionSort _ _).sublist hsorted
  have keys : chosen.Pairwise fun a b => ∀ x y,
      itemOf s.textOf s.format (.content kind) a = some x →
      itemOf s.textOf s.format (.content kind) b = some y → x.key ≠ y.key := by
    have hitems := List.pairwise_map.mp once
    have hsome : (chosen.map (itemOf s.textOf s.format (.content kind))).Pairwise
        fun a b => ∀ x y, a = some x → b = some y → x.key ≠ y.key := by
      rw [hmap]
      apply List.pairwise_map.mpr
      apply hitems.imp
      intro a b hne x y hx hy
      cases hx
      cases hy
      exact hne
    exact List.pairwise_map.mp hsome
  refine ⟨chosen, fun row hrow => (sorted_perm kind ids).subset (hsorted.subset hrow), hmap, ?_⟩
  apply sublist_of_ranks
  · intro name hname
    obtain ⟨row, -, hrow⟩ := List.mem_filterMap.mp hname
    exact (namedId_some hrow).2
  · apply List.pairwise_filterMap.mpr
    apply ranks.imp
    intro a b hle x hx y hy
    rw [← rankAt_of_documentId ids (namedId_some hx).1,
      ← rankAt_of_documentId ids (namedId_some hy).1]
    exact hle
  · apply List.pairwise_filterMap.mpr
    apply List.Pairwise.imp_of_mem _ keys
    intro a b ha hb hne x hx y hy heq
    obtain ⟨itemA, hitemA⟩ := Option.isSome_iff_exists.mp (List.mem_filter.mp ha).2
    obtain ⟨itemB, hitemB⟩ := Option.isSome_iff_exists.mp (List.mem_filter.mp hb).2
    apply hne itemA itemB hitemA hitemB
    rw [key_of_documentId hitemA (namedId_some hx).1, key_of_documentId hitemB (namedId_some hy).1,
      heq]

/-! ## Ranked and plain -/

theorem nodup_shown (kind : IndexedSearchKind) : ((s.shown kind).map SearchItem.key).Nodup := by
  rw [shown_eq]
  split
  · exact List.nodup_nil
  · exact (Distinct.nodup_firsts _ _).sublist ((List.take_sublist _ _).map _)

theorem mem_plain_shown (h : item ∈ s.plain.shown kind) :
    item ∈ s.rowItems kind (s.reads.content kind) := by
  cases hs : s.searched kind with
  | false =>
      rw [shown_of_not_searched (s := s.plain) hs] at h
      cases h
  | true =>
      rw [plain_shown hs] at h
      exact (Distinct.firsts_sublist _ _).subset (List.mem_of_mem_take h)

theorem mem_candidateItems (h : item ∈ s.candidateItems kind ids) :
    item ∈ s.rowItems kind (s.candidateRows kind ids) :=
  ((sorted_perm kind ids).filterMap _).subset h

theorem mem_shown (h : item ∈ s.shown kind) : item ∈ s.rowItems kind (s.viewerRows kind) := by
  rw [viewerRows, rowItems, List.filterMap_append, List.mem_append]
  cases hids : s.usedIds kind with
  | none =>
      rw [shown_of_no_ids hids] at h
      exact Or.inr (mem_plain_shown h)
  | some ids =>
      rw [shown_ranked hids] at h
      have hitem := (Distinct.firsts_sublist _ _).subset (List.mem_of_mem_take h)
      split at hitem
      · exact Or.inl (mem_candidateItems hitem)
      · rcases List.mem_append.mp hitem with hitem | hitem
        · exact Or.inl (mem_candidateItems hitem)
        · exact Or.inr hitem

theorem ordered_shown (h : s.usedIds kind = some ids) :
    ∃ front fill seen, s.shown kind = front ++ fill ∧
      s.FromCandidates kind ids front ∧ fill ⊆
        Distinct.firsts SearchItem.key seen (s.rowItems kind (s.reads.content kind)) := by
  have hfront : ∀ n, s.FromCandidates kind ids
      ((Distinct.firsts SearchItem.key [] (s.candidateItems kind ids)).take n) := fun n =>
    fromCandidates ((List.take_sublist _ _).trans (Distinct.firsts_sublist _ _))
      ((Distinct.nodup_firsts _ _).sublist ((List.take_sublist _ _).map _))
  rw [shown_ranked h]
  split
  · exact ⟨_, [], [], (List.append_nil _).symm, hfront _, List.nil_subset _⟩
  · rw [Distinct.firsts_append, List.take_append]
    exact ⟨_, _, _, rfl, hfront _, List.take_subset _ _⟩

/-- All the plain items have an item of their key among the first ones of some items,
and there is no more than the limit to show. -/
theorem filled_of_keys {items : List SearchItem}
    (all : ∀ plain ∈ s.plain.shown kind, ∃ other ∈ Distinct.firsts SearchItem.key [] items,
      other.key = plain.key)
    (hshown : s.shown kind = (Distinct.firsts SearchItem.key [] items).take LIVE_LIMIT) :
    (s.plain.shown kind).length ≤ (s.shown kind).length ∧
      ((s.shown kind).length < LIVE_LIMIT → ∀ plain ∈ s.plain.shown kind,
        ∃ other ∈ s.shown kind, other.key = plain.key) := by
  have hlimit : (s.plain.shown kind).length ≤ LIVE_LIMIT := by
    rw [shown_eq]
    split
    · exact Nat.zero_le _
    · exact List.length_take_le _ _
  have hle := Distinct.length_le_of_keys (nodup_shown kind) all
  have hlen : (s.shown kind).length =
      min LIVE_LIMIT (Distinct.firsts SearchItem.key [] items).length := by
    rw [hshown, List.length_take]
  constructor
  · omega
  · intro hfew plain hplain
    rw [hshown, List.take_of_length_le (by omega)]
    exact all plain hplain

theorem key_of_plain (h : s.searched kind = true) :
    (s.plain.shown kind).map SearchItem.key =
      (s.distinctKeys kind (s.reads.content kind)).take LIVE_LIMIT := by
  rw [plain_shown h, List.map_take, Distinct.map_firsts, distinctKeys]

theorem mem_distinctKeys {key : String} :
    key ∈ s.distinctKeys kind (s.candidateRows kind ids) ↔
      ∃ other ∈ Distinct.firsts SearchItem.key [] (s.candidateItems kind ids), other.key = key := by
  rw [← List.mem_map, Distinct.mem_keys_firsts, distinctKeys, ← Distinct.map_firsts,
    Distinct.mem_keys_firsts]
  have hperm : ((s.candidateItems kind ids).map SearchItem.key).Perm
      ((s.rowItems kind (s.candidateRows kind ids)).map SearchItem.key) :=
    ((sorted_perm kind ids).filterMap _).map _
  rw [hperm.mem_iff]

/-- What is shown is never poorer exactly where the rows that stop the fill are
enough. -/
theorem asMany_and_filled_iff (h : s.usedIds kind = some ids) :
    ((s.plain.shown kind).length ≤ (s.shown kind).length ∧
      ((s.shown kind).length < LIVE_LIMIT → ∀ plain ∈ s.plain.shown kind,
        ∃ other ∈ s.shown kind, other.key = plain.key)) ↔ s.Enough kind ids := by
  have hs := (searched_of_usedIds h).1
  have hshown := shown_ranked h
  by_cases hfull : LIVE_LIMIT ≤ (s.candidateRows kind ids).length
  · rw [if_pos hfull] at hshown
    have hkeys := keys_of_candidates (s := s) kind ids
    have hlen : (s.shown kind).length = min LIVE_LIMIT
        (Distinct.firsts SearchItem.key [] (s.candidateItems kind ids)).length := by
      rw [hshown, List.length_take]
    constructor
    · intro hnot hfull
      by_cases hmany : LIVE_LIMIT ≤ (s.distinctKeys kind (s.candidateRows kind ids)).length
      · exact Or.inl hmany
      · right
        intro key hkey
        rw [← key_of_plain hs] at hkey
        obtain ⟨plain, hplain, rfl⟩ := List.mem_map.mp hkey
        obtain ⟨other, hother, hsame⟩ := hnot.2 (by omega) plain hplain
        rw [hshown] at hother
        exact mem_distinctKeys.mpr ⟨other, List.mem_of_mem_take hother, hsame⟩
    · intro henough
      rcases henough hfull with hmany | hall
      · constructor
        · have hplain : (s.plain.shown kind).length ≤ LIVE_LIMIT := by
            rw [plain_shown hs]
            exact List.length_take_le _ _
          omega
        · intro hfew
          omega
      · apply filled_of_keys _ hshown
        intro plain hplain
        have hkey := List.mem_map_of_mem (f := SearchItem.key) hplain
        rw [key_of_plain hs] at hkey
        exact mem_distinctKeys.mp (hall _ hkey)
  · rw [if_neg hfull] at hshown
    apply iff_of_true
    · apply filled_of_keys _ hshown
      intro plain hplain
      rw [← List.mem_map, Distinct.mem_keys_firsts]
      refine ⟨?_, List.not_mem_nil⟩
      rw [List.map_append, List.mem_append]
      exact Or.inr (List.mem_map_of_mem (mem_plain_shown hplain))
    · exact fun hsome => absurd hsome hfull

/-- An item of the plain search and the shown one of its key are the same, unless the
shown one is a candidate's. -/
theorem same_or_candidate {plain other : SearchItem} (h : s.usedIds kind = some ids)
    (hplain : plain ∈ s.plain.shown kind) (hother : other ∈ s.shown kind)
    (hkey : other.key = plain.key) :
    other = plain ∨ some other ∈
      (s.candidateRows kind ids).map (itemOf s.textOf s.format (.content kind)) := by
  obtain ⟨front, fill, seen, hsplit, hfront, hfill⟩ := ordered_shown h
  rw [hsplit] at hother
  rcases List.mem_append.mp hother with hother | hother
  · right
    obtain ⟨chosen, hchosen, hmap, -⟩ := hfront
    have hsome := List.mem_map_of_mem (f := some) hother
    rw [← hmap] at hsome
    exact List.map_subset _ hchosen hsome
  · left
    rw [plain_shown (searched_of_usedIds h).1] at hplain
    have hfirst := Distinct.find_of_mem_firsts (List.mem_of_mem_take hplain)
    rw [← hkey, Distinct.find_of_mem_firsts (hfill hother)] at hfirst
    exact Option.some.inj hfirst

theorem neverPoorer_of_no_ids (h : s.usedIds kind = none) :
    s.NeverPoorer kind where
  different := nodup_shown kind
  readable item hitem := List.mem_filterMap.mp (mem_shown hitem)
  asMany := (congrArg List.length (shown_of_no_ids h)).ge
  filled _ item hitem := ⟨item, (shown_of_no_ids h) ▸ hitem, rfl, Or.inl rfl⟩
  ordered ids hids := by rw [h] at hids; cases hids

theorem neverPoorer_iff_enough (h : s.usedIds kind = some ids) :
    s.NeverPoorer kind ↔ s.Enough kind ids := by
  rw [← asMany_and_filled_iff h]
  constructor
  · intro never
    refine ⟨never.asMany, fun hfew plain hplain => ?_⟩
    obtain ⟨other, hother, hkey, -⟩ := never.filled hfew plain hplain
    exact ⟨other, hother, hkey⟩
  · intro both
    constructor
    · exact nodup_shown kind
    · exact fun item hitem => List.mem_filterMap.mp (mem_shown hitem)
    · exact both.1
    · intro hfew plain hplain
      obtain ⟨other, hother, hkey⟩ := both.2 hfew plain hplain
      refine ⟨other, hother, hkey, ?_⟩
      exact (same_or_candidate h hplain hother hkey).imp id fun hsome => ⟨ids, h, hsome⟩
    · intro used hused
      rw [h] at hused
      cases hused
      obtain ⟨front, fill, seen, hsplit, hfront, hfill⟩ := ordered_shown h
      exact ⟨front, fill, hsplit, hfront, fun item hitem =>
        (Distinct.firsts_sublist _ _).subset (hfill hitem)⟩

/-- The ranked search is never poorer, keeps the order of the index and shows what the
viewer's reads answer exactly where the rows that stop the fill are enough. -/
theorem ranked_never_poorer_iff (s : LiveSearch) :
    ((∀ kind, s.NeverPoorer kind) ∧
        (meiliCandidates s.answer = none → s.searchLive = s.plain.searchLive)) ↔
      ∀ kind ids, s.usedIds kind = some ids → s.Enough kind ids := by
  constructor
  · intro h kind ids hids
    exact (neverPoorer_iff_enough hids).mp (h.1 kind)
  · intro h
    refine ⟨fun kind => ?_, searchLive_of_no_map⟩
    cases hids : s.usedIds kind with
    | none => exact neverPoorer_of_no_ids hids
    | some ids => exact (neverPoorer_iff_enough hids).mpr (h kind ids hids)

/-! ## Pages without a space -/

def pageRow (id slug : String) (space : Json) : Json :=
  .obj [("documentId", .str id), ("title", .str "abbey"), ("slug", .str slug), ("space", space)]

/-- The index names five pages whose space is gone; the plain search finds one that
has a space. -/
def spacelessSearch : LiveSearch where
  textOf _ := ""
  format := ⟨some, some, "open", "unknown"⟩
  off := []
  demo := false
  role := some "member"
  term := "abbey"
  answer := some (.obj [("results", .arr (INDEXED_SEARCH_KINDS.map fun kind =>
    .obj [("hits", .arr (if kind = .wikiPage then
      ["a", "b", "c", "d", "e"].map fun id => .obj [("documentId", .str id)] else []))]))])
  reads := {
    candidates := fun _ ids => ids.map fun id => pageRow id id .null
    content := fun kind =>
      if kind = .wikiPage then
        [pageRow "f" "abbey" (.obj [("slug", .str "houses"), ("name", .str "Houses")])]
      else []
    people := .arr [] }

theorem spaceless_candidates_hide_the_plain_page : ¬ spacelessSearch.NeverPoorer .wikiPage := by
  intro h
  exact absurd h.asMany (by decide +kernel)

end LiveSearch

end Sinnlos.Web.Search

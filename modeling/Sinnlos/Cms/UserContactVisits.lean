import Mathlib.Data.List.Lemmas
import Mathlib.Data.List.Pairwise
import Sinnlos.Cms.UserContact

/-! # The visit of a response

A visit that ends keeps its result at every larger depth. On a tree it ends and
leaves the stripped tree; the objects outside the tree are not touched.
-/

namespace Sinnlos.Cms.UserContact

open ObjectHeap (Heap Object Value Scalar DataTree lookup)

variable {n : Nat} {options : StripOptions}

/-! ## Deeper visits -/

/-- Every visit of one visitor that ends is a visit of another. -/
def Extends (f g : Visitor n) : Prop :=
  ∀ value schema st after, f value schema st = some after → g value schema st = some after

theorem foldlM_mono {σ ι : Type} {f g : σ → ι → Option σ}
    (h : ∀ s i after, f s i = some after → g s i = some after) (items : List ι) :
    ∀ s after, items.foldlM f s = some after → items.foldlM g s = some after := by
  induction items with
  | nil => exact fun _ _ heq => heq
  | cons i items ih =>
      intro s after heq
      rw [List.foldlM_cons] at heq ⊢
      obtain ⟨mid, hmid, hrest⟩ := Option.bind_eq_some_iff.mp heq
      exact Option.bind_eq_some_iff.mpr ⟨mid, h s i mid hmid, ih mid after hrest⟩

variable {f g : Visitor n}

theorem visitZoneItem_mono (h : Extends f g) (item : Value n) (st after : StripState n)
    (heq : visitZoneItem options f item st = some after) :
    visitZoneItem options g item st = some after := by
  unfold visitZoneItem at heq ⊢
  split
  · exact heq
  · dsimp only at heq
    split
    · next componentUid hcomponent =>
        rw [hcomponent] at heq
        dsimp only at heq
        split
        · next target htarget =>
            rw [htarget] at heq
            exact h _ _ _ _ heq
        · next htarget =>
            rw [htarget] at heq
            exact heq
    · next hcomponent =>
        split at heq
        · next componentUid hsome => exact absurd hsome (hcomponent componentUid)
        · exact heq

theorem follow_mono (h : Extends f g) (lead : Lead) (value : Value n) (st after : StripState n)
    (heq : lead.follow options f value st = some after) :
    lead.follow options g value st = some after := by
  cases lead with
  | model schema => exact h _ _ _ _ heq
  | zone =>
      cases value with
      | scalar s => exact heq
      | ref a =>
          exact foldlM_mono (fun s i after => visitZoneItem_mono h i s after) _ _ _ heq
  | zoneItem => exact visitZoneItem_mono h _ _ _ heq
  | nothing => exact heq

theorem visitAttribute_mono (h : Extends f g) (a : Fin n) (st : StripState n)
    (entry : String × AttributeSchema) (after : StripState n)
    (heq : visitAttribute options f a st entry = some after) :
    visitAttribute options g a st entry = some after := by
  unfold visitAttribute at heq ⊢
  split
  · next b hvalue =>
      rw [hvalue] at heq
      exact follow_mono h _ _ _ _ heq
  · next s hvalue =>
      rw [hvalue] at heq
      exact heq
  · next hvalue =>
      rw [hvalue] at heq
      exact heq

theorem visit_succ (depth : Nat) :
    Extends (visit options depth : Visitor n) (visit options (depth + 1)) := by
  induction depth with
  | zero =>
      intro value schema st after h
      cases value with
      | scalar s => exact h
      | ref a => cases h
  | succ depth ih =>
      intro value schema st after h
      cases value with
      | scalar s => exact h
      | ref a =>
          rw [visit] at h ⊢
          split
          · next items hitems =>
              rw [hitems] at h
              exact foldlM_mono (fun s i after => ih i schema s after) _ _ _ h
          · next fields hfields =>
              rw [hfields] at h
              dsimp only at h ⊢
              split
              · next hseen =>
                  rw [if_pos hseen] at h
                  exact h
              · next hseen =>
                  rw [if_neg hseen] at h
                  cases schema with
                  | none => exact h
                  | some schema =>
                      dsimp only at h ⊢
                      split
                      · next hblocked =>
                          rw [if_pos hblocked] at h
                          exact h
                      · next hblocked =>
                          rw [if_neg hblocked] at h
                          exact foldlM_mono (fun s i after => visitAttribute_mono ih a s i after) _ _ _ h

variable {depth : Nat} {depth' : Nat}

theorem visit_mono (hle : depth ≤ depth') :
    Extends (visit options depth : Visitor n) (visit options depth') := by
  induction hle with
  | refl => exact fun _ _ _ _ h => h
  | step _ ih => exact fun value schema st after h => visit_succ _ _ _ _ _ (ih _ _ _ _ h)

/-! ## The stripped tree -/

section Strip
variable {α : Type}

theorem stripItems_eq (lead : Lead) (items : List (DataTree α)) :
    stripItems options lead items = items.map (strip options lead) := by
  induction items with
  | nil => rfl
  | cons t items ih => rw [stripItems, ih, List.map_cons]

theorem strip_scalar (lead : Lead) (s : Scalar) :
    strip options lead (.scalar s : DataTree α) = .scalar s := rfl

theorem strip_array (lead : Lead) (a : α) (items : List (DataTree α)) :
    strip options lead (.array a items) = .array a (items.map (strip options lead.ofItem)) := by
  rw [strip, stripItems_eq]

/-- The fields that are kept. -/
def keptFields (options : StripOptions) {ν : Type} (schema : ModelSchema) (blocked : Bool)
    (fields : List (String × ν)) : List (String × ν) :=
  fields.filter fun field => !withheld options schema blocked field.1

theorem stripFields_eq (schema : ModelSchema) (blocked : Bool) (fields : List (String × DataTree α)) :
    stripFields options schema blocked fields =
      (keptFields options schema blocked fields).map fun field =>
        (field.1, strip options (schema.next options blocked field.1) field.2) := by
  unfold keptFields
  induction fields with
  | nil => rfl
  | cons field fields ih =>
      obtain ⟨key, t⟩ := field
      rw [stripFields, ih, List.filter_cons]
      cases withheld options schema blocked key with
      | true => rfl
      | false => rfl

/-- The fields of a stripped record. -/
def strippedFields (options : StripOptions) (lead : Lead) (fields : List (String × DataTree α)) :
    List (String × DataTree α) :=
  match lead.modelAt options fields with
  | none => fields
  | some schema => stripFields options schema (isBlocked isTrueTree fields) fields

theorem strip_record (lead : Lead) (a : α) (fields : List (String × DataTree α)) :
    strip options lead (.record a fields) = .record a (strippedFields options lead fields) := by
  rw [strip, strippedFields]
  cases lead.modelAt options fields with
  | none => rfl
  | some schema => rfl

@[simp]
theorem strip_nothing (t : DataTree α) : strip options .nothing t = t := by
  induction t using DataTree.induct with
  | scalar s => rfl
  | array a items ih =>
      rw [strip_array]
      congr 1
      exact (List.map_congr_left ih).trans (List.map_id' items)
  | record a fields ih => rfl

end Strip

theorem value_strip (lead : Lead) (t : DataTree (Fin n)) : (strip options lead t).value = t.value := by
  cases t with
  | scalar s => rfl
  | array a items => rfl
  | record a fields =>
      rw [strip_record]
      rfl

theorem footprint_strip (t : DataTree (Fin n)) :
    ∀ lead, (strip options lead t).footprint ⊆ t.footprint := by
  induction t using DataTree.induct with
  | scalar s => exact fun _ => List.Subset.refl _
  | array a items ih =>
      intro lead b hb
      rw [strip_array, DataTree.footprint_array] at hb
      rw [DataTree.footprint_array]
      rcases List.mem_cons.mp hb with heq | hrest
      · exact heq ▸ List.mem_cons_self
      · obtain ⟨t, ht, hin⟩ := List.mem_flatMap.mp hrest
        obtain ⟨t', ht', heq⟩ := List.mem_map.mp ht
        rw [← heq] at hin
        exact List.mem_cons_of_mem _ (List.mem_flatMap.mpr ⟨t', ht', ih t' ht' _ hin⟩)
  | record a fields ih =>
      intro lead b hb
      rw [strip_record, strippedFields] at hb
      split at hb
      · exact hb
      · rw [stripFields_eq, DataTree.footprint_record] at hb
        rw [DataTree.footprint_record]
        rcases List.mem_cons.mp hb with heq | hrest
        · exact heq ▸ List.mem_cons_self
        · obtain ⟨t, ht, hin⟩ := List.mem_flatMap.mp hrest
          rw [List.map_map] at ht
          obtain ⟨field, hfield, heq⟩ := List.mem_map.mp ht
          rw [← heq] at hin
          have hmem := List.mem_of_mem_filter hfield
          have hpart := ih field hmem _ hin
          exact List.mem_cons_of_mem _
            (List.mem_flatMap.mpr ⟨field.2, List.mem_map_of_mem hmem, hpart⟩)

theorem isBlocked_value (fields : List (String × DataTree (Fin n))) :
    isBlocked Value.isTrue (fields.map fun field => (field.1, field.2.value)) =
      isBlocked isTrueTree fields := by
  unfold isBlocked
  rw [ObjectHeap.lookup_map_value]
  cases lookup "blocked" fields with
  | none => rfl
  | some t =>
      cases t with
      | scalar s => cases s <;> rfl
      | array a items => rfl
      | record a fields => rfl

/-! ## The visit of a tree -/

/-- What a visit does to trees of a heap: each is replaced, and nothing else. -/
structure Did (st after : StripState n) (trees trees' : List (DataTree (Fin n))) : Prop where
  laid : ∀ t ∈ trees', t.Laid after.heap
  frame : ∀ a, (∀ t ∈ trees, a ∉ t.footprint) → after.heap a = st.heap a
  seen : ∀ a ∈ after.seen, a ∈ st.seen ∨ ∃ t ∈ trees, a ∈ t.footprint

/-- No object of a tree is seen. -/
def Unseen (st : StripState n) (t : DataTree (Fin n)) : Prop := ∀ a ∈ t.footprint, a ∉ st.seen

/-- A visit of a tree ends and strips it. -/
def Strips (options : StripOptions) (lead : Lead) (t : DataTree (Fin n)) : Prop :=
  ∀ st, t.Laid st.heap → Unseen st t → ∃ depth after,
    lead.follow options (visit options depth) t.value st = some after ∧
      Did st after [t] [strip options lead t]

variable {st after : StripState n} {t t' : DataTree (Fin n)} {a : Fin n} {lead : Lead}
  {keys : List String} {fields : List (String × DataTree (Fin n))} {key : String}
  {attr : AttributeSchema}

theorem Did.frame_one (did : Did st after [t] [t']) (h : a ∉ t.footprint) :
    after.heap a = st.heap a := by
  apply did.frame
  intro part hpart
  rw [List.mem_singleton.mp hpart]
  exact h

theorem Did.seen_one (did : Did st after [t] [t']) (h : a ∈ after.seen) :
    a ∈ st.seen ∨ a ∈ t.footprint := by
  rcases did.seen a h with hold | hnew
  · exact Or.inl hold
  · obtain ⟨part, hpart, hin⟩ := hnew
    rw [List.mem_singleton.mp hpart] at hin
    exact Or.inr hin

variable {other : DataTree (Fin n)} {value : Value n} {field : String × DataTree (Fin n)}

theorem Did.laid_other (did : Did st after [t] [t'])
    (disjoint : List.Disjoint t.footprint other.footprint) (laid : other.Laid st.heap) :
    other.Laid after.heap :=
  laid.frame fun _ ha => did.frame_one fun hin => disjoint hin ha

theorem Did.unseen_other (did : Did st after [t] [t'])
    (disjoint : List.Disjoint t.footprint other.footprint) (unseen : Unseen st other) :
    Unseen after other := by
  intro a ha hseen
  rcases did.seen_one hseen with hold | hnew
  · exact unseen a ha hold
  · exact disjoint hnew ha

theorem follow_mono_le (hle : depth ≤ depth')
    (h : lead.follow options (visit options depth) value st = some after) :
    lead.follow options (visit options depth') value st = some after :=
  follow_mono (visit_mono hle) lead value st after h

theorem fold_strips (trees : List (DataTree (Fin n))) (each : ∀ t ∈ trees, Strips options lead t) :
    ∀ st, DataTree.Forest st.heap trees → (∀ t ∈ trees, Unseen st t) → ∃ depth after,
      (trees.map DataTree.value).foldlM
          (fun st value => lead.follow options (visit options depth) value st) st = some after ∧
        Did st after trees (trees.map (strip options lead)) := by
  induction trees with
  | nil =>
      intro st _ _
      refine ⟨0, st, rfl, ?_⟩
      exact {
        laid := fun t ht => absurd ht List.not_mem_nil
        frame := fun _ _ => rfl
        seen := fun _ ha => Or.inl ha }
  | cons t trees ih =>
      intro st forest unseen
      have hapart := List.pairwise_cons.mp forest.apart
      obtain ⟨depth, mid, hmid, did⟩ := each t List.mem_cons_self st
        (forest.laid t List.mem_cons_self) (unseen t List.mem_cons_self)
      have hforest : DataTree.Forest mid.heap trees := {
        laid := fun other hother => did.laid_other (hapart.1 other hother)
          (forest.laid other (List.mem_cons_of_mem _ hother))
        apart := hapart.2 }
      have hunseen : ∀ other ∈ trees, Unseen mid other := fun other hother =>
        did.unseen_other (hapart.1 other hother) (unseen other (List.mem_cons_of_mem _ hother))
      obtain ⟨depth', after, hafter, did'⟩ :=
        ih (fun other hother => each other (List.mem_cons_of_mem _ hother)) mid hforest hunseen
      refine ⟨max depth depth', after, ?_, ?_⟩
      · rw [List.map_cons, List.foldlM_cons, follow_mono_le (Nat.le_max_left _ _) hmid]
        exact foldlM_mono (fun s v after => follow_mono_le (Nat.le_max_right _ _)) _ _ _ hafter
      · exact {
          laid := by
            intro part hpart
            rw [List.map_cons] at hpart
            rcases List.mem_cons.mp hpart with heq | hrest
            · rw [heq]
              apply (did.laid _ (List.mem_singleton_self _)).frame
              intro a ha
              apply did'.frame
              intro other hother hin
              exact hapart.1 other hother (footprint_strip t lead ha) hin
            · exact did'.laid part hrest
          frame := by
            intro a hout
            rw [did'.frame a fun other hother => hout other (List.mem_cons_of_mem _ hother)]
            exact did.frame_one (hout t List.mem_cons_self)
          seen := by
            intro a ha
            rcases did'.seen a ha with hold | hnew
            · rcases did.seen_one hold with hfirst | hin
              · exact Or.inl hfirst
              · exact Or.inr ⟨t, List.mem_cons_self, hin⟩
            · obtain ⟨other, hother, hin⟩ := hnew
              exact Or.inr ⟨other, List.mem_cons_of_mem _ hother, hin⟩ }

theorem Did.same (laid : t.Laid st.heap) :
    Did st st [t] [t] where
  laid := fun part hpart => by
    rw [List.mem_singleton.mp hpart]
    exact laid
  frame := fun _ _ => rfl
  seen := fun _ ha => Or.inl ha

theorem strips_scalar (lead : Lead) (s : Scalar) :
    Strips options lead (.scalar s : DataTree (Fin n)) := by
  intro st laid _
  refine ⟨0, st, ?_, Did.same laid⟩
  cases lead <;> rfl

theorem strips_nothing (t : DataTree (Fin n)) : Strips options .nothing t := by
  intro st laid _
  refine ⟨0, st, rfl, ?_⟩
  rw [strip_nothing]
  exact Did.same laid

/-- An array in a zone is no entry. -/
theorem strips_array_zoneItem (a : Fin n) (items : List (DataTree (Fin n))) :
    Strips options .zoneItem (.array a items) := by
  intro st laid _
  have holds := (DataTree.laid_array.mp laid).1
  have hsame : strip options .zoneItem (.array a items) = .array a items := by
    rw [strip_array]
    congr 1
    exact (List.map_congr_left fun t _ => strip_nothing t).trans (List.map_id' items)
  refine ⟨0, st, ?_, ?_⟩
  · simp only [Lead.follow, DataTree.value, visitZoneItem, holds, Object.property?]
  · rw [hsame]
    exact Did.same laid

/-- How an array leads to its items. -/
theorem follow_array (hitem : lead ≠ .zoneItem) (hnothing : lead ≠ .nothing) (depth : Nat)
    {items : List (Value n)} (holds : st.heap a = .array items) :
    ∃ depth', lead.follow options (visit options depth') (.ref a) st =
      items.foldlM (fun st value => lead.ofItem.follow options (visit options depth) value st) st := by
  cases lead with
  | model schema =>
      refine ⟨depth + 1, ?_⟩
      simp only [Lead.follow, visit, holds]
      rfl
  | zone =>
      refine ⟨depth, ?_⟩
      simp only [Lead.follow, visitDynamicZone, holds]
      rfl
  | zoneItem => exact absurd rfl hitem
  | nothing => exact absurd rfl hnothing

theorem strips_array {items : List (DataTree (Fin n))}
    (each : ∀ t ∈ items, Strips options lead.ofItem t) : Strips options lead (.array a items) := by
  by_cases hitem : lead = .zoneItem
  · rw [hitem]
    exact strips_array_zoneItem a items
  by_cases hnothing : lead = .nothing
  · rw [hnothing]
    exact strips_nothing _
  intro st laid unseen
  obtain ⟨holds, fresh, forest⟩ := DataTree.laid_array.mp laid
  have hunseen : ∀ t ∈ items, Unseen st t := by
    intro t ht b hb
    apply unseen b
    rw [DataTree.footprint_array]
    exact List.mem_cons_of_mem _ (List.mem_flatMap.mpr ⟨t, ht, hb⟩)
  obtain ⟨depth, after, hfold, did⟩ := fold_strips items each st forest hunseen
  obtain ⟨depth', hfollow⟩ : ∃ depth', lead.follow options (visit options depth') (.ref a) st =
      (items.map DataTree.value).foldlM
        (fun st value => lead.ofItem.follow options (visit options depth) value st) st :=
    follow_array hitem hnothing depth holds
  refine ⟨depth', after, hfollow.trans hfold, ?_⟩
  have hvalues : items.map DataTree.value =
      (items.map (strip options lead.ofItem)).map DataTree.value := by
    rw [List.map_map]
    exact List.map_congr_left fun t _ => (value_strip _ t).symm
  have hforest : DataTree.Forest after.heap (items.map (strip options lead.ofItem)) := {
    laid := did.laid
    apart := DataTree.apart_of_subset (by rw [List.map_id']; exact forest.apart)
      fun t _ => footprint_strip t _ }
  exact {
    laid := by
      intro part hpart
      rw [List.mem_singleton.mp hpart, strip, stripItems_eq, DataTree.laid_array]
      refine ⟨(did.frame a fresh).trans (holds.trans (congrArg Object.array hvalues)), ?_, hforest⟩
      intro t ht hin
      obtain ⟨t', ht', heq⟩ := List.mem_map.mp ht
      rw [← heq] at hin
      exact fresh t' ht' (footprint_strip t' _ hin)
    frame := by
      intro b hout
      apply did.frame
      intro t ht hin
      apply hout _ (List.mem_singleton_self _)
      rw [DataTree.footprint_array]
      exact List.mem_cons_of_mem _ (List.mem_flatMap.mpr ⟨t, ht, hin⟩)
    seen := by
      intro b hb
      rcases did.seen b hb with hold | hnew
      · exact Or.inl hold
      · obtain ⟨t, ht, hin⟩ := hnew
        refine Or.inr ⟨_, List.mem_singleton_self _, ?_⟩
        rw [DataTree.footprint_array]
        exact List.mem_cons_of_mem _ (List.mem_flatMap.mpr ⟨t, ht, hin⟩) }

/-! ## The attributes of a record -/

theorem Did.trans {mid : StripState n} {trees trees' trees'' : List (DataTree (Fin n))}
    (first : Did st mid trees trees') (second : Did mid after trees' trees'')
    (within : ∀ t' ∈ trees', ∀ a ∈ t'.footprint, ∃ t ∈ trees, a ∈ t.footprint) :
    Did st after trees trees'' where
  laid := second.laid
  frame := by
    intro a hout
    rw [second.frame a fun t' ht' hin => ?_]
    · exact first.frame a hout
    · obtain ⟨t, ht, ha⟩ := within t' ht' a hin
      exact hout t ht ha
  seen := by
    intro a ha
    rcases second.seen a ha with hold | hnew
    · exact first.seen a hold
    · obtain ⟨t', ht', hin⟩ := hnew
      exact Or.inr (within t' ht' a hin)

/-- The fields after the visit of one attribute. -/
def stripKey (options : StripOptions) (lead : Lead) (key : String)
    (field : String × DataTree (Fin n)) : String × DataTree (Fin n) :=
  (field.1, if field.1 = key then strip options lead field.2 else field.2)

/-- The fields after the visit of some attributes. -/
def visitedField (options : StripOptions) (entries : List (String × AttributeSchema))
    (field : String × DataTree (Fin n)) : String × DataTree (Fin n) :=
  (field.1, strip options (leadIn options entries field.1) field.2)

theorem footprint_stripKey (lead : Lead) (key : String) (field : String × DataTree (Fin n)) :
    (stripKey options lead key field).2.footprint ⊆ field.2.footprint := by
  unfold stripKey
  dsimp only
  split
  · exact footprint_strip _ _
  · exact List.Subset.refl _

theorem value_stripKey (lead : Lead) (key : String) (field : String × DataTree (Fin n)) :
    (stripKey options lead key field).2.value = field.2.value := by
  unfold stripKey
  dsimp only
  split
  · exact value_strip _ _
  · rfl

/-- A record with its fields apart, and which of them are still to visit. -/
structure Pending (options : StripOptions) (a : Fin n) (keys : List String)
    (fields : List (String × DataTree (Fin n))) (st : StripState n) : Prop where
  holds : st.heap a = .record (fields.map fun field => (field.1, field.2.value))
  nodup : (fields.map Prod.fst).Nodup
  fresh : ∀ t ∈ fields.map Prod.snd, a ∉ t.footprint
  forest : DataTree.Forest st.heap (fields.map Prod.snd)
  unseen : ∀ field ∈ fields, field.1 ∈ keys → Unseen st field.2
  strips : ∀ field ∈ fields, field.1 ∈ keys → ∀ lead, Strips options lead field.2

theorem Pending.disjoint (pending : Pending options a keys fields st)
    {other : String × DataTree (Fin n)} (hfield : field ∈ fields) (hother : other ∈ fields)
    (hne : field.1 ≠ other.1) : List.Disjoint field.2.footprint other.2.footprint := by
  have hapart := List.pairwise_map.mp pending.forest.apart
  have hsymm : Std.Symm fun field other : String × DataTree (Fin n) =>
      List.Disjoint field.2.footprint other.2.footprint :=
    ⟨fun _ _ h _ ha hb => h hb ha⟩
  exact hapart.forall hfield hother fun heq => hne (congrArg Prod.fst heq)

theorem stripKey_of_ne (h : field.1 ≠ key) : stripKey options lead key field = field := by
  unfold stripKey
  rw [if_neg h]

theorem map_fst_stripKey (lead : Lead) (key : String) (fields : List (String × DataTree (Fin n))) :
    (fields.map (stripKey options lead key)).map Prod.fst = fields.map Prod.fst := by
  rw [List.map_map]
  rfl

theorem map_value_stripKey (lead : Lead) (key : String) (fields : List (String × DataTree (Fin n))) :
    (fields.map (stripKey options lead key)).map (fun field => (field.1, field.2.value)) =
      fields.map fun field => (field.1, field.2.value) := by
  rw [List.map_map]
  apply List.map_congr_left
  intro field _
  exact Prod.ext rfl (value_stripKey lead key field)

/-- The fields that are left to visit after a change of the trees of one key. -/
theorem Pending.stripKey (hkey : key ∉ keys) (pending : Pending options a (key :: keys) fields st)
    (did : Did st after (fields.map Prod.snd)
      ((fields.map (stripKey options lead key)).map Prod.snd))
    (others : ∀ field ∈ fields, field.1 ≠ key → Unseen st field.2 → Unseen after field.2) :
    Pending options a keys (fields.map (UserContact.stripKey options lead key)) after := by
  have hleft (field : String × DataTree (Fin n)) (h : field.1 ∈ keys) : field.1 ≠ key :=
    fun heq => hkey (heq ▸ h)
  refine ⟨?_, ?_, ?_, ?_, ?_, ?_⟩
  · rw [did.frame a pending.fresh, pending.holds, map_value_stripKey]
  · rw [map_fst_stripKey]
    exact pending.nodup
  · intro t ht hin
    rw [List.map_map] at ht
    obtain ⟨field, hfield, heq⟩ := List.mem_map.mp ht
    rw [← heq] at hin
    exact pending.fresh _ (List.mem_map_of_mem hfield) (footprint_stripKey lead key field hin)
  · refine ⟨did.laid, ?_⟩
    rw [List.map_map]
    exact DataTree.apart_of_subset pending.forest.apart fun field _ => footprint_stripKey lead key field
  · intro field' hfield' hmem
    obtain ⟨field, hfield, heq⟩ := List.mem_map.mp hfield'
    rw [← heq] at hmem ⊢
    rw [stripKey_of_ne (hleft field hmem)]
    exact others field hfield (hleft field hmem)
      (pending.unseen field hfield (List.mem_cons_of_mem _ hmem))
  · intro field' hfield' hmem
    obtain ⟨field, hfield, heq⟩ := List.mem_map.mp hfield'
    rw [← heq] at hmem ⊢
    rw [stripKey_of_ne (hleft field hmem)]
    exact pending.strips field hfield (List.mem_cons_of_mem _ hmem)

theorem visitAttribute_eq (h : (st.heap a).property? key = some value) :
    visitAttribute options (visit options depth) a st (key, attr) =
      (attr.lead options).follow options (visit options depth) value st := by
  unfold visitAttribute
  rw [h]
  cases value with
  | ref b => rfl
  | scalar s => cases attr.lead options <;> cases depth <;> rfl

theorem visitAttribute_strips (hkey : key ∉ keys)
    (pending : Pending options a (key :: keys) fields st) :
    ∃ depth after, visitAttribute options (visit options depth) a st (key, attr) = some after ∧
      Did st after (fields.map Prod.snd)
        ((fields.map (stripKey options (attr.lead options) key)).map Prod.snd) ∧
      Pending options a keys (fields.map (stripKey options (attr.lead options) key)) after := by
  have hproperty : (st.heap a).property? key = (lookup key fields).map DataTree.value := by
    rw [pending.holds]
    exact ObjectHeap.lookup_map_value DataTree.value key fields
  cases hlookup : lookup key fields with
  | none =>
      rw [hlookup, Option.map_none] at hproperty
      have hsame : fields.map (stripKey options (attr.lead options) key) = fields := by
        conv => rhs; rw [← List.map_id fields]
        apply List.map_congr_left
        intro field hfield
        apply stripKey_of_ne
        intro heq
        exact ObjectHeap.lookup_eq_none.mp hlookup (heq ▸ List.mem_map_of_mem hfield)
      have hdid : Did st st (fields.map Prod.snd)
          ((fields.map (stripKey options (attr.lead options) key)).map Prod.snd) := by
        rw [hsame]
        exact {
          laid := pending.forest.laid
          frame := fun _ _ => rfl
          seen := fun _ ha => Or.inl ha }
      refine ⟨0, st, ?_, hdid, pending.stripKey hkey hdid fun _ _ _ h => h⟩
      unfold visitAttribute
      rw [hproperty]
  | some t =>
      rw [hlookup, Option.map_some] at hproperty
      have hmem := ObjectHeap.mem_of_lookup hlookup
      have hin : t ∈ fields.map Prod.snd := List.mem_map_of_mem hmem
      have hown (field : String × DataTree (Fin n)) (hfield : field ∈ fields) (heq : field.1 = key) :
          field = (key, t) := List.inj_on_of_nodup_map pending.nodup hfield hmem heq
      have hapart (field : String × DataTree (Fin n)) (hfield : field ∈ fields) (hne : field.1 ≠ key) :
          List.Disjoint t.footprint field.2.footprint :=
        pending.disjoint hmem hfield (Ne.symm hne)
      obtain ⟨depth, after, hafter, did⟩ := pending.strips _ hmem List.mem_cons_self
        (attr.lead options) st (pending.forest.laid t hin)
        (pending.unseen _ hmem List.mem_cons_self)
      have hdid : Did st after (fields.map Prod.snd)
          ((fields.map (stripKey options (attr.lead options) key)).map Prod.snd) := {
        laid := by
          intro part hpart
          rw [List.map_map] at hpart
          obtain ⟨field, hfield, heq⟩ := List.mem_map.mp hpart
          rw [← heq, Function.comp_apply]
          by_cases hfirst : field.1 = key
          · rw [hown field hfield hfirst, stripKey, if_pos rfl]
            exact did.laid _ (List.mem_singleton_self _)
          · rw [stripKey_of_ne hfirst]
            exact did.laid_other (hapart field hfield hfirst)
              (pending.forest.laid _ (List.mem_map_of_mem hfield))
        frame := fun b hout => did.frame_one (hout t hin)
        seen := by
          intro b hb
          rcases did.seen_one hb with hold | hnew
          · exact Or.inl hold
          · exact Or.inr ⟨t, hin, hnew⟩ }
      refine ⟨depth, after, (visitAttribute_eq hproperty).trans hafter, hdid, ?_⟩
      exact pending.stripKey hkey hdid fun field hfield hne hunseen =>
        did.unseen_other (hapart field hfield hne) hunseen

theorem visitedField_stripKey {entries : List (String × AttributeSchema)}
    (hkey : key ∉ entries.map Prod.fst) (field : String × DataTree (Fin n)) :
    visitedField options entries (stripKey options (attr.lead options) key field) =
      visitedField options ((key, attr) :: entries) field := by
  unfold visitedField stripKey leadIn
  dsimp only
  by_cases heq : field.1 = key
  · have hnone : lookup key entries = none := ObjectHeap.lookup_eq_none.mpr hkey
    have hfirst : lookup key ((key, attr) :: entries) = some attr := by
      simp [lookup]
    rw [if_pos heq, heq, hnone, hfirst]
    exact Prod.ext rfl (strip_nothing _)
  · have hskip : lookup field.1 ((key, attr) :: entries) = lookup field.1 entries := by
      have hne : (key == field.1) = false := beq_false_of_ne (Ne.symm heq)
      simp [lookup, hne]
    rw [if_neg heq, hskip]

theorem fold_attributes (entries : List (String × AttributeSchema))
    (hnodup : (entries.map Prod.fst).Nodup) :
    ∀ (fields : List (String × DataTree (Fin n))) (st : StripState n),
      Pending options a (entries.map Prod.fst) fields st → ∃ depth after,
        entries.foldlM (visitAttribute options (visit options depth) a) st = some after ∧
          Did st after (fields.map Prod.snd)
            ((fields.map (visitedField options entries)).map Prod.snd) := by
  induction entries with
  | nil =>
      intro fields st pending
      have hsame : fields.map (visitedField options []) = fields := by
        conv => rhs; rw [← List.map_id fields]
        apply List.map_congr_left
        intro field _
        rw [visitedField, leadIn]
        exact Prod.ext rfl (strip_nothing _)
      refine ⟨0, st, rfl, ?_⟩
      rw [hsame]
      exact {
        laid := pending.forest.laid
        frame := fun _ _ => rfl
        seen := fun _ ha => Or.inl ha }
  | cons entry entries ih =>
      intro fields st pending
      obtain ⟨key, attr⟩ := entry
      rw [List.map_cons, List.nodup_cons] at hnodup
      obtain ⟨depth, mid, hmid, did, pending'⟩ := visitAttribute_strips hnodup.1 pending
      obtain ⟨depth', after, hafter, did'⟩ := ih hnodup.2 _ mid pending'
      refine ⟨max depth depth', after, ?_, ?_⟩
      · rw [List.foldlM_cons, visitAttribute_mono (visit_mono (Nat.le_max_left _ _)) _ _ _ _ hmid]
        exact foldlM_mono (fun s i after =>
          visitAttribute_mono (visit_mono (Nat.le_max_right _ _)) a s i after) _ _ _ hafter
      · have hfields : (fields.map (stripKey options (attr.lead options) key)).map
            (visitedField options entries) =
              fields.map (visitedField options ((key, attr) :: entries)) := by
          rw [List.map_map]
          apply List.map_congr_left
          intro field _
          exact visitedField_stripKey hnodup.1 field
        rw [← hfields]
        apply did.trans did'
        intro t' ht' b hb
        rw [List.map_map] at ht'
        obtain ⟨field, hfield, heq⟩ := List.mem_map.mp ht'
        rw [← heq] at hb
        exact ⟨field.2, List.mem_map_of_mem hfield, footprint_stripKey _ key field hb⟩

end Sinnlos.Cms.UserContact

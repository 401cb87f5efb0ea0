import Mathlib.Data.Finset.Card
import Mathlib.Data.Finset.Dedup
import Mathlib.Data.Fintype.EquivFin
import Mathlib.Order.WellFounded
import Sinnlos.Cms.UserContactVisits

/-! # The response as a tree

The visit of a record, of an entry of a zone and of a whole tree; and a visit of
data with shared objects and cycles, which ends unless an array holds itself.
-/

namespace Sinnlos.Cms.UserContact

open ObjectHeap (Heap Object Value Scalar DataTree lookup)

variable {n : Nat} {options : StripOptions}

/-! ## Records -/

variable {a : Fin n} {fields : List (String × DataTree (Fin n))} {st : StripState n}

/-- What the visit of the kept fields does to the record. -/
theorem did_record {kept : List (String × DataTree (Fin n))}
    {change : String × DataTree (Fin n) → String × DataTree (Fin n)} {after : StripState n}
    (sublist : kept.Sublist fields) (laid : (DataTree.record a fields).Laid st.heap)
    (values : ∀ field, ((change field).1, (change field).2.value) = (field.1, field.2.value))
    (within : ∀ field, (change field).2.footprint ⊆ field.2.footprint)
    (did : Did ⟨Function.update st.heap a (.record (kept.map fun field =>
        (field.1, field.2.value))), a :: st.seen⟩ after (kept.map Prod.snd)
      ((kept.map change).map Prod.snd)) :
    Did st after [.record a fields] [.record a (kept.map change)] := by
  obtain ⟨holds, fresh, forest⟩ := DataTree.laid_record.mp laid
  have hsub : (kept.map Prod.snd).Sublist (fields.map Prod.snd) := sublist.map _
  have hfresh : ∀ t ∈ kept.map Prod.snd, a ∉ t.footprint := fun t ht => fresh t (hsub.subset ht)
  have hin (t : DataTree (Fin n)) (ht : t ∈ kept.map Prod.snd) (b : Fin n) (hb : b ∈ t.footprint) :
      b ∈ (DataTree.record a fields).footprint := by
    rw [DataTree.footprint_record]
    exact List.mem_cons_of_mem _ (List.mem_flatMap.mpr ⟨t, hsub.subset ht, hb⟩)
  have hvalues : ((kept.map change).map fun field => (field.1, field.2.value)) =
      kept.map fun field => (field.1, field.2.value) := by
    rw [List.map_map]
    exact List.map_congr_left fun field _ => values field
  exact {
    laid := by
      intro part hpart
      rw [List.mem_singleton.mp hpart, DataTree.laid_record, hvalues]
      refine ⟨?_, ?_, did.laid, ?_⟩
      · rw [did.frame a hfresh]
        exact Function.update_self _ _ _
      · intro t ht hmem
        rw [List.map_map] at ht
        obtain ⟨field, hfield, heq⟩ := List.mem_map.mp ht
        rw [← heq] at hmem
        exact hfresh _ (List.mem_map_of_mem hfield) (within field hmem)
      · rw [List.map_map]
        exact DataTree.apart_of_subset (forest.apart.sublist hsub) fun field _ => within field
    frame := by
      intro b hout
      have hnot := hout _ (List.mem_singleton_self _)
      have hne : b ≠ a := by
        intro heq
        apply hnot
        rw [heq, DataTree.footprint_record]
        exact List.mem_cons_self
      rw [did.frame b fun t ht hb => hnot (hin t ht b hb)]
      exact Function.update_of_ne hne _ _
    seen := by
      intro b hb
      rcases did.seen b hb with hold | hnew
      · rcases List.mem_cons.mp hold with heq | hseen
        · right
          refine ⟨_, List.mem_singleton_self _, ?_⟩
          rw [heq, DataTree.footprint_record]
          exact List.mem_cons_self
        · exact Or.inl hseen
      · obtain ⟨t, ht, hmem⟩ := hnew
        exact Or.inr ⟨_, List.mem_singleton_self _, hin t ht b hmem⟩ }

theorem keptFields_value (schema : ModelSchema) (blocked : Bool)
    (fields : List (String × DataTree (Fin n))) :
    ((fields.map fun field => (field.1, field.2.value)).filter fun field =>
        !withheld options schema blocked field.1) =
      (keptFields options schema blocked fields).map fun field => (field.1, field.2.value) := by
  rw [List.filter_map]
  rfl

/-- The state in which a record is marked and its fields are cut. -/
def cutRecord (st : StripState n) (a : Fin n) (kept : List (String × DataTree (Fin n))) :
    StripState n :=
  ⟨Function.update st.heap a (.record (kept.map fun field => (field.1, field.2.value))),
    a :: st.seen⟩

variable {schema : ModelSchema}

theorem visit_of_record
    (holds : st.heap a = .record (fields.map fun field => (field.1, field.2.value)))
    (unseen : a ∉ st.seen) (depth : Nat) :
    visit options (depth + 1) (.ref a) (some schema) st =
      let blocked := isBlocked isTrueTree fields
      let mid := cutRecord st a (keptFields options schema blocked fields)
      if schema.uid = some USER_UID ∧ blocked then some mid
      else schema.entries.foldlM (visitAttribute options (visit options depth) a) mid := by
  rw [visit, holds]
  dsimp only
  rw [if_neg unseen, isBlocked_value, keptFields_value]
  rfl

theorem nodup_entries (schema : ModelSchema) : (schema.entries.map Prod.fst).Nodup := by
  unfold ModelSchema.entries
  cases schema.attributes with
  | none => exact List.nodup_nil
  | some attributes => exact attributes.nodup

theorem visit_record (keyed : (fields.map Prod.fst).Nodup)
    (each : ∀ field ∈ fields, ∀ lead, Strips options lead field.2)
    (laid : (DataTree.record a fields).Laid st.heap) (unseen : Unseen st (.record a fields)) :
    ∃ depth after, visit options depth (.ref a) (some schema) st = some after ∧
      Did st after [.record a fields]
        [.record a (stripFields options schema (isBlocked isTrueTree fields) fields)] := by
  obtain ⟨holds, fresh, forest⟩ := DataTree.laid_record.mp laid
  have hself : a ∉ st.seen := by
    apply unseen
    rw [DataTree.footprint_record]
    exact List.mem_cons_self
  have hvisit (depth : Nat) : visit options (depth + 1) (.ref a) (some schema) st = _ :=
    visit_of_record holds hself depth
  dsimp only at hvisit
  rw [stripFields_eq]
  generalize hblocked : isBlocked isTrueTree fields = blocked at hvisit ⊢
  have hsub : (keptFields options schema blocked fields).Sublist fields := List.filter_sublist
  generalize keptFields options schema blocked fields = kept at hsub hvisit ⊢
  have hfresh : ∀ t ∈ kept.map Prod.snd, a ∉ t.footprint :=
    fun t ht => fresh t ((hsub.map Prod.snd).subset ht)
  have hforest : DataTree.Forest (cutRecord st a kept).heap (kept.map Prod.snd) := {
    laid := by
      intro t ht
      apply (forest.laid t ((hsub.map Prod.snd).subset ht)).frame
      intro b hb
      have hne : b ≠ a := fun heq => hfresh t ht (heq ▸ hb)
      exact Function.update_of_ne hne _ _
    apart := forest.apart.sublist (hsub.map Prod.snd) }
  by_cases hcut : schema.uid = some USER_UID ∧ blocked
  · refine ⟨1, cutRecord st a kept, (hvisit 0).trans (if_pos hcut), ?_⟩
    have hnext : (fun field : String × DataTree (Fin n) =>
        (field.1, strip options (schema.next options blocked field.1) field.2)) = id := by
      funext field
      unfold ModelSchema.next
      rw [if_pos hcut, strip_nothing]
      rfl
    rw [hnext]
    apply did_record hsub laid (fun _ => rfl) (fun _ => List.Subset.refl _)
    rw [List.map_id']
    exact {
      laid := hforest.laid
      frame := fun _ _ => rfl
      seen := fun _ hb => Or.inl hb }
  · have hpending : Pending options a (schema.entries.map Prod.fst) kept (cutRecord st a kept) := {
      holds := Function.update_self _ _ _
      nodup := keyed.sublist (hsub.map Prod.fst)
      fresh := hfresh
      forest := hforest
      unseen := by
        intro field hfield _ b hb hseen
        have hmem : field.2 ∈ kept.map Prod.snd := List.mem_map_of_mem hfield
        rcases List.mem_cons.mp hseen with heq | hold
        · exact hfresh _ hmem (heq ▸ hb)
        · apply unseen b _ hold
          rw [DataTree.footprint_record]
          exact List.mem_cons_of_mem _
            (List.mem_flatMap.mpr ⟨_, (hsub.map Prod.snd).subset hmem, hb⟩)
      strips := fun field hfield _ => each field (hsub.subset hfield) }
    obtain ⟨depth, after, hfold, did⟩ := fold_attributes _ (nodup_entries schema) _ _ hpending
    refine ⟨depth + 1, after, (hvisit depth).trans ((if_neg hcut).trans hfold), ?_⟩
    have hnext : (fun field : String × DataTree (Fin n) =>
        (field.1, strip options (schema.next options blocked field.1) field.2)) =
          visitedField options schema.entries := by
      funext field
      unfold ModelSchema.next
      rw [if_neg hcut]
      rfl
    rw [hnext]
    exact did_record hsub laid (fun field => Prod.ext rfl (value_strip _ _))
      (fun field => footprint_strip _ _) did

/-! ## Entries of a zone -/

theorem componentOf_value
    (holds : st.heap a = .record (fields.map fun field => (field.1, field.2.value)))
    (visit : Visitor n) :
    visitZoneItem options visit (.ref a) st =
      match componentOf options fields with
      | some target => visit (.ref a) (some target) st
      | none => some st := by
  have hproperty : (st.heap a).property? "__component" =
      (lookup "__component" fields).map DataTree.value := by
    rw [holds]
    exact ObjectHeap.lookup_map_value DataTree.value _ fields
  unfold visitZoneItem componentOf
  dsimp only
  rw [hproperty]
  cases lookup "__component" fields with
  | none => rfl
  | some t =>
      cases t with
      | array b items => rfl
      | record b fields => rfl
      | scalar s =>
          cases s with
          | str componentUid =>
              cases hmodel : options.getModel componentUid with
              | none | some target => simp [DataTree.value, hmodel]
          | null | bool value | num value => rfl

/-- An entry of a zone is visited as its component, also when it is the whole zone. -/
theorem follow_zone_record
    (holds : st.heap a = .record (fields.map fun field => (field.1, field.2.value)))
    (visit : Visitor n) :
    Lead.follow options visit .zone (.ref a) st = Lead.follow options visit .zoneItem (.ref a) st := by
  simp only [Lead.follow, visitDynamicZone, holds, List.foldlM_cons, List.foldlM_nil]
  exact bind_pure _

theorem strips_record {lead : Lead} (keyed : (fields.map Prod.fst).Nodup)
    (each : ∀ field ∈ fields, ∀ lead, Strips options lead field.2) :
    Strips options lead (.record a fields) := by
  intro st laid unseen
  have holds := (DataTree.laid_record.mp laid).1
  rw [strip_record]
  have hzoneItem : ∃ depth after,
      Lead.follow options (visit options depth) .zoneItem (.ref a) st = some after ∧
        Did st after [.record a fields] [.record a (strippedFields options .zoneItem fields)] := by
    simp only [Lead.follow, componentOf_value holds, strippedFields, Lead.modelAt]
    cases componentOf options fields with
    | none => exact ⟨0, st, rfl, Did.same laid⟩
    | some target => exact visit_record keyed each laid unseen
  cases lead with
  | nothing => exact ⟨0, st, rfl, Did.same laid⟩
  | model schema => exact visit_record keyed each laid unseen
  | zoneItem => exact hzoneItem
  | zone =>
      simp only [DataTree.value, follow_zone_record holds]
      exact hzoneItem

/-- The visit of a tree ends and strips it, wherever the visit came from. -/
theorem strips_tree {t : DataTree (Fin n)} (keyed : t.Keyed) : ∀ lead, Strips options lead t := by
  induction t using DataTree.induct with
  | scalar s => exact fun lead => strips_scalar lead s
  | array a items ih =>
      cases keyed with
      | array hkeyed => exact fun lead => strips_array fun t ht => ih t ht (hkeyed t ht) _
  | record a fields ih =>
      cases keyed with
      | record hnodup hkeyed =>
          exact fun lead => strips_record hnodup fun field hfield =>
            ih field hfield (hkeyed field hfield)

/-! ## Shared objects and cycles -/

/-- An array that lies directly in another one. -/
def Within (heap : Heap n) (b a : Fin n) : Prop :=
  (∃ items, heap a = .array items ∧ .ref b ∈ items) ∧ ∃ items, heap b = .array items

/-- No array holds itself by way of arrays only. -/
def NoArrayCycle (heap : Heap n) : Prop := ∀ a, ¬ Relation.TransGen (Within heap) a a

theorem NoArrayCycle.wellFounded {heap : Heap n} (h : NoArrayCycle heap) :
    WellFounded (Within heap) := by
  have hirrefl : Std.Irrefl (Relation.TransGen (Within heap)) := ⟨h⟩
  have htrans : WellFounded (Relation.TransGen (Within heap)) :=
    Finite.wellFounded_of_trans_of_irrefl _
  exact Subrelation.wf Relation.TransGen.single htrans

def unseen (st : StripState n) : Finset (Fin n) := Finset.univ \ st.seen.toFinset

theorem mem_unseen : a ∈ unseen st ↔ a ∉ st.seen := by
  simp [unseen]

/-- A state of the visit: the arrays are those of the start, and at most `left` records
are not seen. -/
structure Visiting (heap : Heap n) (left : Nat) (st : StripState n) : Prop where
  arrays : ∀ a items, st.heap a = .array items ↔ heap a = .array items
  left : (unseen st).card ≤ left

/-- Every visit from such a state ends in such a state. -/
def Ends (options : StripOptions) (heap : Heap n) (left : Nat) : Prop :=
  ∀ lead value st, Visiting heap left st → ∃ depth after,
    Lead.follow options (visit options depth) lead value st = some after ∧
      Visiting heap left after

theorem fold_ends {ι : Type} (step : Nat → StripState n → ι → Option (StripState n))
    (deeper : ∀ depth depth', depth ≤ depth' → ∀ s i after, step depth s i = some after →
      step depth' s i = some after)
    {I : StripState n → Prop} {items : List ι}
    (each : ∀ i ∈ items, ∀ s, I s → ∃ depth after, step depth s i = some after ∧ I after) :
    ∀ s, I s → ∃ depth after, items.foldlM (step depth) s = some after ∧ I after := by
  induction items with
  | nil => exact fun s hs => ⟨0, s, rfl, hs⟩
  | cons i items ih =>
      intro s hs
      obtain ⟨depth, mid, hmid, hI⟩ := each i List.mem_cons_self s hs
      obtain ⟨depth', after, hafter, hI'⟩ :=
        ih (fun j hj => each j (List.mem_cons_of_mem _ hj)) mid hI
      refine ⟨max depth depth', after, ?_, hI'⟩
      rw [List.foldlM_cons, deeper _ _ (Nat.le_max_left _ _) _ _ _ hmid]
      exact foldlM_mono (deeper _ _ (Nat.le_max_right _ _)) _ _ _ hafter

section Ends
variable {heap : Heap n} {left : Nat} {st : StripState n} {a : Fin n} {heap' : Heap n}

theorem card_unseen_mark (h : a ∉ st.seen) :
    (unseen ⟨heap', a :: st.seen⟩).card < (unseen st).card := by
  apply Finset.card_lt_card
  rw [Finset.ssubset_iff_of_subset]
  · refine ⟨a, mem_unseen.mpr h, ?_⟩
    rw [mem_unseen]
    exact fun hnot => hnot List.mem_cons_self
  · intro b hb
    rw [mem_unseen] at hb ⊢
    exact fun hmem => hb (List.mem_cons_of_mem _ hmem)

theorem Visiting.pos (visiting : Visiting heap left st) (h : a ∉ st.seen) : 0 < left := by
  have hlt : (unseen ⟨st.heap, a :: st.seen⟩).card < (unseen st).card := card_unseen_mark h
  have hle := visiting.left
  omega

theorem Visiting.mark (visiting : Visiting heap left st) (h : a ∉ st.seen)
    (arrays : ∀ b items, heap' b = .array items ↔ st.heap b = .array items) :
    Visiting heap (left - 1) ⟨heap', a :: st.seen⟩ where
  arrays := fun b items => (arrays b items).trans (visiting.arrays b items)
  left := by
    have hlt : (unseen ⟨heap', a :: st.seen⟩).card < (unseen st).card := card_unseen_mark h
    have hle := visiting.left
    omega

theorem Visiting.weaken {left' : Nat} (visiting : Visiting heap left st) (hle : left ≤ left') :
    Visiting heap left' st :=
  ⟨visiting.arrays, visiting.left.trans hle⟩

theorem arrays_update {fields : List (String × Value n)} (holds : heap a = .record fields)
    (fields' : List (String × Value n)) (b : Fin n) (items : List (Value n)) :
    Function.update heap a (.record fields') b = .array items ↔ heap b = .array items := by
  by_cases heq : b = a
  · rw [heq, Function.update_self, holds]
    exact iff_of_false (fun h => nomatch h) (fun h => nomatch h)
  · rw [Function.update_of_ne heq]

theorem attributes_end (ends : Ends options heap left) (a : Fin n)
    (entries : List (String × AttributeSchema)) (visiting : Visiting heap left st) :
    ∃ depth after, entries.foldlM (visitAttribute options (visit options depth) a) st =
      some after ∧ Visiting heap left after := by
  refine fold_ends (fun depth => visitAttribute options (visit options depth) a)
    (fun _ _ hle => visitAttribute_mono (visit_mono hle) a) ?_ st visiting
  intro entry _ s hs
  unfold visitAttribute
  split
  · next b _ => exact ends _ _ _ hs
  · exact ⟨0, s, rfl, hs⟩
  · exact ⟨0, s, rfl, hs⟩

theorem record_ends (smaller : ∀ left' < left, Ends options heap left')
    {fields : List (String × Value n)} (visiting : Visiting heap left st)
    (holds : st.heap a = .record fields) (schema : Option ModelSchema) :
    ∃ depth after, visit options depth (.ref a) schema st = some after ∧
      Visiting heap left after := by
  by_cases hseen : a ∈ st.seen
  · refine ⟨1, st, ?_, visiting⟩
    rw [visit, holds]
    exact if_pos hseen
  · have hpos := visiting.pos hseen
    have hle : left - 1 ≤ left := Nat.sub_le _ _
    cases schema with
    | none =>
        refine ⟨1, ⟨st.heap, a :: st.seen⟩, ?_, (visiting.mark hseen fun _ _ => Iff.rfl).weaken hle⟩
        rw [visit, holds]
        exact if_neg hseen
    | some schema =>
        have hmark := visiting.mark hseen (arrays_update holds (fields.filter fun field =>
          !withheld options schema (isBlocked Value.isTrue fields) field.1))
        by_cases hcut : schema.uid = some USER_UID ∧ isBlocked Value.isTrue fields
        · refine ⟨1, _, ?_, hmark.weaken hle⟩
          rw [visit, holds]
          exact (if_neg hseen).trans (if_pos hcut)
        · obtain ⟨depth, after, hfold, hafter⟩ :=
            attributes_end (smaller (left - 1) (by omega)) a schema.entries hmark
          refine ⟨depth + 1, after, ?_, hafter.weaken hle⟩
          rw [visit, holds]
          exact (if_neg hseen).trans ((if_neg hcut).trans hfold)

theorem zoneItem_ends (smaller : ∀ left' < left, Ends options heap left')
    (visiting : Visiting heap left st) (item : Value n) :
    ∃ depth after, Lead.follow options (visit options depth) .zoneItem item st = some after ∧
      Visiting heap left after := by
  cases item with
  | scalar s => exact ⟨0, st, rfl, visiting⟩
  | ref b =>
      cases holds : st.heap b with
      | array items =>
          refine ⟨0, st, ?_, visiting⟩
          simp only [Lead.follow, visitZoneItem, holds, Object.property?]
      | record fields =>
          simp only [Lead.follow, visitZoneItem]
          split
          · split
            · exact record_ends smaller visiting holds _
            · exact ⟨0, st, rfl, visiting⟩
          · exact ⟨0, st, rfl, visiting⟩

theorem zone_ends (smaller : ∀ left' < left, Ends options heap left')
    (visiting : Visiting heap left st) (value : Value n) :
    ∃ depth after, Lead.follow options (visit options depth) .zone value st = some after ∧
      Visiting heap left after := by
  cases value with
  | scalar s => exact ⟨0, st, rfl, visiting⟩
  | ref b =>
      exact fold_ends (fun depth s item => visitZoneItem options (visit options depth) item s)
        (fun _ _ hle s item => visitZoneItem_mono (visit_mono hle) item s)
        (fun item _ s hs => zoneItem_ends smaller hs item) st visiting

/-- By induction on how deep an array lies in others. -/
theorem model_ends (acyclic : NoArrayCycle heap)
    (smaller : ∀ left' < left, Ends options heap left') (schema : Option ModelSchema) (b : Fin n) :
    ∀ st, Visiting heap left st → ∃ depth after,
      visit options depth (.ref b) schema st = some after ∧ Visiting heap left after := by
  induction b using acyclic.wellFounded.induction with
  | _ b ih =>
      intro st visiting
      cases holds : st.heap b with
      | record fields => exact record_ends smaller visiting holds schema
      | array items =>
          have hitems := (visiting.arrays b items).mp holds
          obtain ⟨depth, after, hfold, hafter⟩ : ∃ depth after, items.foldlM
              (fun s item => visit options depth item schema s) st = some after ∧
                Visiting heap left after := by
            refine fold_ends (fun depth s item => visit options depth item schema s)
              (fun _ _ hle s item => visit_mono hle item schema s) ?_ st visiting
            intro item hmem s hs
            cases item with
            | scalar value => exact ⟨0, s, rfl, hs⟩
            | ref c =>
                cases hc : s.heap c with
                | record fields => exact record_ends smaller hs hc schema
                | array inner =>
                    have hinner := (hs.arrays c inner).mp hc
                    exact ih c ⟨⟨items, hitems, hmem⟩, inner, hinner⟩ s hs
          refine ⟨depth + 1, after, ?_, hafter⟩
          rw [visit, holds]
          exact hfold

theorem ends_all (acyclic : NoArrayCycle heap) (left : Nat) : Ends options heap left := by
  induction left using Nat.strong_induction_on with
  | _ left smaller =>
      intro lead value st visiting
      cases lead with
      | nothing => exact ⟨0, st, rfl, visiting⟩
      | zone => exact zone_ends smaller visiting value
      | zoneItem => exact zoneItem_ends smaller visiting value
      | model schema =>
          cases value with
          | scalar s => exact ⟨0, st, rfl, visiting⟩
          | ref b => exact model_ends acyclic smaller (some schema) b st visiting

/-- Without an array that holds itself every response is stripped. -/
theorem exists_stripsTo (options : StripOptions) (acyclic : NoArrayCycle heap) (data : Value n)
    (schema : Option ModelSchema) : ∃ after, StripsTo options heap data schema after := by
  have visiting : Visiting heap (unseen ⟨heap, []⟩).card ⟨heap, []⟩ :=
    ⟨fun _ _ => Iff.rfl, Nat.le_refl _⟩
  cases data with
  | scalar s => exact ⟨heap, 0, [], rfl⟩
  | ref b =>
      obtain ⟨depth, after, hvisit, _⟩ :=
        model_ends acyclic (fun left' _ => ends_all acyclic left') schema b _ visiting
      exact ⟨after.heap, depth, after.seen, hvisit⟩

end Ends

end Sinnlos.Cms.UserContact

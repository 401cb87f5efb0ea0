import Sinnlos.Cms.UserContactTrees

/-! # What a stripped response shows

On every path the stripped tree shows what the tree shows that is not withheld; no
node reached as a user shows a contact field, and a blocked one its attribution only.
-/

namespace Sinnlos.Cms.UserContact

open ObjectHeap (Heap Object Value Scalar DataTree lookup)
open ObjectHeap.DataTree (PathStep Shape)

variable {α : Type} {n : Nat} {options : StripOptions}

/-! ## Paths -/

/-- Where a field leads of a record reached by a lead. -/
def nextLead (options : StripOptions) (lead : Lead) (fields : List (String × DataTree α))
    (key : String) : Lead :=
  match lead.modelAt options fields with
  | none => .nothing
  | some schema => schema.next options (isBlocked isTrueTree fields) key

/-- The fields that a record reached by a lead does not show. -/
def hidden (options : StripOptions) (lead : Lead) (fields : List (String × DataTree α))
    (key : String) : Bool :=
  match lead.modelAt options fields with
  | none => false
  | some schema => withheld options schema (isBlocked isTrueTree fields) key

def shownShape (options : StripOptions) (lead : Lead) : DataTree α → Shape
  | .scalar s => .scalar s
  | .array _ items => .items items.length
  | .record _ fields =>
      .keys ((fields.map Prod.fst).filter fun key => !hidden options lead fields key)

/-- What a tree shows on a path that passes no withheld field. -/
def visibleAt (options : StripOptions) : Lead → DataTree α → List PathStep → Option Shape
  | lead, t, [] => some (shownShape options lead t)
  | lead, .array _ items, .item i :: path =>
      items[i]?.bind fun t => visibleAt options lead.ofItem t path
  | lead, .record _ fields, .key key :: path =>
      if hidden options lead fields key then none
      else (lookup key fields).bind fun t =>
        visibleAt options (nextLead options lead fields key) t path
  | _, _, _ => none

theorem strippedFields_eq (lead : Lead) (fields : List (String × DataTree α)) :
    strippedFields options lead fields =
      (fields.filter fun field => !hidden options lead fields field.1).map fun field =>
        (field.1, strip options (nextLead options lead fields field.1) field.2) := by
  unfold strippedFields hidden nextLead
  cases lead.modelAt options fields with
  | none =>
      simp only [Bool.not_false, List.filter_true, strip_nothing]
      exact (List.map_id' fields).symm
  | some schema => exact stripFields_eq schema _ fields

theorem lookup_strippedFields (lead : Lead) (fields : List (String × DataTree α)) (key : String) :
    lookup key (strippedFields options lead fields) =
      if hidden options lead fields key then none
      else (lookup key fields).map (strip options (nextLead options lead fields key)) := by
  rw [strippedFields_eq,
    ObjectHeap.lookup_map fun key t => strip options (nextLead options lead fields key) t,
    ObjectHeap.lookup_filter fun key => !hidden options lead fields key]
  cases hidden options lead fields key <;> rfl

/-- The stripped tree shows what is not withheld, on every path. -/
theorem shapeAt_strip (path : List PathStep) : ∀ (lead : Lead) (t : DataTree α),
    (strip options lead t).shapeAt path = visibleAt options lead t path := by
  induction path with
  | nil =>
      intro lead t
      cases t with
      | scalar s => rfl
      | array a items =>
          rw [strip_array]
          simp [DataTree.shapeAt, DataTree.shape, visibleAt, shownShape]
      | record a fields =>
          rw [strip_record, strippedFields_eq]
          simp only [DataTree.shapeAt, DataTree.shape, visibleAt, shownShape, List.map_map, List.filter_map]
          rfl
  | cons step path ih =>
      intro lead t
      cases t with
      | scalar s => cases step <;> rfl
      | array a items =>
          rw [strip_array]
          cases step with
          | key key => rfl
          | item i =>
              simp only [DataTree.shapeAt, visibleAt, List.getElem?_map]
              cases items[i]? with
              | none => rfl
              | some t => exact ih _ t
      | record a fields =>
          rw [strip_record]
          cases step with
          | item i => rfl
          | key key =>
              simp only [DataTree.shapeAt, visibleAt, lookup_strippedFields]
              split
              · rfl
              · cases lookup key fields with
                | none => rfl
                | some t => exact ih _ t

/-! ## Nodes reached as a user -/

/-- A record of the tree is reached through attributes as a model. -/
inductive ReachedAs (options : StripOptions) :
    Lead → DataTree α → ModelSchema → List (String × DataTree α) → Prop
  | here {lead : Lead} {a : α} {fields : List (String × DataTree α)} {schema : ModelSchema}
      (model : lead.modelAt options fields = some schema) :
      ReachedAs options lead (.record a fields) schema fields
  | item {lead : Lead} {a : α} {items : List (DataTree α)} {t : DataTree α} {schema : ModelSchema}
      {fields : List (String × DataTree α)} (mem : t ∈ items)
      (reached : ReachedAs options lead.ofItem t schema fields) :
      ReachedAs options lead (.array a items) schema fields
  | field {lead : Lead} {a : α} {fields inner : List (String × DataTree α)}
      {owner schema : ModelSchema} {key : String} {t : DataTree α}
      (model : lead.modelAt options fields = some owner) (mem : (key, t) ∈ fields)
      (reached : ReachedAs options (leadIn options owner.entries key) t schema inner) :
      ReachedAs options lead (.record a fields) schema inner

/-- What a user node may show. -/
structure Withheld (options : StripOptions) (fields : List (String × DataTree α)) : Prop where
  blocked : isBlocked isTrueTree fields = true →
    ∀ key ∈ fields.map Prod.fst, key ∈ BLOCKED_USER_FIELDS
  contact : options.contact ≠ some false →
    ∀ key ∈ fields.map Prod.fst, key ∉ SENSITIVE_USER_FIELDS

/-- The schemas of a response: that of its root and those of the uids. -/
def InGraph (options : StripOptions) (root : Option ModelSchema) (schema : ModelSchema) : Prop :=
  root = some schema ∨ ∃ uid, options.getModel uid = some schema

/-- The attribution of a user lies in the node itself. -/
def PlainAttribution (options : StripOptions) (root : Option ModelSchema) : Prop :=
  ∀ schema, InGraph options root schema → schema.uid = some USER_UID →
    ∀ key ∈ BLOCKED_USER_FIELDS, leadIn options schema.entries key = .nothing

/-- A lead to a schema of the response. -/
def Lead.InGraph (options : StripOptions) (root : Option ModelSchema) (lead : Lead) : Prop :=
  ∀ schema, lead = .model schema → UserContact.InGraph options root schema

section Reached
variable {root : Option ModelSchema} {lead : Lead} {fields : List (String × DataTree α)}
  {schema : ModelSchema} {t : DataTree α}

theorem not_reachedAs_nothing : ¬ ReachedAs options .nothing t schema fields := by
  intro reached
  generalize hlead : Lead.nothing = lead at reached
  induction reached with
  | here model =>
      rw [← hlead] at model
      cases model
  | item _ _ ih =>
      apply ih
      rw [← hlead]
      rfl
  | field model _ _ _ =>
      rw [← hlead] at model
      cases model

theorem strip_eq_scalar {s : Scalar} (h : strip options lead t = .scalar s) : t = .scalar s := by
  cases t with
  | scalar s' => exact h
  | array a items =>
      rw [strip_array] at h
      cases h
  | record a fields =>
      rw [strip_record] at h
      cases h

theorem componentOf_eq_some (h : componentOf options fields = some schema) :
    ∃ uid, lookup "__component" fields = some (.scalar (.str uid)) ∧
      options.getModel uid = some schema := by
  unfold componentOf at h
  split at h
  · next uid hlookup => exact ⟨uid, hlookup, h⟩
  · cases h

/-- A record is reached after the strip as a model as which it was reached before. -/
theorem modelAt_stripped
    (h : lead.modelAt options (strippedFields options lead fields) = some schema) :
    lead.modelAt options fields = some schema := by
  have hcomponent (h : componentOf options (strippedFields options lead fields) = some schema) :
      componentOf options fields = some schema := by
    obtain ⟨uid, hlookup, hmodel⟩ := componentOf_eq_some h
    rw [lookup_strippedFields] at hlookup
    split at hlookup
    · cases hlookup
    · obtain ⟨t, ht, hscalar⟩ := Option.map_eq_some_iff.mp hlookup
      rw [componentOf, ht, strip_eq_scalar hscalar]
      exact hmodel
  cases lead with
  | model schema' => exact h
  | nothing => exact h
  | zone => exact hcomponent h
  | zoneItem => exact hcomponent h

theorem modelAt_inGraph (hlead : lead.InGraph options root)
    (h : lead.modelAt options fields = some schema) : InGraph options root schema := by
  have hcomponent (h : componentOf options fields = some schema) :
      InGraph options root schema := by
    obtain ⟨uid, _, hmodel⟩ := componentOf_eq_some h
    exact Or.inr ⟨uid, hmodel⟩
  cases lead with
  | model schema' =>
      cases h
      exact hlead schema rfl
  | nothing => cases h
  | zone => exact hcomponent h
  | zoneItem => exact hcomponent h

theorem ofItem_inGraph (hlead : lead.InGraph options root) : lead.ofItem.InGraph options root := by
  cases lead with
  | model schema => exact hlead
  | zone | zoneItem | nothing => exact fun schema h => nomatch h

theorem lead_inGraph (attr : AttributeSchema) : (attr.lead options).InGraph options root := by
  have helim (uid : String) (schema : ModelSchema)
      (h : (options.getModel uid).elim Lead.nothing Lead.model = .model schema) :
      InGraph options root schema := by
    cases hmodel : options.getModel uid with
    | none =>
        rw [hmodel] at h
        cases h
    | some target =>
        rw [hmodel] at h
        cases h
        exact Or.inr ⟨uid, hmodel⟩
  intro schema h
  unfold AttributeSchema.lead at h
  split at h
  · exact helim _ _ h
  · split at h
    · exact helim _ _ h
    · split at h
      · cases h
      · cases h

theorem leadIn_inGraph (entries : List (String × AttributeSchema)) (key : String) :
    (leadIn options entries key).InGraph options root := by
  unfold leadIn
  split
  · exact lead_inGraph _
  · exact fun schema h => nomatch h

/-- `blocked` itself is kept. -/
theorem withheld_blocked (schema : ModelSchema) (blocked : Bool) :
    withheld options schema blocked "blocked" = false := by
  unfold withheld
  cases blocked with
  | true =>
      rw [if_pos rfl, Bool.and_eq_false_iff]
      exact Or.inr (by decide)
  | false =>
      have hkept : SENSITIVE_USER_FIELDS.contains "blocked" = false := by decide
      rw [if_neg Bool.false_ne_true, hkept, Bool.and_false, Bool.and_false]

theorem isBlocked_stripped :
    isBlocked isTrueTree (strippedFields options lead fields) = isBlocked isTrueTree fields := by
  have hshown : hidden options lead fields "blocked" = false := by
    unfold hidden
    split
    · rfl
    · exact withheld_blocked _ _
  unfold isBlocked
  rw [lookup_strippedFields, hshown, if_neg Bool.false_ne_true]
  cases lookup "blocked" fields with
  | none => rfl
  | some t =>
      cases t with
      | scalar s => rfl
      | array a items => rfl
      | record a inner =>
          rw [Option.map_some, strip_record]
          rfl

theorem mem_strippedFields {field' : String × DataTree α}
    (h : field' ∈ strippedFields options lead fields) : ∃ field ∈ fields,
      hidden options lead fields field.1 = false ∧ field'.1 = field.1 ∧
        field'.2 = strip options (nextLead options lead fields field.1) field.2 := by
  rw [strippedFields_eq] at h
  obtain ⟨field, hfield, heq⟩ := List.mem_map.mp h
  obtain ⟨hmem, hshown⟩ := List.mem_filter.mp hfield
  refine ⟨field, hmem, ?_, ?_, ?_⟩
  · exact Bool.eq_false_of_not_eq_true' hshown
  · rw [← heq]
  · rw [← heq]

/-- A user's node keeps what it may show. -/
theorem withheld_user (model : lead.modelAt options fields = some schema)
    (user : schema.uid = some USER_UID) :
    Withheld options (strippedFields options lead fields) := by
  have hshown (key : String)
      (h : key ∈ (strippedFields options lead fields).map Prod.fst) :
      (if isBlocked isTrueTree fields then !BLOCKED_USER_FIELDS.contains key
        else options.contact != some false && SENSITIVE_USER_FIELDS.contains key) = false := by
    obtain ⟨field', hfield', heq⟩ := List.mem_map.mp h
    obtain ⟨field, _, hhidden, hkey, _⟩ := mem_strippedFields hfield'
    rw [hidden, model] at hhidden
    rw [← heq, hkey]
    simpa [withheld, user] using hhidden
  have hdisjoint : ∀ key ∈ BLOCKED_USER_FIELDS, key ∉ SENSITIVE_USER_FIELDS := by decide
  constructor
  · intro hblocked key hkey
    have hkept := hshown key hkey
    rw [isBlocked_stripped] at hblocked
    rw [if_pos hblocked] at hkept
    simpa using hkept
  · intro hcontact key hkey
    have hkept := hshown key hkey
    split at hkept
    · exact hdisjoint key (by simpa using hkept)
    · simpa [hcontact] using hkept

/-- No node of a stripped tree that is reached as a user shows what is withheld. -/
theorem withheld_of_reached (plain : PlainAttribution options root) (t : DataTree α) :
    ∀ {lead : Lead} {fields : List (String × DataTree α)}, lead.InGraph options root →
      ReachedAs options lead (strip options lead t) schema fields →
      schema.uid = some USER_UID → Withheld options fields := by
  induction t using DataTree.induct with
  | scalar s =>
      intro lead fields _ reached _
      rw [strip_scalar] at reached
      cases reached
  | array a items ih =>
      intro lead fields hlead reached user
      rw [strip_array] at reached
      cases reached with
      | item mem reached =>
          obtain ⟨t, ht, heq⟩ := List.mem_map.mp mem
          rw [← heq] at reached
          exact ih t ht (ofItem_inGraph hlead) reached user
  | record a fields ih =>
      intro lead inner hlead reached user
      rw [strip_record] at reached
      cases reached with
      | here model => exact withheld_user (modelAt_stripped model) user
      | @field _ _ _ _ owner _ key t' model mem reached =>
          have howner := modelAt_stripped model
          obtain ⟨field, hfield, hhidden, hkey, htree⟩ := mem_strippedFields mem
          dsimp only at hkey htree
          rw [htree, hkey] at reached
          rw [nextLead, howner] at reached
          dsimp only at reached
          unfold ModelSchema.next at reached
          by_cases hcut : owner.uid = some USER_UID ∧ isBlocked isTrueTree fields
          · -- An attribution field of a blocked user leads nowhere.
            have hattribution : field.1 ∈ BLOCKED_USER_FIELDS := by
              apply (withheld_user howner hcut.1).blocked
              · rw [isBlocked_stripped]
                exact hcut.2
              · rw [← hkey]
                exact List.mem_map_of_mem mem
            have hgraph := modelAt_inGraph hlead howner
            rw [plain owner hgraph hcut.1 field.1 hattribution] at reached
            exact absurd reached not_reachedAs_nothing
          · rw [if_neg hcut] at reached
            exact ih field hfield (leadIn_inGraph _ _) reached user

end Reached

/-! ## A second strip -/

theorem keyed_strip {t : DataTree α} (keyed : t.Keyed) : ∀ lead, (strip options lead t).Keyed := by
  induction t using DataTree.induct with
  | scalar s => exact fun _ => keyed
  | array a items ih =>
      intro lead
      rw [strip_array]
      cases keyed with
      | array hkeyed =>
          refine .array fun t ht => ?_
          obtain ⟨t', ht', heq⟩ := List.mem_map.mp ht
          rw [← heq]
          exact ih t' ht' (hkeyed t' ht') _
  | record a fields ih =>
      intro lead
      rw [strip_record]
      cases keyed with
      | record hnodup hkeyed =>
          refine .record ?_ fun field' hfield' => ?_
          · rw [strippedFields_eq, List.map_map]
            exact hnodup.sublist (List.filter_sublist.map Prod.fst)
          · obtain ⟨field, hfield, _, _, htree⟩ := mem_strippedFields hfield'
            rw [htree]
            exact ih field hfield (hkeyed field hfield) _

theorem strip_strip (t : DataTree α) :
    ∀ lead, strip options lead (strip options lead t) = strip options lead t := by
  induction t using DataTree.induct with
  | scalar s => exact fun _ => rfl
  | array a items ih =>
      intro lead
      rw [strip_array, strip_array, List.map_map]
      congr 1
      exact List.map_congr_left fun t ht => ih t ht _
  | record a fields ih =>
      intro lead
      rw [strip_record, strip_record]
      congr 1
      have hkept : ∀ field' ∈ strippedFields options lead fields,
          hidden options lead (strippedFields options lead fields) field'.1 = false ∧
            strip options (nextLead options lead (strippedFields options lead fields) field'.1)
              field'.2 = field'.2 := by
        intro field' hfield'
        obtain ⟨field, hfield, hhidden, hkey, htree⟩ := mem_strippedFields hfield'
        cases hmodel : lead.modelAt options (strippedFields options lead fields) with
        | none =>
            rw [hidden, nextLead, hmodel]
            exact ⟨rfl, strip_nothing _⟩
        | some schema =>
            have hsame := modelAt_stripped hmodel
            rw [hidden, nextLead, hmodel]
            rw [hidden, hsame] at hhidden
            rw [nextLead, hsame] at htree
            dsimp only at hhidden htree ⊢
            rw [isBlocked_stripped, hkey, htree]
            exact ⟨hhidden, ih field hfield _⟩
      rw [strippedFields_eq lead (strippedFields options lead fields), List.filter_eq_self.mpr]
      · have hsame : ∀ field' ∈ strippedFields options lead fields,
            (field'.1, strip options
              (nextLead options lead (strippedFields options lead fields) field'.1) field'.2) =
                field' := fun field' h => Prod.ext rfl (hkept field' h).2
        exact (List.map_congr_left hsame).trans (List.map_id' _)
      · intro field' h
        rw [(hkept field' h).1]
        rfl

/-! ## The response -/

/-- The lead of a response whose model is known or not. -/
def rootLead (schema : Option ModelSchema) : Lead := schema.elim .nothing .model

/-- Without a model a tree is visited and left as it is. -/
theorem visit_none (t : DataTree (Fin n)) : ∀ st : StripState n, t.Laid st.heap → ∃ depth after,
    visit options depth t.value none st = some after ∧ after.heap = st.heap := by
  induction t using DataTree.induct with
  | scalar s => exact fun st _ => ⟨0, st, rfl, rfl⟩
  | record a fields _ =>
      intro st laid
      have holds := (DataTree.laid_record.mp laid).1
      by_cases hseen : a ∈ st.seen
      · refine ⟨1, st, ?_, rfl⟩
        simp only [DataTree.value, visit, holds]
        exact if_pos hseen
      · refine ⟨1, ⟨st.heap, a :: st.seen⟩, ?_, rfl⟩
        simp only [DataTree.value, visit, holds]
        exact if_neg hseen
  | array a items ih =>
      intro st laid
      obtain ⟨holds, _, forest⟩ := DataTree.laid_array.mp laid
      have hfold : ∃ depth after, items.foldlM
          (fun s (t : DataTree (Fin n)) => visit options depth t.value none s) st = some after ∧
            after.heap = st.heap := by
        refine fold_ends (fun depth s (t : DataTree (Fin n)) => visit options depth t.value none s)
          (fun _ _ hle s t => visit_mono hle t.value none s) ?_ st rfl
        intro t ht s hs
        have hlaid : t.Laid s.heap := by
          rw [hs]
          exact forest.laid t ht
        obtain ⟨depth, after, hvisit, hheap⟩ := ih t ht s hlaid
        exact ⟨depth, after, hvisit, hheap.trans hs⟩
      obtain ⟨depth, after, hvisit, hheap⟩ := hfold
      refine ⟨depth + 1, after, ?_, hheap⟩
      simp only [DataTree.value, visit, holds, List.foldlM_map]
      exact hvisit

/-- A response that is a tree, and what becomes of it. -/
structure Stripped (options : StripOptions) (schema : Option ModelSchema) (heap : Heap n)
    (t : DataTree (Fin n)) (after : Heap n) : Prop where
  strips : StripsTo options heap t.value schema after
  laid : (strip options (rootLead schema) t).Laid after
  frame : ∀ a, a ∉ t.footprint → after a = heap a

variable {t : DataTree (Fin n)} {heap : Heap n}

theorem exists_stripped (schema : Option ModelSchema) (laid : t.Laid heap) (keyed : t.Keyed) :
    ∃ after, Stripped options schema heap t after := by
  cases schema with
  | none =>
      obtain ⟨depth, ⟨after, seen⟩, hvisit, hheap⟩ : ∃ depth after,
          visit options depth t.value none ⟨heap, []⟩ = some after ∧ after.heap = heap :=
        visit_none t ⟨heap, []⟩ laid
      refine ⟨heap, ⟨depth, seen, ?_⟩, ?_, fun _ _ => rfl⟩
      · rw [hvisit, ← hheap]
      · rw [rootLead, Option.elim_none, strip_nothing]
        exact laid
  | some schema =>
      have hstrips : Strips options (.model schema) t := strips_tree keyed _
      obtain ⟨depth, after, hvisit, did⟩ := hstrips ⟨heap, []⟩ laid fun _ _ => List.not_mem_nil
      exact ⟨after.heap, ⟨depth, after.seen, hvisit⟩, did.laid _ (List.mem_singleton_self _),
        fun a ha => did.frame_one ha⟩

/-- A second strip finds nothing to change. -/
theorem Stripped.again {schema : Option ModelSchema} {after : Heap n} (keyed : t.Keyed)
    (stripped : Stripped options schema heap t after) :
    StripsTo options after t.value schema after := by
  obtain ⟨last, again⟩ : ∃ last, Stripped options schema after
      (strip options (rootLead schema) t) last :=
    exists_stripped schema stripped.laid (keyed_strip keyed _)
  have hsame : last = after := by
    funext a
    by_cases hin : a ∈ (strip options (rootLead schema) t).footprint
    · obtain ⟨node, hnode, heq⟩ := List.mem_map.mp hin
      have hlaid := again.laid
      rw [strip_strip] at hlaid
      rw [← heq, hlaid.holds node hnode, stripped.laid.holds node hnode]
    · exact again.frame a hin
  have hstrips := again.strips
  rw [value_strip, hsame] at hstrips
  exact hstrips

/-- What holds of the strip of a response. -/
structure Sanitized (options : StripOptions) (schema : Option ModelSchema) (heap : Heap n)
    (t : DataTree (Fin n)) (after : Heap n) : Prop where
  /-- The response is stripped, and a second strip changes nothing. -/
  stripped : Stripped options schema heap t after
  again : StripsTo options after t.value schema after
  /-- Everything that is not withheld is shown as before. -/
  shows : ∀ path, (strip options (rootLead schema) t).shapeAt path =
    visibleAt options (rootLead schema) t path

/-- No node that is reached as a user shows what is withheld. -/
def Withholds (options : StripOptions) (schema : Option ModelSchema) (t : DataTree α) : Prop :=
  ∀ user fields, ReachedAs options (rootLead schema) (strip options (rootLead schema) t) user
    fields → user.uid = some USER_UID → Withheld options fields

theorem rootLead_inGraph (schema : Option ModelSchema) :
    (rootLead schema).InGraph options schema := by
  intro target h
  cases schema with
  | none => cases h
  | some schema =>
      cases h
      exact Or.inl rfl

/-- A response that is a tree is sanitized, whatever the schemas, and shows nothing withheld if
the attribution of a user lies in the node itself; two that differ only in what is withheld
become the same; and data with shared objects and cycles is stripped unless an array holds
itself. -/
theorem stripSensitiveUserFields_sanitizes (options : StripOptions) (schema : Option ModelSchema) :
    (∀ (n : Nat) (heap : Heap n) (t : DataTree (Fin n)), t.Laid heap → t.Keyed →
      (∃ after, Sanitized options schema heap t after) ∧
        (PlainAttribution options schema → Withholds options schema t)) ∧
    (∀ (n m : Nat) (t : DataTree (Fin n)) (t' : DataTree (Fin m)), t.Keyed → t'.Keyed →
      (∀ path, visibleAt options (rootLead schema) t path =
        visibleAt options (rootLead schema) t' path) →
      (strip options (rootLead schema) t).json = (strip options (rootLead schema) t').json) ∧
    ∀ (n : Nat) (heap : Heap n) (data : Value n), NoArrayCycle heap →
      ∃ after, StripsTo options heap data schema after := by
  refine ⟨?_, ?_, fun n heap data acyclic => exists_stripsTo options acyclic data schema⟩
  · intro n heap t laid keyed
    constructor
    · obtain ⟨after, stripped⟩ := exists_stripped schema laid keyed
      exact ⟨after, {
        stripped := stripped
        again := stripped.again keyed
        shows := fun path => shapeAt_strip path _ t }⟩
    · intro plain user fields reached huser
      exact withheld_of_reached plain t (rootLead_inGraph schema) reached huser
  · intro n m t t' keyed keyed' same
    apply DataTree.json_eq_of_shapeAt _ _ (keyed_strip keyed _) (keyed_strip keyed' _)
    intro path
    rw [shapeAt_strip, shapeAt_strip]
    exact same path

/-- A user model with an attribution field that leads to another user. -/
def nestingUser : ModelSchema where
  uid := some USER_UID
  attributes := some ⟨[("displayName", ⟨some "relation", some USER_UID, none⟩)], by decide⟩

def nestingOptions : StripOptions where
  getModel := fun uid => if uid = USER_UID then some nestingUser else none
  contact := none

/-- A blocked user under whose name another user lies. -/
def nestedUser : DataTree (Fin 2) :=
  .record 0 [("blocked", .scalar (.bool true)),
    ("displayName", .record 1 [("email", .scalar (.str "a@b.c"))])]

def nestedHeap : Heap 2 := fun a =>
  if a = 0 then .record [("blocked", .scalar (.bool true)), ("displayName", .ref 1)]
  else .record [("email", .scalar (.str "a@b.c"))]

theorem nestedUser_laid : nestedUser.Laid nestedHeap where
  holds := by decide
  nodup := by decide

theorem nestedUser_keyed : nestedUser.Keyed := by
  refine .record (by decide) fun field hfield => ?_
  simp only [List.mem_cons, List.not_mem_nil, or_false] at hfield
  rcases hfield with heq | heq
  · rw [heq]
    exact .scalar _
  · rw [heq]
    refine .record (by decide) fun inner hinner => ?_
    rw [List.mem_singleton.mp hinner]
    exact .scalar _

/-- The user under the name keeps the address. -/
theorem nestedUser_reached : ReachedAs nestingOptions (rootLead (some nestingUser))
    (strip nestingOptions (rootLead (some nestingUser)) nestedUser) nestingUser
      [("email", .scalar (.str "a@b.c"))] := by
  have hstrip : strip nestingOptions (rootLead (some nestingUser)) nestedUser = nestedUser := rfl
  have hlead : leadIn nestingOptions nestingUser.entries "displayName" = .model nestingUser := rfl
  rw [hstrip]
  have hmem : ("displayName", DataTree.record 1 [("email", .scalar (.str "a@b.c"))]) ∈
      [("blocked", DataTree.scalar (.bool true)),
        ("displayName", DataTree.record (1 : Fin 2) [("email", .scalar (.str "a@b.c"))])] :=
    List.mem_cons_of_mem _ (List.mem_singleton_self _)
  refine ReachedAs.field rfl hmem ?_
  rw [hlead]
  exact .here rfl

/-- An array that holds itself. -/
def loopHeap : Heap 1 := fun _ => .array [.ref 0]

theorem visit_loopHeap (options : StripOptions) (schema : Option ModelSchema) (depth : Nat) :
    visit options depth (.ref 0) schema ⟨loopHeap, []⟩ = none := by
  induction depth with
  | zero => rfl
  | succ depth ih =>
      have hvisit : visit options (depth + 1) (.ref 0) schema ⟨loopHeap, []⟩ =
          (visit options depth (.ref 0) schema ⟨loopHeap, []⟩).bind some := rfl
      rw [hvisit, ih]
      rfl

/-- The attribution of a blocked user is not visited, and an array is not marked. -/
theorem stripSensitiveUserFields_stops :
    (¬ ∀ (options : StripOptions) (schema : Option ModelSchema) (n : Nat) (heap : Heap n)
        (t : DataTree (Fin n)), t.Laid heap → t.Keyed → Withholds options schema t) ∧
      ¬ ∀ (options : StripOptions) (schema : Option ModelSchema) (n : Nat) (heap : Heap n)
        (data : Value n), ∃ after, StripsTo options heap data schema after := by
  constructor
  · intro h
    have hwithheld := h nestingOptions (some nestingUser) 2 nestedHeap nestedUser
      nestedUser_laid nestedUser_keyed nestingUser _ nestedUser_reached rfl
    have hcontact := hwithheld.contact (by decide) "email" (by decide)
    exact hcontact (by decide)
  · intro h
    obtain ⟨after, depth, seen, hvisit⟩ := h nestingOptions none 1 loopHeap (.ref 0)
    rw [visit_loopHeap] at hvisit
    cases hvisit

/-- A user model whose manager is another user. -/
def managedUser : ModelSchema where
  uid := some USER_UID
  attributes := some ⟨[("displayName", ⟨some "string", none, none⟩),
    ("manager", ⟨some "relation", some USER_UID, none⟩)], by decide⟩

def managedOptions : StripOptions where
  getModel := fun uid => if uid = USER_UID then some managedUser else none
  contact := none

theorem managedUser_plain : PlainAttribution managedOptions (some managedUser) := by
  have hattribution : ∀ key ∈ BLOCKED_USER_FIELDS,
      leadIn managedOptions managedUser.entries key = .nothing := by
    intro key hkey
    simp only [BLOCKED_USER_FIELDS, List.mem_cons, List.not_mem_nil, or_false] at hkey
    rcases hkey with heq | heq | heq | heq | heq <;> rw [heq] <;> rfl
  intro schema hgraph _
  rcases hgraph with heq | hmodel
  · rw [← Option.some.inj heq]
    exact hattribution
  · obtain ⟨uid, hmodel⟩ := hmodel
    unfold managedOptions at hmodel
    dsimp only at hmodel
    split at hmodel
    · rw [← Option.some.inj hmodel]
      exact hattribution
    · cases hmodel

/-- A user and the manager, each with an address. -/
def managedTree : DataTree (Fin 2) :=
  .record 0 [("email", .scalar (.str "a@b.c")),
    ("manager", .record 1 [("email", .scalar (.str "d@e.f"))])]

def managedHeap : Heap 2 := fun a =>
  if a = 0 then .record [("email", .scalar (.str "a@b.c")), ("manager", .ref 1)]
  else .record [("email", .scalar (.str "d@e.f"))]

theorem stripSensitiveUserFields_sanitizes_sample :
    (∃ after, Sanitized managedOptions (some managedUser) managedHeap managedTree after) ∧
      Withholds managedOptions (some managedUser) managedTree := by
  have hlaid : managedTree.Laid managedHeap := ⟨by decide, by decide⟩
  have hkeyed : managedTree.Keyed := by
    refine .record (by decide) fun field hfield => ?_
    simp only [List.mem_cons, List.not_mem_nil, or_false] at hfield
    rcases hfield with heq | heq
    · rw [heq]
      exact .scalar _
    · rw [heq]
      refine .record (by decide) fun inner hinner => ?_
      rw [List.mem_singleton.mp hinner]
      exact .scalar _
  have hsanitized := (stripSensitiveUserFields_sanitizes managedOptions (some managedUser)).1 2
    managedHeap managedTree hlaid hkeyed
  exact ⟨hsanitized.1, hsanitized.2 managedUser_plain⟩

end Sinnlos.Cms.UserContact

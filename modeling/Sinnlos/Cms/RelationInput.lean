import Sinnlos.Lib.Digits
import Sinnlos.Lib.Json
import Sinnlos.Lib.Lookup

/-!
# Relations in a write payload

The shapes in which a payload may name the targets of a relation, reduced to
what they would do, and back to a payload that names documents only.
-/

namespace Sinnlos.Cms.Write

open Text

/-! ## Ids -/

/-- The largest value of an `id` column. -/
def MAX_ROW_ID : Nat := 2147483647

def isRowId (n : Nat) : Bool := decide (1 ≤ n ∧ n ≤ MAX_ROW_ID)

/-- A canonical decimal of at most ten digits, or a whole number. -/
def parseRowId : Json → Option Nat
  | .num value =>
      if value.den = 1 ∧ 0 ≤ value.num ∧ isRowId value.num.toNat then some value.num.toNat else none
  | .str text =>
      match text.toList with
      | [] => none
      | first :: rest =>
          if first = '0' ∨ 9 < rest.length then none
          else (readNat (first :: rest)).filter fun n : Nat => n ≤ MAX_ROW_ID
  | _ => none

/-- A documentId that `parseInt` cannot read as a number. -/
def isDocumentIdText (text : String) : Bool :=
  match text.toList with
  | [] => false
  | first :: rest =>
      decide (rest.length ≤ 63) && (first.isAlpha || first = '_') &&
        rest.all fun c => c.isAlphanum || c = '_' || c = '-'

inductive RelationRef where
  | id (id : Nat)
  | documentId (documentId : String)
deriving DecidableEq

/-- A to-one relation reduced to what it would do; the target is `none` for unchanged and
`some none` for cleared. -/
structure ToOneRelationInput where
  target : Option (Option RelationRef)
  disconnect : List RelationRef
deriving DecidableEq

/-- The same, after a check resolved every row to its document. -/
structure ResolvedToOne where
  target : Option (Option String)
  disconnect : List String
deriving DecidableEq

def parseDocumentId : Json → Option RelationRef
  | .str text => if isDocumentIdText text then some (.documentId text) else none
  | _ => none

/-- A row id or documentId, bare or as the only key of an object. -/
def parseRef : Json → Option RelationRef
  | .obj [(key, value)] =>
      if key = "id" then (parseRowId value).map .id
      else if key = "documentId" then parseDocumentId value
      else none
  | .obj _ => none
  | value =>
      match parseRowId value with
      | some id => some (.id id)
      | none => parseDocumentId value

/-- A single ref or a flat array of refs. -/
def parseRefList : Json → Option (List RelationRef)
  | .arr items => items.mapM parseRef
  | value => (parseRef value).map fun ref => [ref]

/-- At most one row; none clears. -/
def fromSet (value : Json) : Option ToOneRelationInput :=
  match parseRefList value with
  | some [] => some ⟨some none, []⟩
  | some [ref] => some ⟨some (some ref), []⟩
  | _ => none

/-- The refs under a key of a delta; a missing key names none. -/
def refsUnder (fields : List (String × Json)) (key : String) : Option (List RelationRef) :=
  match Json.field? key fields with
  | none => some []
  | some value => parseRefList value

/-- Every input shape of a to-one relation; `none` for what is malformed or ambiguous. -/
def parseToOneRelation : Json → Option ToOneRelationInput
  | .null => some ⟨some none, []⟩
  | .arr items => fromSet (.arr items)
  | .obj fields =>
      let keys := fields.map Prod.fst
      if "id" ∈ keys ∨ "documentId" ∈ keys then
        (parseRef (.obj fields)).map fun ref => ⟨some (some ref), []⟩
      else if "set" ∈ keys then
        match fields with
        | [(_, value)] => fromSet value
        | _ => none
      else if keys = [] ∨ ∃ key ∈ keys, key ≠ "connect" ∧ key ≠ "disconnect" then none
      else
        match refsUnder fields "connect", refsUnder fields "disconnect" with
        | some [], some disconnect => some ⟨none, disconnect⟩
        | some [ref], some disconnect => some ⟨some (some ref), disconnect⟩
        | _, _ => none
  | value => (parseRef value).map fun ref => ⟨some (some ref), []⟩

/-- A to-many payload as a full replacement of at most `max` targets. -/
def parseRelationList (value : Json) (max : Nat) : Option (List RelationRef) :=
  let ofList (list : Json) : Option (List RelationRef) :=
    match list with
    | .arr items => if max < items.length then none else parseRefList (.arr items)
    | _ => none
  match value with
  | .null => some []
  | .arr items => ofList (.arr items)
  | .obj [(key, list)] => if key = "set" then ofList list else none
  | _ => none

structure RelationDelta where
  connect : List RelationRef
  disconnect : List RelationRef
deriving DecidableEq

/-- The list under a key of a delta: an array, or none at all. -/
def listUnder (fields : List (String × Json)) (key : String) : Option (List RelationRef) :=
  match Json.field? key fields with
  | none => some []
  | some (.arr items) => parseRefList (.arr items)
  | some _ => none

/-- A to-many payload as changes of at most `max` targets. -/
def parseRelationDelta (value : Json) (max : Nat) : Option RelationDelta :=
  match value with
  | .obj fields =>
      let keys := fields.map Prod.fst
      if keys = [] ∨ ∃ key ∈ keys, key ≠ "connect" ∧ key ≠ "disconnect" then none
      else
        match listUnder fields "connect", listUnder fields "disconnect" with
        | some connect, some disconnect =>
            if max < connect.length + disconnect.length then none else some ⟨connect, disconnect⟩
        | _, _ => none
  | _ => none

/-- Role types as distinct members of a list. -/
def parseRoleTypes (value : Json) (allowed : List String) (max : Nat) : Option (List String) :=
  match value with
  | .null => some []
  | .arr items =>
      if max < items.length then none
      else
        (items.mapM fun item : Json =>
          item.str?.filter fun text => text ∈ allowed).map List.eraseDups
  | _ => none

variable {value : Json} {n : Nat} {ref : RelationRef}

theorem parseRoleTypes_allowed {allowed types : List String} {max : Nat}
    (h : parseRoleTypes value allowed max = some types) : ∀ type ∈ types, type ∈ allowed := by
  unfold parseRoleTypes at h
  split at h
  · cases h
    exact fun _ hmem => absurd hmem List.not_mem_nil
  · split at h
    · cases h
    · obtain ⟨read, hread, rfl⟩ := Option.map_eq_some_iff.mp h
      intro type htype
      rw [List.mem_eraseDups] at htype
      obtain ⟨item, _, hitem⟩ := Lookup.mem_of_mapM hread htype
      exact of_decide_eq_true (Option.filter_eq_some_iff.mp hitem).2
  · cases h

/-- A file row id, bare or under `id`, or `some none` to clear. -/
def parseMedia : Json → Option (Option Nat)
  | .null => some none
  | .obj [(key, value)] => if key = "id" then (parseRowId value).map some else none
  | value => (parseRowId value).map some

/-- The documents of a relation payload. -/
def documentsJson (documentIds : List String) : Json :=
  .arr (documentIds.map fun documentId => .obj [("documentId", .str documentId)])

/-- Back to a payload that names documents only; `none` leaves the field out. -/
def toStrapiRelation (resolved : ResolvedToOne) : Option Json :=
  match resolved.target with
  | some none => some .null
  | some (some documentId) => some (.obj [("set", documentsJson [documentId])])
  | none =>
      if resolved.disconnect ≠ [] then
        some (.obj [("disconnect", documentsJson resolved.disconnect)])
      else none

/-! ## The spellings of a target -/

/-- The ways to write one ref. -/
inductive RefSpelling : RelationRef → Json → Prop
  | number {n : Nat} (bound : isRowId n = true) : RefSpelling (.id n) (.num n)
  | numeral {n : Nat} (bound : isRowId n = true) : RefSpelling (.id n) (.str (toString n))
  | document {text : String} (shape : isDocumentIdText text = true) :
      RefSpelling (.documentId text) (.str text)
  | idObject {n : Nat} {value : Json} (inner : RefSpelling (.id n) value)
      (bare : value.fields? = none) : RefSpelling (.id n) (.obj [("id", value)])
  | documentObject {text : String} (shape : isDocumentIdText text = true) :
      RefSpelling (.documentId text) (.obj [("documentId", .str text)])

/-- The ways to point a to-one relation at one target. -/
inductive ToOneSpelling (ref : RelationRef) : Json → Prop
  | bare {value : Json} (spelling : RefSpelling ref value) : ToOneSpelling ref value
  | list {value : Json} (spelling : RefSpelling ref value) : ToOneSpelling ref (.arr [value])
  | set {value : Json} (spelling : RefSpelling ref value) :
      ToOneSpelling ref (.obj [("set", value)])
  | setList {value : Json} (spelling : RefSpelling ref value) :
      ToOneSpelling ref (.obj [("set", .arr [value])])
  | connect {value : Json} (spelling : RefSpelling ref value) :
      ToOneSpelling ref (.obj [("connect", value)])
  | connectList {value : Json} (spelling : RefSpelling ref value) :
      ToOneSpelling ref (.obj [("connect", .arr [value])])

/-- The ways to clear a to-one relation. -/
inductive ClearSpelling : Json → Prop
  | null : ClearSpelling .null
  | list : ClearSpelling (.arr [])
  | set : ClearSpelling (.obj [("set", .arr [])])

/-- The ways to write a list of targets. -/
inductive ListSpelling : List RelationRef → Json → Prop
  | null : ListSpelling [] .null
  | list {refs : List RelationRef} {items : List Json}
      (spelling : List.Forall₂ RefSpelling refs items) : ListSpelling refs (.arr items)
  | set {refs : List RelationRef} {items : List Json}
      (spelling : List.Forall₂ RefSpelling refs items) :
      ListSpelling refs (.obj [("set", .arr items)])

/-- The ways to write changes of a list. -/
inductive DeltaSpelling : RelationDelta → Json → Prop
  | connect {added : List RelationRef} {items : List Json}
      (spelling : List.Forall₂ RefSpelling added items) :
      DeltaSpelling ⟨added, []⟩ (.obj [("connect", .arr items)])
  | disconnect {removed : List RelationRef} {items : List Json}
      (spelling : List.Forall₂ RefSpelling removed items) :
      DeltaSpelling ⟨[], removed⟩ (.obj [("disconnect", .arr items)])
  | both {added removed : List RelationRef} {items gone : List Json}
      (spelling : List.Forall₂ RefSpelling added items)
      (spellingGone : List.Forall₂ RefSpelling removed gone) :
      DeltaSpelling ⟨added, removed⟩ (.obj [("connect", .arr items), ("disconnect", .arr gone)])
  | swapped {added removed : List RelationRef} {items gone : List Json}
      (spelling : List.Forall₂ RefSpelling added items)
      (spellingGone : List.Forall₂ RefSpelling removed gone) :
      DeltaSpelling ⟨added, removed⟩ (.obj [("disconnect", .arr gone), ("connect", .arr items)])

theorem parseRowId_number (bound : isRowId n = true) : parseRowId (.num (n : Rat)) = some n := by
  have hden : (n : Rat).den = 1 := Rat.den_natCast n
  have hnum : (n : Rat).num = n := Rat.num_natCast n
  dsimp only [parseRowId]
  rw [hden, hnum, Int.toNat_natCast, if_pos ⟨rfl, Int.natCast_nonneg n, bound⟩]

theorem parseRowId_numeral (bound : isRowId n = true) :
    parseRowId (.str (toString n)) = some n := by
  obtain ⟨hpos, hmax⟩ := of_decide_eq_true bound
  have hread := readNat_toString n
  have hchars : (toString n).toList = Nat.toDigits 10 n := by
    rw [Nat.toString_eq_ofList_toDigits, String.toList_ofList]
  have hlength : (toString n).toList.length ≤ 10 := by
    rw [hchars, Nat.length_toDigits_le_iff (by omega) (by omega)]
    unfold MAX_ROW_ID at hmax
    omega
  cases htext : (toString n).toList with
  | nil => exact absurd (hchars.symm.trans htext) Nat.toDigits_ne_nil
  | cons first rest =>
      rw [htext] at hread hlength
      have hfirst : first ≠ '0' := by
        intro hzero
        rw [hzero, hchars] at htext
        exact head_toDigits_ne hpos rest htext
      have hrest : ¬ (first = '0' ∨ 9 < rest.length) := by
        rw [List.length_cons] at hlength
        exact fun h => h.elim hfirst fun hlong => by omega
      dsimp only [parseRowId]
      rw [htext]
      dsimp only
      rw [if_neg hrest, hread, Option.filter_some, if_pos (decide_eq_true hmax)]

theorem not_isDigit_of_isAlpha {c : Char} (h : c.isAlpha = true) : c.isDigit = false := by
  have halpha : c.isAlpha = (decide (c.val ≥ 'A'.val ∧ c.val ≤ 'Z'.val) ||
      (decide (c.val ≥ 'a'.val) && decide (c.val ≤ 'z'.val))) := rfl
  have hdigit : c.isDigit = (decide (c.val ≥ '0'.val) && decide (c.val ≤ '9'.val)) := rfl
  rw [halpha] at h
  rw [hdigit]
  simp only [Bool.or_eq_true, Bool.and_eq_true, decide_eq_true_eq, ge_iff_le,
    Bool.and_eq_false_iff, decide_eq_false_iff_not, UInt32.le_iff_toNat_le] at h ⊢
  have hA : 'A'.val.toNat = 65 := by decide
  have hZ : 'Z'.val.toNat = 90 := by decide
  have ha : 'a'.val.toNat = 97 := by decide
  have hz : 'z'.val.toNat = 122 := by decide
  have h0 : '0'.val.toNat = 48 := by decide
  have h9 : '9'.val.toNat = 57 := by decide
  omega

/-- A documentId is no row id. -/
theorem parseRowId_document {text : String} (shape : isDocumentIdText text = true) :
    parseRowId (.str text) = none := by
  dsimp only [parseRowId]
  unfold isDocumentIdText at shape
  cases htext : text.toList with
  | nil => rfl
  | cons first rest =>
      rw [htext] at shape
      dsimp only at shape ⊢
      have hfirst : first.isDigit = false := by
        rw [Bool.and_eq_true, Bool.and_eq_true] at shape
        have hletter := shape.1.2
        rcases Bool.or_eq_true _ _ |>.mp hletter with halpha | hline
        · exact not_isDigit_of_isAlpha halpha
        · rw [of_decide_eq_true hline]
          decide
      split
      · rfl
      · have hread : readNat (first :: rest) = none := by
          unfold readNat
          rw [if_neg]
          intro hall
          have hdigit := List.all_eq_true.mp hall.2 first List.mem_cons_self
          rw [hfirst] at hdigit
          cases hdigit
        rw [hread]
        rfl

theorem parseRef_of_bare (bare : value.fields? = none) :
    parseRef value = match parseRowId value with
      | some id => some (.id id)
      | none => parseDocumentId value := by
  cases value with
  | obj fields => cases bare
  | _ => rfl

/-- A bare value that is read as a row id is a row id. -/
theorem parseRowId_of_parseRef (bare : value.fields? = none) (h : parseRef value = some (.id n)) :
    parseRowId value = some n := by
  rw [parseRef_of_bare bare] at h
  cases hid : parseRowId value with
  | some id =>
      rw [hid] at h
      cases h
      rfl
  | none =>
      rw [hid] at h
      cases value with
      | str text =>
          dsimp only [parseDocumentId] at h
          split at h <;> cases h
      | _ => cases h

/-- Every spelling of a ref is read as it. -/
theorem parseRef_spelling (h : RefSpelling ref value) : parseRef value = some ref := by
  induction h with
  | number bound =>
      rw [parseRef_of_bare rfl, parseRowId_number bound]
  | numeral bound =>
      rw [parseRef_of_bare rfl, parseRowId_numeral bound]
  | document shape =>
      rw [parseRef_of_bare rfl, parseRowId_document shape]
      exact if_pos shape
  | idObject inner bare ih =>
      dsimp only [parseRef]
      rw [if_pos rfl, parseRowId_of_parseRef bare ih]
      rfl
  | documentObject shape => exact if_pos shape

theorem parseRefList_spelling (h : RefSpelling ref value) :
    parseRefList value = some [ref] ∧ parseRefList (.arr [value]) = some [ref] := by
  have hread := parseRef_spelling h
  constructor
  · cases h <;> exact congrArg (Option.map fun ref => [ref]) hread
  · dsimp only [parseRefList]
    rw [List.mapM_cons, hread]
    rfl

/-- Every spelling of one target is read as that target. -/
theorem parseToOne_spelling (h : ToOneSpelling ref value) :
    parseToOneRelation value = some ⟨some (some ref), []⟩ := by
  cases h with
  | bare spelling =>
      have hread := parseRef_spelling spelling
      cases spelling with
      | number bound | numeral bound | document shape | idObject inner bare
      | documentObject shape =>
          exact congrArg (Option.map fun ref => ToOneRelationInput.mk (some (some ref)) []) hread
  | list spelling =>
      have hread := (parseRefList_spelling spelling).2
      dsimp only [parseToOneRelation, fromSet]
      rw [hread]
  | set spelling =>
      have hread := (parseRefList_spelling spelling).1
      simp [parseToOneRelation, fromSet, hread]
  | setList spelling =>
      have hread := (parseRefList_spelling spelling).2
      simp [parseToOneRelation, fromSet, hread]
  | connect spelling =>
      have hread := (parseRefList_spelling spelling).1
      simp [parseToOneRelation, refsUnder, Json.field?, hread]
  | connectList spelling =>
      have hread := (parseRefList_spelling spelling).2
      simp [parseToOneRelation, refsUnder, Json.field?, hread]

variable {refs : List RelationRef}

theorem mapM_spelling {items : List Json} (h : List.Forall₂ RefSpelling refs items) :
    items.mapM parseRef = some refs := by
  induction h with
  | nil => rfl
  | cons hhead _ ih =>
      rw [List.mapM_cons, parseRef_spelling hhead, ih]
      rfl

/-- Every spelling of a list of targets is read as that list, unless it is too long. -/
theorem parseList_spelling (h : ListSpelling refs value) (max : Nat) :
    parseRelationList value max = if max < refs.length then none else some refs := by
  cases h with
  | null => rfl
  | list spelling =>
      dsimp only [parseRelationList]
      rw [← spelling.length_eq]
      exact congrArg (fun read => if max < refs.length then none else read) (mapM_spelling spelling)
  | set spelling =>
      dsimp only [parseRelationList]
      rw [if_pos rfl, ← spelling.length_eq]
      exact congrArg (fun read => if max < refs.length then none else read) (mapM_spelling spelling)

/-- Every way to clear a relation is read as clearing it. -/
theorem parseToOne_clear (h : ClearSpelling value) :
    parseToOneRelation value = some ⟨some none, []⟩ := by
  cases h <;> rfl

/-- Every spelling of changes is read as these changes, unless there are too many. -/
theorem parseDelta_spelling {changes : RelationDelta} (h : DeltaSpelling changes value)
    (max : Nat) :
    parseRelationDelta value max =
      if max < changes.connect.length + changes.disconnect.length then none else some changes := by
  cases h with
  | connect spelling | disconnect spelling =>
      have hread := mapM_spelling spelling
      simp [parseRelationDelta, listUnder, Json.field?, parseRefList, hread]
  | both spelling spellingGone | swapped spelling spellingGone =>
      have hread := mapM_spelling spelling
      have hgone := mapM_spelling spellingGone
      simp [parseRelationDelta, listUnder, Json.field?, parseRefList, hread, hgone]

/-- Every spelling of a file id is read as that file. -/
theorem parseMedia_spelling {fileId : Nat} (h : RefSpelling (.id fileId) value) :
    parseMedia value = some (some fileId) := by
  cases h with
  | number bound =>
      dsimp only [parseMedia]
      rw [parseRowId_number bound]
      rfl
  | numeral bound =>
      dsimp only [parseMedia]
      rw [parseRowId_numeral bound]
      rfl
  | idObject inner bare =>
      have hid := parseRowId_of_parseRef bare (parseRef_spelling inner)
      dsimp only [parseMedia]
      rw [if_pos rfl, hid]
      rfl

end Sinnlos.Cms.Write

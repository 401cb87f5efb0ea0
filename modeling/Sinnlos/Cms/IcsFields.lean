import Mathlib.Data.List.Forall2
import Sinnlos.Cms.DownloadHeaders
import Sinnlos.Cms.IcsText
import Sinnlos.Domain.Instants

/-!
# What a calendar file says

A reader of content lines gets back from the file of an event exactly its fields,
each on a line of its own: no field adds, ends or alters a line. The document id
is written as it is and has no line break of its own.
-/

namespace Sinnlos.Cms.Ics

open Calendar Domain FoldedLines Text

/-- The name of a property, with its parameters, and its value. -/
abbrev Field := List Char × List Char

/-! ## Reading a file -/

/-- The content lines of a file, each of which is ended. -/
def contentLines (body : List Char) : Option (List (List Char)) :=
  let pieces := splitPair '\r' '\n' (unfold body)
  if pieces.getLast? = some [] then some pieces.dropLast else none

def TEXT_PROPERTIES : List (List Char) :=
  ["SUMMARY".toList, "LOCATION".toList, "DESCRIPTION".toList]

/-- A content line up to its first colon, and what is behind it. -/
def readField (content : List Char) : Field :=
  let name := content.takeWhile (· ≠ ':')
  let value := (content.dropWhile (· ≠ ':')).tail
  (name, if name ∈ TEXT_PROPERTIES then unescapeIcsText value else value)

def readCalendar (body : List Char) : Option (List Field) :=
  (contentLines body).map (List.map readField)

/-! ## What is meant -/

section

variable (annotated : String → Option Int) (markdownToPlainText : List UInt16 → List UInt16)

def dateFields (event : IcsEvent) (now : InstantInput) (zone : Zone) :
    Except String (List Field) := do
  let stamp ← icsUtc annotated now
  if event.allDay = some true then
    let days ← allDayDates annotated event zone
    return [("DTSTAMP".toList, stamp), ("DTSTART;VALUE=DATE".toList, icsDate days.1),
      ("DTEND;VALUE=DATE".toList, icsDate days.2)]
  else
    let times ← timedInstants annotated event
    return [("DTSTAMP".toList, stamp), ("DTSTART".toList, times.1), ("DTEND".toList, times.2)]

def modifiedFields (updatedAt : Option InstantInput) : Except String (List Field) :=
  match updatedAt with
  | none => .ok []
  | some instant =>
      if (instantMsOrNull annotated updatedAt).isSome then
        (icsUtc annotated instant).map fun text => [("LAST-MODIFIED".toList, text)]
      else .ok []

/-- The fields of an event's file, none of them escaped. -/
def intendedFields (event : IcsEvent) (now : InstantInput) (zone : Zone) :
    Except String (List Field) := do
  let dates ← dateFields annotated event now zone
  let modified ← modifiedFields annotated event.updatedAt
  return [("BEGIN".toList, "VCALENDAR".toList), ("VERSION".toList, "2.0".toList),
      ("PRODID".toList, "-//Sinnlos//Events//EN".toList), ("BEGIN".toList, "VEVENT".toList),
      ("UID".toList, "event-".toList ++ Utf16.decode event.documentId ++ "@sinnlos".toList)] ++
    dates ++
    [("SEQUENCE".toList, (toString (icsSequence annotated event.updatedAt)).toList)] ++
    modified ++
    [("SUMMARY".toList, cleanText (event.title.getD []))] ++
    ((nonEmpty event.location).map fun text => ("LOCATION".toList, cleanText text)).toList ++
    ((descriptionText markdownToPlainText event.description).map fun text =>
      ("DESCRIPTION".toList, cleanText text)).toList ++
    ((httpUrl event.url).map fun url => ("URL".toList, url)).toList ++
    [("END".toList, "VEVENT".toList), ("END".toList, "VCALENDAR".toList)]

end

def isVisible (c : Char) : Bool := c ≠ ' ' ∧ c ≠ '\t' ∧ c ≠ '\n'

/-- A content line that is read as a field. -/
structure Writes (content : List UInt16) (field : Field) : Prop where
  reads : readField (Utf16.decode content) = field
  no_break : '\n' ∉ Utf16.decode content
  visible : (Utf16.decode content).head?.any isVisible = true

/-- Names of properties. -/
structure IsName (name : List Char) : Prop where
  no_colon : ':' ∉ name
  no_break : '\n' ∉ name
  visible : name.head?.any isVisible = true

instance (name : List Char) : Decidable (IsName name) :=
  decidable_of_iff (':' ∉ name ∧ '\n' ∉ name ∧ name.head?.any isVisible = true)
    ⟨fun h => ⟨h.1, h.2.1, h.2.2⟩, fun h => ⟨h.no_colon, h.no_break, h.visible⟩⟩

variable {name value : List Char}

/-! ## Lines -/

theorem readField_line (h : ':' ∉ name) (value : List Char) :
    readField (name ++ ':' :: value) =
      (name, if name ∈ TEXT_PROPERTIES then unescapeIcsText value else value) := by
  have hname (c : Char) (hc : c ∈ name) : decide (c ≠ ':') = true := by
    apply decide_eq_true
    rintro rfl
    exact h hc
  have htake : (name ++ ':' :: value).takeWhile (· ≠ ':') = name := by
    rw [List.takeWhile_append_of_pos hname]
    simp
  have hdrop : (name ++ ':' :: value).dropWhile (· ≠ ':') = ':' :: value := by
    rw [List.dropWhile_append_of_pos hname]
    simp
  rw [readField, htake, hdrop]
  rfl

variable {content : List UInt16} {lines : List (List UInt16)} {fields : List Field}

theorem writes_of_decode (isName : IsName name)
    (hdecode : Utf16.decode content = name ++ ':' :: value) (hvalue : '\n' ∉ value) :
    Writes content (name, if name ∈ TEXT_PROPERTIES then unescapeIcsText value else value) := by
  refine ⟨by rw [hdecode, readField_line isName.no_colon], ?_, ?_⟩
  · rw [hdecode, List.mem_append, List.mem_cons, not_or, not_or]
    exact ⟨isName.no_break, by decide, hvalue⟩
  · have hvisible := isName.visible
    rw [hdecode]
    cases name with
    | nil => cases hvisible
    | cons c rest => exact hvisible

theorem writes_line (isName : IsName name) (plain : name ∉ TEXT_PROPERTIES)
    (hvalue : '\n' ∉ value) : Writes (line name value) (name, value) := by
  have h := writes_of_decode isName (Utf16.decode_encode _) hvalue
  rwa [if_neg plain] at h

theorem writes_text (isName : IsName name) (text : name ∈ TEXT_PROPERTIES) (value : List UInt16) :
    Writes (line name (escapeIcsText value)) (name, cleanText value) := by
  have h := writes_of_decode isName (Utf16.decode_encode _) (lf_not_mem_escapeIcsText value)
  rwa [if_pos text, unescape_escapeIcsText] at h

/-! ## Files -/

theorem intercalate_ended {α : Type} (sep first : List α) (others : List (List α)) :
    List.intercalate sep (first :: others) ++ sep =
      (first :: others).flatMap fun part => part ++ sep := by
  rw [intercalate_cons, List.flatMap_cons, List.append_assoc, List.append_assoc]
  congr 1
  induction others with
  | nil => simp
  | cons second others ih =>
      rw [List.flatMap_cons, List.flatMap_cons, List.append_assoc, ih]
      simp only [List.append_assoc]

variable {field : Field}

/-- A line of a file does not begin with a blank. -/
theorem head_foldIcsLine (writes : Writes content field) (rest : List Char) :
    (foldIcsLine content ++ (CRLF ++ rest)).head? ≠ some ' ' ∧
      (foldIcsLine content ++ (CRLF ++ rest)).head? ≠ some '\t' := by
  have hvisible := writes.visible
  obtain ⟨first, others, heq, hparts⟩ := foldIcsLine_parts content
  rw [heq]
  cases first with
  | nil =>
      cases others with
      | nil => simp [CRLF]
      | cons second others => simp [CRLF]
  | cons d first =>
      rw [← hparts.whole] at hvisible
      have hvisible : isVisible d = true := hvisible
      simp only [isVisible, decide_eq_true_eq] at hvisible
      simp [hvisible.1, hvisible.2.1]

/-- Unfolding keeps the end of every line. -/
theorem unfold_file (h : List.Forall₂ Writes lines fields) :
    unfold (lines.flatMap fun line => foldIcsLine line ++ CRLF) =
      (lines.map Utf16.decode).flatMap fun content => content ++ CRLF := by
  induction h with
  | nil => rfl
  | @cons content field lines fields hwrites hrest ih =>
      have hhead : (lines.flatMap fun line => foldIcsLine line ++ CRLF).head? ≠ some ' ' ∧
          (lines.flatMap fun line => foldIcsLine line ++ CRLF).head? ≠ some '\t' := by
        cases hrest with
        | nil => simp
        | cons hnext _ =>
            rw [List.flatMap_cons, List.append_assoc]
            exact head_foldIcsLine hnext _
      rw [List.flatMap_cons, List.append_assoc, unfold_foldIcsLine hwrites.no_break (by simp [CRLF]),
        unfold_end hhead.1 hhead.2, ih, List.map_cons,
        List.flatMap_cons, List.append_assoc]

theorem forall_of_forall₂ (h : List.Forall₂ Writes lines fields) :
    (∀ text ∈ lines.map Utf16.decode, '\n' ∉ text) ∧
      (lines.map Utf16.decode).map readField = fields := by
  induction h with
  | nil => simp
  | cons hwrites _ ih =>
      rw [List.map_cons, List.forall_mem_cons, List.map_cons, hwrites.reads, ih.2]
      exact ⟨⟨hwrites.no_break, ih.1⟩, rfl⟩

/-- The fields are read back from the lines that write them. -/
theorem readCalendar_of_writes (h : List.Forall₂ Writes (content :: lines) (field :: fields)) :
    readCalendar (List.intercalate CRLF ((content :: lines).map foldIcsLine) ++ CRLF) =
      some (field :: fields) := by
  obtain ⟨hbreaks, hread⟩ := forall_of_forall₂ h
  have hne : '\r' ≠ '\n' := by decide
  have hsplit := splitPair_ended hne hbreaks
  have hbody : List.intercalate CRLF ((content :: lines).map foldIcsLine) ++ CRLF =
      (content :: lines).flatMap fun line => foldIcsLine line ++ CRLF := by
    rw [List.map_cons, intercalate_ended, ← List.map_cons, List.flatMap_map]
  rw [readCalendar, contentLines, hbody, unfold_file h, CRLF, hsplit]
  simp only [List.getLast?_concat, if_true, List.dropLast_concat, Option.map_some, hread]

/-! ## Values without line breaks -/

section

variable {annotated : String → Option Int} {markdownToPlainText : List UInt16 → List UInt16}

theorem lf_not_mem_pad (value : Int) (width : Nat) : '\n' ∉ (pad value width).toList := by
  rw [pad, String.toList_ofList, padStart, List.mem_append, not_or]
  refine ⟨?_, not_mem_toString_int (by decide) (by decide) value⟩
  intro h
  exact absurd (List.eq_of_mem_replicate h) (by decide)

theorem lf_not_mem_append {a b : String} (ha : '\n' ∉ a.toList) (hb : '\n' ∉ b.toList) :
    '\n' ∉ (a ++ b).toList := by
  rw [String.toList_append, List.mem_append, not_or]
  exact ⟨ha, hb⟩

theorem lf_not_mem_yearText (year : Int) : '\n' ∉ (yearText year).toList := by
  unfold yearText
  split
  · exact lf_not_mem_pad year 4
  · apply lf_not_mem_append
    · split <;> decide
    · exact lf_not_mem_pad _ 6

theorem lf_not_mem_dateText (date : Date) : '\n' ∉ (dateText date).toList := by
  unfold dateText
  have hdash : '\n' ∉ "-".toList := by decide
  exact lf_not_mem_append (lf_not_mem_append (lf_not_mem_append (lf_not_mem_append
    (lf_not_mem_yearText date.year) hdash) (lf_not_mem_pad _ 2)) hdash) (lf_not_mem_pad _ 2)

theorem lf_not_mem_isoZ (ms : Int) : '\n' ∉ (isoZ ms).toList := by
  have hmarks : '\n' ∉ "T".toList ∧ '\n' ∉ ":".toList ∧ '\n' ∉ ".".toList ∧ '\n' ∉ "Z".toList := by
    decide
  obtain ⟨htime, hcolon, hdot, hzulu⟩ := hmarks
  simp only [isoZ, String.toList_append, List.mem_append, not_or]
  simp only [lf_not_mem_dateText, lf_not_mem_pad, htime, hcolon, hdot, hzulu, not_false_eq_true,
    and_self]

theorem dropFraction_subset (text : List Char) : dropFraction text ⊆ text := by
  induction text using dropFraction.induct with
  | case1 => simp [dropFraction]
  | case2 d rest h =>
      rw [dropFraction, if_pos h]
      exact fun c hc => List.mem_cons_of_mem _
        (List.mem_cons_of_mem _ ((List.dropWhile_sublist _).subset hc))
  | case3 d rest h ih =>
      rw [dropFraction, if_neg h]
      exact List.cons_subset_cons _ ih
  | case4 c rest h ih =>
      rw [dropFraction.eq_3 c rest h]
      exact List.cons_subset_cons _ ih

theorem lf_not_mem_icsUtc {instant : InstantInput} {text : List Char}
    (h : icsUtc annotated instant = .ok text) : '\n' ∉ text := by
  cases hinstant : toInstant annotated instant with
  | error message =>
      rw [icsUtc, toIsoZ, hinstant] at h
      cases h
  | ok ns =>
      rw [icsUtc, toIsoZ, hinstant] at h
      obtain rfl := Except.ok.inj h
      intro hmem
      exact lf_not_mem_isoZ _ (List.mem_filter.mp (dropFraction_subset _ hmem)).1

variable {event : IcsEvent} {fields : List Field} {now : InstantInput} {zone : Zone}

theorem lf_not_mem_timedInstants {times : List Char × List Char}
    (h : timedInstants annotated event = .ok times) : '\n' ∉ times.1 ∧ '\n' ∉ times.2 := by
  unfold timedInstants endUtc at h
  obtain ⟨start, hstart, h⟩ := bind_eq_ok.mp h
  have hlf := lf_not_mem_icsUtc hstart
  cases hlast : endOf event with
  | none =>
      rw [hlast] at h
      obtain rfl := Except.ok.inj h
      exact ⟨hlf, hlf⟩
  | some last =>
      rw [hlast] at h
      obtain ⟨text, htext, h⟩ := bind_eq_ok.mp h
      obtain rfl := Except.ok.inj h
      exact ⟨hlf, lf_not_mem_icsUtc htext⟩

theorem lf_not_mem_icsDate (date : Date) : '\n' ∉ icsDate date := by
  intro h
  exact lf_not_mem_dateText date (List.mem_filter.mp h).1

theorem lf_not_mem_httpUrl {value : Option (List UInt16)} {url : List Char}
    (h : httpUrl value = some url) : '\n' ∉ url := by
  cases value with
  | none => cases h
  | some text =>
      rw [httpUrl, Option.map_some, Option.filter_eq_some_iff] at h
      obtain rfl := Option.some.inj h.1
      intro hmem
      have hkept := (List.mem_filter.mp (mem_of_mem_trimChars hmem)).2
      exact absurd hkept (by decide)

/-! ## The lines of an event -/

/-- A field whose value needs no escaping. -/
structure PlainField (field : Field) : Prop where
  isName : IsName field.1
  plain : field.1 ∉ TEXT_PROPERTIES
  no_break : '\n' ∉ field.2

theorem plainField (hname : IsName name ∧ name ∉ TEXT_PROPERTIES) (hvalue : '\n' ∉ value) :
    PlainField (name, value) := ⟨hname.1, hname.2, hvalue⟩

def fieldLine (field : Field) : List UInt16 := line field.1 field.2

theorem PlainField.writes {field : Field} (h : PlainField field) : Writes (fieldLine field) field :=
  writes_line h.isName h.plain h.no_break

theorem writes_plain (h : ∀ field ∈ fields, PlainField field) :
    List.Forall₂ Writes (fields.map fieldLine) fields := by
  induction fields with
  | nil => exact List.Forall₂.nil
  | cons field fields ih =>
      rw [List.forall_mem_cons] at h
      exact List.Forall₂.cons h.1.writes (ih h.2)

theorem icsEventDateLines_eq (event : IcsEvent) (now : InstantInput) (zone : Zone) :
    icsEventDateLines annotated event now zone =
      (dateFields annotated event now zone).map (List.map fieldLine) := by
  unfold icsEventDateLines dateFields
  cases icsUtc annotated now with
  | error message => rfl
  | ok stamp =>
      dsimp only [bind, Except.bind]
      split
      · cases allDayDates annotated event zone with
        | error message => rfl
        | ok days => rfl
      · cases timedInstants annotated event with
        | error message => rfl
        | ok times => rfl

theorem lastModified_eq (updatedAt : Option InstantInput) :
    lastModified annotated updatedAt =
      (modifiedFields annotated updatedAt).map (List.map fieldLine) := by
  cases updatedAt with
  | none => rfl
  | some instant =>
      unfold lastModified modifiedFields
      dsimp only
      split
      · cases icsUtc annotated instant with
        | error message => rfl
        | ok text => rfl
      · rfl

theorem dateFields_plain (h : dateFields annotated event now zone = .ok fields) :
    ∀ field ∈ fields, PlainField field := by
  unfold dateFields at h
  obtain ⟨stamp, hstamp, h⟩ := bind_eq_ok.mp h
  have hlf := lf_not_mem_icsUtc hstamp
  split at h
  · obtain ⟨days, _, h⟩ := bind_eq_ok.mp h
    obtain rfl := Except.ok.inj h
    simp only [List.forall_mem_cons, List.not_mem_nil, false_implies, implies_true, and_true]
    exact ⟨plainField (by decide) hlf, plainField (by decide) (lf_not_mem_icsDate _),
      plainField (by decide) (lf_not_mem_icsDate _)⟩
  · obtain ⟨times, htimes, h⟩ := bind_eq_ok.mp h
    obtain rfl := Except.ok.inj h
    obtain ⟨hstart, hend⟩ := lf_not_mem_timedInstants htimes
    simp only [List.forall_mem_cons, List.not_mem_nil, false_implies, implies_true, and_true]
    exact ⟨plainField (by decide) hlf, plainField (by decide) hstart, plainField (by decide) hend⟩

theorem modifiedFields_plain {updatedAt : Option InstantInput}
    (h : modifiedFields annotated updatedAt = .ok fields) : ∀ field ∈ fields, PlainField field := by
  cases updatedAt with
  | none =>
      obtain rfl := Except.ok.inj h
      simp
  | some instant =>
      unfold modifiedFields at h
      dsimp only at h
      split at h
      · obtain ⟨text, htext, h⟩ := bind_eq_ok.mp h
        obtain rfl := Except.ok.inj h
        rw [List.forall_mem_singleton]
        exact plainField (by decide) (lf_not_mem_icsUtc htext)
      · obtain rfl := Except.ok.inj h
        simp

/-! ## The whole file -/

theorem forall₂_append {a b : List (List UInt16)} {c d : List Field}
    (hfront : List.Forall₂ Writes a c) (hback : List.Forall₂ Writes b d) :
    List.Forall₂ Writes (a ++ b) (c ++ d) := List.rel_append hfront hback

/-- A field that may be missing. -/
theorem writes_optional {α : Type} {value : Option α} {f : α → List UInt16} {g : α → Field}
    (h : ∀ a, value = some a → Writes (f a) (g a)) :
    List.Forall₂ Writes (value.map f).toList (value.map g).toList := by
  cases value with
  | none => exact List.Forall₂.nil
  | some a => exact List.Forall₂.cons (h a rfl) List.Forall₂.nil

theorem writes_uid {documentId : List UInt16} (h : '\n' ∉ Utf16.decode documentId) :
    Writes (Utf16.encode "UID:event-".toList ++ documentId ++ Utf16.encode "@sinnlos".toList)
      ("UID".toList, "event-".toList ++ Utf16.decode documentId ++ "@sinnlos".toList) := by
  have hdecode : Utf16.decode (Utf16.encode "UID:event-".toList ++ documentId ++
      Utf16.encode "@sinnlos".toList) =
        "UID".toList ++ ':' :: ("event-".toList ++ Utf16.decode documentId ++ "@sinnlos".toList) := by
    have hfront : "UID:event-".toList = "UID".toList ++ ':' :: "event-".toList := by decide
    rw [Utf16.decode_append_encode, Utf16.decode_encode_append, hfront]
    simp only [List.append_assoc, List.cons_append]
  have hvalue : '\n' ∉ "event-".toList ++ Utf16.decode documentId ++ "@sinnlos".toList := by
    rw [List.mem_append, List.mem_append, not_or, not_or]
    exact ⟨⟨by decide, h⟩, by decide⟩
  have hwrites := writes_of_decode (by decide) hdecode hvalue
  have hplain : "UID".toList ∉ TEXT_PROPERTIES := by decide
  rwa [if_neg hplain] at hwrites

theorem icsLines_write (hid : '\n' ∉ Utf16.decode event.documentId)
    (h : intendedFields annotated markdownToPlainText event now zone = .ok fields) :
    ∃ lines, icsLines annotated markdownToPlainText event now zone = .ok lines ∧
      List.Forall₂ Writes lines fields := by
  unfold intendedFields at h
  unfold icsLines
  rw [icsEventDateLines_eq, lastModified_eq]
  obtain ⟨dates, hdates, h⟩ := bind_eq_ok.mp h
  obtain ⟨modified, hmodified, h⟩ := bind_eq_ok.mp h
  obtain rfl := Except.ok.inj h
  rw [hdates, hmodified]
  refine ⟨_, rfl, ?_⟩
  have hdates := writes_plain (dateFields_plain hdates)
  have hmodified := writes_plain (modifiedFields_plain hmodified)
  have hsequence := not_mem_toString_int (c := '\n') (by decide) (by decide)
    (icsSequence annotated event.updatedAt)
  have hfixed {name value : List Char} (h : (IsName name ∧ name ∉ TEXT_PROPERTIES) ∧
      '\n' ∉ value) : Writes (line name value) (name, value) :=
    writes_line h.1.1 h.1.2 h.2
  -- in the order of the lines: what is fixed, then each field that may be missing
  refine forall₂_append (forall₂_append (forall₂_append (forall₂_append (forall₂_append
    (forall₂_append (forall₂_append (forall₂_append ?_ hdates) ?_) hmodified) ?_) ?_) ?_)
      ?_) ?_
  · exact .cons (hfixed (by decide)) (.cons (hfixed (by decide)) (.cons (hfixed (by decide))
      (.cons (hfixed (by decide)) (.cons (writes_uid hid) .nil))))
  · exact .cons (writes_line (by decide) (by decide) hsequence) .nil
  · exact .cons (writes_text (by decide) (by decide) _) .nil
  · exact writes_optional fun text _ => writes_text (by decide) (by decide) text
  · exact writes_optional fun text _ => writes_text (by decide) (by decide) text
  · exact writes_optional fun url hurl =>
      writes_line (by decide) (by decide) (lf_not_mem_httpUrl hurl)
  · exact .cons (hfixed (by decide)) (.cons (hfixed (by decide)) .nil)

theorem intendedFields_error {message : String}
    (h : intendedFields annotated markdownToPlainText event now zone = .error message) :
    icsLines annotated markdownToPlainText event now zone = .error message := by
  unfold intendedFields at h
  unfold icsLines
  rw [icsEventDateLines_eq, lastModified_eq]
  cases hdates : dateFields annotated event now zone with
  | error other =>
      rw [hdates] at h
      obtain rfl : other = message := Except.error.inj h
      rfl
  | ok dates =>
      rw [hdates] at h
      cases hmodified : modifiedFields annotated event.updatedAt with
      | error other =>
  rw [hmodified] at h
  obtain rfl : other = message := Except.error.inj h
  rfl
      | ok modified =>
  rw [hmodified] at h
  cases h

theorem intendedFields_ne_nil :
    intendedFields annotated markdownToPlainText event now zone ≠ .ok [] := by
  unfold intendedFields
  intro h
  obtain ⟨dates, _, h⟩ := bind_eq_ok.mp h
  obtain ⟨modified, _, h⟩ := bind_eq_ok.mp h
  exact absurd (Except.ok.inj h) (by simp)

theorem buildIcs_read (nfkd : Nfkd) (now : InstantInput) (zone : Zone)
    (hid : '\n' ∉ Utf16.decode event.documentId) :
    (buildIcs annotated markdownToPlainText nfkd event now zone).map (readCalendar ·.body) =
      (intendedFields annotated markdownToPlainText event now zone).map some := by
  cases hfields : intendedFields annotated markdownToPlainText event now zone with
  | error message =>
      rw [buildIcs, intendedFields_error hfields]
      rfl
  | ok fields =>
      obtain ⟨lines, hlines, hwrites⟩ := icsLines_write hid hfields
      rw [buildIcs, hlines]
      cases hwrites with
      | nil => exact absurd hfields intendedFields_ne_nil
      | cons hfirst hrest =>
          exact congrArg Except.ok (readCalendar_of_writes (.cons hfirst hrest))

/-- What the calendar output promises. -/
structure CarriesFields (annotated : String → Option Int)
    (markdownToPlainText : List UInt16 → List UInt16) (nfkd : Nfkd) : Prop where
  folded : ∀ line, IsContentLine line → FoldsLegally line
  escaped : ∀ value, unescapeIcsText (escapeIcsText value) = cleanText value
  built : ∀ event now zone, IsContentLine event.documentId →
    (buildIcs annotated markdownToPlainText nfkd event now zone).map (readCalendar ·.body) =
      (intendedFields annotated markdownToPlainText event now zone).map some

/-- Lines, values and files are read back as they are meant. -/
theorem calendar_carries_fields (annotated : String → Option Int)
    (markdownToPlainText : List UInt16 → List UInt16) (nfkd : Nfkd) :
    CarriesFields annotated markdownToPlainText nfkd where
  folded _ := foldIcsLine_legal
  escaped := unescape_escapeIcsText
  built _ now zone content := buildIcs_read nfkd now zone content.2

end

/-- An event on 1 January 1970 and nothing else, under an id with a line break. -/
def brokenId : IcsEvent where
  documentId := Utf16.encode "a\r\nX:1".toList
  title := none
  description := none
  location := none
  url := none
  start := .date (some 0)
  «end» := none
  allDay := none
  updatedAt := none

/-- A bell is dropped from a text, and a line break in an id ends its line. -/
theorem bell_and_broken_id :
    unescapeIcsText (escapeIcsText [7]) ≠ normalizeBreaks (Utf16.decode [7]) ∧
      (buildIcs (fun _ => none) id slashTable brokenId (.date (some 0)) utc).map
          (readCalendar ·.body) ≠
        (intendedFields (fun _ => none) id brokenId (.date (some 0)) utc).map some := by
  constructor
  · decide
  · decide +kernel

end Sinnlos.Cms.Ics

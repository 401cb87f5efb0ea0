import Mathlib
import Sinnlos.Domain.TrainingCourses
import Sinnlos.Cms.TrainingEvidence

/-!
# Pruning changes nobody's training

The newest receipt is decided twice: by the validity rules, which read an
unreadable instant as the start of 1970, and by the retention, which reads it as
the oldest. Both agree on canonical instants, and on a lesson whose unreadable
ones stand beside a canonical one after 1970; what the retention keeps then has
the same newest receipts.
-/

namespace Sinnlos.Cms.Evidence

open Domain Calendar Text

section

variable {dateParse : String → Option Int}

/-! ## Canonical instants -/

theorem isoOfMs_epochMs (instant : Instant) : isoOfMs instant.epochMs = instant.toISOString := by
  have hhour := instant.hour_le
  have hminute := instant.minute_le
  have hsecond := instant.second_le
  have hmilli := instant.milli_le
  have hms : instant.epochMs = (instant.date.dayNumber - EPOCH_DAY) * Domain.DAY_MS +
      instant.hour * 3600000 + instant.minute * 60000 + instant.second * 1000 + instant.milli := rfl
  have hday : EPOCH_DAY + instant.epochMs / Domain.DAY_MS = instant.date.dayNumber := by
    rw [hms]
    unfold Domain.DAY_MS
    omega
  have hclock : instant.epochMs % Domain.DAY_MS = instant.hour * 3600000 + instant.minute * 60000 +
      instant.second * 1000 + instant.milli := by
    rw [hms]
    unfold Domain.DAY_MS
    omega
  have hparts : instant.epochMs % Domain.DAY_MS / 3600000 = instant.hour ∧
      instant.epochMs % Domain.DAY_MS / 60000 % 60 = instant.minute ∧
      instant.epochMs % Domain.DAY_MS / 1000 % 60 = instant.second ∧
      instant.epochMs % Domain.DAY_MS % 1000 = instant.milli := by
    rw [hclock]
    omega
  have hyear : isoYear instant.date.year = pad instant.date.year 4 := by
    rw [isoYear, if_pos ⟨instant.year_nonneg, instant.year_le⟩]
  simp only [isoOfMs, hday, ofDayNumber_dayNumber, hparts, hyear]
  rfl

theorem publicationStamp_canonical (hread : ReadsCanonical dateParse) (instant : Instant) :
    publicationStamp dateParse (some instant.toISOString) = some instant.toISOString := by
  rw [publicationStamp, Option.bind_some, instantEpochMs_canonical hread, Option.map_some,
    isoOfMs_epochMs]

theorem publicationStamp_unreadable {text : String} (h : instantEpochMs dateParse text = none) :
    publicationStamp dateParse (some text) = none := by
  rw [publicationStamp, Option.bind_some, h, Option.map_none]

/-! ## What the retention calls newest -/

/-- One instant is not later than another; none is the oldest. -/
def NotLater (a b : Option Int) : Prop := isLater a b = false

theorem isLater_iff {x y : WithBot Int} : isLater y x = true ↔ x < y := by
  cases y with
  | bot => exact iff_of_false Bool.false_ne_true not_lt_bot
  | coe y =>
      cases x with
      | bot => exact iff_of_true rfl (WithBot.bot_lt_coe y)
      | coe x => exact decide_eq_true_iff.trans WithBot.coe_lt_coe.symm

theorem notLater_of_le {x y : WithBot Int} (h : x ≤ y) : NotLater x y :=
  Bool.eq_false_iff.mpr fun hlater => not_lt.mpr h (isLater_iff.mp hlater)

variable {receipts : List GroupedReceipt} {receipt : GroupedReceipt} {rows : List StoredReceipt}
  {anonymisedAt : Option String} {lesson todayKey laterDay due : String} {years months : Nat}
  {timeZone : Zone} {expired : List Nat} {context : RetentionContext}

/-- The order of the retention: by the instant, then by the id. -/
def rank (dateParse : String → Option Int) (receipt : GroupedReceipt) : WithBot Int ×ₗ Nat :=
  toLex (receiptMs dateParse receipt, receipt.id)

theorem rank_lt_iff {kept : GroupedReceipt} : rank dateParse kept < rank dateParse receipt ↔
    (isLater (receiptMs dateParse receipt) (receiptMs dateParse kept) ||
      (receiptMs dateParse receipt = receiptMs dateParse kept && receipt.id > kept.id)) = true := by
  rw [Bool.or_eq_true, Bool.and_eq_true, decide_eq_true_eq, decide_eq_true_eq]
  exact Prod.Lex.toLex_lt_toLex.trans (or_congr isLater_iff.symm (and_congr eq_comm Iff.rfl))

/-- The newest receipt of a lesson. -/
noncomputable def newestOf (dateParse : String → Option Int) (receipts : List GroupedReceipt)
    (lesson : String) : Option GroupedReceipt :=
  (receipts.filter fun receipt => receipt.lesson = lesson).argmax (rank dateParse)

/-- One receipt more. -/
theorem get?_noteNewest {newest : OrderedMap String GroupedReceipt}
    (h : newest.get? lesson = newestOf dateParse receipts lesson) (receipt : GroupedReceipt) :
    (noteNewest dateParse newest receipt).get? lesson =
      newestOf dateParse (receipts ++ [receipt]) lesson := by
  unfold noteNewest
  rw [newestOf, List.filter_append]
  by_cases hlesson : receipt.lesson = lesson
  · rw [List.filter_cons_of_pos (by simpa using hlesson), List.filter_nil, List.argmax_concat,
      ← newestOf, ← h, hlesson]
    cases hknown : newest.get? lesson with
    | none => exact OrderedMap.get?_set_self _ _ _
    | some kept =>
        dsimp only
        by_cases hwins : rank dateParse kept < rank dateParse receipt
        · rw [if_pos hwins, if_pos (rank_lt_iff.mp hwins)]
          exact OrderedMap.get?_set_self _ _ _
        · rw [if_neg hwins, if_neg fun h => hwins (rank_lt_iff.mpr h)]
          exact hknown
  · rw [List.filter_cons_of_neg (by simpa using hlesson), List.filter_nil, List.append_nil,
      ← newestOf, ← h]
    have hne : lesson ≠ receipt.lesson := fun heq => hlesson heq.symm
    split
    · exact OrderedMap.get?_set_of_ne _ _ hne
    · split
      · exact OrderedMap.get?_set_of_ne _ _ hne
      · rfl

theorem get?_newest (receipts : List GroupedReceipt) (lesson : String) :
    (receipts.foldl (noteNewest dateParse) OrderedMap.empty).get? lesson =
      newestOf dateParse receipts lesson := by
  induction receipts using List.reverseRecOn with
  | nil => rfl
  | append_singleton receipts receipt ih =>
      rw [List.foldl_append]
      exact get?_noteNewest ih receipt

theorem mem_currentReceiptIds {id : Nat} : id ∈ currentReceiptIds dateParse receipts ↔
    ∃ lesson receipt, newestOf dateParse receipts lesson = some receipt ∧ receipt.id = id := by
  unfold currentReceiptIds
  simp only [List.mem_map, OrderedMap.mem_values, get?_newest]
  constructor
  · rintro ⟨receipt, ⟨lesson, hnewest⟩, hid⟩
    exact ⟨lesson, receipt, hnewest, hid⟩
  · rintro ⟨lesson, receipt, hnewest, hid⟩
    exact ⟨receipt, ⟨lesson, hnewest⟩, hid⟩

theorem newestOf_mem (h : newestOf dateParse receipts lesson = some receipt) :
    receipt ∈ receipts ∧ receipt.lesson = lesson := by
  have hmem := List.mem_filter.mp (List.argmax_mem h)
  exact ⟨hmem.1, of_decide_eq_true hmem.2⟩

/-- Every lesson with a receipt has a newest one. -/
theorem exists_newestOf (hmem : receipt ∈ receipts) :
    ∃ newest, newestOf dateParse receipts receipt.lesson = some newest ∧
      ∀ other ∈ receipts, other.lesson = receipt.lesson →
        rank dateParse other ≤ rank dateParse newest := by
  have hown : ∀ other ∈ receipts, other.lesson = receipt.lesson →
      other ∈ receipts.filter fun other => other.lesson = receipt.lesson := by
    intro other hother hlesson
    exact List.mem_filter.mpr ⟨hother, decide_eq_true hlesson⟩
  cases hnewest : newestOf dateParse receipts receipt.lesson with
  | none =>
      have hnone := hown receipt hmem rfl
      rw [List.argmax_eq_none.mp hnewest] at hnone
      exact absurd hnone List.not_mem_nil
  | some newest =>
      refine ⟨newest, rfl, ?_⟩
      intro other hother hlesson
      exact List.le_of_mem_argmax (hown other hother hlesson) hnewest

/-- Every lesson with a receipt has a current one, and no receipt of it is later. -/
theorem exists_current (hmem : receipt ∈ receipts) :
    ∃ current ∈ receipts, current.lesson = receipt.lesson ∧
      current.id ∈ currentReceiptIds dateParse receipts ∧
      ∀ other ∈ receipts, other.lesson = receipt.lesson →
        NotLater (receiptMs dateParse other) (receiptMs dateParse current) := by
  obtain ⟨newest, hnewest, hall⟩ := @exists_newestOf dateParse _ _ hmem
  obtain ⟨hin, hlesson⟩ := newestOf_mem hnewest
  refine ⟨newest, hin, hlesson, mem_currentReceiptIds.mpr ⟨_, newest, hnewest, rfl⟩, ?_⟩
  intro other hother hown
  exact notLater_of_le (Prod.Lex.monotone_fst _ _ (hall other hother hown))

/-! ## What the validity rules call newest -/

/-- The instant by which the validity rules compare a receipt. -/
def validityMs (dateParse : String → Option Int) (completedAt : Option String) : Option Int :=
  completedAt.map (epochMsOrZero dateParse)

theorem keepNewest_eq (kept completedAt : Option String) :
    keepNewest dateParse kept completedAt =
      if isLater (validityMs dateParse completedAt) (validityMs dateParse kept) then completedAt
      else kept := by
  cases completedAt with
  | none => cases kept <;> rfl
  | some text =>
      cases kept with
      | none => rfl
      | some other => simp [keepNewest, validityMs, isLater]

/-- The validity rules keep a receipt that none is later than. -/
theorem foldl_seen_newest (receipts : List (Option String)) :
    (receipts.foldl (seen dateParse) none = none ∧ receipts = []) ∨
      ∃ kept, receipts.foldl (seen dateParse) none = some kept ∧ kept ∈ receipts ∧
        ∀ completedAt ∈ receipts,
          NotLater (validityMs dateParse completedAt) (validityMs dateParse kept) := by
  have hfold : receipts.foldl (seen dateParse) none =
      List.argmax (β := WithBot Int) (validityMs dateParse) receipts := by
    unfold List.argmax
    congr 1
    funext known completedAt
    cases known with
    | none => rfl
    | some kept =>
        rw [seen, keepNewest_eq]
        split
        · rename_i hlater
          exact (if_pos (isLater_iff.mp hlater)).symm
        · rename_i hnot
          exact (if_neg fun h => hnot (isLater_iff.mpr h)).symm
  rw [hfold]
  cases hkept : List.argmax (β := WithBot Int) (validityMs dateParse) receipts with
  | none => exact Or.inl ⟨rfl, List.argmax_eq_none.mp hkept⟩
  | some kept =>
      refine Or.inr ⟨kept, rfl, List.argmax_mem hkept, fun completedAt hmem => ?_⟩
      exact notLater_of_le (List.le_of_mem_argmax hmem hkept)

/-! ## Both agree -/

/-- Every completion instant is canonical, or unreadable beside a canonical one
of the same lesson after the start of 1970. -/
def Readable (dateParse : String → Option Int) (completions : List (Option String)) : Prop :=
  ∀ text, some text ∈ completions → (∃ instant : Instant, text = instant.toISOString) ∨
    (instantEpochMs dateParse text = none ∧ ∃ instant : Instant,
      some instant.toISOString ∈ completions ∧ 0 < instant.epochMs)

/-- The instant by which the retention compares a stored receipt. -/
def retentionMs (dateParse : String → Option Int) (completedAt : Option String) : Option Int :=
  (publicationStamp dateParse completedAt).bind (instantEpochMs dateParse)

theorem retentionMs_canonical (hread : ReadsCanonical dateParse) (instant : Instant) :
    retentionMs dateParse (some instant.toISOString) = some instant.epochMs := by
  rw [retentionMs, publicationStamp_canonical hread, Option.bind_some,
    instantEpochMs_canonical hread]

theorem validityMs_canonical (hread : ReadsCanonical dateParse) (instant : Instant) :
    validityMs dateParse (some instant.toISOString) = some instant.epochMs := by
  rw [validityMs, Option.map_some, epochMsOrZero_canonical hread]

/-- A receipt that the retention calls newest is the only one that the validity
rules do not call older. -/
theorem eq_of_retention_newest (hread : ReadsCanonical dateParse)
    {completions : List (Option String)} (hreadable : Readable dateParse completions)
    {current other : Option String} (hcurrent : current ∈ completions)
    (hnewest : ∀ completedAt ∈ completions,
      NotLater (retentionMs dateParse completedAt) (retentionMs dateParse current))
    (hother : other ∈ completions)
    (hle : NotLater (validityMs dateParse current) (validityMs dateParse other)) :
    other = current := by
  -- beside an unreadable receipt the newest one is canonical and after 1970
  have hbeside : ∀ text, some text ∈ completions → instantEpochMs dateParse text = none →
      ∃ i : Instant, current = some i.toISOString ∧ 0 < i.epochMs := by
    intro text hmem hunreadable
    obtain ⟨instant, heq⟩ | ⟨_, instant, hin, hpos⟩ := hreadable text hmem
    · rw [heq, instantEpochMs_canonical hread] at hunreadable
      cases hunreadable
    · have hlater := hnewest _ hin
      rw [retentionMs_canonical hread] at hlater
      cases current with
      | none => cases hlater
      | some currentText =>
          obtain ⟨i, rfl⟩ | ⟨hnone, -⟩ := hreadable currentText hcurrent
          · rw [retentionMs_canonical hread] at hlater
            simp only [NotLater, isLater, decide_eq_false_iff_not] at hlater
            exact ⟨i, rfl, by omega⟩
          · rw [retentionMs, publicationStamp_unreadable hnone] at hlater
            cases hlater
  cases other with
  | none =>
      cases current with
      | none => rfl
      | some currentText => cases hle
  | some text =>
      obtain ⟨j, rfl⟩ | ⟨hunreadable, -⟩ := hreadable text hother
      · have hlater := hnewest _ hother
        rw [retentionMs_canonical hread] at hlater
        cases current with
        | none => cases hlater
        | some currentText =>
            obtain ⟨i, rfl⟩ | ⟨hnone, -⟩ := hreadable currentText hcurrent
            · rw [retentionMs_canonical hread] at hlater
              rw [validityMs_canonical hread, validityMs_canonical hread] at hle
              simp only [NotLater, isLater, decide_eq_false_iff_not] at hlater hle
              rw [Instant.toISOString_eq_of_epochMs (a := j) (b := i) (by omega)]
            · rw [retentionMs, publicationStamp_unreadable hnone] at hlater
              cases hlater
      · obtain ⟨i, rfl, hpos⟩ := hbeside text hother hunreadable
        rw [validityMs_canonical hread, validityMs, Option.map_some, epochMsOrZero, hunreadable] at hle
        simp only [NotLater, isLater, decide_eq_false_iff_not, Option.getD_none] at hle
        omega

/-! ## What is kept -/

section

variable {α ε : Type} {test : α → Except ε Bool} {items found : List α} {a : α}

/-- What a test accepts, where it answers. -/
def accepts (test : α → Except ε Bool) (a : α) : Bool := (test a).toOption.getD false

theorem test_eq (h : ∃ accepted, test a = .ok accepted) : test a = .ok (accepts test a) := by
  obtain ⟨accepted, h⟩ := h
  rw [accepts, h]
  rfl

theorem filterThrowing_eq (h : ∀ a ∈ items, ∃ accepted, test a = .ok accepted) :
    filterThrowing test items = .ok (items.filter (accepts test)) := by
  induction items with
  | nil => rfl
  | cons item items ih =>
      obtain ⟨hitem, hitems⟩ := List.forall_mem_cons.mp h
      unfold filterThrowing
      rw [test_eq hitem, ih hitems, List.filter_cons]
      rfl

theorem exists_of_filterThrowing (h : filterThrowing test items = .ok found) :
    ∀ a ∈ items, ∃ accepted, test a = .ok accepted := by
  induction items generalizing found with
  | nil => exact fun _ hmem => absurd hmem List.not_mem_nil
  | cons item items ih =>
      unfold filterThrowing at h
      obtain ⟨accepted, htest, h⟩ := bind_eq_ok.mp h
      obtain ⟨others, hrest, _⟩ := bind_eq_ok.mp h
      exact List.forall_mem_cons.mpr ⟨⟨accepted, htest⟩, ih hrest⟩

theorem mem_filterThrowing (h : filterThrowing test items = .ok found) :
    a ∈ found ↔ a ∈ items ∧ test a = .ok true := by
  have hall := exists_of_filterThrowing h
  rw [filterThrowing_eq hall] at h
  rw [← Except.ok.inj h, List.mem_filter]
  refine and_congr_right fun hmem => ?_
  rw [test_eq (hall a hmem), Except.ok.injEq]

end

/-- The verdict on a receipt beside the others of its person. -/
def judged (dateParse : String → Option Int) (receipts : List GroupedReceipt)
    (context : RetentionContext) (receipt : GroupedReceipt) : Except RangeError Bool :=
  receiptExpired dateParse receipt
    { context with current := (currentReceiptIds dateParse receipts).contains receipt.id }

/-- A run of the retention. -/
def runOn (dateParse : String → Option Int) (anonymisedAt : Option String) (todayKey : String)
    (years : Nat) (timeZone : Zone) : RetentionContext :=
  ⟨false, publicationStamp dateParse anonymisedAt, todayKey, years, timeZone⟩

theorem expiredIds_eq_ok : expiredIds dateParse rows anonymisedAt todayKey years timeZone = .ok expired ↔
    ∃ found, filterThrowing (judged dateParse (receiptsOf dateParse rows)
        (runOn dateParse anonymisedAt todayKey years timeZone)) (receiptsOf dateParse rows) = .ok found ∧
      found.map GroupedReceipt.id = expired := by
  unfold expiredIds
  change (filterThrowing (judged dateParse (receiptsOf dateParse rows)
    (runOn dateParse anonymisedAt todayKey years timeZone)) (receiptsOf dateParse rows) >>=
      fun found => pure (found.map GroupedReceipt.id)) = _ ↔ _
  cases filterThrowing (judged dateParse (receiptsOf dateParse rows)
      (runOn dateParse anonymisedAt todayKey years timeZone)) (receiptsOf dateParse rows) with
  | error e =>
      constructor
      · intro h
        cases h
      · rintro ⟨_, h, -⟩
        cases h
  | ok found =>
      constructor
      · intro h
        exact ⟨found, rfl, Except.ok.inj h⟩
      · rintro ⟨_, hfound, rfl⟩
        rw [← Except.ok.inj hfound]
        rfl

theorem exists_expiredIds (h : ∀ receipt ∈ receiptsOf dateParse rows, ∃ past,
      judged dateParse (receiptsOf dateParse rows)
        (runOn dateParse anonymisedAt todayKey years timeZone) receipt = .ok past) :
    ∃ expired, expiredIds dateParse rows anonymisedAt todayKey years timeZone = .ok expired :=
  ⟨_, expiredIds_eq_ok.mpr ⟨_, filterThrowing_eq h, rfl⟩⟩

theorem expiredIds_spec (h : expiredIds dateParse rows anonymisedAt todayKey years timeZone = .ok expired) :
    (∀ receipt ∈ receiptsOf dateParse rows, ∃ past, judged dateParse (receiptsOf dateParse rows)
      (runOn dateParse anonymisedAt todayKey years timeZone) receipt = .ok past) ∧
    ∀ id, id ∈ expired ↔ ∃ receipt ∈ receiptsOf dateParse rows, receipt.id = id ∧
      judged dateParse (receiptsOf dateParse rows)
        (runOn dateParse anonymisedAt todayKey years timeZone) receipt = .ok true := by
  obtain ⟨found, hfound, rfl⟩ := expiredIds_eq_ok.mp h
  refine ⟨exists_of_filterThrowing hfound, fun id => ?_⟩
  simp only [List.mem_map, mem_filterThrowing hfound]
  constructor
  · rintro ⟨receipt, ⟨hmem, hpast⟩, hid⟩
    exact ⟨receipt, hmem, hid, hpast⟩
  · rintro ⟨receipt, hmem, hid, hpast⟩
    exact ⟨receipt, ⟨hmem, hpast⟩, hid⟩

/-- The current receipts of a person who is not anonymised are not past it. -/
theorem judged_current (hactive : context.anonymisedAt = none)
    (hcurrent : receipt.id ∈ currentReceiptIds dateParse receipts) :
    judged dateParse receipts context receipt = .ok false := by
  have hcontains := List.contains_iff_mem.mpr hcurrent
  simp only [judged, receiptExpired, retentionBase, hactive, hcontains, if_true]
  rfl

theorem not_expired_of_current (hactive : publicationStamp dateParse anonymisedAt = none)
    (h : expiredIds dateParse rows anonymisedAt todayKey years timeZone = .ok expired) {id : Nat}
    (hcurrent : id ∈ currentReceiptIds dateParse (receiptsOf dateParse rows)) : id ∉ expired := by
  intro hmem
  obtain ⟨receipt, -, rfl, hpast⟩ := ((expiredIds_spec h).2 id).mp hmem
  rw [judged_current hactive hcurrent] at hpast
  cases hpast

/-- The completion instants of a lesson. -/
def completionsOf (rows : List StoredReceipt) (id : String) : List (Option String) :=
  Domain.receiptsOf (rows.map StoredReceipt.receiptRow) id

theorem mem_completionsOf {id : String} {completedAt : Option String} :
    completedAt ∈ completionsOf rows id ↔
      ∃ row ∈ rows, row.targetDocumentId = some id ∧ id ≠ "" ∧ row.completedAt = completedAt := by
  unfold completionsOf Domain.receiptsOf ReceiptRow.isFor
  simp only [List.mem_map, List.mem_filter, decide_eq_true_eq]
  constructor
  · rintro ⟨_, ⟨⟨row, hrow, rfl⟩, htarget, hid⟩, hcompleted⟩
    exact ⟨row, hrow, htarget, hid, hcompleted⟩
  · rintro ⟨row, hrow, htarget, hid, hcompleted⟩
    exact ⟨row.receiptRow, ⟨⟨row, hrow, rfl⟩, htarget, hid⟩, hcompleted⟩

/-- The current receipt of a lesson, as it is stored. -/
theorem exists_current_row {rows : List StoredReceipt} {id : String} {completedAt : Option String}
    (hmem : completedAt ∈ completionsOf rows id) :
    ∃ row ∈ rows, row.targetDocumentId = some id ∧
      row.id ∈ currentReceiptIds dateParse (receiptsOf dateParse rows) ∧
      ∀ other ∈ completionsOf rows id,
        NotLater (retentionMs dateParse other) (retentionMs dateParse row.completedAt) := by
  have hgroup : ∀ row ∈ rows, row.targetDocumentId = some id →
      ({ id := row.id, lesson := id, completedAt := publicationStamp dateParse row.completedAt,
         snapshot := row.snapshot } : GroupedReceipt) ∈ receiptsOf dateParse rows := by
    intro row hrow htarget
    exact List.mem_filterMap.mpr ⟨row, hrow, by rw [htarget]; rfl⟩
  obtain ⟨row, hrow, htarget, -, -⟩ := mem_completionsOf.mp hmem
  obtain ⟨current, hcurrent, hlesson, hid, hnewest⟩ := exists_current (hgroup row hrow htarget)
  obtain ⟨stored, hstored, hmap⟩ := List.mem_filterMap.mp hcurrent
  obtain ⟨lesson, hsome, rfl⟩ := Option.map_eq_some_iff.mp hmap
  have hown : lesson = id := hlesson
  refine ⟨stored, hstored, by rw [hsome, hown], hid, ?_⟩
  intro other hother
  obtain ⟨otherRow, hotherRow, hotherTarget, -, rfl⟩ := mem_completionsOf.mp hother
  exact hnewest _ (hgroup otherRow hotherRow hotherTarget) rfl

/-- What the retention keeps has the same newest receipt of every lesson. -/
theorem newestReceipts_prune (hread : ReadsCanonical dateParse)
    (hreadable : ∀ id, Readable dateParse (completionsOf rows id))
    (hactive : publicationStamp dateParse anonymisedAt = none) (todayKey : String) (years : Nat)
    (timeZone : Zone) (id : String) :
    (newestReceipts dateParse ((pruneTrainingEvidence dateParse rows anonymisedAt todayKey years
        timeZone).map StoredReceipt.receiptRow)).get? id =
      (newestReceipts dateParse (rows.map StoredReceipt.receiptRow)).get? id := by
  unfold pruneTrainingEvidence
  cases hexpired : expiredIds dateParse rows anonymisedAt todayKey years timeZone with
  | error e => rfl
  | ok expired =>
      dsimp only
      have hsub : ∀ completedAt, completedAt ∈ completionsOf
          (rows.filter fun row => !expired.contains row.id) id →
          completedAt ∈ completionsOf rows id := by
        intro completedAt hmem
        obtain ⟨row, hrow, hrest⟩ := mem_completionsOf.mp hmem
        exact mem_completionsOf.mpr ⟨row, List.mem_of_mem_filter hrow, hrest⟩
      rw [get?_newestReceipts, get?_newestReceipts]
      change (completionsOf _ id).foldl _ none = (completionsOf rows id).foldl _ none
      obtain ⟨hnone, hempty⟩ | ⟨kept, hkept, hkeptMem, hkeptAll⟩ :=
        @foldl_seen_newest dateParse (completionsOf rows id)
      · have hsmall : completionsOf (rows.filter fun row => !expired.contains row.id) id = [] := by
          apply List.eq_nil_iff_forall_not_mem.mpr
          intro completedAt hmem
          have hall := hsub completedAt hmem
          rw [hempty] at hall
          cases hall
        rw [hnone, hsmall]
        rfl
      · obtain ⟨row, hrow, htarget, hcurrent, hnewest⟩ :=
          @exists_current_row dateParse _ _ _ hkeptMem
        have hid : id ≠ "" := by
          obtain ⟨_, _, _, hne, _⟩ := mem_completionsOf.mp hkeptMem
          exact hne
        have hmem : row.completedAt ∈ completionsOf rows id :=
          mem_completionsOf.mpr ⟨row, hrow, htarget, hid, rfl⟩
        have hstays : row ∈ rows.filter fun row => !expired.contains row.id := by
          rw [List.mem_filter]
          have hnot := not_expired_of_current hactive hexpired hcurrent
          refine ⟨hrow, ?_⟩
          rw [Bool.not_eq_true']
          exact Bool.eq_false_iff.mpr fun h => hnot (List.contains_iff_mem.mp h)
        have hmem' : row.completedAt ∈ completionsOf
            (rows.filter fun row => !expired.contains row.id) id :=
          mem_completionsOf.mpr ⟨row, hstays, htarget, hid, rfl⟩
        have hsame := eq_of_retention_newest hread (hreadable id) hmem hnewest hkeptMem
          (hkeptAll _ hmem)
        obtain ⟨hnone', hempty'⟩ | ⟨kept', hkept', hkeptMem', hkeptAll'⟩ :=
          @foldl_seen_newest dateParse
            (completionsOf (rows.filter fun row => !expired.contains row.id) id)
        · rw [hempty'] at hmem'
          cases hmem'
        · have hsame' := eq_of_retention_newest hread (hreadable id) hmem hnewest
            (hsub kept' hkeptMem') (hkeptAll' _ hmem')
          rw [hkept, hkept', hsame, hsame']

/-! ## Deadlines -/

theorem receiptExpired_of_base {base : String}
    (h : retentionBase dateParse receipt context = .ok (some base)) :
    receiptExpired dateParse receipt context =
      if (plainDateMatch base).isNone then .ok false
      else (addMonthsToKey base (context.years * 12)).map fun due => decide (due < context.todayKey) := by
  unfold receiptExpired
  rw [h]
  change (if (plainDateMatch base).isNone then Except.ok false else _) = _
  split
  · rfl
  · cases addMonthsToKey base (context.years * 12) <;> rfl

/-- A later day past the retention. -/
theorem receiptExpired_mono (hle : context.todayKey ≤ laterDay) {expired : Bool}
    (h : receiptExpired dateParse receipt context = .ok expired) :
    ∃ expired', receiptExpired dateParse receipt { context with todayKey := laterDay } =
      .ok expired' ∧ (expired = true → expired' = true) := by
  have hbase : retentionBase dateParse receipt { context with todayKey := laterDay } =
      retentionBase dateParse receipt context := by
    simp only [retentionBase]
  cases hcase : retentionBase dateParse receipt context with
  | error e =>
      unfold receiptExpired at h
      rw [hcase] at h
      cases h
  | ok found =>
      cases found with
      | none =>
          refine ⟨false, ?_, ?_⟩
          · unfold receiptExpired
            rw [hbase, hcase]
            rfl
          · intro htrue
            unfold receiptExpired at h
            rw [hcase, htrue] at h
            cases h
      | some base =>
          rw [receiptExpired_of_base hcase] at h
          rw [receiptExpired_of_base (hbase.trans hcase)]
          split
          · rename_i hno
            rw [if_pos hno] at h
            exact ⟨expired, h, fun htrue => htrue⟩
          · rename_i hyes
            rw [if_neg hyes] at h
            obtain ⟨due, hdue, h⟩ := bind_eq_ok.mp h
            refine ⟨decide (due < laterDay), by rw [hdue]; rfl, ?_⟩
            intro htrue
            have hlt : decide (due < context.todayKey) = expired := Except.ok.inj h
            rw [htrue] at hlt
            exact decide_eq_true (lt_of_lt_of_le (of_decide_eq_true hlt) hle)

/-- What is past its retention on a day is past it on every later day. -/
theorem expiredIds_mono (hle : todayKey ≤ laterDay)
    (h : expiredIds dateParse rows anonymisedAt todayKey years timeZone = .ok expired) :
    ∃ expired', expiredIds dateParse rows anonymisedAt laterDay years timeZone = .ok expired' ∧
      ∀ id ∈ expired, id ∈ expired' := by
  obtain ⟨hread, hmem⟩ := expiredIds_spec h
  obtain ⟨expired', hexpired'⟩ := exists_expiredIds fun receipt hreceipt => by
    obtain ⟨past, hpast⟩ := hread receipt hreceipt
    obtain ⟨past', hpast', -⟩ := receiptExpired_mono hle hpast
    exact ⟨past', hpast'⟩
  refine ⟨expired', hexpired', fun id hid => ?_⟩
  obtain ⟨receipt, hreceipt, hown, hpast⟩ := (hmem id).mp hid
  obtain ⟨past', hpast', himp⟩ := receiptExpired_mono hle hpast
  rw [himp rfl] at hpast'
  exact ((expiredIds_spec hexpired').2 id).mpr ⟨receipt, hreceipt, hown, hpast'⟩

theorem plain_of_addMonthsToKey {value : String} (h : addMonthsToKey value months = .ok due) :
    isPlainDate value = true := by
  cases hplain : isPlainDate value with
  | true => rfl
  | false =>
      rw [addMonthsToKey_error hplain] at h
      cases h

/-- A day that is not earlier is not due earlier, as long as its due day has a key. -/
theorem addMonthsToKey_le {first second : String} (hfirst : isPlainDate first = true)
    (hle : first ≤ second) (hsecond : addMonthsToKey second months = .ok due)
    (hdue : isPlainDate due = true) :
    ∃ sooner, addMonthsToKey first months = .ok sooner ∧ sooner ≤ due := by
  obtain ⟨a, ha, rfl⟩ := key_of_isPlainDate hfirst
  obtain ⟨b, hb, rfl⟩ := key_of_isPlainDate (plain_of_addMonthsToKey hsecond)
  rw [addMonthsToKey_key hb] at hsecond
  rw [← Except.ok.inj hsecond] at hdue ⊢
  have hdays : a.dayNumber ≤ b.dayNumber := by
    by_contra hlater
    exact absurd hle (not_le.mpr ((key_lt_iff hb ha).mpr (by omega)))
  have hmonths := Date.addMonths_le months hdays
  have hyears := Date.year_le_of_dayNumber_le hmonths
  have hlast : (b.addMonths months).year ≤ 9999 := by
    by_contra hlate
    have hlong := isPlainDate_late (b.addMonths months).month (b.addMonths months).day
      (not_le.mp hlate)
    rw [key, hlong] at hdue
    cases hdue
  have hcentury := ha.1
  have hgrows := year_le_addMonths a months
  have hgrows' := year_le_addMonths b months
  have hwritten : IsWritten (a.addMonths months) := ⟨by omega, by omega⟩
  have hwritten' : IsWritten (b.addMonths months) := ⟨by have := hb.1; omega, hlast⟩
  refine ⟨key (a.addMonths months), addMonthsToKey_key ha months, ?_⟩
  rw [← not_lt, key_lt_iff hwritten' hwritten]
  omega

/-- An anonymisation lets no receipt with a known due day go earlier than it
would have gone when superseded. -/
theorem superseded_of_anonymised (context : RetentionContext) {validUntil : String}
    (hvalid : validityOf receipt.snapshot = .until validUntil)
    (hplain : isPlainDate validUntil = true)
    (hdeadline : ∀ base due, retentionBase dateParse receipt context = .ok (some base) →
      addMonthsToKey base (context.years * 12) = .ok due → isPlainDate due = true)
    {anonymisedAt : String} (hanonymised : context.anonymisedAt = some anonymisedAt)
    (h : receiptExpired dateParse receipt context = .ok true) :
    receiptExpired dateParse receipt { context with current := false, anonymisedAt := none } =
      .ok true := by
  have hsuperseded : retentionBase dateParse receipt
      { context with current := false, anonymisedAt := none } = .ok (some validUntil) := by
    simp only [retentionBase, hvalid]
    rfl
  obtain ⟨day, hday, hkey⟩ := key_of_isPlainDate hplain
  have hmatch : (plainDateMatch validUntil).isNone = false := by
    rw [hkey, plainDateMatch_key (by have := hday.1; omega) hday.2]
    rfl
  rw [receiptExpired_of_base hsuperseded, hmatch]
  cases hleft : instantEpochMs dateParse anonymisedAt with
  | none =>
      have hbase : retentionBase dateParse receipt context = .ok none := by
        simp only [retentionBase, hanonymised, hleft]
        rfl
      unfold receiptExpired at h
      rw [hbase] at h
      cases h
  | some leftMs =>
      have hbase : retentionBase dateParse receipt context =
          .ok (some (laterKey validUntil (zonedDateKeyOfMs leftMs context.timeZone))) := by
        simp only [retentionBase, hanonymised, hleft, hvalid]
        rfl
      have hle : validUntil ≤ laterKey validUntil (zonedDateKeyOfMs leftMs context.timeZone) := by
        unfold laterKey
        split
        · exact le_rfl
        · rename_i hnot
          exact not_lt.mp hnot
      rw [receiptExpired_of_base hbase] at h
      split at h
      · cases h
      · cases hdue : addMonthsToKey
            (laterKey validUntil (zonedDateKeyOfMs leftMs context.timeZone)) (context.years * 12) with
        | error e =>
            rw [hdue] at h
            cases h
        | ok due =>
            rw [hdue] at h
            have hpast : decide (due < context.todayKey) = true := Except.ok.inj h
            obtain ⟨sooner, hsooner, hsoonerLe⟩ := addMonthsToKey_le hplain hle hdue
              (hdeadline _ due hbase hdue)
            push_cast at hsooner
            dsimp only
            rw [hsooner]
            have hlt := lt_of_le_of_lt hsoonerLe (of_decide_eq_true hpast)
            have hdecide : decide (sooner < context.todayKey) = true := decide_eq_true hlt
            change Except.ok (decide (sooner < context.todayKey)) = Except.ok true
            rw [hdecide]

/-- Pruning a person's receipts changes no validity, an anonymisation keeps a
receipt with a known due day at least as long, and what is past its retention
stays past it. -/
theorem training_pruning_safe (hread : ReadsCanonical dateParse) (years : Nat) (timeZone : Zone) :
    (∀ rows anonymisedAt todayKey, (∀ id, Readable dateParse (completionsOf rows id)) →
      publicationStamp dateParse anonymisedAt = none →
      ∀ validityMonths day zone lessonIds,
        courseFromRows dateParse validityMonths day zone lessonIds
          ((pruneTrainingEvidence dateParse rows anonymisedAt todayKey years timeZone).map
            StoredReceipt.receiptRow) =
        courseFromRows dateParse validityMonths day zone lessonIds
          (rows.map StoredReceipt.receiptRow)) ∧
    (∀ (receipt : GroupedReceipt) (current : Bool) (anonymisedAt todayKey validUntil : String),
      validityOf receipt.snapshot = .until validUntil → isPlainDate validUntil = true →
      (∀ base due,
        retentionBase dateParse receipt ⟨current, some anonymisedAt, todayKey, years, timeZone⟩ =
          .ok (some base) →
        addMonthsToKey base (years * 12) = .ok due → isPlainDate due = true) →
      receiptExpired dateParse receipt ⟨current, some anonymisedAt, todayKey, years, timeZone⟩ =
        .ok true →
      receiptExpired dateParse receipt ⟨false, none, todayKey, years, timeZone⟩ = .ok true) ∧
    (∀ rows anonymisedAt todayKey laterDay expired, todayKey ≤ laterDay →
      expiredIds dateParse rows anonymisedAt todayKey years timeZone = .ok expired →
      ∃ expired', expiredIds dateParse rows anonymisedAt laterDay years timeZone = .ok expired' ∧
        ∀ id ∈ expired, id ∈ expired') := by
  refine ⟨?_, ?_, ?_⟩
  · intro rows anonymisedAt todayKey hreadable hactive validityMonths day zone lessonIds
    have hnewest := newestReceipts_prune hread hreadable hactive todayKey years timeZone
    unfold courseFromRows
    rw [courseValidity_congr hnewest]
  · intro receipt current anonymisedAt todayKey validUntil hvalid hplain hdeadline hexpired
    exact superseded_of_anonymised ⟨current, some anonymisedAt, todayKey, years, timeZone⟩ hvalid
      hplain hdeadline rfl hexpired
  · intro rows anonymisedAt todayKey laterDay expired hle hexpired
    exact expiredIds_mono hle hexpired

/-! ## Histories -/

theorem nodup_receiptsOf (hids : (rows.map StoredReceipt.id).Nodup) :
    ((receiptsOf dateParse rows).map GroupedReceipt.id).Nodup := by
  refine List.Sublist.nodup ?_ hids
  clear hids
  induction rows with
  | nil => exact List.Sublist.refl _
  | cons row rows ih =>
      unfold receiptsOf at ih ⊢
      cases htarget : row.targetDocumentId with
      | none =>
          rw [List.filterMap_cons_none (by rw [htarget]; rfl), List.map_cons]
          exact ih.cons _
      | some lesson =>
          rw [List.filterMap_cons_some (by rw [htarget]; rfl), List.map_cons, List.map_cons]
          exact ih.cons_cons _

section

variable {all : List GroupedReceipt}

/-- The others of a person count by the newest receipts only, and not after an anonymisation. -/
theorem judged_congr (h : context.anonymisedAt = none →
      (receipt.id ∈ currentReceiptIds dateParse receipts ↔
        receipt.id ∈ currentReceiptIds dateParse all)) :
    judged dateParse receipts context receipt = judged dateParse all context receipt := by
  cases hstamp : context.anonymisedAt with
  | none => simp only [judged, List.contains_eq_mem, h hstamp]
  | some stamp => simp only [judged, receiptExpired, retentionBase, hstamp]

variable (hids : (all.map GroupedReceipt.id).Nodup) (hsub : receipts ⊆ all)
include hids hsub

/-- Among fewer receipts the newest one stays the newest. -/
theorem newestOf_of_subset (hnewest : newestOf dateParse all lesson = some receipt)
    (hmem : receipt ∈ receipts) : newestOf dateParse receipts lesson = some receipt := by
  obtain ⟨hin, hlesson⟩ := newestOf_mem hnewest
  obtain ⟨own, hown, hle⟩ := @exists_newestOf dateParse _ _ hmem
  obtain ⟨hownIn, hownLesson⟩ := newestOf_mem hown
  obtain ⟨top, htop, hall⟩ := @exists_newestOf dateParse _ _ hin
  rw [hlesson, hnewest] at htop
  cases htop
  have hrank := le_antisymm (hall own (hsub hownIn) hownLesson) (hle receipt hmem rfl)
  have hid : own.id = receipt.id := congrArg Prod.snd (toLex.injective hrank)
  rw [← hlesson, hown, List.inj_on_of_nodup_map hids (hsub hownIn) hin hid]

theorem current_of_subset (hmem : receipt ∈ receipts)
    (hcurrent : receipt.id ∈ currentReceiptIds dateParse all) :
    receipt.id ∈ currentReceiptIds dateParse receipts := by
  obtain ⟨lesson, newest, hnewest, hid⟩ := mem_currentReceiptIds.mp hcurrent
  have hsame := List.inj_on_of_nodup_map hids (newestOf_mem hnewest).1 (hsub hmem) hid
  rw [hsame] at hnewest
  exact mem_currentReceiptIds.mpr ⟨lesson, receipt, newestOf_of_subset hids hsub hnewest hmem, rfl⟩

/-- A receipt past its retention is past it beside more receipts. -/
theorem judged_of_subset (hmem : receipt ∈ receipts)
    (hpast : judged dateParse receipts context receipt = .ok true) :
    judged dateParse all context receipt = .ok true := by
  rw [← hpast]
  refine (judged_congr fun hactive => ?_).symm
  have hold : receipt.id ∉ currentReceiptIds dateParse receipts := by
    intro hcurrent
    rw [judged_current hactive hcurrent] at hpast
    cases hpast
  exact iff_of_false hold fun h => hold (current_of_subset hids hsub hmem h)

/-- Without receipts past their retention the others are judged as before. -/
theorem judged_of_kept (hmem : receipt ∈ receipts)
    (hkept : ∀ other ∈ all, judged dateParse all context other ≠ .ok true → other ∈ receipts) :
    judged dateParse receipts context receipt = judged dateParse all context receipt := by
  refine judged_congr fun hactive => ⟨fun hcurrent => ?_, current_of_subset hids hsub hmem⟩
  obtain ⟨lesson, newest, hnewest, hid⟩ := mem_currentReceiptIds.mp hcurrent
  obtain ⟨hin, hlesson⟩ := newestOf_mem hnewest
  obtain ⟨top, htop, -⟩ := @exists_newestOf dateParse _ _ (hsub hin)
  have htopCurrent := mem_currentReceiptIds.mpr ⟨_, top, htop, rfl⟩
  have htopKept : top ∈ receipts := by
    apply hkept top (newestOf_mem htop).1
    rw [judged_current hactive htopCurrent]
    intro h
    cases h
  have hsame := newestOf_of_subset hids hsub htop htopKept
  rw [hlesson, hnewest] at hsame
  cases hsame
  rw [← hid]
  exact htopCurrent

end

theorem receiptsOf_kept (gone : List Nat) :
    receiptsOf dateParse (rows.filter fun row => !gone.contains row.id) =
      (receiptsOf dateParse rows).filter fun receipt => !gone.contains receipt.id := by
  unfold receiptsOf
  rw [List.filterMap_filter, List.filter_filterMap]
  congr 1
  funext row
  cases row.targetDocumentId with
  | none => simp
  | some lesson =>
      by_cases hgone : row.id ∈ gone <;> simp [hgone, Option.filter]

/-- What earlier runs left: all that they took is past its retention in a later one. -/
def Remains (dateParse : String → Option Int) (later : RetentionContext) (all rows : List StoredReceipt) :
    Prop :=
  ∃ gone : List Nat, rows = all.filter (fun row => !gone.contains row.id) ∧
    ∀ id ∈ gone, ∃ receipt ∈ receiptsOf dateParse all, receipt.id = id ∧
      judged dateParse (receiptsOf dateParse all) later receipt = .ok true

section

variable {all : List StoredReceipt} {lastDay : String}

theorem Remains.subset (h : Remains dateParse context all rows) :
    receiptsOf dateParse rows ⊆ receiptsOf dateParse all := by
  obtain ⟨gone, rfl, -⟩ := h
  rw [receiptsOf_kept]
  exact fun _ hmem => List.mem_of_mem_filter hmem

theorem Remains.completed {row : StoredReceipt} (hids : ((all ++ [row]).map StoredReceipt.id).Nodup)
    (h : Remains dateParse context all rows) :
    Remains dateParse context (all ++ [row]) (rows ++ [row]) := by
  obtain ⟨gone, rfl, hgone⟩ := h
  have hsub : receiptsOf dateParse all ⊆ receiptsOf dateParse (all ++ [row]) := by
    unfold receiptsOf
    rw [List.filterMap_append]
    exact List.subset_append_left _ _
  have hnew : row.id ∉ gone := by
    intro hmem
    obtain ⟨receipt, hreceipt, hid, -⟩ := hgone row.id hmem
    obtain ⟨stored, hstored, hmap⟩ := List.mem_filterMap.mp hreceipt
    obtain ⟨lesson, -, rfl⟩ := Option.map_eq_some_iff.mp hmap
    rw [List.map_append, List.nodup_append] at hids
    exact hids.2.2 _ (List.mem_map_of_mem hstored) row.id (List.mem_singleton_self _) hid
  refine ⟨gone, ?_, fun id hid => ?_⟩
  · rw [List.filter_append, List.filter_cons_of_pos (by simpa using hnew), List.filter_nil]
  · obtain ⟨receipt, hmem, hown, hpast⟩ := hgone id hid
    exact ⟨receipt, hsub hmem, hown, judged_of_subset (nodup_receiptsOf hids) hsub hmem hpast⟩

theorem Remains.pruned (hids : (all.map StoredReceipt.id).Nodup) (hle : todayKey ≤ lastDay)
    (h : Remains dateParse (runOn dateParse anonymisedAt lastDay years timeZone) all rows) :
    Remains dateParse (runOn dateParse anonymisedAt lastDay years timeZone) all
      (pruneTrainingEvidence dateParse rows anonymisedAt todayKey years timeZone) := by
  unfold pruneTrainingEvidence
  cases hexpired : expiredIds dateParse rows anonymisedAt todayKey years timeZone with
  | error e => exact h
  | ok expired =>
      have hsub := h.subset
      obtain ⟨gone, hrows, hgone⟩ := h
      refine ⟨expired ++ gone, ?_, fun id hid => ?_⟩
      · dsimp only
        rw [hrows, List.filter_filter]
        simp
      · obtain hid | hid := List.mem_append.mp hid
        · obtain ⟨receipt, hmem, hown, hpast⟩ := ((expiredIds_spec hexpired).2 id).mp hid
          obtain ⟨past, hpast', himp⟩ := receiptExpired_mono hle hpast
          rw [himp rfl] at hpast'
          exact ⟨receipt, hsub hmem, hown,
            judged_of_subset (nodup_receiptsOf hids) hsub hmem hpast'⟩
        · exact hgone id hid

/-- The last run takes what it would have taken of everything. -/
theorem Remains.last (hids : (all.map StoredReceipt.id).Nodup)
    (h : Remains dateParse (runOn dateParse anonymisedAt lastDay years timeZone) all rows)
    (hexpired : expiredIds dateParse all anonymisedAt lastDay years timeZone = .ok expired) :
    pruneTrainingEvidence dateParse rows anonymisedAt lastDay years timeZone =
      pruneTrainingEvidence dateParse all anonymisedAt lastDay years timeZone := by
  have hsub := h.subset
  have hgroups := @nodup_receiptsOf dateParse _ hids
  obtain ⟨gone, rfl, hgone⟩ := h
  obtain ⟨hread, htaken⟩ := expiredIds_spec hexpired
  have hkept : ∀ receipt ∈ receiptsOf dateParse all, receipt.id ∉ gone →
      receipt ∈ receiptsOf dateParse (all.filter fun row => !gone.contains row.id) := by
    intro receipt hmem hnot
    rw [receiptsOf_kept]
    exact List.mem_filter.mpr ⟨hmem, by simpa using hnot⟩
  have hsame := fun receipt (hmem : receipt ∈ receiptsOf dateParse _) => judged_of_kept hgroups hsub hmem
    fun other hother hnot => hkept other hother fun hin => by
      obtain ⟨taken, htaken, hid, hpast⟩ := hgone other.id hin
      rw [List.inj_on_of_nodup_map hgroups htaken hother hid] at hpast
      exact hnot hpast
  obtain ⟨expired', hexpired'⟩ := exists_expiredIds fun receipt hmem => by
    rw [hsame receipt hmem]
    exact hread receipt (hsub hmem)
  have htaken' := (expiredIds_spec hexpired').2
  have htook : ∀ id, id ∈ expired ↔ id ∈ expired' ∨ id ∈ gone := by
    intro id
    rw [htaken, htaken']
    constructor
    · rintro ⟨receipt, hmem, rfl, hpast⟩
      by_cases hin : receipt.id ∈ gone
      · exact Or.inr hin
      · have hmem' := hkept receipt hmem hin
        rw [← hsame receipt hmem'] at hpast
        exact Or.inl ⟨receipt, hmem', rfl, hpast⟩
    · rintro (⟨receipt, hmem, rfl, hpast⟩ | hid)
      · rw [hsame receipt hmem] at hpast
        exact ⟨receipt, hsub hmem, rfl, hpast⟩
      · exact hgone id hid
  unfold pruneTrainingEvidence
  rw [hexpired, hexpired']
  dsimp only
  rw [List.filter_filter]
  refine List.filter_congr fun row _ => ?_
  rw [Bool.eq_iff_iff]
  simp [htook]

end

theorem remains_of_history {history : List TrainingEvent} {lastDay : String}
    (hids : ((completedIn history).map StoredReceipt.id).Nodup)
    (hdays : ∀ day, .pruned day ∈ history → day ≤ lastDay) :
    Remains dateParse (runOn dateParse anonymisedAt lastDay years timeZone) (completedIn history)
      (history.foldl (trainingNext dateParse anonymisedAt years timeZone) []) := by
  induction history using List.reverseRecOn with
  | nil => exact ⟨[], rfl, fun _ h => absurd h List.not_mem_nil⟩
  | append_singleton history event ih =>
      have hall : completedIn (history ++ [event]) = completedIn history ++ completedIn [event] :=
        List.filterMap_append
      rw [hall] at hids ⊢
      have hbefore := ih ((List.nodup_append.mp (List.map_append ▸ hids)).1)
        fun day hmem => hdays day (List.mem_append_left _ hmem)
      rw [List.foldl_append]
      cases event with
      | completed row => exact hbefore.completed hids
      | pruned day =>
          have hnone : completedIn [.pruned day] = [] := rfl
          rw [hnone, List.append_nil] at hids ⊢
          exact hbefore.pruned hids (hdays day (List.mem_append_right _ (List.mem_singleton_self _)))

/-- After any history of completions and nightly runs, a run leaves what it
would have left of every receipt ever completed. -/
theorem last_pruning_decides (anonymisedAt : Option String) (years : Nat) (timeZone : Zone)
    (history : List TrainingEvent) (lastDay : String)
    (hids : ((completedIn history).map StoredReceipt.id).Nodup)
    (hdays : ∀ day, .pruned day ∈ history → day ≤ lastDay)
    (hcounts : ∃ expired, expiredIds dateParse (completedIn history) anonymisedAt lastDay years
      timeZone = .ok expired) :
    pruneTrainingEvidence dateParse (history.foldl
        (trainingNext dateParse anonymisedAt years timeZone) []) anonymisedAt lastDay years timeZone =
      pruneTrainingEvidence dateParse (completedIn history) anonymisedAt lastDay years timeZone := by
  obtain ⟨expired, hexpired⟩ := hcounts
  exact (remains_of_history hids hdays).last hids hexpired

end

/-! ## A person with two receipts -/

/-- A receipt that was due in 2022, and its renewal. -/
def renewedReceipts : List StoredReceipt :=
  [⟨1, some "a", some "2024-02-29T10:00:00.000Z", some ⟨some "2022-02-28", false⟩⟩,
    ⟨2, some "a", some "2026-01-31T10:00:00.000Z", some ⟨some "2027-01-31", false⟩⟩]

/-- The superseded receipt goes, and the course stays as it was. -/
theorem training_pruning_safe_renewed :
    (pruneTrainingEvidence parseCanonical renewedReceipts none "2026-06-01" 3 utc).map
        StoredReceipt.id = [2] ∧
    courseFromRows parseCanonical (some 12) "2026-06-01" utc ["a"]
        ((pruneTrainingEvidence parseCanonical renewedReceipts none "2026-06-01" 3 utc).map
          StoredReceipt.receiptRow) =
      courseFromRows parseCanonical (some 12) "2026-06-01" utc ["a"]
        (renewedReceipts.map StoredReceipt.receiptRow) := by
  constructor
  · decide +kernel
  · apply (training_pruning_safe readsCanonical_parseCanonical 3 utc).1
    · intro id text hmem
      obtain ⟨row, hrow, -, -, hcompleted⟩ := mem_completionsOf.mp hmem
      obtain rfl | rfl := List.mem_pair.mp hrow
      · exact Or.inl (isCanonical_2024 text hcompleted)
      · exact Or.inl (isCanonical_2026 text hcompleted)
    · rfl

/-- The renewal arrives between two nightly runs, and the run after its own
deadline still sees what it would have seen of both receipts. -/
theorem last_pruning_decides_renewed :
    let history : List TrainingEvent := renewedReceipts.flatMap
      fun row => [.completed row, .pruned "2026-03-01"]
    (history.foldl (trainingNext parseCanonical none 3 utc) []).map StoredReceipt.id = [2] ∧
    pruneTrainingEvidence parseCanonical (history.foldl (trainingNext parseCanonical none 3 utc) [])
        none "2026-06-01" 3 utc =
      pruneTrainingEvidence parseCanonical renewedReceipts none "2026-06-01" 3 utc := by
  refine ⟨by decide +kernel, ?_⟩
  refine last_pruning_decides none 3 utc _ "2026-06-01"
    (by decide) ?_ ⟨[1], by decide +kernel⟩
  intro day hday
  simp only [renewedReceipts, List.flatMap_cons, List.flatMap_nil, List.append_nil,
    List.cons_append, List.nil_append, List.mem_cons, reduceCtorEq, TrainingEvent.pruned.injEq,
    List.not_mem_nil, or_false, false_or, or_self] at hday
  subst hday
  decide

/-- Two receipts without a readable instant are told apart by the validity rules
only; a receipt that never expired goes some years after the person left; and a
deadline after the year 9999 is compared as a text. -/
theorem pruning_changes_completion :
    ReadsCanonical parseCanonical ∧
    courseFromRows parseCanonical none "2026-06-01" utc ["a"]
        ([⟨1, some "a", some "garbage", some ⟨some "2020-01-01", false⟩⟩,
          ⟨2, some "a", none, none⟩].map StoredReceipt.receiptRow) =
      .ok ⟨1, 1, .done, none, some "garbage"⟩ ∧
    courseFromRows parseCanonical none "2026-06-01" utc ["a"]
        ((pruneTrainingEvidence parseCanonical
          [⟨1, some "a", some "garbage", some ⟨some "2020-01-01", false⟩⟩,
            ⟨2, some "a", none, none⟩] none "2026-06-01" 3 utc).map StoredReceipt.receiptRow) =
      .ok ⟨1, 1, .done, none, none⟩ ∧
    receiptExpired parseCanonical ⟨1, "a", none, some ⟨none, false⟩⟩
        ⟨true, some "2024-02-29T10:00:00.000Z", "2027-06-01", 3, utc⟩ = .ok true ∧
    receiptExpired parseCanonical ⟨1, "a", none, some ⟨none, false⟩⟩
        ⟨false, none, "2027-06-01", 3, utc⟩ = .ok false ∧
    receiptExpired parseCanonical ⟨1, "a", none, some ⟨some "9990-01-01", false⟩⟩
        ⟨true, some "9999-01-31T10:00:00.000Z", "2026-06-01", 3, utc⟩ = .ok true ∧
    receiptExpired parseCanonical ⟨1, "a", none, some ⟨some "9990-01-01", false⟩⟩
        ⟨false, none, "2026-06-01", 3, utc⟩ = .ok false := by
  exact ⟨readsCanonical_parseCanonical, by decide +kernel, by decide +kernel, by decide +kernel,
    by decide +kernel, by decide +kernel, by decide +kernel⟩

end Sinnlos.Cms.Evidence

import Sinnlos.Domain.Instants
import Sinnlos.Domain.Training

/-!
# Receipts in any order

Which receipt of a lesson is the newest does not depend on the order of the
rows, as long as every row has no completion instant or a canonical one: the
newest is the latest of them, and two canonical instants of one time are one
text.
-/

namespace Sinnlos.Domain

section

variable {dateParse : String → Option Int}

/-- No completion instant, or a canonical one. -/
def IsCanonical (completedAt : Option String) : Prop :=
  ∀ text, completedAt = some text → ∃ instant : Instant, text = instant.toISOString

theorem epochMsOrZero_canonical (hread : ReadsCanonical dateParse) (instant : Instant) :
    epochMsOrZero dateParse instant.toISOString = instant.epochMs := by
  rw [epochMsOrZero, instantEpochMs_canonical hread]
  rfl

/-- What is kept is one of the two receipts. -/
theorem keepNewest_cases (kept completedAt : Option String) :
    keepNewest dateParse kept completedAt = kept ∨
      keepNewest dateParse kept completedAt = completedAt := by
  unfold keepNewest
  split
  · exact Or.inl rfl
  · exact Or.inr rfl
  · split
    · exact Or.inr rfl
    · exact Or.inl rfl

variable {a b : Option String}

/-- Of two canonical receipts the same one is kept in either order. -/
theorem keepNewest_comm (hread : ReadsCanonical dateParse) (ha : IsCanonical a)
    (hb : IsCanonical b) (kept : Option String) :
    keepNewest dateParse (keepNewest dateParse kept a) b =
      keepNewest dateParse (keepNewest dateParse kept b) a := by
  cases a with
  | none => cases b <;> rfl
  | some first =>
      cases b with
      | none => rfl
      | some second =>
          obtain ⟨i, hi⟩ := ha first rfl
          obtain ⟨j, hj⟩ := hb second rfl
          have hfirst := epochMsOrZero_canonical hread i
          have hsecond := epochMsOrZero_canonical hread j
          rw [← hi] at hfirst
          rw [← hj] at hsecond
          have hsame : i.epochMs = j.epochMs → first = second := by
            intro heq
            rw [hi, hj, Instant.toISOString_eq_of_epochMs heq]
          cases kept with
          | none =>
              simp only [keepNewest, hfirst, hsecond]
              split
              · rw [if_neg (by omega)]
              · split
                · rfl
                · rw [hsame (by omega)]
          | some newest =>
              simp only [keepNewest]
              by_cases hone : epochMsOrZero dateParse first > epochMsOrZero dateParse newest <;>
                by_cases htwo : epochMsOrZero dateParse second > epochMsOrZero dateParse newest <;>
                simp only [hone, htwo, if_true, if_false]
              · rw [hfirst, hsecond]
                split
                · rw [if_neg (by omega)]
                · split
                  · rfl
                  · rw [hsame (by omega)]
              · rw [if_neg (by omega)]
              · rw [if_neg (by omega)]

/-! ## What is kept for a lesson -/

/-- What is known of a lesson after one more of its receipts. -/
def seen (dateParse : String → Option Int) (known : Option (Option String))
    (completedAt : Option String) : Option (Option String) :=
  match known with
  | none => some completedAt
  | some kept => some (keepNewest dateParse kept completedAt)

theorem seen_comm (hread : ReadsCanonical dateParse) (ha : IsCanonical a) (hb : IsCanonical b)
    (known : Option (Option String)) :
    seen dateParse (seen dateParse known a) b = seen dateParse (seen dateParse known b) a := by
  cases known with
  | none =>
      have hcomm := keepNewest_comm hread ha hb none
      have hfirst : keepNewest dateParse none a = a := by cases a <;> rfl
      have hsecond : keepNewest dateParse none b = b := by cases b <;> rfl
      rw [hfirst, hsecond] at hcomm
      simp only [seen, hcomm]
  | some kept => simp only [seen, keepNewest_comm hread ha hb kept]

/-- The row is a receipt of the lesson. -/
def ReceiptRow.isFor (id : String) (row : ReceiptRow) : Bool :=
  row.targetDocumentId = some id ∧ id ≠ ""

theorem get?_noteReceipt (newest : OrderedMap String (Option String)) (row : ReceiptRow)
    (id : String) :
    (noteReceipt dateParse newest row).get? id =
      if row.isFor id then seen dateParse (newest.get? id) row.completedAt
      else newest.get? id := by
  unfold noteReceipt ReceiptRow.isFor
  cases htarget : row.targetDocumentId with
  | none => simp
  | some target =>
      dsimp only
      by_cases hempty : target = ""
      · rw [if_pos hempty]
        by_cases hid : target = id
        · simp [← hid, hempty]
        · simp [hid]
      · rw [if_neg hempty]
        by_cases hid : target = id
        · rw [← hid, if_pos (by simpa using hempty)]
          cases hknown : newest.get? target with
          | none | some kept => simp [seen]
        · rw [if_neg (by simp [hid])]
          have hne : id ≠ target := fun heq => hid heq.symm
          cases hknown : newest.get? target with
          | none | some kept => exact newest.get?_set_of_ne _ hne

/-- The completion instants of a lesson, in the order of the rows. -/
def receiptsOf (rows : List ReceiptRow) (id : String) : List (Option String) :=
  (rows.filter (ReceiptRow.isFor id)).map ReceiptRow.completedAt

theorem get?_foldl (rows : List ReceiptRow) (newest : OrderedMap String (Option String))
    (id : String) :
    (rows.foldl (noteReceipt dateParse) newest).get? id =
      (receiptsOf rows id).foldl (seen dateParse) (newest.get? id) := by
  induction rows generalizing newest with
  | nil => rfl
  | cons row rows ih =>
      rw [List.foldl_cons, ih, get?_noteReceipt, receiptsOf, receiptsOf]
      by_cases hrow : row.isFor id = true
      · rw [List.filter_cons_of_pos hrow, if_pos hrow]
        rfl
      · rw [List.filter_cons_of_neg hrow, if_neg hrow]

/-- What is known of a lesson comes from its own receipts. -/
theorem get?_newestReceipts (rows : List ReceiptRow) (id : String) :
    (newestReceipts dateParse rows).get? id =
      (receiptsOf rows id).foldl (seen dateParse) none := by
  rw [newestReceipts, get?_foldl]
  rfl

/-- Rows without a completion instant or with a canonical one. -/
def CanonicalRows (rows : List ReceiptRow) : Prop := ∀ row ∈ rows, IsCanonical row.completedAt

variable {rows : List ReceiptRow} {id : String} {rows' : List ReceiptRow}

theorem isCanonical_receiptsOf (h : CanonicalRows rows) {completedAt : Option String}
    (hmem : completedAt ∈ receiptsOf rows id) : IsCanonical completedAt := by
  obtain ⟨row, hrow, rfl⟩ := List.mem_map.mp hmem
  exact h row (List.mem_of_mem_filter hrow)

/-- The order of the rows does not matter for any lesson. -/
theorem get?_newestReceipts_perm (hread : ReadsCanonical dateParse) (hrows : CanonicalRows rows)
    (hperm : rows.Perm rows') (id : String) :
    (newestReceipts dateParse rows).get? id = (newestReceipts dateParse rows').get? id := by
  have hreceipts : (receiptsOf rows id).Perm (receiptsOf rows' id) :=
    (hperm.filter (ReceiptRow.isFor id)).map ReceiptRow.completedAt
  rw [get?_newestReceipts, get?_newestReceipts]
  apply hreceipts.foldl_eq'
  intro a ha b hb known
  exact seen_comm hread (isCanonical_receiptsOf hrows ha) (isCanonical_receiptsOf hrows hb) known

/-- A row more is noted on top of the others, wherever it stands. -/
theorem get?_newestReceipts_cons (hread : ReadsCanonical dateParse) {row : ReceiptRow}
    (hrows : CanonicalRows (row :: rows)) (hperm : rows'.Perm (row :: rows)) (id : String) :
    (newestReceipts dateParse rows').get? id =
      if row.isFor id then seen dateParse ((newestReceipts dateParse rows).get? id) row.completedAt
      else (newestReceipts dateParse rows).get? id := by
  have hlast : rows'.Perm (rows ++ [row]) := hperm.trans (List.perm_append_singleton row rows).symm
  have hcanonical : CanonicalRows rows' := by
    intro other hmem
    exact hrows other (hperm.subset hmem)
  rw [get?_newestReceipts_perm hread hcanonical hlast, newestReceipts, List.foldl_append,
    List.foldl_cons, List.foldl_nil, get?_noteReceipt]
  rfl

/-- What is kept of canonical rows is canonical. -/
theorem isCanonical_kept (hrows : CanonicalRows rows) {kept : Option String}
    (h : (newestReceipts dateParse rows).get? id = some kept) : IsCanonical kept := by
  have hfold : ∀ (receipts : List (Option String)) (known : Option (Option String)),
      (∀ completedAt ∈ receipts, IsCanonical completedAt) →
      (∀ completedAt, known = some completedAt → IsCanonical completedAt) →
      ∀ completedAt, receipts.foldl (seen dateParse) known = some completedAt →
        IsCanonical completedAt := by
    intro receipts
    induction receipts with
    | nil =>
        intro known _ hknown completedAt hlast
        exact hknown completedAt hlast
    | cons receipt receipts ih =>
        intro known hall hknown
        apply ih
        · intro completedAt hmem
          exact hall completedAt (List.mem_cons_of_mem receipt hmem)
        · intro completedAt hseen
          have hreceipt := hall receipt List.mem_cons_self
          cases known with
          | none =>
              have heq : receipt = completedAt := Option.some.inj hseen
              rwa [← heq]
          | some before =>
              have heq : keepNewest dateParse before receipt = completedAt := Option.some.inj hseen
              rw [← heq]
              have hcases : keepNewest dateParse before receipt = before ∨
                  keepNewest dateParse before receipt = receipt := keepNewest_cases before receipt
              obtain hkept | hkept := hcases
              · rw [hkept]
                exact hknown before rfl
              · rwa [hkept]
  rw [get?_newestReceipts] at h
  apply hfold (receiptsOf rows id) none
  · intro completedAt hmem
    exact isCanonical_receiptsOf hrows hmem
  · intro completedAt hnone
    cases hnone
  · exact h

end

end Sinnlos.Domain

import Sinnlos.Cms.TargetVisibility
import Sinnlos.Lib.Runs

/-! # A paged read while its table changes

`findAllPaged` of `apps/cms/src/utils/paged-read.ts` reads a table by a cursor, each
page in a statement of its own. Between two pages rows are inserted, deleted and
updated; the read still gives every row that stays exactly once.
-/

namespace Sinnlos.Cms.PagedReads

open Keyset Runs

variable {ν : Type}

structure Row (ν : Type) where
  id : Nat
  fields : ν
deriving DecidableEq

/-- A table in the order of its ids, which begin with 1. -/
structure Table (ν : Type) where
  rows : List (Row ν)
  numbered : Targets.Numbered Row.id rows

/-! ## Writes -/

/-- The rows with one more, in its place. -/
def insertRow (row : Row ν) : List (Row ν) → List (Row ν)
  | [] => [row]
  | first :: rows => if row.id < first.id then row :: first :: rows else first :: insertRow row rows

variable {row : Row ν} {rows : List (Row ν)}

theorem mem_insertRow {other : Row ν} :
    other ∈ insertRow row rows ↔ other = row ∨ other ∈ rows := by
  induction rows with
  | nil => simp [insertRow]
  | cons first rows ih =>
      rw [insertRow]
      split
      · rw [List.mem_cons]
      · rw [List.mem_cons, List.mem_cons, ih]
        tauto

theorem numbered_insertRow (numbered : Targets.Numbered Row.id rows) (positive : 0 < row.id)
    (absent : ∀ other ∈ rows, other.id ≠ row.id) :
    Targets.Numbered Row.id (insertRow row rows) := by
  constructor
  · have hpairs := numbered.1
    clear numbered
    induction rows with
    | nil => exact List.pairwise_singleton _ _
    | cons first rows ih =>
        rw [List.pairwise_cons] at hpairs
        rw [List.forall_mem_cons] at absent
        rw [insertRow]
        split
        · next hlt =>
            refine List.pairwise_cons.mpr ⟨?_, List.pairwise_cons.mpr hpairs⟩
            intro other hother
            rcases List.mem_cons.mp hother with heq | hrest
            · exact heq ▸ hlt
            · exact hlt.trans (hpairs.1 other hrest)
        · next hge =>
            have hfirst := absent.1
            refine List.pairwise_cons.mpr ⟨?_, ih absent.2 hpairs.2⟩
            intro other hother
            rcases mem_insertRow.mp hother with heq | hrest
            · rw [heq]
              omega
            · exact hpairs.1 other hrest
  · intro other hother
    rcases mem_insertRow.mp hother with heq | hrest
    · exact heq ▸ positive
    · exact numbered.2 other hrest

/-- A row with new fields where its id is the given one. -/
def Row.updated (id : Nat) (fields : ν) (row : Row ν) : Row ν :=
  if row.id = id then { row with fields } else row

theorem Row.updated_id (id : Nat) (fields : ν) (row : Row ν) :
    (row.updated id fields).id = row.id := by
  unfold Row.updated
  split <;> rfl

inductive Write (ν : Type)
  | insert (row : Row ν)
  | delete (id : Nat)
  | update (id : Nat) (fields : ν)

/-- The table after a write; an id is inserted once. -/
def Table.apply (table : Table ν) : Write ν → Option (Table ν)
  | .insert row =>
      if h : 0 < row.id ∧ ∀ other ∈ table.rows, other.id ≠ row.id then
        some ⟨insertRow row table.rows, numbered_insertRow table.numbered h.1 h.2⟩
      else none
  | .delete id =>
      some ⟨table.rows.filter fun row => row.id ≠ id,
        table.numbered.1.filter _, fun row h => table.numbered.2 row (List.mem_of_mem_filter h)⟩
  | .update id fields =>
      some ⟨table.rows.map (Row.updated id fields),
        List.pairwise_map.mpr (table.numbered.1.imp fun h => by
          rwa [Row.updated_id, Row.updated_id]),
        fun row h => by
          obtain ⟨old, hold, heq⟩ := List.mem_map.mp h
          rw [← heq, Row.updated_id]
          exact table.numbered.2 old hold⟩

/-! ## The read -/

/-- The loop between two pages, or what it ended with. -/
inductive Reader (ν : Type)
  | reading (rows : List (Row ν)) (afterId : Nat)
  | returned (rows : List (Row ν))
  /-- A full page that did not advance past the id. -/
  | refused (afterId : Nat)

/-- The page behind a cursor: the first matching rows by ascending ids. -/
def findMany (condition : Row ν → Bool) (pageSize : Nat) (table : Table ν) (afterId : Nat) :
    List (Row ν) :=
  ((behind Row.id table.rows afterId).filter condition).take pageSize

/-- What the loop makes of a page. -/
def takePage (pageSize : Nat) (rows : List (Row ν)) (afterId : Nat) (page : List (Row ν)) :
    Reader ν :=
  if page.length < pageSize then .returned (rows ++ page)
  else
    match page.getLast? with
    | some last => if last.id ≤ afterId then .refused afterId else .reading (rows ++ page) last.id
    | none => .refused afterId

structure State (ν : Type) where
  table : Table ν
  reader : Reader ν

def State.start (table : Table ν) : State ν := ⟨table, .reading [] 0⟩

inductive Label (ν : Type)
  | write (write : Write ν)
  | page

/-- A write at any time, or the next page while the loop runs. -/
def next (condition : Row ν → Bool) (pageSize : Nat) (s : State ν) : Label ν → Option (State ν)
  | .write write => (s.table.apply write).map fun table => { s with table }
  | .page =>
      match s.reader with
      | .reading rows afterId =>
          some { s with
            reader := takePage pageSize rows afterId (findMany condition pageSize s.table afterId) }
      | _ => none

def Step (condition : Row ν → Bool) (pageSize : Nat) (s : State ν) (label : Label ν)
    (t : State ν) : Prop :=
  next condition pageSize s label = some t

/-! ## One page -/

section

variable {condition : Row ν → Bool} {pageSize afterId : Nat} {table : Table ν} {rows : List (Row ν)}

theorem pairwise_matching (condition : Row ν → Bool) (table : Table ν) (afterId : Nat) :
    ((behind Row.id table.rows afterId).filter condition).Pairwise fun a b => a.id < b.id :=
  (table.numbered.1.filter _).filter _

variable {row : Row ν}

theorem mem_matching :
    row ∈ (behind Row.id table.rows afterId).filter condition ↔
      row ∈ table.rows ∧ afterId < row.id ∧ condition row = true := by
  unfold behind
  rw [List.mem_filter, List.mem_filter, decide_eq_true_eq, and_assoc]

theorem findMany_pairwise (condition : Row ν → Bool) (pageSize : Nat) (table : Table ν)
    (afterId : Nat) : (findMany condition pageSize table afterId).Pairwise
    fun a b => a.id < b.id :=
  (pairwise_matching condition table afterId).sublist (List.take_sublist _ _)

theorem lt_of_mem_findMany (h : row ∈ findMany condition pageSize table afterId) :
    afterId < row.id :=
  (mem_matching.mp (List.mem_of_mem_take h)).2.1

/-- A short page holds every matching row behind the cursor. -/
theorem mem_findMany_of_short
    (short : (findMany condition pageSize table afterId).length < pageSize)
    (hrow : row ∈ table.rows) (hid : afterId < row.id) (hmatch : condition row = true) :
    row ∈ findMany condition pageSize table afterId := by
  have hmem := mem_matching.mpr ⟨hrow, hid, hmatch⟩
  unfold findMany at short ⊢
  rw [List.length_take] at short
  rw [List.take_of_length_le (by omega)]
  exact hmem

/-- A page holds the matching rows up to its last one. -/
theorem mem_findMany_of_le {front : List (Row ν)} {last : Row ν}
    (hpage : findMany condition pageSize table afterId = front ++ [last])
    (hrow : row ∈ table.rows) (hid : afterId < row.id) (hmatch : condition row = true)
    (hle : row.id ≤ last.id) : row ∈ findMany condition pageSize table afterId := by
  have hmem := mem_matching.mpr ⟨hrow, hid, hmatch⟩
  have hpairs := pairwise_matching condition table afterId
  rw [← List.take_append_drop pageSize (List.filter _ _), List.pairwise_append] at hpairs
  rw [← List.take_append_drop pageSize (List.filter _ _), List.mem_append] at hmem
  apply hmem.resolve_right
  intro hrest
  have hlast : last ∈ findMany condition pageSize table afterId := by
    rw [hpage]
    exact List.mem_append_right _ (List.mem_singleton_self last)
  have hlt := hpairs.2.2 last hlast row hrest
  omega

/-- A page ends the loop or advances it. -/
inductive Advances (condition : Row ν → Bool) (pageSize : Nat) (table : Table ν) (afterId : Nat)
    (rows : List (Row ν)) : Reader ν → Prop
  | short (short : (findMany condition pageSize table afterId).length < pageSize) :
      Advances condition pageSize table afterId rows
        (.returned (rows ++ findMany condition pageSize table afterId))
  | full {front : List (Row ν)} {last : Row ν}
      (page : findMany condition pageSize table afterId = front ++ [last])
      (length : (findMany condition pageSize table afterId).length = pageSize)
      (advanced : afterId < last.id) :
      Advances condition pageSize table afterId rows
        (.reading (rows ++ findMany condition pageSize table afterId) last.id)

theorem advances_takePage (hsize : 0 < pageSize) (condition : Row ν → Bool) (table : Table ν)
    (afterId : Nat) (rows : List (Row ν)) :
    Advances condition pageSize table afterId rows
      (takePage pageSize rows afterId (findMany condition pageSize table afterId)) := by
  unfold takePage
  split
  · next hshort => exact .short hshort
  · next hfull =>
      have hle : (findMany condition pageSize table afterId).length ≤ pageSize := by
        unfold findMany
        exact List.length_take_le _ _
      split
      · next last hlast =>
          obtain ⟨front, hpage⟩ := List.getLast?_eq_some_iff.mp hlast
          have hadvanced := lt_of_mem_findMany (List.mem_of_getLast? hlast)
          rw [if_neg (by omega)]
          exact .full hpage (by omega) hadvanced
      · next hnone =>
          rw [List.getLast?_eq_none_iff] at hnone
          rw [hnone] at hfull
          exact absurd hsize hfull

end

/-! ## Every step -/

section

variable {condition : Row ν → Bool} {pageSize : Nat} {s t : State ν} {write : Write ν}

theorem step_write (h : Step condition pageSize s (.write write) t) :
    s.table.apply write = some t.table ∧ t.reader = s.reader := by
  obtain ⟨table, happly, heq⟩ := Option.map_eq_some_iff.mp h
  rw [← heq]
  exact ⟨happly, rfl⟩

theorem step_page (h : Step condition pageSize s .page t) : ∃ rows afterId,
    s.reader = .reading rows afterId ∧ t.table = s.table ∧
      t.reader = takePage pageSize rows afterId (findMany condition pageSize s.table afterId) := by
  cases hreader : s.reader with
  | reading rows afterId =>
      rw [Step, next, hreader] at h
      cases h
      exact ⟨rows, afterId, rfl, rfl, rfl⟩
  | returned rows | refused afterId =>
      rw [Step, next, hreader] at h
      cases h

/-- The rows so far come by ascending ids and lie before the cursor. -/
def Reader.Ordered : Reader ν → Prop
  | .reading rows afterId =>
      (rows.map Row.id).Pairwise (· < ·) ∧ ∀ row ∈ rows, row.id ≤ afterId
  | .returned rows => (rows.map Row.id).Pairwise (· < ·)
  | .refused _ => False

variable {table : Table ν} {label : Label ν} {afterId : Nat}

theorem pairwise_append_findMany {rows : List (Row ν)}
    (hpairs : (rows.map Row.id).Pairwise (· < ·)) (hle : ∀ row ∈ rows, row.id ≤ afterId) :
    ((rows ++ findMany condition pageSize table afterId).map Row.id).Pairwise (· < ·) := by
  rw [List.map_append, List.pairwise_append]
  refine ⟨hpairs, List.pairwise_map.mpr (findMany_pairwise _ _ _ _), ?_⟩
  intro a ha b hb
  obtain ⟨row, hrow, rfl⟩ := List.mem_map.mp ha
  obtain ⟨other, hother, rfl⟩ := List.mem_map.mp hb
  have hbefore := hle row hrow
  have hafter := lt_of_mem_findMany hother
  omega

theorem step_ordered (hsize : 0 < pageSize) (h : Step condition pageSize s label t)
    (ordered : s.reader.Ordered) : t.reader.Ordered := by
  cases label with
  | write write =>
      rw [(step_write h).2]
      exact ordered
  | page =>
      obtain ⟨rows, afterId, hreader, -, hnext⟩ := step_page h
      rw [hreader] at ordered
      obtain ⟨hpairs, hle⟩ := ordered
      rw [hnext]
      have hadvances := advances_takePage hsize condition s.table afterId rows
      generalize takePage pageSize rows afterId _ = reader at hadvances ⊢
      cases hadvances with
      | short _ => exact pairwise_append_findMany hpairs hle
      | @full front last hpage _ hadvanced =>
          refine ⟨pairwise_append_findMany hpairs hle, ?_⟩
          intro row hrow
          rcases List.mem_append.mp hrow with hold | hnew
          · have hbefore := hle row hold
            omega
          · have hsorted := findMany_pairwise condition pageSize s.table afterId
            rw [hpage] at hnew hsorted
            rw [List.pairwise_append] at hsorted
            rcases List.mem_append.mp hnew with hfront | hlast
            · exact Nat.le_of_lt (hsorted.2.2 row hfront last (List.mem_singleton_self last))
            · rw [List.mem_singleton.mp hlast]

/-- A row with the id is there and matches. -/
def Table.Matches (condition : Row ν → Bool) (id : Nat) (table : Table ν) : Prop :=
  ∃ row ∈ table.rows, row.id = id ∧ condition row = true

/-- The id is among the rows once the cursor is not before it. -/
def Reader.Has (id : Nat) : Reader ν → Prop
  | .reading rows afterId => id ≤ afterId → id ∈ rows.map Row.id
  | .returned rows => id ∈ rows.map Row.id
  | .refused _ => False

theorem step_has (hsize : 0 < pageSize) {id : Nat} (present : s.table.Matches condition id)
    (h : Step condition pageSize s label t) (has : s.reader.Has id) : t.reader.Has id := by
  cases label with
  | write write =>
      rw [(step_write h).2]
      exact has
  | page =>
      obtain ⟨rows, afterId, hreader, -, hnext⟩ := step_page h
      obtain ⟨row, hrow, hid, hmatch⟩ := present
      rw [hreader] at has
      have hkept (hle : id ≤ afterId) :
          id ∈ (rows ++ findMany condition pageSize s.table afterId).map Row.id := by
        rw [List.map_append]
        exact List.mem_append_left _ (has hle)
      have hread (hmem : row ∈ findMany condition pageSize s.table afterId) :
          id ∈ (rows ++ findMany condition pageSize s.table afterId).map Row.id :=
        List.mem_map.mpr ⟨row, List.mem_append_right _ hmem, hid⟩
      rw [hnext]
      have hadvances := advances_takePage hsize condition s.table afterId rows
      generalize takePage pageSize rows afterId _ = reader at hadvances ⊢
      by_cases hle : id ≤ afterId
      · cases hadvances with
        | short _ => exact hkept hle
        | full _ _ _ => exact fun _ => hkept hle
      · have hlt : afterId < row.id := by omega
        cases hadvances with
        | short hshort => exact hread (mem_findMany_of_short hshort hrow hlt hmatch)
        | full hpage _ _ =>
            intro hlast
            exact hread (mem_findMany_of_le hpage hrow hlt hmatch (by omega))

/-! ## How many pages there are -/

/-- The rows that a page could still read. -/
def State.unread (s : State ν) : Nat :=
  match s.reader with
  | .reading _ afterId => (behind Row.id s.table.rows afterId).length
  | _ => 0

def Reader.isReading : Reader ν → Bool
  | .reading _ _ => true
  | _ => false

def Label.isPage : Label ν → Bool
  | .page => true
  | .write _ => false

def Label.isInsert : Label ν → Bool
  | .write (.insert _) => true
  | _ => false

theorem length_behind_insertRow (row : Row ν) (rows : List (Row ν)) (afterId : Nat) :
    (behind Row.id (insertRow row rows) afterId).length ≤
      (behind Row.id rows afterId).length + 1 := by
  unfold behind
  induction rows with
  | nil =>
      rw [insertRow, ← List.countP_eq_length_filter, ← List.countP_eq_length_filter]
      simp only [List.countP_cons, List.countP_nil]
      split <;> omega
  | cons first rows ih =>
      rw [← List.countP_eq_length_filter, ← List.countP_eq_length_filter] at ih ⊢
      rw [insertRow]
      split
      · simp only [List.countP_cons]
        split <;> split <;> omega
      · simp only [List.countP_cons]
        omega

theorem length_behind_apply {after : Table ν} (h : table.apply write = some after) (afterId : Nat) :
    (behind Row.id after.rows afterId).length ≤ (behind Row.id table.rows afterId).length +
      (if (Label.write write).isInsert then 1 else 0) := by
  cases write with
  | insert row =>
      simp only [Table.apply] at h
      split at h
      · cases h
        exact length_behind_insertRow row table.rows afterId
      · cases h
  | delete id =>
      cases h
      unfold behind
      have hsub : (table.rows.filter fun row => row.id ≠ id).Sublist table.rows :=
        List.filter_sublist
      exact (hsub.filter _).length_le
  | update id fields =>
      cases h
      unfold behind
      rw [← List.countP_eq_length_filter, ← List.countP_eq_length_filter, List.countP_map]
      apply Nat.le_of_eq
      apply List.countP_congr
      intro row _
      simp [Row.updated_id]

/-- A full page leaves as many rows less as it has. -/
theorem length_behind_last {front : List (Row ν)} {last : Row ν}
    (hpage : findMany condition pageSize table afterId = front ++ [last]) :
    (behind Row.id table.rows last.id).length +
      (findMany condition pageSize table afterId).length ≤
        (behind Row.id table.rows afterId).length := by
  have hlast : last ∈ findMany condition pageSize table afterId := by
    rw [hpage]
    exact List.mem_append_right _ (List.mem_singleton_self last)
  have hlt := lt_of_mem_findMany hlast
  have hsorted := findMany_pairwise condition pageSize table afterId
  have hle : ∀ row ∈ findMany condition pageSize table afterId, row.id ≤ last.id := by
    intro row hrow
    rw [hpage] at hsorted hrow
    rw [List.pairwise_append] at hsorted
    rcases List.mem_append.mp hrow with hfront | heq
    · exact Nat.le_of_lt (hsorted.2.2 row hfront last (List.mem_singleton_self last))
    · rw [List.mem_singleton.mp heq]
  have hread : (findMany condition pageSize table afterId).Sublist
      ((behind Row.id table.rows afterId).filter fun row => row.id ≤ last.id) := by
    have hsub : (findMany condition pageSize table afterId).Sublist
        (behind Row.id table.rows afterId) :=
      (List.take_sublist _ _).trans List.filter_sublist
    have hkeep := hsub.filter fun row => decide (row.id ≤ last.id)
    rwa [List.filter_eq_self.mpr fun row hrow => decide_eq_true (hle row hrow)] at hkeep
  have hleft : behind Row.id table.rows last.id =
      (behind Row.id table.rows afterId).filter fun row => !decide (row.id ≤ last.id) := by
    rw [← behind_behind (Nat.le_of_lt hlt), behind]
    apply List.filter_congr
    intro row _
    by_cases h : row.id ≤ last.id
    · simp [h]
    · simp [h, Nat.lt_of_not_le h]
  have hsplit := List.length_eq_length_filter_add (l := behind Row.id table.rows afterId)
    fun row => decide (row.id ≤ last.id)
  have hlength := hread.length_le
  rw [hleft]
  omega

theorem step_unread (hsize : 0 < pageSize) (h : Step condition pageSize s label t)
    (hreading : t.reader.isReading = true) :
    s.reader.isReading = true ∧ (if label.isPage then pageSize else 0) + t.unread ≤
      s.unread + if label.isInsert then 1 else 0 := by
  cases label with
  | write write =>
      obtain ⟨happly, hsame⟩ := step_write h
      rw [hsame] at hreading
      refine ⟨hreading, ?_⟩
      unfold State.unread
      rw [hsame]
      cases hreader : s.reader with
      | reading rows afterId =>
          have hlength := length_behind_apply happly afterId
          simpa [Label.isPage] using hlength
      | returned rows | refused afterId => simp [Label.isPage]
  | page =>
      obtain ⟨rows, afterId, hreader, htable, hnext⟩ := step_page h
      have hadvances := advances_takePage hsize condition s.table afterId rows
      rw [← hnext] at hadvances
      have hbefore : s.unread = (behind Row.id s.table.rows afterId).length := by
        rw [State.unread, hreader]
      refine ⟨by rw [hreader]; rfl, ?_⟩
      generalize hafter : t.reader = reader at hadvances
      cases hadvances with
      | short _ =>
          rw [hafter] at hreading
          cases hreading
      | @full front last hpage hlength _ =>
          have hleft := length_behind_last hpage
          have hunread : t.unread = (behind Row.id s.table.rows last.id).length := by
            rw [State.unread, hafter, htable]
          simp only [Label.isPage, Label.isInsert, if_true, Bool.false_eq_true, if_false]
          omega

end

/-! ## Every run -/

section

variable {condition : Row ν → Bool} {pageSize : Nat} {s t : State ν} {labels : List (Label ν)}

theorem run_unread (hsize : 0 < pageSize) (run : Run (Step condition pageSize) s labels t)
    (hreading : t.reader.isReading = true) :
    labels.countP Label.isPage * pageSize + t.unread ≤
      s.unread + labels.countP Label.isInsert := by
  have hall : s.reader.isReading = true ∧ labels.countP Label.isPage * pageSize + t.unread ≤
      s.unread + labels.countP Label.isInsert := by
    induction run with
    | refl s => exact ⟨hreading, by simp⟩
    | @cons s m t label labels hstep _ ih =>
        obtain ⟨hmiddle, hle⟩ := ih hreading
        obtain ⟨hfirst, hone⟩ := step_unread hsize hstep hmiddle
        refine ⟨hfirst, ?_⟩
        rw [List.countP_cons, List.countP_cons, Nat.add_mul]
        have hpage : (if label.isPage = true then 1 else 0) * pageSize =
            if label.isPage = true then pageSize else 0 := by
          split
          · exact Nat.one_mul _
          · exact Nat.zero_mul _
        rw [hpage]
        omega
  exact hall.2

theorem start_ordered (table : Table ν) : (State.start table).reader.Ordered :=
  ⟨List.Pairwise.nil, fun _ h => absurd h List.not_mem_nil⟩

/-- An empty page size refuses at the first page. -/
theorem takePage_zero (rows : List (Row ν)) (afterId : Nat) (table : Table ν) :
    takePage 0 rows afterId (findMany condition 0 table afterId) = .refused afterId := by
  simp [takePage, findMany]

def Reader.isReturned : Reader ν → Bool
  | .returned _ => true
  | _ => false

theorem step_zero {label : Label ν} (h : Step condition 0 s label t)
    (hs : s.reader.isReturned = false) : t.reader.isReturned = false := by
  cases label with
  | write write =>
      rw [(step_write h).2]
      exact hs
  | page =>
      obtain ⟨rows, afterId, -, -, hnext⟩ := step_page h
      rw [hnext, takePage_zero]
      rfl

end

/-- Whatever is written between the pages: the rows that are returned come by
ascending ids, each once, and a row that is there and matches in every state is one
of them. A read never refuses, and it goes on no longer than rows are inserted. -/
theorem findAllPaged_while_written (condition : Row ν → Bool) (pageSize : Nat) (table : Table ν)
    {labels : List (Label ν)} {s : State ν}
    (run : Run (Step condition pageSize) (.start table) labels s) :
    (∀ rows, s.reader = .returned rows →
      (rows.map Row.id).Pairwise (· < ·) ∧
      ∀ id, Throughout (Step condition pageSize) (fun state => state.table.Matches condition id)
        (.start table) labels → (rows.map Row.id).count id = 1) ∧
    (0 < pageSize → ∀ afterId, s.reader ≠ .refused afterId) ∧
    (s.reader.isReading = true →
      labels.countP Label.isPage * pageSize ≤
        table.rows.length + labels.countP Label.isInsert) := by
  rcases Nat.eq_zero_or_pos pageSize with hzero | hsize
  · subst hzero
    have hnever : s.reader.isReturned = false :=
      run.invariant (fun _ _ _ h hs => step_zero h hs) rfl
    refine ⟨?_, fun hpos => absurd hpos (Nat.lt_irrefl 0), fun _ => by omega⟩
    intro rows hrows
    rw [hrows] at hnever
    cases hnever
  · have ordered : s.reader.Ordered :=
      run.invariant (fun _ _ _ h hs => step_ordered hsize h hs) (start_ordered table)
    refine ⟨?_, ?_, ?_⟩
    · intro rows hrows
      rw [hrows] at ordered
      refine ⟨ordered, ?_⟩
      intro id through
      have has : s.reader.Has id := by
        apply run.invariant_throughout (fun _ _ _ hp h hs => step_has hsize hp h hs) through
        intro hle
        obtain ⟨row, hrow, hid, _⟩ := through [] labels _ rfl (.refl _)
        have hpositive := table.numbered.2 row hrow
        omega
      rw [hrows] at has
      have hnodup : (rows.map Row.id).Nodup := ordered.imp Nat.ne_of_lt
      exact List.count_eq_one_of_mem hnodup has
    · intro _ afterId hrefused
      rw [hrefused] at ordered
      exact ordered
    · intro hreading
      have hbound := run_unread hsize run hreading
      have hstart : (State.start table).unread ≤ table.rows.length := List.length_filter_le _ _
      omega

/-- Three rows, read by twos while the second is deleted and a fifth inserted. -/
def threeRows : Table Unit where
  rows := [⟨1, ()⟩, ⟨2, ()⟩, ⟨3, ()⟩]
  numbered := ⟨by simp, by simp⟩

def readByTwos : List (Label Unit) :=
  [.page, .write (.delete 2), .write (.insert ⟨5, ()⟩), .page, .page]

theorem findAllPaged_while_written_byTwos :
    ∃ s rows, Run (Step (fun _ => true) 2) (.start threeRows) readByTwos s ∧
      s.reader = .returned rows ∧ rows.map Row.id = [1, 2, 3, 5] ∧
      (rows.map Row.id).Pairwise (· < ·) := by
  have hfollow : (follow (next (fun _ => true) 2) (.start threeRows) readByTwos).map State.reader =
      some (.returned [⟨1, ()⟩, ⟨2, ()⟩, ⟨3, ()⟩, ⟨5, ()⟩]) := rfl
  obtain ⟨s, hs, hreader⟩ := Option.map_eq_some_iff.mp hfollow
  have run := run_of_follow hs
  have all := findAllPaged_while_written (fun _ => true) 2 threeRows run
  exact ⟨s, _, run, hreader, rfl, (all.1 _ hreader).1⟩

end Sinnlos.Cms.PagedReads

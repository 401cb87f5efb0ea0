import Sinnlos.Cms.WithdrawalRetries

/-! # Every failing withdrawal gets its turn

A run ends within its bounds whatever the rows are. Where the rows fit into one
scan it is a turn round them: either it picks all that is ready, or it fills the
quota and leaves the cursor on the last row it picked.
-/

namespace Sinnlos.Cms.WithdrawalRetries

open Keyset RoundRobin Runs

variable {readings : Readings} {drafts : FailedDrafts} {start : Nat} {scan : Scan}

/-! ## One page -/

/-- What examining a page does: the rows of a front of it are read, all of it unless the quota is
full. -/
structure Examined (readings : Readings) (published : List String) (rows : List FailedDraft)
    (scan next : Scan) (front back : List FailedDraft) : Prop where
  split : rows = front ++ back
  examined : next.examined = scan.examined + front.length
  wrapped : next.wrapped = scan.wrapped
  picked : next.picked = scan.picked ++ front.filterMap (pick readings published)
  cursor : next.cursor = (front.getLast?.map FailedDraft.id).getD scan.cursor
  stop : next.picked.length < WITHDRAWAL_RETRY_QUOTA ∧ back = [] ∨
    next.picked.length = WITHDRAWAL_RETRY_QUOTA ∧ front ≠ []

theorem examine_spec (published : List String) (rows : List FailedDraft) :
    ∀ scan : Scan, scan.picked.length < WITHDRAWAL_RETRY_QUOTA →
      ∃ front back, Examined readings published rows scan (examine readings published rows scan)
        front back := by
  induction rows with
  | nil =>
      intro scan h
      exact ⟨[], [], rfl, rfl, rfl, by simp [examine], rfl, Or.inl ⟨h, rfl⟩⟩
  | cons row rows ih =>
      intro scan h
      rw [examine]
      dsimp only
      cases hpick : pick readings published row with
      | none =>
          obtain ⟨front, back, spec⟩ := ih { scan with
            examined := scan.examined + 1
            cursor := row.id } h
          refine ⟨row :: front, back, ?_, ?_, spec.wrapped, ?_, ?_, ?_⟩
          · rw [spec.split, List.cons_append, ← spec.split]
          · rw [spec.examined, List.length_cons]
            dsimp only
            omega
          · rw [spec.picked, List.filterMap_cons, hpick]
          · rw [spec.cursor, List.getLast?_cons]
            cases front.getLast? <;> rfl
          · exact spec.stop.imp_right fun hfull => ⟨hfull.1, List.cons_ne_nil _ _⟩
      | some documentId =>
          dsimp only
          split
          · next hfull =>
              rw [List.length_append, List.length_singleton] at hfull
              refine ⟨[row], rows, rfl, rfl, rfl, by simp [hpick], rfl, Or.inr ⟨?_, by simp⟩⟩
              rw [List.length_append, List.length_singleton]
              omega
          · next hroom =>
              obtain ⟨front, back, spec⟩ := ih { scan with
                examined := scan.examined + 1
                cursor := row.id
                picked := scan.picked ++ [documentId] } (Nat.lt_of_not_le hroom)
              refine ⟨row :: front, back, ?_, ?_, spec.wrapped, ?_, ?_, ?_⟩
              · rw [spec.split, List.cons_append, ← spec.split]
              · rw [spec.examined, List.length_cons]
                dsimp only
                omega
              · rw [spec.picked, List.filterMap_cons, hpick]
                simp
              · rw [spec.cursor, List.getLast?_cons]
                cases front.getLast? <;> rfl
              · exact spec.stop.imp_right fun hfull => ⟨hfull.1, List.cons_ne_nil _ _⟩

/-! ## What is ready -/

/-- A row may be attempted: its document has a name, it has a published row or waits for none, and
its backoff is over. -/
def Ready (readings : Readings) (row : FailedDraft) (documentId : String) : Prop :=
  row.documentId = some documentId ∧ isDocumentId documentId = true ∧
    (row.publishAt = true → readings.published documentId = true) ∧
    backoffOver readings documentId = true

variable {rows front back : List FailedDraft} {row : FailedDraft} {next : Scan}
  {published : List String} {documentId : String}

theorem mem_publishedOf (hrow : row ∈ rows) (h : row.documentId = some documentId)
    (hname : isDocumentId documentId = true) :
    documentId ∈ publishedOf readings rows ↔ readings.published documentId = true := by
  unfold publishedOf
  simp only [List.mem_filter, List.mem_filterMap]
  exact ⟨fun hmem => hmem.2, fun hpublished => ⟨⟨⟨row, hrow, h⟩, hname⟩, hpublished⟩⟩

/-- A page picks what is ready. -/
theorem pick_iff (hrow : row ∈ rows) :
    pick readings (publishedOf readings rows) row = some documentId ↔
      Ready readings row documentId := by
  unfold pick Ready
  cases hdocument : row.documentId with
  | none => simp
  | some own =>
      dsimp only
      by_cases hname : isDocumentId own = false
      · rw [if_pos hname]
        refine ⟨fun h => (nomatch h), fun h => ?_⟩
        rw [← Option.some.inj h.1, hname] at h
        cases h.2.1
      · rw [if_neg hname]
        have hname : isDocumentId own = true := Bool.not_eq_false _ ▸ hname
        have hpage : own ∈ publishedOf readings rows ↔ readings.published own = true :=
          mem_publishedOf hrow hdocument hname
        by_cases hwaits : own ∉ publishedOf readings rows ∧ row.publishAt = true
        · rw [if_pos hwaits]
          refine ⟨fun h => (nomatch h), fun h => ?_⟩
          have hpublished := h.2.2.1 hwaits.2
          rw [← Option.some.inj h.1] at hpublished
          exact absurd (hpage.mpr hpublished) hwaits.1
        · rw [if_neg hwaits]
          have hpublished : row.publishAt = true → readings.published own = true := by
            intro hpending
            by_contra hnot
            exact hwaits ⟨fun hmem => hnot (hpage.mp hmem), hpending⟩
          by_cases hrest : backoffOver readings own = false
          · rw [if_pos hrest]
            refine ⟨fun h => (nomatch h), fun h => ?_⟩
            rw [← Option.some.inj h.1, hrest] at h
            cases h.2.2.2
          · rw [if_neg hrest]
            have hrest : backoffOver readings own = true := Bool.not_eq_false _ ▸ hrest
            constructor
            · intro h
              cases h
              exact ⟨rfl, hname, hpublished, hrest⟩
            · exact fun h => h.1

/-! ## The pages of a run -/

/-- The bounds of a run, and that it attempts nothing but rows that are ready. -/
structure InBounds (readings : Readings) (drafts : FailedDrafts) (scan : Scan) : Prop where
  examined : scan.examined ≤ WITHDRAWAL_RETRY_SCAN
  picked : scan.picked.length ≤ WITHDRAWAL_RETRY_QUOTA
  ready : ∀ documentId ∈ scan.picked, ∃ row ∈ drafts.rows, Ready readings row documentId

/-- The run may read another page. -/
def Scan.HasRoom (scan : Scan) : Prop :=
  scan.examined < WITHDRAWAL_RETRY_SCAN ∧ scan.picked.length < WITHDRAWAL_RETRY_QUOTA

theorem retryPages_done (h : ¬ scan.HasRoom) (fuel : Nat) :
    retryPages readings drafts start (fuel + 1) scan = some scan := by
  unfold Scan.HasRoom at h
  rw [retryPages, if_neg h]

theorem mem_findMany {limit : Nat} (h : row ∈ drafts.findMany start scan limit) :
    row ∈ drafts.rows :=
  (List.mem_filter.mp (List.mem_of_mem_take h)).1

/-- How a run goes on after a page. -/
inductive PageEnd (readings : Readings) (drafts : FailedDrafts) (start : Nat) (scan next : Scan)
    (back : List FailedDraft) : Prop
  /-- The quota or the scan bound is reached. -/
  | full (full : ¬ next.HasRoom)
      (result : ∀ fuel, retryPages readings drafts start (fuel + 2) scan = some next)
  /-- The circle is closed. -/
  | circle (whole : back = []) (last : scan.wrapped = true ∨ start = 0)
      (result : ∀ fuel, retryPages readings drafts start (fuel + 1) scan =
        some { next with cursor := 0 })
  /-- The page was the last of the table. -/
  | wrap (whole : back = []) (room : next.HasRoom) (first : scan.wrapped = false) (later : 0 < start)
      (result : ∀ fuel, retryPages readings drafts start (fuel + 1) scan =
        retryPages readings drafts start fuel { next with cursor := 0, wrapped := true })

theorem retryPages_page (within : InBounds readings drafts scan) (room : scan.HasRoom) :
    ∃ next front back, Examined readings
        (publishedOf readings
          (drafts.findMany start scan (WITHDRAWAL_RETRY_SCAN - scan.examined)))
        (drafts.findMany start scan (WITHDRAWAL_RETRY_SCAN - scan.examined)) scan next front back ∧
      InBounds readings drafts next ∧ PageEnd readings drafts start scan next back := by
  obtain ⟨rows, hrows⟩ : ∃ rows,
      rows = drafts.findMany start scan (WITHDRAWAL_RETRY_SCAN - scan.examined) := ⟨_, rfl⟩
  obtain ⟨front, back, spec⟩ := @examine_spec readings (publishedOf readings rows) rows scan room.2
  have hlimit : rows.length ≤ WITHDRAWAL_RETRY_SCAN - scan.examined := by
    rw [hrows]
    exact List.length_take_le _ _
  have hlength : rows.length = front.length + back.length := by
    rw [spec.split, List.length_append]
  have hexamined := spec.examined
  have hroom := room.1
  rw [← hrows]
  refine ⟨_, front, back, spec, ⟨by omega, ?_, ?_⟩, ?_⟩
  · rcases spec.stop with hstop | hstop
    · omega
    · omega
  · intro documentId hmem
    rw [spec.picked, List.mem_append] at hmem
    rcases hmem with hold | hnew
    · exact within.ready documentId hold
    · obtain ⟨row, hrow, hpick⟩ := List.mem_filterMap.mp hnew
      have hin : row ∈ rows := by
        rw [spec.split]
        exact List.mem_append_left _ hrow
      have hdrafts : row ∈ drafts.rows := by
        rw [hrows] at hin
        exact mem_findMany hin
      exact ⟨row, hdrafts, (pick_iff hin).mp hpick⟩
  · obtain ⟨next, hnext⟩ : ∃ next, next = examine readings (publishedOf readings rows) rows scan :=
      ⟨_, rfl⟩
    rw [← hnext] at spec hexamined ⊢
    have hpage (fuel : Nat) : retryPages readings drafts start (fuel + 1) scan =
        if WITHDRAWAL_RETRY_QUOTA ≤ next.picked.length ∨
            rows.length = WITHDRAWAL_RETRY_SCAN - scan.examined then
          retryPages readings drafts start fuel next
        else if scan.wrapped = true ∨ start = 0 then some { next with cursor := 0 }
        else retryPages readings drafts start fuel { next with cursor := 0, wrapped := true } := by
      unfold Scan.HasRoom at room
      rw [retryPages, if_pos room]
      dsimp only
      rw [← hrows, ← hnext]
    have hstop := spec.stop
    by_cases hfull : WITHDRAWAL_RETRY_QUOTA ≤ next.picked.length ∨
        rows.length = WITHDRAWAL_RETRY_SCAN - scan.examined
    · have hdone : ¬ next.HasRoom := by
        intro hmore
        have hexamined' := hmore.1
        have hpicked := hmore.2
        rcases hstop with hstop | hstop
        · rw [hstop.2, List.length_nil] at hlength
          omega
        · omega
      apply PageEnd.full hdone
      intro fuel
      rw [hpage, if_pos hfull]
      exact retryPages_done hdone fuel
    · have hwhole : back = [] := by
        rcases hstop with hstop | hstop
        · exact hstop.2
        · exact absurd (Or.inl (Nat.le_of_eq hstop.1.symm)) hfull
      by_cases hlast : scan.wrapped = true ∨ start = 0
      · apply PageEnd.circle hwhole hlast
        intro fuel
        rw [hpage, if_neg hfull, if_pos hlast]
      · rw [not_or, Bool.not_eq_true] at hlast
        rw [not_or, Nat.not_le] at hfull
        have hmore : next.examined < WITHDRAWAL_RETRY_SCAN := by
          rw [hwhole, List.length_nil] at hlength
          omega
        apply PageEnd.wrap hwhole ⟨hmore, hfull.1⟩ hlast.1 (Nat.pos_of_ne_zero hlast.2)
        intro fuel
        rw [hpage, if_neg (by omega), if_neg (by simp [hlast])]

/-! ## A run -/

theorem inBounds_begin : InBounds readings drafts (beginScan start) :=
  ⟨Nat.zero_le _, Nat.zero_le _, fun _ h => (nomatch h)⟩

theorem hasRoom_begin : (beginScan start).HasRoom :=
  ⟨Nat.zero_lt_succ _, Nat.zero_lt_succ _⟩

theorem InBounds.rewind (within : InBounds readings drafts scan) (wrapped : Bool) :
    InBounds readings drafts { scan with cursor := 0, wrapped := wrapped } :=
  ⟨within.examined, within.picked, within.ready⟩

/-- A run ends after two pages at most, within its bounds. -/
theorem retryPages_ends (readings : Readings) (drafts : FailedDrafts) (start : Nat) :
    ∃ last, InBounds readings drafts last ∧
      ∀ fuel, 3 ≤ fuel → retryPages readings drafts start fuel (beginScan start) = some last := by
  have hfuel (fuel : Nat) (h : 3 ≤ fuel) : ∃ more, fuel = more + 3 :=
    ⟨fuel - 3, by omega⟩
  obtain ⟨next, front, back, -, hwithin, hend⟩ :=
    @retryPages_page readings drafts start _ inBounds_begin hasRoom_begin
  cases hend with
  | full _ result =>
      refine ⟨next, hwithin, fun fuel h => ?_⟩
      obtain ⟨more, rfl⟩ := hfuel fuel h
      exact result (more + 1)
  | circle _ _ result =>
      refine ⟨_, hwithin.rewind next.wrapped, fun fuel h => ?_⟩
      obtain ⟨more, rfl⟩ := hfuel fuel h
      exact result (more + 2)
  | wrap _ room _ _ result =>
      obtain ⟨last, _, _, spec, hwithin', hend'⟩ :=
        @retryPages_page readings drafts start _ (hwithin.rewind true) room
      cases hend' with
      | full _ result' =>
          refine ⟨last, hwithin', fun fuel h => ?_⟩
          obtain ⟨more, rfl⟩ := hfuel fuel h
          exact (result (more + 2)).trans (result' more)
      | circle _ _ result' =>
          refine ⟨_, hwithin'.rewind last.wrapped, fun fuel h => ?_⟩
          obtain ⟨more, rfl⟩ := hfuel fuel h
          exact (result (more + 2)).trans (result' (more + 1))
      | wrap _ _ first _ _ => cases first

/-! ## A turn -/

/-- A row is attempted in a run. -/
def Attempted (scan : Scan) (row : FailedDraft) : Prop :=
  ∃ documentId ∈ scan.picked, row.documentId = some documentId

def IsReady (readings : Readings) (row : FailedDraft) : Prop :=
  ∃ documentId, Ready readings row documentId

/-- What was read of a page is attempted where it is ready. -/
theorem Examined.attempted
    (spec : Examined readings (publishedOf readings rows) rows scan next front back)
    (h : row ∈ front) (ready : IsReady readings row) : Attempted next row := by
  obtain ⟨documentId, hready⟩ := ready
  have hrow : row ∈ rows := by
    rw [spec.split]
    exact List.mem_append_left _ h
  refine ⟨documentId, ?_, hready.1⟩
  rw [spec.picked, List.mem_append]
  exact Or.inr (List.mem_filterMap.mpr ⟨row, h, (pick_iff hrow).mpr hready⟩)

theorem Examined.kept (spec : Examined readings published rows scan next front back)
    (h : Attempted scan row) : Attempted next row := by
  obtain ⟨documentId, hmem, hrow⟩ := h
  refine ⟨documentId, ?_, hrow⟩
  rw [spec.picked]
  exact List.mem_append_left _ hmem

/-- The first page of a scan that everything fits into: the rows behind the cursor. -/
theorem findMany_begin (fits : drafts.rows.length ≤ WITHDRAWAL_RETRY_SCAN) :
    drafts.findMany start (beginScan start) (WITHDRAWAL_RETRY_SCAN - (beginScan start).examined) =
      behind FailedDraft.id drafts.rows start := by
  have hfilter : (drafts.rows.filter fun row =>
      decide ((beginScan start).cursor < row.id) &&
        (!(beginScan start).wrapped || decide (row.id ≤ start))) =
      behind FailedDraft.id drafts.rows start := by
    apply List.filter_congr
    intro row _
    show (decide (start < row.id) && true) = decide (start < row.id)
    exact Bool.and_true _
  rw [FailedDrafts.findMany, hfilter, List.take_of_length_le]
  have hlength : (behind FailedDraft.id drafts.rows start).length ≤ drafts.rows.length :=
    List.length_filter_le _ _
  exact hlength.trans fits

/-- The page after the wrap: the rows up to the cursor that the run began with. -/
theorem findMany_wrapped (hcursor : scan.cursor = 0) (hwrapped : scan.wrapped = true)
    (fits : (upTo FailedDraft.id drafts.rows start).length ≤
      WITHDRAWAL_RETRY_SCAN - scan.examined) :
    drafts.findMany start scan (WITHDRAWAL_RETRY_SCAN - scan.examined) =
      upTo FailedDraft.id drafts.rows start := by
  have hfilter : (drafts.rows.filter fun row =>
      decide (scan.cursor < row.id) && (!scan.wrapped || decide (row.id ≤ start))) =
      upTo FailedDraft.id drafts.rows start := by
    apply List.filter_congr
    intro row hrow
    have hpositive := drafts.positive row hrow
    simp [hcursor, hwrapped, hpositive]
  rw [FailedDrafts.findMany, hfilter, List.take_of_length_le fits]

/-- Nothing stands up to a cursor at the start. -/
theorem upTo_zero : upTo FailedDraft.id drafts.rows 0 = [] := by
  unfold upTo
  rw [List.filter_eq_nil_iff]
  intro row hrow
  have hpositive := drafts.positive row hrow
  simp only [decide_eq_true_eq]
  omega

/-- A page on which the quota is full ends with the row that the cursor is left on. -/
theorem Examined.last_of_full (spec : Examined readings published rows scan next front back)
    (full : front ≠ []) : ∃ before last, front = before ++ [last] ∧ next.cursor = last.id := by
  obtain ⟨before, last, hfront⟩ := List.eq_nil_or_concat front |>.resolve_left full
  rw [List.concat_eq_append] at hfront
  refine ⟨before, last, hfront, ?_⟩
  rw [spec.cursor, hfront, List.getLast?_concat]
  rfl

theorem Examined.picked_le (spec : Examined readings published rows scan next front back) :
    next.picked.length ≤ scan.picked.length + front.length := by
  have hle := List.length_filterMap_le (pick readings published) front
  rw [spec.picked, List.length_append]
  omega

theorem mem_behind_or_upTo (h : row ∈ drafts.rows) :
    row ∈ behind FailedDraft.id drafts.rows start ∨ row ∈ upTo FailedDraft.id drafts.rows start :=
  List.mem_append.mp (mem_ring.mpr h)

/-- Where the failed drafts fit into one scan, a run is a turn round them. -/
theorem retryWithdrawals_turn (fits : drafts.rows.length ≤ WITHDRAWAL_RETRY_SCAN) {last : Scan}
    (h : retryWithdrawals readings drafts start = some last) :
    Turn FailedDraft.id drafts.rows WITHDRAWAL_RETRY_QUOTA (IsReady readings) (Attempted last)
      start last.cursor := by
  have htotal : (behind FailedDraft.id drafts.rows start).length +
      (upTo FailedDraft.id drafts.rows start).length = drafts.rows.length := by
    have hlength := length_ring drafts.sorted start
    rwa [ring, List.length_append] at hlength
  obtain ⟨next, front, back, spec, within, hend⟩ :=
    @retryPages_page readings drafts start _ inBounds_begin hasRoom_begin
  rw [findMany_begin fits] at spec
  have hexamined : next.examined = front.length := by
    rw [spec.examined]
    exact Nat.zero_add _
  have hpicked := spec.picked_le
  cases hend with
  | full hfull result =>
      obtain rfl : next = last := Option.some.inj ((result 1).symm.trans h)
      rcases spec.stop with ⟨hroom, hback⟩ | ⟨hquota, hfront⟩
      · left
        intro row hrow ready
        have hwhole : behind FailedDraft.id drafts.rows start = front := by
          rw [spec.split, hback, List.append_nil]
        have hscan : WITHDRAWAL_RETRY_SCAN ≤ next.examined := by
          by_contra hless
          exact hfull ⟨Nat.lt_of_not_le hless, hroom⟩
        have hnone : upTo FailedDraft.id drafts.rows start = [] := by
          rw [← List.length_eq_zero_iff]
          rw [hwhole] at htotal
          omega
        rcases mem_behind_or_upTo hrow with hbehind | hupTo
        · exact spec.attempted (hwhole ▸ hbehind) ready
        · rw [hnone] at hupTo
          cases hupTo
      · right
        obtain ⟨before, stop, hsplit, hcursor⟩ := spec.last_of_full hfront
        have hlength := congrArg List.length hsplit
        rw [List.length_append, List.length_singleton] at hlength
        refine ⟨before, stop, back ++ upTo FailedDraft.id drafts.rows start, ?_, ?_, hcursor, ?_⟩
        · rw [ring, spec.split, hsplit]
          simp
        · rw [← hquota]
          have hbegin : (beginScan start).picked.length = 0 := rfl
          omega
        · intro row hrow ready
          exact spec.attempted (hsplit ▸ hrow) ready
  | circle hback hlast result =>
      obtain rfl : { next with cursor := 0 } = last := Option.some.inj ((result 2).symm.trans h)
      left
      intro row hrow ready
      have hstart : start = 0 := hlast.resolve_left Bool.false_ne_true
      have hwhole : behind FailedDraft.id drafts.rows start = front := by
        rw [spec.split, hback, List.append_nil]
      rcases mem_behind_or_upTo hrow with hbehind | hupTo
      · exact spec.attempted (hwhole ▸ hbehind) ready
      · rw [hstart, upTo_zero] at hupTo
        cases hupTo
  | wrap hback hroom _ _ result =>
      have hwhole : behind FailedDraft.id drafts.rows start = front := by
        rw [spec.split, hback, List.append_nil]
      obtain ⟨later, front', back', spec', within', hend'⟩ :=
        @retryPages_page readings drafts start _ (within.rewind true) hroom
      have hfits : (upTo FailedDraft.id drafts.rows start).length ≤
          WITHDRAWAL_RETRY_SCAN - next.examined := by
        rw [hwhole] at htotal
        omega
      rw [@findMany_wrapped drafts start { next with cursor := 0, wrapped := true } rfl rfl hfits]
        at spec'
      have hpicked' := spec'.picked_le
      dsimp only at hpicked'
      -- what the first page attempted is still attempted
      have hfirst (row : FailedDraft) (hrow : row ∈ behind FailedDraft.id drafts.rows start)
          (ready : IsReady readings row) : Attempted later row := by
        have hnext : Attempted next row := spec.attempted (hwhole ▸ hrow) ready
        exact spec'.kept hnext
      have hall (hback' : back' = []) (row : FailedDraft) (hrow : row ∈ drafts.rows)
          (ready : IsReady readings row) : Attempted later row := by
        rcases mem_behind_or_upTo hrow with hbehind | hupTo
        · exact hfirst row hbehind ready
        · rw [spec'.split, hback', List.append_nil] at hupTo
          exact spec'.attempted hupTo ready
      cases hend' with
      | full _ result' =>
          obtain rfl : later = last :=
            Option.some.inj ((result' 0).symm.trans ((result 2).symm.trans h))
          rcases spec'.stop with ⟨_, hback'⟩ | ⟨hquota, hfront'⟩
          · exact Or.inl (hall hback')
          · right
            obtain ⟨before, stop, hsplit, hcursor⟩ := spec'.last_of_full hfront'
            have hlength := congrArg List.length hsplit
            rw [List.length_append, List.length_singleton] at hlength
            refine ⟨front ++ before, stop, back', ?_, ?_, hcursor, ?_⟩
            · rw [ring, hwhole, spec'.split, hsplit]
              simp
            · rw [← hquota, List.length_append]
              have hbegin : (beginScan start).picked.length = 0 := rfl
              omega
            · intro row hrow ready
              rw [List.append_assoc, ← hsplit] at hrow
              rcases List.mem_append.mp hrow with hold | hnew
              · exact hfirst row (hwhole ▸ hold) ready
              · exact spec'.attempted hnew ready
      | circle hback' _ result' =>
          obtain rfl : { later with cursor := 0 } = last :=
            Option.some.inj ((result' 1).symm.trans ((result 2).symm.trans h))
          exact Or.inl (hall hback')
      | wrap _ _ first _ _ => cases first

/-- A run of the retry tier keeps its bounds and ends, and no ready withdrawal waits for longer than
the runs that it takes to go round the rows once. -/
theorem withdrawals_retried_fairly (drafts : FailedDrafts) :
    (∀ readings start, ∃ last, InBounds readings drafts last ∧
      retryWithdrawals readings drafts start = some last ∧
      ∀ fuel, 3 ≤ fuel → retryPages readings drafts start fuel (beginScan start) = some last) ∧
    (drafts.rows.length ≤ WITHDRAWAL_RETRY_SCAN →
      ∀ start stop runs, Run (RetryStep drafts) start runs stop →
      (drafts.rows.length + WITHDRAWAL_RETRY_QUOTA - 1) / WITHDRAWAL_RETRY_QUOTA ≤ runs.length →
      ∀ row ∈ drafts.rows, (∀ run ∈ runs, IsReady run.1 row) →
        ∃ run ∈ runs, Attempted run.2 row) := by
  constructor
  · intro readings start
    obtain ⟨last, within, hends⟩ := retryPages_ends readings drafts start
    exact ⟨last, within, hends 3 (Nat.le_refl 3), hends⟩
  · intro fits start stop runs hrun hlength row hrow ready
    have hturns : Run (fun cursor run cursor' =>
        Turn FailedDraft.id drafts.rows WITHDRAWAL_RETRY_QUOTA (IsReady run.1) (Attempted run.2)
          cursor cursor') start runs stop := by
      apply hrun.restrict
      intro run _ cursor cursor' hstep
      rw [hstep.2]
      exact retryWithdrawals_turn fits hstep.1
    apply served_of_round drafts.sorted hturns hrow ready
    unfold WITHDRAWAL_RETRY_QUOTA at hlength ⊢
    omega

/-- Twelve withdrawals whose backoff is over. -/
def twelve : FailedDrafts where
  rows := (List.range 12).map fun index =>
    ⟨index + 1, some (String.ofList (List.replicate (index + 1) 'd')), false⟩
  sorted := by decide +kernel
  positive := by decide +kernel

def quiet : Readings where
  now := 0
  published := fun _ => true
  withdrawals := fun _ => none
  revision := fun _ => 0

/-- Two runs over the twelve, from the start. -/
def firstRun : Scan := (retryWithdrawals quiet twelve 0).get (by decide +kernel)

def secondRun : Scan := (retryWithdrawals quiet twelve firstRun.cursor).get (by decide +kernel)

/-- The last of twelve has its turn in one of two runs. -/
theorem withdrawals_retried_fairly_twelve :
    ∃ run ∈ [(quiet, firstRun), (quiet, secondRun)],
      Attempted run.2 ⟨12, some "dddddddddddd", false⟩ := by
  have hfirst : retryWithdrawals quiet twelve 0 = some firstRun := (Option.some_get _).symm
  have hsecond : retryWithdrawals quiet twelve firstRun.cursor = some secondRun :=
    (Option.some_get _).symm
  have hrun : Run (RetryStep twelve) 0 [(quiet, firstRun), (quiet, secondRun)] secondRun.cursor :=
    .cons ⟨hfirst, rfl⟩ (.single ⟨hsecond, rfl⟩)
  have hready : ∀ run ∈ [(quiet, firstRun), (quiet, secondRun)],
      IsReady run.1 ⟨12, some "dddddddddddd", false⟩ := by
    intro run hmem
    have hquiet : run.1 = quiet := by
      rcases List.mem_cons.mp hmem with rfl | hmem
      · rfl
      · rw [List.mem_singleton.mp hmem]
    rw [hquiet]
    exact ⟨"dddddddddddd", rfl, by decide, fun _ => rfl, by decide⟩
  exact (withdrawals_retried_fairly twelve).2 (by decide +kernel) 0 _ _ hrun (by decide +kernel) _
    (by decide +kernel) hready

end Sinnlos.Cms.WithdrawalRetries

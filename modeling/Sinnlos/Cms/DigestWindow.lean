import Sinnlos.Cms.DigestSelection

/-!
# The window of one run

The run reads one window for everybody. For each recipient it holds what the
recipient's own window would, and the anchors from before it.
-/

namespace Sinnlos.Cms.Digest

/-- A notification that anchors the document. -/
def Anchors (documentId : String) (row : NotificationRow) : Prop :=
  row.sourceType = some "announcement" ∧ row.sourceDocumentId = some documentId

/-- The run finds a notification of the user about the document, older than `since`. -/
def ToldUser (world : DigestWorld) (userId : Nat) (documentId : String) (since : Int) : Prop :=
  ∃ row ∈ world.notifications, Anchors documentId row ∧ row.recipient = some userId ∧
    ∃ ms, row.createdAt = some ms ∧ ms < since

/-- The same for a notification of anybody. -/
def ToldAnyone (world : DigestWorld) (documentId : String) (since : Int) : Prop :=
  ∃ row ∈ world.notifications, Anchors documentId row ∧ ∃ ms, row.createdAt = some ms ∧ ms < since

/-- Nothing that the run finds of the document is older than `p`. -/
structure FirstPublished (world : DigestWorld) (documentId : String) (p : Int) : Prop where
  rows : ∀ row ∈ world.announcements.getD [], row.documentId = some documentId →
    ∀ ms, row.publishedAt = some ms → p ≤ ms
  anchors : ∀ row ∈ world.notifications, Anchors documentId row →
    ∀ ms, row.createdAt = some ms → p ≤ ms

variable {world : DigestWorld} {documentId : String} {since : Int}

theorem FirstPublished.not_toldAnyone {p : Int} (h : FirstPublished world documentId p)
    (hle : since ≤ p) : ¬ ToldAnyone world documentId since := by
  rintro ⟨row, hrow, hanchors, ms, hms, hlt⟩
  have hp := h.anchors row hrow hanchors ms hms
  omega

theorem ToldUser.anyone {userId : Nat} (h : ToldUser world userId documentId since) :
    ToldAnyone world documentId since := by
  obtain ⟨row, hrow, hanchors, -, hearlier⟩ := h
  exact ⟨row, hrow, hanchors, hearlier⟩

/-! ## The widest window -/

theorem foldl_min_le (starts : List Int) (start : Int) :
    starts.foldl min start ≤ start ∧ ∀ since ∈ starts, starts.foldl min start ≤ since := by
  induction starts generalizing start with
  | nil => simp
  | cons head starts ih =>
      obtain ⟨hstart, hrest⟩ := ih (min start head)
      rw [List.foldl_cons]
      refine ⟨by omega, ?_⟩
      intro since hsince
      rcases List.mem_cons.mp hsince with rfl | hsince
      · omega
      · exact hrest since hsince

theorem le_foldl_max (starts : List Int) (start : Int) :
    start ≤ starts.foldl max start ∧ ∀ since ∈ starts, since ≤ starts.foldl max start := by
  induction starts generalizing start with
  | nil => simp
  | cons head starts ih =>
      obtain ⟨hstart, hrest⟩ := ih (max start head)
      rw [List.foldl_cons]
      refine ⟨by omega, ?_⟩
      intro since hsince
      rcases List.mem_cons.mp hsince with rfl | hsince
      · omega
      · exact hrest since hsince

/-! ## What the window holds -/

section Window

variable {world : DigestWorld} {announcements : List DigestAnnouncement} {due : List Due}
  {entry : Due}

/-- Rows that differ in their flags alone. -/
structure SameRow (row raw : DigestAnnouncement) : Prop where
  id : row.id = raw.id
  documentId : row.documentId = raw.documentId
  title : row.title = raw.title
  publishedAt : row.publishedAt = raw.publishedAt
  expiresAt : row.expiresAt = raw.expiresAt
  author : row.author = raw.author

theorem inSpan_iff {first last : Int} {instant : Option Int} :
    inSpan first last instant = true ↔ ∃ ms, instant = some ms ∧ first ≤ ms ∧ ms < last := by
  cases instant <;> simp [inSpan]

variable {row raw : DigestAnnouncement} {loaded again : List DigestAnnouncement}

theorem mem_withFresh (h : row ∈ withFreshAnnouncementFlags loaded again) :
    ∃ raw ∈ loaded, SameRow row raw := by
  obtain ⟨raw, hraw, rfl⟩ := List.mem_map.mp h
  exact ⟨raw, hraw, ⟨rfl, rfl, rfl, rfl, rfl, rfl⟩⟩

theorem find_of_mem {rows : List DigestAnnouncement} (hids : (rows.map (·.id)).Nodup)
    (hraw : raw ∈ rows) : rows.find? (fun row => row.id = raw.id) = some raw := by
  induction rows with
  | nil => cases hraw
  | cons head rows ih =>
      rw [List.map_cons, List.nodup_cons] at hids
      rcases List.mem_cons.mp hraw with rfl | hraw
      · simp
      · have hne : ¬ head.id = raw.id := by
          intro heq
          exact hids.1 (heq ▸ List.mem_map_of_mem hraw)
        rw [List.find?_cons_of_neg (by simpa using hne)]
        exact ih hids.2 hraw

/-- A row that stands unchanged through both reads is in the window with the
audience that it has. -/
theorem withFresh_of_mem (hids : (again.map (·.id)).Nodup) (hraw : raw ∈ loaded)
    (hagain : raw ∈ again) :
    ∃ row ∈ withFreshAnnouncementFlags loaded again, SameRow row raw ∧
      ∀ scope, isAnnouncementVisible row.targeting scope = isAnnouncementVisible raw.targeting scope := by
  refine ⟨_, List.mem_map_of_mem hraw, ⟨rfl, rfl, rfl, rfl, rfl, rfl⟩, ?_⟩
  intro scope
  unfold isAnnouncementVisible
  rw [find_of_mem hids hagain]
  exact isAnnouncementTargetedTo_raiseFlags_self raw.targeting _

/-- The window of a run in which somebody wants announcements. -/
theorem loadAnnouncementWindow_spec (world : DigestWorld) (announcements : List DigestAnnouncement)
    (hentry : entry ∈ due)
    (hwants : entry.user.digestAnnouncements = some true) :
    ∃ widest latest, widest ≤ entry.since ∧ entry.since ≤ latest ∧
      (loadAnnouncementWindow world announcements due).1 =
        withFreshAnnouncementFlags
          (newestFirst (·.publishedAt) (announcements.filter (inWindow widest world.now)))
          (world.announcementsAgain.filter (inWindow widest world.now)) ∧
      ∃ documentIds : List String,
        (∀ row ∈ (loadAnnouncementWindow world announcements due).1, ∀ documentId,
          row.documentId = some documentId → documentId ≠ "" → documentId ∈ documentIds) ∧
        ((loadAnnouncementWindow world announcements due).2 =
            notifiedIndex (loadNotified world.notifications documentIds latest) ∨
          documentIds = []) := by
  have hstart : entry.since ∈
      (due.filter fun entry => entry.user.digestAnnouncements = some true).map (·.since) :=
    List.mem_map_of_mem (List.mem_filter.mpr ⟨hentry, by simpa using hwants⟩)
  unfold loadAnnouncementWindow
  split
  · next hnone =>
      rw [hnone] at hstart
      cases hstart
  · next start starts hstarts =>
      rw [hstarts] at hstart
      have hwidest : starts.foldl min start ≤ entry.since := by
        rcases List.mem_cons.mp hstart with heq | hmem
        · rw [heq]
          exact (foldl_min_le starts start).1
        · exact (foldl_min_le starts start).2 _ hmem
      have hlatest : entry.since ≤ starts.foldl max start := by
        rcases List.mem_cons.mp hstart with heq | hmem
        · rw [heq]
          exact (le_foldl_max starts start).1
        · exact (le_foldl_max starts start).2 _ hmem
      dsimp only
      obtain ⟨rows, hrows⟩ : ∃ rows, rows = withFreshAnnouncementFlags
          (newestFirst (·.publishedAt)
            (announcements.filter (inWindow (starts.foldl min start) world.now)))
          (world.announcementsAgain.filter (inWindow (starts.foldl min start) world.now)) := ⟨_, rfl⟩
      rw [← hrows]
      refine ⟨starts.foldl min start, starts.foldl max start, hwidest, hlatest, ?_,
        (rows.filterMap (·.documentId)).filter (· ≠ ""), ?_, ?_⟩
      · split <;> exact hrows
      · intro row hrow documentId hdocument hne
        have hmem : row ∈ rows := by
          split at hrow <;> exact hrow
        rw [List.mem_filter]
        exact ⟨List.mem_filterMap.mpr ⟨row, hmem, hdocument⟩, by simpa using hne⟩
      · split
        · next hempty => exact Or.inr (List.isEmpty_iff.mp hempty)
        · exact Or.inl rfl

/-- Each row of the window is one of the table, published before the run and
not expired. -/
theorem window_sound (hentry : entry ∈ due) (hwants : entry.user.digestAnnouncements = some true)
    (hrow : row ∈ (loadAnnouncementWindow world announcements due).1) :
    ∃ raw ∈ announcements, SameRow row raw ∧ notExpired world.now raw = true ∧
      ∃ ms, raw.publishedAt = some ms ∧ ms < world.now := by
  obtain ⟨widest, latest, -, -, hrows, -⟩ :=
    loadAnnouncementWindow_spec world announcements hentry hwants
  rw [hrows] at hrow
  obtain ⟨raw, hraw, hsame⟩ := mem_withFresh hrow
  unfold newestFirst at hraw
  rw [List.mem_insertionSort, List.mem_filter] at hraw
  obtain ⟨htable, hin⟩ := hraw
  unfold inWindow at hin
  rw [Bool.and_eq_true, inSpan_iff] at hin
  obtain ⟨⟨ms, hms, -, hlt⟩, hexpires⟩ := hin
  exact ⟨raw, htable, hsame, hexpires, ms, hms, hlt⟩

/-- A row published in the recipient's own window is in the run's, whatever the
windows of the others are. -/
theorem window_complete (hentry : entry ∈ due)
    (hwants : entry.user.digestAnnouncements = some true) (hraw : raw ∈ announcements)
    (hagain : raw ∈ world.announcementsAgain) (hexpires : notExpired world.now raw = true)
    {ms : Int} (hms : raw.publishedAt = some ms) (hle : entry.since ≤ ms) (hlt : ms < world.now) :
    ∃ row ∈ (loadAnnouncementWindow world announcements due).1, SameRow row raw ∧
      ∀ scope, isAnnouncementVisible row.targeting scope = isAnnouncementVisible raw.targeting scope := by
  obtain ⟨widest, latest, hwidest, -, hrows, -⟩ :=
    loadAnnouncementWindow_spec world announcements hentry hwants
  have hin : inWindow widest world.now raw = true := by
    unfold inWindow
    rw [Bool.and_eq_true, inSpan_iff]
    exact ⟨⟨ms, hms, by omega, hlt⟩, hexpires⟩
  rw [hrows]
  apply withFresh_of_mem
  · exact world.again_ids.sublist (List.filter_sublist.map _)
  · unfold newestFirst
    rw [List.mem_insertionSort]
    exact List.mem_filter.mpr ⟨hraw, hin⟩
  · exact List.mem_filter.mpr ⟨hagain, hin⟩

/-- What the index says of a document in the window is what the notifications
say. -/
theorem window_told (hentry : entry ∈ due) (hwants : entry.user.digestAnnouncements = some true)
    (hrow : row ∈ (loadAnnouncementWindow world announcements due).1) {documentId : String}
    (hdocument : row.documentId = some documentId) (hne : documentId ≠ "") :
    (toldBefore entry.since (loadAnnouncementWindow world announcements due).2.first documentId = true ↔
      ToldAnyone world documentId entry.since) ∧
    (toldBefore entry.since (((loadAnnouncementWindow world announcements due).2.byUser.get?
        entry.user.id).getD .empty) documentId = true ↔
      ToldUser world entry.user.id documentId entry.since) := by
  obtain ⟨widest, latest, -, hlatest, -, documentIds, hids, hindex⟩ :=
    loadAnnouncementWindow_spec world announcements hentry hwants
  have hmem := hids row hrow documentId hdocument hne
  have hindexed := hindex.resolve_right (by
    intro hempty
    rw [hempty] at hmem
    cases hmem)
  -- the notifications that the index is made of
  have hloaded (notice : NotificationRow) :
      notice ∈ loadNotified world.notifications documentIds latest ∧
          Tells entry.since documentId notice ↔
        notice ∈ world.notifications ∧ Anchors documentId notice ∧
          ∃ ms, notice.createdAt = some ms ∧ ms < entry.since := by
    rw [mem_loadNotified world.notification_ids world.notification_pos]
    unfold Tells Anchors anchors
    constructor
    · rintro ⟨⟨hnotice, hanchors⟩, hsource, hearlier⟩
      simp only [Bool.and_eq_true, decide_eq_true_eq] at hanchors
      exact ⟨hnotice, ⟨hanchors.1.1, hsource⟩, hearlier⟩
    · rintro ⟨hnotice, ⟨htype, hsource⟩, ms, hms, hlt⟩
      have hbefore : ms < latest := by omega
      exact ⟨⟨hnotice, by simp [htype, hsource, hms, hmem, hbefore]⟩, hsource, ms, hms, hlt⟩
  obtain ⟨hfirst, huser⟩ := toldBefore_notifiedIndex entry.since entry.user.id
    (loadNotified world.notifications documentIds latest) hne
  rw [hindexed, hfirst, huser]
  constructor
  · unfold ToldAnyone
    exact exists_congr hloaded
  · unfold ToldUser
    apply exists_congr
    intro notice
    have h := hloaded notice
    constructor
    · rintro ⟨hmem, hrecipient, htells⟩
      obtain ⟨hnotice, hanchors, hearlier⟩ := h.mp ⟨hmem, htells⟩
      exact ⟨hnotice, hanchors, hrecipient, hearlier⟩
    · rintro ⟨hnotice, hanchors, hrecipient, hearlier⟩
      obtain ⟨hmem, htells⟩ := h.mpr ⟨hnotice, hanchors, hearlier⟩
      exact ⟨hmem, hrecipient, htells⟩

end Window

end Sinnlos.Cms.Digest

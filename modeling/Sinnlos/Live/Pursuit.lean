import Sinnlos.Live.LegacyRequests

/-! # Whether a failed subscription is pursued

The subscription sync of `apps/web/src/lib/live-client.ts` in both modes. The full-set form
has a POST for every set, the empty one included; the add/remove form has none for a set
that changes nothing. After a failure the client forgets what it sent, so an empty set then
goes out in no POST at all: nothing is left that could end the failure.
-/

namespace Sinnlos.Live
open Sinnlos.Runs

/-! ## POSTs and their answers -/

/-- A tab and the sets whose POSTs were answered, once for each answer. -/
structure AnsweredTab where
  tab : Tab
  answered : List SentId
deriving DecidableEq

/-- The POSTs of a set. -/
def postCount (posts : List Post) (sent : SentId) : Nat :=
  posts.countP fun post => post.sent.id = sent

/-- A POST is answered once; everything else is as in the tab. -/
def AnsweredTab.step (a : AnsweredTab) (event : TabEvent) : Option AnsweredTab :=
  match event with
  | .answer sent taken =>
      if a.answered.count sent < postCount a.tab.client.subs.posts sent then
        (a.tab.step (.answer sent taken)).map fun tab => ⟨tab, sent :: a.answered⟩
      else none
  | event => (a.tab.step event).map fun tab => ⟨tab, a.answered⟩

def AnsweredStep (a : AnsweredTab) (event : TabEvent) (a' : AnsweredTab) : Prop :=
  a.step event = some a'

def AnsweredTab.Initial (a : AnsweredTab) : Prop := ∃ visible, a = ⟨.loaded visible, []⟩

/-- Something is under way for the set of a connection: a POST of what it was sent last, a
timer, a synchronisation, or the budget of retries is used up. -/
def Subscriptions.Pursues (s : Subscriptions) (connId : ConnId) (answered : List SentId) : Prop :=
  (∃ sent, s.sent = some sent ∧ sent.connId = connId ∧
      answered.count sent.id < postCount s.posts sent.id) ∨
    s.retryTimer.isSome = true ∨ s.syncScheduled = true ∨
      subscribeRetryMs.length ≤ s.retries

/-- The empty set is due in the add/remove form, after a failure that forgot what the
connection was sent and with retries left. -/
def LiveClient.EmptyResend (c : LiveClient) : Prop :=
  c.subs.legacy = true ∧ c.subs.failed = true ∧ c.subs.retries < subscribeRetryMs.length ∧
    (∃ connId ∈ c.stream.connId, ∀ sent ∈ c.subs.sent, sent.connId ≠ connId) ∧ c.desired = []

instance (c : LiveClient) : Decidable c.EmptyResend := inferInstanceAs (Decidable (_ ∧ _))

/-- A step that sends no such empty set. -/
def PursuedStep (a : AnsweredTab) (event : TabEvent) (a' : AnsweredTab) : Prop :=
  AnsweredStep a event a' ∧
    (event = .syncMicrotask ∨ event = .subscribeRetryTimer → ¬a.tab.client.EmptyResend)

/-! ## Requests of a change -/

variable {channels : List Channel}

theorem slices_eq_nil (h : slices maxSubscribeList channels = []) : channels = [] := by
  have hfirst := slices_getD channels 0
  rw [h, Nat.zero_mul, List.drop_zero] at hfirst
  cases channels with
  | nil => rfl
  | cons channel rest => cases hfirst

theorem setKey_perm {a b : List Channel} (h : a.Perm b) : setKey a = setKey b := by
  have hperm : (a.insertionSort (· ≤ ·)).Perm (b.insertionSort (· ≤ ·)) :=
    (List.perm_insertionSort _ a).trans (h.trans (List.perm_insertionSort _ b).symm)
  have hsorted := hperm.eq_of_pairwise' (List.pairwise_insertionSort _ a)
    (List.pairwise_insertionSort _ b)
  rw [setKey, setKey, hsorted]

/-- A change without a request is none. -/
theorem mem_iff_of_no_requests {connId : ConnId} {had : List Channel}
    (h : addRemoveRequests connId had channels = []) (channel : Channel) :
    channel ∈ had ↔ channel ∈ channels := by
  rw [addRemoveRequests, List.map_eq_nil_iff, List.range_eq_nil] at h
  have hadd : (slices maxSubscribeList (channels.filter (· ∉ had))).length = 0 := by omega
  have hremove : (slices maxSubscribeList (had.filter (· ∉ channels))).length = 0 := by omega
  have hin := List.filter_eq_nil_iff.mp (slices_eq_nil (List.length_eq_zero_iff.mp hadd)) channel
  have hout := List.filter_eq_nil_iff.mp (slices_eq_nil (List.length_eq_zero_iff.mp hremove)) channel
  simp only [decide_eq_true_eq, not_not] at hin hout
  exact ⟨hout, hin⟩

/-! ## What a step does to the subscriptions -/

/-- Nothing but that a synchronisation may have been scheduled. -/
structure LiveClient.Quiet (c c' : LiveClient) : Prop where
  connId : c'.stream.connId = c.stream.connId
  subs : c'.subs = { c.subs with syncScheduled := c'.subs.syncScheduled }
  scheduled : c.subs.syncScheduled = true → c'.subs.syncScheduled = true

/-- The stream is closed. -/
structure LiveClient.Closed (c c' : LiveClient) : Prop where
  connId : c'.stream.connId = none
  subs : c'.subs = { c.subs with failed := false, retryTimer := none }

namespace LiveClient

variable {c : LiveClient}

theorem Quiet.same {c' : LiveClient} (subs : c'.subs = c.subs)
    (connId : c'.stream.connId = c.stream.connId) : c.Quiet c' := by
  constructor
  · exact connId
  · rw [subs]
  · rw [subs]
    exact id

theorem Closed.after {c₁ c₂ : LiveClient} (h : c.Closed c₁)
    (after : c₂.subs = c₁.subs ∧ c₂.stream.connId = c₁.stream.connId) : c.Closed c₂ :=
  ⟨after.2.trans h.connId, after.1.trans h.subs⟩

theorem quiet_connect {stream : Stream} (visible : Bool) (now : Nat)
    (connId : stream.connId = c.stream.connId) :
    c.Quiet (connect { c with stream } visible now) := by
  obtain ⟨hsubs, hconn⟩ := connect_subs { c with stream } visible now
  exact .same hsubs (hconn.trans connId)

theorem closed_teardown (c : LiveClient) : c.Closed c.teardown := ⟨rfl, rfl⟩

theorem quiet_or_closed_source (c : LiveClient) (now : Nat) (event : SourceEvent)
    (own : ∀ data, event ≠ .hello data) :
    c.Quiet (c.onSourceEvent now event) ∨ c.Closed (c.onSourceEvent now event) := by
  cases event with
  | hello data => exact absurd rfl (own data)
  | heartbeat data => exact .inl (.same rfl rfl)
  | ping data =>
      left
      simp only [onSourceEvent, onPing]
      split <;> exact .same rfl rfl
  | bye data =>
      right
      simp only [onSourceEvent, onByeEvent, onBye]
      split
      · exact c.closed_teardown.after ⟨rfl, rfl⟩
      · exact c.closed_teardown.after ⟨rfl, rfl⟩
      · exact c.closed_teardown.after (scheduleReconnect_subs _ _)
      · exact c.closed_teardown.after (scheduleReconnect_subs _ _)
  | error closed =>
      simp only [onSourceEvent, onError]
      split
      · exact .inl (.same rfl rfl)
      · right
        split
        · split
          · exact c.closed_teardown.after ⟨rfl, rfl⟩
          · exact c.closed_teardown.after (scheduleReconnect_subs _ _)
        · exact c.closed_teardown.after (scheduleReconnect_subs _ _)

end LiveClient

/-- The events that say something about what was sent. -/
def TabEvent.isSync : TabEvent → Bool
  | .source _ (.hello _) | .syncMicrotask | .subscribeRetryTimer | .answer _ _ => true
  | _ => false

variable {event : TabEvent}

theorem quiet_or_closed_step {t t' : Tab} (hs : TabStep t event t') (other : event.isSync = false) :
    t.client.Quiet t'.client ∨ t.client.Closed t'.client := by
  cases event with
  | syncMicrotask | subscribeRetryTimer | answer sent taken => cases other
  | start now =>
      cases hs
      left
      simp only [Tab.withClient, LiveClient.start]
      split
      · exact .same rfl rfl
      · exact LiveClient.quiet_connect _ _ rfl
  | stop =>
      cases hs
      simp only [Tab.withClient, LiveClient.stop]
      split
      · exact .inl (.same rfl rfl)
      · exact .inr ⟨rfl, rfl⟩
  | changeVisibility =>
      cases hs
      exact .inl (.same rfl rfl)
  | visibilityEvent now =>
      obtain ⟨_, rfl⟩ := of_guard hs
      dsimp only
      split
      · simp only [LiveClient.onVisibilityChange]
        split
        · left
          split
          · exact LiveClient.quiet_connect _ _ rfl
          · exact .same rfl rfl
        · exact .inr ⟨rfl, rfl⟩
      · exact .inl (.same rfl rfl)
  | source now event =>
      obtain ⟨_, rfl⟩ := of_guard hs
      apply LiveClient.quiet_or_closed_source _ now event
      rintro data rfl
      cases other
  | reconnectTimer now =>
      obtain ⟨_, rfl⟩ := of_guard hs
      exact .inl (LiveClient.quiet_connect _ _ rfl)
  | watchdog now =>
      obtain ⟨_, rfl⟩ := of_guard hs
      simp only [Tab.withClient, LiveClient.watchdogTick]
      split
      · left
        split
        · exact LiveClient.quiet_connect _ _ rfl
        · exact .same rfl rfl
      · split
        · exact .inl (.same rfl rfl)
        · split
          · exact .inr (t.client.closed_teardown.after (LiveClient.scheduleReconnect_subs _ _))
          · exact .inl (.same rfl rfl)
  | coalesceTimer channel | settle loop | resume loop | release =>
      obtain ⟨_, rfl⟩ := of_guard hs
      exact .inl (.same rfl rfl)
  | register channel listener =>
      cases hs
      left
      simp only [LiveClient.register]
      split
      · exact ⟨rfl, rfl, fun _ => rfl⟩
      · exact .same rfl rfl
  | remove removal =>
      obtain ⟨_, rfl⟩ := of_guard hs
      left
      simp only [Tab.withClient, LiveClient.remove]
      split
      · exact ⟨rfl, rfl, fun _ => rfl⟩
      · exact .same rfl rfl

/-! ## The books -/

/-- The POSTs, the answers and the counter of the set that was sent last. -/
structure Subscriptions.Books (s : Subscriptions) (answered : List SentId) : Prop where
  posted : ∀ post ∈ s.posts, post.sent.id < s.nextSent
  counted : ∀ id ∈ answered, id < s.nextSent
  current : ∀ sent, s.sent = some sent → sent.id < s.nextSent ∧
    postCount s.posts sent.id = answered.count sent.id + sent.pending ∧
      sent.key = setKey sent.channels ∧ sent.channels.Nodup

/-- A failure with retries left is pursued; what was sent since has its POSTs out. -/
structure Subscriptions.Kept (s : Subscriptions) (connId : Option ConnId) : Prop where
  waiting : s.failed = true → s.retries < subscribeRetryMs.length →
    ∀ sent, s.sent = some sent → connId = some sent.connId → 0 < sent.pending
  pursued : s.failed = true → ∀ id, connId = some id →
    (∃ sent, s.sent = some sent ∧ sent.connId = id) ∨
      s.retryTimer.isSome = true ∨ s.syncScheduled = true ∨ subscribeRetryMs.length ≤ s.retries

namespace Subscriptions

variable {s s' : Subscriptions} {answered : List SentId} {connId : Option ConnId}

theorem Kept.pursues {id : ConnId} (kept : s.Kept connId) (books : s.Books answered)
    (connected : connId = some id) (failed : s.failed = true) : s.Pursues id answered := by
  rcases kept.pursued failed id connected with ⟨sent, hsent, hconn⟩ | hrest
  · by_cases hretries : subscribeRetryMs.length ≤ s.retries
    · exact .inr (.inr (.inr hretries))
    · have hown : connId = some sent.connId := by rw [hconn, connected]
      have hpending := kept.waiting failed (by omega) sent hsent hown
      obtain ⟨-, hcount, -⟩ := books.current sent hsent
      exact .inl ⟨sent, hsent, hconn, by omega⟩
  · exact .inr hrest

theorem Books.same (books : s.Books answered) (posts : s'.posts = s.posts)
    (nextSent : s'.nextSent = s.nextSent) (sent : s'.sent = s.sent) : s'.Books answered := by
  obtain ⟨hposted, hcounted, hcurrent⟩ := books
  constructor
  · rwa [posts, nextSent]
  · rwa [nextSent]
  · rwa [posts, nextSent, sent]

theorem postCount_fresh {posts : List Post} {sent : SentId}
    (h : ∀ post ∈ posts, post.sent.id < sent) : postCount posts sent = 0 := by
  rw [postCount, List.countP_eq_zero]
  intro post hmem
  rw [decide_eq_true_eq]
  exact Nat.ne_of_lt (h post hmem)

theorem count_fresh (h : ∀ id ∈ answered, id < s.nextSent) : answered.count s.nextSent = 0 := by
  rw [List.count_eq_zero]
  intro hmem
  exact Nat.lt_irrefl _ (h _ hmem)

variable {channels : List Channel}

/-- A new set goes out with as many POSTs as it has bodies. -/
theorem Books.send (books : s.Books answered) (id : ConnId) (distinct : channels.Nodup)
    (rev : Nat) (bodies : List SubscribeBody) : (s.send id channels rev bodies).Books answered := by
  constructor
  · intro post hmem
    change post.sent.id < s.nextSent + 1
    rcases List.mem_append.mp hmem with hold | hnew
    · exact Nat.lt_succ_of_lt (books.posted post hold)
    · obtain ⟨body, -, rfl⟩ := List.mem_map.mp hnew
      exact Nat.lt_succ_self _
  · intro other hmem
    exact Nat.lt_succ_of_lt (books.counted other hmem)
  · rintro sent hsent
    cases hsent
    have hposts := postCount_fresh books.posted
    have hanswers := count_fresh books.counted
    have hcount : postCount (s.send id channels rev bodies).posts s.nextSent = bodies.length := by
      change postCount (s.posts ++ bodies.map _) s.nextSent = _
      rw [postCount, List.countP_append, ← postCount, hposts, Nat.zero_add, List.countP_map]
      exact List.countP_eq_length.mpr fun body _ => by simp
    exact ⟨Nat.lt_succ_self _, by rw [hcount, hanswers, Nat.zero_add], rfl, distinct⟩

/-- What a new set with a POST, or one after the last retry, leaves pursued. -/
theorem Kept.send (id : ConnId) (channels : List Channel) (rev : Nat)
    (bodies : List SubscribeBody)
    (some_ : s.failed = true → s.retries < subscribeRetryMs.length → bodies ≠ []) :
    (s.send id channels rev bodies).Kept (some id) := by
  constructor
  · rintro failed hretries sent hsent -
    cases hsent
    exact List.length_pos_of_ne_nil (some_ failed hretries)
  · rintro - _ heq
    cases heq
    exact .inl ⟨_, rfl, rfl⟩

/-- `sendSubscriptions` leaves the books in order and the failure pursued, whether or not
the microtask or the timer that called it was the last thing that pursued it. -/
theorem sendSubscriptions_kept (s : Subscriptions) (books : s.Books answered)
    (distinct : channels.Nodup)
    (waiting : s.failed = true → s.retries < subscribeRetryMs.length →
      ∀ sent, s.sent = some sent → connId = some sent.connId → 0 < sent.pending)
    (full : ¬(s.legacy = true ∧ s.failed = true ∧ s.retries < subscribeRetryMs.length ∧
      (∃ id ∈ connId, ∀ sent ∈ s.sent, sent.connId ≠ id) ∧ channels = [])) :
    (s.sendSubscriptions connId channels).Books answered ∧
      (s.sendSubscriptions connId channels).Kept connId := by
  cases connId with
  | none =>
      constructor
      · exact books
      · exact ⟨waiting, nofun⟩
  | some id =>
      simp only [sendSubscriptions]
      split
      · rename_i hkey
        constructor
        · exact books
        · constructor
          · exact waiting
          · rintro - _ heq
            cases heq
            obtain ⟨sent, hfilter, -⟩ := Option.map_eq_some_iff.mp hkey
            obtain ⟨hsent, hconn⟩ := Option.filter_eq_some_iff.mp hfilter
            exact .inl ⟨sent, hsent, of_decide_eq_true hconn⟩
      · rename_i hkey
        split
        · rename_i legacy
          constructor
          · exact books.send id distinct _ _
          · apply Kept.send
            intro failed hretries hbodies
            have hsame := mem_iff_of_no_requests (List.map_eq_nil_iff.mp hbodies)
            cases hprevious : s.sent.filter fun sent => sent.connId = id with
            | none =>
                rw [hprevious] at hsame
                have hempty : channels = [] := by
                  rw [List.eq_nil_iff_forall_not_mem]
                  intro channel hmem
                  exact absurd ((hsame channel).mpr hmem) List.not_mem_nil
                have hforgotten : ∀ sent ∈ s.sent, sent.connId ≠ id := by
                  intro sent hsent hconn
                  have hfound := Option.filter_eq_none_iff.mp hprevious sent hsent
                  exact hfound (decide_eq_true hconn)
                exact full ⟨legacy, failed, hretries, ⟨id, rfl, hforgotten⟩, hempty⟩
            | some sent =>
                rw [hprevious] at hsame hkey
                obtain ⟨hsent, -⟩ := Option.filter_eq_some_iff.mp hprevious
                obtain ⟨-, -, hsentKey, hdistinct⟩ := books.current sent hsent
                have hperm := (List.perm_ext_iff_of_nodup hdistinct distinct).mpr hsame
                apply hkey
                rw [Option.map_some, hsentKey, setKey_perm hperm]
        · constructor
          · exact books.send id distinct _ _
          · apply Kept.send
            intro failed hretries hbodies
            rw [List.map_eq_nil_iff] at hbodies
            exact (setRequests_spec id (s.rev + 1) channels).1 hbodies

theorem scheduleSubscribeRetry_spec (s : Subscriptions) :
    s.scheduleSubscribeRetry.posts = s.posts ∧ s.scheduleSubscribeRetry.nextSent = s.nextSent ∧
      s.scheduleSubscribeRetry.sent = s.sent ∧
      (s.scheduleSubscribeRetry.retryTimer.isSome = true ∨
        subscribeRetryMs.length ≤ s.scheduleSubscribeRetry.retries) := by
  unfold scheduleSubscribeRetry
  split
  · rename_i harmed
    exact ⟨rfl, rfl, rfl, .inl harmed⟩
  · split
    · rename_i hspent
      exact ⟨rfl, rfl, rfl, .inr (List.getElem?_eq_none_iff.mp hspent)⟩
    · exact ⟨rfl, rfl, rfl, .inl rfl⟩

end Subscriptions

/-- The client's subscriptions, as a run keeps them. -/
def AnsweredTab.Sound (a : AnsweredTab) : Prop :=
  a.tab.client.subs.Books a.answered ∧ a.tab.client.subs.Kept a.tab.client.stream.connId

variable {answered : List SentId} {c : LiveClient} {id : SentId} {current : SentSet}
  {c' : LiveClient} {a a' : AnsweredTab}

/-- An answer that is still owed is counted once. -/
theorem Subscriptions.Books.owed {s : Subscriptions} (books : s.Books answered)
    (owed : answered.count id < postCount s.posts id) : id < s.nextSent := by
  have hpos : 0 < postCount s.posts id := by omega
  obtain ⟨post, hmem, hid⟩ := List.countP_pos_iff.mp hpos
  rw [decide_eq_true_eq] at hid
  exact hid ▸ books.posted post hmem

theorem onSubscribeAnswer_lost (h : c.subs.sent = some current) :
    (c.onSubscribeAnswer current.id false).subs =
      Subscriptions.scheduleSubscribeRetry { c.subs with sent := none, failed := true } := by
  simp only [LiveClient.onSubscribeAnswer, h, ne_eq, not_true_eq_false, if_false,
    Bool.false_eq_true]
  cases hfailed : c.subs.failed with
  | false => rfl
  | true => simp only [Bool.not_true, Bool.false_eq_true, if_false]

theorem onSubscribeAnswer_taken (h : c.subs.sent = some current) :
    (c.onSubscribeAnswer current.id true).subs =
      if 0 < current.pending - 1 then
        { c.subs with sent := some { current with pending := current.pending - 1 } }
      else
        { c.subs with
          sent := some { current with pending := current.pending - 1 }
          retries := 0
          failed := false } := by
  simp only [LiveClient.onSubscribeAnswer, h, ne_eq, not_true_eq_false, if_false, if_true]
  split
  · rfl
  · cases hfailed : c.subs.failed with
    | false => simp only [Bool.false_eq_true, if_false]
    | true => rfl

/-- A taken answer counts the set's POSTs down, a refused one forgets the set and arms the
timer while the budget lasts. -/
theorem answer_sound (taken : Bool) (books : c.subs.Books answered)
    (kept : c.subs.Kept c.stream.connId) (owed : answered.count id < postCount c.subs.posts id) :
    (c.onSubscribeAnswer id taken).subs.Books (id :: answered) ∧
      (c.onSubscribeAnswer id taken).subs.Kept (c.onSubscribeAnswer id taken).stream.connId := by
  have hknown := books.owed owed
  have hcounted : ∀ other ∈ id :: answered, other < c.subs.nextSent := by
    intro other hmem
    rcases List.mem_cons.mp hmem with rfl | hmem
    · exact hknown
    · exact books.counted other hmem
  rw [LiveClient.onSubscribeAnswer_stream]
  cases hsent : c.subs.sent with
  | none =>
      have hsame : c.onSubscribeAnswer id taken = c := by simp only [LiveClient.onSubscribeAnswer, hsent]
      rw [hsame]
      constructor
      · exact ⟨books.posted, hcounted, fun sent h => by rw [hsent] at h; cases h⟩
      · exact kept
  | some current =>
      obtain ⟨hless, hcount, hkey, hdistinct⟩ := books.current current hsent
      by_cases hid : current.id = id
      case neg =>
        have hsame : c.onSubscribeAnswer id taken = c := by
          simp only [LiveClient.onSubscribeAnswer, hsent, ne_eq, hid, not_false_eq_true, if_true]
        rw [hsame]
        constructor
        · constructor
          · exact books.posted
          · exact hcounted
          · intro sent h
            rw [hsent] at h
            cases h
            rw [List.count_cons_of_ne (fun heq => hid heq.symm)]
            exact ⟨hless, hcount, hkey, hdistinct⟩
        · exact kept
      case pos =>
        subst hid
        cases taken with
        | false =>
            rw [onSubscribeAnswer_lost hsent]
            obtain ⟨hposts, hnext, hnone, harmed⟩ :=
              Subscriptions.scheduleSubscribeRetry_spec { c.subs with sent := none, failed := true }
            constructor
            · constructor
              · rw [hposts, hnext]
                exact books.posted
              · rw [hnext]
                exact hcounted
              · intro sent h
                rw [hnone] at h
                cases h
            · constructor
              · intro _ _ sent h
                rw [hnone] at h
                cases h
              · intro _ _ _
                right
                rcases harmed with htimer | hspent
                · exact .inl htimer
                · exact .inr (.inr hspent)
        | true =>
            have hbooks : ∀ sent : SentSet,
                some { current with pending := current.pending - 1 } = some sent →
                  sent.id < c.subs.nextSent ∧
                    postCount c.subs.posts sent.id =
                      (current.id :: answered).count sent.id + sent.pending ∧
                    sent.key = setKey sent.channels ∧ sent.channels.Nodup := by
              rintro sent h
              cases h
              have hdown : postCount c.subs.posts current.id =
                  answered.count current.id + 1 + (current.pending - 1) := by omega
              rw [List.count_cons_self]
              exact ⟨hless, hdown, hkey, hdistinct⟩
            rw [onSubscribeAnswer_taken hsent]
            split
            · rename_i hmore
              constructor
              · exact ⟨books.posted, hcounted, hbooks⟩
              · constructor
                · intro _ _ sent h _
                  cases h
                  exact hmore
                · intro hfailed other hconn
                  rcases kept.pursued hfailed other hconn with ⟨sent, h, hown⟩ | hrest
                  · rw [hsent] at h
                    cases h
                    exact .inl ⟨_, rfl, hown⟩
                  · exact .inr hrest
            · constructor
              · exact ⟨books.posted, hcounted, hbooks⟩
              · -- taken whole: the set has not failed
                constructor
                · intro hfailed
                  cases hfailed
                · intro hfailed
                  cases hfailed

/-! ## Runs -/

/-- A hello opens the books of its connection with the empty set and no failure. -/
theorem hello_sound (now : Nat) (data : Option Json) (books : c.subs.Books answered) :
    (c.onHello now data).subs.Books answered ∧
      (c.onHello now data).subs.Kept (c.onHello now data).stream.connId := by
  have hopened (connId : Option ConnId) (s : Subscriptions) (hbooks : s.Books answered)
      (hfailed : s.failed = false) :
      (s.openSent connId).Books answered ∧ (s.openSent connId).failed = false := by
    cases connId with
    | none => exact ⟨hbooks, hfailed⟩
    | some id =>
        constructor
        · constructor
          · exact fun post hmem => Nat.lt_succ_of_lt (hbooks.posted post hmem)
          · exact fun other hmem => Nat.lt_succ_of_lt (hbooks.counted other hmem)
          · rintro sent h
            cases h
            have hposts := Subscriptions.postCount_fresh hbooks.posted
            have hanswers := Subscriptions.count_fresh hbooks.counted
            have hnone : postCount s.posts s.nextSent = answered.count s.nextSent + 0 := by
              rw [hposts, hanswers]
            exact ⟨Nat.lt_succ_self _, hnone, rfl, List.nodup_nil⟩
        · exact hfailed
  obtain ⟨hbooks, hfailed⟩ := hopened (data.bind parseHelloFrame |>.map HelloFrame.connId)
    { c.subs with
      legacy := LiveClient.helloIsLegacy data, failed := false, retries := 0, retryTimer := none }
    (books.same rfl rfl rfl) rfl
  constructor
  · exact hbooks.same rfl rfl rfl
  · constructor
    · intro hnow
      cases hnow.symm.trans hfailed
    · intro hnow
      cases hnow.symm.trans hfailed

theorem LiveClient.desired_nodup (c : LiveClient) : c.desired.Nodup :=
  c.listeners.map.keys_nodup.filter _

theorem sync_sound {subs : Subscriptions} (books : c.subs.Books answered)
    (kept : c.subs.Kept c.stream.connId) (full : ¬c.EmptyResend)
    (called : subs = { c.subs with syncScheduled := false } ∨
      subs = { c.subs with retryTimer := none }) :
    (LiveClient.sendSubscriptions { c with subs }).subs.Books answered ∧
      (LiveClient.sendSubscriptions { c with subs }).subs.Kept c.stream.connId := by
  rcases called with rfl | rfl
  · exact Subscriptions.sendSubscriptions_kept { c.subs with syncScheduled := false }
      (books.same rfl rfl rfl) c.desired_nodup kept.waiting full
  · exact Subscriptions.sendSubscriptions_kept { c.subs with retryTimer := none }
      (books.same rfl rfl rfl) c.desired_nodup kept.waiting full

theorem quiet_sound (quiet : c.Quiet c') (books : c.subs.Books answered)
    (kept : c.subs.Kept c.stream.connId) :
    c'.subs.Books answered ∧ c'.subs.Kept c'.stream.connId := by
  obtain ⟨hconn, hsubs, hscheduled⟩ := quiet
  rw [hconn]
  constructor
  · rw [hsubs]
    exact books.same rfl rfl rfl
  · constructor
    · rw [hsubs]
      exact kept.waiting
    · intro hfailed id connected
      have hbefore : c.subs.failed = true := by
        rw [hsubs] at hfailed
        exact hfailed
      rcases kept.pursued hbefore id connected with hsent | htimer | hsync | hspent
      · left
        rw [hsubs]
        exact hsent
      · right
        left
        rw [hsubs]
        exact htimer
      · exact .inr (.inr (.inl (hscheduled hsync)))
      · right
        right
        right
        rw [hsubs]
        exact hspent

theorem closed_sound (closed : c.Closed c') (books : c.subs.Books answered) :
    c'.subs.Books answered ∧ c'.subs.Kept c'.stream.connId := by
  obtain ⟨hconn, hsubs⟩ := closed
  rw [hsubs, hconn]
  constructor
  · exact books.same rfl rfl rfl
  · exact ⟨nofun, nofun⟩

theorem sound_step (hs : PursuedStep a event a') (h : a.Sound) : a'.Sound := by
  obtain ⟨hstep, hfull⟩ := hs
  obtain ⟨books, kept⟩ := h
  have hother : event.isSync = false →
      (a.tab.step event).map (fun tab => AnsweredTab.mk tab a.answered) = some a' → a'.Sound := by
    intro hevent hmap
    obtain ⟨tab, htab, rfl⟩ := Option.map_eq_some_iff.mp hmap
    rcases quiet_or_closed_step htab hevent with hquiet | hclosed
    · exact quiet_sound hquiet books kept
    · exact closed_sound hclosed books
  cases event with
  | answer sent taken =>
      simp only [AnsweredStep, AnsweredTab.step, Option.ite_none_right_eq_some] at hstep
      obtain ⟨howed, hstep⟩ := hstep
      obtain ⟨tab, htab, rfl⟩ := Option.map_eq_some_iff.mp hstep
      cases htab
      exact answer_sound taken books kept howed
  | syncMicrotask =>
      obtain ⟨tab, htab, rfl⟩ := Option.map_eq_some_iff.mp hstep
      simp only [Tab.step, Option.ite_none_left_eq_some, Option.some.injEq] at htab
      obtain ⟨-, rfl⟩ := htab
      exact sync_sound books kept (hfull (.inl rfl)) (.inl rfl)
  | subscribeRetryTimer =>
      obtain ⟨tab, htab, rfl⟩ := Option.map_eq_some_iff.mp hstep
      simp only [Tab.step, Option.ite_none_left_eq_some, Option.some.injEq] at htab
      obtain ⟨-, rfl⟩ := htab
      exact sync_sound books kept (hfull (.inr rfl)) (.inr rfl)
  | source now event =>
      cases event with
      | hello data =>
          obtain ⟨tab, htab, rfl⟩ := Option.map_eq_some_iff.mp hstep
          simp only [Tab.step, Option.ite_none_left_eq_some, Option.some.injEq] at htab
          obtain ⟨-, rfl⟩ := htab
          exact hello_sound now data books
      | heartbeat _ | bye _ | ping _ | error _ => exact hother rfl hstep
  | start _ | stop | changeVisibility | visibilityEvent _ | reconnectTimer _ | watchdog _
  | coalesceTimer _ | settle _ | resume _ | release | register _ _ | remove _ =>
      exact hother rfl hstep

/-- In every run in which no empty set is due in the add/remove form after a failure, a
client that holds a connection and reports the failure pursues it. -/
theorem failed_subscription_pursued {a : AnsweredTab} {connId : ConnId}
    (h : Reachable AnsweredTab.Initial PursuedStep a)
    (connected : a.tab.client.stream.connId = some connId)
    (failed : a.tab.client.subs.failed = true) :
    a.tab.client.subs.Pursues connId a.answered := by
  have hsound : a.Sound := by
    apply h.invariant
    · rintro _ ⟨visible, rfl⟩
      constructor
      · exact ⟨nofun, nofun, nofun⟩
      · exact ⟨nofun, nofun⟩
    · intro before event after hstep hbefore
      exact sound_step hstep hbefore
  exact hsound.2.pursues hsound.1 connected failed

/-! ## A run that gives up -/

/-- A web from before the full-set sync says hello. -/
def legacyHello : Json := .obj [("connId", .str "c1")]

/-- A page is opened and its POST fails. -/
def failedPage : List TabEvent :=
  [.start 0, .source 10 (.hello (some legacyHello)), .syncMicrotask, .register "wiki-page:a" 1,
    .syncMicrotask, .answer 1 false]

/-- It is left before the retry. -/
def leftPage : List TabEvent :=
  failedPage ++ [.remove ⟨"wiki-page:a", 0, 1⟩, .syncMicrotask, .subscribeRetryTimer]

def AnsweredTab.loaded : AnsweredTab := ⟨.loaded true, []⟩

/-- A step that a run of the condition takes, computed. -/
def AnsweredTab.pursuedStep (a : AnsweredTab) (event : TabEvent) : Option AnsweredTab :=
  if (event = .syncMicrotask ∨ event = .subscribeRetryTimer) ∧ a.tab.client.EmptyResend then none
  else a.step event

theorem pursuedStep_spec (h : a.pursuedStep event = some a') : PursuedStep a event a' := by
  simp only [AnsweredTab.pursuedStep, Option.ite_none_left_eq_some, not_and] at h
  exact ⟨h.2, h.1⟩

theorem failed_subscription_pursued_retry :
    ∃ a : AnsweredTab, Reachable AnsweredTab.Initial PursuedStep a ∧
      a.tab.client.subs.failed = true ∧ a.tab.client.subs.Pursues "c1" a.answered := by
  have hruns : (follow AnsweredTab.pursuedStep .loaded failedPage).any (fun a =>
      a.tab.client.stream.connId = some "c1" && a.tab.client.subs.failed) = true := by
    decide +kernel
  obtain ⟨a, ha, hend⟩ := (Option.any_eq_true _ _).mp hruns
  rw [Bool.and_eq_true, decide_eq_true_eq] at hend
  have hrun := (run_of_follow ha).restrict PursuedStep fun _ _ _ _ hstep => pursuedStep_spec hstep
  have hreach : Reachable AnsweredTab.Initial PursuedStep a := ⟨_, _, ⟨true, rfl⟩, hrun⟩
  exact ⟨a, hreach, hend.2, failed_subscription_pursued hreach hend.1 hend.2⟩

/-- The empty set goes out in no POST, and the retry finds it sent: the failure stays, with
retries left that nothing starts. -/
theorem failed_subscription_given_up :
    ∃ a : AnsweredTab, Reachable AnsweredTab.Initial AnsweredStep a ∧
      a.tab.client.stream.connId = some "c1" ∧ a.tab.client.subs.failed = true ∧
        ¬a.tab.client.subs.Pursues "c1" a.answered := by
  have hruns : (follow AnsweredTab.step .loaded leftPage).any (fun a =>
      a.tab.client.stream.connId = some "c1" && a.tab.client.subs.failed &&
        a.tab.client.subs.retryTimer.isNone && !a.tab.client.subs.syncScheduled &&
          a.tab.client.subs.retries < subscribeRetryMs.length &&
            a.tab.client.subs.sent.all fun sent =>
              postCount a.tab.client.subs.posts sent.id ≤ a.answered.count sent.id) = true := by
    decide +kernel
  obtain ⟨a, ha, hend⟩ := (Option.any_eq_true _ _).mp hruns
  simp only [Bool.and_eq_true, decide_eq_true_eq, Bool.not_eq_true', Option.isNone_iff_eq_none] at hend
  obtain ⟨⟨⟨⟨⟨hconn, hfailed⟩, htimer⟩, hsync⟩, hretries⟩, hsent⟩ := hend
  have hrun : Run AnsweredStep .loaded leftPage a := run_of_follow ha
  have hreach : Reachable AnsweredTab.Initial AnsweredStep a := ⟨_, _, ⟨true, rfl⟩, hrun⟩
  have hgone : ¬a.tab.client.subs.Pursues "c1" a.answered := by
    rintro (⟨sent, hsome, -, howed⟩ | harmed | hscheduled | hspent)
    · rw [hsome, Option.all_some, decide_eq_true_eq] at hsent
      omega
    · rw [htimer] at harmed
      cases harmed
    · rw [hsync] at hscheduled
      cases hscheduled
    · omega
  exact ⟨a, hreach, hconn, hfailed, hgone⟩

end Sinnlos.Live

import Sinnlos.Live.BusFrame
import Sinnlos.Live.Network

/-! # The subscription sync converges

Every set goes out whole under a revision of its own, so the connection's
stored revision says which set its channels come from, and a connection that
took every POST of the newest set holds exactly that set. The invariant ties
the POSTs the client sent to the connections of its streams.
-/

namespace Sinnlos.Live
open Sinnlos.Runs

/-! ## What a set goes out as -/

variable {c : Channel}

theorem mem_slicesFuel {n : Nat} (hn : 0 < n) {fuel : Nat} {channels : List Channel}
    (hfuel : channels.length ≤ fuel) :
    c ∈ channels ↔ ∃ part ∈ slicesFuel n fuel channels, c ∈ part := by
  induction fuel generalizing channels with
  | zero =>
      have hnil : channels = [] := List.length_eq_zero_iff.mp (Nat.le_zero.mp hfuel)
      simp [hnil, slicesFuel]
  | succ fuel ih =>
      cases channels with
      | nil => simp [slicesFuel]
      | cons d rest =>
          have hless : ((d :: rest).drop n).length ≤ fuel := by
            rw [List.length_drop, List.length_cons]
            rw [List.length_cons] at hfuel
            omega
          have hsplit : c ∈ d :: rest ↔
              c ∈ (d :: rest).take n ∨ c ∈ (d :: rest).drop n := by
            rw [← List.mem_append, List.take_append_drop]
          rw [hsplit, slicesFuel, ih hless]
          · simp only [List.mem_cons, exists_eq_or_imp]
          · intro hnil
            cases hnil

theorem mem_slices {channels : List Channel} :
    c ∈ channels ↔ ∃ part ∈ slices maxSubscribeList channels, c ∈ part :=
  mem_slicesFuel (by decide) (Nat.le_refl _)

/-- The POSTs of one set: its connection and revision, parts of it, all of it. -/
theorem setRequests_spec (connId : ConnId) (rev : Nat) (channels : List Channel) :
    setRequests connId rev channels ≠ [] ∧
    (∀ request ∈ setRequests connId rev channels,
      request.connId = connId ∧ request.rev = rev ∧ request.channels ⊆ channels) ∧
    ∀ c ∈ channels, ∃ request ∈ setRequests connId rev channels, c ∈ request.channels := by
  rw [setRequests]
  split
  · rename_i hnone
    rw [List.map_eq_nil_iff] at hnone
    refine ⟨List.cons_ne_nil _ _, ?_, ?_⟩
    · intro request hmem
      rw [List.mem_singleton] at hmem
      rw [hmem]
      exact ⟨rfl, rfl, List.nil_subset _⟩
    · intro c hc
      obtain ⟨part, hpart, _⟩ := mem_slices.mp hc
      rw [hnone] at hpart
      cases hpart
  · rename_i hsome
    refine ⟨hsome, ?_, ?_⟩
    · intro request hmem
      obtain ⟨part, hpart, heq⟩ := List.mem_map.mp hmem
      rw [← heq]
      exact ⟨rfl, rfl, fun c hc => mem_slices.mpr ⟨part, hpart, hc⟩⟩
    · intro c hc
      obtain ⟨part, hpart, hmem⟩ := mem_slices.mp hc
      exact ⟨_, List.mem_map.mpr ⟨part, hpart, rfl⟩, hmem⟩

/-! ## What an event does to the subscriptions -/

/-- The part of the subscriptions that says what was sent. -/
structure Subscriptions.SameLedger (s s' : Subscriptions) : Prop where
  rev : s'.rev = s.rev
  sent : s'.sent = s.sent
  nextSent : s'.nextSent = s.nextSent
  legacy : s'.legacy = s.legacy
  posts : s'.posts = s.posts

theorem Subscriptions.SameLedger.refl (s : Subscriptions) : s.SameLedger s :=
  ⟨rfl, rfl, rfl, rfl, rfl⟩

/-- A new set and its POSTs, under the next revision. -/
structure Subscriptions.Sends (s s' : Subscriptions) (connId : ConnId)
    (channels : List Channel) : Prop where
  rev : s'.rev = s.rev + 1
  nextSent : s'.nextSent = s.nextSent + 1
  legacy : s'.legacy = s.legacy
  sent : ∃ sent, s'.sent = some sent ∧ sent.id = s.nextSent ∧ sent.connId = connId ∧
    sent.channels = channels ∧ s'.posts =
      s.posts ++ (setRequests connId (s.rev + 1) channels).map fun request => ⟨sent, .set request⟩

theorem sendSubscriptions_cases (s : Subscriptions) (connId : Option ConnId)
    (channels : List Channel) (modern : s.legacy = false) :
    s.SameLedger (s.sendSubscriptions connId channels) ∨
      ∃ id, connId = some id ∧ s.Sends (s.sendSubscriptions connId channels) id channels := by
  cases connId with
  | none => exact Or.inl (Subscriptions.SameLedger.refl s)
  | some id =>
      simp only [Subscriptions.sendSubscriptions, modern, Bool.false_eq_true, if_false]
      split
      · exact Or.inl (Subscriptions.SameLedger.refl s)
      · right
        refine ⟨id, rfl, rfl, rfl, rfl, _, rfl, rfl, rfl, rfl, ?_⟩
        simp only [Subscriptions.send, List.map_map]
        rfl

/-- How an event of the tab's own changes what was sent. -/
inductive SubsMoves (c c' : LiveClient) : Prop
  | quiet : c.subs.SameLedger c'.subs →
      (c'.stream.connId = c.stream.connId ∨ c'.stream.connId = none) → SubsMoves c c'
  | sends (connId : ConnId) (channels : List Channel) : c.stream.connId = some connId →
      c'.stream.connId = some connId → c.subs.Sends c'.subs connId channels → SubsMoves c c'

theorem SubsMoves.same {c c' : LiveClient} (subs : c'.subs = c.subs)
    (connId : c'.stream.connId = c.stream.connId) : SubsMoves c c' :=
  .quiet (subs ▸ Subscriptions.SameLedger.refl _) (Or.inl connId)

namespace LiveClient

theorem connect_subs (c : LiveClient) (visible : Bool) (now : Nat) :
    (c.connect visible now).subs = c.subs ∧
      (c.connect visible now).stream.connId = c.stream.connId := by
  simp only [connect]
  repeat' split
  all_goals exact ⟨rfl, rfl⟩

theorem scheduleReconnect_subs (c : LiveClient) (extraSpreadMs : Nat) :
    (c.scheduleReconnect extraSpreadMs).subs = c.subs ∧
      (c.scheduleReconnect extraSpreadMs).stream.connId = c.stream.connId := by
  simp only [scheduleReconnect]
  split <;> exact ⟨rfl, rfl⟩

variable {c : LiveClient}

/-- Closing the stream forgets the connection id and keeps the ledger. -/
theorem subsMoves_closed (c₁ : LiveClient) {c₂ : LiveClient} (ledger : c.subs.SameLedger c₁.subs)
    (closed : c₁.stream.connId = none)
    (after : c₂.subs = c₁.subs ∧ c₂.stream.connId = c₁.stream.connId) : SubsMoves c c₂ := by
  refine .quiet ?_ (Or.inr (after.2.trans closed))
  rw [after.1]
  exact ledger

theorem subsMoves_connect {stream : Stream} (visible : Bool) (now : Nat)
    (connId : stream.connId = c.stream.connId) :
    SubsMoves c (connect { c with stream } visible now) := by
  obtain ⟨hsubs, hconn⟩ := connect_subs { c with stream } visible now
  exact .same hsubs (hconn.trans connId)

theorem subsMoves_source (c : LiveClient) (now : Nat) (event : SourceEvent)
    (own : ∀ data, event ≠ .hello data) : SubsMoves c (c.onSourceEvent now event) := by
  cases event with
  | hello data => exact absurd rfl (own data)
  | heartbeat data => exact .same rfl rfl
  | ping data =>
      simp only [onSourceEvent, onPing]
      split <;> exact .same rfl rfl
  | bye data =>
      simp only [onSourceEvent, onByeEvent, onBye]
      split
      · exact subsMoves_closed c.teardown ⟨rfl, rfl, rfl, rfl, rfl⟩ rfl ⟨rfl, rfl⟩
      · exact subsMoves_closed c.teardown ⟨rfl, rfl, rfl, rfl, rfl⟩ rfl ⟨rfl, rfl⟩
      · exact subsMoves_closed c.teardown ⟨rfl, rfl, rfl, rfl, rfl⟩ rfl
          (scheduleReconnect_subs _ _)
      · exact subsMoves_closed c.teardown ⟨rfl, rfl, rfl, rfl, rfl⟩ rfl
          (scheduleReconnect_subs _ _)
  | error closed =>
      simp only [onSourceEvent, onError]
      split
      · exact .same rfl rfl
      · split
        · split
          · exact subsMoves_closed c.teardown ⟨rfl, rfl, rfl, rfl, rfl⟩ rfl ⟨rfl, rfl⟩
          · exact subsMoves_closed c.teardown ⟨rfl, rfl, rfl, rfl, rfl⟩ rfl
              (scheduleReconnect_subs _ _)
        · exact subsMoves_closed c.teardown ⟨rfl, rfl, rfl, rfl, rfl⟩ rfl
            (scheduleReconnect_subs _ _)

/-- A sync of a client whose ledger is `c`'s. -/
theorem subsMoves_sync {subs : Subscriptions} (ledger : c.subs.SameLedger subs)
    (modern : c.subs.legacy = false) : SubsMoves c (sendSubscriptions { c with subs }) := by
  rcases sendSubscriptions_cases subs c.stream.connId c.desired (ledger.legacy.trans modern) with
    hsame | ⟨connId, hconn, hsends⟩
  · refine .quiet ⟨?_, ?_, ?_, ?_, ?_⟩ (Or.inl rfl)
    · exact hsame.rev.trans ledger.rev
    · exact hsame.sent.trans ledger.sent
    · exact hsame.nextSent.trans ledger.nextSent
    · exact hsame.legacy.trans ledger.legacy
    · exact hsame.posts.trans ledger.posts
  · refine .sends connId c.desired hconn hconn ⟨?_, ?_, ?_, ?_⟩
    · rw [← ledger.rev]
      exact hsends.rev
    · rw [← ledger.nextSent]
      exact hsends.nextSent
    · rw [← ledger.legacy]
      exact hsends.legacy
    · rw [← ledger.nextSent, ← ledger.rev, ← ledger.posts]
      exact hsends.sent

end LiveClient

theorem subsMoves_of_step {t t' : Tab} {event : TabEvent} (hs : TabStep t event t')
    (own : event.isOwn = true) (modern : t.client.subs.legacy = false) :
    SubsMoves t.client t'.client := by
  cases event with
  | start now =>
      cases hs
      simp only [Tab.withClient, LiveClient.start]
      split
      · exact .same rfl rfl
      · exact LiveClient.subsMoves_connect _ _ rfl
  | stop =>
      cases hs
      simp only [Tab.withClient, LiveClient.stop]
      split
      · exact .same rfl rfl
      · exact .quiet ⟨rfl, rfl, rfl, rfl, rfl⟩ (Or.inr rfl)
  | changeVisibility =>
      cases hs
      exact .same rfl rfl
  | visibilityEvent now =>
      obtain ⟨_, rfl⟩ := of_guard hs
      dsimp only
      split
      · simp only [LiveClient.onVisibilityChange]
        split
        · split
          · exact LiveClient.subsMoves_connect _ _ rfl
          · exact .same rfl rfl
        · exact .quiet ⟨rfl, rfl, rfl, rfl, rfl⟩ (Or.inr rfl)
      · exact .same rfl rfl
  | source now event =>
      obtain ⟨_, rfl⟩ := of_guard hs
      refine LiveClient.subsMoves_source _ now event ?_
      intro data heq
      subst heq
      cases own
  | reconnectTimer now =>
      obtain ⟨_, rfl⟩ := of_guard hs
      exact LiveClient.subsMoves_connect _ _ rfl
  | watchdog now =>
      obtain ⟨_, rfl⟩ := of_guard hs
      simp only [Tab.withClient, LiveClient.watchdogTick]
      split
      · split
        · exact LiveClient.subsMoves_connect _ _ rfl
        · exact .same rfl rfl
      · split
        · exact .same rfl rfl
        · split
          · exact LiveClient.subsMoves_closed t.client.teardown
              ⟨rfl, rfl, rfl, rfl, rfl⟩ rfl (LiveClient.scheduleReconnect_subs _ _)
          · exact .same rfl rfl
  | coalesceTimer channel | settle loop | resume loop | release =>
      obtain ⟨_, rfl⟩ := of_guard hs
      exact .same rfl rfl
  | register channel listener =>
      cases hs
      simp only [LiveClient.register]
      split
      · exact .quiet ⟨rfl, rfl, rfl, rfl, rfl⟩ (Or.inl rfl)
      · exact .same rfl rfl
  | remove removal =>
      obtain ⟨_, rfl⟩ := of_guard hs
      simp only [Tab.withClient, LiveClient.remove]
      split
      · exact .quiet ⟨rfl, rfl, rfl, rfl, rfl⟩ (Or.inl rfl)
      · exact .same rfl rfl
  | syncMicrotask | subscribeRetryTimer =>
      obtain ⟨_, rfl⟩ := of_guard hs
      exact LiveClient.subsMoves_sync ⟨rfl, rfl, rfl, rfl, rfl⟩ modern
  | answer sent taken => cases own

/-! ## What the client sent -/

def Post.rev (post : Post) : Nat :=
  match post.body with
  | .set request => request.rev
  | .addRemove _ => 0

def Post.channels (post : Post) : List Channel :=
  match post.body with
  | .set request => request.channels
  | .addRemove _ => []

/-- The POSTs sent so far: full sets, each whole and under a revision of its
own, the current set under the newest. -/
structure Subscriptions.Ledger (s : Subscriptions) : Prop where
  modern : s.legacy = false
  shape : ∀ post ∈ s.posts, post.body = .set ⟨post.sent.connId, post.rev, post.channels⟩ ∧
    1 ≤ post.rev ∧ post.rev ≤ s.rev ∧ post.channels ⊆ post.sent.channels
  known : ∀ post ∈ s.posts, post.sent.id < s.nextSent
  oneSet : ∀ post ∈ s.posts, ∀ post' ∈ s.posts, post.rev = post'.rev → post.sent = post'.sent
  oneRev : ∀ post ∈ s.posts, ∀ post' ∈ s.posts, post.sent.id = post'.sent.id →
    post.rev = post'.rev
  whole : ∀ post ∈ s.posts, ∀ c ∈ post.sent.channels,
    ∃ post' ∈ s.posts, post'.sent.id = post.sent.id ∧ c ∈ post'.channels
  current : ∀ sent, s.sent = some sent → sent.id < s.nextSent ∧
    ((sent.channels = [] ∧ ∀ post ∈ s.posts, post.sent.connId ≠ sent.connId) ∨
      ∃ post ∈ s.posts, post.sent.id = sent.id ∧ post.sent.connId = sent.connId ∧
        post.sent.channels = sent.channels ∧ post.rev = s.rev)

namespace Subscriptions

variable {s s' : Subscriptions}

theorem Ledger.same (h : s.Ledger) (same : s.SameLedger s') : s'.Ledger := by
  obtain ⟨modern, shape, known, oneSet, oneRev, whole, current⟩ := h
  obtain ⟨hrev, hsent, hnext, hlegacy, hposts⟩ := same
  refine ⟨hlegacy.trans modern, ?_, ?_, ?_, ?_, ?_, ?_⟩
  · rw [hposts, hrev]
    exact shape
  · rw [hposts, hnext]
    exact known
  · rw [hposts]
    exact oneSet
  · rw [hposts]
    exact oneRev
  · rw [hposts]
    exact whole
  · rw [hposts, hsent, hnext, hrev]
    exact current

variable {connId : ConnId}

theorem Ledger.sends {channels : List Channel} (h : s.Ledger) (hs : s.Sends s' connId channels) :
    s'.Ledger := by
  obtain ⟨modern, shape, known, oneSet, oneRev, whole, current⟩ := h
  obtain ⟨hrev, hnext, hlegacy, sent, hsent, hid, hconn, hchannels, hposts⟩ := hs
  obtain ⟨hsome, hparts, hall⟩ := setRequests_spec connId (s.rev + 1) channels
  have split : ∀ post ∈ s'.posts, post ∈ s.posts ∨
      post.sent = sent ∧ post.rev = s.rev + 1 ∧
        post.body = .set ⟨connId, post.rev, post.channels⟩ ∧ post.channels ⊆ channels := by
    intro post hmem
    rw [hposts, List.mem_append] at hmem
    rcases hmem with hold | hnew
    · exact Or.inl hold
    · obtain ⟨request, hreq, heq⟩ := List.mem_map.mp hnew
      obtain ⟨h₁, h₂, h₃⟩ := hparts request hreq
      subst heq
      refine Or.inr ⟨rfl, h₂, ?_, h₃⟩
      show SubscribeBody.set request = .set ⟨connId, request.rev, request.channels⟩
      rw [← h₁]
  have newer : ∀ post ∈ s.posts, post.rev < s.rev + 1 := fun post hmem =>
    Nat.lt_succ_of_le (shape post hmem).2.2.1
  have older : ∀ post ∈ s.posts, post.sent.id ≠ s.nextSent := fun post hmem =>
    Nat.ne_of_lt (known post hmem)
  refine ⟨hlegacy.trans modern, ?_, ?_, ?_, ?_, ?_, ?_⟩
  · intro post hmem
    rcases split post hmem with hold | ⟨hset, hr, hbody, hsub⟩
    · obtain ⟨h₁, h₂, h₃, h₄⟩ := shape post hold
      exact ⟨h₁, h₂, by omega, h₄⟩
    · refine ⟨?_, by omega, by omega, ?_⟩
      · rw [hset, hconn]
        exact hbody
      · rw [hset, hchannels]
        exact hsub
  · intro post hmem
    rw [hnext]
    rcases split post hmem with hold | ⟨hset, _⟩
    · exact Nat.lt_succ_of_lt (known post hold)
    · rw [hset, hid]
      exact Nat.lt_succ_self _
  · intro post hmem post' hmem' hr
    rcases split post hmem with hold | ⟨hset, hnew, _⟩
    · rcases split post' hmem' with hold' | ⟨_, hnew', _⟩
      · exact oneSet post hold post' hold' hr
      · have hlt := newer post hold
        omega
    · rcases split post' hmem' with hold' | ⟨hset', _⟩
      · have hlt := newer post' hold'
        omega
      · rw [hset, hset']
  · intro post hmem post' hmem' hsame
    rcases split post hmem with hold | ⟨hset, hnew, _⟩
    · rcases split post' hmem' with hold' | ⟨hset', _⟩
      · exact oneRev post hold post' hold' hsame
      · rw [hset', hid] at hsame
        exact absurd hsame (older post hold)
    · rcases split post' hmem' with hold' | ⟨_, hnew', _⟩
      · rw [hset, hid] at hsame
        exact absurd hsame.symm (older post' hold')
      · rw [hnew, hnew']
  · intro post hmem c hc
    rcases split post hmem with hold | ⟨hset, _⟩
    · obtain ⟨post', hmem', hsame, hc'⟩ := whole post hold c hc
      refine ⟨post', ?_, hsame, hc'⟩
      rw [hposts]
      exact List.mem_append_left _ hmem'
    · rw [hset, hchannels] at hc
      obtain ⟨request, hreq, hc'⟩ := hall c hc
      refine ⟨⟨sent, .set request⟩, ?_, by rw [hset], hc'⟩
      rw [hposts]
      exact List.mem_append_right _ (List.mem_map.mpr ⟨request, hreq, rfl⟩)
  · intro found hfound
    rw [hsent] at hfound
    cases hfound
    refine ⟨by rw [hid, hnext]; exact Nat.lt_succ_self _, Or.inr ?_⟩
    obtain ⟨request, hreq⟩ := List.exists_mem_of_ne_nil _ hsome
    refine ⟨⟨sent, .set request⟩, ?_, rfl, rfl, rfl, ?_⟩
    · rw [hposts]
      exact List.mem_append_right _ (List.mem_map.mpr ⟨request, hreq, rfl⟩)
    · rw [hrev]
      exact (hparts request hreq).2.1

/-- A hello's connection starts with the empty set. -/
theorem Ledger.opens (h : s.Ledger) (rev : s'.rev = s.rev)
    (nextSent : s'.nextSent = s.nextSent + 1) (legacy : s'.legacy = false)
    (posts : s'.posts = s.posts) (sent : s'.sent = some ⟨s.nextSent, connId, "", [], 0⟩)
    (unused : ∀ post ∈ s.posts, post.sent.connId ≠ connId) : s'.Ledger := by
  obtain ⟨_, shape, known, oneSet, oneRev, whole, _⟩ := h
  refine ⟨legacy, ?_, ?_, ?_, ?_, ?_, ?_⟩
  · rw [posts, rev]
    exact shape
  · intro post hmem
    rw [posts] at hmem
    rw [nextSent]
    exact Nat.lt_succ_of_lt (known post hmem)
  · rw [posts]
    exact oneSet
  · rw [posts]
    exact oneRev
  · rw [posts]
    exact whole
  · intro found hfound
    rw [sent] at hfound
    cases hfound
    refine ⟨by rw [nextSent]; exact Nat.lt_succ_self _, Or.inl ⟨rfl, ?_⟩⟩
    rw [posts]
    exact unused

/-- An answer only counts down or forgets the current set. -/
theorem Ledger.answered (h : s.Ledger) (rev : s'.rev = s.rev)
    (nextSent : s'.nextSent = s.nextSent) (legacy : s'.legacy = s.legacy)
    (posts : s'.posts = s.posts)
    (sent : ∀ found, s'.sent = some found → ∃ before, s.sent = some before ∧
      found.id = before.id ∧ found.connId = before.connId ∧ found.channels = before.channels) :
    s'.Ledger := by
  obtain ⟨modern, shape, known, oneSet, oneRev, whole, current⟩ := h
  refine ⟨legacy.trans modern, ?_, ?_, ?_, ?_, ?_, ?_⟩
  · rw [posts, rev]
    exact shape
  · rw [posts, nextSent]
    exact known
  · rw [posts]
    exact oneSet
  · rw [posts]
    exact oneRev
  · rw [posts]
    exact whole
  · intro found hfound
    obtain ⟨before, hbefore, hid, hconn, hchannels⟩ := sent found hfound
    rw [posts, nextSent, rev, hid, hconn, hchannels]
    exact current before hbefore

end Subscriptions

/-! ## What a connection holds -/

/-- The connection's channels against the POSTs of its stream that were taken. -/
structure Held (posts : List Post) (accepted : Finset Nat) (id : ConnId) (conn : Connection) :
    Prop where
  fresh : conn.rev = none → conn.channels = ∅ ∧
    ∀ i ∈ accepted, ∀ post, posts[i]? = some post → post.sent.connId ≠ id
  bound : ∀ rev, conn.rev = some rev → ∀ i ∈ accepted, ∀ post, posts[i]? = some post →
    post.sent.connId = id → post.rev ≤ rev
  holds : ∀ rev, conn.rev = some rev → ∃ post ∈ posts, post.rev = rev ∧
    post.sent.connId = id ∧ conn.channels ⊆ post.sent.channels.toFinset ∧
    (post.sent.channels.toFinset.card ≤ maxChannelsPerConnection →
      ∀ i ∈ accepted, ∀ part, posts[i]? = some part → part.sent.connId = id →
        part.rev = rev → part.channels.toFinset ⊆ conn.channels)

/-- More POSTs take nothing from it. -/
theorem Held.more {posts more : List Post} {accepted : Finset Nat} {id : ConnId}
    {conn : Connection} (h : Held posts accepted id conn)
    (known : ∀ i ∈ accepted, i < posts.length) : Held (posts ++ more) accepted id conn := by
  have back : ∀ i ∈ accepted, ∀ post, (posts ++ more)[i]? = some post →
      posts[i]? = some post := by
    intro i hi post hpost
    rwa [List.getElem?_append_left (known i hi)] at hpost
  obtain ⟨fresh, bound, holds⟩ := h
  refine ⟨?_, ?_, ?_⟩
  · intro hnone
    obtain ⟨hempty, hno⟩ := fresh hnone
    exact ⟨hempty, fun i hi post hpost => hno i hi post (back i hi post hpost)⟩
  · intro rev hrev i hi post hpost
    exact bound rev hrev i hi post (back i hi post hpost)
  · intro rev hrev
    obtain ⟨post, hmem, hr, hconn, hsub, hall⟩ := holds rev hrev
    refine ⟨post, List.mem_append_left _ hmem, hr, hconn, hsub, ?_⟩
    intro hcard i hi part hpart
    exact hall hcard i hi part (back i hi part hpart)

/-! ## A delivery -/

theorem sync_cases (bus : LiveBus) (connId : ConnId) (userId : UserId) (rev : Nat)
    (channels : List Channel) :
    (bus.sync connId userId rev channels = (bus, .unknown)) ∨
    (∃ conn, bus.connections.get? connId = some conn ∧ rev < conn.currentRev ∧
      bus.sync connId userId rev channels = (bus, .stale conn.currentRev)) ∨
    ∃ conn added dropped, bus.connections.get? connId = some conn ∧ conn.currentRev ≤ rev ∧
      LiveBus.addCounted (LiveBus.advanceTo conn rev).channels channels = (added, dropped) ∧
      bus.sync connId userId rev channels =
        ({ bus with
            connections := bus.connections.set connId
              { LiveBus.advanceTo conn rev with channels := added } },
          .applied rev added.card dropped) := by
  rw [LiveBus.sync]
  cases hc : bus.connections.get? connId with
  | none => exact Or.inl rfl
  | some conn =>
      dsimp only
      split
      · exact Or.inl rfl
      · split
        · rename_i hstale
          exact Or.inr (Or.inl ⟨conn, rfl, hstale, rfl⟩)
        · rename_i hnew
          exact Or.inr (Or.inr ⟨conn, _, _, rfl, Nat.not_lt.mp hnew, rfl, rfl⟩)

theorem parse_spec {body request : LiveSubscribeRequest}
    (h : parseSubscribeRequest body = some request) :
    request.connId = body.connId ∧ request.rev = body.rev ∧
      request.channels.toFinset = body.channels.toFinset := by
  simp only [parseSubscribeRequest] at h
  repeat' split at h
  all_goals cases h
  refine ⟨rfl, rfl, ?_⟩
  ext c
  simp only [List.mem_toFinset, mem_firstOccurrences]

/-- What the route makes of a full-set body: refused, too late, or applied. -/
theorem subscribeRoute_cases (bus : LiveBus) (context : RequestContext)
    (body : LiveSubscribeRequest) :
    ((subscribeRoute bus context (.set body)).1 = bus ∧
      (subscribeRoute bus context (.set body)).2.isOk = false) ∨
    (∃ conn, bus.connections.get? body.connId = some conn ∧ body.rev < conn.currentRev ∧
      (subscribeRoute bus context (.set body)).1 = bus) ∨
    ∃ conn added, bus.connections.get? body.connId = some conn ∧ conn.currentRev ≤ body.rev ∧
      added ⊆ (LiveBus.advanceTo conn body.rev).channels ∪ body.channels.toFinset ∧
      (((LiveBus.advanceTo conn body.rev).channels ∪ body.channels.toFinset).card ≤
          maxChannelsPerConnection →
        added = (LiveBus.advanceTo conn body.rev).channels ∪ body.channels.toFinset) ∧
      (subscribeRoute bus context (.set body)).1 =
        { bus with
          connections := bus.connections.set body.connId
            { LiveBus.advanceTo conn body.rev with channels := added } } := by
  rw [subscribeRoute]
  cases context.sessionUser with
  | none => exact Or.inl ⟨rfl, rfl⟩
  | some userId =>
      dsimp only
      split
      · exact Or.inl ⟨rfl, rfl⟩
      split
      · exact Or.inl ⟨rfl, rfl⟩
      split
      · exact Or.inl ⟨rfl, rfl⟩
      split
      · exact Or.inl ⟨rfl, rfl⟩
      rw [subscribeSet]
      cases hparse : parseSubscribeRequest body with
      | none => exact Or.inl ⟨rfl, rfl⟩
      | some request =>
          obtain ⟨hconn, hrev, hchannels⟩ := parse_spec hparse
          dsimp only
          rcases sync_cases bus request.connId userId request.rev request.channels with
            hunknown | ⟨conn, hc, hstale, heq⟩ | ⟨conn, added, dropped, hc, hle, hadd, heq⟩
          · rw [hunknown]
            exact Or.inl ⟨rfl, rfl⟩
          · rw [heq]
            rw [hconn] at hc
            rw [hrev] at hstale
            exact Or.inr (Or.inl ⟨conn, hc, hstale, rfl⟩)
          · rw [heq]
            have hsub := LiveBus.addCounted_subset request.channels
              (LiveBus.advanceTo conn request.rev).channels
            have hroom := LiveBus.addCounted_of_room request.channels
              (LiveBus.advanceTo conn request.rev).channels
            rw [hadd, hchannels] at hsub hroom
            rw [hconn] at hc
            rw [hrev] at hle hsub hroom
            refine Or.inr (Or.inr ⟨conn, added, hc, hle, hsub, hroom, ?_⟩)
            rw [hconn, hrev]

end Sinnlos.Live

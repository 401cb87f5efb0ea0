import Sinnlos.Live.SubscriptionSync

/-! # The connection ends up with the newest set

The invariant of the tab and the bus together, kept by every event, and what
it says at the end of a sync: a connection whose client has every POST of its
current set answered as taken holds that set.
-/

namespace Sinnlos.Live
open Sinnlos.Runs

/-! ## One connection -/

variable {posts : List Post} {accepted : Finset Nat} {id : ConnId} {conn : Connection} {i : Nat}
  {post : Post} {n n' : Net}

theorem Held.fewer {accepted' : Finset Nat} (h : Held posts accepted id conn)
    (sub : accepted' ⊆ accepted) : Held posts accepted' id conn := by
  obtain ⟨fresh, bound, holds⟩ := h
  refine ⟨?_, ?_, ?_⟩
  · intro hnone
    obtain ⟨hempty, hno⟩ := fresh hnone
    exact ⟨hempty, fun i hi => hno i (sub hi)⟩
  · exact fun rev hrev i hi => bound rev hrev i (sub hi)
  · intro rev hrev
    obtain ⟨post, hmem, hr, hconn, hsub, hall⟩ := holds rev hrev
    exact ⟨post, hmem, hr, hconn, hsub, fun hcard i hi => hall hcard i (sub hi)⟩

/-- A POST that was taken for another connection. -/
theorem Held.other (h : Held posts accepted id conn) (hi : posts[i]? = some post)
    (other : post.sent.connId ≠ id) : Held posts (insert i accepted) id conn := by
  have back : ∀ j ∈ insert i accepted, ∀ q, posts[j]? = some q → q.sent.connId = id →
      j ∈ accepted := by
    intro j hj q hq hid
    rcases Finset.mem_insert.mp hj with heq | hold
    · rw [heq, hi] at hq
      cases hq
      exact absurd hid other
    · exact hold
  obtain ⟨fresh, bound, holds⟩ := h
  refine ⟨?_, ?_, ?_⟩
  · intro hnone
    obtain ⟨hempty, hno⟩ := fresh hnone
    refine ⟨hempty, fun j hj q hq hid => ?_⟩
    exact hno j (back j hj q hq hid) q hq hid
  · intro rev hrev j hj q hq hid
    exact bound rev hrev j (back j hj q hq hid) q hq hid
  · intro rev hrev
    obtain ⟨p, hmem, hr, hconn, hsub, hall⟩ := holds rev hrev
    refine ⟨p, hmem, hr, hconn, hsub, fun hcard j hj q hq hid => ?_⟩
    exact hall hcard j (back j hj q hq hid) q hq hid

variable {rev : Nat} {frame : HelloFrame} {op : BusOp} {event : NetEvent}

theorem Connection.rev_of_lt (h : rev < conn.currentRev) :
    ∃ stored, conn.rev = some stored ∧ rev < stored := by
  cases hrev : conn.rev with
  | none => simp [Connection.currentRev, hrev] at h
  | some stored =>
      rw [Connection.currentRev, hrev] at h
      exact ⟨stored, rfl, h⟩

/-- A POST that came too late counts as taken and changes nothing. -/
theorem Held.stale (h : Held posts accepted id conn) (hi : posts[i]? = some post)
    (late : post.rev < conn.currentRev) : Held posts (insert i accepted) id conn := by
  obtain ⟨stored, hstored, hlt⟩ := Connection.rev_of_lt late
  have split : ∀ j ∈ insert i accepted, ∀ q, posts[j]? = some q →
      j ∈ accepted ∨ q.rev < stored := by
    intro j hj q hq
    rcases Finset.mem_insert.mp hj with heq | hold
    · rw [heq, hi] at hq
      cases hq
      exact Or.inr hlt
    · exact Or.inl hold
  obtain ⟨fresh, bound, holds⟩ := h
  refine ⟨?_, ?_, ?_⟩
  · intro hnone
    rw [hnone] at hstored
    cases hstored
  · intro rev hrev j hj q hq hid
    rw [hstored] at hrev
    cases hrev
    rcases split j hj q hq with hold | hless
    · exact bound stored hstored j hold q hq hid
    · exact Nat.le_of_lt hless
  · intro rev hrev
    rw [hstored] at hrev
    cases hrev
    obtain ⟨p, hmem, hr, hconn, hsub, hall⟩ := holds stored hstored
    refine ⟨p, hmem, hr, hconn, hsub, fun hcard j hj q hq hid hqr => ?_⟩
    rcases split j hj q hq with hold | hless
    · exact hall hcard j hold q hq hid hqr
    · omega

/-- A POST of the stored or a newer revision, applied. -/
theorem Held.applied {s : Subscriptions} {added : Finset Channel} (ledger : s.Ledger)
    (h : Held s.posts accepted post.sent.connId conn) (hi : s.posts[i]? = some post)
    (due : conn.currentRev ≤ post.rev)
    (within : added ⊆ (LiveBus.advanceTo conn post.rev).channels ∪ post.channels.toFinset)
    (fits : ((LiveBus.advanceTo conn post.rev).channels ∪ post.channels.toFinset).card ≤
        maxChannelsPerConnection →
      added = (LiveBus.advanceTo conn post.rev).channels ∪ post.channels.toFinset) :
    Held s.posts (insert i accepted) post.sent.connId
      { LiveBus.advanceTo conn post.rev with channels := added } := by
  have hmem : post ∈ s.posts := List.mem_of_getElem? hi
  obtain ⟨_, hpos, _, hparts⟩ := ledger.shape post hmem
  have hpost : post.channels.toFinset ⊆ post.sent.channels.toFinset := by
    intro c hc
    rw [List.mem_toFinset] at hc ⊢
    exact hparts hc
  by_cases hnewer : conn.currentRev < post.rev
  · -- the first POST of a newer set replaces what was there
    have hadv : LiveBus.advanceTo conn post.rev =
        { conn with channels := ∅, rev := some post.rev } := by
      rw [LiveBus.advanceTo, if_pos hnewer]
    rw [hadv] at within fits ⊢
    simp only [Finset.empty_union] at within fits
    have earlier : ∀ j ∈ accepted, ∀ q, s.posts[j]? = some q →
        q.sent.connId = post.sent.connId → q.rev < post.rev := by
      intro j hj q hq hid
      cases hrev : conn.rev with
      | none => exact absurd hid ((h.fresh hrev).2 j hj q hq)
      | some stored =>
          have hle := h.bound stored hrev j hj q hq hid
          rw [Connection.currentRev, hrev] at hnewer
          exact Nat.lt_of_le_of_lt hle hnewer
    refine ⟨fun hnone => (by cases hnone), ?_, ?_⟩
    · intro rev hrev j hj q hq hid
      cases hrev
      rcases Finset.mem_insert.mp hj with heq | hold
      · rw [heq, hi] at hq
        cases hq
        exact Nat.le_refl _
      · exact Nat.le_of_lt (earlier j hold q hq hid)
    · intro rev hrev
      cases hrev
      refine ⟨post, hmem, rfl, rfl, within.trans hpost, ?_⟩
      intro hcard j hj q hq hid hqr
      rcases Finset.mem_insert.mp hj with heq | hold
      · rw [heq, hi] at hq
        cases hq
        rw [fits (Nat.le_trans (Finset.card_le_card hpost) hcard)]
      · have hless := earlier j hold q hq hid
        omega
  · -- a further POST of the stored revision adds its part
    have hadv : LiveBus.advanceTo conn post.rev = conn := by
      rw [LiveBus.advanceTo, if_neg hnewer]
    rw [hadv] at within fits ⊢
    have hstored : conn.rev = some post.rev := by
      cases hrev : conn.rev with
      | none =>
          rw [Connection.currentRev, hrev] at hnewer
          exact absurd hpos hnewer
      | some stored =>
          rw [Connection.currentRev, hrev] at hnewer due
          have heq : stored = post.rev := Nat.le_antisymm due (Nat.not_lt.mp hnewer)
          rw [heq]
    obtain ⟨p, hp, hpr, _, hpsub, hall⟩ := h.holds post.rev hstored
    have hsame : p.sent = post.sent := ledger.oneSet p hp post hmem hpr
    rw [hsame] at hpsub hall
    have hunion : conn.channels ∪ post.channels.toFinset ⊆ post.sent.channels.toFinset :=
      Finset.union_subset hpsub hpost
    refine ⟨fun hnone => ?_, ?_, ?_⟩
    · have hnone : conn.rev = none := hnone
      rw [hstored] at hnone
      cases hnone
    · intro rev hrev j hj q hq hid
      have hrev : conn.rev = some rev := hrev
      rw [hstored] at hrev
      cases hrev
      rcases Finset.mem_insert.mp hj with heq | hold
      · rw [heq, hi] at hq
        cases hq
        exact Nat.le_refl _
      · exact h.bound post.rev hstored j hold q hq hid
    · intro rev hrev
      have hrev : conn.rev = some rev := hrev
      rw [hstored] at hrev
      cases hrev
      refine ⟨post, hmem, rfl, rfl, within.trans hunion, ?_⟩
      intro hcard j hj q hq hid hqr
      show q.channels.toFinset ⊆ added
      rw [fits (Nat.le_trans (Finset.card_le_card hunion) hcard)]
      rcases Finset.mem_insert.mp hj with heq | hold
      · rw [heq, hi] at hq
        cases hq
        exact Finset.subset_union_right
      · exact (hall hcard j hold q hq hid hqr).trans Finset.subset_union_left

/-! ## The tab and the bus -/

structure Net.Coherent (n : Net) : Prop where
  ledger : n.tab.client.subs.Ledger
  held : ∀ id ∈ n.own, ∀ conn, n.bus.connections.get? id = some conn →
    Held n.tab.client.subs.posts n.accepted id conn
  unheard : ∀ id ∈ n.hellos, ∀ post ∈ n.tab.client.subs.posts, post.sent.connId ≠ id
  heard : ∀ id, n.tab.client.stream.connId = some id → id ∈ n.own ∧ id ∉ n.hellos
  hellosOwn : n.hellos ⊆ n.own
  postsOwn : ∀ post ∈ n.tab.client.subs.posts, post.sent.connId ∈ n.own
  currentOwn : ∀ sent, n.tab.client.subs.sent = some sent → sent.connId ∈ n.own
  acceptedSent : ∀ i ∈ n.accepted, i < n.tab.client.subs.posts.length
  answersTrue : ∀ i, n.answers.get? i = some true → i ∈ n.accepted
  ownUsed : n.own ⊆ n.used
  named : ∀ id ∈ n.own, id ≠ ""

theorem Net.Coherent.tab (h : n.Coherent) {tab : Tab} (hm : SubsMoves n.tab.client tab.client) :
    Net.Coherent { n with tab } := by
  obtain ⟨ledger, held, unheard, heard, hellosOwn, postsOwn, currentOwn, acceptedSent,
    answersTrue, ownUsed, named⟩ := h
  cases hm with
  | quiet same hconn =>
      refine ⟨ledger.same same, ?_, ?_, ?_, hellosOwn, ?_, ?_, ?_, answersTrue,
        ownUsed, named⟩
      · rw [same.posts]
        exact held
      · rw [same.posts]
        exact unheard
      · intro id hid
        rcases hconn with hsame | hnone
        · exact heard id (hsame ▸ hid)
        · rw [hnone] at hid
          cases hid
      · rw [same.posts]
        exact postsOwn
      · rw [same.sent]
        exact currentOwn
      · rw [same.posts]
        exact acceptedSent
  | sends connId channels hconn hconn' hsends =>
      obtain ⟨hown, hheard⟩ := heard connId hconn
      obtain ⟨sent, hsent, _, hsc, _, hposts⟩ := hsends.sent
      have hnew : ∀ post ∈ tab.client.subs.posts, post ∈ n.tab.client.subs.posts ∨
          post.sent.connId = connId := by
        intro post hmem
        rw [hposts, List.mem_append] at hmem
        rcases hmem with hold | hnew
        · exact Or.inl hold
        · obtain ⟨request, _, heq⟩ := List.mem_map.mp hnew
          rw [← heq]
          exact Or.inr hsc
      refine ⟨ledger.sends hsends, ?_, ?_, ?_, hellosOwn, ?_, ?_, ?_, answersTrue,
        ownUsed, named⟩
      · intro id hid conn hc
        rw [hposts]
        exact (held id hid conn hc).more acceptedSent
      · intro id hid post hmem
        rcases hnew post hmem with hold | hthis
        · exact unheard id hid post hold
        · intro heq
          rw [← heq, hthis] at hid
          exact hheard hid
      · intro id hid
        rw [hconn'] at hid
        cases hid
        exact ⟨hown, hheard⟩
      · intro post hmem
        rcases hnew post hmem with hold | hthis
        · exact postsOwn post hold
        · rw [hthis]
          exact hown
      · intro found hfound
        rw [hsent] at hfound
        cases hfound
        rw [hsc]
        exact hown
      · intro i hi
        have hlt := acceptedSent i hi
        rw [hposts, List.length_append]
        omega

theorem Net.Coherent.openStream (h : n.Coherent) {connId : ConnId} (userId : UserId) (now : Nat)
    (given : connId ≠ "") (fresh : connId ∉ n.used) :
    Net.Coherent { n with
      bus := (n.bus.register (streamConnection connId userId now)).1
      used := insert connId n.used
      own := insert connId n.own
      hellos := insert connId n.hellos } := by
  obtain ⟨ledger, held, unheard, heard, hellosOwn, postsOwn, currentOwn, acceptedSent,
    answersTrue, ownUsed, named⟩ := h
  have foreign : connId ∉ n.own := fun hmem => fresh (ownUsed hmem)
  have unsent : ∀ post ∈ n.tab.client.subs.posts, post.sent.connId ≠ connId := by
    intro post hmem heq
    exact foreign (heq ▸ postsOwn post hmem)
  refine ⟨ledger, ?_, ?_, ?_, ?_, ?_, ?_, acceptedSent, answersTrue, ?_, ?_⟩
  · intro id hid conn hc
    rcases LiveBus.register_frame n.bus _ hc with ⟨heq, hconn⟩ | hold
    · rw [hconn, heq]
      refine ⟨fun _ => ⟨rfl, ?_⟩, fun _ hrev => (by cases hrev), fun _ hrev => (by cases hrev)⟩
      intro i _ post hpost
      exact unsent post (List.mem_of_getElem? hpost)
    · rcases Finset.mem_insert.mp hid with heq | hown
      · -- the registered connection is the one under its own id
        have hself : (n.bus.register (streamConnection connId userId now)).1.connections.get?
            connId = some (streamConnection connId userId now) := OrderedMap.get?_set_self _ _ _
        rw [heq] at hc ⊢
        rw [hself] at hc
        cases hc
        refine ⟨fun _ => ⟨rfl, ?_⟩, fun _ hrev => (by cases hrev), fun _ hrev => (by cases hrev)⟩
        intro i _ post hpost
        exact unsent post (List.mem_of_getElem? hpost)
      · exact held id hown conn hold
  · intro id hid post hmem
    rcases Finset.mem_insert.mp hid with heq | hold
    · rw [heq]
      exact unsent post hmem
    · exact unheard id hold post hmem
  · intro id hid
    obtain ⟨hown, hheard⟩ := heard id hid
    refine ⟨Finset.mem_insert_of_mem hown, ?_⟩
    intro hmem
    rcases Finset.mem_insert.mp hmem with heq | hold
    · exact foreign (heq ▸ hown)
    · exact hheard hold
  · exact Finset.insert_subset_insert _ hellosOwn
  · exact fun post hmem => Finset.mem_insert_of_mem (postsOwn post hmem)
  · exact fun sent hsent => Finset.mem_insert_of_mem (currentOwn sent hsent)
  · exact Finset.insert_subset_insert _ ownUsed
  · intro id hid
    rcases Finset.mem_insert.mp hid with heq | hold
    · rw [heq]
      exact given
    · exact named id hold

theorem parse_helloJson (named : frame.connId ≠ "") :
    (parseHelloFrame (helloJson frame)).map HelloFrame.connId = some frame.connId := by
  have hconn : ((helloJson frame).get? "connId").bind Json.str? = some frame.connId := rfl
  simp only [parseHelloFrame, hconn, named, if_false, Option.map_some]

/-- What a well-formed hello leaves in the client. -/
theorem onHello_subs (c : LiveClient) (now : Nat) (named : frame.connId ≠ "") :
    (c.onHello now (some (helloJson frame))).stream.connId = some frame.connId ∧
    (c.onHello now (some (helloJson frame))).subs.rev = c.subs.rev ∧
    (c.onHello now (some (helloJson frame))).subs.nextSent = c.subs.nextSent + 1 ∧
    (c.onHello now (some (helloJson frame))).subs.legacy = false ∧
    (c.onHello now (some (helloJson frame))).subs.posts = c.subs.posts ∧
    (c.onHello now (some (helloJson frame))).subs.sent =
      some ⟨c.subs.nextSent, frame.connId, "", [], 0⟩ := by
  have hconn : (((some (helloJson frame)).bind parseHelloFrame).map HelloFrame.connId) =
      some frame.connId := parse_helloJson named
  have hsubs : (c.onHello now (some (helloJson frame))).subs =
      (Subscriptions.openSent { c.subs with
          legacy := false, failed := false, retries := 0, retryTimer := none }
        (((some (helloJson frame)).bind parseHelloFrame).map HelloFrame.connId)).scheduleSync :=
    rfl
  rw [hconn] at hsubs
  refine ⟨hconn, ?_, ?_, ?_, ?_, ?_⟩ <;> rw [hsubs] <;> rfl

theorem Net.Coherent.hello (h : n.Coherent) (frame : HelloFrame) (now : Nat)
    (due : frame.connId ∈ n.hellos) :
    Net.Coherent { n with
      tab := n.tab.withClient (n.tab.client.onHello now (some (helloJson frame)))
      hellos := n.hellos.erase frame.connId } := by
  obtain ⟨hconn, hrev, hnext, hlegacy, hposts, hsent⟩ := onHello_subs n.tab.client now
    (h.named _ (h.hellosOwn due))
  obtain ⟨ledger, held, unheard, heard, hellosOwn, postsOwn, currentOwn, acceptedSent,
    answersTrue, ownUsed, named⟩ := h
  refine ⟨ledger.opens hrev hnext hlegacy hposts hsent (unheard _ due), ?_, ?_, ?_, ?_, ?_, ?_,
    ?_, answersTrue, ownUsed, named⟩
  · show ∀ id ∈ n.own, ∀ conn, n.bus.connections.get? id = some conn →
      Held (n.tab.client.onHello now (some (helloJson frame))).subs.posts n.accepted id conn
    rw [hposts]
    exact held
  · intro id hid post hmem
    have hmem : post ∈ (n.tab.client.onHello now (some (helloJson frame))).subs.posts := hmem
    rw [hposts] at hmem
    exact unheard id (Finset.mem_of_mem_erase hid) post hmem
  · intro id hid
    have hid : (n.tab.client.onHello now (some (helloJson frame))).stream.connId = some id := hid
    rw [hconn] at hid
    cases hid
    exact ⟨hellosOwn due, Finset.notMem_erase _ _⟩
  · exact (Finset.erase_subset _ _).trans hellosOwn
  · intro post hmem
    have hmem : post ∈ (n.tab.client.onHello now (some (helloJson frame))).subs.posts := hmem
    rw [hposts] at hmem
    exact postsOwn post hmem
  · intro found hfound
    have hfound : (n.tab.client.onHello now (some (helloJson frame))).subs.sent =
      some found := hfound
    rw [hsent] at hfound
    cases hfound
    exact hellosOwn due
  · intro i hi
    show i < (n.tab.client.onHello now (some (helloJson frame))).subs.posts.length
    rw [hposts]
    exact acceptedSent i hi

/-- A foreign operation takes own connections out or leaves them as they are. -/
theorem foreign_frame {used own : Finset ConnId} {bus : LiveBus}
    (foreign : op.isForeign used own = true) (ownUsed : own ⊆ used) (hid : id ∈ own)
    (h : (bus.apply op).connections.get? id = some conn) : bus.connections.get? id = some conn := by
  cases op with
  | register new =>
      rcases LiveBus.register_frame bus new h with ⟨heq, _⟩ | hold
      · simp only [BusOp.isForeign, decide_eq_true_eq] at foreign
        exact absurd (ownUsed hid) (heq ▸ foreign)
      · exact hold
  | drop connId => exact LiveBus.drop_shrinks bus connId id conn h
  | sync connId userId rev channels =>
      simp only [BusOp.isForeign, decide_eq_true_eq] at foreign
      have hne : id ≠ connId := fun heq => foreign (heq ▸ hid)
      exact (LiveBus.sync_other bus connId userId rev channels hne) ▸ h
  | subscribe connId userId add remove =>
      simp only [BusOp.isForeign, decide_eq_true_eq] at foreign
      have hne : id ≠ connId := fun heq => foreign (heq ▸ hid)
      exact (LiveBus.subscribe_other bus connId userId add remove hne) ▸ h
  | publish now events accepts => exact LiveBus.publish_shrinks bus now events accepts id conn h
  | closeAll => exact LiveBus.closeEach_shrinks _ bus id conn h
  | statistics => exact h

theorem Net.Coherent.foreign (h : n.Coherent) (hop : op.isForeign n.used n.own = true) :
    Net.Coherent { n with bus := n.bus.apply op, used := n.used ∪ op.registers } := by
  obtain ⟨ledger, held, unheard, heard, hellosOwn, postsOwn, currentOwn, acceptedSent,
    answersTrue, ownUsed, named⟩ := h
  refine ⟨ledger, ?_, unheard, heard, hellosOwn, postsOwn, currentOwn, acceptedSent, answersTrue,
    ownUsed.trans Finset.subset_union_left, named⟩
  intro id hid conn hc
  exact held id hid conn (foreign_frame hop ownUsed hid hc)

theorem Net.Coherent.deliver (h : n.Coherent) (hi : n.tab.client.subs.posts[i]? = some post)
    (context : RequestContext) :
    Net.Coherent { n with
      bus := (subscribeRoute n.bus context post.body).1
      accepted := if (subscribeRoute n.bus context post.body).2.isOk then insert i n.accepted
        else n.accepted } := by
  obtain ⟨ledger, held, unheard, heard, hellosOwn, postsOwn, currentOwn, acceptedSent,
    answersTrue, ownUsed, named⟩ := h
  have hmem : post ∈ n.tab.client.subs.posts := List.mem_of_getElem? hi
  obtain ⟨hbody, _⟩ := ledger.shape post hmem
  have hsub : (if (subscribeRoute n.bus context post.body).2.isOk then insert i n.accepted
      else n.accepted) ⊆ insert i n.accepted := by
    split
    · exact Finset.Subset.refl _
    · exact Finset.subset_insert _ _
  have hsup : n.accepted ⊆ if (subscribeRoute n.bus context post.body).2.isOk
      then insert i n.accepted else n.accepted := by
    split
    · exact Finset.subset_insert _ _
    · exact Finset.Subset.refl _
  refine ⟨ledger, ?_, unheard, heard, hellosOwn, postsOwn, currentOwn, ?_, ?_, ownUsed,
    named⟩
  · intro id hid conn hc
    have hcases := subscribeRoute_cases n.bus context
      ⟨post.sent.connId, post.rev, post.channels⟩
    rw [← hbody] at hcases
    rcases hcases with ⟨hbus, hno⟩ | ⟨at_, hat, hlate, hbus⟩ |
      ⟨at_, added, hat, hdue, hwithin, hfits, hbus⟩
    · have hc : (subscribeRoute n.bus context post.body).1.connections.get? id = some conn := hc
      rw [hbus] at hc
      simp only [hno, Bool.false_eq_true, if_false]
      exact held id hid conn hc
    · have hc : (subscribeRoute n.bus context post.body).1.connections.get? id = some conn := hc
      rw [hbus] at hc
      refine Held.fewer ?_ hsub
      by_cases hsame : post.sent.connId = id
      · have hthis : n.bus.connections.get? id = some at_ := hsame ▸ hat
        rw [hthis] at hc
        cases hc
        exact (held id hid _ hthis).stale hi hlate
      · exact (held id hid conn hc).other hi hsame
    · have hc : (subscribeRoute n.bus context post.body).1.connections.get? id = some conn := hc
      rw [hbus] at hc
      refine Held.fewer ?_ hsub
      by_cases hsame : post.sent.connId = id
      · subst hsame
        simp only [OrderedMap.get?_set_self] at hc
        cases hc
        exact Held.applied ledger (held _ hid at_ hat) hi hdue hwithin hfits
      · have hne : id ≠ post.sent.connId := fun heq => hsame heq.symm
        simp only [OrderedMap.get?_set_of_ne _ _ hne] at hc
        exact (held id hid conn hc).other hi hsame
  · intro j hj
    rcases Finset.mem_insert.mp (hsub hj) with heq | hold
    · rw [heq]
      exact (List.getElem?_eq_some_iff.mp hi).choose
    · exact acceptedSent j hold
  · intro j hj
    exact hsup (answersTrue j hj)

theorem onSubscribeAnswer_ledger (c : LiveClient) (sent : SentId) (taken : Bool) :
    (c.onSubscribeAnswer sent taken).subs.rev = c.subs.rev ∧
    (c.onSubscribeAnswer sent taken).subs.nextSent = c.subs.nextSent ∧
    (c.onSubscribeAnswer sent taken).subs.legacy = c.subs.legacy ∧
    (c.onSubscribeAnswer sent taken).subs.posts = c.subs.posts ∧
    ∀ found, (c.onSubscribeAnswer sent taken).subs.sent = some found →
      ∃ before, c.subs.sent = some before ∧ found.id = before.id ∧
        found.connId = before.connId ∧ found.channels = before.channels := by
  simp only [LiveClient.onSubscribeAnswer]
  cases hcur : c.subs.sent with
  | none => exact ⟨rfl, rfl, rfl, rfl, fun found hfound => by rw [hcur] at hfound; cases hfound⟩
  | some current =>
      dsimp only
      split
      · exact ⟨rfl, rfl, rfl, rfl, fun found hfound =>
          ⟨found, by rw [← hcur, hfound], rfl, rfl, rfl⟩⟩
      split
      · have hafter : ∀ found, some { current with pending := current.pending - 1 } =
            some found → ∃ before, some current = some before ∧ found.id = before.id ∧
              found.connId = before.connId ∧ found.channels = before.channels := by
          intro found hfound
          cases hfound
          exact ⟨current, rfl, rfl, rfl, rfl⟩
        split
        · exact ⟨rfl, rfl, rfl, rfl, hafter⟩
        · split
          · exact ⟨rfl, rfl, rfl, rfl, hafter⟩
          · exact ⟨rfl, rfl, rfl, rfl, hafter⟩
      · simp only [Subscriptions.scheduleSubscribeRetry]
        repeat' split
        all_goals exact ⟨rfl, rfl, rfl, rfl, fun found hfound => by cases hfound⟩

theorem Net.Coherent.answer {n : Net} (h : n.Coherent) {i : Nat} {sent : SentId} {taken : Bool}
    (honest : taken = true → i ∈ n.accepted) :
    Net.Coherent { n with
      tab := n.tab.withClient (n.tab.client.onSubscribeAnswer sent taken)
      answers := n.answers.set i taken } := by
  obtain ⟨hrev, hnext, hlegacy, hposts, hsent⟩ :=
    onSubscribeAnswer_ledger n.tab.client sent taken
  have hstream := LiveClient.onSubscribeAnswer_stream n.tab.client sent taken
  obtain ⟨ledger, held, unheard, heard, hellosOwn, postsOwn, currentOwn, acceptedSent,
    answersTrue, ownUsed, named⟩ := h
  refine ⟨ledger.answered hrev hnext hlegacy hposts hsent, ?_, ?_, ?_, hellosOwn, ?_, ?_, ?_, ?_,
    ownUsed, named⟩
  · simp only [Tab.withClient, hposts]
    exact held
  · simp only [Tab.withClient, hposts]
    exact unheard
  · simp only [Tab.withClient, hstream]
    exact heard
  · simp only [Tab.withClient, hposts]
    exact postsOwn
  · intro found hfound
    obtain ⟨before, hbefore, _, hconn, _⟩ := hsent found hfound
    rw [hconn]
    exact currentOwn before hbefore
  · simp only [Tab.withClient, hposts]
    exact acceptedSent
  · intro j hj
    simp only [OrderedMap.get?_set] at hj
    split at hj
    · rename_i heq
      rw [heq]
      exact honest (Option.some.inj hj)
    · exact answersTrue j hj

/-! ## Every event -/

theorem coherent_step (hs : NetStep n event n') (h : n.Coherent) : n'.Coherent := by
  cases event with
  | tab event =>
      simp only [NetStep, Net.step, Option.ite_none_left_eq_some, Option.map_eq_some_iff] at hs
      obtain ⟨hown, tab, hstep, heq⟩ := hs
      rw [Bool.not_eq_true', Bool.not_eq_false] at hown
      subst heq
      exact h.tab (subsMoves_of_step hstep hown h.ledger.modern)
  | openStream connId userId now =>
      simp only [NetStep, Net.step, Option.ite_none_left_eq_some, Option.some.injEq, not_or] at hs
      obtain ⟨⟨hnamed, hfresh⟩, heq⟩ := hs
      subst heq
      exact h.openStream userId now hnamed hfresh
  | hello connId now emitFresh revision =>
      simp only [NetStep, Net.step, Option.ite_none_left_eq_some, Option.map_eq_some_iff,
        not_not] at hs
      obtain ⟨hdue, tab, hstep, heq⟩ := hs
      simp only [Tab.step, Option.ite_none_left_eq_some, Option.some.injEq] at hstep
      obtain ⟨_, htab⟩ := hstep
      subst htab
      subst heq
      exact h.hello ⟨connId, emitFresh, revision⟩ now hdue
  | foreign op =>
      simp only [NetStep, Net.step, Option.ite_none_left_eq_some, Option.some.injEq] at hs
      obtain ⟨hop, heq⟩ := hs
      rw [Bool.not_eq_true', Bool.not_eq_false] at hop
      subst heq
      exact h.foreign hop
  | deliver post context =>
      simp only [NetStep, Net.step] at hs
      split at hs
      · cases hs
      · rename_i sent hi
        cases hs
        exact h.deliver hi context
  | answer post taken =>
      simp only [NetStep, Net.step] at hs
      split at hs
      · cases hs
      · simp only [Option.ite_none_left_eq_some, Option.map_eq_some_iff, not_or, not_and] at hs
        obtain ⟨⟨_, honest⟩, tab, hstep, heq⟩ := hs
        cases hstep
        subst heq
        exact h.answer fun ht => not_not.mp (honest ht)

theorem initial_coherent (visible : Bool) : (Net.initial visible).Coherent := by
  refine ⟨⟨rfl, ?_, ?_, ?_, ?_, ?_, ?_⟩, ?_, ?_, ?_, Finset.Subset.refl _, ?_, ?_, ?_, ?_,
    Finset.Subset.refl _, ?_⟩
  · intro post hmem
    cases hmem
  · intro post hmem
    cases hmem
  · intro post hmem
    cases hmem
  · intro post hmem
    cases hmem
  · intro post hmem
    cases hmem
  · intro sent hsent
    cases hsent
  · intro id hid
    cases hid
  · intro id hid
    cases hid
  · intro id hid
    cases hid
  · intro post hmem
    cases hmem
  · intro sent hsent
    cases hsent
  · intro i hi
    cases hi
  · intro i hi
    cases hi
  · intro id hid
    cases hid

theorem coherent_reachable (h : Reachable Net.Initial NetStep n) : n.Coherent := by
  refine h.invariant ?_ ?_
  · intro n h
    obtain ⟨visible, hn⟩ := h
    rw [hn]
    exact initial_coherent visible
  · intro n event n' hs hc
    exact coherent_step hs hc

/-! ## The stored revision -/

/-- The tab's connections are never replaced, and their revisions never fall. -/
def RevisionsRise (n n' : Net) : Prop :=
  n.own ⊆ n'.own ∧ ∀ id ∈ n.own, ∀ conn', n'.bus.connections.get? id = some conn' →
    ∃ conn, n.bus.connections.get? id = some conn ∧ conn.currentRev ≤ conn'.currentRev

theorem RevisionsRise.of_bus (own : n.own ⊆ n'.own)
    (frame : ∀ id ∈ n.own, ∀ conn, n'.bus.connections.get? id = some conn →
      n.bus.connections.get? id = some conn) : RevisionsRise n n' :=
  ⟨own, fun id hid conn' hc => ⟨conn', frame id hid conn' hc, Nat.le_refl _⟩⟩

theorem advanceTo_rises {channels : Finset Channel} :
    conn.currentRev ≤
      Connection.currentRev { LiveBus.advanceTo conn rev with channels } := by
  rw [LiveBus.advanceTo]
  split
  · rename_i hless
    exact Nat.le_of_lt hless
  · exact Nat.le_refl _

theorem revisionsRise_step (hs : NetStep n event n') (h : n.Coherent) : RevisionsRise n n' := by
  cases event with
  | tab event =>
      simp only [NetStep, Net.step, Option.ite_none_left_eq_some, Option.map_eq_some_iff] at hs
      obtain ⟨_, tab, _, heq⟩ := hs
      subst heq
      exact .of_bus (Finset.Subset.refl _) fun _ _ _ hc => hc
  | openStream connId userId now =>
      simp only [NetStep, Net.step, Option.ite_none_left_eq_some, Option.some.injEq, not_or] at hs
      obtain ⟨⟨_, hfresh⟩, heq⟩ := hs
      subst heq
      refine .of_bus (Finset.subset_insert _ _) fun id hid conn hc => ?_
      rcases LiveBus.register_frame n.bus _ hc with ⟨heq, _⟩ | hold
      · rw [heq] at hid
        exact absurd (h.ownUsed hid) hfresh
      · exact hold
  | hello connId now emitFresh revision =>
      simp only [NetStep, Net.step, Option.ite_none_left_eq_some, Option.map_eq_some_iff] at hs
      obtain ⟨_, tab, _, heq⟩ := hs
      subst heq
      exact .of_bus (Finset.Subset.refl _) fun _ _ _ hc => hc
  | foreign op =>
      simp only [NetStep, Net.step, Option.ite_none_left_eq_some, Option.some.injEq] at hs
      obtain ⟨hop, heq⟩ := hs
      rw [Bool.not_eq_true', Bool.not_eq_false] at hop
      subst heq
      exact .of_bus (Finset.Subset.refl _) fun id hid conn hc =>
        foreign_frame hop h.ownUsed hid hc
  | deliver post context =>
      simp only [NetStep, Net.step] at hs
      split at hs
      · cases hs
      · rename_i sent hi
        cases hs
        obtain ⟨hbody, _⟩ := h.ledger.shape sent (List.mem_of_getElem? hi)
        have hcases := subscribeRoute_cases n.bus context
          ⟨sent.sent.connId, sent.rev, sent.channels⟩
        rw [← hbody] at hcases
        rcases hcases with ⟨hbus, _⟩ | ⟨_, _, _, hbus⟩ | ⟨conn, added, hat, _, _, _, hbus⟩
        · exact .of_bus (Finset.Subset.refl _) fun id _ c hc => hbus ▸ hc
        · exact .of_bus (Finset.Subset.refl _) fun id _ c hc => hbus ▸ hc
        · refine ⟨Finset.Subset.refl _, fun id hid conn' hc => ?_⟩
          simp only [hbus, OrderedMap.get?_set] at hc
          split at hc
          · rename_i heq
            cases hc
            exact ⟨conn, heq ▸ hat, advanceTo_rises⟩
          · exact ⟨conn', hc, Nat.le_refl _⟩
  | answer post taken =>
      simp only [NetStep, Net.step] at hs
      split at hs
      · cases hs
      · simp only [Option.ite_none_left_eq_some, Option.map_eq_some_iff] at hs
        obtain ⟨_, tab, _, heq⟩ := hs
        subst heq
        exact .of_bus (Finset.Subset.refl _) fun _ _ _ hc => hc

theorem revisionsRise_run {labels : List NetEvent} (hr : Run NetStep n labels n') (h : n.Coherent) :
    RevisionsRise n n' := by
  refine hr.relates (P := Net.Coherent) ?_ ?_ ?_ ?_ h
  · intro n
    exact .of_bus (Finset.Subset.refl _) fun _ _ _ hc => hc
  · intro n m n' h h'
    obtain ⟨hown, hrise⟩ := h
    obtain ⟨hown', hrise'⟩ := h'
    refine ⟨hown.trans hown', fun id hid conn' hc => ?_⟩
    obtain ⟨conn, hc, hle⟩ := hrise' id (hown hid) conn' hc
    obtain ⟨first, hfirst, hle'⟩ := hrise id hid conn hc
    exact ⟨first, hfirst, Nat.le_trans hle' hle⟩
  · exact fun n event n' hs hc => coherent_step hs hc
  · exact fun n event n' hs hc => revisionsRise_step hs hc

/-! ## The newest set -/

/-- Where every POST of the current set was answered as taken, the connection
holds that set. -/
theorem Net.Coherent.holds_current (h : n.Coherent) {sent : SentSet}
    (current : n.tab.client.subs.sent = some sent)
    (taken : ∀ i post, n.tab.client.subs.posts[i]? = some post → post.sent.id = sent.id →
      n.answers.get? i = some true) (registered : n.bus.connections.get? sent.connId = some conn)
    (fits : sent.channels.toFinset.card ≤ maxChannelsPerConnection) :
    conn.channels = sent.channels.toFinset := by
  have hheld := h.held sent.connId (h.currentOwn sent current) conn registered
  obtain ⟨_, hempty | ⟨post, hmem, hid, hconn, hchannels, hrev⟩⟩ := h.ledger.current sent current
  · -- the set of the hello: nothing was posted for this connection
    obtain ⟨hnone, hunsent⟩ := hempty
    rw [hnone]
    cases hr : conn.rev with
    | none => exact (hheld.fresh hr).1
    | some rev =>
        obtain ⟨p, hp, _, hpc, _⟩ := hheld.holds rev hr
        exact absurd hpc (hunsent p hp)
  · have accepted : ∀ p ∈ n.tab.client.subs.posts, p.sent.id = sent.id →
        ∃ i ∈ n.accepted, n.tab.client.subs.posts[i]? = some p := by
      intro p hp hpid
      obtain ⟨i, hi⟩ := List.getElem?_of_mem hp
      exact ⟨i, h.answersTrue i (taken i p hi hpid), hi⟩
    obtain ⟨i, hi, hat⟩ := accepted post hmem hid
    cases hr : conn.rev with
    | none => exact absurd hconn ((hheld.fresh hr).2 i hi post hat)
    | some rev =>
        have hle := hheld.bound rev hr i hi post hat hconn
        obtain ⟨p, hp, hpr, hpc, hpsub, hall⟩ := hheld.holds rev hr
        obtain ⟨_, _, hpmax, _⟩ := h.ledger.shape p hp
        have hsame : post.rev = p.rev := by omega
        have hset : post.sent = p.sent := h.ledger.oneSet post hmem p hp hsame
        rw [← hset, hchannels] at hpsub hall
        refine Finset.Subset.antisymm hpsub fun c hc => ?_
        rw [← hchannels, List.mem_toFinset] at hc
        obtain ⟨part, hpart, hpartid, hcpart⟩ := h.ledger.whole post hmem c hc
        obtain ⟨j, hj, hjat⟩ := accepted part hpart (hpartid.trans hid)
        have hpartrev : post.rev = part.rev := h.ledger.oneRev post hmem part hpart hpartid.symm
        have hpartset : post.sent = part.sent := h.ledger.oneSet post hmem part hpart hpartrev
        refine hall fits j hj part hjat ?_ (by omega) ?_
        · rw [← hpartset, hconn]
        · rw [List.mem_toFinset]
          exact hcpart

/-- Over every run of the tab and the bus: the stored revision of the tab's
connection never falls and a POST of an older one changes nothing; and where
every POST of the current set was answered as taken, a connection that is
still registered holds exactly that set, up to the cap. -/
theorem subscriptions_converge :
    (∀ n labels n' id conn', Reachable Net.Initial NetStep n → Run NetStep n labels n' →
      id ∈ n.own → n'.bus.connections.get? id = some conn' →
      ∃ conn, n.bus.connections.get? id = some conn ∧ conn.currentRev ≤ conn'.currentRev) ∧
    (∀ n i context n' post request conn, Reachable Net.Initial NetStep n →
      n.tab.client.subs.posts[i]? = some post → post.body = .set request →
      n.bus.connections.get? request.connId = some conn → request.rev < conn.currentRev →
      NetStep n (.deliver i context) n' → n'.bus = n.bus) ∧
    (∀ n sent conn, Reachable Net.Initial NetStep n → n.tab.client.subs.sent = some sent →
      sent.pending = 0 →
      (∀ i post, n.tab.client.subs.posts[i]? = some post → post.sent.id = sent.id →
        n.answers.get? i = some true) →
      n.bus.connections.get? sent.connId = some conn → sent.channels.toFinset.card ≤ 200 →
      conn.channels = sent.channels.toFinset) := by
  refine ⟨?_, ?_, ?_⟩
  · intro n labels n' id conn' hreach hrun hid hc
    exact (revisionsRise_run hrun (coherent_reachable hreach)).2 id hid conn' hc
  · intro n i context n' post request conn hreach hi hbody hc hlate hs
    simp only [NetStep, Net.step, hi, hbody, Option.some.injEq] at hs
    subst hs
    rcases subscribeRoute_cases n.bus context request with ⟨hbus, _⟩ | ⟨_, _, _, hbus⟩ |
      ⟨at_, _, hat, hdue, _⟩
    · exact hbus
    · exact hbus
    · rw [hc] at hat
      cases hat
      exact absurd hlate (Nat.not_lt.mpr hdue)
  · intro n sent conn hreach hsent _ htaken hc hcard
    exact (coherent_reachable hreach).holds_current hsent htaken hc hcard

/-- One listener's channel reaches its connection. -/
example : ((follow Net.step (.initial true) [
    .tab (.start 0), .openStream "c" 7 1, .hello "c" 2 true none, .tab .syncMicrotask,
    .tab (.register "announcement:a" 1), .tab .syncMicrotask,
    .deliver 0 ⟨some 7, false, true, .active⟩, .answer 0 true]).bind fun n =>
      n.bus.connections.get? "c").map (fun conn => (conn.rev, conn.channels)) =
    some (some 1, {"announcement:a"}) := by decide

end Sinnlos.Live

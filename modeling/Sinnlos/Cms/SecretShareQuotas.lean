import Sinnlos.Cms.SecretShareRuns
import Sinnlos.Lib.TransactionRely

/-! # The quotas of secret shares

At most twenty pending shares a sender and a recipient, and at most a hundred
creations of a sender in any 24 hours. A share counts from its commit on, also
when the retention has deleted its row; it counts no more where it was deleted
together with one of its people. The counts hold because every create takes the
directory's lock before it counts and keeps it until it commits.
-/

namespace Sinnlos.Cms

open Txn Database

/-! ## What counts -/

section Records
variable {τ : Type}

/-- A call that deletes the shares of a person, or of no person any more. -/
def ShareCall.erases : ShareCall → Bool
  | .janitorOrphans _ => true
  | .deleteSharesOf _ _ => true
  | _ => false

/-- The share of an id as it was last committed, with or without its row, unless
it was erased. The latest commit comes first. -/
def onRecord (first : RowKey → Record) : List (ShareCommit τ) → Nat → Option SecretShare
  | [], id => (first (.share id)).share?
  | commit :: earlier, id =>
      match (commit.after (.share id)).share? with
      | some share => some share
      | none =>
          if commit.call.erases && (commit.before (.share id)).isShare then none
          else onRecord first earlier id

def pendingFrom (now senderId : Nat) (share : SecretShare) : Bool :=
  openAt now share && share.senderId == senderId

/-- Created by the sender after `now` less a day. -/
def createdSince (now senderId : Nat) (share : SecretShare) : Bool :=
  share.senderId == senderId && decide (now < share.createdAt + dayMs)

/-- Created by the sender in the day that ends with `last`. -/
def createdWithin (last senderId : Nat) (share : SecretShare) : Bool :=
  createdSince last senderId share && decide (share.createdAt ≤ last)

/-- The share of this id is on record and counts as `p`. -/
def counted (first : RowKey → Record) (log : List (ShareCommit τ)) (p : SecretShare → Bool) (id : Nat) : Prop :=
  (onRecord first log id).any p = true

end Records

/-- At most `n` ids meet `p`. -/
def AtMost (n : Nat) (p : Nat → Prop) : Prop :=
  ∃ ids : List Nat, ids.length ≤ n ∧ ∀ id, p id → id ∈ ids

variable {n : Nat} {p : Nat → Prop} {q : Nat → Prop}

theorem AtMost.mono (h : AtMost n p) (hq : ∀ id, q id → p id) : AtMost n q := by
  obtain ⟨ids, hlen, hall⟩ := h
  exact ⟨ids, hlen, fun id hid => hall id (hq id hid)⟩

theorem AtMost.insert (h : AtMost n p) (new : Nat) (hq : ∀ id, q id → id = new ∨ p id) :
    AtMost (n + 1) q := by
  obtain ⟨ids, hlen, hall⟩ := h
  refine ⟨new :: ids, ?_, ?_⟩
  · rw [List.length_cons]
    omega
  · intro id hid
    rcases hq id hid with rfl | hp
    · exact List.mem_cons_self
    · exact List.mem_cons_of_mem _ (hall id hp)

/-! ## What the committed rows and the record say of each other -/

section Ledger
variable {τ : Type} {first : RowKey → Record}

/-- The rows are the latest records, and what is on record without a row was
deleted by the retention. -/
structure Ledger (first : RowKey → Record) (s : ShareSystem τ) : Prop where
  consistent : s.Consistent shareGuarantee
  times : ∀ id share, s.rows (.share id) = .share share → share.createdAt ≤ s.env.now ∧
    ∀ ms, share.terminalAt = some ms → share.createdAt ≤ ms
  current : ∀ id share, s.rows (.share id) = .share share → onRecord first s.log id = some share
  gone : ∀ id share, onRecord first s.log id = some share → (s.rows (.share id)).isShare = false →
    share.state ≠ .pending ∧ share.createdAt + secretShareRetentionMs < s.env.now

/-- Nothing came on record: what is there was there, and at most ended. -/
def Shrinks (first : RowKey → Record) (log log' : List (ShareCommit τ)) : Prop :=
  ∀ id b, onRecord first log' id = some b → ∃ a, onRecord first log id = some a ∧ (b = a ∨ a.Ends b)

theorem Shrinks.refl (log : List (ShareCommit τ)) : Shrinks first log log :=
  fun _ b hb => ⟨b, hb, Or.inl rfl⟩

theorem Shrinks.trans {a b c : List (ShareCommit τ)} (h₁ : Shrinks first a b) (h₂ : Shrinks first b c) :
    Shrinks first a c := by
  intro id z hz
  obtain ⟨y, hy, hyz⟩ := h₂ id z hz
  obtain ⟨x, hx, hxy⟩ := h₁ id y hy
  refine ⟨x, hx, ?_⟩
  rcases hyz with rfl | hend
  · exact hxy
  · rcases hxy with rfl | hfirst
    · exact Or.inr hend
    · exact absurd hend.left.1 hfirst.left.2

/-- Counts that an end can only lower. -/
def Closed (p : SecretShare → Bool) : Prop := ∀ a b : SecretShare, a.Ends b → p b = true → p a = true

theorem Shrinks.counted {log log' : List (ShareCommit τ)} (h : Shrinks first log log')
    {p : SecretShare → Bool} (closed : Closed p) {id : Nat} (hc : counted first log' p id) :
    counted first log p id := by
  unfold Sinnlos.Cms.counted at hc ⊢
  rw [Option.any_eq_true] at hc ⊢
  obtain ⟨b, hb, hp⟩ := hc
  obtain ⟨a, ha, hab⟩ := h id b hb
  refine ⟨a, ha, ?_⟩
  rcases hab with rfl | hend
  · exact hp
  · exact closed a b hend hp

theorem not_open_of_ended {now : Nat} {share : SecretShare} (h : share.state ≠ .pending) :
    openAt now share = false := by
  simp [openAt, h]

theorem pendingFrom_closed (now senderId : Nat) : Closed (pendingFrom now senderId) := by
  intro a b hend hp
  simp [pendingFrom, not_open_of_ended hend.left.2] at hp

theorem pendingTo_closed (now recipientId : Nat) : Closed (pendingTo now recipientId) := by
  intro a b hend hp
  simp [pendingTo, not_open_of_ended hend.left.2] at hp

theorem createdSince_closed (now senderId : Nat) : Closed (createdSince now senderId) := by
  intro a b hend hp
  obtain ⟨_, target, ms, _, rfl⟩ := hend
  exact hp

theorem createdWithin_closed (last senderId : Nat) : Closed (createdWithin last senderId) := by
  intro a b hend hp
  obtain ⟨_, target, ms, _, rfl⟩ := hend
  exact hp

/-- The limits, at the present time and at every later one. -/
structure Quotas (first : RowKey → Record) (s : ShareSystem τ) : Prop where
  sender : ∀ senderId now, s.env.now ≤ now →
    AtMost secretPendingPerSender (counted first s.log (pendingFrom now senderId))
  recipient : ∀ recipientId now, s.env.now ≤ now →
    AtMost secretPendingPerRecipient (counted first s.log (pendingTo now recipientId))
  day : ∀ senderId last,
    AtMost secretCreatesPerDay (counted first s.log (createdWithin last senderId))

theorem Quotas.shrink {s s' : ShareSystem τ} (h : Quotas first s) (shrinks : Shrinks first s.log s'.log)
    (clock : s.env.now ≤ s'.env.now) : Quotas first s' := by
  refine ⟨?_, ?_, ?_⟩
  · intro senderId now hnow
    exact (h.sender senderId now (Nat.le_trans clock hnow)).mono fun id =>
      shrinks.counted (pendingFrom_closed now senderId)
  · intro recipientId now hnow
    exact (h.recipient recipientId now (Nat.le_trans clock hnow)).mono fun id =>
      shrinks.counted (pendingTo_closed now recipientId)
  · intro senderId last
    exact (h.day senderId last).mono fun id =>
      shrinks.counted (createdWithin_closed last senderId)

end Ledger

/-! ## What a transaction relies on -/

section Reliance
variable {τ : Type} {first : RowKey → Record}

/-- The clock does not go back, the rows move as every transaction moves them,
and nothing comes on record for who holds the directory. -/
structure Keeps (first : RowKey → Record) (t : τ) (s s' : ShareSystem τ) : Prop where
  clock : s.env.now ≤ s'.env.now
  moves : ∀ k, (s.rows k).Moves (s'.rows k)
  directory : s.holder .directory = some t →
    s'.holder .directory = some t ∧ Shrinks first s.log s'.log

variable {t : τ} {s : ShareSystem τ} {call : ShareCall} {result : ShareResult} {id : Nat}

theorem Keeps.of_same {s' : ShareSystem τ} (env : s'.env = s.env) (rows : s'.rows = s.rows)
    (holder : s.holder .directory = some t → s'.holder .directory = some t) (log : s'.log = s.log) :
    Keeps first t s s' := by
  refine ⟨?_, ?_, ?_⟩
  · rw [env]
  · intro k
    rw [rows]
    exact Record.moves_refl _
  · intro held
    rw [log]
    exact ⟨holder held, .refl _⟩

theorem Keeps.trans {a b c : ShareSystem τ} (h₁ : Keeps first t a b) (h₂ : Keeps first t b c) :
    Keeps first t a c := by
  refine ⟨Nat.le_trans h₁.clock h₂.clock, ?_, ?_⟩
  · intro k
    exact Record.moves_trans _ _ _ (h₁.moves k) (h₂.moves k)
  · intro held
    obtain ⟨hb, shrinks⟩ := h₁.directory held
    obtain ⟨hc, shrinks'⟩ := h₂.directory hb
    exact ⟨hc, shrinks.trans shrinks'⟩

theorem holder_hold (k : RowKey) (h : s.holder .directory = some t) :
    (s.hold t k).holder .directory = some t := by
  unfold Database.hold
  by_cases hk : RowKey.directory = k
  · simp [hk]
  · simp [hk, h]

def shareReliance (first : RowKey → Record) (τ : Type) [DecidableEq τ] :
    Reliance τ RowKey Record ShareEnv Refusal ShareResult ShareCall where
  good := Ledger first
  keeps := Keeps first
  refl := fun _ _ => .of_same rfl rfl (fun h => h) rfl
  trans := fun _ _ _ _ => Keeps.trans
  hold := fun _ _ k _ => .of_same rfl rfl (holder_hold k) rfl
  put := fun _ _ k _ _ => .of_same rfl rfl (holder_hold k) rfl
  enter := fun _ _ _ _ => .of_same rfl rfl (fun h => h) rfl

/-! ## What each call leaves to commit -/

/-- The shares a call other than create may end or delete, and the people it may
write. -/
inductive ShareChange (erases : Bool) (now : Nat) : RowKey → Record → Record → Prop
  | person (id : Nat) (a b : Record) : ShareChange erases now (.user id) a b
  | ended (id : Nat) (share : SecretShare) (target : SecretShareState) (ms : Nat)
      (final : target ≠ .pending) (pending : share.state = .pending)
      (order : share.createdAt ≤ ms) :
      ShareChange erases now (.share id) (.share share) (.share (share.ended target ms))
  | erased (id : Nat) (share : SecretShare) (erasing : erases = true) :
      ShareChange erases now (.share id) (.share share) .deleted
  | outdated (id : Nat) (share : SecretShare) (final : share.state ≠ .pending)
      (old : share.createdAt + secretShareRetentionMs < now) :
      ShareChange erases now (.share id) (.share share) .deleted

/-- A create's one new row, and what was counted first for it under the directory's
lock. -/
structure FitsCreate (first : RowKey → Record) (senderId recipientId : Nat) (t : τ) (s : ShareSystem τ) (id : Nat)
    (share : SecretShare) : Prop where
  directory : s.holder .directory = some t
  draft : ∀ k row, s.draft t k = some row → k = .share id ∧ row = .share share
  created : s.draft t (.share id) = some (.share share)
  fresh : s.rows (.share id) = .unused
  sender : share.senderId = senderId
  recipient : share.recipientId = recipientId
  pending : share.terminalAt = none
  clock : share.createdAt ≤ s.env.now
  counts : ∃ asked, asked ≤ share.createdAt ∧
    AtMost 19 (counted first s.log (pendingFrom asked senderId)) ∧
    AtMost 19 (counted first s.log (pendingTo asked recipientId)) ∧
    AtMost 99 (counted first s.log (createdSince share.createdAt senderId))

/-- What the draft of a call looks like when it is committed. -/
def Fits (first : RowKey → Record) (call : ShareCall) (t : τ) (s : ShareSystem τ) : Prop :=
  match call with
  | .create caller input => ∃ id share, FitsCreate first caller.userId input.recipient t s id share
  | call => Drafted (ShareChange call.erases s.env.now) t s

/-- A call's draft is a create's, or it takes nothing on record. -/
theorem Fits.cases (h : Fits first call t s) :
    (∃ senderId recipientId id share, FitsCreate first senderId recipientId t s id share) ∨
      Drafted (ShareChange call.erases s.env.now) t s := by
  cases call with
  | create caller input =>
      obtain ⟨id, share, fits⟩ := h
      exact Or.inl ⟨_, _, id, share, fits⟩
  | _ => exact Or.inr h

/-! ## What a commit does to the record -/

/-- The commit of `t`, as the log has it. -/
def commitOf (s : ShareSystem τ) (t : τ) (call : ShareCall) (result : ShareResult) :
    ShareCommit τ :=
  ⟨t, call, result, s.rows, s.draft t⟩

/-- How the record of one id follows from the commit. -/
theorem onRecord_cons (id : Nat) : onRecord first (commitOf s t call result :: s.log) id =
      match (s.current t (.share id)).share? with
      | some share => some share
      | none => if call.erases && (s.rows (.share id)).isShare then none
          else onRecord first s.log id := rfl

/-- A share untouched by the commit is on record as before. -/
theorem onRecord_untouched (ledger : Ledger first s) (h : s.draft t (.share id) = none) :
    onRecord first (commitOf s t call result :: s.log) id = onRecord first s.log id := by
  rw [onRecord_cons, current_of_draft_none h]
  cases hrow : s.rows (.share id) with
  | share share =>
      rw [ledger.current id share hrow]
      rfl
  | _ => simp [Record.share?, Record.isShare]

/-- What a call other than create commits takes nothing on record. -/
theorem shrinks_of_drafted (ledger : Ledger first s)
    (h : Drafted (ShareChange call.erases s.env.now) t s) :
    Shrinks first s.log (commitOf s t call result :: s.log) := by
  intro id b hb
  cases hd : s.draft t (.share id) with
  | none =>
      rw [onRecord_untouched ledger hd] at hb
      exact ⟨b, hb, Or.inl rfl⟩
  | some row =>
      rw [onRecord_cons, current_of_draft_some hd] at hb
      have hchange := (h (.share id) row hd).2
      cases hrow : s.rows (.share id) with
      | share share =>
          rw [hrow] at hchange
          have hcur := ledger.current id share hrow
          cases hchange with
          | ended _ _ target ms final pending order =>
              cases hb
              exact ⟨share, hcur, Or.inr ⟨pending, target, ms, final, rfl⟩⟩
          | erased _ _ erasing =>
              simp [Record.share?, erasing, hrow, Record.isShare] at hb
          | outdated _ _ final old =>
              simp only [Record.share?] at hb
              split at hb
              · cases hb
              · exact ⟨b, hb, Or.inl rfl⟩
      | _ =>
          rw [hrow] at hchange
          cases hchange

variable {share : SecretShare}

/-- The rows after a commit are on record. -/
theorem onRecord_current (h : s.current t (.share id) = .share share) :
    onRecord first (commitOf s t call result :: s.log) id = some share := by
  rw [onRecord_cons, h]
  rfl

/-- What is on record without a row after a commit was without one before, or
the commit deleted it. -/
theorem onRecord_gone (ledger : Ledger first s)
    (h : onRecord first (commitOf s t call result :: s.log) id = some share)
    (gone : (s.current t (.share id)).isShare = false) :
    onRecord first s.log id = some share ∧ ((s.rows (.share id)).isShare = false ∨
      (s.rows (.share id) = .share share ∧ call.erases = false ∧
        ∃ row, s.draft t (.share id) = some row ∧ row.isShare = false)) := by
  rw [onRecord_cons] at h
  have hnone : (s.current t (.share id)).share? = none := by
    simpa [Record.isShare] using gone
  rw [hnone] at h
  dsimp only at h
  split at h
  · cases h
  · rename_i hkept
    refine ⟨h, ?_⟩
    cases hrow : s.rows (.share id) with
    | share before =>
        have hcur := ledger.current id before hrow
        rw [hcur] at h
        cases h
        refine Or.inr ⟨rfl, ?_, ?_⟩
        · simpa [hrow, Record.isShare, Record.share?] using hkept
        · cases hd : s.draft t (.share id) with
          | none =>
              rw [current_of_draft_none hd, hrow] at gone
              cases gone
          | some row =>
              rw [current_of_draft_some hd] at gone
              exact ⟨row, rfl, gone⟩
    | _ => exact Or.inl rfl

section Commits
variable {s s' : ShareSystem τ} {t : τ} {call : ShareCall} {result : ShareResult}

theorem Ledger.commit (ledger : Ledger first s)
    (h : Drafted (ShareChange call.erases s.env.now) t s)
    (consistent : s'.Consistent shareGuarantee) (rows : s'.rows = s.current t)
    (env : s'.env = s.env) (log : s'.log = commitOf s t call result :: s.log) : Ledger first s' := by
  refine ⟨consistent, ?_, ?_, ?_⟩
  · intro id share hrow
    rw [rows] at hrow
    rw [env]
    cases hd : s.draft t (.share id) with
    | none =>
        rw [current_of_draft_none hd] at hrow
        exact ledger.times id share hrow
    | some row =>
        rw [current_of_draft_some hd] at hrow
        subst hrow
        have hchange := (h _ _ hd).2
        cases hbefore : s.rows (.share id) with
        | share before =>
            rw [hbefore] at hchange
            cases hchange with
            | ended _ _ target ms final pending order =>
                refine ⟨(ledger.times id before hbefore).1, ?_⟩
                intro ms' hms
                cases hms
                exact order
        | _ =>
            rw [hbefore] at hchange
            cases hchange
  · intro id share hrow
    rw [rows] at hrow
    rw [log]
    exact onRecord_current hrow
  · intro id share hrec hgone
    rw [rows] at hgone
    rw [log] at hrec
    rw [env]
    obtain ⟨hbefore, hrow | ⟨hrow, hkeeps, row, hd, hnot⟩⟩ := onRecord_gone ledger hrec hgone
    · exact ledger.gone id share hbefore hrow
    · have hchange := (h _ _ hd).2
      rw [hrow] at hchange
      cases hchange with
      | ended _ _ target ms final pending order => cases hnot
      | erased _ _ erasing =>
          rw [hkeeps] at erasing
          cases erasing
      | outdated _ _ final old => exact ⟨final, old⟩

variable {senderId recipientId id : Nat} {share : SecretShare} {other : Nat}

theorem FitsCreate.untouched (h : FitsCreate first senderId recipientId t s id share)
    (hne : other ≠ id) : s.draft t (.share other) = none := by
  cases hd : s.draft t (.share other) with
  | none => rfl
  | some row =>
      have hkey := (h.draft _ _ hd).1
      cases hkey
      exact absurd rfl hne

theorem Ledger.create (ledger : Ledger first s)
    (h : FitsCreate first senderId recipientId t s id share)
    (consistent : s'.Consistent shareGuarantee) (rows : s'.rows = s.current t)
    (env : s'.env = s.env) (log : s'.log = commitOf s t call result :: s.log) :
    Ledger first s' := by
  refine ⟨consistent, ?_, ?_, ?_⟩
  · intro other row hrow
    rw [rows] at hrow
    rw [env]
    by_cases hsame : other = id
    · subst hsame
      rw [current_of_draft_some h.created] at hrow
      cases hrow
      refine ⟨h.clock, ?_⟩
      intro ms hms
      rw [h.pending] at hms
      cases hms
    · rw [current_of_draft_none (h.untouched hsame)] at hrow
      exact ledger.times other row hrow
  · intro other row hrow
    rw [rows] at hrow
    rw [log]
    exact onRecord_current hrow
  · intro other row hrec hgone
    rw [rows] at hgone
    rw [log] at hrec
    rw [env]
    obtain ⟨hbefore, hrow | ⟨hrow, _, row', hd, hnot⟩⟩ := onRecord_gone ledger hrec hgone
    · exact ledger.gone other row hbefore hrow
    · rw [(h.draft _ _ hd).2] at hnot
      cases hnot

/-- A create puts one share on record. -/
theorem FitsCreate.newly_counted {p : SecretShare → Bool} (ledger : Ledger first s)
    (h : FitsCreate first senderId recipientId t s id share)
    (hc : counted first (commitOf s t call result :: s.log) p other) :
    (other = id ∧ p share = true) ∨ counted first s.log p other := by
  by_cases hsame : other = id
  · subst hsame
    refine Or.inl ⟨rfl, ?_⟩
    unfold Sinnlos.Cms.counted at hc
    rw [onRecord_current (current_of_draft_some h.created)] at hc
    exact hc
  · refine Or.inr ?_
    unfold Sinnlos.Cms.counted at hc ⊢
    rw [onRecord_untouched ledger (h.untouched hsame)] at hc
    exact hc

/-- The count before a create bounds the count after it. -/
theorem FitsCreate.atMost {p q : SecretShare → Bool} (ledger : Ledger first s)
    (h : FitsCreate first senderId recipientId t s id share)
    (old : AtMost (n + 1) (counted first s.log p))
    (new : p share = true → AtMost n (counted first s.log q))
    (weaker : p share = true →
      ∀ b, p b = true → q b = true) :
    AtMost (n + 1) (counted first (commitOf s t call result :: s.log) p) := by
  by_cases hp : p share = true
  · refine (new hp).insert id ?_
    intro other hc
    rcases h.newly_counted ledger hc with ⟨hsame, _⟩ | hold
    · exact Or.inl hsame
    · refine Or.inr ?_
      unfold Sinnlos.Cms.counted at hold ⊢
      rw [Option.any_eq_true] at hold ⊢
      obtain ⟨b, hb, hpb⟩ := hold
      exact ⟨b, hb, weaker hp b hpb⟩
  · refine old.mono ?_
    intro other hc
    rcases h.newly_counted ledger hc with ⟨_, hyes⟩ | hold
    · exact absurd hyes hp
    · exact hold

theorem openAt_earlier {now asked : Nat} (h : asked ≤ now) (hopen : openAt now share = true) :
    openAt asked share = true := by
  simp only [openAt, Bool.and_eq_true, decide_eq_true_eq] at hopen ⊢
  exact ⟨hopen.1, Nat.lt_of_le_of_lt h hopen.2⟩

theorem Quotas.create (quotas : Quotas first s) (ledger : Ledger first s)
    (h : FitsCreate first senderId recipientId t s id share) (env : s'.env = s.env)
    (log : s'.log = commitOf s t call result :: s.log) : Quotas first s' := by
  obtain ⟨asked, hasked, hsender, hrecipient, hday⟩ := h.counts
  have earlier : ∀ now, s.env.now ≤ now → asked ≤ now := by
    intro now hnow
    exact Nat.le_trans (Nat.le_trans hasked h.clock) hnow
  refine ⟨?_, ?_, ?_⟩
  · intro sender now hnow
    rw [env] at hnow
    rw [log]
    refine h.atMost (n := 19) ledger (quotas.sender sender now hnow) (fun _ => hsender) ?_
    intro hp b hb
    simp only [pendingFrom, Bool.and_eq_true, beq_iff_eq] at hp hb ⊢
    exact ⟨openAt_earlier (earlier now hnow) hb.1, by rw [hb.2, ← hp.2, h.sender]⟩
  · intro recipient now hnow
    rw [env] at hnow
    rw [log]
    refine h.atMost (n := 19) ledger (quotas.recipient recipient now hnow) (fun _ => hrecipient) ?_
    intro hp b hb
    simp only [pendingTo, Bool.and_eq_true, beq_iff_eq] at hp hb ⊢
    exact ⟨openAt_earlier (earlier now hnow) hb.1, by rw [hb.2, ← hp.2, h.recipient]⟩
  · intro sender last
    rw [log]
    refine h.atMost (n := 99) ledger (quotas.day sender last) (fun _ => hday) ?_
    intro hp b hb
    simp only [createdWithin, createdSince, Bool.and_eq_true, beq_iff_eq, decide_eq_true_eq]
      at hp hb ⊢
    refine ⟨by rw [hb.1.1, ← hp.1.1, h.sender], ?_⟩
    omega

end Commits

end Reliance

/-! ## Ends -/

section Ends
variable {τ : Type} {first : RowKey → Record} {t : τ} {s s' : ShareSystem τ}

/-- The transaction has changed nothing yet. -/
def Clean (t : τ) (s : ShareSystem τ) : Prop := ∀ k, s.draft t k = none

theorem Clean.drafted (h : Clean t s) (ok : RowKey → Record → Record → Prop) : Drafted ok t s := by
  intro k row hrow
  rw [h k] at hrow
  cases hrow

theorem Clean.current (h : Clean t s) (k : RowKey) : s.current t k = s.rows k :=
  current_of_draft_none (h k)

/-- The id is taken, and its share, if there is one, was created by `now`. -/
structure Seen (id now : Nat) (s : ShareSystem τ) : Prop where
  used : s.rows (.share id) = .deleted ∨ ∃ share, s.rows (.share id) = .share share
  created : ∀ share, s.rows (.share id) = .share share → share.createdAt ≤ now

variable {id : Nat}

/-- A share that is there was created by the time on the clock. -/
theorem Ledger.seen (ledger : Ledger first s)
    (used : s.rows (.share id) = .deleted ∨ ∃ share, s.rows (.share id) = .share share) :
    Seen id s.env.now s :=
  ⟨used, fun share hrow => (ledger.times id share hrow).1⟩

theorem used_moves (h : Keeps first t s s')
    (used : s.rows (.share id) = .deleted ∨ ∃ share, s.rows (.share id) = .share share) :
    s'.rows (.share id) = .deleted ∨ ∃ share, s'.rows (.share id) = .share share := by
  have hmoves := h.moves (.share id)
  cases hrow : s'.rows (.share id) with
  | deleted => exact Or.inl rfl
  | share share => exact Or.inr ⟨share, rfl⟩
  | _ =>
      rw [hrow] at hmoves
      rcases used with hdel | ⟨share, hshare⟩
      · rw [hdel] at hmoves
        exact hmoves.elim
      · rw [hshare] at hmoves
        exact hmoves.elim

variable {now : Nat}

theorem Seen.keeps (h : Seen id now s) (hk : Keeps first t s s') : Seen id now s' := by
  refine ⟨used_moves hk h.used, ?_⟩
  intro share hrow
  have hmoves := hk.moves (.share id)
  rw [hrow] at hmoves
  rcases h.used with hdel | ⟨before, hbefore⟩
  · rw [hdel] at hmoves
    exact hmoves.elim
  · rw [hbefore] at hmoves
    have hcreated := h.created before hbefore
    rcases hmoves with rfl | ⟨_, target, ms, _, rfl⟩
    · exact hcreated
    · exact hcreated

variable [DecidableEq τ] {α : Type} {Q : α → ShareSystem τ → Prop}

theorem Clean.onward (h : Clean t s) (hs : Onward (shareReliance first τ) t s s') : Clean t s' := by
  intro k
  rw [hs.draft]
  exact h k

theorem along_findShare {documentId : String} {f : Option (Nat × SecretShare) → ShareTxn α}
    (clean : Clean t s)
    (missing : ∀ s', Onward (shareReliance first τ) t s s' → (f none).Along (shareReliance first τ) t Q s')
    (found : ∀ s' id share, Onward (shareReliance first τ) t s s' →
      s'.rows (.share id) = .share share →
      (f (some (id, share))).Along (shareReliance first τ) t Q s') :
    (findShare documentId >>= f).Along (shareReliance first τ) t Q s := by
  refine Along.bind (along_select ?_)
  intro s₁ h₁ _ s₂ h₂ _
  cases hfind : ((s₁.view t).find? fun key record =>
      (shareAt key record).filter fun row => row.2.documentId = documentId) with
  | none => exact (missing s₁ h₁).onward h₂
  | some row =>
      obtain ⟨id, share⟩ := row
      obtain ⟨hrow, _⟩ := find_share_spec hfind
      change s₁.current t (.share id) = .share share at hrow
      rw [(clean.onward h₁).current] at hrow
      simp only [Option.bind_some]
      unfold toShare
      split
      · exact (found s₁ id share h₁ hrow).onward h₂
      · exact (missing s₁ h₁).onward h₂

variable {target : SecretShareState}

/-- The terminal write of a transaction that changed nothing else. -/
theorem along_endShare {erases : Bool} {result : α} (clean : Clean t s)
    (final : target ≠ .pending) (seen : Seen id now s) :
    (endShare id target now >>= fun _ => pure result).Along (shareReliance first τ) t
      (fun _ s' => Drafted (ShareChange erases s'.env.now) t s') s := by
  refine Along.bind (along_updateWhere ?_ ?_)
  · intro s₁ h₁ _ hfound free
    rw [(clean.onward h₁).current] at hfound ⊢
    cases hrow : s₁.rows (.share id) with
    | share share =>
        rw [hrow] at hfound
        have hend : endable target share = true := by
          simpa [Record.shareWhere, Record.share?] using hfound
        have hpending : share.state = .pending := by
          unfold endable at hend
          simp only [Bool.and_eq_true, decide_eq_true_eq] at hend
          exact hend.1
        intro s₂ h₂ _ s₃ h₃ _
        have drafted : Drafted (ShareChange erases s₃.env.now) t (s₁.put t (.share id)
            (.share (share.ended target now))) := by
          intro k row hd
          by_cases hk : k = .share id
          · subst hk
            simp only [Database.put, Function.update_self, Option.some.injEq] at hd
            subst hd
            refine ⟨by simp [Database.put, Database.hold], ?_⟩
            show ShareChange _ _ _ (s₁.rows (.share id)) _
            rw [hrow]
            exact .ended id share target now final hpending
              ((seen.keeps h₁.keeps).created share hrow)
          · simp only [Database.put, Function.update_self, Function.update_of_ne hk] at hd
            rw [(clean.onward h₁) k] at hd
            cases hd
        exact drafted.onward (h₂.trans h₃)
    | _ =>
        rw [hrow] at hfound
        simp [Record.shareWhere, Record.share?] at hfound
  · intro s₁ _ _ _
    trivial

theorem revealShare_along (m : SecretModule) (caller : SecretCaller) (documentId : String)
    (clean : Clean t s) :
    (m.revealShare caller documentId).Along (shareReliance first τ) t
      (fun _ s' => Drafted (ShareChange false s'.env.now) t s') s := by
  unfold SecretModule.revealShare
  split
  · trivial
  split
  · trivial
  refine along_findShare clean (fun _ _ => trivial) ?_
  intro s₁ seenId seenShare h₁ _
  show Along _ _ (ite _ _ _) _ _
  split
  · trivial
  refine along_quiet (lockPeople_quiet _) ?_
  intro _ s₂ h₂
  refine along_quiet (assertFreshCaller_quiet m caller) ?_
  intro person s₃ h₃
  split
  · trivial
  refine along_quiet (lockShareRow_quiet _) ?_
  intro _ s₄ h₄
  have clean₄ : Clean t s₄ := (((clean.onward h₁).onward h₂).onward h₃).onward h₄
  refine along_findShare clean₄ (fun _ _ => trivial) ?_
  intro s₅ id share h₅ hrow
  show Along _ _ (ite _ _ _) _ _
  split
  · trivial
  refine along_quiet (loadPerson_quiet _) ?_
  intro sender s₆ h₆
  split
  · trivial
  refine along_ask ?_
  intro s₇ h₇ ledger
  have clean₇ : Clean t s₇ := ((clean₄.onward h₅).onward h₆).onward h₇
  have seen : Seen id s₇.env.now s₇ :=
    ledger.seen (used_moves (h₆.trans h₇).keeps (Or.inr ⟨share, hrow⟩))
  split
  · trivial
  split
  · trivial
  split
  · trivial
  split
  · exact along_endShare clean₇ (by decide) seen
  · exact along_endShare clean₇ (by decide) seen

theorem revokeShare_along (m : SecretModule) (caller : SecretCaller) (documentId : String)
    (clean : Clean t s) :
    (m.revokeShare caller documentId).Along (shareReliance first τ) t
      (fun _ s' => Drafted (ShareChange false s'.env.now) t s') s := by
  unfold SecretModule.revokeShare
  split
  · trivial
  refine along_findShare clean (fun _ _ => trivial) ?_
  intro s₁ seenId seenShare h₁ _
  show Along _ _ (ite _ _ _) _ _
  split
  · trivial
  refine along_quiet (lockPeople_quiet _) ?_
  intro _ s₂ h₂
  refine along_quiet (assertFreshCaller_quiet m caller) ?_
  intro person s₃ h₃
  refine along_quiet (lockShareRow_quiet _) ?_
  intro _ s₄ h₄
  have clean₄ : Clean t s₄ := (((clean.onward h₁).onward h₂).onward h₃).onward h₄
  refine along_findShare clean₄ (fun _ _ => trivial) ?_
  intro s₅ id share h₅ hrow
  show Along _ _ (ite _ _ _) _ _
  split
  · trivial
  split
  · trivial
  refine along_ask ?_
  intro s₆ h₆ ledger
  exact along_endShare ((clean₄.onward h₅).onward h₆) (by decide)
    (ledger.seen (used_moves h₆.keeps (Or.inr ⟨share, hrow⟩)))

theorem endEach_along (pick : ShareView → Nat → Option Nat) (final : target ≠ .pending)
    (due : ShareView → SecretShare → Nat → Bool) (clean : Clean t s) :
    (endEach pick target due).Along (shareReliance first τ) t
      (fun _ s' => Drafted (ShareChange false s'.env.now) t s') s := by
  unfold endEach
  refine along_ask ?_
  intro s₁ h₁ _
  refine along_select ?_
  intro s₂ h₂ _
  have clean₂ := (clean.onward h₁).onward h₂
  split
  · intro s₃ h₃ _
    exact (clean₂.onward h₃).drafted _
  rename_i id _
  refine along_quiet (lockShareRow_quiet _) ?_
  intro _ s₃ h₃
  refine along_select ?_
  intro s₄ h₄ _
  have clean₄ := (clean₂.onward h₃).onward h₄
  refine along_ask ?_
  intro s₅ h₅ ledger
  refine along_select ?_
  intro s₆ h₆ _
  have clean₆ := (clean₄.onward h₅).onward h₆
  split
  · intro s₇ h₇ _
    exact (clean₆.onward h₇).drafted _
  · rename_i share hshare
    split
    · have hrow : s₄.rows (.share id) = .share share := by
        change (s₄.current t (.share id)).share? = some share at hshare
        rw [clean₄.current] at hshare
        cases hr : s₄.rows (.share id) with
        | share row =>
            rw [hr] at hshare
            cases hshare
            rfl
        | _ =>
            rw [hr] at hshare
            cases hshare
      have seen : Seen id s₅.env.now s₅ :=
        ledger.seen (used_moves h₅.keeps (Or.inr ⟨share, hrow⟩))
      exact along_endShare clean₆ final (seen.keeps h₆.keeps)
    · intro s₇ h₇ _
      exact (clean₆.onward h₇).drafted _

end Ends

/-! ## Deletions -/

section Deletions
variable {τ : Type} {first : RowKey → Record} {t : τ} {s : ShareSystem τ}

/-- Shares of these ids go. -/
def DeletesOf (ids : Nat → Prop) (key : RowKey) (a b : Record) : Prop :=
  ∃ id share, ids id ∧ key = .share id ∧ a = .share share ∧ b = .deleted

theorem deletesOf_trans (ids : Nat → Prop) (key : RowKey) (a b c : Record)
    (h₁ : DeletesOf ids key a b) (h₂ : DeletesOf ids key b c) : DeletesOf ids key a c := by
  obtain ⟨_, _, _, _, _, hb⟩ := h₁
  obtain ⟨_, _, _, _, hshare, _⟩ := h₂
  rw [hb] at hshare
  cases hshare

variable {ids : Nat → Prop} {wanted : Nat → SecretShare → Bool}

theorem deleteRows_writes (list : List Nat) (h : ∀ id ∈ list, ids id) :
    (deleteRows list).Writes (DeletesOf ids) := by
  induction list with
  | nil => trivial
  | cons id rest ih =>
      rw [List.forall_mem_cons] at h
      refine ⟨?_, fun _ => ih h.2⟩
      intro row hfound
      cases row with
      | share share => exact ⟨id, share, h.1, rfl, rfl, rfl⟩
      | _ => cases hfound

theorem deleteShares_writes (h : ∀ id share, wanted id share = true → ids id)
    (pages deleted : Nat) : (deleteShares wanted pages deleted).Writes (DeletesOf ids) := by
  induction pages generalizing deleted with
  | zero => trivial
  | succ pages ih =>
      intro view
      show Writes _ (ite _ _ _)
      split
      · trivial
      · refine Writes.bind (deleteRows_writes _ ?_) fun _ => ih _
        intro id hid
        obtain ⟨row, hrow, rfl⟩ := List.mem_map.mp hid
        have hpage := List.mem_of_mem_take (List.mem_filter.mp hrow).1
        obtain ⟨key, _, hkey⟩ := List.mem_filterMap.mp hpage
        exact h row.1 row.2 (Option.filter_eq_some_iff.mp hkey).2

variable [DecidableEq τ]

theorem deleteShares_along (pages deleted : Nat) (clean : Clean t s) :
    (deleteShares wanted pages deleted).Along (shareReliance first τ) t
      (fun _ s' => Drafted (ShareChange true s'.env.now) t s') s := by
  have writes : (deleteShares wanted pages deleted).Writes (DeletesOf fun _ => True) :=
    deleteShares_writes (fun _ _ _ => trivial) pages deleted
  refine (writes.along (deletesOf_trans _) (clean.drafted _)).mono ?_
  intro _ s' _ h k row hd
  obtain ⟨held, id, share, _, rfl, hrow, rfl⟩ := h.1 k row hd
  rw [hrow]
  exact ⟨held, .erased id share rfl⟩

theorem deleteConfirmed_along (due : ShareView → SecretShare → Nat → Bool) (pages : Nat)
    (clean : Clean t s) :
    (deleteConfirmed due pages).Along (shareReliance first τ) t
      (fun _ s' => Drafted (ShareChange true s'.env.now) t s') s := by
  unfold deleteConfirmed
  refine along_ask ?_
  intro s₁ h₁ _
  refine along_select ?_
  intro s₂ h₂ _
  have clean₂ := (clean.onward h₁).onward h₂
  show Along _ _ (ite _ _ _) _ _
  split
  · intro s₃ h₃ _
    exact (clean₂.onward h₃).drafted _
  · exact deleteShares_along pages 0 clean₂

theorem mem_ids {view : ShareView} {p : SecretShare → Bool} {id : Nat}
    (h : id ∈ ShareView.ids view p) :
    ∃ share, view.row (.share id) = .share share ∧ p share = true := by
  have hmatching := (List.mem_insertionSort _).mp (List.mem_of_mem_take h)
  obtain ⟨key, _, hkey⟩ := List.mem_filterMap.mp hmatching
  obtain ⟨row, hrow, rfl⟩ := Option.map_eq_some_iff.mp hkey
  obtain ⟨hat, hp⟩ := Option.filter_eq_some_iff.mp hrow
  obtain ⟨rfl, hshare⟩ := shareAt_eq_some hat
  exact ⟨row.2, hshare, hp⟩

/-- The retention deletes only shares that were created longer ago than it lasts. -/
theorem janitorRetention_along (pages : Nat) (clean : Clean t s) :
    (deleteConfirmed (fun _ share now => pastRetention share now) pages).Along
      (shareReliance first τ) t (fun _ s' => Drafted (ShareChange false s'.env.now) t s') s := by
  unfold deleteConfirmed
  refine along_ask ?_
  intro s₁ h₁ _
  refine along_select ?_
  intro s₂ h₂ ledger
  have clean₂ := (clean.onward h₁).onward h₂
  show Along _ _ (ite _ _ _) _ _
  split
  · intro s₃ h₃ _
    exact (clean₂.onward h₃).drafted _
  · generalize hids : ShareView.ids (s₂.view t) (fun share => pastRetention share s₁.env.now) = ids
    have old : ∀ id ∈ ids, ∃ share, s₂.rows (.share id) = .share share ∧
        share.state ≠ .pending ∧ share.createdAt + secretShareRetentionMs < s₁.env.now := by
      intro id hid
      rw [← hids] at hid
      obtain ⟨share, hrow, hpast⟩ := mem_ids hid
      change s₂.current t (.share id) = .share share at hrow
      rw [clean₂.current] at hrow
      simp only [pastRetention, Bool.and_eq_true, decide_eq_true_eq, Option.any_eq_true] at hpast
      obtain ⟨hstate, ms, hms, hlate⟩ := hpast
      have horder := (ledger.times id share hrow).2 ms hms
      exact ⟨share, hrow, hstate, by omega⟩
    have writes : (deleteShares (fun id _ => ids.contains id) pages 0).Writes
        (DeletesOf fun id => id ∈ ids) := by
      apply deleteShares_writes
      intro id share hwanted
      simpa using hwanted
    refine (writes.along (deletesOf_trans _) (clean₂.drafted _)).mono ?_
    intro _ s' _ h k row hd
    obtain ⟨held, id, share, hid, rfl, hrow, rfl⟩ := h.1 k row hd
    obtain ⟨before, hbefore, hstate, hold⟩ := old id hid
    have hkeeps : Keeps first t s₂ s' := h.2
    have hmoves := hkeeps.moves (.share id)
    rw [hbefore, hrow] at hmoves
    rw [hrow]
    rcases hmoves with rfl | hend
    · refine ⟨held, .outdated id before hstate ?_⟩
      have hclock := h₂.keeps.clock
      have hclock' := hkeeps.clock
      omega
    · exact absurd hend.left.1 hstate

theorem writePerson_along (id : Nat) (row : Option Person) (clean : Clean t s) :
    (writePerson id row).Along (shareReliance first τ) t
      (fun _ s' => Drafted (ShareChange false s'.env.now) t s') s := by
  have writes : (writePerson id row).Writes fun key _ _ => ∃ id, key = .user id :=
    ⟨fun _ _ => ⟨id, rfl⟩, fun _ => trivial⟩
  refine (writes.along (fun _ _ _ _ h _ => h) (clean.drafted _)).mono ?_
  intro _ s' _ h k after hd
  obtain ⟨held, user, rfl⟩ := h.1 k after hd
  exact ⟨held, .person user _ _⟩

end Deletions

/-! ## Creates -/

section Creates
variable {τ : Type} {first : RowKey → Record} {t : τ} {s : ShareSystem τ} {p : SecretShare → Bool}

theorem length_filterMap_le {β δ : Type} {keys : List β} {f : β → Option SecretShare}
    {g : β → Option δ} (h : ∀ key, (g key).isSome = true → (f key).any p = true) :
    (keys.filterMap g).length ≤ (keys.filterMap f).countP p := by
  induction keys with
  | nil => exact Nat.le_refl 0
  | cons key keys ih =>
      have hkey := h key
      rw [List.filterMap_cons, List.filterMap_cons]
      cases hg : g key with
      | none =>
          dsimp only
          cases f key with
          | none => exact ih
          | some share =>
              rw [List.countP_cons]
              omega
      | some d =>
          rw [hg] at hkey
          obtain ⟨share, hf, hp⟩ := (Option.any_eq_true _ _).mp (hkey rfl)
          rw [hf]
          dsimp only
          rw [List.length_cons, List.countP_cons, if_pos hp]
          omega

/-- The id of a share that meets a condition. -/
def idWhere (p : SecretShare → Bool) (view : ShareView) (key : RowKey) : Option Nat :=
  ((shareAt key (view.row key)).filter fun row => p row.2).map Prod.fst

/-- What a count of the rows says of the record. -/
theorem atMost_of_count {q : SecretShare → Bool} (ledger : Ledger first s) (clean : Clean t s)
    (count : ShareView.count (s.view t) p ≤ n) (weaker : ∀ b, q b = true → p b = true)
    (present : ∀ b : SecretShare, b.state ≠ .pending →
      b.createdAt + secretShareRetentionMs < s.env.now → q b = false) :
    AtMost n (counted first s.log q) := by
  refine ⟨s.keys.filterMap (idWhere p (s.view t)), ?_, ?_⟩
  · refine Nat.le_trans (length_filterMap_le ?_) count
    intro key hsome
    obtain ⟨id, hid⟩ := Option.isSome_iff_exists.mp hsome
    obtain ⟨row, hrow, rfl⟩ := Option.map_eq_some_iff.mp hid
    obtain ⟨hat, hp⟩ := Option.filter_eq_some_iff.mp hrow
    obtain ⟨rfl, hshare⟩ := shareAt_eq_some hat
    rw [hshare]
    exact hp
  · intro id hc
    unfold counted at hc
    obtain ⟨b, hb, hq⟩ := (Option.any_eq_true _ _).mp hc
    cases hrow : s.rows (.share id) with
    | share share =>
        have hcur := ledger.current id share hrow
        rw [hb] at hcur
        cases hcur
        rw [List.mem_filterMap]
        refine ⟨.share id, ?_, ?_⟩
        · refine Classical.byContradiction fun hno => ?_
          have hblank := (ledger.consistent.fresh _ hno).1
          rw [hrow] at hblank
          cases hblank
        · have hcurrent : (s.view t).row (.share id) = .share b := by
            show s.current t (.share id) = .share b
            rw [clean.current, hrow]
          simp only [idWhere, hcurrent, shareAt, Option.filter_some, weaker b hq, if_true,
            Option.map_some]
    | _ =>
        have hgone := ledger.gone id b hb (by rw [hrow]; rfl)
        rw [present b hgone.1 hgone.2] at hq
        cases hq

variable {s' : ShareSystem τ}

theorem Keeps.counted (h : Keeps first t s s') (directory : s.holder .directory = some t)
    (closed : Closed p) (atMost : AtMost n (counted first s.log p)) :
    AtMost n (counted first s'.log p) :=
  atMost.mono fun _ => (h.directory directory).2.counted closed

variable [DecidableEq τ] {α : Type} {Q : α → ShareSystem τ → Prop}

/-- The transaction holds the directory and has changed nothing yet. -/
structure Locked (t : τ) (s : ShareSystem τ) : Prop where
  clean : Clean t s
  directory : s.holder .directory = some t

theorem Locked.onward (h : Locked t s) (hs : Onward (shareReliance first τ) t s s') : Locked t s' :=
  ⟨h.clean.onward hs, hs.held _ h.directory⟩

theorem lockPeople_along (ids : List Nat) (clean : Clean t s) :
    (lockPeople ids).Along (shareReliance first τ) t (fun _ s' => Locked t s') s := by
  refine along_forUpdate ?_ ?_
  · intro s₁ h₁ _ _ free
    refine ((lockUserRows_quiet _).along _).mono ?_
    intro _ s₂ _ h₂
    have locked : Locked t (s₁.hold t .directory) :=
      ⟨fun k => (clean.onward h₁) k, by simp [Database.hold]⟩
    exact locked.onward h₂
  · intro s₁ _ _ hnone
    cases hnone

theorem along_quota {limit : Nat} {f : Unit → ShareTxn α}
    (h : ∀ s', Onward (shareReliance first τ) t s s' → Ledger first s' →
      ShareView.count (s'.view t) p < limit → (f ()).Along (shareReliance first τ) t Q s') :
    (quota limit p >>= f).Along (shareReliance first τ) t Q s := by
  refine Along.bind (along_select ?_)
  intro s₁ h₁ ledger
  show Along _ _ (ite _ _ _) _ _
  split
  · trivial
  · rename_i hcount
    intro s₂ h₂ _
    exact (h s₁ h₁ ledger (Nat.lt_of_not_le hcount)).onward h₂

/-- The insert of a create and the envelope that fills it, after the counts. -/
theorem insertShare_along {key : RowKey → Bool} {row : SecretShare} {envelope : String}
    {senderId recipientId : Nat} (hkey : key = RowKey.isShare) (locked : Locked t s)
    (sender : row.senderId = senderId) (recipient : row.recipientId = recipientId)
    (pending : row.terminalAt = none) (clock : row.createdAt ≤ s.env.now)
    (counts : ∃ asked, asked ≤ row.createdAt ∧
      AtMost 19 (counted first s.log (pendingFrom asked senderId)) ∧
      AtMost 19 (counted first s.log (pendingTo asked recipientId)) ∧
      AtMost 99 (counted first s.log (createdSince row.createdAt senderId))) :
    (Txn.insert key (.share row) >>= fun created =>
      if (toShare row).isNone then .refuse (refuseShare .busy)
      else do
        let filled ← Txn.updateWhere created
          (Record.shareWhere fun share =>
            decide (share.state = .pending) && share.envelope.isNone)
          (Record.mapShare fun share => { share with envelope := some envelope })
        if filled then return ShareResult.created row.documentId row.expiresAt
        else .refuse (refuseShare .busy) : ShareTxn ShareResult).Along (shareReliance first τ) t
      (fun _ s' => ∃ id share, FitsCreate first senderId recipientId t s' id share) s := by
  subst hkey
  refine along_insert ?_
  intro s₁ h₁ ledger k hk fresh free
  split
  · trivial
  · cases k with
    | share id =>
        have locked₁ := locked.onward h₁
        have blank := (ledger.consistent.fresh _ fresh).1
        refine along_updateWhere ?_ ?_
        · intro s₂ h₂ _ _ free₂ s₃ h₃ _
          have held₁ : (s₁.put t (.share id) (.share row)).holder (.share id) = some t := by
            simp [Database.put, Database.hold]
          have hcur : s₂.current t (.share id) = .share row := by
            apply current_of_draft_some
            rw [h₂.draft]
            simp [Database.put]
          rw [hcur] at h₃
          have keeps : Keeps first t s s₃ :=
            ((((h₁.keeps.trans ((shareReliance first τ).put t s₁ _ _ free)).trans h₂.keeps).trans
              ((shareReliance first τ).put t s₂ _ _ free₂)).trans h₃.keeps)
          have directory : s₃.holder .directory = some t := (keeps.directory locked.directory).1
          refine ⟨id, { row with envelope := some envelope }, directory, ?_, ?_, ?_, sender,
            recipient, pending, Nat.le_trans clock keeps.clock, ?_⟩
          · intro j after hd
            rw [h₃.draft] at hd
            by_cases hj : j = .share id
            · subst hj
              simp only [Database.put, Function.update_self, Option.some.injEq] at hd
              exact ⟨rfl, hd.symm⟩
            · simp only [Database.put, Function.update_self, Function.update_of_ne hj] at hd
              rw [h₂.draft] at hd
              simp only [Database.put, Function.update_self, Function.update_of_ne hj] at hd
              rw [locked₁.clean j] at hd
              cases hd
          · rw [h₃.draft]
            simp [Database.put, Record.mapShare]
          · have held₂ : (s₂.put t (.share id) (Record.mapShare (fun share =>
                { share with envelope := some envelope }) (.share row))).holder (.share id) =
                some t := by
              simp [Database.put, Database.hold]
            rw [h₃.rows _ held₂]
            show s₂.rows (.share id) = .unused
            rw [h₂.rows _ held₁]
            exact blank
          · obtain ⟨asked, hasked, hsender, hrecipient, hday⟩ := counts
            exact ⟨asked, hasked,
              keeps.counted locked.directory (pendingFrom_closed _ _) hsender,
              keeps.counted locked.directory (pendingTo_closed _ _) hrecipient,
              keeps.counted locked.directory (createdSince_closed _ _) hday⟩
        · intro s₂ _ _ _
          trivial
    | _ => cases hk

theorem createShare_along (m : SecretModule) (caller : SecretCaller) (input : CreateInput)
    (clean : Clean t s) :
    (m.createShare caller input).Along (shareReliance first τ) t
      (fun _ s' => ∃ id share, FitsCreate first caller.userId input.recipient t s' id share) s := by
  unfold SecretModule.createShare
  split
  · trivial
  · refine Along.bind ((lockPeople_along _ clean).mono ?_)
    intro _ s₁ _ locked₁
    refine along_quiet (assertFreshCaller_quiet m caller) ?_
    intro sender s₂ h₂
    split
    · trivial
    · refine along_quiet (loadPerson_quiet _) ?_
      intro recipient s₃ h₃
      split
      · trivial
      · refine along_ask ?_
        intro s₄ h₄ _
        have locked₄ := ((locked₁.onward h₂).onward h₃).onward h₄
        refine along_quota ?_
        intro s₅ h₅ ledger₅ count₅
        have locked₅ := locked₄.onward h₅
        have bySender : AtMost 19 (counted first s₅.log (pendingFrom s₄.env.now caller.userId)) :=
          atMost_of_count ledger₅
          locked₅.clean (Nat.le_of_lt_succ count₅) (fun _ h => h)
          (fun b hb _ => by simp [pendingFrom, not_open_of_ended hb])
        refine along_quota ?_
        intro s₆ h₆ ledger₆ count₆
        have locked₆ := locked₅.onward h₆
        have byRecipient : AtMost 19 (counted first s₆.log (pendingTo s₄.env.now input.recipient)) :=
          atMost_of_count ledger₆
          locked₆.clean (Nat.le_of_lt_succ count₆) (fun _ h => h)
          (fun b hb _ => by simp [pendingTo, not_open_of_ended hb])
        refine along_quota ?_
        intro s₇ h₇ ledger₇ count₇
        have locked₇ := locked₆.onward h₇
        refine along_ask ?_
        intro s₈ h₈ _
        have clock : s₄.env.now ≤ s₇.env.now :=
          Nat.le_trans (Nat.le_trans h₅.keeps.clock h₆.keeps.clock) h₇.keeps.clock
        have clock₈ : s₇.env.now ≤ s₈.env.now := h₈.keeps.clock
        have byDay : AtMost 99 (counted first s₇.log (createdSince s₈.env.now caller.userId)) := by
          refine atMost_of_count ledger₇ locked₇.clean (Nat.le_of_lt_succ count₇) ?_ ?_
          · intro b hb
            simp only [createdSince, Bool.and_eq_true, beq_iff_eq, decide_eq_true_eq] at hb ⊢
            exact ⟨hb.1, by omega⟩
          · intro b _ hold
            have : dayMs ≤ secretShareRetentionMs := by decide
            simp only [createdSince, Bool.and_eq_false_iff, decide_eq_false_iff_not]
            exact Or.inr (by omega)
        refine insertShare_along rfl (locked₇.onward h₈) rfl rfl rfl (Nat.le_refl _)
          ⟨s₄.env.now, Nat.le_trans clock clock₈, ?_, ?_, ?_⟩
        · exact (h₆.keeps.trans (h₇.keeps.trans h₈.keeps)).counted locked₅.directory
            (pendingFrom_closed _ _) bySender
        · exact (h₇.keeps.trans h₈.keeps).counted locked₆.directory (pendingTo_closed _ _)
            byRecipient
        · exact h₈.keeps.counted locked₇.directory (createdSince_closed _ _) byDay

end Creates

/-! ## Every interleaving -/

section Runs
variable {τ : Type} [DecidableEq τ]

theorem program_along (first : RowKey → Record) (m : SecretModule) (call : ShareCall) (t : τ)
    (s : ShareSystem τ) (clean : Clean t s) :
    (m.program call).Along (shareReliance first τ) t (fun _ s' => Fits first call t s') s := by
  have expired : SecretShareState.expired ≠ .pending := by decide
  have cancelled : SecretShareState.cancelled ≠ .pending := by decide
  cases call <;> simp only [SecretModule.program, Fits, ShareCall.erases]
  case create caller input => exact createShare_along m caller input clean
  case reveal caller documentId => exact revealShare_along m caller documentId clean
  case revoke caller documentId => exact revokeShare_along m caller documentId clean
  case janitorExpired n =>
    unfold janitorExpired
    exact endEach_along _ expired _ clean
  case janitorCancelled n =>
    unfold janitorCancelled
    exact endEach_along _ cancelled _ clean
  case janitorOrphans pages => exact deleteConfirmed_along _ pages clean
  case janitorRetention pages => exact janitorRetention_along pages clean
  case deleteSharesOf userId pages => exact deleteShares_along pages 0 clean
  case writePerson id row => exact writePerson_along id row clean

/-- A step with a clock that does not go back. -/
def ForwardStep (m : SecretModule) (s : ShareSystem τ) (label : TxnLabel τ RowKey ShareEnv ShareCall)
    (s' : ShareSystem τ) : Prop :=
  ShareStep m s label s' ∧ s.env.now ≤ s'.env.now

/-- No call has been made; the shares there are have their times in order and
meet the limits. -/
structure SeededBoot (s : ShareSystem τ) : Prop where
  started : s.Started .unused
  times : ∀ id share, s.rows (.share id) = .share share → share.createdAt ≤ s.env.now ∧
    ∀ ms, share.terminalAt = some ms → share.createdAt ≤ ms
  quotas : Quotas s.rows s

structure Kempt (first : RowKey → Record) (m : SecretModule) (s : ShareSystem τ) : Prop where
  sound : s.Sound shareGuarantee m.post
  ledger : Ledger first s
  quotas : Quotas first s
  kept : Kept (shareReliance first τ) (fun call t _ s => Fits first call t s) s

variable {s : ShareSystem τ} {m : SecretModule}

theorem SeededBoot.kempt (h : SeededBoot s) (m : SecretModule) : Kempt s.rows m s := by
  have sound : s.Sound shareGuarantee m.post := Database.Started.sound h.started m.post
  refine ⟨sound, ⟨sound.toConsistent, h.times, ?_, ?_⟩, h.quotas, h.started.kept⟩
  · intro id share hrow
    rw [h.started.log]
    show (s.rows (.share id)).share? = some share
    rw [hrow]
    rfl
  · intro id share hrec hgone
    rw [h.started.log] at hrec
    change (s.rows (.share id)).share? = some share at hrec
    simp [Record.isShare, hrec] at hgone

variable {first : RowKey → Record} {s' : ShareSystem τ}
  {label : TxnLabel τ RowKey ShareEnv ShareCall} {view : ShareView} {callerId now : Nat}

theorem Kempt.keeps (h : Kempt first m s) (hs : ForwardStep m s label s') {t : τ}
    (ht : label.worker ≠ some t) : Keeps first t s s' := by
  have consistent := h.sound.toConsistent
  refine ⟨hs.2, hs.1.moves consistent, ?_⟩
  intro held
  refine ⟨((hs.1.untouched consistent ht).2 _ held).1, ?_⟩
  rcases hs.1.commit_cases with ⟨_, hlog⟩ | ⟨other, call, result, hlabel, _, _, hlog, hp⟩
  · rw [hlog]
    exact .refl _
  · rw [hlog]
    rcases (h.kept.reached h.ledger hp).cases with ⟨_, _, _, _, fits⟩ | drafted
    · -- two transactions cannot hold the directory
      rw [fits.directory] at held
      cases held
      rw [hlabel] at ht
      exact absurd rfl ht
    · exact shrinks_of_drafted h.ledger drafted

theorem Kempt.step (h : Kempt first m s) (hs : ForwardStep m s label s') : Kempt first m s' := by
  have sound := h.sound.step (program_ensures m) hs.1
  have kept := h.kept.step h.sound.toConsistent h.ledger hs.1
    (fun t call m' clean => program_along first m call t m' clean) fun t ht => h.keeps hs ht
  rcases hs.1.commit_cases with ⟨hrows, hlog⟩ | ⟨t, call, result, _, hrows, henv, hlog, hp⟩
  · refine ⟨sound, ⟨sound.toConsistent, ?_, ?_, ?_⟩, ?_, kept⟩
    · intro id share hrow
      rw [hrows] at hrow
      obtain ⟨hcreated, hended⟩ := h.ledger.times id share hrow
      exact ⟨Nat.le_trans hcreated hs.2, hended⟩
    · intro id share hrow
      rw [hrows] at hrow
      rw [hlog]
      exact h.ledger.current id share hrow
    · intro id share hrec hgone
      rw [hlog] at hrec
      rw [hrows] at hgone
      obtain ⟨hstate, hold⟩ := h.ledger.gone id share hrec hgone
      exact ⟨hstate, Nat.lt_of_lt_of_le hold hs.2⟩
    · apply h.quotas.shrink _ hs.2
      rw [hlog]
      exact .refl _
  · rcases (h.kept.reached h.ledger hp).cases with ⟨_, _, _, _, fits⟩ | drafted
    · exact ⟨sound, h.ledger.create fits sound.toConsistent hrows henv hlog,
        h.quotas.create h.ledger fits henv hlog, kept⟩
    · refine ⟨sound, h.ledger.commit drafted sound.toConsistent hrows henv hlog, ?_, kept⟩
      apply h.quotas.shrink _ hs.2
      rw [hlog]
      exact shrinks_of_drafted h.ledger drafted

theorem Kempt.run {first : ShareSystem τ} {labels : List (TxnLabel τ RowKey ShareEnv ShareCall)}
    (boot : SeededBoot first) (hr : Runs.Run (ForwardStep m) first labels s) :
    Kempt first.rows m s :=
  hr.invariant (fun _ _ _ hs hm => hm.step hs) (boot.kempt m)

omit [DecidableEq τ] in
/-- The rows of a received list are as many as their ids. -/
theorem length_receivedRows_le
    (h : AtMost n fun id => ∃ share, view.row (.share id) = .share share ∧
      pendingTo now callerId share = true) :
    (ShareView.receivedRows view callerId now).length ≤ n := by
  obtain ⟨ids, hlen, hall⟩ := h
  unfold ShareView.receivedRows
  rw [List.length_insertionSort, ← List.length_map Prod.fst, List.map_filterMap]
  refine Nat.le_trans ?_ hlen
  have spec : ∀ {key id}, ((shareAt key (view.row key)).filter fun row =>
      pendingTo now callerId row.2).map Prod.fst = some id → key = .share id ∧ id ∈ ids := by
    intro key id hid
    obtain ⟨row, hrow, rfl⟩ := Option.map_eq_some_iff.mp hid
    obtain ⟨hat, hp⟩ := Option.filter_eq_some_iff.mp hrow
    obtain ⟨rfl, hshare⟩ := shareAt_eq_some hat
    exact ⟨rfl, hall row.1 ⟨row.2, hshare, hp⟩⟩
  have nodup : (view.keys.dedup.filterMap fun key => ((shareAt key (view.row key)).filter fun row =>
      pendingTo now callerId row.2).map Prod.fst).Nodup := by
    refine List.Nodup.filterMap ?_ (List.nodup_dedup _)
    intro key key' id hid hid'
    rw [(spec hid).1, (spec hid').1]
  apply (List.subperm_of_subset nodup ?_).length_le
  intro id hid
  obtain ⟨key, _, hkey⟩ := List.mem_filterMap.mp hid
  exact (spec hkey).2

omit [DecidableEq τ] in
/-- Where the bound cuts nothing off, every available share is listed. -/
theorem mem_listReceived {people : ShareView} {id : Nat} {share : SecretShare}
    (few : (ShareView.receivedRows view callerId now).length ≤ secretPendingPerRecipient)
    (key : RowKey.share id ∈ view.keys) (hrow : view.row (.share id) = .share share)
    (pending : pendingTo now callerId share = true) (shape : toShare share = some share)
    (available : m.available people now share = true) :
    share ∈ m.listReceived view people callerId now := by
  unfold SecretModule.listReceived
  rw [List.take_of_length_le few, List.mem_filter, List.mem_filterMap]
  refine ⟨⟨(id, share), ?_, shape⟩, available⟩
  unfold ShareView.receivedRows
  rw [List.mem_insertionSort, List.mem_filterMap]
  refine ⟨.share id, List.mem_dedup.mpr key, ?_⟩
  simp only [shareAt, hrow, Option.filter_some, pending, if_true]

/-- Along every run with a clock that does not go back, from a database whose
shares meet the limits: a sender and a recipient have at most twenty unexpired
pending shares, a sender has at most a hundred shares created in any 24 hours,
erased ones apart but those that the retention deleted included, and a listing
shows every pending share that can be opened, unless one of the caller's pending
shares expired between its reading of the clock and its query. -/
theorem secret_share_quotas (m : SecretModule) (first s : ShareSystem τ)
    (labels : List (TxnLabel τ RowKey ShareEnv ShareCall)) (boot : SeededBoot first)
    (hr : Runs.Run (ForwardStep m) first labels s) :
    (∀ senderId, AtMost 20 fun id => ∃ share, s.rows (.share id) = .share share ∧
      pendingFrom s.env.now senderId share = true) ∧
    (∀ recipientId, AtMost 20 fun id => ∃ share, s.rows (.share id) = .share share ∧
      pendingTo s.env.now recipientId share = true) ∧
    (∀ senderId last, AtMost 100 fun id => ∃ share, onRecord first.rows s.log id = some share ∧
      createdWithin last senderId share = true) ∧
    (∀ callerId now people,
      (∀ id share, s.rows (.share id) = .share share → pendingTo now callerId share = true →
        s.env.now < share.expiresAt) →
      ∀ id share, s.rows (.share id) = .share share → pendingTo now callerId share = true →
        toShare share = some share → m.available people now share = true →
        share ∈ m.listReceived ⟨s.keys, s.rows⟩ people callerId now) := by
  have kempt := Kempt.run boot hr
  have present : ∀ {p : SecretShare → Bool} {id : Nat},
      (∃ share, s.rows (.share id) = .share share ∧ p share = true) →
      counted first.rows s.log p id := by
    intro p id hex
    obtain ⟨share, hrow, hp⟩ := hex
    unfold counted
    rw [kempt.ledger.current id share hrow]
    exact hp
  have received : ∀ recipientId, AtMost 20 fun id => ∃ share, s.rows (.share id) = .share share ∧
      pendingTo s.env.now recipientId share = true := by
    intro recipientId
    exact (kempt.quotas.recipient recipientId _ (Nat.le_refl _)).mono fun _ => present
  refine ⟨?_, received, ?_, ?_⟩
  · intro senderId
    exact (kempt.quotas.sender senderId _ (Nat.le_refl _)).mono fun _ => present
  · intro senderId last
    refine (kempt.quotas.day senderId last).mono ?_
    intro id hex
    obtain ⟨share, hrec, hp⟩ := hex
    unfold counted
    rw [hrec]
    exact hp
  · intro callerId now people steady id share hrow pending shape available
    refine mem_listReceived ?_ ?_ hrow pending shape available
    · apply length_receivedRows_le
      refine (received callerId).mono ?_
      intro other hex
      obtain ⟨row, hother, hp⟩ := hex
      have hlater := steady other row hother hp
      refine ⟨row, hother, ?_⟩
      simp only [pendingTo, openAt, Bool.and_eq_true, decide_eq_true_eq] at hp ⊢
      exact ⟨⟨hp.1.1, hlater⟩, hp.2⟩
    · refine Classical.byContradiction fun hno => ?_
      have hblank := (kempt.sound.fresh _ hno).1
      rw [hrow] at hblank
      cases hblank

end Runs

/-! ## An erased day and a slow listing -/

/-- The share of an id as it was last committed, also where it was erased. -/
def everCreated {τ : Type} (first : RowKey → Record) : List (ShareCommit τ) → Nat → Option SecretShare
  | [], id => (first (.share id)).share?
  | commit :: earlier, id =>
      ((commit.after (.share id)).share?).or (everCreated first earlier id)

/-- A database at the time `now`: three members and these shares. -/
def seeded (shares : List SecretShare) (now : Nat) : ShareSystem Nat where
  rows := fun key =>
    match key with
    | .user id => if id ∈ [1, 2, 3] then .person ⟨false, some "member", 0, none⟩ else .unused
    | .share id => (shares[id]?).elim .unused .share
    | .directory => .unused
  keys := [.user 1, .user 2, .user 3] ++ (List.range shares.length).map fun id : Nat => .share id
  holder := fun _ => none
  draft := fun _ _ => none
  phase := fun _ => none
  env := ⟨now, sampleId, "nonce"⟩
  log := []
  replies := []

/-- A share of member 1 that its recipient has read. -/
def readShare (recipientId : Nat) : SecretShare where
  documentId := sampleId
  senderId := 1
  recipientId := recipientId
  expiresAt := 3600000
  state := .retrieved
  terminalAt := some 0
  envelope := none
  createdAt := 0
  updatedAt := 0

/-- Member 1 has created a hundred shares today, one of them for member 2. -/
def dayBoot : ShareSystem Nat := seeded (readShare 2 :: List.replicate 99 (readShare 3)) 1000

/-- Member 2 is erased, and member 1 shares a text with member 3. -/
def dayLabels : List (TxnLabel Nat RowKey ShareEnv ShareCall) :=
  [.begin 0 (.deleteSharesOf 2 2)] ++ List.replicate 4 (.run 0 .directory) ++ [.commit 0] ++
  [.begin 1 (.create (sampleCaller 1) ⟨3, "secret", .oneHour⟩)] ++
  List.replicate 13 (.run 1 (.share 100)) ++ [.commit 1]

/-- A pending share of member 1 for member 2. -/
def openShare (createdAt expiresAt : Nat) : SecretShare where
  documentId := sampleId
  senderId := 1
  recipientId := 2
  expiresAt := expiresAt
  state := .pending
  terminalAt := none
  envelope := some "secret"
  createdAt := createdAt
  updatedAt := createdAt

/-- Twenty shares wait for member 2; one of them expires before the oldest. -/
def slowBoot : ShareSystem Nat :=
  seeded (openShare 0 80000000 :: openShare 1 1001 :: List.replicate 18 (openShare 2 80000000)) 1000

/-- It expires, and member 1 shares another text with member 2. -/
def slowLabels : List (TxnLabel Nat RowKey ShareEnv ShareCall) :=
  [.move ⟨1001, sampleId, "nonce"⟩,
    .begin 0 (.create (sampleCaller 1) ⟨2, "secret", .oneHour⟩)] ++
  List.replicate 13 (.run 0 (.share 20)) ++ [.commit 0]

theorem seeded_started (shares : List SecretShare) (now : Nat) :
    (seeded shares now).Started .unused := by
  refine ⟨?_, fun _ => rfl, fun _ _ => rfl, fun _ => rfl, rfl, rfl⟩
  intro k hk
  simp only [seeded, List.mem_append, List.mem_map, List.mem_range, not_or, not_exists,
    not_and] at hk
  cases k with
  | directory => rfl
  | user id =>
      refine if_neg fun hid => hk.1 ?_
      simpa using hid
  | share id =>
      have hlen : shares.length ≤ id := by
        refine Nat.le_of_not_lt fun hlt => ?_
        exact hk.2 id hlt rfl
      show (shares[id]?).elim Record.unused Record.share = .unused
      rw [List.getElem?_eq_none hlen]
      rfl

variable {shares : List SecretShare} {now : Nat}

/-- What is counted of the shares a database starts with. -/
theorem seeded_counted {id : Nat} {p : SecretShare → Bool}
    (h : counted (seeded shares now).rows (seeded shares now).log p id) :
    ∃ share, shares[id]? = some share ∧ p share = true := by
  obtain ⟨share, hshare, hp⟩ := (Option.any_eq_true _ _).mp h
  refine ⟨share, ?_, hp⟩
  change ((shares[id]?).elim Record.unused Record.share).share? = some share at hshare
  cases hid : shares[id]? with
  | none =>
      rw [hid] at hshare
      cases hshare
  | some row =>
      rw [hid] at hshare
      exact hshare

/-- At most as many ids count as there are shares that do. -/
theorem seeded_atMost {p : SecretShare → Bool}
    (h : (∃ share ∈ shares, p share = true) → shares.length ≤ n) :
    AtMost n (counted (seeded shares now).rows (seeded shares now).log p) := by
  by_cases hany : ∃ share ∈ shares, p share = true
  · refine ⟨List.range shares.length, by rw [List.length_range]; exact h hany, ?_⟩
    intro id hc
    obtain ⟨share, hid, _⟩ := seeded_counted hc
    exact List.mem_range.mpr (List.getElem?_eq_some_iff.mp hid).1
  · refine ⟨[], Nat.zero_le _, ?_⟩
    intro id hc
    obtain ⟨share, hid, hp⟩ := seeded_counted hc
    exact absurd ⟨share, List.mem_of_getElem? hid, hp⟩ hany

theorem seeded_boot (times : ∀ share ∈ shares, share.createdAt ≤ now ∧
      ∀ ms, share.terminalAt = some ms → share.createdAt ≤ ms)
    (pending : (∃ share ∈ shares, share.state = .pending) → shares.length ≤ 20)
    (few : shares.length ≤ 100) : SeededBoot (seeded shares now) := by
  have opened : ∀ {p : SecretShare → Bool}, (∀ share, p share = true → share.state = .pending) →
      AtMost 20 (counted (seeded shares now).rows (seeded shares now).log p) := by
    intro p hp
    apply seeded_atMost
    intro hany
    obtain ⟨share, hmem, hyes⟩ := hany
    exact pending ⟨share, hmem, hp share hyes⟩
  refine ⟨seeded_started shares now, ?_, ?_, ?_, ?_⟩
  · intro id share hrow
    change (shares[id]?).elim Record.unused Record.share = .share share at hrow
    cases hid : shares[id]? with
    | none =>
        rw [hid] at hrow
        cases hrow
    | some row =>
        rw [hid] at hrow
        cases hrow
        exact times share (List.mem_of_getElem? hid)
  · intro senderId now' _
    apply opened
    intro share hp
    simp only [pendingFrom, openAt, Bool.and_eq_true, decide_eq_true_eq] at hp
    exact hp.1.1
  · intro recipientId now' _
    apply opened
    intro share hp
    simp only [pendingTo, openAt, Bool.and_eq_true, decide_eq_true_eq] at hp
    exact hp.1.1
  · intro senderId last
    exact seeded_atMost fun _ => few

/-- One step, if it does not take the clock back. -/
def nextForward (s : ShareSystem Nat) (label : TxnLabel Nat RowKey ShareEnv ShareCall) :
    Option (ShareSystem Nat) :=
  (s.next sampleModule.program label).filter fun s' => decide (s.env.now ≤ s'.env.now)

variable {s : ShareSystem Nat} {labels : List (TxnLabel Nat RowKey ShareEnv ShareCall)}

theorem forward_of_follow {s' : ShareSystem Nat} (h : Runs.follow nextForward s labels = some s') :
    Runs.Run (ForwardStep sampleModule) s labels s' := by
  refine (Runs.run_of_follow h).restrict (ForwardStep sampleModule) ?_
  intro label _ a b hs
  obtain ⟨hnext, hclock⟩ := Option.filter_eq_some_iff.mp hs
  exact ⟨hnext, of_decide_eq_true hclock⟩

def runTo (s : ShareSystem Nat) (labels : List (TxnLabel Nat RowKey ShareEnv ShareCall)) :
    ShareSystem Nat :=
  (Runs.follow nextForward s labels).getD s

/-- A run that goes through, and what was looked at in its last state. -/
theorem run_runTo {check : ShareSystem Nat → Bool}
    (h : (Runs.follow nextForward s labels).any check = true) :
    Runs.Run (ForwardStep sampleModule) s labels (runTo s labels) ∧
      check (runTo s labels) = true := by
  cases hs : Runs.follow nextForward s labels with
  | none =>
      rw [hs] at h
      cases h
  | some s' =>
      have hsame : runTo s labels = s' := by
        unfold runTo
        rw [hs]
        rfl
      rw [hs] at h
      rw [hsame]
      exact ⟨forward_of_follow hs, h⟩

def dayEnd : ShareSystem Nat := runTo dayBoot dayLabels

def slowEnd : ShareSystem Nat := runTo slowBoot slowLabels

theorem dayBoot_seeded : SeededBoot dayBoot := by
  apply seeded_boot
  · decide
  · decide
  · decide

theorem slowBoot_seeded : SeededBoot slowBoot := by
  apply seeded_boot
  · decide
  · decide
  · decide

/-- All hundred and one ids were created by member 1 within a day, a hundred are
on record. -/
def dayChecks (s : ShareSystem Nat) : Bool :=
  (List.range 101).all (fun id =>
    (everCreated dayBoot.rows s.log id).any (createdWithin 1000 1)) &&
  (onRecord dayBoot.rows s.log 100).isSome

/-- The pending share that the listing does not have. -/
def slowChecks (s : ShareSystem Nat) : Bool :=
  decide (s.rows (.share 0) = .share (openShare 0 80000000)) &&
  pendingTo s.env.now 2 (openShare 0 80000000) &&
  sampleModule.available ⟨s.keys, s.rows⟩ s.env.now (openShare 0 80000000) &&
  decide (openShare 0 80000000 ∉ sampleModule.listReceived ⟨s.keys, s.rows⟩ ⟨s.keys, s.rows⟩ 2
    slowBoot.env.now)

set_option maxRecDepth 20000 in
theorem dayEnd_run : Runs.Run (ForwardStep sampleModule) dayBoot dayLabels dayEnd ∧
    dayChecks dayEnd = true :=
  run_runTo (by decide +kernel)

set_option maxRecDepth 20000 in
theorem slowEnd_run : Runs.Run (ForwardStep sampleModule) slowBoot slowLabels slowEnd ∧
    slowChecks slowEnd = true :=
  run_runTo (by decide +kernel)

theorem not_atMost_hundred (h : ∀ id ∈ List.range 101, p id) : ¬ AtMost 100 p := by
  intro hmost
  obtain ⟨ids, hlen, hall⟩ := hmost
  have hsub : List.range 101 ⊆ ids := fun id hid => hall id (h id hid)
  have hle := (List.subperm_of_subset List.nodup_range hsub).length_le
  rw [List.length_range] at hle
  omega

/-- Once shares were erased, their sender creates more than a hundred in a day;
and a listing hides the oldest of the pending shares where one expired and
another was created between its reading of the clock and its query. -/
theorem secret_share_quotas_exceeded :
    (SeededBoot dayBoot ∧ Runs.Run (ForwardStep sampleModule) dayBoot dayLabels dayEnd ∧
      ¬ AtMost 100 fun id =>
        (everCreated dayBoot.rows dayEnd.log id).any (createdWithin 1000 1) = true) ∧
    (SeededBoot slowBoot ∧ Runs.Run (ForwardStep sampleModule) slowBoot slowLabels slowEnd ∧
      slowEnd.rows (.share 0) = .share (openShare 0 80000000) ∧
      pendingTo slowEnd.env.now 2 (openShare 0 80000000) = true ∧
      sampleModule.available ⟨slowEnd.keys, slowEnd.rows⟩ slowEnd.env.now
        (openShare 0 80000000) = true ∧
      openShare 0 80000000 ∉ sampleModule.listReceived ⟨slowEnd.keys, slowEnd.rows⟩
        ⟨slowEnd.keys, slowEnd.rows⟩ 2 slowBoot.env.now) := by
  have created := dayEnd_run.2
  have hidden := slowEnd_run.2
  simp only [dayChecks, Bool.and_eq_true, List.all_eq_true] at created
  simp only [slowChecks, Bool.and_eq_true, decide_eq_true_eq] at hidden
  exact ⟨⟨dayBoot_seeded, dayEnd_run.1, not_atMost_hundred created.1⟩,
    ⟨slowBoot_seeded, slowEnd_run.1, hidden.1.1.1, hidden.1.1.2, hidden.1.2, hidden.2⟩⟩

/-- The run that erases a share, seen by the theorem: a hundred are on record. -/
theorem secret_share_quotas_day :
    (onRecord dayBoot.rows dayEnd.log 100).isSome = true ∧
    AtMost 20 (fun id => ∃ share, dayEnd.rows (.share id) = .share share ∧
      pendingFrom dayEnd.env.now 1 share = true) ∧
    AtMost 100 (fun id => ∃ share, onRecord dayBoot.rows dayEnd.log id = some share ∧
      createdWithin 1000 1 share = true) := by
  have all := secret_share_quotas sampleModule dayBoot dayEnd dayLabels dayBoot_seeded
    dayEnd_run.1
  have recorded := dayEnd_run.2
  simp only [dayChecks, Bool.and_eq_true] at recorded
  exact ⟨recorded.2, all.1 1, all.2.2.1 1 1000⟩

end Sinnlos.Cms

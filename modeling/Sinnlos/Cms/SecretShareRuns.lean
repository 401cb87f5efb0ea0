import Mathlib.Data.List.Pairwise
import Sinnlos.Cms.SecretShares
import Sinnlos.Lib.TransactionLog

/-! # Secret shares are read at most once

What each transaction on the shares ensures, and what follows for every
interleaving of them: a share leaves the pending state at most once, a text is
returned for a share that its own transaction retrieved, and an ended share
holds no envelope.
-/

namespace Sinnlos.Cms

open Txn Knowledge

/-! ## How a share may move -/

/-- An ended share has no envelope and the time it ended. -/
def SecretShare.Settled (share : SecretShare) : Prop :=
  share.state ≠ .pending → share.envelope = none ∧ share.terminalAt.isSome = true

/-- From pending to an end, with nothing else changed. -/
def SecretShare.Ends (a b : SecretShare) : Prop :=
  a.state = .pending ∧ ∃ target now, target ≠ SecretShareState.pending ∧ b = a.ended target now

def Record.Moves : Record → Record → Prop
  | _, .deleted => True
  | .unused, .unused => True
  | .unused, .person _ => True
  | .unused, .share row => row.Settled
  | .person _, .person _ => True
  | .share a, .share b => a = b ∨ a.Ends b
  | _, _ => False

theorem SecretShare.settled_of_pending {share : SecretShare} (h : share.state = .pending) :
    share.Settled := fun hne => absurd h hne

theorem SecretShare.settled_ended (share : SecretShare) (target : SecretShareState) (now : Nat) :
    (share.ended target now).Settled := fun _ => ⟨rfl, rfl⟩

variable {a b : SecretShare}

theorem SecretShare.Ends.settled (h : a.Ends b) : b.Settled := by
  obtain ⟨_, target, now, _, rfl⟩ := h
  exact a.settled_ended target now

/-- Where a share ended, it was pending and is not any more. -/
theorem SecretShare.Ends.left (h : a.Ends b) : a.state = .pending ∧ b.state ≠ .pending := by
  obtain ⟨hp, target, now, ht, rfl⟩ := h
  exact ⟨hp, ht⟩

theorem Record.moves_refl (record : Record) : record.Moves record := by
  cases record with
  | unused => trivial
  | deleted => trivial
  | person row => trivial
  | share row => exact Or.inl rfl

theorem Record.moves_trans (a b c : Record) (h₁ : a.Moves b) (h₂ : b.Moves c) : a.Moves c := by
  cases c with
  | deleted => cases a <;> trivial
  | unused =>
      cases b with
      | unused => exact h₁
      | _ => exact h₂.elim
  | person row =>
      cases b with
      | unused =>
          cases a with
          | unused => trivial
          | _ => exact h₁.elim
      | person _ =>
          cases a with
          | unused => trivial
          | person _ => trivial
          | _ => exact h₁.elim
      | _ => exact h₂.elim
  | share row =>
      cases b with
      | unused =>
          cases a with
          | unused => exact h₂
          | _ => exact h₁.elim
      | share mid =>
          cases a with
          | unused =>
              rcases h₂ with rfl | hend
              · exact h₁
              · exact hend.settled
          | share first =>
              rcases h₁ with rfl | hfirst
              · exact h₂
              · rcases h₂ with rfl | hend
                · exact Or.inr hfirst
                · exact absurd hend.left.1 hfirst.left.2
          | _ => exact h₁.elim
      | _ => exact h₂.elim

def shareGuarantee : Guarantee Record where
  blank := .unused
  moves := Record.Moves
  refl := Record.moves_refl
  trans := Record.moves_trans

/-- A share that was seen and is still pending has not changed. -/
theorem Record.Moves.still_pending (h : Record.Moves (.share a) (.share b))
    (hb : b.state = .pending) : b = a := by
  rcases h with rfl | hend
  · rfl
  · exact absurd hb hend.left.2

/-! ## The statements that change nothing -/

theorem loadPerson_quiet (id : Nat) : (loadPerson id).Quiet := fun _ => trivial

theorem lockShareRow_quiet (id : Nat) : (lockShareRow id).Quiet := fun _ => trivial

theorem quota_quiet (limit : Nat) (p : SecretShare → Bool) : (quota limit p).Quiet := by
  intro view
  show Quiet (ite _ _ _)
  split <;> trivial

theorem lockUserRows_quiet (ids : List Nat) : (lockUserRows ids).Quiet := by
  induction ids with
  | nil => trivial
  | cons id ids ih => exact Quiet.bind (fun _ => trivial) fun _ => ih

theorem lockPeople_quiet (ids : List Nat) : (lockPeople ids).Quiet :=
  Quiet.bind (fun _ => trivial) fun _ => lockUserRows_quiet _

theorem assertFreshCaller_quiet (m : SecretModule) (caller : SecretCaller) :
    (m.assertFreshCaller caller).Quiet := by
  refine Quiet.bind (loadPerson_quiet _) fun row => ?_
  split
  · split
    · trivial
    · split
      · trivial
      · trivial
      · split <;> trivial
  · trivial

/-! ## The statements that read and end shares -/

section Statements
variable {α : Type} {Q : α → Knowledge RowKey Record → Prop} {l : Knowledge RowKey Record}
  {id : Nat} {share : SecretShare} {documentId : String}

theorem shareAt_eq_some {key : RowKey} {record : Record}
    (h : shareAt key record = some (id, share)) : key = .share id ∧ record = .share share := by
  unfold shareAt at h
  split at h
  · cases h
    exact ⟨rfl, rfl⟩
  · cases h

/-- A share that was found is in the rows, under the documentId asked for. -/
theorem find_share_spec {view : ShareView}
    (h : (view.find? fun key record =>
      (shareAt key record).filter fun row => row.2.documentId = documentId) = some (id, share)) :
    view.row (.share id) = .share share ∧ share.documentId = documentId := by
  obtain ⟨key, _, hkey⟩ := List.exists_of_findSome?_eq_some h
  obtain ⟨hat, hdoc⟩ := Option.filter_eq_some_iff.mp hkey
  obtain ⟨rfl, hrow⟩ := shareAt_eq_some hat
  exact ⟨hrow, by simpa using hdoc⟩

theorem ensures_findShare {f : Option (Nat × SecretShare) → ShareTxn α}
    (missing : ∀ l', l.Later shareGuarantee l' → (f none).Ensures shareGuarantee Q l')
    (found : ∀ l' id share, l.Later shareGuarantee l' → l'.current (.share id) = .share share →
      share.documentId = documentId → (f (some (id, share))).Ensures shareGuarantee Q l') :
    (findShare documentId >>= f).Ensures shareGuarantee Q l := by
  refine Ensures.bind (ensures_select ?_)
  intro l' hl keys m hm
  cases hfind : (View.find? ⟨keys, l'.current⟩ fun key record =>
      (shareAt key record).filter fun row => row.2.documentId = documentId) with
  | none => exact (missing l' hl).later hm
  | some row =>
      obtain ⟨id, share⟩ := row
      obtain ⟨hrow, hdoc⟩ := find_share_spec hfind
      simp only [Option.bind_some]
      unfold toShare
      split
      · exact (found l' id share hl hrow hdoc).later hm
      · exact (missing l' hl).later hm

/-- The terminal write ends the row it finds, as it is committed, or fails. -/
theorem ensures_endShare {now : Nat} {target : SecretShareState} {f : Unit → ShareTxn α}
    (untouched : l.changes (.share id) = none) (final : target ≠ .pending)
    (h : ∀ l' share, l.Onward shareGuarantee l' → l'.rows (.share id) = .share share →
      endable target share = true → (f ()).Ensures shareGuarantee Q
        (l'.put (.share id) (.share (share.ended target now)))) :
    (endShare id target now >>= f).Ensures shareGuarantee Q l := by
  refine Ensures.bind (ensures_updateWhere ?_ ?_)
  · intro l' hl hfound
    have hcur : l'.current (.share id) = l'.rows (.share id) := by
      apply current_of_none
      rw [hl.changes]
      exact untouched
    rw [hcur] at hfound ⊢
    cases hrow : l'.rows (.share id) with
    | share share =>
        rw [hrow] at hfound
        have hend : endable target share = true := by
          simpa [Record.shareWhere, Record.share?] using hfound
        have hpending : share.state = .pending := by
          unfold endable at hend
          simp only [Bool.and_eq_true, decide_eq_true_eq] at hend
          exact hend.1
        refine ⟨Or.inr ⟨hpending, target, now, final, rfl⟩, ?_⟩
        intro m hm
        exact (h l' share hl.onward hrow hend).later hm
    | _ =>
        rw [hrow] at hfound
        simp [Record.shareWhere, Record.share?] at hfound
  · intro l' _ _
    trivial

/-- Deleting rows needs nothing of them. -/
theorem deleteRows_ensures (ids : List Nat) (l : Knowledge RowKey Record) :
    (deleteRows ids).Ensures shareGuarantee (fun _ _ => True) l := by
  induction ids generalizing l with
  | nil => exact fun _ _ => trivial
  | cons id ids ih =>
      refine ensures_updateWhere ?_ ?_
      · intro l' _ _
        refine ⟨?_, ih _⟩
        cases hrow : l'.rows (.share id) <;> trivial
      · intro l' _ _
        exact ih l'

end Statements

/-! ## What each call ensures -/

/-- The changes retrieve share `id`, whose plaintext is `plain`, for its recipient. -/
structure Retrieves (m : SecretModule) (caller : SecretCaller) (documentId plain : String)
    (before : RowKey → Record) (changes : RowKey → Option Record) (id : Nat) : Prop where
  /-- The share was pending, addressed to the caller, and its envelope opens to the text. -/
  opens : ∃ share key envelope, before (.share id) = .share share ∧ share.state = .pending ∧
    share.documentId = documentId ∧ share.recipientId = caller.userId ∧
    m.shareKey = some key ∧ share.envelope = some envelope ∧
    m.openEnvelope key envelope share.binding = some plain
  /-- It is retrieved now. -/
  ends : ∃ share, changes (.share id) = some (.share share) ∧ share.state = .retrieved

/-- A text is a reveal's, of a share its transaction retrieved. -/
def SecretModule.post (m : SecretModule) : Database.Post RowKey Record ShareResult ShareCall :=
  fun call result before changes => ∀ plain, result = .text plain →
    ∃ caller documentId id, call = .reveal caller documentId ∧
      Retrieves m caller documentId plain before changes id

section Calls
variable (m : SecretModule) {l : Knowledge RowKey Record} {call : ShareCall}

/-- The post of every result but a text. -/
theorem post_of_ne {result : ShareResult} (h : ∀ plain, result ≠ .text plain)
    (l : Knowledge RowKey Record) : m.post.holds call result l := by
  intro plain hr
  exact absurd hr (h plain)

theorem createShare_ensures (caller : SecretCaller) (input : CreateInput) :
    (m.createShare caller input).Ensures shareGuarantee
      (m.post.holds (.create caller input)) l := by
  unfold SecretModule.createShare
  split
  · trivial
  · refine ensures_quiet (lockPeople_quiet _) fun _ l₁ _ => ?_
    refine ensures_quiet (assertFreshCaller_quiet m caller) fun sender l₂ _ => ?_
    split
    · trivial
    · refine ensures_quiet (loadPerson_quiet _) fun recipient l₃ _ => ?_
      split
      · trivial
      · refine ensures_ask fun asked => ?_
        refine ensures_quiet (quota_quiet _ _) fun _ l₄ _ => ?_
        refine ensures_quiet (quota_quiet _ _) fun _ l₅ _ => ?_
        refine ensures_quiet (quota_quiet _ _) fun _ l₆ _ => ?_
        refine ensures_ask fun env => ?_
        refine ensures_insert fun l₇ _ created _ hblank _ => ⟨?_, ?_⟩
        · exact SecretShare.settled_of_pending rfl
        · split
          · trivial
          · refine ensures_updateWhere ?_ ?_
            · intro l₈ hl _
              have held := put_held_self l₇ created 
                (.share (newShare asked.now env caller.userId input))
              have hrow : l₈.rows created = .unused := by
                rw [hl.kept created held, put_rows]
                exact hblank
              have hcur := hl.current_eq held
              rw [put_current_self] at hcur
              rw [hrow, hcur]
              refine ⟨SecretShare.settled_of_pending rfl, ?_⟩
              intro l₉ _
              exact post_of_ne m (fun plain => ShareResult.noConfusion) l₉
            · intro l₈ _ _
              trivial

variable {target : SecretShareState}

/-- A share read while it was untouched is the one the terminal write ends. -/
theorem seen_share_ends {l₁ l₂ : Knowledge RowKey Record} {id : Nat} {share row : SecretShare}
    (untouched : l₁.changes (.share id) = none) (seen : l₁.current (.share id) = .share share)
    (onward : l₁.Onward shareGuarantee l₂) (hrow : l₂.rows (.share id) = .share row)
    (hend : endable target row = true) : row = share := by
  have hmoved : Record.Moves (l₁.rows (.share id)) (l₂.rows (.share id)) := onward.moved _
  rw [← current_of_none untouched, seen, hrow] at hmoved
  apply hmoved.still_pending
  simp only [endable, Bool.and_eq_true, decide_eq_true_eq] at hend
  exact hend.1

theorem revealShare_ensures (caller : SecretCaller) (documentId : String)
    (start : l.changes = fun _ => none) :
    (m.revealShare caller documentId).Ensures shareGuarantee
      (m.post.holds (.reveal caller documentId)) l := by
  unfold SecretModule.revealShare
  split
  · trivial
  split
  · trivial
  rename_i key hkey
  refine ensures_findShare (fun _ _ => trivial) fun l₁ seenId seen h₁ _ _ => ?_
  show Ensures _ (ite _ _ _) _ _
  split
  · trivial
  refine ensures_quiet (lockPeople_quiet _) fun _ l₂ h₂ => ?_
  refine ensures_quiet (assertFreshCaller_quiet m caller) fun person l₃ h₃ => ?_
  split
  · trivial
  refine ensures_quiet (lockShareRow_quiet _) fun _ l₄ h₄ => ?_
  refine ensures_findShare (fun _ _ => trivial) fun l₅ id share h₅ hseen hdoc => ?_
  show Ensures _ (ite _ _ _) _ _
  have untouched : ∀ key, l₅.changes key = none := by
    intro key
    rw [h₅.changes, h₄.changes, h₃.changes, h₂.changes, h₁.changes, start]
  split
  · trivial
  rename_i hrecipient
  refine ensures_quiet (loadPerson_quiet _) fun sender l₆ h₆ => ?_
  split
  · trivial
  refine ensures_ask fun env => ?_
  split
  · trivial
  rename_i envelope henv
  split
  · trivial
  split
  · trivial
  have untouched₆ : l₆.changes (.share id) = none := by
    rw [h₆.changes]
    exact untouched _
  split
  · refine ensures_endShare untouched₆ (by decide) fun l₇ row _ _ _ => ?_
    intro l₈ _
    exact post_of_ne m (fun plain => ShareResult.noConfusion) l₈
  · rename_i plain hopen
    refine ensures_endShare untouched₆ (by decide) fun l₇ row h₇ hrow hend => ?_
    intro l₈ h₈ plain' hplain
    cases hplain
    have hsame : row = share :=
      seen_share_ends (untouched _) hseen (h₆.trans h₇) hrow hend
    subst hsame
    refine ⟨caller, documentId, id, rfl, ?_, ?_⟩
    · have hbefore : l₈.rows (.share id) = .share row := by
        rw [h₈.kept _ (put_held_self _ _ _), put_rows]
        exact hrow
      simp only [endable, Bool.and_eq_true, decide_eq_true_eq] at hend
      exact ⟨row, key, envelope, hbefore, hend.1, hdoc, not_not.mp hrecipient, hkey, henv, hopen⟩
    · refine ⟨row.ended .retrieved env.now, ?_, rfl⟩
      rw [h₈.changes, put_changes_self]

theorem revokeShare_ensures (caller : SecretCaller) (documentId : String)
    (start : l.changes = fun _ => none) :
    (m.revokeShare caller documentId).Ensures shareGuarantee
      (m.post.holds (.revoke caller documentId)) l := by
  unfold SecretModule.revokeShare
  split
  · trivial
  refine ensures_findShare (fun _ _ => trivial) fun l₁ seenId seen h₁ _ _ => ?_
  show Ensures _ (ite _ _ _) _ _
  split
  · trivial
  refine ensures_quiet (lockPeople_quiet _) fun _ l₂ h₂ => ?_
  refine ensures_quiet (assertFreshCaller_quiet m caller) fun person l₃ h₃ => ?_
  refine ensures_quiet (lockShareRow_quiet _) fun _ l₄ h₄ => ?_
  refine ensures_findShare (fun _ _ => trivial) fun l₅ id share h₅ _ _ => ?_
  show Ensures _ (ite _ _ _) _ _
  split
  · trivial
  split
  · trivial
  refine ensures_ask fun env => ?_
  have untouched : l₅.changes (.share id) = none := by
    rw [h₅.changes, h₄.changes, h₃.changes, h₂.changes, h₁.changes, start]
  refine ensures_endShare untouched (by decide) fun l₆ row _ _ _ => ?_
  intro l₇ _
  exact post_of_ne m (fun plain => ShareResult.noConfusion) l₇

theorem endEach_ensures (pick : ShareView → Nat → Option Nat) (final : target ≠ .pending)
    (due : ShareView → SecretShare → Nat → Bool) (start : l.changes = fun _ => none) :
    (endEach pick target due).Ensures shareGuarantee (m.post.holds call) l := by
  unfold endEach
  refine ensures_ask fun first => ?_
  refine ensures_select fun l₁ h₁ keys => ?_
  split
  · intro l₂ _
    exact post_of_ne m (fun plain => ShareResult.noConfusion) l₂
  rename_i id _
  refine ensures_quiet (lockShareRow_quiet _) fun _ l₂ h₂ => ?_
  refine ensures_select fun l₃ h₃ keys => ?_
  refine ensures_ask fun env => ?_
  refine ensures_select fun l₄ h₄ people => ?_
  split
  · intro l₅ _
    exact post_of_ne m (fun plain => ShareResult.noConfusion) l₅
  · split
    · have untouched : l₄.changes (.share id) = none := by
        rw [h₄.changes, h₃.changes, h₂.changes, h₁.changes, start]
      refine ensures_endShare untouched final fun l₅ row _ _ _ => ?_
      intro l₆ _
      exact post_of_ne m (fun plain => ShareResult.noConfusion) l₆
    · intro l₅ _
      exact post_of_ne m (fun plain => ShareResult.noConfusion) l₅

theorem deleteShares_ensures (wanted : Nat → SecretShare → Bool) (pages deleted : Nat) :
    (deleteShares wanted pages deleted).Ensures shareGuarantee (m.post.holds call) l := by
  induction pages generalizing deleted l with
  | zero => trivial
  | succ pages ih =>
      unfold deleteShares
      refine ensures_select fun l₁ _ keys => ?_
      show Ensures _ (ite _ _ _) _ _
      split
      · intro l₂ _
        exact post_of_ne m (fun plain => ShareResult.noConfusion) l₂
      · refine Ensures.bind ((deleteRows_ensures _ l₁).mono fun _ l₂ _ => ?_)
        exact ih _

theorem deleteConfirmed_ensures (due : ShareView → SecretShare → Nat → Bool) (pages : Nat) :
    (deleteConfirmed due pages).Ensures shareGuarantee (m.post.holds call) l := by
  unfold deleteConfirmed
  refine ensures_ask fun env => ?_
  refine ensures_select fun l₁ _ keys => ?_
  show Ensures _ (ite _ _ _) _ _
  split
  · intro l₂ _
    exact post_of_ne m (fun plain => ShareResult.noConfusion) l₂
  · exact deleteShares_ensures m _ _ _

theorem writePerson_ensures (id : Nat) (row : Option Person) (start : l.changes = fun _ => none) :
    (writePerson id row).Ensures shareGuarantee (m.post.holds (.writePerson id row)) l := by
  unfold writePerson
  refine ensures_updateWhere ?_ ?_
  · intro l₁ h₁ hfound
    have hcur : l₁.current (.user id) = l₁.rows (.user id) := by
      apply current_of_none
      rw [h₁.changes, start]
    rw [hcur] at hfound
    refine ⟨?_, ?_⟩
    · show Record.Moves (l₁.rows (.user id)) _
      cases hrow : l₁.rows (.user id) with
      | unused | person _ => cases row <;> trivial
      | _ =>
          rw [hrow] at hfound
          cases hfound
    · intro l₂ _
      exact post_of_ne m (fun plain => ShareResult.noConfusion) l₂
  · intro l₁ _ _ l₂ _
    exact post_of_ne m (fun plain => ShareResult.noConfusion) l₂

/-- Every call keeps the guarantee and its post, whatever the others do. -/
theorem program_ensures (call : ShareCall) (rows : RowKey → Record) (held : RowKey → Prop) :
    (m.program call).Ensures shareGuarantee (m.post.holds call) ⟨rows, held, fun _ => none⟩ := by
  have expired : SecretShareState.expired ≠ .pending := by decide
  have cancelled : SecretShareState.cancelled ≠ .pending := by decide
  cases call <;> simp only [SecretModule.program]
  case create caller input => exact createShare_ensures m caller input
  case reveal caller documentId => exact revealShare_ensures m caller documentId rfl
  case revoke caller documentId => exact revokeShare_ensures m caller documentId rfl
  case janitorExpired n => exact endEach_ensures m _ expired _ rfl
  case janitorCancelled n => exact endEach_ensures m _ cancelled _ rfl
  case janitorOrphans pages => exact deleteConfirmed_ensures m _ pages
  case janitorRetention pages => exact deleteConfirmed_ensures m _ pages
  case deleteSharesOf userId pages => exact deleteShares_ensures m _ pages 0
  case writePerson id row => exact writePerson_ensures m id row rfl

end Calls

/-! ## Every interleaving -/

section Runs
variable {τ : Type}

/-- The cms and its database; `τ` names the transactions. -/
abbrev ShareSystem (τ : Type) : Type :=
  Database τ RowKey Record ShareEnv Refusal ShareResult ShareCall

abbrev ShareCommit (τ : Type) : Type := Commit τ RowKey Record ShareResult ShareCall

/-- No call has been made, and no share created. -/
def FirstBoot (s : ShareSystem τ) : Prop :=
  s.Started .unused ∧ ∀ id, s.rows (.share id) = .unused

abbrev ShareStep [DecidableEq τ] (m : SecretModule) : ShareSystem τ → TxnLabel τ RowKey ShareEnv ShareCall →
    ShareSystem τ → Prop :=
  Database.Step m.program

/-- A commit of `t` retrieved share `id`, whose plaintext is `plain`. -/
def Retrieved (m : SecretModule) (s : ShareSystem τ) (t : τ) (caller : SecretCaller)
    (documentId plain : String) (id : Nat) : Prop :=
  ∃ commit ∈ s.log, commit.writer = t ∧ commit.call = .reveal caller documentId ∧
    Retrieves m caller documentId plain commit.before commit.changes id

def Record.pending (record : Record) : Bool :=
  record.shareWhere fun share => decide (share.state = .pending)

/-- The commit moves the share out of the pending state, or deletes it there. -/
def leavesPending (id : Nat) (commit : ShareCommit τ) : Bool :=
  (commit.before (.share id)).pending && !(commit.after (.share id)).pending

/-- A share that ended, or whose row is gone. -/
def Record.Left : Record → Prop
  | .share row => row.state ≠ .pending
  | .deleted => True
  | _ => False

variable {a : Record} {m : SecretModule} {s : ShareSystem τ}

theorem Record.Moves.left {b : Record} (h : a.Moves b) (ha : a.Left) : b.Left := by
  cases b with
  | deleted => trivial
  | share row =>
      cases a with
      | share first =>
          rcases h with rfl | hend
          · exact ha
          · exact hend.left.2
      | deleted => exact h.elim
      | _ => exact ha.elim
  | _ =>
      cases a with
      | share _ => exact h.elim
      | deleted => exact h.elim
      | _ => exact ha.elim

theorem Record.Left.not_pending (h : a.Left) : a.pending = false := by
  cases a with
  | share row => simpa [Record.pending, Record.shareWhere, Record.share?, Record.Left] using h
  | deleted => rfl
  | _ => exact h.elim

/-- What was pending and is not has left for good. -/
theorem Record.Moves.leaves {b : Record} (h : a.Moves b) (ha : a.pending = true)
    (hb : b.pending = false) : b.Left := by
  cases a with
  | share first =>
      cases b with
      | share row => simpa [Record.pending, Record.shareWhere, Record.share?, Record.Left] using hb
      | deleted => trivial
      | _ => exact h.elim
  | _ => cases ha

variable {id : Nat}

theorem Retrieves.leaves {caller : SecretCaller} {documentId plain : String}
    {commit : ShareCommit τ}
    (h : Retrieves m caller documentId plain commit.before commit.changes id) :
    leavesPending id commit = true := by
  obtain ⟨share, _, _, hb, hp, _⟩ := h.opens
  obtain ⟨ended, hc, he⟩ := h.ends
  have hafter : commit.after (.share id) = .share ended := by
    simp [Commit.after, overlay, hc]
  unfold leavesPending
  rw [hb, hafter]
  simp [Record.pending, Record.shareWhere, Record.share?, hp, he]

theorem countP_le_one {β : Type} {p : β → Bool} {l : List β}
    (h : l.Pairwise fun a b => ¬ (p a = true ∧ p b = true)) : l.countP p ≤ 1 := by
  induction l with
  | nil => simp
  | cons a l ih =>
      rw [List.pairwise_cons] at h
      rw [List.countP_cons]
      by_cases ha : p a = true
      · have hnone : l.countP p = 0 := by
          rw [List.countP_eq_zero]
          intro b hb hpb
          exact h.1 b hb ⟨ha, hpb⟩
        simp [hnone, ha]
      · simpa [ha] using ih h.2

theorem FirstBoot.sound (h : FirstBoot s) (m : SecretModule) : s.Sound shareGuarantee m.post :=
  Database.Started.sound h.1 m.post

variable [DecidableEq τ]

theorem reachable_sound (h : Runs.Reachable FirstBoot (ShareStep m) s) :
    s.Sound shareGuarantee m.post :=
  h.invariant (fun _ hs => hs.sound m) fun _ _ _ hs hm => hm.step (program_ensures m) hs

/-- The commits so far, from a database without shares. -/
theorem reachable_linked (h : Runs.Reachable FirstBoot (ShareStep m) s) :
    ∃ first : ShareSystem τ, FirstBoot first ∧ Database.Linked first.rows s.log s.rows := by
  obtain ⟨first, labels, hboot, hr⟩ := h
  exact ⟨first, hboot, hboot.1.linked hr⟩

/-- Of two commits at most one moves a share out of the pending state. -/
theorem not_both_leave (h : Runs.Reachable FirstBoot (ShareStep m) s) (id : Nat) :
    s.log.Pairwise fun a b => ¬ (leavesPending id a = true ∧ leavesPending id b = true) := by
  obtain ⟨first, _, linked⟩ := reachable_linked h
  have moved := fun commit hc => ((reachable_sound h).logged commit hc).1
  refine (linked.moves moved).2.2.imp_of_mem ?_
  intro later earlier _ hearlier moves hboth
  simp only [leavesPending, Bool.and_eq_true, Bool.not_eq_true'] at hboth
  obtain ⟨⟨hl, _⟩, hb, ha⟩ := hboth
  have hmoved : Record.Moves (earlier.before (.share id)) (earlier.after (.share id)) :=
    moved earlier hearlier _
  have hbetween : Record.Moves (earlier.after (.share id)) (later.before (.share id)) := moves _
  have hleft := hbetween.left (hmoved.leaves hb ha)
  rw [hleft.not_pending] at hl
  cases hl

theorem settled_of_reachable (h : Runs.Reachable FirstBoot (ShareStep m) s) {share : SecretShare}
    (hrow : s.rows (.share id) = .share share) : share.Settled := by
  obtain ⟨first, hboot, linked⟩ := reachable_linked h
  have moved := fun commit hc => ((reachable_sound h).logged commit hc).1
  have hmoved : Record.Moves (first.rows (.share id)) (s.rows (.share id)) :=
    (linked.moves moved).1 _
  rw [hboot.2 id, hrow] at hmoved
  exact hmoved

/-- Along every run of creates, reveals, revokes, janitor passes and deletions,
with transactions that fail or lose their COMMIT anywhere: a text is returned by
the recipient's reveal that retrieved the share, after its commit; a share is
retrieved by one transaction at most and leaves the pending state once at most;
and an ended share holds no envelope. -/
theorem secret_shares_read_once (m : SecretModule) (s : ShareSystem τ)
    (h : Runs.Reachable FirstBoot (ShareStep m) s) :
    (∀ t plain, (t, Reply.ok (.text plain)) ∈ s.replies →
      ∃ caller documentId phase id, s.phase t = some (.reveal caller documentId, phase) ∧
        Retrieved m s t caller documentId plain id) ∧
    (∀ label s' t plain, ShareStep m s label s' → (t, Reply.ok (.text plain)) ∈ s'.replies →
      (t, Reply.ok (.text plain)) ∉ s.replies →
      label = .confirm t ∧ ∃ caller documentId id, Retrieved m s t caller documentId plain id) ∧
    (∀ id t u caller caller' documentId documentId' plain plain',
      Retrieved m s t caller documentId plain id →
      Retrieved m s u caller' documentId' plain' id → t = u) ∧
    (∀ id, s.log.countP (leavesPending id) ≤ 1) ∧
    (∀ labels s' id, Runs.Run (ShareStep m) s labels s' → (s.rows (.share id)).Left →
      (s'.rows (.share id)).Left) ∧
    (∀ id share, s.rows (.share id) = .share share → share.state ≠ .pending →
      share.envelope = none ∧ share.terminalAt.isSome = true) := by
  have sound := reachable_sound h
  have retrieved : ∀ {t : τ} {call : ShareCall} {plain : String},
      s.Committed t call (.text plain) → ∃ caller documentId id,
        call = .reveal caller documentId ∧ Retrieved m s t caller documentId plain id := by
    intro t call plain hc
    obtain ⟨commit, hmem, hw, rfl, hresult⟩ := hc
    obtain ⟨caller, documentId, id, hcall, hret⟩ := (sound.logged commit hmem).2 plain hresult
    exact ⟨caller, documentId, id, hcall, commit, hmem, hw, hcall, hret⟩
  refine ⟨?_, ?_, ?_, ?_, ?_, ?_⟩
  · intro t plain hr
    obtain ⟨call, phase, hp, hc⟩ := sound.answered t _ hr
    obtain ⟨caller, documentId, id, rfl, hret⟩ := retrieved hc
    exact ⟨caller, documentId, phase, id, hp, hret⟩
  · intro label s' t plain hs hr hnew
    rcases hs.ok_cases hr with hold | ⟨hlabel, call, hp⟩
    · exact absurd hold hnew
    · obtain ⟨caller, documentId, id, _, hret⟩ := retrieved (sound.phases t call _ hp)
      exact ⟨hlabel, caller, documentId, id, hret⟩
  · intro id t u caller caller' documentId documentId' plain plain' ht hu
    obtain ⟨first, hfirst, rfl, _, hleaves⟩ := ht
    obtain ⟨second, hsecond, rfl, _, hleaves'⟩ := hu
    by_cases hsame : first = second
    · rw [hsame]
    · have : Std.Symm fun a b : ShareCommit τ =>
          ¬ (leavesPending id a = true ∧ leavesPending id b = true) :=
        ⟨fun a b hab hba => hab ⟨hba.2, hba.1⟩⟩
      have apart := (not_both_leave h id).forall hfirst hsecond hsame
      exact absurd ⟨hleaves.leaves, hleaves'.leaves⟩ apart
  · intro id
    exact countP_le_one (not_both_leave h id)
  · intro labels s' id hr hleft
    have hmoved : Record.Moves (s.rows (.share id)) (s'.rows (.share id)) :=
      sound.moves (program_ensures m) hr _
    exact hmoved.left hleft
  · intro id share hrow
    exact settled_of_reachable h hrow

end Runs

/-! ## One share, sent and read -/

def sampleModule : SecretModule where
  shareKey := some "key"
  sealEnvelope := fun _ _ text _ => text
  openEnvelope := fun _ envelope _ => some envelope
  sendRoles := staffRoles
  receiveRoles := staffRoles
  mfaRequiredRoles := []

def sampleCaller (userId : Nat) : SecretCaller := ⟨userId, some ⟨some .pw, false, 0⟩⟩

def sampleId : String := "abcdefghijklmnopqrstuvwx"

/-- Two members, 1 and 2, and no share yet. -/
def sampleBoot : ShareSystem Nat where
  rows := fun key =>
    if key ∈ [RowKey.user 1, .user 2] then .person ⟨false, some "member", 0, none⟩ else .unused
  keys := [.user 1, .user 2]
  holder := fun _ => none
  draft := fun _ _ => none
  phase := fun _ => none
  env := ⟨1000, sampleId, "nonce"⟩
  log := []
  replies := []

/-- Member 1 shares a text with member 2, who reveals it. -/
def sampleLabels : List (TxnLabel Nat RowKey ShareEnv ShareCall) :=
  [.begin 0 (.create (sampleCaller 1) ⟨2, "secret", .oneHour⟩)] ++
  List.replicate 13 (.run 0 (.share 1)) ++ [.commit 0, .confirm 0] ++
  [.begin 1 (.reveal (sampleCaller 2) sampleId)] ++
  List.replicate 11 (.run 1 .directory) ++ [.commit 1, .confirm 1]

def sampleEnd : ShareSystem Nat :=
  (Runs.follow (Database.next sampleModule.program) sampleBoot sampleLabels).getD sampleBoot

theorem sampleBoot_firstBoot : FirstBoot sampleBoot := by
  refine ⟨⟨?_, fun _ => rfl, fun _ _ => rfl, fun _ => rfl, rfl, rfl⟩, fun _ => rfl⟩
  intro k hk
  exact if_neg hk

theorem sampleEnd_reachable : Runs.Reachable FirstBoot (ShareStep sampleModule) sampleEnd := by
  refine ⟨sampleBoot, sampleLabels, sampleBoot_firstBoot, ?_⟩
  have hrun : Runs.follow (Database.next sampleModule.program) sampleBoot sampleLabels =
      some sampleEnd := rfl
  exact Runs.run_of_follow hrun

theorem secret_shares_read_once_sample :
    (1, Reply.ok (.text "secret")) ∈ sampleEnd.replies ∧
      ∃ caller documentId phase id,
        sampleEnd.phase 1 = some (.reveal caller documentId, phase) ∧
          Retrieved sampleModule sampleEnd 1 caller documentId "secret" id := by
  have replied : (1, Reply.ok (.text "secret")) ∈ sampleEnd.replies := by decide
  have all := secret_shares_read_once sampleModule sampleEnd sampleEnd_reachable
  exact ⟨replied, all.1 1 "secret" replied⟩

end Sinnlos.Cms

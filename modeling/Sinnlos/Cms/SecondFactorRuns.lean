import Sinnlos.Cms.SecondFactor
import Sinnlos.Lib.TransactionLog
import Mathlib.Data.List.Perm.Basic

/-! # Second factors are single use

What each transaction ensures of the row it locks, and what follows for every
interleaving: while an enrollment lasts, the steps of its accepted codes grow,
its recovery codes are spent one by one, and a call that accepts nothing changes
nothing.
-/

namespace Sinnlos.Cms.Mfa

open Txn Knowledge

/-! ## What accepting a code means -/

/-- The step the input is a code of, with the secret of this row. -/
def matchedStep (m : Crypto) (row : MfaRow) (input : String) (now : Int) : Option Int :=
  match secretOf m row with
  | none => none
  | some secret =>
      match matchTotp m secret (Text.trimChars input.toList) now with
      | .ok step => step
      | .error _ => none

/-- The code was accepted on `row`, which became `row'`. -/
structure Accepts (m : Crypto) (tv : Int) (input : String) (now : Int) (row row' : MfaRow) :
    Prop where
  version : versionOf row.tokenVersion = tv
  enrolled : isEnrolled row = true
  effect :
    (secondFactorKind input = some .totp ∧ ∃ step, matchedStep m row input now = some step ∧
      (∀ last, row.totpLastStep = some last → last < step) ∧ row' = row.withStep step) ∨
    (secondFactorKind input = some .recovery ∧ ∃ index,
      indexOfHash (recoveryCodes row) (hashRecoveryCode m input) = some index ∧
      row' = row.withCodes ((recoveryCodes row).eraseIdx index))

/-- The one row of `userId` became `row'`, and nothing else changed. -/
def only (userId : Nat) (row' : MfaRow) : Nat → Option (Option MfaRow) :=
  Function.update (fun _ => none) userId (some (some row'))

/-- What a consumed or refused code left behind. -/
def Outcome (m : Crypto) (userId : Nat) (tv : Int) (input : String) (now : Int) (c : Consumed)
    (before : Nat → Option MfaRow) (changes : Nat → Option (Option MfaRow)) : Prop :=
  (c.ok = false ∧ changes = fun _ => none) ∨
    (c.ok = true ∧ ∃ row row', before userId = some row ∧ Accepts m tv input now row row' ∧
      changes = only userId row')

/-- Users neither come nor go. -/
def mfaGuarantee : Guarantee (Option MfaRow) where
  blank := none
  moves := fun a b => a.isSome = b.isSome
  refl := fun _ => rfl
  trans := fun _ _ _ h₁ h₂ => h₁.trans h₂

/-- What each call leaves behind where it commits. -/
def mfaPost (m : Crypto) : Database.Post Nat (Option MfaRow) MfaResult MfaCall :=
  fun call result before changes =>
    match call, result with
    | .consume userId tv input now, .factor c => Outcome m userId tv input now c before changes
    | .disable userId callerVersion code now, .version _ =>
        ∃ tv row row', callerVersion = some tv ∧ before userId = some row ∧
          Accepts m tv code now row row' ∧ changes = only userId row'.cleared.bumped
    | .activate userId a, .version _ =>
        ∃ row, before userId = some row ∧ isEnrolled row = false ∧
          changes = only userId (row.activated a)
    | .clear userId, .version _ =>
        ∃ row, before userId = some row ∧ changes = only userId row.cleared.bumped
    | .bump userId, .version _ =>
        ∃ row, before userId = some row ∧ changes = only userId row.bumped
    | _, _ => False

/-! ## What each transaction ensures -/

section Ensures

variable {α : Type} {m : Crypto} {userId : Nat} {l : Knowledge Nat (Option MfaRow)} {row : MfaRow}

theorem rows_of_untouched (start : l.changes = fun _ => none) : l.current = l.rows := by
  funext k
  apply current_of_none
  rw [start]

/-- The row's own transaction finds what it found when it locked it. -/
structure Owns (userId : Nat) (row : MfaRow) (l : Knowledge Nat (Option MfaRow)) : Prop where
  held : l.held userId
  current : l.current userId = some row
  exists_ : (l.rows userId).isSome = true

variable {l' : Knowledge Nat (Option MfaRow)}

theorem Owns.later (h : Owns userId row l) (hl : l.Later mfaGuarantee l') : Owns userId row l' := by
  refine ⟨?_, ?_, ?_⟩
  · rw [hl.held]
    exact h.held
  · rw [hl.current_eq h.held]
    exact h.current
  · rw [hl.kept userId h.held]
    exact h.exists_

theorem Owns.put (h : Owns userId row l) (row' : MfaRow) :
    Owns userId row' (l.put userId (some row')) :=
  ⟨put_held_self _ _ _, put_current_self _ _ _, h.exists_⟩

variable {Q : α → Knowledge Nat (Option MfaRow) → Prop} {tv now : Int} {input : String}
  {next : Bool → MfaTxn α}

/-- An update of the row its transaction has locked. -/
theorem ensures_updateOwn {found : Option MfaRow → Bool} {set : MfaRow → MfaRow}
    (owns : Owns userId row l)
    (changed : found (some row) = true → ∀ l', l.Later mfaGuarantee l' →
      (next true).Ensures mfaGuarantee Q (l'.put userId (some (set row))))
    (missing : found (some row) = false → ∀ l', l.Later mfaGuarantee l' →
      (next false).Ensures mfaGuarantee Q l') :
    (updateWhere userId found (Option.map set) >>= next).Ensures mfaGuarantee Q l := by
  apply ensures_updateWhere
  · intro l' hl hfound
    have hcur := (owns.later hl).current
    rw [hcur] at hfound ⊢
    exact ⟨(owns.later hl).exists_, changed hfound l' hl⟩
  · intro l' hl hfound
    rw [(owns.later hl).current] at hfound
    exact missing hfound l' hl

/-- Where there is no row, none appears. -/
theorem current_none_of_later (hl : l.Later mfaGuarantee l') (h : l.current userId = none) :
    l'.current userId = none := by
  unfold Knowledge.current overlay at h ⊢
  rw [hl.changes]
  cases hc : l.changes userId with
  | some row =>
      rw [hc] at h
      exact h
  | none =>
      rw [hc] at h
      have hrow : l.rows userId = none := h
      have hmoves : (l.rows userId).isSome = (l'.rows userId).isSome := hl.moved userId
      rw [hrow] at hmoves
      exact Option.isNone_iff_eq_none.mp (Option.isSome_eq_false_iff.mp hmoves.symm)

/-- After the lock the transaction owns the row, or there is none. -/
theorem ensures_lockUserRow (start : l.changes = fun _ => none)
    (owned : ∀ l' row, l'.changes = (fun _ => none) → Owns userId row l' →
      (next true).Ensures mfaGuarantee Q l')
    (absent : ∀ l', l'.changes = (fun _ => none) → l'.current userId = none →
      (next false).Ensures mfaGuarantee Q l') :
    (lockUserRow userId >>= next).Ensures mfaGuarantee Q l := by
  apply ensures_forUpdate
  · intro l₁ h₁ hfound
    have clean : l₁.changes = fun _ => none := h₁.changes.trans start
    obtain ⟨row, hrow⟩ := Option.isSome_iff_exists.mp hfound
    rw [rows_of_untouched clean] at hfound
    exact owned (l₁.hold userId) row clean ⟨hold_held_self l₁ userId, hrow, hfound⟩
  · intro l₁ h₁ hfound
    exact absent l₁ (h₁.changes.trans start)
      (Option.isNone_iff_eq_none.mp (Option.isSome_eq_false_iff.mp hfound))

/-- Where a call returns without a change, it accepted nothing. -/
theorem ensures_notConsumed (clean : l.changes = fun _ => none) :
    (pure notConsumed : MfaTxn Consumed).Ensures mfaGuarantee
      (fun c l' => Outcome m userId tv input now c l'.rows l'.changes ∧
        (c.ok = true → ∃ row', Owns userId row' l')) l := by
  intro l' hl
  exact ⟨Or.inl ⟨rfl, hl.changes.trans clean⟩, fun h => absurd h (by decide)⟩

theorem ensures_consumed {row' : MfaRow} {c : Consumed} (ok : c.ok = true)
    (owns : Owns userId row l) (clean : l.changes = fun _ => none)
    (accepts : Accepts m tv input now row row') :
    (pure c : MfaTxn Consumed).Ensures mfaGuarantee
      (fun c l' => Outcome m userId tv input now c l'.rows l'.changes ∧
        (c.ok = true → ∃ row', Owns userId row' l')) (l.put userId (some row')) := by
  intro l' hl
  have hrow : l.rows userId = some row := by
    rw [← rows_of_untouched clean]
    exact owns.current
  have hchanges : l'.changes = only userId row' := by
    rw [hl.changes]
    show Function.update l.changes userId _ = _
    rw [clean]
    rfl
  refine ⟨Or.inr ⟨ok, row, row', ?_, accepts, hchanges⟩, ?_⟩
  · rw [hl.kept userId (put_held_self l userId _)]
    exact hrow
  · intro _
    exact ⟨row', (owns.put row').later hl⟩

theorem consumeTotp_ensures (kind : secondFactorKind input = some .totp)
    (version : versionOf row.tokenVersion = tv) (enrolled : isEnrolled row = true)
    (owns : Owns userId row l) (clean : l.changes = fun _ => none) :
    (consumeTotp m userId row input now).Ensures mfaGuarantee
      (fun c l' => Outcome m userId tv input now c l'.rows l'.changes ∧
        (c.ok = true → ∃ row', Owns userId row' l')) l := by
  unfold consumeTotp
  cases hsecret : secretOf m row with
  | none => exact ensures_notConsumed clean
  | some secret =>
      dsimp only
      cases hmatch : matchTotp m secret (Text.trimChars input.toList) now with
      | error refusal => trivial
      | ok found =>
          cases found with
          | none => exact ensures_notConsumed clean
          | some step =>
              have hstep : matchedStep m row input now = some step := by
                simp only [matchedStep, hsecret, hmatch]
              apply ensures_updateOwn owns
              · intro hfound l₁ h₁
                have later : ∀ last, row.totpLastStep = some last → last < step := by
                  intro last hlast
                  simpa [acceptsStep, hlast] using (Bool.and_eq_true_iff.mp hfound).2
                refine ensures_consumed rfl (owns.later h₁) (h₁.changes.trans clean)
                  ⟨version, enrolled, Or.inl ⟨kind, step, hstep, later, rfl⟩⟩
              · intro _ l₁ h₁
                exact ensures_notConsumed (h₁.changes.trans clean)

theorem consumeRecovery_ensures (kind : secondFactorKind input = some .recovery)
    (version : versionOf row.tokenVersion = tv) (enrolled : isEnrolled row = true)
    (owns : Owns userId row l) (clean : l.changes = fun _ => none) :
    (consumeRecovery m userId row input).Ensures mfaGuarantee
      (fun c l' => Outcome m userId tv input now c l'.rows l'.changes ∧
        (c.ok = true → ∃ row', Owns userId row' l')) l := by
  unfold consumeRecovery
  dsimp only
  cases hindex : indexOfHash (recoveryCodes row) (hashRecoveryCode m input) with
  | none => exact ensures_notConsumed clean
  | some index =>
      apply ensures_updateOwn owns
      · intro _ l₁ h₁
        exact ensures_consumed rfl (owns.later h₁) (h₁.changes.trans clean)
          ⟨version, enrolled, Or.inr ⟨kind, index, hindex, rfl⟩⟩
      · intro hnone
        cases hnone

/-- One code is accepted as the row says, or nothing changes. -/
theorem consumeSecondFactor_ensures (tv : Int) (input : String) (now : Int)
    (start : l.changes = fun _ => none) :
    (consumeSecondFactor m userId tv input now).Ensures mfaGuarantee
      (fun c l' => Outcome m userId tv input now c l'.rows l'.changes ∧
        (c.ok = true → ∃ row', Owns userId row' l')) l := by
  unfold consumeSecondFactor
  cases hkind : secondFactorKind input with
  | none => exact ensures_notConsumed start
  | some kind =>
      apply ensures_lockUserRow start
      · intro l₁ row clean₁ owns₁
        apply ensures_select
        intro l₂ h₂ keys
        have owns := owns₁.later h₂
        have clean : l₂.changes = fun _ => none := h₂.changes.trans clean₁
        simp only [owns.current]
        split
        · exact ensures_notConsumed clean
        · rename_i hno
          simp only [not_or, not_not, Bool.not_eq_false] at hno
          cases kind with
          | totp => exact consumeTotp_ensures hkind hno.1 hno.2 owns clean
          | recovery => exact consumeRecovery_ensures hkind hno.1 hno.2 owns clean
      · intro l₁ clean hnone
        apply ensures_select
        intro l₂ h₂ keys
        simp only [current_none_of_later h₂ hnone]
        exact ensures_notConsumed (h₂.changes.trans clean)

/-- The version is raised on the row the statement finds. -/
theorem bumpTokenVersion_ensures {Q : Int → Knowledge Nat (Option MfaRow) → Prop}
    (h : ∀ l' row, l.Later mfaGuarantee l' → l'.current userId = some row →
      (l'.rows userId).isSome = true ∧ ∀ version l'',
        (l'.put userId (some row.bumped)).Later mfaGuarantee l'' → Q version l'') :
    (bumpTokenVersion userId).Ensures mfaGuarantee Q l := by
  apply ensures_updateWhere
  · intro l₁ h₁ hfound
    obtain ⟨row, hrow⟩ := Option.isSome_iff_exists.mp hfound
    obtain ⟨hsome, hq⟩ := h l₁ row h₁ hrow
    rw [hrow]
    refine ⟨hsome, ?_⟩
    apply ensures_select
    intro l₂ h₂ keys
    split
    · split
      · intro l₃ h₃
        exact hq _ l₃ (h₂.trans h₃)
      · trivial
    · trivial
  · intro l₁ h₁ hfound
    have hnone : l₁.current userId = none :=
      Option.isNone_iff_eq_none.mp (Option.isSome_eq_false_iff.mp hfound)
    apply ensures_select
    intro l₂ h₂ keys
    simp only [current_none_of_later h₂ hnone]
    trivial

/-- The version of a row its transaction has locked and changed. -/
theorem bumpOwn_ensures {before : MfaRow} {Q : Int → Knowledge Nat (Option MfaRow) → Prop}
    (owns : Owns userId row l) (hrow : l.rows userId = some before)
    (hchanges : l.changes = only userId row)
    (h : ∀ version l', l'.rows userId = some before → l'.changes = only userId row.bumped →
      Q version l') :
    (bumpTokenVersion userId).Ensures mfaGuarantee Q l := by
  apply bumpTokenVersion_ensures
  intro l₁ row₁ h₁ hcur
  rw [(owns.later h₁).current] at hcur
  cases hcur
  refine ⟨(owns.later h₁).exists_, ?_⟩
  intro version l₂ h₂
  apply h
  · rw [h₂.kept userId (put_held_self _ _ _), put_rows, h₁.kept userId owns.held]
    exact hrow
  · rw [h₂.changes]
    show Function.update l₁.changes userId _ = _
    rw [h₁.changes, hchanges]
    exact Function.update_idem ..

theorem Owns.rows (owns : Owns userId row l) (clean : l.changes = fun _ => none) :
    l.rows userId = some row := by
  rw [← rows_of_untouched clean]
  exact owns.current

theorem put_only (clean : l.changes = fun _ => none) (row' : MfaRow) :
    (l.put userId (some row')).changes = only userId row' := by
  show Function.update l.changes userId _ = _
  rw [clean]
  rfl

/-- Without a row there is no version to raise. -/
theorem bumpAbsent_ensures {Q : Int → Knowledge Nat (Option MfaRow) → Prop}
    (absent : l.current userId = none) : (bumpTokenVersion userId).Ensures mfaGuarantee Q l := by
  apply bumpTokenVersion_ensures
  intro l₁ row h₁ hcur
  rw [current_none_of_later h₁ absent] at hcur
  cases hcur

theorem clearMfa_ensures (start : l.changes = fun _ => none) :
    (clearMfa userId).Ensures mfaGuarantee
      (fun _ l' => ∃ row, l'.rows userId = some row ∧
        l'.changes = only userId row.cleared.bumped) l := by
  apply ensures_lockUserRow start
  · intro l₁ row clean owns
    apply ensures_updateOwn owns
    · intro _ l₂ h₂
      have clean₂ : l₂.changes = fun _ => none := h₂.changes.trans clean
      apply bumpOwn_ensures ((owns.later h₂).put row.cleared) ((owns.later h₂).rows clean₂)
        (put_only clean₂ row.cleared)
      intro version l₃ hrow hchanges
      exact ⟨row, hrow, hchanges⟩
    · intro hnone
      cases hnone
  · intro l₁ clean absent
    apply ensures_updateWhere
    · intro l₂ h₂ hfound
      rw [current_none_of_later h₂ absent] at hfound
      cases hfound
    · intro l₂ h₂ _
      exact bumpAbsent_ensures (current_none_of_later h₂ absent)

theorem bump_ensures (start : l.changes = fun _ => none) :
    (bumpTokenVersion userId).Ensures mfaGuarantee
      (fun _ l' => ∃ row, l'.rows userId = some row ∧ l'.changes = only userId row.bumped) l := by
  apply bumpTokenVersion_ensures
  intro l₁ row h₁ hcur
  have clean : l₁.changes = fun _ => none := h₁.changes.trans start
  have hrow : l₁.rows userId = some row := by
    rw [← rows_of_untouched clean]
    exact hcur
  refine ⟨by rw [hrow]; rfl, ?_⟩
  intro version l₂ h₂
  refine ⟨row, ?_, ?_⟩
  · rw [h₂.kept userId (put_held_self _ _ _), put_rows]
    exact hrow
  · rw [h₂.changes]
    exact put_only clean row.bumped

theorem ensures_assertSameVersion {callerVersion : Option Int} {found : Option MfaRow}
    {next : Int → MfaTxn α}
    (h : ∀ tv, callerVersion = some tv → (next tv).Ensures mfaGuarantee Q l) :
    (assertSameVersion callerVersion found >>= next).Ensures mfaGuarantee Q l := by
  unfold assertSameVersion
  dsimp only
  split
  · rename_i hsame
    exact h _ hsame
  · trivial

theorem mfaActivate_ensures (a : Activation) (start : l.changes = fun _ => none) :
    (mfaActivate userId a).Ensures mfaGuarantee
      (fun _ l' => ∃ row, l'.rows userId = some row ∧ isEnrolled row = false ∧
        l'.changes = only userId (row.activated a)) l := by
  apply ensures_lockUserRow start
  · intro l₁ row clean₁ owns₁
    apply ensures_select
    intro l₂ h₂ keys
    have owns := owns₁.later h₂
    have clean : l₂.changes = fun _ => none := h₂.changes.trans clean₁
    simp only [owns.current]
    split
    · trivial
    · rename_i fresh
      apply ensures_assertSameVersion
      intro tv _
      split
      · trivial
      · apply ensures_updateOwn owns
        · intro _ l₃ h₃ l₄ h₄
          have clean₃ : l₃.changes = fun _ => none := h₃.changes.trans clean
          refine ⟨row, ?_, Bool.eq_false_iff.mpr fresh, ?_⟩
          · rw [h₄.kept userId (put_held_self _ _ _), put_rows]
            exact (owns.later h₃).rows clean₃
          · rw [h₄.changes]
            exact put_only clean₃ (row.activated a)
        · intro hnone
          cases hnone
  · intro l₁ clean absent
    apply ensures_select
    intro l₂ h₂ keys
    simp only [current_none_of_later h₂ absent]
    trivial

theorem mfaDisable_ensures (requiredRoles : List String) (callerVersion : Option Int)
    (code : String) (now : Int) (start : l.changes = fun _ => none) :
    (mfaDisable m requiredRoles userId callerVersion code now).Ensures mfaGuarantee
      (fun _ l' => ∃ tv row row', callerVersion = some tv ∧ l'.rows userId = some row ∧
        Accepts m tv code now row row' ∧ l'.changes = only userId row'.cleared.bumped) l := by
  have quiet : (lockUserRow userId).Quiet := fun _ => trivial
  refine ensures_quiet quiet ?_
  intro _ l₁ h₁
  apply ensures_select
  intro l₂ h₂ keys
  have clean : l₂.changes = fun _ => none := h₂.changes.trans (h₁.changes.trans start)
  show Ensures _ (ite _ _ _) _ _
  split
  · trivial
  · apply ensures_assertSameVersion
    intro tv htv
    apply Ensures.bind
    refine (consumeSecondFactor_ensures tv code now clean).mono ?_
    intro c l₃ hc
    obtain ⟨outcome, owned⟩ := hc
    rcases outcome with ⟨hno, _⟩ | ⟨hok, row, row', hrow, accepts, hchanges⟩
    · simp only [hno]
      trivial
    · obtain ⟨row'', owns⟩ := owned hok
      have hsame : row'' = row' := by
        have hcur := owns.current
        have hput : l₃.changes userId = some (some row') := by
          rw [hchanges]
          exact Function.update_self ..
        rw [current_of_some hput] at hcur
        exact (Option.some.inj hcur).symm
      subst hsame
      simp only [hok]
      apply ensures_updateOwn owns
      · intro _ l₄ h₄
        have hrow₄ : l₄.rows userId = some row := by
          rw [h₄.kept userId owns.held]
          exact hrow
        apply bumpOwn_ensures ((owns.later h₄).put row''.cleared) hrow₄
        · show Function.update l₄.changes userId _ = _
          rw [h₄.changes, hchanges]
          exact Function.update_idem ..
        · intro version l₅ hrow₅ hchanges₅
          exact ⟨tv, row, row'', htv, hrow₅, accepts, hchanges₅⟩
      · intro hnone
        cases hnone

/-- Every call leaves behind what its post says, whatever the others do. -/
theorem mfa_ensures (m : Crypto) (requiredRoles : List String) (call : MfaCall)
    (rows : Nat → Option MfaRow) (held : Nat → Prop) :
    (program m requiredRoles call).Ensures mfaGuarantee ((mfaPost m).holds call)
      ⟨rows, held, fun _ => none⟩ := by
  cases call with
  | consume userId tv input now =>
      apply Ensures.map
      exact (consumeSecondFactor_ensures tv input now rfl).mono fun c l' hc => hc.1
  | activate userId activation =>
      apply Ensures.map
      exact mfaActivate_ensures activation rfl
  | disable userId callerVersion code now =>
      apply Ensures.map
      exact mfaDisable_ensures requiredRoles callerVersion code now rfl
  | clear userId =>
      apply Ensures.map
      exact clearMfa_ensures rfl
  | bump userId =>
      apply Ensures.map
      exact bump_ensures rfl

end Ensures

/-! ## The list of recovery codes -/

variable {index : Nat}

/-- A place that is found holds the code that was looked for. -/
theorem foldl_indexOf {given : List UInt8} {entries : List (String × Nat)} {found : Option Nat}
    (h : entries.foldl (fun index entry =>
      if codeBytes entry.1 = given then some entry.2 else index) found = some index) :
    found = some index ∨ ∃ code, (code, index) ∈ entries ∧ codeBytes code = given := by
  induction entries generalizing found with
  | nil => exact Or.inl h
  | cons entry entries ih =>
      rcases ih h with hfound | ⟨code, hmem, hcode⟩
      · dsimp only at hfound
        by_cases hsame : codeBytes entry.1 = given
        · rw [if_pos hsame] at hfound
          cases hfound
          exact Or.inr ⟨entry.1, List.mem_cons_self, hsame⟩
        · rw [if_neg hsame] at hfound
          exact Or.inl hfound
      · exact Or.inr ⟨code, List.mem_cons_of_mem _ hmem, hcode⟩

/-- What is left after a code was found and taken out of the list. -/
theorem indexOfHash_perm {codes : List String} {hash : String}
    (h : indexOfHash codes hash = some index) :
    (codes.map codeBytes).Perm (codeBytes hash :: (codes.eraseIdx index).map codeBytes) := by
  rcases foldl_indexOf h with hnone | ⟨code, hmem, hcode⟩
  · cases hnone
  · rw [List.mk_mem_zipIdx_iff_getElem?, List.getElem?_eq_some_iff] at hmem
    obtain ⟨hlt, hget⟩ := hmem
    have hperm := (List.getElem_cons_eraseIdx_perm hlt).map codeBytes
    rw [List.map_cons, hget, hcode] at hperm
    exact hperm.symm

@[simp] theorem recoveryCodes_withCodes (codes : List String) (row : MfaRow) :
    recoveryCodes (row.withCodes codes) = codes := by
  unfold recoveryCodes MfaRow.withCodes
  dsimp only
  rw [List.filterMap_map]
  exact List.filterMap_some

/-! ## What a commit accepts -/

section Commits

variable {τ : Type}

/-- The user rows and the transactions on them; `τ` names the transactions. -/
abbrev MfaSystem (τ : Type) : Type :=
  Database τ Nat (Option MfaRow) Unit MfaRefusal MfaResult MfaCall

abbrev MfaCommit (τ : Type) : Type := Commit τ Nat (Option MfaRow) MfaResult MfaCall

/-- A code that was accepted, with the version its caller held. -/
structure Acceptance where
  userId : Nat
  tv : Int
  input : String
  now : Int
deriving DecidableEq

def acceptance (commit : MfaCommit τ) : Option Acceptance :=
  match commit.call, commit.result with
  | .consume userId tv input now, .factor c => if c.ok then some ⟨userId, tv, input, now⟩ else none
  | .disable userId (some tv) code now, .version _ => some ⟨userId, tv, code, now⟩
  | _, _ => none

/-- The acceptance of a code of this kind for this user. -/
def acceptanceOf (kind : FactorKind) (userId : Nat) (commit : MfaCommit τ) : Option Acceptance :=
  (acceptance commit).filter fun a =>
    a.userId = userId && secondFactorKind a.input = some kind

/-- The time step of the TOTP code the commit accepted for the user. -/
def acceptedStep (m : Crypto) (userId : Nat) (commit : MfaCommit τ) : Option Int :=
  (acceptanceOf .totp userId commit).bind fun a =>
    (commit.before userId).bind fun row => matchedStep m row a.input a.now

/-- The recovery code the commit accepted for the user, as it is compared. -/
def acceptedCode (m : Crypto) (userId : Nat) (commit : MfaCommit τ) : Option (List UInt8) :=
  (acceptanceOf .recovery userId commit).map fun a => codeBytes (hashRecoveryCode m a.input)

/-- The commit starts or ends an enrollment of the user. -/
def endsEnrollment (userId : Nat) (commit : MfaCommit τ) : Bool :=
  match commit.call with
  | .activate id _ => id = userId
  | .disable id _ _ _ => id = userId
  | .clear id => id = userId
  | _ => false

def lastStep (row : Option MfaRow) : Option Int := row.bind MfaRow.totpLastStep

/-- The recovery codes still listed, as they are compared. -/
def storedCodes (row : Option MfaRow) : List (List UInt8) :=
  match row with
  | some row => (recoveryCodes row).map codeBytes
  | none => []

/-- What one commit can do to a user: leave the second factor alone, accept a
code, or start or end an enrollment. -/
inductive Effect (m : Crypto) (userId : Nat) (commit : MfaCommit τ) : Prop
  | kept (unaccepted : ∀ kind, acceptanceOf kind userId commit = none)
      (step : lastStep (commit.after userId) = lastStep (commit.before userId))
      (codes : storedCodes (commit.after userId) = storedCodes (commit.before userId))
  | accepted (a : Acceptance) (row row' : MfaRow) (acc : acceptance commit = some a)
      (user : a.userId = userId) (before : commit.before userId = some row)
      (accepts : Accepts m a.tv a.input a.now row row')
      (after : commit.after userId = some row' ∨ endsEnrollment userId commit = true)
  | ended (unaccepted : ∀ kind, acceptanceOf kind userId commit = none)
      (ends : endsEnrollment userId commit = true)

variable {commit : MfaCommit τ} {userId : Nat} {row' : MfaRow} {m : Crypto} {a : Acceptance}
  {first : Nat → Option MfaRow} {log : List (MfaCommit τ)}

theorem after_only (h : commit.changes = only userId row') : commit.after userId = some row' := by
  unfold Commit.after overlay
  rw [h]
  simp [only]

variable {other : Nat} {kind : FactorKind} {row : MfaRow}

theorem after_only_of_ne (h : commit.changes = only other row') (hne : userId ≠ other) :
    commit.after userId = commit.before userId := by
  unfold Commit.after overlay
  rw [h]
  simp [only, hne]

theorem acceptanceOf_eq_none (h : ∀ a, acceptance commit = some a → a.userId ≠ userId) :
    acceptanceOf kind userId commit = none := by
  unfold acceptanceOf
  cases ha : acceptance commit with
  | none => rfl
  | some a => simp [h a ha]

/-- A commit of one user's row does nothing to another user. -/
theorem effect_of_ne (h : commit.changes = only other row') (hne : userId ≠ other)
    (acc : ∀ a, acceptance commit = some a → a.userId = other) : Effect m userId commit := by
  have same := after_only_of_ne h hne
  apply Effect.kept
  · intro kind
    apply acceptanceOf_eq_none
    intro a ha heq
    exact hne (heq.symm.trans (acc a ha))
  · rw [same]
  · rw [same]

/-- Every commit has one of the three effects on every user. -/
theorem commit_effect (h : mfaPost m commit.call commit.result commit.before commit.changes)
    (userId : Nat) : Effect m userId commit := by
  obtain ⟨writer, call, result, before, changes⟩ := commit
  cases result with
  | factor c =>
      cases call with
      | consume other tv input now =>
          rcases h with ⟨hno, hnone⟩ | ⟨hok, row, row', hrow, accepts, hchanges⟩
          · dsimp only at hno hnone
            subst hnone
            refine .kept ?_ rfl rfl
            intro kind
            apply acceptanceOf_eq_none
            intro a ha
            simp [acceptance, hno] at ha
          · have hacc : acceptance ⟨writer, .consume other tv input now, .factor c, before,
                changes⟩ = some ⟨other, tv, input, now⟩ := by
              simp only [acceptance, hok, if_true]
            by_cases hsame : userId = other
            · subst hsame
              exact .accepted _ row row' hacc rfl hrow accepts (Or.inl (after_only hchanges))
            · apply effect_of_ne hchanges hsame
              intro a ha
              rw [hacc] at ha
              cases ha
              rfl
      | _ => exact h.elim
  | version v =>
      cases call with
      | consume other tv input now => exact h.elim
      | activate other a =>
          obtain ⟨row, _, _, hchanges⟩ := h
          by_cases hsame : userId = other
          · refine .ended ?_ (decide_eq_true hsame.symm)
            intro kind
            rfl
          · refine effect_of_ne hchanges hsame ?_
            intro a ha
            cases ha
      | disable other callerVersion code now =>
          obtain ⟨tv, row, row', hversion, hrow, accepts, hchanges⟩ := h
          subst hversion
          by_cases hsame : userId = other
          · subst hsame
            exact .accepted ⟨userId, tv, code, now⟩ row row' rfl rfl hrow accepts
              (Or.inr (decide_eq_true rfl))
          · refine effect_of_ne hchanges hsame ?_
            intro a ha
            cases ha
            rfl
      | clear other =>
          obtain ⟨row, _, hchanges⟩ := h
          by_cases hsame : userId = other
          · refine .ended ?_ (decide_eq_true hsame.symm)
            intro kind
            rfl
          · refine effect_of_ne hchanges hsame ?_
            intro a ha
            cases ha
      | bump other =>
          obtain ⟨row, hrow, hchanges⟩ := h
          by_cases hsame : userId = other
          · subst hsame
            have hafter := after_only hchanges
            change before userId = some row at hrow
            refine .kept (fun _ => rfl) ?_ ?_
            · show _ = lastStep (before userId)
              rw [hafter, hrow]
              rfl
            · show _ = storedCodes (before userId)
              rw [hafter, hrow]
              rfl
          · refine effect_of_ne hchanges hsame ?_
            intro a ha
            cases ha

/-! ## The accepted steps and codes of a user -/

theorem acceptanceOf_some (acc : acceptance commit = some a) (user : a.userId = userId) :
    acceptanceOf kind userId commit =
      if secondFactorKind a.input = some kind then some a else none := by
  unfold acceptanceOf
  rw [acc, Option.filter_some, user]
  by_cases hkind : secondFactorKind a.input = some kind
  · simp [hkind]
  · simp [hkind]

/-- What an accepting commit shows of the code: a later step, or a listed code. -/
theorem accepted_spec (acc : acceptance commit = some a) (user : a.userId = userId)
    (before : commit.before userId = some row) (accepts : Accepts m a.tv a.input a.now row row') :
    (∃ step, acceptedStep m userId commit = some step ∧ acceptedCode m userId commit = none ∧
      (∀ last, row.totpLastStep = some last → last < step) ∧ row' = row.withStep step) ∨
    (∃ code, acceptedCode m userId commit = some code ∧ acceptedStep m userId commit = none ∧
      (storedCodes (some row)).Perm (code :: storedCodes (some row')) ∧
      row'.totpLastStep = row.totpLastStep) := by
  unfold acceptedStep acceptedCode
  rw [acceptanceOf_some acc user, acceptanceOf_some acc user]
  rcases accepts.effect with ⟨hkind, step, hstep, hlater, rfl⟩ | ⟨hkind, index, hindex, rfl⟩
  · refine Or.inl ⟨step, ?_, ?_, hlater, rfl⟩
    · simp [hkind, before, hstep]
    · simp [hkind]
  · refine Or.inr ⟨codeBytes (hashRecoveryCode m a.input), ?_, ?_, ?_, rfl⟩
    · simp [hkind]
    · simp [hkind]
    · simp only [storedCodes, recoveryCodes_withCodes]
      exact indexOfHash_perm hindex

/-- What one commit does to the last step and the codes of a user. -/
structure Consumes (m : Crypto) (userId : Nat) (commit : MfaCommit τ) : Prop where
  later : ∀ step last, acceptedStep m userId commit = some step →
    lastStep (commit.before userId) = some last → last < step
  listed : ∀ code, acceptedCode m userId commit = some code →
    code ∈ storedCodes (commit.before userId)
  step : endsEnrollment userId commit = false →
    lastStep (commit.after userId) =
      (acceptedStep m userId commit).or (lastStep (commit.before userId))
  codes : endsEnrollment userId commit = false →
    (storedCodes (commit.before userId)).Perm
      ((acceptedCode m userId commit).toList ++ storedCodes (commit.after userId))

theorem acceptedStep_eq_none (h : ∀ kind, acceptanceOf kind userId commit = none) :
    acceptedStep m userId commit = none ∧ acceptedCode m userId commit = none := by
  unfold acceptedStep acceptedCode
  rw [h, h]
  exact ⟨rfl, rfl⟩

theorem commit_consumes (h : mfaPost m commit.call commit.result commit.before commit.changes)
    (userId : Nat) : Consumes m userId commit := by
  cases commit_effect h userId with
  | kept unaccepted step codes =>
      obtain ⟨hstep, hcode⟩ := acceptedStep_eq_none (m := m) unaccepted
      refine ⟨?_, ?_, ?_, ?_⟩
      · simp [hstep]
      · simp [hcode]
      · intro _
        rw [hstep, step]
        rfl
      · intro _
        rw [hcode, codes]
        exact .refl _
  | ended unaccepted ends =>
      obtain ⟨hstep, hcode⟩ := acceptedStep_eq_none (m := m) unaccepted
      refine ⟨?_, ?_, ?_, ?_⟩
      · simp [hstep]
      · simp [hcode]
      · simp [ends]
      · simp [ends]
  | accepted a row row' acc user before accepts after =>
      have stays : endsEnrollment userId commit = false → commit.after userId = some row' := by
        intro hends
        rw [hends] at after
        simpa using after
      rcases accepted_spec acc user before accepts with
        ⟨step, hstep, hcode, hlater, rfl⟩ | ⟨code, hcode, hstep, hperm, hlast⟩
      · refine ⟨?_, ?_, ?_, ?_⟩
        · intro step' last hs hl
          rw [hstep] at hs
          cases hs
          rw [before] at hl
          exact hlater last hl
        · simp [hcode]
        · intro hends
          rw [stays hends, hstep]
          rfl
        · intro hends
          rw [stays hends, hcode, before]
          exact .refl _
      · refine ⟨?_, ?_, ?_, ?_⟩
        · simp [hstep]
        · intro code' hc
          rw [hcode] at hc
          cases hc
          rw [before]
          exact hperm.mem_iff.mpr List.mem_cons_self
        · intro hends
          rw [stays hends, hstep, before]
          exact hlast
        · intro hends
          rw [stays hends, hcode, before]
          exact hperm

/-! ## A user's enrollment over a run -/

/-- The steps accepted for a user, the latest first. -/
def acceptedSteps (m : Crypto) (userId : Nat) (log : List (MfaCommit τ)) : List Int :=
  log.filterMap (acceptedStep m userId)

def acceptedCodes (m : Crypto) (userId : Nat) (log : List (MfaCommit τ)) : List (List UInt8) :=
  log.filterMap (acceptedCode m userId)

/-- What the commits since `first` accepted of one enrollment, which lasts. -/
structure Spent (m : Crypto) (userId : Nat) (first rows : Nat → Option MfaRow)
    (log : List (MfaCommit τ)) : Prop where
  decreasing : (acceptedSteps m userId log).Pairwise (· > ·)
  later : ∀ step ∈ acceptedSteps m userId log, ∀ last, lastStep (first userId) = some last →
    last < step
  last : lastStep (rows userId) =
    (acceptedSteps m userId log).head?.or (lastStep (first userId))
  codes : (storedCodes (first userId)).Perm
    (acceptedCodes m userId log ++ storedCodes (rows userId))

theorem acceptedSteps_cons (m : Crypto) (userId : Nat) (commit : MfaCommit τ)
    (log : List (MfaCommit τ)) : acceptedSteps m userId (commit :: log) =
      (acceptedStep m userId commit).toList ++ acceptedSteps m userId log := by
  unfold acceptedSteps
  cases h : acceptedStep m userId commit with
  | none => simp [h]
  | some step => simp [h]

theorem acceptedCodes_cons (m : Crypto) (userId : Nat) (commit : MfaCommit τ)
    (log : List (MfaCommit τ)) : acceptedCodes m userId (commit :: log) =
      (acceptedCode m userId commit).toList ++ acceptedCodes m userId log := by
  unfold acceptedCodes
  cases h : acceptedCode m userId commit with
  | none => simp [h]
  | some code => simp [h]

/-- The next accepted step is later than all before it, also where its commit
ends the enrollment. -/
theorem Spent.steps_cons (h : Spent m userId first commit.before log)
    (consumes : Consumes m userId commit) :
    (acceptedSteps m userId (commit :: log)).Pairwise (· > ·) ∧
      ∀ step ∈ acceptedSteps m userId (commit :: log), ∀ last,
        lastStep (first userId) = some last → last < step := by
  rw [acceptedSteps_cons]
  cases hstep : acceptedStep m userId commit with
  | none => exact ⟨h.decreasing, h.later⟩
  | some step =>
      -- the row's last step is the head of the steps so far, or the one at the start
      have above : ∀ s ∈ acceptedSteps m userId log, s < step := by
        intro s hs
        have hlast := h.last
        have hsorted := h.decreasing
        cases hsteps : acceptedSteps m userId log with
        | nil =>
            rw [hsteps] at hs
            cases hs
        | cons newest older =>
            rw [hsteps] at hs hlast hsorted
            have hnewest : newest < step := consumes.later step newest hstep hlast
            rcases List.mem_cons.mp hs with rfl | hold
            · exact hnewest
            · have := List.rel_of_pairwise_cons hsorted hold
              omega
      refine ⟨.cons above h.decreasing, ?_⟩
      intro s hs last hfirst
      rcases List.mem_cons.mp hs with rfl | hold
      · have hlast := h.last
        cases hsteps : acceptedSteps m userId log with
        | nil =>
            rw [hsteps, hfirst] at hlast
            exact consumes.later s last hstep hlast
        | cons newest older =>
            have hmem : newest ∈ acceptedSteps m userId log := by
              rw [hsteps]
              exact List.mem_cons_self
            have := h.later newest hmem last hfirst
            have := above newest hmem
            omega
      · exact h.later s hold last hfirst

theorem Spent.cons {m : Crypto} {userId : Nat} {first : Nat → Option MfaRow}
    {commit : MfaCommit τ} {log : List (MfaCommit τ)} (h : Spent m userId first commit.before log)
    (consumes : Consumes m userId commit) (lasts : endsEnrollment userId commit = false) :
    Spent m userId first commit.after (commit :: log) := by
  obtain ⟨decreasing, later⟩ := h.steps_cons consumes
  refine ⟨decreasing, later, ?_, ?_⟩
  · rw [consumes.step lasts, acceptedSteps_cons, h.last]
    cases acceptedStep m userId commit <;> rfl
  · rw [acceptedCodes_cons]
    have hspent := h.codes.trans ((consumes.codes lasts).append_left _)
    rw [List.append_assoc]
    exact hspent.trans (List.perm_append_comm_assoc _ _ _)

/-- No commit starts or ends an enrollment of the user. -/
def Lasts (userId : Nat) (log : List (MfaCommit τ)) : Prop :=
  ∀ commit ∈ log, endsEnrollment userId commit = false

theorem spent_of_linked {rows : Nat → Option MfaRow} (linked : Database.Linked first log rows)
    (posts : ∀ commit ∈ log,
      mfaPost m commit.call commit.result commit.before commit.changes) (lasts : Lasts userId log) :
    Spent m userId first rows log := by
  induction log generalizing rows with
  | nil =>
      cases linked
      exact ⟨.nil, by simp [acceptedSteps], rfl, .refl _⟩
  | cons commit log ih =>
      obtain ⟨rfl, hrest⟩ := linked
      unfold Lasts at lasts
      rw [List.forall_mem_cons] at posts lasts
      have spent := ih hrest posts.2 lasts.2
      exact spent.cons (commit_consumes posts.1 userId) lasts.1

/-- No code is accepted more often than it was listed. -/
theorem Spent.count_le {rows : Nat → Option MfaRow} (h : Spent m userId first rows log)
    (code : List UInt8) :
    (acceptedCodes m userId log).count code ≤ (storedCodes (first userId)).count code := by
  have hcount := h.codes.count_eq code
  rw [List.count_append] at hcount
  omega

theorem Spent.count_cons (h : Spent m userId first commit.before log)
    (consumes : Consumes m userId commit) (code : List UInt8) :
    (acceptedCodes m userId (commit :: log)).count code ≤
      (storedCodes (first userId)).count code := by
  rw [acceptedCodes_cons]
  cases hcode : acceptedCode m userId commit with
  | none => exact h.count_le code
  | some accepted =>
      have hcount := h.codes.count_eq code
      rw [List.count_append] at hcount
      show (accepted :: acceptedCodes m userId log).count code ≤ _
      rw [List.count_cons]
      by_cases hsame : accepted = code
      · subst hsame
        have hpos := List.count_pos_iff.mpr (consumes.listed accepted hcode)
        simp only [beq_self_eq_true, if_true]
        omega
      · simp only [beq_iff_eq, hsame, if_false]
        omega

/-- A step that was matched is at most one away from the clock's, and the input
is its code under the row's secret. -/
def CodeOf (m : Crypto) (row : MfaRow) (input : String) (now step : Int) : Prop :=
  (totpStep now - 1 ≤ step ∧ step ≤ totpStep now + 1) ∧ ∃ secret, secretOf m row = some secret ∧
    hotp m secret step = .ok (Text.trimChars input.toList)

theorem matchedStep_codeOf {input : String} {now step : Int}
    (h : matchedStep m row input now = some step) : CodeOf m row input now step := by
  unfold matchedStep at h
  split at h
  · cases h
  · rename_i secret hsecret
    split at h
    · rename_i found hmatch
      rw [h] at hmatch
      obtain ⟨window, hcode⟩ := matchTotp_some hmatch
      exact ⟨window, secret, hsecret, hcode⟩
    · cases h

/-- What the log says of an accepted code: the row it was accepted on was
enrolled at the caller's version, and the code is counted as a step or as a
listed code. -/
structure Accepted (m : Crypto) (commit : MfaCommit τ) (a : Acceptance) : Prop where
  row : ∃ row, commit.before a.userId = some row ∧ versionOf row.tokenVersion = a.tv ∧
    isEnrolled row = true ∧
    ((∃ step, acceptedStep m a.userId commit = some step ∧ CodeOf m row a.input a.now step) ∨
      ∃ code ∈ storedCodes (some row), acceptedCode m a.userId commit = some code ∧
        code = codeBytes (hashRecoveryCode m a.input))

theorem acceptance_accepts (h : mfaPost m commit.call commit.result commit.before commit.changes)
    (acc : acceptance commit = some a) :
    ∃ row row', commit.before a.userId = some row ∧ Accepts m a.tv a.input a.now row row' := by
  obtain ⟨writer, call, result, before, changes⟩ := commit
  cases result with
  | factor c =>
      cases call with
      | consume userId tv input now =>
          simp only [acceptance, Option.ite_none_right_eq_some, Option.some.injEq] at acc
          obtain ⟨hok, rfl⟩ := acc
          rcases h with ⟨hno, _⟩ | ⟨_, row, row', hrow, accepts, _⟩
          · rw [hok] at hno
            cases hno
          · exact ⟨row, row', hrow, accepts⟩
      | _ => exact h.elim
  | version v =>
      cases call with
      | disable userId callerVersion code now =>
          obtain ⟨tv, row, row', hversion, hrow, accepts, _⟩ := h
          subst hversion
          cases acc
          exact ⟨row, row', hrow, accepts⟩
      | _ => cases acc

theorem acceptance_accepted (h : mfaPost m commit.call commit.result commit.before commit.changes)
    (acc : acceptance commit = some a) : Accepted m commit a := by
  obtain ⟨row, row', before, accepts⟩ := acceptance_accepts h acc
  refine ⟨row, before, accepts.version, accepts.enrolled, ?_⟩
  have hconsumes := commit_consumes h a.userId
  have hstep : acceptedStep m a.userId commit =
      if secondFactorKind a.input = some .totp then matchedStep m row a.input a.now else none := by
    unfold acceptedStep
    rw [acceptanceOf_some acc rfl]
    split <;> simp [before]
  have hcode : acceptedCode m a.userId commit =
      if secondFactorKind a.input = some .recovery then
        some (codeBytes (hashRecoveryCode m a.input)) else none := by
    unfold acceptedCode
    rw [acceptanceOf_some acc rfl]
    split <;> rfl
  rcases accepts.effect with ⟨hkind, step, hmatched, _, _⟩ | ⟨hkind, index, hindex, _⟩
  · refine Or.inl ⟨step, ?_, matchedStep_codeOf hmatched⟩
    rw [hstep, if_pos hkind, hmatched]
  · rw [if_pos hkind] at hcode
    refine Or.inr ⟨_, ?_, hcode, rfl⟩
    have hlisted := hconsumes.listed _ hcode
    rw [before] at hlisted
    exact hlisted

/-! ## Every interleaving -/

variable [DecidableEq τ]

abbrev MfaStep (m : Crypto) (requiredRoles : List String) :
    MfaSystem τ → TxnLabel τ Nat Unit MfaCall → MfaSystem τ → Prop :=
  Database.Step (program m requiredRoles)

variable {requiredRoles : List String} {s : MfaSystem τ}

theorem reachable_posts (h : Runs.Reachable (Database.Started none) (MfaStep m requiredRoles) s) :
    s.Sound mfaGuarantee (mfaPost m) :=
  h.invariant (fun _ hs => Database.Started.sound hs (mfaPost m)) fun _ _ _ hs hm =>
    hm.step (mfa_ensures m requiredRoles) hs

/-- A call that was answered without an acceptance, or that was refused or
failed, changed no row. -/
structure Harmless (s : MfaSystem τ) : Prop where
  unaccepted : ∀ commit ∈ s.log, ∀ c, commit.result = .factor c → c.ok = false →
    commit.after = commit.before
  refused : ∀ t r, (t, r) ∈ s.replies → (r = .failed ∨ ∃ e, r = .refused e) →
    ∀ commit ∈ s.log, commit.writer ≠ t
  answered : ∀ t c, (t, Reply.ok (.factor c)) ∈ s.replies →
    ∃ commit ∈ s.log, commit.writer = t ∧ commit.result = .factor c

theorem reachable_harmless
    (h : Runs.Reachable (Database.Started none) (MfaStep m requiredRoles) s) : Harmless s := by
  have sound := reachable_posts h
  have traced : s.Traced :=
    h.invariant (fun _ hs => hs.traced) fun _ _ _ hs hm => hm.step hs
  refine ⟨?_, ?_, ?_⟩
  · intro commit hc c hresult hno
    have hpost := (sound.logged commit hc).2
    obtain ⟨writer, call, result, before, changes⟩ := commit
    subst hresult
    cases call with
    | consume userId tv input now =>
        rcases hpost with ⟨_, hnone⟩ | ⟨hok, _⟩
        · change changes = _ at hnone
          subst hnone
          rfl
        · rw [hno] at hok
          cases hok
    | _ => exact hpost.elim
  · intro t r hr hne
    exact (traced.refused t r hr hne).2
  · intro t c hr
    obtain ⟨call, phase, _, commit, hc, hw, _, hresult⟩ := sound.answered t _ hr
    exact ⟨commit, hc, hw, hresult⟩

/-- Second factors are single use. Along every run from every reachable state,
for every user: as long as no enrollment of theirs starts or ends, and up to the
commit that ends it, the steps of their accepted codes increase, all of them
later than the last step before, and no recovery code is accepted more often
than it was listed; the codes still listed are the others. Every accepted code
was accepted at the caller's token version, and a call that accepts nothing
changes nothing. -/
theorem second_factors_single_use (m : Crypto) (requiredRoles : List String) (s s' : MfaSystem τ)
    (labels : List (TxnLabel τ Nat Unit MfaCall))
    (h : Runs.Reachable (Database.Started none) (MfaStep m requiredRoles) s)
    (hr : Runs.Run (MfaStep m requiredRoles) s labels s') :
    (∃ new, s'.log = new ++ s.log ∧
      (∀ userId, Lasts userId new.tail →
        (acceptedSteps m userId new).Pairwise (· > ·) ∧
        (∀ step ∈ acceptedSteps m userId new, ∀ last,
          lastStep (s.rows userId) = some last → last < step) ∧
        ∀ code, (acceptedCodes m userId new).count code ≤
          (storedCodes (s.rows userId)).count code) ∧
      (∀ userId, Lasts userId new →
        (storedCodes (s.rows userId)).Perm
          (acceptedCodes m userId new ++ storedCodes (s'.rows userId)) ∧
        lastStep (s'.rows userId) =
          (acceptedSteps m userId new).head?.or (lastStep (s.rows userId)))) ∧
    (∀ commit ∈ s'.log, ∀ a, acceptance commit = some a → Accepted m commit a) ∧
    Harmless s' := by
  have reached : Runs.Reachable (Database.Started none) (MfaStep m requiredRoles) s' := by
    obtain ⟨first, before, hfirst, hbefore⟩ := h
    exact ⟨first, before ++ labels, hfirst, hbefore.append hr⟩
  have sound := reachable_posts reached
  refine ⟨?_, ?_, reachable_harmless reached⟩
  · obtain ⟨new, hlog, linked⟩ := Database.run_linked hr
    have posts : ∀ commit ∈ new,
        mfaPost m commit.call commit.result commit.before commit.changes := by
      intro commit hc
      refine (sound.logged commit ?_).2
      rw [hlog]
      exact List.mem_append_left _ hc
    refine ⟨new, hlog, ?_, ?_⟩
    · intro userId lasts
      cases new with
      | nil => exact ⟨.nil, by simp [acceptedSteps], by simp [acceptedCodes]⟩
      | cons commit earlier =>
          rw [List.forall_mem_cons] at posts
          have spent := spent_of_linked linked.2 posts.2 lasts
          have consumes := commit_consumes posts.1 userId
          obtain ⟨decreasing, later⟩ := spent.steps_cons consumes
          exact ⟨decreasing, later, spent.count_cons consumes⟩
    · intro userId lasts
      have spent := spent_of_linked linked posts lasts
      exact ⟨spent.codes, spent.last⟩
  · intro commit hc a acc
    exact acceptance_accepted (sound.logged commit hc).2 acc

end Commits

/-! ## Two codes, each entered twice -/

/-- A crypto whose codes are easy to name. -/
def sampleCrypto : Crypto where
  hmacSha1 := fun _ _ _ => 0
  sha256 := fun text => text.toList.map fun c => UInt8.ofNat c.toNat
  decrypt := fun sealed => if sealed = "sealed" then some "MFRGG" else none

def sampleRecovery : String := "abcd-efgh-2345-6777"

/-- User 1 is enrolled, at version 0 and with one recovery code. -/
def sampleRow : MfaRow where
  roleType := some "editor"
  tokenVersion := some 0
  totpSecret := some "sealed"
  totpEnabledAt := some 0
  totpLastStep := some 7
  totpRecoveryCodes := .arr [.str (hashRecoveryCode sampleCrypto sampleRecovery)]

def sampleBoot : MfaSystem Nat where
  rows := fun key => if key = 1 then some sampleRow else none
  keys := [1]
  holder := fun _ => none
  draft := fun _ _ => none
  phase := fun _ => none
  env := ()
  log := []
  replies := []

/-- One sign-in of user 1: the transaction's statements, COMMIT and its answer. -/
def sampleSignIn (t : Nat) (input : String) (statements : Nat) :
    List (TxnLabel Nat Nat Unit MfaCall) :=
  [.begin t (.consume 1 0 input 300000)] ++ List.replicate statements (.run t 0) ++
    [.commit t, .confirm t]

def sampleLabels : List (TxnLabel Nat Nat Unit MfaCall) :=
  sampleSignIn 0 "000000" 4 ++ sampleSignIn 1 "000000" 4 ++
  sampleSignIn 2 sampleRecovery 4 ++ sampleSignIn 3 sampleRecovery 3

def sampleEnd : MfaSystem Nat :=
  (Runs.follow (Database.next (program sampleCrypto [])) sampleBoot sampleLabels).getD sampleBoot

theorem sampleBoot_started : sampleBoot.Started none := by
  refine ⟨?_, fun _ => rfl, fun _ _ => rfl, fun _ => rfl, rfl, rfl⟩
  intro k hk
  have hne : k ≠ 1 := fun heq => hk (heq ▸ List.mem_cons_self)
  exact if_neg hne

theorem sampleEnd_run :
    Runs.Run (MfaStep sampleCrypto []) sampleBoot sampleLabels sampleEnd := by
  have hrun : Runs.follow (Database.next (program sampleCrypto [])) sampleBoot sampleLabels =
      some sampleEnd := by
    have hsome : (Runs.follow (Database.next (program sampleCrypto [])) sampleBoot
        sampleLabels).isSome = true := by
      decide +kernel
    obtain ⟨last, hlast⟩ := Option.isSome_iff_exists.mp hsome
    rw [sampleEnd, hlast]
    rfl
  exact Runs.run_of_follow hrun

theorem second_factors_single_use_two_codes :
    (acceptedSteps sampleCrypto 1 sampleEnd.log = [11] ∧
      (acceptedCodes sampleCrypto 1 sampleEnd.log).length = 1 ∧
      sampleEnd.replies.map (fun reply => reply.2) = [.ok (.factor ⟨true, some .totp, none⟩),
        .ok (.factor notConsumed), .ok (.factor ⟨true, some .recovery, some 0⟩),
        .ok (.factor notConsumed)]) ∧
    (∀ commit ∈ sampleEnd.log, ∀ a, acceptance commit = some a →
      Accepted sampleCrypto commit a) ∧
    Harmless sampleEnd := by
  have start : Runs.Reachable (Database.Started none) (MfaStep sampleCrypto []) sampleBoot :=
    ⟨sampleBoot, [], sampleBoot_started, .refl _⟩
  have all := second_factors_single_use sampleCrypto [] sampleBoot sampleEnd sampleLabels start
    sampleEnd_run
  exact ⟨by decide +kernel, all.2⟩

end Sinnlos.Cms.Mfa

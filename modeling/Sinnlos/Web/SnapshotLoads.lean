import Sinnlos.Lib.Runs

/-!
# Overlapping loads of a snapshot

Each load takes a number, and its answer is applied unless that of a newer load was
(`apps/web/src/lib/optimistic.ts`). What an answer does after it has arrived runs to its
end before anything else.
-/

namespace Sinnlos.Web.Optimistic

open Runs

/-! ## The guard -/

structure SeqGuard where
  lastIssuedSeq : Nat
  lastAppliedSeq : Nat
deriving DecidableEq

def createSeqGuard : SeqGuard := ⟨0, 0⟩

/-- The next number, and the guard that has issued it. -/
def SeqGuard.begin (guard : SeqGuard) : Nat × SeqGuard :=
  (guard.lastIssuedSeq + 1, { guard with lastIssuedSeq := guard.lastIssuedSeq + 1 })

/-- Whether an answer is to be applied. -/
def SeqGuard.commit (guard : SeqGuard) (seq : Nat) : Bool × SeqGuard :=
  if seq ≤ guard.lastAppliedSeq then (false, guard)
  else (true, { guard with lastAppliedSeq := seq })

/-! ## Loads -/

universe u
variable {α : Type u}

/-- How far an `applyLatest` is, and what it resolves to or rejects. -/
inductive Stage (α : Type u)
  | pending
  | failed
  | dropped (value : α)
  | applied (value : α)
deriving DecidableEq

structure Load (α : Type u) where
  seq : Nat
  stage : Stage α
deriving DecidableEq

/-- The value of a load that succeeded, with its number. -/
def Load.answer (load : Load α) : Option (Nat × α) :=
  match load.stage with
  | .pending => none
  | .failed => none
  | .dropped value => some (load.seq, value)
  | .applied value => some (load.seq, value)

/-- One guard, its loads in the order in which they began, and every value given to
`apply` so far with the number of its load. -/
structure Snapshots (α : Type u) where
  guard : SeqGuard
  loads : List (Load α)
  applied : List (Nat × α)
deriving DecidableEq

def Snapshots.new : Snapshots α := ⟨createSeqGuard, [], []⟩

inductive LoadEvent (α : Type u)
  | begin
  | answer (load : Nat) (value : α)
  | fail (load : Nat)
deriving DecidableEq

namespace Snapshots

/-- `applyLatest` up to its `await`. -/
def begin (s : Snapshots α) : Snapshots α :=
  { s with guard := s.guard.begin.2, loads := s.loads ++ [⟨s.guard.begin.1, .pending⟩] }

/-- `applyLatest` from its `await` on. -/
def resume (s : Snapshots α) (load seq : Nat) (value : α) : Snapshots α :=
  if (s.guard.commit seq).1 then
    { guard := (s.guard.commit seq).2
      loads := s.loads.set load ⟨seq, .applied value⟩
      applied := s.applied ++ [(seq, value)] }
  else { s with loads := s.loads.set load ⟨seq, .dropped value⟩ }

/-- What an event does, or none when it cannot happen now. -/
def step (s : Snapshots α) : LoadEvent α → Option (Snapshots α)
  | .begin => some s.begin
  | .answer load value =>
      match s.loads[load]? with
      | some ⟨seq, .pending⟩ => some (s.resume load seq value)
      | _ => none
  | .fail load =>
      match s.loads[load]? with
      | some ⟨seq, .pending⟩ => some { s with loads := s.loads.set load ⟨seq, .failed⟩ }
      | _ => none

/-- The answers so far, in the order in which their loads began. -/
def answers (s : Snapshots α) : List (Nat × α) := s.loads.filterMap Load.answer

end Snapshots

def SnapshotStep (s : Snapshots α) (event : LoadEvent α) (t : Snapshots α) : Prop :=
  s.step event = some t

def Snapshots.Initial (s : Snapshots α) : Prop := s = .new

variable {s t : Snapshots α}

/-! ## What an event does -/

variable {load : Load α} {seq : Nat}

/-- A load at its place, with what came before and after it. -/
theorem split_at {loads : List (Load α)} {i : Nat} (h : loads[i]? = some load) :
    ∃ before after, loads = before ++ load :: after ∧
      ∀ other, loads.set i other = before ++ other :: after := by
  obtain ⟨hlt, hget⟩ := List.getElem?_eq_some_iff.mp h
  refine ⟨loads.take i, loads.drop (i + 1), ?_, ?_⟩
  · rw [← hget, List.getElem_cons_drop hlt, List.take_append_drop]
  · intro other
    rw [List.set_eq_take_append_cons_drop, if_pos hlt]

variable {event : LoadEvent α} {guard : SeqGuard} {entry : Nat × α} {before after : List (Load α)}

/-- An event begins a load or settles one that is pending. -/
theorem step_cases (h : SnapshotStep s event t) :
    t = s.begin ∨
      ∃ before after seq, s.loads = before ++ ⟨seq, .pending⟩ :: after ∧
        ((∃ value, (s.guard.commit seq).1 = true ∧
            t = ⟨(s.guard.commit seq).2, before ++ ⟨seq, .applied value⟩ :: after,
              s.applied ++ [(seq, value)]⟩) ∨
          (∃ value, (s.guard.commit seq).1 = false ∧
            t = { s with loads := before ++ ⟨seq, .dropped value⟩ :: after }) ∨
          t = { s with loads := before ++ ⟨seq, .failed⟩ :: after }) := by
  cases event with
  | begin => exact Or.inl (Option.some.inj h).symm
  | answer load value =>
      right
      simp only [SnapshotStep, Snapshots.step] at h
      split at h
      · rename_i seq hload
        obtain ⟨before, after, hloads, hset⟩ := split_at hload
        refine ⟨before, after, seq, hloads, ?_⟩
        have ht : s.resume load seq value = t := Option.some.inj h
        rw [Snapshots.resume, hset, hset] at ht
        cases hcommit : (s.guard.commit seq).1 with
        | true =>
            rw [hcommit, if_pos rfl] at ht
            exact Or.inl ⟨value, rfl, ht.symm⟩
        | false =>
            rw [hcommit, if_neg Bool.false_ne_true] at ht
            exact Or.inr (Or.inl ⟨value, rfl, ht.symm⟩)
      · cases h
  | fail load =>
      right
      simp only [SnapshotStep, Snapshots.step] at h
      split at h
      · rename_i seq hload
        obtain ⟨before, after, hloads, hset⟩ := split_at hload
        refine ⟨before, after, seq, hloads, ?_⟩
        rw [hset] at h
        exact Or.inr (Or.inr (Option.some.inj h).symm)
      · cases h

theorem commit_of_le (h : seq ≤ guard.lastAppliedSeq) :
    guard.commit seq = (false, guard) := if_pos h

theorem commit_of_lt (h : guard.lastAppliedSeq < seq) :
    guard.commit seq = (true, { guard with lastAppliedSeq := seq }) := if_neg (by omega)

/-! ## The newest answer -/

/-- The loads are numbered as they began, and the last answer that was applied is the
newest one there is. -/
structure Ordered (s : Snapshots α) : Prop where
  numbered : s.loads.Pairwise fun a b => a.seq < b.seq
  issued : ∀ load ∈ s.loads, 0 < load.seq ∧ load.seq ≤ s.guard.lastIssuedSeq
  increasing : (s.applied.map Prod.fst).Pairwise (· < ·)
  newest : s.applied.getLast? = s.answers.getLast?
  last : s.guard.lastAppliedSeq = (s.applied.getLast?.map Prod.fst).getD 0

theorem seq_of_answer (h : load.answer = some entry) : entry.1 = load.seq := by
  unfold Load.answer at h
  split at h
  · cases h
  · cases h
  · rw [← Option.some.inj h]
  · rw [← Option.some.inj h]

/-- An applied answer is not newer than the last one. -/
theorem Ordered.le_last (ordered : Ordered s) (h : entry ∈ s.applied) :
    entry.1 ≤ s.guard.lastAppliedSeq := by
  have hlast := ordered.last
  have hincreasing := ordered.increasing
  cases happlied : s.applied.getLast? with
  | none =>
      rw [List.getLast?_eq_none_iff.mp happlied] at h
      cases h
  | some newest =>
      obtain ⟨older, heq⟩ := List.getLast?_eq_some_iff.mp happlied
      rw [happlied, Option.map_some, Option.getD_some] at hlast
      rw [heq, List.map_append, List.pairwise_append] at hincreasing
      rw [heq] at h
      rcases List.mem_append.mp h with hold | hnew
      · have hlt := hincreasing.2.2 entry.1 (List.mem_map_of_mem hold) newest.1 (by simp)
        omega
      · rw [List.mem_singleton.mp hnew]
        omega

/-- What replaces a load at its place leaves the numbers as they were. -/
theorem Ordered.numbered_of_eq (ordered : Ordered s) (hloads : s.loads = before ++ load :: after)
    (other : Load α) (hseq : other.seq = load.seq) :
    (before ++ other :: after).Pairwise (fun a b => a.seq < b.seq) ∧
      ∀ x ∈ before ++ other :: after, 0 < x.seq ∧ x.seq ≤ s.guard.lastIssuedSeq := by
  have hnumbered := ordered.numbered
  have hissued := ordered.issued
  rw [hloads] at hnumbered hissued
  constructor
  · rw [List.pairwise_append, List.pairwise_cons] at hnumbered ⊢
    refine ⟨hnumbered.1, ⟨?_, hnumbered.2.1.2⟩, ?_⟩
    · intro x hx
      rw [hseq]
      exact hnumbered.2.1.1 x hx
    · intro x hx y hy
      rcases List.mem_cons.mp hy with heq | hafter
      · rw [heq, hseq]
        exact hnumbered.2.2 x hx load List.mem_cons_self
      · exact hnumbered.2.2 x hx y (List.mem_cons_of_mem load hafter)
  · intro x hx
    rcases List.mem_append.mp hx with hbefore | hrest
    · exact hissued x (List.mem_append_left _ hbefore)
    · rcases List.mem_cons.mp hrest with heq | hafter
      · rw [heq, hseq]
        exact hissued load (List.mem_append_right _ List.mem_cons_self)
      · exact hissued x (List.mem_append_right _ (List.mem_cons_of_mem load hafter))

theorem ordered_begin (ordered : Ordered s) : Ordered s.begin := by
  have hissued := ordered.issued
  constructor
  · show (s.loads ++ [_]).Pairwise _
    rw [List.pairwise_append]
    refine ⟨ordered.numbered, List.pairwise_singleton _ _, ?_⟩
    intro a ha b hb
    rw [List.mem_singleton.mp hb]
    have hle := (hissued a ha).2
    show a.seq < s.guard.lastIssuedSeq + 1
    omega
  · intro load hload
    show 0 < load.seq ∧ load.seq ≤ s.guard.lastIssuedSeq + 1
    rcases List.mem_append.mp hload with hold | hnew
    · have hload := hissued load hold
      omega
    · rw [List.mem_singleton.mp hnew]
      show 0 < s.guard.lastIssuedSeq + 1 ∧ s.guard.lastIssuedSeq + 1 ≤ s.guard.lastIssuedSeq + 1
      omega
  · exact ordered.increasing
  · have hanswers : s.begin.answers = s.answers := by
      show (s.loads ++ [_]).filterMap Load.answer = _
      rw [List.filterMap_append]
      exact List.append_nil _
    rw [hanswers]
    exact ordered.newest
  · exact ordered.last

/-- An answer is accepted exactly when no load that began later has been answered. -/
theorem Ordered.commit_iff (ordered : Ordered s)
    (hloads : s.loads = before ++ ⟨seq, .pending⟩ :: after) :
    (s.guard.commit seq).1 = true ↔ after.filterMap Load.answer = [] := by
  have hanswers : s.answers =
      before.filterMap Load.answer ++ after.filterMap Load.answer := by
    rw [Snapshots.answers, hloads, List.filterMap_append, List.filterMap_cons]
    rfl
  have hnumbered := ordered.numbered
  have hpos : 0 < seq := by
    have hmem : (⟨seq, .pending⟩ : Load α) ∈ s.loads := by
      rw [hloads]
      exact List.mem_append_right _ List.mem_cons_self
    exact (ordered.issued _ hmem).1
  have hlast := ordered.last
  rw [hloads, List.pairwise_append, List.pairwise_cons] at hnumbered
  rw [ordered.newest, hanswers] at hlast
  have hseq {list : List (Load α)} {entry : Nat × α}
      (h : (list.filterMap Load.answer).getLast? = some entry) :
      ∃ load ∈ list, entry.1 = load.seq := by
    obtain ⟨load, hload, hanswer⟩ := List.mem_filterMap.mp (List.mem_of_getLast? h)
    exact ⟨load, hload, seq_of_answer hanswer⟩
  constructor
  · intro haccepted
    by_contra hlater
    obtain ⟨entry, hentry⟩ : ∃ entry, (after.filterMap Load.answer).getLast? = some entry :=
      Option.ne_none_iff_exists'.mp (mt List.getLast?_eq_none_iff.mp hlater)
    obtain ⟨load, hload, hnumber⟩ := hseq hentry
    have hlt := hnumbered.2.1.1 load hload
    dsimp only at hlt
    rw [List.getLast?_append, hentry, Option.some_or, Option.map_some, Option.getD_some] at hlast
    rw [commit_of_le (by omega)] at haccepted
    cases haccepted
  · intro hnone
    rw [hnone, List.append_nil] at hlast
    cases hentry : (before.filterMap Load.answer).getLast? with
    | none =>
        rw [hentry, Option.map_none, Option.getD_none] at hlast
        rw [commit_of_lt (by omega)]
    | some entry =>
        obtain ⟨load, hload, hnumber⟩ := hseq hentry
        have hlt := hnumbered.2.2 load hload ⟨seq, .pending⟩ List.mem_cons_self
        dsimp only at hlt
        rw [hentry, Option.map_some, Option.getD_some] at hlast
        rw [commit_of_lt (by omega)]

theorem ordered_step (hstep : SnapshotStep s event t) (ordered : Ordered s) : Ordered t := by
  rcases step_cases hstep with hbegin | ⟨before, after, seq, hloads, hsettled⟩
  · rw [hbegin]
    exact ordered_begin ordered
  have hanswers : s.answers = before.filterMap Load.answer ++ after.filterMap Load.answer := by
    rw [Snapshots.answers, hloads, List.filterMap_append, List.filterMap_cons]
    rfl
  have hiff := ordered.commit_iff hloads
  rcases hsettled with ⟨value, haccepted, ht⟩ | ⟨value, hrefused, ht⟩ | ht
  · have hkept := ordered.numbered_of_eq hloads ⟨seq, .applied value⟩ rfl
    have hlt : s.guard.lastAppliedSeq < seq := by
      by_contra hle
      rw [commit_of_le (by omega)] at haccepted
      cases haccepted
    rw [commit_of_lt hlt] at ht
    rw [ht]
    constructor
    · exact hkept.1
    · exact hkept.2
    · show ((s.applied ++ [(seq, value)]).map Prod.fst).Pairwise (· < ·)
      rw [List.map_append, List.pairwise_append]
      refine ⟨ordered.increasing, List.pairwise_singleton _ _, ?_⟩
      intro a ha b hb
      obtain ⟨entry, hentry, hnumber⟩ := List.mem_map.mp ha
      have hle := ordered.le_last hentry
      have hb : b = seq := List.mem_singleton.mp hb
      omega
    · show (s.applied ++ [(seq, value)]).getLast? =
        ((before ++ ⟨seq, .applied value⟩ :: after).filterMap Load.answer).getLast?
      rw [List.filterMap_append, List.filterMap_cons, hiff.mp haccepted, List.getLast?_concat]
      exact List.getLast?_concat.symm
    · show seq = ((s.applied ++ [(seq, value)]).getLast?.map Prod.fst).getD 0
      rw [List.getLast?_concat]
      rfl
  · have hkept := ordered.numbered_of_eq hloads ⟨seq, .dropped value⟩ rfl
    have hlater : after.filterMap Load.answer ≠ [] := by
      intro hnone
      rw [hiff.mpr hnone] at hrefused
      cases hrefused
    rw [ht]
    refine ⟨hkept.1, hkept.2, ordered.increasing, ?_, ordered.last⟩
    show s.applied.getLast? =
      ((before ++ ⟨seq, .dropped value⟩ :: after).filterMap Load.answer).getLast?
    obtain ⟨entry, hentry⟩ : ∃ entry, (after.filterMap Load.answer).getLast? = some entry :=
      Option.ne_none_iff_exists'.mp (mt List.getLast?_eq_none_iff.mp hlater)
    rw [ordered.newest, hanswers, List.filterMap_append, List.getLast?_append,
      List.getLast?_append, hentry]
    simp [Load.answer, List.getLast?_cons, hentry]
  · have hkept := ordered.numbered_of_eq hloads ⟨seq, .failed⟩ rfl
    have hsame : t.answers = s.answers := by
      rw [ht, hanswers]
      show (before ++ ⟨seq, .failed⟩ :: after).filterMap Load.answer = _
      rw [List.filterMap_append, List.filterMap_cons]
      rfl
    rw [ht] at hsame ⊢
    exact ⟨hkept.1, hkept.2, ordered.increasing, ordered.newest.trans (congrArg _ hsame.symm),
      ordered.last⟩

/-- In whatever order loads are answered and fail, the numbers of the answers that are
applied increase, and the last one applied is that of the load that began last among
those that succeeded. -/
theorem lateAnswers_dropped (h : Reachable Snapshots.Initial SnapshotStep s) :
    (s.applied.map Prod.fst).Pairwise (· < ·) ∧
      s.applied.getLast? = (s.loads.filterMap Load.answer).getLast? := by
  have ordered : Ordered s := by
    apply h.invariant
    · intro first hfirst
      rw [hfirst]
      exact ⟨List.Pairwise.nil, fun load hload => absurd hload List.not_mem_nil,
        List.Pairwise.nil, rfl, rfl⟩
    · intro a event b hstep hordered
      exact ordered_step hstep hordered
  exact ⟨ordered.increasing, ordered.newest⟩

/-- Of three loads the newest fails, and the oldest is answered last. -/
def overlapping : List (LoadEvent Bool) :=
  [.begin, .begin, .begin, .answer 1 true, .fail 2, .answer 0 false]

theorem lateAnswers_dropped_overlapping :
    ∃ s : Snapshots Bool, Run SnapshotStep .new overlapping s ∧ s.applied = [(2, true)] ∧
      (s.applied.map Prod.fst).Pairwise (· < ·) ∧
      s.applied.getLast? = (s.loads.filterMap Load.answer).getLast? := by
  refine ⟨⟨⟨3, 2⟩, [⟨1, .dropped false⟩, ⟨2, .applied true⟩, ⟨3, .failed⟩], [(2, true)]⟩,
    ?_, rfl, ?_⟩
  · exact run_of_follow (by decide)
  · exact lateAnswers_dropped ⟨.new, overlapping, rfl, run_of_follow (by decide)⟩

end Sinnlos.Web.Optimistic

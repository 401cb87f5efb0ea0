import Sinnlos.Cms.SearchIndex

/-! # What stands in the queue

The tasks the runs of one process leave in Meilisearch's queue, those of runs
that failed included: a swap comes first and finds a finished build index, and
behind it nothing but deletes of the build index. What executing the oldest
task then does to the live index.
-/

namespace Sinnlos.Cms.Search

/-- The tasks a rebuild sends. -/
inductive Sent : MeiliTask → Prop
  | delete : Sent (.delete .build)
  | create : Sent (.create .build)
  | settings : Sent (.settings .build)
  | addDocuments (documents : List SearchIndexDocument) : Sent (.addDocuments .build documents)
  | createLive : Sent (.create .live)
  | swap : Sent (.swap .live .build)

variable {task : MeiliTask} {loads : List (List SearchIndexDocument)} {first : QueuedTask}
  {rest : List QueuedTask} {meili : Meili}

theorem Rebuild.sent {job : Rebuild} (h : job.request = some task) : Sent task := by
  unfold Rebuild.request at h
  split at h <;> cases h
  · exact .delete
  · exact .create
  · exact .settings
  · exact .addDocuments _
  · exact .createLive
  · exact .swap
  · exact .delete

def SwapFree (queue : List QueuedTask) : Prop := ∀ task ∈ queue, task.task ≠ .swap .live .build

/-- A swap that is first in the queue: the build index holds one load, and
behind it stand deletes of the build index alone. -/
structure SwapFirst (index : Indexes) (loads : List (List SearchIndexDocument))
    (queue : List QueuedTask) : Prop where
  shape : ∃ first rest, queue = first :: rest ∧ first.task = .swap .live .build ∧
    ∀ task ∈ rest, task.task = .delete .build
  build : ∃ documents ∈ loads, index .build = some (contentOf documents)
  live : (index .live).isSome

/-- What the queue and the results always look like. -/
structure QueueOk (meili : Meili) (loads : List (List SearchIndexDocument)) : Prop where
  sent : ∀ task ∈ meili.queue, Sent task.task
  uids : ∀ task ∈ meili.queue, task.uid < meili.nextUid
  ordered : meili.queue.Pairwise fun a b => a.uid < b.uid
  pending : ∀ task ∈ meili.queue, meili.status task.uid = .enqueued
  unsent : ∀ uid, meili.nextUid ≤ uid → meili.status uid = .enqueued
  shape : SwapFree meili.queue ∨ SwapFirst meili.index loads meili.queue

theorem SwapFree.tail {first : QueuedTask} {rest : List QueuedTask}
    (h : SwapFree (first :: rest)) : SwapFree rest :=
  fun task htask => h task (List.mem_cons_of_mem _ htask)

theorem SwapFirst.rest_free {index : Indexes} (h : SwapFirst index loads (first :: rest)) :
    SwapFree rest := by
  obtain ⟨_, _, heq, _, hdeletes⟩ := h.shape
  cases heq
  intro task htask hswap
  have hdelete := hdeletes task htask
  rw [hswap] at hdelete
  cases hdelete

/-- Behind the oldest task there is no swap. -/
theorem QueueOk.rest_free (h : QueueOk meili loads) (hqueue : meili.queue = first :: rest) :
    SwapFree rest := by
  have hshape := h.shape
  rw [hqueue] at hshape
  rcases hshape with hfree | hfirst
  · exact hfree.tail
  · exact hfirst.rest_free

/-- A swap that is the oldest task finds both indexes, and one load in the
build index. -/
theorem QueueOk.swap_ready (h : QueueOk meili loads) (hqueue : meili.queue = first :: rest)
    (hswap : first.task = .swap .live .build) :
    (∃ documents ∈ loads, meili.index .build = some (contentOf documents)) ∧
      (meili.index .live).isSome := by
  rcases h.shape with hfree | hfirst
  · have hmem : first ∈ meili.queue := hqueue ▸ List.mem_cons_self
    exact absurd hswap (hfree first hmem)
  · exact ⟨hfirst.build, hfirst.live⟩

/-- A build index that is not there is in no swap's way. -/
theorem QueueOk.free_of_missing (h : QueueOk meili loads) (hbuild : meili.index .build = none) :
    SwapFree meili.queue := by
  rcases h.shape with hfree | hfirst
  · exact hfree
  · obtain ⟨documents, _, hsome⟩ := hfirst.build
    rw [hbuild] at hsome
    cases hsome

theorem QueueOk.loaded (h : QueueOk meili loads) (documents : List SearchIndexDocument) :
    QueueOk meili (documents :: loads) := by
  refine ⟨h.sent, h.uids, h.ordered, h.pending, h.unsent, ?_⟩
  rcases h.shape with hfree | hfirst
  · exact Or.inl hfree
  · obtain ⟨found, hmem, hbuild⟩ := hfirst.build
    exact Or.inr ⟨hfirst.shape, ⟨found, List.mem_cons_of_mem _ hmem, hbuild⟩, hfirst.live⟩

/-- An accepted task goes to the end. -/
theorem QueueOk.enqueue (h : QueueOk meili loads) (run : Nat) (hsent : Sent task)
    (hshape : SwapFree (meili.enqueue run task).queue ∨
      SwapFirst meili.index loads (meili.enqueue run task).queue) :
    QueueOk (meili.enqueue run task) loads := by
  constructor
  · intro queued hqueued
    rcases List.mem_append.mp hqueued with hold | hnew
    · exact h.sent queued hold
    · cases List.mem_singleton.mp hnew
      exact hsent
  · intro queued hqueued
    show queued.uid < meili.nextUid + 1
    rcases List.mem_append.mp hqueued with hold | hnew
    · have huid := h.uids queued hold
      omega
    · cases List.mem_singleton.mp hnew
      exact Nat.lt_succ_self _
  · show (meili.queue ++ [_]).Pairwise _
    rw [List.pairwise_append]
    refine ⟨h.ordered, List.pairwise_singleton _ _, ?_⟩
    intro old hold new hnew
    cases List.mem_singleton.mp hnew
    exact h.uids old hold
  · intro queued hqueued
    rcases List.mem_append.mp hqueued with hold | hnew
    · exact h.pending queued hold
    · cases List.mem_singleton.mp hnew
      exact h.unsent _ (Nat.le_refl _)
  · intro uid huid
    have hle : meili.nextUid ≤ uid := Nat.le_of_succ_le huid
    exact h.unsent uid hle
  · exact hshape

/-- The oldest task is executed, whatever comes of it. -/
theorem QueueOk.settled (h : QueueOk meili loads) (hqueue : meili.queue = first :: rest)
    (outcome : Except String Indexes) : QueueOk (meili.settled first rest outcome) loads := by
  have hmem {task : QueuedTask} (htask : task ∈ rest) : task ∈ meili.queue :=
    hqueue ▸ List.mem_cons_of_mem _ htask
  have hordered := h.ordered
  rw [hqueue, List.pairwise_cons] at hordered
  constructor
  · exact fun task htask => h.sent task (hmem htask)
  · exact fun task htask => h.uids task (hmem htask)
  · exact hordered.2
  · intro task htask
    have hlater := hordered.1 task htask
    have hne : task.uid ≠ first.uid := by omega
    show Function.update meili.status first.uid _ task.uid = _
    rw [Function.update_of_ne hne]
    exact h.pending task (hmem htask)
  · intro uid huid
    have hle : meili.nextUid ≤ uid := huid
    have hfirst := h.uids first (hqueue ▸ List.mem_cons_self)
    have hne : uid ≠ first.uid := by omega
    show Function.update meili.status first.uid _ uid = _
    rw [Function.update_of_ne hne]
    exact h.unsent uid hle
  · exact Or.inl (h.rest_free hqueue)

/-! ## The live index -/

/-- What the live index is: up to the first swap what it was at the start, or
empty where there was none; from then on exactly the documents of one load. -/
def LiveOk (first : Option Content) (live : Option Content) (swapped : List Nat)
    (loads : List (List SearchIndexDocument)) : Prop :=
  if swapped = [] then live = first ∨ (first = none ∧ live = some noDocuments)
  else ∃ documents ∈ loads, live = some (contentOf documents)

variable {swapped : List Nat}

theorem LiveOk.loaded {first live : Option Content} (h : LiveOk first live swapped loads)
    (documents : List SearchIndexDocument) : LiveOk first live swapped (documents :: loads) := by
  unfold LiveOk at *
  split at h
  · rwa [if_pos ‹_›]
  · obtain ⟨found, hmem, hlive⟩ := h
    rw [if_neg ‹_›]
    exact ⟨found, List.mem_cons_of_mem _ hmem, hlive⟩

/-- The effect of an executed task on the live index. -/
inductive LiveEffect (index index' : Indexes) (task : MeiliTask)
    (outcome : Except String Indexes) : Prop
  | kept (live : index' .live = index .live)
      (quiet : ¬ (task = .swap .live .build ∧ statusOf outcome = .succeeded))
  | created (before : index .live = none) (after : index' .live = some noDocuments)
      (quiet : task ≠ .swap .live .build)
  | swapped (task : task = .swap .live .build) (done : statusOf outcome = .succeeded)
      (live : index' .live = index .build)

/-- Every task a rebuild sends leaves the live index alone, creates it, or
swaps it. -/
theorem live_effect (index : Indexes) (hsent : Sent task) (failure : Option String) :
    LiveEffect index ((task.outcome index failure).toOption.getD index) task
      (task.outcome index failure) := by
  have hne : IndexName.live ≠ .build := by decide
  cases failure with
  | some code => exact .kept rfl fun h => by cases h.2
  | none =>
      show LiveEffect index ((task.run index).toOption.getD index) task (task.run index)
      cases hsent with
      | delete =>
          refine .kept ?_ fun h => by cases h.1
          dsimp only [MeiliTask.run]
          split
          · exact Function.update_of_ne hne _ _
          · rfl
      | create =>
          refine .kept ?_ fun h => by cases h.1
          dsimp only [MeiliTask.run]
          split
          · rfl
          · exact Function.update_of_ne hne _ _
      | settings => exact .kept (Function.update_of_ne hne _ _) fun h => by cases h.1
      | addDocuments documents =>
          exact .kept (Function.update_of_ne hne _ _) fun h => by cases h.1
      | createLive =>
          dsimp only [MeiliTask.run]
          by_cases hlive : (index .live).isSome
          · rw [if_pos hlive]
            exact .kept rfl fun h => by cases h.1
          · rw [if_neg hlive]
            have hnone := Option.not_isSome_iff_eq_none.mp hlive
            have hcreated : Function.update index .live (some noDocuments) .live =
                some noDocuments := Function.update_self _ _ _
            exact .created hnone hcreated (by simp)
      | swap =>
          dsimp only [MeiliTask.run]
          split
          · refine .swapped rfl rfl ?_
            show Function.update (Function.update index .live (index .build)) .build (index .live)
              .live = _
            rw [Function.update_of_ne hne, Function.update_self]
          · exact .kept rfl fun h => by cases h.2

/-- Whatever the oldest task does, the live index stays one load or what it
was. -/
theorem LiveOk.executed {start : Option Content} (hqueue : QueueOk meili loads)
    (h : LiveOk start (meili.index .live) swapped loads) (hfirst : meili.queue = first :: rest)
    (failure : Option String) :
    LiveOk start
      ((meili.settled first rest (first.task.outcome meili.index failure)).index .live)
      (if first.task = .swap .live .build ∧
          statusOf (first.task.outcome meili.index failure) = .succeeded
        then first.run :: swapped else swapped) loads := by
  have hsent := hqueue.sent first (hfirst ▸ List.mem_cons_self)
  have heffect := live_effect meili.index hsent failure
  unfold Meili.settled
  dsimp only
  cases heffect with
  | kept hlive hquiet =>
      rw [if_neg hquiet, hlive]
      exact h
  | created hbefore hafter hquiet =>
      have hnot : ¬ (first.task = .swap .live .build ∧
          statusOf (first.task.outcome meili.index failure) = .succeeded) :=
        fun hswap => hquiet hswap.1
      rw [if_neg hnot, hafter]
      rw [hbefore] at h
      unfold LiveOk at *
      split at h
      · rcases h with hstart | ⟨_, hlive⟩
        · rw [if_pos ‹_›]
          exact Or.inr ⟨hstart.symm, rfl⟩
        · cases hlive
      · obtain ⟨_, _, hlive⟩ := h
        cases hlive
  | swapped htask hdone hlive =>
      rw [if_pos ⟨htask, hdone⟩, hlive]
      obtain ⟨hbuild, _⟩ := hqueue.swap_ready hfirst htask
      unfold LiveOk
      rw [if_neg (List.cons_ne_nil _ _)]
      exact hbuild

end Sinnlos.Cms.Search

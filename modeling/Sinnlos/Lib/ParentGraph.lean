import Sinnlos.Lib.Dependencies
import Mathlib.Data.List.Perm.Basic
import Mathlib.Data.Set.Card
import Mathlib.Logic.Relation

/-! # Graphs in which a node points to at most one other

A node that can be reached from itself lies on a cycle with everything it reaches.
Without the pointer of the first node of each cycle there are no cycles left, and
the nodes, read backwards, form a forest.
-/

namespace Sinnlos.ParentGraph

open Relation Dependencies

variable {ι : Type} (parent : ι → Option ι)

def Points (x y : ι) : Prop := parent x = some y

/-- A node, what it points to, and so on. -/
def Reaches : ι → ι → Prop := ReflTransGen (Points parent)

def OnCycle (x : ι) : Prop := TransGen (Points parent) x x

/-- The node of a cycle that comes before the others. -/
def FirstOfCycle (rank : ι → Nat) (x : ι) : Prop :=
  OnCycle parent x ∧ ∀ y, Reaches parent x y → rank x ≤ rank y

/-- The cycles, each as the set of its nodes. -/
def cycles : Set (Set ι) := {cycle | ∃ x, OnCycle parent x ∧ cycle = {y | Reaches parent x y}}

variable {parent} {rank : ι → Nat} {x y z : ι}

/-! ## Chains -/

theorem Points.unique (h : Points parent x y) (h' : Points parent x z) : y = z := by
  unfold Points at h h'
  rw [h] at h'
  exact Option.some.inj h'

/-- What can be reached lies in every set that pointers do not leave. -/
theorem Reaches.closed {inside : ι → Prop} (h : Reaches parent x y) (hx : inside x)
    (closed : ∀ x y, inside x → Points parent x y → inside y) : inside y := by
  induction h with
  | refl => exact hx
  | tail _ hstep ih => exact closed _ _ ih hstep

/-- Of two nodes that one node reaches, one reaches the other. -/
theorem Reaches.total (h : Reaches parent x y) (h' : Reaches parent x z) :
    Reaches parent y z ∨ Reaches parent z y :=
  ReflTransGen.total_of_right_unique (fun _ _ _ hy hz => hy.unique hz) h h'

theorem OnCycle.exists_points (h : OnCycle parent x) :
    ∃ y, Points parent x y ∧ Reaches parent y x := by
  obtain ⟨y, hstep, hback⟩ := TransGen.head'_iff.mp h
  exact ⟨y, hstep, hback⟩

theorem OnCycle.back_of_points (h : OnCycle parent x) (hstep : Points parent x y) :
    Reaches parent y x := by
  obtain ⟨z, hz, hback⟩ := h.exists_points
  rwa [hstep.unique hz]

theorem OnCycle.of_points (h : OnCycle parent x) (hstep : Points parent x y) :
    OnCycle parent y := by
  have hback : Reaches parent y x := h.back_of_points hstep
  exact TransGen.tail' hback hstep

theorem OnCycle.of_reaches (h : OnCycle parent x) (hreach : Reaches parent x y) :
    OnCycle parent y :=
  hreach.closed h fun _ _ hx hstep => hx.of_points hstep

/-- What a node of a cycle reaches leads back to it. -/
theorem OnCycle.back (h : OnCycle parent x) (hreach : Reaches parent x y) :
    Reaches parent y x := by
  induction hreach with
  | refl => exact ReflTransGen.refl
  | @tail y z hy hstep ih =>
      have hcycle : OnCycle parent y := h.of_reaches hy
      exact (hcycle.back_of_points hstep).trans ih

theorem OnCycle.same_cycle (h : OnCycle parent x) (hreach : Reaches parent x y) :
    {z | Reaches parent x z} = {z | Reaches parent y z} := by
  ext z
  constructor
  · intro hz
    exact (h.back hreach).trans hz
  · intro hz
    exact hreach.trans hz

/-! ## Trails -/

/-- A list of nodes each of which points to the next, and the last to what follows. -/
def Trail (parent : ι → Option ι) : List ι → Option ι → Prop
  | [], _ => True
  | x :: rest, next => parent x = rest.head?.or next ∧ Trail parent rest next

namespace Trail

variable {path : List ι} {next : Option ι} {c : ι}

theorem concat (h : Trail parent path (some c)) : Trail parent (path ++ [c]) (parent c) := by
  induction path with
  | nil => exact ⟨rfl, trivial⟩
  | cons x rest ih =>
      refine ⟨?_, ih h.2⟩
      rw [h.1]
      cases rest with
      | nil => rfl
      | cons y rest => rfl

theorem drop (h : Trail parent path next) (n : Nat) : Trail parent (path.drop n) next := by
  induction path generalizing n with
  | nil => simpa using h
  | cons x rest ih =>
      cases n with
      | zero => exact h
      | succ n => exact ih h.2 n

/-- Only where the nodes of a trail point to counts. -/
theorem congr {other : ι → Option ι} (h : Trail parent path next)
    (same : ∀ x ∈ path, parent x = other x) : Trail other path next := by
  induction path with
  | nil => trivial
  | cons x rest ih =>
      refine ⟨?_, ih h.2 fun y hy => same y (List.mem_cons_of_mem x hy)⟩
      rw [← same x List.mem_cons_self]
      exact h.1

/-- A node of a trail points to one of its nodes or to what follows. -/
theorem next_of_mem (h : Trail parent path next) (hx : x ∈ path) :
    (∃ y ∈ path, Points parent x y) ∨ parent x = next := by
  induction path with
  | nil => cases hx
  | cons a rest ih =>
      rcases List.mem_cons.mp hx with heq | hrest
      · rw [heq]
        cases rest with
        | nil => exact Or.inr h.1
        | cons b rest => exact Or.inl ⟨b, by simp, h.1⟩
      · rcases ih h.2 hrest with hmem | hend
        · obtain ⟨y, hy, hpoints⟩ := hmem
          exact Or.inl ⟨y, List.mem_cons_of_mem a hy, hpoints⟩
        · exact Or.inr hend

theorem reaches (h : Trail parent path (some c)) (hx : x ∈ path) : Reaches parent x c := by
  induction path generalizing x with
  | nil => cases hx
  | cons a rest ih =>
      rcases List.mem_cons.mp hx with heq | hrest
      · rw [heq]
        cases rest with
        | nil => exact ReflTransGen.single h.1
        | cons b rest =>
            have hstep : Points parent a b := h.1
            exact (ih h.2 List.mem_cons_self).head hstep
      · exact ih h.2 hrest

/-- The first node of a trail reaches the others. -/
theorem reaches_of_head (h : Trail parent (c :: path) next) (hy : y ∈ c :: path) :
    Reaches parent c y := by
  induction path generalizing c with
  | nil =>
      rw [List.mem_singleton.mp hy]
      exact ReflTransGen.refl
  | cons b rest ih =>
      have hstep : Points parent c b := h.1
      rcases List.mem_cons.mp hy with heq | hrest
      · rw [heq]
        exact ReflTransGen.refl
      · exact (ih h.2 hrest).head hstep

/-- The nodes of a trail that ends at a node without a pointer are on no cycle. -/
theorem not_onCycle (h : Trail parent path none) (hx : x ∈ path) : ¬ OnCycle parent x := by
  induction path generalizing x with
  | nil => cases hx
  | cons a rest ih =>
      intro hcycle
      rcases List.mem_cons.mp hx with heq | hrest
      · rw [heq] at hcycle
        cases rest with
        | nil =>
            obtain ⟨y, hy, -⟩ := hcycle.exists_points
            have hnone : parent a = none := h.1
            rw [hy] at hnone
            cases hnone
        | cons b rest =>
            have hstep : Points parent a b := h.1
            exact ih h.2 List.mem_cons_self (hcycle.of_points hstep)
      · exact ih h.2 hrest hcycle

/-- A trail that comes back to its first node is a cycle. -/
theorem reaches_iff_of_closed (h : Trail parent (c :: path) (some c)) (y : ι) :
    Reaches parent c y ↔ y ∈ c :: path := by
  constructor
  · intro hreach
    apply hreach.closed List.mem_cons_self
    intro a b ha hstep
    rcases h.next_of_mem ha with hmem | hend
    · obtain ⟨next, hnext, hpoints⟩ := hmem
      rwa [hstep.unique hpoints]
    · rw [hstep.unique hend]
      exact List.mem_cons_self
  · exact h.reaches_of_head

theorem onCycle_of_closed (h : Trail parent (c :: path) (some c)) : OnCycle parent c := by
  rcases h.next_of_mem List.mem_cons_self with hmem | hend
  · obtain ⟨next, hnext, hpoints⟩ := hmem
    exact TransGen.head' hpoints (h.reaches hnext)
  · exact TransGen.single hend

end Trail

/-! ## The first nodes of the cycles -/

theorem OnCycle.exists_first (h : OnCycle parent x) (rank : ι → Nat) :
    ∃ first, Reaches parent x first ∧ FirstOfCycle parent rank first := by
  have hsome : {y | Reaches parent x y}.Nonempty := ⟨x, ReflTransGen.refl⟩
  obtain ⟨first, hreach, hleast⟩ := (measure rank).wf.has_min _ hsome
  refine ⟨first, hreach, h.of_reaches hreach, ?_⟩
  intro y hy
  have hnot := hleast y (hreach.trans hy)
  exact Nat.not_lt.mp hnot

/-- A set that a list without repetition enumerates has as many elements. -/
theorem ncard_of_mem_iff {list : List ι} {set : Set ι} (nodup : list.Nodup)
    (mem_iff : ∀ x, x ∈ list ↔ x ∈ set) : set.ncard = list.length := by
  classical
  have hset : set = (list.toFinset : Set ι) := by
    ext x
    simp [mem_iff]
  rw [hset, Set.ncard_coe_finset, List.toFinset_card_of_nodup nodup]

/-- As many cycles as first nodes. -/
theorem ncard_cycles {firsts : List ι} (nodup : firsts.Nodup)
    (mem_iff : ∀ x, x ∈ firsts ↔ FirstOfCycle parent rank x)
    (injective : ∀ x y, OnCycle parent x → OnCycle parent y → rank x = rank y → x = y) :
    (cycles parent).ncard = firsts.length := by
  have himage : cycles parent = (fun x => {y | Reaches parent x y}) '' {x | x ∈ firsts} := by
    ext cycle
    constructor
    · intro h
      obtain ⟨x, hx, hcycle⟩ := h
      obtain ⟨first, hreach, hfirst⟩ := hx.exists_first rank
      refine ⟨first, (mem_iff first).mpr hfirst, ?_⟩
      rw [hcycle, hx.same_cycle hreach]
    · intro h
      obtain ⟨first, hfirst, hcycle⟩ := h
      exact ⟨first, ((mem_iff first).mp hfirst).1, hcycle.symm⟩
  have hinj : Set.InjOn (fun x => {y | Reaches parent x y}) {x | x ∈ firsts} := by
    intro a ha b hb hsame
    have hfirst := (mem_iff a).mp ha
    have hother := (mem_iff b).mp hb
    have hab : b ∈ {y | Reaches parent a y} := by
      rw [show {y | Reaches parent a y} = {y | Reaches parent b y} from hsame]
      exact ReflTransGen.refl
    have hba : Reaches parent b a := hfirst.1.back hab
    have hrank := Nat.le_antisymm (hfirst.2 b hab) (hother.2 a hba)
    exact injective a b hfirst.1 hother.1 hrank
  rw [himage, hinj.ncard_image]
  exact ncard_of_mem_iff nodup fun x => Iff.rfl

/-- Without the pointers of the first nodes there is no cycle left. -/
theorem acyclic_of_cut {cut : ι → Option ι}
    (hcut : ∀ x y, Points cut x y ↔ Points parent x y ∧ ¬ FirstOfCycle parent rank x) (x : ι) :
    ¬ OnCycle cut x := by
  intro h
  have hmono : OnCycle parent x :=
    TransGen.mono (fun a b hab => ((hcut a b).mp hab).1) x x h
  obtain ⟨first, hreach, hfirst⟩ := hmono.exists_first rank
  have hstays : OnCycle cut first := by
    apply hreach.closed h
    intro a b ha hstep
    obtain ⟨c, hc, -⟩ := ha.exists_points
    rw [hstep.unique ((hcut a c).mp hc).1]
    exact ha.of_points hc
  obtain ⟨y, hy, -⟩ := hstays.exists_points
  exact ((hcut first y).mp hy).2 hfirst

/-! ## Forests -/

/-- Visiting a list of nodes, each before everything below it. -/
inductive Visits (children : ι → List ι) : List ι → List ι → Prop
  | nil : Visits children [] []
  | cons {x : ι} {rest below others : List ι} : Visits children (children x) below →
      Visits children rest others → Visits children (x :: rest) (x :: (below ++ others))

variable {children : ι → List ι} {roots visited nodes : List ι}

theorem exists_visits_of_forall (h : ∀ x ∈ roots, ∃ below, Visits children (children x) below) :
    ∃ visited, Visits children roots visited := by
  induction roots with
  | nil => exact ⟨[], Visits.nil⟩
  | cons x rest ih =>
      obtain ⟨below, hbelow⟩ := h x List.mem_cons_self
      obtain ⟨others, hothers⟩ := ih fun y hy => h y (List.mem_cons_of_mem x hy)
      exact ⟨_, Visits.cons hbelow hothers⟩

/-- The nodes of a graph whose pointers stay among them. -/
structure Acyclic (parent : ι → Option ι) (nodes : List ι) : Prop where
  inside : ∀ x y, Points parent x y → x ∈ nodes ∧ y ∈ nodes
  acyclic : ∀ x, ¬ OnCycle parent x

/-- The list of the nodes that point to a node, each once. -/
def Lists (parent : ι → Option ι) (children : ι → List ι) : Prop :=
  ∀ x, (children x).Nodup ∧ ∀ y, y ∈ children x ↔ Points parent y x

section

variable (acyclic : Acyclic parent nodes)
include acyclic

theorem Acyclic.wellFounded :
    WellFounded (fun x y : {x // x ∈ nodes} => TransGen (Points parent) x y) :=
  wellFounded_of_acyclic acyclic.acyclic

theorem Acyclic.wellFounded_swap :
    WellFounded (fun x y : {x // x ∈ nodes} => TransGen (Function.swap (Points parent)) x y) := by
  apply wellFounded_of_acyclic
  intro x h
  exact acyclic.acyclic x (transGen_swap.mp h)

/-- Everything below a node can be visited. -/
theorem Acyclic.exists_visits (lists : Lists parent children) (x : {x // x ∈ nodes}) :
    ∃ below, Visits children (children x) below := by
  induction x using acyclic.wellFounded.induction with
  | _ x ih =>
      apply exists_visits_of_forall
      intro y hy
      have hstep := ((lists x).2 y).mp hy
      exact ih ⟨y, (acyclic.inside y x hstep).1⟩ (TransGen.single hstep)

/-- Every node reaches one that points to none. -/
theorem Acyclic.exists_root (x : {x // x ∈ nodes}) :
    ∃ root ∈ nodes, parent root = none ∧ Reaches parent x root := by
  induction x using acyclic.wellFounded_swap.induction with
  | _ x ih =>
      cases hparent : parent x with
      | none => exact ⟨x, x.2, hparent, ReflTransGen.refl⟩
      | some y =>
          have hstep : Points parent x y := hparent
          obtain ⟨root, hmem, hroot, hreach⟩ :=
            ih ⟨y, (acyclic.inside x y hstep).2⟩ (TransGen.single hstep)
          exact ⟨root, hmem, hroot, hreach.head hstep⟩

omit acyclic in
/-- What is visited reaches a node of the list. -/
theorem Visits.mem_iff (lists : Lists parent children) (h : Visits children roots visited) (y : ι) :
    y ∈ visited ↔ ∃ x ∈ roots, Reaches parent y x := by
  induction h with
  | nil => simp
  | @cons x rest below others _ _ ihbelow ihothers =>
      have hhead : y = x ∨ (∃ c ∈ children x, Reaches parent y c) ↔ Reaches parent y x := by
        constructor
        · intro hy
          rcases hy with hy | hy
          · exact hy ▸ ReflTransGen.refl
          · obtain ⟨c, hc, hreach⟩ := hy
            exact hreach.tail (((lists x).2 c).mp hc)
        · intro hy
          rcases ReflTransGen.cases_tail hy with hy | hy
          · exact Or.inl hy.symm
          · obtain ⟨c, hreach, hstep⟩ := hy
            exact Or.inr ⟨c, ((lists x).2 c).mpr hstep, hreach⟩
      rw [List.mem_cons, List.mem_append, ihbelow, ihothers, ← or_assoc, hhead]
      simp

/-- Nodes none of which reaches another are visited without repetition, with
everything below them. -/
theorem Acyclic.nodup_visits (lists : Lists parent children) (h : Visits children roots visited)
    (nodup : roots.Nodup)
    (apart : ∀ x ∈ roots, ∀ y ∈ roots, Reaches parent x y → x = y) : visited.Nodup := by
  induction h with
  | nil => exact List.nodup_nil
  | @cons x rest below others hbelow hothers ihbelow ihothers =>
      rw [List.nodup_cons] at nodup
      have hcycle (c : ι) (hc : c ∈ children x) : ¬ Reaches parent x c := by
        intro hreach
        exact acyclic.acyclic x (TransGen.tail' hreach (((lists x).2 c).mp hc))
      have hapart (y : ι) (hy : y ∈ rest) : ¬ Reaches parent x y ∧ ¬ Reaches parent y x := by
        have hne : x ≠ y := fun heq => nodup.1 (heq ▸ hy)
        have hmem := List.mem_cons_of_mem x hy
        exact ⟨fun hreach => hne (apart x List.mem_cons_self y hmem hreach),
          fun hreach => hne (apart y hmem x List.mem_cons_self hreach).symm⟩
      have hchildren : below.Nodup := by
        apply ihbelow (lists x).1
        intro a ha b hb hreach
        rcases ReflTransGen.cases_head hreach with heq | hstep
        · exact heq
        · -- the way from one child to another leads through the parent
          obtain ⟨c, hc, hrest⟩ := hstep
          rw [hc.unique (((lists x).2 a).mp ha)] at hrest
          exact absurd hrest (hcycle b hb)
      have hrest : others.Nodup :=
        ihothers nodup.2 fun a ha b hb =>
          apart a (List.mem_cons_of_mem x ha) b (List.mem_cons_of_mem x hb)
      have hnew : x ∉ below ++ others := by
        rw [List.mem_append, hbelow.mem_iff lists, hothers.mem_iff lists]
        intro hmem
        rcases hmem with hmem | hmem
        · obtain ⟨c, hc, hreach⟩ := hmem
          exact hcycle c hc hreach
        · obtain ⟨y, hy, hreach⟩ := hmem
          exact (hapart y hy).1 hreach
      have hdisjoint : List.Disjoint below others := by
        intro z hz hz'
        obtain ⟨c, hc, hreach⟩ := (hbelow.mem_iff lists z).mp hz
        obtain ⟨y, hy, hreach'⟩ := (hothers.mem_iff lists z).mp hz'
        have hup : Reaches parent z x := hreach.tail (((lists x).2 c).mp hc)
        rcases hup.total hreach' with hxy | hyx
        · exact (hapart y hy).1 hxy
        · exact (hapart y hy).2 hyx
      rw [List.nodup_cons]
      exact ⟨hnew, hchildren.append hrest hdisjoint⟩

/-- A visit from the nodes that point to none visits every node once. -/
theorem Acyclic.visits_perm (lists : Lists parent children) (nodup : nodes.Nodup)
    (hroots : roots.Nodup) (mem_iff : ∀ x, x ∈ roots ↔ x ∈ nodes ∧ parent x = none) :
    ∃ visited, Visits children roots visited ∧ visited.Perm nodes := by
  have hbelow (x : ι) (hx : x ∈ roots) : ∃ below, Visits children (children x) below :=
    acyclic.exists_visits lists ⟨x, ((mem_iff x).mp hx).1⟩
  obtain ⟨visited, hvisits⟩ := exists_visits_of_forall hbelow
  have hapart (x : ι) (hx : x ∈ roots) (y : ι) (_ : y ∈ roots) (hreach : Reaches parent x y) :
      x = y := by
    rcases ReflTransGen.cases_head hreach with heq | hstep
    · exact heq
    · obtain ⟨z, hz, -⟩ := hstep
      have hnone := ((mem_iff x).mp hx).2
      rw [hz] at hnone
      cases hnone
  have hnodup := acyclic.nodup_visits lists hvisits hroots hapart
  refine ⟨visited, hvisits, (List.perm_ext_iff_of_nodup hnodup nodup).mpr ?_⟩
  intro y
  rw [hvisits.mem_iff lists]
  constructor
  · intro h
    obtain ⟨root, hroot, hreach⟩ := h
    rcases ReflTransGen.cases_head hreach with heq | hstep
    · exact heq ▸ ((mem_iff root).mp hroot).1
    · obtain ⟨z, hz, -⟩ := hstep
      exact (acyclic.inside y z hz).1
  · intro h
    obtain ⟨root, hmem, hroot, hreach⟩ := acyclic.exists_root ⟨y, h⟩
    exact ⟨root, (mem_iff root).mpr ⟨hmem, hroot⟩, hreach⟩

end

end Sinnlos.ParentGraph

import Sinnlos.Lib.Distinct
import Sinnlos.Lib.ParentGraph
import Mathlib.Logic.Function.Basic

/-!
# The org chart's tree

`buildOrgTree` of `apps/web/src/lib/org-tree.ts`. The manager references come from
the admin panel and need not be a tree: a person who is their own manager, and one
person of every cycle, become marked roots. Node objects are known by their ids.
-/

namespace Sinnlos.Web.OrgChart

open Distinct

inductive OrgIssue
  | selfManager
  | cycle
deriving DecidableEq

structure OrgNode (P ι : Type) where
  person : P
  /-- The children, by their ids. -/
  children : List ι
  /-- Why this person is a root although a manager is set. -/
  issue : Option OrgIssue

structure OrgTree (P ι : Type) where
  nodes : ι → Option (OrgNode P ι)
  roots : List ι
  issues : Nat

/-- The walks' states 1 and 2. -/
inductive Mark
  | walking
  | done
deriving DecidableEq

/-- The maps that the walks read and write. -/
structure Chart (ι : Type) where
  parent : ι → Option ι
  issue : ι → Option OrgIssue
  state : ι → Option Mark

/-- The children of every node and the two lists of roots. -/
structure Drawn (ι : Type) where
  children : ι → List ι
  roots : List ι
  marked : List ι

section

variable {P ι : Type} [DecidableEq ι] (idOf : P → ι) (managerOf : P → Option ι)

/-- The person of an id: the first one listed wins. -/
def personOf (people : List P) (id : ι) : Option P := people.find? fun person => idOf person = id

/-- The ids, each once, in the order of the input. -/
def idsOf (people : List P) : List ι := (firsts idOf [] people).map idOf

/-- The parent and the issue of every person before the walks. -/
def initialChart (people : List P) : Chart ι where
  parent id := (personOf idOf people id).bind fun person =>
    (managerOf person).filter fun manager => manager ≠ id ∧ manager ∈ idsOf idOf people
  issue id := (personOf idOf people id).bind fun person =>
    if managerOf person = some id then some .selfManager else none
  state _ := none

/-- What a walk leaves: the states, its path and where it stopped. -/
structure Climb (ι : Type) where
  state : ι → Option Mark
  path : List ι
  current : Option ι

/-- The walk up from a person to a root or to somebody who was met before. -/
def climb (parent : ι → Option ι) : Nat → Climb ι → Option (Climb ι)
  | 0, _ => none
  | fuel + 1, climbed =>
      match climbed.current with
      | none => some climbed
      | some id =>
          if (climbed.state id).isSome then some climbed
          else climb parent fuel
            { state := Function.update climbed.state id (some .walking)
              path := climbed.path ++ [id]
              current := parent id }

/-- The member of a cycle that comes first in the input. -/
def breakerOf (order : ι → Nat) : List ι → Option ι
  | [] => none
  | first :: rest => some (rest.foldl (fun a b => if order a ≤ order b then a else b) first)

/-- The cycle that a walk met, cut at its first member. -/
def cutCycle (ids : List ι) (chart : Chart ι) (climbed : Climb ι) : Option (Chart ι) :=
  match climbed.current with
  | none => some chart
  | some id =>
      if climbed.state id = some .walking then
        (breakerOf ids.idxOf (climbed.path.drop (climbed.path.idxOf id))).bind fun breaker =>
          if breaker ∈ ids then
            some { chart with
              parent := Function.update chart.parent breaker none
              issue := Function.update chart.issue breaker (some .cycle) }
          else none
      else some chart

/-- The walk from one person. -/
def walkFrom (ids : List ι) (chart : Chart ι) (start : ι) : Option (Chart ι) :=
  if (chart.state start).isSome then some chart
  else
    (climb chart.parent (ids.length + 1) ⟨chart.state, [], some start⟩).bind fun climbed =>
      (cutCycle ids chart climbed).map fun cut =>
        { cut with
          state := climbed.path.foldl (fun state id => Function.update state id (some .done))
            climbed.state }

/-- A person below their parent, or among the roots. -/
def place (ids : List ι) (chart : Chart ι) (drawn : Drawn ι) (id : ι) : Option (Drawn ι) :=
  match chart.parent id with
  | some manager =>
      if manager ∈ ids then
        some { drawn with
          children := Function.update drawn.children manager (drawn.children manager ++ [id]) }
      else none
  | none =>
      if (chart.issue id).isSome then some { drawn with marked := drawn.marked ++ [id] }
      else some { drawn with roots := drawn.roots ++ [id] }

/-- The tree of a list of people, none where the code would throw. -/
def buildOrgTree (people : List P) : Option (OrgTree P ι) :=
  let ids := idsOf idOf people
  (ids.foldlM (walkFrom ids) (initialChart idOf managerOf people)).bind fun chart =>
    (ids.foldlM (place ids chart) ⟨fun _ => [], [], []⟩).map fun drawn =>
      { nodes := fun id => (personOf idOf people id).map fun person =>
          { person, children := drawn.children id, issue := chart.issue id }
        roots := drawn.roots ++ drawn.marked
        issues := drawn.marked.length }

end

end Sinnlos.Web.OrgChart

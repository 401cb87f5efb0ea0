import Sinnlos.Web.OrgTree

/-!
# The walks that cut the cycles

Every walk leaves the persons it met done, and takes the reference of the first
person of a cycle away exactly when it met the cycle. When everybody is done, no
cycle is left.
-/

namespace Sinnlos.Web.OrgChart

open Distinct ParentGraph

variable {ι : Type} [DecidableEq ι]

/-! ## Climbing -/

/-- What holds while a walk climbs: its path is a trail of new persons. -/
structure Climbing (ids : List ι) (parent : ι → Option ι) (state : ι → Option Mark)
    (climbed : Climb ι) : Prop where
  trail : Trail parent climbed.path climbed.current
  nodup : climbed.path.Nodup
  listed : ∀ x ∈ climbed.path, x ∈ ids
  next : ∀ x, climbed.current = some x → x ∈ ids
  fresh : ∀ x ∈ climbed.path, state x = none
  walking : ∀ x ∈ climbed.path, climbed.state x = some .walking
  others : ∀ x, x ∉ climbed.path → climbed.state x = state x

/-- A walk that has stopped. -/
def Climb.Stopped (climbed : Climb ι) : Prop :=
  ∀ x, climbed.current = some x → (climbed.state x).isSome = true

section

variable {ids : List ι} {parent : ι → Option ι} {state : ι → Option Mark} {climbed : Climb ι}

theorem Climbing.step {id : ι} (climbing : Climbing ids parent state climbed)
    (inside : ∀ x y, Points parent x y → x ∈ ids ∧ y ∈ ids)
    (hcurrent : climbed.current = some id) (hnew : climbed.state id = none) :
    Climbing ids parent state
      { state := Function.update climbed.state id (some .walking)
        path := climbed.path ++ [id]
        current := parent id } := by
  have hnot : id ∉ climbed.path := by
    intro hmem
    rw [climbing.walking id hmem] at hnew
    cases hnew
  have htrail := climbing.trail
  rw [hcurrent] at htrail
  have hmem (x : ι) : x ∈ climbed.path ++ [id] ↔ x ∈ climbed.path ∨ x = id := by simp
  exact {
    trail := htrail.concat
    nodup := by
      rw [List.nodup_append]
      refine ⟨climbing.nodup, List.nodup_singleton id, ?_⟩
      intro a ha b hb heq
      rw [List.mem_singleton.mp hb] at heq
      exact hnot (heq ▸ ha)
    listed := by
      intro x hx
      rcases (hmem x).mp hx with hold | hnow
      · exact climbing.listed x hold
      · exact hnow ▸ climbing.next id hcurrent
    next := fun x hx => (inside id x hx).2
    fresh := by
      intro x hx
      rcases (hmem x).mp hx with hold | hnow
      · exact climbing.fresh x hold
      · rw [hnow, ← climbing.others id hnot, hnew]
    walking := by
      intro x hx
      by_cases hsame : x = id
      · simp [hsame]
      · simp [Function.update_of_ne hsame,
          climbing.walking x (((hmem x).mp hx).resolve_right hsame)]
    others := by
      intro x hx
      have hboth := not_or.mp (mt (hmem x).mpr hx)
      show Function.update climbed.state id (some .walking) x = state x
      rw [Function.update_of_ne hboth.2]
      exact climbing.others x hboth.1 }

/-- A walk stops before everybody is on its path twice. -/
theorem climb_spec (inside : ∀ x y, Points parent x y → x ∈ ids ∧ y ∈ ids) (fuel : Nat)
    (climbing : Climbing ids parent state climbed)
    (enough : ids.length < fuel + climbed.path.length) :
    ∃ stopped, climb parent fuel climbed = some stopped ∧
      Climbing ids parent state stopped ∧ climbed.path <+: stopped.path ∧ stopped.Stopped := by
  induction fuel generalizing climbed with
  | zero =>
      have hsubset : climbed.path ⊆ ids := fun x hx => climbing.listed x hx
      have hlen := (List.subperm_of_subset climbing.nodup hsubset).length_le
      omega
  | succ fuel ih =>
      unfold climb
      cases hcurrent : climbed.current with
      | none =>
          refine ⟨climbed, rfl, climbing, List.prefix_rfl, ?_⟩
          intro x hx
          rw [hcurrent] at hx
          cases hx
      | some id =>
          dsimp only
          by_cases hmark : (climbed.state id).isSome = true
          · rw [if_pos hmark]
            refine ⟨climbed, rfl, climbing, List.prefix_rfl, ?_⟩
            intro x hx
            rw [hcurrent] at hx
            rwa [← Option.some.inj hx]
          · rw [if_neg hmark]
            have hnew : climbed.state id = none := by simpa using hmark
            have hstep := climbing.step inside hcurrent hnew
            have hlen : (climbed.path ++ [id]).length = climbed.path.length + 1 := by simp
            obtain ⟨stopped, hclimb, hclimbing, hprefix, hstopped⟩ :=
              ih hstep (by dsimp only; omega)
            exact ⟨stopped, hclimb, hclimbing, (List.prefix_append _ _).trans hprefix, hstopped⟩

end

/-! ## One walk -/

/-- The chart before the walks. -/
structure Prepared (ids : List ι) (initial : Chart ι) : Prop where
  nodup : ids.Nodup
  inside : ∀ x y, Points initial.parent x y → x ∈ ids ∧ y ∈ ids
  unmarked : ∀ x, initial.state x = none
  self : ∀ x, initial.issue x ≠ none → initial.parent x = none ∧ initial.issue x = some .selfManager

/-- The person whose reference to the manager is taken away. -/
def IsBreaker (ids : List ι) (initial : Chart ι) (x : ι) : Prop :=
  FirstOfCycle initial.parent ids.idxOf x

/-- The chart between two walks: exactly the cycles among those who are done are cut. -/
structure Walked (ids : List ι) (initial chart : Chart ι) : Prop where
  marks : ∀ x, chart.state x ≠ some .walking
  closed : ∀ x y, chart.state x = some .done → Points initial.parent x y →
    chart.state y = some .done
  cut : ∀ x, chart.state x = some .done → IsBreaker ids initial x →
    chart.parent x = none ∧ chart.issue x = some .cycle
  kept : ∀ x, ¬ (chart.state x = some .done ∧ IsBreaker ids initial x) →
    chart.parent x = initial.parent x ∧ chart.issue x = initial.issue x

section

variable {ids : List ι} {initial chart : Chart ι} {x : ι}

theorem IsBreaker.mem (prepared : Prepared ids initial) (h : IsBreaker ids initial x) :
    x ∈ ids := by
  obtain ⟨y, hy, -⟩ := h.1.exists_points
  exact (prepared.inside x y hy).1

/-- A cycle has one first person. -/
theorem IsBreaker.unique (prepared : Prepared ids initial) {y : ι} (hx : IsBreaker ids initial x)
    (hy : IsBreaker ids initial y) (hreach : Reaches initial.parent x y) : x = y := by
  have hback : Reaches initial.parent y x := hx.1.back hreach
  have hrank := Nat.le_antisymm (hx.2 y hreach) (hy.2 x hback)
  exact (List.idxOf_inj (hx.mem prepared)).mp hrank

omit [DecidableEq ι] in
theorem foldl_first_spec (order : ι → Nat) (first : ι) (rest : List ι) :
    rest.foldl (fun a b => if order a ≤ order b then a else b) first ∈ first :: rest ∧
      ∀ y ∈ first :: rest,
        order (rest.foldl (fun a b => if order a ≤ order b then a else b) first) ≤ order y := by
  induction rest generalizing first with
  | nil => simp
  | cons second rest ih =>
      rw [List.foldl_cons]
      by_cases hle : order first ≤ order second
      · rw [if_pos hle]
        obtain ⟨hmem, hleast⟩ := ih first
        have hfirst := hleast first List.mem_cons_self
        refine ⟨?_, ?_⟩
        · simp only [List.mem_cons] at hmem ⊢
          tauto
        · intro y hy
          rcases List.mem_cons.mp hy with heq | hy
          · rwa [heq]
          · rcases List.mem_cons.mp hy with heq | hy
            · rw [heq]
              omega
            · exact hleast y (List.mem_cons_of_mem first hy)
      · rw [if_neg hle]
        obtain ⟨hmem, hleast⟩ := ih second
        have hsecond := hleast second List.mem_cons_self
        refine ⟨List.mem_cons_of_mem first hmem, ?_⟩
        intro y hy
        rcases List.mem_cons.mp hy with heq | hy
        · rw [heq]
          omega
        · exact hleast y hy

variable {start : ι} {climbed : Climb ι}

/-- Somebody with a state who is not being walked is done. -/
theorem Walked.done_of_isSome (walked : Walked ids initial chart)
    (h : (chart.state x).isSome = true) : chart.state x = some .done := by
  cases hmark : chart.state x with
  | none =>
      rw [hmark] at h
      cases h
  | some mark =>
      cases mark with
      | walking => exact absurd hmark (walked.marks x)
      | done => rfl

/-- Whoever a person of a stopped walk reports to is on its path or was done before. -/
theorem Climbing.closed (walked : Walked ids initial chart)
    (climbing : Climbing ids initial.parent chart.state climbed) (stopped : climbed.Stopped)
    {y : ι} (hx : x ∈ climbed.path) (hstep : Points initial.parent x y) :
    y ∈ climbed.path ∨ chart.state y = some .done := by
  rcases climbing.trail.next_of_mem hx with hmem | hend
  · obtain ⟨z, hz, hpoints⟩ := hmem
    exact Or.inl (hstep.unique hpoints ▸ hz)
  · by_cases hpath : y ∈ climbed.path
    · exact Or.inl hpath
    · have hcurrent : climbed.current = some y := hend ▸ hstep
      have hsome := stopped y hcurrent
      rw [climbing.others y hpath] at hsome
      exact Or.inr (walked.done_of_isSome hsome)

/-- A walk's end: the persons of a closed path are done. -/
theorem Walked.extend (walked : Walked ids initial chart) {path : List ι} {next : Chart ι}
    (closed : ∀ x y, x ∈ path → Points initial.parent x y →
      y ∈ path ∨ chart.state y = some .done)
    (hstate : ∀ x, next.state x = if x ∈ path then some .done else chart.state x)
    (hcut : ∀ x ∈ path, IsBreaker ids initial x →
      next.parent x = none ∧ next.issue x = some .cycle)
    (hkept : ∀ x, ¬ (x ∈ path ∧ IsBreaker ids initial x) →
      next.parent x = chart.parent x ∧ next.issue x = chart.issue x) :
    Walked ids initial next := by
  have hdone (x : ι) : next.state x = some .done ↔ x ∈ path ∨ chart.state x = some .done := by
    rw [hstate]
    by_cases hx : x ∈ path
    · simp [hx]
    · simp [hx]
  exact {
    marks := by
      intro x
      rw [hstate]
      split
      · simp
      · exact walked.marks x
    closed := by
      intro x y hx hstep
      rw [hdone] at hx ⊢
      rcases hx with hx | hx
      · exact closed x y hx hstep
      · exact Or.inr (walked.closed x y hx hstep)
    cut := by
      intro x hx hbreaker
      by_cases hpath : x ∈ path
      · exact hcut x hpath hbreaker
      · have hold := ((hdone x).mp hx).resolve_left hpath
        have hsame := hkept x fun h => hpath h.1
        rw [hsame.1, hsame.2]
        exact walked.cut x hold hbreaker
    kept := by
      intro x hx
      rw [hdone] at hx
      have hsame := hkept x fun h => hx ⟨Or.inl h.1, h.2⟩
      rw [hsame.1, hsame.2]
      exact walked.kept x fun h => hx ⟨Or.inr h.1, h.2⟩ }

/-- The cycle that a walk met is cut at its first person; nobody else on the path is the
first of a cycle. -/
theorem cutCycle_spec (prepared : Prepared ids initial) (walked : Walked ids initial chart)
    (climbing : Climbing ids initial.parent chart.state climbed) (stopped : climbed.Stopped) :
    ∃ cut, cutCycle ids chart climbed = some cut ∧
      (∀ x ∈ climbed.path, IsBreaker ids initial x →
        cut.parent x = none ∧ cut.issue x = some .cycle) ∧
      ∀ x, ¬ (x ∈ climbed.path ∧ IsBreaker ids initial x) →
        cut.parent x = chart.parent x ∧ cut.issue x = chart.issue x := by
  have htrail := climbing.trail
  unfold cutCycle
  cases hcurrent : climbed.current with
  | none =>
      rw [hcurrent] at htrail
      exact ⟨chart, rfl, fun x hx hfirst => absurd hfirst.1 (htrail.not_onCycle hx),
        fun x _ => ⟨rfl, rfl⟩⟩
  | some id =>
      rw [hcurrent] at htrail
      dsimp only
      by_cases hmem : id ∈ climbed.path
      · -- the walk met its own path
        rw [if_pos (climbing.walking id hmem)]
        have hdrop : climbed.path.drop (climbed.path.idxOf id) =
            id :: climbed.path.drop (climbed.path.idxOf id + 1) := by
          rw [List.drop_eq_getElem_cons (List.idxOf_lt_length_of_mem hmem), List.getElem_idxOf]
        have hcycle := htrail.drop (climbed.path.idxOf id)
        rw [hdrop] at hcycle ⊢
        have honCycle := hcycle.onCycle_of_closed
        obtain ⟨breaker, hread⟩ : ∃ breaker, breakerOf ids.idxOf
            (id :: climbed.path.drop (climbed.path.idxOf id + 1)) = some breaker := ⟨_, rfl⟩
        obtain ⟨hbreaker, hleast⟩ :=
          foldl_first_spec ids.idxOf id (climbed.path.drop (climbed.path.idxOf id + 1))
        rw [Option.some.inj hread] at hbreaker hleast
        have hreach := (hcycle.reaches_iff_of_closed breaker).mpr hbreaker
        have hfirst : IsBreaker ids initial breaker := by
          refine ⟨honCycle.of_reaches hreach, ?_⟩
          intro y hy
          exact hleast y ((hcycle.reaches_iff_of_closed y).mp (hreach.trans hy))
        have honly (x : ι) (hx : x ∈ climbed.path) (h : IsBreaker ids initial x) : x = breaker :=
          h.unique prepared hfirst ((htrail.reaches hx).trans hreach)
        have hpath : breaker ∈ climbed.path := by
          rw [← hdrop] at hbreaker
          exact List.mem_of_mem_drop hbreaker
        rw [hread, Option.bind_some, if_pos (climbing.listed breaker hpath)]
        refine ⟨_, rfl, ?_, ?_⟩
        · intro x hx h
          rw [honly x hx h]
          simp
        · intro x h
          have hne : x ≠ breaker := fun heq => h ⟨heq ▸ hpath, heq ▸ hfirst⟩
          simp [Function.update_of_ne hne]
      · -- the walk met somebody who is done
        have hstate := climbing.others id hmem
        have hsome := stopped id hcurrent
        rw [hstate] at hsome
        have hdone := walked.done_of_isSome hsome
        have hnot : ¬ climbed.state id = some .walking := by
          rw [hstate]
          exact walked.marks id
        rw [if_neg hnot]
        refine ⟨chart, rfl, ?_, fun x _ => ⟨rfl, rfl⟩⟩
        intro x hx h
        have hreach := htrail.reaches hx
        have hback : Reaches initial.parent id x := h.1.back hreach
        have hdoneX := hback.closed hdone walked.closed
        rw [climbing.fresh x hx] at hdoneX
        cases hdoneX

theorem state_foldl (path : List ι) (state : ι → Option Mark) (x : ι) :
    path.foldl (fun state id => Function.update state id (some .done)) state x =
      if x ∈ path then some .done else state x := by
  induction path generalizing state with
  | nil => rfl
  | cons id rest ih =>
      rw [List.foldl_cons, ih]
      by_cases hrest : x ∈ rest
      · simp [hrest]
      · by_cases hsame : x = id
        · simp [hsame]
        · simp [hrest, hsame]

/-- A walk leaves its start done and cuts the cycles of those it met. -/
theorem walkFrom_spec (prepared : Prepared ids initial) (walked : Walked ids initial chart)
    (hstart : start ∈ ids) :
    ∃ next, walkFrom ids chart start = some next ∧ Walked ids initial next ∧
      next.state start = some .done ∧
      ∀ x, chart.state x = some .done → next.state x = some .done := by
  unfold walkFrom
  cases hmark : chart.state start with
  | some mark =>
      have hdone := walked.done_of_isSome (x := start) (by rw [hmark]; rfl)
      exact ⟨chart, rfl, walked, hdone, fun x hx => hx⟩
  | none =>
      have hinside (x y : ι) (h : Points chart.parent x y) : Points initial.parent x y := by
        by_cases hcut : chart.state x = some .done ∧ IsBreaker ids initial x
        · have hnone := (walked.cut x hcut.1 hcut.2).1
          rw [h] at hnone
          cases hnone
        · have hsame := (walked.kept x hcut).1
          show initial.parent x = some y
          rw [← hsame]
          exact h
      have hids (x y : ι) (h : Points chart.parent x y) : x ∈ ids ∧ y ∈ ids :=
        prepared.inside x y (hinside x y h)
      have hbegin : Climbing ids chart.parent chart.state ⟨chart.state, [], some start⟩ := {
        trail := trivial
        nodup := List.nodup_nil
        listed := by simp
        next := fun x hx => Option.some.inj hx ▸ hstart
        fresh := by simp
        walking := by simp
        others := fun _ _ => rfl }
      have hfirst := hbegin.step hids rfl hmark
      obtain ⟨climbed, hclimb, climbing, hprefix, stopped⟩ :=
        climb_spec hids ids.length hfirst (by simp)
      have hpath : start ∈ climbed.path := hprefix.subset (by simp)
      have hwhole : climb chart.parent (ids.length + 1) ⟨chart.state, [], some start⟩ =
          some climbed := by
        rw [← hclimb, climb]
        simp [hmark]
      have hfresh (x : ι) (hx : x ∈ climbed.path) : chart.parent x = initial.parent x := by
        apply (walked.kept x _).1
        intro h
        rw [climbing.fresh x hx] at h
        cases h.1
      have climbing' : Climbing ids initial.parent chart.state climbed :=
        { climbing with trail := climbing.trail.congr hfresh }
      obtain ⟨cut, hcut, hbroken, hkept⟩ := cutCycle_spec prepared walked climbing' stopped
      have hstate (x : ι) : climbed.path.foldl
          (fun state id => Function.update state id (some .done)) climbed.state x =
          if x ∈ climbed.path then some .done else chart.state x := by
        rw [state_foldl]
        split
        · rfl
        · next hnot => exact climbing.others x hnot
      rw [if_neg (by simp), hwhole, Option.bind_some, hcut, Option.map_some]
      refine ⟨_, rfl, ?_, ?_, ?_⟩
      · exact walked.extend (fun x y => climbing'.closed walked stopped) hstate
          hbroken hkept
      · exact (hstate start).trans (if_pos hpath)
      · intro x hx
        refine (hstate x).trans ?_
        rw [hx, ite_self]

/-- After the walks from some persons they are all done. -/
theorem walks_spec (prepared : Prepared ids initial) (starts : List ι)
    (walked : Walked ids initial chart) (hstarts : ∀ x ∈ starts, x ∈ ids) :
    ∃ last, starts.foldlM (walkFrom ids) chart = some last ∧ Walked ids initial last ∧
      (∀ x, chart.state x = some .done → last.state x = some .done) ∧
      ∀ x ∈ starts, last.state x = some .done := by
  induction starts generalizing chart with
  | nil => exact ⟨chart, rfl, walked, fun x hx => hx, by simp⟩
  | cons start rest ih =>
      obtain ⟨next, hnext, hwalked, hdone, hkeep⟩ :=
        walkFrom_spec prepared walked (hstarts start List.mem_cons_self)
      obtain ⟨last, hlast, hwalked', hkeep', hrest⟩ :=
        ih hwalked fun x hx => hstarts x (List.mem_cons_of_mem start hx)
      refine ⟨last, ?_, hwalked', fun x hx => hkeep' x (hkeep x hx), ?_⟩
      · rw [List.foldlM_cons, hnext, Option.bind_eq_bind, Option.bind_some, hlast]
      · intro x hx
        rcases List.mem_cons.mp hx with heq | hx
        · exact heq ▸ hkeep' start hdone
        · exact hrest x hx

theorem Prepared.walked (prepared : Prepared ids initial) : Walked ids initial initial where
  marks x := by simp [prepared.unmarked x]
  closed x y hx := by simp [prepared.unmarked x] at hx
  cut x hx := by simp [prepared.unmarked x] at hx
  kept x _ := ⟨rfl, rfl⟩

/-- The chart after all walks: every cycle is cut at its first person. -/
structure Cut (ids : List ι) (initial chart : Chart ι) : Prop where
  cut : ∀ x, IsBreaker ids initial x → chart.parent x = none ∧ chart.issue x = some .cycle
  kept : ∀ x, ¬ IsBreaker ids initial x →
    chart.parent x = initial.parent x ∧ chart.issue x = initial.issue x

theorem allWalks_spec (prepared : Prepared ids initial) :
    ∃ chart, ids.foldlM (walkFrom ids) initial = some chart ∧ Cut ids initial chart := by
  obtain ⟨chart, hchart, hwalked, -, hdone⟩ :=
    walks_spec prepared ids prepared.walked fun x hx => hx
  refine ⟨chart, hchart, ?_, ?_⟩
  · intro x hx
    exact hwalked.cut x (hdone x (hx.mem prepared)) hx
  · intro x hx
    exact hwalked.kept x fun h => hx h.2

theorem Cut.points_iff (cut : Cut ids initial chart) (x y : ι) :
    Points chart.parent x y ↔ Points initial.parent x y ∧ ¬ IsBreaker ids initial x := by
  unfold Points
  by_cases hx : IsBreaker ids initial x
  · simp [(cut.cut x hx).1, hx]
  · simp [(cut.kept x hx).1, hx]

theorem Cut.acyclic (prepared : Prepared ids initial) (cut : Cut ids initial chart) :
    Acyclic chart.parent ids where
  inside x y h := prepared.inside x y ((cut.points_iff x y).mp h).1
  acyclic := acyclic_of_cut cut.points_iff

end

end Sinnlos.Web.OrgChart

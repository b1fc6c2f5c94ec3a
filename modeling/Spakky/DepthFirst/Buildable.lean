import Spakky.DepthFirst.Basic

/-!
What a search that stops only at nodes under construction can construct. It
succeeds exactly on the nodes whose plans, followed all the way down, contain
no failure and do not go on forever; in particular the order of the roots and
what was done before do not matter.
-/

namespace Spakky.DepthFirst

open Effect Exec List Relation

variable {ν ε : Type}

/-- The plan of the first node visits the second. -/
def Needs (problem : Problem ν ε) (p q : ν) : Prop := ∃ fresh, .visit q fresh ∈ problem.plan p

/-- The plan of the node, followed all the way down, succeeds. -/
inductive Buildable (problem : Problem ν ε) : ν → Prop
  | intro {p : ν} (hfails : ∀ error, .fail error ∉ problem.plan p)
      (hneeds : ∀ q, Needs problem p q → Buildable problem q) : Buildable problem p

section Buildable

variable {problem : Problem ν ε}

theorem Buildable.irreflexive {p : ν} (hbuildable : Buildable problem p) :
    ¬ TransGen (Needs problem) p p := by
  induction hbuildable with
  | intro _ _ ih =>
    intro hcycle
    obtain ⟨q, hneeds, hrest⟩ := TransGen.head'_iff.mp hcycle
    exact ih q hneeds (TransGen.tail' hrest hneeds)

/-- What a node needs can be built when the node can. -/
theorem Buildable.needs {p q : ν} (hbuildable : Buildable problem p)
    (hneeds : ReflTransGen (Needs problem) p q) : Buildable problem q := by
  induction hneeds with
  | refl => exact hbuildable
  | tail _ hstep ih =>
    cases ih with
    | intro _ hnext => exact hnext _ hstep

variable [DecidableEq ν]

/-- The search stops only at nodes that are under construction. -/
def Precise (problem : Problem ν ε) : Prop := ∀ p stack, problem.clash p stack = decide (p ∈ stack)

/-- A node that can be built is built from any stack of nodes that need it. -/
theorem Buildable.visit (hprecise : Precise problem) {p : ν} (hbuildable : Buildable problem p) :
    ∀ stack, (∀ q ∈ stack, TransGen (Needs problem) q p) → ∀ s : Search ν,
      ∃ fuel t, visit problem fuel stack p s = (.ok (), t) := by
  induction hbuildable with
  | @intro p hfails hneeds ih =>
    intro stack hstack s
    have hfree : p ∉ stack := fun hmem =>
      (Buildable.intro hfails hneeds).irreflexive (hstack p hmem)
    have hclash : problem.clash p stack = false := by
      rw [hprecise, decide_eq_false hfree]
    have hfollow : ∀ items, (∀ item ∈ items, item ∈ problem.plan p) → ∀ s : Search ν,
        ∃ fuel t, follow (DepthFirst.visit problem fuel) (p :: stack) items s = (.ok (), t) := by
      intro items
      induction items with
      | nil => exact fun _ s => ⟨0, s, rfl⟩
      | cons item rest ihrest =>
        intro hitems s
        cases item with
        | fail error => exact absurd (hitems _ (.head _)) (hfails error)
        | visit q fresh =>
          have hneed : Needs problem p q := ⟨fresh, hitems _ (.head _)⟩
          have hbelow : ∀ q' ∈ (if fresh then [] else p :: stack),
              TransGen (Needs problem) q' q := by
            intro q' hmem
            cases fresh with
            | true => cases hmem
            | false =>
              rcases mem_cons.mp hmem with rfl | hold
              · exact .single hneed
              · exact (hstack q' hold).tail hneed
          obtain ⟨fuel, t, hfirst⟩ := ih q hneed _ hbelow s
          obtain ⟨fuel', u, hrest⟩ := ihrest (fun item hmem => hitems item (.tail _ hmem)) t
          refine ⟨max fuel fuel', u, ?_⟩
          have hfirst' := visit_mono problem (Nat.le_max_left fuel fuel')
            (if fresh then [] else p :: stack) q s (by rw [hfirst]; simp)
          have hrest' := follow_mono problem (Nat.le_max_right fuel fuel') (p :: stack)
            rest t (by rw [hrest]; simp)
          rw [follow_visit, bind_ok _ (hfirst'.trans hfirst), hrest', hrest]
    cases hheld : s.holds problem p with
    | true => exact ⟨1, s, visit_held problem 0 stack p s hheld⟩
    | false =>
      obtain ⟨fuel, t, hplan⟩ := hfollow (problem.plan p) (fun _ h => h) (s.enter p stack)
      exact ⟨fuel + 1, t.complete problem p, visit_ok hheld hclash hplan⟩

theorem buildable_establishes :
    Establishes problem (fun s => ∀ p ∈ s.done, Buildable problem p)
      (fun _ p => Buildable problem p) where
  enter := fun hdone => hdone
  keepsEnter := fun hbuildable => hbuildable
  keepsComplete := fun hbuildable => hbuildable
  held := by
    intro s p hdone hheld
    simp only [Search.holds, Bool.and_eq_true, decide_eq_true_eq] at hheld
    exact hdone p hheld.2
  complete := by
    intro s p hdone hfails hvisits
    have hbuildable : Buildable problem p :=
      .intro hfails fun q ⟨fresh, hmem⟩ => hvisits q fresh hmem
    refine ⟨fun q hmem => ?_, hbuildable⟩
    unfold Search.complete at hmem
    cases hmemo : problem.memo p with
    | false =>
      simp only [hmemo] at hmem
      exact hdone q hmem
    | true =>
      simp only [hmemo, if_true, mem_cons] at hmem
      rcases hmem with rfl | hold
      · exact hbuildable
      · exact hdone q hold

/-- Construct the given nodes one after the other. -/
def constructAll (problem : Problem ν ε) (fuel : Nat) (roots : List ν) : SearchM ν ε Unit :=
  follow (visit problem fuel) [] (roots.map fun root => .visit root true)

/-- A precise search constructs a list of nodes exactly when each of them can
be built. -/
theorem constructAll_ok_iff (hprecise : Precise problem) (roots : List ν) {s : Search ν}
    (hdone : ∀ p ∈ s.done, Buildable problem p) :
    (∃ fuel, (constructAll problem fuel roots s).1 = .ok ()) ↔
      ∀ root ∈ roots, Buildable problem root := by
  constructor
  · rintro ⟨fuel, hok⟩ root hmem
    have hbuilt := (buildable_establishes.follow fuel [] _ s hdone).2 hok
    exact hbuilt.2 root true (mem_map.mpr ⟨root, hmem, rfl⟩)
  · intro hroots
    induction roots generalizing s with
    | nil => exact ⟨0, rfl⟩
    | cons root rest ih =>
      obtain ⟨fuel, t, hfirst⟩ := (hroots root (.head _)).visit hprecise []
        (by simp) s
      have hkept := (buildable_establishes.visit fuel [] root s hdone).1
      rw [hfirst] at hkept
      obtain ⟨fuel', hrest⟩ := ih hkept fun p hmem => hroots p (.tail _ hmem)
      refine ⟨max fuel fuel', ?_⟩
      have hfirst' := visit_mono problem (Nat.le_max_left fuel fuel') [] root s
        (by rw [hfirst]; simp)
      have hrest' := follow_mono problem (Nat.le_max_right fuel fuel') []
        (rest.map fun root => .visit root true) t (by
          unfold constructAll at hrest
          rw [hrest]
          simp)
      unfold constructAll at hrest ⊢
      rw [map_cons, follow_visit, if_pos rfl, bind_ok _ (hfirst'.trans hfirst), hrest', hrest]

variable (fuel : Nat)

theorem constructAll_cons (root : ν) (rest : List ν) :
    constructAll problem fuel (root :: rest) = (do
      visit problem fuel [] root
      constructAll problem fuel rest) := rfl

variable {roots : List ν}

/-- Any two amounts of fuel that suffice give the same result. -/
theorem constructAll_unique {fuel other : Nat} {s : Search ν}
    (hfuel : (constructAll problem fuel roots s).1 ≠ .error .outOfFuel)
    (hother : (constructAll problem other roots s).1 ≠ .error .outOfFuel) :
    constructAll problem fuel roots s = constructAll problem other roots s := by
  unfold constructAll at hfuel hother ⊢
  rw [← follow_mono problem (Nat.le_max_left fuel other) _ _ _ hfuel,
    follow_mono problem (Nat.le_max_right fuel other) _ _ _ hother]

/-- A list of nodes can be worked through when each search from it ends. -/
theorem constructAll_terminates
    (hends : ∀ root ∈ roots, ∀ s, ∃ fuel, (visit problem fuel [] root s).1 ≠ .error .outOfFuel)
    (s : Search ν) : ∃ fuel, (constructAll problem fuel roots s).1 ≠ .error .outOfFuel := by
  induction roots generalizing s with
  | nil => exact ⟨0, by simp [constructAll, follow]⟩
  | cons root _ ih =>
    obtain ⟨fuel, hfirst⟩ := hends root (.head _) s
    cases hrun : visit problem fuel [] root s with
    | mk outcome t =>
      obtain ⟨fuel', hrest⟩ := ih (fun p hmem => hends p (.tail _ hmem)) t
      refine ⟨max fuel fuel', ?_⟩
      have hfirst' := visit_mono problem (Nat.le_max_left fuel fuel') [] root s hfirst
      have hrest' := follow_mono problem (Nat.le_max_right fuel fuel') [] _ t hrest
      rw [hrun] at hfirst hfirst'
      rw [constructAll_cons]
      cases outcome with
      | error =>
        rw [bind_error _ hfirst']
        exact hfirst
      | ok =>
        rw [bind_ok _ hfirst']
        unfold constructAll at hrest ⊢
        rwa [hrest']

variable (problem) in
/-- Everything that is built had its plan built before. -/
theorem built_establishes :
    Establishes problem
      (fun s => (∀ p ∈ s.done, p ∈ s.built) ∧ ∀ p ∈ s.built, ∀ q, Needs problem p q → q ∈ s.built)
      (fun s p => p ∈ s.built) where
  enter := fun hbuilt => hbuilt
  keepsEnter := fun hmem => hmem
  keepsComplete := fun hmem => mem_append_left _ hmem
  held := fun hbuilt hheld => hbuilt.1 _ (by
    simp only [Search.holds, Bool.and_eq_true, decide_eq_true_eq] at hheld
    exact hheld.2)
  complete := by
    intro s p hbuilt _ hvisits
    have hlast : p ∈ (s.complete problem p).built := mem_append_right _ (mem_singleton.mpr rfl)
    refine ⟨⟨fun q hmem => ?_, fun q hmem r hneeds => mem_append_left _ ?_⟩, hlast⟩
    · have hcases : q = p ∨ q ∈ s.done := by
        unfold Search.complete at hmem
        cases hmemo : problem.memo p <;> simp_all
      rcases hcases with rfl | hold
      · exact hlast
      · exact mem_append_left _ (hbuilt.1 q hold)
    · rcases mem_append.mp hmem with hold | hnew
      · exact hbuilt.2 q hold r hneeds
      · rw [mem_singleton] at hnew
        subst hnew
        obtain ⟨fresh, hvisit⟩ := hneeds
        exact hvisits r fresh hvisit

/-- Only what the nodes of a plan need is built on its behalf, if this holds of
their visits. -/
theorem follow_built_of_visit {fuel : Nat}
    (hvisit : ∀ stack p s, ∀ q ∈ (visit problem fuel stack p s).2.built,
      q ∈ s.built ∨ ReflTransGen (Needs problem) p q)
    (items : List (Item ν ε)) (stack : List ν) (s : Search ν) :
    ∀ q ∈ (follow (visit problem fuel) stack items s).2.built,
      q ∈ s.built ∨ ∃ r fresh, .visit r fresh ∈ items ∧ ReflTransGen (Needs problem) r q := by
  induction items generalizing s with
  | nil => exact fun q hmem => .inl hmem
  | cons item rest ihrest =>
    intro q hmem
    cases item with
    | fail => exact .inl hmem
    | visit r fresh =>
      have hfirst := hvisit (if fresh then [] else stack) r s
      rw [follow_visit, bind_run] at hmem
      cases hrun : visit problem fuel (if fresh then [] else stack) r s with
      | mk outcome t =>
        rw [hrun] at hmem hfirst
        have hhere : q ∈ t.built → q ∈ s.built ∨ ∃ r' fresh',
            .visit r' fresh' ∈ (.visit r fresh :: rest : List (Item ν ε)) ∧
              ReflTransGen (Needs problem) r' q := by
          intro hbuilt
          rcases hfirst q hbuilt with hold | hreach
          · exact .inl hold
          · exact .inr ⟨r, fresh, .head _, hreach⟩
        cases outcome with
        | error => exact hhere hmem
        | ok =>
          rcases ihrest t q hmem with hbuilt | ⟨r', fresh', hitem, hreach⟩
          · exact hhere hbuilt
          · exact .inr ⟨r', fresh', .tail _ hitem, hreach⟩

variable (problem) in
/-- Only what a node needs is built on its behalf. -/
theorem visit_built (stack : List ν) (p : ν) (s : Search ν) :
    ∀ q ∈ (visit problem fuel stack p s).2.built,
      q ∈ s.built ∨ ReflTransGen (Needs problem) p q := by
  induction fuel generalizing stack p s with
  | zero => exact fun q hmem => .inl hmem
  | succ fuel ih =>
    intro q hmem
    have hplanned := follow_built_of_visit ih (problem.plan p) (p :: stack) (s.enter p stack) q
    have hbelow : (∃ r fresh, .visit r fresh ∈ problem.plan p ∧
        ReflTransGen (Needs problem) r q) → ReflTransGen (Needs problem) p q := by
      rintro ⟨r, fresh, hvisit, hreach⟩
      exact hreach.head ⟨fresh, hvisit⟩
    have hend := visit_visited problem fuel stack p s
    generalize visit problem (fuel + 1) stack p s = result at hend hmem
    cases hend with
    | held => exact .inl hmem
    | clash => exact .inl hmem
    | failed _ _ hplan =>
      rw [hplan] at hplanned
      exact (hplanned hmem).imp_right hbelow
    | done _ _ hplan =>
      rw [hplan] at hplanned
      rcases mem_append.mp hmem with hbuilt | hnew
      · exact (hplanned hbuilt).imp_right hbelow
      · rw [mem_singleton] at hnew
        exact .inr (hnew ▸ .refl)

variable (problem) in
/-- A node is needed for the construction of the given ones. -/
def Needed (problem : Problem ν ε) (roots : List ν) (p : ν) : Prop :=
  ∃ root ∈ roots, ReflTransGen (Needs problem) root p

theorem constructAll_built (roots : List ν) (s : Search ν) :
    ∀ q ∈ (constructAll problem fuel roots s).2.built, q ∈ s.built ∨ Needed problem roots q := by
  induction roots generalizing s with
  | nil => exact fun q hmem => .inl hmem
  | cons root rest ih =>
    intro q hmem
    have hfirst := visit_built problem fuel [] root s
    rw [constructAll_cons, bind_run] at hmem
    cases hrun : visit problem fuel [] root s with
    | mk outcome t =>
      rw [hrun] at hmem hfirst
      have hhere : q ∈ t.built → q ∈ s.built ∨ Needed problem (root :: rest) q := by
        intro hbuilt
        rcases hfirst q hbuilt with hold | hreach
        · exact .inl hold
        · exact .inr ⟨root, .head _, hreach⟩
      cases outcome with
      | error => exact hhere hmem
      | ok =>
        rcases ih t q hmem with hbuilt | ⟨root', hroot, hreach⟩
        · exact hhere hbuilt
        · exact .inr ⟨root', .tail _ hroot, hreach⟩

/-- Starting from nothing, exactly the needed nodes are built. -/
theorem mem_built_iff {fuel : Nat} (hok : (constructAll problem fuel roots {}).1 = .ok ()) (q : ν) :
    q ∈ (constructAll problem fuel roots {}).2.built ↔ Needed problem roots q := by
  constructor
  · intro hmem
    rcases constructAll_built fuel roots {} q hmem with hold | hneeded
    · cases hold
    · exact hneeded
  · rintro ⟨root, hroot, hreach⟩
    obtain ⟨hclosed, hbuilt⟩ := (built_establishes problem).follow fuel []
      (roots.map fun root => .visit root true) {} (by simp)
    have hfirst := (hbuilt hok).2 root true (mem_map.mpr ⟨root, hroot, rfl⟩)
    induction hreach with
    | refl => exact hfirst
    | tail _ hneeds ih => exact hclosed.2 _ ih _ hneeds

end Buildable

end Spakky.DepthFirst

import Mathlib.Data.List.Perm.Subperm
import Spakky.DepthFirst.Basic

/-!
Termination of a search whose plans may start fresh searches. The stack test
bounds each chain of ordinary visits, but a fresh search forgets the stack. A
search terminates exactly when no node is reached with an empty stack while
it is itself under construction from an empty stack.
-/

namespace Spakky.DepthFirst

open Effect Exec List Relation

variable {ν ε : Type}

/-- A plan that runs out of fuel does so at one of its visits. -/
theorem follow_outOfFuel {search : List ν → ν → SearchM ν ε Unit} {stack : List ν}
    {items : List (Item ν ε)} {s : Search ν}
    (hout : (follow search stack items s).1 = .error .outOfFuel) :
    ∃ before q fresh after t, items = before ++ .visit q fresh :: after ∧
      follow search stack before s = (.ok (), t) ∧
      (search (if fresh then [] else stack) q t).1 = .error .outOfFuel := by
  induction items generalizing s with
  | nil => cases hout
  | cons item rest ih =>
    cases item with
    | fail => cases hout
    | visit q fresh =>
      cases hrun : search (if fresh then [] else stack) q s with
      | mk outcome =>
        rw [follow_visit] at hout
        cases outcome with
        | error =>
          rw [bind_error _ hrun] at hout
          cases hout
          exact ⟨[], q, fresh, rest, s, rfl, rfl, by rw [hrun]⟩
        | ok =>
          rw [bind_ok _ hrun] at hout
          obtain ⟨before, q', fresh', after, u, hsplit, hbefore, hlast⟩ := ih hout
          refine ⟨.visit q fresh :: before, q', fresh', after, u, ?_, ?_, hlast⟩
          · rw [hsplit, cons_append]
          · rw [follow_visit, bind_ok _ hrun]
            exact hbefore

/-- A node about to be constructed. -/
structure Frame (ν : Type) where
  node : ν
  stack : List ν
  state : Search ν

variable [DecidableEq ν]

def Frame.IsOpen (problem : Problem ν ε) (f : Frame ν) : Prop :=
  f.state.holds problem f.node = false ∧ problem.clash f.node f.stack = false

/-- The construction of the first node gets as far as constructing the
second. -/
inductive Calls (problem : Problem ν ε) : Frame ν → Frame ν → Prop
  | intro {p q : ν} {stack : List ν} {s t : Search ν} {before after : List (Item ν ε)}
      {fresh : Bool} {fuel : Nat} (hopen : Frame.IsOpen problem ⟨p, stack, s⟩)
      (hplan : problem.plan p = before ++ .visit q fresh :: after)
      (hbefore : follow (visit problem fuel) (p :: stack) before (s.enter p stack) = (.ok (), t))
      (hheld : t.holds problem q = false)
      (hclash : problem.clash q (if fresh then [] else p :: stack) = false) :
      Calls problem ⟨p, stack, s⟩ ⟨q, if fresh then [] else p :: stack, t⟩

def Exhausts (problem : Problem ν ε) (fuel : Nat) (f : Frame ν) : Prop :=
  (visit problem fuel f.stack f.node f.state).1 = .error .outOfFuel

section Frames

variable {problem : Problem ν ε} {f : Frame ν}

theorem Calls.isOpen {g : Frame ν} (hcalls : Calls problem f g) : g.IsOpen problem := by
  cases hcalls with
  | intro _ _ _ hheld hclash => exact ⟨hheld, hclash⟩

theorem Calls.source_isOpen {g : Frame ν} (hcalls : Calls problem f g) : f.IsOpen problem := by
  cases hcalls with
  | intro hopen => exact hopen

variable {fuel : Nat}

theorem exhausts_isOpen (hout : Exhausts problem (fuel + 1) f) : f.IsOpen problem := by
  unfold Exhausts at hout
  have hend := visit_visited problem fuel f.stack f.node f.state
  generalize visit problem (fuel + 1) f.stack f.node f.state = result at hend hout
  cases hend with
  | held => cases hout
  | clash => cases hout
  | done hheld hclash => exact ⟨hheld, hclash⟩
  | failed hheld hclash => exact ⟨hheld, hclash⟩

theorem exhausts_plan (hopen : f.IsOpen problem) :
    Exhausts problem (fuel + 1) f ↔
      (follow (visit problem fuel) (f.node :: f.stack) (problem.plan f.node)
        (f.state.enter f.node f.stack)).1 = .error .outOfFuel := by
  unfold Exhausts
  cases hrun : follow (visit problem fuel) (f.node :: f.stack) (problem.plan f.node)
      (f.state.enter f.node f.stack) using exec_cases with
  | ok => rw [visit_ok hopen.1 hopen.2 hrun]
  | error => rw [visit_error hopen.1 hopen.2 hrun]

/-- Running out of fuel is passed on to a frame that was called. -/
theorem exhausts_step (hout : Exhausts problem (fuel + 2) f) :
    ∃ g, Calls problem f g ∧ Exhausts problem (fuel + 1) g := by
  have hopen := exhausts_isOpen hout
  rw [exhausts_plan hopen] at hout
  obtain ⟨_, q, fresh, _, t, hplan, hbefore, hlast⟩ := follow_outOfFuel hout
  have hcallee : Exhausts problem (fuel + 1)
      ⟨q, if fresh then [] else f.node :: f.stack, t⟩ := hlast
  obtain ⟨hheld, hclash⟩ := exhausts_isOpen hcallee
  exact ⟨_, .intro hopen hplan hbefore hheld hclash, hcallee⟩

/-- A frame with enough fuel leaves enough to every frame it calls. -/
theorem Calls.enough {g : Frame ν} (hcalls : Calls problem f g)
    (henough : ¬ Exhausts problem (fuel + 1) f) : ¬ Exhausts problem fuel g := by
  rw [exhausts_plan hcalls.source_isOpen] at henough
  cases hcalls with
  | @intro p q stack s t before after fresh fuel' hsrc hplan hbefore hheld hclash =>
    intro hout
    apply henough
    have hkept : (follow (visit problem fuel) (p :: stack) before (s.enter p stack)).1 ≠
        .error .outOfFuel := by
      intro hearly
      apply henough
      cases hrun : follow (visit problem fuel) (p :: stack) before (s.enter p stack) with
      | mk =>
        rw [hrun] at hearly
        cases hearly
        rw [hplan, follow_append, bind_error _ hrun]
    have hsame : follow (visit problem fuel) (p :: stack) before (s.enter p stack) =
        (.ok (), t) := by
      have hmore := follow_mono problem (Nat.le_max_left fuel fuel') _ _ _ hkept
      have hmore' := follow_mono problem (Nat.le_max_right fuel fuel') (p :: stack) before
        (s.enter p stack) (by rw [hbefore]; simp)
      rw [← hmore, hmore', hbefore]
    rw [hplan, follow_append, bind_ok _ hsame, follow_visit]
    unfold Exhausts at hout
    cases hrun : visit problem fuel (if fresh then [] else p :: stack) q t with
    | mk =>
      rw [hrun] at hout
      cases hout
      rw [bind_error _ hrun]

/-- A node is constructed from an empty stack while it is already under
construction from an empty stack. -/
def Reenters (problem : Problem ν ε) (root : Frame ν) : Prop :=
  ∃ a s t, ReflTransGen (Calls problem) root ⟨a, [], s⟩ ∧
    TransGen (Calls problem) ⟨a, [], s⟩ ⟨a, [], t⟩

/-- The nodes of a search stay within a list, and a node on the stack stops
it. -/
structure Confined (problem : Problem ν ε) (nodes : List ν) : Prop where
  visits : ∀ p ∈ nodes, ∀ q fresh, .visit q fresh ∈ problem.plan p → q ∈ nodes
  stops : ∀ p stack, p ∈ stack → problem.clash p stack = true

/-- The frames of one chain of calls: the nodes constructed from an empty
stack are distinct, and so are the nodes of the current stack. -/
structure Chain (problem : Problem ν ε) (nodes : List ν) (root : Frame ν) (bases : List ν)
    (f : Frame ν) : Prop where
  basesNodup : bases.Nodup
  basesSubset : bases ⊆ nodes
  basesCall : ∀ a ∈ bases, ∃ s, ReflTransGen (Calls problem) root ⟨a, [], s⟩ ∧
    ReflTransGen (Calls problem) ⟨a, [], s⟩ f
  stackNodup : f.stack.Nodup
  stackSubset : f.stack ⊆ nodes
  node : f.node ∈ nodes
  isOpen : f.IsOpen problem
  called : ReflTransGen (Calls problem) root f

variable {nodes : List ν}

theorem Chain.stack_lt {root : Frame ν} {bases : List ν} (hconfined : Confined problem nodes)
    (hchain : Chain problem nodes root bases f) :
    f.node ∉ f.stack ∧ f.stack.length < nodes.length := by
  have hfree : f.node ∉ f.stack := by
    intro hmem
    have hstop := hconfined.stops f.node f.stack hmem
    rw [hchain.isOpen.2] at hstop
    cases hstop
  have hnodup : (f.node :: f.stack).Nodup := nodup_cons.mpr ⟨hfree, hchain.stackNodup⟩
  have hsub : f.node :: f.stack ⊆ nodes := cons_subset.mpr ⟨hchain.node, hchain.stackSubset⟩
  have hlen := (subperm_of_subset hnodup hsub).length_le
  rw [length_cons] at hlen
  exact ⟨hfree, by omega⟩

/-- Without re-entry the fuel a chain of calls can use up is bounded. -/
theorem Chain.bounded {root : Frame ν} (hconfined : Confined problem nodes)
    (hentry : ¬ Reenters problem root) {bases : List ν} (hchain : Chain problem nodes root bases f)
    (fuel : Nat) (hfuel : (nodes.length - bases.length) * (nodes.length + 1) +
      (nodes.length - f.stack.length) ≤ fuel) : ¬ Exhausts problem (fuel + 1) f := by
  induction fuel generalizing bases f with
  | zero =>
    have hroom := (hchain.stack_lt hconfined).2
    omega
  | succ _ ih =>
    intro hout
    obtain ⟨hfree, hroom⟩ := hchain.stack_lt hconfined
    obtain ⟨g, hcalls, hlater⟩ := exhausts_step hout
    have hopen := hcalls.isOpen
    have hcalled := hchain.called.tail hcalls
    have hbases : ∀ a ∈ bases, ∃ s, ReflTransGen (Calls problem) root ⟨a, [], s⟩ ∧
        ReflTransGen (Calls problem) ⟨a, [], s⟩ g := by
      intro a hmem
      obtain ⟨s, hroot, hlate⟩ := hchain.basesCall a hmem
      exact ⟨s, hroot, hlate.tail hcalls⟩
    cases hcalls with
    | @intro p q stack s t before after fresh fuel' hsrc hplan hbefore hheld hclash =>
      have hnode : q ∈ nodes := by
        apply hconfined.visits p hchain.node q fresh
        rw [hplan]
        simp
      cases fresh with
      | false =>
        refine ih ⟨hchain.basesNodup, hchain.basesSubset, hbases, ?_, ?_, hnode, hopen,
          hcalled⟩ ?_ hlater
        · exact nodup_cons.mpr ⟨hfree, hchain.stackNodup⟩
        · exact cons_subset.mpr ⟨hchain.node, hchain.stackSubset⟩
        · simp only [Bool.false_eq_true, if_false, length_cons] at hroom hfuel ⊢
          omega
      | true =>
        have hnew : q ∉ bases := by
          intro hmem
          obtain ⟨s', hroot, hlate⟩ := hchain.basesCall q hmem
          refine hentry ⟨q, s', t, hroot, ?_⟩
          exact TransGen.tail' hlate (.intro hsrc hplan hbefore hheld hclash)
        have hnodup : (q :: bases).Nodup := nodup_cons.mpr ⟨hnew, hchain.basesNodup⟩
        have hsub : q :: bases ⊆ nodes := cons_subset.mpr ⟨hnode, hchain.basesSubset⟩
        have hlen := (subperm_of_subset hnodup hsub).length_le
        have hopened : Chain problem nodes root (q :: bases) ⟨q, [], t⟩ := by
          refine ⟨hnodup, hsub, ?_, nodup_nil, nil_subset _, hnode, hopen, hcalled⟩
          exact forall_mem_cons.mpr ⟨⟨t, hcalled, .refl⟩, hbases⟩
        refine ih hopened ?_ hlater
        · simp only [length_cons] at hlen
          simp only [length_cons, length_nil]
          obtain ⟨spare, hspare⟩ : ∃ spare, nodes.length - bases.length = spare + 1 :=
            ⟨nodes.length - bases.length - 1, by omega⟩
          rw [hspare, Nat.succ_mul] at hfuel
          rw [show nodes.length - (bases.length + 1) = spare by omega]
          omega

theorem terminates_of_not_reenters (hconfined : Confined problem nodes) {p : ν} (hnode : p ∈ nodes)
    {s : Search ν} (hentry : ¬ Reenters problem ⟨p, [], s⟩) :
    ∃ fuel, (visit problem fuel [] p s).1 ≠ .error .outOfFuel := by
  refine ⟨(nodes.length - 1) * (nodes.length + 1) + nodes.length + 1, fun hout => ?_⟩
  have hopen : Frame.IsOpen problem ⟨p, [], s⟩ := exhausts_isOpen hout
  have hchain : Chain problem nodes ⟨p, [], s⟩ [p] ⟨p, [], s⟩ :=
    ⟨nodup_singleton p, by simpa using hnode, by simpa using ⟨s, .refl, .refl⟩,
      nodup_nil, nil_subset _, hnode, hopen, .refl⟩
  exact hchain.bounded hconfined hentry _ (by simp) hout

/-- A search that never starts afresh re-enters nothing. -/
theorem not_reenters (hfresh : ∀ p q, .visit q true ∉ problem.plan p) (root : Frame ν) :
    ¬ Reenters problem root := by
  rintro ⟨a, _, t, _, hreturn⟩
  obtain ⟨f, _, hcalls⟩ := TransGen.tail'_iff.mp hreturn
  obtain ⟨q, _, _⟩ := f
  generalize hframe : (⟨a, [], t⟩ : Frame ν) = g at hcalls
  cases hcalls with
  | @intro _ _ _ _ _ before after fresh _ _ hplan =>
    cases fresh with
    | false => cases hframe
    | true =>
      apply hfresh q a
      cases hframe
      rw [hplan]
      simp

end Frames

end Spakky.DepthFirst

import Spakky.DepthFirst.Reentry

/-!
A search that re-enters a node does not terminate. What was done before the
second entry only grows, so the way from the first entry to the second can be
taken again from there: its nodes can never be finished, and every plan that
was followed on the way still succeeds when more is done. The latter needs
that whatever was done since the search began had everything in its plan done
before it; nothing is asked of what was done at the beginning.
-/

namespace Spakky.DepthFirst

open Effect Exec Relation

variable {ν ε : Type} [DecidableEq ν] {problem : Problem ν ε}

/-- Constructing the node finishes nothing that is not done yet. -/
inductive Ready (problem : Problem ν ε) (s : Search ν) : ν → Prop
  | held {q : ν} (hmemo : problem.memo q = true) (hdone : q ∈ s.done) : Ready problem s q
  | again {q : ν} (hmemo : problem.memo q = false)
      (hvisits : ∀ q' fresh, .visit q' fresh ∈ problem.plan q → Ready problem s q') :
      Ready problem s q

/-- Whatever was done since the beginning had its plan done before. -/
def Closed (problem : Problem ν ε) (base : List ν) (s : Search ν) : Prop :=
  ∀ p ∈ s.done, p ∉ base → ∀ q fresh, .visit q fresh ∈ problem.plan p → Ready problem s q

omit [DecidableEq ν] in
theorem Ready.mono {s t : Search ν} (hdone : s.done ⊆ t.done) {q : ν}
    (hready : Ready problem s q) : Ready problem t q := by
  induction hready with
  | held hmemo hmem => exact .held hmemo (hdone hmem)
  | again hmemo _ ih => exact .again hmemo ih

theorem holds_iff {s : Search ν} {p : ν} :
    s.holds problem p = true ↔ problem.memo p = true ∧ p ∈ s.done := by
  simp [Search.holds]

theorem holds_mono {s t : Search ν} (hdone : s.done ⊆ t.done) {p : ν}
    (hheld : s.holds problem p = true) : t.holds problem p = true := by
  rw [holds_iff] at hheld ⊢
  exact ⟨hheld.1, hdone hheld.2⟩

theorem holds_anti {s t : Search ν} (hdone : s.done ⊆ t.done) {p : ν}
    (hopen : t.holds problem p = false) : s.holds problem p = false := by
  cases hheld : s.holds problem p with
  | false => rfl
  | true =>
    rw [holds_mono hdone hheld] at hopen
    cases hopen

omit [DecidableEq ν] in
variable (problem) in
theorem subset_complete (s : Search ν) (p : ν) : s.done ⊆ (s.complete problem p).done := by
  unfold Search.complete
  cases problem.memo p
  · exact List.Subset.refl _
  · exact List.subset_cons_self p s.done

variable (problem) in
theorem follow_subset (fuel : Nat) (stack : List ν) (items : List (Item ν ε)) (s : Search ν) :
    s.done ⊆ (follow (visit problem fuel) stack items s).2.done :=
  follow_relates (R := fun s t => s.done ⊆ t.done) problem (fun _ => List.Subset.refl _)
    (fun hst htu => List.Subset.trans hst htu) (fun _ _ _ => List.Subset.refl _)
    (subset_complete problem) fuel stack items s

variable (problem) in
theorem visit_subset (fuel : Nat) (stack : List ν) (p : ν) (s : Search ν) :
    s.done ⊆ (visit problem fuel stack p s).2.done :=
  visit_relates (R := fun s t => s.done ⊆ t.done) problem (fun _ => List.Subset.refl _)
    (fun hst htu => List.Subset.trans hst htu) (fun _ _ _ => List.Subset.refl _)
    (subset_complete problem) fuel stack p s

variable {base : List ν}

omit [DecidableEq ν] in
theorem Closed.complete {s : Search ν} (hclosed : Closed problem base s) {p : ν}
    (hvisits : ∀ q fresh, .visit q fresh ∈ problem.plan p → Ready problem s q) :
    Closed problem base (s.complete problem p) ∧ Ready problem (s.complete problem p) p := by
  have hsub := subset_complete problem s p
  have hready : ∀ q fresh, .visit q fresh ∈ problem.plan p →
      Ready problem (s.complete problem p) q :=
    fun q fresh hmem => (hvisits q fresh hmem).mono hsub
  cases hmemo : problem.memo p with
  | false =>
    refine ⟨fun p' hmem hnew q fresh hvisit => ?_, .again hmemo hready⟩
    have hold : p' ∈ s.done := by simpa [Search.complete, hmemo] using hmem
    exact (hclosed p' hold hnew q fresh hvisit).mono hsub
  | true =>
    refine ⟨fun p' hmem hnew q fresh hvisit => ?_, .held hmemo (by simp [Search.complete, hmemo])⟩
    have hcases : p' = p ∨ p' ∈ s.done := by simpa [Search.complete, hmemo] using hmem
    rcases hcases with rfl | hold
    · exact hready q fresh hvisit
    · exact (hclosed p' hold hnew q fresh hvisit).mono hsub

omit [DecidableEq ν] in
theorem Closed.enter {s : Search ν} (hclosed : Closed problem base s) (p : ν)
    (stack : List ν) : Closed problem base (s.enter p stack) := by
  intro p' hmem hnew q fresh hvisit
  have hready := hclosed p' hmem hnew q fresh hvisit
  exact .mono (s := s) (t := s.enter p stack) (List.Subset.refl _) hready

/-- Searching keeps the state closed, and a node that was constructed is
ready. -/
theorem closed_establishes : Establishes problem (Closed problem base) (Ready problem) where
  enter := fun hclosed => hclosed.enter _ _
  keepsEnter := fun {s p stack _} hready =>
    Ready.mono (s := s) (t := s.enter p stack) (List.Subset.refl _) hready
  keepsComplete := fun {s p _} hready => hready.mono (subset_complete problem s p)
  held := fun _ hheld => .held (holds_iff.mp hheld).1 (holds_iff.mp hheld).2
  complete := fun hclosed _ hvisits => hclosed.complete hvisits

/-- Constructing from less what is ready in a closed state finishes nothing
outside it. -/
theorem visit_absorbed {t : Search ν} (hclosed : Closed problem base t) (fuel : Nat)
    (stack : List ν) (p : ν) {s s' : Search ν} (hbase : base ⊆ s.done) (hsub : s.done ⊆ t.done)
    (hready : Ready problem t p) (hrun : visit problem fuel stack p s = (.ok (), s')) :
    s'.done ⊆ t.done := by
  induction fuel generalizing stack p s s' with
  | zero => cases hrun
  | succ fuel ih =>
    have hfollow : ∀ items stack s s', base ⊆ s.done → s.done ⊆ t.done →
        (∀ q fresh, .visit q fresh ∈ items → Ready problem t q) →
        follow (visit problem fuel) stack items s = (.ok (), s') → s'.done ⊆ t.done := by
      intro items stack
      induction items with
      | nil =>
        intro s s' _ hs _ hitems
        cases hitems
        exact hs
      | cons item _ ihrest =>
        intro s s' hstart hs hreadies hitems
        cases item with
        | fail => cases hitems
        | visit q fresh =>
          obtain ⟨⟨⟩, u, hfirst, hlater⟩ := bind_eq_ok.mp hitems
          have hgrown := visit_subset problem fuel (if fresh then [] else stack) q s
          rw [hfirst] at hgrown
          have hu := ih _ q hstart hs (hreadies q fresh (.head _)) hfirst
          exact ihrest u s' (List.Subset.trans hstart hgrown) hu
            (fun q' fresh' hmem => hreadies q' fresh' (.tail _ hmem)) hlater
    have hend := visit_visited problem fuel stack p s
    rw [hrun] at hend
    cases hend with
    | held => exact hsub
    | @done u hheld _ hplan =>
      cases hready with
      | held hmemo hdone =>
        have hnew : p ∉ base := fun hmem => by
          rw [holds_iff.mpr ⟨hmemo, hbase hmem⟩] at hheld
          cases hheld
        have hu := hfollow _ _ (s.enter p stack) u hbase hsub
          (hclosed p hdone hnew) hplan
        simpa [Search.complete, hmemo] using ⟨hdone, hu⟩
      | again hmemo hvisits =>
        have hu := hfollow _ _ (s.enter p stack) u hbase hsub hvisits hplan
        simpa [Search.complete, hmemo] using hu

/-- A plan that succeeds still succeeds when more is done, if its visits do. -/
theorem follow_grows_of_visit {fuel : Nat}
    (hvisit : ∀ stack p (s s' t : Search ν), Closed problem base t → base ⊆ s.done →
      s.done ⊆ t.done →
      visit problem fuel stack p s = (.ok (), s') →
      ∃ t', visit problem fuel stack p t = (.ok (), t') ∧ s'.done ⊆ t'.done)
    (stack : List ν) (items : List (Item ν ε)) {s s' t : Search ν}
    (hclosed : Closed problem base t) (hbase : base ⊆ s.done) (hsub : s.done ⊆ t.done)
    (hrun : follow (visit problem fuel) stack items s = (.ok (), s')) :
    ∃ t', follow (visit problem fuel) stack items t = (.ok (), t') ∧ s'.done ⊆ t'.done := by
  induction items generalizing s t with
  | nil =>
    cases hrun
    exact ⟨t, rfl, hsub⟩
  | cons item _ ih =>
    cases item with
    | fail => cases hrun
    | visit q fresh =>
      obtain ⟨⟨⟩, u, hfirst, hlater⟩ := bind_eq_ok.mp hrun
      obtain ⟨v, hfirst', huv⟩ := hvisit _ q s u t hclosed hbase hsub hfirst
      have hgrown := visit_subset problem fuel (if fresh then [] else stack) q s
      rw [hfirst] at hgrown
      have hv : Closed problem base v := by
        have hkept := (closed_establishes.visit fuel (if fresh then [] else stack) q t hclosed).1
        rwa [hfirst'] at hkept
      obtain ⟨t', hlater', hend⟩ := ih hv (List.Subset.trans hbase hgrown) huv hlater
      refine ⟨t', ?_, hend⟩
      rw [follow_visit, bind_ok _ hfirst']
      exact hlater'

/-- A construction that succeeds still succeeds when more is done. -/
theorem visit_grows (fuel : Nat) (stack : List ν) (p : ν) (s s' t : Search ν)
    (hclosed : Closed problem base t) (hbase : base ⊆ s.done) (hsub : s.done ⊆ t.done)
    (hrun : visit problem fuel stack p s = (.ok (), s')) :
    ∃ t', visit problem fuel stack p t = (.ok (), t') ∧ s'.done ⊆ t'.done := by
  induction fuel generalizing stack p s s' t with
  | zero => cases hrun
  | succ fuel ih =>
    cases hheld : t.holds problem p with
    | true =>
      obtain ⟨hmemo, hdone⟩ := holds_iff.mp hheld
      refine ⟨t, visit_held _ _ _ _ _ hheld, ?_⟩
      exact visit_absorbed hclosed (fuel + 1) stack p hbase hsub (.held hmemo hdone) hrun
    | false =>
      have hend := visit_visited problem fuel stack p s
      rw [hrun] at hend
      cases hend with
      | held hdone => simp [holds_anti hsub hheld] at hdone
      | done _ hclash hplan =>
        obtain ⟨v, hplan', huv⟩ := follow_grows_of_visit ih (p :: stack) (problem.plan p)
          (s := s.enter p stack) (hclosed.enter p stack) hbase hsub hplan
        refine ⟨v.complete problem p, visit_ok hheld hclash hplan', ?_⟩
        unfold Search.complete
        cases problem.memo p with
        | false => exact huv
        | true => exact List.cons_subset_cons p huv

/-- None of the nodes is done. -/
def Untouched (problem : Problem ν ε) (nodes : ν → Prop) (s : Search ν) : Prop :=
  ∀ c, nodes c → s.holds problem c = false

/-- Every node of the set waits for another one of it. -/
def Waiting (problem : Problem ν ε) (nodes : ν → Prop) : Prop :=
  ∀ c, nodes c → ∃ c' fresh, .visit c' fresh ∈ problem.plan c ∧ nodes c'

/-- Nodes that wait for one another are never finished. -/
theorem untouched_establishes {nodes : ν → Prop} (hwaiting : Waiting problem nodes) :
    Establishes problem (Untouched problem nodes) (fun _ p => ¬ nodes p) where
  enter := fun huntouched => huntouched
  keepsEnter := fun hother => hother
  keepsComplete := fun hother => hother
  held := by
    intro s p huntouched hheld hp
    rw [huntouched p hp] at hheld
    cases hheld
  complete := by
    intro s p huntouched _ hvisits
    have hother : ¬ nodes p := fun hp => by
      obtain ⟨c, fresh, hmem, hc⟩ := hwaiting p hp
      exact hvisits c fresh hmem hc
    refine ⟨fun c hc => ?_, hother⟩
    have hne : c ≠ p := fun heq => hother (heq ▸ hc)
    have hopen := huntouched c hc
    unfold Search.holds Search.complete at *
    cases hmemo : problem.memo p <;> simp_all

/-- The same node on the same stack, with more done. -/
structure Frame.Later (f g : Frame ν) : Prop where
  node : g.node = f.node
  stack : g.stack = f.stack
  done : f.state.done ⊆ g.state.done

theorem Calls.done_subset {f g : Frame ν} (hcalls : Calls problem f g) :
    f.state.done ⊆ g.state.done := by
  cases hcalls with
  | @intro p q stack s t before after fresh fuel hopen hplan hbefore hheld hclash =>
    have hsub := follow_subset problem fuel (p :: stack) before (s.enter p stack)
    rw [hbefore] at hsub
    exact hsub

theorem Calls.closed {f g : Frame ν} (hcalls : Calls problem f g)
    (hclosed : Closed problem base f.state) : Closed problem base g.state := by
  cases hcalls with
  | @intro p q stack s t before after fresh fuel hopen hplan hbefore hheld hclash =>
    have hkept := (closed_establishes.follow fuel (p :: stack) before (s.enter p stack)
      (hclosed.enter p stack)).1
    rw [hbefore] at hkept
    exact hkept

/-- A call can be made again with more done, as long as its nodes are not. -/
theorem Calls.again {nodes : ν → Prop} (hwaiting : Waiting problem nodes) {f g f' : Frame ν}
    (hcalls : Calls problem f g) (hbase : base ⊆ f.state.done) (hlater : f.Later f')
    (hclosed : Closed problem base f'.state) (huntouched : Untouched problem nodes f'.state)
    (hsrc : nodes f.node) (htarget : nodes g.node) :
    ∃ g', Calls problem f' g' ∧ g.Later g' ∧ Closed problem base g'.state ∧
      Untouched problem nodes g'.state := by
  obtain ⟨p', stack', s'⟩ := f'
  cases hcalls with
  | @intro p q stack s t before after fresh fuel hopen hplan hbefore hheld hclash =>
    obtain ⟨hnode, hstack, hdone⟩ := hlater
    subst hnode hstack
    obtain ⟨t', hbefore', hdone'⟩ := follow_grows_of_visit (visit_grows fuel) (p' :: stack')
      before (s := s.enter p' stack') (hclosed.enter p' stack') hbase hdone hbefore
    have hkept := ((untouched_establishes hwaiting).follow fuel (p' :: stack') before
      (s'.enter p' stack') huntouched).1
    have hstill := (closed_establishes.follow fuel (p' :: stack') before
      (s'.enter p' stack') (hclosed.enter p' stack')).1
    rw [hbefore'] at hkept hstill
    refine ⟨⟨q, if fresh then [] else p' :: stack', t'⟩, ?_, ⟨rfl, rfl, hdone'⟩, hstill, hkept⟩
    exact .intro ⟨huntouched p' hsrc, hopen.2⟩ hplan hbefore' (hkept q htarget) hclash

/-- The nodes on some way from the first frame to the second. -/
def OnTheWay (problem : Problem ν ε) (start stop : Frame ν) (c : ν) : Prop :=
  ∃ f : Frame ν, f.node = c ∧ ReflTransGen (Calls problem) start f ∧
    ReflTransGen (Calls problem) f stop

variable {f g : Frame ν} {start stop : Frame ν}

theorem calls_visit (hcalls : Calls problem f g) :
    ∃ fresh, .visit g.node fresh ∈ problem.plan f.node := by
  cases hcalls with
  | @intro p q stack s t before after fresh fuel hopen hplan hbefore hheld hclash =>
    exact ⟨fresh, by rw [hplan]; simp⟩

/-- On a way back to the same node every node waits for the next one. -/
theorem onTheWay_waiting (hway : TransGen (Calls problem) start stop)
    (hsame : stop.node = start.node) : Waiting problem (OnTheWay problem start stop) := by
  rintro c ⟨f, rfl, hbefore, hafter⟩
  have hnext : ∀ f, TransGen (Calls problem) f stop →
      ReflTransGen (Calls problem) start f →
      ∃ c' fresh, .visit c' fresh ∈ problem.plan f.node ∧ OnTheWay problem start stop c' := by
    intro f hlong hreach
    obtain ⟨g, hcalls, hrest⟩ := TransGen.head'_iff.mp hlong
    obtain ⟨fresh, hvisit⟩ := calls_visit hcalls
    exact ⟨g.node, fresh, hvisit, g, rfl, hreach.tail hcalls, hrest⟩
  rcases Relation.reflTransGen_iff_eq_or_transGen.mp hafter with heq | hlong
  · rw [← heq, hsame]
    exact hnext start hway .refl
  · exact hnext f hlong hbefore

theorem done_subset_of_calls (hway : ReflTransGen (Calls problem) f g) :
    f.state.done ⊆ g.state.done := by
  induction hway with
  | refl => exact List.Subset.refl _
  | tail _ hcalls ih => exact List.Subset.trans ih hcalls.done_subset

/-- The whole way can be taken again with more done. -/
theorem way_again (hbase : base ⊆ start.state.done)
    (hwaiting : Waiting problem (OnTheWay problem start stop)) {f : Frame ν}
    (hway : TransGen (Calls problem) f stop) :
    ReflTransGen (Calls problem) start f → ∀ f' : Frame ν, f.Later f' →
      Closed problem base f'.state → Untouched problem (OnTheWay problem start stop) f'.state →
      ∃ stop', TransGen (Calls problem) f' stop' ∧ stop.Later stop' ∧
        Closed problem base stop'.state ∧
        Untouched problem (OnTheWay problem start stop) stop'.state := by
  induction hway using TransGen.head_induction_on with
  | single hcalls =>
    intro hreach f' hlater hclosed huntouched
    obtain ⟨g', hcalls', hagain⟩ := hcalls.again hwaiting
      (List.Subset.trans hbase (done_subset_of_calls hreach)) hlater hclosed huntouched
      ⟨_, rfl, hreach, .single hcalls⟩ ⟨stop, rfl, hreach.tail hcalls, .refl⟩
    exact ⟨g', .single hcalls', hagain⟩
  | head hcalls hrest ih =>
    intro hreach f' hlater hclosed huntouched
    have hcallee := hreach.tail hcalls
    obtain ⟨g', hcalls', hlater', hclosed', huntouched'⟩ := hcalls.again hwaiting
      (List.Subset.trans hbase (done_subset_of_calls hreach)) hlater hclosed huntouched
      ⟨_, rfl, hreach, hrest.to_reflTransGen.head hcalls⟩
      ⟨_, rfl, hcallee, hrest.to_reflTransGen⟩
    obtain ⟨stop', hway', hend⟩ := ih hcallee g' hlater' hclosed' huntouched'
    exact ⟨stop', .head hcalls' hway', hend⟩

/-- Enough fuel for a frame is more than enough for every frame down the
calls. -/
theorem enough_of_calls (hway : TransGen (Calls problem) f g) {fuel : Nat}
    (henough : ¬ Exhausts problem fuel f) : ∃ less, less < fuel ∧ ¬ Exhausts problem less g := by
  have hstep : ∀ {f g : Frame ν} {fuel : Nat}, Calls problem f g → ¬ Exhausts problem fuel f →
      ∃ less, less < fuel ∧ ¬ Exhausts problem less g := by
    intro f g fuel hcalls henough
    cases fuel with
    | zero => exact absurd rfl henough
    | succ fuel => exact ⟨fuel, Nat.lt_succ_self fuel, hcalls.enough henough⟩
  induction hway using TransGen.head_induction_on generalizing fuel with
  | single hcalls => exact hstep hcalls henough
  | head hcalls _ ih =>
    obtain ⟨_, _, hcallee⟩ := hstep hcalls henough
    obtain ⟨least, _, hend⟩ := ih hcallee
    exact ⟨least, by omega, hend⟩

theorem closed_of_calls (hway : ReflTransGen (Calls problem) f g)
    (hclosed : Closed problem base f.state) : Closed problem base g.state := by
  induction hway with
  | refl => exact hclosed
  | tail _ hcalls ih => exact hcalls.closed ih

/-- Nothing on the way is done before it is taken. -/
theorem onTheWay_untouched (hopen : start.IsOpen problem) :
    Untouched problem (OnTheWay problem start stop) start.state := by
  rintro c ⟨f, rfl, hreach, _⟩
  have hnode : f.IsOpen problem := by
    rcases Relation.reflTransGen_iff_eq_or_transGen.mp hreach with rfl | hlong
    · exact hopen
    · obtain ⟨_, _, hcalls⟩ := TransGen.tail'_iff.mp hlong
      exact hcalls.isOpen
  exact holds_anti (done_subset_of_calls hreach) hnode.1

/-- A frame that leads back to the same node on the same stack never has
enough fuel, nor does it later. -/
theorem exhausts_of_return (hway : TransGen (Calls problem) start stop)
    (hnode : stop.node = start.node) (hstack : stop.stack = start.stack) (fuel : Nat)
    {f : Frame ν} (hlater : start.Later f) (hbase : base ⊆ start.state.done)
    (hclosed : Closed problem base f.state)
    (huntouched : Untouched problem (OnTheWay problem start stop) f.state) :
    Exhausts problem fuel f := by
  induction fuel using Nat.strong_induction_on generalizing f with
  | _ _ ih =>
    by_contra henough
    obtain ⟨stop', hway', hend, hclosed', huntouched'⟩ :=
      way_again hbase (onTheWay_waiting hway hnode) hway .refl f hlater hclosed huntouched
    obtain ⟨less, hless, hrest⟩ := enough_of_calls hway' henough
    have hret : start.Later stop' :=
      ⟨hend.node.trans hnode, hend.stack.trans hstack,
        List.Subset.trans (done_subset_of_calls hway.to_reflTransGen) hend.done⟩
    exact hrest (ih less hless hret hclosed' huntouched')

/-- A search terminates exactly when it does not re-enter a node. -/
theorem terminates_iff {nodes : List ν} (hconfined : Confined problem nodes) {p : ν}
    (hnode : p ∈ nodes) (s : Search ν) :
    (∃ fuel, (visit problem fuel [] p s).1 ≠ .error .outOfFuel) ↔
      ¬ Reenters problem ⟨p, [], s⟩ := by
  refine ⟨?_, terminates_of_not_reenters hconfined hnode⟩
  rintro ⟨fuel, henough⟩ ⟨a, u, _, hreach, hreturn⟩
  have hclosed : Closed problem s.done s := fun p hmem hnew => absurd hmem hnew
  have hstuck : ∀ fuel, Exhausts problem fuel ⟨a, [], u⟩ := by
    intro fuel
    obtain ⟨_, hcalls, _⟩ := TransGen.head'_iff.mp hreturn
    exact exhausts_of_return hreturn rfl rfl fuel ⟨rfl, rfl, List.Subset.refl _⟩
      (done_subset_of_calls hreach) (closed_of_calls hreach hclosed)
      (onTheWay_untouched hcalls.source_isOpen)
  rcases Relation.reflTransGen_iff_eq_or_transGen.mp hreach with heq | hlong
  · rw [heq] at hstuck
    exact henough (hstuck fuel)
  · obtain ⟨less, _, hrest⟩ := enough_of_calls hlong (show ¬ Exhausts problem fuel _ from henough)
    exact hrest (hstuck less)

end Spakky.DepthFirst

import Mathlib.Order.WellFounded
import Mathlib.Data.Finite.Defs
import Mathlib.Data.Set.Finite.Basic
import Mathlib.Data.Set.Finite.List
import Mathlib.Logic.Relation

/-!
Loops that ask for an answer for one item after the other and may stop early,
where an answer is computed to a depth and more depth changes none. Whether such
a loop ends does not depend on the items it never comes to.

Asking for one answer may come to others; if only finitely many are ever come
to, the asking ends exactly if it comes to none that it comes to again.
-/

namespace Spakky.ShortCircuit

open Relation

variable {α ε : Type}

/-- The loop ends: each item it comes to has an answer. -/
def Ends (answer : α → Except ε Bool) (goesOn : α → Bool → Bool) : List α → Prop
  | [] => True
  | item :: rest => ∃ b, answer item = .ok b ∧ (goesOn item b = true → Ends answer goesOn rest)

theorem ends_cons_error {answer : α → Except ε Bool} {goesOn : α → Bool → Bool} {item : α}
    {rest : List α} {error : ε} (hitem : answer item = .error error) :
    ¬ Ends answer goesOn (item :: rest) := by
  rintro ⟨_, hok, _⟩
  cases hitem.symm.trans hok

theorem ends_cons_ok {answer : α → Except ε Bool} {goesOn : α → Bool → Bool} {item : α}
    {rest : List α} {b : Bool} (hitem : answer item = .ok b) :
    Ends answer goesOn (item :: rest) ↔ (goesOn item b = true → Ends answer goesOn rest) := by
  constructor
  · rintro ⟨_, hok, hrest⟩
    cases hitem.symm.trans hok
    exact hrest
  · exact fun hrest => ⟨b, hitem, hrest⟩

section Depth

variable (answer : Nat → α → Except ε Bool) (goesOn : α → Bool → Bool)

/-- The item has an answer at some depth. -/
def Settled (item : α) : Prop := ∃ depth b, answer depth item = .ok b

/-- Every item before this one has an answer after which the loop goes on. -/
def Comes (items : List α) (item : α) : Prop :=
  ∃ before after, items = before ++ item :: after ∧
    ∀ earlier ∈ before, ∃ depth b, answer depth earlier = .ok b ∧ goesOn earlier b = true

variable {answer goesOn}
  (hmono : ∀ depth more item b, depth ≤ more → answer depth item = .ok b →
    answer more item = .ok b)
  {depth : Nat} {items : List α} {item : α}
include hmono

theorem answer_unique {other : Nat} {b b' : Bool} (hanswer : answer depth item = .ok b)
    (hother : answer other item = .ok b') : b = b' := by
  have hdeep := hmono _ _ _ _ (Nat.le_max_left depth other) hanswer
  rw [hmono _ _ _ _ (Nat.le_max_right depth other) hother] at hdeep
  exact (Except.ok.inj hdeep).symm

theorem Ends.mono {more : Nat} (hmore : depth ≤ more) (hends : Ends (answer depth) goesOn items) :
    Ends (answer more) goesOn items := by
  induction items with
  | nil => trivial
  | cons item rest ih =>
    obtain ⟨b, hitem, hrest⟩ := hends
    exact ⟨b, hmono _ _ _ _ hmore hitem, fun hon => ih (hrest hon)⟩

/-- A loop that ends at some depth has an answer at this depth for each item that
it comes to. -/
theorem Ends.comes (hends : Ends (answer depth) goesOn items)
    (hcomes : Comes answer goesOn items item) : ∃ b, answer depth item = .ok b := by
  obtain ⟨before, after, rfl, hbefore⟩ := hcomes
  induction before with
  | nil =>
    obtain ⟨b, hitem, _⟩ := hends
    exact ⟨b, hitem⟩
  | cons earlier before ih =>
    obtain ⟨b, hearlier, hrest⟩ := hends
    obtain ⟨_, b', hother, hon⟩ := hbefore earlier (.head _)
    rw [← answer_unique hmono hearlier hother] at hon
    exact ih (fun other hmem => hbefore other (.tail _ hmem)) (hrest hon)

/-- A loop ends if each item that it comes to has an answer. -/
theorem ends_of_comes (hsettled : ∀ item, Comes answer goesOn items item → Settled answer item) :
    ∃ depth, Ends (answer depth) goesOn items := by
  induction items with
  | nil => exact ⟨0, trivial⟩
  | cons item rest ih =>
    obtain ⟨depth, b, hitem⟩ := hsettled item ⟨[], rest, rfl, by simp⟩
    cases hon : goesOn item b with
    | false => exact ⟨depth, b, hitem, by simp [hon]⟩
    | true =>
      have hrest : ∀ other, Comes answer goesOn rest other → Settled answer other := by
        rintro other ⟨before, after, rfl, hbefore⟩
        refine hsettled other ⟨item :: before, after, rfl, ?_⟩
        simp only [List.mem_cons, forall_eq_or_imp]
        exact ⟨⟨depth, b, hitem, hon⟩, hbefore⟩
      obtain ⟨more, hmore⟩ := ih hrest
      refine ⟨max depth more, b, hmono _ _ _ _ (Nat.le_max_left _ _) hitem, fun _ => ?_⟩
      exact Ends.mono hmono (Nat.le_max_right depth more) hmore

theorem ends_iff_comes : (∃ depth, Ends (answer depth) goesOn items) ↔
    ∀ item, Comes answer goesOn items item → Settled answer item := by
  constructor
  · rintro ⟨depth, hends⟩ item hcomes
    exact ⟨depth, hends.comes hmono hcomes⟩
  · exact ends_of_comes hmono

end Depth

section Cycles

variable {r : α → α → Prop} {start : α}

theorem acc_of_reaches {other : α} (hacc : Acc (flip r) start)
    (hreach : ReflTransGen r start other) : Acc (flip r) other := by
  induction hreach with
  | refl => exact hacc
  | tail _ hstep ih => exact ih.inv hstep

theorem not_cycle_of_acc (hacc : Acc (flip r) start) : ¬ TransGen r start start := by
  induction hacc with
  | intro start _ ih =>
    intro hcycle
    obtain ⟨next, hstep, hback⟩ := TransGen.head'_iff.mp hcycle
    -- the cycle can also be entered at the next one
    exact ih next hstep (TransGen.tail' hback hstep)

/-- Among finitely many, no infinite descent means no cycle. -/
theorem acc_iff_no_cycle (hfinite : {other | ReflTransGen r start other}.Finite) :
    Acc (flip r) start ↔ ¬ ∃ other, ReflTransGen r start other ∧ TransGen r other other := by
  constructor
  · rintro hacc ⟨other, hreach, hcycle⟩
    exact not_cycle_of_acc (acc_of_reaches hacc hreach) hcycle
  · intro hnone
    have : Finite {other // ReflTransGen r start other} := hfinite
    let below (a b : {other // ReflTransGen r start other}) : Prop := TransGen r b.1 a.1
    have : IsTrans _ below := ⟨fun _ _ _ hab hbc => hbc.trans hab⟩
    have : Std.Irrefl below := ⟨fun a hcycle => hnone ⟨a.1, a.2, hcycle⟩⟩
    have hfounded : WellFounded below := Finite.wellFounded_of_trans_of_irrefl below
    have hacc : ∀ a : {other // ReflTransGen r start other}, Acc (flip r) a.1 := by
      intro a
      induction a using hfounded.induction with
      | _ a ih =>
        refine ⟨_, fun next hstep => ?_⟩
        exact ih ⟨next, a.2.tail hstep⟩ (.single hstep)
    exact hacc ⟨start, .refl⟩

end Cycles

end Spakky.ShortCircuit

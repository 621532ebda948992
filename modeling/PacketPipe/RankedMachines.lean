import Mathlib.Data.List.Infix
import PacketPipe.ObservedMachines

/-!
# Machines whose turns run out

Some inputs of a machine are its own turns, the others come from outside. A
rank that no allowed step raises and that every turn lowers bounds the number
of turns until a goal is reached or something is shown, whatever the inputs are and
however turns and other inputs alternate.
-/

namespace PacketPipe.RankedMachines

open ObservedMachines

universe u v w

variable {σ : Type u} {ι : Type v} {ο : Type w}

/-- On the way to the goal an allowed step does not raise the rank, and a turn
lowers it, unless the goal is reached. -/
def Ranked (m : Machine σ ι ο) (allowed : σ → ι → Prop) (turn : ι → Bool)
    (onTheWay goal : σ → Prop) (rank : σ → ℕ) : Prop :=
  ∀ s i,onTheWay s → allowed s i →
    goal (m.step s i).1 ∨
      onTheWay (m.step s i).1 ∧ rank (m.step s i).1+(turn i).toNat≤ rank s

/-- On the way an allowed step does not raise the rank, and a turn lowers it,
unless the step shows what is wanted. -/
def RankedShows (m : Machine σ ι ο) (allowed : σ → ι → Prop) (turn : ι → Bool)
    (onTheWay : σ → Prop) (wanted : ο → Prop) (rank : σ → ℕ) : Prop :=
  ∀ s i,onTheWay s → allowed s i →
    (∃ o∈(m.step s i).2,wanted o) ∨
      onTheWay (m.step s i).1 ∧ rank (m.step s i).1+(turn i).toNat≤ rank s

section Reaching

variable {m : Machine σ ι ο} {allowed : σ → ι → Prop} {turn : ι → Bool}
variable {onTheWay goal : σ → Prop} {rank : σ → ℕ}

/-- One more input adds its turn. -/
theorem countP_turn (turn : ι → Bool) (i : ι) (is : List ι) :
    (i::is).countP turn=is.countP turn+(turn i).toNat := by
  cases hturn : turn i <;> simp [hturn]

/-- More turns than the rank reach the goal, with one turn more than the rank
at most, and the machine is on the way up to then. -/
theorem Ranked.reaches (hranked : Ranked m allowed turn onTheWay goal rank) {s : σ}
    (hs : onTheWay s) {is : List ι} (hallowed : m.Along allowed s is)
    (hturns : rank s< is.countP turn) :
    ∃ front,front<+:is ∧ front.countP turn≤ rank s+1 ∧
      m.Along (fun t _ => onTheWay t) s front ∧ goal (m.final s front) := by
  induction is generalizing s with
  | nil => exact absurd hturns (Nat.not_lt_zero _)
  | cons i is ih =>
    obtain ⟨hfirst,hrest⟩ := hallowed
    have hone : (turn i).toNat≤1 := Bool.toNat_le (turn i)
    rcases hranked s i hs hfirst with hgoal | ⟨hnext,hlower⟩
    · refine ⟨[i],List.prefix_iff_eq_append.mpr rfl,?_,⟨hs,trivial⟩,hgoal⟩
      rw [countP_turn,List.countP_nil]
      omega
    · rw [countP_turn] at hturns
      obtain ⟨front,hfront,hless,halong,hgoal⟩ := ih hnext hrest (by omega)
      refine ⟨i::front,List.cons_prefix_cons.mpr ⟨rfl,hfront⟩,?_,⟨hs,halong⟩,hgoal⟩
      rw [countP_turn]
      omega

/-- A goal that every step keeps is where the machine comes to rest. -/
theorem Ranked.rests (hranked : Ranked m allowed turn onTheWay goal rank)
    (hkeeps : ∀ s i,goal s → goal (m.step s i).1) {s : σ} (hs : onTheWay s) {is : List ι}
    (hallowed : m.Along allowed s is) (hturns : rank s< is.countP turn) :
    goal (m.final s is) := by
  obtain ⟨front,⟨back,rfl⟩,_,_,hgoal⟩ := hranked.reaches hs hallowed hturns
  rw [m.final_append]
  exact m.final_invariant hkeeps hgoal back

/-- More turns than the rank show what is wanted. -/
theorem RankedShows.shows {wanted : ο → Prop}
    (hranked : RankedShows m allowed turn onTheWay wanted rank) {s : σ} (hs : onTheWay s)
    {is : List ι} (hallowed : m.Along allowed s is) (hturns : rank s< is.countP turn) :
    ∃ o∈m.trace s is,wanted o := by
  induction is generalizing s with
  | nil => exact absurd hturns (Nat.not_lt_zero _)
  | cons i is ih =>
    obtain ⟨hfirst,hrest⟩ := hallowed
    rw [m.trace_cons]
    rcases hranked s i hs hfirst with ⟨o,hshown,hwanted⟩ | ⟨hnext,hlower⟩
    · exact ⟨o,List.mem_append_left _ hshown,hwanted⟩
    · rw [countP_turn] at hturns
      obtain ⟨o,hshown,hwanted⟩ := ih hnext hrest (by omega)
      exact ⟨o,List.mem_append_right _ hshown,hwanted⟩

/-- Where every step is allowed, so is every run. -/
theorem along_always (m : Machine σ ι ο) (s : σ) (is : List ι) :
    m.Along (fun _ _ => True) s is :=
  m.along_inputs s fun _ _ => trivial

end Reaching

end PacketPipe.RankedMachines

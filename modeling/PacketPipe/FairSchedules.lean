import PacketPipe.ObservedMachines

/-!
# Machines under fair schedules

A schedule is an endless sequence of inputs. An input may help a machine on its
way from one condition to another: it lowers a rank that no other input raises.
If such inputs come again and again, the one condition leads to the other.
Whether an input helps may depend on the state, so that a schedule can be asked
to be fair to a thread at the times at which the thread can move.
-/

namespace PacketPipe.FairSchedules

open ObservedMachines

universe u v w

variable {σ : Type u} {ι : Type v} {ο : Type w}

section Schedules

variable (m : Machine σ ι ο) (s : σ) (schedule : ℕ → ι)

/-- The state before the step at a time. -/
def stateAt : ℕ → σ
  | 0 => s
  | n+1 => (m.step (stateAt n) (schedule n)).1

/-- Whenever the one condition holds, the other holds then or later. -/
def LeadsTo (P Q : σ → Prop) : Prop :=
  ∀ n,P (stateAt m s schedule n) → ∃ k,n≤k ∧ Q (stateAt m s schedule k)

/-- Again and again there is an input that helps at its time. -/
def Recurs (helps : σ → ι → Prop) : Prop :=
  ∀ n,∃ k,n≤k ∧ helps (stateAt m s schedule k) (schedule k)

end Schedules

/-- On the way an allowed input does not raise the rank and one that helps
lowers it, unless the goal is reached. -/
def Progress (m : Machine σ ι ο) (allowed : ι → Prop) (helps : σ → ι → Prop)
    (onTheWay goal : σ → Prop) (rank : σ → ℕ) : Prop :=
  ∀ s i,onTheWay s → allowed i → goal (m.step s i).1 ∨
    onTheWay (m.step s i).1 ∧ rank (m.step s i).1≤ rank s ∧
      (helps s i → rank (m.step s i).1< rank s)

section Leading

variable {m : Machine σ ι ο} {s : σ} {schedule : ℕ → ι}

/-- A condition that holds leads to itself. -/
theorem leadsTo_of_imp {P Q : σ → Prop} (h : ∀ t,P t → Q t) : LeadsTo m s schedule P Q :=
  fun n hP => ⟨n,Nat.le_refl n,h _ hP⟩

/-- One condition leads to the next. -/
theorem LeadsTo.trans {P Q R : σ → Prop} (h : LeadsTo m s schedule P Q)
    (h' : LeadsTo m s schedule Q R) : LeadsTo m s schedule P R := by
  intro n hP
  obtain ⟨k,hk,hQ⟩ := h n hP
  obtain ⟨j,hj,hR⟩ := h' k hQ
  exact ⟨j,Nat.le_trans hk hj,hR⟩

/-- From either of two conditions. -/
theorem LeadsTo.or {P P' Q : σ → Prop} (h : LeadsTo m s schedule P Q)
    (h' : LeadsTo m s schedule P' Q) : LeadsTo m s schedule (fun t => P t ∨ P' t) Q := by
  intro n hP
  rcases hP with hP | hP
  · exact h n hP
  · exact h' n hP

variable {allowed : ι → Prop} {helps : σ → ι → Prop} {onTheWay goal : σ → Prop} {rank : σ → ℕ}

/-- Up to the goal the rank does not rise. -/
theorem Progress.waits (hprogress : Progress m allowed helps onTheWay goal rank)
    (hallowed : ∀ n,allowed (schedule n)) {n : ℕ} (hn : onTheWay (stateAt m s schedule n))
    (d : ℕ) :
    (∃ k,n≤k ∧ goal (stateAt m s schedule k)) ∨
      onTheWay (stateAt m s schedule (n+d)) ∧
        rank (stateAt m s schedule (n+d))≤ rank (stateAt m s schedule n) := by
  induction d with
  | zero => exact .inr ⟨hn,Nat.le_refl _⟩
  | succ d ih =>
    rcases ih with hgoal | ⟨hway,hrank⟩
    · exact .inl hgoal
    · rcases hprogress _ _ hway (hallowed (n+d)) with hgoal | ⟨hnext,hlower,_⟩
      · exact .inl ⟨n+d+1,by omega,hgoal⟩
      · exact .inr ⟨hnext,Nat.le_trans hlower hrank⟩

/-- When help comes again and again, the goal is reached: the rank bounds how
often help is needed. -/
theorem Progress.leadsTo (hprogress : Progress m allowed helps onTheWay goal rank)
    (hallowed : ∀ n,allowed (schedule n)) (hhelps : Recurs m s schedule helps) :
    LeadsTo m s schedule onTheWay goal := by
  intro n hn
  induction hrank : rank (stateAt m s schedule n) using Nat.strongRecOn generalizing n with
  | ind r ih =>
    obtain ⟨k,hk,hhelp⟩ := hhelps n
    obtain ⟨d,rfl⟩ := Nat.exists_eq_add_of_le hk
    rcases hprogress.waits hallowed hn d with hgoal | ⟨hway,hless⟩
    · exact hgoal
    · rcases hprogress _ _ hway (hallowed (n+d)) with hgoal | ⟨hnext,_,hlower⟩
      · exact ⟨n+d+1,by omega,hgoal⟩
      · have hsmaller : rank (stateAt m s schedule (n+d+1))< r := by
          rw [←hrank]
          exact Nat.lt_of_lt_of_le (hlower hhelp) hless
        obtain ⟨j,hj,hgoal⟩ := ih _ hsmaller (n+d+1) hnext rfl
        exact ⟨j,by omega,hgoal⟩

/-- A condition that every allowed input keeps holds from any time on. -/
theorem stateAt_stable {P : σ → Prop} (hstep : ∀ t i,P t → allowed i → P (m.step t i).1)
    (hallowed : ∀ n,allowed (schedule n)) {n : ℕ} (hn : P (stateAt m s schedule n)) {k : ℕ}
    (hk : n≤k) : P (stateAt m s schedule k) := by
  induction hk with
  | refl => exact hn
  | step _ ih => exact hstep _ _ ih (hallowed _)

end Leading

end PacketPipe.FairSchedules

import Mathlib.Algebra.Order.Group.Defs
import Mathlib.Algebra.Order.Sub.Defs
import Mathlib.Data.List.Chain

/-!
# Clocks that are read from time to time

A timer that polls a clock learns of a deadline only at its next poll. If
consecutive polls are at most `d` apart, the first poll at or after a deadline
comes less than `d` after it. A beat is a poll at which at least the interval
has passed since the last beat; the last beat is all that is remembered.
-/

namespace PacketPipe.PollingClocks

universe u

section Readings

variable {α : Type u} [AddCommGroup α] [LinearOrder α]

/-- The polls do not go back, and each is at most `d` after the one before. -/
def Spaced (d : α) (polls : List α) : Prop := polls.IsChain fun p q => p≤q ∧ q≤p+d

/-- Consecutive polls can be checked. -/
instance decidableSpaced (d : α) (polls : List α) : Decidable (Spaced d polls) :=
  inferInstanceAs (Decidable (polls.IsChain _))

/-- The later polls of a schedule are spaced like all of them. -/
theorem Spaced.drop {d : α} {front back : List α} (h : Spaced d (front++back)) :
    Spaced d back := h.right_of_append

/-- The last beat after one more poll. -/
def beat (interval last poll : α) : α := if interval≤poll-last then poll else last

/-- The last beat after some polls. -/
def lastBeat (interval last : α) (polls : List α) : α := polls.foldl (beat interval) last

@[simp] theorem lastBeat_nil (interval last : α) : lastBeat interval last []=last := rfl

@[simp] theorem lastBeat_cons (interval last poll : α) (polls : List α) :
    lastBeat interval last (poll::polls)=lastBeat interval (beat interval last poll) polls := rfl

theorem lastBeat_append (interval last : α) (front back : List α) :
    lastBeat interval last (front++back)=
      lastBeat interval (lastBeat interval last front) back := List.foldl_append

end Readings

section Deadlines

variable {α : Type u} [AddCommGroup α] [LinearOrder α] [IsOrderedAddMonoid α]

/-- The first poll at or after a deadline comes less than `d` after it, when
some poll came before the deadline. -/
theorem Spaced.reach {d deadline first next : α} (between : List α) {after : List α}
    (h : Spaced d (first::(between++next::after))) (hfirst : first<deadline)
    (hbetween : ∀ p∈between,p<deadline) : next<deadline+d := by
  induction between generalizing first with
  | nil =>
    have hstep := (List.isChain_cons_cons.mp h).1
    exact lt_of_le_of_lt hstep.2 (add_lt_add_left hfirst d)
  | cons p rest ih =>
    have hrest := (List.isChain_cons_cons.mp h).2
    obtain ⟨hp,hafter⟩ := List.forall_mem_cons.mp hbetween
    exact ih hrest hp hafter

/-- Beats do not go back. -/
theorem le_beat {interval : α} (hinterval : 0≤ interval) (last poll : α) :
    last≤beat interval last poll := by
  unfold beat
  split
  · next h => exact sub_nonneg.mp (hinterval.trans h)
  · exact le_refl last

/-- Nor do they over a whole schedule. -/
theorem le_lastBeat {interval : α} (hinterval : 0≤ interval) (last : α) (polls : List α) :
    last≤lastBeat interval last polls := by
  induction polls generalizing last with
  | nil => exact le_refl last
  | cons poll rest ih => exact (le_beat hinterval last poll).trans (ih (beat interval last poll))

/-- A poll before the interval is over is no beat. -/
theorem beat_early {interval last poll : α} (hearly : poll<last+interval) :
    beat interval last poll=last := if_neg (not_le.mpr (sub_lt_iff_lt_add'.mpr hearly))

/-- While polls come before the interval is over there is no further beat. -/
theorem lastBeat_early {interval last : α} {polls : List α}
    (hearly : ∀ p∈polls,p<last+interval) : lastBeat interval last polls=last := by
  induction polls with
  | nil => rfl
  | cons poll rest ih =>
    obtain ⟨hpoll,hrest⟩ := List.forall_mem_cons.mp hearly
    rw [lastBeat_cons,beat_early hpoll]
    exact ih hrest

/-- A beat comes at least the interval after every earlier one. -/
theorem beats_apart {interval beatTime next : α} (hinterval : 0≤ interval) {between : List α}
    (hbeat : interval≤next-lastBeat interval beatTime between) : beatTime+interval≤next := by
  have hlast := le_lastBeat hinterval beatTime between
  have hnext := le_sub_iff_add_le'.mp hbeat
  exact (add_le_add_left hlast interval).trans hnext

end Deadlines

end PacketPipe.PollingClocks

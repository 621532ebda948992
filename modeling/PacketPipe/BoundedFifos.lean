import Mathlib.Data.List.Basic
import Mathlib.Data.Fin.Basic
import Mathlib.Data.Nat.ModEq
import PacketPipe.ObservedMachines

/-!
# Bounded FIFO queues and their circular storage

The abstract queue is a list with a capacity; its operations are relations
between the lists before and after. A circular buffer of `n` slots stores a
list of fewer than `n` items in consecutive slots, so that the positions of
the first and of the next free slot tell the empty and the full buffer apart.
-/

namespace PacketPipe.BoundedFifos

open ObservedMachines

universe u

section Queues

variable {α : Type u}

/-- An operation on a queue with its answer. -/
inductive Operation (α : Type u)
  /-- Enqueue an item; refused when `ok` is false. -/
  | enqueue (item : α) (ok : Bool)
  /-- Dequeue; nothing when the queue is empty. -/
  | dequeue (item : Option α)
  deriving DecidableEq

/-- The bounded queue: refusals and empty answers happen exactly when the
queue is full and empty, and leave it alone. -/
inductive QueueStep (capacity : ℕ) : List α → Operation α → List α → Prop
  | accepted (items : List α) (item : α) (hroom : items.length<capacity) :
    QueueStep capacity items (.enqueue item true) (items++[item])
  | refused (items : List α) (item : α) (hfull : items.length=capacity) :
    QueueStep capacity items (.enqueue item false) items
  | taken (items : List α) (item : α) :
    QueueStep capacity (item::items) (.dequeue (some item)) items
  | empty : QueueStep capacity [] (.dequeue none) []

/-- The item of an operation, when it was enqueued. -/
def enqueuedItem : Operation α → Option α
  | .enqueue item ok => if ok=true then some item else none
  | .dequeue _ => none

/-- The item of an operation, when it was dequeued. -/
def dequeuedItem : Operation α → Option α
  | .enqueue _ _ => none
  | .dequeue item => item

/-- Items enqueued by a history, in order. -/
def enqueued (history : List (Operation α)) : List α := history.filterMap enqueuedItem

/-- Items dequeued by a history, in order. -/
def dequeued (history : List (Operation α)) : List α := history.filterMap dequeuedItem

/-- Items enqueued but not yet dequeued. -/
def queued (history : List (Operation α)) : List α :=
  (enqueued history).drop (dequeued history).length

/-- Whatever was in the queue or came in either went out, in the same order,
or is still there. -/
theorem allows_conserves {capacity : ℕ} {items final : List α} {history : List (Operation α)}
    (h : Allows (QueueStep capacity) items history final) :
    items++enqueued history=dequeued history++final := by
  induction h with
  | nil items => rw [enqueued,dequeued,List.filterMap_nil,List.filterMap_nil,List.append_nil,
      List.nil_append]
  | cons hstep _ ih =>
    rw [enqueued,dequeued] at ih ⊢
    rw [List.filterMap_cons,List.filterMap_cons]
    cases hstep with
    | accepted items item _ =>
      rw [List.append_assoc,List.singleton_append] at ih
      exact ih
    | refused items item _ => exact ih
    | taken items item =>
      rw [dequeuedItem,enqueuedItem]
      dsimp only
      rw [List.cons_append,ih,List.cons_append]
    | empty => exact ih

/-- The queue holds exactly what the history enqueued and did not dequeue. -/
theorem allows_queued {capacity : ℕ} {final : List α} {history : List (Operation α)}
    (h : Allows (QueueStep capacity) [] history final) :
    enqueued history=dequeued history++final ∧ queued history=final := by
  have hconserves := allows_conserves h
  rw [List.nil_append] at hconserves
  refine ⟨hconserves,?_⟩
  rw [queued,hconserves,List.drop_left]

/-- An operation in the middle of a history is a step of the queue. -/
theorem allows_middle {capacity : ℕ} {items final : List α} {earlier later : List (Operation α)}
    {o : Operation α} (h : Allows (QueueStep capacity) items (earlier++o::later) final) :
    ∃ before after,Allows (QueueStep capacity) items earlier before ∧
      QueueStep capacity before o after := by
  induction earlier generalizing items with
  | nil =>
    cases h with
    | cons hstep _ => exact ⟨items,_,.nil items,hstep⟩
  | cons first earlier ih =>
    cases h with
    | cons hfirst hrest =>
      obtain ⟨before,after,hbefore,hstep⟩ := ih hrest
      exact ⟨before,after,.cons hfirst hbefore,hstep⟩

/-- The queue never holds more than its capacity. -/
theorem allows_bounded {capacity : ℕ} {items final : List α} {history : List (Operation α)}
    (h : Allows (QueueStep capacity) items history final) (hitems : items.length≤capacity) :
    final.length≤capacity := by
  induction h with
  | nil items => exact hitems
  | cons hstep _ ih =>
    refine ih ?_
    cases hstep with
    | accepted items item hroom =>
      rw [List.length_append,List.length_singleton]
      exact hroom
    | refused items item _ => exact hitems
    | taken items item =>
      rw [List.length_cons] at hitems
      omega
    | empty => exact hitems

/-- An enqueue, whatever its answer. -/
def Operation.isEnqueue : Operation α → Bool
  | .enqueue _ _ => true
  | .dequeue _ => false

/-- A dequeue, whatever its answer. -/
def Operation.isDequeue : Operation α → Bool
  | .enqueue _ _ => false
  | .dequeue _ => true

/-- Only enqueues enqueue. -/
theorem enqueued_filter (history : List (Operation α)) :
    enqueued (history.filter Operation.isEnqueue)=enqueued history := by
  rw [enqueued,enqueued,List.filterMap_filter]
  refine List.filterMap_congr fun o _ => ?_
  cases o with
  | enqueue item ok => rfl
  | dequeue item => rfl

/-- Only dequeues dequeue. -/
theorem dequeued_filter (history : List (Operation α)) :
    dequeued (history.filter Operation.isDequeue)=dequeued history := by
  rw [dequeued,dequeued,List.filterMap_filter]
  refine List.filterMap_congr fun o _ => ?_
  cases o with
  | enqueue item ok => rfl
  | dequeue item => rfl

/-- Accepted enqueues of these items. -/
def enqueues (items : List α) : List (Operation α) := items.map fun item => .enqueue item true

/-- Dequeues that return these items. -/
def dequeues (items : List α) : List (Operation α) := items.map fun item => .dequeue (some item)

/-- Accepted items are enqueued. -/
@[simp] theorem enqueued_enqueues (items : List α) : enqueued (enqueues items)=items := by
  rw [enqueued,enqueues,List.filterMap_map]
  exact List.filterMap_some

/-- Returned items are dequeued. -/
@[simp] theorem dequeued_dequeues (items : List α) : dequeued (dequeues items)=items := by
  rw [dequeued,dequeues,List.filterMap_map]
  exact List.filterMap_some

/-- What one side did and what the other side did can be put in one order that
the queue allows, and leaves these items in it. -/
def Explains (capacity : ℕ) (puts takes : List (Operation α)) (items : List α) : Prop :=
  ∃ history,Allows (QueueStep capacity) [] history items ∧
    history.filter Operation.isEnqueue=puts ∧ history.filter Operation.isDequeue=takes

/-- Nothing done leaves nothing. -/
theorem explains_nil (capacity : ℕ) : Explains capacity ([] : List (Operation α)) [] [] :=
  ⟨[],.nil [],rfl,rfl⟩

/-- The items that were put and not taken are left. -/
theorem Explains.conserves {capacity : ℕ} {puts takes : List (Operation α)} {items : List α}
    (h : Explains capacity puts takes items) :
    enqueued puts=dequeued takes++items ∧ items.length≤capacity := by
  obtain ⟨history,hallows,rfl,rfl⟩ := h
  rw [enqueued_filter,dequeued_filter]
  exact ⟨(allows_queued hallows).1,allows_bounded hallows (Nat.zero_le _)⟩

/-- One more operation, on its side. -/
theorem Explains.step {capacity : ℕ} {puts takes : List (Operation α)} {items after : List α}
    {o : Operation α} (h : Explains capacity puts takes items)
    (hstep : QueueStep capacity items o after) :
    Explains capacity (puts++[o].filter Operation.isEnqueue)
      (takes++[o].filter Operation.isDequeue) after := by
  obtain ⟨history,hallows,rfl,rfl⟩ := h
  exact ⟨history++[o],hallows.append (.single hstep),List.filter_append ..,
    List.filter_append ..⟩

/-- Items that fit can be put. -/
theorem Explains.put {capacity : ℕ} {puts takes : List (Operation α)} {items : List α}
    (h : Explains capacity puts takes items) (new : List α)
    (hfits : items.length+new.length≤capacity) :
    Explains capacity (puts++enqueues new) takes (items++new) := by
  induction new generalizing puts items with
  | nil =>
    rw [enqueues,List.map_nil,List.append_nil,List.append_nil]
    exact h
  | cons item new ih =>
    rw [List.length_cons] at hfits
    have hone := h.step (.accepted items item (by omega))
    rw [List.filter_singleton,List.filter_singleton] at hone
    simp only [Operation.isEnqueue,Operation.isDequeue,Bool.cond_true,Bool.cond_false,
      List.append_nil] at hone
    have hrest := ih hone (by rw [List.length_append,List.length_singleton]; omega)
    rw [List.append_assoc,List.append_assoc] at hrest
    exact hrest

/-- The first items can be taken. -/
theorem Explains.take {capacity : ℕ} {puts takes : List (Operation α)} {items : List α}
    (h : Explains capacity puts takes items) (count : ℕ) :
    Explains capacity puts (takes++dequeues (items.take count)) (items.drop count) := by
  induction count generalizing takes items with
  | zero =>
    rw [List.take_zero,List.drop_zero,dequeues,List.map_nil,List.append_nil]
    exact h
  | succ count ih =>
    cases items with
    | nil =>
      rw [List.take_nil,List.drop_nil,dequeues,List.map_nil,List.append_nil]
      exact h
    | cons item items =>
      have hone := h.step (.taken items item)
      rw [List.filter_singleton,List.filter_singleton] at hone
      simp only [Operation.isEnqueue,Operation.isDequeue,Bool.cond_true,Bool.cond_false,
        List.append_nil] at hone
      have hrest := ih hone
      rw [List.append_assoc] at hrest
      exact hrest

end Queues

section Circles

variable {n : ℕ}

/-- The slot `i` places after `slot`, wrapping at the end. -/
def advance (slot : Fin n) (i : ℕ) : Fin n := ⟨(slot.val+i)%n,Nat.mod_lt _ slot.pos⟩

/-- Moving on twice is moving on by the sum. -/
theorem advance_advance (slot : Fin n) (i j : ℕ) :
    advance (advance slot i) j=advance slot (i+j) := by
  refine Fin.ext ?_
  simp only [advance,Nat.mod_add_mod,Nat.add_assoc]

@[simp] theorem advance_zero (slot : Fin n) : advance slot 0=slot :=
  Fin.ext (Nat.mod_eq_of_lt slot.isLt)

/-- Fewer than `n` places lead to different slots. -/
theorem advance_inj (slot : Fin n) {i j : ℕ} (hi : i<n) (hj : j<n) :
    advance slot i=advance slot j ↔ i=j := by
  refine ⟨fun h => ?_,fun h => congrArg (advance slot) h⟩
  have hmod : slot.val+i≡slot.val+j [MOD n] := congrArg Fin.val h
  exact Nat.ModEq.eq_of_lt_of_lt (Nat.ModEq.add_left_cancel' slot.val hmod) hi hj

variable {α : Type u}

/-- The items occupy consecutive slots from `head` on, and one slot is free. -/
structure Occupies (buffer : Vector α n) (head : Fin n) (items : List α) : Prop where
  /-- Fewer items than slots. -/
  fits : items.length<n
  /-- Each item is in its slot. -/
  slot : ∀ i,i < items.length → items[i]?=some buffer[advance head i]

/-- Nothing stored. -/
theorem occupies_nil (buffer : Vector α n) (head : Fin n) : Occupies buffer head [] :=
  ⟨head.pos,fun i hi => absurd hi (Nat.not_lt_zero i)⟩

/-- Whatever the two positions are, the slots between them store some items. -/
theorem exists_occupies (buffer : Vector α n) (head tail : Fin n) :
    ∃ items,Occupies buffer head items ∧ tail=advance head items.length := by
  have hfits : (tail.val+n-head.val)%n<n := Nat.mod_lt _ head.pos
  refine ⟨(List.range ((tail.val+n-head.val)%n)).map fun i => buffer[advance head i],?_,?_⟩
  · constructor
    · rwa [List.length_map,List.length_range]
    · intro i hi
      rw [List.length_map,List.length_range] at hi
      rw [List.getElem?_map,List.getElem?_range hi,Option.map_some]
  · refine Fin.ext ?_
    have hforward : head.val+(tail.val+n-head.val)=tail.val+n := by omega
    have hreach : (head.val+(tail.val+n-head.val)%n)%n=tail.val := by
      rw [Nat.add_mod_mod,hforward,Nat.add_mod_right]
      exact Nat.mod_eq_of_lt tail.isLt
    rw [List.length_map,List.length_range]
    exact hreach.symm

/-- Writing the first free slot disturbs no stored item. -/
theorem Occupies.write {buffer : Vector α n} {head : Fin n} {items : List α}
    (h : Occupies buffer head items) (item : α) :
    Occupies (buffer.set (advance head items.length) item) head items := by
  refine ⟨h.fits,fun i hi => ?_⟩
  have hne : advance head items.length≠advance head i := fun heq =>
    absurd ((advance_inj head h.fits (Nat.lt_trans hi h.fits)).mp heq) (Nat.ne_of_gt hi)
  have hne' : (advance head items.length).val≠(advance head i).val :=
    fun heq => hne (Fin.ext heq)
  rw [h.slot i hi]
  simp only [Fin.getElem_fin]
  rw [Vector.getElem_set_ne _ _ hne']

/-- A written free slot extends the items when another slot stays free. -/
theorem Occupies.extend {buffer : Vector α n} {head : Fin n} {items : List α}
    (h : Occupies buffer head items) (hroom : items.length+1<n) :
    Occupies buffer head (items++[buffer[advance head items.length]]) := by
  refine ⟨by rwa [List.length_append,List.length_singleton],fun i hi => ?_⟩
  rw [List.length_append,List.length_singleton] at hi
  by_cases hlast : i=items.length
  · subst hlast
    rw [List.getElem?_concat_length]
  · have hi' : i < items.length := by omega
    rw [List.getElem?_append_left hi',h.slot i hi']

/-- The first item is in the slot at `head`. -/
theorem Occupies.front {buffer : Vector α n} {head : Fin n} {item : α} {items : List α}
    (h : Occupies buffer head (item::items)) : buffer[head]=item := by
  have hslot := h.slot 0 (Nat.zero_lt_succ _)
  simp only [advance_zero,List.getElem?_cons_zero,Option.some_inj] at hslot
  exact hslot.symm

/-- Without its first item the list starts one slot later. -/
theorem Occupies.rest {buffer : Vector α n} {head : Fin n} {item : α} {items : List α}
    (h : Occupies buffer head (item::items)) : Occupies buffer (advance head 1) items := by
  have hfits := h.fits
  rw [List.length_cons] at hfits
  refine ⟨by omega,fun i hi => ?_⟩
  have hslot := h.slot (i+1) (Nat.succ_lt_succ hi)
  simp only [advance_advance,Nat.add_comm 1 i]
  exact hslot

/-- The slot after the first free one is the head exactly when no other slot
is free. -/
theorem full_iff {head : Fin n} {len : ℕ} (hlen : len<n) :
    advance (advance head len) 1=head ↔ len+1=n := by
  rw [advance_advance]
  constructor
  · intro h
    by_contra hne
    have hnext : len+1<n := by omega
    have hzero := (advance_inj head hnext head.pos).mp (h.trans (advance_zero head).symm)
    omega
  · rintro rfl
    refine Fin.ext ?_
    have hwrap : (head.val+(len+1))%(len+1)=head.val%(len+1) := Nat.add_mod_right ..
    exact hwrap.trans (Nat.mod_eq_of_lt head.isLt)

/-- The first free slot is the head exactly when nothing is stored. -/
theorem empty_iff {head : Fin n} {len : ℕ} (hlen : len<n) :
    head=advance head len ↔ len=0 := by
  have hinj := advance_inj head head.pos hlen
  rw [advance_zero] at hinj
  rw [hinj,eq_comm]

end Circles

end PacketPipe.BoundedFifos

import Mathlib.Data.List.Infix
import PacketPipe.EventQueueModel
import PacketPipe.RankedMachines

/-!
# The event queue is a bounded FIFO

Under every schedule of the two parties the ring buffer simulates the FIFO
queue of capacity `N-1`. The relation holds in the middle of a `push` and of
a `pop`: it says what the locals of each party still know about the queue.
Whole calls keep the same relation when the other party stands still. No call
waits for the other party: four accesses answer it, whatever comes between them.
-/

namespace PacketPipe.EventQueueRefinement

open FlowEvents ObservedMachines RankedMachines BoundedFifos EventQueueModel

/-- Masking with `N-1` is the remainder by `N`. -/
theorem mask_eq_mod (size : RingSize) (i : ℕ) : i &&& (size.n-1)=i%size.n := by
  have hne : size.n≠0 := Nat.ne_of_gt size.positive
  obtain ⟨k,hk⟩ := (Nat.and_sub_one_eq_zero_iff_isPowerOfTwo hne).mp size.powerOfTwo
  rw [hk]
  exact Nat.and_two_pow_sub_one_eq_mod i k

/-- The masked increment moves on by one slot. -/
theorem nextIndex_eq {size : RingSize} (i : Fin size.n) : nextIndex i=advance i 1 :=
  Fin.ext (mask_eq_mod size _)

section Calls

variable {size : RingSize}

/-- The queue stores the items: they start at `head` and end before `tail`. -/
structure Stores (q : EventQueue size) (items : List FlowEvent) : Prop where
  /-- The items are in their slots. -/
  occupies : Occupies q.buffer q.head items
  /-- The tail is the first free slot. -/
  tail : q.tail=advance q.head items.length

/-- A new queue stores nothing. -/
theorem stores_initial (size : RingSize) : Stores (.initial size) [] :=
  ⟨occupies_nil _ _,(advance_zero _).symm⟩

/-- Every queue stores something, whatever its indices are. -/
theorem exists_stores (q : EventQueue size) : ∃ items,Stores q items := by
  obtain ⟨items,hoccupies,htail⟩ := exists_occupies q.buffer q.head q.tail
  exact ⟨items,hoccupies,htail⟩

/-- The producer's test for a full queue. -/
theorem Stores.full {q : EventQueue size} {items : List FlowEvent} (h : Stores q items) :
    nextIndex q.tail=q.head ↔ items.length=size.n-1 := by
  have hfits := h.occupies.fits
  rw [nextIndex_eq,h.tail,full_iff hfits]
  omega

/-- The consumer's test for an empty queue. -/
theorem Stores.empty {q : EventQueue size} {items : List FlowEvent} (h : Stores q items) :
    q.head=q.tail ↔ items=[] := by
  rw [h.tail,empty_iff h.occupies.fits,List.length_eq_zero_iff]

/-- Writing the slot at the tail is invisible. -/
theorem Stores.write {q : EventQueue size} {items : List FlowEvent} (h : Stores q items)
    (evt : FlowEvent) : Stores (q.store q.tail evt) items := by
  have hwrite := h.occupies.write evt
  simp only [←h.tail] at hwrite
  exact ⟨hwrite,h.tail⟩

/-- Storing the next tail publishes the written slot. -/
theorem Stores.publish {q : EventQueue size} {items : List FlowEvent} (h : Stores q items)
    (hroom : items.length+1<size.n) :
    Stores {q with tail := nextIndex q.tail} (items++[q.slot q.tail]) := by
  have hextend := h.occupies.extend hroom
  simp only [←h.tail] at hextend
  refine ⟨hextend,?_⟩
  rw [List.length_append,List.length_singleton,←advance_advance,←h.tail]
  exact nextIndex_eq q.tail

/-- The consumer reads the first item. -/
theorem Stores.front {q : EventQueue size} {item : FlowEvent} {items : List FlowEvent}
    (h : Stores q (item::items)) : q.slot q.head=item := h.occupies.front

/-- Storing the next head gives the slot of the first item back. -/
theorem Stores.release {q : EventQueue size} {item : FlowEvent} {items : List FlowEvent}
    (h : Stores q (item::items)) : Stores {q with head := nextIndex q.head} items := by
  constructor
  · dsimp only
    rw [nextIndex_eq]
    exact h.occupies.rest
  · dsimp only
    rw [nextIndex_eq,advance_advance,h.tail,List.length_cons,Nat.add_comm]

/-- `push` accepts the event unless `N-1` events are stored. -/
theorem push_stores {q : EventQueue size} {items : List FlowEvent} (h : Stores q items)
    (evt : FlowEvent) :
    (push evt q).1=decide (items.length<size.n-1) ∧
      Stores (push evt q).2 (if items.length<size.n-1 then items++[evt] else items) := by
  have hfits := h.occupies.fits
  unfold push
  dsimp only
  by_cases hfull : nextIndex q.tail=q.head
  · have hlen := h.full.mp hfull
    have hnot : ¬items.length<size.n-1 := by omega
    rw [if_pos hfull,if_neg hnot,decide_eq_false hnot]
    exact ⟨rfl,h⟩
  · have hlen : items.length<size.n-1 := by
      have hne : items.length≠size.n-1 := fun heq => hfull (h.full.mpr heq)
      omega
    rw [if_neg hfull,if_pos hlen,decide_eq_true hlen]
    have hpublish : Stores _ (items++[(q.store q.tail evt).slot q.tail]) :=
      (h.write evt).publish (by omega)
    rw [EventQueue.slot_store] at hpublish
    exact ⟨rfl,hpublish⟩

/-- `pop` returns and removes the first stored event. -/
theorem pop_stores {q : EventQueue size} {items : List FlowEvent} (h : Stores q items) :
    (pop q).1=items.head? ∧ Stores (pop q).2 items.tail := by
  unfold pop
  cases items with
  | nil =>
    rw [if_pos (h.empty.mpr rfl)]
    exact ⟨rfl,h⟩
  | cons item items =>
    rw [if_neg (fun heq => List.cons_ne_nil _ _ (h.empty.mp heq)),h.front]
    exact ⟨rfl,h.release⟩

/-- `N` divides the modulus of `size_t`. -/
theorem size_dvd (size : RingSize) : size.n∣2^64 := by
  have hne : size.n≠0 := Nat.ne_of_gt size.positive
  obtain ⟨k,hk⟩ := (Nat.and_sub_one_eq_zero_iff_isPowerOfTwo hne).mp size.powerOfTwo
  have hfits := size.fits
  rw [hk] at hfits ⊢
  exact Nat.pow_dvd_pow 2 (Nat.le_of_lt ((Nat.pow_lt_pow_iff_right Nat.one_lt_two).mp hfits))

/-- `empty` and `size` read the stored events. -/
theorem size_stores {q : EventQueue size} {items : List FlowEvent} (h : Stores q items) :
    empty q=items.isEmpty ∧ queueSize q=items.length := by
  constructor
  · rw [EventQueueModel.empty,Bool.eq_iff_iff,decide_eq_true_eq,h.empty,List.isEmpty_iff]
  · have hfits := h.occupies.fits
    have hdvd := size_dvd size
    have hhead := Nat.lt_trans q.head.isLt size.fits
    have htail : q.tail.val≡q.head.val+items.length [MOD size.n] := by
      rw [h.tail]
      exact Nat.mod_modEq _ _
    have hcancel : (q.tail.val+2^64-q.head.val)+size.n≡items.length [MOD size.n] := by
      refine Nat.ModEq.add_right_cancel' q.head.val ?_
      calc (q.tail.val+2^64-q.head.val)+size.n+q.head.val
          = q.tail.val+(2^64+size.n) := by omega
        _ ≡ q.tail.val+0 [MOD size.n] :=
          Nat.ModEq.rfl.add (Nat.modEq_zero_iff_dvd.mpr ((Nat.dvd_add_self_right).mpr hdvd))
        _ ≡ items.length+q.head.val [MOD size.n] := by
          rw [Nat.add_zero,Nat.add_comm]
          exact htail
    rw [queueSize,mask_eq_mod,Nat.mod_mod_of_dvd _ hdvd,Nat.add_mod,Nat.mod_mod_of_dvd _ hdvd,
      ←Nat.add_mod]
    exact Eq.trans hcancel (Nat.mod_eq_of_lt hfits)

/-- `empty` tells whether `size` is zero. -/
theorem empty_size (q : EventQueue size) : empty q=decide (queueSize q=0) := by
  obtain ⟨items,h⟩ := exists_stores q
  obtain ⟨hempty,hsize⟩ := size_stores h
  rw [hempty,hsize,Bool.eq_iff_iff,List.isEmpty_iff,decide_eq_true_eq,List.length_eq_zero_iff]

/-- `pop` finds nothing exactly when `size` is zero, and else takes one event. -/
theorem pop_size (q : EventQueue size) :
    ((pop q).1=none ↔ queueSize q=0) ∧ queueSize (pop q).2=queueSize q-1 := by
  obtain ⟨items,h⟩ := exists_stores q
  obtain ⟨hfirst,hrest⟩ := pop_stores h
  constructor
  · rw [hfirst,(size_stores h).2,List.head?_eq_none_iff,List.length_eq_zero_iff]
  · rw [(size_stores hrest).2,(size_stores h).2,List.length_tail]

end Calls

section Steps

variable {size : RingSize}

/-- What the producer's locals say about the queue and the stored items. -/
def Knows (q : EventQueue size) (items : List FlowEvent) : Pushing size → Prop
  | .idle => True
  | .loadedTail _ tail => tail=q.tail
  | .checked _ tail nextTail =>
    tail=q.tail ∧ nextTail=nextIndex q.tail ∧ items.length+1<size.n
  | .written evt nextTail =>
    nextTail=nextIndex q.tail ∧ items.length+1<size.n ∧ q.slot q.tail=evt

/-- What the consumer's locals say about the queue and the stored items. -/
def Sees (q : EventQueue size) (items : List FlowEvent) : Popping size → Prop
  | .idle => True
  | .loadedHead head => head=q.head
  | .checked head => head=q.head ∧ items≠[]
  | .read head evt => head=q.head ∧ items.head?=some evt

/-- The simulation relation, at any point of a `push` and of a `pop`. -/
structure Represents (s : QueueRun size) (items : List FlowEvent) : Prop where
  /-- Shared memory stores the items. -/
  stores : Stores s.queue items
  /-- The producer's stale view. -/
  producer : Knows s.queue items s.producer
  /-- The consumer's stale view. -/
  consumer : Sees s.queue items s.consumer

/-- More items at the end are invisible to the consumer. -/
theorem Sees.concat {q : EventQueue size} {items : List FlowEvent} {pc : Popping size}
    (h : Sees q items pc) (evt : FlowEvent) (buffer : Vector FlowEvent size.n)
    (tail : Fin size.n) : Sees ⟨buffer,q.head,tail⟩ (items++[evt]) pc := by
  cases pc with
  | idle => trivial
  | loadedHead head => exact h
  | checked head => exact ⟨h.1,List.append_ne_nil_of_left_ne_nil h.2 _⟩
  | read head first =>
    obtain ⟨hhead,hfirst⟩ := h
    refine ⟨hhead,?_⟩
    rw [List.head?_append,hfirst]
    rfl

/-- Fewer items leave the producer's room. -/
theorem Knows.release {q : EventQueue size} {item : FlowEvent} {items : List FlowEvent}
    {pc : Pushing size} (h : Knows q (item::items) pc) (head : Fin size.n) :
    Knows ⟨q.buffer,head,q.tail⟩ items pc := by
  cases pc with
  | idle => trivial
  | loadedTail evt tail => exact h
  | checked evt tail nextTail =>
    obtain ⟨htail,hnext,hroom⟩ := h
    rw [List.length_cons] at hroom
    exact ⟨htail,hnext,by omega⟩
  | written evt nextTail =>
    obtain ⟨hnext,hroom,hslot⟩ := h
    rw [List.length_cons] at hroom
    exact ⟨hnext,by omega,hslot⟩

/-- Every access of the producer is a step of the bounded queue or invisible. -/
theorem producerStep_simulates {s : QueueRun size} {items : List FlowEvent}
    (h : Represents s items) :
    ∃ after,Allows (QueueStep (size.n-1)) items (producerStep s).2 after ∧
      Represents (producerStep s).1 after := by
  obtain ⟨hstores,hknows,hsees⟩ := h
  unfold producerStep
  cases hpc : s.producer with
  | idle =>
    cases hpending : s.pending with
    | nil => exact ⟨items,.nil items,hstores,by rw [hpc]; trivial,hsees⟩
    | cons evt rest => exact ⟨items,.nil items,hstores,rfl,hsees⟩
  | loadedTail evt tail =>
    rw [hpc] at hknows
    obtain rfl : tail=s.queue.tail := hknows
    dsimp only
    by_cases hfull : nextIndex s.queue.tail=s.queue.head
    · rw [if_pos hfull]
      exact ⟨items,.single (.refused items evt (hstores.full.mp hfull)),hstores,trivial,hsees⟩
    · have hne : items.length≠size.n-1 := fun heq => hfull (hstores.full.mpr heq)
      have hfits := hstores.occupies.fits
      rw [if_neg hfull]
      exact ⟨items,.nil items,hstores,⟨rfl,rfl,by omega⟩,hsees⟩
  | checked evt tail nextTail =>
    rw [hpc] at hknows
    obtain ⟨rfl,rfl,hroom⟩ := hknows
    exact ⟨items,.nil items,hstores.write evt,⟨rfl,hroom,s.queue.slot_store _ evt⟩,hsees⟩
  | written evt nextTail =>
    rw [hpc] at hknows
    obtain ⟨rfl,hroom,rfl⟩ := hknows
    refine ⟨items++[s.queue.slot s.queue.tail],.single (.accepted items _ (by omega)),
      hstores.publish hroom,trivial,hsees.concat _ _ _⟩

/-- Every access of the consumer is a step of the bounded queue or invisible. -/
theorem consumerStep_simulates {s : QueueRun size} {items : List FlowEvent}
    (h : Represents s items) :
    ∃ after,Allows (QueueStep (size.n-1)) items (consumerStep s).2 after ∧
      Represents (consumerStep s).1 after := by
  obtain ⟨hstores,hknows,hsees⟩ := h
  unfold consumerStep
  cases hpc : s.consumer with
  | idle => exact ⟨items,.nil items,hstores,hknows,rfl⟩
  | loadedHead head =>
    rw [hpc] at hsees
    obtain rfl : head=s.queue.head := hsees
    dsimp only
    by_cases hempty : s.queue.head=s.queue.tail
    · obtain rfl := hstores.empty.mp hempty
      rw [if_pos hempty]
      exact ⟨[],.single .empty,hstores,hknows,trivial⟩
    · rw [if_neg hempty]
      exact ⟨items,.nil items,hstores,hknows,rfl,fun heq => hempty (hstores.empty.mpr heq)⟩
  | checked head =>
    rw [hpc] at hsees
    obtain ⟨rfl,hne⟩ := hsees
    obtain ⟨item,rest,rfl⟩ := List.exists_cons_of_ne_nil hne
    exact ⟨item::rest,.nil _,hstores,hknows,rfl,congrArg some hstores.front.symm⟩
  | read head evt =>
    rw [hpc] at hsees
    obtain ⟨rfl,hfirst⟩ := hsees
    obtain ⟨rest,rfl⟩ := List.head?_eq_some_iff.mp hfirst
    exact ⟨rest,.single (.taken rest evt),hstores.release,hknows.release _,trivial⟩

/-- Whatever the schedule, the queue is allowed what a FIFO queue of capacity
`N-1` does, and ends in a state that represents the FIFO's content. -/
theorem run_represents (events : List FlowEvent) (schedule : List Party) :
    ∃ items,Allows (QueueStep (size.n-1)) []
        ((queueMachine size).trace (.initial size events) schedule) items ∧
      Represents ((queueMachine size).final (.initial size events) schedule) items := by
  refine Machine.run_refines (queueMachine size) (fun s items turn h => ?_)
    ⟨stores_initial size,trivial,trivial⟩ schedule
  cases turn with
  | producer => exact producerStep_simulates h
  | consumer => exact consumerStep_simulates h

/-- The slot being written is not the slot being read. -/
theorem Represents.no_conflict {s : QueueRun size} {items : List FlowEvent}
    (h : Represents s items) {evt : FlowEvent} {tail nextTail head : Fin size.n}
    (hproducer : s.producer=.checked evt tail nextTail) (hconsumer : s.consumer=.checked head) :
    tail≠head := by
  have hknows := h.producer
  have hsees := h.consumer
  rw [hproducer] at hknows
  rw [hconsumer] at hsees
  obtain ⟨htail,_,_⟩ := hknows
  obtain ⟨hhead,hne⟩ := hsees
  rw [htail,hhead]
  exact fun heq => hne (h.stores.empty.mp heq.symm)

/-- `push` as one call is its accesses without a turn of the consumer. -/
theorem push_turns {s : QueueRun size} {evt : FlowEvent} {rest : List FlowEvent}
    (hidle : s.producer=.idle) (hpending : s.pending=evt::rest) :
    ∃ turns ≤ 4,
      (queueMachine size).final s (List.replicate turns .producer)=
          {s with queue := (push evt s.queue).2,pending := rest} ∧
        (queueMachine size).trace s (List.replicate turns .producer)=
          [.enqueue evt (push evt s.queue).1] := by
  obtain ⟨queue,producer,consumer,pending⟩ := s
  subst hidle hpending
  by_cases hfull : nextIndex queue.tail=queue.head
  · refine ⟨2,by decide,?_,?_⟩ <;>
      simp [queueMachine,producerStep,push,hfull,List.replicate_succ]
  · refine ⟨4,Nat.le_refl 4,?_,?_⟩ <;>
      simp [queueMachine,producerStep,push,hfull,List.replicate_succ]

/-- `pop` as one call is its accesses without a turn of the producer. -/
theorem pop_turns {s : QueueRun size} (hidle : s.consumer=.idle) :
    ∃ turns ≤ 4,
      (queueMachine size).final s (List.replicate turns .consumer)=
          {s with queue := (pop s.queue).2} ∧
        (queueMachine size).trace s (List.replicate turns .consumer)=
          [.dequeue (pop s.queue).1] := by
  obtain ⟨queue,producer,consumer,pending⟩ := s
  subst hidle
  by_cases hempty : queue.head=queue.tail
  · refine ⟨2,by decide,?_,?_⟩ <;>
      simp [queueMachine,consumerStep,pop,hempty,List.replicate_succ]
  · refine ⟨4,Nat.le_refl 4,?_,?_⟩ <;>
      simp [queueMachine,consumerStep,pop,hempty,List.replicate_succ]

/-- The event of a `push`, whatever its answer. -/
def pushedItem : Operation FlowEvent → Option FlowEvent
  | .enqueue evt _ => some evt
  | .dequeue _ => none

/-- The event whose `push` has begun but not answered. -/
def inFlight : Pushing size → List FlowEvent
  | .idle => []
  | .loadedTail evt _ => [evt]
  | .checked evt _ _ => [evt]
  | .written evt _ => [evt]

/-- The pushes answered, the one in flight and those still to come are the
producer's events in their order. -/
def PushesInOrder (events : List FlowEvent) (s : QueueRun size)
    (history : List (Operation FlowEvent)) : Prop :=
  history.filterMap pushedItem++(inFlight s.producer++s.pending)=events

/-- An access of the consumer answers no push and leaves the producer alone. -/
theorem consumerStep_alone (s : QueueRun size) :
    (consumerStep s).2.filterMap pushedItem=[] ∧ (consumerStep s).1.producer=s.producer ∧
      (consumerStep s).1.pending=s.pending := by
  unfold consumerStep
  split
  · exact ⟨rfl,rfl,rfl⟩
  · split <;> exact ⟨rfl,rfl,rfl⟩
  · exact ⟨rfl,rfl,rfl⟩
  · exact ⟨rfl,rfl,rfl⟩

/-- An access of the producer leaves the consumer alone. -/
theorem producerStep_alone (s : QueueRun size) : (producerStep s).1.consumer=s.consumer := by
  unfold producerStep
  split
  · split <;> rfl
  · dsimp only
    split <;> rfl
  · rfl
  · rfl

/-- Every access keeps the pushes in order. -/
theorem step_pushes (events : List FlowEvent) (s : QueueRun size)
    (history : List (Operation FlowEvent)) (turn : Party) (h : PushesInOrder events s history) :
    PushesInOrder events ((queueMachine size).step s turn).1
      (history++((queueMachine size).step s turn).2) := by
  unfold PushesInOrder at h ⊢
  rw [List.filterMap_append]
  cases turn with
  | consumer =>
    obtain ⟨hanswers,hproducer,hpending⟩ := consumerStep_alone s
    change _++(consumerStep s).2.filterMap pushedItem++
      (inFlight (consumerStep s).1.producer++(consumerStep s).1.pending)=events
    rw [hanswers,hproducer,hpending,List.append_nil]
    exact h
  | producer =>
    rw [List.append_assoc]
    refine Eq.trans (congrArg (history.filterMap pushedItem++·) ?_) h
    change (producerStep s).2.filterMap pushedItem++
      (inFlight (producerStep s).1.producer++(producerStep s).1.pending)=_
    unfold producerStep
    cases hpc : s.producer with
    | idle =>
      cases hpending : s.pending with
      | nil => simp [hpc,hpending]
      | cons evt rest => rfl
    | loadedTail evt tail =>
      dsimp only
      split <;> rfl
    | checked evt tail nextTail => rfl
    | written evt nextTail => rfl

/-- The same for every run. -/
theorem run_pushes (events : List FlowEvent) (schedule : List Party) :
    PushesInOrder events ((queueMachine size).final (.initial size events) schedule)
      ((queueMachine size).trace (.initial size events) schedule) := by
  have hinitial : PushesInOrder events (QueueRun.initial size events) [] := rfl
  exact Machine.history_invariant (queueMachine size) (step_pushes events) hinitial schedule

/-- The accesses of a `push` before the one that answers it at the latest. -/
def pushRank : Pushing size → ℕ
  | .idle => 3
  | .loadedTail _ _ => 2
  | .checked _ _ _ => 1
  | .written _ _ => 0

/-- The accesses of a `pop` before the one that answers it at the latest. -/
def popRank : Popping size → ℕ
  | .idle => 3
  | .loadedHead _ => 2
  | .checked _ => 1
  | .read _ _ => 0

/-- Every access of the producer answers its next push or brings the answer nearer. -/
theorem push_ranked (evt : FlowEvent) (rest : List FlowEvent) :
    RankedShows (queueMachine size) (fun _ _ => True) (·==Party.producer)
      (fun s => inFlight s.producer++s.pending=evt::rest)
      (fun o => ∃ answer,o=Operation.enqueue evt answer) (fun s => pushRank s.producer) := by
  intro s turn hnext _
  cases turn with
  | consumer =>
    obtain ⟨_,hproducer,hpending⟩ := consumerStep_alone s
    right
    change inFlight (consumerStep s).1.producer++(consumerStep s).1.pending=evt::rest ∧
      pushRank (consumerStep s).1.producer+0≤pushRank s.producer
    rw [hproducer,hpending]
    exact ⟨hnext,Nat.le_refl _⟩
  | producer =>
    change (∃ o∈(producerStep s).2,_) ∨
      inFlight (producerStep s).1.producer++(producerStep s).1.pending=evt::rest ∧
        pushRank (producerStep s).1.producer+1≤pushRank s.producer
    unfold producerStep
    cases hpc : s.producer with
    | idle =>
      rw [hpc] at hnext
      cases hpending : s.pending with
      | nil =>
        rw [hpending] at hnext
        cases hnext
      | cons first later =>
        rw [hpending] at hnext
        exact .inr ⟨hnext,Nat.le_refl 3⟩
    | loadedTail first tail =>
      rw [hpc] at hnext
      obtain ⟨rfl,hrest⟩ := List.cons.inj hnext
      dsimp only
      split
      · exact .inl ⟨_,List.mem_singleton_self _,false,rfl⟩
      · exact .inr ⟨hnext,Nat.le_refl 2⟩
    | checked first tail nextTail =>
      rw [hpc] at hnext
      exact .inr ⟨hnext,Nat.le_refl 1⟩
    | written first nextTail =>
      rw [hpc] at hnext
      obtain ⟨rfl,hrest⟩ := List.cons.inj hnext
      exact .inl ⟨_,List.mem_singleton_self _,true,rfl⟩

/-- Every access of the consumer answers its pop or brings the answer nearer. -/
theorem pop_ranked :
    RankedShows (queueMachine size) (fun _ _ => True) (·==Party.consumer) (fun _ => True)
      (fun o => ∃ item,o=Operation.dequeue item) (fun s => popRank s.consumer) := by
  intro s turn _ _
  cases turn with
  | producer =>
    right
    change True ∧ popRank (producerStep s).1.consumer+0≤popRank s.consumer
    rw [producerStep_alone]
    exact ⟨trivial,Nat.le_refl _⟩
  | consumer =>
    change (∃ o∈(consumerStep s).2,_) ∨
      True ∧ popRank (consumerStep s).1.consumer+1≤popRank s.consumer
    unfold consumerStep
    cases s.consumer with
    | idle => exact .inr ⟨trivial,Nat.le_refl 3⟩
    | loadedHead head =>
      dsimp only
      split
      · exact .inl ⟨_,List.mem_singleton_self _,none,rfl⟩
      · exact .inr ⟨trivial,Nat.le_refl 2⟩
    | checked head => exact .inr ⟨trivial,Nat.le_refl 1⟩
    | read head evt => exact .inl ⟨_,List.mem_singleton_self _,some evt,rfl⟩

/-- Every call is answered within its own accesses. -/
structure AnswersCalls (s : QueueRun size) : Prop where
  /-- Four turns of the producer answer its next `push`, whatever the consumer does
  between them. -/
  push : ∀ evt rest turns,inFlight s.producer++s.pending=evt::rest →
    4≤turns.countP (·==Party.producer) →
      ∃ answer,.enqueue evt answer∈(queueMachine size).trace s turns
  /-- Four turns of the consumer answer its `pop`. -/
  pop : ∀ turns,4≤turns.countP (·==Party.consumer) →
    ∃ item,.dequeue item∈(queueMachine size).trace s turns
  /-- With no turn of the consumer between its accesses `push` is one call. -/
  pushAlone : ∀ evt rest,s.producer=.idle → s.pending=evt::rest → ∃ turns ≤ 4,
    (queueMachine size).final s (List.replicate turns .producer)=
        {s with queue := (EventQueueModel.push evt s.queue).2,pending := rest} ∧
      (queueMachine size).trace s (List.replicate turns .producer)=
        [.enqueue evt (EventQueueModel.push evt s.queue).1]
  /-- With no turn of the producer between its accesses `pop` is one call. -/
  popAlone : s.consumer=.idle → ∃ turns ≤ 4,
    (queueMachine size).final s (List.replicate turns .consumer)=
        {s with queue := (EventQueueModel.pop s.queue).2} ∧
      (queueMachine size).trace s (List.replicate turns .consumer)=
        [.dequeue (EventQueueModel.pop s.queue).1]

/-- So it is from every state. -/
theorem calls_answered (s : QueueRun size) : AnswersCalls s := by
  refine ⟨fun evt rest turns hnext hturns => ?_,fun turns hturns => ?_,
    fun evt rest hidle hpending => push_turns hidle hpending,pop_turns⟩
  · have hrank : pushRank s.producer≤3 := by cases s.producer <;> simp [pushRank]
    obtain ⟨_,hseen,answer,rfl⟩ := (push_ranked evt rest).shows hnext
      (along_always _ s turns) (by omega)
    exact ⟨answer,hseen⟩
  · have hrank : popRank s.consumer≤3 := by cases s.consumer <;> simp [popRank]
    obtain ⟨_,hseen,item,rfl⟩ := pop_ranked.shows trivial
      (along_always _ s turns) (by omega)
    exact ⟨item,hseen⟩

/-- For every power of two `N` and every interleaving of the accesses of one
producer and one consumer, the queue does what a FIFO queue of capacity `N-1`
does. Popped events are a prefix of the accepted ones; a push is refused only
with `N-1` events queued when it loads the head; a pop finds nothing only with
none queued when it loads the tail; pushes are answered in order; no slot is read
while it is being written; and every call is answered within its own accesses. -/
theorem event_queue_refines (size : RingSize) (events : List FlowEvent) (schedule : List Party) :
    let trace := (queueMachine size).trace (.initial size events) schedule
    let final := (queueMachine size).final (.initial size events) schedule
    (∃ items,Allows (QueueStep (size.n-1)) [] trace items ∧ Represents final items) ∧
      dequeued trace<+:enqueued trace ∧
      (∀ earlier evt later,trace=earlier++.enqueue evt false::later →
        (queued earlier).length=size.n-1) ∧
      (∀ earlier later,trace=earlier++.dequeue none::later → queued earlier=[]) ∧
      trace.filterMap pushedItem<+:events ∧
      (∀ evt tail nextTail head,final.producer=.checked evt tail nextTail →
        final.consumer=.checked head → tail≠head) ∧
      AnswersCalls final := by
  obtain ⟨items,hallows,hrepresents⟩ := run_represents events schedule
  dsimp only
  refine ⟨⟨items,hallows,hrepresents⟩,?_,?_,?_,?_,?_,calls_answered _⟩
  · exact ⟨items,(allows_queued hallows).1.symm⟩
  · intro earlier evt later hsplit
    rw [hsplit] at hallows
    obtain ⟨before,after,hbefore,hstep⟩ := allows_middle hallows
    cases hstep with
    | refused _ _ hfull => rwa [(allows_queued hbefore).2]
  · intro earlier later hsplit
    rw [hsplit] at hallows
    obtain ⟨before,after,hbefore,hstep⟩ := allows_middle hallows
    cases hstep with
    | empty => exact (allows_queued hbefore).2
  · exact ⟨_,run_pushes events schedule⟩
  · intro evt tail nextTail head hproducer hconsumer
    exact hrepresents.no_conflict hproducer hconsumer

end Steps

end PacketPipe.EventQueueRefinement

import PacketPipe.PipelineSimulation
import PacketPipe.RankedMachines

/-!
# The wait in `pop_wait`

Between its two `pop`s the consumer waits on a condition variable whose mutex
the producer never takes: `push` stores `tail_` and notifies afterwards. The
notification can come after the consumer has found nothing and before it is
blocked, and then wakes nobody. The accesses of both parties, the notification,
the deadline and spurious wakeups are steps of their own. Waiting is invisible to
the queue; a missed notification costs no more than the rest of the timeout.
-/

namespace PacketPipe.EventQueueWaiting

open FlowEvents ObservedMachines RankedMachines BoundedFifos EventQueueModel EventQueueRefinement
open PipelineModel PipelineSimulation

/-- Where the consumer is in `pop_wait`. Only the consumer locks `cv_mutex_`. -/
inductive WaitPc (size : RingSize)
  /-- In one of the `pop`s, the second one if `again`. -/
  | popping (again : Bool)
  /-- About to evaluate the predicate of `wait_for`, which may have timed out. -/
  | predicate (timedOut : Bool)
  /-- The predicate has loaded `head_`. -/
  | predicateTail (timedOut : Bool) (head : Fin size.n)
  /-- The predicate was false, and `cv_` is about to block. -/
  | falling
  /-- Blocked on `cv_`. -/
  | blocked
  /-- Woken, about to look at the clock. -/
  | woken

/-- The queue, both parties, and the condition variable between them. -/
structure WaitingRun (size : RingSize) where
  /-- Shared memory, with the accesses of `push` and of the `pop`s. -/
  run : QueueRun size
  /-- `push` has stored `tail_` and is about to call `notify_one`. -/
  notifying : Bool
  /-- The consumer, which calls `pop_wait` again whenever it has returned. -/
  pc : WaitPc size
  /-- The deadline of the present `wait_for` has passed. -/
  expired : Bool

/-- A new queue, both parties idle, and the events to be pushed. -/
def WaitingRun.initial (size : RingSize) (events : List FlowEvent) : WaitingRun size :=
  ⟨.initial size events,false,.popping false,false⟩

/-- Whose turn it is, and what the clock and the system do to a waiting thread. -/
inductive WaitInput
  | producer
  | consumer
  /-- The deadline passes. -/
  | deadline
  /-- A spurious wakeup. -/
  | spurious
  deriving DecidableEq

/-- What an observer sees. -/
inductive WaitObservation
  /-- A `push` or a `pop` is answered. -/
  | queue (op : Operation FlowEvent)
  /-- `notify_one` was called, and woke the consumer or nobody. -/
  | notified (woke : Bool)
  /-- The predicate was false. -/
  | falling
  /-- `wait_until` has returned `timeout`. -/
  | timedOut
  /-- `pop_wait` returns. -/
  | returned (answer : Option FlowEvent)
  deriving DecidableEq

/-- A push was accepted. -/
def accepts (ops : List (Operation FlowEvent)) : Bool := !(enqueued ops).isEmpty

section Steps

variable {size : RingSize}

/-- The producer's next access, or its notification. -/
def producerTurn (s : WaitingRun size) : WaitingRun size×List WaitObservation :=
  if s.notifying=true then
    match s.pc with
    | .blocked => ({s with notifying := false,pc := .woken},[.notified true])
    | _ => ({s with notifying := false},[.notified false])
  else
    let stepped := producerStep s.run
    ({s with run := stepped.1,notifying := accepts stepped.2},stepped.2.map .queue)

/-- The consumer's next access to the queue or to the condition variable. -/
def consumerTurn (s : WaitingRun size) : WaitingRun size×List WaitObservation :=
  match s.pc with
  | .popping again =>
    let stepped := consumerStep s.run
    match popAnswer stepped.2 with
    | none => ({s with run := stepped.1},[])
    | some (some evt) =>
      ({s with run := stepped.1,pc := .popping false},
        [.queue (.dequeue (some evt)),.returned (some evt)])
    | some none =>
      if again=true then
        ({s with run := stepped.1,pc := .popping false},[.queue (.dequeue none),.returned none])
      else
        ({s with run := stepped.1,pc := .predicate false,expired := false},
          [.queue (.dequeue none)])
  | .predicate timedOut => ({s with pc := .predicateTail timedOut s.run.queue.head},[])
  | .predicateTail timedOut head =>
    if head=s.run.queue.tail ∧ timedOut=false then ({s with pc := .falling},[.falling])
    else ({s with pc := .popping true},[])
  | .falling => ({s with pc := .blocked},[])
  | .blocked => if s.expired=true then ({s with pc := .woken},[]) else (s,[])
  | .woken =>
    ({s with pc := .predicate s.expired},if s.expired=true then [.timedOut] else [])

/-- The queue with its condition variable. -/
def waitingMachine (size : RingSize) : Machine (WaitingRun size) WaitInput WaitObservation where
  step s
    | .producer => producerTurn s
    | .consumer => consumerTurn s
    | .deadline =>
      match s.pc with
      | .popping _ => (s,[])
      | _ => ({s with expired := true},[])
    | .spurious =>
      match s.pc with
      | .blocked => ({s with pc := .woken},[])
      | _ => (s,[])

/-- Everything one step can do. -/
inductive WaitStep (s : WaitingRun size) :
    WaitInput → WaitingRun size → List WaitObservation → Prop
  /-- An access of `push`. -/
  | pushes (hquiet : s.notifying=false) :
    WaitStep s .producer
      {s with run := (producerStep s.run).1,notifying := accepts (producerStep s.run).2}
      ((producerStep s.run).2.map .queue)
  /-- The notification wakes the consumer. -/
  | wakes (hnotifying : s.notifying=true) (hpc : s.pc=.blocked) :
    WaitStep s .producer {s with notifying := false,pc := .woken} [.notified true]
  /-- The notification wakes nobody. -/
  | misses (hnotifying : s.notifying=true) (hpc : s.pc≠.blocked) :
    WaitStep s .producer {s with notifying := false} [.notified false]
  /-- An access of a `pop` that does not answer it. -/
  | pops (again : Bool) (hpc : s.pc=.popping again) (hops : (consumerStep s.run).2=[]) :
    WaitStep s .consumer {s with run := (consumerStep s.run).1} []
  /-- A `pop` has an event, and `pop_wait` returns it. -/
  | takes (again : Bool) (evt : FlowEvent) (hpc : s.pc=.popping again)
    (hops : (consumerStep s.run).2=[.dequeue (some evt)]) :
    WaitStep s .consumer {s with run := (consumerStep s.run).1,pc := .popping false}
      [.queue (.dequeue (some evt)),.returned (some evt)]
  /-- The first `pop` finds nothing. -/
  | waits (hpc : s.pc=.popping false) (hops : (consumerStep s.run).2=[.dequeue none]) :
    WaitStep s .consumer
      {s with run := (consumerStep s.run).1,pc := .predicate false,expired := false}
      [.queue (.dequeue none)]
  /-- The second `pop` finds nothing, and `pop_wait` returns nothing. -/
  | gives (hpc : s.pc=.popping true) (hops : (consumerStep s.run).2=[.dequeue none]) :
    WaitStep s .consumer {s with run := (consumerStep s.run).1,pc := .popping false}
      [.queue (.dequeue none),.returned none]
  /-- The predicate loads `head_`. -/
  | loads (timedOut : Bool) (hpc : s.pc=.predicate timedOut) :
    WaitStep s .consumer {s with pc := .predicateTail timedOut s.run.queue.head} []
  /-- The predicate is false. -/
  | falls (head : Fin size.n) (hpc : s.pc=.predicateTail false head)
    (hempty : head=s.run.queue.tail) :
    WaitStep s .consumer {s with pc := .falling} [.falling]
  /-- `wait_for` returns. -/
  | passes (timedOut : Bool) (head : Fin size.n) (hpc : s.pc=.predicateTail timedOut head)
    (hpasses : head≠s.run.queue.tail ∨ timedOut=true) :
    WaitStep s .consumer {s with pc := .popping true} []
  /-- `cv_` blocks. -/
  | blocks (hpc : s.pc=.falling) : WaitStep s .consumer {s with pc := .blocked} []
  /-- The deadline wakes the consumer. -/
  | expires (hpc : s.pc=.blocked) (hexpired : s.expired=true) :
    WaitStep s .consumer {s with pc := .woken} []
  /-- `wait_until` returns before the deadline. -/
  | resumes (hpc : s.pc=.woken) (hexpired : s.expired=false) :
    WaitStep s .consumer {s with pc := .predicate false} []
  /-- `wait_until` returns with a timeout. -/
  | times (hpc : s.pc=.woken) (hexpired : s.expired=true) :
    WaitStep s .consumer {s with pc := .predicate true} [.timedOut]
  /-- The deadline passes. -/
  | deadline (hpc : ∀ again,s.pc≠.popping again) : WaitStep s .deadline {s with expired := true} []
  /-- A spurious wakeup. -/
  | spurious (hpc : s.pc=.blocked) : WaitStep s .spurious {s with pc := .woken} []
  /-- There is nothing to do. -/
  | stays (input : WaitInput) (hidle : input=.consumer → s.pc=.blocked ∧ s.expired=false) :
    WaitStep s input s []

/-- There are no other steps. -/
theorem waitingMachine_step (s : WaitingRun size) (input : WaitInput) :
    WaitStep s input ((waitingMachine size).step s input).1
      ((waitingMachine size).step s input).2 := by
  obtain ⟨run,notifying,pc,expired⟩ := s
  cases input with
  | producer =>
    simp only [waitingMachine,producerTurn]
    cases notifying with
    | false => exact .pushes rfl
    | true =>
      cases pc with
      | blocked => exact .wakes rfl rfl
      | _ => exact .misses rfl fun h => by cases h
  | consumer =>
    simp only [waitingMachine,consumerTurn]
    cases pc with
    | popping again =>
      dsimp only
      rcases consumerStep_answers run with hops | ⟨item,hops⟩
      · rw [hops]
        exact .pops again rfl hops
      · rw [hops]
        cases item with
        | some evt => exact .takes again evt rfl hops
        | none =>
          cases again with
          | false => exact .waits rfl hops
          | true => exact .gives rfl hops
    | predicate timedOut => exact .loads timedOut rfl
    | predicateTail timedOut head =>
      dsimp only
      split
      · next hempty =>
        obtain ⟨hempty,rfl⟩ := hempty
        exact .falls head rfl hempty
      · next hpasses =>
        refine .passes timedOut head rfl ?_
        rw [not_and_or,Bool.not_eq_false] at hpasses
        exact hpasses
    | falling => exact .blocks rfl
    | blocked =>
      cases expired with
      | false => exact .stays _ fun _ => ⟨rfl,rfl⟩
      | true => exact .expires rfl rfl
    | woken =>
      cases expired with
      | false => exact .resumes rfl rfl
      | true => exact .times rfl rfl
  | deadline =>
    cases pc with
    | popping again => exact .stays _ fun h => by cases h
    | _ => exact .deadline fun again h => by cases h
  | spurious =>
    cases pc with
    | blocked => exact .spurious rfl
    | _ => exact .stays _ fun h => by cases h

end Steps

section Histories

/-- The operation on the queue, if one is answered. -/
def queueOperation : WaitObservation → Option (Operation FlowEvent)
  | .queue op => some op
  | _ => none

/-- The event that `pop_wait` returns. -/
def returnedEvent : WaitObservation → Option FlowEvent
  | .returned answer => answer
  | _ => none

/-- The wait has timed out since `pop_wait` returned last. -/
def TimedOut (seen : List WaitObservation) : Prop :=
  ∃ front back,seen=front++.timedOut::back ∧ ∀ answer,.returned answer∉back

/-- The predicate has been false, and what came since is the present wait. -/
def Fallen (seen : List WaitObservation) : Prop :=
  ∃ front back,seen=front++.falling::back ∧ .falling∉back

/-- A notification has woken nobody since the predicate was false last. -/
def Missed (seen : List WaitObservation) : Prop :=
  ∃ front back,seen=front++.falling::back ∧ .falling∉back ∧ .notified false∈back

/-- `pop_wait` returns nothing only when its wait has timed out. -/
def Timely (front : List WaitObservation) (o : WaitObservation) : Prop :=
  o=.returned none → TimedOut front

variable {seen made : List WaitObservation}

/-- Until the next return a timeout remains one. -/
theorem TimedOut.append (h : TimedOut seen) (hmade : ∀ answer,.returned answer∉made) :
    TimedOut (seen++made) := by
  obtain ⟨front,back,rfl,hback⟩ := h
  refine ⟨front,back++made,by rw [List.append_assoc,List.cons_append],fun answer hmem => ?_⟩
  rcases List.mem_append.mp hmem with hmem | hmem
  · exact hback answer hmem
  · exact hmade answer hmem

/-- A timeout just seen. -/
theorem timedOut_concat (seen : List WaitObservation) : TimedOut (seen++[.timedOut]) :=
  ⟨seen,[],rfl,fun _ => List.not_mem_nil⟩

/-- The predicate was just false. -/
theorem fallen_concat (seen : List WaitObservation) : Fallen (seen++[.falling]) :=
  ⟨seen,[],rfl,List.not_mem_nil⟩

/-- Until the predicate is false again the wait is the same. -/
theorem Fallen.append (h : Fallen seen) (hmade : .falling∉made) : Fallen (seen++made) := by
  obtain ⟨front,back,rfl,hback⟩ := h
  refine ⟨front,back++made,by rw [List.append_assoc,List.cons_append],fun hmem => ?_⟩
  rcases List.mem_append.mp hmem with hmem | hmem
  · exact hback hmem
  · exact hmade hmem

/-- A notification that wakes nobody during the wait is missed. -/
theorem Fallen.missed (h : Fallen seen) : Missed (seen++[.notified false]) := by
  obtain ⟨front,back,rfl,hback⟩ := h
  refine ⟨front,back++[.notified false],by rw [List.append_assoc,List.cons_append],
    fun hmem => ?_,List.mem_append_right back (List.mem_singleton_self _)⟩
  rcases List.mem_append.mp hmem with hmem | hmem
  · exact hback hmem
  · cases List.mem_singleton.mp hmem

/-- Until the predicate is evaluated again a missed notification remains one. -/
theorem Missed.append (h : Missed seen) (hmade : .falling∉made) : Missed (seen++made) := by
  obtain ⟨front,back,rfl,hback,hmissed⟩ := h
  refine ⟨front,back++made,by rw [List.append_assoc,List.cons_append],fun hmem => ?_,
    List.mem_append_left made hmissed⟩
  rcases List.mem_append.mp hmem with hmem | hmem
  · exact hback hmem
  · exact hmade hmem

/-- The answers of the queue are no returns and no evaluations of the predicate. -/
theorem operations_quiet (ops : List (Operation FlowEvent)) :
    (∀ answer,.returned answer∉ops.map WaitObservation.queue) ∧
      .falling∉ops.map WaitObservation.queue := by
  constructor
  · intro answer hmem
    obtain ⟨op,_,hop⟩ := List.mem_map.mp hmem
    cases hop
  · intro hmem
    obtain ⟨op,_,hop⟩ := List.mem_map.mp hmem
    cases hop

/-- Observations other than a return of nothing keep the waits timely. -/
theorem timely_append (h : Preceded Timely seen) (hmade : .returned none∉made) :
    Preceded Timely (seen++made) := by
  refine h.append ?_
  rintro front o back rfl rfl
  exact absurd (List.mem_append_right front List.mem_cons_self) hmade

end Histories

section Waits

variable {size : RingSize}

/-- What the consumer's place says about the queue and what was seen. -/
def Learned (queue : EventQueue size) (notifying : Bool) (items : List FlowEvent)
    (seen : List WaitObservation) : WaitPc size → Prop
  | .popping again => again=true → TimedOut seen ∨ items≠[]
  | .predicate timedOut => timedOut=true → TimedOut seen
  | .predicateTail timedOut head => head=queue.head ∧ (timedOut=true → TimedOut seen)
  | .falling => Fallen seen ∧ (items≠[] → notifying=true ∨ Missed seen)
  | .blocked => items≠[] → notifying=true ∨ Missed seen
  | .woken => True

/-- The queue stores the items, and the consumer knows what its place says. -/
structure Watches (s : WaitingRun size) (items : List FlowEvent) (seen : List WaitObservation) :
    Prop where
  /-- The accesses keep their relation to the stored items. -/
  represents : Represents s.run items
  /-- The consumer's place. -/
  learned : Learned s.run.queue s.notifying items seen s.pc
  /-- Nothing was returned without a timeout. -/
  timely : Preceded Timely seen

/-- Observations that neither return nor find the predicate false change nothing of
what the consumer knows. -/
theorem Learned.append {queue : EventQueue size} {notifying : Bool} {items : List FlowEvent}
    {seen made : List WaitObservation} {pc : WaitPc size}
    (h : Learned queue notifying items seen pc) (hreturned : ∀ answer,.returned answer∉made)
    (hfalling : .falling∉made) : Learned queue notifying items (seen++made) pc := by
  cases pc with
  | popping again => exact fun hagain => (h hagain).imp_left fun h => h.append hreturned
  | predicate timedOut => exact fun htimed => (h htimed).append hreturned
  | predicateTail timedOut head => exact ⟨h.1,fun htimed => (h.2 htimed).append hreturned⟩
  | falling =>
    exact ⟨h.1.append hfalling,fun hne => (h.2 hne).imp_right fun h => h.append hfalling⟩
  | blocked => exact fun hne => (h hne).imp_right fun h => h.append hfalling
  | woken => trivial

/-- An access of the producer takes nothing and leaves `head_` alone. -/
theorem producerStep_takes (run : QueueRun size) :
    dequeued (producerStep run).2=[] ∧ (producerStep run).1.queue.head=run.queue.head := by
  unfold producerStep
  split
  · split <;> exact ⟨rfl,rfl⟩
  · dsimp only
    split <;> exact ⟨rfl,rfl⟩
  · exact ⟨rfl,rfl⟩
  · exact ⟨rfl,rfl⟩

/-- It adds what it publishes. -/
theorem producerStep_adds {run : QueueRun size} {items : List FlowEvent}
    (h : Represents run items) :
    Represents (producerStep run).1 (items++enqueued (producerStep run).2) := by
  obtain ⟨after,hallows,hafter⟩ := producerStep_simulates h
  have hconserves := allows_conserves hallows
  rw [(producerStep_takes run).1,List.nil_append] at hconserves
  rw [hconserves]
  exact hafter

/-- What the producer publishes is known to the consumer, or a notification is due. -/
theorem Learned.pushed {queue after : EventQueue size} {items more : List FlowEvent}
    {seen : List WaitObservation} {pc : WaitPc size} (h : Learned queue false items seen pc)
    (hhead : after.head=queue.head) :
    Learned after (!more.isEmpty) (items++more) seen pc := by
  have hmore : ∀ {P : Prop},(items≠[] → false=true ∨ P) → items++more≠[] →
      (!more.isEmpty)=true ∨ P := by
    intro P hitems hne
    cases more with
    | cons evt more => exact .inl rfl
    | nil =>
      rw [List.append_nil] at hne
      exact (hitems hne).imp_left fun h => by cases h
  cases pc with
  | popping again =>
    exact fun hagain => (h hagain).imp_right fun h => List.append_ne_nil_of_left_ne_nil h more
  | predicate timedOut => exact h
  | predicateTail timedOut head => exact ⟨h.1.trans hhead.symm,h.2⟩
  | falling => exact ⟨h.1,hmore h.2⟩
  | blocked => exact hmore h
  | woken => trivial

/-- A notification that wakes nobody is missed where it matters. -/
theorem Learned.missed {queue : EventQueue size} {notifying : Bool} {items : List FlowEvent}
    {seen : List WaitObservation} {pc : WaitPc size} (h : Learned queue notifying items seen pc)
    (hpc : pc≠.blocked) : Learned queue false items (seen++[.notified false]) pc := by
  have hreturned : ∀ answer,.returned answer∉[WaitObservation.notified false] := by simp
  cases pc with
  | popping again => exact fun hagain => (h hagain).imp_left fun h => h.append hreturned
  | predicate timedOut => exact fun htimed => (h htimed).append hreturned
  | predicateTail timedOut head => exact ⟨h.1,fun htimed => (h.2 htimed).append hreturned⟩
  | falling => exact ⟨h.1.append (by simp),fun _ => .inr h.1.missed⟩
  | blocked => exact absurd rfl hpc
  | woken => trivial

/-- Every step keeps what the consumer knows. -/
theorem WaitStep.watches {s s' : WaitingRun size} {input : WaitInput} {items : List FlowEvent}
    {seen made : List WaitObservation} (hstep : WaitStep s input s' made)
    (h : Watches s items seen) : ∃ after,Watches s' after (seen++made) := by
  obtain ⟨hrepresents,hlearned,htimely⟩ := h
  cases hstep with
  | pushes hquiet =>
    have hhead := (producerStep_takes s.run).2
    rw [hquiet] at hlearned
    obtain ⟨hnone,hfalling⟩ := operations_quiet (producerStep s.run).2
    exact ⟨_,producerStep_adds hrepresents,(hlearned.pushed hhead).append hnone hfalling,
      timely_append htimely (hnone none)⟩
  | wakes => exact ⟨items,hrepresents,trivial,timely_append htimely (by simp)⟩
  | misses hnotifying hpc =>
    exact ⟨items,hrepresents,hlearned.missed hpc,timely_append htimely (by simp)⟩
  | pops again hpc hops =>
    obtain ⟨after,hallows,hafter⟩ := consumerStep_simulates hrepresents
    rw [hops] at hallows
    cases hallows
    rw [hpc] at hlearned
    rw [List.append_nil]
    refine ⟨items,hafter,?_,htimely⟩
    dsimp only
    rw [hpc]
    exact hlearned
  | takes again evt hpc hops =>
    obtain ⟨after,_,hafter⟩ := consumerStep_simulates hrepresents
    exact ⟨after,hafter,(absurd · Bool.false_ne_true),timely_append htimely (by simp)⟩
  | waits hpc hops =>
    obtain ⟨after,_,hafter⟩ := consumerStep_simulates hrepresents
    exact ⟨after,hafter,(absurd · Bool.false_ne_true),timely_append htimely (by simp)⟩
  | gives hpc hops =>
    obtain ⟨after,hallows,hafter⟩ := consumerStep_simulates hrepresents
    rw [hops] at hallows
    rw [hpc] at hlearned
    cases hallows with
    | cons hempty _ =>
      cases hempty
      have htimed : TimedOut seen := (hlearned rfl).resolve_right fun hne => hne rfl
      refine ⟨after,hafter,(absurd · Bool.false_ne_true),?_⟩
      rw [List.append_cons]
      have hpopped : Preceded Timely (seen++[.queue (.dequeue none)]) :=
        timely_append htimely (by simp)
      exact hpopped.concat fun _ => htimed.append (by simp)
  | loads timedOut hpc =>
    rw [hpc] at hlearned
    rw [List.append_nil]
    exact ⟨items,hrepresents,⟨rfl,hlearned⟩,htimely⟩
  | falls head hpc hempty =>
    rw [hpc] at hlearned
    have hnone : items=[] := hrepresents.stores.empty.mp (hlearned.1.symm.trans hempty)
    exact ⟨items,hrepresents,⟨fallen_concat seen,fun hne => absurd hnone hne⟩,
      timely_append htimely (by simp)⟩
  | passes timedOut head hpc hpasses =>
    rw [hpc] at hlearned
    rw [List.append_nil]
    refine ⟨items,hrepresents,fun _ => ?_,htimely⟩
    rcases hpasses with hne | htimed
    · refine .inr fun hnone => hne ?_
      exact hlearned.1.trans (hrepresents.stores.empty.mpr hnone)
    · exact .inl (hlearned.2 htimed)
  | blocks hpc =>
    rw [hpc] at hlearned
    rw [List.append_nil]
    exact ⟨items,hrepresents,hlearned.2,htimely⟩
  | expires hpc hexpired =>
    rw [List.append_nil]
    exact ⟨items,hrepresents,trivial,htimely⟩
  | resumes hpc hexpired =>
    rw [List.append_nil]
    exact ⟨items,hrepresents,(absurd · Bool.false_ne_true),htimely⟩
  | times hpc hexpired =>
    exact ⟨items,hrepresents,fun _ => timedOut_concat seen,timely_append htimely (by simp)⟩
  | deadline hpc =>
    rw [List.append_nil]
    exact ⟨items,hrepresents,hlearned,htimely⟩
  | spurious hpc =>
    rw [List.append_nil]
    exact ⟨items,hrepresents,trivial,htimely⟩
  | stays input hidle =>
    rw [List.append_nil]
    exact ⟨items,hrepresents,hlearned,htimely⟩

/-- The accesses of a step are turns of the queue without its condition variable. -/
theorem WaitStep.turns {s s' : WaitingRun size} {input : WaitInput} {made : List WaitObservation}
    (hstep : WaitStep s input s' made) :
    ∃ turns,(queueMachine size).final s.run turns=s'.run ∧
      (queueMachine size).trace s.run turns=made.filterMap queueOperation := by
  have hproducer : (queueMachine size).trace s.run [.producer]=(producerStep s.run).2 :=
    List.append_nil _
  have hconsumer : (queueMachine size).trace s.run [.consumer]=(consumerStep s.run).2 :=
    List.append_nil _
  cases hstep with
  | pushes hquiet =>
    refine ⟨[.producer],rfl,?_⟩
    rw [hproducer,List.filterMap_map]
    exact List.filterMap_some.symm
  | pops again hpc hops => exact ⟨[.consumer],rfl,hconsumer.trans hops⟩
  | takes again evt hpc hops => exact ⟨[.consumer],rfl,hconsumer.trans hops⟩
  | waits hpc hops => exact ⟨[.consumer],rfl,hconsumer.trans hops⟩
  | gives hpc hops => exact ⟨[.consumer],rfl,hconsumer.trans hops⟩
  | _ => exact ⟨[],rfl,rfl⟩

/-- A step returns the events that it pops. -/
theorem WaitStep.returns {s s' : WaitingRun size} {input : WaitInput}
    {made : List WaitObservation} (hstep : WaitStep s input s' made) :
    made.filterMap returnedEvent=dequeued (made.filterMap queueOperation) := by
  cases hstep with
  | pushes hquiet =>
    have hnone : ((producerStep s.run).2.map WaitObservation.queue).filterMap returnedEvent=[] := by
      rw [List.filterMap_map]
      exact List.filterMap_eq_nil_iff.mpr fun _ _ => rfl
    rw [hnone,List.filterMap_map]
    exact (producerStep_takes s.run).1.symm.trans (congrArg dequeued List.filterMap_some.symm)
  | _ => rfl

/-- The wait ends without another input: its deadline has passed, or the second
`pop` is on. -/
def Due (s : WaitingRun size) : Prop :=
  match s.pc with
  | .popping again => again=true
  | _ => s.expired=true

/-- The consumer's turns before the one that returns at the latest, once the deadline
has passed. -/
def waitRank (s : WaitingRun size) : ℕ :=
  match s.pc with
  | .popping _ => popRank s.run.consumer
  | .predicateTail true _ => 4
  | .predicate true => 5
  | .woken => 6
  | .blocked => 7
  | .falling => 8
  | .predicateTail false _ => 9
  | .predicate false => 10

/-- An access that answers no `pop` brings the answer nearer. -/
theorem popRank_lowers {run : QueueRun size} (hops : (consumerStep run).2=[]) :
    popRank (consumerStep run).1.consumer+1≤popRank run.consumer := by
  rcases pop_ranked run .consumer trivial trivial with ⟨o,ho,_⟩ | ⟨_,hlower⟩
  · change o∈(consumerStep run).2 at ho
    rw [hops] at ho
    cases ho
  · exact hlower

/-- A `pop` has at most three accesses before its answer. -/
theorem popRank_le (popping : Popping size) : popRank popping≤3 := by
  cases popping <;> simp [popRank]

/-- Once the deadline has passed every turn of the consumer returns or brings the
return nearer, whatever the producer does and whoever wakes it. -/
theorem wait_ranked :
    RankedShows (waitingMachine size) (fun _ _ => True) (·==WaitInput.consumer) Due
      (fun o => ∃ answer,o=WaitObservation.returned answer) waitRank := by
  intro s input hdue _
  have hstep := waitingMachine_step s input
  generalize (waitingMachine size).step s input=stepped at hstep ⊢
  obtain ⟨after,made⟩ := stepped
  cases hstep with
  | pushes hquiet =>
    refine .inr ⟨hdue,?_⟩
    dsimp only [waitRank]
    rw [producerStep_alone]
    exact Nat.le_refl _
  | wakes hnotifying hpc =>
    rw [Due,hpc] at hdue
    rw [waitRank,waitRank,hpc]
    exact .inr ⟨hdue,Nat.le_succ 6⟩
  | misses hnotifying hpc => exact .inr ⟨hdue,Nat.le_refl _⟩
  | pops again hpc hops =>
    refine .inr ⟨hdue,?_⟩
    rw [waitRank,waitRank,hpc]
    exact popRank_lowers hops
  | takes again evt hpc hops =>
    exact .inl ⟨_,List.mem_cons_of_mem _ (List.mem_singleton_self _),some evt,rfl⟩
  | waits hpc hops =>
    rw [Due,hpc] at hdue
    exact absurd hdue Bool.false_ne_true
  | gives hpc hops =>
    exact .inl ⟨_,List.mem_cons_of_mem _ (List.mem_singleton_self _),none,rfl⟩
  | loads timedOut hpc =>
    rw [Due,hpc] at hdue
    rw [waitRank,waitRank,hpc]
    cases timedOut with
    | false => exact .inr ⟨hdue,Nat.le_refl 10⟩
    | true => exact .inr ⟨hdue,Nat.le_refl 5⟩
  | falls head hpc hempty =>
    rw [Due,hpc] at hdue
    rw [waitRank,waitRank,hpc]
    exact .inr ⟨hdue,Nat.le_refl 9⟩
  | passes timedOut head hpc hpasses =>
    have hpops := popRank_le s.run.consumer
    rw [waitRank,waitRank,hpc]
    refine .inr ⟨rfl,?_⟩
    cases timedOut with
    | false =>
      have hless : 4≤9 := by decide
      exact Nat.le_trans (Nat.succ_le_succ hpops) hless
    | true => exact Nat.succ_le_succ hpops
  | blocks hpc =>
    rw [Due,hpc] at hdue
    rw [waitRank,waitRank,hpc]
    exact .inr ⟨hdue,Nat.le_refl 8⟩
  | expires hpc hexpired =>
    rw [waitRank,waitRank,hpc]
    exact .inr ⟨hexpired,Nat.le_refl 7⟩
  | resumes hpc hexpired =>
    rw [Due,hpc] at hdue
    exact absurd (hexpired.symm.trans hdue) Bool.false_ne_true
  | times hpc hexpired =>
    rw [waitRank,waitRank,hpc]
    exact .inr ⟨hexpired,Nat.le_refl 6⟩
  | deadline hpc =>
    refine .inr ⟨?_,Nat.le_refl _⟩
    rw [Due]
    dsimp only
    split
    · next again hplace => exact absurd hplace (hpc again)
    · rfl
  | spurious hpc =>
    rw [Due,hpc] at hdue
    rw [waitRank,waitRank,hpc]
    exact .inr ⟨hdue,Nat.le_succ 6⟩
  | stays input hidle =>
    refine .inr ⟨hdue,?_⟩
    cases input with
    | consumer =>
      obtain ⟨hpc,hexpired⟩ := hidle rfl
      rw [Due,hpc] at hdue
      exact absurd (hexpired.symm.trans hdue) Bool.false_ne_true
    | _ => exact Nat.le_refl _

/-- What a run has in common with one of the queue alone, and what the consumer
knows at its end. -/
theorem run_watches (events : List FlowEvent) (inputs : List WaitInput) :
    let m := waitingMachine size
    let seen := m.trace (.initial size events) inputs
    (∃ schedule,
      (queueMachine size).final (.initial size events) schedule=
          (m.final (.initial size events) inputs).run ∧
        (queueMachine size).trace (.initial size events) schedule=
          seen.filterMap queueOperation) ∧
      seen.filterMap returnedEvent=dequeued (seen.filterMap queueOperation) ∧
      ∃ items,Watches (m.final (.initial size events) inputs) items seen := by
  refine Machine.history_invariant (waitingMachine size) (h:=[])
    (P:=fun s seen => (∃ schedule,
      (queueMachine size).final (.initial size events) schedule=s.run ∧
        (queueMachine size).trace (.initial size events) schedule=
          seen.filterMap queueOperation) ∧
      seen.filterMap returnedEvent=dequeued (seen.filterMap queueOperation) ∧
      ∃ items,Watches s items seen) ?_ ?_ inputs
  · rintro s seen input ⟨⟨schedule,hfinal,htrace⟩,hreturned,items,hwatches⟩
    have hstep := waitingMachine_step s input
    obtain ⟨turns,hnext,hshown⟩ := hstep.turns
    refine ⟨⟨schedule++turns,?_,?_⟩,?_,hstep.watches hwatches⟩
    · rw [Machine.final_append,hfinal,hnext]
    · rw [Machine.trace_append,hfinal,htrace,hshown,List.filterMap_append]
    · rw [List.filterMap_append,List.filterMap_append,hreturned,hstep.returns]
      exact List.filterMap_append.symm
  · exact ⟨⟨[],rfl,rfl⟩,rfl,[],⟨stores_initial size,trivial,trivial⟩,
      (absurd · Bool.false_ne_true),preceded_nil _⟩

/-- For every power of two `N`, every interleaving of the accesses, notifications,
deadlines and spurious wakeups: `push` and `pop_wait` do to the queue what they do to it
without a condition variable; every event popped is returned, and nothing is returned
only after the wait has timed out; a consumer that is blocked with an event queued and no
notification to come has missed one since it found the queue empty; and once the deadline
has passed `pop_wait` returns within eleven turns of its own. -/
theorem pop_wait_returns (size : RingSize) (events : List FlowEvent) (inputs : List WaitInput) :
    let m := waitingMachine size
    let s := m.final (.initial size events) inputs
    let seen := m.trace (.initial size events) inputs
    (∃ schedule,(queueMachine size).final (.initial size events) schedule=s.run ∧
        (queueMachine size).trace (.initial size events) schedule=
          seen.filterMap queueOperation) ∧
      seen.filterMap returnedEvent=dequeued (seen.filterMap queueOperation) ∧
      (∀ front back,seen=front++.returned none::back → TimedOut front) ∧
      (s.pc=.blocked → s.notifying=false → empty s.run.queue=false → Missed seen) ∧
      (Due s → ∀ later,11≤later.countP (·==WaitInput.consumer) →
        ∃ answer,.returned answer∈m.trace s later) := by
  obtain ⟨hturns,hreturned,items,hwatches⟩ := @run_watches size events inputs
  refine ⟨hturns,hreturned,fun front back hsplit => ?_,fun hpc hquiet hempty => ?_,
    fun hdue later hlater => ?_⟩
  · exact hwatches.timely front _ back hsplit rfl
  · have hlearned := hwatches.learned
    rw [hpc,hquiet] at hlearned
    have hne : items≠[] := by
      intro hnone
      rw [(size_stores hwatches.represents.stores).1,hnone] at hempty
      cases hempty
    exact (hlearned hne).resolve_left Bool.false_ne_true
  · have hrank : waitRank ((waitingMachine size).final (.initial size events) inputs)≤10 := by
      unfold waitRank
      split
      · exact Nat.le_trans (popRank_le _) (by decide)
      all_goals decide
    obtain ⟨_,hshown,answer,rfl⟩ := wait_ranked.shows hdue (along_always _ _ later) (by omega)
    exact ⟨answer,hshown⟩

end Waits

/-- The notification of the only event comes between the predicate and the blocking,
and the consumer takes the event at its deadline. -/
example :
    (waitingMachine ⟨2,by decide,by decide,by decide⟩).trace (.initial _ [{}])
        (List.replicate 4 .consumer++List.replicate 5 .producer++[.consumer,.deadline]++
          List.replicate 8 .consumer)=
      [.queue (.dequeue none),.falling,.queue (.enqueue {} true),.notified false,.timedOut,
        .queue (.dequeue (some {})),.returned (some {})] := by
  decide

end PacketPipe.EventQueueWaiting

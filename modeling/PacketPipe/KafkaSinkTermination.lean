import PacketPipe.KafkaSinkDelivery
import PacketPipe.RankedMachines

/-!
# How the sink thread comes to its end

The guard of the outer loop looks at the queue only, while an iteration moves
a refused event from the queue to the retry buffer. Once the stop is requested
and nothing more is pushed, every iteration still takes one event from the
queue, and every round of the inner loop takes one event from the retry buffer
or is its last. An iteration therefore has few more turns than the backlog has
events, and no turn makes the backlog larger.
-/

namespace PacketPipe.KafkaSinkTermination

open FlowEvents ConfigParserModel ObservedMachines RankedMachines
open EventQueueModel EventQueueRefinement KafkaSinkModel KafkaSinkDelivery

/-- The input is a turn of the sink thread. -/
def isTurn : SinkInput → Bool
  | .sink _ => true
  | .push _ => false
  | .requestStop => false

/-- The input pushes an event. -/
def isPush : SinkInput → Bool
  | .push _ => true
  | .requestStop => false
  | .sink _ => false

/-- Iterations of the outer loop that begin. -/
def iterations : SinkObservation → ℕ
  | .iteration => 1
  | _ => 0

/-- Iterations of the outer loop that are to come after the one in progress, which
has yet to take its own event while it is at the retry buffer or at a pop. -/
def iterationsAhead (s : SinkThread) : ℕ :=
  match s.pc with
  | .loopHead => queueSize s.queue
  | .retrying => queueSize s.queue-1
  | .firstPop => queueSize s.queue-1
  | .secondPop => queueSize s.queue-1
  | .attempting _ => queueSize s.queue
  | .polling => queueSize s.queue
  | .left => 0

/-- Turns that the iteration in progress has at most. -/
def turnsInIteration (s : SinkThread) : ℕ :=
  match s.pc with
  | .loopHead => 0
  | .retrying => s.retryBuf.length+5
  | .firstPop => 4
  | .secondPop => 3
  | .attempting _ => 2
  | .polling => 1
  | .left => 0

/-- Events in the backlog. -/
def backlogSize (s : SinkThread) : ℕ :=
  s.retryBuf.length+((inHand s.pc).length+queueSize s.queue)

/-- Turns before the one that leaves the outer loop, at most. -/
def turnsAhead (s : SinkThread) : ℕ := iterationsAhead s*(backlogSize s+6)+turnsInIteration s

/-- No iteration is to come once the queue is empty. -/
theorem iterationsAhead_empty {s : SinkThread} (hempty : queueSize s.queue=0) :
    iterationsAhead s=0 := by
  unfold iterationsAhead
  cases s.pc <;> simp only [hempty]

/-- At most as many iterations are to come as events are queued. -/
theorem iterationsAhead_le (s : SinkThread) : iterationsAhead s≤queueSize s.queue := by
  unfold iterationsAhead
  cases s.pc <;> simp

/-- One turn in the middle of an iteration. -/
structure WithinIteration (s s' : SinkThread) : Prop where
  /-- As many iterations are to come. -/
  iterations : iterationsAhead s'=iterationsAhead s
  /-- The backlog is not larger. -/
  backlog : backlogSize s'≤backlogSize s
  /-- The iteration is nearer to its end. -/
  turns : turnsInIteration s'<turnsInIteration s

/-- A turn in the middle of an iteration is one of the turns ahead. -/
theorem WithinIteration.turnsAhead {s s' : SinkThread} (h : WithinIteration s s') :
    turnsAhead s'+1≤turnsAhead s := by
  have hrest : iterationsAhead s*(backlogSize s'+6)≤ iterationsAhead s*(backlogSize s+6) :=
    Nat.mul_le_mul_left _ (Nat.add_le_add_right h.backlog 6)
  have hturns := h.turns
  unfold KafkaSinkTermination.turnsAhead
  rw [h.iterations]
  omega

/-- Entering the next iteration is one of the turns ahead, since its inner loop
finds no more events than the backlog has. -/
theorem turnsAhead_enter {s : SinkThread} (hhead : s.pc=.loopHead) (hqueue : queueSize s.queue≠0) :
    turnsAhead {s with pc := .retrying}+1≤turnsAhead s := by
  obtain ⟨pc,queue,retryBuf,stopRequested,metrics⟩ := s
  cases hhead
  obtain ⟨more,hmore⟩ := Nat.exists_eq_succ_of_ne_zero hqueue
  simp only [turnsAhead,iterationsAhead,turnsInIteration,backlogSize,inHand,
    List.length_nil] at hmore ⊢
  rw [hmore,Nat.succ_mul,Nat.succ_sub_one]
  omega

/-- Everything one turn can do once the stop is requested. -/
inductive Turn : SinkThread → SinkThread → List SinkObservation → Prop
  /-- The outer loop has been left already. -/
  | gone (s : SinkThread) (hleft : s.pc=.left) : Turn s s []
  /-- The queue is empty and the outer loop is left. -/
  | leaves (s : SinkThread) (hhead : s.pc=.loopHead) (hempty : queueSize s.queue=0) :
    Turn s {s with pc := .left} []
  /-- Events are queued and another iteration begins. -/
  | enters (s : SinkThread) (hhead : s.pc=.loopHead) (hqueue : queueSize s.queue≠0) :
    Turn s {s with pc := .retrying} [.iteration]
  /-- The iteration in progress goes on. -/
  | within {s s' : SinkThread} {seen : List SinkObservation} (hwithin : WithinIteration s s')
    (hinside : s'.pc≠.left) (hstop : s'.stopRequested=true) (hseen : tally iterations seen=0) :
    Turn s s' seen

/-- A round of the inner loop that takes the front of the retry buffer. -/
theorem withinIteration_round {s : SinkThread} (hpc : s.pc=.retrying) {evt : FlowEvent}
    {rest : List FlowEvent} (hbuf : s.retryBuf=evt::rest) (metrics : Metrics) :
    WithinIteration s {s with retryBuf := rest,metrics := metrics} := by
  refine ⟨rfl,?_,?_⟩
  · simp only [backlogSize,hbuf,List.length_cons]
    omega
  · simp only [turnsInIteration,hpc,hbuf,List.length_cons]
    omega

/-- The last round of the inner loop. -/
theorem withinIteration_lastRound {s : SinkThread} (hpc : s.pc=.retrying) (metrics : Metrics) :
    WithinIteration s {s with pc := .firstPop,metrics := metrics} := by
  refine ⟨?_,?_,?_⟩
  · simp only [iterationsAhead,hpc]
  · simp only [backlogSize,hpc,inHand,le_refl]
  · simp only [turnsInIteration,hpc]
    omega

/-- A pop that finds the queue empty. -/
theorem withinIteration_missed {s : SinkThread} {next : SinkPc}
    (hpc : s.pc=.firstPop ∧ next=.secondPop ∨ s.pc=.secondPop ∧ next=.polling)
    (hpop : (pop s.queue).1=none) :
    WithinIteration s {s with pc := next,queue := (pop s.queue).2} := by
  obtain ⟨hnone,hsize⟩ := pop_size s.queue
  have hempty := hnone.mp hpop
  have hrest : queueSize (pop s.queue).2=0 := by rw [hsize,hempty]
  refine ⟨?_,?_,?_⟩
  · rw [iterationsAhead_empty hempty]
    exact iterationsAhead_empty hrest
  · rcases hpc with ⟨hpc,rfl⟩ | ⟨hpc,rfl⟩ <;>
      simp only [backlogSize,hpc,inHand,hrest,hempty,le_refl]
  · rcases hpc with ⟨hpc,rfl⟩ | ⟨hpc,rfl⟩ <;> simp only [turnsInIteration,hpc] <;> decide

/-- A pop that takes an event in hand. -/
theorem withinIteration_popped {s : SinkThread} (hpc : s.pc=.firstPop ∨ s.pc=.secondPop)
    {evt : FlowEvent} (hpop : (pop s.queue).1=some evt) :
    WithinIteration s {s with pc := .attempting evt,queue := (pop s.queue).2} := by
  obtain ⟨hnone,hsize⟩ := pop_size s.queue
  have hqueue : queueSize s.queue≠0 := by
    rw [Ne,←hnone,hpop]
    exact Option.some_ne_none evt
  refine ⟨?_,?_,?_⟩
  · rcases hpc with hpc | hpc <;> simp only [iterationsAhead,hpc,hsize]
  · rcases hpc with hpc | hpc <;>
      simp only [backlogSize,hpc,inHand,hsize,List.length_singleton,List.length_nil] <;> omega
  · rcases hpc with hpc | hpc <;> simp only [turnsInIteration,hpc] <;> decide

/-- An attempt, which moves its event to the retry buffer at most. -/
theorem withinIteration_attempted {s : SinkThread} {evt : FlowEvent} (hpc : s.pc=.attempting evt)
    {retryBuf : List FlowEvent} (hbuf : retryBuf.length≤ s.retryBuf.length+1) (metrics : Metrics) :
    WithinIteration s {s with pc := .polling,retryBuf := retryBuf,metrics := metrics} := by
  refine ⟨?_,?_,?_⟩
  · simp only [iterationsAhead,hpc]
  · simp only [backlogSize,hpc,inHand,List.length_nil,List.length_singleton]
    omega
  · simp only [turnsInIteration,hpc]
    decide

/-- Every step of a thread that was asked to stop is such a turn. -/
theorem SinkStep.turn {ser : Serializer} {cfg : AppConfig} {answer : Answer} {s s' : SinkThread}
    {seen : List SinkObservation} (hstep : SinkStep ser cfg answer s s' seen)
    (hstop : s.stopRequested=true) : Turn s s' seen := by
  cases hstep with
  | entered hpc hguard =>
    rw [hstop,Bool.not_true,Bool.false_or,empty_size,Bool.not_eq_true',
      decide_eq_false_iff_not] at hguard
    exact .enters s hpc hguard
  | leaving hpc hguard =>
    rw [hstop,Bool.not_true,Bool.false_or,empty_size,Bool.not_eq_false',
      decide_eq_true_eq] at hguard
    exact .leaves s hpc hguard
  | drained hpc =>
    exact .within (withinIteration_lastRound hpc _) SinkPc.noConfusion hstop rfl
  | retried hpc evt rest hbuf =>
    exact .within (withinIteration_round hpc hbuf _) (by rw [hpc]; decide) hstop rfl
  | spoiled hpc evt rest hbuf =>
    exact .within (withinIteration_round hpc hbuf _) (by rw [hpc]; decide) hstop rfl
  | stuck hpc =>
    exact .within (withinIteration_lastRound hpc _) SinkPc.noConfusion hstop rfl
  | missed next hpc hpop =>
    have hnext : next≠.left := by rcases hpc with ⟨_,rfl⟩ | ⟨_,rfl⟩ <;> decide
    exact .within (withinIteration_missed hpc hpop) hnext hstop rfl
  | popped hpc evt hpop =>
    exact .within (withinIteration_popped hpc hpop) SinkPc.noConfusion hstop rfl
  | direct evt hpc =>
    exact .within (withinIteration_attempted hpc (Nat.le_succ _) _) SinkPc.noConfusion hstop rfl
  | unserializable evt hpc =>
    exact .within (withinIteration_attempted hpc (Nat.le_succ _) _) SinkPc.noConfusion hstop rfl
  | buffered evt hpc =>
    have hone : (s.retryBuf++[evt]).length≤ s.retryBuf.length+1 := by
      rw [List.length_append,List.length_singleton]
    exact .within (withinIteration_attempted hpc hone _) SinkPc.noConfusion hstop rfl
  | discarded evt hpc =>
    exact .within (withinIteration_attempted hpc (Nat.le_succ _) _) SinkPc.noConfusion hstop rfl
  | polled hpc =>
    refine .within ⟨?_,?_,?_⟩ SinkPc.noConfusion hstop rfl
    · simp only [iterationsAhead,hpc]
    · simp only [backlogSize,hpc,inHand,le_refl]
    · simp only [turnsInIteration,hpc]
      decide
  | gone hpc => exact .gone s hpc

/-- A step in the inner loop ends it or takes the front of the retry buffer. -/
theorem SinkStep.round {ser : Serializer} {cfg : AppConfig} {answer : Answer} {s s' : SinkThread}
    {seen : List SinkObservation} (hstep : SinkStep ser cfg answer s s' seen)
    (hpc : s.pc=.retrying) :
    s'.pc=.firstPop ∨ s'.pc=.retrying ∧ s'.retryBuf.length+1=s.retryBuf.length := by
  cases hstep with
  | drained => exact .inl rfl
  | stuck => exact .inl rfl
  | retried _ evt rest hbuf => exact .inr ⟨hpc,by rw [hbuf,List.length_cons]⟩
  | spoiled _ evt rest hbuf => exact .inr ⟨hpc,by rw [hbuf,List.length_cons]⟩
  | missed next hother => rcases hother with ⟨hother,_⟩ | ⟨hother,_⟩ <;> cases hpc.symm.trans hother
  | popped hother => rcases hother with hother | hother <;> cases hpc.symm.trans hother
  | entered hother | leaving hother | polled hother | gone hother => cases hpc.symm.trans hother
  | direct evt hother | unserializable evt hother | buffered evt hother | discarded evt hother =>
    cases hpc.symm.trans hother

/-- A turn keeps the balance of the iterations that have begun and those that
are to come, and the stop stays requested. -/
theorem Turn.balance {s s' : SinkThread} {seen : List SinkObservation} (hturn : Turn s s' seen)
    (hstop : s.stopRequested=true) :
    s'.stopRequested=true ∧ tally iterations seen+iterationsAhead s'=iterationsAhead s := by
  cases hturn with
  | gone hleft => exact ⟨hstop,Nat.zero_add _⟩
  | leaves hhead hempty =>
    refine ⟨hstop,?_⟩
    rw [iterationsAhead_empty hempty]
    rfl
  | enters hhead hqueue =>
    have hone : tally iterations [.iteration]=1 := rfl
    refine ⟨hstop,?_⟩
    simp only [iterationsAhead,hhead,hone]
    omega
  | within hwithin hinside hkept hseen =>
    refine ⟨hkept,?_⟩
    rw [hseen,Nat.zero_add]
    exact hwithin.iterations

/-- A turn leaves the outer loop or is one of the turns ahead. -/
theorem Turn.lowers {s s' : SinkThread} {seen : List SinkObservation} (hturn : Turn s s' seen)
    (hinside : s.pc≠.left) : s'.pc=.left ∨ s'.pc≠.left ∧ turnsAhead s'+1≤turnsAhead s := by
  cases hturn with
  | gone hleft => exact absurd hleft hinside
  | leaves hhead hempty => exact .inl rfl
  | enters hhead hqueue => exact .inr ⟨SinkPc.noConfusion,turnsAhead_enter hhead hqueue⟩
  | within hwithin hinside' hkept hseen => exact .inr ⟨hinside',hwithin.turnsAhead⟩

section Runs

variable (ser : Serializer) (cfg : AppConfig)

/-- Once the stop is requested, every input that pushes nothing keeps the balance. -/
theorem step_balance {s : SinkThread} (hstop : s.stopRequested=true) {input : SinkInput}
    (hquiet : isPush input=false) :
    ((sinkMachine ser cfg).step s input).1.stopRequested=true ∧
      tally iterations ((sinkMachine ser cfg).step s input).2+
        iterationsAhead ((sinkMachine ser cfg).step s input).1=iterationsAhead s := by
  cases input with
  | push evt => cases hquiet
  | requestStop => exact ⟨rfl,Nat.zero_add _⟩
  | sink answer => exact (SinkStep.turn (sinkStep_step ser cfg answer s) hstop).balance hstop

/-- The iterations of a run and those that are still to come are the ones that
were to come when the stop was requested. -/
theorem run_balance {s : SinkThread} (hstop : s.stopRequested=true) {later : List SinkInput}
    (hquiet : ∀ input∈later,isPush input=false) :
    ((sinkMachine ser cfg).final s later).stopRequested=true ∧
      tally iterations ((sinkMachine ser cfg).trace s later)+
        iterationsAhead ((sinkMachine ser cfg).final s later)=iterationsAhead s := by
  have hstep : ∀ (t : SinkThread) (history : List SinkObservation) (input : SinkInput),
      isPush input=false →
      t.stopRequested=true ∧ tally iterations history+iterationsAhead t=iterationsAhead s →
      ((sinkMachine ser cfg).step t input).1.stopRequested=true ∧
        tally iterations (history++((sinkMachine ser cfg).step t input).2)+
          iterationsAhead ((sinkMachine ser cfg).step t input).1=iterationsAhead s := by
    rintro t history input hinput ⟨hkept,hbalance⟩
    obtain ⟨hnext,hmore⟩ := step_balance ser cfg hkept hinput
    refine ⟨hnext,?_⟩
    rw [tally_append]
    omega
  have hrun := Machine.guarded_invariant (sinkMachine ser cfg) (h:=[]) hstep
    ⟨hstop,Nat.zero_add _⟩ (Machine.along_inputs (sinkMachine ser cfg) s hquiet)
  exact hrun

/-- The thread was asked to stop and has not left its outer loop. -/
def Stopping (s : SinkThread) : Prop := s.stopRequested=true ∧ s.pc≠.left

/-- The turns ahead run out. -/
theorem thread_ranked :
    Ranked (sinkMachine ser cfg) (fun _ input => isPush input=false) isTurn Stopping
      (fun s => s.pc=.left) turnsAhead := by
  rintro s input ⟨hstop,hinside⟩ hquiet
  cases input with
  | push evt => cases hquiet
  | requestStop => exact .inr ⟨⟨rfl,hinside⟩,le_refl _⟩
  | sink answer =>
    have hturn := SinkStep.turn (sinkStep_step ser cfg answer s) hstop
    rcases hturn.lowers hinside with hleft | ⟨hinside',hlower⟩
    · exact .inl hleft
    · exact .inr ⟨⟨(hturn.balance hstop).1,hinside'⟩,hlower⟩

/-- The rounds of an inner loop run out, whatever is pushed meanwhile. -/
theorem innerLoop_ranked :
    Ranked (sinkMachine ser cfg) (fun _ _ => True) isTurn (fun s => s.pc=.retrying)
      (fun s => s.pc=.firstPop) (fun s => s.retryBuf.length) := by
  intro s input hpc _
  cases input with
  | push evt => exact .inr ⟨hpc,le_refl _⟩
  | requestStop => exact .inr ⟨hpc,le_refl _⟩
  | sink answer =>
    rcases SinkStep.round (sinkStep_step ser cfg answer s) hpc with hfirst | ⟨hagain,hless⟩
    · exact .inl hfirst
    · exact .inr ⟨hagain,le_of_eq hless⟩

/-- A thread that has left its outer loop stays outside. -/
theorem step_left {s : SinkThread} (hleft : s.pc=.left) (input : SinkInput) :
    ((sinkMachine ser cfg).step s input).1.pc=.left := by
  cases input with
  | push evt => exact hleft
  | requestStop => exact hleft
  | sink answer =>
    rw [step_sink,sinkStep,hleft]
    exact hleft

end Runs

/-- How a run of the sink thread ends. -/
structure WindsDown (ser : Serializer) (cfg : AppConfig) (s : SinkThread)
    (later : List SinkInput) : Prop where
  /-- At most as many iterations begin as events are queued. -/
  iterations : tally iterations ((sinkMachine ser cfg).trace s later)≤queueSize s.queue
  /-- The turns ahead and one more lead out of the outer loop. -/
  leaves : turnsAhead s<later.countP isTurn → ((sinkMachine ser cfg).final s later).pc=.left
  /-- From any point of an inner loop on, it ends after at most one round more
  than the retry buffer has events. -/
  rounds : ∀ front back,front++back=later →
    ((sinkMachine ser cfg).final s front).pc=.retrying →
    ((sinkMachine ser cfg).final s front).retryBuf.length<back.countP isTurn →
      ∃ during,during<+:back ∧
        during.countP isTurn≤((sinkMachine ser cfg).final s front).retryBuf.length+1 ∧
        (sinkMachine ser cfg).Along (fun t _ => t.pc=.retrying)
          ((sinkMachine ser cfg).final s front) during ∧
        ((sinkMachine ser cfg).final s (front++during)).pc=.firstPop

/-- Wherever the thread is when the stop is requested, whatever is queued and
waiting and whatever serialisation and producer answer from then on, it winds
down when nothing more is pushed. -/
theorem shutdown_terminates (ser : Serializer) (cfg : AppConfig) (s : SinkThread)
    (later : List SinkInput) (hquiet : ∀ input∈later,isPush input=false) :
    WindsDown ser cfg ((sinkMachine ser cfg).step s .requestStop).1 later := by
  have hstop : ((sinkMachine ser cfg).step s .requestStop).1.stopRequested=true := rfl
  generalize ((sinkMachine ser cfg).step s .requestStop).1=asked at hstop ⊢
  constructor
  · have hbalance := (run_balance ser cfg hstop hquiet).2
    have hqueued := iterationsAhead_le asked
    omega
  · intro hturns
    by_cases hinside : asked.pc=.left
    · exact Machine.final_invariant (sinkMachine ser cfg) (P:=fun t => t.pc=.left)
        (fun t input hleft => step_left ser cfg hleft input) hinside later
    · exact (thread_ranked ser cfg).rests (fun t input hleft => step_left ser cfg hleft input)
        ⟨hstop,hinside⟩ (Machine.along_inputs _ asked hquiet) hturns
  · intro front back _ hpc hturns
    obtain ⟨during,hduring,hcount,halong,hfirst⟩ :=
      (innerLoop_ranked ser cfg).reaches hpc (along_always _ _ back) hturns
    refine ⟨during,hduring,hcount,halong,?_⟩
    rw [Machine.final_append]
    exact hfirst

/-- A producer that fails from the first event on: one event waits, another is
queued and a third is in hand when the stop is requested. -/
def failingInputs : List SinkInput :=
  [.push lastStart,.sink {},.sink {},.sink {},.sink {produces := false},.sink {},
    .push lastStart,.push {lastStart with type := .flowEnd},
    .sink {},.sink {produces := false},.sink {}]

/-- The thread winds down although no `produce` call ever succeeds. -/
theorem shutdown_terminates_failing :
    WindsDown blankSerializer {}
      ((sinkMachine blankSerializer {}).step (sinkAfter blankSerializer {} failingInputs)
        .requestStop).1
      (List.replicate 40 (.sink {produces := false})) :=
  shutdown_terminates blankSerializer {} (sinkAfter blankSerializer {} failingInputs)
    (List.replicate 40 (.sink {produces := false}))
    (fun _ hinput => by rw [List.eq_of_mem_replicate hinput]; rfl)

end PacketPipe.KafkaSinkTermination

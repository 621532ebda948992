import PacketPipe.PipelineRuns

/-!
# What the threads do together

The calls of the main thread and of the timer thread are interleaved in the
order of the lock, each thread's own in their order, and the whole program does
what the table does with that one sequence of calls. Of its queue the program
makes a FIFO queue with one producer, and of its sink thread a run of the sink
machine, whatever the schedule is.
-/

namespace PacketPipe.PipelineOrder

open FlowEvents ConfigParserModel ObservedMachines BoundedFifos LockedCalls
open FlowTableModel FlowTableCallbacks EventQueueModel EventQueueRefinement
open KafkaSinkModel KafkaSinkDelivery CaptureSourceModel
open PipelineModel PipelineCalls PipelineSimulation PipelineRuns

/-- The call that a thread has finished, with the thread. -/
def finishedBy : Seen Worker Call PipelineObservation → Option (Worker×Call)
  | .asked _ _ => none
  | .entered _ _ => none
  | .did _ => none
  | .left worker call => some (worker,call)

/-- The finished calls with their threads, in the order of the lock. -/
def finishedCalls (trace : List ProgramObservation) : List (Worker×Call) :=
  (lockSeen trace).filterMap finishedBy

/-- The finished calls are those of the threads seen as one. -/
theorem callsOf_eq (trace : List ProgramObservation) :
    callsOf trace=(finishedCalls trace).map Prod.snd := by
  rw [callsOf,finishedCalls,List.filterMap_filterMap,List.map_filterMap]
  refine List.filterMap_congr fun o _ => ?_
  cases o <;> rfl

/-- The finished calls of one thread. -/
theorem leftBy_eq (worker : Worker) (trace : List ProgramObservation) :
    (lockSeen trace).filterMap (leftBy worker)=
      ((finishedCalls trace).filter fun c => c.1=worker).map Prod.snd := by
  rw [finishedCalls]
  induction lockSeen trace with
  | nil => rfl
  | cons o seen ih =>
    cases o with
    | asked other call => exact ih
    | entered other call => exact ih
    | did o => exact ih
    | left other call =>
      by_cases heq : other=worker
      · simp [leftBy,finishedBy,heq,ih]
      · simp [leftBy,finishedBy,heq,ih]

section Asked

variable {ser : Serializer} {cfg : AppConfig}

/-- `main` has come past the drain, without an exception. -/
def pastDrain (p : Program) : Bool := decide (2≤ stage p.main) && !p.failed

/-- The drain, if `main` has come past it. -/
def Drained (past : Bool) (drained : List Call) : Prop :=
  if past=true then ∃ nowUs order,drained=[.drainAll nowUs order] else drained=[]

/-- What the threads have called the table for. -/
structure Asked (p : Program) (trace : List ProgramObservation) : Prop where
  /-- The main thread: the packets in the order of their delivery, and the drain. -/
  main : ∃ drained,(lockSeen trace).filterMap (askedBy .main)=
    (packetsOf trace).map .process++drained ∧ Drained (pastDrain p) drained
  /-- The timer thread: sweeps. -/
  timer : ∀ call∈(lockSeen trace).filterMap (askedBy .timer),
    ∃ nowUs order,call=.timerSweep nowUs order
  /-- An exception ends the capture. -/
  failed : p.failed=true → 2≤ stage p.main

/-- Nothing is delivered and nobody calls. -/
structure Uncalled (seen : List ProgramObservation) : Prop where
  /-- No call. -/
  asked : ∀ worker,(lockSeen seen).filterMap (askedBy worker)=[]
  /-- No packet. -/
  packets : packetsOf seen=[]

/-- An observation of the threads is no delivery. -/
theorem packetsOf_threads (seen : List (Seen Worker Call PipelineObservation)) :
    packetsOf (seen.map .threads)=[] := by
  have hnone : (seen.map ProgramObservation.threads).filterMap frameOf=[] :=
    filterMap_map_none (fun _ => rfl) seen
  rw [packetsOf,hnone,List.filterMap_nil]

theorem lockSeen_threads (seen : List (Seen Worker Call PipelineObservation)) :
    lockSeen (seen.map .threads)=seen := by
  rw [lockSeen,List.filterMap_map]
  exact List.filterMap_some

/-- A step of a call is no call. -/
theorem turn_uncalled (ser : Serializer) (cfg : AppConfig) (worker : Worker) (p : Program) :
    Uncalled (within ser cfg (.turn worker) p).2 := by
  refine ⟨fun other => ?_,packetsOf_threads _⟩
  change (lockSeen ((turn (pipelineCode ser cfg) worker p.threads).2.map _)).filterMap _=[]
  rw [lockSeen_threads]
  exact turn_asked _ worker other p.threads

/-- Nor is a step of the surroundings. -/
theorem other_uncalled (ser : Serializer) (cfg : AppConfig) (e : Surroundings) (p : Program) :
    Uncalled (within ser cfg (.other e) p).2 := by
  refine ⟨fun other => ?_,packetsOf_threads _⟩
  change (lockSeen (((pipelineCode ser cfg).other e p.threads.shared).2.map Seen.did |>.map _)
    ).filterMap _=[]
  rw [lockSeen_threads]
  exact (did_calls _ other _).1

theorem lockSeen_append (front back : List ProgramObservation) :
    lockSeen (front++back)=lockSeen front++lockSeen back := List.filterMap_append

theorem packetsOf_append (front back : List ProgramObservation) :
    packetsOf (front++back)=packetsOf front++packetsOf back := by
  rw [packetsOf,List.filterMap_append,List.filterMap_append]
  rfl

/-- Nothing is seen. -/
theorem uncalled_nil : Uncalled [] := ⟨fun _ => rfl,rfl⟩

/-- Steps without a call keep what was called for. -/
theorem Asked.uncalled {p p' : Program} {trace seen : List ProgramObservation}
    (h : Asked p trace) (hseen : Uncalled seen) (hpast : pastDrain p'=pastDrain p)
    (hfailed : p'.failed=true → 2≤ stage p'.main) : Asked p' (trace++seen) := by
  obtain ⟨drained,hmain,hdrained⟩ := h.main
  refine ⟨⟨drained,?_,?_⟩,?_,hfailed⟩
  · rw [lockSeen_append,List.filterMap_append,hseen.asked,packetsOf_append,hseen.packets,
      List.append_nil,List.append_nil,hmain]
  · rwa [hpast]
  · rw [lockSeen_append,List.filterMap_append,hseen.asked,List.append_nil]
    exact h.timer

/-- Before the drain the main thread has called for packets only. -/
theorem Asked.before {p : Program} {trace : List ProgramObservation} (h : Asked p trace)
    (hpast : pastDrain p=false) :
    (lockSeen trace).filterMap (askedBy .main)=(packetsOf trace).map .process := by
  obtain ⟨drained,hmain,hdrained⟩ := h.main
  rw [Drained,hpast,if_neg Bool.false_ne_true] at hdrained
  rw [hmain,hdrained,List.append_nil]

/-- Every step keeps what the threads call for. -/
theorem asked_step {p p' : Program} {trace seen : List ProgramObservation}
    (hstep : ProgramStep ser cfg p p' seen) (h : Asked p trace) : Asked p' (trace++seen) := by
  obtain ⟨threads,main,timer,timerStop,failed⟩ := p
  cases hstep with
  | stays => exact h.uncalled uncalled_nil rfl h.failed
  | calls worker hbusy => exact h.uncalled (turn_uncalled ser cfg worker _) rfl h.failed
  | delivers frame pkt hpc houtside hdecoded =>
    cases hpc
    have hbefore := h.before rfl
    refine ⟨⟨[],?_,rfl⟩,?_,h.failed⟩
    · rw [lockSeen_append,List.filterMap_append,hbefore,packetsOf_append,List.map_append,
        List.append_nil]
      simp [packetsOf,lockSeen,threadsOf,frameOf,hdecoded,List.filterMap_cons,askedBy]
    · rw [lockSeen_append,List.filterMap_append]
      simpa [lockSeen,threadsOf,List.filterMap_cons,askedBy] using h.timer
  | skips frame hdecoded =>
    obtain ⟨hasked,_⟩ := other_uncalled ser cfg .undecodable
      ⟨threads,main,timer,timerStop,failed⟩
    refine h.uncalled ⟨hasked,?_⟩ rfl h.failed
    have hpackets := packetsOf_threads (((pipelineCode ser cfg).other .undecodable
      threads.shared).2.map Seen.did)
    rw [packetsOf] at hpackets ⊢
    rw [List.filterMap_cons]
    dsimp only [frameOf]
    rw [List.filterMap_cons,hdecoded]
    exact hpackets
  | ends hpc houtside =>
    cases hpc
    exact h.uncalled uncalled_nil rfl fun hfail =>
      absurd (h.failed hfail) (by decide : ¬2≤ stage .capturing)
  | fails hpc houtside =>
    cases hpc
    have hbefore := h.before rfl
    rw [List.append_nil]
    refine ⟨⟨[],?_,rfl⟩,h.timer,fun _ => Nat.le_refl 2⟩
    rw [hbefore,List.append_nil]
  | drains nowUs order hpc houtside =>
    cases hpc
    have hbefore := h.before rfl
    have hfailed : failed=false := by
      rw [Bool.eq_false_iff]
      exact fun hfail => absurd (h.failed hfail) (by decide : ¬2≤ stage .draining)
    subst hfailed
    refine ⟨⟨[.drainAll nowUs order],?_,nowUs,order,rfl⟩,?_,fun _ => Nat.le_refl 2⟩
    · rw [lockSeen_append,List.filterMap_append,hbefore,packetsOf_append]
      simp [packetsOf,lockSeen,threadsOf,frameOf,List.filterMap_cons,askedBy]
    · rw [lockSeen_append,List.filterMap_append]
      simpa [lockSeen,threadsOf,List.filterMap_cons,askedBy] using h.timer
  | stopsTimer hpc houtside =>
    cases hpc
    exact h.uncalled uncalled_nil rfl fun _ => (by decide : 2≤ stage .joiningTimer)
  | joinsTimer hpc houtside hended =>
    cases hpc
    exact h.uncalled uncalled_nil rfl fun _ => (by decide : 2≤ stage .stoppingSink)
  | stopsSink hpc houtside =>
    cases hpc
    exact h.uncalled (other_uncalled ser cfg _ _) rfl fun _ => (by decide : 2≤ stage .joiningSink)
  | joinsSink hpc houtside hleft =>
    cases hpc
    exact h.uncalled uncalled_nil rfl fun _ => (by decide : 2≤ stage .returned)
  | ticks timer houtside hended => exact h.uncalled uncalled_nil rfl h.failed
  | sweeps nowUs order hpc houtside =>
    obtain ⟨drained,hmain,hdrained⟩ := h.main
    refine ⟨⟨drained,?_,hdrained⟩,?_,h.failed⟩
    · rw [lockSeen_append,List.filterMap_append,hmain,packetsOf_append]
      simp [packetsOf,lockSeen,threadsOf,frameOf,List.filterMap_cons,askedBy]
    · rw [lockSeen_append,List.filterMap_append]
      intro call hcall
      rcases List.mem_append.mp hcall with hcall | hcall
      · exact h.timer call hcall
      · simp only [lockSeen,threadsOf,List.filterMap_cons,List.filterMap_nil,askedBy,if_true,
          List.mem_singleton] at hcall
        exact ⟨nowUs,order,hcall⟩
  | sinks answer => exact h.uncalled (other_uncalled ser cfg _ _) rfl h.failed

/-- What the threads call for in every run. -/
theorem run_asked (ser : Serializer) (cfg : AppConfig) (inputs : List ProgramInput) :
    Asked (programAfter ser cfg inputs) (programTrace ser cfg inputs) := by
  have hinitial : Asked Program.initial [] := by
    refine ⟨⟨[],rfl,rfl⟩,fun call hcall => ?_,fun hfail => ?_⟩
    · cases hcall
    · cases hfail
  exact Machine.history_invariant (programMachine ser cfg) (h:=[])
    (fun p trace input h => asked_step (programMachine_step ser cfg p input) h) hinitial inputs

end Asked

section Together

variable (ser : Serializer) (cfg : AppConfig)

/-- For every schedule of the threads: at most one of the two that call the
table is inside a call. The calls of the main thread are the packets delivered,
in their order, and then the drain; those of the timer thread are sweeps. Made
one after the other in the order of the lock, with the answers that the queue
gave, the finished calls show the same and leave the same table, and their
events are what was pushed, in order, up to the call in progress. -/
theorem program_serializes (inputs : List ProgramInput) :
    let p := programAfter ser cfg inputs
    let trace := programTrace ser cfg inputs
    (∀ worker worker' call call' locals locals',
        p.threads.phase worker=.inside call locals →
        p.threads.phase worker'=.inside call' locals' → worker=worker') ∧
      (∃ drained,
        ((finishedCalls trace).filter fun c => c.1=.main).map Prod.snd++
            (p.threads.phase .main).pending=(packetsOf trace).map .process++drained ∧
          Drained (pastDrain p) drained) ∧
      (∀ call∈((finishedCalls trace).filter fun c => c.1=.timer).map Prod.snd++
        (p.threads.phase .timer).pending,∃ nowUs order,call=.timerSweep nowUs order) ∧
      ∃ answers,
        tableTrace cfg answerFrom answers ((finishedCalls trace).map Prod.snd)=
            (seenOf trace).filterMap tableView ∧
          Alike (tableAfter cfg answerFrom answers ((finishedCalls trace).map Prod.snd))
            p.threads.shared.table ∧
          (seenOf trace).filterMap pushView=
            ((seenOf trace).filterMap tableView).filterMap emittedPush++
              inCallPushes cfg p.threads.single := by
  intro p trace
  obtain ⟨hexclusive,hserial,_,_,hinOrder⟩ := run_pipelined ser cfg inputs
  obtain ⟨⟨drained,hmain,hdrained⟩,htimer,_⟩ := run_asked ser cfg inputs
  refine ⟨fun _ _ _ _ _ _ => hexclusive.unique,⟨drained,?_,hdrained⟩,?_,?_⟩
  · rw [←leftBy_eq,hinOrder .main,hmain]
  · rw [←leftBy_eq,hinOrder .timer]
    exact htimer
  · obtain ⟨answers,htable⟩ := hserial.table
    obtain ⟨htrace,halike,_⟩ := htable []
    rw [List.append_nil,callsOf_eq] at htrace halike
    exact ⟨answers,htrace,halike,hserial.pushes⟩

/-- What a history of a FIFO queue tells: items leave in the order in which
they came, refusals come with a full queue, and empty answers with an empty one. -/
theorem fifo_history {capacity : ℕ} {items : List FlowEvent} {ops : List (Operation FlowEvent)}
    (h : Allows (QueueStep capacity) [] ops items) :
    dequeued ops<+:enqueued ops ∧
      (∀ earlier evt later,ops=earlier++.enqueue evt false::later →
        (queued earlier).length=capacity) ∧
      ∀ earlier later,ops=earlier++.dequeue none::later → queued earlier=[] := by
  refine ⟨⟨items,(allows_queued h).1.symm⟩,fun earlier evt later hsplit => ?_,
    fun earlier later hsplit => ?_⟩
  · rw [hsplit] at h
    obtain ⟨before,after,hbefore,hstep⟩ := allows_middle h
    cases hstep with
    | refused _ _ hfull => rwa [(allows_queued hbefore).2]
  · rw [hsplit] at h
    obtain ⟨before,after,hbefore,hstep⟩ := allows_middle h
    cases hstep with
    | empty => exact (allows_queued hbefore).2

/-- For every schedule, although two threads push: the queue does what a FIFO
queue of capacity 65535 does. What the sink pops is a prefix of what was
accepted, in order; a push is refused only with 65535 events queued and a pop
finds nothing only with none; at most one thread is in the middle of a push; and
no slot is read while it is being written. -/
theorem program_queue (inputs : List ProgramInput) :
    let p := programAfter ser cfg inputs
    let ops := (seenOf (programTrace ser cfg inputs)).filterMap queueView
    (∃ items,Allows (QueueStep 65535) [] ops items ∧
        Represents ⟨p.threads.shared.sink.queue,pushing p.threads.single,
          p.threads.shared.popping,[]⟩ items) ∧
      dequeued ops<+:enqueued ops ∧
      (∀ earlier evt later,ops=earlier++.enqueue evt false::later →
        (queued earlier).length=65535) ∧
      (∀ earlier later,ops=earlier++.dequeue none::later → queued earlier=[]) ∧
      (∀ worker worker' call call' locals locals',
        p.threads.phase worker=.inside call locals → inFlight locals.push≠[] →
        p.threads.phase worker'=.inside call' locals' → inFlight locals'.push≠[] →
          worker=worker') ∧
      ∀ worker call locals evt tail nextTail head,p.threads.phase worker=.inside call locals →
        locals.push=.checked evt tail nextTail → p.threads.shared.popping=.checked head →
          tail≠head := by
  intro p ops
  obtain ⟨hexclusive,_,⟨items,_,hallows,hrepresents,_⟩,_⟩ := run_pipelined ser cfg inputs
  obtain ⟨horder,hfull,hempty⟩ := fifo_history hallows
  refine ⟨⟨items,hallows,hrepresents⟩,horder,hfull,hempty,
    fun _ _ _ _ _ _ hinside _ hinside' _ => hexclusive.unique hinside hinside',?_⟩
  intro worker call locals evt tail nextTail head hinside hpush hpop
  have hpushing : pushing p.threads.single=.checked evt tail nextTail := by
    rw [pushing,Locked.single,hexclusive.current hinside]
    exact hpush
  exact hrepresents.no_conflict hpushing hpop

/-- For every schedule, the sink thread, whose pops and guards are interleaved
with the pushes access by access, is seen to do what the sink machine does with
whole pushes and pops: with some inputs the machine shows the same, is at the
same place with the same retry buffer and counters, and stores the same events. -/
theorem program_refines_sink (inputs : List ProgramInput) :
    let s := (programAfter ser cfg inputs).threads.shared
    ∃ sinkInputs items,
      sinkTrace ser cfg sinkInputs=
          (seenOf (programTrace ser cfg inputs)).filterMap sinkView ∧
        (sinkAfter ser cfg sinkInputs).pc=s.sink.pc ∧
        (sinkAfter ser cfg sinkInputs).retryBuf=s.sink.retryBuf ∧
        (sinkAfter ser cfg sinkInputs).stopRequested=s.sink.stopRequested ∧
        (sinkAfter ser cfg sinkInputs).metrics=s.sink.metrics ∧
        Stores (sinkAfter ser cfg sinkInputs).queue items ∧ Stores s.sink.queue items := by
  intro s
  obtain ⟨_,_,⟨items,sinkInputs,_,hrepresents,htrace,q,hstores,hsame⟩,_⟩ :=
    run_pipelined ser cfg inputs
  refine ⟨sinkInputs,items,htrace,?_,?_,?_,?_,?_,hrepresents.stores⟩
  · rw [hsame]
  · rw [hsame]
  · rw [hsame]
  · rw [hsame]
  · rw [hsame]
    exact hstores

end Together

end PacketPipe.PipelineOrder

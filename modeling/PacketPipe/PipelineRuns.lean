import PacketPipe.PipelineSimulation

/-!
# Every run of the program

A step of the program is a step of one thread, of what the threads share or
nothing. The run of the threads that call the table is that of one thread, so
that its calls are serial and the queue has one producer. The main thread calls
the table for the packets delivered and for the drain, the timer thread for its
sweeps, and each thread is stopped before what it uses goes away.
-/

namespace PacketPipe.PipelineRuns

open FlowEvents ConfigParserModel ObservedMachines BoundedFifos LockedCalls
open FlowTableModel FlowTableCallbacks EventQueueModel EventQueueRefinement
open KafkaSinkModel KafkaSinkDelivery CaptureSourceModel
open PipelineModel PipelineCalls PipelineSimulation

/-- The observation of the threads that call the table. -/
def threadsOf : ProgramObservation → Option (Seen Worker Call PipelineObservation)
  | .delivered _ => none
  | .threads o => some o

/-- The frame delivered. -/
def frameOf : ProgramObservation → Option CapturedFrame
  | .delivered frame => some frame
  | .threads _ => none

/-- What is seen of the threads that call the table. -/
def lockSeen (trace : List ProgramObservation) : List (Seen Worker Call PipelineObservation) :=
  trace.filterMap threadsOf

/-- What is seen of the shared parts. -/
def seenOf (trace : List ProgramObservation) : List PipelineObservation :=
  ((lockSeen trace).filterMap anonymous).filterMap shown

/-- The calls that have returned, in the order of the lock. -/
def callsOf (trace : List ProgramObservation) : List Call :=
  ((lockSeen trace).filterMap anonymous).filterMap finishedCall

/-- The packets delivered: the frames that decode. -/
def packetsOf (trace : List ProgramObservation) : List ParsedPacket :=
  (trace.filterMap frameOf).filterMap decoded

theorem seenOf_append (front back : List ProgramObservation) :
    seenOf (front++back)=seenOf front++seenOf back := by
  simp only [seenOf,lockSeen,List.filterMap_append]

/-- A thread outside of calls begins to wait. -/
def asking (worker : Worker) (call : Call) (s : Locked Worker Call InCall Pipeline) :
    Locked Worker Call InCall Pipeline :=
  {s with phase := Function.update s.phase worker (.waiting call)}

/-- Everything one step of the program can do. -/
inductive ProgramStep (ser : Serializer) (cfg : AppConfig) (p : Program) :
    Program → List ProgramObservation → Prop
  /-- A thread waits for a join or has ended. -/
  | stays : ProgramStep ser cfg p p []
  /-- A thread goes on with its call. -/
  | calls (worker : Worker) (hbusy : p.threads.phase worker≠.outside) :
    ProgramStep ser cfg p (within ser cfg (.turn worker) p).1 (within ser cfg (.turn worker) p).2
  /-- A packet is delivered. -/
  | delivers (frame : CapturedFrame) (pkt : ParsedPacket) (hpc : p.main=.capturing)
    (houtside : p.threads.phase .main=.outside) (hdecoded : decoded frame=some pkt) :
    ProgramStep ser cfg p {p with threads := asking .main (.process pkt) p.threads}
      [.delivered frame,.threads (.asked .main (.process pkt))]
  /-- A frame that is no packet is delivered. -/
  | skips (frame : CapturedFrame) (hdecoded : decoded frame=none) :
    ProgramStep ser cfg p (within ser cfg (.other .undecodable) p).1
      (.delivered frame::(within ser cfg (.other .undecodable) p).2)
  /-- `run` returns. -/
  | ends (hpc : p.main=.capturing) (houtside : p.threads.phase .main=.outside) :
    ProgramStep ser cfg p {p with main := .draining} []
  /-- `run` throws. -/
  | fails (hpc : p.main=.capturing) (houtside : p.threads.phase .main=.outside) :
    ProgramStep ser cfg p {p with main := .stoppingTimer,failed := true} []
  /-- The drain is called. -/
  | drains (nowUs : Int64) (order : MapOrder) (hpc : p.main=.draining)
    (houtside : p.threads.phase .main=.outside) :
    ProgramStep ser cfg p
      {p with
        main := .stoppingTimer
        threads := asking .main (.drainAll nowUs order) p.threads}
      [.threads (.asked .main (.drainAll nowUs order))]
  /-- The timer thread is asked to stop. -/
  | stopsTimer (hpc : p.main=.stoppingTimer) (houtside : p.threads.phase .main=.outside) :
    ProgramStep ser cfg p {p with main := .joiningTimer,timerStop := true} []
  /-- The timer thread is joined. -/
  | joinsTimer (hpc : p.main=.joiningTimer) (houtside : p.threads.phase .main=.outside)
    (hended : p.timer=.ended) : ProgramStep ser cfg p {p with main := .stoppingSink} []
  /-- The sink thread is asked to stop. -/
  | stopsSink (hpc : p.main=.stoppingSink) (houtside : p.threads.phase .main=.outside) :
    ProgramStep ser cfg p (within ser cfg (.other .requestStop) {p with main := .joiningSink}).1
      (within ser cfg (.other .requestStop) {p with main := .joiningSink}).2
  /-- The sink thread is joined. -/
  | joinsSink (hpc : p.main=.joiningSink) (houtside : p.threads.phase .main=.outside)
    (hleft : p.threads.shared.sink.pc=.left) : ProgramStep ser cfg p {p with main := .returned} []
  /-- The timer thread goes on outside of its calls. -/
  | ticks (timer : TimerPc) (houtside : p.threads.phase .timer=.outside)
    (hended : p.timer=.ended → timer=.ended) : ProgramStep ser cfg p {p with timer := timer} []
  /-- The timer thread calls a sweep. -/
  | sweeps (nowUs : Int64) (order : MapOrder) (hpc : p.timer=.woken)
    (houtside : p.threads.phase .timer=.outside) :
    ProgramStep ser cfg p
      {p with
        timer := .loopHead
        threads := asking .timer (.timerSweep nowUs order) p.threads}
      [.threads (.asked .timer (.timerSweep nowUs order))]
  /-- The sink thread takes a step. -/
  | sinks (answer : Answer) :
    ProgramStep ser cfg p (within ser cfg (.other (.sink answer)) p).1
      (within ser cfg (.other (.sink answer)) p).2

section Steps

variable (ser : Serializer) (cfg : AppConfig)

/-- Asking for a call outside of calls begins to wait. -/
theorem within_ask {p : Program} {worker : Worker} (houtside : p.threads.phase worker=.outside)
    (call : Call) :
    within ser cfg (.ask worker call) p=
      ({p with threads := asking worker call p.threads},[.threads (.asked worker call)]) := by
  simp only [within,lockedMachine,ask,houtside,asking,List.map_cons,List.map_nil]

/-- The statements of `main`. -/
theorem mainStatement_step (delivery : Delivery) (nowUs : Int64) (order : MapOrder)
    {p : Program} (houtside : p.threads.phase .main=.outside) :
    ProgramStep ser cfg p (mainStatement ser cfg delivery nowUs order p).1
      (mainStatement ser cfg delivery nowUs order p).2 := by
  unfold mainStatement
  cases hpc : p.main with
  | capturing =>
    cases delivery with
    | frame frame =>
      dsimp only
      unfold deliver
      cases hdecoded : decoded frame with
      | some pkt =>
        dsimp only
        rw [within_ask ser cfg houtside]
        exact .delivers frame pkt hpc houtside hdecoded
      | none => exact .skips frame hdecoded
    | finished => exact .ends hpc houtside
    | failed => exact .fails hpc houtside
  | draining =>
    have hask := within_ask ser cfg (p:={p with main := .stoppingTimer}) houtside
      (.drainAll nowUs order)
    dsimp only
    rw [hask]
    exact .drains nowUs order hpc houtside
  | stoppingTimer => exact .stopsTimer hpc houtside
  | joiningTimer =>
    dsimp only
    split
    · next hended => exact .joinsTimer hpc houtside hended
    · exact .stays
  | stoppingSink => exact .stopsSink hpc houtside
  | joiningSink =>
    dsimp only
    split
    · next hleft => exact .joinsSink hpc houtside hleft
    · exact .stays
  | returned => exact .stays

/-- The statements of the timer thread. -/
theorem timerStatement_step (nowUs : Int64) (order : MapOrder) {p : Program}
    (houtside : p.threads.phase .timer=.outside) :
    ProgramStep ser cfg p (timerStatement ser cfg nowUs order p).1
      (timerStatement ser cfg nowUs order p).2 := by
  unfold timerStatement
  cases hpc : p.timer with
  | loopHead => exact .ticks _ houtside fun hended => absurd (hpc.symm.trans hended) (by decide)
  | sleeping => exact .ticks _ houtside fun hended => absurd (hpc.symm.trans hended) (by decide)
  | woken =>
    dsimp only
    split
    · exact .ticks _ houtside fun hended => absurd (hpc.symm.trans hended) (by decide)
    · have hask := within_ask ser cfg (p:={p with timer := .loopHead}) houtside
        (.timerSweep nowUs order)
      rw [hask]
      exact .sweeps nowUs order hpc houtside
  | ended => exact .stays

/-- A turn of a worker is a step of its call or its next statement. -/
theorem workerTurn_step (worker : Worker)
    {statement : Program → Program×List ProgramObservation} {p : Program}
    (hstatement : p.threads.phase worker=.outside →
      ProgramStep ser cfg p (statement p).1 (statement p).2) :
    ProgramStep ser cfg p (workerTurn ser cfg worker statement p).1
      (workerTurn ser cfg worker statement p).2 := by
  unfold workerTurn
  cases hphase : p.threads.phase worker with
  | outside => exact hstatement hphase
  | waiting call => exact .calls worker (by rw [hphase]; intro h; cases h)
  | inside call locals => exact .calls worker (by rw [hphase]; intro h; cases h)

/-- There are no other steps. -/
theorem programMachine_step (p : Program) (input : ProgramInput) :
    ProgramStep ser cfg p ((programMachine ser cfg).step p input).1
      ((programMachine ser cfg).step p input).2 := by
  cases input with
  | main delivery nowUs order =>
    exact workerTurn_step ser cfg .main (mainStatement_step ser cfg delivery nowUs order)
  | timer nowUs order =>
    exact workerTurn_step ser cfg .timer (timerStatement_step ser cfg nowUs order)
  | sink answer => exact .sinks answer

end Steps

section Projection

variable {ser : Serializer} {cfg : AppConfig}

/-- A step inside is one of the threads that call the table. -/
theorem within_threads (ser : Serializer) (cfg : AppConfig)
    (input : LockInput Worker Call Surroundings) (p : Program) :
    (lockedMachine (pipelineCode ser cfg)).final p.threads [input]=
        (within ser cfg input p).1.threads ∧
      (lockedMachine (pipelineCode ser cfg)).trace p.threads [input]=
        lockSeen (within ser cfg input p).2 := by
  refine ⟨rfl,?_⟩
  rw [Machine.trace_cons,Machine.trace_nil,List.append_nil,lockSeen,within,List.filterMap_map]
  exact List.filterMap_some.symm

/-- Every step of the program is a step of the threads that call the table, or
none. -/
theorem ProgramStep.threads {p p' : Program} {seen : List ProgramObservation}
    (hstep : ProgramStep ser cfg p p' seen) :
    ∃ inputs,(lockedMachine (pipelineCode ser cfg)).final p.threads inputs=p'.threads ∧
      (lockedMachine (pipelineCode ser cfg)).trace p.threads inputs=lockSeen seen := by
  have hask : ∀ worker call,p.threads.phase worker=.outside →
      (lockedMachine (pipelineCode ser cfg)).final p.threads [.ask worker call]=
          asking worker call p.threads ∧
        (lockedMachine (pipelineCode ser cfg)).trace p.threads [.ask worker call]=
          [.asked worker call] := by
    intro worker call houtside
    have hwithin := within_threads ser cfg (.ask worker call) p
    rw [within_ask ser cfg houtside] at hwithin
    exact hwithin
  cases hstep with
  | stays => exact ⟨[],rfl,rfl⟩
  | calls worker => exact ⟨[.turn worker],within_threads ser cfg _ p⟩
  | delivers frame pkt hpc houtside => exact ⟨_,hask .main (.process pkt) houtside⟩
  | skips frame => exact ⟨[.other .undecodable],within_threads ser cfg _ p⟩
  | ends => exact ⟨[],rfl,rfl⟩
  | fails => exact ⟨[],rfl,rfl⟩
  | drains nowUs order hpc houtside => exact ⟨_,hask .main (.drainAll nowUs order) houtside⟩
  | stopsTimer => exact ⟨[],rfl,rfl⟩
  | joinsTimer => exact ⟨[],rfl,rfl⟩
  | stopsSink => exact ⟨[.other .requestStop],within_threads ser cfg _ _⟩
  | joinsSink => exact ⟨[],rfl,rfl⟩
  | ticks => exact ⟨[],rfl,rfl⟩
  | sweeps nowUs order hpc houtside => exact ⟨_,hask .timer (.timerSweep nowUs order) houtside⟩
  | sinks answer => exact ⟨[.other (.sink answer)],within_threads ser cfg _ p⟩

variable (ser cfg)

/-- Every run of the program is one of the threads that call the table. -/
theorem run_threads (inputs : List ProgramInput) :
    ∃ lockInputs,
      (lockedMachine (pipelineCode ser cfg)).final Program.initial.threads lockInputs=
          (programAfter ser cfg inputs).threads ∧
        (lockedMachine (pipelineCode ser cfg)).trace Program.initial.threads lockInputs=
          lockSeen (programTrace ser cfg inputs) := by
  refine Machine.history_invariant (programMachine ser cfg) (h:=[]) (P:=fun p trace =>
    ∃ lockInputs,
      (lockedMachine (pipelineCode ser cfg)).final Program.initial.threads lockInputs=p.threads ∧
        (lockedMachine (pipelineCode ser cfg)).trace Program.initial.threads lockInputs=
          lockSeen trace) ?_ ⟨[],rfl,rfl⟩ inputs
  rintro p trace input ⟨lockInputs,hfinal,htrace⟩
  obtain ⟨more,hmore,hseen⟩ := (programMachine_step ser cfg p input).threads
  refine ⟨lockInputs++more,?_,?_⟩
  · rw [Machine.final_append,hfinal,hmore]
  · rw [Machine.trace_append,hfinal,htrace,hseen,lockSeen,lockSeen,lockSeen,
      List.filterMap_append]

/-- Nobody is in a call at first. -/
theorem exclusive_initial : Exclusive Program.initial.threads := by
  constructor
  · intro thread call locals hinside
    cases hinside
  · intro thread hholder
    cases hholder

/-- The program at any time: at most one thread is in a call, the calls are
serial, the queue and the sink do what their machines do, and each thread's
calls are in order. -/
structure Pipelined (p : Program) (trace : List ProgramObservation) : Prop where
  /-- The lock excludes. -/
  exclusive : Exclusive p.threads
  /-- The table. -/
  serial : Serial cfg p.threads.single (callsOf trace) (seenOf trace)
  /-- The queue and the sink. -/
  follows : Follows ser cfg p.threads.shared (pushing p.threads.single) (seenOf trace)
  /-- The sink pops what leaves the queue. -/
  popped : Popped (seenOf trace)
  /-- The order of the calls. -/
  inOrder : ∀ worker,CallsInOrder worker p.threads (lockSeen trace)

/-- So is the program in every run. -/
theorem run_pipelined (inputs : List ProgramInput) :
    Pipelined ser cfg (programAfter ser cfg inputs) (programTrace ser cfg inputs) := by
  obtain ⟨lockInputs,hfinal,htrace⟩ := run_threads ser cfg inputs
  obtain ⟨hexclusive,hsingle,hseen⟩ :=
    locked_single (pipelineCode ser cfg) exclusive_initial lockInputs
  have hserial := run_serial ser cfg ((lockedMachine (pipelineCode ser cfg)).feed singleInputs
    Program.initial.threads lockInputs)
  have hfollows := run_follows ser cfg ((lockedMachine (pipelineCode ser cfg)).feed singleInputs
    Program.initial.threads lockInputs)
  have hpopped := run_popped ser cfg ((lockedMachine (pipelineCode ser cfg)).feed singleInputs
    Program.initial.threads lockInputs)
  have hinitial : Program.initial.threads.single=⟨.initial,none⟩ := rfl
  rw [hinitial] at hsingle hseen
  rw [hsingle,hseen,hfinal,htrace] at hserial hfollows
  rw [hseen,htrace] at hpopped
  rw [hfinal] at hexclusive
  refine ⟨hexclusive,hserial,hfollows,hpopped,fun worker => ?_⟩
  have hinOrder := Machine.history_invariant (lockedMachine (pipelineCode ser cfg)) (h:=[])
    (P:=CallsInOrder worker) (fun s history input h =>
      (lockedMachine_step (pipelineCode ser cfg) s input).inOrder worker h)
    (s:=Program.initial.threads) rfl lockInputs
  rwa [List.nil_append,hfinal,htrace] at hinOrder

end Projection

section Phases

variable {ser : Serializer} {cfg : AppConfig}

/-- How far `main` has come. -/
def stage : MainPc → ℕ
  | .capturing => 0
  | .draining => 1
  | .stoppingTimer => 2
  | .joiningTimer => 3
  | .stoppingSink => 4
  | .joiningSink => 5
  | .returned => 6

/-- Who may still be at work, from how far `main` has come. -/
structure Phases (p : Program) : Prop where
  /-- The timer thread ends outside of its calls. -/
  timer : p.timer=.ended → p.threads.phase .timer=.outside
  /-- The main thread calls the table no more once the timer is asked to stop. -/
  main : 3≤ stage p.main → p.threads.phase .main=.outside
  /-- The timer thread has ended before the sink is asked to stop. -/
  joined : 4≤ stage p.main → p.timer=.ended
  /-- The timer thread is asked to stop before it is joined. -/
  asked : 3≤ stage p.main → p.timerStop=true
  /-- The destructor asks the sink to stop. -/
  stopped : p.threads.shared.sink.stopRequested=true ↔ 5≤ stage p.main
  /-- The sink thread leaves its loop with an empty queue, and only when asked. -/
  left : p.threads.shared.sink.pc=.left →
    p.threads.shared.sink.stopRequested=true ∧ empty p.threads.shared.sink.queue=true
  /-- The sink thread has ended before `main` returns. -/
  returned : 6≤ stage p.main → p.threads.shared.sink.pc=.left

/-- Steps of a call leave the sink thread alone. -/
theorem callStep_sink (cfg : AppConfig) (call : Call) (locals : InCall) (s : Pipeline) :
    (callStep cfg call locals s).1.sink.pc=s.sink.pc ∧
      (callStep cfg call locals s).1.sink.stopRequested=s.sink.stopRequested := by
  have hstep := callStep_step cfg call locals s
  generalize callStep cfg call locals s=stepped at hstep ⊢
  obtain ⟨after,next,later⟩ := stepped
  cases hstep <;> exact ⟨rfl,rfl⟩

/-- The stop token of the sink is not cleared by its thread. -/
theorem sinkTurn_stopRequested (ser : Serializer) (cfg : AppConfig) (answer : Answer)
    (s : Pipeline) :
    (sinkTurn ser cfg answer s).1.sink.stopRequested=s.sink.stopRequested := by
  have hsink : (sinkStep ser cfg answer s.sink).1.stopRequested=s.sink.stopRequested := by
    have hstep := sinkStep_step ser cfg answer s.sink
    generalize sinkStep ser cfg answer s.sink=stepped at hstep ⊢
    obtain ⟨after,seen⟩ := stepped
    cases hstep <;> rfl
  have hpop : ∀ missed,(popAccess missed s).1.sink.stopRequested=s.sink.stopRequested := by
    intro missed
    unfold popAccess
    dsimp only
    split <;> rfl
  unfold sinkTurn
  cases s.sink.pc with
  | loopHead =>
    dsimp only
    split
    · rfl
    · exact hsink
  | firstPop => exact hpop _
  | secondPop => exact hpop _
  | retrying => exact hsink
  | attempting evt => exact hsink
  | polling => exact hsink
  | left => exact hsink

/-- The sink thread is out of its loop only when it was before, or when it has
just found the stop requested and the queue empty. -/
theorem sinkTurn_left (ser : Serializer) (cfg : AppConfig) (answer : Answer) {s : Pipeline}
    (hleft : (sinkTurn ser cfg answer s).1.sink.pc=.left)
    (hbefore : s.sink.pc=.left → s.sink.stopRequested=true ∧ empty s.sink.queue=true) :
    s.sink.stopRequested=true ∧ empty (sinkTurn ser cfg answer s).1.sink.queue=true := by
  have hsink : (sinkStep ser cfg answer s.sink).1.pc=.left → s.sink.stopRequested=true ∧
      empty (sinkStep ser cfg answer s.sink).1.queue=true := by
    intro hpc
    by_cases hinside : s.sink.pc=.left
    · have hsame : sinkStep ser cfg answer s.sink=(s.sink,[]) := by rw [sinkStep,hinside]
      rw [hsame]
      exact hbefore hinside
    · have hstep := sinkStep_step ser cfg answer s.sink
      refine ⟨?_,SinkStep.leaves hstep hinside hpc⟩
      generalize sinkStep ser cfg answer s.sink=stepped at hstep hpc
      obtain ⟨after,seen⟩ := stepped
      cases hstep with
      | leaving _ hguard =>
        have hstop := (Bool.or_eq_false_iff.mp hguard).1
        rwa [Bool.not_eq_false'] at hstop
      | missed next hpc' => rcases hpc' with ⟨_,rfl⟩ | ⟨_,rfl⟩ <;> cases hpc
      | gone => exact absurd hpc hinside
      | retried => exact absurd hpc hinside
      | spoiled => exact absurd hpc hinside
      | _ => cases hpc
  have hpop : ∀ missed,missed≠SinkPc.left → s.sink.pc≠.left →
      (popAccess missed s).1.sink.pc≠.left := by
    intro missed hmissed hinside
    unfold popAccess
    dsimp only
    split
    · exact hinside
    · exact hmissed
    · exact SinkPc.noConfusion
  unfold sinkTurn at hleft ⊢
  cases hpc : s.sink.pc with
  | loopHead =>
    rw [hpc] at hleft
    dsimp only at hleft ⊢
    split at hleft
    · exact absurd (hpc.symm.trans hleft) (by decide)
    · next hguard =>
      rw [if_neg hguard]
      exact hsink hleft
  | firstPop =>
    rw [hpc] at hleft
    exact absurd hleft (hpop _ (by decide) (by rw [hpc]; decide))
  | secondPop =>
    rw [hpc] at hleft
    exact absurd hleft (hpop _ (by decide) (by rw [hpc]; decide))
  | retrying => rw [hpc] at hleft; exact hsink hleft
  | attempting evt => rw [hpc] at hleft; exact hsink hleft
  | polling => rw [hpc] at hleft; exact hsink hleft
  | left => rw [hpc] at hleft; exact hsink hleft

/-- A turn inside a call leaves the sink thread and the other worker alone. -/
theorem within_turn (ser : Serializer) (cfg : AppConfig) (worker : Worker) (p : Program) :
    (within ser cfg (.turn worker) p).1.threads.shared.sink.pc=p.threads.shared.sink.pc ∧
      (within ser cfg (.turn worker) p).1.threads.shared.sink.stopRequested=
        p.threads.shared.sink.stopRequested ∧
      ∀ other,other≠worker →
        (within ser cfg (.turn worker) p).1.threads.phase other=p.threads.phase other := by
  have hturn : (within ser cfg (.turn worker) p).1.threads=
    (turn (pipelineCode ser cfg) worker p.threads).1 := rfl
  rw [hturn]
  refine ⟨?_,?_,fun other hne => turn_phase _ hne _⟩
  · rcases turn_shared (pipelineCode ser cfg) worker p.threads with hsame | ⟨call,locals,_,hcall⟩
    · rw [hsame]
    · rw [hcall]
      exact (callStep_sink cfg call locals p.threads.shared).1
  · rcases turn_shared (pipelineCode ser cfg) worker p.threads with hsame | ⟨call,locals,_,hcall⟩
    · rw [hsame]
    · rw [hcall]
      exact (callStep_sink cfg call locals p.threads.shared).2

/-- While a worker is busy, the sink thread is in its loop. -/
theorem Phases.inside {p : Program} (h : Phases p) {worker : Worker}
    (hbusy : p.threads.phase worker≠.outside) : p.threads.shared.sink.pc≠.left := by
  intro hleft
  have hstage := h.stopped.mp (h.left hleft).1
  cases worker with
  | main => exact hbusy (h.main (by omega))
  | timer => exact hbusy (h.timer (h.joined (by omega)))

/-- A worker that begins to wait has not come to its end. -/
theorem Phases.ask {p : Program} (h : Phases p) {worker : Worker} (call : Call)
    (hmain : worker=.main → stage p.main < 3) (htimer : worker=.timer → p.timer≠.ended) :
    Phases {p with threads := asking worker call p.threads} := by
  refine ⟨fun hended => ?_,fun hstage => ?_,h.joined,h.asked,h.stopped,h.left,h.returned⟩
  · have hne : Worker.timer≠worker := fun heq => htimer heq.symm hended
    exact (Function.update_of_ne hne _ _).trans (h.timer hended)
  · have hne : Worker.main≠worker := by
      intro heq
      have hless := hmain heq.symm
      dsimp only at hstage
      omega
    exact (Function.update_of_ne hne _ _).trans (h.main hstage)

/-- `main` goes on to a statement before the stop of the timer thread. -/
theorem Phases.goto {p : Program} (h : Phases p) (next : MainPc) (hnext : stage next<3)
    (hnow : stage p.main<3) : Phases {p with main := next} := by
  have hstopped := h.stopped
  refine ⟨h.timer,fun hstage => ?_,fun hstage => ?_,fun hstage => ?_,?_,h.left,fun hstage => ?_⟩
  · exact absurd hstage (by dsimp only; omega)
  · exact absurd hstage (by dsimp only; omega)
  · exact absurd hstage (by dsimp only; omega)
  · rw [hstopped]
    dsimp only
    omega
  · exact absurd hstage (by dsimp only; omega)

/-- Every step keeps the phases. -/
theorem ProgramStep.phases {p p' : Program} {seen : List ProgramObservation}
    (hstep : ProgramStep ser cfg p p' seen) (h : Phases p) : Phases p' := by
  cases hstep with
  | stays => exact h
  | calls worker hbusy =>
    obtain ⟨hpc,hstop,hothers⟩ := within_turn ser cfg worker p
    have hinside := h.inside hbusy
    refine ⟨fun hended => ?_,fun hstage => ?_,h.joined,h.asked,?_,fun hleft => ?_,
      fun hstage => ?_⟩
    · have htimer := h.timer hended
      rw [hothers .timer (by rintro rfl; exact hbusy htimer)]
      exact htimer
    · have hmain := h.main hstage
      rw [hothers .main (by rintro rfl; exact hbusy hmain)]
      exact hmain
    · rw [hstop]
      exact h.stopped
    · rw [hpc] at hleft
      exact absurd hleft hinside
    · exact absurd (h.returned hstage) hinside
  | delivers frame pkt hpc houtside hdecoded =>
    exact h.ask _ (fun _ => by rw [hpc]; decide) (fun heq => by cases heq)
  | skips frame hdecoded =>
    exact ⟨h.timer,h.main,h.joined,h.asked,h.stopped,h.left,h.returned⟩
  | ends hpc houtside => exact h.goto .draining (by decide) (by rw [hpc]; decide)
  | fails hpc houtside =>
    have hgoto := h.goto .stoppingTimer (by decide) (by rw [hpc]; decide)
    exact ⟨hgoto.timer,hgoto.main,hgoto.joined,hgoto.asked,hgoto.stopped,hgoto.left,
      hgoto.returned⟩
  | drains nowUs order hpc houtside =>
    have hgoto := h.goto .stoppingTimer (by decide) (by rw [hpc]; decide)
    exact hgoto.ask _ (fun _ => (by decide : stage .stoppingTimer<3)) (fun heq => by cases heq)
  | stopsTimer hpc houtside =>
    have hstopped := h.stopped
    rw [hpc] at hstopped
    refine ⟨h.timer,fun _ => houtside,fun hstage => ?_,fun _ => rfl,
      hstopped.trans (by decide : 5≤ stage .stoppingTimer ↔ 5≤ stage .joiningTimer),h.left,
      fun hstage => ?_⟩
    · exact absurd hstage (by decide : ¬4≤ stage .joiningTimer)
    · exact absurd hstage (by decide : ¬6≤ stage .joiningTimer)
  | joinsTimer hpc houtside hended =>
    have hstopped := h.stopped
    have hasked := h.asked (by rw [hpc]; decide)
    rw [hpc] at hstopped
    exact ⟨h.timer,fun _ => houtside,fun _ => hended,fun _ => hasked,
      hstopped.trans (by decide : 5≤ stage .joiningTimer ↔ 5≤ stage .stoppingSink),h.left,
      fun hstage => absurd hstage (by decide : ¬6≤ stage .stoppingSink)⟩
  | stopsSink hpc houtside =>
    have hended := h.joined (by rw [hpc]; decide)
    have hasked := h.asked (by rw [hpc]; decide)
    refine ⟨h.timer,fun _ => houtside,fun _ => hended,fun _ => hasked,
      ⟨fun _ => Nat.le_refl _,fun _ => rfl⟩,fun hleft => ?_,
      fun hstage => absurd hstage (by decide : ¬6≤ stage .joiningSink)⟩
    have hstop := h.stopped.mp (h.left hleft).1
    rw [hpc] at hstop
    exact absurd hstop (by decide)
  | joinsSink hpc houtside hleft =>
    have hended := h.joined (by rw [hpc]; decide)
    have hasked := h.asked (by rw [hpc]; decide)
    have hstopped := h.stopped
    rw [hpc] at hstopped
    exact ⟨h.timer,fun _ => houtside,fun _ => hended,fun _ => hasked,
      hstopped.trans (by decide : 5≤ stage .joiningSink ↔ 5≤ stage .returned),h.left,fun _ => hleft⟩
  | ticks timer houtside hended =>
    exact ⟨fun _ => houtside,h.main,fun hstage => hended (h.joined hstage),h.asked,h.stopped,
      h.left,h.returned⟩
  | sweeps nowUs order hpc houtside =>
    have hrunning : ¬4≤ stage p.main := fun hstage =>
      absurd (hpc.symm.trans (h.joined hstage)) (by decide)
    have hlooping : Phases {p with timer := .loopHead} :=
      ⟨fun heq => (by cases heq),h.main,fun hstage => absurd hstage hrunning,h.asked,h.stopped,
        h.left,h.returned⟩
    exact hlooping.ask _ (fun heq => by cases heq) (fun _ => TimerPc.noConfusion)
  | sinks answer =>
    have hstop := sinkTurn_stopRequested ser cfg answer p.threads.shared
    refine ⟨h.timer,h.main,h.joined,h.asked,?_,fun hleft => ?_,fun hstage => ?_⟩
    · exact (iff_of_eq (congrArg (·=true) hstop)).trans h.stopped
    · obtain ⟨hrequested,hempty⟩ := sinkTurn_left ser cfg answer hleft h.left
      exact ⟨hstop.trans hrequested,hempty⟩
    · have hleft := h.returned hstage
      change (sinkTurn ser cfg answer p.threads.shared).1.sink.pc=.left
      simp only [sinkTurn,sinkAccess,sinkStep,hleft]

/-- The phases hold in every run. -/
theorem run_phases (ser : Serializer) (cfg : AppConfig) (inputs : List ProgramInput) :
    Phases (programAfter ser cfg inputs) := by
  have hinitial : Phases Program.initial := by
    refine ⟨fun h => ?_,fun _ => rfl,fun h => ?_,fun h => ?_,by decide,fun h => ?_,fun h => ?_⟩
    · cases h
    · exact absurd h (by decide : ¬4≤ stage .capturing)
    · exact absurd h (by decide : ¬3≤ stage .capturing)
    · cases h
    · exact absurd h (by decide : ¬6≤ stage .capturing)
  exact Machine.final_invariant (programMachine ser cfg)
    (fun p input h => (programMachine_step ser cfg p input).phases h) hinitial inputs

end Phases

end PacketPipe.PipelineRuns

import PacketPipe.CaptureSourceModel
import PacketPipe.FlowTableCallbacks
import PacketPipe.KafkaSinkModel
import PacketPipe.LockedCalls

/-!
# The threads of the program

`main` from the start of the capture to its return, with the timer thread, the
sink thread and what they share. The flow table is used under its mutex, the
queue without one: every load and every store of `push` and `pop` is a step of
its own, and so are the lock, the unlock and the flags with which threads are
stopped. A schedule says whose turn it is. The capture thread is the main
thread; both it and the timer thread push events, from inside a call on the
table.
-/

namespace PacketPipe.PipelineModel

open FlowEvents ConfigParserModel ObservedMachines BoundedFifos LockedCalls
open FlowTableModel FlowTableShutdown FlowTableCallbacks EventQueueModel KafkaSinkModel
open CaptureSourceModel

/-- What the threads share. -/
structure Pipeline where
  /-- `table`. -/
  table : FlowTable Unit
  /-- `sink`, with the shared queue. -/
  sink : SinkThread
  /-- Where the sink thread is in `pop`. -/
  popping : Popping kDefaultEventQueueCapacity
  /-- The sink thread has seen the stop requested and is about to call `empty`. -/
  guarding : Bool

/-- Nothing has happened yet. -/
def Pipeline.initial : Pipeline := ⟨.initial (),.initial,.idle,false⟩

/-- The locals of a call on the table. -/
structure InCall where
  /-- What the pushes of the call have returned so far. -/
  answers : List Bool
  /-- Where the thread is in `push`. -/
  push : Pushing kDefaultEventQueueCapacity

/-- What an observer sees of the shared parts. -/
inductive PipelineObservation
  /-- An observation of the table, shown when the call returns. -/
  | table (o : Observation)
  /-- A `push` or a `pop` is answered. -/
  | queue (op : Operation FlowEvent)
  /-- An observation of the sink thread. -/
  | sink (o : SinkObservation)

/-- The answer of a finished push. -/
def pushAnswer : Operation FlowEvent → Option Bool
  | .enqueue _ ok => some ok
  | .dequeue _ => none

/-- The answer of a finished pop. -/
def popAnswer : List (Operation FlowEvent) → Option (Option FlowEvent)
  | .dequeue item::_ => some item
  | .enqueue _ _::_ => none
  | [] => none

section Calls

variable (cfg : AppConfig)

/-- The call on the table, with the answers of its pushes. -/
def called (call : Call) (answers : List Bool) (t : FlowTable Unit) :
    FlowTable (List Bool)×List Observation :=
  (tableMachine cfg answerFrom).step (withSink t answers) call

/-- The event that the call pushes next, after these answers. -/
def nextEvent (call : Call) (answers : List Bool) (t : FlowTable Unit) : Option FlowEvent :=
  (emissions (called cfg call answers t).2)[answers.length]?

/-- One access of the call's `push`, which may be the first one. -/
def pushStep (locals : InCall) (pending : List FlowEvent) (s : Pipeline) :
    Pipeline×Option InCall×List PipelineObservation :=
  let run := producerStep ⟨s.sink.queue,locals.push,s.popping,pending⟩
  ({s with sink := {s.sink with queue := run.1.queue}},
    some ⟨locals.answers++run.2.filterMap pushAnswer,run.1.producer⟩,run.2.map .queue)

/-- One step of a call: an access of a `push`, or the return. Between two
pushes a call works on what the mutex guards; its changes to the table and to the
counters show together at the return. -/
def callStep (call : Call) (locals : InCall) (s : Pipeline) :
    Pipeline×Option InCall×List PipelineObservation :=
  match locals.push with
  | .idle =>
    match nextEvent cfg call locals.answers s.table with
    | some evt => pushStep locals [evt] s
    | none =>
      let done := called cfg call locals.answers s.table
      ({s with table := withSink done.1 ()},none,done.2.map .table)
  | .loadedTail _ _ => pushStep locals [] s
  | .checked _ _ _ => pushStep locals [] s
  | .written _ _ => pushStep locals [] s

end Calls

section Sink

variable (ser : Serializer) (cfg : AppConfig)

/-- One access of a `pop` of `pop_wait`, going on to `missed` when it finds
the queue empty. -/
def popAccess (missed : SinkPc) (s : Pipeline) : Pipeline×List PipelineObservation :=
  let run := consumerStep ⟨s.sink.queue,.idle,s.popping,[]⟩
  let moved := {s with
    sink := {s.sink with queue := run.1.queue}
    popping := run.1.consumer}
  match popAnswer run.2 with
  | none => (moved,[])
  | some none =>
    ({moved with sink := {moved.sink with pc := missed}},[.queue (.dequeue none)])
  | some (some evt) =>
    ({moved with sink := {moved.sink with pc := .attempting evt}},
      [.queue (.dequeue (some evt)),.sink (.popped evt)])

/-- A step of the sink thread that is no access to the queue but for the test
of `empty`. -/
def sinkAccess (answer : Answer) (s : Pipeline) : Pipeline×List PipelineObservation :=
  let stepped := sinkStep ser cfg answer s.sink
  ({s with sink := stepped.1,guarding := false},stepped.2.map .sink)

/-- One step of the sink thread. The guard of the outer loop reads the stop
token and, in a further step, the queue's indices. -/
def sinkTurn (answer : Answer) (s : Pipeline) : Pipeline×List PipelineObservation :=
  match s.sink.pc with
  | .loopHead =>
    if s.sink.stopRequested && !s.guarding then ({s with guarding := true},[])
    else sinkAccess ser cfg answer s
  | .firstPop => popAccess .secondPop s
  | .secondPop => popAccess .polling s
  | .retrying => sinkAccess ser cfg answer s
  | .attempting _ => sinkAccess ser cfg answer s
  | .polling => sinkAccess ser cfg answer s
  | .left => sinkAccess ser cfg answer s

/-- What happens outside of the calls on the table. -/
inductive Surroundings
  /-- The sink thread takes a step. -/
  | sink (answer : Answer)
  /-- The destructor of the sink requests the stop. -/
  | requestStop
  /-- The source counts a frame that is no packet. -/
  | undecodable

/-- The calls on the table under its mutex, and what goes on meanwhile. -/
def pipelineCode : Code Call InCall Surroundings Pipeline PipelineObservation where
  start _ := ⟨[],.idle⟩
  step := callStep cfg
  other
    | .sink answer,s => sinkTurn ser cfg answer s
    | .requestStop,s => ({s with sink := {s.sink with stopRequested := true}},[])
    | .undecodable,s =>
      ({s with table := {s.table with metrics := {s.table.metrics with
        packetsDropped := s.table.metrics.packetsDropped+1}}},[])

end Sink

/-- The threads that call the table. -/
inductive Worker
  | main
  | timer
  deriving DecidableEq

/-- The next statement of `main` once the call it makes has returned. -/
inductive MainPc
  /-- `source->run`, which makes a call for every packet. -/
  | capturing
  /-- `table.drain_all`. -/
  | draining
  /-- `timer_thread.request_stop`, of `main` or of the thread's destructor. -/
  | stoppingTimer
  /-- The join in the destructor of `timer_thread`. -/
  | joiningTimer
  /-- `thread_.request_stop` in the destructor of the sink. -/
  | stoppingSink
  /-- The join in the destructor of the sink's thread. -/
  | joiningSink
  /-- `main` has returned. -/
  | returned
  deriving DecidableEq

/-- The next statement of the timer thread once its call has returned. -/
inductive TimerPc
  /-- The guard of the loop. -/
  | loopHead
  /-- `sleep_for`. -/
  | sleeping
  /-- The second look at the stop token, before the sweep. -/
  | woken
  /-- After the loop. -/
  | ended
  deriving DecidableEq

/-- The program, from the start of the capture on. -/
structure Program where
  /-- The threads that call the table, and what all threads share. -/
  threads : Locked Worker Call InCall Pipeline
  /-- Where the main thread is. -/
  main : MainPc
  /-- Where the timer thread is. -/
  timer : TimerPc
  /-- The stop token of the timer thread. -/
  timerStop : Bool
  /-- `run` has thrown, and `main` leaves its scope with the exception. -/
  failed : Bool

/-- The capture is about to begin; the timer and the sink are running. -/
def Program.initial : Program :=
  ⟨⟨.initial,none,fun _ => .outside⟩,.capturing,.loopHead,false,false⟩

/-- What libpcap has for the source. -/
inductive Delivery
  /-- A frame. -/
  | frame (frame : CapturedFrame)
  /-- The end of the file or a break: `run` returns. -/
  | finished
  /-- `run` throws. -/
  | failed

/-- Whose turn it is, with what the clock, the hash map, libpcap and Kafka
have for the step. -/
inductive ProgramInput
  | main (delivery : Delivery) (nowUs : Int64) (order : MapOrder)
  | timer (nowUs : Int64) (order : MapOrder)
  | sink (answer : Answer)

/-- What an observer sees of the program. -/
inductive ProgramObservation
  /-- libpcap delivers a frame. -/
  | delivered (frame : CapturedFrame)
  /-- A step of the threads and of what they share. -/
  | threads (o : Seen Worker Call PipelineObservation)

section Steps

variable (ser : Serializer) (cfg : AppConfig)

/-- A step of the threads and of what they share. -/
def within (input : LockInput Worker Call Surroundings) (p : Program) :
    Program×List ProgramObservation :=
  let stepped := (lockedMachine (pipelineCode ser cfg)).step p.threads input
  ({p with threads := stepped.1},stepped.2.map .threads)

/-- `pcap_handler` with the callback of `main`. -/
def deliver (frame : CapturedFrame) (p : Program) : Program×List ProgramObservation :=
  let handled := within ser cfg
    (match decoded frame with
      | some pkt => .ask .main (.process pkt)
      | none => .other .undecodable) p
  (handled.1,.delivered frame::handled.2)

/-- The next statement of `main`. -/
def mainStatement (delivery : Delivery) (nowUs : Int64) (order : MapOrder) (p : Program) :
    Program×List ProgramObservation :=
  match p.main with
  | .capturing =>
    match delivery with
    | .frame frame => deliver ser cfg frame p
    | .finished => ({p with main := .draining},[])
    | .failed => ({p with main := .stoppingTimer,failed := true},[])
  | .draining =>
    within ser cfg (.ask .main (.drainAll nowUs order)) {p with main := .stoppingTimer}
  | .stoppingTimer => ({p with main := .joiningTimer,timerStop := true},[])
  | .joiningTimer => if p.timer=.ended then ({p with main := .stoppingSink},[]) else (p,[])
  | .stoppingSink => within ser cfg (.other .requestStop) {p with main := .joiningSink}
  | .joiningSink =>
    if p.threads.shared.sink.pc=.left then ({p with main := .returned},[]) else (p,[])
  | .returned => (p,[])

/-- The next statement of the timer thread. -/
def timerStatement (nowUs : Int64) (order : MapOrder) (p : Program) :
    Program×List ProgramObservation :=
  match p.timer with
  | .loopHead => ({p with timer := if p.timerStop=true then .ended else .sleeping},[])
  | .sleeping => ({p with timer := .woken},[])
  | .woken =>
    if p.timerStop=true then ({p with timer := .loopHead},[])
    else within ser cfg (.ask .timer (.timerSweep nowUs order)) {p with timer := .loopHead}
  | .ended => (p,[])

/-- A thread goes on with its call on the table, or takes its next statement. -/
def workerTurn (worker : Worker) (statement : Program → Program×List ProgramObservation)
    (p : Program) : Program×List ProgramObservation :=
  match p.threads.phase worker with
  | .outside => statement p
  | .waiting _ => within ser cfg (.turn worker) p
  | .inside _ _ => within ser cfg (.turn worker) p

/-- The program under any schedule. -/
def programMachine : Machine Program ProgramInput ProgramObservation where
  step p
    | .main delivery nowUs order =>
      workerTurn ser cfg .main (mainStatement ser cfg delivery nowUs order) p
    | .timer nowUs order => workerTurn ser cfg .timer (timerStatement ser cfg nowUs order) p
    | .sink answer => within ser cfg (.other (.sink answer)) p

/-- The program after the inputs. -/
abbrev programAfter (inputs : List ProgramInput) : Program :=
  (programMachine ser cfg).final .initial inputs

/-- Everything seen during the inputs. -/
abbrev programTrace (inputs : List ProgramInput) : List ProgramObservation :=
  (programMachine ser cfg).trace .initial inputs

end Steps

end PacketPipe.PipelineModel

import PacketPipe.PipelineModel
import PacketPipe.ReleaseAcquire

/-!
# The event queue in release and acquire memory

`push`, `pop`, `empty` and the wait of `pop_wait` with the memory orders they
are written with: loads of `head_` and `tail_` may return old values, and the
slots are plain memory. The threads are those of the program, with what they do
to the queue: main and timer push while they hold the mutex of the flow table,
the sink thread loops on its stop token, and main requests the stop after it
joined the timer thread. A schedule says whose turn it is and what a load
returns.
-/

namespace PacketPipe.EventQueueMemory

open FlowEvents ObservedMachines BoundedFifos EventQueueModel PipelineModel ReleaseAcquire

/-- The atomic variables: two of the queue, and the flag of the stop token. -/
inductive Place
  | tail
  | head
  | stop
  deriving DecidableEq

/-- What an atomic variable holds. -/
abbrev Word (size : RingSize) : Place → Type
  | .tail => Fin size.n
  | .head => Fin size.n
  | .stop => Bool

/-- The threads: two may push and one pops. -/
inductive Thread
  | worker (worker : Worker)
  | sink
  deriving DecidableEq

/-- The memory of the queue: its atomic variables and `buffer_`. -/
abbrev SharedMemory (size : RingSize) := Memory Thread Place (Word size) (Fin size.n) FlowEvent

/-- A queue just constructed, known to all threads. -/
def initialMemory (size : RingSize) : SharedMemory size where
  views _ := (fun _ => 0,fun _ => 0)
  stores
    | .tail => [⟨0,⟨0,size.positive⟩,(fun _ => 0,fun _ => 0)⟩]
    | .head => [⟨0,⟨0,size.positive⟩,(fun _ => 0,fun _ => 0)⟩]
    | .stop => [⟨0,false,(fun _ => 0,fun _ => 0)⟩]
  accesses _ := []
  cells _ := {}
  raced := false

/-- How far the end of `main` has come. -/
inductive Ending
  /-- In the capture loop or in `drain_all`. -/
  | capturing
  /-- The destructor of `timer_thread` has joined it. -/
  | joined
  /-- The destructor of the sink has requested the stop. -/
  | requested
  deriving DecidableEq

/-- Where the sink thread is in its loop. -/
inductive SinkPlace (size : RingSize)
  /-- About to look at the stop token. -/
  | guard
  /-- In `empty`. -/
  | emptying
  /-- `empty` has loaded `head_`. -/
  | emptyingTail (head : Fin size.n)
  /-- In a `pop` of `pop_wait`, which may be the second one. -/
  | popping (again : Bool) (place : Popping size)
  /-- In the predicate of `cv_.wait_for`. -/
  | waiting
  /-- The predicate has loaded `head_`. -/
  | waitingTail (head : Fin size.n)
  /-- The loop is left. -/
  | left

/-- The queue and the threads that use it. -/
structure QueueThreads (size : RingSize) where
  /-- Shared memory. -/
  memory : SharedMemory size
  /-- Who holds the mutex of the flow table. -/
  holder : Option Worker
  /-- What the last unlock of the mutex released. -/
  released : View Thread Place
  /-- Where the holder of the mutex is in `push`. -/
  pushing : Pushing size
  /-- The timer thread has ended. -/
  timerEnded : Bool
  /-- The main thread. -/
  main : Ending
  /-- The sink thread. -/
  sink : SinkPlace size

/-- Nothing has happened yet. -/
def QueueThreads.initial (size : RingSize) : QueueThreads size :=
  ⟨initialMemory size,none,(fun _ => 0,fun _ => 0),.idle,false,.capturing,.guard⟩

/-- What a thread's turn leaves open. -/
structure Choice where
  /-- Which store a load returns. -/
  index : ℕ := 0
  /-- The place of a store in the modification order. -/
  stamp : ℕ := 0
  /-- `cv_.wait_for` has timed out. -/
  timedOut : Bool := false

/-- Whose turn it is, and for what. -/
inductive MemoryTurn
  /-- A worker calls the table and takes its mutex. -/
  | lock (worker : Worker)
  /-- The holder makes one access of `push`; between two calls it pushes `evt`. -/
  | push (worker : Worker) (evt : FlowEvent) (choice : Choice)
  /-- The holder returns from the table. -/
  | unlock (worker : Worker)
  /-- The timer thread returns. -/
  | timerEnds
  /-- Main has waited for the timer thread. -/
  | join
  /-- Main requests the stop of the sink thread. -/
  | requestStop (choice : Choice)
  /-- The sink thread makes one access. -/
  | sink (choice : Choice)

section Steps

variable {size : RingSize}

/-- A load by a thread, of a store that it may read. -/
def QueueThreads.loading (s : QueueThreads size) (t : Thread) (order : LoadOrder) (l : Place)
    (index : ℕ)
    (next : Word size l → QueueThreads size → QueueThreads size×List (Operation FlowEvent)) :
    QueueThreads size×List (Operation FlowEvent) :=
  match s.memory.readable t l index with
  | none => (s,[])
  | some store => next store.value {s with memory := s.memory.load t order l store}

/-- One access of `push`. -/
def pushAccess (worker : Worker) (evt : FlowEvent) (choice : Choice) (s : QueueThreads size) :
    QueueThreads size×List (Operation FlowEvent) :=
  match s.pushing with
  | .idle =>
    s.loading (.worker worker) .relaxed .tail choice.index fun tail s =>
      ({s with pushing := .loadedTail evt tail},[])
  | .loadedTail evt tail =>
    s.loading (.worker worker) .acquire .head choice.index fun head s =>
      if nextIndex tail=head then ({s with pushing := .idle},[.enqueue evt false])
      else ({s with pushing := .checked evt tail (nextIndex tail)},[])
  | .checked evt tail nextTail =>
    ({s with
      memory := s.memory.write (.worker worker) tail evt
      pushing := .written evt nextTail},[])
  | .written evt nextTail =>
    if s.memory.fresh (.worker worker) .tail choice.stamp=true then
      ({s with
        memory := s.memory.store (.worker worker) .tail choice.stamp nextTail
        pushing := .idle},[.enqueue evt true])
    else (s,[])

/-- One access of the sink thread: the guard of its loop, `empty` behind it,
and the two `pop`s of `pop_wait` with the wait between them. -/
def loopAccess (choice : Choice) (s : QueueThreads size) :
    QueueThreads size×List (Operation FlowEvent) :=
  match s.sink with
  | .guard =>
    s.loading .sink .acquire .stop choice.index fun stop s =>
      ({s with sink := if stop=true then .emptying else .popping false .idle},[])
  | .emptying =>
    s.loading .sink .acquire .head choice.index fun head s =>
      ({s with sink := .emptyingTail head},[])
  | .emptyingTail head =>
    s.loading .sink .acquire .tail choice.index fun tail s =>
      ({s with sink := if head=tail then .left else .popping false .idle},[])
  | .popping again .idle =>
    s.loading .sink .relaxed .head choice.index fun head s =>
      ({s with sink := .popping again (.loadedHead head)},[])
  | .popping again (.loadedHead head) =>
    s.loading .sink .acquire .tail choice.index fun tail s =>
      if head=tail then
        ({s with sink := if again=true then .guard else .waiting},[.dequeue none])
      else ({s with sink := .popping again (.checked head)},[])
  | .popping again (.checked head) =>
    ({s with
      memory := s.memory.access .sink head false
      sink := .popping again (.read head (s.memory.cells head))},[])
  | .popping _ (.read head evt) =>
    if s.memory.fresh .sink .head choice.stamp=true then
      ({s with
        memory := s.memory.store .sink .head choice.stamp (nextIndex head)
        sink := .guard},[.dequeue (some evt)])
    else (s,[])
  | .waiting =>
    s.loading .sink .relaxed .head choice.index fun head s =>
      ({s with sink := .waitingTail head},[])
  | .waitingTail head =>
    s.loading .sink .acquire .tail choice.index fun tail s =>
      ({s with
        sink := if head=tail ∧ choice.timedOut=false then .waiting else .popping true .idle},[])
  | .left => (s,[])

/-- Whether the worker still calls the table. -/
def QueueThreads.calls (s : QueueThreads size) : Worker → Bool
  | .main => decide (s.main=.capturing)
  | .timer => !s.timerEnded

/-- One turn. -/
def memoryTurn (s : QueueThreads size) :
    MemoryTurn → QueueThreads size×List (Operation FlowEvent)
  | .lock worker =>
    if s.holder=none ∧ s.calls worker=true then
      ({s with
        memory := s.memory.join (.worker worker) s.released
        holder := some worker},[])
    else (s,[])
  | .push worker evt choice =>
    if s.holder=some worker then pushAccess worker evt choice s else (s,[])
  | .unlock worker =>
    match s.pushing with
    | .idle =>
      if s.holder=some worker then
        ({s with
          holder := none
          released := s.memory.views (.worker worker)},[])
      else (s,[])
    | _ => (s,[])
  | .timerEnds =>
    if s.holder=some .timer then (s,[]) else ({s with timerEnded := true},[])
  | .join =>
    if s.main=.capturing ∧ s.timerEnded=true ∧ s.holder≠some .main then
      ({s with
        memory := s.memory.join (.worker .main) (s.memory.views (.worker .timer))
        main := .joined},[])
    else (s,[])
  | .requestStop choice =>
    if s.main=.joined ∧ s.memory.fresh (.worker .main) .stop choice.stamp=true then
      ({s with
        memory := s.memory.store (.worker .main) .stop choice.stamp true
        main := .requested},[])
    else (s,[])
  | .sink choice => loopAccess choice s

/-- The threads under a schedule; seen are the answers of `push` and `pop`. -/
def memoryMachine (size : RingSize) :
    Machine (QueueThreads size) MemoryTurn (Operation FlowEvent) where
  step := memoryTurn

/-- The state after these turns. -/
def threadsAfter (size : RingSize) (turns : List MemoryTurn) : QueueThreads size :=
  (memoryMachine size).final (.initial size) turns

/-- What these turns show. -/
def answersOf (size : RingSize) (turns : List MemoryTurn) : List (Operation FlowEvent) :=
  (memoryMachine size).trace (.initial size) turns

end Steps

end PacketPipe.EventQueueMemory

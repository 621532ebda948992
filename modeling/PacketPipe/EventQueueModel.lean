import PacketPipe.BoundedFifos
import PacketPipe.FlowEvents

/-!
# The single-producer single-consumer event queue

`EventQueue<N>` twice: its operations as whole calls, and the same calls cut
into their accesses to shared memory. Each load, the slot write, the slot read
and each store of an index is one step, and a schedule says whose turn it is.
The indices carry their bound, and `N` the static assertion of the template.
-/

namespace PacketPipe.EventQueueModel

open FlowEvents ObservedMachines BoundedFifos

/-- A template argument `N` that passes the static assertion. -/
structure RingSize where
  /-- Number of slots. -/
  n : ℕ
  /-- `N > 0`. -/
  positive : 0<n
  /-- `(N & (N - 1)) == 0`. -/
  powerOfTwo : n &&& (n-1)=0
  /-- `N` is a `size_t`. -/
  fits : n<2^64

/-- `kDefaultEventQueueCapacity`. -/
def kDefaultEventQueueCapacity : RingSize := ⟨65536,by decide,by decide,by decide⟩

/-- `(i + 1) & (N - 1)`. -/
def nextIndex {size : RingSize} (i : Fin size.n) : Fin size.n :=
  ⟨(i.val+1)&&&(size.n-1),Nat.lt_of_le_of_lt Nat.and_le_right (Nat.sub_one_lt_of_lt size.positive)⟩

/-- `EventQueue<N>`: the slots and the two indices. -/
structure EventQueue (size : RingSize) where
  /-- `buffer_`. -/
  buffer : Vector FlowEvent size.n
  /-- `head_`, advanced by the consumer. -/
  head : Fin size.n
  /-- `tail_`, advanced by the producer. -/
  tail : Fin size.n

/-- A queue just constructed. -/
def EventQueue.initial (size : RingSize) : EventQueue size :=
  ⟨Vector.replicate size.n {},⟨0,size.positive⟩,⟨0,size.positive⟩⟩

section Calls

variable {size : RingSize}

/-- `buffer_[i]`. -/
def EventQueue.slot (q : EventQueue size) (i : Fin size.n) : FlowEvent := q.buffer[i]

/-- `buffer_[i] = evt`. -/
def EventQueue.store (q : EventQueue size) (i : Fin size.n) (evt : FlowEvent) : EventQueue size :=
  {q with buffer := q.buffer.set i evt}

/-- A slot holds what was written last. -/
@[simp] theorem EventQueue.slot_store (q : EventQueue size) (i : Fin size.n) (evt : FlowEvent) :
    (q.store i evt).slot i=evt := by
  simp only [EventQueue.slot,EventQueue.store,Fin.getElem_fin,Vector.getElem_set_self]

/-- `push`, as one call. -/
def push (evt : FlowEvent) (q : EventQueue size) : Bool×EventQueue size :=
  let nextTail := nextIndex q.tail
  if nextTail=q.head then (false,q)
  else (true,{q.store q.tail evt with tail := nextTail})

/-- `pop`, as one call. -/
def pop (q : EventQueue size) : Option FlowEvent×EventQueue size :=
  if q.head=q.tail then (none,q)
  else (some (q.slot q.head),{q with head := nextIndex q.head})

/-- `empty`. -/
def empty (q : EventQueue size) : Bool := q.head=q.tail

/-- `size`, in 64-bit unsigned arithmetic. -/
def queueSize (q : EventQueue size) : ℕ :=
  ((q.tail.val+2^64-q.head.val)%2^64+size.n)%2^64&&&(size.n-1)

end Calls

/-- Where the producer is in `push`, with the locals it holds. -/
inductive Pushing (size : RingSize)
  /-- Between two calls. -/
  | idle
  /-- `tail_` was loaded. -/
  | loadedTail (evt : FlowEvent) (tail : Fin size.n)
  /-- `head_` was loaded and the queue found not full. -/
  | checked (evt : FlowEvent) (tail nextTail : Fin size.n)
  /-- The slot was written. -/
  | written (evt : FlowEvent) (nextTail : Fin size.n)

/-- Where the consumer is in `pop`, with the locals it holds. -/
inductive Popping (size : RingSize)
  /-- Between two calls. -/
  | idle
  /-- `head_` was loaded. -/
  | loadedHead (head : Fin size.n)
  /-- `tail_` was loaded and the queue found not empty. -/
  | checked (head : Fin size.n)
  /-- The slot was read. -/
  | read (head : Fin size.n) (evt : FlowEvent)

/-- Shared memory, both parties, and the events still to be pushed. -/
structure QueueRun (size : RingSize) where
  /-- Shared memory. -/
  queue : EventQueue size
  /-- The producer. -/
  producer : Pushing size
  /-- The consumer, which starts another `pop` whenever it gets a turn. -/
  consumer : Popping size
  /-- Arguments of the producer's further `push` calls. -/
  pending : List FlowEvent

/-- A new queue, both parties idle, and the events to be pushed. -/
def QueueRun.initial (size : RingSize) (events : List FlowEvent) : QueueRun size :=
  ⟨.initial size,.idle,.idle,events⟩

/-- Whose turn it is. -/
inductive Party
  | producer
  | consumer
  deriving DecidableEq

section Steps

variable {size : RingSize}

/-- One access of `push`. The answer is decided by the load of `head_` when
the queue is full, and is given by the store of `tail_` otherwise. -/
def producerStep (s : QueueRun size) : QueueRun size×List (Operation FlowEvent) :=
  match s.producer with
  | .idle =>
    match s.pending with
    | [] => (s,[])
    | evt::rest => ({s with producer := .loadedTail evt s.queue.tail,pending := rest},[])
  | .loadedTail evt tail =>
    let nextTail := nextIndex tail
    if nextTail=s.queue.head then ({s with producer := .idle},[.enqueue evt false])
    else ({s with producer := .checked evt tail nextTail},[])
  | .checked evt tail nextTail =>
    ({s with
      queue := s.queue.store tail evt
      producer := .written evt nextTail},[])
  | .written evt nextTail =>
    ({s with queue := {s.queue with tail := nextTail},producer := .idle},[.enqueue evt true])

/-- One access of `pop`. The answer is decided by the load of `tail_` when
the queue is empty, and is given by the store of `head_` otherwise. -/
def consumerStep (s : QueueRun size) : QueueRun size×List (Operation FlowEvent) :=
  match s.consumer with
  | .idle => ({s with consumer := .loadedHead s.queue.head},[])
  | .loadedHead head =>
    if head=s.queue.tail then ({s with consumer := .idle},[.dequeue none])
    else ({s with consumer := .checked head},[])
  | .checked head => ({s with consumer := .read head (s.queue.slot head)},[])
  | .read head evt =>
    ({s with queue := {s.queue with head := nextIndex head},consumer := .idle},
      [.dequeue (some evt)])

/-- The queue under a schedule. -/
def queueMachine (size : RingSize) : Machine (QueueRun size) Party (Operation FlowEvent) where
  step s
    | .producer => producerStep s
    | .consumer => consumerStep s

end Steps

end PacketPipe.EventQueueModel

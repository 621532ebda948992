import PacketPipe.EventQueueMemory
import PacketPipe.EventQueueRefinement

/-!
# What the two sides of the event queue know

In release and acquire memory the two sides need not agree on what is in the
queue. The pushing side knows all pushes and some of the pops, the popping side
all pops and some of the pushes, and each has a FIFO queue of its own. A slot is
known by the store that came after its last access.
-/

namespace PacketPipe.EventQueueKnowledge

open FlowEvents ObservedMachines BoundedFifos EventQueueModel EventQueueRefinement
open PipelineModel ReleaseAcquire EventQueueMemory

section Slots

variable {size : RingSize}

/-- The slot of push number `k`, and of pop number `k`. -/
def slotOf (size : RingSize) (k : ℕ) : Fin size.n := advance ⟨0,size.positive⟩ k

/-- The masked increment leads to the slot of the next push. -/
theorem slotOf_next (k : ℕ) : nextIndex (slotOf size k)=slotOf size (k+1) := by
  rw [nextIndex_eq,slotOf,advance_advance,slotOf]

/-- Two pushes less than a ring apart have different slots. -/
theorem slotOf_inj {i j : ℕ} (hle : i≤j) (hlt : j < i+size.n)
    (h : slotOf size i=slotOf size j) : i=j := by
  have hmod : 0+i≡0+j [MOD size.n] := congrArg Fin.val h
  rw [Nat.zero_add,Nat.zero_add] at hmod
  have hdvd := (Nat.modEq_iff_dvd' hle).mp hmod
  have hzero := Nat.eq_zero_of_dvd_of_lt hdvd (by omega)
  omega

/-- The indices that were stored after `count` pushes or pops. -/
def indices (size : RingSize) (count : ℕ) : List (Fin size.n) :=
  (List.range (count+1)).map (slotOf size)

/-- The next index that is stored. -/
theorem indices_next (count : ℕ) :
    indices size (count+1)=indices size count++[slotOf size (count+1)] := by
  rw [indices,indices,List.range_succ,List.map_append,List.map_singleton]

end Slots

section Steps

variable {size : RingSize}

/-- What one turn can do. -/
inductive MemoryStep (s : QueueThreads size) :
    QueueThreads size → List (Operation FlowEvent) → Prop
  /-- The thread has to wait, or has nothing to do. -/
  | stays : MemoryStep s s []
  | locks (worker : Worker) (hfree : s.holder=none) (hcalls : s.calls worker=true) :
    MemoryStep s {s with
      memory := s.memory.join (.worker worker) s.released
      holder := some worker} []
  | loadsTail (worker : Worker) (evt : FlowEvent) (i : ℕ) (store : Store Thread Place (Fin size.n))
    (hholder : s.holder=some worker) (hat : s.pushing=.idle)
    (hread : s.memory.readable (.worker worker) .tail i=some store) :
    MemoryStep s {s with
      memory := s.memory.load (.worker worker) .relaxed .tail store
      pushing := .loadedTail evt store.value} []
  | refuses (worker : Worker) (evt : FlowEvent) (tail : Fin size.n) (i : ℕ)
    (store : Store Thread Place (Fin size.n))
    (hholder : s.holder=some worker) (hat : s.pushing=.loadedTail evt tail)
    (hread : s.memory.readable (.worker worker) .head i=some store)
    (hfull : nextIndex tail=store.value) :
    MemoryStep s {s with
      memory := s.memory.load (.worker worker) .acquire .head store
      pushing := .idle} [.enqueue evt false]
  | checks (worker : Worker) (evt : FlowEvent) (tail : Fin size.n) (i : ℕ)
    (store : Store Thread Place (Fin size.n))
    (hholder : s.holder=some worker) (hat : s.pushing=.loadedTail evt tail)
    (hread : s.memory.readable (.worker worker) .head i=some store)
    (hroom : nextIndex tail≠store.value) :
    MemoryStep s {s with
      memory := s.memory.load (.worker worker) .acquire .head store
      pushing := .checked evt tail (nextIndex tail)} []
  | writes (worker : Worker) (evt : FlowEvent) (tail nextTail : Fin size.n)
    (hholder : s.holder=some worker) (hat : s.pushing=.checked evt tail nextTail) :
    MemoryStep s {s with
      memory := s.memory.write (.worker worker) tail evt
      pushing := .written evt nextTail} []
  | publishes (worker : Worker) (evt : FlowEvent) (nextTail : Fin size.n) (stamp : ℕ)
    (hholder : s.holder=some worker) (hat : s.pushing=.written evt nextTail)
    (hfresh : s.memory.fresh (.worker worker) .tail stamp=true) :
    MemoryStep s {s with
      memory := s.memory.store (.worker worker) .tail stamp nextTail
      pushing := .idle} [.enqueue evt true]
  | unlocks (worker : Worker) (hholder : s.holder=some worker) (hat : s.pushing=.idle) :
    MemoryStep s {s with
      holder := none
      released := s.memory.views (.worker worker)} []
  | timerEnds (hholder : s.holder≠some .timer) : MemoryStep s {s with timerEnded := true} []
  | joins (hmain : s.main=.capturing) (htimer : s.timerEnded=true)
    (hholder : s.holder≠some .main) :
    MemoryStep s {s with
      memory := s.memory.join (.worker .main) (s.memory.views (.worker .timer))
      main := .joined} []
  | requests (stamp : ℕ) (hmain : s.main=.joined)
    (hfresh : s.memory.fresh (.worker .main) .stop stamp=true) :
    MemoryStep s {s with
      memory := s.memory.store (.worker .main) .stop stamp true
      main := .requested} []
  | guards (i : ℕ) (store : Store Thread Place Bool) (hat : s.sink=.guard)
    (hread : s.memory.readable .sink .stop i=some store) :
    MemoryStep s {s with
      memory := s.memory.load .sink .acquire .stop store
      sink := if store.value=true then .emptying else .popping false .idle} []
  | emptyLoads (i : ℕ) (store : Store Thread Place (Fin size.n)) (hat : s.sink=.emptying)
    (hread : s.memory.readable .sink .head i=some store) :
    MemoryStep s {s with
      memory := s.memory.load .sink .acquire .head store
      sink := .emptyingTail store.value} []
  | leaves (i : ℕ) (store : Store Thread Place (Fin size.n))
    (hat : s.sink=.emptyingTail store.value)
    (hread : s.memory.readable .sink .tail i=some store) :
    MemoryStep s {s with
      memory := s.memory.load .sink .acquire .tail store
      sink := .left} []
  | goesOn (head : Fin size.n) (i : ℕ) (store : Store Thread Place (Fin size.n))
    (hat : s.sink=.emptyingTail head)
    (hread : s.memory.readable .sink .tail i=some store) (hne : head≠store.value) :
    MemoryStep s {s with
      memory := s.memory.load .sink .acquire .tail store
      sink := .popping false .idle} []
  | loadsHead (again : Bool) (i : ℕ) (store : Store Thread Place (Fin size.n))
    (hat : s.sink=.popping again .idle)
    (hread : s.memory.readable .sink .head i=some store) :
    MemoryStep s {s with
      memory := s.memory.load .sink .relaxed .head store
      sink := .popping again (.loadedHead store.value)} []
  | misses (again : Bool) (i : ℕ) (store : Store Thread Place (Fin size.n))
    (hat : s.sink=.popping again (.loadedHead store.value))
    (hread : s.memory.readable .sink .tail i=some store) :
    MemoryStep s {s with
      memory := s.memory.load .sink .acquire .tail store
      sink := if again=true then .guard else .waiting} [.dequeue none]
  | finds (again : Bool) (head : Fin size.n) (i : ℕ) (store : Store Thread Place (Fin size.n))
    (hat : s.sink=.popping again (.loadedHead head))
    (hread : s.memory.readable .sink .tail i=some store) (hne : head≠store.value) :
    MemoryStep s {s with
      memory := s.memory.load .sink .acquire .tail store
      sink := .popping again (.checked head)} []
  | reads (again : Bool) (head : Fin size.n) (hat : s.sink=.popping again (.checked head)) :
    MemoryStep s {s with
      memory := s.memory.access .sink head false
      sink := .popping again (.read head (s.memory.cells head))} []
  | releases (again : Bool) (head : Fin size.n) (evt : FlowEvent) (stamp : ℕ)
    (hat : s.sink=.popping again (.read head evt))
    (hfresh : s.memory.fresh .sink .head stamp=true) :
    MemoryStep s {s with
      memory := s.memory.store .sink .head stamp (nextIndex head)
      sink := .guard} [.dequeue (some evt)]
  | waits (i : ℕ) (store : Store Thread Place (Fin size.n)) (hat : s.sink=.waiting)
    (hread : s.memory.readable .sink .head i=some store) :
    MemoryStep s {s with
      memory := s.memory.load .sink .relaxed .head store
      sink := .waitingTail store.value} []
  | wakes (head : Fin size.n) (i : ℕ) (store : Store Thread Place (Fin size.n)) (again : Bool)
    (hat : s.sink=.waitingTail head) (hread : s.memory.readable .sink .tail i=some store) :
    MemoryStep s {s with
      memory := s.memory.load .sink .acquire .tail store
      sink := if again=true then .waiting else .popping true .idle} []

/-- A load finds a store that may be read, or waits for another choice. -/
theorem loading_cases (s : QueueThreads size) (t : Thread) (order : LoadOrder) (l : Place)
    (i : ℕ)
    (next : Word size l → QueueThreads size → QueueThreads size×List (Operation FlowEvent)) :
    s.loading t order l i next=(s,[]) ∨
      ∃ store,s.memory.readable t l i=some store ∧
        s.loading t order l i next=
          next store.value {s with memory := s.memory.load t order l store} := by
  unfold QueueThreads.loading
  cases hread : s.memory.readable t l i with
  | none => exact .inl rfl
  | some store => exact .inr ⟨store,rfl,rfl⟩

/-- The accesses of `push` are steps. -/
theorem pushAccess_step {s : QueueThreads size} {worker : Worker} (hholder : s.holder=some worker)
    (evt : FlowEvent) (choice : Choice) :
    MemoryStep s (pushAccess worker evt choice s).1 (pushAccess worker evt choice s).2 := by
  unfold pushAccess
  split
  next hat =>
    obtain hstay | ⟨store,hread,hnext⟩ := loading_cases s (.worker worker) .relaxed .tail
      choice.index fun tail s => ({s with pushing := .loadedTail evt tail},[])
    · rw [hstay]
      exact .stays
    · rw [hnext]
      exact .loadsTail worker evt _ store hholder hat hread
  next evt tail hat =>
    obtain hstay | ⟨store,hread,hnext⟩ := loading_cases s (.worker worker) .acquire .head
      choice.index fun head s =>
        if nextIndex tail=head then ({s with pushing := .idle},[.enqueue evt false])
        else ({s with pushing := .checked evt tail (nextIndex tail)},[])
    · rw [hstay]
      exact .stays
    · rw [hnext]
      by_cases hfull : nextIndex tail=store.value
      · rw [if_pos hfull]
        exact .refuses worker evt tail _ store hholder hat hread hfull
      · rw [if_neg hfull]
        exact .checks worker evt tail _ store hholder hat hread hfull
  next evt tail nextTail hat => exact .writes worker evt tail nextTail hholder hat
  next evt nextTail hat =>
    by_cases hfresh : s.memory.fresh (.worker worker) .tail choice.stamp=true
    · rw [if_pos hfresh]
      exact .publishes worker evt nextTail _ hholder hat hfresh
    · rw [if_neg hfresh]
      exact .stays

/-- The accesses of the sink thread are steps. -/
theorem loopAccess_step (s : QueueThreads size) (choice : Choice) :
    MemoryStep s (loopAccess choice s).1 (loopAccess choice s).2 := by
  unfold loopAccess
  split
  next hat =>
    obtain hstay | ⟨store,hread,hnext⟩ := loading_cases s .sink .acquire .stop choice.index
      fun stop s => ({s with sink := if stop=true then .emptying else .popping false .idle},[])
    · rw [hstay]
      exact .stays
    · rw [hnext]
      exact .guards _ store hat hread
  next hat =>
    obtain hstay | ⟨store,hread,hnext⟩ := loading_cases s .sink .acquire .head choice.index
      fun head s => ({s with sink := .emptyingTail head},[])
    · rw [hstay]
      exact .stays
    · rw [hnext]
      exact .emptyLoads _ store hat hread
  next head hat =>
    obtain hstay | ⟨store,hread,hnext⟩ := loading_cases s .sink .acquire .tail choice.index
      fun tail s => ({s with sink := if head=tail then .left else .popping false .idle},[])
    · rw [hstay]
      exact .stays
    · rw [hnext]
      by_cases heq : head=store.value
      · subst heq
        dsimp only
        rw [if_pos rfl]
        exact .leaves _ store hat hread
      · dsimp only
        rw [if_neg heq]
        exact .goesOn head _ store hat hread heq
  next again hat =>
    obtain hstay | ⟨store,hread,hnext⟩ := loading_cases s .sink .relaxed .head choice.index
      fun head s => ({s with sink := .popping again (.loadedHead head)},[])
    · rw [hstay]
      exact .stays
    · rw [hnext]
      exact .loadsHead again _ store hat hread
  next again head hat =>
    obtain hstay | ⟨store,hread,hnext⟩ := loading_cases s .sink .acquire .tail choice.index
      fun tail s =>
        if head=tail then
          ({s with sink := if again=true then .guard else .waiting},[.dequeue none])
        else ({s with sink := .popping again (.checked head)},[])
    · rw [hstay]
      exact .stays
    · rw [hnext]
      by_cases heq : head=store.value
      · subst heq
        rw [if_pos rfl]
        exact .misses again _ store hat hread
      · rw [if_neg heq]
        exact .finds again head _ store hat hread heq
  next again head hat => exact .reads again head hat
  next again head evt hat =>
    by_cases hfresh : s.memory.fresh .sink .head choice.stamp=true
    · rw [if_pos hfresh]
      exact .releases again head evt _ hat hfresh
    · rw [if_neg hfresh]
      exact .stays
  next hat =>
    obtain hstay | ⟨store,hread,hnext⟩ := loading_cases s .sink .relaxed .head choice.index
      fun head s => ({s with sink := .waitingTail head},[])
    · rw [hstay]
      exact .stays
    · rw [hnext]
      exact .waits _ store hat hread
  next head hat =>
    obtain hstay | ⟨store,hread,hnext⟩ := loading_cases s .sink .acquire .tail choice.index
      fun tail s =>
        ({s with
          sink := if head=tail ∧ choice.timedOut=false then .waiting else .popping true .idle},[])
    · rw [hstay]
      exact .stays
    · rw [hnext]
      have hwakes := MemoryStep.wakes head _ store
        (decide (head=store.value ∧ choice.timedOut=false)) hat hread
      simp only [decide_eq_true_eq] at hwakes
      exact hwakes
  next => exact .stays

/-- What a turn does is a step. -/
theorem memoryTurn_step (s : QueueThreads size) (turn : MemoryTurn) :
    MemoryStep s (memoryTurn s turn).1 (memoryTurn s turn).2 := by
  cases turn with
  | lock worker =>
    simp only [memoryTurn]
    split
    next h => exact .locks worker h.1 h.2
    next => exact .stays
  | push worker evt choice =>
    simp only [memoryTurn]
    split
    next h => exact pushAccess_step h evt choice
    next => exact .stays
  | unlock worker =>
    simp only [memoryTurn]
    split
    next hat =>
      split
      next h => exact .unlocks worker h hat
      next => exact .stays
    next => exact .stays
  | timerEnds =>
    simp only [memoryTurn]
    split
    next => exact .stays
    next h => exact .timerEnds h
  | join =>
    simp only [memoryTurn]
    split
    next h => exact .joins h.1 h.2.1 h.2.2
    next => exact .stays
  | requestStop choice =>
    simp only [memoryTurn]
    split
    next h => exact .requests _ h.1 h.2
    next => exact .stays
  | sink choice => exact loopAccess_step s choice

end Steps

section Knowledge

variable {size : RingSize}

/-- Who has this view has received store number `i`. -/
def Received (m : SharedMemory size) (l : Place) (view : View Thread Place) (i : ℕ) : Prop :=
  ∃ store,(m.stores l)[i]?=some store ∧ store.view≤view

/-- The memory after these events were pushed and these popped. -/
structure Ring (m : SharedMemory size) (pushed popped : List FlowEvent) : Prop where
  /-- The stores of `tail_` are in one order. -/
  tails : Chain .tail (m.stores .tail)
  /-- So are those of `head_`. -/
  heads : Chain .head (m.stores .head)
  /-- One store of `tail_` for every push. -/
  tailValues : (m.stores .tail).map Store.value=indices size pushed.length
  /-- One store of `head_` for every pop. -/
  headValues : (m.stores .head).map Store.value=indices size popped.length
  /-- What is not popped is in its slot. -/
  contents : ∀ k evt,popped.length≤k → pushed[k]?=some evt → m.cells (slotOf size k)=evt

/-- What the locals of `push` say, after so many pushes and with so many events
in the queue that the pushing side sees. -/
def PushLocals (m : SharedMemory size) (pushed stored : ℕ) : Pushing size → Prop
  | .idle => True
  | .loadedTail _ tail => tail=slotOf size pushed
  | .checked _ tail nextTail =>
    tail=slotOf size pushed ∧ nextTail=slotOf size (pushed+1) ∧ stored< size.n-1
  | .written evt nextTail =>
    nextTail=slotOf size (pushed+1) ∧ stored< size.n-1 ∧ m.cells (slotOf size pushed)=evt

/-- The pushing side, with the knowledge that comes with the mutex: it knows all
pushes, and some of the pops. -/
structure PushSide (m : SharedMemory size) (view : View Thread Place) (pushing : Pushing size)
    (ops : List (Operation FlowEvent)) (seen : ℕ) (items : List FlowEvent) : Prop where
  /-- It has received every store of `tail_`. -/
  informed : Informed view (m.stores .tail)
  /-- It has received this many stores of `head_` after the first. -/
  received : Received m .head view seen
  /-- Its queue, in which the pops that it does not know are still to come. -/
  explains : Explains (size.n-1) (ops.filter Operation.isEnqueue)
    (dequeues ((dequeued ops).take seen)) items
  /-- The push in progress. -/
  locals : PushLocals m (enqueued ops).length items.length pushing

/-- What the locals of the sink thread say, after so many pops and with these
events in the queue that it sees. -/
def PopLocals (popped : ℕ) (items : List FlowEvent) : SinkPlace size → Prop
  | .popping _ (.loadedHead head) => head=slotOf size popped
  | .popping _ (.checked head) => head=slotOf size popped ∧ items≠[]
  | .popping _ (.read head evt) => head=slotOf size popped ∧ items.head?=some evt
  | .emptyingTail head => head=slotOf size popped
  | _ => True

/-- The popping side: it knows all pops, and some of the pushes. -/
structure PopSide (m : SharedMemory size) (view : View Thread Place) (sink : SinkPlace size)
    (ops : List (Operation FlowEvent)) (known : ℕ) (items : List FlowEvent) : Prop where
  /-- It has received every store of `head_`. -/
  informed : Informed view (m.stores .head)
  /-- It has received this many stores of `tail_` after the first. -/
  received : Received m .tail view known
  /-- Its queue, in which the pushes that it does not know are still to come. -/
  explains : Explains (size.n-1) (enqueues ((enqueued ops).take known))
    (ops.filter Operation.isDequeue) items
  /-- The pop in progress. -/
  locals : PopLocals (dequeued ops).length items sink

end Knowledge

section Views

variable {size : RingSize} {m m' : SharedMemory size}

theorem Received.mono {l : Place} {view view' : View Thread Place} {i : ℕ}
    (h : Received m l view i) (hstores : m'.stores l=m.stores l) (hle : view≤view') :
    Received m' l view' i := by
  obtain ⟨store,hstore,hview⟩ := h
  exact ⟨store,hstores ▸ hstore,le_trans hview hle⟩

/-- One store for every push or pop, and the first one. -/
theorem stored_length {ss : List (Store Thread Place (Fin size.n))} {count : ℕ}
    (h : ss.map Store.value=indices size count) : ss.length=count+1 := by
  rw [←List.length_map (f:=Store.value),h,indices,List.length_map,List.length_range]

/-- Store number `i` holds the index of push or pop number `i`. -/
theorem stored_value {ss : List (Store Thread Place (Fin size.n))} {count i : ℕ}
    {store : Store Thread Place (Fin size.n)} (h : ss.map Store.value=indices size count)
    (hstore : ss[i]?=some store) : store.value=slotOf size i ∧ i≤count := by
  have hi := (List.getElem?_eq_some_iff.mp hstore).1
  rw [stored_length h] at hi
  have hvalue : (ss.map Store.value)[i]?=some store.value := by
    rw [List.getElem?_map,hstore,Option.map_some]
  rw [h,indices,List.getElem?_map,List.getElem?_range hi,Option.map_some] at hvalue
  exact ⟨(Option.some.inj hvalue).symm,by omega⟩

theorem Ring.grows {pushed popped : List FlowEvent} (h : Ring m pushed popped)
    (hgrows : Grows m m') : Ring m' pushed popped := by
  obtain ⟨htails,hheads,htailValues,hheadValues,hcontents⟩ := h
  constructor
  · rw [hgrows.stores]
    exact htails
  · rw [hgrows.stores]
    exact hheads
  · rw [hgrows.stores]
    exact htailValues
  · rw [hgrows.stores]
    exact hheadValues
  · rw [hgrows.cells]
    exact hcontents

variable {view view' : View Thread Place} {ops : List (Operation FlowEvent)}

/-- The queue of the pushing side: everything pushed but for the pops it knows. -/
theorem PushSide.conserves {pushing : Pushing size} {seen : ℕ} {items : List FlowEvent}
    (h : PushSide m view pushing ops seen items) :
    enqueued ops=(dequeued ops).take seen++items ∧ items.length≤ size.n-1 := by
  have hconserves := h.explains.conserves
  rw [enqueued_filter,dequeued_dequeues] at hconserves
  exact hconserves

/-- The queue of the popping side: the pushes it knows but for everything popped. -/
theorem PopSide.conserves {sink : SinkPlace size} {known : ℕ} {items : List FlowEvent}
    (h : PopSide m view sink ops known items) :
    (enqueued ops).take known=dequeued ops++items ∧ items.length≤ size.n-1 := by
  have hconserves := h.explains.conserves
  rw [dequeued_filter,enqueued_enqueues] at hconserves
  exact hconserves

/-- What the pushing side knows it keeps. -/
theorem PushSide.mono {pushing : Pushing size} {seen : ℕ} {items : List FlowEvent}
    (h : PushSide m view pushing ops seen items) (hstores : m'.stores=m.stores)
    (hcells : m'.cells=m.cells) (hview : view≤view') :
    PushSide m' view' pushing ops seen items := by
  obtain ⟨hinformed,hreceived,hexplains,hlocals⟩ := h
  refine ⟨?_,hreceived.mono (by rw [hstores]) hview,hexplains,?_⟩
  · rw [hstores]
    exact hinformed.mono hview
  · unfold PushLocals at hlocals ⊢
    rw [hcells]
    exact hlocals

/-- What the popping side knows it keeps. -/
theorem PopSide.mono {sink : SinkPlace size} {known : ℕ} {items : List FlowEvent}
    (h : PopSide m view sink ops known items) (hstores : m'.stores=m.stores)
    (hview : view≤view') : PopSide m' view' sink ops known items := by
  obtain ⟨hinformed,hreceived,hexplains,hlocals⟩ := h
  refine ⟨?_,hreceived.mono (by rw [hstores]) hview,hexplains,hlocals⟩
  rw [hstores]
  exact hinformed.mono hview

/-- A pop that the pushing side does not know of changes nothing for it. -/
theorem PushSide.unaware {pushing : Pushing size} {seen : ℕ} {items : List FlowEvent}
    (h : PushSide m view pushing ops seen items) (hseen : seen≤(dequeued ops).length)
    (item : Option FlowEvent) :
    PushSide m view pushing (ops++[.dequeue item]) seen items := by
  obtain ⟨hinformed,hreceived,hexplains,hlocals⟩ := h
  have hputs : (ops++[Operation.dequeue item]).filter Operation.isEnqueue=
      ops.filter Operation.isEnqueue := by
    rw [List.filter_append]
    exact List.append_nil _
  have htakes : (dequeued (ops++[.dequeue item])).take seen=(dequeued ops).take seen := by
    rw [dequeued,List.filterMap_append,←dequeued,List.take_append_of_le_length hseen]
  have hpushed : enqueued (ops++[.dequeue item])=enqueued ops := by
    rw [enqueued,List.filterMap_append]
    exact List.append_nil _
  refine ⟨hinformed,hreceived,?_,?_⟩
  · rw [hputs,htakes]
    exact hexplains
  · rw [hpushed]
    exact hlocals

/-- A push that the popping side does not know of changes nothing for it. -/
theorem PopSide.unaware {sink : SinkPlace size} {known : ℕ} {items : List FlowEvent}
    (h : PopSide m view sink ops known items) (hknown : known≤(enqueued ops).length)
    (evt : FlowEvent) (ok : Bool) :
    PopSide m view sink (ops++[.enqueue evt ok]) known items := by
  obtain ⟨hinformed,hreceived,hexplains,hlocals⟩ := h
  have htakes : (ops++[Operation.enqueue evt ok]).filter Operation.isDequeue=
      ops.filter Operation.isDequeue := by
    rw [List.filter_append]
    exact List.append_nil _
  have hputs : (enqueued (ops++[.enqueue evt ok])).take known=(enqueued ops).take known := by
    rw [enqueued,List.filterMap_append,←enqueued,List.take_append_of_le_length hknown]
  have hpopped : dequeued (ops++[.enqueue evt ok])=dequeued ops := by
    rw [dequeued,List.filterMap_append]
    exact List.append_nil _
  refine ⟨hinformed,hreceived,?_,?_⟩
  · rw [htakes,hputs]
    exact hexplains
  · rw [hpopped]
    exact hlocals

/-- The pushing side learns of further pops, and makes them in its queue. -/
theorem PushSide.receives {pushing : Pushing size} {seen i : ℕ} {items : List FlowEvent}
    (h : PushSide m view pushing ops seen items) (horder : dequeued ops<+:enqueued ops)
    (hseen : seen ≤ i) (hi : i≤(dequeued ops).length) (hview : view≤view')
    (hreceived : Received m .head view' i) :
    PushSide m view' .idle ops i (items.drop (i-seen)) := by
  refine ⟨h.informed.mono hview,hreceived,?_,trivial⟩
  have hlen : ((dequeued ops).take seen).length=seen := by
    rw [List.length_take]
    omega
  have hpops : (dequeued ops).take i=(dequeued ops).take seen++items.take (i-seen) := by
    calc (dequeued ops).take i=(enqueued ops).take i := by
          obtain ⟨rest,hrest⟩ := horder
          rw [←hrest,List.take_append_of_le_length hi]
      _=((dequeued ops).take seen++items).take i := by rw [←h.conserves.1]
      _=(dequeued ops).take seen++items.take (i-seen) := by
          rw [List.take_append,hlen,List.take_of_length_le (by omega)]
  have htake := h.explains.take (i-seen)
  rw [dequeues,dequeues,←List.map_append,←hpops] at htake
  exact htake

/-- The popping side learns of further pushes, and makes them in its queue. -/
theorem PopSide.receives {sink sink' : SinkPlace size} {known i : ℕ} {items : List FlowEvent}
    (h : PopSide m view sink ops known items)
    (hroom : (enqueued ops).length≤(dequeued ops).length+(size.n-1))
    (hknown : known ≤ i) (hi : i≤(enqueued ops).length) (hview : view≤view')
    (hreceived : Received m .tail view' i)
    (hlocals : PopLocals (dequeued ops).length
      (items++((enqueued ops).drop known).take (i-known)) sink') :
    PopSide m view' sink' ops i (items++((enqueued ops).drop known).take (i-known)) := by
  refine ⟨h.informed.mono hview,hreceived,?_,hlocals⟩
  have hitems := congrArg List.length h.conserves.1
  rw [List.length_take,List.length_append] at hitems
  have hput := h.explains.put (((enqueued ops).drop known).take (i-known)) (by
    rw [List.length_take,List.length_drop]
    omega)
  have htakes : (enqueued ops).take i=
      (enqueued ops).take known++((enqueued ops).drop known).take (i-known) := by
    rw [←List.take_add,Nat.add_sub_cancel' hknown]
  rw [enqueues,enqueues,←List.map_append,←htakes] at hput
  exact hput

end Views

end PacketPipe.EventQueueKnowledge

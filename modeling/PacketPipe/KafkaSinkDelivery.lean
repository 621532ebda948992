import Mathlib.Data.List.Perm.Basic
import PacketPipe.EventQueueRefinement
import PacketPipe.KafkaSinkModel

/-!
# What the sink thread does with the events it takes

The backlog of the sink is what waits in the retry buffer, the event in hand
and what is stored in the queue. Every step of the sink and of its
surroundings is one move of the backlog, and the moves account for every
event. At the end of the outer loop the retry buffer is empty exactly when no
`produce` call failed in the last iteration.
-/

namespace PacketPipe.KafkaSinkDelivery

open FlowEvents ConfigParserModel ObservedMachines EventQueueModel EventQueueRefinement
open KafkaSinkModel

/-- Events accepted by the queue and not yet settled, oldest first. -/
structure Backlog where
  /-- Waiting in `retry_buf_`. -/
  retry : List FlowEvent
  /-- Popped and about to be attempted. -/
  hand : List FlowEvent
  /-- Stored in the queue. -/
  items : List FlowEvent

/-- The event that the thread holds in a local variable. -/
def inHand : SinkPc → List FlowEvent
  | .attempting evt => [evt]
  | .loopHead => []
  | .retrying => []
  | .firstPop => []
  | .secondPop => []
  | .polling => []
  | .left => []

/-- The backlog of a sink whose queue stores the items. -/
def backlog (s : SinkThread) (items : List FlowEvent) : Backlog :=
  ⟨s.retryBuf,inHand s.pc,items⟩

/-- Everything one step can do to the backlog, with what is seen of it. -/
inductive Moves (ser : Serializer) (cfg : AppConfig) :
    Backlog → List SinkObservation → Backlog → Prop
  /-- The queue accepts an event. -/
  | queued (b : Backlog) (evt : FlowEvent) :
    Moves ser cfg b [.queued evt true] ⟨b.retry,b.hand,b.items++[evt]⟩
  /-- The queue is full. -/
  | overflow (b : Backlog) (evt : FlowEvent) : Moves ser cfg b [.queued evt false] b
  /-- A guard, a stop request or a pop of the empty queue. -/
  | idle (b : Backlog) : Moves ser cfg b [] b
  /-- Another round of the outer loop. -/
  | iteration (b : Backlog) : Moves ser cfg b [.iteration] b
  /-- A poll. -/
  | reports (b : Backlog) (failed : ℕ) : Moves ser cfg b [.reports failed] b
  /-- The retry buffer's front is published. -/
  | retried (evt : FlowEvent) (retry items : List FlowEvent) :
    Moves ser cfg ⟨evt::retry,[],items⟩ [.produced .retry evt (messageFor ser evt) true]
      ⟨retry,[],items⟩
  /-- The retry buffer's front cannot be serialised. -/
  | spoiled (evt : FlowEvent) (retry items : List FlowEvent) :
    Moves ser cfg ⟨evt::retry,[],items⟩ [.unserializable .retry evt] ⟨retry,[],items⟩
  /-- The retry buffer's front is refused again and stays. -/
  | stuck (evt : FlowEvent) (retry items : List FlowEvent) :
    Moves ser cfg ⟨evt::retry,[],items⟩ [.produced .retry evt (messageFor ser evt) false]
      ⟨evt::retry,[],items⟩
  /-- The first stored event is popped. -/
  | popped (evt : FlowEvent) (retry items : List FlowEvent) :
    Moves ser cfg ⟨retry,[],evt::items⟩ [.popped evt] ⟨retry,[evt],items⟩
  /-- The popped event is published. -/
  | direct (evt : FlowEvent) (retry items : List FlowEvent) :
    Moves ser cfg ⟨retry,[evt],items⟩ [.produced .direct evt (messageFor ser evt) true]
      ⟨retry,[],items⟩
  /-- The popped event cannot be serialised. -/
  | unserializable (evt : FlowEvent) (retry items : List FlowEvent) :
    Moves ser cfg ⟨retry,[evt],items⟩ [.unserializable .direct evt] ⟨retry,[],items⟩
  /-- The popped event is refused and there is room for it. -/
  | buffered (evt : FlowEvent) (retry items : List FlowEvent)
    (hroom : Int32.ofNat retry.length<cfg.srBufferSize) :
    Moves ser cfg ⟨retry,[evt],items⟩ [.produced .direct evt (messageFor ser evt) false]
      ⟨retry++[evt],[],items⟩
  /-- The popped event is refused and there is no room for it. -/
  | discarded (evt : FlowEvent) (retry items : List FlowEvent)
    (hfull : ¬Int32.ofNat retry.length<cfg.srBufferSize) :
    Moves ser cfg ⟨retry,[evt],items⟩
      [.produced .direct evt (messageFor ser evt) false,.discarded evt] ⟨retry,[],items⟩

section Steps

variable (ser : Serializer) (cfg : AppConfig)

/-- Every step of the sink thread is one move of its backlog. -/
theorem SinkStep.moves {answer : Answer} {s s' : SinkThread} {seen : List SinkObservation}
    (hstep : SinkStep ser cfg answer s s' seen) {items : List FlowEvent}
    (h : Stores s.queue items) :
    ∃ items',Stores s'.queue items' ∧ Moves ser cfg (backlog s items) seen (backlog s' items') := by
  obtain ⟨pc,queue,retryBuf,stopRequested,metrics⟩ := s
  obtain ⟨hfirst,hrest⟩ := pop_stores h
  cases hstep with
  | entered hpc => cases hpc; exact ⟨items,h,.iteration _⟩
  | leaving hpc => cases hpc; exact ⟨items,h,.idle _⟩
  | drained hpc => cases hpc; exact ⟨items,h,.idle _⟩
  | retried hpc evt rest hbuf => cases hpc; cases hbuf; exact ⟨items,h,.retried evt rest items⟩
  | spoiled hpc evt rest hbuf => cases hpc; cases hbuf; exact ⟨items,h,.spoiled evt rest items⟩
  | stuck hpc evt rest hbuf => cases hpc; cases hbuf; exact ⟨items,h,.stuck evt rest items⟩
  | missed next hpc hpop =>
    have hempty : items=[] := List.head?_eq_none_iff.mp (hfirst.symm.trans hpop)
    subst hempty
    rcases hpc with ⟨hpc,rfl⟩ | ⟨hpc,rfl⟩ <;> cases hpc <;> exact ⟨[],hrest,.idle _⟩
  | popped hpc evt hpop =>
    obtain ⟨rest,rfl⟩ := List.head?_eq_some_iff.mp (hfirst.symm.trans hpop)
    rcases hpc with hpc | hpc <;> cases hpc <;> exact ⟨rest,hrest,.popped evt _ rest⟩
  | direct evt hpc => cases hpc; exact ⟨items,h,.direct evt _ items⟩
  | unserializable evt hpc => cases hpc; exact ⟨items,h,.unserializable evt _ items⟩
  | buffered evt hpc _ _ hroom => cases hpc; exact ⟨items,h,.buffered evt _ items hroom⟩
  | discarded evt hpc _ _ hfull => cases hpc; exact ⟨items,h,.discarded evt _ items hfull⟩
  | polled hpc => cases hpc; exact ⟨items,h,.reports _ _⟩
  | gone hpc => cases hpc; exact ⟨items,h,.idle _⟩

/-- Every step of the sink with its surroundings is one move of the backlog. -/
theorem step_moves {s : SinkThread} {items : List FlowEvent} (h : Stores s.queue items)
    (input : SinkInput) :
    ∃ items',Stores ((sinkMachine ser cfg).step s input).1.queue items' ∧
      Moves ser cfg (backlog s items) ((sinkMachine ser cfg).step s input).2
        (backlog ((sinkMachine ser cfg).step s input).1 items') := by
  cases input with
  | push evt =>
    obtain ⟨hanswer,hstores⟩ := push_stores h evt
    rw [step_push,hanswer]
    by_cases hroom : items.length<kDefaultEventQueueCapacity.n-1
    · rw [if_pos hroom] at hstores
      rw [decide_eq_true hroom]
      exact ⟨_,hstores,.queued (backlog s items) evt⟩
    · rw [if_neg hroom] at hstores
      rw [decide_eq_false hroom]
      exact ⟨_,hstores,.overflow (backlog s items) evt⟩
  | requestStop => exact ⟨items,h,.idle _⟩
  | sink answer => exact SinkStep.moves ser cfg (sinkStep_step ser cfg answer s) h

end Steps

/-- The event of an observation, when the queue accepted it. -/
def acceptedEvent : SinkObservation → Option FlowEvent
  | .queued evt accepted => if accepted=true then some evt else none
  | _ => none

/-- The event of an observation, when the producer took it. -/
def publishedEvent : SinkObservation → Option FlowEvent
  | .produced _ evt _ accepted => if accepted=true then some evt else none
  | _ => none

/-- The event of an observation after which the sink is done with it: it was
published, could not be serialised or was dropped at a full retry buffer. -/
def settledEvent : SinkObservation → Option FlowEvent
  | .produced _ evt _ accepted => if accepted=true then some evt else none
  | .unserializable _ evt => some evt
  | .discarded evt => some evt
  | _ => none

/-- Everything taken in so far is settled or still in the backlog. -/
def Accounts (b : Backlog) (history : List SinkObservation) : Prop :=
  (history.filterMap acceptedEvent).Perm
    (history.filterMap settledEvent++(b.retry++(b.hand++b.items)))

/-- Every move keeps the account. -/
theorem Moves.accounts {ser : Serializer} {cfg : AppConfig} {b b' : Backlog}
    {seen : List SinkObservation}
    (hmove : Moves ser cfg b seen b') {history : List SinkObservation} (h : Accounts b history) :
    Accounts b' (history++seen) := by
  unfold Accounts at h ⊢
  rw [List.filterMap_append,List.filterMap_append]
  generalize history.filterMap acceptedEvent=taken,
    history.filterMap settledEvent=settled at h ⊢
  rw [List.perm_iff_count] at h ⊢
  intro other
  have hcount := h other
  cases hmove <;>
    simp [List.filterMap_cons,acceptedEvent,settledEvent,List.count_cons] at hcount ⊢ <;> omega

/-- Whether a `produce` call failed since the last round of the outer loop
began, going on from the answer so far. -/
def refusedSince (refused : Bool) (seen : List SinkObservation) : Bool :=
  seen.foldl (fun refused o =>
    match o with
    | .iteration => false
    | .produced _ _ _ accepted => refused || !accepted
    | _ => refused) refused

/-- Whether a `produce` call failed in the last iteration. -/
def refusedInLastIteration (trace : List SinkObservation) : Bool := refusedSince false trace

/-- What the retry buffer says about the failures of the current iteration. -/
structure BufferTells (cfg : AppConfig) (s : SinkThread) (refused : Bool) : Prop where
  /-- The inner loop is still running only while nothing has failed. -/
  retrying : s.pc=.retrying → refused=false
  /-- After the inner loop an event waits exactly when something failed. -/
  waiting : 0<cfg.srBufferSize → s.pc≠.retrying → (s.retryBuf=[] ↔ refused=false)
  /-- A sink without a retry buffer never has an event waiting. -/
  bufferless : ¬0<cfg.srBufferSize → s.retryBuf=[]

/-- Outside the inner loop, a step that leaves the buffer alone tells the same. -/
theorem BufferTells.goto {cfg : AppConfig} {s s' : SinkThread} {refused : Bool}
    (h : BufferTells cfg s refused) (hpc : s.pc≠.retrying) (hpc' : s'.pc≠.retrying)
    (hbuf : s'.retryBuf=s.retryBuf) : BufferTells cfg s' refused := by
  refine ⟨fun heq => absurd heq hpc',fun hsize _ => ?_,fun hsize => ?_⟩
  · rw [hbuf]
    exact h.waiting hsize hpc
  · rw [hbuf]
    exact h.bufferless hsize

/-- An event waits only in a sink that has a retry buffer. -/
theorem BufferTells.sized {cfg : AppConfig} {s : SinkThread} {refused : Bool}
    (h : BufferTells cfg s refused) (hwaits : s.retryBuf≠[]) : 0<cfg.srBufferSize := by
  by_contra hsize
  exact hwaits (h.bufferless hsize)

/-- After a failure an event waits in every sink that has a retry buffer. -/
theorem BufferTells.failed {cfg : AppConfig} {s : SinkThread} (hpc : s.pc≠.retrying)
    (hwaits : 0<cfg.srBufferSize → s.retryBuf≠[])
    (hempty : ¬0<cfg.srBufferSize → s.retryBuf=[]) (refused : Bool) :
    BufferTells cfg s (refused || true) := by
  rw [Bool.or_true]
  exact ⟨fun heq => absurd heq hpc,fun hsize _ => iff_of_false (hwaits hsize) (by decide),hempty⟩

/-- An empty buffer has room exactly when it may hold anything at all. -/
theorem room_of_empty {cfg : AppConfig} {s : SinkThread} (hbuf : s.retryBuf=[]) :
    Int32.ofNat s.retryBuf.length<cfg.srBufferSize ↔ 0<cfg.srBufferSize := by
  rw [hbuf]
  exact Iff.rfl

/-- Every step of the thread keeps what the retry buffer tells. -/
theorem SinkStep.tells {ser : Serializer} {cfg : AppConfig} {answer : Answer}
    {s s' : SinkThread} {seen : List SinkObservation} (hstep : SinkStep ser cfg answer s s' seen)
    {refused : Bool} (h : BufferTells cfg s refused) :
    BufferTells cfg s' (refusedSince refused seen) := by
  have hpolling : SinkPc.polling≠.retrying := by decide
  cases hstep with
  | entered hpc => exact ⟨fun _ => rfl,fun _ hne => absurd rfl hne,h.bufferless⟩
  | leaving hpc => exact h.goto (by rw [hpc]; decide) SinkPc.noConfusion rfl
  | drained hpc hbuf =>
    have hnone := h.retrying hpc
    exact ⟨fun _ => hnone,fun _ _ => iff_of_true hbuf hnone,fun _ => hbuf⟩
  | retried hpc evt rest hbuf =>
    have hsize := h.sized (hbuf▸List.cons_ne_nil evt rest)
    have hnone := h.retrying hpc
    subst hnone
    exact ⟨fun _ => rfl,fun _ hne => absurd hpc hne,fun hno => absurd hsize hno⟩
  | spoiled hpc evt rest hbuf =>
    have hsize := h.sized (hbuf▸List.cons_ne_nil evt rest)
    have hnone := h.retrying hpc
    exact ⟨fun _ => hnone,fun _ hne => absurd hpc hne,fun hno => absurd hsize hno⟩
  | stuck hpc evt rest hbuf =>
    have hwaits : s.retryBuf≠[] := hbuf▸List.cons_ne_nil evt rest
    change BufferTells cfg _ (refused || true)
    refine .failed SinkPc.noConfusion (fun _ => ?_) (fun hno => ?_) _
    · exact hwaits
    · exact absurd (h.sized hwaits) hno
  | missed next hpc =>
    rcases hpc with ⟨hpc,rfl⟩ | ⟨hpc,rfl⟩
    · exact h.goto (by rw [hpc]; decide) SinkPc.noConfusion rfl
    · exact h.goto (by rw [hpc]; decide) hpolling rfl
  | popped hpc evt =>
    have houtside : s.pc≠.retrying := by rcases hpc with hpc | hpc <;> rw [hpc] <;> decide
    exact h.goto houtside SinkPc.noConfusion rfl
  | direct evt hpc =>
    have hsame : (refused || false)=refused := Bool.or_false refused
    change BufferTells cfg _ (refused || false)
    rw [hsame]
    exact h.goto (by rw [hpc]; exact SinkPc.noConfusion) hpolling rfl
  | unserializable evt hpc => exact h.goto (by rw [hpc]; exact SinkPc.noConfusion) hpolling rfl
  | buffered evt hpc _ _ hroom =>
    change BufferTells cfg _ (refused || true)
    refine .failed hpolling (fun _ => ?_) (fun hno => ?_) _
    · exact List.append_ne_nil_of_right_ne_nil _ (List.cons_ne_nil _ _)
    · exact absurd ((room_of_empty (h.bufferless hno)).mp hroom) hno
  | discarded evt hpc _ _ hfull =>
    change BufferTells cfg _ (refused || true)
    refine .failed hpolling (fun hsize heq => ?_) (fun hno => ?_) _
    · exact absurd ((room_of_empty heq).mpr hsize) hfull
    · exact h.bufferless hno
  | polled hpc => exact h.goto (by rw [hpc]; decide) SinkPc.noConfusion rfl
  | gone hpc => exact h

/-- So does every step of the surroundings. -/
theorem step_tells {ser : Serializer} {cfg : AppConfig} {s : SinkThread} {refused : Bool}
    (h : BufferTells cfg s refused) (input : SinkInput) :
    BufferTells cfg ((sinkMachine ser cfg).step s input).1
      (refusedSince refused ((sinkMachine ser cfg).step s input).2) := by
  cases input with
  | push evt => exact ⟨h.retrying,h.waiting,h.bufferless⟩
  | requestStop => exact ⟨h.retrying,h.waiting,h.bufferless⟩
  | sink answer => exact SinkStep.tells (sinkStep_step ser cfg answer s) h

/-- Messages that the producer took. -/
def publications : SinkObservation → ℕ
  | .produced _ _ _ accepted => accepted.toNat
  | _ => 0

/-- Messages that the producer took on the retry path. -/
def retries : SinkObservation → ℕ
  | .produced .retry _ _ accepted => accepted.toNat
  | _ => 0

/-- Events given up because they could not be serialised. -/
def serializationErrors : SinkObservation → ℕ
  | .unserializable _ _ => 1
  | _ => 0

/-- Messages that the producer refused, events dropped at a full retry buffer
and failed deliveries. -/
def deliveryErrors : SinkObservation → ℕ
  | .produced _ _ _ accepted => (!accepted).toNat
  | .discarded _ => 1
  | .reports failed => failed
  | _ => 0

/-- The sum of a number over what was seen. -/
def tally (number : SinkObservation → ℕ) (seen : List SinkObservation) : ℕ :=
  (seen.map number).sum

theorem tally_append (number : SinkObservation → ℕ) (xs ys : List SinkObservation) :
    tally number (xs++ys)=tally number xs+tally number ys := by
  simp only [tally,List.map_append,List.sum_append]

/-- What the steps with these observations add to the counters. -/
structure Adds (m m' : Metrics) (seen : List SinkObservation) : Prop where
  /-- `kafka_messages_produced`. -/
  produced : m'.kafkaMessagesProduced=m.kafkaMessagesProduced+tally publications seen
  /-- `schema_registry_retries`. -/
  retried : m'.schemaRegistryRetries=m.schemaRegistryRetries+tally retries seen
  /-- `avro_serialization_errors`. -/
  errors : m'.avroSerializationErrors=m.avroSerializationErrors+tally serializationErrors seen
  /-- `kafka_delivery_errors`. -/
  dropped : m'.kafkaDeliveryErrors=m.kafkaDeliveryErrors+tally deliveryErrors seen

/-- The thread counts what it does. -/
theorem SinkStep.adds {ser : Serializer} {cfg : AppConfig} {answer : Answer}
    {s s' : SinkThread} {seen : List SinkObservation}
    (hstep : SinkStep ser cfg answer s s' seen) : Adds s.metrics s'.metrics seen := by
  cases hstep <;> exact ⟨rfl,rfl,rfl,rfl⟩

/-- Every step keeps the counters up to date; pushes and stop requests count
nothing. -/
theorem Adds.step {ser : Serializer} {cfg : AppConfig} {s : SinkThread}
    {history : List SinkObservation} (h : Adds {} s.metrics history) (input : SinkInput) :
    Adds {} ((sinkMachine ser cfg).step s input).1.metrics
      (history++((sinkMachine ser cfg).step s input).2) := by
  have hstep : Adds s.metrics ((sinkMachine ser cfg).step s input).1.metrics
      ((sinkMachine ser cfg).step s input).2 := by
    cases input with
    | push evt => exact ⟨rfl,rfl,rfl,rfl⟩
    | requestStop => exact ⟨rfl,rfl,rfl,rfl⟩
    | sink answer => exact SinkStep.adds (sinkStep_step ser cfg answer s)
  constructor
  · rw [hstep.produced,h.produced,tally_append,Nat.add_assoc]
  · rw [hstep.retried,h.retried,tally_append,Nat.add_assoc]
  · rw [hstep.errors,h.errors,tally_append,Nat.add_assoc]
  · rw [hstep.dropped,h.dropped,tally_append,Nat.add_assoc]

/-- The counters after any run of a thread just started. -/
theorem run_adds (ser : Serializer) (cfg : AppConfig) (inputs : List SinkInput) :
    Adds {} (sinkAfter ser cfg inputs).metrics (sinkTrace ser cfg inputs) := by
  have hinitial : Adds {} SinkThread.initial.metrics [] := ⟨rfl,rfl,rfl,rfl⟩
  have hstep : ∀ s history input,Adds {} s.metrics history →
      Adds {} ((sinkMachine ser cfg).step s input).1.metrics
        (history++((sinkMachine ser cfg).step s input).2) := fun _ _ input h => h.step input
  have hrun := Machine.history_invariant (sinkMachine ser cfg) hstep hinitial inputs
  exact hrun

/-- The sink's backlog, whatever the queue stores, accounts for the history. -/
def SinkAccounts (s : SinkThread) (history : List SinkObservation) : Prop :=
  ∃ items,Stores s.queue items ∧ Accounts (backlog s items) history

/-- The backlog accounts for every event in every run. -/
theorem run_accounts (ser : Serializer) (cfg : AppConfig) (inputs : List SinkInput) :
    SinkAccounts (sinkAfter ser cfg inputs) (sinkTrace ser cfg inputs) := by
  have hinitial : SinkAccounts .initial [] := ⟨[],stores_initial _,List.Perm.refl _⟩
  have hstep : ∀ s history input,SinkAccounts s history →
      SinkAccounts ((sinkMachine ser cfg).step s input).1
        (history++((sinkMachine ser cfg).step s input).2) := by
    rintro s history input ⟨items,hstores,haccounts⟩
    obtain ⟨items',hstores',hmoves⟩ := step_moves ser cfg hstores input
    exact ⟨items',hstores',hmoves.accounts haccounts⟩
  exact Machine.history_invariant (sinkMachine ser cfg) hstep hinitial inputs

/-- What the retry buffer tells in every run. -/
theorem run_tells (ser : Serializer) (cfg : AppConfig) (inputs : List SinkInput) :
    BufferTells cfg (sinkAfter ser cfg inputs)
      (refusedInLastIteration (sinkTrace ser cfg inputs)) := by
  have hinitial : BufferTells cfg .initial (refusedInLastIteration []) :=
    ⟨fun _ => rfl,fun _ _ => ⟨fun _ => rfl,fun _ => rfl⟩,fun _ => rfl⟩
  have hstep : ∀ s history input,BufferTells cfg s (refusedInLastIteration history) →
      BufferTells cfg ((sinkMachine ser cfg).step s input).1
        (refusedInLastIteration (history++((sinkMachine ser cfg).step s input).2)) := by
    intro s history input h
    rw [refusedInLastIteration,refusedSince,List.foldl_append]
    exact step_tells h input
  have hrun := Machine.history_invariant (sinkMachine ser cfg) hstep hinitial inputs
  exact hrun

/-- The thread leaves its outer loop only at the guard, with nothing queued. -/
theorem SinkStep.leaves {ser : Serializer} {cfg : AppConfig} {answer : Answer}
    {s s' : SinkThread} {seen : List SinkObservation} (hstep : SinkStep ser cfg answer s s' seen)
    (hinside : s.pc≠.left) (hleft : s'.pc=.left) : empty s'.queue=true := by
  cases hstep with
  | leaving hpc hguard =>
    have hempty := (Bool.or_eq_false_iff.mp hguard).2
    rwa [Bool.not_eq_false'] at hempty
  | retried => exact absurd hleft hinside
  | spoiled => exact absurd hleft hinside
  | missed next hpc => rcases hpc with ⟨_,rfl⟩ | ⟨_,rfl⟩ <;> cases hleft
  | gone => exact absurd hleft hinside
  | _ => cases hleft

/-- Nothing is left behind when the outer loop is left. -/
structure ShutdownComplete (s : SinkThread) (history : List SinkObservation) : Prop where
  /-- The queue is empty. -/
  queue : empty s.queue=true
  /-- The retry buffer is empty. -/
  buffer : s.retryBuf=[]
  /-- Every event that the queue accepted was published, or could not be
  serialised, or was dropped at a full retry buffer. -/
  settled : (history.filterMap acceptedEvent).Perm (history.filterMap settledEvent)
  /-- Each of them was counted. -/
  counted : Adds {} s.metrics history

/-- When the thread leaves its outer loop, everything is settled exactly when
no `produce` call failed in the last iteration, or there is no retry buffer. -/
theorem shutdown_complete_iff (ser : Serializer) (cfg : AppConfig) (inputs : List SinkInput)
    (answer : Answer)
    (hinside : (sinkAfter ser cfg inputs).pc≠.left)
    (hleft : (sinkAfter ser cfg (inputs++[.sink answer])).pc=.left) :
    ShutdownComplete (sinkAfter ser cfg (inputs++[.sink answer]))
        (sinkTrace ser cfg (inputs++[.sink answer])) ↔
      ¬0<cfg.srBufferSize ∨
        refusedInLastIteration (sinkTrace ser cfg (inputs++[.sink answer]))=false := by
  have htells := run_tells ser cfg (inputs++[.sink answer])
  have hadds := run_adds ser cfg (inputs++[.sink answer])
  obtain ⟨items,hstores,haccounts⟩ := run_accounts ser cfg (inputs++[.sink answer])
  have hlast : sinkAfter ser cfg (inputs++[.sink answer])=
      (sinkStep ser cfg answer (sinkAfter ser cfg inputs)).1 :=
    Machine.final_concat (sinkMachine ser cfg) _ inputs (.sink answer)
  have hempty : empty (sinkAfter ser cfg (inputs++[.sink answer])).queue=true := by
    rw [hlast] at hleft ⊢
    exact SinkStep.leaves (sinkStep_step ser cfg answer _) hinside hleft
  generalize sinkTrace ser cfg (inputs++[.sink answer])=trace at htells hadds haccounts ⊢
  generalize sinkAfter ser cfg (inputs++[.sink answer])=s at *
  have hitems : items=[] := by
    rw [(size_stores hstores).1,List.isEmpty_iff] at hempty
    exact hempty
  have hbuffer : s.retryBuf=[] ↔ ¬0<cfg.srBufferSize ∨ refusedInLastIteration trace=false := by
    by_cases hsize : 0<cfg.srBufferSize
    · rw [htells.waiting hsize (by rw [hleft]; decide)]
      exact ⟨Or.inr,fun h => h.resolve_left (fun hno => hno hsize)⟩
    · exact iff_of_true (htells.bufferless hsize) (.inl hsize)
  rw [←hbuffer]
  refine ⟨fun h => h.buffer,fun h => ⟨hempty,h,?_,hadds⟩⟩
  unfold Accounts backlog at haccounts
  rw [hitems,h,hleft] at haccounts
  simpa [inHand] using haccounts

/-- An event pushed before the stop is requested. -/
def lastStart : FlowEvent := {state := {key := {srcPort := 443},packetCount := 1}}

/-- A serialiser for runs in which only the order of the calls matters. -/
def blankSerializer : Serializer := ⟨fun _ => "",fun _ => []⟩

/-- A shutdown without failures is complete. -/
theorem shutdown_complete_published :
    ShutdownComplete
      (sinkAfter blankSerializer {} [.push lastStart,.requestStop,.sink {},.sink {},.sink {},
        .sink {},.sink {},.sink {}])
      (sinkTrace blankSerializer {} [.push lastStart,.requestStop,.sink {},.sink {},.sink {},
        .sink {},.sink {},.sink {}]) :=
  (shutdown_complete_iff blankSerializer {} [.push lastStart,.requestStop,.sink {},.sink {},
    .sink {},.sink {},.sink {}] {} (by decide) (by decide)).mpr (.inr (by decide))

/-- One event is pushed, the stop is requested and the only `produce` call
fails: the thread leaves its loop with the event in the retry buffer. -/
theorem shutdown_loses_event :
    let inputs : List SinkInput := [.push lastStart,.requestStop,.sink {},.sink {},.sink {},
      .sink {produces := false},.sink {},.sink {}]
    let s := sinkAfter blankSerializer {} inputs
    let trace := sinkTrace blankSerializer {} inputs
    s.pc=.left ∧ s.retryBuf=[lastStart] ∧ trace.filterMap acceptedEvent=[lastStart] ∧
      trace.filterMap settledEvent=[] ∧ ¬ShutdownComplete s trace := by
  refine ⟨by decide,by decide,by decide,by decide,fun h => ?_⟩
  exact absurd h.buffer (by decide)

end PacketPipe.KafkaSinkDelivery

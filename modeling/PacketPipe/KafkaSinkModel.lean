import PacketPipe.ConfigParserModel
import PacketPipe.EventQueueModel

/-!
# The Avro-Kafka sink thread

`AvroKafkaSink::sink_thread_func` as a state machine with a program counter:
the loop guard, the inner loop over the retry buffer, both pops of `pop_wait`,
the attempt for the popped event and the poll. Other threads may push events
and request the stop between any two steps. Whether serialisation succeeds and
whether librdkafka takes a message is decided anew for every attempt.
-/

namespace PacketPipe.KafkaSinkModel

open FlowEvents ConfigParserModel ObservedMachines EventQueueModel

/-- The parts of `AvroSerializer` that the sink uses. -/
structure Serializer where
  /-- `AvroSerializer::flow_id`. -/
  flowId : FlowKey → String
  /-- What `serialize` returns when it does not throw. -/
  serialize : FlowEvent → List UInt8

/-- The arguments of `KafkaProducer::produce`. -/
structure Message where
  /-- Message key. -/
  key : String
  /-- Message payload. -/
  payload : List UInt8
  deriving DecidableEq

/-- What the surroundings answer to one step of the sink thread. -/
structure Answer where
  /-- `AvroSerializer::serialize` returns instead of throwing. -/
  serializes : Bool := true
  /-- `RdKafka::Producer::produce` returns `ERR_NO_ERROR`. -/
  produces : Bool := true
  /-- Failed deliveries that a poll reports. -/
  failedReports : ℕ := 0
  deriving DecidableEq

/-- Where the sink thread is in `sink_thread_func`. -/
inductive SinkPc
  /-- Before the guard of the outer loop. -/
  | loopHead
  /-- Before the guard of the inner loop. -/
  | retrying
  /-- Before the first `pop` of `pop_wait`. -/
  | firstPop
  /-- Before its second `pop`, after waiting. -/
  | secondPop
  /-- Before `attempt_produce` of the popped event. -/
  | attempting (evt : FlowEvent)
  /-- Before `poll`. -/
  | polling
  /-- After the outer loop. -/
  | left
  deriving DecidableEq

/-- The two places that serialise and produce an event. -/
inductive Path
  /-- The inner loop over the retry buffer. -/
  | retry
  /-- `attempt_produce` for the popped event. -/
  | direct
  deriving DecidableEq

/-- What an observer sees of the sink. -/
inductive SinkObservation
  /-- `push` was called on the queue and returned `accepted`. -/
  | queued (evt : FlowEvent) (accepted : Bool)
  /-- The outer loop was entered once more. -/
  | iteration
  /-- `pop_wait` returned the event. -/
  | popped (evt : FlowEvent)
  /-- `KafkaProducer::produce` was called for the event and returned `accepted`. -/
  | produced (path : Path) (evt : FlowEvent) (msg : Message) (accepted : Bool)
  /-- Serialisation failed and the event was given up. -/
  | unserializable (path : Path) (evt : FlowEvent)
  /-- The retry buffer was full and the event was dropped. -/
  | discarded (evt : FlowEvent)
  /-- A poll reported failed deliveries. -/
  | reports (failed : ℕ)
  deriving DecidableEq

/-- The sink, with the queue it shares and the stop token of its thread. -/
structure SinkThread where
  /-- Program counter. -/
  pc : SinkPc
  /-- `queue_`. -/
  queue : EventQueue kDefaultEventQueueCapacity
  /-- `retry_buf_`, front first. -/
  retryBuf : List FlowEvent
  /-- `stop.stop_requested()`. -/
  stopRequested : Bool
  /-- `metrics_`. -/
  metrics : Metrics

/-- A thread just started. -/
def SinkThread.initial : SinkThread :=
  ⟨.loopHead,.initial kDefaultEventQueueCapacity,[],false,{}⟩

/-- `KafkaProducer::produce`. -/
def produce (answer : Answer) (m : Metrics) : Bool×Metrics :=
  if answer.produces=true then (true,{m with kafkaMessagesProduced := m.kafkaMessagesProduced+1})
  else (false,{m with kafkaDeliveryErrors := m.kafkaDeliveryErrors+1})

section Thread

variable (ser : Serializer) (cfg : AppConfig)

/-- The message that both paths build for an event. -/
def messageFor (evt : FlowEvent) : Message := ⟨ser.flowId evt.state.key,ser.serialize evt⟩

/-- `attempt_produce`. A serialisation error is not retriable. -/
def attemptProduce (evt : FlowEvent) (answer : Answer) (m : Metrics) :
    Bool×Metrics×List SinkObservation :=
  if answer.serializes=true then
    let sent := produce answer m
    (sent.1,sent.2,[.produced .direct evt (messageFor ser evt) sent.1])
  else
    (true,{m with avroSerializationErrors := m.avroSerializationErrors+1},
      [.unserializable .direct evt])

/-- One round of the inner loop over the retry buffer. An event whose `produce` still
fails is left in it and breaks the loop. -/
def retryStep (answer : Answer) (s : SinkThread) : SinkThread×List SinkObservation :=
  match s.retryBuf with
  | [] => ({s with pc := .firstPop},[])
  | evt::rest =>
    if answer.serializes=true then
      let sent := produce answer s.metrics
      if sent.1=true then
        ({s with
          retryBuf := rest
          metrics := {sent.2 with schemaRegistryRetries := sent.2.schemaRegistryRetries+1}},
          [.produced .retry evt (messageFor ser evt) true])
      else
        ({s with pc := .firstPop,metrics := sent.2},
          [.produced .retry evt (messageFor ser evt) false])
    else
      ({s with
        retryBuf := rest
        metrics := {s.metrics with
          avroSerializationErrors := s.metrics.avroSerializationErrors+1}},
        [.unserializable .retry evt])

/-- One `pop` of `pop_wait`, going on to `missed` when the queue is empty. -/
def popStep (missed : SinkPc) (s : SinkThread) : SinkThread×List SinkObservation :=
  let popped := pop s.queue
  match popped.1 with
  | some evt => ({s with pc := .attempting evt,queue := popped.2},[.popped evt])
  | none => ({s with pc := missed,queue := popped.2},[])

/-- The attempt for a popped event, which goes to the retry buffer when it
fails and there is room: `static_cast<int>(retry_buf_.size())` is compared
with `sr_buffer_size_`. -/
def attemptStep (evt : FlowEvent) (answer : Answer) (s : SinkThread) :
    SinkThread×List SinkObservation :=
  let tried := attemptProduce ser evt answer s.metrics
  if tried.1=true then ({s with pc := .polling,metrics := tried.2.1},tried.2.2)
  else if Int32.ofNat s.retryBuf.length<cfg.srBufferSize then
    ({s with pc := .polling,retryBuf := s.retryBuf++[evt],metrics := tried.2.1},tried.2.2)
  else
    ({s with
      pc := .polling
      metrics := {tried.2.1 with
        kafkaDeliveryErrors := tried.2.1.kafkaDeliveryErrors+1}},
      tried.2.2++[.discarded evt])

/-- One step of `sink_thread_func`. `poll` runs `DeliveryCb::dr_cb` for every report. -/
def sinkStep (answer : Answer) (s : SinkThread) : SinkThread×List SinkObservation :=
  match s.pc with
  | .loopHead =>
    if !s.stopRequested || !empty s.queue then ({s with pc := .retrying},[.iteration])
    else ({s with pc := .left},[])
  | .retrying => retryStep ser answer s
  | .firstPop => popStep .secondPop s
  | .secondPop => popStep .polling s
  | .attempting evt => attemptStep ser cfg evt answer s
  | .polling =>
    ({s with
      pc := .loopHead
      metrics := {s.metrics with
        kafkaDeliveryErrors := s.metrics.kafkaDeliveryErrors+answer.failedReports}},
      [.reports answer.failedReports])
  | .left => (s,[])

end Thread

/-- Everything one step of `sink_thread_func` can do, with what is seen of it. -/
inductive SinkStep (ser : Serializer) (cfg : AppConfig) (answer : Answer) (s : SinkThread) :
    SinkThread → List SinkObservation → Prop
  /-- Another iteration of the outer loop begins. -/
  | entered (hpc : s.pc=.loopHead) (hguard : (!s.stopRequested || !empty s.queue)=true) :
    SinkStep ser cfg answer s {s with pc := .retrying} [.iteration]
  /-- The outer loop is left. -/
  | leaving (hpc : s.pc=.loopHead) (hguard : (!s.stopRequested || !empty s.queue)=false) :
    SinkStep ser cfg answer s {s with pc := .left} []
  /-- Nothing waits in the retry buffer. -/
  | drained (hpc : s.pc=.retrying) (hbuf : s.retryBuf=[]) :
    SinkStep ser cfg answer s {s with pc := .firstPop} []
  /-- The retry buffer's front is published. -/
  | retried (hpc : s.pc=.retrying) (evt : FlowEvent) (rest : List FlowEvent)
    (hbuf : s.retryBuf=evt::rest) :
    SinkStep ser cfg answer s
      {s with
        retryBuf := rest
        metrics := {s.metrics with
          kafkaMessagesProduced := s.metrics.kafkaMessagesProduced+1
          schemaRegistryRetries := s.metrics.schemaRegistryRetries+1}}
      [.produced .retry evt (messageFor ser evt) true]
  /-- The retry buffer's front cannot be serialised. -/
  | spoiled (hpc : s.pc=.retrying) (evt : FlowEvent) (rest : List FlowEvent)
    (hbuf : s.retryBuf=evt::rest) :
    SinkStep ser cfg answer s
      {s with
        retryBuf := rest
        metrics := {s.metrics with
          avroSerializationErrors := s.metrics.avroSerializationErrors+1}}
      [.unserializable .retry evt]
  /-- The retry buffer's front is refused again and stays. -/
  | stuck (hpc : s.pc=.retrying) (evt : FlowEvent) (rest : List FlowEvent)
    (hbuf : s.retryBuf=evt::rest) :
    SinkStep ser cfg answer s
      {s with
        pc := .firstPop
        metrics := {s.metrics with kafkaDeliveryErrors := s.metrics.kafkaDeliveryErrors+1}}
      [.produced .retry evt (messageFor ser evt) false]
  /-- A pop finds the queue empty. -/
  | missed (next : SinkPc)
    (hpc : s.pc=.firstPop ∧ next=.secondPop ∨ s.pc=.secondPop ∧ next=.polling)
    (hpop : (pop s.queue).1=none) :
    SinkStep ser cfg answer s {s with pc := next,queue := (pop s.queue).2} []
  /-- A pop takes an event from the queue. -/
  | popped (hpc : s.pc=.firstPop ∨ s.pc=.secondPop) (evt : FlowEvent)
    (hpop : (pop s.queue).1=some evt) :
    SinkStep ser cfg answer s {s with pc := .attempting evt,queue := (pop s.queue).2}
      [.popped evt]
  /-- The popped event is published. -/
  | direct (evt : FlowEvent) (hpc : s.pc=.attempting evt) (hserializes : answer.serializes=true)
    (hproduces : answer.produces=true) :
    SinkStep ser cfg answer s
      {s with
        pc := .polling
        metrics := {s.metrics with
          kafkaMessagesProduced := s.metrics.kafkaMessagesProduced+1}}
      [.produced .direct evt (messageFor ser evt) true]
  /-- The popped event cannot be serialised. -/
  | unserializable (evt : FlowEvent) (hpc : s.pc=.attempting evt)
    (hserializes : answer.serializes=false) :
    SinkStep ser cfg answer s
      {s with
        pc := .polling
        metrics := {s.metrics with
          avroSerializationErrors := s.metrics.avroSerializationErrors+1}}
      [.unserializable .direct evt]
  /-- The popped event is refused and there is room for it. -/
  | buffered (evt : FlowEvent) (hpc : s.pc=.attempting evt)
    (hserializes : answer.serializes=true) (hproduces : answer.produces=false)
    (hroom : Int32.ofNat s.retryBuf.length<cfg.srBufferSize) :
    SinkStep ser cfg answer s
      {s with
        pc := .polling
        retryBuf := s.retryBuf++[evt]
        metrics := {s.metrics with kafkaDeliveryErrors := s.metrics.kafkaDeliveryErrors+1}}
      [.produced .direct evt (messageFor ser evt) false]
  /-- The popped event is refused and there is no room for it. -/
  | discarded (evt : FlowEvent) (hpc : s.pc=.attempting evt)
    (hserializes : answer.serializes=true) (hproduces : answer.produces=false)
    (hfull : ¬Int32.ofNat s.retryBuf.length<cfg.srBufferSize) :
    SinkStep ser cfg answer s
      {s with
        pc := .polling
        metrics := {s.metrics with kafkaDeliveryErrors := s.metrics.kafkaDeliveryErrors+1+1}}
      [.produced .direct evt (messageFor ser evt) false,.discarded evt]
  /-- A poll reports failed deliveries. -/
  | polled (hpc : s.pc=.polling) :
    SinkStep ser cfg answer s
      {s with
        pc := .loopHead
        metrics := {s.metrics with
          kafkaDeliveryErrors := s.metrics.kafkaDeliveryErrors+answer.failedReports}}
      [.reports answer.failedReports]
  /-- The thread has left its loop already. -/
  | gone (hpc : s.pc=.left) : SinkStep ser cfg answer s s []

/-- A pop misses or takes an event. -/
theorem popStep_step {ser : Serializer} {cfg : AppConfig} {answer : Answer} {s : SinkThread}
    {missed : SinkPc}
    (hpc : s.pc=.firstPop ∧ missed=.secondPop ∨ s.pc=.secondPop ∧ missed=.polling) :
    SinkStep ser cfg answer s (popStep missed s).1 (popStep missed s).2 := by
  unfold popStep
  dsimp only
  cases hpop : (pop s.queue).1 with
  | none => exact .missed missed hpc hpop
  | some evt => exact .popped (hpc.imp And.left And.left) evt hpop

/-- A round of the inner loop ends it, or publishes or gives up the front. -/
theorem retryStep_step {ser : Serializer} {cfg : AppConfig} {answer : Answer} {s : SinkThread}
    (hpc : s.pc=.retrying) :
    SinkStep ser cfg answer s (retryStep ser answer s).1 (retryStep ser answer s).2 := by
  obtain ⟨pc,queue,retryBuf,stopRequested,metrics⟩ := s
  unfold retryStep produce
  cases retryBuf with
  | nil => exact .drained hpc rfl
  | cons evt rest =>
    cases answer.serializes with
    | false => exact .spoiled hpc evt rest rfl
    | true =>
      cases answer.produces with
      | true => exact .retried hpc evt rest rfl
      | false => exact .stuck hpc evt rest rfl

/-- An attempt publishes or gives up its event, or leaves it to the retry
buffer, which may be full. -/
theorem attemptStep_step {ser : Serializer} {cfg : AppConfig} {answer : Answer} {s : SinkThread}
    {evt : FlowEvent} (hpc : s.pc=.attempting evt) :
    SinkStep ser cfg answer s (attemptStep ser cfg evt answer s).1
      (attemptStep ser cfg evt answer s).2 := by
  unfold attemptStep attemptProduce produce
  cases hserializes : answer.serializes with
  | false => exact .unserializable evt hpc hserializes
  | true =>
    cases hproduces : answer.produces with
    | true => exact .direct evt hpc hserializes hproduces
    | false =>
      simp only [if_true,Bool.false_eq_true,if_false]
      by_cases hroom : Int32.ofNat s.retryBuf.length<cfg.srBufferSize
      · rw [if_pos hroom]
        exact .buffered evt hpc hserializes hproduces hroom
      · rw [if_neg hroom]
        exact .discarded evt hpc hserializes hproduces hroom

/-- There are no other steps. -/
theorem sinkStep_step (ser : Serializer) (cfg : AppConfig) (answer : Answer) (s : SinkThread) :
    SinkStep ser cfg answer s (sinkStep ser cfg answer s).1 (sinkStep ser cfg answer s).2 := by
  unfold sinkStep
  cases hpc : s.pc with
  | loopHead =>
    dsimp only
    split
    · next hguard => exact .entered hpc hguard
    · next hguard => exact .leaving hpc (Bool.eq_false_iff.mpr hguard)
  | retrying => exact retryStep_step hpc
  | firstPop => exact popStep_step (.inl ⟨hpc,rfl⟩)
  | secondPop => exact popStep_step (.inr ⟨hpc,rfl⟩)
  | attempting evt => exact attemptStep_step hpc
  | polling => exact .polled hpc
  | left => exact .gone hpc

/-- What can happen next. -/
inductive SinkInput
  /-- Another thread pushes an event. -/
  | push (evt : FlowEvent)
  /-- The destructor requests the stop. -/
  | requestStop
  /-- The sink thread takes one step. -/
  | sink (answer : Answer)
  deriving DecidableEq

/-- The sink with its surroundings. -/
def sinkMachine (ser : Serializer) (cfg : AppConfig) :
    Machine SinkThread SinkInput SinkObservation where
  step s
    | .push evt =>
      let pushed := push evt s.queue
      ({s with queue := pushed.2},[.queued evt pushed.1])
    | .requestStop => ({s with stopRequested := true},[])
    | .sink answer => sinkStep ser cfg answer s

section Steps

variable (ser : Serializer) (cfg : AppConfig) (s : SinkThread)

@[simp] theorem step_push (evt : FlowEvent) :
    (sinkMachine ser cfg).step s (.push evt)=
      ({s with queue := (push evt s.queue).2},[.queued evt (push evt s.queue).1]) := rfl

@[simp] theorem step_requestStop :
    (sinkMachine ser cfg).step s .requestStop=({s with stopRequested := true},[]) := rfl

@[simp] theorem step_sink (answer : Answer) :
    (sinkMachine ser cfg).step s (.sink answer)=sinkStep ser cfg answer s := rfl

end Steps

/-- The sink after the inputs. -/
abbrev sinkAfter (ser : Serializer) (cfg : AppConfig) (inputs : List SinkInput) : SinkThread :=
  (sinkMachine ser cfg).final .initial inputs

/-- Everything observed during the inputs. -/
abbrev sinkTrace (ser : Serializer) (cfg : AppConfig) (inputs : List SinkInput) :
    List SinkObservation :=
  (sinkMachine ser cfg).trace .initial inputs

end PacketPipe.KafkaSinkModel

import PacketPipe.KafkaSinkDelivery

/-!
# What became of the events popped so far

At the head of the outer loop every event that the sink thread popped was
published once, given up as unserialisable, dropped at a full retry buffer,
or waits in that buffer, in the order of the pops. The buffer never holds
more events than it may. The four counters of the sink are read off the same
history; a drop at the full buffer counts a second delivery error for the
`produce` call that was refused just before.
-/

namespace PacketPipe.KafkaSinkAccounts

open FlowEvents ConfigParserModel ObservedMachines EventQueueModel EventQueueRefinement
open KafkaSinkModel KafkaSinkDelivery

/-- The event that a pop took from the queue. -/
def poppedEvent : SinkObservation → Option FlowEvent
  | .popped evt => some evt
  | _ => none

/-- The message that the producer took. -/
def publishedMessage : SinkObservation → Option Message
  | .produced _ _ msg accepted => if accepted=true then some msg else none
  | _ => none

/-- The event that was given up because it could not be serialised. -/
def spoiledEvent : SinkObservation → Option FlowEvent
  | .unserializable _ evt => some evt
  | _ => none

/-- The event that was dropped because the retry buffer was full. -/
def discardedEvent : SinkObservation → Option FlowEvent
  | .discarded evt => some evt
  | _ => none

/-- Everything popped is published, spoiled, dropped, waiting or in hand. -/
def AccountsPops (b : Backlog) (history : List SinkObservation) : Prop :=
  (history.filterMap poppedEvent).Perm
    (history.filterMap publishedEvent++(history.filterMap spoiledEvent++
      (history.filterMap discardedEvent++(b.retry++b.hand))))

/-- Every move keeps the account of the pops. -/
theorem AccountsPops.move {ser : Serializer} {cfg : AppConfig} {b b' : Backlog}
    {seen history : List SinkObservation} (hmove : Moves ser cfg b seen b')
    (h : AccountsPops b history) : AccountsPops b' (history++seen) := by
  unfold AccountsPops at h ⊢
  simp only [List.filterMap_append]
  generalize history.filterMap poppedEvent=popped,
    history.filterMap publishedEvent=published,history.filterMap spoiledEvent=spoiled,
    history.filterMap discardedEvent=discarded at h ⊢
  rw [List.perm_iff_count] at h ⊢
  intro other
  have hcount := h other
  cases hmove <;>
    simp [List.filterMap_cons,poppedEvent,publishedEvent,spoiledEvent,discardedEvent,
      List.count_cons] at hcount ⊢ <;> omega

/-- The waiting events and the one in hand are in the order of the pops. -/
def InPopOrder (b : Backlog) (history : List SinkObservation) : Prop :=
  (b.retry++b.hand).Sublist (history.filterMap poppedEvent)

/-- Every move keeps the order of the pops. -/
theorem InPopOrder.move {ser : Serializer} {cfg : AppConfig} {b b' : Backlog}
    {seen history : List SinkObservation} (hmove : Moves ser cfg b seen b')
    (h : InPopOrder b history) : InPopOrder b' (history++seen) := by
  unfold InPopOrder at h ⊢
  rw [List.filterMap_append]
  have hlonger : ∀ more,(b.retry++b.hand).Sublist (history.filterMap poppedEvent++more) :=
    fun more => h.trans (List.sublist_append_left _ more)
  cases hmove with
  | queued => exact hlonger _
  | overflow => exact hlonger _
  | idle => exact hlonger _
  | iteration => exact hlonger _
  | reports => exact hlonger _
  | retried evt retry items => exact (List.sublist_cons_self evt _).trans (hlonger _)
  | spoiled evt retry items => exact (List.sublist_cons_self evt _).trans (hlonger _)
  | stuck => exact hlonger _
  | popped evt retry items =>
    rw [List.append_nil] at h
    exact h.append (List.Sublist.refl [evt])
  | direct evt retry items =>
    rw [List.append_nil]
    exact (List.sublist_append_left retry [evt]).trans (hlonger _)
  | unserializable evt retry items =>
    rw [List.append_nil]
    exact (List.sublist_append_left retry [evt]).trans (hlonger _)
  | buffered evt retry items hroom =>
    rw [List.append_nil]
    exact hlonger _
  | discarded evt retry items hfull =>
    rw [List.append_nil]
    exact (List.sublist_append_left retry [evt]).trans (hlonger _)

/-- The buffer holds at most `sr_buffer_size` events, none for a negative size. -/
def WithinSize (cfg : AppConfig) (b : Backlog) : Prop := b.retry.length≤cfg.srBufferSize.toInt.toNat

/-- Within its size the buffer's comparison with it is exact. -/
theorem WithinSize.room_iff {cfg : AppConfig} {b : Backlog} (h : WithinSize cfg b) :
    Int32.ofNat b.retry.length<cfg.srBufferSize ↔
      b.retry.length<cfg.srBufferSize.toInt.toNat := by
  have hmax := cfg.srBufferSize.toInt_lt
  unfold WithinSize at h
  rw [Int32.lt_iff_toInt_lt,Int32.toInt_ofNat_of_lt (by omega)]
  omega

/-- Every move keeps the buffer within its size. -/
theorem WithinSize.move {ser : Serializer} {cfg : AppConfig} {b b' : Backlog}
    {seen : List SinkObservation} (hmove : Moves ser cfg b seen b') (h : WithinSize cfg b) :
    WithinSize cfg b' := by
  cases hmove with
  | retried evt retry items => exact Nat.le_of_succ_le h
  | spoiled evt retry items => exact Nat.le_of_succ_le h
  | buffered evt retry items hroom =>
    have hless := h.room_iff.mp hroom
    unfold WithinSize
    rw [List.length_append,List.length_singleton]
    exact hless
  | _ => exact h

/-- Both paths hand over the event's own key and payload. -/
theorem Moves.messages {ser : Serializer} {cfg : AppConfig} {b b' : Backlog}
    {seen : List SinkObservation} (hmove : Moves ser cfg b seen b') :
    seen.filterMap publishedMessage=(seen.filterMap publishedEvent).map (messageFor ser) := by
  cases hmove <;> rfl

/-- An event is dropped only while the buffer holds all it may. -/
theorem Moves.dropped_full {ser : Serializer} {cfg : AppConfig} {b b' : Backlog}
    {seen : List SinkObservation} (hmove : Moves ser cfg b seen b') (h : WithinSize cfg b)
    {evt : FlowEvent} (hevt : .discarded evt∈seen) :
    b.retry.length=cfg.srBufferSize.toInt.toNat := by
  cases hmove with
  | discarded evt retry items hfull =>
    have hnone := h.room_iff.not.mp hfull
    exact le_antisymm h (Nat.not_lt.mp hnone)
  | _ => simp at hevt

/-- One `avro_serialization_errors` increment for each event given up. -/
theorem tally_spoiled (trace : List SinkObservation) :
    tally serializationErrors trace=(trace.filterMap spoiledEvent).length := by
  induction trace with
  | nil => rfl
  | cons o trace ih =>
    have hcons : tally serializationErrors (o::trace)=
        serializationErrors o+tally serializationErrors trace := rfl
    rw [hcons,ih,List.filterMap_cons]
    cases o with
    | unserializable path evt => exact Nat.add_comm _ _
    | _ => exact Nat.zero_add _

/-- What the history says about the sink, whatever the queue stores. -/
structure History (ser : Serializer) (cfg : AppConfig) (s : SinkThread)
    (history : List SinkObservation) (items : List FlowEvent) : Prop where
  /-- The queue stores the items. -/
  stores : Stores s.queue items
  /-- Everything popped is accounted for. -/
  pops : AccountsPops (backlog s items) history
  /-- Waiting events are in the order of the pops. -/
  order : InPopOrder (backlog s items) history
  /-- The buffer is within its size. -/
  within : WithinSize cfg (backlog s items)
  /-- Every message was its event's own. -/
  messages : history.filterMap publishedMessage=
    (history.filterMap publishedEvent).map (messageFor ser)

/-- The history of every run. -/
theorem run_history (ser : Serializer) (cfg : AppConfig) (inputs : List SinkInput) :
    ∃ items,History ser cfg (sinkAfter ser cfg inputs) (sinkTrace ser cfg inputs) items := by
  have hinitial : ∃ items,History ser cfg .initial [] items :=
    ⟨[],stores_initial _,List.Perm.refl _,List.Sublist.refl _,Nat.zero_le _,rfl⟩
  have hstep : ∀ s history input,(∃ items,History ser cfg s history items) →
      ∃ items,History ser cfg ((sinkMachine ser cfg).step s input).1
        (history++((sinkMachine ser cfg).step s input).2) items := by
    rintro s history input ⟨items,h⟩
    obtain ⟨items',hstores,hmove⟩ := step_moves ser cfg h.stores input
    refine ⟨items',hstores,h.pops.move hmove,h.order.move hmove,h.within.move hmove,?_⟩
    rw [List.filterMap_append,List.filterMap_append,List.map_append,h.messages,
      Moves.messages hmove]
  exact Machine.history_invariant (sinkMachine ser cfg) hstep hinitial inputs

/-- The account of the popped events between two rounds of the outer loop. -/
structure PopsSettled (ser : Serializer) (cfg : AppConfig) (s : SinkThread)
    (trace : List SinkObservation) : Prop where
  /-- Popped events are published, given up, dropped or waiting. -/
  split : (trace.filterMap poppedEvent).Perm
    (trace.filterMap publishedEvent++(trace.filterMap spoiledEvent++
      (trace.filterMap discardedEvent++s.retryBuf)))
  /-- Published with the event's own key and payload on either path. -/
  messages : trace.filterMap publishedMessage=
    (trace.filterMap publishedEvent).map (messageFor ser)
  /-- Given up with one increment each. -/
  counted : s.metrics.avroSerializationErrors=(trace.filterMap spoiledEvent).length
  /-- The buffer never holds more than `sr_buffer_size` events. -/
  within : s.retryBuf.length≤cfg.srBufferSize.toInt.toNat
  /-- It keeps them in the order of the pops. -/
  order : s.retryBuf.Sublist (trace.filterMap poppedEvent)

/-- At every head of the outer loop the popped events are settled or wait in
the retry buffer. An event is dropped only while that buffer is full. -/
theorem pops_settled (ser : Serializer) (cfg : AppConfig) (inputs : List SinkInput) :
    ((sinkAfter ser cfg inputs).pc=.loopHead →
      PopsSettled ser cfg (sinkAfter ser cfg inputs) (sinkTrace ser cfg inputs)) ∧
    (sinkAfter ser cfg inputs).retryBuf.length≤cfg.srBufferSize.toInt.toNat ∧
    (sinkAfter ser cfg inputs).retryBuf.Sublist
      ((sinkTrace ser cfg inputs).filterMap poppedEvent) ∧
    ∀ input evt,
      .discarded evt∈((sinkMachine ser cfg).step (sinkAfter ser cfg inputs) input).2 →
        (sinkAfter ser cfg inputs).retryBuf.length=cfg.srBufferSize.toInt.toNat := by
  obtain ⟨items,h⟩ := run_history ser cfg inputs
  have horder := (List.sublist_append_left _ _).trans h.order
  refine ⟨fun hhead => ?_,h.within,horder,fun input evt hevt => ?_⟩
  · have hsplit := h.pops
    have hcounted := (run_adds ser cfg inputs).errors
    unfold AccountsPops backlog at hsplit
    rw [hhead] at hsplit
    refine ⟨?_,h.messages,?_,h.within,horder⟩
    · simpa only [inHand,List.append_nil] using hsplit
    · rw [hcounted,tally_spoiled]
      exact Nat.zero_add _
  · obtain ⟨items',_,hmove⟩ := step_moves ser cfg h.stores input
    exact Moves.dropped_full hmove h.within hevt

/-- An event refused once and published on the retry path. -/
theorem pops_settled_retried :
    PopsSettled blankSerializer {}
      (sinkAfter blankSerializer {} [.push lastStart,.sink {},.sink {},.sink {},
        .sink {produces := false},.sink {},.sink {},.sink {},.sink {},.sink {},.sink {},.sink {}])
      (sinkTrace blankSerializer {} [.push lastStart,.sink {},.sink {},.sink {},
        .sink {produces := false},.sink {},.sink {},.sink {},.sink {},.sink {},.sink {},
        .sink {}]) :=
  (pops_settled blankSerializer {} [.push lastStart,.sink {},.sink {},.sink {},
    .sink {produces := false},.sink {},.sink {},.sink {},.sink {},.sink {},.sink {},
    .sink {}]).1 (by decide)

/-- `produce` calls that librdkafka refused. -/
def refusals : SinkObservation → ℕ
  | .produced _ _ _ accepted => (!accepted).toNat
  | _ => 0

/-- Delivery reports that carried an error. -/
def errorReports : SinkObservation → ℕ
  | .reports failed => failed
  | _ => 0

/-- Events dropped at a full retry buffer. -/
def drops : SinkObservation → ℕ
  | .discarded _ => 1
  | _ => 0

/-- Delivery errors are refusals, error reports and drops. -/
theorem tally_deliveryErrors (trace : List SinkObservation) :
    tally deliveryErrors trace=tally refusals trace+tally errorReports trace+tally drops trace := by
  induction trace with
  | nil => rfl
  | cons o trace ih =>
    have hcons : ∀ number : SinkObservation → ℕ,
        tally number (o::trace)=number o+tally number trace := fun _ => rfl
    have hone : deliveryErrors o=refusals o+errorReports o+drops o := by
      cases o <;> simp [deliveryErrors,refusals,errorReports,drops]
    rw [hcons,hcons,hcons,hcons,hone,ih]
    omega

/-- The metrics count each occurrence once. -/
structure CountedOnce (m : Metrics) (trace : List SinkObservation) : Prop where
  /-- Accepted `produce` calls. -/
  produced : m.kafkaMessagesProduced=tally publications trace
  /-- Refused `produce` calls and error reports. -/
  deliveryErrors : m.kafkaDeliveryErrors=tally refusals trace+tally errorReports trace
  /-- Events given up as unserialisable. -/
  errors : m.avroSerializationErrors=tally serializationErrors trace
  /-- Events accepted on the retry path. -/
  retried : m.schemaRegistryRetries=tally retries trace

/-- The step refuses a popped event while the retry buffer has no room. -/
def dropsEvent (cfg : AppConfig) (s : SinkThread) : SinkInput → Bool
  | .push _ => false
  | .requestStop => false
  | .sink answer =>
    match s.pc with
    | .attempting _ =>
      answer.serializes && !answer.produces &&
        !decide (Int32.ofNat s.retryBuf.length<cfg.srBufferSize)
    | .loopHead => false
    | .retrying => false
    | .firstPop => false
    | .secondPop => false
    | .polling => false
    | .left => false

/-- Only such a turn drops an event. -/
theorem SinkStep.dropped {ser : Serializer} {cfg : AppConfig} {answer : Answer}
    {s s' : SinkThread} {seen : List SinkObservation} (hstep : SinkStep ser cfg answer s s' seen) :
    tally drops seen=(dropsEvent cfg s (.sink answer)).toNat := by
  cases hstep with
  | missed next hpc => rcases hpc with ⟨hpc,_⟩ | ⟨hpc,_⟩ <;> rw [dropsEvent,hpc] <;> rfl
  | popped hpc => rcases hpc with hpc | hpc <;> rw [dropsEvent,hpc] <;> rfl
  | direct evt hpc hserializes hproduces => simp [dropsEvent,hpc,hproduces,tally,drops]
  | unserializable evt hpc hserializes => simp [dropsEvent,hpc,hserializes,tally,drops]
  | buffered evt hpc hserializes hproduces hroom => simp [dropsEvent,hpc,hroom,tally,drops]
  | discarded evt hpc hserializes hproduces hfull =>
    simp [dropsEvent,hpc,hserializes,hproduces,hfull,tally,drops]
  | _ hpc => rw [dropsEvent,hpc]; rfl

/-- Only such a step drops an event. -/
theorem step_drops (ser : Serializer) (cfg : AppConfig) (s : SinkThread) (input : SinkInput) :
    tally drops ((sinkMachine ser cfg).step s input).2=(dropsEvent cfg s input).toNat := by
  cases input with
  | push evt => rfl
  | requestStop => rfl
  | sink answer => exact SinkStep.dropped (sinkStep_step ser cfg answer s)

/-- No step of the run drops an event. -/
abbrev NeverDrops (ser : Serializer) (cfg : AppConfig) (inputs : List SinkInput) : Prop :=
  (sinkMachine ser cfg).Along (fun s input => dropsEvent cfg s input=false) .initial inputs

/-- Nothing is dropped in a run exactly when no step drops an event. -/
theorem run_drops (ser : Serializer) (cfg : AppConfig) (s : SinkThread) (inputs : List SinkInput) :
    tally drops ((sinkMachine ser cfg).trace s inputs)=0 ↔
      (sinkMachine ser cfg).Along (fun s input => dropsEvent cfg s input=false) s inputs := by
  induction inputs generalizing s with
  | nil => exact iff_of_true rfl trivial
  | cons input inputs ih =>
    rw [Machine.trace_cons,tally_append,step_drops,Machine.Along,←ih,Nat.add_eq_zero_iff]
    cases dropsEvent cfg s input <;> simp

/-- At every point of every run the metrics count each occurrence once exactly
when no popped event was refused while the retry buffer had no room. -/
theorem counted_once_iff (ser : Serializer) (cfg : AppConfig) (inputs : List SinkInput) :
    CountedOnce (sinkAfter ser cfg inputs).metrics (sinkTrace ser cfg inputs) ↔
      NeverDrops ser cfg inputs := by
  have hadds := run_adds ser cfg inputs
  have herrors : (sinkAfter ser cfg inputs).metrics.kafkaDeliveryErrors=
      tally refusals (sinkTrace ser cfg inputs)+tally errorReports (sinkTrace ser cfg inputs)+
        tally drops (sinkTrace ser cfg inputs) := by
    rw [hadds.dropped,tally_deliveryErrors]
    exact Nat.zero_add _
  have hdrops : tally drops (sinkTrace ser cfg inputs)=0 ↔ NeverDrops ser cfg inputs :=
    run_drops ser cfg .initial inputs
  rw [←hdrops]
  constructor
  · intro h
    have honce := h.deliveryErrors
    omega
  · intro hnone
    constructor
    · rw [hadds.produced]
      exact Nat.zero_add _
    · omega
    · rw [hadds.errors]
      exact Nat.zero_add _
    · rw [hadds.retried]
      exact Nat.zero_add _

/-- One place in the retry buffer: the first event takes it, is refused again,
and the second is refused and dropped before the next head of the loop. -/
def crowdedInputs : List SinkInput :=
  [.push lastStart,.push {lastStart with type := .flowEnd},
    .sink {},.sink {},.sink {},.sink {produces := false},.sink {},
    .sink {},.sink {produces := false},.sink {},.sink {produces := false},.sink {}]

/-- Three `produce` calls were refused, and four delivery errors are counted. -/
theorem refusal_counted_twice :
    (sinkAfter blankSerializer {srBufferSize := 1} crowdedInputs).pc=.loopHead ∧
      tally refusals (sinkTrace blankSerializer {srBufferSize := 1} crowdedInputs)=3 ∧
      tally errorReports (sinkTrace blankSerializer {srBufferSize := 1} crowdedInputs)=0 ∧
      (sinkAfter blankSerializer {srBufferSize := 1} crowdedInputs).metrics.kafkaDeliveryErrors=4 ∧
      ¬CountedOnce (sinkAfter blankSerializer {srBufferSize := 1} crowdedInputs).metrics
        (sinkTrace blankSerializer {srBufferSize := 1} crowdedInputs) := by
  refine ⟨by decide,by decide,by decide,by decide,fun h => ?_⟩
  exact absurd h.deliveryErrors (by decide)

end PacketPipe.KafkaSinkAccounts

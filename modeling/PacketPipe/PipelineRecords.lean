import PacketPipe.AvroWireFormat
import PacketPipe.KafkaSinkOrdering
import PacketPipe.PipelineShutdown

/-!
# What a consumer of the topic reads

The program with the Avro serializer, from the frames that libpcap delivers to
the records that a consumer decodes from the messages on the topic. Every record
tells of packets that were delivered; for every flow the counts of its End
records and of what has not come out add up to its packets; and as long as Kafka
takes what it is given, the records of a flow are its sessions.
-/

namespace PacketPipe.PipelineRecords

open FlowEvents ConfigParserModel ObservedMachines BoundedFifos LockedCalls SessionTraces
open FlowTableModel FlowLifetimes FlowTableShutdown FlowTableCallbacks FlowAccounting
open FlowEventOrder EventQueueModel EventQueueRefinement
open KafkaSinkModel KafkaSinkDelivery KafkaSinkAccounts KafkaSinkOrdering CaptureSourceModel
open AvroBinary AvroSerializerModel AvroGenericData AvroWireFormat AddressTexts FlowIdText
open PipelineModel PipelineCalls PipelineSimulation PipelineRuns PipelineOrder PipelineDelivery
open PipelineShutdown

section Consumer

variable {δ : Type} (api : GenericApi δ) (ntop : InetNtop) (schemaId : Int32)

/-- The serializer of the program, with the committed schema. -/
def avroSerializer : Serializer where
  flowId := flowId ntop
  serialize evt :=
    match serialize api ntop evt flowEventSchema schemaId with
    | .ok bytes => bytes
    | .error _ => []

/-- The record in a message: behind the magic byte and the four bytes of the
schema id, decoded to the end by the committed schema. -/
def consumed (msg : Message) : Option FlowEventRecord :=
  match msg.payload with
  | 0x00::_::_::_::_::payload =>
    match decode flowEventSchema payload with
    | some (datum,[]) => readRecord datum
    | _ => none
  | _ => none

/-- The message of an event has its record. -/
theorem consumed_message {api : GenericApi δ} (hapi : api.Documented) (evt : FlowEvent) :
    consumed (messageFor (avroSerializer api ntop schemaId) evt)=
      some (expectedRecord ntop evt) := by
  simp only [consumed,messageFor,avroSerializer,serialize_eq ntop evt hapi,idBytes,List.cons_append,
    List.nil_append,decode_payload,readRecord_datum]

/-- The records of one flow, by its identifier. -/
def recordsOf (flow : String) (records : List FlowEventRecord) : List FlowEventRecord :=
  records.filter fun record => record.flowId=flow

/-- The identifier tells the flows apart. -/
theorem recordsOf_expected {ntop : InetNtop} (h : Documented ntop) (key : FlowKey)
    (evts : List FlowEvent) :
    recordsOf (flowId ntop key) (evts.map (expectedRecord ntop))=
      (ofFlow key evts).map (expectedRecord ntop) := by
  rw [recordsOf,ofFlow,List.filter_map]
  congr 1
  refine List.filter_congr fun evt _ => ?_
  rw [Function.comp_apply,expectedRecord]
  exact decide_eq_decide.mpr (flowId_injective h).eq_iff

/-- A counter of the flow states, and the field of the records that carries it. -/
inductive Carries : Counter → (FlowEventRecord → Int64) → Prop
  | packets : Carries packetCounter FlowEventRecord.packetCount
  | bytes : Carries byteCounter FlowEventRecord.byteCount

/-- A field summed over the records of ended flows. -/
def ended (read : FlowEventRecord → Int64) (records : List FlowEventRecord) : ℕ :=
  (records.map fun record =>
    if record.eventType="FLOW_END" then (read record).toUInt64.toNat else 0).sum

/-- The records carry the counters of the events. -/
theorem ended_expected {c : Counter} {read : FlowEventRecord → Int64} (h : Carries c read)
    (ntop : InetNtop) (evts : List FlowEvent) :
    ended read (evts.map (expectedRecord ntop))=endsTotal c evts := by
  rw [ended,endsTotal,List.map_map]
  congr 1
  refine List.map_congr_left fun evt _ => ?_
  have htype : (expectedRecord ntop evt).eventType="FLOW_END" ↔ evt.type=.flowEnd :=
    symbolOf_injective.eq_iff (b:=.flowEnd)
  have hread : (read (expectedRecord ntop evt)).toUInt64=c.read evt.state := by
    cases h with
    | packets => exact UInt64.toUInt64_toInt64 _
    | bytes => exact UInt64.toUInt64_toInt64 _
  rw [Function.comp_apply,hread]
  by_cases hend : evt.type=.flowEnd
  · rw [if_pos (htype.mpr hend),if_pos hend]
  · rw [if_neg (htype.not.mpr hend),if_neg hend]

/-- The events that the producer took. -/
def publishedEvents (seen : List PipelineObservation) : List FlowEvent :=
  (seen.filterMap sinkView).filterMap publishedEvent

/-- The messages on the topic. -/
def topic (seen : List PipelineObservation) : List Message :=
  (seen.filterMap sinkView).filterMap publishedMessage

/-- What a consumer reads. -/
def topicRecords (seen : List PipelineObservation) : List FlowEventRecord :=
  (topic seen).filterMap consumed

variable (cfg : AppConfig)

/-- The topic holds the messages of the events published. -/
theorem run_topic (ser : Serializer) (inputs : List ProgramInput) :
    topic (seenOf (programTrace ser cfg inputs))=
      (publishedEvents (seenOf (programTrace ser cfg inputs))).map (messageFor ser) := by
  obtain ⟨items,sinkInputs,_,_,htrace,_⟩ := (run_pipelined ser cfg inputs).follows
  obtain ⟨_,hhistory⟩ := run_history ser cfg sinkInputs
  have hmessages := hhistory.messages
  rw [htrace] at hmessages
  exact hmessages

/-- A consumer reads the records of the events published. -/
theorem run_records {api : GenericApi δ} (hapi : api.Documented) (inputs : List ProgramInput) :
    topicRecords (seenOf (programTrace (avroSerializer api ntop schemaId) cfg inputs))=
      (publishedEvents (seenOf (programTrace (avroSerializer api ntop schemaId) cfg inputs))).map
        (expectedRecord ntop) := by
  rw [topicRecords,run_topic,List.filterMap_map,←List.filterMap_eq_map]
  refine List.filterMap_congr fun evt _ => ?_
  exact consumed_message ntop schemaId hapi evt

end Consumer

section Flows

/-- The End events that one flow sees are those of its events. -/
theorem lifeEnds_view (c : Counter) (key : FlowKey) (trace : List Observation) :
    lifeEnds c (trace.filterMap (lifeView key))=endsTotal c (ofFlow key (emissions trace)) := by
  induction trace with
  | nil => rfl
  | cons o trace ih =>
    cases o with
    | counted pkt =>
      by_cases hkey : keyFromPacket pkt=key <;>
        simpa [lifeEnds,lifeView,hkey,emissions,List.filterMap_cons,emittedEvent] using ih
    | dropped pkt warned => exact ih
    | emitted evt accepted =>
      by_cases hkey : evt.state.key=key <;>
        simpa [lifeEnds,endsTotal,ofFlow,lifeView,hkey,emissions,emittedEvent] using ih

/-- The packets of a flow. -/
def packetsFor (key : FlowKey) (pkts : List ParsedPacket) : List ParsedPacket :=
  pkts.filter fun pkt => keyFromPacket pkt=key

/-- The packets that one flow sees are its counted ones. -/
theorem lifeWeight_view (c : Counter) (key : FlowKey) (trace : List Observation) :
    lifeWeight c (trace.filterMap (lifeView key))=
      ((packetsFor key (acceptedPackets trace)).map c.weight).sum := by
  induction trace with
  | nil => rfl
  | cons o trace ih =>
    cases o with
    | counted pkt =>
      by_cases hkey : keyFromPacket pkt=key <;>
        simpa [lifeWeight,packetsFor,lifeView,hkey,acceptedPackets,countedPacket] using ih
    | dropped pkt warned => exact ih
    | emitted evt accepted =>
      by_cases hkey : evt.state.key=key <;>
        simpa [lifeWeight,lifeView,hkey,acceptedPackets,List.filterMap_cons,countedPacket]
          using ih

/-- The events of a flow in two lists. -/
theorem ofFlow_append (key : FlowKey) (xs ys : List FlowEvent) :
    ofFlow key (xs++ys)=ofFlow key xs++ofFlow key ys := List.filter_append ..

/-- Every push is accepted or refused. -/
theorem pushes_perm (pushes : List (FlowEvent×Bool)) :
    (pushes.map Prod.fst).Perm
      (pushes.filterMap acceptedPush++pushes.filterMap refusedPush) := by
  induction pushes with
  | nil => exact .nil
  | cons push pushes ih =>
    obtain ⟨evt,ok⟩ := push
    cases ok with
    | true => exact ih.cons evt
    | false => exact (ih.cons evt).trans List.perm_middle.symm

/-- The events given up by the sink, dropped at a full retry buffer and refused
by the queue. -/
def lostEvents (seen : List PipelineObservation) : List FlowEvent :=
  (seen.filterMap sinkView).filterMap spoiledEvent++
    ((seen.filterMap sinkView).filterMap discardedEvent++
      (seen.filterMap pushView).filterMap refusedPush)

/-- The events waiting in the retry buffer, in the sink's hand and queued. -/
def waitingEvents (s : Pipeline) (items : List FlowEvent) : List FlowEvent :=
  s.sink.retryBuf++(inHand s.sink.pc++items)

/-- Every event pushed is published, lost or waiting. -/
theorem whereabouts_perm {s : Pipeline} {seen : List PipelineObservation}
    {items : List FlowEvent} (h : Whereabouts s seen items) :
    ((seen.filterMap pushView).map Prod.fst).Perm
      (publishedEvents seen++(lostEvents seen++waitingEvents s items)) := by
  have haccepted : ((seen.filterMap pushView).filterMap acceptedPush)=
      dequeued (seen.filterMap queueView)++items := by
    rw [←enqueued_pushes,h.queue]
  refine (pushes_perm _).trans ?_
  rw [haccepted,List.perm_iff_count]
  intro evt
  have hsink := (List.perm_iff_count.mp h.sink) evt
  simp only [publishedEvents,lostEvents,waitingEvents,List.count_append] at hsink ⊢
  omega

variable (ser : Serializer) (cfg : AppConfig)

/-- For every flow, at every moment: the packets counted by the calls that have
returned, with what the call in progress has pushed, are in the End events
published, lost and waiting, and in the entry of the table. -/
theorem flow_conserves (c : Counter) (inputs : List ProgramInput) :
    let p := programAfter ser cfg inputs
    let seen := seenOf (programTrace ser cfg inputs)
    ∃ items,Whereabouts p.threads.shared seen items ∧ ∀ key,
      endsTotal c (ofFlow key (publishedEvents seen))+
          endsTotal c (ofFlow key (lostEvents seen++waitingEvents p.threads.shared items))+
          held c (p.threads.shared.table.flows.lookup key)≡
        ((packetsFor key (acceptedPackets (seen.filterMap tableView))).map c.weight).sum+
          endsTotal c (ofFlow key ((inCallPushes cfg p.threads.single).map Prod.fst))
            [MOD 2^64] := by
  intro p seen
  obtain ⟨answers,htable⟩ := (run_pipelined ser cfg inputs).serial.table
  obtain ⟨htrace,halike,_⟩ := htable []
  have hpushes := (run_pipelined ser cfg inputs).serial.pushes
  obtain ⟨items,hwhere⟩ := run_whereabouts ser cfg inputs
  refine ⟨items,hwhere,fun key => ?_⟩
  have hflows : (tableAfter cfg answerFrom (answers++[])
      (callsOf (programTrace ser cfg inputs))).flows=p.threads.shared.table.flows := halike.flows
  have hconserves := key_conserves cfg answerFrom c (answers++[])
    (callsOf (programTrace ser cfg inputs)) key
  rw [htrace,hflows,lifeEnds_view,lifeWeight_view,emissions_pushes] at hconserves
  have hpushed : endsTotal c (ofFlow key ((seen.filterMap pushView).map Prod.fst))=
      endsTotal c (ofFlow key (((seen.filterMap tableView).filterMap emittedPush).map Prod.fst))+
        endsTotal c (ofFlow key ((inCallPushes cfg p.threads.single).map Prod.fst)) := by
    rw [hpushes,List.map_append,ofFlow_append,endsTotal_append]
  have hperm := endsTotal_perm c ((whereabouts_perm hwhere).filter fun evt => evt.state.key=key)
  rw [←ofFlow,←ofFlow,ofFlow_append,endsTotal_append,hpushed] at hperm
  rw [←hperm,Nat.add_right_comm]
  exact hconserves.add_right _

end Flows

section Packets

/-- The packets of a lifetime are packets of the flow that were counted, in
their order. -/
theorem lifetimePackets_sublist (key : FlowKey) (trace : List Observation) :
    (lifetimePackets key trace).Sublist (packetsFor key (acceptedPackets trace)) := by
  induction trace using List.reverseRecOn with
  | nil => exact .slnil
  | append_singleton trace o ih =>
    unfold lifetimePackets at ih ⊢
    rw [List.foldl_append,acceptedPackets,List.filterMap_append,packetsFor,List.filter_append]
    cases o with
    | counted pkt =>
      by_cases hkey : keyFromPacket pkt=key
      · simp only [List.foldl_cons,List.foldl_nil,if_pos hkey]
        refine ih.append ?_
        simp [countedPacket,hkey]
      · simp only [List.foldl_cons,List.foldl_nil,if_neg hkey]
        exact ih.trans (List.sublist_append_left _ _)
    | dropped pkt warned => exact ih.trans (List.sublist_append_left _ _)
    | emitted evt accepted =>
      simp only [List.foldl_cons,List.foldl_nil]
      refine List.Sublist.trans ?_ (List.sublist_append_left _ _)
      split
      next =>
        refine List.Sublist.trans ?_ ih
        cases hlast : (List.getLast? _ : Option ParsedPacket) with
        | none => exact List.nil_sublist _
        | some pkt => exact List.singleton_sublist.mpr (List.mem_of_getLast? hlast)
      next => exact ih

/-- What is counted is handled. -/
theorem accepted_handled (trace : List Observation) :
    (acceptedPackets trace).Sublist (trace.filterMap handled) := by
  induction trace with
  | nil => exact .slnil
  | cons o trace ih =>
    cases o with
    | counted pkt => exact ih.cons_cons pkt
    | dropped pkt warned => exact ih.cons pkt
    | emitted evt accepted => exact ih

/-- Every event that a table emits aggregates packets that were offered to it. -/
theorem emissions_aggregate {σ : Type} (cfg : AppConfig) (onEvent : EventCallback σ) (sink : σ)
    (calls : List Call) {evt : FlowEvent}
    (hevt : evt∈emissions (tableTrace cfg onEvent sink calls)) :
    ∃ pkts,pkts.Sublist (packetsFor evt.state.key (calls.filterMap offered)) ∧
      Aggregates evt.state.key pkts evt.state := by
  obtain ⟨o,ho,hemitted⟩ := List.mem_filterMap.mp hevt
  cases o with
  | counted pkt => cases hemitted
  | dropped pkt warned => cases hemitted
  | emitted evt' accepted =>
    cases hemitted
    obtain ⟨earlier,later,hsplit⟩ := List.append_of_mem ho
    have hview : lifeView evt.state.key (.emitted evt accepted)=some (.event evt) := if_pos rfl
    have hevents := (run_accounted cfg onEvent sink calls evt.state.key).events
      (earlier.filterMap (lifeView evt.state.key)) evt
      (later.filterMap (lifeView evt.state.key))
      (by rw [hsplit,List.filterMap_append,List.filterMap_cons_some hview])
    refine ⟨lifetimePackets evt.state.key (earlier++[.emitted evt accepted]),?_,?_⟩
    · have hfront : (earlier++[Observation.emitted evt accepted]).Sublist
          (tableTrace cfg onEvent sink calls) := by
        rw [hsplit]
        exact (List.Sublist.refl earlier).append ((List.nil_sublist later).cons_cons _)
      have hoffered := (accepted_handled _).trans (hfront.filterMap handled)
      rw [tableTrace,run_handled] at hoffered
      exact (lifetimePackets_sublist _ _).trans (hoffered.filter _)
    · rw [lifetimePackets_eq,List.filterMap_append,List.filterMap_cons_some hview]
      exact hevents

variable {δ : Type} {api : GenericApi δ} (ntop : InetNtop) (schemaId : Int32) (cfg : AppConfig)

/-- For every schedule: a consumer decodes every message of the topic, and its
key is the identifier in the record. Every record tells of a flow's packets: they
were delivered in this order, its start is the timestamp of the first of them,
and its counts are their number and their wire length modulo 2^64. -/
theorem topic_tells_packets (hapi : api.Documented) (inputs : List ProgramInput) :
    let trace := programTrace (avroSerializer api ntop schemaId) cfg inputs
    (∀ msg∈topic (seenOf trace),∃ record,consumed msg=some record ∧ msg.key=record.flowId) ∧
      ∀ record∈topicRecords (seenOf trace),∃ (key : FlowKey) (pkts : List ParsedPacket),
        record.flowId=flowId ntop key ∧
          pkts.Sublist (packetsFor key (packetsOf trace)) ∧
          (pkts.head?.map ParsedPacket.timestampUs)=some record.startTimestampUs ∧
          record.packetCount.toUInt64.toNat=pkts.length%2^64 ∧
          record.byteCount.toUInt64.toNat=
            (pkts.map fun pkt => pkt.wireLength.toNat).sum%2^64 := by
  intro trace
  refine ⟨fun msg hmsg => ?_,fun record hrecord => ?_⟩
  · rw [run_topic] at hmsg
    obtain ⟨evt,_,rfl⟩ := List.mem_map.mp hmsg
    exact ⟨_,consumed_message ntop schemaId hapi evt,rfl⟩
  · rw [run_records ntop schemaId cfg hapi] at hrecord
    obtain ⟨evt,hevt,rfl⟩ := List.mem_map.mp hrecord
    obtain ⟨items,hwhere⟩ := run_whereabouts (avroSerializer api ntop schemaId) cfg inputs
    obtain ⟨answers,calls,hfront,hoffered⟩ :=
      pushes_front (avroSerializer api ntop schemaId) cfg inputs
    have hpushed := (whereabouts_perm hwhere).mem_iff.mpr (List.mem_append_left _ hevt)
    obtain ⟨pkts,hsub,_,hstart,hcount,hbytes⟩ :=
      emissions_aggregate cfg answerFrom answers calls (hfront.subset hpushed)
    refine ⟨evt.state.key,pkts,rfl,hsub.trans (hoffered.sublist.filter _),hstart,?_,?_⟩
    · rw [expectedRecord,UInt64.toUInt64_toInt64]
      exact hcount
    · rw [expectedRecord,UInt64.toUInt64_toInt64]
      exact hbytes

/-- The two records of one datagram. -/
theorem topic_tells_packets_delivered :
    let trace := programTrace (avroSerializer plainData plainNtop 42) {}
      (deliveredInputs++(List.range 145).map turnsInTurn)
    (publishedEvents (seenOf trace)).length=2 ∧
      (∀ msg∈topic (seenOf trace),∃ record,consumed msg=some record ∧ msg.key=record.flowId) ∧
      ∀ record∈topicRecords (seenOf trace),∃ (key : FlowKey) (pkts : List ParsedPacket),
        record.flowId=flowId plainNtop key ∧
          pkts.Sublist (packetsFor key (packetsOf trace)) ∧
          (pkts.head?.map ParsedPacket.timestampUs)=some record.startTimestampUs ∧
          record.packetCount.toUInt64.toNat=pkts.length%2^64 ∧
          record.byteCount.toUInt64.toNat=
            (pkts.map fun pkt => pkt.wireLength.toNat).sum%2^64 :=
  ⟨by decide +kernel,topic_tells_packets plainNtop 42 {} plainData_documented
    (deliveredInputs++(List.range 145).map turnsInTurn)⟩

end Packets

section Topic

variable {δ : Type} {api : GenericApi δ} {ntop : InetNtop}

/-- For every schedule, at every moment and for every flow, packets and bytes:
the counts in the flow's End records on the topic, in its End events lost and
waiting and in its entry of the table add up modulo 2^64 to its packets counted
by the calls that have returned, and what the call in progress has pushed of it.
During a call the table is the one that the calls before it left. -/
theorem topic_conserves (hapi : api.Documented) (h : Documented ntop) (schemaId : Int32)
    (cfg : AppConfig) (inputs : List ProgramInput) :
    let p := programAfter (avroSerializer api ntop schemaId) cfg inputs
    let seen := seenOf (programTrace (avroSerializer api ntop schemaId) cfg inputs)
    ∃ items,Stores p.threads.shared.sink.queue items ∧ ∀ c read key,Carries c read →
      ended read (recordsOf (flowId ntop key) (topicRecords seen))+
          endsTotal c (ofFlow key (lostEvents seen++waitingEvents p.threads.shared items))+
          held c (p.threads.shared.table.flows.lookup key)≡
        ((packetsFor key (acceptedPackets (seen.filterMap tableView))).map c.weight).sum+
          endsTotal c (ofFlow key ((inCallPushes cfg p.threads.single).map Prod.fst))
            [MOD 2^64] := by
  intro p seen
  obtain ⟨items,hwhere,_⟩ :=
    flow_conserves (avroSerializer api ntop schemaId) cfg packetCounter inputs
  refine ⟨items,hwhere.stores,fun c read key hcarries => ?_⟩
  obtain ⟨items',hwhere',hflow⟩ := flow_conserves (avroSerializer api ntop schemaId) cfg c inputs
  have hitems : items'=items := by
    have hqueue := hwhere'.queue.symm.trans hwhere.queue
    exact List.append_cancel_left hqueue
  subst hitems
  rw [run_records ntop schemaId cfg hapi,recordsOf_expected h,ended_expected hcarries]
  exact hflow key

/-- The two records of one datagram are on the topic. -/
theorem topic_conserves_delivered :
    let inputs := deliveredInputs++(List.range 145).map turnsInTurn
    let p := programAfter (avroSerializer plainData plainNtop 42) {} inputs
    let seen := seenOf (programTrace (avroSerializer plainData plainNtop 42) {} inputs)
    (publishedEvents seen).length=2 ∧
      ∃ items,Stores p.threads.shared.sink.queue items ∧ ∀ c read key,Carries c read →
        ended read (recordsOf (flowId plainNtop key) (topicRecords seen))+
            endsTotal c (ofFlow key (lostEvents seen++waitingEvents p.threads.shared items))+
            held c (p.threads.shared.table.flows.lookup key)≡
          ((packetsFor key (acceptedPackets (seen.filterMap tableView))).map c.weight).sum+
            endsTotal c (ofFlow key ((inCallPushes {} p.threads.single).map Prod.fst))
              [MOD 2^64] :=
  ⟨by decide +kernel,topic_conserves plainData_documented plainNtop_documented 42 {}
    (deliveredInputs++(List.range 145).map turnsInTurn)⟩

/-- An observation of a sink that Kafka or the serializer lets down. -/
def troubled : SinkObservation → Bool
  | .produced _ _ _ accepted => !accepted
  | .unserializable _ _ => true
  | _ => false

/-- As long as nothing lets the sink down it publishes what it pops, and keeps
nothing back. -/
structure Smooth (b : Backlog) (history : List SinkObservation) : Prop where
  /-- Nothing waits. -/
  retry : b.retry=[]
  /-- Everything popped is published but for the event in hand. -/
  popped : history.filterMap poppedEvent=history.filterMap publishedEvent++b.hand

/-- So it goes on. -/
theorem Smooth.move {ser : Serializer} {cfg : AppConfig} {b b' : Backlog}
    {seen history : List SinkObservation} (hmove : Moves ser cfg b seen b')
    (hcalm : ∀ o∈seen,troubled o=false) (h : Smooth b history) : Smooth b' (history++seen) := by
  obtain ⟨hretry,hpopped⟩ := h
  refine ⟨?_,?_⟩
  · cases hmove with
    | retried evt retry items => cases hretry
    | spoiled evt retry items => cases hretry
    | buffered evt retry items hroom => cases hcalm _ List.mem_cons_self
    | _ => exact hretry
  · rw [List.filterMap_append,List.filterMap_append,hpopped]
    cases hmove with
    | retried evt retry items => cases hretry
    | spoiled evt retry items => cases hretry
    | unserializable evt retry items => cases hcalm _ List.mem_cons_self
    | buffered evt retry items hroom => cases hcalm _ List.mem_cons_self
    | discarded evt retry items hfull => cases hcalm _ List.mem_cons_self
    | popped evt retry items => simp [poppedEvent,publishedEvent]
    | direct evt retry items => simp [poppedEvent,publishedEvent]
    | _ => simp [List.filterMap_cons,poppedEvent,publishedEvent]

/-- Every run of the sink is smooth as long as nothing lets it down. -/
theorem run_smooth (ser : Serializer) (cfg : AppConfig) (inputs : List SinkInput)
    (hcalm : ∀ o∈sinkTrace ser cfg inputs,troubled o=false) :
    ∃ items,Smooth (backlog (sinkAfter ser cfg inputs) items) (sinkTrace ser cfg inputs) := by
  have hstep : ∀ s history input,
      ((∀ o∈history,troubled o=false) →
        ∃ items,Stores s.queue items ∧ Smooth (backlog s items) history) →
      (∀ o∈history++((sinkMachine ser cfg).step s input).2,troubled o=false) →
        ∃ items,Stores ((sinkMachine ser cfg).step s input).1.queue items ∧
          Smooth (backlog ((sinkMachine ser cfg).step s input).1 items)
            (history++((sinkMachine ser cfg).step s input).2) := by
    intro s history input hsmooth hcalm
    obtain ⟨items,hstores,h⟩ := hsmooth fun o ho => hcalm o (List.mem_append_left _ ho)
    obtain ⟨items',hstores',hmove⟩ := step_moves ser cfg hstores input
    exact ⟨items',hstores',h.move hmove fun o ho => hcalm o (List.mem_append_right _ ho)⟩
  have hrun := Machine.history_invariant (sinkMachine ser cfg) (h:=[])
    (P:=fun s history => (∀ o∈history,troubled o=false) →
      ∃ items,Stores s.queue items ∧ Smooth (backlog s items) history)
    hstep (s:=.initial) (fun _ => ⟨[],stores_initial _,rfl,rfl⟩) inputs
  obtain ⟨items,_,hsmooth⟩ := hrun hcalm
  exact ⟨items,hsmooth⟩

/-- In every run of the program in which nothing lets the sink down, after the
return of `main` everything popped is published. -/
theorem published_all (ser : Serializer) (cfg : AppConfig) (inputs : List ProgramInput)
    (hreturned : (programAfter ser cfg inputs).main=.returned)
    (hcalm : ∀ o∈(seenOf (programTrace ser cfg inputs)).filterMap sinkView,troubled o=false) :
    publishedEvents (seenOf (programTrace ser cfg inputs))=
        ((seenOf (programTrace ser cfg inputs)).filterMap sinkView).filterMap poppedEvent ∧
      (programAfter ser cfg inputs).threads.shared.sink.retryBuf=[] := by
  obtain ⟨items,sinkInputs,_,_,htrace,q,_,hsame⟩ := (run_pipelined ser cfg inputs).follows
  rw [←htrace] at hcalm
  obtain ⟨items',hretry,hpopped⟩ := run_smooth ser cfg sinkInputs hcalm
  have hleft := (run_quiet ser cfg inputs hreturned).left
  have hhand : (backlog (sinkAfter ser cfg sinkInputs) items').hand=[] := by
    rw [hsame]
    exact congrArg inHand hleft
  rw [hhand,htrace,List.append_nil] at hpopped
  rw [hsame] at hretry
  exact ⟨hpopped.symm,hretry⟩

/-- The types in the records of a flow. -/
theorem recordsOf_types (h : Documented ntop) (key : FlowKey) (evts : List FlowEvent) :
    (recordsOf (flowId ntop key) (evts.map (expectedRecord ntop))).map FlowEventRecord.eventType=
      (typesOf key evts).map symbolOf := by
  rw [recordsOf_expected h,List.map_map,typesOf,List.map_map]
  rfl

/-- When `main` has returned without an exception, the queue refused nothing and
nothing let the sink down, then the topic is complete: every packet delivered was
counted or dropped, and for every flow the records are closed sessions of
FLOW_START, FLOW_STATS and FLOW_END whose final counts add up modulo 2^64 to the
flow's packets counted and to their bytes. -/
theorem topic_complete (hapi : api.Documented) (h : Documented ntop) (schemaId : Int32)
    (cfg : AppConfig) (inputs : List ProgramInput)
    (hreturned : (programAfter (avroSerializer api ntop schemaId) cfg inputs).main=.returned)
    (hfailed : (programAfter (avroSerializer api ntop schemaId) cfg inputs).failed=false)
    (hrefused : ((seenOf (programTrace (avroSerializer api ntop schemaId) cfg inputs)).filterMap
      pushView).filterMap refusedPush=[])
    (hcalm : ∀ o∈(seenOf (programTrace (avroSerializer api ntop schemaId) cfg inputs)).filterMap
      sinkView,troubled o=false) :
    let trace := programTrace (avroSerializer api ntop schemaId) cfg inputs
    let observed := (seenOf trace).filterMap tableView
    observed.filterMap handled=packetsOf trace ∧ ∀ key,
      let records := recordsOf (flowId ntop key) (topicRecords (seenOf trace))
      (∃ types : List FlowEventType,records.map FlowEventRecord.eventType=types.map symbolOf ∧
        Shape (types.map tokenOf) false ∧ types.count .flowStart=types.count .flowEnd) ∧
      ∀ c read,Carries c read →
        ended read records≡((packetsFor key (acceptedPackets observed)).map c.weight).sum
          [MOD 2^64] := by
  intro trace observed
  have hhandled := packets_handled (avroSerializer api ntop schemaId) cfg inputs
  rw [(run_quiet _ cfg inputs hreturned).outside .main,Phase.pending,List.filterMap_nil,
    List.append_nil] at hhandled
  refine ⟨hhandled,fun key => ?_⟩
  obtain ⟨⟨answers,htrace,hflows,hemitted⟩,hpopped⟩ := returned_events _ cfg inputs hreturned
  have hpublished := (published_all _ cfg inputs hreturned hcalm).1
  rw [hpopped,accepted_all hrefused] at hpublished
  have hleads := returned_leads _ cfg inputs hreturned hfailed key
  dsimp only
  rw [run_records ntop schemaId cfg hapi,hpublished]
  refine ⟨⟨_,recordsOf_types h key _,shape_of_leads hleads,count_starts hleads⟩,
    fun c read hcarries => ?_⟩
  rw [recordsOf_expected h,ended_expected hcarries,hemitted,←lifeEnds_view]
  have hconserves := key_conserves cfg answerFrom c answers
    (callsOf (programTrace (avroSerializer api ntop schemaId) cfg inputs)) key
  rw [hflows,AList.lookup,run_drained _ cfg inputs hreturned hfailed,List.dlookup_nil,held,
    Nat.add_zero,lifeWeight_view,htrace] at hconserves
  rw [htrace]
  exact hconserves

/-- One datagram makes one session of one packet. -/
theorem topic_complete_delivered :
    let trace := programTrace (avroSerializer plainData plainNtop 42) {}
      (deliveredInputs++(List.range 145).map turnsInTurn)
    let observed := (seenOf trace).filterMap tableView
    observed.filterMap handled=packetsOf trace ∧ ∀ key,
      let records := recordsOf (flowId plainNtop key) (topicRecords (seenOf trace))
      (∃ types : List FlowEventType,records.map FlowEventRecord.eventType=types.map symbolOf ∧
        Shape (types.map tokenOf) false ∧ types.count .flowStart=types.count .flowEnd) ∧
      ∀ c read,Carries c read →
        ended read records≡((packetsFor key (acceptedPackets observed)).map c.weight).sum
          [MOD 2^64] :=
  topic_complete plainData_documented plainNtop_documented 42 {}
    (deliveredInputs++(List.range 145).map turnsInTurn) (by decide +kernel) (by decide +kernel)
    (by decide +kernel) (by decide +kernel)

end Topic

end PacketPipe.PipelineRecords

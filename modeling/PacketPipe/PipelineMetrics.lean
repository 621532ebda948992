import PacketPipe.DropWarnings
import PacketPipe.PipelineRecords

/-!
# What the metrics of the program add up to

The capture thread, the timer thread and the sink thread count what they do, each
in its own place and by hand. What a step of the program adds to the metrics is
read off what is observed of it, for every schedule. Whenever no call is in
progress the frames and the events can then be balanced from the metrics, up to
the events that are stored, and after the return of `main` few are.
-/

namespace PacketPipe.PipelineMetrics

open FlowEvents ConfigParserModel ObservedMachines BoundedFifos LockedCalls
open FlowTableModel FlowTableShutdown FlowTableCallbacks FlowAccounting FlowTableMetrics
open DropWarnings
open EventQueueModel EventQueueRefinement KafkaSinkModel KafkaSinkDelivery KafkaSinkAccounts
open CaptureSourceModel PipelineModel PipelineCalls PipelineSimulation PipelineRuns
open PipelineOrder PipelineDelivery PipelineShutdown PipelineRecords

/-- What the metrics server exports while no call is in progress: the counters of
the Kafka side are those of the sink thread, all others those of the capture and the
timer. A call increments its counters one by one before it returns; here they show
together at its return. -/
def exported (s : Pipeline) : Metrics :=
  {s.table.metrics with
    kafkaMessagesProduced := s.sink.metrics.kafkaMessagesProduced
    kafkaDeliveryErrors := s.sink.metrics.kafkaDeliveryErrors
    avroSerializationErrors := s.sink.metrics.avroSerializationErrors
    schemaRegistryRetries := s.sink.metrics.schemaRegistryRetries}

/-- The frames delivered. -/
def framesOf (trace : List ProgramObservation) : List CapturedFrame := trace.filterMap frameOf

/-- A frame that is no packet. -/
def isSkipped (frame : CapturedFrame) : Bool := (decoded frame).isNone

/-- The frames delivered that are no packets. -/
def skippedFrames (trace : List ProgramObservation) : List CapturedFrame :=
  (framesOf trace).filter isSkipped

/-- What is seen of the table. -/
def tableSeen (trace : List ProgramObservation) : List Observation :=
  (seenOf trace).filterMap tableView

theorem framesOf_append (front back : List ProgramObservation) :
    framesOf (front++back)=framesOf front++framesOf back := List.filterMap_append

theorem skippedFrames_append (front back : List ProgramObservation) :
    skippedFrames (front++back)=skippedFrames front++skippedFrames back := by
  rw [skippedFrames,framesOf_append,List.filter_append]
  rfl

theorem tableSeen_append (front back : List ProgramObservation) :
    tableSeen (front++back)=tableSeen front++tableSeen back := by
  rw [tableSeen,seenOf_append,List.filterMap_append]
  rfl

/-- A frame delivered is a packet or skipped. -/
theorem framesOf_length (trace : List ProgramObservation) :
    (framesOf trace).length=(packetsOf trace).length+(skippedFrames trace).length := by
  rw [skippedFrames,packetsOf,framesOf]
  induction trace.filterMap frameOf with
  | nil => rfl
  | cons frame frames ih =>
    cases hdecoded : decoded frame <;>
      simp [hdecoded,isSkipped] at ih ⊢ <;> omega

section Steps

/-- What the skipped frames add to the metrics. -/
def skipping (count : ℕ) (m : Metrics) : Metrics :=
  {m with packetsDropped := m.packetsDropped+count}

/-- What a step adds to the metrics of the table: what is seen of the table and
the frames skipped. -/
def Meters (p p' : Program) (seen : List ProgramObservation) : Prop :=
  Tallies (skipping (skippedFrames seen).length p.threads.shared.table.metrics)
    p'.threads.shared.table.metrics (tableSeen seen)

/-- A step that leaves the metrics of the table alone and shows neither frames
nor the table. -/
theorem meters_same {p p' : Program} {seen : List ProgramObservation}
    (hsame : p'.threads.shared.table=p.threads.shared.table)
    (hframes : skippedFrames seen=[]) (hseen : tableSeen seen=[]) : Meters p p' seen := by
  unfold Meters
  rw [hsame,hframes,hseen]
  exact .refl _

/-- An access of a push counts nothing. -/
theorem pushStep_tallies (locals : InCall) (pending : List FlowEvent) (s : Pipeline) :
    Tallies s.table.metrics (pushStep locals pending s).1.table.metrics
      ((pushStep locals pending s).2.2.filterMap tableView) := by
  have hnone : (pushStep locals pending s).2.2.filterMap tableView=[] :=
    filterMap_map_none (fun _ => rfl) _
  rw [hnone]
  exact .refl _

/-- A step of a call on the table counts what it shows. -/
theorem callStep_tallies (cfg : AppConfig) (call : Call) (locals : InCall) (s : Pipeline) :
    Tallies s.table.metrics (callStep cfg call locals s).1.table.metrics
      ((callStep cfg call locals s).2.2.filterMap tableView) := by
  have hstep := callStep_step cfg call locals s
  generalize callStep cfg call locals s=stepped at hstep ⊢
  obtain ⟨after,next,later⟩ := stepped
  cases hstep with
  | returns hidle hall =>
    dsimp only
    rw [tableView_table]
    exact call_tallies cfg answerFrom (withSink s.table locals.answers) call
  | pushes evt pending hone hnext => exact pushStep_tallies locals pending s

/-- The sink thread leaves the table alone. -/
theorem sinkTurn_table (ser : Serializer) (cfg : AppConfig) (answer : Answer) (s : Pipeline) :
    (sinkTurn ser cfg answer s).1.table=s.table := by
  have hpop : ∀ missed,(popAccess missed s).1.table=s.table := by
    intro missed
    unfold popAccess
    dsimp only
    split <;> rfl
  unfold sinkTurn
  cases s.sink.pc with
  | loopHead =>
    dsimp only
    split <;> rfl
  | firstPop => exact hpop _
  | secondPop => exact hpop _
  | retrying => rfl
  | attempting evt => rfl
  | polling => rfl
  | left => rfl

/-- The steps of the threads show no frame. -/
theorem framesOf_threads (seen : List (Seen Worker Call PipelineObservation)) :
    framesOf (seen.map .threads)=[] := filterMap_map_none (fun _ => rfl) seen

theorem skippedFrames_threads (seen : List (Seen Worker Call PipelineObservation)) :
    skippedFrames (seen.map .threads)=[] := by
  rw [skippedFrames,framesOf_threads]
  rfl

/-- What the steps of the threads show of the table. -/
theorem tableSeen_did (seen : List PipelineObservation) :
    tableSeen ((seen.map Seen.did).map .threads)=seen.filterMap tableView := by
  rw [tableSeen,seenOf,lockSeen_threads,anonymous_did,(shown_did seen).1]

/-- A turn of a worker that is busy counts what it shows. -/
theorem turn_meters (ser : Serializer) (cfg : AppConfig) (worker : Worker) (p : Program) :
    Meters p (within ser cfg (.turn worker) p).1 (within ser cfg (.turn worker) p).2 := by
  have hstep := lockedMachine_step (pipelineCode ser cfg) p.threads (.turn worker)
  unfold Meters within
  dsimp only
  rw [skippedFrames_threads]
  generalize (lockedMachine (pipelineCode ser cfg)).step p.threads (.turn worker)=stepped
    at hstep ⊢
  generalize singleInputs p.threads (.turn worker)=inputs at hstep
  obtain ⟨after,seen⟩ := stepped
  cases hstep with
  | stays => exact .refl _
  | enters thread call hwaiting hfree => exact .refl _
  | goes thread call locals next hinside hafter =>
    rw [tableSeen_did]
    exact callStep_tallies cfg call locals p.threads.shared
  | leaves thread call locals hinside hafter =>
    have hleft : ∀ seen : List PipelineObservation,
        tableSeen ((seen.map Seen.did++[Seen.left worker call]).map .threads)=
          seen.filterMap tableView := by
      intro seen
      rw [List.map_append,tableSeen_append,tableSeen_did]
      exact List.append_nil _
    refine (congrArg (Tallies _ _) (hleft _)).mpr ?_
    exact callStep_tallies cfg call locals p.threads.shared

/-- Every step of the program counts what it shows. -/
theorem step_meters {ser : Serializer} {cfg : AppConfig} {p p' : Program}
    {seen : List ProgramObservation} (hstep : ProgramStep ser cfg p p' seen) :
    Meters p p' seen := by
  cases hstep with
  | calls worker hbusy => exact turn_meters ser cfg worker p
  | delivers frame pkt hpc houtside hdecoded =>
    refine meters_same rfl ?_ rfl
    rw [skippedFrames,framesOf]
    simp [frameOf,isSkipped,hdecoded]
  | skips frame hdecoded =>
    have hone : skippedFrames (.delivered frame::(within ser cfg (.other .undecodable) p).2)=
        [frame] := by
      have hwithin : (within ser cfg (.other .undecodable) p).2=[] := rfl
      rw [hwithin,skippedFrames,framesOf]
      simp [frameOf,isSkipped,hdecoded]
    unfold Meters
    rw [hone]
    exact .refl _
  | stopsSink hpc houtside => exact meters_same rfl rfl rfl
  | sinks answer =>
    refine meters_same (sinkTurn_table ser cfg answer p.threads.shared)
      (skippedFrames_threads _) ?_
    exact (tableSeen_did _).trans (other_beside ser cfg (.sink answer) p.threads.shared).tableSeen
  | _ => exact meters_same rfl rfl rfl

end Steps

section Counts

/-- A heartbeat was passed to the callback. -/
def isHeartbeat : Observation → Bool
  | .counted _ => false
  | .dropped _ _ => false
  | .emitted evt _ => evt.type=.flowStats

/-- Every event pushed is a Start, an End of either reason or a heartbeat. -/
theorem pushes_kinds (seen : List Observation) :
    (seen.filterMap emittedPush).length=
      seen.countP isStart+seen.countP (isEnd .idleTimeout)+seen.countP (isEnd .tcpTeardown)+
        seen.countP isHeartbeat := by
  induction seen with
  | nil => rfl
  | cons o seen ih =>
    cases o with
    | counted pkt => exact ih
    | dropped pkt warned => exact ih
    | emitted evt accepted =>
      cases htype : evt.type <;> cases hreason : evt.reason <;>
        simp [emittedPush,isStart,isEnd,isHeartbeat,htype,hreason] at ih ⊢ <;> omega

/-- The refusals seen at the table are the pushes that the queue refused. -/
theorem countP_isRefusal (seen : List Observation) :
    seen.countP isRefusal=((seen.filterMap emittedPush).filterMap refusedPush).length := by
  induction seen with
  | nil => rfl
  | cons o seen ih =>
    cases o with
    | counted pkt => exact ih
    | dropped pkt warned => exact ih
    | emitted evt accepted =>
      cases accepted <;> simp [emittedPush,refusedPush,isRefusal,ih]

/-- One `kafka_messages_produced` increment for each message published. -/
theorem tally_published (trace : List SinkObservation) :
    tally publications trace=(trace.filterMap publishedMessage).length := by
  induction trace with
  | nil => rfl
  | cons o trace ih =>
    have hcons : tally publications (o::trace)=publications o+tally publications trace := rfl
    rw [hcons,ih]
    cases o with
    | produced path evt msg accepted =>
      cases accepted <;> simp [publishedMessage,publications,Nat.add_comm]
    | _ => exact Nat.zero_add _

/-- One drop for each event dropped at a full retry buffer. -/
theorem tally_discarded (trace : List SinkObservation) :
    tally drops trace=(trace.filterMap discardedEvent).length := by
  induction trace with
  | nil => rfl
  | cons o trace ih =>
    have hcons : tally drops (o::trace)=drops o+tally drops trace := rfl
    rw [hcons,ih]
    cases o with
    | discarded evt => exact Nat.add_comm _ _
    | _ => exact Nat.zero_add _

/-- A message published on the retry path is published. -/
theorem tally_retries (trace : List SinkObservation) :
    tally retries trace≤tally publications trace := by
  refine List.sum_le_sum fun o _ => ?_
  cases o with
  | produced path evt msg accepted =>
    cases path with
    | retry => exact Nat.le_refl _
    | direct => exact Nat.zero_le _
  | _ => exact Nat.le_refl _

end Counts

section Program

variable (ser : Serializer) (cfg : AppConfig)

/-- The metrics of the table in every run: what was seen of the table and the
frames skipped. -/
theorem run_meters (inputs : List ProgramInput) :
    Tallies (skipping (skippedFrames (programTrace ser cfg inputs)).length {})
      (programAfter ser cfg inputs).threads.shared.table.metrics
      (tableSeen (programTrace ser cfg inputs)) := by
  refine Machine.history_invariant (programMachine ser cfg) (h:=[])
    (P:=fun p trace => Tallies (skipping (skippedFrames trace).length {})
      p.threads.shared.table.metrics (tableSeen trace)) ?_ (.refl _) inputs
  intro p trace input h
  have hstep := step_meters (programMachine_step ser cfg p input)
  rw [skippedFrames_append,tableSeen_append,List.length_append]
  have hearlier : Tallies
      (skipping ((skippedFrames trace).length+(skippedFrames
        ((programMachine ser cfg).step p input).2).length) {})
      (skipping (skippedFrames ((programMachine ser cfg).step p input).2).length
        p.threads.shared.table.metrics) (tableSeen trace) := by
    refine ⟨h.received,?_,h.created,h.idle,h.tcp,h.active⟩
    have hbefore := h.dropped
    simp only [skipping] at hbefore ⊢
    omega
  exact hearlier.trans hstep

/-- What is seen of the sink thread. -/
def sinkSeen (trace : List ProgramObservation) : List SinkObservation :=
  (seenOf trace).filterMap sinkView

/-- The pushes that the queue has answered. -/
def pushesOf (trace : List ProgramObservation) : List (FlowEvent×Bool) :=
  (seenOf trace).filterMap pushView

/-- The metrics of the sink in every run: what was seen of it. -/
theorem run_sink_adds (inputs : List ProgramInput) :
    Adds {} (programAfter ser cfg inputs).threads.shared.sink.metrics
      (sinkSeen (programTrace ser cfg inputs)) := by
  obtain ⟨items,sinkInputs,_,_,htrace,q,_,hsame⟩ := (run_pipelined ser cfg inputs).follows
  have hadds := run_adds ser cfg sinkInputs
  rw [htrace,hsame] at hadds
  exact hadds

/-- The flows that the gauge tracks. -/
structure FlowsBalanced (m : Metrics) (flows : FlowMap) : Prop where
  /-- The gauge is the number of entries. -/
  active : m.flowsActive=flows.entries.length
  /-- It stays within `max_flows`. -/
  limited : m.flowsActive≤cfg.maxFlows.toInt
  /-- Flows created are active or expired. -/
  created : (m.flowsCreated : ℤ)=m.flowsActive+m.flowsExpiredIdle+m.flowsExpiredTcp

/-- In every run. -/
theorem run_flows (hlimit : 1≤cfg.maxFlows) (inputs : List ProgramInput) :
    FlowsBalanced cfg (programAfter ser cfg inputs).threads.shared.table.metrics
      (programAfter ser cfg inputs).threads.shared.table.flows := by
  have hmeters := run_meters ser cfg inputs
  obtain ⟨answers,htable⟩ := (run_pipelined ser cfg inputs).serial.table
  obtain ⟨htrace,halike,_⟩ := htable []
  obtain ⟨hlimited,_,hactive,hcreated,hidle,htcp,hbalance⟩ :=
    (metrics_balanced cfg answerFrom hlimit (answers++[])
      (callsOf (programTrace ser cfg inputs))).1
  have hflows : (tableAfter cfg answerFrom (answers++[])
      (callsOf (programTrace ser cfg inputs))).flows=
        (programAfter ser cfg inputs).threads.shared.table.flows := halike.flows
  rw [htrace] at hcreated hidle htcp
  rw [Limited,hflows] at hlimited
  rw [hflows] at hactive
  have hstarts := hmeters.created
  have hidle' := hmeters.idle
  have htcp' := hmeters.tcp
  have hgauge := hmeters.active
  rw [records_ends] at hgauge
  simp only [skipping,tableSeen] at hstarts hidle' htcp' hgauge
  have hentries : (programAfter ser cfg inputs).threads.shared.table.metrics.flowsActive=
      (programAfter ser cfg inputs).threads.shared.table.flows.entries.length := by
    omega
  refine ⟨hentries,?_,?_⟩
  · omega
  · omega

/-- Every frame delivered is received by the table, skipped or about to be received. -/
theorem run_frames (inputs : List ProgramInput) :
    (framesOf (programTrace ser cfg inputs)).length=
      (programAfter ser cfg inputs).threads.shared.table.metrics.packetsReceived+
        (skippedFrames (programTrace ser cfg inputs)).length+
        (((programAfter ser cfg inputs).threads.phase .main).pending.filterMap
          offered).length := by
  have hreceived := (run_meters ser cfg inputs).received
  have hhandled := congrArg List.length (packets_handled ser cfg inputs)
  rw [List.length_append] at hhandled
  simp only [skipping,tableSeen] at hreceived
  rw [framesOf_length]
  omega

/-- The pushes are those of the calls that have returned and of the one in progress. -/
theorem run_pushes (inputs : List ProgramInput) :
    pushesOf (programTrace ser cfg inputs)=
      (tableSeen (programTrace ser cfg inputs)).filterMap emittedPush++
        inCallPushes cfg (programAfter ser cfg inputs).threads.single :=
  (run_pipelined ser cfg inputs).serial.pushes

/-- `packets_dropped` counts the frames skipped, the packets over the limit and
the events refused to the calls that have returned. -/
theorem run_dropped (inputs : List ProgramInput) :
    (programAfter ser cfg inputs).threads.shared.table.metrics.packetsDropped+
        ((inCallPushes cfg (programAfter ser cfg inputs).threads.single).filterMap
          refusedPush).length=
      (skippedFrames (programTrace ser cfg inputs)).length+
        (tableSeen (programTrace ser cfg inputs)).countP isDrop+
        ((pushesOf (programTrace ser cfg inputs)).filterMap refusedPush).length := by
  have hdropped := (run_meters ser cfg inputs).dropped
  rw [countP_isRefusal] at hdropped
  simp only [skipping] at hdropped
  rw [run_pushes,List.filterMap_append,List.length_append]
  omega

/-- Every event pushed stands for a flow created or expired, or is a heartbeat. -/
theorem run_pushed (inputs : List ProgramInput) :
    (pushesOf (programTrace ser cfg inputs)).length=
      (programAfter ser cfg inputs).threads.shared.table.metrics.flowsCreated+
        (programAfter ser cfg inputs).threads.shared.table.metrics.flowsExpiredIdle+
        (programAfter ser cfg inputs).threads.shared.table.metrics.flowsExpiredTcp+
        (tableSeen (programTrace ser cfg inputs)).countP isHeartbeat+
        (inCallPushes cfg (programAfter ser cfg inputs).threads.single).length := by
  have hmeters := run_meters ser cfg inputs
  have hcreated := hmeters.created
  have hidle := hmeters.idle
  have htcp := hmeters.tcp
  simp only [skipping] at hcreated hidle htcp
  rw [run_pushes,List.length_append,pushes_kinds]
  omega

/-- Every event pushed is published, given up by the serializer, dropped by the
sink, refused by the queue or waits. -/
theorem run_events (inputs : List ProgramInput) {items : List FlowEvent}
    (hwhere : Whereabouts (programAfter ser cfg inputs).threads.shared
      (seenOf (programTrace ser cfg inputs)) items) :
    (pushesOf (programTrace ser cfg inputs)).length=
      (programAfter ser cfg inputs).threads.shared.sink.metrics.kafkaMessagesProduced+
        (programAfter ser cfg inputs).threads.shared.sink.metrics.avroSerializationErrors+
        tally drops (sinkSeen (programTrace ser cfg inputs))+
        ((pushesOf (programTrace ser cfg inputs)).filterMap refusedPush).length+
        (waitingEvents (programAfter ser cfg inputs).threads.shared items).length := by
  have hadds := run_sink_adds ser cfg inputs
  have hproduced := hadds.produced
  have herrors := hadds.errors
  have htopic := congrArg List.length (run_topic cfg ser inputs)
  have hperm := (whereabouts_perm hwhere).length_eq
  rw [tally_published] at hproduced
  rw [tally_spoiled] at herrors
  rw [List.length_map] at htopic
  simp only [List.length_map,List.length_append,lostEvents] at hperm
  simp only [topic,pushesOf,sinkSeen,tally_discarded] at *
  omega

/-- No call is in progress: neither thread is in a call on the table or waits for
the lock, and the sink thread has no event in hand and is not at its retry buffer. A
frame that is skipped is counted in the step that delivers it. -/
structure Resting (p : Program) : Prop where
  /-- Nobody calls or waits. -/
  outside : ∀ worker,p.threads.phase worker=.outside
  /-- The sink thread is not at its retry buffer. -/
  settled : p.threads.shared.sink.pc≠.retrying
  /-- It has no event in hand. -/
  free : ∀ evt,p.threads.shared.sink.pc≠.attempting evt

/-- At rest the sink thread holds nothing. -/
theorem Resting.inHand {p : Program} (h : Resting p) : inHand p.threads.shared.sink.pc=[] := by
  cases hpc : p.threads.shared.sink.pc with
  | attempting evt => exact absurd hpc (h.free evt)
  | _ => rfl

/-- At rest are threads without a pending call and a sink thread at the end of a
round. -/
theorem Resting.between {p : Program}
    (hpending : ∀ worker,(p.threads.phase worker).pending.isEmpty=true)
    (hpc : p.threads.shared.sink.pc=.polling) : Resting p := by
  refine ⟨fun worker => ?_,?_,fun evt => ?_⟩
  · have hnone := hpending worker
    cases hphase : p.threads.phase worker with
    | outside => rfl
    | waiting call =>
      rw [hphase] at hnone
      cases hnone
    | inside call locals =>
      rw [hphase] at hnone
      cases hnone
  · rw [hpc]
    exact SinkPc.noConfusion
  · rw [hpc]
    exact SinkPc.noConfusion

/-- At rest nothing of a call is pushed. -/
theorem Resting.pushes {p : Program} (h : Resting p) (hexclusive : Exclusive p.threads) :
    inCallPushes cfg p.threads.single=[] := by
  have hholder : p.threads.holder=none := by
    cases hsome : p.threads.holder with
    | none => rfl
    | some worker =>
      obtain ⟨call,locals,hinside⟩ := hexclusive.holder worker hsome
      rw [h.outside] at hinside
      cases hinside
  rw [inCallPushes,Locked.single,Locked.current,hholder]
  rfl

/-- The packets over the limit, as the calls made one after the other meet them. -/
theorem run_overLimit (inputs : List ProgramInput) : ∃ answers,
    tableTrace cfg answerFrom answers (callsOf (programTrace ser cfg inputs))=
        tableSeen (programTrace ser cfg inputs) ∧
      overLimit cfg answerFrom (.initial answers) (callsOf (programTrace ser cfg inputs))=
        (tableSeen (programTrace ser cfg inputs)).countP isDrop := by
  obtain ⟨answers,htable⟩ := (run_pipelined ser cfg inputs).serial.table
  obtain ⟨htrace,_,_⟩ := htable []
  refine ⟨answers++[],htrace,?_⟩
  rw [←DropWarnings.run_drops]
  exact congrArg (List.countP isDrop) htrace

/-- The metrics while no call is in progress, against what has been delivered,
pushed and published, and the events that wait. The `answers` are those of the queue
to the events of the calls. -/
structure Reconciled (p : Program) (trace : List ProgramObservation) (items : List FlowEvent)
    (answers : List Bool) : Prop where
  /-- The flows. -/
  flows : FlowsBalanced cfg (exported p.threads.shared) p.threads.shared.table.flows
  /-- Every frame delivered is received by the table or skipped. -/
  frames : (framesOf trace).length=
    (exported p.threads.shared).packetsReceived+(skippedFrames trace).length
  /-- What the table shows is what its calls show one after the other. -/
  calls : tableTrace cfg answerFrom answers (callsOf trace)=tableSeen trace
  /-- `packets_dropped` adds up frames that are no packets, packets of unknown flows
  that met a full table, and events refused by the queue. -/
  dropped : (exported p.threads.shared).packetsDropped=(skippedFrames trace).length+
    overLimit cfg answerFrom (.initial answers) (callsOf trace)+
      ((pushesOf trace).filterMap refusedPush).length
  /-- Every event pushed stands for a flow created or expired, or is a heartbeat. -/
  pushed : (pushesOf trace).length=(exported p.threads.shared).flowsCreated+
    (exported p.threads.shared).flowsExpiredIdle+(exported p.threads.shared).flowsExpiredTcp+
    (tableSeen trace).countP isHeartbeat
  /-- Every event pushed is published, given up by the serializer, dropped by the
  sink, refused by the queue, or stored in the queue or the retry buffer. -/
  events : (pushesOf trace).length=(exported p.threads.shared).kafkaMessagesProduced+
    (exported p.threads.shared).avroSerializationErrors+tally drops (sinkSeen trace)+
    ((pushesOf trace).filterMap refusedPush).length+
    p.threads.shared.sink.retryBuf.length+items.length
  /-- Messages produced are on the topic. -/
  produced : (exported p.threads.shared).kafkaMessagesProduced=(topic (seenOf trace)).length
  /-- What is retried with success is produced. -/
  retried : (exported p.threads.shared).schemaRegistryRetries≤
    (exported p.threads.shared).kafkaMessagesProduced

/-- For every schedule, whenever no call is in progress the metrics reconcile with
the frames delivered, the flows in the table, the events pushed and the messages on
the topic. -/
theorem metrics_reconcile (hlimit : 1≤cfg.maxFlows) (inputs : List ProgramInput)
    (hrest : Resting (programAfter ser cfg inputs)) :
    ∃ items answers,Stores (programAfter ser cfg inputs).threads.shared.sink.queue items ∧
      Reconciled cfg (programAfter ser cfg inputs) (programTrace ser cfg inputs) items
        answers := by
  obtain ⟨hactive,hlimited,hcreated⟩ := run_flows ser cfg hlimit inputs
  obtain ⟨items,hwhere⟩ := run_whereabouts ser cfg inputs
  obtain ⟨answers,hcalls,hlimits⟩ := run_overLimit ser cfg inputs
  have hnothing := hrest.pushes cfg (run_pipelined ser cfg inputs).exclusive
  have hframes := run_frames ser cfg inputs
  have hdropped := run_dropped ser cfg inputs
  have hpushed := run_pushed ser cfg inputs
  have hevents := run_events ser cfg inputs hwhere
  have hadds := run_sink_adds ser cfg inputs
  have hproduced := hadds.produced
  have hretried := hadds.retried
  have hless := tally_retries (sinkSeen (programTrace ser cfg inputs))
  rw [hrest.outside .main] at hframes
  rw [hnothing,←hlimits] at hdropped
  rw [hnothing] at hpushed
  rw [waitingEvents,hrest.inHand,List.nil_append,List.length_append,←Nat.add_assoc] at hevents
  refine ⟨items,answers,hwhere.stores,⟨hactive,hlimited,hcreated⟩,hframes,hcalls,hdropped,
    hpushed,hevents,?_,?_⟩
  · rw [tally_published] at hproduced
    exact hproduced.trans (Nat.zero_add _)
  · refine le_of_eq_of_le hretried (le_of_le_of_eq ?_ hproduced.symm)
    exact Nat.add_le_add_left hless 0

/-- The turns that count a datagram and publish the Start of its flow. -/
def startedInputs : List ProgramInput :=
  deliveredInputs++(List.range 20).map turnsInTurn++List.replicate 3 (.sink {})

/-- One datagram has been counted, its flow is active and its Start published. -/
theorem metrics_reconcile_delivered :
    let p := programAfter blankSerializer {} startedInputs
    (exported p.threads.shared).flowsActive=1 ∧
      (exported p.threads.shared).kafkaMessagesProduced=1 ∧
      ∃ items answers,Stores p.threads.shared.sink.queue items ∧
        Reconciled {} p (programTrace blankSerializer {} startedInputs) items answers := by
  have hpending : ∀ worker,
      ((programAfter blankSerializer {} startedInputs).threads.phase worker).pending.isEmpty=
        true := by
    intro worker
    cases worker with
    | main => decide +kernel
    | timer => decide +kernel
  refine ⟨by decide +kernel,by decide +kernel,?_⟩
  exact metrics_reconcile blankSerializer {} (by decide) startedInputs
    (.between hpending (by decide +kernel))

/-- With a `max_flows` of at least one, as the parser guarantees, no flow is active
after the return of `main` without an exception, every frame delivered was received
or skipped, and from the metrics and the heartbeats
one can tell the events that are not on the topic: those given up or dropped by the
sink, refused by the queue and left in the retry buffer. -/
theorem metrics_settled (hlimit : 1≤cfg.maxFlows) (inputs : List ProgramInput)
    (hreturned : (programAfter ser cfg inputs).main=.returned)
    (hfailed : (programAfter ser cfg inputs).failed=false) :
    let trace := programTrace ser cfg inputs
    let s := (programAfter ser cfg inputs).threads.shared
    (exported s).flowsActive=0 ∧
      (exported s).flowsCreated=(exported s).flowsExpiredIdle+(exported s).flowsExpiredTcp ∧
      (framesOf trace).length=(exported s).packetsReceived+(skippedFrames trace).length ∧
      (exported s).packetsDropped=(skippedFrames trace).length+
        (tableSeen trace).countP isDrop+((pushesOf trace).filterMap refusedPush).length ∧
      2*(exported s).flowsCreated+(tableSeen trace).countP isHeartbeat=
        (exported s).kafkaMessagesProduced+(exported s).avroSerializationErrors+
          tally drops (sinkSeen trace)+((pushesOf trace).filterMap refusedPush).length+
          s.sink.retryBuf.length := by
  have hquiet := run_quiet ser cfg inputs hreturned
  have hdrained := run_drained ser cfg inputs hreturned hfailed
  obtain ⟨hactive,hlimited,hcreated⟩ := run_flows ser cfg hlimit inputs
  obtain ⟨items,hwhere⟩ := run_whereabouts ser cfg inputs
  have hframes := run_frames ser cfg inputs
  have hdropped := run_dropped ser cfg inputs
  have hpushed := run_pushed ser cfg inputs
  have hevents := run_events ser cfg inputs hwhere
  rw [hquiet.outside .main] at hframes
  rw [hquiet.pushes] at hdropped hpushed
  rw [waitingEvents,hquiet.empty items hwhere.stores,hquiet.left,inHand,List.nil_append,
    List.append_nil] at hevents
  rw [hdrained] at hactive
  rw [hactive] at hcreated
  simp only [List.length_nil] at hcreated hpushed
  dsimp only [exported]
  refine ⟨hactive,?_,hframes,hdropped,?_⟩
  · omega
  · omega

end Program

/-- One datagram makes one flow and two messages. -/
theorem metrics_settled_delivered :
    let trace := programTrace blankSerializer {}
      (deliveredInputs++(List.range 145).map turnsInTurn)
    let s := (programAfter blankSerializer {}
      (deliveredInputs++(List.range 145).map turnsInTurn)).threads.shared
    (exported s).flowsActive=0 ∧
      (exported s).flowsCreated=(exported s).flowsExpiredIdle+(exported s).flowsExpiredTcp ∧
      (framesOf trace).length=(exported s).packetsReceived+(skippedFrames trace).length ∧
      (exported s).packetsDropped=(skippedFrames trace).length+
        (tableSeen trace).countP isDrop+((pushesOf trace).filterMap refusedPush).length ∧
      2*(exported s).flowsCreated+(tableSeen trace).countP isHeartbeat=
        (exported s).kafkaMessagesProduced+(exported s).avroSerializationErrors+
          tally drops (sinkSeen trace)+((pushesOf trace).filterMap refusedPush).length+
          s.sink.retryBuf.length :=
  metrics_settled blankSerializer {} (by decide)
    (deliveredInputs++(List.range 145).map turnsInTurn) (by decide +kernel) (by decide +kernel)

end PacketPipe.PipelineMetrics

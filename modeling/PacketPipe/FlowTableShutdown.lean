import PacketPipe.EventQueueRefinement
import PacketPipe.FlowEventOrder

/-!
# Draining the table into the event queue

At shutdown every tracked flow gets one End event, and the callback of `main`
pushes it to the event queue. The queue holds one event less than its 65536
slots, and the consumer may pop any number of events before each push, also
none. A push that is refused is counted, and its flow is erased all the same.
-/

namespace PacketPipe.FlowTableShutdown

open FlowEvents ConfigParserModel ObservedMachines FlowTableModel FlowLifetimes
open BoundedFifos EventQueueModel EventQueueRefinement FlowEventOrder

/-- What the callback of `main` captures, with the speed of the consumer. -/
structure QueueSink where
  /-- The shared queue. -/
  queue : EventQueue kDefaultEventQueueCapacity
  /-- How many pops the consumer completes before each further push; none
  after the end of the list. -/
  pops : List ℕ

/-- A number of pops. -/
def popMany : ℕ → EventQueue kDefaultEventQueueCapacity → EventQueue kDefaultEventQueueCapacity
  | 0,q => q
  | n+1,q => popMany n (pop q).2

/-- The lambda of `main`: push the event, after the consumer's pops. -/
def pushToQueue : EventCallback QueueSink := fun evt s =>
  let pushed := push evt (popMany (s.pops.headD 0) s.queue)
  (pushed.1,⟨pushed.2,s.pops.tail⟩)

/-- The same table with another callback state. -/
def withSink {σ τ : Type} (t : FlowTable σ) (sink : τ) : FlowTable τ :=
  ⟨t.flows,t.lastHeartbeatUs,t.dropCount,t.metrics,sink⟩

/-- Whether an observation is an event that the callback accepted. -/
def wasAccepted : Observation → Bool
  | .counted _ => false
  | .dropped _ _ => false
  | .emitted _ accepted => accepted

/-- Whether an observation is an event that the callback refused. -/
def wasRefused : Observation → Bool
  | .counted _ => false
  | .dropped _ _ => false
  | .emitted _ accepted => !accepted

/-- The event of an emission. -/
def emittedEvent : Observation → Option FlowEvent
  | .counted _ => none
  | .dropped _ _ => none
  | .emitted evt _ => some evt

section AnyCallback

variable {σ : Type} (onEvent : EventCallback σ) (nowUs : Int64)

theorem emit_sink (evt : FlowEvent) (t : FlowTable σ) :
    (emit onEvent evt t).1.sink=(onEvent evt t.sink).2 := by
  unfold emit
  dsimp only
  split <;> rfl

/-- The drain emits one End event for each entry it visits, in order. -/
theorem drainLoop_events (entries : List FlowEntry) (t : FlowTable σ) :
    (drainLoop onEvent nowUs entries t).2.map emittedEvent=
      entries.map fun e => some (endEvent e.2 nowUs .idleTimeout) := by
  induction entries generalizing t with
  | nil => rfl
  | cons entry rest ih =>
    unfold drainLoop
    dsimp only
    rw [List.map_append,emit_trace,ih]
    rfl

/-- Each refused End event is counted once. -/
theorem drainLoop_packetsDropped (entries : List FlowEntry) (t : FlowTable σ) :
    (drainLoop onEvent nowUs entries t).1.metrics.packetsDropped=
      t.metrics.packetsDropped+(drainLoop onEvent nowUs entries t).2.countP wasRefused := by
  induction entries generalizing t with
  | nil => rfl
  | cons entry rest ih =>
    unfold drainLoop
    dsimp only
    rw [ih,List.countP_append]
    unfold emit
    dsimp only
    split
    · simp [wasRefused,Metrics.incFlowsExpired]
    · simp [wasRefused,Metrics.incFlowsExpired]
      omega

end AnyCallback

/-- Pops leave a queue that stores no more than before. -/
theorem popMany_stores {q : EventQueue kDefaultEventQueueCapacity} {items : List FlowEvent}
    (h : Stores q items) (n : ℕ) : Stores (popMany n q) (items.drop n) := by
  induction n generalizing q items with
  | zero => exact h
  | succ n ih =>
    have hrest := ih (pop_stores h).2
    rwa [List.drop_tail] at hrest

/-- One push after the consumer's pops: it is accepted when fewer than 65535
events are left. -/
theorem pushToQueue_stores {s : QueueSink} {items : List FlowEvent} (h : Stores s.queue items)
    (evt : FlowEvent) :
    (pushToQueue evt s).1=decide ((items.drop (s.pops.headD 0)).length<65535) ∧
      Stores (pushToQueue evt s).2.queue
        (if (items.drop (s.pops.headD 0)).length<65535 then
          items.drop (s.pops.headD 0)++[evt] else items.drop (s.pops.headD 0)) :=
  push_stores (popMany_stores h (s.pops.headD 0)) evt

/-- A drain gets as many End events accepted as the queue has room for, and
exactly so many when the consumer stands still. -/
theorem drainLoop_accepted (nowUs : Int64) (entries : List FlowEntry) (t : FlowTable QueueSink)
    {items : List FlowEvent} (h : Stores t.sink.queue items) :
    min entries.length (65535-items.length)≤
        (drainLoop pushToQueue nowUs entries t).2.countP wasAccepted ∧
      (t.sink.pops=[] → (drainLoop pushToQueue nowUs entries t).2.countP wasAccepted=
        min entries.length (65535-items.length)) := by
  induction entries generalizing t items with
  | nil => simp [drainLoop]
  | cons entry rest ih =>
    obtain ⟨key,state⟩ := entry
    obtain ⟨hanswer,hstores⟩ := pushToQueue_stores h (endEvent state nowUs .idleTimeout)
    have hdrop : (items.drop (t.sink.pops.headD 0)).length ≤ items.length := by
      rw [List.length_drop]
      omega
    have hsame : t.sink.pops=[] → items.drop (t.sink.pops.headD 0)=items := by
      intro hpops
      rw [hpops]
      rfl
    generalize items.drop (t.sink.pops.headD 0)=left at hanswer hstores hdrop hsame
    unfold drainLoop
    dsimp only
    rw [List.countP_append,emit_trace,hanswer,List.countP_singleton,List.length_cons,wasAccepted]
    set sent := (emit pushToQueue (endEvent state nowUs .idleTimeout) t).1 with hsent
    have hsink : sent.sink=(pushToQueue (endEvent state nowUs .idleTimeout) t.sink).2 :=
      emit_sink pushToQueue _ t
    rw [←hsink] at hstores
    have hrest := ih {sent with
      metrics := Metrics.incFlowsExpired
        {sent.metrics with flowsActive := sent.metrics.flowsActive-1} .idleTimeout
      flows := sent.flows.erase key} hstores
    have hpops : t.sink.pops=[] → sent.sink.pops=[] := fun hpops => by
      rw [hsink]
      exact congrArg List.tail hpops
    obtain ⟨hleast,hexact⟩ := hrest
    refine ⟨?_,fun hstill => ?_⟩
    · by_cases hroom : left.length<65535
      · simp only [hroom,decide_true,if_true,List.length_append,List.length_singleton]
          at hleast ⊢
        omega
      · simp only [hroom,decide_false,if_false,Bool.false_eq_true] at hleast ⊢
        omega
    · have hcount := hexact (hpops hstill)
      rw [hsame hstill] at hcount
      rw [hcount,hsame hstill]
      by_cases hroom : items.length<65535
      · simp only [hroom,decide_true,if_true,List.length_append,List.length_singleton]
        omega
      · simp only [hroom,decide_false,if_false,Bool.false_eq_true]
        omega

/-- Every flow of the table gets its End event accepted by the queue. -/
def DrainDelivers (nowUs : Int64) (order : MapOrder) (t : FlowTable QueueSink) : Prop :=
  ∀ key state,t.flows.lookup key=some state →
    .emitted (endEvent state nowUs .idleTimeout) true∈(drainAll pushToQueue nowUs order t).2

section Drains

variable (nowUs : Int64) (order : MapOrder) (t : FlowTable QueueSink)

/-- The drain makes one observation for each entry. -/
theorem drainAll_length :
    (drainAll pushToQueue nowUs order t).2.length=t.flows.entries.length := by
  have hlength := congrArg List.length
    (drainLoop_events pushToQueue nowUs (order.visit t.flows) t)
  rw [List.length_map,List.length_map,(order.visit_perm t.flows).length_eq] at hlength
  exact hlength

/-- With every event accepted, every flow's End event is. -/
theorem delivers_of_accepted
    (h : (drainAll pushToQueue nowUs order t).2.countP wasAccepted=t.flows.entries.length) :
    DrainDelivers nowUs order t := by
  intro key state hlookup
  have hentry : (⟨key,state⟩ : FlowEntry)∈order.visit t.flows := by
    rw [←(visits_order order t.flows).lookup] at hlookup
    exact List.of_mem_dlookup hlookup
  have hevent : some (endEvent state nowUs .idleTimeout)∈
      (drainAll pushToQueue nowUs order t).2.map emittedEvent := by
    rw [drainAll,drainLoop_events,List.mem_map]
    exact ⟨⟨key,state⟩,hentry,rfl⟩
  obtain ⟨o,ho,hemitted⟩ := List.mem_map.mp hevent
  rw [←drainAll_length nowUs order t,List.countP_eq_length] at h
  cases o with
  | counted pkt => cases hemitted
  | dropped pkt warned => cases hemitted
  | emitted evt accepted =>
    obtain rfl : accepted=true := h _ ho
    cases hemitted
    exact ho

/-- With every flow's End event accepted, no event is refused: two answers for
one flow would need two events for it. -/
theorem accepted_of_delivers (hkeyed : Keyed t.flows) (h : DrainDelivers nowUs order t) :
    (drainAll pushToQueue nowUs order t).2.countP wasAccepted=t.flows.entries.length := by
  have hvisit := visits_order order t.flows
  have hevents := drainLoop_events pushToQueue nowUs (order.visit t.flows) t
  have hnodup : ((drainAll pushToQueue nowUs order t).2.map emittedEvent).Nodup := by
    rw [drainAll,hevents]
    refine List.Nodup.map_on (fun e he e' he' heq => ?_) (List.NodupKeys.nodup hvisit.nodup)
    have hstate : e.2=e'.2 := congrArg FlowEvent.state (Option.some_inj.mp heq)
    have hkey : e.1=e'.1 := by
      rw [←hvisit.keyed hkeyed e he,←hvisit.keyed hkeyed e' he',hstate]
    obtain ⟨key,state⟩ := e
    obtain ⟨key',state'⟩ := e'
    cases hkey
    cases hstate
    rfl
  rw [←drainAll_length nowUs order t,List.countP_eq_length]
  intro o ho
  have hmem : emittedEvent o∈(drainAll pushToQueue nowUs order t).2.map emittedEvent :=
    List.mem_map_of_mem ho
  rw [drainAll,hevents,List.mem_map] at hmem
  obtain ⟨e,he,heq⟩ := hmem
  have htrue := h e.1 e.2 (hvisit.mem he)
  have hsame := List.inj_on_of_nodup_map hnodup htrue ho heq
  rw [←hsame]
  rfl

end Drains

section Filling

variable {σ : Type} (cfg : AppConfig) (onEvent : EventCallback σ)

/-- Below the limit a table is not full. -/
theorem tableFull_false {flows : FlowMap} (h : (flows.entries.length : ℤ)<cfg.maxFlows.toInt) :
    tableFull cfg flows=false := by
  have hmax := cfg.maxFlows.toInt_lt
  rw [tableFull,decide_eq_false_iff_not,Int32.le_iff_toInt_le,
    Int32.toInt_ofNat_of_lt (by omega)]
  omega

/-- Packets of different new flows fill the table up to the limit. -/
theorem fill_length (pkts : List ParsedPacket) (t : FlowTable σ)
    (hdistinct : (pkts.map keyFromPacket).Nodup)
    (hfresh : ∀ pkt∈pkts,t.flows.lookup (keyFromPacket pkt)=none)
    (hlimit : ((t.flows.entries.length+pkts.length : ℕ) : ℤ)≤cfg.maxFlows.toInt) :
    ((tableMachine cfg onEvent).final t (pkts.map Call.process)).flows.entries.length=
      t.flows.entries.length+pkts.length := by
  induction pkts generalizing t with
  | nil => rfl
  | cons pkt pkts ih =>
    rw [List.map_cons,List.nodup_cons] at hdistinct
    rw [List.length_cons] at hlimit ⊢
    have hnone := hfresh pkt List.mem_cons_self
    have hroom : tableFull cfg t.flows=false := tableFull_false cfg (by omega)
    have hflows : (process cfg onEvent pkt t).1.flows=
        t.flows.insert (keyFromPacket pkt) (firstState (keyFromPacket pkt) pkt) := by
      simp only [process,hnone,hroom,Bool.false_eq_true,if_false,emit_flows]
    have hlength : (process cfg onEvent pkt t).1.flows.entries.length=
        t.flows.entries.length+1 := by
      rw [hflows,AList.entries_insert_of_notMem (AList.lookup_eq_none.mp hnone),
        List.length_cons]
    have hrest := ih (process cfg onEvent pkt t).1 hdistinct.2 (fun other hother => ?_)
      (by rw [hlength]; omega)
    · rw [List.map_cons,Machine.final_cons,step_process,hrest,hlength]
      omega
    · have hne : keyFromPacket other≠keyFromPacket pkt := fun heq =>
        hdistinct.1 (heq▸List.mem_map_of_mem hother)
      rw [hflows,AList.lookup_insert_ne hne]
      exact hfresh other (List.mem_cons_of_mem _ hother)

end Filling

/-- For every reachable table, an empty queue and any speed of the consumer:
the drain empties the table with one End event for each flow. With at most
65535 flows all of them are accepted; with more, at least 65535 are, and
exactly 65535 when the consumer stands still. Each refusal is counted once. -/
theorem drain_into_queue {σ : Type} (cfg : AppConfig) (onEvent : EventCallback σ) (sink : σ)
    (calls : List Call) (queue : EventQueue kDefaultEventQueueCapacity)
    (hempty : empty queue=true) (pops : List ℕ) (nowUs : Int64) (order : MapOrder) :
    let t := withSink (tableAfter cfg onEvent sink calls) (⟨queue,pops⟩ : QueueSink)
    let drained := drainAll pushToQueue nowUs order t
    (t.flows.entries.length≤65535 → DrainDelivers nowUs order t) ∧
      drained.2.map emittedEvent=
        (order.visit t.flows).map (fun e => some (endEvent e.2 nowUs .idleTimeout)) ∧
      min t.flows.entries.length 65535≤drained.2.countP wasAccepted ∧
      (pops=[] → drained.2.countP wasAccepted=min t.flows.entries.length 65535) ∧
      drained.1.metrics.packetsDropped=
        t.metrics.packetsDropped+drained.2.countP wasRefused ∧
      drained.1.flows.entries=[] := by
  have hstores : Stores queue [] := by
    rw [empty,decide_eq_true_eq] at hempty
    refine ⟨occupies_nil _ _,?_⟩
    rw [List.length_nil,advance_zero]
    exact hempty.symm
  intro t drained
  obtain ⟨hleast,hexact⟩ := drainLoop_accepted nowUs (order.visit t.flows) t hstores
  rw [(order.visit_perm t.flows).length_eq,List.length_nil,Nat.sub_zero] at hleast hexact
  refine ⟨fun hfew => ?_,drainLoop_events _ _ _ _,hleast,hexact,
    drainLoop_packetsDropped _ _ _ _,drainAll_entries _ _ _ _⟩
  refine delivers_of_accepted nowUs order t (Nat.le_antisymm ?_ ?_)
  · rw [←drainAll_length nowUs order t]
    exact List.countP_le_length
  · exact Nat.le_trans (Nat.le_min.mpr ⟨Nat.le_refl _,hfew⟩) hleast

/-- Two flows drained into a new queue with a consumer that stands still. -/
theorem drain_into_queue_two_flows :
    DrainDelivers 40000000 .stored
      (withSink (tableAfter {pcapFile := "a.pcap"} (fun _ s => (true,s)) ()
        [.process {srcPort := 1},.process {srcPort := 2}])
        ⟨.initial kDefaultEventQueueCapacity,[]⟩) :=
  (drain_into_queue {pcapFile := "a.pcap"} (fun _ s => (true,s)) ()
    [.process {srcPort := 1},.process {srcPort := 2}]
    (.initial kDefaultEventQueueCapacity) (by decide) [] 40000000 .stored).1 (by decide)

/-- A larger table loses an End event when the consumer stands still. -/
theorem drain_loses {σ : Type} (nowUs : Int64) (order : MapOrder) (t : FlowTable σ)
    (hkeyed : Keyed t.flows) (hmany : 65535<t.flows.entries.length) :
    ¬DrainDelivers nowUs order
      (withSink t (⟨.initial kDefaultEventQueueCapacity,[]⟩ : QueueSink)) := by
  intro hdelivers
  have hall := accepted_of_delivers nowUs order _ hkeyed hdelivers
  have hsome := (drainLoop_accepted nowUs (order.visit t.flows)
    (withSink t (⟨.initial kDefaultEventQueueCapacity,[]⟩ : QueueSink)) (stores_initial _)).2 rfl
  rw [(order.visit_perm t.flows).length_eq] at hsome
  have hcount : min t.flows.entries.length 65535=t.flows.entries.length := hsome.symm.trans hall
  omega

/-- One packet of the flow with the given source port. -/
def portPacket (port : ℕ) : ParsedPacket := {srcPort := UInt16.ofNat port}

/-- Source ports name different flows. -/
theorem portPackets_distinct :
    (((List.range 65536).map portPacket).map keyFromPacket).Nodup := by
  rw [List.map_map]
  refine List.Nodup.map_on (fun x hx y hy heq => ?_) List.nodup_range
  have hport : UInt16.ofNat x=UInt16.ofNat y := congrArg FlowKey.srcPort heq
  have hnat := congrArg UInt16.toNat hport
  rw [UInt16.toNat_ofNat',UInt16.toNat_ofNat'] at hnat
  rw [List.mem_range] at hx hy
  omega

/-- With the default limit of 100000 flows, which the parser sets, a table of
65536 flows drained into an empty queue loses an End event when the consumer
stands still. -/
theorem drain_loses_end :
    parse ["packetpipe","--pcap","a.pcap"]=.ok {pcapFile := "a.pcap"} ∧
      ¬DrainDelivers 1000000 .stored
        (withSink (tableAfter {pcapFile := "a.pcap"} (fun _ s => (true,s)) ()
          (((List.range 65536).map portPacket).map Call.process))
          ⟨.initial kDefaultEventQueueCapacity,[]⟩) := by
  have hfilled := fill_length {pcapFile := "a.pcap"} (fun _ s => (true,s))
    ((List.range 65536).map portPacket) (FlowTable.initial ()) portPackets_distinct
    (fun _ _ => rfl) (by rw [List.length_map,List.length_range]; decide)
  rw [List.length_map,List.length_range] at hfilled
  refine ⟨by decide,drain_loses 1000000 .stored _ (run_keyed _ _ _ keyed_empty _) ?_⟩
  rw [tableAfter,hfilled]
  decide

end PacketPipe.FlowTableShutdown

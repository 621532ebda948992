import Mathlib.Data.List.AList
import PacketPipe.FlowEvents
import PacketPipe.ConfigParserModel
import PacketPipe.ObservedMachines

/-!
# The flow table

`FlowTable::process`, `timer_sweep` and `drain_all` as the code computes them.
Each call holds the mutex throughout, so a run is a sequence of whole calls.
The hash map is a keyed association list whose iteration order carries no
meaning: every sweep and every drain visits the entries in an order of its
own, an arbitrary permutation. The callback `on_event_` keeps a state of its
own and may accept or refuse any event.
-/

namespace PacketPipe.FlowTableModel

open FlowEvents ConfigParserModel ObservedMachines

/-- `flows_`: at most one state for each key. -/
abbrev FlowMap := AList fun _ : FlowKey => FlowState

/-- One element of `flows_`. -/
abbrev FlowEntry := Sigma fun _ : FlowKey => FlowState

/-- An iteration order of the unordered map: every element exactly once. -/
structure MapOrder where
  /-- Elements in the order in which one loop meets them. -/
  visit : FlowMap → List FlowEntry
  /-- No element is skipped, repeated or made up. -/
  visit_perm : ∀ flows,(visit flows).Perm flows.entries

/-- The order in which the association list happens to hold the entries. -/
def MapOrder.stored : MapOrder := ⟨fun flows => flows.entries,fun _ => List.Perm.refl _⟩

/-- `EventCallback`: accepts or refuses an event and may change its own state. -/
abbrev EventCallback (σ : Type) := FlowEvent → σ → Bool×σ

/-- What an observer sees of a call. -/
inductive Observation
  /-- The packet was counted in a new or an existing entry. -/
  | counted (pkt : ParsedPacket)
  /-- The packet opened a flow over the limit; `warned` when it was logged. -/
  | dropped (pkt : ParsedPacket) (warned : Bool)
  /-- The event was passed to `on_event_`, which returned `accepted`. -/
  | emitted (evt : FlowEvent) (accepted : Bool)
  deriving DecidableEq

/-- The members of `FlowTable` that change, with the callback's state. -/
structure FlowTable (σ : Type) where
  /-- `flows_`. -/
  flows : FlowMap
  /-- `last_heartbeat_us_`. -/
  lastHeartbeatUs : Int64
  /-- `drop_count_`. -/
  dropCount : Int32
  /-- `metrics_`. -/
  metrics : Metrics
  /-- State captured by `on_event_`. -/
  sink : σ

/-- A table just constructed. -/
def FlowTable.initial {σ : Type} (sink : σ) : FlowTable σ := ⟨∅,0,0,{},sink⟩

/-- `idle_timeout_us_`, computed in 64 bits. -/
def idleTimeoutUs (cfg : AppConfig) : Int64 := cfg.flowTimeoutSec.toInt64*1000000

/-- `stats_interval_us_`, computed in 64 bits. -/
def statsIntervalUs (cfg : AppConfig) : Int64 := cfg.statsIntervalSec.toInt64*1000000

/-- `key_from_packet`. -/
def keyFromPacket (pkt : ParsedPacket) : FlowKey :=
  {srcIp := pkt.srcIp,dstIp := pkt.dstIp,srcPort := pkt.srcPort,dstPort := pkt.dstPort,
    protocol := pkt.protocol}

/-- The entry that `process` creates for the first packet of a flow. -/
def firstState (key : FlowKey) (pkt : ParsedPacket) : FlowState :=
  {key := key,startUs := pkt.timestampUs,lastSeenUs := pkt.timestampUs,packetCount := 1,
    byteCount := pkt.wireLength.toUInt64}

/-- The update that `process` makes to an existing entry. -/
def countPacket (state : FlowState) (pkt : ParsedPacket) : FlowState :=
  {state with
    lastSeenUs := pkt.timestampUs
    packetCount := state.packetCount+1
    byteCount := state.byteCount+pkt.wireLength.toUInt64}

/-- TCP teardown detection. -/
def tearsDown (pkt : ParsedPacket) : Bool :=
  pkt.protocol=ipprotoTcp && (pkt.tcpFin || pkt.tcpRst)

/-- The idle test of `timer_sweep`. The difference is taken in 64 bits; where
it overflows, which C++ leaves undefined, the model wraps. -/
def idleDue (cfg : AppConfig) (nowUs : Int64) (state : FlowState) : Bool :=
  idleTimeoutUs cfg≤nowUs-state.lastSeenUs

/-- `emit_stats`, from the time of the last heartbeat, likewise in 64 bits. -/
def heartbeatDue (cfg : AppConfig) (nowUs lastHeartbeatUs : Int64) : Bool :=
  statsIntervalUs cfg≤nowUs-lastHeartbeatUs

/-- The Start event of a new entry. -/
def startEvent (state : FlowState) (pkt : ParsedPacket) : FlowEvent :=
  {type := .flowStart,state := state,eventTimestampUs := pkt.timestampUs}

/-- The Stats event of a heartbeat. -/
def statsEvent (state : FlowState) (nowUs : Int64) : FlowEvent :=
  {type := .flowStats,state := state,eventTimestampUs := nowUs}

/-- The End event of an expired, closed or drained entry. -/
def endEvent (state : FlowState) (nowUs : Int64) (reason : ExpireReason) : FlowEvent :=
  {type := .flowEnd,state := state,eventTimestampUs := nowUs,reason := reason}

@[simp] theorem startEvent_type (state : FlowState) (pkt : ParsedPacket) :
    (startEvent state pkt).type=.flowStart := rfl

@[simp] theorem statsEvent_type (state : FlowState) (nowUs : Int64) :
    (statsEvent state nowUs).type=.flowStats := rfl

@[simp] theorem endEvent_type (state : FlowState) (nowUs : Int64) (reason : ExpireReason) :
    (endEvent state nowUs reason).type=.flowEnd := rfl

/-- Whether a new flow is over the limit: `static_cast<int>(flows_.size())`
compared with `max_flows`. -/
def tableFull (cfg : AppConfig) (flows : FlowMap) : Bool :=
  cfg.maxFlows≤Int32.ofNat flows.entries.length

section Calls

variable {σ : Type} (cfg : AppConfig) (onEvent : EventCallback σ)

/-- `emit`: pass the event on and count a refusal as a dropped packet. -/
def emit (evt : FlowEvent) (t : FlowTable σ) : FlowTable σ×List Observation :=
  let answer := onEvent evt t.sink
  if answer.1=true then ({t with sink := answer.2},[.emitted evt true])
  else
    ({t with
      sink := answer.2
      metrics := {t.metrics with packetsDropped := t.metrics.packetsDropped+1}},
      [.emitted evt false])

/-- `expire_flow` at the iterator of `key`, whose state is `state`. -/
def expireFlow (key : FlowKey) (state : FlowState) (nowUs : Int64) (reason : ExpireReason)
    (t : FlowTable σ) : FlowTable σ×List Observation :=
  let sent := emit onEvent (endEvent state nowUs reason) t
  let gauged := {sent.1.metrics with flowsActive := sent.1.metrics.flowsActive-1}
  ({sent.1 with
    flows := sent.1.flows.erase key
    metrics := gauged.incFlowsExpired reason},sent.2)

/-- `process`. -/
def process (pkt : ParsedPacket) (t : FlowTable σ) : FlowTable σ×List Observation :=
  let received := {t.metrics with packetsReceived := t.metrics.packetsReceived+1}
  let key := keyFromPacket pkt
  match t.flows.lookup key with
  | none =>
    if tableFull cfg t.flows=true then
      let dropCount := t.dropCount+1
      ({t with
        dropCount := dropCount
        metrics := {received with packetsDropped := received.packetsDropped+1}},
        [.dropped pkt (dropCount%1000=1)])
    else
      let state := firstState key pkt
      let sent := emit onEvent (startEvent state pkt)
        {t with flows := t.flows.insert key state,metrics := received}
      ({sent.1 with metrics := {sent.1.metrics with
          flowsActive := sent.1.metrics.flowsActive+1
          flowsCreated := sent.1.metrics.flowsCreated+1}},.counted pkt::sent.2)
  | some state =>
    let updated := countPacket state pkt
    let kept := {t with flows := t.flows.insert key updated,metrics := received}
    if tearsDown pkt=true then
      let ended := expireFlow onEvent key updated pkt.timestampUs .tcpTeardown kept
      (ended.1,.counted pkt::ended.2)
    else (kept,[.counted pkt])

/-- First loop of `timer_sweep`: heartbeats for the entries kept, and the
keys of the idle ones, in visiting order. -/
def sweepScan (nowUs : Int64) (emitStats : Bool) :
    List FlowEntry → FlowTable σ → FlowTable σ×List FlowKey×List Observation
  | [],t => (t,[],[])
  | ⟨key,state⟩::rest,t =>
    if idleDue cfg nowUs state=true then
      let tail := sweepScan nowUs emitStats rest t
      (tail.1,key::tail.2.1,tail.2.2)
    else if emitStats=true then
      let sent := emit onEvent (statsEvent state nowUs) t
      let tail := sweepScan nowUs emitStats rest sent.1
      (tail.1,tail.2.1,sent.2++tail.2.2)
    else sweepScan nowUs emitStats rest t

/-- Second loop of `timer_sweep`: look each collected key up again. -/
def expireAll (nowUs : Int64) : List FlowKey → FlowTable σ → FlowTable σ×List Observation
  | [],t => (t,[])
  | key::rest,t =>
    match t.flows.lookup key with
    | some state =>
      let ended := expireFlow onEvent key state nowUs .idleTimeout t
      let tail := expireAll nowUs rest ended.1
      (tail.1,ended.2++tail.2)
    | none => expireAll nowUs rest t

/-- `timer_sweep`. -/
def timerSweep (nowUs : Int64) (order : MapOrder) (t : FlowTable σ) :
    FlowTable σ×List Observation :=
  let emitStats := heartbeatDue cfg nowUs t.lastHeartbeatUs
  let scanned := sweepScan cfg onEvent nowUs emitStats (order.visit t.flows) t
  let expired := expireAll onEvent nowUs scanned.2.1 scanned.1
  ({expired.1 with
    lastHeartbeatUs := if emitStats=true then nowUs else expired.1.lastHeartbeatUs},
    scanned.2.2++expired.2)

/-- The loop of `drain_all`, erasing each element after its End event. -/
def drainLoop (nowUs : Int64) : List FlowEntry → FlowTable σ → FlowTable σ×List Observation
  | [],t => (t,[])
  | ⟨key,state⟩::rest,t =>
    let sent := emit onEvent (endEvent state nowUs .idleTimeout) t
    let gauged := {sent.1.metrics with flowsActive := sent.1.metrics.flowsActive-1}
    let tail := drainLoop nowUs rest {sent.1 with
      metrics := gauged.incFlowsExpired .idleTimeout
      flows := sent.1.flows.erase key}
    (tail.1,sent.2++tail.2)

/-- `drain_all`. -/
def drainAll (nowUs : Int64) (order : MapOrder) (t : FlowTable σ) :
    FlowTable σ×List Observation :=
  drainLoop onEvent nowUs (order.visit t.flows) t

end Calls

/-- One call on the table, with the iteration order its loops happen to meet. -/
inductive Call
  | process (pkt : ParsedPacket)
  | timerSweep (nowUs : Int64) (order : MapOrder)
  | drainAll (nowUs : Int64) (order : MapOrder)

/-- The table as a machine whose inputs are whole calls. -/
def tableMachine {σ : Type} (cfg : AppConfig) (onEvent : EventCallback σ) :
    Machine (FlowTable σ) Call Observation where
  step t
    | .process pkt => process cfg onEvent pkt t
    | .timerSweep nowUs order => timerSweep cfg onEvent nowUs order t
    | .drainAll nowUs order => drainAll onEvent nowUs order t

section Steps

variable {σ : Type} (cfg : AppConfig) (onEvent : EventCallback σ) (t : FlowTable σ)

@[simp] theorem step_process (pkt : ParsedPacket) :
    (tableMachine cfg onEvent).step t (.process pkt)=process cfg onEvent pkt t := rfl

@[simp] theorem step_timerSweep (nowUs : Int64) (order : MapOrder) :
    (tableMachine cfg onEvent).step t (.timerSweep nowUs order)=
      timerSweep cfg onEvent nowUs order t := rfl

@[simp] theorem step_drainAll (nowUs : Int64) (order : MapOrder) :
    (tableMachine cfg onEvent).step t (.drainAll nowUs order)=
      drainAll onEvent nowUs order t := rfl

end Steps

/-- The table after a sequence of calls on a new one. -/
abbrev tableAfter {σ : Type} (cfg : AppConfig) (onEvent : EventCallback σ) (sink : σ)
    (calls : List Call) : FlowTable σ :=
  (tableMachine cfg onEvent).final (.initial sink) calls

/-- Everything observed during a sequence of calls on a new table. -/
abbrev tableTrace {σ : Type} (cfg : AppConfig) (onEvent : EventCallback σ) (sink : σ)
    (calls : List Call) : List Observation :=
  (tableMachine cfg onEvent).trace (.initial sink) calls

end PacketPipe.FlowTableModel

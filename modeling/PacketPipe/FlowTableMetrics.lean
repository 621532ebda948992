import PacketPipe.FlowTableEntries

/-!
# The flow metrics agree with the table and its events

Creation, teardown, sweep and drain each update the map, the gauge and one of
three counters by hand. What a call adds to the metrics is read off what is
observed of it, and every Start puts one entry into the table and every End
takes one out. The balance of the metrics follows for every run, and so does
the limit on the number of entries.
-/

namespace PacketPipe.FlowTableMetrics

open FlowEvents ConfigParserModel ObservedMachines FlowTableModel FlowLifetimes FlowAccounting
open FlowTableEntries

/-- A Start event was passed to the callback. -/
def isStart : Observation → Bool
  | .counted _ => false
  | .dropped _ _ => false
  | .emitted evt _ => evt.type=.flowStart

/-- An End event with the reason was passed to the callback. -/
def isEnd (reason : ExpireReason) : Observation → Bool
  | .counted _ => false
  | .dropped _ _ => false
  | .emitted evt _ => evt.type=.flowEnd && evt.reason=reason

/-- The callback refused an event. -/
def isRefusal : Observation → Bool
  | .counted _ => false
  | .dropped _ _ => false
  | .emitted _ accepted => !accepted

/-- A packet was dropped at the limit. -/
def isDrop : Observation → Bool
  | .counted _ => false
  | .dropped _ _ => true
  | .emitted _ _ => false

/-- What calls with these observations add to the metrics of the table. -/
structure Tallies (m m' : Metrics) (seen : List Observation) : Prop where
  /-- `packets_received`. -/
  received : m'.packetsReceived=m.packetsReceived+(seen.filterMap handled).length
  /-- `packets_dropped`: packets over the limit and refused events. -/
  dropped : m'.packetsDropped=m.packetsDropped+(seen.countP isDrop+seen.countP isRefusal)
  /-- `flows_created`. -/
  created : m'.flowsCreated=m.flowsCreated+seen.countP isStart
  /-- `flows_expired` for idle flows. -/
  idle : m'.flowsExpiredIdle=m.flowsExpiredIdle+seen.countP (isEnd .idleTimeout)
  /-- `flows_expired` for flows torn down. -/
  tcp : m'.flowsExpiredTcp=m.flowsExpiredTcp+seen.countP (isEnd .tcpTeardown)
  /-- `flows_active`. -/
  active : m'.flowsActive+(flowRecords seen).length=m.flowsActive+seen.countP isStart

/-- Nothing seen, nothing counted. -/
theorem Tallies.refl (m : Metrics) : Tallies m m [] := ⟨rfl,rfl,rfl,rfl,rfl,rfl⟩

/-- Tallies of consecutive observations add up. -/
theorem Tallies.trans {m m' m'' : Metrics} {xs ys : List Observation} (h : Tallies m m' xs)
    (h' : Tallies m' m'' ys) : Tallies m m'' (xs++ys) := by
  have hactive := h.active
  have hactive' := h'.active
  constructor
  · rw [h'.received,h.received,List.filterMap_append,List.length_append,Nat.add_assoc]
  · rw [h'.dropped,h.dropped,List.countP_append,List.countP_append]
    omega
  · rw [h'.created,h.created,List.countP_append,Nat.add_assoc]
  · rw [h'.idle,h.idle,List.countP_append,Nat.add_assoc]
  · rw [h'.tcp,h.tcp,List.countP_append,Nat.add_assoc]
  · rw [flowRecords_append,List.length_append,List.countP_append]
    omega

section Calls

variable {σ : Type} (cfg : AppConfig) (onEvent : EventCallback σ)

/-- `emit` counts a refusal and nothing else. -/
theorem emit_metrics (evt : FlowEvent) (t : FlowTable σ) :
    (emit onEvent evt t).1.metrics=
      {t.metrics with packetsDropped :=
        t.metrics.packetsDropped+(emit onEvent evt t).2.countP isRefusal} := by
  unfold emit
  dsimp only
  split <;> rfl

/-- A heartbeat is counted only when it is refused. -/
theorem stats_tallies (state : FlowState) (nowUs : Int64) (t : FlowTable σ) :
    Tallies t.metrics (emit onEvent (statsEvent state nowUs) t).1.metrics
      (emit onEvent (statsEvent state nowUs) t).2 := by
  rw [emit_metrics,emit_trace]
  cases (onEvent (statsEvent state nowUs) t.sink).1 <;> exact ⟨rfl,rfl,rfl,rfl,rfl,rfl⟩

/-- The bookkeeping that follows an End event, in the sweep, at a teardown
and in the drain alike. -/
def afterEnd (m : Metrics) (reason : ExpireReason) : Metrics :=
  {m with flowsActive := m.flowsActive-1}.incFlowsExpired reason

/-- An End event and its bookkeeping agree. -/
theorem end_tallies (state : FlowState) (nowUs : Int64) (reason : ExpireReason)
    (t : FlowTable σ) :
    Tallies t.metrics (afterEnd (emit onEvent (endEvent state nowUs reason) t).1.metrics reason)
      (emit onEvent (endEvent state nowUs reason) t).2 := by
  rw [emit_metrics,emit_trace]
  have hactive : t.metrics.flowsActive-1+1=t.metrics.flowsActive+0 := by omega
  cases reason <;> cases (onEvent (endEvent state nowUs _) t.sink).1 <;>
    exact ⟨rfl,rfl,rfl,rfl,rfl,hactive⟩

/-- `expire_flow` counts one End. -/
theorem expireFlow_tallies (key : FlowKey) (state : FlowState) (nowUs : Int64)
    (reason : ExpireReason) (t : FlowTable σ) :
    Tallies t.metrics (expireFlow onEvent key state nowUs reason t).1.metrics
      (expireFlow onEvent key state nowUs reason t).2 :=
  end_tallies onEvent state nowUs reason t

/-- One packet is received; it is dropped, opens a flow, is counted, or is
counted and closes its flow. -/
theorem process_tallies (pkt : ParsedPacket) (t : FlowTable σ) :
    Tallies t.metrics (process cfg onEvent pkt t).1.metrics (process cfg onEvent pkt t).2 := by
  have hcounted : Tallies t.metrics
      {t.metrics with packetsReceived := t.metrics.packetsReceived+1} [.counted pkt] :=
    ⟨rfl,rfl,rfl,rfl,rfl,rfl⟩
  unfold process
  dsimp only
  split
  · split
    · exact ⟨rfl,rfl,rfl,rfl,rfl,rfl⟩
    · have hactive : t.metrics.flowsActive+1+0=t.metrics.flowsActive+1 := by omega
      rw [emit_metrics,emit_trace]
      cases (onEvent (startEvent (firstState (keyFromPacket pkt) pkt) pkt) t.sink).1 <;>
        exact ⟨rfl,rfl,rfl,rfl,rfl,hactive⟩
  · next state hlookup =>
    split
    · have hended := expireFlow_tallies onEvent (keyFromPacket pkt) (countPacket state pkt)
        pkt.timestampUs .tcpTeardown
        {t with
          flows := t.flows.insert (keyFromPacket pkt) (countPacket state pkt)
          metrics := {t.metrics with packetsReceived := t.metrics.packetsReceived+1}}
      exact hcounted.trans hended
    · exact hcounted

/-- The first loop of a sweep counts refused heartbeats only. -/
theorem sweepScan_tallies (nowUs : Int64) (emitStats : Bool) (entries : List FlowEntry)
    (t : FlowTable σ) :
    Tallies t.metrics (sweepScan cfg onEvent nowUs emitStats entries t).1.metrics
      (sweepScan cfg onEvent nowUs emitStats entries t).2.2 := by
  induction entries generalizing t with
  | nil => exact .refl _
  | cons entry rest ih =>
    unfold sweepScan
    dsimp only
    split
    · exact ih t
    · split
      · exact (stats_tallies onEvent entry.2 nowUs t).trans (ih _)
      · exact ih t

/-- The second loop counts one End for each key found. -/
theorem expireAll_tallies (nowUs : Int64) (keys : List FlowKey) (t : FlowTable σ) :
    Tallies t.metrics (expireAll onEvent nowUs keys t).1.metrics
      (expireAll onEvent nowUs keys t).2 := by
  induction keys generalizing t with
  | nil => exact .refl _
  | cons key rest ih =>
    unfold expireAll
    split
    · exact (expireFlow_tallies onEvent _ _ _ _ t).trans (ih _)
    · exact ih t

/-- The drain counts one End for each entry. -/
theorem drainLoop_tallies (nowUs : Int64) (entries : List FlowEntry) (t : FlowTable σ) :
    Tallies t.metrics (drainLoop onEvent nowUs entries t).1.metrics
      (drainLoop onEvent nowUs entries t).2 := by
  induction entries generalizing t with
  | nil => exact .refl _
  | cons entry rest ih =>
    have hend := end_tallies onEvent entry.2 nowUs .idleTimeout t
    have hrest := ih
      {(emit onEvent (endEvent entry.2 nowUs .idleTimeout) t).1 with
        metrics := afterEnd (emit onEvent (endEvent entry.2 nowUs .idleTimeout) t).1.metrics
          .idleTimeout
        flows := (emit onEvent (endEvent entry.2 nowUs .idleTimeout) t).1.flows.erase entry.1}
    exact hend.trans hrest

/-- Every call adds to the metrics what is observed of it. -/
theorem call_tallies (t : FlowTable σ) (call : Call) :
    Tallies t.metrics ((tableMachine cfg onEvent).step t call).1.metrics
      ((tableMachine cfg onEvent).step t call).2 := by
  cases call with
  | process pkt => exact process_tallies cfg onEvent pkt t
  | timerSweep nowUs order =>
    exact (sweepScan_tallies cfg onEvent nowUs _ _ t).trans (expireAll_tallies onEvent nowUs _ _)
  | drainAll nowUs order => exact drainLoop_tallies onEvent nowUs _ t

/-- Upkeep starts no flow. -/
theorem upkeep_starts {seen : List Observation} (h : ∀ o∈seen,Upkeep o) :
    seen.countP isStart=0 := by
  refine List.countP_eq_zero.mpr fun o ho => ?_
  cases h o ho <;> exact Bool.false_ne_true

/-- The entries after a call and the Ends it made are the entries before it
and the Starts it made. -/
theorem call_entries (t : FlowTable σ) (call : Call) :
    ((tableMachine cfg onEvent).step t call).1.flows.entries.length+
        (flowRecords ((tableMachine cfg onEvent).step t call).2).length=
      t.flows.entries.length+((tableMachine cfg onEvent).step t call).2.countP isStart := by
  cases call with
  | process pkt =>
    have heffect := process_effect cfg onEvent pkt t
    rw [step_process]
    generalize (process cfg onEvent pkt t).1.flows=flows,
      (process cfg onEvent pkt t).2=seen at heffect ⊢
    cases heffect with
    | refused => rfl
    | opened _ hlookup accepted =>
      rw [entries_insert_new hlookup]
      rfl
    | updated state _ _ hlookup =>
      have hlength := (entries_at hlookup).length_eq
      rw [entries_insert_perm,hlength]
      rfl
    | closed state _ _ hlookup accepted =>
      have hlength := (entries_at hlookup).length_eq
      rw [entries_insert_erase,hlength]
      rfl
  | timerSweep nowUs order =>
    have hkept := (timerSweep_entries cfg onEvent nowUs order t).length_eq
    have hended := (timerSweep_ended cfg onEvent nowUs order t).length_eq
    have hsplit := t.flows.entries.length_eq_length_filter_add fun e => idleDue cfg nowUs e.2
    rw [step_timerSweep,hkept,hended,List.length_map,
      upkeep_starts (timerSweep_upkeep cfg onEvent nowUs order t),Nat.add_comm]
    exact hsplit.symm
  | drainAll nowUs order =>
    have hended := (drainAll_records onEvent nowUs order t).length_eq
    have hnone := upkeep_starts (drainLoop_upkeep onEvent nowUs (order.visit t.flows) t)
    rw [step_drainAll,drainAll_entries,hended,List.length_map,drainAll,hnone]
    exact Nat.zero_add _

/-- The number of entries is at most `max_flows`. -/
def Limited (flows : FlowMap) : Prop := (flows.entries.length : ℤ)≤cfg.maxFlows.toInt

/-- Below 2^31 entries the cast in the comparison with `max_flows` is exact. -/
theorem tableFull_iff {flows : FlowMap} (hsmall : flows.entries.length<2^31) :
    tableFull cfg flows=true ↔ cfg.maxFlows.toInt≤flows.entries.length := by
  rw [tableFull,decide_eq_true_eq,Int32.le_iff_toInt_le,Int32.toInt_ofNat_of_lt hsmall]

/-- A limited table has fewer than 2^31 entries. -/
theorem Limited.small {flows : FlowMap} (h : Limited cfg flows) : flows.entries.length<2^31 := by
  have hmax := cfg.maxFlows.toInt_lt
  unfold Limited at h
  omega

/-- No call exceeds the limit: only a packet of an unknown flow adds an
entry, and only when there is room. -/
theorem call_limited {t : FlowTable σ} (h : Limited cfg t.flows) (call : Call) :
    Limited cfg ((tableMachine cfg onEvent).step t call).1.flows := by
  have hentries := call_entries cfg onEvent t call
  by_cases hstarts : ((tableMachine cfg onEvent).step t call).2.countP isStart=0
  · unfold Limited at h ⊢
    omega
  cases call with
  | process pkt =>
    have heffect := process_effect cfg onEvent pkt t
    rw [step_process] at hstarts hentries ⊢
    generalize (process cfg onEvent pkt t).1.flows=flows,
      (process cfg onEvent pkt t).2=seen at heffect hstarts hentries ⊢
    cases heffect with
    | refused => exact h
    | opened hrefuses hlookup accepted =>
      have hroom : ¬cfg.maxFlows.toInt≤t.flows.entries.length := by
        rw [←tableFull_iff cfg h.small]
        intro hfull
        rw [refuses,hlookup,hfull] at hrefuses
        cases hrefuses
      unfold Limited
      rw [entries_insert_new hlookup,List.length_cons]
      omega
    | updated => exact absurd rfl hstarts
    | closed => exact absurd rfl hstarts
  | timerSweep nowUs order =>
    exact absurd (upkeep_starts (timerSweep_upkeep cfg onEvent nowUs order t)) hstarts
  | drainAll nowUs order =>
    exact absurd (upkeep_starts (drainLoop_upkeep onEvent nowUs _ t)) hstarts

/-- The table, its metrics and what was observed of it are in balance. -/
structure Balanced (t : FlowTable σ) (trace : List Observation) : Prop where
  /-- At most `max_flows` entries. -/
  limited : Limited cfg t.flows
  /-- Every entry is stored under its own key. -/
  keyed : Keyed t.flows
  /-- The gauge is the number of entries. -/
  active : t.metrics.flowsActive=t.flows.entries.length
  /-- Every Start was counted. -/
  created : t.metrics.flowsCreated=trace.countP isStart
  /-- Every End of an idle flow was counted. -/
  idle : t.metrics.flowsExpiredIdle=trace.countP (isEnd .idleTimeout)
  /-- Every End of a flow torn down was counted. -/
  tcp : t.metrics.flowsExpiredTcp=trace.countP (isEnd .tcpTeardown)
  /-- Flows created are active or expired. -/
  balance : (t.metrics.flowsCreated : ℤ)=
    t.metrics.flowsActive+t.metrics.flowsExpiredIdle+t.metrics.flowsExpiredTcp

/-- The records of a trace are its Ends of either reason. -/
theorem records_ends (trace : List Observation) :
    (flowRecords trace).length=
      trace.countP (isEnd .idleTimeout)+trace.countP (isEnd .tcpTeardown) := by
  unfold flowRecords
  induction trace with
  | nil => rfl
  | cons o trace ih =>
    rw [List.filterMap_cons,List.countP_cons,List.countP_cons]
    cases o with
    | counted pkt => exact ih
    | dropped pkt warned => exact ih
    | emitted evt accepted =>
      by_cases htype : evt.type=.flowEnd
      · cases hreason : evt.reason <;> simp [endedState,isEnd,htype,hreason] <;> omega
      · simpa [endedState,isEnd,htype] using ih

/-- Upkeep expires idle flows only. -/
theorem upkeep_idle {seen : List Observation} (h : ∀ o∈seen,Upkeep o) :
    seen.countP (isEnd .idleTimeout)=(flowRecords seen).length := by
  have hnone : seen.countP (isEnd .tcpTeardown)=0 := by
    refine List.countP_eq_zero.mpr fun o ho => ?_
    cases h o ho <;> exact Bool.false_ne_true
  rw [records_ends,hnone]
  rfl

/-- Every call keeps the balance. -/
theorem Balanced.call {t : FlowTable σ} {trace : List Observation} (h : Balanced cfg t trace)
    (call : Call) :
    Balanced cfg ((tableMachine cfg onEvent).step t call).1
      (trace++((tableMachine cfg onEvent).step t call).2) := by
  have htallies := call_tallies cfg onEvent t call
  have hentries := call_entries cfg onEvent t call
  have hrecords := records_ends ((tableMachine cfg onEvent).step t call).2
  have hgauge := htallies.active
  have hactive := h.active
  have hbalance := h.balance
  constructor
  · exact call_limited cfg onEvent h.limited call
  · exact call_keyed cfg onEvent t call h.keyed
  · omega
  · rw [htallies.created,h.created,List.countP_append]
  · rw [htallies.idle,h.idle,List.countP_append]
  · rw [htallies.tcp,h.tcp,List.countP_append]
  · rw [htallies.created,htallies.idle,htallies.tcp]
    omega

/-- In every run under a positive limit the table, its metrics and its events
are in balance, and a packet of an unknown flow that meets a full table
changes no entry and no heartbeat and reaches no callback. -/
theorem metrics_balanced (hlimit : 1≤cfg.maxFlows) (sink : σ) (calls : List Call) :
    Balanced cfg (tableAfter cfg onEvent sink calls) (tableTrace cfg onEvent sink calls) ∧
      ∀ pkt,(tableAfter cfg onEvent sink calls).flows.lookup (keyFromPacket pkt)=none →
        cfg.maxFlows.toInt≤(tableAfter cfg onEvent sink calls).flows.entries.length →
        (process cfg onEvent pkt (tableAfter cfg onEvent sink calls)).1.flows=
            (tableAfter cfg onEvent sink calls).flows ∧
          (process cfg onEvent pkt (tableAfter cfg onEvent sink calls)).1.lastHeartbeatUs=
            (tableAfter cfg onEvent sink calls).lastHeartbeatUs ∧
          (process cfg onEvent pkt (tableAfter cfg onEvent sink calls)).1.sink=
            (tableAfter cfg onEvent sink calls).sink ∧
          ∀ evt accepted,.emitted evt accepted∉
            (process cfg onEvent pkt (tableAfter cfg onEvent sink calls)).2 := by
  have hinitial : Balanced cfg (FlowTable.initial sink) [] := by
    refine ⟨?_,keyed_empty,rfl,rfl,rfl,rfl,rfl⟩
    have hone : (1 : ℤ)≤cfg.maxFlows.toInt := Int32.le_iff_toInt_le.mp hlimit
    have hempty : ((FlowTable.initial sink).flows.entries.length : ℤ)=0 := rfl
    unfold Limited
    omega
  have hstep : ∀ t trace call,Balanced cfg t trace →
      Balanced cfg ((tableMachine cfg onEvent).step t call).1
        (trace++((tableMachine cfg onEvent).step t call).2) :=
    fun _ _ call h => h.call cfg onEvent call
  have hrun := Machine.history_invariant (tableMachine cfg onEvent) hstep hinitial calls
  rw [List.nil_append] at hrun
  refine ⟨hrun,fun pkt hunknown hfull => ?_⟩
  rw [←tableFull_iff cfg hrun.limited.small] at hfull
  simp only [process,hunknown,hfull,if_true]
  refine ⟨trivial,trivial,trivial,fun evt accepted hmem => ?_⟩
  cases List.mem_singleton.mp hmem

end Calls

/-- One flow fills the table, a second is dropped, and a sweep ends the first. -/
theorem metrics_balanced_full :
    Balanced {maxFlows := 1}
      (tableAfter {maxFlows := 1} (fun _ s => (true,s)) () [.process {srcPort := 1},
        .process {srcPort := 2},.timerSweep 60000000 .stored])
      (tableTrace {maxFlows := 1} (fun _ s => (true,s)) () [.process {srcPort := 1},
        .process {srcPort := 2},.timerSweep 60000000 .stored]) :=
  (metrics_balanced {maxFlows := 1} (fun _ s => (true,s)) (by decide) () [.process {srcPort := 1},
    .process {srcPort := 2},.timerSweep 60000000 .stored]).1

end PacketPipe.FlowTableMetrics

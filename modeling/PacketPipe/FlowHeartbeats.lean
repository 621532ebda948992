import PacketPipe.FlowIdleGaps
import PacketPipe.FlowSweeps
import PacketPipe.PollingClocks

/-!
# Heartbeats and idle timeouts on a schedule of sweeps

`last_heartbeat_us_` is the last beat of a polling clock whose polls are the
sweeps; packets do not touch it. From the spacing of the sweeps it follows how
far apart the Stats events of a flow are, how late the next one can be, and
how late an idle flow is ended, as long as no difference that a sweep takes
overflows.
-/

namespace PacketPipe.FlowHeartbeats

open FlowEvents ConfigParserModel ObservedMachines FlowTableModel FlowLifetimes FlowTableEntries
open FlowTableShutdown FlowIdleGaps FlowSweeps PollingClocks SignedWords

/-- The time of a sweep. -/
def sweepTime : Call → Option ℤ
  | .timerSweep nowUs _ => some nowUs.toInt
  | _ => none

/-- The times of the sweeps, in call order. -/
def sweepTimes (calls : List Call) : List ℤ := calls.filterMap sweepTime

/-- `stats_interval` in microseconds. -/
def statsInterval (cfg : AppConfig) : ℤ := cfg.statsIntervalSec.toInt*1000000

/-- `flow_timeout` in microseconds. -/
def flowTimeout (cfg : AppConfig) : ℤ := cfg.flowTimeoutSec.toInt*1000000

theorem sweepTimes_append (front back : List Call) :
    sweepTimes (front++back)=sweepTimes front++sweepTimes back := List.filterMap_append

@[simp] theorem sweepTimes_sweep (nowUs : Int64) (order : MapOrder) (rest : List Call) :
    sweepTimes (.timerSweep nowUs order::rest)=nowUs.toInt::sweepTimes rest := rfl

/-- No difference that a sweep takes overflows. -/
def SweepFits {σ : Type} (t : FlowTable σ) : Call → Prop
  | .timerSweep nowUs _ => DifferencesFit nowUs t
  | _ => True

instance decidableSweepFits {σ : Type} (t : FlowTable σ) : ∀ c,Decidable (SweepFits t c)
  | .timerSweep nowUs _ => decidableDifferencesFit nowUs t
  | .process _ => .isTrue trivial
  | .drainAll _ _ => .isTrue trivial

section Steps

variable {σ : Type} (cfg : AppConfig) (onEvent : EventCallback σ)

/-- What a call after the calls `before` shows. -/
def observedAt (sink : σ) (before : List Call) (c : Call) : List Observation :=
  ((tableMachine cfg onEvent).step (tableAfter cfg onEvent sink before) c).2

/-- What holds of the differences of all sweeps of a run holds of those with
the entries. -/
theorem sweepFits_idle {t : FlowTable σ} {calls : List Call}
    (h : (tableMachine cfg onEvent).Along SweepFits t calls) :
    (tableMachine cfg onEvent).Along IdleFits t calls := by
  induction calls generalizing t with
  | nil => trivial
  | cons c rest ih =>
    refine ⟨?_,ih h.2⟩
    cases c with
    | process pkt => trivial
    | timerSweep nowUs order => exact h.1.1
    | drainAll nowUs order => trivial

/-- A packet or a sweep moves the last heartbeat as a poll moves the last beat. -/
theorem step_lastHeartbeatUs {t : FlowTable σ} {c : Call} (hfits : SweepFits t c) :
    ((tableMachine cfg onEvent).step t c).1.lastHeartbeatUs.toInt=
      lastBeat (statsInterval cfg) t.lastHeartbeatUs.toInt (sweepTimes [c]) := by
  cases c with
  | process pkt => exact congrArg Int64.toInt (process_lastHeartbeatUs cfg onEvent pkt t)
  | timerSweep nowUs order =>
    have hdifferences : DifferencesFit nowUs t := hfits
    have hheartbeat := (timerSweep_swept onEvent order (hdifferences.gauged cfg)).heartbeat
    rw [step_timerSweep,hheartbeat,apply_ite Int64.toInt]
    rfl
  | drainAll nowUs order =>
    have hsame := drainLoop_same onEvent nowUs (order.visit t.flows) t
    exact congrArg Int64.toInt hsame.heartbeat

/-- `last_heartbeat_us_` is the last beat of the sweeps so far. -/
theorem run_lastHeartbeatUs {t : FlowTable σ} {calls : List Call}
    (hfits : (tableMachine cfg onEvent).Along SweepFits t calls) :
    ((tableMachine cfg onEvent).final t calls).lastHeartbeatUs.toInt=
      lastBeat (statsInterval cfg) t.lastHeartbeatUs.toInt (sweepTimes calls) := by
  induction calls generalizing t with
  | nil => rfl
  | cons c rest ih =>
    have hsplit : sweepTimes (c::rest)=sweepTimes [c]++sweepTimes rest :=
      sweepTimes_append [c] rest
    rw [Machine.final_cons,ih hfits.2,step_lastHeartbeatUs cfg onEvent hfits.1,hsplit,
      lastBeat_append]

/-- A Stats event comes from a sweep with a heartbeat, with the sweep's time. -/
theorem stats_due {t : FlowTable σ} {c : Call} (hfits : SweepFits t c) {evt : FlowEvent}
    {accepted : Bool} (hemitted : .emitted evt accepted∈((tableMachine cfg onEvent).step t c).2)
    (hstats : evt.type=.flowStats) :
    ∃ nowUs order,c=.timerSweep nowUs order ∧ evt.eventTimestampUs=nowUs ∧
      Due cfg nowUs t.lastHeartbeatUs := by
  cases c with
  | process pkt =>
    have heffect := process_effect cfg onEvent pkt t
    rw [step_process] at hemitted
    generalize (process cfg onEvent pkt t).1.flows=flows,
      (process cfg onEvent pkt t).2=seen at heffect hemitted
    cases heffect with
    | refused => cases List.mem_singleton.mp hemitted
    | opened =>
      simp only [List.mem_cons,List.not_mem_nil,or_false,reduceCtorEq,false_or,
        Observation.emitted.injEq] at hemitted
      rw [hemitted.1] at hstats
      cases hstats
    | updated => cases List.mem_singleton.mp hemitted
    | closed =>
      simp only [List.mem_cons,List.not_mem_nil,or_false,reduceCtorEq,false_or,
        Observation.emitted.injEq] at hemitted
      rw [hemitted.1] at hstats
      cases hstats
  | timerSweep nowUs order =>
    have hdifferences : DifferencesFit nowUs t := hfits
    have hevents := (timerSweep_swept onEvent order (hdifferences.gauged cfg)).events
    have hmem : some evt∈(sweepEvents cfg nowUs t).map some :=
      hevents.mem_iff.mp (List.mem_map_of_mem (f := emittedEvent) hemitted)
    rw [List.mem_map_of_injective (Option.some_injective _)] at hmem
    refine ⟨nowUs,order,rfl,?_⟩
    unfold sweepEvents at hmem
    rcases List.mem_append.mp hmem with hkept | hended
    · split at hkept
      · next hdue =>
        obtain ⟨e,_,rfl⟩ := List.mem_map.mp hkept
        exact ⟨rfl,hdue⟩
      · cases hkept
    · obtain ⟨e,_,rfl⟩ := List.mem_map.mp hended
      cases hstats
  | drainAll nowUs order =>
    have hupkeep := drainLoop_events onEvent nowUs (order.visit t.flows) t
    have hmem : some evt∈(drainLoop onEvent nowUs (order.visit t.flows) t).2.map emittedEvent :=
      List.mem_map_of_mem (f := emittedEvent) hemitted
    rw [hupkeep] at hmem
    obtain ⟨e,_,he⟩ := List.mem_map.mp hmem
    cases he
    cases hstats

/-- A heartbeat reaches every flow that the sweep keeps. -/
theorem sweep_stats {t : FlowTable σ} {nowUs : Int64} (order : MapOrder)
    (hfits : DifferencesFit nowUs t) (hdue : Due cfg nowUs t.lastHeartbeatUs)
    {key : FlowKey} {state : FlowState}
    (hkept : (timerSweep cfg onEvent nowUs order t).1.flows.lookup key=some state) :
    ∃ accepted,.emitted (statsEvent state nowUs) accepted∈
      (timerSweep cfg onEvent nowUs order t).2 := by
  have hswept := timerSweep_swept onEvent order (hfits.gauged cfg)
  have hentry : ⟨key,state⟩∈keptEntries cfg nowUs t.flows :=
    hswept.entries.mem_iff.mp (List.of_mem_dlookup hkept)
  have hmem : some (statsEvent state nowUs)∈(sweepEvents cfg nowUs t).map some := by
    refine List.mem_map_of_mem (List.mem_append_left _ ?_)
    rw [if_pos hdue]
    exact List.mem_map.mpr ⟨_,hentry,rfl⟩
  obtain ⟨o,ho,hevent⟩ := List.mem_map.mp (hswept.events.mem_iff.mpr hmem)
  cases o with
  | counted => cases hevent
  | dropped => cases hevent
  | emitted evt accepted =>
    cases hevent
    exact ⟨accepted,ho⟩

end Steps

section Schedules

variable {σ : Type} (cfg : AppConfig) (onEvent : EventCallback σ)

/-- Heartbeats and idle timeouts come on time. -/
structure OnTime (sink : σ) (d : ℤ) (calls : List Call) : Prop where
  /-- Stats events of different calls, of one flow or of two, are the interval
  apart. -/
  apart : ∀ before c between c' after,calls=before++c::(between++c'::after) →
    ∀ evt evt' accepted accepted',.emitted evt accepted∈observedAt cfg onEvent sink before c →
      .emitted evt' accepted'∈observedAt cfg onEvent sink (before++c::between) c' →
        evt.type=.flowStats → evt'.type=.flowStats →
          evt.eventTimestampUs.toInt+statsInterval cfg≤evt'.eventTimestampUs.toInt
  /-- After the heartbeat at `hUs` the first sweep at least the interval later
  gives every flow that is still there its next Stats event, less than the
  interval and `d` later. -/
  next : ∀ before hUs order between sUs order' after,
    calls=before++.timerSweep hUs order::(between++.timerSweep sUs order'::after) →
      Due cfg hUs (tableAfter cfg onEvent sink before).lastHeartbeatUs →
        (∀ p∈sweepTimes between,p<hUs.toInt+statsInterval cfg) →
          hUs.toInt+statsInterval cfg≤ sUs.toInt →
    (∀ evt accepted,evt.type=.flowStats → .emitted evt accepted∉
        (tableMachine cfg onEvent).trace
          (tableAfter cfg onEvent sink (before++[.timerSweep hUs order])) between) ∧
      (∀ key state,(tableAfter cfg onEvent sink
            (before++.timerSweep hUs order::(between++[.timerSweep sUs order']))).flows.lookup key=
              some state →
        ∃ accepted,.emitted (statsEvent state sUs) accepted∈
          observedAt cfg onEvent sink (before++.timerSweep hUs order::between)
            (.timerSweep sUs order')) ∧
      sUs.toInt<hUs.toInt+statsInterval cfg+d
  /-- A flow that gets no further packet is ended by the first sweep at least
  the timeout after its last one, less than the timeout and `d` after it when
  the sweep before that was earlier than the timeout. -/
  ended : ∀ before between sUs order after,
    calls=before++(between++.timerSweep sUs order::after) → ∀ key state,
      (tableAfter cfg onEvent sink before).flows.lookup key=some state →
        (∀ c∈between,Quiet key c) →
          (∀ p∈sweepTimes between,p<state.lastSeenUs.toInt+flowTimeout cfg) →
            state.lastSeenUs.toInt+flowTimeout cfg≤ sUs.toInt →
    changesOf key ((tableMachine cfg onEvent).trace (tableAfter cfg onEvent sink before)
        (between++[.timerSweep sUs order]))=[.event (endEvent state sUs .idleTimeout)] ∧
      (∀ p,(sweepTimes (before++between)).getLast?=some p →
        p<state.lastSeenUs.toInt+flowTimeout cfg →
          sUs.toInt<state.lastSeenUs.toInt+flowTimeout cfg+d)

/-- After a heartbeat the last beat is at least its time. -/
theorem heartbeat_remembered {t : FlowTable σ} {nowUs : Int64} {order : MapOrder}
    {between : List Call}
    (hfits : (tableMachine cfg onEvent).Along SweepFits t (.timerSweep nowUs order::between))
    (hdue : Due cfg nowUs t.lastHeartbeatUs) :
    ((tableMachine cfg onEvent).final t (.timerSweep nowUs order::between)).lastHeartbeatUs.toInt=
      lastBeat (statsInterval cfg) nowUs.toInt (sweepTimes between) := by
  have hdifferences : DifferencesFit nowUs t := hfits.1
  have hheartbeat := (timerSweep_swept onEvent order (hdifferences.gauged cfg)).heartbeat
  rw [if_pos hdue] at hheartbeat
  rw [Machine.final_cons,run_lastHeartbeatUs cfg onEvent hfits.2,step_timerSweep,hheartbeat]

/-- Heartbeats of different calls are the interval apart. -/
theorem stats_apart (hinterval : 0≤ statsInterval cfg) (sink : σ) {before between after : List Call}
    {c c' : Call} (hfits : (tableMachine cfg onEvent).Along SweepFits (.initial sink)
      (before++c::(between++c'::after)))
    {evt evt' : FlowEvent} {accepted accepted' : Bool}
    (hfirst : .emitted evt accepted∈observedAt cfg onEvent sink before c)
    (hsecond : .emitted evt' accepted'∈observedAt cfg onEvent sink (before++c::between) c')
    (hstats : evt.type=.flowStats) (hstats' : evt'.type=.flowStats) :
    evt.eventTimestampUs.toInt+statsInterval cfg≤evt'.eventTimestampUs.toInt := by
  have hsplit : before++c::(between++c'::after)=before++(c::between)++c'::after := by
    rw [List.append_assoc,List.cons_append]
  have hsweeps := Machine.Along.after _ hfits
  rw [hsplit] at hfits
  have hsecondFits := Machine.Along.after _ hfits
  have hbetweenFits : (tableMachine cfg onEvent).Along SweepFits
      (tableAfter cfg onEvent sink before) (c::between) :=
    Machine.Along.before _ hsweeps (List.prefix_append (c::between) (c'::after))
  obtain ⟨nowUs,order,rfl,htime,hdue⟩ := stats_due cfg onEvent hsweeps.1 hfirst hstats
  obtain ⟨nowUs',order',rfl,htime',hdue'⟩ := stats_due cfg onEvent hsecondFits.1 hsecond hstats'
  rw [Machine.final_append] at hdue'
  have hlast := heartbeat_remembered cfg onEvent hbetweenFits hdue
  have hbeat : statsInterval cfg≤nowUs'.toInt-
      lastBeat (statsInterval cfg) nowUs.toInt (sweepTimes between) := by
    rw [←hlast]
    exact hdue'
  rw [htime,htime']
  exact beats_apart hinterval hbeat

/-- Before the interval is over no sweep emits a Stats event. -/
theorem stats_silent {t : FlowTable σ} {between : List Call}
    (hfits : (tableMachine cfg onEvent).Along SweepFits t between)
    (hearly : ∀ p∈sweepTimes between,p<t.lastHeartbeatUs.toInt+statsInterval cfg)
    {evt : FlowEvent} (hstats : evt.type=.flowStats) (accepted : Bool) :
    .emitted evt accepted∉(tableMachine cfg onEvent).trace t between := by
  induction between generalizing t with
  | nil => exact List.not_mem_nil
  | cons c rest ih =>
    have hsplit : sweepTimes (c::rest)=sweepTimes [c]++sweepTimes rest :=
      sweepTimes_append [c] rest
    rw [hsplit] at hearly
    obtain ⟨hfirst,hrest⟩ := List.forall_mem_append.mp hearly
    have hlast := step_lastHeartbeatUs cfg onEvent hfits.1
    rw [lastBeat_early hfirst] at hlast
    rw [←hlast] at hrest
    rw [Machine.trace_cons,List.mem_append]
    rintro (hemitted | hemitted)
    · obtain ⟨nowUs,order,rfl,_,hdue⟩ := stats_due cfg onEvent hfits.1 hemitted hstats
      have hnow := hfirst nowUs.toInt List.mem_cons_self
      have hlate : statsInterval cfg≤nowUs.toInt-t.lastHeartbeatUs.toInt := hdue
      omega
    · exact ih hfits.2 hrest hemitted

/-- The next heartbeat is the first sweep at least the interval later. -/
theorem stats_next (hinterval : 0<statsInterval cfg) {d : ℤ} {calls : List Call}
    (hspaced : Spaced d (sweepTimes calls)) (sink : σ) {before between after : List Call}
    {hUs sUs : Int64} {order order' : MapOrder}
    (hcalls : calls=before++.timerSweep hUs order::(between++.timerSweep sUs order'::after))
    (hfits : (tableMachine cfg onEvent).Along SweepFits (.initial sink) calls)
    (hdue : Due cfg hUs (tableAfter cfg onEvent sink before).lastHeartbeatUs)
    (hearly : ∀ p∈sweepTimes between,p<hUs.toInt+statsInterval cfg)
    (hlate : hUs.toInt+statsInterval cfg≤ sUs.toInt) :
    (∀ evt accepted,evt.type=.flowStats → .emitted evt accepted∉
        (tableMachine cfg onEvent).trace
          (tableAfter cfg onEvent sink (before++[.timerSweep hUs order])) between) ∧
      (∀ key state,(tableAfter cfg onEvent sink
            (before++.timerSweep hUs order::(between++[.timerSweep sUs order']))).flows.lookup key=
              some state →
        ∃ accepted,.emitted (statsEvent state sUs) accepted∈
          observedAt cfg onEvent sink (before++.timerSweep hUs order::between)
            (.timerSweep sUs order')) ∧
      sUs.toInt<hUs.toInt+statsInterval cfg+d := by
  have hsplit : calls=before++(.timerSweep hUs order::between)++.timerSweep sUs order'::after := by
    rw [hcalls,List.append_assoc,List.cons_append]
  have hbetweenFits : (tableMachine cfg onEvent).Along SweepFits
      (tableAfter cfg onEvent sink before) (.timerSweep hUs order::between) := by
    rw [hsplit,List.append_assoc] at hfits
    exact Machine.Along.before _ (Machine.Along.after _ hfits) (List.prefix_append _ _)
  have hlastFits : DifferencesFit sUs
      (tableAfter cfg onEvent sink (before++.timerSweep hUs order::between)) := by
    rw [hsplit] at hfits
    exact (Machine.Along.after _ hfits).1
  have honeFits : (tableMachine cfg onEvent).Along SweepFits (tableAfter cfg onEvent sink before)
      [.timerSweep hUs order] := ⟨hbetweenFits.1,trivial⟩
  have hfirst := heartbeat_remembered cfg onEvent honeFits hdue
  have hlast := heartbeat_remembered cfg onEvent hbetweenFits hdue
  rw [lastBeat_early hearly] at hlast
  constructor
  · intro evt accepted hstats
    rw [tableAfter,Machine.final_append]
    refine stats_silent cfg onEvent hbetweenFits.2 ?_ hstats accepted
    rw [Machine.final_cons,Machine.final_nil] at hfirst
    rw [hfirst]
    exact hearly
  · constructor
    · intro key state hkept
      have hshape : before++.timerSweep hUs order::(between++[.timerSweep sUs order'])=
          (before++.timerSweep hUs order::between)++[.timerSweep sUs order'] := by
        rw [List.append_assoc,List.cons_append]
      rw [hshape,tableAfter,Machine.final_concat] at hkept
      refine sweep_stats cfg onEvent order' hlastFits ?_ hkept
      have hlate' : statsInterval cfg≤ sUs.toInt-hUs.toInt := by omega
      rw [tableAfter,Machine.final_append]
      unfold Due
      rw [hlast]
      exact hlate'
    · rw [hcalls,sweepTimes_append,sweepTimes_sweep,sweepTimes_append,sweepTimes_sweep] at hspaced
      have hbefore : hUs.toInt<hUs.toInt+statsInterval cfg := by omega
      exact hspaced.drop.reach _ hbefore hearly

/-- An idle flow is ended by the first sweep at least the timeout later. -/
theorem idle_ended {d : ℤ} {calls : List Call} (hspaced : Spaced d (sweepTimes calls)) (sink : σ)
    {before between after : List Call} {sUs : Int64} {order : MapOrder}
    (hcalls : calls=before++(between++.timerSweep sUs order::after))
    (hfits : (tableMachine cfg onEvent).Along SweepFits (.initial sink) calls) {key : FlowKey}
    {state : FlowState} (hlookup : (tableAfter cfg onEvent sink before).flows.lookup key=some state)
    (hquiet : ∀ c∈between,Quiet key c)
    (hearly : ∀ p∈sweepTimes between,p<state.lastSeenUs.toInt+flowTimeout cfg)
    (hlate : state.lastSeenUs.toInt+flowTimeout cfg≤ sUs.toInt) :
    changesOf key ((tableMachine cfg onEvent).trace (tableAfter cfg onEvent sink before)
        (between++[.timerSweep sUs order]))=[.event (endEvent state sUs .idleTimeout)] ∧
      (∀ p,(sweepTimes (before++between)).getLast?=some p →
        p<state.lastSeenUs.toInt+flowTimeout cfg →
          sUs.toInt<state.lastSeenUs.toInt+flowTimeout cfg+d) := by
  constructor
  · have hkeyed := run_keyed cfg onEvent (.initial sink) keyed_empty before
    have hsweeps : ∀ c∈between++[.timerSweep sUs order],Quiet key c :=
      List.forall_mem_append.mpr ⟨hquiet,List.forall_mem_singleton.mpr trivial⟩
    have htimeout : (idleTimeoutUs cfg).toInt=flowTimeout cfg := idleTimeoutUs_toInt cfg
    have hnone : firstIdleSweep cfg state.lastSeenUs between=none := by
      refine List.findSome?_eq_none_iff.mpr fun c hc => ?_
      cases c with
      | process pkt => rfl
      | timerSweep nowUs order =>
        have hnow := hearly nowUs.toInt (List.mem_filterMap.mpr ⟨_,hc,rfl⟩)
        refine if_neg ?_
        omega
      | drainAll nowUs order => rfl
    have hfirst : firstIdleSweep cfg state.lastSeenUs (between++[.timerSweep sUs order])=
        some sUs := by
      have hdue : (idleTimeoutUs cfg).toInt≤ sUs.toInt-state.lastSeenUs.toInt := by omega
      unfold firstIdleSweep at hnone ⊢
      rw [List.findSome?_append,hnone,List.findSome?_singleton,Option.none_or,idleSweep,if_pos hdue]
    have hsweepsFit : (tableMachine cfg onEvent).Along SweepFits
        (tableAfter cfg onEvent sink before) (between++[.timerSweep sUs order]) := by
      rw [hcalls] at hfits
      refine Machine.Along.before _ (Machine.Along.after _ hfits) ⟨after,?_⟩
      rw [List.append_assoc,List.singleton_append]
    rw [(quiet_run_tracked cfg onEvent hsweeps hkeyed (sweepFits_idle cfg onEvent hsweepsFit)
      hlookup).2,hfirst]
    rfl
  · intro p hlast hp
    obtain ⟨front,hfront⟩ := List.getLast?_eq_some_iff.mp hlast
    rw [hcalls,←List.append_assoc,sweepTimes_append,hfront,List.append_assoc,
      List.singleton_append,sweepTimes_sweep] at hspaced
    exact hspaced.drop.reach [] hp (List.forall_mem_nil _)

/-- In every run whose sweeps do not go back and are at most `d` apart, with
any packets in between, and in which no difference that a sweep takes
overflows, Stats events of different sweeps are the heartbeat interval apart, a
flow that stays gets its next one less than the interval and `d` after a
heartbeat, and a flow without further packets is ended by the first sweep at
least the timeout after its last one. -/
theorem sweeps_on_time (hinterval : 0<cfg.statsIntervalSec) (sink : σ) {d : ℤ}
    {calls : List Call} (hspaced : Spaced d (sweepTimes calls))
    (hfits : (tableMachine cfg onEvent).Along SweepFits (.initial sink) calls) :
    OnTime cfg onEvent sink d calls := by
  have hseconds : 0<cfg.statsIntervalSec.toInt := Int32.lt_iff_toInt_lt.mp hinterval
  have hpositive : 0<statsInterval cfg := by
    unfold statsInterval
    omega
  constructor
  · intro before c between c' after hcalls evt evt' accepted accepted' hfirst hsecond hstats hstats'
    rw [hcalls] at hfits
    exact stats_apart cfg onEvent hpositive.le sink hfits hfirst hsecond hstats hstats'
  · intro before hUs order between sUs order' after hcalls hdue hearly hlate
    exact stats_next cfg onEvent hpositive hspaced sink hcalls hfits hdue hearly hlate
  · intro before between sUs order after hcalls key state hlookup hquiet hearly hlate
    exact idle_ended cfg onEvent hspaced sink hcalls hfits hlookup hquiet hearly hlate

end Schedules

/-- Sweeps every fifteen seconds from second 30 on, with a packet between. -/
theorem sweeps_on_time_four :
    OnTime {} (fun _ s => (true,s)) () 15000000
      [.timerSweep 30000000 .stored,.process {timestampUs := 31000000},
        .timerSweep 45000000 .stored,.timerSweep 60000000 .stored,
        .timerSweep 75000000 .stored] :=
  sweeps_on_time {} (fun _ s => (true,s)) (by decide) () (by decide) (by decide)

/-- A single sweep of November 2023 does not end a flow that was last seen
before the times of any clock. -/
theorem ancient_flow_outlives :
    ¬OnTime {} (fun _ s => (true,s)) () 15000000
      [.process ancientDatagram,.timerSweep 1700000000000000 .stored] := by
  intro h
  have hended := h.ended [.process ancientDatagram] [] 1700000000000000 .stored [] rfl
    (keyFromPacket ancientDatagram) (firstState (keyFromPacket ancientDatagram) ancientDatagram)
    (by decide) (List.forall_mem_nil _) (List.forall_mem_nil _) (by decide)
  exact absurd hended.1 (by decide)

end PacketPipe.FlowHeartbeats

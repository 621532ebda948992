import Mathlib.Data.List.Induction
import PacketPipe.FlowSweeps

/-!
# Idle gaps between the packets of a flow

`process` never asks how long a flow was idle; only sweeps do. While a flow
gets no packet, nothing but heartbeats happens to it until the first sweep
that finds it idle, which ends it. Whether the next packet of its key is
counted in it or opens a new flow depends on that sweep alone.
-/

namespace PacketPipe.FlowIdleGaps

open FlowEvents ConfigParserModel ObservedMachines FlowTableModel FlowLifetimes FlowSweeps
open SignedWords

/-- The time that a call carries. -/
def callTimeUs : Call → Int64
  | .process pkt => pkt.timestampUs
  | .timerSweep nowUs _ => nowUs
  | .drainAll nowUs _ => nowUs

/-- The times never decrease in call order. -/
def Timely (calls : List Call) : Prop :=
  calls.Pairwise fun c d => (callTimeUs c).toInt≤(callTimeUs d).toInt

/-- Times can be compared. -/
instance decidableTimely (calls : List Call) : Decidable (Timely calls) :=
  inferInstanceAs (Decidable (calls.Pairwise _))

/-- A call that is neither a packet of the key nor a drain. -/
def Quiet (key : FlowKey) : Call → Prop
  | .process pkt => keyFromPacket pkt≠key
  | .timerSweep _ _ => True
  | .drainAll _ _ => False

/-- Packets and sweeps. -/
def Undrained : Call → Prop
  | .drainAll _ _ => False
  | _ => True

/-- The last packet of a key among the calls, with the calls before and after. -/
structure LastPacket (key : FlowKey) (calls before : List Call) (pkt : ParsedPacket)
    (since : List Call) : Prop where
  /-- The packet among the calls. -/
  calls_eq : calls=before++.process pkt::since
  /-- It is a packet of the key. -/
  own : keyFromPacket pkt=key
  /-- The calls since then leave the key to the sweeps. -/
  quiet : ∀ c∈since,Quiet key c

/-- No difference of a sweep with the times in the table overflows. -/
def IdleFits {σ : Type} (t : FlowTable σ) : Call → Prop
  | .timerSweep nowUs _ => SeenFits nowUs t
  | _ => True

instance decidableIdleFits {σ : Type} (t : FlowTable σ) : ∀ c,Decidable (IdleFits t c)
  | .timerSweep nowUs _ => decidableSeenFits nowUs t
  | .process _ => .isTrue trivial
  | .drainAll _ _ => .isTrue trivial

/-- The time of a sweep that finds a flow idle which was last seen then. -/
def idleSweep (cfg : AppConfig) (lastSeenUs : Int64) : Call → Option Int64
  | .timerSweep nowUs _ =>
    if (idleTimeoutUs cfg).toInt≤nowUs.toInt-lastSeenUs.toInt then some nowUs else none
  | _ => none

/-- The time of the first of them. -/
def firstIdleSweep (cfg : AppConfig) (lastSeenUs : Int64) (calls : List Call) : Option Int64 :=
  calls.findSome? (idleSweep cfg lastSeenUs)

/-- Anything but a heartbeat. -/
def notStats : LifeObservation → Bool
  | .packet _ => true
  | .event evt => evt.type≠.flowStats

/-- What happens to a key besides heartbeats. -/
def changesOf (key : FlowKey) (trace : List Observation) : List LifeObservation :=
  (trace.filterMap (lifeView key)).filter notStats

theorem changesOf_append (key : FlowKey) (front back : List Observation) :
    changesOf key (front++back)=changesOf key front++changesOf key back := by
  rw [changesOf,List.filterMap_append,List.filter_append]
  rfl

/-- The End of a flow at the first sweep that finds it idle, if there is one. -/
def idleEnding (state : FlowState) (sweepUs : Option Int64) : List LifeObservation :=
  (sweepUs.map fun nowUs => .event (endEvent state nowUs .idleTimeout)).toList

section Gaps

variable {σ : Type} (cfg : AppConfig) (onEvent : EventCallback σ)

/-- A sweep finds an entry idle when its time is an idle sweep's and not out
of reach. -/
theorem idleSweep_sweep {nowUs : Int64} (order : MapOrder) {state : FlowState}
    (h : Fits 64 (nowUs.toInt-state.lastSeenUs.toInt)) :
    idleSweep cfg state.lastSeenUs (.timerSweep nowUs order)=
      if idleDue cfg nowUs state=true then some nowUs else none := by
  rw [idleDue_eq (h.gauged _),idleSweep,idleTimeoutUs_toInt]
  by_cases hidle : Idle cfg nowUs state
  · rw [if_pos (decide_eq_true hidle)]
    exact if_pos hidle
  · have htest : ¬decide (Idle cfg nowUs state)=true := by rwa [decide_eq_true_eq]
    rw [if_neg htest]
    exact if_neg hidle

/-- A key that is absent stays absent and unmentioned. -/
theorem quiet_absent {key : FlowKey} {c : Call} (hquiet : Quiet key c) {t : FlowTable σ}
    (hkeyed : Keyed t.flows) (habsent : t.flows.lookup key=none) :
    ((tableMachine cfg onEvent).step t c).1.flows.lookup key=none ∧
      ((tableMachine cfg onEvent).step t c).2.filterMap (lifeView key)=[] := by
  have hproject := call_project cfg onEvent t c hkeyed key
  rw [habsent] at hproject
  cases c with
  | process pkt =>
    have hother : keyFromPacket pkt≠key := hquiet
    rw [lifeInputs,if_neg fun h => hother h.1] at hproject
    exact ⟨hproject.1.symm,hproject.2.symm⟩
  | timerSweep nowUs order => exact ⟨hproject.1.symm,hproject.2.symm⟩
  | drainAll nowUs order => exact False.elim hquiet

/-- A tracked flow is left as it is, heartbeats aside, or ended by the sweep. -/
theorem quiet_tracked {key : FlowKey} {c : Call} (hquiet : Quiet key c) {t : FlowTable σ}
    (hkeyed : Keyed t.flows) (hfits : IdleFits t c) {state : FlowState}
    (hlookup : t.flows.lookup key=some state) :
    ((tableMachine cfg onEvent).step t c).1.flows.lookup key=
        (if (idleSweep cfg state.lastSeenUs c).isSome=true then none else some state) ∧
      changesOf key ((tableMachine cfg onEvent).step t c).2=
        idleEnding state (idleSweep cfg state.lastSeenUs c) := by
  have hproject := call_project cfg onEvent t c hkeyed key
  rw [hlookup] at hproject
  obtain ⟨hfinal,htrace⟩ := hproject
  rw [changesOf,←hfinal,←htrace]
  cases c with
  | process pkt =>
    have hother : keyFromPacket pkt≠key := hquiet
    rw [lifeInputs,if_neg fun h => hother h.1]
    exact ⟨rfl,rfl⟩
  | timerSweep nowUs order =>
    have hdifference : Fits 64 (nowUs.toInt-state.lastSeenUs.toInt) :=
      hfits ⟨key,state⟩ (List.of_mem_dlookup hlookup)
    simp only [lifeInputs,Machine.final_cons,Machine.final_nil,Machine.trace_cons,
      Machine.trace_nil,List.append_nil,step_life,lifeStep,
      idleSweep_sweep cfg order hdifference]
    cases idleDue cfg nowUs state <;> cases heartbeatDue cfg nowUs t.lastHeartbeatUs <;>
      exact ⟨rfl,rfl⟩
  | drainAll nowUs order => exact False.elim hquiet

/-- Over any number of quiet calls an absent key stays absent. -/
theorem quiet_run_absent {key : FlowKey} {calls : List Call} (hquiet : ∀ c∈calls,Quiet key c)
    {t : FlowTable σ} (hkeyed : Keyed t.flows) (habsent : t.flows.lookup key=none) :
    ((tableMachine cfg onEvent).final t calls).flows.lookup key=none ∧
      ((tableMachine cfg onEvent).trace t calls).filterMap (lifeView key)=[] := by
  induction calls generalizing t with
  | nil => exact ⟨habsent,rfl⟩
  | cons c rest ih =>
    have hfirst := List.forall_mem_cons.mp hquiet
    have hstep := quiet_absent cfg onEvent hfirst.1 hkeyed habsent
    have hrest := ih hfirst.2 (call_keyed cfg onEvent t c hkeyed) hstep.1
    rw [Machine.final_cons,Machine.trace_cons,List.filterMap_append,hstep.2,hrest.2]
    exact ⟨hrest.1,rfl⟩

/-- Over any number of quiet calls a tracked flow stays as it is until the
first sweep that finds it idle, which ends it; the key is absent from then on. -/
theorem quiet_run_tracked {key : FlowKey} {calls : List Call} (hquiet : ∀ c∈calls,Quiet key c)
    {t : FlowTable σ} (hkeyed : Keyed t.flows)
    (hfits : (tableMachine cfg onEvent).Along IdleFits t calls) {state : FlowState}
    (hlookup : t.flows.lookup key=some state) :
    ((tableMachine cfg onEvent).final t calls).flows.lookup key=
        (if (firstIdleSweep cfg state.lastSeenUs calls).isSome=true then none else some state) ∧
      changesOf key ((tableMachine cfg onEvent).trace t calls)=
        idleEnding state (firstIdleSweep cfg state.lastSeenUs calls) := by
  induction calls generalizing t with
  | nil => exact ⟨hlookup,rfl⟩
  | cons c rest ih =>
    have hfirst := List.forall_mem_cons.mp hquiet
    have hstep := quiet_tracked cfg onEvent hfirst.1 hkeyed hfits.1 hlookup
    have hnext := call_keyed cfg onEvent t c hkeyed
    rw [Machine.final_cons,Machine.trace_cons,changesOf_append,hstep.2,firstIdleSweep,
      List.findSome?_cons]
    cases hsweep : idleSweep cfg state.lastSeenUs c with
    | none =>
      rw [hsweep] at hstep
      have hrest := ih hfirst.2 hnext hfits.2 hstep.1
      exact hrest
    | some nowUs =>
      rw [hsweep] at hstep
      have hrest := quiet_run_absent cfg onEvent hfirst.2 hnext hstep.1
      rw [changesOf,hrest.2]
      exact ⟨hrest.1,rfl⟩

/-- The entry of a packet just processed was last seen at the packet's time. -/
theorem process_lastSeenUs {pkt : ParsedPacket} {t : FlowTable σ} {state : FlowState}
    (hlookup : (process cfg onEvent pkt t).1.flows.lookup (keyFromPacket pkt)=some state) :
    state.lastSeenUs=pkt.timestampUs := by
  have heffect := process_effect cfg onEvent pkt t
  generalize (process cfg onEvent pkt t).1.flows=flows,
    (process cfg onEvent pkt t).2=seen at heffect hlookup
  cases heffect with
  | refused _ habsent =>
    rw [habsent] at hlookup
    cases hlookup
  | opened =>
    rw [AList.lookup_insert] at hlookup
    cases hlookup
    rfl
  | updated =>
    rw [AList.lookup_insert] at hlookup
    cases hlookup
    rfl
  | closed =>
    rw [AList.lookup_erase] at hlookup
    cases hlookup

/-- A packet of an absent key opens a flow unless the table is full. -/
theorem process_absent {pkt : ParsedPacket} {t : FlowTable σ}
    (habsent : t.flows.lookup (keyFromPacket pkt)=none) :
    tableFull cfg t.flows=true ∨ ∃ accepted,(process cfg onEvent pkt t).2=
      [.counted pkt,.emitted (startEvent (firstState (keyFromPacket pkt) pkt) pkt) accepted] := by
  have heffect := process_effect cfg onEvent pkt t
  generalize (process cfg onEvent pkt t).1.flows=flows,
    (process cfg onEvent pkt t).2=seen at heffect ⊢
  cases heffect with
  | refused hrefuses =>
    rw [refuses,habsent] at hrefuses
    exact Or.inl hrefuses
  | opened _ _ accepted => exact Or.inr ⟨accepted,rfl⟩
  | updated state _ _ hlookup =>
    rw [habsent] at hlookup
    cases hlookup
  | closed state _ _ hlookup =>
    rw [habsent] at hlookup
    cases hlookup

/-- A tracked flow had a packet, and was left to the sweeps since the last one. -/
theorem tracked_lastPacket (sink : σ) {calls : List Call} (hcalls : ∀ c∈calls,Undrained c)
    {key : FlowKey} {state : FlowState}
    (hlookup : (tableAfter cfg onEvent sink calls).flows.lookup key=some state) :
    ∃ before pkt since,LastPacket key calls before pkt since := by
  induction calls using List.reverseRecOn generalizing state with
  | nil =>
    have hnone := initial_lookup sink key
    cases hnone.symm.trans hlookup
  | append_singleton calls c ih =>
    obtain ⟨hbefore,hlast⟩ := List.forall_mem_append.mp hcalls
    have hkeyed := run_keyed cfg onEvent (.initial sink) keyed_empty calls
    rw [tableAfter,Machine.final_concat] at hlookup
    have hextend (hquiet : Quiet key c) :
        ∃ before pkt since,LastPacket key (calls++[c]) before pkt since := by
      cases hprevious : (tableAfter cfg onEvent sink calls).flows.lookup key with
      | none =>
        rw [(quiet_absent cfg onEvent hquiet hkeyed hprevious).1] at hlookup
        cases hlookup
      | some earlier =>
        obtain ⟨before,pkt,since,hpacket⟩ := ih hbefore hprevious
        refine ⟨before,pkt,since++[c],?_,hpacket.own,?_⟩
        · rw [hpacket.calls_eq,List.append_assoc,List.cons_append]
        · exact List.forall_mem_append.mpr ⟨hpacket.quiet,List.forall_mem_singleton.mpr hquiet⟩
    cases c with
    | process pkt =>
      by_cases hown : keyFromPacket pkt=key
      · exact ⟨calls,pkt,[],rfl,hown,List.forall_mem_nil _⟩
      · exact hextend hown
    | timerSweep nowUs order => exact hextend trivial
    | drainAll nowUs order => exact False.elim (List.forall_mem_singleton.mp hlast)

/-- The table after the calls, from the table after the last packet of a key. -/
theorem LastPacket.after {key : FlowKey} {calls before since : List Call} {pkt : ParsedPacket}
    (h : LastPacket key calls before pkt since) (sink : σ) :
    tableAfter cfg onEvent sink calls=
      (tableMachine cfg onEvent).final (tableAfter cfg onEvent sink (before++[.process pkt]))
        since := by
  rw [h.calls_eq,←List.singleton_append,←List.append_assoc,tableAfter,Machine.final_append]

/-- What has become of a flow since its last packet: a sweep that finds it
idle has ended it, or it is as it was. -/
theorem LastPacket.outcome {key : FlowKey} {calls before since : List Call} {last : ParsedPacket}
    (h : LastPacket key calls before last since) (sink : σ)
    (hfits : (tableMachine cfg onEvent).Along IdleFits (.initial sink) calls) {state : FlowState}
    (hlookup : (tableAfter cfg onEvent sink (before++[.process last])).flows.lookup key=
      some state) :
    state.lastSeenUs=last.timestampUs ∧
      (tableAfter cfg onEvent sink calls).flows.lookup key=
        (if (firstIdleSweep cfg last.timestampUs since).isSome=true then none else some state) ∧
      changesOf key
          ((tableMachine cfg onEvent).trace
            (tableAfter cfg onEvent sink (before++[.process last])) since)=
        idleEnding state (firstIdleSweep cfg last.timestampUs since) := by
  have hkeyed := run_keyed cfg onEvent (.initial sink) keyed_empty (before++[.process last])
  rw [h.calls_eq,←List.singleton_append,←List.append_assoc] at hfits
  have hrun := quiet_run_tracked cfg onEvent h.quiet hkeyed (Machine.Along.after _ hfits) hlookup
  have hseen := hlookup
  rw [tableAfter,Machine.final_concat,←h.own] at hseen
  have hlastSeen := process_lastSeenUs cfg onEvent hseen
  rw [hlastSeen] at hrun
  rw [h.after cfg onEvent sink]
  exact ⟨hlastSeen,hrun⟩

/-- An idle sweep comes no later than a call after all of these. -/
theorem firstIdleSweep_times {calls : List Call} {next : Call} (htimes : Timely (calls++[next]))
    {since : List Call} (hsince : since⊆calls) {lastSeenUs nowUs : Int64}
    (hfirst : firstIdleSweep cfg lastSeenUs since=some nowUs) :
    lastSeenUs.toInt+(idleTimeoutUs cfg).toInt≤nowUs.toInt ∧
      nowUs.toInt≤(callTimeUs next).toInt := by
  obtain ⟨c,hmem,hsweep⟩ := List.exists_of_findSome?_eq_some hfirst
  have hlast := (List.pairwise_append.mp htimes).2.2 c (hsince hmem) next List.mem_cons_self
  unfold idleSweep at hsweep
  split at hsweep
  · split at hsweep
    · next hdue =>
      cases hsweep
      have hbound : nowUs.toInt≤(callTimeUs next).toInt := hlast
      constructor
      · omega
      · exact hbound
    · cases hsweep
  · cases hsweep

/-- What the sweeps since the last packet of its key decide about a packet. -/
structure SweepsDecide (sink : σ) (calls : List Call) (pkt : ParsedPacket) : Prop where
  /-- A packet is counted in an existing entry only if no sweep since the
  entry's last packet found the flow idle. -/
  counted : ∀ state,
    (tableAfter cfg onEvent sink calls).flows.lookup (keyFromPacket pkt)=some state →
      ∃ before last since,LastPacket (keyFromPacket pkt) calls before last since ∧
        state.lastSeenUs=last.timestampUs ∧ firstIdleSweep cfg last.timestampUs since=none
  /-- Without such a sweep it is counted in the entry, whatever the gap. -/
  kept : ∀ before last since,LastPacket (keyFromPacket pkt) calls before last since → ∀ state,
    (tableAfter cfg onEvent sink (before++[.process last])).flows.lookup (keyFromPacket pkt)=
        some state →
      firstIdleSweep cfg last.timestampUs since=none →
        (tableAfter cfg onEvent sink calls).flows.lookup (keyFromPacket pkt)=some state
  /-- With such a sweep there was a gap of the idle timeout, the sweep ended
  the flow, and the packet opens a new one unless the table is full. -/
  split : ∀ before last since,LastPacket (keyFromPacket pkt) calls before last since → ∀ state,
    (tableAfter cfg onEvent sink (before++[.process last])).flows.lookup (keyFromPacket pkt)=
        some state → ∀ nowUs,
      firstIdleSweep cfg last.timestampUs since=some nowUs →
        (last.timestampUs.toInt+(idleTimeoutUs cfg).toInt≤nowUs.toInt ∧
          nowUs.toInt≤pkt.timestampUs.toInt) ∧
        changesOf (keyFromPacket pkt)
            ((tableMachine cfg onEvent).trace
              (tableAfter cfg onEvent sink (before++[.process last])) since)=
          [.event (endEvent state nowUs .idleTimeout)] ∧
        (tableAfter cfg onEvent sink calls).flows.lookup (keyFromPacket pkt)=none ∧
        (tableFull cfg (tableAfter cfg onEvent sink calls).flows=true ∨
          ∃ accepted,(process cfg onEvent pkt (tableAfter cfg onEvent sink calls)).2=
            [.counted pkt,.emitted (startEvent (firstState (keyFromPacket pkt) pkt) pkt) accepted])

/-- In every run of packets and sweeps with times that never decrease, as long
as no difference of a sweep overflows, a packet that arrives after an idle gap
of the timeout or more opens a new flow, the old one having ended, exactly when
a sweep fell into the gap at a time at which the flow was idle; otherwise it is
counted in the old flow. -/
theorem sweeps_decide (sink : σ) {calls : List Call} (hcalls : ∀ c∈calls,Undrained c)
    {pkt : ParsedPacket} (htimes : Timely (calls++[.process pkt]))
    (hfits : (tableMachine cfg onEvent).Along IdleFits (.initial sink) calls) :
    SweepsDecide cfg onEvent sink calls pkt := by
  constructor
  · intro state hlookup
    obtain ⟨before,last,since,hlast⟩ := tracked_lastPacket cfg onEvent sink hcalls hlookup
    have hkeyed := run_keyed cfg onEvent (.initial sink) keyed_empty (before++[.process last])
    refine ⟨before,last,since,hlast,?_⟩
    cases hopened : (tableAfter cfg onEvent sink (before++[.process last])).flows.lookup
        (keyFromPacket pkt) with
    | none =>
      have habsent := (quiet_run_absent cfg onEvent hlast.quiet hkeyed hopened).1
      rw [←hlast.after cfg onEvent sink,hlookup] at habsent
      cases habsent
    | some opened =>
      obtain ⟨hlastSeen,hfinal,_⟩ := hlast.outcome cfg onEvent sink hfits hopened
      rw [hlookup] at hfinal
      split at hfinal
      · cases hfinal
      · next hnone =>
        cases hfinal
        exact ⟨hlastSeen,Option.not_isSome_iff_eq_none.mp hnone⟩
  · intro before last since hlast state hopened hnone
    obtain ⟨_,hfinal,_⟩ := hlast.outcome cfg onEvent sink hfits hopened
    rw [hfinal,hnone]
    rfl
  · intro before last since hlast state hopened nowUs hfirst
    obtain ⟨_,hfinal,hended⟩ := hlast.outcome cfg onEvent sink hfits hopened
    rw [hfirst] at hfinal hended
    have hsince : since⊆calls := fun c hc => by
      rw [hlast.calls_eq]
      exact List.mem_append_right _ (List.mem_cons_of_mem _ hc)
    refine ⟨firstIdleSweep_times cfg htimes hsince hfirst,hended,hfinal,?_⟩
    exact process_absent cfg onEvent hfinal

end Gaps

/-- A datagram at second 1. -/
def earlyDatagram : ParsedPacket :=
  {srcPort := 53,protocol := ipprotoUdp,wireLength := 60,timestampUs := 1000000}

/-- The next datagram of the flow, an hour later. -/
def lateDatagram : ParsedPacket := {earlyDatagram with timestampUs := 3601000000}

/-- A sweep after two minutes ends the flow, and the late datagram opens a new
one. -/
theorem sweeps_decide_swept :
    SweepsDecide {} (fun _ s => (true,s)) () [.process earlyDatagram,.timerSweep 121000000 .stored]
      lateDatagram :=
  sweeps_decide {} (fun _ s => (true,s)) () (by simp [Undrained]) (by decide) (by decide)

/-- Without a sweep an hour of silence does not split the flow: times never
decrease, the gap is sixty timeouts, and the late datagram is counted in the
entry of the early one. Nor does a sweep split it that the flow is out of reach
of, because the difference overflows. -/
theorem long_gap_counted :
    (Timely [.process earlyDatagram,.process lateDatagram] ∧
      ((tableAfter {} (fun _ s => (true,s)) () [.process earlyDatagram]).flows.lookup
          (keyFromPacket lateDatagram)).map FlowState.lastSeenUs=some 1000000 ∧
      (idleTimeoutUs {}).toInt≤lateDatagram.timestampUs.toInt-1000000 ∧
      ((tableAfter {} (fun _ s => (true,s)) ()
          [.process earlyDatagram,.process lateDatagram]).flows.lookup
          (keyFromPacket lateDatagram)).map FlowState.packetCount=some 2) ∧
    Timely [.process ancientDatagram,.timerSweep 1700000000000000 .stored,
        .process {lateDatagram with timestampUs := 1700000001000000}] ∧
      firstIdleSweep {} ancientDatagram.timestampUs [.timerSweep 1700000000000000 .stored]=
        some 1700000000000000 ∧
      ((tableAfter {} (fun _ s => (true,s)) ()
          [.process ancientDatagram,.timerSweep 1700000000000000 .stored,
            .process {lateDatagram with timestampUs := 1700000001000000}]).flows.lookup
          (keyFromPacket lateDatagram)).map FlowState.packetCount=some 2 := by
  decide

end PacketPipe.FlowIdleGaps

import PacketPipe.CaptureSourceModel
import PacketPipe.FlowTableMetrics

/-!
# Every frame is counted in a flow or dropped

The counters of received and dropped packets are incremented in the source's
handler, in `process` and in `emit`. Every frame that libpcap delivers is
counted in one flow, is no packet, or is dropped at the limit. The dropped
counter holds the last two and the events that the queue refused.
-/

namespace PacketPipe.CaptureAccounting

open FlowEvents ConfigParserModel ObservedMachines FlowTableModel FlowLifetimes FlowAccounting
open FlowTableEntries FlowTableMetrics CaptureSourceModel

/-- The packets that states have counted. -/
def packetTotal (states : List FlowState) : ℕ :=
  (states.map fun state => state.packetCount.toNat).sum

/-- The states of the live flows. -/
def liveStates (flows : FlowMap) : List FlowState := flows.entries.map Sigma.snd

theorem packetTotal_append (xs ys : List FlowState) :
    packetTotal (xs++ys)=packetTotal xs+packetTotal ys := by
  simp only [packetTotal,List.map_append,List.sum_append]

/-- The order of the states does not matter. -/
theorem packetTotal_perm {xs ys : List FlowState} (h : xs.Perm ys) :
    packetTotal xs=packetTotal ys := (h.map _).sum_eq

/-- Counting one packet adds one, or wraps around at 2^64. -/
theorem countPacket_total (state : FlowState) (pkt : ParsedPacket) :
    ∃ wraps,(countPacket state pkt).packetCount.toNat+2^64*wraps=state.packetCount.toNat+1 := by
  have hvalue : (countPacket state pkt).packetCount.toNat=(state.packetCount.toNat+1)%2^64 := by
    rw [countPacket,UInt64.toNat_add]
    rfl
  refine ⟨(state.packetCount.toNat+1)/2^64,?_⟩
  rw [hvalue]
  exact Nat.mod_add_div _ _

section Calls

variable {σ : Type} (cfg : AppConfig) (onEvent : EventCallback σ)

/-- What a call counts goes to the live flows, whose other entries it leaves
alone, and to the records of the ended ones, up to multiples of 2^64. -/
theorem call_packets (t : FlowTable σ) (call : Call) :
    ∃ wraps,packetTotal (liveStates ((tableMachine cfg onEvent).step t call).1.flows)+
        packetTotal (flowRecords ((tableMachine cfg onEvent).step t call).2)+2^64*wraps=
      packetTotal (liveStates t.flows)+
        (acceptedPackets ((tableMachine cfg onEvent).step t call).2).length := by
  cases call with
  | process pkt =>
    have heffect := process_effect cfg onEvent pkt t
    rw [step_process]
    generalize (process cfg onEvent pkt t).1.flows=flows,
      (process cfg onEvent pkt t).2=seen at heffect ⊢
    have hapart : ∀ state,t.flows.lookup (keyFromPacket pkt)=some state →
        packetTotal (liveStates t.flows)=state.packetCount.toNat+
          packetTotal (liveStates (t.flows.erase (keyFromPacket pkt))) := by
      intro state hlookup
      have hperm := (entries_at hlookup).map (Sigma.snd : FlowEntry → FlowState)
      exact packetTotal_perm hperm
    cases heffect with
    | refused => exact ⟨0,rfl⟩
    | opened _ hlookup accepted =>
      refine ⟨0,?_⟩
      rw [liveStates,entries_insert_new hlookup]
      exact Nat.add_comm 1 _
    | updated state _ _ hlookup =>
      obtain ⟨wraps,hcount⟩ := countPacket_total state pkt
      have hlive : packetTotal
          (liveStates (t.flows.insert (keyFromPacket pkt) (countPacket state pkt)))=
            (countPacket state pkt).packetCount.toNat+
              packetTotal (liveStates (t.flows.erase (keyFromPacket pkt))) := rfl
      refine ⟨wraps,?_⟩
      rw [hlive,hapart state hlookup]
      change _+0+_=_+1
      omega
    | closed state _ _ hlookup accepted =>
      obtain ⟨wraps,hcount⟩ := countPacket_total state pkt
      refine ⟨wraps,?_⟩
      rw [liveStates,entries_insert_erase,hapart state hlookup]
      change packetTotal (liveStates _)+((countPacket state pkt).packetCount.toNat+0)+_=_+1
      omega
  | timerSweep nowUs order =>
    have hkept := (timerSweep_entries cfg onEvent nowUs order t).map Sigma.snd
    have hended := timerSweep_ended cfg onEvent nowUs order t
    have hsplit := ((List.filter_append_perm (fun e => idleDue cfg nowUs e.2)
      t.flows.entries).map Sigma.snd)
    rw [List.map_append] at hsplit
    have htotal := packetTotal_perm hsplit
    rw [packetTotal_append,Nat.add_comm] at htotal
    have hnone := upkeep_accepted (timerSweep_upkeep cfg onEvent nowUs order t)
    refine ⟨0,?_⟩
    rw [step_timerSweep,hnone,liveStates,packetTotal_perm hkept,packetTotal_perm hended]
    exact htotal
  | drainAll nowUs order =>
    have hended := drainAll_records onEvent nowUs order t
    have hnone := upkeep_accepted (drainLoop_upkeep onEvent nowUs (order.visit t.flows) t)
    have hempty : liveStates (drainAll onEvent nowUs order t).1.flows=[] := by
      rw [liveStates,drainAll_entries]
      rfl
    refine ⟨0,?_⟩
    rw [step_drainAll,hempty,packetTotal_perm hended,drainAll,hnone]
    exact Nat.zero_add _

end Calls

/-- A frame that is no packet: `decode` returns nothing. -/
def undecodable : CaptureInput → Bool
  | .frame frame => (decoded frame).isNone
  | .timerSweep _ _ => false
  | .drainAll _ _ => false

/-- The packet of a frame whose flow is unknown when the table is full. -/
def overLimit {σ : Type} (cfg : AppConfig) (t : FlowTable σ) : CaptureInput → List ParsedPacket
  | .frame frame => (decoded frame).toList.filter
      fun pkt => keyFromPacket pkt∉t.flows ∧ tableFull cfg t.flows=true
  | .timerSweep _ _ => []
  | .drainAll _ _ => []

/-- The packet of a frame whose flow is known or has room. -/
def takenIn {σ : Type} (cfg : AppConfig) (t : FlowTable σ) : CaptureInput → List ParsedPacket
  | .frame frame => (decoded frame).toList.filter
      fun pkt => keyFromPacket pkt∈t.flows ∨ tableFull cfg t.flows=false
  | .timerSweep _ _ => []
  | .drainAll _ _ => []

/-- Frames that were no packet. -/
def undecodableFrames (seen : List SourceObservation) : ℕ := seen.count .undecodable

/-- Frames of new flows dropped at the limit. -/
def overLimitFrames (seen : List SourceObservation) : ℕ := (tablePart seen).countP isDrop

/-- Frames counted into a flow. -/
def countedFrames (seen : List SourceObservation) : ℕ := (acceptedPackets (tablePart seen)).length

/-- Events that the queue refused. -/
def refusedEvents (seen : List SourceObservation) : ℕ := (tablePart seen).countP isRefusal

/-- Packets in the records of the ended flows. -/
def endedTotal (seen : List SourceObservation) : ℕ := packetTotal (flowRecords (tablePart seen))

theorem tablePart_append (xs ys : List SourceObservation) :
    tablePart (xs++ys)=tablePart xs++tablePart ys := List.filterMap_append

section Sums

variable (xs ys : List SourceObservation)

theorem undecodableFrames_append :
    undecodableFrames (xs++ys)=undecodableFrames xs+undecodableFrames ys := List.count_append

theorem overLimitFrames_append :
    overLimitFrames (xs++ys)=overLimitFrames xs+overLimitFrames ys := by
  rw [overLimitFrames,tablePart_append,List.countP_append]
  rfl

theorem countedFrames_append : countedFrames (xs++ys)=countedFrames xs+countedFrames ys := by
  rw [countedFrames,tablePart_append,acceptedPackets,List.filterMap_append,List.length_append]
  rfl

theorem refusedEvents_append : refusedEvents (xs++ys)=refusedEvents xs+refusedEvents ys := by
  rw [refusedEvents,tablePart_append,List.countP_append]
  rfl

theorem endedTotal_append : endedTotal (xs++ys)=endedTotal xs+endedTotal ys := by
  rw [endedTotal,tablePart_append,flowRecords_append,packetTotal_append]
  rfl

end Sums

/-- The table's part of what a call is seen to do. -/
theorem tablePart_called (seen : List Observation) : tablePart (seen.map .table)=seen := by
  rw [tablePart,List.filterMap_map]
  exact List.filterMap_some

/-- A call leaves no frame undecodable. -/
theorem undecodable_called (seen : List Observation) :
    undecodableFrames (seen.map .table)=0 := by
  refine List.count_eq_zero.mpr fun hmem => ?_
  obtain ⟨o,_,ho⟩ := List.mem_map.mp hmem
  cases ho

/-- Packets handled are counted or dropped. -/
theorem handled_split (seen : List Observation) :
    (seen.filterMap handled).length=(acceptedPackets seen).length+seen.countP isDrop := by
  unfold acceptedPackets
  induction seen with
  | nil => rfl
  | cons o seen ih =>
    rw [List.filterMap_cons,List.filterMap_cons,List.countP_cons]
    cases o with
    | counted pkt =>
      change _+1=(_+1)+(_+0)
      omega
    | dropped pkt warned =>
      change (seen.filterMap handled).length+1=
        (seen.filterMap countedPacket).length+(seen.countP isDrop+1)
      omega
    | emitted evt accepted => exact ih

/-- The counters and the flows account for the frames delivered so far. -/
structure Accounted (t : FlowTable σ) (seen : List SourceObservation) : Prop where
  /-- `packets_dropped`: frames in no flow, and refused events. -/
  dropped : t.metrics.packetsDropped=
    undecodableFrames seen+overLimitFrames seen+refusedEvents seen
  /-- `packets_received`: frames that are packets. -/
  received : t.metrics.packetsReceived=countedFrames seen+overLimitFrames seen
  /-- Live and ended flows have counted the others, modulo 2^64. -/
  packets : ∃ wraps,packetTotal (liveStates t.flows)+endedTotal seen+2^64*wraps=countedFrames seen

section Runs

variable {σ : Type} (cfg : AppConfig) (onEvent : EventCallback σ)

/-- Every input keeps the account. -/
theorem Accounted.step {t : FlowTable σ} {seen : List SourceObservation} (h : Accounted t seen)
    (input : CaptureInput) :
    Accounted ((captureMachine cfg onEvent).step t input).1
      (seen++((captureMachine cfg onEvent).step t input).2) := by
  have hdropped := h.dropped
  have hreceived := h.received
  obtain ⟨wraps,hpackets⟩ := h.packets
  cases hcall : inputCall input with
  | none =>
    rw [(step_skipped cfg onEvent t hcall).2]
    constructor
    · rw [undecodableFrames_append,overLimitFrames_append,refusedEvents_append]
      change t.metrics.packetsDropped+1=_+1+(_+0)+(_+0)
      omega
    · rw [countedFrames_append,overLimitFrames_append]
      exact hreceived
    · refine ⟨wraps,?_⟩
      rw [endedTotal_append,countedFrames_append]
      exact hpackets
  | some call =>
    have htallies := call_tallies cfg onEvent t call
    obtain ⟨more,hmore⟩ := call_packets cfg onEvent t call
    rw [step_called cfg onEvent t hcall,tableCall]
    generalize ((tableMachine cfg onEvent).step t call).1=t',
      ((tableMachine cfg onEvent).step t call).2=called at htallies hmore ⊢
    have hhandled := handled_split called
    have htable := tablePart_called called
    have hover : overLimitFrames (called.map .table)=called.countP isDrop :=
      congrArg (List.countP isDrop) htable
    have hrefused : refusedEvents (called.map .table)=called.countP isRefusal :=
      congrArg (List.countP isRefusal) htable
    have hcounted : countedFrames (called.map .table)=(acceptedPackets called).length :=
      congrArg (fun seen => (acceptedPackets seen).length) htable
    have hended : endedTotal (called.map .table)=packetTotal (flowRecords called) :=
      congrArg (fun seen => packetTotal (flowRecords seen)) htable
    constructor
    · rw [undecodableFrames_append,overLimitFrames_append,refusedEvents_append,
        undecodable_called,hover,hrefused,htallies.dropped]
      omega
    · rw [countedFrames_append,overLimitFrames_append,hcounted,hover,htallies.received]
      omega
    · refine ⟨wraps+more,?_⟩
      rw [endedTotal_append,countedFrames_append,hended,hcounted]
      dsimp only
      omega

/-- The account of every run. -/
theorem run_accounted_frames (sink : σ) (inputs : List CaptureInput) :
    Accounted (captureAfter cfg onEvent sink inputs) (captureTrace cfg onEvent sink inputs) := by
  have hinitial : Accounted (FlowTable.initial sink) [] := ⟨rfl,rfl,0,rfl⟩
  have hstep : ∀ t seen input,Accounted t seen →
      Accounted ((captureMachine cfg onEvent).step t input).1
        (seen++((captureMachine cfg onEvent).step t input).2) :=
    fun _ _ input h => h.step cfg onEvent input
  have hrun := Machine.history_invariant (captureMachine cfg onEvent) hstep hinitial inputs
  exact hrun

/-- Every frame has one outcome: it is taken in, over the limit or undecodable. -/
theorem frame_outcome (t : FlowTable σ) (input : CaptureInput) :
    (takenIn cfg t input).length+((undecodable input).toNat+(overLimit cfg t input).length)=
      (isFrame input).toNat := by
  cases input with
  | frame frame =>
    rw [takenIn,overLimit,undecodable,isFrame]
    cases decoded frame with
    | none => rfl
    | some pkt =>
      by_cases h : keyFromPacket pkt∈t.flows <;> cases hfull : tableFull cfg t.flows <;>
        simp [h]
  | timerSweep nowUs order => rfl
  | drainAll nowUs order => rfl

/-- What is seen of an input shows the outcome of its frame. -/
theorem step_outcome (t : FlowTable σ) (input : CaptureInput) :
    undecodableFrames ((captureMachine cfg onEvent).step t input).2=(undecodable input).toNat ∧
      overLimitFrames ((captureMachine cfg onEvent).step t input).2=
        (overLimit cfg t input).length ∧
      countedFrames ((captureMachine cfg onEvent).step t input).2=
        (takenIn cfg t input).length := by
  have houtcome := frame_outcome cfg t input
  cases hcall : inputCall input with
  | none =>
    obtain ⟨hframe,hstep⟩ := step_skipped cfg onEvent t hcall
    have hnone : undecodable input=true := by
      cases input with
      | frame frame =>
        rw [inputCall,Option.map_eq_none_iff] at hcall
        rw [undecodable,hcall]
        rfl
      | timerSweep nowUs order => cases hcall
      | drainAll nowUs order => cases hcall
    rw [hframe,hnone] at houtcome
    change _+(1+_)=1 at houtcome
    rw [hstep,hnone]
    refine ⟨rfl,?_,?_⟩
    · change 0=_
      omega
    · change 0=_
      omega
  | some call =>
    have hdecoded : undecodable input=false ∧ takenIn cfg t input=admitted cfg t call := by
      cases input with
      | frame frame =>
        rw [inputCall,Option.map_eq_some_iff] at hcall
        obtain ⟨pkt,hpkt,rfl⟩ := hcall
        rw [undecodable,takenIn,hpkt,admitted,Option.toList_some,List.filter_singleton,
          cond_eq_ite]
        simp only [decide_eq_true_eq]
        exact ⟨rfl,trivial⟩
      | timerSweep nowUs order =>
        cases hcall
        exact ⟨rfl,rfl⟩
      | drainAll nowUs order =>
        cases hcall
        exact ⟨rfl,rfl⟩
    have hhandled := call_handled cfg onEvent t call
    have hsplit := handled_split ((tableMachine cfg onEvent).step t call).2
    have hframe := offered_call hcall
    have hcounted := congrArg List.length (call_accepted cfg onEvent t call)
    rw [hhandled] at hsplit
    have hoffered : (offered call).toList.length=(isFrame input).toNat := by
      rw [←hframe]
      cases offered call <;> rfl
    rw [hdecoded.1,hdecoded.2] at houtcome
    change _+(0+_)=_ at houtcome
    rw [step_called cfg onEvent t hcall,tableCall]
    dsimp only
    rw [undecodable_called,overLimitFrames,countedFrames,tablePart_called,hdecoded.1,hdecoded.2]
    refine ⟨rfl,?_,hcounted⟩
    omega

/-- So it does over a whole run. -/
theorem run_outcomes (t : FlowTable σ) (inputs : List CaptureInput) :
    undecodableFrames ((captureMachine cfg onEvent).trace t inputs)=inputs.countP undecodable ∧
      overLimitFrames ((captureMachine cfg onEvent).trace t inputs)=
        ((captureMachine cfg onEvent).feed (overLimit cfg) t inputs).length ∧
      countedFrames ((captureMachine cfg onEvent).trace t inputs)=
        ((captureMachine cfg onEvent).feed (takenIn cfg) t inputs).length ∧
      inputs.countP isFrame=
        countedFrames ((captureMachine cfg onEvent).trace t inputs)+
          (undecodableFrames ((captureMachine cfg onEvent).trace t inputs)+
            overLimitFrames ((captureMachine cfg onEvent).trace t inputs)) := by
  induction inputs generalizing t with
  | nil => exact ⟨rfl,rfl,rfl,rfl⟩
  | cons input inputs ih =>
    obtain ⟨hundecodable,hover,htaken⟩ := step_outcome cfg onEvent t input
    have hframe := frame_outcome cfg t input
    obtain ⟨ihundecodable,ihover,ihtaken,ihframes⟩ :=
      ih ((captureMachine cfg onEvent).step t input).1
    rw [Machine.trace_cons,undecodableFrames_append,overLimitFrames_append,countedFrames_append,
      Machine.feed,Machine.feed,List.length_append,List.length_append,List.countP_cons,
      List.countP_cons]
    have hundecodableBit : (if undecodable input=true then 1 else 0)=(undecodable input).toNat := by
      cases undecodable input <;> rfl
    have hframeBit : (if isFrame input=true then 1 else 0)=(isFrame input).toNat := by
      cases isFrame input <;> rfl
    rw [hundecodableBit,hframeBit]
    refine ⟨?_,?_,?_,?_⟩ <;> omega

/-- The counters and the flows of a run account for the frames delivered. -/
structure FramesAccounted (sink : σ) (inputs : List CaptureInput) : Prop where
  /-- A frame is taken into a flow, undecodable or over the limit. -/
  frames : inputs.countP isFrame=
    ((captureMachine cfg onEvent).feed (takenIn cfg) (.initial sink) inputs).length+
      (inputs.countP undecodable+
        ((captureMachine cfg onEvent).feed (overLimit cfg) (.initial sink) inputs).length)
  /-- `packets_dropped` is the number of the last two, and of the events that
  the queue refused. -/
  dropped : (captureAfter cfg onEvent sink inputs).metrics.packetsDropped=
    inputs.countP undecodable+
      ((captureMachine cfg onEvent).feed (overLimit cfg) (.initial sink) inputs).length+
      refusedEvents (captureTrace cfg onEvent sink inputs)
  /-- `packets_received` is the number of frames that decode. -/
  received : (captureAfter cfg onEvent sink inputs).metrics.packetsReceived+
    inputs.countP undecodable=inputs.countP isFrame
  /-- Without the refused events the rest is in live and ended flows, modulo
  2^64 and exactly for fewer than 2^64 frames. -/
  balance : ∃ wraps,inputs.countP isFrame+refusedEvents (captureTrace cfg onEvent sink inputs)=
      (captureAfter cfg onEvent sink inputs).metrics.packetsDropped+
        (packetTotal (liveStates (captureAfter cfg onEvent sink inputs).flows)+
          endedTotal (captureTrace cfg onEvent sink inputs))+2^64*wraps ∧
    (inputs.countP isFrame<2^64 → wraps=0)
  /-- No more is dropped than frames and refused events. -/
  bounded : (captureAfter cfg onEvent sink inputs).metrics.packetsDropped≤
    inputs.countP isFrame+refusedEvents (captureTrace cfg onEvent sink inputs)

/-- After every step of every run each frame delivered is taken into a flow,
undecodable, or of a new flow over the limit; `packets_dropped` counts the last
two and the events that the queue refused, `packets_received` the frames that
decode; and the frames are those dropped and the packets of live and ended
flows. -/
theorem frames_accounted (sink : σ) (inputs : List CaptureInput) :
    FramesAccounted cfg onEvent sink inputs := by
  have houtcomes := run_outcomes cfg onEvent (.initial sink) inputs
  change undecodableFrames (captureTrace cfg onEvent sink inputs)=_ ∧
    overLimitFrames (captureTrace cfg onEvent sink inputs)=_ ∧
    countedFrames (captureTrace cfg onEvent sink inputs)=_ ∧
    _=countedFrames (captureTrace cfg onEvent sink inputs)+
      (undecodableFrames (captureTrace cfg onEvent sink inputs)+
        overLimitFrames (captureTrace cfg onEvent sink inputs)) at houtcomes
  obtain ⟨hundecodable,hover,htaken,hframes⟩ := houtcomes
  obtain ⟨hdropped,hreceived,wraps,hpackets⟩ := run_accounted_frames cfg onEvent sink inputs
  constructor
  · rw [←hundecodable,←hover,←htaken]
    exact hframes
  · rw [←hundecodable,←hover]
    exact hdropped
  · rw [←hundecodable]
    omega
  · refine ⟨wraps,?_,fun hfew => ?_⟩
    · omega
    · omega
  · omega

end Runs

/-- A captured UDP datagram without payload. -/
def datagramFrame : CapturedFrame where
  capture :=
    ⟨[2,2,2,2,2,2,2,2,2,2,2,2,8,0,
      69,0,0,28,0,0,0,0,64,17,0,0,10,0,0,1,10,0,0,2,
      3,232,0,53,0,8,0,0],by decide⟩
  ts := ⟨1,0⟩

/-- One datagram and one heartbeat, with a queue that refuses both events: the
frame is taken into a live flow, and still two packets are dropped. -/
theorem refused_events_dropped :
    let inputs := [.frame datagramFrame,.timerSweep 31000000 .stored]
    let t := captureAfter {} (fun _ s => (false,s)) () inputs
    let seen := captureTrace {} (fun _ s => (false,s)) () inputs
    inputs.countP isFrame=1 ∧ inputs.countP undecodable=0 ∧
      ((captureMachine {} (fun _ s => (false,s))).feed (takenIn {}) (.initial ()) inputs).length=
        1 ∧
      ((captureMachine {} (fun _ s => (false,s))).feed (overLimit {}) (.initial ()) inputs).length=
        0 ∧
      packetTotal (liveStates t.flows)=1 ∧ endedTotal seen=0 ∧
      t.metrics.packetsReceived=1 ∧ t.metrics.packetsDropped=2 := by
  decide

end PacketPipe.CaptureAccounting

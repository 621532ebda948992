import PacketPipe.FlowAccounting
import PacketPipe.PacketDecoding

/-!
# Packet sources in front of the flow table

`pcap_handler`, which both sources define alike: decode the frame that libpcap
delivers, pass the packet to the callback, or count a frame that is no packet.
The callback of `main` is `FlowTable::process`; the timer thread sweeps the
same table between frames.
-/

namespace PacketPipe.CaptureSourceModel

open FlowEvents ConfigParserModel ObservedMachines FlowTableModel FlowAccounting
open PacketDecoderModel PacketDecoding

/-- One call of the handler: `bytes` with `hdr->caplen`, and `hdr->ts`. -/
structure CapturedFrame where
  /-- The captured bytes. -/
  capture : Capture
  /-- The time of the capture. -/
  ts : Timeval

/-- What `decode` returns for a frame. -/
def decoded (frame : CapturedFrame) : Option ParsedPacket :=
  match decode (some frame.capture) frame.ts with
  | .ok pkt => pkt
  | .error _ => none

/-- `decode` returns for every frame. -/
theorem decode_decoded (frame : CapturedFrame) :
    decode (some frame.capture) frame.ts=.ok (decoded frame) := by
  obtain ⟨pkt,hpkt⟩ := decode_returns frame.capture frame.ts
  rw [decoded,hpkt]

/-- What an observer sees of a source and its table. -/
inductive SourceObservation
  /-- An observation of the table. -/
  | table (o : Observation)
  /-- The frame was no packet. -/
  | undecodable
  deriving DecidableEq

section Handler

variable {σ : Type} (cfg : AppConfig) (onEvent : EventCallback σ)

/-- `pcap_handler`; a source without metrics counts nothing. -/
def pcapHandler (hasMetrics : Bool) (frame : CapturedFrame) (t : FlowTable σ) :
    FlowTable σ×List SourceObservation :=
  match decoded frame with
  | some pkt =>
    let processed := process cfg onEvent pkt t
    (processed.1,processed.2.map .table)
  | none =>
    if hasMetrics=true then
      ({t with metrics := {t.metrics with packetsDropped := t.metrics.packetsDropped+1}},
        [.undecodable])
    else (t,[.undecodable])

/-- A call on the table that does not come from the source. -/
def tableCall (call : Call) (t : FlowTable σ) : FlowTable σ×List SourceObservation :=
  let called := (tableMachine cfg onEvent).step t call
  (called.1,called.2.map .table)

end Handler

/-- What can happen while capturing. -/
inductive CaptureInput
  /-- libpcap delivers a frame. -/
  | frame (frame : CapturedFrame)
  /-- The timer thread sweeps. -/
  | timerSweep (nowUs : Int64) (order : MapOrder)
  /-- The table is drained after the capture. -/
  | drainAll (nowUs : Int64) (order : MapOrder)

/-- A source constructed with the metrics, in front of the table. -/
def captureMachine {σ : Type} (cfg : AppConfig) (onEvent : EventCallback σ) :
    Machine (FlowTable σ) CaptureInput SourceObservation where
  step t
    | .frame frame => pcapHandler cfg onEvent true frame t
    | .timerSweep nowUs order => tableCall cfg onEvent (.timerSweep nowUs order) t
    | .drainAll nowUs order => tableCall cfg onEvent (.drainAll nowUs order) t

/-- The table after the inputs. -/
abbrev captureAfter {σ : Type} (cfg : AppConfig) (onEvent : EventCallback σ) (sink : σ)
    (inputs : List CaptureInput) : FlowTable σ :=
  (captureMachine cfg onEvent).final (.initial sink) inputs

/-- Everything observed during the inputs. -/
abbrev captureTrace {σ : Type} (cfg : AppConfig) (onEvent : EventCallback σ) (sink : σ)
    (inputs : List CaptureInput) : List SourceObservation :=
  (captureMachine cfg onEvent).trace (.initial sink) inputs

/-- The input is a frame. -/
def isFrame : CaptureInput → Bool
  | .frame _ => true
  | .timerSweep _ _ => false
  | .drainAll _ _ => false

/-- The observation of the table, if it is one. -/
def tableObservation : SourceObservation → Option Observation
  | .table o => some o
  | .undecodable => none

/-- The observations of the table, in order. -/
def tablePart (seen : List SourceObservation) : List Observation := seen.filterMap tableObservation

/-- The call on the table that an input leads to; none for a frame that is no
packet. -/
def inputCall : CaptureInput → Option Call
  | .frame frame => (decoded frame).map .process
  | .timerSweep nowUs order => some (.timerSweep nowUs order)
  | .drainAll nowUs order => some (.drainAll nowUs order)

section Steps

variable {σ : Type} (cfg : AppConfig) (onEvent : EventCallback σ) (t : FlowTable σ)

/-- An input that leads to a call has the effect of the call. -/
theorem step_called {input : CaptureInput} {call : Call} (h : inputCall input=some call) :
    (captureMachine cfg onEvent).step t input=tableCall cfg onEvent call t := by
  cases input with
  | frame frame =>
    change pcapHandler cfg onEvent true frame t=_
    rw [inputCall,Option.map_eq_some_iff] at h
    obtain ⟨pkt,hpkt,rfl⟩ := h
    rw [pcapHandler,hpkt]
    rfl
  | timerSweep nowUs order =>
    cases h
    rfl
  | drainAll nowUs order =>
    cases h
    rfl

/-- Any other input is a frame that is counted as dropped. -/
theorem step_skipped {input : CaptureInput} (h : inputCall input=none) :
    isFrame input=true ∧ (captureMachine cfg onEvent).step t input=
      ({t with metrics := {t.metrics with packetsDropped := t.metrics.packetsDropped+1}},
        [.undecodable]) := by
  cases input with
  | frame frame =>
    refine ⟨rfl,?_⟩
    change pcapHandler cfg onEvent true frame t=_
    rw [inputCall,Option.map_eq_none_iff] at h
    rw [pcapHandler,h]
    rfl
  | timerSweep nowUs order => cases h
  | drainAll nowUs order => cases h

/-- A call is made for a frame exactly when it offers a packet. -/
theorem offered_call {input : CaptureInput} {call : Call} (h : inputCall input=some call) :
    (offered call).isSome=isFrame input := by
  cases input with
  | frame frame =>
    rw [inputCall,Option.map_eq_some_iff] at h
    obtain ⟨pkt,_,rfl⟩ := h
    rfl
  | timerSweep nowUs order =>
    cases h
    rfl
  | drainAll nowUs order =>
    cases h
    rfl

end Steps

end PacketPipe.CaptureSourceModel

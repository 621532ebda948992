import PacketPipe.CaptureSourceModel
import PacketPipe.FlowSweeps
import PacketPipe.SignedWords

/-!
# Timestamps far from the present

Seconds of a capture are multiplied in `decode`, stored in an entry and
subtracted from the clock in `timer_sweep`, all in 64 bits and without any
check. The intermediate results fit exactly when every accepted frame is
stamped late enough for the product, early enough for the sum and, where its
packet goes into the table, late enough for the difference.
-/

namespace PacketPipe.TimestampRanges

open FlowEvents ConfigParserModel ObservedMachines FlowTableModel FlowLifetimes FlowTableEntries
open FlowSweeps PacketDecoderModel PacketDecoding CaptureSourceModel SignedWords

/-- The instant of a `timeval` in microseconds. -/
def captureUs (ts : Timeval) : ℤ := ts.tvSec.toInt*1000000+ts.tvUsec.toInt

/-- Frames have less than a million microseconds, and sweeps read a clock
between 0 and 2^62. -/
def Sensible : CaptureInput → Prop
  | .frame frame => 0≤frame.ts.tvUsec.toInt ∧ frame.ts.tvUsec.toInt<1000000
  | .timerSweep nowUs _ => 0≤nowUs.toInt ∧ nowUs.toInt≤2^62
  | .drainAll _ _ => True

instance decidableSensible : ∀ input,Decidable (Sensible input)
  | .frame _ => inferInstanceAs (Decidable (_∧_))
  | .timerSweep _ _ => inferInstanceAs (Decidable (_∧_))
  | .drainAll _ _ => .isTrue trivial

/-- A packet carries the time of its frame, computed in 64 bits. -/
theorem decoded_timestampUs {frame : CapturedFrame} {pkt : ParsedPacket}
    (h : decoded frame=some pkt) :
    pkt.timestampUs=frame.ts.tvSec*1000000+frame.ts.tvUsec := by
  have hdecode := decode_decoded frame
  rw [h] at hdecode
  obtain ⟨f,_,rfl⟩ := decode_packet.mp hdecode
  rfl

/-- It is the instant of the frame when product and sum fit. -/
theorem decoded_captureUs {frame : CapturedFrame} {pkt : ParsedPacket} (h : decoded frame=some pkt)
    (hproduct : Fits 64 (frame.ts.tvSec.toInt*1000000)) (hsum : Fits 64 (captureUs frame.ts)) :
    pkt.timestampUs.toInt=captureUs frame.ts := by
  have hmillion : (1000000 : Int64).toInt=1000000 := rfl
  have hscaled := int64_mul_iff frame.ts.tvSec 1000000
  rw [hmillion] at hscaled
  have hexact := hscaled.mpr hproduct
  have hstamp := int64_add_iff (frame.ts.tvSec*1000000) frame.ts.tvUsec
  rw [hexact] at hstamp
  rw [decoded_timestampUs h]
  exact hstamp.mpr hsum

section Table

variable {σ : Type} (cfg : AppConfig) (onEvent : EventCallback σ)

/-- Whether the packet's flow is in the table after `process`: a known flow
stays unless it is torn down, a new one enters unless the table is full. -/
def stays (pkt : ParsedPacket) (t : FlowTable σ) : Bool :=
  match t.flows.lookup (keyFromPacket pkt) with
  | some _ => !tearsDown pkt
  | none => !tableFull cfg t.flows

/-- The frame can be stamped, and its packet compared with the clock where it
goes into the table. -/
def Representable (t : FlowTable σ) : CaptureInput → Prop
  | .frame frame => ∀ pkt,decoded frame=some pkt →
      -9223372036854≤frame.ts.tvSec.toInt ∧ captureUs frame.ts<2^63 ∧
        (stays cfg pkt t=true → -2^62<captureUs frame.ts)
  | .timerSweep _ _ => True
  | .drainAll _ _ => True

/-- The instants in the table can be compared with every clock reading. -/
structure Comparable (t : FlowTable σ) : Prop where
  /-- No flow was last seen too long ago. -/
  seen : ∀ e∈t.flows.entries,-2^62<e.2.lastSeenUs.toInt
  /-- Heartbeats are given at clock readings. -/
  heartbeat : 0≤t.lastHeartbeatUs.toInt

/-- A new flow enters the table unless its packet is refused. -/
theorem stays_new {pkt : ParsedPacket} {t : FlowTable σ}
    (h : t.flows.lookup (keyFromPacket pkt)=none) : stays cfg pkt t=!refuses cfg pkt t := by
  rw [stays,refuses,h]
  rfl

/-- A known flow stays unless the packet tears it down. -/
theorem stays_known {pkt : ParsedPacket} {t : FlowTable σ} {state : FlowState}
    (h : t.flows.lookup (keyFromPacket pkt)=some state) : stays cfg pkt t=!tearsDown pkt := by
  rw [stays,h]

/-- A packet that goes into the table is in an entry seen at its own time. -/
theorem stays_entry {pkt : ParsedPacket} {t : FlowTable σ} (h : stays cfg pkt t=true) :
    ∃ e∈(process cfg onEvent pkt t).1.flows.entries,e.2.lastSeenUs=pkt.timestampUs := by
  have heffect := process_effect cfg onEvent pkt t
  generalize (process cfg onEvent pkt t).1.flows=flows,
    (process cfg onEvent pkt t).2=seen at heffect ⊢
  cases heffect with
  | refused hrefuses hlookup =>
    rw [stays_new cfg hlookup,hrefuses] at h
    cases h
  | opened _ hlookup accepted =>
    rw [entries_insert_new hlookup]
    exact ⟨_,List.mem_cons_self,rfl⟩
  | updated state _ _ hlookup =>
    rw [entries_insert_perm]
    exact ⟨_,List.mem_cons_self,rfl⟩
  | closed state _ hdown hlookup accepted =>
    rw [stays_known cfg hlookup,hdown] at h
    cases h

/-- After a packet the entries are old ones and at most its own. -/
theorem process_entry {pkt : ParsedPacket} {t : FlowTable σ} {e : FlowEntry}
    (he : e∈(process cfg onEvent pkt t).1.flows.entries) :
    e∈t.flows.entries ∨ (stays cfg pkt t=true ∧ e.2.lastSeenUs=pkt.timestampUs) := by
  have heffect := process_effect cfg onEvent pkt t
  generalize (process cfg onEvent pkt t).1.flows=flows,
    (process cfg onEvent pkt t).2=seen at heffect he
  cases heffect with
  | refused => exact Or.inl he
  | opened hrefuses hlookup accepted =>
    rw [entries_insert_new hlookup] at he
    rcases List.mem_cons.mp he with rfl | hold
    · rw [stays_new cfg hlookup,hrefuses]
      exact Or.inr ⟨rfl,rfl⟩
    · exact Or.inl hold
  | updated state _ hdown hlookup =>
    rw [entries_insert_perm] at he
    rcases List.mem_cons.mp he with rfl | hold
    · rw [stays_known cfg hlookup,hdown]
      exact Or.inr ⟨rfl,rfl⟩
    · exact Or.inl ((entries_at hlookup).mem_iff.mpr (List.mem_cons_of_mem _ hold))
  | closed state _ _ hlookup accepted =>
    rw [entries_insert_erase] at he
    exact Or.inl ((entries_at hlookup).mem_iff.mpr (List.mem_cons_of_mem _ he))

/-- Product and sum fit for a frame that can be stamped. -/
theorem stamp_fits {ts : Timeval} (husec : 0≤ts.tvUsec.toInt ∧ ts.tvUsec.toInt<1000000) :
    (Fits 64 (ts.tvSec.toInt*1000000) ∧ Fits 64 (captureUs ts)) ↔
      -9223372036854≤ts.tvSec.toInt ∧ captureUs ts<2^63 := by
  rw [fits_64,fits_64,captureUs]
  omega

/-- Sensible inputs that can be represented keep the table comparable. -/
theorem step_comparable {t : FlowTable σ} (h : Comparable t) {input : CaptureInput}
    (hsensible : Sensible input) (hinput : Representable cfg t input) :
    Comparable ((captureMachine cfg onEvent).step t input).1 := by
  cases hcall : inputCall input with
  | none =>
    obtain ⟨_,hstep⟩ := step_skipped cfg onEvent t hcall
    rw [hstep]
    exact ⟨h.seen,h.heartbeat⟩
  | some call =>
    rw [step_called cfg onEvent t hcall]
    cases input with
    | frame frame =>
      rw [inputCall,Option.map_eq_some_iff] at hcall
      obtain ⟨pkt,hpkt,rfl⟩ := hcall
      obtain ⟨hlow,hhigh,hstored⟩ := hinput pkt hpkt
      obtain ⟨hproduct,hsum⟩ := (stamp_fits hsensible).mpr ⟨hlow,hhigh⟩
      constructor
      · intro e he
        rcases process_entry cfg onEvent he with hold | ⟨hstays,htime⟩
        · exact h.seen e hold
        · rw [htime,decoded_captureUs hpkt hproduct hsum]
          exact hstored hstays
      · have hsame := process_lastHeartbeatUs cfg onEvent pkt t
        change 0≤(process cfg onEvent pkt t).1.lastHeartbeatUs.toInt
        rw [hsame]
        exact h.heartbeat
    | timerSweep nowUs order =>
      cases hcall
      constructor
      · intro e he
        have hkept := (timerSweep_entries cfg onEvent nowUs order t).mem_iff.mp he
        exact h.seen e (List.mem_filter.mp hkept).1
      · have hmoved := timerSweep_lastHeartbeatUs cfg onEvent nowUs order t
        change 0≤(timerSweep cfg onEvent nowUs order t).1.lastHeartbeatUs.toInt
        rw [hmoved]
        split
        · exact hsensible.1
        · exact h.heartbeat
    | drainAll nowUs order =>
      cases hcall
      constructor
      · intro e he
        change e∈(drainAll onEvent nowUs order t).1.flows.entries at he
        rw [drainAll_entries] at he
        cases he
      · have hsame := (drainLoop_same onEvent nowUs (order.visit t.flows) t).heartbeat
        change 0≤(drainAll onEvent nowUs order t).1.lastHeartbeatUs.toInt
        rw [drainAll,hsame]
        exact h.heartbeat

/-- No computation on the timestamps of a run leaves the 64-bit range. -/
structure InRange (sink : σ) (inputs : List CaptureInput) : Prop where
  /-- Product and sum in `decode`, for every frame that is accepted. -/
  stamps : ∀ frame,.frame frame∈inputs → ∀ pkt,decoded frame=some pkt →
    Fits 64 (frame.ts.tvSec.toInt*1000000) ∧ Fits 64 (captureUs frame.ts)
  /-- `now_us - state.last_seen_us`, in every state reached. -/
  seen : ∀ front,front<+:inputs → ∀ nowUs : Int64,0≤nowUs.toInt → nowUs.toInt≤2^62 →
    ∀ e∈(captureAfter cfg onEvent sink front).flows.entries,
      Fits 64 (nowUs.toInt-e.2.lastSeenUs.toInt)
  /-- `now_us - last_heartbeat_us_`, in every state reached. -/
  heartbeat : ∀ front,front<+:inputs → ∀ nowUs : Int64,0≤nowUs.toInt → nowUs.toInt≤2^62 →
    Fits 64 (nowUs.toInt-(captureAfter cfg onEvent sink front).lastHeartbeatUs.toInt)
  /-- So the test on the 64-bit difference decides whether a flow is idle. -/
  decided : ∀ front,front<+:inputs → ∀ nowUs : Int64,0≤nowUs.toInt → nowUs.toInt≤2^62 →
    ∀ e∈(captureAfter cfg onEvent sink front).flows.entries,
      (idleTimeoutUs cfg≤nowUs-e.2.lastSeenUs ↔ Idle cfg nowUs e.2)

/-- The test on a difference that fits. -/
theorem idle_difference {nowUs : Int64} {state : FlowState}
    (h : Fits 64 (nowUs.toInt-state.lastSeenUs.toInt)) :
    idleTimeoutUs cfg≤nowUs-state.lastSeenUs ↔ Idle cfg nowUs state := by
  have hdecided := idleDue_eq (h.gauged (cfg.flowTimeoutSec.toInt*1000000))
  rwa [idleDue,decide_eq_decide] at hdecided

/-- Where everything is in range, every step can be represented: the clock
reading 2^62 shows it for the packets in the table. -/
theorem InRange.representable {sink : σ} {inputs : List CaptureInput}
    (h : InRange cfg onEvent sink inputs) (front : List CaptureInput) {input : CaptureInput}
    (hfront : front++[input]<+:inputs) (hsensible : Sensible input) :
    Representable cfg (captureAfter cfg onEvent sink front) input := by
  cases input with
  | timerSweep nowUs order => trivial
  | drainAll nowUs order => trivial
  | frame frame =>
    intro pkt hpkt
    have hmem : .frame frame∈inputs := hfront.subset (List.mem_append_right _ List.mem_cons_self)
    obtain ⟨hproduct,hsum⟩ := h.stamps frame hmem pkt hpkt
    obtain ⟨hlow,hhigh⟩ := (stamp_fits hsensible).mp ⟨hproduct,hsum⟩
    refine ⟨hlow,hhigh,fun hstays => ?_⟩
    obtain ⟨e,he,htime⟩ := stays_entry cfg onEvent hstays
    have hcall : inputCall (.frame frame)=some (.process pkt) := by
      rw [inputCall,hpkt,Option.map_some]
    have hstate : (captureAfter cfg onEvent sink (front++[.frame frame])).flows=
        (process cfg onEvent pkt (captureAfter cfg onEvent sink front)).1.flows := by
      rw [captureAfter,Machine.final_concat,step_called cfg onEvent _ hcall]
      rfl
    rw [←hstate] at he
    have hlatest : (4611686018427387904 : Int64).toInt=2^62 := rfl
    have hfits := h.seen _ hfront 4611686018427387904 (by rw [hlatest]; omega)
      (by rw [hlatest]) e he
    rw [hlatest,htime,decoded_captureUs hpkt hproduct hsum,fits_64] at hfits
    omega

/-- Runs of sensible inputs that can be represented reach comparable tables. -/
theorem run_comparable {sink : σ} {inputs : List CaptureInput}
    (hsensible : ∀ input∈inputs,Sensible input)
    (h : (captureMachine cfg onEvent).Along (fun t input => Representable cfg t input)
      (.initial sink) inputs) :
    Comparable (captureAfter cfg onEvent sink inputs) := by
  induction inputs using List.reverseRecOn with
  | nil =>
    constructor
    · intro e he
      cases he
    · exact le_refl _
  | append_singleton front input ih =>
    have hbefore := ih (fun other hother => hsensible other (List.mem_append_left _ hother))
      (Machine.Along.before _ h (List.prefix_append front [input]))
    have hlast := (Machine.along_iff _).mp h front input (List.prefix_refl _)
    rw [captureAfter,Machine.final_concat]
    exact step_comparable cfg onEvent hbefore
      (hsensible input (List.mem_append_right _ List.mem_cons_self)) hlast

/-- Every instant of a comparable table is in reach of the clock. -/
theorem Comparable.differences {t : FlowTable σ} (h : Comparable t) {nowUs : Int64}
    (hlow : 0≤nowUs.toInt) (hhigh : nowUs.toInt≤2^62) :
    (∀ e∈t.flows.entries,Fits 64 (nowUs.toInt-e.2.lastSeenUs.toInt)) ∧
      Fits 64 (nowUs.toInt-t.lastHeartbeatUs.toInt) := by
  constructor
  · intro e he
    have hseen := h.seen e he
    have hlimit := e.2.lastSeenUs.toInt_lt
    rw [fits_64]
    omega
  · have hheartbeat := h.heartbeat
    have hlimit := t.lastHeartbeatUs.toInt_lt
    rw [fits_64]
    omega

/-- For frames with any seconds and less than a million microseconds, and
sweeps at times between 0 and 2^62: no computation on timestamps leaves the
64-bit range exactly when every step can be represented. -/
theorem timestamps_in_range_iff (sink : σ) (inputs : List CaptureInput)
    (hsensible : ∀ input∈inputs,Sensible input) :
    InRange cfg onEvent sink inputs ↔
      (captureMachine cfg onEvent).Along (fun t input => Representable cfg t input)
        (.initial sink) inputs := by
  constructor
  · intro h
    refine (Machine.along_iff _).mpr fun front input hfront => ?_
    have hmem : input∈inputs := hfront.subset (List.mem_append_right _ List.mem_cons_self)
    exact h.representable cfg onEvent front hfront (hsensible input hmem)
  · intro h
    have hdifferences : ∀ front,front<+:inputs → ∀ nowUs : Int64,0≤nowUs.toInt →
        nowUs.toInt≤2^62 →
        (∀ e∈(captureAfter cfg onEvent sink front).flows.entries,
            Fits 64 (nowUs.toInt-e.2.lastSeenUs.toInt)) ∧
          Fits 64 (nowUs.toInt-(captureAfter cfg onEvent sink front).lastHeartbeatUs.toInt) := by
      intro front hfront nowUs hlow hhigh
      have hcomparable := run_comparable cfg onEvent
        (fun input hinput => hsensible input (hfront.subset hinput))
        (Machine.Along.before _ h hfront)
      exact hcomparable.differences hlow hhigh
    constructor
    · intro frame hmem pkt hpkt
      obtain ⟨front,back,hinputs⟩ := List.append_of_mem hmem
      have hfront : front++[.frame frame]<+:inputs := by
        rw [hinputs]
        exact ⟨back,List.append_assoc _ _ _⟩
      obtain ⟨hlow,hhigh,_⟩ := (Machine.along_iff _).mp h front _ hfront pkt hpkt
      exact (stamp_fits (hsensible _ hmem)).mpr ⟨hlow,hhigh⟩
    · intro front hfront nowUs hlow hhigh
      exact (hdifferences front hfront nowUs hlow hhigh).1
    · intro front hfront nowUs hlow hhigh
      exact (hdifferences front hfront nowUs hlow hhigh).2
    · intro front hfront nowUs hlow hhigh e he
      exact idle_difference cfg ((hdifferences front hfront nowUs hlow hhigh).1 e he)

end Table

/-- The tagged frame at a time of its own. -/
def stampedFrame (ts : Timeval) : CapturedFrame := ⟨⟨taggedFin.encode,by decide⟩,ts⟩

/-- It is accepted at any time. -/
theorem stampedFrame_decoded (ts : Timeval) :
    decoded (stampedFrame ts)=some (taggedFin.packet ts) := by
  rw [decoded,stampedFrame,decode_encoded]

/-- A frame of the year 2026 and a sweep. -/
theorem timestamps_in_range_recent :
    InRange {} (fun _ s => (true,s)) ()
      [.frame (stampedFrame ⟨1780000000,5⟩),.timerSweep 1780000060000005 .stored] :=
  (timestamps_in_range_iff {} (fun _ s => (true,s)) ()
    [.frame (stampedFrame ⟨1780000000,5⟩),.timerSweep 1780000060000005 .stored]
    (by decide)).mpr
      ⟨fun _ _ => ⟨by decide,by decide,fun _ => by decide⟩,trivial,trivial⟩

/-- The seconds of a pcapng file can be too late for the product, and early
enough to be stored but too early for the difference. -/
theorem far_frames_overflow :
    ¬InRange {} (fun _ s => (true,s)) () [.frame (stampedFrame ⟨9223372036855,0⟩)] ∧
      ¬InRange {} (fun _ s => (true,s)) () [.frame (stampedFrame ⟨-4611686018428,0⟩)] := by
  constructor
  · intro h
    have hinput := h.representable {} _ [] (List.prefix_refl _) (by decide)
      _ (stampedFrame_decoded _)
    exact absurd hinput.2.1 (by decide)
  · intro h
    have hinput := h.representable {} _ [] (List.prefix_refl _) (by decide)
      _ (stampedFrame_decoded _)
    exact absurd (hinput.2.2 (by decide)) (by decide)

end PacketPipe.TimestampRanges

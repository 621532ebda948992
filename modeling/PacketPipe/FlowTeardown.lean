import PacketPipe.FlowEventOrder

/-!
# Flows closed by FIN or RST

A TCP packet with FIN or RST closes the flow it is counted in, unless it is
the first packet of that flow: the branch of `process` that opens a flow does
not look at the flags. The packet leaves its key absent exactly when it opens
no flow.
-/

namespace PacketPipe.FlowTeardown

open FlowEvents ConfigParserModel ObservedMachines FlowTableModel FlowLifetimes FlowEventOrder

/-- The events of the latest lifetime of a key, from its Start on. -/
def lifetimeEvents (key : FlowKey) (trace : List Observation) : List FlowEvent :=
  (trace.filterMap (emittedFor key)).foldl
    (fun events evt => if evt.type=.flowStart then [evt] else events++[evt]) []

/-- An event other than a Start belongs to the lifetime before it. -/
theorem lifetimeEvents_concat {key : FlowKey} {evt : FlowEvent} (hkey : evt.state.key=key)
    (htype : evt.type≠.flowStart) (trace : List Observation) (accepted : Bool) :
    lifetimeEvents key (trace++[.emitted evt accepted])=lifetimeEvents key trace++[evt] := by
  have hemitted : [Observation.emitted evt accepted].filterMap (emittedFor key)=[evt] := by
    rw [List.filterMap_cons,emittedFor,if_pos hkey,List.filterMap_nil]
  rw [lifetimeEvents,List.filterMap_append,hemitted,List.foldl_append,List.foldl_cons,
    List.foldl_nil,if_neg htype]
  rfl

/-- After a packet its flow is gone, and if there was one, the lifetime that the
packet was counted in ended with a teardown. -/
structure TornDown {σ : Type} (pkt : ParsedPacket) (t t' : FlowTable σ)
    (earlier seen : List Observation) : Prop where
  /-- The table has no entry for the packet's key any more. -/
  absent : t'.flows.lookup (keyFromPacket pkt)=none
  /-- If it had one, the packet was counted in it and its End was emitted. -/
  ended : keyFromPacket pkt∈t.flows → .counted pkt∈seen ∧
    ∃ evt∈lifetimeEvents (keyFromPacket pkt) (earlier++seen),
      evt.type=.flowEnd ∧ evt.reason=.tcpTeardown

section Runs

variable {σ : Type} (cfg : AppConfig) (onEvent : EventCallback σ)

/-- Whether the packet opens a flow: its key is unknown and there is room. -/
def opensFlow (pkt : ParsedPacket) (t : FlowTable σ) : Bool :=
  (t.flows.lookup (keyFromPacket pkt)).isNone && !tableFull cfg t.flows

/-- From any state with keyed entries, a packet with FIN or RST tears its flow
down exactly when it opens none. -/
theorem process_tornDown {pkt : ParsedPacket} (hdown : tearsDown pkt=true) {t : FlowTable σ}
    (hkeyed : Keyed t.flows) (earlier : List Observation) :
    TornDown pkt t (process cfg onEvent pkt t).1 earlier (process cfg onEvent pkt t).2 ↔
      opensFlow cfg pkt t=false := by
  have heffect := process_effect cfg onEvent pkt t
  constructor
  · intro h
    have habsent := h.absent
    generalize (process cfg onEvent pkt t).1.flows=flows,
      (process cfg onEvent pkt t).2=seen at heffect habsent
    cases heffect with
    | refused hrefuses hlookup =>
      rw [refuses,hlookup] at hrefuses
      rw [opensFlow,hlookup,(Bool.and_eq_true_iff.mp hrefuses).2]
      rfl
    | opened hrefuses hlookup accepted =>
      rw [AList.lookup_insert] at habsent
      cases habsent
    | updated state _ _ hlookup =>
      rw [opensFlow,hlookup]
      rfl
    | closed state _ _ hlookup accepted =>
      rw [opensFlow,hlookup]
      rfl
  · intro hopens
    suffices h : (process cfg onEvent pkt t).1.flows.lookup (keyFromPacket pkt)=none ∧
        (keyFromPacket pkt∈t.flows → .counted pkt∈(process cfg onEvent pkt t).2 ∧
          ∃ evt∈lifetimeEvents (keyFromPacket pkt) (earlier++(process cfg onEvent pkt t).2),
            evt.type=.flowEnd ∧ evt.reason=.tcpTeardown) from ⟨h.1,h.2⟩
    generalize (process cfg onEvent pkt t).1.flows=flows,
      (process cfg onEvent pkt t).2=seen at heffect ⊢
    cases heffect with
    | refused hrefuses hlookup =>
      exact ⟨hlookup,fun hknown => absurd hknown (AList.lookup_eq_none.mp hlookup)⟩
    | opened hrefuses hlookup accepted =>
      rw [opensFlow,hlookup] at hopens
      rw [refuses,hlookup] at hrefuses
      cases hfull : tableFull cfg t.flows <;> rw [hfull] at hopens hrefuses
      · cases hopens
      · cases hrefuses
    | updated state _ hkeeps _ =>
      rw [hdown] at hkeeps
      cases hkeeps
    | closed state _ _ hlookup accepted =>
      have hown : (countPacket state pkt).key=keyFromPacket pkt := hkeyed _ state hlookup
      refine ⟨AList.lookup_erase _ _,fun _ => ⟨List.mem_cons_self,?_⟩⟩
      refine ⟨endEvent (countPacket state pkt) pkt.timestampUs .tcpTeardown,?_,rfl,rfl⟩
      rw [←List.singleton_append,←List.append_assoc,
        lifetimeEvents_concat hown (by simp)]
      exact List.mem_append_right _ List.mem_cons_self

/-- In every reachable state, a TCP packet with FIN or RST leaves its key
absent, with the teardown of its lifetime emitted, exactly when the key was in
the table before or the table was full. -/
theorem teardown_iff (sink : σ) (calls : List Call) (pkt : ParsedPacket)
    (hdown : tearsDown pkt=true) :
    TornDown pkt (tableAfter cfg onEvent sink calls)
        (process cfg onEvent pkt (tableAfter cfg onEvent sink calls)).1
        (tableTrace cfg onEvent sink calls)
        (process cfg onEvent pkt (tableAfter cfg onEvent sink calls)).2 ↔
      keyFromPacket pkt∈(tableAfter cfg onEvent sink calls).flows ∨
        tableFull cfg (tableAfter cfg onEvent sink calls).flows=true := by
  have hkeyed := run_keyed cfg onEvent (.initial sink) keyed_empty calls
  rw [process_tornDown cfg onEvent hdown hkeyed,opensFlow,Bool.and_eq_false_iff,
    Bool.not_eq_false',Option.isNone_eq_false_iff,AList.lookup_isSome]

end Runs

/-- A segment with RST and ACK. -/
def resetPacket : ParsedPacket :=
  {srcPort := 443,protocol := ipprotoTcp,wireLength := 40,timestampUs := 1000000,tcpRst := true}

/-- A segment of the same flow without flags. -/
def dataPacket : ParsedPacket :=
  {srcPort := 443,protocol := ipprotoTcp,wireLength := 60,timestampUs := 500000}

/-- As the second packet the reset closes the flow. -/
theorem teardown_second :
    TornDown resetPacket
      (tableAfter {} (fun _ s => (true,s)) () [.process dataPacket])
      (process {} (fun _ s => (true,s)) resetPacket
        (tableAfter {} (fun _ s => (true,s)) () [.process dataPacket])).1
      (tableTrace {} (fun _ s => (true,s)) () [.process dataPacket])
      (process {} (fun _ s => (true,s)) resetPacket
        (tableAfter {} (fun _ s => (true,s)) () [.process dataPacket])).2 :=
  (teardown_iff {} (fun _ s => (true,s)) () [.process dataPacket] resetPacket (by decide)).mpr
    (.inl (by decide))

/-- As the first packet it opens a flow that stays in the table, with a Start
and no End, and a sweep one second before the idle timeout keeps it. -/
theorem teardown_first_lingers :
    let t := tableAfter {} (fun _ s => (true,s)) () [.process resetPacket]
    tearsDown resetPacket=true ∧ keyFromPacket resetPacket∈t.flows ∧
      eventTypes (keyFromPacket resetPacket)
        (tableTrace {} (fun _ s => (true,s)) () [.process resetPacket])=[.flowStart] ∧
      keyFromPacket resetPacket∈
        (timerSweep {} (fun _ s => (true,s)) 60000000 .stored t).1.flows ∧
      ¬TornDown resetPacket (.initial ()) t []
        (tableTrace {} (fun _ s => (true,s)) () [.process resetPacket]) := by
  refine ⟨by decide,by decide,by decide,by decide,fun h => ?_⟩
  exact absurd h.absent (by decide)

end PacketPipe.FlowTeardown

import PacketPipe.FlowAccounting

/-!
# What `last_seen_us` remembers

An entry keeps the time of the packet counted last, not the latest time among
its packets. The two agree in every state of a run exactly when no packet is
counted in a flow that holds a newer one already.
-/

namespace PacketPipe.LastSeenTimes

open FlowEvents ConfigParserModel ObservedMachines FlowTableModel FlowLifetimes FlowAccounting

/-- The latest time among the packets. -/
def Latest (timeUs : Int64) (pkts : List ParsedPacket) : Prop :=
  (∃ p∈pkts,p.timestampUs=timeUs) ∧ ∀ p∈pkts,p.timestampUs.toInt≤timeUs.toInt

/-- The packets of an entry in the order of their times. -/
def InTimeOrder (pkts : List ParsedPacket) : Prop :=
  pkts.Pairwise fun p q => p.timestampUs.toInt≤q.timestampUs.toInt

/-- The entry has the times of the packets counted first and last. -/
structure FirstAndLast (pkts : List ParsedPacket) (state : FlowState) : Prop where
  first : (pkts.head?.map fun p => p.timestampUs)=some state.startUs
  last : (pkts.getLast?.map fun p => p.timestampUs)=some state.lastSeenUs

/-- In time order the last packet is the latest, and not before the first. -/
theorem FirstAndLast.latest {pkts : List ParsedPacket} {state : FlowState}
    (h : FirstAndLast pkts state) (horder : InTimeOrder pkts) :
    state.startUs.toInt≤ state.lastSeenUs.toInt ∧ Latest state.lastSeenUs pkts := by
  obtain ⟨first,hfirst,hstart⟩ := Option.map_eq_some_iff.mp h.first
  obtain ⟨last,hlast,hseen⟩ := Option.map_eq_some_iff.mp h.last
  obtain ⟨front,rfl⟩ := List.getLast?_eq_some_iff.mp hlast
  have hlatest : ∀ p∈front++[last],p.timestampUs.toInt≤ state.lastSeenUs.toInt := by
    rw [←hseen]
    refine List.forall_mem_append.mpr ⟨fun p hp => ?_,List.forall_mem_singleton.mpr (le_refl _)⟩
    exact (List.pairwise_append.mp horder).2.2 p hp last List.mem_cons_self
  refine ⟨?_,⟨last,List.mem_append_right _ List.mem_cons_self,hseen⟩,hlatest⟩
  rw [←hstart]
  exact hlatest first (List.mem_of_mem_head? hfirst)

/-- What an input means for the packets of an entry: none is added, the next
one is added, or the entry is new with its only packet. -/
theorem lifeStep_packets (cfg : AppConfig) (key : FlowKey) (entry : Option FlowState)
    (seen : List LifeObservation) (input : LifeInput) {state : FlowState}
    (hstate : (lifeStep cfg key entry input).1=some state) :
    (entry=some state ∧
        lifePackets (seen++(lifeStep cfg key entry input).2)=lifePackets seen) ∨
      (∃ pkt earlier,input=.packet pkt ∧ entry=some earlier ∧ state=countPacket earlier pkt ∧
        lifePackets (seen++(lifeStep cfg key entry input).2)=lifePackets seen++[pkt]) ∨
      (∃ pkt,state=firstState key pkt ∧
        lifePackets (seen++(lifeStep cfg key entry input).2)=[pkt]) := by
  cases entry with
  | none =>
    cases input with
    | packet pkt =>
      cases hstate
      refine Or.inr (Or.inr ⟨pkt,rfl,?_⟩)
      have hsplit : seen++(lifeStep cfg key none (.packet pkt)).2=
          (seen++[.packet pkt])++[.event (startEvent (firstState key pkt) pkt)] := by
        rw [List.append_assoc]
        rfl
      rw [hsplit,lifePackets_event,if_pos (startEvent_type _ _),lifePackets_packet,
        List.getLast?_concat]
      rfl
    | sweep nowUs heartbeat => cases hstate
    | drain nowUs => cases hstate
  | some earlier =>
    cases input with
    | packet pkt =>
      rw [lifeStep] at hstate ⊢
      split at hstate
      · cases hstate
      · next hdown =>
        cases hstate
        rw [if_neg hdown]
        exact Or.inr (Or.inl ⟨pkt,earlier,rfl,rfl,rfl,lifePackets_packet seen pkt⟩)
    | sweep nowUs heartbeat =>
      rw [lifeStep] at hstate ⊢
      left
      split at hstate
      · cases hstate
      · next hidle =>
        rw [if_neg hidle]
        split at hstate
        · next hheartbeat =>
          cases hstate
          rw [if_pos hheartbeat,lifePackets_event,if_neg (by simp)]
          exact ⟨rfl,rfl⟩
        · next hheartbeat =>
          cases hstate
          rw [if_neg hheartbeat,List.append_nil]
          exact ⟨rfl,rfl⟩
    | drain nowUs => cases hstate

/-- Every entry of the single-flow machine has the times of its packets. -/
theorem lifeStep_firstAndLast (cfg : AppConfig) (key : FlowKey) (entry : Option FlowState)
    (seen : List LifeObservation) (input : LifeInput)
    (h : ∀ state,entry=some state → FirstAndLast (lifePackets seen) state) :
    ∀ state,(lifeStep cfg key entry input).1=some state →
      FirstAndLast (lifePackets (seen++(lifeStep cfg key entry input).2)) state := by
  intro state hstate
  rcases lifeStep_packets cfg key entry seen input hstate with
    ⟨hentry,hpkts⟩ | ⟨pkt,earlier,_,hentry,rfl,hpkts⟩ | ⟨pkt,rfl,hpkts⟩
  · rw [hpkts]
    exact h state hentry
  · rw [hpkts]
    have hbefore := h earlier hentry
    constructor
    · have hfirst := hbefore.first
      cases hlist : lifePackets seen with
      | nil =>
        rw [hlist] at hfirst
        cases hfirst
      | cons first rest =>
        rw [hlist] at hfirst
        exact hfirst
    · rw [List.getLast?_concat]
      rfl
  · rw [hpkts]
    exact ⟨rfl,rfl⟩

section Runs

variable {σ : Type} (cfg : AppConfig) (onEvent : EventCallback σ)

/-- So has every entry of a reachable table. -/
theorem run_firstAndLast (sink : σ) (calls : List Call) {key : FlowKey} {state : FlowState}
    (hlookup : (tableAfter cfg onEvent sink calls).flows.lookup key=some state) :
    FirstAndLast (lifetimePackets key (tableTrace cfg onEvent sink calls)) state := by
  have hempty : ∀ state : FlowState,none=some state → FirstAndLast (lifePackets []) state := nofun
  have hrun := run_history cfg onEvent key
    (P := fun entry seen => ∀ state,entry=some state → FirstAndLast (lifePackets seen) state)
    (lifeStep_firstAndLast cfg key) hempty sink calls
  rw [lifetimePackets_eq]
  exact hrun state hlookup

/-- What a call means for the packets of an entry that is there after it. -/
theorem call_packets {t : FlowTable σ} (hkeyed : Keyed t.flows) (c : Call)
    (earlier : List Observation) {key : FlowKey} {state : FlowState}
    (hlookup : ((tableMachine cfg onEvent).step t c).1.flows.lookup key=some state) :
    (t.flows.lookup key=some state ∧
        lifetimePackets key (earlier++((tableMachine cfg onEvent).step t c).2)=
          lifetimePackets key earlier) ∨
      (∃ pkt before,c=.process pkt ∧ keyFromPacket pkt=key ∧ t.flows.lookup key=some before ∧
        lifetimePackets key (earlier++((tableMachine cfg onEvent).step t c).2)=
          lifetimePackets key earlier++[pkt]) ∨
      ∃ pkt,lifetimePackets key (earlier++((tableMachine cfg onEvent).step t c).2)=[pkt] := by
  obtain ⟨hfinal,htrace⟩ := call_project cfg onEvent t c hkeyed key
  rw [lifetimePackets_eq,lifetimePackets_eq,List.filterMap_append,←htrace]
  rw [←hfinal] at hlookup
  have hinputs : lifeInputs cfg key t c=[] ∨ ∃ input,lifeInputs cfg key t c=[input] ∧
      ∀ pkt,input=.packet pkt → c=.process pkt ∧ keyFromPacket pkt=key := by
    cases c with
    | process pkt =>
      rw [lifeInputs]
      split
      · next h =>
        refine Or.inr ⟨_,rfl,fun other hother => ?_⟩
        cases hother
        exact ⟨rfl,h.1⟩
      · exact Or.inl rfl
    | timerSweep nowUs order => exact Or.inr ⟨_,rfl,fun pkt hpkt => by cases hpkt⟩
    | drainAll nowUs order => exact Or.inr ⟨_,rfl,fun pkt hpkt => by cases hpkt⟩
  rcases hinputs with hnone | ⟨input,hone,hpacket⟩
  · rw [hnone] at hlookup ⊢
    rw [Machine.final_nil] at hlookup
    rw [Machine.trace_nil,List.append_nil]
    exact Or.inl ⟨hlookup,rfl⟩
  · rw [hone,Machine.final_cons,Machine.final_nil,step_life] at hlookup
    rw [hone,Machine.trace_cons,Machine.trace_nil,List.append_nil,step_life]
    rcases lifeStep_packets cfg key (t.flows.lookup key) (earlier.filterMap (lifeView key)) input
        hlookup with hsame | ⟨pkt,before,hinput,hbefore,_,hpkts⟩ | ⟨pkt,_,hpkts⟩
    · exact Or.inl hsame
    · obtain ⟨hcall,hown⟩ := hpacket pkt hinput
      exact Or.inr (Or.inl ⟨pkt,before,hcall,hown,hbefore,hpkts⟩)
    · exact Or.inr (Or.inr ⟨pkt,hpkts⟩)

/-- In every state of the run each entry was last seen at the latest time among
its packets and not before its start, and no packet takes that time back. -/
structure SeenIsLatest (sink : σ) (calls : List Call) : Prop where
  entries : ∀ front,front<+:calls → ∀ key state,
    (tableAfter cfg onEvent sink front).flows.lookup key=some state →
      state.startUs.toInt≤ state.lastSeenUs.toInt ∧
        Latest state.lastSeenUs (lifetimePackets key (tableTrace cfg onEvent sink front))
  forward : ∀ front pkt,front++[.process pkt]<+:calls → ∀ state,
    (tableAfter cfg onEvent sink front).flows.lookup (keyFromPacket pkt)=some state →
      state.lastSeenUs.toInt≤(countPacket state pkt).lastSeenUs.toInt

/-- No packet of the run is older than a packet that its flow holds already. -/
def NoneLate (sink : σ) (calls : List Call) : Prop :=
  ∀ front pkt,front++[.process pkt]<+:calls →
    keyFromPacket pkt∈(tableAfter cfg onEvent sink front).flows →
      ∀ p∈lifetimePackets (keyFromPacket pkt) (tableTrace cfg onEvent sink front),
        p.timestampUs.toInt≤pkt.timestampUs.toInt

/-- Without late packets every flow holds its packets in time order. -/
theorem NoneLate.inTimeOrder {sink : σ} {calls : List Call}
    (h : NoneLate cfg onEvent sink calls) {front : List Call} (hfront : front<+:calls)
    {key : FlowKey} {state : FlowState}
    (hlookup : (tableAfter cfg onEvent sink front).flows.lookup key=some state) :
    InTimeOrder (lifetimePackets key (tableTrace cfg onEvent sink front)) := by
  induction front using List.reverseRecOn generalizing state with
  | nil =>
    have hnone := initial_lookup sink key
    cases hnone.symm.trans hlookup
  | append_singleton front c ih =>
    have hearlier : front<+:calls := (List.prefix_append front [c]).trans hfront
    have hkeyed := run_keyed cfg onEvent (.initial sink) keyed_empty front
    rw [tableAfter,Machine.final_concat] at hlookup
    rw [tableTrace,Machine.trace_concat]
    rcases call_packets cfg onEvent hkeyed c (tableTrace cfg onEvent sink front) hlookup with
      ⟨hbefore,hpkts⟩ | ⟨pkt,before,rfl,hown,hbefore,hpkts⟩ | ⟨pkt,hpkts⟩
    · rw [hpkts]
      exact ih hearlier hbefore
    · subst hown
      have hmem : keyFromPacket pkt∈(tableAfter cfg onEvent sink front).flows :=
        AList.lookup_isSome.mp (Option.isSome_of_eq_some hbefore)
      have hlate := h front pkt hfront hmem
      rw [hpkts]
      refine List.pairwise_append.mpr ⟨ih hearlier hbefore,List.pairwise_singleton _ _,?_⟩
      intro p hp q hq
      rw [List.mem_singleton.mp hq]
      exact hlate p hp
    · rw [hpkts]
      exact List.pairwise_singleton _ _

/-- For every sequence of calls, with packets in any order of their times, the
entries remember the latest time exactly when no packet is counted in a flow
that holds a newer one already. -/
theorem latest_iff (sink : σ) (calls : List Call) :
    SeenIsLatest cfg onEvent sink calls ↔ NoneLate cfg onEvent sink calls := by
  constructor
  · intro h front pkt hfront hmem p hp
    obtain ⟨state,hlookup⟩ := Option.isSome_iff_exists.mp (AList.lookup_isSome.mpr hmem)
    have hearlier : front<+:calls := (List.prefix_append front [.process pkt]).trans hfront
    have hlatest := (h.entries front hearlier _ state hlookup).2.2 p hp
    have hforward := h.forward front pkt hfront state hlookup
    exact hlatest.trans hforward
  · intro h
    constructor
    · intro front hfront key state hlookup
      have horder := h.inTimeOrder cfg onEvent hfront hlookup
      exact (run_firstAndLast cfg onEvent sink front hlookup).latest horder
    · intro front pkt hfront state hlookup
      have hmem : keyFromPacket pkt∈(tableAfter cfg onEvent sink front).flows :=
        AList.lookup_isSome.mp (Option.isSome_of_eq_some hlookup)
      have htimes := run_firstAndLast cfg onEvent sink front hlookup
      obtain ⟨last,hlast,hseen⟩ := Option.map_eq_some_iff.mp htimes.last
      have hlate := h front pkt hfront hmem last (List.mem_of_getLast? hlast)
      rw [←hseen]
      exact hlate

end Runs

/-- A datagram at second 100. -/
def recentDatagram : ParsedPacket :=
  {srcPort := 53,protocol := ipprotoUdp,wireLength := 60,timestampUs := 100000000}

/-- A datagram of the flow at second 10, delivered late. -/
def lateDatagram : ParsedPacket := {recentDatagram with timestampUs := 10000000}

/-- The late datagram takes the time back by 90 seconds, and a sweep at second
101 ends the flow as idle for the timeout of 60 seconds, one second after its
latest packet. -/
theorem late_packet_ages_flow :
    ¬SeenIsLatest {} (fun _ s => (true,s)) () [.process recentDatagram,.process lateDatagram] ∧
      (flowRecords (tableTrace {} (fun _ s => (true,s)) () [.process recentDatagram,
        .process lateDatagram,.timerSweep 101000000 .stored])).map FlowState.lastSeenUs=
          [10000000] := by
  constructor
  · intro h
    have hforward := h.forward [.process recentDatagram] lateDatagram (List.prefix_refl _)
      (firstState (keyFromPacket recentDatagram) recentDatagram) (by decide)
    exact absurd hforward (by decide)
  · decide

end PacketPipe.LastSeenTimes

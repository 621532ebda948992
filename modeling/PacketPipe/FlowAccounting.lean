import Mathlib.Algebra.BigOperators.Group.Finset.Basic
import Mathlib.Algebra.BigOperators.ModEq
import Mathlib.Data.Nat.ModEq
import PacketPipe.FlowLifetimes

/-!
# Every accepted packet is counted in exactly one flow record

An event carries the exact aggregate of the packets of its flow since the
latest Start. The counters wrap at 64 bits and are compared modulo 2^64.
Summed over all End events after a final drain they account for every packet
that was not dropped at the limit. Both results are invariants of the
single-flow machine and its history.
-/

namespace PacketPipe.FlowAccounting

open FlowEvents ConfigParserModel ObservedMachines FlowTableModel FlowLifetimes
open scoped BigOperators

/-- The state is the aggregate of the packets: own key, start time of the
first, and number and total wire length of all, modulo 2^64. -/
def Aggregates (key : FlowKey) (pkts : List ParsedPacket) (state : FlowState) : Prop :=
  state.key=key ∧
    (pkts.head?.map fun first => first.timestampUs)=some state.startUs ∧
    state.packetCount.toNat=pkts.length%2^64 ∧
    state.byteCount.toNat=(pkts.map fun p => p.wireLength.toNat).sum%2^64

/-- Packets of `key` counted since, and including, the packet that caused the
latest Start of `key`: a Start keeps the packet just counted and forgets the
earlier ones. -/
def lifetimePackets (key : FlowKey) (trace : List Observation) : List ParsedPacket :=
  trace.foldl (fun pkts o =>
    match o with
    | .counted pkt => if keyFromPacket pkt=key then pkts++[pkt] else pkts
    | .emitted evt _ =>
      if evt.state.key=key ∧ evt.type=.flowStart then pkts.getLast?.toList else pkts
    | .dropped _ _ => pkts) []

/-- The same, over what one key sees. -/
def lifePackets (seen : List LifeObservation) : List ParsedPacket :=
  seen.foldl (fun pkts o =>
    match o with
    | .packet pkt => pkts++[pkt]
    | .event evt => if evt.type=.flowStart then pkts.getLast?.toList else pkts) []

/-- The packets of the current lifetime depend only on what the key sees. -/
theorem lifetimePackets_eq (key : FlowKey) (trace : List Observation) :
    lifetimePackets key trace=lifePackets (trace.filterMap (lifeView key)) := by
  induction trace using List.reverseRecOn with
  | nil => rfl
  | append_singleton trace o ih =>
    unfold lifetimePackets lifePackets at *
    rw [List.foldl_append,List.filterMap_append,List.foldl_append,ih]
    cases o with
    | counted pkt => by_cases h : keyFromPacket pkt=key <;> simp [lifeView,h]
    | dropped pkt warned => rfl
    | emitted evt accepted => by_cases h : evt.state.key=key <;> simp [lifeView,h]

@[simp] theorem lifePackets_packet (seen : List LifeObservation) (pkt : ParsedPacket) :
    lifePackets (seen++[.packet pkt])=lifePackets seen++[pkt] := by
  simp only [lifePackets,List.foldl_append,List.foldl_cons,List.foldl_nil]

@[simp] theorem lifePackets_event (seen : List LifeObservation) (evt : FlowEvent) :
    lifePackets (seen++[.event evt])=
      if evt.type=.flowStart then (lifePackets seen).getLast?.toList else lifePackets seen := by
  simp only [lifePackets,List.foldl_append,List.foldl_cons,List.foldl_nil]

/-- The first packet alone is aggregated by the state that `process` creates. -/
theorem aggregates_first (key : FlowKey) (pkt : ParsedPacket) :
    Aggregates key [pkt] (firstState key pkt) := by
  have hbound := pkt.wireLength.toNat_lt
  refine ⟨rfl,rfl,rfl,?_⟩
  simp only [firstState,UInt32.toNat_toUInt64,List.map_cons,List.map_nil,List.sum_cons,
    List.sum_nil,Nat.add_zero]
  omega

/-- Counting one more packet extends the aggregate by it. -/
theorem Aggregates.count {key : FlowKey} {pkts : List ParsedPacket} {state : FlowState}
    (h : Aggregates key pkts state) (pkt : ParsedPacket) :
    Aggregates key (pkts++[pkt]) (countPacket state pkt) := by
  obtain ⟨hkey,hstart,hpackets,hbytes⟩ := h
  refine ⟨hkey,?_,?_,?_⟩
  · cases pkts with
    | nil => cases hstart
    | cons first rest => exact hstart
  · rw [countPacket,UInt64.toNat_add,hpackets,List.length_append]
    exact Nat.mod_add_mod _ _ _
  · rw [countPacket,UInt64.toNat_add,hbytes,List.map_append,List.sum_append,
      UInt32.toNat_toUInt64,Nat.mod_add_mod]
    rfl

/-- Every event seen so far carried the aggregate of its lifetime. -/
def EventsAggregate (key : FlowKey) (seen : List LifeObservation) : Prop :=
  ∀ earlier evt later,seen=earlier++.event evt::later →
    Aggregates key (lifePackets (earlier++[.event evt])) evt.state

/-- A split of a list with one more element at its end. -/
theorem split_concat {α : Type} {xs earlier later : List α} {x y : α}
    (h : xs++[x]=earlier++y::later) :
    (later=[] ∧ earlier=xs ∧ y=x) ∨ ∃ rest,later=rest++[x] ∧ xs=earlier++y::rest := by
  cases later using List.reverseRecOn with
  | nil =>
    left
    obtain ⟨hxs,hx⟩ := List.append_inj' h rfl
    cases hx
    exact ⟨rfl,hxs.symm,rfl⟩
  | append_singleton rest z =>
    right
    have h' : xs++[x]=(earlier++y::rest)++[z] := by
      rw [h,List.append_assoc,List.cons_append]
    obtain ⟨hxs,hx⟩ := List.append_inj' h' rfl
    cases hx
    exact ⟨rest,rfl,hxs⟩

/-- A packet adds no event. -/
theorem EventsAggregate.packet {key : FlowKey} {seen : List LifeObservation}
    (h : EventsAggregate key seen) (pkt : ParsedPacket) :
    EventsAggregate key (seen++[.packet pkt]) := by
  intro earlier evt later hsplit
  rcases split_concat hsplit with ⟨_,_,hy⟩ | ⟨rest,_,hseen⟩
  · cases hy
  · exact h earlier evt rest hseen

/-- A further event must carry the aggregate of its own lifetime. -/
theorem EventsAggregate.event {key : FlowKey} {seen : List LifeObservation}
    (h : EventsAggregate key seen) {evt : FlowEvent}
    (hevt : Aggregates key (lifePackets (seen++[.event evt])) evt.state) :
    EventsAggregate key (seen++[.event evt]) := by
  intro earlier other later hsplit
  rcases split_concat hsplit with ⟨_,rfl,hy⟩ | ⟨rest,_,hseen⟩
  · cases hy
    exact hevt
  · exact h earlier other rest hseen

/-- What the single-flow machine keeps: the entry is the aggregate of the
current lifetime, and every event carried the aggregate of its own. -/
structure Accounted (key : FlowKey) (entry : Option FlowState) (seen : List LifeObservation) :
    Prop where
  /-- The entry aggregates the packets of the current lifetime. -/
  entry : ∀ state,entry=some state → Aggregates key (lifePackets seen) state
  /-- So did every event. -/
  events : EventsAggregate key seen

/-- Without an entry only the events are accounted for. -/
theorem Accounted.absent {key : FlowKey} {seen : List LifeObservation}
    (h : EventsAggregate key seen) : Accounted key none seen :=
  ⟨fun _ hs => (Option.some_ne_none _ hs.symm).elim,h⟩

/-- One input of the single-flow machine keeps the account. -/
theorem lifeStep_accounted (cfg : AppConfig) (key : FlowKey) (entry : Option FlowState)
    (seen : List LifeObservation) (input : LifeInput) (h : Accounted key entry seen) :
    Accounted key (lifeStep cfg key entry input).1 (seen++(lifeStep cfg key entry input).2) := by
  have hunchanged : Accounted key none (seen++[]) := by
    rw [List.append_nil]
    exact .absent h.events
  cases entry with
  | none =>
    cases input with
    | packet pkt =>
      have hfirst : Aggregates key
          (lifePackets ((seen++[.packet pkt])++[.event (startEvent (firstState key pkt) pkt)]))
          (firstState key pkt) := by
        rw [lifePackets_event,if_pos (startEvent_type _ _),lifePackets_packet,List.getLast?_concat]
        exact aggregates_first key pkt
      have hevents := (h.events.packet pkt).event hfirst
      rw [List.append_assoc] at hfirst hevents
      refine ⟨fun state hs => ?_,hevents⟩
      cases hs
      exact hfirst
    | sweep nowUs heartbeat => exact hunchanged
    | drain nowUs => exact hunchanged
  | some state =>
    have hstate := h.entry state rfl
    have hreport : ∀ evt : FlowEvent,evt.type≠.flowStart → evt.state=state →
        Aggregates key (lifePackets (seen++[.event evt])) evt.state := by
      intro evt htype hsame
      rw [lifePackets_event,if_neg htype,hsame]
      exact hstate
    cases input with
    | packet pkt =>
      have hcounted : Aggregates key (lifePackets (seen++[.packet pkt]))
          (countPacket state pkt) := by
        rw [lifePackets_packet]
        exact hstate.count pkt
      rw [lifeStep]
      split
      · have hend : Aggregates key
            (lifePackets ((seen++[.packet pkt])++
              [.event (endEvent (countPacket state pkt) pkt.timestampUs .tcpTeardown)]))
            (countPacket state pkt) := by
          rw [lifePackets_event,if_neg (by simp)]
          exact hcounted
        have hevents := (h.events.packet pkt).event hend
        rw [List.append_assoc] at hevents
        exact .absent hevents
      · refine ⟨fun other hs => ?_,h.events.packet pkt⟩
        cases hs
        exact hcounted
    | sweep nowUs heartbeat =>
      rw [lifeStep]
      split
      · exact .absent
          (h.events.event (hreport (endEvent state nowUs .idleTimeout) (by simp) rfl))
      · split
        · have hstats := hreport (statsEvent state nowUs) (by simp) rfl
          refine ⟨fun other hs => ?_,h.events.event hstats⟩
          cases hs
          exact hstats
        · rw [List.append_nil]
          exact h
    | drain nowUs =>
      exact .absent
        (h.events.event (hreport (endEvent state nowUs .idleTimeout) (by simp) rfl))

/-- A 64-bit counter of an entry, with what each packet adds to it. -/
structure Counter where
  /-- The counter's field. -/
  read : FlowState → UInt64
  /-- What one packet adds. -/
  weight : ParsedPacket → ℕ
  /-- A new entry holds its first packet's weight. -/
  first : ∀ key pkt,(read (firstState key pkt)).toNat≡weight pkt [MOD 2^64]
  /-- A counted packet adds its weight. -/
  count : ∀ state pkt,
    (read (countPacket state pkt)).toNat≡(read state).toNat+weight pkt [MOD 2^64]

/-- `packet_count`. -/
def packetCounter : Counter where
  read := FlowState.packetCount
  weight _ := 1
  first _ _ := rfl
  count state pkt := by
    rw [countPacket,UInt64.toNat_add]
    exact Nat.mod_modEq _ _

/-- `byte_count`. -/
def byteCounter : Counter where
  read := FlowState.byteCount
  weight pkt := pkt.wireLength.toNat
  first key pkt := by
    rw [firstState,UInt32.toNat_toUInt64]
  count state pkt := by
    rw [countPacket,UInt64.toNat_add,UInt32.toNat_toUInt64]
    exact Nat.mod_modEq _ _

/-- Sum of a counter over the End events seen. -/
def lifeEnds (c : Counter) (seen : List LifeObservation) : ℕ :=
  (seen.map fun o =>
    match o with
    | .event evt => if evt.type=.flowEnd then (c.read evt.state).toNat else 0
    | .packet _ => 0).sum

/-- Sum of the weights of the packets seen. -/
def lifeWeight (c : Counter) (seen : List LifeObservation) : ℕ :=
  (seen.map fun o =>
    match o with
    | .packet pkt => c.weight pkt
    | .event _ => 0).sum

theorem lifeEnds_append (c : Counter) (xs ys : List LifeObservation) :
    lifeEnds c (xs++ys)=lifeEnds c xs+lifeEnds c ys := by
  simp only [lifeEnds,List.map_append,List.sum_append]

theorem lifeWeight_append (c : Counter) (xs ys : List LifeObservation) :
    lifeWeight c (xs++ys)=lifeWeight c xs+lifeWeight c ys := by
  simp only [lifeWeight,List.map_append,List.sum_append]

/-- What the entry of a key still holds. -/
def held (c : Counter) : Option FlowState → ℕ
  | none => 0
  | some state => (c.read state).toNat

/-- Conservation for one input: what the entry held and the packets added is
what the entry holds now and the End events took away. -/
theorem lifeStep_conserves (c : Counter) (cfg : AppConfig) (key : FlowKey)
    (entry : Option FlowState) (input : LifeInput) :
    lifeEnds c (lifeStep cfg key entry input).2+held c (lifeStep cfg key entry input).1≡
      held c entry+lifeWeight c (lifeStep cfg key entry input).2 [MOD 2^64] := by
  cases entry with
  | none =>
    cases input with
    | packet pkt =>
      simpa [lifeStep,lifeEnds,lifeWeight,held] using c.first key pkt
    | sweep nowUs heartbeat => rfl
    | drain nowUs => rfl
  | some state =>
    cases input with
    | packet pkt =>
      rw [lifeStep]
      split <;> simpa [lifeEnds,lifeWeight,held,endEvent] using c.count state pkt
    | sweep nowUs heartbeat =>
      rw [lifeStep]
      split
      · simp [lifeEnds,lifeWeight,held,endEvent,Nat.ModEq]
      · split <;> simp [lifeEnds,lifeWeight,held,Nat.ModEq]
    | drain nowUs => simp [lifeStep,lifeEnds,lifeWeight,held,endEvent,Nat.ModEq]

/-- Conservation for every run of the single-flow machine. -/
theorem lifeMachine_conserves (c : Counter) (cfg : AppConfig) (key : FlowKey)
    (entry : Option FlowState) (inputs : List LifeInput) :
    lifeEnds c ((lifeMachine cfg key).trace entry inputs)+
        held c ((lifeMachine cfg key).final entry inputs)≡
      held c entry+lifeWeight c ((lifeMachine cfg key).trace entry inputs) [MOD 2^64] := by
  induction inputs generalizing entry with
  | nil =>
    rw [Machine.trace_nil,Machine.final_nil,Nat.add_comm]
    rfl
  | cons input inputs ih =>
    have hstep := lifeStep_conserves c cfg key entry input
    have hrest := ih (lifeStep cfg key entry input).1
    rw [Machine.trace_cons,Machine.final_cons,lifeEnds_append,lifeWeight_append,step_life]
    have hsum := hstep.add hrest
    refine Nat.ModEq.add_right_cancel' (held c (lifeStep cfg key entry input).1) ?_
    convert hsum using 1 <;> omega

/-- An observation seen by its own key. -/
def ownView : Observation → Option LifeObservation
  | .counted pkt => some (.packet pkt)
  | .dropped _ _ => none
  | .emitted evt _ => some (.event evt)

/-- The key that an observation concerns. -/
def keyOf : Observation → Option FlowKey
  | .counted pkt => some (keyFromPacket pkt)
  | .dropped _ _ => none
  | .emitted evt _ => some evt.state.key

/-- One key sees an observation as its own key does, or not at all. -/
theorem lifeView_eq (key : FlowKey) (o : Observation) :
    lifeView key o=if keyOf o=some key then ownView o else none := by
  cases o with
  | counted pkt => simp only [lifeView,keyOf,ownView,Option.some_inj]
  | dropped pkt warned => rfl
  | emitted evt accepted => simp only [lifeView,keyOf,ownView,Option.some_inj]

/-- The keys that occur in a trace. -/
def traceKeys (trace : List Observation) : Finset FlowKey := (trace.filterMap keyOf).toFinset

/-- A sum over a trace is the sum, over any keys that cover it, of the sums
that the single keys see. -/
theorem sum_by_key (f : LifeObservation → ℕ) (keys : Finset FlowKey)
    (trace : List Observation) (hcover : traceKeys trace⊆keys) :
    ((trace.filterMap ownView).map f).sum=
      ∑ key∈keys,((trace.filterMap (lifeView key)).map f).sum := by
  induction trace with
  | nil => simp only [List.filterMap_nil,List.map_nil,List.sum_nil,Finset.sum_const_zero]
  | cons o trace ih =>
    have hrest : traceKeys trace⊆keys := by
      intro key hkey
      refine hcover ?_
      rw [traceKeys,List.mem_toFinset,List.mem_filterMap] at hkey ⊢
      obtain ⟨other,hother,hkeyOf⟩ := hkey
      exact ⟨other,List.mem_cons_of_mem _ hother,hkeyOf⟩
    have hsplit : ∀ view : Observation → Option LifeObservation,
        (((o::trace).filterMap view).map f).sum=
          (view o).elim 0 f+((trace.filterMap view).map f).sum := by
      intro view
      rw [List.filterMap_cons]
      cases view o with
      | none => rw [Option.elim_none,Nat.zero_add]
      | some seen => rfl
    simp only [hsplit,Finset.sum_add_distrib,ih hrest,lifeView_eq]
    congr 1
    cases howner : keyOf o with
    | none =>
      have hnone : ownView o=none := by
        cases o <;> first | rfl | cases howner
      simp only [hnone,reduceCtorEq,if_false,Option.elim_none,Finset.sum_const_zero]
    | some own =>
      have hmem : own∈keys := by
        refine hcover ?_
        rw [traceKeys,List.mem_toFinset,List.mem_filterMap]
        exact ⟨o,List.mem_cons_self,howner⟩
      simp only [Option.some_inj]
      rw [Finset.sum_eq_single_of_mem own hmem]
      · rw [if_pos rfl]
      · intro key _ hne
        rw [if_neg (Ne.symm hne),Option.elim_none]

/-- The packet of an observation, when it was counted. -/
def countedPacket : Observation → Option ParsedPacket
  | .counted pkt => some pkt
  | .dropped _ _ => none
  | .emitted _ _ => none

/-- The state carried by an End event. -/
def endedState : Observation → Option FlowState
  | .counted _ => none
  | .dropped _ _ => none
  | .emitted evt _ => if evt.type=.flowEnd then some evt.state else none

/-- The packets that were not dropped at the limit, in order. -/
def acceptedPackets (trace : List Observation) : List ParsedPacket :=
  trace.filterMap countedPacket

/-- The flow records: the states of the End events, in order. -/
def flowRecords (trace : List Observation) : List FlowState := trace.filterMap endedState

theorem flowRecords_append (xs ys : List Observation) :
    flowRecords (xs++ys)=flowRecords xs++flowRecords ys := List.filterMap_append

/-- The End events of a trace are those that the single keys see. -/
theorem lifeEnds_own (c : Counter) (trace : List Observation) :
    lifeEnds c (trace.filterMap ownView)=
      ((flowRecords trace).map fun state => (c.read state).toNat).sum := by
  induction trace with
  | nil => rfl
  | cons o trace ih =>
    cases o with
    | counted pkt => simpa [lifeEnds,flowRecords,List.filterMap_cons,ownView,endedState] using ih
    | dropped pkt warned => exact ih
    | emitted evt accepted =>
      by_cases h : evt.type=.flowEnd <;>
        simpa [lifeEnds,flowRecords,ownView,endedState,h] using ih

/-- The packets of a trace are those that the single keys see. -/
theorem lifeWeight_own (c : Counter) (trace : List Observation) :
    lifeWeight c (trace.filterMap ownView)=((acceptedPackets trace).map c.weight).sum := by
  induction trace with
  | nil => rfl
  | cons o trace ih =>
    cases o with
    | counted pkt => simpa [lifeWeight,acceptedPackets,ownView,countedPacket] using ih
    | dropped pkt warned => exact ih
    | emitted evt accepted =>
      simpa [lifeWeight,acceptedPackets,List.filterMap_cons,ownView,countedPacket] using ih

/-- The packet a call offers to the table. -/
def offered : Call → Option ParsedPacket
  | .process pkt => some pkt
  | _ => none

/-- The packet whose handling an observation reports. -/
def handled : Observation → Option ParsedPacket
  | .counted pkt => some pkt
  | .dropped pkt _ => some pkt
  | .emitted _ _ => none

section Runs

variable {σ : Type} (cfg : AppConfig) (onEvent : EventCallback σ)

/-- Upkeep handles no packet. -/
theorem upkeep_handled {seen : List Observation} (h : ∀ o∈seen,Upkeep o) :
    seen.filterMap handled=[] := by
  refine List.filterMap_eq_nil_iff.mpr fun o ho => ?_
  cases h o ho <;> rfl

/-- Upkeep counts no packet. -/
theorem upkeep_accepted {seen : List Observation} (h : ∀ o∈seen,Upkeep o) :
    acceptedPackets seen=[] := by
  refine List.filterMap_eq_nil_iff.mpr fun o ho => ?_
  cases h o ho <;> rfl

/-- Every call handles exactly the packet it offers: it is counted or dropped. -/
theorem call_handled (t : FlowTable σ) (call : Call) :
    ((tableMachine cfg onEvent).step t call).2.filterMap handled=(offered call).toList := by
  cases call with
  | process pkt =>
    have heffect := process_effect cfg onEvent pkt t
    rw [step_process]
    generalize (process cfg onEvent pkt t).1.flows=flows,
      (process cfg onEvent pkt t).2=seen at heffect ⊢
    cases heffect <;> rfl
  | timerSweep nowUs order => exact upkeep_handled (timerSweep_upkeep cfg onEvent nowUs order t)
  | drainAll nowUs order => exact upkeep_handled (drainLoop_upkeep onEvent nowUs _ t)

/-- Every offered packet is handled once, in order. -/
theorem run_handled (t : FlowTable σ) (calls : List Call) :
    ((tableMachine cfg onEvent).trace t calls).filterMap handled=calls.filterMap offered := by
  induction calls generalizing t with
  | nil => rfl
  | cons call calls ih =>
    rw [Machine.trace_cons,List.filterMap_append,call_handled,ih,List.filterMap_cons]
    cases offered call <;> rfl

/-- The packet that `process` takes in: its flow is known, or there is room for
a new one. -/
def admitted (t : FlowTable σ) : Call → List ParsedPacket
  | .process pkt =>
    if keyFromPacket pkt∈t.flows ∨ tableFull cfg t.flows=false then [pkt] else []
  | .timerSweep _ _ => []
  | .drainAll _ _ => []

/-- `process` refuses the packets of unknown flows on a full table. -/
theorem refuses_iff (pkt : ParsedPacket) (t : FlowTable σ) :
    refuses cfg pkt t=true ↔
      ¬(keyFromPacket pkt∈t.flows ∨ tableFull cfg t.flows=false) := by
  rw [refuses,Bool.and_eq_true,Option.isNone_iff_eq_none,AList.lookup_eq_none,not_or,
    Bool.not_eq_false]

/-- A call counts exactly the packet that it admits. -/
theorem call_accepted (t : FlowTable σ) (call : Call) :
    acceptedPackets ((tableMachine cfg onEvent).step t call).2=admitted cfg t call := by
  cases call with
  | process pkt =>
    have heffect := process_effect cfg onEvent pkt t
    have hrefuses := refuses_iff cfg pkt t
    rw [step_process,admitted]
    generalize (process cfg onEvent pkt t).1.flows=flows,
      (process cfg onEvent pkt t).2=seen at heffect ⊢
    cases heffect with
    | refused h =>
      rw [if_neg (hrefuses.mp h)]
      rfl
    | opened h =>
      rw [if_pos (by rwa [h,Bool.false_eq_true,false_iff,not_not] at hrefuses)]
      rfl
    | updated _ h =>
      rw [if_pos (by rwa [h,Bool.false_eq_true,false_iff,not_not] at hrefuses)]
      rfl
    | closed _ h =>
      rw [if_pos (by rwa [h,Bool.false_eq_true,false_iff,not_not] at hrefuses)]
      rfl
  | timerSweep nowUs order => exact upkeep_accepted (timerSweep_upkeep cfg onEvent nowUs order t)
  | drainAll nowUs order => exact upkeep_accepted (drainLoop_upkeep onEvent nowUs _ t)

/-- Every run counts exactly the packets that its calls admit. -/
theorem run_accepted (t : FlowTable σ) (calls : List Call) :
    acceptedPackets ((tableMachine cfg onEvent).trace t calls)=
      (tableMachine cfg onEvent).feed (admitted cfg) t calls := by
  induction calls generalizing t with
  | nil => rfl
  | cons call calls ih =>
    rw [Machine.trace_cons,acceptedPackets,List.filterMap_append,Machine.feed,
      ←ih ((tableMachine cfg onEvent).step t call).1,←call_accepted cfg onEvent t call]
    rfl

/-- A final drain counts no packet. -/
theorem drained_accepted (t : FlowTable σ) (calls : List Call) (nowUs : Int64)
    (order : MapOrder) :
    acceptedPackets ((tableMachine cfg onEvent).trace t (calls++[.drainAll nowUs order]))=
      (tableMachine cfg onEvent).feed (admitted cfg) t calls := by
  have hdrain := call_accepted cfg onEvent ((tableMachine cfg onEvent).final t calls)
    (.drainAll nowUs order)
  rw [←run_accepted,Machine.trace_concat,acceptedPackets,List.filterMap_append]
  rw [acceptedPackets] at hdrain
  rw [hdrain,admitted,List.append_nil]
  rfl

/-- A packet is dropped exactly when its flow is unknown and the table full. -/
theorem process_dropped_iff (pkt : ParsedPacket) (t : FlowTable σ) :
    (∃ warned,.dropped pkt warned∈(process cfg onEvent pkt t).2) ↔
      keyFromPacket pkt∉t.flows ∧ tableFull cfg t.flows=true := by
  have hrefuses := refuses_iff cfg pkt t
  rw [not_or,Bool.not_eq_false] at hrefuses
  rw [←hrefuses]
  have heffect := process_effect cfg onEvent pkt t
  generalize (process cfg onEvent pkt t).1.flows=flows,
    (process cfg onEvent pkt t).2=seen at heffect ⊢
  cases heffect with
  | refused h => exact iff_of_true ⟨_,List.mem_cons_self⟩ h
  | opened h => exact iff_of_false (by simp) (by rw [h]; exact Bool.false_ne_true)
  | updated _ h => exact iff_of_false (by simp) (by rw [h]; exact Bool.false_ne_true)
  | closed _ h => exact iff_of_false (by simp) (by rw [h]; exact Bool.false_ne_true)

/-- Every entry and every event of one key is accounted for in every run. -/
theorem run_accounted (sink : σ) (calls : List Call) (key : FlowKey) :
    Accounted key ((tableAfter cfg onEvent sink calls).flows.lookup key)
      ((tableTrace cfg onEvent sink calls).filterMap (lifeView key)) := by
  have hempty : Accounted key none [] := .absent fun earlier evt later h => by
    have hlength := congrArg List.length h
    rw [List.length_append,List.length_cons,List.length_nil] at hlength
    omega
  exact run_history cfg onEvent key (lifeStep_accounted cfg key) hempty sink calls

/-- After a drain the End events of all keys took every packet with them. -/
theorem drained_conserves (c : Counter) (sink : σ) (calls : List Call) (nowUs : Int64)
    (order : MapOrder) :
    ((flowRecords (tableTrace cfg onEvent sink (calls++[.drainAll nowUs order]))).map
        fun state => (c.read state).toNat).sum≡
      ((acceptedPackets
        (tableTrace cfg onEvent sink (calls++[.drainAll nowUs order]))).map c.weight).sum
      [MOD 2^64] := by
  set trace := tableTrace cfg onEvent sink (calls++[.drainAll nowUs order]) with htraceDef
  have hkey : ∀ key,lifeEnds c (trace.filterMap (lifeView key))≡
      lifeWeight c (trace.filterMap (lifeView key)) [MOD 2^64] := by
    intro key
    obtain ⟨hfinal,htrace⟩ := run_project cfg onEvent (FlowTable.initial sink) keyed_empty
      (calls++[.drainAll nowUs order]) key
    have hconserves := lifeMachine_conserves c cfg key none
      ((tableMachine cfg onEvent).feed (lifeInputs cfg key) (.initial sink)
        (calls++[.drainAll nowUs order]))
    rw [show (FlowTable.initial sink).flows.lookup key=none from rfl] at hfinal htrace
    rw [hfinal,htrace,Machine.final_concat,step_drainAll,drainAll_lookup] at hconserves
    rwa [held,Nat.add_zero,Nat.zero_add] at hconserves
  rw [←lifeEnds_own,←lifeWeight_own]
  simp only [lifeEnds,lifeWeight] at hkey ⊢
  rw [sum_by_key _ (traceKeys trace) trace (Finset.Subset.refl _),
    sum_by_key _ (traceKeys trace) trace (Finset.Subset.refl _)]
  exact Nat.ModEq.sum fun key _ => hkey key

/-- The flow records of a run account for its packets. -/
structure RecordsAccount (sink : σ) (calls : List Call) : Prop where
  /-- An event carries the aggregate of the packets counted since, and
  including, the one of the latest Start of its key. -/
  events : ∀ earlier evt accepted later,
    tableTrace cfg onEvent sink calls=earlier++.emitted evt accepted::later →
      Aggregates evt.state.key
        (lifetimePackets evt.state.key (earlier++[.emitted evt accepted])) evt.state
  /-- So does an entry of the table, under its own key. -/
  entries : ∀ key state,(tableAfter cfg onEvent sink calls).flows.lookup key=some state →
    Aggregates key (lifetimePackets key (tableTrace cfg onEvent sink calls)) state
  /-- Every offered packet is counted or dropped exactly once. -/
  handled : (tableTrace cfg onEvent sink calls).filterMap handled=calls.filterMap offered
  /-- It is counted exactly when its flow is known or there is room. -/
  counted : acceptedPackets (tableTrace cfg onEvent sink calls)=
    (tableMachine cfg onEvent).feed (admitted cfg) (.initial sink) calls
  /-- The next packet would be dropped exactly when its flow is unknown and
  the table has reached `max_flows`. -/
  dropped : ∀ pkt,
    (∃ warned,.dropped pkt warned∈
        (process cfg onEvent pkt (tableAfter cfg onEvent sink calls)).2) ↔
      keyFromPacket pkt∉(tableAfter cfg onEvent sink calls).flows ∧
        tableFull cfg (tableAfter cfg onEvent sink calls).flows=true
  /-- After a final drain the records sum to the number of the packets whose
  flow was known or had room, modulo 2^64. -/
  packets : ∀ nowUs order,
    ((flowRecords (tableTrace cfg onEvent sink (calls++[.drainAll nowUs order]))).map
        fun state => state.packetCount.toNat).sum%2^64=
      ((tableMachine cfg onEvent).feed (admitted cfg) (.initial sink) calls).length%2^64
  /-- And to their wire length. -/
  bytes : ∀ nowUs order,
    ((flowRecords (tableTrace cfg onEvent sink (calls++[.drainAll nowUs order]))).map
        fun state => state.byteCount.toNat).sum%2^64=
      (((tableMachine cfg onEvent).feed (admitted cfg) (.initial sink) calls).map
        fun pkt => pkt.wireLength.toNat).sum%2^64

/-- Every event of every run carries the aggregate of the packets of its
flow since, and including, the packet of the latest Start, and so does every
entry of the table, under its own key. Every offered packet is counted or
dropped exactly once, and dropped exactly when its flow is unknown on a full
table. After a final drain the records of all End events sum to the number and
the wire length of the others, modulo 2^64. -/
theorem flow_records_account (sink : σ) (calls : List Call) :
    RecordsAccount cfg onEvent sink calls := by
  constructor
  · intro earlier evt accepted later hsplit
    have hevents := (run_accounted cfg onEvent sink calls evt.state.key).events
    have hview : lifeView evt.state.key (.emitted evt accepted)=some (.event evt) :=
      if_pos rfl
    have hseen := hevents (earlier.filterMap (lifeView evt.state.key)) evt
      (later.filterMap (lifeView evt.state.key))
      (by rw [hsplit,List.filterMap_append,List.filterMap_cons_some hview])
    rw [lifetimePackets_eq,List.filterMap_append,List.filterMap_cons_some hview]
    exact hseen
  · intro key state hlookup
    rw [lifetimePackets_eq]
    exact (run_accounted cfg onEvent sink calls key).entry state hlookup
  · exact run_handled cfg onEvent _ calls
  · exact run_accepted cfg onEvent _ calls
  · intro pkt
    exact process_dropped_iff cfg onEvent pkt _
  · intro nowUs order
    have hpackets := drained_conserves cfg onEvent packetCounter sink calls nowUs order
    rw [show packetCounter.weight=fun _ => 1 from rfl,List.map_const',List.sum_replicate,
      smul_eq_mul,Nat.mul_one,drained_accepted] at hpackets
    exact hpackets
  · intro nowUs order
    have hbytes := drained_conserves cfg onEvent byteCounter sink calls nowUs order
    rw [drained_accepted] at hbytes
    exact hbytes

end Runs

end PacketPipe.FlowAccounting

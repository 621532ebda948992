import Mathlib.Data.List.Count
import PacketPipe.FlowLifetimes
import PacketPipe.SessionTraces

/-!
# The order of the events of one flow

For every key the events passed to the callback form sessions: a Start, any
number of Stats and one End, over and over, with at most one session open at
the end. The key is in the table exactly while its session is open. The
single-flow machine drives the session automaton one call at a time, and the
refinement carries the result to every run of the table.
-/

namespace PacketPipe.FlowEventOrder

open FlowEvents ConfigParserModel ObservedMachines FlowTableModel FlowLifetimes SessionTraces

/-- Start opens a session, Stats ticks it, End closes it. -/
def tokenOf : FlowEventType → Token
  | .flowStart => .opened
  | .flowStats => .ticked
  | .flowEnd => .closed

/-- The event of an emission for `key`, accepted or not. -/
def emittedFor (key : FlowKey) : Observation → Option FlowEvent
  | .emitted evt _ => if evt.state.key=key then some evt else none
  | _ => none

/-- The types of the events emitted for `key`, in order. -/
def eventTypes (key : FlowKey) (trace : List Observation) : List FlowEventType :=
  (trace.filterMap (emittedFor key)).map FlowEvent.type

/-- The event that one key sees, if what it sees is an event. -/
def eventOf : LifeObservation → Option FlowEvent
  | .packet _ => none
  | .event evt => some evt

/-- Emissions for a key are the events that the key sees. -/
theorem emittedFor_eq_view (key : FlowKey) (trace : List Observation) :
    trace.filterMap (emittedFor key)=(trace.filterMap (lifeView key)).filterMap eventOf := by
  rw [List.filterMap_filterMap]
  congr 1
  funext o
  cases o with
  | counted pkt =>
    by_cases h : keyFromPacket pkt=key <;> simp [emittedFor,lifeView,h,eventOf]
  | dropped pkt warned => rfl
  | emitted evt accepted =>
    by_cases h : evt.state.key=key <;> simp [emittedFor,lifeView,h,eventOf]

/-- Session tokens of what one key sees. -/
def lifeTokens (seen : List LifeObservation) : List Token :=
  (seen.filterMap eventOf).map fun evt => tokenOf evt.type

/-- Every input moves the automaton between absent and present. -/
theorem lifeStep_leads (cfg : AppConfig) (key : FlowKey) (entry : Option FlowState)
    (input : LifeInput) :
    Leads entry.isSome (lifeTokens (lifeStep cfg key entry input).2)
      (lifeStep cfg key entry input).1.isSome := by
  cases entry with
  | none => cases input <;> rfl
  | some state =>
    cases input with
    | packet pkt =>
      rw [lifeStep]
      split <;> rfl
    | sweep nowUs heartbeat =>
      rw [lifeStep]
      split
      · rfl
      · split <;> rfl
    | drain nowUs => rfl

/-- Every run of the single-flow machine is accepted by the automaton. -/
theorem lifeMachine_leads (cfg : AppConfig) (key : FlowKey) (entry : Option FlowState)
    (inputs : List LifeInput) :
    Leads entry.isSome (lifeTokens ((lifeMachine cfg key).trace entry inputs))
      ((lifeMachine cfg key).final entry inputs).isSome := by
  induction inputs generalizing entry with
  | nil => exact leads_nil _
  | cons input inputs ih =>
    rw [Machine.trace_cons,Machine.final_cons,lifeTokens,List.filterMap_append,List.map_append]
    exact (lifeStep_leads cfg key entry input).append (ih _)

section Runs

variable {σ : Type} (cfg : AppConfig) (onEvent : EventCallback σ)

/-- The events of one key lead from absent to present or absent. -/
theorem run_leads (sink : σ) (calls : List Call) (key : FlowKey) :
    Leads false ((eventTypes key (tableTrace cfg onEvent sink calls)).map tokenOf)
      ((tableAfter cfg onEvent sink calls).flows.lookup key).isSome := by
  obtain ⟨hfinal,htrace⟩ :=
    run_project cfg onEvent (FlowTable.initial sink) keyed_empty calls key
  have hleads := lifeMachine_leads cfg key none
    ((tableMachine cfg onEvent).feed (lifeInputs cfg key) (.initial sink) calls)
  rw [show (FlowTable.initial sink).flows.lookup key=none from rfl] at hfinal htrace
  rw [hfinal,htrace,lifeTokens,←emittedFor_eq_view] at hleads
  rwa [eventTypes,List.map_map]

/-- A key is present exactly when its last event is a Start or a Stats. -/
theorem present_iff_last (sink : σ) (calls : List Call) (key : FlowKey) :
    key∈(tableAfter cfg onEvent sink calls).flows ↔
      (eventTypes key (tableTrace cfg onEvent sink calls)).getLast?=some .flowStart ∨
        (eventTypes key (tableTrace cfg onEvent sink calls)).getLast?=some .flowStats := by
  rw [←AList.lookup_isSome,open_iff_last (run_leads cfg onEvent sink calls key),
    List.getLast?_map]
  cases (eventTypes key (tableTrace cfg onEvent sink calls)).getLast? with
  | none => simp
  | some type => cases type <;> simp [tokenOf]

/-- A sweep of an empty table emits nothing and leaves it empty. -/
theorem timerSweep_empty (nowUs : Int64) (order : MapOrder) {t : FlowTable σ}
    (h : t.flows.entries=[]) :
    (timerSweep cfg onEvent nowUs order t).1.flows.entries=[] ∧
      (timerSweep cfg onEvent nowUs order t).2=[] := by
  have hvisit : order.visit t.flows=[] := by
    have hperm := order.visit_perm t.flows
    rw [h] at hperm
    exact hperm.eq_nil
  simp only [timerSweep,hvisit,sweepScan,expireAll,h,List.append_nil,and_self]

/-- Any number of sweeps of an empty table emit nothing. -/
theorem sweeps_silent (sweeps : List (Int64×MapOrder)) {t : FlowTable σ}
    (h : t.flows.entries=[]) :
    (tableMachine cfg onEvent).trace t (sweeps.map fun s => .timerSweep s.1 s.2)=[] := by
  induction sweeps generalizing t with
  | nil => rfl
  | cons s sweeps ih =>
    obtain ⟨hflows,htrace⟩ := timerSweep_empty cfg onEvent s.1 s.2 h
    rw [List.map_cons,Machine.trace_cons,step_timerSweep,htrace,ih hflows,List.append_nil]

/-- After a drain every session of every key is closed. -/
theorem drained_leads (sink : σ) (calls : List Call) (nowUs : Int64) (order : MapOrder)
    (key : FlowKey) :
    Leads false ((eventTypes key
      (tableTrace cfg onEvent sink (calls++[.drainAll nowUs order]))).map tokenOf) false := by
  have hleads := run_leads cfg onEvent sink (calls++[.drainAll nowUs order]) key
  rw [tableAfter,Machine.final_concat] at hleads
  rwa [step_drainAll,drainAll_lookup] at hleads

/-- Starts and Ends of a fully closed key are equally many. -/
theorem count_starts {types : List FlowEventType} (h : Leads false (types.map tokenOf) false) :
    types.count .flowStart=types.count .flowEnd := by
  have hcount := count_opened h
  have hinj : Function.Injective tokenOf := by
    intro a b hab
    cases a <;> cases b <;> first | rfl | cases hab
  rw [Bool.toNat_false,Nat.add_zero] at hcount
  rw [←List.count_map_of_injective types tokenOf hinj .flowStart,
    ←List.count_map_of_injective types tokenOf hinj .flowEnd]
  exact hcount

/-- For every run and every key: the event types have the session shape and
the key is in the table exactly when its last event is a Start or a Stats.
After a drain every session is closed, and sweeps alone emit nothing. -/
theorem flow_lifecycle (sink : σ) (calls : List Call) :
    (∀ key,
      Shape ((eventTypes key (tableTrace cfg onEvent sink calls)).map tokenOf)
          (decide (key∈(tableAfter cfg onEvent sink calls).flows)) ∧
        (key∈(tableAfter cfg onEvent sink calls).flows ↔
          (eventTypes key (tableTrace cfg onEvent sink calls)).getLast?=some .flowStart ∨
            (eventTypes key (tableTrace cfg onEvent sink calls)).getLast?=some .flowStats)) ∧
    ∀ nowUs order,
      (∀ key,
        Shape ((eventTypes key
            (tableTrace cfg onEvent sink (calls++[.drainAll nowUs order]))).map tokenOf) false ∧
          (eventTypes key
              (tableTrace cfg onEvent sink (calls++[.drainAll nowUs order]))).count .flowStart=
            (eventTypes key
              (tableTrace cfg onEvent sink (calls++[.drainAll nowUs order]))).count .flowEnd) ∧
      ∀ sweeps : List (Int64×MapOrder),
        (tableMachine cfg onEvent).trace
          (tableAfter cfg onEvent sink (calls++[.drainAll nowUs order]))
          (sweeps.map fun s => .timerSweep s.1 s.2)=[] := by
  refine ⟨fun key => ⟨?_,present_iff_last cfg onEvent sink calls key⟩,
    fun nowUs order => ⟨fun key => ?_,fun sweeps => ?_⟩⟩
  · have hshape := shape_of_leads (run_leads cfg onEvent sink calls key)
    have hpresent : ((tableAfter cfg onEvent sink calls).flows.lookup key).isSome=
        decide (key∈(tableAfter cfg onEvent sink calls).flows) := by
      rw [Bool.eq_iff_iff,AList.lookup_isSome,decide_eq_true_eq]
    rwa [hpresent] at hshape
  · have hleads := drained_leads cfg onEvent sink calls nowUs order key
    exact ⟨shape_of_leads hleads,count_starts hleads⟩
  · refine sweeps_silent cfg onEvent sweeps ?_
    rw [tableAfter,Machine.final_concat]
    exact drainAll_entries onEvent nowUs order _

end Runs

end PacketPipe.FlowEventOrder

import PacketPipe.EventQueueRefinement
import PacketPipe.PipelineModel

/-!
# The calls on the table in the order of the lock

The calls that have returned, made one after the other on a table of their own
with the answers that the queue gave, show the same and leave the same table.
The pushes that the queue has answered are the events of these calls, in order,
and the first ones of the call in progress. Neither the sink thread nor the
counters of the source matter to the table.
-/

namespace PacketPipe.PipelineCalls

open FlowEvents ConfigParserModel ObservedMachines BoundedFifos LockedCalls
open FlowTableModel FlowTableShutdown FlowTableCallbacks EventQueueModel EventQueueRefinement
open KafkaSinkModel PipelineModel

/-- The observation of the table. -/
def tableView : PipelineObservation → Option Observation
  | .table o => some o
  | .queue _ => none
  | .sink _ => none

/-- The operation of the queue. -/
def queueView : PipelineObservation → Option (Operation FlowEvent)
  | .table _ => none
  | .queue op => some op
  | .sink _ => none

/-- The event of an answered push, with the answer. -/
def pushView : PipelineObservation → Option (FlowEvent×Bool)
  | .table _ => none
  | .queue (.enqueue evt ok) => some (evt,ok)
  | .queue (.dequeue _) => none
  | .sink _ => none

/-- What a step of the one thread shows. -/
def shown : SingleSeen Call PipelineObservation → Option PipelineObservation
  | .entered _ => none
  | .did o => some o
  | .left _ => none

/-- The call that has returned. -/
def finishedCall : SingleSeen Call PipelineObservation → Option Call
  | .entered _ => none
  | .did _ => none
  | .left call => some call

/-- What a view sees of steps is what it sees of their observations. -/
theorem shown_did (seen : List PipelineObservation) :
    (seen.map (SingleSeen.did : _ → SingleSeen Call PipelineObservation)).filterMap shown=seen ∧
      (seen.map (SingleSeen.did : _ → SingleSeen Call PipelineObservation)).filterMap
        finishedCall=[] := by
  constructor
  · rw [List.filterMap_map]
    exact List.filterMap_some
  · refine List.filterMap_eq_nil_iff.mpr fun o ho => ?_
    obtain ⟨_,_,rfl⟩ := List.mem_map.mp ho
    rfl

/-- Observations of the table are seen as such. -/
theorem tableView_table (seen : List Observation) :
    (seen.map PipelineObservation.table).filterMap tableView=seen := by
  rw [List.filterMap_map]
  exact List.filterMap_some

/-- A view that sees nothing of any observation sees nothing. -/
theorem filterMap_map_none {α β γ : Type} {f : α → β} {view : β → Option γ}
    (h : ∀ a,view (f a)=none) (xs : List α) : (xs.map f).filterMap view=[] := by
  rw [List.filterMap_map]
  exact List.filterMap_eq_nil_iff.mpr fun a _ => h a

section Events

variable (cfg : AppConfig)

/-- The events of a call, whatever its pushes are answered. -/
def callEvents (call : Call) (t : FlowTable Unit) : List FlowEvent :=
  emissions (called cfg call [] t).2

/-- The answers so far do not change the events. -/
theorem emissions_called (call : Call) (answers : List Bool) (t : FlowTable Unit) :
    emissions (called cfg call answers t).2=callEvents cfg call t := by
  have halike : Alike (withSink t answers) (withSink t ([] : List Bool)) := ⟨rfl,rfl,rfl⟩
  exact emissions_unanswered (call_parallel cfg answerFrom answerFrom halike call).seen

/-- Tables that agree have calls with the same events. -/
theorem callEvents_alike (call : Call) {t t' : FlowTable Unit} (h : Alike t t') :
    callEvents cfg call t=callEvents cfg call t' := by
  have halike : Alike (withSink t ([] : List Bool)) (withSink t' ([] : List Bool)) :=
    ⟨h.flows,h.heartbeat,h.drops⟩
  exact emissions_unanswered (call_parallel cfg answerFrom answerFrom halike call).seen

end Events

/-- With one event to push, an access begins or goes on with its push, or
answers it; the consumer stays where it is. -/
theorem producerStep_one {size : RingSize} (queue : EventQueue size) {push : Pushing size}
    (popping : Popping size) {pending : List FlowEvent} {evt : FlowEvent}
    (h : inFlight push++pending=[evt]) :
    (producerStep ⟨queue,push,popping,pending⟩).1.consumer=popping ∧
      (producerStep ⟨queue,push,popping,pending⟩).1.pending=[] ∧
      ((producerStep ⟨queue,push,popping,pending⟩).2=[] ∧
          inFlight (producerStep ⟨queue,push,popping,pending⟩).1.producer=[evt] ∨
        ∃ ok,(producerStep ⟨queue,push,popping,pending⟩).2=[.enqueue evt ok] ∧
          (producerStep ⟨queue,push,popping,pending⟩).1.producer=.idle) := by
  unfold producerStep
  cases push with
  | idle =>
    obtain rfl : pending=[evt] := h
    exact ⟨rfl,rfl,.inl ⟨rfl,rfl⟩⟩
  | loadedTail evt' tail =>
    obtain ⟨rfl,rfl⟩ := List.cons.inj h
    dsimp only
    split
    · exact ⟨rfl,rfl,.inr ⟨false,rfl,rfl⟩⟩
    · exact ⟨rfl,rfl,.inl ⟨rfl,rfl⟩⟩
  | checked evt' tail nextTail =>
    obtain ⟨rfl,rfl⟩ := List.cons.inj h
    exact ⟨rfl,rfl,.inl ⟨rfl,rfl⟩⟩
  | written evt' nextTail =>
    obtain ⟨rfl,rfl⟩ := List.cons.inj h
    exact ⟨rfl,rfl,.inr ⟨true,rfl,rfl⟩⟩

/-- Everything a step of a call can do. -/
inductive CallStep (cfg : AppConfig) (call : Call) (locals : InCall) (s : Pipeline) :
    Pipeline → Option InCall → List PipelineObservation → Prop
  /-- All events are pushed and the call returns. -/
  | returns (hidle : locals.push=.idle)
    (hall : (callEvents cfg call s.table).length ≤ locals.answers.length) :
    CallStep cfg call locals s
      {s with table := withSink (called cfg call locals.answers s.table).1 ()} none
      ((called cfg call locals.answers s.table).2.map .table)
  /-- An access of the push of one event. -/
  | pushes (evt : FlowEvent) (pending : List FlowEvent)
    (hone : inFlight locals.push++pending=[evt])
    (hnext : inFlight locals.push=[] →
      (callEvents cfg call s.table)[locals.answers.length]?=some evt) :
    CallStep cfg call locals s (pushStep locals pending s).1 (pushStep locals pending s).2.1
      (pushStep locals pending s).2.2

/-- There are no other steps. -/
theorem callStep_step (cfg : AppConfig) (call : Call) (locals : InCall) (s : Pipeline) :
    CallStep cfg call locals s (callStep cfg call locals s).1 (callStep cfg call locals s).2.1
      (callStep cfg call locals s).2.2 := by
  obtain ⟨answers,push⟩ := locals
  unfold callStep
  cases push with
  | idle =>
    dsimp only
    cases hnext : nextEvent cfg call answers s.table with
    | none =>
      rw [nextEvent,emissions_called,List.getElem?_eq_none_iff] at hnext
      exact .returns rfl hnext
    | some evt =>
      rw [nextEvent,emissions_called] at hnext
      exact .pushes evt [evt] rfl fun _ => hnext
  | loadedTail evt tail =>
    exact .pushes evt [] rfl fun hnone => absurd hnone (List.cons_ne_nil _ _)
  | checked evt tail nextTail =>
    exact .pushes evt [] rfl fun hnone => absurd hnone (List.cons_ne_nil _ _)
  | written evt nextTail =>
    exact .pushes evt [] rfl fun hnone => absurd hnone (List.cons_ne_nil _ _)

section Frames

variable (ser : Serializer) (cfg : AppConfig)

/-- A step beside the calls leaves the table alone, or counts a frame, and
answers no push. -/
structure Beside (s s' : Pipeline) (seen : List PipelineObservation) : Prop where
  /-- The table is as good as before. -/
  table : Alike s.table s'.table
  /-- Nothing is seen of the table. -/
  tableSeen : seen.filterMap tableView=[]
  /-- No push is answered. -/
  pushSeen : seen.filterMap pushView=[]

theorem sinkAccess_beside (answer : Answer) (s : Pipeline) :
    Beside s (sinkAccess ser cfg answer s).1 (sinkAccess ser cfg answer s).2 :=
  ⟨⟨rfl,rfl,rfl⟩,filterMap_map_none (fun _ => rfl) _,filterMap_map_none (fun _ => rfl) _⟩

theorem popAccess_beside (missed : SinkPc) (s : Pipeline) :
    Beside s (popAccess missed s).1 (popAccess missed s).2 := by
  unfold popAccess
  dsimp only
  split <;> exact ⟨⟨rfl,rfl,rfl⟩,rfl,rfl⟩

/-- The surroundings work beside the calls. -/
theorem other_beside (e : Surroundings) (s : Pipeline) :
    Beside s ((pipelineCode ser cfg).other e s).1 ((pipelineCode ser cfg).other e s).2 := by
  cases e with
  | sink answer =>
    change Beside s (sinkTurn ser cfg answer s).1 (sinkTurn ser cfg answer s).2
    unfold sinkTurn
    cases s.sink.pc with
    | loopHead =>
      dsimp only
      split
      · exact ⟨⟨rfl,rfl,rfl⟩,rfl,rfl⟩
      · exact sinkAccess_beside ser cfg answer s
    | firstPop => exact popAccess_beside _ s
    | secondPop => exact popAccess_beside _ s
    | retrying => exact sinkAccess_beside ser cfg answer s
    | attempting evt => exact sinkAccess_beside ser cfg answer s
    | polling => exact sinkAccess_beside ser cfg answer s
    | left => exact sinkAccess_beside ser cfg answer s
  | requestStop => exact ⟨⟨rfl,rfl,rfl⟩,rfl,rfl⟩
  | undecodable => exact ⟨⟨rfl,rfl,rfl⟩,rfl,rfl⟩

end Frames

section Serial

variable (ser : Serializer) (cfg : AppConfig)

/-- The pushes of the call in progress that are answered, with their answers. -/
def inCallPushes (s : Single Call InCall Pipeline) : List (FlowEvent×Bool) :=
  match s.current with
  | none => []
  | some (call,locals) => (callEvents cfg call s.shared.table).zip locals.answers

/-- The locals of a call belong to its events: as many answers as events are
done with, and the event in flight is the next one. -/
structure Halfway (call : Call) (locals : InCall) (t : FlowTable Unit) : Prop where
  /-- No more answers than events. -/
  bound : locals.answers.length ≤ (callEvents cfg call t).length
  /-- The next event is in flight, if any is. -/
  flight : ∀ evt,inFlight locals.push=[evt] →
    (callEvents cfg call t)[locals.answers.length]?=some evt

/-- The threads seen as one, against the same calls made one after the other. -/
structure Serial (s : Single Call InCall Pipeline) (calls : List Call)
    (seen : List PipelineObservation) : Prop where
  /-- With the answers that the queue gave, the finished calls show the same and
  leave the same table; they leave over any more answers. -/
  table : ∃ answers,∀ more,
    tableTrace cfg answerFrom (answers++more) calls=seen.filterMap tableView ∧
      Alike (tableAfter cfg answerFrom (answers++more) calls) s.shared.table ∧
      (tableAfter cfg answerFrom (answers++more) calls).sink=more
  /-- The answered pushes are the events of the finished calls and the first
  ones of the call in progress. -/
  pushes : seen.filterMap pushView=
    (seen.filterMap tableView).filterMap emittedPush++inCallPushes cfg s
  /-- The call in progress keeps its place. -/
  current : ∀ call locals,s.current=some (call,locals) →
    Halfway cfg call locals s.shared.table

/-- Nothing is called and nothing is seen at first. -/
theorem serial_initial : Serial cfg ⟨.initial,none⟩ [] [] :=
  ⟨⟨[],fun _ => ⟨rfl,⟨rfl,rfl,rfl⟩,rfl⟩⟩,rfl,fun _ _ h => by cases h⟩

variable {cfg}

/-- A step beside the calls keeps all of it. -/
theorem Serial.beside {s : Single Call InCall Pipeline} {calls : List Call}
    {seen later : List PipelineObservation} (h : Serial cfg s calls seen) {after : Pipeline}
    (hbeside : Beside s.shared after later) :
    Serial cfg {s with shared := after} calls (seen++later) := by
  have hevents : ∀ call,callEvents cfg call after.table=callEvents cfg call s.shared.table :=
    fun call => (callEvents_alike cfg call hbeside.table).symm
  obtain ⟨answers,htable⟩ := h.table
  refine ⟨⟨answers,fun more => ?_⟩,?_,fun call locals hcurrent => ?_⟩
  · obtain ⟨htrace,halike,hsink⟩ := htable more
    refine ⟨?_,halike.trans hbeside.table,hsink⟩
    rw [List.filterMap_append,hbeside.tableSeen,List.append_nil,htrace]
  · rw [List.filterMap_append,List.filterMap_append,hbeside.tableSeen,hbeside.pushSeen,
      List.append_nil,List.append_nil,h.pushes]
    unfold inCallPushes
    dsimp only
    cases s.current with
    | none => rfl
    | some current =>
      dsimp only
      rw [hevents]
  · obtain ⟨hbound,hflight⟩ := h.current call locals hcurrent
    constructor
    · dsimp only
      rwa [hevents]
    · intro evt hevt
      dsimp only
      rw [hevents]
      exact hflight evt hevt

/-- A call that begins has pushed nothing yet. -/
theorem Serial.enter {s : Single Call InCall Pipeline} {calls : List Call}
    {seen : List PipelineObservation} (h : Serial cfg s calls seen) (hnone : s.current=none)
    (call : Call) :
    Serial cfg {s with current := some (call,⟨[],.idle⟩)} calls seen := by
  refine ⟨h.table,?_,fun call' locals hcurrent => ?_⟩
  · have hpushes := h.pushes
    rw [inCallPushes,hnone] at hpushes
    rw [hpushes]
    exact congrArg _ List.zip_nil_right.symm
  · cases hcurrent
    exact ⟨Nat.zero_le _,fun _ hflight => by cases hflight⟩

/-- One more answer for the next of the events. -/
theorem zip_concat {α β : Type} {xs : List α} {ys : List β} {x : α} (y : β)
    (h : xs[ys.length]?=some x) : xs.zip (ys++[y])=xs.zip ys++[(x,y)] := by
  induction ys generalizing xs with
  | nil =>
    cases xs with
    | nil => cases h
    | cons first xs =>
      obtain rfl : first=x := Option.some_inj.mp h
      rw [List.nil_append,List.zip_cons_cons,List.zip_nil_right,List.zip_nil_right]
      rfl
  | cons z ys ih =>
    cases xs with
    | nil => cases h
    | cons first xs => exact congrArg ((first,z)::·) (ih h)

/-- An access of a push keeps all of it. -/
theorem Serial.pushes_step {s : Single Call InCall Pipeline} {calls : List Call}
    {seen : List PipelineObservation} (h : Serial cfg s calls seen) {call : Call}
    {locals : InCall} (hcurrent : s.current=some (call,locals)) {evt : FlowEvent}
    {pending : List FlowEvent} (hone : inFlight locals.push++pending=[evt])
    (hnext : inFlight locals.push=[] →
      (callEvents cfg call s.shared.table)[locals.answers.length]?=some evt) {after : InCall}
    (hafter : (pushStep locals pending s.shared).2.1=some after) :
    Serial cfg ⟨(pushStep locals pending s.shared).1,some (call,after)⟩ calls
      (seen++(pushStep locals pending s.shared).2.2) := by
  have hevt : (callEvents cfg call s.shared.table)[locals.answers.length]?=some evt := by
    cases hflight : inFlight locals.push with
    | nil => exact hnext hflight
    | cons first rest =>
      rw [hflight,List.cons_append,List.cons.injEq,List.append_eq_nil_iff] at hone
      obtain ⟨rfl,rfl,_⟩ := hone
      exact (h.current call locals hcurrent).flight first hflight
  have hpushes := h.pushes
  rw [inCallPushes,hcurrent] at hpushes
  dsimp only at hpushes
  obtain ⟨hconsumer,hpending,hcase⟩ := producerStep_one s.shared.sink.queue
    s.shared.popping hone
  unfold pushStep at hafter ⊢
  dsimp only at hafter ⊢
  obtain rfl := Option.some_inj.mp hafter
  rcases hcase with ⟨hseen,hflight⟩ | ⟨ok,hseen,hidle⟩
  · rw [hseen,List.map_nil,List.append_nil,List.filterMap_nil,List.append_nil]
    refine ⟨h.table,hpushes,fun call' locals' heq => ?_⟩
    cases heq
    refine ⟨(h.current call locals hcurrent).bound,fun evt' hevt' => ?_⟩
    dsimp only at hevt'
    rw [hflight,List.cons.injEq] at hevt'
    rw [←hevt'.1]
    exact hevt
  · rw [hseen,hidle]
    refine ⟨?_,?_,fun call' locals' heq => ?_⟩
    · rw [List.filterMap_append]
      exact (List.append_nil _).symm▸h.table
    · rw [List.filterMap_append,List.filterMap_append,hpushes,inCallPushes]
      dsimp only [List.filterMap_cons,List.filterMap_nil,pushAnswer]
      rw [zip_concat ok hevt]
      simp [pushView,tableView]
    · cases heq
      refine ⟨?_,fun evt' hevt' => by cases hevt'⟩
      have hlength := (List.getElem?_eq_some_iff.mp hevt).1
      simpa [List.filterMap_cons,pushAnswer] using hlength

/-- A call that returns is the next of the finished calls. -/
theorem Serial.returns {s : Single Call InCall Pipeline} {calls : List Call}
    {seen : List PipelineObservation} (h : Serial cfg s calls seen) {call : Call}
    {locals : InCall} (hcurrent : s.current=some (call,locals))
    (hall : (callEvents cfg call s.shared.table).length ≤ locals.answers.length) :
    Serial cfg
      ⟨{s.shared with table := withSink (called cfg call locals.answers s.shared.table).1 ()},none⟩
      (calls++[call])
      (seen++(called cfg call locals.answers s.shared.table).2.map .table) := by
  have hlength : locals.answers.length=
      (emissions (called cfg call locals.answers s.shared.table).2).length := by
    rw [emissions_called]
    exact Nat.le_antisymm (h.current call locals hcurrent).bound hall
  obtain ⟨answers,htable⟩ := h.table
  have hshown : (seen++(called cfg call locals.answers s.shared.table).2.map
      PipelineObservation.table).filterMap tableView=
        seen.filterMap tableView++(called cfg call locals.answers s.shared.table).2 := by
    rw [List.filterMap_append,tableView_table]
  refine ⟨⟨answers++locals.answers,fun more => ?_⟩,?_,fun _ _ heq => by cases heq⟩
  · rw [List.append_assoc]
    obtain ⟨htrace,halike,hsink⟩ := htable (locals.answers++more)
    obtain ⟨hafter,hseen,hmore,_⟩ := call_repeats cfg halike.symm call hsink hlength
    rw [tableTrace,tableAfter,Machine.final_concat,Machine.trace_concat,hshown]
    refine ⟨?_,hafter.symm.trans (alike_withSink _ _),hmore⟩
    rw [hseen]
    exact congrArg (·++_) htrace
  · obtain ⟨_,_,_,hanswers⟩ := call_repeats cfg (alike_withSink s.shared.table locals.answers)
      call (List.append_nil _).symm hlength
    have hpushes := h.pushes
    rw [inCallPushes,hcurrent] at hpushes
    dsimp only at hpushes
    rw [hshown,List.filterMap_append,filterMap_map_none (fun _ => rfl),List.append_nil,hpushes,
      List.filterMap_append,pushes_zip (called cfg call locals.answers s.shared.table).2,
      emissions_called,inCallPushes,List.append_nil]
    exact congrArg _ (congrArg _ hanswers.symm)

/-- So does every step of the call in progress. -/
theorem Serial.callStep {s : Single Call InCall Pipeline} {calls : List Call}
    {seen : List PipelineObservation} (h : Serial cfg s calls seen) {call : Call}
    {locals : InCall} (hcurrent : s.current=some (call,locals)) {after : Pipeline}
    {next : Option InCall} {later : List PipelineObservation}
    (hstep : CallStep cfg call locals s.shared after next later) :
    Serial cfg ⟨after,next.map (call,·)⟩ (calls++if next.isNone=true then [call] else [])
      (seen++later) := by
  cases hstep with
  | returns hidle hall => exact h.returns hcurrent hall
  | pushes evt pending hone hnext =>
    have hpush := h.pushes_step hcurrent hone hnext rfl
    rwa [←List.append_nil calls] at hpush

/-- Every step keeps all of it. -/
theorem Serial.step {s : Single Call InCall Pipeline} {calls : List Call}
    {seen : List PipelineObservation} (h : Serial cfg s calls seen)
    (input : SingleInput Call Surroundings) :
    Serial cfg ((singleMachine (pipelineCode ser cfg)).step s input).1
      (calls++((singleMachine (pipelineCode ser cfg)).step s input).2.filterMap finishedCall)
      (seen++((singleMachine (pipelineCode ser cfg)).step s input).2.filterMap shown) := by
  have hnothing : Serial cfg s (calls++[]) (seen++[]) := by
    rwa [List.append_nil,List.append_nil]
  cases input with
  | enter call =>
    simp only [singleMachine]
    cases hcurrent : s.current with
    | none =>
      have henter := h.enter hcurrent call
      rw [←List.append_nil calls,←List.append_nil seen] at henter
      exact henter
    | some current => exact hnothing
  | turn =>
    change Serial cfg (singleTurn (pipelineCode ser cfg) s).1
      (calls++(singleTurn (pipelineCode ser cfg) s).2.filterMap finishedCall)
      (seen++(singleTurn (pipelineCode ser cfg) s).2.filterMap shown)
    unfold singleTurn
    cases hcurrent : s.current with
    | none => exact hnothing
    | some current =>
      obtain ⟨call,locals⟩ := current
      have hturn := h.callStep hcurrent (callStep_step cfg call locals s.shared)
      have hcode : (pipelineCode ser cfg).step call locals s.shared=
        PipelineModel.callStep cfg call locals s.shared := rfl
      dsimp only
      rw [hcode]
      generalize PipelineModel.callStep cfg call locals s.shared=stepped at hturn ⊢
      obtain ⟨after,next,later⟩ := stepped
      obtain ⟨hshown,hfinished⟩ := shown_did later
      cases next with
      | some after =>
        dsimp only
        rw [hshown,hfinished]
        exact hturn
      | none =>
        dsimp only
        rw [List.filterMap_append,List.filterMap_append,hshown,hfinished]
        rw [←List.append_nil later] at hturn
        exact hturn
  | other e =>
    have hbeside := h.beside (other_beside ser cfg e s.shared)
    obtain ⟨hshown,hfinished⟩ := shown_did ((pipelineCode ser cfg).other e s.shared).2
    simp only [singleMachine]
    rw [hshown,hfinished,List.append_nil]
    exact hbeside

/-- All of it holds in every run of the threads seen as one. -/
theorem run_serial (cfg : AppConfig) (inputs : List (SingleInput Call Surroundings)) :
    Serial cfg ((singleMachine (pipelineCode ser cfg)).final ⟨.initial,none⟩ inputs)
      (((singleMachine (pipelineCode ser cfg)).trace ⟨.initial,none⟩ inputs).filterMap
        finishedCall)
      (((singleMachine (pipelineCode ser cfg)).trace ⟨.initial,none⟩ inputs).filterMap shown) := by
  have hstep : ∀ s history input,
      Serial cfg s (history.filterMap finishedCall) (history.filterMap shown) →
      Serial cfg ((singleMachine (pipelineCode ser cfg)).step s input).1
        ((history++((singleMachine (pipelineCode ser cfg)).step s input).2).filterMap
          finishedCall)
        ((history++((singleMachine (pipelineCode ser cfg)).step s input).2).filterMap shown) := by
    intro s history input h
    rw [List.filterMap_append,List.filterMap_append]
    exact h.step ser input
  exact Machine.history_invariant (singleMachine (pipelineCode ser cfg)) (h:=[]) hstep
    (serial_initial cfg) inputs

end Serial

end PacketPipe.PipelineCalls

import PacketPipe.FlowTableShutdown

/-!
# The table and its callback

A call passes its events to the callback and goes on in the same way whatever
the answers are: two tables with the same flows make the same observations but
for the answers, which only a counter and the callback's own state remember.
The callback in turn is asked for the events in their order and for nothing
else. A call may therefore be cut at its pushes.
-/

namespace PacketPipe.FlowTableCallbacks

open FlowEvents ConfigParserModel ObservedMachines FlowTableModel FlowLifetimes
open FlowTableShutdown

/-- The events passed to the callback, in order. -/
def emissions (seen : List Observation) : List FlowEvent := seen.filterMap emittedEvent

theorem emissions_append (xs ys : List Observation) :
    emissions (xs++ys)=emissions xs++emissions ys := List.filterMap_append

/-- The answer to an event. -/
def emittedAnswer : Observation → Option Bool
  | .counted _ => none
  | .dropped _ _ => none
  | .emitted _ accepted => some accepted

/-- An event with its answer. -/
def emittedPush : Observation → Option (FlowEvent×Bool)
  | .counted _ => none
  | .dropped _ _ => none
  | .emitted evt accepted => some (evt,accepted)

/-- An observation without the answer. -/
def unanswered : Observation → Observation
  | .counted pkt => .counted pkt
  | .dropped pkt warned => .dropped pkt warned
  | .emitted evt _ => .emitted evt true

/-- Pushes are events with their answers. -/
theorem pushes_zip (seen : List Observation) :
    seen.filterMap emittedPush=(emissions seen).zip (seen.filterMap emittedAnswer) := by
  induction seen with
  | nil => rfl
  | cons o seen ih =>
    cases o with
    | counted pkt => exact ih
    | dropped pkt warned => exact ih
    | emitted evt accepted => exact congrArg ((evt,accepted)::·) ih

/-- The events do not depend on the answers. -/
theorem emissions_unanswered {xs ys : List Observation}
    (h : xs.map unanswered=ys.map unanswered) : emissions xs=emissions ys := by
  have hsame : ∀ o,emittedEvent (unanswered o)=emittedEvent o := by
    intro o
    cases o <;> rfl
  have hmap : ∀ zs : List Observation,emissions (zs.map unanswered)=emissions zs := by
    intro zs
    rw [emissions,List.filterMap_map]
    exact List.filterMap_congr fun o _ => hsame o
  rw [←hmap xs,←hmap ys,h]

/-- Observations are known from the answers and the rest. -/
theorem answered_eq {xs ys : List Observation} (h : xs.map unanswered=ys.map unanswered)
    (hanswers : xs.filterMap emittedAnswer=ys.filterMap emittedAnswer) : xs=ys := by
  induction xs generalizing ys with
  | nil =>
    rw [List.map_nil,eq_comm,List.map_eq_nil_iff] at h
    exact h.symm
  | cons x xs ih =>
    cases ys with
    | nil => cases h
    | cons y ys =>
      rw [List.map_cons,List.map_cons,List.cons.injEq] at h
      obtain ⟨hfirst,hrest⟩ := h
      cases x <;> cases y <;> cases hfirst
      · exact congrArg _ (ih hrest hanswers)
      · exact congrArg _ (ih hrest hanswers)
      · simp only [List.filterMap_cons,emittedAnswer,List.cons.injEq] at hanswers
        obtain ⟨rfl,hlater⟩ := hanswers
        exact congrArg _ (ih hrest hlater)

section Answers

variable {σ : Type}

/-- The callback asked for one event after the other. -/
def answering (onEvent : EventCallback σ) : List FlowEvent → σ → List Bool×σ
  | [],s => ([],s)
  | evt::rest,s =>
    let answer := onEvent evt s
    let tail := answering onEvent rest answer.2
    (answer.1::tail.1,tail.2)

/-- The answers seen and the callback's state afterwards are those of the
callback asked for the events in their order. -/
structure Asks (onEvent : EventCallback σ) (s : σ) (seen : List Observation) (s' : σ) : Prop where
  /-- The answers. -/
  answers : seen.filterMap emittedAnswer=(answering onEvent (emissions seen) s).1
  /-- The state. -/
  sink : s'=(answering onEvent (emissions seen) s).2

/-- Without an event the callback is not asked. -/
theorem asks_nil (onEvent : EventCallback σ) (s : σ) : Asks onEvent s [] s := ⟨rfl,rfl⟩

/-- Asking goes on where it stopped. -/
theorem answering_append (onEvent : EventCallback σ) (xs ys : List FlowEvent) (s : σ) :
    (answering onEvent (xs++ys) s).1=
        (answering onEvent xs s).1++(answering onEvent ys (answering onEvent xs s).2).1 ∧
      (answering onEvent (xs++ys) s).2=
        (answering onEvent ys (answering onEvent xs s).2).2 := by
  induction xs generalizing s with
  | nil => exact ⟨rfl,rfl⟩
  | cons evt xs ih =>
    obtain ⟨hanswers,hsink⟩ := ih (onEvent evt s).2
    exact ⟨congrArg _ hanswers,hsink⟩

/-- Observations one after the other ask one after the other. -/
theorem Asks.append {onEvent : EventCallback σ} {s s' s'' : σ} {xs ys : List Observation}
    (h : Asks onEvent s xs s') (h' : Asks onEvent s' ys s'') : Asks onEvent s (xs++ys) s'' := by
  obtain ⟨hanswers,hsink⟩ := answering_append onEvent (emissions xs) (emissions ys) s
  constructor
  · rw [List.filterMap_append,emissions_append,hanswers,h.answers,h'.answers,h.sink]
  · rw [emissions_append,hsink,h'.sink,h.sink]

/-- A packet that is counted or dropped asks for nothing. -/
theorem Asks.cons {onEvent : EventCallback σ} {s s' : σ} {seen : List Observation}
    (h : Asks onEvent s seen s') (o : Observation) (hquiet : emittedEvent o=none) :
    Asks onEvent s (o::seen) s' := by
  cases o with
  | counted pkt => exact ⟨h.answers,h.sink⟩
  | dropped pkt warned => exact ⟨h.answers,h.sink⟩
  | emitted evt accepted => cases hquiet

variable (cfg : AppConfig) (onEvent : EventCallback σ)

theorem emit_asks (evt : FlowEvent) {t : FlowTable σ} {s : σ} (hsink : t.sink=s) :
    Asks onEvent s (emit onEvent evt t).2 (emit onEvent evt t).1.sink := by
  subst hsink
  rw [emit_trace,emit_sink]
  exact ⟨rfl,rfl⟩

theorem expireFlow_asks (key : FlowKey) (state : FlowState) (nowUs : Int64)
    (reason : ExpireReason) {t : FlowTable σ} {s : σ} (hsink : t.sink=s) :
    Asks onEvent s (expireFlow onEvent key state nowUs reason t).2
      (expireFlow onEvent key state nowUs reason t).1.sink :=
  emit_asks onEvent (endEvent state nowUs reason) hsink

theorem process_asks (pkt : ParsedPacket) (t : FlowTable σ) :
    Asks onEvent t.sink (process cfg onEvent pkt t).2 (process cfg onEvent pkt t).1.sink := by
  unfold process
  dsimp only
  split
  · split
    · exact (asks_nil onEvent t.sink).cons (.dropped pkt _) rfl
    · refine Asks.cons ?_ (.counted pkt) rfl
      exact emit_asks onEvent _ rfl
  · split
    · refine Asks.cons ?_ (.counted pkt) rfl
      exact expireFlow_asks onEvent _ _ _ _ rfl
    · exact (asks_nil onEvent t.sink).cons (.counted pkt) rfl

theorem sweepScan_asks (nowUs : Int64) (emitStats : Bool) (entries : List FlowEntry)
    (t : FlowTable σ) :
    Asks onEvent t.sink (sweepScan cfg onEvent nowUs emitStats entries t).2.2
      (sweepScan cfg onEvent nowUs emitStats entries t).1.sink := by
  induction entries generalizing t with
  | nil => exact asks_nil onEvent t.sink
  | cons entry rest ih =>
    unfold sweepScan
    dsimp only
    split
    · exact ih t
    · split
      · exact (emit_asks onEvent _ rfl).append (ih _)
      · exact ih t

theorem expireAll_asks (nowUs : Int64) (keys : List FlowKey) (t : FlowTable σ) :
    Asks onEvent t.sink (expireAll onEvent nowUs keys t).2
      (expireAll onEvent nowUs keys t).1.sink := by
  induction keys generalizing t with
  | nil => exact asks_nil onEvent t.sink
  | cons key rest ih =>
    unfold expireAll
    split
    · exact (expireFlow_asks onEvent key _ nowUs .idleTimeout rfl).append (ih _)
    · exact ih t

theorem drainLoop_asks (nowUs : Int64) (entries : List FlowEntry) {t : FlowTable σ} {s : σ}
    (hsink : t.sink=s) :
    Asks onEvent s (drainLoop onEvent nowUs entries t).2
      (drainLoop onEvent nowUs entries t).1.sink := by
  induction entries generalizing t s with
  | nil =>
    subst hsink
    exact asks_nil onEvent t.sink
  | cons entry rest ih =>
    unfold drainLoop
    dsimp only
    exact (emit_asks onEvent _ hsink).append (ih rfl)

/-- A call asks the callback for its events in their order, and for nothing else. -/
theorem call_asks (t : FlowTable σ) (call : Call) :
    Asks onEvent t.sink ((tableMachine cfg onEvent).step t call).2
      ((tableMachine cfg onEvent).step t call).1.sink := by
  cases call with
  | process pkt => exact process_asks cfg onEvent pkt t
  | timerSweep nowUs order =>
    exact (sweepScan_asks cfg onEvent nowUs _ _ t).append (expireAll_asks onEvent nowUs _ _)
  | drainAll nowUs order => exact drainLoop_asks onEvent nowUs _ rfl

end Answers

section Alike

variable {σ τ : Type}

/-- Tables that agree on all that a call goes by. -/
structure Alike (t : FlowTable σ) (t' : FlowTable τ) : Prop where
  /-- The same flows. -/
  flows : t.flows=t'.flows
  /-- The same last heartbeat. -/
  heartbeat : t.lastHeartbeatUs=t'.lastHeartbeatUs
  /-- The same count of drops. -/
  drops : t.dropCount=t'.dropCount

/-- Calls that do alike: they leave tables that agree, and are seen to do the
same but for the answers. -/
structure Parallel (t : FlowTable σ) (seen : List Observation) (t' : FlowTable τ)
    (seen' : List Observation) : Prop where
  /-- The tables afterwards. -/
  tables : Alike t t'
  /-- What is seen. -/
  seen : seen.map unanswered=seen'.map unanswered

/-- Another callback state makes no difference. -/
theorem alike_withSink (t : FlowTable σ) (sink : τ) : Alike t (withSink t sink) := ⟨rfl,rfl,rfl⟩

theorem Alike.symm {t : FlowTable σ} {t' : FlowTable τ} (h : Alike t t') : Alike t' t :=
  ⟨h.flows.symm,h.heartbeat.symm,h.drops.symm⟩

theorem Alike.trans {υ : Type} {t : FlowTable σ} {t' : FlowTable τ} {t'' : FlowTable υ}
    (h : Alike t t') (h' : Alike t' t'') : Alike t t'' :=
  ⟨h.flows.trans h'.flows,h.heartbeat.trans h'.heartbeat,h.drops.trans h'.drops⟩

/-- A further observation of both. -/
theorem Parallel.cons {t : FlowTable σ} {t' : FlowTable τ} {xs xs' : List Observation}
    (h : Parallel t xs t' xs') (o : Observation) : Parallel t (o::xs) t' (o::xs') :=
  ⟨h.tables,congrArg (unanswered o::·) h.seen⟩

/-- The counters make no difference. -/
theorem Parallel.recount {t : FlowTable σ} {t' : FlowTable τ} {xs xs' : List Observation}
    (h : Parallel t xs t' xs') (metrics metrics' : Metrics) :
    Parallel {t with metrics := metrics} xs {t' with metrics := metrics'} xs' :=
  ⟨⟨h.tables.flows,h.tables.heartbeat,h.tables.drops⟩,h.seen⟩

/-- One call after the other. -/
theorem Parallel.append {s t : FlowTable σ} {s' t' : FlowTable τ}
    {xs xs' ys ys' : List Observation} (h : Parallel s xs s' xs') (h' : Parallel t ys t' ys') :
    Parallel t (xs++ys) t' (xs'++ys') := by
  refine ⟨h'.tables,?_⟩
  rw [List.map_append,List.map_append,h.seen,h'.seen]

variable (cfg : AppConfig) (onEvent : EventCallback σ) (onEvent' : EventCallback τ)

theorem emit_parallel (evt : FlowEvent) {t : FlowTable σ} {t' : FlowTable τ} (h : Alike t t') :
    Parallel (emit onEvent evt t).1 (emit onEvent evt t).2 (emit onEvent' evt t').1
      (emit onEvent' evt t').2 := by
  have hsame := emit_same onEvent evt t
  have hsame' := emit_same onEvent' evt t'
  refine ⟨⟨?_,?_,?_⟩,?_⟩
  · rw [emit_flows,emit_flows,h.flows]
  · rw [hsame.heartbeat,hsame'.heartbeat,h.heartbeat]
  · rw [hsame.drops,hsame'.drops,h.drops]
  · rw [emit_trace,emit_trace]
    rfl

theorem expireFlow_parallel (key : FlowKey) (state : FlowState) (nowUs : Int64)
    (reason : ExpireReason) {t : FlowTable σ} {t' : FlowTable τ} (h : Alike t t') :
    Parallel (expireFlow onEvent key state nowUs reason t).1
      (expireFlow onEvent key state nowUs reason t).2
      (expireFlow onEvent' key state nowUs reason t').1
      (expireFlow onEvent' key state nowUs reason t').2 := by
  have hemit := emit_parallel onEvent onEvent' (endEvent state nowUs reason) h
  exact ⟨⟨congrArg (AList.erase key) hemit.tables.flows,hemit.tables.heartbeat,
    hemit.tables.drops⟩,hemit.seen⟩

theorem process_parallel (pkt : ParsedPacket) {t : FlowTable σ} {t' : FlowTable τ}
    (h : Alike t t') :
    Parallel (process cfg onEvent pkt t).1 (process cfg onEvent pkt t).2
      (process cfg onEvent' pkt t').1 (process cfg onEvent' pkt t').2 := by
  obtain ⟨flows,lastHeartbeatUs,dropCount,metrics,sink⟩ := t
  obtain ⟨flows',lastHeartbeatUs',dropCount',metrics',sink'⟩ := t'
  obtain ⟨rfl,rfl,rfl⟩ := h
  unfold process
  dsimp only
  split
  · split
    · exact ⟨⟨rfl,rfl,rfl⟩,rfl⟩
    · refine (Parallel.recount ?_ _ _).cons _
      exact emit_parallel onEvent onEvent' _ ⟨rfl,rfl,rfl⟩
  · split
    · exact (expireFlow_parallel onEvent onEvent' _ _ _ _ ⟨rfl,rfl,rfl⟩).cons _
    · exact ⟨⟨rfl,rfl,rfl⟩,rfl⟩

/-- The scan collects the same keys besides. -/
theorem sweepScan_parallel (nowUs : Int64) (emitStats : Bool) (entries : List FlowEntry)
    {t : FlowTable σ} {t' : FlowTable τ} (h : Alike t t') :
    Parallel (sweepScan cfg onEvent nowUs emitStats entries t).1
      (sweepScan cfg onEvent nowUs emitStats entries t).2.2
      (sweepScan cfg onEvent' nowUs emitStats entries t').1
      (sweepScan cfg onEvent' nowUs emitStats entries t').2.2 := by
  induction entries generalizing t t' with
  | nil => exact ⟨h,rfl⟩
  | cons entry rest ih =>
    unfold sweepScan
    dsimp only
    split
    · exact ih h
    · split
      · have hemit := emit_parallel onEvent onEvent' (statsEvent entry.2 nowUs) h
        exact hemit.append (ih hemit.tables)
      · exact ih h

theorem expireAll_parallel (nowUs : Int64) (keys : List FlowKey) {t : FlowTable σ}
    {t' : FlowTable τ} (h : Alike t t') :
    Parallel (expireAll onEvent nowUs keys t).1 (expireAll onEvent nowUs keys t).2
      (expireAll onEvent' nowUs keys t').1 (expireAll onEvent' nowUs keys t').2 := by
  induction keys generalizing t t' with
  | nil => exact ⟨h,rfl⟩
  | cons key rest ih =>
    unfold expireAll
    rw [h.flows]
    cases t'.flows.lookup key with
    | none => exact ih h
    | some state =>
      have hexpire := expireFlow_parallel onEvent onEvent' key state nowUs .idleTimeout h
      exact hexpire.append (ih hexpire.tables)

theorem timerSweep_parallel (nowUs : Int64) (order : MapOrder) {t : FlowTable σ}
    {t' : FlowTable τ} (h : Alike t t') :
    Parallel (timerSweep cfg onEvent nowUs order t).1 (timerSweep cfg onEvent nowUs order t).2
      (timerSweep cfg onEvent' nowUs order t').1
      (timerSweep cfg onEvent' nowUs order t').2 := by
  unfold timerSweep
  dsimp only
  rw [h.flows,h.heartbeat]
  have hscan := sweepScan_parallel cfg onEvent onEvent' nowUs
    (heartbeatDue cfg nowUs t'.lastHeartbeatUs) (order.visit t'.flows) h
  rw [sweepScan_keys,sweepScan_keys]
  have hexpire := expireAll_parallel onEvent onEvent' nowUs
    (((order.visit t'.flows).filter fun e => idleDue cfg nowUs e.2).map Sigma.fst) hscan.tables
  obtain ⟨hflows,hheartbeat,hdrops⟩ := hexpire.tables
  exact ⟨⟨hflows,by dsimp only; rw [hheartbeat],hdrops⟩,(hscan.append hexpire).seen⟩

theorem drainLoop_parallel (nowUs : Int64) (entries : List FlowEntry) {t : FlowTable σ}
    {t' : FlowTable τ} (h : Alike t t') :
    Parallel (drainLoop onEvent nowUs entries t).1 (drainLoop onEvent nowUs entries t).2
      (drainLoop onEvent' nowUs entries t').1 (drainLoop onEvent' nowUs entries t').2 := by
  induction entries generalizing t t' with
  | nil => exact ⟨h,rfl⟩
  | cons entry rest ih =>
    unfold drainLoop
    dsimp only
    have hemit := emit_parallel onEvent onEvent' (endEvent entry.2 nowUs .idleTimeout) h
    refine hemit.append (ih ⟨?_,hemit.tables.heartbeat,hemit.tables.drops⟩)
    exact congrArg (AList.erase entry.1) hemit.tables.flows

/-- Whatever the callbacks answer, a call leaves tables that agree and is seen
to do the same. -/
theorem call_parallel {t : FlowTable σ} {t' : FlowTable τ} (h : Alike t t') (call : Call) :
    Parallel ((tableMachine cfg onEvent).step t call).1 ((tableMachine cfg onEvent).step t call).2
      ((tableMachine cfg onEvent').step t' call).1
      ((tableMachine cfg onEvent').step t' call).2 := by
  cases call with
  | process pkt => exact process_parallel cfg onEvent onEvent' pkt h
  | timerSweep nowUs order => exact timerSweep_parallel cfg onEvent onEvent' nowUs order h
  | drainAll nowUs order =>
    have hdrain := drainLoop_parallel onEvent onEvent' nowUs (order.visit t'.flows) h
    rw [←h.flows] at hdrain
    rw [step_drainAll,step_drainAll,drainAll,drainAll,←h.flows]
    exact hdrain

end Alike

section Oracles

/-- The callback's answers, one for each event of a call. -/
def answerFrom : EventCallback (List Bool) := fun _ answers => (answers.headD false,answers.tail)

/-- As many answers as events are used up, in order. -/
theorem answering_answerFrom {events : List FlowEvent} {answers : List Bool}
    (hlength : answers.length=events.length) (rest : List Bool) :
    answering answerFrom events (answers++rest)=(answers,rest) := by
  induction events generalizing answers with
  | nil =>
    rw [List.length_nil,List.length_eq_zero_iff] at hlength
    rw [hlength]
    rfl
  | cons evt events ih =>
    cases answers with
    | nil => cases hlength
    | cons answer answers =>
      rw [List.length_cons,List.length_cons,Nat.add_right_cancel_iff] at hlength
      have htail : answering answerFrom events (answers++rest)=(answers,rest) := ih hlength
      simp [answering,answerFrom,htail]

variable (cfg : AppConfig) {σ : Type}

/-- A call with the answers of a finished call, and more, repeats it and leaves
the others. -/
theorem call_repeats {t : FlowTable σ} {t' : FlowTable (List Bool)} (h : Alike t t') (call : Call)
    {answers rest : List Bool} (hsink : t'.sink=answers++rest)
    (hlength : answers.length=
      (emissions ((tableMachine cfg answerFrom).step (withSink t answers) call).2).length) :
    Alike ((tableMachine cfg answerFrom).step (withSink t answers) call).1
        ((tableMachine cfg answerFrom).step t' call).1 ∧
      ((tableMachine cfg answerFrom).step t' call).2=
        ((tableMachine cfg answerFrom).step (withSink t answers) call).2 ∧
      ((tableMachine cfg answerFrom).step t' call).1.sink=rest ∧
      ((tableMachine cfg answerFrom).step t' call).2.filterMap emittedAnswer=answers := by
  have hparallel := call_parallel cfg answerFrom answerFrom
    ((alike_withSink t answers).symm.trans h) call
  obtain ⟨hanswers,hrest⟩ := call_asks cfg answerFrom t' call
  obtain ⟨hfirst,_⟩ := call_asks cfg answerFrom (withSink t answers) call
  have hused := answering_answerFrom hlength rest
  have hfirstUsed := answering_answerFrom hlength []
  rw [List.append_nil] at hfirstUsed
  rw [hsink,←emissions_unanswered hparallel.seen,hused] at hanswers hrest
  replace hfirst := hfirst.trans (congrArg Prod.fst hfirstUsed)
  exact ⟨hparallel.tables,(answered_eq hparallel.seen (hfirst.trans hanswers.symm)).symm,
    hrest,hanswers⟩

end Oracles

end PacketPipe.FlowTableCallbacks

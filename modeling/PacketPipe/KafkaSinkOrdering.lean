import PacketPipe.KafkaSinkDelivery

/-!
# The order in which a flow's events are published

Two paths publish events: the inner loop over the retry buffer, which is
older, and the attempt for the event just popped. The order within a flow is
kept as long as the second path never succeeds for an event whose flow still
has an event waiting in the retry buffer.
-/

namespace PacketPipe.KafkaSinkOrdering

open FlowEvents ConfigParserModel ObservedMachines EventQueueModel EventQueueRefinement
open KafkaSinkModel KafkaSinkDelivery

/-- The events of one flow, in order. -/
def ofFlow (key : FlowKey) (events : List FlowEvent) : List FlowEvent :=
  events.filter fun evt => evt.state.key=key

/-- What was published, followed by the backlog, is in the order of the pushes. -/
def Ordered (key : FlowKey) (b : Backlog) (history : List SinkObservation) : Prop :=
  (ofFlow key (history.filterMap publishedEvent++(b.retry++(b.hand++b.items)))).Sublist
    (ofFlow key (history.filterMap acceptedEvent))

/-- The event in hand is not published before a waiting one of its flow. -/
def InTurn (b : Backlog) (seen : List SinkObservation) : Prop :=
  ∀ evt msg,b.hand=[evt] → seen=[.produced .direct evt msg true] →
    ∀ waiting∈b.retry,waiting.state.key≠evt.state.key

/-- Published events and backlog that only shrink stay in order. -/
theorem Ordered.shrink {key : FlowKey} {b b' : Backlog} {history seen : List SinkObservation}
    (h : Ordered key b history)
    (hshrink : ((history++seen).filterMap publishedEvent++
      (b'.retry++(b'.hand++b'.items))).Sublist
        (history.filterMap publishedEvent++(b.retry++(b.hand++b.items))))
    (haccepted : seen.filterMap acceptedEvent=[]) : Ordered key b' (history++seen) := by
  have hsame : (history++seen).filterMap acceptedEvent=history.filterMap acceptedEvent := by
    rw [List.filterMap_append,haccepted,List.append_nil]
  unfold Ordered at h ⊢
  rw [hsame]
  exact (hshrink.filter _).trans h

/-- Without a waiting event of its flow, the event in hand is next. -/
theorem Ordered.direct {key : FlowKey} {retry items : List FlowEvent} {evt : FlowEvent}
    {history : List SinkObservation} (h : Ordered key ⟨retry,[evt],items⟩ history)
    (hturn : ∀ waiting∈retry,waiting.state.key≠evt.state.key) (msg : Message) :
    Ordered key ⟨retry,[],items⟩ (history++[.produced .direct evt msg true]) := by
  have hmove : ofFlow key ([evt]++retry)=ofFlow key (retry++[evt]) := by
    unfold ofFlow
    rw [List.filter_append,List.filter_append]
    by_cases hk : evt.state.key=key
    · have hnone : (retry.filter fun e => e.state.key=key)=[] := by
        refine List.filter_eq_nil_iff.mpr fun waiting hwaiting => ?_
        rw [decide_eq_true_eq,←hk]
        exact hturn waiting hwaiting
      rw [hnone,List.append_nil,List.nil_append]
    · have hnone : ([evt].filter fun e => e.state.key=key)=[] := by
        simp only [List.filter_cons,hk,decide_false,Bool.false_eq_true,if_false,List.filter_nil]
      rw [hnone,List.append_nil,List.nil_append]
  unfold Ordered ofFlow at h ⊢
  unfold ofFlow at hmove
  simp only [List.filterMap_append,List.filter_append,List.nil_append] at h hmove ⊢
  rw [List.append_assoc]
  have hpublished : [SinkObservation.produced .direct evt msg true].filterMap publishedEvent=
      [evt] := rfl
  have haccepted : [SinkObservation.produced .direct evt msg true].filterMap acceptedEvent=[] :=
    rfl
  rw [hpublished,haccepted,List.filter_nil,List.append_nil,
    ←List.append_assoc ([evt].filter _),hmove,List.append_assoc]
  exact h

/-- A newly accepted event is last. -/
theorem Ordered.queued {key : FlowKey} {b : Backlog} {history : List SinkObservation}
    (h : Ordered key b history) (evt : FlowEvent) :
    Ordered key ⟨b.retry,b.hand,b.items++[evt]⟩ (history++[.queued evt true]) := by
  have hpublished : [SinkObservation.queued evt true].filterMap publishedEvent=[] := rfl
  have haccepted : [SinkObservation.queued evt true].filterMap acceptedEvent=[evt] := rfl
  have hlast := h.append (List.Sublist.refl (ofFlow key [evt]))
  unfold Ordered
  unfold ofFlow at hlast ⊢
  rw [←List.filter_append,←List.filter_append] at hlast
  rw [List.filterMap_append,List.filterMap_append,hpublished,haccepted,List.append_nil]
  simpa only [List.append_assoc] using hlast

/-- Every move in turn keeps the order. -/
theorem moves_ordered {ser : Serializer} {cfg : AppConfig} {b b' : Backlog}
    {seen : List SinkObservation}
    (hmove : Moves ser cfg b seen b') (hturn : InTurn b seen) {key : FlowKey}
    {history : List SinkObservation} (h : Ordered key b history) :
    Ordered key b' (history++seen) := by
  cases hmove with
  | queued _ evt => exact h.queued evt
  | overflow => exact h.shrink (by simp [List.filterMap_cons,publishedEvent]) rfl
  | idle => exact h.shrink (by simp) rfl
  | reports => exact h.shrink (by simp [List.filterMap_cons,publishedEvent]) rfl
  | iteration => exact h.shrink (by simp [List.filterMap_cons,publishedEvent]) rfl
  | retried evt retry items => exact h.shrink (by simp [publishedEvent]) rfl
  | spoiled evt retry items =>
    exact h.shrink (by simp [List.filterMap_cons,publishedEvent]) rfl
  | stuck evt retry items => exact h.shrink (by simp [publishedEvent]) rfl
  | popped evt retry items => exact h.shrink (by simp [publishedEvent]) rfl
  | direct evt retry items => exact h.direct (hturn evt _ rfl rfl) _
  | unserializable evt retry items =>
    exact h.shrink (by simp [List.filterMap_cons,publishedEvent]) rfl
  | buffered evt retry items hroom => exact h.shrink (by simp [publishedEvent]) rfl
  | discarded evt retry items hfull =>
    exact h.shrink (by simp [List.filterMap_cons,publishedEvent]) rfl

/-- The step does not publish a popped event while an earlier event of its
flow waits in the retry buffer. -/
def keepsTurn (s : SinkThread) : SinkInput → Bool
  | .push _ => true
  | .requestStop => true
  | .sink answer =>
    match s.pc with
    | .attempting evt =>
      !(answer.serializes && answer.produces &&
        s.retryBuf.any fun waiting => waiting.state.key=evt.state.key)
    | .loopHead => true
    | .retrying => true
    | .firstPop => true
    | .secondPop => true
    | .polling => true
    | .left => true

/-- A popped event is published only when serialisation and `produce` succeed
in its attempt. -/
theorem SinkStep.published {ser : Serializer} {cfg : AppConfig} {answer : Answer}
    {s s' : SinkThread} {evt : FlowEvent} {msg : Message}
    (hstep : SinkStep ser cfg answer s s' [.produced .direct evt msg true]) :
    s.pc=.attempting evt ∧ answer.serializes=true ∧ answer.produces=true := by
  cases hstep with
  | direct evt hpc hserializes hproduces => exact ⟨hpc,hserializes,hproduces⟩

/-- Such a step is in turn. -/
theorem inTurn_of_keepsTurn {ser : Serializer} {cfg : AppConfig} {s : SinkThread}
    {input : SinkInput}
    (h : keepsTurn s input=true) (items : List FlowEvent) :
    InTurn (backlog s items) ((sinkMachine ser cfg).step s input).2 := by
  intro evt msg _ hseen waiting hwaiting hkey
  cases input with
  | push other => cases hseen
  | requestStop => cases hseen
  | sink answer =>
    have hstep := sinkStep_step ser cfg answer s
    rw [step_sink] at hseen
    rw [hseen] at hstep
    obtain ⟨hpc,hserializes,hproduces⟩ := SinkStep.published hstep
    have hany : (s.retryBuf.any fun waiting => waiting.state.key=evt.state.key)=true :=
      List.any_eq_true.mpr ⟨waiting,hwaiting,decide_eq_true hkey⟩
    simp only [keepsTurn,hpc,hserializes,hproduces,hany,Bool.and_self,Bool.not_true,
      Bool.false_eq_true] at h

/-- The sink's backlog, whatever the queue stores, is in order. -/
def SinkOrdered (key : FlowKey) (s : SinkThread) (history : List SinkObservation) : Prop :=
  ∃ items,Stores s.queue items ∧ Ordered key (backlog s items) history

/-- Every step of the run keeps its turn. -/
abbrev KeepsTurns (ser : Serializer) (cfg : AppConfig) (inputs : List SinkInput) : Prop :=
  (sinkMachine ser cfg).Along (fun s input => keepsTurn s input=true) .initial inputs

/-- In a run whose steps all keep their turn everything is in order. -/
theorem run_ordered (ser : Serializer) (cfg : AppConfig) (inputs : List SinkInput)
    (hturns : KeepsTurns ser cfg inputs) (key : FlowKey) :
    SinkOrdered key (sinkAfter ser cfg inputs) (sinkTrace ser cfg inputs) := by
  have hinitial : SinkOrdered key .initial [] :=
    ⟨[],stores_initial _,List.Sublist.refl _⟩
  have hstep : ∀ s history input,keepsTurn s input=true → SinkOrdered key s history →
      SinkOrdered key ((sinkMachine ser cfg).step s input).1
        (history++((sinkMachine ser cfg).step s input).2) := by
    rintro s history input hturn ⟨items,hstores,hordered⟩
    obtain ⟨items',hstores',hmoves⟩ := step_moves ser cfg hstores input
    exact ⟨items',hstores',moves_ordered hmoves (inTurn_of_keepsTurn hturn items) hordered⟩
  exact Machine.guarded_invariant (sinkMachine ser cfg) hstep hinitial hturns

/-- The events of a flow are published in the order of their pushes, and none
overtakes an event of the flow that still waits in the retry buffer. -/
structure FlowInOrder (key : FlowKey) (s : SinkThread) (trace : List SinkObservation) : Prop where
  /-- Published events are a subsequence of the accepted ones. -/
  published : (ofFlow key (trace.filterMap publishedEvent)).Sublist
    (ofFlow key (trace.filterMap acceptedEvent))
  /-- The waiting events were pushed after the published ones. -/
  waiting : (ofFlow key (trace.filterMap publishedEvent++s.retryBuf)).Sublist
    (ofFlow key (trace.filterMap acceptedEvent))

/-- In every run, as long as no popped event is published while an earlier
event of its flow waits in the retry buffer, every flow is in order. -/
theorem flows_in_order (ser : Serializer) (cfg : AppConfig) (inputs : List SinkInput)
    (hturns : KeepsTurns ser cfg inputs) (key : FlowKey) :
    FlowInOrder key (sinkAfter ser cfg inputs) (sinkTrace ser cfg inputs) := by
  obtain ⟨items,_,hordered⟩ := run_ordered ser cfg inputs hturns key
  unfold Ordered backlog ofFlow at hordered
  dsimp only at hordered
  rw [←List.append_assoc,List.filter_append] at hordered
  have hwaiting := (List.sublist_append_left _ _).trans hordered
  refine ⟨?_,hwaiting⟩
  rw [List.filter_append] at hwaiting
  exact (List.sublist_append_left _ _).trans hwaiting

/-- The first event of a flow. -/
def firstEvent : FlowEvent := {type := .flowStart,state := {packetCount := 1}}

/-- A later event of the same flow. -/
def secondEvent : FlowEvent := {type := .flowEnd,state := {packetCount := 2}}

/-- The first event is refused once, retried with success in the next
iteration, and followed by the second. -/
theorem retried_first_in_order :
    FlowInOrder firstEvent.state.key
      (sinkAfter blankSerializer {} [.push firstEvent,.push secondEvent,
        .sink {},.sink {},.sink {},.sink {produces := false},.sink {},
        .sink {},.sink {},.sink {},.sink {},.sink {}])
      (sinkTrace blankSerializer {} [.push firstEvent,.push secondEvent,
        .sink {},.sink {},.sink {},.sink {produces := false},.sink {},
        .sink {},.sink {},.sink {},.sink {},.sink {}]) :=
  flows_in_order blankSerializer {} [.push firstEvent,.push secondEvent,
    .sink {},.sink {},.sink {},.sink {produces := false},.sink {},
    .sink {},.sink {},.sink {},.sink {},.sink {}] (by decide) firstEvent.state.key

/-- The first event is refused and goes to the retry buffer; in the next
iteration it is refused again, and the second event is popped and published. -/
def overtakingInputs : List SinkInput :=
  [.push firstEvent,.push secondEvent,
    .sink {},.sink {},.sink {},.sink {produces := false},.sink {},
    .sink {},.sink {produces := false},.sink {},.sink {},.sink {},
    .sink {},.sink {}]

/-- The second event overtakes the first, which is published one iteration later. -/
theorem second_overtakes_first :
    (sinkTrace blankSerializer {} overtakingInputs).filterMap acceptedEvent=
        [firstEvent,secondEvent] ∧
      (sinkTrace blankSerializer {} overtakingInputs).filterMap publishedEvent=
        [secondEvent,firstEvent] ∧
      firstEvent.state.key=secondEvent.state.key ∧
      ¬FlowInOrder firstEvent.state.key (sinkAfter blankSerializer {} overtakingInputs)
        (sinkTrace blankSerializer {} overtakingInputs) := by
  refine ⟨by decide,by decide,rfl,fun h => ?_⟩
  exact absurd h.published (by decide)

end PacketPipe.KafkaSinkOrdering

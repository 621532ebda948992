import PacketPipe.KafkaSinkAccounts
import PacketPipe.PipelineCalls

/-!
# The queue and the sink among the threads

Two threads push to the queue, but the lock lets one push be in progress at a
time, which is all that the queue asks of its one producer: it remains a FIFO
queue whatever the schedule is. The sink thread, cut into its accesses, does
what the sink machine does with whole pushes and pops. The simulation relates
the shared memory and that of the machine through the events that both store.
-/

namespace PacketPipe.PipelineSimulation

open FlowEvents ConfigParserModel ObservedMachines BoundedFifos LockedCalls
open FlowTableModel FlowTableCallbacks EventQueueModel EventQueueRefinement
open KafkaSinkModel KafkaSinkDelivery KafkaSinkAccounts PipelineModel PipelineCalls

/-- What the sink machine shows of an observation. -/
def sinkView : PipelineObservation → Option SinkObservation
  | .table _ => none
  | .queue (.enqueue evt ok) => some (.queued evt ok)
  | .queue (.dequeue _) => none
  | .sink o => some o

/-- The capacity of the queue. -/
abbrev queueCapacity : ℕ := kDefaultEventQueueCapacity.n-1

/-- The sink machine with the thread's own state, and a queue that stores the
same events. -/
def Shadows (s : Pipeline) (c : SinkThread) (items : List FlowEvent) : Prop :=
  ∃ q,Stores q items ∧ c={s.sink with queue := q}

section Runs

variable (ser : Serializer) (cfg : AppConfig)

/-- The queue has done what a FIFO queue of capacity 65535 does, and what is
seen is a run of the sink machine, up to the accesses in progress. -/
def Follows (s : Pipeline) (push : Pushing kDefaultEventQueueCapacity)
    (seen : List PipelineObservation) : Prop :=
  ∃ items inputs,Allows (QueueStep queueCapacity) [] (seen.filterMap queueView) items ∧
    Represents ⟨s.sink.queue,push,s.popping,[]⟩ items ∧
    sinkTrace ser cfg inputs=seen.filterMap sinkView ∧
    Shadows s (sinkAfter ser cfg inputs) items

/-- At first nothing is stored and nothing has been done. -/
theorem follows_initial : Follows ser cfg .initial .idle [] :=
  ⟨[],[],.nil [],⟨stores_initial _,trivial,trivial⟩,rfl,_,stores_initial _,rfl⟩

variable {ser cfg}

/-- The table and the guard of the sink's loop have no part in it. -/
theorem Follows.table {s s' : Pipeline} {push : Pushing kDefaultEventQueueCapacity}
    {seen later : List PipelineObservation} (h : Follows ser cfg s push seen)
    (hsink : s'.sink=s.sink) (hpopping : s'.popping=s.popping)
    (hqueue : later.filterMap queueView=[]) (hlater : later.filterMap sinkView=[]) :
    Follows ser cfg s' push (seen++later) := by
  obtain ⟨items,inputs,hallows,hrepresents,htrace,q,hstores,hsame⟩ := h
  refine ⟨items,inputs,?_,?_,?_,q,hstores,?_⟩
  · rwa [List.filterMap_append,hqueue,List.append_nil]
  · rwa [hsink,hpopping]
  · rwa [List.filterMap_append,hlater,List.append_nil]
  · rwa [hsink]

/-- The machine's push is answered like the shared queue's. -/
theorem push_matches {q : EventQueue kDefaultEventQueueCapacity} {items after : List FlowEvent}
    (h : Stores q items) {evt : FlowEvent} {ok : Bool}
    (hstep : QueueStep queueCapacity items (.enqueue evt ok) after) :
    (push evt q).1=ok ∧ Stores (push evt q).2 after := by
  obtain ⟨hanswer,hstores⟩ := push_stores h evt
  cases hstep with
  | accepted _ _ hroom =>
    rw [if_pos hroom] at hstores
    rw [hanswer,decide_eq_true hroom]
    exact ⟨rfl,hstores⟩
  | refused _ _ hfull =>
    have hnot : ¬items.length<queueCapacity := by omega
    rw [if_neg hnot] at hstores
    rw [hanswer,decide_eq_false hnot]
    exact ⟨rfl,hstores⟩

/-- A single operation is a step of the queue. -/
theorem allows_one {capacity : ℕ} {items after : List FlowEvent} {op : Operation FlowEvent}
    (h : Allows (QueueStep capacity) items [op] after) : QueueStep capacity items op after := by
  cases h with
  | cons hstep hrest =>
    cases hrest
    exact hstep

/-- Operations of the queue are seen as such. -/
theorem queueView_queue (ops : List (Operation FlowEvent)) :
    (ops.map PipelineObservation.queue).filterMap queueView=ops := by
  rw [List.filterMap_map]
  exact List.filterMap_some

/-- One more input of the sink machine. -/
theorem sink_concat (inputs : List SinkInput) (input : SinkInput) {c : SinkThread}
    (hc : sinkAfter ser cfg inputs=c) :
    sinkAfter ser cfg (inputs++[input])=((sinkMachine ser cfg).step c input).1 ∧
      sinkTrace ser cfg (inputs++[input])=
        sinkTrace ser cfg inputs++((sinkMachine ser cfg).step c input).2 := by
  subst hc
  exact ⟨Machine.final_concat _ _ _ _,Machine.trace_concat _ _ _ _⟩

/-- An access of a push is invisible or answers it; the machine then pushes
the whole event. -/
theorem Follows.pushes {s : Pipeline} {locals : InCall} {seen : List PipelineObservation}
    (h : Follows ser cfg s locals.push seen) {evt : FlowEvent} {pending : List FlowEvent}
    (hone : inFlight locals.push++pending=[evt]) {after : InCall}
    (hafter : (pushStep locals pending s).2.1=some after) :
    Follows ser cfg (pushStep locals pending s).1 after.push
      (seen++(pushStep locals pending s).2.2) := by
  obtain ⟨items,inputs,hallows,hrepresents,htrace,q,hstores,hsame⟩ := h
  have hnow : Represents ⟨s.sink.queue,locals.push,s.popping,pending⟩ items :=
    ⟨hrepresents.stores,hrepresents.producer,hrepresents.consumer⟩
  obtain ⟨items',hallows',hrepresents'⟩ := producerStep_simulates hnow
  obtain ⟨hconsumer,_,hcase⟩ := producerStep_one s.sink.queue s.popping hone
  unfold pushStep at hafter ⊢
  dsimp only at hafter ⊢
  obtain rfl := Option.some_inj.mp hafter
  generalize producerStep ⟨s.sink.queue,locals.push,s.popping,pending⟩=run at *
  obtain ⟨⟨queue,producer,consumer,rest⟩,ops⟩ := run
  obtain rfl : consumer=s.popping := hconsumer
  have hafter' : Represents ⟨queue,producer,s.popping,[]⟩ items' :=
    ⟨hrepresents'.stores,hrepresents'.producer,hrepresents'.consumer⟩
  rcases hcase with ⟨rfl,_⟩ | ⟨ok,rfl,_⟩
  · cases hallows'
    refine ⟨items,inputs,?_,hafter',?_,q,hstores,hsame⟩
    · rwa [List.map_nil,List.append_nil]
    · rwa [List.map_nil,List.append_nil]
  · obtain ⟨hanswer,hpushed⟩ := push_matches hstores (allows_one hallows')
    refine ⟨items',inputs++[.push evt],?_,hafter',?_,?_⟩
    · rw [List.filterMap_append,queueView_queue]
      exact hallows.append hallows'
    · rw [(sink_concat inputs _ hsame).2,step_push,List.filterMap_append,←htrace,hanswer]
      rfl
    · rw [(sink_concat inputs _ hsame).1,step_push]
      exact ⟨_,hpushed,rfl⟩

/-- The consumer's accesses do not depend on where the producer is. -/
theorem consumerStep_frame {size : RingSize} (queue : EventQueue size) (push : Pushing size)
    (popping : Popping size) (pending : List FlowEvent) :
    consumerStep ⟨queue,push,popping,pending⟩=
      ({(consumerStep ⟨queue,.idle,popping,[]⟩).1 with producer := push,pending := pending},
        (consumerStep ⟨queue,.idle,popping,[]⟩).2) := by
  unfold consumerStep
  cases popping with
  | idle => rfl
  | loadedHead head =>
    dsimp only
    split <;> rfl
  | checked head => rfl
  | read head evt => rfl

/-- An access of a pop shows nothing or answers it. -/
theorem consumerStep_answers {size : RingSize} (s : QueueRun size) :
    (consumerStep s).2=[] ∨ ∃ item,(consumerStep s).2=[.dequeue item] := by
  unfold consumerStep
  cases s.consumer with
  | idle => exact .inl rfl
  | loadedHead head =>
    dsimp only
    split
    · exact .inr ⟨none,rfl⟩
    · exact .inl rfl
  | checked head => exact .inl rfl
  | read head evt => exact .inr ⟨some evt,rfl⟩

/-- An access of a pop is invisible or answers it; the machine then pops the
whole event, or goes on as the thread does. -/
theorem Follows.pops {s : Pipeline} {push : Pushing kDefaultEventQueueCapacity}
    {seen : List PipelineObservation} (h : Follows ser cfg s push seen) {missed : SinkPc}
    (hpc : s.sink.pc=.firstPop ∧ missed=.secondPop ∨ s.sink.pc=.secondPop ∧ missed=.polling) :
    Follows ser cfg (popAccess missed s).1 push (seen++(popAccess missed s).2) := by
  obtain ⟨items,inputs,hallows,hrepresents,htrace,q,hstores,hsame⟩ := h
  obtain ⟨items',hallows',hrepresents'⟩ := consumerStep_simulates hrepresents
  rw [consumerStep_frame] at hallows' hrepresents'
  have hcase := consumerStep_answers ⟨s.sink.queue,.idle,s.popping,[]⟩
  unfold popAccess
  dsimp only
  generalize consumerStep ⟨s.sink.queue,.idle,s.popping,[]⟩=run at *
  obtain ⟨⟨queue,producer,consumer,rest⟩,ops⟩ := run
  dsimp only at hallows' hrepresents' hcase ⊢
  obtain ⟨hfirst,hrest⟩ := pop_stores hstores
  have hpop : sinkStep ser cfg {} {s.sink with queue := q}=
      popStep missed {s.sink with queue := q} := by
    rcases hpc with ⟨hpc,rfl⟩ | ⟨hpc,rfl⟩ <;> rw [sinkStep,hpc]
  rcases hcase with rfl | ⟨item,rfl⟩
  · cases hallows'
    refine ⟨items,inputs,?_,hrepresents',?_,q,hstores,hsame⟩
    · rwa [popAnswer,List.append_nil]
    · rwa [popAnswer,List.append_nil]
  · cases allows_one hallows' with
    | empty =>
      refine ⟨[],inputs++[.sink {}],?_,hrepresents',?_,?_⟩
      · rw [List.filterMap_append]
        exact hallows.append hallows'
      · rw [(sink_concat inputs _ hsame).2,step_sink,hpop,popStep,hfirst,
          List.filterMap_append,←htrace]
        rfl
      · rw [(sink_concat inputs _ hsame).1,step_sink,hpop,popStep,hfirst]
        exact ⟨_,hrest,rfl⟩
    | taken _ evt =>
      refine ⟨items',inputs++[.sink {}],?_,hrepresents',?_,?_⟩
      · rw [List.filterMap_append]
        exact hallows.append hallows'
      · rw [(sink_concat inputs _ hsame).2,step_sink,hpop,popStep,hfirst,
          List.filterMap_append,←htrace]
        rfl
      · rw [(sink_concat inputs _ hsame).1,step_sink,hpop,popStep,hfirst]
        exact ⟨_,hrest,rfl⟩

/-- Outside of the pops the thread looks at the queue only through `empty`. -/
theorem sinkStep_queue (ser : Serializer) (cfg : AppConfig) (answer : Answer) {s : SinkThread}
    (hfirst : s.pc≠.firstPop) (hsecond : s.pc≠.secondPop)
    {q : EventQueue kDefaultEventQueueCapacity}
    (hempty : empty q=empty s.queue) :
    (sinkStep ser cfg answer s).1.queue=s.queue ∧
      sinkStep ser cfg answer {s with queue := q}=
        ({(sinkStep ser cfg answer s).1 with queue := q},(sinkStep ser cfg answer s).2) := by
  obtain ⟨pc,queue,retryBuf,stopRequested,metrics⟩ := s
  dsimp only at hfirst hsecond hempty
  unfold sinkStep
  cases pc with
  | loopHead =>
    dsimp only
    rw [hempty]
    split <;> exact ⟨rfl,rfl⟩
  | retrying =>
    unfold retryStep
    cases retryBuf with
    | nil => exact ⟨rfl,rfl⟩
    | cons evt rest =>
      dsimp only
      split
      · split <;> exact ⟨rfl,rfl⟩
      · exact ⟨rfl,rfl⟩
  | firstPop => exact absurd rfl hfirst
  | secondPop => exact absurd rfl hsecond
  | attempting evt =>
    unfold attemptStep
    dsimp only
    split
    · exact ⟨rfl,rfl⟩
    · split <;> exact ⟨rfl,rfl⟩
  | polling => exact ⟨rfl,rfl⟩
  | left => exact ⟨rfl,rfl⟩

/-- Observations of the sink thread are seen as such and are no operations. -/
theorem sinkView_sink (seen : List SinkObservation) :
    (seen.map PipelineObservation.sink).filterMap sinkView=seen ∧
      (seen.map PipelineObservation.sink).filterMap queueView=[] := by
  constructor
  · rw [List.filterMap_map]
    exact List.filterMap_some
  · exact filterMap_map_none (fun _ => rfl) seen

/-- Any other step of the thread is that of the machine. -/
theorem Follows.access {s : Pipeline} {push : Pushing kDefaultEventQueueCapacity}
    {seen : List PipelineObservation} (h : Follows ser cfg s push seen) (answer : Answer)
    (hfirst : s.sink.pc≠.firstPop) (hsecond : s.sink.pc≠.secondPop) :
    Follows ser cfg (sinkAccess ser cfg answer s).1 push
      (seen++(sinkAccess ser cfg answer s).2) := by
  obtain ⟨items,inputs,hallows,hrepresents,htrace,q,hstores,hsame⟩ := h
  have hempty : empty q=empty s.sink.queue := by
    rw [(size_stores hstores).1]
    exact (size_stores hrepresents.stores).1.symm
  obtain ⟨hqueue,hstep⟩ := sinkStep_queue ser cfg answer hfirst hsecond hempty
  obtain ⟨hview,hnone⟩ := sinkView_sink (sinkStep ser cfg answer s.sink).2
  unfold sinkAccess
  dsimp only
  refine ⟨items,inputs++[.sink answer],?_,?_,?_,?_⟩
  · rwa [List.filterMap_append,hnone,List.append_nil]
  · dsimp only
    rwa [hqueue]
  · rw [(sink_concat inputs _ hsame).2,step_sink,hstep,htrace,List.filterMap_append,hview]
  · rw [(sink_concat inputs _ hsame).1,step_sink,hstep]
    exact ⟨q,hstores,rfl⟩

/-- So does every step beside the calls. -/
theorem Follows.other {s : Pipeline} {push : Pushing kDefaultEventQueueCapacity}
    {seen : List PipelineObservation} (h : Follows ser cfg s push seen) (e : Surroundings) :
    Follows ser cfg ((pipelineCode ser cfg).other e s).1 push
      (seen++((pipelineCode ser cfg).other e s).2) := by
  cases e with
  | sink answer =>
    change Follows ser cfg (sinkTurn ser cfg answer s).1 push
      (seen++(sinkTurn ser cfg answer s).2)
    unfold sinkTurn
    cases hpc : s.sink.pc with
    | loopHead =>
      dsimp only
      split
      · exact h.table rfl rfl rfl rfl
      · exact h.access answer (by rw [hpc]; decide) (by rw [hpc]; decide)
    | firstPop => exact h.pops (.inl ⟨hpc,rfl⟩)
    | secondPop => exact h.pops (.inr ⟨hpc,rfl⟩)
    | retrying => exact h.access answer (by rw [hpc]; decide) (by rw [hpc]; decide)
    | attempting evt =>
      exact h.access answer (by rw [hpc]; exact SinkPc.noConfusion)
        (by rw [hpc]; exact SinkPc.noConfusion)
    | polling => exact h.access answer (by rw [hpc]; decide) (by rw [hpc]; decide)
    | left => exact h.access answer (by rw [hpc]; decide) (by rw [hpc]; decide)
  | requestStop =>
    obtain ⟨items,inputs,hallows,hrepresents,htrace,q,hstores,hsame⟩ := h
    refine ⟨items,inputs++[.requestStop],?_,hrepresents,?_,?_⟩
    · exact (List.append_nil seen).symm▸hallows
    · rw [(sink_concat inputs _ hsame).2,htrace]
      exact (List.append_nil _).trans (congrArg _ (List.append_nil seen).symm)
    · rw [(sink_concat inputs _ hsame).1]
      exact ⟨q,hstores,rfl⟩
  | undecodable => exact h.table rfl rfl rfl rfl

/-- Where the call in progress is in `push`. -/
def pushing (s : Single Call InCall Pipeline) : Pushing kDefaultEventQueueCapacity :=
  match s.current with
  | none => .idle
  | some (_,locals) => locals.push

/-- So does every step of the call in progress. -/
theorem Follows.callStep {s after : Pipeline} {locals : InCall} {call : Call}
    {next : Option InCall} {seen later : List PipelineObservation}
    (h : Follows ser cfg s locals.push seen)
    (hstep : CallStep cfg call locals s after next later) :
    Follows ser cfg after (next.elim .idle InCall.push) (seen++later) := by
  cases hstep with
  | returns hidle hall =>
    rw [hidle] at h
    have hqueue : ((called cfg call locals.answers s.table).2.map
        PipelineObservation.table).filterMap queueView=[] := filterMap_map_none (fun _ => rfl) _
    have hsink : ((called cfg call locals.answers s.table).2.map
        PipelineObservation.table).filterMap sinkView=[] := filterMap_map_none (fun _ => rfl) _
    exact h.table rfl rfl hqueue hsink
  | pushes evt pending hone hnext => exact h.pushes hone rfl

/-- Every step of the threads seen as one is invisible or a step of the queue
and of the sink machine. -/
theorem Follows.step {s : Single Call InCall Pipeline} {seen : List PipelineObservation}
    (h : Follows ser cfg s.shared (pushing s) seen) (input : SingleInput Call Surroundings) :
    Follows ser cfg ((singleMachine (pipelineCode ser cfg)).step s input).1.shared
      (pushing ((singleMachine (pipelineCode ser cfg)).step s input).1)
      (seen++((singleMachine (pipelineCode ser cfg)).step s input).2.filterMap shown) := by
  have hnothing : Follows ser cfg s.shared (pushing s) (seen++[]) := by rwa [List.append_nil]
  cases input with
  | enter call =>
    simp only [singleMachine]
    cases hcurrent : s.current with
    | none =>
      rw [pushing,hcurrent] at hnothing
      exact hnothing
    | some current => exact hnothing
  | turn =>
    change Follows ser cfg (singleTurn (pipelineCode ser cfg) s).1.shared
      (pushing (singleTurn (pipelineCode ser cfg) s).1)
      (seen++(singleTurn (pipelineCode ser cfg) s).2.filterMap shown)
    unfold singleTurn
    cases hcurrent : s.current with
    | none => exact hnothing
    | some current =>
      obtain ⟨call,locals⟩ := current
      rw [pushing,hcurrent] at h
      have hturn := h.callStep (callStep_step cfg call locals s.shared)
      have hcode : (pipelineCode ser cfg).step call locals s.shared=
        PipelineModel.callStep cfg call locals s.shared := rfl
      dsimp only
      rw [hcode]
      generalize PipelineModel.callStep cfg call locals s.shared=stepped at hturn ⊢
      obtain ⟨after,next,later⟩ := stepped
      cases next with
      | some after =>
        dsimp only
        rw [(shown_did later).1]
        exact hturn
      | none =>
        dsimp only
        rw [List.filterMap_append,(shown_did later).1]
        rw [←List.append_nil later] at hturn
        exact hturn
  | other e =>
    have hother := h.other e
    simp only [singleMachine]
    rw [(shown_did _).1]
    exact hother

/-- In every run the threads follow the queue and the sink machine. -/
theorem run_follows (ser : Serializer) (cfg : AppConfig)
    (inputs : List (SingleInput Call Surroundings)) :
    Follows ser cfg ((singleMachine (pipelineCode ser cfg)).final ⟨.initial,none⟩ inputs).shared
      (pushing ((singleMachine (pipelineCode ser cfg)).final ⟨.initial,none⟩ inputs))
      (((singleMachine (pipelineCode ser cfg)).trace ⟨.initial,none⟩ inputs).filterMap
        shown) := by
  have hstep : ∀ s history input,
      Follows ser cfg s.shared (pushing s) (history.filterMap shown) →
      Follows ser cfg ((singleMachine (pipelineCode ser cfg)).step s input).1.shared
        (pushing ((singleMachine (pipelineCode ser cfg)).step s input).1)
        ((history++((singleMachine (pipelineCode ser cfg)).step s input).2).filterMap shown) := by
    intro s history input h
    rw [List.filterMap_append]
    exact h.step input
  exact Machine.history_invariant (singleMachine (pipelineCode ser cfg)) (h:=[]) hstep
    (follows_initial ser cfg) inputs

end Runs

section Popped

variable (ser : Serializer) (cfg : AppConfig)

/-- The sink has popped what has left the queue. -/
def Popped (seen : List PipelineObservation) : Prop :=
  (seen.filterMap sinkView).filterMap poppedEvent=dequeued (seen.filterMap queueView)

theorem Popped.append {front back : List PipelineObservation} (h : Popped front)
    (h' : Popped back) : Popped (front++back) := by
  unfold Popped dequeued at h h' ⊢
  simp only [List.filterMap_append,h,h']

/-- A pop shows both. -/
theorem popAccess_popped (missed : SinkPc) (s : Pipeline) : Popped (popAccess missed s).2 := by
  unfold popAccess
  dsimp only
  split <;> rfl

/-- Outside of the pops the thread pops nothing. -/
theorem sinkAccess_popped (answer : Answer) {s : Pipeline} (hfirst : s.sink.pc≠.firstPop)
    (hsecond : s.sink.pc≠.secondPop) : Popped (sinkAccess ser cfg answer s).2 := by
  obtain ⟨hview,hnone⟩ := sinkView_sink (sinkStep ser cfg answer s.sink).2
  have hstep := sinkStep_step ser cfg answer s.sink
  unfold sinkAccess
  rw [Popped,hview,hnone]
  generalize sinkStep ser cfg answer s.sink=stepped at hstep ⊢
  obtain ⟨after,later⟩ := stepped
  cases hstep with
  | popped hpc => exact absurd hpc (not_or_intro hfirst hsecond)
  | _ => rfl

/-- Nor do the surroundings but for the pops. -/
theorem other_popped (e : Surroundings) (s : Pipeline) :
    Popped ((pipelineCode ser cfg).other e s).2 := by
  cases e with
  | sink answer =>
    change Popped (sinkTurn ser cfg answer s).2
    unfold sinkTurn
    cases hpc : s.sink.pc with
    | loopHead =>
      dsimp only
      split
      · rfl
      · exact sinkAccess_popped ser cfg answer (by rw [hpc]; decide) (by rw [hpc]; decide)
    | firstPop => exact popAccess_popped _ s
    | secondPop => exact popAccess_popped _ s
    | retrying =>
      exact sinkAccess_popped ser cfg answer (by rw [hpc]; decide) (by rw [hpc]; decide)
    | attempting evt =>
      exact sinkAccess_popped ser cfg answer (by rw [hpc]; exact SinkPc.noConfusion)
        (by rw [hpc]; exact SinkPc.noConfusion)
    | polling =>
      exact sinkAccess_popped ser cfg answer (by rw [hpc]; decide) (by rw [hpc]; decide)
    | left => exact sinkAccess_popped ser cfg answer (by rw [hpc]; decide) (by rw [hpc]; decide)
  | requestStop => rfl
  | undecodable => rfl

/-- A step of a call pops nothing. -/
theorem CallStep.popped {cfg : AppConfig} {call : Call} {locals : InCall} {s after : Pipeline}
    {next : Option InCall} {later : List PipelineObservation}
    (hstep : CallStep cfg call locals s after next later) : Popped later := by
  cases hstep with
  | returns hidle hall =>
    have hqueue : ((called cfg call locals.answers s.table).2.map
        PipelineObservation.table).filterMap queueView=[] := filterMap_map_none (fun _ => rfl) _
    have hsink : ((called cfg call locals.answers s.table).2.map
        PipelineObservation.table).filterMap sinkView=[] := filterMap_map_none (fun _ => rfl) _
    rw [Popped,hqueue,hsink]
    rfl
  | pushes evt pending hone hnext =>
    obtain ⟨_,_,hcase⟩ := producerStep_one s.sink.queue s.popping hone
    change Popped ((producerStep ⟨s.sink.queue,locals.push,s.popping,pending⟩).2.map .queue)
    rcases hcase with ⟨hseen,_⟩ | ⟨ok,hseen,_⟩
    · rw [hseen]
      rfl
    · rw [hseen]
      rfl

/-- In every run the sink has popped what has left the queue. -/
theorem run_popped (inputs : List (SingleInput Call Surroundings)) :
    Popped (((singleMachine (pipelineCode ser cfg)).trace ⟨.initial,none⟩ inputs).filterMap
      shown) := by
  refine Machine.history_invariant (singleMachine (pipelineCode ser cfg)) (h:=[])
    (P:=fun _ history => Popped (history.filterMap shown)) ?_ rfl inputs
  intro s history input h
  rw [List.filterMap_append]
  refine h.append ?_
  cases input with
  | enter call =>
    simp only [singleMachine]
    cases s.current with
    | none => rfl
    | some current => rfl
  | turn =>
    change Popped ((singleTurn (pipelineCode ser cfg) s).2.filterMap shown)
    unfold singleTurn
    cases s.current with
    | none => rfl
    | some current =>
      obtain ⟨call,locals⟩ := current
      have hturn := CallStep.popped (callStep_step cfg call locals s.shared)
      have hcode : (pipelineCode ser cfg).step call locals s.shared=
        callStep cfg call locals s.shared := rfl
      dsimp only
      rw [hcode]
      generalize callStep cfg call locals s.shared=stepped at hturn ⊢
      obtain ⟨after,next,later⟩ := stepped
      cases next with
      | some after =>
        dsimp only
        rwa [(shown_did later).1]
      | none =>
        dsimp only
        rw [List.filterMap_append,(shown_did later).1]
        exact hturn.append rfl
  | other e =>
    simp only [singleMachine]
    rw [(shown_did _).1]
    exact other_popped ser cfg e s.shared

end Popped

end PacketPipe.PipelineSimulation

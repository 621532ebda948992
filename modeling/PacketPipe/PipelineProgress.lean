import PacketPipe.KafkaSinkTermination
import PacketPipe.PipelineRuns

/-!
# How far the threads are from their goals

A call on the table has as many accesses ahead as its remaining pushes need,
and every turn inside the call is one of them, whatever the other threads do.
The sink thread that was asked to stop has as many accesses ahead as the turns
of the sink machine need, and with nobody pushing every turn of the thread is
one of them. Neither number is raised by another thread.
-/

namespace PacketPipe.PipelineProgress

open FlowEvents ConfigParserModel ObservedMachines BoundedFifos LockedCalls
open FlowTableModel FlowTableCallbacks EventQueueModel EventQueueRefinement
open KafkaSinkModel KafkaSinkDelivery KafkaSinkTermination CaptureSourceModel
open PipelineModel PipelineCalls PipelineSimulation PipelineRuns

section Calls

/-- Accesses of a push that are done. -/
def accessesDone {size : RingSize} : Pushing size → ℕ
  | .idle => 0
  | .loadedTail _ _ => 1
  | .checked _ _ _ => 2
  | .written _ _ => 3

/-- Accesses before the return of a call, at most. -/
def callAhead (cfg : AppConfig) (call : Call) (locals : InCall) (t : FlowTable Unit) : ℕ :=
  4*((callEvents cfg call t).length-locals.answers.length)-accessesDone locals.push

/-- An access goes on with a push or answers it. -/
theorem producerStep_advances {size : RingSize} (queue : EventQueue size) {push : Pushing size}
    (popping : Popping size) {pending : List FlowEvent} {evt : FlowEvent}
    (h : inFlight push++pending=[evt]) :
    let run := producerStep ⟨queue,push,popping,pending⟩
    accessesDone run.1.producer=accessesDone push+1 ∧ run.2=[] ∨
      accessesDone push≤3 ∧ accessesDone run.1.producer=0 ∧ ∃ ok,run.2=[.enqueue evt ok] := by
  intro run
  cases push with
  | idle =>
    obtain rfl : pending=[evt] := h
    exact .inl ⟨rfl,rfl⟩
  | loadedTail evt' tail =>
    obtain ⟨rfl,rfl⟩ := List.cons.inj h
    by_cases hfull : nextIndex tail=queue.head
    · have hrun : run=(⟨queue,.idle,popping,[]⟩,[.enqueue evt' false]) := if_pos hfull
      rw [hrun]
      exact .inr ⟨Nat.le_add_left 1 2,rfl,false,rfl⟩
    · have hrun : run=(⟨queue,.checked evt' tail (nextIndex tail),popping,[]⟩,[]) :=
        if_neg hfull
      rw [hrun]
      exact .inl ⟨rfl,rfl⟩
  | checked evt' tail nextTail => exact .inl ⟨rfl,rfl⟩
  | written evt' nextTail =>
    obtain ⟨rfl,rfl⟩ := List.cons.inj h
    exact .inr ⟨Nat.le_refl 3,rfl,true,rfl⟩

/-- A step of a call returns or is one of the accesses ahead. -/
theorem CallStep.lowers {cfg : AppConfig} {call : Call} {locals : InCall} {s after : Pipeline}
    {next : Option InCall} {later : List PipelineObservation}
    (hstep : CallStep cfg call locals s after next later)
    (hhalfway : Halfway cfg call locals s.table) :
    next=none ∨ ∃ locals',next=some locals' ∧
      callAhead cfg call locals' after.table<callAhead cfg call locals s.table := by
  cases hstep with
  | returns hidle hall => exact .inl rfl
  | pushes evt pending hone hnext =>
    right
    refine ⟨_,rfl,?_⟩
    have hmore : locals.answers.length<(callEvents cfg call s.table).length := by
      have hevt : (callEvents cfg call s.table)[locals.answers.length]?=some evt := by
        cases hflight : inFlight locals.push with
        | nil => exact hnext hflight
        | cons first rest =>
          rw [hflight,List.cons_append,List.cons.injEq,List.append_eq_nil_iff] at hone
          obtain ⟨rfl,rfl,_⟩ := hone
          exact hhalfway.flight first hflight
      exact (List.getElem?_eq_some_iff.mp hevt).1
    have hadvances := producerStep_advances s.sink.queue s.popping hone
    unfold callAhead pushStep
    dsimp only at hadvances ⊢
    rcases hadvances with ⟨hdone,hnone⟩ | ⟨hthree,hdone,ok,hsome⟩
    · have hbound : accessesDone locals.push≤3 := by
        cases locals.push <;> simp only [accessesDone] <;> omega
      rw [hdone,hnone,List.filterMap_nil,List.append_nil]
      omega
    · have hanswers : (locals.answers++[Operation.enqueue evt ok].filterMap pushAnswer).length=
          locals.answers.length+1 := by
        rw [List.length_append]
        rfl
      rw [hdone,hsome,hanswers]
      omega

/-- What is ahead depends on the table only as far as calls do. -/
theorem callAhead_alike (cfg : AppConfig) (call : Call) (locals : InCall) {t t' : FlowTable Unit}
    (h : Alike t t') : callAhead cfg call locals t=callAhead cfg call locals t' := by
  rw [callAhead,callAhead,callEvents_alike cfg call h]

end Calls

section Sink

/-- Accesses of a pop that are left. -/
def accessesLeft {size : RingSize} : Popping size → ℕ
  | .idle => 4
  | .loadedHead _ => 3
  | .checked _ => 2
  | .read _ _ => 1

/-- Accesses before the next turn of the sink machine is done. -/
def accessesInTurn (s : Pipeline) : ℕ :=
  match s.sink.pc with
  | .loopHead => if s.guarding=true then 1 else 2
  | .firstPop => accessesLeft s.popping
  | .secondPop => accessesLeft s.popping
  | .retrying => 1
  | .attempting _ => 1
  | .polling => 1
  | .left => 0

/-- Accesses before the sink thread leaves its outer loop, at most. -/
def accessesAhead (s : Pipeline) : ℕ := 5*turnsAhead s.sink+accessesInTurn s

theorem accessesInTurn_le (s : Pipeline) : accessesInTurn s≤4 := by
  have hpopping : accessesLeft s.popping≤4 := by
    cases s.popping <;> simp only [accessesLeft] <;> omega
  unfold accessesInTurn
  cases s.sink.pc with
  | loopHead =>
    dsimp only
    split <;> omega
  | firstPop => exact hpopping
  | secondPop => exact hpopping
  | retrying => exact Nat.le_add_left 1 3
  | attempting evt => exact Nat.le_add_left 1 3
  | polling => exact Nat.le_add_left 1 3
  | left => exact Nat.zero_le 4

/-- A turn of the sink machine makes up for its accesses. -/
theorem accessesAhead_turn {s s' : Pipeline} (h : turnsAhead s'.sink+1≤turnsAhead s.sink) :
    accessesAhead s'<accessesAhead s := by
  have hbound := accessesInTurn_le s'
  unfold accessesAhead
  omega

/-- The pop in progress takes its next access, finds the queue empty or takes
the front event. -/
theorem popAccess_cases {s : Pipeline} {push : Pushing kDefaultEventQueueCapacity}
    {items : List FlowEvent} (h : Represents ⟨s.sink.queue,push,s.popping,[]⟩ items)
    (missed : SinkPc) :
    (∃ popping,(popAccess missed s).1={s with popping := popping} ∧
        accessesLeft popping+1=accessesLeft s.popping) ∨
      (queueSize s.sink.queue=0 ∧ (popAccess missed s).1=
        {s with popping := .idle,sink := {s.sink with pc := missed}}) ∨
      ∃ evt queue,queueSize s.sink.queue=queueSize queue+1 ∧ (popAccess missed s).1=
        {s with popping := .idle,sink := {s.sink with queue := queue,pc := .attempting evt}} := by
  obtain ⟨items',hallows,hrepresents⟩ := consumerStep_simulates h
  rw [consumerStep_frame] at hallows hrepresents
  obtain ⟨table,⟨pc,queue,retryBuf,stopRequested,metrics⟩,popping,guarding⟩ := s
  have hsize := (size_stores h.stores).2
  have hsize' := (size_stores hrepresents.stores).2
  dsimp only at hallows hsize hsize' ⊢
  cases popping with
  | idle => exact .inl ⟨_,rfl,rfl⟩
  | loadedHead head =>
    by_cases hempty : head=queue.tail
    · have hrun : consumerStep ⟨queue,.idle,.loadedHead head,[]⟩=
          (⟨queue,.idle,.idle,[]⟩,[.dequeue none]) := if_pos hempty
      rw [hrun] at hallows
      right
      left
      refine ⟨?_,by simp only [popAccess,hrun,popAnswer]⟩
      cases allows_one hallows with
      | empty => exact hsize
    · have hrun : consumerStep ⟨queue,.idle,.loadedHead head,[]⟩=
          (⟨queue,.idle,.checked head,[]⟩,[]) := if_neg hempty
      exact .inl ⟨.checked head,by simp only [popAccess,hrun,popAnswer],rfl⟩
  | checked head => exact .inl ⟨_,rfl,rfl⟩
  | read head evt =>
    right
    right
    refine ⟨evt,{queue with head := nextIndex head},?_,rfl⟩
    have hstep : QueueStep queueCapacity items (.dequeue (some evt)) items' := allows_one hallows
    cases hstep with
    | taken =>
      rw [hsize,List.length_cons]
      exact congrArg (·+1) hsize'.symm

variable (ser : Serializer) (cfg : AppConfig)

/-- A pop of a thread that was asked to stop brings it nearer to its end. -/
theorem popAccess_lowers {s : Pipeline} {push : Pushing kDefaultEventQueueCapacity}
    {items : List FlowEvent} (h : Represents ⟨s.sink.queue,push,s.popping,[]⟩ items)
    {missed : SinkPc} (hpc : s.sink.pc=.firstPop ∧ missed=.secondPop ∨
      s.sink.pc=.secondPop ∧ missed=.polling) :
    (popAccess missed s).1.sink.pc≠.left ∧
      accessesAhead (popAccess missed s).1<accessesAhead s := by
  have hinside : s.sink.pc≠.left := by rcases hpc with ⟨hpc,_⟩ | ⟨hpc,_⟩ <;> rw [hpc] <;> decide
  rcases popAccess_cases h missed with ⟨popping,hrun,hless⟩ | ⟨hempty,hrun⟩ | ⟨evt,queue,hsize,hrun⟩
  · rw [hrun]
    refine ⟨hinside,?_⟩
    rcases hpc with ⟨hpc,_⟩ | ⟨hpc,_⟩ <;> simp only [accessesAhead,accessesInTurn,hpc] <;> omega
  · rw [hrun]
    refine ⟨by rcases hpc with ⟨_,rfl⟩ | ⟨_,rfl⟩ <;> exact SinkPc.noConfusion,
      accessesAhead_turn (WithinIteration.turnsAhead ⟨?_,?_,?_⟩)⟩
    · rw [iterationsAhead_empty hempty]
      exact iterationsAhead_empty hempty
    · rcases hpc with ⟨hpc,rfl⟩ | ⟨hpc,rfl⟩ <;>
        simp only [backlogSize,hpc,inHand,hempty,le_refl]
    · rcases hpc with ⟨hpc,rfl⟩ | ⟨hpc,rfl⟩ <;> simp only [turnsInIteration,hpc] <;> decide
  · rw [hrun]
    refine ⟨SinkPc.noConfusion,accessesAhead_turn (WithinIteration.turnsAhead ⟨?_,?_,?_⟩)⟩
    · rcases hpc with ⟨hpc,_⟩ | ⟨hpc,_⟩ <;> simp only [iterationsAhead,hpc,hsize] <;> omega
    · rcases hpc with ⟨hpc,_⟩ | ⟨hpc,_⟩ <;>
        simp only [backlogSize,hpc,inHand,hsize,List.length_singleton,List.length_nil] <;> omega
    · rcases hpc with ⟨hpc,_⟩ | ⟨hpc,_⟩ <;> simp only [turnsInIteration,hpc] <;> decide

/-- So does every other turn, unless it leaves the loop. -/
theorem sinkAccess_lowers (answer : Answer) {s : Pipeline}
    (hstop : s.sink.stopRequested=true) (hinside : s.sink.pc≠.left) :
    (sinkAccess ser cfg answer s).1.sink.pc=.left ∨
      (sinkAccess ser cfg answer s).1.sink.pc≠.left ∧
        accessesAhead (sinkAccess ser cfg answer s).1<accessesAhead s := by
  have hturn := SinkStep.turn (sinkStep_step ser cfg answer s.sink) hstop
  rcases hturn.lowers hinside with hleft | ⟨hinside',hlower⟩
  · exact .inl hleft
  · exact .inr ⟨hinside',accessesAhead_turn hlower⟩

/-- Every turn of a thread that was asked to stop leaves the outer loop or is
one of the accesses ahead. -/
theorem sinkTurn_lowers (answer : Answer) {s : Pipeline}
    {push : Pushing kDefaultEventQueueCapacity} {items : List FlowEvent}
    (h : Represents ⟨s.sink.queue,push,s.popping,[]⟩ items)
    (hstop : s.sink.stopRequested=true) (hinside : s.sink.pc≠.left) :
    (sinkTurn ser cfg answer s).1.sink.pc=.left ∨
      (sinkTurn ser cfg answer s).1.sink.pc≠.left ∧
        accessesAhead (sinkTurn ser cfg answer s).1<accessesAhead s := by
  have haccess := sinkAccess_lowers ser cfg answer hstop hinside
  unfold sinkTurn
  cases hpc : s.sink.pc with
  | loopHead =>
    dsimp only
    split
    · next hguard =>
      have hnot : s.guarding=false := by
        rw [hstop,Bool.true_and,Bool.not_eq_true'] at hguard
        exact hguard
      refine .inr ⟨by rw [hpc]; decide,?_⟩
      simp only [accessesAhead,accessesInTurn,hpc,hnot]
      simp
    · exact haccess
  | firstPop => exact .inr (popAccess_lowers h (.inl ⟨hpc,rfl⟩))
  | secondPop => exact .inr (popAccess_lowers h (.inr ⟨hpc,rfl⟩))
  | retrying => exact haccess
  | attempting evt => exact haccess
  | polling => exact haccess
  | left => exact absurd hpc hinside

end Sink

end PacketPipe.PipelineProgress

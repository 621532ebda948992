import PacketPipe.CaptureAccounting
import PacketPipe.FairSchedules
import PacketPipe.PipelineDelivery
import PacketPipe.PipelineProgress

/-!
# The program returns

From the end of the capture on, every schedule brings `main` to its return that
gives turns to all threads again and again, to the main thread also at times at
which the lock is free. The mutex alone would not do: it lets the timer thread
sweep any number of times while the main thread waits for its drain.
-/

namespace PacketPipe.PipelineShutdown

open FlowEvents ConfigParserModel ObservedMachines FairSchedules BoundedFifos LockedCalls
open FlowTableModel FlowTableCallbacks EventQueueModel EventQueueRefinement
open KafkaSinkModel KafkaSinkDelivery CaptureSourceModel
open PipelineModel PipelineCalls PipelineSimulation PipelineRuns PipelineOrder
open PipelineDelivery PipelineProgress

variable (ser : Serializer) (cfg : AppConfig)

/-- The program can be in this state. -/
def Reachable (p : Program) : Prop := ∃ inputs,programAfter ser cfg inputs=p

section States

variable {ser cfg}

theorem Reachable.step {p : Program} (h : Reachable ser cfg p) (input : ProgramInput) :
    Reachable ser cfg ((programMachine ser cfg).step p input).1 := by
  obtain ⟨inputs,rfl⟩ := h
  exact ⟨inputs++[input],Machine.final_concat _ _ _ _⟩

theorem Reachable.pipelined {p : Program} (h : Reachable ser cfg p) :
    ∃ trace,Pipelined ser cfg p trace := by
  obtain ⟨inputs,rfl⟩ := h
  exact ⟨_,run_pipelined ser cfg inputs⟩

theorem Reachable.phases {p : Program} (h : Reachable ser cfg p) : Phases p := by
  obtain ⟨inputs,rfl⟩ := h
  exact run_phases ser cfg inputs

theorem Reachable.exclusive {p : Program} (h : Reachable ser cfg p) : Exclusive p.threads := by
  obtain ⟨_,hpipelined⟩ := h.pipelined
  exact hpipelined.exclusive

/-- The locals of the call that a worker is in keep their place. -/
theorem Reachable.halfway {p : Program} (h : Reachable ser cfg p) {worker : Worker} {call : Call}
    {locals : InCall} (hinside : p.threads.phase worker=.inside call locals) :
    Halfway cfg call locals p.threads.shared.table := by
  obtain ⟨_,hpipelined⟩ := h.pipelined
  have hcurrent : p.threads.single.current=some (call,locals) :=
    hpipelined.exclusive.current hinside
  exact hpipelined.serial.current call locals hcurrent

/-- Shared memory represents the events queued. -/
theorem Reachable.represents {p : Program} (h : Reachable ser cfg p) :
    ∃ push items,
      Represents ⟨p.threads.shared.sink.queue,push,p.threads.shared.popping,[]⟩ items := by
  obtain ⟨_,hpipelined⟩ := h.pipelined
  obtain ⟨items,_,_,hrepresents,_⟩ := hpipelined.follows
  exact ⟨_,items,hrepresents⟩

end States

/-- It is the worker's turn. -/
def turnOf : Worker → ProgramInput → Bool
  | .main,.main _ _ _ => true
  | .main,.timer _ _ => false
  | .main,.sink _ => false
  | .timer,.main _ _ _ => false
  | .timer,.timer _ _ => true
  | .timer,.sink _ => false

/-- It is the turn of the sink thread. -/
def sinkTurnOf : ProgramInput → Bool
  | .main _ _ _ => false
  | .timer _ _ => false
  | .sink _ => true

/-- The worker gets a turn and does not wait for a lock that is taken. -/
def Moves (worker : Worker) (p : Program) (input : ProgramInput) : Prop :=
  turnOf worker input=true ∧ ∀ call,p.threads.phase worker=.waiting call → p.threads.holder=none

/-- libpcap has no further frame. -/
def NoFrame : ProgramInput → Prop
  | .main delivery _ _ => ∀ frame,delivery≠.frame frame
  | .timer _ _ => True
  | .sink _ => True

/-- The next statement of a worker. -/
def placeOf : Worker → Program → MainPc⊕TimerPc
  | .main,p => .inl p.main
  | .timer,p => .inr p.timer

section Frames

variable {ser cfg}

/-- What a step of others leaves to a worker: its phase, its next statement, and
the table while the worker is in a call. -/
structure Undisturbed (worker : Worker) (p p' : Program) : Prop where
  /-- The phase. -/
  phase : p'.threads.phase worker=p.threads.phase worker
  /-- The next statement. -/
  place : placeOf worker p'=placeOf worker p
  /-- The table. -/
  table : ∀ call locals,p.threads.phase worker=.inside call locals →
    Alike p.threads.shared.table p'.threads.shared.table

/-- A turn inside of calls is one of the threads that call the table. -/
theorem busy_turn {p : Program} {worker : Worker} (hbusy : p.threads.phase worker≠.outside)
    {input : ProgramInput} (hturn : turnOf worker input=true) :
    (programMachine ser cfg).step p input=within ser cfg (.turn worker) p := by
  have hwithin : ∀ statement,workerTurn ser cfg worker statement p=
      within ser cfg (.turn worker) p := by
    intro statement
    unfold workerTurn
    cases hphase : p.threads.phase worker with
    | outside => exact absurd hphase hbusy
    | waiting call => rfl
    | inside call locals => rfl
  cases worker <;> cases input <;> first | exact hwithin _ | cases hturn

/-- A turn outside of calls is the next statement. -/
theorem outside_turn (ser : Serializer) (cfg : AppConfig) {p : Program} {worker : Worker}
    (houtside : p.threads.phase worker=.outside)
    (statement : Program → Program×List ProgramObservation) :
    workerTurn ser cfg worker statement p=statement p := by
  unfold workerTurn
  rw [houtside]

/-- A turn of another worker inside of its calls does not disturb. -/
theorem turn_undisturbed {p : Program} (h : Exclusive p.threads) {worker other : Worker}
    (hne : worker≠other) : Undisturbed worker p (within ser cfg (.turn other) p).1 := by
  refine ⟨(within_turn ser cfg other p).2.2 worker hne,by cases worker <;> rfl,?_⟩
  intro call locals hinside
  have hturn := turn_shared (pipelineCode ser cfg) other p.threads
  change Alike p.threads.shared.table (turn (pipelineCode ser cfg) other p.threads).1.shared.table
  rcases hturn with hsame | ⟨call',locals',hother,_⟩
  · rw [hsame]
    exact ⟨rfl,rfl,rfl⟩
  · exact absurd (h.unique hinside hother) hne

/-- Asking for a call does not disturb the others. -/
theorem asking_undisturbed (p : Program) {worker other : Worker} (hne : worker≠other)
    (call : Call) {p' : Program} (hplace : placeOf worker p'=placeOf worker p)
    (hthreads : p'.threads=asking other call p.threads) : Undisturbed worker p p' := by
  refine ⟨?_,hplace,fun call locals hinside => ?_⟩
  · rw [hthreads]
    exact Function.update_of_ne hne _ _
  · rw [hthreads]
    exact ⟨rfl,rfl,rfl⟩

/-- Nor do the surroundings. -/
theorem other_undisturbed (worker : Worker) (e : Surroundings) {p q : Program}
    (hplace : placeOf worker q=placeOf worker p) (hthreads : q.threads=p.threads) :
    Undisturbed worker p (within ser cfg (.other e) q).1 := by
  refine ⟨?_,?_,fun call locals hinside => ?_⟩
  · rw [←hthreads]
    rfl
  · rw [←hplace]
    cases worker <;> rfl
  · have hbeside := other_beside ser cfg e q.threads.shared
    rw [←hthreads]
    exact hbeside.table

/-- A statement without a call does not disturb. -/
theorem statement_undisturbed {worker : Worker} {p p' : Program}
    (hplace : placeOf worker p'=placeOf worker p) (hthreads : p'.threads=p.threads) :
    Undisturbed worker p p' := by
  refine ⟨by rw [hthreads],hplace,fun _ _ _ => ?_⟩
  rw [hthreads]
  exact ⟨rfl,rfl,rfl⟩

/-- The statements of `main` do not disturb the timer thread. -/
theorem mainStatement_undisturbed (delivery : Delivery) (nowUs : Int64) (order : MapOrder)
    {p : Program} (houtside : p.threads.phase .main=.outside) :
    Undisturbed .timer p (mainStatement ser cfg delivery nowUs order p).1 := by
  have hne : Worker.timer≠.main := by decide
  unfold mainStatement
  cases p.main with
  | capturing =>
    cases delivery with
    | frame frame =>
      dsimp only
      unfold deliver
      cases decoded frame with
      | some pkt =>
        dsimp only
        rw [within_ask ser cfg houtside]
        exact asking_undisturbed p hne _ rfl rfl
      | none => exact other_undisturbed .timer .undecodable rfl rfl
    | finished => exact statement_undisturbed rfl rfl
    | failed => exact statement_undisturbed rfl rfl
  | draining =>
    have hask := within_ask ser cfg (p:={p with main := .stoppingTimer}) houtside
      (.drainAll nowUs order)
    dsimp only
    rw [hask]
    exact asking_undisturbed p hne _ rfl rfl
  | stoppingTimer => exact statement_undisturbed rfl rfl
  | joiningTimer =>
    dsimp only
    split <;> exact statement_undisturbed rfl rfl
  | stoppingSink => exact other_undisturbed .timer .requestStop rfl rfl
  | joiningSink =>
    dsimp only
    split <;> exact statement_undisturbed rfl rfl
  | returned => exact statement_undisturbed rfl rfl

/-- The statements of the timer thread do not disturb the main thread. -/
theorem timerStatement_undisturbed (nowUs : Int64) (order : MapOrder) {p : Program}
    (houtside : p.threads.phase .timer=.outside) :
    Undisturbed .main p (timerStatement ser cfg nowUs order p).1 := by
  unfold timerStatement
  cases p.timer with
  | loopHead => exact statement_undisturbed rfl rfl
  | sleeping => exact statement_undisturbed rfl rfl
  | woken =>
    dsimp only
    split
    · exact statement_undisturbed rfl rfl
    · have hask := within_ask ser cfg (p:={p with timer := .loopHead}) houtside
        (.timerSweep nowUs order)
      rw [hask]
      exact asking_undisturbed p (by decide) _ rfl rfl
  | ended => exact statement_undisturbed rfl rfl

/-- A worker is not disturbed by the turns of the others. -/
theorem others_undisturbed (ser : Serializer) (cfg : AppConfig) {p : Program}
    (h : Exclusive p.threads) {worker : Worker} {input : ProgramInput}
    (hother : turnOf worker input=false) :
    Undisturbed worker p ((programMachine ser cfg).step p input).1 := by
  cases input with
  | main delivery nowUs order =>
    cases worker with
    | main => cases hother
    | timer =>
      by_cases houtside : p.threads.phase .main=.outside
      · have hstep := outside_turn ser cfg houtside
          (mainStatement ser cfg delivery nowUs order)
        change Undisturbed .timer p (workerTurn ser cfg .main _ p).1
        rw [hstep]
        exact mainStatement_undisturbed delivery nowUs order houtside
      · rw [busy_turn houtside rfl]
        exact turn_undisturbed h (by decide)
  | timer nowUs order =>
    cases worker with
    | main =>
      by_cases houtside : p.threads.phase .timer=.outside
      · have hstep := outside_turn ser cfg houtside
          (timerStatement ser cfg nowUs order)
        change Undisturbed .main p (workerTurn ser cfg .timer _ p).1
        rw [hstep]
        exact timerStatement_undisturbed nowUs order houtside
      · rw [busy_turn houtside rfl]
        exact turn_undisturbed h (by decide)
    | timer => cases hother
  | sink answer => exact other_undisturbed worker (.sink answer) rfl rfl

end Frames

section Calls

/-- A condition that lasts while a worker is busy, and while which any help to
the worker is a move of it. -/
structure Lasts (helps : Program → ProgramInput → Prop) (X : Program → Prop) (worker : Worker) :
    Prop where
  /-- It lasts. -/
  step : ∀ p input,Reachable ser cfg p → X p → p.threads.phase worker≠.outside →
    NoFrame input → X ((programMachine ser cfg).step p input).1
  /-- Help is a move. -/
  moves : ∀ p input,Reachable ser cfg p → X p → helps p input → Moves worker p input

variable {ser cfg} {helps : Program → ProgramInput → Prop} {X : Program → Prop} {worker : Worker}

/-- A worker that waits gets the lock with its first move. -/
theorem call_enters (hX : Lasts ser cfg helps X worker) :
    Progress (programMachine ser cfg) NoFrame helps
      (fun p => Reachable ser cfg p ∧ X p ∧ ∃ call,p.threads.phase worker=.waiting call)
      (fun p => Reachable ser cfg p ∧ X p ∧
        ∃ call locals,p.threads.phase worker=.inside call locals)
      (fun _ => 0) := by
  rintro p input ⟨hreach,hp,call,hwaiting⟩ hframe
  have hbusy : p.threads.phase worker≠.outside := by
    rw [hwaiting]
    exact fun h => by cases h
  have hlasts := hX.step p input hreach hp hbusy hframe
  by_cases hmoves : Moves worker p input
  · left
    refine ⟨hreach.step input,hlasts,call,⟨[],.idle⟩,?_⟩
    rw [busy_turn hbusy hmoves.1]
    change (turn (pipelineCode ser cfg) worker p.threads).1.phase worker=_
    simp only [turn,hwaiting,hmoves.2 call hwaiting,Function.update_self]
    rfl
  · by_cases hturn : turnOf worker input=true
    · have hstays : ((programMachine ser cfg).step p input).1.threads=p.threads := by
        rw [busy_turn hbusy hturn]
        change (turn (pipelineCode ser cfg) worker p.threads).1=_
        cases hholder : p.threads.holder with
        | none => exact absurd ⟨hturn,fun _ _ => hholder⟩ hmoves
        | some other => simp only [turn,hwaiting,hholder]
      refine .inr ⟨⟨hreach.step input,hlasts,call,?_⟩,Nat.le_refl 0,fun hhelps => ?_⟩
      · rw [hstays]
        exact hwaiting
      · exact absurd (hX.moves p input hreach hp hhelps) hmoves
    · have hothers := others_undisturbed ser cfg hreach.exclusive
        (Bool.eq_false_iff.mpr hturn)
      refine .inr ⟨⟨hreach.step input,hlasts,call,hothers.phase.trans hwaiting⟩,Nat.le_refl 0,
        fun hhelps => ?_⟩
      exact absurd (hX.moves p input hreach hp hhelps) hmoves

/-- Accesses ahead of the call that a worker is in. -/
def phaseAhead (cfg : AppConfig) (worker : Worker) (p : Program) : ℕ :=
  match p.threads.phase worker with
  | .outside => 0
  | .waiting _ => 0
  | .inside call locals => callAhead cfg call locals p.threads.shared.table

/-- A worker inside a call comes back from it. -/
theorem call_returns (hX : Lasts ser cfg helps X worker) :
    Progress (programMachine ser cfg) NoFrame helps
      (fun p => Reachable ser cfg p ∧ X p ∧
        ∃ call locals,p.threads.phase worker=.inside call locals)
      (fun p => Reachable ser cfg p ∧ X p ∧ p.threads.phase worker=.outside)
      (phaseAhead cfg worker) := by
  rintro p input ⟨hreach,hp,call,locals,hinside⟩ hframe
  have hbusy : p.threads.phase worker≠.outside := by
    rw [hinside]
    exact fun h => by cases h
  have hlasts := hX.step p input hreach hp hbusy hframe
  by_cases hturn : turnOf worker input=true
  · have hcall := CallStep.lowers (callStep_step cfg call locals p.threads.shared)
      (hreach.halfway hinside)
    have hcode : (pipelineCode ser cfg).step call locals p.threads.shared=
      callStep cfg call locals p.threads.shared := rfl
    have hthreads : ((programMachine ser cfg).step p input).1.threads=
        (turn (pipelineCode ser cfg) worker p.threads).1 := by
      rw [busy_turn hbusy hturn]
      rfl
    rcases hcall with hnone | ⟨locals',hsome,hlower⟩
    · left
      refine ⟨hreach.step input,hlasts,?_⟩
      rw [hthreads]
      simp only [turn,hinside,hcode,hnone,Function.update_self]
    · have hphase : (turn (pipelineCode ser cfg) worker p.threads).1.phase worker=
          .inside call locals' := by
        simp only [turn,hinside,hcode,hsome,Function.update_self]
      have hshared : (turn (pipelineCode ser cfg) worker p.threads).1.shared=
          (callStep cfg call locals p.threads.shared).1 := by
        simp only [turn,hinside,hcode,hsome]
      have hless : phaseAhead cfg worker ((programMachine ser cfg).step p input).1<
          phaseAhead cfg worker p := by
        unfold phaseAhead
        rw [hthreads,hphase,hshared,hinside]
        exact hlower
      refine .inr ⟨⟨hreach.step input,hlasts,call,locals',?_⟩,Nat.le_of_lt hless,fun _ => hless⟩
      rw [hthreads]
      exact hphase
  · have hothers := others_undisturbed ser cfg hreach.exclusive
      (Bool.eq_false_iff.mpr hturn)
    have hsame : phaseAhead cfg worker ((programMachine ser cfg).step p input).1=
        phaseAhead cfg worker p := by
      unfold phaseAhead
      rw [hothers.phase,hinside]
      exact (callAhead_alike cfg call locals (hothers.table call locals hinside)).symm
    refine .inr ⟨⟨hreach.step input,hlasts,call,locals,hothers.phase.trans hinside⟩,
      Nat.le_of_eq hsame,fun hhelps => ?_⟩
    exact absurd (hX.moves p input hreach hp hhelps).1 hturn

/-- A worker comes back from whatever call it is at. -/
theorem leads_outside (hX : Lasts ser cfg helps X worker) {s : Program}
    {schedule : ℕ → ProgramInput} (hframe : ∀ n,NoFrame (schedule n))
    (hhelps : Recurs (programMachine ser cfg) s schedule helps) :
    LeadsTo (programMachine ser cfg) s schedule (fun p => Reachable ser cfg p ∧ X p)
      (fun p => Reachable ser cfg p ∧ X p ∧ p.threads.phase worker=.outside) := by
  have hreturns := (call_returns hX).leadsTo hframe hhelps
  have henters := ((call_enters hX).leadsTo hframe hhelps).trans hreturns
  rintro n ⟨hreach,hp⟩
  cases hphase : (stateAt (programMachine ser cfg) s schedule n).threads.phase worker with
  | outside => exact ⟨n,Nat.le_refl n,hreach,hp,hphase⟩
  | waiting call => exact henters n ⟨hreach,hp,call,hphase⟩
  | inside call locals => exact hreturns n ⟨hreach,hp,call,locals,hphase⟩

end Calls

section Stages

variable {ser cfg} {s : Program} {schedule : ℕ → ProgramInput}

/-- The next statement of `main` is the same after a turn of another thread. -/
theorem others_main {p : Program} (hreach : Reachable ser cfg p) (input : ProgramInput)
    (hother : turnOf .main input=false) :
    ((programMachine ser cfg).step p input).1.main=p.main ∧
      ((programMachine ser cfg).step p input).1.threads.phase .main=p.threads.phase .main := by
  have hothers := others_undisturbed ser cfg hreach.exclusive hother
  exact ⟨Sum.inl_injective hothers.place,hothers.phase⟩

/-- The next statement of the timer thread is the same after a turn of another
thread. -/
theorem others_timer {p : Program} (hreach : Reachable ser cfg p) (input : ProgramInput)
    (hother : turnOf .timer input=false) :
    ((programMachine ser cfg).step p input).1.timer=p.timer ∧
      ((programMachine ser cfg).step p input).1.threads.phase .timer=p.threads.phase .timer := by
  have hothers := others_undisturbed ser cfg hreach.exclusive hother
  exact ⟨Sum.inr_injective hothers.place,hothers.phase⟩

/-- `main` stays at its statement while it is busy with a call, and a condition
that every step keeps holds besides. -/
theorem main_lasts {Y : Program → Prop} (pc : MainPc)
    (hY : ∀ p input,Reachable ser cfg p → Y p → Y ((programMachine ser cfg).step p input).1) :
    Lasts ser cfg (Moves .main) (fun p => p.main=pc ∧ Y p) .main := by
  refine ⟨fun p input hreach hp hbusy _ => ⟨?_,hY p input hreach hp.2⟩,fun _ _ _ _ h => h⟩
  by_cases hturn : turnOf .main input=true
  · rw [busy_turn hbusy hturn]
    exact hp.1
  · exact (others_main hreach input (Bool.eq_false_iff.mpr hturn)).1.trans hp.1

/-- `main` comes to its next statement and takes it. -/
theorem main_leads {pc : MainPc} {Y goal : Program → Prop}
    (hY : ∀ p input,Reachable ser cfg p → Y p → Y ((programMachine ser cfg).step p input).1)
    (hgoal : ∀ p delivery nowUs order,p.main=pc → Y p →
      p.threads.phase .main=.outside → (∀ frame,delivery≠.frame frame) →
        goal (mainStatement ser cfg delivery nowUs order p).1)
    (hframe : ∀ n,NoFrame (schedule n))
    (hmain : Recurs (programMachine ser cfg) s schedule (Moves .main)) :
    LeadsTo (programMachine ser cfg) s schedule
      (fun p => Reachable ser cfg p ∧ p.main=pc ∧ Y p)
      (fun p => Reachable ser cfg p ∧ goal p) := by
  have hprogress : Progress (programMachine ser cfg) NoFrame (Moves .main)
      (fun p => Reachable ser cfg p ∧ (p.main=pc ∧ Y p) ∧ p.threads.phase .main=.outside)
      (fun p => Reachable ser cfg p ∧ goal p) (fun _ => 0) := by
    rintro p input ⟨hreach,⟨hpc,hp⟩,houtside⟩ hinput
    by_cases hturn : turnOf .main input=true
    · left
      refine ⟨hreach.step input,?_⟩
      cases input with
      | main delivery nowUs order =>
        have hstep := outside_turn ser cfg houtside (mainStatement ser cfg delivery nowUs order)
        change goal (workerTurn ser cfg .main _ p).1
        rw [hstep]
        exact hgoal p delivery nowUs order hpc hp houtside hinput
      | timer nowUs order => cases hturn
      | sink answer => cases hturn
    · obtain ⟨hmain,hphase⟩ := others_main hreach input (Bool.eq_false_iff.mpr hturn)
      exact .inr ⟨⟨hreach.step input,⟨hmain.trans hpc,hY p input hreach hp⟩,
        hphase.trans houtside⟩,Nat.le_refl 0,fun hmoves => absurd hmoves.1 hturn⟩
  exact (leads_outside (main_lasts pc hY) hframe hmain).trans (hprogress.leadsTo hframe hmain)

/-- Without a condition besides. -/
theorem main_goes {pc : MainPc} {goal : Program → Prop}
    (hgoal : ∀ p delivery nowUs order,p.main=pc → p.threads.phase .main=.outside →
      (∀ frame,delivery≠.frame frame) → goal (mainStatement ser cfg delivery nowUs order p).1)
    (hframe : ∀ n,NoFrame (schedule n))
    (hmain : Recurs (programMachine ser cfg) s schedule (Moves .main)) :
    LeadsTo (programMachine ser cfg) s schedule
      (fun p => Reachable ser cfg p ∧ p.main=pc) (fun p => Reachable ser cfg p ∧ goal p) := by
  have hleads := main_leads (Y:=fun _ => True) (fun _ _ _ _ => trivial)
    (fun p delivery nowUs order hpc _ => hgoal p delivery nowUs order hpc) hframe hmain
  exact LeadsTo.trans (leadsTo_of_imp fun p h => ⟨h.1,h.2,trivial⟩) hleads

/-- The timer thread stays ended. -/
theorem ended_stays {p : Program} (hended : p.timer=.ended) (input : ProgramInput) :
    ((programMachine ser cfg).step p input).1.timer=.ended := by
  have hstep := programMachine_step ser cfg p input
  generalize (programMachine ser cfg).step p input=stepped at hstep ⊢
  obtain ⟨after,seen⟩ := stepped
  cases hstep with
  | ticks timer _ hkept => exact hkept hended
  | sweeps _ _ hpc => exact absurd (hpc.symm.trans hended) (by decide)
  | _ => exact hended

/-- The sink thread stays outside of its loop. -/
theorem left_stays {p : Program} (hleft : p.threads.shared.sink.pc=.left)
    (input : ProgramInput) :
    ((programMachine ser cfg).step p input).1.threads.shared.sink.pc=.left := by
  have hstep := programMachine_step ser cfg p input
  generalize (programMachine ser cfg).step p input=stepped at hstep ⊢
  obtain ⟨after,seen⟩ := stepped
  cases hstep with
  | calls worker => exact (within_turn ser cfg worker p).1.trans hleft
  | sinks answer =>
    change (sinkTurn ser cfg answer p.threads.shared).1.sink.pc=.left
    simp only [sinkTurn,sinkAccess,sinkStep,hleft]
  | _ => exact hleft

/-- `main` has returned for good. -/
theorem returned_stays {p : Program} (hreturned : p.main=.returned) (input : ProgramInput) :
    ((programMachine ser cfg).step p input).1.main=.returned := by
  have hstep := programMachine_step ser cfg p input
  generalize (programMachine ser cfg).step p input=stepped at hstep ⊢
  obtain ⟨after,seen⟩ := stepped
  cases hstep with
  | ends hpc | fails hpc | drains _ _ hpc | stopsTimer hpc | joinsTimer hpc | stopsSink hpc
  | joinsSink hpc => exact absurd (hpc.symm.trans hreturned) (by decide)
  | _ => exact hreturned

/-- It is still there at any later time. -/
theorem returned_later (hframe : ∀ n,NoFrame (schedule n)) {n : ℕ}
    (hreturned : (stateAt (programMachine ser cfg) s schedule n).main=.returned) {k : ℕ}
    (hk : n≤k) : (stateAt (programMachine ser cfg) s schedule k).main=.returned :=
  stateAt_stable (P:=fun p : Program => p.main=.returned)
    (fun _ input hp _ => returned_stays hp input) hframe hreturned hk

/-- A join waits. -/
theorem join_waits {p : Program} (hreach : Reachable ser cfg p)
    (hwaits : p.main=.joiningTimer ∧ p.timer≠.ended ∨
      p.main=.joiningSink ∧ p.threads.shared.sink.pc≠.left)
    (delivery : Delivery) (nowUs : Int64) (order : MapOrder) :
    ((programMachine ser cfg).step p (.main delivery nowUs order)).1=p := by
  have hstage : 3≤ stage p.main := by
    rcases hwaits with ⟨hpc,_⟩ | ⟨hpc,_⟩ <;> rw [hpc] <;> decide
  have hstep := outside_turn ser cfg (hreach.phases.main hstage)
    (mainStatement ser cfg delivery nowUs order)
  change (workerTurn ser cfg .main _ p).1=p
  rw [hstep]
  rcases hwaits with ⟨hpc,hne⟩ | ⟨hpc,hne⟩
  · simp only [mainStatement,hpc,if_neg hne]
  · simp only [mainStatement,hpc,if_neg hne]

/-- Statements of the timer thread before its end, once it was asked to stop. -/
def timerAhead : TimerPc → ℕ
  | .sleeping => 2
  | .woken => 1
  | .loopHead => 0
  | .ended => 0

/-- The timer thread that was asked to stop comes to its end. -/
theorem timer_ends (hframe : ∀ n,NoFrame (schedule n))
    (htimer : Recurs (programMachine ser cfg) s schedule
      fun _ input => turnOf .timer input=true) :
    LeadsTo (programMachine ser cfg) s schedule
      (fun p => Reachable ser cfg p ∧ p.main=.joiningTimer)
      (fun p => Reachable ser cfg p ∧ p.main=.joiningTimer ∧ p.timer=.ended) := by
  have hlasts : Lasts ser cfg (fun _ input => turnOf .timer input=true)
      (fun p => p.main=.joiningTimer) .timer := by
    refine ⟨fun p input hreach hpc hbusy _ => ?_,fun p input hreach hpc hturn => ⟨hturn,?_⟩⟩
    · have hne : p.timer≠.ended := fun hended => hbusy (hreach.phases.timer hended)
      cases input with
      | main delivery nowUs order =>
        rw [join_waits hreach (.inl ⟨hpc,hne⟩)]
        exact hpc
      | timer nowUs order => exact (others_main hreach _ rfl).1.trans hpc
      | sink answer => exact (others_main hreach _ rfl).1.trans hpc
    · intro call hwaiting
      cases hholder : p.threads.holder with
      | none => rfl
      | some other =>
        obtain ⟨call',locals,hinside⟩ := hreach.exclusive.holder other hholder
        cases other with
        | main =>
          have houtside := hreach.phases.main (by rw [hpc]; decide)
          cases houtside.symm.trans hinside
        | timer => cases hwaiting.symm.trans hinside
  have hprogress : Progress (programMachine ser cfg) NoFrame
      (fun _ input => turnOf .timer input=true)
      (fun p => Reachable ser cfg p ∧ p.main=.joiningTimer ∧ p.threads.phase .timer=.outside ∧
        p.timer≠.ended)
      (fun p => Reachable ser cfg p ∧ p.main=.joiningTimer ∧ p.timer=.ended)
      (fun p => timerAhead p.timer) := by
    rintro p input ⟨hreach,hpc,houtside,hne⟩ _
    cases input with
    | main delivery nowUs order =>
      have hreach' := hreach.step (.main delivery nowUs order)
      rw [join_waits hreach (.inl ⟨hpc,hne⟩)] at hreach' ⊢
      exact .inr ⟨⟨hreach',hpc,houtside,hne⟩,Nat.le_refl _,fun hturn => by cases hturn⟩
    | timer nowUs order =>
      have hreach' := hreach.step (.timer nowUs order)
      have hmain := (others_main hreach (.timer nowUs order) rfl).1.trans hpc
      have hstep : (programMachine ser cfg).step p (.timer nowUs order)=
          timerStatement ser cfg nowUs order p := outside_turn ser cfg houtside _
      have hasked := hreach.phases.asked (by rw [hpc]; decide)
      rw [hstep] at hreach' hmain ⊢
      cases htimerPc : p.timer with
      | loopHead =>
        left
        refine ⟨hreach',hmain,?_⟩
        simp only [timerStatement,htimerPc,hasked,if_true]
      | sleeping =>
        right
        have hnext : timerStatement ser cfg nowUs order p=({p with timer := .woken},[]) := by
          simp only [timerStatement,htimerPc]
        rw [hnext] at hreach' ⊢
        have hlower : timerAhead .woken<timerAhead p.timer := by
          rw [htimerPc]
          decide
        exact ⟨⟨hreach',hpc,houtside,TimerPc.noConfusion⟩,Nat.le_of_lt hlower,fun _ => hlower⟩
      | woken =>
        right
        have hnext : timerStatement ser cfg nowUs order p=({p with timer := .loopHead},[]) := by
          simp only [timerStatement,htimerPc,hasked,if_true]
        rw [hnext] at hreach' ⊢
        have hlower : timerAhead .loopHead<timerAhead p.timer := by
          rw [htimerPc]
          decide
        exact ⟨⟨hreach',hpc,houtside,TimerPc.noConfusion⟩,Nat.le_of_lt hlower,fun _ => hlower⟩
      | ended => exact absurd htimerPc hne
    | sink answer =>
      obtain ⟨hplace,hphase⟩ := others_timer hreach (.sink answer) rfl
      have hmain := (others_main hreach (.sink answer) rfl).1.trans hpc
      refine .inr ⟨⟨hreach.step _,hmain,hphase.trans houtside,?_⟩,
        Nat.le_of_eq (congrArg timerAhead hplace),fun hturn => by cases hturn⟩
      rw [hplace]
      exact hne
  refine (leads_outside hlasts hframe htimer).trans ?_
  rintro n ⟨hreach,hpc,houtside⟩
  by_cases hended : (stateAt (programMachine ser cfg) s schedule n).timer=.ended
  · exact ⟨n,Nat.le_refl n,hreach,hpc,hended⟩
  · exact hprogress.leadsTo hframe htimer n ⟨hreach,hpc,houtside,hended⟩

/-- The sink thread that was asked to stop leaves its loop. -/
theorem sink_leaves (hframe : ∀ n,NoFrame (schedule n))
    (hsink : Recurs (programMachine ser cfg) s schedule fun _ input => sinkTurnOf input=true) :
    LeadsTo (programMachine ser cfg) s schedule
      (fun p => Reachable ser cfg p ∧ p.main=.joiningSink)
      (fun p => Reachable ser cfg p ∧ p.main=.joiningSink ∧
        p.threads.shared.sink.pc=.left) := by
  have hprogress : Progress (programMachine ser cfg) NoFrame
      (fun _ input => sinkTurnOf input=true)
      (fun p => Reachable ser cfg p ∧ p.main=.joiningSink ∧ p.threads.shared.sink.pc≠.left)
      (fun p => Reachable ser cfg p ∧ p.main=.joiningSink ∧
        p.threads.shared.sink.pc=.left)
      (fun p => accessesAhead p.threads.shared) := by
    rintro p input ⟨hreach,hpc,hinside⟩ _
    have hphases := hreach.phases
    cases input with
    | main delivery nowUs order =>
      have hreach' := hreach.step (.main delivery nowUs order)
      rw [join_waits hreach (.inr ⟨hpc,hinside⟩)] at hreach' ⊢
      exact .inr ⟨⟨hreach',hpc,hinside⟩,Nat.le_refl _,fun hturn => by cases hturn⟩
    | timer nowUs order =>
      have hended := hphases.joined (by rw [hpc]; decide)
      have hsame : ((programMachine ser cfg).step p (.timer nowUs order)).1=p := by
        have hstep := outside_turn ser cfg (hphases.timer hended)
          (timerStatement ser cfg nowUs order)
        change (workerTurn ser cfg .timer _ p).1=p
        rw [hstep,timerStatement,hended]
      rw [hsame]
      exact .inr ⟨⟨hreach,hpc,hinside⟩,Nat.le_refl _,fun hturn => by cases hturn⟩
    | sink answer =>
      obtain ⟨push,items,hrepresents⟩ := hreach.represents
      have hstop := hphases.stopped.mpr (by rw [hpc]; decide)
      have hmain := (others_main hreach (.sink answer) rfl).1.trans hpc
      rcases sinkTurn_lowers ser cfg answer hrepresents hstop hinside with
        hleft | ⟨hinside',hlower⟩
      · exact .inl ⟨hreach.step _,hmain,hleft⟩
      · exact .inr ⟨⟨hreach.step _,hmain,hinside'⟩,Nat.le_of_lt hlower,fun _ => hlower⟩
  rintro n ⟨hreach,hpc⟩
  by_cases hleft : (stateAt (programMachine ser cfg) s schedule n).threads.shared.sink.pc=.left
  · exact ⟨n,Nat.le_refl n,hreach,hpc,hleft⟩
  · exact hprogress.leadsTo hframe hsink n ⟨hreach,hpc,hleft⟩

end Stages

/-- A datagram has been delivered and waits for the lock. -/
def deliveredInputs : List ProgramInput :=
  [.main (.frame CaptureAccounting.datagramFrame) 0 .stored]

/-- Turns of the three threads in turn, after the capture has ended. -/
def turnsInTurn (n : ℕ) : ProgramInput :=
  match n%3 with
  | 0 => .main .finished 0 .stored
  | 1 => .timer 0 .stored
  | _ => .sink {}

section Silence

variable {ser cfg}

/-- A step after the stop of the sink was requested pushes nothing, and the
stop stays requested. -/
theorem ProgramStep.silent {p p' : Program} {seen : List ProgramObservation}
    (hstep : ProgramStep ser cfg p p' seen) (h : Phases p)
    (hstop : p.threads.shared.sink.stopRequested=true) :
    p'.threads.shared.sink.stopRequested=true ∧ (seenOf seen).filterMap pushView=[] := by
  have hstage := h.stopped.mp hstop
  have hmain := h.main (by omega)
  have hbefore : ∀ {pc : MainPc},p.main=pc → stage pc<5 → False := by
    rintro pc rfl hless
    omega
  have hother : ∀ e,(seenOf (within ser cfg (.other e) p).2).filterMap pushView=[] := by
    intro e
    have hbeside := (other_beside ser cfg e p.threads.shared).pushSeen
    rw [seenOf,within,lockSeen_threads]
    change ((((pipelineCode ser cfg).other e p.threads.shared).2.map Seen.did).filterMap
      anonymous |>.filterMap shown).filterMap pushView=[]
    rwa [anonymous_did,(shown_did _).1]
  cases hstep with
  | calls worker hbusy =>
    cases worker with
    | main => exact absurd hmain hbusy
    | timer => exact absurd (h.timer (h.joined (by omega))) hbusy
  | delivers _ _ hpc => exact (hbefore hpc (by decide)).elim
  | skips => exact ⟨hstop,hother .undecodable⟩
  | ends hpc => exact (hbefore hpc (by decide)).elim
  | fails hpc => exact (hbefore hpc (by decide)).elim
  | drains _ _ hpc => exact (hbefore hpc (by decide)).elim
  | stopsTimer hpc => exact (hbefore hpc (by decide)).elim
  | joinsTimer hpc => exact (hbefore hpc (by decide)).elim
  | stopsSink hpc => exact (hbefore hpc (by decide)).elim
  | sweeps _ _ hpc => cases hpc.symm.trans (h.joined (by omega))
  | stays => exact ⟨hstop,rfl⟩
  | joinsSink => exact ⟨hstop,rfl⟩
  | ticks => exact ⟨hstop,rfl⟩
  | sinks answer =>
    exact ⟨(sinkTurn_stopRequested ser cfg answer p.threads.shared).trans hstop,hother _⟩

variable (ser cfg)

/-- For every schedule: once the destructor of the sink has requested its stop,
no thread is or ever comes into a call on the table, and nothing more is pushed. -/
theorem silent_after_stop (inputs later : List ProgramInput)
    (hstop : (programAfter ser cfg inputs).threads.shared.sink.stopRequested=true) :
    (∀ worker,(programAfter ser cfg (inputs++later)).threads.phase worker=.outside) ∧
      (seenOf (programTrace ser cfg (inputs++later))).filterMap pushView=
        (seenOf (programTrace ser cfg inputs)).filterMap pushView := by
  have hlater : (programAfter ser cfg (inputs++later)).threads.shared.sink.stopRequested=true ∧
      (seenOf (programTrace ser cfg (inputs++later))).filterMap pushView=
        (seenOf (programTrace ser cfg inputs)).filterMap pushView := by
    induction later using List.reverseRecOn with
    | nil =>
      rw [List.append_nil]
      exact ⟨hstop,rfl⟩
    | append_singleton later input ih =>
      have hstep := ProgramStep.silent (programMachine_step ser cfg _ input)
        (run_phases ser cfg (inputs++later)) ih.1
      rw [←List.append_assoc,programAfter,programTrace,Machine.final_concat,
        Machine.trace_concat,seenOf_append,List.filterMap_append,hstep.2,List.append_nil]
      exact ⟨hstep.1,ih.2⟩
  refine ⟨fun worker => ?_,hlater.2⟩
  have hphases := run_phases ser cfg (inputs++later)
  have hstage := hphases.stopped.mp hlater.1
  cases worker with
  | main => exact hphases.main (by omega)
  | timer => exact hphases.timer (hphases.joined (by omega))

/-- Nothing is pushed after the return of `main`. -/
theorem silent_after_stop_delivered :
    let inputs := deliveredInputs++(List.range 145).map turnsInTurn
    let later := [.main .finished 0 .stored,.timer 0 .stored,.sink {}]
    (∀ worker,(programAfter blankSerializer {} (inputs++later)).threads.phase worker=.outside) ∧
      (seenOf (programTrace blankSerializer {} (inputs++later))).filterMap pushView=
        (seenOf (programTrace blankSerializer {} inputs)).filterMap pushView :=
  silent_after_stop blankSerializer {} (deliveredInputs++(List.range 145).map turnsInTurn)
    [.main .finished 0 .stored,.timer 0 .stored,.sink {}] (by decide +kernel)

end Silence

/-- Every thread gets turns again and again, and the main thread gets them also
at times at which it does not wait for a lock that is taken. -/
structure Fair (p : Program) (schedule : ℕ → ProgramInput) : Prop where
  /-- The main thread. -/
  main : Recurs (programMachine ser cfg) p schedule (Moves .main)
  /-- The timer thread. -/
  timer : Recurs (programMachine ser cfg) p schedule fun _ input => turnOf .timer input=true
  /-- The sink thread. -/
  sink : Recurs (programMachine ser cfg) p schedule fun _ input => sinkTurnOf input=true

/-- A schedule leads from states of the program to states of the program. -/
theorem reachable_stateAt {p : Program} (h : Reachable ser cfg p)
    (schedule : ℕ → ProgramInput) (n : ℕ) :
    Reachable ser cfg (stateAt (programMachine ser cfg) p schedule n) := by
  induction n with
  | zero => exact h
  | succ n ih => exact ih.step _

/-- `main` is at a statement. -/
def Stands (pc : MainPc) (p : Program) : Prop := Reachable ser cfg p ∧ p.main=pc

/-- Every statement of `main` leads to its return, from the last one to the first. -/
theorem statement_returns {p : Program} {schedule : ℕ → ProgramInput}
    (hframe : ∀ n,NoFrame (schedule n)) (hfair : Fair ser cfg p schedule) (pc : MainPc) :
    LeadsTo (programMachine ser cfg) p schedule (Stands ser cfg pc)
      (Stands ser cfg .returned) := by
  obtain ⟨hmain,htimer,hsink⟩ := hfair
  have hjoinsSink : LeadsTo (programMachine ser cfg) p schedule
      (Stands ser cfg .joiningSink) (Stands ser cfg .returned) := by
    refine (sink_leaves hframe hsink).trans
      (main_leads (fun p input _ hleft => left_stays hleft input) ?_ hframe hmain)
    intro p delivery nowUs order hpc hleft _ _
    simp only [mainStatement,hpc,hleft,if_true]
  have hstopsSink : LeadsTo (programMachine ser cfg) p schedule
      (Stands ser cfg .stoppingSink) (Stands ser cfg .returned) := by
    refine (main_goes ?_ hframe hmain).trans hjoinsSink
    intro p delivery nowUs order hpc _ _
    simp only [mainStatement,hpc,within]
  have hjoinsTimer : LeadsTo (programMachine ser cfg) p schedule
      (Stands ser cfg .joiningTimer) (Stands ser cfg .returned) := by
    refine ((timer_ends hframe htimer).trans (main_leads
      (fun p input _ hended => ended_stays hended input) ?_ hframe hmain)).trans hstopsSink
    intro p delivery nowUs order hpc hended _ _
    simp only [mainStatement,hpc,hended,if_true]
  have hstopsTimer : LeadsTo (programMachine ser cfg) p schedule
      (Stands ser cfg .stoppingTimer) (Stands ser cfg .returned) := by
    refine (main_goes ?_ hframe hmain).trans hjoinsTimer
    intro p delivery nowUs order hpc _ _
    simp only [mainStatement,hpc]
  have hdrains : LeadsTo (programMachine ser cfg) p schedule
      (Stands ser cfg .draining) (Stands ser cfg .returned) := by
    refine (main_goes ?_ hframe hmain).trans hstopsTimer
    intro p delivery nowUs order hpc _ _
    simp only [mainStatement,hpc,within]
  cases pc with
  | capturing =>
    have hends : LeadsTo (programMachine ser cfg) p schedule (Stands ser cfg .capturing)
        (fun p => Reachable ser cfg p ∧ (p.main=.draining ∨ p.main=.stoppingTimer)) := by
      refine main_goes ?_ hframe hmain
      intro p delivery nowUs order hpc _ hdelivery
      cases delivery with
      | frame frame => exact absurd rfl (hdelivery frame)
      | finished => left; simp only [mainStatement,hpc]
      | failed => right; simp only [mainStatement,hpc]
    refine LeadsTo.trans (hends.trans (leadsTo_of_imp fun p h => ?_)) (hdrains.or hstopsTimer)
    rcases h.2 with hpc | hpc
    · exact .inl ⟨h.1,hpc⟩
    · exact .inr ⟨h.1,hpc⟩
  | draining => exact hdrains
  | stoppingTimer => exact hstopsTimer
  | joiningTimer => exact hjoinsTimer
  | stoppingSink => exact hstopsSink
  | joiningSink => exact hjoinsSink
  | returned => exact leadsTo_of_imp fun _ h => h

/-- From every state that the program can reach, with whatever calls, pushes and
retries in progress: when libpcap has no further frame, every fair schedule
brings `main` to its return, whatever Kafka answers. From then on nobody is in a
call, the lock is free, the timer thread and the sink thread have ended and the
queue is empty. -/
theorem program_returns (inputs : List ProgramInput) (schedule : ℕ → ProgramInput)
    (hframe : ∀ n,NoFrame (schedule n))
    (hfair : Fair ser cfg (programAfter ser cfg inputs) schedule) :
    ∃ n,∀ k,n≤k →
      (stateAt (programMachine ser cfg) (programAfter ser cfg inputs) schedule k).main=
          .returned ∧
        (stateAt (programMachine ser cfg) (programAfter ser cfg inputs) schedule k).timer=
          .ended ∧
        Quiet (stateAt (programMachine ser cfg) (programAfter ser cfg inputs) schedule k) := by
  have hreach : Reachable ser cfg (programAfter ser cfg inputs) := ⟨inputs,rfl⟩
  obtain ⟨n,_,_,hreturned⟩ := statement_returns ser cfg hframe hfair _ 0 ⟨hreach,rfl⟩
  refine ⟨n,fun k hk => ?_⟩
  have hstays := returned_later hframe hreturned hk
  obtain ⟨front,hfront⟩ := reachable_stateAt ser cfg hreach schedule k
  have hquiet := run_quiet ser cfg front (by rw [hfront]; exact hstays)
  have hphases := run_phases ser cfg front
  rw [hfront] at hquiet hphases
  exact ⟨hstays,hphases.joined (by rw [hstays]; decide),hquiet⟩

/-- The schedule is fair: the main thread waits for the lock no more once it has
returned, which it has after 145 turns. -/
theorem turnsInTurn_fair :
    Fair blankSerializer {} (programAfter blankSerializer {} deliveredInputs) turnsInTurn := by
  have hframe : ∀ n,NoFrame (turnsInTurn n) := by
    intro n
    unfold turnsInTurn
    split
    · exact fun frame => Delivery.noConfusion
    · trivial
    · trivial
  have hreturned : (stateAt (programMachine blankSerializer {})
      (programAfter blankSerializer {} deliveredInputs) turnsInTurn 145).main=.returned := by
    decide +kernel
  constructor
  · intro n
    have hturn : turnsInTurn (3*(n+145))=.main .finished 0 .stored := by
      rw [turnsInTurn,Nat.mul_mod_right]
      rfl
    refine ⟨3*(n+145),by omega,by rw [hturn]; rfl,fun call hwaiting => ?_⟩
    have hlater : 145≤3*(n+145) := by omega
    have hstays := returned_later hframe hreturned hlater
    have hphases := (reachable_stateAt blankSerializer {} ⟨deliveredInputs,rfl⟩ turnsInTurn
      (3*(n+145))).phases
    have houtside := hphases.main (by rw [hstays]; decide)
    cases houtside.symm.trans hwaiting
  · intro n
    refine ⟨3*n+1,by omega,?_⟩
    have hmod : (3*n+1)%3=1 := by omega
    rw [turnsInTurn,hmod]
    rfl
  · intro n
    refine ⟨3*n+2,by omega,?_⟩
    have hmod : (3*n+2)%3=2 := by omega
    rw [turnsInTurn,hmod]
    rfl

/-- The program returns from there. -/
theorem program_returns_delivered :
    ∃ n,∀ k,n≤k →
      (stateAt (programMachine blankSerializer {})
          (programAfter blankSerializer {} deliveredInputs) turnsInTurn k).main=.returned ∧
        (stateAt (programMachine blankSerializer {})
          (programAfter blankSerializer {} deliveredInputs) turnsInTurn k).timer=.ended ∧
        Quiet (stateAt (programMachine blankSerializer {})
          (programAfter blankSerializer {} deliveredInputs) turnsInTurn k) := by
  refine program_returns blankSerializer {} deliveredInputs turnsInTurn (fun n => ?_)
    turnsInTurn_fair
  unfold turnsInTurn
  split
  · exact fun frame => Delivery.noConfusion
  · trivial
  · trivial

end PacketPipe.PipelineShutdown

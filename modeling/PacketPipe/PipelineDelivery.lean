import PacketPipe.FlowAccounting
import PacketPipe.FlowEventOrder
import PacketPipe.PipelineOrder

/-!
# From the packets delivered to the events published

The flow records carry the packets through the table, the queue and the sink.
At every moment of every schedule the counted packets are in the records that
have come out at the other end, in those refused or dropped on the way, in those
still on the way and in the table's entries. When `main` has returned the way is
empty.
-/

namespace PacketPipe.PipelineDelivery

open FlowEvents ConfigParserModel ObservedMachines BoundedFifos LockedCalls SessionTraces
open FlowTableModel FlowLifetimes FlowTableShutdown FlowTableCallbacks FlowAccounting
open FlowEventOrder EventQueueModel EventQueueRefinement
open KafkaSinkModel KafkaSinkDelivery KafkaSinkAccounts CaptureSourceModel
open PipelineModel PipelineCalls PipelineSimulation PipelineRuns PipelineOrder
open scoped BigOperators

section Records

/-- A counter summed over the End events. -/
def endsTotal (c : Counter) (evts : List FlowEvent) : ℕ :=
  (evts.map fun evt => if evt.type=.flowEnd then (c.read evt.state).toNat else 0).sum

@[simp] theorem endsTotal_append (c : Counter) (xs ys : List FlowEvent) :
    endsTotal c (xs++ys)=endsTotal c xs+endsTotal c ys := by
  simp only [endsTotal,List.map_append,List.sum_append]

/-- The order of the events does not matter. -/
theorem endsTotal_perm (c : Counter) {xs ys : List FlowEvent} (h : xs.Perm ys) :
    endsTotal c xs=endsTotal c ys := (h.map _).sum_eq

/-- The End events of a trace carry the flow records. -/
theorem endsTotal_emissions (c : Counter) (seen : List Observation) :
    endsTotal c (emissions seen)=
      ((flowRecords seen).map fun state => (c.read state).toNat).sum := by
  induction seen with
  | nil => rfl
  | cons o seen ih =>
    cases o with
    | counted pkt => exact ih
    | dropped pkt warned => exact ih
    | emitted evt accepted =>
      by_cases h : evt.type=.flowEnd <;>
        simpa [endsTotal,emissions,emittedEvent,flowRecords,endedState,h] using ih

/-- What all entries of a table hold. -/
def tableHeld (c : Counter) (flows : FlowMap) : ℕ :=
  (flows.entries.map fun entry => (c.read entry.2).toNat).sum

/-- It is what the keys hold, over any keys that cover the table. -/
theorem sum_held (c : Counter) (flows : FlowMap) (keys : Finset FlowKey)
    (hcover : flows.keys.toFinset⊆keys) :
    ∑ key∈keys,held c (flows.lookup key)=tableHeld c flows := by
  have habsent : ∀ key∈keys,key∉flows.keys.toFinset → held c (flows.lookup key)=0 := by
    intro key _ hnot
    rw [List.mem_toFinset,←AList.mem_keys,←AList.lookup_eq_none] at hnot
    rw [hnot]
    rfl
  rw [←Finset.sum_subset hcover habsent,List.sum_toFinset _ flows.keys_nodup,AList.keys,
    List.keys,List.map_map]
  refine congrArg List.sum (List.map_congr_left fun entry hentry => ?_)
  have hlookup : flows.lookup entry.1=some entry.2 := AList.mem_lookup_iff.mpr hentry
  rw [Function.comp_apply,hlookup]
  rfl

/-- In every run of the table the packets that one flow counted are in its End
events and in its entry. -/
theorem key_conserves {σ : Type} (cfg : AppConfig) (onEvent : EventCallback σ) (c : Counter)
    (sink : σ) (calls : List Call) (key : FlowKey) :
    lifeEnds c ((tableTrace cfg onEvent sink calls).filterMap (lifeView key))+
        held c ((tableAfter cfg onEvent sink calls).flows.lookup key)≡
      lifeWeight c ((tableTrace cfg onEvent sink calls).filterMap (lifeView key))
        [MOD 2^64] := by
  obtain ⟨hfinal,htrace⟩ :=
    run_project cfg onEvent (FlowTable.initial sink) keyed_empty calls key
  have hconserves := lifeMachine_conserves c cfg key none
    ((tableMachine cfg onEvent).feed (lifeInputs cfg key) (.initial sink) calls)
  rw [show (FlowTable.initial sink).flows.lookup key=none from rfl] at hfinal htrace
  rwa [hfinal,htrace,held,Nat.zero_add] at hconserves

/-- In every run of the table the counted packets are in the records and in the
entries. -/
theorem table_conserves {σ : Type} (cfg : AppConfig) (onEvent : EventCallback σ) (c : Counter)
    (sink : σ) (calls : List Call) :
    endsTotal c (emissions (tableTrace cfg onEvent sink calls))+
        tableHeld c (tableAfter cfg onEvent sink calls).flows≡
      ((acceptedPackets (tableTrace cfg onEvent sink calls)).map c.weight).sum [MOD 2^64] := by
  set trace := tableTrace cfg onEvent sink calls with htraceDef
  set flows := (tableAfter cfg onEvent sink calls).flows with hflowsDef
  have hkey : ∀ key,lifeEnds c (trace.filterMap (lifeView key))+held c (flows.lookup key)≡
      lifeWeight c (trace.filterMap (lifeView key)) [MOD 2^64] :=
    key_conserves cfg onEvent c sink calls
  have hcover : traceKeys trace⊆traceKeys trace∪flows.keys.toFinset := Finset.subset_union_left
  rw [endsTotal_emissions,←lifeEnds_own,←lifeWeight_own,
    ←sum_held c flows (traceKeys trace∪flows.keys.toFinset) Finset.subset_union_right]
  simp only [lifeEnds,lifeWeight] at hkey ⊢
  rw [sum_by_key _ _ trace hcover,sum_by_key _ _ trace hcover,←Finset.sum_add_distrib]
  exact Nat.ModEq.sum fun key _ => hkey key

end Records

section Pushes

/-- The event of a push that the queue accepted. -/
def acceptedPush (push : FlowEvent×Bool) : Option FlowEvent :=
  if push.2=true then some push.1 else none

/-- The event of a push that the queue refused. -/
def refusedPush (push : FlowEvent×Bool) : Option FlowEvent :=
  if push.2=true then none else some push.1

/-- An event pushed is accepted or refused. -/
theorem endsTotal_pushes (c : Counter) (pushes : List (FlowEvent×Bool)) :
    endsTotal c (pushes.map Prod.fst)=
      endsTotal c (pushes.filterMap acceptedPush)+endsTotal c (pushes.filterMap refusedPush) := by
  induction pushes with
  | nil => rfl
  | cons push pushes ih =>
    obtain ⟨evt,ok⟩ := push
    cases ok <;>
      simp only [endsTotal,List.map_cons,List.filterMap_cons,acceptedPush,refusedPush,
        Bool.false_eq_true,if_true,if_false,List.sum_cons] at ih ⊢ <;> omega

/-- The accepted ones are among those pushed, in order. -/
theorem accepted_sublist (pushes : List (FlowEvent×Bool)) :
    (pushes.filterMap acceptedPush).Sublist (pushes.map Prod.fst) := by
  induction pushes with
  | nil => exact .slnil
  | cons push pushes ih =>
    obtain ⟨evt,ok⟩ := push
    cases ok with
    | true => exact ih.cons_cons evt
    | false => exact ih.cons evt

/-- Without a refusal they are all. -/
theorem accepted_all {pushes : List (FlowEvent×Bool)} (h : pushes.filterMap refusedPush=[]) :
    pushes.filterMap acceptedPush=pushes.map Prod.fst := by
  induction pushes with
  | nil => rfl
  | cons push pushes ih =>
    obtain ⟨evt,ok⟩ := push
    cases ok with
    | true => exact congrArg (evt::·) (ih h)
    | false => cases h

/-- The events of the table are pushed. -/
theorem emissions_pushes (seen : List Observation) :
    emissions seen=(seen.filterMap emittedPush).map Prod.fst := by
  rw [List.map_filterMap]
  refine List.filterMap_congr fun o _ => ?_
  cases o <;> rfl

/-- The accepted pushes are what the queue takes in. -/
theorem enqueued_pushes (seen : List PipelineObservation) :
    enqueued (seen.filterMap queueView)=(seen.filterMap pushView).filterMap acceptedPush := by
  rw [enqueued,List.filterMap_filterMap,List.filterMap_filterMap]
  refine List.filterMap_congr fun o _ => ?_
  cases o with
  | table o => rfl
  | queue op => cases op <;> rfl
  | sink o => rfl

end Pushes

section Calls

variable (ser : Serializer) (cfg : AppConfig)

/-- The timer thread calls sweeps. -/
def Sweeps (calls : List Call) : Prop := ∀ call∈calls,∃ nowUs order,call=.timerSweep nowUs order

/-- Sweeps offer no packet. -/
theorem Sweeps.offered {calls : List Call} (h : Sweeps calls) : calls.filterMap offered=[] := by
  refine List.filterMap_eq_nil_iff.mpr fun call hcall => ?_
  obtain ⟨nowUs,order,rfl⟩ := h call hcall
  rfl

/-- Sweeps leave an empty table empty. -/
theorem Sweeps.empty {σ : Type} (onEvent : EventCallback σ) {calls : List Call}
    (h : Sweeps calls) {t : FlowTable σ} (hempty : t.flows.entries=[]) :
    ((tableMachine cfg onEvent).final t calls).flows.entries=[] := by
  induction calls generalizing t with
  | nil => exact hempty
  | cons call calls ih =>
    obtain ⟨nowUs,order,rfl⟩ := h call List.mem_cons_self
    rw [Machine.final_cons]
    exact ih (fun other hother => h other (List.mem_cons_of_mem _ hother))
      (timerSweep_empty cfg onEvent nowUs order hempty).1

/-- The packets offered are those of the main thread. -/
theorem offered_main {calls : List (Worker×Call)}
    (h : Sweeps ((calls.filter fun c => c.1=.timer).map Prod.snd)) :
    (calls.map Prod.snd).filterMap offered=
      ((calls.filter fun c => c.1=.main).map Prod.snd).filterMap offered := by
  induction calls with
  | nil => rfl
  | cons c calls ih =>
    obtain ⟨worker,call⟩ := c
    cases worker with
    | main =>
      have hrest := ih h
      simp only [List.map_cons,List.filterMap_cons,decide_true,List.filter_cons_of_pos]
      rw [hrest]
    | timer =>
      obtain ⟨nowUs,order,rfl⟩ := h call List.mem_cons_self
      exact ih fun other hother => h other (List.mem_cons_of_mem _ hother)

/-- After the drain there are sweeps only. -/
theorem drained_split {calls : List (Worker×Call)} {front : List Call} {drain : Call}
    (hmain : (calls.filter fun c => c.1=.main).map Prod.snd=front++[drain])
    (htimer : Sweeps ((calls.filter fun c => c.1=.timer).map Prod.snd)) :
    ∃ before after,calls.map Prod.snd=before++drain::after ∧ Sweeps after := by
  obtain ⟨_,last,hsplit,_,hlast⟩ := List.map_eq_append_iff.mp hmain
  obtain ⟨before,rest,rfl,_,hrest⟩ := List.filter_eq_append_iff.mp hsplit
  obtain ⟨c,_,rfl,hdrain,hnil⟩ := List.map_eq_cons_iff.mp hlast
  obtain rfl := List.map_eq_nil_iff.mp hnil
  obtain ⟨silent,after,rfl,_,_,hafter⟩ := List.filter_eq_cons_iff.mp hrest
  refine ⟨(before++silent).map Prod.snd,after.map Prod.snd,?_,fun call hcall => ?_⟩
  · rw [←hdrain,List.map_append,List.map_append,List.map_cons,List.map_append,List.append_assoc]
  · obtain ⟨c',hmem,rfl⟩ := List.mem_map.mp hcall
    refine htimer c'.2 (List.mem_map.mpr ⟨c',?_,rfl⟩)
    have hnot := List.filter_eq_nil_iff.mp hafter c' hmem
    refine List.mem_filter.mpr ⟨?_,?_⟩
    · simp [hmem]
    · obtain ⟨worker,call⟩ := c'
      cases worker with
      | main => exact absurd rfl hnot
      | timer => rfl

end Calls

section Program

variable (ser : Serializer) (cfg : AppConfig)

/-- Where the events are that the queue has taken in. -/
structure Whereabouts (s : Pipeline) (seen : List PipelineObservation) (items : List FlowEvent) :
    Prop where
  /-- The queue stores the items. -/
  stores : Stores s.sink.queue items
  /-- Taken in and not popped is what is stored. -/
  queue : enqueued (seen.filterMap queueView)=dequeued (seen.filterMap queueView)++items
  /-- Popped events are published, given up, dropped, waiting or in hand. -/
  sink : (dequeued (seen.filterMap queueView)).Perm
    ((seen.filterMap sinkView).filterMap publishedEvent++
      ((seen.filterMap sinkView).filterMap spoiledEvent++
        ((seen.filterMap sinkView).filterMap discardedEvent++
          (s.sink.retryBuf++inHand s.sink.pc))))

/-- They are somewhere in every run. -/
theorem run_whereabouts (inputs : List ProgramInput) :
    ∃ items,Whereabouts (programAfter ser cfg inputs).threads.shared
      (seenOf (programTrace ser cfg inputs)) items := by
  obtain ⟨_,_,hfollows,hpopped,_⟩ := run_pipelined ser cfg inputs
  obtain ⟨items,sinkInputs,hallows,hrepresents,htrace,q,hstores,hsame⟩ := hfollows
  obtain ⟨_,_,hpops,_⟩ := run_history ser cfg sinkInputs
  rw [htrace] at hpops
  refine ⟨items,hrepresents.stores,(allows_queued hallows).1,?_⟩
  rw [←hpopped]
  rw [AccountsPops,backlog,hsame] at hpops
  exact hpops

/-- The calls of the main thread are those for the packets and the drain. -/
theorem main_calls (inputs : List ProgramInput) :
    ∃ drained,
      ((finishedCalls (programTrace ser cfg inputs)).filter fun c => c.1=.main).map Prod.snd++
          ((programAfter ser cfg inputs).threads.phase .main).pending=
        (packetsOf (programTrace ser cfg inputs)).map .process++drained ∧
      Drained (pastDrain (programAfter ser cfg inputs)) drained := by
  obtain ⟨drained,hmain,hdrained⟩ := (run_asked ser cfg inputs).main
  have hinOrder := (run_pipelined ser cfg inputs).inOrder .main
  rw [CallsInOrder,leftBy_eq,hmain] at hinOrder
  exact ⟨drained,hinOrder,hdrained⟩

/-- The calls of the timer thread are sweeps. -/
theorem timer_calls (inputs : List ProgramInput) :
    Sweeps (((finishedCalls (programTrace ser cfg inputs)).filter fun c => c.1=.timer).map
      Prod.snd) := by
  have htimer := (run_asked ser cfg inputs).timer
  have hinOrder := (run_pipelined ser cfg inputs).inOrder .timer
  rw [CallsInOrder,leftBy_eq] at hinOrder
  intro call hcall
  refine htimer call ?_
  rw [←hinOrder]
  exact List.mem_append_left _ hcall

/-- The packets delivered are counted or dropped, in their order, but for the
one that the main thread is about to pass to the table. -/
theorem packets_handled (inputs : List ProgramInput) :
    ((seenOf (programTrace ser cfg inputs)).filterMap tableView).filterMap handled++
        ((programAfter ser cfg inputs).threads.phase .main).pending.filterMap offered=
      packetsOf (programTrace ser cfg inputs) := by
  obtain ⟨answers,htable⟩ := (run_pipelined ser cfg inputs).serial.table
  obtain ⟨htrace,_,_⟩ := htable []
  obtain ⟨drained,hmain,hdrained⟩ := main_calls ser cfg inputs
  have hnothing : drained.filterMap offered=[] := by
    unfold Drained at hdrained
    split at hdrained
    · obtain ⟨nowUs,order,rfl⟩ := hdrained
      rfl
    · subst hdrained
      rfl
  have hpackets : ∀ pkts : List ParsedPacket,(pkts.map Call.process).filterMap offered=pkts := by
    intro pkts
    rw [List.filterMap_map]
    exact List.filterMap_some
  rw [←htrace,tableTrace,run_handled,callsOf_eq,offered_main (timer_calls ser cfg inputs),
    ←List.filterMap_append,hmain,List.filterMap_append,hpackets,hnothing,List.append_nil]

/-- After the return of `main` nobody is in a call, the sink has left its loop
with an empty queue and holds nothing. -/
structure Quiet (p : Program) : Prop where
  /-- Nobody calls or waits. -/
  outside : ∀ worker,p.threads.phase worker=.outside
  /-- The lock is free. -/
  free : p.threads.holder=none
  /-- The sink thread has ended. -/
  left : p.threads.shared.sink.pc=.left
  /-- Nothing is queued. -/
  empty : ∀ items,Stores p.threads.shared.sink.queue items → items=[]

/-- So it is in every run. -/
theorem run_quiet (inputs : List ProgramInput)
    (hreturned : (programAfter ser cfg inputs).main=.returned) :
    Quiet (programAfter ser cfg inputs) := by
  have hphases := run_phases ser cfg inputs
  have hexclusive := (run_pipelined ser cfg inputs).exclusive
  have hstage : stage (programAfter ser cfg inputs).main=6 := by rw [hreturned]; rfl
  have houtside : ∀ worker,(programAfter ser cfg inputs).threads.phase worker=.outside := by
    intro worker
    cases worker with
    | main => exact hphases.main (by omega)
    | timer => exact hphases.timer (hphases.joined (by omega))
  have hleft := hphases.returned (by omega)
  refine ⟨houtside,?_,hleft,fun items hstores => ?_⟩
  · cases hholder : (programAfter ser cfg inputs).threads.holder with
    | none => rfl
    | some worker =>
      obtain ⟨call,locals,hinside⟩ := hexclusive.holder worker hholder
      rw [houtside] at hinside
      cases hinside
  · have hempty := (hphases.left hleft).2
    rw [(size_stores hstores).1] at hempty
    exact List.isEmpty_iff.mp hempty

/-- After the return of `main` without an exception the table is empty. -/
theorem run_drained (inputs : List ProgramInput)
    (hreturned : (programAfter ser cfg inputs).main=.returned)
    (hfailed : (programAfter ser cfg inputs).failed=false) :
    (programAfter ser cfg inputs).threads.shared.table.flows.entries=[] := by
  obtain ⟨answers,htable⟩ := (run_pipelined ser cfg inputs).serial.table
  obtain ⟨_,halike,_⟩ := htable []
  obtain ⟨drained,hmain,hdrained⟩ := main_calls ser cfg inputs
  rw [(run_quiet ser cfg inputs hreturned).outside .main,Phase.pending,List.append_nil] at hmain
  have hpast : pastDrain (programAfter ser cfg inputs)=true := by
    rw [pastDrain,hreturned,hfailed]
    rfl
  rw [Drained,if_pos hpast] at hdrained
  obtain ⟨nowUs,order,rfl⟩ := hdrained
  obtain ⟨before,after,hsplit,hafter⟩ := drained_split hmain (timer_calls ser cfg inputs)
  have hflows : (tableAfter cfg answerFrom (answers++[])
      (callsOf (programTrace ser cfg inputs))).flows=
        (programAfter ser cfg inputs).threads.shared.table.flows := halike.flows
  rw [←hflows,tableAfter,callsOf_eq,hsplit,Machine.final_append,Machine.final_cons,
    step_drainAll]
  exact hafter.empty cfg answerFrom (drainAll_entries answerFrom nowUs order _)

/-- Nothing of a call is pushed while nobody is in one. -/
theorem Quiet.pushes {p : Program} (h : Quiet p) : inCallPushes cfg p.threads.single=[] := by
  rw [inCallPushes,Locked.single,Locked.current,h.free]
  rfl

/-- What has become of the records that came out of the table: published, given
up by the sink, dropped at a full retry buffer and refused by the queue. -/
def settledTotal (c : Counter) (seen : List PipelineObservation) : ℕ :=
  endsTotal c ((seen.filterMap sinkView).filterMap publishedEvent)+
    endsTotal c ((seen.filterMap sinkView).filterMap spoiledEvent)+
    endsTotal c ((seen.filterMap sinkView).filterMap discardedEvent)+
    endsTotal c ((seen.filterMap pushView).filterMap refusedPush)

/-- What is on its way: waiting in the retry buffer, in the sink's hand and
queued. -/
def underway (c : Counter) (s : Pipeline) (items : List FlowEvent) : ℕ :=
  endsTotal c s.sink.retryBuf+endsTotal c (inHand s.sink.pc)+endsTotal c items

/-- The records pushed have become of something or are on their way. -/
theorem Whereabouts.total {s : Pipeline} {seen : List PipelineObservation}
    {items : List FlowEvent} (h : Whereabouts s seen items) (c : Counter) :
    endsTotal c ((seen.filterMap pushView).map Prod.fst)=
      settledTotal c seen+underway c s items := by
  have hqueue := congrArg (endsTotal c) h.queue
  have hsink := endsTotal_perm c h.sink
  rw [enqueued_pushes] at hqueue
  simp only [endsTotal_append] at hqueue hsink
  rw [endsTotal_pushes,settledTotal,underway]
  omega

/-- For every schedule and at every moment, and for either counter of the flow
states: the packets counted by the calls that have returned, with what the call
in progress has already pushed, add up modulo 2^64 to the records published,
given up, dropped and refused, those on their way and the entries of the table,
which during a call is the one that the calls before it left; and the packets
delivered are counted or dropped, in order. After the return of
`main` nothing is on its way but for the retry buffer, and without an exception
nothing is in the table. -/
theorem program_conserves (c : Counter) (inputs : List ProgramInput) :
    let p := programAfter ser cfg inputs
    let seen := seenOf (programTrace ser cfg inputs)
    (seen.filterMap tableView).filterMap handled++
          (p.threads.phase .main).pending.filterMap offered=
        packetsOf (programTrace ser cfg inputs) ∧
      (∃ items,Stores p.threads.shared.sink.queue items ∧
        settledTotal c seen+underway c p.threads.shared items+
            tableHeld c p.threads.shared.table.flows≡
          ((acceptedPackets (seen.filterMap tableView)).map c.weight).sum+
            endsTotal c ((inCallPushes cfg p.threads.single).map Prod.fst) [MOD 2^64]) ∧
      (p.main=.returned →
        (seen.filterMap tableView).filterMap handled=
            packetsOf (programTrace ser cfg inputs) ∧
          settledTotal c seen+endsTotal c p.threads.shared.sink.retryBuf+
              tableHeld c p.threads.shared.table.flows≡
            ((acceptedPackets (seen.filterMap tableView)).map c.weight).sum [MOD 2^64] ∧
          (p.failed=false → p.threads.shared.table.flows.entries=[])) := by
  intro p seen
  obtain ⟨answers,htable⟩ := (run_pipelined ser cfg inputs).serial.table
  obtain ⟨htrace,halike,_⟩ := htable []
  have hpushes := (run_pipelined ser cfg inputs).serial.pushes
  obtain ⟨items,hwhere⟩ := run_whereabouts ser cfg inputs
  have hhandled := packets_handled ser cfg inputs
  have hflows : (tableAfter cfg answerFrom (answers++[])
      (callsOf (programTrace ser cfg inputs))).flows=p.threads.shared.table.flows := halike.flows
  have hconserves := table_conserves cfg answerFrom c (answers++[])
    (callsOf (programTrace ser cfg inputs))
  rw [htrace,hflows,emissions_pushes] at hconserves
  have hpushed : endsTotal c ((seen.filterMap pushView).map Prod.fst)=
      endsTotal c (((seen.filterMap tableView).filterMap emittedPush).map Prod.fst)+
        endsTotal c ((inCallPushes cfg p.threads.single).map Prod.fst) := by
    rw [hpushes,List.map_append,endsTotal_append]
  rw [hwhere.total c] at hpushed
  have hsum : settledTotal c seen+underway c p.threads.shared items+
        tableHeld c p.threads.shared.table.flows≡
      ((acceptedPackets (seen.filterMap tableView)).map c.weight).sum+
        endsTotal c ((inCallPushes cfg p.threads.single).map Prod.fst) [MOD 2^64] := by
    rw [hpushed,Nat.add_right_comm]
    exact hconserves.add_right _
  refine ⟨hhandled,⟨items,hwhere.stores,hsum⟩,fun hreturned => ?_⟩
  have hquiet := run_quiet ser cfg inputs hreturned
  refine ⟨?_,?_,run_drained ser cfg inputs hreturned⟩
  · rw [hquiet.outside .main,Phase.pending,List.filterMap_nil,List.append_nil] at hhandled
    exact hhandled
  · rw [hquiet.pushes cfg,underway,hquiet.left,hquiet.empty items hwhere.stores] at hsum
    exact hsum

end Program

section Sessions

variable (ser : Serializer) (cfg : AppConfig)

/-- The types of the events of one flow. -/
def typesOf (key : FlowKey) (evts : List FlowEvent) : List FlowEventType :=
  (evts.filter fun evt => evt.state.key=key).map FlowEvent.type

/-- Those that the table emits. -/
theorem typesOf_emissions (key : FlowKey) (seen : List Observation) :
    typesOf key (emissions seen)=eventTypes key seen := by
  rw [typesOf,eventTypes,emissions,←List.filterMap_eq_filter,List.filterMap_filterMap]
  congr 1
  refine List.filterMap_congr fun o _ => ?_
  cases o with
  | counted pkt => rfl
  | dropped pkt warned => rfl
  | emitted evt accepted =>
    by_cases h : evt.state.key=key <;> simp [emittedEvent,emittedFor,Option.guard,h]

/-- The sessions of a flow make up its events, and perhaps one is open. -/
def InSessions (key : FlowKey) (evts : List FlowEvent) : Prop :=
  ∃ isOpen,Shape ((typesOf key evts).map tokenOf) isOpen

/-- A front of the table's events is in sessions. -/
theorem front_sessions {σ : Type} (onEvent : EventCallback σ) (sink : σ) (calls : List Call)
    {evts : List FlowEvent} (h : evts<+:emissions (tableTrace cfg onEvent sink calls))
    (key : FlowKey) : InSessions key evts := by
  obtain ⟨rest,hrest⟩ := h
  have hleads := run_leads cfg onEvent sink calls key
  rw [←typesOf_emissions,←hrest,typesOf,List.filter_append,List.map_append,List.map_append]
    at hleads
  obtain ⟨isOpen,hfront⟩ := leads_front hleads
  exact ⟨isOpen,shape_of_leads hfront⟩

/-- The answered ones of a list are a front of it. -/
theorem zip_front {α β : Type} (xs : List α) (ys : List β) : (xs.zip ys).map Prod.fst<+:xs := by
  induction xs generalizing ys with
  | nil => exact List.prefix_rfl
  | cons x xs ih =>
    cases ys with
    | nil => exact List.nil_prefix
    | cons y ys => exact (List.prefix_cons_inj x).mpr (ih ys)

/-- The call in progress, if it offers a packet, is for the last one delivered. -/
theorem current_offers (inputs : List ProgramInput) {call : Call} {locals : InCall}
    (hcurrent : (programAfter ser cfg inputs).threads.single.current=some (call,locals)) :
    [call].filterMap offered<+:
      ((programAfter ser cfg inputs).threads.phase .main).pending.filterMap offered := by
  obtain ⟨worker,_,hphase⟩ := Option.bind_eq_some_iff.mp hcurrent
  cases hplace : (programAfter ser cfg inputs).threads.phase worker with
  | outside =>
    rw [hplace] at hphase
    cases hphase
  | waiting waited =>
    rw [hplace] at hphase
    cases hphase
  | inside entered inner =>
    rw [hplace] at hphase
    cases hphase
    cases worker with
    | main =>
      rw [hplace]
      exact List.prefix_rfl
    | timer =>
      have htimer := (run_asked ser cfg inputs).timer
      have hinOrder := (run_pipelined ser cfg inputs).inOrder .timer
      rw [CallsInOrder,hplace] at hinOrder
      have hmem : call∈(lockSeen (programTrace ser cfg inputs)).filterMap (askedBy .timer) := by
        rw [←hinOrder]
        exact List.mem_append_right _ (List.mem_singleton_self call)
      obtain ⟨nowUs,order,rfl⟩ := htimer call hmem
      exact List.nil_prefix

/-- What has been pushed is a front of what the table emits when its calls are
made one after the other; those calls offer packets that were delivered. -/
theorem pushes_front (inputs : List ProgramInput) :
    ∃ answers calls,
      ((seenOf (programTrace ser cfg inputs)).filterMap pushView).map Prod.fst<+:
          emissions (tableTrace cfg answerFrom answers calls) ∧
        calls.filterMap offered<+:packetsOf (programTrace ser cfg inputs) := by
  obtain ⟨answers,htable⟩ := (run_pipelined ser cfg inputs).serial.table
  obtain ⟨htrace,halike,_⟩ := htable []
  have hpushes := (run_pipelined ser cfg inputs).serial.pushes
  have hoffered : (callsOf (programTrace ser cfg inputs)).filterMap offered=
      ((seenOf (programTrace ser cfg inputs)).filterMap tableView).filterMap handled := by
    rw [←htrace,tableTrace,run_handled]
  rw [hpushes,List.map_append,←emissions_pushes,←htrace,inCallPushes,
    ←packets_handled ser cfg inputs,←hoffered]
  cases hcurrent : (programAfter ser cfg inputs).threads.single.current with
  | none =>
    refine ⟨answers++[],_,?_,List.prefix_append _ _⟩
    rw [List.map_nil,List.append_nil]
  | some current =>
    obtain ⟨call,locals⟩ := current
    refine ⟨answers++[],callsOf (programTrace ser cfg inputs)++[call],?_,?_⟩
    · have hevents : emissions ((tableMachine cfg answerFrom).step
          (tableAfter cfg answerFrom (answers++[]) (callsOf (programTrace ser cfg inputs))) call).2=
            callEvents cfg call (programAfter ser cfg inputs).threads.single.shared.table :=
        emissions_unanswered (call_parallel cfg answerFrom answerFrom
          (halike.trans (alike_withSink _ ([] : List Bool))) call).seen
      rw [tableTrace,tableTrace,Machine.trace_concat,emissions_append]
      refine (List.prefix_append_right_inj _).mpr ?_
      rw [hevents]
      exact zip_front _ _
    · rw [List.filterMap_append]
      exact (List.prefix_append_right_inj _).mpr (current_offers ser cfg inputs hcurrent)

/-- After the return of `main` all that was pushed are the events of the finished
calls, and what was popped is all that was accepted. -/
theorem returned_events (inputs : List ProgramInput)
    (hreturned : (programAfter ser cfg inputs).main=.returned) :
    let seen := seenOf (programTrace ser cfg inputs)
    (∃ answers,tableTrace cfg answerFrom answers (callsOf (programTrace ser cfg inputs))=
          seen.filterMap tableView ∧
        (tableAfter cfg answerFrom answers (callsOf (programTrace ser cfg inputs))).flows=
          (programAfter ser cfg inputs).threads.shared.table.flows ∧
        (seen.filterMap pushView).map Prod.fst=
          emissions (tableTrace cfg answerFrom answers (callsOf (programTrace ser cfg inputs)))) ∧
      (seen.filterMap sinkView).filterMap poppedEvent=
        (seen.filterMap pushView).filterMap acceptedPush := by
  intro seen
  obtain ⟨_,hserial,_,hpopped,_⟩ := run_pipelined ser cfg inputs
  obtain ⟨answers,htable⟩ := hserial.table
  obtain ⟨htrace,halike,_⟩ := htable []
  obtain ⟨items,hstores,hqueue,_⟩ := run_whereabouts ser cfg inputs
  have hquiet := run_quiet ser cfg inputs hreturned
  refine ⟨⟨answers++[],htrace,halike.flows,?_⟩,?_⟩
  · have hpushes := hserial.pushes
    rw [hquiet.pushes cfg,List.append_nil] at hpushes
    rw [htrace,emissions_pushes,←hpushes]
  · rw [←hpopped,enqueued_pushes,hquiet.empty items hstores,List.append_nil] at hqueue
    exact hqueue.symm

/-- After the return of `main` without an exception every session is closed. -/
theorem returned_leads (inputs : List ProgramInput)
    (hreturned : (programAfter ser cfg inputs).main=.returned)
    (hfailed : (programAfter ser cfg inputs).failed=false) (key : FlowKey) :
    Leads false ((typesOf key
      (((seenOf (programTrace ser cfg inputs)).filterMap pushView).map Prod.fst)).map tokenOf)
        false := by
  obtain ⟨⟨answers,_,hflows,hemitted⟩,_⟩ := returned_events ser cfg inputs hreturned
  have hleads := run_leads cfg answerFrom answers (callsOf (programTrace ser cfg inputs)) key
  have hnone : (programAfter ser cfg inputs).threads.shared.table.flows.lookup key=none := by
    rw [AList.lookup,run_drained ser cfg inputs hreturned hfailed]
    rfl
  rw [hflows,hnone,←typesOf_emissions,←hemitted] at hleads
  exact hleads

/-- What the consumer sees of the flows, for every schedule. It pops the events
pushed, in order, but for those refused. For every flow the events pushed are
sessions of a Start, Stats and an End, and perhaps an open one; so are those
popped if none was refused. When `main` has returned, all accepted events are
popped. Without an exception every session pushed is closed, and with nothing
refused the consumer has seen as many Starts as Ends. A flow is still in the
table exactly when its last session was left open, which only an exception
brings about. -/
theorem program_sessions (inputs : List ProgramInput) :
    let p := programAfter ser cfg inputs
    let seen := seenOf (programTrace ser cfg inputs)
    let pushed := (seen.filterMap pushView).map Prod.fst
    let refused := (seen.filterMap pushView).filterMap refusedPush
    let popped := (seen.filterMap sinkView).filterMap poppedEvent
    popped.Sublist pushed ∧
      (∀ key,InSessions key pushed) ∧
      (refused=[] → ∀ key,InSessions key popped) ∧
      (p.main=.returned →
        popped=(seen.filterMap pushView).filterMap acceptedPush ∧
          (∀ key,key∈p.threads.shared.table.flows ↔
            (typesOf key pushed).getLast?=some .flowStart ∨
              (typesOf key pushed).getLast?=some .flowStats) ∧
          (p.failed=false → ∀ key,Shape ((typesOf key pushed).map tokenOf) false) ∧
          (p.failed=false → refused=[] → ∀ key,
            Shape ((typesOf key popped).map tokenOf) false ∧
              (typesOf key popped).count .flowStart=(typesOf key popped).count .flowEnd)) := by
  intro p seen pushed refused popped
  obtain ⟨items,_,hqueue,_⟩ := run_whereabouts ser cfg inputs
  obtain ⟨answers',calls',hfront,_⟩ := pushes_front ser cfg inputs
  rw [←(run_pipelined ser cfg inputs).popped,enqueued_pushes] at hqueue
  have hsessions : ∀ key,InSessions key pushed :=
    front_sessions cfg answerFrom answers' calls' hfront
  have haccepted : ((seen.filterMap pushView).filterMap acceptedPush).Sublist pushed :=
    accepted_sublist _
  have hall : refused=[] → (seen.filterMap pushView).filterMap acceptedPush=pushed :=
    accepted_all
  have hbegins : popped<+:(seen.filterMap pushView).filterMap acceptedPush := ⟨items,hqueue.symm⟩
  refine ⟨hbegins.sublist.trans haccepted,hsessions,fun hrefused key => ?_,fun hreturned => ?_⟩
  · rw [hall hrefused] at hbegins
    exact front_sessions cfg answerFrom answers' calls' (hbegins.trans hfront) key
  obtain ⟨⟨answers,_,hflows,hemitted⟩,hdone⟩ := returned_events ser cfg inputs hreturned
  have hclosed : p.failed=false → ∀ key,Leads false ((typesOf key pushed).map tokenOf) false :=
    returned_leads ser cfg inputs hreturned
  refine ⟨hdone,fun key => ?_,fun hfailed key => shape_of_leads (hclosed hfailed key),
    fun hfailed hrefused key => ?_⟩
  · have hpresent := present_iff_last cfg answerFrom answers
      (callsOf (programTrace ser cfg inputs)) key
    rwa [hflows,←typesOf_emissions,←hemitted] at hpresent
  · have hleads := hclosed hfailed key
    rw [←hall hrefused,←hdone] at hleads
    exact ⟨shape_of_leads hleads,count_starts hleads⟩

end Sessions

end PacketPipe.PipelineDelivery

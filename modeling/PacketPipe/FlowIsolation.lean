import Mathlib.Data.List.Forall2
import PacketPipe.FlowAccounting
import PacketPipe.FlowEventOrder

/-!
# Flows do not interfere below the limit

Two runs are compared: one with the traffic of all flows, and one from which
every packet of another flow was deleted. Both feed the single-flow machine
of a key with the same inputs, because the only state shared between flows is
the time of the last heartbeat, which packets never move, and the size of the
table, which matters at the limit only.
-/

namespace PacketPipe.FlowIsolation

open FlowEvents ConfigParserModel ObservedMachines FlowTableModel FlowLifetimes
open FlowEventOrder FlowAccounting

/-- Calls kept when the packets of other flows are deleted. -/
def concerns (key : FlowKey) : Call → Bool
  | .process pkt => keyFromPacket pkt=key
  | .timerSweep _ _ => true
  | .drainAll _ _ => true

/-- The run without the `process` calls of other flows. -/
def isolated (key : FlowKey) (calls : List Call) : List Call := calls.filter (concerns key)

/-- The same call, whatever order the loops visit the entries in. -/
inductive SameCall : Call → Call → Prop
  | process (pkt : ParsedPacket) : SameCall (.process pkt) (.process pkt)
  | timerSweep (nowUs : Int64) (order order' : MapOrder) :
    SameCall (.timerSweep nowUs order) (.timerSweep nowUs order')
  | drainAll (nowUs : Int64) (order order' : MapOrder) :
    SameCall (.drainAll nowUs order) (.drainAll nowUs order')

/-- The packet of an observation, when it was dropped at the limit. -/
def droppedPacket : Observation → Option ParsedPacket
  | .counted _ => none
  | .dropped pkt _ => some pkt
  | .emitted _ _ => none

/-- The packets dropped for `max_flows`, in order. -/
def droppedPackets (trace : List Observation) : List ParsedPacket :=
  trace.filterMap droppedPacket

/-- What a run without drops means for one key: a function of the calls and
of the time of the last heartbeat alone. -/
def flowInputs (cfg : AppConfig) (key : FlowKey) : Int64 → List Call → List LifeInput
  | _,[] => []
  | lastUs,.process pkt::calls =>
    if keyFromPacket pkt=key then .packet pkt::flowInputs cfg key lastUs calls
    else flowInputs cfg key lastUs calls
  | lastUs,.timerSweep nowUs _::calls =>
    let due := heartbeatDue cfg nowUs lastUs
    .sweep nowUs due::flowInputs cfg key (if due=true then nowUs else lastUs) calls
  | lastUs,.drainAll nowUs _::calls => .drain nowUs::flowInputs cfg key lastUs calls

/-- Packets of other flows contribute nothing. -/
theorem flowInputs_isolated (cfg : AppConfig) (key : FlowKey) (lastUs : Int64)
    (calls : List Call) :
    flowInputs cfg key lastUs (isolated key calls)=flowInputs cfg key lastUs calls := by
  unfold isolated
  induction calls generalizing lastUs with
  | nil => rfl
  | cons call calls ih =>
    cases call with
    | process pkt =>
      by_cases hk : keyFromPacket pkt=key
      · rw [List.filter_cons_of_pos (by simpa [concerns] using hk),flowInputs,flowInputs,
          if_pos hk,if_pos hk,ih]
      · rw [List.filter_cons_of_neg (by simpa [concerns] using hk),flowInputs,if_neg hk,ih]
    | timerSweep nowUs order =>
      rw [List.filter_cons_of_pos rfl,flowInputs,flowInputs,ih]
    | drainAll nowUs order =>
      rw [List.filter_cons_of_pos rfl,flowInputs,flowInputs,ih]

/-- Iteration orders contribute nothing. -/
theorem flowInputs_same (cfg : AppConfig) (key : FlowKey) {calls calls' : List Call}
    (h : List.Forall₂ SameCall calls calls') (lastUs : Int64) :
    flowInputs cfg key lastUs calls=flowInputs cfg key lastUs calls' := by
  induction h generalizing lastUs with
  | nil => rfl
  | cons hcall _ ih => cases hcall <;> simp only [flowInputs,ih]

section Runs

variable {σ : Type} (cfg : AppConfig) (onEvent : EventCallback σ)

/-- The drops of a run are those of its first call and of the rest. -/
theorem droppedPackets_cons (t : FlowTable σ) (call : Call) (calls : List Call) :
    droppedPackets ((tableMachine cfg onEvent).trace t (call::calls))=
      droppedPackets ((tableMachine cfg onEvent).step t call).2++
        droppedPackets ((tableMachine cfg onEvent).trace
          ((tableMachine cfg onEvent).step t call).1 calls) := by
  rw [Machine.trace_cons,droppedPackets,List.filterMap_append]
  rfl

/-- A packet is dropped exactly when it is refused. -/
theorem process_drops (pkt : ParsedPacket) (t : FlowTable σ) :
    droppedPackets (process cfg onEvent pkt t).2=
      if refuses cfg pkt t=true then [pkt] else [] := by
  have heffect := process_effect cfg onEvent pkt t
  generalize (process cfg onEvent pkt t).1.flows=flows,
    (process cfg onEvent pkt t).2=seen at heffect ⊢
  cases heffect with
  | refused hrefuses _ => rw [hrefuses]; rfl
  | opened hrefuses _ _ => rw [hrefuses]; rfl
  | updated _ hrefuses _ _ => rw [hrefuses]; rfl
  | closed _ hrefuses _ _ _ => rw [hrefuses]; rfl

/-- What handles no packet drops none. -/
theorem droppedPackets_unhandled {seen : List Observation} (h : seen.filterMap handled=[]) :
    droppedPackets seen=[] := by
  rw [droppedPackets,List.filterMap_eq_nil_iff]
  intro o ho
  have hnone := List.filterMap_eq_nil_iff.mp h o ho
  cases o with
  | counted pkt => rfl
  | dropped pkt warned => cases hnone
  | emitted evt accepted => rfl

/-- A call that offers no packet drops none. -/
theorem call_drops {call : Call} (h : offered call=none) (t : FlowTable σ) :
    droppedPackets ((tableMachine cfg onEvent).step t call).2=[] := by
  refine droppedPackets_unhandled ?_
  rw [call_handled,h]
  rfl

/-- A run that drops nothing feeds every key what the calls alone determine. -/
theorem feed_eq_flowInputs (key : FlowKey) (t : FlowTable σ) (calls : List Call)
    (hkept : droppedPackets ((tableMachine cfg onEvent).trace t calls)=[]) :
    (tableMachine cfg onEvent).feed (lifeInputs cfg key) t calls=
      flowInputs cfg key t.lastHeartbeatUs calls := by
  induction calls generalizing t with
  | nil => rfl
  | cons call calls ih =>
    rw [droppedPackets_cons,List.append_eq_nil_iff] at hkept
    obtain ⟨hcall,hrest⟩ := hkept
    rw [Machine.feed,ih _ hrest]
    cases call with
    | process pkt =>
      rw [step_process,process_drops] at hcall
      have hrefuses : refuses cfg pkt t=false := by
        rw [Bool.eq_false_iff]
        intro h
        rw [if_pos h] at hcall
        cases hcall
      rw [step_process,process_lastHeartbeatUs,flowInputs,lifeInputs]
      by_cases hk : keyFromPacket pkt=key
      · rw [if_pos ⟨hk,hrefuses⟩,if_pos hk,List.singleton_append]
      · rw [if_neg (fun h => hk h.1),if_neg hk,List.nil_append]
    | timerSweep nowUs order =>
      rw [step_timerSweep,timerSweep_lastHeartbeatUs]
      rfl
    | drainAll nowUs order =>
      rw [step_drainAll,drainAll,(drainLoop_same ..).heartbeat]
      rfl

/-- The table holds no flow but `key`. -/
def OnlyKey (key : FlowKey) (flows : FlowMap) : Prop :=
  ∀ other,other≠key → flows.lookup other=none

/-- Calls that concern one key keep the other keys out of the table. -/
theorem call_onlyKey {key : FlowKey} {t : FlowTable σ} (hkeyed : Keyed t.flows)
    (honly : OnlyKey key t.flows) {call : Call} (hcall : concerns key call=true) :
    OnlyKey key ((tableMachine cfg onEvent).step t call).1.flows := by
  intro other hother
  rw [←(call_project cfg onEvent t call hkeyed other).1,honly other hother]
  cases call with
  | process pkt =>
    rw [concerns,decide_eq_true_eq] at hcall
    rw [lifeInputs,if_neg (fun h => hother (h.1.symm.trans hcall)),Machine.final_nil]
  | timerSweep nowUs order => rfl
  | drainAll nowUs order => rfl

/-- Without an entry for its own key such a table is empty. -/
theorem OnlyKey.entries_nil {key : FlowKey} {flows : FlowMap} (honly : OnlyKey key flows)
    (hnone : flows.lookup key=none) : flows.entries=[] := by
  refine List.eq_nil_iff_forall_not_mem.mpr fun e he => ?_
  have habsent : flows.lookup e.1=none := by
    by_cases hk : e.1=key
    · rw [hk,hnone]
    · exact honly e.1 hk
  exact AList.lookup_eq_none.mp habsent (List.mem_keys_of_mem he)

/-- A single flow is never refused under a positive limit. -/
theorem isolated_drops (hlimit : 0<cfg.maxFlows) {key : FlowKey} (t : FlowTable σ)
    (hkeyed : Keyed t.flows) (honly : OnlyKey key t.flows) (calls : List Call)
    (hcalls : ∀ call∈calls,concerns key call=true) :
    droppedPackets ((tableMachine cfg onEvent).trace t calls)=[] := by
  induction calls generalizing t with
  | nil => rfl
  | cons call calls ih =>
    have hcall := hcalls call List.mem_cons_self
    have hrest := ih _ (call_keyed cfg onEvent t call hkeyed)
      (call_onlyKey cfg onEvent hkeyed honly hcall)
      fun c hc => hcalls c (List.mem_cons_of_mem _ hc)
    rw [droppedPackets_cons,hrest,List.append_nil]
    cases call with
    | process pkt =>
      rw [concerns,decide_eq_true_eq] at hcall
      rw [step_process,process_drops,if_neg]
      intro hrefuses
      rw [refuses,hcall,Bool.and_eq_true,Option.isNone_iff_eq_none] at hrefuses
      obtain ⟨hnone,hfull⟩ := hrefuses
      rw [tableFull,honly.entries_nil hnone,List.length_nil,decide_eq_true_eq] at hfull
      exact absurd hlimit (Int32.not_lt.mpr hfull)
    | timerSweep nowUs order => exact call_drops cfg onEvent rfl t
    | drainAll nowUs order => exact call_drops cfg onEvent rfl t

/-- Without a positive limit the table stays empty and drops every packet. -/
theorem kept_offers_nothing (hlimit : ¬0<cfg.maxFlows) {t : FlowTable σ}
    (hempty : t.flows.entries=[]) (calls : List Call)
    (hkept : droppedPackets ((tableMachine cfg onEvent).trace t calls)=[]) :
    calls.filterMap offered=[] := by
  induction calls generalizing t with
  | nil => rfl
  | cons call calls ih =>
    rw [droppedPackets_cons,List.append_eq_nil_iff] at hkept
    obtain ⟨hcall,hrest⟩ := hkept
    cases call with
    | process pkt =>
      have hnone : t.flows.lookup (keyFromPacket pkt)=none := by
        rw [AList.lookup_eq_none]
        show keyFromPacket pkt∉t.flows.entries.keys
        rw [hempty]
        exact List.not_mem_nil
      have hfull : tableFull cfg t.flows=true := by
        rw [tableFull,hempty,List.length_nil,decide_eq_true_eq]
        exact Int32.not_lt.mp hlimit
      rw [step_process,process_drops,refuses,hnone,hfull] at hcall
      cases hcall
    | timerSweep nowUs order =>
      exact ih (timerSweep_empty cfg onEvent nowUs order hempty).1 hrest
    | drainAll nowUs order => exact ih (drainAll_entries onEvent nowUs order t) hrest

/-- Related runs keep or delete the same calls. -/
theorem same_concerns {key : FlowKey} {calls calls' : List Call}
    (h : List.Forall₂ SameCall calls calls') (hcalls : ∀ call∈calls,concerns key call=true) :
    ∀ call∈calls',concerns key call=true := by
  induction h with
  | nil => exact hcalls
  | cons hcall _ ih =>
    have hhead := hcalls _ List.mem_cons_self
    have htail := ih fun c hc => hcalls c (List.mem_cons_of_mem _ hc)
    intro c hc
    rcases List.mem_cons.mp hc with rfl | hc
    · cases hcall <;> exact hhead
    · exact htail c hc

/-- Related runs offer the same packets. -/
theorem same_offered {calls calls' : List Call} (h : List.Forall₂ SameCall calls calls') :
    calls'.filterMap offered=calls.filterMap offered := by
  induction h with
  | nil => rfl
  | cons hcall _ ih => cases hcall <;> simp only [List.filterMap_cons,offered,ih]

/-- When nothing is dropped with all flows, nothing is dropped with one. -/
theorem isolated_kept {τ : Type} (onEvent' : EventCallback τ) (sink : σ) (sink' : τ)
    (key : FlowKey) {calls calls' : List Call}
    (hkept : droppedPackets (tableTrace cfg onEvent sink calls)=[])
    (hcalls' : List.Forall₂ SameCall (isolated key calls) calls') :
    droppedPackets (tableTrace cfg onEvent' sink' calls')=[] := by
  by_cases hlimit : 0<cfg.maxFlows
  · have honly : OnlyKey key (FlowTable.initial sink').flows := fun _ _ => rfl
    refine isolated_drops cfg onEvent' hlimit _ keyed_empty honly calls' ?_
    exact same_concerns hcalls' fun call hcall => (List.mem_filter.mp hcall).2
  · have hnone := kept_offers_nothing cfg onEvent hlimit rfl calls hkept
    refine droppedPackets_unhandled ?_
    rw [run_handled,same_offered hcalls',List.filterMap_eq_nil_iff]
    intro call hcall
    exact List.filterMap_eq_nil_iff.mp hnone call (List.mem_filter.mp hcall).1

/-- Below the limit, the events of a key and its final entry are those of the
run without the packets of other flows, whatever the iteration orders and the
callbacks of the two runs. -/
theorem flows_isolated {τ : Type} (onEvent' : EventCallback τ) (sink : σ) (sink' : τ)
    (key : FlowKey) (calls calls' : List Call)
    (hkept : droppedPackets (tableTrace cfg onEvent sink calls)=[])
    (hcalls' : List.Forall₂ SameCall (isolated key calls) calls') :
    (tableTrace cfg onEvent sink calls).filterMap (emittedFor key)=
        (tableTrace cfg onEvent' sink' calls').filterMap (emittedFor key) ∧
      (tableAfter cfg onEvent sink calls).flows.lookup key=
        (tableAfter cfg onEvent' sink' calls').flows.lookup key := by
  have hkept' := isolated_kept cfg onEvent onEvent' sink sink' key hkept hcalls'
  have hfeed := feed_eq_flowInputs cfg onEvent key (.initial sink) calls hkept
  have hfeed' := feed_eq_flowInputs cfg onEvent' key (.initial sink') calls' hkept'
  have hinputs : flowInputs cfg key 0 calls=flowInputs cfg key 0 calls' := by
    rw [←flowInputs_isolated cfg key 0 calls,flowInputs_same cfg key hcalls']
  obtain ⟨hfinal,htrace⟩ := run_project cfg onEvent (.initial sink) keyed_empty calls key
  obtain ⟨hfinal',htrace'⟩ := run_project cfg onEvent' (.initial sink') keyed_empty calls' key
  rw [hfeed] at hfinal htrace
  rw [hfeed'] at hfinal' htrace'
  constructor
  · rw [emittedFor_eq_view,emittedFor_eq_view,←htrace,←htrace']
    exact congrArg (fun inputs => ((lifeMachine cfg key).trace none inputs).filterMap eventOf)
      hinputs
  · rw [←hfinal,←hfinal']
    exact congrArg ((lifeMachine cfg key).final none) hinputs

end Runs

/-- Visits the entries from the last to the first. -/
def reversedOrder : MapOrder := ⟨fun flows => flows.entries.reverse,fun _ => List.reverse_perm _⟩

/-- Two flows with a heartbeat and a drain, compared with one of them alone
under another iteration order and a callback that refuses everything. -/
theorem flows_isolated_heartbeat :
    let first : ParsedPacket := {srcPort := 1,wireLength := 60,timestampUs := 1000000}
    let other : ParsedPacket := {srcPort := 2,wireLength := 70,timestampUs := 2000000}
    let calls : List Call := [.process first,.process other,.timerSweep 31000000 .stored,
      .drainAll 40000000 .stored]
    (tableTrace {} (fun _ s => (true,s)) () calls).filterMap (emittedFor (keyFromPacket first))=
      (tableTrace {} (fun _ s => (false,s)) () [.process first,
        .timerSweep 31000000 reversedOrder,.drainAll 40000000 reversedOrder]).filterMap
          (emittedFor (keyFromPacket first)) :=
  (flows_isolated {} (fun _ s => (true,s)) (fun _ s => (false,s)) () () _ _ _ (by decide)
    (.cons (.process _) (.cons (.timerSweep _ _ _) (.cons (.drainAll _ _ _) .nil)))).1

end PacketPipe.FlowIsolation

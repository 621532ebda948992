import PacketPipe.FlowTableMetrics

/-!
# Replaying a file under any timing of the sweeps

While a file is replayed, the timer thread sweeps the table between packets
with the wall clock, though the entries carry the times of the file. A replay
is compared with the one without sweeps: as long as no sweep expires a flow
that the file continues, and no packet finds room only because sweeps made
some, the entries of the latter are those of the former and the flows that the
sweeps ended.
-/

namespace PacketPipe.ReplayTiming

open FlowEvents ConfigParserModel ObservedMachines FlowTableModel FlowLifetimes FlowAccounting
open FlowTableEntries FlowTableMetrics

/-- What reaches the table during `run` on a file. -/
inductive ReplayInput
  /-- The next packet that was decoded. -/
  | packet (pkt : ParsedPacket)
  /-- The timer thread sweeps, at the time of the wall clock. -/
  | sweep (nowUs : Int64) (order : MapOrder)

/-- The call on the table. -/
def ReplayInput.call : ReplayInput → Call
  | .packet pkt => .process pkt
  | .sweep nowUs order => .timerSweep nowUs order

/-- The packet, if it is one. -/
def ReplayInput.read : ReplayInput → Option ParsedPacket
  | .packet pkt => some pkt
  | .sweep _ _ => none

/-- The packets of the file, in order. -/
def filePackets (inputs : List ReplayInput) : List ParsedPacket :=
  inputs.filterMap ReplayInput.read

/-- The keys that the rest of the file mentions. -/
def laterKeys (inputs : List ReplayInput) : List FlowKey := (filePackets inputs).map keyFromPacket

/-- The table during a replay. -/
def replayMachine {σ : Type} (cfg : AppConfig) (onEvent : EventCallback σ) :
    Machine (FlowTable σ) ReplayInput Observation where
  step t input := (tableMachine cfg onEvent).step t input.call

/-- One execution on a file: packets and sweeps, then `drain_all`. -/
structure Replay where
  /-- Packets and sweeps in the order in which they take the mutex. -/
  inputs : List ReplayInput
  /-- The time of the drain. -/
  drainUs : Int64
  /-- The order in which the drain meets the entries. -/
  drainOrder : MapOrder

/-- What an End event says of its flow. -/
structure FlowRecord where
  /-- `key`. -/
  key : FlowKey
  /-- `start_us`. -/
  startUs : Int64
  /-- `packet_count`. -/
  packetCount : UInt64
  /-- `byte_count`. -/
  byteCount : UInt64
  deriving DecidableEq

/-- The record of a flow that ended. -/
def flowRecord (state : FlowState) : FlowRecord :=
  ⟨state.key,state.startUs,state.packetCount,state.byteCount⟩

section Replays

variable {σ τ : Type} (cfg : AppConfig) (onEvent : EventCallback σ) (onEvent' : EventCallback τ)

/-- The records of all End events of an execution, up to the drain. -/
def replayRecords (sink : σ) (run : Replay) : List FlowRecord :=
  let t := (replayMachine cfg onEvent).final (.initial sink) run.inputs
  let seen := (replayMachine cfg onEvent).trace (.initial sink) run.inputs
  (flowRecords (seen++(drainAll onEvent run.drainUs run.drainOrder t).2)).map flowRecord

/-- The file alone decides about the flows in this step: a sweep expires only
flows that the rest of the file does not mention, and a packet of an unknown
flow is admitted or dropped as if the flows that expired so far were still in
the table. -/
def FileDecides (t : FlowTable σ) (input : ReplayInput) (rest : List ReplayInput) : Prop :=
  match input with
  | .packet pkt => t.flows.lookup (keyFromPacket pkt)=none →
      tableFull cfg t.flows=
        decide (cfg.maxFlows≤Int32.ofNat (t.flows.entries.length+t.metrics.flowsExpiredIdle))
  | .sweep nowUs _ => ∀ e∈t.flows.entries,idleDue cfg nowUs e.2=true → e.1∉laterKeys rest

/-- The condition can be checked. -/
instance decidableFileDecides (t : FlowTable σ) (input : ReplayInput) (rest : List ReplayInput) :
    Decidable (FileDecides cfg t input rest) :=
  match input with
  | .packet _ => inferInstanceAs (Decidable (_ → _))
  | .sweep _ _ => inferInstanceAs (Decidable (∀ e∈t.flows.entries,_))

@[simp] theorem step_packet (t : FlowTable σ) (pkt : ParsedPacket) :
    (replayMachine cfg onEvent).step t (.packet pkt)=process cfg onEvent pkt t := rfl

@[simp] theorem step_sweep (t : FlowTable σ) (nowUs : Int64) (order : MapOrder) :
    (replayMachine cfg onEvent).step t (.sweep nowUs order)=
      timerSweep cfg onEvent nowUs order t := rfl

/-- What a packet leaves of its own flow, from the entry found: the entry
stored and the record of a flow torn down. -/
def ownFlow (pkt : ParsedPacket) (full : Bool) : Option FlowState → Option FlowState×List FlowState
  | none => (if full=true then none else some (firstState (keyFromPacket pkt) pkt),[])
  | some state =>
    if tearsDown pkt=true then (none,[countPacket state pkt]) else (some (countPacket state pkt),[])

/-- `process` changes the flow of the packet and keeps the others. -/
theorem process_ownFlow (pkt : ParsedPacket) (t : FlowTable σ) :
    (process cfg onEvent pkt t).1.flows.entries=
        ((ownFlow pkt (tableFull cfg t.flows) (t.flows.lookup (keyFromPacket pkt))).1.map
            fun state => (⟨keyFromPacket pkt,state⟩ : FlowEntry)).toList++
          (t.flows.erase (keyFromPacket pkt)).entries ∧
      flowRecords (process cfg onEvent pkt t).2=
        (ownFlow pkt (tableFull cfg t.flows) (t.flows.lookup (keyFromPacket pkt))).2 := by
  have heffect := process_effect cfg onEvent pkt t
  generalize (process cfg onEvent pkt t).1.flows=flows,
    (process cfg onEvent pkt t).2=seen at heffect ⊢
  cases heffect with
  | refused hrefuses hlookup =>
    rw [refuses,hlookup] at hrefuses
    rw [hlookup,show tableFull cfg t.flows=true from hrefuses]
    refine ⟨?_,rfl⟩
    exact (List.kerase_of_notMem_keys (AList.lookup_eq_none.mp hlookup)).symm
  | opened hrefuses hlookup accepted =>
    rw [refuses,hlookup] at hrefuses
    rw [hlookup,show tableFull cfg t.flows=false from hrefuses]
    exact ⟨rfl,rfl⟩
  | updated state _ hdown hlookup =>
    rw [hlookup,ownFlow,hdown]
    exact ⟨rfl,rfl⟩
  | closed state _ hdown hlookup accepted =>
    rw [hlookup,ownFlow,hdown]
    exact ⟨entries_insert_erase _ _ _,rfl⟩

/-- A packet expires no idle flow. -/
theorem process_flowsExpiredIdle (pkt : ParsedPacket) (t : FlowTable σ) :
    (process cfg onEvent pkt t).1.metrics.flowsExpiredIdle=t.metrics.flowsExpiredIdle := by
  have hnone : (process cfg onEvent pkt t).2.countP (isEnd .idleTimeout)=0 := by
    have heffect := process_effect cfg onEvent pkt t
    generalize (process cfg onEvent pkt t).1.flows=flows,
      (process cfg onEvent pkt t).2=seen at heffect ⊢
    cases heffect <;> rfl
  rw [(process_tallies cfg onEvent pkt t).idle,hnone]
  rfl

/-- A sweep counts the flows that it expires. -/
theorem timerSweep_flowsExpiredIdle (nowUs : Int64) (order : MapOrder) (t : FlowTable σ) :
    (timerSweep cfg onEvent nowUs order t).1.metrics.flowsExpiredIdle=
      t.metrics.flowsExpiredIdle+
        (t.flows.entries.filter fun e => idleDue cfg nowUs e.2).length := by
  have htallies := call_tallies cfg onEvent t (.timerSweep nowUs order)
  have hidle := upkeep_idle (timerSweep_upkeep cfg onEvent nowUs order t)
  have hended := (timerSweep_ended cfg onEvent nowUs order t).length_eq
  rw [List.length_map] at hended
  rw [←hended,←hidle]
  exact htallies.idle

/-- The keys that the rest of the file mentions, after a packet. -/
theorem laterKeys_packet (pkt : ParsedPacket) (rest : List ReplayInput) :
    laterKeys (.packet pkt::rest)=keyFromPacket pkt::laterKeys rest := rfl

/-- A table swept so far, `t`, beside one that was never swept, `r`: the latter
also holds the flows that the sweeps ended, and the file mentions none of them
again. -/
structure Beside (t : FlowTable σ) (r : FlowTable τ) (gone : List FlowEntry)
    (later : List FlowKey) : Prop where
  /-- The entries of the table never swept. -/
  live : r.flows.entries.Perm (t.flows.entries++gone)
  /-- Flows that ended stay ended. -/
  ended : ∀ e∈gone,e.1∉later
  /-- The counter of idle flows. -/
  count : t.metrics.flowsExpiredIdle=gone.length

section Steps

variable {cfg} {t : FlowTable σ} {r : FlowTable τ} {gone : List FlowEntry} {later : List FlowKey}

/-- A key that no ended flow has leads to the same entry in both tables. -/
theorem Beside.lookup (h : Beside t r gone later) {key : FlowKey} (hkey : ∀ e∈gone,e.1≠key) :
    r.flows.lookup key=t.flows.lookup key := by
  refine Option.ext fun state => ?_
  change state∈r.flows.entries.dlookup key ↔ state∈t.flows.entries.dlookup key
  rw [List.mem_dlookup_iff r.flows.nodupKeys,List.mem_dlookup_iff t.flows.nodupKeys,
    h.live.mem_iff,List.mem_append,or_iff_left]
  exact fun hmem => hkey _ hmem rfl

/-- Without that key the tables still differ by the ended flows. -/
theorem Beside.erase (h : Beside t r gone later) {key : FlowKey} (hkey : ∀ e∈gone,e.1≠key) :
    (r.flows.erase key).entries.Perm ((t.flows.erase key).entries++gone) := by
  have habsent : key∉gone.keys := fun hmem => by
    obtain ⟨e,he,rfl⟩ := List.mem_map.mp hmem
    exact hkey e he rfl
  have herased : (t.flows.entries++gone).kerase key=t.flows.entries.kerase key++gone := by
    by_cases hmem : key∈t.flows.entries.keys
    · exact List.kerase_append_left hmem
    · rw [List.kerase_append_right hmem,List.kerase_of_notMem_keys habsent,
        List.kerase_of_notMem_keys hmem]
  have hperm := h.live.kerase (a := key) r.flows.nodupKeys
  rwa [herased] at hperm

/-- Both tables treat the next packet alike; only an unknown flow asks whether there
is room. -/
theorem Beside.packet {pkt : ParsedPacket} {rest : List ReplayInput}
    (h : Beside t r gone (laterKeys (.packet pkt::rest)))
    (hfree : FileDecides cfg t (.packet pkt) rest) :
    Beside (process cfg onEvent pkt t).1 (process cfg onEvent' pkt r).1 gone (laterKeys rest) ∧
      flowRecords (process cfg onEvent' pkt r).2=flowRecords (process cfg onEvent pkt t).2 := by
  have hended := h.ended
  rw [laterKeys_packet] at hended
  have hnext : ∀ e∈gone,e.1≠keyFromPacket pkt ∧ e.1∉laterKeys rest :=
    fun e he => List.ne_and_not_mem_of_not_mem_cons (hended e he)
  have hkey : ∀ e∈gone,e.1≠keyFromPacket pkt := fun e he => (hnext e he).1
  have hlookup := h.lookup hkey
  have hown : ownFlow pkt (tableFull cfg r.flows) (r.flows.lookup (keyFromPacket pkt))=
      ownFlow pkt (tableFull cfg t.flows) (t.flows.lookup (keyFromPacket pkt)) := by
    rw [hlookup]
    cases hfound : t.flows.lookup (keyFromPacket pkt) with
    | some state => simp only [ownFlow]
    | none =>
      have hsize := h.live.length_eq
      rw [List.length_append,←h.count] at hsize
      have hfull : tableFull cfg r.flows=tableFull cfg t.flows := by
        rw [hfree hfound]
        exact congrArg (fun n => decide (cfg.maxFlows≤Int32.ofNat n)) hsize
      rw [hfull]
  obtain ⟨hentries,hrecords⟩ := process_ownFlow cfg onEvent pkt t
  obtain ⟨hentries',hrecords'⟩ := process_ownFlow cfg onEvent' pkt r
  refine ⟨⟨?_,fun e he => (hnext e he).2,?_⟩,?_⟩
  · rw [hentries,hentries',hown,List.append_assoc]
    exact (h.erase hkey).append_left _
  · rw [process_flowsExpiredIdle]
    exact h.count
  · rw [hrecords,hrecords',hown]

/-- A sweep ends flows that the file does not mention again. -/
theorem Beside.sweep {nowUs : Int64} {order : MapOrder} {rest : List ReplayInput}
    (h : Beside t r gone (laterKeys rest)) (hfree : FileDecides cfg t (.sweep nowUs order) rest) :
    Beside (timerSweep cfg onEvent nowUs order t).1 r
      (gone++t.flows.entries.filter fun e => idleDue cfg nowUs e.2) (laterKeys rest) := by
  have hkept := timerSweep_entries cfg onEvent nowUs order t
  have hsplit := List.filter_append_perm (fun e => idleDue cfg nowUs e.2) t.flows.entries
  constructor
  · refine List.perm_iff_count.mpr fun e => ?_
    have hlive := h.live.count_eq e
    have hcount := hsplit.count_eq e
    simp only [List.count_append,hkept.count_eq e] at hlive hcount ⊢
    omega
  · refine List.forall_mem_append.mpr ⟨h.ended,fun e he => ?_⟩
    obtain ⟨hmem,hdue⟩ := List.mem_filter.mp he
    exact hfree e hmem hdue
  · rw [timerSweep_flowsExpiredIdle,List.length_append,h.count]

end Steps

/-- The same packets without sweeps. -/
def sweepless (inputs : List ReplayInput) : List ReplayInput := (filePackets inputs).map .packet

theorem sweepless_packet (pkt : ParsedPacket) (rest : List ReplayInput) :
    sweepless (.packet pkt::rest)=.packet pkt::sweepless rest := rfl

/-- A whole replay keeps the tables side by side, and its records are those of
the replay without sweeps and the flows that ended. -/
theorem replay_beside {t : FlowTable σ} {r : FlowTable τ} {gone : List FlowEntry}
    {inputs : List ReplayInput} (h : Beside t r gone (laterKeys inputs))
    (hfree : (replayMachine cfg onEvent).AlongRest (FileDecides cfg) t inputs) :
    ∃ gone',Beside ((replayMachine cfg onEvent).final t inputs)
        ((replayMachine cfg onEvent').final r (sweepless inputs)) gone' [] ∧
      (flowRecords ((replayMachine cfg onEvent).trace t inputs)++gone.map Sigma.snd).Perm
        (flowRecords ((replayMachine cfg onEvent').trace r (sweepless inputs))++
          gone'.map Sigma.snd) := by
  induction inputs generalizing t r gone with
  | nil => exact ⟨gone,h,List.Perm.refl _⟩
  | cons input rest ih =>
    obtain ⟨hfirst,hrest⟩ := hfree
    cases input with
    | packet pkt =>
      obtain ⟨hnext,hrecords⟩ := h.packet onEvent onEvent' hfirst
      obtain ⟨gone',hfinal,hperm⟩ := ih hnext hrest
      refine ⟨gone',hfinal,?_⟩
      rw [sweepless_packet,Machine.trace_cons,Machine.trace_cons,step_packet,step_packet,
        flowRecords_append,flowRecords_append,hrecords,List.append_assoc,List.append_assoc]
      exact hperm.append_left _
    | sweep nowUs order =>
      obtain ⟨gone',hfinal,hperm⟩ := ih (h.sweep onEvent hfirst) hrest
      refine ⟨gone',hfinal,List.Perm.trans ?_ hperm⟩
      have hended := timerSweep_ended cfg onEvent nowUs order t
      rw [Machine.trace_cons,step_sweep,flowRecords_append,List.map_append]
      refine List.perm_iff_count.mpr fun state => ?_
      simp only [List.count_append,hended.count_eq state]
      omega

/-- Where the file decides, an execution has the records of any execution
without sweeps. -/
theorem replay_sweepless (sink : σ) (sink' : τ) (run : Replay) (drainUs : Int64)
    (drainOrder : MapOrder)
    (hfree : (replayMachine cfg onEvent).AlongRest (FileDecides cfg) (.initial sink) run.inputs) :
    (replayRecords cfg onEvent sink run).Perm
      (replayRecords cfg onEvent' sink' ⟨sweepless run.inputs,drainUs,drainOrder⟩) := by
  have hinitial : Beside (FlowTable.initial sink) (FlowTable.initial sink') []
      (laterKeys run.inputs) := ⟨List.Perm.refl _,List.forall_mem_nil _,rfl⟩
  obtain ⟨gone,hfinal,hrecords⟩ := replay_beside cfg onEvent onEvent' hinitial hfree
  have hdrain := drainAll_records onEvent run.drainUs run.drainOrder
    ((replayMachine cfg onEvent).final (.initial sink) run.inputs)
  have hdrain' := drainAll_records onEvent' drainUs drainOrder
    ((replayMachine cfg onEvent').final (.initial sink') (sweepless run.inputs))
  have hlive := hfinal.live.map Sigma.snd
  unfold replayRecords
  dsimp only
  rw [flowRecords_append,flowRecords_append]
  refine List.Perm.map flowRecord (List.perm_iff_count.mpr fun state => ?_)
  have hrecordsCount := hrecords.count_eq state
  have hliveCount := hlive.count_eq state
  simp only [List.map_append,List.map_nil,List.count_append,List.count_nil,hdrain.count_eq state,
    hdrain'.count_eq state] at hrecordsCount hliveCount ⊢
  omega

/-- Two executions on the same file end with the same flow records, in some
order, when in both of them the file alone decides about its flows: no sweep
expires a flow that the rest of the file mentions, and no packet is admitted
only because a sweep made room. The records are then those of an execution
without sweeps, so that no flow is split by the idle timeout. -/
theorem same_flows (sink : σ) (sink' : τ) (first second : Replay)
    (hfile : filePackets first.inputs=filePackets second.inputs)
    (hfirst : (replayMachine cfg onEvent).AlongRest (FileDecides cfg) (.initial sink) first.inputs)
    (hsecond : (replayMachine cfg onEvent').AlongRest (FileDecides cfg) (.initial sink')
      second.inputs) :
    (replayRecords cfg onEvent sink first).Perm (replayRecords cfg onEvent' sink' second) ∧
      (replayRecords cfg onEvent sink first).Perm
        (replayRecords cfg onEvent sink {first with inputs := sweepless first.inputs}) := by
  have hreference := replay_sweepless cfg onEvent' onEvent sink' sink second first.drainUs
    first.drainOrder hsecond
  have hown := replay_sweepless cfg onEvent onEvent sink sink first first.drainUs
    first.drainOrder hfirst
  have hsame : sweepless first.inputs=sweepless second.inputs := congrArg (List.map _) hfile
  rw [←hsame] at hreference
  exact ⟨hown.trans hreference.symm,hown⟩

end Replays

/-- A datagram of a flow captured in September 2001. -/
def oldPacket : ParsedPacket :=
  {srcPort := 53,protocol := ipprotoUdp,wireLength := 60,timestampUs := 1000000000000000}

/-- The next datagram of the flow, a second later. -/
def nextPacket : ParsedPacket := {oldPacket with timestampUs := 1000000001000000}

/-- A sweep in November 2023 after both packets. -/
def lateSweep : Replay :=
  ⟨[.packet oldPacket,.packet nextPacket,.sweep 1700000000000000 .stored],1700000000500000,.stored⟩

/-- The same sweep between the packets. -/
def earlySweep : Replay :=
  ⟨[.packet oldPacket,.sweep 1700000000000000 .stored,.packet nextPacket],1700000000500000,.stored⟩

/-- The same sweep before both packets. -/
def leadingSweep : Replay :=
  ⟨[.sweep 1700000000000000 .stored,.packet oldPacket,.packet nextPacket],1700000000500000,.stored⟩

/-- A sweep at the end makes the same records as one at the start, and as none. -/
theorem same_flows_late :
    (replayRecords {} (fun _ s => (true,s)) () lateSweep).Perm
        (replayRecords {} (fun _ s => (true,s)) () leadingSweep) ∧
      (replayRecords {} (fun _ s => (true,s)) () lateSweep).Perm
        (replayRecords {} (fun _ s => (true,s)) ()
          {lateSweep with inputs := sweepless lateSweep.inputs}) :=
  same_flows {} (fun _ s => (true,s)) (fun _ s => (true,s)) () () lateSweep leadingSweep rfl
    (by decide) (by decide)

/-- A sweep between two packets of one second splits their flow in two. -/
theorem sweep_splits_flow :
    filePackets earlySweep.inputs=filePackets lateSweep.inputs ∧
      (replayRecords {} (fun _ s => (true,s)) () lateSweep).map FlowRecord.packetCount=[2] ∧
      (replayRecords {} (fun _ s => (true,s)) () earlySweep).map FlowRecord.packetCount=[1,1] ∧
      ¬(replayRecords {} (fun _ s => (true,s)) () earlySweep).Perm
        (replayRecords {} (fun _ s => (true,s)) () lateSweep) := by
  refine ⟨by decide,by decide,by decide,fun h => ?_⟩
  exact absurd h.length_eq (by decide)

end PacketPipe.ReplayTiming

import PacketPipe.ReplayTiming

/-!
# Which files are replayed alike under any timing

The number of flow records of an execution is the number of flows that its
packets open. With a sweep before every packet each packet opens a flow of its
own, without sweeps only the first packet of a flow does. So the timing of the
sweeps makes no difference exactly for the files in which no two packets belong
to one flow and all flows fit into the table at once.
-/

namespace PacketPipe.ReplayFiles

open FlowEvents ConfigParserModel ObservedMachines FlowTableModel FlowLifetimes FlowAccounting
open FlowTableEntries FlowTableMetrics ReplayTiming

section Openings

variable {σ : Type} (cfg : AppConfig) (onEvent : EventCallback σ)

/-- A replay makes the calls of its inputs. -/
theorem step_call (t : FlowTable σ) (input : ReplayInput) :
    (replayMachine cfg onEvent).step t input=(tableMachine cfg onEvent).step t input.call := rfl

/-- What a packet means for the flows of a file. -/
inductive Opening (pkt : ParsedPacket) (t : FlowTable σ) (flows : FlowMap)
    (seen : List Observation) : Prop
  /-- It opens one. -/
  | opened (hlookup : t.flows.lookup (keyFromPacket pkt)=none) (hroom : tableFull cfg t.flows=false)
      (hentries : flows.entries=
        ⟨keyFromPacket pkt,firstState (keyFromPacket pkt) pkt⟩::t.flows.entries)
      (hstarts : seen.countP isStart=1)
  /-- It belongs to a known flow or is dropped. -/
  | unopened (hstarts : seen.countP isStart=0)
      (hwhy : keyFromPacket pkt∈t.flows ∨ tableFull cfg t.flows=true)

/-- Every packet opens one flow or none. -/
theorem process_opening (pkt : ParsedPacket) (t : FlowTable σ) :
    Opening cfg pkt t (process cfg onEvent pkt t).1.flows (process cfg onEvent pkt t).2 := by
  have heffect := process_effect cfg onEvent pkt t
  generalize (process cfg onEvent pkt t).1.flows=flows,
    (process cfg onEvent pkt t).2=seen at heffect ⊢
  cases heffect with
  | refused hrefuses hlookup =>
    rw [refuses,hlookup] at hrefuses
    exact .unopened rfl (.inr hrefuses)
  | opened hrefuses hlookup accepted =>
    rw [refuses,hlookup] at hrefuses
    exact .opened hlookup hrefuses (entries_insert_new hlookup _) rfl
  | updated state _ _ hlookup =>
    exact .unopened rfl (.inl (AList.lookup_isSome.mp (Option.isSome_of_eq_some hlookup)))
  | closed state _ _ hlookup accepted =>
    exact .unopened rfl (.inl (AList.lookup_isSome.mp (Option.isSome_of_eq_some hlookup)))

/-- A packet opens at most one flow. -/
theorem process_starts_le (pkt : ParsedPacket) (t : FlowTable σ) :
    (process cfg onEvent pkt t).2.countP isStart≤1 := by
  cases process_opening cfg onEvent pkt t with
  | opened _ _ _ hstarts => exact hstarts.le
  | unopened hstarts _ => exact hstarts.le.trans (Nat.zero_le 1)

/-- The flows opened during a replay are in the table or have a record. -/
theorem replay_entries (t : FlowTable σ) (inputs : List ReplayInput) :
    ((replayMachine cfg onEvent).final t inputs).flows.entries.length+
        (flowRecords ((replayMachine cfg onEvent).trace t inputs)).length=
      t.flows.entries.length+((replayMachine cfg onEvent).trace t inputs).countP isStart := by
  induction inputs generalizing t with
  | nil => rfl
  | cons input rest ih =>
    have hstep := call_entries cfg onEvent t input.call
    have hrest := ih ((tableMachine cfg onEvent).step t input.call).1
    rw [Machine.final_cons,Machine.trace_cons,step_call,flowRecords_append,List.length_append,
      List.countP_append]
    omega

/-- An execution has one record for each flow that was opened. -/
theorem length_replayRecords (sink : σ) (run : Replay) :
    (replayRecords cfg onEvent sink run).length=
      ((replayMachine cfg onEvent).trace (.initial sink) run.inputs).countP isStart := by
  have hentries := replay_entries cfg onEvent (.initial sink) run.inputs
  have hdrain := (drainAll_records onEvent run.drainUs run.drainOrder
    ((replayMachine cfg onEvent).final (.initial sink) run.inputs)).length_eq
  have hempty : (FlowTable.initial sink).flows.entries.length=0 := rfl
  rw [List.length_map] at hdrain
  unfold replayRecords
  dsimp only
  rw [List.length_map,flowRecords_append,List.length_append,hdrain]
  omega

end Openings

section Extremes

variable {σ : Type} (cfg : AppConfig) (onEvent : EventCallback σ)

/-- A sweep before every packet, always at the same time. -/
def eagerInputs (lateUs : Int64) (pkts : List ParsedPacket) : List ReplayInput :=
  pkts.flatMap fun pkt => [.sweep lateUs .stored,.packet pkt]

/-- No sweep at all. -/
def lazyInputs (pkts : List ParsedPacket) : List ReplayInput := pkts.map .packet

theorem eagerInputs_cons (lateUs : Int64) (pkt : ParsedPacket) (rest : List ParsedPacket) :
    eagerInputs lateUs (pkt::rest)=.sweep lateUs .stored::.packet pkt::eagerInputs lateUs rest :=
  rfl

theorem lazyInputs_cons (pkt : ParsedPacket) (rest : List ParsedPacket) :
    lazyInputs (pkt::rest)=.packet pkt::lazyInputs rest := rfl

theorem filePackets_eager (lateUs : Int64) (pkts : List ParsedPacket) :
    filePackets (eagerInputs lateUs pkts)=pkts := by
  induction pkts with
  | nil => rfl
  | cons pkt rest ih => exact congrArg (pkt::·) ih

theorem filePackets_lazy (pkts : List ParsedPacket) : filePackets (lazyInputs pkts)=pkts := by
  induction pkts with
  | nil => rfl
  | cons pkt rest ih => exact congrArg (pkt::·) ih

/-- A sweep at that time finds the packet's flow idle. -/
def Outdated (lateUs : Int64) (pkt : ParsedPacket) : Prop :=
  idleTimeoutUs cfg≤lateUs-pkt.timestampUs

/-- With a sweep before every packet, every packet opens a flow. -/
theorem eager_starts (hroom : tableFull cfg ∅=false) {pkts : List ParsedPacket} {lateUs : Int64}
    (hclock : ∀ pkt∈pkts,Outdated cfg lateUs pkt) {t : FlowTable σ}
    (hidle : ∀ e∈t.flows.entries,idleDue cfg lateUs e.2=true) :
    ((replayMachine cfg onEvent).trace t (eagerInputs lateUs pkts)).countP isStart=
      pkts.length := by
  induction pkts generalizing t with
  | nil => rfl
  | cons pkt rest ih =>
    obtain ⟨hfirst,hrest⟩ := List.forall_mem_cons.mp hclock
    have hkept := timerSweep_entries cfg onEvent lateUs .stored t
    have hnone : t.flows.entries.filter (fun e => !idleDue cfg lateUs e.2)=[] := by
      refine List.filter_eq_nil_iff.mpr fun e he => ?_
      rw [hidle e he]
      exact Bool.false_ne_true
    rw [hnone] at hkept
    have hempty := hkept.eq_nil
    have hquiet := upkeep_starts (timerSweep_upkeep cfg onEvent lateUs .stored t)
    rw [eagerInputs_cons,Machine.trace_cons,Machine.trace_cons,step_sweep,step_packet,
      List.countP_append,List.countP_append,hquiet]
    generalize (timerSweep cfg onEvent lateUs .stored t).1=swept at hempty ⊢
    have hswept : swept.flows=∅ := AList.ext hempty
    cases process_opening cfg onEvent pkt swept with
    | opened _ _ hentries hstarts =>
      rw [hempty] at hentries
      have hnext : ∀ e∈(process cfg onEvent pkt swept).1.flows.entries,
          idleDue cfg lateUs e.2=true := by
        intro e he
        rw [hentries,List.mem_singleton] at he
        rw [he]
        exact decide_eq_true hfirst
      rw [hstarts,ih hrest hnext,List.length_cons]
      omega
    | unopened _ hwhy =>
      rw [hswept] at hwhy
      rcases hwhy with hknown | hfull
      · exact absurd hknown (AList.notMem_empty _)
      · rw [hroom] at hfull
        cases hfull

/-- No execution opens more flows than the file has packets. -/
theorem lazy_starts_le (t : FlowTable σ) (pkts : List ParsedPacket) :
    ((replayMachine cfg onEvent).trace t (lazyInputs pkts)).countP isStart≤pkts.length := by
  induction pkts generalizing t with
  | nil => exact Nat.le_refl 0
  | cons pkt rest ih =>
    have hfirst := process_starts_le cfg onEvent pkt t
    have hrest := ih (process cfg onEvent pkt t).1
    rw [lazyInputs_cons,Machine.trace_cons,step_packet,List.countP_append,List.length_cons]
    omega

/-- Without sweeps, packets that all open a flow have keys of their own, and
there is room for all of them. -/
theorem lazy_opens_all {pkts : List ParsedPacket} {t : FlowTable σ} (hlimited : Limited cfg t.flows)
    (hall : ((replayMachine cfg onEvent).trace t (lazyInputs pkts)).countP isStart=pkts.length) :
    (pkts.map keyFromPacket).Nodup ∧ (∀ pkt∈pkts,keyFromPacket pkt∉t.flows) ∧
      (t.flows.entries.length+pkts.length : ℤ)≤cfg.maxFlows.toInt := by
  induction pkts generalizing t with
  | nil =>
    refine ⟨List.nodup_nil,List.forall_mem_nil _,?_⟩
    rw [List.length_nil]
    exact (Int.add_zero _).le.trans hlimited
  | cons pkt rest ih =>
    have hatMost := lazy_starts_le cfg onEvent (process cfg onEvent pkt t).1 rest
    rw [lazyInputs_cons,Machine.trace_cons,step_packet,List.countP_append,List.length_cons] at hall
    cases process_opening cfg onEvent pkt t with
    | unopened hstarts _ => omega
    | opened hlookup _ hentries hstarts =>
      have hstored : Limited cfg (process cfg onEvent pkt t).1.flows :=
        call_limited cfg onEvent hlimited (.process pkt)
      obtain ⟨hnodup,hunknown,hfits⟩ := ih hstored (by omega)
      have hkeys : ∀ key,key∈(process cfg onEvent pkt t).1.flows ↔
          key=keyFromPacket pkt ∨ key∈t.flows := by
        intro key
        change key∈(process cfg onEvent pkt t).1.flows.entries.keys ↔ _
        rw [hentries,List.keys_cons,List.mem_cons]
        exact Iff.rfl
      refine ⟨?_,?_,?_⟩
      · refine List.nodup_cons.mpr ⟨fun hmem => ?_,hnodup⟩
        obtain ⟨other,hother,hsame⟩ := List.mem_map.mp hmem
        exact hunknown other hother ((hkeys _).mpr (.inl hsame))
      · refine List.forall_mem_cons.mpr ⟨AList.lookup_eq_none.mp hlookup,fun other hother => ?_⟩
        exact fun hmem => hunknown other hother ((hkeys _).mpr (.inr hmem))
      · rw [hentries,List.length_cons] at hfits
        rw [List.length_cons]
        omega

end Extremes

section Files

variable {σ : Type} (cfg : AppConfig) (onEvent : EventCallback σ)

/-- What is left of the file mentions each key once and none of the table's,
and there is room for all flows, those that expired included. -/
structure Apart (t : FlowTable σ) (rest : List ReplayInput) : Prop where
  /-- No two packets belong to one flow. -/
  nodup : (laterKeys rest).Nodup
  /-- The flows of the table are complete. -/
  complete : ∀ e∈t.flows.entries,e.1∉laterKeys rest
  /-- Everything fits. -/
  fits : (t.flows.entries.length+t.metrics.flowsExpiredIdle+(filePackets rest).length : ℤ)≤
    cfg.maxFlows.toInt

/-- Below the limit there is room. -/
theorem room_below {n : ℕ} (h : (n : ℤ)<cfg.maxFlows.toInt) :
    decide (cfg.maxFlows≤Int32.ofNat n)=false := by
  have hmax := cfg.maxFlows.toInt_lt
  rw [decide_eq_false_iff_not,Int32.le_iff_toInt_le,Int32.toInt_ofNat_of_lt (by omega)]
  omega

/-- The next packet opens a flow. -/
theorem Apart.packet {t : FlowTable σ} {pkt : ParsedPacket} {rest : List ReplayInput}
    (h : Apart cfg t (.packet pkt::rest)) :
    FileDecides cfg t (.packet pkt) rest ∧ Apart cfg (process cfg onEvent pkt t).1 rest := by
  obtain ⟨hnodup,hcomplete,hfits⟩ := h
  rw [laterKeys_packet] at hnodup hcomplete
  obtain ⟨hlast,hnodup⟩ := List.nodup_cons.mp hnodup
  have hfits : (t.flows.entries.length+t.metrics.flowsExpiredIdle+
      ((filePackets rest).length+1 : ℕ) : ℤ)≤cfg.maxFlows.toInt := hfits
  have hroom : tableFull cfg t.flows=false := room_below cfg (by omega)
  have hentries : (process cfg onEvent pkt t).1.flows.entries=
      ⟨keyFromPacket pkt,firstState (keyFromPacket pkt) pkt⟩::t.flows.entries := by
    cases process_opening cfg onEvent pkt t with
    | opened _ _ hentries _ => exact hentries
    | unopened _ hwhy =>
      rcases hwhy with hknown | hfull
      · obtain ⟨e,he,hkey⟩ := List.mem_map.mp hknown
        exact absurd (hkey ▸ List.mem_cons_self) (hcomplete e he)
      · rw [hroom] at hfull
        cases hfull
  constructor
  · intro _
    rw [hroom]
    exact (room_below cfg (by push_cast; omega)).symm
  · refine ⟨hnodup,?_,?_⟩
    · rw [hentries]
      refine List.forall_mem_cons.mpr ⟨hlast,fun e he hmem => ?_⟩
      exact hcomplete e he (List.mem_cons_of_mem _ hmem)
    · rw [hentries,List.length_cons,process_flowsExpiredIdle]
      omega

/-- A sweep expires complete flows only. -/
theorem Apart.sweep {t : FlowTable σ} {nowUs : Int64} {order : MapOrder}
    {rest : List ReplayInput} (h : Apart cfg t (.sweep nowUs order::rest)) :
    FileDecides cfg t (.sweep nowUs order) rest ∧
      Apart cfg (timerSweep cfg onEvent nowUs order t).1 rest := by
  obtain ⟨hnodup,hcomplete,hfits⟩ := h
  have hkept := timerSweep_entries cfg onEvent nowUs order t
  have hsplit := t.flows.entries.length_eq_length_filter_add fun e => idleDue cfg nowUs e.2
  have hlength := hkept.length_eq
  refine ⟨fun e he _ => hcomplete e he,hnodup,fun e he => ?_,?_⟩
  · exact hcomplete e (List.mem_filter.mp (hkept.mem_iff.mp he)).1
  · rw [timerSweep_flowsExpiredIdle,hlength]
    change _+((filePackets rest).length : ℤ)≤_ at hfits
    omega

/-- Then the file decides in every step of any execution. -/
theorem Apart.decides {t : FlowTable σ} {inputs : List ReplayInput} (h : Apart cfg t inputs) :
    (replayMachine cfg onEvent).AlongRest (FileDecides cfg) t inputs := by
  induction inputs generalizing t with
  | nil => trivial
  | cons input rest ih =>
    cases input with
    | packet pkt =>
      obtain ⟨hfirst,hnext⟩ := h.packet cfg onEvent
      exact ⟨hfirst,ih hnext⟩
    | sweep nowUs order =>
      obtain ⟨hfirst,hnext⟩ := h.sweep cfg onEvent
      exact ⟨hfirst,ih hnext⟩

/-- Without any room no execution opens a flow. -/
theorem closed_starts (hclosed : tableFull cfg ∅=true) {t : FlowTable σ} (hempty : t.flows=∅)
    (inputs : List ReplayInput) :
    ((replayMachine cfg onEvent).trace t inputs).countP isStart=0 := by
  induction inputs generalizing t with
  | nil => rfl
  | cons input rest ih =>
    have hentries := call_entries cfg onEvent t input.call
    have hquiet : ((replayMachine cfg onEvent).step t input).2.countP isStart=0 := by
      cases input with
      | packet pkt =>
        cases process_opening cfg onEvent pkt t with
        | opened _ hroom _ _ =>
          rw [hempty,hclosed] at hroom
          cases hroom
        | unopened hstarts _ => exact hstarts
      | sweep nowUs order => exact upkeep_starts (timerSweep_upkeep cfg onEvent nowUs order t)
    rw [step_call] at hquiet
    rw [hquiet,hempty] at hentries
    have hnone : ((tableMachine cfg onEvent).step t input.call).1.flows.entries.length=0 := by
      change _=0+0 at hentries
      omega
    have hnext := ih (AList.ext (List.length_eq_zero_iff.mp hnone) :
      ((tableMachine cfg onEvent).step t input.call).1.flows=∅)
    rw [Machine.trace_cons,List.countP_append,step_call,hquiet,hnext]

/-- Let there be a reading of the clock at which every flow of the file is idle.
Then all executions on the file have the same flow records, whenever the sweeps
run, exactly when no flow can be opened at all, or no two packets of the file
have the same key and the table has room for all of their flows. -/
theorem timing_free_iff (sink : σ) {pkts : List ParsedPacket} {lateUs : Int64}
    (hclock : ∀ pkt∈pkts,Outdated cfg lateUs pkt) :
    (∀ first second : Replay,filePackets first.inputs=pkts → filePackets second.inputs=pkts →
      (replayRecords cfg onEvent sink first).Perm (replayRecords cfg onEvent sink second)) ↔
    tableFull cfg ∅=true ∨
      (pkts.map keyFromPacket).Nodup ∧ (pkts.length : ℤ)≤cfg.maxFlows.toInt := by
  have hsmall : (∅ : FlowMap).entries.length<2^31 := Nat.two_pow_pos 31
  constructor
  · intro hsame
    cases hclosed : tableFull cfg ∅ with
    | true => exact .inl rfl
    | false =>
      have hperm := hsame ⟨lazyInputs pkts,0,.stored⟩ ⟨eagerInputs lateUs pkts,0,.stored⟩
        (filePackets_lazy pkts) (filePackets_eager lateUs pkts)
      have hlength := hperm.length_eq
      have hroom := (tableFull_iff cfg hsmall).not.mp (Bool.eq_false_iff.mp hclosed)
      have hlimited : Limited cfg (FlowTable.initial sink).flows := (Int.not_le.mp hroom).le
      rw [length_replayRecords,length_replayRecords,
        eager_starts cfg onEvent hclosed hclock (List.forall_mem_nil _)] at hlength
      obtain ⟨hnodup,_,hfits⟩ := lazy_opens_all cfg onEvent hlimited hlength
      refine .inr ⟨hnodup,?_⟩
      change (0+pkts.length : ℤ)≤_ at hfits
      omega
  · rintro (hclosed | ⟨hnodup,hfits⟩) first second hfirst hsecond
    · have hnone : ∀ run,replayRecords cfg onEvent sink run=[] := by
        intro run
        rw [←List.length_eq_zero_iff,length_replayRecords]
        exact closed_starts cfg onEvent hclosed rfl run.inputs
      rw [hnone,hnone]
    · have hapart : ∀ inputs,filePackets inputs=pkts →
          Apart cfg (FlowTable.initial sink) inputs := by
        intro inputs hinputs
        refine ⟨?_,List.forall_mem_nil _,?_⟩
        · rw [laterKeys,hinputs]
          exact hnodup
        · rw [hinputs]
          change (0+0+pkts.length : ℤ)≤_
          omega
      have hrecords := replay_sweepless cfg onEvent onEvent sink sink
      have hfirst' := hrecords first 0 .stored ((hapart _ hfirst).decides cfg onEvent)
      have hsecond' := hrecords second 0 .stored ((hapart _ hsecond).decides cfg onEvent)
      have hlists : sweepless first.inputs=sweepless second.inputs :=
        congrArg (List.map _) (hfirst.trans hsecond.symm)
      rw [←hlists] at hsecond'
      exact hfirst'.trans hsecond'.symm

end Files

end PacketPipe.ReplayFiles

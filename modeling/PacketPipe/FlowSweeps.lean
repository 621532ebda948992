import PacketPipe.FlowTableEntries
import PacketPipe.FlowTableShutdown
import PacketPipe.SignedWords

/-!
# What a sweep is for

`timer_sweep` collects in one pass over the map and erases in a second one.
Its specification mentions neither pass: a flow not seen for the idle timeout
is ended, every other flow is kept and gets a heartbeat when one is due, and
the time of the last heartbeat moves exactly then. The durations are those of
the configuration in seconds; the 64-bit products of the constructor are exact.
The differences with the times in the table are not: a sweep meets its
specification exactly when they can be measured in 64 bits.
-/

namespace PacketPipe.FlowSweeps

open FlowEvents ConfigParserModel ObservedMachines FlowTableModel FlowLifetimes FlowTableEntries
open FlowTableShutdown SignedWords

section Durations

/-- Seconds of an `int` are exact microseconds in `int64_t`. -/
theorem seconds_toInt64 (seconds : Int32) :
    (seconds.toInt64*1000000).toInt=seconds.toInt*1000000 := by
  have hlow := seconds.le_toInt
  have hhigh := seconds.toInt_lt
  have hmillion : (1000000 : Int64).toInt=1000000 := rfl
  have hexact := int64_mul_iff seconds.toInt64 1000000
  rw [Int32.toInt_toInt64,hmillion,fits_64] at hexact
  exact hexact.mpr (by omega)

/-- `idle_timeout_us_` is the idle timeout. -/
theorem idleTimeoutUs_toInt (cfg : AppConfig) :
    (idleTimeoutUs cfg).toInt=cfg.flowTimeoutSec.toInt*1000000 := seconds_toInt64 _

/-- `stats_interval_us_` is the heartbeat interval. -/
theorem statsIntervalUs_toInt (cfg : AppConfig) :
    (statsIntervalUs cfg).toInt=cfg.statsIntervalSec.toInt*1000000 := seconds_toInt64 _

end Durations

/-- The flow was not seen for the idle timeout. -/
def Idle (cfg : AppConfig) (nowUs : Int64) (state : FlowState) : Prop :=
  cfg.flowTimeoutSec.toInt*1000000≤nowUs.toInt-state.lastSeenUs.toInt

/-- The last heartbeat is a heartbeat interval ago. -/
def Due (cfg : AppConfig) (nowUs lastHeartbeatUs : Int64) : Prop :=
  cfg.statsIntervalSec.toInt*1000000≤nowUs.toInt-lastHeartbeatUs.toInt

instance decidableIdle (cfg : AppConfig) (nowUs : Int64) (state : FlowState) :
    Decidable (Idle cfg nowUs state) := inferInstanceAs (Decidable (_≤_))

instance decidableDue (cfg : AppConfig) (nowUs lastHeartbeatUs : Int64) :
    Decidable (Due cfg nowUs lastHeartbeatUs) := inferInstanceAs (Decidable (_≤_))

section Differences

variable {σ : Type} (cfg : AppConfig)

/-- `now_us - state.last_seen_us` fits in 64 bits for every entry. -/
def SeenFits (nowUs : Int64) (t : FlowTable σ) : Prop :=
  ∀ e∈t.flows.entries,Fits 64 (nowUs.toInt-e.2.lastSeenUs.toInt)

/-- So does `now_us - last_heartbeat_us_`. -/
def DifferencesFit (nowUs : Int64) (t : FlowTable σ) : Prop :=
  SeenFits nowUs t ∧ Fits 64 (nowUs.toInt-t.lastHeartbeatUs.toInt)

/-- The differences of a sweep compare with the configured durations as the
exact ones do, even where they overflow. -/
def DifferencesGauged (nowUs : Int64) (t : FlowTable σ) : Prop :=
  (∀ e∈t.flows.entries,
      Gauged (cfg.flowTimeoutSec.toInt*1000000) (nowUs.toInt-e.2.lastSeenUs.toInt)) ∧
    Gauged (cfg.statsIntervalSec.toInt*1000000) (nowUs.toInt-t.lastHeartbeatUs.toInt)

instance decidableSeenFits (nowUs : Int64) (t : FlowTable σ) : Decidable (SeenFits nowUs t) :=
  inferInstanceAs (Decidable (∀ e∈t.flows.entries,_))

instance decidableDifferencesFit (nowUs : Int64) (t : FlowTable σ) :
    Decidable (DifferencesFit nowUs t) := inferInstanceAs (Decidable (_∧_))

/-- Differences that fit are exact. -/
theorem DifferencesFit.gauged {nowUs : Int64} {t : FlowTable σ} (h : DifferencesFit nowUs t) :
    DifferencesGauged cfg nowUs t := ⟨fun e he => (h.1 e he).gauged _,h.2.gauged _⟩

/-- For a time that is not negative nothing else can be measured. -/
theorem differencesGauged_iff_fit {nowUs : Int64} (hnow : 0≤nowUs.toInt) (t : FlowTable σ) :
    DifferencesGauged cfg nowUs t ↔ DifferencesFit nowUs t :=
  ⟨fun h => ⟨fun e he => (gauged_iff_fits hnow).mp (h.1 e he),(gauged_iff_fits hnow).mp h.2⟩,
    DifferencesFit.gauged cfg⟩

end Differences

/-- The test of the first loop. -/
theorem idleDue_eq {cfg : AppConfig} {nowUs : Int64} {state : FlowState}
    (h : Gauged (cfg.flowTimeoutSec.toInt*1000000) (nowUs.toInt-state.lastSeenUs.toInt)) :
    idleDue cfg nowUs state=decide (Idle cfg nowUs state) := by
  rw [←idleTimeoutUs_toInt] at h
  rw [idleDue,decide_eq_decide,h.le_sub_iff,idleTimeoutUs_toInt]
  exact Iff.rfl

/-- The test before the first loop. -/
theorem heartbeatDue_eq {cfg : AppConfig} {nowUs lastHeartbeatUs : Int64}
    (h : Gauged (cfg.statsIntervalSec.toInt*1000000) (nowUs.toInt-lastHeartbeatUs.toInt)) :
    heartbeatDue cfg nowUs lastHeartbeatUs=decide (Due cfg nowUs lastHeartbeatUs) := by
  rw [←statsIntervalUs_toInt] at h
  rw [heartbeatDue,decide_eq_decide,h.le_sub_iff,statsIntervalUs_toInt]
  exact Iff.rfl

/-- The first test needs differences that can be measured. -/
theorem gauged_of_idleDue {cfg : AppConfig} (htimeout : 0<cfg.flowTimeoutSec) {nowUs : Int64}
    {state : FlowState} (h : idleDue cfg nowUs state=true ↔ Idle cfg nowUs state) :
    Gauged (cfg.flowTimeoutSec.toInt*1000000) (nowUs.toInt-state.lastSeenUs.toInt) := by
  have hseconds : 0<cfg.flowTimeoutSec.toInt := Int32.lt_iff_toInt_lt.mp htimeout
  rw [←idleTimeoutUs_toInt]
  refine (gauged_iff (by rw [idleTimeoutUs_toInt]; omega)).mp ?_
  rw [idleTimeoutUs_toInt]
  rwa [idleDue,decide_eq_true_eq] at h

/-- So does the second. -/
theorem gauged_of_heartbeatDue {cfg : AppConfig} (hinterval : 0<cfg.statsIntervalSec)
    {nowUs lastHeartbeatUs : Int64}
    (h : heartbeatDue cfg nowUs lastHeartbeatUs=true ↔ Due cfg nowUs lastHeartbeatUs) :
    Gauged (cfg.statsIntervalSec.toInt*1000000) (nowUs.toInt-lastHeartbeatUs.toInt) := by
  have hseconds : 0<cfg.statsIntervalSec.toInt := Int32.lt_iff_toInt_lt.mp hinterval
  rw [←statsIntervalUs_toInt]
  refine (gauged_iff (by rw [statsIntervalUs_toInt]; omega)).mp ?_
  rw [statsIntervalUs_toInt]
  rwa [heartbeatDue,decide_eq_true_eq] at h

/-- The entries that stay. -/
def keptEntries (cfg : AppConfig) (nowUs : Int64) (flows : FlowMap) : List FlowEntry :=
  flows.entries.filter fun e => ¬Idle cfg nowUs e.2

/-- The entries that go. -/
def idleEntries (cfg : AppConfig) (nowUs : Int64) (flows : FlowMap) : List FlowEntry :=
  flows.entries.filter fun e => Idle cfg nowUs e.2

/-- One Stats event for each entry that stays when a heartbeat is due, and one
End event for each entry that goes. -/
def sweepEvents {σ : Type} (cfg : AppConfig) (nowUs : Int64) (t : FlowTable σ) : List FlowEvent :=
  (if Due cfg nowUs t.lastHeartbeatUs then
      (keptEntries cfg nowUs t.flows).map fun e => statsEvent e.2 nowUs
    else [])++
    (idleEntries cfg nowUs t.flows).map fun e => endEvent e.2 nowUs .idleTimeout

/-- The table and the observations that a sweep owes. -/
structure Swept {σ : Type} (cfg : AppConfig) (nowUs : Int64) (t t' : FlowTable σ)
    (seen : List Observation) : Prop where
  /-- The idle entries are removed and the others unchanged. -/
  entries : t'.flows.entries.Perm (keptEntries cfg nowUs t.flows)
  /-- Exactly the events owed are passed to the callback. -/
  events : (seen.map emittedEvent).Perm ((sweepEvents cfg nowUs t).map some)
  /-- A heartbeat is remembered. -/
  heartbeat : t'.lastHeartbeatUs=
    if Due cfg nowUs t.lastHeartbeatUs then nowUs else t.lastHeartbeatUs

section Specification

variable {σ : Type} (cfg : AppConfig) (onEvent : EventCallback σ) (nowUs : Int64)

/-- An emission is its event. -/
theorem emit_events (evt : FlowEvent) (t : FlowTable σ) :
    (emit onEvent evt t).2.map emittedEvent=[some evt] := by
  rw [emit_trace]
  rfl

/-- The first loop emits the heartbeats of the visited entries that stay. -/
theorem sweepScan_events (emitStats : Bool) (entries : List FlowEntry) (t : FlowTable σ) :
    (sweepScan cfg onEvent nowUs emitStats entries t).2.2.map emittedEvent=
      if emitStats=true then
        (entries.filter fun e => !idleDue cfg nowUs e.2).map fun e => some (statsEvent e.2 nowUs)
      else [] := by
  induction entries generalizing t with
  | nil => exact (ite_self _).symm
  | cons entry rest ih =>
    obtain ⟨key,state⟩ := entry
    unfold sweepScan
    rw [List.filter_cons]
    dsimp only
    cases idleDue cfg nowUs state with
    | true => exact ih t
    | false =>
      cases emitStats with
      | false => exact ih t
      | true =>
        simp only [Bool.false_eq_true,if_false,if_true,Bool.not_false,List.map_append,
          List.map_cons,emit_events,List.cons_append,List.nil_append] at ih ⊢
        rw [ih]

/-- The second loop emits the Ends of the collected entries that are still
stored. -/
theorem expireAll_events {keys : List FlowKey} (hnd : keys.Nodup) (t : FlowTable σ) :
    (expireAll onEvent nowUs keys t).2.map emittedEvent=
      (keys.filterMap fun key => t.flows.lookup key).map
        fun state => some (endEvent state nowUs .idleTimeout) := by
  induction keys generalizing t with
  | nil => rfl
  | cons own rest ih =>
    obtain ⟨hfresh,hnd⟩ := List.nodup_cons.mp hnd
    unfold expireAll
    rw [List.filterMap_cons]
    split
    · next state hfound =>
      rw [hfound]
      dsimp only
      rw [List.map_append,expireFlow_trace,emit_events,ih hnd,
        expireFlow_others onEvent nowUs hfresh]
      rfl
    · next hnone =>
      rw [hnone]
      exact ih hnd t

/-- A sweep emits one Stats event for each entry that it keeps, if it gives
heartbeats, and one End event for each entry that it finds idle. -/
theorem timerSweep_emits (order : MapOrder) (t : FlowTable σ) :
    ((timerSweep cfg onEvent nowUs order t).2.map emittedEvent).Perm
      (((if heartbeatDue cfg nowUs t.lastHeartbeatUs=true then
          (t.flows.entries.filter fun e => !idleDue cfg nowUs e.2).map
            fun e => statsEvent e.2 nowUs
        else [])++
        (t.flows.entries.filter fun e => idleDue cfg nowUs e.2).map
          fun e => endEvent e.2 nowUs .idleTimeout).map some) := by
  have hvisit := visits_order order t.flows
  have hperm := order.visit_perm t.flows
  have hfound : ∀ e∈(order.visit t.flows).filter fun e => idleDue cfg nowUs e.2,
      t.flows.lookup e.1=some e.2 := fun e he => hvisit.mem (List.mem_filter.mp he).1
  have hstates : ((order.visit t.flows).filter fun e => idleDue cfg nowUs e.2).filterMap
      ((fun key => t.flows.lookup key) ∘ Sigma.fst)=
        ((order.visit t.flows).filter fun e => idleDue cfg nowUs e.2).map Sigma.snd := by
    rw [←List.filterMap_eq_map]
    exact List.filterMap_congr hfound
  unfold timerSweep
  dsimp only
  rw [List.map_append,sweepScan_events,sweepScan_keys,
    expireAll_events onEvent nowUs (hvisit.nodup_selected _),sweepScan_flows,
    List.filterMap_map,hstates]
  simp only [List.map_append,apply_ite (List.map some),List.map_map,List.map_nil]
  refine List.Perm.append ?_ ((hperm.filter _).map _)
  split
  · exact (hperm.filter _).map _
  · exact List.Perm.refl _

variable {cfg nowUs}

/-- The entries that a sweep keeps are those that stay. -/
theorem DifferencesGauged.kept {t : FlowTable σ} (h : DifferencesGauged cfg nowUs t) :
    (t.flows.entries.filter fun e => !idleDue cfg nowUs e.2)=keptEntries cfg nowUs t.flows := by
  refine List.filter_congr fun e he => ?_
  rw [idleDue_eq (h.1 e he),←decide_not]

/-- And the others are those that go. -/
theorem DifferencesGauged.idle {t : FlowTable σ} (h : DifferencesGauged cfg nowUs t) :
    (t.flows.entries.filter fun e => idleDue cfg nowUs e.2)=idleEntries cfg nowUs t.flows :=
  List.filter_congr fun e he => idleDue_eq (h.1 e he)

/-- `timer_sweep` meets its specification. -/
theorem timerSweep_swept (order : MapOrder) {t : FlowTable σ}
    (h : DifferencesGauged cfg nowUs t) :
    Swept cfg nowUs t (timerSweep cfg onEvent nowUs order t).1
      (timerSweep cfg onEvent nowUs order t).2 := by
  constructor
  · rw [←h.kept]
    exact timerSweep_entries cfg onEvent nowUs order t
  · have hevents := timerSweep_emits cfg onEvent nowUs order t
    rw [heartbeatDue_eq h.2,h.kept,h.idle] at hevents
    simp only [decide_eq_true_eq] at hevents
    exact hevents
  · rw [timerSweep_lastHeartbeatUs,heartbeatDue_eq h.2]
    simp only [decide_eq_true_eq]

/-- A sweep whose tests all fail does nothing. -/
theorem timerSweep_nothing (order : MapOrder) {t : FlowTable σ}
    (hidle : ∀ e∈t.flows.entries,idleDue cfg nowUs e.2=false)
    (hdue : heartbeatDue cfg nowUs t.lastHeartbeatUs=false) :
    timerSweep cfg onEvent nowUs order t=(t,[]) := by
  have hscan : ∀ entries : List FlowEntry,(∀ e∈entries,idleDue cfg nowUs e.2=false) →
      sweepScan cfg onEvent nowUs false entries t=(t,[],[]) := by
    intro entries hkept
    induction entries with
    | nil => rfl
    | cons entry rest ih =>
      have hfirst := List.forall_mem_cons.mp hkept
      unfold sweepScan
      rw [hfirst.1]
      exact ih hfirst.2
  have hvisited : ∀ e∈order.visit t.flows,idleDue cfg nowUs e.2=false :=
    fun e he => hidle e ((order.visit_perm t.flows).mem_iff.mp he)
  unfold timerSweep
  rw [hdue]
  dsimp only
  rw [hscan _ hvisited]
  rfl

/-- A second sweep at the same time does nothing. -/
theorem timerSweep_again (hinterval : 0<cfg.statsIntervalSec) (order order' : MapOrder)
    (t : FlowTable σ) :
    timerSweep cfg onEvent nowUs order' (timerSweep cfg onEvent nowUs order t).1=
      ((timerSweep cfg onEvent nowUs order t).1,[]) := by
  refine timerSweep_nothing onEvent order' (fun e he => ?_) ?_
  · have hkept := (timerSweep_entries cfg onEvent nowUs order t).mem_iff.mp he
    rw [List.mem_filter,Bool.not_eq_true'] at hkept
    exact hkept.2
  · rw [timerSweep_lastHeartbeatUs]
    split
    · have hseconds : 0<cfg.statsIntervalSec.toInt := Int32.lt_iff_toInt_lt.mp hinterval
      have hzero : Fits 64 (nowUs.toInt-nowUs.toInt) := fits_64.mpr (by omega)
      rw [heartbeatDue_eq (hzero.gauged _),decide_eq_false_iff_not,Due]
      omega
    · exact Bool.eq_false_iff.mpr ‹_›

/-- A sweep that meets its specification can measure every difference: the
entries it keeps and the time it remembers show what its tests said. -/
theorem Swept.gauged (htimeout : 0<cfg.flowTimeoutSec) (hinterval : 0<cfg.statsIntervalSec)
    {order : MapOrder} {t : FlowTable σ} {seen : List Observation}
    (h : Swept cfg nowUs t (timerSweep cfg onEvent nowUs order t).1 seen) :
    DifferencesGauged cfg nowUs t := by
  constructor
  · intro e he
    have hcode := (timerSweep_entries cfg onEvent nowUs order t).mem_iff (a := e)
    rw [h.entries.mem_iff,keptEntries,List.mem_filter,List.mem_filter,decide_eq_true_eq,
      Bool.not_eq_true',and_congr_right_iff] at hcode
    refine gauged_of_idleDue htimeout (not_iff_not.mp ?_)
    rw [Bool.not_eq_true]
    exact (hcode he).symm
  · have hcode := timerSweep_lastHeartbeatUs cfg onEvent nowUs order t
    rw [h.heartbeat] at hcode
    by_cases hnow : nowUs=t.lastHeartbeatUs
    · rw [hnow]
      exact (fits_64.mpr (by omega) : Fits 64 _).gauged _
    · refine gauged_of_heartbeatDue hinterval ?_
      by_cases hdue : Due cfg nowUs t.lastHeartbeatUs
      · rw [if_pos hdue] at hcode
        split at hcode
        · next htest => exact iff_of_true htest hdue
        · exact absurd hcode hnow
      · rw [if_neg hdue] at hcode
        split at hcode
        · exact absurd hcode.symm hnow
        · next htest => exact iff_of_false htest hdue

variable (cfg nowUs)

/-- In any state and in any iteration order `timer_sweep` removes exactly the
idle entries, emits exactly the events it owes, remembers exactly its
heartbeats and does nothing when it is repeated at the same time, if and only
if it can measure the differences with the times in the table. For a time that
is not negative this is the case when all differences fit in 64 bits. -/
theorem sweep_specified_iff (htimeout : 0<cfg.flowTimeoutSec)
    (hinterval : 0<cfg.statsIntervalSec) (t : FlowTable σ) (order : MapOrder) :
    ((Swept cfg nowUs t (timerSweep cfg onEvent nowUs order t).1
          (timerSweep cfg onEvent nowUs order t).2 ∧
        ∀ order',timerSweep cfg onEvent nowUs order' (timerSweep cfg onEvent nowUs order t).1=
          ((timerSweep cfg onEvent nowUs order t).1,[])) ↔ DifferencesGauged cfg nowUs t) ∧
      (0≤nowUs → (DifferencesGauged cfg nowUs t ↔ DifferencesFit nowUs t)) := by
  constructor
  · constructor
    · intro h
      exact h.1.gauged onEvent htimeout hinterval
    · intro h
      exact ⟨timerSweep_swept onEvent order h,
        fun order' => timerSweep_again onEvent hinterval order order' t⟩
  · intro hnow
    exact differencesGauged_iff_fit cfg (Int64.le_iff_toInt_le.mp hnow) t

end Specification

/-- A datagram that is an hour old at the sweep. -/
def staleDatagram : ParsedPacket :=
  {srcPort := 53,protocol := ipprotoUdp,wireLength := 60,timestampUs := 1000000}

/-- A datagram of another flow a second before the sweep. -/
def freshDatagram : ParsedPacket :=
  {srcPort := 123,protocol := ipprotoUdp,wireLength := 76,timestampUs := 3600000000}

/-- The sweep that ends the stale flow gives the fresh one a heartbeat. -/
theorem sweep_specified_mixed :
    (sweepEvents {} 3601000000 (tableAfter {} (fun _ s => (true,s)) ()
        [.process staleDatagram,.process freshDatagram])).map
          (fun evt => (evt.type,evt.state.key.srcPort))=[(.flowStats,123),(.flowEnd,53)] ∧
      Swept {} 3601000000
        (tableAfter {} (fun _ s => (true,s)) () [.process staleDatagram,.process freshDatagram])
        (timerSweep {} (fun _ s => (true,s)) 3601000000 .stored
          (tableAfter {} (fun _ s => (true,s)) ()
            [.process staleDatagram,.process freshDatagram])).1
        (timerSweep {} (fun _ s => (true,s)) 3601000000 .stored
          (tableAfter {} (fun _ s => (true,s)) ()
            [.process staleDatagram,.process freshDatagram])).2 := by
  have hspecified := sweep_specified_iff {} (fun _ s => (true,s)) 3601000000 (by decide) (by decide)
    (tableAfter {} (fun _ s => (true,s)) () [.process staleDatagram,.process freshDatagram]) .stored
  have hfits : DifferencesFit 3601000000
      (tableAfter {} (fun _ s => (true,s)) () [.process staleDatagram,.process freshDatagram]) := by
    decide
  exact ⟨by decide,(hspecified.1.mpr (hfits.gauged {})).1⟩

/-- A datagram of a pcapng file whose seconds lie before any clock. -/
def ancientDatagram : ParsedPacket :=
  {srcPort := 53,protocol := ipprotoUdp,wireLength := 60,timestampUs := -9222000000000000000}

/-- A sweep of November 2023 keeps its flow and gives it a heartbeat, although
it was not seen for much longer than the idle timeout: the difference is
2^63 and more. -/
theorem ancient_flow_kept :
    Idle {} 1700000000000000 (firstState (keyFromPacket ancientDatagram) ancientDatagram) ∧
      ((timerSweep {} (fun _ s => (true,s)) 1700000000000000 .stored
          (tableAfter {} (fun _ s => (true,s)) () [.process ancientDatagram])).2.filterMap
            emittedEvent).map FlowEvent.type=[.flowStats] ∧
      ¬Swept {} 1700000000000000
        (tableAfter {} (fun _ s => (true,s)) () [.process ancientDatagram])
        (timerSweep {} (fun _ s => (true,s)) 1700000000000000 .stored
          (tableAfter {} (fun _ s => (true,s)) () [.process ancientDatagram])).1
        (timerSweep {} (fun _ s => (true,s)) 1700000000000000 .stored
          (tableAfter {} (fun _ s => (true,s)) () [.process ancientDatagram])).2 := by
  refine ⟨by decide,by decide,fun h => ?_⟩
  have hlength := h.entries.length_eq
  exact absurd hlength (by decide)

end PacketPipe.FlowSweeps

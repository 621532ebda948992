import PacketPipe.ConfigOptions
import PacketPipe.FlowSweeps
import PacketPipe.FlowTableMetrics
import PacketPipe.KafkaSinkAccounts
import PacketPipe.SignedWords

/-!
# Arithmetic on the configuration

The integers that `parse` returns are compared with sizes of containers and
multiplied: in `FlowTable` after a cast to 64 bits, in `main` as `int`. The
comparisons are exact because table and retry buffer stay within the very
limits they are compared with. The period of the timer thread is exact only
up to 4294967 seconds.
-/

namespace PacketPipe.ConfigArithmetic

open ConfigParserModel ConfigOptions FlowTableModel FlowTableMetrics FlowSweeps ObservedMachines
open KafkaSinkModel KafkaSinkDelivery KafkaSinkAccounts SignedWords

/-- The period of the timer thread in milliseconds, computed in `int`. -/
def timerIntervalMs (cfg : AppConfig) : Int32 :=
  max 1 (min cfg.statsIntervalSec cfg.flowTimeoutSec)*500

/-- The same period as an integer. -/
def timerPeriod (cfg : AppConfig) : ℤ :=
  max 1 (min cfg.statsIntervalSec.toInt cfg.flowTimeoutSec.toInt)*500

/-- The product in `main` is exact when it fits an `int`. -/
theorem timerIntervalMs_exact (cfg : AppConfig) :
    (timerIntervalMs cfg).toInt=timerPeriod cfg ↔ Fits 32 (timerPeriod cfg) := by
  have hone : (1 : Int32).toInt=1 := rfl
  have hfactor : (500 : Int32).toInt=500 := rfl
  have hproduct := int32_mul_iff (max 1 (min cfg.statsIntervalSec cfg.flowTimeoutSec)) 500
  rw [int32_max,int32_min,hone,hfactor] at hproduct
  exact hproduct

/-- Which periods fit. -/
theorem timerPeriod_fits (cfg : AppConfig) :
    Fits 32 (timerPeriod cfg) ↔
      min cfg.statsIntervalSec.toInt cfg.flowTimeoutSec.toInt≤4294967 := by
  rw [fits_32,timerPeriod]
  omega

/-- In every reachable table the comparison with `max_flows` is exact. -/
theorem table_comparison {cfg : AppConfig} (hlimit : 1≤ cfg.maxFlows.toInt) {σ : Type}
    (onEvent : EventCallback σ) (sink : σ) (calls : List Call) :
    tableFull cfg (tableAfter cfg onEvent sink calls).flows=true ↔
      cfg.maxFlows.toInt≤(tableAfter cfg onEvent sink calls).flows.entries.length := by
  have hinitial : Limited cfg (FlowTable.initial sink).flows := by
    have hempty : ((FlowTable.initial sink).flows.entries.length : ℤ)=0 := rfl
    unfold Limited
    omega
  have hlimited : Limited cfg (tableAfter cfg onEvent sink calls).flows :=
    Machine.final_invariant (tableMachine cfg onEvent) (P := fun t => Limited cfg t.flows)
      (fun _ call h => call_limited cfg onEvent h call) hinitial calls
  exact tableFull_iff cfg hlimited.small

/-- In every reachable sink the comparison with `sr_buffer_size_` is exact. -/
theorem retry_comparison {cfg : AppConfig} (hsize : 1≤ cfg.srBufferSize.toInt)
    (ser : Serializer) (inputs : List SinkInput) :
    Int32.ofNat (sinkAfter ser cfg inputs).retryBuf.length<cfg.srBufferSize ↔
      ((sinkAfter ser cfg inputs).retryBuf.length : ℤ)<cfg.srBufferSize.toInt := by
  obtain ⟨items,hhistory⟩ := run_history ser cfg inputs
  have hroom : Int32.ofNat (sinkAfter ser cfg inputs).retryBuf.length<cfg.srBufferSize ↔
      (sinkAfter ser cfg inputs).retryBuf.length<cfg.srBufferSize.toInt.toNat :=
    hhistory.within.room_iff
  rw [hroom]
  omega

/-- The arithmetic on a configuration keeps its meaning. -/
structure ExactArithmetic (cfg : AppConfig) : Prop where
  /-- The product in `main` does not overflow. -/
  timerFits : Fits 32 (timerPeriod cfg)
  /-- The timer thread sleeps for the period. -/
  timerExact : (timerIntervalMs cfg).toInt=timerPeriod cfg
  /-- It sleeps for a positive time. -/
  timerPositive : 0<timerIntervalMs cfg
  /-- `idle_timeout_us_` is the timeout in microseconds. -/
  idle : (idleTimeoutUs cfg).toInt=cfg.flowTimeoutSec.toInt*1000000
  /-- `stats_interval_us_` is the heartbeat interval in microseconds. -/
  stats : (statsIntervalUs cfg).toInt=cfg.statsIntervalSec.toInt*1000000
  /-- A new flow is refused exactly when the table holds `max_flows` entries. -/
  table {σ : Type} (onEvent : EventCallback σ) (sink : σ) (calls : List Call) :
    tableFull cfg (tableAfter cfg onEvent sink calls).flows=true ↔
      cfg.maxFlows.toInt≤(tableAfter cfg onEvent sink calls).flows.entries.length
  /-- A failed event is kept exactly when the buffer holds fewer than
  `sr_buffer_size_` events. -/
  retry (ser : Serializer) (inputs : List SinkInput) :
    Int32.ofNat (sinkAfter ser cfg inputs).retryBuf.length<cfg.srBufferSize ↔
      ((sinkAfter ser cfg inputs).retryBuf.length : ℤ)<cfg.srBufferSize.toInt

/-- The arithmetic on a configuration that `parse` returns keeps its meaning
exactly when one of the two intervals is at most 4294967 seconds. -/
theorem arithmetic_exact_iff (argv : List String) (cfg : AppConfig) (h : parse argv=.ok cfg) :
    ExactArithmetic cfg ↔
      min cfg.statsIntervalSec.toInt cfg.flowTimeoutSec.toInt≤4294967 := by
  have hformed := (parse_settled h).1
  rw [←timerPeriod_fits]
  constructor
  · intro hexact
    exact hexact.timerFits
  · intro hfits
    have htimer := (timerIntervalMs_exact cfg).mpr hfits
    constructor
    · exact hfits
    · exact htimer
    · have hperiod : 0<timerPeriod cfg := by
        rw [timerPeriod]
        omega
      rw [Int32.lt_iff_toInt_lt,htimer]
      exact hperiod
    · exact idleTimeoutUs_toInt cfg
    · exact statsIntervalUs_toInt cfg
    · exact fun onEvent sink calls => table_comparison hformed.maxFlows.1 onEvent sink calls
    · exact fun ser inputs => retry_comparison hformed.srBufferSize.1 ser inputs

/-- The defaults are far below the bound. -/
theorem arithmetic_exact_defaults : ExactArithmetic {pcapFile := "a.pcap"} :=
  (arithmetic_exact_iff ["packetpipe","--pcap","a.pcap"] _ (by decide)).mpr (by decide)

/-- With both intervals at 4294968 seconds, which `parse` accepts, the period
of the timer thread is negative. -/
theorem long_intervals_overflow :
    parse ["packetpipe","--pcap","a.pcap","--flow-timeout","4294968",
        "--stats-interval","4294968"]=
      .ok {pcapFile := "a.pcap",flowTimeoutSec := 4294968,statsIntervalSec := 4294968} ∧
    timerIntervalMs
      {pcapFile := "a.pcap",flowTimeoutSec := 4294968,statsIntervalSec := 4294968}=-2147483296 ∧
    ¬ExactArithmetic
      {pcapFile := "a.pcap",flowTimeoutSec := 4294968,statsIntervalSec := 4294968} := by
  refine ⟨by decide,by decide,fun hexact => ?_⟩
  exact absurd hexact.timerPositive (by decide)

end PacketPipe.ConfigArithmetic

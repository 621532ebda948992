import Mathlib.Data.List.AList
import Mathlib.Data.Int.Notation

/-!
# Packets, flow keys, flow states, lifecycle events and metrics

The plain records passed between the capture pipeline and the Kafka sink.
Fixed-width fields keep the widths of the C++ declarations: addresses are
sixteen bytes, timestamps are signed 64-bit microseconds and the packet and
byte counters wrap at 64 bits.
-/

namespace PacketPipe.FlowEvents

/-- Sixteen address bytes; IPv4 is stored in the IPv4-mapped form. -/
abbrev Address := Vector UInt8 16

/-- `IPPROTO_ICMP`. -/
def ipprotoIcmp : UInt8 := 1
/-- `IPPROTO_TCP`. -/
def ipprotoTcp : UInt8 := 6
/-- `IPPROTO_UDP`. -/
def ipprotoUdp : UInt8 := 17
/-- `IPPROTO_ICMPV6`. -/
def ipprotoIcmpv6 : UInt8 := 58

/-- Decoded packet with uniform sixteen-byte addresses. -/
structure ParsedPacket where
  /-- Source address, `::ffff:a.b.c.d` for IPv4. -/
  srcIp : Address := Vector.replicate 16 0
  /-- Destination address in the same form. -/
  dstIp : Address := Vector.replicate 16 0
  /-- Source port, or `(type << 8) | code` for ICMP. -/
  srcPort : UInt16 := 0
  /-- Destination port. -/
  dstPort : UInt16 := 0
  /-- `IPPROTO_*` value. -/
  protocol : UInt8 := 0
  /-- IP total length in bytes. -/
  wireLength : UInt32 := 0
  /-- Capture time in microseconds. -/
  timestampUs : Int64 := 0
  /-- FIN bit, set for TCP only. -/
  tcpFin : Bool := false
  /-- RST bit, set for TCP only. -/
  tcpRst : Bool := false
  /-- Whether the datagram was IPv6. -/
  isIpv6 : Bool := false
  deriving DecidableEq

/-- The unidirectional 5-tuple that names a flow. -/
structure FlowKey where
  /-- Source address bytes. -/
  srcIp : Address := Vector.replicate 16 0
  /-- Destination address bytes. -/
  dstIp : Address := Vector.replicate 16 0
  /-- Source port, or ICMP type and code. -/
  srcPort : UInt16 := 0
  /-- Destination port. -/
  dstPort : UInt16 := 0
  /-- `IPPROTO_*` value. -/
  protocol : UInt8 := 0
  deriving DecidableEq

/-- Per-flow counters held in the flow table. -/
structure FlowState where
  /-- The key the entry describes. -/
  key : FlowKey := {}
  /-- Timestamp of the first packet. -/
  startUs : Int64 := 0
  /-- Timestamp of the most recently counted packet. -/
  lastSeenUs : Int64 := 0
  /-- Packets counted, modulo 2^64. -/
  packetCount : UInt64 := 0
  /-- Wire bytes counted, modulo 2^64. -/
  byteCount : UInt64 := 0
  deriving DecidableEq

/-- `FlowEventType::{Start, End, Stats}`. -/
inductive FlowEventType
  | flowStart
  | flowEnd
  | flowStats
  deriving DecidableEq

/-- `ExpireReason::{IdleTimeout, TcpTeardown}`. -/
inductive ExpireReason
  | idleTimeout
  | tcpTeardown
  deriving DecidableEq

/-- A flow lifecycle event. The reason is meaningful for `flowEnd` only and
keeps its default otherwise, as in the C++ aggregate. -/
structure FlowEvent where
  /-- Discriminator. -/
  type : FlowEventType := .flowStart
  /-- Copy of the flow's counters. -/
  state : FlowState := {}
  /-- When the event was generated. -/
  eventTimestampUs : Int64 := 0
  /-- Why the flow ended. -/
  reason : ExpireReason := .idleTimeout
  deriving DecidableEq

/-- The Prometheus handles of `IMetricsRegistry`, as exact integers. -/
structure Metrics where
  /-- `packetpipe_packets_received_total`. -/
  packetsReceived : ℕ := 0
  /-- `packetpipe_packets_dropped_total`. -/
  packetsDropped : ℕ := 0
  /-- `packetpipe_flows_active`, the only gauge. -/
  flowsActive : ℤ := 0
  /-- `packetpipe_flows_created_total`. -/
  flowsCreated : ℕ := 0
  /-- `packetpipe_flows_expired_total` with `reason="idle_timeout"`. -/
  flowsExpiredIdle : ℕ := 0
  /-- `packetpipe_flows_expired_total` with `reason="tcp_teardown"`. -/
  flowsExpiredTcp : ℕ := 0
  /-- `packetpipe_kafka_messages_produced_total`. -/
  kafkaMessagesProduced : ℕ := 0
  /-- `packetpipe_kafka_delivery_errors_total`. -/
  kafkaDeliveryErrors : ℕ := 0
  /-- `packetpipe_avro_serialization_errors_total`. -/
  avroSerializationErrors : ℕ := 0
  /-- `packetpipe_schema_registry_retries_total`. -/
  schemaRegistryRetries : ℕ := 0
  deriving DecidableEq

/-- Increment the `flows_expired` counter that carries the given reason. -/
def Metrics.incFlowsExpired (m : Metrics) : ExpireReason → Metrics
  | .idleTimeout => {m with flowsExpiredIdle := m.flowsExpiredIdle+1}
  | .tcpTeardown => {m with flowsExpiredTcp := m.flowsExpiredTcp+1}

end PacketPipe.FlowEvents

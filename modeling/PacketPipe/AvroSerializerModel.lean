import PacketPipe.AvroBinary
import PacketPipe.ByteFields
import PacketPipe.FlowEvents

/-!
# The Avro serializer

`AvroSerializer` with its key text and its wire format. The texts of
`inet_ntop` and the generic data of avro-cpp are parameters: of a generic datum
only those operations are known that `serialize` calls, and only what is
documented of them where it calls them.
-/

namespace PacketPipe.AvroSerializerModel

open FlowEvents AvroBinary

section AddressText

/-- `INET6_ADDRSTRLEN`. -/
def inet6Addrstrlen : ℕ := 46

/-- What `char buf[INET6_ADDRSTRLEN]` holds before the terminating zero. -/
structure BufferText where
  /-- The text. -/
  text : String
  /-- The text and the zero fit the buffer. -/
  fits : text.length < inet6Addrstrlen

/-- `inet_ntop` for both address families. -/
structure InetNtop where
  /-- `AF_INET`. -/
  ipv4 : Vector UInt8 4 → BufferText
  /-- `AF_INET6`. -/
  ipv6 : Address → BufferText

/-- `is_ipv4_mapped`. -/
def isIpv4Mapped (ip : Address) : Bool :=
  ip[10]=0xFF && ip[11]=0xFF &&
    ip[0]=0 && ip[1]=0 && ip[2]=0 && ip[3]=0 &&
    ip[4]=0 && ip[5]=0 && ip[6]=0 && ip[7]=0 &&
    ip[8]=0 && ip[9]=0

/-- The four bytes from offset 12. -/
def embeddedIpv4 (ip : Address) : Vector UInt8 4 := #v[ip[12],ip[13],ip[14],ip[15]]

/-- `ip_array_to_string`. -/
def ipArrayToString (ntop : InetNtop) (ip : Address) : String :=
  if isIpv4Mapped ip then (ntop.ipv4 (embeddedIpv4 ip)).text
  else (ntop.ipv6 ip).text

/-- `AvroSerializer::flow_id`. -/
def flowId (ntop : InetNtop) (key : FlowKey) : String :=
  let srcStr := ipArrayToString ntop key.srcIp
  let dstStr := ipArrayToString ntop key.dstIp
  let srcV6 := !isIpv4Mapped key.srcIp
  let dstV6 := !isIpv4Mapped key.dstIp
  let srcFmt := if srcV6 then "[" ++ srcStr ++ "]" else srcStr
  let dstFmt := if dstV6 then "[" ++ dstStr ++ "]" else dstStr
  srcFmt ++ ":" ++ key.srcPort.toNat.repr ++ "-" ++
    dstFmt ++ ":" ++ key.dstPort.toNat.repr ++ "/" ++
    key.protocol.toNat.repr

end AddressText

section GenericDatum

/-- How a call fails: with an exception, or in behaviour that C++ leaves
undefined, such as `value<T>()` on a datum of another type. -/
inductive Failure (ε : Type)
  | threw (e : ε)
  | undefined

/-- The operations of avro-cpp on a `GenericDatum`; exceptions have a text. -/
structure GenericApi (δ : Type) where
  /-- `GenericDatum(schema)`. -/
  newDatum : Schema → δ
  /-- `value<GenericRecord>().fieldCount()`. -/
  fieldCount : δ → Except (Failure String) ℕ
  /-- What is done to `value<GenericRecord>().fieldAt(i)`, which is a reference. -/
  atField : ℕ → (δ → Except (Failure String) δ) → δ → Except (Failure String) δ
  /-- Assignment to `value<std::string>()`. -/
  setString : String → δ → Except (Failure String) δ
  /-- Assignment to `value<int32_t>()`. -/
  setInt : Int32 → δ → Except (Failure String) δ
  /-- Assignment to `value<int64_t>()`. -/
  setLong : Int64 → δ → Except (Failure String) δ
  /-- `value<GenericEnum>().set(symbol)`. -/
  setSymbol : String → δ → Except (Failure String) δ
  /-- `selectBranch`. -/
  selectBranch : ℕ → δ → Except (Failure String) δ
  /-- The bytes that `avro::encode` writes. -/
  encode : δ → Except (Failure String) (List UInt8)
  /-- The field names of a record, and its fields. -/
  asRecord : δ → Option (List String×List δ)
  /-- The datum of the specification that it stands for; none as long as a
  union in it has no branch. -/
  value : δ → Option Datum

/-- What is documented of avro-cpp. -/
structure GenericApi.Documented {δ : Type} (api : GenericApi δ) : Prop where
  /-- A new record has a new datum of its type in every field. -/
  record_new : ∀ names types,
    api.asRecord (api.newDatum (.record names types))=some (names,types.map api.newDatum)
  /-- Fields are counted. -/
  fieldCount_record : ∀ r names fields,api.asRecord r=some (names,fields) →
    api.fieldCount r=.ok fields.length
  /-- What succeeds on a field changes this field. -/
  atField_record : ∀ r names fields i d d' put,api.asRecord r=some (names,fields) →
    fields[i]?=some d → put d=.ok d' →
      ∃ r',api.atField i put r=.ok r' ∧ api.asRecord r'=some (names,fields.set i d')
  /-- A record stands for its fields. -/
  value_record : ∀ r names fields values,api.asRecord r=some (names,fields) →
    fields.map api.value=values.map some → api.value r=some (.record names values)
  /-- A text can be assigned to a new datum of its type. -/
  setString_new : ∀ text,
    ∃ d,api.setString text (api.newDatum .string)=.ok d ∧ api.value d=some (.string text)
  /-- An `int` likewise. -/
  setInt_new : ∀ v,∃ d,api.setInt v (api.newDatum .int)=.ok d ∧ api.value d=some (.int v)
  /-- A `long` likewise. -/
  setLong_new : ∀ v,∃ d,api.setLong v (api.newDatum .long)=.ok d ∧ api.value d=some (.long v)
  /-- A symbol of an enum likewise. -/
  setSymbol_new : ∀ symbols symbol index,symbols.idxOf? symbol=some index →
    ∃ d,api.setSymbol symbol (api.newDatum (.enum symbols))=.ok d ∧
      api.value d=some (.enum symbols index)
  /-- A new union can select a branch of type null. -/
  selectBranch_null : ∀ branches i,branches[i]?=some .null →
    ∃ d,api.selectBranch i (api.newDatum (.union branches))=.ok d ∧
      api.value d=some (.union branches i .null)
  /-- A text can be assigned to a union that selected a branch of type string. -/
  selectBranch_string : ∀ branches i text,branches[i]?=some .string →
    ∃ d d',api.selectBranch i (api.newDatum (.union branches))=.ok d ∧
      api.setString text d=.ok d' ∧ api.value d'=some (.union branches i (.string text))
  /-- The encoding is that of the specification. -/
  encode_value : ∀ d a,api.value d=some a → api.encode d=.ok (AvroBinary.encode a)

end GenericDatum

section Serialize

/-- `AvroSerializationError`. -/
structure AvroSerializationError where
  /-- `what()`. -/
  what : String
  deriving DecidableEq

/-- `kSchemaVersionIdx`. -/
def kSchemaVersionIdx : ℕ := 0
/-- `kEventTypeIdx`. -/
def kEventTypeIdx : ℕ := 1
/-- `kFlowIdIdx`. -/
def kFlowIdIdx : ℕ := 2
/-- `kSrcIpIdx`. -/
def kSrcIpIdx : ℕ := 3
/-- `kDstIpIdx`. -/
def kDstIpIdx : ℕ := 4
/-- `kSrcPortIdx`. -/
def kSrcPortIdx : ℕ := 5
/-- `kDstPortIdx`. -/
def kDstPortIdx : ℕ := 6
/-- `kProtocolIdx`. -/
def kProtocolIdx : ℕ := 7
/-- `kStartTsIdx`. -/
def kStartTsIdx : ℕ := 8
/-- `kEventTsIdx`. -/
def kEventTsIdx : ℕ := 9
/-- `kPacketCountIdx`. -/
def kPacketCountIdx : ℕ := 10
/-- `kByteCountIdx`. -/
def kByteCountIdx : ℕ := 11
/-- `kExpireReasonIdx`. -/
def kExpireReasonIdx : ℕ := 12

/-- The symbol of an event type. -/
def symbolOf : FlowEventType → String
  | .flowStart => "FLOW_START"
  | .flowEnd => "FLOW_END"
  | .flowStats => "FLOW_STATS"

/-- The text of an expiry reason. -/
def reasonText : ExpireReason → String
  | .idleTimeout => "idle_timeout"
  | .tcpTeardown => "tcp_teardown"

/-- The four bytes of `htonl(schema_id)`. -/
def idBytes (schemaId : Int32) : List UInt8 :=
  let id := schemaId.toUInt32
  [(id>>>24).toUInt8,(id>>>16).toUInt8,(id>>>8).toUInt8,id.toUInt8]

variable {δ : Type} (api : GenericApi δ) (ntop : InetNtop) (evt : FlowEvent)

/-- The assignments of `serialize` to the fields of a new record. -/
def fillRecord (rec : δ) : Except (Failure String) δ := do
  let key := evt.state.key
  let rec ← api.atField kSchemaVersionIdx (api.setString "1.0") rec
  let rec ← api.atField kFlowIdIdx (api.setString (flowId ntop key)) rec
  let rec ← api.atField kSrcIpIdx (api.setString (ipArrayToString ntop key.srcIp)) rec
  let rec ← api.atField kDstIpIdx (api.setString (ipArrayToString ntop key.dstIp)) rec
  let rec ← api.atField kSrcPortIdx (api.setInt (Int32.ofNat key.srcPort.toNat)) rec
  let rec ← api.atField kDstPortIdx (api.setInt (Int32.ofNat key.dstPort.toNat)) rec
  let rec ← api.atField kProtocolIdx (api.setInt (Int32.ofNat key.protocol.toNat)) rec
  let rec ← api.atField kStartTsIdx (api.setLong evt.state.startUs) rec
  let rec ← api.atField kEventTsIdx (api.setLong evt.eventTimestampUs) rec
  let rec ← api.atField kPacketCountIdx (api.setLong evt.state.packetCount.toInt64) rec
  let rec ← api.atField kByteCountIdx (api.setLong evt.state.byteCount.toInt64) rec
  let rec ← api.atField kEventTypeIdx (api.setSymbol (symbolOf evt.type)) rec
  if evt.type=.flowEnd then
    let rec ← api.atField kExpireReasonIdx (api.selectBranch 1) rec
    api.atField kExpireReasonIdx (api.setString (reasonText evt.reason)) rec
  else api.atField kExpireReasonIdx (api.selectBranch 0) rec

/-- The `try` block of `serialize`. -/
def serializeBody (schema : Schema) (schemaId : Int32) :
    Except (Failure String) (List UInt8) := do
  let datum := api.newDatum schema
  let count ← api.fieldCount datum
  if count≤kExpireReasonIdx then
    .error (.threw "Avro schema field layout mismatch for FlowEvent")
  else
    let datum ← fillRecord api ntop evt datum
    let payload ← api.encode datum
    return 0x00::idBytes schemaId++payload

/-- `AvroSerializer::serialize`: every exception is caught and thrown again. -/
def serialize (schema : Schema) (schemaId : Int32) :
    Except (Failure AvroSerializationError) (List UInt8) :=
  match serializeBody api ntop evt schema schemaId with
  | .ok result => .ok result
  | .error (.threw what) => .error (.threw ⟨"Avro serialization failed: " ++ what⟩)
  | .error .undefined => .error .undefined

end Serialize

/-- The field names of `schemas/FlowEvent.avsc`. -/
def fieldNames : List String :=
  ["schema_version","event_type","flow_id","src_ip","dst_ip","src_port","dst_port","protocol",
    "start_timestamp_us","event_timestamp_us","packet_count","byte_count","expire_reason"]

/-- The symbols of its enum. -/
def eventTypeSymbols : List String := ["FLOW_START","FLOW_END","FLOW_STATS"]

/-- The types of its fields. -/
def flowEventTypes : List Schema :=
  [.string,.enum eventTypeSymbols,.string,.string,.string,.int,.int,.int,.long,.long,.long,.long,
    .union [.null,.string]]

/-- `schemas/FlowEvent.avsc`. -/
def flowEventSchema : Schema := .record fieldNames flowEventTypes

end PacketPipe.AvroSerializerModel

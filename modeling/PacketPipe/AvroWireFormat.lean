import PacketPipe.AvroGenericData
import PacketPipe.FlowIdText

/-!
# The wire format of flow events

`serialize` with the committed schema writes the header and the Avro encoding
of one record. A consumer that decodes the rest by the schema gets the fields
of the event under their names, so that equal bytes come from equal events.
-/

namespace PacketPipe.AvroWireFormat

open FlowEvents AvroBinary AvroSerializerModel AvroGenericData AddressTexts FlowIdText

section Consumer

/-- A flow event as a consumer of the topic sees it. -/
structure FlowEventRecord where
  schemaVersion : String
  eventType : String
  flowId : String
  srcIp : String
  dstIp : String
  srcPort : ℤ
  dstPort : ℤ
  protocol : ℤ
  startTimestampUs : Int64
  eventTimestampUs : Int64
  packetCount : Int64
  byteCount : Int64
  /-- Null or a text. -/
  expireReason : Option String
  deriving DecidableEq

/-- The field with a name. -/
def field (d : Datum) (name : String) : Option Datum :=
  match d with
  | .record names values => (names.idxOf? name).bind fun i => values[i]?
  | _ => none

/-- The value of a text. -/
def asText : Datum → Option String
  | .string s => some s
  | _ => none

/-- The symbol of an enum. -/
def asSymbol : Datum → Option String
  | .enum symbols index => symbols[index]?
  | _ => none

/-- The value of an `int`. -/
def asInt : Datum → Option ℤ
  | .int v => some v.toInt
  | _ => none

/-- The value of a `long`. -/
def asLong : Datum → Option Int64
  | .long v => some v
  | _ => none

/-- The value of a union of null and a text. -/
def asNullableText : Datum → Option (Option String)
  | .union _ _ .null => some none
  | .union _ _ (.string s) => some (some s)
  | _ => none

/-- The record by its field names. -/
def readRecord (d : Datum) : Option FlowEventRecord := do
  return {
    schemaVersion := ← (field d "schema_version").bind asText
    eventType := ← (field d "event_type").bind asSymbol
    flowId := ← (field d "flow_id").bind asText
    srcIp := ← (field d "src_ip").bind asText
    dstIp := ← (field d "dst_ip").bind asText
    srcPort := ← (field d "src_port").bind asInt
    dstPort := ← (field d "dst_port").bind asInt
    protocol := ← (field d "protocol").bind asInt
    startTimestampUs := ← (field d "start_timestamp_us").bind asLong
    eventTimestampUs := ← (field d "event_timestamp_us").bind asLong
    packetCount := ← (field d "packet_count").bind asLong
    byteCount := ← (field d "byte_count").bind asLong
    expireReason := ← (field d "expire_reason").bind asNullableText}

/-- The record a consumer should get. -/
def expectedRecord (ntop : InetNtop) (evt : FlowEvent) : FlowEventRecord where
  schemaVersion := "1.0"
  eventType := symbolOf evt.type
  flowId := flowId ntop evt.state.key
  srcIp := ipArrayToString ntop evt.state.key.srcIp
  dstIp := ipArrayToString ntop evt.state.key.dstIp
  srcPort := evt.state.key.srcPort.toNat
  dstPort := evt.state.key.dstPort.toNat
  protocol := evt.state.key.protocol.toNat
  startTimestampUs := evt.state.startUs
  eventTimestampUs := evt.eventTimestampUs
  packetCount := evt.state.packetCount.toInt64
  byteCount := evt.state.byteCount.toInt64
  expireReason := if evt.type=.flowEnd then some (reasonText evt.reason) else none

end Consumer

section Datum

variable (ntop : InetNtop) (evt : FlowEvent)

/-- The index of the symbol of an event type. -/
def symbolIndex : FlowEventType → ℕ
  | .flowStart => 0
  | .flowEnd => 1
  | .flowStats => 2

/-- The union of the last field. -/
def reasonDatum : Datum :=
  if evt.type=.flowEnd then .union [.null,.string] 1 (.string (reasonText evt.reason))
  else .union [.null,.string] 0 .null

/-- The fields of the record that `serialize` encodes. -/
def flowEventValues : List Datum :=
  [.string "1.0",.enum eventTypeSymbols (symbolIndex evt.type),
    .string (flowId ntop evt.state.key),.string (ipArrayToString ntop evt.state.key.srcIp),
    .string (ipArrayToString ntop evt.state.key.dstIp),
    .int (Int32.ofNat evt.state.key.srcPort.toNat),
    .int (Int32.ofNat evt.state.key.dstPort.toNat),
    .int (Int32.ofNat evt.state.key.protocol.toNat),.long evt.state.startUs,
    .long evt.eventTimestampUs,.long evt.state.packetCount.toInt64,
    .long evt.state.byteCount.toInt64,reasonDatum evt]

/-- The record that `serialize` encodes. -/
def flowEventDatum : Datum := .record fieldNames (flowEventValues ntop evt)

/-- Every event type is a symbol of the schema. -/
theorem symbol_index (type : FlowEventType) :
    eventTypeSymbols.idxOf? (symbolOf type)=some (symbolIndex type) := by
  cases type with
  | flowStart => decide
  | flowEnd => decide
  | flowStats => decide

section Assignments

variable {δ : Type} {api : GenericApi δ}

/-- An assignment to a field of a record. -/
theorem assigned (h : api.Documented) {r d : δ} {names : List String} {fields : List δ}
    {put : δ → Except (Failure String) δ} {a : Datum}
    (hrecord : api.asRecord r=some (names,fields)) (i : ℕ) (hfield : fields[i]?=some d)
    (hput : ∃ d',put d=.ok d' ∧ api.value d'=some a) :
    ∃ r' d',api.atField i put r=.ok r' ∧ api.asRecord r'=some (names,fields.set i d') ∧
      api.value d'=some a := by
  obtain ⟨d',hd',hvalue⟩ := hput
  obtain ⟨r',hr',hrecord'⟩ := h.atField_record r names fields i d d' put hrecord hfield hd'
  exact ⟨r',d',hr',hrecord',hvalue⟩

/-- The last field: null is selected, or the text behind its branch. -/
theorem assigned_reason (h : api.Documented) {r : δ} {names : List String} {fields : List δ} {i : ℕ}
    (hrecord : api.asRecord r=some (names,fields))
    (hfield : fields[i]?=some (api.newDatum (.union [.null,.string]))) :
    ∃ r' d',(if evt.type=.flowEnd then
          (api.atField i (api.selectBranch 1) r).bind
            (api.atField i (api.setString (reasonText evt.reason)))
        else api.atField i (api.selectBranch 0) r)=.ok r' ∧
      api.asRecord r'=some (names,fields.set i d') ∧ api.value d'=some (reasonDatum evt) := by
  rw [reasonDatum]
  by_cases hend : evt.type=.flowEnd
  · rw [if_pos hend,if_pos hend]
    obtain ⟨d,d',hselect,hset,hvalue⟩ :=
      h.selectBranch_string [.null,.string] 1 (reasonText evt.reason) rfl
    obtain ⟨r₁,hr₁,hrecord₁⟩ := h.atField_record r names fields i _ d _ hrecord hfield hselect
    have hselected : (fields.set i d)[i]?=some d := by
      rw [List.getElem?_set_self',hfield]
      rfl
    obtain ⟨r₂,hr₂,hrecord₂⟩ := h.atField_record r₁ names _ i d d' _ hrecord₁ hselected hset
    rw [List.set_set] at hrecord₂
    rw [hr₁,Except.bind]
    exact ⟨r₂,d',hr₂,hrecord₂,hvalue⟩
  · rw [if_neg hend,if_neg hend]
    exact assigned h hrecord i hfield (h.selectBranch_null [.null,.string] 0 rfl)

/-- The assignments of `serialize` succeed on a new record and make it stand
for the record of the event. -/
theorem fillRecord_value (h : api.Documented) :
    ∃ r,fillRecord api ntop evt (api.newDatum flowEventSchema)=.ok r ∧
      api.value r=some (flowEventDatum ntop evt) := by
  have hnew := h.record_new fieldNames flowEventTypes
  have hsymbol := h.setSymbol_new _ _ _ (symbol_index evt.type)
  obtain ⟨r₀,version,hr₀,hrecord₀,hversion⟩ :=
    assigned h hnew kSchemaVersionIdx rfl (h.setString_new "1.0")
  obtain ⟨r₁,flow,hr₁,hrecord₁,hflow⟩ :=
    assigned h hrecord₀ kFlowIdIdx rfl (h.setString_new (flowId ntop evt.state.key))
  obtain ⟨r₂,srcIp,hr₂,hrecord₂,hsrcIp⟩ := assigned h hrecord₁ kSrcIpIdx rfl
    (h.setString_new (ipArrayToString ntop evt.state.key.srcIp))
  obtain ⟨r₃,dstIp,hr₃,hrecord₃,hdstIp⟩ := assigned h hrecord₂ kDstIpIdx rfl
    (h.setString_new (ipArrayToString ntop evt.state.key.dstIp))
  obtain ⟨r₄,srcPort,hr₄,hrecord₄,hsrcPort⟩ := assigned h hrecord₃ kSrcPortIdx rfl
    (h.setInt_new (Int32.ofNat evt.state.key.srcPort.toNat))
  obtain ⟨r₅,dstPort,hr₅,hrecord₅,hdstPort⟩ := assigned h hrecord₄ kDstPortIdx rfl
    (h.setInt_new (Int32.ofNat evt.state.key.dstPort.toNat))
  obtain ⟨r₆,protocol,hr₆,hrecord₆,hprotocol⟩ := assigned h hrecord₅ kProtocolIdx rfl
    (h.setInt_new (Int32.ofNat evt.state.key.protocol.toNat))
  obtain ⟨r₇,started,hr₇,hrecord₇,hstarted⟩ :=
    assigned h hrecord₆ kStartTsIdx rfl (h.setLong_new evt.state.startUs)
  obtain ⟨r₈,dated,hr₈,hrecord₈,hdated⟩ :=
    assigned h hrecord₇ kEventTsIdx rfl (h.setLong_new evt.eventTimestampUs)
  obtain ⟨r₉,packets,hr₉,hrecord₉,hpackets⟩ :=
    assigned h hrecord₈ kPacketCountIdx rfl (h.setLong_new evt.state.packetCount.toInt64)
  obtain ⟨r₁₀,bytes,hr₁₀,hrecord₁₀,hbytes⟩ :=
    assigned h hrecord₉ kByteCountIdx rfl (h.setLong_new evt.state.byteCount.toInt64)
  obtain ⟨r₁₁,type,hr₁₁,hrecord₁₁,htype⟩ := assigned h hrecord₁₀ kEventTypeIdx rfl hsymbol
  obtain ⟨r₁₂,reason,hr₁₂,hrecord₁₂,hreason⟩ :=
    assigned_reason evt h hrecord₁₁ (i := kExpireReasonIdx) rfl
  refine ⟨r₁₂,?_,h.value_record r₁₂ fieldNames _ (flowEventValues ntop evt) hrecord₁₂ ?_⟩
  · simp only [fillRecord,flowEventSchema,hr₀,hr₁,hr₂,hr₃,hr₄,hr₅,hr₆,hr₇,hr₈,hr₉,hr₁₀,hr₁₁,
      bind,Except.bind] at hr₁₂ ⊢
    exact hr₁₂
  · simp only [List.map_set,hversion,htype,hflow,hsrcIp,hdstIp,hsrcPort,hdstPort,hprotocol,
      hstarted,hdated,hpackets,hbytes,hreason]
    rfl

/-- With the committed schema `serialize` returns the header and the encoding
of the record. -/
theorem serialize_eq (h : api.Documented) (schemaId : Int32) :
    serialize api ntop evt flowEventSchema schemaId=
      .ok (0x00::idBytes schemaId++encode (flowEventDatum ntop evt)) := by
  obtain ⟨r,hfill,hvalue⟩ := fillRecord_value ntop evt h
  have hcount : api.fieldCount (api.newDatum flowEventSchema)=.ok 13 :=
    h.fieldCount_record _ _ _ (h.record_new fieldNames flowEventTypes)
  have hbody : serializeBody api ntop evt flowEventSchema schemaId=
      .ok (0x00::idBytes schemaId++encode (flowEventDatum ntop evt)) := by
    simp only [serializeBody,hcount,hfill,h.encode_value r _ hvalue,bind,Except.bind]
    rfl
  rw [serialize,hbody]

end Assignments

/-- A consumer reads the record of the event. -/
theorem readRecord_datum :
    readRecord (flowEventDatum ntop evt)=some (expectedRecord ntop evt) := by
  have hsrc := evt.state.key.srcPort.toNat_lt
  have hdst := evt.state.key.dstPort.toNat_lt
  have hprotocol := evt.state.key.protocol.toNat_lt
  have hfield : ∀ name i d,fieldNames.idxOf? name=some i → (flowEventValues ntop evt)[i]?=some d →
      field (flowEventDatum ntop evt) name=some d := by
    intro name i d hname hvalue
    rw [flowEventDatum,field,hname,Option.bind_some,hvalue]
  have hsymbol : asSymbol (.enum eventTypeSymbols (symbolIndex evt.type))=
      some (symbolOf evt.type) := by
    cases evt.type with
    | flowStart => rfl
    | flowEnd => rfl
    | flowStats => rfl
  have hreason : asNullableText (reasonDatum evt)=
      some (if evt.type=.flowEnd then some (reasonText evt.reason) else none) := by
    rw [reasonDatum]
    split <;> rfl
  rw [readRecord,hfield "schema_version" 0 _ (by decide) rfl,
    hfield "event_type" 1 _ (by decide) rfl,hfield "flow_id" 2 _ (by decide) rfl,
    hfield "src_ip" 3 _ (by decide) rfl,hfield "dst_ip" 4 _ (by decide) rfl,
    hfield "src_port" 5 _ (by decide) rfl,hfield "dst_port" 6 _ (by decide) rfl,
    hfield "protocol" 7 _ (by decide) rfl,hfield "start_timestamp_us" 8 _ (by decide) rfl,
    hfield "event_timestamp_us" 9 _ (by decide) rfl,hfield "packet_count" 10 _ (by decide) rfl,
    hfield "byte_count" 11 _ (by decide) rfl,hfield "expire_reason" 12 _ (by decide) rfl]
  simp only [Option.bind_some,hsymbol,hreason,asText,asInt,asLong]
  rw [toInt_ofNat32 (by omega),toInt_ofNat32 (by omega),toInt_ofNat32 (by omega)]
  rfl

/-- The lengths of the texts fit a `long`. -/
theorem length_address (ip : Address) : (ipArrayToString ntop ip).length<46 := by
  rw [ipArrayToString]
  split
  · exact (ntop.ipv4 _).fits
  · exact (ntop.ipv6 _).fits

/-- The decimal text of a 16-bit number is short. -/
theorem length_decimal {n : ℕ} (h : n<2^16) : n.repr.length≤5 := by
  rw [← String.length_toList,Nat.toList_repr]
  exact (Nat.length_toDigits_le_iff (by decide) (by decide)).mpr (by omega)

/-- The key text is short. -/
theorem length_flowId (key : FlowKey) : (flowId ntop key).length≤115 := by
  have hsrc := length_address ntop key.srcIp
  have hdst := length_address ntop key.dstIp
  have hsport := length_decimal key.srcPort.toNat_lt
  have hdport := length_decimal key.dstPort.toNat_lt
  have hproto := length_decimal (n:=key.protocol.toNat) (by
    have hbyte := key.protocol.toNat_lt
    omega)
  have hformat : ∀ (v6 : Bool) (text : String),text.length<46 →
      (if v6 then "[" ++ text ++ "]" else text).length≤47 := by
    intro v6 text htext
    cases v6 with
    | true =>
      simp only [if_true,String.length_append]
      change 1+text.length+1≤47
      omega
    | false =>
      simp only [Bool.false_eq_true,if_false]
      omega
  have hsfmt := hformat (!isIpv4Mapped key.srcIp) _ hsrc
  have hdfmt := hformat (!isIpv4Mapped key.dstIp) _ hdst
  simp only [flowId,String.length_append]
  change _+1+_+1+_+1+_+1+_≤115
  omega

/-- The record conforms to the committed schema. -/
theorem conforms_datum : Conforms (flowEventDatum ntop evt) flowEventSchema := by
  have htext : ∀ s : String,s.length≤115 → Conforms (.string s) .string := by
    intro s hs
    have hbytes := length_utf8_le s
    exact .string s (by omega)
  have hsymbol : symbolIndex evt.type<3 := by
    cases evt.type with
    | flowStart => decide
    | flowEnd => decide
    | flowStats => decide
  have hreason : Conforms (reasonDatum evt) (.union [.null,.string]) := by
    rw [reasonDatum]
    split
    · refine .union _ 1 .string _ rfl (by decide) (htext _ ?_)
      cases evt.reason with
      | idleTimeout => decide
      | tcpTeardown => decide
    · exact .union _ 0 .null _ rfl (by decide) .null
  have hsrc := length_address ntop evt.state.key.srcIp
  have hdst := length_address ntop evt.state.key.dstIp
  refine .record _ _ _ ?_
  refine .cons _ _ _ _ (htext _ (by decide)) ?_
  refine .cons _ _ _ _ (.enum _ _ hsymbol (by omega)) ?_
  refine .cons _ _ _ _ (htext _ (length_flowId ntop _)) ?_
  refine .cons _ _ _ _ (htext _ (by omega)) ?_
  refine .cons _ _ _ _ (htext _ (by omega)) ?_
  refine .cons _ _ _ _ (.int _) (.cons _ _ _ _ (.int _) (.cons _ _ _ _ (.int _) ?_))
  refine .cons _ _ _ _ (.long _) (.cons _ _ _ _ (.long _) ?_)
  refine .cons _ _ _ _ (.long _) (.cons _ _ _ _ (.long _) ?_)
  exact .cons _ _ _ _ hreason .nil

/-- A consumer decodes the whole payload into the record. -/
theorem decode_payload :
    decode flowEventSchema (encode (flowEventDatum ntop evt))=
      some (flowEventDatum ntop evt,[]) := by
  have hdecode := decode_encode (conforms_datum ntop evt) []
  rw [List.append_nil] at hdecode
  exact hdecode

end Datum

section WireFormat

/-- The bytes of the schema id are its big-endian digits. -/
theorem idBytes_value (schemaId : Int32) :
    ∃ a b c d,idBytes schemaId=[a,b,c,d] ∧
      ((a.toNat*256+b.toNat)*256+c.toNat)*256+d.toNat=schemaId.toUInt32.toNat := by
  refine ⟨_,_,_,_,rfl,?_⟩
  have hid := schemaId.toUInt32.toNat_lt
  have hshift : ∀ k<32,(schemaId.toUInt32>>>UInt32.ofNat k).toNat=
      schemaId.toUInt32.toNat/2^k := by
    intro k hk
    have hwidth : (UInt32.ofNat k).toNat=k := by
      rw [UInt32.toNat_ofNat']
      omega
    rw [UInt32.toNat_shiftRight,hwidth,Nat.mod_eq_of_lt hk,Nat.shiftRight_eq_div_pow]
  have h24 : (schemaId.toUInt32>>>24).toNat=schemaId.toUInt32.toNat/2^24 := hshift 24 (by decide)
  have h16 : (schemaId.toUInt32>>>16).toNat=schemaId.toUInt32.toNat/2^16 := hshift 16 (by decide)
  have h8 : (schemaId.toUInt32>>>8).toNat=schemaId.toUInt32.toNat/2^8 := hshift 8 (by decide)
  simp only [UInt32.toNat_toUInt8]
  omega

/-- Event types have different symbols. -/
theorem symbolOf_injective : Function.Injective symbolOf := by
  intro a b h
  cases a <;> cases b <;> first | rfl | exact absurd h (by decide)

/-- Expiry reasons have different texts. -/
theorem reasonText_injective : Function.Injective reasonText := by
  intro a b h
  cases a <;> cases b <;> first | rfl | exact absurd h (by decide)

/-- The signed counter determines the counter. -/
theorem toInt64_injective : Function.Injective UInt64.toInt64 :=
  Function.LeftInverse.injective UInt64.toUInt64_toInt64

/-- Events with the same record agree in every field that is written. -/
theorem expectedRecord_injective {ntop : InetNtop} (h : Documented ntop) {evt evt' : FlowEvent}
    (heq : expectedRecord ntop evt=expectedRecord ntop evt') :
    evt.type=evt'.type ∧ evt.state.key=evt'.state.key ∧ evt.state.startUs=evt'.state.startUs ∧
      evt.eventTimestampUs=evt'.eventTimestampUs ∧
      evt.state.packetCount=evt'.state.packetCount ∧ evt.state.byteCount=evt'.state.byteCount ∧
      (evt.type=.flowEnd → evt.reason=evt'.reason) := by
  have htype : evt.type=evt'.type := symbolOf_injective (congrArg FlowEventRecord.eventType heq)
  have hkey : evt.state.key=evt'.state.key :=
    flowId_injective h (congrArg FlowEventRecord.flowId heq)
  have hcount : evt.state.packetCount=evt'.state.packetCount :=
    toInt64_injective (congrArg FlowEventRecord.packetCount heq)
  have hbytes : evt.state.byteCount=evt'.state.byteCount :=
    toInt64_injective (congrArg FlowEventRecord.byteCount heq)
  refine ⟨htype,hkey,congrArg FlowEventRecord.startTimestampUs heq,
    congrArg FlowEventRecord.eventTimestampUs heq,hcount,hbytes,fun hend => ?_⟩
  have hreason := congrArg FlowEventRecord.expireReason heq
  simp only [expectedRecord,← htype,hend,if_true,Option.some.injEq] at hreason
  exact reasonText_injective hreason

/-- `serialize` with the committed schema never throws; behind the header a
consumer decodes exactly one record with the fields of the event, and equal
bytes come from events that agree in all that is written. -/
theorem serialize_round_trip {δ : Type} {api : GenericApi δ} (hapi : api.Documented)
    {ntop : InetNtop} (h : Documented ntop) (schemaId : Int32) :
    (∃ a b c d,idBytes schemaId=[a,b,c,d] ∧
      ((a.toNat*256+b.toNat)*256+c.toNat)*256+d.toNat=schemaId.toUInt32.toNat) ∧
    (∀ evt,∃ payload datum,
      serialize api ntop evt flowEventSchema schemaId=.ok (0x00::idBytes schemaId++payload) ∧
      decode flowEventSchema payload=some (datum,[]) ∧
      readRecord datum=some (expectedRecord ntop evt)) ∧
    Function.Injective symbolOf ∧ Function.Injective reasonText ∧
    ∀ evt evt',
      serialize api ntop evt flowEventSchema schemaId=
          serialize api ntop evt' flowEventSchema schemaId →
      evt.type=evt'.type ∧ evt.state.key=evt'.state.key ∧
        evt.state.startUs=evt'.state.startUs ∧ evt.eventTimestampUs=evt'.eventTimestampUs ∧
        evt.state.packetCount=evt'.state.packetCount ∧
        evt.state.byteCount=evt'.state.byteCount ∧
        (evt.type=.flowEnd → evt.reason=evt'.reason) := by
  refine ⟨idBytes_value schemaId,fun evt => ⟨_,_,serialize_eq ntop evt hapi schemaId,
    decode_payload ntop evt,readRecord_datum ntop evt⟩,symbolOf_injective,reasonText_injective,
    fun evt evt' heq => ?_⟩
  rw [serialize_eq ntop evt hapi,serialize_eq ntop evt' hapi] at heq
  have hpayload : encode (flowEventDatum ntop evt)=encode (flowEventDatum ntop evt') :=
    List.append_cancel_left (Except.ok.inj heq)
  have hdatum : flowEventDatum ntop evt=flowEventDatum ntop evt' := by
    have hdecode := decode_payload ntop evt
    rw [hpayload,decode_payload ntop evt'] at hdecode
    exact (Prod.mk.inj (Option.some.inj hdecode)).1.symm
  have hrecord := readRecord_datum ntop evt
  rw [hdatum,readRecord_datum ntop evt'] at hrecord
  exact expectedRecord_injective h (Option.some.inj hrecord).symm

/-- A connection torn down by FIN or RST. -/
def tornDown : FlowEvent where
  type := .flowEnd
  state := {
    key := mixedKey 54321 80
    startUs := 5
    lastSeenUs := 9
    packetCount := 7
    byteCount := 4096}
  eventTimestampUs := 11
  reason := .tcpTeardown

/-- The message of a torn down connection under schema 42. -/
theorem tornDown_round_trip :
    ∃ payload datum,
      serialize plainData plainNtop tornDown flowEventSchema 42=.ok ([0,0,0,0,42]++payload) ∧
      decode flowEventSchema payload=some (datum,[]) ∧
      (readRecord datum).map (fun r => (r.eventType,r.srcPort,r.packetCount,r.expireReason))=
        some ("FLOW_END",54321,7,some "tcp_teardown") := by
  obtain ⟨payload,datum,hserialize,hdecode,hread⟩ :=
    (serialize_round_trip plainData_documented plainNtop_documented 42).2.1 tornDown
  exact ⟨payload,datum,hserialize,hdecode,by rw [hread]; rfl⟩

end WireFormat

end PacketPipe.AvroWireFormat

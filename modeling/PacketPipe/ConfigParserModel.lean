import Mathlib.Algebra.Group.Int.Defs
import Mathlib.Data.List.Basic
import Mathlib.Data.Int.Notation

/-!
# Command-line configuration

`AppConfig` with its defaults and `ConfigParser::parse` with every branch,
check and error text. `std::invalid_argument` is the error of the result.
Integer options go through `std::stoi`, which reads the longest digit run
after optional white space and sign, and ignores what follows it.
-/

namespace PacketPipe.ConfigParserModel

/-- All runtime configuration derived from the command line. -/
structure AppConfig where
  /-- Capture file, empty when `--iface` is used. -/
  pcapFile : String := ""
  /-- Interface, empty when `--pcap` is used. -/
  iface : String := ""
  /-- BPF filter expression. -/
  bpfFilter : String := ""
  /-- Idle flow expiry timeout. -/
  flowTimeoutSec : Int32 := 60
  /-- Maximum simultaneous flows. -/
  maxFlows : Int32 := 100000
  /-- Heartbeat interval. -/
  statsIntervalSec : Int32 := 30
  /-- Broker list. -/
  kafkaBrokers : String := "localhost:9092"
  /-- Topic. -/
  kafkaTopic : String := "packetpipe.flows"
  /-- Optional librdkafka configuration file. -/
  kafkaConfFile : String := ""
  /-- Schema Registry URL. -/
  schemaRegistryUrl : String := "http://localhost:8081"
  /-- Capacity of the sink's retry buffer. -/
  srBufferSize : Int32 := 1000
  /-- Prometheus port. -/
  metricsPort : UInt16 := 9090
  /-- Log level. -/
  logLevel : String := "info"
  deriving DecidableEq

/-- The usage text appended to every error. -/
def kUsage : String :=
  "Usage: packetpipe --pcap <file> | --iface <name> [options]\n" ++
  "\n" ++
  "Ingestion (exactly one required):\n" ++
  "  --pcap <file>            Read packets from a pcap file\n" ++
  "  --iface <name>           Capture from a live network interface\n" ++
  "\n" ++
  "Options:\n" ++
  "  --filter <bpf>           BPF filter expression (default: none)\n" ++
  "  --flow-timeout <sec>     Idle flow expiry timeout (default: 60)\n" ++
  "  --max-flows <N>          Maximum simultaneous flows (default: 100000)\n" ++
  "  --stats-interval <sec>   FlowStats heartbeat interval (default: 30)\n" ++
  "  --kafka-brokers <list>   Kafka broker list (default: localhost:9092)\n" ++
  "  --kafka-topic <name>     Kafka topic (default: packetpipe.flows)\n" ++
  "  --kafka-conf <file>      librdkafka config file (optional)\n" ++
  "  --schema-registry-url <url>  Schema Registry URL (default: http://localhost:8081)\n" ++
  "  --sr-buffer <N>          SR retry buffer size (default: 1000)\n" ++
  "  --metrics-port <port>    Prometheus metrics port (default: 9090)\n" ++
  "  --log-level <level>      Log level: error|warn|info|debug (default: info)\n" ++
  "  --help                   Show this help\n"

/-- `die`: throw with the usage text appended. -/
def die {α : Type} (msg : String) : Except String α := .error (msg ++ "\n\n" ++ kUsage)

/-- The characters `std::isspace` accepts in the C locale. -/
def isSpace (c : Char) : Bool :=
  c = ' ' || c = '\t' || c = '\n' || c = '\r' || c = '\x0b' || c = '\x0c'

/-- The value of a run of decimal digits. -/
def digitsValue (digits : List Char) : ℕ :=
  digits.foldl (fun n c => 10*n+(c.toNat - '0'.toNat)) 0

/-- Longest digit run, as `strtol` reads it; no digit is no conversion. -/
def unsignedValue (text : List Char) : Option ℕ :=
  let digits := text.takeWhile Char.isDigit
  if digits=[] then none else some (digitsValue digits)

/-- `strtol` in base ten: white space, one optional sign, then digits. -/
def strtol (text : List Char) : Option ℤ :=
  match text.dropWhile isSpace with
  | '-'::rest => (unsignedValue rest).map fun n => -(n : ℤ)
  | '+'::rest => (unsignedValue rest).map fun n => (n : ℤ)
  | rest => (unsignedValue rest).map fun n => (n : ℤ)

/-- `std::stoi`: `invalid_argument` without a conversion and `out_of_range`
outside the 32-bit range. -/
def stoi (s : String) : Except String Int32 :=
  match strtol s.toList with
  | none => .error "stoi"
  | some v => if -2^31≤v ∧ v<2^31 then .ok (Int32.ofInt v) else .error "stoi"

/-- `parse_positive_int`. The `catch` also catches its own `die`. -/
def parsePositiveInt (s flag : String) : Except String Int32 :=
  tryCatch
    (do
      let v ← stoi s
      if v≤0 then die (flag ++ " must be a positive integer")
      return v)
    (fun _ => die (flag ++ " requires an integer value, got: " ++ s))

/-- The levels `--log-level` admits. -/
def kLevels : List String := ["error","warn","info","debug"]

/-- The branches of the parse loop that consume a value. `none` is the final
`else` of the chain. -/
def storeValue (cfg : AppConfig) (arg value : String) : Option (Except String AppConfig) :=
  if arg = "--pcap" then some (.ok {cfg with pcapFile := value})
  else if arg = "--iface" then some (.ok {cfg with iface := value})
  else if arg = "--filter" then some (.ok {cfg with bpfFilter := value})
  else if arg = "--flow-timeout" then
    some (do return {cfg with flowTimeoutSec := ← parsePositiveInt value arg})
  else if arg = "--max-flows" then
    some (do return {cfg with maxFlows := ← parsePositiveInt value arg})
  else if arg = "--stats-interval" then
    some (do return {cfg with statsIntervalSec := ← parsePositiveInt value arg})
  else if arg = "--kafka-brokers" then some (.ok {cfg with kafkaBrokers := value})
  else if arg = "--kafka-topic" then some (.ok {cfg with kafkaTopic := value})
  else if arg = "--kafka-conf" then some (.ok {cfg with kafkaConfFile := value})
  else if arg = "--schema-registry-url" then some (.ok {cfg with schemaRegistryUrl := value})
  else if arg = "--sr-buffer" then
    some (do return {cfg with srBufferSize := ← parsePositiveInt value arg})
  else if arg = "--metrics-port" then
    some (do
      let p ← parsePositiveInt value arg
      if p>65535 then die "--metrics-port must be in range 1-65535"
      return {cfg with metricsPort := UInt16.ofNat p.toInt.toNat})
  else if arg = "--log-level" then
    some (if value∈kLevels then .ok {cfg with logLevel := value}
      else die "--log-level must be one of: error warn info debug")
  else none

/-- The argument loop. A flag that needs a value and stands last dies in
`next_arg` before its branch looks at anything else. -/
def parseLoop (cfg : AppConfig) : List String → Except String AppConfig
  | [] => .ok cfg
  | [arg] =>
    if arg = "--help" ∨ arg = "-h" then .error kUsage
    else if (storeValue cfg arg "").isSome then die ("Flag " ++ arg ++ " requires a value")
    else die ("Unknown argument: " ++ arg)
  | arg::value::rest =>
    if arg = "--help" ∨ arg = "-h" then .error kUsage
    else match storeValue cfg arg value with
      | some (.ok cfg') => parseLoop cfg' rest
      | some (.error e) => .error e
      | none => die ("Unknown argument: " ++ arg)

/-- `ConfigParser::parse` on the whole of `argv`, program name first. -/
def parse (argv : List String) : Except String AppConfig := do
  let cfg ← parseLoop {} argv.tail
  if cfg.pcapFile = "" ∧ cfg.iface = "" then
    die "Either --pcap <file> or --iface <name> is required"
  if cfg.pcapFile≠"" ∧ cfg.iface≠"" then
    die "--pcap and --iface are mutually exclusive"
  return cfg

example : parse ["packetpipe","--pcap","a.pcap","--max-flows","7"]=
    .ok {pcapFile := "a.pcap",maxFlows := 7} := by decide

end PacketPipe.ConfigParserModel

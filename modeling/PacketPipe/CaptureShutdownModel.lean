import PacketPipe.ObservedMachines

/-!
# Signals during a capture

The main thread from the installation of the signal handlers to the end of
`run`, one step for each libpcap call, and the handler, which can run between
any two of them and during a read. Of libpcap only the break flag of a handle
is modelled: `pcap_breakloop` sets it, a read is bound by the flag that it finds,
and only a read that returns `PCAP_ERROR_BREAK` clears it. What the calls return
is an input.
-/

namespace PacketPipe.CaptureShutdownModel

open ObservedMachines

/-- What `pcap_loop` or `pcap_dispatch` returns. -/
inductive ReadResult
  /-- The end of the file, or a number of packets. -/
  | done
  /-- `PCAP_ERROR`. -/
  | error
  /-- `PCAP_ERROR_BREAK`. -/
  | broken
  deriving DecidableEq

/-- `handle_`. -/
inductive HandlePtr
  /-- `nullptr`. -/
  | null
  /-- An open handle with its break flag. -/
  | live (breakLoop : Bool)
  /-- A handle that was closed. -/
  | dangling
  deriving DecidableEq

/-- `pcap_breakloop` on the handle, if there is one: `stop` of both sources. -/
def stop : HandlePtr → HandlePtr
  | .null => .null
  | .live _ => .live true
  | .dangling => .dangling

/-- Whether the next read finds the break flag set. -/
def HandlePtr.breakLoop : HandlePtr → Bool
  | .null => false
  | .live breakLoop => breakLoop
  | .dangling => false

/-- What a libpcap call reports. -/
structure Reply where
  /-- The call succeeded. -/
  ok : Bool := true
  /-- `errbuf`, or what `pcap_geterr` returns. -/
  err : String := ""
  /-- What a read returns. -/
  read : ReadResult := .done

/-- Where the main thread is; an outcome is the text of an exception. -/
inductive Point
  /-- In `main`, with the handlers installed and `run` not called yet. -/
  | installed
  /-- In `run`, until the opened handle is assigned to `handle_`. -/
  | opening
  /-- Before the test for a filter. -/
  | opened
  /-- Before `pcap_compile`. -/
  | compiling
  /-- Before `pcap_setfilter`. -/
  | settingFilter
  /-- Before `pcap_setnonblock`. -/
  | settingNonblock
  /-- Before `pcap_loop` or `pcap_dispatch`. -/
  | starting
  /-- During a read, `bound` when it found the break flag set. -/
  | reading (bound : Bool)
  /-- Before `pcap_close`. -/
  | closing (outcome : Option String)
  /-- Before `handle_` is reset. -/
  | closed (outcome : Option String)
  /-- `run` has returned or thrown. -/
  | finished (outcome : Option String)
  deriving DecidableEq

/-- The parts in which the two definitions of `run` differ. -/
structure SourceCode where
  /-- `bpf_filter_`. -/
  bpfFilter : String
  /-- The exception for a handle that cannot be opened. -/
  openError : String → String
  /-- What follows the filter. -/
  afterFilter : Point
  /-- What follows a read. -/
  afterRead : ReadResult → String → Point

/-- `PcapFileSource`: one `pcap_loop`, whose result is ignored. -/
def pcapFileSource (bpfFilter : String) : SourceCode where
  bpfFilter := bpfFilter
  openError err := "Cannot open pcap file: "++err
  afterFilter := .starting
  afterRead _ _ := .closing none

/-- `LiveCaptureSource`: `pcap_dispatch` until it is broken off or fails. -/
def liveCaptureSource (iface bpfFilter : String) : SourceCode where
  bpfFilter := bpfFilter
  openError err := "Cannot open interface "++iface++": "++err
  afterFilter := .settingNonblock
  afterRead
    | .broken,_ => .closing none
    | .error,err => .finished (some ("pcap_dispatch error: "++err))
    | .done,_ => .starting

/-- The source that `main` constructs, from `pcap_file`, `iface` and
`bpf_filter`. -/
def packetSource (pcapFile iface bpfFilter : String) : SourceCode :=
  if pcapFile.isEmpty=true then liveCaptureSource iface bpfFilter else pcapFileSource bpfFilter

/-- The main thread and what the handler shares with it. -/
structure CaptureState where
  /-- Where the main thread is. -/
  point : Point := .installed
  /-- `handle_` of the source. -/
  handle : HandlePtr := .null
  /-- `g_shutdown`. -/
  shutdown : Bool := false
  deriving DecidableEq

/-- What an observer sees. -/
inductive ShutdownObservation
  /-- The handler has run. -/
  | handled
  /-- A read was started, `bound` to return `PCAP_ERROR_BREAK` or not. -/
  | readStarted (bound : Bool)
  deriving DecidableEq

/-- `signal_handler`. -/
def signalHandler (s : CaptureState) : CaptureState×List ShutdownObservation :=
  ({s with shutdown := true,handle := stop s.handle},[.handled])

/-- The next step of the main thread. -/
def advance (code : SourceCode) (reply : Reply) (s : CaptureState) :
    CaptureState×List ShutdownObservation :=
  match s.point with
  | .installed => ({s with point := .opening},[])
  | .opening =>
    if reply.ok=true then ({s with point := .opened,handle := .live false},[])
    else ({s with point := .finished (some (code.openError reply.err)),handle := .null},[])
  | .opened =>
    ({s with point := if code.bpfFilter.isEmpty=true then code.afterFilter else .compiling},[])
  | .compiling =>
    ({s with point := if reply.ok=true then .settingFilter
      else .closing (some ("BPF filter compile error: "++reply.err))},[])
  | .settingFilter =>
    ({s with point := if reply.ok=true then code.afterFilter
      else .closing (some ("BPF setfilter error: "++reply.err))},[])
  | .settingNonblock =>
    ({s with point := if reply.ok=true then .starting
      else .finished (some ("pcap_setnonblock: "++reply.err))},[])
  | .starting =>
    ({s with point := .reading s.handle.breakLoop},[.readStarted s.handle.breakLoop])
  | .reading _ =>
    ({s with
      point := code.afterRead reply.read reply.err
      handle := if reply.read=.broken then .live false else s.handle},[])
  | .closing outcome => ({s with point := .closed outcome,handle := .dangling},[])
  | .closed outcome => ({s with point := .finished outcome,handle := .null},[])
  | .finished _ => (s,[])

/-- What happens next. -/
inductive ShutdownInput
  /-- SIGINT or SIGTERM is delivered. -/
  | signal
  /-- The main thread makes a step. -/
  | advance (reply : Reply)

/-- The main thread with signals delivered at any point. -/
def shutdownMachine (code : SourceCode) :
    Machine CaptureState ShutdownInput ShutdownObservation where
  step s
    | .signal => signalHandler s
    | .advance reply => advance code reply s

/-- The main thread after the handlers were installed and the inputs happened. -/
abbrev capturing (code : SourceCode) (inputs : List ShutdownInput) : CaptureState :=
  (shutdownMachine code).final {} inputs

end PacketPipe.CaptureShutdownModel

import PacketPipe.FlowTableModel

/-!
# Two threads and one clock

A packet carries the clock value of its capture, and the timer thread and the
drain read the clock before they take the mutex of the table. So a reading can
wait while calls with later readings go first. Packets are processed in the
order of their capture; one move is a reading of the clock or a whole call
under the mutex, and the threads may take turns in any way.
-/

namespace PacketPipe.CaptureClockModel

open FlowEvents ConfigParserModel ObservedMachines FlowTableModel

/-- How far the capture thread is. -/
inductive CapturePhase
  /-- In `source->run`. -/
  | capturing
  /-- `now_us()` was called for `drain_all`, which has not got the mutex yet. -/
  | draining (nowUs : Int64)
  /-- After `drain_all`. -/
  | drained
  deriving DecidableEq

/-- Both threads between two moves. -/
structure Threads (σ : Type) where
  /-- What the clock shows. -/
  clockUs : Int64
  /-- Packets captured and not processed yet, oldest first. -/
  waiting : List ParsedPacket
  /-- The argument of a sweep that has not got the mutex yet. -/
  sweepUs : Option Int64
  /-- Phase of the capture thread. -/
  phase : CapturePhase
  /-- The table behind the mutex. -/
  table : FlowTable σ

/-- Both threads at the start, whatever the clock shows. -/
def Threads.initial {σ : Type} (clockUs : Int64) (sink : σ) : Threads σ :=
  ⟨clockUs,[],none,.capturing,.initial sink⟩

/-- What can happen next. -/
inductive ThreadMove
  /-- The clock moves on. -/
  | tick (nowUs : Int64)
  /-- A packet is captured and stamped with the clock. -/
  | capture (pkt : ParsedPacket)
  /-- The capture thread processes the oldest packet. -/
  | process
  /-- The timer thread calls `now_us()`. -/
  | readSweep
  /-- It gets the mutex for `timer_sweep`. -/
  | sweep (order : MapOrder)
  /-- `run` has returned and `now_us()` is called for the drain. -/
  | readDrain
  /-- `drain_all` gets the mutex. -/
  | drain (order : MapOrder)

section Moves

variable {σ : Type} (cfg : AppConfig) (onEvent : EventCallback σ)

/-- One move; a move that is not possible changes nothing. -/
def threadStep (s : Threads σ) : ThreadMove → Threads σ×List Observation
  | .tick nowUs => (if s.clockUs≤nowUs then {s with clockUs := nowUs} else s,[])
  | .capture pkt => ({s with waiting := s.waiting++[{pkt with timestampUs := s.clockUs}]},[])
  | .process =>
    match s.phase,s.waiting with
    | .capturing,pkt::rest =>
      let done := FlowTableModel.process cfg onEvent pkt s.table
      ({s with waiting := rest,table := done.1},done.2)
    | _,_ => (s,[])
  | .readSweep =>
    match s.sweepUs with
    | none => ({s with sweepUs := some s.clockUs},[])
    | some _ => (s,[])
  | .sweep order =>
    match s.sweepUs with
    | some nowUs =>
      let swept := timerSweep cfg onEvent nowUs order s.table
      ({s with sweepUs := none,table := swept.1},swept.2)
    | none => (s,[])
  | .readDrain =>
    match s.phase with
    | .capturing => ({s with phase := .draining s.clockUs},[])
    | _ => (s,[])
  | .drain order =>
    match s.phase with
    | .draining nowUs =>
      let drained := drainAll onEvent nowUs order s.table
      ({s with phase := .drained,table := drained.1},drained.2)
    | _ => (s,[])

/-- The threads as a machine whose inputs choose who moves. -/
def threadMachine : Machine (Threads σ) ThreadMove Observation := ⟨threadStep cfg onEvent⟩

@[simp] theorem step_threads (s : Threads σ) (move : ThreadMove) :
    (threadMachine cfg onEvent).step s move=threadStep cfg onEvent s move := rfl

/-- What a move can do: nothing, a move of the clock, a reading or a call. -/
inductive MoveEffect (s : Threads σ) : ThreadMove → Threads σ → List Observation → Prop
  /-- The move is not possible. -/
  | idle (move : ThreadMove) : MoveEffect s move s []
  /-- The clock moves on. -/
  | tick (nowUs : Int64) (hlater : s.clockUs≤nowUs) :
    MoveEffect s (.tick nowUs) {s with clockUs := nowUs} []
  /-- A packet with the time of the clock waits behind the others. -/
  | capture (pkt : ParsedPacket) :
    MoveEffect s (.capture pkt)
      {s with waiting := s.waiting++[{pkt with timestampUs := s.clockUs}]} []
  /-- The oldest packet is processed. -/
  | process (pkt : ParsedPacket) (rest : List ParsedPacket) (hphase : s.phase=.capturing)
      (hwaiting : s.waiting=pkt::rest) :
    MoveEffect s .process
      {s with waiting := rest,table := (FlowTableModel.process cfg onEvent pkt s.table).1}
      (FlowTableModel.process cfg onEvent pkt s.table).2
  /-- The timer thread reads the clock. -/
  | readSweep (hnone : s.sweepUs=none) :
    MoveEffect s .readSweep {s with sweepUs := some s.clockUs} []
  /-- A sweep with the time that was read. -/
  | sweep (nowUs : Int64) (order : MapOrder) (hread : s.sweepUs=some nowUs) :
    MoveEffect s (.sweep order)
      {s with sweepUs := none,table := (timerSweep cfg onEvent nowUs order s.table).1}
      (timerSweep cfg onEvent nowUs order s.table).2
  /-- The capture is over and the clock is read for the drain. -/
  | readDrain (hphase : s.phase=.capturing) :
    MoveEffect s .readDrain {s with phase := .draining s.clockUs} []
  /-- The drain with the time that was read. -/
  | drain (nowUs : Int64) (order : MapOrder) (hphase : s.phase=.draining nowUs) :
    MoveEffect s (.drain order)
      {s with phase := .drained,table := (drainAll onEvent nowUs order s.table).1}
      (drainAll onEvent nowUs order s.table).2

/-- Every move has one of these effects. -/
theorem move_effect (s : Threads σ) (move : ThreadMove) :
    MoveEffect cfg onEvent s move (threadStep cfg onEvent s move).1
      (threadStep cfg onEvent s move).2 := by
  cases move with
  | tick nowUs =>
    unfold threadStep
    dsimp only
    split
    · next hlater => exact .tick nowUs hlater
    · exact .idle _
  | capture pkt => exact .capture pkt
  | process =>
    unfold threadStep
    dsimp only
    split
    · next pkt rest hphase hwaiting => exact .process pkt rest hphase hwaiting
    · exact .idle _
  | readSweep =>
    unfold threadStep
    dsimp only
    split
    · next hnone => exact .readSweep hnone
    · exact .idle _
  | sweep order =>
    unfold threadStep
    dsimp only
    split
    · next nowUs hread => exact .sweep nowUs order hread
    · exact .idle _
  | readDrain =>
    unfold threadStep
    dsimp only
    split
    · next hphase => exact .readDrain hphase
    · exact .idle _
  | drain order =>
    unfold threadStep
    dsimp only
    split
    · next nowUs hphase => exact .drain nowUs order hphase
    · exact .idle _

end Moves

end PacketPipe.CaptureClockModel

import PacketPipe.CaptureClockModel
import PacketPipe.FlowEventOrder
import PacketPipe.FlowHeartbeats

/-!
# The dates of the events

An event is well dated when it is not earlier than the last packet of its flow
and not earlier than the event before it. Both can fail only through a sweep
with a heartbeat that got the mutex out of turn: after a packet captured after
its reading of the clock, or before the end of a flow that was captured before
it. As long as that does not happen every event is well dated. The clock counts
from the epoch: its readings are not negative, and differences of two of them
do not overflow.
-/

namespace PacketPipe.EventDates

open FlowEvents ConfigParserModel ObservedMachines FlowTableModel FlowLifetimes FlowEventOrder
open FlowTableEntries FlowTableShutdown FlowSweeps FlowHeartbeats CaptureClockModel SignedWords

/-- `start_us <= last_seen_us <= event_timestamp_us`. -/
def Dated (evt : FlowEvent) : Prop :=
  evt.state.startUs.toInt≤evt.state.lastSeenUs.toInt ∧
    evt.state.lastSeenUs.toInt≤evt.eventTimestampUs.toInt

instance decidableDated (evt : FlowEvent) : Decidable (Dated evt) :=
  inferInstanceAs (Decidable (_ ∧ _))

/-- The next event of a key opens a flow or is not dated back. -/
def Follows (evt next : FlowEvent) : Prop :=
  next.type=.flowStart ∨ evt.eventTimestampUs.toInt≤next.eventTimestampUs.toInt

instance decidableFollows (evt next : FlowEvent) : Decidable (Follows evt next) :=
  inferInstanceAs (Decidable (_ ∨ _))

/-- The events of one key are well dated. -/
structure KeyDates (events : List FlowEvent) : Prop where
  /-- Each by itself. -/
  dated : ∀ evt∈events,Dated evt
  /-- From a Start to the End the dates never decrease. -/
  ordered : events.IsChain Follows

/-- All events are well dated, key by key. -/
def WellDated (trace : List Observation) : Prop :=
  ∀ key,KeyDates (trace.filterMap (emittedFor key))

/-- One more event of a key. -/
theorem KeyDates.concat {events : List FlowEvent} (h : KeyDates events) {evt : FlowEvent}
    (hdated : Dated evt) (hfollows : ∀ last∈events.getLast?,Follows last evt) :
    KeyDates (events++[evt]) := by
  constructor
  · exact List.forall_mem_append.mpr ⟨h.dated,List.forall_mem_singleton.mpr hdated⟩
  · refine List.isChain_append.mpr ⟨h.ordered,List.isChain_singleton evt,?_⟩
    intro last hlast next hnext
    cases hnext
    exact hfollows last hlast

/-- The clock bounds what was read from it, and packets wait in order. -/
structure Clocked {σ : Type} (s : Threads σ) : Prop where
  /-- No reading is before the epoch. -/
  positive : 0≤ s.clockUs.toInt
  capturedPositive : ∀ p∈s.waiting,0≤p.timestampUs.toInt
  readPositive : ∀ nowUs,s.sweepUs=some nowUs → 0≤nowUs.toInt
  /-- Nor is a heartbeat. -/
  heartbeat : 0≤ s.table.lastHeartbeatUs.toInt
  /-- Oldest first. -/
  sorted : s.waiting.Pairwise fun p q => p.timestampUs.toInt≤q.timestampUs.toInt
  /-- No packet is from the future. -/
  captured : ∀ p∈s.waiting,p.timestampUs.toInt≤ s.clockUs.toInt
  /-- Nor is the reading of a sweep. -/
  read : ∀ nowUs,s.sweepUs=some nowUs → nowUs.toInt≤ s.clockUs.toInt

/-- What is known of an entry whose latest event is dated `latest`. -/
structure EntryDates {σ : Type} (s : Threads σ) (key : FlowKey) (state : FlowState)
    (latest : ℤ) : Prop where
  positive : 0≤ state.lastSeenUs.toInt
  started : state.startUs.toInt≤ state.lastSeenUs.toInt
  seen : state.lastSeenUs.toInt≤ s.clockUs.toInt
  shown : latest≤ s.clockUs.toInt
  /-- Waiting packets are not older than those counted. -/
  seenWaiting : s.phase=.capturing → ∀ p∈s.waiting,state.lastSeenUs.toInt≤p.timestampUs.toInt
  /-- A waiting packet that will end the flow is not older than its events. -/
  shownWaiting : s.phase=.capturing → ∀ p∈s.waiting,keyFromPacket p=key → tearsDown p=true →
    latest≤p.timestampUs.toInt
  /-- An event later than the reading of the sweep is no later than a packet. -/
  shownSwept : ∀ nowUs,s.sweepUs=some nowUs →
    latest≤nowUs.toInt ∨ latest≤ state.lastSeenUs.toInt
  /-- The drain was read after everything. -/
  drained : ∀ nowUs,s.phase=.draining nowUs →
    state.lastSeenUs.toInt≤nowUs.toInt ∧ latest≤nowUs.toInt

/-- What is known of a key and the events it had so far. -/
structure KeyClock {σ : Type} (s : Threads σ) (key : FlowKey) (events : List FlowEvent) : Prop where
  dates : KeyDates events
  entry : ∀ state,s.table.flows.lookup key=some state →
    ∃ last,events.getLast?=some last ∧ EntryDates s key state last.eventTimestampUs.toInt

section Calls

variable {σ : Type} (cfg : AppConfig) (onEvent : EventCallback σ)

/-- What a packet does to a key: nothing, or one step of its flow. -/
theorem process_key {t : FlowTable σ} (hkeyed : Keyed t.flows) (pkt : ParsedPacket)
    (key : FlowKey) :
    ((process cfg onEvent pkt t).1.flows.lookup key=t.flows.lookup key ∧
        (process cfg onEvent pkt t).2.filterMap (emittedFor key)=[]) ∨
      (keyFromPacket pkt=key ∧
        (process cfg onEvent pkt t).1.flows.lookup key=
          (lifeStep cfg key (t.flows.lookup key) (.packet pkt)).1 ∧
        (process cfg onEvent pkt t).2.filterMap (emittedFor key)=
          (lifeStep cfg key (t.flows.lookup key) (.packet pkt)).2.filterMap eventOf) := by
  have hproject := call_project cfg onEvent t (.process pkt) hkeyed key
  rw [emittedFor_eq_view]
  rw [step_process,lifeInputs] at hproject
  split at hproject
  · next h =>
    rw [Machine.final_cons,Machine.final_nil,Machine.trace_cons,Machine.trace_nil,
      List.append_nil,step_life] at hproject
    rw [hproject.1,hproject.2]
    exact Or.inr ⟨h.1,rfl,rfl⟩
  · rw [←hproject.1,←hproject.2]
    exact Or.inl ⟨rfl,rfl⟩

/-- What a sweep does to a key. -/
theorem sweep_key {t : FlowTable σ} (hkeyed : Keyed t.flows) (nowUs : Int64) (order : MapOrder)
    (key : FlowKey) :
    (timerSweep cfg onEvent nowUs order t).1.flows.lookup key=
        (lifeStep cfg key (t.flows.lookup key)
          (.sweep nowUs (heartbeatDue cfg nowUs t.lastHeartbeatUs))).1 ∧
      (timerSweep cfg onEvent nowUs order t).2.filterMap (emittedFor key)=
        (lifeStep cfg key (t.flows.lookup key)
          (.sweep nowUs (heartbeatDue cfg nowUs t.lastHeartbeatUs))).2.filterMap eventOf := by
  have hproject := call_project cfg onEvent t (.timerSweep nowUs order) hkeyed key
  rw [lifeInputs,Machine.final_cons,Machine.final_nil,Machine.trace_cons,Machine.trace_nil,
    List.append_nil,step_life,step_timerSweep] at hproject
  rw [emittedFor_eq_view,hproject.1,hproject.2]
  exact ⟨rfl,rfl⟩

/-- What a drain does to a key. -/
theorem drain_key {t : FlowTable σ} (hkeyed : Keyed t.flows) (nowUs : Int64) (order : MapOrder)
    (key : FlowKey) :
    (drainAll onEvent nowUs order t).2.filterMap (emittedFor key)=
      (lifeStep cfg key (t.flows.lookup key) (.drain nowUs)).2.filterMap eventOf := by
  have hproject := call_project cfg onEvent t (.drainAll nowUs order) hkeyed key
  rw [lifeInputs,Machine.trace_cons,Machine.trace_nil,List.append_nil,step_life,
    step_drainAll] at hproject
  rw [emittedFor_eq_view,hproject.2]

end Calls

section Readings

variable {σ : Type} {s : Threads σ} {key : FlowKey} {events : List FlowEvent}

/-- A move that leaves the table and the events of a key alone keeps what is
known, if it does so for an entry. -/
theorem KeyClock.keep {s' : Threads σ} (h : KeyClock s key events)
    (hlookup : s'.table.flows.lookup key=s.table.flows.lookup key)
    (hentry : ∀ state latest,EntryDates s key state latest → EntryDates s' key state latest) :
    KeyClock s' key events := by
  constructor
  · exact h.dates
  · intro state hfound
    rw [hlookup] at hfound
    obtain ⟨last,hlast,hdates⟩ := h.entry state hfound
    exact ⟨last,hlast,hentry state _ hdates⟩

/-- One event more, and the flow is gone. -/
theorem KeyClock.close {s' : Threads σ} (h : KeyClock s key events) {evt : FlowEvent}
    (habsent : s'.table.flows.lookup key=none) (hdated : Dated evt)
    (hfollows : ∀ last∈events.getLast?,Follows last evt) : KeyClock s' key (events++[evt]) := by
  constructor
  · exact h.dates.concat hdated hfollows
  · intro state hfound
    rw [habsent] at hfound
    cases hfound

/-- One event more, and the flow stays. -/
theorem KeyClock.show {s' : Threads σ} (h : KeyClock s key events) {evt : FlowEvent}
    {state : FlowState} (hlookup : s'.table.flows.lookup key=some state) (hdated : Dated evt)
    (hfollows : ∀ last∈events.getLast?,Follows last evt)
    (hentry : EntryDates s' key state evt.eventTimestampUs.toInt) :
    KeyClock s' key (events++[evt]) := by
  constructor
  · exact h.dates.concat hdated hfollows
  · intro other hfound
    rw [hlookup] at hfound
    cases hfound
    exact ⟨evt,List.getLast?_concat,hentry⟩

/-- The clock moves on. -/
theorem EntryDates.tick {state : FlowState} {latest : ℤ} (h : EntryDates s key state latest)
    {nowUs : Int64} (hlater : s.clockUs.toInt≤nowUs.toInt) :
    EntryDates {s with clockUs := nowUs} key state latest :=
  ⟨h.positive,h.started,h.seen.trans hlater,h.shown.trans hlater,h.seenWaiting,h.shownWaiting,
    h.shownSwept,h.drained⟩

/-- A packet is captured. -/
theorem EntryDates.capture {state : FlowState} {latest : ℤ} (h : EntryDates s key state latest)
    (pkt : ParsedPacket) :
    EntryDates {s with waiting := s.waiting++[{pkt with timestampUs := s.clockUs}]} key state
      latest := by
  have hseen (hphase : s.phase=.capturing) : ∀ p∈s.waiting++[{pkt with timestampUs := s.clockUs}],
      state.lastSeenUs.toInt≤p.timestampUs.toInt :=
    List.forall_mem_append.mpr ⟨h.seenWaiting hphase,List.forall_mem_singleton.mpr h.seen⟩
  have hshown (hphase : s.phase=.capturing) : ∀ p∈s.waiting++[{pkt with timestampUs := s.clockUs}],
      keyFromPacket p=key → tearsDown p=true → latest≤p.timestampUs.toInt :=
    List.forall_mem_append.mpr ⟨h.shownWaiting hphase,
      List.forall_mem_singleton.mpr fun _ _ => h.shown⟩
  exact ⟨h.positive,h.started,h.seen,h.shown,hseen,hshown,h.shownSwept,h.drained⟩

/-- The timer thread reads the clock. -/
theorem EntryDates.readSweep {state : FlowState} {latest : ℤ} (h : EntryDates s key state latest) :
    EntryDates {s with sweepUs := some s.clockUs} key state latest := by
  have hread (nowUs : Int64) (hnow : some s.clockUs=some nowUs) :
      latest≤nowUs.toInt ∨ latest≤ state.lastSeenUs.toInt := by
    cases hnow
    exact Or.inl h.shown
  exact ⟨h.positive,h.started,h.seen,h.shown,h.seenWaiting,h.shownWaiting,hread,h.drained⟩

/-- The clock is read for the drain. -/
theorem EntryDates.readDrain {state : FlowState} {latest : ℤ} (h : EntryDates s key state latest) :
    EntryDates {s with phase := .draining s.clockUs} key state latest := by
  have hread (nowUs : Int64) (hnow : CapturePhase.draining s.clockUs=.draining nowUs) :
      state.lastSeenUs.toInt≤nowUs.toInt ∧ latest≤nowUs.toInt := by
    cases hnow
    exact ⟨h.seen,h.shown⟩
  exact ⟨h.positive,h.started,h.seen,h.shown,nofun,nofun,h.shownSwept,hread⟩

/-- The oldest packet is processed, and it is of another flow. -/
theorem EntryDates.processed {state : FlowState} {latest : ℤ} (h : EntryDates s key state latest)
    {pkt : ParsedPacket} {rest : List ParsedPacket} (hwaiting : s.waiting=pkt::rest)
    (table : FlowTable σ) :
    EntryDates {s with waiting := rest,table := table} key state latest := by
  have hrest : ∀ p∈rest,p∈s.waiting := fun p hp => by
    rw [hwaiting]
    exact List.mem_cons_of_mem pkt hp
  exact ⟨h.positive,h.started,h.seen,h.shown,fun hphase p hp => h.seenWaiting hphase p (hrest p hp),
    fun hphase p hp => h.shownWaiting hphase p (hrest p hp),h.shownSwept,h.drained⟩

/-- The sweep is over, without an event for the flow. -/
theorem EntryDates.swept {state : FlowState} {latest : ℤ} (h : EntryDates s key state latest)
    (table : FlowTable σ) : EntryDates {s with sweepUs := none,table := table} key state latest :=
  ⟨h.positive,h.started,h.seen,h.shown,h.seenWaiting,h.shownWaiting,nofun,h.drained⟩

/-- The oldest packet, which is not from the future and not younger than the
others, was counted in the flow. -/
theorem EntryDates.counted (state : FlowState) {latest : ℤ} {pkt : ParsedPacket}
    {rest : List ParsedPacket} (hclocked : Clocked s) (hphase : s.phase=.capturing)
    (hwaiting : s.waiting=pkt::rest) (hlast : state.lastSeenUs=pkt.timestampUs)
    (hstarted : state.startUs.toInt≤ state.lastSeenUs.toInt)
    (hshown : latest≤ s.clockUs.toInt)
    (hends : ∀ p∈rest,keyFromPacket p=key → tearsDown p=true → latest≤p.timestampUs.toInt)
    (hswept : ∀ nowUs,s.sweepUs=some nowUs →
      latest≤nowUs.toInt ∨ latest≤ state.lastSeenUs.toInt) (table : FlowTable σ) :
    EntryDates {s with waiting := rest,table := table} key state latest := by
  have hsorted := hclocked.sorted
  have hcaptured := hclocked.captured
  rw [hwaiting] at hsorted hcaptured
  have hrest : ∀ p∈rest,state.lastSeenUs.toInt≤p.timestampUs.toInt := by
    rw [hlast]
    exact (List.pairwise_cons.mp hsorted).1
  have hseen : state.lastSeenUs.toInt≤ s.clockUs.toInt := by
    rw [hlast]
    exact hcaptured pkt List.mem_cons_self
  have hpositive : 0≤ state.lastSeenUs.toInt := by
    rw [hlast]
    exact hclocked.capturedPositive pkt (hwaiting ▸ List.mem_cons_self)
  refine ⟨hpositive,hstarted,hseen,hshown,fun _ => hrest,fun _ => hends,hswept,
    fun nowUs hdraining => ?_⟩
  have hboth : CapturePhase.capturing=.draining nowUs := hphase.symm.trans hdraining
  cases hboth

end Readings

section Moves

variable {σ : Type} (cfg : AppConfig) (onEvent : EventCallback σ)

/-- No call that will end the entry's flow was captured or read before the
sweep and still waits. -/
def NotAwaited (waiting : List ParsedPacket) (nowUs : Int64) (e : FlowEntry) :
    CapturePhase → Prop
  | .capturing => ∀ p∈waiting,keyFromPacket p=e.1 → tearsDown p=true →
    nowUs.toInt≤p.timestampUs.toInt
  | .draining drainUs => nowUs.toInt≤drainUs.toInt
  | .drained => True

/-- A sweep with this reading that gives heartbeats gets the mutex in turn: no
packet captured after the reading was counted in a flow that it keeps, and no
end of such a flow that was captured or read before is still to come. -/
def SweepInTurn (s : Threads σ) : Option Int64 → Prop
  | some nowUs => Due cfg nowUs s.table.lastHeartbeatUs →
    ∀ e∈keptEntries cfg nowUs s.table.flows,
      e.2.lastSeenUs.toInt≤nowUs.toInt ∧ NotAwaited s.waiting nowUs e s.phase
  | none => True

/-- Only sweeps can be out of turn. -/
def InTurn (s : Threads σ) : ThreadMove → Prop
  | .sweep _ => SweepInTurn cfg s s.sweepUs
  | _ => True

/-- Waiting calls can be checked. -/
instance decidableNotAwaited (waiting : List ParsedPacket) (nowUs : Int64) (e : FlowEntry) :
    ∀ phase,Decidable (NotAwaited waiting nowUs e phase)
  | .capturing => inferInstanceAs (Decidable (∀ p∈waiting,_))
  | .draining _ => inferInstanceAs (Decidable (_≤_))
  | .drained => .isTrue trivial

instance decidableSweepInTurn (s : Threads σ) : ∀ sweepUs,Decidable (SweepInTurn cfg s sweepUs)
  | some _ => inferInstanceAs (Decidable (_ → _))
  | none => .isTrue trivial

/-- So can whether a move is in turn. -/
instance decidableInTurn (s : Threads σ) : ∀ move,Decidable (InTurn cfg s move)
  | .sweep _ => decidableSweepInTurn cfg s s.sweepUs
  | .tick _ => .isTrue trivial
  | .capture _ => .isTrue trivial
  | .process => .isTrue trivial
  | .readSweep => .isTrue trivial
  | .readDrain => .isTrue trivial
  | .drain _ => .isTrue trivial

/-- What holds between any two moves, with all events so far. -/
structure DatesKept (s : Threads σ) (seen : List Observation) : Prop where
  keyed : Keyed s.table.flows
  clocked : Clocked s
  keys : ∀ key,KeyClock s key (seen.filterMap (emittedFor key))

/-- The oldest packet is processed. -/
theorem KeyClock.processed {s : Threads σ} {key : FlowKey} {events : List FlowEvent}
    (h : KeyClock s key events) (hkeyed : Keyed s.table.flows) (hclocked : Clocked s)
    {pkt : ParsedPacket} {rest : List ParsedPacket} (hphase : s.phase=.capturing)
    (hwaiting : s.waiting=pkt::rest) :
    KeyClock {s with waiting := rest,table := (process cfg onEvent pkt s.table).1} key
      (events++(process cfg onEvent pkt s.table).2.filterMap (emittedFor key)) := by
  have hoffered : pkt∈s.waiting := by
    rw [hwaiting]
    exact List.mem_cons_self
  have hrest : ∀ p∈rest,p∈s.waiting := fun p hp => by
    rw [hwaiting]
    exact List.mem_cons_of_mem pkt hp
  have hsorted := hclocked.sorted
  rw [hwaiting] at hsorted
  have holdest := (List.pairwise_cons.mp hsorted).1
  rcases process_key cfg onEvent hkeyed pkt key with ⟨hlookup,hevents⟩ | ⟨hown,hlookup,hevents⟩
  · rw [hevents,List.append_nil]
    exact h.keep hlookup fun state latest hdates => hdates.processed hwaiting _
  · rw [hevents]
    cases hfound : s.table.flows.lookup key with
    | none =>
      rw [hfound,lifeStep] at hlookup
      rw [lifeStep]
      have hdates : EntryDates {s with waiting := rest,table := (process cfg onEvent pkt s.table).1}
          key (firstState key pkt) pkt.timestampUs.toInt :=
        EntryDates.counted (firstState key pkt) hclocked hphase hwaiting rfl (le_refl _)
          (hclocked.captured pkt hoffered) (fun p hp _ _ => holdest p hp)
          (fun _ _ => Or.inr (le_refl _)) _
      exact h.show hlookup ⟨le_refl _,le_refl _⟩ (fun _ _ => Or.inl rfl) hdates
    | some state =>
      obtain ⟨last,hlast,hdates⟩ := h.entry state hfound
      have hnewer := hdates.seenWaiting hphase pkt hoffered
      rw [hfound,lifeStep] at hlookup
      rw [lifeStep]
      by_cases hdown : tearsDown pkt=true
      · rw [if_pos hdown] at hlookup ⊢
        refine h.close hlookup ⟨hdates.started.trans hnewer,le_refl _⟩ fun other hother => ?_
        rw [hlast] at hother
        cases hother
        exact Or.inr (hdates.shownWaiting hphase pkt hoffered hown hdown)
      · rw [if_neg hdown] at hlookup ⊢
        have hnone : events++[LifeObservation.packet pkt].filterMap eventOf=events :=
          List.append_nil events
        rw [hnone]
        refine ⟨h.dates,fun other hother => ?_⟩
        rw [hlookup] at hother
        cases hother
        refine ⟨last,hlast,?_⟩
        refine EntryDates.counted (countPacket state pkt) hclocked hphase hwaiting rfl
          (hdates.started.trans hnewer) hdates.shown
          (fun p hp => hdates.shownWaiting hphase p (hrest p hp)) ?_ _
        intro nowUs hread
        rcases hdates.shownSwept nowUs hread with hswept | hseen
        · exact Or.inl hswept
        · exact Or.inr (hseen.trans hnewer)

/-- Readings of a clock that counts from the epoch are in reach of each other. -/
theorem difference_fits {x y : Int64} (hx : 0≤x.toInt) (hy : 0≤y.toInt) :
    Fits 64 (x.toInt-y.toInt) := by
  have hx' := x.toInt_lt
  have hy' := y.toInt_lt
  rw [fits_64]
  omega

/-- A sweep gets the mutex in turn: it ends the flow, whose last packet is at
least the timeout ago, or gives it a heartbeat, which the condition keeps in
turn, or leaves it alone. -/
theorem KeyClock.sweep (htimeout : 0<cfg.flowTimeoutSec.toInt) {s : Threads σ} {key : FlowKey}
    {events : List FlowEvent} (h : KeyClock s key events) (hkeyed : Keyed s.table.flows)
    (hclocked : Clocked s) {nowUs : Int64} (hread : s.sweepUs=some nowUs) (order : MapOrder)
    (hturn : InTurn cfg s (.sweep order)) :
    KeyClock {s with sweepUs := none,table := (timerSweep cfg onEvent nowUs order s.table).1} key
      (events++(timerSweep cfg onEvent nowUs order s.table).2.filterMap (emittedFor key)) := by
  obtain ⟨hlookup,hevents⟩ := sweep_key cfg onEvent hkeyed nowUs order key
  rw [hevents]
  cases hfound : s.table.flows.lookup key with
  | none =>
    rw [hfound] at hlookup
    have hnone : events++(lifeStep cfg key none (.sweep nowUs
        (heartbeatDue cfg nowUs s.table.lastHeartbeatUs))).2.filterMap eventOf=events :=
      List.append_nil events
    rw [hnone]
    exact h.keep (hlookup.trans hfound.symm) fun state latest hdates => hdates.swept _
  | some state =>
    obtain ⟨last,hlast,hdates⟩ := h.entry state hfound
    have hswept := hdates.shownSwept nowUs hread
    have hseenFits := difference_fits (hclocked.readPositive nowUs hread) hdates.positive
    have hheartbeatFits := difference_fits (hclocked.readPositive nowUs hread) hclocked.heartbeat
    rw [hfound,lifeStep,idleDue_eq (hseenFits.gauged _),
      heartbeatDue_eq (hheartbeatFits.gauged _)] at hlookup
    rw [lifeStep,idleDue_eq (hseenFits.gauged _),heartbeatDue_eq (hheartbeatFits.gauged _)]
    by_cases hidle : Idle cfg nowUs state
    · have hseen : state.lastSeenUs.toInt≤nowUs.toInt := by
        unfold Idle at hidle
        omega
      rw [if_pos (decide_eq_true hidle)] at hlookup ⊢
      refine h.close hlookup ⟨hdates.started,hseen⟩ fun other hother => ?_
      rw [hlast] at hother
      cases hother
      have hlatest : last.eventTimestampUs.toInt≤nowUs.toInt := by omega
      exact Or.inr hlatest
    · rw [if_neg (by rwa [decide_eq_true_eq])] at hlookup ⊢
      by_cases hdue : Due cfg nowUs s.table.lastHeartbeatUs
      · have hentry : ⟨key,state⟩∈keptEntries cfg nowUs s.table.flows :=
          List.mem_filter.mpr ⟨List.of_mem_dlookup hfound,decide_eq_true hidle⟩
        rw [InTurn,hread,SweepInTurn] at hturn
        obtain ⟨hseen,hawaited⟩ : state.lastSeenUs.toInt≤nowUs.toInt ∧
            NotAwaited s.waiting nowUs ⟨key,state⟩ s.phase := hturn hdue _ hentry
        rw [if_pos (decide_eq_true hdue)] at hlookup ⊢
        refine h.show hlookup ⟨hdates.started,hseen⟩ (fun other hother => ?_) ?_
        · rw [hlast] at hother
          cases hother
          have hlatest : last.eventTimestampUs.toInt≤nowUs.toInt := by omega
          exact Or.inr hlatest
        · refine ⟨hdates.positive,hdates.started,hdates.seen,hclocked.read nowUs hread,
            hdates.seenWaiting,?_,(fun _ hnone => by cases hnone),?_⟩
          · intro hphase
            rw [hphase] at hawaited
            exact hawaited
          · intro drainUs hphase
            rw [hphase] at hawaited
            exact ⟨(hdates.drained drainUs hphase).1,hawaited⟩
      · rw [if_neg (by rwa [decide_eq_true_eq])] at hlookup ⊢
        rw [List.filterMap_nil,List.append_nil]
        exact h.keep (hlookup.trans hfound.symm) fun other latest hdates => hdates.swept _

/-- The drain. -/
theorem KeyClock.drain {s : Threads σ} {key : FlowKey} {events : List FlowEvent}
    (h : KeyClock s key events) (hkeyed : Keyed s.table.flows) {nowUs : Int64}
    (hphase : s.phase=.draining nowUs) (order : MapOrder) :
    KeyClock {s with phase := .drained,table := (drainAll onEvent nowUs order s.table).1} key
      (events++(drainAll onEvent nowUs order s.table).2.filterMap (emittedFor key)) := by
  have habsent := drainAll_lookup onEvent nowUs order s.table key
  rw [drain_key {} onEvent hkeyed]
  cases hfound : s.table.flows.lookup key with
  | none =>
    have hnone : events++(lifeStep {} key none (.drain nowUs)).2.filterMap eventOf=events :=
      List.append_nil events
    rw [hnone]
    refine ⟨h.dates,fun state hstate => ?_⟩
    rw [habsent] at hstate
    cases hstate
  | some state =>
    obtain ⟨last,hlast,hdates⟩ := h.entry state hfound
    obtain ⟨hseen,hlatest⟩ := hdates.drained nowUs hphase
    rw [lifeStep]
    refine h.close habsent ⟨hdates.started,hseen⟩ fun other hother => ?_
    rw [hlast] at hother
    cases hother
    exact Or.inr hlatest

/-- A move keeps the readings behind the clock and the packets in order. -/
theorem move_clocked {s : Threads σ} (h : Clocked s) (move : ThreadMove) :
    Clocked (threadStep cfg onEvent s move).1 := by
  have heffect := move_effect cfg onEvent s move
  generalize (threadStep cfg onEvent s move).1=s',(threadStep cfg onEvent s move).2=seen
    at heffect ⊢
  cases heffect with
  | idle => exact h
  | tick nowUs hlater =>
    have hclock : s.clockUs.toInt≤nowUs.toInt := Int64.le_iff_toInt_le.mp hlater
    exact ⟨h.positive.trans hclock,h.capturedPositive,h.readPositive,h.heartbeat,h.sorted,
      fun p hp => (h.captured p hp).trans hclock,
      fun readUs hread => (h.read readUs hread).trans hclock⟩
  | capture pkt =>
    refine ⟨h.positive,?_,h.readPositive,h.heartbeat,?_,?_,h.read⟩
    · exact List.forall_mem_append.mpr ⟨h.capturedPositive,
        List.forall_mem_singleton.mpr h.positive⟩
    · refine List.pairwise_append.mpr ⟨h.sorted,List.pairwise_singleton _ _,?_⟩
      intro p hp q hq
      rw [List.mem_singleton.mp hq]
      exact h.captured p hp
    · exact List.forall_mem_append.mpr ⟨h.captured,List.forall_mem_singleton.mpr (le_refl _)⟩
  | process pkt rest _ hwaiting =>
    have hsorted := h.sorted
    have hcaptured := h.captured
    have hpositive := h.capturedPositive
    have hheartbeat := h.heartbeat
    rw [hwaiting] at hsorted hcaptured hpositive
    rw [←process_lastHeartbeatUs cfg onEvent pkt s.table] at hheartbeat
    exact ⟨h.positive,(List.forall_mem_cons.mp hpositive).2,h.readPositive,hheartbeat,
      (List.pairwise_cons.mp hsorted).2,(List.forall_mem_cons.mp hcaptured).2,h.read⟩
  | readSweep =>
    refine ⟨h.positive,h.capturedPositive,?_,h.heartbeat,h.sorted,h.captured,?_⟩
    · intro nowUs hread
      cases hread
      exact h.positive
    · intro nowUs hread
      cases hread
      exact le_refl _
  | sweep nowUs order hread =>
    have hmoved := timerSweep_lastHeartbeatUs cfg onEvent nowUs order s.table
    refine ⟨h.positive,h.capturedPositive,nofun,?_,h.sorted,h.captured,nofun⟩
    dsimp only
    rw [hmoved]
    split
    · exact h.readPositive nowUs hread
    · exact h.heartbeat
  | readDrain => exact ⟨h.positive,h.capturedPositive,h.readPositive,h.heartbeat,h.sorted,
      h.captured,h.read⟩
  | drain nowUs order =>
    have hsame := (drainLoop_same onEvent nowUs (order.visit s.table.flows) s.table).heartbeat
    refine ⟨h.positive,h.capturedPositive,h.readPositive,?_,h.sorted,h.captured,h.read⟩
    dsimp only
    rw [drainAll,hsame]
    exact h.heartbeat

/-- A move in turn keeps all events well dated. -/
theorem move_kept (htimeout : 0<cfg.flowTimeoutSec.toInt) {s : Threads σ}
    {seen : List Observation} (h : DatesKept s seen) {move : ThreadMove}
    (hturn : InTurn cfg s move) :
    DatesKept (threadStep cfg onEvent s move).1 (seen++(threadStep cfg onEvent s move).2) := by
  have hclocked := move_clocked cfg onEvent h.clocked move
  have heffect := move_effect cfg onEvent s move
  generalize (threadStep cfg onEvent s move).1=s',(threadStep cfg onEvent s move).2=shown
    at heffect hclocked ⊢
  cases heffect with
  | idle =>
    rw [List.append_nil]
    exact h
  | tick nowUs hlater =>
    rw [List.append_nil]
    refine ⟨h.keyed,hclocked,fun key => ?_⟩
    exact (h.keys key).keep rfl fun _ _ hdates => hdates.tick (Int64.le_iff_toInt_le.mp hlater)
  | capture pkt =>
    rw [List.append_nil]
    refine ⟨h.keyed,hclocked,fun key => ?_⟩
    exact (h.keys key).keep rfl fun _ _ hdates => hdates.capture pkt
  | process pkt rest hphase hwaiting =>
    refine ⟨call_keyed cfg onEvent s.table (.process pkt) h.keyed,hclocked,fun key => ?_⟩
    rw [List.filterMap_append]
    exact (h.keys key).processed cfg onEvent h.keyed h.clocked hphase hwaiting
  | readSweep =>
    rw [List.append_nil]
    refine ⟨h.keyed,hclocked,fun key => ?_⟩
    exact (h.keys key).keep rfl fun _ _ hdates => hdates.readSweep
  | sweep nowUs order hread =>
    refine ⟨call_keyed cfg onEvent s.table (.timerSweep nowUs order) h.keyed,hclocked,fun key => ?_⟩
    rw [List.filterMap_append]
    exact (h.keys key).sweep cfg onEvent htimeout h.keyed h.clocked hread order hturn
  | readDrain =>
    rw [List.append_nil]
    refine ⟨h.keyed,hclocked,fun key => ?_⟩
    exact (h.keys key).keep rfl fun _ _ hdates => hdates.readDrain
  | drain nowUs order hphase =>
    refine ⟨call_keyed cfg onEvent s.table (.drainAll nowUs order) h.keyed,hclocked,fun key => ?_⟩
    rw [List.filterMap_append]
    exact (h.keys key).drain onEvent h.keyed hphase order

/-- In every interleaving of the two threads from a time that is not negative,
in which each sweep that gives heartbeats gets the mutex in turn, every event satisfies
`start_us <= last_seen_us <= event_timestamp_us`, and the dates of a flow
never decrease from its Start to its End. -/
theorem events_well_dated (htimeout : 0<cfg.flowTimeoutSec) {clockUs : Int64}
    (hclock : 0≤clockUs) (sink : σ) {moves : List ThreadMove}
    (hturn : (threadMachine cfg onEvent).Along (InTurn cfg) (.initial clockUs sink) moves) :
    WellDated ((threadMachine cfg onEvent).trace (.initial clockUs sink) moves) := by
  have hseconds : 0<cfg.flowTimeoutSec.toInt := Int32.lt_iff_toInt_lt.mp htimeout
  have hstep : ∀ s seen move,InTurn cfg s move → DatesKept s seen →
      DatesKept ((threadMachine cfg onEvent).step s move).1
        (seen++((threadMachine cfg onEvent).step s move).2) :=
    fun s seen move hmove h => move_kept cfg onEvent hseconds h hmove
  have hinitial : DatesKept (Threads.initial clockUs sink) [] := by
    refine ⟨keyed_empty,⟨Int64.le_iff_toInt_le.mp hclock,List.forall_mem_nil _,nofun,le_refl _,
      List.Pairwise.nil,List.forall_mem_nil _,nofun⟩,fun key => ?_⟩
    exact ⟨⟨List.forall_mem_nil _,List.isChain_nil⟩,fun state hstate => by cases hstate⟩
  have hrun := Machine.guarded_invariant (threadMachine cfg onEvent) hstep hinitial hturn
  intro key
  exact (hrun.keys key).dates

end Moves

/-- A segment of a TCP flow. -/
def segment : ParsedPacket := {srcPort := 443,protocol := ipprotoTcp,wireLength := 60}

/-- The segment that ends the flow. -/
def finSegment : ParsedPacket := {segment with tcpFin := true}

/-- A heartbeat whose sweep read the clock after the only packet. -/
theorem events_well_dated_heartbeat :
    WellDated ((threadMachine {} (fun _ s => (true,s))).trace (.initial 100000000 ())
      [.capture segment,.process,.tick 140000000,.readSweep,.sweep .stored]) :=
  events_well_dated {} (fun _ s => (true,s)) (by decide) (by decide) () (by decide)

/-- A sweep that read the clock at second 100 gives a heartbeat to a flow that
began at second 101; and a FIN captured at second 100 and processed after the
heartbeat of second 140 ends its flow before that heartbeat. -/
theorem overtaken_sweep_misdates :
    ¬WellDated ((threadMachine {} (fun _ s => (true,s))).trace (.initial 100000000 ())
        [.readSweep,.tick 101000000,.capture segment,.process,.sweep .stored]) ∧
      ¬WellDated ((threadMachine {} (fun _ s => (true,s))).trace (.initial 100000000 ())
        [.capture segment,.capture finSegment,.process,.tick 140000000,.readSweep,.sweep .stored,
          .process]) := by
  constructor
  · intro h
    exact absurd (h (keyFromPacket segment)).dated (by decide)
  · intro h
    exact absurd (h (keyFromPacket segment)).ordered (by decide)

end PacketPipe.EventDates

import PacketPipe.CaptureShutdownModel
import PacketPipe.RankedMachines

/-!
# Which signals end a capture

A signal is kept when no read that is free to go on starts after the handler
has run. A signal that finds a handle sets its break flag, which stays set up
to the read that returns `PCAP_ERROR_BREAK`, and the main thread is then a
bounded number of steps from the end of `run`. A signal that finds none leaves
only `g_shutdown`, which nothing reads.
-/

namespace PacketPipe.CaptureShutdown

open ObservedMachines RankedMachines CaptureShutdownModel

/-- No handle has been opened. -/
def beforeOpen : Point → Bool
  | .installed | .opening => true
  | _ => false

/-- Reads on the handle are in progress or ahead. -/
def inUse : Point → Bool
  | .opened | .compiling | .settingFilter | .settingNonblock | .starting | .reading _ => true
  | _ => false

/-- What the two sources have in common. -/
structure Orderly (code : SourceCode) : Prop where
  /-- The filter comes before the first read. -/
  afterFilter : code.afterFilter=.starting ∨ code.afterFilter=.settingNonblock
  /-- A broken read ends the loop. -/
  afterBroken : ∀ err,code.afterRead .broken err=.closing none
  /-- Any other read is followed by another one or by the end. -/
  afterRead : ∀ read err,code.afterRead read err=.starting ∨
    (∃ outcome,code.afterRead read err=.closing outcome) ∨
      ∃ outcome,code.afterRead read err=.finished outcome

/-- Both sources are orderly. -/
theorem packetSource_orderly (pcapFile iface bpfFilter : String) :
    Orderly (packetSource pcapFile iface bpfFilter) := by
  unfold packetSource
  split
  · refine ⟨.inr rfl,fun _ => rfl,fun read err => ?_⟩
    cases read with
    | done => exact .inl rfl
    | error => exact .inr (.inr ⟨_,rfl⟩)
    | broken => exact .inr (.inl ⟨_,rfl⟩)
  · exact ⟨.inl rfl,fun _ => rfl,fun _ _ => .inr (.inl ⟨_,rfl⟩)⟩

/-- `handle_` is null before it is opened and valid while it is in use. -/
structure Consistent (s : CaptureState) : Prop where
  /-- Before the assignment. -/
  null : beforeOpen s.point=true → s.handle=.null
  /-- Up to the call of `pcap_close`. -/
  live : inUse s.point=true → ∃ breakLoop,s.handle=.live breakLoop

/-- The handle's break flag is set, or no read is ahead. -/
structure Stopping (s : CaptureState) : Prop where
  /-- The handle has been opened. -/
  opened : beforeOpen s.point=false
  /-- The next read returns `PCAP_ERROR_BREAK`. -/
  flagged : inUse s.point=true → s.handle=.live true

section Steps

variable {code : SourceCode}

/-- A handle in use after a step was in use before it and is unchanged, break
flag included, or it has just been opened. -/
theorem advance_inUse (horderly : Orderly code) (reply : Reply) (s : CaptureState)
    (h : inUse (advance code reply s).1.point=true) :
    inUse s.point=true ∧ (advance code reply s).1.handle=s.handle ∨
      s.point=.opening ∧ (advance code reply s).1.handle=.live false := by
  obtain ⟨point,handle,shutdown⟩ := s
  cases point with
  | installed => cases h
  | opening =>
    cases hok : reply.ok <;> rw [advance,hok] at h ⊢
    · cases h
    · exact .inr ⟨rfl,rfl⟩
  | opened => exact .inl ⟨rfl,rfl⟩
  | compiling => exact .inl ⟨rfl,rfl⟩
  | settingFilter => exact .inl ⟨rfl,rfl⟩
  | settingNonblock => exact .inl ⟨rfl,rfl⟩
  | starting => exact .inl ⟨rfl,rfl⟩
  | reading bound =>
    refine .inl ⟨rfl,?_⟩
    simp only [advance] at h ⊢
    split
    · next hbroken =>
      rw [hbroken,horderly.afterBroken] at h
      cases h
    · rfl
  | closing outcome => cases h
  | closed outcome => cases h
  | finished outcome => cases h

/-- No step leads back before the opening. -/
theorem advance_beforeOpen (horderly : Orderly code) (reply : Reply) (s : CaptureState)
    (h : beforeOpen (advance code reply s).1.point=true) :
    beforeOpen s.point=true ∧ (advance code reply s).1.handle=s.handle := by
  obtain ⟨point,handle,shutdown⟩ := s
  cases point with
  | installed => exact ⟨rfl,rfl⟩
  | opening => cases hok : reply.ok <;> simp [advance,hok,beforeOpen] at h
  | opened =>
    simp only [advance] at h
    rcases horderly.afterFilter with hafter | hafter <;> rw [hafter] at h <;> split at h <;> cases h
  | compiling =>
    simp only [advance] at h
    split at h <;> cases h
  | settingFilter =>
    simp only [advance] at h
    rcases horderly.afterFilter with hafter | hafter <;> rw [hafter] at h <;> split at h <;> cases h
  | settingNonblock =>
    simp only [advance] at h
    split at h <;> cases h
  | starting => cases h
  | reading bound =>
    simp only [advance] at h
    rcases horderly.afterRead reply.read reply.err with
      hafter | ⟨outcome,hafter⟩ | ⟨outcome,hafter⟩ <;> rw [hafter] at h <;> cases h
  | closing outcome => cases h
  | closed outcome => cases h
  | finished outcome => cases h

/-- The only steps that are seen start a read, bound by the break flag. -/
theorem advance_seen {reply : Reply} {s : CaptureState} {o : ShutdownObservation}
    (h : o∈(advance code reply s).2) :
    s.point=.starting ∧ o=.readStarted s.handle.breakLoop := by
  obtain ⟨point,handle,shutdown⟩ := s
  cases point with
  | opening => cases hok : reply.ok <;> simp [advance,hok] at h
  | starting => exact ⟨rfl,List.mem_singleton.mp h⟩
  | _ => cases h

/-- Every step keeps `handle_` consistent with the point. -/
theorem Consistent.step (horderly : Orderly code) {s : CaptureState} (h : Consistent s)
    (input : ShutdownInput) : Consistent ((shutdownMachine code).step s input).1 := by
  cases input with
  | signal =>
    constructor
    · intro hbefore
      have hnull := h.null hbefore
      exact congrArg stop hnull
    · intro huse
      obtain ⟨breakLoop,hlive⟩ := h.live huse
      exact ⟨true,congrArg stop hlive⟩
  | advance reply =>
    constructor
    · intro hbefore
      obtain ⟨hearlier,hsame⟩ := advance_beforeOpen horderly reply s hbefore
      exact hsame.trans (h.null hearlier)
    · intro huse
      rcases advance_inUse horderly reply s huse with ⟨hearlier,hsame⟩ | ⟨_,hopened⟩
      · obtain ⟨breakLoop,hlive⟩ := h.live hearlier
        exact ⟨breakLoop,hsame.trans hlive⟩
      · exact ⟨false,hopened⟩

/-- No step resets the break flag while a read is ahead, and every read that
starts is bound by it. -/
theorem Stopping.step (horderly : Orderly code) {s : CaptureState} (h : Stopping s)
    (input : ShutdownInput) :
    Stopping ((shutdownMachine code).step s input).1 ∧
      ∀ o∈((shutdownMachine code).step s input).2,o≠.readStarted false := by
  cases input with
  | signal =>
    refine ⟨⟨h.opened,fun huse => ?_⟩,fun o ho => ?_⟩
    · have hflag := h.flagged huse
      exact congrArg stop hflag
    · rw [List.mem_singleton.mp ho]
      exact nofun
  | advance reply =>
    refine ⟨⟨?_,fun huse => ?_⟩,fun o ho => ?_⟩
    · refine Bool.eq_false_iff.mpr fun hbefore => ?_
      have hearlier := (advance_beforeOpen horderly reply s hbefore).1
      rw [h.opened] at hearlier
      cases hearlier
    · rcases advance_inUse horderly reply s huse with ⟨hearlier,hsame⟩ | ⟨hopening,_⟩
      · exact hsame.trans (h.flagged hearlier)
      · have hopened := h.opened
        rw [hopening] at hopened
        cases hopened
    · obtain ⟨hstarting,rfl⟩ := advance_seen ho
      have hflag := h.flagged (by rw [hstarting]; rfl)
      rw [hflag]
      exact nofun

/-- Consistent in every run. -/
theorem capturing_consistent (horderly : Orderly code) (inputs : List ShutdownInput) :
    Consistent (capturing code inputs) := by
  have hinitial : Consistent {} := ⟨fun _ => rfl,nofun⟩
  have hstep : ∀ s input,Consistent s → Consistent ((shutdownMachine code).step s input).1 :=
    fun _ input h => h.step horderly input
  exact Machine.final_invariant (shutdownMachine code) hstep hinitial inputs

/-- After a stopping state no read starts that is free to go on. -/
theorem Stopping.run (horderly : Orderly code) {s : CaptureState} (h : Stopping s)
    (later : List ShutdownInput) :
    ∀ o∈(shutdownMachine code).trace s later,o≠.readStarted false := by
  induction later generalizing s with
  | nil => exact List.forall_mem_nil _
  | cons input later ih =>
    obtain ⟨hnext,hseen⟩ := h.step horderly input
    rw [Machine.trace_cons]
    exact List.forall_mem_append.mpr ⟨hseen,ih hnext⟩

/-- The handler stops the capture once the handle has been opened. -/
theorem signalHandler_stopping {s : CaptureState} (h : Consistent s)
    (hopened : beforeOpen s.point=false) : Stopping (signalHandler s).1 := by
  refine ⟨hopened,fun huse => ?_⟩
  obtain ⟨breakLoop,hlive⟩ := h.live huse
  exact congrArg stop hlive

/-- Steps of the main thread that are left at most once the break flag is set. -/
def stepsLeft : Point → ℕ
  | .installed | .opening => 0
  | .opened => 10
  | .compiling => 9
  | .settingFilter => 8
  | .settingNonblock => 7
  | .reading false => 6
  | .starting => 5
  | .reading true => 4
  | .closing _ => 2
  | .closed _ => 1
  | .finished _ => 0

/-- `run` has returned or thrown. -/
def isFinished : Point → Bool
  | .finished _ => true
  | _ => false

/-- The documented promise of `pcap_breakloop`: a read that finds the break flag set
returns `PCAP_ERROR_BREAK`. -/
def BreaksPromptly : CaptureState → ShutdownInput → Prop
  | _,.signal => True
  | s,.advance reply => s.point=.reading true → reply.read=.broken

/-- With the flag set, every step of the main thread brings the end nearer. -/
theorem Stopping.advance_stepsLeft (horderly : Orderly code) {s : CaptureState} (h : Stopping s)
    {reply : Reply} (hprompt : BreaksPromptly s (.advance reply))
    (hrunning : isFinished s.point=false) :
    stepsLeft (advance code reply s).1.point<stepsLeft s.point := by
  obtain ⟨point,handle,shutdown⟩ := s
  cases point with
  | installed => cases h.opened
  | opening => cases h.opened
  | opened =>
    rcases horderly.afterFilter with hafter | hafter <;> simp only [advance,hafter] <;> split <;>
      decide
  | compiling =>
    simp only [advance]
    split <;> simp [stepsLeft]
  | settingFilter =>
    rcases horderly.afterFilter with hafter | hafter <;> simp only [advance,hafter] <;> split <;>
      simp [stepsLeft]
  | settingNonblock =>
    simp only [advance]
    split <;> simp [stepsLeft]
  | starting =>
    have hflag : handle=.live true := h.flagged rfl
    rw [hflag]
    exact Nat.lt_succ_self 4
  | reading bound =>
    cases bound with
    | true =>
      have hbroken : reply.read=.broken := hprompt rfl
      simp only [advance,hbroken,if_true,horderly.afterBroken]
      decide
    | false =>
      rcases horderly.afterRead reply.read reply.err with
        hafter | ⟨outcome,hafter⟩ | ⟨outcome,hafter⟩ <;> simp only [advance,hafter] <;>
        simp [stepsLeft]
  | closing outcome => exact Nat.lt_succ_self 1
  | closed outcome => exact Nat.lt_succ_self 0
  | finished outcome => cases hrunning

/-- The input is a step of the main thread. -/
def isAdvance : ShutdownInput → Bool
  | .signal => false
  | .advance _ => true

/-- A stopping capture that is not over has a step left. -/
theorem Stopping.stepsLeft_pos {s : CaptureState} (h : Stopping s)
    (hrunning : isFinished s.point=false) : 0<stepsLeft s.point := by
  obtain ⟨point,handle,shutdown⟩ := s
  cases point with
  | installed => cases h.opened
  | opening => cases h.opened
  | reading bound => cases bound <;> exact Nat.zero_lt_succ _
  | finished outcome => cases hrunning
  | _ => exact Nat.zero_lt_succ _

/-- The steps that are left run out, whatever else libpcap reports and however many
further signals are delivered. -/
theorem stopping_ranked (horderly : Orderly code) :
    Ranked (shutdownMachine code) BreaksPromptly isAdvance
      (fun s => Stopping s ∧ isFinished s.point=false) (fun s => isFinished s.point=true)
      (fun s => stepsLeft s.point-1) := by
  rintro s input ⟨h,hrunning⟩ hprompt
  have hnext := (h.step horderly input).1
  cases input with
  | signal => exact .inr ⟨⟨hnext,hrunning⟩,le_refl _⟩
  | advance reply =>
    have hless := h.advance_stepsLeft horderly hprompt hrunning
    cases hover : isFinished (advance code reply s).1.point with
    | true => exact .inl hover
    | false =>
      have hpos : 0<stepsLeft (advance code reply s).1.point := hnext.stepsLeft_pos hover
      refine .inr ⟨⟨hnext,hover⟩,?_⟩
      change stepsLeft (advance code reply s).1.point-1+1≤ stepsLeft s.point-1
      omega

/-- A capture that is over stays over. -/
theorem finished_kept {s : CaptureState} (hover : isFinished s.point=true)
    (input : ShutdownInput) : isFinished ((shutdownMachine code).step s input).1.point=true := by
  cases input with
  | signal => exact hover
  | advance reply =>
    obtain ⟨point,handle,shutdown⟩ := s
    cases point with
    | finished outcome => rfl
    | _ => cases hover

/-- A stopping capture is over after the steps that are left. -/
theorem Stopping.ends (horderly : Orderly code) {s : CaptureState} (h : Stopping s)
    {later : List ShutdownInput} (hprompt : (shutdownMachine code).Along BreaksPromptly s later)
    (hsteps : stepsLeft s.point≤later.countP isAdvance) :
    isFinished ((shutdownMachine code).final s later).point=true := by
  cases hover : isFinished s.point with
  | true =>
    exact Machine.final_invariant (shutdownMachine code) (P:=fun t => isFinished t.point=true)
      (fun t input ht => finished_kept ht input) hover later
  | false =>
    have hpos := h.stepsLeft_pos hover
    exact (stopping_ranked horderly).rests (fun t input ht => finished_kept ht input)
      ⟨h,hover⟩ hprompt (by omega)

/-- Some continuation starts a read that is free to go on. -/
def Continues (code : SourceCode) (s : CaptureState) : Prop :=
  ∃ later,.readStarted false∈(shutdownMachine code).trace s later

/-- It may begin with a step of the main thread. -/
theorem Continues.of_advance (reply : Reply) {s : CaptureState}
    (h : Continues code (advance code reply s).1) : Continues code s := by
  obtain ⟨later,hmem⟩ := h
  exact ⟨.advance reply::later,List.mem_append_right _ hmem⟩

section Opening

variable (shutdown : Bool)

/-- With the flag clear, the next read is free to go on. -/
theorem starting_continues : Continues code ⟨.starting,.live false,shutdown⟩ :=
  ⟨[.advance {}],List.mem_cons_self⟩

/-- So it is when the filter has been set. -/
theorem afterFilter_continues (horderly : Orderly code) :
    Continues code ⟨code.afterFilter,.live false,shutdown⟩ := by
  rcases horderly.afterFilter with hafter | hafter
  · rw [hafter]
    exact starting_continues shutdown
  · rw [hafter]
    exact Continues.of_advance {} (starting_continues shutdown)

/-- So it is when the handle has just been opened. -/
theorem opened_continues (horderly : Orderly code) :
    Continues code ⟨.opened,.live false,shutdown⟩ := by
  have hafter := afterFilter_continues shutdown horderly
  have hfiltered : Continues code ⟨.compiling,.live false,shutdown⟩ := by
    refine Continues.of_advance {} ?_
    exact Continues.of_advance {} hafter
  refine Continues.of_advance {} ?_
  simp only [advance]
  split
  · exact hafter
  · exact hfiltered

/-- A main thread that has opened no handle can go on to read, whatever
`g_shutdown` says. -/
theorem beforeOpen_continues (horderly : Orderly code) {s : CaptureState}
    (h : beforeOpen s.point=true) : Continues code s := by
  obtain ⟨point,handle,shutdown⟩ := s
  have hopening : Continues code ⟨.opening,handle,shutdown⟩ :=
    Continues.of_advance {} (opened_continues shutdown horderly)
  cases point with
  | installed => exact Continues.of_advance {} hopening
  | opening => exact hopening
  | _ => cases h

end Opening

end Steps

/-- The signal delivered in the state is kept: once the handler has run, no
read that is free to go on is started, whatever happens later. -/
def SignalKept (code : SourceCode) (s : CaptureState) : Prop :=
  ∀ later,∀ o∈(shutdownMachine code).trace (signalHandler s).1 later,o≠.readStarted false

/-- For both sources, with or without a filter, and at every point that the
main thread reaches in any run, a signal is kept exactly when `run` has already
assigned the opened handle; before that, `handle_` is null. -/
theorem signal_kept_iff (pcapFile iface bpfFilter : String) (inputs : List ShutdownInput) :
    (SignalKept (packetSource pcapFile iface bpfFilter)
        (capturing (packetSource pcapFile iface bpfFilter) inputs) ↔
      beforeOpen (capturing (packetSource pcapFile iface bpfFilter) inputs).point=false) ∧
    (beforeOpen (capturing (packetSource pcapFile iface bpfFilter) inputs).point=true →
      (capturing (packetSource pcapFile iface bpfFilter) inputs).handle=.null) := by
  have horderly := packetSource_orderly pcapFile iface bpfFilter
  have hconsistent := capturing_consistent horderly inputs
  refine ⟨⟨fun hkept => ?_,fun hopened => ?_⟩,hconsistent.null⟩
  · refine Bool.eq_false_iff.mpr fun hbefore => ?_
    have hhandled : beforeOpen (signalHandler
        (capturing (packetSource pcapFile iface bpfFilter) inputs)).1.point=true := hbefore
    obtain ⟨later,hmem⟩ := beforeOpen_continues horderly hhandled
    exact hkept later _ hmem rfl
  · exact (signalHandler_stopping hconsistent hopened).run horderly

/-- A signal delivered once the handle has been opened ends `run` within ten
further steps of the main thread, when `pcap_breakloop` keeps its promise. -/
theorem kept_signal_ends (pcapFile iface bpfFilter : String) (inputs later : List ShutdownInput)
    (hopened : beforeOpen (capturing (packetSource pcapFile iface bpfFilter) inputs).point=false)
    (hprompt : (shutdownMachine (packetSource pcapFile iface bpfFilter)).Along BreaksPromptly
      (signalHandler (capturing (packetSource pcapFile iface bpfFilter) inputs)).1 later)
    (hsteps : 10≤later.countP isAdvance) :
    isFinished ((shutdownMachine (packetSource pcapFile iface bpfFilter)).final
      (signalHandler (capturing (packetSource pcapFile iface bpfFilter) inputs)).1 later).point=
        true := by
  have horderly := packetSource_orderly pcapFile iface bpfFilter
  have hconsistent := capturing_consistent horderly inputs
  have hstopping := signalHandler_stopping hconsistent hopened
  have hbound : ∀ point,stepsLeft point≤10 := by
    intro point
    cases point with
    | reading bound => cases bound <;> decide
    | _ => simp [stepsLeft]
  exact hstopping.ends horderly hprompt (Nat.le_trans (hbound _) hsteps)

/-- Neither source keeps a signal delivered right after the handlers were
installed: with `g_shutdown` set, the file is read and the interface is polled
on and on. -/
theorem early_signal_lost :
    ¬SignalKept (packetSource "demo.pcap" "" "") {} ∧
    ¬SignalKept (packetSource "" "eth0" "") {} ∧
    (shutdownMachine (packetSource "" "eth0" "")).trace {}
        [.signal,.advance {},.advance {},.advance {},.advance {},.advance {},.advance {},
          .advance {},.advance {},.advance {}]=
      [.handled,.readStarted false,.readStarted false,.readStarted false] ∧
    capturing (packetSource "" "eth0" "")
        [.signal,.advance {},.advance {},.advance {},.advance {},.advance {}]=
      ⟨.reading false,.live false,true⟩ := by
  refine ⟨fun hkept => ?_,fun hkept => ?_,by decide,by decide⟩
  · exact hkept [.advance {},.advance {},.advance {},.advance {}] (.readStarted false)
      (by decide) rfl
  · exact hkept [.advance {},.advance {},.advance {},.advance {},.advance {}] (.readStarted false)
      (by decide) rfl

end PacketPipe.CaptureShutdown

import PacketPipe.CaptureShutdown
import PacketPipe.SessionTraces

/-!
# What a capture does with libpcap

The libpcap calls of the main thread from the opening of the capture to the
destruction of the source, on every way out of `run`: the handle is opened at
most once, used only while it is open and closed exactly once, by `run` or by
the destructor, and every compiled filter program is freed. The handler goes
through `g_source_ptr`, which is never reset: it finds the handle open, no
handle, or, in two windows that are described exactly, something that is gone.
-/

namespace PacketPipe.CaptureResources

open ObservedMachines RankedMachines CaptureShutdownModel CaptureShutdown
open SessionTraces hiding advance

/-- A libpcap call of the main thread, with its success where it can fail. -/
inductive PcapCall
  /-- `pcap_open_offline` or `pcap_open_live`. -/
  | openHandle (ok : Bool)
  /-- `pcap_compile`. -/
  | compile (ok : Bool)
  /-- `pcap_setfilter`. -/
  | setfilter (ok : Bool)
  /-- `pcap_freecode`. -/
  | freecode
  /-- `pcap_setnonblock`. -/
  | setnonblock (ok : Bool)
  /-- `pcap_loop` or `pcap_dispatch`. -/
  | read
  /-- `pcap_geterr`. -/
  | geterr
  /-- `pcap_close`. -/
  | close
  deriving DecidableEq

/-- The calls once a read has returned: an exception carries the handle's
error text. -/
def afterReadCalls : Point → List PcapCall
  | .finished _ => [.geterr]
  | _ => []

/-- The calls of the next step of `run`. -/
def runCalls (code : SourceCode) (reply : Reply) (s : CaptureState) : List PcapCall :=
  match s.point with
  | .opening => [.openHandle reply.ok]
  | .compiling => if reply.ok=true then [.compile true] else [.compile false,.geterr]
  | .settingFilter =>
    if reply.ok=true then [.setfilter true,.freecode] else [.setfilter false,.geterr,.freecode]
  | .settingNonblock => [.setnonblock reply.ok]
  | .starting => [.read]
  | .reading _ => afterReadCalls (code.afterRead reply.read reply.err)
  | .closing _ => [.close]
  | .installed | .opened | .closed _ | .finished _ => []

/-- What is left of the source object. -/
inductive SourceLife
  /-- Its destructor has not been called. -/
  | whole
  /-- The destructor has closed the handle and not reset `handle_`. -/
  | destructing
  /-- Its memory has been given back. -/
  | destroyed
  deriving DecidableEq

/-- The capture and the source object, which `g_source_ptr` points to. -/
structure SourceState where
  /-- The main thread up to the end of `run`, `handle_` and `g_shutdown`. -/
  capture : CaptureState := {}
  /-- The source object. -/
  life : SourceLife := .whole
  deriving DecidableEq

/-- What the handler's call of `stop` comes upon. -/
inductive Found
  /-- `handle_` is null. -/
  | nothing
  /-- `handle_` is open, and `pcap_breakloop` is called on it. -/
  | openHandle
  /-- `handle_` has been closed, and `pcap_breakloop` is called on it. -/
  | closedHandle
  /-- The source has been destroyed, and `stop` is called on it. -/
  | destroyedSource
  deriving DecidableEq

/-- What a signal comes upon now. -/
def found (s : SourceState) : Found :=
  match s.life,s.capture.handle with
  | .destroyed,_ => .destroyedSource
  | _,.null => .nothing
  | _,.live _ => .openHandle
  | _,.dangling => .closedHandle

/-- What an observer sees. -/
inductive SourceObservation
  /-- The main thread calls libpcap. -/
  | called (call : PcapCall)
  /-- The handler has run. -/
  | signalled (found : Found)
  deriving DecidableEq

/-- `~PcapFileSource` and `~LiveCaptureSource`, one step up to the return of
`pcap_close` and one for the rest. -/
def destruct (s : SourceState) : SourceState×List SourceObservation :=
  match s.life with
  | .whole =>
    if s.capture.handle=.null then ({s with life := .destroyed},[])
    else ({capture := {s.capture with handle := .dangling},life := .destructing},[.called .close])
  | .destructing => ({capture := {s.capture with handle := .null},life := .destroyed},[])
  | .destroyed => (s,[])

/-- `run`, then what follows the end of `run` in `main`: of that, only the
destruction of the source concerns libpcap. -/
def mainStep (code : SourceCode) (reply : Reply) (s : SourceState) :
    SourceState×List SourceObservation :=
  if isFinished s.capture.point=true then destruct s
  else ({s with capture := (advance code reply s.capture).1},
    (runCalls code reply s.capture).map .called)

/-- The main thread with signals delivered at any point. -/
def sourceMachine (code : SourceCode) :
    Machine SourceState ShutdownInput SourceObservation where
  step s
    | .signal =>
      ({s with capture :=
        if s.life=.destroyed then {s.capture with shutdown := true}
        else (signalHandler s.capture).1},[.signalled (found s)])
    | .advance reply => mainStep code reply s

/-- The libpcap calls of the main thread. -/
def calls (seen : List SourceObservation) : List PcapCall :=
  seen.filterMap fun
    | .called call => some call
    | .signalled _ => none

/-- What a call does with the handle. -/
def handleToken : PcapCall → Option Token
  | .openHandle true => some .opened
  | .openHandle false | .freecode => none
  | .compile _ | .setfilter _ | .setnonblock _ | .read | .geterr => some .ticked
  | .close => some .closed

/-- What a call does with the filter program. -/
def programToken : PcapCall → Option Token
  | .compile true => some .opened
  | .setfilter _ => some .ticked
  | .freecode => some .closed
  | .openHandle _ | .compile false | .setnonblock _ | .read | .geterr | .close => none

/-- The life of the handle in the calls. -/
abbrev handleTokens (seen : List SourceObservation) : List Token :=
  (calls seen).filterMap handleToken

/-- The life of the filter program in the calls. -/
abbrev programTokens (seen : List SourceObservation) : List Token :=
  (calls seen).filterMap programToken

/-- Observations one after the other. -/
theorem handleTokens_append (xs ys : List SourceObservation) :
    handleTokens (xs++ys)=handleTokens xs++handleTokens ys := by
  rw [handleTokens,calls,List.filterMap_append,List.filterMap_append]
  rfl

/-- Observations one after the other. -/
theorem programTokens_append (xs ys : List SourceObservation) :
    programTokens (xs++ys)=programTokens xs++programTokens ys := by
  rw [programTokens,calls,List.filterMap_append,List.filterMap_append]
  rfl

/-- Calls are seen as they are made. -/
theorem calls_called (made : List PcapCall) : calls (made.map .called)=made := by
  rw [calls,List.filterMap_map]
  exact List.filterMap_some

/-- The handle is open, in the calls and in `handle_`. -/
def Held (tokens : List Token) (handle : HandlePtr) : Prop :=
  (∃ breakLoop,handle=.live breakLoop) ∧ ∃ n,tokens=openSession n

/-- The handle was never opened, or it was closed. -/
def Released (tokens : List Token) : Prop := tokens=[] ∨ ∃ n,tokens=closedSession n

/-- `handle_` and the calls as they have to be at the point, up to the end of
`run`. -/
def Fits (tokens : List Token) (handle : HandlePtr) : Point → Prop
  | .installed | .opening => handle=.null ∧ tokens=[]
  | .closed _ => handle=.dangling ∧ ∃ n,tokens=closedSession n
  | .finished _ => handle=.null ∧ Released tokens ∨ Held tokens handle
  | .opened | .compiling | .settingFilter | .settingNonblock | .starting | .reading _
  | .closing _ => Held tokens handle

/-- Any number of uses leaves the handle open. -/
theorem Held.uses {tokens : List Token} {handle : HandlePtr} (h : Held tokens handle) (k : ℕ) :
    Held (tokens++List.replicate k .ticked) handle := by
  obtain ⟨hlive,n,rfl⟩ := h
  refine ⟨hlive,n+k,?_⟩
  rw [openSession,openSession,List.cons_append,List.replicate_append_replicate]

section Steps

variable {code : SourceCode} {tokens : List Token} {s : CaptureState}

/-- After the filter the handle is open still. -/
theorem Held.afterFilter (horderly : Orderly code) {handle : HandlePtr}
    (h : Held tokens handle) : Fits tokens handle code.afterFilter := by
  rcases horderly.afterFilter with hafter | hafter <;> rw [hafter] <;> exact h

/-- A read ends with the handle open, and with a call only before an exception. -/
theorem Held.afterRead (horderly : Orderly code) {handle : HandlePtr} (h : Held tokens handle)
    (read : ReadResult) (err : String) :
    Fits (tokens++(afterReadCalls (code.afterRead read err)).filterMap handleToken) handle
      (code.afterRead read err) := by
  rcases horderly.afterRead read err with hafter | ⟨outcome,hafter⟩ | ⟨outcome,hafter⟩
  · rw [hafter]
    exact h.uses 0
  · rw [hafter]
    exact h.uses 0
  · rw [hafter]
    exact .inr (h.uses 1)

/-- A step of `run` makes the calls that its point and `handle_` account for. -/
theorem Fits.step (horderly : Orderly code) (reply : Reply)
    (h : Fits tokens s.handle s.point) (hrunning : isFinished s.point=false) :
    Fits (tokens++(runCalls code reply s).filterMap handleToken)
      (advance code reply s).1.handle (advance code reply s).1.point := by
  obtain ⟨point,handle,shutdown⟩ := s
  cases point with
  | installed =>
    obtain ⟨hnull,rfl⟩ := h
    exact ⟨hnull,rfl⟩
  | opening =>
    obtain ⟨-,rfl⟩ := h
    cases hok : reply.ok with
    | true =>
      simp only [advance,runCalls,hok]
      exact ⟨⟨false,rfl⟩,0,rfl⟩
    | false =>
      simp only [advance,runCalls,hok]
      exact .inl ⟨rfl,.inl rfl⟩
  | opened =>
    have hheld : Held tokens handle := h
    simp only [advance,runCalls]
    split
    · exact (hheld.uses 0).afterFilter horderly
    · exact hheld.uses 0
  | compiling =>
    have hheld : Held tokens handle := h
    cases hok : reply.ok with
    | true =>
      simp only [advance,runCalls,hok]
      exact hheld.uses 1
    | false =>
      simp only [advance,runCalls,hok]
      exact hheld.uses 2
  | settingFilter =>
    have hheld : Held tokens handle := h
    cases hok : reply.ok with
    | true =>
      simp only [advance,runCalls,hok]
      exact (hheld.uses 1).afterFilter horderly
    | false =>
      simp only [advance,runCalls,hok]
      exact hheld.uses 2
  | settingNonblock =>
    have hheld : Held tokens handle := h
    cases hok : reply.ok with
    | true =>
      simp only [advance,runCalls,hok]
      exact hheld.uses 1
    | false =>
      simp only [advance,runCalls,hok]
      exact .inr (hheld.uses 1)
  | starting => exact Held.uses h 1
  | reading bound =>
    have hheld : Held tokens handle := h
    simp only [advance,runCalls]
    refine Held.afterRead horderly ⟨?_,hheld.2⟩ _ _
    split
    · exact ⟨false,rfl⟩
    · exact hheld.1
  | closing outcome =>
    obtain ⟨-,n,rfl⟩ := h
    exact ⟨rfl,n,rfl⟩
  | closed outcome =>
    obtain ⟨-,hclosed⟩ := h
    refine .inl ⟨rfl,.inr ?_⟩
    rw [runCalls,List.filterMap_nil,List.append_nil]
    exact hclosed
  | finished outcome => cases hrunning

/-- No call after a read concerns the program. -/
theorem afterReadCalls_program (point : Point) :
    (afterReadCalls point).filterMap programToken=[] := by
  cases point <;> rfl

/-- Only the steps that compile and set the filter concern a program. -/
theorem runCalls_program (reply : Reply) {call : PcapCall} (hcall : call∈runCalls code reply s)
    (hprogram : programToken call≠none) : s.point=.compiling ∨ s.point=.settingFilter := by
  obtain ⟨point,handle,shutdown⟩ := s
  cases point with
  | compiling => exact .inl rfl
  | settingFilter => exact .inr rfl
  | reading bound =>
    refine absurd ?_ hprogram
    have hnone := List.filterMap_eq_nil_iff.mp
      (afterReadCalls_program (code.afterRead reply.read reply.err))
    exact hnone call hcall
  | opening | settingNonblock | starting | closing outcome =>
    obtain rfl := List.mem_singleton.mp hcall
    exact absurd rfl hprogram
  | installed | opened | closed outcome | finished outcome => cases hcall

/-- These steps use the handle or leave it alone. -/
theorem filterCalls_uses (reply : Reply) (hpoint : s.point=.compiling ∨ s.point=.settingFilter) :
    ∀ call∈runCalls code reply s,handleToken call=none ∨ handleToken call=some .ticked := by
  obtain ⟨point,handle,shutdown⟩ := s
  have hcases : ∀ made,runCalls code reply ⟨point,handle,shutdown⟩=made →
      made=[.compile true] ∨ made=[.compile false,.geterr] ∨
        made=[.setfilter true,.freecode] ∨ made=[.setfilter false,.geterr,.freecode] := by
    rintro made rfl
    rcases hpoint with hpoint | hpoint <;> dsimp only at hpoint <;> subst hpoint <;>
      simp only [runCalls] <;> split <;> simp
  rcases hcases _ rfl with hmade | hmade | hmade | hmade <;> rw [hmade] <;> decide

/-- Such calls leave the handle open. -/
theorem Held.calls {handle : HandlePtr} (h : Held tokens handle) {made : List PcapCall}
    (huses : ∀ call∈made,handleToken call=none ∨ handleToken call=some .ticked) :
    Held (tokens++made.filterMap handleToken) handle := by
  induction made generalizing tokens with
  | nil => exact h.uses 0
  | cons call made ih =>
    obtain ⟨hfirst,hrest⟩ := List.forall_mem_cons.mp huses
    rcases hfirst with hnone | hticked
    · rw [List.filterMap_cons_none hnone]
      exact ih h hrest
    · rw [List.filterMap_cons_some hticked,List.append_cons]
      exact ih (h.uses 1) hrest

/-- The calls about the filter program as they have to be at the point. -/
def Compiled (tokens : List Token) : Point → Prop
  | .installed | .opening | .opened | .compiling => tokens=[]
  | .settingFilter => tokens=openSession 0
  | .settingNonblock | .starting | .reading _ | .closing _ | .closed _ | .finished _ =>
    tokens=[] ∨ tokens=closedSession 1

/-- A step of `run` compiles a program, sets and frees it or does neither. -/
theorem Compiled.step (horderly : Orderly code) (reply : Reply) (h : Compiled tokens s.point) :
    Compiled (tokens++(runCalls code reply s).filterMap programToken)
      (advance code reply s).1.point := by
  have hfilter : ∀ ts,ts=[] ∨ ts=closedSession 1 → Compiled ts code.afterFilter := by
    intro ts hts
    rcases horderly.afterFilter with hafter | hafter <;> rw [hafter] <;> exact hts
  obtain ⟨point,handle,shutdown⟩ := s
  cases point with
  | installed =>
    subst h
    rfl
  | opening =>
    subst h
    cases hok : reply.ok with
    | true =>
      simp only [advance,runCalls,hok]
      rfl
    | false =>
      simp only [advance,runCalls,hok]
      exact .inl rfl
  | opened =>
    subst h
    simp only [advance,runCalls]
    split
    · exact hfilter _ (.inl rfl)
    · rfl
  | compiling =>
    subst h
    cases hok : reply.ok with
    | true =>
      simp only [advance,runCalls,hok]
      rfl
    | false =>
      simp only [advance,runCalls,hok]
      exact .inl rfl
  | settingFilter =>
    subst h
    cases hok : reply.ok with
    | true =>
      simp only [advance,runCalls,hok]
      exact hfilter _ (.inr rfl)
    | false =>
      simp only [advance,runCalls,hok]
      exact .inr rfl
  | settingNonblock =>
    have hnone : (runCalls code reply ⟨.settingNonblock,handle,shutdown⟩).filterMap
        programToken=[] := rfl
    rw [hnone,List.append_nil]
    simp only [advance]
    split <;> exact h
  | reading bound =>
    simp only [advance,runCalls]
    rw [afterReadCalls_program,List.append_nil]
    rcases horderly.afterRead reply.read reply.err with
      hafter | ⟨outcome,hafter⟩ | ⟨outcome,hafter⟩ <;> rw [hafter] <;> exact h
  | starting => exact (List.append_nil tokens).symm ▸ h
  | closing outcome => exact (List.append_nil tokens).symm ▸ h
  | closed outcome => exact (List.append_nil tokens).symm ▸ h
  | finished outcome => exact (List.append_nil tokens).symm ▸ h

/-- A program is not compiled, waiting, or freed. -/
theorem Compiled.cases {point : Point} (h : Compiled tokens point) :
    tokens=[] ∨ tokens=openSession 0 ∨ tokens=closedSession 1 := by
  cases point with
  | installed | opening | opened | compiling => exact .inl h
  | settingFilter => exact .inr (.inl h)
  | settingNonblock | starting | reading bound | closing outcome | closed outcome
  | finished outcome => exact h.imp_right .inr

/-- No program is left when `run` is over. -/
theorem Compiled.over {point : Point} (h : Compiled tokens point)
    (hover : isFinished point=true) : tokens=[] ∨ tokens=closedSession 1 := by
  cases point with
  | finished outcome => exact h
  | _ => cases hover

/-- The handle is not opened, open, or closed. -/
theorem Fits.cases {handle : HandlePtr} {point : Point} (h : Fits tokens handle point) :
    tokens=[] ∨ (∃ n,tokens=openSession n) ∨ ∃ n,tokens=closedSession n := by
  cases point with
  | installed | opening => exact .inl h.2
  | closed outcome => exact .inr (.inr h.2)
  | finished outcome =>
    rcases h with ⟨-,hnone | hclosed⟩ | hheld
    · exact .inl hnone
    · exact .inr (.inr hclosed)
    · exact .inr (.inl hheld.2)
  | _ => exact .inr (.inl (And.right h))

/-- A program is waiting only while the handle is open. -/
theorem Compiled.held {programs : List Token} {handle : HandlePtr} {point : Point}
    (h : Compiled programs point) (hfits : Fits tokens handle point)
    (hwaiting : programs=openSession 0) : Held tokens handle := by
  subst hwaiting
  cases point with
  | settingFilter => exact hfits
  | installed | opening | opened | compiling => cases h
  | settingNonblock | starting | reading bound | closing outcome | closed outcome
  | finished outcome => rcases h with h | h <;> cases h

/-- A signal changes no more of `handle_` than its break flag. -/
theorem Fits.signal {handle : HandlePtr} {point : Point} (h : Fits tokens handle point) :
    Fits tokens (stop handle) point := by
  have hheld : Held tokens handle → Held tokens (stop handle) := by
    rintro ⟨⟨breakLoop,rfl⟩,hopen⟩
    exact ⟨⟨true,rfl⟩,hopen⟩
  cases point with
  | installed | opening =>
    obtain ⟨rfl,htokens⟩ := h
    exact ⟨rfl,htokens⟩
  | closed outcome =>
    obtain ⟨rfl,htokens⟩ := h
    exact ⟨rfl,htokens⟩
  | finished outcome =>
    rcases h with ⟨rfl,htokens⟩ | h
    · exact .inl ⟨rfl,htokens⟩
    · exact .inr (hheld h)
  | _ => exact hheld h

end Steps

/-- `handle_` and the calls as they have to be while the source is whole, during
its destructor and from then on. -/
def Placed (tokens : List Token) (s : SourceState) : Prop :=
  match s.life with
  | .whole => Fits tokens s.capture.handle s.capture.point
  | .destructing => isFinished s.capture.point=true ∧ s.capture.handle=.dangling ∧
    ∃ n,tokens=closedSession n
  | .destroyed => isFinished s.capture.point=true ∧ s.capture.handle=.null ∧ Released tokens

/-- The calls of the main thread account for the state. -/
structure Accounted (s : SourceState) (seen : List SourceObservation) : Prop where
  /-- The calls about the handle. -/
  handle : Placed (handleTokens seen) s
  /-- The calls about the program. -/
  program : Compiled (programTokens seen) s.capture.point

section Source

variable {code : SourceCode} {s : SourceState} {seen : List SourceObservation}

/-- The destructor closes a handle that is open, and only that. -/
theorem Accounted.destructed (h : Accounted s seen) (hover : isFinished s.capture.point=true) :
    Accounted (destruct s).1 (seen++(destruct s).2) := by
  obtain ⟨⟨point,handle,shutdown⟩,life⟩ := s
  obtain ⟨hhandle,hprogram⟩ := h
  cases life with
  | whole =>
    cases point with
    | finished outcome =>
      rcases hhandle with ⟨rfl,hreleased⟩ | ⟨⟨breakLoop,rfl⟩,n,hopen⟩
      · rw [destruct,if_pos rfl,List.append_nil]
        exact ⟨⟨rfl,rfl,hreleased⟩,hprogram⟩
      · rw [destruct,if_neg nofun]
        refine ⟨⟨rfl,rfl,n,?_⟩,?_⟩
        · rw [handleTokens_append,hopen]
          rfl
        · rw [programTokens_append]
          exact (List.append_nil (programTokens seen)).symm ▸ hprogram
    | _ => cases hover
  | destructing =>
    obtain ⟨hfinished,-,hclosed⟩ := hhandle
    rw [destruct,List.append_nil]
    exact ⟨⟨hfinished,rfl,.inr hclosed⟩,hprogram⟩
  | destroyed =>
    rw [destruct,List.append_nil]
    exact ⟨hhandle,hprogram⟩

/-- While `run` is in progress its source is whole. -/
theorem Placed.whole {tokens : List Token} (h : Placed tokens s)
    (hrunning : isFinished s.capture.point=false) : s.life=.whole := by
  obtain ⟨capture,life⟩ := s
  cases life with
  | whole => rfl
  | destructing => exact absurd (h.1.symm.trans hrunning) nofun
  | destroyed => exact absurd (h.1.symm.trans hrunning) nofun

/-- Every step of `run` keeps the account. -/
theorem Accounted.run (horderly : Orderly code) (reply : Reply) {capture : CaptureState}
    (h : Accounted ⟨capture,.whole⟩ seen) (hrunning : isFinished capture.point=false) :
    Accounted ⟨(advance code reply capture).1,.whole⟩
      (seen++(runCalls code reply capture).map .called) := by
  obtain ⟨hhandle,hprogram⟩ := h
  constructor
  · rw [handleTokens_append,handleTokens,handleTokens,calls_called]
    exact Fits.step horderly reply hhandle hrunning
  · rw [programTokens_append,programTokens,programTokens,calls_called]
    exact hprogram.step horderly reply

/-- Every signal keeps the account. -/
theorem Accounted.signal (h : Accounted s seen) :
    Accounted ((sourceMachine code).step s .signal).1 (seen++[.signalled (found s)]) := by
  have hhandle : handleTokens (seen++[.signalled (found s)])=handleTokens seen := by
    rw [handleTokens_append]
    exact List.append_nil _
  have hprogram : programTokens (seen++[.signalled (found s)])=programTokens seen := by
    rw [programTokens_append]
    exact List.append_nil _
  obtain ⟨⟨point,handle,shutdown⟩,life⟩ := s
  cases life with
  | whole => exact ⟨hhandle.symm ▸ h.handle.signal,hprogram.symm ▸ h.program⟩
  | destructing =>
    obtain ⟨hfinished,hdangling,hclosed⟩ := h.handle
    exact ⟨⟨hfinished,congrArg stop hdangling,hhandle.symm ▸ hclosed⟩,hprogram.symm ▸ h.program⟩
  | destroyed => exact ⟨hhandle.symm ▸ h.handle,hprogram.symm ▸ h.program⟩

/-- Every step keeps the account. -/
theorem Accounted.step (horderly : Orderly code) (h : Accounted s seen) (input : ShutdownInput) :
    Accounted ((sourceMachine code).step s input).1
      (seen++((sourceMachine code).step s input).2) := by
  cases input with
  | signal => exact h.signal
  | advance reply =>
    change Accounted (mainStep code reply s).1 (seen++(mainStep code reply s).2)
    cases hover : isFinished s.capture.point with
    | true =>
      rw [mainStep,if_pos hover]
      exact h.destructed hover
    | false =>
      obtain ⟨capture,life⟩ := s
      have hwhole : life=.whole := h.handle.whole hover
      subst hwhole
      rw [mainStep,if_neg (Bool.eq_false_iff.mp hover)]
      exact h.run horderly reply hover

/-- Every run keeps the account. -/
theorem run_accounted (horderly : Orderly code) (inputs : List ShutdownInput) :
    Accounted ((sourceMachine code).final {} inputs) ((sourceMachine code).trace {} inputs) := by
  have hinitial : Accounted {} [] := ⟨⟨rfl,rfl⟩,rfl⟩
  exact Machine.history_invariant (sourceMachine code) (fun _ _ input h => h.step horderly input)
    hinitial inputs

/-- A call about the program comes while the handle is open. -/
def WhileOpen (front : List SourceObservation) (o : SourceObservation) : Prop :=
  ∀ call,o=.called call → programToken call≠none → ∃ n,handleTokens front=openSession n

/-- Every step makes its calls about the program while the handle is open. -/
theorem step_whileOpen (haccounted : Accounted s seen) (h : Preceded WhileOpen seen)
    (input : ShutdownInput) :
    Preceded WhileOpen (seen++((sourceMachine code).step s input).2) := by
  refine h.append ?_
  rintro front o back hmade call rfl hprogram
  have hcall : .called call∈((sourceMachine code).step s input).2 := by
    rw [hmade]
    exact List.mem_append_right front List.mem_cons_self
  cases input with
  | signal => cases List.mem_singleton.mp hcall
  | advance reply =>
    change (mainStep code reply s).2=_ at hmade
    change .called call∈(mainStep code reply s).2 at hcall
    cases hover : isFinished s.capture.point with
    | true =>
      rw [mainStep,if_pos hover] at hcall
      unfold destruct at hcall
      split at hcall
      · split at hcall
        · cases hcall
        · cases List.mem_singleton.mp hcall
          exact absurd rfl hprogram
      · cases hcall
      · cases hcall
    | false =>
      rw [mainStep,if_neg (Bool.eq_false_iff.mp hover)] at hmade hcall
      obtain ⟨made,hmem,hsame⟩ := List.mem_map.mp hcall
      obtain rfl := SourceObservation.called.inj hsame
      have hpoint := runCalls_program reply hmem hprogram
      obtain ⟨before,after,hcalls,rfl,-⟩ := List.map_eq_append_iff.mp hmade
      have huses : ∀ call∈before,handleToken call=none ∨ handleToken call=some .ticked := by
        intro call hbefore
        have hmade : call∈runCalls code reply s.capture := by
          rw [hcalls]
          exact List.mem_append_left after hbefore
        exact filterCalls_uses reply hpoint call hmade
      obtain ⟨capture,life⟩ := s
      have hwhole : life=.whole := haccounted.handle.whole hover
      subst hwhole
      have hheld : Held (handleTokens seen) capture.handle := by
        have hfits : Fits (handleTokens seen) capture.handle capture.point := haccounted.handle
        rcases hpoint with hpoint | hpoint <;> dsimp only at hpoint <;> rw [hpoint] at hfits <;>
          exact hfits
      rw [handleTokens_append,handleTokens,handleTokens,calls_called]
      exact (hheld.calls huses).2

/-- Every run makes its calls about the program while the handle is open. -/
theorem run_whileOpen (horderly : Orderly code) (inputs : List ShutdownInput) :
    Preceded WhileOpen ((sourceMachine code).trace {} inputs) := by
  have hinitial : Accounted {} [] ∧ Preceded WhileOpen [] := ⟨⟨⟨rfl,rfl⟩,rfl⟩,preceded_nil _⟩
  exact (Machine.history_invariant (sourceMachine code)
    (P:=fun s seen => Accounted s seen ∧ Preceded WhileOpen seen)
    (fun _ _ input h => ⟨h.1.step horderly input,step_whileOpen h.1 h.2 input⟩) hinitial inputs).2

/-- The destructor leaves `run` where it ended. -/
theorem destruct_point (s : SourceState) : (destruct s).1.capture.point=s.capture.point := by
  obtain ⟨⟨point,handle,shutdown⟩,life⟩ := s
  cases life <;> cases handle <;> rfl

/-- The destructor makes at most two steps. -/
theorem destruct_life (s : SourceState) : (destruct s).1.life=.destroyed ∨
    s.life=.whole ∧ (destruct s).1.life=.destructing := by
  obtain ⟨⟨point,handle,shutdown⟩,life⟩ := s
  cases life with
  | whole =>
    cases handle with
    | null => exact .inl rfl
    | live breakLoop => exact .inr ⟨rfl,rfl⟩
    | dangling => exact .inr ⟨rfl,rfl⟩
  | destructing => exact .inl rfl
  | destroyed => exact .inl rfl

/-- The source is whole after `run`, or its destructor is in progress. -/
def Ending (s : SourceState) : Prop := isFinished s.capture.point=true ∧ s.life≠.destroyed

/-- A signal leaves the main thread and the source object where they are. -/
theorem signal_stays (code : SourceCode) (s : SourceState) :
    ((sourceMachine code).step s .signal).1.capture.point=s.capture.point ∧
      ((sourceMachine code).step s .signal).1.life=s.life := by
  refine ⟨?_,rfl⟩
  change (if s.life=.destroyed then _ else _ : CaptureState).point=_
  split <;> rfl

/-- The main thread's steps after `run` that do not destroy the source. -/
def stepsToDestroyed (s : SourceState) : ℕ := if s.life=.whole then 1 else 0

/-- Once `run` is over, the main thread destroys the source, however many signals
are delivered. -/
theorem ending_ranked : Ranked (sourceMachine code) (fun _ _ => True) isAdvance Ending
    (fun s => s.life=.destroyed) stepsToDestroyed := by
  rintro s input ⟨hover,hleft⟩ -
  cases input with
  | signal =>
    obtain ⟨hpoint,hlife⟩ := signal_stays code s
    refine .inr ⟨⟨hpoint.symm ▸ hover,hlife.symm ▸ hleft⟩,?_⟩
    rw [stepsToDestroyed,hlife]
    exact le_refl _
  | advance reply =>
    have hstep : ((sourceMachine code).step s (.advance reply)).1=(destruct s).1 := by
      change (mainStep code reply s).1=_
      rw [mainStep,if_pos hover]
    rw [hstep]
    rcases destruct_life s with hgone | ⟨hwhole,hnext⟩
    · exact .inl hgone
    · refine .inr ⟨⟨(destruct_point s).symm ▸ hover,hnext ▸ nofun⟩,?_⟩
      rw [stepsToDestroyed,stepsToDestroyed,if_neg (hnext ▸ nofun),if_pos hwhole]
      exact le_refl 1

/-- A destroyed source stays destroyed. -/
theorem destroyed_kept (hgone : s.life=.destroyed) (input : ShutdownInput) :
    ((sourceMachine code).step s input).1.life=.destroyed := by
  cases input with
  | signal => exact hgone
  | advance reply =>
    change (mainStep code reply s).1.life=.destroyed
    rw [mainStep]
    split
    · rw [destruct,hgone]
      exact hgone
    · exact hgone

/-- The handle is not opened, open, or closed. -/
theorem Placed.cases {tokens : List Token} (h : Placed tokens s) :
    tokens=[] ∨ (∃ n,tokens=openSession n) ∨ ∃ n,tokens=closedSession n := by
  obtain ⟨capture,life⟩ := s
  cases life with
  | whole => exact Fits.cases h
  | destructing => exact .inr (.inr h.2.2)
  | destroyed => exact h.2.2.imp_right .inr

/-- A program is waiting only while the handle is open. -/
theorem Accounted.waiting (h : Accounted s seen) (hwaiting : programTokens seen=openSession 0) :
    ∃ n,handleTokens seen=openSession n := by
  obtain ⟨hhandle,hprogram⟩ := h
  obtain ⟨capture,life⟩ := s
  have hrunning : isFinished capture.point=true → False := by
    intro hover
    have hnone := hprogram.over hover
    rw [hwaiting] at hnone
    rcases hnone with hnone | hnone <;> cases hnone
  cases life with
  | whole => exact (hprogram.held hhandle hwaiting).2
  | destructing => exact (hrunning hhandle.1).elim
  | destroyed => exact (hrunning hhandle.1).elim

end Source

/-- Every open handle is closed exactly once, and every compiled program is freed
exactly once. For both sources, all filters, all replies of libpcap and all
signals: the calls about the handle are none, an opening and uses, or an opening,
uses and one closing, so there is no use after the closing and no second one; the
calls about the program are `pcap_compile`, `pcap_setfilter` and `pcap_freecode`,
each made while the handle is open, so that the program is freed before the handle
is closed; and, whichever way `run` was left, nothing is open once the source is
destroyed, two steps of the main thread later at most. -/
theorem resources_released (pcapFile iface bpfFilter : String) (inputs : List ShutdownInput) :
    let m := sourceMachine (packetSource pcapFile iface bpfFilter)
    let s := m.final {} inputs
    let handles := handleTokens (m.trace {} inputs)
    let programs := programTokens (m.trace {} inputs)
    (handles=[] ∨ (∃ n,handles=openSession n) ∨ ∃ n,handles=closedSession n) ∧
    (programs=[] ∨ (programs=openSession 0 ∧ ∃ n,handles=openSession n) ∨
      programs=closedSession 1) ∧
    (∀ front call back,m.trace {} inputs=front++.called call::back → programToken call≠none →
      ∃ n,handleTokens front=openSession n) ∧
    (s.life=.destroyed →
      (handles=[] ∨ ∃ n,handles=closedSession n) ∧ (programs=[] ∨ programs=closedSession 1)) ∧
    (isFinished s.capture.point=true → ∀ later,2≤later.countP isAdvance →
      (m.final {} (inputs++later)).life=.destroyed) := by
  intro m s handles programs
  have horderly := packetSource_orderly pcapFile iface bpfFilter
  have haccounted : Accounted s (m.trace {} inputs) := run_accounted horderly inputs
  refine ⟨?_,?_,?_,?_,?_⟩
  · exact haccounted.handle.cases
  · rcases haccounted.program.cases with hnone | hwaiting | hfreed
    · exact .inl hnone
    · exact .inr (.inl ⟨hwaiting,haccounted.waiting hwaiting⟩)
    · exact .inr (.inr hfreed)
  · intro front call back hsplit
    exact run_whileOpen horderly inputs front _ back hsplit call rfl
  · intro hgone
    have hplaced := haccounted.handle
    rw [Placed,hgone] at hplaced
    obtain ⟨hover,-,hreleased⟩ := hplaced
    exact ⟨hreleased,haccounted.program.over hover⟩
  · intro hover later hsteps
    rw [m.final_append]
    by_cases hgone : s.life=.destroyed
    · exact m.final_invariant (P:=fun t => t.life=.destroyed)
        (fun _ input h => destroyed_kept h input) hgone later
    · refine ending_ranked.rests (fun _ input h => destroyed_kept h input) ⟨hover,hgone⟩
        (along_always m s later) ?_
      have hleft : stepsToDestroyed s≤1 := by
        rw [stepsToDestroyed]
        split <;> decide
      exact lt_of_le_of_lt hleft hsteps

/-- The main thread has made a step that called `pcap_close` and none since. -/
def JustClosed (code : SourceCode) (inputs : List ShutdownInput) : Prop :=
  ∃ front reply signals,inputs=front++.advance reply::signals ∧
    (∀ input∈signals,input=.signal) ∧
    .called .close∈((sourceMachine code).step ((sourceMachine code).final {} front)
      (.advance reply)).2

section Closing

variable {code : SourceCode}

/-- Nothing is closed before the first step. -/
theorem justClosed_nil : ¬JustClosed code [] := by
  rintro ⟨front,reply,signals,hnil,-⟩
  cases front <;> cases hnil

/-- A signal makes no call. -/
theorem justClosed_signal (inputs : List ShutdownInput) :
    JustClosed code (inputs++[.signal]) ↔ JustClosed code inputs := by
  constructor
  · rintro ⟨front,reply,signals,hinputs,hsignals,hclose⟩
    rcases List.eq_nil_or_concat signals with rfl | ⟨before,last,rfl⟩
    · have hlast := (List.append_inj' hinputs rfl).2
      cases hlast
    · rw [List.concat_eq_append,← List.cons_append,← List.append_assoc] at hinputs
      have hbefore := (List.append_inj' hinputs rfl).1
      refine ⟨front,reply,before,hbefore,fun input hinput => ?_,hclose⟩
      exact hsignals input (List.concat_eq_append ▸ List.mem_append_left _ hinput)
  · rintro ⟨front,reply,signals,rfl,hsignals,hclose⟩
    refine ⟨front,reply,signals++[.signal],by simp,fun input hinput => ?_,hclose⟩
    rcases List.mem_append.mp hinput with hinput | hinput
    · exact hsignals input hinput
    · exact List.mem_singleton.mp hinput

/-- Whether a step of the main thread calls `pcap_close`. -/
theorem justClosed_advance (inputs : List ShutdownInput) (reply : Reply) :
    JustClosed code (inputs++[.advance reply]) ↔
      .called .close∈(mainStep code reply ((sourceMachine code).final {} inputs)).2 := by
  constructor
  · rintro ⟨front,later,signals,hinputs,hsignals,hclose⟩
    rcases List.eq_nil_or_concat signals with rfl | ⟨before,last,rfl⟩
    · obtain ⟨rfl,hlast⟩ := List.append_inj' hinputs rfl
      cases hlast
      exact hclose
    · rw [List.concat_eq_append,← List.cons_append,← List.append_assoc] at hinputs
      have hlast := (List.append_inj' hinputs rfl).2
      have hsignal := hsignals last (by simp)
      rw [hsignal] at hlast
      cases hlast
  · intro hclose
    exact ⟨inputs,reply,[],rfl,List.forall_mem_nil _,hclose⟩

/-- A handle that is held is not closed. -/
theorem Held.not_dangling {tokens : List Token} {handle : HandlePtr} (h : Held tokens handle) :
    handle≠.dangling := by
  obtain ⟨⟨breakLoop,rfl⟩,-⟩ := h
  exact nofun

/-- No call after a read closes the handle. -/
theorem afterReadCalls_close (point : Point) : .close∉afterReadCalls point := by
  cases point <;> simp [afterReadCalls]

/-- A step of `run` that calls `pcap_close` leaves a closed handle in `handle_`,
and no other step of `run` does. -/
theorem Fits.closes {tokens : List Token} {s : CaptureState}
    (h : Fits tokens s.handle s.point) (hrunning : isFinished s.point=false) (reply : Reply) :
    (advance code reply s).1.handle=.dangling ↔ .close∈runCalls code reply s := by
  obtain ⟨point,handle,shutdown⟩ := s
  have hheld : Held tokens handle → (handle=.dangling ↔ False) := fun h =>
    iff_false_intro h.not_dangling
  cases point with
  | installed =>
    obtain ⟨hnull : handle=.null,-⟩ := h
    simp [advance,runCalls,hnull]
  | opening => cases hok : reply.ok <;> simp [advance,runCalls,hok]
  | opened => simpa [advance,runCalls] using hheld h
  | compiling => cases hok : reply.ok <;> simpa [advance,runCalls,hok] using hheld h
  | settingFilter => cases hok : reply.ok <;> simpa [advance,runCalls,hok] using hheld h
  | settingNonblock => simpa [advance,runCalls] using hheld h
  | starting => simpa [advance,runCalls] using hheld h
  | reading bound =>
    simp only [advance,runCalls,afterReadCalls_close,iff_false]
    split
    · intro hclosed
      cases hclosed
    · exact Held.not_dangling h
  | closing outcome => simp [advance,runCalls]
  | closed outcome => simp [advance,runCalls]
  | finished outcome => cases hrunning

/-- A closed handle is found when the pointer to it is left. -/
theorem found_closedHandle (s : SourceState) :
    found s=.closedHandle ↔ s.life≠.destroyed ∧ s.capture.handle=.dangling := by
  obtain ⟨⟨point,handle,shutdown⟩,life⟩ := s
  cases life <;> cases handle <;> simp [found]

/-- A destroyed source is found when there is one. -/
theorem found_destroyedSource (s : SourceState) :
    found s=.destroyedSource ↔ s.life=.destroyed := by
  obtain ⟨⟨point,handle,shutdown⟩,life⟩ := s
  cases life <;> cases handle <;> simp [found]

/-- An open handle is found when there is one. -/
theorem found_openHandle (s : SourceState) :
    found s=.openHandle ↔ s.life≠.destroyed ∧ ∃ breakLoop,s.capture.handle=.live breakLoop := by
  obtain ⟨⟨point,handle,shutdown⟩,life⟩ := s
  cases life <;> cases handle <;> simp [found]

/-- A handle that was never opened, or closed, is not open. -/
theorem Released.not_open {tokens : List Token} (h : Released tokens) :
    ¬∃ n,tokens=openSession n := by
  rintro ⟨n,rfl⟩
  rcases h with h | ⟨m,h⟩
  · cases h
  · have hcount := congrArg (List.count Token.closed) h
    simp [openSession,closedSession,List.count_replicate] at hcount

/-- The pointer and the calls agree about an open handle. -/
theorem Fits.live_iff {tokens : List Token} {handle : HandlePtr} {point : Point}
    (h : Fits tokens handle point) :
    (∃ breakLoop,handle=.live breakLoop) ↔ ∃ n,tokens=openSession n := by
  have hnone : ∀ {gone : HandlePtr},handle=gone → (∀ breakLoop,gone≠.live breakLoop) →
      Released tokens → ((∃ breakLoop,handle=.live breakLoop) ↔ ∃ n,tokens=openSession n) := by
    rintro gone rfl hgone hreleased
    exact iff_of_false (fun ⟨breakLoop,hlive⟩ => hgone breakLoop hlive) hreleased.not_open
  cases point with
  | installed | opening => exact hnone h.1 (fun _ => nofun) (.inl h.2)
  | closed outcome => exact hnone h.1 (fun _ => nofun) (.inr h.2)
  | finished outcome =>
    rcases h with ⟨hnull,hreleased⟩ | hheld
    · exact hnone hnull (fun _ => nofun) hreleased
    · exact iff_of_true hheld.1 hheld.2
  | _ => exact iff_of_true (And.left h) (And.right h)

/-- An open handle is found when the calls have it open. -/
theorem Placed.openHandle_iff {tokens : List Token} {s : SourceState} (h : Placed tokens s) :
    found s=.openHandle ↔ ∃ n,tokens=openSession n := by
  rw [found_openHandle]
  obtain ⟨capture,life⟩ := s
  cases life with
  | whole => exact (and_iff_right nofun).trans (Fits.live_iff h)
  | destructing =>
    obtain ⟨-,hdangling,hclosed⟩ := h
    refine iff_of_false (fun ⟨_,breakLoop,hlive⟩ => ?_) (Released.not_open (.inr hclosed))
    exact absurd (hdangling.symm.trans hlive) nofun
  | destroyed =>
    obtain ⟨-,-,hreleased⟩ := h
    exact iff_of_false (fun ⟨hleft,_⟩ => hleft rfl) hreleased.not_open

/-- A step of the main thread leaves a closed handle exactly when it closes it. -/
theorem Placed.closes {tokens : List Token} {s : SourceState} (h : Placed tokens s)
    (reply : Reply) :
    found (mainStep code reply s).1=.closedHandle ↔ .called .close∈(mainStep code reply s).2 := by
  cases hover : isFinished s.capture.point with
  | false =>
    have hwhole := h.whole hover
    have hfits : Fits tokens s.capture.handle s.capture.point := by
      rw [Placed,hwhole] at h
      exact h
    rw [mainStep,if_neg (Bool.eq_false_iff.mp hover),found_closedHandle,hwhole]
    simpa using hfits.closes hover reply
  | true =>
    rw [mainStep,if_pos hover,found_closedHandle]
    obtain ⟨⟨point,handle,shutdown⟩,life⟩ := s
    cases life with
    | whole =>
      cases handle <;> simp [destruct]
    | destructing => simp [destruct]
    | destroyed => simp [destruct]

/-- A signal closes no handle. -/
theorem signal_dangling {s : SourceState} (hleft : s.life≠.destroyed) :
    ((sourceMachine code).step s .signal).1.capture.handle=.dangling ↔
      s.capture.handle=.dangling := by
  change (if s.life=.destroyed then _ else _ : CaptureState).handle=.dangling ↔ _
  rw [if_neg hleft]
  change stop s.capture.handle=.dangling ↔ _
  cases s.capture.handle <;> simp [stop]

/-- A closed handle is found exactly right after the closing. -/
theorem closedHandle_iff (horderly : Orderly code) (inputs : List ShutdownInput) :
    found ((sourceMachine code).final {} inputs)=.closedHandle ↔ JustClosed code inputs := by
  induction inputs using List.reverseRecOn with
  | nil => exact ⟨nofun,fun h => absurd h justClosed_nil⟩
  | append_singleton inputs input ih =>
    have hplaced := (run_accounted horderly inputs).handle
    rw [Machine.final_concat]
    cases input with
    | signal =>
      rw [justClosed_signal,← ih,found_closedHandle,found_closedHandle]
      exact and_congr_right fun hleft => signal_dangling hleft
    | advance reply =>
      rw [justClosed_advance]
      exact hplaced.closes reply

end Closing

/-- What a signal comes upon, at any point of any run of either source: a handle
exactly when the calls of the main thread have opened one and not closed it; a
handle that is closed already exactly when the main thread has just called
`pcap_close` and made no step since; a source that is destroyed only after `run`,
and from then on forever, as `g_source_ptr` is never reset; otherwise nothing. -/
theorem signal_finds (pcapFile iface bpfFilter : String) (inputs : List ShutdownInput) :
    let code := packetSource pcapFile iface bpfFilter
    let m := sourceMachine code
    let s := m.final {} inputs
    (found s=.openHandle ↔ ∃ n,handleTokens (m.trace {} inputs)=openSession n) ∧
    (found s=.closedHandle ↔ JustClosed code inputs) ∧
    (found s=.destroyedSource → isFinished s.capture.point=true ∧
      ∀ later,found (m.final {} (inputs++later))=.destroyedSource) := by
  intro code m s
  have horderly := packetSource_orderly pcapFile iface bpfFilter
  have haccounted : Accounted s (m.trace {} inputs) := run_accounted horderly inputs
  refine ⟨?_,closedHandle_iff horderly inputs,?_⟩
  · exact haccounted.handle.openHandle_iff
  · intro hfound
    have hgone : s.life=.destroyed := (found_destroyedSource s).mp hfound
    refine ⟨?_,fun later => ?_⟩
    · have hplaced := haccounted.handle
      rw [Placed,hgone] at hplaced
      exact hplaced.1
    · rw [m.final_append,found_destroyedSource]
      exact m.final_invariant (P:=fun t => t.life=.destroyed)
        (fun _ input h => destroyed_kept h input) hgone later

/-- A live capture that cannot be made non-blocking leaves its handle to the
destructor, and a later signal goes to the source that is gone. -/
example :
    let failed : Reply := {ok := false}
    let inputs := [{},{},{},failed,{},{}].map ShutdownInput.advance++[.signal]
    (sourceMachine (liveCaptureSource "eth0" "")).trace {} inputs=
      [.called (.openHandle true),.called (.setnonblock false),.called .close,
        .signalled .destroyedSource] := by
  decide +kernel

end PacketPipe.CaptureResources

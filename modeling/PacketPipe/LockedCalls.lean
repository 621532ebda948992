import Mathlib.Logic.Function.Basic
import PacketPipe.ObservedMachines

/-!
# Calls of several threads under one lock

A call is cut into steps on a shared state, which the surroundings change too.
A thread waits for the lock before the first step of a call and gives it back
with the last one. At most one thread is inside a call then, and every run is
a run of one thread that makes the calls one after the other, in the order in
which they got the lock. The calls of each thread stay in their order.
-/

namespace PacketPipe.LockedCalls

open ObservedMachines

/-- The steps of a call, and what the surroundings do between any two. -/
structure Code (κ π ε ω ο : Type) where
  /-- The locals with which a call begins. -/
  start : κ → π
  /-- One step: the shared state and the locals after it, none for the last. -/
  step : κ → π → ω → ω×Option π×List ο
  /-- One step of the surroundings. -/
  other : ε → ω → ω×List ο

/-- Where a thread is. -/
inductive Phase (κ π : Type)
  /-- Between two calls. -/
  | outside
  /-- Waiting for the lock. -/
  | waiting (call : κ)
  /-- Inside a call, with its locals. -/
  | inside (call : κ) (locals : π)

/-- The call that a thread is inside of, with its locals. -/
def Phase.current {κ π : Type} : Phase κ π → Option (κ×π)
  | .outside => none
  | .waiting _ => none
  | .inside call locals => some (call,locals)

/-- The call that a thread has asked for and not finished. -/
def Phase.pending {κ π : Type} : Phase κ π → List κ
  | .outside => []
  | .waiting call => [call]
  | .inside call _ => [call]

/-- What an observer sees of the threads. -/
inductive Seen (θ κ ο : Type)
  /-- The thread begins to wait for the lock. -/
  | asked (thread : θ) (call : κ)
  /-- The thread gets the lock. -/
  | entered (thread : θ) (call : κ)
  /-- A step shows something. -/
  | did (o : ο)
  /-- The thread gives the lock back. -/
  | left (thread : θ) (call : κ)

/-- The shared state, the lock and the threads. -/
structure Locked (θ κ π ω : Type) where
  /-- What the calls work on. -/
  shared : ω
  /-- The thread that has the lock. -/
  holder : Option θ
  /-- Where each thread is. -/
  phase : θ → Phase κ π

/-- What happens next. -/
inductive LockInput (θ κ ε : Type)
  /-- The thread makes a call. -/
  | ask (thread : θ) (call : κ)
  /-- The thread takes a step, if it can. -/
  | turn (thread : θ)
  /-- The surroundings take a step. -/
  | other (e : ε)

section Threads

variable {θ κ π ε ω ο : Type} [DecidableEq θ]

/-- A thread between two calls makes the next one. -/
def ask (thread : θ) (call : κ) (s : Locked θ κ π ω) : Locked θ κ π ω×List (Seen θ κ ο) :=
  match s.phase thread with
  | .outside =>
    ({s with phase := Function.update s.phase thread (.waiting call)},[.asked thread call])
  | .waiting _ => (s,[])
  | .inside _ _ => (s,[])

/-- A thread that waits gets the lock when nobody has it; a thread inside a
call takes a step of it. -/
def turn (code : Code κ π ε ω ο) (thread : θ) (s : Locked θ κ π ω) :
    Locked θ κ π ω×List (Seen θ κ ο) :=
  match s.phase thread with
  | .outside => (s,[])
  | .waiting call =>
    match s.holder with
    | none =>
      ({s with
        holder := some thread
        phase := Function.update s.phase thread (.inside call (code.start call))},
        [.entered thread call])
    | some _ => (s,[])
  | .inside call locals =>
    let stepped := code.step call locals s.shared
    match stepped.2.1 with
    | some after =>
      ({s with
        shared := stepped.1
        phase := Function.update s.phase thread (.inside call after)},
        stepped.2.2.map .did)
    | none =>
      (⟨stepped.1,none,Function.update s.phase thread .outside⟩,
        stepped.2.2.map .did++[.left thread call])

/-- The threads under any schedule. -/
def lockedMachine (code : Code κ π ε ω ο) :
    Machine (Locked θ κ π ω) (LockInput θ κ ε) (Seen θ κ ο) where
  step s
    | .ask thread call => ask thread call s
    | .turn thread => turn code thread s
    | .other e =>
      let stepped := code.other e s.shared
      ({s with shared := stepped.1},stepped.2.map .did)

end Threads

/-- One thread that needs no lock. -/
structure Single (κ π ω : Type) where
  /-- What the calls work on. -/
  shared : ω
  /-- The call in progress. -/
  current : Option (κ×π)

/-- What the one thread or its surroundings do next. -/
inductive SingleInput (κ ε : Type)
  /-- The next call begins. -/
  | enter (call : κ)
  /-- The call in progress takes a step. -/
  | turn
  /-- The surroundings take a step. -/
  | other (e : ε)

/-- What an observer sees of the one thread. -/
inductive SingleSeen (κ ο : Type)
  /-- A call begins. -/
  | entered (call : κ)
  /-- A step shows something. -/
  | did (o : ο)
  /-- A call has returned. -/
  | left (call : κ)

section OneThread

variable {κ π ε ω ο : Type}

/-- One step of the one thread. -/
def singleTurn (code : Code κ π ε ω ο) (s : Single κ π ω) : Single κ π ω×List (SingleSeen κ ο) :=
  match s.current with
  | none => (s,[])
  | some (call,locals) =>
    let stepped := code.step call locals s.shared
    match stepped.2.1 with
    | some after => (⟨stepped.1,some (call,after)⟩,stepped.2.2.map .did)
    | none => (⟨stepped.1,none⟩,stepped.2.2.map .did++[.left call])

/-- The one thread makes calls one after the other. -/
def singleMachine (code : Code κ π ε ω ο) :
    Machine (Single κ π ω) (SingleInput κ ε) (SingleSeen κ ο) where
  step s
    | .enter call =>
      match s.current with
      | none => ({s with current := some (call,code.start call)},[.entered call])
      | some _ => (s,[])
    | .turn => singleTurn code s
    | .other e =>
      let stepped := code.other e s.shared
      ({s with shared := stepped.1},stepped.2.map .did)

end OneThread

section Exclusion

variable {θ κ π ε ω ο : Type}

/-- A thread is inside a call exactly when it has the lock. -/
structure Exclusive (s : Locked θ κ π ω) : Prop where
  /-- Whoever is inside has the lock. -/
  inside : ∀ thread call locals,s.phase thread=.inside call locals → s.holder=some thread
  /-- Whoever has the lock is inside. -/
  holder : ∀ thread,s.holder=some thread → ∃ call locals,s.phase thread=.inside call locals

/-- Two threads are never inside at once. -/
theorem Exclusive.unique {s : Locked θ κ π ω} (h : Exclusive s) {thread thread' : θ}
    {call call' : κ} {locals locals' : π} (hinside : s.phase thread=.inside call locals)
    (hinside' : s.phase thread'=.inside call' locals') : thread=thread' :=
  Option.some_inj.mp ((h.inside _ _ _ hinside).symm.trans (h.inside _ _ _ hinside'))

/-- The call in progress, whoever makes it. -/
def Locked.current (s : Locked θ κ π ω) : Option (κ×π) :=
  s.holder.bind fun thread => (s.phase thread).current

/-- The threads seen as one. -/
def Locked.single (s : Locked θ κ π ω) : Single κ π ω := ⟨s.shared,s.current⟩

/-- An observation without the thread that makes it. -/
def anonymous : Seen θ κ ο → Option (SingleSeen κ ο)
  | .asked _ _ => none
  | .entered _ call => some (.entered call)
  | .did o => some (.did o)
  | .left _ call => some (.left call)

/-- What the steps show is anonymous already. -/
theorem anonymous_did (seen : List ο) :
    (seen.map (Seen.did : ο → Seen θ κ ο)).filterMap anonymous=seen.map .did := by
  rw [List.filterMap_map]
  exact congrFun (List.filterMap_eq_map (f:=SingleSeen.did)) seen

/-- The call in progress is that of the thread inside. -/
theorem Exclusive.current {s : Locked θ κ π ω} (h : Exclusive s) {thread : θ} {call : κ}
    {locals : π} (hinside : s.phase thread=.inside call locals) :
    s.current=some (call,locals) := by
  rw [Locked.current,h.inside _ _ _ hinside,Option.bind_some,hinside]
  rfl

variable [DecidableEq θ]

/-- Moving one thread between two phases outside of calls keeps the rest. -/
theorem Exclusive.ask {s : Locked θ κ π ω} (h : Exclusive s) {thread : θ} {call : κ}
    (houtside : s.phase thread=.outside) :
    Exclusive {s with phase := Function.update s.phase thread (.waiting call)} := by
  constructor
  · intro other call' locals hinside
    dsimp only at hinside
    by_cases heq : other=thread
    · subst heq
      rw [Function.update_self] at hinside
      cases hinside
    · rw [Function.update_of_ne heq] at hinside
      exact h.inside other call' locals hinside
  · intro other hholder
    obtain ⟨call',locals,hinside⟩ := h.holder other hholder
    have hne : other≠thread := by
      rintro rfl
      rw [houtside] at hinside
      cases hinside
    refine ⟨call',locals,?_⟩
    dsimp only
    rwa [Function.update_of_ne hne]

/-- A thread with the lock is inside, whatever its call and its locals are,
when no other thread was. -/
theorem exclusive_hold {phase : θ → Phase κ π} {thread : θ} (shared : ω)
    (hothers : ∀ other call locals,phase other=.inside call locals → other=thread)
    (call : κ) (locals : π) :
    Exclusive ⟨shared,some thread,Function.update phase thread (.inside call locals)⟩ := by
  constructor
  · intro other call' locals' hinside
    dsimp only at hinside ⊢
    by_cases heq : other=thread
    · rw [heq]
    · rw [Function.update_of_ne heq] at hinside
      exact absurd (hothers other call' locals' hinside) heq
  · intro other hholder
    obtain rfl := Option.some_inj.mp hholder
    exact ⟨call,locals,Function.update_self ..⟩

/-- Nobody is inside when the lock is free. -/
theorem exclusive_release {phase : θ → Phase κ π} {thread : θ} (shared : ω)
    (hothers : ∀ other call locals,phase other=.inside call locals → other=thread) :
    Exclusive ⟨shared,none,Function.update phase thread .outside⟩ := by
  constructor
  · intro other call' locals' hinside
    dsimp only at hinside
    by_cases heq : other=thread
    · subst heq
      rw [Function.update_self] at hinside
      cases hinside
    · rw [Function.update_of_ne heq] at hinside
      exact absurd (hothers other call' locals' hinside) heq
  · intro other hholder
    cases hholder

/-- Everything a step of the threads can do, with the step of the one thread
that looks the same. -/
inductive LockStep (code : Code κ π ε ω ο) (s : Locked θ κ π ω) :
    LockInput θ κ ε → Locked θ κ π ω → List (Seen θ κ ο) → List (SingleInput κ ε) → Prop
  /-- A thread makes a call. -/
  | asks (thread : θ) (call : κ) (houtside : s.phase thread=.outside) :
    LockStep code s (.ask thread call)
      {s with phase := Function.update s.phase thread (.waiting call)} [.asked thread call] []
  /-- A thread is busy with another call, has nothing to do or waits. -/
  | stays (input : LockInput θ κ ε) : LockStep code s input s [] []
  /-- A thread gets the lock. -/
  | enters (thread : θ) (call : κ) (hwaiting : s.phase thread=.waiting call)
    (hfree : s.holder=none) :
    LockStep code s (.turn thread)
      {s with
        holder := some thread
        phase := Function.update s.phase thread (.inside call (code.start call))}
      [.entered thread call] [.enter call]
  /-- A call goes on. -/
  | goes (thread : θ) (call : κ) (locals after : π) (hinside : s.phase thread=.inside call locals)
    (hafter : (code.step call locals s.shared).2.1=some after) :
    LockStep code s (.turn thread)
      {s with
        shared := (code.step call locals s.shared).1
        phase := Function.update s.phase thread (.inside call after)}
      ((code.step call locals s.shared).2.2.map .did) [.turn]
  /-- A call returns. -/
  | leaves (thread : θ) (call : κ) (locals : π) (hinside : s.phase thread=.inside call locals)
    (hafter : (code.step call locals s.shared).2.1=none) :
    LockStep code s (.turn thread)
      ⟨(code.step call locals s.shared).1,none,Function.update s.phase thread .outside⟩
      ((code.step call locals s.shared).2.2.map .did++[.left thread call]) [.turn]
  /-- The surroundings take a step. -/
  | other (e : ε) :
    LockStep code s (.other e) {s with shared := (code.other e s.shared).1}
      ((code.other e s.shared).2.map .did) [.other e]

/-- The inputs of the one thread at a step of the threads. -/
def singleInputs (s : Locked θ κ π ω) : LockInput θ κ ε → List (SingleInput κ ε)
  | .ask _ _ => []
  | .turn thread =>
    match s.phase thread with
    | .outside => []
    | .waiting call => if s.holder.isNone=true then [.enter call] else []
    | .inside _ _ => [.turn]
  | .other e => [.other e]

/-- There are no other steps. -/
theorem lockedMachine_step (code : Code κ π ε ω ο) (s : Locked θ κ π ω)
    (input : LockInput θ κ ε) :
    LockStep code s input ((lockedMachine code).step s input).1
      ((lockedMachine code).step s input).2 (singleInputs s input) := by
  cases input with
  | ask thread call =>
    simp only [lockedMachine,ask,singleInputs]
    cases hphase : s.phase thread with
    | outside => exact .asks thread call hphase
    | waiting call' => exact .stays _
    | inside call' locals => exact .stays _
  | turn thread =>
    simp only [lockedMachine,turn,singleInputs]
    cases hphase : s.phase thread with
    | outside => exact .stays _
    | waiting call =>
      cases hholder : s.holder with
      | none => exact .enters thread call hphase hholder
      | some other => exact .stays _
    | inside call locals =>
      dsimp only
      cases hafter : (code.step call locals s.shared).2.1 with
      | some after => exact .goes thread call locals after hphase hafter
      | none => exact .leaves thread call locals hphase hafter
  | other e => exact .other e

/-- Every step keeps the exclusion. -/
theorem LockStep.exclusive {code : Code κ π ε ω ο} {s s' : Locked θ κ π ω}
    {input : LockInput θ κ ε} {seen : List (Seen θ κ ο)} {inputs : List (SingleInput κ ε)}
    (hstep : LockStep code s input s' seen inputs) (h : Exclusive s) : Exclusive s' := by
  cases hstep with
  | asks thread call houtside => exact h.ask houtside
  | stays => exact h
  | enters thread call hwaiting hfree =>
    refine exclusive_hold s.shared (fun other call' locals hinside => ?_) call _
    rw [h.inside other call' locals hinside] at hfree
    cases hfree
  | goes thread call locals after hinside =>
    rw [h.inside _ _ _ hinside]
    exact exclusive_hold _ (fun other _ _ hother => h.unique hother hinside) call after
  | leaves thread call locals hinside =>
    exact exclusive_release _ fun other _ _ hother => h.unique hother hinside
  | other e => exact ⟨h.inside,h.holder⟩

/-- Every step is that of the one thread. -/
theorem LockStep.single {code : Code κ π ε ω ο} {s s' : Locked θ κ π ω}
    {input : LockInput θ κ ε} {seen : List (Seen θ κ ο)} {inputs : List (SingleInput κ ε)}
    (hstep : LockStep code s input s' seen inputs) (h : Exclusive s) :
    (singleMachine code).final s.single inputs=s'.single ∧
      (singleMachine code).trace s.single inputs=seen.filterMap anonymous := by
  cases hstep with
  | asks thread call houtside =>
    have hcurrent : s.current=
        Locked.current {s with phase := Function.update s.phase thread (.waiting call)} := by
      unfold Locked.current
      dsimp only
      cases hholder : s.holder with
      | none => rfl
      | some other =>
        obtain ⟨call',locals,hinside⟩ := h.holder other hholder
        have hne : other≠thread := by
          rintro rfl
          rw [houtside] at hinside
          cases hinside
        rw [Option.bind_some,Option.bind_some,Function.update_of_ne hne]
    exact ⟨by rw [Locked.single,hcurrent]; rfl,rfl⟩
  | stays => exact ⟨rfl,rfl⟩
  | enters thread call hwaiting hfree =>
    have hcurrent : s.single=⟨s.shared,none⟩ := by
      rw [Locked.single,Locked.current,hfree]
      rfl
    rw [hcurrent]
    refine ⟨?_,rfl⟩
    simp [singleMachine,Locked.single,Locked.current,Phase.current]
  | goes thread call locals after hinside hafter =>
    have hcurrent : s.single=⟨s.shared,some (call,locals)⟩ := by
      rw [Locked.single,h.current hinside]
    rw [hcurrent,anonymous_did]
    constructor
    · simp [singleMachine,singleTurn,hafter,Locked.single,Locked.current,
        h.inside _ _ _ hinside,Phase.current]
    · simp [singleMachine,singleTurn,hafter]
  | leaves thread call locals hinside hafter =>
    have hcurrent : s.single=⟨s.shared,some (call,locals)⟩ := by
      rw [Locked.single,h.current hinside]
    rw [hcurrent,List.filterMap_append,anonymous_did]
    constructor
    · simp [singleMachine,singleTurn,hafter,Locked.single,Locked.current]
    · simp [singleMachine,singleTurn,hafter,anonymous]
  | other e =>
    rw [anonymous_did]
    exact ⟨rfl,List.append_nil _⟩

/-- In every run at most one thread is inside, and the run is one of a single
thread that makes the calls in the order in which they got the lock. -/
theorem locked_single (code : Code κ π ε ω ο) {s : Locked θ κ π ω} (h : Exclusive s)
    (inputs : List (LockInput θ κ ε)) :
    Exclusive ((lockedMachine code).final s inputs) ∧
      (singleMachine code).final s.single ((lockedMachine code).feed singleInputs s inputs)=
        ((lockedMachine code).final s inputs).single ∧
      (singleMachine code).trace s.single ((lockedMachine code).feed singleInputs s inputs)=
        ((lockedMachine code).trace s inputs).filterMap anonymous := by
  have hkeeps : ∀ s (input : LockInput θ κ ε),Exclusive s →
      Exclusive ((lockedMachine code).step s input).1 :=
    fun s input h => (lockedMachine_step code s input).exclusive h
  have hsingle : ∀ s (input : LockInput θ κ ε),Exclusive s →
      (singleMachine code).final s.single (singleInputs s input)=
          ((lockedMachine code).step s input).1.single ∧
        (singleMachine code).trace s.single (singleInputs s input)=
          ((lockedMachine code).step s input).2.filterMap anonymous :=
    fun s input h => (lockedMachine_step code s input).single h
  have hproject := (lockedMachine code).run_project (singleMachine code) hkeeps hsingle h inputs
  exact ⟨(lockedMachine code).final_invariant hkeeps h inputs,hproject⟩

/-- The call that a thread asks for. -/
def askedBy (thread : θ) : Seen θ κ ο → Option κ
  | .asked other call => if other=thread then some call else none
  | .entered _ _ => none
  | .did _ => none
  | .left _ _ => none

/-- The call that a thread has finished. -/
def leftBy (thread : θ) : Seen θ κ ο → Option κ
  | .asked _ _ => none
  | .entered _ _ => none
  | .did _ => none
  | .left other call => if other=thread then some call else none

/-- The calls that a thread has asked for are those that it has finished and
the one that it is at, in this order. -/
def CallsInOrder (thread : θ) (s : Locked θ κ π ω) (history : List (Seen θ κ ο)) : Prop :=
  history.filterMap (leftBy thread)++(s.phase thread).pending=history.filterMap (askedBy thread)

/-- Steps ask for nothing and finish nothing. -/
theorem did_calls (κ : Type) (thread : θ) (seen : List ο) :
    (seen.map (Seen.did : ο → Seen θ κ ο)).filterMap (askedBy thread)=[] ∧
      (seen.map (Seen.did : ο → Seen θ κ ο)).filterMap (leftBy thread)=[] := by
  constructor <;> exact List.filterMap_eq_nil_iff.mpr fun o ho => by
    obtain ⟨_,_,rfl⟩ := List.mem_map.mp ho
    rfl

/-- Every step keeps the calls of every thread in order. -/
theorem LockStep.inOrder {code : Code κ π ε ω ο} {s s' : Locked θ κ π ω}
    {input : LockInput θ κ ε} {seen : List (Seen θ κ ο)} {inputs : List (SingleInput κ ε)}
    (hstep : LockStep code s input s' seen inputs) (thread : θ) {history : List (Seen θ κ ο)}
    (h : CallsInOrder thread s history) : CallsInOrder thread s' (history++seen) := by
  unfold CallsInOrder at h ⊢
  rw [List.filterMap_append,List.filterMap_append]
  cases hstep with
  | asks other call houtside =>
    by_cases heq : thread=other
    · subst heq
      rw [houtside] at h
      rw [←h]
      simp [askedBy,leftBy,Phase.pending]
    · rw [←h]
      simp [askedBy,leftBy,Function.update_of_ne heq,Ne.symm heq]
  | stays => simpa using h
  | enters other call hwaiting hfree =>
    by_cases heq : thread=other
    · subst heq
      rw [hwaiting] at h
      rw [←h]
      simp [List.filterMap_cons,askedBy,leftBy,Phase.pending]
    · rw [←h]
      simp [List.filterMap_cons,askedBy,leftBy,Function.update_of_ne heq]
  | goes other call locals after hinside hafter =>
    obtain ⟨hasked,hleft⟩ :=
      did_calls κ thread (code.step call locals s.shared).2.2
    by_cases heq : thread=other
    · subst heq
      rw [hinside] at h
      rw [←h,hasked,hleft]
      simp [Phase.pending]
    · rw [←h,hasked,hleft]
      simp [Function.update_of_ne heq]
  | leaves other call locals hinside hafter =>
    obtain ⟨hasked,hleft⟩ :=
      did_calls κ thread (code.step call locals s.shared).2.2
    rw [List.filterMap_append,List.filterMap_append,hasked,hleft]
    by_cases heq : thread=other
    · subst heq
      rw [hinside] at h
      rw [←h]
      simp [askedBy,leftBy,Phase.pending]
    · rw [←h]
      simp [askedBy,leftBy,Function.update_of_ne heq,Ne.symm heq]
  | other e =>
    obtain ⟨hasked,hleft⟩ := did_calls κ thread (code.other e s.shared).2
    rw [hasked,hleft,List.append_nil,List.append_nil]
    exact h

/-- A turn of one thread leaves the others where they are. -/
theorem turn_phase (code : Code κ π ε ω ο) {thread other : θ} (hne : other≠thread)
    (s : Locked θ κ π ω) : (turn code thread s).1.phase other=s.phase other := by
  unfold turn
  cases s.phase thread with
  | outside => rfl
  | waiting call =>
    cases s.holder with
    | none => exact Function.update_of_ne hne _ _
    | some holder => rfl
  | inside call locals =>
    dsimp only
    split <;> exact Function.update_of_ne hne _ _

/-- A turn works on the shared state only as a step of the thread's call. -/
theorem turn_shared (code : Code κ π ε ω ο) (thread : θ) (s : Locked θ κ π ω) :
    (turn code thread s).1.shared=s.shared ∨
      ∃ call locals,s.phase thread=.inside call locals ∧
        (turn code thread s).1.shared=(code.step call locals s.shared).1 := by
  unfold turn
  cases s.phase thread with
  | outside => exact .inl rfl
  | waiting call =>
    cases s.holder with
    | none => exact .inl rfl
    | some holder => exact .inl rfl
  | inside call locals =>
    refine .inr ⟨call,locals,rfl,?_⟩
    dsimp only
    split <;> rfl

/-- A turn asks for nothing. -/
theorem turn_asked (code : Code κ π ε ω ο) (thread other : θ) (s : Locked θ κ π ω) :
    (turn code thread s).2.filterMap (askedBy other)=[] := by
  unfold turn
  cases s.phase thread with
  | outside => rfl
  | waiting call =>
    cases s.holder with
    | none => rfl
    | some holder => rfl
  | inside call locals =>
    dsimp only
    split
    · exact (did_calls _ other _).1
    · rw [List.filterMap_append,(did_calls _ other _).1]
      rfl

end Exclusion

end PacketPipe.LockedCalls

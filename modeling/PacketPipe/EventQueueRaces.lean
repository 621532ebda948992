import PacketPipe.EventQueueKnowledge

/-!
# The event queue has no race, and each side sees a FIFO

Whatever old values the loads return: a slot is only accessed by who received
the release of its last conflicting access, so the slots are never raced for.
The pushing side and the popping side each see a FIFO queue, in which the other
side is behind; together they need not see the same one. When the sink thread
leaves its loop, no pushed event is left.
-/

namespace PacketPipe.EventQueueRaces

open FlowEvents ObservedMachines BoundedFifos EventQueueModel EventQueueRefinement
open PipelineModel ReleaseAcquire EventQueueMemory EventQueueKnowledge

section Invariant

variable {size : RingSize}

/-- The slot is written and `tail_` not yet stored. -/
def Writing : Pushing size → Prop
  | .written _ _ => True
  | _ => False

/-- The slot is read and `head_` not yet stored. -/
def Reading : SinkPlace size → Prop
  | .popping _ (.read _ _) => True
  | _ => False

/-- Every access to a slot belongs to a push or a pop, and whoever has received
the store after it has it behind. -/
structure Accounted (m : SharedMemory size) (owner sink : View Thread Place)
    (pushing : Pushing size) (place : SinkPlace size) (pushed popped : ℕ) : Prop where
  /-- The writes. -/
  writes : ∀ d,∀ a∈m.accesses d,a.writes=true → ∃ k,slotOf size k=d ∧ k≤pushed ∧
    (∀ store,(m.stores .tail)[k+1]?=some store → a.Before store.view) ∧
      (k=pushed → Writing pushing ∧ a.Before owner)
  /-- The reads. -/
  reads : ∀ d,∀ a∈m.accesses d,a.writes=false → ∃ k,slotOf size k=d ∧ k≤popped ∧
    (∀ store,(m.stores .head)[k+1]?=some store → a.Before store.view) ∧
      (k=popped → Reading place ∧ a.Before sink)

/-- What the next holder of the mutex will know. -/
def owner (s : QueueThreads size) : View Thread Place :=
  match s.holder with
  | none => s.released
  | some worker => s.memory.views (.worker worker)

/-- How the threads end. -/
structure Closing (s : QueueThreads size) (ops : List (Operation FlowEvent)) : Prop where
  /-- Only who holds the mutex pushes. -/
  held : s.holder=none → s.pushing=.idle
  /-- The timer thread ends outside the table. -/
  timer : s.timerEnded=true → s.holder≠some .timer
  /-- Every push was made by one of the two. -/
  senders : ∀ store∈s.memory.stores .tail,∃ worker,
    store.view≤ s.memory.views (.worker worker)
  /-- After the join main knows all pushes, and there will be no more. -/
  main : s.main≠.capturing → s.timerEnded=true ∧ s.holder≠some .main ∧
    Informed (s.memory.views (.worker .main)) (s.memory.stores .tail)
  /-- Whoever sees the stop requested knows all pushes. -/
  stops : ∀ store∈s.memory.stores .stop,store.value=true →
    s.main≠.capturing ∧ Informed store.view (s.memory.stores .tail)
  /-- The sink thread calls `empty` only then. -/
  emptying : (s.sink=.emptying ∨ ∃ head,s.sink=.emptyingTail head) →
    s.main≠.capturing ∧ Informed (s.memory.views .sink) (s.memory.stores .tail)
  /-- It leaves with nothing in the queue. -/
  left : s.sink=.left → s.main≠.capturing ∧ dequeued ops=enqueued ops

/-- The queue and its threads after these answers. -/
structure Intact (s : QueueThreads size) (ops : List (Operation FlowEvent)) : Prop where
  /-- No race so far. -/
  raced : s.memory.raced=false
  /-- The memory. -/
  ring : Ring s.memory (enqueued ops) (dequeued ops)
  /-- The pushing side. -/
  pushes : ∃ seen items,PushSide s.memory (owner s) s.pushing ops seen items
  /-- The popping side. -/
  pops : ∃ known items,PopSide s.memory (s.memory.views .sink) s.sink ops known items
  /-- The slots. -/
  accounted : Accounted s.memory (owner s) (s.memory.views .sink) s.pushing s.sink
    (enqueued ops).length (dequeued ops).length
  /-- The end. -/
  closing : Closing s ops

end Invariant

variable {size : RingSize} {s : QueueThreads size} {ops : List (Operation FlowEvent)}

section Facts

/-- Popped is a prefix of what was pushed, less than a ring behind. -/
theorem Intact.counts (h : Intact s ops) :
    dequeued ops<+:enqueued ops ∧
      (enqueued ops).length≤(dequeued ops).length+(size.n-1) := by
  obtain ⟨seen,pushItems,hpush⟩ := h.pushes
  obtain ⟨known,popItems,hpop⟩ := h.pops
  refine ⟨?_,?_⟩
  · have htake : (enqueued ops).take known<+:enqueued ops := List.take_prefix ..
    rw [hpop.conserves.1] at htake
    exact (List.prefix_append ..).trans htake
  · have hlen := congrArg List.length hpush.conserves.1
    rw [List.length_append,List.length_take] at hlen
    have hfits := hpush.conserves.2
    omega

/-- Once main has joined the timer thread, nobody holds the mutex. -/
theorem silent (h : Closing s ops) (hmain : s.main≠.capturing) : s.holder=none := by
  obtain ⟨htimer,hother,_⟩ := h.main hmain
  cases hholder : s.holder with
  | none => rfl
  | some worker =>
    cases worker with
    | main => exact absurd hholder hother
    | timer => exact absurd hholder (h.timer htimer)

/-- While a thread holds the mutex, main is still capturing. -/
theorem capturing (h : Closing s ops) {worker : Worker} (hholder : s.holder=some worker) :
    s.main=.capturing := by
  by_contra hmain
  rw [silent h hmain] at hholder
  cases hholder

/-- The holder of the mutex has what comes with it. -/
theorem owner_held {worker : Worker} (hholder : s.holder=some worker) :
    owner s=s.memory.views (.worker worker) := by
  rw [owner,hholder]

/-- More knowledge of the threads is more knowledge of the owner. -/
theorem owner_mono {m : SharedMemory size} (hviews : ∀ t,s.memory.views t≤ m.views t)
    (pushing : Pushing size) (timerEnded : Bool) (main : Ending) (sink : SinkPlace size) :
    owner s≤owner ⟨m,s.holder,s.released,pushing,timerEnded,main,sink⟩ := by
  unfold owner
  cases s.holder with
  | none => exact le_refl _
  | some worker => exact hviews _

/-- The closing facts only need more knowledge and the same stores. -/
theorem Closing.mono {m : SharedMemory size} (h : Closing s ops)
    (hviews : ∀ t,s.memory.views t≤ m.views t) (hstores : m.stores=s.memory.stores) :
    Closing {s with memory := m} ops := by
  obtain ⟨hheld,htimer,hsenders,hmain,hstops,hemptying,hleft⟩ := h
  constructor
  · exact hheld
  · exact htimer
  · intro store hstore
    rw [hstores] at hstore
    obtain ⟨worker,hworker⟩ := hsenders store hstore
    exact ⟨worker,le_trans hworker (hviews _)⟩
  · intro hended
    obtain ⟨htimer,hholder,hinformed⟩ := hmain hended
    refine ⟨htimer,hholder,?_⟩
    rw [hstores]
    exact hinformed.mono (hviews _)
  · rw [hstores]
    exact hstops
  · intro hat
    obtain ⟨hended,hinformed⟩ := hemptying hat
    refine ⟨hended,?_⟩
    rw [hstores]
    exact hinformed.mono (hviews _)
  · exact hleft

/-- So does the account of the slots, as long as a slot in use stays in use. -/
theorem Accounted.mono {m m' : SharedMemory size} {view view' sink sink' : View Thread Place}
    {pushing pushing' : Pushing size} {place place' : SinkPlace size} {pushed popped : ℕ}
    (h : Accounted m view sink pushing place pushed popped)
    (haccesses : m'.accesses=m.accesses) (hstores : m'.stores=m.stores)
    (hview : view≤view') (hsink : sink ≤ sink')
    (hwriting : Writing pushing → Writing pushing') (hreading : Reading place → Reading place') :
    Accounted m' view' sink' pushing' place' pushed popped := by
  constructor
  · intro d a ha hwrites
    rw [haccesses] at ha
    obtain ⟨k,hslot,hk,hknown,hlast⟩ := h.writes d a ha hwrites
    refine ⟨k,hslot,hk,?_,fun hlen => ⟨hwriting (hlast hlen).1,(hlast hlen).2.mono hview⟩⟩
    rw [hstores]
    exact hknown
  · intro d a ha hreads
    rw [haccesses] at ha
    obtain ⟨k,hslot,hk,hknown,hlast⟩ := h.reads d a ha hreads
    refine ⟨k,hslot,hk,?_,fun hlen => ⟨hreading (hlast hlen).1,(hlast hlen).2.mono hsink⟩⟩
    rw [hstores]
    exact hknown

end Facts

section PushSteps

/-- A load of the pushing side, with what it lets the push do. -/
theorem Intact.pushLoad {m : SharedMemory size} {worker : Worker} (h : Intact s ops)
    (new : List (Operation FlowEvent)) (pushing : Pushing size) (hholder : s.holder=some worker)
    (hgrows : Grows s.memory m)
    (hnew : ∀ known items,PopSide m (m.views .sink) s.sink ops known items →
      known≤(enqueued ops).length → PopSide m (m.views .sink) s.sink (ops++new) known items)
    (hpushed : enqueued (ops++new)=enqueued ops) (hpopped : dequeued (ops++new)=dequeued ops)
    (hwriting : ¬Writing s.pushing)
    (hpushes : ∃ seen items,
      PushSide m (m.views (.worker worker)) pushing (ops++new) seen items) :
    Intact {s with memory := m,pushing := pushing} (ops++new) := by
  obtain ⟨hraced,hring,_,⟨known,items,hpop⟩,haccounted,hclosing⟩ := h
  have hknown : known≤(enqueued ops).length := by
    obtain ⟨store,hstore,_⟩ := hpop.received
    exact (stored_value hring.tailValues hstore).2
  have hmono := Closing.mono hclosing hgrows.views hgrows.stores
  constructor
  · rw [hgrows.raced]
    exact hraced
  · rw [hpushed,hpopped]
    exact hring.grows hgrows
  · have howner : owner {s with memory := m,pushing := pushing}=m.views (.worker worker) :=
      owner_held hholder
    rw [howner]
    exact hpushes
  · exact ⟨known,items,hnew _ _ (hpop.mono hgrows.stores (hgrows.views _)) hknown⟩
  · rw [hpushed,hpopped]
    exact Accounted.mono haccounted hgrows.accesses hgrows.stores
      (owner_mono hgrows.views _ _ _ _) (hgrows.views _) (fun hw => absurd hw hwriting) id
  · refine {hmono with held := fun hnone => ?_,left := fun hleft => ?_}
    · rw [hholder] at hnone
      cases hnone
    · exact absurd (capturing hclosing hholder) (hclosing.left hleft).1

/-- The holder of the mutex knows the last store of `tail_`. -/
theorem Intact.loadsTail {worker : Worker} {i : ℕ} {store : Store Thread Place (Fin size.n)}
    (h : Intact s ops) (hholder : s.holder=some worker) (hat : s.pushing=.idle)
    (hread : s.memory.readable (.worker worker) .tail i=some store) (evt : FlowEvent) :
    Intact {s with
      memory := s.memory.load (.worker worker) .relaxed .tail store
      pushing := .loadedTail evt store.value} ops := by
  obtain ⟨seen,items,hpush⟩ := h.pushes
  rw [owner_held hholder] at hpush
  have hgrows := load_grows s.memory (.worker worker) .relaxed .tail store
  have hnewest := h.ring.tails.newest hpush.informed hread
  rw [stored_length h.ring.tailValues] at hnewest
  have hvalue := (stored_value h.ring.tailValues (readable_iff.mp hread).1).1
  have hlocals : PushLocals (s.memory.load (.worker worker) .relaxed .tail store)
      (enqueued ops).length items.length (.loadedTail evt store.value) := by
    rw [PushLocals,hvalue]
    congr 1
    omega
  have hpush' := hpush.mono hgrows.stores hgrows.cells (hgrows.views _)
  have hnext := h.pushLoad [] (.loadedTail evt store.value) hholder hgrows
  rw [List.append_nil] at hnext
  exact hnext (fun _ _ hpop _ => hpop) rfl rfl (by rw [hat]; exact id)
    ⟨seen,items,hpush'.informed,hpush'.received,hpush'.explains,hlocals⟩

/-- An acquire load of `head_` brings the pushing side up to the pops it tells. -/
theorem Intact.catchesUp {worker : Worker} {i : ℕ} {store : Store Thread Place (Fin size.n)}
    (h : Intact s ops) (hholder : s.holder=some worker)
    (hread : s.memory.readable (.worker worker) .head i=some store) :
    store.value=slotOf size i ∧ ∃ items,(enqueued ops).length=i+items.length ∧
      PushSide (s.memory.load (.worker worker) .acquire .head store)
        ((s.memory.load (.worker worker) .acquire .head store).views (.worker worker))
        .idle ops i items := by
  obtain ⟨seen,items,hpush⟩ := h.pushes
  rw [owner_held hholder] at hpush
  have hgrows := load_grows s.memory (.worker worker) .acquire .head store
  have hstore := (readable_iff.mp hread).1
  obtain ⟨hvalue,hi⟩ := stored_value h.ring.headValues hstore
  obtain ⟨old,hold,hview⟩ := hpush.received
  have hseen := h.ring.heads.newer hold hview hread
  have hside := (hpush.receives h.counts.1 hseen hi (hgrows.views _)
    ⟨store,hstore,load_acquires s.memory (.worker worker) .head store⟩).mono hgrows.stores
    hgrows.cells (le_refl _)
  refine ⟨hvalue,_,?_,hside⟩
  have hlen := congrArg List.length hside.conserves.1
  rw [List.length_append,List.length_take] at hlen
  omega

/-- A push is refused when the queue of the pushing side is full. -/
theorem Intact.refuses {worker : Worker} {evt : FlowEvent} {tail : Fin size.n} {i : ℕ}
    {store : Store Thread Place (Fin size.n)}
    (h : Intact s ops) (hholder : s.holder=some worker) (hat : s.pushing=.loadedTail evt tail)
    (hread : s.memory.readable (.worker worker) .head i=some store)
    (hfull : nextIndex tail=store.value) :
    Intact {s with
      memory := s.memory.load (.worker worker) .acquire .head store
      pushing := .idle} (ops++[.enqueue evt false]) := by
  obtain ⟨seen,_,hpush⟩ := h.pushes
  have htail : tail=slotOf size (enqueued ops).length := by
    have hlocals := hpush.locals
    rw [hat] at hlocals
    exact hlocals
  obtain ⟨hvalue,items,hlen,hside⟩ := h.catchesUp hholder hread
  have hfits := hside.conserves.2
  rw [htail,slotOf_next,hvalue] at hfull
  have hitems : items.length=size.n-1 := by
    by_contra hne
    have hpositive := size.positive
    have heq := slotOf_inj (by omega) (by omega) hfull.symm
    omega
  have hpushed : enqueued (ops++[.enqueue evt false])=enqueued ops := by
    rw [enqueued,List.filterMap_append]
    exact List.append_nil _
  have hpopped : dequeued (ops++[.enqueue evt false])=dequeued ops := by
    rw [dequeued,List.filterMap_append]
    exact List.append_nil _
  have hstep := hside.explains.step (.refused items evt hitems)
  refine h.pushLoad [_] .idle hholder (load_grows ..) (fun known _ hpop hknown => ?_) hpushed
    hpopped (by rw [hat]; exact id) ⟨i,items,hside.informed,hside.received,?_,trivial⟩
  · exact hpop.unaware hknown evt false
  · rw [List.filter_append,hpopped]
    exact (List.append_nil (dequeues _)) ▸ hstep

/-- A push goes on when the queue of the pushing side has room. -/
theorem Intact.checks {worker : Worker} {evt : FlowEvent} {tail : Fin size.n} {i : ℕ}
    {store : Store Thread Place (Fin size.n)}
    (h : Intact s ops) (hholder : s.holder=some worker) (hat : s.pushing=.loadedTail evt tail)
    (hread : s.memory.readable (.worker worker) .head i=some store)
    (hroom : nextIndex tail≠store.value) :
    Intact {s with
      memory := s.memory.load (.worker worker) .acquire .head store
      pushing := .checked evt tail (nextIndex tail)} ops := by
  obtain ⟨seen,_,hpush⟩ := h.pushes
  have htail : tail=slotOf size (enqueued ops).length := by
    have hlocals := hpush.locals
    rw [hat] at hlocals
    exact hlocals
  obtain ⟨hvalue,items,hlen,hside⟩ := h.catchesUp hholder hread
  have hfits := hside.conserves.2
  rw [htail,slotOf_next,hvalue] at hroom
  have hitems : items.length< size.n-1 := by
    by_contra hge
    have hfull : (enqueued ops).length+1=i+size.n := by
      have hpositive := size.positive
      omega
    refine hroom (Fin.ext ?_)
    rw [hfull]
    simp only [slotOf,advance,Nat.zero_add,Nat.add_mod_right]
  have hlocals : PushLocals (s.memory.load (.worker worker) .acquire .head store)
      (enqueued ops).length items.length (.checked evt tail (nextIndex tail)) := by
    rw [htail,slotOf_next]
    exact ⟨rfl,rfl,hitems⟩
  have hnext := h.pushLoad [] (.checked evt tail (nextIndex tail)) hholder
    (load_grows s.memory (.worker worker) .acquire .head store)
  rw [List.append_nil] at hnext
  exact hnext (fun _ _ hpop _ => hpop) rfl rfl (by rw [hat]; exact id)
    ⟨i,items,hside.informed,hside.received,hside.explains,hlocals⟩

/-- Everything that the write of a slot conflicts with happened before it: the pushes
before this one are all known, and a pop that is not known would leave no room. -/
theorem Intact.writes_after {worker : Worker} {evt : FlowEvent} {tail nextTail : Fin size.n}
    (h : Intact s ops) (hholder : s.holder=some worker)
    (hat : s.pushing=.checked evt tail nextTail) :
    ∀ a∈s.memory.accesses tail,a.Before (s.memory.views (.worker worker)) := by
  intro a ha
  obtain ⟨hbegins,hroom⟩ := h.counts
  have hbehind := hbegins.length_le
  obtain ⟨_,hring,⟨seen,items,hpush⟩,⟨known,popItems,hpop⟩,haccounted,_⟩ := h
  rw [owner_held hholder] at hpush haccounted
  have hlocals := hpush.locals
  rw [hat] at hlocals
  obtain ⟨htail,_,hitems⟩ := hlocals
  have hlen := congrArg List.length hpush.conserves.1
  rw [List.length_append,List.length_take] at hlen
  obtain ⟨received,hreceived,hview⟩ := hpush.received
  have hseen := (stored_value hring.headValues hreceived).2
  cases hwrites : a.writes with
  | true =>
    obtain ⟨k,_,hk,hknown,hlast⟩ := haccounted.writes tail a ha hwrites
    have hne : k≠(enqueued ops).length := by
      intro heq
      have hwriting := (hlast heq).1
      rw [hat] at hwriting
      exact hwriting
    have hstore : k+1<(s.memory.stores .tail).length := by
      rw [stored_length hring.tailValues]
      omega
    exact (hknown _ (List.getElem?_eq_getElem hstore)).mono
      (hpush.informed _ (List.getElem_mem hstore))
  | false =>
    obtain ⟨k,hslot,hk,hknown,hlast⟩ := haccounted.reads tail a ha hwrites
    have hkseen : k< seen := by
      by_contra hge
      rw [htail] at hslot
      have heq := slotOf_inj (by omega) (by omega) hslot
      have hreading := (hlast (by omega)).1
      have hpops := hpop.conserves.1
      have hlocals := hpop.locals
      have htake := (List.take_prefix known (enqueued ops)).length_le
      unfold Reading at hreading
      split at hreading
      · rename_i hplace
        rw [hplace] at hlocals
        rw [hpops,List.length_append] at htake
        have hnone := List.eq_nil_of_length_eq_zero (l:=popItems) (by omega)
        rw [hnone] at hlocals
        cases hlocals.2
      · exact hreading
    have hreceivedAt := List.getElem?_eq_some_iff.mp hreceived
    obtain ⟨hindex,rfl⟩ := hreceivedAt
    have hbefore := hknown _ (List.getElem?_eq_getElem (by omega : k+1<_))
    refine hbefore.mono (le_trans ?_ hview)
    rcases Nat.lt_or_eq_of_le hkseen with hlt | heq
    · exact List.pairwise_iff_getElem.mp hring.heads.views (k+1) seen _ _ hlt
    · simp only [←heq]
      exact le_refl _

/-- The write of the slot is no race, and nobody's event is overwritten. -/
theorem Intact.writes {worker : Worker} {evt : FlowEvent} {tail nextTail : Fin size.n}
    (h : Intact s ops) (hholder : s.holder=some worker)
    (hat : s.pushing=.checked evt tail nextTail) :
    Intact {s with
      memory := s.memory.write (.worker worker) tail evt
      pushing := .written evt nextTail} ops := by
  have hafter := h.writes_after hholder hat
  obtain ⟨hbegins,hroom⟩ := h.counts
  obtain ⟨hraced,hring,⟨seen,items,hpush⟩,⟨known,popItems,hpop⟩,haccounted,hclosing⟩ := h
  rw [owner_held hholder] at hpush haccounted
  have hlocals := hpush.locals
  rw [hat] at hlocals
  obtain ⟨htail,hnext,hitems⟩ := hlocals
  have hviews : ∀ t,s.memory.views t≤(s.memory.write (.worker worker) tail evt).views t :=
    access_views s.memory (.worker worker) tail true
  have howner : ∀ pushing,owner {s with
      memory := s.memory.write (.worker worker) tail evt
      pushing := pushing}=
        (s.memory.write (.worker worker) tail evt).views (.worker worker) :=
    fun _ => owner_held hholder
  have hstores : (s.memory.write (.worker worker) tail evt).stores=s.memory.stores := rfl
  constructor
  · exact access_raced hraced fun a ha _ => hafter a ha
  · refine ⟨hring.tails,hring.heads,hring.tailValues,hring.headValues,?_⟩
    intro k content hk hcontent
    have hlt := (List.getElem?_eq_some_iff.mp hcontent).1
    have hne : slotOf size k≠tail := by
      intro heq
      rw [htail] at heq
      have hpositive := size.positive
      have := slotOf_inj (by omega) (by omega) heq
      omega
    simp only [Memory.write,Function.update_of_ne hne]
    exact hring.contents k content hk hcontent
  · rw [howner]
    refine ⟨seen,items,hpush.informed.mono (hviews _),hpush.received.mono rfl (hviews _),
      hpush.explains,hnext,hitems,?_⟩
    rw [←htail]
    exact Function.update_self ..
  · exact ⟨known,popItems,hpop.mono hstores (hviews _)⟩
  · rw [howner]
    constructor
    · intro d a ha hwrites
      rcases mem_access ha with ha | ⟨rfl,_,hbefore⟩
      · obtain ⟨k,hslot,hk,hknown,hlast⟩ := haccounted.writes d a ha hwrites
        exact ⟨k,hslot,hk,hknown,fun hlen => ⟨trivial,(hlast hlen).2.mono (hviews _)⟩⟩
      · refine ⟨_,htail.symm,le_refl _,?_,fun _ => ⟨trivial,hbefore⟩⟩
        intro store hstore
        have hlt := (List.getElem?_eq_some_iff.mp hstore).1
        have hlen := stored_length hring.tailValues
        rw [hstores,hlen] at hlt
        omega
    · intro d a ha hreads
      rcases mem_access ha with ha | ⟨_,hwrites,_⟩
      · obtain ⟨k,hslot,hk,hknown,hlast⟩ := haccounted.reads d a ha hreads
        exact ⟨k,hslot,hk,hknown,fun hlen => ⟨(hlast hlen).1,(hlast hlen).2.mono (hviews _)⟩⟩
      · rw [hreads] at hwrites
        cases hwrites
  · refine {Closing.mono hclosing hviews hstores with held := fun hnone => ?_}
    rw [hholder] at hnone
    cases hnone

/-- Storing `tail_` releases the written slot. -/
theorem Intact.publishes {worker : Worker} {evt : FlowEvent} {nextTail : Fin size.n} {stamp : ℕ}
    (h : Intact s ops) (hholder : s.holder=some worker)
    (hat : s.pushing=.written evt nextTail)
    (hfresh : s.memory.fresh (.worker worker) .tail stamp=true) :
    Intact {s with
      memory := s.memory.store (.worker worker) .tail stamp nextTail
      pushing := .idle} (ops++[.enqueue evt true]) := by
  obtain ⟨hraced,hring,⟨seen,items,hpush⟩,⟨known,popItems,hpop⟩,haccounted,hclosing⟩ := h
  rw [owner_held hholder] at hpush haccounted
  have hlocals := hpush.locals
  rw [hat] at hlocals
  obtain ⟨hnext,hitems,hslot⟩ := hlocals
  obtain ⟨hchain,hinformed⟩ := hring.tails.store hpush.informed hfresh nextTail
  have hviews := store_views s.memory (.worker worker) .tail stamp nextTail
  have hheads : (s.memory.store (.worker worker) .tail stamp nextTail).stores .head=
      s.memory.stores .head := store_other _ _ _ _ (by decide)
  have hstops : (s.memory.store (.worker worker) .tail stamp nextTail).stores .stop=
      s.memory.stores .stop := store_other _ _ _ _ (by decide)
  have htails : (s.memory.store (.worker worker) .tail stamp nextTail).stores .tail=
      s.memory.stores .tail++[⟨stamp,nextTail,
        s.memory.views (.worker worker)⊔stampView Thread .tail stamp⟩] := store_self ..
  have hpushed : enqueued (ops++[.enqueue evt true])=enqueued ops++[evt] :=
    List.filterMap_append ..
  have hpopped : dequeued (ops++[.enqueue evt true])=dequeued ops := by
    rw [dequeued,List.filterMap_append]
    exact List.append_nil _
  have howner : owner {s with
      memory := s.memory.store (.worker worker) .tail stamp nextTail
      pushing := .idle}=
        (s.memory.store (.worker worker) .tail stamp nextTail).views (.worker worker) :=
    owner_held hholder
  have hlen := stored_length hring.tailValues
  have hcapturing := capturing hclosing hholder
  constructor
  · exact hraced
  · rw [hpushed,hpopped]
    refine ⟨hchain,?_,?_,?_,?_⟩
    · rw [hheads]
      exact hring.heads
    · rw [htails,List.map_append,hring.tailValues,List.length_append,List.length_singleton,
        indices_next,List.map_singleton,hnext]
    · rw [hheads]
      exact hring.headValues
    · intro k content hk hcontent
      rcases Nat.lt_or_ge k (enqueued ops).length with hlt | hge
      · rw [List.getElem?_append_left hlt] at hcontent
        exact hring.contents k content hk hcontent
      · rw [List.getElem?_append_right hge,List.getElem?_singleton] at hcontent
        split at hcontent
        next hzero =>
          cases hcontent
          have heq : k=(enqueued ops).length := by omega
          rw [heq]
          exact hslot
        next => cases hcontent
  · rw [howner]
    refine ⟨seen,items++[evt],hinformed,?_,?_,trivial⟩
    · exact hpush.received.mono hheads (hviews _)
    · have hstep := hpush.explains.step (.accepted items evt hitems)
      rw [List.filter_append,hpopped]
      exact (List.append_nil (dequeues _)) ▸ hstep
  · obtain ⟨received,hreceived,hview⟩ := hpop.received
    have hknown := (stored_value hring.tailValues hreceived).2
    refine ⟨known,popItems,PopSide.unaware (h:=?_) hknown evt true⟩
    refine ⟨?_,⟨received,?_,le_trans hview (hviews _)⟩,hpop.explains,hpop.locals⟩
    · rw [hheads]
      exact hpop.informed.mono (hviews _)
    · rw [htails,List.getElem?_append_left (by omega)]
      exact hreceived
  · rw [howner,hpushed,hpopped,List.length_append,List.length_singleton]
    constructor
    · intro d a ha hwrites
      obtain ⟨k,hslot,hk,hknown,hlast⟩ := haccounted.writes d a ha hwrites
      refine ⟨k,hslot,by omega,?_,fun heq => absurd heq (by omega)⟩
      intro store hstore
      rw [htails] at hstore
      rcases Nat.lt_or_ge (k+1) (s.memory.stores .tail).length with hlt | hge
      · rw [List.getElem?_append_left hlt] at hstore
        exact hknown store hstore
      · rw [List.getElem?_append_right hge,List.getElem?_singleton] at hstore
        split at hstore
        next hzero =>
          cases hstore
          exact (hlast (by omega)).2.mono le_sup_left
        next => cases hstore
    · intro d a ha hreads
      obtain ⟨k,hslot,hk,hknown,hlast⟩ := haccounted.reads d a ha hreads
      refine ⟨k,hslot,hk,?_,fun heq => ⟨(hlast heq).1,(hlast heq).2.mono (hviews _)⟩⟩
      rw [hheads]
      exact hknown
  · constructor
    · exact fun _ => rfl
    · exact hclosing.timer
    · intro store hstore
      rw [htails] at hstore
      rcases List.mem_append.mp hstore with hold | hnew
      · obtain ⟨sender,hsender⟩ := hclosing.senders store hold
        exact ⟨sender,le_trans hsender (hviews _)⟩
      · rw [←htails] at hstore
        exact ⟨worker,hinformed store hstore⟩
    · exact fun hended => absurd hcapturing hended
    · intro store hstore hvalue
      rw [hstops] at hstore
      exact absurd hcapturing (hclosing.stops store hstore hvalue).1
    · exact fun hplace => absurd hcapturing (hclosing.emptying hplace).1
    · exact fun hplace => absurd hcapturing (hclosing.left hplace).1

/-- Taking the mutex passes on what came with it. -/
theorem Intact.locks {worker : Worker} (h : Intact s ops) (hfree : s.holder=none)
    (hcalls : s.calls worker=true) :
    Intact {s with
      memory := s.memory.join (.worker worker) s.released
      holder := some worker} ops := by
  have hgrows := join_grows s.memory (.worker worker) s.released
  obtain ⟨hraced,hring,⟨seen,items,hpush⟩,⟨known,popItems,hpop⟩,haccounted,hclosing⟩ := h
  have howner : owner s≤(s.memory.join (.worker worker) s.released).views (.worker worker) := by
    rw [owner,hfree]
    exact join_knows ..
  have hmain : s.main=.capturing := by
    by_contra hended
    cases worker with
    | main => exact hended (of_decide_eq_true hcalls)
    | timer =>
      rw [QueueThreads.calls,(hclosing.main hended).1] at hcalls
      cases hcalls
  have hmono := Closing.mono hclosing hgrows.views hgrows.stores
  refine ⟨hraced,hring.grows hgrows,⟨seen,items,hpush.mono rfl rfl howner⟩,
    ⟨known,popItems,hpop.mono rfl (hgrows.views _)⟩,
    haccounted.mono rfl rfl howner (hgrows.views _) id id,?_⟩
  refine {hmono with
    held := fun hnone => nomatch hnone
    timer := fun hended heq => ?_
    main := fun hended => absurd hmain hended}
  cases heq
  have hrunning : (!s.timerEnded)=true := hcalls
  have htimer : s.timerEnded=true := hended
  rw [htimer] at hrunning
  cases hrunning

/-- Returning the mutex releases it. -/
theorem Intact.unlocks {worker : Worker} (h : Intact s ops) (hholder : s.holder=some worker)
    (hat : s.pushing=.idle) :
    Intact {s with
      holder := none
      released := s.memory.views (.worker worker)} ops := by
  obtain ⟨hraced,hring,hpushes,hpops,haccounted,hclosing⟩ := h
  rw [owner_held hholder] at hpushes haccounted
  refine ⟨hraced,hring,hpushes,hpops,haccounted,?_⟩
  refine {hclosing with
    held := fun _ => hat
    timer := fun _ heq => nomatch heq
    main := fun hended => absurd (capturing hclosing hholder) hended}

end PushSteps

section PopSteps

/-- A load of the sink thread, with what it lets the thread do. -/
theorem Intact.popLoad {m : SharedMemory size} (h : Intact s ops)
    (new : List (Operation FlowEvent)) (sink : SinkPlace size) (hgrows : Grows s.memory m)
    (hnew : ∀ seen items,PushSide m (owner s) s.pushing ops seen items →
      seen≤(dequeued ops).length → PushSide m (owner s) s.pushing (ops++new) seen items)
    (hpushed : enqueued (ops++new)=enqueued ops) (hpopped : dequeued (ops++new)=dequeued ops)
    (hreading : ¬Reading s.sink)
    (hpops : ∃ known items,PopSide m (m.views .sink) sink (ops++new) known items)
    (hemptying : (sink=.emptying ∨ ∃ head,sink=.emptyingTail head) →
      s.main≠.capturing ∧ Informed (m.views .sink) (s.memory.stores .tail))
    (hleft : sink=.left → s.main≠.capturing ∧ dequeued ops=enqueued ops) :
    Intact {s with memory := m,sink := sink} (ops++new) := by
  obtain ⟨hraced,hring,⟨seen,items,hpush⟩,_,haccounted,hclosing⟩ := h
  have hseen : seen≤(dequeued ops).length := by
    obtain ⟨store,hstore,_⟩ := hpush.received
    exact (stored_value hring.headValues hstore).2
  have hmono := Closing.mono hclosing hgrows.views hgrows.stores
  have howner := owner_mono (s:=s) hgrows.views s.pushing s.timerEnded s.main sink
  constructor
  · rw [hgrows.raced]
    exact hraced
  · rw [hpushed,hpopped]
    exact hring.grows hgrows
  · have hside := hnew seen items (hpush.mono hgrows.stores hgrows.cells (le_refl _)) hseen
    exact ⟨seen,items,hside.mono rfl rfl howner⟩
  · exact hpops
  · rw [hpushed,hpopped]
    exact haccounted.mono hgrows.accesses hgrows.stores howner (hgrows.views _) id
      (fun hr => absurd hr hreading)
  · refine {hmono with
      emptying := fun hplace => ?_
      left := fun hplace => ?_}
    · rw [hgrows.stores]
      exact hemptying hplace
    · rw [hpushed,hpopped]
      exact hleft hplace

/-- A load that shows nothing. -/
theorem Intact.popQuiet {m : SharedMemory size} (h : Intact s ops) (sink : SinkPlace size)
    (hgrows : Grows s.memory m) (hreading : ¬Reading s.sink)
    (hpops : ∃ known items,PopSide m (m.views .sink) sink ops known items)
    (hemptying : (sink=.emptying ∨ ∃ head,sink=.emptyingTail head) →
      s.main≠.capturing ∧ Informed (m.views .sink) (s.memory.stores .tail))
    (hleft : sink=.left → s.main≠.capturing ∧ dequeued ops=enqueued ops) :
    Intact {s with memory := m,sink := sink} ops := by
  have hnext := h.popLoad [] sink hgrows
  rw [List.append_nil] at hnext
  exact hnext (fun _ _ hpush _ => hpush) rfl rfl hreading hpops hemptying hleft

/-- The sink thread knows the last store of `head_`. -/
theorem Intact.headKnown {i : ℕ} {store : Store Thread Place (Fin size.n)} (h : Intact s ops)
    (hread : s.memory.readable .sink .head i=some store) :
    store.value=slotOf size (dequeued ops).length := by
  obtain ⟨known,items,hpop⟩ := h.pops
  have hnewest := h.ring.heads.newest hpop.informed hread
  rw [stored_length h.ring.headValues] at hnewest
  rw [(stored_value h.ring.headValues (readable_iff.mp hread).1).1]
  congr 1
  omega

/-- An acquire load of `tail_` brings the sink thread up to the pushes it tells. -/
theorem Intact.tailKnown {i : ℕ} {store : Store Thread Place (Fin size.n)} (h : Intact s ops)
    (hread : s.memory.readable .sink .tail i=some store) :
    store.value=slotOf size i ∧ ∃ items,i=(dequeued ops).length+items.length ∧
      items.length≤ size.n-1 ∧ ∀ sink,PopLocals (dequeued ops).length items sink →
        PopSide (s.memory.load .sink .acquire .tail store)
          ((s.memory.load .sink .acquire .tail store).views .sink) sink ops i items := by
  obtain ⟨known,items,hpop⟩ := h.pops
  have hgrows := load_grows s.memory .sink .acquire .tail store
  have hstore := (readable_iff.mp hread).1
  obtain ⟨hvalue,hi⟩ := stored_value h.ring.tailValues hstore
  obtain ⟨old,hold,hview⟩ := hpop.received
  have hknown := h.ring.tails.newer hold hview hread
  have hside : ∀ sink,PopLocals (dequeued ops).length
      (items++((enqueued ops).drop known).take (i-known)) sink →
        PopSide (s.memory.load .sink .acquire .tail store)
          ((s.memory.load .sink .acquire .tail store).views .sink) sink ops i
          (items++((enqueued ops).drop known).take (i-known)) :=
    fun sink hlocals => (hpop.receives h.counts.2 hknown hi (hgrows.views _)
      ⟨store,hstore,load_acquires s.memory .sink .tail store⟩ hlocals).mono
        hgrows.stores (le_refl _)
  have hconserves := (hside .guard trivial).conserves
  have hlen := congrArg List.length hconserves.1
  rw [List.length_append,List.length_take] at hlen
  exact ⟨hvalue,_,by omega,hconserves.2,hside⟩

/-- The two indices are equal exactly when the sink thread sees an empty queue. -/
theorem empty_slots {popped : ℕ} {items : List FlowEvent} (hfits : items.length≤ size.n-1) :
    slotOf size popped=slotOf size (popped+items.length) ↔ items=[] := by
  constructor
  · intro heq
    have hpositive := size.positive
    have hlen := slotOf_inj (by omega) (by omega) heq
    exact List.eq_nil_of_length_eq_zero (by omega)
  · rintro rfl
    rfl

/-- Going on behind the guard of the loop. -/
theorem Intact.guards {i : ℕ} {store : Store Thread Place Bool} (h : Intact s ops)
    (hat : s.sink=.guard) (hread : s.memory.readable .sink .stop i=some store) :
    Intact {s with
      memory := s.memory.load .sink .acquire .stop store
      sink := if store.value=true then .emptying else .popping false .idle} ops := by
  obtain ⟨known,items,hpop⟩ := h.pops
  have hgrows := load_grows s.memory .sink .acquire .stop store
  have hpop' : PopSide (s.memory.load .sink .acquire .stop store)
      ((s.memory.load .sink .acquire .stop store).views .sink) s.sink ops known items :=
    hpop.mono hgrows.stores (hgrows.views _)
  refine h.popQuiet _ hgrows (by rw [hat]; exact id)
    ⟨known,items,hpop'.informed,hpop'.received,hpop'.explains,?_⟩ ?_ ?_
  · split
    next => trivial
    next => trivial
  · intro hplace
    split at hplace
    next hvalue =>
      have hmem := List.mem_of_getElem? (readable_iff.mp hread).1
      obtain ⟨hended,hinformed⟩ := h.closing.stops store hmem hvalue
      exact ⟨hended,hinformed.mono (load_acquires s.memory .sink .stop store)⟩
    next => rcases hplace with hplace | ⟨_,hplace⟩ <;> cases hplace
  · intro hplace
    split at hplace
    next => cases hplace
    next => cases hplace

/-- A load of `head_` by the sink thread, in `empty`, `pop` or the wait. -/
theorem Intact.loadsHead {i : ℕ} {store : Store Thread Place (Fin size.n)} (h : Intact s ops)
    (order : LoadOrder) (sink : SinkPlace size) (hreading : ¬Reading s.sink)
    (hread : s.memory.readable .sink .head i=some store)
    (hlocals : ∀ items,store.value=slotOf size (dequeued ops).length →
      PopLocals (dequeued ops).length items sink)
    (hemptying : sink=.emptying ∨ (∃ head,sink=.emptyingTail head) → s.sink=.emptying)
    (hleft : sink≠.left) :
    Intact {s with memory := s.memory.load .sink order .head store,sink := sink} ops := by
  obtain ⟨known,items,hpop⟩ := h.pops
  have hgrows := load_grows s.memory .sink order .head store
  have hpop' : PopSide (s.memory.load .sink order .head store)
      ((s.memory.load .sink order .head store).views .sink) s.sink ops known items :=
    hpop.mono hgrows.stores (hgrows.views _)
  refine h.popQuiet sink hgrows hreading
    ⟨known,items,hpop'.informed,hpop'.received,hpop'.explains,hlocals _ (h.headKnown hread)⟩
    (fun hplace => ?_) (fun hplace => absurd hplace hleft)
  obtain ⟨hended,hinformed⟩ := h.closing.emptying (.inl (hemptying hplace))
  exact ⟨hended,hinformed.mono (hgrows.views _)⟩

/-- A load of `tail_` by the sink thread that shows nothing. -/
theorem Intact.readsTail {i : ℕ} {store : Store Thread Place (Fin size.n)} (h : Intact s ops)
    (sink : SinkPlace size) (hreading : ¬Reading s.sink)
    (hread : s.memory.readable .sink .tail i=some store)
    (hlocals : ∀ items : List FlowEvent,items.length≤ size.n-1 →
      store.value=slotOf size ((dequeued ops).length+items.length) →
        PopLocals (dequeued ops).length items sink)
    (hemptying : ¬(sink=.emptying ∨ ∃ head,sink=.emptyingTail head))
    (hleft : sink=.left → s.main≠.capturing ∧ dequeued ops=enqueued ops) :
    Intact {s with memory := s.memory.load .sink .acquire .tail store,sink := sink} ops := by
  obtain ⟨hvalue,items,hi,hfits,hside⟩ := h.tailKnown hread
  rw [hi] at hvalue
  exact h.popQuiet sink (load_grows ..) hreading
    ⟨i,items,hside sink (hlocals items hfits hvalue)⟩ (fun hplace => absurd hplace hemptying)
    hleft

/-- The sink thread leaves its loop only with every pushed event popped. -/
theorem Intact.leaves {i : ℕ} {store : Store Thread Place (Fin size.n)} (h : Intact s ops)
    (hat : s.sink=.emptyingTail store.value)
    (hread : s.memory.readable .sink .tail i=some store) :
    Intact {s with
      memory := s.memory.load .sink .acquire .tail store
      sink := .left} ops := by
  obtain ⟨hended,hinformed⟩ := h.closing.emptying (.inr ⟨_,hat⟩)
  refine h.readsTail .left (by rw [hat]; exact id) hread (fun _ _ _ => trivial)
    (fun hplace => by rcases hplace with hplace | ⟨_,hplace⟩ <;> cases hplace)
    (fun _ => ⟨hended,?_⟩)
  have hnewest := h.ring.tails.newest hinformed hread
  rw [stored_length h.ring.tailValues] at hnewest
  obtain ⟨hvalue,items,hi,hfits,_⟩ := h.tailKnown hread
  obtain ⟨known,popItems,hpop⟩ := h.pops
  have hlocals := hpop.locals
  rw [hat] at hlocals
  have hhead : store.value=slotOf size (dequeued ops).length := hlocals
  rw [hvalue,hi] at hhead
  have hnone := (empty_slots hfits).mp hhead.symm
  rw [hnone,List.length_nil] at hi
  exact h.counts.1.eq_of_length (by omega)

/-- A pop finds nothing when the sink thread sees an empty queue. -/
theorem Intact.misses {again : Bool} {i : ℕ} {store : Store Thread Place (Fin size.n)}
    (h : Intact s ops) (hat : s.sink=.popping again (.loadedHead store.value))
    (hread : s.memory.readable .sink .tail i=some store) :
    Intact {s with
      memory := s.memory.load .sink .acquire .tail store
      sink := if again=true then .guard else .waiting} (ops++[.dequeue none]) := by
  obtain ⟨hvalue,items,hi,hfits,hside⟩ := h.tailKnown hread
  obtain ⟨_,_,hpop⟩ := h.pops
  have hlocals := hpop.locals
  rw [hat] at hlocals
  have hhead : store.value=slotOf size (dequeued ops).length := hlocals
  rw [hvalue,hi] at hhead
  have hnone := (empty_slots hfits).mp hhead.symm
  subst hnone
  have hpushed : enqueued (ops++[.dequeue none])=enqueued ops := by
    rw [enqueued,List.filterMap_append]
    exact List.append_nil _
  have hpopped : dequeued (ops++[.dequeue none])=dequeued ops := by
    rw [dequeued,List.filterMap_append]
    exact List.append_nil _
  have hgoes : ∀ place : SinkPlace size,
      (if again=true then SinkPlace.guard else .waiting)=place →
        place=.guard ∨ place=.waiting := by
    intro place hplace
    split at hplace
    next => exact .inl hplace.symm
    next => exact .inr hplace.symm
  have hseen := hside (if again=true then .guard else .waiting) (by
    rcases hgoes _ rfl with hplace | hplace <;> rw [hplace] <;> trivial)
  have hstep := hseen.explains.step .empty
  refine h.popLoad [_] _ (load_grows ..) (fun seen _ hpush hlen => hpush.unaware hlen none)
    hpushed hpopped (by rw [hat]; exact id) ⟨i,[],hseen.informed,hseen.received,?_,?_⟩
    (fun hplace => ?_) (fun hplace => ?_)
  · rw [List.filter_append,hpushed]
    exact (List.append_nil (enqueues _)) ▸ hstep
  · rw [hpopped]
    exact hseen.locals
  · rcases hplace with hplace | ⟨_,hplace⟩ <;> rcases hgoes _ hplace with h | h <;> cases h
  · rcases hgoes _ hplace with h | h <;> cases h

/-- A pop goes on when the sink thread sees an event. -/
theorem Intact.finds {again : Bool} {head : Fin size.n} {i : ℕ}
    {store : Store Thread Place (Fin size.n)} (h : Intact s ops)
    (hat : s.sink=.popping again (.loadedHead head))
    (hread : s.memory.readable .sink .tail i=some store) (hne : head≠store.value) :
    Intact {s with
      memory := s.memory.load .sink .acquire .tail store
      sink := .popping again (.checked head)} ops := by
  obtain ⟨_,_,hpop⟩ := h.pops
  have hlocals := hpop.locals
  rw [hat] at hlocals
  have hhead : head=slotOf size (dequeued ops).length := hlocals
  refine h.readsTail _ (by rw [hat]; exact id) hread (fun items hfits hvalue => ⟨hhead,?_⟩)
    (fun hplace => by rcases hplace with hplace | ⟨_,hplace⟩ <;> cases hplace)
    (fun hplace => nomatch hplace)
  intro hnone
  rw [hhead,hvalue] at hne
  exact hne ((empty_slots hfits).mpr hnone)

/-- The pop in progress takes the first event of the queue that the sink thread
sees, which it has received. -/
theorem Intact.front {again : Bool} {head : Fin size.n} (h : Intact s ops)
    (hat : s.sink=.popping again (.checked head)) :
    head=slotOf size (dequeued ops).length ∧
      ∃ known evt rest,PopSide s.memory (s.memory.views .sink) s.sink ops known (evt::rest) ∧
        (enqueued ops)[(dequeued ops).length]?=some evt ∧ (dequeued ops).length<known := by
  obtain ⟨known,items,hpop⟩ := h.pops
  have hlocals := hpop.locals
  rw [hat] at hlocals
  obtain ⟨hhead,hitems⟩ := hlocals
  cases items with
  | nil => exact absurd rfl hitems
  | cons evt rest =>
    refine ⟨hhead,known,evt,rest,hpop,?_,?_⟩
    · have hfront : ((enqueued ops).take known)[(dequeued ops).length]?=some evt := by
        rw [hpop.conserves.1,List.getElem?_append_right (le_refl _),Nat.sub_self]
        rfl
      rw [List.getElem?_take] at hfront
      split at hfront
      next => exact hfront
      next => cases hfront
    · have hlen := congrArg List.length hpop.conserves.1
      rw [List.length_append,List.length_take,List.length_cons] at hlen
      omega

/-- Every write of the slot that is read next happened before. -/
theorem Intact.reads_after {again : Bool} {head : Fin size.n} (h : Intact s ops)
    (hat : s.sink=.popping again (.checked head)) :
    ∀ a∈s.memory.accesses head,a.writes=true → a.Before (s.memory.views .sink) := by
  intro a ha hwrites
  have hroom := h.counts.2
  obtain ⟨hhead,known,evt,rest,hpop,hevt,hlt⟩ := h.front hat
  have hbehind := (List.getElem?_eq_some_iff.mp hevt).1
  obtain ⟨k,hslot,hk,hknown,_⟩ := h.accounted.writes head a ha hwrites
  obtain ⟨received,hreceived,hview⟩ := hpop.received
  obtain ⟨hindex,rfl⟩ := List.getElem?_eq_some_iff.mp hreceived
  have hkknown : k<known := by
    by_contra hge
    rw [hhead] at hslot
    have hpositive := size.positive
    have heq := slotOf_inj (by omega) (by omega) hslot.symm
    omega
  refine (hknown _ (List.getElem?_eq_getElem (by omega : k+1<_))).mono (le_trans ?_ hview)
  rcases Nat.lt_or_eq_of_le hkknown with hlt | heq
  · exact List.pairwise_iff_getElem.mp h.ring.tails.views (k+1) known _ _ hlt
  · simp only [←heq]
    exact le_refl _

/-- The read of the slot is no race, and returns the first event. -/
theorem Intact.reads {again : Bool} {head : Fin size.n} (h : Intact s ops)
    (hat : s.sink=.popping again (.checked head)) :
    Intact {s with
      memory := s.memory.access .sink head false
      sink := .popping again (.read head (s.memory.cells head))} ops := by
  have hafter := h.reads_after hat
  obtain ⟨hhead,known,evt,rest,hpop,hevt,_⟩ := h.front hat
  obtain ⟨hraced,hring,⟨seen,items,hpush⟩,_,haccounted,hclosing⟩ := h
  have hviews := access_views s.memory .sink head false
  have hstores : (s.memory.access .sink head false).stores=s.memory.stores := rfl
  have howner := owner_mono (s:=s) hviews s.pushing s.timerEnded s.main
    (.popping again (.read head (s.memory.cells head)))
  constructor
  · exact access_raced hraced fun a ha hconflict => hafter a ha hconflict
  · exact ⟨hring.tails,hring.heads,hring.tailValues,hring.headValues,hring.contents⟩
  · exact ⟨seen,items,hpush.mono hstores rfl howner⟩
  · have hpop' := hpop.mono hstores (hviews .sink)
    refine ⟨known,evt::rest,hpop'.informed,hpop'.received,hpop'.explains,hhead,?_⟩
    rw [hhead,hring.contents _ evt (le_refl _) hevt]
    rfl
  · constructor
    · intro d a ha hwrites
      rcases mem_access ha with ha | ⟨_,hreads,_⟩
      · obtain ⟨k,hslot,hk,hknown,hlast⟩ := haccounted.writes d a ha hwrites
        exact ⟨k,hslot,hk,hknown,fun heq => ⟨(hlast heq).1,(hlast heq).2.mono howner⟩⟩
      · rw [hwrites] at hreads
        cases hreads
    · intro d a ha hreads
      rcases mem_access ha with ha | ⟨rfl,_,hbefore⟩
      · obtain ⟨k,hslot,hk,hknown,hlast⟩ := haccounted.reads d a ha hreads
        exact ⟨k,hslot,hk,hknown,fun heq => ⟨trivial,(hlast heq).2.mono (hviews _)⟩⟩
      · refine ⟨_,hhead.symm,le_refl _,?_,fun _ => ⟨trivial,hbefore⟩⟩
        intro store hstore
        have hlt := (List.getElem?_eq_some_iff.mp hstore).1
        have hlen := stored_length hring.headValues
        rw [hstores,hlen] at hlt
        omega
  · refine {Closing.mono hclosing hviews hstores with
      emptying := fun hplace => ?_
      left := fun hplace => nomatch hplace}
    rcases hplace with hplace | ⟨_,hplace⟩ <;> cases hplace

/-- Storing `head_` releases the slot that was read. -/
theorem Intact.releases {again : Bool} {head : Fin size.n} {evt : FlowEvent} {stamp : ℕ}
    (h : Intact s ops) (hat : s.sink=.popping again (.read head evt))
    (hfresh : s.memory.fresh .sink .head stamp=true) :
    Intact {s with
      memory := s.memory.store .sink .head stamp (nextIndex head)
      sink := .guard} (ops++[.dequeue (some evt)]) := by
  obtain ⟨hraced,hring,⟨seen,items,hpush⟩,⟨known,popItems,hpop⟩,haccounted,hclosing⟩ := h
  have hlocals := hpop.locals
  rw [hat] at hlocals
  obtain ⟨hhead,hfront⟩ := hlocals
  cases popItems with
  | nil => cases hfront
  | cons first rest =>
    cases hfront
    obtain ⟨hchain,hinformed⟩ := hring.heads.store hpop.informed hfresh (nextIndex head)
    have hviews := store_views s.memory .sink .head stamp (nextIndex head)
    have htails : (s.memory.store .sink .head stamp (nextIndex head)).stores .tail=
        s.memory.stores .tail := store_other _ _ _ _ (by decide)
    have hstops : (s.memory.store .sink .head stamp (nextIndex head)).stores .stop=
        s.memory.stores .stop := store_other _ _ _ _ (by decide)
    have hheads : (s.memory.store .sink .head stamp (nextIndex head)).stores .head=
        s.memory.stores .head++[⟨stamp,nextIndex head,
          s.memory.views .sink⊔stampView Thread .head stamp⟩] := store_self ..
    have hpushed : enqueued (ops++[.dequeue (some evt)])=enqueued ops := by
      rw [enqueued,List.filterMap_append]
      exact List.append_nil _
    have hpopped : dequeued (ops++[.dequeue (some evt)])=dequeued ops++[evt] :=
      List.filterMap_append ..
    have howner := owner_mono (s:=s) hviews s.pushing s.timerEnded s.main .guard
    have hlen := stored_length hring.headValues
    constructor
    · exact hraced
    · rw [hpushed,hpopped]
      refine ⟨?_,hchain,?_,?_,?_⟩
      · rw [htails]
        exact hring.tails
      · rw [htails]
        exact hring.tailValues
      · rw [hheads,List.map_append,hring.headValues,List.length_append,List.length_singleton,
          indices_next,List.map_singleton,hhead,slotOf_next]
      · intro k content hk hcontent
        rw [List.length_append,List.length_singleton] at hk
        exact hring.contents k content (by omega) hcontent
    · obtain ⟨received,hreceived,hview⟩ := hpush.received
      have hseen := (stored_value hring.headValues hreceived).2
      refine ⟨seen,items,PushSide.unaware (h:=?_) hseen (some evt)⟩
      refine ⟨?_,⟨received,?_,le_trans hview howner⟩,hpush.explains,hpush.locals⟩
      · rw [htails]
        exact hpush.informed.mono howner
      · rw [hheads,List.getElem?_append_left (by omega)]
        exact hreceived
    · refine ⟨known,rest,hinformed,hpop.received.mono htails (hviews _),?_,trivial⟩
      have hstep := hpop.explains.step (.taken rest evt)
      rw [List.filter_append,hpushed]
      exact (List.append_nil (enqueues _)) ▸ hstep
    · rw [hpushed,hpopped,List.length_append,List.length_singleton]
      constructor
      · intro d a ha hwrites
        obtain ⟨k,hslot,hk,hknown,hlast⟩ := haccounted.writes d a ha hwrites
        refine ⟨k,hslot,hk,?_,fun heq => ⟨(hlast heq).1,(hlast heq).2.mono howner⟩⟩
        rw [htails]
        exact hknown
      · intro d a ha hreads
        obtain ⟨k,hslot,hk,hknown,hlast⟩ := haccounted.reads d a ha hreads
        refine ⟨k,hslot,by omega,?_,fun heq => absurd heq (by omega)⟩
        intro store hstore
        rw [hheads] at hstore
        rcases Nat.lt_or_ge (k+1) (s.memory.stores .head).length with hlt | hge
        · rw [List.getElem?_append_left hlt] at hstore
          exact hknown store hstore
        · rw [List.getElem?_append_right hge,List.getElem?_singleton] at hstore
          split at hstore
          next hzero =>
            cases hstore
            exact (hlast (by omega)).2.mono le_sup_left
          next => cases hstore
    · constructor
      · exact hclosing.held
      · exact hclosing.timer
      · intro store hstore
        rw [htails] at hstore
        obtain ⟨worker,hworker⟩ := hclosing.senders store hstore
        exact ⟨worker,le_trans hworker (hviews _)⟩
      · intro hended
        obtain ⟨htimer,hholder,hknows⟩ := hclosing.main hended
        refine ⟨htimer,hholder,?_⟩
        rw [htails]
        exact hknows.mono (hviews _)
      · intro store hstore
        rw [hstops] at hstore
        rw [htails]
        exact hclosing.stops store hstore
      · intro hplace
        rcases hplace with hplace | ⟨_,hplace⟩ <;> cases hplace
      · intro hplace
        cases hplace

end PopSteps

section Endings

/-- The timer thread ends outside the table. -/
theorem Intact.timerEnds (h : Intact s ops) (hholder : s.holder≠some .timer) :
    Intact {s with timerEnded := true} ops := by
  obtain ⟨hraced,hring,hpushes,hpops,haccounted,hclosing⟩ := h
  refine ⟨hraced,hring,hpushes,hpops,haccounted,?_⟩
  exact {hclosing with
    timer := fun _ => hholder
    main := fun hended => ⟨rfl,(hclosing.main hended).2⟩}

/-- Joining the timer thread passes on what it knows, and so all pushes. -/
theorem Intact.joins (h : Intact s ops) (hmain : s.main=.capturing)
    (htimer : s.timerEnded=true) (hholder : s.holder≠some .main) :
    Intact {s with
      memory := s.memory.join (.worker .main) (s.memory.views (.worker .timer))
      main := .joined} ops := by
  have hgrows := join_grows s.memory (.worker .main) (s.memory.views (.worker .timer))
  obtain ⟨hraced,hring,⟨seen,items,hpush⟩,⟨known,popItems,hpop⟩,haccounted,hclosing⟩ := h
  have howner := owner_mono (s:=s) hgrows.views s.pushing s.timerEnded .joined s.sink
  refine ⟨hraced,hring.grows hgrows,⟨seen,items,hpush.mono rfl rfl howner⟩,
    ⟨known,popItems,hpop.mono rfl (hgrows.views _)⟩,
    haccounted.mono rfl rfl howner (hgrows.views _) id id,?_⟩
  have hmono := Closing.mono hclosing hgrows.views hgrows.stores
  refine {hmono with
    main := fun _ => ⟨htimer,hholder,?_⟩
    stops := fun store hstore hvalue => absurd hmain (hclosing.stops store hstore hvalue).1
    emptying := fun hplace => absurd hmain (hclosing.emptying hplace).1
    left := fun hplace => absurd hmain (hclosing.left hplace).1}
  intro store hstore
  obtain ⟨worker,hworker⟩ := hclosing.senders store hstore
  cases worker with
  | main => exact le_trans hworker (hgrows.views _)
  | timer => exact le_trans hworker (join_knows ..)

/-- The request of the stop releases the knowledge of all pushes. -/
theorem Intact.requests {stamp : ℕ} (h : Intact s ops) (hmain : s.main=.joined) :
    Intact {s with
      memory := s.memory.store (.worker .main) .stop stamp true
      main := .requested} ops := by
  obtain ⟨hraced,hring,⟨seen,items,hpush⟩,⟨known,popItems,hpop⟩,haccounted,hclosing⟩ := h
  have hviews := store_views s.memory (.worker .main) .stop stamp true
  have howner := owner_mono (s:=s) hviews s.pushing s.timerEnded .requested s.sink
  have htails : (s.memory.store (.worker .main) .stop stamp true).stores .tail=
      s.memory.stores .tail := store_other _ _ _ _ (by decide)
  have hheads : (s.memory.store (.worker .main) .stop stamp true).stores .head=
      s.memory.stores .head := store_other _ _ _ _ (by decide)
  have hended : s.main≠.capturing := by
    rw [hmain]
    exact Ending.noConfusion
  obtain ⟨htimer,hholder,hinformed⟩ := hclosing.main hended
  constructor
  · exact hraced
  · refine ⟨?_,?_,?_,?_,hring.contents⟩
    · rw [htails]
      exact hring.tails
    · rw [hheads]
      exact hring.heads
    · rw [htails]
      exact hring.tailValues
    · rw [hheads]
      exact hring.headValues
  · refine ⟨seen,items,?_,hpush.received.mono hheads howner,hpush.explains,hpush.locals⟩
    rw [htails]
    exact hpush.informed.mono howner
  · refine ⟨known,popItems,?_,hpop.received.mono htails (hviews _),hpop.explains,hpop.locals⟩
    rw [hheads]
    exact hpop.informed.mono (hviews _)
  · constructor
    · intro d a ha hwrites
      obtain ⟨k,hslot,hk,hknown,hlast⟩ := haccounted.writes d a ha hwrites
      refine ⟨k,hslot,hk,?_,fun heq => ⟨(hlast heq).1,(hlast heq).2.mono howner⟩⟩
      rw [htails]
      exact hknown
    · intro d a ha hreads
      obtain ⟨k,hslot,hk,hknown,hlast⟩ := haccounted.reads d a ha hreads
      refine ⟨k,hslot,hk,?_,fun heq => ⟨(hlast heq).1,(hlast heq).2.mono (hviews _)⟩⟩
      rw [hheads]
      exact hknown
  · constructor
    · exact hclosing.held
    · exact hclosing.timer
    · intro store hstore
      rw [htails] at hstore
      obtain ⟨worker,hworker⟩ := hclosing.senders store hstore
      exact ⟨worker,le_trans hworker (hviews _)⟩
    · intro _
      refine ⟨htimer,hholder,?_⟩
      rw [htails]
      exact hinformed.mono (hviews _)
    · intro store hstore hvalue
      refine ⟨Ending.noConfusion,?_⟩
      rw [htails]
      rw [store_self] at hstore
      rcases List.mem_append.mp hstore with hold | hnew
      · exact (hclosing.stops store hold hvalue).2
      · rw [List.mem_singleton] at hnew
        subst hnew
        exact hinformed.mono le_sup_left
    · intro hplace
      refine ⟨Ending.noConfusion,?_⟩
      rw [htails]
      exact (hclosing.emptying hplace).2.mono (hviews _)
    · exact fun hplace => ⟨Ending.noConfusion,(hclosing.left hplace).2⟩

end Endings

section Runs

/-- Every turn keeps the queue and its threads intact. -/
theorem Intact.step {s' : QueueThreads size} {new : List (Operation FlowEvent)}
    (h : Intact s ops) (hstep : MemoryStep s s' new) : Intact s' (ops++new) := by
  cases hstep with
  | stays =>
    rw [List.append_nil]
    exact h
  | locks worker hfree hcalls =>
    rw [List.append_nil]
    exact h.locks hfree hcalls
  | loadsTail worker evt i store hholder hat hread =>
    rw [List.append_nil]
    exact h.loadsTail hholder hat hread evt
  | refuses worker evt tail i store hholder hat hread hfull =>
    exact h.refuses hholder hat hread hfull
  | checks worker evt tail i store hholder hat hread hroom =>
    rw [List.append_nil]
    exact h.checks hholder hat hread hroom
  | writes worker evt tail nextTail hholder hat =>
    rw [List.append_nil]
    exact h.writes hholder hat
  | publishes worker evt nextTail stamp hholder hat hfresh =>
    exact h.publishes hholder hat hfresh
  | unlocks worker hholder hat =>
    rw [List.append_nil]
    exact h.unlocks hholder hat
  | timerEnds hholder =>
    rw [List.append_nil]
    exact h.timerEnds hholder
  | joins hmain htimer hholder =>
    rw [List.append_nil]
    exact h.joins hmain htimer hholder
  | requests stamp hmain hfresh =>
    rw [List.append_nil]
    exact h.requests hmain
  | guards i store hat hread =>
    rw [List.append_nil]
    exact h.guards hat hread
  | emptyLoads i store hat hread =>
    rw [List.append_nil]
    exact h.loadsHead .acquire (.emptyingTail store.value) (by rw [hat]; exact id) hread
      (fun _ hvalue => hvalue) (fun _ => hat) (fun hplace => nomatch hplace)
  | leaves i store hat hread =>
    rw [List.append_nil]
    exact h.leaves hat hread
  | goesOn head i store hat hread hne =>
    rw [List.append_nil]
    exact h.readsTail _ (by rw [hat]; exact id) hread (fun _ _ _ => trivial)
      (fun hplace => by rcases hplace with hplace | ⟨_,hplace⟩ <;> cases hplace)
      (fun hplace => nomatch hplace)
  | loadsHead again i store hat hread =>
    rw [List.append_nil]
    exact h.loadsHead .relaxed _ (by rw [hat]; exact id) hread (fun _ hvalue => hvalue)
      (fun hplace => by rcases hplace with hplace | ⟨_,hplace⟩ <;> cases hplace)
      (fun hplace => nomatch hplace)
  | misses again i store hat hread => exact h.misses hat hread
  | finds again head i store hat hread hne =>
    rw [List.append_nil]
    exact h.finds hat hread hne
  | reads again head hat =>
    rw [List.append_nil]
    exact h.reads hat
  | releases again head evt stamp hat hfresh => exact h.releases hat hfresh
  | waits i store hat hread =>
    rw [List.append_nil]
    exact h.loadsHead .relaxed _ (by rw [hat]; exact id) hread (fun _ _ => trivial)
      (fun hplace => by rcases hplace with hplace | ⟨_,hplace⟩ <;> cases hplace)
      (fun hplace => nomatch hplace)
  | wakes head i store again hat hread =>
    rw [List.append_nil]
    cases again with
    | true =>
      exact h.readsTail .waiting (by rw [hat]; exact id) hread (fun _ _ _ => trivial)
        (fun hplace => by rcases hplace with hplace | ⟨_,hplace⟩ <;> cases hplace)
        (fun hplace => nomatch hplace)
    | false =>
      exact h.readsTail (.popping true .idle) (by rw [hat]; exact id) hread
        (fun _ _ _ => trivial)
        (fun hplace => by rcases hplace with hplace | ⟨_,hplace⟩ <;> cases hplace)
        (fun hplace => nomatch hplace)

/-- Nothing has happened: the queue is intact. -/
theorem intact_initial (size : RingSize) : Intact (.initial size) [] := by
  have hchain : ∀ l : Place,
      Chain l ((initialMemory size).stores l) ∧
        Informed ((fun _ => 0,fun _ => 0) : View Thread Place) ((initialMemory size).stores l) := by
    intro l
    cases l with
    | tail | head | stop =>
      refine ⟨⟨List.pairwise_singleton _ _,List.pairwise_singleton _ _,?_⟩,?_⟩
      · intro store hstore
        rw [List.mem_singleton.mp hstore]
      · intro store hstore
        rw [List.mem_singleton.mp hstore]
  have hslot : (⟨0,size.positive⟩ : Fin size.n)=slotOf size 0 := (advance_zero _).symm
  constructor
  · rfl
  · refine ⟨(hchain .tail).1,(hchain .head).1,?_,?_,fun k evt _ hevt => nomatch hevt⟩
    · exact congrArg (fun slot => [slot]) hslot
    · exact congrArg (fun slot => [slot]) hslot
  · exact ⟨0,[],(hchain .tail).2,⟨_,rfl,le_refl _⟩,explains_nil _,trivial⟩
  · exact ⟨0,[],(hchain .head).2,⟨_,rfl,le_refl _⟩,explains_nil _,trivial⟩
  · constructor
    · exact fun d a ha => nomatch ha
    · exact fun d a ha => nomatch ha
  · constructor
    · exact fun _ => rfl
    · exact fun hended => nomatch hended
    · exact fun store hstore => ⟨.main,(hchain .tail).2 store hstore⟩
    · exact fun hended => absurd rfl hended
    · intro store hstore hvalue
      rw [List.mem_singleton.mp hstore] at hvalue
      cases hvalue
    · intro hplace
      rcases hplace with hplace | ⟨_,hplace⟩ <;> cases hplace
    · exact fun hplace => nomatch hplace

variable (size)

/-- Every run keeps the queue and its threads intact. -/
theorem run_intact (turns : List MemoryTurn) :
    Intact (threadsAfter size turns) (answersOf size turns) :=
  (memoryMachine size).history_invariant
    (fun s _ turn h => h.step (memoryTurn_step s turn)) (intact_initial size) turns

/-- In release and acquire memory, for every schedule and whatever the loads
return: the slots are never raced for, what is popped is a prefix of what was
pushed, and at most `N-1` events are in the queue. Each side sees a FIFO queue of
capacity `N-1`: the pushes, with their refusals, are those of a queue in which
the last pops are still to come, and the pops, with their misses, those of a
queue in which the last pushes are still to come. When the sink thread leaves its
loop, every pushed event is popped. -/
theorem weak_memory_queue (turns : List MemoryTurn) :
    let s := threadsAfter size turns
    let ops := answersOf size turns
    s.memory.raced=false ∧ dequeued ops<+:enqueued ops ∧
      (enqueued ops).length≤(dequeued ops).length+(size.n-1) ∧
      (∃ seen items,Explains (size.n-1) (ops.filter Operation.isEnqueue)
        (dequeues ((dequeued ops).take seen)) items) ∧
      (∃ known items,Explains (size.n-1) (enqueues ((enqueued ops).take known))
        (ops.filter Operation.isDequeue) items) ∧
      (s.sink=.left → dequeued ops=enqueued ops) := by
  intro s ops
  have h := run_intact size turns
  obtain ⟨seen,items,hpush⟩ := h.pushes
  obtain ⟨known,popItems,hpop⟩ := h.pops
  exact ⟨h.raced,h.counts.1,h.counts.2,⟨seen,items,hpush.explains⟩,
    ⟨known,popItems,hpop.explains⟩,fun hleft => (h.closing.left hleft).2⟩

/-- The two sides together need not see one queue: of three events the second and
third are still queued when the sink thread misses them and main finds no room
for a fourth. -/
example :
    let push : Int64 → ℕ → List MemoryTurn := fun stamp tail =>
      [.push .main {eventTimestampUs := stamp} {index := tail},
        .push .main {} {},.push .main {} {},.push .main {} {stamp := tail+1}]
    let turns : List MemoryTurn := .lock .main::(push 1 0++push 2 1++push 3 2++
      [.sink {},.sink {},.sink {index := 1},.sink {},.sink {stamp := 1},
        .sink {},.sink {index := 1},.sink {index := 1}]++push 4 3)
    answersOf ⟨4,by decide,by decide,by decide⟩ turns=
      [.enqueue {eventTimestampUs := 1} true,.enqueue {eventTimestampUs := 2} true,
        .enqueue {eventTimestampUs := 3} true,.dequeue (some {eventTimestampUs := 1}),
        .dequeue none,.enqueue {eventTimestampUs := 4} false] := by
  decide +kernel

end Runs

end PacketPipe.EventQueueRaces

import PacketPipe.FlowTableModel

/-!
# One flow at a time

The purpose of the table, stated for a single key: a small machine that holds
at most one entry and reacts to the packets of its flow, to sweeps and to
drains. Every call of the table looks, from one key, like at most one input of
this machine, whatever the other entries, the iteration orders and the
callback do. The refinement is proved loop by loop and then for whole runs.
-/

namespace PacketPipe.FlowLifetimes

open FlowEvents ConfigParserModel ObservedMachines FlowTableModel

/-- What concerns one key: a packet counted in its entry, or an event for it. -/
inductive LifeObservation
  | packet (pkt : ParsedPacket)
  | event (evt : FlowEvent)
  deriving DecidableEq

/-- What can happen to one key. -/
inductive LifeInput
  /-- A packet of the flow that is not refused at the limit. -/
  | packet (pkt : ParsedPacket)
  /-- A sweep, with or without heartbeat. -/
  | sweep (nowUs : Int64) (heartbeat : Bool)
  /-- A drain. -/
  | drain (nowUs : Int64)

/-- Life of one flow: absent, or present with its state. -/
def lifeStep (cfg : AppConfig) (key : FlowKey) :
    Option FlowState → LifeInput → Option FlowState×List LifeObservation
  | none,.packet pkt =>
    (some (firstState key pkt),[.packet pkt,.event (startEvent (firstState key pkt) pkt)])
  | some state,.packet pkt =>
    if tearsDown pkt=true then
      (none,[.packet pkt,
        .event (endEvent (countPacket state pkt) pkt.timestampUs .tcpTeardown)])
    else (some (countPacket state pkt),[.packet pkt])
  | some state,.sweep nowUs heartbeat =>
    if idleDue cfg nowUs state=true then (none,[.event (endEvent state nowUs .idleTimeout)])
    else if heartbeat=true then (some state,[.event (statsEvent state nowUs)])
    else (some state,[])
  | some state,.drain nowUs => (none,[.event (endEvent state nowUs .idleTimeout)])
  | none,_ => (none,[])

/-- The single-flow machine. -/
def lifeMachine (cfg : AppConfig) (key : FlowKey) :
    Machine (Option FlowState) LifeInput LifeObservation := ⟨lifeStep cfg key⟩

@[simp] theorem step_life (cfg : AppConfig) (key : FlowKey) (entry : Option FlowState)
    (input : LifeInput) :
    (lifeMachine cfg key).step entry input=lifeStep cfg key entry input := rfl

/-- The part of an observation that concerns `key`. -/
def lifeView (key : FlowKey) : Observation → Option LifeObservation
  | .counted pkt => if keyFromPacket pkt=key then some (.packet pkt) else none
  | .dropped _ _ => none
  | .emitted evt _ => if evt.state.key=key then some (.event evt) else none

/-- Every entry is stored under its own key. -/
def Keyed (flows : FlowMap) : Prop := ∀ key state,flows.lookup key=some state → state.key=key

/-- The empty table is keyed. -/
theorem keyed_empty : Keyed ∅ := fun key state h => by
  simp only [AList.lookup_empty,reduceCtorEq] at h

/-- A new table has no entry for any key. -/
theorem initial_lookup {σ : Type} (sink : σ) (key : FlowKey) :
    (FlowTable.initial sink).flows.lookup key=none := AList.lookup_empty key

/-- Storing a state under its own key keeps the table keyed. -/
theorem Keyed.insert {flows : FlowMap} (h : Keyed flows) {own : FlowKey} {state : FlowState}
    (hown : state.key=own) : Keyed (flows.insert own state) := by
  intro key other hlookup
  by_cases hk : key=own
  · subst hk
    rw [AList.lookup_insert] at hlookup
    cases hlookup
    exact hown
  · rw [AList.lookup_insert_ne hk] at hlookup
    exact h key other hlookup

/-- Removing entries keeps the table keyed. -/
theorem Keyed.shrink {flows smaller : FlowMap} (h : Keyed flows)
    (hsub : ∀ key state,smaller.lookup key=some state → flows.lookup key=some state) :
    Keyed smaller := fun key state hlookup => h key state (hsub key state hlookup)

/-- Erasing one entry keeps the table keyed. -/
theorem Keyed.erase {flows : FlowMap} (h : Keyed flows) (own : FlowKey) :
    Keyed (flows.erase own) := by
  refine h.shrink fun key state hlookup => ?_
  by_cases hk : key=own
  · rw [hk,AList.lookup_erase] at hlookup
    cases hlookup
  · rwa [AList.lookup_erase_ne hk] at hlookup

/-- The list meets every entry of the table exactly once. -/
structure Visits (flows : FlowMap) (entries : List FlowEntry) : Prop where
  /-- No key is met twice. -/
  nodup : entries.NodupKeys
  /-- Looking a key up in the visited list agrees with the table. -/
  lookup : ∀ key,entries.dlookup key=flows.lookup key

/-- A visited entry is an entry of the table. -/
theorem Visits.mem {flows : FlowMap} {entries : List FlowEntry} (h : Visits flows entries)
    {e : FlowEntry} (he : e∈entries) : flows.lookup e.1=some e.2 := by
  rw [←h.lookup]
  exact List.mem_dlookup h.nodup he

/-- Visited entries of a keyed table carry their own keys. -/
theorem Visits.keyed {flows : FlowMap} {entries : List FlowEntry} (h : Visits flows entries)
    (hkeyed : Keyed flows) : ∀ e∈entries,e.2.key=e.1 :=
  fun e he => hkeyed e.1 e.2 (h.mem he)

/-- The keys of the visited entries that satisfy a test. -/
theorem Visits.mem_selected {flows : FlowMap} {entries : List FlowEntry}
    (h : Visits flows entries) (test : FlowState → Bool) (key : FlowKey) :
    key∈(entries.filter fun e => test e.2).map Sigma.fst ↔
      (flows.lookup key).any test=true := by
  rw [List.mem_map]
  constructor
  · rintro ⟨e,he,rfl⟩
    obtain ⟨hin,htest⟩ := List.mem_filter.mp he
    rw [h.mem hin]
    exact htest
  · intro hany
    obtain ⟨state,hlookup,htest⟩ := (Option.any_eq_true _ _).mp hany
    rw [←h.lookup] at hlookup
    exact ⟨⟨key,state⟩,List.mem_filter.mpr ⟨List.of_mem_dlookup hlookup,htest⟩,rfl⟩

/-- No key is selected twice. -/
theorem Visits.nodup_selected {flows : FlowMap} {entries : List FlowEntry}
    (h : Visits flows entries) (test : FlowState → Bool) :
    ((entries.filter fun e => test e.2).map Sigma.fst).Nodup :=
  List.NodupKeys.sublist List.filter_sublist h.nodup

/-- Every iteration order visits the table. -/
theorem visits_order (order : MapOrder) (flows : FlowMap) : Visits flows (order.visit flows) := by
  have hperm := order.visit_perm flows
  have hnodup : (order.visit flows).NodupKeys :=
    (List.perm_nodupKeys hperm).mpr flows.nodupKeys
  exact ⟨hnodup,fun key => List.perm_dlookup key hnodup hperm⟩

section Frames

variable {σ : Type} (cfg : AppConfig) (onEvent : EventCallback σ)

/-- Members that an event or the end of a flow leaves alone. -/
structure SameCounts (t t' : FlowTable σ) : Prop where
  /-- `last_heartbeat_us_`. -/
  heartbeat : t'.lastHeartbeatUs=t.lastHeartbeatUs
  /-- `drop_count_`. -/
  drops : t'.dropCount=t.dropCount

/-- One after the other. -/
theorem SameCounts.trans {t t' t'' : FlowTable σ} (h : SameCounts t t') (h' : SameCounts t' t'') :
    SameCounts t t'' := ⟨h'.heartbeat.trans h.heartbeat,h'.drops.trans h.drops⟩

@[simp] theorem emit_flows (evt : FlowEvent) (t : FlowTable σ) :
    (emit onEvent evt t).1.flows=t.flows := by
  unfold emit
  dsimp only
  split <;> rfl

/-- `emit` changes metrics and callback only. -/
theorem emit_same (evt : FlowEvent) (t : FlowTable σ) : SameCounts t (emit onEvent evt t).1 := by
  unfold emit
  dsimp only
  split <;> exact ⟨rfl,rfl⟩

/-- One call of the callback is one observation with its answer. -/
theorem emit_trace (evt : FlowEvent) (t : FlowTable σ) :
    (emit onEvent evt t).2=[.emitted evt (onEvent evt t.sink).1] := by
  unfold emit
  dsimp only
  split
  · next h => rw [h]
  · next h => rw [Bool.not_eq_true] at h; rw [h]

/-- From one key an emission is its event or nothing. -/
theorem emit_view (key : FlowKey) (evt : FlowEvent) (t : FlowTable σ) :
    (emit onEvent evt t).2.filterMap (lifeView key)=
      if evt.state.key=key then [.event evt] else [] := by
  rw [emit_trace,List.filterMap_cons,List.filterMap_nil,lifeView]
  by_cases h : evt.state.key=key
  · rw [if_pos h,if_pos h]
  · rw [if_neg h,if_neg h]

@[simp] theorem expireFlow_flows (key : FlowKey) (state : FlowState) (nowUs : Int64)
    (reason : ExpireReason) (t : FlowTable σ) :
    (expireFlow onEvent key state nowUs reason t).1.flows=t.flows.erase key := by
  simp only [expireFlow,emit_flows]

/-- `expire_flow` changes the entry besides. -/
theorem expireFlow_same (key : FlowKey) (state : FlowState) (nowUs : Int64)
    (reason : ExpireReason) (t : FlowTable σ) :
    SameCounts t (expireFlow onEvent key state nowUs reason t).1 := by
  have hemit := emit_same onEvent (endEvent state nowUs reason) t
  exact ⟨hemit.heartbeat,hemit.drops⟩

/-- Expiry emits one End event of the state at the iterator. -/
theorem expireFlow_trace (key : FlowKey) (state : FlowState) (nowUs : Int64)
    (reason : ExpireReason) (t : FlowTable σ) :
    (expireFlow onEvent key state nowUs reason t).2=
      (emit onEvent (endEvent state nowUs reason) t).2 := rfl

end Frames

section Sweep

variable {σ : Type} (cfg : AppConfig) (onEvent : EventCallback σ) (nowUs : Int64)

/-- Heartbeats leave the entries alone. -/
theorem sweepScan_flows (emitStats : Bool) (entries : List FlowEntry) (t : FlowTable σ) :
    (sweepScan cfg onEvent nowUs emitStats entries t).1.flows=t.flows := by
  induction entries generalizing t with
  | nil => rfl
  | cons entry rest ih =>
    obtain ⟨key,state⟩ := entry
    unfold sweepScan
    dsimp only
    split
    · exact ih t
    · split
      · dsimp only
        rw [ih,emit_flows]
      · exact ih t

/-- They are given before the time of the last heartbeat moves. -/
theorem sweepScan_same (emitStats : Bool) (entries : List FlowEntry) (t : FlowTable σ) :
    SameCounts t (sweepScan cfg onEvent nowUs emitStats entries t).1 := by
  induction entries generalizing t with
  | nil => exact ⟨rfl,rfl⟩
  | cons entry rest ih =>
    unfold sweepScan
    dsimp only
    split
    · exact ih t
    · split
      · exact (emit_same onEvent _ t).trans (ih _)
      · exact ih t

/-- The keys collected are those of the idle entries, in visiting order. -/
theorem sweepScan_keys (emitStats : Bool) (entries : List FlowEntry) (t : FlowTable σ) :
    (sweepScan cfg onEvent nowUs emitStats entries t).2.1=
      (entries.filter fun e => idleDue cfg nowUs e.2).map Sigma.fst := by
  induction entries generalizing t with
  | nil => rfl
  | cons entry rest ih =>
    obtain ⟨key,state⟩ := entry
    unfold sweepScan
    dsimp only
    rw [List.filter_cons]
    dsimp only
    split
    · rw [ih,List.map_cons]
    · split
      · exact ih _
      · exact ih t

/-- Heartbeat of one key: its state when it is kept and a heartbeat is due. -/
def keptStats (emitStats : Bool) : Option FlowState → List LifeObservation
  | none => []
  | some state =>
    if idleDue cfg nowUs state=true then []
    else if emitStats=true then [.event (statsEvent state nowUs)] else []

/-- From one key the scan emits that key's heartbeat only, at the entry of the key. -/
theorem sweepScan_view (emitStats : Bool) {entries : List FlowEntry} (hnd : entries.NodupKeys)
    (hkeyed : ∀ e∈entries,e.2.key=e.1) (key : FlowKey) (t : FlowTable σ) :
    (sweepScan cfg onEvent nowUs emitStats entries t).2.2.filterMap (lifeView key)=
      keptStats cfg nowUs emitStats (entries.dlookup key) := by
  induction entries generalizing t with
  | nil => rfl
  | cons entry rest ih =>
    obtain ⟨own,state⟩ := entry
    have howner : state.key=own := hkeyed ⟨own,state⟩ List.mem_cons_self
    obtain ⟨hfresh,hnd⟩ := List.nodupKeys_cons.mp hnd
    have hrest := fun u => ih hnd (fun e he => hkeyed e (List.mem_cons_of_mem _ he)) u
    by_cases hk : key=own
    · subst hk
      have hnone : rest.dlookup key=none := List.dlookup_eq_none.mpr hfresh
      rw [List.dlookup_cons_eq,sweepScan,keptStats]
      dsimp only
      split
      · rw [hrest,hnone,keptStats]
      · split
        · rw [List.filterMap_append,emit_view,hrest,hnone,keptStats,statsEvent,howner,
            if_pos rfl,List.append_nil]
        · rw [hrest,hnone,keptStats]
    · rw [List.dlookup_cons_ne rest (⟨own,state⟩ : FlowEntry) hk,sweepScan]
      dsimp only
      split
      · exact hrest t
      · split
        · rw [List.filterMap_append,emit_view,hrest,statsEvent,howner,if_neg (Ne.symm hk),
            List.nil_append]
        · exact hrest t

/-- End event of one key when its entry is expired. -/
def idleEnd : Option FlowState → List LifeObservation
  | none => []
  | some state => [.event (endEvent state nowUs .idleTimeout)]

/-- The second loop removes the collected keys and nothing else. -/
theorem expireAll_lookup (keys : List FlowKey) (t : FlowTable σ) (key : FlowKey) :
    (expireAll onEvent nowUs keys t).1.flows.lookup key=
      if key∈keys then none else t.flows.lookup key := by
  induction keys generalizing t with
  | nil => rfl
  | cons own rest ih =>
    unfold expireAll
    split
    · next state hfound =>
      dsimp only
      rw [ih,expireFlow_flows]
      by_cases hk : key=own
      · subst hk
        rw [AList.lookup_erase,ite_self,if_pos List.mem_cons_self]
      · rw [AList.lookup_erase_ne hk]
        simp only [List.mem_cons,hk,false_or]
    · next hnone =>
      rw [ih]
      by_cases hk : key=own
      · subst hk
        rw [hnone,ite_self,ite_self]
      · simp only [List.mem_cons,hk,false_or]

/-- The second loop only ends flows. -/
theorem expireAll_same (keys : List FlowKey) (t : FlowTable σ) :
    SameCounts t (expireAll onEvent nowUs keys t).1 := by
  induction keys generalizing t with
  | nil => exact ⟨rfl,rfl⟩
  | cons own rest ih =>
    unfold expireAll
    split
    · exact (expireFlow_same onEvent _ _ _ _ t).trans (ih _)
    · exact ih t

/-- From one key the second loop emits that key's End event, when collected. -/
theorem expireAll_view {keys : List FlowKey} (hnd : keys.Nodup) {t : FlowTable σ}
    (hkeyed : Keyed t.flows) (key : FlowKey) :
    (expireAll onEvent nowUs keys t).2.filterMap (lifeView key)=
      if key∈keys then idleEnd nowUs (t.flows.lookup key) else [] := by
  induction keys generalizing t with
  | nil => rfl
  | cons own rest ih =>
    obtain ⟨hfresh,hnd⟩ := List.nodup_cons.mp hnd
    unfold expireAll
    split
    · next state hfound =>
      have howner := hkeyed own state hfound
      have hkeyed' : Keyed (expireFlow onEvent own state nowUs .idleTimeout t).1.flows := by
        rw [expireFlow_flows]
        exact hkeyed.erase own
      dsimp only
      rw [List.filterMap_append,expireFlow_trace,emit_view,ih hnd hkeyed',expireFlow_flows,
        endEvent,howner]
      by_cases hk : key=own
      · subst hk
        rw [if_pos rfl,if_neg hfresh,List.append_nil,if_pos List.mem_cons_self,hfound]
        rfl
      · rw [if_neg (Ne.symm hk),List.nil_append,AList.lookup_erase_ne hk]
        simp only [List.mem_cons,hk,false_or]
    · next hnone =>
      rw [ih hnd hkeyed]
      by_cases hk : key=own
      · subst hk
        rw [hnone,if_neg hfresh,if_pos List.mem_cons_self]
        rfl
      · simp only [List.mem_cons,hk,false_or]

end Sweep

section Drain

variable {σ : Type} (onEvent : EventCallback σ) (nowUs : Int64)

/-- The drain removes every visited key and nothing else. -/
theorem drainLoop_lookup (entries : List FlowEntry) (t : FlowTable σ) (key : FlowKey) :
    (drainLoop onEvent nowUs entries t).1.flows.lookup key=
      if key∈entries.keys then none else t.flows.lookup key := by
  induction entries generalizing t with
  | nil => rfl
  | cons entry rest ih =>
    obtain ⟨own,state⟩ := entry
    unfold drainLoop
    dsimp only
    rw [ih]
    dsimp only
    rw [emit_flows]
    by_cases hk : key=own
    · subst hk
      rw [AList.lookup_erase,ite_self,List.keys_cons,if_pos List.mem_cons_self]
    · rw [AList.lookup_erase_ne hk]
      simp only [List.keys_cons,List.mem_cons,hk,false_or]

/-- The drain only ends flows. -/
theorem drainLoop_same (entries : List FlowEntry) (t : FlowTable σ) :
    SameCounts t (drainLoop onEvent nowUs entries t).1 := by
  induction entries generalizing t with
  | nil => exact ⟨rfl,rfl⟩
  | cons entry rest ih =>
    have hemit := emit_same onEvent (endEvent entry.2 nowUs .idleTimeout) t
    unfold drainLoop
    dsimp only
    refine SameCounts.trans ?_ (ih _)
    exact ⟨hemit.heartbeat,hemit.drops⟩

/-- From one key the drain emits that key's End event. -/
theorem drainLoop_view {entries : List FlowEntry} (hnd : entries.NodupKeys)
    (hkeyed : ∀ e∈entries,e.2.key=e.1) (key : FlowKey) (t : FlowTable σ) :
    (drainLoop onEvent nowUs entries t).2.filterMap (lifeView key)=
      idleEnd nowUs (entries.dlookup key) := by
  induction entries generalizing t with
  | nil => rfl
  | cons entry rest ih =>
    obtain ⟨own,state⟩ := entry
    have howner : state.key=own := hkeyed ⟨own,state⟩ List.mem_cons_self
    obtain ⟨hfresh,hnd⟩ := List.nodupKeys_cons.mp hnd
    unfold drainLoop
    dsimp only
    rw [List.filterMap_append,emit_view,endEvent,howner,
      ih hnd (fun e he => hkeyed e (List.mem_cons_of_mem _ he))]
    by_cases hk : key=own
    · subst hk
      rw [if_pos rfl,List.dlookup_cons_eq,List.dlookup_eq_none.mpr hfresh]
      rfl
    · rw [if_neg (Ne.symm hk),List.nil_append,
        List.dlookup_cons_ne rest (⟨own,state⟩ : FlowEntry) hk]

end Drain

section Upkeep

variable {σ : Type} (cfg : AppConfig) (onEvent : EventCallback σ) (nowUs : Int64)

/-- What sweeps and drains emit: heartbeats and Ends of idle flows. -/
inductive Upkeep : Observation → Prop
  /-- A heartbeat. -/
  | stats (state : FlowState) (nowUs : Int64) (accepted : Bool) :
    Upkeep (.emitted (statsEvent state nowUs) accepted)
  /-- The End of an idle or drained flow. -/
  | ended (state : FlowState) (nowUs : Int64) (accepted : Bool) :
    Upkeep (.emitted (endEvent state nowUs .idleTimeout) accepted)

/-- A heartbeat is upkeep. -/
theorem emit_stats_upkeep (state : FlowState) (t : FlowTable σ) :
    ∀ o∈(emit onEvent (statsEvent state nowUs) t).2,Upkeep o := by
  intro o ho
  rw [emit_trace,List.mem_singleton] at ho
  rw [ho]
  exact .stats state nowUs _

/-- The End of an idle flow is upkeep. -/
theorem emit_end_upkeep (state : FlowState) (t : FlowTable σ) :
    ∀ o∈(emit onEvent (endEvent state nowUs .idleTimeout) t).2,Upkeep o := by
  intro o ho
  rw [emit_trace,List.mem_singleton] at ho
  rw [ho]
  exact .ended state nowUs _

/-- The first loop of a sweep does upkeep only. -/
theorem sweepScan_upkeep (emitStats : Bool) (entries : List FlowEntry) (t : FlowTable σ) :
    ∀ o∈(sweepScan cfg onEvent nowUs emitStats entries t).2.2,Upkeep o := by
  induction entries generalizing t with
  | nil => exact List.forall_mem_nil _
  | cons entry rest ih =>
    unfold sweepScan
    dsimp only
    split
    · exact ih t
    · split
      · exact List.forall_mem_append.mpr ⟨emit_stats_upkeep onEvent nowUs entry.2 t,ih _⟩
      · exact ih t

/-- So does the second loop. -/
theorem expireAll_upkeep (keys : List FlowKey) (t : FlowTable σ) :
    ∀ o∈(expireAll onEvent nowUs keys t).2,Upkeep o := by
  induction keys generalizing t with
  | nil => exact List.forall_mem_nil _
  | cons key rest ih =>
    unfold expireAll
    split
    · exact List.forall_mem_append.mpr ⟨emit_end_upkeep onEvent nowUs _ t,ih _⟩
    · exact ih t

/-- A sweep does upkeep only. -/
theorem timerSweep_upkeep (order : MapOrder) (t : FlowTable σ) :
    ∀ o∈(timerSweep cfg onEvent nowUs order t).2,Upkeep o :=
  List.forall_mem_append.mpr ⟨sweepScan_upkeep cfg onEvent nowUs _ _ t,
    expireAll_upkeep onEvent nowUs _ _⟩

/-- A drain does upkeep only. -/
theorem drainLoop_upkeep (entries : List FlowEntry) (t : FlowTable σ) :
    ∀ o∈(drainLoop onEvent nowUs entries t).2,Upkeep o := by
  induction entries generalizing t with
  | nil => exact List.forall_mem_nil _
  | cons entry rest ih =>
    exact List.forall_mem_append.mpr ⟨emit_end_upkeep onEvent nowUs entry.2 t,ih _⟩

end Upkeep

section Refinement

variable {σ : Type} (cfg : AppConfig) (onEvent : EventCallback σ)

/-- Whether `process` refuses the packet: an unknown flow on a full table. -/
def refuses (pkt : ParsedPacket) (t : FlowTable σ) : Bool :=
  (t.flows.lookup (keyFromPacket pkt)).isNone && tableFull cfg t.flows

/-- What a call means for one key. -/
def lifeInputs (key : FlowKey) (t : FlowTable σ) : Call → List LifeInput
  | .process pkt =>
    if keyFromPacket pkt=key ∧ refuses cfg pkt t=false then [.packet pkt] else []
  | .timerSweep nowUs _ => [.sweep nowUs (heartbeatDue cfg nowUs t.lastHeartbeatUs)]
  | .drainAll nowUs _ => [.drain nowUs]

/-- Everything a packet can do to the entries, with what is seen of it. -/
inductive ProcessEffect (pkt : ParsedPacket) (t : FlowTable σ) :
    FlowMap → List Observation → Prop
  /-- An unknown flow on a full table: nothing but the drop. -/
  | refused (hrefuses : refuses cfg pkt t=true)
      (hlookup : t.flows.lookup (keyFromPacket pkt)=none) :
      ProcessEffect pkt t t.flows [.dropped pkt ((t.dropCount+1)%1000=1)]
  /-- The first packet of a flow. -/
  | opened (hrefuses : refuses cfg pkt t=false)
      (hlookup : t.flows.lookup (keyFromPacket pkt)=none) (accepted : Bool) :
      ProcessEffect pkt t
        (t.flows.insert (keyFromPacket pkt) (firstState (keyFromPacket pkt) pkt))
        [.counted pkt,
          .emitted (startEvent (firstState (keyFromPacket pkt) pkt) pkt) accepted]
  /-- A further packet that does not close its flow. -/
  | updated (state : FlowState) (hrefuses : refuses cfg pkt t=false)
      (hdown : tearsDown pkt=false)
      (hlookup : t.flows.lookup (keyFromPacket pkt)=some state) :
      ProcessEffect pkt t (t.flows.insert (keyFromPacket pkt) (countPacket state pkt))
        [.counted pkt]
  /-- A further packet that closes its flow after being counted. -/
  | closed (state : FlowState) (hrefuses : refuses cfg pkt t=false)
      (hdown : tearsDown pkt=true)
      (hlookup : t.flows.lookup (keyFromPacket pkt)=some state) (accepted : Bool) :
      ProcessEffect pkt t
        ((t.flows.insert (keyFromPacket pkt) (countPacket state pkt)).erase (keyFromPacket pkt))
        [.counted pkt,
          .emitted (endEvent (countPacket state pkt) pkt.timestampUs .tcpTeardown) accepted]

/-- `process` has one of the four effects. -/
theorem process_effect (pkt : ParsedPacket) (t : FlowTable σ) :
    ProcessEffect cfg pkt t (process cfg onEvent pkt t).1.flows
      (process cfg onEvent pkt t).2 := by
  cases hlookup : t.flows.lookup (keyFromPacket pkt) with
  | none =>
    by_cases hfull : tableFull cfg t.flows=true
    · have hrefuses : refuses cfg pkt t=true := by
        rw [refuses,hlookup,hfull]
        rfl
      simp only [process,hlookup,hfull,if_true]
      exact .refused hrefuses hlookup
    · have hrefuses : refuses cfg pkt t=false := by
        rw [refuses,hlookup,Bool.eq_false_iff.mpr hfull]
        rfl
      simp only [process,hlookup,hfull,Bool.false_eq_true,if_false,emit_flows,emit_trace]
      exact .opened hrefuses hlookup _
  | some state =>
    have hrefuses : refuses cfg pkt t=false := by
      rw [refuses,hlookup]
      rfl
    by_cases hdown : tearsDown pkt=true
    · simp only [process,hlookup,hdown,if_true,expireFlow_flows,expireFlow_trace,emit_trace]
      exact .closed state hrefuses hdown hlookup _
    · simp only [process,hlookup,hdown,Bool.false_eq_true,if_false]
      exact .updated state hrefuses (Bool.eq_false_iff.mpr hdown) hlookup

/-- A packet never moves the time of the last heartbeat. -/
theorem process_lastHeartbeatUs (pkt : ParsedPacket) (t : FlowTable σ) :
    (process cfg onEvent pkt t).1.lastHeartbeatUs=t.lastHeartbeatUs := by
  unfold process
  dsimp only
  split
  · split
    · rfl
    · exact (emit_same onEvent _ _).heartbeat
  · split
    · exact (expireFlow_same onEvent _ _ _ _ _).heartbeat
    · rfl

/-- The time of the last heartbeat moves with the sweeps only. -/
theorem timerSweep_lastHeartbeatUs (nowUs : Int64) (order : MapOrder) (t : FlowTable σ) :
    (timerSweep cfg onEvent nowUs order t).1.lastHeartbeatUs=
      if heartbeatDue cfg nowUs t.lastHeartbeatUs=true then nowUs else t.lastHeartbeatUs := by
  simp only [timerSweep,(expireAll_same ..).heartbeat,(sweepScan_same ..).heartbeat]

/-- A sweep leaves each key its entry unless that entry is idle. -/
theorem timerSweep_lookup (nowUs : Int64) (order : MapOrder) (t : FlowTable σ) (key : FlowKey) :
    (timerSweep cfg onEvent nowUs order t).1.flows.lookup key=
      (t.flows.lookup key).filter fun state => !idleDue cfg nowUs state := by
  have hvisit := visits_order order t.flows
  unfold timerSweep
  dsimp only
  rw [expireAll_lookup,sweepScan_keys,sweepScan_flows]
  simp only [hvisit.mem_selected]
  cases t.flows.lookup key with
  | none => rfl
  | some state =>
    rw [Option.any_some,Option.filter_some]
    cases idleDue cfg nowUs state <;> rfl

/-- A drain leaves no entry. -/
theorem drainAll_lookup (nowUs : Int64) (order : MapOrder) (t : FlowTable σ) (key : FlowKey) :
    (drainAll onEvent nowUs order t).1.flows.lookup key=none := by
  unfold drainAll
  rw [drainLoop_lookup]
  split
  · rfl
  · next habsent =>
    rw [←(visits_order order t.flows).lookup]
    exact List.dlookup_eq_none.mpr habsent

/-- A table that a drain leaves is empty. -/
theorem drainAll_entries (nowUs : Int64) (order : MapOrder) (t : FlowTable σ) :
    (drainAll onEvent nowUs order t).1.flows.entries=[] := by
  refine List.eq_nil_iff_forall_not_mem.mpr fun e he => ?_
  have hnone := drainAll_lookup onEvent nowUs order t e.1
  exact AList.lookup_eq_none.mp hnone (List.mem_keys_of_mem he)

/-- Sweeps and drains only remove entries. -/
theorem timerSweep_keyed {nowUs : Int64} {order : MapOrder} {t : FlowTable σ}
    (h : Keyed t.flows) : Keyed (timerSweep cfg onEvent nowUs order t).1.flows := by
  refine h.shrink fun key state hlookup => ?_
  rw [timerSweep_lookup,Option.filter_eq_some_iff] at hlookup
  exact hlookup.1

/-- Every call keeps each entry under its own key. -/
theorem call_keyed (t : FlowTable σ) (c : Call) (h : Keyed t.flows) :
    Keyed ((tableMachine cfg onEvent).step t c).1.flows := by
  cases c with
  | process pkt =>
    have heffect := process_effect cfg onEvent pkt t
    rw [step_process]
    generalize (process cfg onEvent pkt t).1.flows=flows,
      (process cfg onEvent pkt t).2=seen at heffect ⊢
    cases heffect with
    | refused => exact h
    | opened => exact h.insert rfl
    | updated state _ _ hlookup => exact h.insert (h _ state hlookup)
    | closed state _ _ hlookup =>
      have hcounted : Keyed (t.flows.insert (keyFromPacket pkt) (countPacket state pkt)) :=
        h.insert (h _ state hlookup)
      exact hcounted.erase _
  | timerSweep nowUs order => exact timerSweep_keyed cfg onEvent h
  | drainAll nowUs order =>
    refine h.shrink fun key state hlookup => ?_
    rw [step_drainAll,drainAll_lookup] at hlookup
    cases hlookup

/-- Seen from one key, a packet is one input of the single-flow machine or
nothing at all. -/
theorem process_project (pkt : ParsedPacket) (t : FlowTable σ) (h : Keyed t.flows)
    (key : FlowKey) :
    (lifeMachine cfg key).final (t.flows.lookup key) (lifeInputs cfg key t (.process pkt))=
        (process cfg onEvent pkt t).1.flows.lookup key ∧
      (lifeMachine cfg key).trace (t.flows.lookup key) (lifeInputs cfg key t (.process pkt))=
        (process cfg onEvent pkt t).2.filterMap (lifeView key) := by
  have heffect := process_effect cfg onEvent pkt t
  generalize (process cfg onEvent pkt t).1.flows=flows,
    (process cfg onEvent pkt t).2=seen at heffect ⊢
  by_cases hk : keyFromPacket pkt=key
  · subst hk
    cases heffect with
    | refused hrefuses hlookup =>
      simp [lifeInputs,hrefuses,hlookup,lifeView]
    | opened hrefuses hlookup accepted =>
      simp [lifeInputs,hrefuses,hlookup,lifeView,lifeMachine,lifeStep,startEvent,firstState]
    | updated state hrefuses hdown hlookup =>
      simp [lifeInputs,hrefuses,hlookup,lifeView,lifeMachine,lifeStep,hdown]
    | closed state hrefuses hdown hlookup accepted =>
      have hown := h _ state hlookup
      simp [lifeInputs,hrefuses,hlookup,lifeView,lifeMachine,lifeStep,hdown,endEvent,
        countPacket,hown]
  · have hne : key≠keyFromPacket pkt := Ne.symm hk
    simp only [lifeInputs,hk,false_and,if_false,Machine.final_nil,Machine.trace_nil]
    cases heffect with
    | refused => simp [lifeView]
    | opened _ _ accepted =>
      simp [lifeView,hk,startEvent,firstState,AList.lookup_insert_ne hne]
    | updated => simp [lifeView,hk,AList.lookup_insert_ne hne]
    | closed state _ _ hlookup accepted =>
      have hown := h _ state hlookup
      simp [lifeView,hk,endEvent,countPacket,hown,AList.lookup_insert_ne hne,
        AList.lookup_erase_ne hne]

/-- From one key a sweep is its heartbeat followed by its expiry. -/
theorem timerSweep_view (nowUs : Int64) (order : MapOrder) {t : FlowTable σ} (h : Keyed t.flows)
    (key : FlowKey) :
    (timerSweep cfg onEvent nowUs order t).2.filterMap (lifeView key)=
      keptStats cfg nowUs (heartbeatDue cfg nowUs t.lastHeartbeatUs) (t.flows.lookup key)++
        idleEnd nowUs ((t.flows.lookup key).filter fun state => idleDue cfg nowUs state) := by
  have hvisit := visits_order order t.flows
  have hentries := hvisit.keyed h
  unfold timerSweep
  dsimp only
  have hflows := sweepScan_flows cfg onEvent nowUs (heartbeatDue cfg nowUs t.lastHeartbeatUs)
    (order.visit t.flows) t
  rw [List.filterMap_append,sweepScan_view cfg onEvent nowUs _ hvisit.nodup hentries,
    hvisit.lookup,sweepScan_keys,
    expireAll_view onEvent nowUs (hvisit.nodup_selected _) (by rw [hflows]; exact h),hflows]
  simp only [hvisit.mem_selected]
  cases t.flows.lookup key with
  | none => rfl
  | some state =>
    rw [Option.any_some,Option.filter_some]
    cases idleDue cfg nowUs state <;> rfl

/-- The abstraction of one key: seen from it, every call is a run of the
single-flow machine on what the call means for the key. -/
theorem call_project (t : FlowTable σ) (c : Call) (h : Keyed t.flows) (key : FlowKey) :
    (lifeMachine cfg key).final (t.flows.lookup key) (lifeInputs cfg key t c)=
        ((tableMachine cfg onEvent).step t c).1.flows.lookup key ∧
      (lifeMachine cfg key).trace (t.flows.lookup key) (lifeInputs cfg key t c)=
        ((tableMachine cfg onEvent).step t c).2.filterMap (lifeView key) := by
  cases c with
  | process pkt => exact process_project cfg onEvent pkt t h key
  | timerSweep nowUs order =>
    rw [step_timerSweep,timerSweep_lookup,timerSweep_view cfg onEvent nowUs order h]
    simp only [lifeInputs,Machine.final_cons,Machine.final_nil,Machine.trace_cons,
      Machine.trace_nil,List.append_nil,lifeMachine]
    cases t.flows.lookup key with
    | none => exact ⟨rfl,rfl⟩
    | some state =>
      simp only [Option.filter_some,lifeStep,keptStats]
      cases idleDue cfg nowUs state <;> cases heartbeatDue cfg nowUs t.lastHeartbeatUs <;>
        exact ⟨rfl,rfl⟩
  | drainAll nowUs order =>
    have hvisit := visits_order order t.flows
    rw [step_drainAll,drainAll_lookup,drainAll,
      drainLoop_view onEvent nowUs hvisit.nodup (hvisit.keyed h),
      hvisit.lookup]
    cases t.flows.lookup key <;> exact ⟨rfl,rfl⟩

/-- Every table reached from a keyed one is keyed. -/
theorem run_keyed (t : FlowTable σ) (h : Keyed t.flows) (calls : List Call) :
    Keyed ((tableMachine cfg onEvent).final t calls).flows :=
  Machine.final_invariant (tableMachine cfg onEvent) (call_keyed cfg onEvent) h calls

/-- The refinement for whole runs: the entry of a key and everything observed
of it come from the single-flow machine, fed with what each call means. -/
theorem run_project (t : FlowTable σ) (h : Keyed t.flows) (calls : List Call) (key : FlowKey) :
    (lifeMachine cfg key).final (t.flows.lookup key)
          ((tableMachine cfg onEvent).feed (lifeInputs cfg key) t calls)=
        ((tableMachine cfg onEvent).final t calls).flows.lookup key ∧
      (lifeMachine cfg key).trace (t.flows.lookup key)
          ((tableMachine cfg onEvent).feed (lifeInputs cfg key) t calls)=
        ((tableMachine cfg onEvent).trace t calls).filterMap (lifeView key) :=
  Machine.run_project (tableMachine cfg onEvent) (lifeMachine cfg key)
    (call_keyed cfg onEvent) (fun u c hu => call_project cfg onEvent u c hu key) h calls

/-- What every input of the single-flow machine keeps of an entry and of what
the key has seen holds for every key of a reachable table. -/
theorem run_history {P : Option FlowState → List LifeObservation → Prop} (key : FlowKey)
    (hstep : ∀ entry seen input,P entry seen →
      P (lifeStep cfg key entry input).1 (seen++(lifeStep cfg key entry input).2))
    (hempty : P none []) (sink : σ) (calls : List Call) :
    P ((tableAfter cfg onEvent sink calls).flows.lookup key)
      ((tableTrace cfg onEvent sink calls).filterMap (lifeView key)) := by
  obtain ⟨hfinal,htrace⟩ :=
    run_project cfg onEvent (FlowTable.initial sink) keyed_empty calls key
  have hrun := Machine.history_invariant (lifeMachine cfg key) hstep hempty
    ((tableMachine cfg onEvent).feed (lifeInputs cfg key) (.initial sink) calls)
  rw [show (FlowTable.initial sink).flows.lookup key=none from rfl] at hfinal htrace
  rwa [hfinal,htrace,List.nil_append] at hrun

end Refinement

end PacketPipe.FlowLifetimes

import Mathlib.Data.List.Perm.Basic
import PacketPipe.FlowAccounting

/-!
# All entries of the table together

Besides what a call means for one key, the entries as a whole: which of them
a call adds, replaces or removes, and which states its End events carry. A
sweep splits the entries into those it ends and those it keeps; a drain ends
all of them.
-/

namespace PacketPipe.FlowTableEntries

open FlowEvents ConfigParserModel ObservedMachines FlowTableModel FlowLifetimes FlowAccounting

section Entries

/-- A stored state together with the other entries. -/
theorem entries_at {flows : FlowMap} {key : FlowKey} {state : FlowState}
    (h : flows.lookup key=some state) :
    flows.entries.Perm (⟨key,state⟩::(flows.erase key).entries) := by
  have hmem : key∈flows.entries.keys := AList.lookup_isSome.mp (Option.isSome_of_eq_some h)
  obtain ⟨other,front,back,hfresh,hentries,herase⟩ := List.exists_of_kerase hmem
  have hfound : flows.entries.dlookup key=some state := h
  rw [hentries,List.dlookup_append,List.dlookup_eq_none.mpr hfresh,Option.none_or,
    List.dlookup_cons_eq] at hfound
  cases hfound
  change flows.entries.Perm (⟨key,state⟩::flows.entries.kerase key)
  rw [herase,hentries]
  exact List.perm_middle

/-- A state stored under its key replaces the earlier one. -/
theorem entries_insert_perm (flows : FlowMap) (key : FlowKey) (state : FlowState) :
    (flows.insert key state).entries=⟨key,state⟩::(flows.erase key).entries := rfl

/-- A new key is added in front. -/
theorem entries_insert_new {flows : FlowMap} {key : FlowKey} (h : flows.lookup key=none)
    (state : FlowState) : (flows.insert key state).entries=⟨key,state⟩::flows.entries :=
  AList.entries_insert_of_notMem (AList.lookup_eq_none.mp h)

/-- A state just stored and erased again leaves the other entries. -/
theorem entries_insert_erase (flows : FlowMap) (key : FlowKey) (state : FlowState) :
    ((flows.insert key state).erase key).entries=(flows.erase key).entries := by
  change (List.kinsert key state flows.entries).kerase key=flows.entries.kerase key
  have hfirst : key=(⟨key,state⟩ : FlowEntry).1 := rfl
  rw [List.kinsert_def,List.kerase_cons_eq hfirst]

end Entries

section Sweeps

variable {σ : Type} (cfg : AppConfig) (onEvent : EventCallback σ) (nowUs : Int64)

/-- Only End events are records. -/
theorem emit_records (evt : FlowEvent) (t : FlowTable σ) :
    flowRecords (emit onEvent evt t).2=if evt.type=.flowEnd then [evt.state] else [] := by
  rw [emit_trace,flowRecords,List.filterMap_cons,List.filterMap_nil,endedState]
  by_cases h : evt.type=.flowEnd
  · rw [if_pos h,if_pos h]
  · rw [if_neg h,if_neg h]

/-- Heartbeats are no records. -/
theorem sweepScan_records (emitStats : Bool) (entries : List FlowEntry) (t : FlowTable σ) :
    flowRecords (sweepScan cfg onEvent nowUs emitStats entries t).2.2=[] := by
  induction entries generalizing t with
  | nil => rfl
  | cons entry rest ih =>
    unfold sweepScan
    dsimp only
    split
    · exact ih t
    · split
      · have hstats := emit_records onEvent (statsEvent entry.2 nowUs) t
        rw [statsEvent_type,if_neg (by decide)] at hstats
        rw [flowRecords_append,hstats]
        exact ih _
      · exact ih t

/-- Expiring one flow changes nothing for the other keys. -/
theorem expireFlow_others {own : FlowKey} {rest : List FlowKey} (hfresh : own∉rest)
    (state : FlowState) (t : FlowTable σ) :
    (rest.filterMap fun key =>
        (expireFlow onEvent own state nowUs .idleTimeout t).1.flows.lookup key)=
      rest.filterMap fun key => t.flows.lookup key := by
  refine List.filterMap_congr fun key hkey => ?_
  have hne : key≠own := fun h => hfresh (h ▸ hkey)
  rw [expireFlow_flows,AList.lookup_erase_ne hne]

/-- The second loop ends the collected flows that are still stored. -/
theorem expireAll_records {keys : List FlowKey} (hnd : keys.Nodup) (t : FlowTable σ) :
    flowRecords (expireAll onEvent nowUs keys t).2=
      keys.filterMap fun key => t.flows.lookup key := by
  induction keys generalizing t with
  | nil => rfl
  | cons own rest ih =>
    obtain ⟨hfresh,hnd⟩ := List.nodup_cons.mp hnd
    unfold expireAll
    rw [List.filterMap_cons]
    split
    · next state hfound =>
      have hend := emit_records onEvent (endEvent state nowUs .idleTimeout) t
      rw [endEvent_type,if_pos rfl] at hend
      rw [hfound]
      dsimp only
      rw [flowRecords_append,expireFlow_trace,hend,ih hnd,expireFlow_others onEvent nowUs hfresh]
      rfl
    · next hnone =>
      rw [hnone]
      exact ih hnd t

/-- A sweep ends the idle flows, in visiting order. -/
theorem timerSweep_records (order : MapOrder) (t : FlowTable σ) :
    flowRecords (timerSweep cfg onEvent nowUs order t).2=
      ((order.visit t.flows).filter fun e => idleDue cfg nowUs e.2).map Sigma.snd := by
  have hvisit := visits_order order t.flows
  have hfound : ∀ e∈(order.visit t.flows).filter fun e => idleDue cfg nowUs e.2,
      t.flows.lookup e.1=some e.2 := fun e he => hvisit.mem (List.mem_filter.mp he).1
  unfold timerSweep
  dsimp only
  rw [flowRecords_append,sweepScan_records,List.nil_append,sweepScan_keys,
    expireAll_records onEvent nowUs (hvisit.nodup_selected _),sweepScan_flows,
    List.filterMap_map,←List.filterMap_eq_map]
  exact List.filterMap_congr hfound

/-- In whatever order, these are the idle flows of the table. -/
theorem timerSweep_ended (order : MapOrder) (t : FlowTable σ) :
    (flowRecords (timerSweep cfg onEvent nowUs order t).2).Perm
      ((t.flows.entries.filter fun e => idleDue cfg nowUs e.2).map Sigma.snd) := by
  rw [timerSweep_records]
  exact ((order.visit_perm t.flows).filter _).map Sigma.snd

/-- A sweep keeps the other flows as they are. -/
theorem timerSweep_entries (order : MapOrder) (t : FlowTable σ) :
    (timerSweep cfg onEvent nowUs order t).1.flows.entries.Perm
      (t.flows.entries.filter fun e => !idleDue cfg nowUs e.2) := by
  have hkept : (t.flows.entries.filter fun e => !idleDue cfg nowUs e.2).NodupKeys :=
    List.NodupKeys.sublist List.filter_sublist t.flows.nodupKeys
  refine List.lookup_ext (AList.nodupKeys _) hkept fun key state => ?_
  change (timerSweep cfg onEvent nowUs order t).1.flows.lookup key=some state ↔ _
  rw [timerSweep_lookup,Option.filter_eq_some_iff,List.mem_dlookup_iff hkept,List.mem_filter,
    ←List.mem_dlookup_iff t.flows.nodupKeys]
  exact Iff.rfl

/-- The loop of a drain ends every visited flow. -/
theorem drainLoop_records (entries : List FlowEntry) (t : FlowTable σ) :
    flowRecords (drainLoop onEvent nowUs entries t).2=entries.map Sigma.snd := by
  induction entries generalizing t with
  | nil => rfl
  | cons entry rest ih =>
    have hend := emit_records onEvent (endEvent entry.2 nowUs .idleTimeout) t
    rw [endEvent_type,if_pos rfl] at hend
    unfold drainLoop
    dsimp only
    rw [flowRecords_append,hend,ih,List.map_cons]
    rfl

/-- A drain ends every flow of the table. -/
theorem drainAll_records (order : MapOrder) (t : FlowTable σ) :
    (flowRecords (drainAll onEvent nowUs order t).2).Perm (t.flows.entries.map Sigma.snd) := by
  rw [drainAll,drainLoop_records]
  exact (order.visit_perm t.flows).map Sigma.snd

end Sweeps

end PacketPipe.FlowTableEntries

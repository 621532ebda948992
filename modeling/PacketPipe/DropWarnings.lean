import PacketPipe.FlowTableMetrics
import PacketPipe.SignedWords

/-!
# One warning for a thousand drops

`drop_count_` is an `int` that only grows. While it is the number of packets
dropped at the limit, the remainder in `process` picks the drops 1, 1001, 2001
and so on. The increment for drop 2^31 overflows, and nothing resets the
counter before.
-/

namespace PacketPipe.DropWarnings

open FlowEvents ConfigParserModel ObservedMachines FlowTableModel FlowLifetimes FlowTableMetrics
open SignedWords

section Calls

variable {σ : Type} (cfg : AppConfig) (onEvent : EventCallback σ)

/-- The call is a packet of an unknown flow that meets a full table. -/
def meetsFullTable (t : FlowTable σ) : Call → Bool
  | .process pkt => refuses cfg pkt t
  | .timerSweep _ _ => false
  | .drainAll _ _ => false

/-- Number of such packets among the calls. -/
def overLimit : FlowTable σ → List Call → ℕ
  | _,[] => 0
  | t,c::rest =>
    (meetsFullTable cfg t c).toNat+overLimit ((tableMachine cfg onEvent).step t c).1 rest

/-- A packet moves `drop_count_` exactly when it is refused. -/
theorem process_dropCount (pkt : ParsedPacket) (t : FlowTable σ) :
    (process cfg onEvent pkt t).1.dropCount=
      if refuses cfg pkt t=true then t.dropCount+1 else t.dropCount := by
  unfold process refuses
  dsimp only
  cases hlookup : t.flows.lookup (keyFromPacket pkt) with
  | none =>
    cases hfull : tableFull cfg t.flows with
    | true => rfl
    | false =>
      simp only [Option.isNone_none,Bool.and_false,Bool.false_eq_true,if_false]
      exact (emit_same onEvent _ _).drops
  | some state =>
    simp only [Option.isNone_some,Bool.false_and,Bool.false_eq_true,if_false]
    split
    · exact (expireFlow_same onEvent _ _ _ _ _).drops
    · rfl

/-- A call moves `drop_count_` by the packet it drops. -/
theorem call_dropCount (t : FlowTable σ) (c : Call) :
    ((tableMachine cfg onEvent).step t c).1.dropCount=
      t.dropCount+Int32.ofNat (meetsFullTable cfg t c).toNat := by
  cases c with
  | process pkt =>
    rw [step_process,process_dropCount,meetsFullTable]
    cases refuses cfg pkt t with
    | true => rfl
    | false => exact (Int32.add_zero _).symm
  | timerSweep nowUs order =>
    have hsame : (timerSweep cfg onEvent nowUs order t).1.dropCount=t.dropCount :=
      ((sweepScan_same cfg onEvent nowUs _ _ t).trans (expireAll_same onEvent nowUs _ _)).drops
    exact hsame.trans (Int32.add_zero _).symm
  | drainAll nowUs order =>
    have hsame := drainLoop_same onEvent nowUs (order.visit t.flows) t
    exact hsame.drops.trans (Int32.add_zero _).symm

/-- What is seen of a drop, and that nothing else is one. -/
theorem call_dropped {t : FlowTable σ} {c : Call} {pkt : ParsedPacket} {warned : Bool}
    (h : .dropped pkt warned∈((tableMachine cfg onEvent).step t c).2) :
    meetsFullTable cfg t c=true ∧ warned=decide ((t.dropCount+1)%1000=1) := by
  cases c with
  | process other =>
    have heffect := process_effect cfg onEvent other t
    rw [step_process] at h
    generalize (process cfg onEvent other t).1.flows=flows,
      (process cfg onEvent other t).2=seen at heffect h
    cases heffect with
    | refused hrefuses hlookup =>
      cases List.mem_singleton.mp h
      exact ⟨hrefuses,rfl⟩
    | opened => simp at h
    | updated => simp at h
    | closed => simp at h
  | timerSweep nowUs order => cases timerSweep_upkeep cfg onEvent nowUs order t _ h
  | drainAll nowUs order => cases drainLoop_upkeep onEvent nowUs (order.visit t.flows) t _ h

/-- A call drops the packet that meets a full table, and no other. -/
theorem call_drops (t : FlowTable σ) (c : Call) :
    ((tableMachine cfg onEvent).step t c).2.countP isDrop=(meetsFullTable cfg t c).toNat := by
  cases c with
  | process pkt =>
    have heffect := process_effect cfg onEvent pkt t
    rw [step_process,meetsFullTable]
    generalize (process cfg onEvent pkt t).1.flows=flows,
      (process cfg onEvent pkt t).2=seen at heffect ⊢
    cases heffect with
    | refused hrefuses hlookup =>
      rw [hrefuses]
      rfl
    | opened hrefuses =>
      rw [hrefuses]
      rfl
    | updated state hrefuses =>
      rw [hrefuses]
      rfl
    | closed state hrefuses =>
      rw [hrefuses]
      rfl
  | timerSweep nowUs order =>
    refine List.countP_eq_zero.mpr fun o ho => ?_
    cases timerSweep_upkeep cfg onEvent nowUs order t o ho <;> exact Bool.false_ne_true
  | drainAll nowUs order =>
    refine List.countP_eq_zero.mpr fun o ho => ?_
    cases drainLoop_upkeep onEvent nowUs (order.visit t.flows) t o ho <;>
      exact Bool.false_ne_true

/-- The drops of a run are the packets that meet a full table. -/
theorem run_drops (t : FlowTable σ) (calls : List Call) :
    ((tableMachine cfg onEvent).trace t calls).countP isDrop=overLimit cfg onEvent t calls := by
  induction calls generalizing t with
  | nil => rfl
  | cons c rest ih => rw [Machine.trace_cons,List.countP_append,call_drops,ih,overLimit]

/-- `drop_count_` is their number, as far as an `int` can hold it. -/
theorem run_dropCount (t : FlowTable σ) (calls : List Call) :
    ((tableMachine cfg onEvent).final t calls).dropCount=
      t.dropCount+Int32.ofNat (overLimit cfg onEvent t calls) := by
  induction calls generalizing t with
  | nil => exact (Int32.add_zero _).symm
  | cons c rest ih =>
    rw [Machine.final_cons,ih,call_dropCount,overLimit,Int32.ofNat_add,Int32.add_assoc]

/-- The calls of a run add up. -/
theorem overLimit_append (t : FlowTable σ) (front back : List Call) :
    overLimit cfg onEvent t (front++back)=overLimit cfg onEvent t front+
      overLimit cfg onEvent ((tableMachine cfg onEvent).final t front) back := by
  rw [←run_drops,←run_drops,←run_drops,Machine.trace_append,List.countP_append]

/-- Below 2^31 drops the remainder of the counter is that of the drop. -/
theorem remainder_exact {n : ℕ} (h : n+1<2^31) :
    (Int32.ofNat n+1)%1000=1 ↔ (n+1)%1000=1 := by
  have hnext : Int32.ofNat n+1=Int32.ofNat (n+1) := (Int32.ofNat_add n 1).symm
  have hthousand : (1000 : Int32).toInt=1000 := rfl
  have hone : (1 : Int32).toInt=1 := rfl
  rw [hnext,←Int32.toInt_inj,Int32.toInt_mod,int32_ofNat_iff.mpr h,hthousand,hone,
    Int.tmod_eq_emod_of_nonneg (Int.natCast_nonneg _)]
  omega

/-- The drops so far, the next one being the `n`-th: warnings come at
n = 1, 1001, 2001, ..., and the counter never overflows. -/
structure WarnsPerThousand (sink : σ) (calls : List Call) : Prop where
  /-- The `n`-th drop is logged exactly for these `n`. -/
  warned : ∀ front c,front++[c]<+:calls → ∀ pkt warned,
    .dropped pkt warned∈
        ((tableMachine cfg onEvent).step (tableAfter cfg onEvent sink front) c).2 →
      (warned=true ↔ ((tableTrace cfg onEvent sink front).countP isDrop+1)%1000=1)
  /-- Each increment of `drop_count_` fits an `int`. -/
  counter : ∀ front c,front++[c]<+:calls →
    meetsFullTable cfg (tableAfter cfg onEvent sink front) c=true →
      Fits 32 ((tableAfter cfg onEvent sink front).dropCount.toInt+1)

/-- The counter of a run on a new table. -/
theorem table_dropCount (sink : σ) (calls : List Call) :
    (tableAfter cfg onEvent sink calls).dropCount=
      Int32.ofNat (overLimit cfg onEvent (.initial sink) calls) := by
  rw [tableAfter,run_dropCount]
  exact Int32.zero_add _

/-- A packet that meets a full table adds one to those of its run. -/
theorem overLimit_concat (sink : σ) (front : List Call) (c : Call) :
    overLimit cfg onEvent (.initial sink) (front++[c])=
      overLimit cfg onEvent (.initial sink) front+
        (meetsFullTable cfg (tableAfter cfg onEvent sink front) c).toNat := by
  rw [overLimit_append]
  exact congrArg _ (Nat.add_zero _)

/-- A beginning of a run has no more of them. -/
theorem overLimit_prefix (sink : σ) {front calls : List Call} (h : front<+:calls) :
    overLimit cfg onEvent (.initial sink) front≤overLimit cfg onEvent (.initial sink) calls := by
  obtain ⟨back,rfl⟩ := h
  rw [overLimit_append]
  exact Nat.le_add_right _ _

/-- While the counter does not overflow there are fewer than 2^31 drops. -/
theorem counter_bounds (sink : σ) {calls : List Call}
    (h : ∀ front c,front++[c]<+:calls →
      meetsFullTable cfg (tableAfter cfg onEvent sink front) c=true →
        Fits 32 ((tableAfter cfg onEvent sink front).dropCount.toInt+1)) :
    overLimit cfg onEvent (.initial sink) calls<2^31 := by
  induction calls using List.reverseRecOn with
  | nil => exact Nat.two_pow_pos 31
  | append_singleton front c ih =>
    have hbefore := ih fun before other hbegin =>
      h before other (hbegin.trans (List.prefix_append front [c]))
    rw [overLimit_concat]
    cases hfull : meetsFullTable cfg (tableAfter cfg onEvent sink front) c with
    | false => exact hbefore
    | true =>
      have hfits := h front c (List.prefix_refl _) hfull
      rw [table_dropCount,int32_ofNat_iff.mpr hbefore,fits_32] at hfits
      change overLimit cfg onEvent (.initial sink) front+1<2^31
      omega

/-- For every run, of any length: the warnings come once per thousand drops
and the counter does not overflow exactly when fewer than 2^31 packets of
unknown flows meet a full table. -/
theorem warnings_iff (sink : σ) (calls : List Call) :
    WarnsPerThousand cfg onEvent sink calls ↔
      overLimit cfg onEvent (.initial sink) calls<2^31 := by
  constructor
  · intro h
    exact counter_bounds cfg onEvent sink h.counter
  · intro h
    have hnext : ∀ front c,front++[c]<+:calls →
        meetsFullTable cfg (tableAfter cfg onEvent sink front) c=true →
          overLimit cfg onEvent (.initial sink) front+1<2^31 := by
      intro front c hfront hfull
      have hbound := overLimit_prefix cfg onEvent sink hfront
      rw [overLimit_concat,hfull] at hbound
      change overLimit cfg onEvent (.initial sink) front+1≤_ at hbound
      omega
    constructor
    · intro front c hfront pkt warned hdropped
      obtain ⟨hfull,rfl⟩ := call_dropped cfg onEvent hdropped
      rw [decide_eq_true_iff,table_dropCount,remainder_exact (hnext front c hfront hfull),
        tableTrace,run_drops]
    · intro front c hfront hfull
      have hless := hnext front c hfront hfull
      rw [table_dropCount,int32_ofNat_iff.mpr (by omega),fits_32]
      omega

end Calls

/-- A packet of a flow of its own and `n` packets of another one. -/
def flood (n : ℕ) : List Call :=
  .process {srcPort := 1}::List.replicate n (.process {srcPort := 2})

section Flood

variable {σ : Type} (cfg : AppConfig) (onEvent : EventCallback σ)

/-- A refused packet leaves the entries alone and is refused again. -/
theorem refuses_again {pkt : ParsedPacket} {t : FlowTable σ} (h : refuses cfg pkt t=true) :
    refuses cfg pkt (process cfg onEvent pkt t).1=true := by
  have hsame : (process cfg onEvent pkt t).1.flows=t.flows := by
    have heffect := process_effect cfg onEvent pkt t
    generalize (process cfg onEvent pkt t).1.flows=flows,
      (process cfg onEvent pkt t).2=seen at heffect ⊢
    cases heffect with
    | refused => rfl
    | opened hrefuses => exact absurd (h.symm.trans hrefuses) (by decide)
    | updated state hrefuses => exact absurd (h.symm.trans hrefuses) (by decide)
    | closed state hrefuses => exact absurd (h.symm.trans hrefuses) (by decide)
  rw [refuses,hsame]
  exact h

/-- So all of its repetitions meet a full table. -/
theorem overLimit_replicate {pkt : ParsedPacket} {t : FlowTable σ} (h : refuses cfg pkt t=true)
    (n : ℕ) : overLimit cfg onEvent t (List.replicate n (.process pkt))=n := by
  induction n generalizing t with
  | zero => rfl
  | succ n ih =>
    have hagain := refuses_again cfg onEvent h
    rw [List.replicate_succ,overLimit,meetsFullTable,h,step_process,ih hagain]
    exact Nat.add_comm 1 n

end Flood

/-- With room for one flow the whole flood is dropped. -/
theorem flood_overLimit (n : ℕ) :
    overLimit {maxFlows := 1} (fun _ s => (true,s)) (.initial ()) (flood n)=n := by
  rw [flood,overLimit,overLimit_replicate {maxFlows := 1} (fun _ s => (true,s)) (by decide)]
  exact Nat.zero_add n

/-- The flood of 2^31 packets overflows the counter. -/
theorem flood_overflows :
    ¬WarnsPerThousand {maxFlows := 1} (fun _ s => (true,s)) () (flood (2^31)) := by
  intro h
  have hbound := counter_bounds _ _ _ h.counter
  rw [flood_overLimit] at hbound
  exact Nat.lt_irrefl _ hbound

end PacketPipe.DropWarnings

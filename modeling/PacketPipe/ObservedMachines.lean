import Mathlib.Data.List.Basic

/-!
# Deterministic machines with an observable trace

A machine consumes one input at a time and reports what an observer sees of
the step. Runs thread the state and concatenate the reports. Three induction
rules are packaged once: invariants of the state, invariants that also see
the whole earlier trace, and projection of a run onto a smaller machine.
A specification is a relation that says which observation may take which
abstract state to which; `Machine.run_refines` lifts a one-step simulation
to every run. `Preceded` says of a history what came before its observations.
-/

namespace PacketPipe.ObservedMachines

universe u v w

/-- Step function with the observations that the step makes, in order. -/
structure Machine (σ : Type u) (ι : Type v) (ο : Type w) where
  /-- Successor state and what the observer sees of the step. -/
  step : σ → ι → σ × List ο

section Runs

variable {σ : Type u} {ι : Type v} {ο : Type w} (m : Machine σ ι ο)

/-- Consume the inputs from left to right, collecting every observation. -/
def Machine.run : σ → List ι → σ × List ο
  | s,[] => (s,[])
  | s,i::is =>
    let head := m.step s i
    let tail := Machine.run head.1 is
    (tail.1,head.2++tail.2)

/-- State reached after the inputs. -/
def Machine.final (s : σ) (is : List ι) : σ := (m.run s is).1

/-- Everything observed while consuming the inputs. -/
def Machine.trace (s : σ) (is : List ι) : List ο := (m.run s is).2

@[simp] theorem Machine.final_nil (s : σ) : m.final s []=s := rfl

@[simp] theorem Machine.trace_nil (s : σ) : m.trace s []=[] := rfl

@[simp] theorem Machine.final_cons (s : σ) (i : ι) (is : List ι) :
    m.final s (i::is)=m.final (m.step s i).1 is := rfl

@[simp] theorem Machine.trace_cons (s : σ) (i : ι) (is : List ι) :
    m.trace s (i::is)=(m.step s i).2++m.trace (m.step s i).1 is := rfl

/-- A run over a concatenation continues from the state of the first part. -/
theorem Machine.final_append (s : σ) (is js : List ι) :
    m.final s (is++js)=m.final (m.final s is) js := by
  induction is generalizing s with
  | nil => rfl
  | cons i is ih => exact ih (m.step s i).1

/-- The trace of a concatenation is the concatenation of the traces. -/
theorem Machine.trace_append (s : σ) (is js : List ι) :
    m.trace s (is++js)=m.trace s is++m.trace (m.final s is) js := by
  induction is generalizing s with
  | nil => rfl
  | cons i is ih =>
    simp only [List.cons_append,trace_cons,final_cons,ih,List.append_assoc]

/-- One more input at the end of a run. -/
theorem Machine.final_concat (s : σ) (is : List ι) (i : ι) :
    m.final s (is++[i])=(m.step (m.final s is) i).1 := by
  rw [m.final_append]
  rfl

/-- What one more input at the end of a run shows. -/
theorem Machine.trace_concat (s : σ) (is : List ι) (i : ι) :
    m.trace s (is++[i])=m.trace s is++(m.step (m.final s is) i).2 := by
  rw [m.trace_append,trace_cons,trace_nil,List.append_nil]

/-- A state property kept by every step is kept by every run. -/
theorem Machine.final_invariant {P : σ → Prop}
    (hstep : ∀ s i,P s → P (m.step s i).1) {s : σ} (hs : P s) (is : List ι) :
    P (m.final s is) := by
  induction is generalizing s with
  | nil => exact hs
  | cons i is ih => exact ih (hstep s i hs)

/-- Every step of a run meets a condition on its state and its input. -/
def Machine.Along (C : σ → ι → Prop) : σ → List ι → Prop
  | _,[] => True
  | s,i::is => C s i ∧ Machine.Along C (m.step s i).1 is

/-- A condition on the inputs alone holds at every step when all of them meet it. -/
theorem Machine.along_inputs {C : ι → Prop} (s : σ) {is : List ι} (h : ∀ i∈is,C i) :
    m.Along (fun _ i => C i) s is := by
  induction is generalizing s with
  | nil => trivial
  | cons i is ih =>
    obtain ⟨hfirst,hrest⟩ := List.forall_mem_cons.mp h
    exact ⟨hfirst,ih (m.step s i).1 hrest⟩

/-- A run can be checked step by step. -/
instance Machine.decidableAlong (C : σ → ι → Prop) [∀ s i,Decidable (C s i)] :
    ∀ s is,Decidable (m.Along C s is)
  | _,[] => .isTrue trivial
  | s,i::is => @instDecidableAnd _ _ _ (Machine.decidableAlong C (m.step s i).1 is)

/-- The steps of a run are the inputs that follow its prefixes. -/
theorem Machine.along_iff {C : σ → ι → Prop} {s : σ} {is : List ι} :
    m.Along C s is ↔ ∀ front i,front++[i]<+:is → C (m.final s front) i := by
  induction is generalizing s with
  | nil =>
    constructor
    · intro _ front i hfront
      exact absurd (List.prefix_nil.mp hfront) (List.append_ne_nil_of_right_ne_nil _ (by simp))
    · intro _
      trivial
  | cons j js ih =>
    rw [Along,ih]
    constructor
    · rintro ⟨hfirst,hrest⟩ front i hfront
      cases front with
      | nil =>
        obtain ⟨rfl,_⟩ := List.cons_prefix_cons.mp hfront
        exact hfirst
      | cons k front =>
        obtain ⟨rfl,htail⟩ := List.cons_prefix_cons.mp hfront
        exact hrest front i htail
    · intro h
      constructor
      · exact h [] j (List.cons_prefix_cons.mpr ⟨rfl,List.nil_prefix⟩)
      · intro front i hfront
        exact h (j::front) i (List.cons_prefix_cons.mpr ⟨rfl,hfront⟩)

/-- A condition on the steps of a run holds of the steps of its prefixes. -/
theorem Machine.Along.before {C : σ → ι → Prop} {s : σ} {front is : List ι}
    (h : m.Along C s is) (hfront : front<+:is) : m.Along C s front :=
  m.along_iff.mpr fun before i hbefore => m.along_iff.mp h before i (hbefore.trans hfront)

/-- And of the steps after them. -/
theorem Machine.Along.after {C : σ → ι → Prop} {s : σ} {front back : List ι}
    (h : m.Along C s (front++back)) : m.Along C (m.final s front) back := by
  induction front generalizing s with
  | nil => exact h
  | cons i front ih => exact ih h.2

/-- Every step of a run meets a condition on its state, its input and the
inputs that follow. -/
def Machine.AlongRest (C : σ → ι → List ι → Prop) : σ → List ι → Prop
  | _,[] => True
  | s,i::is => C s i is ∧ Machine.AlongRest C (m.step s i).1 is

/-- Such a run can be checked step by step. -/
instance Machine.decidableAlongRest (C : σ → ι → List ι → Prop) [∀ s i is,Decidable (C s i is)] :
    ∀ s is,Decidable (m.AlongRest C s is)
  | _,[] => .isTrue trivial
  | s,i::is => @instDecidableAnd _ _ _ (Machine.decidableAlongRest C (m.step s i).1 is)

/-- A property of the state together with the whole earlier trace, kept by
every step that meets a condition, is kept by every run of such steps. -/
theorem Machine.guarded_invariant {P : σ → List ο → Prop} {C : σ → ι → Prop}
    (hstep : ∀ s h i,C s i → P s h → P (m.step s i).1 (h++(m.step s i).2))
    {s : σ} {h : List ο} (hs : P s h) {is : List ι} (hC : m.Along C s is) :
    P (m.final s is) (h++m.trace s is) := by
  induction is generalizing s h with
  | nil => simpa only [final_nil,trace_nil,List.append_nil] using hs
  | cons i is ih =>
    obtain ⟨hfirst,hrest⟩ := hC
    have hnext := ih (hstep s h i hfirst hs) hrest
    rwa [List.append_assoc] at hnext

/-- A property of the state together with the whole earlier trace, kept by
every step, is kept by every run. -/
theorem Machine.history_invariant {P : σ → List ο → Prop}
    (hstep : ∀ s h i,P s h → P (m.step s i).1 (h++(m.step s i).2))
    {s : σ} {h : List ο} (hs : P s h) (is : List ι) :
    P (m.final s is) (h++m.trace s is) := by
  induction is generalizing s h with
  | nil => simpa only [final_nil,trace_nil,List.append_nil] using hs
  | cons i is ih =>
    have hnext := ih (hstep s h i hs)
    rwa [List.append_assoc] at hnext

end Runs

section Projection

variable {σ τ : Type u} {ι κ : Type v} {ο π : Type w}
variable (m : Machine σ ι ο) (n : Machine τ κ π)

/-- The inputs that a smaller machine receives along a run. -/
def Machine.feed (inputs : σ → ι → List κ) : σ → List ι → List κ
  | _,[] => []
  | s,i::is => inputs s i++Machine.feed inputs (m.step s i).1 is

/-- When every step from a good state looks, through `abs` and `view`, like
a run of the smaller machine on `inputs`, so does every run. -/
theorem Machine.run_project {P : σ → Prop} {abs : σ → τ} {view : ο → Option π}
    {inputs : σ → ι → List κ} (hP : ∀ s i,P s → P (m.step s i).1)
    (hstep : ∀ s i,P s →
      n.final (abs s) (inputs s i)=abs (m.step s i).1 ∧
        n.trace (abs s) (inputs s i)=(m.step s i).2.filterMap view)
    {s : σ} (hs : P s) (is : List ι) :
    n.final (abs s) (m.feed inputs s is)=abs (m.final s is) ∧
      n.trace (abs s) (m.feed inputs s is)=(m.trace s is).filterMap view := by
  induction is generalizing s with
  | nil => exact ⟨rfl,rfl⟩
  | cons i is ih =>
    obtain ⟨hfinal,htrace⟩ := hstep s i hs
    obtain ⟨ihfinal,ihtrace⟩ := ih (hP s i hs)
    constructor
    · rw [feed,n.final_append,hfinal,ihfinal,final_cons]
    · rw [feed,n.trace_append,hfinal,htrace,ihtrace,trace_cons,List.filterMap_append]

end Projection

section Specifications

variable {σ : Type u} {ι : Type v} {ο : Type w} {α : Type u}

/-- Runs of a specification: a sequence of observations it allows. -/
inductive Allows (spec : α → ο → α → Prop) : α → List ο → α → Prop
  /-- Nothing observed, nothing changed. -/
  | nil (a : α) : Allows spec a [] a
  /-- One allowed observation, then an allowed run. -/
  | cons {a b c : α} {o : ο} {os : List ο} :
      spec a o b → Allows spec b os c → Allows spec a (o::os) c

/-- Allowed runs compose. -/
theorem Allows.append {spec : α → ο → α → Prop} {a b c : α} {os ps : List ο}
    (hab : Allows spec a os b) (hbc : Allows spec b ps c) : Allows spec a (os++ps) c := by
  induction hab with
  | nil a => exact hbc
  | cons hstep _ ih => exact Allows.cons hstep (ih hbc)

/-- A single allowed observation is an allowed run. -/
theorem Allows.single {spec : α → ο → α → Prop} {a b : α} {o : ο} (h : spec a o b) :
    Allows spec a [o] b := Allows.cons h (Allows.nil b)

/-- A forward simulation: every step from related states makes observations
that the specification allows, ending in related states. Then every run of
the machine is allowed. -/
theorem Machine.run_refines (m : Machine σ ι ο) {spec : α → ο → α → Prop} {R : σ → α → Prop}
    (hstep : ∀ s a i,R s a → ∃ b,Allows spec a (m.step s i).2 b ∧ R (m.step s i).1 b)
    {s : σ} {a : α} (hs : R s a) (is : List ι) :
    ∃ b,Allows spec a (m.trace s is) b ∧ R (m.final s is) b := by
  induction is generalizing s a with
  | nil => exact ⟨a,Allows.nil a,hs⟩
  | cons i is ih =>
    obtain ⟨b,hab,hb⟩ := hstep s a i hs
    obtain ⟨c,hbc,hc⟩ := ih hb
    exact ⟨c,hab.append hbc,hc⟩

end Specifications

section Histories

variable {ο : Type w}

/-- Whenever something is observed, what was observed before meets a condition. -/
def Preceded (C : List ο → ο → Prop) (seen : List ο) : Prop :=
  ∀ front o back,seen=front++o::back → C front o

/-- Nothing is observed in the beginning. -/
theorem preceded_nil (C : List ο → ο → Prop) : Preceded C [] := by
  intro front o back hsplit
  cases front <;> cases hsplit

/-- More observations that meet it, each behind all that is seen before it. -/
theorem Preceded.append {C : List ο → ο → Prop} {seen made : List ο} (h : Preceded C seen)
    (hmade : ∀ front o back,made=front++o::back → C (seen++front) o) :
    Preceded C (seen++made) := by
  intro front o back hsplit
  rcases List.append_eq_append_iff.mp hsplit with ⟨middle,rfl,hrest⟩ | ⟨middle,hfront,hrest⟩
  · exact hmade middle o back hrest
  · cases middle with
    | nil =>
      rw [List.append_nil] at hfront
      subst hfront
      have hfirst := hmade [] o back hrest.symm
      rwa [List.append_nil] at hfirst
    | cons other middle =>
      obtain ⟨rfl,hback⟩ := List.cons.inj hrest
      exact h front o middle hfront

/-- One more observation that meets it. -/
theorem Preceded.concat {C : List ο → ο → Prop} {seen : List ο} {o : ο} (h : Preceded C seen)
    (ho : C seen o) : Preceded C (seen++[o]) := by
  refine h.append fun front other back hmade => ?_
  cases front with
  | nil =>
    obtain ⟨rfl,_⟩ := List.cons.inj hmade
    rw [List.append_nil]
    exact ho
  | cons first front =>
    have hrest := (List.cons.inj hmade).2
    exact absurd hrest.symm
      (List.append_ne_nil_of_right_ne_nil front (List.cons_ne_nil other back))

end Histories

end PacketPipe.ObservedMachines

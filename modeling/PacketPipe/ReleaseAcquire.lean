import Mathlib.Data.List.Basic
import Mathlib.Order.Lattice

/-!
# Threads that share release and acquire memory

Atomic locations keep all their stores; a load returns any store that coherence
still lets its thread read, so threads may disagree about what is newest. A
store releases what its thread knows and an acquire load of it passes that on.
What a thread knows also counts the accesses of every thread to plain cells that
happened before; two conflicting accesses of which neither did are a race. All
atomic stores here are release stores, and there are no fences.
-/

namespace PacketPipe.ReleaseAcquire

/-- What happened before the next step of a thread: how many accesses of every
thread, and from which stamp on a location may still be read. -/
abbrev View (T L : Type) := (T → ℕ)×(L → ℕ)

/-- A store to an atomic location. -/
structure Store (T L V : Type) where
  /-- Its place in the modification order of the location. -/
  stamp : ℕ
  /-- What was stored. -/
  value : V
  /-- What the storing thread knew, this store included. -/
  view : View T L

/-- An access to a plain cell. -/
structure Access (T : Type) where
  /-- Who accessed it. -/
  thread : T
  /-- How many accesses this thread had made, this one included. -/
  number : ℕ
  /-- Whether the cell was written. -/
  writes : Bool

/-- Atomic locations and plain cells, with what every thread knows. -/
structure Memory (T L : Type) (V : L → Type) (D E : Type) where
  /-- What the threads know. -/
  views : T → View T L
  /-- The stores to a location, in the order they were made. -/
  stores : (l : L) → List (Store T L (V l))
  /-- The accesses to a cell. -/
  accesses : D → List (Access T)
  /-- What the cells hold. -/
  cells : D → E
  /-- There was a race. -/
  raced : Bool

/-- The memory order of a load. -/
inductive LoadOrder
  | relaxed
  | acquire

section Operations

variable {T L D E : Type} {V : L → Type} [DecidableEq T] [DecidableEq L] [DecidableEq D]

/-- Having seen the store with this stamp, and no more. -/
def stampView (T : Type) (l : L) (stamp : ℕ) : View T L :=
  (fun _ => 0,Function.update (fun _ => 0) l stamp)

/-- A thread learns a view, as by taking a lock or joining a thread. -/
def Memory.join (m : Memory T L V D E) (t : T) (view : View T L) : Memory T L V D E :=
  {m with views := Function.update m.views t (m.views t⊔view)}

/-- The store made as number `i`, when coherence lets the thread read it: it is
not older than one that the thread has seen. -/
def Memory.readable (m : Memory T L V D E) (t : T) (l : L) (i : ℕ) :
    Option (Store T L (V l)) :=
  (m.stores l)[i]?.filter fun s => decide ((m.views t).2 l≤ s.stamp)

/-- A load that returns the value of the store `s`. -/
def Memory.load (m : Memory T L V D E) (t : T) (order : LoadOrder) (l : L)
    (s : Store T L (V l)) : Memory T L V D E :=
  match order with
  | .relaxed => m.join t (stampView T l s.stamp)
  | .acquire => m.join t (s.view⊔stampView T l s.stamp)

/-- A stamp that a store of this thread may get: after every store that the
thread has seen, and not taken. -/
def Memory.fresh (m : Memory T L V D E) (t : T) (l : L) (stamp : ℕ) : Bool :=
  decide ((m.views t).2 l< stamp) && (m.stores l).all fun s => decide (s.stamp≠stamp)

/-- A release store. -/
def Memory.store (m : Memory T L V D E) (t : T) (l : L) (stamp : ℕ) (value : V l) :
    Memory T L V D E :=
  let view := m.views t⊔stampView T l stamp
  {m with
    views := Function.update m.views t view
    stores := Function.update m.stores l (m.stores l++[⟨stamp,value,view⟩])}

/-- The access happened before what a thread with this view does next. -/
def Access.Before (a : Access T) (view : View T L) : Prop := a.number≤view.1 a.thread

instance (a : Access T) (view : View T L) : Decidable (a.Before view) :=
  inferInstanceAs (Decidable (_≤_))

/-- An access to a cell races with an earlier one that did not happen before it,
unless both read. -/
def Memory.races (m : Memory T L V D E) (t : T) (d : D) (writes : Bool) : Bool :=
  (m.accesses d).any fun a => (writes || a.writes) && !decide (a.Before (m.views t))

/-- An access to a plain cell. -/
def Memory.access (m : Memory T L V D E) (t : T) (d : D) (writes : Bool) : Memory T L V D E :=
  let number := (m.views t).1 t+1
  {m with
    views := Function.update m.views t
      (Function.update (m.views t).1 t number,(m.views t).2)
    accesses := Function.update m.accesses d (m.accesses d++[⟨t,number,writes⟩])
    raced := m.raced || m.races t d writes}

/-- Writing a plain cell. -/
def Memory.write (m : Memory T L V D E) (t : T) (d : D) (content : E) : Memory T L V D E :=
  let m := m.access t d true
  {m with cells := Function.update m.cells d content}

end Operations

section Views

variable {T L D E : Type} {V : L → Type}

/-- What happened before a view happened before every larger one. -/
theorem Access.Before.mono {a : Access T} {view view' : View T L} (h : a.Before view)
    (hle : view≤view') : a.Before view' :=
  Nat.le_trans h (hle.1 a.thread)

/-- Only views grow from `m` to `m'`. -/
structure Grows (m m' : Memory T L V D E) : Prop where
  /-- Nothing is forgotten. -/
  views : ∀ t,m.views t≤ m'.views t
  /-- The same stores. -/
  stores : m'.stores=m.stores
  /-- The same accesses. -/
  accesses : m'.accesses=m.accesses
  /-- The same contents. -/
  cells : m'.cells=m.cells
  /-- No further race. -/
  raced : m'.raced=m.raced

section Learning

variable [DecidableEq T]

/-- Learning only grows views. -/
theorem join_grows (m : Memory T L V D E) (t : T) (view : View T L) :
    Grows m (m.join t view) := by
  refine ⟨fun t' => ?_,rfl,rfl,rfl,rfl⟩
  simp only [Memory.join]
  by_cases ht : t'=t
  · subst ht
    rw [Function.update_self]
    exact le_sup_left
  · rw [Function.update_of_ne ht]

/-- What was learned is known. -/
theorem join_knows (m : Memory T L V D E) (t : T) (view : View T L) :
    view≤(m.join t view).views t := by
  simp only [Memory.join,Function.update_self]
  exact le_sup_right

end Learning

variable [DecidableEq L]

/-- A view knows a store once it reaches its stamp. -/
theorem stampView_le {l : L} {stamp : ℕ} {view : View T L} :
    stampView T l stamp≤view ↔ stamp≤view.2 l := by
  constructor
  · intro h
    have hl := h.2 l
    simp only [stampView,Function.update_self] at hl
    exact hl
  · intro h
    refine ⟨fun t => Nat.zero_le _,fun l' => ?_⟩
    simp only [stampView]
    by_cases hl : l'=l
    · subst hl
      rw [Function.update_self]
      exact h
    · rw [Function.update_of_ne hl]
      exact Nat.zero_le _

variable [DecidableEq T]

/-- Loading only grows views. -/
theorem load_grows (m : Memory T L V D E) (t : T) (order : LoadOrder) (l : L)
    (s : Store T L (V l)) : Grows m (m.load t order l s) := by
  cases order with
  | relaxed => exact join_grows m t _
  | acquire => exact join_grows m t _

/-- An acquire load passes on what the store released. -/
theorem load_acquires (m : Memory T L V D E) (t : T) (l : L) (s : Store T L (V l)) :
    s.view≤(m.load t .acquire l s).views t :=
  le_trans le_sup_left (join_knows m t _)

end Views

section Chains

variable {T L V : Type} {l : L}

/-- The stores of a location in one order: every store has a later place than
those made before it and was released knowing all that they released. -/
structure Chain (l : L) (ss : List (Store T L V)) : Prop where
  /-- Later stores have later places. -/
  stamps : ss.Pairwise fun s s' => s.stamp< s'.stamp
  /-- Later stores release more. -/
  views : ss.Pairwise fun s s' => s.view≤ s'.view
  /-- A store is known to whoever knows what it released. -/
  own : ∀ s∈ss,s.stamp≤ s.view.2 l

/-- A view that has received everything these stores released. -/
def Informed (view : View T L) (ss : List (Store T L V)) : Prop := ∀ s∈ss,s.view≤view

/-- A larger view is informed as well. -/
theorem Informed.mono {view view' : View T L} {ss : List (Store T L V)}
    (h : Informed view ss) (hle : view≤view') : Informed view' ss :=
  fun s hs => le_trans (h s hs) hle

end Chains

section Coherence

variable {T L D E : Type} {V : L → Type} {m : Memory T L V D E} {t : T} {l : L}

/-- What may be read is one of the stores, and not older than what is known. -/
theorem readable_iff {i : ℕ} {s : Store T L (V l)} :
    m.readable t l i=some s ↔ (m.stores l)[i]?=some s ∧ (m.views t).2 l≤ s.stamp := by
  rw [Memory.readable,Option.filter_eq_some_iff,decide_eq_true_eq]

/-- Nobody reads an older store than one whose release he received. -/
theorem Chain.newer (h : Chain l (m.stores l)) {i j : ℕ} {known s : Store T L (V l)}
    (hknown : (m.stores l)[i]?=some known) (hview : known.view≤ m.views t)
    (hread : m.readable t l j=some s) : i≤j := by
  obtain ⟨hs,hfloor⟩ := readable_iff.mp hread
  by_contra hlt
  obtain ⟨hi,rfl⟩ := List.getElem?_eq_some_iff.mp hknown
  obtain ⟨hj,rfl⟩ := List.getElem?_eq_some_iff.mp hs
  have hstamps := List.pairwise_iff_getElem.mp h.stamps j i hj hi (by omega)
  have hown := h.own _ (List.getElem_mem hi)
  have hknows : (m.stores l)[i].view.2 l≤(m.views t).2 l := hview.2 l
  omega

/-- Who has received everything reads the newest store. -/
theorem Chain.newest (h : Chain l (m.stores l)) (hinformed : Informed (m.views t) (m.stores l))
    {j : ℕ} {s : Store T L (V l)} (hread : m.readable t l j=some s) :
    j+1=(m.stores l).length := by
  have hj := (List.getElem?_eq_some_iff.mp (readable_iff.mp hread).1).1
  have hlast : (m.stores l).length-1<(m.stores l).length := by omega
  have hnewer := h.newer (List.getElem?_eq_getElem hlast)
    (hinformed _ (List.getElem_mem hlast)) hread
  omega

variable [DecidableEq T] [DecidableEq L]

/-- A store by a thread that has received everything comes last. -/
theorem Chain.store (h : Chain l (m.stores l)) (hinformed : Informed (m.views t) (m.stores l))
    {stamp : ℕ} (hfresh : m.fresh t l stamp=true) (value : V l) :
    Chain l ((m.store t l stamp value).stores l) ∧
      Informed ((m.store t l stamp value).views t) ((m.store t l stamp value).stores l) := by
  rw [Memory.fresh,Bool.and_eq_true,decide_eq_true_eq] at hfresh
  simp only [Memory.store,Function.update_self]
  refine ⟨⟨?_,?_,?_⟩,?_⟩
  · refine List.pairwise_append.mpr ⟨h.stamps,List.pairwise_singleton _ _,?_⟩
    intro s hs s' hs'
    rw [List.mem_singleton] at hs'
    subst hs'
    exact Nat.lt_of_le_of_lt (Nat.le_trans (h.own s hs) ((hinformed s hs).2 l)) hfresh.1
  · refine List.pairwise_append.mpr ⟨h.views,List.pairwise_singleton _ _,?_⟩
    intro s hs s' hs'
    rw [List.mem_singleton] at hs'
    subst hs'
    exact le_trans (hinformed s hs) le_sup_left
  · intro s hs
    rcases List.mem_append.mp hs with hs | hs
    · exact h.own s hs
    · rw [List.mem_singleton] at hs
      subst hs
      exact stampView_le.mp le_sup_right
  · intro s hs
    rcases List.mem_append.mp hs with hs | hs
    · exact le_trans (hinformed s hs) le_sup_left
    · rw [List.mem_singleton] at hs
      subst hs
      exact le_refl _

/-- A store forgets nothing. -/
theorem store_views (m : Memory T L V D E) (t : T) (l : L) (stamp : ℕ) (value : V l) (t' : T) :
    m.views t'≤(m.store t l stamp value).views t' := by
  simp only [Memory.store]
  by_cases ht : t'=t
  · subst ht
    rw [Function.update_self]
    exact le_sup_left
  · rw [Function.update_of_ne ht]

/-- A store comes after those made before it. -/
theorem store_self (m : Memory T L V D E) (t : T) (l : L) (stamp : ℕ) (value : V l) :
    (m.store t l stamp value).stores l=
      m.stores l++[⟨stamp,value,m.views t⊔stampView T l stamp⟩] := by
  simp only [Memory.store,Function.update_self]

/-- A store leaves the other locations alone. -/
theorem store_other (m : Memory T L V D E) (t : T) {l l' : L} (stamp : ℕ) (value : V l)
    (hne : l'≠l) : (m.store t l stamp value).stores l'=m.stores l' := by
  simp only [Memory.store,Function.update_of_ne hne]

end Coherence

section Accesses

variable {T L D E : Type} {V : L → Type} [DecidableEq T] [DecidableEq D]

/-- An access forgets nothing. -/
theorem access_views (m : Memory T L V D E) (t : T) (d : D) (writes : Bool) (t' : T) :
    m.views t'≤(m.access t d writes).views t' := by
  simp only [Memory.access]
  by_cases ht : t'=t
  · subst ht
    rw [Function.update_self]
    refine ⟨fun u => ?_,le_refl _⟩
    by_cases hu : u=t'
    · subst hu
      simp only [Function.update_self]
      exact Nat.le_succ _
    · simp only [Function.update_of_ne hu,le_refl]
  · rw [Function.update_of_ne ht]

/-- The accesses to a cell after a further one: it happened before whatever its
thread does next. -/
theorem mem_access {m : Memory T L V D E} {t : T} {d d' : D} {writes : Bool} {a : Access T}
    (ha : a∈(m.access t d writes).accesses d') :
    a∈m.accesses d' ∨ d'=d ∧ a.writes=writes ∧ a.Before ((m.access t d writes).views t) := by
  simp only [Memory.access] at ha
  by_cases hd : d'=d
  · subst hd
    rw [Function.update_self] at ha
    rcases List.mem_append.mp ha with ha | ha
    · exact .inl ha
    · rw [List.mem_singleton] at ha
      subst ha
      refine .inr ⟨rfl,rfl,?_⟩
      simp only [Access.Before,Memory.access,Function.update_self,le_refl]
  · rw [Function.update_of_ne hd] at ha
    exact .inl ha

/-- An access races with nothing when everything it conflicts with happened
before. -/
theorem access_raced {m : Memory T L V D E} {t : T} {d : D} {writes : Bool}
    (hraced : m.raced=false)
    (hbefore : ∀ a∈m.accesses d,(writes || a.writes)=true → a.Before (m.views t)) :
    (m.access t d writes).raced=false := by
  simp only [Memory.access,hraced,Bool.false_or,Memory.races,List.any_eq_false,
    Bool.and_eq_true,not_and,Bool.not_eq_true,Bool.not_eq_false',decide_eq_true_eq]
  exact hbefore

end Accesses

end PacketPipe.ReleaseAcquire

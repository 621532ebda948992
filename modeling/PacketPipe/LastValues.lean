import Mathlib.Data.List.Basic

/-!
# The last value for each key

A list of key-value pairs in which a later pair overrides the earlier ones
with the same key. Two lists with the same pairs in the same order for each
key, however the keys are interleaved, have the same members and the same last
values.
-/

namespace PacketPipe.LastValues

universe u v

variable {κ : Type u} {ν : Type v} [DecidableEq κ]

/-- The pairs of one key, in order. -/
def pairsOf (key : κ) (pairs : List (κ×ν)) : List (κ×ν) := pairs.filter fun p => p.1=key

/-- The value that overrides all others of the key. -/
def lastValue (key : κ) (pairs : List (κ×ν)) : Option ν :=
  (pairsOf key pairs).getLast?.map Prod.snd

@[simp] theorem lastValue_nil (key : κ) : lastValue key ([] : List (κ×ν))=none := rfl

/-- The first pair counts only if its key does not come again. -/
theorem lastValue_cons (key : κ) (p : κ×ν) (pairs : List (κ×ν)) :
    lastValue key (p::pairs)=
      (lastValue key pairs).or (if p.1=key then some p.2 else none) := by
  unfold lastValue pairsOf
  rw [List.filter_cons]
  by_cases hkey : p.1=key
  · simp only [hkey,decide_true,if_true]
    rw [List.getLast?_cons]
    cases (pairs.filter fun p => p.1=key).getLast? <;> rfl
  · simp only [hkey,decide_false,Bool.false_eq_true,if_false,Option.or_none]

/-- Later pairs override earlier ones. -/
theorem lastValue_append (key : κ) (pairs others : List (κ×ν)) :
    lastValue key (pairs++others)=(lastValue key others).or (lastValue key pairs) := by
  induction pairs with
  | nil => rw [List.nil_append,lastValue_nil,Option.or_none]
  | cons p pairs ih => rw [List.cons_append,lastValue_cons,ih,lastValue_cons,Option.or_assoc]

/-- A last value belongs to some pair. -/
theorem lastValue_mem {key : κ} {pairs : List (κ×ν)} {value : ν}
    (h : lastValue key pairs=some value) : (key,value)∈pairs := by
  obtain ⟨p,hp,rfl⟩ := Option.map_eq_some_iff.mp h
  obtain ⟨hmem,hkey⟩ := List.mem_filter.mp (List.mem_of_getLast? hp)
  have hown : p.1=key := of_decide_eq_true hkey
  rwa [←hown]

/-- The same pairs in the same order for each key. -/
def SamePairs (pairs others : List (κ×ν)) : Prop := ∀ key,pairsOf key pairs=pairsOf key others

/-- Then the last values are the same. -/
theorem SamePairs.lastValue {pairs others : List (κ×ν)} (h : SamePairs pairs others) (key : κ) :
    lastValue key pairs=lastValue key others := by
  unfold LastValues.lastValue
  rw [h key]

/-- And so are the members. -/
theorem SamePairs.mem_iff {pairs others : List (κ×ν)} (h : SamePairs pairs others) (p : κ×ν) :
    p∈pairs ↔ p∈others := by
  have hown (list : List (κ×ν)) : p∈list ↔ p∈pairsOf p.1 list := by
    unfold pairsOf
    rw [List.mem_filter,decide_eq_true rfl,and_iff_left rfl]
  rw [hown pairs,hown others,h p.1]

/-- Pairs of different keys may change places. -/
theorem samePairs_swap {p q : κ×ν} (hkeys : p.1≠q.1) (rest : List (κ×ν)) :
    SamePairs (p::q::rest) (q::p::rest) := by
  intro key
  unfold pairsOf
  simp only [List.filter_cons]
  by_cases hp : p.1=key
  · have hq : q.1≠key := fun hq => hkeys (hp.trans hq.symm)
    simp only [hp,hq,decide_true,decide_false,if_true,Bool.false_eq_true,if_false]
  · simp only [hp,decide_false,Bool.false_eq_true,if_false]

end PacketPipe.LastValues

import Mathlib.Data.List.Induction

/-!
# Sessions that open, tick and close

A session trace alternates closed sessions, each an opening followed by any
number of ticks and a closing, and may end in one session still open. The
automaton `advance` recognises these traces one token at a time, so that a
system proved to follow it step by step is known to have the whole shape.
-/

namespace PacketPipe.SessionTraces

/-- One observation of a session. -/
inductive Token
  | opened
  | ticked
  | closed
  deriving DecidableEq

/-- The automaton: its state says whether a session is open. Two openings in
a row, and ticks or closings outside a session, are refused. -/
def advance : Bool → Token → Option Bool
  | false,.opened => some true
  | true,.ticked => some true
  | true,.closed => some false
  | _,_ => none

/-- The tokens are accepted and lead from one automaton state to another. -/
def Leads (start : Bool) (tokens : List Token) (finish : Bool) : Prop :=
  tokens.foldlM advance start=some finish

/-- The empty trace changes nothing. -/
theorem leads_nil (b : Bool) : Leads b [] b := rfl

/-- Accepted traces compose. -/
theorem Leads.append {a b c : Bool} {xs ys : List Token}
    (hx : Leads a xs b) (hy : Leads b ys c) : Leads a (xs++ys) c := by
  unfold Leads at *
  rw [List.foldlM_append,hx]
  exact hy

/-- A prefix of an accepted trace is accepted. -/
theorem leads_front {a c : Bool} {xs ys : List Token} (h : Leads a (xs++ys) c) :
    ∃ b,Leads a xs b := by
  unfold Leads at *
  rw [List.foldlM_append] at h
  cases hx : xs.foldlM advance a with
  | none => rw [hx] at h; cases h
  | some b => exact ⟨b,rfl⟩

/-- The last token of an accepted trace is one automaton step. -/
theorem leads_concat {a c : Bool} {xs : List Token} {x : Token}
    (h : Leads a (xs++[x]) c) : ∃ b,Leads a xs b ∧ advance b x=some c := by
  unfold Leads at *
  rw [List.foldlM_append] at h
  cases hx : xs.foldlM advance a with
  | none => rw [hx] at h; cases h
  | some b =>
    rw [hx] at h
    refine ⟨b,rfl,?_⟩
    simpa only [Option.bind_eq_bind,Option.bind_some,List.foldlM_cons,List.foldlM_nil,
      Option.pure_def,Option.bind_fun_some] using h

/-- A session from its opening to its closing, with `n` ticks. -/
def closedSession (n : ℕ) : List Token := .opened::(List.replicate n .ticked++[.closed])

/-- A session that is still open, with `n` ticks so far. -/
def openSession (n : ℕ) : List Token := .opened::List.replicate n .ticked

/-- Closed sessions followed by one open session exactly when `isOpen`:
`(opened ticked* closed)*` and then nothing or `opened ticked*`. -/
def Shape (tokens : List Token) (isOpen : Bool) : Prop :=
  ∃ (ended : List ℕ) (rest : List Token),tokens=ended.flatMap closedSession++rest ∧
    if isOpen=true then ∃ n,rest=openSession n else rest=[]

/-- Every accepted trace from the idle state has the session shape. The
induction is on the trace from its end, one automaton step at a time. -/
theorem shape_of_leads {tokens : List Token} {b : Bool} (h : Leads false tokens b) :
    Shape tokens b := by
  induction tokens using List.reverseRecOn generalizing b with
  | nil =>
    cases h
    exact ⟨[],[],rfl,rfl⟩
  | append_singleton xs x ih =>
    obtain ⟨a,ha,hx⟩ := leads_concat h
    obtain ⟨ended,rest,hxs,hrest⟩ := ih ha
    cases a <;> cases x <;> cases hx
    · subst hrest
      refine ⟨ended,[.opened],?_,0,rfl⟩
      rw [hxs,List.append_nil]
    · obtain ⟨n,rfl⟩ := hrest
      refine ⟨ended,openSession (n+1),?_,n+1,rfl⟩
      rw [hxs,List.append_assoc,openSession,openSession,List.cons_append,List.replicate_succ']
    · obtain ⟨n,rfl⟩ := hrest
      refine ⟨ended++[n],[],?_,rfl⟩
      rw [hxs,List.flatMap_append,List.flatMap_singleton,List.append_nil,List.append_assoc,
        openSession,closedSession,List.cons_append]

/-- A session is open exactly when the last token is not a closing. -/
theorem open_iff_last {tokens : List Token} {b : Bool} (h : Leads false tokens b) :
    b=true ↔ tokens.getLast?=some .opened ∨ tokens.getLast?=some .ticked := by
  cases tokens using List.reverseRecOn with
  | nil => cases h; simp only [List.getLast?_nil,Bool.false_eq_true,reduceCtorEq,or_self]
  | append_singleton xs x =>
    obtain ⟨a,_,hx⟩ := leads_concat h
    rw [List.getLast?_concat]
    cases a <;> cases x <;> cases hx <;> simp

/-- Openings outnumber closings by one exactly while a session is open. -/
theorem count_opened {tokens : List Token} {b : Bool} (h : Leads false tokens b) :
    tokens.count .opened=tokens.count .closed+b.toNat := by
  induction tokens using List.reverseRecOn generalizing b with
  | nil => cases h; rfl
  | append_singleton xs x ih =>
    obtain ⟨a,ha,hx⟩ := leads_concat h
    have hcount := ih ha
    rw [List.count_append,List.count_append]
    cases a <;> cases x <;> cases hx <;> simp at hcount ⊢ <;> omega

example : Leads false [.opened,.ticked,.closed,.opened] true := rfl

end PacketPipe.SessionTraces

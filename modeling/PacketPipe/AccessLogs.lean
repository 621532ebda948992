/-!
# Computations with a log of what they touch

A logged computation returns a value or fails, and keeps a log of its
accesses either way. A specification says of which kind every access is and
what holds of the value returned. The rules follow the shape of a program:
one for returning, one for a single access, one for sequencing and one for a
branch.
-/

namespace PacketPipe.AccessLogs

/-- The outcome of a computation together with its accesses, in order. -/
structure Logged (ο ε α : Type) where
  /-- Value returned, or the failure that ended the computation. -/
  result : Except ε α
  /-- Everything accessed, up to and including a failure. -/
  log : List ο

section Programs

variable {ο ε α β : Type}

/-- One after the other; nothing is accessed after a failure. -/
def Logged.andThen (x : Logged ο ε α) (f : α → Logged ο ε β) : Logged ο ε β :=
  match x.result with
  | .ok a => ⟨(f a).result,x.log++(f a).log⟩
  | .error e => ⟨.error e,x.log⟩

instance : Monad (Logged ο ε) where
  pure a := ⟨.ok a,[]⟩
  bind := Logged.andThen

/-- A single access with its outcome. -/
def access (o : ο) (outcome : Except ε α) : Logged ο ε α := ⟨outcome,[o]⟩

@[simp] theorem result_pure (a : α) : (pure a : Logged ο ε α).result=.ok a := rfl

@[simp] theorem result_access (o : ο) (outcome : Except ε α) :
    (access o outcome).result=outcome := rfl

/-- Without its log a sequence is a sequence. -/
@[simp] theorem result_bind (x : Logged ο ε α) (f : α → Logged ο ε β) :
    (x>>=f).result=x.result>>=fun a => (f a).result := by
  change (x.andThen f).result=_
  rw [Logged.andThen]
  cases x.result <;> rfl

/-- Without its log a branch is a branch. -/
@[simp] theorem result_ite (c : Prop) [Decidable c] (x y : Logged ο ε α) :
    (if c then x else y).result=if c then x.result else y.result := by
  split <;> rfl

/-- The computation returns a value with the property, and every access is of
the given kind. -/
structure Meets (kind : ο → Prop) (post : α → Prop) (x : Logged ο ε α) : Prop where
  /-- Every access is of the kind. -/
  accesses : ∀ o∈x.log,kind o
  /-- It does not fail, and the value has the property. -/
  returns : ∃ a,x.result=.ok a ∧ post a

variable {kind : ο → Prop}

/-- Returning a value accesses nothing. -/
theorem Meets.pure {post : α → Prop} {a : α} (h : post a) :
    Meets kind post (Pure.pure a : Logged ο ε α) :=
  ⟨List.forall_mem_nil _,a,rfl,h⟩

/-- A single access of the kind with a suitable outcome. -/
theorem Meets.access {post : α → Prop} {o : ο} {outcome : Except ε α} {a : α} (hkind : kind o)
    (houtcome : outcome=.ok a) (h : post a) : Meets kind post (AccessLogs.access o outcome) := by
  refine ⟨fun o' ho' => ?_,a,houtcome,h⟩
  cases List.mem_singleton.mp ho'
  exact hkind

/-- What the first part establishes is what the second may assume. -/
theorem Meets.bind {mid : α → Prop} {post : β → Prop} {x : Logged ο ε α}
    {f : α → Logged ο ε β} (hx : Meets kind mid x) (hf : ∀ a,mid a → Meets kind post (f a)) :
    Meets kind post (x>>=f) := by
  obtain ⟨haccesses,a,hresult,hmid⟩ := hx
  obtain ⟨hnext,b,hvalue,hpost⟩ := hf a hmid
  have hbind : x>>=f=⟨(f a).result,x.log++(f a).log⟩ := by
    change x.andThen f=_
    rw [Logged.andThen,hresult]
  rw [hbind]
  exact ⟨List.forall_mem_append.mpr ⟨haccesses,hnext⟩,b,hvalue,hpost⟩

/-- A branch may assume its condition. -/
theorem Meets.ite {post : α → Prop} {c : Prop} [Decidable c] {x y : Logged ο ε α}
    (hx : c → Meets kind post x) (hy : ¬c → Meets kind post y) :
    Meets kind post (if c then x else y) := by
  split
  · next h => exact hx h
  · next h => exact hy h

end Programs

end PacketPipe.AccessLogs

import Mathlib.Data.List.Basic
import Mathlib.Logic.Function.Basic

/-!
# Self-delimiting codes

A code whose words can be told apart from whatever is written behind them.
Fields terminated by a separator that they do not contain, concatenations and
alternatives with different beginnings are such codes, so that a text made of
variable-length fields determines the fields.
-/

namespace PacketPipe.SelfDelimitingCodes

universe u v w

variable {σ : Type u} {α : Type v} {β : Type w}

/-- A word determines its value and where it ends, whatever follows. -/
def SelfDelimiting (encode : α → List σ) : Prop :=
  ∀ x y rest rest',encode x++rest=encode y++rest' → x=y ∧ rest=rest'

/-- Two words without the separator that are followed by it are equal. -/
theorem cut_at_separator {s : σ} {a b rest rest' : List σ} (ha : s∉a) (hb : s∉b)
    (h : a++s::rest=b++s::rest') : a=b ∧ rest=rest' := by
  induction a generalizing b with
  | nil =>
    cases b with
    | nil => exact ⟨rfl,(List.cons.inj h).2⟩
    | cons y b => exact absurd (by rw [(List.cons.inj h).1]; exact List.mem_cons_self) hb
  | cons x a ih =>
    cases b with
    | nil => exact absurd (by rw [(List.cons.inj h).1]; exact List.mem_cons_self) ha
    | cons y b =>
      obtain ⟨hhead,htail⟩ := List.cons.inj h
      obtain ⟨hwords,hrest⟩ := ih (List.not_mem_of_not_mem_cons ha)
        (List.not_mem_of_not_mem_cons hb) htail
      exact ⟨by rw [hhead,hwords],hrest⟩

/-- Terminating injective words by a separator they do not contain. -/
theorem selfDelimiting_terminated {encode : α → List σ} {s : σ} (h : Function.Injective encode)
    (hs : ∀ x,s∉encode x) : SelfDelimiting fun x => encode x++[s] := by
  intro x y rest rest' heq
  simp only [List.append_assoc,List.singleton_append] at heq
  obtain ⟨hwords,hrest⟩ := cut_at_separator (hs x) (hs y) heq
  exact ⟨h hwords,hrest⟩

/-- Writing a fixed symbol first. -/
theorem SelfDelimiting.marked {encode : α → List σ} (h : SelfDelimiting encode) (s : σ) :
    SelfDelimiting fun x => s::encode x := by
  intro x y rest rest' heq
  exact h x y rest rest' (List.cons.inj heq).2

/-- Writing a fixed symbol last. -/
theorem SelfDelimiting.followed {encode : α → List σ} (h : SelfDelimiting encode) (s : σ) :
    SelfDelimiting fun x => encode x++[s] := by
  intro x y rest rest' heq
  simp only [List.append_assoc,List.singleton_append] at heq
  obtain ⟨hsame,hrest⟩ := h x y _ _ heq
  exact ⟨hsame,(List.cons.inj hrest).2⟩

/-- One word after the other. -/
theorem SelfDelimiting.seq {f : α → List σ} {g : β → List σ} (hf : SelfDelimiting f)
    (hg : SelfDelimiting g) : SelfDelimiting fun p : α×β => f p.1++g p.2 := by
  rintro ⟨x,y⟩ ⟨x',y'⟩ rest rest' heq
  simp only [List.append_assoc] at heq
  obtain ⟨rfl,hbehind⟩ := hf x x' _ _ heq
  obtain ⟨rfl,hrest⟩ := hg y y' _ _ hbehind
  exact ⟨rfl,hrest⟩

/-- A last word need not be self-delimiting. -/
theorem SelfDelimiting.last {f : α → List σ} {g : β → List σ} (hf : SelfDelimiting f)
    (hg : Function.Injective g) : Function.Injective fun p : α×β => f p.1++g p.2 := by
  rintro ⟨x,y⟩ ⟨x',y'⟩ heq
  obtain ⟨rfl,hbehind⟩ := hf x x' _ _ heq
  exact congrArg (Prod.mk x) (hg hbehind)

/-- Alternatives that never start alike. -/
theorem SelfDelimiting.alternatives {f : α → List σ} {g : β → List σ} (hf : SelfDelimiting f)
    (hg : SelfDelimiting g) (hapart : ∀ x y rest rest',f x++rest≠g y++rest') :
    SelfDelimiting (Sum.elim f g) := by
  rintro (x | x) (y | y) rest rest' heq
  · obtain ⟨rfl,hrest⟩ := hf x y rest rest' heq
    exact ⟨rfl,hrest⟩
  · exact absurd heq (hapart x y rest rest')
  · exact absurd heq.symm (hapart y x rest' rest)
  · obtain ⟨rfl,hrest⟩ := hg x y rest rest' heq
    exact ⟨rfl,hrest⟩

/-- Values that are told apart by what is encoded. -/
theorem SelfDelimiting.comap {encode : α → List σ} (h : SelfDelimiting encode) {view : β → α}
    (hview : Function.Injective view) : SelfDelimiting (encode∘view) := by
  intro x y rest rest' heq
  obtain ⟨hsame,hrest⟩ := h (view x) (view y) rest rest' heq
  exact ⟨hview hsame,hrest⟩

end PacketPipe.SelfDelimitingCodes

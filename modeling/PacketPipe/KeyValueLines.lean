import Mathlib.Data.List.Basic

/-!
# Texts of key-value lines

A text is cut into lines at a newline symbol. A line that is empty, begins with
a comment mark or lacks the separator says nothing; any other one is cut at its
first separator into a key and a value. Pairs are written one on a line, and
the pairs that can be read from some text are exactly those that are read back
when they are written.
-/

namespace PacketPipe.KeyValueLines

universe u

variable {σ : Type u} [DecidableEq σ]

/-- The lines of a text; the last one need not be terminated. -/
def splitLines (newline : σ) : List σ → List (List σ)
  | [] => []
  | c::text =>
    if c=newline then []::splitLines newline text
    else match splitLines newline text with
      | [] => [[c]]
      | line::lines => (c::line)::lines

/-- Every line is terminated. -/
def unlines (newline : σ) (lines : List (List σ)) : List σ :=
  lines.flatMap fun line => line++[newline]

/-- What stands before and behind the first separator. -/
def cut (separator : σ) : List σ → Option (List σ×List σ)
  | [] => none
  | c::line =>
    if c=separator then some ([],line)
    else (cut separator line).map fun pair => (c::pair.1,pair.2)

/-- The pair that a line assigns. -/
def parseLine (separator mark : σ) (line : List σ) : Option (List σ×List σ) :=
  if line.head?=some mark then none else cut separator line

/-- The pairs of a text, in the order of their lines. -/
def parse (newline separator mark : σ) (text : List σ) : List (List σ×List σ) :=
  (splitLines newline text).filterMap (parseLine separator mark)

/-- The line of a pair. -/
def renderPair (separator : σ) (pair : List σ×List σ) : List σ := pair.1++separator::pair.2

/-- One line for every pair. -/
def render (newline separator : σ) (pairs : List (List σ×List σ)) : List σ :=
  unlines newline (pairs.map (renderPair separator))

/-- A key and a value that a line can assign. -/
structure WellFormed (newline separator mark : σ) (pair : List σ×List σ) : Prop where
  /-- The key ends at the first separator. -/
  key : separator∉pair.1
  /-- The line is no comment. -/
  comment : pair.1.head?≠some mark
  /-- The key is in one line. -/
  keyLine : newline∉pair.1
  /-- The value is in one line. -/
  valueLine : newline∉pair.2

section Lines

variable {newline : σ}

/-- A line and its terminator are cut off. -/
theorem splitLines_line {line : List σ} (hline : newline∉line) (text : List σ) :
    splitLines newline (line++newline::text)=line::splitLines newline text := by
  induction line with
  | nil => rw [List.nil_append,splitLines,if_pos rfl]
  | cons c line ih =>
    have hc : c≠newline := fun h => hline (h ▸ List.mem_cons_self)
    rw [List.cons_append,splitLines,if_neg hc,ih (List.not_mem_of_not_mem_cons hline)]

/-- Terminated lines come back, in front of the lines of what follows. -/
theorem splitLines_unlines {lines : List (List σ)} (hlines : ∀ line∈lines,newline∉line)
    (text : List σ) :
    splitLines newline (unlines newline lines++text)=lines++splitLines newline text := by
  induction lines with
  | nil => rfl
  | cons line lines ih =>
    obtain ⟨hline,hrest⟩ := List.forall_mem_cons.mp hlines
    rw [unlines,List.flatMap_cons,List.append_assoc,List.append_assoc,List.singleton_append,
      splitLines_line hline]
    exact congrArg (line::·) (ih hrest)

/-- No line contains a newline. -/
theorem newline_not_mem {text : List σ} : ∀ line∈splitLines newline text,newline∉line := by
  induction text with
  | nil => exact List.forall_mem_nil _
  | cons c text ih =>
    rw [splitLines]
    split
    · exact List.forall_mem_cons.mpr ⟨List.not_mem_nil,ih⟩
    · next hc =>
      split
      · intro line hline
        rw [List.mem_singleton.mp hline]
        exact fun h => hc (List.mem_singleton.mp h).symm
      · next line lines hlines =>
        rw [hlines] at ih
        obtain ⟨hline,hrest⟩ := List.forall_mem_cons.mp ih
        refine List.forall_mem_cons.mpr ⟨fun h => ?_,hrest⟩
        rcases List.mem_cons.mp h with h | h
        · exact hc h.symm
        · exact hline h

end Lines

section Pairs

variable {newline separator mark : σ}

/-- A line is cut into a pair when it is the line of that pair. -/
theorem cut_some {line : List σ} {pair : List σ×List σ} :
    cut separator line=some pair ↔ line=renderPair separator pair ∧ separator∉pair.1 := by
  induction line generalizing pair with
  | nil =>
    refine ⟨nofun,fun ⟨hline,_⟩ => ?_⟩
    exact absurd hline.symm (List.append_ne_nil_of_right_ne_nil _ (List.cons_ne_nil _ _))
  | cons c line ih =>
    obtain ⟨key,value⟩ := pair
    rw [cut]
    by_cases hc : c=separator
    · subst hc
      rw [if_pos rfl]
      constructor
      · intro h
        cases h
        exact ⟨rfl,List.not_mem_nil⟩
      · rintro ⟨hline,hkey⟩
        cases key with
        | nil => rw [(List.cons.inj hline).2]
        | cons d key =>
          obtain ⟨rfl,-⟩ := List.cons.inj hline
          exact absurd List.mem_cons_self hkey
    · rw [if_neg hc,Option.map_eq_some_iff]
      constructor
      · rintro ⟨⟨before,behind⟩,hcut,hpair⟩
        cases hpair
        obtain ⟨rfl,hkey⟩ := ih.mp hcut
        refine ⟨rfl,fun h => ?_⟩
        rcases List.mem_cons.mp h with h | h
        · exact hc h.symm
        · exact hkey h
      · rintro ⟨hline,hkey⟩
        cases key with
        | nil => exact absurd (List.cons.inj hline).1 hc
        | cons d key =>
          obtain ⟨rfl,hrest⟩ := List.cons.inj hline
          exact ⟨(key,value),ih.mpr ⟨hrest,List.not_mem_of_not_mem_cons hkey⟩,rfl⟩

omit [DecidableEq σ] in
/-- The first symbol of a pair's line. -/
theorem head_renderPair (hmark : separator≠mark) (pair : List σ×List σ) :
    (renderPair separator pair).head?=some mark ↔ pair.1.head?=some mark := by
  obtain ⟨key,value⟩ := pair
  cases key with
  | nil => exact iff_of_false (fun h => hmark (Option.some.inj h)) nofun
  | cons c key => exact Iff.rfl

/-- A line assigns a pair when it is the line of that pair, which is no comment. -/
theorem parseLine_some (hmark : separator≠mark) {line : List σ} {pair : List σ×List σ} :
    parseLine separator mark line=some pair ↔
      line=renderPair separator pair ∧ separator∉pair.1 ∧ pair.1.head?≠some mark := by
  unfold parseLine
  constructor
  · intro h
    split at h
    · cases h
    · next hcomment =>
      obtain ⟨rfl,hkey⟩ := cut_some.mp h
      exact ⟨rfl,hkey,fun hhead => hcomment ((head_renderPair hmark pair).mpr hhead)⟩
  · rintro ⟨rfl,hkey,hcomment⟩
    rw [if_neg fun hhead => hcomment ((head_renderPair hmark pair).mp hhead)]
    exact cut_some.mpr ⟨rfl,hkey⟩

/-- Only well-formed pairs are read. -/
theorem parse_wellFormed (hmark : separator≠mark) (text : List σ) :
    ∀ pair∈parse newline separator mark text,WellFormed newline separator mark pair := by
  intro pair hpair
  obtain ⟨line,hline,hparse⟩ := List.mem_filterMap.mp hpair
  obtain ⟨rfl,hkey,hcomment⟩ := (parseLine_some hmark).mp hparse
  have hnewline := newline_not_mem _ hline
  rw [renderPair,List.mem_append,not_or] at hnewline
  exact ⟨hkey,hcomment,hnewline.1,List.not_mem_of_not_mem_cons hnewline.2⟩

/-- Well-formed pairs that are written are read back, in front of those of what
follows. -/
theorem parse_render_append (hmark : separator≠mark) (hline : newline≠separator)
    {pairs : List (List σ×List σ)} (h : ∀ pair∈pairs,WellFormed newline separator mark pair)
    (text : List σ) :
    parse newline separator mark (render newline separator pairs++text)=
      pairs++parse newline separator mark text := by
  have hlines : ∀ line∈pairs.map (renderPair separator),newline∉line := by
    intro line hin
    obtain ⟨pair,hpair,rfl⟩ := List.mem_map.mp hin
    rw [renderPair,List.mem_append,not_or]
    refine ⟨(h pair hpair).keyLine,fun hmem => ?_⟩
    rcases List.mem_cons.mp hmem with hmem | hmem
    · exact hline hmem
    · exact (h pair hpair).valueLine hmem
  have hread : (pairs.map (renderPair separator)).filterMap (parseLine separator mark)=pairs := by
    rw [List.filterMap_map]
    refine (List.filterMap_congr fun pair hpair => ?_).trans List.filterMap_some
    have hpair := h pair hpair
    exact (parseLine_some hmark).mpr ⟨rfl,hpair.key,hpair.comment⟩
  rw [parse,render,splitLines_unlines hlines,List.filterMap_append,hread]
  rfl

/-- Well-formed pairs that are written are read back. -/
theorem parse_render (hmark : separator≠mark) (hline : newline≠separator)
    {pairs : List (List σ×List σ)} (h : ∀ pair∈pairs,WellFormed newline separator mark pair) :
    parse newline separator mark (render newline separator pairs)=pairs := by
  have hread := parse_render_append hmark hline h []
  rw [List.append_nil] at hread
  exact hread.trans (List.append_nil pairs)

end Pairs

end PacketPipe.KeyValueLines

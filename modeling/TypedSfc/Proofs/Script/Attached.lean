import Mathlib.Data.List.Chain
import TypedSfc.Proofs.Text.Places
import TypedSfc.Script.Leading

/-!
# Comments that belong to a position

The comments before a position are the longest run, up to the last comment that ends there or earlier, in which only white space stands
between two neighbours and between the last one and the position.
-/

namespace TypedSfc

namespace Script

variable {content : List Char} {start stop : Nat} {c : Comment} {cs : List Comment}

/-! ## What stands between positions -/

/-- Something other than white space stands between two positions of a text. A position that lies within a character or behind the end
of the text has nothing before it. -/
def Parted (content : List Char) (start stop : Nat) : Prop :=
  ∃ t, Text.StandsAt content start t ∧ stop = start + Text.size t ∧ Text.isBlank t = false

theorem isBlank_between_iff : Text.isBlank (Text.between start stop content) = true ↔ ¬Parted content start stop := by
  constructor
  · rintro hblank ⟨t, hstands, rfl, ht⟩
    rw [hstands.between_eq, ht] at hblank
    cases hblank
  · intro hparted
    rcases Text.between_eq_nil_or start stop content with hnil | ⟨hstands, hstop⟩
    · rw [hnil]
      rfl
    · rw [← Bool.not_eq_false]
      intro hblank
      exact hparted ⟨_, hstands, hstop, hblank⟩

/-! ## Runs of comments -/

/-- Only white space stands between neighbours among some comments, and between the last of them and a position. -/
def Attached (content : List Char) (start : Nat) (cs : List Comment) : Prop :=
  cs.IsChain (fun a b => ¬Parted content a.span.stop b.span.start) ∧ ∀ c ∈ cs.getLast?, ¬Parted content c.span.stop start

/-- Where a run of comments before a position starts; a run of none starts at the position. -/
def startOf (start : Nat) (cs : List Comment) : Nat := (cs.head?.map (·.span.start)).getD start

theorem attached_nil : Attached content start [] := ⟨.nil, by simp⟩

theorem attached_concat_iff : Attached content start (cs ++ [c]) ↔ Attached content c.span.start cs ∧ ¬Parted content c.span.stop start := by
  simp [Attached, List.isChain_append]

theorem startOf_concat : startOf start (cs ++ [c]) = startOf c.span.start cs := by cases cs <;> rfl

/-- Going back from a position, the comments that are taken are a run that starts at a comment behind which something stands, or at the
first comment. -/
theorem exists_adjacent (content : List Char) (start : Nat) (cs : List Comment) :
    ∃ rest, cs = adjacent content start cs ++ rest ∧ Attached content start (adjacent content start cs).reverse ∧
      ∀ c ∈ rest.head?, Parted content c.span.stop (startOf start (adjacent content start cs).reverse) := by
  induction cs generalizing start with
  | nil => exact ⟨[], rfl, attached_nil, by simp⟩
  | cons c cs ih =>
    by_cases hparted : Parted content c.span.stop start
    · have hstop : adjacent content start (c :: cs) = [] := by
        rw [adjacent, if_neg (mt isBlank_between_iff.1 (not_not_intro hparted))]
      rw [hstop]
      refine ⟨c :: cs, rfl, attached_nil, ?_⟩
      intro d hd
      obtain rfl := Option.some.inj hd
      exact hparted
    · have htaken : adjacent content start (c :: cs) = c :: adjacent content c.span.start cs := by
        rw [adjacent, if_pos (isBlank_between_iff.2 hparted)]
      obtain ⟨rest, hrest, hattached, hbefore⟩ := ih c.span.start
      rw [htaken, List.reverse_cons]
      refine ⟨rest, ?_, attached_concat_iff.2 ⟨hattached, hparted⟩, ?_⟩
      · rw [List.cons_append, ← hrest]
      · rw [startOf_concat]
        exact hbefore

/-! ## Comments of a script -/

/-- Comments in the order of a text: each starts before it ends, and ends before the next one starts. -/
structure Ordered (cs : List Comment) : Prop where
  start_le_stop : ∀ c ∈ cs, c.span.start ≤ c.span.stop
  apart : cs.Pairwise fun a b => a.span.stop ≤ b.span.start

theorem Ordered.tail (h : Ordered (c :: cs)) : Ordered cs :=
  ⟨fun d hd => h.start_le_stop d (List.mem_cons_of_mem c hd), h.apart.tail⟩

/-- Of comments in order, those that end at a position or earlier come first. -/
theorem Ordered.exists_behind (h : Ordered cs) (start : Nat) :
    ∃ behind, cs = cs.filter (fun c => decide (c.span.stop ≤ start)) ++ behind ∧ ∀ c ∈ behind, start < c.span.stop := by
  induction cs with
  | nil => exact ⟨[], rfl, by simp⟩
  | cons c cs ih =>
    by_cases hc : c.span.stop ≤ start
    · obtain ⟨behind, heq, hbehind⟩ := ih h.tail
      refine ⟨behind, ?_, hbehind⟩
      rw [List.filter_cons_of_pos (by simpa using hc), List.cons_append, ← heq]
    · have hlater : ∀ d ∈ c :: cs, start < d.span.stop := by
        intro d hd
        rcases List.mem_cons.1 hd with rfl | hmem
        · omega
        · have hapart := List.rel_of_pairwise_cons h.apart hmem
          have hown := h.start_le_stop d hd
          omega
      refine ⟨c :: cs, ?_, hlater⟩
      rw [List.filter_eq_nil_iff.2 fun d hd => by simpa using hlater d hd, List.nil_append]

/-- Among comments in order, those before a position are a slice that ends with the last comment which ends there or earlier: only white
space stands between its neighbours and before the position, and something else stands between it and the comment before it. The closest
block comment is the last one of the slice. -/
theorem Module.leading_maximal (m : Module) (content : String) (start : Nat) (h : Ordered m.comments) :
    (∃ before behind, m.comments = before ++ m.leading content start ++ behind ∧
      (∀ c ∈ before ++ m.leading content start, c.span.stop ≤ start) ∧ (∀ c ∈ behind, start < c.span.stop) ∧
        Attached content.toList start (m.leading content start) ∧
          ∀ c ∈ before.getLast?, Parted content.toList c.span.stop (startOf start (m.leading content start))) ∧
      m.closestBlock content start = ((m.leading content start).filter (·.isBlock)).getLast?.map (·.span) := by
  obtain ⟨behind, heq, hbehind⟩ := h.exists_behind start
  obtain ⟨rest, hrest, hattached, hbefore⟩ := exists_adjacent content.toList start
    (m.comments.filter fun c => decide (c.span.stop ≤ start)).reverse
  have hended : m.comments.filter (fun c => decide (c.span.stop ≤ start)) = rest.reverse ++ m.leading content start := by
    rw [Module.leading, ← List.reverse_append, ← hrest, List.reverse_reverse]
  refine ⟨⟨rest.reverse, behind, ?_, ?_, hbehind, hattached, ?_⟩, ?_⟩
  · rw [← hended]
    exact heq
  · intro c hc
    rw [← hended] at hc
    simpa using (List.mem_filter.1 hc).2
  · intro c hc
    rw [List.getLast?_reverse] at hc
    exact hbefore c hc
  · rw [Module.closestBlock, ← List.head?_filter, List.filter_reverse, List.head?_reverse]

/-- A comment, a call, and two comments before another call. -/
def commentedCalls : String := "/* a */ foo();\n// b\n/* c */\nbar();"

/-- The comments of the two calls, in order. -/
def callComments : List Comment := [⟨true, " a ", ⟨0, 7⟩⟩, ⟨false, " b", ⟨15, 19⟩⟩, ⟨true, " c ", ⟨20, 27⟩⟩]

theorem leading_maximal_commentedCalls :
    let m : Module := ⟨none, callComments, []⟩
    Ordered m.comments ∧ m.leading commentedCalls 28 = callComments.tail ∧ m.closestBlock commentedCalls 28 = some ⟨20, 27⟩ ∧
      ∃ before behind, callComments = before ++ callComments.tail ++ behind ∧
        ∀ c ∈ before.getLast?, Parted commentedCalls.toList c.span.stop 15 := by
  intro m
  have hordered : Ordered m.comments := ⟨by decide, by decide⟩
  have hleading : m.leading commentedCalls 28 = callComments.tail := by decide +kernel
  obtain ⟨⟨before, behind, heq, -, -, -, hparted⟩, -⟩ := Module.leading_maximal m commentedCalls 28 hordered
  rw [hleading] at heq hparted
  exact ⟨hordered, hleading, by decide +kernel, before, behind, heq, hparted⟩

end Script

end TypedSfc

import TypedSfc.Proofs.Mapping.Diagnose

/-!
# Two lookups of a range

A range of the generated text is looked up in two ways: by one pass over the entries that keeps the innermost answer so far, and by
sorting the entries around it, where the first that lets a code surface decides. The pass replaces its answer by a later entry of the
same extent, and the sort puts a later entry before an earlier one of the same extent, so the pass ends with the first of the sorted
candidates, for any number of entries that overlap, tie or are of no length.
-/

namespace TypedSfc

/-! ## The first of a sorted list -/

/-- What comes first of a list that is sorted with one more element in front: that element, unless the first of the rest is before it. -/
theorem head?_mergeSort_cons {α : Type} {le : α → α → Bool} (trans : ∀ a b c, le a b → le b c → le a c)
    (total : ∀ a b, le a b || le b a) (a : α) (l : List α) :
    ((a :: l).mergeSort le).head? =
      match (l.mergeSort le).head? with
      | some b => if le a b then some a else some b
      | none => some a := by
  have hsorted := List.pairwise_mergeSort trans total (a :: l)
  obtain ⟨l₁, l₂, h₁, h₂, hlt⟩ := List.mergeSort_cons trans total a l
  rw [h₁] at hsorted ⊢
  rw [h₂]
  cases l₁ with
  | nil =>
    cases l₂ with
    | nil => rfl
    | cons b l₂ =>
      have hab : le a b = true := (List.pairwise_cons.1 hsorted).1 b (by simp)
      simp [hab]
  | cons b l₁ =>
    have hab : le a b = false := by simpa using hlt b (by simp)
    simp [hab]

namespace Entry

/-- The document range of an entry begins at a position of one of its links and ends at a position of one of its links, and it does not
go backward. -/
theorem documentRange_eq_some {e : Entry} {start stop : Nat} {r : Span × Nat} (h : e.documentRange start stop = some r) :
    ∃ a ∈ e.links, ∃ b ∈ e.links, a.meets start = true ∧ b.meets stop = true ∧
      r.1 = ⟨a.documentPosition start, b.documentPosition stop⟩ ∧ r.1.start ≤ r.1.stop := by
  unfold documentRange at h
  obtain ⟨a, ha, h⟩ := List.exists_of_findSome?_eq_some h
  by_cases hstart : a.meets start = true
  · rw [if_pos hstart] at h
    obtain ⟨b, hb, h⟩ := List.exists_of_findSome?_eq_some h
    by_cases hstop : (b.meets stop && decide (a.documentPosition start ≤ b.documentPosition stop)) = true
    · rw [if_pos hstop, Option.some.injEq] at h
      rw [Bool.and_eq_true, decide_eq_true_eq] at hstop
      subst h
      exact ⟨a, ha, b, hb, hstart, hstop.1, rfl, hstop.2⟩
    · simp [hstop] at h
  · simp [hstart] at h

end Entry

namespace Candidate

/-- What is reported for a diagnostic that a candidate decides. -/
def report (c : Candidate) (d : Diagnostic) : DocumentDiagnostic := ⟨d.code, c.span, c.entry.source, d.message⟩

end Candidate

namespace SourceMap

/-! ## The pass and the sort -/

/-- The first candidate of a map with one more entry: the new one, when it covers the range and nothing before it is narrower. -/
theorem head?_candidates_concat (es : List Entry) (e : Entry) (start stop : Nat) :
    (candidates ⟨es ++ [e]⟩ start stop).head?.map (fun c => (c.span, c.extent)) =
      innermost ((candidates ⟨es⟩ start stop).head?.map fun c => (c.span, c.extent)) (e.documentRange start stop) := by
  have htrans : ∀ a b c : Candidate, decide (a.extent ≤ b.extent) = true → decide (b.extent ≤ c.extent) = true →
      decide (a.extent ≤ c.extent) = true := by
    intro a b c hab hbc
    simp only [decide_eq_true_eq] at hab hbc ⊢
    omega
  have htotal : ∀ a b : Candidate, (decide (a.extent ≤ b.extent) || decide (b.extent ≤ a.extent)) = true := by
    intro a b
    simp only [Bool.or_eq_true, decide_eq_true_eq]
    omega
  unfold candidates
  rw [List.reverse_append, List.reverse_singleton, List.singleton_append, List.filterMap_cons]
  generalize es.reverse.filterMap (fun e => (e.documentRange start stop).map fun r => (⟨e, r.1, r.2⟩ : Candidate)) = rest
  cases hr : e.documentRange start stop with
  | none =>
    rw [Option.map_none]
    dsimp only
    cases (rest.mergeSort fun a b => decide (a.extent ≤ b.extent)).head? <;> rfl
  | some r =>
    rw [Option.map_some]
    dsimp only
    rw [head?_mergeSort_cons htrans htotal]
    cases (rest.mergeSort fun a b => decide (a.extent ≤ b.extent)).head? with
    | none => rfl
    | some c =>
      by_cases hle : r.2 ≤ c.extent
      · simp [innermost, hle]
      · simp [innermost, hle]

/-- The pass over the entries ends with the first candidate. -/
theorem foldl_innermost_eq (es : List Entry) (start stop : Nat) :
    es.foldl (fun best e => innermost best (e.documentRange start stop)) none =
      (candidates ⟨es⟩ start stop).head?.map fun c => (c.span, c.extent) := by
  induction es using List.reverseRecOn with
  | nil => simp [candidates]
  | append_singleton es e ih =>
    rw [List.foldl_append, List.foldl_cons, List.foldl_nil, ih, head?_candidates_concat]

theorem documentRange_eq (m : SourceMap) (start stop : Nat) :
    m.documentRange start stop = (m.candidates start stop).head?.map Candidate.span := by
  rw [documentRange, foldl_innermost_eq, Option.map_map]
  rfl

/-! ## The first candidate -/

/-- The first candidate covers the range, and every other that does is behind it. -/
theorem head?_candidates_eq_some_iff {m : SourceMap} {d : Diagnostic} {c : Candidate} :
    (m.candidates d.start d.stop).head? = some c ↔
      ∃ n, m.Covers d n c ∧ ∀ n' c', m.Covers d n' c' → (c', n') = (c, n) ∨ Ahead (c, n) (c', n') := by
  have hfirst := fun x => find?_eq_some_of_pairwise ahead_asymm (m.pairwise_ranked d.start d.stop) (p := fun _ => true) (x := x)
  have hhead : (m.ranked d.start d.stop).head? = (m.ranked d.start d.stop).find? fun _ => true := by
    cases m.ranked d.start d.stop <;> rfl
  rw [candidates_eq, List.head?_map, hhead, Option.map_eq_some_iff]
  constructor
  · rintro ⟨⟨c, n⟩, hfind, rfl⟩
    obtain ⟨hmem, -, hall⟩ := (hfirst _).1 hfind
    refine ⟨n, mem_ranked.1 hmem, ?_⟩
    intro n' c' hc'
    exact hall (c', n') (mem_ranked.2 hc') rfl
  · rintro ⟨n, hc, hall⟩
    refine ⟨(c, n), (hfirst _).2 ⟨mem_ranked.2 hc, rfl, ?_⟩, rfl⟩
    rintro ⟨c', n'⟩ hmem' -
    exact hall n' c' (mem_ranked.1 hmem')

/-- A range has no candidate exactly when no entry covers it. -/
theorem candidates_eq_nil_iff {m : SourceMap} {start stop : Nat} :
    m.candidates start stop = [] ↔ ∀ e ∈ m.entries, e.documentRange start stop = none := by
  unfold candidates
  rw [← List.length_eq_zero_iff, List.length_mergeSort, List.length_eq_zero_iff, List.filterMap_eq_nil_iff]
  simp

/-- With entries that accept every code, the first candidate decides. -/
theorem reported_of_always {m : SourceMap} (h : ∀ e ∈ m.entries, e.policy = .always) (met : List Nat) (d : Diagnostic) :
    m.reported met d = (m.candidates d.start d.stop).head?.map fun c => c.report d := by
  have hdecides : ∀ c ∈ m.candidates d.start d.stop, decides met d.code c.entry.policy = true := by
    intro c hc
    rw [candidates_eq, List.mem_map] at hc
    obtain ⟨⟨c, n⟩, hmem, rfl⟩ := hc
    rw [h c.entry (List.mem_of_getElem? (mem_ranked.1 hmem).1)]
    rfl
  unfold reported
  cases hcs : m.candidates d.start d.stop with
  | nil => rfl
  | cons c cs =>
    rw [hcs] at hdecides
    rw [List.find?_cons_of_pos (p := fun c : Candidate => decides met d.code c.entry.policy) (hdecides c (by simp))]
    rfl

/-- With entries that accept every code, one diagnostic yields what its first candidate says, or nothing. -/
theorem mapDiagnostics_singleton_of_always {m : SourceMap} (h : ∀ e ∈ m.entries, e.policy = .always) (d : Diagnostic) :
    m.mapDiagnostics [d] = ((m.candidates d.start d.stop).head?.map fun c => c.report d).toList := by
  rw [mapDiagnostics_eq, List.filterMap_cons, List.filterMap_nil, reported_of_always h]
  cases (m.candidates d.start d.stop).head? <;> simp

/-- The two lookups agree. The pass gives the span of the first candidate, so of the entry that covers the range and has every other
that does behind it, and it gives nothing exactly when there is no candidate; that span begins and ends in links of one entry and does
not go backward. Hence, when every entry accepts every code, a diagnostic is carried to exactly the range that the pass gives, and
dropped when it gives none. -/
theorem lookups_agree (m : SourceMap) (start stop : Nat) :
    m.documentRange start stop = (m.candidates start stop).head?.map Candidate.span ∧
      (m.documentRange start stop = none ↔ m.candidates start stop = []) ∧
      (∀ code message c, (m.candidates start stop).head? = some c ↔
        ∃ n, m.Covers ⟨code, start, stop, message⟩ n c ∧
          ∀ n' c', m.Covers ⟨code, start, stop, message⟩ n' c' → (c', n') = (c, n) ∨ Ahead (c, n) (c', n')) ∧
      (∀ span, m.documentRange start stop = some span → ∃ e ∈ m.entries, ∃ a ∈ e.links, ∃ b ∈ e.links,
        a.meets start = true ∧ b.meets stop = true ∧ span = ⟨a.documentPosition start, b.documentPosition stop⟩ ∧
          span.start ≤ span.stop) ∧
      ((∀ e ∈ m.entries, e.policy = .always) → ∀ code message,
        m.mapDiagnostics [⟨code, start, stop, message⟩] =
            ((m.candidates start stop).head?.map fun c => c.report ⟨code, start, stop, message⟩).toList ∧
          (m.mapDiagnostics [⟨code, start, stop, message⟩]).map DocumentDiagnostic.span = (m.documentRange start stop).toList) := by
  refine ⟨documentRange_eq m start stop, ?_, ?_, ?_, ?_⟩
  · rw [documentRange_eq, Option.map_eq_none_iff, List.head?_eq_none_iff]
  · intro code message c
    exact head?_candidates_eq_some_iff (d := ⟨code, start, stop, message⟩)
  · intro span hspan
    rw [documentRange_eq, Option.map_eq_some_iff] at hspan
    obtain ⟨c, hc, rfl⟩ := hspan
    obtain ⟨n, hcovers, -⟩ := (head?_candidates_eq_some_iff (d := ⟨0, start, stop, ""⟩)).1 hc
    obtain ⟨a, ha, b, hb, hlinks⟩ := Entry.documentRange_eq_some hcovers.2
    exact ⟨c.entry, List.mem_of_getElem? hcovers.1, a, ha, b, hb, hlinks⟩
  · intro h code message
    have hone := mapDiagnostics_singleton_of_always h ⟨code, start, stop, message⟩
    refine ⟨hone, ?_⟩
    rw [hone, documentRange_eq]
    cases (m.candidates start stop).head? <;> rfl

/-- A map of a group around an entry, an entry with the extent of that group, and an entry of no length. -/
def overlapping : SourceMap :=
  ⟨[⟨.template, [⟨0, 0, 4⟩, ⟨10, 4, 6⟩], .always⟩, ⟨.template, [⟨30, 0, 10⟩], .always⟩, ⟨.template, [⟨50, 2, 0⟩], .always⟩]⟩

theorem lookups_agree_overlapping :
    (∀ e ∈ overlapping.entries, e.policy = .always) ∧
      (overlapping.mapDiagnostics [⟨2322, 0, 10, "type"⟩]).map DocumentDiagnostic.span = [⟨30, 40⟩] ∧
      (overlapping.mapDiagnostics [⟨2322, 2, 2, "type"⟩]).map DocumentDiagnostic.span = [⟨50, 50⟩] ∧
      (overlapping.mapDiagnostics [⟨2322, 8, 12, "type"⟩]).map DocumentDiagnostic.span = [] := by
  have h : ∀ e ∈ overlapping.entries, e.policy = .always := by decide
  refine ⟨h, ?_, ?_, ?_⟩
  · rw [((lookups_agree overlapping 0 10).2.2.2.2 h 2322 "type").2]
    rfl
  · rw [((lookups_agree overlapping 2 2).2.2.2.2 h 2322 "type").2]
    rfl
  · rw [((lookups_agree overlapping 8 12).2.2.2.2 h 2322 "type").2]
    rfl

end SourceMap

end TypedSfc

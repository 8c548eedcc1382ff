import TypedSfc.Proofs.Mapping.Candidates
import TypedSfc.Proofs.Mapping.Settle

/-!
# What becomes of a diagnostic

A frame is used when a diagnostic on its way outward meets an expectation of the frame that counts its code, or meets a marker within the
frame whose own frame is unused. With that known, each diagnostic goes to the first entry around it that accepts it, or nowhere. Both
are said here of the diagnostics as a whole, without a run over them one after another.
-/

namespace TypedSfc

namespace Entry

/-- An entry covers two ends when each lies in a link of it, and the first does not come after the second in the document. -/
theorem documentRange_isSome_iff (e : Entry) (start stop : Nat) :
    (e.documentRange start stop).isSome = true ↔ ∃ a ∈ e.links, ∃ b ∈ e.links,
      a.meets start = true ∧ b.meets stop = true ∧ a.documentPosition start ≤ b.documentPosition stop := by
  unfold documentRange
  rw [List.findSome?_isSome_iff]
  constructor
  · rintro ⟨a, ha, h⟩
    by_cases hstart : a.meets start = true
    · rw [if_pos hstart, List.findSome?_isSome_iff] at h
      obtain ⟨b, hb, h⟩ := h
      by_cases hstop : (b.meets stop && decide (a.documentPosition start ≤ b.documentPosition stop)) = true
      · rw [Bool.and_eq_true, decide_eq_true_eq] at hstop
        exact ⟨a, ha, b, hb, hstart, hstop.1, hstop.2⟩
      · simp [hstop] at h
    · simp [hstart] at h
  · rintro ⟨a, ha, b, hb, hstart, hstop, hle⟩
    refine ⟨a, ha, ?_⟩
    rw [if_pos hstart, List.findSome?_isSome_iff]
    exact ⟨b, hb, by simp [hstop, hle]⟩

end Entry

namespace SourceMap

/-! ## Used frames -/

/-- Some diagnostic meets an expectation of the frame that counts its code. -/
def Counts (m : SourceMap) (ds : List Diagnostic) (frame : Nat) : Prop :=
  ∃ d ∈ ds, ∃ n c codes, m.Meets d n c ∧ c.entry.policy = .expected frame codes ∧ d.code ∉ codes

/-- Some diagnostic meets a marker of `frame` within `outer`. -/
def Marks (m : SourceMap) (ds : List Diagnostic) (frame outer : Nat) : Prop :=
  ∃ d ∈ ds, ∃ n c, m.Meets d n c ∧ c.entry.policy = .unused frame (some outer)

/-- What it takes for a set of frames to be the used ones. -/
def Settles (m : SourceMap) (ds : List Diagnostic) (used : Nat → Prop) : Prop :=
  ∀ frame, used frame ↔ m.Counts ds frame ∨ ∃ inner, m.Marks ds inner frame ∧ ¬used inner

/-- The frames counted over all diagnostics. -/
def counted (m : SourceMap) (ds : List Diagnostic) : List Nat := ds.flatMap fun d => framesMet d.code (m.candidates d.start d.stop)

/-- The markers met over all diagnostics. -/
def marked (m : SourceMap) (ds : List Diagnostic) : List (Nat × Nat) := ds.flatMap fun d => markersMet d.code (m.candidates d.start d.stop)

theorem mem_counted {m : SourceMap} {ds : List Diagnostic} {frame : Nat} : frame ∈ m.counted ds ↔ m.Counts ds frame := by
  unfold counted Counts
  rw [List.mem_flatMap]
  refine exists_congr fun d => and_congr_right fun _ => ?_
  rw [mem_framesMet]
  constructor
  · rintro ⟨c, hc, codes, hp, hn⟩
    obtain ⟨n, hc⟩ := mem_walk.1 hc
    exact ⟨n, c, codes, hc, hp, hn⟩
  · rintro ⟨n, c, codes, hc, hp, hn⟩
    exact ⟨c, mem_walk.2 ⟨n, hc⟩, codes, hp, hn⟩

theorem mem_marked {m : SourceMap} {ds : List Diagnostic} {frame outer : Nat} :
    (frame, outer) ∈ m.marked ds ↔ m.Marks ds frame outer := by
  unfold marked Marks
  rw [List.mem_flatMap]
  refine exists_congr fun d => and_congr_right fun _ => ?_
  rw [mem_markersMet]
  constructor
  · rintro ⟨c, hc, hp⟩
    obtain ⟨n, hc⟩ := mem_walk.1 hc
    exact ⟨n, c, hc, hp⟩
  · rintro ⟨n, c, hc, hp⟩
    exact ⟨c, mem_walk.2 ⟨n, hc⟩, hp⟩

/-- A marker that is met is the policy of an entry. -/
theorem Marks.exists_entry {m : SourceMap} {ds : List Diagnostic} {frame outer : Nat} (h : m.Marks ds frame outer) :
    ∃ e ∈ m.entries, e.policy = .unused frame (some outer) := by
  obtain ⟨d, -, n, c, hc, hp⟩ := h
  exact ⟨c.entry, List.mem_of_getElem? hc.1.1, hp⟩

/-- Settling computes the used frames, when every marker stands within a frame of a smaller number. -/
theorem settles_settle {m : SourceMap} (h : ∀ e ∈ m.entries, ∀ f o, e.policy = .unused f (some o) → o < f) (ds : List Diagnostic) :
    m.Settles ds fun frame => frame ∈ settle (m.counted ds) (m.marked ds) := by
  have hlt : ∀ k ∈ m.marked ds, k.2 < k.1 := by
    intro k hk
    obtain ⟨e, he, hp⟩ := (mem_marked.1 hk).exists_entry
    exact h e he k.1 k.2 hp
  intro frame
  refine (mem_settle hlt).trans (or_congr mem_counted ⟨?_, ?_⟩)
  · rintro ⟨k, hk, rfl, hn⟩
    exact ⟨k.1, mem_marked.1 hk, hn⟩
  · rintro ⟨inner, hm, hn⟩
    exact ⟨(inner, frame), mem_marked.2 hm, rfl, hn⟩

/-- There is only one set of used frames, when every marker stands within a frame of a smaller number. -/
theorem Settles.unique {m : SourceMap} (h : ∀ e ∈ m.entries, ∀ f o, e.policy = .unused f (some o) → o < f) {ds : List Diagnostic}
    {used used' : Nat → Prop} (hused : m.Settles ds used) (hused' : m.Settles ds used') : used' = used := by
  have hlt : ∀ k ∈ m.marked ds, k.2 < k.1 := by
    intro k hk
    obtain ⟨e, he, hp⟩ := (mem_marked.1 hk).exists_entry
    exact h e he k.1 k.2 hp
  have hrule : ∀ {used}, m.Settles ds used → ∀ o, used o ↔ m.Counts ds o ∨ ∃ f, (f, o) ∈ m.marked ds ∧ ¬used f := by
    intro used hused o
    simpa only [mem_marked] using hused o
  exact settled_unique hlt (hrule hused) (hrule hused')

/-! ## The place of a diagnostic -/

/-- Whether a policy accepts a code, given the used frames. -/
def Accepts (used : Nat → Prop) (code : Nat) : Policy → Prop
  | .unused frame none => ¬used frame
  | p => p.accepts code = true

/-- A diagnostic goes to the range and the source of an entry: it accepts the code, and every other that covers the diagnostic and accepts
the code is behind it. -/
def Decides (m : SourceMap) (used : Nat → Prop) (d : Diagnostic) (r : DocumentDiagnostic) : Prop :=
  ∃ n c, m.Covers d n c ∧ Accepts used d.code c.entry.policy ∧
    (∀ n' c', m.Covers d n' c' → Accepts used d.code c'.entry.policy → (c', n') = (c, n) ∨ Ahead (c, n) (c', n')) ∧
    r = ⟨d.code, c.span, c.entry.source, d.message⟩

/-- What is reported for one diagnostic, given the frames that met an error. -/
def reported (m : SourceMap) (met : List Nat) (d : Diagnostic) : Option DocumentDiagnostic :=
  ((m.candidates d.start d.stop).find? fun c => decides met d.code c.entry.policy).map fun c =>
    ⟨d.code, c.span, c.entry.source, d.message⟩

/-- Each diagnostic is reported for itself, once the frames are settled. -/
theorem mapDiagnostics_eq (m : SourceMap) (ds : List Diagnostic) :
    m.mapDiagnostics ds = (ds.filterMap (m.reported (settle (m.counted ds) (m.marked ds)))).mergeSort before := by
  simp only [mapDiagnostics, List.flatMap_map, List.filterMap_map]
  rfl

theorem decides_eq_true_iff {met : List Nat} {code : Nat} {p : Policy} :
    decides met code p = true ↔ Accepts (· ∈ met) code p := by
  cases p with
  | unused f o => cases o <;> simp [decides, Accepts]
  | never => rfl
  | always => rfl
  | allBut codes => rfl
  | expected f codes => rfl

theorem reported_eq_some_iff {m : SourceMap} {met : List Nat} {d : Diagnostic} {r : DocumentDiagnostic} :
    m.reported met d = some r ↔ m.Decides (· ∈ met) d r := by
  unfold reported Decides
  rw [candidates_eq, List.find?_map, Option.map_map, Option.map_eq_some_iff]
  constructor
  · rintro ⟨⟨c, n⟩, hfind, rfl⟩
    obtain ⟨hmem, hp, hfirst⟩ := (find?_eq_some_of_pairwise ahead_asymm (m.pairwise_ranked d.start d.stop)).1 hfind
    refine ⟨n, c, mem_ranked.1 hmem, decides_eq_true_iff.1 hp, ?_, rfl⟩
    intro n' c' hc' ha'
    exact hfirst (c', n') (mem_ranked.2 hc') (decides_eq_true_iff.2 ha')
  · rintro ⟨n, c, hc, ha, hfirst, rfl⟩
    have hmem : (c, n) ∈ m.ranked d.start d.stop := mem_ranked.2 hc
    refine ⟨(c, n), (find?_eq_some_of_pairwise ahead_asymm (m.pairwise_ranked d.start d.stop)).2
      ⟨hmem, decides_eq_true_iff.2 ha, ?_⟩, rfl⟩
    rintro ⟨c', n'⟩ hmem' hp
    exact hfirst n' c' (mem_ranked.1 hmem') (decides_eq_true_iff.1 hp)

/-- A diagnostic is reported exactly when an entry that covers it accepts it. -/
theorem reported_isSome_iff {m : SourceMap} {met : List Nat} {d : Diagnostic} :
    (m.reported met d).isSome = true ↔ ∃ n c, m.Covers d n c ∧ Accepts (· ∈ met) d.code c.entry.policy := by
  unfold reported
  rw [Option.isSome_map, List.find?_isSome, candidates_eq]
  constructor
  · rintro ⟨c, hmem, hp⟩
    obtain ⟨⟨c, n⟩, hranked, rfl⟩ := List.mem_map.1 hmem
    exact ⟨n, c, mem_ranked.1 hranked, decides_eq_true_iff.1 hp⟩
  · rintro ⟨n, c, hc, ha⟩
    exact ⟨c, List.mem_map.2 ⟨(c, n), mem_ranked.2 hc, rfl⟩, decides_eq_true_iff.2 ha⟩

/-- Every diagnostic is decided by the rule. There is one set of used frames, and the answer is, in the order of the document, what each
diagnostic yields for itself: something exactly when an entry that covers it accepts it, and then the range and the source of the first
such entry. -/
theorem mapDiagnostics_decides (m : SourceMap) (h : ∀ e ∈ m.entries, ∀ f o, e.policy = .unused f (some o) → o < f)
    (ds : List Diagnostic) :
    ∃ used, m.Settles ds used ∧ (∀ used', m.Settles ds used' → used' = used) ∧
      ∃ answer : Diagnostic → Option DocumentDiagnostic, m.mapDiagnostics ds = (ds.filterMap answer).mergeSort before ∧
        ∀ d, ((answer d).isSome = true ↔ ∃ n c, m.Covers d n c ∧ Accepts used d.code c.entry.policy) ∧
          ∀ r, answer d = some r ↔ m.Decides used d r := by
  have hused := settles_settle h ds
  exact ⟨_, hused, fun used' hused' => hused.unique h hused', m.reported (settle (m.counted ds) (m.marked ds)), mapDiagnostics_eq m ds,
    fun d => ⟨reported_isSome_iff, fun r => reported_eq_some_iff⟩⟩

/-- A map with an expectation within another: the outer one and its marker, and within it the marker of the inner one. -/
def nested : SourceMap :=
  ⟨[⟨.template, [⟨0, 0, 20⟩], .expected 0 []⟩, ⟨.template, [⟨0, 20, 4⟩], .unused 0 none⟩,
    ⟨.template, [⟨4, 4, 8⟩], .unused 1 (some 0)⟩]⟩

/-- What a checker reports when neither expectation of `nested` meets an error. -/
def nestedReports : List Diagnostic := [⟨2578, 4, 12, "unused"⟩, ⟨2578, 20, 24, "unused"⟩]

theorem mapDiagnostics_decides_nested :
    (∀ e ∈ nested.entries, ∀ f o, e.policy = .unused f (some o) → o < f) ∧
      ∃ used, nested.Settles nestedReports used ∧ (∀ used', nested.Settles nestedReports used' → used' = used) ∧
        ∃ answer : Diagnostic → Option DocumentDiagnostic,
          nested.mapDiagnostics nestedReports = (nestedReports.filterMap answer).mergeSort before ∧
          ∀ d, ((answer d).isSome = true ↔ ∃ n c, nested.Covers d n c ∧ Accepts used d.code c.entry.policy) ∧
            ∀ r, answer d = some r ↔ nested.Decides used d r := by
  have h : ∀ e ∈ nested.entries, ∀ f o, e.policy = .unused f (some o) → o < f := by
    simp only [nested, List.forall_mem_cons]
    simp
  exact ⟨h, mapDiagnostics_decides nested h nestedReports⟩

/-! ## The order of the report -/

theorem before_iff {a b : DocumentDiagnostic} :
    before a b = true ↔ a.span.start < b.span.start ∨ a.span.start = b.span.start ∧ a.span.stop ≤ b.span.stop := by
  simp [before]

/-- The answer goes forward in the document. -/
theorem pairwise_mapDiagnostics (m : SourceMap) (ds : List Diagnostic) : (m.mapDiagnostics ds).Pairwise fun a b =>
    a.span.start < b.span.start ∨ a.span.start = b.span.start ∧ a.span.stop ≤ b.span.stop := by
  rw [mapDiagnostics_eq]
  refine (List.pairwise_mergeSort ?_ ?_ _).imp fun h => before_iff.1 h
  · intro a b c hab hbc
    rw [before_iff] at hab hbc ⊢
    omega
  · intro a b
    rw [Bool.or_eq_true, before_iff, before_iff]
    omega

/-- What is reported for a diagnostic hangs on which frames met an error, not on how often or in which order. -/
theorem reported_congr (m : SourceMap) {met met' : List Nat} (h : ∀ frame, frame ∈ met ↔ frame ∈ met') : m.reported met = m.reported met' := by
  have hdecides : decides met = decides met' := by
    funext code p
    have hsame : (· ∈ met) = (· ∈ met') := funext fun frame => propext (h frame)
    rw [Bool.eq_iff_iff, decides_eq_true_iff, decides_eq_true_iff, hsame]
  funext d
  rw [reported, reported, hdecides]

/-- The order in which diagnostics are reported has no say in the answer, when no marker stands within its own frame: the same reports
in another order give the same document diagnostics, each as often, and each answer is in the order of the document. -/
theorem mapDiagnostics_perm (m : SourceMap) (h : ∀ e ∈ m.entries, ∀ f, e.policy ≠ .unused f (some f)) {ds ds' : List Diagnostic}
    (hperm : ds.Perm ds') :
    (m.mapDiagnostics ds).Perm (m.mapDiagnostics ds') ∧
      ((m.mapDiagnostics ds).Pairwise fun a b =>
        a.span.start < b.span.start ∨ a.span.start = b.span.start ∧ a.span.stop ≤ b.span.stop) ∧
      ((m.mapDiagnostics ds').Pairwise fun a b =>
        a.span.start < b.span.start ∨ a.span.start = b.span.start ∧ a.span.stop ≤ b.span.stop) := by
  refine ⟨?_, pairwise_mapDiagnostics m ds, pairwise_mapDiagnostics m ds'⟩
  have hne : ∀ k ∈ m.marked ds, k.2 ≠ k.1 := by
    intro k hk heq
    obtain ⟨e, he, hp⟩ := (mem_marked.1 hk).exists_entry
    exact h e he k.1 (by rw [hp, heq])
  have hsame : m.reported (settle (m.counted ds) (m.marked ds)) = m.reported (settle (m.counted ds') (m.marked ds')) :=
    reported_congr m fun _ => mem_settle_of_perm (hperm.flatMap_right _) (hperm.flatMap_right _) hne
  rw [mapDiagnostics_eq, mapDiagnostics_eq, hsame]
  exact (List.mergeSort_perm _ _).trans ((hperm.filterMap _).trans (List.mergeSort_perm _ _).symm)

theorem mapDiagnostics_perm_nested :
    (∀ e ∈ nested.entries, ∀ f, e.policy ≠ .unused f (some f)) ∧ nestedReports.Perm nestedReports.reverse ∧
      (nested.mapDiagnostics nestedReports).Perm (nested.mapDiagnostics nestedReports.reverse) := by
  have h : ∀ e ∈ nested.entries, ∀ f, e.policy ≠ .unused f (some f) := by
    simp only [nested, List.forall_mem_cons]
    simp
  have hperm : nestedReports.Perm nestedReports.reverse := (List.reverse_perm _).symm
  exact ⟨h, hperm, (mapDiagnostics_perm nested h hperm).1⟩

end SourceMap

end TypedSfc

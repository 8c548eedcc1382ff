import TypedSfc.Proofs.Mapping.Placed
import TypedSfc.Proofs.Mapping.Stream

/-!
# What the builder builds

`Tracks` is the invariant of the builder: as long as no segment is a defect, its entries are those of the stream so far, and its groups
know the entry and the phase of every token. One lemma says that a segment without defect keeps it, another that a defect is kept for
good; what a whole stream comes to follows by induction from its end.
-/

namespace TypedSfc

open Segment

/-! ## Groups -/

namespace Builder

theorem closeGroup_tokens (t : Nat) (gs : List Group) : (closeGroup t gs).map (·.token) = gs.map (·.token) := by
  simp only [closeGroup, List.map_map]
  apply List.map_congr_left
  intro g _
  by_cases h : g.token = t <;> simp [h]

/-- The groups after one is closed: the same ones, of which that one no longer takes segments. -/
theorem mem_closeGroup {t : Nat} {gs : List Group} {g : Group} :
    g ∈ closeGroup t gs ↔ ∃ g' ∈ gs, g = if g'.token = t then { g' with isOpen := false } else g' := by
  simp [closeGroup, eq_comm]

end Builder

/-! ## The invariant -/

/-- The builder has taken a stream without defect: its entries are those of the stream, and each group knows the head of its entry and
whether it runs. -/
structure Tracks (bases : List Nat) (ss : List Segment) (b : Builder) : Prop where
  table : b.bases = bases
  text : b.text = contents ss
  entries : b.entries = entriesOf bases ss
  error : b.error = none
  /-- No link is lost or made twice. -/
  links : (b.entries.flatMap Entry.links).Perm ((placed ss).map (·.link bases))
  /-- Each group has its opening segment as the head of its entry. -/
  headed : ∀ g ∈ b.groups, ∃ p, (heads ss)[g.entry]? = some p ∧ p.info.role = some (.opens g.token)
  /-- No two entries are opened under one token. -/
  unique : (heads ss).Pairwise fun p q => ∀ t, p.info.role = some (.opens t) → q.info.role ≠ some (.opens t)
  /-- The groups are those of the tokens that were met. -/
  met : ∀ t, phase t ss ≠ .unmet ↔ ∃ g ∈ b.groups, g.token = t
  /-- A group is open as long as it runs. -/
  runs : ∀ g ∈ b.groups, phase g.token ss = if g.isOpen then .running else .done

theorem tracks_new (bases : List Nat) : Tracks bases [] (Builder.new bases) where
  table := rfl
  text := rfl
  entries := rfl
  error := rfl
  links := List.Perm.refl _
  headed := by intro g hg; simp [Builder.new] at hg
  unique := List.Pairwise.nil
  met := by intro t; simp [phase_nil, Builder.new]
  runs := by intro g hg; simp [Builder.new] at hg

namespace Tracks

variable {bases : List Nat} {ss : List Segment} {b : Builder}

/-- No group of the stream is broken. -/
theorem ne_broken (h : Tracks bases ss b) (t : Nat) : phase t ss ≠ .broken := by
  intro hb
  obtain ⟨g, hg, rfl⟩ := (h.met t).1 (by rw [hb]; nofun)
  have hr := h.runs g hg
  rw [hb] at hr
  cases ho : g.isOpen <;> simp [ho] at hr

theorem generatedOffset (h : Tracks bases ss b) : b.generatedOffset = totalSize ss := by
  rw [Builder.generatedOffset, h.text, utf8ByteSize_contents]

/-- The group that is looked up is the one of its token. -/
theorem find?_eq_some (h : Tracks bases ss b) {t : Nat} {g : Group} (hf : b.groups.find? (·.token = t) = some g) :
    g ∈ b.groups ∧ g.token = t ∧ phase t ss = if g.isOpen then .running else .done := by
  have hg := List.mem_of_find?_eq_some hf
  have ht : g.token = t := by simpa using List.find?_some hf
  exact ⟨hg, ht, ht ▸ h.runs g hg⟩

/-- No group is found for a token that was not met. -/
theorem find?_eq_none (h : Tracks bases ss b) {t : Nat} : b.groups.find? (·.token = t) = none ↔ phase t ss = .unmet := by
  rw [List.find?_eq_none, ← not_iff_not, ← ne_eq, h.met t]
  simp

/-- A running group is found, and open. -/
theorem find?_running (h : Tracks bases ss b) {t : Nat} (ht : phase t ss = .running) :
    ∃ g, b.groups.find? (·.token = t) = some g ∧ g ∈ b.groups ∧ g.token = t ∧ g.isOpen = true := by
  cases hf : b.groups.find? (·.token = t) with
  | none =>
    rw [h.find?_eq_none, ht] at hf
    cases hf
  | some g =>
    obtain ⟨hg, hgt, hp⟩ := h.find?_eq_some hf
    refine ⟨g, rfl, hg, hgt, ?_⟩
    rw [ht] at hp
    cases ho : g.isOpen with
    | true => rfl
    | false => simp [ho] at hp

end Tracks

namespace Tracks

variable {bases : List Nat} {ss : List Segment} {b : Builder}

/-- Text of its own changes no entry and no group. -/
theorem push_text (h : Tracks bases ss b) (t : String) : Tracks bases (ss ++ [.text t]) (b.push (.text t)) := by
  have hp : placed (ss ++ [.text t]) = placed ss := by rw [placed_snoc]; simp [placedAt]
  have hh : heads (ss ++ [.text t]) = heads ss := by rw [heads, hp, heads]
  have hph : ∀ u, phase u (ss ++ [.text t]) = phase u ss := by
    intro u
    rw [phase_snoc]
    rfl
  refine ⟨h.table, ?_, ?_, h.error, ?_, ?_, ?_, ?_, ?_⟩
  · rw [contents_snoc, ← h.text]
    rfl
  · rw [entriesOf, hh, hp]
    exact h.entries
  · rw [hp]
    exact h.links
  · rw [hh]
    exact h.headed
  · rw [hh]
    exact h.unique
  · intro u
    rw [hph]
    exact h.met u
  · intro g hg
    rw [hph]
    exact h.runs g hg

/-- The builder after a mapped segment of a known source: the text grows, and the link is put where the role of the segment says. -/
theorem push_mapped (h : Tracks bases ss b) {source : SourceId} (hs : source < bases.length) (t : String) (offset : Nat) (i : Info) :
    b.push (.mapped t source offset i) = (b.pushText t).place source ((behind ss t source offset i).link bases) i := by
  have hb : b.bases[source]? = some (bases.getD source 0) := by
    rw [h.table, List.getD_eq_getElem?_getD, List.getElem?_eq_getElem hs]
    rfl
  simp only [Builder.push, Builder.pushText, hb, h.generatedOffset]
  rfl

/-- A segment that stands alone makes an entry of its own. -/
theorem push_alone (h : Tracks bases ss b) {source : SourceId} (hs : source < bases.length) (t : String) (offset : Nat) {i : Info}
    (hi : i.role = none) : Tracks bases (ss ++ [.mapped t source offset i]) (b.push (.mapped t source offset i)) := by
  have hpush : b.push (.mapped t source offset i) =
      { b.pushText t with entries := b.entries ++ [⟨source, [(behind ss t source offset i).link bases], i.policy⟩] } := by
    rw [h.push_mapped hs, Builder.place, hi]
    rfl
  have hhead : (behind ss t source offset i).isHead = true := by simp [Placed.isHead, behind, hi]
  have hph : ∀ u, phase u (ss ++ [.mapped t source offset i]) = phase u ss := by
    intro u
    simp [phase_snoc, role?, hi]
  have hheads := heads_mapped ss t source offset i
  rw [if_pos hhead] at hheads
  rw [hpush]
  refine ⟨h.table, ?_, ?_, h.error, ?_, ?_, ?_, ?_, ?_⟩
  · rw [contents_snoc, ← h.text]
    rfl
  · rw [entriesOf_head hhead (by simp [hi]), ← h.entries]
  · rw [placed_mapped, List.map_append, List.flatMap_append]
    exact h.links.append (by simp)
  · intro g hg
    obtain ⟨p, hp, ho⟩ := h.headed g hg
    refine ⟨p, ?_, ho⟩
    rw [hheads, List.getElem?_append_left (List.getElem?_eq_some_iff.1 hp).1]
    exact hp
  · rw [hheads, List.pairwise_append]
    refine ⟨h.unique, List.pairwise_singleton _ _, ?_⟩
    intro p _ q hq u _ hqr
    rw [List.mem_singleton.1 hq] at hqr
    simp [behind, hi] at hqr
  · intro u
    rw [hph]
    exact h.met u
  · intro g hg
    rw [hph]
    exact h.runs g hg

/-- The phases after a segment with a role: only the group of its token moves. -/
theorem phase_role (ss : List Segment) (t : String) (source : SourceId) (offset : Nat) {i : Info} {r : Role}
    (hi : i.role = some r) (u : Nat) :
    phase u (ss ++ [.mapped t source offset i]) = if r.token = u then (phase u ss).next r else phase u ss := by
  simp [phase_snoc, role?, hi]

/-- A segment that opens a group makes an entry, and a group that is open. -/
theorem push_opens (h : Tracks bases ss b) {source : SourceId} (hs : source < bases.length) (t : String) (offset : Nat) {i : Info}
    {k : Nat} (hi : i.role = some (.opens k)) (hk : phase k ss = .unmet) :
    Tracks bases (ss ++ [.mapped t source offset i]) (b.push (.mapped t source offset i)) := by
  have hfind : b.groups.find? (·.token = (Role.opens k).token) = none := h.find?_eq_none.2 hk
  have hpush : b.push (.mapped t source offset i) =
      { b.pushText t with
        entries := b.entries ++ [⟨source, [(behind ss t source offset i).link bases], i.policy⟩]
        groups := b.groups ++ [⟨k, b.entries.length, true⟩] } := by
    rw [h.push_mapped hs, Builder.place, hi]
    simp only [Builder.pushText, hfind]
  have hhead : (behind ss t source offset i).isHead = true := by simp [Placed.isHead, behind, hi]
  have hph := phase_role ss t source offset hi
  have hheads := heads_mapped ss t source offset i
  rw [if_pos hhead] at hheads
  have hlen : b.entries.length = (heads ss).length := by rw [h.entries, entriesOf, List.length_map]
  rw [hpush]
  refine ⟨h.table, ?_, ?_, h.error, ?_, ?_, ?_, ?_, ?_⟩
  · rw [contents_snoc, ← h.text]
    rfl
  · rw [entriesOf_head hhead, ← h.entries]
    intro r hr
    obtain rfl := Option.some.inj (hi.symm.trans hr)
    exact hk
  · rw [placed_mapped, List.map_append, List.flatMap_append]
    exact h.links.append (by simp)
  · intro g hg
    rw [hheads]
    rcases List.mem_append.1 hg with hg | hg
    · obtain ⟨p, hp, ho⟩ := h.headed g hg
      exact ⟨p, by rw [List.getElem?_append_left (List.getElem?_eq_some_iff.1 hp).1]; exact hp, ho⟩
    · obtain rfl := List.mem_singleton.1 hg
      exact ⟨behind ss t source offset i, by simp [hlen], hi⟩
  · rw [hheads, List.pairwise_append]
    refine ⟨h.unique, List.pairwise_singleton _ _, ?_⟩
    intro p hp q hq u hpr hqr
    obtain rfl := List.mem_singleton.1 hq
    have hu : k = u := by simpa [behind, hi] using hqr
    have hin := not_inGroup_of_unmet hk p (isHead_of_mem_heads hp).1
    simp [Placed.inGroup, hpr, hu, Role.token] at hin
  · intro u
    rw [hph]
    by_cases hu : k = u
    · subst hu
      simp [Role.token, Phase.next_ne_unmet]
    · simpa [Role.token, hu] using h.met u
  · intro g hg
    rw [hph]
    rcases List.mem_append.1 hg with hg | hg
    · have hne : k ≠ g.token := by
        intro he
        exact (h.met k).2 ⟨g, hg, he.symm⟩ hk
      simpa [Role.token, hne] using h.runs g hg
    · obtain rfl := List.mem_singleton.1 hg
      simp [Role.token, hk, Phase.next]

/-- A segment that joins a running group adds a link to its entry. -/
theorem push_joins (h : Tracks bases ss b) {source : SourceId} (hs : source < bases.length) (t : String) (offset : Nat) {i : Info}
    {k : Nat} (hi : i.role = some (.joins k)) (hk : phase k ss = .running) :
    Tracks bases (ss ++ [.mapped t source offset i]) (b.push (.mapped t source offset i)) := by
  obtain ⟨g, hfind, hg, hgk, hopen⟩ := h.find?_running (t := (Role.joins k).token) hk
  have hpush : b.push (.mapped t source offset i) =
      { b.pushText t with entries := Builder.addLink g.entry ((behind ss t source offset i).link bases) b.entries } := by
    rw [h.push_mapped hs, Builder.place, hi]
    simp only [Builder.pushText, hfind, hopen, if_true]
  have hhead : (behind ss t source offset i).isHead = false := by simp [Placed.isHead, behind, hi]
  have hph : ∀ u, phase u (ss ++ [.mapped t source offset i]) = phase u ss := by
    intro u
    rw [phase_role ss t source offset hi]
    by_cases hu : k = u
    · simp [Role.token, ← hu, hk, Phase.next]
    · simp [Role.token, hu]
  have hheads : heads (ss ++ [.mapped t source offset i]) = heads ss := by rw [heads_mapped, hhead]; simp
  obtain ⟨p, hp, ho⟩ := h.headed g hg
  have hlt : g.entry < b.entries.length := by
    rw [h.entries, entriesOf, List.length_map]
    exact (List.getElem?_eq_some_iff.1 hp).1
  rw [hpush]
  refine ⟨h.table, ?_, ?_, h.error, ?_, ?_, ?_, ?_, ?_⟩
  · rw [contents_snoc, ← h.text]
    rfl
  · rw [entriesOf_inner hi hhead hp (by rw [ho, hgk]) h.unique, ← h.entries]
  · rw [placed_mapped, List.map_append]
    exact (Builder.flatMap_addLink hlt).trans (h.links.append_right _)
  · rw [hheads]
    exact h.headed
  · rw [hheads]
    exact h.unique
  · intro u
    rw [hph]
    exact h.met u
  · intro g hg
    rw [hph]
    exact h.runs g hg

/-- A segment that closes a running group adds a link to its entry, and the group is open no more. -/
theorem push_closes (h : Tracks bases ss b) {source : SourceId} (hs : source < bases.length) (t : String) (offset : Nat) {i : Info}
    {k : Nat} (hi : i.role = some (.closes k)) (hk : phase k ss = .running) :
    Tracks bases (ss ++ [.mapped t source offset i]) (b.push (.mapped t source offset i)) := by
  obtain ⟨g, hfind, hg, hgk, hopen⟩ := h.find?_running (t := (Role.closes k).token) hk
  have hpush : b.push (.mapped t source offset i) =
      { b.pushText t with
        entries := Builder.addLink g.entry ((behind ss t source offset i).link bases) b.entries
        groups := Builder.closeGroup k b.groups } := by
    rw [h.push_mapped hs, Builder.place, hi]
    simp only [Builder.pushText, hfind, hopen, if_true]
  have hhead : (behind ss t source offset i).isHead = false := by simp [Placed.isHead, behind, hi]
  have hph := phase_role ss t source offset hi
  have hheads : heads (ss ++ [.mapped t source offset i]) = heads ss := by rw [heads_mapped, hhead]; simp
  obtain ⟨p, hp, ho⟩ := h.headed g hg
  have hlt : g.entry < b.entries.length := by
    rw [h.entries, entriesOf, List.length_map]
    exact (List.getElem?_eq_some_iff.1 hp).1
  rw [hpush]
  refine ⟨h.table, ?_, ?_, h.error, ?_, ?_, ?_, ?_, ?_⟩
  · rw [contents_snoc, ← h.text]
    rfl
  · rw [entriesOf_inner hi hhead hp (by rw [ho, hgk]) h.unique, ← h.entries]
  · rw [placed_mapped, List.map_append]
    exact (Builder.flatMap_addLink hlt).trans (h.links.append_right _)
  · intro c hc
    obtain ⟨g', hg', rfl⟩ := Builder.mem_closeGroup.1 hc
    rw [hheads]
    by_cases hgt : g'.token = k
    · simpa [hgt] using h.headed g' hg'
    · simpa [hgt] using h.headed g' hg'
  · rw [hheads]
    exact h.unique
  · intro u
    have hsame : (∃ c ∈ Builder.closeGroup k b.groups, c.token = u) ↔ ∃ c ∈ b.groups, c.token = u := by
      rw [← List.mem_map, ← List.mem_map, Builder.closeGroup_tokens]
    rw [hph, hsame, ← h.met u]
    by_cases hu : k = u
    · subst hu
      simp [Role.token, hk, Phase.next]
    · simp [Role.token, hu]
  · intro c hc
    obtain ⟨g', hg', rfl⟩ := Builder.mem_closeGroup.1 hc
    rw [hph]
    by_cases hgt : g'.token = k
    · simp [hgt, Role.token, hk, Phase.next]
    · simpa [hgt, Ne.symm hgt, Role.token] using h.runs g' hg'

/-- A segment that is no defect keeps the invariant. -/
theorem push_sound (h : Tracks bases ss b) {s : Segment} (hd : defect bases ss s = none) : Tracks bases (ss ++ [s]) (b.push s) := by
  cases s with
  | text t => exact h.push_text t
  | mapped t source offset i =>
    have hs := source_lt_of_defect hd source rfl
    have hle : ¬bases.length ≤ source := Nat.not_le.2 hs
    cases hi : i.role with
    | none => exact h.push_alone hs t offset hi
    | some r =>
      cases r with
      | opens k =>
        refine h.push_opens hs t offset hi ?_
        by_contra hk
        have ho := (opened_iff_phase (h.ne_broken k)).2 hk
        simp [defect, hi, hle, ho] at hd
      | joins k =>
        refine h.push_joins hs t offset hi ?_
        rw [running_iff (h.ne_broken k)]
        by_contra hk
        simp [defect, hi, hle, hk] at hd
      | closes k =>
        refine h.push_closes hs t offset hi ?_
        rw [running_iff (h.ne_broken k)]
        by_contra hk
        simp [defect, hi, hle, hk] at hd

/-- A group that does not run is found closed. -/
theorem isOpen_eq_false (h : Tracks bases ss b) {t : Nat} {g : Group} (hf : b.groups.find? (·.token = t) = some g)
    (ht : phase t ss ≠ .running) : g.isOpen = false := by
  have hp := (h.find?_eq_some hf).2.2
  cases ho : g.isOpen with
  | false => rfl
  | true => exact absurd (by simpa [ho] using hp) ht

/-- A segment inside a group is a defect when the group does not run. -/
theorem not_running_of_defect {t : String} {source : SourceId} {offset k : Nat} {i : Info} {e : MappingError}
    (hb : phase k ss ≠ .broken) (hi : i.role = some (.joins k) ∨ i.role = some (.closes k)) (hs : source < bases.length)
    (hd : defect bases ss (.mapped t source offset i) = some e) : phase k ss ≠ .running ∧ e = .unopenedGroup k := by
  have hle : ¬bases.length ≤ source := Nat.not_le.2 hs
  have hno : ¬(Opened k ss ∧ ¬Closed k ss) := by
    intro ho
    rcases hi with hi | hi <;> simp [defect, hi, hle, ho] at hd
  refine ⟨fun hr => hno ((running_iff hb).1 hr), ?_⟩
  rcases hi with hi | hi <;> simpa [defect, hi, hle, hno, eq_comm] using hd

/-- A segment that is a defect leaves its error. -/
theorem push_defect (h : Tracks bases ss b) {s : Segment} {e : MappingError} (hd : defect bases ss s = some e) :
    (b.push s).error = some e := by
  cases s with
  | text t => simp [defect] at hd
  | mapped t source offset i =>
    by_cases hs : source < bases.length
    · have hle : ¬bases.length ≤ source := Nat.not_le.2 hs
      rw [h.push_mapped hs, Builder.place]
      cases hi : i.role with
      | none => simp [defect, hi, hle] at hd
      | some r =>
        cases r with
        | opens k =>
          have ho : Opened k ss := by
            by_contra ho
            simp [defect, hi, hle, ho] at hd
          have he : e = .reopenedGroup k := by simpa [defect, hi, hle, ho, eq_comm] using hd
          cases hf : b.groups.find? (·.token = (Role.opens k).token) with
          | none => exact absurd (h.find?_eq_none.1 hf) ((opened_iff_phase (h.ne_broken k)).1 ho)
          | some g => simp only [Builder.pushText, hf, Builder.fail, h.error, he, Option.or]
        | joins k =>
          have hr := not_running_of_defect (h.ne_broken k) (.inl hi) hs hd
          cases hf : b.groups.find? (·.token = (Role.joins k).token) with
          | none => simp only [Builder.pushText, hf, Builder.fail, h.error, hr.2, Option.or]
          | some g =>
            have ho := h.isOpen_eq_false hf hr.1
            simp only [Builder.pushText, hf, ho, Builder.fail, h.error, hr.2, Option.or, Bool.false_eq_true, if_false]
        | closes k =>
          have hr := not_running_of_defect (h.ne_broken k) (.inr hi) hs hd
          cases hf : b.groups.find? (·.token = (Role.closes k).token) with
          | none => simp only [Builder.pushText, hf, Builder.fail, h.error, hr.2, Option.or]
          | some g =>
            have ho := h.isOpen_eq_false hf hr.1
            simp only [Builder.pushText, hf, ho, Builder.fail, h.error, hr.2, Option.or, Bool.false_eq_true, if_false]
    · have hb : b.bases[source]? = none := by rw [h.table]; exact List.getElem?_eq_none (Nat.not_lt.1 hs)
      have he : e = .unknownSource source := by simpa [defect, Nat.not_lt.1 hs, eq_comm] using hd
      simp [Builder.push, Builder.pushText, hb, Builder.fail, h.error, he]

/-- The open groups are those that run. -/
theorem open_iff (h : Tracks bases ss b) {t : Nat} : phase t ss = .running ↔ ∃ g ∈ b.groups, g.isOpen = true ∧ g.token = t := by
  constructor
  · intro ht
    obtain ⟨g, -, hg, hgt, hgo⟩ := h.find?_running ht
    exact ⟨g, hg, hgo, hgt⟩
  · rintro ⟨g, hg, hgo, rfl⟩
    simpa [hgo] using h.runs g hg

theorem openToken_eq_none_iff (h : Tracks bases ss b) : b.openToken = none ↔ ∀ t, phase t ss ≠ .running := by
  simp only [Builder.openToken, List.min?_eq_none_iff, List.map_eq_nil_iff, List.filter_eq_nil_iff, ne_eq, h.open_iff]
  exact ⟨fun hn t ⟨g, hg, hgo, _⟩ => hn g hg hgo, fun hn g hg hgo => hn g.token ⟨g, hg, hgo, rfl⟩⟩

/-- The token that is reported is the smallest one of a running group. -/
theorem openToken_eq_some_iff (h : Tracks bases ss b) {t : Nat} :
    b.openToken = some t ↔ phase t ss = .running ∧ ∀ u, phase u ss = .running → t ≤ u := by
  simp only [Builder.openToken, List.min?_eq_some_iff, List.mem_map, List.mem_filter, h.open_iff, and_assoc]

end Tracks

/-! ## A whole stream -/

/-- A defect is kept for good. -/
theorem Builder.error_push {b : Builder} {e : MappingError} (h : b.error = some e) (s : Segment) : (b.push s).error = some e := by
  have hfail : ∀ e', (b.fail e').error = some e := by
    intro e'
    simp [Builder.fail, h]
  cases s with
  | text t => exact h
  | mapped t source offset i =>
    unfold Builder.push
    dsimp only
    split
    · exact hfail _
    · unfold Builder.place
      split
      · exact h
      · split
        · exact h
        · exact hfail _
        · split
          · exact h
          · exact hfail _
        · split
          · exact h
          · exact hfail _
        · exact hfail _
        · exact hfail _

/-- A stream is taken without defect, or its first defect is kept. -/
theorem Builder.pushAll_tracks (bases : List Nat) (ss : List Segment) :
    (Sound bases ss ∧ Tracks bases ss ((Builder.new bases).pushAll ss)) ∨
      ∃ e, FirstDefect bases ss e ∧ ((Builder.new bases).pushAll ss).error = some e := by
  induction ss using List.reverseRecOn with
  | nil => exact .inl ⟨sound_nil bases, tracks_new bases⟩
  | append_singleton ss s ih =>
    have hpush : (Builder.new bases).pushAll (ss ++ [s]) = ((Builder.new bases).pushAll ss).push s := by
      simp [Builder.pushAll, List.foldl_append]
    rw [hpush]
    rcases ih with ⟨hs, ht⟩ | ⟨e, ⟨pre, q, post, rfl, hq, hpre⟩, he⟩
    · cases hd : defect bases ss s with
      | none => exact .inl ⟨sound_snoc.2 ⟨hs, hd⟩, ht.push_sound hd⟩
      | some e => exact .inr ⟨e, ⟨ss, s, [], rfl, hd, hs⟩, ht.push_defect hd⟩
    · exact .inr ⟨e, ⟨pre, q, post ++ [s], by simp, hq, hpre⟩, Builder.error_push he s⟩

/-- A stream with a defect is not sound. -/
theorem FirstDefect.not_sound {bases : List Nat} {ss : List Segment} {e : MappingError} (h : FirstDefect bases ss e) :
    ¬Sound bases ss := by
  obtain ⟨pre, s, post, rfl, hd, -⟩ := h
  intro hs
  rw [hs pre s post rfl] at hd
  cases hd

/-- A stream that names known sources and is grouped is sound, and none of its groups runs; and the other way round. -/
theorem known_and_grouped_iff {bases : List Nat} {ss : List Segment} :
    Known bases.length ss ∧ Grouped ss ↔ Sound bases ss ∧ ∀ t, phase t ss ≠ .running := by
  rw [sound_iff, grouped_iff, and_assoc, ← forall_and]
  refine and_congr_right fun _ => forall_congr' fun t => ?_
  cases phase t ss <;> simp

theorem contents_eq_join (ss : List Segment) : contents ss = String.join (ss.map content) := by
  rw [contents, String.join, List.foldl_map]

/-- The token of a group that a stream opens and does not close. -/
def LeftOpen (ss : List Segment) (t : Nat) : Prop := Opened t ss ∧ ¬Closed t ss

namespace Builder

/-- A stream that was taken without defect, and of which no group runs, comes to its text and its entries. -/
theorem finish_of_tracks {bases : List Nat} {ss : List Segment} (ht : Tracks bases ss ((Builder.new bases).pushAll ss))
    (hn : ∀ t, phase t ss ≠ .running) :
    ((Builder.new bases).pushAll ss).finish = .ok (String.join (ss.map content), ⟨entriesOf bases ss⟩) := by
  have ho := ht.openToken_eq_none_iff.2 hn
  simp [finish, ht.error, ho, ht.text, ht.entries, contents_eq_join]

/-- A stream that names known sources and is grouped comes to its text and its entries. -/
theorem finish_of_grouped {bases : List Nat} {ss : List Segment} (hk : Known bases.length ss) (hg : Grouped ss) :
    ((Builder.new bases).pushAll ss).finish = .ok (String.join (ss.map content), ⟨entriesOf bases ss⟩) := by
  obtain ⟨hs, hn⟩ := known_and_grouped_iff.1 ⟨hk, hg⟩
  rcases pushAll_tracks bases ss with ⟨-, ht⟩ | ⟨e, hd, -⟩
  · exact finish_of_tracks ht hn
  · exact absurd hs hd.not_sound

/-- The builder answers exactly for the streams that name known sources and are grouped. -/
theorem exists_finish_iff (bases : List Nat) (ss : List Segment) :
    (∃ r, ((Builder.new bases).pushAll ss).finish = .ok r) ↔ Known bases.length ss ∧ Grouped ss := by
  refine ⟨fun ⟨r, hr⟩ => ?_, fun ⟨hk, hg⟩ => ⟨_, finish_of_grouped hk hg⟩⟩
  rcases pushAll_tracks bases ss with ⟨hs, ht⟩ | ⟨e, hd, he⟩
  · refine known_and_grouped_iff.2 ⟨hs, ht.openToken_eq_none_iff.1 ?_⟩
    cases ho : ((Builder.new bases).pushAll ss).openToken with
    | none => rfl
    | some t => simp [finish, ht.error, ho] at hr
  · simp [finish, he] at hr

/-- What it answers for a stream has the links of its placed segments. -/
theorem links_perm_of_grouped {bases : List Nat} {ss : List Segment} (hk : Known bases.length ss) (hg : Grouped ss) :
    ((entriesOf bases ss).flatMap Entry.links).Perm ((placed ss).map (·.link bases)) := by
  obtain ⟨hs, -⟩ := known_and_grouped_iff.1 ⟨hk, hg⟩
  rcases pushAll_tracks bases ss with ⟨-, ht⟩ | ⟨e, hd, -⟩
  · exact ht.entries ▸ ht.links
  · exact absurd hs hd.not_sound

/-- What the builder makes of a stream. It answers exactly when every mapped segment names a source of the table and every token is
opened once, joined, and closed once. Then the text is that of all segments, and the entries are those of the segments that stand alone
or open a group, each with the links of its group in order; no link is lost or made twice. Otherwise the error is the first defect of
the stream, or, without one, the smallest token that is left open. -/
theorem finish_pushAll (bases : List Nat) (ss : List Segment) :
    ((∃ r, ((Builder.new bases).pushAll ss).finish = .ok r) ↔ Known bases.length ss ∧ Grouped ss) ∧
    match ((Builder.new bases).pushAll ss).finish with
    | .ok (text, map) =>
      text = String.join (ss.map content) ∧ map.entries = entriesOf bases ss ∧
        (map.entries.flatMap Entry.links).Perm ((placed ss).map (·.link bases))
    | .error e =>
      FirstDefect bases ss e ∨
        Sound bases ss ∧ ∃ t, e = .unterminatedGroup t ∧ LeftOpen ss t ∧ ∀ u, LeftOpen ss u → t ≤ u := by
  refine ⟨exists_finish_iff bases ss, ?_⟩
  rcases pushAll_tracks bases ss with ⟨hs, ht⟩ | ⟨e, hd, he⟩
  · have hleft : ∀ t, phase t ss = .running ↔ LeftOpen ss t := fun t => running_iff (ht.ne_broken t)
    cases ho : ((Builder.new bases).pushAll ss).openToken with
    | none =>
      rw [finish_of_tracks ht (ht.openToken_eq_none_iff.1 ho)]
      exact ⟨rfl, rfl, ht.entries ▸ ht.links⟩
    | some t =>
      have hf : ((Builder.new bases).pushAll ss).finish = .error (.unterminatedGroup t) := by simp [finish, ht.error, ho]
      obtain ⟨hrun, hmin⟩ := ht.openToken_eq_some_iff.1 ho
      rw [hf]
      exact .inr ⟨hs, t, rfl, (hleft t).1 hrun, fun u hu => hmin u ((hleft u).2 hu)⟩
  · have hf : ((Builder.new bases).pushAll ss).finish = .error e := by simp [finish, he]
    rw [hf]
    exact .inl hd

end Builder

end TypedSfc

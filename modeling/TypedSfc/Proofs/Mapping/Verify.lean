import TypedSfc.Mapping.Builder

/-!
# Built maps verify

Segments are put behind the text of all segments before them, so the generated positions of a map only go forward: from entry to entry,
and from link to link of one entry. `Forward` says so of the entries of a builder; every segment keeps it, with a defect or without, and
a map that has it passes its check.
-/

namespace TypedSfc

/-- The entries of a map of a text of `size` bytes go forward: they begin in order, the links of each are in order, and none ends past
the text. -/
structure Forward (size : Nat) (es : List Entry) : Prop where
  nonempty : ∀ e ∈ es, e.links ≠ []
  inOrder : ∀ e ∈ es, e.links.Pairwise fun a b => a.generated ≤ b.generated
  within : ∀ e ∈ es, ∀ l ∈ e.links, l.generated + l.length ≤ size
  starts : es.Pairwise fun a b => a.generatedStart ≤ b.generatedStart

/-! ## The check -/

namespace SourceMap

/-- Links pass the check exactly when they are in order, none before `previous`, and none past the text. -/
theorem verifyLinks_eq_ok_iff {size previous : Nat} {ls : List Link} : verifyLinks size previous ls = .ok () ↔
    (ls.Pairwise fun a b => a.generated ≤ b.generated) ∧ (∀ l ∈ ls, previous ≤ l.generated) ∧
      ∀ l ∈ ls, l.generated + l.length ≤ size := by
  induction ls generalizing previous with
  | nil => simp [verifyLinks]
  | cons l ls ih =>
    rw [verifyLinks]
    split
    next hl =>
      refine ⟨nofun, fun ⟨_, hp, hs⟩ => ?_⟩
      have h1 := hp l (by simp)
      have h2 := hs l (by simp)
      omega
    next hl =>
      -- The links behind `l` are checked against `l`, so that none of them is before `previous` either.
      simp only [ih, List.pairwise_cons, List.forall_mem_cons]
      constructor
      · rintro ⟨ho, hp, hs⟩
        exact ⟨⟨hp, ho⟩, ⟨by omega, fun k hk => Nat.le_trans (by omega) (hp k hk)⟩, by omega, hs⟩
      · rintro ⟨⟨hp, ho⟩, _, _, hs⟩
        exact ⟨ho, hp, hs⟩

/-- The links of an entry are not before its start. -/
theorem generatedStart_le {e : Entry} (ho : e.links.Pairwise fun a b => a.generated ≤ b.generated) :
    ∀ l ∈ e.links, e.generatedStart ≤ l.generated := by
  intro l hl
  unfold Entry.generatedStart
  cases hls : e.links with
  | nil => simp [hls] at hl
  | cons k ks =>
    rw [hls] at hl ho
    rcases List.mem_cons.1 hl with rfl | hl
    · exact Nat.le_refl _
    · exact (List.pairwise_cons.1 ho).1 l hl

/-- Entries pass the check exactly when they go forward and none begins before `previous`. -/
theorem verifyEntries_eq_ok_iff {size previous : Nat} {es : List Entry} (hne : ∀ e ∈ es, e.links ≠ []) :
    verifyEntries size previous es = .ok () ↔ Forward size es ∧ ∀ e ∈ es, previous ≤ e.generatedStart := by
  induction es generalizing previous with
  | nil => exact ⟨fun _ => ⟨⟨by simp, by simp, by simp, List.Pairwise.nil⟩, by simp⟩, fun _ => rfl⟩
  | cons e es ih =>
    have hfirst : (e.links.head?.map Link.generated).getD previous = e.generatedStart := by
      have hlinks := hne e (by simp)
      unfold Entry.generatedStart
      cases hls : e.links with
      | nil => exact absurd hls hlinks
      | cons l ls => rfl
    have ih := @ih e.generatedStart fun a ha => hne a (by simp [ha])
    simp only [verifyEntries, hfirst]
    constructor
    · intro h
      split at h
      · cases h
      · split at h
        next hstart _ hlinks =>
          obtain ⟨ho, _, hs⟩ := verifyLinks_eq_ok_iff.1 hlinks
          obtain ⟨hes, hp⟩ := ih.1 h
          have hstart' := Nat.not_lt.1 hstart
          exact ⟨⟨hne, List.forall_mem_cons.2 ⟨ho, hes.inOrder⟩, List.forall_mem_cons.2 ⟨hs, hes.within⟩,
            List.pairwise_cons.2 ⟨hp, hes.starts⟩⟩, List.forall_mem_cons.2 ⟨hstart', fun a ha => Nat.le_trans hstart' (hp a ha)⟩⟩
        · cases h
    · rintro ⟨h, hp⟩
      have ho := h.inOrder e (by simp)
      have hlinks := verifyLinks_eq_ok_iff.2 ⟨ho, generatedStart_le ho, h.within e (by simp)⟩
      have htail : Forward size es :=
        ⟨fun a ha => h.nonempty a (by simp [ha]), fun a ha => h.inOrder a (by simp [ha]), fun a ha => h.within a (by simp [ha]),
          (List.pairwise_cons.1 h.starts).2⟩
      rw [if_neg (Nat.not_lt.2 (hp e (by simp)))]
      simp only [hlinks]
      exact ih.2 ⟨htail, (List.pairwise_cons.1 h.starts).1⟩

/-- A map whose entries have links passes its check exactly when its entries go forward. -/
theorem verify_eq_ok_iff {map : SourceMap} (hne : ∀ e ∈ map.entries, e.links ≠ []) (size : Nat) :
    map.verify size = .ok () ↔ Forward size map.entries :=
  (verifyEntries_eq_ok_iff hne).trans ⟨And.left, fun h => ⟨h, fun _ _ => Nat.zero_le _⟩⟩

end SourceMap

/-! ## What a segment does -/

namespace Forward

variable {size : Nat} {es : List Entry}

theorem nil (size : Nat) : Forward size [] := ⟨by simp, by simp, by simp, List.Pairwise.nil⟩

/-- Entries go forward in a longer text as well. -/
theorem mono (h : Forward size es) {size' : Nat} (hs : size ≤ size') : Forward size' es :=
  ⟨h.nonempty, h.inOrder, fun e he l hl => Nat.le_trans (h.within e he l hl) hs, h.starts⟩

/-- No entry begins past the text. -/
theorem generatedStart_le_size (h : Forward size es) {e : Entry} (he : e ∈ es) : e.generatedStart ≤ size := by
  cases hls : e.links with
  | nil => exact absurd hls (h.nonempty e he)
  | cons l ls =>
    have hl := h.within e he l (by simp [hls])
    simp only [Entry.generatedStart, hls, List.head?_cons, Option.map_some, Option.getD_some]
    omega

/-- A new entry at the end of the text goes behind all others. -/
theorem append (h : Forward size es) (source : SourceId) (p : Policy) {l : Link} (hl : l.generated = size) :
    Forward (size + l.length) (es ++ [⟨source, [l], p⟩]) := by
  have h' := h.mono (Nat.le_add_right size l.length)
  refine ⟨?_, ?_, ?_, ?_⟩
  · intro e he
    rcases List.mem_append.1 he with he | he
    · exact h.nonempty e he
    · simp [List.mem_singleton.1 he]
  · intro e he
    rcases List.mem_append.1 he with he | he
    · exact h.inOrder e he
    · simp [List.mem_singleton.1 he]
  · intro e he k hk
    rcases List.mem_append.1 he with he | he
    · exact h'.within e he k hk
    · obtain rfl := List.mem_singleton.1 he
      obtain rfl := List.mem_singleton.1 hk
      omega
  · rw [List.pairwise_append]
    refine ⟨h.starts, List.pairwise_singleton _ _, ?_⟩
    intro a ha b hb
    obtain rfl := List.mem_singleton.1 hb
    exact Nat.le_trans (h.generatedStart_le_size ha) (Nat.le_of_eq hl.symm)

/-- An entry after a link is added somewhere: it is as it was, or has that link at its end. -/
theorem mem_addLink {n : Nat} {l : Link} {e : Entry} (he : e ∈ Builder.addLink n l es) :
    e ∈ es ∨ ∃ e' ∈ es, e = { e' with links := e'.links ++ [l] } := by
  obtain ⟨i, hi⟩ := List.mem_iff_getElem?.1 he
  rw [Builder.addLink, List.getElem?_modify] at hi
  cases hes : es[i]? with
  | none => simp [hes] at hi
  | some a =>
    have ha := List.mem_of_getElem? hes
    by_cases hn : n = i
    · exact .inr ⟨a, ha, by simpa [hes, hn, eq_comm] using hi⟩
    · have hae : a = e := by simpa [hes, hn] using hi
      exact .inl (hae ▸ ha)

/-- A link that is added does not move the start of an entry. -/
theorem map_generatedStart_addLink (h : ∀ e ∈ es, e.links ≠ []) (n : Nat) (l : Link) :
    (Builder.addLink n l es).map Entry.generatedStart = es.map Entry.generatedStart := by
  apply List.ext_getElem?
  intro i
  rw [Builder.addLink, List.getElem?_map, List.getElem?_modify, List.getElem?_map]
  cases hes : es[i]? with
  | none => simp
  | some a =>
    have ha := h a (List.mem_of_getElem? hes)
    by_cases hn : n = i
    · cases hls : a.links <;> simp_all [Entry.generatedStart]
    · simp [hn]

/-- A link at the end of the text goes behind all links of an entry. -/
theorem addLink (h : Forward size es) (n : Nat) {l : Link} (hl : l.generated = size) :
    Forward (size + l.length) (Builder.addLink n l es) := by
  have h' := h.mono (Nat.le_add_right size l.length)
  refine ⟨?_, ?_, ?_, ?_⟩
  · intro e he
    rcases mem_addLink he with he | ⟨e', _, rfl⟩
    · exact h.nonempty e he
    · simp
  · intro e he
    rcases mem_addLink he with he | ⟨e', he', rfl⟩
    · exact h.inOrder e he
    · rw [List.pairwise_append]
      refine ⟨h.inOrder e' he', List.pairwise_singleton _ _, ?_⟩
      intro a ha b hb
      obtain rfl := List.mem_singleton.1 hb
      have hw := h.within e' he' a ha
      omega
  · intro e he k hk
    rcases mem_addLink he with he | ⟨e', he', rfl⟩
    · exact h'.within e he k hk
    · rcases List.mem_append.1 hk with hk | hk
      · exact h'.within e' he' k hk
      · obtain rfl := List.mem_singleton.1 hk
        omega
  · have hs := List.pairwise_map.2 h.starts
    rw [← map_generatedStart_addLink h.nonempty n l] at hs
    exact List.pairwise_map.1 hs

end Forward

/-! ## The builder -/

namespace Builder

/-- Whatever a link's role, the entries go forward with it, when it is at the end of the text. -/
theorem forward_place {size : Nat} {b : Builder} {source : SourceId} {l : Link} {i : Info} (h : Forward size b.entries)
    (hl : l.generated = size) : Forward (size + l.length) (b.place source l i).entries := by
  have hkept := h.mono (Nat.le_add_right size l.length)
  unfold place
  split
  · exact h.append source i.policy hl
  · split
    · exact h.append source i.policy hl
    · exact hkept
    · split
      · exact h.addLink _ hl
      · exact hkept
    · split
      · exact h.addLink _ hl
      · exact hkept
    · exact hkept
    · exact hkept

/-- A defect leaves the text as it is. -/
theorem text_place (b : Builder) (source : SourceId) (l : Link) (i : Info) : (b.place source l i).text = b.text := by
  unfold place
  split
  · rfl
  · split
    · rfl
    · rfl
    · split <;> rfl
    · split <;> rfl
    · rfl
    · rfl

/-- Every segment keeps the entries going forward. -/
theorem forward_push {b : Builder} (h : Forward b.generatedOffset b.entries) (s : Segment) :
    Forward (b.push s).generatedOffset (b.push s).entries := by
  have hsize : ∀ t, (b.pushText t).generatedOffset = b.generatedOffset + t.utf8ByteSize := by
    intro t
    simp [generatedOffset, pushText, String.utf8ByteSize_append]
  cases s with
  | text t =>
    rw [push, hsize]
    exact h.mono (Nat.le_add_right _ _)
  | mapped t source offset i =>
    unfold push
    dsimp only
    split
    · show Forward (b.pushText t).generatedOffset b.entries
      rw [hsize]
      exact h.mono (Nat.le_add_right _ _)
    · rename_i base _
      rw [generatedOffset, text_place, ← generatedOffset, hsize]
      exact forward_place (b := b.pushText t) (l := ⟨base + offset, b.generatedOffset, t.utf8ByteSize⟩) h rfl

theorem forward_pushAll {b : Builder} (h : Forward b.generatedOffset b.entries) (ss : List Segment) :
    Forward (b.pushAll ss).generatedOffset (b.pushAll ss).entries := by
  induction ss generalizing b with
  | nil => exact h
  | cons s ss ih => exact ih (forward_push h s)

/-- A text and map that are built go forward together. -/
theorem forward_of_finish {bases : List Nat} {ss : List Segment} {text : String} {map : SourceMap}
    (h : ((Builder.new bases).pushAll ss).finish = .ok (text, map)) : Forward text.utf8ByteSize map.entries := by
  have hf := forward_pushAll (b := Builder.new bases) (Forward.nil _) ss
  unfold finish at h
  split at h
  · cases h
  · split at h
    · cases h
    · cases h
      exact hf

/-- A map that is built passes its check against its text. -/
theorem verify_of_finish {bases : List Nat} {ss : List Segment} {text : String} {map : SourceMap}
    (h : ((Builder.new bases).pushAll ss).finish = .ok (text, map)) : map.verify text.utf8ByteSize = .ok () :=
  (SourceMap.verify_eq_ok_iff (forward_of_finish h).nonempty _).2 (forward_of_finish h)

/-- Whatever groups a stream interleaves, the map that is built of it passes its check against its text: its entries begin in order, the
links of each are in order, and none ends past the text. Against another size the check asks for the ends alone, since the order
that it tests is kept by every map that is built. -/
theorem finish_goes_forward {bases : List Nat} {ss : List Segment} {text : String} {map : SourceMap}
    (h : ((Builder.new bases).pushAll ss).finish = .ok (text, map)) :
    map.verify text.utf8ByteSize = .ok () ∧ Forward text.utf8ByteSize map.entries ∧
      ∀ size, map.verify size = .ok () ↔ ∀ e ∈ map.entries, ∀ l ∈ e.links, l.generated + l.length ≤ size := by
  have hf := forward_of_finish h
  refine ⟨verify_of_finish h, hf, fun size => ?_⟩
  rw [SourceMap.verify_eq_ok_iff hf.nonempty]
  exact ⟨Forward.within, fun hs => ⟨hf.nonempty, hf.inOrder, hs, hf.starts⟩⟩

/-- Two groups, each begun within the other's range, about a segment that stands alone. -/
def interleavedGroups : List Segment :=
  [.mapped "ab" 0 4 ⟨.always, some (.opens 1)⟩, .text "(", .mapped "cd" 1 0 ⟨.never, some (.opens 2)⟩,
    .mapped "e" 0 9 (.ofPolicy .always), .mapped "f" 0 6 ⟨.never, some (.closes 1)⟩, .mapped "g" 1 2 ⟨.never, some (.joins 2)⟩,
    .text ")", .mapped "" 1 3 ⟨.never, some (.closes 2)⟩]

/-- The map of the interleaved groups. -/
def interleavedMap : SourceMap :=
  ⟨[⟨0, [⟨4, 0, 2⟩, ⟨6, 6, 1⟩], .always⟩, ⟨1, [⟨20, 3, 2⟩, ⟨22, 7, 1⟩, ⟨23, 9, 0⟩], .never⟩, ⟨0, [⟨9, 5, 1⟩], .always⟩]⟩

theorem finish_goes_forward_interleaved :
    ((Builder.new [0, 20]).pushAll interleavedGroups).finish = .ok ("ab(cdefg)", interleavedMap) ∧
      interleavedMap.verify "ab(cdefg)".utf8ByteSize = .ok () ∧ Forward "ab(cdefg)".utf8ByteSize interleavedMap.entries ∧
      ∀ size, interleavedMap.verify size = .ok () ↔ ∀ e ∈ interleavedMap.entries, ∀ l ∈ e.links, l.generated + l.length ≤ size :=
  have h : ((Builder.new [0, 20]).pushAll interleavedGroups).finish = .ok ("ab(cdefg)", interleavedMap) := by rfl
  ⟨h, finish_goes_forward h⟩

end Builder

end TypedSfc

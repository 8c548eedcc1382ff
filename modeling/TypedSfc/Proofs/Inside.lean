import TypedSfc.Proofs.Sources

/-!
# No mapping points outside its block

By its extent everything that the code of a document maps is in the source that it names. So its map points into the document: where
a source starts there, and its length, are those of the content of a block.
-/

namespace TypedSfc

/-- Whether a mapped segment names one of the sources and an offset in it. -/
def Segment.Inside (texts : List String) : Segment → Prop
  | .text _ => True
  | .mapped _ source offset _ => ∃ t ∈ texts[source]?, offset ≤ t.utf8ByteSize

instance (texts : List String) (a : Segment) : Decidable (a.Inside texts) := by
  cases a with
  | text t => exact .isTrue trivial
  | mapped t source offset i => exact inferInstanceAs (Decidable (∃ t ∈ texts[source]?, offset ≤ t.utf8ByteSize))

namespace Document

variable {d : Document} {source : List Char}

theorem length_texts (d : Document) : d.texts.length = (TypedFile.bases d).length := by
  simp [texts, TypedFile.bases]

/-- The content of each source lies in the document. -/
theorem Describes.base_add_size_le (hd : d.Describes source) {i : Nat} {t : String} (h : d.texts[i]? = some t) :
    (TypedFile.bases d).getD i 0 + t.utf8ByteSize ≤ Text.size source := by
  -- A block that is there has its content where it says, and another is empty at the start.
  have hblock : ∀ b : Option Block, (∀ c ∈ b, c ∈ d.allBlocks) →
      (b.map (·.inner.start)).getD 0 + ((b.map (·.content)).getD "").utf8ByteSize ≤ Text.size source := by
    intro b hb
    cases b with
    | none => exact Nat.zero_le _
    | some b =>
      have hreads := (hd.blocks_describe b (hb b rfl)).content_reads
      have hle := hreads.1.isPlace_stop.le_size
      rwa [Text.size_toList] at hle
  match i with
  | 0 =>
    obtain rfl := Option.some.inj h
    show 0 + d.source.utf8ByteSize ≤ _
    rw [Nat.zero_add, ← Text.size_toList, hd.source_eq]
  | 1 =>
    obtain rfl := Option.some.inj h
    exact hblock d.template fun c hc => by simp [allBlocks, Option.mem_def.1 hc]
  | 2 =>
    obtain rfl := Option.some.inj h
    exact hblock d.script fun c hc => by simp [allBlocks, Option.mem_def.1 hc]
  | 3 =>
    obtain rfl := Option.some.inj h
    exact hblock d.scriptSetup fun c hc => by simp [allBlocks, Option.mem_def.1 hc]
  | i + 4 =>
    have hstyle : (d.styles.map (·.block.content))[i]? = some t := h
    obtain ⟨s, hs, rfl⟩ := Option.map_eq_some_iff.1 (List.getElem?_map.symm.trans hstyle)
    have hbase : (TypedFile.bases d).getD (i + 4) 0 = s.block.inner.start := by
      show (d.styles.map (·.block.inner.start)).getD i 0 = _
      rw [List.getD_eq_getElem?_getD, List.getElem?_map, hs]
      rfl
    have hmem : s ∈ d.styles := List.mem_of_getElem? hs
    rw [hbase]
    refine hblock (some s.block) fun c hc => ?_
    obtain rfl := Option.some.inj hc
    simp only [allBlocks, List.mem_append, List.mem_map]
    exact .inr (.inr (.inr (.inl ⟨s, hmem, rfl⟩)))

end Document

namespace Generate.Scene

/-- The path of the script that a source file is compiled to is as long as that of the file. -/
theorem size_importPath (path : String) : (importPath path).utf8ByteSize = path.utf8ByteSize := by
  -- An ending gives way to another one of its size.
  have hending : ∀ old new : String, old.toList.isSuffixOf path.toList = true → new.utf8ByteSize = old.utf8ByteSize →
      (String.ofList (path.toList.take (path.toList.length - old.length)) ++ new).utf8ByteSize = path.utf8ByteSize := by
    intro old new hold hsize
    obtain ⟨front, hfront⟩ := List.isSuffixOf_iff_suffix.1 hold
    have htake : path.toList.take (path.toList.length - old.length) = front := by
      rw [← hfront, List.length_append, String.length_toList, Nat.add_sub_cancel, List.take_left]
    rw [htake, String.utf8ByteSize_append, hsize, Text.size_ofList, ← Text.size_toList path, ← hfront, Text.size_append, Text.size_toList]
  unfold importPath
  extract_lets cs stem
  split
  · rename_i h
    exact hending ".ts" ".js" (Bool.and_eq_true_iff.1 h).1 rfl
  · split
    · rename_i h
      exact hending ".tsx" ".jsx" h rfl
    · rfl

end Generate.Scene

namespace TypedFile

variable {d : Document} {reader : Script.Reader} {source : String}

/-! ## Segments -/

/-- What is in a source by its extent has its offset there. -/
theorem inside_of_maps {listens : String → Prop} {a : Segment} (hknown : ∀ source, a.source? = some source → source < d.texts.length)
    (h : (Permit.ofSense Sense.extent d.textOf listens).Maps a) : a.Inside d.texts := by
  cases a with
  | text t => trivial
  | mapped t source offset i =>
    have hlt : source < d.texts.length := hknown source rfl
    have hget : d.texts[source]? = some d.texts[source] := List.getElem?_eq_getElem hlt
    have hle : offset ≤ Text.size (d.textOf source) := by
      rcases h with ⟨-, hmarks⟩ | hhas | ⟨u, hhas, -⟩
      · exact hmarks
      · exact Nat.le_trans (Nat.le_add_right ..) hhas
      · exact Nat.le_trans (Nat.le_add_right ..) hhas
    rw [Document.textOf, hget, Option.getD_some, Text.size_toList] at hle
    exact ⟨_, hget, hle⟩

/-! ## The map -/

/-- A placed segment was mapped. -/
theorem exists_of_mem_placed {ss : List Segment} {p : Placed} (h : p ∈ Segment.placed ss) :
    ∃ t i, Segment.mapped t p.source p.offset i ∈ ss := by
  obtain ⟨x, hx, hplaced⟩ := List.mem_filterMap.1 h
  obtain ⟨a, k⟩ := x
  have hmem := List.fst_mem_of_mem_zipIdx hx
  cases a with
  | text t => cases hplaced
  | mapped t source offset i =>
    obtain rfl := Option.some.inj hplaced
    exact ⟨t, i, hmem⟩

/-- Where all segments are inside their sources, the map points into the document. -/
theorem source_le_of_inside (hd : d.Describes source.toList) {o : Options} {filename : Option String}
    (hinside : ∀ a ∈ (Draft.ofDocument reader o filename d).segments, a.Inside d.texts) {f : TypedFile}
    (hf : ofDocumentBy reader o filename d = .ok f) : ∀ e ∈ f.map.entries, ∀ l ∈ e.links, l.source ≤ source.utf8ByteSize := by
  obtain ⟨hgrouped, hknown⟩ := grouped_and_known reader o filename d
  have hlinks := Builder.links_perm_of_grouped hknown hgrouped
  obtain ⟨-, hmap, -⟩ := of_ofDocumentBy_ok hf
  intro e he l hl
  rw [hmap] at he
  have hmem := hlinks.mem_iff.1 (List.mem_flatMap.2 ⟨e, he, hl⟩)
  obtain ⟨p, hp, rfl⟩ := List.mem_map.1 hmem
  obtain ⟨t, i, hsegment⟩ := exists_of_mem_placed hp
  obtain ⟨u, hu, hle⟩ := hinside _ hsegment
  have hbase := hd.base_add_size_le hu
  rw [Text.size_toList] at hbase
  show (bases d).getD p.source 0 + p.offset ≤ source.utf8ByteSize
  omega

/-- No mapping points outside its block: each mapped segment of the code of a document, markers and ends of groups included, has an
offset in the text of the source that it names, so every position of the document in the map lies in the document. This takes a reader
of scripts that finds names and types inside what it reads, computed arguments that end before the template does, as they do when their
bracket is closed, and names of listeners that do not grow when they are capitalized. -/
theorem segments_inside (hreader : Sense.extent.Reads reader) (o : Options) (filename : Option String) (source : String)
    (hclosed : ∀ x ∈ (Document.split source).1.directives, ∀ a ∈ x.arg, a.isStatic = false →
      a.stop < Text.size ((Document.split source).1.textOf SourceId.template))
    (hnames : ∀ x ∈ (Document.split source).1.directives, ∀ n ∈ Generate.listenerNames x,
      (Text.capitalize n).utf8ByteSize ≤ n.utf8ByteSize) :
    (∀ a ∈ (Draft.ofDocument reader o filename (Document.split source).1).segments, a.Inside (Document.split source).1.texts) ∧
      ∀ f, ofDocumentBy reader o filename (Document.split source).1 = .ok f →
        ∀ e ∈ f.map.entries, ∀ l ∈ e.links, l.source ≤ source.utf8ByteSize := by
  have hd := Document.describes_split source
  have hcontents := Document.split_readsContents source
  generalize (Document.split source).1 = d at *
  generalize (Document.split source).2 = errors at *
  have hsuits : ∀ x ∈ d.directives, x.Suits Sense.extent (fun t => (Text.capitalize t).utf8ByteSize ≤ t.utf8ByteSize)
      (d.textOf SourceId.template) := by
    refine fun x hx => ⟨fun a ha hstatic => ?_, Generate.of_mem_listenerNames (hnames x hx)⟩
    have hlater := (hcontents.spelled x hx).dynamic_later a ha hstatic
    have hstop := hclosed x hx a ha hstatic
    have hone : ('[' : Char).utf8Size = 1 ∧ Text.size [']'] = 1 := ⟨rfl, rfl⟩
    show a.offset - 1 + Text.size ('[' :: (a.content.toList ++ [']'])) ≤ _
    rw [Text.size_cons, Text.size_append, Text.size_toList, hone.1, hone.2]
    unfold Markup.Expression.stop at hstop
    omega
  have hpath : ∀ b ∈ d.script, ∀ path offset quoted, b.attr? "src" = some (.value path offset quoted) →
      Sense.extent.has (d.textOf SourceId.document) offset (Generate.Scene.importPath path).toList := by
    intro b hb path offset quoted hattr
    have hstands := standsAt_of_attr? hd (by simp [Document.allBlocks, Option.mem_def.1 hb]) hattr
    have hle := hstands.isPlace_stop.le_size
    show offset + Text.size _ ≤ _
    rwa [Text.size_toList, Generate.Scene.size_importPath, ← Text.size_toList]
  have hmaps := maps_segments hreader (fun _ => Sense.extent_hears) hd hcontents hsuits hpath o filename
  obtain ⟨-, hknown⟩ := grouped_and_known reader o filename d
  have hinside : ∀ a ∈ (Draft.ofDocument reader o filename d).segments, a.Inside d.texts := by
    intro a ha
    refine inside_of_maps (fun source hsource => ?_) (hmaps a ha)
    rw [d.length_texts]
    exact hknown a ha source hsource
  exact ⟨hinside, fun f hf => source_le_of_inside hd hinside hf⟩

/-- No mapping of a component with a computed argument, a listener and a slot points outside its block. -/
theorem segments_inside_slotUse : Sense.extent.Reads slotUseReader ∧
    ∀ a ∈ (Draft.ofDocument Script.Module.read default none (Document.split slotUse).1).segments,
      a.Inside (Document.split slotUse).1.texts := by
  have hreads := reads_slotUse.extent
  have hinside := segments_inside hreads default none slotUse (by decide +kernel) (by decide +kernel)
  rw [segments_slotUse] at hinside
  exact ⟨hreads, hinside.1⟩

/-- A computed argument whose bracket is missing at the end of the source: the end of its group lies behind the end of the template. -/
theorem not_inside_of_openArgument :
    ¬∀ a ∈ (Draft.ofDocument Script.Module.read default none (Document.split "<template><div :[foo").1).segments,
      a.Inside (Document.split "<template><div :[foo").1.texts := by decide +kernel

end TypedFile

end TypedSfc

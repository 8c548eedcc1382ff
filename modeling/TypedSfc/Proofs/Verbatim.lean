import TypedSfc.Proofs.Sources

/-!
# Mapped text is that of the source

To the letter everything that the code of a document maps stands in the source that it names, as it is or capitalized. Computed
arguments have both their brackets where no fault was noted, and the path of another file is the one text that is changed otherwise.
-/

namespace TypedSfc

/-- Whether a mapped segment, unless it is empty, stands at its offset in one of the sources, as it is or with its first letter in upper
case. -/
def Segment.IsVerbatim (texts : List String) : Segment → Prop
  | .text _ => True
  | .mapped t source offset _ => t ≠ "" → ∃ text ∈ texts[source]?, ∃ u : String,
      Text.StandsAt text.toList offset u.toList ∧ (t = u ∨ t = Text.capitalize u)

namespace TypedFile

variable {d : Document} {reader : Script.Reader} {source : String}

/-- What is in a source to the letter stands in one of the sources of the document, since it is no empty text. -/
theorem isVerbatim_of_maps {listens : String → Prop} {a : Segment} (h : (Permit.ofSense Sense.verbatim d.textOf listens).Maps a) :
    a.IsVerbatim d.texts := by
  cases a with
  | text t => trivial
  | mapped t source offset i =>
    intro hne
    have hfound : ∀ u : String, u ≠ "" → Text.StandsAt (d.textOf source) offset u.toList →
        ∃ text ∈ d.texts[source]?, Text.StandsAt text.toList offset u.toList := by
      intro u hu hstands
      unfold Document.textOf at hstands
      cases hget : d.texts[source]? with
      | some text =>
        rw [hget] at hstands
        exact ⟨text, rfl, hstands⟩
      | none =>
        rw [hget] at hstands
        obtain ⟨more, before, hnil, -⟩ := hstands
        have hempty := (List.append_eq_nil_iff.1 (List.append_eq_nil_iff.1 hnil.symm).2).1
        exact absurd (String.toList_eq_nil_iff.1 hempty) hu
    rcases h with ⟨rfl, -⟩ | hstands | ⟨u, hstands, rfl⟩
    · exact absurd rfl hne
    · obtain ⟨text, htext, hu⟩ := hfound t hne hstands
      exact ⟨text, htext, t, hu, .inl rfl⟩
    · have hu : u ≠ "" := by
        rintro rfl
        exact hne rfl
      obtain ⟨text, htext, hu⟩ := hfound u hu hstands
      exact ⟨text, htext, u, hu, .inr rfl⟩

/-- Mapped text is that of the source: in a document without faults whose script does not name another file, each mapped segment of the
code that is not empty stands at its offset in the source that it names, as it is or capitalized. This takes a reader of scripts that
finds names and types where they stand, and names of listeners whose first letter keeps its size in upper case if there is a hyphen
behind it. -/
theorem segments_verbatim (hreader : Sense.verbatim.Reads reader) (o : Options) (filename : Option String) (source : String)
    (hfaults : (Document.split source).2 = []) (hsrc : ∀ b ∈ (Document.split source).1.script, b.attrValue "src" = none)
    (hnames : ∀ x ∈ (Document.split source).1.directives, ∀ n ∈ Generate.listenerNames x,
      '-' ∈ n.toList → (Text.capitalize n).utf8ByteSize = n.utf8ByteSize) :
    ∀ a ∈ (Draft.ofDocument reader o filename (Document.split source).1).segments, a.IsVerbatim (Document.split source).1.texts := by
  have hd := Document.describes_split source
  have hcontents := Document.split_readsContents source
  generalize (Document.split source).1 = d at *
  generalize (Document.split source).2 = errors at *
  have hsuits : ∀ x ∈ d.directives, x.Suits Sense.verbatim
      (fun t => '-' ∈ t.toList → (Text.capitalize t).utf8ByteSize = t.utf8ByteSize) (d.textOf SourceId.template) := fun x hx =>
    ⟨(hcontents.spelled x hx).dynamic_closed hfaults, Generate.of_mem_listenerNames (hnames x hx)⟩
  have hpath : ∀ b ∈ d.script, ∀ path offset quoted, b.attr? "src" = some (.value path offset quoted) →
      Sense.verbatim.has (d.textOf SourceId.document) offset (Generate.Scene.importPath path).toList := by
    intro b hb path offset quoted hattr
    have hnone := hsrc b hb
    rw [Block.attrValue, hattr] at hnone
    cases hnone
  intro a ha
  exact isVerbatim_of_maps (maps_segments hreader (fun _ => Sense.verbatim_hears) hd hcontents hsuits hpath o filename a ha)

/-- The mapped text of a component with a computed argument, a listener and a slot is that of its source. -/
theorem segments_verbatim_slotUse : Sense.verbatim.Reads slotUseReader ∧
    ∀ a ∈ (Draft.ofDocument Script.Module.read default none (Document.split slotUse).1).segments,
      a.IsVerbatim (Document.split slotUse).1.texts := by
  have hverbatim := segments_verbatim reads_slotUse default none slotUse (by decide +kernel) (by decide +kernel) (by decide +kernel)
  rw [segments_slotUse] at hverbatim
  exact ⟨reads_slotUse, hverbatim⟩

/-- A document without faults. Its listener begins with a letter that is two letters in upper case. -/
def growingListener : String := "<template><div @ŉ-b=\"x\"/></template>"

/-- The part of the name behind the hyphen is mapped to the equals sign behind the name. -/
theorem not_verbatim_of_growingListener :
    (Document.split growingListener).2 = [] ∧ (Document.split growingListener).1.script = none ∧
      ¬∀ a ∈ (Draft.ofDocument Script.Module.read default none (Document.split growingListener).1).segments,
        a.IsVerbatim (Document.split growingListener).1.texts := by
  refine ⟨by decide +kernel, by decide +kernel, fun hall => ?_⟩
  have hmem : Segment.mapped "B" SourceId.template 10 ⟨.never, some (.joins 1)⟩ ∈
      (Draft.ofDocument Script.Module.read default none (Document.split growingListener).1).segments := by decide +kernel
  have htext : (Document.split growingListener).1.texts[SourceId.template]? = some "<div @ŉ-b=\"x\"/>" := by decide +kernel
  obtain ⟨text, htext', u, hstands, hu⟩ := hall _ hmem (by decide)
  obtain rfl := Option.some.inj (htext.symm.trans htext')
  -- The text that is mapped would begin with what stands there.
  have hsign : Text.Rest "<div @ŉ-b=\"x\"/>".toList 10 ('=' :: "\"x\"/>".toList) := ⟨"<div @ŉ-b".toList, by decide, by decide⟩
  obtain ⟨more, hrest⟩ := hstands
  have hbegins := hrest.unique hsign
  cases hlist : u.toList with
  | nil =>
    obtain rfl := String.toList_eq_nil_iff.1 hlist
    rcases hu with hu | hu <;> exact absurd hu (by decide)
  | cons c cs =>
    rw [hlist] at hbegins
    obtain ⟨rfl, -⟩ := List.cons.inj hbegins
    rcases hu with rfl | hu
    · exact absurd hlist (by simp)
    · have hupper : Text.toUpper '=' = ['='] := by decide
      have hown : "B".toList = '=' :: cs := by rw [hu, Text.capitalize_of_cons hlist, hupper, String.toList_ofList]; rfl
      exact absurd (List.cons.inj hown).1 (by decide)

end TypedFile

end TypedSfc

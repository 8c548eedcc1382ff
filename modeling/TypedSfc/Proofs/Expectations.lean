import TypedSfc.Proofs.Exposed
import TypedSfc.Proofs.Generate.Expectations

/-!
# Expectations of a document

In the map of a document the entries that have to do with expectations are those of its template, in the order in which they were
written: the styles and the scripts bring none. So each expectation has one marker at most, which comes behind all entries whose errors
count for it, and the marker counts for the frame that was open when it was written.
-/

namespace TypedSfc

open Generate (Settled Setting State Tally Written)

/-! ## Entries and policies -/

namespace Segment

theorem map_policy_placed (ss : List Segment) : (placed ss).map (·.info.policy) = policies ss := by
  have hpolicy : ∀ p : Segment × Nat, (p.1.placedAt (totalSize (ss.take p.2))).map (·.info.policy) = p.1.policy? := by
    rintro ⟨s, k⟩
    cases s <;> rfl
  rw [placed, List.map_filterMap, policies, funext hpolicy]
  conv => rhs; rw [← List.zipIdx_map_fst 0 ss, List.filterMap_map]
  rfl

/-- The entries of a stream have policies of its segments, in order. -/
theorem policies_entriesOf (bases : List Nat) (ss : List Segment) : ((entriesOf bases ss).map (·.policy)).Sublist (policies ss) := by
  rw [entriesOf, List.map_map, ← map_policy_placed]
  exact List.filter_sublist.map _

end Segment

/-! ## Code without markers -/

namespace Generate

variable {P : Permit} {W : Nat → Option Nat → Prop} {n hi : Nat} {as bs : List Segment}

/-- Code without markers, outside of all frames. -/
theorem Tally.outside (h : ∀ a ∈ as, P.Admits none a) : Tally W [] n n (Segment.policies as) := .plain W n (Segment.exists_plain h)

theorem Tally.behind {ms : List Segment} (h : Tally W [] 0 hi (Segment.policies ms)) (hbs : ∀ b ∈ bs, P.Admits none b) :
    Tally W [] 0 hi (Segment.policies (ms ++ bs)) := by
  rw [Segment.policies_append]
  exact h.append (.outside hbs) (by simp [numbersOf])

theorem Tally.surrounded (has : ∀ a ∈ as, P.Admits none a) {ms : List Segment} (h : Tally W [] 0 hi (Segment.policies ms))
    (hbs : ∀ b ∈ bs, P.Admits none b) : Tally W [] 0 hi (Segment.policies (as ++ ms ++ bs)) := by
  refine Tally.behind ?_ hbs
  rw [Segment.policies_append]
  exact (Tally.outside has).append h (by simp [numbersOf])

/-- The code of styles has no markers. -/
theorem puts_styles_everything (r : Setting) (e : Option Effect) (ss : List StyleBlock) : Puts .everything r e (styles ss) := by
  have hclass (source : SourceId) (x : StyleRef) : Puts .everything r e (classPart source x) := by
    unfold classPart
    split
    · exact .text (.andThen (puts_mapped trivial rfl) fun _ => puts_text _)
    · exact puts_pure ()
  have hmember (s : StyleBlock × Nat) : Puts .everything r e (moduleMember s) := by
    unfold moduleMember
    split
    · exact puts_pure ()
    · refine .text (.andThen gives_read.puts fun _ => Puts.whenever (puts_text _) ?_)
      exact .text (.andThen (puts_forM fun x _ => hclass _ x) fun _ => puts_text _)
  have hbindings (s : StyleBlock × Nat) : Puts .everything r e (styleBindings s) :=
    puts_forM fun b _ => .andThen (puts_expressionIn_everything _ _ _ _ _ rfl) fun _ => puts_text _
  have htypes : Puts .everything r e (moduleTypes ss) :=
    .ite (fun _ => .andThen (puts_noteType _) fun _ => .text (.andThen (puts_forM fun s _ => hmember s) fun _ => puts_text _))
      fun _ => puts_pure ()
  refine .andThen gives_read.puts fun _ => Surrounds.puts (surrounds_inScope surrounds_inner) ?_
  exact .andThen (puts_declare _) fun _ => .andThen htypes fun _ => puts_forM fun s _ => hbindings s

end Generate

namespace TypedFile

variable {d : Document}

/-- In the walk over the template of a document the marker of the frame `n` is written where it counts for `outer`. -/
def SettledIn (r : Setting) (d : Document) (n : Nat) (outer : Option Nat) : Prop :=
  ∃ f ∈ d.fragment, Settled (templateSetting r d) {} f n outer

theorem tally_withTemplate (r : Setting) (d : Document) : ∃ hi,
    Tally (SettledIn r d) [] 0 hi (Segment.policies (Inner.withTemplate {} r d).code.segments) ∧
      (Inner.withTemplate {} r d).code.effect = none := by
  unfold Inner.withTemplate
  cases hb : d.template with
  | none => exact ⟨0, .nil, rfl⟩
  | some b =>
    have hsetting : templateSetting r d = r.withTemplate b.content d.fragment := by simp [templateSetting, hb]
    have hcode : ({} : Code).effect = none := rfl
    obtain ⟨as, has, htally⟩ := Generate.tallies_template (r := r.withTemplate b.content d.fragment) hcode d.fragment
    have hsegments : (State.ofTemplate r b.content d.fragment {}).code.segments = as := has
    refine ⟨(State.ofTemplate r b.content d.fragment {}).nextExpectation, ?_, Generate.effect_template hcode d.fragment⟩
    show Tally _ _ _ _ (Segment.policies (State.ofTemplate r b.content d.fragment {}).code.segments)
    rw [hsegments]
    refine htally.mono fun n outer hsettled => ?_
    unfold SettledIn
    rwa [hsetting]

theorem tally_inner (r : Setting) (d : Document) : ∃ hi,
    Tally (SettledIn r d) [] 0 hi (Segment.policies (Inner.ofDocument r d).code.segments) ∧ (Inner.ofDocument r d).code.effect = none := by
  unfold Inner.ofDocument
  split
  · exact ⟨0, .nil, rfl⟩
  · obtain ⟨hi, htally, heffect⟩ := tally_withTemplate r d
    generalize Inner.withTemplate {} r d = i at htally heffect
    unfold Inner.withStyles
    split
    · exact ⟨hi, htally, heffect⟩
    · have hputs := Generate.puts_styles_everything r none d.styles { code := i.code.continueFrom } heffect (Generate.noted_everything _)
      obtain ⟨as, has, hadmits⟩ := hputs.1.code_extends.segments_eq
      have hstyles : (State.ofStyles r d.styles i.code.continueFrom).code.segments = as := has
      have hnone : ({ code := i.code.continueFrom } : State).code.effect = none := heffect
      rw [hnone] at hadmits
      refine ⟨hi, ?_, heffect⟩
      show Tally _ _ _ _ (Segment.policies (i.code.segments ++ _))
      rw [hstyles]
      exact htally.behind hadmits

/-- The policies of the whole code of a document are tallied. -/
theorem tally_segments (reader : Script.Reader) (o : Options) (filename : Option String) (d : Document) :
    let scene := sceneOf reader o filename d
    ∃ hi, Tally (SettledIn (settingOf reader scene.options scene.script scene.setup filename) d) [] 0 hi
      (Segment.policies (Draft.ofDocument reader o filename d).segments) := by
  intro scene
  obtain ⟨hi, htally, heffect⟩ := tally_inner (settingOf reader scene.options scene.script scene.setup filename) d
  generalize hinner : (Inner.ofDocument (settingOf reader scene.options scene.script scene.setup filename) d).code = inner
    at htally heffect
  have hsegments : (Draft.ofDocument reader o filename d).segments = ((Written.ofPieces inner scene.pieces).code.text
      (HelperType.declarations scene.options.lib (Written.ofPieces inner scene.pieces).helpers)).segments := by
    rw [← hinner]
    rfl
  obtain ⟨as, ms, bs, hwritten, hms, has, hbs⟩ := (Generate.Scene.around_pieces scene.fits_below).exists_segments inner
  rw [heffect] at has hbs
  have hplaced : Tally (SettledIn (settingOf reader scene.options scene.script scene.setup filename) d) [] 0 hi (Segment.policies ms) := by
    rcases hms with rfl | rfl
    · exact htally
    · exact Tally.nil.below (Nat.zero_le hi)
  refine ⟨hi, ?_⟩
  rw [hsegments, Code.policies_text, hwritten]
  exact Tally.surrounded has hplaced hbs

/-- Policies in the order of a tally: a marker of a number stands alone, and behind all that counts for the number. -/
theorem index_of_marks {ps : List Policy} (h : ps.Pairwise fun p q => ∀ n, p.Marks n → ¬q.Marks n ∧ ¬q.Expects n) {i j n : Nat}
    {p q : Policy} (hp : ps[i]? = some p) (hq : ps[j]? = some q) (hmarks : q.Marks n) :
    (p.Marks n → i = j) ∧ (p.Expects n → i < j) := by
  obtain ⟨hi, rfl⟩ := List.getElem?_eq_some_iff.1 hp
  obtain ⟨hj, rfl⟩ := List.getElem?_eq_some_iff.1 hq
  rw [List.pairwise_iff_getElem] at h
  rcases Nat.lt_trichotomy i j with hlt | rfl | hlt
  · exact ⟨fun hmarks' => absurd hmarks (h i j hi hj hlt n hmarks').1, fun _ => hlt⟩
  · exact ⟨fun _ => rfl, fun hexpects => absurd hmarks (Policy.not_marks_of_expects hexpects n)⟩
  · obtain ⟨hnone, hfree⟩ := h j i hj hi hlt n hmarks
    exact ⟨fun hmarks' => absurd hmarks' hnone, fun hexpects => absurd hexpects hfree⟩

/-- The expectations of a document can be settled by one pass over its map, which is made of every document and is that of its file: each
frame has one marker at most, which comes behind all entries whose errors count for the frame. The marker was written behind a node that
was entered with the frame; it counts for itself if no frame outside ignores or expects errors, and else for the innermost frame that does
either, which expects errors and has a lower number. -/
theorem expectations_settled (reader : Script.Reader) (o : Options) (filename : Option String) (d : Document) :
    let scene := sceneOf reader o filename d
    let setting := settingOf reader scene.options scene.script scene.setup filename
    ∃ code map, ((Builder.new (bases d)).pushAll (Draft.ofDocument reader o filename d).segments).finish = .ok (code, map) ∧
      (∀ f, ofDocumentBy reader o filename d = .ok f → f.map = map) ∧
      (∀ (i j n : Nat) (a b : Entry), map.entries[i]? = some a → map.entries[j]? = some b → b.policy.Marks n →
        (a.policy.Marks n → i = j) ∧ (a.policy.Expects n → i < j)) ∧
      ∀ e ∈ map.entries, ∀ n outer, e.policy = .unused n outer → SettledIn setting d n outer := by
  intro scene setting
  obtain ⟨hi, htally⟩ := tally_segments reader o filename d
  obtain ⟨hgrouped, hknown⟩ := grouped_and_known reader o filename d
  have hfinish := Builder.finish_of_grouped hknown hgrouped
  have hsublist := Segment.policies_entriesOf (bases d) (Draft.ofDocument reader o filename d).segments
  refine ⟨_, _, hfinish, fun f hf => (of_ofDocumentBy_ok hf).2.1, ?_, ?_⟩
  · intro i j n a b ha hb hmarks
    refine index_of_marks (htally.ordered.sublist hsublist) ?_ ?_ hmarks
    · rw [List.getElem?_map, ha]
      rfl
    · rw [List.getElem?_map, hb]
      rfl
  · intro e he n outer hpolicy
    have hmem : .unused n outer ∈ (Segment.entriesOf (bases d) (Draft.ofDocument reader o filename d).segments).map (·.policy) :=
      hpolicy ▸ List.mem_map_of_mem he
    exact (htally.marked n outer (hsublist.subset hmem)).2.2

/-- One expectation within another: the errors of the interpolation count for the inner one, whose marker counts for the outer one. -/
example : let source := "<template><!-- @vue-expect-error --><b><!-- @vue-expect-error -->\x7b\x7ba\x7d\x7d</b></template>"
    ((Segment.policies (Draft.ofDocument Script.Module.read default none (Document.split source).1).segments).filter
      fun p => !p.isPlain).dedup = [.expected 0 [], .expected 1 [], .unused 1 (some 0), .unused 0 none] := by
  decide +kernel

end TypedFile

end TypedSfc

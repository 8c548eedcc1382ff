import Mathlib.Data.List.Basic
import TypedSfc.Options.Local
import TypedSfc.Proofs.Options.Layers

/-!
# What the comments of a file set

`Layer.saidBy` says what comments set: an option has the value of the last comment whose first line with a `@` and a key names it and
gives it a value that fits. The options of a file are those of the project with that layer over them, and comments that are at fault
change nothing. One thing more may change than what is named: the names of model properties are put into camelCase once again, which is
not their first spelling where a hyphen before a word character is left in one.
-/

namespace TypedSfc

namespace Options

open Json (Value)

/-! ## What a comment says -/

/-- The key and the value of the first line of a comment that may set an option. -/
def override? (comment : String) : Option (String × String) := (lines comment.toList).findSome? optionLine?

/-- The value to which an option is set by a value under a key: the key is that of the option, and the value is not null and has the form
of the option. -/
def Field.setBy? (f : Field) (key : String) : Value → Option Value
  | .null => none
  | v => if Field.ofKey? key = some f ∧ f.shape.fits v then some v else none

/-- The value to which a comment sets an option. -/
def Field.said? (f : Field) (comment : String) : Option Value :=
  (override? comment).bind fun line => (Value.read line.2).toOption.bind fun v => f.setBy? line.1 (sorted v)

/-- The value to which the last of some comments sets an option. -/
def Field.lastSaid? (f : Field) (comments : List String) : Option Value := (comments.filterMap f.said?).getLast?

/-- What some comments set together. -/
def Layer.saidBy (comments : List String) : Layer where
  target := (Field.target.lastSaid? comments).map Target.ofValue
  strictTemplates := (Field.strictTemplates.lastSaid? comments).map flagOf
  lib := (Field.lib.lastSaid? comments).map textOf
  extensions := (Field.extensions.lastSaid? comments).map (listOf textOf)
  flag := fun f => ((Field.flag f).lastSaid? comments).map flagOf
  fallthroughNames := (Field.fallthroughNames.lastSaid? comments).map (listOf textOf)
  dataAttributes := (Field.dataAttributes.lastSaid? comments).map (listOf textOf)
  htmlAttributes := (Field.htmlAttributes.lastSaid? comments).map (listOf textOf)
  wrapper := (Field.wrapper.lastSaid? comments).map (listOf textOf)
  macros := (Field.macros.lastSaid? comments).map (tableOf (listOf textOf))
  composables := (Field.composables.lastSaid? comments).map (tableOf (listOf textOf))
  modelNames := (Field.modelNames.lastSaid? comments).map (tableOf (tableOf Rule.ofValue))

/-- A comment counts when the first of its lines that may set an option has a value of JSON, and one of the form of its option if it
names one. A null has the form of every option. -/
def Counts (comment : String) : Prop :=
  ∃ key text v, override? comment = some (key, text) ∧ Value.read text = .ok v ∧
    (sorted v = .null ∨ ∀ f, Field.ofKey? key = some f → f.shape.fits (sorted v) = true)

/-- A comment is at fault when the first of its lines that may set an option has no value of JSON, or one that is not of the form of the
option that it names. -/
def Faulty (comment : String) : Prop :=
  ∃ key text, override? comment = some (key, text) ∧
    ((∃ e, Value.read text = .error e) ∨
      ∃ v f, Value.read text = .ok v ∧ sorted v ≠ .null ∧ Field.ofKey? key = some f ∧ f.shape.fits (sorted v) = false)

/-! ## The layers of comments -/

theorem Field.setBy?_of_ne_null {v : Value} (hv : v ≠ .null) (f : Field) (key : String) :
    f.setBy? key v = if Field.ofKey? key = some f ∧ f.shape.fits v then some v else none := by
  cases v <;> first | exact absurd rfl hv | rfl

/-- A null sets nothing, whatever its key. -/
theorem Layer.ofEntry?_null (key : String) : Layer.ofEntry? key .null = some {} := by
  unfold ofEntry?
  cases Field.ofKey? key <;> rfl

theorem Layer.ofEntry?_of_ne_null {v : Value} (hv : v ≠ .null) (key : String) : Layer.ofEntry? key v =
    match Field.ofKey? key with
    | none => some {}
    | some f => if f.shape.fits v then some (Layer.set {} v f) else none := by
  unfold ofEntry?
  cases Field.ofKey? key with
  | none => rfl
  | some f => cases v <;> first | exact absurd rfl hv | rfl

theorem Layer.ofComment?_eq (comment : String) : Layer.ofComment? comment =
    (override? comment).bind fun line => (Value.read line.2).toOption.bind fun v => Layer.ofEntry? line.1 (sorted v) := by
  unfold ofComment?
  rw [← override?]
  cases override? comment with
  | none => rfl
  | some line =>
    simp only [Option.bind_eq_bind, Option.bind_some]
    cases Value.read line.2 <;> rfl

/-- A comment that is at fault has no layer. -/
theorem Layer.ofComment?_of_faulty {comment : String} (h : Faulty comment) : Layer.ofComment? comment = none := by
  obtain ⟨key, text, hline, ⟨e, he⟩ | ⟨v, f, hv, hnull, hkey, hfits⟩⟩ := h
  · simp [ofComment?_eq, hline, he, Except.toOption]
  · simp [ofComment?_eq, hline, hv, Except.toOption, ofEntry?_of_ne_null hnull, hkey, hfits]

/-- A comment has a layer when it counts. -/
theorem Layer.exists_ofComment?_iff {comment : String} : (∃ l, Layer.ofComment? comment = some l) ↔ Counts comment := by
  rw [ofComment?_eq, Counts]
  cases override? comment with
  | none => simp
  | some line =>
    obtain ⟨key, text⟩ := line
    cases hread : Value.read text with
    | error e => simp [hread, Except.toOption]
    | ok v =>
      by_cases hv : sorted v = .null
      · simp [hread, hv, ofEntry?_null, Except.toOption]
      · cases hkey : Field.ofKey? key <;> simp [hread, hv, hkey, ofEntry?_of_ne_null hv, Except.toOption]

section

variable {α : Type} {get : Layer → Option α} {f : Field} {g : Value → α}

/-- What is read of the layer of a value is the value, if it sets what is read. -/
theorem Layer.bind_ofEntry? (hempty : get {} = none) (hset : ∀ v f', get (Layer.set {} v f') = if f' = f then some (g v) else none)
    (key : String) (v : Value) : (Layer.ofEntry? key v).bind get = (f.setBy? key v).map g := by
  by_cases hv : v = .null
  · subst hv
    rw [ofEntry?_null]
    exact hempty
  · rw [ofEntry?_of_ne_null hv, Field.setBy?_of_ne_null hv]
    cases Field.ofKey? key with
    | none => simp [hempty]
    | some f' =>
      by_cases hf : f' = f
      · subst hf
        by_cases hfits : f'.shape.fits v <;> simp [hfits, hset]
      · by_cases hfits : f'.shape.fits v <;> simp [hfits, hset, hf]

/-- What is read of the layer of a comment is what the comment says. -/
theorem Layer.bind_ofComment? (hempty : get {} = none)
    (hset : ∀ v f', get (Layer.set {} v f') = if f' = f then some (g v) else none) (comment : String) :
    (Layer.ofComment? comment).bind get = (f.said? comment).map g := by
  rw [ofComment?_eq, Field.said?]
  cases override? comment with
  | none => rfl
  | some line =>
    simp only [Option.bind_some]
    cases Value.read line.2 with
    | error e => rfl
    | ok v => exact bind_ofEntry? hempty hset line.1 (sorted v)

/-- The last layer of some comments in which something is read is that of the last comment that says it. -/
theorem Layer.last_ofComments (get : Layer → Option α) (f : Field) (g : Value → α) (comments : List String) (hempty : get {} = none)
    (hset : ∀ v f', get (Layer.set {} v f') = if f' = f then some (g v) else none) :
    Layer.last get (comments.filterMap Layer.ofComment?) = (f.lastSaid? comments).map g := by
  rw [Layer.last, List.filterMap_filterMap, Field.lastSaid?, ← List.getLast?_map, List.map_filterMap]
  congr 2
  funext comment
  exact bind_ofComment? hempty hset comment

end

/-- Layers put over each other as they are set what each of them sets last. -/
theorem Layer.foldl_onto (ls : List Layer) : ls.foldl (fun earlier later => later.onto earlier) {} =
    { Layer.latest ls with target := Layer.last Layer.target ls } := by
  induction ls using List.reverseRecOn with
  | nil => rfl
  | append_singleton ls l ih =>
    rw [List.foldl_append, ih]
    simp only [List.foldl_cons, List.foldl_nil, onto, latest, last_concat, Option.orElse_eq_orElse, Option.orElse_eq_or]

/-- The layers of some comments put over each other set what the comments say. -/
theorem Layer.foldl_ofComments (comments : List String) :
    (comments.filterMap Layer.ofComment?).foldl (fun earlier later => later.onto earlier) {} = Layer.saidBy comments := by
  have hflag : ∀ f, Layer.last (fun l => l.flag f) (comments.filterMap Layer.ofComment?) =
      ((Field.flag f).lastSaid? comments).map flagOf := by
    intro f
    refine last_ofComments (fun l => l.flag f) (.flag f) flagOf comments rfl fun v f' => ?_
    cases f' <;> simp [Layer.set, eq_comm]
  rw [foldl_onto]
  simp only [latest, saidBy, hflag, mk.injEq, true_and]
  -- Each of the other options is set under one key alone, so that it is read off the constructors.
  exact ⟨last_ofComments target .target Target.ofValue comments rfl fun _ f' => by cases f' <;> rfl,
    last_ofComments strictTemplates .strictTemplates flagOf comments rfl fun _ f' => by cases f' <;> rfl,
    last_ofComments lib .lib textOf comments rfl fun _ f' => by cases f' <;> rfl,
    last_ofComments extensions .extensions (listOf textOf) comments rfl fun _ f' => by cases f' <;> rfl,
    last_ofComments fallthroughNames .fallthroughNames (listOf textOf) comments rfl fun _ f' => by cases f' <;> rfl,
    last_ofComments dataAttributes .dataAttributes (listOf textOf) comments rfl fun _ f' => by cases f' <;> rfl,
    last_ofComments htmlAttributes .htmlAttributes (listOf textOf) comments rfl fun _ f' => by cases f' <;> rfl,
    last_ofComments wrapper .wrapper (listOf textOf) comments rfl fun _ f' => by cases f' <;> rfl,
    last_ofComments macros .macros (tableOf (listOf textOf)) comments rfl fun _ f' => by cases f' <;> rfl,
    last_ofComments composables .composables (tableOf (listOf textOf)) comments rfl fun _ f' => by cases f' <;> rfl,
    last_ofComments modelNames .modelNames (tableOf (tableOf Rule.ofValue)) comments rfl fun _ f' => by cases f' <;> rfl⟩

/-! ## The options of a file -/

/-- The options of a file are those of the project when no comment counts, and else those with what the comments say over them. -/
theorem withComments_eq (o : Options) (comments : List String) :
    ((∀ c ∈ comments, ¬Counts c) ∧ Layer.saidBy comments = {} ∧ o.withComments comments = o) ∨
      (∃ c ∈ comments, Counts c) ∧ o.withComments comments = o.withLayer (Layer.stack [Layer.saidBy comments]) := by
  have hfold := Layer.foldl_ofComments comments
  unfold withComments Layer.ofComments?
  cases hls : comments.filterMap Layer.ofComment? with
  | nil =>
    refine .inl ⟨fun c hc hcounts => ?_, by rw [← hfold, hls]; rfl, rfl⟩
    obtain ⟨l, hl⟩ := Layer.exists_ofComment?_iff.2 hcounts
    simp [List.filterMap_eq_nil_iff.1 hls c hc] at hl
  | cons l ls =>
    obtain ⟨c, hc, hl⟩ := List.mem_filterMap.1 (hls ▸ List.mem_cons_self : l ∈ comments.filterMap Layer.ofComment?)
    rw [hls] at hfold
    exact .inr ⟨⟨c, hc, Layer.exists_ofComment?_iff.1 ⟨l, hl⟩⟩, by simp only [hfold]⟩

/-- A layer that sets nothing leaves options as they are. -/
theorem overlays_empty (o : Options) : Overlays o {} o where
  target := rfl
  lib := rfl
  extensions := rfl
  flag f := by simp [Layer.wants]
  fallthroughNames := by simp
  dataAttributes := rfl
  htmlAttributes := rfl
  wrapper := rfl
  macros := Keyed.merges_extend _ []
  composables := Keyed.merges_extend _ []
  modelNames := nofun
  keptModelNames _ := rfl

/-- Comments that are at fault may be left out. -/
theorem withComments_filter (o : Options) {comments : List String} {kept : String → Bool}
    (h : ∀ c ∈ comments, kept c = false → Faulty c) : o.withComments (comments.filter kept) = o.withComments comments := by
  have hlayers : (comments.filter kept).filterMap Layer.ofComment? = comments.filterMap Layer.ofComment? := by
    rw [List.filterMap_filter]
    refine List.filterMap_congr fun c hc => ?_
    cases hk : kept c with
    | true => rfl
    | false => exact (Layer.ofComment?_of_faulty (h c hc hk)).symm
  rw [withComments, withComments, Layer.ofComments?, hlayers]
  rfl

/-- The options of a file are those of the project with what its comments say over them, and comments that are at fault change nothing.
When no comment says the names of model properties, these are put into camelCase once more by any comment that counts. So nothing but
what is said changes exactly where no comment counts, or the names are said, or none of them has a hyphen before a word character. -/
theorem withComments_takes (layers : List Layer) (comments : List String) :
    Takes (ofLayers layers) (Layer.saidBy comments) ((ofLayers layers).withComments comments) ∧
      ((∃ c ∈ comments, Counts c) → (Layer.saidBy comments).modelNames = none →
        ((ofLayers layers).withComments comments).modelNames = (ofLayers layers).modelNames.map Text.camelize id) ∧
      (Overlays (ofLayers layers) (Layer.saidBy comments) ((ofLayers layers).withComments comments) ↔
        ((∃ c ∈ comments, Counts c) → (Layer.saidBy comments).modelNames = none →
          ∀ k ∈ (ofLayers layers).modelNames.keys, k.toList.IsChain fun c d => ¬(c = '-' ∧ Text.isWord d = true))) ∧
      ∀ kept : String → Bool, (∀ c ∈ comments, kept c = false → Faulty c) →
        (ofLayers layers).withComments (comments.filter kept) = (ofLayers layers).withComments comments := by
  have hnodup : (ofLayers layers).modelNames.keys.Nodup := Keyed.nodup_keys_map _ _ _
  have htakes : Takes (ofLayers layers) (Layer.saidBy comments) ((ofLayers layers).withComments comments) := by
    obtain ⟨_, hsaid, hsame⟩ | ⟨_, hover⟩ := withComments_eq (ofLayers layers) comments
    · rw [hsaid, hsame]
      exact (overlays_empty _).toTakes
    · rw [hover, Layer.stack_singleton]
      exact takes_spelledOut (hyphenate_ofLayers layers) _
  have hnames : (∃ c ∈ comments, Counts c) → (Layer.saidBy comments).modelNames = none →
      ((ofLayers layers).withComments comments).modelNames = (ofLayers layers).modelNames.map Text.camelize id := by
    rintro ⟨c, hc, hcounts⟩ hunsaid
    obtain ⟨hnone, _⟩ | ⟨_, hover⟩ := withComments_eq (ofLayers layers) comments
    · exact absurd hcounts (hnone c hc)
    · rw [hover, Layer.stack_singleton, withLayer, show (Layer.saidBy comments).spelledOut.modelNames = none from hunsaid]
      rfl
  have hfixed : (ofLayers layers).modelNames.map Text.camelize id = (ofLayers layers).modelNames ↔
      ∀ k ∈ (ofLayers layers).modelNames.keys, k.toList.IsChain fun c d => ¬(c = '-' ∧ Text.isWord d = true) := by
    simp only [Keyed.map_keys_eq_self_iff hnodup, Text.camelize_eq_self_iff]
  refine ⟨htakes, hnames, ⟨fun h hcounts hunsaid => ?_, fun h => ⟨htakes, fun hunsaid => ?_⟩⟩, fun _ hkept => withComments_filter _ hkept⟩
  · exact hfixed.1 ((hnames hcounts hunsaid).symm.trans (h.keptModelNames hunsaid))
  · by_cases hcounts : ∃ c ∈ comments, Counts c
    · rw [hnames hcounts hunsaid, hfixed.2 (h hcounts hunsaid)]
    · obtain ⟨_, _, hsame⟩ | ⟨hsome, _⟩ := withComments_eq (ofLayers layers) comments
      · rw [hsame]
      · exact absurd hsome hcounts

/-- A layer that sets the names of model properties to one name, for inputs. -/
def modelLayer (name : String) : Layer := { modelNames := some ⟨[(name, ⟨[("input", .always true)]⟩)]⟩ }

/-- The name `a--b` is put into camelCase as `a-B`, and as `aB` by a comment that sets something else. -/
theorem not_overlays_hyphen_left :
    ¬Overlays (ofLayers [modelLayer "a--b"]) (Layer.saidBy [" @checkUnknownProps true "])
      ((ofLayers [modelLayer "a--b"]).withComments [" @checkUnknownProps true "]) := by
  intro h
  have hkept := congrArg Keyed.keys (h.keptModelNames (by decide +kernel))
  have hfirst : (ofLayers [modelLayer "a--b"]).modelNames.keys = ["a-B"] := by decide +kernel
  have hagain : ((ofLayers [modelLayer "a--b"]).withComments [" @checkUnknownProps true "]).modelNames.keys = ["aB"] := by
    decide +kernel
  rw [hfirst, hagain] at hkept
  exact absurd hkept (by decide)

end Options

end TypedSfc

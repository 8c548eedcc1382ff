import Mathlib.Data.List.Induction
import TypedSfc.Options.Layer
import TypedSfc.Proofs.Options.Merging
import TypedSfc.Proofs.Text.Spellings

/-!
# What layers come to

`Overlays base said o` is the law of layers: the options `o` are `base` but for what `said` sets, whose macros, composables and names of
components are added to those of `base`. The options of several layers follow it with what each option is set to last, but for strict
templates: they set the switches at once when their layer is added, so that the first layer with strict templates decides about the
switches that no layer sets itself.
-/

namespace TypedSfc

namespace Options

open Keyed (Merges)

/-! ## The law -/

/-- What a layer sets a switch to, be it through strict templates. -/
def Layer.wants (l : Layer) (f : Flag) : Option Bool :=
  (l.flag f).or (if f.isStrictness then l.strictTemplates else none)

/-- The options `o` are what `said` sets, and else those of `base`. The names of model properties are left open where `said` sets
none. -/
structure Takes (base : Options) (said : Layer) (o : Options) : Prop where
  target : o.target = (said.target.bind Target.version?).getD base.target
  lib : o.lib = said.lib.getD base.lib
  extensions : o.extensions = said.extensions.getD base.extensions
  flag : ∀ f, o.flag f = (said.wants f).getD (base.flag f)
  fallthroughNames : o.fallthroughNames = base.fallthroughNames ++ (said.fallthroughNames.getD []).map Text.hyphenate
  dataAttributes : o.dataAttributes = said.dataAttributes.getD base.dataAttributes
  htmlAttributes : o.htmlAttributes = said.htmlAttributes.getD base.htmlAttributes
  wrapper : o.wrapper = said.wrapper.getD base.wrapper
  macros : Merges base.macros ((said.macros.map Keyed.entries).getD []) o.macros
  composables : Merges base.composables ((said.composables.map Keyed.entries).getD []) o.composables
  modelNames : ∀ names, said.modelNames = some names →
    Merges ⟨[]⟩ (names.entries.map fun e => (Text.camelize e.1, e.2)) o.modelNames

/-- The options `o` are what `said` sets, and else those of `base`. -/
structure Overlays (base : Options) (said : Layer) (o : Options) : Prop extends Takes base said o where
  keptModelNames : said.modelNames = none → o.modelNames = base.modelNames

theorem Target.version?_of_map (x : Option Float) : (x.map Target.version).bind Target.version? = x := by
  cases x <;> rfl

/-- A layer whose strict templates are spelled out as the switches that they set. -/
def Layer.spelledOut (l : Layer) : Layer :=
  { l with target := (l.target.bind Target.version?).map Target.version, strictTemplates := none, flag := l.wants }

/-- Options with a layer over them that is spelled out are what the layer sets, when the names of components in them were in kebab-case
already. -/
theorem takes_spelledOut {o : Options} (h : o.fallthroughNames.map Text.hyphenate = o.fallthroughNames) (l : Layer) :
    Takes o l (o.withLayer l.spelledOut) where
  target := by rw [withLayer, Layer.spelledOut, Target.version?_of_map]
  lib := rfl
  extensions := rfl
  flag _ := rfl
  fallthroughNames := by rw [withLayer, Layer.spelledOut, List.map_append, h]
  dataAttributes := rfl
  htmlAttributes := rfl
  wrapper := rfl
  macros := Keyed.merges_extend _ _
  composables := Keyed.merges_extend _ _
  modelNames names hnames := by
    have hset : l.spelledOut.modelNames.getD o.modelNames = names := by rw [show l.spelledOut.modelNames = some names from hnames]; rfl
    rw [withLayer, hset]
    exact Keyed.merges_ofList _

/-! ## Several layers -/

/-- What the last of some layers sets that sets anything there. -/
def Layer.last {α : Type} (get : Layer → Option α) (layers : List Layer) : Option α := (layers.filterMap get).getLast?

theorem Layer.last_concat {α : Type} (get : Layer → Option α) (layers : List Layer) (l : Layer) :
    last get (layers ++ [l]) = (get l).or (last get layers) := by
  cases hl : get l <;> simp [last, List.filterMap_append, hl]

theorem Layer.last_singleton {α : Type} (get : Layer → Option α) (l : Layer) : last get [l] = get l := by
  cases hl : get l <;> simp [last, hl]

theorem Layer.last_eq_none {α : Type} {get : Layer → Option α} {layers : List Layer} :
    last get layers = none ↔ ∀ l ∈ layers, get l = none := by
  simp [last]

/-- Every option as the last layer sets it that sets it; a version that is only named sets nothing. -/
def Layer.latest (layers : List Layer) : Layer where
  target := (Layer.last (fun l => l.target.bind Target.version?) layers).map Target.version
  strictTemplates := Layer.last Layer.strictTemplates layers
  lib := Layer.last Layer.lib layers
  extensions := Layer.last Layer.extensions layers
  flag := fun f => Layer.last (fun l => l.flag f) layers
  fallthroughNames := Layer.last Layer.fallthroughNames layers
  dataAttributes := Layer.last Layer.dataAttributes layers
  htmlAttributes := Layer.last Layer.htmlAttributes layers
  wrapper := Layer.last Layer.wrapper layers
  macros := Layer.last Layer.macros layers
  composables := Layer.last Layer.composables layers
  modelNames := Layer.last Layer.modelNames layers

/-- The strict templates of the first layer that sets them. -/
def Layer.firstStrict (layers : List Layer) : Option Bool := layers.findSome? Layer.strictTemplates

theorem Layer.firstStrict_concat (layers : List Layer) (l : Layer) :
    firstStrict (layers ++ [l]) = (firstStrict layers).or l.strictTemplates := by
  cases hl : l.strictTemplates <;> simp [firstStrict, List.findSome?_append, hl]

/-- What some layers set, but that the first strict templates count. -/
def Layer.eager (layers : List Layer) : Layer := { Layer.latest layers with strictTemplates := Layer.firstStrict layers }

/-- A switch as a later layer sets it; as the layers before it set it or their strict templates; and else by its strict templates. -/
theorem Layer.wants_eager_concat (layers : List Layer) (l : Layer) (f : Flag) :
    (eager (layers ++ [l])).wants f =
      (l.flag f).or (((eager layers).wants f).or (if f.isStrictness then l.strictTemplates else none)) := by
  simp only [eager, wants, latest, last_concat, firstStrict_concat]
  cases f.isStrictness <;> simp [Option.or_assoc]

/-- The layer that comes of several has what is set last, and the switches as they are wanted with the first strict templates. -/
theorem Layer.stack_eq (layers : List Layer) : Layer.stack layers = (Layer.eager layers).spelledOut := by
  induction layers using List.reverseRecOn with
  | nil =>
    have hflag : (eager []).wants = fun _ => none := by
      funext f
      simp [wants, eager, latest, last, firstStrict]
    rw [spelledOut, hflag]
    rfl
  | append_singleton layers l ih =>
    have hstack : Layer.stack (layers ++ [l]) = (Layer.stack layers).add l := by
      rw [stack, stack, List.foldl_append, List.foldl_cons, List.foldl_nil]
    have htarget : (l.target.bind fun t => t.version?.map Target.version) = (l.target.bind Target.version?).map Target.version := by
      cases l.target <;> rfl
    have hflag : (eager (layers ++ [l])).wants = fun f =>
        (l.flag f).or (((eager layers).wants f).or (if f.isStrictness then l.strictTemplates else none)) :=
      funext (wants_eager_concat layers l)
    rw [hstack, ih, spelledOut, spelledOut, hflag]
    simp only [add, onto, settled, strictened, eager, latest, last_concat, htarget, ← Option.map_or, Target.version?_of_map,
      Option.orElse_eq_orElse, Option.orElse_eq_or, Option.or_none]

/-- A layer on no other. -/
theorem Layer.stack_singleton (l : Layer) : Layer.stack [l] = l.spelledOut := by
  have hflag : (eager [l]).wants = l.wants := by
    funext f
    rw [← List.nil_append [l], wants_eager_concat]
    simp [eager, latest, last, firstStrict, wants]
  rw [stack_eq, spelledOut, hflag]
  simp only [spelledOut, eager, latest, last_singleton, Target.version?_of_map]

/-! ## The options of several layers -/

/-- What holds for the version and the module that some layers set when they set nothing else. -/
def foundation (layers : List Layer) : Options :=
  defaults ((Layer.last (fun l => l.target.bind Target.version?) layers).getD defaultTarget) ((Layer.last Layer.lib layers).getD "vue")

/-- The names of components that hold otherwise are in kebab-case. -/
theorem hyphenate_defaults (target : Float) (lib : String) :
    (defaults target lib).fallthroughNames.map Text.hyphenate = (defaults target lib).fallthroughNames := by
  simp [defaults]

/-- The names of components that some layers come to are in kebab-case. -/
theorem hyphenate_ofLayers (layers : List Layer) :
    (ofLayers layers).fallthroughNames.map Text.hyphenate = (ofLayers layers).fallthroughNames := by
  simp [ofLayers, withLayer, Function.comp_def]

/-- The names of model properties that hold otherwise are in camelCase. -/
theorem camelize_defaultModelNames : defaultModelNames.map Text.camelize id = defaultModelNames := by decide +kernel

/-- The options of some layers are their foundation with one layer over it. -/
theorem ofLayers_eq (layers : List Layer) : ofLayers layers = (foundation layers).withLayer (Layer.eager layers).spelledOut := by
  simp only [ofLayers, Layer.stack_eq, Layer.spelledOut, Layer.eager, Layer.latest, Target.version?_of_map, foundation]

/-- The options of some layers are what each sets last, when the first strict templates count. -/
theorem overlays_eager (layers : List Layer) : Overlays (foundation layers) (Layer.eager layers) (ofLayers layers) := by
  rw [ofLayers_eq]
  refine ⟨takes_spelledOut (hyphenate_defaults _ _) _, fun hnone => ?_⟩
  show ((Layer.eager layers).modelNames.getD defaultModelNames).map Text.camelize id = defaultModelNames
  rw [hnone]
  exact camelize_defaultModelNames

/-- Each option of some layers is as the last layer sets it that sets it, and else as it is by default; the switches of strictness that no
layer sets are as the first strict templates say. So the law that counts the last strict templates holds exactly where these and the
first do not differ, or every switch of strictness is set. -/
theorem ofLayers_overlays (layers : List Layer) :
    Overlays (foundation layers) (Layer.eager layers) (ofLayers layers) ∧
      (Overlays (foundation layers) (Layer.latest layers) (ofLayers layers) ↔
        ∀ f : Flag, f.isStrictness → (∀ l ∈ layers, l.flag f = none) →
          (Layer.firstStrict layers).getD false = (Layer.latest layers).strictTemplates.getD false) := by
  have heager := overlays_eager layers
  refine ⟨heager, fun h f hf hunset => ?_, fun h => ?_⟩
  · have hlast : (Layer.latest layers).flag f = none := Layer.last_eq_none.2 hunset
    have hfirst := heager.flag f
    rw [h.flag f] at hfirst
    simpa [Layer.wants, Layer.eager, hlast, hf, foundation, defaults] using hfirst.symm
  · have hwants : ∀ f, ((Layer.latest layers).wants f).getD false = ((Layer.eager layers).wants f).getD false := by
      intro f
      cases hlast : (Layer.latest layers).flag f with
      | some b => simp [Layer.wants, Layer.eager, hlast]
      | none =>
        cases hf : f.isStrictness with
        | false => simp [Layer.wants, Layer.eager, hlast, hf]
        | true => simpa [Layer.wants, Layer.eager, hlast, hf] using (h f hf (Layer.last_eq_none.1 hlast)).symm
    exact { heager with flag := fun f => (heager.flag f).trans (hwants f).symm }

/-- A layer that sets strict templates and nothing else. -/
def strictLayer (strict : Bool) : Layer := { strictTemplates := some strict }

/-- Strict templates that a later layer takes back stay. -/
theorem not_overlays_strict_then_lax :
    ¬Overlays (foundation [strictLayer true, strictLayer false]) (Layer.latest [strictLayer true, strictLayer false])
      (ofLayers [strictLayer true, strictLayer false]) := by
  intro h
  have hlaw := h.flag .checkUnknownProps
  have hstays : (ofLayers [strictLayer true, strictLayer false]).flag .checkUnknownProps = true := rfl
  have htaken : ((Layer.latest [strictLayer true, strictLayer false]).wants .checkUnknownProps).getD
      ((foundation [strictLayer true, strictLayer false]).flag .checkUnknownProps) = false := rfl
  rw [hstays, htaken] at hlaw
  cases hlaw

end Options

end TypedSfc

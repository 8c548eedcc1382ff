import TypedSfc.Options.Keyed
import TypedSfc.Text.Casing

/-!
# Options

What a project or a file may choose about the generated code, and what holds when nothing is chosen.
-/

namespace TypedSfc

namespace Options

/-- The switches. -/
inductive Flag where
  | strictVModel
  | strictCssModules
  | checkUnknownProps
  | checkUnknownEvents
  | checkUnknownDirectives
  | checkUnknownComponents
  | inferComponentDollarEl
  | inferComponentDollarRefs
  | inferTemplateDollarAttrs
  | inferTemplateDollarEl
  | inferTemplateDollarRefs
  | inferTemplateDollarSlots
  | skipTemplateCodegen
  | fallthroughAttributes
  deriving DecidableEq, Repr, Inhabited

namespace Flag

/-- The switches in the order of their declaration. -/
def all : List Flag :=
  [strictVModel, strictCssModules, checkUnknownProps, checkUnknownEvents, checkUnknownDirectives, checkUnknownComponents,
    inferComponentDollarEl, inferComponentDollarRefs, inferTemplateDollarAttrs, inferTemplateDollarEl, inferTemplateDollarRefs,
    inferTemplateDollarSlots, skipTemplateCodegen, fallthroughAttributes]

/-- The key of a switch. -/
def key : Flag → String
  | strictVModel => "strictVModel"
  | strictCssModules => "strictCssModules"
  | checkUnknownProps => "checkUnknownProps"
  | checkUnknownEvents => "checkUnknownEvents"
  | checkUnknownDirectives => "checkUnknownDirectives"
  | checkUnknownComponents => "checkUnknownComponents"
  | inferComponentDollarEl => "inferComponentDollarEl"
  | inferComponentDollarRefs => "inferComponentDollarRefs"
  | inferTemplateDollarAttrs => "inferTemplateDollarAttrs"
  | inferTemplateDollarEl => "inferTemplateDollarEl"
  | inferTemplateDollarRefs => "inferTemplateDollarRefs"
  | inferTemplateDollarSlots => "inferTemplateDollarSlots"
  | skipTemplateCodegen => "skipTemplateCodegen"
  | fallthroughAttributes => "fallthroughAttributes"

/-- Whether strict templates turn a switch on. -/
def isStrictness : Flag → Bool
  | strictVModel | checkUnknownProps | checkUnknownEvents | checkUnknownDirectives | checkUnknownComponents => true
  | _ => false

end Flag

/-- The elements of a tag for which a rule holds. -/
inductive Rule where
  /-- All of them, or none. -/
  | always (enabled : Bool)
  /-- Those with all of some attributes. -/
  | attrs (attributes : Keyed String)
  /-- Those with all of one of some sets of attributes. -/
  | anyOf (sets : List (Keyed String))
  deriving DecidableEq, Repr, Inhabited

/-- Whether an element with the given attributes has all of some. -/
def hasAll (lookup : String → Option String) (attributes : Keyed String) : Bool :=
  attributes.entries.all fun a => lookup a.1 == some a.2

/-- Whether a rule holds for an element with the given attributes. -/
def Rule.holds (lookup : String → Option String) : Rule → Bool
  | always enabled => enabled
  | attrs as => hasAll lookup as
  | anyOf sets => sets.any (hasAll lookup)

end Options

/-- All options. -/
structure Options where
  /-- The version of the framework, as major and minor. -/
  target : Float
  /-- The module that types are imported from. -/
  lib : String
  /-- The endings of files that hold components. -/
  extensions : List String
  flag : Options.Flag → Bool
  /-- The components that hand their attributes to what is in them, in kebab-case. -/
  fallthroughNames : List String
  /-- Patterns of attributes that are no properties. -/
  dataAttributes : List String
  /-- Patterns of attributes that keep their hyphens. -/
  htmlAttributes : List String
  /-- The text before and after an object of options that is exported. -/
  wrapper : List String
  /-- The names under which each macro is called. -/
  macros : Keyed (List String)
  composables : Keyed (List String)
  /-- For each property that a model may be bound to, the rules of the tags. -/
  modelNames : Keyed (Keyed Options.Rule)

namespace Options

/-- The version that is taken when none is given. -/
def defaultTarget : Float := 99

/-- Names that are called under themselves. -/
def ownNames (names : List String) : List (String × List String) := names.map fun n => (n, [n])

/-- The macros under their own names. -/
def defaultMacros : Keyed (List String) :=
  ⟨ownNames ["defineProps", "defineSlots", "defineEmits", "defineExpose", "defineModel", "defineOptions", "withDefaults"]⟩

/-- The functions that are treated like macros, under their own names; references to the template have an older one too. -/
def defaultComposables : Keyed (List String) :=
  ⟨ownNames ["useAttrs", "useCssModule", "useSlots"] ++ [("useTemplateRef", ["useTemplateRef", "templateRef"])]⟩

/-- Inputs bind a property without a name; text inputs, text areas and selections bind their value. -/
def defaultModelNames : Keyed (Keyed Rule) :=
  ⟨[("", ⟨[("input", .always true)]⟩),
    ("value", ⟨[("input", .attrs ⟨[("type", "text")]⟩), ("textarea", .always true), ("select", .always true)]⟩)]⟩

/-- The call that an exported object is wrapped in. Before version 2.7 there is none but `extend`. -/
def defaultWrapper (target : Float) (lib : String) : List String :=
  if 2.7 ≤ target then ["(await import('" ++ lib ++ "')).defineComponent(", ")"]
  else ["(await import('" ++ lib ++ "')).default.extend(", ")"]

/-- What holds for a version and a module when nothing else is chosen. -/
def defaults (target : Float) (lib : String) : Options where
  target := target
  lib := lib
  extensions := [".vue"]
  flag := fun _ => false
  fallthroughNames := ["Transition", "KeepAlive", "Teleport", "Suspense"].map Text.hyphenate
  dataAttributes := []
  htmlAttributes := ["aria-*"]
  wrapper := defaultWrapper target lib
  macros := defaultMacros
  composables := defaultComposables
  modelNames := defaultModelNames

/-- What holds when nothing is chosen at all. -/
def standard : Options := defaults defaultTarget "vue"

instance : Inhabited Options := ⟨standard⟩

/-- Whether the version is at least a given one. -/
def targets (o : Options) (version : Float) : Bool := decide (version ≤ o.target)

/-- The names of macros with the names that call them. -/
def aliases (o : Options) : List (String × List String) := o.macros.entries ++ o.composables.entries

end Options

end TypedSfc

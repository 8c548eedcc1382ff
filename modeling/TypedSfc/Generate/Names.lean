/-!
# Names of the generated code

Every name the generated code declares or takes from its helper declarations begins with one mark, so that it cannot meet a name of
the document. What follows the mark is the key of the name.
-/

namespace TypedSfc

namespace Names

/-- The mark at the start of every name of the generated code. -/
def mark : String := "__VLS_"

/-- The name of a key. -/
def ofKey (key : String) : String := mark ++ key

/-- Whether a name belongs to the generated code. -/
def isSynthetic (name : String) : Bool := mark.toList.isPrefixOf name.toList

/-- The `index`-th temporary. -/
def temporary (index : Nat) : String := ofKey (toString index)

/-- The keys of the values that the generated code declares. -/
def valueKeys : List String :=
  ["base", "componentsOption", "ctx", "defaultModels", "defaults", "directives", "directivesOption", "dollars", "emit", "export",
    "exposed", "intrinsics", "modelEmit", "props", "propsOption", "self", "setup", "slots"]

/-- The keys of the types that the generated code declares. -/
def typeKeys : List String :=
  ["Emit", "EmitProps", "GlobalComponents", "InheritedAttrs", "LocalComponents", "LocalDirectives", "ModelEmit", "ModelProps",
    "Props", "PublicProps", "RootEl", "SetupExposed", "Slots", "StyleModules", "TemplateRefs"]

/-- The keys of the helpers that are declared beside the generated code. -/
def helperKeys : List String :=
  ["asFunctionalComponent0", "asFunctionalComponent1", "asFunctionalDirective", "asFunctionalElement0", "asFunctionalElement1",
    "asFunctionalSlot", "directiveBindingRestFields", "functionalComponentArgsRest", "tryAsConstant", "vFor", "vSlot",
    "ConstructorOverloads", "Elements", "EmitsToProps", "FunctionalComponent0", "FunctionalComponent1", "FunctionalComponentCtx",
    "FunctionalComponentProps", "IsAny", "IsFunction", "NormalizeComponentEvent", "NormalizeEmits", "OverloadUnion",
    "OverloadUnionInner", "PickNotAny", "PrettifyGlobal", "ResolveDirectives", "ResolveEmits", "ShortEmits", "ShortEmitsToObject",
    "SpreadMerge", "UnionToIntersection", "WithComponent"]

/-- Keys with their names. -/
def table (keys : List String) : List (String × String) := keys.map fun k => (k, ofKey k)

end Names

end TypedSfc

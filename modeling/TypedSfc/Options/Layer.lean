import TypedSfc.Options.Basic

/-!
# Layers of options

A layer sets some options. Layers are put on each other, the later over the earlier, and the whole over what holds otherwise.
-/

namespace TypedSfc

namespace Options

/-- A version, or a name that stands for one. A name is not looked up: it sets nothing. -/
inductive Target where
  | version (x : Float)
  | named (name : String)
  deriving Inhabited

/-- The version that a target sets. -/
def Target.version? : Target → Option Float
  | version x => some x
  | named _ => none

/-- Options of which each may be set. -/
structure Layer where
  target : Option Target := none
  /-- Sets each switch of strictness that is not set otherwise. -/
  strictTemplates : Option Bool := none
  lib : Option String := none
  extensions : Option (List String) := none
  flag : Flag → Option Bool := fun _ => none
  fallthroughNames : Option (List String) := none
  dataAttributes : Option (List String) := none
  htmlAttributes : Option (List String) := none
  wrapper : Option (List String) := none
  macros : Option (Keyed (List String)) := none
  composables : Option (Keyed (List String)) := none
  modelNames : Option (Keyed (Keyed Rule)) := none
  deriving Inhabited

namespace Layer

/-- What a later layer sets, and what an earlier one sets besides. -/
def onto (later earlier : Layer) : Layer where
  target := later.target <|> earlier.target
  strictTemplates := later.strictTemplates <|> earlier.strictTemplates
  lib := later.lib <|> earlier.lib
  extensions := later.extensions <|> earlier.extensions
  flag := fun f => later.flag f <|> earlier.flag f
  fallthroughNames := later.fallthroughNames <|> earlier.fallthroughNames
  dataAttributes := later.dataAttributes <|> earlier.dataAttributes
  htmlAttributes := later.htmlAttributes <|> earlier.htmlAttributes
  wrapper := later.wrapper <|> earlier.wrapper
  macros := later.macros <|> earlier.macros
  composables := later.composables <|> earlier.composables
  modelNames := later.modelNames <|> earlier.modelNames

/-- A layer whose strict templates have set the switches that neither it nor the layers before it set. -/
def strictened (l earlier : Layer) : Layer :=
  { earlier with flag := fun f => earlier.flag f <|> if f.isStrictness then l.strictTemplates else none }

/-- A layer without what is not handed on as such: strict templates, and a version that is only named. -/
def settled (l : Layer) : Layer :=
  { l with target := l.target.bind fun t => t.version?.map Target.version, strictTemplates := none }

/-- The layer that comes of a later one on those before it. -/
def add (earlier later : Layer) : Layer := later.settled.onto (later.strictened earlier)

/-- The layer that comes of several, the earliest first. -/
def stack (layers : List Layer) : Layer := layers.foldl add {}

end Layer

/-- Options with a layer put over them. Macros are added to those that are there, and so are the names of components. -/
def withLayer (o : Options) (l : Layer) : Options where
  target := ((l.target.bind Target.version?).getD o.target)
  lib := l.lib.getD o.lib
  extensions := l.extensions.getD o.extensions
  flag := fun f => (l.flag f).getD (o.flag f)
  fallthroughNames := (o.fallthroughNames ++ l.fallthroughNames.getD []).map Text.hyphenate
  dataAttributes := l.dataAttributes.getD o.dataAttributes
  htmlAttributes := l.htmlAttributes.getD o.htmlAttributes
  wrapper := l.wrapper.getD o.wrapper
  macros := o.macros.extend ((l.macros.map Keyed.entries).getD [])
  composables := o.composables.extend ((l.composables.map Keyed.entries).getD [])
  modelNames := (l.modelNames.getD o.modelNames).map Text.camelize id

/-- The options of some layers, the earliest first. -/
def ofLayers (layers : List Layer) : Options :=
  let l := Layer.stack layers
  (defaults ((l.target.bind Target.version?).getD defaultTarget) (l.lib.getD "vue")).withLayer l

end Options

end TypedSfc

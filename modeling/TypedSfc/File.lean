import TypedSfc.Document.Split
import TypedSfc.Generate.Script
import TypedSfc.Generate.Style
import TypedSfc.LineIndex
import TypedSfc.Mapping.Builder
import TypedSfc.Mapping.Diagnostic
import TypedSfc.Options.Local

/-!
# Typed files

A typed file is a document as code that a checker understands, with a map that carries what the checker says back to the document. The
code of the template and the styles comes first, because it decides which names of the scripts are shown to it.
-/

namespace TypedSfc

/-- A script of a document that was read. -/
structure ReadScript where
  block : Block
  module : Script.Module
  deriving Inhabited

namespace ReadScript

/-- Reads the script of a block. -/
def ofBlock (reader : Script.Reader) (b : Block) : ReadScript := ⟨b, reader b.content b.lang⟩

/-- The faults of a script, at their places in the document. -/
def errors (r : ReadScript) : List Script.Error :=
  r.module.errors.map fun e => { e with span := e.span.shift r.block.inner.start }

end ReadScript

/-- A document as code. -/
structure TypedFile where
  source : String
  code : String
  map : SourceMap
  /-- The language of the code. -/
  lang : String
  /-- The types that may be missing and were declared. -/
  types : List String
  /-- The names of the scripts that the template and the styles read, in order. -/
  exposed : List String
  /-- The faults of the scripts, at their places in the document. -/
  errors : List Script.Error
  deriving Inhabited

namespace TypedFile

open Generate (Scene Setting State)

/-! ## What the scripts say to the template -/

/-- The texts at the places of some names. -/
def namesAt (b : Block) (is : List Script.Ident) : List String := is.map fun i => b.textAt i.range

/-- The names that a template may use as they are: imports of components, and properties that are taken apart. Without a setup script
there are none. -/
def setupConsts (p : Option PlainScript) (q : Option SetupScript) : List String :=
  match q with
  | none => []
  | some q =>
    namesAt q.block q.setup.bindings.components ++
    (p.map fun p => namesAt p.block p.bindings.components).getD [] ++
    (q.setup.props.map fun m => m.destructured ++ m.rest.toList).getD []

/-- The names that the scripts bind, without imports of components. -/
def declared (p : Option PlainScript) (q : Option SetupScript) : List String :=
  (q.map fun q => namesAt q.block q.setup.bindings.values).getD [] ++ (p.map fun p => namesAt p.block p.bindings.values).getD []

/-- Whether the component hands on attributes that it does not declare. The setup script has the say before the plain one. -/
def inheritAttrs (p : Option PlainScript) (q : Option SetupScript) : Bool :=
  ((q.bind fun q => q.setup.options.bind (·.inheritAttrs)).or (p.bind fun p => p.options?.bind (·.inheritAttrs))).getD true

/-- The last part of a path, if it names a file. -/
def fileName? (path : String) : Option (List Char) :=
  match ((path.toList.splitOn '/').filter fun part => part != [] && part != ['.']).getLast? with
  | none | some ['.', '.'] => none
  | name => name

/-- The name of a file without what follows its last dot; a dot at the start does not count. -/
def fileStem? (path : String) : Option String :=
  (fileName? path).map fun name =>
    match (name.reverse.dropWhile (· != '.')).reverse.dropLast with
    | [] => String.ofList name
    | stem => String.ofList stem

/-- The name of a component: the one that its options state, or else that of its file. -/
def componentName (p : Option PlainScript) (q : Option SetupScript) (filename : Option String) : String :=
  let fromScript := p.bind fun p => (p.options?.bind (·.name)).map fun n => p.block.textAt ⟨n.start + 1, n.stop - 1⟩
  let fromSetup := q.bind fun q => q.setup.options.bind (·.name)
  Text.capitalize (Text.camelize (((fromScript.or fromSetup).or (filename.bind fileStem?)).getD ""))

/-- What the generators of template and style code are told about the scripts. -/
def settingOf (reader : Script.Reader) (o : Options) (p : Option PlainScript) (q : Option SetupScript) (filename : Option String) :
    Setting :=
  { Setting.ofOptions o with
    reader := reader
    setupConsts := setupConsts p q
    setupRefs := (q.map fun q => q.setup.templateRefs.filterMap (·.name)).getD []
    hasDefineSlots := q.any (·.setup.slots.isSome)
    propsName := q.bind fun q => q.setup.props.bind (·.assigned.name)
    slotsName := q.bind fun q => q.setup.slots.bind (·.name)
    componentName := componentName p q filename
    inheritAttrs := inheritAttrs p q }

/-! ## What the template says to the scripts -/

/-- The code of the template and the styles, and what it shows and reads of the component. -/
structure Inner where
  code : Code := {}
  types : List String := []
  accessed : List String := []
  componentTags : List String := []
  /-- Whether a text in them was to be cut where no character starts. -/
  isCut : Bool := false
  deriving Inhabited

/-- A list with those elements of another that it does not have. -/
def union (as bs : List String) : List String := bs.foldl (fun as b => Generate.addNew b as) as

/-- Adds the code of the template. -/
def Inner.withTemplate (i : Inner) (s : Setting) (d : Document) : Inner :=
  match d.template with
  | none => i
  | some t =>
    let r := State.ofTemplate s t.content d.fragment i.code
    ⟨r.code, r.types, r.accessed, r.componentTags, r.isCut⟩

/-- Adds the code of the styles. -/
def Inner.withStyles (i : Inner) (s : Setting) (d : Document) : Inner :=
  if d.styles.isEmpty then i
  else
    let r := State.ofStyles s d.styles i.code.continueFrom
    { i with
      code := i.code.append r.code
      types := union i.types r.types
      accessed := union i.accessed r.accessed
      isCut := i.isCut || r.isCut }

/-- The code of the template and the styles, unless it is not wanted. -/
def Inner.ofDocument (s : Setting) (d : Document) : Inner :=
  if s.options.flag .skipTemplateCodegen then {} else (Inner.withTemplate {} s d).withStyles s d

/-- The names of the scripts that the template and the styles read: those that are read as such, and those that name a component by one
of the spellings of its tag. -/
def Inner.exposed (i : Inner) (declared : List String) : List String :=
  let tags := i.componentTags.flatMap fun t => [Text.camelize t, Text.capitalize (Text.camelize t)]
  union [] ((i.accessed ++ tags).filter declared.contains)

/-! ## The file -/

/-- Where each source starts in the document. -/
def bases (d : Document) : List Nat :=
  let base := fun (b : Option Block) => (b.map (·.inner.start)).getD 0
  [0, base d.template, base d.script, base d.scriptSetup] ++ d.styles.map (·.block.inner.start)

/-- A document as code that is still in segments. -/
structure Draft where
  /-- The scripts as they were read. -/
  plain : Option ReadScript
  setup : Option ReadScript
  /-- The code of the template and the styles. -/
  inner : Inner
  exposed : List String
  /-- The whole code. -/
  whole : Generate.Written
  deriving Inhabited

/-- The segments of the code of a document. The name of its file is the name of the component if nothing else is. -/
def Draft.ofDocument (reader : Script.Reader) (o : Options) (filename : Option String) (d : Document) : Draft :=
  let o := o.withComments d.comments
  let plain := d.script.map (ReadScript.ofBlock reader)
  let setup := d.scriptSetup.map (ReadScript.ofBlock reader)
  let p := plain.map fun r => PlainScript.ofModule o r.block r.module
  let q := setup.map fun r => SetupScript.ofModule o r.block r.module
  let inner := Inner.ofDocument (settingOf reader o p q filename) d
  let exposed := inner.exposed (declared p q)
  ⟨plain, setup, inner, exposed, Scene.write ⟨o, p, q, inner.types, exposed⟩ inner.code⟩

/-- The segments of the whole code, in order. -/
def Draft.segments (r : Draft) : List Segment := r.whole.code.segments

/-- Why there is no typed file of a document. -/
inductive Failure where
  /-- The map of its code cannot be made, or does not pass its check. -/
  | mapping (error : MappingError)
  /-- A text was to be cut where no character starts: the program breaks down. -/
  | cut
  deriving Repr

/-- A result whose errors are those of a map. -/
def ofMapping {α : Type} : Except MappingError α → Except Failure α := Except.mapError .mapping

/-- The typed file of a document whose code is drafted. -/
def ofDraft (d : Document) (r : Draft) : Except Failure TypedFile := do
  if r.inner.isCut then throw .cut
  let (code, map) ← ofMapping ((Builder.new (bases d)).pushAll r.segments).finish
  ofMapping (map.verify code.utf8ByteSize)
  pure
    { source := d.source
      code := code
      map := map
      lang := ((d.scriptSetup.or d.script).map (·.lang)).getD "ts"
      types := union r.inner.types r.whole.types
      exposed := r.exposed
      errors := (r.plain.map ReadScript.errors).getD [] ++ (r.setup.map ReadScript.errors).getD [] }

/-- The typed file of a document whose scripts and expressions are read by `reader`. -/
def ofDocumentBy (reader : Script.Reader) (o : Options) (filename : Option String) (d : Document) : Except Failure TypedFile :=
  ofDraft d (Draft.ofDocument reader o filename d)

/-- The typed file of a document. -/
def ofDocument (o : Options) (filename : Option String) (d : Document) : Except Failure TypedFile :=
  ofDocumentBy Script.Module.read o filename d

/-- The position in the code of a line and column. -/
def codeOffset (f : TypedFile) (p : LineCol) : Option Nat := (LineIndex.ofText f.code).offset p

/-- The line and column of a position of the document. -/
def sourceLineCol (f : TypedFile) (offset : Nat) : Option LineCol := (LineIndex.ofText f.source).lineCol offset

end TypedFile

end TypedSfc

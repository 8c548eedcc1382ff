import TypedSfc.Markup.Error
import TypedSfc.Markup.Node

/-!
# Documents

A document is split into blocks. Offsets of a block and its attributes count from the start of the document; offsets of what is read
from the content of a block count from the start of that content.
-/

namespace TypedSfc

/-- The value of a block attribute; a flag has none. -/
inductive BlockAttr where
  | flag
  | value (text : String) (offset : Nat) (quoted : Bool)
  deriving DecidableEq, Repr, Inhabited

/-- A block: a top-level element whose content is kept as text. -/
structure Block where
  /-- `template`, `script`, `scriptSetup`, or the number of a style or of another block. -/
  name : String
  /-- The language of the content. -/
  lang : String
  /-- The whole block with its tags. -/
  outer : Span
  /-- The content. -/
  inner : Span
  /-- The attributes in the order of the source, each name once. -/
  attrs : List (String × BlockAttr)
  content : String
  deriving DecidableEq, Repr, Inhabited

namespace Block

/-- An attribute by its name. -/
def attr? (b : Block) (name : String) : Option BlockAttr :=
  (b.attrs.find? (·.1 = name)).map (·.2)

/-- The text of an attribute, if it has one. -/
def attrValue (b : Block) (name : String) : Option String :=
  match b.attr? name with
  | some (.value text _ _) => some text
  | _ => none

/-- Whether an attribute is there, with or without a value. -/
def hasAttr (b : Block) (name : String) : Bool := (b.attr? name).isSome

/-- The number of bytes of the content. -/
def size (b : Block) : Nat := b.content.utf8ByteSize

/-- The text at a range of the content, empty when the range does not fit. -/
def textAt (b : Block) (s : Span) : String := (s.slice b.content).getD ""

end Block

/-- A text found in a style sheet, and its place in the content of the block. -/
structure StyleRef where
  text : String
  offset : Nat
  deriving DecidableEq, Repr, Inhabited

/-- A style block with the expressions and the class names of its content. -/
structure StyleBlock where
  block : Block
  bindings : List StyleRef
  classNames : List StyleRef
  deriving DecidableEq, Repr, Inhabited

/-- A block of a kind of its own. -/
structure CustomBlock where
  block : Block
  kind : String
  deriving DecidableEq, Repr, Inhabited

/-- A document in its blocks. -/
structure Document where
  source : String
  template : Option Block := none
  /-- The nodes of the template, when it is written in markup. -/
  fragment : Option Markup.Fragment := none
  script : Option Block := none
  scriptSetup : Option Block := none
  styles : List StyleBlock := []
  customBlocks : List CustomBlock := []
  /-- The texts of the comments between blocks. -/
  comments : List String := []
  deriving Inhabited

end TypedSfc

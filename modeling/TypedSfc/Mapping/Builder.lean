import TypedSfc.Mapping.Table

/-!
# Building a map

The builder takes a stream of segments, joins their texts and makes an entry of every mapped segment, or of every group of them. The
first defect of the stream is kept; a stream without one has a text and a map once every group is closed.
-/

namespace TypedSfc

/-- A group that was met: its token, the number of its entry, and whether it still takes segments. -/
structure Group where
  token : Nat
  entry : Nat
  isOpen : Bool
  deriving DecidableEq, Repr, Inhabited

/-- The state of a stream: `bases` says where each source starts in the document. -/
structure Builder where
  bases : List Nat
  text : String := ""
  entries : List Entry := []
  groups : List Group := []
  error : Option MappingError := none
  deriving Repr, Inhabited

namespace Builder

/-- Before the first segment. -/
def new (bases : List Nat) : Builder := { bases }

/-- The position the next segment gets in the generated text. -/
def generatedOffset (b : Builder) : Nat := b.text.utf8ByteSize

/-- Text without a source. -/
def pushText (b : Builder) (t : String) : Builder := { b with text := b.text ++ t }

/-- Keeps a defect unless there was one before. -/
def fail (b : Builder) (e : MappingError) : Builder := { b with error := b.error.or (some e) }

/-- Adds a link to the `n`-th entry. -/
def addLink (n : Nat) (l : Link) (es : List Entry) : List Entry :=
  es.modify n fun e => { e with links := e.links ++ [l] }

/-- Takes a group out of those that take segments. -/
def closeGroup (t : Nat) (gs : List Group) : List Group :=
  gs.map fun g => if g.token = t then { g with isOpen := false } else g

/-- Puts a link into the entry that its role names. -/
def place (b : Builder) (source : SourceId) (l : Link) (i : Info) : Builder :=
  match i.role with
  | none => { b with entries := b.entries ++ [⟨source, [l], i.policy⟩] }
  | some role =>
    match role, b.groups.find? (·.token = role.token) with
    | .opens t, none =>
      { b with entries := b.entries ++ [⟨source, [l], i.policy⟩], groups := b.groups ++ [⟨t, b.entries.length, true⟩] }
    | .opens t, some _ => b.fail (.reopenedGroup t)
    | .joins t, some g =>
      if g.isOpen then { b with entries := addLink g.entry l b.entries } else b.fail (.unopenedGroup t)
    | .closes t, some g =>
      if g.isOpen then { b with entries := addLink g.entry l b.entries, groups := closeGroup t b.groups }
      else b.fail (.unopenedGroup t)
    | .joins t, none => b.fail (.unopenedGroup t)
    | .closes t, none => b.fail (.unopenedGroup t)

/-- Takes one segment. -/
def push (b : Builder) : Segment → Builder
  | .text t => b.pushText t
  | .mapped t source offset info =>
    let b' := b.pushText t
    match b.bases[source]? with
    | none => b'.fail (.unknownSource source)
    | some base => b'.place source ⟨base + offset, b.generatedOffset, t.utf8ByteSize⟩ info

/-- Takes segments in order. -/
def pushAll (b : Builder) (ss : List Segment) : Builder := ss.foldl push b

/-- The smallest token of a group that is still open. -/
def openToken (b : Builder) : Option Nat :=
  ((b.groups.filter (·.isOpen)).map (·.token)).min?

/-- The text and the map of the stream, or its first defect, or else the smallest group that is still open. -/
def finish (b : Builder) : Except MappingError (String × SourceMap) :=
  match b.error with
  | some e => .error e
  | none =>
    match b.openToken with
    | some t => .error (.unterminatedGroup t)
    | none => .ok (b.text, ⟨b.entries⟩)

end Builder

end TypedSfc

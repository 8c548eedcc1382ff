import TypedSfc.Mapping.Segment
import TypedSfc.Text.Bytes
import TypedSfc.Text.Casing
import TypedSfc.Text.Quoted

/-!
# Code buffers

Generators write into a buffer of segments. The buffer hands out the tokens of groups, and a buffer that continues another one hands
out later tokens, so that the two can be joined. While a directive comment is in force, the policies of all that is written are
changed by its effect.
-/

namespace TypedSfc

/-- What a directive comment does to the code it covers. -/
inductive Effect where
  /-- Nothing surfaces. -/
  | silence
  /-- Errors are expected, and count for a frame. -/
  | expect (frame : Nat)
  deriving DecidableEq, Repr, Inhabited

/-- The policy of code under an effect. -/
def Effect.apply (e : Option Effect) (p : Policy) : Policy :=
  match e, p with
  | none, p => p
  | some _, .never => .never
  | some .silence, _ => .never
  | some (.expect f), .always => .expected f []
  | some (.expect f), .allBut codes => .expected f codes
  | some (.expect f), .unused g none => if g = f then .unused g none else .unused g (some f)
  | some (.expect _), p => p

/-- A group that is open: its token, and the source that its pieces stand for. -/
structure Boundary where
  token : Nat
  source : SourceId
  deriving DecidableEq, Repr, Inhabited

/-- A buffer: its segments, the next token, and the effect in force. -/
structure Code where
  segments : List Segment := []
  nextToken : Nat := 0
  effect : Option Effect := none
  deriving DecidableEq, Repr, Inhabited

namespace Code

/-- A buffer without segments whose tokens come after those of another. -/
def continueFrom (c : Code) : Code := { c with segments := [] }

/-- The segments of another buffer after those of this one. -/
def append (c other : Code) : Code :=
  { c with segments := c.segments ++ other.segments, nextToken := max c.nextToken other.nextToken }

/-- Passes over the tokens of a buffer that is only used for its text. -/
def absorbTokens (c other : Code) : Code := { c with nextToken := max c.nextToken other.nextToken }

/-- Adds finished segments. -/
def extend (c : Code) (ss : List Segment) : Code := { c with segments := c.segments ++ ss }

/-- Puts an effect in force. -/
def setEffect (c : Code) (e : Option Effect) : Code := { c with effect := e }

/-- The text of a buffer. -/
def toText (c : Code) : String := Segment.contents c.segments

/-- Whether the text is empty or ends with a line feed. -/
def atLineStart (c : Code) : Bool :=
  match c.segments.reverse.find? (!·.isEmpty) with
  | none => true
  | some s => s.content.toList.getLast? == some '\n'

/-- What a segment carries under the effect in force. -/
def resolve (c : Code) (i : Info) : Info := ⟨Effect.apply c.effect i.policy, i.role⟩

/-- Adds a segment as it is. -/
def add (c : Code) (s : Segment) : Code := { c with segments := c.segments ++ [s] }

/-- Writes text of its own. -/
def text (c : Code) (t : String) : Code := if t.isEmpty then c else c.add (.text t)

/-- Writes text that stands for a place of a source. -/
def mapped (c : Code) (t : String) (source : SourceId) (offset : Nat) (i : Info) : Code :=
  c.add (.mapped t source offset (c.resolve i))

/-- Marks a place of a source. -/
def marker (c : Code) (source : SourceId) (offset : Nat) (i : Info) : Code := c.mapped "" source offset i

/-- Adds a segment under the effect in force. -/
def push (c : Code) (s : Segment) : Code := c.add (s.mapInfo c.resolve)

/-- Opens a group at a place of a source. -/
def opened (c : Code) (source : SourceId) (start : Nat) (i : Info) : Boundary × Code :=
  (⟨c.nextToken, source⟩, { c with nextToken := c.nextToken + 1 }.marker source start (i.withRole (.opens c.nextToken)))

/-- Closes a group. -/
def closed (c : Code) (b : Boundary) (stop : Nat) : Code :=
  c.add (.marker b.source stop (Info.silent.withRole (.closes b.token)))

/-- Writes text that joins an open group. -/
def joined (c : Code) (b : Boundary) (t : String) (offset : Nat) : Code :=
  c.add (.mapped t b.source offset (Info.silent.withRole (.joins b.token)))

/-- Writes text of its own in a group around a range of a source. -/
def bounded (c : Code) (source : SourceId) (start stop : Nat) (i : Info) (t : String) : Code :=
  let (b, c) := c.opened source start i
  (c.text t).closed b stop

/-- Writes a property key in quotes. -/
def quotedKey (c : Code) (key : String) : Code := c.text ("\"" ++ key ++ "\"")

/-- Writes a property key in quotes that are mapped with it, so that what is said of the key is said of all. -/
def quotedKeyAt (c : Code) (key : String) (source : SourceId) (offset : Nat) (i : Info) : Code :=
  let (b, c) := c.opened source offset i
  (((c.text "\"").joined b key offset).text "\"").closed b (offset + key.utf8ByteSize)

/-- Writes an attribute value; one with a backslash or a line feed is written in escapes. -/
def literal (c : Code) (t : String) (source : SourceId) (offset : Nat) (i : Info) : Code :=
  if t.toList.any fun ch => ch == '\\' || ch == '\n' then
    c.bounded source offset (offset + t.utf8ByteSize) i (Text.unicodeEscapes t)
  else c.mapped t source offset i

/-- The parts of a text around its hyphens, each with its position; `part` is what came since the last one, last first. -/
def hyphenParts (pos : Nat) (part : List Char) : List Char → List (Nat × List Char)
  | [] => [(pos - Text.size part, part.reverse)]
  | c :: cs =>
    if c == '-' then (pos - Text.size part, part.reverse) :: hyphenParts (pos + c.utf8Size) [] cs
    else hyphenParts (pos + c.utf8Size) (c :: part) cs

/-- The parts of a hyphenated name that are not empty, as they are written in camelCase. -/
def camelParts (name : String) : List (Nat × String) :=
  ((hyphenParts 0 [] name.toList).filter (!·.2.isEmpty)).map fun p =>
    (p.1, if p.1 = 0 then String.ofList p.2 else Text.capitalize (String.ofList p.2))

/-- Writes parts that belong to the group `token`, the last of which closes it. -/
def groupParts (c : Code) (source : SourceId) (offset token : Nat) : List (Nat × String) → Code
  | [] => c
  | [p] => c.add (.mapped p.2 source (offset + p.1) (Info.silent.withRole (.closes token)))
  | p :: ps => (c.add (.mapped p.2 source (offset + p.1) (Info.silent.withRole (.joins token)))).groupParts source offset token ps

/-- Writes a hyphenated name in camelCase, each part mapped to its own place; several parts make a group. -/
def camelized (c : Code) (name : String) (source : SourceId) (offset : Nat) (i : Info) : Code :=
  match camelParts name with
  | [] => c
  | [p] => c.mapped p.2 source (offset + p.1) i
  | p :: ps =>
    let token := c.nextToken
    ({ c with nextToken := token + 1 }.mapped p.2 source (offset + p.1) (i.withRole (.opens token))).groupParts source offset token ps

/-- Writes a hyphenated name in camelCase, each part joining an open group. -/
def camelizedIn (c : Code) (b : Boundary) (name : String) (offset : Nat) : Code :=
  (camelParts name).foldl (fun c p => c.joined b p.2 (offset + p.1)) c

/-- Writes one operand as it is, and several as an object that spreads each. -/
def spreadMerge (c : Code) : List String → Code
  | [] => c
  | [t] => c.text t
  | ts => ((ts.foldl (fun c t => c.text ("..." ++ t ++ ",\n")) (c.text "\x7b\n"))).text "\x7d"

/-- Whether a segment stands for text of a source that covers a range. -/
def covers (source : SourceId) (start stop : Nat) : Segment → Bool
  | .text _ => false
  | .mapped t s o _ => s == source && !t.isEmpty && decide (o ≤ start) && decide (stop ≤ o + t.utf8ByteSize)

/-- A mapped text with the range from byte `head` to byte `tail` replaced; what is left on both sides keeps its place. -/
def replaceIn (t : String) (source : SourceId) (offset : Nat) (i : Info) (head tail : Nat) (new : String) : Option (List Segment) :=
  (Text.takeBytes head t.toList).bind fun before =>
    (Text.dropBytes tail t.toList).map fun rest =>
      (if before.isEmpty then [] else [.mapped (String.ofList before) source offset i]) ++
      (if new.isEmpty then [] else [.text new]) ++
      (if rest.isEmpty then [] else [.mapped (String.ofList rest) source (offset + tail) i])

/-- Replaces a range of a source in the first segment that covers it; none when no segment does, or when an end of the range is before
the segment or in the middle of a character. -/
def replaceIn? (source : SourceId) (start stop : Nat) (new : String) : List Segment → Option (List Segment)
  | [] => none
  | s :: ss =>
    if covers source start stop s then
      match s with
      | .text _ => none
      | .mapped t src o i => if stop < o then none else (replaceIn t src o i (start - o) (stop - o) new).map (· ++ ss)
    else (replaceIn? source start stop new ss).map (s :: ·)

/-- Replaces a range of a source, and says whether there was a segment to do so. -/
def replaceRange (c : Code) (source : SourceId) (start stop : Nat) (new : String) : Bool × Code :=
  match replaceIn? source start stop new c.segments with
  | some ss => (true, { c with segments := ss })
  | none => (false, c)

end Code

end TypedSfc

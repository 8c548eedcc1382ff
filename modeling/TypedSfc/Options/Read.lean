import TypedSfc.Json.Reader
import TypedSfc.Options.Layer

/-!
# Reading options

A layer is written as an object of JSON, or as the list of its values in the order of declaration; a comment of a document sets one
option. A value of `null` sets nothing, and keys that are no options do not count.
-/

namespace TypedSfc

namespace Options

open Json (Shape Value Reader)

/-- What a layer may set. -/
inductive Field where
  | target
  | strictTemplates
  | lib
  | extensions
  | flag (f : Flag)
  | fallthroughNames
  | dataAttributes
  | htmlAttributes
  | wrapper
  | macros
  | composables
  | modelNames
  deriving DecidableEq, Repr, Inhabited

namespace Field

/-- What a layer may set, in the order of declaration. -/
def all : List Field :=
  [target, strictTemplates, lib, extensions] ++ Flag.all.map flag ++
    [fallthroughNames, dataAttributes, htmlAttributes, wrapper, macros, composables, modelNames]

/-- The key under which something is set. -/
def key : Field → String
  | target => "target"
  | strictTemplates => "strictTemplates"
  | lib => "lib"
  | extensions => "extensions"
  | flag f => f.key
  | fallthroughNames => "fallthroughComponentNames"
  | dataAttributes => "dataAttributes"
  | htmlAttributes => "htmlAttributes"
  | wrapper => "optionsWrapper"
  | macros => "macros"
  | composables => "composables"
  | modelNames => "experimentalModelPropName"

/-- What is set under a key. -/
def ofKey? (k : String) : Option Field := all.find? fun f => f.key == k

end Field

/-- The form of a rule. -/
def ruleShape : Shape :=
  .choice "ModelPropTarget" [.flag, .table .text, .list (.table .text)]

/-- The form of a value. -/
def Field.shape : Field → Shape
  | target => .choice "RawTarget" [.number, .text]
  | strictTemplates | flag _ => .flag
  | lib => .text
  | extensions | fallthroughNames | dataAttributes | htmlAttributes | wrapper => .list .text
  | macros | composables => .table (.list .text)
  | modelNames => .table (.table ruleShape)

/-! ## From values -/

/-- The text that a value is. -/
def textOf : Value → String
  | .text s => s
  | _ => ""

/-- The flag that a value is. -/
def flagOf : Value → Bool
  | .bool b => b
  | _ => false

/-- The elements of a value. -/
def listOf {α : Type} (f : Value → α) : Value → List α
  | .list vs => vs.map f
  | _ => []

/-- The entries of a value. -/
def tableOf {α : Type} (f : Value → α) : Value → Keyed α
  | .object es => Keyed.ofList (es.map fun e => (e.1, f e.2))
  | _ => Keyed.ofList []

/-- The rule that a value is. -/
def Rule.ofValue : Value → Rule
  | .bool b => .always b
  | .list vs => .anyOf (vs.map (tableOf textOf))
  | v => .attrs (tableOf textOf v)

/-- The target that a value is. -/
def Target.ofValue : Value → Target
  | .number n => .version n.toFloat
  | v => .named (textOf v)

/-- A layer in which one thing is set, by a value of its form. -/
def Layer.set (l : Layer) (v : Value) : Field → Layer
  | .target => { l with target := some (Target.ofValue v) }
  | .strictTemplates => { l with strictTemplates := some (flagOf v) }
  | .lib => { l with lib := some (textOf v) }
  | .extensions => { l with extensions := some (listOf textOf v) }
  | .flag f => { l with flag := fun g => if g = f then some (flagOf v) else l.flag g }
  | .fallthroughNames => { l with fallthroughNames := some (listOf textOf v) }
  | .dataAttributes => { l with dataAttributes := some (listOf textOf v) }
  | .htmlAttributes => { l with htmlAttributes := some (listOf textOf v) }
  | .wrapper => { l with wrapper := some (listOf textOf v) }
  | .macros => { l with macros := some (tableOf (listOf textOf) v) }
  | .composables => { l with composables := some (tableOf (listOf textOf) v) }
  | .modelNames => { l with modelNames := some (tableOf (tableOf Rule.ofValue) v) }

/-- A layer in which some things are set, those without a value excepted. -/
def Layer.ofFields (fs : List (Field × Option Value)) : Layer :=
  fs.foldl (fun l f => match f.2 with
    | some v => l.set v f.1
    | none => l) {}

/-! ## From text -/

/-- What messages call a layer. -/
def layerName : String := "struct RawVueCompilerOptions"

open Json.Reader in
/-- Reads the entries of an object up to its end. A key that was read before is a fault; `fuel` bounds the entries. -/
def fieldsUpTo (depth : Nat) : Nat → Bool → List (Field × Option Value) → Reader (List (Field × Option Value))
  | 0, _, found => pure found
  | fuel + 1, first, found => do
    match ← nextKey first with
    | none => pure found
    | some k =>
      match Field.ofKey? k with
      | none => do
        colon
        pass
        fieldsUpTo depth fuel false found
      | some f =>
        if found.any fun g => g.1 == f then failWhole (.duplicate k)
        else do
          colon
          let v ← optional depth f.shape
          fieldsUpTo depth fuel false (found ++ [(f, v)])

open Json.Reader in
/-- Reads the elements of a list as the values of fields; `first` tells whether none was read. -/
def elementsOf (depth : Nat) : Nat → List Field → Reader (List (Field × Option Value))
  | _, [] => pure []
  | count, f :: fs => do
    if ← nextElement (count == 0) then
      let v ← optional depth f.shape
      let more ← elementsOf depth (count + 1) fs
      pure ((f, v) :: more)
    else failWhole (.tooShort count (layerName ++ " with " ++ toString Field.all.length ++ " elements"))

open Json.Reader in
/-- Reads a layer. -/
def layer : Reader Layer := do
  let depth := Json.depthLimit - 1
  match ← next with
  | none => failNext .endInValue
  | some '{' => do
    skip
    let fs ← between (fun s => fieldsUpTo depth (s.rest.length + 1) true [] s) closeObject
    pure (Layer.ofFields fs)
  | some '[' => do
    skip
    let fs ← between (elementsOf depth 0 Field.all) closeList
    pure (Layer.ofFields fs)
  | some _ => mismatch layerName

/-- The layer that a text sets, or the message that says why it sets none. -/
def Layer.read (text : String) : Except String Layer :=
  match Reader.run layer text with
  | .ok l => .ok l
  | .error e => .error ("invalid compiler options: " ++ e.message text.toList)

/-- The rule that a text is, or the message that says why it is none. -/
def Rule.read (text : String) : Except String Rule :=
  match Reader.run (Reader.shaped Json.depthLimit ruleShape) text with
  | .ok v => .ok (Rule.ofValue v)
  | .error e => .error (e.message text.toList)

end Options

end TypedSfc

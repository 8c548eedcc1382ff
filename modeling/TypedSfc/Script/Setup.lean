import TypedSfc.Script.Calls
import TypedSfc.Script.DefaultExport

/-!
# Setup scripts

A setup script describes its component by calls of macros: functions that are known by name, under aliases that the options may change.
Of a macro that may stand once the last call counts; of the others all calls do, in order.
-/

namespace TypedSfc

namespace Script

/-- The macros and the functions that are treated like them. -/
inductive Macro where
  | defineProps
  | defineSlots
  | defineEmits
  | defineExpose
  | defineModel
  | defineOptions
  | withDefaults
  | useAttrs
  | useCssModule
  | useSlots
  | useTemplateRef
  deriving DecidableEq, Repr, Inhabited

/-- The macro of a key. -/
def Macro.ofKey? : String → Option Macro
  | "defineProps" => some defineProps
  | "defineSlots" => some defineSlots
  | "defineEmits" => some defineEmits
  | "defineExpose" => some defineExpose
  | "defineModel" => some defineModel
  | "defineOptions" => some defineOptions
  | "withDefaults" => some withDefaults
  | "useAttrs" => some useAttrs
  | "useCssModule" => some useCssModule
  | "useSlots" => some useSlots
  | "useTemplateRef" => some useTemplateRef
  | _ => none

/-- The macro that a name calls: of the keys that list the name the last one counts. -/
def Macro.ofName? (aliases : List (String × List String)) (name : String) : Option Macro :=
  (aliases.filterMap fun a => if a.2.contains name then ofKey? a.1 else none).getLast?

/-- The places of a call. -/
structure CallPlaces where
  call : Span
  callee : Span
  /-- The first argument. -/
  arg : Option Span
  /-- The first type argument. -/
  typeArg : Option Span
  deriving DecidableEq, Repr, Inhabited

/-- The places of a call. -/
def Call.places (c : Call) : CallPlaces :=
  ⟨c.span, c.callee.range, c.args.head?.map fun e => e.unspread.span, c.typeArgs.head?⟩

/-- A call whose value may be given to a variable. -/
structure Assigned where
  call : CallPlaces
  /-- The variable. -/
  name : Option String
  /-- The statement around the call, or the call. -/
  statement : Span
  deriving DecidableEq, Repr, Inhabited

/-- A call with the variable that holds it. -/
def Call.assigned (c : Call) : Assigned :=
  ⟨c.places, c.holder.name?.map (·.name), c.statement.getD c.span⟩

/-- The properties that a component declares. -/
structure PropsMacro where
  assigned : Assigned
  /-- The names that an object pattern takes out of them. -/
  destructured : List String
  /-- The name of those that are left. -/
  rest : Option String
  deriving DecidableEq, Repr, Inhabited

/-- The declaration of properties by a call. As the argument of the macro that gives defaults it has the name of that call. -/
def PropsMacro.ofCall (aliases : List (String × List String)) (c : Call) : PropsMacro :=
  match c.holder with
  | .pattern bs =>
    ⟨c.assigned, (bs.filter fun b => !b.isRest).map (·.id.name), ((bs.filter (·.isRest)).getLast?).map (·.id.name)⟩
  | .argument callee i =>
    if Macro.ofName? aliases callee = some .withDefaults then
      ⟨{ c.assigned with name := i.map (·.name) }, [], none⟩
    else ⟨c.assigned, [], none⟩
  | _ => ⟨c.assigned, [], none⟩

/-- A model: a property that the component may also change. -/
structure Model where
  /-- The variable that holds it. -/
  localName : Option Span := none
  /-- The string that is its name, with its quotes. -/
  name : Option Span := none
  typeArg : Option Span := none
  modifierType : Option Span := none
  runtimeType : Option Span := none
  defaultValue : Option Span := none
  required : Bool := false
  /-- The block comment that belongs to the statement. -/
  comment : Option Span := none
  deriving DecidableEq, Repr, Inhabited

/-- Takes an option of a model from a property. -/
def Model.take (m : Model) (p : String × Expr) : Model :=
  match p with
  | ("type", e) => { m with runtimeType := some e.span }
  | ("default", e) => { m with defaultValue := some e.span }
  | ("required", .bool _ true) => { m with required := true }
  | _ => m

/-- The place of an expression that is a string. -/
def Expr.string? : Expr → Option Span
  | .string s => some s
  | _ => none

/-- The properties that are written with a name in an object; none of what is no object. -/
def Expr.options : Expr → List (String × Expr)
  | .object _ ps => ps.filterMap Property.named?
  | _ => []

/-- The name and the options among the arguments of a model. A single argument is the name if it is a string. -/
def Model.arguments : List Expr → Option Expr × Option Expr
  | [] => (none, none)
  | [e] => if e.unspread.string?.isSome then (some e.unspread, none) else (none, some e.unspread)
  | e :: f :: _ => (some e.unspread, some f.unspread)

/-- The model that a call declares. -/
def Module.model (m : Module) (content : String) (c : Call) : Model :=
  let (name, options) := Model.arguments c.args
  ((options.map Expr.options).getD []).foldl Model.take
    { localName := c.holder.name?.map (·.range)
      name := name.bind Expr.string?
      typeArg := c.typeArgs[0]?
      modifierType := c.typeArgs[1]?
      comment := m.closestBlock content (c.statement.getD c.span).start }

/-- The options that a component declares. -/
structure OptionsMacro where
  name : Option String := none
  inheritAttrs : Option Bool := none
  deriving DecidableEq, Repr, Inhabited

/-- Takes an option from a property. -/
def OptionsMacro.take (content : List Char) (o : OptionsMacro) (p : String × Expr) : OptionsMacro :=
  match p with
  | ("name", .string s) => { o with name := some (Text.unquote (String.ofList (Text.between s.start s.stop content))) }
  | ("inheritAttrs", .bool _ b) => { o with inheritAttrs := some b }
  | _ => o

/-- The options that a call declares. -/
def OptionsMacro.ofCall (content : List Char) (c : Call) : OptionsMacro :=
  ((c.args.head?.map fun e => e.unspread.options).getD []).foldl (take content) {}

/-- A reference to an element or a component of the template, and the variable that holds it. -/
structure TemplateRef where
  call : CallPlaces
  name : Option String
  deriving DecidableEq, Repr, Inhabited

/-- What a setup script says of its component. -/
structure Setup where
  /-- Where a leading comment ends that turns checks on or off. -/
  leadingEnd : Nat := 0
  /-- Where the imports and exports at the start end. -/
  importsEnd : Nat := 0
  bindings : Bindings := Bindings.empty
  models : List Model := []
  props : Option PropsMacro := none
  withDefaults : Option CallPlaces := none
  emits : Option Assigned := none
  slots : Option Assigned := none
  expose : Option CallPlaces := none
  options : Option OptionsMacro := none
  attrs : List CallPlaces := []
  cssModules : List CallPlaces := []
  slotUses : List CallPlaces := []
  templateRefs : List TemplateRef := []
  deriving Repr, Inhabited

/-- A setup with what one more call says. -/
def Module.withCall (m : Module) (content : String) (aliases : List (String × List String)) (s : Setup) (c : Call) : Setup :=
  match Macro.ofName? aliases c.callee.name with
  | none => s
  | some .defineProps => { s with props := some (PropsMacro.ofCall aliases c) }
  | some .defineSlots => { s with slots := some c.assigned }
  | some .defineEmits => { s with emits := some c.assigned }
  | some .defineExpose => { s with expose := some c.places }
  | some .defineModel => { s with models := s.models ++ [m.model content c] }
  | some .defineOptions => { s with options := some (OptionsMacro.ofCall content.toList c) }
  | some .withDefaults =>
    { s with withDefaults := some { c.places with arg := c.args[1]?.map (fun e => e.unspread.span), typeArg := none } }
  | some .useAttrs => { s with attrs := s.attrs ++ [c.places] }
  | some .useCssModule => { s with cssModules := s.cssModules ++ [c.places] }
  | some .useSlots => { s with slotUses := s.slotUses ++ [c.places] }
  | some .useTemplateRef => { s with templateRefs := s.templateRefs ++ [⟨c.places, c.holder.name?.map (·.name)⟩] }

/-- A text without what it begins with. -/
def dropStart? (start : String) (cs : List Char) : Option (List Char) :=
  if Text.begins start.toList cs then some (cs.drop start.toList.length) else none

/-- Whether a comment turns the checks of a file on or off. -/
def isCheckMark (text : String) : Bool :=
  match dropStart? "@ts-" (Text.trimStart text.toList) with
  | none => false
  | some rest =>
    match dropStart? "check" ((dropStart? "no" rest).getD rest) with
    | none => false
    | some [] => true
    | some (c :: _) => Text.isSpace c

/-- The end of the last line comment before the first item that turns the checks of the file on or off. -/
def Module.leadingEnd (m : Module) (content : String) : Nat :=
  match m.items with
  | some (first :: _) =>
    match (m.leading content first.span.start).reverse.find? fun c => !c.isBlock && isCheckMark c.text with
    | some c => c.span.stop
    | none => 0
  | _ => 0

/-- Whether an item is an import or an export, or nothing. -/
def Item.isImportOrExport : Item → Bool
  | .stmt (.empty _) | .imports .. | .exportValue .. | .exportDefault .. | .exports .. => true
  | _ => false

/-- Where the first item that is no import or export starts, with the comments before it; the end of the script if there is none. -/
def Module.importsEnd (m : Module) (content : String) : Nat :=
  match (m.items.getD []).find? fun i => !i.isImportOrExport with
  | none => content.utf8ByteSize
  | some i =>
    match m.leading content i.span.start with
    | c :: _ => c.span.start
    | [] => i.span.start

/-- What a setup script says of its component. Of a script that cannot be read nothing is known. -/
def Module.setup (m : Module) (content : String) (extensions : List String) (aliases : List (String × List String)) : Setup :=
  match m.items with
  | none => {}
  | some _ =>
    m.calls.foldl (m.withCall content aliases)
      { leadingEnd := m.leadingEnd content, importsEnd := m.importsEnd content, bindings := m.bindings content extensions }

end Script

end TypedSfc

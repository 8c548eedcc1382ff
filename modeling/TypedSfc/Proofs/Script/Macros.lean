import TypedSfc.Options.Basic
import TypedSfc.Script.Calls
import TypedSfc.Script.Setup

/-!
# Calls of macros

Every call of a named function in a script, in functions or not, with the constructs around it. The calls that a script is searched for
are those with no function around them, each once and in the same order; what holds such a call, and the statement it stands in, can be
read off the constructs around it. A setup script holds what its calls of macros say: of some macros all of them in order, of the others
the last one. A call has a name if it is directly the value of a variable.
-/

namespace TypedSfc

namespace Script

/-! ## Sites of calls -/

/-- A construct around a call. -/
inductive Around where
  /-- A function with all that belongs to it: its type parameters, parameters, result and body, and of a method or an accessor of a class
  its decorators. Of a constructor and of an accessor of an object also the key. -/
  | function
  | statement (s : Stmt)
  /-- A variable whose value is the next construct inwards, or the call itself; by its pattern. -/
  | value (p : Pat)
  /-- A call whose first argument is the next construct inwards, or the call itself; by what is called. -/
  | argument (callee : Expr)
  /-- Any other construct, or several of them. -/
  | other

/-- A call of a named function where it stands. -/
structure Site where
  callee : Ident
  span : Span
  typeArgs : List Span
  args : List Expr
  /-- What stands around the call, from the inside out. -/
  around : List Around

/-- The name that an expression is. -/
def Expr.ident? : Expr → Option Ident
  | name i => some i
  | _ => none

mutual

/-- The calls in an expression, each before those inside it. An argument that is spread stands where the spread does. -/
def Expr.sites (t : List Around) : Expr → List Site
  | .name _ | .string _ | .bool _ _ => []
  | .array _ es => exprSites t es
  | .object _ ps => propertySites t ps
  | .call span callee typeArgs types args =>
    (callee.ident?.map fun i => ⟨i, span, typeArgs, args, t⟩).toList ++ callee.sites (.other :: t) ++ partSites t types ++
      argumentSites callee t args
  | .spread _ e => e.sites (if e.isCall then t else .other :: t)
  | .member _ e ps | .cast _ e ps => e.sites (.other :: t) ++ partSites t ps
  | .paren _ e => e.sites (.other :: t)
  | .assign _ p e => p.sites t ++ e.sites (.other :: t)
  | .arrow _ ts ps body => partSites (.function :: t) ts ++ patSites (.function :: t) ps ++ partSites (.function :: t) body
  | .other _ ps => partSites t ps

/-- The calls in the elements of a construct. -/
def exprSites (t : List Around) : List Expr → List Site
  | [] => []
  | e :: es => e.sites (.other :: t) ++ exprSites t es

/-- The calls in the arguments of a call. -/
def argumentSites (callee : Expr) (t : List Around) : List Expr → List Site
  | [] => []
  | e :: es => e.sites (.argument callee :: t) ++ exprSites t es

/-- The calls in a property. -/
def Property.sites (t : List Around) : Property → List Site
  | .shorthand _ => []
  | .covered _ e | .spread e => e.sites (.other :: t)
  | .pair _ ps e => partSites t ps ++ e.sites (.other :: t)
  | .other ps => partSites t ps

/-- The calls in some properties. -/
def propertySites (t : List Around) : List Property → List Site
  | [] => []
  | p :: ps => p.sites t ++ propertySites t ps

/-- The calls in a pattern. -/
def Pat.sites (t : List Around) : Pat → List Site
  | .name _ _ ps => partSites t ps
  | .array _ es _ ps | .object _ es _ ps => patSites t es ++ partSites t ps
  | .keyed ps p => partSites t ps ++ p.sites t
  | .rest _ p _ ps => p.sites t ++ partSites t ps
  | .default _ p e => p.sites t ++ e.sites (.other :: t)
  | .target e => e.sites (.other :: t)

/-- The calls in some patterns. -/
def patSites (t : List Around) : List Pat → List Site
  | [] => []
  | p :: ps => p.sites t ++ patSites t ps

/-- The calls in the parts of a statement. -/
def Stmt.sites (t : List Around) : Stmt → List Site
  | .expr _ e | .leave _ e => e.sites (.other :: t)
  | .vars _ _ ps | .funcDecl _ _ ps | .classDecl _ _ ps | .enumDecl _ _ ps | .namespaceDecl _ _ ps | .other _ ps => partSites t ps
  | .empty _ => []

/-- The calls in a part. The value of a variable counts as one only if it is itself a call. -/
def Part.sites (t : List Around) : Part → List Site
  | .expr e => e.sites (.other :: t)
  | .pat p | .declare _ p => p.sites t
  | .stmt s => s.sites (.statement s :: t)
  | .decl s => s.sites t
  | .define _ p e => p.sites t ++ e.sites ((if e.isCall then .value p else .other) :: t)
  | .scope .function _ parts => partSites (.function :: t) parts
  | .scope .body ps parts | .scope .block ps parts => patSites t ps ++ partSites t parts
  | .region _ _ parts => partSites t parts
  | .aside isSearched parts => partSites (if isSearched then t else .function :: t) parts

/-- The calls in some parts. -/
def partSites (t : List Around) : List Part → List Site
  | [] => []
  | p :: ps => p.sites t ++ partSites t ps

end

/-- The calls in an item. -/
def Item.sites : Item → List Site
  | .stmt s => s.sites [.statement s]
  | .exportValue _ e => e.sites [.other]
  | .imports _ _ _ _ ps | .exportDefault _ _ _ ps | .exports _ ps | .other _ ps => partSites [] ps
  | .importEquals .. => []

/-- The calls in a script. -/
def Module.sites (m : Module) : List Site := (m.items.getD []).flatMap Item.sites

/-! ## What stands around a call -/

/-- Whether a construct is a function. -/
def Around.isFunction : Around → Bool
  | function => true
  | _ => false

/-- The place of a construct that is a statement. -/
def Around.statement? : Around → Option Span
  | statement s => some s.bareSpan
  | _ => none

/-- The variable whose value stands directly within some constructs. -/
def variableIn : List Around → Option Ident
  | .value (.name i _ _) :: _ => some i
  | _ => none

/-- What holds a call that stands within some constructs. -/
def holderIn : List Around → Holder
  | .value p :: _ => Holder.ofPat p
  | .argument callee :: t => Holder.ofCall callee (holderIn t)
  | _ => .nothing

theorem name?_holderIn (t : List Around) : (holderIn t).name? = variableIn t := by
  match t with
  | [] | .function :: _ | .statement _ :: _ | .other :: _ => rfl
  | .value p :: _ => cases p <;> rfl
  | .argument callee :: _ => cases callee <;> rfl

/-- Whether a call has no function around it. -/
def Site.isOpen (c : Site) : Bool := !c.around.any Around.isFunction

/-- The variable whose value a call is. -/
def Site.variable? (c : Site) : Option Ident := variableIn c.around

/-- A call with what can be told from where it stands. -/
def Site.call (c : Site) : Call :=
  ⟨c.callee, c.span, c.typeArgs, c.args, holderIn c.around, c.around.findSome? Around.statement?⟩

theorem Site.name?_call (c : Site) : c.call.holder.name? = c.variable? := name?_holderIn c.around

/-! ## Calls outside functions -/

/-- The calls with no function around them. -/
def openCalls (cs : List Site) : List Call := (cs.filter Site.isOpen).map Site.call

theorem openCalls_append (cs ds : List Site) : openCalls (cs ++ ds) = openCalls cs ++ openCalls ds := by simp [openCalls]

/-- Some calls, if no function is among the constructs around them. -/
def unlessClosed (t : List Around) (cs : List Call) : List Call := if t.any Around.isFunction then [] else cs

theorem unlessClosed_nil (t : List Around) : unlessClosed t [] = [] := by simp [unlessClosed]

theorem unlessClosed_append (t : List Around) (cs ds : List Call) :
    unlessClosed t (cs ++ ds) = unlessClosed t cs ++ unlessClosed t ds := by
  unfold unlessClosed
  split <;> simp

theorem unlessClosed_function (t : List Around) (cs : List Call) : unlessClosed (.function :: t) cs = [] := by
  simp [unlessClosed, Around.isFunction]

theorem openCalls_singleton (c : Site) : openCalls [c] = unlessClosed c.around [c.call] := by
  cases h : c.around.any Around.isFunction <;> simp [openCalls, unlessClosed, Site.isOpen, h]

theorem Expr.calls_call (st : Option Span) (h : Holder) (span : Span) (callee : Expr) (typeArgs : List Span) (types : List Part)
    (args : List Expr) :
    (Expr.call span callee typeArgs types args).calls st h =
      (callee.ident?.map fun i => ⟨i, span, typeArgs, args, h, st⟩).toList ++ callee.calls st .nothing ++ partCalls st types ++
        exprCalls st (Holder.ofCall callee h) args := by
  cases callee <;> rfl

mutual

theorem Expr.openCalls_sites (t : List Around) (e : Expr) :
    openCalls (e.sites t) = unlessClosed t (e.calls (t.findSome? Around.statement?) (holderIn t)) := by
  cases e with
  | name i => exact (unlessClosed_nil t).symm
  | string span => exact (unlessClosed_nil t).symm
  | bool span value => exact (unlessClosed_nil t).symm
  | array span es => exact openCalls_exprSites t es
  | object span ps => exact openCalls_propertySites t ps
  | call span callee typeArgs types args =>
    have hown : openCalls (callee.ident?.map fun i => ⟨i, span, typeArgs, args, t⟩).toList = unlessClosed t (callee.ident?.map
        fun i => ⟨i, span, typeArgs, args, holderIn t, t.findSome? Around.statement?⟩).toList := by
      cases callee.ident? with
      | none => exact (unlessClosed_nil t).symm
      | some i => exact openCalls_singleton ⟨i, span, typeArgs, args, t⟩
    rw [Expr.sites, Expr.calls_call]
    simp only [openCalls_append, unlessClosed_append]
    rw [hown, callee.openCalls_sites, openCalls_partSites, openCalls_argumentSites]
    rfl
  | spread span e =>
    rw [Expr.sites, Expr.calls, e.openCalls_sites]
    cases e.isCall <;> rfl
  | member span e ps =>
    rw [Expr.sites, Expr.calls, openCalls_append, unlessClosed_append, e.openCalls_sites, openCalls_partSites]
    rfl
  | cast span e ps =>
    rw [Expr.sites, Expr.calls, openCalls_append, unlessClosed_append, e.openCalls_sites, openCalls_partSites]
    rfl
  | paren span e => exact e.openCalls_sites (.other :: t)
  | assign span p e =>
    rw [Expr.sites, Expr.calls, openCalls_append, unlessClosed_append, p.openCalls_sites, e.openCalls_sites]
    rfl
  | arrow span ts ps body =>
    rw [Expr.sites, Expr.calls, openCalls_append, openCalls_append, openCalls_partSites, openCalls_patSites, openCalls_partSites]
    simp only [unlessClosed_function, unlessClosed_nil, List.append_nil]
  | other span ps => exact openCalls_partSites t ps

theorem openCalls_exprSites (t : List Around) (es : List Expr) :
    openCalls (exprSites t es) = unlessClosed t (exprCalls (t.findSome? Around.statement?) .nothing es) := by
  cases es with
  | nil => exact (unlessClosed_nil t).symm
  | cons e es =>
    rw [exprSites, exprCalls, openCalls_append, unlessClosed_append, e.openCalls_sites, openCalls_exprSites]
    rfl

theorem openCalls_argumentSites (callee : Expr) (t : List Around) (es : List Expr) :
    openCalls (argumentSites callee t es) =
      unlessClosed t (exprCalls (t.findSome? Around.statement?) (Holder.ofCall callee (holderIn t)) es) := by
  cases es with
  | nil => exact (unlessClosed_nil t).symm
  | cons e es =>
    rw [argumentSites, exprCalls, openCalls_append, unlessClosed_append, e.openCalls_sites, openCalls_exprSites]
    rfl

theorem Property.openCalls_sites (t : List Around) (p : Property) :
    openCalls (p.sites t) = unlessClosed t (p.calls (t.findSome? Around.statement?)) := by
  cases p with
  | shorthand i => exact (unlessClosed_nil t).symm
  | covered i e => exact e.openCalls_sites (.other :: t)
  | spread e => exact e.openCalls_sites (.other :: t)
  | pair key ps e =>
    rw [Property.sites, Property.calls, openCalls_append, unlessClosed_append, openCalls_partSites, e.openCalls_sites]
    rfl
  | other ps => exact openCalls_partSites t ps

theorem openCalls_propertySites (t : List Around) (ps : List Property) :
    openCalls (propertySites t ps) = unlessClosed t (propertyCalls (t.findSome? Around.statement?) ps) := by
  cases ps with
  | nil => exact (unlessClosed_nil t).symm
  | cons p ps =>
    rw [propertySites, propertyCalls, openCalls_append, unlessClosed_append, p.openCalls_sites, openCalls_propertySites]

theorem Pat.openCalls_sites (t : List Around) (p : Pat) :
    openCalls (p.sites t) = unlessClosed t (p.calls (t.findSome? Around.statement?)) := by
  cases p with
  | name i typed ps => exact openCalls_partSites t ps
  | array span es typed ps =>
    rw [Pat.sites, Pat.calls, openCalls_append, unlessClosed_append, openCalls_patSites, openCalls_partSites]
  | object span es typed ps =>
    rw [Pat.sites, Pat.calls, openCalls_append, unlessClosed_append, openCalls_patSites, openCalls_partSites]
  | keyed ps p => rw [Pat.sites, Pat.calls, openCalls_append, unlessClosed_append, openCalls_partSites, p.openCalls_sites]
  | rest span p typed ps => rw [Pat.sites, Pat.calls, openCalls_append, unlessClosed_append, p.openCalls_sites, openCalls_partSites]
  | default span p e =>
    rw [Pat.sites, Pat.calls, openCalls_append, unlessClosed_append, p.openCalls_sites, e.openCalls_sites]
    rfl
  | target e => exact e.openCalls_sites (.other :: t)

theorem openCalls_patSites (t : List Around) (ps : List Pat) :
    openCalls (patSites t ps) = unlessClosed t (patCalls (t.findSome? Around.statement?) ps) := by
  cases ps with
  | nil => exact (unlessClosed_nil t).symm
  | cons p ps => rw [patSites, patCalls, openCalls_append, unlessClosed_append, p.openCalls_sites, openCalls_patSites]

theorem Stmt.openCalls_sites (t : List Around) (s : Stmt) :
    openCalls (s.sites t) = unlessClosed t (s.calls (t.findSome? Around.statement?)) := by
  cases s with
  | expr span e => exact e.openCalls_sites (.other :: t)
  | leave span e => exact e.openCalls_sites (.other :: t)
  | vars span kind ps => exact openCalls_partSites t ps
  | namespaceDecl span i ps => exact openCalls_partSites t ps
  | funcDecl span i ps => exact openCalls_partSites t ps
  | classDecl span i ps => exact openCalls_partSites t ps
  | enumDecl span i ps => exact openCalls_partSites t ps
  | other span ps => exact openCalls_partSites t ps
  | empty span => exact (unlessClosed_nil t).symm

theorem Part.openCalls_sites (t : List Around) (p : Part) :
    openCalls (p.sites t) = unlessClosed t (p.calls (t.findSome? Around.statement?)) := by
  cases p with
  | expr e => exact e.openCalls_sites (.other :: t)
  | pat p => exact p.openCalls_sites t
  | declare span p => exact p.openCalls_sites t
  | stmt s => exact s.openCalls_sites (.statement s :: t)
  | decl s => exact s.openCalls_sites t
  | define span p e =>
    rw [Part.sites, Part.calls, openCalls_append, unlessClosed_append, p.openCalls_sites, e.openCalls_sites]
    cases e.isCall <;> rfl
  | scope kind ps parts =>
    cases kind with
    | function => rw [Part.sites, Part.calls, openCalls_partSites, unlessClosed_function, unlessClosed_nil]
    | body => rw [Part.sites, Part.calls, openCalls_append, unlessClosed_append, openCalls_patSites, openCalls_partSites]
    | block => rw [Part.sites, Part.calls, openCalls_append, unlessClosed_append, openCalls_patSites, openCalls_partSites]
  | region kind names parts => exact openCalls_partSites t parts
  | aside isSearched parts =>
    cases isSearched with
    | true => exact openCalls_partSites t parts
    | false =>
      rw [Part.sites, Part.calls, if_neg Bool.false_ne_true, openCalls_partSites, if_neg Bool.false_ne_true, unlessClosed_function,
        unlessClosed_nil]

theorem openCalls_partSites (t : List Around) (ps : List Part) :
    openCalls (partSites t ps) = unlessClosed t (partCalls (t.findSome? Around.statement?) ps) := by
  cases ps with
  | nil => exact (unlessClosed_nil t).symm
  | cons p ps => rw [partSites, partCalls, openCalls_append, unlessClosed_append, p.openCalls_sites, openCalls_partSites]

end

theorem Item.calls_eq (i : Item) : i.calls = openCalls i.sites := by
  cases i with
  | stmt s => exact (s.openCalls_sites [.statement s]).symm
  | exportValue span e => exact (e.openCalls_sites [.other]).symm
  | imports span typeOnly names source ps => exact (openCalls_partSites [] ps).symm
  | exportDefault span declaration i ps => exact (openCalls_partSites [] ps).symm
  | exports span ps => exact (openCalls_partSites [] ps).symm
  | importEquals span typeOnly isExported i => rfl
  | other span ps => exact (openCalls_partSites [] ps).symm

/-- The calls of a script are those with no function around them, each once, in the order in which they stand in the tree. -/
theorem Module.calls_eq (m : Module) : m.calls = openCalls m.sites := by
  unfold Module.calls Module.sites
  induction m.items.getD [] with
  | nil => rfl
  | cons i is ih => rw [List.flatMap_cons, List.flatMap_cons, openCalls_append, ← ih, i.calls_eq]

variable {m : Module} {content : String} {aliases : List (String × List String)} {s : Setup} {cs : List Call}

/-! ## One call after another -/

/-- The calls of a macro among some calls. -/
def callsOf (aliases : List (String × List String)) (k : Macro) (cs : List Call) : List Call :=
  cs.filter fun c => Macro.ofName? aliases c.callee.name == some k

theorem callsOf_concat (aliases : List (String × List String)) (k : Macro) (cs : List Call) (c : Call) :
    callsOf aliases k (cs ++ [c]) =
      if Macro.ofName? aliases c.callee.name = some k then callsOf aliases k cs ++ [c] else callsOf aliases k cs := by
  unfold callsOf
  rw [List.filter_append]
  by_cases h : Macro.ofName? aliases c.callee.name = some k <;> simp [h]

/-- The places of a call that gives defaults: the second argument holds them. -/
def Call.defaultsPlaces (c : Call) : CallPlaces :=
  { c.places with arg := c.args[1]?.map (fun e => e.unspread.span), typeArg := none }

/-- What a setup holds is what some calls say: all calls of a macro, or the last one. -/
structure Setup.Holds (m : Module) (content : String) (aliases : List (String × List String)) (s : Setup) (cs : List Call) :
    Prop where
  models : s.models = (callsOf aliases .defineModel cs).map (m.model content)
  attrs : s.attrs = (callsOf aliases .useAttrs cs).map (·.places)
  cssModules : s.cssModules = (callsOf aliases .useCssModule cs).map (·.places)
  slotUses : s.slotUses = (callsOf aliases .useSlots cs).map (·.places)
  templateRefs : s.templateRefs = (callsOf aliases .useTemplateRef cs).map fun c => ⟨c.places, c.holder.name?.map (·.name)⟩
  props : s.props = (callsOf aliases .defineProps cs).getLast?.map (PropsMacro.ofCall aliases)
  withDefaults : s.withDefaults = (callsOf aliases .withDefaults cs).getLast?.map (·.defaultsPlaces)
  emits : s.emits = (callsOf aliases .defineEmits cs).getLast?.map (·.assigned)
  slots : s.slots = (callsOf aliases .defineSlots cs).getLast?.map (·.assigned)
  expose : s.expose = (callsOf aliases .defineExpose cs).getLast?.map (·.places)
  options : s.options = (callsOf aliases .defineOptions cs).getLast?.map (OptionsMacro.ofCall content.toList)

/-- One more call adds what it says to what a setup holds. -/
theorem Setup.Holds.withCall (h : s.Holds m content aliases cs) (c : Call) :
    (m.withCall content aliases s c).Holds m content aliases (cs ++ [c]) := by
  unfold Module.withCall
  constructor <;> simp only [callsOf_concat] <;> cases Macro.ofName? aliases c.callee.name with
  | none => simp [h.models, h.attrs, h.cssModules, h.slotUses, h.templateRefs, h.props, h.withDefaults, h.emits, h.slots, h.expose,
      h.options]
  | some k => cases k <;> simp [h.models, h.attrs, h.cssModules, h.slotUses, h.templateRefs, h.props, h.withDefaults, h.emits, h.slots,
      h.expose, h.options, Call.defaultsPlaces]

theorem Setup.Holds.foldl (h : s.Holds m content aliases cs) (ds : List Call) :
    (ds.foldl (m.withCall content aliases) s).Holds m content aliases (cs ++ ds) := by
  induction ds generalizing s cs with
  | nil => simpa using h
  | cons d ds ih => simpa using ih (h.withCall d)

theorem Module.setup_holds (m : Module) (content : String) (extensions : List String) (aliases : List (String × List String)) :
    (m.setup content extensions aliases).Holds m content aliases m.calls := by
  unfold Module.setup
  cases hitems : m.items with
  | none =>
    have hcalls : m.calls = [] := by simp [Module.calls, hitems]
    rw [hcalls]
    exact ⟨rfl, rfl, rfl, rfl, rfl, rfl, rfl, rfl, rfl, rfl, rfl⟩
  | some is =>
    have hrun (start : Setup) (h : start.Holds m content aliases []) := h.foldl m.calls
    exact hrun _ ⟨rfl, rfl, rfl, rfl, rfl, rfl, rfl, rfl, rfl, rfl, rfl⟩

/-! ## Names of calls -/

/-- The calls of a macro with no function around them. -/
def macroSites (aliases : List (String × List String)) (k : Macro) (cs : List Site) : List Site :=
  cs.filter fun c => c.isOpen && Macro.ofName? aliases c.callee.name == some k

theorem callsOf_openCalls (aliases : List (String × List String)) (k : Macro) (cs : List Site) :
    callsOf aliases k (openCalls cs) = (macroSites aliases k cs).map Site.call := by
  simp only [callsOf, openCalls, macroSites, List.filter_map, List.filter_filter]
  congr 2
  funext c
  exact Bool.and_comm _ _

/-- The variable that holds the declared properties: it may also be the one that holds them with their defaults. -/
def Site.propsVariable? (aliases : List (String × List String)) (c : Site) : Option Ident :=
  match c.around with
  | .argument (.name f) :: t => if Macro.ofName? aliases f.name = some .withDefaults then variableIn t else none
  | t => variableIn t

theorem localName_foldl_take (d : Model) (ps : List (String × Expr)) : (ps.foldl Model.take d).localName = d.localName := by
  induction ps generalizing d with
  | nil => rfl
  | cons p ps ih =>
    rw [List.foldl_cons, ih]
    unfold Model.take
    split <;> rfl

theorem Module.localName_model (m : Module) (content : String) (c : Site) :
    (m.model content c.call).localName = c.variable?.map (·.range) := by
  unfold Module.model
  rw [localName_foldl_take, c.name?_call]

theorem Site.name_assigned (c : Site) : c.call.assigned.name = c.variable?.map (·.name) := by rw [Call.assigned, c.name?_call]

theorem Site.name_props (aliases : List (String × List String)) (c : Site) :
    (PropsMacro.ofCall aliases c.call).assigned.name = (c.propsVariable? aliases).map (·.name) := by
  obtain ⟨callee, span, typeArgs, args, around⟩ := c
  match around with
  | [] | .function :: _ | .statement _ :: _ | .other :: _ => rfl
  | .value p :: _ => cases p <;> rfl
  | .argument f :: t =>
    cases f with
    | name i =>
      simp only [PropsMacro.ofCall, Site.call, holderIn, Holder.ofCall, propsVariable?, name?_holderIn]
      split <;> rfl
    | _ => rfl

/-- The names that a setup holds are those of the variables of which the calls are directly the values. -/
structure Setup.Names (aliases : List (String × List String)) (s : Setup) (cs : List Site) : Prop where
  models : s.models.map (·.localName) = (macroSites aliases .defineModel cs).map fun c => c.variable?.map (·.range)
  templateRefs : s.templateRefs.map (·.name) = (macroSites aliases .useTemplateRef cs).map fun c => c.variable?.map (·.name)
  props : s.props.map (·.assigned.name) =
    (macroSites aliases .defineProps cs).getLast?.map fun c => (c.propsVariable? aliases).map (·.name)
  emits : s.emits.map (·.name) = (macroSites aliases .defineEmits cs).getLast?.map fun c => c.variable?.map (·.name)
  slots : s.slots.map (·.name) = (macroSites aliases .defineSlots cs).getLast?.map fun c => c.variable?.map (·.name)

theorem Setup.Holds.names {sites : List Site} (h : s.Holds m content aliases (openCalls sites)) : s.Names aliases sites where
  models := by simp [h.models, callsOf_openCalls, Function.comp_def, m.localName_model]
  templateRefs := by simp [h.templateRefs, callsOf_openCalls, Function.comp_def, Site.name?_call]
  props := by simp [h.props, callsOf_openCalls, Function.comp_def, Site.name_props]
  emits := by simp [h.emits, callsOf_openCalls, Function.comp_def, Site.name_assigned]
  slots := by simp [h.slots, callsOf_openCalls, Function.comp_def, Site.name_assigned]

/-- A setup holds what the calls of macros with no function around them say, in their order in the tree, and the names of the variables
of which they are directly the values. -/
theorem Module.setup_collects (m : Module) (content : String) (extensions : List String) (aliases : List (String × List String)) :
    (m.setup content extensions aliases).Holds m content aliases (openCalls m.sites) ∧
      (m.setup content extensions aliases).Names aliases m.sites := by
  have hholds := m.setup_holds content extensions aliases
  rw [m.calls_eq] at hholds
  exact ⟨hholds, hholds.names⟩

/-- The setup of a script under the names that macros have by themselves. -/
def setupOf (content : String) : Setup := (Module.read content "ts").setup content [] Options.defaultMacros.entries

/-- The key of a method is part of the method, but not of its function: a call in it counts. A call in a decorator of a method does not
count, nor does one in the key of an accessor of an object, nor one that is made only if there is something to call. -/
theorem setup_keys_optional :
    let keyed := "class A \x7b [defineProps()]() \x7b\x7d \x7d"
    String.ofList (Text.between 10 30 keyed.toList) = "[defineProps()]() \x7b\x7d" ∧
      (setupOf keyed).props.map (·.assigned.call.call) = some ⟨11, 24⟩ ∧
      (setupOf "class A \x7b @dec(defineProps()) m() \x7b\x7d \x7d").props = none ∧
      (setupOf "(\x7b get [defineProps()]() \x7b return 1 \x7d \x7d)").props = none ∧
      (setupOf "defineProps()").props.map (·.assigned.call.call) = some ⟨0, 13⟩ ∧ (setupOf "defineProps?.()").props = none := by
  decide +kernel

end Script

end TypedSfc

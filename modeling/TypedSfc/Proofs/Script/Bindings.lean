import TypedSfc.Proofs.Script.FreeNames
import TypedSfc.Proofs.Script.Idents

/-!
# What binds a name

A name is bound as a value at the top level of a script by a declaration or an import. Of the forms that these have, some are collected
as the bindings of the script: variables, functions, classes and enumerations that are not exported, and imports of values. The names that
are collected are those that are bound in one of these forms.
-/

namespace TypedSfc

namespace Script

/-- How a name is bound as a value at the top level of a script. -/
inductive BindingForm where
  /-- A statement of the top level declares it with `var`, `let` or `const`. -/
  | declared
  /-- A statement of the top level declares it with `using`. -/
  | disposed
  /-- It is declared with `var` within another statement. -/
  | nested
  | functions
  | classes
  | enumerations
  | namespaces
  /-- It is imported from a module, and no component. -/
  | imports
  /-- It is the default import of a component. -/
  | components
  /-- It is a name for another module, or for a member of a namespace. -/
  | importEquals
  /-- A declaration binds it that is exported. -/
  | exports
  deriving DecidableEq, Repr

/-- Whether a name in a form is collected as a value. -/
def BindingForm.isCollected : BindingForm → Bool
  | declared | functions | classes | enumerations | imports => true
  | disposed | nested | namespaces | components | importEquals | exports => false

/-- The names that a statement binds at the top level, with their forms. -/
def Stmt.binds : Stmt → List (BindingForm × Ident)
  | vars _ .disposed ds => ds.flatMap fun d => d.declared.map fun b => (.disposed, b.id)
  | vars _ _ ds => ds.flatMap fun d => d.declared.map fun b => (.declared, b.id)
  | funcDecl _ i _ => [(.functions, i)]
  | classDecl _ i _ => [(.classes, i)]
  | enumDecl _ i _ => [(.enumerations, i)]
  | namespaceDecl _ i _ => i.toList.map fun i => (.namespaces, i)
  | other _ ps => (hoistedIn (partEvents true .plain ps)).map fun i => (.nested, i)
  | expr _ _ | leave _ _ | empty _ => []

/-- The names that a part binds that is exported. -/
def Part.exported : Part → List (BindingForm × Ident)
  | decl t => t.binds.map fun b => (.exports, b.2)
  | _ => []

/-- Whether only a type is imported. -/
def ImportName.isType : ImportName → Bool
  | .named _ typeOnly _ => typeOnly
  | .default _ | .module _ => false

/-- Whether what a file exports by default is imported. -/
def ImportName.isDefault : ImportName → Bool
  | .default _ => true
  | .module _ => false
  | .named _ _ isDefault => isDefault

/-- How an import binds a name from a file, which is a component or not. -/
def ImportName.form (isComponent : Bool) (n : ImportName) : BindingForm :=
  if isComponent && n.isDefault then .components else .imports

/-- Whether the file that an import names, by the place of its path, is a component. -/
def importsComponent (content : List Char) (extensions : List String) (source : Span) : Bool :=
  Bindings.endsInOne extensions (Text.unquote (String.ofList (Text.between source.start source.stop content)))

/-- The names that an item binds as values at the top level, with their forms. -/
def Item.binds (content : List Char) (extensions : List String) : Item → List (BindingForm × Ident)
  | stmt t => t.binds
  | imports _ true _ _ _ => []
  | imports _ false names source _ =>
    (names.filter fun n => !n.isType).map fun n => (n.form (importsComponent content extensions source), n.ident)
  | importEquals _ typeOnly _ i => if typeOnly then [] else [(.importEquals, i)]
  | exportDefault _ _ i _ => i.toList.map fun i => (.exports, i)
  | exports _ ps => ps.flatMap Part.exported
  | exportValue _ _ | other _ _ => []

/-- The names that a script binds as values at its top level, with their forms. -/
def Module.binds (m : Module) (content : List Char) (extensions : List String) : List (BindingForm × Ident) :=
  (m.items.getD []).flatMap (Item.binds content extensions)

/-- The names among some that are bound in a form that is collected. -/
def collected (bs : List (BindingForm × Ident)) : List Ident := (bs.filter fun b => b.1.isCollected).map (·.2)

theorem collected_append (bs cs : List (BindingForm × Ident)) : collected (bs ++ cs) = collected bs ++ collected cs := by
  simp [collected]

theorem collected_flatMap {α : Type} (l : List α) (f : α → List (BindingForm × Ident)) :
    collected (l.flatMap f) = l.flatMap fun a => collected (f a) := by
  induction l with
  | nil => rfl
  | cons a l ih => rw [List.flatMap_cons, collected_append, ih, List.flatMap_cons]

/-- Of names that are all bound in one form, all are collected or none. -/
theorem collected_map {α : Type} (l : List α) (form : BindingForm) (f : α → Ident) :
    collected (l.map fun a => (form, f a)) = if form.isCollected then l.map f else [] := by
  cases h : form.isCollected <;> simp [collected, List.filter_map, h, Function.comp_def]

namespace Bindings

variable {content : List Char} {extensions : List String}

theorem values_foldl (bs : List Bindings) (b : Bindings) : (bs.foldl append b).values = b.values ++ bs.flatMap (·.values) := by
  induction bs generalizing b with
  | nil => exact (List.append_nil _).symm
  | cons c bs ih =>
    rw [List.foldl_cons, ih, List.flatMap_cons, ← List.append_assoc]
    rfl

theorem values_ofStmt (t : Stmt) : (ofStmt t).values = collected t.binds := by
  cases t with
  | vars span kind ds =>
    have hform (form : BindingForm) : collected (ds.flatMap fun d => d.declared.map fun b => (form, b.id)) =
        ds.flatMap fun d => if form.isCollected then d.declared.map (·.id) else [] := by
      simp only [collected_flatMap, collected_map]
    cases kind with
    | disposed => exact ((hform .disposed).trans (List.flatMap_eq_nil_iff.2 fun _ _ => rfl)).symm
    | hoisted => exact (hform .declared).symm
    | lexical => exact (hform .declared).symm
  | funcDecl span i ps => rfl
  | classDecl span i ps => rfl
  | enumDecl span i ps => rfl
  | namespaceDecl span i ps => exact (collected_map i.toList .namespaces id).symm
  | other span ps => exact (collected_map _ .nested id).symm
  | expr _ _ | leave _ _ | empty _ => rfl

theorem values_ofImport (isComponent : Bool) (n : ImportName) :
    (ofImport isComponent n).values = if n.isType then [] else collected [(n.form isComponent, n.ident)] := by
  cases n with
  | default i => cases isComponent <;> rfl
  | module i => cases isComponent <;> rfl
  | named i typeOnly isDefault => cases typeOnly <;> cases isComponent <;> cases isDefault <;> rfl

theorem values_ofImports (isComponent : Bool) (names : List ImportName) :
    (names.flatMap fun n => (ofImport isComponent n).values) =
      collected ((names.filter fun n => !n.isType).map fun n => (n.form isComponent, n.ident)) := by
  induction names with
  | nil => rfl
  | cons n names ih =>
    rw [List.flatMap_cons, ih, values_ofImport]
    cases hn : n.isType with
    | true => simp [hn]
    | false =>
      rw [if_neg (by simp), ← collected_append, List.filter_cons_of_pos (by simp [hn])]
      rfl

theorem values_ofItem (t : Item) : (ofItem content extensions t).values = collected (t.binds content extensions) := by
  cases t with
  | stmt t => exact values_ofStmt t
  | imports span typeOnly names source ps =>
    cases typeOnly with
    | true => rfl
    | false =>
      rw [Item.binds, ← values_ofImports]
      show ((names.map (ofImport (importsComponent content extensions source))).foldl append empty).values = _
      rw [values_foldl, List.flatMap_map]
      rfl
  | importEquals span typeOnly isExported i => cases typeOnly <;> rfl
  | exportDefault span declaration i ps => exact (collected_map i.toList .exports id).symm
  | exports span ps =>
    have hpart (p : Part) : collected p.exported = [] := by
      cases p with
      | decl t => exact collected_map t.binds .exports Prod.snd
      | expr _ | pat _ | stmt _ | declare _ _ | define _ _ _ | scope _ _ _ | region _ _ _ | aside _ _ => rfl
    rw [Item.binds, collected_flatMap]
    exact (List.flatMap_eq_nil_iff.2 fun p _ => hpart p).symm
  | exportValue _ _ | other _ _ => rfl

end Bindings

/-- The values that are collected of a script are the names that it binds at its top level in one of the forms that are collected. -/
theorem Module.values_bindings (m : Module) (content : String) (extensions : List String) :
    (m.bindings content extensions).values = collected (m.binds content.toList extensions) := by
  rw [Module.bindings, Bindings.values_foldl, List.flatMap_map, Module.binds, collected_flatMap]
  simp only [Bindings.empty, List.nil_append, Bindings.values_ofItem]

/-- No call changes what a setup script binds. -/
theorem Module.bindings_setup (m : Module) (content : String) (extensions : List String) (aliases : List (String × List String)) :
    (m.setup content extensions aliases).bindings = m.bindings content extensions := by
  have hcall : ∀ (s : Setup) (c : Call), (m.withCall content aliases s c).bindings = s.bindings := by
    intro s c
    unfold Module.withCall
    split <;> rfl
  have hcalls : ∀ (cs : List Call) (s : Setup), (cs.foldl (m.withCall content aliases) s).bindings = s.bindings := by
    intro cs
    induction cs with
    | nil => exact fun s => rfl
    | cons c cs ih => exact fun s => (ih _).trans (hcall s c)
  unfold Module.setup
  cases hitems : m.items with
  | none =>
    rw [Module.bindings, hitems]
    rfl
  | some ts => exact hcalls _ _

end Script

end TypedSfc

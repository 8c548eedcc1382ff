import TypedSfc.Script.References
import TypedSfc.Script.Setup

/-!
# The names of a script

All names that a tree keeps with their places, whatever they stand for. The free names of a script and the callees of its calls are
among them, so that what is said of the places of all names is said of theirs.
-/

namespace TypedSfc

namespace Script

mutual

/-- The names in an expression. -/
def Expr.idents : Expr → List Ident
  | .name i => [i]
  | .string _ | .bool _ _ => []
  | .array _ es => exprIdents es
  | .object _ ps => propertyIdents ps
  | .call _ e _ ps es => e.idents ++ partIdents ps ++ exprIdents es
  | .spread _ e | .paren _ e => e.idents
  | .member _ e ps | .cast _ e ps => e.idents ++ partIdents ps
  | .assign _ p e => p.idents ++ e.idents
  | .arrow _ _ ps body => patIdents ps ++ partIdents body
  | .other _ ps => partIdents ps

/-- The names in expressions. -/
def exprIdents : List Expr → List Ident
  | [] => []
  | e :: es => e.idents ++ exprIdents es

/-- The names in a property. -/
def Property.idents : Property → List Ident
  | .shorthand i => [i]
  | .covered i e => i :: e.idents
  | .pair _ ps e => partIdents ps ++ e.idents
  | .spread e => e.idents
  | .other ps => partIdents ps

/-- The names in properties. -/
def propertyIdents : List Property → List Ident
  | [] => []
  | p :: ps => p.idents ++ propertyIdents ps

/-- The names in a pattern. -/
def Pat.idents : Pat → List Ident
  | .name i _ ps => i :: partIdents ps
  | .array _ es _ ps | .object _ es _ ps => patIdents es ++ partIdents ps
  | .keyed ps p => partIdents ps ++ p.idents
  | .rest _ p _ ps => p.idents ++ partIdents ps
  | .default _ p e => p.idents ++ e.idents
  | .target e => e.idents

/-- The names in patterns. -/
def patIdents : List Pat → List Ident
  | [] => []
  | p :: ps => p.idents ++ patIdents ps

/-- The names in a statement. -/
def Stmt.idents : Stmt → List Ident
  | .expr _ e | .leave _ e => e.idents
  | .funcDecl _ i ps | .classDecl _ i ps | .enumDecl _ i ps => i :: partIdents ps
  | .vars _ _ ps | .namespaceDecl _ _ ps | .other _ ps => partIdents ps
  | .empty _ => []

/-- The names in a part. -/
def Part.idents : Part → List Ident
  | .expr e => e.idents
  | .pat p | .declare _ p => p.idents
  | .stmt t | .decl t => t.idents
  | .define _ p e => p.idents ++ e.idents
  | .scope _ ps parts => patIdents ps ++ partIdents parts
  | .region _ _ parts => partIdents parts
  | .aside isSearched parts => if isSearched then partIdents parts else []

/-- The names in parts. -/
def partIdents : List Part → List Ident
  | [] => []
  | p :: ps => p.idents ++ partIdents ps

end

/-- The name that an import binds. -/
def ImportName.ident : ImportName → Ident
  | .default i | .module i | .named i _ _ => i

/-- The names in an item. -/
def Item.idents : Item → List Ident
  | .stmt t => t.idents
  | .exportValue _ e => e.idents
  | .imports _ _ ns _ ps => ns.map (·.ident) ++ partIdents ps
  | .exportDefault _ _ _ ps | .exports _ ps | .other _ ps => partIdents ps
  | .importEquals .. => []

/-- The names in a script; none if it cannot be read. -/
def Module.idents (m : Module) : List Ident := (m.items.getD []).flatMap Item.idents

/-! ## Free names -/

/-- What a walk has found free between two of its states is among some names. -/
def Seen.Finds (s : Seen) (is : List Ident) (s' : Seen) : Prop := ∀ r ∈ s'.free, r ∈ s.free ∨ ⟨r.name, r.offset⟩ ∈ is

namespace Seen.Finds

variable {s s' s'' : Seen} {is js : List Ident}

theorem nothing (h : s'.free = s.free) : s.Finds is s' := fun _ hr => .inl (h ▸ hr)

theorem mono (h : s.Finds is s') (hsub : is ⊆ js) : s.Finds js s' := fun r hr => (h r hr).imp_right fun hmem => hsub hmem

theorem append (h : s.Finds is s') (h' : s'.Finds js s'') : s.Finds (is ++ js) s'' := by
  intro r hr
  rcases h' r hr with hr | hr
  · exact (h r hr).imp_right fun hmem => List.mem_append_left js hmem
  · exact .inr (List.mem_append_right is hr)

theorem use (s : Seen) (i : Ident) (shorthand : Bool) : s.Finds [i] (s.use i shorthand) := by
  intro r hr
  unfold Seen.use at hr
  split at hr
  · exact .inl hr
  · rcases List.mem_cons.1 hr with rfl | hr
    · exact .inr (by simp)
    · exact .inl hr

/-- Names that are bound first, or forgotten behind, are not free. -/
theorem bind {names : List Bound} (h : (s.bind names).Finds is s') : s.Finds is s' := h

theorem leave {outer : Seen} (h : s.Finds is s') : s.Finds is (outer.leave s') := h

end Seen.Finds

mutual

theorem Expr.seen_finds (s : Seen) (e : Expr) : s.Finds e.idents (e.seen s) := by
  cases e with
  | name i => exact .use s i false
  | string span => exact .nothing rfl
  | bool span value => exact .nothing rfl
  | array span es => exact exprsSeen_finds s es
  | object span ps => exact propertiesSeen_finds s ps
  | call span e typeArgs ps es => exact ((e.seen_finds s).append (partsSeen_finds _ ps)).append (exprsSeen_finds _ es)
  | spread span e => exact e.seen_finds s
  | paren span e => exact e.seen_finds s
  | member span e ps => exact (e.seen_finds s).append (partsSeen_finds _ ps)
  | cast span e ps => exact (e.seen_finds s).append (partsSeen_finds _ ps)
  | assign span p e => exact (p.seen_finds s).append (e.seen_finds _)
  | arrow span ts ps body =>
    exact Seen.Finds.leave (.bind ((patsSeen_finds _ ps).append (partsSeen_finds _ body)))
  | other span ps => exact partsSeen_finds s ps

theorem exprsSeen_finds (s : Seen) (es : List Expr) : s.Finds (exprIdents es) (exprsSeen s es) := by
  cases es with
  | nil => exact .nothing rfl
  | cons e es => exact (e.seen_finds s).append (exprsSeen_finds _ es)

theorem Property.seen_finds (s : Seen) (p : Property) : s.Finds p.idents (p.seen s) := by
  cases p with
  | shorthand i => exact .use s i true
  | covered i e => exact (e.seen_finds s).mono (List.subset_cons_self i _)
  | pair key ps e => exact (partsSeen_finds s ps).append (e.seen_finds _)
  | spread e => exact e.seen_finds s
  | other ps => exact partsSeen_finds s ps

theorem propertiesSeen_finds (s : Seen) (ps : List Property) : s.Finds (propertyIdents ps) (propertiesSeen s ps) := by
  cases ps with
  | nil => exact .nothing rfl
  | cons p ps => exact (p.seen_finds s).append (propertiesSeen_finds _ ps)

theorem Pat.seen_finds (s : Seen) (p : Pat) : s.Finds p.idents (p.seen s) := by
  cases p with
  | name i typed ps => exact (partsSeen_finds s ps).mono (List.subset_cons_self i _)
  | array span es typed ps => exact (patsSeen_finds s es).append (partsSeen_finds _ ps)
  | object span es typed ps => exact (patsSeen_finds s es).append (partsSeen_finds _ ps)
  | keyed ps p => exact (partsSeen_finds s ps).append (p.seen_finds _)
  | rest span p typed ps => exact (p.seen_finds s).append (partsSeen_finds _ ps)
  | default span p e => exact (p.seen_finds s).append (e.seen_finds _)
  | target e => exact e.seen_finds s

theorem patsSeen_finds (s : Seen) (ps : List Pat) : s.Finds (patIdents ps) (patsSeen s ps) := by
  cases ps with
  | nil => exact .nothing rfl
  | cons p ps => exact (p.seen_finds s).append (patsSeen_finds _ ps)

theorem Stmt.seen_finds (s : Seen) (t : Stmt) : s.Finds t.idents (t.seen s) := by
  cases t with
  | expr span e => exact e.seen_finds s
  | leave span e => exact e.seen_finds s
  | funcDecl span i ps => exact (Seen.Finds.bind (partsSeen_finds _ ps)).mono (List.subset_cons_self i _)
  | classDecl span i ps => exact (partsSeen_finds s ps).mono (List.subset_cons_self i _)
  | enumDecl span i ps => exact (partsSeen_finds s ps).mono (List.subset_cons_self i _)
  | vars span kind ps => exact partsSeen_finds s ps
  | namespaceDecl span i ps => exact partsSeen_finds s ps
  | other span ps => exact partsSeen_finds s ps
  | empty span => exact .nothing rfl

theorem Part.seen_finds (s : Seen) (p : Part) : s.Finds p.idents (p.seen s) := by
  cases p with
  | expr e => exact e.seen_finds s
  | pat p => exact p.seen_finds s
  | stmt t => exact t.seen_finds s
  | decl t => exact t.seen_finds s
  | declare span p => exact Seen.Finds.bind (p.seen_finds _)
  | define span p e => exact Seen.Finds.bind ((p.seen_finds _).append (e.seen_finds _))
  | scope kind ps parts =>
    exact Seen.Finds.leave (.bind ((partsSeen_finds _ parts).mono (List.subset_append_right _ _)))
  | region kind names parts => exact partsSeen_finds s parts
  | aside isSearched parts => exact .nothing rfl

theorem partsSeen_finds (s : Seen) (ps : List Part) : s.Finds (partIdents ps) (partsSeen s ps) := by
  cases ps with
  | nil => exact .nothing rfl
  | cons p ps => exact (p.seen_finds s).append (partsSeen_finds _ ps)

end

theorem Item.seen_finds (s : Seen) (i : Item) : s.Finds i.idents (i.seen s) := by
  cases i with
  | stmt t => exact t.seen_finds s
  | imports span typeOnly ns source ps => exact (partsSeen_finds s ps).mono (List.subset_append_right _ _)
  | exportValue span e => exact e.seen_finds s
  | exportDefault span declaration id ps => exact partsSeen_finds s ps
  | exports span ps => exact partsSeen_finds s ps
  | importEquals span typeOnly isExported id => exact .nothing rfl
  | other span ps => exact partsSeen_finds s ps

/-- The free names of a script are among its names. -/
theorem Module.mem_idents_of_mem_free {m : Module} {r : Reference} (h : r ∈ m.free) : ⟨r.name, r.offset⟩ ∈ m.idents := by
  have hall : ∀ (is : List Item) (s : Seen), s.Finds (is.flatMap Item.idents) (is.foldl Item.seen s) := by
    intro is
    induction is with
    | nil => exact fun s => .nothing rfl
    | cons i is ih => exact fun s => (i.seen_finds s).append (ih _)
  have hmem : r ∈ ((m.items.getD []).foldl Item.seen {}).free := List.mem_reverse.1 (List.mem_mergeSort.1 h)
  rcases hall _ _ r hmem with hnone | hr
  · cases hnone
  · exact hr

/-! ## Calls -/

/-- Calls whose callees are among some names. -/
def Among (cs : List Call) (is : List Ident) : Prop := ∀ c ∈ cs, c.callee ∈ is

namespace Among

variable {cs ds : List Call} {is js : List Ident}

theorem nil (is : List Ident) : Among [] is := by simp [Among]

theorem mono (h : Among cs is) (hsub : is ⊆ js) : Among cs js := fun c hc => hsub (h c hc)

theorem append (h : Among cs is) (h' : Among ds js) : Among (cs ++ ds) (is ++ js) := by
  intro c hc
  rcases List.mem_append.1 hc with hc | hc
  · exact List.mem_append_left js (h c hc)
  · exact List.mem_append_right is (h' c hc)

end Among

mutual

theorem Expr.calls_among (st : Option Span) (h : Holder) (e : Expr) : Among (e.calls st h) e.idents := by
  cases e with
  | name i => exact .nil _
  | string span => exact .nil _
  | bool span value => exact .nil _
  | array span es => exact exprCalls_among st _ es
  | object span ps => exact propertyCalls_among st ps
  | call span callee typeArgs ps es =>
    have hinner := ((callee.calls_among st .nothing).append (partCalls_among st ps)).append
      (exprCalls_among st (Holder.ofCall callee h) es)
    -- The call itself counts when its callee is a name.
    cases callee with
    | name i =>
      intro c hc
      rcases List.mem_cons.1 hc with rfl | hc
      · exact List.mem_cons_self
      · exact hinner c hc
    | _ => exact hinner
  | spread span e => exact e.calls_among st _
  | paren span e => exact e.calls_among st _
  | member span e ps => exact (e.calls_among st _).append (partCalls_among st ps)
  | cast span e ps => exact (e.calls_among st _).append (partCalls_among st ps)
  | assign span p e => exact (p.calls_among st).append (e.calls_among st _)
  | arrow span ps body => exact .nil _
  | other span ps => exact partCalls_among st ps

theorem exprCalls_among (st : Option Span) (h : Holder) (es : List Expr) : Among (exprCalls st h es) (exprIdents es) := by
  cases es with
  | nil => exact .nil _
  | cons e es => exact (e.calls_among st h).append (exprCalls_among st _ es)

theorem Property.calls_among (st : Option Span) (p : Property) : Among (p.calls st) p.idents := by
  cases p with
  | shorthand i => exact .nil _
  | covered i e => exact (e.calls_among st _).mono (List.subset_cons_self i _)
  | pair key ps e => exact (partCalls_among st ps).append (e.calls_among st _)
  | spread e => exact e.calls_among st _
  | other ps => exact partCalls_among st ps

theorem propertyCalls_among (st : Option Span) (ps : List Property) : Among (propertyCalls st ps) (propertyIdents ps) := by
  cases ps with
  | nil => exact .nil _
  | cons p ps => exact (p.calls_among st).append (propertyCalls_among st ps)

theorem Pat.calls_among (st : Option Span) (p : Pat) : Among (p.calls st) p.idents := by
  cases p with
  | name i typed ps => exact (partCalls_among st ps).mono (List.subset_cons_self i _)
  | array span es typed ps => exact (patCalls_among st es).append (partCalls_among st ps)
  | object span es typed ps => exact (patCalls_among st es).append (partCalls_among st ps)
  | keyed ps p => exact (partCalls_among st ps).append (p.calls_among st)
  | rest span p typed ps => exact (p.calls_among st).append (partCalls_among st ps)
  | default span p e => exact (p.calls_among st).append (e.calls_among st _)
  | target e => exact e.calls_among st _

theorem patCalls_among (st : Option Span) (ps : List Pat) : Among (patCalls st ps) (patIdents ps) := by
  cases ps with
  | nil => exact .nil _
  | cons p ps => exact (p.calls_among st).append (patCalls_among st ps)

theorem Stmt.calls_among (st : Option Span) (t : Stmt) : Among (t.calls st) t.idents := by
  cases t with
  | expr span e => exact e.calls_among st _
  | leave span e => exact e.calls_among st _
  | funcDecl span i ps => exact (partCalls_among st ps).mono (List.subset_cons_self i _)
  | classDecl span i ps => exact (partCalls_among st ps).mono (List.subset_cons_self i _)
  | enumDecl span i ps => exact (partCalls_among st ps).mono (List.subset_cons_self i _)
  | vars span kind ps => exact partCalls_among st ps
  | namespaceDecl span i ps => exact partCalls_among st ps
  | other span ps => exact partCalls_among st ps
  | empty span => exact .nil _

theorem Part.calls_among (st : Option Span) (p : Part) : Among (p.calls st) p.idents := by
  cases p with
  | expr e => exact e.calls_among st _
  | pat p => exact p.calls_among st
  | stmt t => exact t.calls_among _
  | decl t => exact t.calls_among st
  | declare span p => exact p.calls_among st
  | define span p e => exact (p.calls_among st).append (e.calls_among st _)
  | scope kind ps parts =>
    cases kind with
    | function => exact .nil _
    | body => exact (patCalls_among st ps).append (partCalls_among st parts)
    | block => exact (patCalls_among st ps).append (partCalls_among st parts)
  | region kind names parts => exact partCalls_among st parts
  | aside isSearched parts =>
    cases isSearched with
    | true => exact partCalls_among st parts
    | false => exact .nil _

theorem partCalls_among (st : Option Span) (ps : List Part) : Among (partCalls st ps) (partIdents ps) := by
  cases ps with
  | nil => exact .nil _
  | cons p ps => exact (p.calls_among st).append (partCalls_among st ps)

end

theorem Item.calls_among (i : Item) : Among i.calls i.idents := by
  cases i with
  | stmt t => exact t.calls_among _
  | imports span typeOnly ns source ps => exact (partCalls_among _ ps).mono (List.subset_append_right _ _)
  | exportValue span e => exact e.calls_among _ _
  | exportDefault span declaration id ps => exact partCalls_among _ ps
  | exports span ps => exact partCalls_among _ ps
  | importEquals span typeOnly isExported id => exact .nil _
  | other span ps => exact partCalls_among _ ps

/-- The callees of the calls of a script are among its names. -/
theorem Module.calls_among (m : Module) : Among m.calls m.idents := by
  intro c hc
  obtain ⟨i, hi, hcall⟩ := List.mem_flatMap.1 hc
  exact List.mem_flatMap.2 ⟨i, hi, i.calls_among c hcall⟩

/-- A setup script asks for style modules by names of its tree. -/
theorem Module.setup_cssModules (m : Module) (content : String) (extensions : List String) (aliases : List (String × List String)) :
    ∀ c ∈ (m.setup content extensions aliases).cssModules, ∃ i ∈ m.idents, c.callee = i.range := by
  have hall : ∀ (cs : List Call) (s : Setup), Among cs m.idents → (∀ c ∈ s.cssModules, ∃ i ∈ m.idents, c.callee = i.range) →
      ∀ c ∈ (cs.foldl (m.withCall content aliases) s).cssModules, ∃ i ∈ m.idents, c.callee = i.range := by
    intro cs
    induction cs with
    | nil => exact fun s _ hs => hs
    | cons call cs ih =>
      intro s hcs hs
      refine ih _ (fun c hc => hcs c (List.mem_cons_of_mem _ hc)) ?_
      have hcall := hcs call List.mem_cons_self
      unfold Module.withCall
      split <;> try exact hs
      intro c hc
      rcases List.mem_append.1 hc with hc | hc
      · exact hs c hc
      · rw [List.mem_singleton.1 hc]
        exact ⟨call.callee, hcall, rfl⟩
  unfold Module.setup
  split
  · simp
  · exact hall _ _ m.calls_among (by simp)

end Script

end TypedSfc

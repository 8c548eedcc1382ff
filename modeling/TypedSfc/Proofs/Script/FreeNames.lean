import Mathlib.Data.List.Nodup
import TypedSfc.Script.References

/-!
# Free names

What matters for the binding of names in a script: where names are used, where they are bound, and the scopes around both. The walk that
looks for free names goes through these events in order and sees of each what the events say; whatever else a tree has does not matter
to it.

A name in the place of a value is found free if the walk looks at it and has not noted a declaration that binds it, at the head of a
scope around it or before it in one. It is free if no scope around it binds it anywhere. The scopes are those of the language: functions
and classes bind their names in the whole block, and as expressions within themselves; variables declared with `var` belong to the whole
body around; the cases of a `switch` share a scope, and so do the parameters and the result of a signature. The walk does not open all
of these, and forgets behind a block what it has noted in it. The two agree on a script just when no free name is passed over, and the
names that are looked at are noted where they are bound and nowhere else. Parameters, variables, functions and classes count, and the
patterns of loops and of `catch`; enumerations, namespaces and imports do not.
-/

namespace TypedSfc

namespace Script

/-! ## Scopes -/

/-- Something that matters for the binding of names. -/
inductive Event where
  /-- A name in the place of a value, and whether the walk looks at it. -/
  | use (r : Reference) (isSeen : Bool)
  /-- Names that are bound, and whether the walk takes note of them when it comes here. Hoisted names belong to the body around, others to
  the scope in which this stands. -/
  | bind (names : List Ident) (isNoted : Bool) (isHoisted : Bool)
  /-- A scope, with the names that it binds from the start. A walk that opens it knows these, and forgets behind it what it has noted in
  it. Hoisted names belong to a scope that is a body. -/
  | scope (isOpened : Bool) (isBody : Bool) (names : List Ident) (events : List Event)

/-- What a part is for the binding of names. -/
inductive PartRole where
  /-- A pattern in it is assigned to, and a variable belongs to its block. -/
  | plain
  /-- A pattern in it is a parameter. -/
  | parameter
  /-- A variable in it belongs to the body around. -/
  | hoisted
  deriving DecidableEq, Repr

/-- Whether hoisted names belong to a scope. -/
def ScopeKind.isBody : ScopeKind → Bool
  | function | body => true
  | block => false

/-- What the parts of a scope are. -/
def ScopeKind.role : ScopeKind → PartRole
  | function => .parameter
  | body | block => .plain

/-- What variables are. -/
def VarKind.role : VarKind → PartRole
  | hoisted => .hoisted
  | lexical | disposed => .plain

/-- The names of what a pattern binds. -/
def namesOf (bs : List Bound) : List Ident := bs.map (·.id)

/-- The names that a pattern assigns to. The walk does not look at them. -/
def Pat.written (p : Pat) : List Event := p.bound.map fun b => .use ⟨b.id.name, b.id.start, false⟩ false

/-- The events that are the names of a pattern themselves. The walk knows the parameters of a function by the head of its scope. -/
def Pat.ownEvents (p : Pat) : PartRole → List Event
  | .parameter => [.bind (namesOf p.bound) false false]
  | .plain | .hoisted => p.written

mutual

/-- The events in an expression. Where the walk does not come (`v` is false), names are neither seen nor noted. -/
def Expr.events (v : Bool) : Expr → List Event
  | .name i => [.use ⟨i.name, i.start, false⟩ v]
  | .string _ | .bool _ _ => []
  | .array _ es => exprEvents v es
  | .object _ ps => propertyEvents v ps
  | .call _ e _ ps es => e.events v ++ partEvents v .plain ps ++ exprEvents v es
  | .spread _ e | .paren _ e => e.events v
  | .member _ e ps | .cast _ e ps => e.events v ++ partEvents v .plain ps
  | .assign _ p e => p.written ++ p.events v ++ e.events v
  | .arrow _ ts ps body =>
    partEvents false .plain ts ++ [.scope true true (namesOf (boundAll ps)) (patEvents v ps ++ partEvents v .plain body)]
  | .other _ ps => partEvents v .plain ps

/-- The events in some expressions. -/
def exprEvents (v : Bool) : List Expr → List Event
  | [] => []
  | e :: es => e.events v ++ exprEvents v es

/-- The events in a property. At a name with a default the walk looks only at the default. -/
def Property.events (v : Bool) : Property → List Event
  | .shorthand i => [.use ⟨i.name, i.start, true⟩ v]
  | .covered i e => .use ⟨i.name, i.start, true⟩ false :: e.events v
  | .pair _ ps e => partEvents v .plain ps ++ e.events v
  | .spread e => e.events v
  | .other ps => partEvents v .plain ps

/-- The events in some properties. -/
def propertyEvents (v : Bool) : List Property → List Event
  | [] => []
  | p :: ps => p.events v ++ propertyEvents v ps

/-- The events in a pattern, without its own names. -/
def Pat.events (v : Bool) : Pat → List Event
  | .name _ _ ps => partEvents v .plain ps
  | .array _ es _ ps | .object _ es _ ps => patEvents v es ++ partEvents v .plain ps
  | .keyed ps p => partEvents v .plain ps ++ p.events v
  | .rest _ p _ ps => p.events v ++ partEvents v .plain ps
  | .default _ p e => p.events v ++ e.events v
  | .target e => e.events v

/-- The events in some patterns. -/
def patEvents (v : Bool) : List Pat → List Event
  | [] => []
  | p :: ps => p.events v ++ patEvents v ps

/-- The events in a statement. Of the names of declarations, the walk does not note those of classes. -/
def Stmt.events (v : Bool) : Stmt → List Event
  | .expr _ e | .leave _ e => e.events v
  | .funcDecl _ i ps => .bind [i] v false :: partEvents v .plain ps
  | .classDecl _ i ps => .bind [i] false false :: partEvents v .plain ps
  | .vars _ kind ps => partEvents v kind.role ps
  | .enumDecl _ _ ps | .namespaceDecl _ _ ps | .other _ ps => partEvents v .plain ps
  | .empty _ => []

/-- The events in a part. The walk does not come to the pattern of a `catch`, which is the head of a scope that is no function. -/
def Part.events (v : Bool) (role : PartRole) : Part → List Event
  | .expr e => e.events v
  | .pat p => p.ownEvents role ++ p.events v
  | .stmt s | .decl s => s.events v
  | .declare _ p => .bind (namesOf p.bound) v (role == .hoisted) :: p.events v
  | .define _ p e => .bind (namesOf p.bound) v (role == .hoisted) :: (p.events v ++ e.events v)
  | .scope .function ps parts => [.scope true true (namesOf (boundAll ps)) (partEvents v .parameter parts)]
  | .scope .body ps parts => [.scope true true (namesOf (boundAll ps)) (patEvents false ps ++ partEvents v .plain parts)]
  | .scope .block ps parts => [.scope true false (namesOf (boundAll ps)) (patEvents false ps ++ partEvents v .plain parts)]
  | .region kind names parts => [.scope false kind.isBody names (partEvents v kind.role parts)]
  | .aside _ parts => partEvents false .plain parts

/-- The events in some parts. -/
def partEvents (v : Bool) (role : PartRole) : List Part → List Event
  | [] => []
  | p :: ps => p.events v role ++ partEvents v role ps

end

/-- The events in an item. -/
def Item.events : Item → List Event
  | .stmt s => s.events true
  | .exportValue _ e => e.events true
  | .exportDefault _ _ id ps => .bind id.toList false false :: partEvents true .plain ps
  | .imports _ _ _ _ ps | .exports _ ps | .other _ ps => partEvents true .plain ps
  | .importEquals .. => []

/-- The events in a script. -/
def Module.events (m : Module) : List Event := (m.items.getD []).flatMap Item.events

/-! ## The walk over events -/

/-- The names of some names at their places. -/
def namesIn (is : List Ident) : List String := is.map (·.name)

/-- Names are bound from here on. -/
def Seen.know (s : Seen) (is : List Ident) : Seen := { s with bound := namesIn is ++ s.bound }

theorem Seen.know_namesOf (s : Seen) (bs : List Bound) : s.know (namesOf bs) = s.bind bs := by
  simp [know, namesIn, namesOf, bind]

mutual

/-- What a walk has seen behind an event. -/
def Event.run (s : Seen) : Event → Seen
  | .use r isSeen => if isSeen && !s.bound.contains r.name then { s with free := r :: s.free } else s
  | .bind names isNoted _ => if isNoted then s.know names else s
  | .scope true _ names es => s.leave (runAll (s.know names) es)
  | .scope false _ _ es => runAll s es

/-- What a walk has seen behind some events. -/
def runAll (s : Seen) : List Event → Seen
  | [] => s
  | e :: es => runAll (e.run s) es

end

theorem runAll_append (s : Seen) (es fs : List Event) : runAll s (es ++ fs) = runAll (runAll s es) fs := by
  induction es generalizing s with
  | nil => rfl
  | cons e es ih => exact ih (e.run s)

theorem runAll_written (s : Seen) (p : Pat) : runAll s p.written = s := by
  unfold Pat.written
  induction p.bound with
  | nil => rfl
  | cons b bs ih => exact ih

theorem runAll_ownEvents (s : Seen) (p : Pat) (role : PartRole) : runAll s (p.ownEvents role) = s := by
  cases role with
  | parameter => rfl
  | plain | hoisted => exact runAll_written s p

theorem run_use (s : Seen) (i : Ident) (shorthand v : Bool) :
    Event.run s (.use ⟨i.name, i.start, shorthand⟩ v) = if v then s.use i shorthand else s := by
  cases v
  · rfl
  · simp only [Event.run, Seen.use, Bool.true_and, Bool.not_eq_true', if_true]
    cases s.bound.contains i.name <;> rfl

theorem run_bind (s : Seen) (bs : List Bound) (v isHoisted : Bool) :
    Event.run s (.bind (namesOf bs) v isHoisted) = if v then s.bind bs else s := by
  rw [Event.run, s.know_namesOf]

theorem run_scope (s : Seen) (ps : List Pat) (isBody : Bool) (es : List Event) :
    Event.run s (.scope true isBody (namesOf (boundAll ps)) es) = s.leave (runAll (s.bind (boundAll ps)) es) := by
  rw [Event.run, s.know_namesOf]

mutual

theorem Expr.run_events (v : Bool) (s : Seen) (e : Expr) : runAll s (e.events v) = if v then e.seen s else s := by
  cases e with
  | name i => exact run_use s i false v
  | string span => exact (ite_self s).symm
  | bool span value => exact (ite_self s).symm
  | array span es => exact run_exprEvents v s es
  | object span ps => exact run_propertyEvents v s ps
  | call span e typeArgs ps es =>
    rw [Expr.events, Expr.seen, runAll_append, runAll_append, e.run_events, run_partEvents, run_exprEvents]
    cases v <;> rfl
  | spread span e => exact e.run_events v s
  | paren span e => exact e.run_events v s
  | member span e ps =>
    rw [Expr.events, Expr.seen, runAll_append, e.run_events, run_partEvents]
    cases v <;> rfl
  | cast span e ps =>
    rw [Expr.events, Expr.seen, runAll_append, e.run_events, run_partEvents]
    cases v <;> rfl
  | assign span p e =>
    rw [Expr.events, Expr.seen, runAll_append, runAll_append, runAll_written, p.run_events, e.run_events]
    cases v <;> rfl
  | arrow span ts ps body =>
    rw [Expr.events, Expr.seen, runAll_append, run_partEvents, runAll, runAll, run_scope, runAll_append, run_patEvents, run_partEvents]
    cases v <;> rfl
  | other span ps => exact run_partEvents v .plain s ps

theorem run_exprEvents (v : Bool) (s : Seen) (es : List Expr) : runAll s (exprEvents v es) = if v then exprsSeen s es else s := by
  cases es with
  | nil => exact (ite_self s).symm
  | cons e es =>
    rw [exprEvents, exprsSeen, runAll_append, e.run_events, run_exprEvents]
    cases v <;> rfl

theorem Property.run_events (v : Bool) (s : Seen) (p : Property) : runAll s (p.events v) = if v then p.seen s else s := by
  cases p with
  | shorthand i => exact run_use s i true v
  | covered i e => exact e.run_events v s
  | pair key ps e =>
    rw [Property.events, Property.seen, runAll_append, run_partEvents, e.run_events]
    cases v <;> rfl
  | spread e => exact e.run_events v s
  | other ps => exact run_partEvents v .plain s ps

theorem run_propertyEvents (v : Bool) (s : Seen) (ps : List Property) :
    runAll s (propertyEvents v ps) = if v then propertiesSeen s ps else s := by
  cases ps with
  | nil => exact (ite_self s).symm
  | cons p ps =>
    rw [propertyEvents, propertiesSeen, runAll_append, p.run_events, run_propertyEvents]
    cases v <;> rfl

theorem Pat.run_events (v : Bool) (s : Seen) (p : Pat) : runAll s (p.events v) = if v then p.seen s else s := by
  cases p with
  | name i typed ps => exact run_partEvents v .plain s ps
  | array span es typed ps =>
    rw [Pat.events, Pat.seen, runAll_append, run_patEvents, run_partEvents]
    cases v <;> rfl
  | object span es typed ps =>
    rw [Pat.events, Pat.seen, runAll_append, run_patEvents, run_partEvents]
    cases v <;> rfl
  | keyed ps p =>
    rw [Pat.events, Pat.seen, runAll_append, run_partEvents, p.run_events]
    cases v <;> rfl
  | rest span p typed ps =>
    rw [Pat.events, Pat.seen, runAll_append, p.run_events, run_partEvents]
    cases v <;> rfl
  | default span p e =>
    rw [Pat.events, Pat.seen, runAll_append, p.run_events, e.run_events]
    cases v <;> rfl
  | target e => exact e.run_events v s

theorem run_patEvents (v : Bool) (s : Seen) (ps : List Pat) : runAll s (patEvents v ps) = if v then patsSeen s ps else s := by
  cases ps with
  | nil => exact (ite_self s).symm
  | cons p ps =>
    rw [patEvents, patsSeen, runAll_append, p.run_events, run_patEvents]
    cases v <;> rfl

theorem Stmt.run_events (v : Bool) (s : Seen) (t : Stmt) : runAll s (t.events v) = if v then t.seen s else s := by
  cases t with
  | expr span e => exact e.run_events v s
  | leave span e => exact e.run_events v s
  | funcDecl span i ps =>
    rw [Stmt.events, Stmt.seen, runAll, run_partEvents]
    cases v <;> rfl
  | classDecl span i ps => exact run_partEvents v .plain s ps
  | enumDecl span i ps => exact run_partEvents v .plain s ps
  | namespaceDecl span i ps => exact run_partEvents v .plain s ps
  | vars span kind ps => exact run_partEvents v kind.role s ps
  | other span ps => exact run_partEvents v .plain s ps
  | empty span => exact (ite_self s).symm

theorem Part.run_events (v : Bool) (role : PartRole) (s : Seen) (p : Part) :
    runAll s (p.events v role) = if v then p.seen s else s := by
  cases p with
  | expr e => exact e.run_events v s
  | pat p =>
    rw [Part.events, Part.seen, runAll_append, runAll_ownEvents, p.run_events]
  | stmt t => exact t.run_events v s
  | decl t => exact t.run_events v s
  | declare span p =>
    rw [Part.events, Part.seen, runAll, run_bind, p.run_events]
    cases v <;> rfl
  | define span p e =>
    rw [Part.events, Part.seen, runAll, run_bind, runAll_append, p.run_events, e.run_events]
    cases v <;> rfl
  | scope kind ps parts =>
    cases kind with
    | function =>
      rw [Part.events, Part.seen, runAll, runAll, run_scope, run_partEvents]
      cases v <;> rfl
    | body =>
      rw [Part.events, Part.seen, runAll, runAll, run_scope, runAll_append, run_patEvents, run_partEvents]
      cases v <;> rfl
    | block =>
      rw [Part.events, Part.seen, runAll, runAll, run_scope, runAll_append, run_patEvents, run_partEvents]
      cases v <;> rfl
  | region kind names parts => exact run_partEvents v kind.role s parts
  | aside isSearched parts =>
    rw [Part.events, run_partEvents]
    cases v <;> rfl

theorem run_partEvents (v : Bool) (role : PartRole) (s : Seen) (ps : List Part) :
    runAll s (partEvents v role ps) = if v then partsSeen s ps else s := by
  cases ps with
  | nil => exact (ite_self s).symm
  | cons p ps =>
    rw [partEvents, partsSeen, runAll_append, p.run_events, run_partEvents]
    cases v <;> rfl

end

theorem Item.run_events (s : Seen) (i : Item) : runAll s i.events = i.seen s := by
  cases i with
  | stmt t => exact t.run_events true s
  | exportValue span e => exact e.run_events true s
  | imports span typeOnly names source ps => exact run_partEvents true .plain s ps
  | exportDefault span declaration id ps => exact run_partEvents true .plain s ps
  | exports span ps => exact run_partEvents true .plain s ps
  | importEquals span typeOnly isExported id => rfl
  | other span ps => exact run_partEvents true .plain s ps

/-- The walk over a script is the walk over its events. -/
theorem Module.run_events (m : Module) (s : Seen) : runAll s m.events = (m.items.getD []).foldl Item.seen s := by
  unfold Module.events
  induction m.items.getD [] generalizing s with
  | nil => rfl
  | cons i is ih => rw [List.flatMap_cons, runAll_append, List.foldl_cons, ih, i.run_events]

/-- The name at its place. -/
def Reference.ident (r : Reference) : Ident := ⟨r.name, r.offset⟩

/-! ## Uses of names -/

/-- The names that an event binds in the scope in which it stands. -/
def Event.bound : Event → List Ident
  | bind names _ false => names
  | _ => []

mutual

/-- The names that an event binds in the body around. -/
def Event.hoisted : Event → List Ident
  | .bind names _ true => names
  | .scope _ false _ es => hoistedIn es
  | _ => []

/-- The names that some events bind in the body around. -/
def hoistedIn : List Event → List Ident
  | [] => []
  | e :: es => e.hoisted ++ hoistedIn es

end

/-- The names that some events bind in the scope in which they stand, which is a body or not. -/
def boundIn (isBody : Bool) (es : List Event) : List Ident := es.flatMap Event.bound ++ if isBody then hoistedIn es else []

mutual

/-- The names that the walk notes at an event, and does not forget behind it. -/
def Event.noted : Event → List String
  | .bind names true _ => namesIn names
  | .scope false _ _ es => notedIn es
  | _ => []

/-- The names that the walk notes at some events, the latest first. -/
def notedIn : List Event → List String
  | [] => []
  | e :: es => notedIn es ++ e.noted

end

/-- A name in the place of a value. -/
structure Use where
  ref : Reference
  /-- Whether the walk looks at it. -/
  isSeen : Bool
  /-- The names that the walk has noted where it comes to it. -/
  noted : List String
  /-- The names that the scopes around it bind anywhere. -/
  bound : List String

/-- Whether the walk finds a name free. -/
def Use.isFound (u : Use) : Bool := u.isSeen && !u.noted.contains u.ref.name

/-- Whether no scope around a name binds it. -/
def Use.isFree (u : Use) : Bool := !u.bound.contains u.ref.name

mutual

/-- The uses of names in an event; the names that are noted before it, and those that the scopes around it bind. -/
def Event.uses (noted bound : List String) : Event → List Use
  | .use r isSeen => [⟨r, isSeen, noted, bound⟩]
  | .bind .. => []
  | .scope isOpened isBody names es =>
    usesIn (if isOpened then namesIn names ++ noted else noted) (namesIn (names ++ boundIn isBody es) ++ bound) es

/-- The uses of names in some events. -/
def usesIn (noted bound : List String) : List Event → List Use
  | [] => []
  | e :: es => e.uses noted bound ++ usesIn (e.noted ++ noted) bound es

end

/-- The uses of names in a script, in the order of the walk. -/
def Module.uses (m : Module) : List Use := usesIn [] (namesIn (boundIn true m.events)) m.events

/-- Names by their places. -/
def byPlace (is : List Ident) : List Ident := is.mergeSort fun i j => i.start ≤ j.start

theorem byPlace_perm (is : List Ident) : (byPlace is).Perm is := List.mergeSort_perm is _

/-- The names of a script that no scope around them binds, in the order of the walk. -/
def Module.freeUses (m : Module) : List Ident := (m.uses.filter Use.isFree).map (·.ref.ident)

/-- The names that are free in a script, by their places. -/
def Module.unbound (m : Module) : List Ident := byPlace m.freeUses

/-! ## What the walk finds -/

/-- The names among some uses that are found free. -/
def foundIn (us : List Use) : List Reference := (us.filter Use.isFound).map Use.ref

theorem foundIn_append (us vs : List Use) : foundIn (us ++ vs) = foundIn us ++ foundIn vs := by simp [foundIn]

mutual

theorem Event.bound_run (s : Seen) (e : Event) : (e.run s).bound = e.noted ++ s.bound := by
  cases e with
  | use r isSeen =>
    unfold Event.run
    split <;> rfl
  | bind names isNoted isHoisted => cases isNoted <;> rfl
  | scope isOpened isBody names es =>
    cases isOpened with
    | true => rfl
    | false => exact bound_runAll s es

theorem bound_runAll (s : Seen) (es : List Event) : (runAll s es).bound = notedIn es ++ s.bound := by
  cases es with
  | nil => rfl
  | cons e es => rw [runAll, notedIn, bound_runAll, e.bound_run, List.append_assoc]

end

mutual

theorem Event.free_run (s : Seen) (bound : List String) (e : Event) :
    (e.run s).free = (foundIn (e.uses s.bound bound)).reverse ++ s.free := by
  cases e with
  | use r isSeen =>
    rw [Event.run, Event.uses]
    cases h : isSeen && !s.bound.contains r.name <;> simp only [foundIn, List.filter, Use.isFound, h] <;> rfl
  | bind names isNoted isHoisted => cases isNoted <;> rfl
  | scope isOpened isBody names es =>
    cases isOpened with
    | true => exact free_runAll (s.know names) _ es
    | false => exact free_runAll s _ es

theorem free_runAll (s : Seen) (bound : List String) (es : List Event) :
    (runAll s es).free = (foundIn (usesIn s.bound bound es)).reverse ++ s.free := by
  cases es with
  | nil => rfl
  | cons e es =>
    rw [runAll, usesIn, free_runAll (e.run s) bound es, e.free_run s bound, e.bound_run, foundIn_append, List.reverse_append,
      List.append_assoc]

end

/-- The free names of a script are the uses that are found free, by their places. -/
theorem Module.free_eq (m : Module) : m.free = (foundIn m.uses).mergeSort fun a b => a.offset ≤ b.offset := by
  rw [Module.free, ← m.run_events {}, free_runAll {} (namesIn (boundIn true m.events)), List.append_nil, List.reverse_reverse]
  rfl

/-! ## Agreement -/

/-- A name is judged rightly: it is not free if it is passed over, and if it is looked at, a declaration of it is noted just when it is
bound. -/
def Use.IsJudged (u : Use) : Prop :=
  if u.isSeen then u.ref.name ∈ u.bound ↔ u.ref.name ∈ u.noted else u.ref.name ∈ u.bound

instance (u : Use) : Decidable u.IsJudged :=
  inferInstanceAs (Decidable (if u.isSeen then u.ref.name ∈ u.bound ↔ u.ref.name ∈ u.noted else u.ref.name ∈ u.bound))

theorem Use.isJudged_iff (u : Use) : u.IsJudged ↔ u.isFound = u.isFree := by
  unfold IsJudged isFound isFree
  cases u.isSeen with
  | false => simp
  | true => by_cases hn : u.ref.name ∈ u.noted <;> by_cases hb : u.ref.name ∈ u.bound <;> simp_all

theorem Module.map_ident_free (m : Module) : m.free.map Reference.ident = byPlace ((m.uses.filter Use.isFound).map (·.ref.ident)) := by
  have hsort := List.map_mergeSort (l := foundIn m.uses) (f := Reference.ident) (r := fun a b => decide (a.offset ≤ b.offset))
    (s := fun i j => decide (i.start ≤ j.start)) fun a _ b _ => rfl
  rw [m.free_eq, hsort, foundIn, List.map_map]
  rfl

theorem Module.pairwise_free (m : Module) (h : (m.uses.map (·.ref.offset)).Nodup) : m.free.Pairwise fun a b => a.offset < b.offset := by
  have hfound : ((foundIn m.uses).map (·.offset)).Nodup := by
    rw [foundIn, List.map_map]
    exact h.sublist (List.filter_sublist.map _)
  have hnodup : (m.free.map (·.offset)).Nodup := by
    rw [m.free_eq]
    exact ((List.mergeSort_perm _ _).map _).nodup_iff.2 hfound
  have hsorted : m.free.Pairwise fun a b => a.offset ≤ b.offset := by
    rw [m.free_eq]
    refine (List.pairwise_mergeSort ?_ ?_ (foundIn m.uses)).imp fun hle => by simpa using hle
    · intro a b c hab hbc
      simp only [decide_eq_true_eq] at hab hbc ⊢
      omega
    · intro a b
      simp only [Bool.or_eq_true, decide_eq_true_eq]
      omega
  exact (hsorted.and (List.pairwise_map.1 hnodup)).imp fun hab => Nat.lt_of_le_of_ne hab.1 hab.2

/-- The names that a walk finds free in a script are the uses that it looks at without having noted a declaration that binds them. If no
two uses stand in one place, each is found once, in the order of the text; and the names found are the free names just when the walk
passes over no free name and has noted, of the names that it looks at, exactly those that a scope around them binds. -/
theorem Module.free_unbound_iff (m : Module) :
    m.free = (foundIn m.uses).mergeSort (fun a b => a.offset ≤ b.offset) ∧
      ((m.uses.map (·.ref.offset)).Nodup →
        m.free.Pairwise (fun a b => a.offset < b.offset) ∧ (m.free.map Reference.ident = m.unbound ↔ ∀ u ∈ m.uses, u.IsJudged)) := by
  refine ⟨m.free_eq, fun h => ⟨m.pairwise_free h, ?_⟩⟩
  rw [m.map_ident_free, Module.unbound, Module.freeUses]
  constructor
  · intro heq u hu
    have hperm : ((m.uses.filter Use.isFound).map (·.ref.ident)).Perm ((m.uses.filter Use.isFree).map (·.ref.ident)) := by
      have hsorted := (byPlace_perm ((m.uses.filter Use.isFound).map (·.ref.ident))).symm
      rw [heq] at hsorted
      exact hsorted.trans (byPlace_perm _)
    have hmem (p : Use → Bool) : u.ref.ident ∈ (m.uses.filter p).map (·.ref.ident) ↔ p u = true := by
      constructor
      · intro hin
        obtain ⟨w, hw, hident⟩ := List.mem_map.1 hin
        obtain ⟨hw, hp⟩ := List.mem_filter.1 hw
        obtain rfl := List.inj_on_of_nodup_map h hw hu (congrArg Ident.start hident)
        exact hp
      · intro hp
        exact List.mem_map_of_mem (List.mem_filter.2 ⟨hu, hp⟩)
    rw [u.isJudged_iff, Bool.eq_iff_iff, ← hmem, ← hmem]
    exact hperm.mem_iff
  · intro hjudged
    rw [List.filter_congr fun u hu => u.isJudged_iff.1 (hjudged u hu)]

/-- A function that is called where it is declared, with a name from outside. -/
def declaredFirst : String := "function f() \x7b\x7d f(a)"

theorem free_unbound_declaredFirst :
    let m := Module.read declaredFirst "ts"
    m.free = [⟨"a", 18, false⟩] ∧ m.free.map Reference.ident = m.unbound := by
  intro m
  have hplaces : (m.uses.map (·.ref.offset)).Nodup := by decide +kernel
  have hjudged : ∀ u ∈ m.uses, u.IsJudged := by decide +kernel
  exact ⟨by decide +kernel, ((Module.free_unbound_iff m).2 hplaces).2.2 hjudged⟩

/-- The names that are found free in a text, and those that are free in it. -/
def freeIn (code : String) : List Ident × List Ident :=
  ((Module.read code "ts").free.map Reference.ident, (Module.read code "ts").unbound)

theorem freeIn_eq {code : String} {found free : List Ident} (hfound : (Module.read code "ts").free.map Reference.ident = found)
    (hfree : (Module.read code "ts").freeUses = free) (hplaces : free.Pairwise fun i j => i.start ≤ j.start) :
    freeIn code = (found, free) := by
  have hsorted : byPlace free = free := List.mergeSort_of_pairwise (by simpa using hplaces)
  rw [freeIn, hfound, Module.unbound, hfree, hsorted]

/-- A function that is called before its declaration is found free, though the declaration binds its name in the whole script. So are a
class behind its declaration, a named function within itself, and a variable behind the block that declares it for the body around. A name
behind the `switch` that declares it is not found though it is free, and neither is a name that a pattern assigns to. -/
theorem free_hoisted :
    freeIn "f(); function f() \x7b\x7d" = ([⟨"f", 0⟩], []) ∧
      freeIn "class A \x7b\x7d; new A()" = ([⟨"A", 16⟩], []) ∧
      freeIn "(function g() \x7b g() \x7d)" = ([⟨"g", 16⟩], []) ∧
      freeIn "\x7b var x = 1 \x7d x" = ([⟨"x", 14⟩], []) ∧
      freeIn "switch (a) \x7b case 1: let b; b \x7d b" = ([⟨"a", 8⟩], [⟨"a", 8⟩, ⟨"b", 32⟩]) ∧
      freeIn "[a] = b" = ([⟨"b", 6⟩], [⟨"a", 1⟩, ⟨"b", 6⟩]) := by
  refine ⟨?_, ?_, ?_, ?_, ?_, ?_⟩ <;> exact freeIn_eq (by decide +kernel) (by decide +kernel) (by decide)

end Script

end TypedSfc

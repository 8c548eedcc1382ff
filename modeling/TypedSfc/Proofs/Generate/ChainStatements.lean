import TypedSfc.Proofs.Generate.Nodes
import TypedSfc.Proofs.Generate.Shown
import TypedSfc.Proofs.Generate.Waiting
import TypedSfc.Proofs.Markup.Chains

/-!
# Chains as statements

A chain is written as one clause for each of its branches: the first is an `if`, and each other is an `else if` with its condition, or an
`else` without one. They make one `if` statement just when the first branch has a condition and only the last may have none.
-/

namespace TypedSfc

namespace Generate

open Markup (Branch Node chainsOf conditions isStatement isStatement_eq rawNodes soundAll statementsAll)

/-- A generator yields a text: it writes it, from some state on. -/
def Yields (r : Setting) (g : Gen Unit) (t : String) : Prop := ∃ s : State, (g.after r s).2.code.toText = s.code.toText ++ t

/-- A clause of a statement: its condition, if it has one, and what stands between its braces. -/
structure Clause where
  condition : Option String
  body : String
  deriving DecidableEq, Repr, Inhabited

namespace Clause

/-- The text of a clause. -/
def text (isFirst : Bool) (c : Clause) : String :=
  branchWord isFirst c.condition.isSome ++ c.condition.elim "" (· ++ " ") ++ "\x7b\n" ++ c.body ++ "\x7d\n"

/-- A clause is that of a branch: its condition and its body are what is written for those of the branch. -/
structure Of (r : Setting) (b : Branch) (c : Clause) : Prop where
  condition : Option.Rel (fun x t => Yields r (expression x.content x.offset "(" ")") t) b.condition c.condition
  body : Yields r (nodes b.children) c.body

theorem Of.isSome_condition {r : Setting} {b : Branch} {c : Clause} (h : c.Of r b) : b.condition.isSome = c.condition.isSome := by
  have hrel := h.condition
  generalize b.condition = x at hrel ⊢
  generalize c.condition = t at hrel ⊢
  cases hrel <;> rfl

end Clause

/-- The text of clauses, of which the first may be among them. -/
def clauses (isFirst : Bool) : List Clause → String
  | [] => ""
  | c :: cs => c.text isFirst ++ clauses false cs

/-- The clauses of an `if` statement: each has a condition and a body, and the `else`, if there is one, a body. -/
def statementClauses (first : String × String) (others : List (String × String)) (last : Option String) : List Clause :=
  (first :: others).map (fun c => ⟨some c.1, c.2⟩) ++ last.toList.map (⟨none, ·⟩)

/-- The text of an `if` statement. -/
def ifStatement (first : String × String) (others : List (String × String)) (last : Option String) : String :=
  ("if " ++ first.1 ++ " \x7b\n" ++ first.2 ++ "\x7d\n") ++
    String.join (others.map fun c => "else if " ++ c.1 ++ " \x7b\n" ++ c.2 ++ "\x7d\n") ++
    last.elim "" fun body => "else \x7b\n" ++ body ++ "\x7d\n"

theorem clauses_append (cs ds : List Clause) : clauses false (cs ++ ds) = clauses false cs ++ clauses false ds := by
  induction cs with
  | nil => exact String.empty_append.symm
  | cons c cs ih => rw [List.cons_append, clauses, ih, clauses, String.append_assoc]

/-- The clauses of an `if` statement are its text. -/
theorem clauses_statementClauses (first : String × String) (others : List (String × String)) (last : Option String) :
    clauses true (statementClauses first others last) = ifStatement first others last := by
  have hothers : clauses false (others.map fun c => ⟨some c.1, c.2⟩) =
      String.join (others.map fun c => "else if " ++ c.1 ++ " \x7b\n" ++ c.2 ++ "\x7d\n") := by
    induction others with
    | nil => rfl
    | cons c cs ih =>
      rw [List.map_cons, clauses, ih, List.map_cons, String.join_cons]
      simp [Clause.text, branchWord, String.append_assoc]
  have hlast : clauses false (last.toList.map (⟨none, ·⟩)) = last.elim "" fun body => "else \x7b\n" ++ body ++ "\x7d\n" := by
    cases last with
    | none => rfl
    | some body => simp [clauses, Clause.text, branchWord, String.append_assoc]
  rw [statementClauses, List.map_cons, List.cons_append, clauses, clauses_append, hothers, hlast, ifStatement]
  simp [Clause.text, branchWord, String.append_assoc]

theorem exists_others {cs : List Clause} (h : cs.all (·.condition.isSome) = true) :
    ∃ others : List (String × String), cs = others.map fun c => ⟨some c.1, c.2⟩ := by
  induction cs with
  | nil => exact ⟨[], rfl⟩
  | cons c cs ih =>
    rw [List.all_cons, Bool.and_eq_true] at h
    obtain ⟨t, ht⟩ := Option.isSome_iff_exists.1 h.1
    obtain ⟨others, rfl⟩ := ih h.2
    exact ⟨(t, c.body) :: others, by rw [List.map_cons, ← ht]⟩

/-- Clauses are those of an `if` statement just when their conditions are. -/
theorem isStatement_clauses (cs : List Clause) :
    isStatement (cs.map (·.condition)) = true ↔ ∃ first others last, cs = statementClauses first others last := by
  constructor
  · intro h
    rcases List.eq_nil_or_concat cs with rfl | ⟨init, l, rfl⟩
    · cases h
    · rw [List.concat_eq_append, List.map_append, isStatement, List.map_singleton, List.dropLast_concat, Bool.and_eq_true,
        List.all_map] at h
      obtain ⟨hfirst, hinit⟩ := h
      obtain ⟨others, rfl⟩ := exists_others hinit
      cases others with
      | nil =>
        obtain ⟨t, ht⟩ := Option.isSome_iff_exists.1 (show l.condition.isSome = true from hfirst)
        exact ⟨(t, l.body), [], none, by simp [statementClauses, ← ht]⟩
      | cons c others =>
        cases hl : l.condition with
        | some t => exact ⟨c, others ++ [(t, l.body)], none, by simp [statementClauses, ← hl]⟩
        | none => exact ⟨c, others, some l.body, by simp [statementClauses, ← hl]⟩
  · rintro ⟨first, others, last, rfl⟩
    have hall : (((first :: others).map fun c => (⟨some c.1, c.2⟩ : Clause)).map (·.condition)).all (·.isSome) = true := by simp
    cases last with
    | none =>
      rw [statementClauses, Option.toList_none, List.map_nil, List.append_nil, isStatement, Bool.and_eq_true]
      exact ⟨rfl, List.all_eq_true.2 fun c hc => List.all_eq_true.1 hall c (List.dropLast_subset _ hc)⟩
    | some body =>
      rw [statementClauses, Option.toList_some, List.map_singleton, List.map_append, List.map_singleton, isStatement,
        List.dropLast_concat, hall]
      rfl

/-! ## Branches -/

section

variable {r : Setting}

theorem toText_after_text (t : String) (r : Setting) (s : State) : ((text t).after r s).2.code.toText = s.code.toText ++ t :=
  Code.toText_text s.code t

/-- Nodes write something behind what is there. -/
theorem exists_toText_after_nodes (ns : List Node) (r : Setting) (s : State) :
    ∃ t, ((nodes ns).after r s).2.code.toText = s.code.toText ++ t := by
  obtain ⟨ss, hss, -⟩ := keeps_nodes (n := 0) ns r s (.nil _ _)
  exact Code.exists_toText ⟨ss, hss.symm⟩

/-- A condition is written behind what is there, and a blank behind it. -/
theorem exists_toText_after_condition (x : Markup.Expression) (r : Setting) (s : State) :
    ∃ t, Yields r (expression x.content x.offset "(" ")") t ∧
      ((condition x).after r s).2.code.toText = s.code.toText ++ (t ++ " ") := by
  let inner := ((expression x.content x.offset "(" ")").after r { s with code := s.code.continueFrom }).2.code
  refine ⟨inner.toText, ⟨{ s with code := s.code.continueFrom }, String.empty_append.symm⟩, ?_⟩
  show (((s.code.absorbTokens inner).append inner).text " ").toText = _
  rw [Code.toText_text, Code.toText_append, String.append_assoc]
  rfl

/-- A branch writes its word, its condition, and its nodes between braces. -/
theorem code_after_branch (isFirst : Bool) (x : Option Markup.Expression) (inner : Gen Unit) (r : Setting) (s : State) :
    let word := ((text (branchWord isFirst x.isSome)).after r s).2
    let opened := ((text "\x7b\n").after r (x.elim word fun x => ((condition x).after r word).2)).2
    ((branch isFirst x inner).after r s).2.code = ((text "\x7d\n").after r (inner.after r opened).2).2.code := by
  cases x <;> rfl

/-- A branch is written as a clause. -/
theorem exists_clause (isFirst : Bool) (b : Branch) (r : Setting) (s : State) :
    ∃ c : Clause, c.Of r b ∧
      ((branch isFirst b.condition (nodes b.children)).after r s).2.code.toText = s.code.toText ++ c.text isFirst := by
  have hbranch := code_after_branch isFirst b.condition (nodes b.children) r s
  have hword := toText_after_text (branchWord isFirst b.condition.isSome) r s
  dsimp only at hbranch
  rw [hbranch, toText_after_text]
  -- What stands between the braces, whatever state is behind the condition.
  have hbody : ∀ s' : State, ∃ body, Yields r (nodes b.children) body ∧
      ((nodes b.children).after r ((text "\x7b\n").after r s').2).2.code.toText = s'.code.toText ++ "\x7b\n" ++ body := by
    intro s'
    obtain ⟨body, hbody⟩ := exists_toText_after_nodes b.children r ((text "\x7b\n").after r s').2
    exact ⟨body, ⟨_, hbody⟩, by rw [hbody, toText_after_text]⟩
  cases hx : b.condition with
  | some x =>
    rw [hx] at hword
    obtain ⟨t, hyields, ht⟩ := exists_toText_after_condition x r ((text (branchWord isFirst true)).after r s).2
    obtain ⟨body, hbelow, htext⟩ := hbody ((condition x).after r ((text (branchWord isFirst true)).after r s).2).2
    refine ⟨⟨some t, body⟩, ⟨hx ▸ .some hyields, hbelow⟩, ?_⟩
    simp only [Option.isSome_some] at hword
    simp only [Option.elim_some, Option.isSome_some, Clause.text, htext, ht, hword, String.append_assoc]
  | none =>
    rw [hx] at hword
    obtain ⟨body, hbelow, htext⟩ := hbody ((text (branchWord isFirst false)).after r s).2
    refine ⟨⟨none, body⟩, ⟨hx ▸ .none, hbelow⟩, ?_⟩
    simp only [Option.isSome_none] at hword
    simp only [Option.elim_none, Option.isSome_none, Clause.text, htext, hword, String.append_assoc, String.empty_append]

/-- The branches of a chain are written as clauses. -/
theorem exists_clauses (isFirst : Bool) (bs : List Branch) (r : Setting) (s : State) :
    ∃ cs : List Clause, List.Forall₂ (fun b c => Clause.Of r b c) bs cs ∧
      ((branches isFirst bs).after r s).2.code.toText = s.code.toText ++ clauses isFirst cs := by
  induction bs generalizing isFirst s with
  | nil => exact ⟨[], .nil, String.append_empty.symm⟩
  | cons b bs ih =>
    obtain ⟨span, x, children⟩ := b
    obtain ⟨c, hc, htext⟩ := exists_clause isFirst (.mk span x children) r s
    obtain ⟨cs, hcs, hrest⟩ := ih false ((branch isFirst x (nodes children)).after r s).2
    exact ⟨c :: cs, .cons hc hcs, hrest.trans (by rw [clauses, ← String.append_assoc, ← htext]; rfl)⟩

theorem isStatement_conditions {bs : List Branch} {cs : List Clause} (h : List.Forall₂ (fun b c => Clause.Of r b c) bs cs) :
    isStatement (conditions bs) = isStatement (cs.map (·.condition)) := by
  have hsome : (conditions bs).map (·.isSome) = (cs.map (·.condition)).map (·.isSome) := by
    rw [conditions, List.map_map, List.map_map]
    induction h with
    | nil => rfl
    | @cons b c bs cs hc hcs ih =>
      rw [List.map_cons, List.map_cons, ih]
      exact congrArg (· :: _) hc.isSome_condition
  rw [isStatement_eq, hsome, ← isStatement_eq]

/-- A chain is written as clauses, which are those of an `if` statement just when the conditions of the chain are. -/
theorem chain_statement (bs : List Branch) (r : Setting) (s : State) :
    ∃ cs : List Clause, List.Forall₂ (fun b c => Clause.Of r b c) bs cs ∧
      ((keepingGuards (branches true bs)).after r s).2.code.toText = s.code.toText ++ clauses true cs ∧
      (isStatement (conditions bs) = true ↔ ∃ first others last, clauses true cs = ifStatement first others last ∧
        cs = statementClauses first others last) := by
  obtain ⟨cs, hcs, htext⟩ := exists_clauses true bs r s
  refine ⟨cs, hcs, htext, ?_⟩
  rw [isStatement_conditions hcs, isStatement_clauses]
  constructor
  · rintro ⟨first, others, last, rfl⟩
    exact ⟨first, others, last, clauses_statementClauses first others last, rfl⟩
  · rintro ⟨first, others, last, -, h⟩
    exact ⟨first, others, last, h⟩

end

/-- The chains of a template are those of its raw siblings, and none is empty. Each is written as a clause for each of its branches, and
the clauses are those of an `if` statement just when its conditions are: those of every chain are just when the raw elements are sound. -/
theorem chains_written (source : String) :
    (chainsOf source).map conditions = statementsAll false (rawNodes source) ∧
      (∀ bs ∈ chainsOf source, bs ≠ []) ∧
      ((∀ bs ∈ chainsOf source, isStatement (conditions bs) = true) ↔ soundAll false (rawNodes source) = true) ∧
      ∀ bs ∈ chainsOf source, ∀ (r : Setting) (s : State), ∃ cs : List Clause, List.Forall₂ (fun b c => Clause.Of r b c) bs cs ∧
        ((keepingGuards (branches true bs)).after r s).2.code.toText = s.code.toText ++ clauses true cs ∧
        (isStatement (conditions bs) = true ↔ ∃ first others last, clauses true cs = ifStatement first others last ∧
          cs = statementClauses first others last) := by
  obtain ⟨hchains, hne, hsound⟩ := Markup.parseTemplate_chains source
  exact ⟨hchains, hne, hsound, fun bs _ => chain_statement bs⟩

/-- A chain of two branches, of which the first alone has a condition. -/
theorem chains_written_else :
    (chainsOf "<p v-if=\"a\"/><p v-else/>").map (fun bs => (conditions bs).map (·.map (·.content))) = [[some "a", none]] ∧
      ∀ bs ∈ chainsOf "<p v-if=\"a\"/><p v-else/>", isStatement (conditions bs) = true := by
  refine ⟨by decide +kernel, ?_⟩
  have hwritten := chains_written "<p v-if=\"a\"/><p v-else/>"
  exact hwritten.2.2.1.2 (by decide +kernel)

/-- A chain goes on behind its `v-else`: its conditions are not those of a statement, which is no error, and two clauses without one are
written. -/
theorem not_isStatement_else_twice :
    let source := "<p v-if=\"a\"/><p v-else/><p v-else/>"
    ¬(∀ bs ∈ chainsOf source, isStatement (conditions bs) = true) ∧
      (chainsOf source).map (fun bs => (conditions bs).map (·.map (·.content))) = [[some "a", none, none]] ∧
      (Markup.parseTemplate source).2 = [] ∧
      (State.ofTemplate bareSetting source (some (Markup.parseTemplate source).1) {}).code.toText =
        "if (__VLS_ctx.a) \x7b\n__VLS_asFunctionalElement1(__VLS_intrinsics.p)(\x7b\n\x7d);\n\x7d\n" ++
        "else \x7b\n__VLS_asFunctionalElement1(__VLS_intrinsics.p)(\x7b\n\x7d);\n\x7d\n" ++
        "else \x7b\n__VLS_asFunctionalElement1(__VLS_intrinsics.p)(\x7b\n\x7d);\n\x7d\n" ++
        "type __VLS_RootEl =\n| __VLS_Elements[\"p\"];\n" := by
  decide +kernel

end Generate

end TypedSfc

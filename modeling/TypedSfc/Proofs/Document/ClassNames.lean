import Mathlib.Data.List.DropRight
import TypedSfc.Proofs.Document.Stylesheets

/-!
# Class names in a text

A class name stands in a text where a dot and a name begin and a character that ends the name follows. What stands on one side of a
character that separates names has its class names whatever stands on the other side, so that a text is searched part by part. The spans
that the search for classes answers are the places of all class names, in order.
-/

namespace TypedSfc

namespace Stylesheet

/-! ## Names in a text -/

/-- A class name with its dot: a letter or an underscore, and then characters of words and hyphens. -/
def IsClassName (t : List Char) : Prop :=
  ∃ c cs, t = '.' :: c :: cs ∧ (c.isAlpha = true ∨ c = '_') ∧ ∀ d ∈ cs, isWord d = true ∨ d = '-'

/-- A class name stands at a position of a text, and what follows it ends it. -/
def NamesClass (cs : List Char) (n : Nat) (t : List Char) : Prop :=
  IsClassName t ∧ ∃ d more, endsClass d = true ∧ Text.Rest cs n (t ++ d :: more)

/-- A character that is in no class name. -/
def Separates (d : Char) : Prop := d ≠ '.' ∧ d ≠ '-' ∧ isWord d = false

theorem IsClassName.not_mem {t : List Char} (h : IsClassName t) {d : Char} (hd : Separates d) : d ∉ t := by
  obtain ⟨c, cs, rfl, hc, hcs⟩ := h
  obtain ⟨hdot, hhyphen, hword⟩ := hd
  intro hmem
  rcases List.mem_cons.1 hmem with rfl | hmem
  · exact hdot rfl
  rcases List.mem_cons.1 hmem with rfl | hmem
  · rw [isWord_of_letter hc] at hword
    cases hword
  · rcases hcs d hmem with h | h
    · rw [h] at hword
      cases hword
    · exact hhyphen h

theorem IsClassName.ne_nil {t : List Char} (h : IsClassName t) : t ≠ [] := by
  obtain ⟨c, cs, rfl, -⟩ := h
  exact List.cons_ne_nil _ _

/-- The names behind a beginning of a text are names of the text. -/
theorem NamesClass.append_left {bs t : List Char} {k : Nat} (h : NamesClass bs k t) (as : List Char) :
    NamesClass (as ++ bs) (Text.size as + k) t := by
  obtain ⟨hname, d, more, hd, before, rfl, rfl⟩ := h
  exact ⟨hname, d, more, hd, as ++ before, (List.append_assoc ..).symm, Text.size_append ..⟩

/-- The names of a beginning of a text are names of the text. -/
theorem NamesClass.append_right {as t : List Char} {n : Nat} (h : NamesClass as n t) (bs : List Char) : NamesClass (as ++ bs) n t := by
  obtain ⟨hname, d, more, hd, before, rfl, rfl⟩ := h
  exact ⟨hname, d, more ++ bs, hd, before, by simp, rfl⟩

theorem NamesClass.standsAt {cs t : List Char} {n : Nat} (h : NamesClass cs n t) : Text.StandsAt cs n t := by
  obtain ⟨-, d, more, -, hrest⟩ := h
  exact hrest.standsAt

/-- A name is followed by something. -/
theorem NamesClass.lt_size {cs t : List Char} {n : Nat} (h : NamesClass cs n t) : n + Text.size t < Text.size cs := by
  obtain ⟨-, d, more, -, hrest⟩ := h
  have hsize := hrest.size_eq
  have hd := d.utf8Size_pos
  rw [Text.size_append, Text.size_cons] at hsize
  omega

/-- No name goes over a character that is in none, but the character may end the last name before it. -/
theorem namesClass_append_cons_iff {as bs t : List Char} {d : Char} {n : Nat} (hd : Separates d) : NamesClass (as ++ d :: bs) n t ↔
    NamesClass (as ++ [d]) n t ∨ ∃ k, n = Text.size (as ++ [d]) + k ∧ NamesClass bs k t := by
  have hsplit : as ++ d :: bs = (as ++ [d]) ++ bs := by simp
  constructor
  · rintro ⟨hname, e, more, he, before, heq, rfl⟩
    have hnot := hname.not_mem hd
    rw [← List.append_assoc] at heq
    rcases List.append_eq_append_iff.1 heq.symm with ⟨mid, hmid, hbehind⟩ | ⟨mid, hmid, hbehind⟩
    · -- The name ends before the character.
      refine .inl ⟨hname, e, ?_⟩
      cases mid with
      | nil =>
        obtain ⟨rfl, -⟩ := List.cons.inj hbehind
        exact ⟨[], he, before, by rw [hmid]; simp, rfl⟩
      | cons f mid =>
        obtain ⟨rfl, -⟩ := List.cons.inj hbehind
        exact ⟨mid ++ [d], he, before, by rw [hmid]; simp, rfl⟩
    · rcases List.append_eq_append_iff.1 hmid with ⟨own, rfl, ht⟩ | ⟨behind, rfl, rfl⟩
      · cases mid with
        | nil =>
          obtain ⟨rfl, -⟩ := List.cons.inj hbehind
          rw [List.append_nil] at ht
          exact .inl ⟨hname, d, [], he, before, by rw [ht]; simp, rfl⟩
        | cons f mid =>
          obtain ⟨rfl, -⟩ := List.cons.inj hbehind
          exact absurd (by rw [ht]; simp) hnot
      · -- The name begins behind what stands before the character.
        cases behind with
        | nil =>
          obtain ⟨c, cs, rfl, -⟩ := hname
          obtain ⟨rfl, -⟩ := List.cons.inj hbehind
          exact absurd rfl hd.1
        | cons f behind =>
          obtain ⟨rfl, rfl⟩ := List.cons.inj hbehind
          refine .inr ⟨Text.size behind, ?_, hname, e, more, he, behind, by simp, rfl⟩
          simp only [Text.size_append, Text.size_cons, Text.size_nil]
          omega
  · rintro (h | ⟨k, rfl, h⟩)
    · rw [hsplit]
      exact h.append_right bs
    · rw [hsplit]
      exact h.append_left _

theorem not_namesClass_nil (n : Nat) (t : List Char) : ¬NamesClass [] n t := by
  rintro ⟨-, d, more, -, before, heq, -⟩
  simp at heq

/-- A character that ends no name makes none. -/
theorem namesClass_concat_iff {as t : List Char} {d : Char} {n : Nat} (hd : endsClass d = false) :
    NamesClass (as ++ [d]) n t ↔ NamesClass as n t := by
  refine ⟨?_, fun h => h.append_right [d]⟩
  rintro ⟨hname, e, more, he, before, heq, rfl⟩
  rcases List.eq_nil_or_concat more with rfl | ⟨more, f, rfl⟩
  · rw [← List.append_assoc] at heq
    obtain ⟨-, hlast⟩ := List.append_inj' heq rfl
    obtain rfl : d = e := by simpa using hlast
    rw [he] at hd
    cases hd
  · have hlast : as ++ [d] = (before ++ (t ++ e :: more)) ++ [f] := by rw [heq]; simp
    obtain ⟨rfl, -⟩ := List.append_inj' hlast rfl
    exact ⟨hname, e, more, he, before, rfl, rfl⟩

/-- Characters that are in no name have none among them. -/
theorem namesClass_separated_iff {as bs t : List Char} {n : Nat} (has : ∀ d ∈ as, Separates d) :
    NamesClass (as ++ bs) n t ↔ ∃ k, n = Text.size as + k ∧ NamesClass bs k t := by
  refine ⟨fun h => ?_, fun ⟨k, hn, h⟩ => hn ▸ h.append_left as⟩
  induction as generalizing n with
  | nil => exact ⟨n, by simp, h⟩
  | cons d as ih =>
    obtain ⟨hd, has⟩ := List.forall_mem_cons.1 has
    have h : NamesClass ([] ++ d :: (as ++ bs)) n t := h
    rcases (namesClass_append_cons_iff hd).1 h with ⟨hname, e, more, -, hrest⟩ | ⟨k, rfl, hk⟩
    · obtain ⟨c, cs, rfl, -⟩ := hname
      obtain ⟨before, heq, -⟩ := hrest
      have hlength := congrArg List.length heq
      simp only [List.nil_append, List.length_append, List.length_cons, List.length_nil] at hlength
      omega
    · obtain ⟨k', rfl, hk'⟩ := ih has hk
      exact ⟨k', by simp [Nat.add_assoc], hk'⟩

/-! ## The search -/

/-- The characters of a class name behind its first letter. -/
def isName (c : Char) : Bool := isWord c || c == '-'

theorem isName_eq_false_of_endsClass {d : Char} (hd : endsClass d = true) : isName d = false := by
  simp only [endsClass, Text.isAsciiBlank, Bool.or_eq_true, beq_iff_eq] at hd
  rcases hd with ((((((((((((((rfl | rfl) | rfl) | rfl) | rfl) | rfl) | rfl) | rfl) | rfl) | rfl) | rfl) | rfl) | rfl) | rfl) | rfl) <;>
    rfl

/-- A name is found where it starts. -/
def StartsClass (c : Char) (cs : List Char) : Prop :=
  c = '.' ∧ (cs.head?.any fun d => d.isAlpha || d == '_') = true ∧ (cs.dropWhile isName).head?.any endsClass = true

/-- A name stands at the start of a text, or behind its first character. -/
theorem namesClass_cons_iff {c : Char} {cs t : List Char} {n : Nat} : NamesClass (c :: cs) n t ↔
    (StartsClass c cs ∧ n = 0 ∧ t = '.' :: cs.takeWhile isName) ∨ ∃ k, n = c.utf8Size + k ∧ NamesClass cs k t := by
  constructor
  · rintro ⟨hname, d, more, hd, before, heq, rfl⟩
    cases before with
    | nil =>
      obtain ⟨e, es, rfl, he, hes⟩ := hname
      obtain ⟨rfl, rfl⟩ := List.cons.inj heq
      have hin : ∀ f ∈ e :: es, isName f = true := by
        refine List.forall_mem_cons.2 ⟨by simp [isName, isWord_of_letter he], fun f hf => ?_⟩
        simpa [isName] using hes f hf
      -- A name goes as far as its characters do, because what ends it is none of them.
      obtain ⟨htake, hdrop⟩ := takeWhile_append_cons hin (isName_eq_false_of_endsClass hd) more
      refine .inl ⟨⟨rfl, by simpa using he, ?_⟩, rfl, ?_⟩
      · show ((e :: es ++ d :: more).dropWhile isName).head?.any endsClass = true
        rw [hdrop]
        simpa using hd
      · show _ = '.' :: (e :: es ++ d :: more).takeWhile isName
        rw [htake]
    | cons b before =>
      obtain ⟨rfl, rfl⟩ := List.cons.inj heq
      exact .inr ⟨Text.size before, rfl, hname, d, more, hd, before, rfl, rfl⟩
  · rintro (⟨⟨rfl, hhead, hend⟩, rfl, rfl⟩ | ⟨k, rfl, h⟩)
    · cases cs with
      | nil => cases hhead
      | cons e es =>
        have he : e.isAlpha = true ∨ e = '_' := by simpa using hhead
        have hword : isName e = true := by simp [isName, isWord_of_letter he]
        rw [List.dropWhile_cons_of_pos hword] at hend
        rw [List.takeWhile_cons_of_pos hword]
        have hsplit := List.takeWhile_append_dropWhile (p := isName) (l := es)
        cases hdrop : es.dropWhile isName with
        | nil =>
          rw [hdrop] at hend
          cases hend
        | cons d more =>
          rw [hdrop] at hend hsplit
          refine ⟨⟨e, _, rfl, he, fun f hf => ?_⟩, d, more, by simpa using hend, [], ?_, rfl⟩
          · simpa [isName] using List.mem_takeWhile_imp hf
          · show '.' :: e :: es = '.' :: e :: (es.takeWhile isName ++ d :: more)
            rw [hsplit]
    · exact h.append_left [c]

/-- What is found are the names of the text. -/
theorem mem_classSpans_iff {pos : Nat} {cs : List Char} {s : Span} :
    s ∈ classSpans pos cs ↔ ∃ n t, NamesClass cs n t ∧ s = ⟨pos + n, pos + n + Text.size t⟩ := by
  induction cs generalizing pos with
  | nil =>
    refine iff_of_false List.not_mem_nil ?_
    rintro ⟨n, t, h, -⟩
    exact not_namesClass_nil n t h
  | cons c cs ih =>
    have hhere : s ∈ classSpans pos (c :: cs) ↔
        StartsClass c cs ∧ s = ⟨pos, pos + 1 + Text.size (cs.takeWhile isName)⟩ ∨ s ∈ classSpans (pos + c.utf8Size) cs := by
      have hname : (fun c => isWord c || c == '-') = isName := rfl
      rw [classSpans, hname]
      split
      · rename_i hstarts
        have hstarts : StartsClass c cs := by simpa [StartsClass, and_assoc] using hstarts
        simp [hstarts]
      · rename_i hstarts
        have hstarts : ¬StartsClass c cs := by simpa [StartsClass, and_assoc] using hstarts
        simp [hstarts]
    rw [hhere, ih]
    constructor
    · rintro (⟨hstarts, rfl⟩ | ⟨k, t, h, rfl⟩)
      · refine ⟨0, _, namesClass_cons_iff.2 (.inl ⟨hstarts, rfl, rfl⟩), ?_⟩
        rw [Nat.add_zero, Text.size_cons, Nat.add_assoc]
        rfl
      · exact ⟨c.utf8Size + k, t, namesClass_cons_iff.2 (.inr ⟨k, rfl, h⟩), by rw [Nat.add_assoc pos]⟩
    · rintro ⟨n, t, hname, rfl⟩
      rcases namesClass_cons_iff.1 hname with ⟨hstarts, rfl, rfl⟩ | ⟨k, rfl, h⟩
      · refine .inl ⟨hstarts, ?_⟩
        rw [Nat.add_zero, Text.size_cons, Nat.add_assoc]
        rfl
      · exact .inr ⟨k, t, h, by rw [← Nat.add_assoc pos]⟩

/-- What is found is found in order. -/
theorem pairwise_classSpans (pos : Nat) (cs : List Char) : (classSpans pos cs).Pairwise fun a b => a.start < b.start := by
  induction cs generalizing pos with
  | nil => exact .nil
  | cons c cs ih =>
    unfold classSpans
    extract_lets rest isName
    split
    · refine List.pairwise_cons.2 ⟨fun s hs => ?_, ih _⟩
      obtain ⟨n, t, -, rfl⟩ := mem_classSpans_iff.1 hs
      have hc := c.utf8Size_pos
      show pos < pos + c.utf8Size + n
      omega
    · exact ih _

end Stylesheet

end TypedSfc

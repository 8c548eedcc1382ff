import Mathlib.Data.List.Pairwise
import TypedSfc.Proofs.Markup.Endings
import TypedSfc.Proofs.Markup.Template

/-!
# Where the closing tag of an element is looked for

The tree does not keep where the name of a closing tag stands: it is told afterwards from the last marks of a closing tag in the element.
Those are the right ones when the element has a closing tag, and its name is then seen if it is written as in the opening tag. In an
element that was left unclosed they belong to something else, and are believed if the name follows.
-/

namespace TypedSfc

namespace Text

/-! ## Last occurrences -/

theorem begins_iff_prefix {w cs : List Char} : begins w cs = true ↔ w <+: cs :=
  begins_iff.trans (exists_congr fun _ => eq_comm)

theorem findLast_eq_none_iff {w cs : List Char} (hw : w ≠ []) : findLast w cs = none ↔ ¬w <:+: cs := by
  induction cs with
  | nil =>
    rw [findLast, if_neg (by simpa using hw)]
    simpa using hw
  | cons c cs ih =>
    rw [findLast, List.infix_cons_iff, not_or, ← ih, ← begins_iff_prefix]
    cases findLast w cs with
    | some n => simp
    | none => simp

/-- The last occurrence of a text is the one behind whose first character there is no other. -/
theorem findLast_eq_some_iff {w cs : List Char} {n : Nat} (hw : w ≠ []) :
    findLast w cs = some n ↔ ∃ before more, cs = before ++ (w ++ more) ∧ size before = n ∧ ¬w <:+: (w ++ more).tail := by
  induction cs generalizing n with
  | nil =>
    rw [findLast, if_neg (by simpa using hw)]
    constructor
    · intro h
      cases h
    · rintro ⟨before, more, h, -⟩
      exact absurd (List.append_eq_nil_iff.1 (List.append_eq_nil_iff.1 h.symm).2).1 hw
  | cons c cs ih =>
    rw [findLast]
    -- An occurrence in the rest is one further on.
    have hlater : ∀ {k : Nat}, findLast w cs = some k → ∃ before more, c :: cs = before ++ (w ++ more) ∧
        size before = c.utf8Size + k ∧ ¬w <:+: (w ++ more).tail := by
      intro k hk
      obtain ⟨before, more, rfl, rfl, hlast⟩ := ih.1 hk
      exact ⟨c :: before, more, rfl, rfl, hlast⟩
    constructor
    · intro h
      split at h
      · rename_i k hk
        obtain rfl := Option.some.inj h
        exact hlater hk
      · rename_i hnone
        split at h
        · rename_i hbegins
          obtain rfl := Option.some.inj h
          obtain ⟨more, hmore⟩ := begins_iff.1 hbegins
          refine ⟨[], more, hmore, rfl, ?_⟩
          rw [← hmore]
          exact (findLast_eq_none_iff hw).1 hnone
        · cases h
    · rintro ⟨before, more, heq, rfl, hlast⟩
      cases before with
      | nil =>
        have hnone : findLast w cs = none := by
          rw [findLast_eq_none_iff hw]
          rw [List.nil_append] at heq
          rwa [← heq] at hlast
        have hbegins : begins w (c :: cs) = true := begins_iff.2 ⟨more, heq⟩
        rw [hnone]
        simp [hbegins]
      | cons d before =>
        obtain ⟨rfl, rfl⟩ := List.cons.inj heq
        rw [ih.2 ⟨before, more, rfl, rfl, hlast⟩]
        rfl

end Text

namespace Markup

variable {source : List Char} {e : Element} {n : Nat}

/-! ## The last marks -/

/-- The last marks of a closing tag before a position, and what stands behind them. -/
structure IsLastMark (source : List Char) (stop close : Nat) (behind : List Char) : Prop where
  reads : (⟨close, stop⟩ : Span).Reads source ('<' :: '/' :: behind)
  last : ¬['<', '/'] <:+: behind

/-- The last marks before a position are those of the text up to it. -/
theorem isLastMark_iff {head more behind : List Char} {close stop : Nat} (hsource : source = head ++ more) (hstop : Text.size head = stop) :
    IsLastMark source stop close behind ↔ Text.Rest head close ('<' :: '/' :: behind) ∧ ¬['<', '/'] <:+: behind := by
  constructor
  · rintro ⟨⟨⟨more', before, heq, hbefore⟩, hsize⟩, hlast⟩
    refine ⟨⟨before, ?_, hbefore⟩, hlast⟩
    have hboth : head ++ more = (before ++ '<' :: '/' :: behind) ++ more' := by rw [← hsource, heq, List.append_assoc]
    have hsame : Text.size head = Text.size (before ++ '<' :: '/' :: behind) := by
      rw [hstop, Text.size_append, hbefore]
      exact hsize
    obtain ⟨mid, rfl, -⟩ := Text.exists_append_of_size_le hboth hsame.ge
    rw [Text.size_append] at hsame
    obtain rfl : mid = [] := Text.size_eq_zero.1 (by omega)
    exact List.append_nil _
  · rintro ⟨⟨before, rfl, rfl⟩, hlast⟩
    refine ⟨⟨⟨more, before, ?_, rfl⟩, ?_⟩, hlast⟩
    · rw [hsource, List.append_assoc]
    · rw [← hstop, Text.size_append]

theorem IsLastMark.after_eq {head more behind : List Char} {close stop : Nat} (h : IsLastMark source stop close behind)
    (hsource : source = head ++ more) (hstop : Text.size head = stop) : Text.after (close + 2) head = behind := by
  have hrest : Text.Rest head close (['<', '/'] ++ behind) := ((isLastMark_iff hsource hstop).1 h).1
  exact hrest.step.after_eq

theorem findLast_marks_iff {head more : List Char} {close stop : Nat} (hsource : source = head ++ more) (hstop : Text.size head = stop) :
    Text.findLast ['<', '/'] head = some close ↔ ∃ behind, IsLastMark source stop close behind := by
  rw [Text.findLast_eq_some_iff (by simp), exists_comm]
  refine exists_congr fun behind => ?_
  have htail : ¬['<', '/'] <:+: (['<', '/'] ++ behind).tail ↔ ¬['<', '/'] <:+: behind := by
    show ¬['<', '/'] <:+: '/' :: behind ↔ _
    rw [List.infix_cons_iff, List.cons_prefix_cons]
    simp
  rw [isLastMark_iff hsource hstop, Text.Rest, ← exists_and_right]
  refine exists_congr fun before => ?_
  rw [htail, and_assoc]
  rfl

/-- Of the last marks there are only one, with one text behind them. -/
theorem IsLastMark.unique {stop close close' : Nat} {behind behind' : List Char} (h : IsLastMark source stop close behind)
    (h' : IsLastMark source stop close' behind') : close = close' ∧ behind = behind' := by
  obtain ⟨more, hmore⟩ := h.reads.fits.stop
  obtain ⟨head, hsource, hstop⟩ := hmore
  have hfound := (findLast_marks_iff hsource hstop).2 ⟨behind, h⟩
  rw [(findLast_marks_iff hsource hstop).2 ⟨behind', h'⟩] at hfound
  obtain rfl := Option.some.inj hfound
  have hcons := h.reads.between_eq.symm.trans h'.reads.between_eq
  exact ⟨rfl, (List.cons.inj (List.cons.inj hcons).2).2⟩

/-- In an element the last marks of a closing tag are behind its opening tag, and its name follows them at a position. -/
def Element.MarksName (source : List Char) (e : Element) (n : Nat) : Prop :=
  ∃ close behind, IsLastMark source e.span.stop close behind ∧ e.startTagEnd ≤ close ∧ e.tag.toList <+: behind ∧ n = close + 2

/-- The name of the closing tag is told to stand where the last marks have it, unless the opening tag closes itself. -/
theorem Element.endTagOffset_eq_some_iff (hstop : Text.IsPlace source e.span.stop) :
    e.endTagOffset source = some n ↔ e.selfClosing = false ∧ e.MarksName source n := by
  obtain ⟨more, head, hsource, hsize⟩ := hstop
  have hslice : Text.slice 0 e.span.stop source = some head := by
    have hrest := Text.rest_zero (head ++ more)
    have heq := hrest.slice_eq
    rwa [Nat.zero_add, hsize, ← hsource] at heq
  unfold endTagOffset
  cases hself : e.selfClosing with
  | true => simp
  | false =>
    rw [hslice]
    simp only [Bool.false_eq_true, if_false, Option.bind_some, Option.bind_eq_some_iff, findLast_marks_iff hsource hsize, true_and]
    refine exists_congr fun close => ?_
    constructor
    · rintro ⟨⟨behind, hmark⟩, h⟩
      rw [hmark.after_eq hsource hsize, Option.ite_none_right_eq_some, Bool.and_eq_true, decide_eq_true_eq,
        Text.begins_iff_prefix] at h
      obtain ⟨⟨hle, hname⟩, heq⟩ := h
      exact ⟨behind, hmark, hle, hname, (Option.some.inj heq).symm⟩
    · rintro ⟨behind, hmark, hle, hname, rfl⟩
      rw [hmark.after_eq hsource hsize, Option.ite_none_right_eq_some, Bool.and_eq_true, decide_eq_true_eq,
        Text.begins_iff_prefix]
      exact ⟨⟨behind, hmark⟩, ⟨hle, hname⟩, rfl⟩

/-! ## The closing tags that were read -/

/-- Where the name stands in the closing tag of an element that ends so. -/
def Ending.nameOffset : Ending → Option Nat
  | .closed n => some n
  | .empty | .unclosed => none

/-- Where the name of the closing tag of an element that ends so is told to stand: where it does, if it is written as in the opening tag;
without a closing tag, where the last marks of another have it. -/
def Ending.Tells (source : List Char) (e : Element) (n : Nat) : Ending → Prop
  | .empty => False
  | .closed m => n = m ∧ Text.StandsAt source m e.tag.toList
  | .unclosed => e.MarksName source n

theorem size_marks (behind : List Char) : Text.size ('<' :: '/' :: behind) = 2 + Text.size behind :=
  Text.size_append ['<', '/'] behind

/-- What is told is right: the closing tag, if there is one, has the name as the opening tag has it, and without one the last marks name
nothing. -/
def Ending.IsTold (source : List Char) (e : Element) : Ending → Prop
  | .empty => True
  | .closed n => Text.StandsAt source n e.tag.toList
  | .unclosed => ∀ n, ¬e.MarksName source n

/-- The closing tag of an element begins with its last marks. -/
theorem Reader.SkipsTag.isLastMark {close stop : Nat} {mid rest : List Char} (h : Reader.SkipsTag source close stop mid rest) :
    IsLastMark source stop close mid := by
  refine ⟨⟨⟨rest, h.stands⟩, ?_⟩, fun hpart => h.notMem (hpart.subset List.mem_cons_self)⟩
  rw [h.stop_eq, Nat.add_assoc, size_marks]

/-- What is skipped of a closing tag begins with a name if the source does there. -/
theorem Reader.SkipsTag.prefix_iff {close stop : Nat} {mid rest name : List Char} (h : Reader.SkipsTag source close stop mid rest)
    (hname : ∀ c ∈ name, Token.isNameChar c = true) : name <+: mid ↔ Text.StandsAt source (close + 2) name := by
  have hmid : Text.Rest source (close + 2) (mid ++ rest) := by
    have hstands : Text.Rest source close (['<', '/'] ++ (mid ++ rest)) := h.stands
    exact hstands.step
  constructor
  · rintro ⟨more, rfl⟩
    rw [List.append_assoc] at hmid
    exact hmid.standsAt
  · rintro ⟨more, hmore⟩
    have hwhole := h.name_prefix
    rw [hmid.unique hmore, List.takeWhile_append_of_pos hname] at hwhole
    exact (List.prefix_append name _).trans hwhole

/-- Where the name of the closing tag is told to stand, by how the element ends. -/
theorem IsEnded.endTagOffset_iff {ending : Ending} (h : IsEnded source (e, ending)) :
    e.endTagOffset source = some n ↔ ending.Tells source e n := by
  rw [Element.endTagOffset_eq_some_iff h.content_fits.stop]
  cases h.ends with
  | empty hstop =>
    -- No marks lie between the end of the opening tag and itself.
    refine ⟨?_, False.elim⟩
    rintro ⟨-, close, behind, hmark, hle, -⟩
    have hreads := hmark.reads.2
    have hend : e.span.stop = e.startTagEnd := hstop
    have hbehind : e.startTagEnd ≤ close := hle
    dsimp only at hreads
    rw [size_marks] at hreads
    omega
  | @closed close mid rest hle hcloses hskips hfirst hself =>
    have hprefix := hskips.prefix_iff h.tag_name
    constructor
    · rintro ⟨-, close', behind, hmark, -, hname, rfl⟩
      obtain ⟨rfl, rfl⟩ := hmark.unique hskips.isLastMark
      exact ⟨rfl, hprefix.1 hname⟩
    · rintro ⟨rfl, hname⟩
      exact ⟨hself, close, mid, hskips.isLastMark, hle, hprefix.2 hname, rfl⟩
  | unclosed hself => exact and_iff_right hself

theorem IsEnded.endTagOffset_eq_iff {ending : Ending} (h : IsEnded source (e, ending)) :
    e.endTagOffset source = ending.nameOffset ↔ ending.IsTold source e := by
  have hnone : e.endTagOffset source = none ↔ ∀ n, ¬ending.Tells source e n := by
    rw [Option.eq_none_iff_forall_ne_some]
    exact forall_congr' fun n => not_congr h.endTagOffset_iff
  cases ending with
  | empty => exact iff_true_intro (hnone.2 fun n => id)
  | closed n => exact h.endTagOffset_iff.trans (and_iff_right rfl)
  | unclosed => exact hnone

/-! ## Templates -/

/-- An ending is about the places and the name of an element. -/
theorem IsEnded.withProps {ending : Ending} (h : IsEnded source (e, ending)) (props : List Property) :
    IsEnded source ({ e with props := props }, ending) := by
  refine ⟨h.start_lt, h.content_fits, h.tag_name, ?_⟩
  cases h.ends with
  | empty hstop => exact .empty hstop
  | closed hle hcloses hskips hfirst hself => exact .closed hle hcloses hskips hfirst hself
  | unclosed hself => exact .unclosed hself

/-- An element is one that was read, with an ending. -/
def HasEnding (source : String) (e : Element) (ending : Ending) : Prop :=
  IsEnded source.toList (e, ending) ∧ ∃ p ∈ endingsOf source, p.1.span = e.span ∧ p.2 = ending

theorem stable_hasEnding (source : String) : Element.Stable fun e => ∃ ending, HasEnding source e ending := by
  rintro e name d e' htake ⟨ending, hended, p, hp, hspan, hending⟩
  obtain ⟨-, rfl⟩ := Element.take_eq_some_iff.1 htake
  exact ⟨ending, hended.withProps _, p, hp, hspan, hending⟩

/-- The elements of a template are read in order, each with one ending. -/
theorem exists_hasEnding (source : String) : ∀ e ∈ nodeHeads (parseTemplate source).1.nodes, ∃ ending, HasEnding source e ending := by
  obtain ⟨pos, hended⟩ := exists_ended source
  have hread : ∀ e ∈ nodeHeads (Reader.nodes ((Reader.new source).size + 1) [] (Reader.new source)).1,
      ∃ ending, HasEnding source e ending := by
    rw [← Reader.map_fst_endings]
    intro e he
    obtain ⟨p, hp, rfl⟩ := List.mem_map.1 he
    exact ⟨p.2, hended.ended p hp, p, hp, rfl, rfl⟩
  exact Node.heads_fold (stable_hasEnding source) hread

/-- Elements that start at one place are one, so an element has one ending. -/
theorem HasEnding.unique {source : String} {ending ending' : Ending} (h : HasEnding source e ending) (h' : HasEnding source e ending') :
    ending = ending' := by
  obtain ⟨pos, hended⟩ := exists_ended source
  obtain ⟨-, p, hp, hspan, rfl⟩ := h
  obtain ⟨-, q, hq, hspan', rfl⟩ := h'
  have hstarts : (endingsOf source).Pairwise fun p q => p.1.span.start ≠ q.1.span.start := hended.inOrder.imp fun hlt => hlt.ne
  have hsymm : Std.Symm fun p q : Element × Ending => p.1.span.start ≠ q.1.span.start := ⟨fun _ _ h => h.symm⟩
  by_contra hne
  exact hstarts.forall hp hq (fun h => hne (congrArg Prod.snd h)) (by rw [hspan, hspan'])

/-- An element of a template has one ending, and the name of its closing tag is told to stand where the ending has it; that is right
exactly when the closing tag, if there is one, has the name as the opening tag has it, and when without one the last marks name nothing. -/
theorem endTagOffset_of_ending (source : String) : ∀ e ∈ nodeHeads (parseTemplate source).1.nodes,
    ∃ ending, HasEnding source e ending ∧ (∀ ending', HasEnding source e ending' → ending' = ending) ∧
      (∀ n, e.endTagOffset source.toList = some n ↔ ending.Tells source.toList e n) ∧
      (e.endTagOffset source.toList = ending.nameOffset ↔ ending.IsTold source.toList e) := by
  intro e he
  obtain ⟨ending, hending⟩ := exists_hasEnding source e he
  exact ⟨ending, hending, fun ending' h => h.unique hending, fun n => hending.1.endTagOffset_iff, hending.1.endTagOffset_eq_iff⟩

theorem endTagOffset_of_ending_unclosed : ∃ ending, HasEnding "<p><p></p>" ⟨⟨0, 10⟩, "p", .native, [], false, 3⟩ ending ∧
    (∀ ending', HasEnding "<p><p></p>" ⟨⟨0, 10⟩, "p", .native, [], false, 3⟩ ending' → ending' = ending) ∧
    (∀ n, (⟨⟨0, 10⟩, "p", .native, [], false, 3⟩ : Element).endTagOffset "<p><p></p>".toList = some n ↔
      ending.Tells "<p><p></p>".toList ⟨⟨0, 10⟩, "p", .native, [], false, 3⟩ n) ∧
    ((⟨⟨0, 10⟩, "p", .native, [], false, 3⟩ : Element).endTagOffset "<p><p></p>".toList = ending.nameOffset ↔
      ending.IsTold "<p><p></p>".toList ⟨⟨0, 10⟩, "p", .native, [], false, 3⟩) :=
  endTagOffset_of_ending "<p><p></p>" ⟨⟨0, 10⟩, "p", .native, [], false, 3⟩ (by decide +kernel)

/-- The first of two elements is left unclosed and ends behind the closing tag of the second, which is taken for its own. -/
theorem not_nameOffset_of_unclosed : ¬∀ e ∈ nodeHeads (parseTemplate "<p><p></p>").1.nodes, ∀ p ∈ endingsOf "<p><p></p>",
    p.1.span = e.span → e.endTagOffset "<p><p></p>".toList = p.2.nameOffset := by
  decide +kernel

end Markup

end TypedSfc

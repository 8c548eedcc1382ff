import TypedSfc.Markup.Tag
import TypedSfc.Proofs.Markup.Lexing
import TypedSfc.Proofs.Markup.OpeningTags

/-!
# Closing tags

A closing tag is its two marks and a whole name. A reader that stands at one reads that name, and what it skips of the tag holds no
further bracket. A search for the marks and a name among small letters finds the first place where the source has them, be the name
whole there or not.
-/

namespace TypedSfc

namespace Text

/-- A text is found where it stands, if not before. -/
theorem exists_find_le (w before more : List Char) : ∃ n, find w (before ++ (w ++ more)) = some n ∧ n ≤ size before := by
  induction before with
  | nil =>
    refine ⟨0, ?_, Nat.le_refl _⟩
    have hbegins : begins w ([] ++ (w ++ more)) = true := begins_iff.2 ⟨more, rfl⟩
    cases hcs : [] ++ (w ++ more) with
    | nil =>
      have hempty : w ++ more = [] := hcs
      rw [(List.append_eq_nil_iff.1 hempty).1]
      rfl
    | cons c cs =>
      rw [hcs] at hbegins
      rw [find, if_pos hbegins]
  | cons c before ih =>
    obtain ⟨n, hn, hle⟩ := ih
    rw [List.cons_append, find]
    split
    · exact ⟨0, rfl, Nat.zero_le _⟩
    · exact ⟨c.utf8Size + n, by rw [hn]; rfl, Nat.add_le_add_left hle c.utf8Size⟩

end Text

namespace Markup

/-! ## Names -/

/-- Letters are characters of names, and so is what lies between capitals and small letters. -/
theorem Token.isNameChar_of_between {c : Char} (hlo : 65 ≤ c.val.toNat) (hhi : c.val.toNat ≤ 122) : isNameChar c = true := by
  have hne : ∀ d : Char, d.val.toNat < 65 ∨ 122 < d.val.toNat → (c == d) = false := by
    intro d hd
    rw [beq_eq_false_iff_ne]
    rintro rfl
    omega
  simp only [isNameChar, isSkipped, Bool.not_eq_true', Bool.or_eq_false_iff]
  refine ⟨⟨⟨⟨⟨⟨⟨⟨⟨⟨⟨⟨?_, ?_⟩, ?_⟩, ?_⟩, ?_⟩, ?_⟩, ?_⟩, ?_⟩, ?_⟩, ?_⟩, ?_⟩, ?_⟩, ?_⟩ <;> exact hne _ (by decide)

/-- The size of a letter does not matter for whether it may stand in a name. -/
theorem Token.isNameChar_toLower (c : Char) : isNameChar c.toLower = isNameChar c := by
  rcases Text.toLower_eq_or c with h | ⟨hlo, hhi, hval⟩
  · rw [h]
  · rw [isNameChar_of_between (c := c) hlo (by omega), isNameChar_of_between (by omega) (by omega)]

theorem Tag.same_iff {tag tag' : String} : Tag.same tag tag' = true ↔ Text.lower tag.toList = Text.lower tag'.toList := beq_iff_eq

/-- A closing tag stands at a position: its marks and a whole name, which is the given one but for the size of its letters. -/
def ClosesAt (source : List Char) (tag : String) (pos : Nat) : Prop :=
  ∃ name more, Text.Rest source pos ('<' :: '/' :: (name ++ more)) ∧ (∀ c ∈ name, Token.isNameChar c = true) ∧
    (∀ c ∈ more.head?, Token.isNameChar c = false) ∧ Tag.same tag (String.ofList name) = true

variable {source : List Char} {tag : String} {pos : Nat}

/-- A name that is whole is all that the text has of it. -/
theorem takeWhile_name {name more : List Char} (hname : ∀ c ∈ name, Token.isNameChar c = true)
    (hmore : ∀ c ∈ more.head?, Token.isNameChar c = false) : (name ++ more).takeWhile Token.isNameChar = name := by
  rw [List.takeWhile_append_of_pos hname]
  cases more with
  | nil => simp
  | cons c more => simp [hmore c rfl]

/-- Behind the marks, a closing tag has all the characters that a name may have. -/
theorem closesAt_iff {more : List Char} (h : Text.Rest source pos ('<' :: '/' :: more)) :
    ClosesAt source tag pos ↔ Tag.same tag (String.ofList (more.takeWhile Token.isNameChar)) = true := by
  constructor
  · rintro ⟨name, behind, hrest, hname, hbehind, hsame⟩
    obtain rfl : more = name ++ behind := by simpa using h.unique hrest
    rw [takeWhile_name hname hbehind]
    exact hsame
  · intro hsame
    refine ⟨_, more.dropWhile Token.isNameChar, ?_, fun c hc => List.mem_takeWhile_imp hc, ?_, hsame⟩
    · rw [List.takeWhile_append_dropWhile]
      exact h
    · intro c hc
      have hnot := List.head?_dropWhile_not Token.isNameChar more
      rw [Option.mem_def.1 hc] at hnot
      exact hnot

/-! ## Searches -/

/-- Where there is a closing tag of a name, the search for it finds something, no later. -/
theorem ClosesAt.exists_find {cs : List Char} {p : Nat} (h : ClosesAt source tag p) (hrest : Text.Rest source pos cs) (hle : pos ≤ p) :
    ∃ n, Text.find ('<' :: '/' :: Text.lower tag.toList) (Text.lower cs) = some n ∧ pos + n ≤ p := by
  obtain ⟨name, more, hp, -, -, hsame⟩ := h
  obtain ⟨mid, rfl, rfl⟩ := hrest.split hp hle
  rw [Tag.same_iff, String.toList_ofList] at hsame
  have hlower : Text.lower (mid ++ '<' :: '/' :: (name ++ more)) =
      Text.lower mid ++ (('<' :: '/' :: Text.lower tag.toList) ++ Text.lower more) := by
    rw [hsame, Text.lower_append, Text.lower, Text.lower, List.map_cons, List.map_cons, List.map_append]
    rfl
  obtain ⟨n, hn, hfirst⟩ := Text.exists_find_le ('<' :: '/' :: Text.lower tag.toList) (Text.lower mid) (Text.lower more)
  rw [Text.size_lower] at hfirst
  exact ⟨n, hlower ▸ hn, Nat.add_le_add_left hfirst pos⟩

/-- The first place where a text has the marks and a name, but for the size of letters. No closing tag of the name comes before it, and
there is one at it when the name is whole. -/
theorem closesAt_of_find {cs : List Char} {n : Nat} (hrest : Text.Rest source pos cs)
    (htag : ∀ c ∈ tag.toList, Token.isNameChar c = true)
    (h : Text.find ('<' :: '/' :: Text.lower tag.toList) (Text.lower cs) = some n) :
    (∀ p, pos ≤ p → p < pos + n → ¬ClosesAt source tag p) ∧
      ∃ name more, Text.Rest source (pos + n) ('<' :: '/' :: (name ++ more)) ∧ Tag.same tag (String.ofList name) = true ∧
        (ClosesAt source tag (pos + n) ↔ ∀ c ∈ more.head?, Token.isNameChar c = false) := by
  constructor
  · intro p hle hlt hcloses
    obtain ⟨n', hn', hfirst⟩ := hcloses.exists_find hrest hle
    obtain rfl := Option.some.inj (h.symm.trans hn')
    omega
  · obtain ⟨before, behind, rfl, rfl, more', hbehind⟩ := Text.exists_of_find_lower h
    obtain ⟨behind, rfl, hslash⟩ := Text.exists_of_lower_cons (by decide) hbehind
    obtain ⟨behind, rfl, hname⟩ := Text.exists_of_lower_cons (by decide) hslash
    obtain ⟨name, more, rfl, hlower, -⟩ := List.map_eq_append_iff.1 hname
    have hsame : Tag.same tag (String.ofList name) = true := by
      rw [Tag.same_iff, String.toList_ofList]
      exact hlower.symm
    have hall : ∀ c ∈ name, Token.isNameChar c = true := by
      intro c hc
      have hmem : c.toLower ∈ Text.lower tag.toList := hlower ▸ List.mem_map_of_mem hc
      obtain ⟨d, hd, heq⟩ := List.mem_map.1 hmem
      rw [← Token.isNameChar_toLower, ← heq, Token.isNameChar_toLower]
      exact htag d hd
    refine ⟨name, more, hrest.step, hsame, ?_⟩
    rw [closesAt_iff hrest.step]
    constructor
    · intro hwhole c hc
      -- Were the name longer than this, it would be longer than the tag.
      by_contra hnot
      rw [Bool.not_eq_false] at hnot
      obtain ⟨rest, rfl⟩ := List.head?_eq_some_iff.1 hc
      have hlong := congrArg List.length ((Tag.same_iff.1 hsame).symm.trans (Tag.same_iff.1 hwhole))
      rw [String.toList_ofList, String.toList_ofList, List.takeWhile_append_of_pos hall, List.takeWhile_cons_of_pos hnot] at hlong
      simp [Text.lower] at hlong
    · intro hmore
      rw [takeWhile_name hall hmore]
      exact hsame

namespace Reader

variable {r : Reader}

/-- The name that is read at a closing tag is all that stands behind its marks and may be part of a name. -/
theorem closingName_eq {more : List Char} (h : r.Stands source pos) (hf : r.Faces source .angleSlash ['<', '/'] more) :
    r.closingName = String.ofList (more.takeWhile Token.isNameChar) := by
  have hadvance : r.advance.Stands source (r.start + 2) := h.advance hf
  have htokens : r.advance.tokens = Token.lexFrom (r.start + 2) 0 more := by
    rw [advance, hf.tokens_eq]
    rfl
  have hrest : Text.Rest source (r.start + 2) more := hf.rest.step
  have hfollows : r.nameFollows = (r.advance.current.kind == .name && r.advance.current.span.start == r.start + 2) := by
    rw [nameFollows, peek_one, hf.stop_eq]
    rfl
  have hclosing : r.closingName = if r.nameFollows then String.ofList (r.textOf r.advance.current) else "" := by
    rw [closingName, hf.kind_eq, peek_one]
    rfl
  rw [hclosing, hfollows]
  cases more with
  | nil =>
    have hcurrent : r.advance.current = ⟨.eof, Span.empty (r.start + 2)⟩ := current_of_tokens htokens
    rw [hcurrent]
    rfl
  | cons c cs =>
    cases hname : Token.isNameChar c with
    | true =>
      rw [Token.lexFrom_scan (Token.isSkipped_of_isNameChar hname), Token.scan_of_isNameChar hname] at htokens
      have htake : cs.take (cs.takeWhile Token.isNameChar).length = cs.takeWhile Token.isNameChar :=
        (List.prefix_iff_eq_take.1 (List.takeWhile_prefix _)).symm
      dsimp only at htokens
      rw [htake] at htokens
      have hcurrent := current_of_tokens htokens
      have htext : r.textOf r.advance.current = c :: cs.takeWhile Token.isNameChar := by
        rw [textOf, hcurrent, h.source_eq]
        have hwhole : Text.Rest source (r.start + 2) (c :: cs.takeWhile Token.isNameChar ++ cs.dropWhile Token.isNameChar) := by
          rw [List.cons_append, List.takeWhile_append_dropWhile]
          exact hrest
        exact hwhole.between_eq
      rw [htext, hcurrent, List.takeWhile_cons_of_pos hname]
      simp
    | false =>
      -- A name would have to begin right here.
      have hnone : (r.advance.current.kind == .name && r.advance.current.span.start == r.start + 2) = false := by
        by_contra hnot
        rw [Bool.not_eq_false, Bool.and_eq_true, beq_iff_eq, beq_iff_eq] at hnot
        obtain ⟨own, more, hown, -⟩ := hadvance.faces (by rw [show r.advance.kind = .name from hnot.1]; decide)
        have hwritten := hown.written
        rw [show r.advance.kind = .name from hnot.1] at hwritten
        obtain ⟨d, own, rfl⟩ := List.exists_cons_of_ne_nil hwritten.ne_nil
        have hstart := hown.rest
        rw [show r.advance.start = r.start + 2 from hnot.2] at hstart
        obtain rfl := (List.cons.inj (hrest.unique hstart)).1
        rw [hwritten.2 c List.mem_cons_self] at hname
        cases hname
      rw [hnone, List.takeWhile_cons_of_neg (by rw [hname]; exact Bool.false_ne_true)]
      rfl

/-- There is a closing tag of a name here when its name is the one that is read. -/
theorem Stands.closesAt_start (h : r.Stands source pos) (hk : r.kind = .angleSlash) :
    ClosesAt source tag r.start ↔ Tag.same tag r.closingName = true := by
  obtain ⟨more, hf, -⟩ := h.faces_closing hk
  have hrest : Text.Rest source r.start ('<' :: '/' :: more) := hf.rest
  rw [closesAt_iff hrest, closingName_eq h hf]

/-- What is skipped has the whole name. -/
theorem SkipsTag.name_prefix {start stop : Nat} {mid rest : List Char} (h : SkipsTag source start stop mid rest) :
    (mid ++ rest).takeWhile Token.isNameChar <+: mid := by
  rw [List.takeWhile_append]
  split
  · rename_i hall
    have hself : mid.takeWhile Token.isNameChar = mid := (List.takeWhile_prefix _).eq_of_length hall
    have hrest : rest.takeWhile Token.isNameChar = [] := by
      rcases h.ends with ⟨front, rfl⟩ | hhead
      · -- A bracket is no part of a name.
        have hbracket : Token.isNameChar '>' = true := by
          refine List.mem_takeWhile_imp (l := front ++ ['>']) ?_
          rw [hself]
          simp
        exact absurd hbracket (by decide)
      · cases rest with
        | nil => rfl
        | cons c rest =>
          obtain rfl := hhead c rfl
          exact List.takeWhile_cons_of_neg (by decide)
    exact ⟨[], by rw [hrest, List.append_nil, List.append_nil]⟩
  · exact List.takeWhile_prefix _

/-! ## Opening tags -/

/-- The name of an opening tag is one. -/
theorem isNameChar_of_mem_tag (h : r.Stands source pos) (ho : r.atTagOpen = true) :
    ∀ c ∈ r.startTag.1.tag.toList, Token.isNameChar c = true := by
  rw [atTagOpen, Bool.and_eq_true, Bool.and_eq_true, beq_iff_eq] at ho
  obtain ⟨⟨hk, hname⟩, -⟩ := ho
  obtain ⟨own, more, hf, -⟩ := h.faces (by rw [hk]; decide)
  rw [nameFollows, peek_one, Bool.and_eq_true, beq_iff_eq] at hname
  have hadvance := h.advance hf
  have hkind : r.advance.kind = .name := hname.1
  obtain ⟨own', more', hf', -⟩ := hadvance.faces (by rw [hkind]; decide)
  have htag : r.startTag.1.tag = String.ofList own' := by
    rw [← hf'.textOf_eq hadvance.source_eq]
    unfold startTag
    dsimp only
    split <;> rfl
  have hwritten := hf'.written
  rw [hkind] at hwritten
  rw [htag, String.toList_ofList]
  exact hwritten.2

end Reader

end Markup

end TypedSfc

import Mathlib.Logic.Relation
import TypedSfc.Proofs.Document.Extents
import TypedSfc.Proofs.Markup.Lexing
import TypedSfc.Proofs.Markup.Noting

/-!
# Tokens kept and tokens made afresh

The tokens that are left of a source from a byte on are those that the lexer makes of the source from there on. Bringing a reader to a
place keeps that, whether it drops tokens or makes them afresh; so does every step that a reader takes, and so do all ways of reading,
which are made of such steps.
-/

namespace TypedSfc

open Markup Relation

namespace Markup

/-- The tokens of a text are the same wherever the text stands, moved there. -/
theorem Token.lexFrom_add (delta pos skip : Nat) (cs : List Char) :
    lexFrom (pos + delta) skip cs = (lexFrom pos skip cs).map (·.shift delta) := by
  have hnext : ∀ c : Char, pos + delta + c.utf8Size = pos + c.utf8Size + delta := fun c => by omega
  fun_induction lexFrom pos skip cs with
  | case1 pos skip => simp [lexFrom_nil, shift, Span.shift, Span.empty]
  | case2 pos c cs skip ih => rw [lexFrom, hnext, ih fun d => by omega]
  | case3 pos c cs hc ih => rw [lexFrom, if_pos hc, hnext, ih fun d => by omega]
  | case4 pos c cs hc s ih =>
    rw [lexFrom, if_neg hc, hnext]
    dsimp only
    rw [ih fun d => by omega, List.map_cons, shift, Span.shift]
    simp only [Nat.add_right_comm]
    rfl

theorem Token.lexFrom_eq_shift (pos : Nat) (cs : List Char) : lexFrom pos 0 cs = (lex cs).map (·.shift pos) := by
  rw [lex, ← lexFrom_add, Nat.zero_add]

namespace Reader

variable {source : List Char} {pos : Nat} {r r' : Reader}

/-- The tokens that are left are those that the lexer makes of the source from byte `pos` on, moved there. -/
def LexedFrom (r : Reader) (pos : Nat) : Prop :=
  ∃ rest, Text.Rest r.source pos rest ∧ r.tokens = (Token.lex rest).map (·.shift pos)

theorem Stands.lexedFrom (h : r.Stands source pos) : r.LexedFrom pos := by
  obtain ⟨rest, hrest, htokens⟩ := h.tokens_eq
  exact ⟨rest, h.source_eq ▸ hrest, by rw [htokens, Token.lexFrom_eq_shift]⟩

/-- Faults aside, such a reader stands in its source. -/
theorem LexedFrom.exists_stands (h : r.LexedFrom pos) : ∃ es r', r = noted es r' ∧ r'.Stands r'.source pos := by
  obtain ⟨rest, hrest, htokens⟩ := h
  refine ⟨r.errors, { r with errors := [] }, by simp [noted], rfl, ⟨rest, hrest, ?_⟩, by simp⟩
  rw [Token.lexFrom_eq_shift]
  exact htokens

/-- Brought to a place that is not behind it, a reader has the tokens that the lexer makes from there on. -/
theorem LexedFrom.sync (h : r.LexedFrom pos) {offset : Nat} {rest : List Char} (hrest : Text.Rest r.source offset rest)
    (hle : pos ≤ offset) : (r.sync offset).tokens = (Token.lex rest).map (·.shift offset) := by
  obtain ⟨es, r, rfl, hstands⟩ := h.exists_stands
  obtain ⟨rest', hrest', htokens⟩ := (hstands.sync hrest.isPlace hle).tokens_eq
  rw [sync_noted, noted_tokens, htokens, Token.lexFrom_eq_shift, hrest'.unique hrest]

/-- Such tokens end with the end of the file, at the end of the source, and it is not among the others. -/
theorem LexedFrom.exists_eof (h : r.LexedFrom pos) :
    ∃ ts, r.tokens = ts ++ [⟨.eof, Span.empty r.size⟩] ∧ ∀ t ∈ ts, t.kind ≠ .eof := by
  obtain ⟨rest, hrest, htokens⟩ := h
  obtain ⟨ts, hts, htiles⟩ := Token.exists_tiles_lexFrom hrest
  exact ⟨ts, by rw [htokens, ← Token.lexFrom_eq_shift, hts]; rfl, fun t ht => (htiles.written t ht).1⟩

/-! ## Steps -/

/-- The steps of a reader: it notes faults, passes a token, or reads something from the source itself and is brought behind it. -/
inductive Step : Reader → Reader → Prop
  | notes (r : Reader) (es : List ParseError) : Step r { r with errors := es }
  | passes {r : Reader} (h : r.kind ≠ .eof) : Step r r.advance
  | comment {r : Reader} (h : r.kind = .commentOpen) : Step r r.comment.2.2
  | interpolation {r : Reader} (h : r.kind = .mustacheOpen) : Step r r.interpolation.2
  | text {r : Reader} (h : r.kind ≠ .eof) : Step r r.text.2
  | quotedValue {r : Reader} {quote : Char} (h : IsQuote r.kind quote) : Step r (r.quotedValue quote).2.2
  | bareValue {r : Reader} (h : r.kind ≠ .eof) : Step r r.bareValue.2.2
  /-- An opening tag and the content behind it that is no markup, up to the closing tag. -/
  | rawText {r : Reader} (h : r.atTagOpen = true) :
      Step r ((r.startTag.1.behind r.startTag.2).sync
        (r.startTag.1.stop + rawLength r.startTag.1.tag ((r.startTag.1.behind r.startTag.2).rest r.startTag.1.stop)))
  /-- An opening tag and the content of the block behind it, with its closing tag. -/
  | block {r : Reader} (h : r.atTagOpen = true) : Step r (Document.behindBlock r)

theorem extent_noted (es : List ParseError) (r : Reader) (t : StartTag) :
    Document.extent (r.noted es) t =
      ((Document.extent r t).1, (Document.extent r t).2.1, (Document.extent r t).2.2.noted es) := by
  unfold Document.extent
  simp only [noted_source, noted_size, sync_noted, skipClosingTag_noted, errorAt_noted]
  split
  · rfl
  · split <;> rfl

/-- Each step leaves the tokens that the lexer makes of the source from a place on, which is not before the last. -/
theorem Step.lexedFrom (hstep : Step r r') (h : r.LexedFrom pos) : ∃ pos', pos ≤ pos' ∧ r'.LexedFrom pos' := by
  -- Reading does not look at faults, so the reader may be taken to have noted none.
  obtain ⟨es, r, rfl, hstands⟩ := h.exists_stands
  cases hstep with
  | notes => exact ⟨pos, Nat.le_refl _, h⟩
  | passes hk =>
    obtain ⟨own, more, hf, hle⟩ := hstands.faces hk
    exact ⟨_, le_trans hle hf.start_lt.le, (hstands.advance hf).lexedFrom⟩
  | comment hk =>
    have hyields := yields_comment hstands hk
    rw [comment_noted]
    exact ⟨_, hyields.lt.le, hyields.stands.lexedFrom⟩
  | interpolation hk =>
    have hyields := yields_interpolation hstands hk
    rw [interpolation_noted]
    exact ⟨_, hyields.lt.le, hyields.stands.lexedFrom⟩
  | text hk =>
    have hyields := yields_text hstands hk
    rw [text_noted]
    exact ⟨_, hyields.lt.le, hyields.stands.lexedFrom⟩
  | quotedValue hq =>
    obtain ⟨-, -, hstands, hle⟩ := quotedValue_stands hstands hq
    rw [quotedValue_noted]
    exact ⟨_, hle, hstands.lexedFrom⟩
  | bareValue hk =>
    obtain ⟨-, -, hstands, hle⟩ := bareValue_stands hstands hk
    rw [bareValue_noted]
    exact ⟨_, hle, hstands.lexedFrom⟩
  | rawText ho =>
    have htag := takesTag hstands ho
    obtain ⟨-, hplace⟩ := rawText_siblings htag.behind
    have hle := le_trans htag.le_start htag.start_lt.le
    rw [startTag_noted, behind_noted, noted_rest, sync_noted]
    exact ⟨_, le_trans hle (Nat.le_add_right ..), (htag.behind.sync hplace (Nat.le_add_right ..)).lexedFrom⟩
  | block ho =>
    have hbehind := Document.behindBlock_stands hstands ho
    obtain ⟨-, hle, hlt⟩ := Document.blockHere_describes hstands ho
    unfold Document.behindBlock
    rw [startTag_noted, extent_noted]
    exact ⟨_, le_trans hle hlt.le, hbehind.lexedFrom⟩

/-- A run of steps leaves such tokens too. -/
theorem lexedFrom_of_steps (hsteps : ReflTransGen Step r r') (h : r.LexedFrom pos) : ∃ pos', pos ≤ pos' ∧ r'.LexedFrom pos' := by
  induction hsteps with
  | refl => exact ⟨pos, Nat.le_refl _, h⟩
  | tail _ hstep ih =>
    obtain ⟨mid, hmid, hlexed⟩ := ih
    obtain ⟨pos', hpos', hlexed'⟩ := hstep.lexedFrom hlexed
    exact ⟨pos', le_trans hmid hpos', hlexed'⟩

/-! ## Reading is made of steps -/

theorem steps_errorAt (r : Reader) (f : Fault) (s : Span) : ReflTransGen Step r (r.errorAt f s) := .single (.notes r _)

theorem steps_advance (h : r.kind ≠ .eof) : ReflTransGen Step r r.advance := .single (.passes h)

/-- Tokens that are dropped by their own look, and never the last, are passed one by one. -/
theorem steps_dropWhile {p : Token → Bool} (hp : ∀ t, t.kind = .eof → p t = false) (r : Reader) :
    ReflTransGen Step r { r with tokens := r.tokens.dropWhile p } := by
  obtain ⟨source, tokens, errors⟩ := r
  induction tokens with
  | nil => exact .refl
  | cons t ts ih =>
    by_cases ht : p t = true
    · have hk : t.kind ≠ .eof := fun hk => absurd ht (by rw [hp t hk]; exact Bool.false_ne_true)
      dsimp only
      rw [List.dropWhile_cons_of_pos ht]
      exact (steps_advance (r := ⟨source, t :: ts, errors⟩) hk).trans ih
    · dsimp only
      rw [List.dropWhile_cons_of_neg ht]

theorem steps_skipClosingTag (h : r.kind = .angleSlash) : ReflTransGen Step r r.skipClosingTag.2 := by
  have hdrop := steps_dropWhile (p := fun t => !endsClosingTag t.kind) (by
    intro t ht
    rw [ht]
    rfl) r.advance
  have hadvance := (steps_advance (by rw [h]; decide)).trans hdrop
  unfold skipClosingTag
  dsimp only
  split
  · rename_i hclose
    have hkind : ({ r.advance with tokens := r.advance.tokens.dropWhile fun t => !endsClosingTag t.kind } : Reader).kind = .close :=
      eq_of_beq hclose
    exact hadvance.trans (steps_advance (by rw [hkind]; decide))
  · exact hadvance

theorem steps_closingTag (r : Reader) (tag : String) (startTag : Span) : ReflTransGen Step r (r.closingTag tag startTag).2 := by
  unfold closingTag
  split
  · rename_i hclose
    rw [Bool.and_eq_true, beq_iff_eq] at hclose
    exact steps_skipClosingTag hclose.1
  · exact steps_errorAt r _ _

theorem steps_readAttribute (h : r.kind = .name) : ReflTransGen Step r r.readAttribute.2 := by
  have hname := steps_advance (r := r) (by rw [h]; decide)
  unfold readAttribute
  dsimp only
  split
  · rename_i hequals
    have hvalue := steps_dropWhile (p := fun t => t.kind == TokenKind.newline) (by
      intro t ht
      rw [ht]
      rfl) r.advance.advance
    have hbehind := (hname.trans (steps_advance (by rw [eq_of_beq hequals]; decide))).trans hvalue
    -- The reader behind the `=` and the line feeds after it.
    change ReflTransGen Step r { r.advance with tokens := r.advance.tokens.tail.dropWhile fun t => t.kind == TokenKind.newline } at hbehind
    generalize ({ r.advance with tokens := r.advance.tokens.tail.dropWhile fun t => t.kind == TokenKind.newline } : Reader) = r'
      at hbehind ⊢
    split
    · rename_i hq
      exact hbehind.tail (.quotedValue (.inl ⟨hq, rfl⟩))
    · rename_i hq
      exact hbehind.tail (.quotedValue (.inr ⟨hq, rfl⟩))
    · exact hbehind.trans (steps_errorAt r' _ _)
    · exact hbehind.trans (steps_errorAt r' _ _)
    · exact hbehind.trans (steps_errorAt r' _ _)
    · rename_i hne
      exact hbehind.tail (.bareValue hne)
  · exact hname

theorem steps_attributes (fuel : Nat) (r : Reader) : ReflTransGen Step r (attributes fuel r).2 := by
  induction fuel generalizing r with
  | zero => exact .refl
  | succ fuel ih =>
    rw [attributes]
    split
    · rename_i hk
      exact (steps_readAttribute hk).trans (ih _)
    · rename_i hk
      exact (steps_advance (by rw [hk]; decide)).trans (ih _)
    · rename_i hk
      exact (steps_advance (by rw [hk]; decide)).trans (ih _)
    · exact .refl
    · exact .refl
    · exact .refl
    · exact .refl
    · exact .refl
    · exact .refl
    · rename_i hk _ _ _
      exact ((steps_errorAt r _ _).trans (steps_advance hk)).trans (ih _)

theorem steps_startTag (h : r.atTagOpen = true) : ReflTransGen Step r r.startTag.2 := by
  rw [atTagOpen, Bool.and_eq_true, Bool.and_eq_true, beq_iff_eq, nameFollows, peek_one, Bool.and_eq_true, beq_iff_eq] at h
  have hname : r.advance.kind = .name := h.1.2.1
  have hattributes := ((steps_advance (by rw [h.1.1]; decide)).trans (steps_advance (by rw [hname]; decide))).trans
    (steps_attributes (r.advance.advance.size + 1) r.advance.advance)
  unfold startTag
  dsimp only
  split
  · rename_i hk
    exact hattributes.trans (steps_advance (by rw [hk]; decide))
  · rename_i hk
    exact hattributes.trans (steps_advance (by rw [hk]; decide))
  · exact hattributes.trans (steps_errorAt _ _ _)

theorem steps_nodes (fuel : Nat) (opened : List String) (r : Reader) : ReflTransGen Step r (nodes fuel opened r).2 := by
  induction fuel generalizing r opened with
  | zero => exact .refl
  | succ fuel ih =>
    rw [nodes]
    split
    · exact .refl
    · rename_i hk
      dsimp only
      split
      · exact .refl
      · exact ((steps_skipClosingTag hk).trans (steps_errorAt _ _ _)).trans (ih _ _)
    · rename_i hk
      exact (ReflTransGen.single (.comment hk)).trans (ih _ _)
    · rename_i hk
      exact (ReflTransGen.single (.interpolation hk)).trans (ih _ _)
    · rename_i hk _ _ _
      split
      · rename_i ho
        have hbehind := (steps_startTag ho).tail (.notes _ (r.startTag.2.errors ++ (properties r.startTag.1.attributes).2))
        dsimp only
        split
        · exact hbehind.trans (ih _ _)
        · split
          · exact ((ReflTransGen.single (.rawText ho)).trans (steps_closingTag _ _ _)).trans (ih _ _)
          · exact ((hbehind.trans (ih _ _)).trans (steps_closingTag _ _ _)).trans (ih _ _)
      · exact (ReflTransGen.single (.text hk)).trans (ih _ _)

end Reader

end Markup

namespace Document

open Reader (Step)

theorem steps_addBlock (d : Draft) (r : Reader) (t : Reader.StartTag) (b : Block) : ReflTransGen Step r (addBlock d r t b).2 := by
  have hduplicate : ∀ isSecond name, ReflTransGen Step r (duplicate r isSecond name t) := by
    intro isSecond name
    unfold duplicate
    split
    · exact Reader.steps_errorAt r _ _
    · exact .refl
  unfold addBlock
  dsimp only
  split
  · split <;> exact hduplicate _ _
  · split
    · split <;> exact hduplicate _ _
    · split <;> exact .refl

theorem steps_blocks (fuel : Nat) (d : Draft) (r : Reader) : ReflTransGen Step r (blocks fuel d r).2 := by
  induction fuel generalizing r d with
  | zero => exact .refl
  | succ fuel ih =>
    rw [blocks]
    split
    · exact .refl
    · rename_i hk
      exact (ReflTransGen.single (.comment hk)).trans (ih _ _)
    · rename_i hk
      exact ((Reader.steps_skipClosingTag hk).trans (Reader.steps_errorAt _ _ _)).trans (ih _ _)
    · rename_i hk _ _
      split
      · rename_i ho
        exact ((ReflTransGen.single (.block ho)).trans (steps_addBlock _ _ _ _)).trans (ih _ _)
      · exact (ReflTransGen.single (.text hk)).trans (ih _ _)

end Document

/-- Bringing a reader to a place is lexing afresh: where its tokens are those of its source from a byte on, they are those from any later
place on once it is brought there, the last of them the end of the file. Every step of a reader leaves such tokens; a new reader has them,
and so has every reader that is met on the way, since reading the nodes of a template and the blocks of a document is made of steps. -/
theorem Markup.Reader.sync_lexes_afresh :
    (∀ (r : Reader) (pos offset : Nat) (rest : List Char), r.LexedFrom pos → Text.Rest r.source offset rest → pos ≤ offset →
      (r.sync offset).tokens = (Token.lex rest).map (·.shift offset) ∧
        ∃ ts, (r.sync offset).tokens = ts ++ [⟨.eof, Span.empty r.size⟩] ∧ ∀ t ∈ ts, t.kind ≠ .eof) ∧
    (∀ (r r' : Reader) (pos : Nat), r.LexedFrom pos → Step r r' → ∃ pos', pos ≤ pos' ∧ r'.LexedFrom pos') ∧
    (∀ source : String, (Reader.new source).LexedFrom 0 ∧
      ∀ r, ReflTransGen Step (Reader.new source) r → ∃ pos, r.LexedFrom pos) ∧
    (∀ (fuel : Nat) (opened : List String) (r : Reader), ReflTransGen Step r (nodes fuel opened r).2) ∧
    ∀ (fuel : Nat) (d : Document.Draft) (r : Reader), ReflTransGen Step r (Document.blocks fuel d r).2 := by
  refine ⟨?_, fun r r' pos h hstep => hstep.lexedFrom h, ?_, steps_nodes, Document.steps_blocks⟩
  · intro r pos offset rest h hrest hle
    have htokens := h.sync hrest hle
    have hsource := r.source_sync offset
    obtain ⟨ts, hts, hkinds⟩ := LexedFrom.exists_eof (r := r.sync offset) ⟨rest, hsource.symm ▸ hrest, htokens⟩
    rw [Reader.size, hsource] at hts
    exact ⟨htokens, ts, hts, hkinds⟩
  · intro source
    have hnew := (Stands.new source).lexedFrom
    refine ⟨hnew, fun r hsteps => ?_⟩
    obtain ⟨pos, -, h⟩ := lexedFrom_of_steps hsteps hnew
    exact ⟨pos, h⟩

/-- Inside a name the tokens are made afresh, before one they are kept; and a text is read up to the end. -/
theorem Markup.Reader.sync_lexes_afresh_of_names :
    ((Reader.new "a bc").sync 3).tokens = [⟨.name, ⟨3, 4⟩⟩, ⟨.eof, ⟨4, 4⟩⟩] ∧
      ((Reader.new "a bc").sync 1).tokens = [⟨.name, ⟨2, 4⟩⟩, ⟨.eof, ⟨4, 4⟩⟩] ∧
      (∃ pos, 0 ≤ pos ∧ (Reader.new "a bc").text.2.LexedFrom pos) ∧ ∃ pos, (Reader.new "a bc").text.2.LexedFrom pos := by
  obtain ⟨hsync, hstep, hnew, -, -⟩ := sync_lexes_afresh
  have h : (Reader.new "a bc").LexedFrom 0 := (Stands.new "a bc").lexedFrom
  have htext : Step (Reader.new "a bc") (Reader.new "a bc").text.2 := .text (by decide)
  refine ⟨?_, ?_, hstep _ _ 0 h htext, (hnew "a bc").2 _ (.single htext)⟩
  · exact (hsync (Reader.new "a bc") 0 3 ['c'] h ⟨['a', ' ', 'b'], rfl, rfl⟩ (by decide)).1.trans (by decide)
  · exact (hsync (Reader.new "a bc") 0 1 [' ', 'b', 'c'] h ⟨['a'], rfl, rfl⟩ (by decide)).1.trans (by decide)

end TypedSfc

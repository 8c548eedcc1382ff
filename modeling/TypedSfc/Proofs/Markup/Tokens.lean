import Mathlib.Data.List.TakeWhile
import TypedSfc.Markup.Token
import TypedSfc.Proofs.Text.Places

/-!
# Tokens spell their source

A text is blanks, then either its end or a token, and behind the token the tokens are those of the rest of the text. So the tokens
that are left are always the tokens of what is left of the source, which is all that a reader has to keep.
-/

namespace TypedSfc

namespace Markup

namespace Token

open Text (size)

/-- How a token of a kind is written. The end of the file is no token of the text. -/
def Written : TokenKind → List Char → Prop
  | .commentOpen, t => t = ['<', '!', '-', '-']
  | .angleSlash, t => t = ['<', '/']
  | .angle, t => t = ['<']
  | .close, t => t = ['>']
  | .slashClose, t => t = ['/', '>']
  | .slash, t => t = ['/']
  | .equals, t => t = ['=']
  | .doubleQuote, t => t = ['\x22']
  | .singleQuote, t => t = ['\x27']
  | .mustacheOpen, t => t = ['{', '{']
  | .mustacheClose, t => t = ['}', '}']
  | .brace, t => t = ['{'] ∨ t = ['}']
  | .newline, t => t = ['\n']
  | .name, t => t ≠ [] ∧ ∀ c ∈ t, isNameChar c = true
  | .eof, _ => False

theorem Written.ne_nil {k : TokenKind} {t : List Char} (h : Written k t) : t ≠ [] := by
  rintro rfl
  cases k <;> simp [Written] at h

theorem Written.ne_eof {k : TokenKind} {t : List Char} (h : Written k t) : k ≠ .eof := by
  rintro rfl
  exact h

/-! ## One token -/

/-- What is scanned at a character that is no blank is written as a token of its kind is. -/
theorem written_scan {c : Char} (hc : isSkipped c = false) (cs : List Char) :
    Written (scan c cs).1 (c :: cs.take (scan c cs).2) := by
  unfold scan
  split
  · rename_i h
    obtain rfl := eq_of_beq h
    split <;> simp [Written]
  split
  · rename_i _ h
    obtain rfl := eq_of_beq h
    split <;> simp [Written]
  split
  · rename_i _ _ h
    obtain rfl := eq_of_beq h
    split <;> simp [Written]
  split
  · rename_i _ _ _ h
    obtain rfl := eq_of_beq h
    split <;> simp [Written]
  split
  · rename_i h
    obtain rfl := eq_of_beq h
    simp [Written]
  split
  · rename_i h
    obtain rfl := eq_of_beq h
    simp [Written]
  split
  · rename_i h
    obtain rfl := eq_of_beq h
    simp [Written]
  split
  · rename_i h
    obtain rfl := eq_of_beq h
    simp [Written]
  split
  · rename_i h
    obtain rfl := eq_of_beq h
    simp [Written]
  · -- None of the marks: the character belongs to a name, and so does all that is taken with it.
    have hname : isNameChar c = true := by simp_all [isNameChar]
    have htake : cs.take (cs.takeWhile isNameChar).length = cs.takeWhile isNameChar :=
      (List.prefix_iff_eq_take.1 (List.takeWhile_prefix _)).symm
    refine ⟨List.cons_ne_nil _ _, ?_⟩
    intro d hd
    rw [htake] at hd
    rcases List.mem_cons.1 hd with rfl | hd
    · exact hname
    · exact List.mem_takeWhile_imp hd

/-! ## The tokens of a text -/

theorem lexFrom_nil (pos n : Nat) : lexFrom pos n [] = [⟨.eof, Span.empty pos⟩] := by
  cases n <;> rfl

/-- Characters that belong to the token before are passed over. -/
theorem lexFrom_skip (pos n : Nat) (cs : List Char) :
    lexFrom pos n cs = lexFrom (pos + size (cs.take n)) 0 (cs.drop n) := by
  induction cs generalizing pos n with
  | nil => simp [lexFrom_nil]
  | cons c cs ih =>
    cases n with
    | zero => simp
    | succ n =>
      rw [lexFrom, ih, List.take_succ_cons, List.drop_succ_cons, Text.size_cons, Nat.add_assoc]

/-- A blank is passed over. -/
theorem lexFrom_blank {c : Char} (hc : isSkipped c = true) (pos : Nat) (cs : List Char) :
    lexFrom pos 0 (c :: cs) = lexFrom (pos + c.utf8Size) 0 cs := by
  rw [lexFrom, if_pos hc]

/-- Blanks are passed over. -/
theorem lexFrom_gap {gap : List Char} (hgap : ∀ c ∈ gap, isSkipped c = true) (pos : Nat) (cs : List Char) :
    lexFrom pos 0 (gap ++ cs) = lexFrom (pos + size gap) 0 cs := by
  induction gap generalizing pos with
  | nil => simp
  | cons c gap ih =>
    have hc : isSkipped c = true := hgap c (by simp)
    rw [List.cons_append, lexFrom_blank hc, ih (fun d hd => hgap d (by simp [hd])), Text.size_cons, Nat.add_assoc]

/-- At a character that is no blank there is the token that is scanned there, and behind it the tokens of the rest. -/
theorem lexFrom_scan {c : Char} (hc : isSkipped c = false) (pos : Nat) (cs : List Char) :
    lexFrom pos 0 (c :: cs) = ⟨(scan c cs).1, ⟨pos, pos + size (c :: cs.take (scan c cs).2)⟩⟩ ::
      lexFrom (pos + size (c :: cs.take (scan c cs).2)) 0 (cs.drop (scan c cs).2) := by
  have hblank : ¬isSkipped c = true := by rw [hc]; exact Bool.false_ne_true
  rw [lexFrom, if_neg hblank]
  dsimp only
  rw [lexFrom_skip (pos + c.utf8Size), Text.size_cons, Nat.add_assoc]

/-- At a character that is no blank there is a token, and behind it the tokens of the rest. -/
theorem lexFrom_token {c : Char} (hc : isSkipped c = false) (pos : Nat) (cs : List Char) :
    ∃ k own more, c :: cs = own ++ more ∧ Written k own ∧ k = (scan c cs).1 ∧
      lexFrom pos 0 (c :: cs) = ⟨k, ⟨pos, pos + size own⟩⟩ :: lexFrom (pos + size own) 0 more := by
  refine ⟨(scan c cs).1, c :: cs.take (scan c cs).2, cs.drop (scan c cs).2, ?_, written_scan hc cs, rfl, lexFrom_scan hc pos cs⟩
  rw [List.cons_append, List.take_append_drop]

/-- A text is blanks, and then its end or a character that is no blank. -/
theorem exists_gap (cs : List Char) :
    ∃ gap rest, cs = gap ++ rest ∧ (∀ c ∈ gap, isSkipped c = true) ∧ ∀ c rest', rest = c :: rest' → isSkipped c = false := by
  refine ⟨cs.takeWhile isSkipped, cs.dropWhile isSkipped, List.takeWhile_append_dropWhile.symm, ?_, ?_⟩
  · intro c hc
    exact List.mem_takeWhile_imp hc
  · intro c rest' hrest
    have := List.head?_dropWhile_not isSkipped cs
    rw [hrest] at this
    simpa using this

/-- Whether a token of the text ends at a place or before it. -/
def endsBy (offset : Nat) (t : Token) : Bool := t.kind != .eof && decide (t.span.stop ≤ offset)

theorem endsBy_mk {k : TokenKind} (hk : k ≠ .eof) (start stop offset : Nat) :
    endsBy offset ⟨k, ⟨start, stop⟩⟩ = true ↔ stop ≤ offset := by
  simp [endsBy, hk]

/-- The tokens that are left when those up to a place are dropped: the tokens from the place on, unless a token straddles it. -/
theorem dropWhile_lexFrom (mid more : List Char) (pos : Nat) :
    (lexFrom pos 0 (mid ++ more)).dropWhile (endsBy (pos + size mid)) = lexFrom (pos + size mid) 0 more ∨
      ∃ t ts, (lexFrom pos 0 (mid ++ more)).dropWhile (endsBy (pos + size mid)) = t :: ts ∧
        t.kind ≠ .eof ∧ t.span.start < pos + size mid := by
  -- The induction is on the length of what lies before the place: a blank or a token is taken off it.
  induction hlen : mid.length using Nat.strongRecOn generalizing mid pos with
  | _ len ih =>
    cases mid with
    | nil =>
      left
      obtain ⟨gap, rest, rfl, hgap, hrest⟩ := exists_gap more
      rw [List.nil_append, Text.size_nil, Nat.add_zero, lexFrom_gap hgap]
      cases rest with
      | nil => simp [lexFrom_nil, endsBy]
      | cons c cs =>
        obtain ⟨k, own, more, hown, hwritten, -, hlex⟩ := lexFrom_token (hrest c cs rfl) (pos + size gap) cs
        have hpos := Text.size_pos hwritten.ne_nil
        have hkeep : ¬endsBy pos ⟨k, ⟨pos + size gap, pos + size gap + size own⟩⟩ = true := by
          rw [endsBy_mk hwritten.ne_eof]
          omega
        rw [hlex, List.dropWhile_cons_of_neg hkeep]
    | cons c mid =>
      cases hc : isSkipped c with
      | true =>
        have hsize : pos + size (c :: mid) = pos + c.utf8Size + size mid := by rw [Text.size_cons]; omega
        rw [List.cons_append, lexFrom_blank hc, hsize]
        exact ih mid.length (by rw [← hlen]; simp) mid (pos + c.utf8Size) rfl
      | false =>
        obtain ⟨k, own, behind, hown, hwritten, -, hlex⟩ := lexFrom_token hc pos (mid ++ more)
        rw [List.cons_append, hlex]
        by_cases hstop : pos + size own ≤ pos + size (c :: mid)
        · -- The token ends before the place, so what lies before the place begins with it.
          have hwhole : (c :: mid) ++ more = own ++ behind := hown
          obtain ⟨mid', hmid, hbehind⟩ := Text.exists_append_of_size_le hwhole (by omega)
          have hshort : mid'.length < len := by
            have hlength := congrArg List.length hmid
            have hown : 0 < own.length := List.length_pos_iff.2 hwritten.ne_nil
            rw [List.length_append] at hlength
            omega
          have hplaces : pos + size (c :: mid) = pos + size own + size mid' := by rw [hmid, Text.size_append, Nat.add_assoc]
          rw [List.dropWhile_cons_of_pos ((endsBy_mk hwritten.ne_eof _ _ _).2 hstop), hbehind, hplaces]
          exact ih mid'.length hshort mid' (pos + size own) rfl
        · right
          have hkeep : ¬endsBy (pos + size (c :: mid)) ⟨k, ⟨pos, pos + size own⟩⟩ = true := by
            rw [endsBy_mk hwritten.ne_eof]
            exact hstop
          have hc := c.utf8Size_pos
          refine ⟨_, _, List.dropWhile_cons_of_neg hkeep, hwritten.ne_eof, ?_⟩
          show pos < pos + size (c :: mid)
          rw [Text.size_cons]
          omega

/-- Tokens that are dropped by their own look, and never the last, leave the tokens from a later place on: from one where no blank is, and
what lies before it are blanks and the texts of tokens that were dropped. -/
theorem exists_dropWhile_lexFrom {p : Token → Bool} (hp : ∀ t, t.kind = .eof → p t = false) (rest : List Char) (pos : Nat) :
    ∃ mid more, rest = mid ++ more ∧ (lexFrom pos 0 rest).dropWhile p = lexFrom (pos + size mid) 0 more ∧
      (∀ c ∈ more.head?, isSkipped c = false) ∧
      ∀ c ∈ mid, isSkipped c = true ∨ ∃ t own, p t = true ∧ Written t.kind own ∧ c ∈ own := by
  induction hlen : rest.length using Nat.strongRecOn generalizing rest pos with
  | _ len ih =>
    obtain ⟨gap, behind, rfl, hgap, hbehind⟩ := exists_gap rest
    rw [lexFrom_gap hgap]
    cases behind with
    | nil =>
      refine ⟨gap, [], rfl, ?_, by simp, fun c hc => .inl (hgap c hc)⟩
      rw [lexFrom_nil, List.dropWhile_cons_of_neg (by rw [hp _ rfl]; exact Bool.false_ne_true)]
    | cons c cs =>
      obtain ⟨k, own, more, hown, hwritten, -, hlex⟩ := lexFrom_token (hbehind c cs rfl) (pos + size gap) cs
      rw [hlex]
      by_cases hdrop : p ⟨k, ⟨pos + size gap, pos + size gap + size own⟩⟩ = true
      · have hshort : more.length < len := by
          have hlength := congrArg List.length hown
          have hpos : 0 < own.length := List.length_pos_iff.2 hwritten.ne_nil
          rw [List.length_append] at hlen hlength
          omega
        obtain ⟨mid, more', rfl, hmore, hhead, hmid⟩ := ih more.length hshort more (pos + size gap + size own) rfl
        refine ⟨gap ++ own ++ mid, more', by rw [hown]; simp, ?_, hhead, ?_⟩
        · rw [List.dropWhile_cons_of_pos hdrop, hmore]
          simp only [Text.size_append, Nat.add_assoc]
        · intro d hd
          rcases List.mem_append.1 hd with hd | hd
          · rcases List.mem_append.1 hd with hd | hd
            · exact .inl (hgap d hd)
            · exact .inr ⟨_, own, hdrop, hwritten, hd⟩
          · exact hmid d hd
      · refine ⟨gap, c :: cs, rfl, ?_, ?_, fun d hd => .inl (hgap d hd)⟩
        · rw [List.dropWhile_cons_of_neg hdrop, hlex]
        · rintro d hd
          obtain rfl := Option.some.inj hd
          exact hbehind c cs rfl

end Token

end Markup

end TypedSfc

import TypedSfc.Proofs.Text.Places
import TypedSfc.Text.Quoted

/-!
# String literals

What a string literal of a script denotes, as a reader in strict mode takes it: a sequence of UTF-16 units. Between the quotes a character
stands for itself, unless it is the quote, ends a line or is a backslash; behind a backslash there are escapes, which may denote one unit,
a character or nothing. A text without a backslash denotes itself if it denotes anything at all, and a text in which every unit is an
escape denotes those units between any quotes.
-/

namespace TypedSfc

namespace Text

/-! ## Escapes -/

/-- The number that a hexadecimal digit stands for. -/
def hexValue? (c : Char) : Option Nat :=
  if '0' ≤ c ∧ c ≤ '9' then some (c.toNat - 48)
  else if 'a' ≤ c ∧ c ≤ 'f' then some (c.toNat - 87)
  else if 'A' ≤ c ∧ c ≤ 'F' then some (c.toNat - 55)
  else none

/-- The number that hexadecimal digits stand for, behind those of `n`. -/
def hexNumber? (n : Nat) : List Char → Option Nat
  | [] => some n
  | c :: cs => (hexValue? c).bind fun d => hexNumber? (16 * n + d) cs

/-- The units of a code point. -/
def unitsOfCode (n : Nat) : List Nat := if n < 0x10000 then [n] else [0xd800 + (n - 0x10000) / 0x400, 0xdc00 + (n - 0x10000) % 0x400]

/-- The escapes of one letter, and what they denote. -/
def letterEscapes : List (Char × Nat) :=
  [('b', 8), ('t', 9), ('n', 10), ('v', 11), ('f', 12), ('r', 13), ('\x22', 34), ('\x27', 39), ('\\', 92)]

/-- Whether a character ends a line of a script. -/
def endsLine (c : Char) : Bool := c == '\n' || c == '\r' || c == '\u2028' || c == '\u2029'

/-- The code point between braces behind `\u`, and what follows. -/
def bracedEscape? (cs : List Char) : Option (List Nat × List Char) :=
  let digits := cs.takeWhile (· != '\x7d')
  match cs.dropWhile (· != '\x7d'), hexNumber? 0 digits with
  | _ :: rest, some n => if digits.isEmpty || decide (0x10ffff < n) then none else some (unitsOfCode n, rest)
  | _, _ => none

/-- What an escape denotes, from behind its backslash, and what follows it; none where no escape begins. The end of a line denotes
nothing, and a digit other than a lone zero is no escape. -/
def escape? : List Char → Option (List Nat × List Char)
  | [] => none
  | 'u' :: '\x7b' :: cs => bracedEscape? cs
  | 'u' :: a :: b :: c :: d :: cs => (hexNumber? 0 [a, b, c, d]).map fun n => ([n], cs)
  | 'x' :: a :: b :: cs => (hexNumber? 0 [a, b]).map fun n => ([n], cs)
  | '\r' :: '\n' :: cs => some ([], cs)
  | c :: cs =>
    match letterEscapes.lookup c with
    | some n => some ([n], cs)
    | none =>
      if endsLine c then some ([], cs)
      else if c == '0' && !cs.head?.any Char.isDigit then some ([0], cs)
      else if c.isDigit || c == 'u' || c == 'x' then none
      else some (unitsOf c, cs)

theorem length_bracedEscape? {cs rest : List Char} {us : List Nat} (h : bracedEscape? cs = some (us, rest)) : rest.length ≤ cs.length := by
  unfold bracedEscape? at h
  extract_lets digits at h
  have hle := (List.dropWhile_sublist (· != '\x7d') (l := cs)).length_le
  generalize cs.dropWhile (· != '\x7d') = behind at h hle
  split at h
  · split at h
    · cases h
    · obtain ⟨-, rfl⟩ := Prod.mk.inj (Option.some.inj h)
      rw [List.length_cons] at hle
      omega
  · cases h

/-- What follows an escape is no longer than what there was. -/
theorem length_escape? {cs rest : List Char} {us : List Nat} (h : escape? cs = some (us, rest)) : rest.length ≤ cs.length := by
  unfold escape? at h
  split at h
  · cases h
  · have hle := length_bracedEscape? h
    simp only [List.length_cons]
    omega
  · obtain ⟨n, -, heq⟩ := Option.map_eq_some_iff.1 h
    obtain ⟨-, rfl⟩ := Prod.mk.inj heq
    simp only [List.length_cons]
    omega
  · obtain ⟨n, -, heq⟩ := Option.map_eq_some_iff.1 h
    obtain ⟨-, rfl⟩ := Prod.mk.inj heq
    simp only [List.length_cons]
    omega
  · obtain ⟨-, rfl⟩ := Prod.mk.inj (Option.some.inj h)
    simp only [List.length_cons]
    omega
  · have hrest : ∀ {vs : List Nat}, some (vs, ‹List Char›) = some (us, rest) → rest.length ≤ (‹Char› :: ‹List Char›).length := by
      intro vs heq
      obtain ⟨-, rfl⟩ := Prod.mk.inj (Option.some.inj heq)
      exact Nat.le_succ _
    split at h
    · exact hrest h
    · split at h
      · exact hrest h
      · split at h
        · exact hrest h
        · split at h
          · cases h
          · exact hrest h

/-! ## Literals -/

/-- What the text between two quotes denotes; none where the quote or an end of a line stands in it by itself, or where a backslash begins
no escape. -/
def bodyUnits? (quote : Char) : List Char → Option (List Nat)
  | [] => some []
  | c :: cs =>
    if c == quote || c == '\n' || c == '\r' then none
    else if c == '\\' then
      match h : escape? cs with
      | some (us, rest) =>
        have : rest.length < cs.length + 1 := Nat.lt_succ_of_le (length_escape? h)
        (bodyUnits? quote rest).map (us ++ ·)
      | none => none
    else (bodyUnits? quote cs).map (unitsOf c ++ ·)
termination_by cs => cs.length

/-- What a text denotes that is one string literal, from its quote to its quote. -/
def literalUnits? : List Char → Option (List Nat)
  | [] => none
  | q :: cs => if (q == '\x22' || q == '\x27') && cs.getLast? == some q then bodyUnits? q cs.dropLast else none

variable {q : Char} {cs : List Char}

/-- A text without a backslash denotes itself, unless the quote or an end of a line stands in it. -/
theorem bodyUnits?_of_notMem (h : '\\' ∉ cs) :
    bodyUnits? q cs = if q ∈ cs ∨ '\n' ∈ cs ∨ '\r' ∈ cs then none else some (cs.flatMap unitsOf) := by
  induction cs with
  | nil => rw [bodyUnits?]; simp
  | cons c cs ih =>
    obtain ⟨hc, hcs⟩ := not_or.1 (mt List.mem_cons.2 h)
    rw [bodyUnits?, ih hcs]
    by_cases hends : c = q ∨ c = '\n' ∨ c = '\r'
    · have hmem : q ∈ c :: cs ∨ '\n' ∈ c :: cs ∨ '\r' ∈ c :: cs := by
        rcases hends with rfl | rfl | rfl <;> simp
      rw [if_pos hmem, if_pos (by simpa [or_assoc] using hends)]
    · obtain ⟨hq, hlf, hcr⟩ : q ≠ c ∧ '\n' ≠ c ∧ '\r' ≠ c := by
        rw [not_or, not_or] at hends
        exact ⟨Ne.symm hends.1, Ne.symm hends.2.1, Ne.symm hends.2.2⟩
      rw [if_neg (by simpa [or_assoc] using hends), if_neg (by simpa using Ne.symm hc)]
      simp only [List.mem_cons, hq, hlf, hcr, false_or]
      split
      · rfl
      · rfl

/-! ### Units as escapes -/

theorem hexValue?_hexDigit {n : Nat} (h : n < 16) : hexValue? (hexDigit n) = some n := by
  have hall : ∀ n < 16, hexValue? (hexDigit n) = some n := by decide
  exact hall n h

theorem hexDigit_ne_brace {n : Nat} (h : n < 16) : hexDigit n ≠ '\x7b' := by
  have hall : ∀ n < 16, hexDigit n ≠ '\x7b' := by decide
  exact hall n h

/-- A unit is what its escape denotes. -/
theorem escape?_unitEscape {n : Nat} (h : n < 0x10000) (cs : List Char) : escape? ((unitEscape n).tail ++ cs) = some ([n], cs) := by
  have hdigit : ∀ m, m % 16 < 16 := fun m => Nat.mod_lt m (by decide)
  have hnumber : hexNumber? 0 [hexDigit (n / 4096 % 16), hexDigit (n / 256 % 16), hexDigit (n / 16 % 16), hexDigit (n % 16)] = some n := by
    simp only [hexNumber?, hexValue?_hexDigit (hdigit _), Option.bind_some]
    congr 1
    omega
  show escape? ('u' :: hexDigit (n / 4096 % 16) :: _ :: _ :: _ :: cs) = _
  rw [escape?]
  · rw [hnumber]
    rfl
  · intro heq
    exact absurd heq (hexDigit_ne_brace (hdigit _))

theorem bodyUnits?_unitEscape {n : Nat} (h : n < 0x10000) (hq : q ≠ '\\') (cs : List Char) :
    bodyUnits? q (unitEscape n ++ cs) = (bodyUnits? q cs).map (n :: ·) := by
  have hescape := escape?_unitEscape h cs
  show bodyUnits? q ('\\' :: ((unitEscape n).tail ++ cs)) = _
  have hends : ('\\' == q || '\\' == '\n' || '\\' == '\r') = false := by
    simp [Ne.symm hq]
  rw [bodyUnits?, hends, if_neg Bool.false_ne_true, if_pos (beq_self_eq_true '\\')]
  split
  · rename_i us rest heq
    obtain ⟨rfl, rfl⟩ := Prod.mk.inj (Option.some.inj (heq.symm.trans hescape))
    rfl
  · rename_i heq
    rw [hescape] at heq
    cases heq

theorem lt_of_mem_unitsOf {c : Char} {n : Nat} (h : n ∈ unitsOf c) : n < 0x10000 := by
  have hvalid : c.toNat < 0x110000 := by
    rcases c.valid with hlt | ⟨-, hlt⟩
    · exact Nat.lt_trans hlt (by decide)
    · exact hlt
  unfold unitsOf at h
  dsimp only at h
  split at h
  · simp only [List.mem_singleton] at h
    omega
  · simp only [List.mem_cons, List.not_mem_nil, or_false] at h
    omega

/-- A text whose units are all written as escapes denotes those units, between any quotes. -/
theorem bodyUnits?_unicodeEscapes (hq : q ≠ '\\') (t : String) :
    bodyUnits? q (unicodeEscapes t).toList = some (t.toList.flatMap unitsOf) := by
  have hunits : ∀ ns : List Nat, (∀ n ∈ ns, n < 0x10000) → bodyUnits? q (ns.flatMap unitEscape) = some ns := by
    intro ns
    induction ns with
    | nil => exact fun _ => by rw [List.flatMap_nil, bodyUnits?]
    | cons n ns ih =>
      intro h
      rw [List.flatMap_cons, bodyUnits?_unitEscape (h n List.mem_cons_self) hq, ih fun m hm => h m (List.mem_cons_of_mem n hm)]
      rfl
  rw [unicodeEscapes, String.toList_ofList, ← List.flatMap_assoc]
  refine hunits _ fun n hn => ?_
  obtain ⟨c, -, hc⟩ := List.mem_flatMap.1 hn
  exact lt_of_mem_unitsOf hc

/-- A text between two equal quotes is a literal if what is between them is the inside of one. -/
theorem literalUnits?_quoted (hq : q = '\x22' ∨ q = '\x27') (cs : List Char) : literalUnits? (q :: (cs ++ [q])) = bodyUnits? q cs := by
  have hquote : ((q == '\x22' || q == '\x27') && (cs ++ [q]).getLast? == some q) = true := by
    rcases hq with rfl | rfl <;> simp
  rw [literalUnits?, if_pos hquote, List.dropLast_concat]

end Text

end TypedSfc

import TypedSfc.Proofs.Generate.SlotParameters

/-!
# Capitalized names

The name of a listener is capitalized before it is cut into parts at its hyphens. A letter may be shorter or longer in upper case, so
the parts behind the first one are further on or further back in the name than they are in its spelling, by as much as the first letter
has changed. No letter becomes a hyphen.
-/

namespace TypedSfc

namespace Text

/-! ## Upper case -/

theorem toNat_toUpper (c : Char) : (c.toUpper.toNat = c.toNat ∧ c.toUpper = c) ∨
    (97 ≤ c.toNat ∧ c.toNat ≤ 122 ∧ c.toUpper.toNat + 32 = c.toNat) := by
  unfold Char.toUpper
  split
  · rename_i h
    obtain ⟨hlo, hhi⟩ := h
    have hlo' : 97 ≤ c.val.toNat := hlo
    have hhi' : c.val.toNat ≤ 122 := hhi
    refine .inr ⟨hlo', hhi', ?_⟩
    show (c.val + ('A'.val - 'a'.val)).toNat + 32 = c.val.toNat
    rw [UInt32.toNat_add]
    have hdiff : ('A'.val - 'a'.val).toNat = 2 ^ 32 - 32 := by decide
    rw [hdiff]
    omega
  · exact .inl ⟨rfl, rfl⟩

/-- A letter of ASCII keeps its size in upper case. -/
theorem size_toUpper_of_lt {c : Char} (h : c.toNat < 0x80) : size (toUpper c) = c.utf8Size := by
  have hone : ∀ d : Char, d.toNat < 0x80 → d.utf8Size = 1 := fun d hd =>
    utf8Size_of_le (UInt32.le_iff_toNat_le.2 (Nat.le_of_lt_succ hd))
  have hupper : c.toUpper.toNat < 0x80 := by
    rcases toNat_toUpper c with ⟨heq, -⟩ | ⟨-, -, heq⟩ <;> omega
  rw [toUpper, if_pos h, size_cons, size_nil, hone c h, hone _ hupper]

theorem ofNat_ne_hyphen {n : Nat} (h : 45 < n) : Char.ofNat n ≠ '-' := by
  intro heq
  by_cases hvalid : n.isValidChar
  · have hcode : Char.ofNat n = Char.ofNatAux n hvalid := dif_pos hvalid
    have hnat : n = 45 := congrArg Char.toNat (hcode.symm.trans heq)
    omega
  · have hnull : Char.ofNat n = Char.ofNat 0 := dif_neg hvalid
    exact absurd (hnull.symm.trans heq) (by decide)

/-- Only a hyphen is one in upper case. -/
theorem hyphen_notMem_toUpper {c : Char} (h : c ≠ '-') : '-' ∉ toUpper c := by
  unfold toUpper
  split
  · intro hmem
    have heq := List.mem_singleton.1 hmem
    rcases toNat_toUpper c with ⟨-, hsame⟩ | ⟨hlo, hhi, hnat⟩
    · exact h (hsame ▸ heq.symm)
    · have hhyphen : c.toUpper.toNat = 45 := congrArg Char.toNat heq.symm
      omega
  · split
    · rename_i s hs
      have hspellings : ∀ s ∈ upperSpellings, '-' ∉ s.2.map Char.ofNat := by decide +kernel
      exact hspellings s (List.mem_of_find?_eq_some hs)
    · split
      · rename_i r hr
        have hmoves : ∀ r ∈ upperMoves, (45 : Int) < r.1 + r.2.2.2 := by decide +kernel
        have hmove := hmoves r (List.mem_of_find?_eq_some hr)
        have hrun := List.find?_some hr
        simp only [inRun, Bool.and_eq_true, decide_eq_true_eq] at hrun
        have hpos : 45 < Int.toNat (c.toNat + r.2.2.2) := by omega
        exact fun hmem => ofNat_ne_hyphen hpos (List.mem_singleton.1 hmem).symm
      · simpa using h.symm

theorem capitalize_of_cons {t : String} {c : Char} {cs : List Char} (h : t.toList = c :: cs) :
    capitalize t = String.ofList (toUpper c ++ cs) := by
  unfold capitalize
  rw [h]

/-- A name that begins with no hyphen keeps its first letter in camelCase. -/
theorem exists_camelize_cons {t : String} {c : Char} {cs : List Char} (h : t.toList = c :: cs) (hc : c ≠ '-') :
    ∃ rest, (camelize t).toList = c :: rest := by
  rw [camelize, String.toList_ofList, h]
  cases cs with
  | nil => exact ⟨[], rfl⟩
  | cons d cs => exact ⟨camelChars (d :: cs), by rw [camelChars, if_neg (by simp [hc])]⟩

/-- A letter of ASCII is one character in upper case. -/
theorem toUpper_of_isAlpha {c : Char} (h : c.isAlpha = true) : toUpper c = [c.toUpper] ∧ c.toUpper.utf8Size = c.utf8Size := by
  have hbelow {d : Char} (hd : d.toNat < 0x80) (hle : c.val ≤ d.val) : c.toNat < 0x80 :=
    Nat.lt_of_le_of_lt (UInt32.le_iff_toNat_le.1 hle) hd
  have hascii : c.toNat < 0x80 := by
    rcases Bool.or_eq_true_iff.1 h with h | h
    · exact hbelow (d := 'Z') (by decide) (of_decide_eq_true h).2
    · exact hbelow (d := 'z') (by decide) (of_decide_eq_true (Bool.and_eq_true_iff.1 h).2)
  have hupper : toUpper c = [c.toUpper] := if_pos hascii
  have hsize := size_toUpper_of_lt hascii
  rw [hupper] at hsize
  exact ⟨hupper, hsize⟩

end Text

namespace Code

/-! ## Parts -/

theorem hyphenParts_add (pos d : Nat) {part : List Char} (cs : List Char) (h : Text.size part ≤ pos) :
    hyphenParts (pos + d) part cs = (hyphenParts pos part cs).map fun p => (p.1 + d, p.2) := by
  induction cs generalizing pos part with
  | nil =>
    rw [hyphenParts, hyphenParts, Nat.sub_add_comm h]
    rfl
  | cons c cs ih =>
    rw [hyphenParts, hyphenParts, Nat.add_right_comm]
    split
    · rw [ih (pos + c.utf8Size) (Nat.zero_le _), Nat.sub_add_comm h]
      rfl
    · exact ih (pos + c.utf8Size) (by rw [Text.size_cons]; omega)

/-- The first part goes up to the first hyphen, and the others come behind it. -/
theorem hyphenParts_append {front : List Char} (hfront : '-' ∉ front) (pos : Nat) (part cs : List Char) :
    hyphenParts pos part (front ++ cs) = hyphenParts (pos + Text.size front) (front.reverse ++ part) cs := by
  induction front generalizing pos part with
  | nil => rfl
  | cons c front ih =>
    obtain ⟨hc, hfront⟩ := not_or.1 (mt List.mem_cons.2 hfront)
    rw [List.cons_append, hyphenParts, if_neg (by simpa using Ne.symm hc), ih hfront, Text.size_cons, List.reverse_cons, List.append_assoc,
      Nat.add_assoc]
    rfl

/-- A part behind a hyphen stands where it would be if the hyphen were where it is in the name. -/
theorem exists_of_mem_hyphenParts_behind {cs front rest : List Char} (hcs : cs = front ++ '-' :: rest) {n : Nat} {p : Nat × List Char}
    (hp : p ∈ hyphenParts (n + 1) [] rest) : ∃ k, Text.StandsAt cs k p.2 ∧ p.1 + Text.size front = k + n ∧ n < p.1 := by
  have hshift : hyphenParts (n + 1) [] rest = (hyphenParts 0 [] rest).map fun q => (q.1 + (n + 1), q.2) := by
    have hempty : Text.size [] ≤ 0 := Nat.le_refl 0
    rw [← hyphenParts_add 0 (n + 1) rest hempty, Nat.zero_add]
  rw [hshift] at hp
  obtain ⟨q, hq, rfl⟩ := List.mem_map.1 hp
  have hone : Text.size ('-' :: rest) = 1 + Text.size rest := Text.size_cons ..
  have hbehind : Text.StandsAt cs (Text.size (front ++ ['-'])) ([].reverse ++ rest) :=
    ⟨[], front ++ ['-'], by rw [hcs]; simp, rfl⟩
  have hpos : q.1 + (Text.size front + 1) = (Text.size front + 1) + q.1 := Nat.add_comm ..
  have hfront : Text.size (front ++ ['-']) = Text.size front + 1 := Text.size_append ..
  have hwhole : Text.StandsAt rest 0 ([].reverse ++ rest) := ⟨[], by simpa using Text.rest_zero rest⟩
  have hpart := standsAt_of_mem_hyphenParts hwhole rfl q hq
  refine ⟨Text.size front + 1 + q.1, ?_, by dsimp only; omega, by dsimp only; omega⟩
  rw [← hfront]
  exact hbehind.trans hpart

/-- A part of a name whose first letter was put in upper case is the first part of the name, with that letter, or stands in the name
behind a hyphen, further back by as much as the letter has grown. -/
theorem of_mem_hyphenParts_toUpper {c : Char} {cs : List Char} {q : Nat × List Char} (hq : q ∈ hyphenParts 0 [] (Text.toUpper c ++ cs))
    (hne : q.2 ≠ []) : (q.1 = 0 ∧ ∃ pre, Text.StandsAt (c :: cs) 0 (c :: pre) ∧ q.2 = Text.toUpper c ++ pre) ∨
      (0 < q.1 ∧ '-' ∈ c :: cs ∧ ∃ k, Text.StandsAt (c :: cs) k q.2 ∧
        q.1 + Text.size (c :: cs) = k + Text.size (Text.toUpper c ++ cs)) := by
  have hlater : ∀ {front rest : List Char} {n : Nat}, c :: cs = front ++ '-' :: rest → q ∈ hyphenParts (n + 1) [] rest →
      n + Text.size (c :: cs) = Text.size front + Text.size (Text.toUpper c ++ cs) →
        0 < q.1 ∧ '-' ∈ c :: cs ∧ ∃ k, Text.StandsAt (c :: cs) k q.2 ∧
          q.1 + Text.size (c :: cs) = k + Text.size (Text.toUpper c ++ cs) := by
    intro front rest n hcs hmem hn
    obtain ⟨k, hstands, hk, hpos⟩ := exists_of_mem_hyphenParts_behind hcs hmem
    exact ⟨by omega, by rw [hcs]; simp, k, hstands, by omega⟩
  by_cases hc : c = '-'
  · have hupper : Text.toUpper '-' = ['-'] := by decide
    subst hc
    rw [hupper] at hq hlater ⊢
    rcases List.mem_cons.1 hq with rfl | hq
    · exact absurd rfl hne
    · have hcs : '-' :: cs = [] ++ '-' :: cs := rfl
      exact .inr (hlater hcs hq rfl)
  · have hsplit := List.takeWhile_append_dropWhile (p := (· != '-')) (l := cs)
    have hpre : '-' ∉ cs.takeWhile (· != '-') := fun hmem => by simpa using List.mem_takeWhile_imp hmem
    have hfront : '-' ∉ Text.toUpper c ++ cs.takeWhile (· != '-') := by
      simpa using ⟨Text.hyphen_notMem_toUpper hc, by simpa using hpre⟩
    generalize cs.takeWhile (· != '-') = pre at hsplit hfront
    have hdrop : cs.dropWhile (· != '-') = [] ∨ ∃ rest, cs.dropWhile (· != '-') = '-' :: rest := by
      cases hbehind : cs.dropWhile (· != '-') with
      | nil => exact .inl rfl
      | cons d rest =>
        have hhead := List.head_dropWhile_not (· != '-') (by rw [hbehind]; exact List.cons_ne_nil d rest)
        have hd : d = '-' := by simpa [hbehind] using hhead
        exact .inr ⟨rest, by rw [hd]⟩
    generalize cs.dropWhile (· != '-') = behind at hsplit hdrop
    have hstands : Text.StandsAt (c :: cs) 0 (c :: pre) := ⟨behind, by rw [List.cons_append, hsplit]; exact Text.rest_zero _⟩
    have hfirst : ∀ pos, pos = Text.size (Text.toUpper c ++ pre) →
        q = (pos - Text.size ((Text.toUpper c ++ pre).reverse ++ []), ((Text.toUpper c ++ pre).reverse ++ []).reverse) →
          q.1 = 0 ∧ ∃ pre, Text.StandsAt (c :: cs) 0 (c :: pre) ∧ q.2 = Text.toUpper c ++ pre := by
      rintro pos rfl rfl
      rw [List.append_nil, Text.size_reverse, List.reverse_reverse]
      exact ⟨Nat.sub_self _, pre, hstands, rfl⟩
    rw [← hsplit, ← List.append_assoc, hyphenParts_append hfront, Nat.zero_add] at hq
    rcases hdrop with rfl | ⟨rest, rfl⟩
    · rw [hyphenParts, List.mem_singleton] at hq
      exact .inl (hfirst _ rfl hq)
    · rw [hyphenParts, if_pos (beq_self_eq_true '-')] at hq
      rcases List.mem_cons.1 hq with hq | hq
      · exact .inl (hfirst _ rfl hq)
      · refine .inr (hlater (by rw [List.cons_append, hsplit]) hq ?_)
        rw [← hsplit]
        simp only [Text.size_append, Text.size_cons]
        omega

/-- A part of a capitalized name is one of the name itself, capitalized. It has the same place, unless there is a hyphen before it: then
it is further on by as much as the name has grown. -/
theorem exists_of_mem_camelParts_capitalize {t : String} {p : Nat × String} (hp : p ∈ camelParts (Text.capitalize t)) :
    ∃ k u, Text.StandsAt t.toList k u ∧ p.2 = Text.capitalize (String.ofList u) ∧
      ((p.1 = 0 ∧ k = 0) ∨
        ('-' ∈ t.toList ∧ p.1 + t.utf8ByteSize = k + (Text.capitalize t).utf8ByteSize)) := by
  obtain ⟨q, hq, rfl⟩ := List.mem_map.1 hp
  obtain ⟨hq, hne⟩ := List.mem_filter.1 hq
  rw [← Text.size_toList t, ← Text.size_toList (Text.capitalize t)]
  unfold Text.capitalize at hq ⊢
  cases ht : t.toList with
  | nil =>
    rw [ht] at hq
    obtain rfl := List.mem_singleton.1 hq
    cases hne
  | cons c cs =>
    rw [ht] at hq
    dsimp only at hq ⊢
    rw [String.toList_ofList] at hq
    rw [String.toList_ofList (l := Text.toUpper c ++ cs)]
    have hq' : q.2 ≠ [] := fun hnil => by simp [hnil] at hne
    rcases of_mem_hyphenParts_toUpper hq hq' with ⟨hzero, pre, hstands, hpre⟩ | ⟨hpos, hhyphen, k, hstands, hk⟩
    · exact ⟨0, c :: pre, hstands, by rw [if_pos hzero, hpre, String.toList_ofList], .inl ⟨hzero, rfl⟩⟩
    · exact ⟨k, q.2, hstands, if_neg (Nat.pos_iff_ne_zero.1 hpos), .inr ⟨hhyphen, hk⟩⟩

end Code

namespace Sense

/-! ## Names that may be capitalized -/

/-- Whether a name, where it is, has the parts of its capitalized spelling where they are written to. -/
def Hears (S : Sense) (t : String) : Prop :=
  ∀ text o, S.has text o t.toList → S.marks text (o + (Text.capitalize t).utf8ByteSize) ∧
    ∀ p ∈ Code.camelParts (Text.capitalize t), ∃ u, S.has text (o + p.1) u ∧ p.2 = Text.capitalize (String.ofList u)

/-- A name has its parts if its first letter keeps its size. -/
theorem hears_of_size_eq (S : Sense) {t : String} (h : (Text.capitalize t).utf8ByteSize = t.utf8ByteSize) : S.Hears t := by
  intro text o hhas
  have hstop := S.marks_of_has hhas
  rw [Text.size_toList] at hstop
  refine ⟨by rwa [h], fun p hp => ?_⟩
  obtain ⟨k, u, hstands, hp, hplace⟩ := Code.exists_of_mem_camelParts_capitalize hp
  obtain rfl : k = p.1 := by omega
  exact ⟨u, S.has_trans hhas (S.has_of_standsAt hstands), hp⟩

/-- To the letter a name has its parts, if it has no hyphen or its first letter keeps its size. -/
theorem verbatim_hears {t : String} (h : '-' ∈ t.toList → (Text.capitalize t).utf8ByteSize = t.utf8ByteSize) : verbatim.Hears t := by
  by_cases hhyphen : '-' ∈ t.toList
  · exact verbatim.hears_of_size_eq (h hhyphen)
  · intro text o hhas
    refine ⟨trivial, fun p hp => ?_⟩
    obtain ⟨k, u, hstands, hp, ⟨hzero, rfl⟩ | ⟨hbehind, -⟩⟩ := Code.exists_of_mem_camelParts_capitalize hp
    · exact ⟨u, hzero.symm ▸ verbatim.has_trans hhas hstands, hp⟩
    · exact absurd hbehind hhyphen

/-- By its extent a name has its parts, if its first letter does not grow. -/
theorem extent_hears {t : String} (h : (Text.capitalize t).utf8ByteSize ≤ t.utf8ByteSize) : extent.Hears t := by
  intro text o hhas
  have hfit : o + Text.size t.toList ≤ Text.size text := hhas
  rw [Text.size_toList] at hfit
  refine ⟨Nat.le_trans (Nat.add_le_add_left h o) hfit, fun p hp => ?_⟩
  obtain ⟨k, u, hstands, hp, hplace⟩ := Code.exists_of_mem_camelParts_capitalize hp
  have hsize := hstands.isPlace_stop.le_size
  rw [Text.size_toList] at hsize
  refine ⟨u, ?_, hp⟩
  show o + p.1 + Text.size u ≤ Text.size text
  omega

end Sense

namespace Permit

variable {S : Sense} {texts : SourceId → List Char} {listens : String → Prop} {r : Generate.Setting}

theorem partsAllowed_of_hears {t : String} {source : SourceId} {o : Nat} (hl : S.Hears t) (h : S.has (texts source) o t.toList) :
    Code.PartsAllowed (ofSense S texts listens) (Text.capitalize t) source o := by
  intro p hp
  obtain ⟨u, hu, hpu⟩ := (hl _ o h).2 p hp
  exact .inr (.inr ⟨String.ofList u, by rwa [String.toList_ofList], hpu⟩)

/-- The permit of a sense is lawful, so long as the reader of scripts finds what it reads where it is. -/
theorem lawful_ofSense (hr : S.Reads r.reader) (hl : ∀ t, listens t → S.Hears t) : (ofSense S texts listens).Lawful r where
  allows_of_stands h := .inr (.inl h)
  allows_capitalized h := .inr (.inr ⟨_, h, rfl⟩)
  stands_part h hu := by
    show S.has _ _ _
    rw [String.toList_ofList]
    exact S.has_trans h (S.has_of_standsAt hu)
  listener_allowed h hlistens := ⟨partsAllowed_of_hears (hl _ hlistens) h, .inl ⟨rfl, (hl _ hlistens _ _ h).1⟩⟩
  puts_expressionIn h hi hback := Generate.puts_expressionIn_ofSense hr h hi hback
  puts_slotParameters h hbinds v := Generate.puts_slotParameters_ofSense hr h hbinds v

end Permit

end TypedSfc

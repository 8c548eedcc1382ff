import TypedSfc.Span

/-!
# Places of a text

A place of a text is the size of one of its beginnings, so it never lies within a character. What is cut out between two places is
found again by joining: `Rest cs n rest` says that `rest` is what follows byte `n`, and every cut of the library is read off it.
-/

namespace TypedSfc

namespace Text

/-! ## Sizes -/

@[simp] theorem size_nil : size [] = 0 := rfl

@[simp] theorem size_cons (c : Char) (cs : List Char) : size (c :: cs) = c.utf8Size + size cs := rfl

@[simp] theorem size_append (as bs : List Char) : size (as ++ bs) = size as + size bs := by
  induction as with
  | nil => simp
  | cons a as ih =>
    rw [List.cons_append, size_cons, size_cons, ih]
    omega

@[simp] theorem size_reverse (cs : List Char) : size cs.reverse = size cs := by
  induction cs with
  | nil => rfl
  | cons c cs ih =>
    rw [List.reverse_cons, size_append, ih, size_cons, size_cons, size_nil]
    omega

theorem size_pos {cs : List Char} (h : cs ≠ []) : 0 < size cs := by
  cases cs with
  | nil => exact absurd rfl h
  | cons c cs =>
    have hc := c.utf8Size_pos
    rw [size_cons]
    omega

@[simp] theorem size_eq_zero {cs : List Char} : size cs = 0 ↔ cs = [] := by
  constructor
  · intro h
    by_cases hcs : cs = []
    · exact hcs
    · have := size_pos hcs
      omega
  · rintro rfl
    rfl

theorem size_ofList (cs : List Char) : (String.ofList cs).utf8ByteSize = size cs := by
  induction cs with
  | nil => rfl
  | cons c cs ih =>
    have hsplit : String.ofList (c :: cs) = String.singleton c ++ String.ofList cs := by
      apply String.toList_inj.1
      simp
    rw [hsplit, String.utf8ByteSize_append, String.utf8ByteSize_singleton, ih, size_cons]

@[simp] theorem size_toList (t : String) : size t.toList = t.utf8ByteSize := by
  rw [← size_ofList, String.ofList_toList]

/-! ## What follows a place -/

/-- From byte `n` on, the text `cs` reads `rest`. -/
def Rest (cs : List Char) (n : Nat) (rest : List Char) : Prop := ∃ before, cs = before ++ rest ∧ size before = n

/-- A character of the text starts at byte `n`, or the text ends there. -/
def IsPlace (cs : List Char) (n : Nat) : Prop := ∃ rest, Rest cs n rest

/-- The text `t` stands in `cs` at byte `n`. -/
def StandsAt (cs : List Char) (n : Nat) (t : List Char) : Prop := ∃ more, Rest cs n (t ++ more)

theorem rest_zero (cs : List Char) : Rest cs 0 cs := ⟨[], rfl, rfl⟩

theorem rest_size (cs : List Char) : Rest cs (size cs) [] := ⟨cs, by simp, rfl⟩

/-- Of two beginnings of a text, the longer goes on where the shorter ends. -/
theorem exists_append_of_size_le {as bs as' bs' : List Char} (h : as ++ bs = as' ++ bs') (hle : size as' ≤ size as) :
    ∃ mid, as = as' ++ mid ∧ bs' = mid ++ bs := by
  rcases List.append_eq_append_iff.1 h with ⟨mid, hlong, hrest⟩ | ⟨mid, hlong, hrest⟩
  · have hmid : mid = [] := by
      rw [hlong, size_append] at hle
      rw [← size_eq_zero]
      omega
    subst hmid
    exact ⟨[], by rw [hlong, List.append_nil, List.append_nil], hrest.symm⟩
  · exact ⟨mid, hlong, hrest⟩

namespace Rest

variable {cs rest : List Char} {n : Nat}

theorem isPlace (h : Rest cs n rest) : IsPlace cs n := ⟨rest, h⟩

theorem size_eq (h : Rest cs n rest) : n + size rest = size cs := by
  obtain ⟨before, rfl, rfl⟩ := h
  rw [size_append]

/-- Past a text there is what follows it. -/
theorem step {t more : List Char} (h : Rest cs n (t ++ more)) : Rest cs (n + size t) more := by
  obtain ⟨before, rfl, rfl⟩ := h
  exact ⟨before ++ t, by simp, by simp⟩

theorem standsAt {t more : List Char} (h : Rest cs n (t ++ more)) : StandsAt cs n t := ⟨more, h⟩

/-- Of two places, what follows the earlier goes on up to the later. -/
theorem split {n' : Nat} {rest' : List Char} (h : Rest cs n rest) (h' : Rest cs n' rest') (hle : n ≤ n') :
    ∃ mid, rest = mid ++ rest' ∧ n' = n + size mid := by
  obtain ⟨before, hcs, rfl⟩ := h
  obtain ⟨before', hcs', rfl⟩ := h'
  obtain ⟨mid, rfl, hrest⟩ := exists_append_of_size_le (hcs'.symm.trans hcs) hle
  exact ⟨mid, hrest, size_append before mid⟩

/-- What follows a place is one text. -/
theorem unique {rest' : List Char} (h : Rest cs n rest) (h' : Rest cs n rest') : rest = rest' := by
  obtain ⟨mid, hrest, hn⟩ := h.split h' (Nat.le_refl n)
  have hmid : mid = [] := size_eq_zero.1 (by omega)
  rw [hrest, hmid, List.nil_append]

/-! ## Cuts -/

theorem dropBytes_eq (h : Rest cs n rest) : dropBytes n cs = some rest := by
  obtain ⟨before, rfl, rfl⟩ := h
  induction before with
  | nil => simp [dropBytes]
  | cons c before ih =>
    have hc := c.utf8Size_pos
    obtain ⟨k, hk⟩ : ∃ k, size (c :: before) = k + 1 := ⟨c.utf8Size + size before - 1, by rw [size_cons]; omega⟩
    have hle : c.utf8Size ≤ k + 1 := by rw [← hk, size_cons]; omega
    have hrest : k + 1 - c.utf8Size = size before := by rw [← hk, size_cons]; omega
    rw [hk, List.cons_append, dropBytes, if_pos hle, hrest]
    exact ih

theorem after_eq (h : Rest cs n rest) : after n cs = rest := by
  rw [after, h.dropBytes_eq, Option.getD_some]

end Rest

/-- At the end of a text, and further on, there is nothing. -/
theorem after_eq_nil {cs : List Char} {n : Nat} (h : size cs ≤ n) : after n cs = [] := by
  induction cs generalizing n with
  | nil => cases n <;> rfl
  | cons c cs ih =>
    have hc := c.utf8Size_pos
    rw [size_cons] at h
    obtain ⟨k, rfl⟩ : ∃ k, n = k + 1 := ⟨n - 1, by omega⟩
    rw [after, dropBytes, if_pos (by omega)]
    exact ih (by omega)

theorem takeBytes_append (t more : List Char) : takeBytes (size t) (t ++ more) = some t := by
  induction t with
  | nil => cases more <;> rfl
  | cons c t ih =>
    have hc := c.utf8Size_pos
    obtain ⟨k, hk⟩ : ∃ k, size (c :: t) = k + 1 := ⟨c.utf8Size + size t - 1, by rw [size_cons]; omega⟩
    have hle : c.utf8Size ≤ k + 1 := by rw [← hk, size_cons]; omega
    have hrest : k + 1 - c.utf8Size = size t := by rw [← hk, size_cons]; omega
    rw [hk, List.cons_append, takeBytes, if_pos hle, hrest, ih, Option.map_some]

theorem takeBytes_size (cs : List Char) : takeBytes (size cs) cs = some cs := by
  have h := takeBytes_append cs []
  rwa [List.append_nil] at h

/-- What is left behind a cut is the rest at it. -/
theorem rest_of_dropBytes {cs rest : List Char} {n : Nat} (h : dropBytes n cs = some rest) : Rest cs n rest := by
  induction cs generalizing n with
  | nil =>
    cases n with
    | zero => exact Option.some.inj h ▸ rest_zero []
    | succ n => cases h
  | cons c cs ih =>
    cases n with
    | zero => exact Option.some.inj h ▸ rest_zero (c :: cs)
    | succ n =>
      rw [dropBytes] at h
      split at h
      · obtain ⟨before, rfl, hsize⟩ := ih h
        exact ⟨c :: before, rfl, by rw [size_cons]; omega⟩
      · cases h

/-- What is before a cut is a beginning of the text. -/
theorem exists_of_takeBytes {cs t : List Char} {n : Nat} (h : takeBytes n cs = some t) : ∃ more, cs = t ++ more ∧ size t = n := by
  induction cs generalizing n t with
  | nil =>
    cases n with
    | zero => exact ⟨[], Option.some.inj h ▸ rfl, Option.some.inj h ▸ rfl⟩
    | succ n => cases h
  | cons c cs ih =>
    cases n with
    | zero => exact ⟨c :: cs, Option.some.inj h ▸ rfl, Option.some.inj h ▸ rfl⟩
    | succ n =>
      rw [takeBytes] at h
      split at h
      · obtain ⟨u, hu, rfl⟩ := Option.map_eq_some_iff.1 h
        obtain ⟨more, rfl, hsize⟩ := ih hu
        exact ⟨more, rfl, by rw [size_cons]; omega⟩
      · cases h

/-- What is cut out of a text stands there. -/
theorem standsAt_of_slice {cs t : List Char} {start stop : Nat} (h : slice start stop cs = some t) :
    StandsAt cs start t ∧ stop = start + size t := by
  unfold slice at h
  split at h
  · obtain ⟨rest, hrest, ht⟩ := Option.bind_eq_some_iff.1 h
    obtain ⟨more, rfl, hsize⟩ := exists_of_takeBytes ht
    exact ⟨(rest_of_dropBytes hrest).standsAt, by omega⟩
  · cases h

theorem Rest.slice_eq {cs t more : List Char} {n : Nat} (h : Rest cs n (t ++ more)) : slice n (n + size t) cs = some t := by
  have hlen : n + size t - n = size t := Nat.add_sub_cancel_left ..
  rw [slice, if_pos (Nat.le_add_right ..), h.dropBytes_eq, hlen]
  exact takeBytes_append t more

theorem Rest.between_eq {cs t more : List Char} {n : Nat} (h : Rest cs n (t ++ more)) : between n (n + size t) cs = t := by
  rw [between, h.slice_eq, Option.getD_some]

/-- What is cut out up to the end of a text is what comes after a position. -/
theorem slice_size {cs : List Char} {n : Nat} (h : n ≤ size cs) : slice n (size cs) cs = dropBytes n cs := by
  rw [slice, if_pos h]
  cases hdrop : dropBytes n cs with
  | none => rfl
  | some rest =>
    have hsize : size cs - n = size rest := by
      have := (rest_of_dropBytes hdrop).size_eq
      omega
    rw [Option.bind_some, hsize, takeBytes_size]

theorem between_size {cs : List Char} {n : Nat} (h : n ≤ size cs) : between n (size cs) cs = after n cs := by
  rw [between, slice_size h, after]

/-! ## Places -/

theorem isPlace_zero (cs : List Char) : IsPlace cs 0 := ⟨cs, rest_zero cs⟩

theorem isPlace_size (cs : List Char) : IsPlace cs (size cs) := ⟨[], rest_size cs⟩

theorem isPlace_iff {cs : List Char} {n : Nat} : IsPlace cs n ↔ (dropBytes n cs).isSome = true := by
  constructor
  · rintro ⟨rest, h⟩
    rw [h.dropBytes_eq]
    rfl
  · intro h
    obtain ⟨rest, h⟩ := Option.isSome_iff_exists.1 h
    exact (rest_of_dropBytes h).isPlace

instance (cs : List Char) (n : Nat) : Decidable (IsPlace cs n) := decidable_of_iff _ isPlace_iff.symm

theorem IsPlace.le_size {cs : List Char} {n : Nat} (h : IsPlace cs n) : n ≤ size cs := by
  obtain ⟨rest, h⟩ := h
  have := h.size_eq
  omega

/-- Of two places, the later is one. -/
theorem IsPlace.max {cs : List Char} {n n' : Nat} (h : IsPlace cs n) (h' : IsPlace cs n') : IsPlace cs (max n n') := by
  rcases Nat.le_total n n' with hle | hle
  · rwa [Nat.max_eq_right hle]
  · rwa [Nat.max_eq_left hle]

/-- Of two places, the earlier is one. -/
theorem IsPlace.min {cs : List Char} {n n' : Nat} (h : IsPlace cs n) (h' : IsPlace cs n') : IsPlace cs (min n n') := by
  rcases Nat.le_total n n' with hle | hle
  · rwa [Nat.min_eq_left hle]
  · rwa [Nat.min_eq_right hle]

theorem StandsAt.isPlace {cs t : List Char} {n : Nat} (h : StandsAt cs n t) : IsPlace cs n := by
  obtain ⟨more, h⟩ := h
  exact ⟨_, h⟩

theorem StandsAt.isPlace_stop {cs t : List Char} {n : Nat} (h : StandsAt cs n t) : IsPlace cs (n + size t) := by
  obtain ⟨more, h⟩ := h
  exact ⟨_, h.step⟩

/-- A part of a text stands where the text before it ends. -/
theorem StandsAt.part {cs as bs ds : List Char} {n : Nat} (h : StandsAt cs n (as ++ (bs ++ ds))) :
    StandsAt cs (n + size as) bs := by
  obtain ⟨more, h⟩ := h
  rw [List.append_assoc] at h
  refine ⟨ds ++ more, ?_⟩
  rw [← List.append_assoc]
  exact h.step

/-- The beginning of a text stands where the text does. -/
theorem StandsAt.left {cs as bs : List Char} {n : Nat} (h : StandsAt cs n (as ++ bs)) : StandsAt cs n as := by
  obtain ⟨more, h⟩ := h
  rw [List.append_assoc] at h
  exact ⟨_, h⟩

/-- The end of a text stands behind its beginning. -/
theorem StandsAt.right {cs as bs : List Char} {n : Nat} (h : StandsAt cs n (as ++ bs)) : StandsAt cs (n + size as) bs :=
  StandsAt.part (show StandsAt cs n (as ++ (bs ++ [])) by rw [List.append_nil]; exact h)

/-- A beginning of a text stands where the text does. -/
theorem StandsAt.beginning {cs t u : List Char} {n : Nat} (h : StandsAt cs n t) (hu : ∃ back, t = u ++ back) : StandsAt cs n u := by
  obtain ⟨back, rfl⟩ := hu
  exact h.left

/-- An end of a text stands as far behind its start as it is shorter. -/
theorem StandsAt.ending {cs t u : List Char} {n : Nat} (h : StandsAt cs n t) (hu : ∃ front, t = front ++ u) :
    StandsAt cs (n + (size t - size u)) u := by
  obtain ⟨front, rfl⟩ := hu
  have hsize : size (front ++ u) - size u = size front := by rw [size_append]; omega
  rw [hsize]
  exact h.right

/-- What stands in a text that stands in another stands there too. -/
theorem StandsAt.trans {cs t u : List Char} {n k : Nat} (h : StandsAt cs n t) (hu : StandsAt t k u) : StandsAt cs (n + k) u := by
  obtain ⟨more, h⟩ := h
  obtain ⟨more', before, rfl, rfl⟩ := hu
  refine ⟨more' ++ more, ?_⟩
  rw [← List.append_assoc]
  rw [List.append_assoc] at h
  exact h.step

/-- A text that lies in the middle of three stands in the middle one. -/
theorem StandsAt.middle {as bs cs t : List Char} {n : Nat} (h : StandsAt (as ++ (bs ++ cs)) n t) (hlo : size as ≤ n)
    (hhi : n + size t ≤ size as + size bs) : StandsAt bs (n - size as) t := by
  obtain ⟨more, before, heq, rfl⟩ := h
  obtain ⟨mid, rfl, hrest⟩ := exists_append_of_size_le heq.symm hlo
  have hsize : size (mid ++ t) ≤ size bs := by
    rw [size_append] at hhi ⊢
    omega
  rw [← List.append_assoc] at hrest
  obtain ⟨behind, rfl, -⟩ := exists_append_of_size_le hrest hsize
  refine ⟨behind, mid, by rw [List.append_assoc], ?_⟩
  rw [size_append]
  omega

/-- What lies between two positions, if anything, stands at the first. -/
theorem between_eq_nil_or (start stop : Nat) (cs : List Char) :
    between start stop cs = [] ∨ StandsAt cs start (between start stop cs) ∧ stop = start + size (between start stop cs) := by
  unfold between
  cases h : slice start stop cs with
  | none => exact .inl rfl
  | some t => exact .inr (standsAt_of_slice h)

/-- What follows a position, if anything, follows it as a place. -/
theorem after_eq_nil_or (n : Nat) (cs : List Char) : after n cs = [] ∨ Rest cs n (after n cs) := by
  unfold after
  cases h : dropBytes n cs with
  | none => exact .inl rfl
  | some rest => exact .inr (rest_of_dropBytes h)

theorem StandsAt.slice_eq {cs t : List Char} {n : Nat} (h : StandsAt cs n t) : slice n (n + size t) cs = some t := by
  obtain ⟨more, h⟩ := h
  exact h.slice_eq

theorem StandsAt.between_eq {cs t : List Char} {n : Nat} (h : StandsAt cs n t) : between n (n + size t) cs = t := by
  obtain ⟨more, h⟩ := h
  exact h.between_eq

/-- Two places cut a text that stands there into three parts. -/
theorem StandsAt.exists_parts {cs t : List Char} {n a b : Nat} (h : StandsAt cs n t) (ha : IsPlace cs (n + a)) (hb : IsPlace cs (n + b))
    (hab : a ≤ b) (hbt : b ≤ size t) :
    ∃ u v w, t = u ++ (v ++ w) ∧ size u = a ∧ size u + size v = b ∧ between 0 a t = u ∧ between a b t = v ∧ between b (size t) t = w := by
  obtain ⟨more, hmore⟩ := h
  obtain ⟨rest, hrest⟩ := ha
  obtain ⟨rest', hrest'⟩ := hb
  obtain ⟨u, hu, hsizeu⟩ := hmore.split hrest (Nat.le_add_right ..)
  obtain ⟨v, hv, hsizev⟩ := hrest.split hrest' (Nat.add_le_add_left hab n)
  obtain ⟨w, hw, hsizew⟩ := hrest'.split hmore.step (Nat.add_le_add_left hbt n)
  obtain rfl : a = size u := Nat.add_left_cancel hsizeu
  obtain rfl : b = size u + size v := by omega
  obtain rfl : t = u ++ (v ++ w) := by
    rw [hv, hw] at hu
    apply List.append_cancel_right (hu.trans _)
    simp
  refine ⟨u, v, w, rfl, rfl, rfl, ?_, ?_, ?_⟩
  · have hbetween := (rest_zero (u ++ (v ++ w))).between_eq
    rwa [Nat.zero_add] at hbetween
  · exact Rest.between_eq ⟨u, rfl, rfl⟩
  · have hrest : Rest (u ++ (v ++ w)) (size u + size v) (w ++ []) := ⟨u ++ v, by simp, by simp⟩
    have hsize : size (u ++ (v ++ w)) = size u + size v + size w := by rw [size_append, size_append, Nat.add_assoc]
    rw [hsize]
    exact hrest.between_eq

/-- A place of a text that is a place within what stands there is one of that. -/
theorem StandsAt.isPlace_of_add {cs t : List Char} {n k : Nat} (h : StandsAt cs n t) (hk : IsPlace cs (n + k)) (hle : k ≤ size t) :
    IsPlace t k := by
  obtain ⟨u, v, w, rfl, hsize, -⟩ := h.exists_parts hk hk (Nat.le_refl k) hle
  exact ⟨v ++ w, u, rfl, hsize⟩

/-- A text can be cut out between two positions if and only if both are places, in order. -/
theorem isSome_slice_iff {start stop : Nat} {cs : List Char} :
    (slice start stop cs).isSome = true ↔ start ≤ stop ∧ IsPlace cs start ∧ IsPlace cs stop := by
  constructor
  · intro h
    obtain ⟨t, ht⟩ := Option.isSome_iff_exists.1 h
    obtain ⟨hstands, rfl⟩ := standsAt_of_slice ht
    exact ⟨Nat.le_add_right .., hstands.isPlace, hstands.isPlace_stop⟩
  · rintro ⟨hle, ⟨rest, hrest⟩, ⟨rest', hrest'⟩⟩
    obtain ⟨t, rfl, rfl⟩ := hrest.split hrest' hle
    rw [hrest.slice_eq]
    rfl

/-! ## Searches -/

theorem begins_iff {w cs : List Char} : begins w cs = true ↔ ∃ more, cs = w ++ more := by
  induction w generalizing cs with
  | nil => simp [begins]
  | cons a w ih =>
    cases cs with
    | nil => simp [begins]
    | cons c cs =>
      rw [begins, Bool.and_eq_true, beq_iff_eq, ih]
      constructor
      · rintro ⟨rfl, more, rfl⟩
        exact ⟨more, rfl⟩
      · rintro ⟨more, h⟩
        rw [List.cons_append, List.cons.injEq] at h
        exact ⟨h.1.symm, more, h.2⟩

/-- A text that is found stands where it is found. -/
theorem exists_of_find {w cs : List Char} {n : Nat} (h : find w cs = some n) :
    ∃ before more, cs = before ++ (w ++ more) ∧ size before = n := by
  induction cs generalizing n with
  | nil =>
    rw [find] at h
    split at h
    · rename_i hw
      obtain rfl := Option.some.inj h
      rw [List.isEmpty_iff] at hw
      exact ⟨[], [], by simp [hw], rfl⟩
    · cases h
  | cons c cs ih =>
    rw [find] at h
    split at h
    · rename_i hb
      obtain rfl := Option.some.inj h
      obtain ⟨more, hmore⟩ := begins_iff.1 hb
      exact ⟨[], more, by rw [hmore, List.nil_append], rfl⟩
    · obtain ⟨k, hk, rfl⟩ := Option.map_eq_some_iff.1 h
      obtain ⟨before, more, hcs, hsize⟩ := ih hk
      exact ⟨c :: before, more, by rw [hcs, List.cons_append], by rw [size_cons, hsize]⟩

/-- A character is not in the text before the place where it is found. -/
theorem exists_of_find_singleton {q : Char} {cs : List Char} {n : Nat} (h : find [q] cs = some n) :
    ∃ before more, cs = before ++ q :: more ∧ size before = n ∧ q ∉ before := by
  induction cs generalizing n with
  | nil => cases h
  | cons c cs ih =>
    rw [find] at h
    split at h
    · rename_i hb
      obtain rfl := Option.some.inj h
      obtain ⟨more, hmore⟩ := begins_iff.1 hb
      exact ⟨[], more, hmore, rfl, List.not_mem_nil⟩
    · rename_i hb
      obtain ⟨k, hk, rfl⟩ := Option.map_eq_some_iff.1 h
      obtain ⟨before, more, rfl, hsize, hmem⟩ := ih hk
      have hc : q ≠ c := fun heq => hb (begins_iff.2 ⟨_, by rw [heq]; rfl⟩)
      exact ⟨c :: before, more, rfl, by rw [size_cons, hsize], by simp [hc, hmem]⟩

/-- A character that is not found is not there. -/
theorem notMem_of_find_singleton {q : Char} {cs : List Char} (h : find [q] cs = none) : q ∉ cs := by
  induction cs with
  | nil => exact List.not_mem_nil
  | cons c cs ih =>
    rw [find] at h
    split at h
    · cases h
    · rename_i hb
      have hc : q ≠ c := fun heq => hb (begins_iff.2 ⟨_, by rw [heq]; rfl⟩)
      simpa [hc] using ih (Option.map_eq_none_iff.1 h)

/-- A character is found behind a text that does not have it. -/
theorem find_append_cons {c : Char} {before : List Char} (h : c ∉ before) (more : List Char) :
    find [c] (before ++ c :: more) = some (size before) := by
  induction before with
  | nil =>
    have hbegins : begins [c] (c :: more) = true := begins_iff.2 ⟨more, rfl⟩
    rw [List.nil_append, find, if_pos hbegins, size_nil]
  | cons d before ih =>
    obtain ⟨hd, hbefore⟩ := not_or.1 (mt List.mem_cons.2 h)
    have hbegins : ¬begins [c] (d :: (before ++ c :: more)) = true := by simpa [begins] using hd
    rw [List.cons_append, find, if_neg hbegins, ih hbefore, size_cons]
    rfl

/-! ## Small letters -/

theorem utf8Size_of_le {c : Char} (h : c.val ≤ 127) : c.utf8Size = 1 := if_pos h

/-- A character is its own small letter, or a capital that moves by 32. -/
theorem toLower_eq_or (c : Char) :
    c.toLower = c ∨ (65 ≤ c.val.toNat ∧ c.val.toNat ≤ 90 ∧ c.toLower.val.toNat = c.val.toNat + 32) := by
  unfold Char.toLower
  split
  · rename_i h
    obtain ⟨hlo, hhi⟩ := h
    have hlo' : 65 ≤ c.val.toNat := UInt32.le_iff_toNat_le.1 hlo
    have hhi' : c.val.toNat ≤ 90 := UInt32.le_iff_toNat_le.1 hhi
    refine .inr ⟨hlo', hhi', ?_⟩
    show (c.val + ('a'.val - 'A'.val)).toNat = c.val.toNat + 32
    rw [UInt32.toNat_add]
    exact Nat.mod_eq_of_lt (by show c.val.toNat + 32 < 2 ^ 32; omega)
  · exact .inl rfl

/-- A capital and its small letter are both one byte. -/
theorem utf8Size_toLower (c : Char) : c.toLower.utf8Size = c.utf8Size := by
  rcases toLower_eq_or c with h | ⟨-, hhi, hval⟩
  · rw [h]
  · have hle : c.val.toNat ≤ 127 := by omega
    have hle' : c.toLower.val.toNat ≤ 127 := by omega
    rw [utf8Size_of_le (UInt32.le_iff_toNat_le.2 hle), utf8Size_of_le (UInt32.le_iff_toNat_le.2 hle')]

/-- What comes before the small letters is the small letter of itself alone. -/
theorem eq_of_toLower_eq {c d : Char} (hd : d.val.toNat < 97) (h : c.toLower = d) : c = d := by
  rcases toLower_eq_or c with hc | ⟨hlo, -, hval⟩
  · rw [← hc, h]
  · rw [h] at hval
    omega

/-- A mark that begins a text with its letters made small begins the text. -/
theorem exists_of_lower_cons {d : Char} {cs more : List Char} (hd : d.val.toNat < 97) (h : lower cs = d :: more) :
    ∃ behind, cs = d :: behind ∧ lower behind = more := by
  obtain ⟨c, behind, rfl, hc, hmore⟩ := List.map_eq_cons_iff.1 h
  exact ⟨behind, by rw [eq_of_toLower_eq hd hc], hmore⟩

@[simp] theorem size_lower (cs : List Char) : size (lower cs) = size cs := by
  induction cs with
  | nil => rfl
  | cons c cs ih =>
    show c.toLower.utf8Size + size (lower cs) = c.utf8Size + size cs
    rw [utf8Size_toLower, ih]

theorem lower_append (as bs : List Char) : lower (as ++ bs) = lower as ++ lower bs := List.map_append

/-- A text that is found among small letters stands there but for the size of its letters. -/
theorem exists_of_find_lower {w cs : List Char} {n : Nat} (h : find w (lower cs) = some n) :
    ∃ before more, cs = before ++ more ∧ size before = n ∧ ∃ behind, lower more = w ++ behind := by
  obtain ⟨before', behind, hcs, hsize⟩ := exists_of_find h
  obtain ⟨before, more, rfl, hbefore, hmore⟩ := List.map_eq_append_iff.1 hcs
  refine ⟨before, more, rfl, ?_, behind, hmore⟩
  rw [← hsize, ← hbefore]
  exact (size_lower before).symm

end Text

/-! ## Spans -/

namespace Span

/-- Both ends of a span are places of a text, and its start is not behind its end. -/
structure Fits (s : Span) (cs : List Char) : Prop where
  start : Text.IsPlace cs s.start
  stop : Text.IsPlace cs s.stop
  le : s.start ≤ s.stop

/-- A span reads `t` in a text. -/
def Reads (s : Span) (cs t : List Char) : Prop := Text.StandsAt cs s.start t ∧ s.stop = s.start + Text.size t

variable {s : Span} {cs t : List Char}

theorem Reads.fits (h : s.Reads cs t) : s.Fits cs := by
  obtain ⟨hstart, hstop⟩ := h
  refine ⟨hstart.isPlace, ?_, ?_⟩
  · rw [hstop]
    exact hstart.isPlace_stop
  · rw [hstop]
    exact Nat.le_add_right ..

instance (s : Span) (cs : List Char) : Decidable (s.Fits cs) :=
  decidable_of_iff (Text.IsPlace cs s.start ∧ Text.IsPlace cs s.stop ∧ s.start ≤ s.stop)
    ⟨fun h => ⟨h.1, h.2.1, h.2.2⟩, fun h => ⟨h.start, h.stop, h.le⟩⟩

theorem Fits.stop_le (h : s.Fits cs) : s.stop ≤ Text.size cs := h.stop.le_size

/-- A span that fits reads some text. -/
theorem Fits.exists_reads (h : s.Fits cs) : ∃ t, s.Reads cs t := by
  obtain ⟨rest, hrest⟩ := h.start
  obtain ⟨more, hmore⟩ := h.stop
  obtain ⟨t, rfl, hstop⟩ := hrest.split hmore h.le
  exact ⟨t, hrest.standsAt, hstop⟩

/-- What a span reads is its slice. -/
theorem Reads.slice_eq (h : s.Reads cs t) : Text.slice s.start s.stop cs = some t := by
  rw [h.2]
  exact h.1.slice_eq

theorem Reads.between_eq (h : s.Reads cs t) : Text.between s.start s.stop cs = t := by
  rw [h.2]
  exact h.1.between_eq

/-- A span of the whole text reads the text. -/
theorem Reads.eq_whole (h : (⟨0, Text.size cs⟩ : Span).Reads cs t) : t = cs := by
  obtain ⟨⟨more, hmore⟩, hsize⟩ := h
  have hsame := hmore.unique (Text.rest_zero cs)
  have hmoreSize : Text.size more = 0 := by
    have htotal := congrArg Text.size hsame
    rw [Text.size_append] at htotal
    dsimp only at hsize
    omega
  rw [Text.size_eq_zero.1 hmoreSize, List.append_nil] at hsame
  exact hsame

/-- A span of a text that stands in another fits there too. -/
theorem Fits.shift {n : Nat} (h : s.Fits t) (ht : Text.StandsAt cs n t) : (s.shift n).Fits cs := by
  obtain ⟨u, hu, hstop⟩ := h.exists_reads
  refine Reads.fits (t := u) ⟨?_, ?_⟩
  · show Text.StandsAt cs (s.start + n) u
    rw [Nat.add_comm]
    exact ht.trans hu
  · show s.stop + n = s.start + n + Text.size u
    omega

end Span

end TypedSfc

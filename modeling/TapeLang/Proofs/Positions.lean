import Mathlib.Algebra.Group.Nat.Defs
import Mathlib.Data.List.DropRight
import TapeLang.Proofs.Brackets

namespace TapeLang

open Text (newline)

/-- The line of a text with a given number: what stands before it, the line, and what follows. -/
structure LineAt (t : Text) (number : Nat) (front piece back : Text) : Prop where
  whole : t = front ++ (piece ++ back)
  number : front.count newline = number
  plain : newline ∉ piece
  opens : front = [] ∨ ∃ above, front = above ++ [newline]
  closes : back = [] ∨ ∃ below, back = newline :: below

namespace Source

theorem starts_append (i : Nat) (t u : Text) : startsAfterNewlines i (t ++ u) =
    startsAfterNewlines i t ++ startsAfterNewlines (i + t.length) u := by
  induction t generalizing i with
  | nil => simp [startsAfterNewlines]
  | cons b t ih =>
    have hplace : i + 1 + t.length = i + (t.length + 1) := by omega
    simp only [List.cons_append, startsAfterNewlines, ih, List.length_cons, hplace]
    split <;> simp

theorem length_starts (i : Nat) (t : Text) :
    (startsAfterNewlines i t).length = t.count newline := by
  induction t generalizing i with
  | nil => simp [startsAfterNewlines]
  | cons b t ih =>
    unfold startsAfterNewlines
    split
    · rename_i hb
      simp [hb, ih]
    · rename_i hb
      simp [hb, ih]

theorem mem_starts {i start : Nat} {t : Text} (h : start ∈ startsAfterNewlines i t) :
    i < start ∧ start ≤ i + t.length := by
  induction t generalizing i with
  | nil => simp [startsAfterNewlines] at h
  | cons b t ih =>
    unfold startsAfterNewlines at h
    split at h
    · rcases List.mem_cons.mp h with rfl | h
      · simp
      · have := ih h
        simp only [List.length_cons]
        omega
    · have := ih h
      simp only [List.length_cons]
      omega

theorem starts_of_plain {t : Text} (h : newline ∉ t) (i : Nat) : startsAfterNewlines i t = [] := by
  apply List.eq_nil_of_length_eq_zero
  rw [length_starts, List.count_eq_zero_of_not_mem h]

end Source

namespace LineAt

variable {t front piece back : Text} {k : Nat}

theorem lineStarts_eq (h : LineAt t k front piece back) :
    0 :: Source.startsAfterNewlines 0 t = (0 :: Source.startsAfterNewlines 0 front) ++
      Source.startsAfterNewlines (front.length + piece.length) back := by
  rw [h.whole, Source.starts_append, Source.starts_append, Source.starts_of_plain h.plain]
  simp

/-- The line starts where the table says. -/
theorem start (h : LineAt t k front piece back) :
    (0 :: Source.startsAfterNewlines 0 t)[k]? = some front.length := by
  rw [h.lineStarts_eq, List.getElem?_append_left (by simp [Source.length_starts, h.number])]
  rcases h.opens with rfl | ⟨above, rfl⟩
  · simp [← h.number]
  · have hnumber : above.count newline + 1 = k := by simpa using h.number
    rw [Source.starts_append, ← hnumber, List.getElem?_cons_succ,
      List.getElem?_append_right (by rw [Source.length_starts]), Source.length_starts]
    simp [Source.startsAfterNewlines]

/-- The next line starts behind the newline, if there is one. -/
theorem next (h : LineAt t k front piece back) :
    (0 :: Source.startsAfterNewlines 0 t)[k + 1]? =
      if back = [] then none else some (front.length + piece.length + 1) := by
  have hlength : (0 :: Source.startsAfterNewlines 0 front).length = k + 1 := by
    simp [Source.length_starts, h.number]
  rw [h.lineStarts_eq, List.getElem?_append_right (by omega), hlength, Nat.sub_self]
  rcases h.closes with rfl | ⟨below, rfl⟩
  · simp [Source.startsAfterNewlines]
  · simp [Source.startsAfterNewlines]

theorem length_splitOn (b : UInt8) (t : Text) : (t.splitOn b).length = t.count b + 1 := by
  induction t with
  | nil => rfl
  | cons c t ih =>
    rw [List.splitOn_cons_eq_if_modifyHead, List.count_cons]
    split <;> simp [ih]

/-- The line is the piece of its number between the newlines. -/
theorem piece_eq (h : LineAt t k front piece back) : (t.splitOn newline)[k]? = some piece := by
  have hfirst : ((piece ++ back).splitOn newline)[0]? = some piece := by
    rcases h.closes with rfl | ⟨below, rfl⟩
    · rw [List.append_nil, List.splitOn_eq_singleton h.plain]
      rfl
    · rw [List.splitOn_append_cons_self_of_not_mem h.plain]
      rfl
  rw [h.whole]
  rcases h.opens with rfl | ⟨above, rfl⟩
  · rw [← h.number]
    exact hfirst
  · have hnumber : above.count newline + 1 = k := by simpa using h.number
    rw [List.append_assoc, List.singleton_append, List.splitOn_append_cons_self,
      List.getElem?_append_right (by rw [length_splitOn]; omega), length_splitOn, hnumber,
      Nat.sub_self]
    exact hfirst

/-- Every piece between the newlines is a line. -/
theorem of_piece (h : (t.splitOn newline)[k]? = some piece) :
    ∃ front back, LineAt t k front piece back := by
  induction t generalizing k piece with
  | nil =>
    cases k with
    | zero =>
      obtain rfl : [] = piece := by simpa using h
      exact ⟨[], [], rfl, rfl, by simp, .inl rfl, .inl rfl⟩
    | succ k => simp at h
  | cons b t ih =>
    rw [List.splitOn_cons_eq_if_modifyHead] at h
    split at h
    · rename_i hb
      obtain rfl := eq_of_beq hb
      cases k with
      | zero =>
        obtain rfl : [] = piece := by simpa using h
        exact ⟨[], newline :: t, rfl, rfl, by simp, .inl rfl, .inr ⟨t, rfl⟩⟩
      | succ k =>
        obtain ⟨front, back, hline⟩ := ih (by simpa using h)
        refine ⟨newline :: front, back, by simp [hline.whole], by simp [hline.number],
          hline.plain, .inr ?_, hline.closes⟩
        rcases hline.opens with rfl | ⟨above, rfl⟩
        · exact ⟨[], rfl⟩
        · exact ⟨newline :: above, rfl⟩
    · rename_i hb
      have hne : b ≠ newline := by simpa using hb
      cases k with
      | zero =>
        -- the first line grows by the byte; nothing stands before it
        obtain ⟨first, hfirst, rfl⟩ : ∃ first, (t.splitOn newline)[0]? = some first ∧
            b :: first = piece := by simpa [List.getElem?_modifyHead] using h
        obtain ⟨front, back, hline⟩ := ih hfirst
        have hfront : front = [] := by
          rcases hline.opens with rfl | ⟨above, rfl⟩
          · rfl
          · have := hline.number
            simp at this
        subst hfront
        exact ⟨[], back, by simp [hline.whole], rfl, by simp [hne.symm, hline.plain], .inl rfl,
          hline.closes⟩
      | succ k =>
        obtain ⟨front, back, hline⟩ := ih (by simpa [List.getElem?_modifyHead] using h)
        refine ⟨b :: front, back, by simp [hline.whole], by simp [hne, hline.number],
          hline.plain, .inr ?_, hline.closes⟩
        rcases hline.opens with rfl | ⟨above, rfl⟩
        · have := hline.number
          simp at this
        · exact ⟨b :: above, rfl⟩

/-- Every offset lies on a line, behind what stands between the last newline and the offset. -/
theorem of_offset (t : Text) (offset : Nat) : ∃ front rest back,
    LineAt t ((t.take offset).count newline) front
      ((t.take offset).rtakeWhile (· != newline) ++ rest) back ∧
    t.take offset = front ++ (t.take offset).rtakeWhile (· != newline) ∧
    t.drop offset = rest ++ back := by
  have htake := List.rdropWhile_append_rtakeWhile (p := (· != newline)) (l := t.take offset)
  have hdrop := List.takeWhile_append_dropWhile (p := (· != newline)) (l := t.drop offset)
  have hpart : newline ∉ (t.take offset).rtakeWhile (· != newline) := by
    intro hmem
    simpa using List.mem_rtakeWhile_imp hmem
  have hrest : newline ∉ (t.drop offset).takeWhile (· != newline) := by
    intro hmem
    simpa using List.mem_takeWhile_imp hmem
  refine ⟨(t.take offset).rdropWhile (· != newline), (t.drop offset).takeWhile (· != newline),
    (t.drop offset).dropWhile (· != newline), ⟨?_, ?_, ?_, ?_, ?_⟩, htake.symm, hdrop.symm⟩
  · rw [List.append_assoc, hdrop, ← List.append_assoc, htake, List.take_append_drop]
  · rw [← htake, List.count_append, List.count_eq_zero_of_not_mem hpart]
    simp
  · simp [hpart, hrest]
  · by_cases hnil : (t.take offset).rdropWhile (· != newline) = []
    · exact .inl hnil
    · have hlast := List.rdropWhile_last_not (· != newline) (t.take offset) hnil
      have hcut := (List.dropLast_append_getLast hnil).symm
      simp only [bne_iff_ne, ne_eq, Decidable.not_not] at hlast
      rw [hlast] at hcut
      exact .inr ⟨_, hcut⟩
  · by_cases hnil : (t.drop offset).dropWhile (· != newline) = []
    · exact .inl hnil
    · have hhead := List.head_dropWhile_not (· != newline) hnil
      have hcut := (List.cons_head_tail hnil).symm
      simp only [bne_eq_false_iff_eq] at hhead
      rw [hhead] at hcut
      exact .inr ⟨_, hcut⟩

theorem take_eq {part rest : Text} (h : LineAt t k front (part ++ rest) back) :
    t.take (front.length + part.length) = front ++ part := by
  rw [h.whole, List.append_assoc, ← List.append_assoc, List.take_left' List.length_append]

/-- An offset on the line has as many newlines before it as lines stand above. -/
theorem count_take {part rest : Text} (h : LineAt t k front (part ++ rest) back) :
    (t.take (front.length + part.length)).count newline = k := by
  have hpart : newline ∉ part := fun hmem => h.plain (List.mem_append_left _ hmem)
  rw [h.take_eq, List.count_append, List.count_eq_zero_of_not_mem hpart, h.number]
  omega

/-- What stands between the last newline and an offset on the line is the line's own part. -/
theorem rtakeWhile_take {part rest : Text} (h : LineAt t k front (part ++ rest) back) :
    (t.take (front.length + part.length)).rtakeWhile (· != newline) = part := by
  have hpart : ∀ b ∈ part.reverse, (b != newline) = true := by
    intro b hb
    rw [bne_iff_ne]
    rintro rfl
    exact h.plain (List.mem_append_left _ (List.mem_reverse.mp hb))
  have hfront : front.rtakeWhile (· != newline) = [] := by
    rcases h.opens with rfl | ⟨above, rfl⟩
    · exact List.rtakeWhile_nil _
    · exact List.rtakeWhile_concat_neg _ _ _ (by simp)
  rw [List.rtakeWhile, List.reverse_eq_nil_iff] at hfront
  rw [h.take_eq, List.rtakeWhile, List.reverse_append, List.takeWhile_append_of_pos hpart, hfront,
    List.append_nil, List.reverse_reverse]

end LineAt

namespace Source

variable {s : Source} {front piece back : Text} {k : Nat}

theorem length_bytes (h : LineAt s.bytes k front piece back) :
    s.bytes.length = front.length + piece.length + back.length ∧ k ≤ front.length := by
  refine ⟨by rw [h.whole]; simp [Nat.add_assoc], ?_⟩
  rw [← h.number]
  exact List.count_le_length

theorem line_eq (h : LineAt s.bytes k front piece back) (hlen : s.bytes.length < 2 ^ 63) :
    s.line (Int64.ofNat k) = Text.dropTrailing (· == 0x0D) piece := by
  obtain ⟨hlength, hk⟩ := length_bytes h
  have hnonneg : ¬ Int64.ofNat k < 0 := by
    rw [Int64.lt_iff_toInt_lt, Int64.toInt_ofNat_of_lt (by omega), Int64.toInt_zero]
    omega
  have hcut : (s.bytes.drop front.length).take piece.length = piece := by
    rw [h.whole]
    simp
  unfold line
  rw [if_neg hnonneg, Int64.toNatClampNeg_ofNat_of_lt (by omega)]
  simp only [lineStarts, h.start, h.next]
  split_ifs with hback
  · subst hback
    have hwidth : s.bytes.length - front.length = piece.length := by simp [hlength]
    simp only [hwidth, hcut]
  · have hwidth : front.length + piece.length + 1 - 1 - front.length = piece.length := by omega
    simp only [hwidth, hcut]

/-- The starts at or before an offset of the line are those up to its own. -/
theorem countP_starts (h : LineAt s.bytes k front piece back) (hlen : s.bytes.length < 2 ^ 63)
    (offset : Nat) (hfirst : front.length ≤ offset) (hlast : offset ≤ front.length + piece.length)
    (hnext : offset + 1 < 2 ^ 63) :
    s.lineStarts.countP (fun start => Int64.ofNat start < Int64.ofNat offset + 1) = k + 1 := by
  obtain ⟨hlength, -⟩ := length_bytes h
  have hbefore : ∀ start : Nat, start < 2 ^ 63 →
      (Int64.ofNat start < Int64.ofNat offset + 1 ↔ start ≤ offset) := by
    intro start hstart
    rw [show Int64.ofNat offset + 1 = Int64.ofNat (offset + 1) from (Int64.ofNat_add offset 1).symm,
      Int64.lt_iff_toInt_lt, Int64.toInt_ofNat_of_lt hstart, Int64.toInt_ofNat_of_lt hnext]
    omega
  have hup : (0 :: startsAfterNewlines 0 front).countP
      (fun start => Int64.ofNat start < Int64.ofNat offset + 1) = k + 1 := by
    rw [List.countP_eq_length.mpr, List.length_cons, length_starts, h.number]
    intro start hmem
    have hle : start ≤ front.length := by
      rcases List.mem_cons.mp hmem with rfl | hmem
      · omega
      · simpa using (mem_starts hmem).2
    simp only [decide_eq_true_eq]
    exact (hbefore start (by omega)).mpr (by omega)
  have hdown : (startsAfterNewlines (front.length + piece.length) back).countP
      (fun start => Int64.ofNat start < Int64.ofNat offset + 1) = 0 := by
    rw [List.countP_eq_zero]
    intro start hmem
    obtain ⟨hlow, hhigh⟩ := mem_starts hmem
    simp only [decide_eq_true_eq]
    rw [hbefore start (by omega)]
    omega
  rw [lineStarts, h.lineStarts_eq, List.countP_append, hup, hdown]

theorem position_eq (h : LineAt s.bytes k front piece back) (hlen : s.bytes.length < 2 ^ 63)
    (column : Nat) (hcolumn : column ≤ piece.length) (hnext : front.length + column + 1 < 2 ^ 63) :
    s.position (Int64.ofNat (front.length + column)) =
      ⟨Int64.ofNat (front.length + column), Int64.ofNat k, Int64.ofNat column, s.file⟩ := by
  have hline := countP_starts h hlen (front.length + column) (by omega) (by omega) hnext
  have hstart : s.lineStarts.getD k 0 = front.length := by
    rw [lineStarts, List.getD_eq_getElem?_getD, h.start]
    rfl
  have hwidth : Int64.ofNat (front.length + column) - Int64.ofNat front.length =
      Int64.ofNat column := by
    rw [Nat.add_comm, Int64.ofNat_add, Int64.add_sub_cancel]
  simp only [position, hline, Nat.add_sub_cancel, hstart, hwidth]

end Source

namespace Text

/-- Only trailing bytes are dropped, and all of them. -/
theorem eq_dropTrailing_append (b : UInt8) (t : Text) : ∃ n,
    t = dropTrailing (· == b) t ++ List.replicate n b ∧
      (dropTrailing (· == b) t).getLast? ≠ some b := by
  have hcut : t.rdropWhile (· == b) ++ t.rtakeWhile (· == b) = t :=
    List.rdropWhile_append_rtakeWhile
  have htail : t.rtakeWhile (· == b) = List.replicate (t.rtakeWhile (· == b)).length b := by
    refine List.eq_replicate_of_mem fun c hc => ?_
    simpa using List.mem_rtakeWhile_imp hc
  refine ⟨_, htail ▸ hcut.symm, ?_⟩
  intro hlast
  have hne : t.rdropWhile (· == b) ≠ [] := by
    intro hnil
    rw [show dropTrailing (· == b) t = t.rdropWhile (· == b) from rfl, hnil] at hlast
    simp at hlast
  apply List.rdropWhile_last_not (· == b) t hne
  have := (List.getLast?_eq_some_getLast hne).symm.trans hlast
  simpa using this

/-- A byte that stays keeps all that stands before it. -/
theorem dropTrailing_keep {p : UInt8 → Bool} {b : UInt8} (hb : p b = false) (t u : Text) :
    dropTrailing p (t ++ b :: u) = t ++ b :: dropTrailing p u := by
  unfold dropTrailing
  rw [List.reverse_append, List.reverse_cons, List.append_assoc, List.dropWhile_append]
  split
  · rename_i hnil
    simp only [List.isEmpty_iff] at hnil
    simp [hb, hnil]
  · simp

end Text

namespace Program

theorem byte_of_isLoop {kind : Kind} (h : kind.isLoop = true) :
    kind.byte ≠ newline ∧ (kind.byte == 0x0D) = false := by
  cases kind with
  | loopOpen | loopClose => exact ⟨by decide, rfl⟩
  | moveLeft | moveRight | increment | decrement | output | input | other => cases h

/-- A parse error comes from the scan, and tells the line of its bracket and the place on it. -/
theorem parse_error {s : Source} {e : ParseError} (h : parse s = .error e)
    (hlen : s.bytes.length < 2 ^ 63) : ∃ k front part rest back,
      LineAt s.bytes k front (part ++ e.bracket.byte :: rest) back ∧
      scan s.bytes = .error ⟨e.bracket, front.length + part.length⟩ ∧ e.bracket.isLoop = true ∧
      e.position = ⟨Int64.ofNat (front.length + part.length), Int64.ofNat k,
        Int64.ofNat part.length, s.file⟩ ∧
      e.sourceLine = part ++ e.bracket.byte :: Text.dropTrailing (· == 0x0D) rest := by
  unfold parse at h
  cases hscan : scan s.bytes with
  | ok is =>
    rw [hscan] at h
    cases h
  | error u =>
    rw [hscan] at h
    cases h
    obtain ⟨kind, offset⟩ := u
    obtain ⟨before, after, rfl, hbracket⟩ := scan_error hscan
    obtain ⟨hloop, hbytes⟩ : kind.isLoop = true ∧ s.bytes = before ++ kind.byte :: after := by
      rcases hbracket with ⟨rfl, htext, -⟩ | ⟨rfl, htext, -⟩
      · exact ⟨rfl, htext⟩
      · exact ⟨rfl, htext⟩
    obtain ⟨hnewline, hreturn⟩ := byte_of_isLoop hloop
    obtain ⟨front, rest, back, hline, htake, hdrop⟩ := LineAt.of_offset s.bytes before.length
    generalize (s.bytes.take before.length).count newline = k at hline
    generalize (s.bytes.take before.length).rtakeWhile (· != newline) = part at hline htake
    -- the bracket is no newline, so the line goes on with it
    obtain ⟨rest, rfl⟩ : ∃ rest', rest = kind.byte :: rest' := by
      rw [hbytes, List.drop_left] at hdrop
      cases rest with
      | nil =>
        rcases hline.closes with rfl | ⟨below, rfl⟩
        · cases hdrop
        · exact absurd (List.cons.inj hdrop).1 hnewline
      | cons b rest => exact ⟨rest, by rw [(List.cons.inj hdrop).1]⟩
    have hplace : before.length = front.length + part.length := by
      rw [hbytes, List.take_left] at htake
      rw [htake, List.length_append]
    have hlength := (Source.length_bytes hline).1
    simp only [List.length_append, List.length_cons] at hlength
    have hposition : s.position (Int64.ofNat before.length) =
        ⟨Int64.ofNat (front.length + part.length), Int64.ofNat k, Int64.ofNat part.length,
          s.file⟩ := by
      rw [hplace]
      exact Source.position_eq hline hlen part.length (by simp) (by omega)
    refine ⟨k, front, part, rest, back, hline, by simp [Unmatched.toError, hplace], hloop,
      hposition, ?_⟩
    simp only [Unmatched.toError, hposition, Source.line_eq hline hlen]
    exact Text.dropTrailing_keep (p := (· == 0x0D)) hreturn part rest

end Program

/-- Whatever the source, the line of an offset is the number of newlines before it and its column
the number of bytes since the last of them; a line is the piece of its number between the newlines,
without the carriage returns at its end; and a parse error shows the line of the bracket that the
scan names, with the bracket at the column. Offsets are 64-bit numbers that have a successor. -/
theorem Source.positions_exact (s : Source) (hlen : s.bytes.length < 2 ^ 63) :
    (∀ offset : Nat, offset ≤ s.bytes.length → offset + 1 < 2 ^ 63 →
      (s.position (Int64.ofNat offset)).line.toInt = (s.bytes.take offset).count newline ∧
      (s.position (Int64.ofNat offset)).column.toInt =
        ((s.bytes.take offset).rtakeWhile (· != newline)).length) ∧
    (∀ (k : Nat) (piece : Text), (s.bytes.splitOn newline)[k]? = some piece →
      ∃ n, piece = s.line (Int64.ofNat k) ++ List.replicate n 0x0D ∧
        (s.line (Int64.ofNat k)).getLast? ≠ some 0x0D) ∧
    ∀ e, Program.parse s = .error e → ∃ (offset : Nat) (piece : Text) (n : Nat),
      Program.scan s.bytes = .error ⟨e.bracket, offset⟩ ∧
      s.bytes[offset]? = some e.bracket.byte ∧
      e.position = s.position (Int64.ofNat offset) ∧
      (s.bytes.splitOn newline)[(s.bytes.take offset).count newline]? = some piece ∧
      piece = e.sourceLine ++ List.replicate n 0x0D ∧ e.sourceLine.getLast? ≠ some 0x0D ∧
      e.sourceLine[e.position.column.toNatClampNeg]? = some e.bracket.byte := by
  refine ⟨?_, ?_, ?_⟩
  · intro offset hle hnext
    obtain ⟨front, rest, back, hline, htake, -⟩ := LineAt.of_offset s.bytes offset
    have hplace : offset =
        front.length + ((s.bytes.take offset).rtakeWhile (· != newline)).length := by
      have := congrArg List.length htake
      simp only [List.length_append, List.length_take] at this
      omega
    have hposition := position_eq hline hlen _ (by simp) (hplace ▸ hnext)
    rw [← hplace] at hposition
    have hcount := (length_bytes hline).2
    rw [hposition]
    exact ⟨Int64.toInt_ofNat_of_lt (by omega), Int64.toInt_ofNat_of_lt (by omega)⟩
  · intro k piece hpiece
    obtain ⟨front, back, hline⟩ := LineAt.of_piece hpiece
    rw [line_eq hline hlen]
    exact Text.eq_dropTrailing_append 0x0D piece
  · intro e he
    obtain ⟨k, front, part, rest, back, hline, hscan, hloop, hposition, hsource⟩ :=
      Program.parse_error he hlen
    have hlength := (length_bytes hline).1
    have hreturn := (Program.byte_of_isLoop hloop).2
    simp only [List.length_append, List.length_cons] at hlength
    have hshown : e.sourceLine =
        Text.dropTrailing (· == 0x0D) (part ++ e.bracket.byte :: rest) := by
      rw [hsource, Text.dropTrailing_keep (p := (· == 0x0D)) hreturn]
    obtain ⟨n, hpiece, hlast⟩ := Text.eq_dropTrailing_append 0x0D (part ++ e.bracket.byte :: rest)
    rw [← hshown] at hpiece hlast
    refine ⟨front.length + part.length, part ++ e.bracket.byte :: rest, n, hscan, ?_, ?_, ?_,
      hpiece, hlast, ?_⟩
    · rw [hline.whole]
      simp
    · rw [hposition]
      exact (position_eq hline hlen part.length (by simp) (by omega)).symm
    · rw [hline.count_take]
      exact hline.piece_eq
    · rw [hposition, Int64.toNatClampNeg_ofNat_of_lt (by omega), hsource]
      simp

/-- The bracket at fault stands on the third line, behind a character of two bytes; the line ends in
two carriage returns, and the one above it has no other byte. -/
def Source.straying : Source := { file := text "a.b", bytes := text "+\n\r\n  \xE9 ] +\r\r\n]" }

theorem Source.positions_exact_straying :
    straying.bytes.length < 2 ^ 63 ∧
      (straying.position (Int64.ofNat 9)).line.toInt = 2 ∧
      (straying.position (Int64.ofNat 9)).column.toInt = 5 ∧
      (∃ n, [0x0D] = straying.line (Int64.ofNat 1) ++ List.replicate n 0x0D ∧
        (straying.line (Int64.ofNat 1)).getLast? ≠ some 0x0D) ∧
      ∃ e, Program.parse straying = .error e ∧ e.position = straying.position (Int64.ofNat 9) ∧
        (∃ n, text "  \xE9 ] +\r\r" = e.sourceLine ++ List.replicate n 0x0D ∧
          e.sourceLine.getLast? ≠ some 0x0D) ∧
        e.sourceLine[e.position.column.toNatClampNeg]? = some 0x5D := by
  have hlen : straying.bytes.length < 2 ^ 63 := by decide
  have hscan : Program.scan straying.bytes = .error ⟨.loopClose, 9⟩ := rfl
  have hsplit : straying.bytes.splitOn newline =
      [text "+", [0x0D], text "  \xE9 ] +\r\r", text "]"] := rfl
  obtain ⟨hposition, hlines, herror⟩ := positions_exact straying hlen
  obtain ⟨hline, hcolumn⟩ := hposition 9 (by decide) (by decide)
  refine ⟨hlen, hline, hcolumn, hlines 1 _ (by rw [hsplit]; rfl), _, rfl, ?_⟩
  obtain ⟨offset, piece, n, hat, -, hplace, hpiece, hshown, hlast, hbracket⟩ := herror _ rfl
  have hfault := Except.error.inj (hscan.symm.trans hat)
  obtain rfl : 9 = offset := (Program.Unmatched.mk.inj hfault).2
  obtain rfl : text "  \xE9 ] +\r\r" = piece := by
    rw [hsplit] at hpiece
    exact Option.some.inj hpiece
  exact ⟨hplace, ⟨n, hshown, hlast⟩, hbracket⟩

end TapeLang

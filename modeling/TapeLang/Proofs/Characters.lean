import TapeLang.Text.Rune

namespace TapeLang

namespace Rune

/-- The bytes of a character, by its code. -/
theorem bytes_ofNat {n : Nat} (h : n.isValidChar) : (char (Char.ofNat n)).bytes =
    if n ≤ 0x7F then [UInt8.ofNat n]
    else if n ≤ 0x7FF then [UInt8.ofNat (n / 64 % 32 + 0xC0), UInt8.ofNat (n % 64 + 0x80)]
    else if n ≤ 0xFFFF then [UInt8.ofNat (n / 4096 % 16 + 0xE0),
      UInt8.ofNat (n / 64 % 64 + 0x80), UInt8.ofNat (n % 64 + 0x80)]
    else [UInt8.ofNat (n / 262144 % 8 + 0xF0), UInt8.ofNat (n / 4096 % 64 + 0x80),
      UInt8.ofNat (n / 64 % 64 + 0x80), UInt8.ofNat (n % 64 + 0x80)] := by
  have hcode : (Char.ofNat n).val.toNat = n := by
    rw [Char.ofNat, dif_pos h]
    rfl
  simp only [bytes, String.utf8EncodeChar, hcode]

theorem ofNat_eq {n : Nat} {b : UInt8} (h : n = b.toNat) : UInt8.ofNat n = b := by
  simp [h]

theorem isContinuation_iff {b : UInt8} :
    isContinuation b = true ↔ 0x80 ≤ b.toNat ∧ b.toNat ≤ 0xBF := by
  simp [isContinuation, UInt8.le_iff_toNat_le]

/-- A byte below 0x80 is the encoding of the character with its code. -/
theorem bytes_of_lt {a : UInt8} (ha : a < 0x80) : (char (Char.ofNat a.toNat)).bytes = [a] := by
  have : a.toNat < 0x80 := by simpa [UInt8.lt_iff_toNat_lt] using ha
  rw [bytes_ofNat (.inl (by omega)), if_pos (by omega)]
  simp

theorem bytes_pair {a b : UInt8} (h : isPair a b = true) :
    (char (Char.ofNat (a.toNat % 32 * 64 + low b))).bytes = [a, b] := by
  simp only [isPair, Bool.and_eq_true, decide_eq_true_eq, isContinuation_iff, UInt8.le_iff_toNat_le,
    UInt8.reduceToNat] at h
  simp only [low]
  rw [bytes_ofNat (.inl (by omega)), if_neg (by omega), if_pos (by omega),
    ofNat_eq (b := a) (by omega), ofNat_eq (b := b) (by omega)]

theorem bytes_triple {a b c : UInt8} (h : (startsTriple a b && isContinuation c) = true) :
    (char (Char.ofNat (a.toNat % 16 * 4096 + low b * 64 + low c))).bytes = [a, b, c] := by
  simp only [startsTriple, Bool.and_eq_true, Bool.or_eq_true, beq_iff_eq, bne_iff_ne, ne_eq,
    decide_eq_true_eq, isContinuation_iff, UInt8.le_iff_toNat_le, ← UInt8.toNat_inj,
    UInt8.reduceToNat] at h
  simp only [low]
  have hvalid : (a.toNat % 16 * 4096 + b.toNat % 64 * 64 + c.toNat % 64).isValidChar := by
    unfold Nat.isValidChar
    omega
  rw [bytes_ofNat hvalid, if_neg (by omega), if_neg (by omega), if_pos (by omega),
    ofNat_eq (b := a) (by omega), ofNat_eq (b := b) (by omega), ofNat_eq (b := c) (by omega)]

theorem bytes_quad {a b c d : UInt8}
    (h : (startsQuad a b && isContinuation c && isContinuation d) = true) :
    (char (Char.ofNat (a.toNat % 8 * 262144 + low b * 4096 + low c * 64 + low d))).bytes =
      [a, b, c, d] := by
  simp only [startsQuad, Bool.and_eq_true, Bool.or_eq_true, beq_iff_eq,
    decide_eq_true_eq, isContinuation_iff, UInt8.le_iff_toNat_le, ← UInt8.toNat_inj,
    UInt8.reduceToNat] at h
  simp only [low]
  rw [bytes_ofNat (.inr (by omega)), if_neg (by omega), if_neg (by omega), if_neg (by omega),
    ofNat_eq (b := a) (by omega), ofNat_eq (b := b) (by omega), ofNat_eq (b := c) (by omega),
    ofNat_eq (b := d) (by omega)]

/-- The rune at the front of a text is the encoding of its first bytes. -/
theorem first_spec (a : UInt8) (rest : Text) :
    (first a rest).1.bytes = a :: rest.take (first a rest).2 ∧
      (first a rest).2 ≤ rest.length := by
  fun_cases first a rest with
  | case1 rest h => simp [bytes_of_lt h]
  | case2 b c d rest _ h => simp [bytes_pair h]
  | case3 b c d rest _ _ h => simp [bytes_triple h]
  | case4 b c d rest _ _ _ h => simp [bytes_quad h]
  | case6 b c _ h => simp [bytes_pair h]
  | case7 b c _ _ h => simp [bytes_triple h]
  | case9 b _ h => simp [bytes_pair h]
  | case5 | case8 | case10 | case11 => simp [bytes]

/-- A byte below 0x80 continues no encoding. -/
theorem continues_nothing {b : UInt8} (hb : b < 0x80) : isContinuation b = false ∧
    ∀ a, isPair a b = false ∧ startsTriple a b = false ∧ startsQuad a b = false := by
  have hlow : b.toNat < 0x80 := by simpa [UInt8.lt_iff_toNat_lt] using hb
  have hnot : isContinuation b = false := by
    rw [Bool.eq_false_iff, ne_eq, isContinuation_iff]
    omega
  -- the ranges of a second byte all start at 0x80 or above
  have habove {c : UInt8} (hc : 0x80 ≤ c.toNat) : ¬ c ≤ b := by
    rw [UInt8.le_iff_toNat_le]
    omega
  refine ⟨hnot, fun a => ⟨?_, ?_, ?_⟩⟩
  · simp [isPair, hnot]
  · simp [startsTriple, hnot, habove]
  · simp [startsQuad, hnot, habove]

theorem first_append {b : UInt8} (hb : b < 0x80) (a : UInt8) (t u : Text) :
    first a (t ++ b :: u) = first a t := by
  obtain ⟨hnot, hstart⟩ := continues_nothing hb
  match t with
  | [] => rcases u with _ | ⟨c, _ | ⟨d, u⟩⟩ <;> simp [first, hstart]
  | [x] => rcases u with _ | ⟨c, u⟩ <;> simp [first, hnot]
  | [x, y] => simp [first, hnot]
  | x :: y :: z :: t => simp [first]

end Rune

namespace Text

theorem ofRunes_runesAfter (skip : Nat) (t : Text) : ofRunes (runesAfter skip t) = t.drop skip := by
  induction t generalizing skip with
  | nil => simp [runesAfter, ofRunes]
  | cons a t ih =>
    cases skip with
    | succ skip => simpa [runesAfter] using ih skip
    | zero =>
      have hrest := ih (Rune.first a t).2
      simp only [ofRunes] at hrest
      simp [runesAfter, ofRunes, hrest, (Rune.first_spec a t).1]

/-- Nothing is lost between a text and its characters. -/
theorem ofRunes_runes (t : Text) : ofRunes t.runes = t := ofRunes_runesAfter 0 t

/-- The characters up to a byte below 0x80 do not depend on what follows. -/
theorem runesAfter_append {b : UInt8} (hb : b < 0x80) (u : Text) {skip : Nat} {t : Text}
    (hskip : skip ≤ t.length) :
    runesAfter skip (t ++ b :: u) = runesAfter skip t ++ runesAfter 0 (b :: u) := by
  induction t generalizing skip with
  | nil =>
    obtain rfl : skip = 0 := by simpa using hskip
    rfl
  | cons a t ih =>
    cases skip with
    | succ skip => simpa [runesAfter] using ih (by simpa using hskip)
    | zero =>
      have hrest := ih (Rune.first_spec a t).2
      simp [runesAfter, Rune.first_append hb, hrest]

theorem runes_cons {b : UInt8} (hb : b < 0x80) (t : Text) :
    runes (b :: t) = .char (Char.ofNat b.toNat) :: runes t := by
  simp [runes, runesAfter, Rune.first, hb]

/-- A byte below 0x80 cuts a text between two characters, and is one itself. -/
theorem runes_cut {b : UInt8} (hb : b < 0x80) (t u : Text) :
    runes (t ++ b :: u) = runes t ++ .char (Char.ofNat b.toNat) :: runes u := by
  rw [← runes_cons hb]
  exact runesAfter_append hb u t.length.zero_le

/-- Every byte is a character of its own. -/
def Ascii (t : Text) : Prop := ∀ b ∈ t, b < 0x80

theorem ascii_append {t u : Text} : Ascii (t ++ u) ↔ Ascii t ∧ Ascii u := by
  simp [Ascii, or_imp, forall_and]

theorem ascii_blanks (n : Nat) : Ascii (blanks n) := by
  intro b hb
  rw [List.eq_of_mem_replicate hb]
  decide

theorem not_mem_blanks {b : UInt8} (hb : b ≠ space) (n : Nat) : b ∉ blanks n := by
  simp [blanks, hb]

theorem runeCount_append {t : Text} (ht : Ascii t) (u : Text) :
    runeCount (t ++ u) = t.length + runeCount u := by
  induction t with
  | nil => simp
  | cons b t ih =>
    have hrest := ih fun c hc => ht c (List.mem_cons_of_mem b hc)
    simp only [runeCount] at hrest
    simp only [List.cons_append, runeCount, runes_cons (ht b List.mem_cons_self), List.length_cons,
      hrest]
    omega

theorem runeCount_ascii {t : Text} (ht : Ascii t) : runeCount t = t.length := by
  simpa [runeCount, runes, runesAfter] using runeCount_append ht []

theorem length_ofRunes (rs : List Rune) : rs.length ≤ (ofRunes rs).length ∧
    (rs.length = (ofRunes rs).length ↔ ∀ r ∈ rs, r.bytes.length = 1) := by
  induction rs with
  | nil => simp [ofRunes]
  | cons r rs ih =>
    have hpos : 0 < r.bytes.length := by
      cases r <;> simp [Rune.bytes, Char.utf8Size_pos]
    simp only [ofRunes] at ih
    simp only [ofRunes, List.flatMap_cons, List.length_append, List.length_cons,
      List.forall_mem_cons, ← ih.2]
    omega

/-- A text has as many characters as bytes exactly when each has one byte. -/
theorem runeCount_eq_length_iff (t : Text) :
    t.runeCount = t.length ↔ ∀ r ∈ t.runes, r.bytes.length = 1 := by
  have h := (length_ofRunes t.runes).2
  rwa [ofRunes_runes] at h

/-- Lines that each end with a newline are the pieces between the newlines. -/
theorem splitOn_lines {ls : List Text} (h : ∀ l ∈ ls, newline ∉ l) :
    (ls.map (· ++ [newline])).flatten.splitOn newline = ls ++ [[]] := by
  induction ls with
  | nil => rfl
  | cons l ls ih =>
    rw [List.map_cons, List.flatten_cons, List.append_assoc, List.singleton_append,
      List.splitOn_append_cons_self_of_not_mem (h l List.mem_cons_self),
      ih fun l' hl' => h l' (List.mem_cons_of_mem l hl')]
    rfl

end Text

end TapeLang

import Mathlib.Algebra.Group.Nat.Defs
import TapeLang.Failure.Report
import TapeLang.Proofs.Characters
import TapeLang.Proofs.Numerals
import TapeLang.Proofs.Positions

namespace TapeLang

open Text (newline)

namespace Text

def bar : UInt8 := 0x7C

def caret : UInt8 := 0x5E

/-- The number of characters in front of the first `b`. -/
def charsBefore (b : UInt8) (t : Text) : Nat := runeCount (t.takeWhile (· != b))

theorem charsBefore_append {b : UInt8} {t : Text} (ht : Ascii t) (hb : b ∉ t) (u : Text) :
    charsBefore b (t ++ b :: u) = t.length := by
  have hpass : ∀ c ∈ t, (c != b) = true := by
    intro c hc
    rw [bne_iff_ne]
    rintro rfl
    exact hb hc
  rw [charsBefore, List.takeWhile_append_of_pos hpass, List.takeWhile_cons_of_neg (by simp),
    List.append_nil, runeCount_ascii ht]

theorem integer_ofNat (n : Nat) : integer n = decimal n := by
  have hsign : ¬ (n : Int) < 0 := by omega
  simp [integer, hsign]

theorem ascii_decimal (n : Nat) : Ascii (decimal n) := by
  intro b hb
  have hdigit := isDigit_of_mem hb
  simp only [isDigit, Bool.and_eq_true, decide_eq_true_eq] at hdigit
  exact UInt8.lt_of_le_of_lt hdigit.2 (by decide)

theorem mem_of_mem_dropTrailing {p : UInt8 → Bool} {b : UInt8} {t : Text}
    (h : b ∈ dropTrailing p t) : b ∈ t := by
  rw [dropTrailing, List.mem_reverse] at h
  exact List.mem_reverse.mp ((List.dropWhile_sublist p).subset h)

end Text

namespace Report

open Text

/-- The number of the source line, flush right. -/
def number (r : Report) : Text := padLeft r.gutter (integer r.line.toInt)

/-- The line with the caret. -/
def pointer (r : Report) : Text :=
  blanks r.gutter ++ text " | " ++ blanks (r.column - 1).toNatClampNeg ++ text "^"

variable {r : Report} {n : Nat}

theorem length_decimal_le_gutter (h : r.line.toInt = n) : (decimal n).length ≤ r.gutter := by
  unfold gutter
  split
  · rw [h, integer_ofNat]
  · rename_i hsmall
    have hbound : ((100 : Int64).toInt) = 100 := by decide
    rw [ge_iff_le, Int64.le_iff_toInt_le, h, hbound] at hsmall
    rw [length_decimal_le (by omega)]
    omega

theorem number_eq (h : r.line.toInt = n) :
    r.number = blanks (r.gutter - (decimal n).length) ++ decimal n := by
  rw [number, padLeft, h, integer_ofNat]

theorem length_number (h : r.line.toInt = n) : r.number.length = r.gutter := by
  have hle := length_decimal_le_gutter h
  rw [number_eq h, List.length_append, blanks, List.length_replicate]
  omega

theorem ascii_number (h : r.line.toInt = n) : Ascii r.number := by
  rw [number_eq h]
  exact ascii_append.mpr ⟨ascii_blanks _, ascii_decimal n⟩

theorem not_mem_number (h : r.line.toInt = n) {b : UInt8} (hspace : b ≠ space)
    (hdigit : isDigit b = false) : b ∉ r.number := by
  rw [number_eq h]
  simp [not_mem_blanks hspace, not_mem_decimal hdigit]

/-- The report of a bracket ends with four lines, the last one empty. -/
theorem splitOn_render (painter : Painter) (h : r.line.toInt = n) (hcolumn : r.column > 0)
    (hsource : r.sourceLine ≠ []) (hplain : newline ∉ r.sourceLine) (hnote : r.note ≠ [])
    (hnoted : newline ∉ r.note) : ∃ above remark,
      (r.render painter false).splitOn newline =
        above ++ [r.number ++ text " | " ++ r.sourceLine, r.pointer, remark, []] := by
  let remark := blanks r.gutter ++ text " = " ++ text "note: " ++ r.note
  let top := headline painter false {} r ++ place painter false {} r ++ blanks r.gutter ++ text " |"
  have hrender : r.render painter false = top ++ newline :: (r.number ++ text " | " ++
      r.sourceLine ++ newline :: (r.pointer ++ newline :: (remark ++ newline :: []))) := by
    have hbar : text " |\n" = text " |" ++ [newline] := rfl
    simp [render, excerpt, caretLine, noteLine, hcolumn, hsource, hnote, paint, top, number,
      pointer, remark, hbar]
  have hspace : newline ≠ space := by decide
  have hbar : newline ∉ text " | " := by decide
  have hshown : newline ∉ r.number ++ text " | " ++ r.sourceLine := by
    have hnumber := not_mem_number h hspace rfl
    simp [hnumber, hbar, hplain]
  have hpointer : newline ∉ r.pointer := by
    have hcaret : newline ∉ text "^" := by decide
    simp [pointer, hbar, hcaret, not_mem_blanks hspace]
  have hremark : newline ∉ remark := by
    have hequals : newline ∉ text " = " ++ text "note: " := by decide
    simp only [List.mem_append, not_or] at hequals
    simp [remark, hequals, hnoted, not_mem_blanks hspace]
  refine ⟨top.splitOn newline, remark, ?_⟩
  rw [hrender, List.splitOn_append_cons_self, List.splitOn_append_cons_self_of_not_mem hshown,
    List.splitOn_append_cons_self_of_not_mem hpointer,
    List.splitOn_append_cons_self_of_not_mem hremark]
  rfl

theorem text_bar : text " | " = [space, bar, space] := rfl

theorem text_caret : text "^" = [caret] := rfl

/-- The bars of the two lines stand in the same column. -/
theorem bars_aligned (h : r.line.toInt = n) (u : Text) :
    charsBefore bar (r.number ++ text " | " ++ u) = charsBefore bar r.pointer := by
  have hspace : bar ≠ space := by decide
  have hnumber : charsBefore bar ((r.number ++ blanks 1) ++ bar :: space :: u) = r.gutter + 1 := by
    rw [charsBefore_append]
    · simp [length_number h, blanks]
    · exact ascii_append.mpr ⟨ascii_number h, ascii_blanks 1⟩
    · simp [not_mem_number h hspace rfl, not_mem_blanks hspace]
  have hpointer (v : Text) :
      charsBefore bar ((blanks r.gutter ++ blanks 1) ++ bar :: space :: v) = r.gutter + 1 := by
    rw [charsBefore_append]
    · simp [blanks]
    · exact ascii_append.mpr ⟨ascii_blanks _, ascii_blanks 1⟩
    · simp [not_mem_blanks hspace]
  rw [pointer, text_bar]
  simpa [blanks] using hnumber.trans (hpointer _).symm

/-- The caret stands behind the margin and one blank for each byte before the column. -/
theorem charsBefore_caret (r : Report) :
    charsBefore caret r.pointer = r.gutter + 3 + (r.column - 1).toNatClampNeg := by
  have hspace : caret ≠ space := by decide
  have hbar : caret ∉ text " | " := by decide
  have hlow : Ascii (text " | ") := by
    rw [text_bar]
    simp [Ascii, space, bar]
  rw [pointer, text_caret, charsBefore_append]
  · simp only [List.length_append, blanks, List.length_replicate, text_bar, List.length_cons,
      List.length_nil]
  · exact ascii_append.mpr ⟨ascii_append.mpr ⟨ascii_blanks _, hlow⟩, ascii_blanks _⟩
  · simp [not_mem_blanks hspace, hbar]

theorem ascii_margin (h : r.line.toInt = n) : Ascii (r.number ++ text " | ") := by
  rw [ascii_append, text_bar]
  refine ⟨ascii_number h, ?_⟩
  simp [Ascii, space, bar]

theorem length_margin (h : r.line.toInt = n) :
    (r.number ++ text " | ").length = r.gutter + 3 := by
  simp [length_number h, text_bar]

/-- The report counts lines and columns from one. -/
theorem place_of_position {e : ParseError} {k c : Nat} (hline : e.position.line = Int64.ofNat k)
    (hcolumn : e.position.column = Int64.ofNat c) (hk : k + 1 < 2 ^ 63) (hc : c + 1 < 2 ^ 63) :
    (ofParseError e).line.toInt = (k + 1 : Nat) ∧ (ofParseError e).column > 0 ∧
      ((ofParseError e).column - 1).toNatClampNeg = c := by
  have hnumber : (ofParseError e).line = Int64.ofNat (k + 1) := by
    rw [Int64.ofNat_add, ← hline]
    rfl
  have hplace : (ofParseError e).column = Int64.ofNat c + 1 := by
    rw [← hcolumn]
    rfl
  refine ⟨by rw [hnumber, Int64.toInt_ofNat_of_lt hk], ?_, ?_⟩
  · have hvalue : (Int64.ofNat c + 1).toInt = (c + 1 : Nat) :=
      (congrArg Int64.toInt (Int64.ofNat_add c 1).symm).trans (Int64.toInt_ofNat_of_lt hc)
    rw [hplace, gt_iff_lt, Int64.lt_iff_toInt_lt, hvalue, Int64.toInt_zero]
    omega
  · rw [hplace, Int64.add_sub_cancel, Int64.toNatClampNeg_ofNat_of_lt (by omega)]

theorem note_ofParseError (e : ParseError) :
    (ofParseError e).note ≠ [] ∧ newline ∉ (ofParseError e).note := by
  simp only [ofParseError]
  split
  · exact ⟨by decide, by decide⟩
  · exact ⟨by decide, by decide⟩

/-- With a blank for each byte of `part`, as many characters stand before the caret as the margin
and `part` have bytes. -/
theorem caret_behind (h : r.line.toInt = n) {part : Text}
    (hcolumn : (r.column - 1).toNatClampNeg = part.length) :
    charsBefore caret r.pointer = (r.number ++ text " | " ++ part).length ∧
    charsBefore caret r.pointer + part.runeCount =
      (r.number ++ text " | " ++ part).runeCount + part.length ∧
    (charsBefore caret r.pointer = (r.number ++ text " | " ++ part).runeCount ↔
      ∀ c ∈ part.runes, c.bytes.length = 1) := by
  have hbytes : charsBefore caret r.pointer =
      (r.number ++ text " | ").length + part.length := by
    rw [charsBefore_caret, hcolumn, length_margin h]
  have hchars := runeCount_append (ascii_margin h) part
  rw [← runeCount_eq_length_iff]
  refine ⟨?_, ?_, ?_⟩
  · exact hbytes.trans List.length_append.symm
  · omega
  · omega

end Report

theorem Kind.byte_lt (kind : Kind) : kind.byte < 0x80 := by
  cases kind <;> simp [byte]

/-- What stands on its line before an offset of the source. -/
def Source.before (s : Source) (offset : Nat) : Text :=
  (s.bytes.take offset).rtakeWhile (· != newline)

open Text

/-- A rejected source is reported with the line of its bracket and a line with a caret, their bars
in the same column. As many characters stand before the caret as bytes before the bracket, so the
caret is off to the right by the bytes that the characters there have beyond their first. -/
theorem Failure.caret_counts_bytes (painter : Painter) {s : Source} {e : ParseError}
    (h : Program.parse s = .error e) (hlen : s.bytes.length < 2 ^ 63) :
    ∃ (offset : Nat) (above : List Text) (margin rest pointer remark : Text),
      Program.scan s.bytes = .error ⟨e.bracket, offset⟩ ∧
      (∃ n, margin = blanks n ++ decimal ((s.bytes.take offset).count newline + 1) ++ text " | ") ∧
      e.sourceLine = s.before offset ++ e.bracket.byte :: rest ∧
      ((Failure.parse e).render painter false).splitOn newline =
        above ++ [margin ++ e.sourceLine, pointer, remark, []] ∧
      charsBefore bar (margin ++ e.sourceLine) = charsBefore bar pointer ∧
      (margin ++ e.sourceLine).runes = (margin ++ s.before offset).runes ++
        Rune.char (Char.ofNat e.bracket.byte.toNat) :: rest.runes ∧
      charsBefore caret pointer = (margin ++ s.before offset).length ∧
      charsBefore caret pointer + (s.before offset).runeCount =
        (margin ++ s.before offset).runeCount + (s.before offset).length ∧
      (charsBefore caret pointer = (margin ++ s.before offset).runeCount ↔
        ∀ r ∈ (s.before offset).runes, r.bytes.length = 1) := by
  obtain ⟨k, front, part, rest, back, hline, hscan, -, hposition, hsource⟩ :=
    Program.parse_error h hlen
  obtain ⟨hlength, hk⟩ := Source.length_bytes hline
  simp only [List.length_append, List.length_cons] at hlength
  have hbefore : s.before (front.length + part.length) = part := hline.rtakeWhile_take
  obtain ⟨hnumber, hpositive, hcolumn⟩ := Report.place_of_position
    (congrArg Position.line hposition) (congrArg Position.column hposition) (by omega) (by omega)
  obtain ⟨hnote, hnoted⟩ := Report.note_ofParseError e
  have hplain : newline ∉ e.sourceLine := by
    intro hmem
    rw [hsource, List.mem_append, List.mem_cons] at hmem
    apply hline.plain
    rw [List.mem_append, List.mem_cons]
    exact hmem.imp_right (.imp_right mem_of_mem_dropTrailing)
  obtain ⟨above, remark, hlines⟩ := Report.splitOn_render painter hnumber hpositive
    (by simp [Report.ofParseError, hsource]) hplain hnote hnoted
  refine ⟨front.length + part.length, above, (Report.ofParseError e).number ++ text " | ",
    Text.dropTrailing (· == 0x0D) rest, (Report.ofParseError e).pointer, remark, hscan, ?_, ?_,
    hlines, Report.bars_aligned hnumber _, ?_, ?_⟩
  · rw [hline.count_take, Report.number_eq hnumber]
    exact ⟨_, rfl⟩
  · rw [hbefore]
    exact hsource
  · rw [hbefore, hsource, ← List.append_assoc]
    exact runes_cut e.bracket.byte_lt _ _
  · rw [hbefore]
    exact Report.caret_behind hnumber hcolumn

/-- The bracket has five bytes before it on its line and four characters. -/
theorem Failure.caret_counts_bytes_straying :
    Source.straying.bytes.length < 2 ^ 63 ∧ ∃ e, Program.parse Source.straying = .error e ∧
      ∃ above margin pointer remark, ((Failure.parse e).render .ansi false).splitOn newline =
          above ++ [margin ++ text "  \xE9 ] +", pointer, remark, []] ∧
        charsBefore bar (margin ++ text "  \xE9 ] +") = charsBefore bar pointer ∧
        charsBefore caret pointer = (margin ++ text "  \xE9 ").runeCount + 1 := by
  have hlen : Source.straying.bytes.length < 2 ^ 63 := by decide
  have hscan : Program.scan Source.straying.bytes = .error ⟨.loopClose, 9⟩ := rfl
  refine ⟨hlen, _, rfl, ?_⟩
  obtain ⟨offset, above, margin, rest, pointer, remark, hat, -, -, hlines, hbars, -, -, hcount,
    -⟩ := caret_counts_bytes .ansi (s := Source.straying) rfl hlen
  have hfault := Except.error.inj (hscan.symm.trans hat)
  obtain rfl : 9 = offset := (Program.Unmatched.mk.inj hfault).2
  have hbefore : Source.straying.before 9 = text "  \xE9 " := rfl
  have hchars : (text "  \xE9 ").runeCount = 4 := rfl
  have hbytes : (text "  \xE9 ").length = 5 := rfl
  rw [hbefore, hchars, hbytes] at hcount
  exact ⟨above, margin, pointer, remark, hlines, hbars, by omega⟩

def Source.accented : Source := { file := [], bytes := text "\xE9[" }

/-- Behind a character of two bytes the bracket is the seventh character of its line, and the caret
below it the eighth. -/
theorem Failure.caret_misses_bracket : ∃ e above remark, Program.parse Source.accented = .error e ∧
    ((Failure.parse e).render .ansi false).splitOn newline =
      above ++ [text " 1 | \xE9[", text "   |   ^", remark, []] ∧
    charsBefore Kind.loopOpen.byte (text " 1 | \xE9[") = 6 ∧
    charsBefore caret (text "   |   ^") = 7 := by
  let e : ParseError := ⟨.loopOpen, ⟨2, 0, 2, []⟩, text "\xE9["⟩
  obtain ⟨hnote, hnoted⟩ := Report.note_ofParseError e
  obtain ⟨above, remark, hlines⟩ := Report.splitOn_render .ansi (r := Report.ofParseError e)
    (n := 1) rfl (by decide) (by decide) (by decide) hnote hnoted
  have hshown : (Report.ofParseError e).number ++ text " | " ++ e.sourceLine =
      text " 1 | \xE9[" := by decide
  have hpointer : (Report.ofParseError e).pointer = text "   |   ^" := by decide
  refine ⟨e, above, remark, rfl, ?_, rfl, rfl⟩
  rw [← hshown, ← hpointer]
  exact hlines

end TapeLang

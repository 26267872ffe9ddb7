import Mathlib.Algebra.GroupWithZero.Nat
import Mathlib.Data.List.Forall2
import Mathlib.Order.Bounds.Basic
import Mathlib.Order.MinMax
import TapeLang.Proofs.Sequences
import TapeLang.Table

namespace TapeLang

open Text (newline blanks Lone Wide visibleWidth wide_iff)

/-- The blanks in front of a cell and behind it stand on the side that the alignment names. In the
middle there are as many on both sides, or one more behind. -/
def Alignment.Splits : Alignment → Nat → Nat → Prop
  | left, before, _ => before = 0
  | center, before, behind => before ≤ behind ∧ behind ≤ before + 1
  | right, _, behind => behind = 0

namespace Table

/-- There are as many widths as the longest row has cells, and each is that of the widest cell in
its column. -/
structure Measured (rows : List (List Text)) (ws : List Nat) : Prop where
  columns : IsGreatest {n | ∃ row ∈ rows, row.length = n} ws.length
  cells : ∀ (i w : Nat), ws[i]? = some w →
    IsGreatest {n | ∃ row ∈ rows, ∃ cell : Text, row[i]? = some cell ∧ cell.Wide n} w

theorem length_widest (vs ws : List Nat) : (widest vs ws).length = max vs.length ws.length := by
  fun_induction widest vs ws with
  | case1 ws => simp
  | case2 vs => simp
  | case3 v vs w ws ih =>
    simp only [List.length_cons, ih]
    omega

theorem getElem?_widest (vs ws : List Nat) (i : Nat) :
    (widest vs ws)[i]? = Option.merge max vs[i]? ws[i]? := by
  fun_induction widest vs ws generalizing i with
  | case1 ws => simp
  | case2 vs => simp
  | case3 v vs w ws ih =>
    cases i with
    | zero => simp
    | succ i => simpa using ih i

/-- The larger of two widths, of which one may be missing, is no less than either. -/
theorem le_of_merge {o o' : Option Nat} {v w : Nat} (hv : o = some v ∨ o' = some v)
    (hw : Option.merge max o o' = some w) : v ≤ w := by
  rcases Option.merge_eq_some_iff.mp hw with ⟨rfl, rfl⟩ | ⟨rfl, rfl⟩ | ⟨a, b, rfl, rfl, rfl⟩
  all_goals
    simp only [Option.some.injEq, reduceCtorEq, or_false, false_or] at hv
    omega

namespace Measured

variable {rows : List (List Text)} {ws : List Nat} {row : List Text} {i : Nat} {cell : Text}

/-- A cell has a column, which it fits into. -/
theorem fits (h : Measured rows ws) (hrow : row ∈ rows) (hcell : row[i]? = some cell) :
    ∃ w, ws[i]? = some w ∧ cell.visibleWidth ≤ w := by
  have hlen : row.length ≤ ws.length := h.columns.2 ⟨row, hrow, rfl⟩
  obtain ⟨hi, -⟩ := List.getElem?_eq_some_iff.mp hcell
  have hw := List.getElem?_eq_getElem (Nat.lt_of_lt_of_le hi hlen)
  exact ⟨_, hw, (h.cells i _ hw).2 ⟨row, hrow, cell, hcell, wide_iff.mpr rfl⟩⟩

theorem first (row : List Text) : Measured [row] (row.map visibleWidth) := by
  refine ⟨⟨⟨row, by simp⟩, ?_⟩, ?_⟩
  · rintro n ⟨other, hother, rfl⟩
    simp [List.mem_singleton.mp hother]
  · intro i w hw
    rw [List.getElem?_map, Option.map_eq_some_iff] at hw
    obtain ⟨cell, hcell, rfl⟩ := hw
    refine ⟨⟨row, List.mem_singleton_self row, cell, hcell, wide_iff.mpr rfl⟩, ?_⟩
    rintro n ⟨other, hother, cell', hcell', hn⟩
    rw [List.mem_singleton.mp hother, hcell] at hcell'
    rw [← wide_iff.mp hn, Option.some.inj hcell']

/-- One more row is measured. -/
theorem step (h : Measured rows ws) (row : List Text) :
    Measured (rows ++ [row]) (widest ws (row.map visibleWidth)) := by
  have hrow : row ∈ rows ++ [row] := by simp
  constructor
  · rw [length_widest, List.length_map]
    constructor
    · rcases Nat.le_total row.length ws.length with hle | hle
      · obtain ⟨longest, hlongest, hlen⟩ := h.columns.1
        exact ⟨longest, List.mem_append_left _ hlongest, by omega⟩
      · exact ⟨row, hrow, by omega⟩
    · rintro n ⟨other, hother, rfl⟩
      rcases List.mem_append.mp hother with hold | hnew
      · have hle : other.length ≤ ws.length := h.columns.2 ⟨other, hold, rfl⟩
        omega
      · rw [List.mem_singleton.mp hnew]
        omega
  · intro i w hw
    rw [getElem?_widest, List.getElem?_map] at hw
    constructor
    · rcases Option.merge_eq_or_eq max_choice ws[i]? (row[i]?.map visibleWidth) with hold | hnew
      · obtain ⟨other, hother, hcell⟩ := (h.cells i w (hold ▸ hw)).1
        exact ⟨other, List.mem_append_left _ hother, hcell⟩
      · obtain ⟨cell, hcell, hwide⟩ := Option.map_eq_some_iff.mp (hnew ▸ hw)
        exact ⟨row, hrow, cell, hcell, wide_iff.mpr hwide⟩
    · rintro n ⟨other, hother, cell, hcell, hn⟩
      rw [← wide_iff.mp hn]
      rcases List.mem_append.mp hother with hold | hnew
      · obtain ⟨v, hv, hle⟩ := h.fits hold hcell
        exact Nat.le_trans hle (le_of_merge (.inl hv) hw)
      · rw [List.mem_singleton.mp hnew] at hcell
        exact le_of_merge (.inr (by rw [hcell, Option.map_some])) hw

/-- All rows are measured, one after the other. -/
theorem foldl (h : Measured rows ws) (more : List (List Text)) :
    Measured (rows ++ more)
      (more.foldl (fun ws row => widest ws (row.map visibleWidth)) ws) := by
  induction more generalizing rows ws with
  | nil => rwa [List.append_nil]
  | cons row more ih =>
    have hmore := ih (h.step row)
    rwa [List.append_assoc] at hmore

end Measured

theorem measured_widths (t : Table) : Measured (t.header :: t.rows) t.widths :=
  (Measured.first t.header).foldl t.rows

/-- A padded cell fills its column. -/
theorem pad_eq {width : Nat} {cell : Text} (h : cell.visibleWidth ≤ width) (align : Alignment) :
    ∃ before behind, pad width align cell = blanks before ++ cell ++ blanks behind ∧
      align.Splits before behind ∧ before + cell.visibleWidth + behind = width := by
  unfold pad
  cases align with
  | left => exact ⟨0, width - cell.visibleWidth, rfl, rfl, by omega⟩
  | center =>
    refine ⟨_, _, rfl, ?_, ?_⟩
    · simp only [Alignment.Splits]
      omega
    · omega
  | right => exact ⟨width - cell.visibleWidth, 0, by simp [blanks], rfl, by omega⟩

theorem getElem?_padded (ws : List Nat) (aligns : List Alignment) (cells : List Text) (i : Nat) :
    (padded ws aligns cells)[i]? =
      ws[i]?.map fun w => pad w (aligns.getD i .left) (cells.getD i []) := by
  induction ws generalizing aligns cells i with
  | nil => simp [padded]
  | cons w ws ih =>
    cases i with
    | zero => cases aligns <;> cases cells <;> simp [padded]
    | succ i => cases aligns <;> cases cells <;> simp [padded, ih]

/-- A field of a row: a blank, the cell as it is with further blanks where its alignment puts them,
and a blank. -/
def IsField (width : Nat) (align : Alignment) (cell field : Text) : Prop :=
  ∃ before behind n, field = text " " ++ blanks before ++ cell ++ blanks behind ++ text " " ∧
    align.Splits before behind ∧ cell.Wide n ∧ before + n + behind = width

/-- A bar and, for every column, a field with a bar behind it. A row that ends early goes on with
empty cells, and alignments that are not given are to the left. -/
def IsRow (ws : List Nat) (aligns : List Alignment) (cells : List Text) (line : Text) : Prop :=
  ∃ fields : List Text, fields.length = ws.length ∧
    line = text "|" ++ fields.flatMap (· ++ text "|") ∧
    ∀ (i width : Nat) (field : Text), ws[i]? = some width → fields[i]? = some field →
      IsField width (aligns.getD i .left) (cells.getD i []) field

theorem IsField.visibleWidth {width : Nat} {align : Alignment} {cell field : Text}
    (h : IsField width align cell field) : field.visibleWidth = width + 2 := by
  have hblanks (n : Nat) : ∀ b ∈ blanks n, Lone b := by
    intro b hb
    rw [List.eq_of_mem_replicate hb]
    decide
  obtain ⟨before, behind, n, rfl, -, hcell, hwidth⟩ := h
  have hspace : text " " = blanks 1 := rfl
  rw [hspace, Text.visibleWidth_before (hblanks 1), Text.visibleWidth_before (hblanks behind),
    List.append_assoc, Text.visibleWidth_behind (hblanks 1),
    Text.visibleWidth_behind (hblanks before), wide_iff.mp hcell]
  simp only [blanks, List.length_replicate]
  omega

/-- Bars keep apart what the fields hold. -/
theorem visibleWidth_fields (fields : List Text) :
    visibleWidth (fields.flatMap (· ++ text "|")) = (fields.map (visibleWidth · + 1)).sum := by
  have hbar : text "|" = [0x7C] := rfl
  induction fields with
  | nil => rfl
  | cons field fields ih =>
    rw [List.flatMap_cons, hbar, List.append_assoc, List.singleton_append,
      Text.visibleWidth_append (by decide), ← hbar, ih, List.map_cons, List.sum_cons]

theorem IsRow.visibleWidth {ws : List Nat} {aligns : List Alignment} {cells : List Text}
    {line : Text} (h : IsRow ws aligns cells line) :
    line.visibleWidth = 1 + (ws.map (· + 3)).sum := by
  have hbar : text "|" = [0x7C] := rfl
  obtain ⟨fields, hlen, rfl, hfields⟩ := h
  have hwidths : fields.map (Text.visibleWidth · + 1) = ws.map (· + 3) := by
    apply List.ext_getElem
    · rw [List.length_map, List.length_map, hlen]
    · intro i hi hi'
      rw [List.length_map] at hi hi'
      have hfield := hfields i _ _ (List.getElem?_eq_getElem hi') (List.getElem?_eq_getElem hi)
      rw [List.getElem_map, List.getElem_map, hfield.visibleWidth]
  have hinside := visibleWidth_fields fields
  rw [hbar] at hinside ⊢
  rw [List.singleton_append, Text.visibleWidth_cons (by decide), hinside, hwidths]

def rowText (ws : List Nat) (aligns : List Alignment) (cells : List Text) : Text :=
  text "|" ++ (padded ws aligns cells).flatMap fun cell => text " " ++ cell ++ text " |"

def rule (ws : List Nat) : Text :=
  text "+" ++ ws.flatMap fun w => Text.times (w + 2) (text "-") ++ text "+"

theorem visibleWidth_rule (ws : List Nat) :
    (rule ws).visibleWidth = 1 + (ws.map (· + 3)).sum := by
  have hdashes (n : Nat) : Text.times n (text "-") = List.replicate n 0x2D :=
    List.flatten_replicate_singleton
  have hlone (w : Nat) : ∀ b ∈ Text.times (w + 2) (text "-") ++ text "+", Lone b := by
    intro b hb
    rw [hdashes] at hb
    rcases List.mem_append.mp hb with hdash | hplus
    · rw [List.eq_of_mem_replicate hdash]
      decide
    · rw [List.mem_singleton.mp hplus]
      decide
  have hlen (w : Nat) : (Text.times (w + 2) (text "-") ++ text "+").length = w + 3 := by
    rw [hdashes, List.length_append, List.length_replicate]
    rfl
  have hsum : visibleWidth (ws.flatMap fun w => Text.times (w + 2) (text "-") ++ text "+") =
      (ws.map (· + 3)).sum := by
    induction ws with
    | nil => rfl
    | cons w ws ih =>
      rw [List.flatMap_cons, Text.visibleWidth_behind (hlone w), hlen, ih, List.map_cons,
        List.sum_cons]
  have hplus : text "+" = [0x2B] := rfl
  rw [hplus] at hsum
  rw [rule, hplus, List.singleton_append, Text.visibleWidth_cons (by decide), hsum]

theorem length_padded (ws : List Nat) (aligns : List Alignment) (cells : List Text) :
    (padded ws aligns cells).length = ws.length := by
  induction ws generalizing aligns cells with
  | nil => rfl
  | cons w ws ih => simp [padded, ih]

theorem isRow_rowText {ws : List Nat} {cells : List Text}
    (h : ∀ (i w : Nat), ws[i]? = some w → (cells.getD i []).visibleWidth ≤ w)
    (aligns : List Alignment) : IsRow ws aligns cells (rowText ws aligns cells) := by
  refine ⟨(padded ws aligns cells).map fun cell => text " " ++ cell ++ text " ", ?_, ?_, ?_⟩
  · rw [List.length_map, length_padded]
  · have hend : text " |" = text " " ++ text "|" := rfl
    simp only [rowText, List.flatMap_map, hend, List.append_assoc]
  · intro i width field hwidth hfield
    rw [List.getElem?_map, getElem?_padded, hwidth, Option.map_some, Option.map_some] at hfield
    obtain ⟨before, behind, hpad, hsplits, hfills⟩ :=
      pad_eq (h i width hwidth) (aligns.getD i .left)
    refine ⟨before, behind, _, ?_, hsplits, wide_iff.mpr rfl, hfills⟩
    rw [← Option.some.inj hfield, hpad]
    simp

/-- The lines of a table without their newlines. -/
def linesShown (t : Table) : List Text :=
  [rule t.widths] ++
    (if t.header = [] then [] else [rowText t.widths t.headerAlign t.header, rule t.widths]) ++
    t.rows.map (rowText t.widths t.columnAlign) ++ [rule t.widths]

theorem lines_eq (t : Table) : t.lines = t.linesShown.map (· ++ [newline]) := by
  have hborder : border t.widths = rule t.widths ++ [newline] := rfl
  have hline (aligns : List Alignment) (cells : List Text) :
      line t.widths aligns cells = rowText t.widths aligns cells ++ [newline] := rfl
  simp only [lines, linesShown, hborder, hline, List.isEmpty_iff, List.map_append, List.map_map,
    List.map_cons, List.map_nil]
  split
  · rfl
  · rfl

theorem mem_linesShown {t : Table} {l : Text} (h : l ∈ t.linesShown) :
    l ∈ rule t.widths :: rowText t.widths t.headerAlign t.header ::
      t.rows.map (rowText t.widths t.columnAlign) := by
  rw [linesShown] at h
  grind

theorem newline_not_mem_rule (ws : List Nat) : newline ∉ rule ws := by
  have hplus : newline ∉ text "+" := by decide
  have hdash : newline ∉ text "-" := by decide
  simp [rule, Text.times, hplus, hdash]

theorem IsField.newline_not_mem {width : Nat} {align : Alignment} {cell field : Text}
    (h : IsField width align cell field) (hcell : newline ∉ cell) : newline ∉ field := by
  have hblanks (n : Nat) : newline ∉ blanks n := Text.not_mem_blanks (by decide) n
  have hspace : text " " = blanks 1 := rfl
  obtain ⟨before, behind, n, rfl, -⟩ := h
  simp [hspace, hblanks, hcell]

theorem IsRow.newline_not_mem {ws : List Nat} {aligns : List Alignment} {cells : List Text}
    {line : Text} (h : IsRow ws aligns cells line) (hcells : ∀ cell ∈ cells, newline ∉ cell) :
    newline ∉ line := by
  have hbar : newline ∉ text "|" := by decide
  obtain ⟨fields, hlen, rfl, hfields⟩ := h
  have hfield : ∀ field ∈ fields, newline ∉ field := by
    intro field hmem
    obtain ⟨i, hi, rfl⟩ := List.mem_iff_getElem.mp hmem
    have hwidth := List.getElem?_eq_getElem (hlen ▸ hi)
    apply (hfields i _ _ hwidth (List.getElem?_eq_getElem hi)).newline_not_mem
    rw [List.getD_eq_getElem?_getD]
    cases hcell : cells[i]? with
    | none => exact List.not_mem_nil
    | some cell => exact hcells cell (List.mem_of_getElem? hcell)
  rw [List.mem_append, List.mem_flatMap]
  rintro (hmem | ⟨field, hmem, hnewline⟩)
  · exact hbar hmem
  · rcases List.mem_append.mp hnewline with hinside | hbehind
    · exact hfield field hmem hinside
    · exact hbar hbehind

theorem Measured.fits_getD {rows : List (List Text)} {ws : List Nat} (h : Measured rows ws)
    {row : List Text} (hrow : row ∈ rows) {i w : Nat} (hw : ws[i]? = some w) :
    (row.getD i []).visibleWidth ≤ w := by
  rw [List.getD_eq_getElem?_getD]
  cases hcell : row[i]? with
  | none => exact Nat.zero_le w
  | some cell =>
    obtain ⟨v, hv, hle⟩ := h.fits hrow hcell
    rw [hw] at hv
    rwa [Option.some.inj hv]

/-- A table whose cells hold no newline is drawn as a rectangle: all lines take one and the same
room, three places for every column beside its widest cell, and one more. The lines between the
rules are the rows, their cells unchanged. -/
theorem render_rectangular (t : Table)
    (hplain : ∀ row ∈ t.header :: t.rows, ∀ cell ∈ row, newline ∉ cell) :
    Measured (t.header :: t.rows) t.widths ∧
    ∃ (rule head : Text) (body : List Text),
      t.render.splitOn newline =
        [rule] ++ (if t.header = [] then [] else [head, rule]) ++ body ++ [rule] ++ [[]] ∧
      (∀ line ∈ rule :: head :: body, line.Wide (1 + (t.widths.map (· + 3)).sum)) ∧
      IsRow t.widths t.headerAlign t.header head ∧
      List.Forall₂ (IsRow t.widths t.columnAlign) t.rows body := by
  have hmeasured := t.measured_widths
  have hrow {row : List Text} (hmem : row ∈ t.header :: t.rows) (aligns : List Alignment) :
      IsRow t.widths aligns row (rowText t.widths aligns row) :=
    isRow_rowText (fun _ _ hw => hmeasured.fits_getD hmem hw) aligns
  have hhead := hrow List.mem_cons_self t.headerAlign
  have hbody {row : List Text} (hmem : row ∈ t.rows) :=
    hrow (List.mem_cons_of_mem t.header hmem) t.columnAlign
  have hlines : ∀ l ∈ rule t.widths :: rowText t.widths t.headerAlign t.header ::
      t.rows.map (rowText t.widths t.columnAlign),
      newline ∉ l ∧ l.Wide (1 + (t.widths.map (· + 3)).sum) := by
    intro l hl
    rw [wide_iff]
    rcases List.mem_cons.mp hl with rfl | hl
    · exact ⟨newline_not_mem_rule _, visibleWidth_rule _⟩
    rcases List.mem_cons.mp hl with rfl | hl
    · exact ⟨hhead.newline_not_mem (hplain _ List.mem_cons_self), hhead.visibleWidth⟩
    · obtain ⟨row, hmem, rfl⟩ := List.mem_map.mp hl
      have hcells := hplain row (List.mem_cons_of_mem _ hmem)
      exact ⟨(hbody hmem).newline_not_mem hcells, (hbody hmem).visibleWidth⟩
  refine ⟨hmeasured, rule t.widths, _, t.rows.map (rowText t.widths t.columnAlign), ?_,
    fun l hl => (hlines l hl).2, hhead, ?_⟩
  · rw [render, lines_eq, Text.splitOn_lines fun l hl => (hlines l (mem_linesShown hl)).1]
    rfl
  · rw [List.forall₂_map_right_iff, List.forall₂_same]
    exact fun row hmem => hbody hmem

/-- A colour sequence and a character that are cut short at the end of their cells, rows shorter and
longer than the header, a coloured cell and a cell with a bar. -/
def jagged : Table :=
  { header := [text "n"]
    headerAlign := [.center]
    columnAlign := [.right, .center]
    rows := [[[0x1B, 0x5B, 0x33], [0xE2, 0x82]], [],
      [Text.Painter.ansi.paint true [.red] (text "red"), text "\xE9|", text "x"]] }

theorem render_rectangular_jagged :
    (∀ row ∈ jagged.header :: jagged.rows, ∀ cell ∈ row, newline ∉ cell) ∧
    jagged.widths = [3, 2, 1] ∧ ∃ rule head first second third,
      jagged.render.splitOn newline = [rule, head, rule, first, second, third, rule, []] ∧
      ∀ line ∈ [rule, head, first, second, third], Wide 16 line := by
  have hplain : ∀ row ∈ jagged.header :: jagged.rows, ∀ cell ∈ row, newline ∉ cell := by decide
  have hwidths : jagged.widths = [3, 2, 1] := by decide
  obtain ⟨-, rule, head, body, hlines, hwide, -, hbody⟩ := render_rectangular jagged hplain
  rw [hwidths] at hwide
  obtain ⟨first, second, third, rfl⟩ := List.length_eq_three.mp hbody.length_eq.symm
  exact ⟨hplain, hwidths, rule, head, first, second, third, hlines, hwide⟩

end Table

end TapeLang

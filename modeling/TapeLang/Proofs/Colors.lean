import Mathlib.Data.List.Forall2
import TapeLang.Native.Listing
import TapeLang.Proofs.Listings
import TapeLang.Proofs.Sequences

namespace TapeLang

open Text (escape newline IsSequence Strips Printed)
open Native (Disassembled)

namespace Text

/-- `c` is the text `p`, which holds no ESC, with colour sequences put in. -/
inductive Tints : Text → Text → Prop
  | nil : Tints [] []
  | sequence {q c p : Text} : IsSequence q → Tints c p → Tints (q ++ c) p
  | byte {b : UInt8} {c p : Text} : b ≠ escape → Tints c p → Tints (b :: c) (b :: p)

namespace Tints

variable {c p c' p' : Text}

theorem append (h : Tints c p) (h' : Tints c' p') : Tints (c ++ c') (p ++ p') := by
  induction h with
  | nil => exact h'
  | sequence hq _ ih =>
    rw [List.append_assoc]
    exact .sequence hq ih
  | byte hb _ ih => exact .byte hb ih

/-- A text without ESC, left as it is. -/
theorem self {t : Text} (ht : escape ∉ t) : Tints t t := by
  induction t with
  | nil => exact .nil
  | cons b t ih =>
    rw [List.mem_cons, not_or] at ht
    exact .byte (Ne.symm ht.1) (ih ht.2)

theorem plain (h : Tints c p) : escape ∉ p := by
  induction h with
  | nil => exact List.not_mem_nil
  | sequence _ _ ih => exact ih
  | byte hb _ ih =>
    rw [List.mem_cons, not_or]
    exact ⟨Ne.symm hb, ih⟩

theorem strips (h : Tints c p) : Strips c p := by
  induction h with
  | nil => exact .nil
  | sequence hq _ ih => exact .drop hq ih
  | byte hb _ ih => exact ih.byte hb

/-- Colour takes no room. -/
theorem visibleWidth (h : Tints c p) : c.visibleWidth = p.visibleWidth := by
  have hcolored := strips_iff.mp h.strips
  have hplain := strips_iff.mp (self h.plain).strips
  rw [Text.visibleWidth, Text.visibleWidth, hcolored, hplain]

theorem flatMap {α β : Type} {R : α → β → Prop} {f : α → Text} {g : β → Text}
    (hfg : ∀ x y, R x y → Tints (f x) (g y)) {xs : List α} {ys : List β}
    (h : List.Forall₂ R xs ys) : Tints (xs.flatMap f) (ys.flatMap g) := by
  induction h with
  | nil => exact .nil
  | cons hxy _ ih => exact (hfg _ _ hxy).append ih

end Tints

/-- What a painter owes: with colour off it leaves a text as it is, and with colour on it puts a
colour sequence before it and one after it. -/
structure Painter.Lawful (painter : Painter) : Prop where
  off : ∀ s t, painter.paint false s t = t
  on : ∀ s t, ∃ start stop, IsSequence start ∧ IsSequence stop ∧
    painter.paint true s t = start ++ t ++ stop

theorem Painter.Lawful.tints {painter : Painter} (hp : painter.Lawful) (color : Bool) (s : Style)
    {t : Text} (ht : escape ∉ t) : Tints (painter.paint color s t) t := by
  cases color with
  | false =>
    rw [hp.off]
    exact .self ht
  | true =>
    obtain ⟨start, stop, hstart, hstop, hpainted⟩ := hp.on s t
    have hbehind := (Tints.self ht).append (.sequence hstop .nil)
    rw [List.append_nil, List.append_nil] at hbehind
    rw [hpainted, List.append_assoc]
    exact .sequence hstart hbehind

theorem forall_mem_join {P : UInt8 → Prop} {separator : Text} (hseparator : ∀ b ∈ separator, P b)
    {ts : List Text} (hts : ∀ t ∈ ts, ∀ b ∈ t, P b) : ∀ b ∈ join separator ts, P b := by
  fun_induction join separator ts with
  | case1 => simp
  | case2 t => exact hts t List.mem_cons_self
  | case3 t rest _ ih =>
    have hrest := ih fun u hu => hts u (List.mem_cons_of_mem t hu)
    intro b hb
    rw [List.mem_append, List.mem_append] at hb
    rcases hb with (ht | hs) | hr
    · exact hts t List.mem_cons_self b ht
    · exact hseparator b hs
    · exact hrest b hr

/-- Codes of attributes between semicolons make a colour sequence. -/
theorem isSequence_join {f : Attribute → Text} (hf : ∀ a, (f a).all isParameter = true)
    (s : Style) : IsSequence (sequence (join (text ";") (s.map f))) := by
  have hseparator : ∀ b ∈ text ";", isParameter b = true := List.all_eq_true.mp rfl
  refine ⟨_, forall_mem_join hseparator ?_, rfl⟩
  intro t ht
  obtain ⟨a, -, rfl⟩ := List.mem_map.mp ht
  exact List.all_eq_true.mp (hf a)

theorem Painter.ansi_lawful : ansi.Lawful where
  off _ _ := rfl
  on s _ := ⟨_, _, isSequence_join (fun a => by cases a <;> rfl) s,
    isSequence_join (fun a => by cases a <;> rfl) s, rfl⟩

theorem printed_hex (width n : Nat) : Printed (hex width n) := by
  have hdigit : ∀ d < 16, space ≤ hexDigit d := by decide
  induction width generalizing n with
  | zero => simp [hex, Printed]
  | succ width ih =>
    refine printed_append.mpr ⟨ih (n / 16), ?_⟩
    intro b hb
    have hlow : hexDigit n = hexDigit (n % 16) := by simp [hexDigit]
    rw [List.mem_singleton.mp hb, hlow]
    exact hdigit _ (Nat.mod_lt n (by omega))

end Text

namespace Block

section
variable {painter : Text.Painter} {color : Bool} {R : Text → Text → Prop}

/-- The two printers go over a block in step: a relation of texts that goes through appending, holds
of a plain text and itself and holds of what is painted holds of what they print. -/
theorem display_lines (happend : ∀ {c p c' p'}, R c p → R c' p' → R (c ++ c') (p ++ p'))
    (hplain : ∀ t, escape ∉ t → R t t)
    (hpaint : ∀ t, escape ∉ t → R (painter.paint color loopStyle t) t) (b : Block) (depth : Nat)
    {built : Array UInt8} {p : Text} (h : R built.toList p) :
    R (b.display painter color depth built).toList (p ++ (b.lines depth).flatten) := by
  have hrow {c p : Text} (depth : Nat) (hc : R c p) :
      R (indent depth ++ c ++ [newline]) (indent depth ++ p ++ [newline]) :=
    happend (happend (hplain _ (Text.not_mem_blanks (by decide) _)) hc) (hplain _ (by decide))
  induction b generalizing depth built p with
  | nil => simpa [display, lines] using h
  | step op rest ih =>
    have hop := hrow depth (hplain op.toText (op.printed_toText.not_mem (by decide)))
    rw [lines, List.flatten_cons, ← List.append_assoc]
    apply ih
    rw [Array.toList_appendList]
    exact happend h hop
  | loop body rest ihBody ihRest =>
    have hopening := hrow depth (hpaint (text "loop \x7b") (by decide))
    have hclosing := hrow depth (hpaint (text "\x7d") (by decide))
    rw [lines, List.flatten_cons, List.flatten_append, List.flatten_cons, ← List.append_assoc,
      ← List.append_assoc, ← List.append_assoc]
    apply ihRest
    rw [Array.toList_appendList]
    apply happend _ hclosing
    apply ihBody
    rw [Array.toList_appendList]
    exact happend h hopening

end

theorem coloredListing_off {painter : Text.Painter} (hp : painter.Lawful) (b : Block) :
    b.coloredListing painter false = b.listing := by
  have hbuilt : #[].toList = ([] : Text) := rfl
  exact display_lines (R := Eq) (fun h h' => congrArg₂ _ h h') (fun _ _ => rfl)
    (fun t _ => hp.off loopStyle t) b 0 hbuilt

theorem tints_coloredListing {painter : Text.Painter} (hp : painter.Lawful) (color : Bool)
    (b : Block) : Text.Tints (b.coloredListing painter color) b.listing := by
  have hbuilt : Text.Tints #[].toList [] := .nil
  exact display_lines Text.Tints.append (fun _ => Text.Tints.self)
    (fun _ => hp.tints color loopStyle) b 0 hbuilt

end Block

namespace Table

/-- The same table with colour sequences put into its cells. -/
structure Tints (t p : Table) : Prop where
  header : List.Forall₂ Text.Tints t.header p.header
  rows : List.Forall₂ (List.Forall₂ Text.Tints) t.rows p.rows
  headerAlign : t.headerAlign = p.headerAlign
  columnAlign : t.columnAlign = p.columnAlign

theorem tints_pad {c p : Text} (h : Text.Tints c p) (width : Nat) (align : Alignment) :
    Text.Tints (pad width align c) (pad width align p) := by
  have hblanks (n : Nat) : Text.Tints (Text.blanks n) (Text.blanks n) :=
    .self (Text.not_mem_blanks (by decide) n)
  unfold pad
  rw [h.visibleWidth]
  cases align with
  | left => exact h.append (hblanks _)
  | center => exact ((hblanks _).append h).append (hblanks _)
  | right => exact (hblanks _).append h

theorem tints_padded {cs ps : List Text} (h : List.Forall₂ Text.Tints cs ps) (ws : List Nat)
    (aligns : List Alignment) :
    List.Forall₂ Text.Tints (padded ws aligns cs) (padded ws aligns ps) := by
  induction ws generalizing aligns cs ps with
  | nil => exact .nil
  | cons w ws ih =>
    cases h with
    | nil => exact .cons (tints_pad .nil w _) (ih .nil _)
    | cons hcell hcells => exact .cons (tints_pad hcell w _) (ih hcells _)

theorem tints_line {cs ps : List Text} (h : List.Forall₂ Text.Tints cs ps) (ws : List Nat)
    (aligns : List Alignment) : Text.Tints (line ws aligns cs) (line ws aligns ps) := by
  have hfield (c p : Text) (hcell : Text.Tints c p) :
      Text.Tints (text " " ++ c ++ text " |") (text " " ++ p ++ text " |") :=
    ((Text.Tints.self (by decide)).append hcell).append (.self (by decide))
  have hfields := Text.Tints.flatMap hfield (tints_padded h ws aligns)
  exact ((Text.Tints.self (by decide)).append hfields).append (.self (by decide))

theorem tints_border (ws : List Nat) : Text.Tints (border ws) (border ws) := by
  have hplus : escape ∉ text "+" := by decide
  have hdash : escape ∉ text "-" := by decide
  have hnewline : escape ≠ newline := by decide
  apply Text.Tints.self
  simp [border, Text.times, hplus, hdash, hnewline]

theorem widths_eq (t : Table) :
    t.widths = ((t.header :: t.rows).map (List.map Text.visibleWidth)).foldl widest [] := by
  rw [List.foldl_map, widths]

theorem Tints.widths {t p : Table} (h : t.Tints p) : t.widths = p.widths := by
  have hcells (cs ps : List Text) (hrow : List.Forall₂ Text.Tints cs ps) :
      cs.map Text.visibleWidth = ps.map Text.visibleWidth := by
    rw [← List.forall₂_eq_eq_eq, List.forall₂_map_left_iff, List.forall₂_map_right_iff]
    exact hrow.imp fun _ _ hcell => hcell.visibleWidth
  have hrows : (t.header :: t.rows).map (List.map Text.visibleWidth) =
      (p.header :: p.rows).map (List.map Text.visibleWidth) := by
    rw [← List.forall₂_eq_eq_eq, List.forall₂_map_left_iff, List.forall₂_map_right_iff]
    exact (List.Forall₂.cons h.header h.rows).imp hcells
  rw [widths_eq, widths_eq, hrows]

theorem Tints.render {t p : Table} (h : t.Tints p) : Text.Tints t.render p.render := by
  have hborder := tints_border p.widths
  have hheader := tints_line h.header p.widths p.headerAlign
  have hempty : t.header.isEmpty = p.header.isEmpty := by
    rw [Bool.eq_iff_iff, List.isEmpty_iff_length_eq_zero, List.isEmpty_iff_length_eq_zero,
      h.header.length_eq]
  have htop : Text.Tints
      (if p.header.isEmpty then [] else
        [line p.widths p.headerAlign t.header, border p.widths]).flatten
      (if p.header.isEmpty then [] else
        [line p.widths p.headerAlign p.header, border p.widths]).flatten := by
    split
    · exact .nil
    · exact hheader.append (hborder.append .nil)
  have hline (cs ps : List Text) (hrow : List.Forall₂ Text.Tints cs ps) :
      Text.Tints (line p.widths p.columnAlign cs) (line p.widths p.columnAlign ps) :=
    tints_line hrow p.widths p.columnAlign
  have hrows := Text.Tints.flatMap hline h.rows
  rw [List.flatMap_def, List.flatMap_def] at hrows
  simp only [Table.render, lines, h.widths, h.headerAlign, h.columnAlign, hempty,
    List.flatten_append, List.flatten_cons, List.flatten_nil, List.append_nil]
  exact ((hborder.append htop).append hrows).append hborder

end Table

namespace Native.Disassembled

theorem printed_labelList (labels : List A64.Label) : Printed (labelList labels) := by
  have hcomma : Printed (text ",") := by decide
  apply Text.forall_mem_join hcomma
  intro t ht
  obtain ⟨l, -, rfl⟩ := List.mem_map.mp ht
  exact Text.printed_append.mpr ⟨by decide, Text.printed_integer _⟩

variable {painter : Text.Painter} (hp : painter.Lawful)
include hp

theorem tints_row {d : Disassembled} (hopcode : escape ∉ d.opcode)
    (hoperands : escape ∉ d.operands) :
    List.Forall₂ Text.Tints (d.row painter true) (d.row painter false) := by
  have hprinted {t : Text} (ht : Printed t) : escape ∉ t := ht.not_mem (by decide)
  have hpainted (s : Text.Style) {t : Text} (ht : escape ∉ t) :
      Text.Tints (painter.paint true s t) (painter.paint false s t) := by
    rw [hp.off]
    exact hp.tints true s ht
  exact .cons (.self (hprinted (Text.printed_integer _)))
    (.cons (.self (hprinted (Text.printed_hex 8 _)))
    (.cons (hpainted labelStyle (hprinted (printed_labelList d.labels)))
    (.cons (hpainted opcodeStyle hopcode)
    (.cons (.self hoperands) .nil))))

theorem tints_table {ds : List Disassembled}
    (h : ∀ d ∈ ds, escape ∉ d.opcode ∧ escape ∉ d.operands) :
    (table painter true ds).Tints (table painter false ds) := by
  have htitles : ∀ title ∈ (table painter false ds).header, escape ∉ title := by
    simp only [table]
    decide
  refine ⟨?_, ?_, rfl, rfl⟩
  · exact List.forall₂_same.mpr fun title htitle => .self (htitles title htitle)
  · simp only [table, List.forall₂_map_left_iff, List.forall₂_map_right_iff, List.forall₂_same]
    intro d hd
    exact tints_row hp (h d hd).1 (h d hd).2

end Native.Disassembled

/-- Colour adds colour sequences and nothing else, whoever paints. Without colour the listing of a
block for a terminal is its listing, and with colour it is that once the sequences are removed; so
is the table of machine code whose texts hold no ESC. -/
theorem colored_listings_strip {painter : Text.Painter} (hp : painter.Lawful) :
    (∀ b : Block, b.coloredListing painter false = b.listing ∧
      Strips (b.coloredListing painter true) b.listing) ∧
    ∀ ds : List Disassembled, (∀ d ∈ ds, escape ∉ d.opcode ∧ escape ∉ d.operands) →
      Strips (Disassembled.table painter true ds).render
        (Disassembled.table painter false ds).render := by
  refine ⟨fun b => ⟨b.coloredListing_off hp, (b.tints_coloredListing hp true).strips⟩, ?_⟩
  intro ds hds
  exact (Disassembled.tints_table hp hds).render.strips

/-- An opcode that looks like the end of a colour sequence, and operands that are cut off inside a
character. -/
def Native.Disassembled.lookalike : Disassembled :=
  { offset := -4
    word := 0xD503201F
    opcode := text "[31m"
    operands := [0xE2, 0x82]
    labels := [0, 3] }

theorem colored_listings_strip_lookalike : Text.Painter.ansi.Lawful ∧
    escape ∉ Disassembled.lookalike.opcode ∧ escape ∉ Disassembled.lookalike.operands ∧
    Block.inside.coloredListing .ansi true ≠ Block.inside.listing ∧
    Strips (Block.inside.coloredListing .ansi true) Block.inside.listing ∧
    Strips (Disassembled.table .ansi true [.lookalike]).render
      (Disassembled.table .ansi false [.lookalike]).render := by
  have hopcode : escape ∉ Disassembled.lookalike.opcode := by decide
  have hoperands : escape ∉ Disassembled.lookalike.operands := by decide
  have hpainted : Block.inside.coloredListing .ansi true ≠ Block.inside.listing := by
    have hhead : (Block.inside.coloredListing .ansi true).head? ≠ Block.inside.listing.head? := by
      decide
    exact fun h => hhead (congrArg List.head? h)
  obtain ⟨hblocks, htables⟩ := colored_listings_strip Text.Painter.ansi_lawful
  refine ⟨Text.Painter.ansi_lawful, hopcode, hoperands, hpainted, (hblocks Block.inside).2,
    htables _ ?_⟩
  intro d hd
  rw [List.mem_singleton.mp hd]
  exact ⟨hopcode, hoperands⟩

end TapeLang

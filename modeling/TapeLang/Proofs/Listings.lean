import TapeLang.Block.Listing
import TapeLang.Proofs.Characters
import TapeLang.Proofs.Numerals

namespace TapeLang

open Text (newline space signed Breaks)

namespace Op

/-- The letter that the text of a step starts with. -/
def letter : Op → UInt8
  | move _ => 0x70
  | add _ _ => 0x63
  | clear _ => 0x63
  | put _ => 0x6F
  | get _ => 0x69
  | unknown => 0x25

theorem head_toText (op : Op) : op.toText.head? = some op.letter := by
  cases op with
  | move | add | clear | put | get | unknown => rfl

section
variable (delta offset : Int64)

theorem move_text : (move delta).toText = text "ptr " ++ signed delta.toInt := rfl

theorem add_text : (add delta offset).toText =
    text "cell[" ++ signed offset.toInt ++ (text "]" ++ (text " " ++ signed delta.toInt)) := by
  simp [toText, text]

theorem clear_text : (clear offset).toText =
    text "cell[" ++ signed offset.toInt ++ (text "]" ++ text " = 0") := by
  simp [toText, text]

theorem put_text : (put offset).toText =
    text "output cell[" ++ signed offset.toInt ++ (text "]" ++ []) := by
  simp [toText]

theorem get_text : (get offset).toText =
    text "input cell[" ++ signed offset.toInt ++ (text "]" ++ []) := by
  simp [toText]

end

/-- A number in front of a bracket, behind the same words. -/
theorem offset_inj {words t u : Text} {m n : Int64}
    (h : words ++ signed m.toInt ++ (text "]" ++ t) = words ++ signed n.toInt ++ (text "]" ++ u)) :
    m = n ∧ t = u := by
  rw [List.append_assoc, List.append_assoc] at h
  have hbreaks (v : Text) : Breaks (text "]" ++ v) := Text.breaks_cons rfl v
  obtain ⟨hnumber, hrest⟩ :=
    Text.signed_append_inj (List.append_cancel_left h) (hbreaks t) (hbreaks u)
  exact ⟨Int64.toInt_inj.mp hnumber, List.append_cancel_left hrest⟩

/-- A number at the end, behind the same words. -/
theorem delta_inj {words : Text} {m n : Int64}
    (h : words ++ signed m.toInt = words ++ signed n.toInt) : m = n := by
  have hsame : signed m.toInt ++ [] = signed n.toInt ++ [] := by
    simpa using List.append_cancel_left h
  obtain ⟨hnumber, -⟩ := Text.signed_append_inj hsame Text.breaks_nil Text.breaks_nil
  exact Int64.toInt_inj.mp hnumber

/-- The two steps whose texts start alike differ behind the bracket. -/
theorem add_text_ne_clear (delta offset offset' : Int64) :
    (add delta offset).toText ≠ (clear offset').toText := by
  intro h
  rw [add_text, clear_text] at h
  obtain ⟨-, htail⟩ := offset_inj h
  rw [Text.signed_eq] at htail
  obtain ⟨hsign, -⟩ := List.cons.inj (List.cons.inj htail).2
  unfold Text.sign at hsign
  split at hsign
  · cases hsign
  · cases hsign

theorem toText_inj {a b : Op} (ha : a ≠ unknown) (hb : b ≠ unknown)
    (h : a.toText = b.toText) : a = b := by
  have hletter : a.letter = b.letter := by
    simpa [head_toText] using congrArg List.head? h
  cases a with
  | unknown => exact absurd rfl ha
  | move delta =>
    cases b with
    | move delta' =>
      rw [move_text, move_text] at h
      rw [delta_inj h]
    | add | clear | put | get | unknown => simp [letter] at hletter
  | add delta offset =>
    cases b with
    | add delta' offset' =>
      rw [add_text, add_text] at h
      obtain ⟨rfl, hdelta⟩ := offset_inj h
      rw [delta_inj hdelta]
    | clear offset' => exact absurd h (add_text_ne_clear delta offset offset')
    | move | put | get | unknown => simp [letter] at hletter
  | clear offset =>
    cases b with
    | clear offset' =>
      rw [clear_text, clear_text] at h
      rw [(offset_inj h).1]
    | add delta' offset' => exact absurd h.symm (add_text_ne_clear delta' offset' offset)
    | move | put | get | unknown => simp [letter] at hletter
  | put offset =>
    cases b with
    | put offset' =>
      rw [put_text, put_text] at h
      rw [(offset_inj h).1]
    | move | add | clear | get | unknown => simp [letter] at hletter
  | get offset =>
    cases b with
    | get offset' =>
      rw [get_text, get_text] at h
      rw [(offset_inj h).1]
    | move | add | clear | put | unknown => simp [letter] at hletter

theorem printed_toText (op : Op) : Text.Printed op.toText := by
  cases op with
  | move | add | clear | put | get | unknown =>
    simp +decide [toText, Text.printed_append, Text.printed_signed]

theorem same_iff {a : Op} (ha : a ≠ unknown) (b : Op) : a.same b = true ↔ a = b := by
  cases a with
  | unknown => exact absurd rfl ha
  | move | add | clear | put | get => simp [same]

end Op

/-- What a row of a listing says. -/
inductive Mark where
  | step (op : Op)
  | opening
  | closing

namespace Mark

def toText : Mark → Text
  | step op => op.toText
  | opening => text "loop \x7b"
  | closing => text "\x7d"

def letter : Mark → UInt8
  | step op => op.letter
  | opening => 0x6C
  | closing => 0x7D

def Known : Mark → Prop
  | step op => op ≠ .unknown
  | opening => True
  | closing => True

theorem head_toText (m : Mark) : m.toText.head? = some m.letter := by
  cases m with
  | step op => exact op.head_toText
  | opening | closing => rfl

theorem letter_ne_space (m : Mark) : m.letter ≠ space := by
  cases m with
  | step op => cases op <;> simp [letter, Op.letter, space]
  | opening | closing => simp [letter, space]

theorem plain_toText (m : Mark) : newline ∉ m.toText := by
  cases m with
  | step op => exact op.printed_toText.not_mem (by decide)
  | opening | closing => decide

theorem toText_inj {a b : Mark} (ha : a.Known) (hb : b.Known) (h : a.toText = b.toText) :
    a = b := by
  have hletter : a.letter = b.letter := by
    simpa [head_toText] using congrArg List.head? h
  cases a with
  | step op =>
    cases b with
    | step op' => rw [Op.toText_inj ha hb h]
    | opening | closing => cases op <;> simp [letter, Op.letter] at hletter
  | opening =>
    cases b with
    | opening => rfl
    | closing => simp [letter] at hletter
    | step op' => cases op' <;> simp [letter, Op.letter] at hletter
  | closing =>
    cases b with
    | closing => rfl
    | opening => simp [letter] at hletter
    | step op' => cases op' <;> simp [letter, Op.letter] at hletter

/-- The mark as a row of a listing. -/
def row (depth : Nat) (m : Mark) : Text := Block.indent depth ++ m.toText

/-- No mark starts with a blank, so the indentation can be taken off. -/
theorem dropWhile_row (depth : Nat) (m : Mark) :
    (m.row depth).dropWhile (· == space) = m.toText := by
  have hblank : ∀ b ∈ Block.indent depth, (b == space) = true := by
    intro b hb
    simpa using List.eq_of_mem_replicate hb
  obtain ⟨rest, hrest⟩ := List.head?_eq_some_iff.mp m.head_toText
  rw [row, List.dropWhile_append_of_pos hblank, hrest]
  simp [m.letter_ne_space]

theorem row_inj (a b : Mark) (ha : a.Known) (hb : b.Known) {depth depth' : Nat}
    (h : a.row depth = b.row depth') : a = b := by
  have htext := congrArg (List.dropWhile (· == space)) h
  rw [dropWhile_row, dropWhile_row] at htext
  exact toText_inj ha hb htext

theorem plain_row (depth : Nat) (m : Mark) : newline ∉ m.row depth := by
  have hindent : newline ∉ Block.indent depth := Text.not_mem_blanks (by decide) _
  simp [row, hindent, m.plain_toText]

end Mark

namespace Block

/-- The rows of a listing. -/
def rows (depth : Nat) : Block → List Text
  | nil => []
  | step op rest => Mark.row depth (.step op) :: rest.rows depth
  | loop body rest =>
    Mark.row depth .opening :: (body.rows (depth + 1) ++ Mark.row depth .closing :: rest.rows depth)

theorem lines_eq (b : Block) (depth : Nat) :
    b.lines depth = (b.rows depth).map (· ++ [newline]) := by
  induction b generalizing depth with
  | nil => rfl
  | step op rest ih => simp [lines, rows, ih, Mark.row, Mark.toText]
  | loop body rest ihBody ihRest => simp [lines, rows, ihBody, ihRest, Mark.row, Mark.toText]

theorem plain_rows {b : Block} {depth : Nat} {r : Text} (h : r ∈ b.rows depth) : newline ∉ r := by
  induction b generalizing depth with
  | nil => simp [rows] at h
  | step op rest ih =>
    rcases List.mem_cons.mp h with rfl | h
    · exact Mark.plain_row depth _
    · exact ih h
  | loop body rest ihBody ihRest =>
    simp only [rows, List.mem_cons, List.mem_append] at h
    rcases h with rfl | h | rfl | h
    · exact Mark.plain_row depth _
    · exact ihBody h
    · exact Mark.plain_row depth _
    · exact ihRest h

/-- The rows can be told apart in a listing. -/
theorem splitOn_listing (b : Block) : b.listing.splitOn newline = b.rows 0 ++ [[]] := by
  rw [listing, listingLines, lines_eq]
  exact Text.splitOn_lines fun r hr => plain_rows hr

/-- The rows end, or go on with the end of a loop. -/
def Closes (rs : List Text) : Prop :=
  rs = [] ∨ ∃ depth rest, rs = Mark.row depth .closing :: rest

theorem closes_ne_cons {rs rest : List Text} (hrs : Closes rs) (m : Mark) (hm : m.Known)
    (hne : m ≠ .closing) (depth : Nat) : rs ≠ m.row depth :: rest := by
  intro h
  rcases hrs with rfl | ⟨depth', rest', rfl⟩
  · cases h
  · exact hne (Mark.row_inj .closing m trivial hm (List.cons.inj h).1).symm

/-- Rows are read in one way, whatever follows the block. -/
theorem rows_append_inj {a b : Block} {depth depth' : Nat} {rs rs' : List Text} (ha : a.Known)
    (hb : b.Known) (hrs : Closes rs) (hrs' : Closes rs')
    (h : a.rows depth ++ rs = b.rows depth' ++ rs') : a = b ∧ rs = rs' := by
  induction a generalizing b depth depth' rs rs' with
  | nil =>
    cases b with
    | nil => exact ⟨rfl, h⟩
    | step op' rest' => exact absurd h (closes_ne_cons hrs (.step op') hb.1 (by simp) depth')
    | loop body' rest' => exact absurd h (closes_ne_cons hrs .opening trivial (by simp) depth')
  | step op rest ih =>
    cases b with
    | nil => exact absurd h.symm (closes_ne_cons hrs' (.step op) ha.1 (by simp) depth)
    | step op' rest' =>
      simp only [rows, List.cons_append, List.cons.injEq] at h
      obtain ⟨hhead, htail⟩ := h
      obtain ⟨rfl, hrest⟩ := ih ha.2 hb.2 hrs hrs' htail
      have hmark := Mark.row_inj (.step op) (.step op') ha.1 hb.1 hhead
      exact ⟨by rw [Mark.step.inj hmark], hrest⟩
    | loop body' rest' =>
      simp only [rows, List.cons_append, List.cons.injEq] at h
      have hmark := Mark.row_inj (.step op) .opening ha.1 trivial h.1
      cases hmark
  | loop body rest ihBody ihRest =>
    cases b with
    | nil => exact absurd h.symm (closes_ne_cons hrs' .opening trivial (by simp) depth)
    | step op' rest' =>
      simp only [rows, List.cons_append, List.cons.injEq] at h
      have hmark := Mark.row_inj .opening (.step op') trivial hb.1 h.1
      cases hmark
    | loop body' rest' =>
      simp only [rows, List.cons_append, List.append_assoc, List.cons.injEq] at h
      -- both bodies end at the row that closes their loop
      obtain ⟨rfl, hclose⟩ := ihBody ha.1 hb.1 (.inr ⟨depth, _, rfl⟩) (.inr ⟨depth', _, rfl⟩) h.2
      obtain ⟨rfl, hrest⟩ := ihRest ha.2 hb.2 hrs hrs' (List.cons.inj hclose).2
      exact ⟨rfl, hrest⟩

theorem listing_inj {a b : Block} (ha : a.Known) (hb : b.Known) (h : a.listing = b.listing) :
    a = b := by
  have hrows := congrArg (List.splitOn newline) h
  rw [splitOn_listing, splitOn_listing, List.append_cancel_right_eq] at hrows
  have hends : a.rows 0 ++ [] = b.rows 0 ++ [] := by rw [hrows]
  exact (rows_append_inj ha hb (.inl rfl) (.inl rfl) hends).1

theorem same_iff {a : Block} (ha : a.Known) (b : Block) : a.same b = true ↔ a = b := by
  induction a generalizing b with
  | nil => cases b <;> simp [same]
  | step op rest ih =>
    cases b with
    | nil | loop => simp [same]
    | step op' rest' => simp [same, Op.same_iff ha.1, ih ha.2]
  | loop body rest ihBody ihRest =>
    cases b with
    | nil | step => simp [same]
    | loop body' rest' => simp [same, ihBody ha.1, ihRest ha.2]

/-- Two blocks that an engine can run have the same listing exactly when they are found equal, and
that is when they are one and the same block. -/
theorem listing_faithful (a b : Block) (ha : a.Known) (hb : b.Known) :
    (a.listing = b.listing ↔ a.same b = true) ∧ (a.same b = true ↔ a = b) := by
  have hsame := same_iff ha b
  refine ⟨⟨?_, ?_⟩, hsame⟩
  · intro h
    exact hsame.mpr (listing_inj ha hb h)
  · intro h
    rw [hsame.mp h]

/-- The same rows but for the place of a brace: a step inside a loop, and behind it. -/
def inside : Block :=
  .loop (.step (.put Int64.minValue) (.step (.add 1 (-1)) .nil)) .nil

def behind : Block :=
  .loop (.step (.put Int64.minValue) .nil) (.step (.add 1 (-1)) .nil)

theorem listing_faithful_brace :
    inside.Known ∧ behind.Known ∧ inside.listing ≠ behind.listing ∧ inside.same behind = false := by
  have hinside : inside.Known := by simp [inside, Known]
  have hbehind : behind.Known := by simp [behind, Known]
  obtain ⟨hlisting, hsame⟩ := listing_faithful inside behind hinside hbehind
  have hne : ¬ inside.same behind = true := fun h => absurd (hsame.mp h) (by decide)
  exact ⟨hinside, hbehind, fun h => hne (hlisting.mp h), by simpa using hne⟩

end Block

end TapeLang

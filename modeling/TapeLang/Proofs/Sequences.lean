import TapeLang.Proofs.Characters
import TapeLang.Text.Escape

namespace TapeLang.Text

/-- ESC, `[`, any digits and semicolons, and `m`. -/
def IsSequence (q : Text) : Prop :=
  ∃ parameters, (∀ p ∈ parameters, isParameter p = true) ∧ q = sequence parameters

/-- `u` is what is left of `t` without its colour sequences: where one starts it is removed as a
whole, and where none starts the byte is kept. -/
inductive Strips : Text → Text → Prop
  | nil : Strips [] []
  | drop {q t u : Text} : IsSequence q → Strips t u → Strips (q ++ t) u
  | keep {b : UInt8} {t u : Text} :
      (∀ q, IsSequence q → ¬ q <+: b :: t) → Strips t u → Strips (b :: t) (b :: u)

theorem sequence_append (parameters t : Text) :
    sequence parameters ++ t = escape :: 0x5B :: (parameters ++ 0x6D :: t) := by
  have hclose : text "m" = [0x6D] := rfl
  have hopen : text "[" = [0x5B] := rfl
  simp [sequence, hopen, hclose]

/-- The tail of a sequence is found whatever follows it. -/
theorem sequenceTail?_append {parameters : Text} (h : ∀ p ∈ parameters, isParameter p = true)
    (t : Text) :
    sequenceTail? (0x5B :: (parameters ++ 0x6D :: t)) = some (parameters.length + 2) := by
  have hend : isParameter 0x6D = false := rfl
  have htake : (parameters ++ 0x6D :: t).takeWhile isParameter = parameters := by
    rw [List.takeWhile_append_of_pos h, List.takeWhile_cons_of_neg (by simp [hend]),
      List.append_nil]
  simp [sequenceTail?, htake]

theorem of_sequenceTail? {t : Text} {n : Nat} (h : sequenceTail? t = some n) :
    ∃ parameters rest, (∀ p ∈ parameters, isParameter p = true) ∧
      t = 0x5B :: (parameters ++ 0x6D :: rest) ∧ n = parameters.length + 2 := by
  cases t with
  | nil => simp [sequenceTail?] at h
  | cons b t =>
    simp only [sequenceTail?, beq_iff_eq, Option.ite_none_right_eq_some, Option.some.injEq] at h
    obtain ⟨rfl, hclose, rfl⟩ := h
    have hsplit := List.takeWhile_append_dropWhile (p := isParameter) (l := t)
    have hnext : (t.takeWhile isParameter ++ t.dropWhile isParameter)[
        (t.takeWhile isParameter).length]? = some 0x6D := by
      rw [hsplit, hclose]
    rw [List.getElem?_append_right (Nat.le_refl _), Nat.sub_self, ← List.head?_eq_getElem?] at hnext
    obtain ⟨rest, hrest⟩ := List.head?_eq_some_iff.mp hnext
    rw [hrest] at hsplit
    exact ⟨_, rest, List.all_eq_true.mp List.all_takeWhile, by rw [hsplit], rfl⟩

theorem stripAfter_eq (skip : Nat) (t : Text) : stripAfter skip t = strip (t.drop skip) := by
  induction t generalizing skip with
  | nil => cases skip <;> rfl
  | cons b t ih =>
    cases skip with
    | zero => rfl
    | succ skip => exact ih skip

theorem strip_sequence {q : Text} (h : IsSequence q) (t : Text) : strip (q ++ t) = strip t := by
  obtain ⟨parameters, hparameters, rfl⟩ := h
  rw [sequence_append, strip, stripAfter]
  simp [sequenceTail?_append hparameters, stripAfter_eq]

theorem strip_keep {b : UInt8} {t : Text} (h : ∀ q, IsSequence q → ¬ q <+: b :: t) :
    strip (b :: t) = b :: strip t := by
  rw [strip, stripAfter]
  split
  · rename_i hb
    split
    · rename_i n htail
      obtain ⟨parameters, rest, hparameters, rfl, -⟩ := of_sequenceTail? htail
      refine absurd ?_ (h _ ⟨parameters, hparameters, rfl⟩)
      rw [beq_iff_eq.mp hb, ← sequence_append]
      exact List.prefix_append _ _
    · rfl
  · rfl

theorem strips_strip (t : Text) : Strips t t.strip := by
  -- on the length, since a sequence is removed at once
  induction h : t.length using Nat.strongRecOn generalizing t with
  | ind n ih =>
    cases t with
    | nil => exact .nil
    | cons b t =>
      by_cases hq : ∃ q, IsSequence q ∧ q <+: b :: t
      · obtain ⟨q, hq, rest, hrest⟩ := hq
        have hshort : rest.length < n := by
          obtain ⟨parameters, -, rfl⟩ := hq
          rw [← h, ← hrest, sequence_append]
          simp only [List.length_cons, List.length_append]
          omega
        rw [← hrest, strip_sequence hq]
        exact .drop hq (ih _ hshort rest rfl)
      · have hnone : ∀ q, IsSequence q → ¬ q <+: b :: t := fun q hs hp => hq ⟨q, hs, hp⟩
        rw [strip_keep hnone]
        exact .keep hnone (ih t.length (by simp [← h]) t rfl)

/-- Every text has one stripped form, the one that the scan finds. -/
theorem strips_iff {t u : Text} : Strips t u ↔ t.strip = u := by
  constructor
  · intro h
    induction h with
    | nil => rfl
    | drop hq _ ih => rw [strip_sequence hq, ih]
    | keep hb _ ih => rw [strip_keep hb, ih]
  · rintro rfl
    exact strips_strip t

/-- A byte other than ESC starts no sequence. -/
theorem Strips.byte {b : UInt8} (hb : b ≠ escape) {t u : Text} (h : Strips t u) :
    Strips (b :: t) (b :: u) := by
  apply Strips.keep _ h
  rintro q ⟨parameters, -, rfl⟩ ⟨rest, hrest⟩
  rw [sequence_append] at hrest
  exact hb (List.cons.inj hrest).1.symm

/-- A byte that is a character of its own and stands in no colour sequence. -/
def Lone (b : UInt8) : Prop :=
  b < 0x80 ∧ b ≠ escape ∧ b ≠ 0x5B ∧ isParameter b = false ∧ b ≠ 0x6D

instance (b : UInt8) : Decidable (Lone b) := inferInstanceAs (Decidable (_ ∧ _))

theorem Lone.not_mem {b : UInt8} (hb : Lone b) {q : Text} (hq : IsSequence q) : b ∉ q := by
  obtain ⟨-, hescape, hopen, hparameter, hclose⟩ := hb
  obtain ⟨parameters, hparameters, rfl⟩ := hq
  rw [← List.append_nil (sequence parameters), sequence_append]
  simp only [List.mem_cons, List.mem_append, List.not_mem_nil, or_false, not_or]
  refine ⟨hescape, hopen, ?_, hclose⟩
  intro hmem
  rw [hparameters b hmem] at hparameter
  cases hparameter

/-- A sequence that is cut short before such a byte stays cut short. -/
theorem Strips.append {b : UInt8} (hb : Lone b) {t u v w : Text} (ht : Strips t v)
    (hu : Strips (b :: u) w) : Strips (t ++ b :: u) (v ++ w) := by
  induction ht with
  | nil => exact hu
  | drop hq _ ih =>
    rw [List.append_assoc]
    exact .drop hq ih
  | @keep c t v hnone _ ih =>
    refine .keep ?_ ih
    intro q hq hprefix
    -- a sequence that starts here and is not inside `t` would reach `b`
    have hcut : (c :: t) ++ [b] <+: c :: (t ++ b :: u) := ⟨u, by simp⟩
    rcases List.prefix_or_prefix_of_prefix hprefix hcut with hshort | hlong
    · rcases List.prefix_concat_iff.mp hshort with rfl | hinside
      · exact hb.not_mem hq (by simp)
      · exact hnone q hq hinside
    · exact hb.not_mem hq (hlong.subset (by simp))

theorem strip_append {b : UInt8} (hb : Lone b) (t u : Text) :
    strip (t ++ b :: u) = strip t ++ b :: strip u :=
  strips_iff.mp ((strips_strip t).append hb ((strips_strip u).byte hb.2.1))

/-- The width adds up at a lone byte: neither a sequence nor a character goes on across it. -/
theorem visibleWidth_append {b : UInt8} (hb : Lone b) (t u : Text) :
    visibleWidth (t ++ b :: u) = visibleWidth t + 1 + visibleWidth u := by
  simp only [visibleWidth, strip_append hb, runeCount, runes_cut hb.1, List.length_append,
    List.length_cons]
  omega

theorem visibleWidth_nil : visibleWidth [] = 0 := rfl

theorem visibleWidth_cons {b : UInt8} (hb : Lone b) (t : Text) :
    visibleWidth (b :: t) = 1 + visibleWidth t := by
  have hcut := visibleWidth_append hb [] t
  rwa [List.nil_append, visibleWidth_nil, Nat.zero_add] at hcut

/-- Lone bytes in front of a text take a place each. -/
theorem visibleWidth_behind {u : Text} (hu : ∀ b ∈ u, Lone b) (t : Text) :
    visibleWidth (u ++ t) = u.length + visibleWidth t := by
  induction u with
  | nil => simp
  | cons b u ih =>
    have hrest := ih fun c hc => hu c (List.mem_cons_of_mem b hc)
    rw [List.cons_append, visibleWidth_cons (hu b List.mem_cons_self), hrest, List.length_cons]
    omega

/-- Lone bytes behind a text take a place each. -/
theorem visibleWidth_before {u : Text} (hu : ∀ b ∈ u, Lone b) (t : Text) :
    visibleWidth (t ++ u) = visibleWidth t + u.length := by
  cases u with
  | nil => simp
  | cons b u =>
    have hrest := visibleWidth_behind (fun c hc => hu c (List.mem_cons_of_mem b hc)) []
    rw [List.append_nil, visibleWidth_nil] at hrest
    rw [visibleWidth_append (hu b List.mem_cons_self), hrest, List.length_cons]
    omega

/-- A terminal shows `n` characters of `t`: those left without its colour sequences. -/
def Wide (n : Nat) (t : Text) : Prop := ∃ u, Strips t u ∧ u.runeCount = n

theorem wide_iff {n : Nat} {t : Text} : Wide n t ↔ t.visibleWidth = n := by
  simp [Wide, strips_iff, visibleWidth]

end TapeLang.Text

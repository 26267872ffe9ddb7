import Mathlib.Algebra.Group.Nat.Defs
import TapeLang.Text.Number

namespace TapeLang.Text

def isDigit (b : UInt8) : Bool := 0x30 ≤ b && b ≤ 0x39

theorem digit_of_char {c : Char} (h : c.isDigit = true) :
    isDigit c.toNat.toUInt8 = true ∧ c.toNat.toUInt8.toNat = c.toNat := by
  have hrange : 48 ≤ c.toNat ∧ c.toNat ≤ 57 := by
    simpa [Char.isDigit, UInt32.le_iff_toNat_le] using h
  have hvalue : c.toNat.toUInt8.toNat = c.toNat := by
    rw [UInt8.toNat_ofNat']
    omega
  refine ⟨?_, hvalue⟩
  simp only [isDigit, Bool.and_eq_true, decide_eq_true_eq, UInt8.le_iff_toNat_le, hvalue]
  exact hrange

theorem isDigit_of_mem {n : Nat} {b : UInt8} (h : b ∈ decimal n) : isDigit b = true := by
  obtain ⟨c, hc, rfl⟩ := List.mem_map.mp h
  exact (digit_of_char (Nat.isDigit_of_mem_toDigits (by omega) (by omega) hc)).1

theorem not_mem_decimal {b : UInt8} (hb : isDigit b = false) (n : Nat) : b ∉ decimal n := by
  intro h
  simp [isDigit_of_mem h] at hb

/-- No control character: every byte is a blank or above it. -/
def Printed (t : Text) : Prop := ∀ b ∈ t, space ≤ b

instance (t : Text) : Decidable (Printed t) := List.decidableBAll _ t

theorem Printed.not_mem {t : Text} (ht : Printed t) {b : UInt8} (hb : b < space) : b ∉ t := by
  intro h
  exact UInt8.not_le.mpr hb (ht b h)

theorem printed_append {t u : Text} : Printed (t ++ u) ↔ Printed t ∧ Printed u := by
  simp [Printed, or_imp, forall_and]

theorem printed_decimal (n : Nat) : Printed (decimal n) := by
  intro b hb
  have hdigit := isDigit_of_mem hb
  simp only [isDigit, Bool.and_eq_true, decide_eq_true_eq] at hdigit
  exact UInt8.le_trans (by decide) hdigit.1

theorem printed_integer (n : Int) : Printed (integer n) := by
  unfold integer
  split
  · exact printed_append.mpr ⟨by decide, printed_decimal _⟩
  · exact printed_decimal _

theorem printed_signed (n : Int) : Printed (signed n) := by
  refine printed_append.mpr ⟨?_, printed_decimal _⟩
  split
  · decide
  · decide

theorem length_decimal_le {n k : Nat} (hk : 0 < k) : (decimal n).length ≤ k ↔ n < 10 ^ k := by
  rw [decimal, List.length_map]
  exact Nat.length_toDigits_le_iff (by omega) hk

theorem foldl_digits (cs : List Char) (hcs : ∀ c ∈ cs, c.isDigit = true) (n : Nat) :
    (cs.map fun c => c.toNat.toUInt8).foldl (fun n b => 10 * n + (b.toNat - 0x30)) n =
      Nat.ofDigitChars 10 cs n := by
  induction cs generalizing n with
  | nil => simp
  | cons c cs ih =>
    have hvalue := (digit_of_char (hcs c List.mem_cons_self)).2
    rw [List.map_cons, List.foldl_cons, ih fun d hd => hcs d (List.mem_cons_of_mem c hd),
      Nat.ofDigitChars_cons, hvalue]
    rfl

theorem digitsValue_decimal (n : Nat) : digitsValue (decimal n) = n := by
  have hdigits : ∀ c ∈ Nat.toDigits 10 n, c.isDigit = true := fun c hc =>
    Nat.isDigit_of_mem_toDigits (by omega) (by omega) hc
  rw [digitsValue, decimal, foldl_digits _ hdigits, Nat.ofDigitChars_ten_toDigits]

/-- The text does not go on with a digit. -/
def Breaks (t : Text) : Prop := ∀ b ∈ t.head?, isDigit b = false

theorem breaks_nil : Breaks [] := by
  simp [Breaks]

theorem breaks_cons {b : UInt8} (h : isDigit b = false) (t : Text) : Breaks (b :: t) := by
  simpa [Breaks] using h

theorem takeWhile_decimal (n : Nat) {t : Text} (ht : Breaks t) :
    (decimal n ++ t).takeWhile isDigit = decimal n := by
  rw [List.takeWhile_append_of_pos fun b hb => isDigit_of_mem hb]
  cases t with
  | nil => simp
  | cons b t =>
    have hb : isDigit b = false := ht b (by simp)
    simp [hb]

theorem decimal_append_inj {m n : Nat} {t u : Text} (h : decimal m ++ t = decimal n ++ u)
    (ht : Breaks t) (hu : Breaks u) : m = n ∧ t = u := by
  have hdigits := congrArg (List.takeWhile isDigit) h
  rw [takeWhile_decimal m ht, takeWhile_decimal n hu] at hdigits
  have hvalue := congrArg digitsValue hdigits
  rw [digitsValue_decimal, digitsValue_decimal] at hvalue
  subst hvalue
  exact ⟨rfl, List.append_cancel_left h⟩

/-- The sign in front of a number. -/
def sign (n : Int) : UInt8 := if n < 0 then 0x2D else 0x2B

theorem signed_eq (n : Int) : signed n = sign n :: decimal n.natAbs := by
  unfold signed sign
  split <;> rfl

theorem signed_append_inj {m n : Int} {t u : Text} (h : signed m ++ t = signed n ++ u)
    (ht : Breaks t) (hu : Breaks u) : m = n ∧ t = u := by
  rw [signed_eq, signed_eq] at h
  obtain ⟨hsign, hrest⟩ := List.cons.inj h
  obtain ⟨habs, htail⟩ := decimal_append_inj hrest ht hu
  refine ⟨?_, htail⟩
  unfold sign at hsign
  split at hsign <;> split at hsign
  · omega
  · cases hsign
  · cases hsign
  · omega

end TapeLang.Text

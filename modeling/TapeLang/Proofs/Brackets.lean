import Mathlib.Algebra.Group.Nat.Defs
import TapeLang.Proofs.Scanning

namespace TapeLang

namespace Brackets

def opening : UInt8 := Kind.byte .loopOpen

def closing : UInt8 := Kind.byte .loopClose

/-- The brackets of a text are balanced and well nested. Every other byte is passed over. -/
inductive Nested : Text → Prop where
  | nil : Nested []
  | comment {b : UInt8} {t : Text} (opens : b ≠ opening) (closes : b ≠ closing)
      (rest : Nested t) : Nested (b :: t)
  | loop {body rest : Text} (inside : Nested body) (next : Nested rest) :
      Nested (opening :: (body ++ closing :: rest))

/-- More brackets close than open. -/
def Surplus (t : Text) : Prop := t.count opening < t.count closing

/-- The opening bracket at an offset has a partner: what stands between the two is nested. -/
def Matched (t : Text) (k : Nat) : Prop :=
  ∃ before body after, t = before ++ opening :: (body ++ closing :: after) ∧
    before.length = k ∧ Nested body

theorem count_opening (t : Text) : (opening :: t).count opening = t.count opening + 1 ∧
    (opening :: t).count closing = t.count closing := by
  simp [show opening ≠ closing by decide]

theorem count_closing (t : Text) : (closing :: t).count opening = t.count opening ∧
    (closing :: t).count closing = t.count closing + 1 := by
  simp [show closing ≠ opening by decide]

theorem count_comment {b : UInt8} (hopen : b ≠ opening) (hclose : b ≠ closing) (t : Text) :
    (b :: t).count opening = t.count opening ∧ (b :: t).count closing = t.count closing := by
  simp [hopen, hclose]

namespace Nested

variable {s t : Text}

theorem append (hs : Nested s) (ht : Nested t) : Nested (s ++ t) := by
  induction hs with
  | nil => exact ht
  | comment opens closes rest ih => exact .comment opens closes ih
  | loop inside next ihInside ihNext =>
    rw [List.cons_append, List.append_assoc, List.cons_append]
    exact .loop inside ihNext

/-- As many brackets open as close. -/
theorem count_eq (h : Nested t) : t.count opening = t.count closing := by
  induction h with
  | nil => rfl
  | @comment b t opens closes rest ih =>
    obtain ⟨ho, hc⟩ := count_comment opens closes t
    rw [ho, hc, ih]
  | @loop body rest inside next ihInside ihNext =>
    obtain ⟨ho, hc⟩ := count_opening (body ++ closing :: rest)
    obtain ⟨ho', hc'⟩ := count_closing rest
    rw [ho, hc, List.count_append, List.count_append, ho', hc', ihInside, ihNext]
    omega

/-- No first part of a nested text has a surplus. -/
theorem no_surplus (h : Nested t) (n : Nat) : ¬ Surplus (t.take n) := by
  induction h generalizing n with
  | nil => simp [Surplus]
  | @comment b t opens closes rest ih =>
    cases n with
    | zero => simp [Surplus]
    | succ n =>
      obtain ⟨ho, hc⟩ := count_comment opens closes (t.take n)
      rw [List.take_succ_cons, Surplus, ho, hc]
      exact ih n
  | @loop body rest inside next ihInside ihNext =>
    cases n with
    | zero => simp [Surplus]
    | succ n =>
      obtain ⟨ho, hc⟩ := count_opening ((body ++ closing :: rest).take n)
      rw [List.take_succ_cons, Surplus, ho, hc, List.take_append, List.count_append,
        List.count_append]
      have hbody := ihInside n
      unfold Surplus at hbody
      -- the cut falls into the body, or behind the bracket that closes it
      cases hm : n - body.length with
      | zero => simp only [List.take_zero, List.count_nil]; omega
      | succ m =>
        have hrest := ihNext m
        unfold Surplus at hrest
        obtain ⟨ho', hc'⟩ := count_closing (rest.take m)
        rw [List.take_succ_cons, ho', hc']
        omega

end Nested

/-- A bracket that closes after nested text makes a surplus. -/
theorem Nested.surplus {t : Text} (h : Nested t) (after : Text) :
    Surplus ((t ++ closing :: after).take (t.length + 1)) := by
  have hcut : (t ++ closing :: after).take (t.length + 1) = t ++ [closing] := by
    rw [List.take_append, List.take_of_length_le (by omega)]
    simp
  obtain ⟨ho, hc⟩ := count_closing []
  rw [hcut, Surplus, List.count_append, List.count_append, ho, hc, h.count_eq]
  simp

theorem Matched.append {t : Text} {k : Nat} (h : Matched t k) (u v : Text) :
    Matched (u ++ t ++ v) (u.length + k) := by
  obtain ⟨before, body, after, rfl, rfl, hbody⟩ := h
  exact ⟨u ++ before, body, after ++ v, by simp, by simp, hbody⟩

/-- Every opening bracket of a nested text has its partner. -/
theorem Nested.matched {t : Text} (h : Nested t) {k : Nat} (hk : t[k]? = some opening) :
    Matched t k := by
  induction h generalizing k with
  | nil => simp at hk
  | @comment b t opens closes rest ih =>
    cases k with
    | zero => exact absurd (Option.some.inj hk) opens
    | succ k => simpa [Nat.add_comm] using (ih hk).append [b] []
  | @loop body rest inside next ihInside ihNext =>
    cases k with
    | zero => exact ⟨[], body, rest, rfl, rfl, inside⟩
    | succ k =>
      rw [List.getElem?_cons_succ] at hk
      by_cases hlt : k < body.length
      · rw [List.getElem?_append_left hlt] at hk
        simpa [Nat.add_comm] using (ihInside hk).append [opening] (closing :: rest)
      · rw [List.getElem?_append_right (by omega)] at hk
        cases hm : k - body.length with
        | zero =>
          rw [hm] at hk
          exact absurd (Option.some.inj hk) (by decide)
        | succ m =>
          rw [hm, List.getElem?_cons_succ] at hk
          have hplace : k + 1 = (opening :: (body ++ [closing])).length + m := by
            simp only [List.length_cons, List.length_append, List.length_nil]
            omega
          rw [hplace]
          simpa using (ihNext hk).append (opening :: (body ++ [closing])) []

/-- An opening bracket with nothing but nested text behind it has no partner. -/
theorem not_matched {s : Text} (hs : Nested s) (u : Text) :
    ¬ Matched (u ++ opening :: s) u.length := by
  rintro ⟨before, body, after, heq, hlen, hbody⟩
  obtain ⟨-, htail⟩ := List.append_inj heq hlen.symm
  obtain rfl : s = body ++ closing :: after := (List.cons.inj htail).2
  exact hs.no_surplus _ (hbody.surplus after)

end Brackets

open Brackets

namespace Program

/-- A text that was read, cut at the brackets that wait for a partner. The innermost comes first
and has nothing but nested text behind it. -/
def Cut (is : Array Instruction) : List Nat → Text → Prop
  | [], t => Nested t
  | opened :: rest, t =>
    ∃ front back partner, t = front ++ opening :: back ∧ Nested back ∧
      is[opened]? = some ⟨.loopOpen, front.length, partner⟩ ∧ Cut is rest front

namespace Cut

variable {is is' : Array Instruction} {pending : List Nat} {t : Text}

/-- Links do not matter, only where the brackets stand. -/
theorem congr (h : Cut is pending t)
    (hsame : ∀ (i offset : Nat) (partner : Option Nat), is[i]? = some ⟨.loopOpen, offset, partner⟩ →
      ∃ partner', is'[i]? = some ⟨.loopOpen, offset, partner'⟩) : Cut is' pending t := by
  induction pending generalizing t with
  | nil => exact h
  | cons opened rest ih =>
    obtain ⟨front, back, partner, rfl, hback, hopened, hrest⟩ := h
    obtain ⟨partner', hopened'⟩ := hsame _ _ _ hopened
    exact ⟨front, back, partner', rfl, hback, hopened', ih hrest⟩

theorem append (h : Cut is pending t) {s : Text} (hs : Nested s) : Cut is pending (t ++ s) := by
  cases pending with
  | nil => exact Nested.append h hs
  | cons opened rest =>
    obtain ⟨front, back, partner, rfl, hback, hopened, hrest⟩ := h
    exact ⟨front, back ++ s, partner, by simp, hback.append hs, hopened, hrest⟩

theorem count_eq (h : Cut is pending t) : t.count opening = t.count closing + pending.length := by
  induction pending generalizing t with
  | nil => exact Nested.count_eq h
  | cons opened rest ih =>
    obtain ⟨front, back, partner, rfl, hback, -, hrest⟩ := h
    obtain ⟨ho, hc⟩ := count_opening back
    rw [List.count_append, List.count_append, ho, hc, ih hrest, hback.count_eq, List.length_cons]
    omega

theorem no_surplus (h : Cut is pending t) (n : Nat) : ¬ Surplus (t.take n) := by
  induction pending generalizing t n with
  | nil => exact Nested.no_surplus h n
  | cons opened rest ih =>
    obtain ⟨front, back, partner, rfl, hback, -, hrest⟩ := h
    have hfront := ih hrest n
    unfold Surplus at hfront
    rw [List.take_append, Surplus, List.count_append, List.count_append]
    cases hm : n - front.length with
    | zero => simpa using hfront
    | succ m =>
      have hafter := hback.no_surplus m
      unfold Surplus at hafter
      obtain ⟨ho, hc⟩ := count_opening (back.take m)
      rw [List.take_succ_cons, ho, hc]
      omega

end Cut

theorem comment_of_plain {b : UInt8} (h : (Kind.ofByte b).isLoop = false) :
    b ≠ opening ∧ b ≠ closing := by
  constructor
  · intro hb
    subst hb
    cases h
  · intro hb
    subst hb
    cases h

namespace Scan

/-- What has been read is cut at the pending brackets. -/
def Reads (s : Scan) (t : Text) : Prop := Cut s.done s.pending t

theorem Reads.push {s : Scan} {t : Text} (h : s.Reads t) (i : Instruction) :
    Cut (s.done.push i) s.pending t := by
  refine h.congr fun j offset partner hj => ⟨partner, ?_⟩
  obtain ⟨hlt, -⟩ := Array.getElem?_eq_some_iff.mp hj
  rw [Array.getElem?_push_lt hlt]
  exact hj ▸ (Array.getElem?_eq_getElem hlt).symm

/-- A closing bracket ends the loop of the innermost pending one. -/
theorem Reads.close {s : Scan} {opened : Nat} {rest : List Nat} {t : Text} (h : s.Reads t)
    (hpending : s.pending = opened :: rest) (offset : Nat) :
    (s.close opened rest offset).Reads (t ++ [closing]) := by
  unfold Reads at h
  rw [hpending] at h
  obtain ⟨front, back, partner, rfl, hback, -, hrest⟩ := h
  have hloop : Nested (opening :: (back ++ closing :: [])) := .loop hback .nil
  have htext : front ++ opening :: back ++ [closing] =
      front ++ opening :: (back ++ closing :: []) := by simp
  rw [htext]
  refine Cut.append (hrest.congr ?_) hloop
  intro j offset' partner' hj
  obtain ⟨hlt, -⟩ := Array.getElem?_eq_some_iff.mp hj
  simp only [Scan.close]
  rw [Array.getElem?_push, if_neg (by simp; omega), Array.getElem?_modify, hj]
  split <;> simp

theorem Reads.reading {s s' : Scan} {t : Text} {b : UInt8} (h : s.Reads t)
    (hread : s.Reading t.length b s') : s'.Reads (t ++ [b]) := by
  cases hread with
  | comment passes =>
    obtain ⟨hopen, hclose⟩ := comment_of_plain (Kind.plain_of_comment passes)
    exact h.append (.comment hopen hclose .nil)
  | step acts plain =>
    obtain ⟨hopen, hclose⟩ := comment_of_plain plain
    exact (h.push _).append (.comment hopen hclose .nil)
  | opening opens =>
    obtain rfl := Kind.byte_of_ofByte opens rfl
    exact ⟨t, [], none, rfl, .nil, by simp, h.push _⟩
  | closing closes waits =>
    obtain rfl := Kind.byte_of_ofByte closes rfl
    exact h.close waits _

/-- Reading fails only at a bracket that closes while none is pending. -/
theorem read_error {s : Scan} {offset : Nat} {b : UInt8} {u : Unmatched}
    (h : s.read offset b = .error u) : s.pending = [] ∧ b = closing ∧ u = ⟨.loopClose, offset⟩ := by
  unfold Scan.read at h
  cases hk : Kind.ofByte b with
  | loopClose =>
    simp only [hk] at h
    cases hp : s.pending with
    | nil =>
      simp only [hp] at h
      cases h
      exact ⟨rfl, Kind.byte_of_ofByte hk rfl, rfl⟩
    | cons opened rest =>
      simp only [hp] at h
      cases h
  | other | loopOpen | moveLeft | moveRight | increment | decrement | output | input =>
    simp only [hk] at h
    cases h

/-- Reading stops at the first bracket that closes after nested text only. -/
theorem Reads.readAll_error {s : Scan} {t rest : Text} {u : Unmatched} (h : s.Reads t)
    (hread : s.readAll t.length rest = .error u) :
    ∃ front back, t ++ rest = front ++ closing :: back ∧ Nested front ∧
      u = ⟨.loopClose, front.length⟩ := by
  induction rest generalizing s t with
  | nil => cases hread
  | cons b rest ih =>
    unfold Scan.readAll at hread
    cases hb : s.read t.length b with
    | error u' =>
      rw [hb] at hread
      cases hread
      obtain ⟨hpending, rfl, rfl⟩ := read_error hb
      unfold Reads at h
      rw [hpending] at h
      exact ⟨t, rest, rfl, h, rfl⟩
    | ok s₁ =>
      rw [hb] at hread
      have hnext : s₁.readAll (t ++ [b]).length rest = .error u := by simpa using hread
      obtain ⟨front, back, htext, hfront, hu⟩ := ih (h.reading (read_ok hb)) hnext
      exact ⟨front, back, by simpa using htext, hfront, hu⟩

theorem reads_empty : Scan.Reads {} [] := Nested.nil

theorem reads_readAll {t : Text} {s : Scan} (h : readAll {} 0 t = .ok s) : s.Reads t :=
  readAll_rule (fun _ _ _ _ => Reads.reading) reads_empty h

end Scan

theorem nested_of_scan {t : Text} {is : Array Instruction} (h : scan t = .ok is) : Nested t := by
  unfold scan at h
  cases hread : Scan.readAll {} 0 t with
  | error u =>
    rw [hread] at h
    cases h
  | ok s =>
    rw [hread] at h
    have hcut := Scan.reads_readAll hread
    unfold Scan.Reads at hcut
    unfold Scan.finish at h
    cases hp : s.pending with
    | nil =>
      rw [hp] at hcut
      exact hcut
    | cons opened rest =>
      rw [hp] at hcut
      obtain ⟨front, back, partner, -, -, hopened, -⟩ := hcut
      simp only [hp, hopened] at h
      cases h

/-- A scan fails at a bracket that closes after nested text only, or else at one that opens with
nested text only behind it; then no first part of the text has a surplus. -/
theorem scan_error {t : Text} {u : Unmatched} (h : scan t = .error u) :
    ∃ front back, u.offset = front.length ∧
      ((u.kind = .loopClose ∧ t = front ++ closing :: back ∧ Nested front) ∨
        (u.kind = .loopOpen ∧ t = front ++ opening :: back ∧ Nested back ∧
          (∀ n, ¬ Surplus (t.take n)) ∧ t.count closing < t.count opening)) := by
  unfold scan at h
  cases hread : Scan.readAll {} 0 t with
  | error u' =>
    rw [hread] at h
    cases h
    obtain ⟨front, back, htext, hfront, rfl⟩ := Scan.reads_empty.readAll_error hread
    exact ⟨front, back, rfl, .inl ⟨rfl, htext, hfront⟩⟩
  | ok s =>
    rw [hread] at h
    have hcut : Cut s.done s.pending t := Scan.reads_readAll hread
    have hcount := hcut.count_eq
    have hsurplus := hcut.no_surplus
    unfold Scan.finish at h
    cases hp : s.pending with
    | nil =>
      simp only [hp] at h
      cases h
    | cons opened rest =>
      rw [hp] at hcut hcount
      obtain ⟨front, back, partner, htext, hback, hopened, -⟩ := hcut
      simp only [hp, hopened] at h
      cases h
      refine ⟨front, back, rfl, .inr ⟨rfl, htext, hback, hsurplus, ?_⟩⟩
      rw [hcount, List.length_cons]
      omega

/-- The same by counting. -/
theorem nested_iff_counts (t : Text) :
    Nested t ↔ (∀ n, ¬ Surplus (t.take n)) ∧ t.count opening = t.count closing := by
  refine ⟨fun h => ⟨h.no_surplus, h.count_eq⟩, ?_⟩
  rintro ⟨hnone, hcount⟩
  cases hscan : scan t with
  | ok is => exact nested_of_scan hscan
  | error u =>
    obtain ⟨front, back, -, ⟨-, rfl, hfront⟩ | ⟨-, -, -, -, hlt⟩⟩ := scan_error hscan
    · exact absurd (hfront.surplus back) (hnone _)
    · omega

theorem parse_ok_iff (source : Source) : (∃ p, parse source = .ok p) ↔ Nested source.bytes := by
  unfold parse
  constructor
  · rintro ⟨p, h⟩
    cases hscan : scan source.bytes with
    | ok is => exact nested_of_scan hscan
    | error u =>
      rw [hscan] at h
      cases h
  · intro h
    cases hscan : scan source.bytes with
    | ok is => exact ⟨_, rfl⟩
    | error u =>
      obtain ⟨front, back, -, ⟨-, htext, hfront⟩ | ⟨-, -, -, -, hlt⟩⟩ := scan_error hscan
      · rw [htext] at h
        exact absurd (hfront.surplus back) (h.no_surplus _)
      · rw [h.count_eq] at hlt
        omega

section
variable {t : Text} {u : Unmatched}

/-- Where some first part has a surplus, the bracket that ends the shortest is at fault. -/
theorem scan_error_surplus (h : scan t = .error u) (hsome : ∃ n, Surplus (t.take n)) :
    u.kind = .loopClose ∧ t[u.offset]? = some closing ∧ Surplus (t.take (u.offset + 1)) ∧
      ∀ n, Surplus (t.take n) → u.offset + 1 ≤ n := by
  obtain ⟨front, back, hoffset, ⟨hkind, rfl, hfront⟩ | ⟨-, -, -, hnone, -⟩⟩ := scan_error h
  · rw [hoffset]
    refine ⟨hkind, by simp, hfront.surplus back, ?_⟩
    intro n hn
    refine Nat.lt_of_not_le fun hle => hfront.no_surplus n ?_
    rwa [List.take_append_of_le_length hle] at hn
  · obtain ⟨n, hn⟩ := hsome
    exact absurd hn (hnone n)

/-- Where none has, the last opening bracket without a partner is at fault. -/
theorem scan_error_open (h : scan t = .error u) (hnone : ∀ n, ¬ Surplus (t.take n)) :
    u.kind = .loopOpen ∧ t[u.offset]? = some opening ∧ ¬ Matched t u.offset ∧
      ∀ k, u.offset < k → t[k]? = some opening → Matched t k := by
  obtain ⟨front, back, hoffset, ⟨-, rfl, hfront⟩ | ⟨hkind, rfl, hback, -, -⟩⟩ := scan_error h
  · exact absurd (hfront.surplus back) (hnone _)
  · rw [hoffset]
    refine ⟨hkind, by simp, not_matched hback front, ?_⟩
    intro k hlt hk
    obtain ⟨m, rfl⟩ : ∃ m, k = front.length + 1 + m := ⟨k - (front.length + 1), by omega⟩
    have hm : back[m]? = some opening := by
      rw [List.getElem?_append_right (by omega),
        show front.length + 1 + m - front.length = m + 1 by omega] at hk
      exact hk
    simpa using (hback.matched hm).append (front ++ [opening]) []

end

/-- The parser accepts exactly the nested sources, which are those where no first part has a
surplus and as many brackets open as close. Otherwise it names the closing bracket that ends the
shortest first part with a surplus; or, where there is none, the last opening bracket without a
partner. The kind of bracket, the code and the byte at the position agree. -/
theorem parse_exact (source : Source) (hlen : source.bytes.length < 2 ^ 63) :
    ((∃ p, parse source = .ok p) ↔ Nested source.bytes) ∧
      (Nested source.bytes ↔ (∀ n, ¬ Surplus (source.bytes.take n)) ∧
        source.bytes.count opening = source.bytes.count closing) ∧
      ∀ e, parse source = .error e → ∃ k : Nat,
        e.position.offset.toInt = k ∧ source.bytes[k]? = some e.bracket.byte ∧
        ((∃ n, Surplus (source.bytes.take n)) →
          e.bracket = .loopClose ∧ e.code.name = text "E1001" ∧
            Surplus (source.bytes.take (k + 1)) ∧
            ∀ n, Surplus (source.bytes.take n) → k + 1 ≤ n) ∧
        ((∀ n, ¬ Surplus (source.bytes.take n)) →
          e.bracket = .loopOpen ∧ e.code.name = text "E1002" ∧ ¬ Matched source.bytes k ∧
            ∀ k', k < k' → source.bytes[k']? = some opening → Matched source.bytes k') := by
  refine ⟨parse_ok_iff source, nested_iff_counts source.bytes, ?_⟩
  intro e he
  unfold parse at he
  cases hscan : scan source.bytes with
  | ok is =>
    rw [hscan] at he
    cases he
  | error u =>
    rw [hscan] at he
    cases he
    have hplace {b : UInt8} (hb : source.bytes[u.offset]? = some b) :
        (Int64.ofNat u.offset).toInt = u.offset := by
      obtain ⟨hlt, -⟩ := List.getElem?_eq_some_iff.mp hb
      exact Int64.toInt_ofNat_of_lt (by omega)
    by_cases hsome : ∃ n, Surplus (source.bytes.take n)
    · obtain ⟨hkind, hbyte, hsurplus, hleast⟩ := scan_error_surplus hscan hsome
      refine ⟨u.offset, hplace hbyte, ?_, ?_, fun hnone => absurd hsome (by simpa using hnone)⟩
      · rw [hbyte, Unmatched.toError, hkind]
        rfl
      · intro _
        rw [Unmatched.toError, ParseError.code, hkind]
        exact ⟨rfl, rfl, hsurplus, hleast⟩
    · have hnone : ∀ n, ¬ Surplus (source.bytes.take n) := by simpa using hsome
      obtain ⟨hkind, hbyte, hfree, hlast⟩ := scan_error_open hscan hnone
      refine ⟨u.offset, hplace hbyte, ?_, fun h => absurd h hsome, ?_⟩
      · rw [hbyte, Unmatched.toError, hkind]
        rfl
      · intro _
        rw [Unmatched.toError, ParseError.code, hkind]
        exact ⟨rfl, rfl, hfree, hlast⟩

/-- A loop, an open bracket, and a loop inside it: the bracket in the middle is at fault. -/
def unclosed : Source := { file := [], bytes := text "a[+][,[.]" }

theorem parse_exact_unclosed :
    unclosed.bytes.length < 2 ^ 63 ∧ ∃ e, parse unclosed = .error e ∧
      ∃ k : Nat, e.position.offset.toInt = k ∧ unclosed.bytes[k]? = some e.bracket.byte ∧
        e.code.name = text "E1002" ∧ ¬ Matched unclosed.bytes k ∧
        ∀ k', k < k' → unclosed.bytes[k']? = some opening → Matched unclosed.bytes k' := by
  have hlen : unclosed.bytes.length < 2 ^ 63 := by decide
  have hnone : ∀ n, ¬ Surplus (unclosed.bytes.take n) := by
    intro n
    have hshort : ∀ n < 9, ¬ Surplus (unclosed.bytes.take n) := by
      unfold Surplus
      decide
    by_cases hn : n < 9
    · exact hshort n hn
    · rw [List.take_of_length_le (show unclosed.bytes.length ≤ n by
        rw [show unclosed.bytes.length = 9 from rfl]; omega)]
      unfold Surplus
      decide
  obtain ⟨haccepts, hcounts, hfault⟩ := parse_exact unclosed hlen
  cases hp : parse unclosed with
  | ok p =>
    have hcount := (hcounts.mp (haccepts.mp ⟨p, hp⟩)).2
    exact absurd hcount (by decide)
  | error e =>
    obtain ⟨k, hoffset, hbyte, -, hopen⟩ := hfault e hp
    obtain ⟨-, hcode, hfree, hlast⟩ := hopen hnone
    exact ⟨hlen, e, rfl, k, hoffset, hbyte, hcode, hfree, hlast⟩

end Program

end TapeLang

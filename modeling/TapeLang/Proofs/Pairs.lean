import TapeLang.Proofs.Spelling

namespace TapeLang

open Brackets

/-- The bracket at `i` opens a loop, the one at `j` closes it, and each names the other. -/
def Paired (is : Array Instruction) (i j : Nat) : Prop :=
  (∃ offset, is[i]? = some ⟨.loopOpen, offset, some j⟩) ∧
    ∃ offset, is[j]? = some ⟨.loopClose, offset, some i⟩

/-- The pair lies in a range of instructions, with a linked range between the two. -/
structure PairIn (is : Array Instruction) (i stop first last : Nat) : Prop where
  lower : i ≤ first
  upper : last < stop
  paired : Paired is first last
  between : ∃ body, Linked is (first + 1) last body

theorem PairIn.widen {is : Array Instruction} {i j stop end' first last : Nat}
    (h : PairIn is j end' first last) (hlower : i ≤ j) (hupper : end' ≤ stop) :
    PairIn is i stop first last :=
  ⟨Nat.le_trans hlower h.lower, Nat.lt_of_lt_of_le h.upper hupper, h.paired, h.between⟩

namespace Linked

variable {is : Array Instruction} {i stop k : Nat} {b : Block} {x : Instruction}

/-- Every bracket in a linked range is one of a pair there. -/
theorem bracket_at (h : Linked is i stop b) (hle : i ≤ k) (hlt : k < stop) (hk : is[k]? = some x)
    (hloop : x.kind.isLoop = true) :
    ∃ first last, (k = first ∨ k = last) ∧ PairIn is i stop first last := by
  induction h with
  | nil i => omega
  | @step i stop instruction op rest found acts next ih =>
    have hne : k ≠ i := by
      intro hk'
      subst hk'
      rw [found] at hk
      cases hk
      rw [Kind.plain_of_op acts] at hloop
      cases hloop
    obtain ⟨first, last, hend, hpair⟩ := ih (by omega) hlt
    exact ⟨first, last, hend, hpair.widen (Nat.le_succ i) (Nat.le_refl stop)⟩
  | @loop i j stop offset offset' body rest opens closes inside next ihInside ihNext =>
    have hinside := inside.le
    have hnext := next.le
    by_cases hend : k = i ∨ k = j
    · exact ⟨i, j, hend, Nat.le_refl i, hnext, ⟨⟨offset, opens⟩, offset', closes⟩, body, inside⟩
    · rcases Nat.lt_or_ge k j with hkj | hkj
      · obtain ⟨first, last, hend', hpair⟩ := ihInside (by omega) hkj
        exact ⟨first, last, hend', hpair.widen (Nat.le_succ i) (by omega)⟩
      · obtain ⟨first, last, hend', hpair⟩ := ihNext (by omega) hlt
        exact ⟨first, last, hend', hpair.widen (by omega) (Nat.le_refl stop)⟩

/-- The partner of a bracket that opens a loop closes it in the same range. -/
theorem opening_at (h : Linked is i stop b) (hle : i ≤ k) (hlt : k < stop) (hk : is[k]? = some x)
    (hopen : x.kind = .loopOpen) : ∃ last, x.partner = some last ∧ PairIn is i stop k last := by
  obtain ⟨first, last, hend, hpair⟩ := h.bracket_at hle hlt hk (by rw [hopen]; rfl)
  obtain ⟨⟨offset, hfirst⟩, offset', hlast⟩ := hpair.paired
  rcases hend with rfl | rfl
  · rw [hfirst] at hk
    cases hk
    exact ⟨last, rfl, hpair⟩
  · rw [hlast] at hk
    cases hk
    cases hopen

theorem closing_at (h : Linked is i stop b) (hle : i ≤ k) (hlt : k < stop) (hk : is[k]? = some x)
    (hclose : x.kind = .loopClose) :
    ∃ first, x.partner = some first ∧ PairIn is i stop first k := by
  obtain ⟨first, last, hend, hpair⟩ := h.bracket_at hle hlt hk (by rw [hclose]; rfl)
  obtain ⟨⟨offset, hfirst⟩, offset', hlast⟩ := hpair.paired
  rcases hend with rfl | rfl
  · rw [hfirst] at hk
    cases hk
    cases hclose
  · rw [hlast] at hk
    cases hk
    exact ⟨first, rfl, hpair⟩

end Linked

namespace Program

/-- No instruction but a bracket has a partner. -/
def Plain (is : Array Instruction) : Prop :=
  ∀ (k : Nat) (x : Instruction), is[k]? = some x → x.kind.isLoop = false → x.partner = none

theorem Plain.push {is : Array Instruction} (h : Plain is) {x : Instruction}
    (hx : x.kind.isLoop = false → x.partner = none) : Plain (is.push x) := by
  intro k y hy hplain
  rw [Array.getElem?_push] at hy
  split at hy
  · cases hy
    exact hx hplain
  · exact h k y hy hplain

theorem Plain.link {is : Array Instruction} (h : Plain is) {k : Nat} {x : Instruction}
    (hk : is[k]? = some x) (hloop : x.kind.isLoop = true) (partner : Option Nat) :
    Plain (is.modify k fun i => { i with partner }) := by
  intro n y hy hplain
  rw [Array.getElem?_modify] at hy
  split at hy
  · rename_i hn
    subst hn
    rw [hk] at hy
    cases hy
    rw [hloop] at hplain
    cases hplain
  · exact h n y hy hplain

/-- What is linked when a bracket closes is a bracket. -/
theorem Plain.reading {s s' : Scan} {offset : Nat} {b : UInt8} (h : Plain s.done)
    (hsound : s.Sound) (hread : s.Reading offset b s') : Plain s'.done := by
  cases hread with
  | comment passes => exact h
  | step acts plain => exact h.push fun _ => rfl
  | opening opens => exact h.push fun _ => rfl
  | closing closes waits =>
    unfold Scan.Sound at hsound
    rw [waits] at hsound
    obtain ⟨⟨offset', hopen⟩, -⟩ := hsound
    exact (h.link hopen rfl _).push nofun

theorem plain_parse {source : Source} {p : Program} (h : parse source = .ok p) :
    Plain p.instructions := by
  obtain ⟨s, hread, hfinish⟩ := parse_ok h
  have hempty : Plain #[] := by
    intro k x hx
    simp at hx
  have hscan := Scan.readAll_rule (P := fun s _ => s.Sound ∧ Plain s.done) (t := [])
    (fun _ _ _ _ hs hbyte => ⟨hs.1.reading hbyte, hs.2.reading hs.1 hbyte⟩)
    ⟨Scan.sound_empty, hempty⟩ hread
  rw [Scan.finish_ok hfinish]
  exact hscan.2

/-- The instructions of a program are the letters of its source in order, by kind and offset, and
there is one of a kind at an offset exactly where the byte of that kind stands. Exactly the brackets
have partners, and two partners name each other. The partner of an opening bracket closes a loop
behind it, and the instructions between the two are balanced by themselves; so a pair that begins
inside another ends there. -/
theorem parse_pairs {source : Source} {p : Program} (h : parse source = .ok p) :
    p.instructions.toList.map Instruction.site = Kind.sites source.bytes ∧
    (∀ (kind : Kind) (offset : Nat), kind.isInstruction = true →
      ((∃ x ∈ p.instructions, x.kind = kind ∧ x.offset = offset) ↔
        source.bytes[offset]? = some kind.byte)) ∧
    (∀ (k : Nat) (x : Instruction), p.instructions[k]? = some x →
      (x.partner = none ↔ x.kind.isLoop = false) ∧
      (x.kind = .loopOpen → ∃ j, x.partner = some j ∧ k < j ∧ Paired p.instructions k j ∧
        Nested (spelled p.instructions (k + 1) j)) ∧
      (x.kind = .loopClose → ∃ i, x.partner = some i ∧ Paired p.instructions i k)) ∧
    ∀ i j k l, Paired p.instructions i j → Paired p.instructions k l → i < k → k < j → l < j := by
  have hlinked := linked_of_parse h
  refine ⟨sites_parse h, ?_, ?_, ?_⟩
  · intro kind offset hkind
    rw [← Kind.mem_sites hkind, ← sites_parse h]
    simp [Instruction.site]
  · intro k x hk
    have hsize := (Array.getElem?_eq_some_iff.mp hk).1
    have hopens := hlinked.opening_at (Nat.zero_le k) hsize hk
    have hcloses := hlinked.closing_at (Nat.zero_le k) hsize hk
    refine ⟨⟨?_, plain_parse h k x hk⟩, ?_, ?_⟩
    · intro hnone
      cases hkind : x.kind with
      | loopOpen =>
        obtain ⟨j, hpartner, -⟩ := hopens hkind
        rw [hnone] at hpartner
        cases hpartner
      | loopClose =>
        obtain ⟨i, hpartner, -⟩ := hcloses hkind
        rw [hnone] at hpartner
        cases hpartner
      | moveLeft | moveRight | increment | decrement | output | input | other => rfl
    · intro hopen
      obtain ⟨j, hpartner, hpair⟩ := hopens hopen
      obtain ⟨body, hbody⟩ := hpair.between
      exact ⟨j, hpartner, hbody.le, hpair.paired, (Block.measured_written hbody.written).nested⟩
    · intro hclose
      obtain ⟨i, hpartner, hpair⟩ := hcloses hclose
      exact ⟨i, hpartner, hpair.paired⟩
  · intro i j k l hij hkl hik hkj
    obtain ⟨⟨offset, hi⟩, -⟩ := hij
    obtain ⟨⟨offset', hk⟩, -⟩ := hkl
    obtain ⟨j', hpartner, hpair⟩ := hlinked.opening_at (Nat.zero_le i)
      (Array.getElem?_eq_some_iff.mp hi).1 hi rfl
    cases hpartner
    obtain ⟨body, hbody⟩ := hpair.between
    obtain ⟨l', hpartner', hpair'⟩ := hbody.opening_at hik hkj hk rfl
    cases hpartner'
    exact hpair'.upper

theorem parse_pairs_nested :
    ∃ p, parse ⟨[], text "+[>[-]<]."⟩ = .ok p ∧ Paired p.instructions 1 7 ∧
      Nested (spelled p.instructions 2 7) := by
  obtain ⟨p, hp⟩ : ∃ p, parse ⟨[], text "+[>[-]<]."⟩ = .ok p := ⟨_, rfl⟩
  have hbracket : p.instructions[1]? = some ⟨.loopOpen, 1, some 7⟩ := by
    cases hp
    rfl
  obtain ⟨j, hpartner, -, hpaired, hnested⟩ := ((parse_pairs hp).2.2.1 1 _ hbracket).2.1 rfl
  cases hpartner
  exact ⟨p, hp, hpaired, hnested⟩

end Program

end TapeLang

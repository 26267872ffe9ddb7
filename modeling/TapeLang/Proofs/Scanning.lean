import TapeLang.Program

namespace TapeLang

namespace Kind

/-- The byte stands for an instruction. -/
def isLetter (b : UInt8) : Bool := (text "<>+-[].,").contains b

theorem isInstruction_ofByte (b : UInt8) : (ofByte b).isInstruction = isLetter b := by
  have hletters : text "<>+-[].," = [0x3C, 0x3E, 0x2B, 0x2D, 0x5B, 0x5D, 0x2E, 0x2C] := by decide
  rw [isLetter, hletters]
  unfold ofByte
  repeat' split
  all_goals simp_all [isInstruction]

theorem plain_of_comment {kind : Kind} (h : kind.isInstruction = false) : kind.isLoop = false := by
  cases kind with
  | other code => rfl
  | moveLeft | moveRight | increment | decrement | loopOpen | loopClose | output | input => cases h

theorem byte_of_ofByte {b : UInt8} {kind : Kind} (h : ofByte b = kind)
    (hkind : kind.isInstruction = true) : b = kind.byte := by
  subst h
  unfold ofByte at hkind ⊢
  repeat' split at hkind
  all_goals simp_all [byte, isInstruction]

/-- The letters of a text in order, each by its kind and its offset. -/
def sites (t : Text) : List (Kind × Nat) :=
  (t.zipIdx.filter fun (b, _) => isLetter b).map fun (b, offset) => (ofByte b, offset)

theorem ofByte_byte {kind : Kind} (h : kind.isInstruction = true) : ofByte kind.byte = kind := by
  cases kind with
  | other code => cases h
  | moveLeft | moveRight | increment | decrement | loopOpen | loopClose | output | input => rfl

/-- The letters found are the bytes that stand for them. -/
theorem mem_sites {kind : Kind} (h : kind.isInstruction = true) {t : Text} {offset : Nat} :
    (kind, offset) ∈ sites t ↔ t[offset]? = some kind.byte := by
  simp only [sites, List.mem_map, List.mem_filter, List.mem_zipIdx_iff_getElem?, Prod.exists,
    Prod.mk.injEq]
  constructor
  · rintro ⟨b, n, ⟨hb, -⟩, hkind, rfl⟩
    rw [hb, byte_of_ofByte hkind h]
  · intro hb
    have hletter : isLetter kind.byte = true := by rw [← isInstruction_ofByte, ofByte_byte h, h]
    exact ⟨kind.byte, offset, ⟨hb, hletter⟩, ofByte_byte h, rfl⟩

theorem sites_append (t : Text) (b : UInt8) :
    sites (t ++ [b]) = sites t ++ if isLetter b then [(ofByte b, t.length)] else [] := by
  unfold sites
  rw [List.zipIdx_append, List.filter_append, List.map_append, List.zipIdx_singleton]
  split <;> rename_i hb <;> simp [hb]

end Kind

def Instruction.site (i : Instruction) : Kind × Nat := (i.kind, i.offset)

namespace Program

namespace Scan

/-- What reading one byte can make of a scan. -/
inductive Reading (s : Scan) (offset : Nat) (b : UInt8) : Scan → Prop where
  | comment (passes : (Kind.ofByte b).isInstruction = false) : Reading s offset b s
  | step (acts : (Kind.ofByte b).isInstruction = true) (plain : (Kind.ofByte b).isLoop = false) :
      Reading s offset b { s with done := s.done.push ⟨Kind.ofByte b, offset, none⟩ }
  | opening (opens : Kind.ofByte b = .loopOpen) :
      Reading s offset b ⟨s.done.push ⟨.loopOpen, offset, none⟩, s.done.size :: s.pending⟩
  | closing {opened : Nat} {rest : List Nat} (closes : Kind.ofByte b = .loopClose)
      (waits : s.pending = opened :: rest) : Reading s offset b (s.close opened rest offset)

theorem read_ok {s s' : Scan} {offset : Nat} {b : UInt8} (h : s.read offset b = .ok s') :
    s.Reading offset b s' := by
  unfold read at h
  cases hk : Kind.ofByte b with
  | other code =>
    simp only [hk] at h
    cases h
    exact .comment (by rw [hk]; rfl)
  | loopOpen =>
    simp only [hk] at h
    cases h
    exact .opening hk
  | loopClose =>
    simp only [hk] at h
    cases hp : s.pending with
    | nil =>
      simp only [hp] at h
      cases h
    | cons opened rest =>
      simp only [hp] at h
      cases h
      exact .closing hk hp
  | moveLeft | moveRight | increment | decrement | output | input =>
    simp only [hk] at h
    cases h
    have hread : s.Reading offset b { s with done := s.done.push ⟨Kind.ofByte b, offset, none⟩ } :=
      .step (by rw [hk]; rfl) (by rw [hk]; rfl)
    rwa [hk] at hread

/-- What every byte keeps, a text keeps. -/
theorem readAll_rule {P : Scan → Text → Prop}
    (hbyte : ∀ s s' t b, P s t → s.Reading t.length b s' → P s' (t ++ [b])) {rest : Text}
    {s s' : Scan} {t : Text} (h : P s t) (hread : s.readAll t.length rest = .ok s') :
    P s' (t ++ rest) := by
  induction rest generalizing s t with
  | nil =>
    cases hread
    rwa [List.append_nil]
  | cons b rest ih =>
    unfold readAll at hread
    cases hb : s.read t.length b with
    | error u =>
      rw [hb] at hread
      cases hread
    | ok s₁ =>
      rw [hb] at hread
      have hnext : s₁.readAll (t ++ [b]).length rest = .ok s' := by simpa using hread
      simpa using ih (hbyte s s₁ t b h (read_ok hb)) hnext

theorem finish_ok {s : Scan} {is : Array Instruction} (h : s.finish = .ok is) : is = s.done := by
  unfold finish at h
  split at h
  · cases h
    rfl
  · split at h
    · cases h
    · cases h
      rfl

/-- The instructions read so far are the letters of the text. -/
def Lists (s : Scan) (t : Text) : Prop := s.done.toList.map Instruction.site = Kind.sites t

/-- A link changes neither the kind nor the offset of an instruction. -/
theorem sites_linked (is : Array Instruction) (k : Nat) (partner : Option Nat) :
    (is.modify k fun i => { i with partner }).toList.map Instruction.site =
      is.toList.map Instruction.site := by
  apply List.ext_getElem?
  intro n
  rw [Array.toList_modify, List.getElem?_map, List.getElem?_map, List.getElem?_modify]
  cases is.toList[n]? with
  | none => rfl
  | some i =>
    simp only [Option.map_eq_map, Option.map_some]
    split <;> rfl

theorem Lists.reading {s s' : Scan} {t : Text} {b : UInt8} (h : s.Lists t)
    (hread : s.Reading t.length b s') : s'.Lists (t ++ [b]) := by
  unfold Lists at h ⊢
  rw [Kind.sites_append, ← Kind.isInstruction_ofByte]
  cases hread with
  | comment passes =>
    rw [if_neg (by simp [passes]), List.append_nil]
    exact h
  | step acts plain =>
    rw [if_pos acts, Array.toList_push, List.map_append, h]
    rfl
  | opening opens =>
    rw [opens, Array.toList_push, List.map_append, h]
    rfl
  | closing closes waits =>
    rw [closes, close, Array.toList_push, List.map_append, sites_linked, h]
    rfl

end Scan

/-- A program comes from a scan of its source to the end. -/
theorem parse_ok {source : Source} {p : Program} (h : parse source = .ok p) :
    ∃ s, Scan.readAll {} 0 source.bytes = .ok s ∧ s.finish = .ok p.instructions := by
  unfold parse scan at h
  cases hread : Scan.readAll {} 0 source.bytes with
  | error u =>
    rw [hread] at h
    cases h
  | ok s =>
    rw [hread] at h
    cases hfinish : s.finish with
    | error u =>
      simp only [hfinish] at h
      cases h
    | ok is =>
      simp only [hfinish] at h
      cases h
      exact ⟨s, rfl, hfinish⟩

/-- The instructions of a program are the letters of its source. -/
theorem sites_parse {source : Source} {p : Program} (h : parse source = .ok p) :
    p.instructions.toList.map Instruction.site = Kind.sites source.bytes := by
  obtain ⟨s, hread, hfinish⟩ := parse_ok h
  have hstart : Scan.Lists {} [] := rfl
  have hlists := Scan.readAll_rule (fun _ _ _ _ => Scan.Lists.reading) hstart hread
  rw [Scan.finish_ok hfinish]
  exact hlists

end Program

end TapeLang

import TapeLang.Block.Build
import TapeLang.Proofs.Scanning

namespace TapeLang

theorem Kind.op_of_plain {kind : Kind} (hacts : kind.isInstruction = true)
    (hplain : kind.isLoop = false) : ∃ op, kind.op? = some op := by
  cases kind with
  | loopOpen | loopClose => cases hplain
  | other code => cases hacts
  | moveLeft | moveRight | increment | decrement | output | input => exact ⟨_, rfl⟩

theorem Kind.plain_of_op {kind : Kind} {op : Op} (h : kind.op? = some op) :
    kind.isLoop = false := by
  cases kind with
  | loopOpen | loopClose => cases h
  | moveLeft | moveRight | increment | decrement | output | input | other => rfl

/-- The instructions from one index up to another read as a block. -/
inductive Linked (is : Array Instruction) : Nat → Nat → Block → Prop where
  | nil (i : Nat) : Linked is i i .nil
  | step {i stop : Nat} {instruction : Instruction} {op : Op} {rest : Block}
      (found : is[i]? = some instruction) (acts : instruction.kind.op? = some op)
      (next : Linked is (i + 1) stop rest) : Linked is i stop (.step op rest)
  | loop {i j stop offset offset' : Nat} {body rest : Block}
      (opens : is[i]? = some ⟨.loopOpen, offset, some j⟩)
      (closes : is[j]? = some ⟨.loopClose, offset', some i⟩)
      (inside : Linked is (i + 1) j body) (next : Linked is (j + 1) stop rest) :
      Linked is i stop (.loop body rest)

namespace Linked

variable {is is' : Array Instruction} {i j k : Nat} {b c : Block}

theorem le (h : Linked is i j b) : i ≤ j := by
  induction h with
  | nil i => exact Nat.le_refl i
  | step found acts next ih => omega
  | loop opens closes inside next ihInside ihNext => omega

/-- Only the instructions in the range matter. -/
theorem congr (h : Linked is i j b) (hsame : ∀ n, i ≤ n → n < j → is'[n]? = is[n]?) :
    Linked is' i j b := by
  induction h with
  | nil i => exact .nil i
  | step found acts next ih =>
    have hle := next.le
    have hfound := (hsame _ (Nat.le_refl _) (by omega)).trans found
    exact .step hfound acts (ih fun n hn hj => hsame n (by omega) hj)
  | loop opens closes inside next ihInside ihNext =>
    have hle := inside.le
    have hle' := next.le
    have hopens := (hsame _ (Nat.le_refl _) (by omega)).trans opens
    have hcloses := (hsame _ (by omega) (by omega)).trans closes
    exact .loop hopens hcloses (ihInside fun n hn hj => hsame n (by omega) (by omega))
      (ihNext fun n hn hj => hsame n (by omega) hj)

/-- Two ranges side by side read as one block. -/
theorem join (h : Linked is i j b) (h' : Linked is j k c) : ∃ d, Linked is i k d := by
  induction h with
  | nil i => exact ⟨c, h'⟩
  | step found acts next ih =>
    obtain ⟨d, hd⟩ := ih h'
    exact ⟨_, .step found acts hd⟩
  | loop opens closes inside next ihInside ihNext =>
    obtain ⟨d, hd⟩ := ihNext h'
    exact ⟨_, .loop opens closes inside hd⟩

/-- The builder finds the block. -/
theorem between (h : Linked is i j b) : Block.between? is i j = some b := by
  induction h with
  | nil i =>
    unfold Block.between?
    rw [if_neg (Nat.lt_irrefl i)]
  | @step i stop instruction op rest found acts next ih =>
    have hle := next.le
    have hkind : instruction.kind ≠ .loopOpen := by
      intro hopen
      rw [hopen] at acts
      cases acts
    unfold Block.between?
    rw [if_pos (by omega), found]
    simp only [if_neg hkind, acts, ih]
  | loop opens closes inside next ihInside ihNext =>
    have hle := inside.le
    have hle' := next.le
    unfold Block.between?
    rw [if_pos (by omega), opens]
    simp only [↓reduceIte]
    rw [if_pos (by omega), ihInside, ihNext]

end Linked

namespace Program

/-- The instructions up to an index are linked except for the brackets that are still open, the
innermost first. -/
def Waiting (is : Array Instruction) : List Nat → Nat → Prop
  | [], stop => ∃ b, Linked is 0 stop b
  | opened :: rest, stop =>
    (∃ offset, is[opened]? = some ⟨.loopOpen, offset, none⟩) ∧
      (∃ b, Linked is (opened + 1) stop b) ∧ Waiting is rest opened

namespace Waiting

variable {is is' : Array Instruction} {pending : List Nat} {stop k : Nat} {b : Block}

theorem congr (h : Waiting is pending stop) (hsame : ∀ n < stop, is'[n]? = is[n]?) :
    Waiting is' pending stop := by
  induction pending generalizing stop with
  | nil =>
    obtain ⟨b, hb⟩ := h
    exact ⟨b, hb.congr fun n _ hn => hsame n hn⟩
  | cons opened rest ih =>
    obtain ⟨⟨offset, hopen⟩, ⟨b, hb⟩, hrest⟩ := h
    have hle := hb.le
    refine ⟨⟨offset, ?_⟩, ⟨b, hb.congr fun n _ hn => hsame n hn⟩,
      ih hrest fun n hn => hsame n (by omega)⟩
    rw [hsame opened (by omega)]
    exact hopen

/-- A block that follows lies inside the innermost open bracket. -/
theorem join (h : Waiting is pending stop) (hb : Linked is stop k b) : Waiting is pending k := by
  cases pending with
  | nil =>
    obtain ⟨c, hc⟩ := h
    exact hc.join hb
  | cons opened rest =>
    obtain ⟨hopen, ⟨c, hc⟩, hrest⟩ := h
    exact ⟨hopen, hc.join hb, hrest⟩

end Waiting

namespace Scan

/-- What has been read is linked except for the open brackets. -/
def Sound (s : Scan) : Prop := Waiting s.done s.pending s.done.size

theorem sound_empty : Sound {} := ⟨.nil, .nil 0⟩

/-- An instruction pushed at the end changes nothing before it. -/
theorem getElem_push (is : Array Instruction) (instruction : Instruction) :
    ∀ n < is.size, (is.push instruction)[n]? = is[n]? := by
  intro n hn
  rw [Array.getElem?_push, if_neg (by omega)]

theorem Sound.act {s : Scan} (h : s.Sound) {kind : Kind} {op : Op} (hop : kind.op? = some op)
    (offset : Nat) : Sound { s with done := s.done.push ⟨kind, offset, none⟩ } := by
  have hlast : (s.done.push ⟨kind, offset, none⟩)[s.done.size]? = some ⟨kind, offset, none⟩ := by
    simp
  have hsame := h.congr (getElem_push s.done ⟨kind, offset, none⟩)
  unfold Sound
  rw [Array.size_push]
  exact hsame.join (.step hlast hop (.nil _))

theorem Sound.opening {s : Scan} (h : s.Sound) (offset : Nat) :
    Sound ⟨s.done.push ⟨.loopOpen, offset, none⟩, s.done.size :: s.pending⟩ := by
  have hlast : (s.done.push ⟨.loopOpen, offset, none⟩)[s.done.size]? =
      some ⟨.loopOpen, offset, none⟩ := by simp
  unfold Sound
  rw [Array.size_push]
  exact ⟨⟨offset, hlast⟩, ⟨.nil, .nil _⟩, h.congr (getElem_push s.done _)⟩

/-- A closing bracket links the innermost open one, and the loop joins what stands before it. -/
theorem Sound.closing {s : Scan} {opened : Nat} {rest : List Nat} (h : s.Sound)
    (hpending : s.pending = opened :: rest) (offset : Nat) :
    (s.close opened rest offset).Sound := by
  unfold Sound at h
  rw [hpending] at h
  obtain ⟨⟨offset', hopen⟩, ⟨b, hb⟩, hrest⟩ := h
  have hlt : opened < s.done.size := hb.le
  have hsize : (s.close opened rest offset).done.size = s.done.size + 1 := by simp [close]
  have hsame : ∀ n < s.done.size, n ≠ opened →
      (s.close opened rest offset).done[n]? = s.done[n]? := by
    intro n hn hne
    simp only [close]
    rw [getElem_push _ _ n (by simpa using hn), Array.getElem?_modify, if_neg (Ne.symm hne)]
  have hopens : (s.close opened rest offset).done[opened]? =
      some ⟨.loopOpen, offset', some s.done.size⟩ := by
    simp only [close]
    rw [getElem_push _ _ opened (by simpa using hlt), Array.getElem?_modify, if_pos rfl, hopen]
    rfl
  have hcloses : (s.close opened rest offset).done[s.done.size]? =
      some ⟨.loopClose, offset, some opened⟩ := by
    simp only [close]
    rw [Array.getElem?_push, if_pos (by simp)]
  have hbody := hb.congr fun n hle hn => hsame n hn (by omega)
  have hbefore := hrest.congr fun n hn => hsame n (by omega) (by omega)
  unfold Sound
  rw [hsize]
  exact hbefore.join (.loop hopens hcloses hbody (.nil _))

theorem Sound.reading {s s' : Scan} {offset : Nat} {b : UInt8} (h : s.Sound)
    (hread : s.Reading offset b s') : s'.Sound := by
  cases hread with
  | comment passes => exact h
  | step acts plain =>
    obtain ⟨op, hop⟩ := Kind.op_of_plain acts plain
    exact h.act hop offset
  | opening opens => exact h.opening offset
  | closing closes waits => exact h.closing waits offset

/-- Instructions are handed out only once no bracket is open. -/
theorem Sound.finish {s : Scan} (h : s.Sound) {is : Array Instruction} (hdone : s.finish = .ok is) :
    ∃ b, Linked is 0 is.size b := by
  unfold Sound at h
  unfold Scan.finish at hdone
  cases hp : s.pending with
  | nil =>
    simp only [hp] at h hdone
    cases hdone
    exact h
  | cons opened rest =>
    rw [hp] at h
    obtain ⟨⟨offset, hopen⟩, -⟩ := h
    simp only [hp, hopen] at hdone
    cases hdone

end Scan

/-- The instructions of a program are linked and read as its block. -/
theorem linked_of_parse {source : Source} {p : Program} (h : parse source = .ok p) :
    Linked p.instructions 0 p.instructions.size p.block := by
  obtain ⟨s, hread, hfinish⟩ := parse_ok h
  have hsound := Scan.readAll_rule (P := fun s _ => s.Sound) (t := [])
    (fun _ _ _ _ => Scan.Sound.reading) Scan.sound_empty hread
  obtain ⟨b, hb⟩ := hsound.finish hfinish
  have hblock : p.block = b := by
    unfold Program.block Block.ofInstructions?
    rw [hb.between]
    rfl
  rw [hblock]
  exact hb

end Program

end TapeLang

import TapeLang.Proofs.Decode

namespace TapeLang.A64

/-- Something asked of the assembler. -/
inductive Directive where
  | emit (i : Instr Label)
  /-- Makes the next label. -/
  | label
  | bind (l : Label)
deriving DecidableEq, Repr

namespace Assembler

def obey (a : Assembler) : Directive → Assembler
  | .emit i => a.emit i
  | .label => a.addLabel
  | .bind l => a.bind l

def obeyAll (a : Assembler) (ds : List Directive) : Assembler := ds.foldl obey a

@[simp] theorem obeyAll_nil (a : Assembler) : a.obeyAll [] = a := rfl

@[simp] theorem obeyAll_cons (a : Assembler) (d : Directive) (ds : List Directive) :
    a.obeyAll (d :: ds) = (a.obey d).obeyAll ds := rfl

theorem obeyAll_append (a : Assembler) (ds es : List Directive) :
    a.obeyAll (ds ++ es) = (a.obeyAll ds).obeyAll es := List.foldl_append

theorem emitAll_eq (a : Assembler) (is : List (Instr Label)) :
    a.emitAll is = a.obeyAll (is.map .emit) := by
  rw [emitAll, obeyAll, List.foldl_map]
  rfl

theorem fault_fail (a : Assembler) (f : Fault) : (a.fail f).fault ≠ none := by
  unfold fail
  split
  · simp
  · rename_i h
    simpa using h

/-- What emitting does to code that stays without a fault. -/
theorem emit_ok {a : Assembler} {i : Instr Label} (h : (a.emit i).fault = none) :
    a.fault = none ∧ i.refusal? = none ∧ i.immediateFault? = none ∧
      (a.emit i).words = a.words.push i.word ∧ (a.emit i).labels = a.labels ∧
      (a.emit i).fixups =
        match i.target? with
        | none => a.fixups
        | some l => a.fixups.push ⟨a.words.size, l, i.field⟩ := by
  unfold emit at h ⊢
  cases hr : i.refusal? with
  | some f =>
    simp only [hr] at h
    exact absurd h (fault_fail a f)
  | none =>
    simp only [hr] at h ⊢
    cases ht : i.target? with
    | none =>
      simp only [ht] at h ⊢
      cases hi : i.immediateFault? with
      | some f =>
        rw [hi] at h
        exact absurd h (fault_fail a f)
      | none =>
        rw [hi] at h
        exact ⟨h, trivial, rfl, rfl, rfl, rfl⟩
    | some l =>
      simp only [ht] at h ⊢
      split at h
      · have hi : i.immediateFault? = none := by cases i <;> first | rfl | cases ht
        rename_i hk
        rw [if_pos hk]
        exact ⟨h, trivial, hi, rfl, rfl, rfl⟩
      · exact absurd h (fault_fail a _)

/-- What binding does to code that stays without a fault. -/
theorem bind_ok {a : Assembler} {l : Label} (h : (a.bind l).fault = none) :
    a.fault = none ∧ a.knows l = true ∧ a.position? l = none ∧
      a.bind l =
        { a with labels := a.labels.setIfInBounds l.toNatClampNeg (some a.words.size) } := by
  unfold bind at h ⊢
  split at h
  · rename_i hk
    split at h
    · exact absurd h (fault_fail a _)
    · rename_i hp
      rw [if_pos hk, if_neg hp]
      exact ⟨h, hk, by simpa using hp, rfl⟩
  · exact absurd h (fault_fail a _)

theorem fault_obey {a : Assembler} {d : Directive} (h : (a.obey d).fault = none) :
    a.fault = none := by
  cases d with
  | emit i => exact (emit_ok h).1
  | label => exact h
  | bind l => exact (bind_ok h).1

theorem fault_obeyAll {a : Assembler} {ds : List Directive} (h : (a.obeyAll ds).fault = none) :
    a.fault = none := by
  induction ds generalizing a with
  | nil => exact h
  | cons d ds ih => exact fault_obey (ih h)

theorem position_some {a : Assembler} {l : Label} {p : Nat} :
    a.position? l = some p ↔ 0 ≤ l ∧ a.labels[l.toNatClampNeg]? = some (some p) := by
  unfold position?
  rw [Array.getD_eq_getD_getElem?]
  split
  · rename_i hl
    cases a.labels[l.toNatClampNeg]? <;> simp [hl]
  · rename_i hl
    simp [hl]

theorem position_bind {a : Assembler} {l : Label} (h : (a.bind l).fault = none) :
    (a.bind l).position? l = some a.words.size := by
  obtain ⟨-, hknows, -, heq⟩ := bind_ok h
  simp only [knows, Bool.and_eq_true, decide_eq_true_eq] at hknows
  rw [heq, position_some]
  exact ⟨hknows.1, by simp [hknows.2]⟩

/-- Code grows: what stands in it stays, and new fixups lie beyond its end. -/
structure Grows (a b : Assembler) : Prop where
  size : a.words.size ≤ b.words.size
  words : ∀ {k : Nat} {w : UInt32}, a.words[k]? = some w → b.words[k]? = some w
  fixups : ∀ {f : Fixup}, f ∈ a.fixups.toList → f ∈ b.fixups.toList
  fresh : ∀ {f : Fixup}, f ∈ b.fixups.toList → f ∈ a.fixups.toList ∨ a.words.size ≤ f.index
  labels : ∀ {l : Label} {p : Nat}, a.position? l = some p → b.position? l = some p

namespace Grows

theorem refl (a : Assembler) : Grows a a where
  size := Nat.le_refl _
  words h := h
  fixups h := h
  fresh h := .inl h
  labels h := h

theorem trans {a b c : Assembler} (h : Grows a b) (h' : Grows b c) : Grows a c where
  size := Nat.le_trans h.size h'.size
  words hw := h'.words (h.words hw)
  fixups hf := h'.fixups (h.fixups hf)
  fresh hf := by
    rcases h'.fresh hf with hf | hf
    · exact h.fresh hf
    · exact .inr (Nat.le_trans h.size hf)
  labels hl := h'.labels (h.labels hl)

theorem emit {a : Assembler} {i : Instr Label} (h : (a.emit i).fault = none) :
    Grows a (a.emit i) := by
  obtain ⟨-, -, -, hwords, hlabels, hfixups⟩ := emit_ok h
  refine ⟨?_, ?_, ?_, ?_, ?_⟩
  · simp [hwords]
  · intro k w hk
    obtain ⟨hlt, -⟩ := Array.getElem?_eq_some_iff.mp hk
    rw [hwords, Array.getElem?_push_lt hlt]
    exact hk ▸ (Array.getElem?_eq_getElem hlt).symm
  · intro f hf
    rw [hfixups]
    cases i.target? with
    | none => exact hf
    | some l => simp [hf]
  · intro f hf
    rw [hfixups] at hf
    cases ht : i.target? with
    | none =>
      rw [ht] at hf
      exact .inl hf
    | some l =>
      simp only [ht, Array.toList_push, List.mem_append, List.mem_singleton] at hf
      rcases hf with hf | rfl
      · exact .inl hf
      · exact .inr (Nat.le_refl _)
  · intro l p hl
    simpa only [position?, hlabels] using hl

theorem bind {a : Assembler} {l : Label} (h : (a.bind l).fault = none) : Grows a (a.bind l) := by
  have hbound := position_bind h
  obtain ⟨-, -, hnone, heq⟩ := bind_ok h
  rw [heq] at hbound ⊢
  refine ⟨Nat.le_refl _, fun h => h, fun h => h, .inl, ?_⟩
  intro l' p hl
  by_cases hsame : l' = l
  · rw [hsame, hnone] at hl
    cases hl
  · obtain ⟨hpos', hat⟩ := position_some.mp hl
    obtain ⟨hpos, -⟩ := position_some.mp hbound
    have hne : l.toNatClampNeg ≠ l'.toNatClampNeg := by
      intro hn
      apply hsame
      rw [Int64.le_iff_toInt_le] at hpos hpos'
      rw [← Int64.toInt_inj]
      simp only [Int64.toNatClampNeg, Int64.toInt_zero] at hn hpos hpos'
      omega
    exact position_some.mpr ⟨hpos', by rw [Array.getElem?_setIfInBounds_ne hne]; exact hat⟩

theorem label (a : Assembler) : Grows a a.addLabel where
  size := Nat.le_refl _
  words h := h
  fixups h := h
  fresh h := .inl h
  labels := by
    intro l p hl
    obtain ⟨hpos, hat⟩ := position_some.mp hl
    obtain ⟨hlt, -⟩ := Array.getElem?_eq_some_iff.mp hat
    refine position_some.mpr ⟨hpos, ?_⟩
    rw [addLabel, Array.getElem?_push_lt hlt]
    exact hat ▸ (Array.getElem?_eq_getElem hlt).symm

theorem obey {a : Assembler} {d : Directive} (h : (a.obey d).fault = none) :
    Grows a (a.obey d) := by
  cases d with
  | emit i => exact Grows.emit h
  | label => exact Grows.label a
  | bind l => exact Grows.bind h

theorem obeyAll {a : Assembler} {ds : List Directive} (h : (a.obeyAll ds).fault = none) :
    Grows a (a.obeyAll ds) := by
  induction ds generalizing a with
  | nil => exact Grows.refl a
  | cons d ds ih => exact (Grows.obey (fault_obeyAll h)).trans (ih h)

end Grows

/-- The fixups stand in the order of their places, all of them within the code. -/
structure Ordered (a : Assembler) : Prop where
  increasing : a.fixups.toList.Pairwise (·.index < ·.index)
  within : ∀ f ∈ a.fixups.toList, f.index < a.words.size

theorem Ordered.obey {a : Assembler} (ha : a.Ordered) {d : Directive}
    (h : (a.obey d).fault = none) : (a.obey d).Ordered := by
  cases d with
  | label => exact ⟨ha.increasing, ha.within⟩
  | bind l =>
    change (a.bind l).Ordered
    rw [(bind_ok h).2.2.2]
    exact ⟨ha.increasing, ha.within⟩
  | emit i =>
    change (a.emit i).Ordered
    obtain ⟨-, -, -, hwords, -, hfixups⟩ := emit_ok h
    have hsize : (a.emit i).words.size = a.words.size + 1 := by simp [hwords]
    cases ht : i.target? with
    | none =>
      simp only [ht] at hfixups
      refine ⟨hfixups ▸ ha.increasing, ?_⟩
      intro f hf
      rw [hsize]
      exact Nat.lt_succ_of_lt (ha.within f (hfixups ▸ hf))
    | some l =>
      simp only [ht] at hfixups
      refine ⟨?_, ?_⟩
      · rw [hfixups, Array.toList_push, List.pairwise_append]
        refine ⟨ha.increasing, List.pairwise_singleton _ _, ?_⟩
        intro f hf g hg
        rw [List.mem_singleton.mp hg]
        exact ha.within f hf
      · intro f hf
        rw [hfixups, Array.toList_push, List.mem_append, List.mem_singleton] at hf
        rw [hsize]
        rcases hf with hf | rfl
        · exact Nat.lt_succ_of_lt (ha.within f hf)
        · exact Nat.lt_succ_self _

theorem Ordered.obeyAll {a : Assembler} (ha : a.Ordered) {ds : List Directive}
    (h : (a.obeyAll ds).fault = none) : (a.obeyAll ds).Ordered := by
  induction ds generalizing a with
  | nil => exact ha
  | cons d ds ih => exact ih (ha.obey (fault_obeyAll h)) h

theorem ordered_empty : ({} : Assembler).Ordered := ⟨.nil, nofun⟩

/-- Filling in displacements changes the words of the fixups, each by its own displacement, and no
other word. -/
theorem patchAll_words {a b : Assembler} {fs : List Fixup} (h : a.patchAll fs = (b, none))
    (hfs : fs.Pairwise (·.index < ·.index)) :
    (∀ k : Nat, (∀ f ∈ fs, f.index ≠ k) → b.words[k]? = a.words[k]?) ∧
      ∀ f ∈ fs, ∃ d, a.displacement f = .ok d ∧
        b.words[f.index]? = a.words[f.index]?.map (· ||| f.field.encode d) := by
  induction fs generalizing a with
  | nil =>
    cases h
    exact ⟨fun _ _ => rfl, nofun⟩
  | cons f fs ih =>
    unfold patchAll at h
    cases hd : a.displacement f with
    | error e =>
      rw [hd] at h
      cases h
    | ok d =>
      rw [hd] at h
      obtain ⟨hfirst, hrest⟩ := List.pairwise_cons.mp hfs
      obtain ⟨hsame, hpatched⟩ := ih h hrest
      have hother : ∀ k, f.index ≠ k → (a.patch f d).words[k]? = a.words[k]? := by
        intro k hk
        rw [patch, Array.getElem?_modify, if_neg hk]
      refine ⟨?_, ?_⟩
      · intro k hk
        rw [hsame k fun g hg => hk g (List.mem_cons_of_mem f hg)]
        exact hother k (hk f List.mem_cons_self)
      · intro g hg
        rcases List.mem_cons.mp hg with rfl | hg
        · refine ⟨d, hd, ?_⟩
          rw [hsame g.index fun g' hg' => (Nat.ne_of_lt (hfirst g' hg')).symm, patch,
            Array.getElem?_modify, if_pos rfl]
        · obtain ⟨d', hd', hword⟩ := hpatched g hg
          refine ⟨d', hd', ?_⟩
          rw [hword, hother g.index (Nat.ne_of_lt (hfirst g hg))]

/-- A displacement leads from the fixup to the label's place, within the reach of the field. -/
theorem displacement_ok {a : Assembler} {f : Fixup} {d : Int} (h : a.displacement f = .ok d) :
    ∃ p, a.position? f.label = some p ∧ d = (p : Int) - f.index ∧ f.field.Reaches d := by
  unfold displacement at h
  cases hp : a.position? f.label with
  | none =>
    rw [hp] at h
    cases h
  | some p =>
    simp only [hp] at h
    split at h
    · cases h
    · rename_i hreach
      cases h
      exact ⟨p, rfl, rfl, by omega, by omega⟩

end Assembler

/-- The word of four bytes, the lowest first. -/
def joinBytes (b₀ b₁ b₂ b₃ : UInt8) : UInt32 :=
  UInt32.ofNat (b₀.toNat + 2 ^ 8 * b₁.toNat + 2 ^ 16 * b₂.toNat + 2 ^ 24 * b₃.toNat)

/-- The word at an index of the code. -/
def fetch (code : Text) (k : Nat) : Option UInt32 :=
  match code.drop (4 * k) with
  | b₀ :: b₁ :: b₂ :: b₃ :: _ => some (joinBytes b₀ b₁ b₂ b₃)
  | _ => none

/-- The instruction at an index of the code. -/
def instrAt (code : Text) : Int → Option (Instr Int)
  | .ofNat k => (fetch code k).bind decode
  | .negSucc _ => none

theorem joinBytes_word (w : UInt32) :
    joinBytes w.toUInt8 (w >>> 8).toUInt8 (w >>> 16).toUInt8 (w >>> 24).toUInt8 = w := by
  have hlt := w.toNat_lt
  rw [← UInt32.toNat_inj, joinBytes, UInt32.toNat_ofNat']
  simp only [UInt32.toNat_toUInt8, UInt32.toNat_shiftRight, Nat.shiftRight_eq_div_pow,
    show (8 : UInt32).toNat % 32 = 8 from rfl, show (16 : UInt32).toNat % 32 = 16 from rfl,
    show (24 : UInt32).toNat % 32 = 24 from rfl]
  omega

/-- Words are fetched back from their bytes. -/
theorem fetch_words (ws : List UInt32) (k : Nat) :
    fetch (ws.flatMap Assembler.wordBytes) k = ws[k]? := by
  induction ws generalizing k with
  | nil => simp [fetch]
  | cons w ws ih =>
    cases k with
    | zero =>
      simp only [fetch, Nat.mul_zero, List.drop_zero, List.flatMap_cons, Assembler.wordBytes,
        List.cons_append, joinBytes_word, List.getElem?_cons_zero]
    | succ k =>
      rw [List.getElem?_cons_succ, ← ih k]
      rfl

/-- The directives stand in the code from an index on, with the labels at the places given. -/
def Holds (code : Text) (place : Label → Int) : List Directive → Nat → Prop
  | [], _ => True
  | .emit i :: rest, k =>
    instrAt code k = some (i.link fun l => place l - k) ∧ Holds code place rest (k + 1)
  | .label :: rest, k => Holds code place rest k
  | .bind l :: rest, k => place l = k ∧ Holds code place rest k

/-- The number of instructions among the directives. -/
def span : List Directive → Nat
  | [] => 0
  | .emit _ :: rest => span rest + 1
  | .label :: rest => span rest
  | .bind _ :: rest => span rest

@[simp] theorem span_append (ds es : List Directive) : span (ds ++ es) = span ds + span es := by
  induction ds with
  | nil => simp [span]
  | cons d ds ih =>
    cases d with
    | emit i =>
      simp only [List.cons_append, span, ih]
      omega
    | label | bind => exact ih

theorem holds_append {code : Text} {place : Label → Int} {ds es : List Directive} {k : Nat} :
    Holds code place (ds ++ es) k ↔
      Holds code place ds k ∧ Holds code place es (k + span ds) := by
  induction ds generalizing k with
  | nil => simp [Holds, span]
  | cons d ds ih =>
    cases d with
    | emit i =>
      have hk : k + 1 + span ds = k + (span ds + 1) := by omega
      simp only [List.cons_append, Holds, ih, span, and_assoc, hk]
    | label => simp only [List.cons_append, Holds, ih, span]
    | bind l => simp only [List.cons_append, Holds, ih, span, and_assoc]

namespace Assembler

/-- Where finished code has its labels. -/
def placeOf (a : Assembler) (l : Label) : Int := ((a.position? l).getD 0 : Nat)

/-- The directives that a growing code obeys stand in it once it is finished. -/
theorem holds_obeyAll {a final done : Assembler} {ds : List Directive}
    (hgrows : Grows (a.obeyAll ds) final) (hfault : (a.obeyAll ds).fault = none)
    (horder : final.Ordered) (ha : a.Ordered)
    (hdone : final.patchAll final.fixups.toList = (done, none))
    (hnum : ∀ i, .emit i ∈ ds → i.Numbered) :
    Holds done.bytes final.placeOf ds a.words.size := by
  induction ds generalizing a with
  | nil => trivial
  | cons d ds ih =>
    have hstep : (a.obey d).fault = none := fault_obeyAll hfault
    have hrest := ih hgrows hfault (ha.obey hstep) fun i hi => hnum i (List.mem_cons_of_mem d hi)
    have hmore : Grows (a.obey d) ((a.obey d).obeyAll ds) := Grows.obeyAll hfault
    have hfinal := hmore.trans hgrows
    cases d with
    | label => exact hrest
    | bind l =>
      have hplace := hfinal.labels (position_bind hstep)
      refine ⟨by rw [placeOf, hplace]; rfl, ?_⟩
      change Holds _ _ ds (a.bind l).words.size at hrest
      rwa [(bind_ok hstep).2.2.2] at hrest
    | emit i =>
      change Grows (a.emit i) final at hfinal
      obtain ⟨-, hr, hi, hwords, -, hfixups⟩ := emit_ok hstep
      obtain ⟨hsame, hpatched⟩ := patchAll_words hdone horder.increasing
      have hsize : (a.emit i).words.size = a.words.size + 1 := by simp [hwords]
      have hword : final.words[a.words.size]? = some i.word := hfinal.words (by simp [hwords])
      have hfetch : instrAt done.bytes a.words.size = done.words[a.words.size]?.bind decode := by
        rw [← Array.getElem?_toList, ← fetch_words]
        rfl
      have hn : i.Numbered := hnum i List.mem_cons_self
      refine ⟨?_, ?_⟩
      · cases ht : i.target? with
        | none =>
          have hfree : ∀ f ∈ final.fixups.toList, f.index ≠ a.words.size := by
            intro f hf
            rcases hfinal.fresh hf with hold | hnew
            · simp only [hfixups, ht] at hold
              exact Nat.ne_of_lt (ha.within f hold)
            · omega
          rw [hfetch, hsame _ hfree, hword]
          exact Instr.decode_word _ ht hn hr hi
        | some l =>
          have hmem : ⟨a.words.size, l, i.field⟩ ∈ final.fixups.toList := by
            apply hfinal.fixups
            simp [hfixups, ht]
          obtain ⟨d, hd, hpatch⟩ := hpatched _ hmem
          obtain ⟨p, hp, rfl, hreach⟩ := displacement_ok hd
          rw [hfetch, hpatch, hword]
          refine Instr.decode_branch _ ?_ ht hn hr hreach
          rw [placeOf, hp]
          rfl
      · change Holds _ _ ds (a.emit i).words.size at hrest
        rwa [hsize] at hrest

/-- What was asked of the assembler stands in the code that it finished. -/
theorem holds_finish {done : Assembler} {ds : List Directive}
    (hdone : (({} : Assembler).obeyAll ds).finish = (done, none))
    (hnum : ∀ i, .emit i ∈ ds → i.Numbered) :
    Holds done.bytes (({} : Assembler).obeyAll ds).placeOf ds 0 := by
  unfold finish at hdone
  cases hfault : (({} : Assembler).obeyAll ds).fault with
  | some f =>
    rw [hfault] at hdone
    cases hdone
  | none =>
    rw [hfault] at hdone
    exact holds_obeyAll (Grows.refl _) hfault (ordered_empty.obeyAll hfault) ordered_empty
      hdone hnum

end Assembler

end TapeLang.A64

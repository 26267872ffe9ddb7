import TapeLang.Proofs.Linking

namespace TapeLang.A64

/-- The instructions asked for, in order. -/
def emitted : List Directive → List (Instr Label)
  | [] => []
  | .emit i :: rest => i :: emitted rest
  | .label :: rest => emitted rest
  | .bind _ :: rest => emitted rest

/-- The place of a label: the number of instructions asked for before it is bound. -/
def boundAt? (l : Label) : List Directive → Option Nat
  | [] => none
  | .emit _ :: rest => (boundAt? l rest).map (· + 1)
  | .label :: rest => boundAt? l rest
  | .bind l' :: rest => if l' = l then some 0 else boundAt? l rest

theorem length_emitted (ds : List Directive) : (emitted ds).length = span ds := by
  induction ds with
  | nil => rfl
  | cons d ds ih => cases d <;> simp [emitted, span, ih]

theorem mem_emitted {ds : List Directive} {i : Instr Label} :
    i ∈ emitted ds ↔ .emit i ∈ ds := by
  induction ds with
  | nil => simp [emitted]
  | cons d ds ih => cases d <;> simp [emitted, ih]

/-- The instructions that stand in the code are those asked for. -/
theorem Holds.instr {code : Text} {place : Label → Int} {ds : List Directive} {n k : Nat}
    {i : Instr Label} (h : Holds code place ds n) (hk : (emitted ds)[k]? = some i) :
    instrAt code (n + k : Nat) = some (i.link fun l => place l - (n + k : Nat)) := by
  induction ds generalizing n k with
  | nil => simp [emitted] at hk
  | cons d ds ih =>
    cases d with
    | label => exact ih h hk
    | bind l => exact ih h.2 hk
    | emit j =>
      obtain ⟨hhead, hrest⟩ := h
      cases k with
      | zero =>
        obtain rfl : j = i := Option.some.inj hk
        exact hhead
      | succ k =>
        have hnext := ih hrest hk
        rwa [show n + 1 + k = n + (k + 1) by omega] at hnext

namespace Assembler

theorem size_obeyAll {a : Assembler} {ds : List Directive} (h : (a.obeyAll ds).fault = none) :
    (a.obeyAll ds).words.size = a.words.size + span ds := by
  induction ds generalizing a with
  | nil => rfl
  | cons d ds ih =>
    have hd : (a.obey d).fault = none := fault_obeyAll h
    rw [obeyAll_cons, ih h]
    cases d with
    | label => rfl
    | bind l =>
      change (a.bind l).words.size + span ds = a.words.size + span ds
      rw [(bind_ok hd).2.2.2]
    | emit i =>
      obtain ⟨-, -, -, hwords, -, -⟩ := emit_ok hd
      change (a.emit i).words.size + span ds = a.words.size + (span ds + 1)
      rw [hwords, Array.size_push]
      omega

theorem position_addLabel (a : Assembler) (l : Label) :
    a.addLabel.position? l = a.position? l := by
  unfold position? addLabel
  split
  · rw [Array.getD_eq_getD_getElem?, Array.getD_eq_getD_getElem?, Array.getElem?_push]
    split
    · rename_i hlast
      rw [hlast, Array.getElem?_eq_none (Nat.le_refl _)]
      rfl
    · rfl
  · rfl

theorem position_bind_ne {a : Assembler} {l l' : Label} (h : (a.bind l).fault = none)
    (hne : l ≠ l') : (a.bind l).position? l' = a.position? l' := by
  obtain ⟨-, hknows, -, heq⟩ := bind_ok h
  simp only [knows, Bool.and_eq_true, decide_eq_true_eq, Int64.le_iff_toInt_le,
    Int64.toInt_zero] at hknows
  rw [heq]
  unfold position?
  split
  · rename_i hpos
    rw [Int64.le_iff_toInt_le, Int64.toInt_zero] at hpos
    have hplace : l.toNatClampNeg ≠ l'.toNatClampNeg := by
      intro hsame
      apply hne
      rw [← Int64.toInt_inj]
      simp only [Int64.toNatClampNeg] at hsame
      omega
    rw [Array.getD_eq_getD_getElem?, Array.getD_eq_getD_getElem?,
      Array.getElem?_setIfInBounds_ne hplace]
  · rfl

/-- A label lies where it did, or else where the directives bind it. -/
theorem position_obeyAll {a : Assembler} {ds : List Directive} (l : Label)
    (h : (a.obeyAll ds).fault = none) :
    (a.obeyAll ds).position? l =
      (a.position? l).or ((boundAt? l ds).map (a.words.size + ·)) := by
  induction ds generalizing a with
  | nil => simp [boundAt?]
  | cons d ds ih =>
    have hd : (a.obey d).fault = none := fault_obeyAll h
    rw [obeyAll_cons, ih h]
    cases d with
    | label =>
      change (a.addLabel.position? l).or _ = _
      rw [position_addLabel]
      rfl
    | emit i =>
      obtain ⟨-, -, -, hwords, hlabels, -⟩ := emit_ok hd
      have hsame : (a.emit i).position? l = a.position? l := by simp only [position?, hlabels]
      change ((a.emit i).position? l).or ((boundAt? l ds).map ((a.emit i).words.size + ·)) = _
      rw [hsame, hwords, boundAt?, Option.map_map, Array.size_push]
      congr 2
      funext p
      simp only [Function.comp_apply]
      omega
    | bind l' =>
      change ((a.bind l').position? l).or ((boundAt? l ds).map ((a.bind l').words.size + ·)) = _
      rw [boundAt?]
      by_cases hl : l' = l
      · subst hl
        rw [position_bind hd, (bind_ok hd).2.2.1, if_pos rfl]
        rfl
      · rw [position_bind_ne hd hl, if_neg hl, (bind_ok hd).2.2.2]

/-- The places of labels in code that starts from nothing. -/
theorem position_boundAt {ds : List Directive} (l : Label)
    (h : (({} : Assembler).obeyAll ds).fault = none) :
    (({} : Assembler).obeyAll ds).position? l = boundAt? l ds := by
  have hstart : ({} : Assembler).position? l = none := by
    unfold position?
    split <;> rfl
  rw [position_obeyAll l h, hstart, Option.none_or]
  simp

end Assembler

/-- The fixups of instructions that stand in the code from an index on. -/
def fixupsFrom (n : Nat) : List (Instr Label) → List Fixup
  | [] => []
  | i :: rest =>
    match i.target? with
    | none => fixupsFrom (n + 1) rest
    | some l => ⟨n, l, i.field⟩ :: fixupsFrom (n + 1) rest

theorem mem_fixupsFrom {is : List (Instr Label)} {n : Nat} {f : Fixup} :
    f ∈ fixupsFrom n is ↔
      ∃ k i l, is[k]? = some i ∧ i.target? = some l ∧ f = ⟨n + k, l, i.field⟩ := by
  induction is generalizing n with
  | nil => simp [fixupsFrom]
  | cons j is ih =>
    have hrest : f ∈ fixupsFrom (n + 1) is ↔ ∃ k i l, (j :: is)[k + 1]? = some i ∧
        i.target? = some l ∧ f = ⟨n + (k + 1), l, i.field⟩ := by
      simp only [ih, List.getElem?_cons_succ, Nat.add_assoc, Nat.add_comm 1]
    unfold fixupsFrom
    constructor
    · intro hf
      cases ht : j.target? with
      | none =>
        rw [ht] at hf
        obtain ⟨k, hk⟩ := hrest.mp hf
        exact ⟨k + 1, hk⟩
      | some l =>
        simp only [ht, List.mem_cons] at hf
        rcases hf with rfl | hf
        · exact ⟨0, j, l, rfl, ht, rfl⟩
        · obtain ⟨k, hk⟩ := hrest.mp hf
          exact ⟨k + 1, hk⟩
    · rintro ⟨k, i, l, hk, ht, rfl⟩
      cases k with
      | zero =>
        obtain rfl : j = i := Option.some.inj hk
        simp [ht]
      | succ k =>
        have hf := hrest.mpr ⟨k, i, l, hk, ht, rfl⟩
        cases hj : j.target? with
        | none => exact hf
        | some l' => exact List.mem_cons_of_mem _ hf

namespace Assembler

theorem fixups_obeyAll {a : Assembler} {ds : List Directive} (h : (a.obeyAll ds).fault = none) :
    (a.obeyAll ds).fixups.toList = a.fixups.toList ++ fixupsFrom a.words.size (emitted ds) := by
  induction ds generalizing a with
  | nil => simp [emitted, fixupsFrom]
  | cons d ds ih =>
    have hd : (a.obey d).fault = none := fault_obeyAll h
    rw [obeyAll_cons, ih h]
    cases d with
    | label => rfl
    | bind l =>
      change (a.bind l).fixups.toList ++ fixupsFrom (a.bind l).words.size (emitted ds) = _
      rw [(bind_ok hd).2.2.2]
      rfl
    | emit i =>
      obtain ⟨-, -, -, hwords, -, hfixups⟩ := emit_ok hd
      change (a.emit i).fixups.toList ++ fixupsFrom (a.emit i).words.size (emitted ds) =
        a.fixups.toList ++ fixupsFrom a.words.size (i :: emitted ds)
      rw [hfixups, hwords, Array.size_push, fixupsFrom]
      cases i.target? <;> simp

theorem displacement_eq {a : Assembler} {f : Fixup} {p : Nat} (hp : a.position? f.label = some p)
    (hreach : f.field.Reaches (p - f.index)) : a.displacement f = .ok (p - f.index) := by
  obtain ⟨hlow, hhigh⟩ := hreach
  unfold displacement
  simp only [hp]
  rw [if_neg (by omega)]

/-- Displacements are filled in if all of them can be. -/
theorem patchAll_ok {a : Assembler} {fs : List Fixup}
    (h : ∀ f ∈ fs, ∃ d, a.displacement f = .ok d) : ∃ done, a.patchAll fs = (done, none) := by
  induction fs generalizing a with
  | nil => exact ⟨a, rfl⟩
  | cons f fs ih =>
    obtain ⟨d, hd⟩ := h f List.mem_cons_self
    unfold patchAll
    rw [hd]
    exact ih fun g hg => h g (List.mem_cons_of_mem f hg)

end Assembler

/-- An instruction at an index leads nowhere, or to a label that is bound within its reach. -/
def Leads (ds : List Directive) (k : Nat) (i : Instr Label) : Prop :=
  ∀ l, i.target? = some l → ∃ p : Nat, boundAt? l ds = some p ∧ i.field.Reaches (p - k)

namespace Assembler

/-- Code is finished if no request failed and every branch leads to its label. -/
theorem finish_ok {ds : List Directive} (hfault : (({} : Assembler).obeyAll ds).fault = none)
    (hleads : ∀ (k : Nat) (i : Instr Label), (emitted ds)[k]? = some i → Leads ds k i) :
    ∃ done, (({} : Assembler).obeyAll ds).finish = (done, none) := by
  unfold finish
  rw [hfault]
  refine patchAll_ok fun f hf => ?_
  rw [fixups_obeyAll hfault, List.mem_append] at hf
  obtain ⟨k, i, l, hk, ht, rfl⟩ := mem_fixupsFrom.mp (hf.resolve_left nofun)
  obtain ⟨p, hp, hd⟩ := hleads k i hk l ht
  refine ⟨_, displacement_eq (p := p) ((position_boundAt l hfault).trans hp) ?_⟩
  simpa using hd

/-- In finished code every branch leads to its label. -/
theorem leads_of_finish {ds : List Directive} {done : Assembler}
    (hdone : (({} : Assembler).obeyAll ds).finish = (done, none)) :
    (({} : Assembler).obeyAll ds).fault = none ∧
      ∀ (k : Nat) (i : Instr Label), (emitted ds)[k]? = some i → Leads ds k i := by
  unfold finish at hdone
  cases hfault : (({} : Assembler).obeyAll ds).fault with
  | some f =>
    rw [hfault] at hdone
    cases hdone
  | none =>
    rw [hfault] at hdone
    refine ⟨rfl, fun k i hk l ht => ?_⟩
    have hmem : ⟨k, l, i.field⟩ ∈ (({} : Assembler).obeyAll ds).fixups.toList := by
      rw [fixups_obeyAll hfault, List.mem_append]
      exact .inr (mem_fixupsFrom.mpr ⟨k, i, l, hk, ht, by simp⟩)
    obtain ⟨-, hpatched⟩ :=
      patchAll_words hdone (ordered_empty.obeyAll hfault).increasing
    obtain ⟨d, hd, -⟩ := hpatched _ hmem
    obtain ⟨p, hp, rfl, hreach⟩ := displacement_ok hd
    exact ⟨p, (position_boundAt l hfault).symm.trans hp, hreach⟩

theorem size_patchAll {a b : Assembler} {fs : List Fixup} {fault : Option Fault}
    (h : a.patchAll fs = (b, fault)) : b.words.size = a.words.size := by
  induction fs generalizing a with
  | nil =>
    cases h
    rfl
  | cons f fs ih =>
    unfold patchAll at h
    cases hd : a.displacement f with
    | error e =>
      rw [hd] at h
      cases h
      rfl
    | ok d =>
      rw [hd] at h
      rw [ih h, patch, Array.size_modify]

theorem length_bytes (a : Assembler) : a.bytes.length = 4 * a.words.size := by
  have h : ∀ ws : List UInt32, (ws.flatMap wordBytes).length = 4 * ws.length := by
    intro ws
    induction ws with
    | nil => rfl
    | cons w ws ih =>
      rw [List.flatMap_cons, List.length_append, ih, List.length_cons, wordBytes]
      simp only [List.length_cons, List.length_nil]
      omega
  rw [bytes, h, Array.length_toList]

/-- Finished code has one word for each instruction. -/
theorem length_finish {ds : List Directive} {done : Assembler}
    (hdone : (({} : Assembler).obeyAll ds).finish = (done, none)) :
    done.bytes.length = 4 * (emitted ds).length := by
  obtain ⟨hfault, -⟩ := leads_of_finish hdone
  unfold finish at hdone
  rw [hfault] at hdone
  rw [length_bytes, size_patchAll hdone, size_obeyAll hfault, length_emitted]
  simp

/-- Whatever was asked of the assembler, with registers and conditions that exist: if the code can
be finished, it has one word for each instruction; and the word, read by the fields of the
architecture, is that instruction, where a branch leads to the place at which its label was
bound. -/
theorem finish_round_trip (ds : List Directive) (done : Assembler)
    (hnum : ∀ i ∈ emitted ds, i.Numbered)
    (hdone : (({} : Assembler).obeyAll ds).finish = (done, none)) :
    done.bytes.length = 4 * (emitted ds).length ∧
      ∀ (k : Nat) (i : Instr Label), (emitted ds)[k]? = some i →
        ∃ displacement : Label → Int,
          (fetch done.bytes k).bind decode = some (i.link displacement) ∧
          ∀ l, i.target? = some l →
            ∃ p : Nat, boundAt? l ds = some p ∧ (k : Int) + displacement l = p := by
  obtain ⟨hfault, hleads⟩ := leads_of_finish hdone
  have hholds := holds_finish hdone fun i hi => hnum i (mem_emitted.mpr hi)
  refine ⟨length_finish hdone, fun k i hk => ?_⟩
  have hinstr := hholds.instr hk
  rw [Nat.zero_add] at hinstr
  refine ⟨_, hinstr, fun l hl => ?_⟩
  obtain ⟨p, hp, -⟩ := hleads k i hk l hl
  refine ⟨p, hp, ?_⟩
  rw [placeOf, position_boundAt l hfault, hp, Option.getD_some]
  omega

/-- A loop with branches of three kinds, forward and backward. -/
def looping : List Directive :=
  [ .label, .label, .bind 0, .emit (.loadByte 0 19 4095), .emit (.branchIfZero 0 1),
    .emit (.pair true .postIndex 29 30 31 (-512)), .emit (.branchIfBit 0 31 1),
    .emit (.branch 0), .bind 1, .emit .ret ]

theorem finish_round_trip_looping :
    ∃ done, (({} : Assembler).obeyAll looping).finish = (done, none) ∧
      (∀ i ∈ emitted looping, i.Numbered) ∧ done.bytes.length = 24 ∧
      (fetch done.bytes 2).bind decode = some (.pair true .postIndex 29 30 31 (-512)) ∧
      ∃ displacement : Label → Int,
        (fetch done.bytes 4).bind decode = some (.branch (displacement 0)) ∧
          (4 : Int) + displacement 0 = 0 := by
  have hnum : ∀ i ∈ emitted looping, i.Numbered := by
    simp +decide [looping, emitted, Instr.Numbered]
  have hdone : (({} : Assembler).obeyAll looping).finish =
      ((({} : Assembler).obeyAll looping).finish.1, none) := Prod.ext rfl (by decide)
  obtain ⟨hlength, hinstr⟩ := finish_round_trip looping _ hnum hdone
  obtain ⟨_, hpair, -⟩ := hinstr 2 _ rfl
  obtain ⟨displacement, hbranch, hplace⟩ := hinstr 4 _ rfl
  obtain ⟨p, hp, hsum⟩ := hplace 0 rfl
  obtain rfl : 0 = p := Option.some.inj hp
  exact ⟨_, hdone, hnum, hlength, hpair, displacement, hbranch, hsum⟩

end Assembler

end TapeLang.A64

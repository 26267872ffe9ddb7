import TapeLang.Proofs.Capacity

namespace TapeLang.Native

open A64 Layout

/-- No label is bound twice, and every label made is bound, apart from that of a trap to which no
branch leads; and each branch leads to a label that is bound within its reach. -/
structure Resolved (ds : List Directive) : Prop where
  once : (binds ds).Nodup
  bound : ∀ n < labelsIn ds,
    label n ∈ binds ds ∨ label n = Generator.trapLabel ∧ Generator.trapLabel ∉ targets ds
  leads : ∀ (k : Nat) (i : Instr Label), (emitted ds)[k]? = some i → Leads ds k i

section
variable {o : Options} {b : Block} {code : Code}

theorem bound_script (hlabels : labelsIn (script o b) ≤ 2 ^ 63) {n : Nat}
    (hn : n < labelsIn (script o b)) :
    label n ∈ binds (script o b) ∨
      label n = Generator.trapLabel ∧ Generator.trapLabel ∉ targets (script o b) := by
  have hclosed := closed_script o b Generator.trapLabel
  rw [labelsIn_script] at hlabels hn
  have hblock {l : Label} : l ∈ binds (blockCode o 2 b) ↔
      ∃ m, 2 ≤ m ∧ m < 2 + labelsIn (blockCode o 2 b) ∧ l = label m :=
    (tidy_block o b).bound.mem_iff.trans mem_labelsFrom
  simp only [binds_script, List.mem_append, List.mem_cons, hblock] at hclosed ⊢
  match n with
  | 0 => exact .inl (.inr (.inl rfl))
  | 1 =>
    by_cases hchecks : checksIn o b = 0
    · refine .inr ⟨rfl, fun htarget => ?_⟩
      rw [trapIf, if_pos hchecks] at hclosed
      rcases hclosed htarget with ⟨m, hlow, hhigh, heq⟩ | hexit | hnone
      · have hm : 1 = m := label_inj (by omega) (by omega) heq
        omega
      · cases hexit
      · cases hnone
    · rw [trapIf, if_neg hchecks]
      exact .inl (.inr (.inr List.mem_cons_self))
  | n + 2 => exact .inl (.inl ⟨n + 2, by omega, by omega, rfl⟩)

/-- A block that has code is accepted. -/
theorem accepted_of_generate (h : generate b o = .ok code) : b.Accepted o.boundsCheck := by
  obtain ⟨hknown, done, hdone, -⟩ := generate_finish h
  obtain ⟨hfault, -⟩ := Assembler.leads_of_finish hdone
  exact (encodes_script (o.adapt b) hknown).mp (Assembler.encodable_of_fault hfault)

theorem resolved_of_generate (h : generate b o = .ok code) (hcount : 4 * b.count + 2 ≤ 2 ^ 63) :
    Resolved (script (o.adapt b) b) := by
  obtain ⟨-, done, hdone, -⟩ := generate_finish h
  have hlabels : labelsIn (script (o.adapt b) b) ≤ 2 ^ 63 := labelsIn_script_le hcount
  exact ⟨nodup_script _ hlabels, fun n hn => bound_script hlabels hn,
    (Assembler.leads_of_finish hdone).2⟩

theorem length_generate (h : generate b o = .ok code) :
    code.bytes.length = 4 * (emitted (script (o.adapt b) b)).length ∧
      (emitted (script (o.adapt b) b)).length ≤ 12 * b.count + 64 := by
  obtain ⟨-, done, hdone, hbytes⟩ := generate_finish h
  have hspan := span_script (o.adapt b) b
  rw [hbytes, Assembler.length_finish hdone, length_emitted]
  exact ⟨rfl, by omega⟩

end

/-- The generator fails on a block of bounded size exactly when the block has an unknown step, or a
move, delta or offset outside of [-4095, 4095] that it needs. Any other block gets code, of at most
twelve words for each entry and sixty-four more; the code is what was laid out for the block, with
near or far branches, and there all labels and branches are resolved. -/
theorem generate_exact (b : Block) (o : Options) (hsize : 12 * b.count + 64 ≤ 2 ^ 25) :
    ((∃ e, generate b o = .error e) ↔ ¬ b.Accepted o.boundsCheck) ∧
    (b.Accepted o.boundsCheck → ∃ code, generate b o = .ok code ∧
      code.bytes.length = 4 * (emitted (script (o.adapt b) b)).length ∧
      (emitted (script (o.adapt b) b)).length ≤ 12 * b.count + 64 ∧
      Resolved (script (o.adapt b) b) ∧
      ∃ place, Holds code.bytes place (script (o.adapt b) b) 0) := by
  have hok (haccepted : b.Accepted o.boundsCheck) : ∃ code, generate b o = .ok code :=
    (generate_ok_iff haccepted (by omega)).mpr (withinReach_of_count hsize)
  refine ⟨⟨?_, ?_⟩, fun haccepted => ?_⟩
  · rintro ⟨e, he⟩ haccepted
    obtain ⟨code, hcode⟩ := hok haccepted
    rw [he] at hcode
    cases hcode
  · intro hrejected
    cases hcode : generate b o with
    | error e => exact ⟨e, rfl⟩
    | ok code => exact absurd (accepted_of_generate hcode) hrejected
  · obtain ⟨code, hcode⟩ := hok haccepted
    obtain ⟨hlength, hwords⟩ := length_generate hcode
    exact ⟨code, hcode, hlength, hwords, resolved_of_generate hcode (by omega),
      (generate_holds hcode).2⟩

/-- Adds nothing to a cell far ahead, and reads at the far end of what an instruction reaches. -/
def farAhead : Block := .step (.add 0 9000) (.loop (.step (.get (-4095)) .nil) .nil)

theorem generate_exact_farAhead :
    12 * farAhead.count + 64 ≤ 2 ^ 25 ∧
    (∃ code, generate farAhead { boundsCheck := false } = .ok code ∧
      Resolved (script (Options.adapt { boundsCheck := false } farAhead) farAhead)) ∧
    ∃ e, generate farAhead { boundsCheck := true } = .error e := by
  have hsize : 12 * farAhead.count + 64 ≤ 2 ^ 25 := by decide
  have haccepted : farAhead.Accepted false := by
    simp [farAhead, Block.Accepted, Op.Accepted, Carried]
  have hrejected : ¬ farAhead.Accepted true := by
    simp [farAhead, Block.Accepted, Op.Accepted, Carried]
  obtain ⟨code, hcode, -, -, hresolved, -⟩ :=
    (generate_exact farAhead { boundsCheck := false } hsize).2 haccepted
  exact ⟨hsize, ⟨code, hcode, hresolved⟩,
    (generate_exact farAhead { boundsCheck := true } hsize).1.mpr hrejected⟩

end TapeLang.Native

import TapeLang.Proofs.Brackets
import TapeLang.Proofs.Links

namespace TapeLang

open Brackets

namespace Brackets

/-- No first part of the text has more than `d` brackets open, and one has as many. -/
structure Deepest (t : Text) (d : Nat) : Prop where
  bound : ∀ n, (t.take n).count opening ≤ (t.take n).count closing + d
  reached : ∃ n, (t.take n).count opening = (t.take n).count closing + d

theorem deepest_nil : Deepest [] 0 := ⟨fun n => by simp, 0, rfl⟩

theorem Deepest.comment {b : UInt8} {t : Text} {d : Nat} (h : Deepest t d) (hopen : b ≠ opening)
    (hclose : b ≠ closing) : Deepest (b :: t) d := by
  constructor
  · intro n
    cases n with
    | zero => simp
    | succ n =>
      obtain ⟨ho, hc⟩ := count_comment hopen hclose (t.take n)
      rw [List.take_succ_cons, ho, hc]
      exact h.bound n
  · obtain ⟨n, hn⟩ := h.reached
    obtain ⟨ho, hc⟩ := count_comment hopen hclose (t.take n)
    exact ⟨n + 1, by rw [List.take_succ_cons, ho, hc, hn]⟩

/-- The brackets in a first part of a loop that ends inside its body. -/
theorem count_inside (body rest : Text) {n : Nat} (hn : n ≤ body.length) :
    ((opening :: (body ++ closing :: rest)).take (n + 1)).count opening =
        (body.take n).count opening + 1 ∧
      ((opening :: (body ++ closing :: rest)).take (n + 1)).count closing =
        (body.take n).count closing := by
  rw [List.take_succ_cons, List.take_append_of_le_length hn]
  exact count_opening _

/-- The brackets in a first part that ends behind the loop. -/
theorem count_behind {body : Text} (hbody : Nested body) (rest : Text) (n : Nat) :
    ((opening :: (body ++ closing :: rest)).take (body.length + n + 2)).count opening =
        body.count closing + 1 + (rest.take n).count opening ∧
      ((opening :: (body ++ closing :: rest)).take (body.length + n + 2)).count closing =
        body.count closing + 1 + (rest.take n).count closing := by
  have hcut : (body ++ closing :: rest).take (body.length + n + 1) =
      body ++ closing :: rest.take n := by
    rw [Nat.add_assoc, List.take_length_add_append, List.take_succ_cons]
  obtain ⟨ho, hc⟩ := count_opening (body ++ closing :: rest.take n)
  obtain ⟨ho', hc'⟩ := count_closing (rest.take n)
  rw [List.take_succ_cons, hcut, ho, hc, List.count_append, List.count_append, ho', hc',
    hbody.count_eq]
  omega

theorem Deepest.loop {body rest : Text} {d e : Nat} (hnested : Nested body) (hbody : Deepest body d)
    (hrest : Deepest rest e) : Deepest (opening :: (body ++ closing :: rest)) (max (d + 1) e) := by
  constructor
  · intro n
    -- the cut is before the loop, inside its body, or behind it
    cases n with
    | zero => simp
    | succ n =>
      by_cases hn : n ≤ body.length
      · obtain ⟨ho, hc⟩ := count_inside body rest hn
        have hle := hbody.bound n
        rw [ho, hc]
        omega
      · obtain ⟨m, rfl⟩ : ∃ m, n = body.length + m + 1 := ⟨n - body.length - 1, by omega⟩
        obtain ⟨ho, hc⟩ := count_behind hnested rest m
        have hle := hrest.bound m
        rw [ho, hc]
        omega
  · rcases Nat.le_total e (d + 1) with hle | hle
    · obtain ⟨n, hn⟩ := hbody.reached
      -- past the body a first part of it stays the same
      have hcut : body.take (min n body.length) = body.take n := by simp
      obtain ⟨ho, hc⟩ := count_inside body rest (Nat.min_le_right n body.length)
      refine ⟨min n body.length + 1, ?_⟩
      rw [ho, hc, hcut]
      omega
    · obtain ⟨n, hn⟩ := hrest.reached
      obtain ⟨ho, hc⟩ := count_behind hnested rest n
      refine ⟨body.length + n + 2, ?_⟩
      rw [ho, hc]
      omega

/-- Bytes that are no brackets may be put in anywhere. -/
theorem Deepest.of_filter {q : UInt8 → Bool} {t : Text} {d : Nat} (hopen : q opening = true)
    (hclose : q closing = true) (h : Deepest (t.filter q) d) : Deepest t d := by
  constructor
  · intro n
    have hsplit : t.filter q = (t.take n).filter q ++ (t.drop n).filter q := by
      rw [← List.filter_append, List.take_append_drop]
    have hle := h.bound ((t.take n).filter q).length
    rwa [hsplit, List.take_left, List.count_filter hopen, List.count_filter hclose] at hle
  · obtain ⟨n, hn⟩ := h.reached
    have hsplit := (List.take_append_drop n (t.filter q)).symm
    obtain ⟨u, v, rfl, hu, -⟩ := List.filter_eq_append_iff.mp hsplit
    rw [← hu, List.count_filter hopen, List.count_filter hclose] at hn
    exact ⟨u.length, by rwa [List.take_left]⟩

end Brackets

/-- The letter of an instruction that does just this step. -/
def Op.letter? : Op → Option UInt8
  | move delta =>
    if delta = 1 then some (Kind.byte .moveRight)
    else if delta = -1 then some (Kind.byte .moveLeft)
    else none
  | add delta offset =>
    if offset ≠ 0 then none
    else if delta = 1 then some (Kind.byte .increment)
    else if delta = -1 then some (Kind.byte .decrement)
    else none
  | put offset => if offset = 0 then some (Kind.byte .output) else none
  | get offset => if offset = 0 then some (Kind.byte .input) else none
  | clear _ => none
  | unknown => none

theorem Op.letter_plain {op : Op} {b : UInt8} (h : op.letter? = some b) :
    b ≠ opening ∧ b ≠ closing := by
  cases op with
  | clear _ | unknown => cases h
  | move _ | add _ _ | put _ | get _ =>
    unfold letter? at h
    repeat' split at h
    all_goals cases h
    all_goals decide

theorem Kind.letter_op {kind : Kind} {op : Op} (h : kind.op? = some op) :
    op.letter? = some kind.byte := by
  cases kind with
  | loopOpen | loopClose | other => cases h
  | moveLeft | moveRight | increment | decrement | output | input =>
    cases h
    decide

namespace Block

/-- The block as a source without comments; none if a step is not that of one instruction. -/
def written? : Block → Option Text
  | nil => some []
  | step op rest =>
    match op.letter?, rest.written? with
    | some b, some t => some (b :: t)
    | _, _ => none
  | loop body rest =>
    match body.written?, rest.written? with
    | some t, some u => some (opening :: (t ++ closing :: u))
    | _, _ => none

/-- What a text tells of the block that it is written for: every letter but the closing brackets is
an entry, and the brackets are nested as deep as the loops. -/
structure Measured (t : Text) (b : Block) : Prop where
  nested : Nested t
  count : b.count + t.count closing = t.length
  deepest : Deepest t b.depth

theorem Measured.step {t : Text} {rest : Block} (h : Measured t rest) {letter : UInt8}
    (hopen : letter ≠ opening) (hclose : letter ≠ closing) (op : Op) :
    Measured (letter :: t) (step op rest) where
  nested := .comment hopen hclose h.nested
  count := by
    have hrest := h.count
    rw [Block.count, (count_comment hopen hclose t).2, List.length_cons]
    omega
  deepest := h.deepest.comment hopen hclose

theorem Measured.loop {t u : Text} {body rest : Block} (hbody : Measured t body)
    (hrest : Measured u rest) : Measured (opening :: (t ++ closing :: u)) (loop body rest) where
  nested := .loop hbody.nested hrest.nested
  count := by
    have hinside := hbody.count
    have hbehind := hrest.count
    rw [Block.count, (count_opening _).2, List.count_append, (count_closing u).2, List.length_cons,
      List.length_append, List.length_cons]
    omega
  deepest := hbody.deepest.loop hbody.nested hrest.deepest

theorem measured_written {b : Block} {t : Text} (h : b.written? = some t) : Measured t b := by
  induction b generalizing t with
  | nil =>
    cases h
    exact ⟨.nil, rfl, deepest_nil⟩
  | step op rest ih =>
    unfold written? at h
    split at h
    · rename_i letter u hletter hrest
      cases h
      obtain ⟨hopen, hclose⟩ := Op.letter_plain hletter
      exact (ih hrest).step hopen hclose op
    · cases h
  | loop body rest ihBody ihRest =>
    unfold written? at h
    split at h
    · rename_i u v hbody hrest
      cases h
      exact (ihBody hbody).loop (ihRest hrest)
    · cases h

end Block

/-- The instructions from one index up to another, as letters. -/
def spelled (is : Array Instruction) (i stop : Nat) : Text :=
  (is.extract i stop).toList.map fun x => x.kind.byte

section spelled

variable {is : Array Instruction} {i j stop : Nat}

theorem spelled_nil (i : Nat) : spelled is i i = [] := by
  simp [spelled]

theorem spelled_append (hij : i ≤ j) (hjs : j ≤ stop) :
    spelled is i j ++ spelled is j stop = spelled is i stop := by
  unfold spelled
  rw [← List.map_append, ← Array.toList_append, Array.extract_append_extract,
    Nat.min_eq_left hij, Nat.max_eq_right hjs]

theorem spelled_cons {x : Instruction} (hx : is[i]? = some x) (hlt : i < stop) :
    spelled is i stop = x.kind.byte :: spelled is (i + 1) stop := by
  obtain ⟨hi, rfl⟩ := Array.getElem?_eq_some_iff.mp hx
  have hone : spelled is i (i + 1) = [is[i].kind.byte] := by
    unfold spelled
    rw [Array.toList_extract, List.extract_eq_take_drop,
      List.drop_eq_getElem_cons (by simpa using hi), Nat.add_sub_cancel_left]
    rfl
  rw [← spelled_append (Nat.le_succ i) hlt, hone]
  rfl

end spelled

/-- The block that instructions read as is written with their letters. -/
theorem Linked.written {is : Array Instruction} {i stop : Nat} {b : Block}
    (h : Linked is i stop b) : b.written? = some (spelled is i stop) := by
  induction h with
  | nil i => rw [Block.written?, spelled_nil]
  | step found acts next ih =>
    have hle := next.le
    rw [Block.written?, ih, Kind.letter_op acts, spelled_cons found (by omega)]
  | @loop i j stop _ _ _ _ opens closes inside next ihInside ihNext =>
    have hle := inside.le
    have hle' := next.le
    have hspan : spelled is i stop =
        opening :: (spelled is (i + 1) j ++ closing :: spelled is (j + 1) stop) := by
      rw [spelled_cons opens (by omega), ← spelled_append hle (show j ≤ stop by omega),
        spelled_cons closes (by omega)]
      rfl
    rw [Block.written?, ihInside, ihNext, hspan]

namespace Program

/-- The letters of a text alone are what is left when the other bytes are taken away. -/
theorem bytes_sites (t : Text) :
    (Kind.sites t).map (fun s => s.1.byte) = t.filter Kind.isLetter := by
  have hletter : ∀ x ∈ t.zipIdx.filter (fun x => Kind.isLetter x.1),
      (Kind.ofByte x.1).byte = x.1 := by
    intro x hx
    have hacts := (Kind.isInstruction_ofByte x.1).trans (List.mem_filter.mp hx).2
    exact (Kind.byte_of_ofByte rfl hacts).symm
  calc (Kind.sites t).map (fun s => s.1.byte)
    _ = (t.zipIdx.filter fun x => Kind.isLetter x.1).map fun x => (Kind.ofByte x.1).byte := by
          simp [Kind.sites]
    _ = (t.zipIdx.filter fun x => Kind.isLetter x.1).map Prod.fst := List.map_congr_left hletter
    _ = (t.zipIdx.map Prod.fst).filter Kind.isLetter := by
          rw [List.filter_map]
          rfl
    _ = t.filter Kind.isLetter := by rw [List.zipIdx_map_fst]

theorem spelled_parse {source : Source} {p : Program} (h : parse source = .ok p) :
    spelled p.instructions 0 p.instructions.size = source.bytes.filter Kind.isLetter := by
  rw [← bytes_sites, ← sites_parse h, List.map_map]
  simp [spelled, Function.comp_def, Instruction.site]

/-- The block of a program is found, and written as the source without its comments. So its entries
are the instructions but for the closing brackets, and its loops are nested as deep as the brackets
of the source. -/
theorem block_spells_source {source : Source} {p : Program} (h : parse source = .ok p) :
    Block.ofInstructions? p.instructions = some p.block ∧
      p.block.written? = some (source.bytes.filter Kind.isLetter) ∧
      p.block.count + source.bytes.count closing = p.instructions.size ∧
      Deepest source.bytes p.block.depth := by
  have hlinked := linked_of_parse h
  have hwritten := hlinked.written
  rw [spelled_parse h] at hwritten
  have hmeasured := Block.measured_written hwritten
  refine ⟨hlinked.between, hwritten, ?_, hmeasured.deepest.of_filter rfl rfl⟩
  have hcount := hmeasured.count
  rw [List.count_filter rfl, ← spelled_parse h] at hcount
  rw [hcount]
  simp [spelled]

/-- Comments around a loop inside a loop. -/
theorem block_spells_source_nested :
    ∃ p, parse ⟨[], text "sum: ,[>[-]<+.]"⟩ = .ok p ∧
      Block.ofInstructions? p.instructions = some p.block ∧
      p.block.written? = some (text ",[>[-]<+.]") ∧ p.block.count + 2 = p.instructions.size ∧
      Deepest (text "sum: ,[>[-]<+.]") p.block.depth := by
  obtain ⟨p, hp⟩ : ∃ p, parse ⟨[], text "sum: ,[>[-]<+.]"⟩ = .ok p := ⟨_, rfl⟩
  obtain ⟨hfound, hwritten, hcount, hdeepest⟩ := block_spells_source hp
  exact ⟨p, hp, hfound, hwritten, hcount, hdeepest⟩

end Program

end TapeLang

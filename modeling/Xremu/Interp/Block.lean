import Xremu.Interp.Effects

/-!
# The instructions of a basic block

The decode loop of `XrDecodeInstructions` over the fetched words. It stops after an
instruction that ends a block, when the block is full, or when the words run out; in
the last two cases the linkage instruction comes last.
-/

namespace Xremu

/-! ## What a decoder makes -/

/-- A decoder goes with the implementations the tables give it. -/
def XrDecoder.Proper : XrDecoder → Prop
  | .stop func => func.kind = .stop
  | .plain func | .regs func | .imm func _ | .immSigned func => func.kind = .step
  | .storeRegs func | .storeImmImm func _ | .storeImmReg func _ =>
      func.kind = .step ∧ func.writesRd = false
  | .branch func => func.kind = .branch
  | .jump func => func.kind = .jump
  | _ => True

theorem xrDecodeFunctions101001_proper (n : Nat) : (xrDecodeFunctions101001 n).Proper := by
  unfold xrDecodeFunctions101001
  split <;> first | rfl | trivial

theorem xrDecodeFunctions110001_proper (n : Nat) : (xrDecodeFunctions110001 n).Proper := by
  unfold xrDecodeFunctions110001
  split <;> first | rfl | trivial

theorem xrDecodeFunctions111001_proper (n : Nat) : (xrDecodeFunctions111001 n).Proper := by
  unfold xrDecodeFunctions111001
  split <;> first | rfl | trivial

theorem xrDecodeLowSix_proper (major n : Nat) : (xrDecodeLowSix major n).Proper := by
  unfold xrDecodeLowSix
  split <;>
    first
    | rfl
    | trivial
    | exact ⟨rfl, rfl⟩
    | exact xrDecodeFunctions101001_proper major
    | exact xrDecodeFunctions110001_proper major
    | exact xrDecodeFunctions111001_proper major

theorem xrDecoder_proper (ir : Word) : (xrDecoder ir).Proper := by
  unfold xrDecoder
  split
  · rfl
  · rfl
  · exact xrDecodeLowSix_proper _ _

/-- The cached instructions of one word: the instruction itself, and before it perhaps
a virtual shift. None of them writes the fake zero register. -/
structure DecodedOk (r : XrDecoded) (pre : List XrCachedInst) (main : XrCachedInst) : Prop where
  insts : r.insts = pre ++ [main]
  shifts : ∀ i ∈ pre, i.func.kind = .shift
  length : pre.length ≤ 1
  shift : main.func.kind ≠ .shift
  linkage : main.func.kind ≠ .linkage
  ends : main.func.kind.ends = r.ends
  dest : ∀ i ∈ r.insts, i.dest ≠ fakeZeroRegister

theorem irField_lt (ir : Word) (k : Nat) : irField ir k < 32 := by
  unfold irField
  rw [BitVec.toNat_and]
  exact Nat.lt_of_le_of_lt Nat.and_le_right (by decide)

theorem dest_of_rd {inst : XrCachedInst} {ir : Word} (h : inst.imm8_1 = irRd ir) :
    inst.dest ≠ fakeZeroRegister := by
  have hlt : irRd ir < 32 := irField_lt ir 6
  unfold XrCachedInst.dest
  split
  · decide
  split
  · rw [h]
    exact Nat.ne_of_lt hlt
  · decide

theorem dest_of_store {inst : XrCachedInst} (h : inst.func.writesRd = false) :
    inst.dest ≠ fakeZeroRegister := by
  unfold XrCachedInst.dest
  split
  · decide
  split
  · next hw =>
      rw [h] at hw
      cases hw
  · decide

theorem kind_virtualShift (n : Nat) : (xrVirtualShiftInstructionTable n).kind = .shift := by
  unfold xrVirtualShiftInstructionTable
  split <;> rfl

theorem writesRd_of_shift {func : XrFunc} (h : func.kind = .shift) : func.writesRd = false := by
  cases func <;> first | rfl | cases h

theorem kind_regShift (n : Nat) : (xrRegShiftFunctionTable n).kind = .step := by
  unfold xrRegShiftFunctionTable
  split <;> rfl

/-- A word that becomes one cached instruction. -/
theorem decodedOk_one {d : XrDecoder} {tbmiss : Bool} {ir pc : Word} {main : XrCachedInst}
    (kind : XrKind) (h : d.insts tbmiss ir pc = [main]) (hk : main.func.kind = kind)
    (hs : kind ≠ .shift) (hl : kind ≠ .linkage) (he : kind.ends = d.ends)
    (hd : main.dest ≠ fakeZeroRegister) : ∃ pre main, DecodedOk (d.decode tbmiss ir pc) pre main := by
  refine ⟨[], main, h, ?_, Nat.zero_le _, hk ▸ hs, hk ▸ hl, hk ▸ he, ?_⟩
  · intro i hi
    cases hi
  · intro i hi
    have hmem : i ∈ d.insts tbmiss ir pc := hi
    rw [h, List.mem_singleton] at hmem
    rw [hmem]
    exact hd

/-- A word with a shifted RB. -/
theorem decodedOk_shifted {d : XrDecoder} {tbmiss : Bool} {ir pc : Word} {rb : Nat}
    {inst : Nat → XrCachedInst} {func : XrFunc}
    (h : d.insts tbmiss ir pc = insertShift ir rb inst) (hf : ∀ n, (inst n).func = func)
    (hk : func.kind = .step) (he : d.ends = false) (hd : ∀ n, (inst n).dest ≠ fakeZeroRegister) :
    ∃ pre main, DecodedOk (d.decode tbmiss ir pc) pre main := by
  have hmain : ∀ n, (inst n).func.kind = .step := fun n => by rw [hf, hk]
  by_cases hs : irShift ir = 0
  · have h' : d.insts tbmiss ir pc = [inst rb] := by
      rw [h, insertShift, if_neg (not_not.mpr hs)]
    exact decodedOk_one .step h' (hmain rb) (by decide) (by decide) he.symm (hd rb)
  · let shift : XrCachedInst :=
      ⟨xrVirtualShiftInstructionTable (irShiftKind ir), 0, rb, irShift ir⟩
    have hshift : shift.func.kind = .shift := kind_virtualShift _
    have h' : d.insts tbmiss ir pc = [shift] ++ [inst fakeShiftSink] := by
      rw [h, insertShift, if_pos hs]
      rfl
    refine ⟨[shift], inst fakeShiftSink, h', ?_, Nat.le_refl _, ?_, ?_, ?_, ?_⟩
    · intro i hi
      rw [List.mem_singleton.mp hi]
      exact hshift
    · rw [hmain]
      decide
    · rw [hmain]
      decide
    · rw [hmain]
      exact he.symm
    · intro i hi
      have hmem : i ∈ d.insts tbmiss ir pc := hi
      rw [h'] at hmem
      rcases List.mem_cons.mp hmem with rfl | hmem
      · exact dest_of_store (writesRd_of_shift hshift)
      · rw [List.mem_singleton.mp hmem]
        exact hd _

theorem decodedOk_of_proper {d : XrDecoder} (h : d.Proper) (tbmiss : Bool) (ir pc : Word) :
    ∃ pre main, DecodedOk (d.decode tbmiss ir pc) pre main := by
  cases d with
  | stop func =>
      refine decodedOk_one _ rfl h (by decide) (by decide) rfl (dest_of_store ?_)
      cases func <;> first | rfl | cases h
  | plain func =>
      refine decodedOk_one _ rfl h (by decide) (by decide) rfl ?_
      unfold XrCachedInst.dest
      split
      · decide
      split
      · exact Nat.zero_ne_add_one 31
      · decide
  | mtcr => exact decodedOk_one .mtcr rfl rfl (by decide) (by decide) rfl (dest_of_store rfl)
  | mfcr => exact decodedOk_one .step rfl rfl (by decide) (by decide) rfl (dest_of_rd rfl)
  | conditional => exact decodedOk_one .step rfl rfl (by decide) (by decide) rfl (dest_of_rd rfl)
  | linked => exact decodedOk_one .step rfl rfl (by decide) (by decide) rfl (dest_of_rd rfl)
  | regs func =>
      refine @decodedOk_shifted (.regs func) tbmiss ir pc _
        (fun rb => ⟨func, BitVec.ofNat 32 rb, irRd ir, redirectZeroSrc tbmiss (irRa ir)⟩)
        func rfl (fun _ => rfl) h rfl ?_
      exact fun _ => dest_of_rd rfl
  | storeRegs func =>
      refine @decodedOk_shifted (.storeRegs func) tbmiss ir pc _
        (fun rb => ⟨func, BitVec.ofNat 32 rb, redirectZeroSrc tbmiss (irRd ir),
          redirectZeroSrc tbmiss (irRa ir)⟩)
        func rfl (fun _ => rfl) h.1 rfl ?_
      exact fun _ => dest_of_store h.2
  | regShifts =>
      exact decodedOk_one _ rfl (kind_regShift (irShiftKind ir)) (by decide) (by decide) rfl
        (dest_of_rd rfl)
  | imm func scale => exact decodedOk_one _ rfl h (by decide) (by decide) rfl (dest_of_rd rfl)
  | immSigned func => exact decodedOk_one _ rfl h (by decide) (by decide) rfl (dest_of_rd rfl)
  | storeImmImm func scale =>
      exact decodedOk_one _ rfl h.1 (by decide) (by decide) rfl (dest_of_store h.2)
  | storeImmReg func scale =>
      exact decodedOk_one _ rfl h.1 (by decide) (by decide) rfl (dest_of_store h.2)
  | branch func =>
      refine decodedOk_one _ rfl h (by decide) (by decide) rfl (dest_of_store ?_)
      cases func <;> first | rfl | cases h
  | beq =>
      -- BEQ or B, after its register was redirected.
      have hd : ∀ main, XrDecoder.insts tbmiss ir pc .beq = [main] →
          main.func = .b ∨ main.func = .beq := by
        intro main hmain
        cases hmain
        dsimp only
        split
        · exact .inl rfl
        · exact .inr rfl
      rcases hd _ rfl with hb | hb
      · exact decodedOk_one _ rfl (congrArg _ hb) (by decide) (by decide) rfl
          (dest_of_store (by rw [hb]; rfl))
      · exact decodedOk_one _ rfl (congrArg _ hb) (by decide) (by decide) rfl
          (dest_of_store (by rw [hb]; rfl))
  | adr => exact decodedOk_one .step rfl rfl (by decide) (by decide) rfl (dest_of_rd rfl)
  | jalr => exact decodedOk_one .jalr rfl rfl (by decide) (by decide) rfl (dest_of_rd rfl)
  | jump func =>
      refine decodedOk_one _ rfl h (by decide) (by decide) rfl (dest_of_store ?_)
      cases func <;> first | rfl | cases h

theorem xrDecode_ok (tbmiss : Bool) (ir pc : Word) :
    ∃ pre main, DecodedOk (xrDecode tbmiss ir pc) pre main :=
  decodedOk_of_proper (xrDecoder_proper ir) tbmiss ir pc

/-- The kinds of the instructions a decoder makes. -/
def XrDecoder.kinds : XrDecoder → List XrKind
  | .stop _ => [.stop]
  | .mtcr => [.mtcr]
  | .regs _ | .storeRegs _ => [.shift, .step]
  | .branch _ => [.branch]
  | .beq => [.branch, .jump]
  | .jalr => [.jalr]
  | .jump _ => [.jump]
  | _ => [.step]

theorem insertShift_cases {ir : Word} {rb : Nat} {inst : Nat → XrCachedInst} {i : XrCachedInst}
    (hi : i ∈ insertShift ir rb inst) :
    (i.func.kind = .shift ∧ i.imm8_2 = irShift ir ∧ irShift ir ≠ 0) ∨ ∃ n, i = inst n := by
  unfold insertShift at hi
  by_cases hcount : irShift ir ≠ 0
  · rw [if_pos hcount] at hi
    rcases List.mem_cons.mp hi with rfl | hi
    · exact Or.inl ⟨kind_virtualShift _, rfl, hcount⟩
    · exact Or.inr ⟨fakeShiftSink, List.mem_singleton.mp hi⟩
  · rw [if_neg hcount] at hi
    exact Or.inr ⟨rb, List.mem_singleton.mp hi⟩

theorem XrDecoder.Proper.kinds {d : XrDecoder} (h : d.Proper) {tbmiss : Bool} {ir pc : Word}
    {i : XrCachedInst} (hi : i ∈ d.insts tbmiss ir pc) : i.func.kind ∈ d.kinds := by
  have hshift : ∀ {rb : Nat} {inst : Nat → XrCachedInst}, (∀ n, (inst n).func.kind = .step) →
      i ∈ insertShift ir rb inst → i.func.kind ∈ [XrKind.shift, XrKind.step] := by
    intro rb inst hstep hmem
    rcases insertShift_cases hmem with ⟨hkind, _⟩ | ⟨n, rfl⟩
    · rw [hkind]
      exact List.mem_cons_self
    · rw [hstep n]
      exact List.mem_cons_of_mem _ List.mem_cons_self
  cases d with
  | regs func =>
      simp only [XrDecoder.insts] at hi
      refine hshift ?_ hi
      exact fun _ => h
  | storeRegs func =>
      simp only [XrDecoder.insts] at hi
      refine hshift ?_ hi
      exact fun _ => h.1
  | stop func | plain func | imm func _ | immSigned func | branch func | jump func =>
      rw [List.mem_singleton.mp hi, show func.kind = _ from h]
      exact List.mem_cons_self
  | storeImmImm func _ | storeImmReg func _ =>
      rw [List.mem_singleton.mp hi, h.1]
      exact List.mem_cons_self
  | regShifts =>
      rw [List.mem_singleton.mp hi, kind_regShift]
      exact List.mem_cons_self
  | beq =>
      -- BEQ or B, after its register was redirected.
      rw [List.mem_singleton.mp hi]
      dsimp only
      split
      · exact List.mem_cons_of_mem _ List.mem_cons_self
      · exact List.mem_cons_self
  | _ =>
      rw [List.mem_singleton.mp hi]
      exact List.mem_cons_self

/-- MTCR is decoded by its own decoder only. -/
theorem XrDecoder.Proper.mtcr {d : XrDecoder} (h : d.Proper) {tbmiss : Bool} {ir pc : Word}
    {i : XrCachedInst} (hi : i ∈ d.insts tbmiss ir pc) (hf : i.func = .mtcr) : d = .mtcr := by
  have hkind := h.kinds hi
  rw [hf] at hkind
  cases d with
  | mtcr => rfl
  | _ => simp [XrDecoder.kinds, XrFunc.kind] at hkind

/-! ## The decode loop -/

/-- The linkage instruction. -/
def linkageInst : XrCachedInst := ⟨.specialLinkage, 0, 0, 0⟩

/-- The loop, with `room` cached instructions left until the block is full. The result is
the cached instructions and `Cycles`. -/
def xrDecodeLoop (tbmiss : Bool) : List Word → (pc : Word) → (room : Nat) → List XrCachedInst × Nat
  | [], _, _ => ([linkageInst], 0)
  | ir :: irs, pc, room =>
      let r := xrDecode tbmiss ir pc
      if r.ends then (r.insts, 1)
      else if room ≤ r.insts.length then (r.insts ++ [linkageInst], 1)
      else
        let rest := xrDecodeLoop tbmiss irs (pc + 4) (room - r.insts.length)
        (r.insts ++ rest.1, rest.2 + 1)

/-- `XR_IBLOCK_INSTS`. -/
abbrev xrIblockInsts : Nat := 32

/-- The program counter after these instructions; virtual shifts do not count. -/
def advance : List XrCachedInst → Word → Word
  | [], pc => pc
  | i :: is, pc => advance is (if i.func.kind = .shift then pc else pc + 4)

theorem advance_append (is js : List XrCachedInst) (pc : Word) :
    advance (is ++ js) pc = advance js (advance is pc) := by
  induction is generalizing pc with
  | nil => rfl
  | cons i is ih => exact ih _

theorem DecodedOk.advance {r : XrDecoded} {pre : List XrCachedInst} {main : XrCachedInst}
    (h : DecodedOk r pre main) (pc : Word) : Xremu.advance r.insts pc = pc + 4 := by
  have hpre : ∀ is : List XrCachedInst, (∀ i ∈ is, i.func.kind = .shift) →
      Xremu.advance is pc = pc := by
    intro is his
    induction is with
    | nil => rfl
    | cons i is ih =>
        rw [Xremu.advance, if_pos (his i List.mem_cons_self)]
        exact ih fun j hj => his j (List.mem_cons_of_mem _ hj)
  rw [h.insts, advance_append, hpre pre h.shifts]
  exact if_neg h.shift

/-- The loop has gone through all of `words`, or stopped earlier. -/
inductive LoopCases (tbmiss : Bool) (ir : Word) (irs : List Word) (pc : Word) (room : Nat) : Prop
  | ends (h : (xrDecode tbmiss ir pc).ends = true)
      (loop : xrDecodeLoop tbmiss (ir :: irs) pc room = ((xrDecode tbmiss ir pc).insts, 1))
  | full (h : (xrDecode tbmiss ir pc).ends = false)
      (room_le : room ≤ (xrDecode tbmiss ir pc).insts.length)
      (loop : xrDecodeLoop tbmiss (ir :: irs) pc room =
        ((xrDecode tbmiss ir pc).insts ++ [linkageInst], 1))
  | more (h : (xrDecode tbmiss ir pc).ends = false)
      (room_lt : (xrDecode tbmiss ir pc).insts.length < room)
      (loop : xrDecodeLoop tbmiss (ir :: irs) pc room =
        ((xrDecode tbmiss ir pc).insts ++
          (xrDecodeLoop tbmiss irs (pc + 4) (room - (xrDecode tbmiss ir pc).insts.length)).1,
          (xrDecodeLoop tbmiss irs (pc + 4) (room - (xrDecode tbmiss ir pc).insts.length)).2 + 1))

theorem loopCases (tbmiss : Bool) (ir : Word) (irs : List Word) (pc : Word) (room : Nat) :
    LoopCases tbmiss ir irs pc room := by
  cases he : (xrDecode tbmiss ir pc).ends with
  | true =>
      refine .ends he ?_
      rw [xrDecodeLoop]
      exact if_pos he
  | false =>
      have hne : ¬(xrDecode tbmiss ir pc).ends = true := by simp [he]
      by_cases hroom : room ≤ (xrDecode tbmiss ir pc).insts.length
      · refine .full he hroom ?_
        rw [xrDecodeLoop]
        exact (if_neg hne).trans (if_pos hroom)
      · refine .more he (Nat.lt_of_not_le hroom) ?_
        rw [xrDecodeLoop]
        exact (if_neg hne).trans (if_neg hroom)

/-- Only the last instruction ends the block. -/
def EndsLast (insts : List XrCachedInst) : Prop :=
  ∃ body last, insts = body ++ [last] ∧ (∀ i ∈ body, i.func.kind.ends = false) ∧
    last.func.kind.ends = true

theorem DecodedOk.length_pos {r : XrDecoded} {pre : List XrCachedInst} {main : XrCachedInst}
    (h : DecodedOk r pre main) : 1 ≤ r.insts.length ∧ r.insts.length ≤ 2 := by
  have hlen := h.length
  rw [h.insts, List.length_append, List.length_singleton]
  omega

theorem DecodedOk.endsLast {r : XrDecoded} {pre : List XrCachedInst} {main : XrCachedInst}
    (h : DecodedOk r pre main) (he : r.ends = true) : EndsLast r.insts := by
  refine ⟨pre, main, h.insts, ?_, h.ends.trans he⟩
  intro i hi
  rw [h.shifts i hi]
  rfl

theorem DecodedOk.goes_on {r : XrDecoded} {pre : List XrCachedInst} {main : XrCachedInst}
    (h : DecodedOk r pre main) (he : r.ends = false) : ∀ i ∈ r.insts, i.func.kind.ends = false := by
  intro i hi
  rw [h.insts] at hi
  rcases List.mem_append.mp hi with hi | hi
  · rw [h.shifts i hi]
    rfl
  · rw [List.mem_singleton.mp hi]
    exact h.ends.trans he

theorem EndsLast.append {body insts : List XrCachedInst} (h : EndsLast insts)
    (hb : ∀ i ∈ body, i.func.kind.ends = false) : EndsLast (body ++ insts) := by
  obtain ⟨rest, last, rfl, hrest, hlast⟩ := h
  refine ⟨body ++ rest, last, (List.append_assoc _ _ _).symm, ?_, hlast⟩
  intro i hi
  rcases List.mem_append.mp hi with hi | hi
  · exact hb i hi
  · exact hrest i hi

theorem endsLast_linkage : EndsLast [linkageInst] := by
  refine ⟨[], linkageInst, rfl, ?_, rfl⟩
  intro i hi
  cases hi

theorem endsLast_decodeLoop (tbmiss : Bool) (irs : List Word) (pc : Word) (room : Nat) :
    EndsLast (xrDecodeLoop tbmiss irs pc room).1 := by
  induction irs generalizing pc room with
  | nil => exact endsLast_linkage
  | cons ir irs ih =>
      obtain ⟨pre, main, hok⟩ := xrDecode_ok tbmiss ir pc
      rcases loopCases tbmiss ir irs pc room with ⟨he, hl⟩ | ⟨he, _, hl⟩ | ⟨he, _, hl⟩
      · rw [hl]
        exact hok.endsLast he
      · rw [hl]
        exact endsLast_linkage.append (hok.goes_on he)
      · rw [hl]
        exact (ih _ _).append (hok.goes_on he)

/-- A block that is not full has room for two more instructions and the linkage. -/
theorem size_decodeLoop (tbmiss : Bool) (irs : List Word) (pc : Word) {room : Nat} (h : 1 ≤ room) :
    (xrDecodeLoop tbmiss irs pc room).1.length ≤ room + 2 ∧
      (xrDecodeLoop tbmiss irs pc room).2 ≤ room := by
  induction irs generalizing pc room with
  | nil => exact ⟨by simp [xrDecodeLoop], Nat.zero_le _⟩
  | cons ir irs ih =>
      obtain ⟨pre, main, hok⟩ := xrDecode_ok tbmiss ir pc
      obtain ⟨hpos, htwo⟩ := hok.length_pos
      rcases loopCases tbmiss ir irs pc room with ⟨_, hl⟩ | ⟨_, hroom, hl⟩ | ⟨_, hroom, hl⟩
      · rw [hl]
        exact ⟨show (xrDecode tbmiss ir pc).insts.length ≤ _ by omega, h⟩
      · rw [hl, List.length_append, List.length_singleton]
        exact ⟨by omega, h⟩
      · obtain ⟨hlen, hcyc⟩ := @ih (pc + 4) (room - (xrDecode tbmiss ir pc).insts.length) (by omega)
        rw [hl, List.length_append]
        exact ⟨by omega, by omega⟩

/-- What every decoded instruction has, if `pc` is one of these, so has the whole block. -/
theorem forall_decodeLoop {tbmiss : Bool} {At : Word → Prop} {P : XrCachedInst → Prop}
    (hlinkage : P linkageInst) (hnext : ∀ pc, At pc → At (pc + 4))
    (hdecode : ∀ ir pc, At pc → ∀ i ∈ (xrDecode tbmiss ir pc).insts, P i)
    (irs : List Word) {pc : Word} (hpc : At pc) (room : Nat) :
    ∀ i ∈ (xrDecodeLoop tbmiss irs pc room).1, P i := by
  have hlink : ∀ i ∈ [linkageInst], P i := by
    intro i hi
    rw [List.mem_singleton.mp hi]
    exact hlinkage
  induction irs generalizing pc room with
  | nil => exact hlink
  | cons ir irs ih =>
      have hinsts := hdecode ir pc hpc
      rcases loopCases tbmiss ir irs pc room with ⟨_, hl⟩ | ⟨_, _, hl⟩ | ⟨_, _, hl⟩
      · rw [hl]
        exact hinsts
      · rw [hl]
        intro i hi
        rcases List.mem_append.mp hi with hi | hi
        · exact hinsts i hi
        · exact hlink i hi
      · rw [hl]
        intro i hi
        rcases List.mem_append.mp hi with hi | hi
        · exact hinsts i hi
        · exact ih (hnext pc hpc) _ i hi

theorem dest_decodeLoop (tbmiss : Bool) (irs : List Word) (pc : Word) (room : Nat) :
    ∀ i ∈ (xrDecodeLoop tbmiss irs pc room).1, i.dest ≠ fakeZeroRegister := by
  refine @forall_decodeLoop tbmiss (fun _ => True) _ (by decide) (fun _ h => h) ?_ irs pc trivial room
  intro ir pc _
  obtain ⟨pre, main, hok⟩ := xrDecode_ok tbmiss ir pc
  exact hok.dest

/-! ## The decoded block -/

/-- The cached instructions of a block, and its `Cycles`. -/
structure XrBlockCode where
  insts : List XrCachedInst
  cycles : Nat
  endsLast : EndsLast insts
  size : insts.length ≤ xrIblockInsts + 2
  cycles_le : cycles ≤ xrIblockInsts
  dest : ∀ i ∈ insts, i.dest ≠ fakeZeroRegister

namespace XrBlockCode

variable (code : XrBlockCode)

theorem ne_nil : code.insts ≠ [] := by
  obtain ⟨body, last, h, _⟩ := code.endsLast
  rw [h]
  exact List.append_ne_nil_of_right_ne_nil body (List.cons_ne_nil last [])

/-- The instruction that ends the block. -/
def last : XrCachedInst := code.insts.getLast code.ne_nil

/-- The instructions before it. -/
def body : List XrCachedInst := code.insts.dropLast

theorem insts_eq : code.insts = code.body ++ [code.last] :=
  (List.dropLast_concat_getLast code.ne_nil).symm

theorem last_ends : code.last.func.kind.ends = true := by
  obtain ⟨body, last, h, _, hlast⟩ := code.endsLast
  have heq : code.last = last := by
    unfold XrBlockCode.last
    simp [h]
  rw [heq]
  exact hlast

theorem body_goes_on : ∀ i ∈ code.body, i.func.kind.ends = false := by
  obtain ⟨body, last, h, hbody, _⟩ := code.endsLast
  have heq : code.body = body := by
    unfold XrBlockCode.body
    rw [h, List.dropLast_concat]
  rw [heq]
  exact hbody

end XrBlockCode

/-- Decode the fetched words into an empty block at `pc`. -/
def xrDecodeBlock (tbmiss : Bool) (words : List Word) (pc : Word) : XrBlockCode where
  insts := (xrDecodeLoop tbmiss words pc xrIblockInsts).1
  cycles := (xrDecodeLoop tbmiss words pc xrIblockInsts).2
  endsLast := endsLast_decodeLoop tbmiss words pc xrIblockInsts
  size := (size_decodeLoop tbmiss words pc (by decide)).1
  cycles_le := (size_decodeLoop tbmiss words pc (by decide)).2
  dest := dest_decodeLoop tbmiss words pc xrIblockInsts

end Xremu

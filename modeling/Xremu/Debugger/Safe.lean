import Xremu.Debugger.Tokenizer

/-!
# Commands that come to an end

A `Safe` command comes to an end in any state with a terminated line, with every string
it formats inside `printbuf`. It is put together from safe parts. All the commands of the
table are.
-/

namespace Xremu

/-! ## Safe parts -/

section

variable {α γ β : Type}

/-- What is left of the line has its terminator. -/
def Dbg.Lined (s : Dbg β) : Prop :=
  ∀ buffer, s.cmdnexttoken = some buffer → ∃ text, StringAt s.cmdline buffer text

/-- From any such state the command comes to an end, and edits no line. -/
def Safe (c : DbgM β α) : Prop :=
  ∀ s : Dbg β, s.Lined → ∃ a s', c.run s = .ok (a, s') ∧ s'.Lined ∧ s'.cmdindex = s.cmdindex

namespace Safe

theorem pure (a : α) : Safe (Pure.pure a : DbgM β α) := by
  intro s hs
  exact ⟨a, s, rfl, hs, rfl⟩

theorem bind {c : DbgM β α} {f : α → DbgM β γ} (hc : Safe c) (hf : ∀ a, Safe (f a)) :
    Safe (c >>= f) := by
  intro s hs
  obtain ⟨a, s₁, hrun, hs₁, hindex⟩ := hc s hs
  obtain ⟨b, s₂, hrun₂, hs₂, hindex₂⟩ := hf a s₁ hs₁
  refine ⟨b, s₂, ?_, hs₂, hindex₂.trans hindex⟩
  rw [StateT.run_bind, hrun]
  exact hrun₂

theorem get : Safe (MonadState.get : DbgM β (Dbg β)) := by
  intro s hs
  exact ⟨s, s, rfl, hs, rfl⟩

/-- A change to something else than the line. -/
theorem change {f : Dbg β → Dbg β} (hline : ∀ s, (f s).cmdline = s.cmdline)
    (htoken : ∀ s, (f s).cmdnexttoken = s.cmdnexttoken)
    (hindex : ∀ s, (f s).cmdindex = s.cmdindex) : Safe (modify f : DbgM β Unit) := by
  intro s hs
  refine ⟨(), f s, rfl, ?_, hindex s⟩
  intro buffer hbuffer
  rw [htoken] at hbuffer
  rw [hline]
  exact hs buffer hbuffer

theorem ite {P : Prop} [Decidable P] {c d : DbgM β α} (hc : Safe c) (hd : Safe d) :
    Safe (if P then c else d) := by
  split
  · exact hc
  · exact hd

/-- Something may be done first. -/
theorem first {P : Prop} [Decidable P] {c : DbgM β Unit} {d : DbgM β α} (hc : Safe c)
    (hd : Safe d) : Safe (if P then c >>= fun _ => d else d) :=
  .ite (.bind hc fun _ => hd) hd

theorem forM {l : List α} {f : α → DbgM β Unit} (h : ∀ a ∈ l, Safe (f a)) : Safe (l.forM f) := by
  induction l with
  | nil => exact .pure ()
  | cons a l ih =>
      show Safe (f a >>= fun _ => l.forM f)
      exact .bind (h a List.mem_cons_self) fun _ => ih fun b hb => h b (List.mem_cons_of_mem _ hb)

end Safe

theorem dbgPutString_safe (text : Text) : Safe (dbgPutString text : DbgM β Unit) :=
  .change (fun _ => rfl) (fun _ => rfl) (fun _ => rfl)

/-- A string that fits into `printbuf`. -/
theorem dbgPrintf_safe {text : Text} (h : text.length < cmdMax) :
    Safe (dbgPrintf text : DbgM β Unit) := by
  unfold dbgPrintf
  rw [if_pos h]
  exact dbgPutString_safe text

theorem dbgNextToken_none {s : Dbg β} (h : s.cmdnexttoken = none) :
    (dbgNextToken : DbgM β Bool).run s = .ok (false, s) := by
  simp [dbgNextToken, h]
  rfl

theorem dbgNextToken_some {s : Dbg β} {buffer : Nat} {next : Option Nat} {tokenbuf : Nat → Char}
    (h : s.cmdnexttoken = some buffer)
    (htoken : rtlTokenize s.cmdline buffer s.tokenbuf cmdMax ' ' = .ok (next, tokenbuf)) :
    (dbgNextToken : DbgM β Bool).run s =
      .ok (next.isSome, { s with cmdnexttoken := next, tokenbuf := tokenbuf }) := by
  simp [dbgNextToken, h, htoken]

theorem dbgNextToken_safe : Safe (dbgNextToken : DbgM β Bool) := by
  intro s hs
  cases hnext : s.cmdnexttoken with
  | none => exact ⟨false, s, dbgNextToken_none hnext, hs, rfl⟩
  | some buffer =>
      obtain ⟨text, hline⟩ := hs buffer hnext
      obtain ⟨next, tokenbuf, htoken, hrest, -, -⟩ := rtlTokenize_ok hline s.tokenbuf
      exact ⟨_, _, dbgNextToken_some hnext htoken, hrest, rfl⟩

theorem dbgToken_safe : Safe (dbgToken : DbgM β Text) :=
  .bind .get fun _ => .pure _

theorem dbgProc_safe : Safe (dbgProc : DbgM β XrProcessor) :=
  .bind .get fun _ => .pure _

theorem dbgSetProc_safe (p : XrProcessor) : Safe (dbgSetProc p : DbgM β Unit) :=
  .change (fun _ => rfl) (fun _ => rfl) (fun _ => rfl)

theorem dbgSetBus_safe (bus : β) : Safe (dbgSetBus bus : DbgM β Unit) :=
  .change (fun _ => rfl) (fun _ => rfl) (fun _ => rfl)

/-! ### What they print -/

theorem hex_length (value : Word) : (hexField 8 value.toNat).length = 8 :=
  hexField_length (by decide) value.isLt

theorem registerText_fits {width : Nat} {name : String} (hwidth : width ≤ 16)
    (hname : name.toList.length ≤ 16) (value : Word) :
    (registerText width name value).length < cmdMax := by
  unfold registerText
  simp only [List.length_append, padLeft_length, hex_length]
  show max width name.toList.length + 1 + 8 + 1 < 256
  omega

theorem lsicText_fits (lsic : Lsic) : (lsicText lsic).length < cmdMax := by
  unfold lsicText
  simp only [List.length_append, hex_length]
  decide

theorem tbeText_fits (tbe : BitVec 64) : (tbeText tbe).length < cmdMax := by
  have hmask : ∀ v mask : BitVec 64, (v &&& mask).toNat ≤ mask.toNat := by
    intro v mask
    rw [BitVec.toNat_and]
    exact Nat.and_le_right
  have hfive : ∀ v : BitVec 64, (hexFieldUpper 5 (v &&& 0xFFFFF).toNat).length = 5 := by
    intro v
    exact hexFieldUpper_length (by decide) (Nat.lt_of_le_of_lt (hmask v _) (by decide))
  have hthree : ∀ v : BitVec 64, (hexFieldUpper 3 (v &&& 0xFFF).toNat).length = 3 := by
    intro v
    exact hexFieldUpper_length (by decide) (Nat.lt_of_le_of_lt (hmask v _) (by decide))
  unfold tbeText
  simp only [List.length_append, hfive, hthree]
  decide

/-! ### What a translation prints -/

/-- It fits into `printbuf`, or does not go through it. -/
def DbgPrint.Fits : DbgPrint → Prop
  | .formatted text => text.length < cmdMax
  | .plain _ => True

def DbgWalk.Fits (w : DbgWalk β) : Prop := ∀ p ∈ w.prints, p.Fits

theorem DbgWalk.Fits.print {w : DbgWalk β} (h : w.Fits) (flags : Word) {p : DbgPrint}
    (hp : p.Fits) : (w.print flags p).Fits := by
  unfold DbgWalk.print
  split
  · intro q hq
    rcases List.mem_append.mp hq with hq | hq
    · exact h q hq
    · obtain rfl := List.mem_singleton.mp hq
      exact hp
  · exact h

theorem dbgTranslateAddressTb_lt {tb : Nat → BitVec 64} {addr asid : Word} {i : Nat}
    (h : dbgTranslateAddressTb tb addr asid = some i) : i < xrTbSize := by
  unfold dbgTranslateAddressTb at h
  exact List.mem_range.mp (List.mem_of_find?_eq_some h)

/-- With a lookup that the flags may forbid. -/
theorem lookup_lt {P : Prop} [Decidable P] {tb : Nat → BitVec 64} {addr asid : Word} {i : Nat}
    (h : (if P then dbgTranslateAddressTb tb addr asid else none) = some i) : i < xrTbSize := by
  split at h
  · exact dbgTranslateAddressTb_lt h
  · cases h

theorem dbgTbePrint_fits {name : String} {index : Nat} (hname : name.toList.length ≤ 16)
    (hindex : index < xrTbSize) (tbe : BitVec 64) : (dbgTbePrint name index tbe).Fits := by
  have hdigits : (decimalField index).length ≤ 2 :=
    decimalField_length (by decide) (Nat.lt_trans hindex (by decide))
  have htbe : (hexFieldUpper 16 tbe.toNat).length = 16 :=
    hexFieldUpper_length (by decide) tbe.isLt
  show List.length _ < cmdMax
  simp only [List.length_append, htbe]
  show name.toList.length + 1 + (decimalField index).length + 2 + 16 + 1 < 256
  omega

theorem dbgPtePrint_fits {name : String} (hname : name.toList.length ≤ 16) (address entry : Word) :
    (dbgPtePrint name address entry).Fits := by
  have hword : ∀ value : Word, (hexFieldUpper 8 value.toNat).length = 8 := fun value =>
    hexFieldUpper_length (by decide) value.isLt
  show List.length _ < cmdMax
  simp only [List.length_append, hword]
  show name.toList.length + 6 + 8 + 2 + 8 + 1 < 256
  omega

theorem dbgBusErrorPrint_fits {name : String} (hname : name.toList.length ≤ 16) (address : Word) :
    (dbgBusErrorPrint name address).Fits := by
  show List.length _ < cmdMax
  simp only [List.length_append, hex_length]
  show name.toList.length + 14 + 8 + 2 < 256
  omega

section

variable [EBus β] [DbgBus β] {w : DbgWalk β}

theorem dbgLoadEntry_fits (h : w.Fits) {variable_ : Option Word} {name : String}
    (hname : name.toList.length ≤ 16) {flags addr physaddr : Word} {r : Option Word × DbgWalk β}
    (hr : dbgLoadEntry variable_ name flags addr physaddr w = some r) : r.2.Fits := by
  have hread : (w.read physaddr).Fits := h
  unfold dbgLoadEntry at hr
  split at hr
  · obtain rfl := Option.some.inj hr
    exact hread.print flags (dbgBusErrorPrint_fits hname _)
  · obtain ⟨entry, -, rfl⟩ := Option.map_eq_some_iff.mp hr
    exact hread.print flags (dbgPtePrint_fits hname _ _)
  · obtain rfl := Option.some.inj hr
    exact hread.print flags (dbgPtePrint_fits hname _ _)

theorem dbgWalkDirectory_fits (h : w.Fits) {unassigned : Option DbgUnassigned}
    {flags asid pgtb ptevaddr : Word} {r : Option Word × DbgWalk β}
    (hr : dbgWalkDirectory unassigned flags asid pgtb ptevaddr w = some r) : r.2.Fits := by
  unfold dbgWalkDirectory at hr
  extract_lets pdevaddr at hr
  cases hlookup : dbgTranslateAddressTb w.proc.dtb pdevaddr asid with
  | none =>
      rw [hlookup] at hr
      obtain ⟨u, -, hload⟩ := Option.bind_eq_some_iff.mp hr
      exact dbgLoadEntry_fits h (by decide) hload
  | some i =>
      rw [hlookup] at hr
      have hprint := h.print flags
        (@dbgTbePrint_fits "PdTbe@DTB" i (by decide) (dbgTranslateAddressTb_lt hlookup)
          (w.proc.dtb i))
      dsimp only at hr
      split at hr
      · obtain rfl := Option.some.inj hr
        exact hprint
      · exact dbgLoadEntry_fits hprint (by decide) hr

theorem dbgWalkTables_fits (h : w.Fits) {unassigned : Option DbgUnassigned}
    {flags addr asid pgtb : Word} {r : Option Word × DbgWalk β}
    (hr : dbgWalkTables unassigned flags addr asid pgtb w = some r) : r.2.Fits := by
  unfold dbgWalkTables at hr
  split at hr
  · obtain rfl := Option.some.inj hr
    exact h.print flags trivial
  extract_lets ptevaddr at hr
  split at hr
  · next i hlookup =>
      have hprint := h.print flags
        (@dbgTbePrint_fits "Pde@DTB" i (by decide) (lookup_lt hlookup) (w.proc.dtb i))
      dsimp only at hr
      split at hr
      · obtain rfl := Option.some.inj hr
        exact hprint
      · exact dbgLoadEntry_fits hprint (by decide) hr
  · split at hr
    · obtain rfl := Option.some.inj hr
      exact h.print flags trivial
    · obtain ⟨r', hdirectory, hpte⟩ := Option.bind_eq_some_iff.mp hr
      have hr' := dbgWalkDirectory_fits h hdirectory
      split at hpte
      · obtain rfl := Option.some.inj hpte
        exact hr'
      · exact dbgLoadEntry_fits hr' (by decide) hpte

theorem dbgTranslateVirtual_fits (h : w.Fits) {unassigned : Option DbgUnassigned}
    {flags addr : Word} {r : Option Word × DbgWalk β}
    (hr : dbgTranslateVirtual unassigned flags addr w = some r) : r.2.Fits := by
  unfold dbgTranslateVirtual at hr
  extract_lets tbname tb asid at hr
  have htbname : tbname.toList.length ≤ 16 := by
    unfold tbname
    split <;> decide
  split at hr
  · next i hlookup =>
      obtain rfl := Option.some.inj hr
      exact h.print flags (dbgTbePrint_fits htbname (lookup_lt hlookup) _)
  · split at hr
    · exact dbgWalkTables_fits h hr
    · obtain rfl := Option.some.inj hr
      exact h

end

/-! ### The commands -/

theorem dbgCommandHelp_safe : Safe (dbgCommandHelp : DbgM β Unit) := by
  apply Safe.forM
  intro c _
  apply dbgPrintf_safe
  have hname : c.name.toList.length ≤ 10 := by cases c <;> decide
  have hhelp : c.helpText.toList.length ≤ 100 := by cases c <;> decide
  simp only [List.length_append, padRight_length]
  show 1 + max 10 c.name.toList.length + c.helpText.toList.length + 1 < 256
  omega

theorem dbgCommandReg_safe : Safe (dbgCommandReg : DbgM β Unit) := by
  unfold dbgCommandReg
  apply Safe.bind dbgProc_safe
  intro proc
  apply Safe.bind
  · apply Safe.forM
    rintro ⟨name, i⟩ hname
    have hlength : ∀ r ∈ dbgRegNames.zipIdx.drop 1, r.1.toList.length ≤ 16 := by decide
    apply Safe.first (dbgPutString_safe _)
    exact dbgPrintf_safe (registerText_fits (by decide) (hlength _ hname) _)
  · intro _
    apply dbgPrintf_safe
    simp only [List.length_append, hex_length]
    decide

theorem dbgCommandCr_safe : Safe (dbgCommandCr : DbgM β Unit) := by
  unfold dbgCommandCr
  apply Safe.bind dbgProc_safe
  intro proc
  apply Safe.bind
  · apply Safe.forM
    rintro ⟨⟨i, name⟩, printed⟩ hname
    have hlength : ∀ r ∈ dbgCrNames.zipIdx, r.1.2.toList.length ≤ 16 := by decide
    apply Safe.first (dbgPutString_safe _)
    exact dbgPrintf_safe (registerText_fits (by decide) (hlength _ hname) _)
  · intro _
    exact dbgPutString_safe _

theorem dbgDumpTb_safe (tb : Nat → BitVec 64) (size : Nat) :
    Safe (dbgDumpTb tb size : DbgM β Unit) := by
  unfold dbgDumpTb
  apply Safe.bind
  · apply Safe.forM
    intro _ _
    exact dbgPutString_safe _
  intro _
  apply Safe.bind
  · apply Safe.forM
    intro i _
    apply Safe.first (dbgPutString_safe _)
    apply Safe.bind (dbgPrintf_safe (tbeText_fits _))
    intro _
    apply Safe.bind
    · apply Safe.forM
      intro _ _
      exact dbgPutString_safe _
    · intro _
      exact dbgPutString_safe _
  · intro _
    exact dbgPutString_safe _

theorem dbgPrint_safe {p : DbgPrint} (h : p.Fits) : Safe (dbgPrint p : DbgM β Unit) := by
  cases p with
  | formatted text => exact dbgPrintf_safe h
  | plain text => exact dbgPutString_safe text

theorem dbgFlags_safe (flags : Word) : Safe (dbgFlags flags : DbgM β Word) := by
  apply Safe.bind dbgNextToken_safe
  intro found
  apply Safe.ite
  · exact .bind dbgToken_safe fun _ => .pure _
  · exact .pure _

theorem dbgTranslateAddress_safe [EBus β] [DbgBus β] (addr flags : Word) :
    Safe (dbgTranslateAddress addr flags : DbgM β (Option Word)) := by
  unfold dbgTranslateAddress
  apply Safe.bind .get
  intro s
  apply Safe.bind dbgProc_safe
  intro proc
  extract_lets flags' walk
  have hwalk : walk.Fits := by
    intro p hp
    cases hp
  have hprints : (if flags' &&& dbgTranslatePhysical = 0 then
      (dbgTranslateVirtual (some s.world.unassigned) flags' addr walk).getD (none, walk)
    else (some addr, walk)).2.Fits := by
    split
    · cases hr : dbgTranslateVirtual (some s.world.unassigned) flags' addr walk with
      | none => exact hwalk
      | some r => exact dbgTranslateVirtual_fits hwalk hr
    · exact hwalk
  revert hprints
  generalize (if flags' &&& dbgTranslatePhysical = 0 then
      (dbgTranslateVirtual (some s.world.unassigned) flags' addr walk).getD (none, walk)
    else (some addr, walk)) = r
  obtain ⟨phys, walk'⟩ := r
  intro hprints
  dsimp only
  apply Safe.bind
  · exact .forM fun p hp => dbgPrint_safe (hprints p hp)
  intro _
  apply Safe.bind (dbgSetProc_safe _)
  intro _
  apply Safe.bind (dbgSetBus_safe _)
  intro _
  apply Safe.ite
  · cases phys with
    | none => exact .bind (dbgPutString_safe _) fun _ => .pure _
    | some phys =>
        refine .bind (dbgPrintf_safe ?_) fun _ => .pure _
        simp only [List.length_append, hex_length]
        decide
  · exact .pure _

theorem dbgLocate_safe [EBus β] [DbgBus β] (addr flags : Word) :
    Safe (dbgLocate addr flags : DbgM β (Option Word)) := by
  unfold dbgLocate
  apply Safe.bind (dbgTranslateAddress_safe _ _)
  intro phys
  exact Safe.first (dbgPutString_safe _) (.pure _)

/-- What `poke` and `peek` do with an address. -/
theorem located_safe [EBus β] [DbgBus β] (addr : Word) {act : Option Word → DbgM β Unit}
    (hnone : Safe (act none)) (hsome : ∀ phys, Safe (act (some phys))) :
    Safe (if addr &&& 3 ≠ 0 then dbgPutString "Unaligned address\n".toList
      else dbgFlags 0 >>= fun flags => dbgLocate addr flags >>= act) := by
  apply Safe.ite
  · exact dbgPutString_safe _
  apply Safe.bind (dbgFlags_safe _)
  intro flags
  apply Safe.bind (dbgLocate_safe _ _)
  intro phys
  cases phys with
  | none => exact hnone
  | some phys => exact hsome phys

theorem dbgCommandPoke_safe [EBus β] [DbgBus β] : Safe (dbgCommandPoke : DbgM β Unit) := by
  unfold dbgCommandPoke
  apply Safe.bind dbgNextToken_safe
  intro found
  apply Safe.ite
  swap
  · exact dbgPutString_safe _
  apply Safe.bind dbgToken_safe
  intro token
  apply Safe.bind dbgNextToken_safe
  intro found
  apply Safe.ite
  swap
  · exact dbgPutString_safe _
  apply Safe.bind dbgToken_safe
  intro token'
  apply located_safe _ (.pure _)
  intro phys
  apply Safe.bind
  · apply dbgPrintf_safe
    simp only [List.length_append, hex_length]
    decide
  intro _
  apply Safe.bind dbgProc_safe
  intro proc
  apply Safe.bind .get
  intro s
  apply Safe.bind (dbgSetProc_safe _)
  intro _
  apply Safe.bind (dbgSetBus_safe _)
  intro _
  exact Safe.first (dbgPutString_safe _) (dbgPutString_safe _)

theorem dbgCommandPeek_safe [EBus β] [DbgBus β] : Safe (dbgCommandPeek : DbgM β Unit) := by
  unfold dbgCommandPeek
  apply Safe.bind dbgNextToken_safe
  intro found
  apply Safe.ite
  swap
  · exact dbgPutString_safe _
  apply Safe.bind dbgToken_safe
  intro token
  apply located_safe _ (.pure _)
  intro phys
  apply Safe.bind
  · apply dbgPrintf_safe
    simp only [List.length_append, hex_length]
    decide
  intro _
  apply Safe.bind dbgProc_safe
  intro proc
  apply Safe.bind .get
  intro s
  apply Safe.bind (dbgSetProc_safe _)
  intro _
  apply Safe.bind (dbgSetBus_safe _)
  intro _
  have hword : ∀ value : Word,
      Safe (dbgPrintf (hexField 8 value.toNat ++ "\n".toList) : DbgM β Unit) := by
    intro value
    apply dbgPrintf_safe
    simp only [List.length_append, hex_length]
    decide
  split
  · exact dbgPutString_safe _
  · exact hword _
  · exact hword _

theorem DbgCommand.run_safe [EBus β] [DbgBus β] (c : DbgCommand) : Safe (c.run : DbgM β Unit) := by
  cases c with
  | help => exact dbgCommandHelp_safe
  | clear =>
      apply Safe.bind (dbgPutString_safe _)
      intro _
      exact dbgPutString_safe _
  | reg => exact dbgCommandReg_safe
  | lsic =>
      apply Safe.bind .get
      intro s
      exact dbgPrintf_safe (lsicText_fits _)
  | cr => exact dbgCommandCr_safe
  | tb =>
      apply Safe.bind dbgProc_safe
      intro proc
      apply Safe.bind (dbgPutString_safe _)
      intro _
      apply Safe.bind (dbgDumpTb_safe _ _)
      intro _
      apply Safe.bind (dbgPutString_safe _)
      intro _
      exact dbgDumpTb_safe _ _
  | pause =>
      apply Safe.bind dbgProc_safe
      intro proc
      apply Safe.ite
      · apply Safe.bind (dbgSetProc_safe _)
        intro _
        exact dbgPutString_safe _
      · exact dbgPutString_safe _
  | resume =>
      apply Safe.bind dbgProc_safe
      intro proc
      apply Safe.ite
      · exact dbgPutString_safe _
      · apply Safe.bind (dbgSetProc_safe _)
        intro _
        exact dbgPutString_safe _
  | cpu =>
      apply Safe.bind dbgNextToken_safe
      intro found
      apply Safe.ite
      · apply Safe.bind dbgToken_safe
        intro token
        apply Safe.bind .get
        intro s
        apply Safe.ite
        · exact dbgPutString_safe _
        · exact .change (fun _ => rfl) (fun _ => rfl) (fun _ => rfl)
      · exact dbgPutString_safe _
  | translate =>
      apply Safe.bind dbgNextToken_safe
      intro found
      apply Safe.ite
      · apply Safe.bind dbgToken_safe
        intro token
        apply Safe.bind (dbgFlags_safe _)
        intro flags
        apply Safe.bind (dbgTranslateAddress_safe _ _)
        intro _
        exact .pure _
      · exact dbgPutString_safe _
  | poke => exact dbgCommandPoke_safe
  | peek => exact dbgCommandPeek_safe

end

end Xremu

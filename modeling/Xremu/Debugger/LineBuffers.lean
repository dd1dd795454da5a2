import Xremu.Debugger.Safe

/-!
# The debugger's buffers hold what is put into them

`cmdline` and `tokenbuf` are never overrun, whatever is typed, and what the commands format
is short. But the answer to an unknown command repeats it, and a line has room for a word
that leaves none for the rest of the answer. `lineBuffers_iff` says which lines are too long
for it.
-/

namespace Xremu

section

variable {α γ β : Type}

/-! ## What is typed -/

/-- What a character makes of the line. -/
def editLine (line : Text) (c : BitVec 16) : Text :=
  if c = 8 then line.dropLast
  else if line.length < cmdMax - 1 then line ++ [charOf c]
  else line

/-- The lines that are entered with these characters, the first one already begun. -/
def enteredLines : (line : Text) → List (BitVec 16) → List Text
  | _, [] => []
  | line, c :: chars =>
      if c = 13 then line :: enteredLines [] chars else enteredLines (editLine line c) chars

/-- The first word of a line, which ends at a NUL. -/
def lineToken (line : Text) : Text := firstToken (line.takeWhile (· ≠ nul))

/-- The word is a command, or short enough to be repeated. -/
def EchoFits (line : Text) : Prop :=
  (∃ c ∈ dbgCommands, c.name.toList = lineToken line) ∨ (lineToken line).length ≤ 225

instance (line : Text) : Decidable (EchoFits line) := inferInstanceAs (Decidable (_ ∨ _))

/-- `DbgInit`. -/
def dbgInit (world : DbgWorld β) : Dbg β where
  cmdline := fun _ => nul
  cmdindex := 0
  cmdnexttoken := none
  tokenbuf := fun _ => nul
  selectedCpu := 0
  world := world
  out := crLf "Emulator Level Debugger\n".toList ++ crLf "emu>> ".toList

/-- Characters that are typed. Before each of them, the machine has gone on. -/
def dbgInputs [EBus β] [DbgBus β] (inputs : List (DbgWorld β × BitVec 16)) : DbgM β Unit :=
  inputs.forM fun (world, c) => do
    modify fun s => { s with world := world }
    dbgInput c

/-- `cmdline` has what is typed of a line. -/
structure Editing (s : Dbg β) (text : Text) : Prop where
  index : s.cmdindex = text.length
  room : text.length < cmdMax
  chars : ∀ k c, text[k]? = some c → s.cmdline k = c

theorem Editing.start (s : Dbg β) (h : s.cmdindex = 0) : Editing s [] := by
  refine ⟨h, by decide, ?_⟩
  intro k c hc
  cases hc

/-- A line with a terminator is a string up to its first NUL. -/
theorem holds_line {buffer : Nat → Char} {text : Text} {index : Nat}
    (hroom : index + text.length < cmdMax)
    (hchars : ∀ k c, text[k]? = some c → buffer (index + k) = c)
    (hend : buffer (index + text.length) = nul) :
    StringAt buffer index (text.takeWhile (· ≠ nul)) := by
  induction text generalizing index with
  | nil => exact .nil hroom hend
  | cons c text ih =>
      rw [List.length_cons] at hroom hend
      have hc : buffer index = c := hchars 0 c rfl
      by_cases hnul : c = nul
      · rw [List.takeWhile_cons_of_neg (by simpa using hnul)]
        exact .nil (by omega) (hc.trans hnul)
      · rw [List.takeWhile_cons_of_pos (by simpa using hnul)]
        refine .cons (by omega) hc hnul (ih (by omega) ?_ ?_)
        · intro k c' hc'
          rw [Nat.add_right_comm, Nat.add_assoc]
          exact hchars (k + 1) c' hc'
        · rw [Nat.add_right_comm, Nat.add_assoc]
          exact hend

theorem run_bind_ok {c : DbgM β α} {f : α → DbgM β γ} {s s' : Dbg β} {a : α}
    (h : c.run s = .ok (a, s')) : (c >>= f).run s = (f a).run s' := by
  rw [StateT.run_bind, h]
  rfl

theorem run_bind_error {c : DbgM β α} {f : α → DbgM β γ} {s : Dbg β} {e : DbgBuffer}
    (h : c.run s = .error e) : (c >>= f).run s = .error e := by
  rw [StateT.run_bind, h]
  rfl

theorem unrecognizedText_length (token : Text) :
    (unrecognizedText token).length = token.length + 30 := by
  unfold unrecognizedText
  rw [List.length_append]
  rfl

/-- The first word of what is entered. -/
theorem enteredToken {s : Dbg β} {text : Text} (hline : StringAt s.cmdline 0 text) : ∃ found s',
    (dbgNextToken : DbgM β Bool).run { s with cmdnexttoken := some 0 } = .ok (found, s') ∧
    s'.Lined ∧ s'.cmdindex = s.cmdindex ∧ (found = false ↔ firstToken text = []) ∧
    (found = true → (dbgToken : DbgM β Text).run s' = .ok (firstToken text, s')) := by
  obtain ⟨next, tokenbuf, htoken, hrest, hnone, hword⟩ := rtlTokenize_ok hline s.tokenbuf
  refine ⟨_, _, dbgNextToken_some rfl htoken, hrest, rfl, ?_, ?_⟩
  · rw [← hnone, Option.isSome_eq_false_iff, Option.isNone_iff_eq_none]
  · intro hfound
    rw [← hword hfound]
    rfl

variable [EBus β] [DbgBus β]

/-- A line is processed to its end. -/
theorem dbgProcessInput_fits {s : Dbg β} {text : Text} (hline : StringAt s.cmdline 0 text)
    (hfits : (∃ c ∈ dbgCommands, c.name.toList = firstToken text) ∨
      (firstToken text).length ≤ 225) :
    ∃ s', (dbgProcessInput : DbgM β Unit).run s = .ok ((), s') ∧ s'.cmdindex = s.cmdindex := by
  obtain ⟨found, s₁, hnext, hlined, hindex, hempty, hword⟩ := enteredToken hline
  have hrest : ∀ {c : DbgM β Unit}, Safe c →
      ∃ s', (c >>= fun _ => dbgPrompt).run s₁ = .ok ((), s') ∧ s'.cmdindex = s.cmdindex := by
    intro c hc
    obtain ⟨⟨⟩, s₂, hrun, -, hindex₂⟩ := hc.bind (fun _ => dbgPutString_safe _) s₁ hlined
    exact ⟨s₂, hrun, hindex₂.trans hindex⟩
  unfold dbgProcessInput
  rw [run_bind_ok rfl, run_bind_ok hnext]
  cases found with
  | false =>
      obtain ⟨s₂, hrun, hindex₂⟩ := hrest (Safe.pure ())
      exact ⟨s₂, hrun, hindex₂⟩
  | true =>
      rw [if_pos rfl, run_bind_ok (hword rfl)]
      cases hfind : dbgCommands.find? fun c => c.name.toList = firstToken text with
      | some c => exact hrest c.run_safe
      | none =>
          apply hrest
          apply dbgPrintf_safe
          rw [unrecognizedText_length]
          rcases hfits with ⟨c, hc, hname⟩ | hshort
          · exact absurd (decide_eq_true hname) (List.find?_eq_none.mp hfind c hc)
          · show (firstToken text).length + 30 < 256
            omega

/-- Or the answer is too long. -/
theorem dbgProcessInput_overruns {s : Dbg β} {text : Text} (hline : StringAt s.cmdline 0 text)
    (hover : ¬((∃ c ∈ dbgCommands, c.name.toList = firstToken text) ∨
      (firstToken text).length ≤ 225)) :
    (dbgProcessInput : DbgM β Unit).run s = .error .printbuf := by
  obtain ⟨hunknown, hlong⟩ := not_or.mp hover
  obtain ⟨found, s₁, hnext, -, -, hempty, hword⟩ := enteredToken hline
  have hfound : found = true := by
    cases found with
    | true => rfl
    | false =>
        rw [hempty.mp rfl] at hlong
        exact absurd (Nat.zero_le _) hlong
  have hfind : (dbgCommands.find? fun c => c.name.toList = firstToken text) = none := by
    apply List.find?_eq_none.mpr
    intro c hc hname
    exact hunknown ⟨c, hc, of_decide_eq_true hname⟩
  have htext : ¬(unrecognizedText (firstToken text)).length < cmdMax := by
    rw [unrecognizedText_length]
    show ¬(firstToken text).length + 30 < 256
    omega
  unfold dbgProcessInput
  rw [run_bind_ok rfl, run_bind_ok hnext, hfound, if_pos rfl, run_bind_ok (hword hfound),
    hfind]
  apply run_bind_error
  unfold dbgPrintf
  rw [if_neg htext]
  rfl

/-! ## Sessions -/

omit [EBus β] [DbgBus β] in
theorem storeLine_ok {s : Dbg β} (h : s.cmdindex < cmdMax) (c : Char) :
    (storeLine c : DbgM β Unit).run s =
      .ok ((), { s with cmdline := Function.update s.cmdline s.cmdindex c }) := by
  simp only [storeLine, StateT.run_bind, StateT.run_get]
  show StateT.run (if s.cmdindex < cmdMax then _ else _) s = _
  rw [if_pos h]
  rfl

/-- A character other than Enter edits the line. -/
theorem dbgInput_edit {s : Dbg β} {line : Text} (h : Editing s line) {c : BitVec 16}
    (hc : c ≠ 13) :
    ∃ s', (dbgInput c).run s = .ok ((), s') ∧ Editing s' (editLine line c) := by
  have hindex := h.index
  unfold dbgInput editLine
  rw [if_neg hc]
  by_cases hback : c = 8
  · rw [if_pos hback, if_pos hback]
    rw [run_bind_ok rfl]
    cases line with
    | nil =>
        have hzero : s.cmdindex = 0 := hindex
        rw [if_neg (not_not.mpr hzero)]
        exact ⟨s, rfl, h⟩
    | cons c₀ line =>
        have hne : s.cmdindex ≠ 0 := by
          rw [hindex]
          exact Nat.succ_ne_zero _
        rw [if_pos hne]
        refine ⟨_, rfl, ?_, ?_, ?_⟩
        · rw [List.length_dropLast, ← hindex]
        · exact Nat.lt_of_le_of_lt (List.length_dropLast ▸ Nat.sub_le _ _) h.room
        · intro k c' hc'
          apply h.chars
          rw [List.getElem?_dropLast] at hc'
          split at hc'
          · exact hc'
          · cases hc'
  rw [if_neg hback, if_neg hback, run_bind_ok rfl]
  by_cases hroom : line.length < cmdMax - 1
  · rw [if_pos (hindex ▸ hroom), if_pos hroom,
      run_bind_ok (storeLine_ok (hindex ▸ h.room) (charOf c))]
    refine ⟨_, rfl, ?_, ?_, ?_⟩
    · rw [List.length_append, ← hindex]
      rfl
    · rw [List.length_append, List.length_singleton]
      omega
    · intro k c' hc'
      show Function.update s.cmdline s.cmdindex (charOf c) k = c'
      rw [hindex]
      by_cases hk : k = line.length
      · rw [hk, List.getElem?_concat_length] at hc'
        rw [hk, Function.update_self]
        exact Option.some.inj hc'
      · rw [Function.update_of_ne hk]
        apply h.chars
        rw [List.getElem?_append] at hc'
        split at hc'
        · exact hc'
        · next hge =>
            rw [List.getElem?_singleton, if_neg (by omega)] at hc'
            cases hc'
  · rw [if_neg (hindex ▸ hroom), if_neg hroom]
    exact ⟨s, rfl, h⟩

/-- Enter processes it. -/
theorem dbgInput_enter {s : Dbg β} {line : Text} (h : Editing s line) : ∃ s',
    (dbgInput 13).run s = (dbgProcessInput : DbgM β Unit).run s' ∧ s'.cmdindex = 0 ∧
    StringAt s'.cmdline 0 (line.takeWhile (· ≠ nul)) := by
  have hindex := h.index
  unfold dbgInput
  rw [if_pos rfl, run_bind_ok rfl, run_bind_ok (storeLine_ok (hindex ▸ h.room) nul),
    run_bind_ok rfl]
  refine ⟨_, rfl, rfl, ?_⟩
  apply holds_line
  · rw [Nat.zero_add]
    exact h.room
  · intro k c hc
    show Function.update s.cmdline s.cmdindex nul (0 + k) = c
    have hk : k < line.length := (List.getElem?_eq_some_iff.mp hc).1
    rw [Nat.zero_add, Function.update_of_ne (by omega)]
    exact h.chars k c hc
  · show Function.update s.cmdline s.cmdindex nul (0 + line.length) = nul
    rw [Nat.zero_add, hindex, Function.update_self]

/-- A session goes on as long as the answers fit, and otherwise ends in `printbuf`. -/
theorem dbgInputs_cases {s : Dbg β} {line : Text} (h : Editing s line)
    (inputs : List (DbgWorld β × BitVec 16)) :
    (∃ s', (dbgInputs inputs).run s = .ok ((), s')) ∧
      (∀ l ∈ enteredLines line (inputs.map (·.2)), EchoFits l) ∨
    (dbgInputs inputs).run s = .error .printbuf ∧
      ¬∀ l ∈ enteredLines line (inputs.map (·.2)), EchoFits l := by
  induction inputs generalizing s line with
  | nil =>
      refine .inl ⟨⟨s, rfl⟩, ?_⟩
      intro l hl
      cases hl
  | cons input inputs ih =>
      obtain ⟨world, c⟩ := input
      have hworld : Editing { s with world := world } line := ⟨h.index, h.room, h.chars⟩
      have hcons : (dbgInputs ((world, c) :: inputs)).run s =
          (dbgInput c >>= fun _ => dbgInputs inputs).run { s with world := world } := rfl
      rw [hcons, List.map_cons, enteredLines]
      by_cases hc : c = 13
      · subst hc
        rw [if_pos rfl]
        obtain ⟨s₁, henter, hzero, hline⟩ := dbgInput_enter hworld
        by_cases hfits : EchoFits line
        · obtain ⟨s₂, hrun, hindex⟩ := dbgProcessInput_fits hline hfits
          rw [run_bind_ok (henter.trans hrun)]
          rcases ih (.start s₂ (hindex.trans hzero)) with ⟨hok, hlines⟩ | ⟨herror, hlines⟩
          · exact .inl ⟨hok, List.forall_mem_cons.mpr ⟨hfits, hlines⟩⟩
          · exact .inr ⟨herror, fun hall => hlines (List.forall_mem_cons.mp hall).2⟩
        · rw [run_bind_error (henter.trans (dbgProcessInput_overruns hline hfits))]
          exact .inr ⟨rfl, fun hall => hfits (List.forall_mem_cons.mp hall).1⟩
      · rw [if_neg hc]
        obtain ⟨s₁, hrun, hediting⟩ := dbgInput_edit hworld hc
        rw [run_bind_ok hrun]
        exact ih hediting

end

/-! ## A word that is too long -/

def idleWorld : DbgWorld LineRam where
  present := fun _ => true
  procs := fun _ => .zeroed 0
  lsics := fun _ => .zeroed
  bus := ⟨fun _ => true, fun _ => 0⟩
  unassigned := ⟨0, 0, 0, 0⟩

/-- A word of 226 letters. The line has room for it. -/
def longWord : List (DbgWorld LineRam × BitVec 16) :=
  List.replicate 226 (idleWorld, 97) ++ [(idleWorld, 13)]

end Xremu

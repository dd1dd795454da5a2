import Xremu.Cached.Build

/-!
# Instruction fetch by lines

What the cached build fetches, said about the state in which `XrDecodeInstructions`
starts. A fetch takes at most eight lines that follow each other. They are in Icache
sets of their own, so no line evicts another one of its fetch, and each is the line the
Icache had at the start, or the one RAM has (`fetchLines_eq`).
-/

namespace Xremu

/-- The line of this address that the running processor would fetch now. -/
def fetchedLine (m : Machine (XrCachedMem LineRam)) (address : Word) : Option (Nat → Byte) :=
  let c := m.mem.caches m.proc.id
  let tag := xrLineTag address.toNat
  match c.findIcLine tag with
  | some index => some (c.ic index)
  | none => if m.mem.bus.populated tag then some fun k => m.mem.bus.bytes (tag + k) else none

/-- The words of so many lines. -/
def fetchedLines (m : Machine (XrCachedMem LineRam)) : (count : Nat) → Word → Option (List Word)
  | 0, _ => some []
  | count + 1, address =>
      match fetchedLine m address, fetchedLines m count (address + 16) with
      | some line, some words => some (lineWords line ++ words)
      | _, _ => none

/-- The word at this address, out of its line. -/
def fetchedWord (m : Machine (XrCachedMem LineRam)) (address : Word) : Option Word :=
  (fetchedLine m address).map fun line => zext (fun i => line (address.toNat % 16 + i)) 4

variable {m m' : Machine (XrCachedMem LineRam)} {address : Word}

/-! ## One line -/

/-- The set of this address is as it was, and so is RAM. -/
structure SetKept (m m' : Machine (XrCachedMem LineRam)) (tag : Nat) : Prop where
  id : m'.proc.id = m.proc.id
  bus : m'.mem.bus = m.mem.bus
  ways : ∀ i ∈ xrIcWays tag,
    (m'.mem.caches m.proc.id).icFlags i = (m.mem.caches m.proc.id).icFlags i ∧
    (m'.mem.caches m.proc.id).icTags i = (m.mem.caches m.proc.id).icTags i ∧
    (m'.mem.caches m.proc.id).ic i = (m.mem.caches m.proc.id).ic i

theorem SetKept.findIcLine {tag : Nat} (h : SetKept m m' tag) :
    (m'.mem.caches m.proc.id).findIcLine tag = (m.mem.caches m.proc.id).findIcLine tag := by
  obtain ⟨hflags₀, htags₀, _⟩ := h.ways _ List.mem_cons_self
  obtain ⟨hflags₁, htags₁, _⟩ := h.ways _ (List.mem_cons_of_mem _ List.mem_cons_self)
  simp only [XrCache.findIcLine, xrIcWays, List.find?_cons, List.find?_nil, hflags₀, htags₀,
    hflags₁, htags₁]

theorem findIcLine_mem {c : XrCache} {tag index : Nat} (h : c.findIcLine tag = some index) :
    index ∈ xrIcWays tag := List.mem_of_find?_eq_some h

theorem SetKept.fetchedLine (h : SetKept m m' (xrLineTag address.toNat)) :
    fetchedLine m' address = fetchedLine m address := by
  unfold Xremu.fetchedLine
  simp only [h.id, h.findIcLine, h.bus]
  cases hfind : (m.mem.caches m.proc.id).findIcLine (xrLineTag address.toNat) with
  | none => rfl
  | some index =>
      have hic := (h.ways index (findIcLine_mem hfind)).2.2
      simp only [hic]

/-- A miss replaces a line of its own set. -/
theorem setKept_miss {other : Nat}
    (hset : other / 16 % 1024 ≠ xrLineTag address.toNat / 16 % 1024) {line : Nat → Byte}
    (h : icacheMiss address m = (some line, m')) : SetKept m m' other := by
  unfold icacheMiss at h
  extract_lets tag index m₁ reply m₂ m₃ at h
  have hne : ∀ i ∈ xrIcWays other, i ≠ index := by
    intro i hi
    have hi : i = 2 * (other / 16 % 1024) ∨ i = 2 * (other / 16 % 1024) + 1 := by
      simpa [xrIcWays] using hi
    have hindex : index = 2 * (tag / 16 % 1024) +
        (m.mem.caches m.proc.id).icReplacementIndex % 2 := rfl
    omega
  cases hr : reply.reply with
  | none =>
      simp only [hr] at h
      cases h
  | some bytes =>
      simp only [hr] at h
      obtain ⟨-, rfl⟩ := Prod.mk.inj h
      refine ⟨rfl, rfl, fun i hi => ?_⟩
      have hi := hne i hi
      simp [m₂, m₁, onIcache, icBusDone, icFill, hr, Function.update_of_ne hi]

/-- An access to the Icache has its line from where `fetchedLine` says, and leaves the
other sets alone. -/
theorem xrIcacheAccess_line (m : Machine (XrCachedMem LineRam)) (address : Word) :
    ∃ m', xrIcacheAccess address m = (fetchedLine m address, m') ∧
      ((fetchedLine m address).isSome → ∀ other,
        other / 16 % 1024 ≠ xrLineTag address.toNat / 16 % 1024 → SetKept m m' other) := by
  have htag : xrLineTag (xrLineTag address.toNat) = xrLineTag address.toNat := by
    unfold xrLineTag
    omega
  unfold xrIcacheAccess
  extract_lets c
  cases hfind : c.findIcLine (xrLineTag address.toNat) with
  | some index =>
      have hline : fetchedLine m address = some (c.ic index) := by
        have hfind' : (m.mem.caches m.proc.id).findIcLine (xrLineTag address.toNat) = some index :=
          hfind
        simp only [fetchedLine, hfind', c]
      refine ⟨m, by rw [hline], fun _ _ _ => ⟨rfl, rfl, fun _ _ => ⟨rfl, rfl, rfl⟩⟩⟩
  | none =>
      have hline : fetchedLine m address = (icacheMiss address m).1 := by
        have hfind' : (m.mem.caches m.proc.id).findIcLine (xrLineTag address.toNat) = none := hfind
        have hlook : fetchedLine m address =
            if m.mem.bus.populated (xrLineTag address.toNat) then
              some fun k => m.mem.bus.bytes (xrLineTag address.toNat + k) else none := by
          simp only [fetchedLine, hfind']
        unfold icacheMiss
        extract_lets tag index m₁ reply m₂ m₃
        have hreply : reply.reply =
            if m.mem.bus.populated tag then some fun k => m.mem.bus.bytes (tag + k) else none := by
          show (if m.mem.bus.populated (xrLineTag tag) then _ else _) = _
          rw [htag]
          rfl
        rw [hlook, ← hreply]
        cases reply.reply with
        | none => rfl
        | some bytes => rfl
      refine ⟨(icacheMiss address m).2, by rw [hline], fun hsome other hset => ?_⟩
      rw [hline] at hsome
      obtain ⟨line, hline'⟩ := Option.isSome_iff_exists.mp hsome
      exact setKept_miss hset (Prod.ext hline' rfl)

/-! ## Lines in a row -/

/-- Lines of one fetch are in different sets. -/
theorem nextLine_set {k : Nat} (hpos : 0 < k) (hk : k < 1024) (address : Word) :
    xrLineTag (address + BitVec.ofNat 32 (16 * k)).toNat / 16 % 1024 ≠
      xrLineTag address.toNat / 16 % 1024 := by
  simp only [xrLineTag, BitVec.toNat_add, BitVec.toNat_ofNat]
  have hlt := address.isLt
  omega

theorem nextLine_succ (address : Word) (k : Nat) :
    address + BitVec.ofNat 32 (16 * (k + 1)) = address + 16 + BitVec.ofNat 32 (16 * k) := by
  have hstep : BitVec.ofNat 32 (16 * (k + 1)) = 16 + BitVec.ofNat 32 (16 * k) := by
    rw [Nat.mul_add, Nat.add_comm, BitVec.ofNat_add]
    rfl
  rw [hstep, BitVec.add_assoc]

theorem fetchedLines_congr {count : Nat}
    (h : ∀ k, k < count → fetchedLine m' (address + BitVec.ofNat 32 (16 * k)) =
      fetchedLine m (address + BitVec.ofNat 32 (16 * k))) :
    fetchedLines m' count address = fetchedLines m count address := by
  induction count generalizing address with
  | zero => rfl
  | succ count ih =>
      have hfirst := h 0 (by omega)
      have hrest : fetchedLines m' count (address + 16) = fetchedLines m count (address + 16) := by
        apply ih
        intro k hk
        have hnext := h (k + 1) (by omega)
        rwa [nextLine_succ] at hnext
      simp only [Nat.mul_zero, BitVec.add_zero] at hfirst
      simp only [fetchedLines, hfirst, hrest]

/-- What a fetch of lines comes to is known from the state it starts in. -/
theorem fetchLines_eq {count : Nat} (hcount : count ≤ 1024) (address : Word)
    (m : Machine (XrCachedMem LineRam)) :
    (fetchLines count address m).1 = fetchedLines m count address := by
  induction count generalizing address m with
  | zero => rfl
  | succ count ih =>
      obtain ⟨m₁, hrun, hkept⟩ := xrIcacheAccess_line m address
      rw [fetchLines, fetchedLines, hrun]
      cases hline : fetchedLine m address with
      | none => rfl
      | some line =>
          -- The rest sees the Icache as it was, but for the set of this line.
          have hrest : fetchedLines m₁ count (address + 16) =
              fetchedLines m count (address + 16) := by
            apply fetchedLines_congr
            intro k hk
            rw [← nextLine_succ]
            refine (hkept (by rw [hline]; rfl) _ ?_).fetchedLine
            exact nextLine_set (by omega) (by omega) address
          have htail := ih (by omega) (address + 16) m₁
          rw [hrest] at htail
          cases hlines : fetchLines count (address + 16) m₁ with
          | mk words m₂ =>
              rw [hlines] at htail
              rw [← htail]
              simp only [hlines]
              cases words with
              | none => rfl
              | some words => rfl

theorem fetchedLines_none {count : Nat} :
    fetchedLines m count address = none ↔
      ∃ k, k < count ∧ fetchedLine m (address + BitVec.ofNat 32 (16 * k)) = none := by
  induction count generalizing address with
  | zero =>
      constructor
      · intro h
        cases h
      · rintro ⟨k, hk, _⟩
        omega
  | succ count ih =>
      have hfirst : address + BitVec.ofNat 32 (16 * 0) = address := by simp
      rw [fetchedLines]
      constructor
      · intro h
        cases hline : fetchedLine m address with
        | none => exact ⟨0, by omega, by rw [hfirst, hline]⟩
        | some line =>
            cases hrest : fetchedLines m count (address + 16) with
            | none =>
                obtain ⟨k, hk, hnone⟩ := ih.mp hrest
                exact ⟨k + 1, by omega, by rw [nextLine_succ, hnone]⟩
            | some words =>
                rw [hline, hrest] at h
                cases h
      · rintro ⟨k, hk, hnone⟩
        cases k with
        | zero =>
            rw [hfirst] at hnone
            rw [hnone]
        | succ k =>
            rw [nextLine_succ] at hnone
            rw [ih.mpr ⟨k, by omega, hnone⟩]
            cases fetchedLine m address with
            | none => rfl
            | some line => rfl

/-! ## The words -/

theorem lineWords_length (line : Nat → Byte) : (lineWords line).length = 4 := by
  simp [lineWords]

theorem lineWords_get (line : Nat → Byte) {j : Nat} (hj : j < 4) :
    (lineWords line)[j]? = some (zext (fun i => line (4 * j + i)) 4) := by
  simp [lineWords, hj]

/-- The words of the line at a multiple of 16. -/
theorem fetchedWord_line (h : address.toNat % 16 = 0) {j : Nat} (hj : j < 4) :
    fetchedWord m (address + BitVec.ofNat 32 (4 * j)) =
      (fetchedLine m address).map fun line => zext (fun i => line (4 * j + i)) 4 := by
  have hlt := address.isLt
  have hsum : (address + BitVec.ofNat 32 (4 * j)).toNat = address.toNat + 4 * j := by
    simp only [BitVec.toNat_add, BitVec.toNat_ofNat]
    omega
  have htag : xrLineTag (address + BitVec.ofNat 32 (4 * j)).toNat = xrLineTag address.toNat := by
    unfold xrLineTag
    omega
  have hoff : (address + BitVec.ofNat 32 (4 * j)).toNat % 16 = 4 * j := by omega
  simp only [fetchedWord, fetchedLine, htag, hoff]

theorem fetchedLines_length {count : Nat} {words : List Word}
    (h : fetchedLines m count address = some words) : words.length = 4 * count := by
  induction count generalizing address words with
  | zero =>
      cases h
      rfl
  | succ count ih =>
      rw [fetchedLines] at h
      cases hline : fetchedLine m address with
      | none =>
          rw [hline] at h
          cases h
      | some line =>
          cases hrest : fetchedLines m count (address + 16) with
          | none =>
              rw [hline, hrest] at h
              cases h
          | some rest =>
              rw [hline, hrest] at h
              cases h
              rw [List.length_append, lineWords_length, ih hrest]
              omega

theorem fetchedLines_word {count : Nat} {words : List Word}
    (h : fetchedLines m count address = some words) (halign : address.toNat % 16 = 0) {j : Nat}
    (hj : j < 4 * count) : words[j]? = fetchedWord m (address + BitVec.ofNat 32 (4 * j)) := by
  induction count generalizing address words j with
  | zero => omega
  | succ count ih =>
      rw [fetchedLines] at h
      cases hline : fetchedLine m address with
      | none =>
          rw [hline] at h
          cases h
      | some line =>
          cases hrest : fetchedLines m count (address + 16) with
          | none =>
              rw [hline, hrest] at h
              cases h
          | some rest =>
              rw [hline, hrest] at h
              cases h
              have hlen := lineWords_length line
              by_cases hfirst : j < 4
              · rw [List.getElem?_append_left (by omega), lineWords_get line hfirst,
                  fetchedWord_line halign hfirst, hline]
                rfl
              · obtain ⟨i, rfl⟩ := Nat.exists_eq_add_of_le (Nat.le_of_not_lt hfirst)
                have hnext : (address + 16).toNat % 16 = 0 := by
                  rw [BitVec.toNat_add]
                  show (address.toNat + 16) % 2 ^ 32 % 16 = 0
                  omega
                have hplace : address + BitVec.ofNat 32 (4 * (4 + i)) =
                    address + 16 + BitVec.ofNat 32 (4 * i) := by
                  have hstep : BitVec.ofNat 32 (4 * (4 + i)) = 16 + BitVec.ofNat 32 (4 * i) := by
                    rw [Nat.mul_add, BitVec.ofNat_add]
                    rfl
                  rw [hstep, BitVec.add_assoc]
                rw [List.getElem?_append_right (by omega), hlen, Nat.add_sub_cancel_left, hplace]
                exact ih hrest hnext (by omega)

/-! ## The fetch -/

/-- How many lines the fetch at this program counter takes. -/
def fetchedLineCount (pc : Word) : Nat := (xrInstCount pc (pc &&& 0xFFFFFFF0) + 3) / 4

theorem line_toNat (pc : Word) : (pc &&& 0xFFFFFFF0).toNat = pc.toNat / 16 * 16 :=
  toNat_and_highMask mask_line pc

theorem xrInstCount_line (pc : Word) :
    xrInstCount pc (pc &&& 0xFFFFFFF0) = min 32 ((4096 - pc.toNat % 4096 / 16 * 16) / 4) := by
  have hline := line_toNat pc
  rw [xrInstCount_eq (by omega), hline]
  omega

theorem fetchedLineCount_bounds (pc : Word) : 0 < fetchedLineCount pc ∧ fetchedLineCount pc ≤ 8 := by
  unfold fetchedLineCount
  rw [xrInstCount_line]
  omega

/-- The fetch after the translation comes to what `fetchedLines` has. -/
theorem fetchIcache_eq (m : Machine (XrCachedMem LineRam)) (pc fetchpc : Word) (flags : BitVec 64) :
    (fetchIcache m pc fetchpc flags).1 =
      (fetchedLines m (fetchedLineCount pc) fetchpc).map fun ir =>
        ⟨(ir.take (xrInstCount pc (pc &&& 0xFFFFFFF0))).drop
          ((pc - (pc &&& 0xFFFFFFF0)) >>> 2).toNat, flags⟩ := by
  have hbounds := fetchedLineCount_bounds pc
  rw [← fetchLines_eq (by omega) fetchpc m]
  unfold fetchIcache fetchedLineCount
  extract_lets line instcount
  cases fetchLines ((instcount + 3) / 4) fetchpc m with
  | mk words m₁ =>
      cases words with
      | none => rfl
      | some words => rfl

/-- Every word that was fetched is the one at its place. -/
theorem fetchIcache_words {pc fetchpc : Word} {flags : BitVec 64} {f : XrFetched}
    (hpc : pc.toNat % 4 = 0) (hfetch : fetchpc.toNat % 16 = 0)
    (h : (fetchIcache m pc fetchpc flags).1 = some f) {k : Nat} {w : Word}
    (hw : f.words[k]? = some w) :
    fetchedWord m (fetchpc + BitVec.ofNat 32 (pc.toNat % 16 + 4 * k)) = some w := by
  have hline := line_toNat pc
  have hoff : ((pc - (pc &&& 0xFFFFFFF0)) >>> 2).toNat = pc.toNat % 16 / 4 := by
    rw [BitVec.toNat_ushiftRight, BitVec.toNat_sub, hline, Nat.shiftRight_eq_div_pow]
    have hlt := pc.isLt
    omega
  rw [fetchIcache_eq, Option.map_eq_some_iff] at h
  obtain ⟨ir, hir, rfl⟩ := h
  rw [List.getElem?_drop, List.getElem?_take, hoff] at hw
  -- Words past `instcount` are not taken.
  by_cases hk : pc.toNat % 16 / 4 + k < xrInstCount pc (pc &&& 0xFFFFFFF0)
  · rw [if_pos hk] at hw
    have hcount : pc.toNat % 16 / 4 + k < 4 * fetchedLineCount pc := by
      unfold fetchedLineCount
      omega
    rw [fetchedLines_word hir hfetch hcount] at hw
    have hplace : 4 * (pc.toNat % 16 / 4 + k) = pc.toNat % 16 + 4 * k := by omega
    rwa [hplace] at hw
  · rw [if_neg hk] at hw
    cases hw

end Xremu

/-
**Pages that are erased and programmed.**

Programming a byte of flash clears bits of it; only erasing, which works on whole pages, sets them
again. A range that is rewritten from front to back, a page being erased where its first byte is
reached, ends as `rewritten`: what stands in a page that begins inside the range is replaced, the
rest of such a page is left erased, and a page that begins before the range keeps its old bits.

* `rewritten_step` — one write that stays inside a page, with the erasure before it.
* `rewritten_append` — rewriting a range in two steps is rewriting it at once.
* `rewritten_shift`, `rewritten_outside` — the part of an address space between two page
  boundaries, on its own.
* `rewriteChunks_inside` — writes of any lengths one behind the other, each of which erases the page
  it begins, if it begins one: what they leave of a byte depends on whether a write begins its page.
-/

import Upkit.Lib.Bytes

namespace Pages

open Bytes

/-- The address space after programming: a bit is cleared where `data` has it cleared. -/
def program (space : Nat → UInt8) (offset : Nat) (data : List UInt8) : Nat → UInt8 :=
  writeRange space offset
    (List.zipWith (· &&& ·) (readRange space offset data.length) data)

/-- The address space after erasing the page at `address`. -/
def erase (page : Nat) (space : Nat → UInt8) (address : Nat) : Nat → UInt8 :=
  writeRange space address (List.replicate page 255)

/-- Where the page of an address begins. -/
def pageStart (page address : Nat) : Nat := address / page * page

/-- The address space after rewriting a range from front to back. -/
def rewritten (page : Nat) (space : Nat → UInt8) (offset : Nat) (data : List UInt8) :
    Nat → UInt8 := fun address =>
  if offset ≤ address ∧ address < offset + data.length then
    if offset ≤ pageStart page address then data.getD (address - offset) 0
    else space address &&& data.getD (address - offset) 0
  else if offset ≤ pageStart page address ∧ pageStart page address < offset + data.length then 255
  else space address

/-! ### Where a page begins -/

section PageStart

variable {page : Nat}

theorem pageStart_le (page address : Nat) : pageStart page address ≤ address :=
  Nat.div_mul_le_self address page

theorem pageStart_dvd (page address : Nat) : page ∣ pageStart page address :=
  Dvd.intro_left _ rfl

theorem lt_pageStart_add (positive : 0 < page) (address : Nat) :
    address < pageStart page address + page :=
  Nat.lt_div_mul_add positive

/-- A page boundary that is not behind an address is not behind its page either. -/
theorem boundary_le_pageStart {boundary address : Nat} (aligned : page ∣ boundary)
    (below : boundary ≤ address) : boundary ≤ pageStart page address := by
  obtain ⟨index, rfl⟩ := aligned
  unfold pageStart
  rcases Nat.eq_zero_or_pos page with zero | positive
  · rw [zero, Nat.zero_mul]
    exact Nat.zero_le _
  · rw [Nat.mul_comm]
    refine Nat.mul_le_mul_right page ?_
    rw [Nat.le_div_iff_mul_le positive, Nat.mul_comm]
    exact below

/-- Two page boundaries are a page apart. -/
theorem boundary_add_le {first second : Nat} (aligned : page ∣ first) (aligned' : page ∣ second)
    (before : first < second) : first + page ≤ second := by
  have apart : page ∣ second - first := Nat.dvd_sub aligned' aligned
  have far := Nat.le_of_dvd (by omega) apart
  omega

/-- A block that begins at a multiple of its length stays in one page, if whole blocks make up a
page. -/
theorem block_inPage {block offset : Nat} (positive : 0 < page) (whole : block ∣ page)
    (aligned : block ∣ offset) : offset % page + block ≤ page :=
  boundary_add_le ((Nat.dvd_mod_iff whole).mpr aligned) whole (Nat.mod_lt offset positive)

theorem pageStart_add {base : Nat} (aligned : page ∣ base) (address : Nat) :
    pageStart page (base + address) = base + pageStart page address := by
  obtain ⟨index, rfl⟩ := aligned
  unfold pageStart
  rcases Nat.eq_zero_or_pos page with zero | positive
  · rw [zero, Nat.zero_mul, Nat.mul_zero, Nat.mul_zero]
  · rw [Nat.mul_add_div positive, Nat.add_mul, Nat.mul_comm index page]

end PageStart

/-! ### Programming and erasing, byte by byte -/

theorem program_inside (space : Nat → UInt8) {offset address : Nat} {data : List UInt8}
    (low : offset ≤ address) (high : address < offset + data.length) :
    program space offset data address = space address &&& data.getD (address - offset) 0 := by
  have width : (List.zipWith (· &&& ·) (readRange space offset data.length) data).length =
      data.length := by
    rw [List.length_zipWith, readRange_length, Nat.min_self]
  have index : address - offset < data.length := by omega
  have old : (readRange space offset data.length).getD (address - offset) 0 = space address := by
    rw [readRange_getD space offset data.length _ index]
    congr 1
    omega
  rw [program, writeRange_inside space low (by omega), ← old,
    List.getD_eq_getElem _ _ (by omega), List.getD_eq_getElem _ _ (by simpa using index),
    List.getD_eq_getElem _ _ index, List.getElem_zipWith]

theorem program_outside (space : Nat → UInt8) {offset address : Nat} {data : List UInt8}
    (out : address < offset ∨ offset + data.length ≤ address) :
    program space offset data address = space address := by
  refine writeRange_outside space ?_
  rw [List.length_zipWith, readRange_length, Nat.min_self]
  exact out

/-- What has been erased is programmed as it is written. -/
theorem program_blank (space : Nat → UInt8) {offset : Nat} {data : List UInt8}
    (blank : ∀ index < data.length, space (offset + index) = 255) :
    program space offset data = writeRange space offset data := by
  funext address
  by_cases inside : offset ≤ address ∧ address < offset + data.length
  · have erased : space address = 255 := by
      have at_index := blank (address - offset) (by omega)
      rwa [Nat.add_sub_cancel' inside.1] at at_index
    rw [program_inside space inside.1 inside.2, writeRange_inside space inside.1 inside.2, erased]
    exact UInt8.and_comm _ _ |>.trans UInt8.and_neg_one
  · rw [program_outside space (by omega), writeRange_outside space (by omega)]

theorem erase_inside {page : Nat} (space : Nat → UInt8) {offset address : Nat}
    (low : offset ≤ address) (high : address < offset + page) :
    erase page space offset address = 255 := by
  rw [erase, writeRange_inside space low (by simpa using high),
    List.getD_eq_getElem _ _ (by rw [List.length_replicate]; omega), List.getElem_replicate]

theorem erase_outside {page : Nat} (space : Nat → UInt8) {offset address : Nat}
    (out : address < offset ∨ offset + page ≤ address) :
    erase page space offset address = space address :=
  writeRange_outside space (by simpa using out)

/-! ### Rewriting -/

section Rewritten

variable {page : Nat} (space : Nat → UInt8)

theorem rewritten_begun {offset address : Nat} {data : List UInt8}
    (low : offset ≤ pageStart page address) (high : address < offset + data.length) :
    rewritten page space offset data address = data.getD (address - offset) 0 := by
  have start := pageStart_le page address
  rw [rewritten, if_pos ⟨by omega, high⟩, if_pos low]

theorem rewritten_tail {offset address : Nat} {data : List UInt8}
    (low : offset ≤ address) (before : pageStart page address < offset)
    (high : address < offset + data.length) :
    rewritten page space offset data address =
      space address &&& data.getD (address - offset) 0 := by
  rw [rewritten, if_pos ⟨low, high⟩, if_neg (by omega)]

theorem rewritten_erased {offset address : Nat} {data : List UInt8}
    (low : offset ≤ pageStart page address)
    (begun : pageStart page address < offset + data.length)
    (behind : offset + data.length ≤ address) :
    rewritten page space offset data address = 255 := by
  rw [rewritten, if_neg (by omega), if_pos ⟨low, begun⟩]

theorem rewritten_kept {offset address : Nat} {data : List UInt8}
    (out : address < offset ∨ offset + data.length ≤ pageStart page address ∨
      offset + data.length ≤ address ∧ pageStart page address < offset) :
    rewritten page space offset data address = space address := by
  have start := pageStart_le page address
  rw [rewritten, if_neg (by omega), if_neg (by omega)]

@[simp] theorem rewritten_nil (offset : Nat) : rewritten page space offset [] = space := by
  funext address
  refine rewritten_kept space ?_
  rw [List.length_nil]
  omega

/-- What is rewritten at an address depends on the old byte there only. -/
theorem rewritten_congr {other : Nat → UInt8} {address : Nat} (same : space address = other address)
    (offset : Nat) (data : List UInt8) :
    rewritten page space offset data address = rewritten page other offset data address := by
  rw [rewritten, rewritten, same]

/-- **One write inside a page**, with the erasure when it begins the page. -/
theorem rewritten_step (positive : 0 < page) {offset : Nat} {data : List UInt8}
    (some : 0 < data.length) (inPage : offset % page + data.length ≤ page) :
    program (if offset % page = 0 then erase page space offset else space) offset data =
      rewritten page space offset data := by
  funext address
  have start := pageStart_le page address
  have room := lt_pageStart_add positive address
  by_cases first : offset % page = 0
  · have aligned : page ∣ offset := Nat.dvd_of_mod_eq_zero first
    rw [if_pos first]
    by_cases before : address < offset
    · rw [program_outside _ (Or.inl before), erase_outside _ (Or.inl before),
        rewritten_kept _ (Or.inl before)]
    · have begun := boundary_le_pageStart aligned (Nat.le_of_not_lt before)
      by_cases inside : address < offset + data.length
      · rw [program_inside _ (by omega) inside, erase_inside _ (by omega) (by omega),
          rewritten_begun _ begun inside]
        exact UInt8.neg_one_and
      · rw [program_outside _ (by omega)]
        by_cases own : address < offset + page
        · have same : ¬ offset < pageStart page address := fun later => by
            have far := boundary_add_le aligned (pageStart_dvd page address) later
            omega
          rw [erase_inside _ (by omega) own, rewritten_erased _ begun (by omega) (by omega)]
        · have next : page ∣ offset + page := Nat.dvd_add aligned (Nat.dvd_refl page)
          have far := boundary_le_pageStart next (Nat.le_of_not_lt own)
          rw [erase_outside _ (by omega), rewritten_kept _ (by omega)]
  · -- The write begins inside a page, so no other page begins in it.
    have whole : pageStart page offset + offset % page = offset := Nat.div_add_mod' offset page
    rw [if_neg first]
    have apart : pageStart page address < offset ∨
        offset + data.length ≤ pageStart page address := by
      by_cases later : pageStart page offset < pageStart page address
      · have far := boundary_add_le (pageStart_dvd page offset) (pageStart_dvd page address) later
        omega
      · omega
    by_cases inside : offset ≤ address ∧ address < offset + data.length
    · rw [program_inside _ inside.1 inside.2, rewritten_tail _ inside.1 (by omega) inside.2]
    · rw [program_outside _ (by omega), rewritten_kept _ (by omega)]

/-- **Rewriting in two steps**: the second finds the rest of the last page erased. -/
theorem rewritten_append (offset : Nat) (first second : List UInt8) :
    rewritten page (rewritten page space offset first) (offset + first.length) second =
      rewritten page space offset (first ++ second) := by
  funext address
  have start := pageStart_le page address
  have total : (first ++ second).length = first.length + second.length := List.length_append
  by_cases inFirst : address < offset + first.length
  · rw [rewritten_kept _ (Or.inl inFirst)]
    by_cases before : address < offset
    · rw [rewritten_kept _ (Or.inl before), rewritten_kept _ (Or.inl before)]
    · have byte : (first ++ second).getD (address - offset) 0 = first.getD (address - offset) 0 :=
        List.getD_append _ _ _ _ (by omega)
      by_cases begun : offset ≤ pageStart page address
      · rw [rewritten_begun _ begun inFirst, rewritten_begun _ begun (by omega), byte]
      · rw [rewritten_tail _ (by omega) (by omega) inFirst,
          rewritten_tail _ (by omega) (by omega) (by omega), byte]
  · by_cases inSecond : address < offset + first.length + second.length
    · have byte : (first ++ second).getD (address - offset) 0 =
          second.getD (address - (offset + first.length)) 0 := by
        rw [List.getD_append_right _ _ _ _ (by omega), Nat.sub_sub]
      by_cases begun : offset ≤ pageStart page address
      · rw [rewritten_begun space begun (by omega), byte]
        by_cases later : offset + first.length ≤ pageStart page address
        · rw [rewritten_begun _ later inSecond]
        · rw [rewritten_tail _ (by omega) (by omega) inSecond,
            rewritten_erased _ begun (by omega) (by omega)]
          exact UInt8.neg_one_and
      · rw [rewritten_tail _ (by omega) (by omega) inSecond, rewritten_kept space (by omega),
          rewritten_tail space (by omega) (by omega) (by omega), byte]
    · by_cases later : offset + first.length ≤ pageStart page address ∧
          pageStart page address < offset + first.length + second.length
      · rw [rewritten_erased _ later.1 later.2 (by omega),
          rewritten_erased space (by omega) (by omega) (by omega)]
      · rw [rewritten_kept _ (by omega)]
        by_cases early : offset ≤ pageStart page address ∧
            pageStart page address < offset + first.length
        · rw [rewritten_erased space early.1 early.2 (by omega),
            rewritten_erased space early.1 (by omega) (by omega)]
        · rw [rewritten_kept space (by omega), rewritten_kept space (by omega)]

/-- Rewriting behind a page boundary, counted from there. -/
theorem rewritten_shift {base : Nat} (aligned : page ∣ base) (offset : Nat) (data : List UInt8)
    (address : Nat) :
    rewritten page space (base + offset) data (base + address) =
      rewritten page (fun index => space (base + index)) offset data address := by
  simp only [rewritten, pageStart_add aligned, Nat.add_sub_add_left, Nat.add_le_add_iff_left,
    Nat.add_assoc, Nat.add_lt_add_iff_left]

/-- Rewriting between two page boundaries changes nothing outside. -/
theorem rewritten_outside {low high offset : Nat} {data : List UInt8} {address : Nat}
    (aligned : page ∣ high) (below : low ≤ offset) (above : offset + data.length ≤ high)
    (out : address < low ∨ high ≤ address) :
    rewritten page space offset data address = space address := by
  refine rewritten_kept space ?_
  rcases out with before | behind
  · exact Or.inl (by omega)
  · exact Or.inr (Or.inl (above.trans (boundary_le_pageStart aligned behind)))

end Rewritten

/-! ### Writes of any lengths -/

/-- One write of any length, with the erasure when it begins at a page. -/
def rewriteChunk (page : Nat) (space : Nat → UInt8) (offset : Nat) (data : List UInt8) :
    Nat → UInt8 :=
  program (if offset % page = 0 then erase page space offset else space) offset data

/-- Writes one behind the other. -/
def rewriteChunks (page : Nat) : (offset : Nat) → List (List UInt8) → (Nat → UInt8) → (Nat → UInt8)
  | _, [], space => space
  | offset, chunk :: chunks, space =>
      rewriteChunks page (offset + chunk.length) chunks (rewriteChunk page space offset chunk)

/-- Where writes one behind the other begin. -/
def starts : (offset : Nat) → List (List UInt8) → List Nat
  | _, [] => []
  | offset, chunk :: chunks => offset :: starts (offset + chunk.length) chunks

theorem le_of_mem_starts {offset start : Nat} {chunks : List (List UInt8)}
    (member : start ∈ starts offset chunks) : offset ≤ start := by
  induction chunks generalizing offset with
  | nil => exact absurd member List.not_mem_nil
  | cons chunk chunks ih =>
      rcases List.mem_cons.mp member with rfl | later
      · exact le_rfl
      · exact (Nat.le_add_right _ _).trans (ih later)

/-- Where writes begin, counted from elsewhere. -/
theorem mem_starts_add {base offset start : Nat} (chunks : List (List UInt8)) :
    base + start ∈ starts (base + offset) chunks ↔ start ∈ starts offset chunks := by
  induction chunks generalizing offset with
  | nil => exact ⟨fun member => absurd member List.not_mem_nil,
      fun member => absurd member List.not_mem_nil⟩
  | cons chunk chunks ih =>
      rw [starts, starts, List.mem_cons, List.mem_cons, Nat.add_assoc, ih, Nat.add_right_inj]

section Chunks

variable {page : Nat} (space : Nat → UInt8)

theorem rewriteChunk_before {offset address : Nat} {data : List UInt8} (before : address < offset) :
    rewriteChunk page space offset data address = space address := by
  rw [rewriteChunk, program_outside _ (Or.inl before)]
  split
  · exact erase_outside space (Or.inl before)
  · rfl

theorem rewriteChunks_before {offset address : Nat} (chunks : List (List UInt8))
    (before : address < offset) : rewriteChunks page offset chunks space address = space address := by
  induction chunks generalizing offset space with
  | nil => rfl
  | cons chunk chunks ih =>
      rw [rewriteChunks, ih _ (by omega), rewriteChunk_before space before]

variable (positive : 0 < page)

include positive

/-- The page of an address begins at an offset. -/
theorem pageStart_eq_iff {offset address : Nat} (low : offset ≤ address) :
    pageStart page address = offset ↔ offset % page = 0 ∧ address < offset + page := by
  constructor
  · rintro rfl
    exact ⟨Nat.mul_mod_left _ _, lt_pageStart_add positive address⟩
  · rintro ⟨first, own⟩
    have aligned : page ∣ offset := Nat.dvd_of_mod_eq_zero first
    have begun := boundary_le_pageStart aligned low
    have start := pageStart_le page address
    by_contra other
    have far := boundary_add_le aligned (pageStart_dvd page address) (by omega)
    omega

/-- The space a write programs. -/
theorem erased_apply {offset address : Nat} (low : offset ≤ address) :
    (if offset % page = 0 then erase page space offset else space) address =
      if pageStart page address = offset then 255 else space address := by
  have begins := pageStart_eq_iff positive low
  by_cases first : offset % page = 0
  · rw [if_pos first]
    by_cases own : address < offset + page
    · rw [if_pos (begins.mpr ⟨first, own⟩), erase_inside space low own]
    · rw [if_neg fun same => own (begins.mp same).2,
        erase_outside space (Or.inr (not_lt.mp own))]
  · rw [if_neg first, if_neg fun same => first (begins.mp same).1]

theorem rewriteChunk_inside {offset address : Nat} {data : List UInt8} (low : offset ≤ address)
    (high : address < offset + data.length) :
    rewriteChunk page space offset data address =
      if pageStart page address = offset then data.getD (address - offset) 0
      else space address &&& data.getD (address - offset) 0 := by
  rw [rewriteChunk, program_inside _ low high, erased_apply space positive low]
  split
  · exact UInt8.neg_one_and
  · rfl

theorem rewriteChunk_behind {offset address : Nat} {data : List UInt8}
    (behind : offset + data.length ≤ address) :
    rewriteChunk page space offset data address =
      if pageStart page address = offset then 255 else space address := by
  rw [rewriteChunk, program_outside _ (Or.inr behind), erased_apply space positive (by omega)]

/-- **What writes leave of a byte**: the byte written, if one of them begins its page, else that
byte with the bits of the old one cleared. -/
theorem rewriteChunks_inside {offset address : Nat} (chunks : List (List UInt8))
    (low : offset ≤ address) (high : address < offset + chunks.flatten.length) :
    rewriteChunks page offset chunks space address =
      if pageStart page address ∈ starts offset chunks
      then chunks.flatten.getD (address - offset) 0
      else space address &&& chunks.flatten.getD (address - offset) 0 := by
  induction chunks generalizing offset space with
  | nil =>
      rw [List.flatten_nil, List.length_nil] at high
      omega
  | cons chunk chunks ih =>
      have start := pageStart_le page address
      rw [rewriteChunks, List.flatten_cons, starts]
      rw [List.flatten_cons, List.length_append] at high
      by_cases own : address < offset + chunk.length
      · -- The later writes begin behind the address, so none of them begins its page.
        have first : pageStart page address ∈ offset :: starts (offset + chunk.length) chunks ↔
            pageStart page address = offset := by
          refine ⟨fun member => ?_, fun same => by rw [same]; exact List.mem_cons_self⟩
          rcases List.mem_cons.mp member with same | later
          · exact same
          · have far := le_of_mem_starts later
            omega
        have byte : (chunk ++ chunks.flatten).getD (address - offset) 0 =
            chunk.getD (address - offset) 0 := List.getD_append _ _ _ _ (by omega)
        rw [rewriteChunks_before _ chunks own, rewriteChunk_inside space positive low own, byte]
        simp only [first]
      · have byte : (chunk ++ chunks.flatten).getD (address - offset) 0 =
            chunks.flatten.getD (address - (offset + chunk.length)) 0 := by
          rw [List.getD_append_right _ _ _ _ (by omega), Nat.sub_sub]
        rw [ih _ (by omega) (by omega), rewriteChunk_behind space positive (by omega), byte]
        by_cases begun : pageStart page address = offset
        · rw [if_pos (show pageStart page address ∈ offset :: _ by
            rw [begun]
            exact List.mem_cons_self), if_pos begun]
          split
          · rfl
          · exact UInt8.neg_one_and
        · rw [if_neg begun]
          have later : pageStart page address ∈ offset :: starts (offset + chunk.length) chunks ↔
              pageStart page address ∈ starts (offset + chunk.length) chunks :=
            ⟨fun member => (List.mem_cons.mp member).resolve_left begun, List.mem_cons_of_mem _⟩
          simp only [later]

end Chunks

end Pages

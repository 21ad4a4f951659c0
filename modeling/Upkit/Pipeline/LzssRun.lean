/-
**Runs of the LZSS stage.**

A bit is shifted into the variable of the place where the device waits; when the field is full, the
device acts on it (`lzssDone`). So a run over bits is a run over fields, and what it hands on does
not depend on how the bits were split into calls.

* `lzssBits_short`, `lzssBits_field` — bits that do not fill a field, and bits that do.
* `lzssBits_tracks` — a stage that is tracked by what it is given sees what the stage `collect` sees.
* `feed_lzss` — a session in any chunks is one run over all bits.
* `lzssCallIndices_lt` — the window is only used inside its first half.
-/

import Upkit.Pipeline.Lzss
import Upkit.Pipeline.Feeding
import Upkit.Lib.Bits

namespace Upkit

open Bits

theorem byteBits_eq (byte : UInt8) : byteBits byte = toBits 8 byte.toNat := rfl

theorem flatMap_byteBits_length (bytes : List UInt8) :
    (bytes.flatMap byteBits).length = 8 * bytes.length := by
  induction bytes with
  | nil => rfl
  | cons byte rest ih =>
      rw [List.flatMap_cons, List.length_append, ih, byteBits_eq, toBits_length, List.length_cons]
      omega

/-! ### Fields -/

/-- How many bits `getbit` reads at a place. -/
def LzssLabel.width : LzssLabel → Nat
  | .flag => 1
  | .literal => 8
  | .offset => 10
  | .length => 4

/-- The variable that a place shifts its bits into. -/
def LzssCtx.value (label : LzssLabel) (ctx : LzssCtx) : Nat :=
  match label with
  | .flag => ctx.c
  | .literal => ctx.c
  | .offset => ctx.i
  | .length => ctx.j

/-- That variable and the number of bits, set. -/
def LzssCtx.withField (label : LzssLabel) (ctx : LzssCtx) (value s : Nat) : LzssCtx :=
  match label with
  | .flag => { ctx with c := value, s := s }
  | .literal => { ctx with c := value, s := s }
  | .offset => { ctx with i := value, s := s }
  | .length => { ctx with j := value, s := s }

/-- Shift a bit into the variable of a place. -/
def LzssCtx.push (label : LzssLabel) (ctx : LzssCtx) (bit : Bool) : LzssCtx :=
  ctx.withField label (2 * ctx.value label + bit.toNat) (ctx.s + 1)

@[simp] theorem LzssCtx.withField_s (label : LzssLabel) (ctx : LzssCtx) (value s : Nat) :
    (ctx.withField label value s).s = s := by
  cases label with
  | flag => rfl
  | literal => rfl
  | offset => rfl
  | length => rfl

@[simp] theorem LzssCtx.withField_value (label : LzssLabel) (ctx : LzssCtx) (value s : Nat) :
    (ctx.withField label value s).value label = value := by
  cases label with
  | flag => rfl
  | literal => rfl
  | offset => rfl
  | length => rfl

@[simp] theorem LzssCtx.withField_withField (label : LzssLabel) (ctx : LzssCtx)
    (value s value' s' : Nat) :
    (ctx.withField label value s).withField label value' s' = ctx.withField label value' s' := by
  cases label with
  | flag => rfl
  | literal => rfl
  | offset => rfl
  | length => rfl

theorem LzssCtx.withField_self (label : LzssLabel) (ctx : LzssCtx) :
    ctx.withField label (ctx.value label) ctx.s = ctx := by
  cases label with
  | flag => rfl
  | literal => rfl
  | offset => rfl
  | length => rfl

/-- Bits shifted in one after the other. -/
theorem LzssCtx.push_all (label : LzssLabel) (ctx : LzssCtx) (bits : List Bool) :
    bits.foldl (LzssCtx.push label) ctx =
      ctx.withField label (ofBits (ctx.value label) bits) (ctx.s + bits.length) := by
  induction bits generalizing ctx with
  | nil => exact (ctx.withField_self label).symm
  | cons bit bits ih =>
      rw [List.foldl_cons, ih, LzssCtx.push, withField_withField, withField_value, withField_s,
        ofBits_cons, List.length_cons, Nat.add_comm bits.length, ← Nat.add_assoc]

section Run

variable {ν : Type} (next : Stage ν)

/-- What the device does with a full field. -/
def lzssDone (label : LzssLabel) (ctx : LzssCtx) (below : ν) : Option LzssLabel × LzssCtx × ν :=
  match label with
  | .flag =>
      if ctx.c ≠ 0 then (some .literal, { ctx with c := 0, s := 0 }, below)
      else (some .offset, { ctx with i := 0, s := 0 }, below)
  | .literal =>
      let (ret, below) := next [UInt8.ofNat ctx.c] below
      if ret < 0 then (none, ctx, below)
      else (some .flag, { ctx.store (UInt8.ofNat ctx.c) with c := 0, s := 0 }, below)
  | .offset => (some .length, { ctx with j := 0, s := 0 }, below)
  | .length =>
      let (ctx, below) := lzssCopy next (ctx.j + 2) 0 (ctx, below)
      (some .flag, { ctx with c := 0, s := 0 }, below)

/-- **One bit** is shifted in, and a field that is full is acted on. -/
theorem lzssBit_eq (bit : Bool) (label : LzssLabel) (ctx : LzssCtx) (below : ν) :
    lzssBit next bit label ctx below =
      if ctx.s + 1 < label.width then (some label, ctx.push label bit, below)
      else lzssDone next label (ctx.push label bit) below := by
  cases label with
  | flag => rfl
  | literal => rfl
  | offset => rfl
  | length => rfl

theorem lzssBits_append (first second : List Bool) (label : LzssLabel) (ctx : LzssCtx) (below : ν) :
    lzssBits next (first ++ second) label ctx below =
      match lzssBits next first label ctx below with
      | (none, ctx, below) => (none, ctx, below)
      | (some label, ctx, below) => lzssBits next second label ctx below := by
  induction first generalizing label ctx below with
  | nil => rfl
  | cons bit first ih =>
      rw [List.cons_append, lzssBits, lzssBits]
      generalize lzssBit next bit label ctx below = step
      obtain ⟨label', ctx', below'⟩ := step
      cases label' with
      | none => rfl
      | some label' => exact ih label' ctx' below'

/-- Bits that do not fill the field are shifted in. -/
theorem lzssBits_short {bits : List Bool} {label : LzssLabel} {ctx : LzssCtx} (below : ν)
    (short : ctx.s + bits.length < label.width) :
    lzssBits next bits label ctx below = (some label, bits.foldl (LzssCtx.push label) ctx, below) := by
  induction bits generalizing ctx with
  | nil => rfl
  | cons bit bits ih =>
      rw [List.length_cons] at short
      rw [lzssBits, lzssBit_eq, if_pos (by omega)]
      exact ih (by rw [LzssCtx.push, LzssCtx.withField_s]; omega)

/-- **Bits that fill the field** are acted on, and the run goes on with the rest. -/
theorem lzssBits_field {bits : List Bool} (rest : List Bool) {label : LzssLabel} {ctx : LzssCtx}
    (below : ν) (positive : bits ≠ []) (full : ctx.s + bits.length = label.width) :
    lzssBits next (bits ++ rest) label ctx below =
      match lzssDone next label (bits.foldl (LzssCtx.push label) ctx) below with
      | (none, ctx, below) => (none, ctx, below)
      | (some label, ctx, below) => lzssBits next rest label ctx below := by
  induction bits generalizing ctx with
  | nil => exact absurd rfl positive
  | cons bit bits ih =>
      rw [List.length_cons] at full
      rw [List.cons_append, lzssBits, lzssBit_eq]
      by_cases last : bits = []
      · rw [last, List.length_nil] at full
        rw [if_neg (by omega), last]
        rfl
      · have some := List.length_pos_iff.mpr last
        rw [if_pos (by omega)]
        exact ih last (by rw [LzssCtx.push, LzssCtx.withField_s]; omega)

end Run

/-! ### What is handed on -/

/-- A stage that takes everything and keeps it. -/
def collect : Stage (List UInt8) := fun buf seen => (buf.length, seen ++ buf)

section Tracks

variable {ν : Type} {next : Stage ν} {state : List UInt8 → ν} {allowed : List UInt8 → Prop}

theorem lzssCopy_collect (count k : Nat) (ctx : LzssCtx) (seen : List UInt8) :
    seen <+: (lzssCopy collect count k (ctx, seen)).2 := by
  induction count generalizing k ctx seen with
  | zero => exact List.prefix_rfl
  | succ count ih => exact (List.prefix_append _ _).trans (ih _ _ _)

theorem lzssDone_collect (label : LzssLabel) (ctx : LzssCtx) (seen : List UInt8) :
    ∃ label', (lzssDone collect label ctx seen).1 = some label' ∧
      seen <+: (lzssDone collect label ctx seen).2.2 := by
  cases label with
  | flag =>
      simp only [lzssDone]
      split
      · exact ⟨_, rfl, List.prefix_rfl⟩
      · exact ⟨_, rfl, List.prefix_rfl⟩
  | literal => exact ⟨_, rfl, List.prefix_append _ _⟩
  | offset => exact ⟨_, rfl, List.prefix_rfl⟩
  | length =>
      simp only [lzssDone]
      exact ⟨_, rfl, lzssCopy_collect _ _ _ _⟩

/-- A run over a stage that takes everything is never refused, and it only adds to what is kept. -/
theorem lzssBits_collect (bits : List Bool) (label : LzssLabel) (ctx : LzssCtx)
    (seen : List UInt8) :
    ∃ label' ctx' seen', lzssBits collect bits label ctx seen = (some label', ctx', seen') ∧
      seen <+: seen' := by
  induction bits generalizing label ctx seen with
  | nil => exact ⟨label, ctx, seen, rfl, List.prefix_rfl⟩
  | cons bit bits ih =>
      rw [lzssBits, lzssBit_eq]
      by_cases short : ctx.s + 1 < label.width
      · rw [if_pos short]
        exact ih label _ seen
      · rw [if_neg short]
        obtain ⟨label', goes, grows⟩ := lzssDone_collect label (ctx.push label bit) seen
        generalize lzssDone collect label (ctx.push label bit) seen = done at goes grows
        obtain ⟨_, ctx', seen'⟩ := done
        simp only at goes grows
        subst goes
        obtain ⟨label'', ctx'', seen'', runs, more⟩ := ih label' ctx' seen'
        exact ⟨label'', ctx'', seen'', runs, grows.trans more⟩

variable (tracks : Tracks next state allowed)

include tracks

theorem lzssCopy_tracks (count k : Nat) (ctx : LzssCtx) (seen : List UInt8)
    (ok : allowed (lzssCopy collect count k (ctx, seen)).2) :
    lzssCopy next count k (ctx, state seen) =
      ((lzssCopy collect count k (ctx, seen)).1, state (lzssCopy collect count k (ctx, seen)).2) := by
  induction count generalizing k ctx seen with
  | zero => rfl
  | succ count ih =>
      rw [lzssCopy] at ok ⊢
      have before := tracks.prefix_allowed (lzssCopy_collect _ _ _ _) ok
      simp only [tracks.after before]
      exact ih _ _ _ ok

theorem lzssDone_tracks (label : LzssLabel) (ctx : LzssCtx) (seen : List UInt8)
    (ok : allowed (lzssDone collect label ctx seen).2.2) :
    lzssDone next label ctx (state seen) =
      ((lzssDone collect label ctx seen).1, (lzssDone collect label ctx seen).2.1,
        state (lzssDone collect label ctx seen).2.2) := by
  cases label with
  | flag =>
      simp only [lzssDone]
      split
      · rfl
      · rfl
  | literal =>
      have ok : allowed (seen ++ [UInt8.ofNat ctx.c]) := ok
      have taken := tracks.takes ok
      simp only [lzssDone]
      rw [if_neg (not_lt.mpr taken), tracks.after ok]
      rfl
  | offset => rfl
  | length =>
      simp only [lzssDone] at ok ⊢
      rw [lzssCopy_tracks tracks _ _ _ _ ok]

/-- **A stage that is tracked** sees what the stage that takes everything sees. -/
theorem lzssBits_tracks (bits : List Bool) (label : LzssLabel) (ctx : LzssCtx) (seen : List UInt8)
    (ok : allowed (lzssBits collect bits label ctx seen).2.2) :
    lzssBits next bits label ctx (state seen) =
      ((lzssBits collect bits label ctx seen).1, (lzssBits collect bits label ctx seen).2.1,
        state (lzssBits collect bits label ctx seen).2.2) := by
  induction bits generalizing label ctx seen with
  | nil => rfl
  | cons bit bits ih =>
      rw [lzssBits, lzssBit_eq] at ok ⊢
      rw [lzssBits, lzssBit_eq]
      by_cases short : ctx.s + 1 < label.width
      · rw [if_pos short] at ok ⊢
        rw [if_pos short]
        exact ih label _ seen ok
      · rw [if_neg short] at ok ⊢
        rw [if_neg short]
        obtain ⟨label', goes, _⟩ := lzssDone_collect label (ctx.push label bit) seen
        have same := lzssDone_tracks tracks label (ctx.push label bit) seen
        generalize lzssDone collect label (ctx.push label bit) seen = done at ok goes same
        obtain ⟨_, ctx', seen'⟩ := done
        simp only at goes ok same
        subst goes
        have ok : allowed (lzssBits collect bits label' ctx' seen').2.2 := ok
        obtain ⟨_, _, _, runs, grows⟩ := lzssBits_collect bits label' ctx' seen'
        rw [same (tracks.prefix_allowed grows (by rw [runs] at ok; exact ok))]
        exact ih label' ctx' seen' ok

end Tracks

/-! ### Codes -/

section Codes

/-- A context that waits for the flag of the next code. -/
def LzssCtx.AtFlag (ctx : LzssCtx) : Prop := ctx.c = 0 ∧ ctx.s = 0

variable {ctx : LzssCtx} (start : ctx.AtFlag) (seen : List UInt8)

include start

omit seen in
theorem LzssCtx.AtFlag.same : ({ ctx with c := 0, s := 0 } : LzssCtx) = ctx := by
  obtain ⟨noBits, none⟩ := start
  cases ctx
  simp only at noBits none
  rw [noBits, none]

/-- The flag of a literal. -/
theorem lzssBits_one (rest : List Bool) :
    lzssBits collect (true :: rest) .flag ctx seen = lzssBits collect rest .literal ctx seen := by
  have same : LzssCtx.push .flag ctx true = { ctx with c := 1, s := 1 } := by
    simp only [LzssCtx.push, LzssCtx.withField, LzssCtx.value, start.1, start.2]
    rfl
  rw [lzssBits, lzssBit_eq, if_neg (by rw [start.2]; decide), same]
  simp only [lzssDone, ne_eq, one_ne_zero, not_false_eq_true, if_true, start.same]

/-- The flag of a match. -/
theorem lzssBits_zero (rest : List Bool) :
    lzssBits collect (false :: rest) .flag ctx seen =
      lzssBits collect rest .offset { ctx with i := 0 } seen := by
  have same : LzssCtx.push .flag ctx false = { ctx with c := 0, s := 1 } := by
    simp only [LzssCtx.push, LzssCtx.withField, LzssCtx.value, start.1, start.2]
    rfl
  have kept : ({ ctx with i := 0, c := 0, s := 0 } : LzssCtx) = { ctx with i := 0 } :=
    congrArg (fun ctx : LzssCtx => { ctx with i := 0 }) start.same
  rw [lzssBits, lzssBit_eq, if_neg (by rw [start.2]; decide), same]
  simp only [lzssDone, ne_eq, not_true_eq_false, if_false, kept]

/-- **A literal** is handed on and stored. -/
theorem lzssBits_literal {bits : List Bool} (rest : List Bool) (width : bits.length = 8) :
    lzssBits collect (true :: (bits ++ rest)) .flag ctx seen =
      lzssBits collect rest .flag (ctx.store (UInt8.ofNat (ofBits 0 bits)))
        (seen ++ [UInt8.ofNat (ofBits 0 bits)]) := by
  have some : bits ≠ [] := List.length_pos_iff.mp (by omega)
  have value : ctx.value .literal = 0 := start.1
  have stored : ({ ({ ctx with c := ofBits 0 bits, s := 0 + bits.length } : LzssCtx).store
      (UInt8.ofNat (ofBits 0 bits)) with c := 0, s := 0 } : LzssCtx) =
        ctx.store (UInt8.ofNat (ofBits 0 bits)) := by
    simp only [LzssCtx.store]
    rw [start.1, start.2]
  rw [lzssBits_one start, lzssBits_field collect rest seen some (by rw [start.2, width]; rfl),
    LzssCtx.push_all, value, start.2]
  exact congrArg (fun ctx => lzssBits collect rest .flag ctx _) stored

/-- **A match** is copied. -/
theorem lzssBits_match {offset length : List Bool} (rest : List Bool)
    (offsetWidth : offset.length = 10) (lengthWidth : length.length = 4) :
    lzssBits collect (false :: (offset ++ (length ++ rest))) .flag ctx seen =
      let copied := lzssCopy collect (ofBits 0 length + 2) 0
        ({ ctx with i := ofBits 0 offset, j := ofBits 0 length, s := 4 }, seen)
      lzssBits collect rest .flag { copied.1 with c := 0, s := 0 } copied.2 := by
  have some : offset ≠ [] := List.length_pos_iff.mp (by omega)
  have some' : length ≠ [] := List.length_pos_iff.mp (by omega)
  have full : ({ ctx with i := 0 } : LzssCtx).s + offset.length = LzssLabel.width .offset := by
    rw [offsetWidth]
    exact congrArg (· + 10) start.2
  rw [lzssBits_zero start, lzssBits_field collect _ seen some full, LzssCtx.push_all]
  simp only [lzssDone, LzssCtx.withField, LzssCtx.value]
  rw [lzssBits_field collect rest seen some' (by rw [lengthWidth]; rfl), LzssCtx.push_all]
  simp only [lzssDone, LzssCtx.withField, LzssCtx.value, lengthWidth]

/-- **A code that is cut off** hands nothing on. -/
theorem lzssBits_cutOff {bits : List Bool}
    (short : bits = [] ∨ (∃ rest, bits = true :: rest ∧ rest.length < 8) ∨
      ∃ rest, bits = false :: rest ∧ rest.length < 14) :
    (lzssBits collect bits .flag ctx seen).2.2 = seen := by
  rcases short with rfl | ⟨rest, rfl, few⟩ | ⟨rest, rfl, few⟩
  · rfl
  · rw [lzssBits_one start, lzssBits_short collect seen (by
      rw [start.2]
      exact (Nat.zero_add _).trans_lt few)]
  · rw [lzssBits_zero start]
    by_cases inOffset : rest.length < 10
    · rw [lzssBits_short collect seen (by
        show ctx.s + rest.length < 10
        rw [start.2]
        omega)]
    · have cut := List.take_append_drop 10 rest
      have width : (rest.take 10).length = 10 := List.length_take_of_le (by omega)
      have full : ({ ctx with i := 0 } : LzssCtx).s + (rest.take 10).length =
          LzssLabel.width .offset := by
        rw [width]
        exact congrArg (· + 10) start.2
      rw [← cut, lzssBits_field collect _ seen (List.length_pos_iff.mp (by omega)) full,
        LzssCtx.push_all]
      simp only [lzssDone, LzssCtx.withField]
      rw [lzssBits_short collect seen (by
        show 0 + (rest.drop 10).length < 4
        rw [List.length_drop]
        omega)]

end Codes

/-! ### The window -/

/-- The window indices of a copy. -/
def lzssCopyIndices : (count k : Nat) → LzssCtx → List Nat
  | 0, _, _ => []
  | count + 1, k, ctx =>
      (ctx.i + k) % lzssN :: ctx.r ::
        lzssCopyIndices count (k + 1) (ctx.store (ctx.buffer ((ctx.i + k) % lzssN)))

/-- The window indices that one bit makes the device use. -/
def lzssBitIndices (bit : Bool) (label : LzssLabel) (ctx : LzssCtx) : List Nat :=
  if ctx.s + 1 < label.width then []
  else
    match label with
    | .flag => []
    | .literal => [ctx.r]
    | .offset => []
    | .length =>
        lzssCopyIndices ((ctx.push .length bit).j + 2) 0 (ctx.push .length bit)

/-- The window indices of a run. -/
def lzssIndices : List Bool → LzssLabel → LzssCtx → List Nat
  | [], _, _ => []
  | bit :: bits, label, ctx =>
      lzssBitIndices bit label ctx ++
        match lzssBit collect bit label ctx [] with
        | (none, _, _) => []
        | (some label, ctx, _) => lzssIndices bits label ctx

/-- The window indices of a call of `lzss_pipeline`. -/
def lzssCallIndices (buf : List UInt8) (ctx : LzssCtx) : List Nat :=
  match ctx.state with
  | none => List.range (lzssN - lzssF) ++ lzssIndices (buf.flatMap byteBits) .flag ctx.begin
  | some label => lzssIndices (buf.flatMap byteBits) label ctx

theorem LzssCtx.store_r (ctx : LzssCtx) (byte : UInt8) : (ctx.store byte).r < lzssN :=
  Nat.mod_lt _ (by decide)

theorem lzssCopyIndices_lt (count k : Nat) {ctx : LzssCtx} (inside : ctx.r < lzssN) :
    ∀ index ∈ lzssCopyIndices count k ctx, index < lzssN := by
  induction count generalizing k ctx with
  | zero => exact fun _ member => absurd member List.not_mem_nil
  | succ count ih =>
      intro index member
      rcases List.mem_cons.mp member with rfl | member
      · exact Nat.mod_lt _ (by decide)
      · rcases List.mem_cons.mp member with rfl | member
        · exact inside
        · exact ih (k + 1) (ctx.store_r _) index member

theorem lzssCopy_r {ν : Type} (next : Stage ν) (count k : Nat) {ctx : LzssCtx} (below : ν)
    (inside : ctx.r < lzssN) : (lzssCopy next count k (ctx, below)).1.r < lzssN := by
  induction count generalizing k ctx below with
  | zero => exact inside
  | succ count ih => exact ih (k + 1) _ (ctx.store_r _)

theorem LzssCtx.push_r (label : LzssLabel) (ctx : LzssCtx) (bit : Bool) :
    (ctx.push label bit).r = ctx.r := by
  cases label with
  | flag => rfl
  | literal => rfl
  | offset => rfl
  | length => rfl

/-- One bit keeps the position in the ring. -/
theorem lzssBit_r {ν : Type} (next : Stage ν) (bit : Bool) (label : LzssLabel) {ctx : LzssCtx}
    (below : ν) (inside : ctx.r < lzssN) : (lzssBit next bit label ctx below).2.1.r < lzssN := by
  rw [← ctx.push_r label bit] at inside
  rw [lzssBit_eq]
  split
  · exact inside
  · cases label with
    | flag =>
        simp only [lzssDone]
        split
        · exact inside
        · exact inside
    | literal =>
        simp only [lzssDone]
        split
        · exact inside
        · exact Nat.mod_lt _ (by decide)
    | offset => exact inside
    | length =>
        simp only [lzssDone]
        exact lzssCopy_r next _ _ below inside

theorem lzssBits_r {ν : Type} (next : Stage ν) (bits : List Bool) (label : LzssLabel)
    {ctx : LzssCtx} (below : ν) (inside : ctx.r < lzssN) :
    (lzssBits next bits label ctx below).2.1.r < lzssN := by
  induction bits generalizing label ctx below with
  | nil => exact inside
  | cons bit bits ih =>
      have kept := lzssBit_r next bit label below inside
      rw [lzssBits]
      generalize lzssBit next bit label ctx below = step at kept
      obtain ⟨label', ctx', below'⟩ := step
      cases label' with
      | none => exact kept
      | some label' => exact ih label' below' kept

/-- **A run uses the window inside.** -/
theorem lzssIndices_lt (bits : List Bool) (label : LzssLabel) {ctx : LzssCtx}
    (inside : ctx.r < lzssN) : ∀ index ∈ lzssIndices bits label ctx, index < lzssN := by
  induction bits generalizing label ctx with
  | nil => exact fun _ member => absurd member List.not_mem_nil
  | cons bit bits ih =>
      intro index member
      rcases List.mem_append.mp member with now | later
      · unfold lzssBitIndices at now
        split at now
        · exact absurd now List.not_mem_nil
        · cases label with
          | flag => exact absurd now List.not_mem_nil
          | literal => exact List.mem_singleton.mp now ▸ inside
          | offset => exact absurd now List.not_mem_nil
          | length => exact lzssCopyIndices_lt _ _ (by rwa [ctx.push_r]) index now
      · have kept := lzssBit_r collect bit label [] inside
        generalize lzssBit collect bit label ctx [] = step at kept later
        obtain ⟨label', ctx', seen'⟩ := step
        cases label' with
        | none => exact absurd later List.not_mem_nil
        | some label' => exact ih label' kept index later

/-- A context that a call can meet. -/
def LzssCtx.Ready (ctx : LzssCtx) : Prop := ctx.state = none ∨ ctx.r < lzssN

theorem lzssPipeline_ready {ν : Type} (next : Stage ν) (buf : List UInt8) {ctx : LzssCtx}
    (below : ν) (ready : ctx.Ready) : (lzssPipeline next buf (ctx, below)).2.1.Ready := by
  have blank : ctx.begin.r < lzssN := show lzssN - lzssF < lzssN by decide
  simp only [lzssPipeline]
  cases waits : ctx.state with
  | none =>
      have kept := lzssBits_r next (buf.flatMap byteBits) .flag below blank
      generalize lzssBits next (buf.flatMap byteBits) .flag ctx.begin below = run at kept
      obtain ⟨label', ctx', below'⟩ := run
      cases label' with
      | none => exact Or.inr kept
      | some label' => exact Or.inr kept
  | some label =>
      have inside : ctx.r < lzssN := ready.resolve_left (by rw [waits]; exact Option.some_ne_none _)
      have kept := lzssBits_r next (buf.flatMap byteBits) label below inside
      simp only
      generalize lzssBits next (buf.flatMap byteBits) label ctx below = run at kept
      obtain ⟨label', ctx', below'⟩ := run
      cases label' with
      | none => exact Or.inr kept
      | some label' => exact Or.inr kept

theorem feed_ready {ν : Type} (next : Stage ν) (chunks : List (List UInt8)) {ctx : LzssCtx}
    (below : ν) (ready : ctx.Ready) : (feed (lzssPipeline next) chunks (ctx, below)).2.1.Ready := by
  induction chunks generalizing ctx below with
  | nil => exact ready
  | cons chunk chunks ih => exact ih _ (lzssPipeline_ready next chunk below ready)

/-- **A call uses the window inside its first half.** -/
theorem lzssCallIndices_lt (buf : List UInt8) {ctx : LzssCtx} (ready : ctx.Ready) :
    ∀ index ∈ lzssCallIndices buf ctx, index < lzssN := by
  have blank : ctx.begin.r < lzssN := show lzssN - lzssF < lzssN by decide
  intro index member
  unfold lzssCallIndices at member
  cases waits : ctx.state with
  | none =>
      rw [waits] at member
      rcases List.mem_append.mp member with filled | used
      · have below := List.mem_range.mp filled
        unfold lzssN lzssF at *
        omega
      · exact lzssIndices_lt _ _ blank index used
  | some label =>
      rw [waits] at member
      exact lzssIndices_lt _ _ (ready.resolve_left (by rw [waits]; exact Option.some_ne_none _)) index member

/-! ### Sessions -/

section Sessions

variable {ν : Type} (next : Stage ν)

theorem lzssCopy_state (count k : Nat) (ctx : LzssCtx) (below : ν) (waits : Option LzssLabel) :
    lzssCopy next count k ({ ctx with state := waits }, below) =
      ({ (lzssCopy next count k (ctx, below)).1 with state := waits },
        (lzssCopy next count k (ctx, below)).2) := by
  induction count generalizing k ctx below with
  | zero => rfl
  | succ count ih =>
      rw [lzssCopy, lzssCopy]
      exact ih _ (ctx.store _) _

theorem lzssDone_state (label : LzssLabel) (ctx : LzssCtx) (below : ν) (waits : Option LzssLabel) :
    lzssDone next label { ctx with state := waits } below =
      ((lzssDone next label ctx below).1,
        { (lzssDone next label ctx below).2.1 with state := waits },
        (lzssDone next label ctx below).2.2) := by
  cases label with
  | flag =>
      simp only [lzssDone]
      split
      · rfl
      · rfl
  | literal =>
      simp only [lzssDone]
      split
      · rfl
      · rfl
  | offset => rfl
  | length =>
      simp only [lzssDone]
      rw [lzssCopy_state]

theorem LzssCtx.push_state (label : LzssLabel) (ctx : LzssCtx) (bit : Bool)
    (waits : Option LzssLabel) : LzssCtx.push label { ctx with state := waits } bit =
      { ctx.push label bit with state := waits } := by
  cases label with
  | flag => rfl
  | literal => rfl
  | offset => rfl
  | length => rfl

/-- Where the device last waited does not matter to a run. -/
theorem lzssBits_state (bits : List Bool) (label : LzssLabel) (ctx : LzssCtx) (below : ν)
    (waits : Option LzssLabel) :
    lzssBits next bits label { ctx with state := waits } below =
      ((lzssBits next bits label ctx below).1,
        { (lzssBits next bits label ctx below).2.1 with state := waits },
        (lzssBits next bits label ctx below).2.2) := by
  induction bits generalizing label ctx below with
  | nil => rfl
  | cons bit bits ih =>
      rw [lzssBits, lzssBits, lzssBit_eq, lzssBit_eq, LzssCtx.push_state]
      by_cases short : ctx.s + 1 < label.width
      · rw [if_pos short, if_pos short]
        exact ih label _ below
      · rw [if_neg short, if_neg short, lzssDone_state]
        generalize lzssDone next label (ctx.push label bit) below = done
        obtain ⟨label', ctx', below'⟩ := done
        cases label' with
        | none => rfl
        | some label' => exact ih label' ctx' below'

variable {next} {state : List UInt8 → ν} {allowed : List UInt8 → Prop}
  (tracks : Tracks next state allowed)

include tracks

/-- One call that is not refused. -/
theorem lzssPipeline_tracks (chunk : List UInt8) {label : LzssLabel} {ctx : LzssCtx}
    (seen : List UInt8) (waits : ctx.state = some label)
    (ok : allowed (lzssBits collect (chunk.flatMap byteBits) label ctx seen).2.2) :
    lzssPipeline next chunk (ctx, state seen) =
      ((chunk.length : Int),
        { (lzssBits collect (chunk.flatMap byteBits) label ctx seen).2.1 with
          state := (lzssBits collect (chunk.flatMap byteBits) label ctx seen).1 },
        state (lzssBits collect (chunk.flatMap byteBits) label ctx seen).2.2) := by
  simp only [lzssPipeline, waits]
  rw [lzssBits_tracks tracks _ _ _ _ ok]
  obtain ⟨label', ctx', seen', runs, _⟩ :=
    lzssBits_collect (chunk.flatMap byteBits) label ctx seen
  rw [runs]

/-- The first call begins with a blank window. -/
theorem lzssPipeline_begins (chunk : List UInt8) (ctx : LzssCtx) (seen : List UInt8)
    (ok : allowed (lzssBits collect (chunk.flatMap byteBits) .flag ctx.begin seen).2.2) :
    lzssPipeline next chunk (pipelineLzssInit ctx, state seen) =
      lzssPipeline next chunk ({ ctx.begin with state := some .flag }, state seen) := by
  have blank : LzssCtx.begin (pipelineLzssInit ctx) = { ctx.begin with state := none } := rfl
  simp only [lzssPipeline, pipelineLzssInit] at blank ⊢
  obtain ⟨label', ctx', seen', runs, _⟩ :=
    lzssBits_collect (chunk.flatMap byteBits) .flag ctx.begin seen
  have same := lzssBits_tracks tracks _ _ _ _ ok
  have fromNone := lzssBits_state next (chunk.flatMap byteBits) .flag ctx.begin (state seen) none
  have fromFlag := lzssBits_state next (chunk.flatMap byteBits) .flag ctx.begin (state seen)
    (some .flag)
  rw [same, runs] at fromNone fromFlag
  simp only [blank, fromNone, fromFlag]

/-- **A session in chunks** is one run over the bits of all chunks. -/
theorem feed_lzss (chunks : List (List UInt8)) (label : LzssLabel) (ctx : LzssCtx)
    (seen : List UInt8) (waits : ctx.state = some label)
    (ok : allowed (lzssBits collect (chunks.flatten.flatMap byteBits) label ctx seen).2.2) :
    feed (lzssPipeline next) chunks (ctx, state seen) =
      (chunks.map fun chunk => (chunk.length : Int),
        { (lzssBits collect (chunks.flatten.flatMap byteBits) label ctx seen).2.1 with
          state := (lzssBits collect (chunks.flatten.flatMap byteBits) label ctx seen).1 },
        state (lzssBits collect (chunks.flatten.flatMap byteBits) label ctx seen).2.2) := by
  induction chunks generalizing label ctx seen with
  | nil =>
      rw [feed_nil, List.flatten_nil, List.flatMap_nil, lzssBits, ← waits]
      rfl
  | cons chunk chunks ih =>
      have bits : (chunk :: chunks).flatten.flatMap byteBits =
          chunk.flatMap byteBits ++ chunks.flatten.flatMap byteBits := by
        rw [List.flatten_cons, List.flatMap_append]
      obtain ⟨label', ctx', seen', runs, _⟩ :=
        lzssBits_collect (chunk.flatMap byteBits) label ctx seen
      have whole : lzssBits collect ((chunk :: chunks).flatten.flatMap byteBits) label ctx seen =
          lzssBits collect (chunks.flatten.flatMap byteBits) label' ctx' seen' := by
        rw [bits, lzssBits_append, runs]
      obtain ⟨label'', ctx'', seen'', rest, grows⟩ :=
        lzssBits_collect (chunks.flatten.flatMap byteBits) label' ctx' seen'
      rw [whole] at ok ⊢
      have before : allowed seen' := tracks.prefix_allowed grows (by rw [rest] at ok; exact ok)
      have call := lzssPipeline_tracks tracks chunk seen waits (by rw [runs]; exact before)
      rw [runs] at call
      rw [feed_cons, call]
      have later := ih label' { ctx' with state := some label' } seen' rfl
        (by rw [lzssBits_state]; exact ok)
      rw [later, lzssBits_state]
      rfl

/-- **A session from the beginning**, whatever an earlier one has left behind. -/
theorem feed_lzss_begins (chunks : List (List UInt8)) (ctx : LzssCtx) (seen : List UInt8)
    (ok : allowed (lzssBits collect (chunks.flatten.flatMap byteBits) .flag ctx.begin seen).2.2) :
    (feed (lzssPipeline next) chunks (pipelineLzssInit ctx, state seen)).1 =
        chunks.map (fun chunk => (chunk.length : Int)) ∧
      (feed (lzssPipeline next) chunks (pipelineLzssInit ctx, state seen)).2.2 =
        state (lzssBits collect (chunks.flatten.flatMap byteBits) .flag ctx.begin seen).2.2 := by
  cases chunks with
  | nil => exact ⟨rfl, rfl⟩
  | cons chunk chunks =>
      have session := feed_lzss tracks (chunk :: chunks) .flag { ctx.begin with state := some .flag }
        seen rfl (by rw [lzssBits_state]; exact ok)
      rw [lzssBits_state] at session
      obtain ⟨label', ctx', seen', runs, _⟩ :=
        lzssBits_collect (chunk.flatMap byteBits) .flag ctx.begin seen
      have first : allowed (lzssBits collect (chunk.flatMap byteBits) .flag ctx.begin seen).2.2 := by
        obtain ⟨_, _, _, rest, grows⟩ :=
          lzssBits_collect (chunks.flatten.flatMap byteBits) label' ctx' seen'
        rw [List.flatten_cons, List.flatMap_append, lzssBits_append, runs] at ok
        simp only [rest] at ok
        rw [runs]
        exact tracks.prefix_allowed grows ok
      rw [feed_cons, lzssPipeline_begins tracks chunk ctx seen first, ← feed_cons, session]
      exact ⟨rfl, rfl⟩

end Sessions

end Upkit

/-
**The sorting of the suffixes.**

`qsufsort` sorts the suffixes of the old image: first by their first byte, then in rounds by twice
as many bytes as in the round before. `V` has the group of a suffix, and in `I` the suffixes of a
group stand next to each other; `split` refines a group by the groups that the suffixes `h` bytes
further on are in. `I` and `V` come from `malloc`, and may hold anything.

* `splitFew_splits`, `split_splits` — `split` ends, and refines a group: the suffixes that stay
  together have twice as many bytes.
* `Parting` — the three parts of a stretch while `split` makes them. The parts are as long as the
  keys were counted, so no exchange leaves its part.
-/

import Mathlib.Data.List.Count
import Upkit.Lib.Groups

namespace Upkit

open Set Groups

/-! ### The tool -/

/-- `tmp=I[i];I[i]=I[j];I[j]=tmp`. -/
def exchange (I : Int → Int) (i j : Int) : Int → Int :=
  Function.update (Function.update I i (I j)) j (I i)

/-- The loop of `split` on a few suffixes that gathers at `k` those with the least group:
`for(i=1;k+i<start+len;i++)`. -/
def gatherLoop (V : Int → Int) (h k stop : Int) :
    (count : Nat) → (i j x : Int) → (I : Int → Int) → Int × (Int → Int)
  | 0, _, j, _, I => (j, I)
  | count + 1, i, j, x, I =>
      if k + i < stop then
        let y := V (I (k + i) + h)
        let j := if y < x then 0 else j
        let x := if y < x then y else x
        if y = x then gatherLoop V h k stop count (i + 1) (j + 1) x (exchange I (k + j) (k + i))
        else gatherLoop V h k stop count (i + 1) j x I
      else (j, I)

/-- `for(i=0;i<count;i++) V[I[lo+i]]=value`. -/
def labelLoop (I : Int → Int) (lo value : Int) : (count : Nat) → (V : Int → Int) → Int → Int
  | 0, V => V
  | count + 1, V => Function.update (labelLoop I lo value count V) (I (lo + count)) value

/-- `split` on a few suffixes: `for(k=start;k<start+len;k+=j)`. -/
def splitFew (h stop : Int) :
    (fuel : Nat) → (k : Int) → (I V : Int → Int) → Option ((Int → Int) × (Int → Int))
  | 0, _, _, _ => none
  | fuel + 1, k, I, V =>
      if k < stop then
        let (j, I) := gatherLoop V h k stop (stop - k).toNat 1 1 (V (I k + h)) I
        let V := labelLoop I k (k + j - 1) j.toNat V
        let I := if j = 1 then Function.update I k (-1) else I
        splitFew h stop fuel (k + j) I V
      else some (I, V)

/-- The loop of `split` that counts the suffixes before `x` and those at it. -/
def countLoop (I V : Int → Int) (h x start : Int) : (count : Nat) → Int × Int
  | 0 => (0, 0)
  | count + 1 =>
      let (jj, kk) := countLoop I V h x start count
      let y := V (I (start + count) + h)
      (if y < x then jj + 1 else jj, if y = x then kk + 1 else kk)

/-- `while(i<jj)`: what does not belong before `jj` goes to where it belongs. -/
def lessLoop (V : Int → Int) (h x jj kk : Int) :
    (fuel : Nat) → (i j k : Int) → (I : Int → Int) → Option (Int × Int × (Int → Int))
  | 0, _, _, _, _ => none
  | fuel + 1, i, j, k, I =>
      if i < jj then
        let y := V (I i + h)
        if y < x then lessLoop V h x jj kk fuel (i + 1) j k I
        else if y = x then lessLoop V h x jj kk fuel i (j + 1) k (exchange I i (jj + j))
        else lessLoop V h x jj kk fuel i j (k + 1) (exchange I i (kk + k))
      else some (j, k, I)

/-- `while(jj+j<kk)`. -/
def equalLoop (V : Int → Int) (h x jj kk : Int) :
    (fuel : Nat) → (j k : Int) → (I : Int → Int) → Option (Int → Int)
  | 0, _, _, _ => none
  | fuel + 1, j, k, I =>
      if jj + j < kk then
        if V (I (jj + j) + h) = x then equalLoop V h x jj kk fuel (j + 1) k I
        else equalLoop V h x jj kk fuel j (k + 1) (exchange I (jj + j) (kk + k))
      else some I

/-- `split`. -/
def split (h : Int) : (fuel : Nat) → (start len : Int) → (I V : Int → Int) →
    Option ((Int → Int) × (Int → Int))
  | 0, _, _, _, _ => none
  | fuel + 1, start, len, I, V =>
      if len < 16 then splitFew h (start + len) (len.toNat + 1) start I V
      else do
        let x := V (I (start + len / 2) + h)
        let (less, equal) := countLoop I V h x start len.toNat
        let jj := less + start
        let kk := equal + jj
        let (j, k, I) ← lessLoop V h x jj kk (len.toNat + 1) start 0 0 I
        let I ← equalLoop V h x jj kk (len.toNat + 1) j k I
        let (I, V) ← if start < jj then split h fuel start (jj - start) I V else some (I, V)
        let V := labelLoop I jj (kk - 1) (kk - jj).toNat V
        let I := if jj = kk - 1 then Function.update I jj (-1) else I
        if kk < start + len then split h fuel kk (start + len - kk) I V else some (I, V)

/-- The buckets after counting the bytes: `for(i=0;i<oldsize;i++) buckets[old[i]]++`. -/
def countBuckets (old : List UInt8) : Nat → Int :=
  old.foldl (fun buckets byte => Function.update buckets byte.toNat (buckets byte.toNat + 1))
    fun _ => 0

/-- `for(i=1;i<256;i++) buckets[i]+=buckets[i-1]`, `count` rounds from `i + 1` on. -/
def sumBuckets : (count i : Nat) → (buckets : Nat → Int) → Nat → Int
  | 0, _, buckets => buckets
  | count + 1, i, buckets =>
      sumBuckets count (i + 1) (Function.update buckets (i + 1) (buckets (i + 1) + buckets i))

/-- `for(i=255;i>0;i--) buckets[i]=buckets[i-1]`, from `count` on. -/
def shiftBuckets : (count : Nat) → (buckets : Nat → Int) → Nat → Int
  | 0, buckets => buckets
  | count + 1, buckets =>
      shiftBuckets count (Function.update buckets (count + 1) (buckets count))

/-- `for(i=0;i<oldsize;i++) I[++buckets[old[i]]]=i`. -/
def fillBuckets : (bytes : List UInt8) → (i : Int) → (buckets : Nat → Int) → (I : Int → Int) →
    (Nat → Int) × (Int → Int)
  | [], _, buckets, I => (buckets, I)
  | byte :: bytes, i, buckets, I =>
      let next := buckets byte.toNat + 1
      fillBuckets bytes (i + 1) (Function.update buckets byte.toNat next)
        (Function.update I next i)

/-- `for(i=0;i<oldsize;i++) V[i]=buckets[old[i]]`. -/
def groupLoop (buckets : Nat → Int) : (bytes : List UInt8) → (i : Int) → (V : Int → Int) →
    Int → Int
  | [], _, V => V
  | byte :: bytes, i, V =>
      groupLoop buckets bytes (i + 1) (Function.update V i (buckets byte.toNat))

/-- `for(i=1;i<256;i++) if(buckets[i]==buckets[i-1]+1) I[buckets[i]]=-1`, its first `count`
rounds. -/
def markLoop (buckets : Nat → Int) : (count : Nat) → (I : Int → Int) → Int → Int
  | 0, I => I
  | count + 1, I =>
      let I := markLoop buckets count I
      if buckets (count + 1) = buckets count + 1 then Function.update I (buckets (count + 1)) (-1)
      else I

/-- The first order of the suffixes, by their first byte. -/
def bucketSort (old : List UInt8) (I V : Int → Int) : (Int → Int) × (Int → Int) :=
  let buckets := shiftBuckets 255 (sumBuckets 255 0 (countBuckets old))
  let buckets := Function.update buckets 0 0
  let (buckets, I) := fillBuckets old 0 buckets I
  let I := Function.update I 0 old.length
  let V := groupLoop buckets old 0 V
  let V := Function.update V old.length 0
  let I := markLoop buckets 255 I
  let I := Function.update I 0 (-1)
  (I, V)

/-- `if(len) I[i-len]=-len`. -/
def closeRun (i len : Int) (I : Int → Int) : Int → Int :=
  if len ≠ 0 then Function.update I (i - len) (-len) else I

/-- A round of `qsufsort`: `for(i=0;i<oldsize+1;)`. -/
def roundLoop (oldsize h : Int) : (fuel : Nat) → (i len : Int) → (I V : Int → Int) →
    Option ((Int → Int) × (Int → Int))
  | 0, _, _, _, _ => none
  | fuel + 1, i, len, I, V =>
      if i < oldsize + 1 then
        if I i < 0 then roundLoop oldsize h fuel (i - I i) (len - I i) I V
        else do
          let I := closeRun i len I
          let len := V (I i) + 1 - i
          let (I, V) ← split h (len.toNat + 1) i len I V
          roundLoop oldsize h fuel (i + len) 0 I V
      else some (closeRun i len I, V)

/-- The rounds of `qsufsort`: `for(h=1;I[0]!=-(oldsize+1);h+=h)`. -/
def sortLoop (oldsize : Int) : (fuel : Nat) → (h : Int) → (I V : Int → Int) →
    Option ((Int → Int) × (Int → Int))
  | 0, _, _, _ => none
  | fuel + 1, h, I, V =>
      if I 0 ≠ -(oldsize + 1) then do
        let (I, V) ← roundLoop oldsize h (oldsize.toNat + 2) 0 0 I V
        sortLoop oldsize fuel (h + h) I V
      else some (I, V)

/-- `for(i=0;i<oldsize+1;i++) I[V[i]]=i`. -/
def invertLoop (V : Int → Int) : (count : Nat) → (I : Int → Int) → Int → Int
  | 0, I => I
  | count + 1, I => Function.update (invertLoop V count I) (V count) count

/-- `qsufsort`: the suffixes in `I`. -/
def qsufsort (I V : Int → Int) (old : List UInt8) : Option (Int → Int) := do
  let (I, V) := bucketSort old I V
  let (I, V) ← sortLoop old.length (old.length + 2) 1 I V
  some (invertLoop V (old.length + 1) I)

/-! ### One group -/

/-- The suffixes of an image of `n` bytes, by where they begin. -/
def places (n : Int) : Set Int := Icc 0 n

/-- A suffix of at least `h` bytes. -/
def Long (n h place : Int) : Prop := place + h ≤ n

theorem exchange_eq (I : Int → Int) (i j : Int) : exchange I i j = I ∘ Equiv.swap i j := by
  funext q
  rw [Function.comp_apply, Equiv.swap_apply_def, exchange, Function.update_apply,
    Function.update_apply]
  split_ifs with second first
  · rw [← second, first]
  · rfl
  · rfl
  · rfl

theorem exchange_other {I : Int → Int} {i j q : Int} (first : q ≠ i) (second : q ≠ j) :
    exchange I i j q = I q := by
  rw [exchange, Function.update_of_ne second, Function.update_of_ne first]

theorem exchange_second (I : Int → Int) (i j : Int) : exchange I i j j = I i :=
  Function.update_self _ _ _

theorem exchange_first (I : Int → Int) (i j : Int) : exchange I i j i = I j := by
  rw [exchange_eq, Function.comp_apply, Equiv.swap_apply_left]

theorem exchange_rearranged (I : Int → Int) {start stop i j : Int} (first : i ∈ Ico start stop)
    (second : j ∈ Ico start stop) : Rearranged start stop I (exchange I i j) := by
  rw [exchange_eq]
  exact .swap first second

/-- The group of a labelled suffix. -/
theorem labelLoop_label {I V : Int → Int} {lo value : Int} {count : Nat} {a : Int}
    (labelled : a ∈ I '' Ico lo (lo + count)) : labelLoop I lo value count V a = value := by
  induction count with
  | zero =>
      obtain ⟨q, within, rfl⟩ := labelled
      exact absurd within.2 (not_lt.mpr (by simpa using within.1))
  | succ count ih =>
      rw [labelLoop, Function.update_apply]
      split_ifs with last
      · rfl
      · obtain ⟨q, within, rfl⟩ := labelled
        refine ih ⟨q, ⟨within.1, ?_⟩, rfl⟩
        have other : q ≠ lo + count := fun same => last (congrArg I same)
        have upper := within.2
        push_cast at upper
        omega

/-- The others keep theirs. -/
theorem labelLoop_other {I V : Int → Int} {lo value : Int} {count : Nat} {a : Int}
    (other : a ∉ I '' Ico lo (lo + count)) : labelLoop I lo value count V a = V a := by
  induction count with
  | zero => rfl
  | succ count ih =>
      rw [labelLoop, Function.update_of_ne, ih]
      · rintro ⟨q, within, rfl⟩
        exact other ⟨q, ⟨within.1, within.2.trans_le (by push_cast; omega)⟩, rfl⟩
      · rintro rfl
        exact other ⟨lo + count, ⟨by omega, by push_cast; omega⟩, rfl⟩

/-- A stretch of a group before a round by `h` bytes: its suffixes have these bytes, and so does
every suffix that shares its group with another one. -/
structure Splittable (n h : Int) (I V : Int → Int) (start stop last : Int) : Prop where
  segment : Segment (places n) I V start stop last
  long : ∀ q ∈ Ico start stop, Long n h (I q)
  apart : Apart (places n) (Long n h) V

/-- The refinement of a stretch by a round by `h` bytes: suffixes that stay together have twice as
many. -/
abbrev Refined (n h start stop : Int) (I V I' V' : Int → Int) : Prop :=
  Splits (places n) (Long n (h + h)) start stop I V I' V'

section Split

variable {n h start middle stop last : Int} {I V I' V' : Int → Int}

theorem Splittable.rearranged (ready : Splittable n h I V start stop last)
    (same : Rearranged start stop I I') : Splittable n h I' V start stop last := by
  refine ⟨ready.segment.rearranged same, fun q within => ?_, ready.apart⟩
  have member : I' q ∈ I' '' Ico start stop := ⟨q, within, rfl⟩
  rw [same.image] at member
  obtain ⟨p, inP, held⟩ := member
  rw [← held]
  exact ready.long p inP

theorem Splittable.first (ready : Splittable n h I V start stop last) (short : middle < stop) :
    Splittable n h I V start middle last :=
  ⟨ready.segment.first short, fun q within => ready.long q ⟨within.1, within.2.trans short⟩,
    ready.apart⟩

theorem Splittable.rest (ready : Splittable n h I V start stop last) (first : start ≤ middle)
    (second : middle ≤ stop) (splits : Refined n h start middle I V I' V') :
    Splittable n h I' V' middle stop last := by
  refine ⟨ready.segment.rest first second splits, fun q within => ?_,
    ready.apart.refine splits.refines⟩
  rw [splits.rows q fun before => absurd before.2 (not_lt.mpr within.1)]
  exact ready.long q ⟨first.trans within.1, within.2⟩

/-- Suffixes of a stretch that are followed by suffixes of one group have twice as many bytes, if
they are several. -/
theorem Splittable.longer (ready : Splittable n h I V start stop last) (positive : 0 ≤ h)
    {low high x : Int} (inside : start ≤ low ∧ high ≤ stop)
    (keyed : ∀ q ∈ Ico low high, V (I q + h) = x) :
    ∀ a ∈ I '' Ico low high, ∀ b ∈ I '' Ico low high, a ≠ b → Long n (h + h) a := by
  have place : ∀ q ∈ Ico low high, I q + h ∈ places n := by
    intro q within
    have here : q ∈ Ico start stop := ⟨inside.1.trans within.1, within.2.trans_le inside.2⟩
    exact ⟨add_nonneg (ready.segment.mem q here).1 positive, ready.long q here⟩
  rintro _ ⟨p, inP, rfl⟩ _ ⟨q, inQ, rfl⟩ other
  have longer := ready.apart _ (place p inP) _ (place q inQ)
    (fun same => other (add_right_cancel same)) ((keyed p inP).trans (keyed q inQ).symm)
  rw [Long, add_assoc] at longer
  exact longer

/-- **A new group.** Such suffixes at the beginning of a stretch get a group of their own. -/
theorem Splittable.label (ready : Splittable n h I V start stop last) (some : start < middle)
    (short : middle ≤ stop) {count : Nat}
    (longer : ∀ a ∈ I '' Ico start middle, ∀ b ∈ I '' Ico start middle, a ≠ b → Long n (h + h) a)
    (whole : (count : Int) = middle - start) :
    Refined n h start middle I V
      (if middle = start + 1 then Function.update I start (-1) else I)
      (labelLoop I start (middle - 1) count V) := by
  have counted : start + count = middle := by omega
  refine ready.segment.label some short (fun a member => ?_) (fun a other => ?_) longer
  · exact labelLoop_label (by rw [counted]; exact member)
  · exact labelLoop_other (by rw [counted]; exact other)

/-- A suffix with the key of those gathered so far joins them. -/
theorem gathered_keyed {k i j : Int}
    (alike : ∀ q ∈ Ico k (k + j), V (I q + h) = V (I (k + i) + h)) (few : j ≤ i) :
    ∀ q ∈ Ico k (k + (j + 1)), V (exchange I (k + j) (k + i) q + h) = V (I (k + i) + h) := by
  intro q within
  by_cases new : q = k + j
  · rw [new, exchange_first]
  · have old : q ∈ Ico k (k + j) := ⟨within.1, by have := within.2; omega⟩
    have upper := old.2
    rw [exchange_other new (by omega)]
    exact alike q old

/-- The loop gathers suffixes of one key. -/
theorem gatherLoop_keyed {k x i j : Int} (count : Nat)
    (keyed : ∀ q ∈ Ico k (k + j), V (I q + h) = x) (some : 1 ≤ j) (few : j ≤ i)
    (short : k + i ≤ stop) :
    ∃ j' I' x', gatherLoop V h k stop count i j x I = (j', I') ∧ 1 ≤ j' ∧ k + j' ≤ stop ∧
      Rearranged k stop I I' ∧ ∀ q ∈ Ico k (k + j'), V (I' q + h) = x' := by
  induction count generalizing i j x I with
  | zero => exact ⟨j, I, x, rfl, some, by omega, .refl, keyed⟩
  | succ count ih =>
      rw [gatherLoop]
      by_cases more : k + i < stop
      · have joined : ∀ j', 0 ≤ j' → j' ≤ j →
            (∀ q ∈ Ico k (k + j'), V (I q + h) = V (I (k + i) + h)) →
            ∃ j'' I' x', gatherLoop V h k stop count (i + 1) (j' + 1) (V (I (k + i) + h))
              (exchange I (k + j') (k + i)) = (j'', I') ∧ 1 ≤ j'' ∧ k + j'' ≤ stop ∧
              Rearranged k stop I I' ∧ ∀ q ∈ Ico k (k + j''), V (I' q + h) = x' := by
          intro j' low high alike
          have exchanged : Rearranged k stop I (exchange I (k + j') (k + i)) :=
            exchange_rearranged I ⟨by omega, by omega⟩ ⟨by omega, more⟩
          obtain ⟨j'', I', x', equation, some', short', same, keyed'⟩ :=
            ih (gathered_keyed alike (high.trans few)) (by omega)
              (show j' + 1 ≤ i + 1 by omega) (by omega)
          exact ⟨j'', I', x', equation, some', short', exchanged.trans same, keyed'⟩
        simp only [if_pos more]
        by_cases less : V (I (k + i) + h) < x
        · -- A smaller key: what was gathered is given up.
          simp only [if_pos less, if_true]
          exact joined 0 le_rfl (by omega) fun q within => absurd within.2 (by simpa using within.1)
        · simp only [if_neg less]
          by_cases equal : V (I (k + i) + h) = x
          · rw [if_pos equal, ← equal]
            exact joined j (by omega) le_rfl fun q within => (keyed q within).trans equal.symm
          · rw [if_neg equal]
            exact ih keyed some (by omega) (by omega)
      · rw [if_neg more]
        exact ⟨j, I, x, rfl, some, by omega, .refl, keyed⟩

/-- **A few suffixes**: `split` refines them. -/
theorem splitFew_splits {k : Int} {fuel : Nat} (positive : 0 ≤ h)
    (ready : Splittable n h I V k stop last) (ordered : k ≤ stop) (enough : stop - k < fuel) :
    ∃ I' V', splitFew h stop fuel k I V = some (I', V') ∧ Refined n h k stop I V I' V' := by
  induction fuel generalizing k I V with
  | zero => exact absurd enough (by push_cast; omega)
  | succ fuel ih =>
      rw [splitFew]
      by_cases more : k < stop
      · have alone : ∀ q ∈ Ico k (k + 1), V (I q + h) = V (I k + h) := by
          intro q within
          rw [le_antisymm (Int.lt_add_one_iff.mp within.2) within.1]
        obtain ⟨j, I₁, x, gathered, some, short, same, keyed⟩ :=
          gatherLoop_keyed (stop - k).toNat alone le_rfl le_rfl (Int.add_one_le_iff.mpr more)
        have ready₁ := ready.rearranged same
        have labelled := ready₁.label (by omega) short
          (ready₁.longer positive ⟨le_rfl, short⟩ keyed) (show (j.toNat : Int) = k + j - k by omega)
        have rest := ready₁.rest (by omega) short labelled
        obtain ⟨I', V', equation, refined⟩ := ih rest short (by push_cast at enough; omega)
        have refined₁ := Splits.trans ready₁.segment (by omega) short labelled refined
        refine ⟨I', V', ?_, refined₁.rearranged same⟩
        simp only [if_pos more, gathered]
        have single : k + j = k + 1 ↔ j = 1 := by omega
        simp only [single] at equation
        exact equation
      · have ended : k = stop := le_antisymm ordered (not_lt.mp more)
        rw [if_neg more]
        refine ⟨I, V, rfl, ?_⟩
        rw [ended]
        exact .nil

end Split

/-! ### Three parts -/

/-- The keys of a row: the groups of the suffixes `h` bytes further on. -/
def keyOf (V : Int → Int) (h : Int) (I : Int → Int) : Int → Int := fun q => V (I q + h)

theorem keyOf_exchange (V : Int → Int) (h : Int) (I : Int → Int) (i j : Int) :
    keyOf V h (exchange I i j) = exchange (keyOf V h I) i j := by
  rw [exchange_eq, exchange_eq]
  rfl

/-- How many keys of a stretch are of a kind. -/
noncomputable def amount (start stop : Int) (key : Int → Int) (kind : Int → Prop)
    [DecidablePred kind] : Nat :=
  ((Finset.Ico start stop).filter fun q => kind (key q)).card

/-- A stretch on its way to three parts: the keys up to `i` are less than `x`, `j` keys from `jj` on
are `x`, and `k` keys from `kk` on are more, where `jj` and `kk` are where these parts begin. -/
structure Parting (key : Int → Int) (x start jj kk stop i j k : Int) : Prop where
  less : ∀ q ∈ Ico start i, key q < x
  equal : ∀ q ∈ Ico jj (jj + j), key q = x
  more : ∀ q ∈ Ico kk (kk + k), x < key q
  lessAmount : (amount start stop key (· < x) : Int) = jj - start
  equalAmount : (amount start stop key (· = x) : Int) = kk - jj
  moreAmount : (amount start stop key (x < ·) : Int) = stop - kk
  first : start ≤ i ∧ i ≤ jj
  second : 0 ≤ j ∧ jj + j ≤ kk
  third : 0 ≤ k ∧ kk + k ≤ stop

section Parting

variable {key : Int → Int} {x start jj kk stop i j k : Int}

/-- Keys of a kind in a stretch, and one more of them elsewhere. -/
theorem lt_amount (kind : Int → Prop) [DecidablePred kind] {low high p : Int}
    (held : ∀ q ∈ Ico low high, kind (key q)) (inside : start ≤ low ∧ low ≤ high ∧ high ≤ stop)
    (one : kind (key p)) (here : p ∈ Ico start stop) (apart : p ∉ Ico low high) :
    high - low < (amount start stop key kind : Int) := by
  have fresh : p ∉ Finset.Ico low high := fun within => apart (Finset.mem_Ico.mp within)
  have subset : insert p (Finset.Ico low high) ⊆
      (Finset.Ico start stop).filter fun q => kind (key q) := by
    intro q member
    rw [Finset.mem_filter, Finset.mem_Ico]
    rcases Finset.mem_insert.mp member with rfl | within
    · exact ⟨here, one⟩
    · have bounds := Finset.mem_Ico.mp within
      exact ⟨⟨inside.1.trans bounds.1, bounds.2.trans_le inside.2.2⟩, held q bounds⟩
  have count := Finset.card_le_card subset
  rw [Finset.card_insert_of_notMem fresh, Int.card_Ico] at count
  unfold amount
  omega

theorem amount_exchange {kind : Int → Prop} [DecidablePred kind] {p q : Int}
    (first : p ∈ Ico start stop) (second : q ∈ Ico start stop) :
    amount start stop (exchange key p q) kind = amount start stop key kind :=
  (exchange_rearranged key first second).card kind

/-- A key that is less stays where it is. -/
theorem Parting.stay (parting : Parting key x start jj kk stop i j k) (open' : i < jj)
    (less : key i < x) : Parting key x start jj kk stop (i + 1) j k := by
  refine { parting with less := fun q within => ?_, first := ?_ }
  · rcases Int.lt_add_one_iff.mp within.2 |>.lt_or_eq with before | here
    · exact parting.less q ⟨within.1, before⟩
    · rw [here]
      exact less
  · have first := parting.first
    omega

/-- A key that is `x` goes to the end of the second part, which is not full. -/
theorem Parting.second_exchange (parting : Parting key x start jj kk stop i j k) (open' : i < jj)
    (equal : key i = x) : jj + j < kk ∧
      Parting (exchange key i (jj + j)) x start jj kk stop i (j + 1) k := by
  have first := parting.first
  have second := parting.second
  have third := parting.third
  have inI : i ∈ Ico start stop := ⟨first.1, by omega⟩
  have room : jj + j < kk := by
    have more := lt_amount (· = x) parting.equal ⟨by omega, by omega, by omega⟩ equal inI
      fun within => absurd within.1 (not_le.mpr open')
    rw [parting.equalAmount] at more
    omega
  have inJ : jj + j ∈ Ico start stop := ⟨by omega, by omega⟩
  refine ⟨room, ?_, ?_, ?_, ?_, ?_, ?_, first, by omega, third⟩
  · rintro q ⟨lower, upper⟩
    rw [exchange_other (by omega) (by omega)]
    exact parting.less q ⟨lower, upper⟩
  · rintro q ⟨lower, upper⟩
    by_cases new : q = jj + j
    · rw [new, exchange_second, equal]
    · rw [exchange_other (by omega) new]
      exact parting.equal q ⟨lower, by omega⟩
  · rintro q ⟨lower, upper⟩
    rw [exchange_other (by omega) (by omega)]
    exact parting.more q ⟨lower, upper⟩
  · rw [amount_exchange inI inJ, parting.lessAmount]
  · rw [amount_exchange inI inJ, parting.equalAmount]
  · rw [amount_exchange inI inJ, parting.moreAmount]

/-- A key that is more goes to the end of the third part, which is not full. The place it comes from
is one of those that are not parted yet. -/
theorem Parting.third_exchange (parting : Parting key x start jj kk stop i j k) {p : Int}
    (place : p ∈ Ico i jj ∨ p ∈ Ico (jj + j) kk) (more : x < key p) : kk + k < stop ∧
      Parting (exchange key p (kk + k)) x start jj kk stop i j (k + 1) := by
  have first := parting.first
  have second := parting.second
  have third := parting.third
  have low : i ≤ p ∧ p < kk ∧ (p < jj ∨ jj + j ≤ p) := by
    rcases place with before | after
    · exact ⟨before.1, by have := before.2; omega, Or.inl before.2⟩
    · exact ⟨by have := after.1; omega, after.2, Or.inr after.1⟩
  have inP : p ∈ Ico start stop := ⟨by omega, by omega⟩
  have room : kk + k < stop := by
    have many := lt_amount (x < ·) parting.more ⟨by omega, by omega, by omega⟩ more inP
      fun within => absurd within.1 (not_le.mpr low.2.1)
    rw [parting.moreAmount] at many
    omega
  have inK : kk + k ∈ Ico start stop := ⟨by omega, room⟩
  refine ⟨room, ?_, ?_, ?_, ?_, ?_, ?_, first, second, by omega⟩
  · rintro q ⟨lower, upper⟩
    rw [exchange_other (by omega) (by omega)]
    exact parting.less q ⟨lower, upper⟩
  · rintro q ⟨lower, upper⟩
    rw [exchange_other (by omega) (by omega)]
    exact parting.equal q ⟨lower, upper⟩
  · rintro q ⟨lower, upper⟩
    by_cases new : q = kk + k
    · rw [new, exchange_second]
      exact more
    · rw [exchange_other (by omega) new]
      exact parting.more q ⟨lower, by omega⟩
  · rw [amount_exchange inP inK, parting.lessAmount]
  · rw [amount_exchange inP inK, parting.equalAmount]
  · rw [amount_exchange inP inK, parting.moreAmount]

/-- When the first part is complete no other key is less. -/
theorem Parting.not_less (parting : Parting key x start jj kk stop jj j k) {p : Int}
    (place : p ∈ Ico jj stop) : ¬ key p < x := by
  intro less
  have first := parting.first
  have second := parting.second
  have third := parting.third
  have many := lt_amount (· < x) parting.less ⟨le_rfl, first.1, by omega⟩ less
    ⟨by have := place.1; omega, place.2⟩ fun within => absurd within.2 (not_lt.mpr place.1)
  rw [parting.lessAmount] at many
  exact absurd many (lt_irrefl _)

end Parting

/-! ### The loops of the three parts -/

section Loops

variable {n h x start jj kk stop last : Int} {I V : Int → Int}

theorem amount_succ (kind : Int → Prop) [DecidablePred kind] (key : Int → Int) (start : Int)
    (count : Nat) : amount start (start + (count + 1 : Nat)) key kind =
      amount start (start + count) key kind + if kind (key (start + count)) then 1 else 0 := by
  unfold amount
  have grow : Finset.Ico start (start + (count + 1 : Nat)) =
      insert (start + (count : Int)) (Finset.Ico start (start + count)) := by
    rw [Finset.insert_Ico_right_eq_Ico_add_one (by omega)]
    push_cast
    rw [add_assoc]
  have fresh : start + (count : Int) ∉
      (Finset.Ico start (start + (count : Int))).filter fun q => kind (key q) := by
    rw [Finset.mem_filter, Finset.mem_Ico]
    exact fun member => lt_irrefl _ member.1.2
  rw [grow, Finset.filter_insert]
  split_ifs with counted
  · rw [Finset.card_insert_of_notMem fresh]
  · rfl

/-- The first loop counts the keys that are less and those that are `x`. -/
theorem countLoop_amount (count : Nat) : countLoop I V h x start count =
    ((amount start (start + count) (keyOf V h I) (· < x) : Int),
      (amount start (start + count) (keyOf V h I) (· = x) : Int)) := by
  induction count with
  | zero => simp [countLoop, amount]
  | succ count ih =>
      rw [countLoop, ih, amount_succ, amount_succ]
      refine Prod.ext ?_ ?_
      · show (if keyOf V h I (start + count) < x then _ else _) = _
        split_ifs <;> simp
      · show (if keyOf V h I (start + count) = x then _ else _) = _
        split_ifs <;> simp

/-- Every key is less, `x` or more. -/
theorem amount_total (key : Int → Int) (x start : Int) (count : Nat) :
    amount start (start + count) key (· < x) + amount start (start + count) key (· = x) +
      amount start (start + count) key (x < ·) = count := by
  induction count with
  | zero => simp [amount]
  | succ count ih =>
      rw [amount_succ, amount_succ, amount_succ]
      rcases lt_trichotomy (key (start + count)) x with less | equal | more
      · rw [if_pos less, if_neg (ne_of_lt less), if_neg (not_lt.mpr (le_of_lt less))]
        omega
      · rw [if_neg (not_lt.mpr (le_of_eq equal.symm)), if_pos equal,
          if_neg (not_lt.mpr (le_of_eq equal))]
        omega
      · rw [if_neg (not_lt.mpr (le_of_lt more)), if_neg (ne_of_gt more), if_pos more]
        omega

/-- **The second loop** completes the first part. -/
theorem lessLoop_parts {fuel : Nat} {i j k : Int}
    (parting : Parting (keyOf V h I) x start jj kk stop i j k)
    (enough : (jj - i) + (kk - jj - j) + (stop - kk - k) < fuel) :
    ∃ j' k' I', lessLoop V h x jj kk fuel i j k I = some (j', k', I') ∧
      Rearranged start stop I I' ∧ Parting (keyOf V h I') x start jj kk stop jj j' k' := by
  have first := parting.first
  have second := parting.second
  have third := parting.third
  induction fuel generalizing i j k I with
  | zero => exact absurd enough (by push_cast; omega)
  | succ fuel ih =>
      push_cast at enough
      rw [lessLoop]
      by_cases open' : i < jj
      · have inI : i ∈ Ico start stop := ⟨first.1, by omega⟩
        simp only [if_pos open']
        by_cases less : V (I i + h) < x
        · rw [if_pos less]
          have next := parting.stay open' less
          exact ih next (by omega) next.first next.second next.third
        · rw [if_neg less]
          by_cases equal : V (I i + h) = x
          · rw [if_pos equal]
            obtain ⟨room, next⟩ := parting.second_exchange open' equal
            rw [← keyOf_exchange] at next
            obtain ⟨j', k', I', equation, same, parted⟩ :=
              ih next (by omega) next.first next.second next.third
            exact ⟨j', k', I', equation,
              (exchange_rearranged I inI ⟨by omega, by omega⟩).trans same, parted⟩
          · rw [if_neg equal]
            have more : x < V (I i + h) := lt_of_le_of_ne (not_lt.mp less) (Ne.symm equal)
            obtain ⟨room, next⟩ := parting.third_exchange (Or.inl ⟨le_rfl, open'⟩) more
            rw [← keyOf_exchange] at next
            obtain ⟨j', k', I', equation, same, parted⟩ :=
              ih next (by omega) next.first next.second next.third
            exact ⟨j', k', I', equation,
              (exchange_rearranged I inI ⟨by omega, room⟩).trans same, parted⟩
      · rw [if_neg open']
        have complete : i = jj := le_antisymm first.2 (not_lt.mp open')
        exact ⟨j, k, I, rfl, .refl, complete ▸ parting⟩

/-- **The third loop** completes the second part. -/
theorem equalLoop_parts {fuel : Nat} {j k : Int}
    (parting : Parting (keyOf V h I) x start jj kk stop jj j k)
    (enough : (kk - jj - j) + (stop - kk - k) < fuel) :
    ∃ I', equalLoop V h x jj kk fuel j k I = some I' ∧ Rearranged start stop I I' ∧
      ∀ q ∈ Ico jj kk, V (I' q + h) = x := by
  have first := parting.first
  have second := parting.second
  have third := parting.third
  induction fuel generalizing j k I with
  | zero => exact absurd enough (by push_cast; omega)
  | succ fuel ih =>
      push_cast at enough
      rw [equalLoop]
      by_cases open' : jj + j < kk
      · have inJ : jj + j ∈ Ico start stop := ⟨by omega, by omega⟩
        simp only [if_pos open']
        by_cases equal : V (I (jj + j) + h) = x
        · rw [if_pos equal]
          have next : Parting (keyOf V h I) x start jj kk stop jj (j + 1) k := by
            refine { parting with equal := fun q within => ?_, second := by omega }
            by_cases new : q = jj + j
            · rw [new]
              exact equal
            · exact parting.equal q ⟨within.1, by have := within.2; omega⟩
          exact ih next (by omega) next.second next.third
        · rw [if_neg equal]
          have more : x < V (I (jj + j) + h) :=
            lt_of_le_of_ne (not_lt.mp (parting.not_less ⟨by omega, by omega⟩)) (Ne.symm equal)
          obtain ⟨room, next⟩ := parting.third_exchange (Or.inr ⟨le_rfl, open'⟩) more
          rw [← keyOf_exchange] at next
          obtain ⟨I', equation, same, parted⟩ :=
            ih next (by omega) next.second next.third
          exact ⟨I', equation, (exchange_rearranged I inJ ⟨by omega, room⟩).trans same, parted⟩
      · rw [if_neg open']
        refine ⟨I, rfl, .refl, fun q within => parting.equal q ⟨within.1, ?_⟩⟩
        exact within.2.trans_le (by omega)

/-- `split` parts a stretch by a key of one of its suffixes. -/
theorem stretch_parts {len : Int} (nonneg : 0 ≤ len) {less equal : Int}
    (counts : countLoop I V h x start len.toNat = (less, equal)) :
    Parting (keyOf V h I) x start (less + start) (equal + (less + start)) (start + len) start 0
      0 := by
  have whole : start + (len.toNat : Int) = start + len := by omega
  have total := amount_total (keyOf V h I) x start len.toNat
  rw [countLoop_amount, whole, Prod.mk.injEq] at counts
  rw [whole] at total
  obtain ⟨rfl, rfl⟩ := counts
  refine ⟨?_, ?_, ?_, by omega, by omega, by omega, by omega, by omega, by omega⟩
  · exact fun q within => absurd within.2 (not_lt.mpr within.1)
  · exact fun q within => absurd within.2 (by simpa using within.1)
  · exact fun q within => absurd within.2 (by simpa using within.1)

/-- A part of a stretch is refined if it is not empty. -/
theorem part_splits {fuel : Nat} {low high : Int}
    (splits : low < high → ∃ I' V', split h fuel low (high - low) I V = some (I', V') ∧
      Refined n h low high I V I' V') (ordered : low ≤ high) :
    ∃ I' V', (if low < high then split h fuel low (high - low) I V else some (I, V)) =
      some (I', V') ∧ Refined n h low high I V I' V' := by
  by_cases some : low < high
  · rw [if_pos some]
    exact splits some
  · rw [if_neg some, le_antisymm ordered (not_lt.mp some)]
    exact ⟨I, V, rfl, .nil⟩

/-- **Many suffixes**: `split` ends and refines them. -/
theorem split_splits {fuel : Nat} {len : Int} (positive : 0 ≤ h)
    (ready : Splittable n h I V start (start + len) last) (nonneg : 0 ≤ len) (enough : len < fuel) :
    ∃ I' V', split h fuel start len I V = some (I', V') ∧
      Refined n h start (start + len) I V I' V' := by
  induction fuel generalizing start len I V with
  | zero => exact absurd enough (by push_cast; omega)
  | succ fuel ih =>
      push_cast at enough
      have part : ∀ {low high : Int} {I V : Int → Int}, Splittable n h I V low high last →
          low ≤ high → high - low < len → ∃ I' V',
            (if low < high then split h fuel low (high - low) I V else some (I, V)) =
              some (I', V') ∧ Refined n h low high I V I' V' := by
        intro low high I V ready ordered shorter
        have whole : low + (high - low) = high := by omega
        refine part_splits (fun some => ?_) ordered
        have refined := ih (show Splittable n h I V low (low + (high - low)) last by
          rw [whole]
          exact ready) (by omega) (by omega)
        rw [whole] at refined
        exact refined
      rw [split]
      by_cases few : len < 16
      · rw [if_pos few]
        exact splitFew_splits positive ready (by omega) (by push_cast; omega)
      · simp only [if_neg few, Option.bind_eq_bind]
        generalize chosen : V (I (start + len / 2) + h) = x
        generalize counts : countLoop I V h x start len.toNat = both
        obtain ⟨less, equal⟩ := both
        have parting := stretch_parts nonneg counts
        have key : keyOf V h I (start + len / 2) = x := chosen
        dsimp only
        generalize less + start = jj at parting ⊢
        generalize equal + jj = kk at parting ⊢
        have bounds : start ≤ jj ∧ jj < kk ∧ kk ≤ start + len := by
          have first := parting.first
          have third := parting.third
          have some := lt_amount (· = x) parting.equal
            (show start ≤ jj ∧ jj ≤ jj + 0 ∧ jj + 0 ≤ start + len by
              have second := parting.second
              omega) key ⟨by omega, by omega⟩
            fun within => absurd within.2 (by simpa using within.1)
          rw [parting.equalAmount] at some
          omega
        obtain ⟨j, k, I₁, lessEquation, same₁, parted⟩ :=
          lessLoop_parts parting (show _ < ((len.toNat + 1 : Nat) : Int) by push_cast; omega)
        obtain ⟨I₂, equalEquation, same₂, keyed⟩ :=
          equalLoop_parts parted (show _ < ((len.toNat + 1 : Nat) : Int) by
            have second := parted.second
            have third := parted.third
            push_cast
            omega)
        have same := same₁.trans same₂
        have ready₂ := ready.rearranged same
        obtain ⟨I₃, V₃, firstEquation, first⟩ :=
          part (ready₂.first (by omega : jj < start + len)) bounds.1 (by omega)
        have ready₃ := ready₂.rest bounds.1 (by omega) first
        -- The first part is elsewhere: the suffixes of the second are still those of one key.
        have longer := ready₂.longer positive ⟨bounds.1, bounds.2.2⟩ keyed
        have image : I₃ '' Ico jj kk = I₂ '' Ico jj kk := image_congr fun q within =>
          first.rows q fun before => absurd before.2 (not_lt.mpr within.1)
        rw [← image] at longer
        have labelled := ready₃.label bounds.2.1 bounds.2.2 longer
          (show ((kk - jj).toNat : Int) = kk - jj by omega)
        have ready₄ := ready₃.rest (le_of_lt bounds.2.1) bounds.2.2 labelled
        obtain ⟨I', V', lastEquation, third⟩ := part ready₄ bounds.2.2 (by omega)
        refine ⟨I', V', ?_, ?_⟩
        · have single : jj = kk - 1 ↔ kk = jj + 1 := by omega
          simp only [lessEquation, equalEquation, Option.bind_some, single]
          by_cases some : start < jj
          · rw [if_pos some] at firstEquation ⊢
            rw [firstEquation]
            exact lastEquation
          · rw [if_neg some] at firstEquation ⊢
            cases firstEquation
            exact lastEquation
        · have rest := Splits.trans ready₃.segment (le_of_lt bounds.2.1) bounds.2.2 labelled third
          exact (Splits.trans ready₂.segment bounds.1 (by omega) first rest).rearranged same

end Loops

end Upkit

/-
**The suffixes in order of their first byte, and the whole sorting.**

* `bucketSort_bucketed` — the buckets put the suffixes into groups by their first byte.
* `qsufsort_places` — whatever `I` and `V` held, `qsufsort` ends, and `I` then holds every place of
  the old image once; `qsufsort_suffixes` — which is what the search needs.
* `sortedDiff_complete` — so the diff command writes a complete patch for any two images.
-/

import Upkit.Tool.Bsdiff
import Upkit.Tool.SuffixRounds

namespace Upkit

open Set Groups

/-! ### Buckets -/

/-- How many bytes have the value `value`. -/
def countOf (bytes : List UInt8) (value : Nat) : Nat := bytes.countP fun byte => byte.toNat = value

/-- How many bytes have a value below `value`. -/
def countBelow (bytes : List UInt8) (value : Nat) : Nat :=
  bytes.countP fun byte => byte.toNat < value

section Buckets

variable (old : List UInt8)

theorem countBelow_zero : countBelow old 0 = 0 := by
  rw [countBelow, List.countP_eq_zero]
  intro byte _
  simp

theorem countBelow_succ (value : Nat) :
    countBelow old (value + 1) = countBelow old value + countOf old value := by
  induction old with
  | nil => rfl
  | cons byte old ih =>
      unfold countBelow countOf at ih ⊢
      rw [List.countP_cons, List.countP_cons, List.countP_cons, ih]
      rcases lt_trichotomy byte.toNat value with less | equal | more
      · simp [less, ne_of_lt less, Nat.lt_succ_of_lt less]
        omega
      · simp [equal]
        omega
      · simp [not_lt.mpr (le_of_lt more), ne_of_gt more, not_lt.mpr (Nat.succ_le_of_lt more)]

theorem countBelow_mono {value other : Nat} (le : value ≤ other) :
    countBelow old value ≤ countBelow old other :=
  List.countP_mono_left fun byte _ less => by
    simp only [decide_eq_true_eq] at less ⊢
    omega

theorem countBelow_all : countBelow old 256 = old.length := by
  rw [countBelow, List.countP_eq_length]
  intro byte _
  simpa using byte.toNat_lt

theorem countBuckets_countOf (value : Nat) : countBuckets old value = countOf old value := by
  have fold : ∀ buckets : Nat → Int,
      old.foldl (fun buckets byte => Function.update buckets byte.toNat (buckets byte.toNat + 1))
        buckets value = buckets value + countOf old value := by
    induction old with
    | nil => intro buckets; simp [countOf]
    | cons byte old ih =>
        intro buckets
        rw [List.foldl_cons, ih, Function.update_apply, countOf, countOf, List.countP_cons]
        by_cases here : value = byte.toNat
        · simp [here]
          omega
        · simp [here, Ne.symm here]
  rw [countBuckets, fold, zero_add]

/-- The loop adds up the buckets that are left to it. -/
theorem sumBuckets_countBelow {count i : Nat} {buckets : Nat → Int}
    (summed : ∀ value ≤ i, buckets value = countBelow old (value + 1))
    (counted : ∀ value, i < value → buckets value = countOf old value) {value : Nat}
    (within : value ≤ i + count) :
    sumBuckets count i buckets value = countBelow old (value + 1) := by
  induction count generalizing i buckets with
  | zero => exact summed value within
  | succ count ih =>
      have next := countBelow_succ old (i + 1)
      rw [sumBuckets, counted (i + 1) (Nat.lt_succ_self i), summed i le_rfl]
      refine ih (fun other le => ?_) (fun other later => ?_) (by omega)
      · by_cases last : other = i + 1
        · rw [last, Function.update_self]
          omega
        · rw [Function.update_of_ne last]
          exact summed other (by omega)
      · rw [Function.update_of_ne (by omega)]
        exact counted other (by omega)

theorem shiftBuckets_apply (buckets : Nat → Int) {count value : Nat} (within : value < count) :
    shiftBuckets count buckets (value + 1) = buckets value := by
  have kept : ∀ (count : Nat) (buckets : Nat → Int) (value : Nat), count < value →
      shiftBuckets count buckets value = buckets value := by
    intro count
    induction count with
    | zero => exact fun _ _ _ => rfl
    | succ count ih =>
        intro buckets value later
        rw [shiftBuckets, ih _ _ (by omega), Function.update_of_ne (ne_of_gt later)]
  induction count generalizing buckets with
  | zero => exact absurd within (Nat.not_lt_zero value)
  | succ count ih =>
      rw [shiftBuckets]
      by_cases last : value = count
      · rw [last, kept count _ _ (Nat.lt_succ_self count), Function.update_self]
      · rw [ih _ (by omega), Function.update_of_ne (by omega)]

/-- Where the buckets begin: `buckets[i]` is the number of bytes below `i`. -/
theorem buckets_countBelow {value : Nat} (byte : value < 256) :
    Function.update (shiftBuckets 255 (sumBuckets 255 0 (countBuckets old))) 0 0 value =
      countBelow old value := by
  cases value with
  | zero => rw [Function.update_self, countBelow_zero, Nat.cast_zero]
  | succ value =>
      have first : ∀ other ≤ 0, countBuckets old other = countBelow old (other + 1) := by
        intro other zero
        rw [Nat.le_zero.mp zero, countBuckets_countOf, countBelow_succ, countBelow_zero, zero_add]
      rw [Function.update_of_ne (Nat.succ_ne_zero value), shiftBuckets_apply _ (by omega),
        sumBuckets_countBelow old first (fun other _ => countBuckets_countOf old other) (by omega)]

end Buckets

/-! ### Filling the buckets -/

/-- The first byte of a suffix. -/
def byteOf (old : List UInt8) (a : Nat) : Nat := (old.getD a 0).toNat

/-- The positions that the suffixes of the places in `done` with this first byte take. -/
def bucket (old done : List UInt8) (value : Nat) : Set Int :=
  Ioc (countBelow old value : Int) (countBelow old value + countOf done value)

/-- The places in `done`, the beginning of `old`, are in their buckets. -/
structure InBuckets (old done : List UInt8) (I : Int → Int) : Prop where
  placed : ∀ value, ∀ q ∈ bucket old done value,
    ∃ a < done.length, I q = (a : Int) ∧ byteOf old a = value
  found : ∀ a < done.length, ∃ q ∈ bucket old done (byteOf old a), I q = (a : Int)
  inj : ∀ value, InjOn I (bucket old done value)

section Filling

variable {old done bytes : List UInt8} {byte : UInt8} {I : Int → Int}

theorem countOf_append (value : Nat) :
    countOf (done ++ bytes) value = countOf done value + countOf bytes value := List.countP_append

theorem countOf_pos {a : Nat} (inside : a < old.length) : 0 < countOf old (byteOf old a) := by
  rw [countOf, List.countP_pos_iff]
  refine ⟨old.getD a 0, ?_, by simp [byteOf]⟩
  rw [List.getD_eq_getElem _ _ inside]
  exact List.getElem_mem inside

/-- The positions of different buckets are different. -/
theorem bucket_apart {value other : Nat} {q : Int} (first : q ∈ bucket old old value)
    (second : q ∈ bucket old old other) : value = other := by
  have firstSucc := countBelow_succ old value
  have secondSucc := countBelow_succ old other
  have firstUpper := first.2
  have secondUpper := second.2
  have firstLower := first.1
  have secondLower := second.1
  rcases lt_trichotomy value other with less | equal | more
  · have mono : countBelow old (value + 1) ≤ countBelow old other := countBelow_mono old less
    omega
  · exact equal
  · have mono : countBelow old (other + 1) ≤ countBelow old value := countBelow_mono old more
    omega

theorem bucket_subset (whole : done ++ bytes = old) (value : Nat) :
    bucket old done value ⊆ bucket old old value := by
  refine Ioc_subset_Ioc_right ?_
  have more : countOf old value = countOf done value + countOf bytes value := by
    rw [← whole, countOf_append]
  omega

/-- The position of the next place with this byte. -/
theorem next_bucket (whole : done ++ byte :: bytes = old) :
    (countBelow old byte.toNat : Int) + countOf done byte.toNat + 1 ∈
      bucket old old byte.toNat := by
  have more : countOf old byte.toNat =
      countOf done byte.toNat + countOf (byte :: bytes) byte.toNat := by
    rw [← whole, countOf_append]
  have one : 0 < countOf (byte :: bytes) byte.toNat := by simp [countOf]
  exact ⟨by omega, by omega⟩

theorem countOf_snoc (value : Nat) :
    countOf (done ++ [byte]) value = countOf done value + if byte.toNat = value then 1 else 0 := by
  rw [countOf_append, countOf, countOf, List.countP_singleton]
  simp

/-- The buckets with one more place. -/
theorem bucket_snoc {value : Nat} {q : Int} (member : q ∈ bucket old (done ++ [byte]) value) :
    q ∈ bucket old done value ∨
      value = byte.toNat ∧ q = (countBelow old byte.toNat : Int) + countOf done byte.toNat + 1 := by
  have lower := member.1
  have upper := member.2
  rw [countOf_snoc] at upper
  split_ifs at upper with here
  · subst here
    by_cases last : q = (countBelow old byte.toNat : Int) + countOf done byte.toNat + 1
    · exact Or.inr ⟨rfl, last⟩
    · refine Or.inl ⟨lower, ?_⟩
      push_cast at upper
      omega
  · exact Or.inl ⟨lower, by simpa using upper⟩

/-- The next position is in no bucket yet. -/
theorem next_fresh (whole : done ++ byte :: bytes = old) {value : Nat} {q : Int}
    (member : q ∈ bucket old done value) :
    q ≠ (countBelow old byte.toNat : Int) + countOf done byte.toNat + 1 := by
  rintro rfl
  have same := bucket_apart (bucket_subset whole value member) (next_bucket whole)
  have upper := member.2
  rw [same] at upper
  omega

/-- **One more place** goes to its bucket. -/
theorem InBuckets.snoc (whole : done ++ byte :: bytes = old) (filled : InBuckets old done I) :
    InBuckets old (done ++ [byte])
      (Function.update I ((countBelow old byte.toNat : Int) + countOf done byte.toNat + 1)
        done.length) := by
  have here : byteOf old done.length = byte.toNat := by
    rw [byteOf, ← whole, List.getD_append_right _ _ _ _ le_rfl, Nat.sub_self]
    rfl
  have old' : ∀ {value : Nat} {q : Int}, q ∈ bucket old done value →
      Function.update I ((countBelow old byte.toNat : Int) + countOf done byte.toNat + 1)
        done.length q = I q := fun member => Function.update_of_ne (next_fresh whole member) _ _
  have smaller : ∀ value, bucket old done value ⊆ bucket old (done ++ [byte]) value := by
    intro value
    refine Ioc_subset_Ioc_right ?_
    rw [countOf_snoc]
    push_cast
    split_ifs <;> omega
  refine ⟨?_, ?_, ?_⟩
  · intro value q member
    rw [List.length_append, List.length_singleton]
    rcases bucket_snoc member with before | ⟨rfl, rfl⟩
    · obtain ⟨a, inside, at', byte'⟩ := filled.placed value q before
      exact ⟨a, by omega, (old' before).trans at', byte'⟩
    · exact ⟨done.length, by omega, Function.update_self _ _ _, here⟩
  · intro a inside
    rw [List.length_append, List.length_singleton] at inside
    rcases Nat.lt_succ_iff_lt_or_eq.mp inside with before | rfl
    · obtain ⟨q, member, at'⟩ := filled.found a before
      exact ⟨q, smaller _ member, (old' member).trans at'⟩
    · refine ⟨_, ?_, Function.update_self _ _ _⟩
      rw [here]
      refine ⟨by omega, ?_⟩
      rw [countOf_snoc, if_pos rfl]
      push_cast
      omega
  · intro value p inP q inQ same
    -- An old place is not the new one.
    have other : ∀ {r : Int}, r ∈ bucket old done value → I r ≠ done.length := by
      intro r member at'
      obtain ⟨a, inside, place, _⟩ := filled.placed value r member
      rw [place] at at'
      omega
    rcases bucket_snoc inP with oldP | ⟨_, newP⟩
    · rcases bucket_snoc inQ with oldQ | ⟨_, newQ⟩
      · rw [old' oldP, old' oldQ] at same
        exact filled.inj value oldP oldQ same
      · rw [old' oldP, newQ, Function.update_self] at same
        exact absurd same (other oldP)
    · rcases bucket_snoc inQ with oldQ | ⟨_, newQ⟩
      · rw [old' oldQ, newP, Function.update_self] at same
        exact absurd same.symm (other oldQ)
      · rw [newP, newQ]

theorem InBuckets.nil : InBuckets old [] I := by
  have empty : ∀ value, bucket old [] value = ∅ := by
    intro value
    unfold bucket countOf
    rw [List.countP_nil, Nat.cast_zero, add_zero, Ioc_self]
  refine ⟨fun value q member => ?_, fun a inside => absurd inside (Nat.not_lt_zero a),
    fun value p inP => ?_⟩
  · rw [empty] at member
    exact absurd member (notMem_empty q)
  · rw [empty] at inP
    exact absurd inP (notMem_empty p)

/-- **The loop** fills the buckets. -/
theorem fillBuckets_inBuckets {buckets : Nat → Int} (whole : done ++ bytes = old)
    (begin : ∀ value < 256, buckets value = countBelow old value + countOf done value)
    (filled : InBuckets old done I) :
    ∃ buckets' I', fillBuckets bytes done.length buckets I = (buckets', I') ∧
      (∀ value < 256, buckets' value = countBelow old (value + 1)) ∧ InBuckets old old I' := by
  induction bytes generalizing done buckets I with
  | nil =>
      rw [List.append_nil] at whole
      refine ⟨buckets, I, rfl, fun value small => ?_, whole ▸ filled⟩
      rw [begin value small, countBelow_succ, whole]
      push_cast
      rfl
  | cons byte bytes ih =>
      have next := begin byte.toNat byte.toNat_lt
      have grown : ((done ++ [byte]).length : Int) = done.length + 1 := by
        rw [List.length_append, List.length_singleton]
        push_cast
        rfl
      rw [fillBuckets, next, ← grown]
      refine ih (by rw [List.append_assoc]; exact whole) (fun value small => ?_) (filled.snoc whole)
      rw [Function.update_apply, countOf_snoc]
      by_cases here : value = byte.toNat
      · rw [if_pos here, if_pos here.symm, here]
        push_cast
        omega
      · rw [if_neg here, if_neg (Ne.symm here), begin value small]
        push_cast
        omega

end Filling

/-! ### The first groups -/

section Groups

variable {old : List UInt8} {I V : Int → Int}

/-- A place gets the end of its bucket. -/
theorem groupLoop_apply (buckets : Nat → Int) (V : Int → Int) {bytes : List UInt8} (start : Int)
    {a : Nat} (inside : a < bytes.length) :
    groupLoop buckets bytes start V (start + a) = buckets (byteOf bytes a) := by
  have kept : ∀ (bytes : List UInt8) (start : Int) (V : Int → Int) (p : Int), p < start →
      groupLoop buckets bytes start V p = V p := by
    intro bytes
    induction bytes with
    | nil => exact fun _ _ _ _ => rfl
    | cons byte bytes ih =>
        intro start V p before
        rw [groupLoop, ih _ _ _ (by omega), Function.update_of_ne (ne_of_lt before)]
  induction bytes generalizing start V a with
  | nil => exact absurd inside (Nat.not_lt_zero a)
  | cons byte bytes ih =>
      rw [groupLoop]
      cases a with
      | zero =>
          rw [Nat.cast_zero, add_zero, kept _ _ _ _ (by omega), Function.update_self]
          rfl
      | succ a =>
          have next : start + (a + 1 : Nat) = start + 1 + a := by
            push_cast
            omega
          rw [next, ih _ _ (by simpa using inside)]
          rfl

/-- Which positions the last loop marks: those of a bucket with one place. -/
theorem markLoop_apply {buckets : Nat → Int} (count : Nat) (q : Int) :
    markLoop buckets count I q =
      if ∃ value < count, buckets (value + 1) = buckets value + 1 ∧ q = buckets (value + 1) then -1
      else I q := by
  induction count with
  | zero =>
      rw [if_neg]
      · rfl
      · rintro ⟨value, small, _⟩
        exact Nat.not_lt_zero value small
  | succ count ih =>
      simp only [markLoop]
      by_cases single : buckets (count + 1) = buckets count + 1
      · rw [if_pos single, Function.update_apply]
        by_cases here : q = buckets (count + 1)
        · rw [if_pos here, if_pos ⟨count, Nat.lt_succ_self count, single, here⟩]
        · rw [if_neg here, ih]
          refine if_congr ⟨?_, ?_⟩ rfl rfl
          · rintro ⟨value, small, marked⟩
            exact ⟨value, Nat.lt_succ_of_lt small, marked⟩
          · rintro ⟨value, small, marked⟩
            rcases Nat.lt_succ_iff_lt_or_eq.mp small with before | rfl
            · exact ⟨value, before, marked⟩
            · exact absurd marked.2 here
      · rw [if_neg single, ih]
        refine if_congr ⟨?_, ?_⟩ rfl rfl
        · rintro ⟨value, small, marked⟩
          exact ⟨value, Nat.lt_succ_of_lt small, marked⟩
        · rintro ⟨value, small, marked⟩
          rcases Nat.lt_succ_iff_lt_or_eq.mp small with before | rfl
          · exact ⟨value, before, marked⟩
          · exact absurd marked.1 single

/-- The row and the groups after the first order. The empty suffix is alone; a bucket holds the
places with its byte, unless it is marked as one with a single place. -/
structure Bucketed (old : List UInt8) (I K V : Int → Int) : Prop where
  filled : InBuckets old old K
  empty : I 0 = -1
  marked : ∀ value, ∀ q ∈ bucket old old value, I q = -1 ∧ countOf old value = 1 ∨ I q = K q
  last : V old.length = 0
  groups : ∀ a < old.length, V a = countBelow old (byteOf old a + 1)

theorem bucketSort_bucketed (old : List UInt8) (I V : Int → Int) :
    ∃ K, Bucketed old (bucketSort old I V).1 K (bucketSort old I V).2 := by
  have begin : ∀ value < 256,
      Function.update (shiftBuckets 255 (sumBuckets 255 0 (countBuckets old))) 0 0 value =
        (countBelow old value : Int) + countOf [] value := by
    intro value small
    rw [buckets_countBelow old small, countOf, List.countP_nil, Nat.cast_zero, add_zero]
  obtain ⟨buckets, K, equation, ends, filled⟩ :=
    fillBuckets_inBuckets (List.nil_append old) begin (InBuckets.nil : InBuckets old [] I)
  rw [List.length_nil, Nat.cast_zero] at equation
  have positive : ∀ value, ∀ q ∈ bucket old old value, q ≠ 0 := by
    rintro value q member rfl
    have lower := member.1
    omega
  have sorted : bucketSort old I V =
      (Function.update (markLoop buckets 255 (Function.update K 0 old.length)) 0 (-1),
        Function.update (groupLoop buckets old 0 V) old.length 0) := by
    simp only [bucketSort, equation]
  rw [sorted]
  refine ⟨K, filled, ?_, ?_, ?_, ?_⟩
  · dsimp only
    rw [Function.update_self]
  · intro value q member
    dsimp only
    rw [Function.update_of_ne (positive value q member), markLoop_apply]
    split_ifs with marked
    · left
      obtain ⟨other, small, single, here⟩ := marked
      have succ := countBelow_succ old (other + 1)
      rw [ends _ (by omega), ends _ (by omega)] at single
      rw [ends _ (by omega)] at here
      have inside : q ∈ bucket old old (other + 1) := ⟨by omega, by omega⟩
      refine ⟨rfl, ?_⟩
      rw [bucket_apart member inside]
      omega
    · right
      exact Function.update_of_ne (positive value q member) _ _
  · dsimp only
    rw [Function.update_self]
  · intro a inside
    dsimp only
    rw [Function.update_of_ne (by omega)]
    have group := groupLoop_apply buckets V 0 inside
    rw [zero_add] at group
    rw [group]
    exact ends _ (old.getD a 0).toNat_lt

/-- The places are the suffixes with a byte, and the empty one. -/
theorem places_cases {c : Int} (member : c ∈ places old.length) :
    c = old.length ∨ ∃ a < old.length, c = (a : Int) := by
  have lower := member.1
  have upper := member.2
  by_cases last : c = old.length
  · exact Or.inl last
  · exact Or.inr ⟨c.toNat, by omega, by omega⟩

theorem place_mem {a : Nat} (inside : a < old.length) : (a : Int) ∈ places old.length :=
  ⟨by omega, by omega⟩

namespace Bucketed

variable {K : Int → Int} (bucketed : Bucketed old I K V)

include bucketed

/-- The group of a place is the last position of its bucket. -/
theorem group_mem {a : Nat} (inside : a < old.length) :
    V a ∈ bucket old old (byteOf old a) := by
  have one := countOf_pos inside
  have succ := countBelow_succ old (byteOf old a)
  rw [bucketed.groups a inside]
  exact ⟨by omega, by omega⟩

/-- A suffix whose group is in a bucket stands in it. -/
theorem owned {value : Nat} {c : Int} (member : c ∈ places old.length)
    (within : V c ∈ bucket old old value) : ∃ q ∈ bucket old old value, K q = c := by
  rcases places_cases member with rfl | ⟨a, inside, rfl⟩
  · have lower := within.1
    rw [bucketed.last] at lower
    omega
  · have byte := bucket_apart (bucketed.group_mem inside) within
    obtain ⟨q, inQ, at'⟩ := bucketed.filled.found a inside
    rw [byte] at inQ
    exact ⟨q, inQ, at'⟩

/-- What stands in a bucket. -/
theorem placed {value : Nat} {q : Int} (within : q ∈ bucket old old value) :
    K q ∈ places old.length ∧ V (K q) = countBelow old (value + 1) ∧ Long old.length 1 (K q) := by
  obtain ⟨a, inside, at', byte⟩ := bucketed.filled.placed value q within
  rw [at', bucketed.groups a inside, byte]
  refine ⟨place_mem inside, rfl, ?_⟩
  unfold Long
  omega

/-- The part of the row that a bucket takes. -/
theorem bucket_runs (value : Nat) :
    Runs (places old.length) (Long old.length 1) I V (countBelow old value + 1)
      (countBelow old (value + 1) + 1) := by
  have succ := countBelow_succ old value
  have stretch : Ico (countBelow old value + 1 : Int) (countBelow old (value + 1) + 1) =
      bucket old old value := by
    ext q
    rw [bucket, mem_Ico, mem_Ioc]
    omega
  by_cases none : countOf old value = 0
  · rw [succ, none]
    exact .nil _
  · by_cases whole : ∀ q ∈ bucket old old value, I q = K q
    · refine .group (by omega) ⟨?_, ?_, ?_, ?_, by omega⟩ ?_ (.nil _)
      · intro q within
        rw [stretch] at within
        rw [whole q within]
        exact (bucketed.placed within).1
      · intro q within
        rw [stretch] at within
        rw [whole q within, (bucketed.placed within).2.1]
        omega
      · rw [stretch]
        exact (bucketed.filled.inj value).congr fun q within => (whole q within).symm
      · intro c member within
        rw [stretch] at within ⊢
        obtain ⟨q, inQ, at'⟩ := bucketed.owned member within
        exact ⟨q, inQ, (whole q inQ).trans at'⟩
      · intro q within
        rw [stretch] at within
        rw [whole q within]
        exact (bucketed.placed within).2.2
    · -- A marked bucket has one place.
      obtain ⟨q, within, other⟩ : ∃ q ∈ bucket old old value, I q ≠ K q := by
        by_contra same
        exact whole fun q within => not_not.mp fun other => same ⟨q, within, other⟩
      rcases bucketed.marked value q within with ⟨mark, single⟩ | same
      · have only : ∀ p ∈ bucket old old value, p = countBelow old value + 1 := by
          intro p inP
          have lower := inP.1
          have upper := inP.2
          omega
        have here := only q within
        rw [here] at mark within
        rw [succ, single]
        refine .alone mark ⟨K (countBelow old value + 1), (bucketed.placed within).1, ?_, ?_⟩
        · rw [(bucketed.placed within).2.1]
          omega
        · intro b member at'
          obtain ⟨r, inR, at''⟩ := bucketed.owned member (at' ▸ within)
          rw [← at'', only r inR]
      · exact absurd same other

/-- **The first groups**: the suffixes with the same first byte. -/
theorem grouped : Grouped old.length 1 I V := by
  have rows : ∀ value,
      Runs (places old.length) (Long old.length 1) I V 1 (countBelow old value + 1) := by
    intro value
    induction value with
    | zero =>
        rw [countBelow_zero]
        exact .nil 1
    | succ value ih => exact ih.append (bucketed.bucket_runs value)
  have first : Runs (places old.length) (Long old.length 1) I V 0 1 := by
    refine .alone bucketed.empty ⟨old.length, ⟨by omega, le_rfl⟩, bucketed.last, ?_⟩
    intro b member at'
    rcases places_cases member with rfl | ⟨a, inside, rfl⟩
    · rfl
    · have lower := (bucketed.group_mem inside).1
      omega
  refine ⟨?_, fun c member => ?_⟩
  · have all := first.append (rows 256)
    rw [countBelow_all] at all
    exact all
  · rcases places_cases member with rfl | ⟨a, inside, rfl⟩
    · rw [bucketed.last]
      exact ⟨le_rfl, by omega⟩
    · have upper : countBelow old (byteOf old a + 1) ≤ old.length := List.countP_le_length
      rw [bucketed.groups a inside]
      exact ⟨by omega, by omega⟩

end Bucketed

end Groups

/-! ### The whole sorting -/

section Sorting

/-- When every position belongs to one suffix, the last loop finds it. -/
theorem invertLoop_inverse (I : Int → Int) {n : Nat} {V : Int → Int}
    (placed : ∀ p ∈ places n, Placed (places n) V p) {p : Int} (member : p ∈ places n) :
    invertLoop V (n + 1) I p ∈ places n ∧ V (invertLoop V (n + 1) I p) = p := by
  obtain ⟨a, ⟨lower, upper⟩, at', _⟩ := placed p member
  have cast : ((a.toNat : Nat) : Int) = a := Int.toNat_of_nonneg lower
  obtain ⟨b, before, found, result⟩ :=
    invertLoop_place I ⟨a.toNat, (by omega : a.toNat < n + 1), cast ▸ at'⟩
  rw [result]
  exact ⟨⟨by omega, by omega⟩, found⟩

/-- **`qsufsort`** ends, whatever `I` and `V` held, and `I` then holds every place of the old image
once. -/
theorem qsufsort_places (old : List UInt8) (I V : Int → Int) :
    ∃ I', qsufsort I V old = some I' ∧ BijOn I' (places old.length) (places old.length) := by
  obtain ⟨K, bucketed⟩ := bucketSort_bucketed old I V
  generalize first : bucketSort old I V = sorted at bucketed
  obtain ⟨I₁, V₁⟩ := sorted
  obtain ⟨I₂, V₂, equation, placed, tags⟩ := sortLoop_places (by omega) le_rfl bucketed.grouped
    (Or.inr ⟨by omega, by push_cast; omega⟩ : _ ∨ 2 ≤ old.length + 2 ∧ _)
  refine ⟨invertLoop V₂ (old.length + 1) I₂, ?_, ?_, ?_, ?_⟩
  · simp only [qsufsort, first, equation, Option.bind_eq_bind, Option.bind_some]
  · exact fun p member => (invertLoop_inverse I₂ placed member).1
  · intro p inP q inQ same
    rw [← (invertLoop_inverse I₂ placed inP).2, same, (invertLoop_inverse I₂ placed inQ).2]
  · intro a member
    have inside := tags a member
    obtain ⟨_, _, _, only⟩ := placed (V₂ a) inside
    obtain ⟨there, back⟩ := invertLoop_inverse I₂ placed inside
    exact ⟨V₂ a, inside, (only _ there back).trans (only a member rfl).symm⟩

/-- What the search asks of the suffixes, the sorting gives. -/
theorem qsufsort_suffixes (old : List UInt8) (I V : Int → Int) :
    ∃ I', qsufsort I V old = some I' ∧ Suffixes old fun index => I' index := by
  obtain ⟨I', equation, every⟩ := qsufsort_places old I V
  exact ⟨I', equation, fun index inside => every.mapsTo ⟨by omega, by omega⟩⟩

/-- **The diff command with its own sorting**: for any two images it ends, and writes a header and a
complete patch for the new one. -/
theorem sortedDiff_complete (old new : List UInt8) (I V : Int → Int)
    (oldSmall : old.length < 2 ^ 31) (newSmall : new.length < 2 ^ 31) :
    ∃ I' body, qsufsort I V old = some I' ∧
      pipelineDiffCommand old new (searchFrom (fun index => I' index) old new) =
        some (List.replicate 16 0x2a ++ offtout new.length ++ body) ∧
      Complete old new.length 0 0 body new [] true := by
  obtain ⟨I', sorted, suffixes⟩ := qsufsort_suffixes old I V
  obtain ⟨body, written, complete⟩ :=
    pipelineDiffCommand_complete (searchFrom_searches suffixes) oldSmall newSmall
  exact ⟨I', body, sorted, written, complete⟩

end Sorting

end Upkit

import FeatureFlags.Proofs.Json.ReadBack
import FeatureFlags.Proofs.Targeting.Codecs
import Mathlib.Data.List.Induction
import Mathlib.Order.Interval.Finset.Nat

/-!
# Populations as sets of buckets

`Population.represents_buckets`: a population that is made from a list has the buckets of the list
that the standard space has, its size is the number of its buckets (`Population.buckets`), and
whatever is written for a population is read as that population.

To list a bucket sets its bit and leaves all others as they are (`contains_addBucket`). So the list
may name buckets in any order and more than once, and those outside the space leave no trace
(`ofBuckets_filter`). The size adds up bytes, and each byte holds the bits of eight buckets in a row
(`size_sample`): as many as there are buckets, if there is one bit for each of them.
-/

namespace FeatureFlags.Population

open Json

/-- The buckets of the standard space that are in a population. -/
def buckets (p : Population) : Finset Nat :=
  (Finset.range Bucket.standardCount).filter fun i => p.contains i = true

variable {bytes : Array UInt8} {listed : List Nat} {bucket i k : Nat}

theorem eight_mul_byteCount : 8 * byteCount = Bucket.standardCount := by decide

/-! ## Listed buckets -/

theorem testBit_setBit (hi : i < 8) (b : UInt8) :
    testBit (setBit b i) k = true ↔ testBit b k = true ∨ i = k := by
  have hbyte : (UInt8.ofNat (Nat.pow 2 i)).toNat = 2 ^ i :=
    UInt8.toNat_ofNat_of_lt' (Nat.pow_lt_pow_right (by decide) hi)
  rw [testBit, setBit, UInt8.toNat_or, hbyte, Nat.testBit_or, Nat.testBit_two_pow, Bool.or_eq_true,
    decide_eq_true_iff, testBit]

theorem contains_empty (i : Nat) : empty.contains i = false := by
  rw [empty, contains, Array.getElem?_replicate]
  split
  · exact Nat.zero_testBit _
  · rfl

theorem size_addBucket (bytes : Array UInt8) (bucket : Nat) :
    (addBucket bytes bucket).size = bytes.size := by
  unfold addBucket
  split
  · exact Array.size_modify
  · rfl

/-- **To list a bucket sets its bit and no other.** -/
theorem contains_addBucket (hsize : bytes.size = byteCount) :
    (sample (addBucket bytes bucket)).contains i = true ↔
      (sample bytes).contains i = true ∨ i = bucket ∧ i < Bucket.standardCount := by
  unfold addBucket
  split
  · next hbucket =>
    rw [contains, contains, Array.getElem?_modify]
    by_cases hbyte : bucket / 8 = i / 8
    · -- two buckets of one byte are one if their bits are
      have hsame : bucket % 8 = i % 8 ↔ i = bucket ∧ i < Bucket.standardCount := by omega
      have hindex : i / 8 < bytes.size := by
        rw [hsize]
        have hcount := eight_mul_byteCount
        omega
      rw [if_pos hbyte, Array.getElem?_eq_getElem hindex, Option.map_some, Option.any_some,
        Option.any_some, testBit_setBit (Nat.mod_lt _ (by decide)), hsame]
    · have hne : ¬ (i = bucket ∧ i < Bucket.standardCount) := by
        rintro ⟨rfl, -⟩
        exact hbyte rfl
      rw [if_neg hbyte, or_iff_left hne]
  · next hbucket =>
    have hne : ¬ (i = bucket ∧ i < Bucket.standardCount) := by
      rintro ⟨rfl, hi⟩
      exact hbucket hi
    rw [or_iff_left hne]

theorem size_foldl_addBucket (listed : List Nat) (bytes : Array UInt8) :
    (listed.foldl addBucket bytes).size = bytes.size := by
  induction listed generalizing bytes with
  | nil => rfl
  | cons bucket listed ih => rw [List.foldl_cons, ih, size_addBucket]

theorem contains_foldl_addBucket (hsize : bytes.size = byteCount) :
    (sample (listed.foldl addBucket bytes)).contains i = true ↔
      (sample bytes).contains i = true ∨ i ∈ listed ∧ i < Bucket.standardCount := by
  induction listed generalizing bytes with
  | nil => simp
  | cons bucket listed ih =>
    rw [List.foldl_cons, ih ((size_addBucket _ _).trans hsize), contains_addBucket hsize, or_assoc,
      ← or_and_right, List.mem_cons]

/-- A listed population has one bit for each bucket. -/
theorem isWellFormed_ofBuckets (listed : List Nat) : (ofBuckets listed).isWellFormed = true := by
  rw [ofBuckets, isWellFormed, size_foldl_addBucket, Array.size_replicate]
  exact decide_eq_true rfl

/-- A listed population has the buckets of the list, as far as there are such buckets. -/
theorem contains_ofBuckets :
    (ofBuckets listed).contains i = true ↔ i ∈ listed ∧ i < Bucket.standardCount := by
  have hempty : (sample (Array.replicate byteCount 0)).contains i = false := contains_empty i
  rw [ofBuckets, contains_foldl_addBucket Array.size_replicate, hempty]
  exact or_iff_right Bool.false_ne_true

/-- Buckets outside the standard space leave no trace in a listed population. -/
theorem ofBuckets_filter (listed : List Nat) :
    ofBuckets (listed.filter (· < Bucket.standardCount)) = ofBuckets listed := by
  have hadd : (fun bytes bucket => if decide (bucket < Bucket.standardCount) = true then
      addBucket bytes bucket else bytes) = addBucket := by
    funext bytes bucket
    by_cases hbucket : bucket < Bucket.standardCount
    · rw [if_pos (decide_eq_true hbucket)]
    · rw [if_neg (mt of_decide_eq_true hbucket), addBucket, if_neg hbucket]
  rw [ofBuckets, ofBuckets, List.foldl_filter, hadd]

/-- A range is the list of all its buckets, also of those outside the standard space. -/
theorem ofRange_eq_ofBuckets (lower upper : Nat) :
    ofRange lower upper = ofBuckets (List.range' lower (upper - lower)) := by
  generalize hinside : min upper Bucket.standardCount - lower = inside
  generalize houtside : upper - lower - inside = outside
  have hsplit : List.range' lower (upper - lower) =
      List.range' lower inside ++ List.range' (lower + inside) outside := by
    rw [List.range'_append_1]
    congr 1
    omega
  have hkept : ∀ i ∈ List.range' lower inside, decide (i < Bucket.standardCount) = true := by
    intro i hi
    rw [List.mem_range'_1] at hi
    exact decide_eq_true (by omega)
  have hdropped : ∀ i ∈ List.range' (lower + inside) outside,
      ¬ decide (i < Bucket.standardCount) = true := by
    intro i hi
    rw [List.mem_range'_1] at hi
    rw [decide_eq_true_iff]
    omega
  rw [ofRange, hinside, ← ofBuckets_filter (List.range' lower (upper - lower)), hsplit,
    List.filter_append, List.filter_eq_self.mpr hkept, List.filter_eq_nil_iff.mpr hdropped,
    List.append_nil]

theorem contains_ofRange {lower upper : Nat} :
    (ofRange lower upper).contains i = true ↔
      (lower ≤ i ∧ i < upper) ∧ i < Bucket.standardCount := by
  rw [ofRange_eq_ofBuckets, contains_ofBuckets, List.mem_range'_1]
  omega

/-- A unit falls into a listed population if its bucket is in the list. -/
theorem admits_ofBuckets_iff {unit salt : String} :
    (ofBuckets listed).admits unit salt = true ↔ Bucket.standard unit salt ∈ listed := by
  have hbound : Bucket.standard unit salt < Bucket.standardCount := Nat.mod_lt _ (by decide)
  show (ofBuckets listed).contains (Bucket.standard unit salt) = true ↔ _
  rw [contains_ofBuckets, and_iff_left hbound]

/-! ## Sizes -/

theorem contains_push_of_lt (b : UInt8) (h : i < 8 * bytes.size) :
    (sample (bytes.push b)).contains i = (sample bytes).contains i := by
  have hindex : i / 8 < bytes.size := by omega
  rw [contains, contains, Array.getElem?_push_lt hindex, Array.getElem?_eq_getElem hindex]

theorem contains_push_last (b : UInt8) (hk : k < 8) :
    (sample (bytes.push b)).contains (8 * bytes.size + k) = testBit b k := by
  have hindex : (8 * bytes.size + k) / 8 = bytes.size := by omega
  have hbit : (8 * bytes.size + k) % 8 = k := by omega
  rw [contains, hindex, hbit, Array.getElem?_push_size, Option.any_some]

/-- The size of a population in bytes is the number of its buckets among those that the bytes have
bits for. -/
theorem size_sample (bytes : Array UInt8) :
    (sample bytes).size = (List.range (8 * bytes.size)).countP (sample bytes).contains := by
  obtain ⟨items, rfl⟩ : ∃ items : List UInt8, bytes = items.toArray :=
    ⟨bytes.toList, Array.toArray_toList.symm⟩
  induction items using List.reverseRecOn with
  | nil => rfl
  | append_singleton items b ih =>
    rw [← List.push_toArray]
    generalize items.toArray = front at ih ⊢
    have hfront : (List.range (8 * front.size)).countP (sample (front.push b)).contains =
        (sample front).size := by
      rw [ih]
      refine List.countP_congr fun i hi => ?_
      rw [contains_push_of_lt b (List.mem_range.mp hi)]
    have hlast : (List.range 8).countP
        ((sample (front.push b)).contains ∘ fun k => 8 * front.size + k) = countBits b := by
      refine List.countP_congr fun k hk => ?_
      rw [Function.comp_apply, contains_push_last b (List.mem_range.mp hk)]
    rw [Array.size_push, Nat.mul_succ, List.range_add, List.countP_append, List.countP_map, hfront,
      hlast, size, size, Array.foldl_push]

/-- A population with one bit for each bucket has as many buckets as its size says. -/
theorem size_eq_card {p : Population} (h : p.isWellFormed = true) : p.size = p.buckets.card := by
  have hcard : p.buckets.card = (List.range Bucket.standardCount).countP p.contains := by
    rw [buckets, ← List.toFinset_range, List.nodup_range.card_eq_countP]
    simp only [Bool.decide_eq_true]
  rw [hcard]
  cases p with
  | full =>
    have hall : ∀ i ∈ List.range Bucket.standardCount, full.contains i = true := fun _ _ => rfl
    rw [List.countP_eq_length.mpr hall, List.length_range, size]
  | sample bytes =>
    have hsize : bytes.size = byteCount := of_decide_eq_true h
    rw [size_sample, hsize, eight_mul_byteCount]

theorem buckets_ofBuckets (listed : List Nat) :
    (ofBuckets listed).buckets = listed.toFinset.filter (· < Bucket.standardCount) := by
  ext i
  simp only [buckets, Finset.mem_filter, Finset.mem_range, contains_ofBuckets, List.mem_toFinset]
  exact and_iff_right_of_imp And.right

/-- The size of a listed population is the number of different buckets in the list, as far as there
are such buckets. -/
theorem size_ofBuckets (listed : List Nat) :
    (ofBuckets listed).size = (listed.toFinset.filter (· < Bucket.standardCount)).card := by
  rw [size_eq_card (isWellFormed_ofBuckets listed), buckets_ofBuckets]

/-! ## Texts -/

/-- The text of a population is read as the population, whatever number of bytes it has. -/
theorem ofText?_toText (p : Population) : (Json.ofText? p.toJson.toText).bind ofJson? = some p := by
  obtain ⟨hreads, hreadable, hdepth⟩ : ReadsBack ofJson? toJson 0 p := p.readsBack
  rw [Json.ofText?_toText hreadable (hdepth.trans (Nat.zero_le _)), Option.bind_some, hreads]

/-! ## Populations as sets -/

/-- **Populations represent sets of buckets.** A listed population contains a bucket exactly if the
list names it and the standard space has it; it has one bit for each bucket, its size is the number
of different buckets that it lists, and a unit falls into it exactly if its bucket is listed. A
range contains the buckets of the space from its lower end up to but excluding the upper one. The
size of any population with one bit for each bucket is the number of its buckets. Whatever a
population is written as, tree or text, is read as that population, also if it has too few or too
many bytes. -/
theorem represents_buckets :
    (∀ listed : List Nat,
      (∀ i, (ofBuckets listed).contains i = true ↔ i ∈ listed ∧ i < Bucket.standardCount) ∧
      (ofBuckets listed).isWellFormed = true ∧
      (ofBuckets listed).size = (listed.toFinset.filter (· < Bucket.standardCount)).card ∧
      ∀ unit salt, (ofBuckets listed).admits unit salt = true ↔
        Bucket.standard unit salt ∈ listed) ∧
    (∀ lower upper i, (ofRange lower upper).contains i = true ↔
      (lower ≤ i ∧ i < upper) ∧ i < Bucket.standardCount) ∧
    (∀ p : Population, p.isWellFormed = true → p.size = p.buckets.card) ∧
    ∀ p : Population,
      ofJson? p.toJson = some p ∧ (Json.ofText? p.toJson.toText).bind ofJson? = some p := by
  refine ⟨fun listed => ⟨fun i => contains_ofBuckets, ?_, ?_, ?_⟩, fun lower upper i => ?_,
    fun p h => ?_, fun p => ⟨?_, ?_⟩⟩
  · exact isWellFormed_ofBuckets listed
  · exact size_ofBuckets listed
  · exact fun unit salt => admits_ofBuckets_iff
  · exact contains_ofRange
  · exact size_eq_card h
  · exact (p.readsBack (n := 0)).reads
  · exact ofText?_toText p

/-- A list that is not in order, names one bucket twice and goes on behind the standard space. -/
def unsorted : List Nat := [9, 999999, 0, 9, 1000000]

theorem unsorted_represented :
    (ofBuckets unsorted).contains 9 = true ∧ (ofBuckets unsorted).contains 8 = false ∧
      (ofBuckets unsorted).contains 1000000 = false ∧ (ofBuckets unsorted).isWellFormed = true ∧
      (ofBuckets unsorted).size = 3 ∧ (ofBuckets unsorted).buckets.card = 3 := by
  obtain ⟨hlisted, -, hsize, -⟩ := represents_buckets
  obtain ⟨hcontains, hwellFormed, hcount, -⟩ := hlisted unsorted
  have hthree : (ofBuckets unsorted).size = 3 := hcount
  refine ⟨(hcontains 9).mpr (by decide), ?_, ?_, hwellFormed, hthree, ?_⟩
  · exact Bool.eq_false_iff.mpr fun h => absurd (hcontains 8 |>.mp h) (by decide)
  · exact Bool.eq_false_iff.mpr fun h => absurd (hcontains 1000000 |>.mp h) (by decide)
  · rw [← hsize _ hwellFormed, hthree]

end FeatureFlags.Population

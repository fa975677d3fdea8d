import Mathlib.Data.Finset.Card
import Mathlib.Data.Finset.Sort
import Thermometer.FastSetModel

namespace Thermometer.FastSetRefines

open Lib.Fields Lib.SortedArrays FastSetModel

variable {data : BitVec maxSize} {s : FastSet} {S : Set Nat} {i j k n p x y : Nat} {v : Nat → Nat} {l xs : List Nat}

section Memory

theorem value_setValue (hj : j < 32) (hx : x < maxSize) : value (setValue data i x) j = if j = i then x else value data j := by
  have hfits : 16 * j + 16 ≤ maxSize := show _ ≤ 512 by omega
  split_ifs with hji
  · subst hji
    rw [value, setValue, field_setField_self hfits, BitVec.toNat_ofNat]
    exact Nat.mod_eq_of_lt (hx.trans (by decide))
  · rw [value, setValue, field_setField_ne hfits hji, value]

theorem getbit_eq (data : BitVec maxSize) (x : Nat) : getbit data x = data.getLsbD x := by
  have hlow : x &&& 63 < 64 := Nat.and_lt_two_pow x (n := 6) (by decide)
  have hindex : 64 * (x >>> 6) + (x &&& 63) = x := by
    rw [Nat.shiftRight_eq_div_pow, Nat.and_two_pow_sub_one_eq_mod x 6]
    exact Nat.div_add_mod x 64
  have hbit : (word data (x >>> 6) >>> (x &&& 63)).getLsbD 0 = data.getLsbD x := by
    rw [BitVec.getLsbD_ushiftRight, Nat.add_zero, word, getLsbD_field hlow, hindex]
  rw [getbit, BitVec.and_one_eq_setWidth_ofBool_getLsbD, hbit]
  cases data.getLsbD x with
  | false => rfl
  | true => rfl

theorem getLsbD_setbit (hy : y < maxSize) : (setbit data x).getLsbD y = (data.getLsbD y || decide (y = x)) := by
  have hmod : x &&& 63 = x % 64 := Nat.and_two_pow_sub_one_eq_mod x 6
  have hdiv : x >>> 6 = x / 64 := Nat.shiftRight_eq_div_pow x 6
  rw [setbit, hmod, hdiv, getLsbD_setField hy]
  split_ifs with hin
  · have hsub : y - 64 * (x / 64) < 64 := by omega
    have hback : 64 * (x / 64) + (y - 64 * (x / 64)) = y := by omega
    rw [BitVec.getLsbD_or, word, getLsbD_field hsub, hback, BitVec.getLsbD_shiftLeft, BitVec.getLsbD_one]
    by_cases hyx : y = x
    · have hzero : y - 64 * (x / 64) - x % 64 = 0 := by omega
      have hle : ¬y - 64 * (x / 64) < x % 64 := by omega
      rw [decide_eq_true hsub, decide_eq_false hle, decide_eq_true hzero, decide_eq_true hyx]
      rfl
    · have hsome : y - 64 * (x / 64) < x % 64 ∨ y - 64 * (x / 64) - x % 64 ≠ 0 := by omega
      rcases hsome with hlt | hne
      · rw [decide_eq_true hlt, decide_eq_false hyx]
        simp
      · rw [decide_eq_false hne, decide_eq_false hyx]
        simp
  · have hne : y ≠ x := by omega
    rw [decide_eq_false hne, Bool.or_false]

theorem getLsbD_foldl_setbit (hy : y < maxSize) (data : BitVec maxSize) (l : List Nat) :
    (l.foldl setbit data).getLsbD y = true ↔ data.getLsbD y = true ∨ y ∈ l := by
  induction l generalizing data with
  | nil => simp
  | cons x l ih =>
      rw [List.foldl_cons, ih, getLsbD_setbit hy, Bool.or_eq_true, decide_eq_true_iff, List.mem_cons]
      exact or_assoc

theorem value_shiftUp (hn : i + n < 32) (hdata : ∀ j < i + n, value data j < maxSize) (hj : j < 32) :
    value (shiftUp i n data) j = if i < j ∧ j ≤ i + n then value data (j - 1) else value data j := by
  induction n generalizing data with
  | zero =>
      rw [shiftUp, if_neg (by omega)]
  | succ n ih =>
      have hlast : value data (i + n) < maxSize := hdata (i + n) (by omega)
      have hset : ∀ k < 32, value (setValue data (i + n + 1) (value data (i + n))) k =
          if k = i + n + 1 then value data (i + n) else value data k := fun k hk => value_setValue hk hlast
      rw [shiftUp, ih (by omega) ?_]
      · by_cases hmoved : i < j ∧ j ≤ i + n
        · rw [if_pos hmoved, if_pos (by omega), hset _ (by omega), if_neg (by omega)]
        · rw [if_neg hmoved, hset j hj]
          by_cases htop : j = i + n + 1
          · rw [if_pos htop, if_pos (by omega), htop, Nat.add_sub_cancel]
          · rw [if_neg htop, if_neg (by omega)]
      · intro k hk
        rw [hset k (by omega), if_neg (by omega)]
        exact hdata k (by omega)

end Memory

/-- The set that is stored: as increasing values while it is small, as bits from then on. -/
structure Represents (s : FastSet) (S : Set Nat) : Prop where
  bounded : ∀ x ∈ S, x < maxSize
  card_le : s.card ≤ smallSize
  small : s.card < smallSize → Ascending (value s.data) s.card ∧ ∀ x, Occurs (value s.data) s.card x ↔ x ∈ S
  large : s.card = smallSize → ∀ x < maxSize, s.data.getLsbD x = true ↔ x ∈ S

section Insert

theorem new_represents (data : BitVec maxSize) : Represents (.new data) ∅ := by
  refine ⟨fun x hx => absurd hx (Set.notMem_empty x), Nat.zero_le _, fun _ => ⟨?_, fun x => ?_⟩, fun h => ?_⟩
  · intro i j _ hj
    exact absurd hj (Nat.not_lt_zero j)
  · apply iff_of_false
    · rintro ⟨j, hj, -⟩
      exact Nat.not_lt_zero j hj
    · exact Set.notMem_empty x
  · cases h

theorem insertSmall_inserted (h : Represents s S) (hsmall : s.card < smallSize) (hx : x < maxSize) (hp : p ≤ s.card) :
    Inserted (value s.data) (value (setValue (shiftUp p (s.card - p) s.data) p x)) s.card p x := by
  have hcard : s.card < 13 := hsmall
  have hdata : ∀ j < p + (s.card - p), value s.data j < maxSize := by
    intro j hj
    apply h.bounded
    exact ((h.small hsmall).2 _).mp ⟨j, by omega, rfl⟩
  intro j hj
  rw [value_setValue (by omega) hx]
  by_cases hjp : j = p
  · rw [if_pos hjp, if_neg (by omega), if_pos hjp]
  · rw [if_neg hjp, value_shiftUp (by omega) hdata (by omega), if_neg hjp]
    by_cases hlow : j < p
    · rw [if_neg (by omega), if_pos hlow]
    · rw [if_pos (by omega), if_neg hlow]

theorem insertSmall_represents (h : Represents s S) (hsmall : s.card < smallSize) (hx : x < maxSize) :
    (insertSmall s x).card ≤ smallSize ∧ Ascending (value (insertSmall s x).data) (insertSmall s x).card ∧
      ∀ y, Occurs (value (insertSmall s x).data) (insertSmall s x).card y ↔ y ∈ Set.insert x S := by
  obtain ⟨hasc, hocc⟩ := h.small hsmall
  rw [insertSmall]
  cases hplace : place (value s.data) x s.card 0 with
  | none =>
      refine ⟨h.card_le, hasc, fun y => ?_⟩
      have hin : x ∈ S := (hocc x).mp (occurs_of_place hasc hplace)
      rw [hocc y]
      constructor
      · intro hy
        exact .inr hy
      · rintro (rfl | hy)
        · exact hin
        · exact hy
  | some p =>
      have hfits := fits_of_place hasc hplace
      have hins := insertSmall_inserted h hsmall hx hfits.le
      refine ⟨hsmall, hins.ascending hasc hfits, fun y => ?_⟩
      rw [hins.occurs hfits.le, hocc y]
      rfl

theorem smalltobit_large (hcard : ∀ x, Occurs (value s.data) s.card x ↔ x ∈ S) (hy : y < maxSize) :
    (smalltobit s).data.getLsbD y = true ↔ y ∈ S := by
  rw [smalltobit, getLsbD_foldl_setbit hy, ← hcard y]
  constructor
  · rintro (hzero | hmem)
    · simp at hzero
    · obtain ⟨j, hj, rfl⟩ := List.mem_map.mp hmem
      exact ⟨j, List.mem_range.mp hj, rfl⟩
  · rintro ⟨j, hj, rfl⟩
    exact .inr (List.mem_map.mpr ⟨j, List.mem_range.mpr hj, rfl⟩)

theorem insert_represents (h : Represents s S) (hx : x < maxSize) : Represents (FastSetModel.insert s x) (Set.insert x S) := by
  have hbounded : ∀ y ∈ Set.insert x S, y < maxSize := by
    rintro y (rfl | hy)
    · exact hx
    · exact h.bounded y hy
  rw [FastSetModel.insert.eq_def]
  simp only
  split_ifs with hempty hsmall hfull
  · have hnone : ∀ y, y ∉ S := by
      intro y hy
      obtain ⟨j, hj, -⟩ := ((h.small (by rw [hempty]; decide)).2 y).mpr hy
      omega
    have hvalue : value (setValue s.data 0 x) 0 = x := by rw [value_setValue (by decide) hx, if_pos rfl]
    refine ⟨hbounded, show 1 ≤ 13 by decide, fun _ => ⟨?_, fun y => ?_⟩, fun hlarge => ?_⟩
    · intro i j hij hj
      have hj : j < 1 := hj
      omega
    · constructor
      · rintro ⟨j, hj, rfl⟩
        rw [Nat.lt_one_iff.mp hj, hvalue]
        exact .inl rfl
      · rintro (rfl | hy)
        · exact ⟨0, Nat.one_pos, hvalue⟩
        · exact absurd hy (hnone y)
    · have hlarge : 1 = 13 := hlarge
      omega
  · obtain ⟨hle, -, hocc⟩ := insertSmall_represents h hsmall hx
    exact ⟨hbounded, hle, fun hlt => absurd hfull hlt.ne, fun _ y hy => smalltobit_large hocc hy⟩
  · obtain ⟨hle, hasc, hocc⟩ := insertSmall_represents h hsmall hx
    exact ⟨hbounded, hle, fun _ => ⟨hasc, hocc⟩, fun heq => absurd heq hfull⟩
  · have hlarge : s.card = smallSize := le_antisymm h.card_le (not_lt.mp hsmall)
    refine ⟨hbounded, h.card_le, fun hlt => absurd hlt hsmall, fun _ y hy => ?_⟩
    rw [getLsbD_setbit hy, Bool.or_eq_true, decide_eq_true_iff, h.large hlarge y hy]
    exact or_comm

theorem foldl_represents (h : Represents s S) (hxs : ∀ x ∈ xs, x < maxSize) :
    Represents (xs.foldl FastSetModel.insert s) {y | y ∈ xs ∨ y ∈ S} := by
  induction xs generalizing s S with
  | nil =>
      have hset : {y | y ∈ ([] : List Nat) ∨ y ∈ S} = S := by
        ext y
        simp
      rw [hset]
      exact h
  | cons x xs ih =>
      have hset : {y | y ∈ x :: xs ∨ y ∈ S} = {y | y ∈ xs ∨ y ∈ Set.insert x S} := by
        ext y
        rw [Set.mem_ofPred_eq, Set.mem_ofPred_eq, List.mem_cons, or_assoc]
        exact or_left_comm
      rw [List.foldl_cons, hset]
      apply ih (insert_represents h (hxs x List.mem_cons_self))
      intro y hy
      exact hxs y (List.mem_cons_of_mem x hy)

end Insert

section Search

theorem searchSmall_iff (hasc : Ascending (value s.data) s.card) : searchSmall s x = true ↔ Occurs (value s.data) s.card x := by
  rw [searchSmall]
  split_ifs with hempty hsmaller
  · apply iff_of_false not_false
    rintro ⟨j, hj, -⟩
    omega
  · exact linearSearch_iff hasc
  · exact binarySearch_iff hasc (Nat.pos_of_ne_zero hempty)

theorem search_iff (h : Represents s S) (hx : x < maxSize) : search s x = true ↔ x ∈ S := by
  rw [search]
  split_ifs with hempty hone hsmall
  · rw [← (h.small (by rw [hempty]; decide)).2 x]
    apply iff_of_false not_false
    rintro ⟨j, hj, -⟩
    omega
  · rw [← (h.small (by rw [hone]; decide)).2 x, beq_iff_eq]
    constructor
    · intro heq
      exact ⟨0, by omega, heq⟩
    · rintro ⟨j, hj, rfl⟩
      have hzero : j = 0 := by omega
      rw [hzero]
  · obtain ⟨hasc, hocc⟩ := h.small hsmall
    rw [searchSmall_iff hasc, hocc x]
  · rw [getbit_eq, h.large (le_antisymm h.card_le (not_lt.mp hsmall)) x hx]

end Search

section Expand

/-- The array `v` with the values `l` written to its start. -/
def written (v : Nat → Nat) (l : List Nat) : Output := ⟨l.length, fun i => l.getD i (v i)⟩

theorem write_written (v : Nat → Nat) (l : List Nat) (x : Nat) : (written v l).write x = written v (l ++ [x]) := by
  rw [Output.write, written, written, List.length_append]
  congr 1
  funext i
  by_cases hi : i = l.length
  · rw [hi, Function.update_self]
    simp
  · rw [Function.update_of_ne hi]
    simp only [List.getD_eq_getElem?_getD]
    rcases Nat.lt_or_gt_of_ne hi with hlt | hgt
    · rw [List.getElem?_append_left hlt]
    · have hlen : (l ++ [x]).length ≤ i := by
        rw [List.length_append]
        exact hgt
      rw [List.getElem?_eq_none hgt.le, List.getElem?_eq_none hlen]

theorem copy_written (v : Nat → Nat) (l ys : List Nat) :
    ys.foldl (fun out i => out.write (value data i)) (written v l) = written v (l ++ ys.map (value data)) := by
  induction ys generalizing l with
  | nil => rw [List.foldl_nil, List.map_nil, List.append_nil]
  | cons y ys ih => rw [List.foldl_cons, write_written, ih, List.append_assoc, List.map_cons, List.singleton_append]

def elements (data : BitVec maxSize) (i left : Nat) : List Nat := (List.range' i left).filter (fun x => data.getLsbD x)

theorem scanWord_written (v : Nat → Nat) (data : BitVec maxSize) (n i left j : Nat) (l : List Nat) :
    scanWord data n i left j (written v l) = written v (l ++ elements data (i + j) (min left (n - (i + j)))) := by
  induction left generalizing j l with
  | zero =>
      rw [scanWord, Nat.zero_min]
      exact congrArg (written v) (List.append_nil l).symm
  | succ left ih =>
      rw [scanWord]
      split_ifs with hlt hbit
      · have hmin : min (left + 1) (n - (i + j)) = min left (n - (i + (j + 1))) + 1 := by omega
        rw [getbit_eq] at hbit
        rw [write_written, ih, List.append_assoc, hmin, elements, elements, List.range'_succ, List.filter_cons_of_pos hbit]
        rfl
      · have hmin : min (left + 1) (n - (i + j)) = min left (n - (i + (j + 1))) + 1 := by omega
        rw [getbit_eq] at hbit
        rw [ih, hmin, elements, elements, List.range'_succ, List.filter_cons_of_neg hbit]
        rfl
      · have hmin : min (left + 1) (n - (i + j)) = 0 := by omega
        rw [hmin]
        exact congrArg (written v) (List.append_nil l).symm

theorem elements_zero (hword : word data i = 0#64) (hn : n ≤ 64) : elements data (64 * i) n = [] := by
  apply List.filter_eq_nil_iff.mpr
  intro x hx
  obtain ⟨k, hk, rfl⟩ := List.mem_range'.mp hx
  have hbit : (word data i).getLsbD k = data.getLsbD (64 * i + 1 * k) := by rw [word, getLsbD_field (by omega), one_mul]
  rw [← hbit, hword]
  simp

theorem elements_append (data : BitVec maxSize) (i k n : Nat) :
    elements data i k ++ elements data (i + k) n = elements data i (k + n) := by
  rw [elements, elements, elements, ← List.filter_append, List.range'_append_1]

theorem scanned (v : Nat → Nat) (data : BitVec maxSize) (n i : Nat) (l : List Nat) :
    (if word data i ≠ 0#64 then scanWord data n (64 * i) 64 0 (written v l) else written v l) =
      written v (l ++ elements data (64 * i) (min 64 (n - 64 * i))) := by
  split_ifs with hword
  · exact scanWord_written v data n (64 * i) 64 0 l
  · rw [elements_zero (not_not.mp hword) (min_le_left _ _), List.append_nil]

theorem scanWords_written (v : Nat → Nat) (data : BitVec maxSize) (n turns i : Nat) (l : List Nat) (hturns : n ≤ 64 * i + turns) :
    scanWords data n turns (64 * i) (written v l) = written v (l ++ elements data (64 * i) (n - 64 * i)) := by
  induction turns generalizing i l with
  | zero =>
      have hnone : n - 64 * i = 0 := by omega
      rw [scanWords, hnone]
      exact congrArg (written v) (List.append_nil l).symm
  | succ turns ih =>
      have hdiv : 64 * i / 64 = i := Nat.mul_div_cancel_left i (by decide)
      rw [scanWords, hdiv, scanned]
      split_ifs with hlt
      · have hnext : 64 * i + 64 = 64 * (i + 1) := by omega
        have hrest : elements data (64 * i) (min 64 (n - 64 * i)) ++ elements data (64 * (i + 1)) (n - 64 * (i + 1)) =
            elements data (64 * i) (n - 64 * i) := by
          rcases Nat.le_total 64 (n - 64 * i) with hle | hle
          · have hsum : 64 + (n - (64 * i + 64)) = n - 64 * i := by omega
            rw [min_eq_left hle, ← hnext, elements_append, hsum]
          · have hnone : n - 64 * (i + 1) = 0 := by omega
            rw [min_eq_right hle, hnone]
            exact List.append_nil _
        rw [hnext, ih (i + 1) _ (by omega), List.append_assoc, hrest]
      · have hnone : n - 64 * i = 0 := by omega
        rw [hnone]
        exact congrArg (written v) (List.append_nil l).symm

theorem expand_written (h : Represents s S) (hn : n ≤ maxSize) (hS : ∀ x ∈ S, x < n) (v : Nat → Nat) :
    ∃ l, expand s v n = written v l ∧ l.Pairwise (fun a b => a < b) ∧ ∀ x, x ∈ l ↔ x ∈ S := by
  rw [expand]
  split_ifs with hempty hsmall
  · refine ⟨[], rfl, .nil, fun x => ?_⟩
    rw [← (h.small (by rw [hempty]; decide)).2 x]
    apply iff_of_false List.not_mem_nil
    rintro ⟨j, hj, -⟩
    omega
  · obtain ⟨hasc, hocc⟩ := h.small hsmall
    refine ⟨(List.range s.card).map (value s.data), copy_written v [] _, ?_, fun x => ?_⟩
    · apply List.pairwise_map.mpr
      apply List.pairwise_lt_range.imp_of_mem
      intro i j _ hj hij
      exact hasc i j hij (List.mem_range.mp hj)
    · rw [← hocc x, List.mem_map]
      constructor
      · rintro ⟨j, hj, hjx⟩
        exact ⟨j, List.mem_range.mp hj, hjx⟩
      · rintro ⟨j, hj, hjx⟩
        exact ⟨j, List.mem_range.mpr hj, hjx⟩
  · have hlarge := h.large (le_antisymm h.card_le (not_lt.mp hsmall))
    refine ⟨elements s.data 0 n, scanWords_written v s.data n n 0 [] (by omega), ?_, fun x => ?_⟩
    · exact List.Pairwise.filter _ List.pairwise_lt_range'
    · rw [elements, List.mem_filter, List.mem_range'_1]
      constructor
      · rintro ⟨⟨-, hlt⟩, hbit⟩
        exact (hlarge x (by omega)).mp hbit
      · intro hx
        have hlt := hS x hx
        exact ⟨⟨Nat.zero_le x, by omega⟩, (hlarge x (by omega)).mpr hx⟩

/-- The dependents that `executeStore` and the wake-up of registers go through are the ones `expand` gives. -/
theorem expand_sort {S : Finset Nat} (h : Represents s (S : Set Nat)) (hn : n ≤ maxSize) (hS : ∀ x ∈ S, x < n) (v : Nat → Nat) :
    expand s v n = written v (S.sort (fun a b => a ≤ b)) := by
  obtain ⟨l, hl, hsorted, hmem⟩ := expand_written h hn hS v
  have hsort : (S.sort (fun a b => a ≤ b)).Pairwise (fun a b => a < b) := S.sortedLT_sort.pairwise
  have hsame : l = S.sort (fun a b => a ≤ b) := by
    apply hsorted.eq_of_mem_iff hsort
    intro x
    rw [hmem x, Finset.mem_sort]
    rfl
  rw [hl, hsame]

end Expand

/-- It is a finite set, whatever was in its memory: `search` finds what has been inserted, and `expand` writes each element
once and in order. -/
theorem fastset_is_set (hn : n ≤ maxSize) (data : BitVec maxSize) (hxs : ∀ x ∈ xs, x < n) :
    (∀ x < n, search (xs.foldl FastSetModel.insert (.new data)) x = true ↔ x ∈ xs) ∧
    ∀ v, (expand (xs.foldl FastSetModel.insert (.new data)) v n).count = xs.toFinset.card ∧
      ∃ l : List Nat, l.Pairwise (fun a b => a < b) ∧ (∀ x, x ∈ l ↔ x ∈ xs) ∧
        expand (xs.foldl FastSetModel.insert (.new data)) v n = written v l := by
  have hrun := foldl_represents (new_represents data) (fun x hx => (hxs x hx).trans_le hn)
  have hset : {y | y ∈ xs ∨ y ∈ (∅ : Set Nat)} = {y | y ∈ xs} := by
    ext y
    simp
  rw [hset] at hrun
  refine ⟨fun x hx => search_iff hrun (hx.trans_le hn), fun v => ?_⟩
  obtain ⟨l, hl, hsorted, hmem⟩ := expand_written hrun hn hxs v
  refine ⟨?_, l, hsorted, hmem, hl⟩
  have hfinset : xs.toFinset = l.toFinset := by
    ext x
    rw [List.mem_toFinset, List.mem_toFinset]
    exact (hmem x).symm
  have hnodup : l.Nodup := hsorted.imp (fun hlt => hlt.ne)
  rw [hl, hfinset, List.toFinset_card_of_nodup hnodup]
  rfl

def scattered : List Nat := [500, 3, 64, 127, 128, 0, 255, 77, 311, 5, 192, 63, 448, 65, 20, 64]

theorem fastset_is_set_scattered :
    (∀ x < 501, search (scattered.foldl FastSetModel.insert (.new 7)) x = true ↔ x ∈ scattered) ∧
    ∀ v, (expand (scattered.foldl FastSetModel.insert (.new 7)) v 501).count = 15 ∧
      ∃ l : List Nat, l.Pairwise (fun a b => a < b) ∧ (∀ x, x ∈ l ↔ x ∈ scattered) ∧
        expand (scattered.foldl FastSetModel.insert (.new 7)) v 501 = written v l :=
  fastset_is_set (by decide) 7 (by decide)

end Thermometer.FastSetRefines

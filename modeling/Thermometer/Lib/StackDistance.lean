import Mathlib.Data.Finset.Card
import Mathlib.Data.List.Basic
import Mathlib.Data.List.Nodup

namespace Thermometer.Lib.StackDistance

variable {α : Type} [DecidableEq α]

def touch (s : List α) (k : α) : List α := k :: s.erase k

def stackOf (accesses : List α) : List α := accesses.foldl touch []

/-- A cache of `W` lines that replaces the least recent one, as the list of its
keys from the most recent one on. -/
def cacheAccess (W : Nat) (c : List α) (k : α) : List α := (touch c k).take W

def cacheOf (W : Nat) (accesses : List α) : List α := accesses.foldl (cacheAccess W) []

variable {s c accesses before since : List α} {k j : α} {W : Nat}

theorem stackOf_concat (accesses : List α) (k : α) : stackOf (accesses ++ [k]) = touch (stackOf accesses) k := by
  rw [stackOf, List.foldl_append]
  rfl

theorem cacheOf_concat (W : Nat) (accesses : List α) (k : α) :
    cacheOf W (accesses ++ [k]) = cacheAccess W (cacheOf W accesses) k := by
  rw [cacheOf, List.foldl_append]
  rfl

theorem mem_touch (s : List α) (k j : α) : j ∈ touch s k ↔ j = k ∨ j ∈ s := by
  rw [touch, List.mem_cons]
  by_cases hj : j = k
  · simp only [hj, true_or]
  · rw [List.mem_erase_of_ne hj]

theorem nodup_touch (h : s.Nodup) (k : α) : (touch s k).Nodup :=
  List.nodup_cons.mpr ⟨h.not_mem_erase, h.erase k⟩

theorem touch_of_notMem (h : k ∉ s) : touch s k = k :: s := congrArg (List.cons k) (List.erase_of_not_mem h)

theorem length_touch_of_mem (h : k ∈ s) : (touch s k).length = s.length := by
  have hpos := List.length_pos_of_mem h
  rw [touch, List.length_cons, List.length_erase_of_mem h]
  omega

theorem take_erase_take (s : List α) (k : α) (n : Nat) : ((s.take (n + 1)).erase k).take n = (s.erase k).take n := by
  induction s generalizing n with
  | nil => rfl
  | cons a s ih =>
      rw [List.take_succ_cons]
      by_cases ha : a = k
      · subst ha
        rw [List.erase_cons_head, List.erase_cons_head, List.take_take, Nat.min_self]
      · rw [List.erase_cons_tail (by simpa using ha), List.erase_cons_tail (by simpa using ha)]
        cases n with
        | zero => rfl
        | succ n => rw [List.take_succ_cons, List.take_succ_cons, ih]

theorem cacheOf_eq_take (W : Nat) (accesses : List α) : cacheOf W accesses = (stackOf accesses).take W := by
  induction accesses using List.reverseRecOn with
  | nil => exact (List.take_nil).symm
  | append_singleton accesses k ih =>
      rw [cacheOf_concat, stackOf_concat, ih, cacheAccess, touch, touch]
      cases W with
      | zero => rfl
      | succ n => rw [List.take_succ_cons, List.take_succ_cons, take_erase_take]

theorem length_cacheOf_le (W : Nat) (accesses : List α) : (cacheOf W accesses).length ≤ W := by
  rw [cacheOf_eq_take]
  exact List.length_take_le W _

theorem touch_append_of_mem (hk : k ∈ before) (s : List α) : touch (before ++ s) k = touch before k ++ s := by
  rw [touch, List.erase_append_left s hk]
  rfl

theorem touch_append_of_notMem (hk : k ∉ before) (s : List α) : touch (before ++ s) k = k :: (before ++ s.erase k) := by
  rw [touch, List.erase_append_right s hk]

theorem exists_above (before : List α) (hk : k ∉ since) : ∃ above below,
    stackOf (before ++ k :: since) = above ++ k :: below ∧
    above.Nodup ∧ above.toFinset = since.toFinset := by
  induction since using List.reverseRecOn with
  | nil => exact ⟨[], (stackOf before).erase k, stackOf_concat before k, List.nodup_nil, rfl⟩
  | append_singleton since j ih =>
      obtain ⟨above, below, hstack, hnodup, hsame⟩ := ih (fun h => hk (List.mem_append_left _ h))
      have hjk : j ≠ k := by
        rintro rfl
        exact hk (List.mem_append_right _ (List.mem_singleton_self j))
      have hassoc : before ++ k :: (since ++ [j]) = before ++ k :: since ++ [j] := by simp
      have hset : ∀ l : List α, (∀ i, i ∈ l ↔ i = j ∨ i ∈ above) → l.toFinset = (since ++ [j]).toFinset := by
        intro l hl
        ext i
        rw [List.mem_toFinset, hl, List.mem_toFinset, List.mem_append, List.mem_singleton, ← List.mem_toFinset (l := above),
          hsame, List.mem_toFinset, or_comm]
      rw [hassoc, stackOf_concat, hstack]
      by_cases hj : j ∈ above
      · refine ⟨touch above j, below, touch_append_of_mem hj _, nodup_touch hnodup j, hset _ ?_⟩
        exact mem_touch above j
      · refine ⟨j :: above, below.erase j, ?_, List.nodup_cons.mpr ⟨hj, hnodup⟩, hset _ (fun i => List.mem_cons)⟩
        rw [touch_append_of_notMem hj, List.erase_cons_tail (by simpa using hjk.symm)]
        rfl

/-- The stack distance of a key is the number of distinct keys accessed since
its last access. -/
theorem idxOf_stackOf (before : List α) (hk : k ∉ since) :
    (stackOf (before ++ k :: since)).idxOf k = since.toFinset.card := by
  obtain ⟨above, below, hstack, hnodup, hsame⟩ := exists_above before hk
  have hno : k ∉ above := by
    rw [← List.mem_toFinset, hsame, List.mem_toFinset]
    exact hk
  rw [hstack, List.idxOf_append_of_notMem hno, List.idxOf_cons_self, Nat.add_zero, ← hsame,
    List.toFinset_card_of_nodup hnodup]

theorem mem_cacheOf_iff (W : Nat) (before : List α) (hk : k ∉ since) :
    k ∈ cacheOf W (before ++ k :: since) ↔ since.toFinset.card < W := by
  obtain ⟨above, below, hstack, -, -⟩ := exists_above before hk
  have hmem : k ∈ stackOf (before ++ k :: since) := by
    rw [hstack]
    exact List.mem_append_right _ List.mem_cons_self
  rw [cacheOf_eq_take, List.mem_take_iff_idxOf_lt hmem, idxOf_stackOf before hk]

theorem cacheAccess_of_mem (hk : k ∈ c) (hc : c.length ≤ W) : cacheAccess W c k = touch c k := by
  apply List.take_of_length_le
  rw [length_touch_of_mem hk]
  exact hc

theorem cacheAccess_of_room (hk : k ∉ c) (hc : c.length < W) : cacheAccess W c k = k :: c := by
  rw [cacheAccess, touch_of_notMem hk]
  exact List.take_of_length_le hc

theorem cacheAccess_of_full (hk : k ∉ c) (hc : c.length = W) (hW : 0 < W) : cacheAccess W c k = k :: c.dropLast := by
  rw [cacheAccess, touch_of_notMem hk, List.dropLast_eq_take, hc]
  cases W with
  | zero => cases hW
  | succ n => rfl

end Thermometer.Lib.StackDistance

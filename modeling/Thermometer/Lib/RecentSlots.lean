import Mathlib.Data.List.Range
import Mathlib.Data.List.Nodup
import Mathlib.Data.List.Perm.Basic
import Mathlib.Logic.Function.Basic

namespace Thermometer.Lib.RecentSlots

def promote (n : Nat) (rank : Nat → Nat) (x : Nat) : Nat → Nat :=
  fun i => if i = x then 0 else if i < n ∧ rank i < rank x then rank i + 1 else rank i

/-- The ranks of `n` slots are 0 to `n - 1`, and `l` lists the slots in that order. -/
structure Listed (n : Nat) (rank : Nat → Nat) (l : List Nat) : Prop where
  perm : l.Perm (List.range n)
  ranks : l.map rank = List.range n

section Ranks

variable {n x i j : Nat} {rank : Nat → Nat} {l : List Nat}

theorem listed_start (n : Nat) : Listed n (fun i => i) (List.range n) := ⟨List.Perm.refl _, List.map_id' _⟩

theorem Listed.mem_iff (h : Listed n rank l) : i ∈ l ↔ i < n := h.perm.mem_iff.trans List.mem_range

theorem Listed.length_eq (h : Listed n rank l) : l.length = n := h.perm.length_eq.trans List.length_range

theorem Listed.nodup (h : Listed n rank l) : l.Nodup := h.perm.nodup_iff.mpr List.nodup_range

theorem Listed.ascending (h : Listed n rank l) : l.Pairwise (fun i j => rank i < rank j) := by
  have hpairs : (l.map rank).Pairwise (· < ·) := h.ranks ▸ List.pairwise_lt_range
  exact List.pairwise_map.mp hpairs

theorem Listed.rank_lt (h : Listed n rank l) (hi : i < n) : rank i < n := by
  have hmem : rank i ∈ l.map rank := List.mem_map_of_mem (h.mem_iff.mpr hi)
  rw [h.ranks] at hmem
  exact List.mem_range.mp hmem

theorem Listed.injective (h : Listed n rank l) (hi : i < n) (hj : j < n) (heq : rank i = rank j) : i = j := by
  have hnodup : (l.map rank).Nodup := h.ranks ▸ List.nodup_range
  exact List.inj_on_of_nodup_map hnodup (h.mem_iff.mpr hi) (h.mem_iff.mpr hj) heq

theorem Listed.split {l₁ l₂ : List Nat} (h : Listed n rank (l₁ ++ x :: l₂)) :
    l₁.map rank = List.range l₁.length ∧ rank x = l₁.length := by
  have hlen := h.length_eq
  rw [List.length_append, List.length_cons] at hlen
  have hranks := h.ranks
  have hsplit : List.range n = List.range l₁.length ++ List.range' l₁.length (n - l₁.length) := by
    have hadd : n = l₁.length + (n - l₁.length) := by omega
    conv_lhs => rw [hadd, List.range_eq_range', ← List.range'_append]
    rw [Nat.one_mul, Nat.zero_add, List.range_eq_range']
  have hpos : n - l₁.length = (n - l₁.length - 1) + 1 := by omega
  rw [List.map_append, hsplit, hpos, List.range'_succ, List.map_cons] at hranks
  obtain ⟨hleft, hright⟩ := List.append_inj hranks (by rw [List.length_map, List.length_range])
  rw [List.cons.injEq] at hright
  exact ⟨hleft, hright.1⟩

theorem Listed.promote (h : Listed n rank l) (hx : x < n) : Listed n (promote n rank x) (x :: l.erase x) := by
  have hmem := h.mem_iff.mpr hx
  obtain ⟨l₁, l₂, rfl⟩ := List.append_of_mem hmem
  have hnodup := h.nodup
  have hx₁ : x ∉ l₁ := fun hx₁ => (List.nodup_append.mp hnodup).2.2 x hx₁ x List.mem_cons_self rfl
  have hx₂ : x ∉ l₂ := (List.nodup_cons.mp (List.nodup_append.mp hnodup).2.1).1
  obtain ⟨hleft, hrank⟩ := h.split
  have herase : (l₁ ++ x :: l₂).erase x = l₁ ++ l₂ := by
    rw [List.erase_append_right _ hx₁, List.erase_cons_head]
  have hperm : (x :: (l₁ ++ l₂)).Perm (List.range n) := List.perm_middle.symm.trans h.perm
  refine ⟨herase ▸ hperm, ?_⟩
  have hyounger : l₁.map (RecentSlots.promote n rank x) = (l₁.map rank).map (· + 1) := by
    rw [List.map_map]
    apply List.map_congr_left
    intro i hi
    have hne : i ≠ x := fun heq => hx₁ (heq ▸ hi)
    have hlt : rank i < rank x := (List.pairwise_append.mp h.ascending).2.2 i hi x List.mem_cons_self
    rw [RecentSlots.promote, if_neg hne, if_pos ⟨h.mem_iff.mp (List.mem_append_left _ hi), hlt⟩]
    rfl
  have holder : l₂.map (RecentSlots.promote n rank x) = l₂.map rank := by
    apply List.map_congr_left
    intro i hi
    have hne : i ≠ x := fun heq => hx₂ (heq ▸ hi)
    have hlt : rank x < rank i := (List.pairwise_cons.mp (List.pairwise_append.mp h.ascending).2.1).1 i hi
    rw [RecentSlots.promote, if_neg hne, if_neg (fun hcon => Nat.lt_asymm hlt hcon.2)]
  have hself : RecentSlots.promote n rank x x = 0 := if_pos rfl
  have hall := h.ranks
  rw [List.map_append, List.map_cons, hleft, hrank] at hall
  rw [herase, List.map_cons, List.map_append, hself, hyounger, holder, hleft, ← List.cons_append,
    ← List.range_succ_eq_map,
    List.range_succ, List.append_assoc, List.singleton_append]
  exact hall

section Contents

variable {E : Type} {e : Nat → E} {p : E → Bool} {L : List E} {v : E}

def Holds (n : Nat) (e : Nat → E) (rank : Nat → Nat) (L : List E) : Prop := ∃ l, Listed n rank l ∧ l.map e = L

def Agree (n : Nat) (e : Nat → E) (rank : Nat → Nat) (p : E → Bool) : Prop :=
  ∀ i j, i < j → j < n → p (e i) = true → p (e j) = true → rank i < rank j

def search (n : Nat) (p : Nat → Bool) : Option Nat := (List.range n).find? p

theorem search_some {p : Nat → Bool} (h : search n p = some x) :
    x < n ∧ p x = true ∧ ∀ i < x, p i = false := by
  obtain ⟨hp, as, bs, heq, has⟩ := List.find?_eq_some_iff_append.mp h
  have hmem : x ∈ List.range n := heq ▸ List.mem_append_right _ List.mem_cons_self
  refine ⟨List.mem_range.mp hmem, hp, ?_⟩
  intro i hi
  have hbefore : i ∈ as := by
    have hin : i ∈ as ++ x :: bs := heq ▸ List.mem_range.mpr (hi.trans (List.mem_range.mp hmem))
    rcases List.mem_append.mp hin with hin | hin
    · exact hin
    · have hsorted : (as ++ x :: bs).Pairwise (· < ·) := heq ▸ List.pairwise_lt_range
      rcases List.mem_cons.mp hin with rfl | hin
      · omega
      · have hlt := (List.pairwise_cons.mp (List.pairwise_append.mp hsorted).2.1).1 i hin
        omega
  simpa using has i hbefore

theorem search_none {p : Nat → Bool} (h : search n p = none) : ∀ i < n, p i = false := by
  intro i hi
  have hnot := List.find?_eq_none.mp h i (List.mem_range.mpr hi)
  simpa using hnot

theorem holds_start (n : Nat) (e : Nat → E) : Holds n e (fun i => i) ((List.range n).map e) :=
  ⟨_, listed_start n, rfl⟩

theorem Holds.length_eq (h : Holds n e rank L) : L.length = n := by
  obtain ⟨l, hl, rfl⟩ := h
  rw [List.length_map, hl.length_eq]

theorem Holds.rank_lt (h : Holds n e rank L) (hi : i < n) : rank i < n := by
  obtain ⟨l, hl, -⟩ := h
  exact hl.rank_lt hi

theorem Holds.found (h : Holds n e rank L) (hagree : Agree n e rank p)
    (hx : search n (fun i => p (e i)) = some x) :
    L.find? p = some (e x) ∧ Holds n (Function.update e x v) (promote n rank x) (v :: L.eraseP p) := by
  obtain ⟨l, hl, rfl⟩ := h
  obtain ⟨hlt, hp, hbefore⟩ := search_some hx
  obtain ⟨l₁, l₂, rfl⟩ := List.append_of_mem (hl.mem_iff.mpr hlt)
  have hnodup := hl.nodup
  have hx₁ : x ∉ l₁ := fun hx₁ => (List.nodup_append.mp hnodup).2.2 x hx₁ x List.mem_cons_self rfl
  have hx₂ : x ∉ l₂ := (List.nodup_cons.mp (List.nodup_append.mp hnodup).2.1).1
  have hfirst : ∀ a ∈ l₁.map e, ¬p a = true := by
    rintro a ha hpa
    obtain ⟨i, hi, rfl⟩ := List.mem_map.mp ha
    have hyounger : rank i < rank x := (List.pairwise_append.mp hl.ascending).2.2 i hi x List.mem_cons_self
    have hin : i < n := hl.mem_iff.mp (List.mem_append_left _ hi)
    rcases Nat.lt_trichotomy i x with hix | rfl | hix
    · rw [hbefore i hix] at hpa
      cases hpa
    · exact hx₁ hi
    · exact Nat.lt_asymm hyounger (hagree x i hix hin hp hpa)
  have hpost : ∀ l' : List Nat, x ∉ l' → l'.map (Function.update e x v) = l'.map e := by
    intro l' hl'
    apply List.map_congr_left
    intro i hi
    exact Function.update_of_ne (ne_of_mem_of_not_mem hi hl') _ _
  constructor
  · rw [List.map_append, List.map_cons, List.find?_append, List.find?_eq_none.mpr hfirst, Option.none_or,
      List.find?_cons_of_pos hp]
  · refine ⟨_, hl.promote hlt, ?_⟩
    rw [List.erase_append_right _ hx₁, List.erase_cons_head, List.map_cons, Function.update_self,
      List.map_append,
      List.map_append, hpost l₁ hx₁, hpost l₂ hx₂, List.map_cons, List.eraseP_append_right _ hfirst,
      List.eraseP_cons_of_pos hp]

theorem Holds.missing (h : Holds n e rank L) (hx : search n (fun i => p (e i)) = none) : L.find? p = none := by
  obtain ⟨l, hl, rfl⟩ := h
  apply List.find?_eq_none.mpr
  intro a ha
  obtain ⟨i, hi, rfl⟩ := List.mem_map.mp ha
  rw [search_none hx i (hl.mem_iff.mp hi)]
  exact Bool.false_ne_true

theorem Holds.oldest (h : Holds n e rank L) (hn : 0 < n) :
    ∃ x, search n (fun i => rank i == n - 1) = some x ∧ x < n ∧
    L.getLast? = some (e x) ∧ Holds n (Function.update e x v) (promote n rank x) (v :: L.dropLast) := by
  obtain ⟨l, hl, rfl⟩ := h
  have hlen := hl.length_eq
  have hne : l ≠ [] := by
    rintro rfl
    rw [List.length_nil] at hlen
    omega
  obtain ⟨l₁, x, rfl⟩ : ∃ l₁ x, l = l₁ ++ [x] :=
    ⟨l.dropLast, l.getLast hne, (List.dropLast_append_getLast hne).symm⟩
  have hrank := hl.split.2
  have hlt : x < n := hl.mem_iff.mp (List.mem_append_right _ List.mem_cons_self)
  have hx₁ : x ∉ l₁ := fun hx₁ => (List.nodup_append.mp hl.nodup).2.2 x hx₁ x List.mem_cons_self rfl
  rw [List.length_append, List.length_singleton] at hlen
  have hlast : rank x = n - 1 := by omega
  refine ⟨x, ?_, hlt, ?_, _, hl.promote hlt, ?_⟩
  · cases hfind : search n (fun i => rank i == n - 1) with
    | none =>
        have hnot := search_none hfind x hlt
        rw [hlast, beq_self_eq_true] at hnot
        cases hnot
    | some y =>
        obtain ⟨hy, heq, -⟩ := search_some hfind
        rw [hl.injective hy hlt ((beq_iff_eq.mp heq).trans hlast.symm)]
  · rw [List.map_append, List.map_singleton, List.getLast?_concat]
  · have hpost : l₁.map (Function.update e x v) = l₁.map e := by
      apply List.map_congr_left
      intro i hi
      exact Function.update_of_ne (ne_of_mem_of_not_mem hi hx₁) _ _
    rw [List.erase_append_right _ hx₁, List.erase_cons_head, List.append_nil, List.map_cons,
      Function.update_self, hpost,
      List.map_append, List.map_singleton, List.dropLast_concat]

theorem Agree.promote {e' : Nat → E} (hl : Holds n e rank L) (h : Agree n e rank p) (hx : x < n)
    (hother : ∀ i, i ≠ x → i < n → p (e' i) = p (e i)) (hfirst : p (e' x) = true → ∀ i < x, p (e i) = false) :
    Agree n e' (promote n rank x) p := by
  intro i j hij hj hpi hpj
  have hi : i < n := hij.trans hj
  obtain ⟨l, hlist, -⟩ := hl
  have hapart : j ≠ x → rank j ≠ rank x := fun hne heq => hne (hlist.injective hj hx heq)
  rw [RecentSlots.promote, RecentSlots.promote]
  by_cases hjx : j = x
  · subst hjx
    rw [hother i hij.ne hi, hfirst hpj i hij] at hpi
    cases hpi
  · rw [if_neg hjx]
    by_cases hix : i = x
    · subst hix
      rw [if_pos rfl]
      have hne := hapart hjx
      split_ifs <;> omega
    · rw [hother i hix hi] at hpi
      rw [hother j hjx hj] at hpj
      have hlt := h i j hij hj hpi hpj
      have hne := hapart hjx
      rw [if_neg hix]
      split_ifs <;> omega

end Contents

end Ranks

section Slots

variable {A K : Type} [DecidableEq K]

def hasKey (key : A → K) (k : K) (a : Option A) : Bool := a.any (fun a => key a == k)

/-- `n` slots with ranks, the ones that are filled hold `lines`, from the one used last on. -/
structure Filled (n : Nat) (key : A → K) (e : Nat → Option A) (rank : Nat → Nat) (lines : List A) : Prop where
  holds : Holds n e rank (lines.map some ++ List.replicate (n - lines.length) none)
  byKey : ∀ k, Agree n e rank (hasKey key k)
  free : Agree n e rank Option.isNone

variable {n x : Nat} {key : A → K} {k : K} {e : Nat → Option A} {rank : Nat → Nat}
  {lines : List A} {a v : A}

theorem filled_start (n : Nat) (key : A → K) : Filled n key (fun _ => none) (fun i => i) [] := by
  refine ⟨?_, ?_, fun i j hij _ _ _ => hij⟩
  · have hstart := holds_start n (fun _ => (none : Option A))
    rw [List.map_const', List.length_range] at hstart
    exact hstart
  · intro k i j _ _ hi _
    cases hi

theorem Filled.length_le (h : Filled n key e rank lines) : lines.length ≤ n := by
  have hlen := h.holds.length_eq
  rw [List.length_append, List.length_map, List.length_replicate] at hlen
  omega

theorem Filled.slot (h : Filled n key e rank lines) (ha : a ∈ lines) : ∃ i < n, e i = some a := by
  obtain ⟨l, hl, heq⟩ := h.holds
  have hmem : some a ∈ l.map e := by
    rw [heq]
    exact List.mem_append_left _ (List.mem_map_of_mem ha)
  obtain ⟨i, hi, heq⟩ := List.mem_map.mp hmem
  exact ⟨i, hl.mem_iff.mp hi, heq⟩

theorem find_lines (lines : List A) (m : Nat) :
    (lines.map some ++ List.replicate m none).find? (hasKey key k) =
      (lines.find? (fun a => key a == k)).map some := by
  have hnone : ¬hasKey key k none = true := Bool.false_ne_true
  rw [List.find?_append, List.find?_replicate_of_neg hnone, Option.or_none, List.find?_map]
  rfl

theorem find_free (lines : List A) (m : Nat) :
    (lines.map some ++ List.replicate m none).find? Option.isNone = if m = 0 then none else some none := by
  have hlines : (lines.map some).find? Option.isNone = none := by
    apply List.find?_eq_none.mpr
    intro o ho
    obtain ⟨a, -, rfl⟩ := List.mem_map.mp ho
    exact Bool.false_ne_true
  rw [List.find?_append, hlines, Option.none_or, List.find?_replicate_of_pos (by rfl)]

/-- A slot that is used now holds a line of a key that no slot to the left of it has, if it is the
slot's own. -/
theorem Filled.agree (h : Filled n key e rank lines) (hx : x < n) (hv : key v = k)
    (hbefore : ∀ i < x, hasKey key k (e i) = false) :
    (∀ k', Agree n (Function.update e x (some v)) (promote n rank x) (hasKey key k')) ∧
      Agree n (Function.update e x (some v)) (promote n rank x) Option.isNone := by
  have hother : ∀ (p : Option A → Bool) i, i ≠ x → i < n → p (Function.update e x (some v) i) = p (e i) :=
    fun p i hne _ => by rw [Function.update_of_ne hne]
  constructor
  · intro k'
    apply Agree.promote h.holds (h.byKey k') hx (hother _)
    intro hself
    rw [Function.update_self] at hself
    obtain rfl : key v = k' := by simpa [hasKey] using hself
    exact hv ▸ hbefore
  · apply Agree.promote h.holds h.free hx (hother _)
    intro hself
    rw [Function.update_self] at hself
    cases hself

theorem Filled.hit (h : Filled n key e rank lines)
    (hx : search n (fun i => hasKey key k (e i)) = some x) (hv : key v = k) :
    ∃ a, lines.find? (fun a => key a == k) = some a ∧ e x = some a ∧
      Filled n key (Function.update e x (some v)) (promote n rank x)
        (v :: lines.eraseP (fun a => key a == k)) := by
  obtain ⟨hlt, -, hbefore⟩ := search_some hx
  obtain ⟨hfind, hholds⟩ := h.holds.found (v := some v) (h.byKey k) hx
  obtain ⟨hkeys, hfree⟩ := h.agree hlt hv hbefore
  rw [find_lines, Option.map_eq_some_iff] at hfind
  obtain ⟨a, ha, hea⟩ := hfind
  have hmem := List.mem_of_find?_eq_some ha
  have hkey := List.find?_some ha
  have hle := h.length_le
  have hpos := List.length_pos_of_mem hmem
  have hlen : (lines.eraseP (fun a => key a == k)).length = lines.length - 1 :=
    List.length_eraseP_of_mem hmem hkey
  refine ⟨a, ha, hea.symm, ?_, hkeys, hfree⟩
  have herase : (lines.map some ++ List.replicate (n - lines.length) none).eraseP (hasKey key k) =
      (lines.eraseP (fun a => key a == k)).map some ++ List.replicate (n - lines.length) none := by
    rw [List.eraseP_append_left (a := some a) hkey _ (List.mem_map_of_mem hmem), List.eraseP_map]
    rfl
  rw [herase] at hholds
  rw [List.length_cons, hlen, Nat.sub_add_cancel hpos, List.map_cons, List.cons_append]
  exact hholds

theorem Filled.missing (h : Filled n key e rank lines) (hx : search n (fun i => hasKey key k (e i)) = none) :
    lines.find? (fun a => key a == k) = none := by
  have hfind := h.holds.missing hx
  rw [find_lines, Option.map_eq_none_iff] at hfind
  exact hfind

theorem Filled.fill (h : Filled n key e rank lines) (hmiss : search n (fun i => hasKey key k (e i)) = none)
    (hx : search n (fun i => (e i).isNone) = some x) (hv : key v = k) :
    lines.length < n ∧ Filled n key (Function.update e x (some v)) (promote n rank x) (v :: lines) := by
  obtain ⟨hlt, -, -⟩ := search_some hx
  obtain ⟨hfind, hholds⟩ := h.holds.found (v := some v) h.free hx
  obtain ⟨hkeys, hfree⟩ := h.agree hlt hv (fun i hi => search_none hmiss i (hi.trans hlt))
  rw [find_free] at hfind
  have hroom : lines.length < n := by
    by_contra hcon
    rw [if_pos (by omega)] at hfind
    cases hfind
  have hcount : n - lines.length = (n - (lines.length + 1)) + 1 := by omega
  refine ⟨hroom, ?_, hkeys, hfree⟩
  have hnot : ∀ o ∈ lines.map some, ¬o.isNone = true := by
    intro o ho
    obtain ⟨a, -, rfl⟩ := List.mem_map.mp ho
    exact Bool.false_ne_true
  rw [List.eraseP_append_right _ hnot, hcount, List.replicate_succ, List.eraseP_cons_of_pos (by rfl)] at hholds
  exact hholds

/-- With all slots filled the one of the largest rank is there, and what it holds is the last of the
lines. -/
theorem Filled.replace (h : Filled n key e rank lines) (hn : 0 < n)
    (hmiss : search n (fun i => hasKey key k (e i)) = none) (hfull : search n (fun i => (e i).isNone) = none)
    (hv : key v = k) : ∃ x a, search n (fun i => rank i == n - 1) = some x ∧ lines.length = n ∧
      lines.getLast? = some a ∧
      e x = some a ∧ Filled n key (Function.update e x (some v)) (promote n rank x) (v :: lines.dropLast) := by
  have hlen : lines.length = n := by
    have hfind := h.holds.missing hfull
    have hle := h.length_le
    rw [find_free] at hfind
    by_contra hcon
    rw [if_neg (by omega)] at hfind
    cases hfind
  obtain ⟨x, hx, hlt, hlast, hholds⟩ := h.holds.oldest (v := some v) hn
  obtain ⟨hkeys, hfree⟩ := h.agree hlt hv (fun i hi => search_none hmiss i (hi.trans hlt))
  rw [hlen, Nat.sub_self, List.replicate_zero, List.append_nil] at hlast hholds
  rw [List.getLast?_map, Option.map_eq_some_iff] at hlast
  obtain ⟨a, ha, hea⟩ := hlast
  refine ⟨x, a, hx, hlen, ha, hea.symm, ?_, hkeys, hfree⟩
  rw [List.length_cons, List.length_dropLast, hlen, Nat.sub_add_cancel hn, Nat.sub_self, List.replicate_zero,
    List.append_nil, List.map_cons, List.map_dropLast]
  exact hholds

end Slots

end Thermometer.Lib.RecentSlots

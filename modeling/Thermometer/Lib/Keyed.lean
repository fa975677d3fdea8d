import Mathlib.Data.List.Nodup
import Mathlib.Data.List.Perm.Basic

namespace Thermometer.Lib.Keyed

variable {E K : Type} [DecidableEq K] {key : E → Option K} {l l' rest : List E} {e x : E} {k k' : K} {i : Nat}

def lookup (key : E → Option K) (k : K) (l : List E) : Option E := l.find? (fun e => key e = some k)

def Distinct (key : E → Option K) (l : List E) : Prop := (l.filterMap key).Nodup

theorem lookup_cons : lookup key k (e :: l) = if key e = some k then some e else lookup key k l := by
  by_cases h : key e = some k <;> simp [lookup, h]

omit [DecidableEq K] in
theorem distinct_cons : Distinct key (e :: l) ↔ (∀ k, key e = some k → ∀ x ∈ l, key x ≠ some k) ∧ Distinct key l := by
  cases he : key e with
  | none => simp [Distinct, he]
  | some k =>
      simp only [Distinct, List.filterMap_cons_some he, List.nodup_cons, List.mem_filterMap, not_exists, not_and,
        Option.some.injEq]
      constructor
      · intro h
        exact ⟨fun k' hk => hk ▸ h.1, h.2⟩
      · intro h
        exact ⟨h.1 k rfl, h.2⟩

theorem lookup_some (h : lookup key k l = some e) : e ∈ l ∧ key e = some k :=
  ⟨List.mem_of_find?_eq_some h, by simpa using List.find?_some h⟩

theorem lookup_none : lookup key k l = none ↔ ∀ e ∈ l, key e ≠ some k := by
  simp [lookup]

theorem lookup_iff (hd : Distinct key l) : lookup key k l = some e ↔ e ∈ l ∧ key e = some k := by
  refine ⟨lookup_some, ?_⟩
  rintro ⟨hmem, hkey⟩
  induction l with
  | nil => cases hmem
  | cons d l ih =>
      rw [distinct_cons] at hd
      rw [lookup_cons]
      rcases List.mem_cons.mp hmem with rfl | hmem
      · exact if_pos hkey
      · have hne : key d ≠ some k := fun hk => hd.1 k hk e hmem hkey
        rw [if_neg hne]
        exact ih hd.2 hmem

omit [DecidableEq K] in
theorem Distinct.perm (hd : Distinct key l) (hp : l.Perm l') : Distinct key l' :=
  (hp.filterMap key).nodup_iff.mp hd

theorem lookup_perm (hd : Distinct key l) (hp : l.Perm l') : lookup key k l' = lookup key k l := by
  apply Option.ext
  intro e
  rw [lookup_iff hd, lookup_iff (hd.perm hp), hp.mem_iff]

theorem set_perm (h : l[i]? = some e) : ∃ rest, l.Perm (e :: rest) ∧ ∀ x, (l.set i x).Perm (x :: rest) := by
  obtain ⟨hi, he⟩ := List.getElem?_eq_some_iff.mp h
  refine ⟨l.take i ++ l.drop (i + 1), ?_, fun x => ?_⟩
  · have hsplit : l = l.take i ++ e :: l.drop (i + 1) := by
      rw [← he, List.getElem_cons_drop, List.take_append_drop]
    exact (List.Perm.of_eq hsplit).trans List.perm_middle
  · rw [List.set_eq_take_append_cons_drop, if_pos hi]
    exact List.perm_middle

theorem modify_eq_set (h : l[i]? = some e) (f : E → E) : l.modify i f = l.set i (f e) := by
  apply List.ext_getElem?
  intro j
  rw [List.getElem?_modify, List.getElem?_set]
  obtain ⟨hi, rfl⟩ := List.getElem?_eq_some_iff.mp h
  by_cases hij : i = j
  · subst hij
    simp [hi]
  · simp [hij]

theorem lookup_modify_first {f : E → E} (hfirst : l.findIdx? (fun e => key e = some k) = some i) (hi : l[i]? = some e)
    (hf : key (f e) = some k) : lookup key k (l.modify i f) = some (f e) := by
  induction l generalizing i with
  | nil => cases hi
  | cons d l ih =>
      rw [List.findIdx?_cons] at hfirst
      by_cases hd : key d = some k
      · rw [if_pos (by simpa using hd), Option.some.injEq] at hfirst
        subst hfirst
        rw [List.getElem?_cons_zero, Option.some.injEq] at hi
        subst hi
        exact lookup_cons.trans (if_pos hf)
      · rw [if_neg (by simpa using hd), Option.map_eq_some_iff] at hfirst
        obtain ⟨j, hj, rfl⟩ := hfirst
        rw [List.getElem?_cons_succ] at hi
        rw [List.modify_succ_cons, lookup_cons, if_neg hd]
        exact ih hj hi

section Set

variable (hd : Distinct key l) (hi : l[i]? = some e)
include hd hi

theorem set_distinct (hx : ∀ k, key x = some k → key e = some k ∨ lookup key k l = none) : Distinct key (l.set i x) := by
  obtain ⟨rest, hl, hset⟩ := set_perm hi
  apply Distinct.perm _ (hset x).symm
  have hcons := distinct_cons.mp (hd.perm hl)
  rw [distinct_cons]
  refine ⟨fun k hk y hy => ?_, hcons.2⟩
  rcases hx k hk with he | hno
  · exact hcons.1 k he y hy
  · exact lookup_none.mp hno y (hl.mem_iff.mpr (List.mem_cons_of_mem e hy))

theorem lookup_set (hx : ∀ k, key x = some k → key e = some k ∨ lookup key k l = none) :
    lookup key k (l.set i x) =
      if key x = some k then some x else if key e = some k then none else lookup key k l := by
  obtain ⟨rest, hl, hset⟩ := set_perm hi
  have hcons := distinct_cons.mp (hd.perm hl)
  rw [← lookup_perm (set_distinct hd hi hx) (hset x), ← lookup_perm hd hl, lookup_cons, lookup_cons]
  by_cases hxk : key x = some k
  · rw [if_pos hxk, if_pos hxk]
  rw [if_neg hxk, if_neg hxk]
  by_cases hek : key e = some k
  · rw [if_pos hek, lookup_none]
    exact hcons.1 k hek
  · rw [if_neg hek, if_neg hek]

end Set

end Thermometer.Lib.Keyed

import Mathlib.Data.List.Basic

namespace Thermometer.Lib.Slots

variable {α E : Type} {blank a b : α} {l : List α} {i w : Nat}

def Distinct (blank : α) (l : List α) : Prop := ∀ (i k : Nat) (a : α), a ≠ blank → l[i]? = some a → l[k]? = some a → i = k

theorem distinct_nil : Distinct blank [] := by
  intro i k a _ hi
  rw [List.getElem?_nil] at hi
  cases hi

theorem distinct_replicate (n : Nat) : Distinct blank (List.replicate n blank) := by
  intro i k a hne hi
  exact absurd (List.eq_of_mem_replicate (List.mem_of_getElem? hi)) hne

theorem Distinct.tail (h : Distinct blank l) : Distinct blank l.tail := by
  intro i k a hne hi hk
  rw [List.getElem?_tail] at hi hk
  exact Nat.succ_inj.mp (h (i + 1) (k + 1) a hne hi hk)

theorem Distinct.set (h : Distinct blank l) (hno : a ∉ l) (w : Nat) : Distinct blank (l.set w a) := by
  have hother : ∀ {i : Nat} {c : α}, i ≠ w → (l.set w a)[i]? = some c → l[i]? = some c := by
    intro i c hiw hi
    rwa [List.getElem?_set_ne (Ne.symm hiw)] at hi
  have hself : ∀ {c : α}, (l.set w a)[w]? = some c → c = a := by
    intro c hc
    rw [List.getElem?_set_self'] at hc
    obtain ⟨-, -, rfl⟩ := Option.map_eq_some_iff.mp hc
    rfl
  intro i k c hne hi hk
  by_cases hiw : i = w
  · by_cases hkw : k = w
    · rw [hiw, hkw]
    · subst hiw
      obtain rfl := hself hi
      exact absurd (List.mem_of_getElem? (hother hkw hk)) hno
  · by_cases hkw : k = w
    · subst hkw
      obtain rfl := hself hk
      exact absurd (List.mem_of_getElem? (hother hiw hi)) hno
    · exact h i k c hne (hother hiw hi) (hother hkw hk)

theorem Distinct.snoc (h : Distinct blank l) (hno : a ∈ l → a = blank) : Distinct blank (l ++ [a]) := by
  have hcases : ∀ {i : Nat} {c : α}, (l ++ [a])[i]? = some c → l[i]? = some c ∨ (i = l.length ∧ c = a) := by
    intro i c hi
    rcases Nat.lt_or_ge i l.length with hlt | hge
    · rw [List.getElem?_append_left hlt] at hi
      exact .inl hi
    · rw [List.getElem?_append_right hge, List.getElem?_singleton] at hi
      split_ifs at hi with hzero
      rw [Option.some.injEq] at hi
      exact .inr ⟨by omega, hi.symm⟩
  intro i k c hne hi hk
  rcases hcases hi with hi' | ⟨hil, hia⟩
  · rcases hcases hk with hk' | ⟨-, hka⟩
    · exact h i k c hne hi' hk'
    · subst hka
      exact absurd (hno (List.mem_of_getElem? hi')) hne
  · rcases hcases hk with hk' | ⟨hkl, -⟩
    · subst hia
      exact absurd (hno (List.mem_of_getElem? hk')) hne
    · rw [hil, hkl]

theorem Distinct.mem_set (h : Distinct blank l) (hb : b ≠ blank) (hm : b ∈ l.set w a) :
    b = a ∨ (b ∈ l ∧ b ≠ l.getD w blank) := by
  obtain ⟨i, hi⟩ := List.getElem?_of_mem hm
  by_cases hiw : i = w
  · subst hiw
    rw [List.getElem?_set_self'] at hi
    obtain ⟨-, -, rfl⟩ := Option.map_eq_some_iff.mp hi
    exact .inl rfl
  · rw [List.getElem?_set_ne (Ne.symm hiw)] at hi
    refine .inr ⟨List.mem_of_getElem? hi, ?_⟩
    rintro rfl
    cases hw : l[w]? with
    | none =>
        rw [List.getD_eq_getElem?_getD, hw] at hb
        exact hb rfl
    | some c =>
        rw [List.getD_eq_getElem?_getD, hw, Option.getD_some] at hi hb
        exact hiw (h i w c hb hi hw)

theorem Distinct.eq_of_tag {tag : E → α} {es : List E} {d e : E} (h : Distinct blank (es.map tag)) (hd : d ∈ es)
    (he : e ∈ es) (htag : tag d = tag e) (hne : tag e ≠ blank) : d = e := by
  obtain ⟨i, hi⟩ := List.getElem?_of_mem hd
  obtain ⟨k, hk⟩ := List.getElem?_of_mem he
  have hik : i = k := by
    apply h i k (tag e) hne
    · rw [List.getElem?_map, hi, Option.map_some, htag]
    · rw [List.getElem?_map, hk, Option.map_some]
  rw [hik, hk, Option.some.injEq] at hi
  exact hi.symm

end Thermometer.Lib.Slots

import Mathlib.Data.List.Nodup
import Mathlib.Logic.Function.Basic

namespace Thermometer.Lib.Pool

variable {K V : Type}

/-- Values that are handed out in the order of a list, each to one key, which keeps it. -/
structure Supply (K V : Type) where
  free : List V
  owned : K → Option V

def Supply.request [DecidableEq K] (s : Supply K V) (k : K) : Option (V × Supply K V) :=
  match s.owned k with
  | some v => some (v, s)
  | none =>
      match s.free with
      | [] => none
      | v :: rest => some (v, ⟨rest, Function.update s.owned k (some v)⟩)

structure Fair (allowed : V → Prop) (s : Supply K V) : Prop where
  nodup : s.free.Nodup
  fresh : ∀ k v, s.owned k = some v → v ∉ s.free
  injective : ∀ k k' v, s.owned k = some v → s.owned k' = some v → k = k'
  free_allowed : ∀ v ∈ s.free, allowed v
  owned_allowed : ∀ k v, s.owned k = some v → allowed v

variable [DecidableEq K] {allowed : V → Prop} {s s' : Supply K V} {k : K} {v : V}

theorem request_cases (h : s.request k = some (v, s')) : (s.owned k = some v ∧ s' = s) ∨
    ∃ rest, s.owned k = none ∧ s.free = v :: rest ∧ s' = ⟨rest, Function.update s.owned k (some v)⟩ := by
  simp only [Supply.request] at h
  cases howned : s.owned k with
  | some w =>
      simp only [howned, Option.some.injEq, Prod.mk.injEq] at h
      exact .inl ⟨congrArg some h.1, h.2.symm⟩
  | none =>
      cases hfree : s.free with
      | nil =>
          rw [howned, hfree] at h
          cases h
      | cons w rest =>
          simp only [howned, hfree, Option.some.injEq, Prod.mk.injEq] at h
          obtain ⟨rfl, rfl⟩ := h
          exact .inr ⟨rest, rfl, rfl, rfl⟩

theorem request_owned (h : s.request k = some (v, s')) : s'.owned k = some v := by
  rcases request_cases h with ⟨howned, rfl⟩ | ⟨rest, -, -, rfl⟩
  · exact howned
  · exact Function.update_self _ _ _

theorem request_keeps (h : s.request k = some (v, s')) {k' : K} {w : V} (hw : s.owned k' = some w) :
    s'.owned k' = some w := by
  rcases request_cases h with ⟨-, rfl⟩ | ⟨rest, hnone, -, rfl⟩
  · exact hw
  · have hne : k' ≠ k := by
      intro hk
      rw [hk, hnone] at hw
      cases hw
    exact (Function.update_of_ne hne _ _).trans hw

theorem Fair.request (hf : Fair allowed s) (h : s.request k = some (v, s')) : Fair allowed s' := by
  rcases request_cases h with ⟨-, rfl⟩ | ⟨rest, hnone, hfree, rfl⟩
  · exact hf
  · have hnodup := hfree ▸ hf.nodup
    rw [List.nodup_cons] at hnodup
    have hbefore : ∀ k' w, Function.update s.owned k (some v) k' = some w → k' = k ∧ w = v ∨ s.owned k' = some w := by
      intro k' w hw
      by_cases hk : k' = k
      · subst hk
        rw [Function.update_self, Option.some.injEq] at hw
        exact .inl ⟨rfl, hw.symm⟩
      · rw [Function.update_of_ne hk] at hw
        exact .inr hw
    have hv : ∀ k', s.owned k' ≠ some v := by
      intro k' hw
      exact hf.fresh k' v hw (hfree ▸ List.mem_cons_self)
    refine ⟨hnodup.2, fun k' w hw => ?_, fun k' k'' w hw hw' => ?_, fun w hw => ?_, fun k' w hw => ?_⟩
    · rcases hbefore k' w hw with ⟨-, rfl⟩ | hw
      · exact hnodup.1
      · exact fun hmem => hf.fresh k' w hw (hfree ▸ List.mem_cons_of_mem v hmem)
    · rcases hbefore k' w hw with ⟨rfl, rfl⟩ | hkept
      · rcases hbefore k'' w hw' with ⟨hk, -⟩ | hw'
        · exact hk.symm
        · exact absurd hw' (hv k'')
      · rcases hbefore k'' w hw' with ⟨-, rfl⟩ | hw'
        · exact absurd hkept (hv k')
        · exact hf.injective k' k'' w hkept hw'
    · exact hf.free_allowed w (hfree ▸ List.mem_cons_of_mem v hw)
    · rcases hbefore k' w hw with ⟨-, rfl⟩ | hw
      · exact hf.free_allowed w (hfree ▸ List.mem_cons_self)
      · exact hf.owned_allowed k' w hw

omit [DecidableEq K] in
theorem fair_initial {free : List V} (hd : free.Nodup) (hallowed : ∀ v ∈ free, allowed v) :
    Fair allowed (⟨free, fun _ => none⟩ : Supply K V) :=
  ⟨hd, fun _ _ h => (by cases h), fun _ _ _ h => (by cases h), hallowed, fun _ _ h => (by cases h)⟩

end Thermometer.Lib.Pool

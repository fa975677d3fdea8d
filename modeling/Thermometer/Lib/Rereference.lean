import Thermometer.Lib.RecentSlots

namespace Thermometer.Lib.Rereference

open RecentSlots

/-- The victim of a set of lines that count from 0 up to `top`: the first that has got there, and
until there is one all go up together. -/
def victim (n top : Nat) : Nat → (Nat → Nat) → Option (Nat × (Nat → Nat))
  | 0, _ => none
  | fuel + 1, r =>
    match search n (fun i => r i == top) with
    | some i => some (i, r)
    | none => victim n top fuel (fun i => if i < n then r i + 1 else r i)

/-- The first of the largest, and all raised by what it lacked. -/
structure Chosen (n top : Nat) (r : Nat → Nat) (i : Nat) (r' : Nat → Nat) : Prop where
  lt : i < n
  largest : ∀ j < n, r j ≤ r i
  first : ∀ j < i, r j < r i
  raised : ∀ j, r' j = if j < n then r j + (top - r i) else r j

variable {n top fuel : Nat} {r : Nat → Nat}

theorem victim_spec (hle : ∀ j < n, r j ≤ top) {k : Nat} (hk : k < n) (hfuel : top < r k + fuel) :
    ∃ i r', victim n top fuel r = some (i, r') ∧ Chosen n top r i r' := by
  induction fuel generalizing r with
  | zero =>
      have hlt := hle k hk
      omega
  | succ fuel ih =>
      rw [victim]
      cases hfind : search n (fun i => r i == top) with
      | some i =>
          obtain ⟨hi, htop, hbefore⟩ := search_some hfind
          have heq : r i = top := beq_iff_eq.mp htop
          refine ⟨i, r, rfl, hi, fun j hj => heq ▸ hle j hj, ?_, ?_⟩
          · intro j hj
            have hne : r j ≠ top := beq_eq_false_iff_ne.mp (hbefore j hj)
            have hj' := hle j (hj.trans hi)
            omega
          · intro j
            rw [heq, Nat.sub_self, Nat.add_zero, ite_self]
      | none =>
          have hbelow : ∀ j < n, r j < top := by
            intro j hj
            have hne : r j ≠ top := beq_eq_false_iff_ne.mp (search_none hfind j hj)
            have hj' := hle j hj
            omega
          have hup : ∀ j < n, (if j < n then r j + 1 else r j) = r j + 1 := fun j hj => if_pos hj
          obtain ⟨i, r', hvictim, hchosen⟩ := @ih (fun j => if j < n then r j + 1 else r j)
            (fun j hj => by rw [hup j hj]; exact hbelow j hj) (by rw [hup k hk]; omega)
          have hi := hchosen.lt
          refine ⟨i, r', hvictim, hi, ?_, ?_, ?_⟩
          · intro j hj
            have hlarge := hchosen.largest j hj
            rw [hup j hj, hup i hi] at hlarge
            omega
          · intro j hj
            have hfirst := hchosen.first j hj
            rw [hup j (hj.trans hi), hup i hi] at hfirst
            omega
          · intro j
            have hraised := hchosen.raised j
            have htop := hbelow i hi
            rw [hup i hi] at hraised
            rw [hraised]
            split_ifs <;> omega

theorem Chosen.le {i : Nat} {r' : Nat → Nat} (h : Chosen n top r i r') (hle : ∀ j, r j ≤ top)
    (j : Nat) : r' j ≤ top := by
  have hi := hle i
  have hj := hle j
  rw [h.raised j]
  split_ifs with hlt
  · have hlarge := h.largest j hlt
    omega
  · exact hj

end Thermometer.Lib.Rereference

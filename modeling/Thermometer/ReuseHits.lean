import Thermometer.LruStack
import Thermometer.ReuseTracking

namespace Thermometer.ReuseHits

open Trace Lib.Tables Lib.Runs Lib.StackDistance MultiLevelBtb MultiLevelBasicBtb ReuseRecord ReuseTracking LruStack

/-- The other branches of a set among some accesses. -/
def others (sets ip : Nat) (since : List Taken) : Finset Nat :=
  ((since.filter (fun z => setIndex sets z.ip == setIndex sets ip)).map Taken.ip).toFinset

theorem others_eq (sets ip : Nat) (since : List Taken) :
    others sets ip since = (ofSet (setIndex sets) (setIndex sets ip) (since.map Taken.ip)).toFinset := by
  rw [others, ofSet, List.filter_map]
  rfl

theorem maskIndex_eq_setIndex (n : Nat) : maskIndex (2 ^ n) = setIndex (2 ^ n) := by
  funext ip
  exact Nat.and_two_pow_sub_one_eq_mod _ n

/-- The recorder of a run and a single level of the same sets driven by it, at an
access `y` of a branch whose access before was `x`. -/
theorem reuse_distance_predicts_hits (n ways latency : Nat) (h : 1 ≤ ways) (before since after : List Taken) (x y : Taken)
    (hx : x.ip = y.ip) (hsince : ∀ z ∈ since, z.ip ≠ y.ip) :
    let xs := before ++ x :: (since ++ y :: after)
    let recorded := (xs.foldl ReuseDistance.step (.new (2 ^ n) true)).recorded y.ip
    recorded.length = (xs.map Taken.ip).count y.ip ∧
    recorded[(before.map Taken.ip).count y.ip + 1]? = some (others (2 ^ n) y.ip since).card ∧
    ∃ m, run access [.empty latency (2 ^ n) ways] (before ++ x :: since) = some m ∧
      ((findBtbEntry m y.ip).1.isSome = true ↔ (others (2 ^ n) y.ip since).card < ways) := by
  intro xs recorded
  obtain ⟨htracks, hsets⟩ := tracks_run (2 ^ n) xs
  have hno : y.ip ∉ since.map Taken.ip := by
    intro hmem
    obtain ⟨z, hz, heq⟩ := List.mem_map.mp hmem
    exact hsince z hz heq
  have hsplit : xs.map Taken.ip = before.map Taken.ip ++ y.ip :: (since.map Taken.ip ++ y.ip :: after.map Taken.ip) := by
    simp only [xs, List.map_append, List.map_cons, hx]
  refine ⟨htracks.length_recorded y.ip, ?_, ?_⟩
  · rw [hsplit] at htracks
    have hvalue := htracks.recorded_again hno
    rw [hsets, maskIndex_eq_setIndex] at hvalue
    rw [others_eq]
    exact hvalue
  · obtain ⟨b, hrun, -, hstacked, hshape⟩ := access_run latency (2 ^ n) h (before ++ x :: since)
    obtain ⟨-, hsame⟩ := Prod.mk.inj hshape
    obtain ⟨hsets', hways⟩ := Prod.mk.inj hsame
    refine ⟨[b], hrun, ?_⟩
    have hfar : y.ip ∉ ofSet (setIndex (2 ^ n)) (setIndex (2 ^ n) y.ip) (since.map Taken.ip) :=
      fun hmem => hno (mem_ofSet.mp hmem).2
    rw [findBtbEntry_single, look_isSome, hstacked.mem_iff, hways, BTB.findSetIndex, hsets', List.map_append, List.map_cons,
      hx, ofSet_append, ofSet_cons_self, mem_cacheOf_iff _ _ hfar, others_eq]

/-- A set of two ways that two other branches went through. -/
theorem reuse_distance_predicts_hits_two :
    let branch (ip : Nat) : Taken := ⟨ip, 64, .directJump, .stored, fun _ => .stored⟩
    (([branch 4, branch 8, branch 12, branch 4].foldl ReuseDistance.step (.new 1 true)).recorded 4)[1]? = some 2 ∧
    ∃ m, run access [.empty 0 1 2] [branch 4, branch 8, branch 12] = some m ∧
      ((findBtbEntry m 4).1.isSome = true ↔ 2 < 2) := by
  intro branch
  obtain ⟨-, hvalue, hhit⟩ := reuse_distance_predicts_hits 0 2 0 (by decide) [] [branch 8, branch 12] []
    (branch 4) (branch 4) rfl (by decide)
  have hcard : (others (2 ^ 0) (branch 4).ip [branch 8, branch 12]).card = 2 := by decide
  rw [hcard] at hvalue hhit
  exact ⟨hvalue, hhit⟩

end Thermometer.ReuseHits

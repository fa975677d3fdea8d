import Thermometer.BasicBtb
import Thermometer.ShotgunBasic
import Thermometer.ShotgunFront

namespace Thermometer.ShotgunPublish

open Lib.Tables ShotgunFootprint ShotgunFront

variable {E : Type} [BtbEntry E]

def tags (blocks : List (Nat × List E)) : List Nat := blocks.flatMap (fun a => a.2.map BtbEntry.ipTag)

def recordedTags (footprint : Footprint E) : List Nat := tags (iterate .stored footprint)

/-- Every access of the footprint is in the region as often as it was recorded, and the
footprint is emptied. -/
def PublishesAll (o : IterOrder) (prefetchCall : Bool) (e : FootprintEntry E) (region : Regions) : Prop :=
  (operatePrefetch o prefetchCall e region).1.footprint prefetchCall = ∅ ∧
    ∀ tag ∈ recordedTags (e.footprint prefetchCall),
      ((operatePrefetch o prefetchCall e region).2 (prefetchKey prefetchCall e)).count tag =
        (recordedTags (e.footprint prefetchCall)).count tag

variable {o : IterOrder} {footprint : Footprint E} {key : Nat} {region : Regions} {blocks : List (Nat × List E)}

theorem tags_perm (o : IterOrder) (footprint : Footprint E) :
    (tags (iterate o footprint)).Perm (recordedTags footprint) := by
  apply List.Perm.flatMap_right
  exact (o.perm _).filterMap _

theorem publish_last {last : Nat × List E} (h : iterate o footprint = blocks ++ [last]) :
    publish o footprint key region key = last.2.map BtbEntry.ipTag := by
  rw [publish, h, List.foldl_append, List.foldl_cons, List.foldl_nil, Function.update_self]

theorem tags_eq_nil : tags blocks = [] ↔ ∀ a ∈ blocks, a.2 = [] := by
  rw [tags, List.flatMap_eq_nil_iff]
  simp only [List.map_eq_nil_iff]

theorem count_last_iff (blocks : List (Nat × List E)) (last : Nat × List E) :
    (∀ tag ∈ tags (blocks ++ [last]), (last.2.map BtbEntry.ipTag).count tag = (tags (blocks ++ [last])).count tag) ↔
      ∀ a ∈ blocks, a.2 = [] := by
  have hsplit : tags (blocks ++ [last]) = tags blocks ++ last.2.map BtbEntry.ipTag := by
    rw [tags, List.flatMap_append, List.flatMap_singleton]
    rfl
  rw [hsplit, ← tags_eq_nil]
  constructor
  · intro h
    apply List.eq_nil_iff_forall_not_mem.mpr
    intro tag htag
    have hcount := h tag (List.mem_append_left _ htag)
    have hpos := List.count_pos_iff.mpr htag
    rw [List.count_append] at hcount
    omega
  · intro h tag _
    rw [h, List.nil_append]

/-- A region is complete in exactly the case that all the accesses are in the block the loop meets last. -/
theorem publishesAll_iff (o : IterOrder) (prefetchCall : Bool) (e : FootprintEntry E) (region : Regions) :
    PublishesAll o prefetchCall e region ↔ ∀ a ∈ (iterate o (e.footprint prefetchCall)).dropLast, a.2 = [] := by
  have hempty : (operatePrefetch o prefetchCall e region).1.footprint prefetchCall = ∅ :=
    footprint_setFootprint_self e prefetchCall ∅
  rw [PublishesAll, and_iff_right hempty]
  have hperm := tags_perm o (e.footprint prefetchCall)
  have hcounts : (∀ tag ∈ recordedTags (e.footprint prefetchCall),
      ((operatePrefetch o prefetchCall e region).2 (prefetchKey prefetchCall e)).count tag =
        (recordedTags (e.footprint prefetchCall)).count tag) ↔
      ∀ tag ∈ tags (iterate o (e.footprint prefetchCall)),
        ((operatePrefetch o prefetchCall e region).2 (prefetchKey prefetchCall e)).count tag =
          (tags (iterate o (e.footprint prefetchCall))).count tag := by
    simp only [hperm.mem_iff, hperm.count_eq]
  rw [hcounts]
  rcases List.eq_nil_or_concat (iterate o (e.footprint prefetchCall)) with hnil | ⟨blocks, last, hlast⟩
  · rw [hnil]
    simp [tags]
  · rw [List.concat_eq_append] at hlast
    have hregion : (operatePrefetch o prefetchCall e region).2 (prefetchKey prefetchCall e) = last.2.map BtbEntry.ipTag :=
      publish_last hlast
    rw [hregion, hlast, count_last_iff, List.dropLast_concat]

/-- Without blocks that have no access, one block is the most that is published. -/
theorem publishesAll_iff_size (prefetchCall : Bool) {e : FootprintEntry E}
    (h : ∀ block l, (e.footprint prefetchCall).lookup block = some l → l ≠ []) (o : IterOrder) (region : Regions) :
    PublishesAll o prefetchCall e region ↔ size (e.footprint prefetchCall) ≤ 1 := by
  have hlength : (iterate o (e.footprint prefetchCall)).length = size (e.footprint prefetchCall) := by
    rw [← List.length_map (f := Prod.fst), iterate_keys, (o.perm _).length_eq, size]
  rw [publishesAll_iff, ← hlength]
  constructor
  · intro hall
    by_contra hlt
    have hpos : 0 < (iterate o (e.footprint prefetchCall)).dropLast.length := by
      rw [List.length_dropLast]
      omega
    obtain ⟨a, ha⟩ := List.exists_mem_of_length_pos hpos
    have hmem := (mem_iterate o _ a.1 a.2).mp (List.mem_of_mem_dropLast ha)
    exact h a.1 a.2 hmem (hall a ha)
  · intro hle a ha
    have hnil : (iterate o (e.footprint prefetchCall)).dropLast = [] := by
      rw [← List.length_eq_zero_iff, List.length_dropLast]
      omega
    rw [hnil] at ha
    cases ha

/-- A call with two branches recorded in its target region, in blocks of their own. -/
def twoBlocks : FootprintEntry BasicBtb.Entry :=
  cacheAccess ⟨8256, 8300, true, 0⟩ true (cacheAccess ⟨8200, 8300, true, 0⟩ true (.new ⟨4096, 8192, true, 0⟩))

/-- Of the two branches one is published. -/
theorem block_lost : ¬PublishesAll .stored true twoBlocks (fun _ => []) := by
  intro h
  have hsecond := h.2 8256 (by decide +kernel)
  exact absurd hsecond (by decide +kernel)

end Thermometer.ShotgunPublish

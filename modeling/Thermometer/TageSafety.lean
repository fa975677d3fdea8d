import Thermometer.TageTables

namespace Thermometer.TageSafety

open Trace Lib.Folding TageHistory TageTables

structure EntryFits (e : GEntry) : Prop where
  lower : -4 ≤ e.ctr
  upper : e.ctr ≤ 3
  tag : e.tag < 2 ^ 12
  u : e.u ≤ 1

structure Sound (t : Tables) : Prop where
  low : ∀ j, EntryFits (t.low j)
  high : ∀ j, EntryFits (t.high j)
  bimodal : ∀ j, (t.btable j).hyst ≤ 1 ∧ (t.btable j).pred ≤ 1
  useAlt : ∀ j, -16 ≤ t.useAltOnNa j ∧ t.useAltOnNa j ≤ 15
  tick : 0 ≤ t.tick ∧ t.tick < bornTick

structure Live (i : Nat) : Prop where
  pos : 1 ≤ i
  le : i ≤ nhist
  part : noskip i = true

/-- What a lookup hands to the update: places inside of the arrays. -/
structure LookupFits (k : Lookup) : Prop where
  gi : ∀ i, Live i → k.gi i < sizeTable i
  tags : ∀ i, k.tags i < 2 ^ 12
  bi : k.bi < 1 <<< logb
  bim : k.bim ≤ 3
  hit : k.hitBank = 0 ∨ Live k.hitBank
  alt : k.altBank = 0 ∨ Live k.altBank
  base : k.hitBank = 0 → k.longestMatchPred = k.altTaken

variable {t t' : Tables} {k : Lookup} {i j n : Nat} {e : GEntry} {f : GEntry → GEntry} {b :
  Bool} {mask : Nat → Nat}
  {L : Lengths} {s : Histories}

theorem fits_empty : EntryFits ⟨0, 0, 0⟩ := ⟨by decide, by decide, by decide, by decide⟩

theorem sound_initial : Sound initial :=
  ⟨fun _ => fits_empty, fun _ => fits_empty, fun _ => ⟨Nat.le_refl 1, Nat.zero_le 1⟩,
    fun _ => (by decide : (-16 : Int) ≤ 0 ∧ (0 : Int) ≤ 15), by decide⟩

theorem Sound.entries (h : Sound t) (i j : Nat) : EntryFits (t.entries i j) := by
  rw [Tables.entries]
  split_ifs
  · exact h.low j
  · exact h.high j

theorem read_eq (hi : Live i) (hj : j < sizeTable i) : t.read i j = some (t.entries i j) :=
  if_pos ⟨hi.pos, hi.le, hj⟩

theorem modify_eq (hi : Live i) (hj : j < sizeTable i) : t.modify i j f =
    some (t.put i j (f (t.entries i j))) := by
  rw [Tables.modify, read_eq hi hj]
  rfl

theorem Sound.put (h : Sound t) (he : EntryFits e) : Sound (t.put i j e) := by
  have hall : ∀ g : Nat → GEntry, (∀ j, EntryFits (g j)) → ∀ l, EntryFits (Function.update g j e l) := by
    intro g hg l
    by_cases hl : l = j
    · rw [hl, Function.update_self]
      exact he
    · rw [Function.update_of_ne hl]
      exact hg l
  rw [Tables.put]
  split_ifs
  · exact ⟨hall _ h.low, h.high, h.bimodal, h.useAlt, h.tick⟩
  · exact ⟨h.low, hall _ h.high, h.bimodal, h.useAlt, h.tick⟩

theorem ctrupdate_three {c : Int} (hl : -4 ≤ c) (hu : c ≤ 3) (b : Bool) :
    -4 ≤ ctrupdate c b ctrWidth ∧ ctrupdate c b ctrWidth ≤ 3 := by
  simp only [ctrupdate, ctrWidth]
  split_ifs <;> omega

theorem ctrupdate_five {c : Int} (hl : -16 ≤ c) (hu : c ≤ 15) (b : Bool) :
    -16 ≤ ctrupdate c b altWidth ∧ ctrupdate c b altWidth ≤ 15 := by
  simp only [ctrupdate, altWidth]
  split_ifs <;> omega

section Indices

theorem and_lt (x n : Nat) : x &&& (1 <<< n - 1) < 2 ^ n := by
  rw [Nat.one_shiftLeft, Nat.and_two_pow_sub_one_eq_mod]
  exact Nat.mod_lt x (Nat.two_pow_pos n)

theorem gindexAt_lt (L : Lengths) (s : Histories) (pc i : Nat) : gindexAt L s pc i < 2 ^ logg := by
  rw [gindexAt]
  split_ifs
  · exact and_lt _ logg
  · exact Nat.xor_lt_two_pow (and_lt _ logg) (and_lt _ logg)

theorem gtagAt_lt (s : Histories) (pc i : Nat) : gtagAt s pc i < 2 ^ 12 := by
  have hwidth : ∀ o, tagWidth o ≤ 12 := by
    intro o
    simp only [tagWidth, tbits]
    split_ifs <;> omega
  exact Nat.lt_of_lt_of_le (and_lt _ _) (Nat.pow_le_pow_right (by decide) (hwidth _))

variable {nbank : Nat} {is : List Nat} {gi : Nat → Nat} {T : Nat}

theorem interleave_of_notMem (h : i ∉ is) : interleave nbank is T gi i = gi i := by
  induction is generalizing T gi with
  | nil => rfl
  | cons a is ih =>
      have hne : i ≠ a := fun heq => h (heq ▸ List.mem_cons_self)
      have hmem : i ∉ is := fun hmem => h (List.mem_cons_of_mem a hmem)
      rw [interleave]
      split_ifs
      · rw [ih hmem, Function.update_of_ne hne]
      · exact ih hmem

def place (is : List Nat) (i : Nat) : Nat := (is.takeWhile (fun a => a ≠ i)).countP noskip

theorem interleave_of_mem (hT : T < nbank) (hnodup : is.Nodup) (hmem : i ∈ is) (hi : noskip i = true) :
    interleave nbank is T gi i = gi i + ((T + place is i) % nbank) <<< logg := by
  induction is generalizing T gi with
  | nil => cases hmem
  | cons a is ih =>
      rw [List.nodup_cons] at hnodup
      rw [interleave]
      by_cases heq : a = i
      · subst heq
        have hplace : place (a :: is) a = 0 := by simp [place]
        rw [if_pos hi, interleave_of_notMem hnodup.1, Function.update_self, hplace, Nat.add_zero,
          Nat.mod_eq_of_lt hT]
      · have hmem' : i ∈ is := (List.mem_cons.mp hmem).resolve_left (Ne.symm heq)
        have hplace : place (a :: is) i = place is i + if noskip a then 1 else 0 := by
          simp [place, heq, List.countP_cons]
        rw [hplace]
        split_ifs with ha
        · rw [ih (Nat.mod_lt _ (Nat.zero_lt_of_lt hT)) hnodup.2 hmem', Function.update_of_ne
            (Ne.symm heq), Nat.mod_add_mod]
          congr 3
          omega
        · rw [ih hT hnodup.2 hmem', Nat.add_zero]

theorem mem_tables (hi : Live i) :
    (i < born ∧ i ∈ shortTables ∧ i ∉ longTables) ∨ (born ≤ i ∧ i ∈ longTables ∧ i ∉ shortTables) := by
  have hpos := hi.pos
  have hle := hi.le
  simp only [nhist] at hle
  simp only [shortTables, longTables, List.mem_range', born, nhist]
  by_cases h : i < 13
  · left
    refine ⟨h, ⟨i - 1, by omega, by omega⟩, ?_⟩
    rintro ⟨a, ha, rfl⟩
    omega
  · right
    refine ⟨by omega, ⟨i - 13, by omega, by omega⟩, ?_⟩
    rintro ⟨a, ha, rfl⟩
    omega

theorem indices_eq (mask : Nat → Nat) (L : Lengths) (s : Histories) (pc : Nat) (hi : Live i) :
    ∃ T, indices mask L s pc i = gindexAt L s pc i +
      ((T + place (if i < born then shortTables else longTables) i) %
        (if i < born then nbankLow else nbankHigh)) <<< logg ∧
      T = if i < born then (pc ^^^ (s.phist &&& mask 1)) % nbankLow else
        (pc ^^^ (s.phist &&& mask born)) % nbankHigh := by
  have hshort : shortTables.Nodup := by decide
  have hlong : longTables.Nodup := by decide
  refine ⟨_, ?_, rfl⟩
  rcases mem_tables hi with ⟨hlt, hmem, hnot⟩ | ⟨hle, hmem, hnot⟩
  · rw [indices, interleave_of_mem (Nat.mod_lt _ (by decide)) hshort hmem hi.part, interleave_of_notMem hnot]
    simp only [if_pos hlt]
  · rw [indices, interleave_of_notMem hnot, interleave_of_mem (Nat.mod_lt _ (by decide)) hlong hmem hi.part]
    simp only [if_neg (Nat.not_lt_of_ge hle)]

theorem indices_lt (mask : Nat → Nat) (L : Lengths) (s : Histories) (pc : Nat) (hi : Live i) :
    indices mask L s pc i < sizeTable i := by
  obtain ⟨T, heq, -⟩ := indices_eq mask L s pc hi
  have hbase := gindexAt_lt L s pc i
  rw [heq, Nat.shiftLeft_eq, sizeTable, Nat.one_shiftLeft]
  have hbank : 0 < if i < born then nbankLow else nbankHigh := by
    split_ifs <;> decide
  have hmod := Nat.mod_lt (T + place (if i < born then shortTables else longTables) i) hbank
  have hstep := Nat.mul_le_mul_right (2 ^ logg) (Nat.succ_le_of_lt hmod)
  rw [Nat.succ_mul] at hstep
  omega

end Indices

section Predict

variable {gi tags : Nat → Nat}

theorem findBank_some (t : Tables) (tags : Nat → Nat) (hgi : ∀ i, Live i → gi i < sizeTable i)
    (hn : n ≤ nhist) :
    ∃ r, findBank t gi tags n = some r ∧ r ≤ n ∧ (r = 0 ∨ Live r) := by
  induction n with
  | zero => exact ⟨0, rfl, Nat.le_refl 0, .inl rfl⟩
  | succ n ih =>
      obtain ⟨r, hr, hle, hlive⟩ := ih (Nat.le_of_succ_le hn)
      rw [findBank]
      split_ifs with hpart
      · have hi : Live (n + 1) := ⟨Nat.succ_pos n, hn, hpart⟩
        rw [read_eq hi (hgi _ hi), Option.bind_some]
        split_ifs
        · exact ⟨n + 1, rfl, Nat.le_refl _, .inr hi⟩
        · exact ⟨r, hr, Nat.le_succ_of_le hle, hlive⟩
      · exact ⟨r, hr, Nat.le_succ_of_le hle, hlive⟩

theorem Sound.readBim (h : Sound t) (hbi : i < 1 <<< logb) : ∃ bim, t.readBim i = some bim ∧ bim ≤ 3 := by
  refine ⟨_, if_pos hbi, ?_⟩
  have hpred := (h.bimodal i).2
  have hhyst := (h.bimodal (i >>> hystShift)).1
  rw [Nat.shiftLeft_eq]
  omega

theorem lookupFits_base (hgi : ∀ i, Live i → gi i < sizeTable i) (htags : ∀ i, tags i < 2 ^ 12)
    (hi : i < 1 <<< logb) (hn : n ≤ 3) (b : Bool) : LookupFits (baseLookup gi tags i n b) :=
  ⟨hgi, htags, hi, hn, .inl rfl, .inl rfl, fun _ => rfl⟩

theorem Sound.tagePredict (h : Sound t) (mask : Nat → Nat) (L : Lengths) (s : Histories) (pc : Nat) :
    ∃ k, tagePredict mask L s t pc = some k ∧ LookupFits k ∧ k.gi = indices mask L s pc ∧ k.tags =
      gtagAt s pc := by
  have hgi : ∀ i, Live i → indices mask L s pc i < sizeTable i := fun i hi => indices_lt mask L s pc hi
  have hbi : (pc ^^^ (pc >>> 2)) &&& (1 <<< logb - 1) < 1 <<< logb := by
    have hlt := and_lt (pc ^^^ (pc >>> 2)) logb
    rwa [← Nat.one_shiftLeft] at hlt
  obtain ⟨bim, hbim, hle⟩ := h.readBim hbi
  obtain ⟨r, hr, hrle, hlive⟩ := findBank_some t (gtagAt s pc) hgi (Nat.le_refl nhist)
  obtain ⟨a, ha, -, halt⟩ :=
    findBank_some t (gtagAt s pc) hgi (Nat.le_trans (Nat.sub_le r 1) hrle)
  have hbase := lookupFits_base hgi (gtagAt_lt s pc) hbi hle
    (decide ((t.btable ((pc ^^^ (pc >>> 2)) &&& (1 <<< logb - 1))).pred > 0))
  simp only [TageTables.tagePredict, hbim, hr, ha, Option.bind_eq_bind, Option.bind_some]
  by_cases hzero : r = 0
  · rw [if_pos hzero]
    exact ⟨_, rfl, hbase, rfl, rfl⟩
  · have hhit := hlive.resolve_left hzero
    rw [if_neg hzero, read_eq hhit (hgi r hhit), Option.bind_some]
    by_cases hnone : a = 0
    · rw [if_pos hnone]
      exact ⟨_, rfl, ⟨hgi, gtagAt_lt s pc, hbi, hle, hlive, halt, fun heq => absurd heq hzero⟩, rfl, rfl⟩
    · have hlast := halt.resolve_left hnone
      rw [if_neg hnone, read_eq hlast (hgi a hlast), Option.map_some]
      exact ⟨_, rfl, ⟨hgi, gtagAt_lt s pc, hbi, hle, hlive, halt, fun heq => absurd heq hzero⟩, rfl, rfl⟩

end Predict

end Thermometer.TageSafety

import Thermometer.FdipQueue

namespace Thermometer.FdipAligned

open Trace Lib.Tables Lib.Runs FdipQueue
open FdipShotgun (Instr Cycle Resolved)

/-- An instruction of a trace. Its target is 0 when it is no branch or not taken. -/
structure TraceInstr where
  ip : Nat
  size : Nat
  isBranch : Bool
  branchTarget : Nat
  deriving DecidableEq

def TraceInstr.nextIp (x : TraceInstr) : Nat := if x.branchTarget = 0 then x.ip + x.size else x.branchTarget

def Predicts (i : Instr) (x : TraceInstr) : Prop :=
  ∃ ty taken, i = .new ty x.branchTarget taken x.branchTarget ∧ (taken = true ↔ x.branchTarget ≠ 0)

/-- A stretch of a trace, from a branch on, and what is known of its later branches. -/
structure Segment (record : Table Instr) (xs : List TraceInstr) : Prop where
  size : ∀ x ∈ xs, 1 ≤ x.size ∧ x.size ≤ 15
  space : ∀ x ∈ xs, x.ip + x.size ≤ 2 ^ 64
  straight : ∀ x ∈ xs, x.isBranch = false → x.branchTarget = 0
  follows : xs.IsChain (fun x y => y.ip = x.nextIp)
  predicted : ∀ x ∈ xs.tail, x.isBranch = true → ∃ i, record.lookup x.ip = some i ∧ Predicts i x

/-- The branches among the instructions behind the first one with an id below `bound`, when the
first has `id`. -/
def branchesBelow (xs : List TraceInstr) (id bound : Nat) : List (Nat × Nat) :=
  (((xs.tail.take (bound - (id + 1))).zipIdx (id + 1)).filter (fun b => b.1.isBranch)).map (fun b => (b.1.ip, b.2))

/-- The queue holds the branches that the run-ahead has passed, as they come to decode and to
execution. -/
structure Holds (f : Fdip) (xs : List TraceInstr) (id : Nat) (g : Fdip) : Prop where
  appended : g.ftq = f.ftq ++ branchesBelow xs id g.runaheadInstrUniqueId
  decode : ∀ (k : Nat) (x : TraceInstr), 0 < k → xs[k]? = some x → x.isBranch = true → id + k < g.runaheadInstrUniqueId →
    (x.ip, id + k) ∈ g.ftq
  execute : f.ftq = [] → g.ftq.head? = (branchesBelow xs id g.runaheadInstrUniqueId).head?

/-- After a reset at the first instruction, as long as the IFETCH buffer holds instructions of the segment. -/
def InStep (pqSize : Nat) (f : Fdip) (xs : List TraceInstr) (id : Nat) : Prop :=
  ∀ b ∈ xs.head?, ∀ (pfc mispredicted : Bool) (es : List Cycle) (g : Fdip), (∀ e ∈ es, ∀ m ∈ e.ifetchIds, m < id + xs.length) →
    run (step pqSize) (resetFtq true f ⟨b.ip, id, b.branchTarget, pfc, mispredicted⟩)
      (es.map (fun e => .cycleOperate e true)) = some g → Holds f xs id g

def TraceInstr.passedTo (x : TraceInstr) : Nat := if x.branchTarget = 0 then x.ip + 1 else x.branchTarget

/-- Instructions `p` and `k`, with no branch between them, and `p` the first one or a branch. -/
structure Stretch (xs : List TraceInstr) (p k : Nat) : Prop where
  lt : p < k
  start : p = 0 ∨ ∃ x, xs[p]? = some x ∧ x.isBranch = true
  between : ∀ (j : Nat) (x : TraceInstr), p < j → j < k → xs[j]? = some x → x.isBranch = false

/-- An instruction that is passed byte by byte before a branch has one byte, and the record knows
nothing at the addresses that stand for instructions that are no branches. -/
structure Aligned (record : Table Instr) (xs : List TraceInstr) : Prop where
  bytes : ∀ (j k : Nat) (x y : TraceInstr), j < k → xs[j]? = some x → xs[k]? = some y → y.isBranch = true → x.branchTarget = 0 → x.size = 1
  silent : ∀ (p k : Nat) (x y : TraceInstr), Stretch xs p k → xs[p]? = some x → xs[k]? = some y → y.isBranch = false →
    record.lookup (x.passedTo + (k - p - 1)) = none

section Stretches

variable {record : Table Instr} {xs : List TraceInstr} {p k j : Nat} {x y : TraceInstr}

theorem exists_stretch (xs : List TraceInstr) (hk : 0 < k) : ∃ p, Stretch xs p k := by
  induction k with
  | zero => exact absurd hk (Nat.lt_irrefl 0)
  | succ k ih =>
      by_cases hbranch : ∃ x, xs[k]? = some x ∧ x.isBranch = true
      · refine ⟨k, Nat.lt_succ_self k, .inr hbranch, ?_⟩
        intro j x hlt hgt
        omega
      · rcases Nat.eq_zero_or_pos k with rfl | hpos
        · refine ⟨0, Nat.one_pos, .inl rfl, ?_⟩
          intro j x hlt hgt
          omega
        · obtain ⟨p, hlt, hstart, hbetween⟩ := ih hpos
          refine ⟨p, Nat.lt_succ_of_lt hlt, hstart, ?_⟩
          intro j x hj hjk hx
          rcases Nat.lt_succ_iff_lt_or_eq.mp hjk with hjk | rfl
          · exact hbetween j x hj hjk hx
          · exact Bool.eq_false_iff.mpr (fun hb => hbranch ⟨x, hx, hb⟩)

theorem Segment.next (hs : Segment record xs) (hx : xs[k]? = some x) (hy : xs[k + 1]? = some y) : y.ip = x.nextIp := by
  obtain ⟨hlt, rfl⟩ := List.getElem?_eq_some_iff.mp hx
  obtain ⟨hlt', rfl⟩ := List.getElem?_eq_some_iff.mp hy
  exact List.isChain_iff_getElem.mp hs.follows k hlt'

/-- Behind `p` every instruction has at least one byte, and the address is that of one byte each
exactly when each has one. -/
theorem ip_of_stretch (hs : Segment record xs) (hp : Stretch xs p k) (hx : xs[p]? = some x) (hy : xs[k]? = some y) :
    x.passedTo + (k - p - 1) ≤ y.ip ∧
      (y.ip = x.passedTo + (k - p - 1) ↔ ∀ j z, p ≤ j → j < k → xs[j]? = some z → z.branchTarget = 0 → z.size = 1) := by
  obtain ⟨hlt, hstart, hbetween⟩ := hp
  obtain ⟨n, rfl⟩ := Nat.exists_eq_add_of_lt hlt
  induction n generalizing y with
  | zero =>
      have hnext := hs.next hx hy
      have hsize := hs.size x (List.mem_of_getElem? hx)
      have hone : ∀ j z, p ≤ j → j < p + 0 + 1 → xs[j]? = some z → z = x := by
        intro j z hj hj' hz
        obtain rfl : j = p := by omega
        rw [hx, Option.some.injEq] at hz
        exact hz.symm
      rw [TraceInstr.nextIp] at hnext
      rw [TraceInstr.passedTo]
      split_ifs at hnext ⊢ with htarget
      · refine ⟨by omega, fun heq j z hj hj' hz _ => ?_, fun h => ?_⟩
        · rw [hone j z hj hj' hz]
          omega
        · have := h p x (Nat.le_refl p) (by omega) hx htarget
          omega
      · refine ⟨by omega, fun _ j z hj hj' hz hzero => ?_, fun _ => by omega⟩
        rw [hone j z hj hj' hz] at hzero
        exact absurd hzero htarget
  | succ n ih =>
      have hlen : p + n + 1 < xs.length := by
        obtain ⟨hlen, -⟩ := List.getElem?_eq_some_iff.mp hy
        omega
      have hz := List.getElem?_eq_getElem hlen
      obtain ⟨hle, hiff⟩ := ih hz (by omega) (fun j w hj hj' => hbetween j w hj (by omega))
      have hnext := hs.next hz hy
      have hstraight := hs.straight _ (List.mem_of_getElem? hz) (hbetween _ _ (by omega) (by omega) hz)
      have hsize := hs.size _ (List.mem_of_getElem? hz)
      rw [TraceInstr.nextIp, if_pos hstraight] at hnext
      refine ⟨by omega, fun heq j w hj hj' hw hzero => ?_, fun h => ?_⟩
      · rcases Nat.lt_succ_iff_lt_or_eq.mp hj' with hlt' | rfl
        · exact hiff.mp (by omega) j w hj hlt' hw hzero
        · change xs[p + n + 1]? = some w at hw
          rw [hz, Option.some.injEq] at hw
          subst hw
          omega
      · have hsizes := hiff.mpr (fun j w hj hj' => h j w hj (by omega))
        have := h (p + n + 1) _ (by omega) (by omega) hz hstraight
        omega

end Stretches

section Tracks

variable {record : Table Instr} {xs : List TraceInstr} {p k : Nat} {b x y : TraceInstr}

def resetIp (b : TraceInstr) : Nat := if b.branchTarget = 0 then (b.ip + 1) % 2 ^ 64 else b.branchTarget

def visited (record : Table Instr) (b : TraceInstr) (k : Nat) : Nat := (next true record)^[k] (resetIp b)

/-- Instruction `k + 1` is met as the branch that it is, or is passed over. -/
def Tracks (record : Table Instr) (xs : List TraceInstr) (b : TraceInstr) (k : Nat) : Prop :=
  ∀ y, xs[k + 1]? = some y → (y.isBranch = true → visited record b k = y.ip) ∧
    (y.isBranch = false → record.lookup (visited record b k) = none)

theorem visited_succ (record : Table Instr) (b : TraceInstr) (k : Nat) :
    visited record b (k + 1) = next true record (visited record b k) := Function.iterate_succ_apply' _ _ _

theorem Segment.room (hs : Segment record xs) (hx : xs[k]? = some x) (hy : xs[k + 1]? = some y) (hzero : x.branchTarget = 0) :
    x.ip + 1 < 2 ^ 64 := by
  have hnext := hs.next hx hy
  have hsize := hs.size x (List.mem_of_getElem? hx)
  have hsize' := hs.size y (List.mem_of_getElem? hy)
  have hspace := hs.space y (List.mem_of_getElem? hy)
  rw [TraceInstr.nextIp, if_pos hzero] at hnext
  omega

theorem Predicts.next {i : Instr} (h : Predicts i x) (hlook : record.lookup x.ip = some i)
    (hroom : x.branchTarget = 0 → x.ip + 1 < 2 ^ 64) : next true record x.ip = x.passedTo := by
  obtain ⟨ty, taken, rfl, htaken⟩ := h
  rw [FdipQueue.next, hlook, TraceInstr.passedTo]
  by_cases hzero : x.branchTarget = 0
  · have hno : taken = false := Bool.eq_false_iff.mpr (fun ht => htaken.mp ht hzero)
    subst hno
    have hmod : (x.ip + offset true) % 2 ^ 64 = x.ip + 1 := Nat.mod_eq_of_lt (hroom hzero)
    simp only [Instr.new, Bool.and_false, Bool.false_eq_true, if_false, hmod, if_pos hzero]
  · have hyes : taken = true := htaken.mpr hzero
    subst hyes
    simp [Instr.new, hzero]

/-- As long as every instruction is tracked, the run-ahead takes one byte each behind the last branch. -/
theorem visited_of_tracks (hs : Segment record xs) (hb : xs[0]? = some b) (hy : xs[k + 1]? = some y)
    (htracks : ∀ j < k, Tracks record xs b j) (hp : Stretch xs p (k + 1)) (hx : xs[p]? = some x) :
    visited record b k = x.passedTo + (k - p) := by
  induction k generalizing p x y with
  | zero =>
      have hlt := hp.lt
      obtain rfl : p = 0 := by omega
      rw [hb, Option.some.injEq] at hx
      subst hx
      have hroom := hs.room hb hy
      rw [visited, Function.iterate_zero, id_eq, resetIp, TraceInstr.passedTo]
      split_ifs with hzero
      · exact Nat.mod_eq_of_lt (hroom hzero)
      · rfl
  | succ k ih =>
      obtain ⟨hlen, -⟩ := List.getElem?_eq_some_iff.mp hy
      obtain ⟨z, hz⟩ : ∃ z, xs[k + 1]? = some z := ⟨_, List.getElem?_eq_getElem (by omega)⟩
      obtain ⟨htrack, hsilent⟩ := htracks k (Nat.lt_succ_self k) z hz
      have hlt := hp.lt
      rw [visited_succ]
      cases hbranch : z.isBranch with
      | true =>
          -- the stretch starts at the branch that has just been met
          have hpk : p = k + 1 := by
            by_contra hne
            have := hp.between (k + 1) _ (by omega) (Nat.lt_succ_self _) hz
            rw [hbranch] at this
            cases this
          subst hpk
          rw [hz, Option.some.injEq] at hx
          subst hx
          have htail : z ∈ xs.tail := by
            apply List.mem_of_getElem? (i := k)
            rw [List.getElem?_tail]
            exact hz
          obtain ⟨i, hlook, hi⟩ := hs.predicted _ htail hbranch
          rw [htrack hbranch, hi.next hlook (hs.room hz hy), Nat.sub_self, Nat.add_zero]
      | false =>
          have hpk : p ≠ k + 1 := by
            rintro rfl
            rcases hp.start with hzero | ⟨w, hw, hwb⟩
            · exact absurd hzero (Nat.succ_ne_zero k)
            · rw [hz, Option.some.injEq] at hw
              rw [← hw, hbranch] at hwb
              cases hwb
          have hstretch : Stretch xs p (k + 1) :=
            ⟨by omega, hp.start, fun j w hj hj' => hp.between j w hj (Nat.lt_succ_of_lt hj')⟩
          have hvisited := ih hz (fun j hj => htracks j (Nat.lt_succ_of_lt hj)) hstretch hx
          have hle := (ip_of_stretch hs hstretch hx hz).1
          have hroom := hs.room hz hy (hs.straight _ (List.mem_of_getElem? hz) hbranch)
          have hmod : (visited record b k + offset true) % 2 ^ 64 = visited record b k + 1 :=
            Nat.mod_eq_of_lt (show visited record b k + 1 < 2 ^ 64 by omega)
          rw [FdipQueue.next, hsilent hbranch]
          dsimp only
          rw [hmod, hvisited]
          omega

theorem aligned_of_tracks (hs : Segment record xs) (hb : xs[0]? = some b) (htracks : ∀ k, Tracks record xs b k) :
    Aligned record xs := by
  have hvisited : ∀ {p k x y}, Stretch xs p (k + 1) → xs[p]? = some x → xs[k + 1]? = some y →
      visited record b k = x.passedTo + (k + 1 - p - 1) := by
    intro p k x y hp hx hy
    rw [visited_of_tracks hs hb hy (fun j _ => htracks j) hp hx]
    have := hp.lt
    omega
  constructor
  · intro j k x y hjk hx hy hbranch hzero
    -- the first branch behind `j`
    have hexists : ∃ q, j < q ∧ ∃ z, xs[q]? = some z ∧ z.isBranch = true := ⟨k, hjk, y, hy, hbranch⟩
    obtain ⟨hlt, z, hz, hzb⟩ := Nat.find_spec hexists
    have hfirst : ∀ m, m < Nat.find hexists → ¬(j < m ∧ ∃ z, xs[m]? = some z ∧ z.isBranch = true) :=
      fun m hm => Nat.find_min hexists hm
    generalize Nat.find hexists = q at hlt hz hfirst
    obtain ⟨p, hp⟩ := exists_stretch xs (Nat.lt_of_le_of_lt (Nat.zero_le j) hlt)
    have hpj : p ≤ j := by
      by_contra hgt
      rcases hp.start with hzero' | hpb
      · omega
      · exact hfirst p hp.lt ⟨by omega, hpb⟩
    have hpx : ∃ w, xs[p]? = some w := by
      obtain ⟨hlen, -⟩ := List.getElem?_eq_some_iff.mp hx
      exact ⟨_, List.getElem?_eq_getElem (Nat.lt_of_le_of_lt hpj hlen)⟩
    obtain ⟨w, hw⟩ := hpx
    obtain ⟨n, rfl⟩ := Nat.exists_eq_succ_of_ne_zero (Nat.ne_zero_of_lt hlt)
    have hip : z.ip = w.passedTo + (n + 1 - p - 1) := by
      rw [← hvisited hp hw hz]
      exact ((htracks n z hz).1 hzb).symm
    exact (ip_of_stretch hs hp hw hz).2.mp hip j x hpj hlt hx hzero
  · intro p k x y hp hx hy hno
    obtain ⟨n, rfl⟩ := Nat.exists_eq_succ_of_ne_zero (Nat.ne_zero_of_lt hp.lt)
    rw [← hvisited hp hx hy]
    exact (htracks n y hy).2 hno

theorem tracks_of_aligned (hs : Segment record xs) (hb : xs[0]? = some b) (h : Aligned record xs) (k : Nat) :
    Tracks record xs b k := by
  induction k using Nat.strong_induction_on with
  | _ k ih =>
      intro y hy
      obtain ⟨p, hp⟩ := exists_stretch xs (Nat.succ_pos k)
      have hlt := hp.lt
      obtain ⟨hlen, -⟩ := List.getElem?_eq_some_iff.mp hy
      have hx : xs[p]? = some xs[p] := List.getElem?_eq_getElem (by omega)
      have hvisited : visited record b k = xs[p].passedTo + (k + 1 - p - 1) := by
        rw [visited_of_tracks hs hb hy ih hp hx]
        omega
      constructor
      · intro hbranch
        rw [hvisited]
        refine ((ip_of_stretch hs hp hx hy).2.mpr ?_).symm
        intro j z _ hj hz hzero
        exact h.bytes j (k + 1) z y hj hz hy hbranch hzero
      · intro hno
        rw [hvisited]
        exact h.silent p (k + 1) _ y hp hx hy hno

end Tracks

section Cycles

variable {pqSize id n : Nat} {es : List Cycle} {f g : Fdip} {record : Table Instr} {xs : List TraceInstr}
  {b : TraceInstr}

def cycles (es : List Cycle) : List FdipQueue.Call := es.map (fun e => .cycleOperate e true)

theorem step_cycle (pqSize : Nat) (hf : Targeted f.branchRecord) (e : Cycle) :
    ∃ g, step pqSize f (.cycleOperate e true) = some g ∧ Ends true e (0 < pqSize) f g := by
  obtain ⟨g, hg, -, hends⟩ := cycleOperate_returns pqSize true e hf
  exact ⟨g, by rw [step, hg], hends⟩

theorem run_cycles {bound : Nat} (hf : Targeted f.branchRecord) (hes : ∀ e ∈ es, ∀ m ∈ e.ifetchIds, m < bound)
    (hbound : f.runaheadInstrUniqueId ≤ bound) (hrun : run (step pqSize) f (cycles es) = some g) :
    g.runaheadInstrUniqueId ≤ bound ∧ ∃ n, Ahead true n f g := by
  induction es generalizing f with
  | nil =>
      rw [cycles, List.map_nil, run_nil, Option.some.injEq] at hrun
      exact ⟨hrun ▸ hbound, 0, hrun ▸ .refl true f⟩
  | cons e es ih =>
      rw [cycles, List.map_cons, run_cons, Option.bind_eq_some_iff] at hrun
      obtain ⟨h, hh, hrun⟩ := hrun
      obtain ⟨h', hh', hends⟩ := step_cycle pqSize hf e
      obtain rfl : h = h' := Option.some.inj (hh.symm.trans hh')
      obtain ⟨n, hn⟩ := hends.ahead
      have hnear : h.runaheadInstrUniqueId ≤ bound := by
        rcases hends.near with heq | ⟨m, hm, hle⟩
        · omega
        · have := hes e List.mem_cons_self m hm
          omega
      obtain ⟨hle, m, hm⟩ := ih (by rw [hn.record]; exact hf) (fun e he => hes e (List.mem_cons_of_mem _ he)) hnear hrun
      exact ⟨hle, n + m, hn.trans hm⟩

/-- Cycles that see one instruction and are refused nothing take the run-ahead behind it. -/
theorem exists_cycles (hpos : 0 < pqSize) (hf : Targeted f.branchRecord) {bound : Nat} (hle : f.runaheadInstrUniqueId ≤ bound) :
    ∃ es g, (∀ e ∈ es, ∀ m ∈ e.ifetchIds, m < bound) ∧ run (step pqSize) f (cycles es) = some g ∧
      g.runaheadInstrUniqueId = bound := by
  obtain ⟨d, hd⟩ := Nat.exists_eq_add_of_le hle
  induction d using Nat.strong_induction_on generalizing f with
  | _ d ih =>
      rcases Nat.eq_zero_or_pos d with rfl | hdpos
      · exact ⟨[], f, fun e he => absurd he List.not_mem_nil, rfl, hd.symm⟩
      · let e : Cycle := ⟨[bound - 1], fun _ => true⟩
        obtain ⟨g, hg, hends⟩ := step_cycle pqSize hf e
        obtain ⟨n, hn⟩ := hends.ahead
        have hmoved : g.runaheadInstrUniqueId ≠ f.runaheadInstrUniqueId := by
          intro heq
          rcases hends.stays heq with hroom | ⟨k, hk⟩ | hall
          · exact hroom hpos
          · cases hk
          · have := hall (bound - 1) (List.mem_singleton_self _)
            omega
        have hid := hn.id
        have hnear : g.runaheadInstrUniqueId ≤ bound := by
          rcases hends.near with heq | ⟨m, hm, hle'⟩
          · omega
          · obtain rfl := List.mem_singleton.mp hm
            omega
        obtain ⟨m, hm⟩ := Nat.exists_eq_add_of_le hnear
        obtain ⟨es, h, hes, hrun, hend⟩ := ih m (by omega) (by rw [hn.record]; exact hf) hnear hm
        refine ⟨e :: es, h, ?_, ?_, hend⟩
        · intro e' he' m' hm'
          rcases List.mem_cons.mp he' with rfl | he'
          · obtain rfl := List.mem_singleton.mp hm'
            omega
          · exact hes e' he' m' hm'
        · rw [cycles, List.map_cons, run_cons, hg]
          exact hrun

theorem met_succ (record : Table Instr) (b : TraceInstr) (id n : Nat) :
    met true record (resetIp b) id (n + 1) = met true record (resetIp b) id n ++
      if (record.lookup (visited record b n)).isSome then [(visited record b n, id + n)] else [] := by
  rw [met_add, met, met, List.range_one, List.map_singleton, Function.iterate_zero, id_eq, Nat.add_zero]
  congr 1
  rw [List.filter_cons, List.filter_nil]
  rfl

theorem branchesBelow_succ {y : TraceInstr} (hy : xs[n + 1]? = some y) (id : Nat) :
    branchesBelow xs id (id + 1 + (n + 1)) = branchesBelow xs id (id + 1 + n) ++
      if y.isBranch then [(y.ip, id + 1 + n)] else [] := by
  have htail : xs.tail[n]? = some y := by
    rw [List.getElem?_tail]
    exact hy
  obtain ⟨hlt, -⟩ := List.getElem?_eq_some_iff.mp htail
  have hlen : (xs.tail.take n).length = n := List.length_take_of_le (Nat.le_of_lt hlt)
  rw [branchesBelow, branchesBelow, Nat.add_sub_cancel_left, Nat.add_sub_cancel_left, List.take_add_one, htail,
    Option.toList_some, List.zipIdx_append, List.filter_append, List.map_append, hlen, List.zipIdx_singleton]
  congr 1
  cases hb : y.isBranch with
  | true => simp [hb]
  | false => simp [hb]

/-- The queue is right up to `n` instructions exactly when they are tracked. -/
theorem met_eq_iff (hs : Segment record xs) (id : Nat) (hn : n < xs.length) :
    (∀ m ≤ n, met true record (resetIp b) (id + 1) m = branchesBelow xs id (id + 1 + m)) ↔
      ∀ m < n, Tracks record xs b m := by
  have hone : ∀ m y, xs[m + 1]? = some y →
      (((if (record.lookup (visited record b m)).isSome then [(visited record b m, id + 1 + m)] else []) =
        if y.isBranch then [(y.ip, id + 1 + m)] else []) ↔ Tracks record xs b m) := by
    intro m y hy
    have htail : y ∈ xs.tail := by
      apply List.mem_of_getElem? (i := m)
      rw [List.getElem?_tail]
      exact hy
    constructor
    · intro h z hz
      rw [hy, Option.some.injEq] at hz
      subst hz
      cases hb : y.isBranch with
      | true =>
          rw [hb, if_pos rfl] at h
          split_ifs at h
          rw [List.singleton_inj, Prod.mk.injEq] at h
          exact ⟨fun _ => h.1, fun hno => Bool.noConfusion hno⟩
      | false =>
          rw [hb, if_neg Bool.false_ne_true] at h
          split_ifs at h with hsome
          exact ⟨fun hyes => Bool.noConfusion hyes, fun _ => Option.not_isSome_iff_eq_none.mp hsome⟩
    · intro h
      obtain ⟨hip, hnone⟩ := h y hy
      cases hb : y.isBranch with
      | true =>
          obtain ⟨i, hlook, -⟩ := hs.predicted y htail hb
          rw [hip hb, hlook]
          rfl
      | false =>
          rw [hnone hb]
          rfl
  induction n with
  | zero =>
      refine iff_of_true (fun m hm => ?_) (fun m hm => absurd hm (Nat.not_lt_zero m))
      obtain rfl : m = 0 := by omega
      simp [met, branchesBelow]
  | succ n ih =>
      have hlast := hone n _ (List.getElem?_eq_getElem hn)
      have ih := ih (Nat.lt_of_succ_lt hn)
      constructor
      · intro h
        have hsucc := h (n + 1) (Nat.le_refl _)
        rw [met_succ, branchesBelow_succ (List.getElem?_eq_getElem hn), h n (by omega)] at hsucc
        refine Nat.forall_lt_succ_right.mpr ⟨ih.mp (fun m hm => h m (by omega)), ?_⟩
        exact hlast.mp (List.append_cancel_left hsucc)
      · intro h
        obtain ⟨hbefore, htrack⟩ := Nat.forall_lt_succ_right.mp h
        have hbelow := ih.mpr hbefore
        intro m hm
        rcases Nat.lt_succ_iff_lt_or_eq.mp (Nat.lt_succ_of_le hm) with hlt | rfl
        · exact hbelow m (by omega)
        · rw [met_succ, branchesBelow_succ (List.getElem?_eq_getElem hn), hbelow n (Nat.le_refl n), hlast.mpr htrack]

theorem mem_branchesBelow {k bound : Nat} {x : TraceInstr} (hk : 0 < k) (hx : xs[k]? = some x) (hb : x.isBranch = true)
    (hlt : id + k < bound) : (x.ip, id + k) ∈ branchesBelow xs id bound := by
  obtain ⟨j, rfl⟩ := Nat.exists_eq_succ_of_ne_zero (Nat.ne_of_gt hk)
  have htake : (xs.tail.take (bound - (id + 1)))[j]? = some x := by
    rw [List.getElem?_take_of_lt (by omega), List.getElem?_tail]
    exact hx
  have hmem : (x, id + 1 + j) ∈ (xs.tail.take (bound - (id + 1))).zipIdx (id + 1) :=
    List.mk_add_mem_zipIdx_iff_getElem?.mpr htake
  rw [branchesBelow, List.mem_map]
  refine ⟨_, List.mem_filter.mpr ⟨hmem, hb⟩, ?_⟩
  rw [Nat.add_right_comm, Nat.add_assoc]

theorem holds_of_appended (h : g.ftq = f.ftq ++ branchesBelow xs id g.runaheadInstrUniqueId) : Holds f xs id g := by
  refine ⟨h, ?_, ?_⟩
  · intro k x hk hx hb hlt
    rw [h]
    exact List.mem_append_right _ (mem_branchesBelow hk hx hb hlt)
  · intro hnil
    rw [h, hnil, List.nil_append]

theorem inStep_of_aligned (hf : Targeted f.branchRecord) (hs : Segment f.branchRecord xs) (h : Aligned f.branchRecord xs) :
    InStep pqSize f xs id := by
  intro b hb pfc mispredicted es g hes hrun
  have hfirst : xs[0]? = some b := by
    rw [← List.head?_eq_getElem?]
    exact hb
  obtain ⟨hlen, -⟩ := List.getElem?_eq_some_iff.mp hfirst
  obtain ⟨hle, n, hn⟩ := run_cycles (f := resetFtq true f ⟨b.ip, id, b.branchTarget, pfc, mispredicted⟩) hf hes
    (Nat.add_lt_add_left hlen id) hrun
  have hid : g.runaheadInstrUniqueId = id + 1 + n := hn.id
  have htracks := tracks_of_aligned hs hfirst h
  have hmet := (met_eq_iff (b := b) hs id (show n < xs.length by omega)).mpr (fun m _ => htracks m) n (Nat.le_refl n)
  apply holds_of_appended
  rw [hid, ← hmet]
  exact hn.ftq

theorem aligned_of_inStep (hpos : 0 < pqSize) (hf : Targeted f.branchRecord) (hs : Segment f.branchRecord xs)
    (hfirst : xs[0]? = some b) (h : InStep pqSize f xs id) : Aligned f.branchRecord xs := by
  obtain ⟨hlen, -⟩ := List.getElem?_eq_some_iff.mp hfirst
  have hhead : b ∈ xs.head? := by
    rw [List.head?_eq_getElem?]
    exact hfirst
  apply aligned_of_tracks hs hfirst
  intro k y hy
  obtain ⟨hk, -⟩ := List.getElem?_eq_some_iff.mp hy
  refine (met_eq_iff (b := b) hs id hk).mp ?_ k (Nat.lt_succ_self k) y hy
  intro m hm
  obtain ⟨es, g, hes, hrun, hend⟩ := exists_cycles (f := resetFtq true f ⟨b.ip, id, b.branchTarget, false, false⟩)
    hpos hf (Nat.le_add_right (id + 1) m)
  have hall : ∀ e ∈ es, ∀ j ∈ e.ifetchIds, j < id + xs.length := by
    intro e he j hj
    have := hes e he j hj
    omega
  have happended := (h b hhead false false es g hall hrun).appended
  obtain ⟨-, n, hn⟩ := run_cycles (f := resetFtq true f ⟨b.ip, id, b.branchTarget, false, false⟩) hf hes
    (Nat.le_add_right _ _) hrun
  have hid : g.runaheadInstrUniqueId = id + 1 + n := hn.id
  obtain rfl : n = m := by omega
  rw [hend, hn.ftq] at happended
  exact List.append_cancel_left happended

/-- The run-ahead stays with the instruction stream exactly if it passes only instructions of one byte
before every branch, and meets no branch where there is none. -/
theorem inStep_iff (hpos : 0 < pqSize) {cs : List FdipQueue.Call} (hf : run (step pqSize) .initial cs = some f)
    (hne : xs ≠ []) (hs : Segment f.branchRecord xs) (id : Nat) :
    InStep pqSize f xs id ↔ Aligned f.branchRecord xs := by
  have htargeted : Targeted f.branchRecord := (run_inv hf).targeted
  have hfirst : xs[0]? = some (xs.head hne) := by
    rw [← List.head?_eq_getElem?]
    exact List.head?_eq_some_head hne
  exact ⟨aligned_of_inStep hpos htargeted hs hfirst, inStep_of_aligned htargeted hs⟩

/-- A taken branch, an instruction of `size` bytes at its target, and the branch behind it. -/
def path (size : Nat) : List TraceInstr := [⟨100, 5, true, 200⟩, ⟨200, size, false, 0⟩, ⟨200 + size, 2, true, 300⟩]

/-- The prefetcher that has seen the second branch of the path. -/
def recorded (size : Nat) : Fdip := branchOperate .initial (200 + size) .directJump 300 true true 300

theorem segment_path {size : Nat} (hpos : 1 ≤ size) (hle : size ≤ 15) : Segment (recorded size).branchRecord (path size) := by
  refine ⟨?_, ?_, ?_, ?_, ?_⟩
  · simp [path, hpos, hle]
  · simp [path]
    omega
  · simp [path]
  · simp [path, TraceInstr.nextIp]
  · intro x hx hb
    have hx : x = ⟨200, size, false, 0⟩ ∨ x = ⟨200 + size, 2, true, 300⟩ := by simpa [path] using hx
    rcases hx with rfl | rfl
    · cases hb
    · refine ⟨.new .directJump 300 true 300, ?_, .directJump, true, rfl, by simp⟩
      simp [recorded, branchOperate]

theorem inStep_iff_path : InStep 32 (recorded 1) (path 1) 7 ↔ Aligned (recorded 1).branchRecord (path 1) := by
  have hrun : run (step 32) .initial [.branchOperate 201 .directJump 300 true true 300] = some (recorded 1) := rfl
  have hne : path 1 ≠ [] := List.cons_ne_nil _ _
  exact inStep_iff (by decide) hrun hne (segment_path (by decide) (by decide)) 7

/-- With three bytes the branch is met with an id that is two too high. -/
theorem path_not_inStep : ¬InStep 32 (recorded 3) (path 3) 7 := by
  intro h
  have hinv : Inv (recorded 3) := branchOperate_inv initial_inv 203 .directJump 300 true true 300
  have haligned := aligned_of_inStep (by decide) hinv.targeted (segment_path (by decide) (by decide)) rfl h
  have hsize := haligned.bytes 1 2 ⟨200, 3, false, 0⟩ ⟨203, 2, true, 300⟩ (by decide) rfl rfl rfl rfl
  cases hsize

end Cycles

end Thermometer.FdipAligned

import Mathlib.Algebra.Order.Ring.Nat
import Thermometer.Lib.RecentSlots
import Thermometer.Lib.Runs

namespace Thermometer.IpStride

open Lib.RecentSlots Lib.Runs

def ipTrackerCount : Nat := 1024

def prefetchDegree : Nat := 3

def log2BlockSize : Nat := 6

def log2PageSize : Nat := 12

structure IpTracker where
  ip : Nat
  lastClAddr : Nat
  lastStride : Int
  lru : Nat

inductive FillLevel
  | l2
  | llc
  deriving DecidableEq, Repr

/-- One call of the prefetcher. `l2Free` is whether less than half of the miss registers are in use. -/
structure Access where
  addr : Nat
  ip : Nat
  l2Free : Bool

def Access.clAddr (a : Access) : Nat := a.addr >>> log2BlockSize

/-- `prefetched` is history. -/
structure State where
  trackers : Nat → IpTracker
  prefetched : List (Nat × FillLevel)

def State.initial : State := ⟨fun i => ⟨0, 0, 0, i⟩, []⟩

def strideOf (clAddr last : Nat) : Int :=
  if last < clAddr then (clAddr - last : Nat) else -((last - clAddr : Nat) : Int)

/-- The arithmetic is that of unsigned words of 64 bits. -/
def pfAddress (clAddr : Nat) (stride : Int) (i : Nat) : Nat :=
  ((((clAddr : Int) + stride * (i + 1)) % ((2 ^ 64 : Nat) : Int)).toNat <<< log2BlockSize) % 2 ^ 64

def prefetches (a : Access) (stride : Int) : List (Nat × FillLevel) :=
  (((List.range prefetchDegree).map (pfAddress a.clAddr stride)).takeWhile
    (fun pf => pf >>> log2PageSize == a.addr >>> log2PageSize)).map
      (fun pf => (pf, if a.l2Free then .l2 else .llc))

/-- The tracker at `index` holds `x` now and becomes the one used last. -/
def useTracker (trackers : Nat → IpTracker) (index : Nat) (x : IpTracker) : Nat → IpTracker :=
  let aged : Nat → IpTracker := fun i =>
    if i < ipTrackerCount ∧ (trackers i).lru < (trackers index).lru then
      { trackers i with lru := (trackers i).lru + 1 }
    else trackers i
  Function.update aged index { x with lru := 0 }

/-- `none` is a write behind the end of the trackers. -/
def prefetcherOperate (s : State) (a : Access) : Option State :=
  match search ipTrackerCount (fun i => (s.trackers i).ip == a.ip) with
  | none =>
    (search ipTrackerCount (fun i => (s.trackers i).lru == ipTrackerCount - 1)).map (fun index =>
      { s with trackers := useTracker s.trackers index ⟨a.ip, a.clAddr, 0, (s.trackers index).lru⟩ })
  | some index =>
    let x := s.trackers index
    let stride := strideOf a.clAddr x.lastClAddr
    if stride = 0 then some s
    else
      some
        { trackers := useTracker s.trackers index { x with lastClAddr := a.clAddr, lastStride := stride }
          prefetched := s.prefetched ++ if stride = x.lastStride then prefetches a stride else [] }

/-- What is remembered of an address. -/
structure Tracked where
  ip : Nat
  lastClAddr : Nat
  lastStride : Int

def IpTracker.tracked (x : IpTracker) : Tracked := ⟨x.ip, x.lastClAddr, x.lastStride⟩

/-- The same with a list of what is remembered, the one used last in front. -/
structure Recent where
  tracked : List Tracked
  prefetched : List (Nat × FillLevel)

def Recent.initial : Recent := ⟨List.replicate ipTrackerCount ⟨0, 0, 0⟩, []⟩

/-- What an access adds to the prefetches. -/
def Recent.response (r : Recent) (a : Access) : List (Nat × FillLevel) :=
  match r.tracked.find? (fun x => x.ip == a.ip) with
  | none => []
  | some x =>
    let stride := strideOf a.clAddr x.lastClAddr
    if stride ≠ 0 ∧ stride = x.lastStride then prefetches a stride else []

def Recent.step (r : Recent) (a : Access) : Recent :=
  { tracked :=
      match r.tracked.find? (fun x => x.ip == a.ip) with
      | none => ⟨a.ip, a.clAddr, 0⟩ :: r.tracked.dropLast
      | some x =>
        let stride := strideOf a.clAddr x.lastClAddr
        if stride = 0 then r.tracked else ⟨x.ip, a.clAddr, stride⟩ :: r.tracked.eraseP (fun x => x.ip == a.ip)
    prefetched := r.prefetched ++ r.response a }

variable {s : State} {r : Recent} {a : Access} {index : Nat}

section Refinement

/-- Among the trackers of one address, as those of address 0 are at the start, the one further left
was used later. -/
structure Refines (s : State) (r : Recent) : Prop where
  holds : Holds ipTrackerCount (fun i => (s.trackers i).tracked) (fun i => (s.trackers i).lru) r.tracked
  agree : ∀ ip, Agree ipTrackerCount (fun i => (s.trackers i).tracked) (fun i => (s.trackers i).lru)
    (fun x => x.ip == ip)
  prefetched : s.prefetched = r.prefetched

theorem tracked_useTracker (trackers : Nat → IpTracker) (index : Nat) (x : IpTracker) :
    (fun i => (useTracker trackers index x i).tracked) =
      Function.update (fun i => (trackers i).tracked) index x.tracked := by
  funext i
  rw [useTracker]
  by_cases hi : i = index
  · subst hi
    rw [Function.update_self, Function.update_self]
    rfl
  · rw [Function.update_of_ne hi, Function.update_of_ne hi]
    dsimp only
    split_ifs <;> rfl

theorem lru_useTracker (trackers : Nat → IpTracker) (index : Nat) (x : IpTracker) :
    (fun i => (useTracker trackers index x i).lru) =
      promote ipTrackerCount (fun i => (trackers i).lru) index := by
  funext i
  rw [useTracker, promote]
  by_cases hi : i = index
  · subst hi
    rw [Function.update_self, if_pos rfl]
  · rw [Function.update_of_ne hi, if_neg hi]
    dsimp only
    split_ifs <;> rfl

theorem Refines.use (h : Refines s r) (x : IpTracker) (pfs : List (Nat × FillLevel))
    {new : List Tracked} (hindex : index < ipTrackerCount)
    (hbefore : ∀ i < index, ((s.trackers i).ip == x.ip) = false)
    (hholds : Holds ipTrackerCount (Function.update (fun i => (s.trackers i).tracked) index x.tracked)
      (promote ipTrackerCount (fun i => (s.trackers i).lru) index) new) :
    Refines ⟨useTracker s.trackers index x, s.prefetched ++ pfs⟩ ⟨new, r.prefetched ++ pfs⟩ := by
  refine ⟨?_, ?_, congrArg (· ++ pfs) h.prefetched⟩
  · simp only [tracked_useTracker, lru_useTracker]
    exact hholds
  · intro ip
    simp only [tracked_useTracker, lru_useTracker]
    apply Agree.promote h.holds (h.agree ip) hindex
    · intro i hi _
      rw [Function.update_of_ne hi]
    · intro hself i hi
      rw [Function.update_self] at hself
      obtain rfl : x.ip = ip := beq_iff_eq.mp hself
      exact hbefore i hi

theorem refines_initial : Refines .initial .initial := by
  refine ⟨?_, fun _ i j hij _ _ _ => hij, rfl⟩
  have hstart := holds_start ipTrackerCount (fun _ => (⟨0, 0, 0⟩ : Tracked))
  rw [List.map_const', List.length_range] at hstart
  exact hstart

theorem search_tracked (trackers : Nat → IpTracker) (ip : Nat) :
    search ipTrackerCount (fun i => (trackers i).ip == ip) =
      search ipTrackerCount (fun i => (fun x : Tracked => x.ip == ip) (trackers i).tracked) :=
  congrArg (search ipTrackerCount) rfl

theorem trackers_pos : 0 < ipTrackerCount := Nat.succ_pos 1023

theorem Refines.operate (h : Refines s r) (a : Access) :
    ∃ t, prefetcherOperate s a = some t ∧ Refines t (r.step a) := by
  unfold prefetcherOperate
  rw [Recent.step, Recent.response, search_tracked]
  cases hfind : search ipTrackerCount (fun i => (fun x : Tracked => x.ip == a.ip) (s.trackers i).tracked) with
  | none =>
      have hmiss : r.tracked.find? (fun x => x.ip == a.ip) = none := h.holds.missing hfind
      obtain ⟨index, holdest, hlt, -, hholds⟩ := h.holds.oldest (v := ⟨a.ip, a.clAddr, 0⟩) trackers_pos
      rw [holdest, hmiss]
      have hused := h.use ⟨a.ip, a.clAddr, 0, (s.trackers index).lru⟩ [] hlt
        (fun i hi => search_none hfind i (hi.trans hlt)) hholds
      rw [List.append_nil] at hused
      exact ⟨_, rfl, hused⟩
  | some index =>
      obtain ⟨hlt, hip, hbefore⟩ := search_some hfind
      obtain ⟨hhit, hholds⟩ := h.holds.found (p := fun x : Tracked => x.ip == a.ip)
        (v := ⟨(s.trackers index).ip, a.clAddr, strideOf a.clAddr (s.trackers index).lastClAddr⟩)
          (h.agree a.ip) hfind
      rw [hhit]
      dsimp only [IpTracker.tracked]
      by_cases hzero : strideOf a.clAddr (s.trackers index).lastClAddr = 0
      · rw [if_pos hzero, if_pos hzero, if_neg (fun hcon => hcon.1 hzero), List.append_nil]
        exact ⟨s, rfl, h⟩
      · rw [if_neg hzero, if_neg hzero]
        have hresponse : (if strideOf a.clAddr (s.trackers index).lastClAddr ≠ 0 ∧
            strideOf a.clAddr (s.trackers index).lastClAddr = (s.trackers index).lastStride then
              prefetches a (strideOf a.clAddr (s.trackers index).lastClAddr) else []) =
            if strideOf a.clAddr (s.trackers index).lastClAddr = (s.trackers index).lastStride then
              prefetches a (strideOf a.clAddr (s.trackers index).lastClAddr) else [] :=
          if_congr (and_iff_right hzero) rfl rfl
        rw [hresponse]
        have hkey : (s.trackers index).ip = a.ip := beq_iff_eq.mp hip
        exact ⟨_, rfl, h.use { s.trackers index with
            lastClAddr := a.clAddr, lastStride := strideOf a.clAddr (s.trackers index).lastClAddr } _ hlt
          (fun i hi => by rw [hkey]; exact hbefore i hi) hholds⟩

theorem refines_run (accesses : List Access) :
    ∃ s, run prefetcherOperate .initial accesses = some s ∧ Refines s (accesses.foldl Recent.step .initial) := by
  induction accesses using List.reverseRecOn with
  | nil => exact ⟨.initial, rfl, refines_initial⟩
  | append_singleton accesses a ih =>
      obtain ⟨s, hs, hr⟩ := ih
      obtain ⟨t, ht, hr'⟩ := hr.operate a
      refine ⟨t, ?_, ?_⟩
      · rw [run_append, hs, Option.bind_some, run_single]
        exact ht
      · rw [List.foldl_concat]
        exact hr'

/-- The 1024 trackers with their numbers of use are a list of what was used last: over any accesses
a tracker is found for every address, and the prefetches are those of the predictor that keeps such
a list. -/
theorem trackers_refine (accesses : List Access) : ∃ s, run prefetcherOperate .initial accesses = some s ∧
    s.prefetched = (accesses.foldl Recent.step .initial).prefetched := by
  obtain ⟨s, hs, hr⟩ := refines_run accesses
  exact ⟨s, hs, hr.prefetched⟩

end Refinement

section Strides

/-- The lines that an address accessed, the last in front, each once in a row. -/
def linesOf (ip : Nat) (accesses : List Access) : List Nat :=
  accesses.foldl
    (fun lines a => if a.ip = ip ∧ lines.head? ≠ some a.clAddr then a.clAddr :: lines else lines) []

theorem strideOf_eq (clAddr last : Nat) : strideOf clAddr last = (clAddr : Int) - last := by
  rw [strideOf]
  split_ifs <;> omega

theorem linesOf_concat (ip : Nat) (accesses : List Access) (a : Access) : linesOf ip (accesses ++ [a]) =
    if a.ip = ip ∧ (linesOf ip accesses).head? ≠ some a.clAddr then a.clAddr :: linesOf ip accesses
    else linesOf ip accesses :=
  List.foldl_concat ..

/-- What is remembered of an address is what it did: its last line, and how far that lay from the
one before. -/
def Remembers (x : Tracked) (lines : List Nat) : Prop :=
  ∃ rest, lines = x.lastClAddr :: rest ∧
    (x.lastStride ≠ 0 → ∃ before rest', rest = before :: rest' ∧ x.lastStride = (x.lastClAddr : Int) - before)

structure Faithful (tracked : List Tracked) (accesses : List Access) : Prop where
  once : tracked.Pairwise (fun x y => x.ip = y.ip → x.ip = 0)
  remembers : ∀ x ∈ tracked, x.ip ≠ 0 → Remembers x (linesOf x.ip accesses)

theorem faithful_initial : Faithful Recent.initial.tracked [] := by
  refine ⟨List.pairwise_replicate.mpr (.inr (fun _ => rfl)), ?_⟩
  intro x hx hip
  rw [List.eq_of_mem_replicate hx] at hip
  exact absurd rfl hip

theorem head_linesOf (ip : Nat) (accesses : List Access) (a : Access) (hip : a.ip = ip) :
    ∃ rest, linesOf ip (accesses ++ [a]) = a.clAddr :: rest := by
  rw [linesOf_concat]
  by_cases hhead : (linesOf ip accesses).head? = some a.clAddr
  · rw [if_neg (fun hcon => hcon.2 hhead)]
    exact List.head?_eq_some_iff.mp hhead
  · rw [if_pos ⟨hip, hhead⟩]
    exact ⟨_, rfl⟩

theorem Faithful.other {tracked : List Tracked} {accesses : List Access} (h : Faithful tracked accesses) {y : Tracked}
    (hy : y ∈ tracked) (hip : y.ip ≠ 0) (hne : y.ip ≠ a.ip) : Remembers y (linesOf y.ip (accesses ++ [a])) := by
  rw [linesOf_concat, if_neg (fun hcon => hne hcon.1.symm)]
  exact h.remembers y hy hip

/-- The tracker of an address among the others, of which only those of address 0 may share it. -/
theorem Faithful.split {tracked : List Tracked} {accesses : List Access} (h : Faithful tracked accesses) {x : Tracked}
    (hfind : tracked.find? (fun x => x.ip == a.ip) = some x) :
    ∃ before after, tracked = before ++ x :: after ∧ x.ip = a.ip ∧
      tracked.eraseP (fun x => x.ip == a.ip) = before ++ after ∧ ∀ y ∈ before ++ after, y.ip ≠ 0 → y.ip ≠ a.ip := by
  obtain ⟨hkey, before, after, heq, hbefore⟩ := List.find?_eq_some_iff_append.mp hfind
  have hx : x.ip = a.ip := beq_iff_eq.mp hkey
  have honce := h.once
  rw [heq, List.pairwise_append, List.pairwise_cons] at honce
  refine ⟨before, after, heq, hx, ?_, fun y hy hip heq' => ?_⟩
  · rw [heq, List.eraseP_append_right _ (fun y hy => by simpa using hbefore y hy)]
    exact congrArg (before ++ ·) (List.eraseP_cons_of_pos (p := fun x : Tracked => x.ip == a.ip) hkey)
  · rcases List.mem_append.mp hy with hy | hy
    · have hnot := hbefore y hy
      rw [beq_iff_eq.mpr heq'] at hnot
      cases hnot
    · have hxy := hx.trans heq'.symm
      exact hip (hxy.symm.trans (honce.2.1.1 y hy hxy))

/-- An address that is not tracked comes in. -/
theorem Faithful.enter {tracked : List Tracked} {accesses : List Access} (h : Faithful tracked accesses)
    (hnot : ∀ x ∈ tracked, x.ip ≠ a.ip) : Faithful (⟨a.ip, a.clAddr, 0⟩ :: tracked.dropLast) (accesses ++ [a]) := by
  refine ⟨List.pairwise_cons.mpr ⟨?_, h.once.sublist (List.dropLast_sublist _)⟩, ?_⟩
  · intro y hy heq
    exact absurd heq.symm (hnot y (List.dropLast_subset _ hy))
  · intro x hx hip
    rcases List.mem_cons.mp hx with rfl | hx
    · obtain ⟨rest, hlines⟩ := head_linesOf a.ip accesses a rfl
      exact ⟨rest, hlines, fun hne => absurd rfl hne⟩
    · have hmem := List.dropLast_subset _ hx
      exact h.other hmem hip (hnot x hmem)

/-- An address accesses its last line again. -/
theorem Remembers.again {x : Tracked} {accesses : List Access} (h : Remembers x (linesOf x.ip accesses))
    (hzero : strideOf a.clAddr x.lastClAddr = 0) : Remembers x (linesOf x.ip (accesses ++ [a])) := by
  obtain ⟨rest, hlines, hstride⟩ := h
  rw [strideOf_eq] at hzero
  have hsame : x.lastClAddr = a.clAddr := by omega
  rw [linesOf_concat, hlines, hsame, if_neg (fun hcon => hcon.2 rfl), ← hsame]
  exact ⟨rest, rfl, hstride⟩

/-- An address goes on to another line. -/
theorem Remembers.moved {x : Tracked} {accesses : List Access} (h : Remembers x (linesOf x.ip accesses)) (hx : x.ip = a.ip)
    (hmoved : strideOf a.clAddr x.lastClAddr ≠ 0) :
    Remembers ⟨x.ip, a.clAddr, strideOf a.clAddr x.lastClAddr⟩ (linesOf x.ip (accesses ++ [a])) := by
  obtain ⟨rest, hlines, -⟩ := h
  rw [strideOf_eq] at hmoved
  have hnew : (x.lastClAddr :: rest).head? ≠ some a.clAddr := by
    intro hcon
    have hsame := Option.some.inj hcon
    omega
  rw [linesOf_concat, hlines, if_pos ⟨hx.symm, hnew⟩]
  exact ⟨_, rfl, fun _ => ⟨x.lastClAddr, rest, rfl, strideOf_eq _ _⟩⟩

theorem Faithful.step {accesses : List Access} (h : Faithful r.tracked accesses) (a : Access) :
    Faithful (r.step a).tracked (accesses ++ [a]) := by
  rw [Recent.step]
  cases hfind : r.tracked.find? (fun x => x.ip == a.ip) with
  | none =>
      apply h.enter
      intro x hx heq
      exact List.find?_eq_none.mp hfind x hx (beq_iff_eq.mpr heq)
  | some x =>
      obtain ⟨before, after, heq, hx, herase, hrest⟩ := h.split hfind
      have hmem : x ∈ r.tracked := List.mem_of_find?_eq_some hfind
      have hsub : before ++ after ⊆ r.tracked := by
        rw [← herase]
        exact List.eraseP_subset
      dsimp only
      by_cases hzero : strideOf a.clAddr x.lastClAddr = 0
      · rw [if_pos hzero]
        refine ⟨h.once, fun y hy hip => ?_⟩
        rw [heq, List.mem_append, List.mem_cons, or_left_comm, ← List.mem_append] at hy
        rcases hy with rfl | hy
        · exact (h.remembers y hmem hip).again hzero
        · exact h.other (hsub hy) hip (hrest y hy hip)
      · rw [if_neg hzero, herase]
        refine ⟨List.pairwise_cons.mpr ⟨?_, ?_⟩, ?_⟩
        · intro y hy hxy
          by_contra hip
          exact hrest y hy (fun hzero' => hip (hxy.trans hzero')) (hxy.symm.trans hx)
        · rw [← herase]
          exact h.once.sublist List.eraseP_sublist
        · intro y hy hip
          rcases List.mem_cons.mp hy with rfl | hy
          · exact (h.remembers x hmem hip).moved hx hzero
          · exact h.other (hsub hy) hip (hrest y hy hip)

theorem faithful_run (accesses : List Access) :
    Faithful (accesses.foldl Recent.step .initial).tracked accesses := by
  induction accesses using List.reverseRecOn with
  | nil => exact faithful_initial
  | append_singleton accesses a ih =>
      rw [List.foldl_concat]
      exact ih.step a

theorem response_needs_stride (accesses : List Access) (a : Access) (hip : a.ip ≠ 0)
    (hanswer : (accesses.foldl Recent.step .initial).response a ≠ []) : ∃ last before rest,
      linesOf a.ip (accesses ++ [a]) = a.clAddr :: last :: before :: rest ∧
        (a.clAddr : Int) - last = (last : Int) - before ∧ a.clAddr ≠ last := by
  have h := faithful_run accesses
  generalize accesses.foldl Recent.step .initial = r at h hanswer
  rw [Recent.response] at hanswer
  cases hfind : r.tracked.find? (fun x => x.ip == a.ip) with
  | none =>
      rw [hfind] at hanswer
      exact absurd rfl hanswer
  | some x =>
      rw [hfind] at hanswer
      dsimp only at hanswer
      have hkey := List.find?_some hfind
      have hx : x.ip = a.ip := beq_iff_eq.mp hkey
      obtain ⟨rest, hlines, hstride⟩ := h.remembers x (List.mem_of_find?_eq_some hfind) (hx ▸ hip)
      by_cases hcond : strideOf a.clAddr x.lastClAddr ≠ 0 ∧ strideOf a.clAddr x.lastClAddr = x.lastStride
      · obtain ⟨hne, heq⟩ := hcond
        obtain ⟨before, rest', rfl, hbefore⟩ := hstride (heq ▸ hne)
        rw [strideOf_eq] at hne heq
        have hapart : a.clAddr ≠ x.lastClAddr := by omega
        have hnew : (x.lastClAddr :: before :: rest').head? ≠ some a.clAddr :=
          fun hcon => hapart (Option.some.inj hcon).symm
        refine ⟨x.lastClAddr, before, rest', ?_, heq.trans hbefore, hapart⟩
        rw [linesOf_concat, ← hx, hlines, if_pos ⟨rfl, hnew⟩]
      · rw [if_neg hcond] at hanswer
        exact absurd rfl hanswer

/-- An access of an address other than 0 is answered by prefetches only if the last three lines that
the address accessed, that one among them, lie equally far apart: whatever other addresses did in
between and whatever was forgotten. -/
theorem prefetches_need_stride (accesses : List Access) (a : Access) (s t : State) (hip : a.ip ≠ 0)
    (hs : run prefetcherOperate .initial accesses = some s) (ht : prefetcherOperate s a = some t)
    (hanswer : t.prefetched ≠ s.prefetched) : ∃ last before rest,
      linesOf a.ip (accesses ++ [a]) = a.clAddr :: last :: before :: rest ∧
        (a.clAddr : Int) - last = (last : Int) - before ∧ a.clAddr ≠ last := by
  obtain ⟨s', hs', hr⟩ := refines_run accesses
  obtain rfl := Option.some.inj (hs'.symm.trans hs)
  obtain ⟨t', ht', hr'⟩ := hr.operate a
  obtain rfl := Option.some.inj (ht'.symm.trans ht)
  apply response_needs_stride accesses a hip
  intro hnone
  rw [hr'.prefetched, hr.prefetched, Recent.step, hnone, List.append_nil] at hanswer
  exact hanswer rfl

/-- A stride of two lines that another instruction's accesses do not disturb. -/
theorem prefetches_need_stride_three : ∃ last before rest,
    linesOf 1 ([⟨640, 1, true⟩, ⟨8192, 2, true⟩, ⟨768, 1, true⟩, ⟨64, 2, true⟩] ++ [⟨896, 1, true⟩]) =
        14 :: last :: before :: rest ∧
      (14 : Int) - last = (last : Int) - before ∧ 14 ≠ last := by
  have hrun : ((run prefetcherOperate .initial
      [⟨640, 1, true⟩, ⟨8192, 2, true⟩, ⟨768, 1, true⟩, ⟨64, 2, true⟩]).bind (fun s =>
        (prefetcherOperate s ⟨896, 1, true⟩).map (fun t => decide (t.prefetched ≠ s.prefetched)))) = some true := by
    decide +kernel
  obtain ⟨s, hs, hnext⟩ := Option.bind_eq_some_iff.mp hrun
  obtain ⟨t, ht, hanswer⟩ := Option.map_eq_some_iff.mp hnext
  exact prefetches_need_stride _ ⟨896, 1, true⟩ s t Nat.one_ne_zero hs ht (of_decide_eq_true hanswer)

end Strides

end Thermometer.IpStride

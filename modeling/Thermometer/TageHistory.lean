import Thermometer.Lib.Folding
import Thermometer.Trace

namespace Thermometer.TageHistory

open Trace Lib.Folding

def histBufferLength : Nat := 4096
def nhist : Nat := 36
def born : Nat := 13
def tbits : Nat := 8
def logg : Nat := 10
def phistWidth : Nat := 27
def maxHist : Nat := 3000

/-- The lengths that `reinit` gets from `pow` in floating point, before it hands each to two tables. -/
structure Lengths where
  geometric : Nat → Nat
  le_maxHist : ∀ i, geometric i ≤ maxHist

def Lengths.m (L : Lengths) (i : Nat) : Nat := L.geometric ((i + 1) / 2)

/-- Width of the tags of a table, `TB`. -/
def tagWidth (i : Nat) : Nat := tbits + if born ≤ i then 4 else 0

structure FoldedHistory where
  comp : Nat
  clength : Nat
  olength : Nat
  outpoint : Nat
  deriving DecidableEq, Repr

def FoldedHistory.init (originalLength compressedLength : Nat) : FoldedHistory :=
  ⟨0, compressedLength, originalLength, originalLength % compressedLength⟩

def cell (h : Nat → Bool) (pt : Int) : Bool := h (pt % histBufferLength).toNat

def FoldedHistory.update (f : FoldedHistory) (h : Nat → Bool) (pt : Int) : FoldedHistory :=
  let comp := (f.comp <<< 1) ^^^ (cell h pt).toNat
  let comp := comp ^^^ ((cell h (pt + f.olength)).toNat <<< f.outpoint)
  let comp := comp ^^^ (comp >>> f.clength)
  { f with comp := comp &&& (1 <<< f.clength - 1) }

structure Histories where
  globalHist : BitVec 64
  imliCount : Nat
  imHist : Nat → BitVec 64
  lShist : Nat → BitVec 64
  sSlhist : Nat → BitVec 64
  tSlhist : Nat → BitVec 64
  phist : Nat
  ptghist : Int
  ghist : Nat → Bool
  chI : Nat → FoldedHistory
  chT : Nat → Nat → FoldedHistory

def reinit (L : Lengths) : Histories where
  globalHist := 0
  imliCount := 0
  imHist := fun _ => 0
  lShist := fun _ => 0
  sSlhist := fun _ => 0
  tSlhist := fun _ => 0
  phist := 0
  ptghist := 0
  ghist := fun _ => false
  chI := fun i => .init (L.m i) logg
  chT := fun k i => .init (L.m i) (if k = 0 then tagWidth i else tagWidth i - 1)

structure Branch where
  pc : Nat
  opType : BranchType
  taken : Bool
  target : Nat

def brtype : BranchType → Nat
  | .directJump => 0
  | .indirect => 2
  | .conditional => 1
  | .directCall => 0
  | .indirectCall => 2
  | .ret => 2
  | .notBranch | .other => 0

/-- How many bits a branch puts into the history: an indirect branch one more. -/
def maxt (ty : BranchType) : Nat :=
  if brtype ty &&& 1 ≠ 0 then 2 else if brtype ty &&& 2 ≠ 0 then 3 else 2

def indLocal (pc : Nat) : Nat := (pc ^^^ (pc >>> 2)) &&& 255
def indSLocal (pc : Nat) : Nat := (pc ^^^ (pc >>> 5)) &&& 15
def indTLocal (pc : Nat) : Nat := (pc ^^^ (pc >>> 10)) &&& 15

def shiftBit (h : BitVec 64) (b : Bool) : BitVec 64 := (h <<< 1) + BitVec.ofNat 64 b.toNat

/-- The iteration counter of the innermost loop, and the history that belongs to its value. -/
def updateImli (s : Histories) (b : Branch) : Histories :=
  if brtype b.opType &&& 1 ≠ 0 then
    let imHist := Function.update s.imHist s.imliCount (shiftBit (s.imHist s.imliCount) b.taken)
    let imliCount :=
      if b.target < b.pc then
        if b.taken then if s.imliCount < 255 then s.imliCount + 1 else s.imliCount else 0
      else s.imliCount
    { s with imHist := imHist, imliCount := imliCount }
  else s

def updateLocal (s : Histories) (b : Branch) : Histories :=
  if brtype b.opType &&& 1 ≠ 0 then
    { s with
      globalHist := shiftBit s.globalHist (b.taken && decide (b.target < b.pc))
      lShist := Function.update s.lShist (indLocal b.pc) (shiftBit (s.lShist (indLocal b.pc)) b.taken)
      sSlhist := Function.update s.sSlhist (indSLocal b.pc)
        (shiftBit (s.sSlhist (indSLocal b.pc)) b.taken ^^^ BitVec.ofNat 64 (b.pc &&& 15))
      tSlhist := Function.update s.tSlhist (indTLocal b.pc) (shiftBit (s.tSlhist (indTLocal b.pc)) b.taken) }
  else s

/-- Only the lowest bits of `T` are read, which the conversion to `int` leaves as they are. -/
def hashT (b : Branch) : Nat :=
  let t := (b.pc ^^^ (b.pc >>> 2)) ^^^ b.taken.toNat
  if brtype b.opType = 3 ∧ b.taken then t ^^^ (b.target >>> 2) else t

def hashPath (b : Branch) : Nat :=
  let path := b.pc ^^^ (b.pc >>> 2) ^^^ (b.pc >>> 4)
  if brtype b.opType = 3 ∧ b.taken then path ^^^ (b.target >>> 2) ^^^ (b.target >>> 4) else path

def shiftIn (s : Histories) (dir : Bool) (pathBit : Nat) : Histories :=
  let ptghist := s.ptghist - 1
  let ghist := Function.update s.ghist (ptghist % histBufferLength).toNat dir
  { s with
    ptghist := ptghist
    ghist := ghist
    phist := (s.phist <<< 1) ^^^ pathBit
    chI := fun i => if 1 ≤ i ∧ i ≤ nhist then (s.chI i).update ghist ptghist else s.chI i
    chT := fun k i => if 1 ≤ i ∧ i ≤ nhist then (s.chT k i).update ghist ptghist else s.chT k i }

def shiftLoop : Nat → Nat → Nat → Histories → Histories
  | 0, _, _, s => s
  | n + 1, t, path, s => shiftLoop n (t >>> 1) (path >>> 1) (shiftIn s (t &&& 1 == 1) (path &&& 127))

def historyUpdate (s : Histories) (b : Branch) : Histories :=
  let s := shiftLoop (maxt b.opType) (hashT b) (hashPath b) (updateLocal (updateImli s b) b)
  { s with phist := s.phist &&& (1 <<< phistWidth - 1) }

/-- The bits that a branch adds to the history, the oldest first. -/
def Branch.directions (b : Branch) : List Bool := (List.range (maxt b.opType)).map (hashT b).testBit

def folded (c n : Nat) (h : Nat → Bool) : FoldedHistory := ⟨fold c h n, c, n, n % c⟩

variable {L : Lengths} {s : Histories} {h : Nat → Bool} {c n i k : Nat}

theorem m_lt (L : Lengths) (i : Nat) : L.m i < histBufferLength :=
  Nat.lt_of_le_of_lt (L.le_maxHist _) (by decide)

theorem fold_zeros (c n : Nat) : fold c (fun _ => false) n = 0 := by
  induction n with
  | zero => rfl
  | succ n ih => rw [fold, ih, Bool.toNat_false, Nat.zero_shiftLeft, Nat.xor_zero]

theorem init_eq (c n : Nat) : FoldedHistory.init n c = folded c n (fun _ => false) := by
  rw [folded, fold_zeros]
  rfl

theorem folded_update {ghist : Nat → Bool} {pt : Int} {dir : Bool} (hc : 0 < c) (hn : n < histBufferLength)
    (hold : Holds histBufferLength ghist pt (push dir h)) :
    (folded c n h).update ghist pt = folded c n (push dir h) := by
  have hnew : cell ghist pt = dir := by
    have hzero := hold 0 (by decide)
    rwa [Int.natCast_zero, Int.add_zero, push_zero] at hzero
  have hout : cell ghist (pt + n) = push dir h n := hold n hn
  have hfold := fold_register hc dir h n
  simp only [wrap] at hfold
  simp only [FoldedHistory.update, folded, hnew, hout, Nat.one_shiftLeft]
  rw [hfold]

/-- The ring and all registers of the tables agree with one history. -/
structure Represents (L : Lengths) (s : Histories) (h : Nat → Bool) : Prop where
  ring : Holds histBufferLength s.ghist s.ptghist h
  index : ∀ i, s.chI i = folded logg (L.m i) h ∨ i = 0 ∨ nhist < i
  tags : ∀ k i, s.chT k i = folded (if k = 0 then tagWidth i else tagWidth i - 1) (L.m i) h ∨ i = 0 ∨ nhist < i

theorem represents_reinit (L : Lengths) : Represents L (reinit L) (fun _ => false) := by
  refine ⟨fun j _ => rfl, ?_, ?_⟩
  · intro i
    exact .inl (init_eq _ _)
  · intro k i
    exact .inl (init_eq _ _)

theorem tag_pos (k i : Nat) : 0 < if k = 0 then tagWidth i else tagWidth i - 1 := by
  simp only [tagWidth, tbits]
  split_ifs <;> omega

theorem Represents.shiftIn (hrep : Represents L s h) (dir : Bool) (pathBit : Nat) :
    Represents L (shiftIn s dir pathBit) (push dir h) := by
  have hring : Holds histBufferLength (TageHistory.shiftIn s dir pathBit).ghist (s.ptghist - 1) (push dir h) :=
    hrep.ring.push dir
  refine ⟨hring, ?_, ?_⟩
  · intro i
    by_cases hi : 1 ≤ i ∧ i ≤ nhist
    · have heq := (hrep.index i).resolve_right (by omega)
      left
      simp only [TageHistory.shiftIn, if_pos hi, heq]
      exact folded_update (by decide) (m_lt L i) hring
    · right
      omega
  · intro k i
    by_cases hi : 1 ≤ i ∧ i ≤ nhist
    · have heq := (hrep.tags k i).resolve_right (by omega)
      left
      simp only [TageHistory.shiftIn, if_pos hi, heq]
      exact folded_update (tag_pos k i) (m_lt L i) hring
    · right
      omega

theorem Represents.shiftLoop (hrep : Represents L s h) (n t path : Nat) :
    Represents L (shiftLoop n t path s) (pushAll h ((List.range n).map t.testBit)) := by
  induction n generalizing t path s h with
  | zero => exact hrep
  | succ n ih =>
      have hbits : (List.range (n + 1)).map t.testBit = (t &&& 1 == 1) :: (List.range n).map
        (t >>> 1).testBit := by
        rw [List.range_succ_eq_map, List.map_cons, List.map_map]
        congr 1
        · rw [Nat.testBit_zero, Nat.and_one_is_mod]
          rfl
        · apply List.map_congr_left
          intro j _
          rw [Function.comp_apply, Nat.testBit_shiftRight, Nat.succ_eq_add_one, Nat.add_comm]
      rw [hbits]
      exact ih (hrep.shiftIn _ _) (t >>> 1) (path >>> 1)

theorem updateImli_rest (s : Histories) (b : Branch) : (updateImli s b).ghist = s.ghist ∧
    (updateImli s b).ptghist = s.ptghist ∧ (updateImli s b).chI = s.chI ∧ (updateImli s b).chT = s.chT := by
  rw [updateImli]
  split_ifs <;> exact ⟨rfl, rfl, rfl, rfl⟩

theorem updateLocal_rest (s : Histories) (b : Branch) : (updateLocal s b).ghist = s.ghist ∧
    (updateLocal s b).ptghist = s.ptghist ∧ (updateLocal s b).chI = s.chI ∧ (updateLocal s b).chT = s.chT := by
  rw [updateLocal]
  split_ifs <;> exact ⟨rfl, rfl, rfl, rfl⟩

theorem Represents.of_rest {t : Histories} (hrep : Represents L s h)
    (hrest : t.ghist = s.ghist ∧ t.ptghist = s.ptghist ∧ t.chI = s.chI ∧ t.chT = s.chT) : Represents L t h := by
  obtain ⟨hghist, hpt, hindex, htags⟩ := hrest
  refine ⟨?_, ?_, ?_⟩
  · rw [hghist, hpt]
    exact hrep.ring
  · rw [hindex]
    exact hrep.index
  · rw [htags]
    exact hrep.tags

theorem Represents.historyUpdate (hrep : Represents L s h) (b : Branch) :
    Represents L (historyUpdate s b) (pushAll h b.directions) := by
  have hlocal := (hrep.of_rest (updateImli_rest s b)).of_rest (updateLocal_rest _ b)
  exact (hlocal.shiftLoop (maxt b.opType) (hashT b) (hashPath b)).of_rest ⟨rfl, rfl, rfl, rfl⟩

theorem represents_run (hrep : Represents L s h) (branches : List Branch) :
    Represents L (branches.foldl historyUpdate s) (pushAll h (branches.flatMap Branch.directions)) := by
  induction branches generalizing s h with
  | nil => exact hrep
  | cons b branches ih =>
      rw [List.foldl_cons, List.flatMap_cons, pushAll_append]
      exact ih (hrep.historyUpdate b)

/-- After any branches, each register of a table is the fold of the newest bits of the whole
history, as many as the table looks back, though an update only ever sees the bit that comes and the
bit that leaves. -/
theorem registers_fold (L : Lengths) (branches : List Branch) (hpos : 1 ≤ i) (hi : i ≤ nhist) :
    ((branches.foldl historyUpdate (reinit L)).chI i).comp =
        fold logg (past (branches.flatMap Branch.directions)) (L.m i) ∧
      ((branches.foldl historyUpdate (reinit L)).chT 0 i).comp =
        fold (tagWidth i) (past (branches.flatMap Branch.directions)) (L.m i) ∧
      ((branches.foldl historyUpdate (reinit L)).chT 1 i).comp =
        fold (tagWidth i - 1) (past (branches.flatMap Branch.directions)) (L.m i) := by
  have hrep := represents_run (represents_reinit L) branches
  refine ⟨?_, ?_, ?_⟩
  · rw [(hrep.index i).resolve_right (by omega)]
    rfl
  · rw [(hrep.tags 0 i).resolve_right (by omega)]
    rfl
  · rw [(hrep.tags 1 i).resolve_right (by omega)]
    rfl

/-- A taken branch and a return, seen by a table of the longest history. -/
theorem registers_fold_longest :
    let L : Lengths := ⟨fun _ => maxHist, fun _ => Nat.le_refl maxHist⟩
    let branches : List Branch := [⟨64, .conditional, true, 16⟩, ⟨80, .ret, true, 256⟩]
    ((branches.foldl historyUpdate (reinit L)).chI 36).comp =
        fold logg (past (branches.flatMap Branch.directions)) (L.m 36) ∧
      ((branches.foldl historyUpdate (reinit L)).chT 0 36).comp =
        fold (tagWidth 36) (past (branches.flatMap Branch.directions)) (L.m 36) ∧
      ((branches.foldl historyUpdate (reinit L)).chT 1 36).comp =
        fold (tagWidth 36 - 1) (past (branches.flatMap Branch.directions)) (L.m 36) :=
  registers_fold _ _ (by decide) (by decide)

end Thermometer.TageHistory

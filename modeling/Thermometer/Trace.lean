import Mathlib.Algebra.Ring.Nat
import Mathlib.Data.List.Basic

namespace Thermometer.Trace

/-- The branch types of `instruction.h`. -/
inductive BranchType
  | notBranch
  | directJump
  | indirect
  | conditional
  | directCall
  | indirectCall
  | ret
  | other
  deriving DecidableEq, Repr

def BranchType.code : BranchType → Nat
  | .notBranch => 0
  | .directJump => 1
  | .indirect => 2
  | .conditional => 3
  | .directCall => 4
  | .indirectCall => 5
  | .ret => 6
  | .other => 7

/-- Returns and indirect branches are served by tables of their own. -/
def BranchType.usesBtb (ty : BranchType) : Bool :=
  ty ≠ .ret && ty ≠ .indirect && ty ≠ .indirectCall

def BranchType.isCall (ty : BranchType) : Bool :=
  ty = .directCall || ty = .indirectCall

/-- The three entry points a core has into a BTB module. -/
inductive Call
  | predict (ip : Nat) (branchType : BranchType)
  | update (ip branchTarget : Nat) (taken : Bool) (branchType : BranchType)
  | prefetch (ip branchTarget : Nat) (branchType : BranchType) (taken toStreamBuffer : Bool)
  deriving DecidableEq, Repr

def Call.ip : Call → Nat
  | .predict ip _ | .update ip _ _ _ | .prefetch ip _ _ _ _ => ip

def Call.branchType : Call → BranchType
  | .predict _ ty | .update _ _ _ ty | .prefetch _ _ ty _ _ => ty

def Call.branchTarget : Call → Nat
  | .predict _ _ => 0
  | .update _ target _ _ | .prefetch _ target _ _ _ => target

/-- The calls that put a branch into the BTB when they find it absent. -/
def Call.allocates : Call → Bool
  | .predict _ _ => false
  | .update _ target taken ty => ty.usesBtb && target ≠ 0 && taken
  | .prefetch _ target ty taken toStreamBuffer =>
      ty.usesBtb && target ≠ 0 && taken && !toStreamBuffer

/-- The calls that count as a use of the branch when they find it. -/
def Call.refreshes : Call → Bool
  | .predict _ ty | .prefetch _ _ ty _ _ => ty.usesBtb
  | .update _ _ _ _ => false

section Allocates

variable {c : Call} {ip target : Nat} {taken toStreamBuffer : Bool} {ty : BranchType}

theorem Call.update_allocates_iff :
    (Call.update ip target taken ty).allocates = true ↔ ty.usesBtb = true ∧ target ≠ 0 ∧ taken = true := by
  simp [allocates, and_assoc]

theorem Call.prefetch_allocates_iff : (Call.prefetch ip target ty taken toStreamBuffer).allocates = true ↔
    ty.usesBtb = true ∧ (target ≠ 0 ∧ taken = true) ∧ toStreamBuffer = false := by
  simp [allocates, and_assoc]

theorem Call.update_idle (h : ¬(target ≠ 0 ∧ taken = true)) : (Call.update ip target taken ty).allocates = false :=
  Bool.eq_false_iff.mpr (fun halloc => h (update_allocates_iff.mp halloc).2)

theorem Call.prefetch_idle (h : ¬(target ≠ 0 ∧ taken = true)) :
    (Call.prefetch ip target ty taken toStreamBuffer).allocates = false :=
  Bool.eq_false_iff.mpr (fun halloc => h (prefetch_allocates_iff.mp halloc).2.1)

theorem Call.usesBtb_of_allocates (h : c.allocates = true) : c.branchType.usesBtb = true := by
  cases c with
  | predict ip ty => cases h
  | update ip target taken ty => exact (update_allocates_iff.mp h).1
  | prefetch ip target ty taken toStreamBuffer => exact (prefetch_allocates_iff.mp h).1

theorem Call.idle_of_type (h : ¬c.branchType.usesBtb = true) : c.allocates = false :=
  Bool.eq_false_iff.mpr (fun halloc => h (usesBtb_of_allocates halloc))

theorem Call.branchTarget_of_allocates (h : c.allocates = true) : c.branchTarget ≠ 0 := by
  cases c with
  | predict ip ty => cases h
  | update ip target taken ty => exact (update_allocates_iff.mp h).2.1
  | prefetch ip target ty taken toStreamBuffer => exact (prefetch_allocates_iff.mp h).2.1.1

end Allocates

/-- One executed branch of a trace. -/
structure Branch where
  ip : Nat
  branchTarget : Nat
  taken : Bool
  branchType : BranchType
  deriving DecidableEq, Repr

/-- What the trace readers guarantee of a branch. -/
structure Branch.WellFormed (b : Branch) : Prop where
  ip_ne_zero : b.ip ≠ 0
  taken_iff : b.taken = true ↔ b.branchTarget ≠ 0

def Branch.calls (b : Branch) : List Call :=
  [.predict b.ip b.branchType, .update b.ip b.branchTarget b.taken b.branchType]

def Call.isPrefetch : Call → Bool
  | .prefetch .. => true
  | _ => false

/-- The calls of a core that runs a trace, with prefetches wherever the
prefetchers issue them. -/
inductive Drives : List Branch → List Call → Prop
  | nil : Drives [] []
  | prefetch {bs : List Branch} {cs : List Call} (p : Call) : p.isPrefetch = true → Drives bs cs →
      Drives bs (p :: cs)
  | branch {bs : List Branch} {cs ps : List Call} (b : Branch) : (∀ p ∈ ps, p.isPrefetch = true) →
      Drives bs cs → Drives (b :: bs)
        (.predict b.ip b.branchType :: (ps ++ .update b.ip b.branchTarget b.taken b.branchType :: cs))

/-- The lines a demand record has for a trace: the branches the BTB serves are
numbered from `k`, and the taken ones are written with their number. -/
def demandRecord : Nat → List Branch → List (Nat × Nat)
  | _, [] => []
  | k, b :: bs =>
      if b.branchType.usesBtb then
        if b.taken then (b.ip, k) :: demandRecord (k + 1) bs else demandRecord (k + 1) bs
      else demandRecord k bs

/-- The set index shared by the BTBs that are not masked. -/
def setIndex (sets ip : Nat) : Nat := (ip >>> 2) % sets

def maskIndex (sets ip : Nat) : Nat := (ip >>> 2) &&& (sets - 1)

theorem setIndex_lt {sets : Nat} (h : 0 < sets) (ip : Nat) : setIndex sets ip < sets :=
  Nat.mod_lt _ h

/-- A line belongs to a taken branch, found by its number among those the BTB serves. -/
theorem mem_demandRecord {k : Nat} {bs : List Branch} {ip c : Nat} :
    (ip, c) ∈ demandRecord k bs ↔
      k ≤ c ∧ ∃ b, (bs.filter (fun b => b.branchType.usesBtb))[c - k]? = some b ∧ b.taken = true ∧ b.ip = ip := by
  induction bs generalizing k with
  | nil => simp [demandRecord]
  | cons b bs ih =>
      rw [demandRecord]
      cases hty : b.branchType.usesBtb with
      | false => rw [if_neg (by simp), ih, List.filter_cons_of_neg (by simp [hty])]
      | true =>
          rw [if_pos rfl, List.filter_cons_of_pos (by simp [hty])]
          have hrest : (ip, c) ∈ demandRecord (k + 1) bs ↔ k < c ∧ ∃ b',
              (b :: bs.filter (fun b => b.branchType.usesBtb))[c - k]? = some b' ∧ b'.taken = true ∧ b'.ip = ip := by
            rw [ih, Nat.succ_le_iff]
            refine and_congr_right (fun hlt => ?_)
            rw [show c - k = (c - (k + 1)) + 1 by omega, List.getElem?_cons_succ]
          have hfirst : k = c → ((∃ b', (b :: bs.filter (fun b => b.branchType.usesBtb))[c - k]? = some b' ∧
              b'.taken = true ∧ b'.ip = ip) ↔ b.taken = true ∧ b.ip = ip) := by
            rintro rfl
            simp only [Nat.sub_self, List.getElem?_cons_zero, Option.some.injEq, exists_eq_left']
          rcases Nat.lt_trichotomy k c with hlt | heq | hgt
          · have hne : (ip, c) ≠ (b.ip, k) := by
              intro he
              rw [Prod.mk.injEq] at he
              omega
            split_ifs
            · rw [List.mem_cons, or_iff_right hne, hrest, and_iff_right hlt, and_iff_right (Nat.le_of_lt hlt)]
            · rw [hrest, and_iff_right hlt, and_iff_right (Nat.le_of_lt hlt)]
          · rw [and_iff_right (Nat.le_of_eq heq), hfirst heq]
            have hno : (ip, c) ∉ demandRecord (k + 1) bs := fun h => by
              have := (hrest.mp h).1
              omega
            split_ifs with ht
            · rw [List.mem_cons, or_iff_left hno, Prod.mk.injEq, and_iff_left heq.symm, and_iff_right ht]
              exact eq_comm
            · exact iff_of_false hno (fun h => ht h.1)
          · have hno : (ip, c) ∉ demandRecord (k + 1) bs := fun h => by
              have := (hrest.mp h).1
              omega
            have hne : (ip, c) ≠ (b.ip, k) := by
              intro he
              rw [Prod.mk.injEq] at he
              omega
            have hlt : ¬k ≤ c := by omega
            split_ifs
            · rw [List.mem_cons, or_iff_right hne]
              exact iff_of_false hno (fun h => hlt h.1)
            · exact iff_of_false hno (fun h => hlt h.1)

theorem demandRecord_sorted (k : Nat) (bs : List Branch) :
    (demandRecord k bs).Pairwise (fun a b => a.2 < b.2) := by
  induction bs generalizing k with
  | nil => exact List.Pairwise.nil
  | cons b bs ih =>
      rw [demandRecord]
      split_ifs
      · refine List.pairwise_cons.mpr ⟨fun a ha => ?_, ih (k + 1)⟩
        exact (mem_demandRecord.mp ha).1
      · exact ih (k + 1)
      · exact ih k

theorem le_last_demandRecord {k : Nat} {bs : List Branch} {ip c : Nat} (h : (ip, c) ∈ demandRecord k bs) (d : Nat) :
    c ≤ ((demandRecord k bs).getLast?.map Prod.snd).getD d := by
  have hsorted := demandRecord_sorted k bs
  rcases List.eq_nil_or_concat (demandRecord k bs) with hnil | ⟨init, last, hlast⟩
  · rw [hnil] at h
    cases h
  · rw [hlast, List.concat_eq_append] at h hsorted ⊢
    rw [List.getLast?_concat, Option.map_some, Option.getD_some]
    rcases List.mem_append.mp h with h | h
    · exact Nat.le_of_lt ((List.pairwise_append.mp hsorted).2.2 _ h last (List.mem_singleton_self last))
    · exact Nat.le_of_eq (congrArg Prod.snd (List.mem_singleton.mp h))

end Thermometer.Trace

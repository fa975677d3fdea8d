import Mathlib.Algebra.Order.Ring.Nat
import Thermometer.Lib.Pool
import Thermometer.Lib.Runs
import Thermometer.VmemModel

namespace Thermometer.VmemPages

open Lib Pool Runs VmemModel VirtualMemory

/-- What a physical page is for: the data of a virtual page, or a part of the page table. -/
inductive Owner
  | data (cpu vpage : Nat)
  | table (cpu level tag : Nat)
  deriving DecidableEq

def pageOf (m : VirtualMemory) : Owner → Option Nat
  | .data cpu vpage => m.vpageToPpageMap cpu vpage
  | .table cpu level tag => m.pageTable cpu level tag

def supplyOf (m : VirtualMemory) : Supply Owner Nat := ⟨m.ppageFreeList, pageOf m⟩

def ownerOf (m : VirtualMemory) : Call → Owner
  | .vaToPa cpu vaddr => .data cpu (m.vpageOf vaddr)
  | .getPtePa cpu vaddr level => .table cpu level (m.ptLookupTag vaddr level)

def offsetOf (m : VirtualMemory) : Call → Nat
  | .vaToPa _ vaddr => m.voffsetOf vaddr
  | .getPtePa _ vaddr _ => m.pteOffset vaddr * 8

def Allowed (capacity pgSize ppage : Nat) : Prop := numReservePpages pgSize ≤ ppage ∧ ppage < capacity / pgSize

/-- The sizes of a memory, which never change. -/
def SameSizes (m m' : VirtualMemory) : Prop :=
  m'.pageSize = m.pageSize ∧ m'.ptLevels = m.ptLevels ∧ m'.numCpus = m.numCpus

section Construct

variable {numCpus capacity pgSize levels : Nat} {seed : UInt64} {m : VirtualMemory}

theorem swapPpages_perm (l : List Nat) (i j : Nat) : (swapPpages l i j).Perm l := by
  simp only [swapPpages, Array.swapIfInBounds]
  split_ifs with hi hj
  · exact (Array.swap_perm hi hj).toList
  · exact List.Perm.refl _
  · exact List.Perm.refl _

theorem shuffle_perm (n : Nat) (r : UInt64) (l : List Nat) : (shuffle n r l).2.Perm l := by
  have hfold : ∀ (is : List Nat) (x : UInt64 × List Nat), (is.foldl (shuffleStep n) x).2.Perm x.2 := by
    intro is
    induction is with
    | nil => exact fun x => List.Perm.refl _
    | cons i is ih => exact fun x => (ih _).trans (swapPpages_perm _ _ _)
  exact hfold _ (r, l)

theorem accepted_iff : accepted capacity pgSize = true ↔
    capacity % pgSize = 0 ∧ pgSize = 2 ^ Nat.log2 pgSize ∧ Nat.log2 pgSize < 31 ∧ 1024 ≤ pgSize := by
  simp only [accepted, Bool.and_eq_true, beq_iff_eq, decide_eq_true_eq, and_assoc]
  constructor
  · rintro ⟨hcap, hpow, hlog, hmin⟩
    have hlt : pgSize < 2 ^ 32 := hpow ▸ Nat.pow_lt_pow_right (by decide) (by omega)
    rw [Nat.mod_eq_of_lt hlt] at hcap
    exact ⟨hcap, hpow, hlog, hmin⟩
  · rintro ⟨hcap, hpow, hlog, hmin⟩
    have hlt : pgSize < 2 ^ 32 := hpow ▸ Nat.pow_lt_pow_right (by decide) (by omega)
    rw [Nat.mod_eq_of_lt hlt]
    exact ⟨hcap, hpow, hlog, hmin⟩

structure Constructed (numCpus capacity pgSize levels : Nat) (m : VirtualMemory) : Prop where
  numCpus : m.numCpus = numCpus
  pageSize : m.pageSize = pgSize
  ptLevels : m.ptLevels = levels
  power : pgSize = 2 ^ Nat.log2 pgSize
  fair : Fair (Allowed capacity pgSize) (supplyOf m)

theorem construct_some (h : construct numCpus capacity pgSize levels seed = some m) :
    Constructed numCpus capacity pgSize levels m := by
  simp only [construct, Option.ite_none_right_eq_some, Option.some.injEq] at h
  obtain ⟨⟨haccepted, -⟩, hm⟩ := h
  have hperm := shuffle_perm (capacity / pgSize - numReservePpages pgSize) (initialRand seed)
    ((List.range (capacity / pgSize)).drop (numReservePpages pgSize))
  have hempty : pageOf m = fun _ => none := by
    rw [← hm]
    funext o
    cases o <;> rfl
  have hfree : m.ppageFreeList = (shuffle (capacity / pgSize - numReservePpages pgSize) (initialRand seed)
      ((List.range (capacity / pgSize)).drop (numReservePpages pgSize))).2 := by
    rw [← hm]
  refine ⟨hm ▸ rfl, hm ▸ rfl, hm ▸ rfl, (accepted_iff.mp haccepted).2.1, ?_⟩
  rw [supplyOf, hempty, hfree]
  apply fair_initial
  · exact hperm.nodup_iff.mpr (List.nodup_range.sublist (List.drop_sublist _ _))
  · intro ppage hppage
    rw [hperm.mem_iff, List.range_eq_range', List.drop_range', List.mem_range'_1] at hppage
    exact ⟨by omega, by omega⟩

end Construct

section Answers

variable {capacity pgSize : Nat} {m m' : VirtualMemory} {call : Call} {pa ppage : Nat}

theorem getNextFreePpage_some (h : m.getNextFreePpage = some (ppage, m')) :
    ∃ rest, m.ppageFreeList = ppage :: rest ∧ m' = { m with ppageFreeList := rest } := by
  simp only [getNextFreePpage] at h
  cases hfree : m.ppageFreeList with
  | nil =>
      rw [hfree] at h
      cases h
  | cons p rest =>
      simp only [hfree, Option.some.injEq, Prod.mk.injEq] at h
      obtain ⟨rfl, rfl⟩ := h
      exact ⟨rest, rfl, rfl⟩

/-- An answer is a request to the supply of pages: the page of the owner, and the offset of the address in it. -/
structure Answered (m m' : VirtualMemory) (call : Call) (pa ppage : Nat) : Prop where
  request : (supplyOf m).request (ownerOf m call) = some (ppage, supplyOf m')
  sizes : SameSizes m m'
  address : pa = (ppage <<< m.lg2PageSize) + offsetOf m call

theorem request_fresh {o : Owner} {rest : List Nat} (hnone : pageOf m o = none) (hfree : m.ppageFreeList = ppage :: rest) :
    (supplyOf m).request o = some (ppage, ⟨rest, Function.update (pageOf m) o (some ppage)⟩) := by
  simp only [Supply.request, supplyOf, hnone, hfree]

theorem request_mapped {o : Owner} (hsome : pageOf m o = some ppage) :
    (supplyOf m).request o = some (ppage, supplyOf m) := by
  simp only [Supply.request, supplyOf, hsome]

theorem vaToPa_answered {cpu vaddr : Nat} (h : m.vaToPa cpu vaddr = some (pa, m')) :
    ∃ ppage, Answered m m' (.vaToPa cpu vaddr) pa ppage := by
  simp only [vaToPa] at h
  cases hmap : m.vpageToPpageMap cpu (m.vpageOf vaddr) with
  | some ppage =>
      simp only [hmap, Option.some.injEq, Prod.mk.injEq] at h
      obtain ⟨rfl, rfl⟩ := h
      exact ⟨ppage, request_mapped hmap, ⟨rfl, rfl, rfl⟩, rfl⟩
  | none =>
      simp only [hmap, Option.map_eq_some_iff, Prod.mk.injEq] at h
      obtain ⟨⟨ppage, next⟩, hnext, rfl, rfl⟩ := h
      obtain ⟨rest, hfree, rfl⟩ := getNextFreePpage_some hnext
      have hnone : pageOf m (.data cpu (m.vpageOf vaddr)) = none := hmap
      refine ⟨ppage, (request_fresh hnone hfree).trans (congrArg some ?_), ⟨rfl, rfl, rfl⟩, rfl⟩
      have howned : Function.update (pageOf m) (.data cpu (m.vpageOf vaddr)) (some ppage) = pageOf { m with
          ppageFreeList := rest
          vpageToPpageMap := Function.update m.vpageToPpageMap cpu
            (Function.update (m.vpageToPpageMap cpu) (m.vpageOf vaddr) (some ppage)) } := by
        funext o
        cases o with
        | data c v =>
            by_cases hc : c = cpu
            · subst hc
              by_cases hv : v = m.vpageOf vaddr
              · subst hv
                simp [pageOf]
              · simp [pageOf, hv]
            · simp [pageOf, hc]
        | table c l tag => simp [pageOf]
      exact congrArg (fun owned => (ppage, Supply.mk rest owned)) howned

theorem getPtePa_answered {cpu vaddr level : Nat} (h : m.getPtePa cpu vaddr level = some (pa, m')) :
    ∃ ppage, Answered m m' (.getPtePa cpu vaddr level) pa ppage := by
  simp only [getPtePa] at h
  cases hmap : m.pageTable cpu level (m.ptLookupTag vaddr level) with
  | some ppage =>
      simp only [hmap, Option.some.injEq, Prod.mk.injEq] at h
      obtain ⟨rfl, rfl⟩ := h
      exact ⟨ppage, request_mapped hmap, ⟨rfl, rfl, rfl⟩, rfl⟩
  | none =>
      simp only [hmap, Option.map_eq_some_iff, Prod.mk.injEq] at h
      obtain ⟨⟨ppage, next⟩, hnext, rfl, rfl⟩ := h
      obtain ⟨rest, hfree, rfl⟩ := getNextFreePpage_some hnext
      have hnone : pageOf m (.table cpu level (m.ptLookupTag vaddr level)) = none := hmap
      refine ⟨ppage, (request_fresh hnone hfree).trans (congrArg some ?_), ⟨rfl, rfl, rfl⟩, rfl⟩
      have howned : Function.update (pageOf m) (.table cpu level (m.ptLookupTag vaddr level)) (some ppage) = pageOf { m with
          ppageFreeList := rest
          pageTable := Function.update m.pageTable cpu (Function.update (m.pageTable cpu) level
            (Function.update (m.pageTable cpu level) (m.ptLookupTag vaddr level) (some ppage))) } := by
        funext o
        cases o with
        | data c v => simp [pageOf]
        | table c l tag =>
            by_cases hc : c = cpu
            · subst hc
              by_cases hl : l = level
              · subst hl
                by_cases ht : tag = m.ptLookupTag vaddr l
                · subst ht
                  simp [pageOf]
                · simp [pageOf, ht]
              · simp [pageOf, hl]
            · simp [pageOf, hc]
      exact congrArg (fun owned => (ppage, Supply.mk rest owned)) howned

theorem answer_answered (h : answer m call = some (pa, m')) : ∃ ppage, Answered m m' call pa ppage := by
  cases call with
  | vaToPa cpu vaddr =>
      simp only [answer, Option.ite_none_right_eq_some] at h
      exact vaToPa_answered h.2
  | getPtePa cpu vaddr level =>
      simp only [answer, Option.ite_none_right_eq_some] at h
      exact getPtePa_answered h.2

theorem ownerOf_sizes (h : SameSizes m m') (call : Call) : ownerOf m' call = ownerOf m call := by
  cases call <;> simp only [ownerOf, vpageOf, ptLookupTag, lg2PageSize, h.1, h.2.1]

theorem offsetOf_sizes (h : SameSizes m m') (call : Call) : offsetOf m' call = offsetOf m call := by
  cases call <;> simp only [offsetOf, voffsetOf, pteOffset, vpageOf, lg2PageSize, h.1]

end Answers

section Sessions

variable {capacity pgSize numCpus levels : Nat} {seed : UInt64} {m : VirtualMemory} {s s' : Session} {call : Call}

def Explained (m : VirtualMemory) (call : Call) (pa : Nat) : Prop :=
  ∃ ppage, pageOf m (ownerOf m call) = some ppage ∧ pa = (ppage <<< m.lg2PageSize) + offsetOf m call

structure Kept (capacity pgSize : Nat) (s : Session) : Prop where
  pageSize : s.memory.pageSize = pgSize
  fair : Fair (Allowed capacity pgSize) (supplyOf s.memory)
  explained : ∀ call pa, (call, pa) ∈ s.answers → Explained s.memory call pa

theorem step_kept (h : Kept capacity pgSize s) (hs : step s call = some s') : Kept capacity pgSize s' := by
  obtain ⟨⟨pa, m'⟩, hanswer, rfl⟩ := Option.map_eq_some_iff.mp hs
  obtain ⟨ppage, hreq, hsizes, haddress⟩ := answer_answered hanswer
  have hlg2 : m'.lg2PageSize = s.memory.lg2PageSize := congrArg Nat.log2 hsizes.1
  refine ⟨hsizes.1.trans h.pageSize, h.fair.request hreq, fun c a hmem => ?_⟩
  simp only [Explained, ownerOf_sizes hsizes, offsetOf_sizes hsizes, hlg2]
  rcases List.mem_append.mp hmem with hmem | hmem
  · obtain ⟨p, hp, ha⟩ := h.explained c a hmem
    exact ⟨p, request_keeps hreq hp, ha⟩
  · rw [List.mem_singleton, Prod.mk.injEq] at hmem
    obtain ⟨rfl, rfl⟩ := hmem
    exact ⟨ppage, request_owned hreq, haddress⟩

/-- What a memory promises: a page belongs to one owner only, above the reserved pages and within the
capacity; an owner keeps its page; and an address is translated with its offset, as no other one is. -/
structure Mapping (capacity pgSize : Nat) (s : Session) : Prop where
  stable : ∀ call pa, (call, pa) ∈ s.answers → Explained s.memory call pa
  distinct : ∀ o o' ppage, pageOf s.memory o = some ppage → pageOf s.memory o' = some ppage → o = o'
  inside : ∀ o ppage, pageOf s.memory o = some ppage →
    numReservePpages pgSize * pgSize ≤ ppage * pgSize ∧ (ppage + 1) * pgSize ≤ capacity
  offset : ∀ cpu vaddr pa, (.vaToPa cpu vaddr, pa) ∈ s.answers → pa % pgSize = vaddr % pgSize
  injective : ∀ cpu vaddr cpu' vaddr' pa, (.vaToPa cpu vaddr, pa) ∈ s.answers → (.vaToPa cpu' vaddr', pa) ∈ s.answers →
    cpu = cpu' ∧ vaddr = vaddr'

theorem Kept.translated (h : Kept capacity pgSize s) (hpow : pgSize = 2 ^ Nat.log2 pgSize) {cpu vaddr pa : Nat}
    (hmem : (.vaToPa cpu vaddr, pa) ∈ s.answers) :
    pageOf s.memory (.data cpu (vaddr / pgSize)) = some (pa / pgSize) ∧ pa % pgSize = vaddr % pgSize := by
  obtain ⟨ppage, hpage, hpa⟩ := h.explained _ _ hmem
  have hlg2 : 2 ^ s.memory.lg2PageSize = pgSize := by
    rw [lg2PageSize, h.pageSize, ← hpow]
  have hpos : 0 < pgSize := hpow ▸ Nat.two_pow_pos _
  simp only [ownerOf, offsetOf, vpageOf, voffsetOf, Nat.shiftRight_eq_div_pow, Nat.shiftLeft_eq,
    Nat.and_two_pow_sub_one_eq_mod] at hpage hpa
  rw [hlg2] at hpage hpa
  have hlt := Nat.mod_lt vaddr hpos
  have hdiv : pa / pgSize = ppage := by
    rw [hpa, Nat.mul_comm, Nat.mul_add_div hpos, Nat.div_eq_of_lt hlt, Nat.add_zero]
  have hmod : pa % pgSize = vaddr % pgSize := by
    rw [hpa, Nat.mul_comm, Nat.mul_add_mod, Nat.mod_eq_of_lt hlt]
  exact ⟨hdiv ▸ hpage, hmod⟩

theorem Kept.mapping (h : Kept capacity pgSize s) (hpow : pgSize = 2 ^ Nat.log2 pgSize) : Mapping capacity pgSize s := by
  refine ⟨h.explained, h.fair.injective, fun o ppage hpage => ?_, fun cpu vaddr pa hmem => (h.translated hpow hmem).2,
    fun cpu vaddr cpu' vaddr' pa hmem hmem' => ?_⟩
  · obtain ⟨hlow, hhigh⟩ := h.fair.owned_allowed o ppage hpage
    exact ⟨Nat.mul_le_mul_right pgSize hlow, (Nat.mul_le_mul_right pgSize hhigh).trans (Nat.div_mul_le_self _ _)⟩
  · obtain ⟨hpage, hoff⟩ := h.translated hpow hmem
    obtain ⟨hpage', hoff'⟩ := h.translated hpow hmem'
    have howner : Owner.data cpu (vaddr / pgSize) = Owner.data cpu' (vaddr' / pgSize) :=
      h.fair.injective _ _ _ hpage hpage'
    rw [Owner.data.injEq] at howner
    refine ⟨howner.1, ?_⟩
    calc vaddr = pgSize * (vaddr / pgSize) + vaddr % pgSize := (Nat.div_add_mod _ _).symm
      _ = pgSize * (vaddr' / pgSize) + vaddr' % pgSize := by rw [howner.2, ← hoff, hoff']
      _ = vaddr' := Nat.div_add_mod _ _

/-- Whatever is translated in whatever order, from any seed. -/
theorem memory_maps (numCpus capacity pgSize levels : Nat) (seed : UInt64) (m : VirtualMemory)
    (hm : construct numCpus capacity pgSize levels seed = some m) (calls : List Call) (s : Session)
    (hs : run step ⟨m, []⟩ calls = some s) : Mapping capacity pgSize s := by
  have hc := construct_some hm
  have hstart : Kept capacity pgSize ⟨m, []⟩ := ⟨hc.pageSize, hc.fair, fun _ _ hno => absurd hno List.not_mem_nil⟩
  have hkept : Kept capacity pgSize s := run_preserves (I := Kept capacity pgSize) (fun _ _ _ _ hi => step_kept hi) hstart hs
  exact hkept.mapping hc.power

def threePages : List Call := [.vaToPa 0 5000000, .getPtePa 0 5000000 1, .vaToPa 0 123456789, .vaToPa 0 5000001]

theorem memory_maps_eight : ∃ m s, construct 1 8388608 1048576 2 1 = some m ∧ run step ⟨m, []⟩ threePages = some s ∧
    s.answers.length = 4 ∧ Mapping 8388608 1048576 s := by
  have hrun : ((construct 1 8388608 1048576 2 1).bind (fun m => run step ⟨m, []⟩ threePages)).any
      (fun s => s.answers.length == 4) = true := by decide +kernel
  obtain ⟨s, hs, hlen⟩ := (Option.any_eq_true _ _).mp hrun
  obtain ⟨m, hm, hs⟩ := Option.bind_eq_some_iff.mp hs
  exact ⟨m, s, hm, hs, beq_iff_eq.mp hlen, memory_maps 1 8388608 1048576 2 1 m hm threePages s hs⟩

end Sessions

end Thermometer.VmemPages

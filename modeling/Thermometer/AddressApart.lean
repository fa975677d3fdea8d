import Thermometer.AddressOffered

namespace Thermometer.AddressApart

open Lib.Runs AddressSpaces AddressFrame AddressCarried AddressOffered

open LoadStoreQueue (Instr Operand numInstrDestinations)

variable {cpu : UInt8} {robSize lqSize sqSize : Nat} {s : State} {r p q : Packet} {x y : CloudsuiteInstr}

section Constructor

variable {α : Type} {n : Nat}

theorem copy_all (src dest : Fin n → α) : copy src 0 n dest = src := by
  funext i
  have hi : 0 + i.val < n := (Nat.zero_add i.val).symm ▸ i.isLt
  rw [copy, dif_pos ⟨hi, hi⟩]
  exact congrArg src (Fin.ext (Nat.zero_add i.val))

theorem copy_none (src dest : Fin n → α) (a : Nat) : copy src a a dest = dest := by
  funext i
  exact dif_neg (fun h => absurd h.1 (Nat.not_lt.mpr (Nat.le_add_right a i)))

theorem ofCloudsuite_operands (cpu : UInt8) (x : CloudsuiteInstr) :
    (OooModelInstr.ofCloudsuite cpu x).operands = x.operands := by
  have hsource : (OooModelInstr.ofCloudsuite cpu x).sourceMemory = x.sourceMemory := copy_all _ _
  have hdestination : (OooModelInstr.ofCloudsuite cpu x).destinationMemory = x.destinationMemory := copy_all _ _
  rw [OooModelInstr.operands, hsource, hdestination]
  rfl

theorem ofCloudsuite_asid (cpu : UInt8) (x : CloudsuiteInstr) : (OooModelInstr.ofCloudsuite cpu x).asid = .unset :=
  copy_none x.asid OooModelInstr.empty.asid 0

end Constructor

theorem requestAddress_inj {v w : Nat} {a b : Asid} :
    requestAddress true v a = requestAddress true w b ↔ page v = page w ∧ a 1 = b 1 := by
  have hadd : ∀ v (a : Asid), requestAddress true v a = page v * 512 + (a 1).toNat := by
    intro v a
    have hlt : (a 1).toNat < 2 ^ 9 := (a 1).toNat_lt.trans (by decide)
    show (page v) <<< 9 ||| (a 1).toNat = _
    rw [← Nat.shiftLeft_add_eq_or_of_lt hlt, Nat.shiftLeft_eq]
  have ha : (a 1).toNat < 256 := (a 1).toNat_lt
  have hb : (b 1).toNat < 256 := (b 1).toNat_lt
  rw [hadd, hadd, ← UInt8.toNat_inj]
  omega

/-- A request for a load or a store of a record. A slot that has been emptied asks for the address zero. -/
structure RequestOf (s : State) (r : Packet) (x : CloudsuiteInstr) : Prop where
  mem : r ∈ s.requests
  record : s.trace[r.instrId]? = some x
  nonzero : r.fullAddr ≠ 0

def Reached (robSize lqSize sqSize : Nat) (cpu : UInt8) (s : State) : Prop :=
  ∃ es, run (step true cpu) (.initial robSize lqSize sqSize) es = some s

/-- Two records in cloudsuite mode: where they access one page from two address spaces the data TLB is asked for two
addresses, and each request carries the address space of its record. -/
structure Apart (robSize lqSize sqSize : Nat) (cpu : UInt8) (x y : CloudsuiteInstr) : Prop where
  differ : ∀ s p q, Reached robSize lqSize sqSize cpu s → RequestOf s p x → RequestOf s q y →
    page p.fullAddr = page q.fullAddr → x.asid 1 ≠ y.asid 1 → p.address ≠ q.address
  left : ∀ s p, Reached robSize lqSize sqSize cpu s → RequestOf s p x → p.asid = x.asid
  right : ∀ s q, Reached robSize lqSize sqSize cpu s → RequestOf s q y → q.asid = y.asid

def AccessesMemory (x : CloudsuiteInstr) : Prop := ∃ o, x.operands.address o ≠ 0

theorem request_record (hs : Reached robSize lqSize sqSize cpu s) (h : RequestOf s r x) :
    r.fullAddr = x.operands.address r.operand ∧ r.asid = .unset ∧ r.address = requestAddress true r.fullAddr .unset := by
  obtain ⟨es, hes⟩ := hs
  have hcarried := run_carried hes
  obtain ⟨y, hy, haddress, hasid⟩ := hcarried.request r h.mem h.nonzero
  obtain rfl := Option.some.inj (hy.symm.trans h.record)
  rw [ofCloudsuite_operands] at haddress
  rw [ofCloudsuite_asid] at hasid
  exact ⟨haddress, hasid, hasid ▸ hcarried.address r h.mem⟩

/-- Whatever the address spaces of two records, they share the translation of a page. -/
theorem request_address_iff (hs : Reached robSize lqSize sqSize cpu s) (hp : RequestOf s p x) (hq : RequestOf s q y) :
    p.address = q.address ↔ page p.fullAddr = page q.fullAddr := by
  rw [(request_record hs hp).2.2, (request_record hs hq).2.2, requestAddress_inj]
  exact and_iff_left rfl

theorem unset_of_kept (hrob : 0 < robSize) (hlq : 0 < lqSize) (hsq : 0 < sqSize) (hx : AccessesMemory x)
    (h : ∀ s p, Reached robSize lqSize sqSize cpu s → RequestOf s p x → p.asid = x.asid) : x.asid = .unset := by
  rw [AccessesMemory, ← ofCloudsuite_operands cpu] at hx
  obtain ⟨es, s, r, hes, htrace, hr, hne⟩ := request_reached true hrob hlq hsq x hx
  have hs : Reached robSize lqSize sqSize cpu s := ⟨es, hes⟩
  have hrecord : s.trace[r.instrId]? = some x := by
    obtain ⟨y, hy, -⟩ := (run_carried hes).request r hr hne
    have hmem : y ∈ s.trace := List.mem_of_getElem? hy
    rw [htrace, List.mem_singleton] at hmem
    exact hmem ▸ hy
  have hof : RequestOf s r x := ⟨hr, hrecord, hne⟩
  exact (h s r hs hof).symm.trans (request_record hs hof).2.1

/-- A record keeps its address space only where it is the one that every model instruction is made with. -/
theorem apart_iff (hrob : 0 < robSize) (hlq : 0 < lqSize) (hsq : 0 < sqSize) :
    Apart robSize lqSize sqSize cpu x y ↔ (AccessesMemory x → x.asid = .unset) ∧ (AccessesMemory y → y.asid = .unset) := by
  have hkept : ∀ {z}, (AccessesMemory z → z.asid = .unset) → ∀ s p, Reached robSize lqSize sqSize cpu s → RequestOf s p z →
      p.asid = z.asid ∧ z.asid = .unset := by
    intro z hz s p hs hp
    obtain ⟨haddress, hasid, -⟩ := request_record hs hp
    have hunset := hz ⟨p.operand, haddress ▸ hp.nonzero⟩
    exact ⟨hasid.trans hunset.symm, hunset⟩
  constructor
  · intro h
    exact ⟨fun hx => unset_of_kept hrob hlq hsq hx h.left, fun hy => unset_of_kept hrob hlq hsq hy h.right⟩
  · rintro ⟨hx, hy⟩
    refine ⟨fun s p q hs hp hq _ hne => ?_, fun s p hs hp => (hkept hx s p hs hp).1, fun s q hs hq => (hkept hy s q hs hq).1⟩
    rw [(hkept hx s p hs hp).2, (hkept hy s q hs hq).2] at hne
    exact absurd rfl hne

/-- A load from the page 1. -/
def loading (asid : Asid) : CloudsuiteInstr where
  ip := 64
  isBranch := 0
  branchTaken := 0
  destinationRegisters _ := 0
  sourceRegisters _ := 0
  destinationMemory _ := 0
  sourceMemory j := if j.val = 0 then 4096 else 0
  asid := asid

theorem unset_apart : Apart 352 128 72 0 (loading .unset) (loading .unset) :=
  (apart_iff (by decide) (by decide) (by decide)).mpr ⟨fun _ => rfl, fun _ => rfl⟩

def process (n : UInt8) : Asid := fun i => if i.val = 0 then 0 else n

def twoLoads : List Event :=
  [.dispatch (loading (process 1)), .dispatch (loading (process 2)), .schedule 0, .schedule 1, .scheduleMemory 0,
    .scheduleMemory 1, .issueLoad true, .issueLoad true]

/-- Two processes ask for the address 767, which is the page 1 and the address space 255. -/
theorem loads_share_translation : ¬Apart 352 128 72 0 (loading (process 1)) (loading (process 2)) := by
  intro h
  have hrun : (run (step true 0) (.initial 352 128 72) twoLoads).any (fun s =>
      s.trace = [loading (process 1), loading (process 2)] ∧
      s.requests.map (fun r => (r.instrId, r.fullAddr, r.address)) = [(0, 4096, 767), (1, 4096, 767)]) = true := by
    decide +kernel
  obtain ⟨s, hs, hfacts⟩ := (Option.any_eq_true _ _).mp hrun
  obtain ⟨htrace, hrequests⟩ := of_decide_eq_true hfacts
  obtain ⟨p, rest, hp, hpfacts, hrest⟩ := List.map_eq_cons_iff.mp hrequests
  obtain ⟨q, rest', rfl, hqfacts, hnil⟩ := List.map_eq_cons_iff.mp hrest
  simp only [Prod.mk.injEq] at hpfacts hqfacts
  have hpx : RequestOf s p (loading (process 1)) := by
    refine ⟨?_, ?_, ?_⟩
    · rw [hp]
      exact List.mem_cons_self
    · rw [htrace, hpfacts.1]
      rfl
    · rw [hpfacts.2.1]
      decide
  have hqy : RequestOf s q (loading (process 2)) := by
    refine ⟨?_, ?_, ?_⟩
    · rw [hp]
      exact List.mem_cons_of_mem _ List.mem_cons_self
    · rw [htrace, hqfacts.1]
      rfl
    · rw [hqfacts.2.1]
      decide
  have hpage : page p.fullAddr = page q.fullAddr := by rw [hpfacts.2.1, hqfacts.2.1]
  refine h.differ s p q ⟨_, hs⟩ hpx hqy hpage (by decide) ?_
  rw [hpfacts.2.2, hqfacts.2.2]

end Thermometer.AddressApart

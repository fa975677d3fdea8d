import Thermometer.HotWarmColdVictim
import Thermometer.LruLevel

namespace Thermometer.MultiLevelHwcBtb

open Trace Lib.Tables MultiLevelBtb MultiLevelCascade MultiLevelDriver
open HotWarmColdBtb (Flags findLruMin)
open MultiLevelBasicBtb (LRUBTBEntry LRUBTB place)

/-- The two modules declare the same entry, and the same `update` for it. -/
abbrev HWCBTBEntry := LRUBTBEntry

/-- `half` is the constant 0.5. -/
structure HWCBTB (D : Type) extends BTB HWCBTBEntry where
  flags : Flags
  categoryBoundary : List D
  half : D
  branchRecord : Table D

/-- What one call takes from outside. A branch without a profile has ratio 0 here. -/
structure LevelEnv where
  order : IterOrder
  rand : Nat
  predictBranch : Nat → Bool

variable {D : Type} [LinearOrder D] [Zero D]

def HWCBTB.empty (latency sets ways : Nat) (flags : Flags) (boundary : List D) (half : D) (record : Table D) :
    HWCBTB D :=
  ⟨.empty latency sets ways, flags, boundary, half, record⟩

def getHitAccessRatio (h : HWCBTB D) (ip : Nat) : D := (h.branchRecord.lookup ip).getD 0

def addToCandidate (h : HWCBTB D) (currIp : Bool) (candidate : List (List Nat)) (ip : Nat) : List (List Nat) :=
  let hitAccess := getHitAccessRatio h ip
  match h.categoryBoundary.findIdx? (fun b => hitAccess ≤ b) with
  | some i =>
      if currIp ∧ i ≠ 0 ∧ h.half < hitAccess then candidate.modify (i + 1) (fun l => l ++ [ip])
      else candidate.modify i (fun l => l ++ [ip])
  | none => if currIp then candidate else candidate.modify h.categoryBoundary.length (fun l => l ++ [ip])

def chooseVictimOneCategory (env : LevelEnv) (h : HWCBTB D) (ip : Nat) (category : List Nat) (considerTaken : Bool) :
    Nat :=
  let notTaken := if considerTaken then category.filter (fun j => !env.predictBranch j) else []
  let final := if notTaken = [] then category else notTaken
  if h.flags.useLru then findLruMin LRUBTBEntry.lru env.rand (h.tableOf ip) final
  else final.getD (env.rand % final.length) 0

def judgeConsiderTaken (h : HWCBTB D) (i : Nat) : Bool :=
  (h.flags.considerHotTaken && i = h.categoryBoundary.length) ||
    (h.flags.considerWarmTaken && 0 < i && i < h.categoryBoundary.length)

def candidates (env : LevelEnv) (h : HWCBTB D) (ip : Nat) : List (List Nat) :=
  let c := (iterate env.order (h.tableOf ip)).foldl (fun c entry => addToCandidate h false c entry.1)
    (List.replicate (h.categoryBoundary.length + 1) [])
  if h.flags.considerKeep then addToCandidate h h.flags.currHotter c ip else c

/-- `none` is the end without a return, when no category has a candidate. -/
def chooseVictimGeneral (env : LevelEnv) (h : HWCBTB D) (ip : Nat) : Option Nat :=
  let c := candidates env h ip
  (c.findIdx? (fun l => l ≠ [])).map (fun i =>
    chooseVictimOneCategory env h ip (c.getD i []) (judgeConsiderTaken h i))

/-- Chosen as its own victim: the level is full and the branch loses to every resident. -/
def HWCBTB.Bypasses (env : LevelEnv) (h : HWCBTB D) (ip : Nat) : Prop :=
  h.totalWays ≤ size (h.tableOf ip) ∧ chooseVictimGeneral env h ip = some ip

def insert (env : LevelEnv) (h : HWCBTB D) (ip target : Nat) (branchType : BranchType) :
    Option (HWCBTB D × BTBEntry) :=
  if ip ∈ h.tableOf ip then none
  else if h.totalWays ≤ size (h.tableOf ip) then
    (chooseVictimGeneral env h ip).bind (fun w =>
      if w = 0 then none
      else if w = ip then some (h, .none)
      else (place env.order (h.toBTB.erase ip w) ip target branchType).map (fun b =>
        ({ h with toBTB := b }, h.toBTB.victimEntry ip w)))
  else (place env.order h.toBTB ip target branchType).map (fun b => ({ h with toBTB := b }, .none))

instance : BTBType LevelEnv HWCBTBEntry (HWCBTB D) where
  toBTB := HWCBTB.toBTB
  withBTB h b := { h with toBTB := b }
  insert := insert
  update env h ip := (MultiLevelBasicBtb.update env.order h.toBTB ip).map (fun b => { h with toBTB := b })

def levels (flags : Flags) (boundary : List D) (half : D) (levelInfo : List (Nat × Nat × Nat × Table D)) :
    List (HWCBTB D) :=
  levelInfo.map (fun a => .empty a.1 a.2.1 a.2.2.1 flags boundary half a.2.2.2)

def initializeBtb (flags : Flags) (boundary : List D) (half : D) (levelInfo : List (Nat × Nat × Nat × Table D)) :
    State (HWCBTB D) :=
  MultiLevelDriver.initializeBtb (levels flags boundary half levelInfo)

def step (s : State (HWCBTB D)) (c : (Nat → LevelEnv) × Call) : Option (State (HWCBTB D)) :=
  MultiLevelDriver.step .plain s c

variable {h h' : HWCBTB D} {env : LevelEnv} {ip target w : Nat} {ty : BranchType} {victim : BTBEntry}

theorem mem_addToCandidate {currIp : Bool} {c : List (List Nat)} {l : List Nat} {j : Nat}
    (hl : l ∈ addToCandidate h currIp c ip) (hj : j ∈ l) : j = ip ∨ ∃ l' ∈ c, j ∈ l' := by
  have hmodify : ∀ i, l ∈ c.modify i (fun l => l ++ [ip]) → j = ip ∨ ∃ l' ∈ c, j ∈ l' := by
    intro i hl
    obtain ⟨k, hk⟩ := List.getElem?_of_mem hl
    rw [List.getElem?_modify] at hk
    obtain ⟨l', hl', rfl⟩ := Option.map_eq_some_iff.mp hk
    have hmem := List.mem_of_getElem? hl'
    split_ifs at hj
    · rcases List.mem_append.mp hj with hj | hj
      · exact .inr ⟨l', hmem, hj⟩
      · exact .inl (List.mem_singleton.mp hj)
    · exact .inr ⟨l', hmem, hj⟩
  simp only [addToCandidate] at hl
  split at hl
  · split_ifs at hl
    · exact hmodify _ hl
    · exact hmodify _ hl
  · split_ifs at hl
    · exact .inr ⟨l, hl, hj⟩
    · exact hmodify _ hl

theorem mem_candidates {l : List Nat} {j : Nat} (hl : l ∈ candidates env h ip) (hj : j ∈ l) :
    j = ip ∨ j ∈ h.tableOf ip := by
  have hfold : ∀ (entries : List (Nat × HWCBTBEntry)) (c : List (List Nat)) l,
      l ∈ entries.foldl (fun c entry => addToCandidate h false c entry.1) c → j ∈ l →
      j ∈ entries.map Prod.fst ∨ ∃ l' ∈ c, j ∈ l' := by
    intro entries
    induction entries with
    | nil => exact fun c l hl hj => .inr ⟨l, hl, hj⟩
    | cons a entries ih =>
        intro c l hl hj
        rcases ih _ l hl hj with hmem | ⟨l', hl', hj'⟩
        · exact .inl (List.mem_cons_of_mem _ hmem)
        · rcases mem_addToCandidate hl' hj' with rfl | hc
          · exact .inl List.mem_cons_self
          · exact .inr hc
  have hres : ∀ l ∈ (iterate env.order (h.tableOf ip)).foldl (fun c entry => addToCandidate h false c entry.1)
      (List.replicate (h.categoryBoundary.length + 1) []), j ∈ l → j ∈ h.tableOf ip := by
    intro l hl hj
    rcases hfold _ _ l hl hj with hmem | ⟨l', hl', hj'⟩
    · exact (mem_iterate_keys _ _ _).mp hmem
    · rw [List.eq_of_mem_replicate hl'] at hj'
      cases hj'
  simp only [candidates] at hl
  split_ifs at hl
  · rcases mem_addToCandidate hl hj with rfl | ⟨l', hl', hj'⟩
    · exact .inl rfl
    · exact .inr (hres l' hl' hj')
  · exact .inr (hres l hl hj)

theorem mem_getD {l : List Nat} (hl : l ≠ []) (n : Nat) : l.getD (n % l.length) 0 ∈ l := by
  have hlt : n % l.length < l.length := Nat.mod_lt _ (List.length_pos_of_ne_nil hl)
  rw [List.getD_eq_getElem?_getD, List.getElem?_eq_getElem hlt]
  exact List.getElem_mem hlt

omit [LinearOrder D] [Zero D] in
theorem chooseVictimOneCategory_mem {category : List Nat} (hne : category ≠ []) (considerTaken : Bool) :
    chooseVictimOneCategory env h ip category considerTaken ∈ category := by
  have hfinal : ∀ final : List Nat, final ≠ [] → (∀ j ∈ final, j ∈ category) →
      (if h.flags.useLru then findLruMin LRUBTBEntry.lru env.rand (h.tableOf ip) final
        else final.getD (env.rand % final.length) 0) ∈ category := by
    intro final hne hsub
    apply hsub
    split_ifs
    · rcases HotWarmColdVictim.findLruMin_cases hne env.rand (h.tableOf ip) with ⟨hmem, -⟩ | ⟨hmem, -⟩
      · exact hmem
      · exact hmem
    · exact mem_getD hne env.rand
  simp only [chooseVictimOneCategory]
  apply hfinal
  · split_ifs <;> assumption
  · intro j hj
    split_ifs at hj
    · exact hj
    · exact (List.mem_filter.mp hj).1
    · exact hj
    · cases hj

theorem chooseVictimGeneral_mem (hw : chooseVictimGeneral env h ip = some w) : w = ip ∨ w ∈ h.tableOf ip := by
  obtain ⟨i, hi, rfl⟩ := Option.map_eq_some_iff.mp hw
  obtain ⟨hlt, hne, -⟩ := List.findIdx?_eq_some_iff_getElem.mp hi
  have hget : (candidates env h ip).getD i [] = (candidates env h ip)[i] := by
    rw [List.getD_eq_getElem?_getD, List.getElem?_eq_getElem hlt, Option.getD_some]
  have hne' : (candidates env h ip).getD i [] ≠ [] := by
    rw [hget]
    simpa using hne
  have hmem : (candidates env h ip).getD i [] ∈ candidates env h ip := by
    rw [hget]
    exact List.getElem_mem hlt
  exact mem_candidates hmem (chooseVictimOneCategory_mem hne' _)

theorem insert_insertion (hno : look h ip = none) (hins : insert env h ip target ty = some (h', victim)) :
    Insertion (h.Bypasses env ip) (look h) (look h') ip (.new ip target ty) victim := by
  rw [MultiLevelHwcBtb.insert] at hins
  split_ifs at hins with hmem hfull
  · obtain ⟨w, hw, hins⟩ := Option.bind_eq_some_iff.mp hins
    split_ifs at hins with hzero hself
    · rw [Option.some.injEq, Prod.mk.injEq] at hins
      obtain ⟨rfl, rfl⟩ := hins
      exact .bypass ⟨hfull, by rw [hw, hself]⟩ rfl
    · obtain ⟨b, hb, heq⟩ := Option.map_eq_some_iff.mp hins
      obtain ⟨rfl, rfl⟩ := Prod.mk.inj heq
      have hwmem : w ∈ h.toBTB.tableOf ip := (chooseVictimGeneral_mem hw).resolve_left hself
      obtain ⟨e, he, hvictim⟩ := BTB.look_of_mem hwmem
      have herase : look (h.toBTB.erase ip w) = Function.update (look h) w none := BTB.look_erase hwmem
      have hno' : look (h.toBTB.erase ip w) ip = none := by
        rw [herase, Function.update_of_ne (Ne.symm hself), hno]
      have hne : ¬h.Bypasses env ip := by
        intro hb
        have := hw.symm.trans hb.2
        exact hself (Option.some.inj this)
      rw [hvictim]
      apply Insertion.evict w e hne hself he
      have hplace := LruLevel.place_look hno' hb
      rw [herase] at hplace
      exact hplace
  · obtain ⟨b, hb, heq⟩ := Option.map_eq_some_iff.mp hins
    obtain ⟨rfl, rfl⟩ := Prod.mk.inj heq
    have hno' : look h.toBTB ip = none := hno
    exact .fill (fun hb => hfull hb.1) (LruLevel.place_look hno' hb)

instance : LawfulBTBType (HWCBTB D) where
  base_withBase _ _ := rfl
  toBTB_withBTB _ _ := rfl
  insert_spec hno h := ⟨_, insert_insertion hno h⟩
  update_spec h := by
    obtain ⟨b, hb, rfl⟩ := Option.map_eq_some_iff.mp h
    exact LruLevel.update_look hb

theorem initializeBtb_reach (flags : Flags) (boundary : List D) (half : D)
    (levelInfo : List (Nat × Nat × Nat × Table D)) : Reach (initializeBtb flags boundary half levelInfo).multiLevelBtb := by
  apply Reach.start
  intro l hl set
  obtain ⟨a, -, rfl⟩ := List.mem_map.mp hl
  rfl

end Thermometer.MultiLevelHwcBtb

import Thermometer.OptFuture
import Thermometer.MultiLevelDriver

namespace Thermometer.MultiLevelOptBtb

open Trace Lib.Tables AccessRecord OptBtb MultiLevelBtb MultiLevelCascade MultiLevelDriver

instance : BTBEntryType BTBEntry := ⟨id, fun _ e => e⟩

structure OPTBTB extends BTB BTBEntry where
  futureAccesses : Future
  futurePrefetches : Future
  lastTimestamp : Nat
  timestamp : Nat
  accessRecord : Record

def OPTBTB.empty (latency sets ways : Nat) (btbType : BtbType) : OPTBTB :=
  ⟨.empty latency sets ways, fun _ => ∅, fun _ => ∅, 0, 0, .empty btbType⟩

def OPTBTB.toOpt (l : OPTBTB) : Opt BTBEntry :=
  ⟨l.futureAccesses, l.futurePrefetches, l.btb, l.totalSets, l.totalWays, l.lastTimestamp, l.timestamp⟩

/-- Not worth a place: the level is full and every resident is needed earlier. -/
def OPTBTB.Bypasses (o : IterOrder) (l : OPTBTB) (ip : Nat) : Prop :=
  l.totalWays ≤ size (l.tableOf ip) ∧ chooseVictim o l.toOpt ip = none

def insert (o : IterOrder) (l : OPTBTB) (ip target : Nat) (branchType : BranchType) : Option (OPTBTB × BTBEntry) :=
  if l.totalWays ≤ size (l.tableOf ip) then
    match chooseVictim o l.toOpt ip with
    | none => some (l, .none)
    | some w =>
        (evict l.accessRecord w).map (fun r =>
          let b := (l.toBTB.erase ip w).emplace ip (.new ip target branchType)
          ({ l with toBTB := b, accessRecord := r }, l.toBTB.victimEntry ip w))
  else some ({ l with toBTB := l.toBTB.emplace ip (.new ip target branchType) }, .none)

instance : BTBType IterOrder BTBEntry OPTBTB :=
  ⟨OPTBTB.toBTB, fun l b => { l with toBTB := b }, insert, fun _ l _ => some l⟩

def OPTBTB.readRecord (l : OPTBTB) (line : Nat × Nat) : OPTBTB :=
  { l with futureAccesses := addToFuture l.totalSets line.1 line.2 l.futureAccesses }

/-- `counter` is the uninitialised local that an empty record leaves as it is. -/
def readRecord (m : List OPTBTB) (demandRecord : List (Nat × Nat)) (counter : Nat) : List OPTBTB :=
  m.map (fun l =>
    { demandRecord.foldl OPTBTB.readRecord l with
      lastTimestamp := (demandRecord.getLast?.map Prod.snd).getD counter })

def findBtbEntryForRecord : List OPTBTB → Nat → Nat → BranchType → List OPTBTB
  | [], _, _, _ => []
  | l :: m, ip, target, branchType =>
      match l.toBTB.findBtbEntry ip with
      | some e =>
          { l with accessRecord := access l.accessRecord e.ipTag e.target e.branchType true false } :: m
      | none =>
          { l with accessRecord := access l.accessRecord ip target branchType false false } ::
            findBtbEntryForRecord m ip target branchType

def updateTimestamp (m : List OPTBTB) : List OPTBTB := m.map (fun l => { l with timestamp := l.timestamp + 1 })

def hooks : Hooks OPTBTB := ⟨updateTimestamp, findBtbEntryForRecord⟩

def levels (levelInfo : List (Nat × Nat × Nat × BtbType)) : List OPTBTB :=
  levelInfo.map (fun a => .empty a.1 a.2.1 a.2.2.1 a.2.2.2)

def initializeBtb (levelInfo : List (Nat × Nat × Nat × BtbType)) (demandRecord : List (Nat × Nat)) (counter : Nat) :
    State OPTBTB :=
  MultiLevelDriver.initializeBtb (readRecord (levels levelInfo) demandRecord counter)

def step (s : State OPTBTB) (c : (Nat → IterOrder) × Call) : Option (State OPTBTB) := MultiLevelDriver.step hooks s c

variable {l l' : OPTBTB} {o : IterOrder} {ip target : Nat} {ty : BranchType} {victim : BTBEntry}

theorem insert_insertion (hno : look l ip = none) (h : insert o l ip target ty = some (l', victim)) :
    Insertion (l.Bypasses o ip) (look l) (look l') ip (.new ip target ty) victim := by
  rw [MultiLevelOptBtb.insert] at h
  split_ifs at h with hfull
  · cases hv : chooseVictim o l.toOpt ip with
    | none =>
        simp only [hv, Option.some.injEq, Prod.mk.injEq] at h
        obtain ⟨rfl, rfl⟩ := h
        exact .bypass ⟨hfull, hv⟩ rfl
    | some w =>
        simp only [hv] at h
        obtain ⟨r, -, heq⟩ := Option.map_eq_some_iff.mp h
        obtain ⟨rfl, rfl⟩ := Prod.mk.inj heq
        have hw : w ∈ l.toBTB.tableOf ip := OptFuture.chooseVictim_mem hv
        obtain ⟨e, he, hvictim⟩ := BTB.look_of_mem hw
        have hne : w ≠ ip := by
          rintro rfl
          cases hno.symm.trans he
        have herase : (l.toBTB.erase ip w).look = Function.update l.toBTB.look w none := BTB.look_erase hw
        have hno' : (l.toBTB.erase ip w).look ip = none := by
          rw [herase, Function.update_of_ne hne.symm]
          exact hno
        rw [hvictim]
        apply Insertion.evict w e (fun hb => by cases hb.2.symm.trans hv) hne he
        change ((l.toBTB.erase ip w).emplace ip _).look = _
        rw [BTB.look_emplace hno', herase]
        rfl
  · rw [Option.some.injEq, Prod.mk.injEq] at h
    obtain ⟨rfl, rfl⟩ := h
    exact .fill (fun hb => hfull hb.1) (BTB.look_emplace hno _)

instance : LawfulBTBType OPTBTB where
  base_withBase _ _ := rfl
  toBTB_withBTB _ _ := rfl
  insert_spec hno h := ⟨_, insert_insertion hno h⟩
  update_spec h := congrArg look (Option.some.inj h).symm

theorem recordAccess_same (m : List OPTBTB) (ip target : Nat) (ty : BranchType) :
    SameTables m (findBtbEntryForRecord m ip target ty) := by
  induction m with
  | nil => exact fun _ => rfl
  | cons l m ih =>
      intro i
      rw [findBtbEntryForRecord]
      cases l.toBTB.findBtbEntry ip with
      | some e => cases i <;> rfl
      | none =>
          cases i with
          | zero => rfl
          | succ i => exact ih i

theorem hooks_lawful : hooks.Lawful := by
  refine ⟨?_, recordAccess_same⟩
  intro m i
  change ((m.map (fun l => { l with timestamp := l.timestamp + 1 }))[i]?).map _ = _
  rw [List.getElem?_map, Option.map_map]
  rfl

theorem initializeBtb_reach (levelInfo : List (Nat × Nat × Nat × BtbType)) (demandRecord : List (Nat × Nat))
    (counter : Nat) : Reach (initializeBtb levelInfo demandRecord counter).multiLevelBtb := by
  apply Reach.start
  intro l hl set
  obtain ⟨l₀, hl₀, rfl⟩ := List.mem_map.mp hl
  obtain ⟨a, -, rfl⟩ := List.mem_map.mp hl₀
  have hfold : ∀ (lines : List (Nat × Nat)) (l : OPTBTB), (lines.foldl OPTBTB.readRecord l).toBTB = l.toBTB := by
    intro lines
    induction lines with
    | nil => exact fun _ => rfl
    | cons line lines ih => exact fun l => ih (l.readRecord line)
  change (demandRecord.foldl OPTBTB.readRecord _).toBTB.btb set = ∅
  rw [hfold]
  rfl

end Thermometer.MultiLevelOptBtb

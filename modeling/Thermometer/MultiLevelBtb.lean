import Thermometer.Lib.Tables
import Thermometer.Trace

namespace Thermometer.MultiLevelBtb

open Trace Lib.Tables

structure BTBEntry where
  ipTag : Nat
  target : Nat
  branchType : BranchType
  alwaysTaken : Bool
  deriving DecidableEq, Repr

/-- The default entry. Returned as a victim it says that nothing was evicted. -/
def BTBEntry.none : BTBEntry := ⟨0, 0, .notBranch, true⟩

def BTBEntry.new (ip target : Nat) (branchType : BranchType) : BTBEntry := ⟨ip, target, branchType, true⟩

/-- Every entry sits in the set of its key. -/
structure BTB (E : Type) where
  latency : Nat
  totalSets : Nat
  totalWays : Nat
  btb : Nat → Table E
  placed : ∀ set j, j ∈ btb set → setIndex totalSets j = set

section Sets

variable {E : Type}

def BTB.empty (latency sets ways : Nat) : BTB E := ⟨latency, sets, ways, fun _ => ∅, fun _ j hj => by cases hj⟩

def BTB.findSetIndex (b : BTB E) (ip : Nat) : Nat := setIndex b.totalSets ip

def BTB.tableOf (b : BTB E) (ip : Nat) : Table E := b.btb (b.findSetIndex ip)

def BTB.findBtbEntry (b : BTB E) (ip : Nat) : Option E := (b.tableOf ip).lookup ip

/-- Rewriting the set of a branch with entries that belong there. -/
def BTB.withTable (b : BTB E) (ip : Nat) (table : Table E) (h : ∀ j ∈ table, j = ip ∨ j ∈ b.tableOf ip) : BTB E where
  latency := b.latency
  totalSets := b.totalSets
  totalWays := b.totalWays
  btb := Function.update b.btb (b.findSetIndex ip) table
  placed := by
    intro set j hj
    by_cases hs : set = b.findSetIndex ip
    · subst hs
      rw [Function.update_self] at hj
      rcases h j hj with rfl | hj
      · rfl
      · exact b.placed _ j hj
    · rw [Function.update_of_ne hs] at hj
      exact b.placed set j hj

def BTB.erase (b : BTB E) (ip w : Nat) : BTB E :=
  b.withTable ip ((b.tableOf ip).erase w) (fun _ hj => .inr (AList.mem_erase.mp hj).2)

def BTB.modify (b : BTB E) (ip : Nat) (f : E → E) : BTB E :=
  b.withTable ip (Lib.Tables.modify (b.tableOf ip) ip f) (fun _ hj => .inr ((mem_modify _ _ _ _).mp hj))

def BTB.emplace (b : BTB E) (ip : Nat) (e : E) : BTB E :=
  b.withTable ip (insertNew (b.tableOf ip) ip e) (fun _ hj => (mem_insertNew _ _ _ _).mp hj)

theorem BTB.findBtbEntry_erase {b : BTB E} {ip w : Nat} (hw : w ∈ b.tableOf ip) :
    (b.erase ip w).findBtbEntry = Function.update b.findBtbEntry w none := by
  funext j
  change (Function.update b.btb (b.findSetIndex ip) ((b.tableOf ip).erase w) (b.findSetIndex j)).lookup j = _
  have hset : b.findSetIndex w = b.findSetIndex ip := b.placed _ w hw
  by_cases hj : j = w
  · subst hj
    rw [Function.update_self, hset, Function.update_self, lookup_erase, if_pos rfl]
  · rw [Function.update_of_ne hj]
    by_cases hs : b.findSetIndex j = b.findSetIndex ip
    · rw [hs, Function.update_self, lookup_erase, if_neg hj, tableOf, ← hs]
      rfl
    · rw [Function.update_of_ne hs]
      rfl

theorem BTB.findBtbEntry_modify (b : BTB E) (ip : Nat) (f : E → E) :
    (b.modify ip f).findBtbEntry = Function.update b.findBtbEntry ip ((b.findBtbEntry ip).map f) := by
  funext j
  change (Function.update b.btb (b.findSetIndex ip) (Lib.Tables.modify (b.tableOf ip) ip f) (b.findSetIndex j)).lookup j = _
  by_cases hj : j = ip
  · subst hj
    rw [Function.update_self, Function.update_self, lookup_modify, if_pos rfl]
    rfl
  · rw [Function.update_of_ne hj]
    by_cases hs : b.findSetIndex j = b.findSetIndex ip
    · rw [hs, Function.update_self, lookup_modify, if_neg hj, tableOf, ← hs]
      rfl
    · rw [Function.update_of_ne hs]
      rfl

theorem BTB.findBtbEntry_emplace {b : BTB E} {ip : Nat} (h : b.findBtbEntry ip = none) (e : E) :
    (b.emplace ip e).findBtbEntry = Function.update b.findBtbEntry ip (some e) := by
  funext j
  change (Function.update b.btb (b.findSetIndex ip) (insertNew (b.tableOf ip) ip e) (b.findSetIndex j)).lookup j = _
  have hno : ip ∉ b.tableOf ip := AList.lookup_eq_none.mp h
  by_cases hj : j = ip
  · subst hj
    rw [Function.update_self, Function.update_self, lookup_insertNew_of_notMem hno, if_pos rfl]
  · rw [Function.update_of_ne hj]
    by_cases hs : b.findSetIndex j = b.findSetIndex ip
    · rw [hs, Function.update_self, lookup_insertNew_of_notMem hno, if_neg hj, tableOf, ← hs]
      rfl
    · rw [Function.update_of_ne hs]
      rfl

end Sets

/-- An entry type that extends `BTBEntry`. -/
class BTBEntryType (E : Type) where
  base : E → BTBEntry
  withBase : E → BTBEntry → E

/-- A level `L` with entries `E`, and its virtual methods. `Ω` is what one call
takes from outside. A result `none` is a failed assertion. -/
class BTBType (Ω E : outParam Type) (L : Type) where
  toBTB : L → BTB E
  withBTB : L → BTB E → L
  insert : Ω → L → Nat → Nat → BranchType → Option (L × BTBEntry)
  update : Ω → L → Nat → Option L

open BTBEntryType (base withBase)
open BTBType (toBTB withBTB)

section Entries

variable {E : Type} [BTBEntryType E] {b : BTB E} {ip w : Nat}

def BTB.look (b : BTB E) (ip : Nat) : Option BTBEntry := (b.findBtbEntry ip).map base

/-- What leaves with a victim. An absent one reads as the default entry. -/
def BTB.victimEntry (b : BTB E) (ip w : Nat) : BTBEntry :=
  match (b.tableOf ip).lookup w with
  | some e => .new w (base e).target (base e).branchType
  | none => .new w 0 .notBranch

theorem BTB.look_erase (hw : w ∈ b.tableOf ip) : (b.erase ip w).look = Function.update b.look w none := by
  funext j
  rw [look, findBtbEntry_erase hw]
  by_cases hj : j = w
  · rw [hj, Function.update_self, Function.update_self, Option.map_none]
  · rw [Function.update_of_ne hj, Function.update_of_ne hj]
    rfl

theorem BTB.look_emplace (hno : b.look ip = none) (e : E) :
    (b.emplace ip e).look = Function.update b.look ip (some (base e)) := by
  funext j
  rw [look, findBtbEntry_emplace (Option.map_eq_none_iff.mp hno)]
  by_cases hj : j = ip
  · rw [hj, Function.update_self, Function.update_self, Option.map_some]
  · rw [Function.update_of_ne hj, Function.update_of_ne hj]
    rfl

theorem BTB.look_modify (b : BTB E) (ip : Nat) (f : E → E) (g : BTBEntry → BTBEntry) (h : ∀ e, base (f e) = g (base e)) :
    (b.modify ip f).look = Function.update b.look ip ((b.look ip).map g) := by
  funext j
  rw [look, findBtbEntry_modify]
  by_cases hj : j = ip
  · rw [hj, Function.update_self, Function.update_self, look, Option.map_map, Option.map_map]
    congr 1
    funext e
    exact h e
  · rw [Function.update_of_ne hj, Function.update_of_ne hj]
    rfl

theorem BTB.look_of_mem (hw : w ∈ b.tableOf ip) :
    ∃ e, b.look w = some e ∧ b.victimEntry ip w = .new w e.target e.branchType := by
  obtain ⟨d, hd⟩ := (mem_iff_lookup _ _).mp hw
  have hset : b.findSetIndex w = b.findSetIndex ip := b.placed _ w hw
  refine ⟨base d, ?_, ?_⟩
  · rw [look, findBtbEntry, tableOf, hset, ← tableOf, hd, Option.map_some]
  · rw [victimEntry, hd]

end Entries

variable {Ω E L : Type} [BTBEntryType E] [BTBType Ω E L]

def look (l : L) (ip : Nat) : Option BTBEntry := (toBTB l).look ip

def remove (l : L) (ip : Nat) : L := withBTB l ((toBTB l).erase ip ip)

def write (l : L) (ip : Nat) (f : BTBEntry → BTBEntry) : L :=
  withBTB l ((toBTB l).modify ip (fun e => withBase e (f (base e))))

/-- The lowest level that holds a branch. -/
def levelOf (m : List L) (ip : Nat) : Option Nat := m.findIdx? (fun l => (look l ip).isSome)

def findBtbEntry (m : List L) (ip : Nat) : Option BTBEntry × Nat :=
  match m.find? (fun l => (look l ip).isSome) with
  | some l => (look l ip, (toBTB l).latency)
  | none => (none, 2 ^ 64 - 1)

/-- The loop of `insert` over the `n` levels from level `i` on. -/
def insertFrom (ω : Nat → Ω) (ip target : Nat) (branchType : BranchType) :
    (n i : Nat) → List L → Option (List L × Bool)
  | 0, _, m => some (m, false)
  | n + 1, i, m =>
      match m[i]? with
      | none => some (m, false)
      | some l =>
          (BTBType.insert (ω i) l ip target branchType).bind (fun r =>
            let m := m.set i r.1
            let victim := r.2
            if victim.ipTag ≠ 0 then
              -- the victim goes down, whatever becomes of it the branch itself is placed
              (insertFrom ω victim.ipTag victim.target victim.branchType n (i + 1) m).map (fun r => (r.1, true))
            else if (findBtbEntry m ip).1.isSome then some (m, true)
            else insertFrom ω ip target branchType n (i + 1) m)

/-- An upper bound `none` is the default one, which no number of levels reaches. -/
def insert (ω : Nat → Ω) (m : List L) (ip target : Nat) (branchType : BranchType) (lowerBound : Nat)
    (upperBound : Option Nat) : Option (List L × Bool) :=
  let upperBound := match upperBound with
    | some u => min m.length u
    | none => m.length
  insertFrom ω ip target branchType (upperBound - lowerBound) lowerBound m

def updateLevel (ω : Nat → Ω) (m : List L) (i ip : Nat) : Option (List L) :=
  (m[i]?).bind (fun l => (BTBType.update (ω i) l ip).map (fun l => m.set i l))

def update (ω : Nat → Ω) (m : List L) (ip : Nat) : Option (List L) :=
  (levelOf m ip).bind (fun i =>
    ((m[i]?).bind (fun l => look l ip)).bind (fun e =>
      (if i = 0 then some (m, false) else insert ω m ip e.target e.branchType 0 (some i)).bind (fun r =>
        if r.2 then some (r.1.modify i (fun l => remove l ip)) else updateLevel ω r.1 i ip)))

def writeEntry (m : List L) (ip : Nat) (f : BTBEntry → BTBEntry) : List L :=
  match levelOf m ip with
  | some i => m.modify i (fun l => write l ip f)
  | none => m

end Thermometer.MultiLevelBtb

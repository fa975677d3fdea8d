import Thermometer.Lib.NewestFirst
import Thermometer.LruHierarchy
import Thermometer.ReuseRecord

namespace Thermometer.LruStack

open Trace Lib.Tables Lib.Stamps Lib.Runs Lib.StackDistance Lib.NewestFirst MultiLevelBtb MultiLevelCascade MultiLevelReach
  MultiLevelBasicBtb LruLevel LruHierarchy ReuseRecord
open BTBType (toBTB)

/-- What a taken branch does to the levels, whether they hold it or not. -/
def access (m : List LRUBTB) (x : Taken) : Option (List LRUBTB) :=
  match (findBtbEntry m x.ip).1 with
  | none => (MultiLevelBtb.insert x.levelOrder m x.ip x.target x.branchType 0 none).map Prod.fst
  | some _ => MultiLevelBtb.update x.levelOrder (writeEntry m x.ip (fun e => { e with target := x.target })) x.ip

theorem updateBtb_access {s : MultiLevelDriver.State LRUBTB} (x : Taken) (hty : x.branchType.usesBtb = true)
    (htarget : x.target ≠ 0) :
    (MultiLevelDriver.updateBtb .plain x.levelOrder s x.ip x.target true x.branchType).map (fun s => s.multiLevelBtb) =
      access s.multiLevelBtb x := by
  simp only [MultiLevelDriver.updateBtb, if_pos hty, access]
  cases hfind : (findBtbEntry s.multiLevelBtb x.ip).1 with
  | none =>
      simp only [if_pos (And.intro htarget trivial), MultiLevelDriver.allocate, Option.map_map]
      rfl
  | some e =>
      simp only [if_true, MultiLevelDriver.updateExisting, Option.map_map]
      exact Option.map_id'

/-- The level after the accesses `l`: each set holds the lines of a cache of its
ways, and their stamps have the order of the stack. -/
def Stacked (b : LRUBTB) (l : List Nat) : Prop :=
  ∀ set, Newest LRUBTBEntry.lru (b.btb set) (cacheOf b.totalWays (ofSet (setIndex b.totalSets) set l))

/-- What an operation on one branch may do to a level: the table of the branch is
exchanged for another one. -/
structure Exchanged (b b' : LRUBTB) (ip : Nat) (t : Table LRUBTBEntry) : Prop where
  sets : b'.totalSets = b.totalSets
  ways : b'.totalWays = b.totalWays
  btb : b'.btb = Function.update b.btb (b.findSetIndex ip) t

variable {b b' : LRUBTB} {o : IterOrder} {ip target : Nat} {ty : BranchType} {victim : BTBEntry} {l : List Nat}
  {t : Table LRUBTBEntry}

theorem stacked_empty (latency sets ways : Nat) : Stacked (.empty latency sets ways) [] := fun _ => newest_empty

theorem Stacked.exchanged (h : Stacked b l) (hb : Exchanged b b' ip t)
    (ht : ∀ c, c = cacheOf b.totalWays (ofSet (setIndex b.totalSets) (b.findSetIndex ip) l) →
      Newest LRUBTBEntry.lru t (cacheAccess b.totalWays c ip)) : Stacked b' (l ++ [ip]) := by
  intro set
  rw [hb.btb, hb.ways, hb.sets, ofSet_concat]
  by_cases hset : set = b.findSetIndex ip
  · subst hset
    have hself : setIndex b.totalSets ip = b.findSetIndex ip := rfl
    rw [Function.update_self, if_pos hself, cacheOf_concat]
    exact ht _ rfl
  · rw [Function.update_of_ne hset, if_neg (fun heq => hset heq.symm)]
    exact h set

theorem Stacked.write (h : Stacked b l) (ip : Nat) (f : BTBEntry → BTBEntry) : Stacked (write b ip f) l := by
  intro set
  change Newest _ (Function.update b.btb (b.findSetIndex ip) _ set) _
  by_cases hset : set = b.findSetIndex ip
  · subst hset
    rw [Function.update_self]
    apply (h _).congr
    intro k
    rw [lookup_modify]
    by_cases hk : k = ip
    · rw [if_pos hk, Option.map_map, hk]
      rfl
    · rw [if_neg hk]
      rfl
  · rw [Function.update_of_ne hset]
    exact h set

theorem Stacked.mem_iff (h : Stacked b l) (ip : Nat) : ip ∈ b.tableOf ip ↔
    ip ∈ cacheOf b.totalWays (ofSet (setIndex b.totalSets) (b.findSetIndex ip) l) := (h _).keys ip

theorem look_isSome (b : LRUBTB) (ip : Nat) : (look b ip).isSome = true ↔ ip ∈ b.tableOf ip := by
  rw [look, BTB.look, Option.isSome_map]
  exact AList.lookup_isSome

theorem Stacked.update (h : Stacked b l) (hu : update o b ip = some b') : Stacked b' (l ++ [ip]) := by
  obtain ⟨hmem, rfl⟩ := update_eq_some hu
  refine h.exchanged ⟨rfl, rfl, rfl⟩ ?_
  rintro c rfl
  rw [cacheAccess_of_mem ((h.mem_iff ip).mp hmem) (length_cacheOf_le _ _)]
  exact (h _).touch (renewed_modify hmem o (fun _ => rfl))

theorem place_exchanged (hno : ip ∉ b.tableOf ip) (h : place o b ip target ty = some b') :
    ∃ t, Exchanged b b' ip t ∧ Renewed LRUBTBEntry.lru (b.tableOf ip) t ip := by
  rw [place] at h
  split_ifs at h
  obtain ⟨-, rfl⟩ := update_eq_some h
  have htable : (b.emplace ip (.new ip target ty)).tableOf ip = insertNew (b.tableOf ip) ip (.new ip target ty) :=
    Function.update_self _ _ _
  rw [htable, BTB.emplace, withTable_modify]
  exact ⟨_, ⟨rfl, rfl, rfl⟩, renewed_insertNew hno _ o (fun _ => rfl)⟩

/-- A miss puts the branch on top, and the last line leaves a full set. -/
theorem Stacked.insert (h : Stacked b l) (hways : 1 ≤ b.totalWays) (hno : ip ∉ b.tableOf ip)
    (hi : insert o b ip target ty = some (b', victim)) : Stacked b' (l ++ [ip]) := by
  have hnew : Newest LRUBTBEntry.lru (b.tableOf ip) _ := h (b.findSetIndex ip)
  have hout := mt (h.mem_iff ip).mpr hno
  have hle := length_cacheOf_le b.totalWays (ofSet (setIndex b.totalSets) (b.findSetIndex ip) l)
  rw [MultiLevelBasicBtb.insert, hnew.size] at hi
  split_ifs at hi with hfull
  · have hlength := Nat.le_antisymm hle hfull
    have hpos : 0 < size (b.tableOf ip) := by
      rw [hnew.size]
      exact Nat.lt_of_lt_of_le hways hfull
    obtain ⟨w, hmin, hw⟩ := exists_lruMin o hpos
    rw [hmin, Option.getD_some] at hi
    obtain ⟨b₁, hplace, heq⟩ := Option.map_eq_some_iff.mp hi
    obtain ⟨rfl, -⟩ := Prod.mk.inj heq
    have htable : (b.erase ip w).tableOf ip = (b.tableOf ip).erase w := Function.update_self _ _ _
    have hno' : ip ∉ (b.erase ip w).tableOf ip := by
      rw [htable, AList.mem_erase]
      exact fun hmem => hno hmem.2
    obtain ⟨t, hexchanged, hrenewed⟩ := place_exchanged hno' hplace
    rw [htable] at hrenewed
    refine h.exchanged (t := t) ⟨hexchanged.sets, hexchanged.ways, ?_⟩ ?_
    · exact hexchanged.btb.trans (Function.update_idem _ _ _)
    · rintro c rfl
      rw [cacheAccess_of_full hout hlength hways]
      generalize hc : cacheOf b.totalWays (ofSet (setIndex b.totalSets) (b.findSetIndex ip) l) = c at hnew hout hlength
      rcases List.eq_nil_or_concat c with rfl | ⟨front, last, rfl⟩
      · cases Nat.lt_of_lt_of_le hways (Nat.le_of_eq hlength.symm)
      · rw [List.concat_eq_append] at hnew hout ⊢
        obtain rfl := hnew.oldest_eq o hmin
        rw [List.dropLast_concat, ← touch_of_notMem (fun hmem => hout (List.mem_append_left _ hmem))]
        exact hnew.eraseLast.touch hrenewed
  · obtain ⟨b₁, hplace, heq⟩ := Option.map_eq_some_iff.mp hi
    obtain ⟨rfl, -⟩ := Prod.mk.inj heq
    obtain ⟨t, hexchanged, hrenewed⟩ := place_exchanged hno hplace
    refine h.exchanged hexchanged ?_
    rintro c rfl
    rw [cacheAccess_of_room hout (Nat.lt_of_not_le hfull), ← touch_of_notMem hout]
    exact hnew.touch hrenewed

/-! A hierarchy of one level. -/

theorem findBtbEntry_single (b : LRUBTB) (ip : Nat) : (findBtbEntry [b] ip).1 = look b ip := by
  rw [findBtbEntry, List.find?_singleton]
  cases hlook : look b ip with
  | none => simp
  | some e => simp [hlook]

theorem insert_single (ω : Nat → IterOrder) (b : LRUBTB) (ip target : Nat) (ty : BranchType) :
    (MultiLevelBtb.insert ω [b] ip target ty 0 none).map Prod.fst = (insert (ω 0) b ip target ty).map (fun r => [r.1]) := by
  change (MultiLevelBtb.insertFrom ω ip target ty 1 0 [b]).map Prod.fst = _
  rw [MultiLevelBtb.insertFrom, List.getElem?_cons_zero]
  change ((insert (ω 0) b ip target ty).bind _).map _ = _
  cases hins : insert (ω 0) b ip target ty with
  | none => rfl
  | some r =>
      rw [Option.bind_some, Option.map_some]
      by_cases hvictim : r.2.ipTag ≠ 0
      · simp only [if_pos hvictim]
        rfl
      · simp only [if_neg hvictim]
        by_cases hfind : (findBtbEntry ([b].set 0 r.1) ip).1.isSome
        · rw [if_pos hfind]
          rfl
        · rw [if_neg hfind]
          rfl

theorem levelOf_single {e : BTBEntry} (h : look b ip = some e) : levelOf [b] ip = some 0 := by
  simp [levelOf, h]

theorem update_single {e : BTBEntry} (ω : Nat → IterOrder) (h : look b ip = some e) :
    MultiLevelBtb.update ω [b] ip = (update (ω 0) b ip).map (fun b => [b]) := by
  rw [MultiLevelBtb.update, levelOf_single h, Option.bind_some, List.getElem?_cons_zero, Option.bind_some, h,
    Option.bind_some, if_pos rfl]
  rfl

theorem writeEntry_single {e : BTBEntry} (h : look b ip = some e) (f : BTBEntry → BTBEntry) :
    writeEntry [b] ip f = [write b ip f] := by
  rw [writeEntry, levelOf_single h]
  rfl

theorem access_single (hg : Good b) (h : Stacked b l) (x : Taken) : ∃ b', access [b] x = some [b'] ∧ Good b' ∧
    Stacked b' (l ++ [x.ip]) ∧ shape b' = shape b := by
  rw [access, findBtbEntry_single]
  cases hlook : look b x.ip with
  | none =>
      have hno : x.ip ∉ b.tableOf x.ip := by
        rw [← look_isSome, hlook]
        exact Bool.false_ne_true
      obtain ⟨b', victim, hins⟩ := insert_total (x.levelOrder 0) hg x.ip x.target x.branchType
      refine ⟨b', ?_, insert_good hg hins, h.insert hg.ways hno hins, insert_shape hins⟩
      simp only [insert_single, hins]
      rfl
  | some e =>
      let b₁ := write b x.ip (fun e => { e with target := x.target })
      have hlook₁ : look b₁ x.ip = some { e with target := x.target } := by
        change look (write b x.ip _) x.ip = _
        rw [look_write, Function.update_self, hlook]
        rfl
      have hmem : x.ip ∈ b₁.tableOf x.ip := by
        rw [← look_isSome, hlook₁]
        rfl
      obtain ⟨b', hup⟩ := update_total (x.levelOrder 0) hmem
      have hshape : shape b' = shape b₁ := update_shape hup
      refine ⟨b', ?_, update_good (write_good hg _ _) hup, (h.write x.ip _).update hup, hshape⟩
      simp only [writeEntry_single hlook]
      exact (update_single x.levelOrder hlook₁).trans (congrArg _ hup)

theorem access_run (latency sets : Nat) {ways : Nat} (h : 1 ≤ ways) (xs : List Taken) : ∃ b,
    run access [.empty latency sets ways] xs = some [b] ∧ Good b ∧ Stacked b (xs.map Taken.ip) ∧
      shape b = (latency, sets, ways) := by
  induction xs using List.reverseRecOn with
  | nil => exact ⟨_, rfl, good_empty latency sets h, stacked_empty latency sets ways, rfl⟩
  | append_singleton xs x ih =>
      obtain ⟨b, hrun, hg, hstacked, hshape⟩ := ih
      obtain ⟨b', hnext, hg', hstacked', hshape'⟩ := access_single hg hstacked x
      refine ⟨b', ?_, hg', ?_, hshape'.trans hshape⟩
      · rw [run_append, hrun, Option.bind_some, run_cons, hnext]
        rfl
      · rw [List.map_append]
        exact hstacked'

end Thermometer.LruStack

import Thermometer.MultiLevelBasicBtb

namespace Thermometer.LruLevel

open Trace Lib.Tables Lib.Stamps MultiLevelBtb MultiLevelCascade MultiLevelBasicBtb

variable {b b' : LRUBTB} {o : IterOrder} {ip target w : Nat} {ty : BranchType} {victim : BTBEntry}

theorem update_eq_some (h : update o b ip = some b') : ip ∈ b.tableOf ip ∧
    b' = b.modify ip (fun e => { e with lru := maxStamp LRUBTBEntry.lru o (b.tableOf ip) + 1 }) := by
  rw [MultiLevelBasicBtb.update] at h
  split_ifs at h with hmem
  rw [Option.some.injEq] at h
  exact ⟨hmem, h.symm⟩

theorem update_look (h : update o b ip = some b') : look b' = look b := by
  obtain ⟨-, rfl⟩ := update_eq_some h
  have hlook := BTB.look_modify b ip
    (fun e => { e with lru := maxStamp LRUBTBEntry.lru o (b.tableOf ip) + 1 }) id (fun _ => rfl)
  rw [Option.map_id, id_eq, Function.update_eq_self] at hlook
  exact hlook

theorem place_look (hno : look b ip = none) (h : place o b ip target ty = some b') :
    look b' = Function.update (look b) ip (some (.new ip target ty)) := by
  rw [place] at h
  split_ifs at h
  rw [update_look h]
  exact BTB.look_emplace hno _

theorem exists_lruMin (o : IterOrder) (h : 0 < size (b.tableOf ip)) : ∃ w, lruMin o b ip = some w ∧ w ∈ b.tableOf ip :=
  exists_oldest o h

theorem place_eq_some (h : place o b ip target ty = some b') : size (b.tableOf ip) < b.totalWays := by
  rw [place] at h
  split_ifs at h with hlt
  exact hlt

theorem insert_cases (hno : look b ip = none) (h : insert o b ip target ty = some (b', victim)) :
    (size (b.tableOf ip) < b.totalWays ∧ victim = .none ∧
      look b' = Function.update (look b) ip (some (.new ip target ty))) ∨
    (b.totalWays ≤ size (b.tableOf ip) ∧ ∃ w e, lruMin o b ip = some w ∧ w ≠ ip ∧ look b w = some e ∧
      victim = .new w e.target e.branchType ∧
      look b' = Function.update (Function.update (look b) w none) ip (some (.new ip target ty))) := by
  rw [MultiLevelBasicBtb.insert] at h
  split_ifs at h with hfull
  · obtain ⟨b₁, hplace, heq⟩ := Option.map_eq_some_iff.mp h
    obtain ⟨rfl, rfl⟩ := Prod.mk.inj heq
    have hroom := place_eq_some hplace
    have hways : 0 < b.totalWays := Nat.lt_of_le_of_lt (Nat.zero_le _) hroom
    obtain ⟨w, hmin, hw⟩ := exists_lruMin o (Nat.lt_of_lt_of_le hways hfull)
    rw [hmin, Option.getD_some] at hplace ⊢
    obtain ⟨e, he, hvictim⟩ := BTB.look_of_mem hw
    have hne : w ≠ ip := by
      rintro rfl
      cases hno.symm.trans he
    have herase : look (b.erase ip w) = Function.update (look b) w none := BTB.look_erase hw
    have hno' : look (b.erase ip w) ip = none := by
      rw [herase, Function.update_of_ne hne.symm, hno]
    exact .inr ⟨hfull, w, e, rfl, hne, he, hvictim, by rw [place_look hno' hplace, herase]⟩
  · obtain ⟨b₁, hplace, heq⟩ := Option.map_eq_some_iff.mp h
    obtain ⟨rfl, rfl⟩ := Prod.mk.inj heq
    exact .inl ⟨Nat.lt_of_not_le hfull, rfl, place_look hno hplace⟩

theorem insert_insertion (hno : look b ip = none) (h : insert o b ip target ty = some (b', victim)) :
    Insertion False (look b) (look b') ip (.new ip target ty) victim := by
  rcases insert_cases hno h with ⟨-, rfl, hlook⟩ | ⟨-, w, e, -, hne, he, rfl, hlook⟩
  · exact .fill not_false hlook
  · exact .evict w e not_false hne he hlook

instance : LawfulBTBType LRUBTB where
  base_withBase _ _ := rfl
  toBTB_withBTB _ _ := rfl
  insert_spec hno h := ⟨False, insert_insertion hno h⟩
  update_spec := update_look

theorem insert_resident (hno : look b ip = none) (h : insert o b ip target ty = some (b', victim)) :
    ∃ e, look b' ip = some e :=
  Option.ne_none_iff_exists'.mp ((insert_insertion hno h).resident_iff hno |>.mpr not_false)

structure GoodTable (ways : Nat) (t : Table LRUBTBEntry) : Prop where
  capacity : size t ≤ ways
  stamped : Stamped LRUBTBEntry.lru t
  positive : ∀ j e, t.lookup j = some e → 1 ≤ e.lru

structure Good (b : LRUBTB) : Prop where
  ways : 1 ≤ b.totalWays
  table : ∀ set, GoodTable b.totalWays (b.btb set)

variable {t : Table LRUBTBEntry} {ways : Nat}

theorem good_empty (latency sets : Nat) (h : 1 ≤ ways) : Good (.empty latency sets ways) :=
  ⟨h, fun _ => ⟨Nat.zero_le _, stamped_empty, fun _ _ he => by cases he⟩⟩

theorem Good.withTable (hg : Good b) (ht : GoodTable b.totalWays t) {h : ∀ j ∈ t, j = ip ∨ j ∈ b.tableOf ip} :
    Good (b.withTable ip t h) := by
  refine ⟨hg.ways, ?_⟩
  intro set
  change GoodTable b.totalWays (Function.update b.btb (b.findSetIndex ip) t set)
  by_cases hs : set = b.findSetIndex ip
  · rw [hs, Function.update_self]
    exact ht
  · rw [Function.update_of_ne hs]
    exact hg.table set

theorem GoodTable.erase (ht : GoodTable ways t) (w : Nat) : GoodTable ways (t.erase w) := by
  refine ⟨?_, ht.stamped.erase w, ?_⟩
  · have hle := ht.capacity
    by_cases hw : w ∈ t
    · have hsize := size_erase_of_mem hw
      omega
    · rw [size, AList.keys_erase, List.erase_of_not_mem (fun h => hw (AList.mem_keys.mpr h))]
      exact hle
  · intro j e he
    rw [lookup_erase] at he
    split_ifs at he
    exact ht.positive j e he

theorem goodTable_stamp (hsize : size t ≤ ways) (hbut : StampedBut LRUBTBEntry.lru t ip)
    (hpos : ∀ j e, j ≠ ip → t.lookup j = some e → 1 ≤ e.lru) (o : IterOrder) :
    GoodTable ways (modify t ip (fun e => { e with lru := maxStamp LRUBTBEntry.lru o t + 1 })) := by
  refine ⟨by rwa [size_modify], hbut.modify o (fun _ => rfl), ?_⟩
  intro j e he
  rw [lookup_modify] at he
  split_ifs at he with hj
  · obtain ⟨d, -, rfl⟩ := Option.map_eq_some_iff.mp he
    exact Nat.succ_le_succ (Nat.zero_le _)
  · exact hpos j e hj he

theorem withTable_modify (b : LRUBTB) {h : ∀ j ∈ t, j = ip ∨ j ∈ b.tableOf ip} (f : LRUBTBEntry → LRUBTBEntry) :
    (b.withTable ip t h).modify ip f =
      b.withTable ip (modify t ip f) (fun j hj => h j ((mem_modify _ _ _ _).mp hj)) := by
  have htable : (b.withTable ip t h).tableOf ip = t := Function.update_self _ _ _
  simp only [BTB.modify, BTB.withTable, BTB.findSetIndex, BTB.tableOf, Function.update_self, Function.update_idem]

theorem update_good (hg : Good b) (h : update o b ip = some b') : Good b' := by
  obtain ⟨-, rfl⟩ := update_eq_some h
  have ht := hg.table (b.findSetIndex ip)
  exact hg.withTable (goodTable_stamp ht.capacity (ht.stamped.but ip) (fun j e _ => ht.positive j e) o)

theorem place_good (hg : Good b) (h : place o b ip target ty = some b') : Good b' := by
  rw [place] at h
  split_ifs at h with hroom
  obtain ⟨-, rfl⟩ := update_eq_some h
  have ht : GoodTable b.totalWays (b.tableOf ip) := hg.table _
  have htable : (b.emplace ip (.new ip target ty)).tableOf ip = insertNew (b.tableOf ip) ip (.new ip target ty) :=
    Function.update_self _ _ _
  rw [htable, BTB.emplace, withTable_modify]
  apply hg.withTable
  by_cases hmem : ip ∈ b.tableOf ip
  · rw [insertNew, if_pos hmem]
    exact goodTable_stamp ht.capacity (ht.stamped.but ip) (fun j e _ => ht.positive j e) o
  · rw [insertNew, if_neg hmem]
    apply goodTable_stamp _ (ht.stamped.insert ip _) _ o
    · rw [size_insert_of_notMem hmem]
      exact hroom
    · intro j e hj he
      rw [lookup_insert, if_neg hj] at he
      exact ht.positive j e he

theorem erase_good (hg : Good b) (ip w : Nat) : Good (b.erase ip w) := hg.withTable ((hg.table _).erase w)

theorem insert_good (hg : Good b) (h : insert o b ip target ty = some (b', victim)) : Good b' := by
  rw [MultiLevelBasicBtb.insert] at h
  split_ifs at h
  · obtain ⟨b₁, hplace, heq⟩ := Option.map_eq_some_iff.mp h
    obtain ⟨rfl, -⟩ := Prod.mk.inj heq
    exact place_good (erase_good hg ip _) hplace
  · obtain ⟨b₁, hplace, heq⟩ := Option.map_eq_some_iff.mp h
    obtain ⟨rfl, -⟩ := Prod.mk.inj heq
    exact place_good hg hplace

theorem update_total (o : IterOrder) (hmem : ip ∈ b.tableOf ip) : ∃ b', update o b ip = some b' :=
  ⟨_, if_pos hmem⟩

theorem place_total (o : IterOrder) (target : Nat) (ty : BranchType) (hroom : size (b.tableOf ip) < b.totalWays) :
    ∃ b', place o b ip target ty = some b' := by
  rw [place, if_pos hroom]
  apply update_total
  have htable : (b.emplace ip (.new ip target ty)).tableOf ip = insertNew (b.tableOf ip) ip (.new ip target ty) :=
    Function.update_self _ _ _
  rw [htable, mem_insertNew]
  exact .inl rfl

theorem insert_total (o : IterOrder) (hg : Good b) (ip target : Nat) (ty : BranchType) :
    ∃ b' victim, insert o b ip target ty = some (b', victim) := by
  rw [MultiLevelBasicBtb.insert]
  split_ifs with hfull
  · obtain ⟨w, hmin, hw⟩ := exists_lruMin o (Nat.lt_of_lt_of_le hg.ways hfull)
    have hsize := size_erase_of_mem hw
    have hle : size (b.tableOf ip) ≤ b.totalWays := (hg.table _).capacity
    have hroom : size ((b.erase ip w).tableOf ip) < (b.erase ip w).totalWays := by
      have htable : (b.erase ip w).tableOf ip = (b.tableOf ip).erase w := Function.update_self _ _ _
      change size ((b.erase ip w).tableOf ip) < b.totalWays
      rw [htable]
      omega
    obtain ⟨b', hb'⟩ := place_total o target ty hroom
    simp only [hmin, Option.getD_some, hb']
    exact ⟨b', _, rfl⟩
  · obtain ⟨b', hb'⟩ := place_total o target ty (Nat.lt_of_not_le hfull)
    rw [hb']
    exact ⟨b', _, rfl⟩

end Thermometer.LruLevel

import Thermometer.LruLevel

namespace Thermometer.LruHierarchy

open Trace Lib.Tables Lib.Stamps Lib.Runs MultiLevelBtb MultiLevelCascade MultiLevelReach MultiLevelDriver
  MultiLevelBasicBtb LruLevel

def shape (b : LRUBTB) : Nat × Nat × Nat := (b.latency, b.totalSets, b.totalWays)

/-- A hierarchy of the given levels in which every branch has one place. -/
structure Intact (levelInfo : List (Nat × Nat × Nat)) (m : List LRUBTB) : Prop where
  shapes : m.map shape = levelInfo
  once : ∀ (i k : Nat) (b c : LRUBTB) (set set' ip : Nat), m[i]? = some b → m[k]? = some c →
    ip ∈ b.btb set → ip ∈ c.btb set' → i = k
  placed : ∀ b ∈ m, ∀ set ip, ip ∈ b.btb set → set = b.findSetIndex ip
  capacity : ∀ b ∈ m, ∀ set, size (b.btb set) ≤ b.totalWays
  stamped : ∀ b ∈ m, ∀ set, Stamped LRUBTBEntry.lru (b.btb set)
  positive : ∀ b ∈ m, ∀ set ip e, (b.btb set).lookup ip = some e → 1 ≤ e.lru

structure Sound (levelInfo : List (Nat × Nat × Nat)) (m : List LRUBTB) : Prop where
  shapes : m.map shape = levelInfo
  good : ∀ b ∈ m, Good b
  exclusive : Exclusive m

variable {levelInfo : List (Nat × Nat × Nat)} {m m' : List LRUBTB} {b b' : LRUBTB} {o : IterOrder}
  {ω : Nat → IterOrder} {ip target : Nat} {ty : BranchType} {victim : BTBEntry}

theorem look_of_mem_set {set : Nat} (h : ip ∈ b.btb set) : ∃ e, look b ip = some e := by
  obtain ⟨d, hd⟩ := (mem_iff_lookup _ _).mp h
  have hset : b.findSetIndex ip = set := b.placed set ip h
  refine ⟨d.toBTBEntry, ?_⟩
  change (b.findBtbEntry ip).map _ = _
  rw [BTB.findBtbEntry, BTB.tableOf, hset, hd]
  rfl

theorem Sound.intact (h : Sound levelInfo m) : Intact levelInfo m := by
  refine ⟨h.shapes, ?_, ?_, ?_, ?_, ?_⟩
  · intro i k b c set set' ip hb hc hmem hmem'
    obtain ⟨d, hd⟩ := look_of_mem_set hmem
    obtain ⟨e, he⟩ := look_of_mem_set hmem'
    exact h.exclusive ip i k d e (by rw [lookAt_of_getElem? hb, hd]) (by rw [lookAt_of_getElem? hc, he])
  · intro b _ set ip hmem
    exact (b.placed set ip hmem).symm
  · intro b hb set
    exact ((h.good b hb).table set).capacity
  · intro b hb set
    exact ((h.good b hb).table set).stamped
  · intro b hb set
    exact ((h.good b hb).table set).positive

theorem update_shape (h : BTBType.update o b ip = some b') : shape b' = shape b := by
  obtain ⟨-, rfl⟩ := update_eq_some h
  rfl

theorem insert_shape (h : BTBType.insert o b ip target ty = some (b', victim)) : shape b' = shape b := by
  have hplace : ∀ {b b' : LRUBTB}, place o b ip target ty = some b' → shape b' = shape b := by
    intro b b' h
    rw [place] at h
    split_ifs at h
    obtain ⟨-, rfl⟩ := update_eq_some h
    rfl
  change MultiLevelBasicBtb.insert o b ip target ty = some (b', victim) at h
  rw [MultiLevelBasicBtb.insert] at h
  split_ifs at h
  · obtain ⟨b₁, hb₁, heq⟩ := Option.map_eq_some_iff.mp h
    obtain ⟨rfl, -⟩ := Prod.mk.inj heq
    have hshape := hplace hb₁
    exact hshape
  · obtain ⟨b₁, hb₁, heq⟩ := Option.map_eq_some_iff.mp h
    obtain ⟨rfl, -⟩ := Prod.mk.inj heq
    exact hplace hb₁

theorem write_good (hg : Good b) (ip : Nat) (f : BTBEntry → BTBEntry) : Good (write b ip f) := by
  have ht : GoodTable b.totalWays (b.tableOf ip) := hg.table _
  have hkept : GoodTable b.totalWays (modify (b.tableOf ip) ip (fun e => ⟨f e.toBTBEntry, e.lru⟩)) := by
    refine ⟨?_, ht.stamped.modify ip (fun _ => rfl), ?_⟩
    · rw [size_modify]
      exact ht.capacity
    · intro j e he
      rw [lookup_modify] at he
      split_ifs at he with hj
      · obtain ⟨d, hd, rfl⟩ := Option.map_eq_some_iff.mp he
        exact ht.positive ip d hd
      · exact ht.positive j e he
  exact hg.withTable hkept (h := fun _ hj => .inr ((mem_modify _ _ _ _).mp hj))

theorem write_sound (h : Sound levelInfo m) (ip : Nat) (f : BTBEntry → BTBEntry) :
    Sound levelInfo (writeEntry m ip f) := by
  refine ⟨?_, ?_, write_exclusive h.exclusive ip f⟩
  · rw [writeEntry]
    cases levelOf m ip with
    | none => exact h.shapes
    | some i => exact (map_modify (g := fun b => write b ip f) (fun _ => rfl) m i).trans h.shapes
  · rw [writeEntry]
    cases levelOf m ip with
    | none => exact h.good
    | some i => exact forall_mem_modify (fun b hb => write_good hb ip f) h.good i

theorem insert_good_total (o : IterOrder) (ip target : Nat) (ty : BranchType) (hg : Good b) :
    ∃ b' victim, BTBType.insert o b ip target ty = some (b', victim) ∧ Good b' := by
  obtain ⟨b', victim, h⟩ := insert_total o hg ip target ty
  exact ⟨b', victim, h, insert_good hg h⟩

theorem insert_sound (h : Sound levelInfo m) (hno : Absent m ip) (ω : Nat → IterOrder) (target : Nat)
    (ty : BranchType) :
    ∃ m' r, MultiLevelBtb.insert ω m ip target ty 0 none = some (m', r) ∧ Sound levelInfo m' := by
  obtain ⟨m', r, hins⟩ := insertFrom_total insert_good_total h.good ω ip target ty m.length 0
  refine ⟨m', r, hins, ?_, insertFrom_keeps insert_good h.good hins, insert_exclusive h.exclusive hno hins⟩
  rw [insertFrom_map insert_shape hins, h.shapes]

theorem update_sound (h : Sound levelInfo m) {i : Nat} (hlev : levelOf m ip = some i) (ω : Nat → IterOrder) :
    ∃ m', MultiLevelBtb.update ω m ip = some m' ∧ Sound levelInfo m' := by
  have hup : ∀ {b : LRUBTB} (o : IterOrder) (ip : Nat) (e : BTBEntry), look b ip = some e →
      ∃ b', BTBType.update o b ip = some b' := by
    intro b o ip e he
    obtain ⟨d, hd, -⟩ := Option.map_eq_some_iff.mp he
    exact update_total o ((mem_iff_lookup _ _).mpr ⟨d, hd⟩)
  obtain ⟨m', hm'⟩ := MultiLevelReach.update_total insert_good_total hup h.good ω hlev
  refine ⟨m', hm', ?_, ?_, update_exclusive h.exclusive hm'⟩
  · rw [update_map insert_shape update_shape (fun _ => rfl) hm', h.shapes]
  · exact update_keeps insert_good update_good (fun b hb => erase_good hb ip ip) h.good hm'

structure Safe (levelInfo : List (Nat × Nat × Nat)) (s : State LRUBTB) : Prop where
  sound : Sound levelInfo s.multiLevelBtb
  bounded : StreamBuffer.Bounded s.stream

variable {s : State LRUBTB} {taken : Bool}

theorem allocate_safe (h : Safe levelInfo s) (hno : Absent s.multiLevelBtb ip) (ω : Nat → IterOrder) (target : Nat)
    (ty : BranchType) : ∃ s', allocate ω s ip target ty = some s' ∧ Safe levelInfo s' := by
  obtain ⟨m', r, hins, hm'⟩ := insert_sound h.sound hno ω target ty
  exact ⟨{ s with multiLevelBtb := m' }, by rw [allocate, hins]; rfl, hm', h.bounded⟩

theorem updateExisting_safe (h : Safe levelInfo s) {e : BTBEntry} (he : (findBtbEntry s.multiLevelBtb ip).1 = some e)
    (ω : Nat → IterOrder) (target : Nat) (taken : Bool) :
    ∃ s', updateExisting ω s ip target taken = some s' ∧ Safe levelInfo s' := by
  rw [updateExisting]
  cases taken with
  | false => exact ⟨_, rfl, write_sound h.sound ip _, h.bounded⟩
  | true =>
      have hres : levelOf s.multiLevelBtb ip ≠ none := by
        intro hno
        rw [levelOf_eq_none, ← findBtbEntry_eq_none, he] at hno
        cases hno
      obtain ⟨i, hi⟩ := Option.ne_none_iff_exists'.mp hres
      rw [← levelOf_write _ ip (fun e => { e with target := target })] at hi
      obtain ⟨m', hup, hm'⟩ := update_sound (write_sound h.sound ip _) hi ω
      exact ⟨{ s with multiLevelBtb := m' }, by rw [if_pos rfl, hup]; rfl, hm', h.bounded⟩

theorem updateBtb_safe (h : Safe levelInfo s) (ω : Nat → IterOrder) (ip target : Nat) (taken : Bool)
    (ty : BranchType) : ∃ s', updateBtb .plain ω s ip target taken ty = some s' ∧ Safe levelInfo s' := by
  let u : State LRUBTB := { s with side := SideTables.update s.side ip target taken ty }
  have hu : Safe levelInfo u := ⟨h.sound, h.bounded⟩
  by_cases hty : ty.usesBtb = true
  · cases hf : (findBtbEntry s.multiLevelBtb ip).1 with
    | none =>
        let v : State LRUBTB := { u with stream := (StreamBuffer.streamBufferUpdate s.stream ip).1 }
        have hv : Safe levelInfo v := ⟨h.sound, StreamBuffer.update_bounded h.bounded ip⟩
        by_cases ht : target ≠ 0 ∧ taken = true
        · obtain ⟨s', hs', hsafe⟩ := allocate_safe hv (findBtbEntry_eq_none.mp hf) ω target ty
          refine ⟨s', ?_, hsafe⟩
          simp only [updateBtb, if_pos hty, hf, if_pos ht]
          exact hs'
        · refine ⟨v, ?_, hv⟩
          simp only [updateBtb, if_pos hty, hf, if_neg ht]
          rfl
    | some e =>
        obtain ⟨s', hs', hsafe⟩ := updateExisting_safe hu hf ω target taken
        refine ⟨s', ?_, hsafe⟩
        simp only [updateBtb, if_pos hty, hf]
        cases taken <;> exact hs'
  · exact ⟨u, by simp only [updateBtb, if_neg hty]; rfl, hu⟩

theorem prefetchBtb_safe (h : Safe levelInfo s) (ω : Nat → IterOrder) (ip target : Nat) (ty : BranchType)
    (taken toStreamBuffer : Bool) :
    ∃ s', prefetchBtb ω s ip target ty taken toStreamBuffer = some s' ∧ Safe levelInfo s' := by
  by_cases hty : ty.usesBtb = true
  · cases hf : (findBtbEntry s.multiLevelBtb ip).1 with
    | none =>
        by_cases ht : target ≠ 0 ∧ taken = true
        · cases toStreamBuffer with
          | true =>
              obtain ⟨b, hb, hbounded⟩ := StreamBuffer.prefetch_bounded h.bounded ip ht.1
              refine ⟨{ s with stream := b }, ?_, h.sound, hbounded⟩
              simp only [prefetchBtb, if_pos hty, hf, if_pos ht, if_true, hb]
              rfl
          | false =>
              obtain ⟨s', hs', hsafe⟩ := allocate_safe h (findBtbEntry_eq_none.mp hf) ω target ty
              refine ⟨s', ?_, hsafe⟩
              simp only [prefetchBtb, if_pos hty, hf, if_pos ht]
              exact hs'
        · exact ⟨s, by simp only [prefetchBtb, if_pos hty, hf, if_neg ht], h⟩
    | some e =>
        obtain ⟨s', hs', hsafe⟩ := updateExisting_safe h hf ω target taken
        exact ⟨s', by simp only [prefetchBtb, if_pos hty, hf]; exact hs', hsafe⟩
  · exact ⟨s, by simp only [prefetchBtb, if_neg hty], h⟩

theorem btbPrediction_safe (h : Safe levelInfo s) (ip : Nat) (ty : BranchType) :
    Safe levelInfo (btbPrediction s ip ty).1 := by
  rw [MultiLevelBasicBtb.btbPrediction, MultiLevelDriver.btbPrediction]
  split
  · exact ⟨h.sound, h.bounded⟩
  · dsimp only
    split <;> exact ⟨h.sound, h.bounded⟩

theorem step_safe (h : Safe levelInfo s) (c : (Nat → IterOrder) × Call) :
    ∃ s', step s c = some s' ∧ Safe levelInfo s' := by
  obtain ⟨ω, c⟩ := c
  cases c with
  | predict ip ty => exact ⟨_, rfl, btbPrediction_safe h ip ty⟩
  | update ip target taken ty => exact updateBtb_safe h ω ip target taken ty
  | prefetch ip target ty taken toStreamBuffer => exact prefetchBtb_safe h ω ip target ty taken toStreamBuffer

theorem initializeBtb_safe (h : ∀ a ∈ levelInfo, 1 ≤ a.2.1 ∧ 1 ≤ a.2.2) : Safe levelInfo (initializeBtb levelInfo) := by
  refine ⟨⟨?_, ?_, ?_⟩, StreamBuffer.bounded_empty (by omega)⟩
  · rw [MultiLevelBasicBtb.initializeBtb, MultiLevelDriver.initializeBtb, levels, List.map_map]
    exact List.map_id levelInfo
  · intro b hb
    obtain ⟨a, ha, rfl⟩ := List.mem_map.mp hb
    exact good_empty a.1 a.2.1 (h a ha).2
  · apply empty_exclusive
    intro b hb set
    obtain ⟨a, ha, rfl⟩ := List.mem_map.mp hb
    rfl

/-- In every run, from the empty hierarchy on, no assertion fails and every
branch keeps one place, in its set, within the capacity and with its own stamp. -/
theorem run_intact (levelInfo : List (Nat × Nat × Nat)) (hinfo : ∀ a ∈ levelInfo, 1 ≤ a.2.1 ∧ 1 ≤ a.2.2)
    (cs : List ((Nat → IterOrder) × Call)) :
    ∃ s, run step (initializeBtb levelInfo) cs = some s ∧ Intact levelInfo s.multiLevelBtb := by
  obtain ⟨s, hs, hsafe⟩ := run_total (I := Safe levelInfo) (fun s c (_ : c ∈ cs) h => step_safe h c)
    (initializeBtb_safe hinfo)
  exact ⟨s, hs, hsafe.sound.intact⟩

def nanoToL2 : List (Nat × Nat × Nat) := [(0, 16, 1), (1, 64, 1), (2, 64, 2), (3, 2048, 4)]

def pushedDown : List ((Nat → IterOrder) × Call) :=
  [4, 260, 516, 4].map (fun ip => (fun _ => .stored, .update ip 40 true .conditional))

theorem run_intact_nano : ∃ s, run step (initializeBtb nanoToL2) pushedDown = some s ∧ Intact nanoToL2 s.multiLevelBtb ∧
    s.multiLevelBtb.map (fun (b : LRUBTB) => (b.btb 1).keys) = [[4], [516], [], []] := by
  obtain ⟨s, hs, hintact⟩ := run_intact nanoToL2 (by decide) pushedDown
  have hkeys : (run step (initializeBtb nanoToL2) pushedDown).map (fun s =>
      s.multiLevelBtb.map (fun (b : LRUBTB) => (b.btb 1).keys)) = some [[4], [516], [], []] := by decide +kernel
  rw [hs] at hkeys
  exact ⟨s, hs, hintact, Option.some.inj hkeys⟩

end Thermometer.LruHierarchy

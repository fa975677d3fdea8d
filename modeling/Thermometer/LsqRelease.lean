import Thermometer.LsqFrame

namespace Thermometer.LsqRelease

open Lib.Rings Lib.Windows LoadStoreQueue LsqInvariant LsqFrame

open ReorderBuffer (Stage numInstrSources)

variable {s u : State} {i k q n : Nat} {adding : Option Nat} {late : Option (Nat × Nat)} {releasedBy : Option (Nat × Nat)}
  {gone : List (Fin numInstrDestinations)}

theorem stage_inv {f : RobEntry → RobEntry} (h : Inv s) (hi : Live s.rob i)
    (hf : textOf (f (s.rob.entry i)) = textOf (s.rob.entry i))
    (hnum : (f (s.rob.entry i)).numMemOps = (s.rob.entry i).numMemOps)
    (hkeep : (s.rob.entry i).executed = .completed → (f (s.rob.entry i)).executed = .completed)
    (hcompleted : (f (s.rob.entry i)).executed = .completed → (s.rob.entry i).numMemOps = 0) :
    Inv (s.modifyRob i f) := by
  have hfixed := fixed_modifyRob hi hf
  have hsame : ∀ x, ((s.modifyRob i f).rob.entry x).numMemOps = (s.rob.entry x).numMemOps :=
    modify_keeps RobEntry.numMemOps hnum
  refine ⟨hfixed.basic h.basic (fun x hx => ?_) (fun x hx => ?_) (fun x hx => ?_), hfixed.history h.history rfl,
    hfixed.loads h.loads rfl rfl rfl rfl (fun _ _ => Iff.rfl) h.loads.pending,
    hfixed.stores h.stores rfl rfl rfl (fun _ _ => Iff.rfl)⟩
  · by_cases hxi : x = i
    · subst hxi
      rw [State.modifyRob, modify_self]
      exact hkeep hx
    · rw [State.modifyRob, modify_of_ne hxi]
      exact hx
  · rw [hsame]
    exact h.basic.num hx
  · rw [hsame]
    by_cases hxi : x = i
    · subst hxi
      rw [State.modifyRob, modify_self] at hx
      exact hcompleted hx
    · rw [State.modifyRob, modify_of_ne hxi] at hx
      exact h.basic.completed hx

theorem Loads.adding_of_producer (h : Loads none late s) (hq : (s.lq q).producerId ≠ none) : Loads (some q) late s := by
  refine ⟨h.slot, h.live, h.id, h.index, h.added, h.address, h.waiting, h.back, h.unadded, h.free, h.occupancy, h.nodup,
    fun {x} => ?_, h.youngest, h.producer, fun hu hp _ hl => h.pending hu hp nofun hl, h.depend⟩
  rw [h.returning]
  constructor
  · rintro ⟨hu, hp, -⟩
    refine ⟨hu, hp, fun he => hq ?_⟩
    rw [Option.some.inj he]
    exact hp
  · rintro ⟨hu, hp, -⟩
    exact ⟨hu, hp, nofun⟩

section ReleaseLoad

theorem releaseLoad_used {x : Nat} : Used (releaseLoad s q releasedBy) x ↔ Used s x ∧ x ≠ q := by
  show (Function.update s.lq q .empty x).virtualAddress ≠ 0 ↔ _
  by_cases hx : x = q
  · rw [hx, Function.update_self]
    exact iff_of_false (fun h => h rfl) (fun h => h.2 rfl)
  · rw [Function.update_of_ne hx, and_iff_left hx, Used]

theorem releaseLoad_lq {x : Nat} (hx : x ≠ q) : (releaseLoad s q releasedBy).lq x = s.lq x := Function.update_of_ne hx _ _

theorem releaseLoad_rob : (releaseLoad s q releasedBy).rob =
    s.rob.modify (s.lq q).robIndex (fun r => { r with numMemOps := r.numMemOps - 1 }) := rfl

theorem releaseLoad_done : (releaseLoad s q releasedBy).done = s.done ++
    [⟨(s.lq q).instrId, .inl (s.lq q).dataIndex, (s.lq q).virtualAddress, (s.lq q).producerId, releasedBy⟩] := rfl

theorem releaseLoad_entry_of_ne {x : Nat} (hx : x ≠ (s.lq q).robIndex) :
    (releaseLoad s q releasedBy).rob.entry x = s.rob.entry x := by
  rw [releaseLoad_rob, modify_of_ne hx]

theorem releaseLoad_fixed (h : Loads adding late s) (hu : Used s q) : Fixed s (releaseLoad s q releasedBy) := by
  have hfixed := fixed_modifyRob (f := fun r => { r with numMemOps := r.numMemOps - 1 }) (h.live hu) rfl
  have hkept := hfixed.toKept
  exact ⟨⟨⟨hkept.size, hkept.head, hkept.tail, hkept.occupancy, hkept.program, hkept.blank, hkept.id, hkept.memory,
      hkept.source⟩, hkept.destination⟩, hfixed.sourceAdded, hfixed.destinationAdded, hfixed.lqIndex, hfixed.sqIndex,
    hfixed.isProducer, hfixed.depend⟩

theorem releaseLoad_finished {o : Operand} : Finished (releaseLoad s q releasedBy) n o ↔
    Finished s n o ∨ (s.lq q).instrId = n ∧ .inl (s.lq q).dataIndex = o :=
  finished_append releaseLoad_done

theorem releaseLoad_num (hb : Basic s) (h : Loads adding late s) (hu : Used s q) (x : Nat) (hx : Live s.rob x) :
    ((releaseLoad s q releasedBy).rob.entry x).numMemOps
      = (unfinished (releaseLoad s q releasedBy) (s.rob.entry x).instrId).card := by
  have haddress : (instrAt s (s.lq q).instrId).address (.inl (s.lq q).dataIndex) ≠ 0 := by
    show (instrAt s (s.lq q).instrId).sourceMemory (s.lq q).dataIndex ≠ 0
    rw [h.id hu, ← hb.source (h.live hu), ← h.address hu]
    exact hu
  have hcard := card_unfinished_append (n := (s.rob.entry x).instrId) (u := releaseLoad s q releasedBy) releaseLoad_done rfl
    (h.waiting hu) haddress
  have hnum := hb.num hx
  by_cases hxi : x = (s.lq q).robIndex
  · subst hxi
    have hself : ((releaseLoad s q releasedBy).rob.entry (s.lq q).robIndex).numMemOps
        = (s.rob.entry (s.lq q).robIndex).numMemOps - 1 := by
      rw [releaseLoad_rob, modify_self]
    rw [if_pos (h.id hu)] at hcard
    rw [hself, hnum, hcard]
    push_cast
    omega
  · have hid : (s.lq q).instrId ≠ (s.rob.entry x).instrId := by
      intro he
      exact hxi (hb.numbered.inj hx (h.live hu) (he.symm.trans (h.id hu)))
    rw [if_neg hid, Nat.add_zero] at hcard
    rw [releaseLoad_entry_of_ne hxi, hnum, hcard]

theorem num_pos (hb : Basic s) (h : Loads adding late s) (hu : Used s q) :
    0 < (s.rob.entry (s.lq q).robIndex).numMemOps := by
  rw [hb.num (h.live hu)]
  apply Int.natCast_pos.mpr
  apply Finset.card_pos.mpr
  refine ⟨.inl (s.lq q).dataIndex, mem_unfinished.mpr ⟨?_, ?_⟩⟩
  · show (instrAt s _).sourceMemory (s.lq q).dataIndex ≠ 0
    rw [← hb.source (h.live hu), ← h.address hu]
    exact hu
  · rw [← h.id hu]
    exact h.waiting hu

theorem releaseLoad_basic (hb : Basic s) (h : Loads adding late s) (hu : Used s q) : Basic (releaseLoad s q releasedBy) := by
  have hpos := num_pos hb h hu
  have hexecuted : ∀ x, ((releaseLoad s q releasedBy).rob.entry x).executed = (s.rob.entry x).executed := by
    intro x
    rw [releaseLoad_rob, modify_keeps RobEntry.executed rfl]
  refine (releaseLoad_fixed h hu).basic hb (fun x hx => ?_) (releaseLoad_num hb h hu) (fun x hx => ?_)
  · rw [hexecuted]
    exact hx
  · rw [hexecuted] at hx
    have hzero := hb.completed hx
    have hxi : x ≠ (s.lq q).robIndex := by
      rintro rfl
      omega
    rw [releaseLoad_entry_of_ne hxi]
    exact hzero

theorem releaseLoad_history (hb : Basic s) (hh : History s) (h : Loads adding late s) (hu : Used s q)
    (hby : releasedBy = (s.lq q).producerId.map (fun p => (p, (s.lq q).virtualAddress))) :
    History (releaseLoad s q releasedBy) := by
  refine (releaseLoad_fixed h hu).history_append hh rfl (h.waiting hu) ?_ ?_ hby
  · show (s.lq q).instrId < s.program.length
    rw [h.id hu]
    exact hb.numbered.lt (h.live hu)
  · show (s.lq q).virtualAddress = (instrAt s (s.lq q).instrId).sourceMemory (s.lq q).dataIndex
    rw [h.id hu, ← hb.source (h.live hu)]
    exact h.address hu

theorem releaseLoad_stores (h : Loads adding late s) (hs : Stores gone s) (hu : Used s q) :
    Stores gone (releaseLoad s q releasedBy) := by
  refine (releaseLoad_fixed h hu).stores hs rfl rfl rfl (fun n d => ?_)
  rw [releaseLoad_finished, or_iff_left]
  rintro ⟨-, hd⟩
  cases hd

theorem load_inj {x : Nat} (hb : Basic s) (h : Loads adding late s) (hu : Used s q) (hx : Used s x)
    (hid : (s.lq q).instrId = (s.lq x).instrId) (hd : (s.lq q).dataIndex = (s.lq x).dataIndex) : x = q := by
  rw [h.id hu, h.id hx] at hid
  have hindex := h.index hu
  rw [hb.numbered.inj (h.live hu) (h.live hx) hid, hd, h.index hx, Option.some.injEq] at hindex
  exact hindex

theorem releaseLoad_occupancy (h : Loads adding late s) (hu : Used s q) : (releaseLoad s q releasedBy).lqOccupancy =
    ((Finset.range (releaseLoad s q releasedBy).lqSize).filter (Used (releaseLoad s q releasedBy))).card := by
  change s.lqOccupancy - 1 = ((Finset.range s.lqSize).filter (Used (releaseLoad s q releasedBy))).card
  have hmem : q ∈ (Finset.range s.lqSize).filter (Used s) :=
    Finset.mem_filter.mpr ⟨Finset.mem_range.mpr (h.slot hu), hu⟩
  rw [h.occupancy, ← Finset.card_erase_of_mem hmem]
  congr 1
  ext x
  rw [Finset.mem_erase, Finset.mem_filter, Finset.mem_filter, releaseLoad_used]
  tauto

theorem releaseLoad_loads (hb : Basic s) (h : Loads (some q) late s) (hu : Used s q) :
    Loads none late (releaseLoad s q releasedBy) := by
  have hfixed : Fixed s (releaseLoad s q releasedBy) := releaseLoad_fixed h hu
  have hstay : ∀ {x}, Used (releaseLoad s q releasedBy) x → Used s x ∧ (releaseLoad s q releasedBy).lq x = s.lq x := by
    intro x hx
    obtain ⟨hx, hne⟩ := releaseLoad_used.mp hx
    exact ⟨hx, releaseLoad_lq hne⟩
  refine hfixed.toSame.loads_of_stay h hstay rfl hfixed.writesTo.mp (fun _ _ => hfixed.writesTo.mpr) hfixed.sourceAdded
    hfixed.lqIndex hfixed.isProducer hfixed.depend (fun {x} hx => ?_) (fun {i j} hi ha hf => ?_) (fun {i j} hi ha => ?_)
    (fun {x} hx => ?_) (releaseLoad_occupancy h hu) h.nodup (fun {x} => ?_) (fun {x n} hx hp _ hl => ?_)
  · obtain ⟨hxs, hne⟩ := releaseLoad_used.mp hx
    rw [releaseLoad_finished, not_or]
    exact ⟨h.waiting hxs, fun he => hne (load_inj hb h hu hxs he.1 (Sum.inl.inj he.2))⟩
  · rw [hfixed.sourceAdded] at ha
    rw [hfixed.id, releaseLoad_finished, not_or] at hf
    obtain ⟨x, hx, hux, hrob, hd⟩ := h.back (hfixed.live.mp hi) ha hf.1
    have hne : x ≠ q := by
      rintro rfl
      refine hf.2 ⟨?_, ?_⟩
      · rw [h.id hux, hrob]
      · rw [hd]
    refine ⟨x, ?_, releaseLoad_used.mpr ⟨hux, hne⟩, ?_⟩
    · rw [hfixed.lqIndex]
      exact hx
    · rw [releaseLoad_lq hne]
      exact ⟨hrob, hd⟩
  · have hi : Live s.rob i := hfixed.live.mp hi
    rw [hfixed.sourceAdded] at ha
    rw [hfixed.id, releaseLoad_finished, not_or]
    refine ⟨h.unadded hi ha, fun he => ?_⟩
    rw [h.id hu] at he
    have hadded := h.added hu
    rw [hb.numbered.inj (h.live hu) hi he.1, Sum.inl.inj he.2, ha] at hadded
    cases hadded
  · by_cases hxq : x = q
    · rw [hxq]
      exact Function.update_self _ _ _
    · rw [releaseLoad_lq hxq]
      exact h.free (fun hux => hx (releaseLoad_used.mpr ⟨hux, hxq⟩))
  · change x ∈ s.loadsToReturn ↔ _
    rw [h.returning, releaseLoad_used]
    constructor
    · rintro ⟨hx, hp, hne⟩
      have hxq : x ≠ q := fun he => hne (congrArg some he.symm)
      rw [releaseLoad_lq hxq]
      exact ⟨⟨hx, hxq⟩, hp, nofun⟩
    · rintro ⟨⟨hx, hxq⟩, hp, -⟩
      rw [releaseLoad_lq hxq] at hp
      exact ⟨hx, hp, fun he => hxq (Option.some.inj he).symm⟩
  · obtain ⟨hxs, hne⟩ := releaseLoad_used.mp hx
    obtain ⟨d, hd, hf⟩ := h.pending hxs hp (fun he => hne (Option.some.inj he).symm) hl
    refine ⟨d, hd, ?_⟩
    rw [releaseLoad_finished, not_or]
    exact ⟨hf, fun he => nomatch he.2⟩

theorem returnLoad_inv {m : Nat} (h : Inv s) (hm : s.loadsToReturn[m]? = some q) :
    Inv (releaseLoad { s with loadsToReturn := s.loadsToReturn.eraseIdx m } q none) := by
  have hq : q ∈ s.loadsToReturn := List.mem_of_getElem? hm
  obtain ⟨hu, hnone, -⟩ := h.loads.returning.mp hq
  have hmem : ∀ x, x ∈ s.loadsToReturn.eraseIdx m ↔ x ∈ s.loadsToReturn ∧ x ≠ q := by
    intro x
    obtain ⟨hlt, hget⟩ := List.getElem?_eq_some_iff.mp hm
    rw [← hget, ← h.loads.nodup.erase_getElem m hlt, h.loads.nodup.mem_erase_iff, and_comm]
  have hloads : Loads (some q) none { s with loadsToReturn := s.loadsToReturn.eraseIdx m } := by
    have hl := h.loads
    refine ⟨hl.slot, hl.live, hl.id, hl.index, hl.added, hl.address, hl.waiting, hl.back, hl.unadded, hl.free, hl.occupancy,
      hl.nodup.eraseIdx m, fun {x} => ?_, hl.youngest, hl.producer, fun hx hp _ hlate => hl.pending hx hp nofun hlate, hl.depend⟩
    show x ∈ s.loadsToReturn.eraseIdx m ↔ _
    rw [hmem, hl.returning]
    constructor
    · rintro ⟨⟨hx, hp, -⟩, hne⟩
      exact ⟨hx, hp, fun he => hne (Option.some.inj he).symm⟩
    · rintro ⟨hx, hp, hne⟩
      exact ⟨⟨hx, hp, nofun⟩, fun he => hne (congrArg some he.symm)⟩
  have hfixed : Fixed s { s with loadsToReturn := s.loadsToReturn.eraseIdx m } :=
    fixed_of_rob rfl rfl
  have hbasic := hfixed.basic h.basic (fun _ hx => hx) (fun _ hx => h.basic.num hx) (fun _ hx => h.basic.completed hx)
  refine ⟨releaseLoad_basic hbasic hloads hu, releaseLoad_history hbasic (hfixed.history h.history rfl) hloads hu ?_,
    releaseLoad_loads hbasic hloads hu,
    releaseLoad_stores hloads (hfixed.stores h.stores rfl rfl rfl (fun _ _ => Iff.rfl)) hu⟩
  show none = (s.lq q).producerId.map _
  rw [hnone]
  rfl

end ReleaseLoad

end Thermometer.LsqRelease

import Thermometer.AlwaysTaken
import Thermometer.BasicBtbLru
import Thermometer.Lib.Slots
import Thermometer.VictimBufferBtb

namespace Thermometer.VictimBufferTaken

open Trace Lib.Runs Lib.Slots AlwaysTaken
open BasicBtb (Entry State findEntry updateLru getLruEntry)
open VictimBufferBtb (Found lookup touch addToVictimBuffer victimBufferSize)

inductive Place
  | btb
  | victimBuffer
  deriving DecidableEq

def placeOf : Found → Place
  | .btb _ => .btb
  | .victimBuffer _ => .victimBuffer

def taken : Module VictimBufferBtb.State Call Place where
  step := VictimBufferBtb.step
  call := id
  place s ip := (lookup s ip).map placeOf
  reports s ip := (VictimBufferBtb.btbPrediction s ip .conditional).2.2

def tags (es : List Entry) : List Nat := es.map Entry.ipTag

structure Intact (s : VictimBufferBtb.State) : Prop where
  placed : ∀ set, ∀ ip ∈ tags (s.btb set), ip ≠ 0 → s.index ip = set
  distinct : ∀ set, Distinct 0 (tags (s.btb set))
  distinctBuffer : Distinct 0 (tags s.victimBuffer)
  disjoint : ∀ set, ∀ ip ∈ tags (s.btb set), ip ∈ tags s.victimBuffer → ip = 0

structure Rewritten (es es' : List Entry) : Prop where
  tags_eq : tags es' = tags es
  flag : ∀ e ∈ es', ∃ d ∈ es, d.ipTag = e.ipTag ∧ (e.alwaysTaken = true → d.alwaysTaken = true)

structure Rewrites (s t : VictimBufferBtb.State) : Prop where
  index : t.index = s.index
  btb : ∀ set, Rewritten (s.btb set) (t.btb set)
  victimBuffer : Rewritten s.victimBuffer t.victimBuffer

def Holds (s : VictimBufferBtb.State) (ip : Nat) (p : Place) (e : Entry) : Prop :=
  e.ipTag = ip ∧
    match p with
    | .btb => e ∈ s.btb (s.set ip)
    | .victimBuffer => e ∈ s.victimBuffer

variable {s t u : VictimBufferBtb.State} {ip j w set target : Nat} {d e : Entry} {es es' es'' : List Entry}
  {f : Entry → Entry} {p q : Place} {found : Found}

theorem mem_tags : ip ∈ tags es ↔ ∃ e ∈ es, e.ipTag = ip := List.mem_map

theorem Rewritten.refl (es : List Entry) : Rewritten es es := ⟨rfl, fun e he => ⟨e, he, rfl, id⟩⟩

theorem Rewritten.trans (h : Rewritten es es') (h' : Rewritten es' es'') : Rewritten es es'' := by
  refine ⟨h'.tags_eq.trans h.tags_eq, ?_⟩
  intro e he
  obtain ⟨d, hd, htag, hflag⟩ := h'.flag e he
  obtain ⟨c, hc, htag', hflag'⟩ := h.flag d hd
  exact ⟨c, hc, htag'.trans htag, fun ht => hflag' (hflag ht)⟩

theorem rewritten_modify (htag : ∀ e, (f e).ipTag = e.ipTag)
    (hflag : ∀ e, (f e).alwaysTaken = true → e.alwaysTaken = true) (es : List Entry) (w : Nat) :
    Rewritten es (es.modify w f) := by
  constructor
  · apply List.ext_getElem?
    intro k
    rw [tags, tags, List.getElem?_map, List.getElem?_map, List.getElem?_modify,
      Option.map_eq_map, Option.map_map]
    congr 1
    funext e
    rw [Function.comp_apply]
    split_ifs
    · exact htag e
    · rfl
  · intro e he
    rcases BasicBtbLru.mem_modify he with he | ⟨d, hd, rfl⟩
    · exact ⟨e, he, rfl, id⟩
    · exact ⟨d, hd, (htag d).symm, hflag d⟩

theorem rewritten_update (htag : ∀ e, (f e).ipTag = e.ipTag)
    (hflag : ∀ e, (f e).alwaysTaken = true → e.alwaysTaken = true) (btb : Nat → List Entry) (set w k : Nat) :
    Rewritten (btb k) (Function.update btb set ((btb set).modify w f) k) := by
  by_cases hk : k = set
  · rw [hk, Function.update_self]
    exact rewritten_modify htag hflag (btb set) w
  · rw [Function.update_of_ne hk]
    exact .refl _

theorem Rewrites.trans (h : Rewrites s t) (h' : Rewrites t u) : Rewrites s u :=
  ⟨h'.index.trans h.index, fun set => (h.btb set).trans (h'.btb set), h.victimBuffer.trans h'.victimBuffer⟩

theorem touch_rewrites (s : VictimBufferBtb.State) (ip : Nat) (found : Found) : Rewrites s (touch s ip found) := by
  cases found with
  | btb way =>
      have hset : ∀ set, Rewritten (s.btb set) ((updateLru s.toState (s.set ip) way).btb set) :=
        rewritten_update (f := fun e => { e with lru := s.lruCounter }) (fun _ => rfl) (fun _ h => h) s.btb _ way
      exact ⟨rfl, hset, .refl _⟩
  | victimBuffer i => exact ⟨rfl, fun _ => .refl _, .refl _⟩

def observe (target : Nat) (taken : Bool) (e : Entry) : Entry :=
  if taken then { e with target := target } else { e with alwaysTaken := false }

theorem observe_ipTag (target : Nat) (taken : Bool) (e : Entry) : (observe target taken e).ipTag = e.ipTag := by
  cases taken <;> rfl

theorem observe_flag (target : Nat) (taken : Bool) (e : Entry) (h : (observe target taken e).alwaysTaken = true) :
    e.alwaysTaken = true := by
  cases taken with
  | true => exact h
  | false => cases h

theorem updateExisting_rewrites (s : VictimBufferBtb.State) (ip : Nat) (found : Found) (target : Nat) (taken : Bool) :
    Rewrites s (VictimBufferBtb.updateExisting s ip found target taken) := by
  cases found with
  | btb way =>
      exact ⟨rfl, rewritten_update (observe_ipTag target taken) (observe_flag target taken) s.btb _ way, .refl _⟩
  | victimBuffer i =>
      exact ⟨rfl, fun _ => .refl _, rewritten_modify (observe_ipTag target taken) (observe_flag target taken) _ i⟩

theorem Rewrites.intact (h : Rewrites s t) (hs : Intact s) : Intact t := by
  refine ⟨?_, ?_, ?_, ?_⟩
  · intro set ip hip
    rw [(h.btb set).tags_eq] at hip
    rw [h.index]
    exact hs.placed set ip hip
  · intro set
    rw [(h.btb set).tags_eq]
    exact hs.distinct set
  · rw [h.victimBuffer.tags_eq]
    exact hs.distinctBuffer
  · intro set ip hip hbuf
    rw [(h.btb set).tags_eq] at hip
    rw [h.victimBuffer.tags_eq] at hbuf
    exact hs.disjoint set ip hip hbuf

theorem Intact.holds_unique (hs : Intact s) (hip : ip ≠ 0) (hd : Holds s ip p d) (he : Holds s ip p e) : d = e := by
  have htag : d.ipTag = e.ipTag := hd.1.trans he.1.symm
  have hne : e.ipTag ≠ 0 := he.1 ▸ hip
  cases p with
  | btb => exact (hs.distinct _).eq_of_tag hd.2 he.2 htag hne
  | victimBuffer => exact hs.distinctBuffer.eq_of_tag hd.2 he.2 htag hne

theorem Rewrites.keeps (h : Rewrites s t) (hs : Intact s) (hip : ip ≠ 0) (hd : Holds s ip p d) (he : Holds t ip p e)
    (ht : e.alwaysTaken = true) : d.alwaysTaken = true := by
  have hwas : ∃ c, Holds s ip p c ∧ c.alwaysTaken = true := by
    cases p with
    | btb =>
        have hmem : e ∈ t.btb (s.set ip) := by
          have := he.2
          rwa [State.set, h.index] at this
        obtain ⟨c, hc, htag, hflag⟩ := (h.btb _).flag e hmem
        exact ⟨c, ⟨htag.trans he.1, hc⟩, hflag ht⟩
    | victimBuffer =>
        obtain ⟨c, hc, htag, hflag⟩ := h.victimBuffer.flag e he.2
        exact ⟨c, ⟨htag.trans he.1, hc⟩, hflag ht⟩
  obtain ⟨c, hc, hflag⟩ := hwas
  rw [hs.holds_unique hip hd hc]
  exact hflag

theorem findEntry_eq_some {s : BasicBtb.State} (h : findEntry s ip = some w) :
    ∃ e, (s.btb (s.set ip))[w]? = some e ∧ e.ipTag = ip := by
  obtain ⟨hlt, htag, -⟩ := List.findIdx?_eq_some_iff_getElem.mp h
  exact ⟨_, List.getElem?_eq_getElem hlt, of_decide_eq_true htag⟩

theorem lookup_eq_some (h : lookup s ip = some found) :
    ∃ e, Holds s ip (placeOf found) e ∧
      match found with
      | .btb way => (s.btb (s.set ip))[way]? = some e
      | .victimBuffer i => s.victimBuffer[i]? = some e := by
  rw [lookup] at h
  cases hf : findEntry s.toState ip with
  | some way =>
      rw [hf, Option.some.injEq] at h
      subst h
      obtain ⟨e, he, htag⟩ := findEntry_eq_some hf
      exact ⟨e, ⟨htag, List.mem_of_getElem? he⟩, he⟩
  | none =>
      rw [hf] at h
      obtain ⟨i, hi, rfl⟩ := Option.map_eq_some_iff.mp h
      obtain ⟨hlt, htag, -⟩ := List.findIdx?_eq_some_iff_getElem.mp hi
      have he := List.getElem?_eq_getElem hlt
      exact ⟨_, ⟨of_decide_eq_true htag, List.mem_of_getElem? he⟩, he⟩

theorem lookup_eq_none (h : lookup s ip = none) : ip ∉ tags (s.btb (s.set ip)) ∧ ip ∉ tags s.victimBuffer := by
  rw [lookup] at h
  cases hf : findEntry s.toState ip with
  | some way =>
      rw [hf] at h
      cases h
  | none =>
      rw [hf, Option.map_eq_none_iff] at h
      constructor
      · intro hm
        obtain ⟨e, he, htag⟩ := mem_tags.mp hm
        have hno := List.findIdx?_eq_none_iff.mp hf e he
        exact of_decide_eq_false hno htag
      · intro hm
        obtain ⟨e, he, htag⟩ := mem_tags.mp hm
        have hno := List.findIdx?_eq_none_iff.mp h e he
        exact of_decide_eq_false hno htag

theorem exists_holds (h : taken.place s ip = some p) : ∃ e, Holds s ip p e ∧ taken.reports s ip = e.alwaysTaken := by
  obtain ⟨found, hfound, rfl⟩ := Option.map_eq_some_iff.mp h
  obtain ⟨e, he, hget⟩ := lookup_eq_some hfound
  refine ⟨e, he, ?_⟩
  have hlook : lookup { s with side := s.side } ip = some found := hfound
  change (VictimBufferBtb.btbPrediction s ip .conditional).2.2 = e.alwaysTaken
  cases found with
  | btb way =>
      simp only [VictimBufferBtb.btbPrediction, SideTables.predict, BranchType.isCall]
      simp [hlook, State.entry, List.getD_eq_getElem?_getD, hget]
  | victimBuffer i =>
      simp only [VictimBufferBtb.btbPrediction, SideTables.predict, BranchType.isCall]
      simp [hlook, List.getD_eq_getElem?_getD, hget]

theorem addToVictimBuffer_eq_some (h : addToVictimBuffer es e = some es') :
    ∃ kept, (kept = es ∨ kept = es.tail) ∧ es' = kept ++ [⟨e.ipTag, e.target, true, 0⟩] := by
  rw [addToVictimBuffer] at h
  split_ifs at h
  · rw [Option.some.injEq] at h
    exact ⟨es.tail, .inr rfl, h.symm⟩
  · rw [Option.some.injEq] at h
    exact ⟨es, .inl rfl, h.symm⟩

theorem allocate_btb (s : BasicBtb.State) (ip target : Nat) :
    (BasicBtb.allocate s ip target).btb = Function.update s.btb (s.set ip)
      ((s.btb (s.set ip)).modify (getLruEntry s (s.set ip)) (fun _ => ⟨ip, target, true, s.lruCounter⟩)) := by
  simp only [BasicBtb.allocate, updateLru, State.modify, State.set, Function.update_self, Function.update_idem,
    List.modify_modify_eq]
  rfl

theorem tags_allocate (s : BasicBtb.State) (ip target set : Nat) :
    tags ((BasicBtb.allocate s ip target).btb set) =
      if set = s.set ip then (tags (s.btb set)).set (getLruEntry s (s.set ip)) ip else tags (s.btb set) := by
  rw [allocate_btb]
  by_cases hset : set = s.set ip
  · rw [if_pos hset, hset, Function.update_self]
    apply List.ext_getElem?
    intro k
    rw [tags, tags, List.getElem?_map, List.getElem?_modify, List.getElem?_set, List.getElem?_map]
    by_cases hk : getLruEntry s (s.set ip) = k
    · subst hk
      cases hw : (s.btb (s.set ip))[getLruEntry s (s.set ip)]? with
      | none =>
          rw [List.getElem?_eq_none_iff] at hw
          simp [Nat.not_lt.mpr hw]
      | some e =>
          obtain ⟨hlt, -⟩ := List.getElem?_eq_some_iff.mp hw
          simp [hlt]
    · simp [hk]
  · rw [if_neg hset, Function.update_of_ne hset]

theorem tag_entry (s : BasicBtb.State) (set w : Nat) : (s.entry set w).ipTag = (tags (s.btb set)).getD w 0 := by
  rw [State.entry, tags, List.getD_eq_getElem?_getD, List.getD_eq_getElem?_getD, List.getElem?_map]
  cases (s.btb set)[w]? <;> rfl

theorem mem_of_mem_getD (hip : ip ≠ 0) (h : ip = (tags es).getD w 0) : ip ∈ tags es := by
  rw [List.getD_eq_getElem?_getD] at h
  cases hw : (tags es)[w]? with
  | none =>
      rw [hw] at h
      exact absurd h hip
  | some j =>
      rw [hw, Option.getD_some] at h
      exact h ▸ List.mem_of_getElem? hw

theorem allocate_intact (hs : Intact s) (hno : lookup s ip = none)
    (h : VictimBufferBtb.allocate s ip target = some t) : Intact t := by
  obtain ⟨hnoBtb, hnoBuffer⟩ := lookup_eq_none hno
  obtain ⟨buffer, hbuffer, rfl⟩ := Option.map_eq_some_iff.mp h
  obtain ⟨kept, hkept, rfl⟩ := addToVictimBuffer_eq_some hbuffer
  let set := s.set ip
  let w := getLruEntry s.toState set
  have hkeptMem : ∀ j ∈ tags kept, j ∈ tags s.victimBuffer := by
    intro j hj
    obtain ⟨e, he, rfl⟩ := mem_tags.mp hj
    rcases hkept with rfl | rfl
    · exact hj
    · exact mem_tags.mpr ⟨e, List.mem_of_mem_tail he, rfl⟩
  have hkeptDistinct : Distinct 0 (tags kept) := by
    rcases hkept with rfl | rfl
    · exact hs.distinctBuffer
    · rw [tags, List.map_tail]
      exact hs.distinctBuffer.tail
  have hpushed : tags (kept ++ [⟨(s.entry set w).ipTag, (s.entry set w).target, true, 0⟩]) =
      tags kept ++ [(tags (s.btb set)).getD w 0] := by
    rw [tags, List.map_append, List.map_singleton, tag_entry]
    rfl
  -- a tag of a way is the new branch, or was there and is not the replaced one
  have hway : ∀ k, ∀ j ∈ tags ((BasicBtb.allocate s.toState ip target).btb k), j ≠ 0 →
      (j = ip ∧ k = set) ∨ (j ∈ tags (s.btb k) ∧ j ≠ (tags (s.btb set)).getD w 0) := by
    intro k j hj hne
    rw [tags_allocate] at hj
    split_ifs at hj with hk
    · subst hk
      rcases (hs.distinct _).mem_set hne hj with rfl | hold
      · exact .inl ⟨rfl, rfl⟩
      · exact .inr hold
    · refine .inr ⟨hj, ?_⟩
      intro heq
      have hmem := mem_of_mem_getD hne heq
      exact hk ((hs.placed k j hj hne).symm.trans (hs.placed set j hmem hne))
  refine ⟨?_, ?_, ?_, ?_⟩
  · intro k j hj hne
    rcases hway k j hj hne with ⟨rfl, rfl⟩ | ⟨hold, -⟩
    · rfl
    · exact hs.placed k j hold hne
  · intro k
    rw [tags_allocate]
    split_ifs with hk
    · subst hk
      exact (hs.distinct _).set hnoBtb w
    · exact hs.distinct k
  · change Distinct 0 (tags (kept ++ [⟨(s.entry set w).ipTag, (s.entry set w).target, true, 0⟩]))
    rw [hpushed]
    apply hkeptDistinct.snoc
    intro hmem
    by_contra hne
    exact hne (hs.disjoint set _ (mem_of_mem_getD hne rfl) (hkeptMem _ hmem))
  · intro k j hj hbuf
    change j ∈ tags (kept ++ [⟨(s.entry set w).ipTag, (s.entry set w).target, true, 0⟩]) at hbuf
    rw [hpushed, List.mem_append, List.mem_singleton] at hbuf
    by_contra hne
    rcases hway k j hj hne with ⟨rfl, -⟩ | ⟨hold, hother⟩
    · rcases hbuf with hbuf | hbuf
      · exact hnoBuffer (hkeptMem _ hbuf)
      · exact hnoBtb (mem_of_mem_getD hne hbuf)
    · rcases hbuf with hbuf | hbuf
      · exact hne (hs.disjoint k j hold (hkeptMem _ hbuf))
      · exact hother hbuf

/-- Making room for another branch changes no entry that stays in its place. -/
theorem allocate_keeps (hs : Intact s) (hno : lookup s ip = none) (hj : j ≠ 0)
    (h : VictimBufferBtb.allocate s ip target = some t) (hd : Holds s j p d) (he : Holds t j p e) : d = e := by
  obtain ⟨hnoBtb, hnoBuffer⟩ := lookup_eq_none hno
  have hne : j ≠ ip := by
    rintro rfl
    cases p with
    | btb => exact hnoBtb (mem_tags.mpr ⟨d, hd.2, hd.1⟩)
    | victimBuffer => exact hnoBuffer (mem_tags.mpr ⟨d, hd.2, hd.1⟩)
  obtain ⟨buffer, hbuffer, rfl⟩ := Option.map_eq_some_iff.mp h
  obtain ⟨kept, hkept, rfl⟩ := addToVictimBuffer_eq_some hbuffer
  apply hs.holds_unique hj hd
  refine ⟨he.1, ?_⟩
  cases p with
  | btb =>
      have hmem : e ∈ (BasicBtb.allocate s.toState ip target).btb (s.set j) := he.2
      rw [allocate_btb] at hmem
      by_cases hset : s.set j = s.set ip
      · rw [hset, Function.update_self] at hmem
        change e ∈ s.btb (s.set j)
        rw [hset]
        rcases BasicBtbLru.mem_modify hmem with hmem | ⟨c, -, rfl⟩
        · exact hmem
        · exact absurd he.1.symm hne
      · rw [Function.update_of_ne hset] at hmem
        exact hmem
  | victimBuffer =>
      have hmem : e ∈ kept ++ [⟨(s.entry (s.set ip) (getLruEntry s.toState (s.set ip))).ipTag,
        (s.entry (s.set ip) (getLruEntry s.toState (s.set ip))).target, true, 0⟩] := he.2
      rcases List.mem_append.mp hmem with hmem | hmem
      · rcases hkept with rfl | rfl
        · exact hmem
        · exact List.mem_of_mem_tail hmem
      · have htag := he.1
        rw [List.mem_singleton.mp hmem] at htag
        dsimp only at htag
        rw [tag_entry] at htag
        have hbtb := mem_of_mem_getD hj htag.symm
        exact absurd (hs.disjoint _ j hbtb (mem_tags.mpr ⟨d, hd.2, hd.1⟩)) hj

structure SameTables (s t : VictimBufferBtb.State) : Prop where
  index : t.index = s.index
  btb : t.btb = s.btb
  victimBuffer : t.victimBuffer = s.victimBuffer

theorem SameTables.rewrites (h : SameTables s t) : Rewrites s t := by
  refine ⟨h.index, ?_, ?_⟩
  · intro set
    rw [h.btb]
    exact .refl _
  · rw [h.victimBuffer]
    exact .refl _

theorem SameTables.refl (s : VictimBufferBtb.State) : SameTables s s := ⟨rfl, rfl, rfl⟩

theorem SameTables.holds (h : SameTables s t) : Holds t j p e ↔ Holds s j p e := by
  cases p with
  | btb => rw [Holds, Holds, State.set, h.btb, h.index, State.set]
  | victimBuffer => rw [Holds, Holds, h.victimBuffer]

inductive Effect (s : VictimBufferBtb.State) (ip : Nat) : VictimBufferBtb.State → Prop
  | rewrite {t : VictimBufferBtb.State} : Rewrites s t → Effect s ip t
  | allocate {r t : VictimBufferBtb.State} {target : Nat} : SameTables s r → lookup r ip = none →
      VictimBufferBtb.allocate r ip target = some t → Effect s ip t

variable {c : Call} {taken' : Bool} {ty : BranchType}

theorem updateBtb_eq (hty : ty.usesBtb = true) (s : VictimBufferBtb.State) (ip target : Nat) (taken' : Bool) :
    ∃ r q, SameTables s r ∧ SameTables s q ∧ q.ways = s.ways ∧ VictimBufferBtb.updateBtb s ip target taken' ty =
      match lookup s ip with
      | none => if target ≠ 0 ∧ taken' = true then VictimBufferBtb.allocate q ip target else some q
      | some found => some (VictimBufferBtb.updateExisting r ip found target taken') := by
  let r : VictimBufferBtb.State := { s with side := SideTables.update s.side ip target taken' ty }
  let q : VictimBufferBtb.State := { r with stream := (StreamBuffer.streamBufferUpdate s.stream ip).1 }
  refine ⟨r, q, ⟨rfl, rfl, rfl⟩, ⟨rfl, rfl, rfl⟩, rfl, ?_⟩
  rw [VictimBufferBtb.updateBtb]
  exact if_pos hty

inductive Did (s : VictimBufferBtb.State) (c : Call) : VictimBufferBtb.State → Prop
  | idle {t : VictimBufferBtb.State} : c.allocates = false → Rewrites s t → Did s c t
  | found {found : Found} {t : VictimBufferBtb.State} : lookup s c.ip = some found → Rewrites s t → Did s c t
  | allocate {q t : VictimBufferBtb.State} {target : Nat} : SameTables s q → q.ways = s.ways → c.allocates = true →
      lookup s c.ip = none → VictimBufferBtb.allocate q c.ip target = some t → Did s c t

theorem updateBtb_did (h : VictimBufferBtb.updateBtb s ip target taken' ty = some t) :
    Did s (.update ip target taken' ty) t := by
  by_cases hty : ty.usesBtb = true
  · obtain ⟨r, q, hr, hq, hways, heq⟩ := updateBtb_eq hty s ip target taken'
    rw [heq] at h
    cases hlook : lookup s ip with
    | none =>
        rw [hlook] at h
        dsimp only at h
        split_ifs at h with hc
        · exact .allocate hq hways (Call.update_allocates_iff.mpr ⟨hty, hc⟩) hlook h
        · rw [Option.some.injEq] at h
          exact h ▸ .idle (Call.update_idle hc) hq.rewrites
    | some found =>
        rw [hlook, Option.some.injEq] at h
        exact h ▸ .found hlook (hr.rewrites.trans (updateExisting_rewrites r ip found target taken'))
  · rw [VictimBufferBtb.updateBtb] at h
    have hnone := (if_neg hty).symm.trans h
    rw [Option.some.injEq] at hnone
    exact hnone ▸ .idle (Call.idle_of_type hty) ⟨rfl, fun _ => .refl _, .refl _⟩

theorem prefetchBtb_did {toStreamBuffer : Bool}
    (h : VictimBufferBtb.prefetchBtb s ip target ty taken' toStreamBuffer = some t) :
    Did s (.prefetch ip target ty taken' toStreamBuffer) t := by
  rw [VictimBufferBtb.prefetchBtb] at h
  by_cases hty : ty.usesBtb = true
  · rw [if_pos hty] at h
    cases hlook : lookup s ip with
    | none =>
        rw [hlook] at h
        dsimp only at h
        split_ifs at h with hc hstream
        -- an entry for the stream buffer allocates no way
        · obtain ⟨b, -, rfl⟩ := Option.map_eq_some_iff.mp h
          refine .idle ?_ ⟨rfl, fun _ => .refl _, .refl _⟩
          rw [hstream]
          exact Bool.eq_false_iff.mpr (fun ha => Bool.false_ne_true (Call.prefetch_allocates_iff.mp ha).2.2.symm)
        · have hallocates : (Call.prefetch ip target ty taken' toStreamBuffer).allocates = true :=
            Call.prefetch_allocates_iff.mpr ⟨hty, hc, Bool.eq_false_iff.mpr hstream⟩
          exact .allocate (.refl s) rfl hallocates hlook h
        · rw [Option.some.injEq] at h
          exact h ▸ .idle (Call.prefetch_idle hc) (SameTables.refl s).rewrites
    | some found =>
        rw [hlook] at h
        dsimp only at h
        rw [Option.some.injEq] at h
        exact h ▸ .found hlook ((touch_rewrites s ip found).trans (updateExisting_rewrites _ ip found target taken'))
  · rw [if_neg hty, Option.some.injEq] at h
    exact h ▸ .idle (Call.idle_of_type hty) (SameTables.refl s).rewrites

theorem btbPrediction_rewrites (s : VictimBufferBtb.State) (ip : Nat) (ty : BranchType) :
    Rewrites s (VictimBufferBtb.btbPrediction s ip ty).1 := by
  rw [VictimBufferBtb.btbPrediction]
  split
  · exact ⟨rfl, fun _ => .refl _, .refl _⟩
  · rename_i side heq
    let r : VictimBufferBtb.State := { s with side := side }
    have hr : Rewrites s r := ⟨rfl, fun _ => .refl _, .refl _⟩
    dsimp only
    split
    · exact hr
    · rename_i way hlook
      exact hr.trans (touch_rewrites r ip (.btb way))
    · exact hr

theorem step_did (h : VictimBufferBtb.step s c = some t) : Did s c t := by
  cases c with
  | predict ip ty =>
      rw [VictimBufferBtb.step, Option.some.injEq] at h
      exact h ▸ .idle rfl (btbPrediction_rewrites s ip ty)
  | update ip target taken ty => exact updateBtb_did h
  | prefetch ip target ty taken toStreamBuffer => exact prefetchBtb_did h

theorem step_effect (h : VictimBufferBtb.step s c = some t) : Effect s c.ip t := by
  cases step_did h with
  | idle _ hr => exact .rewrite hr
  | found _ hr => exact .rewrite hr
  | allocate hq _ _ hno hall =>
      refine .allocate hq ?_ hall
      rw [← hno, lookup, lookup, findEntry, findEntry, State.set, State.set, hq.btb, hq.index, hq.victimBuffer]

theorem Effect.intact (h : Effect s ip t) (hs : Intact s) : Intact t := by
  cases h with
  | rewrite hr => exact hr.intact hs
  | allocate hr hno hall => exact allocate_intact (hr.rewrites.intact hs) hno hall

theorem Effect.keeps (h : Effect s ip t) (hs : Intact s) (hj : j ≠ 0) (hd : Holds s j p d) (he : Holds t j p e)
    (ht : e.alwaysTaken = true) : d.alwaysTaken = true := by
  cases h with
  | rewrite hr => exact hr.keeps hs hj hd he ht
  | allocate hr hno hall =>
      rw [allocate_keeps (hr.rewrites.intact hs) hno hj hall (hr.holds.mpr hd) he]
      exact ht

theorem initializeBtb_intact (ways : Nat) : Intact (VictimBufferBtb.initializeBtb ways) := by
  have hblank : ∀ set, tags ((VictimBufferBtb.initializeBtb ways).btb set) = List.replicate ways 0 :=
    fun _ => List.map_replicate
  refine ⟨?_, ?_, ?_, ?_⟩
  · intro set ip hip hne
    rw [hblank] at hip
    exact absurd (List.eq_of_mem_replicate hip) hne
  · intro set
    rw [hblank]
    exact distinct_replicate ways
  · exact distinct_nil
  · intro set ip _ hbuf
    cases hbuf

theorem eq_of_mem_modify (h : Distinct 0 (tags es)) (hd : es[w]? = some d) (hne : d.ipTag ≠ 0)
    (he : e ∈ es.modify w f) (het : e.ipTag = d.ipTag) : e = f d := by
  obtain ⟨k, hk⟩ := List.getElem?_of_mem he
  rw [List.getElem?_modify] at hk
  obtain ⟨c, hc, rfl⟩ := Option.map_eq_some_iff.mp hk
  split_ifs at het ⊢ with hwk
  · subst hwk
    rw [hd, Option.some.injEq] at hc
    rw [hc]
  · refine absurd (h w k d.ipTag hne ?_ ?_) hwk
    · rw [tags, List.getElem?_map, hd, Option.map_some]
    · rw [tags, List.getElem?_map, hc, Option.map_some, het]

/-- A not taken outcome clears the flag of the branch, wherever it is. -/
theorem updateBtb_notTaken (hs : Intact s) (hip : ip ≠ 0) (hty : ty.usesBtb = true)
    (h : VictimBufferBtb.updateBtb s ip target false ty = some t) (hp : taken.place t ip = some p) :
    taken.reports t ip = false := by
  obtain ⟨e, he, hrep⟩ := exists_holds hp
  obtain ⟨r, q, hr, hq, -, heq⟩ := updateBtb_eq hty s ip target false
  rw [hrep]
  rw [heq] at h
  cases hlook : lookup s ip with
  | none =>
      rw [hlook] at h
      dsimp only at h
      rw [if_neg (by simp), Option.some.injEq] at h
      subst h
      obtain ⟨hnoBtb, hnoBuffer⟩ := lookup_eq_none hlook
      have hwas := hq.holds.mp he
      cases p with
      | btb => exact absurd (mem_tags.mpr ⟨e, hwas.2, hwas.1⟩) hnoBtb
      | victimBuffer => exact absurd (mem_tags.mpr ⟨e, hwas.2, hwas.1⟩) hnoBuffer
  | some found =>
      rw [hlook, Option.some.injEq] at h
      subst h
      have hri : Intact r := hr.rewrites.intact hs
      have hlook' : lookup r ip = some found := by
        rw [← hlook, lookup, lookup, findEntry, findEntry, State.set, State.set, hr.btb, hr.index, hr.victimBuffer]
      obtain ⟨d, ⟨hdtag, hdmem⟩, hget⟩ := lookup_eq_some hlook'
      have hdne : d.ipTag ≠ 0 := hdtag ▸ hip
      obtain ⟨hetag, hemem⟩ := he
      have het : e.ipTag = d.ipTag := hetag.trans hdtag.symm
      cases found with
      | btb way =>
          cases p with
          | btb =>
              have hmem : e ∈ Function.update r.btb (r.set ip) ((r.btb (r.set ip)).modify way (observe target false))
                  (r.set ip) := hemem
              rw [Function.update_self] at hmem
              rw [eq_of_mem_modify (hri.distinct _) hget hdne hmem het]
              rfl
          | victimBuffer =>
              have hzero := hri.disjoint _ ip (mem_tags.mpr ⟨d, hdmem, hdtag⟩) (mem_tags.mpr ⟨e, hemem, hetag⟩)
              exact absurd hzero hip
      | victimBuffer i =>
          cases p with
          | btb =>
              have hzero := hri.disjoint _ ip (mem_tags.mpr ⟨e, hemem, hetag⟩) (mem_tags.mpr ⟨d, hdmem, hdtag⟩)
              exact absurd hzero hip
          | victimBuffer =>
              have hmem : e ∈ r.victimBuffer.modify i (observe target false) := hemem
              rw [eq_of_mem_modify hri.distinctBuffer hget hdne hmem het]
              rfl

theorem sound (ways : Nat) (hip : ip ≠ 0) : taken.Sound (VictimBufferBtb.initializeBtb ways) ip := by
  apply Module.sound_of (I := Intact) (initializeBtb_intact ways)
  · intro s c t hs hstep
    exact (step_effect hstep).intact hs
  · intro s c t p hs hstep hc hp
    cases c with
    | predict ip' ty => cases hc
    | prefetch ip' target ty taken toStreamBuffer => cases hc
    | update ip' target taken' ty =>
        obtain ⟨rfl, rfl, hty⟩ := hc
        exact updateBtb_notTaken hs hip hty hstep hp
  · intro s c t p hs hstep hp hp' ht
    obtain ⟨d, hd, hrep⟩ := exists_holds hp
    obtain ⟨e, he, hrep'⟩ := exists_holds hp'
    rw [hrep'] at ht
    rw [hrep]
    exact (step_effect hstep).keeps hs hip hd he ht

/-- The module never fails its assertions. -/
structure Bounded (s : VictimBufferBtb.State) : Prop where
  victimBuffer : s.victimBuffer.length ≤ victimBufferSize
  stream : StreamBuffer.Bounded s.stream

theorem addToVictimBuffer_bounded (h : es.length ≤ victimBufferSize) (e : Entry) :
    ∃ es', addToVictimBuffer es e = some es' ∧ es'.length ≤ victimBufferSize := by
  have hroom : (if victimBufferSize ≤ es.length then es.tail else es).length < victimBufferSize := by
    split_ifs with hfull
    · rw [List.length_tail]
      have hpos : 0 < victimBufferSize := by decide
      omega
    · omega
  refine ⟨_, if_pos hroom, ?_⟩
  rw [List.length_append]
  exact hroom

theorem allocate_bounded (h : Bounded s) (ip target : Nat) :
    ∃ t, VictimBufferBtb.allocate s ip target = some t ∧ Bounded t := by
  obtain ⟨es, hes, hlen⟩ := addToVictimBuffer_bounded h.victimBuffer
    (s.entry (s.set ip) (getLruEntry s.toState (s.set ip)))
  exact ⟨⟨BasicBtb.allocate s.toState ip target, es⟩, by rw [VictimBufferBtb.allocate, hes]; rfl, hlen, h.stream⟩

theorem updateExisting_bounded (h : Bounded s) (ip : Nat) (found : Found) (target : Nat) (taken : Bool) :
    Bounded (VictimBufferBtb.updateExisting s ip found target taken) := by
  cases found with
  | btb way => exact ⟨h.victimBuffer, h.stream⟩
  | victimBuffer i => exact ⟨by rw [VictimBufferBtb.updateExisting, List.length_modify]; exact h.victimBuffer, h.stream⟩

theorem touch_bounded (h : Bounded s) (ip : Nat) (found : Found) : Bounded (touch s ip found) := by
  cases found with
  | btb way => exact ⟨h.victimBuffer, h.stream⟩
  | victimBuffer i => exact h

theorem btbPrediction_bounded (h : Bounded s) (ip : Nat) (ty : BranchType) :
    Bounded (VictimBufferBtb.btbPrediction s ip ty).1 := by
  rw [VictimBufferBtb.btbPrediction]
  split
  · exact ⟨h.victimBuffer, h.stream⟩
  · dsimp only
    split <;> exact ⟨h.victimBuffer, h.stream⟩

theorem updateBtb_bounded (h : Bounded s) (ip target : Nat) (taken' : Bool) (ty : BranchType) :
    ∃ t, VictimBufferBtb.updateBtb s ip target taken' ty = some t ∧ Bounded t := by
  let r : VictimBufferBtb.State := { s with side := SideTables.update s.side ip target taken' ty }
  let q : VictimBufferBtb.State := { r with stream := (StreamBuffer.streamBufferUpdate s.stream ip).1 }
  have hr : Bounded r := ⟨h.victimBuffer, h.stream⟩
  have hq : Bounded q := ⟨h.victimBuffer, StreamBuffer.update_bounded h.stream ip⟩
  by_cases hty : ty.usesBtb = true
  · have heq : VictimBufferBtb.updateBtb s ip target taken' ty =
        match lookup s ip with
        | none => if target ≠ 0 ∧ taken' = true then VictimBufferBtb.allocate q ip target else some q
        | some found => some (VictimBufferBtb.updateExisting r ip found target taken') := if_pos hty
    rw [heq]
    cases lookup s ip with
    | none =>
        dsimp only
        split_ifs
        · exact allocate_bounded hq ip target
        · exact ⟨q, rfl, hq⟩
    | some found => exact ⟨_, rfl, updateExisting_bounded hr ip found target taken'⟩
  · exact ⟨r, if_neg hty, hr⟩

theorem prefetchBtb_bounded (h : Bounded s) (ip target : Nat) (ty : BranchType) (taken' toStreamBuffer : Bool) :
    ∃ t, VictimBufferBtb.prefetchBtb s ip target ty taken' toStreamBuffer = some t ∧ Bounded t := by
  rw [VictimBufferBtb.prefetchBtb]
  by_cases hty : ty.usesBtb = true
  · rw [if_pos hty]
    cases lookup s ip with
    | none =>
        dsimp only
        split_ifs with ht
        · obtain ⟨b, hb, hbounded⟩ := StreamBuffer.prefetch_bounded h.stream ip ht.1
          exact ⟨{ s with stream := b }, by rw [hb]; rfl, h.victimBuffer, hbounded⟩
        · exact allocate_bounded h ip target
        · exact ⟨s, rfl, h⟩
    | some found => exact ⟨_, rfl, updateExisting_bounded (touch_bounded h ip found) ip found target taken'⟩
  · exact ⟨s, if_neg hty, h⟩

theorem run_bounded (ways : Nat) (cs : List Call) :
    ∃ s, run VictimBufferBtb.step (VictimBufferBtb.initializeBtb ways) cs = some s ∧ Bounded s := by
  apply run_total (I := Bounded)
  · intro s c _ h
    cases c with
    | predict ip ty => exact ⟨_, rfl, btbPrediction_bounded h ip ty⟩
    | update ip target taken' ty => exact updateBtb_bounded h ip target taken' ty
    | prefetch ip target ty taken' toStreamBuffer => exact prefetchBtb_bounded h ip target ty taken' toStreamBuffer
  · exact ⟨Nat.zero_le _, StreamBuffer.bounded_empty (by decide)⟩

end Thermometer.VictimBufferTaken

import Thermometer.Lib.Recency
import Thermometer.BasicBtb

namespace Thermometer.BasicBtbLru

open Trace BasicBtb Lib.Scan Lib.Runs Lib.Recency

abbrev Ref := Nat → Lines (Nat × Bool)

def line (e : Entry) : Nat × (Nat × Bool) := (e.ipTag, (e.target, e.alwaysTaken))

def outcome (branchTarget : Nat) (taken : Bool) (p : Nat × Bool) : Nat × Bool :=
  if taken then (branchTarget, p.2) else (p.1, false)

/-- The reference cache: prediction hits, prefetch hits and insertions are uses,
and a taken miss drops the line of oldest use when the set has no free way. -/
def refStep (index : Nat → Nat) (ways : Nat) (r : Ref) : Call → Ref
  | .predict ip ty =>
      let i := index ip
      if ty.usesBtb ∧ ip ∈ keys (r i) then Function.update r i (touch ip (r i)) else r
  | .update ip target taken ty =>
      let i := index ip
      if ty.usesBtb then
        if ip ∈ keys (r i) then Function.update r i (write ip (outcome target taken) (r i))
        else if target ≠ 0 ∧ taken then Function.update r i (fill ways ip (target, true) (r i)) else r
      else r
  | .prefetch ip target ty taken toStreamBuffer =>
      let i := index ip
      if ty.usesBtb then
        if ip ∈ keys (r i) then
          Function.update r i (write ip (outcome target taken) (touch ip (r i)))
        else if target ≠ 0 ∧ taken ∧ ¬toStreamBuffer then
          Function.update r i (fill ways ip (target, true) (r i))
        else r
      else r

def refRun (index : Nat → Nat) (ways : Nat) (cs : List Call) : Ref := cs.foldl (refStep index ways) (fun _ => [])

def residents (s : State) (i : Nat) : Lines (Nat × Bool) := ((s.btb i).filter Entry.valid).map line

def Agrees (s : State) (r : Ref) : Prop := ∀ i, (residents s i).Perm (r i)

structure SetRep (counter : Nat) (es : List Entry) (l : Lines (Nat × Bool)) : Prop where
  sorted : ∃ order, ByStamp Entry.lru (es.filter Entry.valid) order ∧ l = order.map line
  nodup : (keys l).Nodup
  stamped : ∀ e ∈ es, e.valid = true → e.lru < counter
  blank : ∀ e ∈ es, e.valid = false → e.lru = 0

def Ready (es : List Entry) : Prop := ∀ e ∈ es, e.valid = true → 0 < e.lru

variable {counter : Nat} {pre post es : List Entry} {e n : Entry} {l : Lines (Nat × Bool)}

theorem SetRep.perm (h : SetRep counter es l) : ((es.filter Entry.valid).map line).Perm l := by
  obtain ⟨order, ho, rfl⟩ := h.sorted
  exact ho.1.symm.map line

theorem SetRep.mem_keys (h : SetRep counter es l) (ip : Nat) :
    ip ∈ keys l ↔ ∃ e ∈ es, e.valid = true ∧ e.ipTag = ip := by
  rw [keys, (h.perm.map Prod.fst).mem_iff.symm]
  simp [line, and_assoc]

theorem SetRep.length (h : SetRep counter es l) : l.length = (es.filter Entry.valid).length := by
  rw [← h.perm.length_eq, List.length_map]

theorem SetRep.grow (h : SetRep counter es l) {c : Nat} (hc : counter ≤ c) : SetRep c es l :=
  ⟨h.sorted, h.nodup, fun e he hv => Nat.lt_of_lt_of_le (h.stamped e he hv) hc, h.blank⟩

theorem filter_middle (hv : e.valid = true) :
    ((pre ++ e :: post).filter Entry.valid).Perm (e :: (pre ++ post).filter Entry.valid) := by
  rw [List.filter_append, List.filter_cons_of_pos hv, List.filter_append]
  exact List.perm_middle

theorem filter_middle_invalid (hv : e.valid = false) :
    (pre ++ e :: post).filter Entry.valid = (pre ++ post).filter Entry.valid := by
  rw [List.filter_append, List.filter_cons_of_neg (by simp [hv]), List.filter_append]

theorem SetRep.split (h : SetRep counter (pre ++ e :: post) l) (hv : e.valid = true) :
    ∃ l₁ l₂, ByStamp Entry.lru (e :: (pre ++ post).filter Entry.valid) (l₁ ++ e :: l₂) ∧
      ByStamp Entry.lru ((pre ++ post).filter Entry.valid) (l₁ ++ l₂) ∧
      l = l₁.map line ++ line e :: l₂.map line ∧ e.ipTag ∉ keys (l₁.map line ++ l₂.map line) := by
  obtain ⟨order, ho, rfl⟩ := h.sorted
  have ho := ho.perm (filter_middle hv)
  obtain ⟨l₁, l₂, rfl, hl⟩ := ho.split
  refine ⟨l₁, l₂, ho, hl, by simp, ?_⟩
  have hn : (line e :: (l₁.map line ++ l₂.map line)).map Prod.fst |>.Nodup := by
    have hp : (line e :: (l₁.map line ++ l₂.map line)).Perm ((l₁ ++ e :: l₂).map line) := by
      rw [List.map_append, List.map_cons]
      exact List.perm_middle.symm
    exact (hp.map Prod.fst).nodup_iff.mpr h.nodup
  rw [List.map_cons, List.nodup_cons] at hn
  exact hn.1

theorem SetRep.others (h : SetRep counter (pre ++ e :: post) l) :
    (∀ a ∈ pre ++ post, a.valid = true → a.lru < counter) ∧
      ∀ a ∈ pre ++ post, a.valid = false → a.lru = 0 := by
  have hsub : ∀ a ∈ pre ++ post, a ∈ pre ++ e :: post := by
    intro a ha
    rw [List.mem_append, List.mem_cons]
    rcases List.mem_append.mp ha with ha | ha
    · exact .inl ha
    · exact .inr (.inr ha)
  exact ⟨fun a ha => h.stamped a (hsub a ha), fun a ha => h.blank a (hsub a ha)⟩

theorem mem_middle {a : Entry} : a ∈ pre ++ n :: post ↔ a = n ∨ a ∈ pre ++ post := by
  simp only [List.mem_append, List.mem_cons]
  tauto

theorem setRep_middle {order : List Entry} (hn : n.valid = true)
    (ho : ByStamp Entry.lru (n :: (pre ++ post).filter Entry.valid) order)
    (hnodup : (keys (order.map line)).Nodup) (hlt : n.lru < counter)
    (hstamped : ∀ a ∈ pre ++ post, a.valid = true → a.lru < counter)
    (hblank : ∀ a ∈ pre ++ post, a.valid = false → a.lru = 0) :
    SetRep counter (pre ++ n :: post) (order.map line) := by
  refine ⟨⟨order, ho.perm (filter_middle hn).symm, rfl⟩, hnodup, ?_, ?_⟩
  · intro a ha hv
    rcases mem_middle.mp ha with rfl | ha
    · exact hlt
    · exact hstamped a ha hv
  · intro a ha hv
    rcases mem_middle.mp ha with rfl | ha
    · rw [hn] at hv
      cases hv
    · exact hblank a ha hv

theorem nodup_snoc {l : Lines (Nat × Bool)} {a : Nat × (Nat × Bool)} (h : (keys l).Nodup)
    (ha : a.1 ∉ keys l) : (keys (l ++ [a])).Nodup := by
  rw [keys, List.map_append, List.nodup_append]
  refine ⟨h, by simp, ?_⟩
  rintro b hb c hc rfl
  rw [List.map_singleton, List.mem_singleton] at hc
  exact ha (hc ▸ hb)

theorem SetRep.touch (h : SetRep counter (pre ++ e :: post) l) (hv : e.valid = true) :
    SetRep (counter + 1) (pre ++ { e with lru := counter } :: post) (touch e.ipTag l) := by
  obtain ⟨l₁, l₂, -, hl, rfl, hk⟩ := h.split hv
  have hn : Entry.valid { e with lru := counter } = true := hv
  rw [show line e = (e.ipTag, (line e).2) from rfl, touch_split hk]
  have hnew := hl.snoc (e := { e with lru := counter }) (fun a ha =>
    (h.others).1 a (List.mem_filter.mp ha).1 (List.mem_filter.mp ha).2)
  have hmap : l₁.map line ++ l₂.map line ++ [(e.ipTag, (line e).2)] =
      (l₁ ++ l₂ ++ [{ e with lru := counter }]).map line := by simp [line]
  rw [hmap]
  refine setRep_middle hn hnew ?_ (Nat.lt_succ_self _)
    (fun a ha hv => Nat.lt_succ_of_lt (h.others.1 a ha hv)) h.others.2
  rw [← hmap]
  refine nodup_snoc ?_ hk
  have hnd := h.nodup
  rw [keys, List.map_append, List.map_cons] at hnd
  rw [keys, List.map_append]
  exact (List.nodup_cons.mp (List.perm_middle.nodup_iff.mp hnd)).2

theorem SetRep.write (h : SetRep counter (pre ++ e :: post) l) (hv : e.valid = true)
    {f : Nat × Bool → Nat × Bool} (htag : n.ipTag = e.ipTag) (hlru : n.lru = e.lru)
    (hline : (n.target, n.alwaysTaken) = f (e.target, e.alwaysTaken)) :
    SetRep counter (pre ++ n :: post) (write e.ipTag f l) := by
  obtain ⟨l₁, l₂, ho, -, rfl, hk⟩ := h.split hv
  have hn : n.valid = true := by rw [Entry.valid, htag]; exact hv
  rw [show line e = (e.ipTag, (e.target, e.alwaysTaken)) from rfl, write_split f hk, ← hline, ← htag]
  have hmap : l₁.map line ++ (n.ipTag, (n.target, n.alwaysTaken)) :: l₂.map line =
      (l₁ ++ n :: l₂).map line := by simp [line]
  rw [hmap]
  refine setRep_middle hn (ho.replace hlru) ?_ ?_ h.others.1 h.others.2
  · have hnd := h.nodup
    rw [keys] at hnd ⊢
    simpa [line, htag] using hnd
  · rw [hlru]
    exact h.stamped e (by simp) hv

theorem SetRep.fillFree (h : SetRep counter (pre ++ e :: post) l) (hv : e.valid = false)
    (hn : n.valid = true) (hlru : n.lru = counter) (hk : n.ipTag ∉ keys l) :
    SetRep (counter + 1) (pre ++ n :: post) (l ++ [line n]) := by
  obtain ⟨order, ho, rfl⟩ := h.sorted
  rw [filter_middle_invalid hv] at ho
  have hnew := ho.snoc (e := n) (fun a ha =>
    hlru ▸ h.others.1 a (List.mem_filter.mp ha).1 (List.mem_filter.mp ha).2)
  have hmap : order.map line ++ [line n] = (order ++ [n]).map line := by simp
  rw [hmap]
  refine setRep_middle hn hnew ?_ (by omega)
    (fun a ha hv => Nat.lt_succ_of_lt (h.others.1 a ha hv)) h.others.2
  rw [← hmap]
  exact nodup_snoc h.nodup hk

theorem SetRep.fillEvict (h : SetRep counter (pre ++ e :: post) l) (hv : e.valid = true)
    (hmin : ∀ a ∈ pre ++ post, e.lru ≤ a.lru) (hn : n.valid = true) (hlru : n.lru = counter)
    (hk : n.ipTag ∉ keys l) : SetRep (counter + 1) (pre ++ n :: post) (l.tail ++ [line n]) := by
  obtain ⟨order, ho, rfl⟩ := h.sorted
  obtain ⟨rest, rfl, hr⟩ := (ho.perm (filter_middle hv)).head
    (fun a ha => hmin a (List.mem_filter.mp ha).1)
  have hnew := hr.snoc (e := n) (fun a ha =>
    hlru ▸ h.others.1 a (List.mem_filter.mp ha).1 (List.mem_filter.mp ha).2)
  have hmap : ((e :: rest).map line).tail ++ [line n] = (rest ++ [n]).map line := by simp
  rw [hmap]
  refine setRep_middle hn hnew ?_ (by omega)
    (fun a ha hv => Nat.lt_succ_of_lt (h.others.1 a ha hv)) h.others.2
  rw [← hmap]
  have hnd := h.nodup
  rw [keys, List.map_cons, List.map_cons, List.nodup_cons] at hnd
  refine nodup_snoc hnd.2 (fun hm => hk ?_)
  rw [keys, List.map_cons, List.map_cons]
  exact List.mem_cons_of_mem _ hm

theorem split_at {way : Nat} (h : way < es.length) :
    ∃ pre e post, es = pre ++ e :: post ∧ es.getD way .invalid = e ∧
      ∀ f, es.modify way f = pre ++ f e :: post := by
  refine ⟨es.take way, es[way], es.drop (way + 1), ?_, ?_, ?_⟩
  · rw [← List.drop_eq_getElem_cons h, List.take_append_drop]
  · simp [List.getD_eq_getElem?_getD, List.getElem?_eq_getElem h]
  · intro f
    rw [List.modify_eq_take_cons_drop h]

structure Rep (s : State) (r : Ref) : Prop where
  ways : ∀ i, (s.btb i).length = s.ways
  rep : ∀ i, SetRep s.lruCounter (s.btb i) (r i)

theorem Rep.agrees {s : State} {r : Ref} (h : Rep s r) : Agrees s r := fun i => (h.rep i).perm

variable {s : State} {r : Ref} {ip : Nat}

theorem findEntry_none (h : Rep s r) (hip : ip ≠ 0) :
    findEntry s ip = none ↔ ip ∉ keys (r (s.set ip)) := by
  rw [findEntry, List.findIdx?_eq_none_iff, (h.rep _).mem_keys]
  constructor
  · rintro hall ⟨e, he, -, rfl⟩
    simpa using hall e he
  · intro hno e he
    by_contra hc
    have htag : e.ipTag = ip := by simpa using hc
    exact hno ⟨e, he, by simp [Entry.valid, htag, hip], htag⟩

theorem findEntry_some (hip : ip ≠ 0) {way : Nat} (hf : findEntry s ip = some way) :
    ∃ pre e post, s.btb (s.set ip) = pre ++ e :: post ∧ s.entry (s.set ip) way = e ∧ e.ipTag = ip ∧
      e.valid = true ∧ ∀ f, (s.btb (s.set ip)).modify way f = pre ++ f e :: post := by
  rw [findEntry, List.findIdx?_eq_some_iff_getElem] at hf
  obtain ⟨hlt, htag, -⟩ := hf
  obtain ⟨pre, e, post, hes, hget, hmod⟩ := split_at hlt
  have hte : e.ipTag = ip := by
    rw [← hget, List.getD_eq_getElem?_getD, List.getElem?_eq_getElem hlt]
    simpa using htag
  exact ⟨pre, e, post, hes, hget, hte, by simp [Entry.valid, hte, hip], hmod⟩

theorem mem_keys_of_findEntry (h : Rep s r) (hip : ip ≠ 0) {way : Nat}
    (hf : findEntry s ip = some way) : ip ∈ keys (r (s.set ip)) := by
  by_contra hc
  rw [(findEntry_none h hip).mpr hc] at hf
  cases hf

theorem rep_update {s' : State} (h : Rep s r) {i : Nat} {es : List Entry} {l : Lines (Nat × Bool)}
    (hways : s'.ways = s.ways) (hbtb : s'.btb = Function.update s.btb i es)
    (hlen : es.length = s.ways) (hc : s.lruCounter ≤ s'.lruCounter)
    (hes : SetRep s'.lruCounter es l) : Rep s' (Function.update r i l) := by
  constructor
  · intro j
    rw [hbtb, hways]
    by_cases hj : j = i
    · subst hj; rw [Function.update_self, hlen]
    · rw [Function.update_of_ne hj, h.ways]
  · intro j
    rw [hbtb]
    by_cases hj : j = i
    · subst hj; rw [Function.update_self, Function.update_self]; exact hes
    · rw [Function.update_of_ne hj, Function.update_of_ne hj]; exact (h.rep j).grow hc

theorem updateLru_btb (s : State) (i way : Nat) :
    (updateLru s i way).btb =
      Function.update s.btb i ((s.btb i).modify way (fun e => { e with lru := s.lruCounter })) := rfl

theorem updateLru_rep (h : Rep s r) (hip : ip ≠ 0) {way : Nat} (hf : findEntry s ip = some way) :
    Rep (updateLru s (s.set ip) way) (Function.update r (s.set ip) (touch ip (r (s.set ip)))) := by
  obtain ⟨pre, e, post, hes, -, rfl, hv, hmod⟩ := findEntry_some hip hf
  have hrep := h.rep (s.set e.ipTag)
  refine rep_update h rfl (updateLru_btb s _ _) (by rw [List.length_modify, h.ways]) (Nat.le_succ _) ?_
  rw [hmod]
  rw [hes] at hrep
  exact hrep.touch hv

theorem updateExisting_rep (h : Rep s r) (hip : ip ≠ 0) {way : Nat} (hf : findEntry s ip = some way)
    (branchTarget : Nat) (taken : Bool) :
    Rep (updateExisting s (s.set ip) way branchTarget taken)
      (Function.update r (s.set ip) (write ip (outcome branchTarget taken) (r (s.set ip)))) := by
  obtain ⟨pre, e, post, hes, -, rfl, hv, hmod⟩ := findEntry_some hip hf
  have hrep := h.rep (s.set e.ipTag)
  refine rep_update h rfl rfl (by rw [List.length_modify, h.ways]) (Nat.le_refl _) ?_
  rw [hmod]
  rw [hes] at hrep
  refine hrep.write hv ?_ ?_ ?_ <;> cases taken <;> rfl

theorem getLruEntry_lt (hw : 0 < s.ways) (i : Nat) : getLruEntry s i < s.ways := firstMin_lt _ hw

theorem getLruEntry_le {i : Nat} (hlen : (s.btb i).length = s.ways) {a : Entry} (ha : a ∈ s.btb i) :
    (s.entry i (getLruEntry s i)).lru ≤ a.lru := by
  obtain ⟨j, hj, rfl⟩ := List.getElem_of_mem ha
  have hle := firstMin_le (fun k => (s.entry i k).lru) (n := s.ways) (i := j) (by omega)
  have hget : s.entry i j = (s.btb i)[j] := by
    rw [State.entry, List.getD_eq_getElem?_getD, List.getElem?_eq_getElem hj, Option.getD_some]
  rw [← hget]
  exact hle

theorem mem_modify {es : List Entry} {way : Nat} {f : Entry → Entry} {a : Entry}
    (h : a ∈ es.modify way f) : a ∈ es ∨ ∃ b ∈ es, a = f b := by
  by_cases hw : way < es.length
  · obtain ⟨pre, e, post, rfl, -, hmod⟩ := split_at hw
    rw [hmod, mem_middle] at h
    rcases h with rfl | h
    · exact .inr ⟨e, by simp, rfl⟩
    · exact .inl (mem_middle.mpr (.inr h))
  · rw [List.modify_eq_self (by omega)] at h
    exact .inl h

/-- Filling a set whose blank ways, if any, hold the least stamps. -/
theorem allocate_rep (h : Rep s r) (hw : 0 < s.ways) (hip : ip ≠ 0) (hf : findEntry s ip = none)
    (hsel : (∀ e ∈ s.btb (s.set ip), e.valid = true) ∨ Ready (s.btb (s.set ip))) (branchTarget : Nat) :
    Rep (allocate s ip branchTarget)
      (Function.update r (s.set ip) (fill s.ways ip (branchTarget, true) (r (s.set ip)))) := by
  have hlt : getLruEntry s (s.set ip) < (s.btb (s.set ip)).length := by
    rw [h.ways]
    exact getLruEntry_lt hw _
  obtain ⟨pre, e, post, hes, hget, hmod⟩ := split_at hlt
  have hmin : ∀ a ∈ s.btb (s.set ip), e.lru ≤ a.lru := by
    intro a ha
    rw [← hget]
    exact getLruEntry_le (h.ways _) ha
  have hrep := h.rep (s.set ip)
  have hk := (findEntry_none h hip).mp hf
  have hlen := hrep.length
  have hways := h.ways (s.set ip)
  let n : Entry := ⟨ip, branchTarget, true, s.lruCounter⟩
  have hn : n.valid = true := by simp [Entry.valid, n, hip]
  refine @rep_update s r _ h (s.set ip) (pre ++ n :: post) _ rfl ?_ ?_ (Nat.le_succ _) ?_
  · simp only [allocate, updateLru_btb, State.modify, Function.update_self, Function.update_idem,
      List.modify_modify_eq]
    rw [hmod]
    rfl
  · rw [hes] at hways
    simpa using hways
  rw [hes] at hrep hsel hmin hlen hways
  cases hv : e.valid with
  | false =>
      have hfree : (r (s.set ip)).length < s.ways := by
        rw [hlen, ← hways]
        exact List.length_filter_lt_length_iff_exists.mpr ⟨e, by simp, by simp [hv]⟩
      rw [fill, if_pos hfree]
      exact hrep.fillFree hv hn rfl hk
  | true =>
      have hall : ∀ a ∈ pre ++ e :: post, a.valid = true := by
        rcases hsel with hsel | hready
        · exact hsel
        · intro a ha
          by_contra hc
          have h0 := hrep.blank a ha (by simpa using hc)
          have h1 := hready e (by simp) hv
          have h2 := hmin a ha
          omega
      have hfull : ¬(r (s.set ip)).length < s.ways := by
        rw [hlen, List.filter_eq_self.mpr hall, hways]
        omega
      rw [fill, if_neg hfull]
      exact hrep.fillEvict hv (fun a ha => hmin a (mem_middle.mpr (.inr ha))) hn rfl hk

structure SameTable (s t : State) : Prop where
  index : t.index = s.index
  ways : t.ways = s.ways
  btb : t.btb = s.btb
  lruCounter : t.lruCounter = s.lruCounter

theorem SameTable.rep {t : State} (h : SameTable s t) (hr : Rep s r) : Rep t r :=
  ⟨fun i => by rw [h.btb, h.ways]; exact hr.ways i, fun i => by rw [h.btb, h.lruCounter]; exact hr.rep i⟩

theorem SameTable.set {t : State} (h : SameTable s t) (ip : Nat) : t.set ip = s.set ip := by
  rw [State.set, State.set, h.index]

theorem SameTable.findEntry {t : State} (h : SameTable s t) (ip : Nat) : findEntry t ip = findEntry s ip := by
  rw [BasicBtb.findEntry, BasicBtb.findEntry, h.btb, h.set]

def hit (s : State) (way : Nat) : Call → State
  | .predict ip _ => updateLru s (s.set ip) way
  | .update ip target taken _ => updateExisting s (s.set ip) way target taken
  | .prefetch ip target _ taken _ =>
      updateExisting (updateLru s (s.set ip) way) (s.set ip) way target taken

def Idle (s : State) (c : Call) : Prop :=
  c.branchType.usesBtb = false ∨ findEntry s c.ip = none ∧ c.allocates = false

def Acts (s : State) (c : Call) : Prop :=
  ∃ t, SameTable s t ∧ StreamBuffer.Bounded t.stream ∧
    (Idle s c ∧ step s c = some t ∨
      (∃ way, c.branchType.usesBtb = true ∧ findEntry s c.ip = some way ∧ step s c = some (hit t way c)) ∨
      c.allocates = true ∧ findEntry s c.ip = none ∧ step s c = some (allocate t c.ip c.branchTarget))

theorem predict_acts (hb : StreamBuffer.Bounded s.stream) (ip : Nat) (ty : BranchType) : Acts s (.predict ip ty) := by
  cases hp : SideTables.predict s.side ip ty with
  | mk side o =>
      have hty := SideTables.predict_none_iff s.side ip ty
      rw [hp] at hty
      cases o with
      | some res =>
          refine ⟨{ s with side := side }, ⟨rfl, rfl, rfl, rfl⟩, hb, .inl ⟨.inl ?_, ?_⟩⟩
          · simpa [Call.branchType] using hty
          · simp [step, btbPrediction, hp]
      | none =>
          let t := { s with side := side, timestamp := s.timestamp + 1 }
          refine ⟨t, ⟨rfl, rfl, rfl, rfl⟩, hb, ?_⟩
          have hft : findEntry t ip = findEntry s ip := rfl
          cases hf : findEntry s ip with
          | none =>
              refine .inl ⟨.inr ⟨hf, rfl⟩, ?_⟩
              simp only [step, btbPrediction, hp]
              rw [show findEntry _ ip = none from hft.trans hf]
          | some way =>
              refine .inr (.inl ⟨way, hty.mp rfl, hf, ?_⟩)
              simp only [step, btbPrediction, hp]
              rw [show findEntry _ ip = some way from hft.trans hf]
              rfl

theorem update_acts (hb : StreamBuffer.Bounded s.stream) (ip target : Nat) (taken : Bool) (ty : BranchType) :
    Acts s (.update ip target taken ty) := by
  let t := { s with side := SideTables.update s.side ip target taken ty }
  have hft : findEntry t ip = findEntry s ip := rfl
  cases hty : ty.usesBtb with
  | false =>
      refine ⟨t, ⟨rfl, rfl, rfl, rfl⟩, hb, .inl ⟨.inl hty, ?_⟩⟩
      simp [step, updateBtb, hty, t]
  | true =>
      cases hf : findEntry s ip with
      | some way =>
          refine ⟨t, ⟨rfl, rfl, rfl, rfl⟩, hb, .inr (.inl ⟨way, hty, hf, ?_⟩)⟩
          simp only [step, updateBtb, hty, if_true]
          rw [show findEntry _ ip = some way from hft.trans hf]
          rfl
      | none =>
          let u := { t with stream := (StreamBuffer.streamBufferUpdate t.stream ip).1 }
          refine ⟨u, ⟨rfl, rfl, rfl, rfl⟩, StreamBuffer.update_bounded hb ip, ?_⟩
          simp only [step, updateBtb, hty, if_true]
          rw [show findEntry _ ip = none from hft.trans hf]
          by_cases ha : target ≠ 0 ∧ taken = true
          · refine .inr (.inr ⟨Call.update_allocates_iff.mpr ⟨hty, ha⟩, hf, ?_⟩)
            simp only [if_pos ha]
            rfl
          · refine .inl ⟨.inr ⟨hf, Call.update_idle ha⟩, ?_⟩
            simp only [if_neg ha]
            rfl

theorem prefetch_acts (hb : StreamBuffer.Bounded s.stream) (ip target : Nat) (ty : BranchType) (taken toStreamBuffer : Bool) :
    Acts s (.prefetch ip target ty taken toStreamBuffer) := by
  cases hty : ty.usesBtb with
  | false =>
      refine ⟨s, ⟨rfl, rfl, rfl, rfl⟩, hb, .inl ⟨.inl hty, ?_⟩⟩
      simp [step, prefetchBtb, hty]
  | true =>
      cases hf : findEntry s ip with
      | some way =>
          refine ⟨s, ⟨rfl, rfl, rfl, rfl⟩, hb, .inr (.inl ⟨way, hty, hf, ?_⟩)⟩
          simp [step, prefetchBtb, hty, hf, hit]
      | none =>
          by_cases ha : target ≠ 0 ∧ taken = true
          · cases hs : toStreamBuffer with
            | false =>
                refine ⟨s, ⟨rfl, rfl, rfl, rfl⟩, hb, .inr (.inr ⟨Call.prefetch_allocates_iff.mpr ⟨hty, ha, rfl⟩, hf, ?_⟩)⟩
                simp [step, prefetchBtb, hty, hf, ha.1, ha.2, Call.ip, Call.branchTarget]
            | true =>
                obtain ⟨b, hpre, hbb⟩ := StreamBuffer.prefetch_bounded hb ip ha.1
                refine ⟨{ s with stream := b }, ⟨rfl, rfl, rfl, rfl⟩, hbb, .inl ⟨.inr ⟨hf, ?_⟩, ?_⟩⟩
                · simp [Call.allocates]
                · simp [step, prefetchBtb, hty, hf, ha.1, ha.2, hpre]
          · refine ⟨s, ⟨rfl, rfl, rfl, rfl⟩, hb, .inl ⟨.inr ⟨hf, Call.prefetch_idle ha⟩, ?_⟩⟩
            simp only [step, prefetchBtb, hty, hf, if_true, if_neg ha]

theorem step_cases (s : State) (c : Call) (hb : StreamBuffer.Bounded s.stream) : Acts s c := by
  cases c with
  | predict ip ty => exact predict_acts hb ip ty
  | update ip target taken ty => exact update_acts hb ip target taken ty
  | prefetch ip target ty taken toStreamBuffer => exact prefetch_acts hb ip target ty taken toStreamBuffer

end Thermometer.BasicBtbLru

import Thermometer.MultiLevelBtb

namespace Thermometer.MultiLevelCascade

open Trace Lib.Tables MultiLevelBtb
open BTBEntryType (base withBase)
open BTBType (toBTB withBTB)

/-- What inserting an absent branch into one level can do to it, with the
condition under which the level does not take it. -/
inductive Insertion (bypasses : Prop) (look look' : Nat → Option BTBEntry) (ip : Nat) (new : BTBEntry) :
    BTBEntry → Prop
  | bypass : bypasses → look' = look → Insertion bypasses look look' ip new .none
  | fill : ¬bypasses → look' = Function.update look ip (some new) → Insertion bypasses look look' ip new .none
  | evict (w : Nat) (e : BTBEntry) : ¬bypasses → w ≠ ip → look w = some e →
      look' = Function.update (Function.update look w none) ip (some new) →
      Insertion bypasses look look' ip new (.new w e.target e.branchType)

/-- What the hierarchy relies on in its levels. -/
class LawfulBTBType {Ω E : outParam Type} (L : Type) [BTBEntryType E] [BTBType Ω E L] : Prop where
  base_withBase : ∀ (e : E) (b : BTBEntry), base (withBase e b) = b
  toBTB_withBTB : ∀ (l : L) (b : BTB E), toBTB (withBTB l b) = b
  insert_spec : ∀ {ω : Ω} {l l' : L} {ip target : Nat} {ty : BranchType} {victim : BTBEntry}, look l ip = none →
    BTBType.insert ω l ip target ty = some (l', victim) →
    ∃ bypasses, Insertion bypasses (look l) (look l') ip (.new ip target ty) victim
  update_spec : ∀ {ω : Ω} {l l' : L} {ip : Nat}, BTBType.update ω l ip = some l' → look l' = look l

variable {Ω E L : Type} [BTBEntryType E] [BTBType Ω E L]

def lookAt (m : List L) (i ip : Nat) : Option BTBEntry := (m[i]?).bind (fun l => look l ip)

def Resident (m : List L) (ip : Nat) : Prop := ∃ i e, lookAt m i ip = some e

def Absent (m : List L) (ip : Nat) : Prop := ∀ i, lookAt m i ip = none

def ExclusiveOn (m : List L) (lo hi : Nat) : Prop :=
  ∀ j i k d e, lo ≤ i → i < hi → lo ≤ k → k < hi → lookAt m i j = some d → lookAt m k j = some e → i = k

def Exclusive (m : List L) : Prop := ∀ j i k d e, lookAt m i j = some d → lookAt m k j = some e → i = k

variable {m m' : List L} {ω : Nat → Ω} {i k n lo hi ip j target : Nat} {ty : BranchType} {l l' : L} {new e : BTBEntry}
  {b : Bool}

theorem lookAt_of_getElem? (h : m[i]? = some l) : lookAt m i = look l := by
  funext j
  rw [lookAt, h]
  rfl

theorem lookAt_congr (h : m'[i]? = m[i]?) : lookAt m' i = lookAt m i := by
  funext j
  rw [lookAt, h, lookAt]

theorem getElem?_of_lookAt (h : lookAt m i j = some e) : ∃ l, m[i]? = some l ∧ look l j = some e :=
  Option.bind_eq_some_iff.mp h

theorem lt_length_of_lookAt (h : lookAt m i j = some e) : i < m.length := by
  obtain ⟨l, hl, -⟩ := getElem?_of_lookAt h
  exact (List.getElem?_eq_some_iff.mp hl).1

theorem lookAt_set_self (h : m[i]? = some l) (l' : L) : lookAt (m.set i l') i = look l' := by
  apply lookAt_of_getElem?
  rw [List.getElem?_set_self (List.getElem?_eq_some_iff.mp h).1]

theorem lookAt_set_of_ne (h : k ≠ i) (l' : L) : lookAt (m.set i l') k = lookAt m k := by
  apply lookAt_congr
  rw [List.getElem?_set_ne (Ne.symm h)]

theorem lookAt_modify (hl : m[i]? = some l) (f : L → L) :
    lookAt (m.modify i f) = Function.update (lookAt m) i (look (f l)) := by
  funext k
  by_cases hk : k = i
  · subst hk
    rw [Function.update_self]
    apply lookAt_of_getElem?
    simp only [List.getElem?_modify, hl, Option.map_eq_map, Option.map_some, if_pos]
  · rw [Function.update_of_ne hk]
    apply lookAt_congr
    exact List.getElem?_modify_ne _ _ (Ne.symm hk)

theorem isSome_findBtbEntry (m : List L) (ip : Nat) : (findBtbEntry m ip).1.isSome = true ↔ Resident m ip := by
  rw [findBtbEntry]
  cases hf : m.find? (fun l => (look l ip).isSome) with
  | none =>
      rw [List.find?_eq_none] at hf
      constructor
      · intro h
        cases h
      · rintro ⟨i, e, he⟩
        obtain ⟨l, hl, hlook⟩ := getElem?_of_lookAt he
        have hno := hf l (List.mem_of_getElem? hl)
        rw [hlook] at hno
        exact absurd rfl hno
  | some l =>
      have hsome := List.find?_some hf
      have hmem := List.mem_of_find?_eq_some hf
      obtain ⟨e, he⟩ := Option.isSome_iff_exists.mp hsome
      obtain ⟨i, hi⟩ := List.getElem?_of_mem hmem
      constructor
      · intro _
        exact ⟨i, e, by rw [lookAt_of_getElem? hi, he]⟩
      · intro _
        exact hsome

theorem levelOf_eq_some (h : levelOf m ip = some i) :
    ∃ l e, m[i]? = some l ∧ look l ip = some e ∧ ∀ k, k < i → lookAt m k ip = none := by
  obtain ⟨hlt, hsome, hbefore⟩ := List.findIdx?_eq_some_iff_getElem.mp h
  obtain ⟨e, he⟩ := Option.isSome_iff_exists.mp hsome
  refine ⟨m[i], e, List.getElem?_eq_getElem hlt, he, ?_⟩
  intro k hk
  have hno := hbefore k hk
  rw [lookAt_of_getElem? (List.getElem?_eq_getElem (Nat.lt_trans hk hlt))]
  simpa using hno

theorem levelOf_eq_some_iff : levelOf m ip = some i ↔ (∃ e, lookAt m i ip = some e) ∧ ∀ k, k < i → lookAt m k ip = none := by
  constructor
  · intro h
    obtain ⟨l, e, hl, he, hbefore⟩ := levelOf_eq_some h
    exact ⟨⟨e, by rw [lookAt_of_getElem? hl, he]⟩, hbefore⟩
  · rintro ⟨⟨e, he⟩, hbefore⟩
    obtain ⟨l, hl, hlook⟩ := getElem?_of_lookAt he
    obtain ⟨hlt, rfl⟩ := List.getElem?_eq_some_iff.mp hl
    apply List.findIdx?_eq_some_iff_getElem.mpr
    refine ⟨hlt, by rw [hlook, Option.isSome_some], ?_⟩
    intro k hk
    have hno := hbefore k hk
    rw [lookAt_of_getElem? (List.getElem?_eq_getElem (Nat.lt_trans hk hlt))] at hno
    rw [hno]
    simp

theorem levelOf_congr (h : ∀ k, lookAt m' k ip = none ↔ lookAt m k ip = none) : levelOf m' ip = levelOf m ip := by
  have hsome : ∀ k, (∃ e, lookAt m' k ip = some e) ↔ ∃ e, lookAt m k ip = some e := by
    intro k
    rw [← Option.ne_none_iff_exists', ← Option.ne_none_iff_exists', Ne, Ne, h k]
  apply Option.ext
  intro i
  simp only [levelOf_eq_some_iff, hsome, h]

theorem levelOf_eq_none : levelOf m ip = none ↔ Absent m ip := by
  rw [levelOf, List.findIdx?_eq_none_iff]
  constructor
  · intro h i
    cases hi : m[i]? with
    | none => rw [lookAt, hi, Option.bind_none]
    | some l =>
        rw [lookAt_of_getElem? hi]
        simpa using h l (List.mem_of_getElem? hi)
  · intro h l hl
    obtain ⟨i, hi⟩ := List.getElem?_of_mem hl
    have hno := h i
    rw [lookAt_of_getElem? hi] at hno
    rw [hno]
    rfl

/-- The branch of an entry found after a cascade either was there, is the new
one, or came down from a lower level and was rebuilt. -/
inductive Origin (m : List L) (lo ip : Nat) (new : BTBEntry) (k j : Nat) (e : BTBEntry) : Prop
  | stayed : j ≠ ip → lookAt m k j = some e → Origin m lo ip new k j e
  | placed : j = ip → e = new → Origin m lo ip new k j e
  | moved (i : Nat) (d : BTBEntry) : j ≠ ip → lo ≤ i → i < k → lookAt m i j = some d →
      e = .new j d.target d.branchType → Origin m lo ip new k j e

structure Cascade (m m' : List L) (lo hi ip : Nat) (new : BTBEntry) : Prop where
  length : m'.length = m.length
  outside : ∀ k, k < lo ∨ hi ≤ k → m'[k]? = m[k]?
  origin : ∀ k j e, lo ≤ k → k < hi → lookAt m' k j = some e → Origin m lo ip new k j e
  exclusive : ExclusiveOn m' lo hi

theorem Cascade.cons (hi' : i < hi) (hl : m[i]? = some l)
    (hlevel : ∀ j e, look l' j = some e → (j ≠ ip ∧ look l j = some e) ∨ (j = ip ∧ e = new))
    (hout : ∀ k, k < i + 1 ∨ hi ≤ k → m'[k]? = (m.set i l')[k]?) (hlen : m'.length = m.length)
    (hrest : ∀ k j e, i < k → k < hi → lookAt m' k j = some e → Origin m i ip new k j e ∧ look l' j = none)
    (hex' : ExclusiveOn m' (i + 1) hi) : Cascade m m' i hi ip new := by
  have hfirst : lookAt m' i = look l' := by
    rw [lookAt_congr (hout i (.inl (Nat.lt_succ_self i))), lookAt_set_self hl]
  have hdisjoint : ∀ k j d e, i < k → k < hi → lookAt m' i j = some d → lookAt m' k j = some e → False := by
    intro k j d e hk hkhi hd he
    rw [hfirst, (hrest k j e hk hkhi he).2] at hd
    cases hd
  refine ⟨hlen, ?_, ?_, ?_⟩
  · intro k hk
    rw [hout k (by omega), List.getElem?_set_ne (by omega)]
  · intro k j e hik hkhi he
    rcases Nat.eq_or_lt_of_le hik with rfl | hlt
    · rw [hfirst] at he
      rcases hlevel j e he with ⟨hj, he⟩ | ⟨hj, he⟩
      · exact .stayed hj (by rw [lookAt_of_getElem? hl, he])
      · exact .placed hj he
    · exact (hrest k j e hlt hkhi he).1
  · intro j a c d e ha hahi hc hchi hd he
    rcases Nat.eq_or_lt_of_le ha with rfl | ha
    · rcases Nat.eq_or_lt_of_le hc with rfl | hc
      · rfl
      · exact (hdisjoint c j d e hc hchi hd he).elim
    · rcases Nat.eq_or_lt_of_le hc with rfl | hc
      · exact (hdisjoint a j e d ha hahi he hd).elim
      · exact hex' j a c d e ha hahi hc hchi hd he

section Steps

variable (hex : ExclusiveOn m i hi) (hlt : i < hi) (hno : ∀ k, i ≤ k → k < hi → lookAt m k ip = none)
  (hl : m[i]? = some l)
  (hlevel : ∀ j e, look l' j = some e → (j ≠ ip ∧ look l j = some e) ∨ (j = ip ∧ e = new))

include hex hlt hno hl hlevel

theorem absent_above {d : BTBEntry} (hd : look l' j = some d) (hk : i < k) (hkhi : k < hi) : lookAt m k j = none := by
  rcases hlevel j d hd with ⟨-, hd⟩ | ⟨rfl, -⟩
  · cases he : lookAt m k j with
    | none => rfl
    | some e =>
        have := hex j i k d e (Nat.le_refl i) hlt (Nat.le_of_lt hk) hkhi (by rw [lookAt_of_getElem? hl, hd]) he
        omega
  · exact hno k (Nat.le_of_lt hk) hkhi

theorem Cascade.stop : Cascade m (m.set i l') i hi ip new := by
  have habove : ∀ k, i < k → lookAt (m.set i l') k = lookAt m k := by
    intro k hk
    exact lookAt_set_of_ne (Nat.ne_of_gt hk) l'
  apply Cascade.cons hlt hl hlevel (fun _ _ => rfl) List.length_set
  · intro k j e hk hkhi he
    rw [habove k hk] at he
    constructor
    · refine .stayed ?_ he
      rintro rfl
      rw [hno k (Nat.le_of_lt hk) hkhi] at he
      cases he
    · cases hd : look l' j with
      | none => rfl
      | some d =>
          rw [absent_above hex hlt hno hl hlevel hd hk hkhi] at he
          cases he
  · intro j a c d e ha hahi hc hchi hd he
    rw [habove a ha] at hd
    rw [habove c hc] at he
    exact hex j a c d e (Nat.le_of_lt ha) hahi (Nat.le_of_lt hc) hchi hd he

/-- The first level passes a branch on that it does not hold. -/
theorem Cascade.pass {w : Nat} {new' : BTBEntry} (hw : look l' w = none)
    (hwas : (w = ip ∧ new' = new) ∨ ∃ d, look l w = some d ∧ new' = .new w d.target d.branchType)
    (h : Cascade (m.set i l') m' (i + 1) hi w new') : Cascade m m' i hi ip new := by
  have habove : ∀ k, i < k → lookAt (m.set i l') k = lookAt m k := by
    intro k hk
    exact lookAt_set_of_ne (Nat.ne_of_gt hk) l'
  have hmi : lookAt m i = look l := lookAt_of_getElem? hl
  apply Cascade.cons hlt hl hlevel h.outside (h.length.trans List.length_set) _ h.exclusive
  intro k j e hk hkhi he
  have hne : ∀ k e, i ≤ k → k < hi → lookAt m k j = some e → j ≠ ip := by
    rintro k e hk hkhi he rfl
    rw [hno k hk hkhi] at he
    cases he
  have hnone : ∀ k' e', i < k' → k' < hi → lookAt m k' j = some e' → look l' j = none := by
    intro k' e' hk' hkhi' he'
    cases hd : look l' j with
    | none => rfl
    | some d =>
        rw [absent_above hex hlt hno hl hlevel hd hk' hkhi'] at he'
        cases he'
  cases h.origin k j e hk hkhi he with
  | stayed hj hstay =>
      rw [habove k hk] at hstay
      exact ⟨.stayed (hne k e (Nat.le_of_lt hk) hkhi hstay) hstay, hnone k e hk hkhi hstay⟩
  | placed hj heq =>
      subst hj heq
      refine ⟨?_, hw⟩
      rcases hwas with ⟨rfl, rfl⟩ | ⟨d, hd, rfl⟩
      · exact .placed rfl rfl
      · rw [← hmi] at hd
        exact .moved i d (hne i d (Nat.le_refl i) hlt hd) (Nat.le_refl i) hk hd rfl
  | moved i' d hj hlo hlti hd heq =>
      rw [habove i' hlo] at hd
      exact ⟨.moved i' d (hne i' d (Nat.le_of_lt hlo) (by omega) hd) (Nat.le_of_lt hlo) hlti hd heq,
        hnone i' d hlo (by omega) hd⟩

end Steps

theorem ExclusiveOn.mono {lo' : Nat} (h : ExclusiveOn m lo hi) (hlo : lo ≤ lo') : ExclusiveOn m lo' hi :=
  fun j i k d e hi hi' hk hk' => h j i k d e (Nat.le_trans hlo hi) hi' (Nat.le_trans hlo hk) hk'

theorem ExclusiveOn.congr (h : ExclusiveOn m lo hi) (heq : ∀ k, lo ≤ k → lookAt m' k = lookAt m k) :
    ExclusiveOn m' lo hi := by
  intro j i k d e hi hi' hk hk' hd he
  rw [heq i hi] at hd
  rw [heq k hk] at he
  exact h j i k d e hi hi' hk hk' hd he

theorem Cascade.refl (hex : ExclusiveOn m lo hi) (hno : ∀ k, lo ≤ k → k < hi → lookAt m k ip = none) :
    Cascade m m lo hi ip new := by
  refine ⟨rfl, fun _ _ => rfl, ?_, hex⟩
  intro k j e hlo hhi he
  refine .stayed ?_ he
  rintro rfl
  rw [hno k hlo hhi] at he
  cases he

theorem Cascade.glue {m₁ : List L} {hi : Nat} {new : BTBEntry} (hex : Exclusive m) (h : Cascade m m₁ 0 hi ip new)
    (hlow : ∀ k, k < hi → lookAt m' k = lookAt m₁ k)
    (hhigh : ∀ k j e, hi ≤ k → lookAt m' k j = some e → j ≠ ip ∧ lookAt m k j = some e) : Exclusive m' := by
  have hsplit : ∀ j a c d e, a < hi → hi ≤ c → lookAt m' a j = some d → lookAt m' c j = some e → False := by
    intro j a c d e ha hc hd he
    rw [hlow a ha] at hd
    obtain ⟨hj, he⟩ := hhigh c j e hc he
    cases h.origin a j d (Nat.zero_le a) ha hd with
    | stayed _ hstay =>
        have := hex j a c d e hstay he
        omega
    | placed heq _ => exact hj heq
    | moved a' d' _ _ hlt hd' _ =>
        have := hex j a' c d' e hd' he
        omega
  intro j a c d e hd he
  rcases Nat.lt_or_ge a hi with ha | ha
  · rcases Nat.lt_or_ge c hi with hc | hc
    · rw [hlow a ha] at hd
      rw [hlow c hc] at he
      exact h.exclusive j a c d e (Nat.zero_le a) ha (Nat.zero_le c) hc hd he
    · exact (hsplit j a c d e ha hc hd he).elim
  · rcases Nat.lt_or_ge c hi with hc | hc
    · exact (hsplit j c a e d hc ha he hd).elim
    · exact hex j a c d e (hhigh a j d ha hd).2 (hhigh c j e hc he).2

theorem Exclusive.on (hex : Exclusive m) (lo hi : Nat) : ExclusiveOn m lo hi :=
  fun j i k d e _ _ _ _ hd he => hex j i k d e hd he

theorem Exclusive.congr (hex : Exclusive m) (h : lookAt m' = lookAt m) : Exclusive m' := by
  intro j i k d e hd he
  rw [h] at hd he
  exact hex j i k d e hd he

theorem Insertion.resident_iff {bypasses : Prop} {look look' : Nat → Option BTBEntry} {new victim : BTBEntry}
    (hno : look ip = none) (h : Insertion bypasses look look' ip new victim) : look' ip ≠ none ↔ ¬bypasses := by
  cases h with
  | bypass hb heq =>
      rw [heq, hno]
      exact iff_of_false (fun h => h rfl) (fun h => h hb)
  | fill hb heq =>
      rw [heq, Function.update_self]
      exact iff_of_true (Option.some_ne_none new) hb
  | evict w e hb hw he heq =>
      rw [heq, Function.update_self]
      exact iff_of_true (Option.some_ne_none new) hb

theorem Insertion.level {bypasses : Prop} {look look' : Nat → Option BTBEntry} {new victim : BTBEntry}
    (hno : look ip = none) (h : Insertion bypasses look look' ip new victim) (j : Nat) (e : BTBEntry)
    (he : look' j = some e) :
    (j ≠ ip ∧ look j = some e) ∨ (j = ip ∧ e = new) := by
  by_cases hj : j = ip
  · subst hj
    cases h with
    | bypass _ heq =>
        rw [heq, hno] at he
        cases he
    | fill _ heq =>
        rw [heq, Function.update_self, Option.some.injEq] at he
        exact .inr ⟨rfl, he.symm⟩
    | evict w d _ hw hd heq =>
        rw [heq, Function.update_self, Option.some.injEq] at he
        exact .inr ⟨rfl, he.symm⟩
  · left
    refine ⟨hj, ?_⟩
    cases h with
    | bypass _ heq => rwa [heq] at he
    | fill _ heq => rwa [heq, Function.update_of_ne hj] at he
    | evict w d _ hw hd heq =>
        rw [heq, Function.update_of_ne hj] at he
        by_cases hjw : j = w
        · rw [hjw, Function.update_self] at he
          cases he
        · rwa [Function.update_of_ne hjw] at he

theorem ExclusiveOn.below {l' : L} (h : ExclusiveOn m i hi) : ExclusiveOn (m.set i l') (i + 1) hi :=
  (h.mono (Nat.le_succ i)).congr (fun k hk => lookAt_set_of_ne (by omega) l')

theorem ExclusiveOn.absent_below {l l' : L} {w : Nat} {e : BTBEntry} (h : ExclusiveOn m i hi) (hlt : i < hi)
    (hl : m[i]? = some l) (he : look l w = some e) :
    ∀ k, i + 1 ≤ k → k < hi → lookAt (m.set i l') k w = none := by
  intro k hk hkhi
  rw [lookAt_set_of_ne (by omega)]
  cases hd : lookAt m k w with
  | none => rfl
  | some d =>
      have heq := h w i k e d (Nat.le_refl i) hlt (Nat.le_of_lt hk) hkhi (by rw [lookAt_of_getElem? hl, he]) hd
      omega

variable [LawfulBTBType L]

/-- The insertion loop over levels that do not hold the branch. -/
theorem insertFrom_cascade (hex : ExclusiveOn m i (i + n)) (hno : ∀ k, i ≤ k → k < i + n → lookAt m k ip = none)
    (h : insertFrom ω ip target ty n i m = some (m', b)) : Cascade m m' i (i + n) ip (.new ip target ty) := by
  induction n generalizing m m' i ip target ty b with
  | zero =>
      rw [insertFrom, Option.some.injEq, Prod.mk.injEq] at h
      exact h.1 ▸ .refl hex hno
  | succ n ih =>
      rw [insertFrom] at h
      cases hl : m[i]? with
      | none =>
          rw [hl, Option.some.injEq, Prod.mk.injEq] at h
          exact h.1 ▸ .refl hex hno
      | some l =>
          simp only [hl, Option.bind_eq_some_iff] at h
          obtain ⟨⟨l', victim⟩, hins, h⟩ := h
          have hhi : i + (n + 1) = i + 1 + n := by omega
          rw [hhi] at hex hno ⊢
          have hlt : i < i + 1 + n := by omega
          have habsent : look l ip = none := by
            rw [← lookAt_of_getElem? hl]
            exact hno i (Nat.le_refl i) hlt
          obtain ⟨bypasses, hspec⟩ := LawfulBTBType.insert_spec habsent hins
          have hlevel := hspec.level habsent
          dsimp only at h
          split_ifs at h with hvictim hfound
          · obtain ⟨⟨m₂, b₂⟩, hrest, heq⟩ := Option.map_eq_some_iff.mp h
            obtain ⟨rfl, rfl⟩ := Prod.mk.inj heq
            cases hspec with
            | bypass _ _ => exact absurd rfl hvictim
            | fill _ _ => exact absurd rfl hvictim
            | evict w e _ hw he hlook =>
                have hgone : look l' w = none := by
                  rw [hlook, Function.update_of_ne hw, Function.update_self]
                exact .pass hex hlt hno hl hlevel hgone (.inr ⟨e, he, rfl⟩)
                  (ih hex.below (hex.absent_below hlt hl he) hrest)
          · rw [Option.some.injEq, Prod.mk.injEq] at h
            exact h.1 ▸ .stop hex hlt hno hl hlevel
          · have hmiss : look l' ip = none := by
              cases hd : look l' ip with
              | none => rfl
              | some d =>
                  have hres : Resident (m.set i l') ip := ⟨i, d, by rw [lookAt_set_self hl, hd]⟩
                  exact absurd ((isSome_findBtbEntry _ _).mpr hres) hfound
            have hno' : ∀ k, i + 1 ≤ k → k < i + 1 + n → lookAt (m.set i l') k ip = none := by
              intro k hk hkhi
              rw [lookAt_set_of_ne (by omega)]
              exact hno k (by omega) hkhi
            exact .pass hex hlt hno hl hlevel hmiss (.inl ⟨rfl, rfl⟩) (ih hex.below hno' h)

end Thermometer.MultiLevelCascade

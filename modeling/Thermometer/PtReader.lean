import Mathlib.Data.List.Forall2
import Thermometer.Lib.Strtoul
import Thermometer.Trace

namespace Thermometer.PtReader

open Trace Lib.Strtoul

structure PtInstr where
  pc : Nat
  size : Nat
  instBytes : List Nat
  deriving DecidableEq, Repr

/-- The loop of `strtoul`. A turn eats a character, so the length of the text bounds the turns. -/
def numbersFrom : Nat → List Char → List Nat
  | 0, _ => []
  | fuel + 1, cs =>
      match strtoul cs with
      | none => []
      | some (n, rest) => n :: numbersFrom fuel rest

def numbers (buffer : List Char) : List Nat := numbersFrom buffer.length buffer

/-- `none` is a write behind the end. -/
def writeByte (bytes : List Nat) (i value : Nat) : Option (List Nat) :=
  if i < bytes.length then some (bytes.set i (value % 2 ^ 8)) else none

def ptInstr (buffer : List Char) : Option PtInstr :=
  let instBytes := List.replicate 16 0
  let curr := numbers buffer
  if curr.length < 3 ∨ curr.length ≠ (curr.getD 1 0 + 2) % 2 ^ 64 then some ⟨0, 0, instBytes⟩
  else
    ((List.range' 2 (curr.length - 2)).foldlM (fun bytes i => writeByte bytes (i - 2) (curr.getD i 0)) instBytes).map
      (fun bytes => ⟨curr.getD 0 0, curr.getD 1 0 % 2 ^ 8, bytes⟩)

/-- The categories of instructions the reader tells apart. -/
inductive Category
  | condBr
  | uncondBr
  | call
  | ret
  | other
  deriving DecidableEq, Repr

/-- An instruction as the decoder describes it. What does not make a branch is in `operands`. -/
structure Decoded (X : Type) where
  category : Category
  brdispWidth : Nat
  operands : X

/-- The instruction decoder. `encodeNop` is the no-operation of a length. -/
structure Xed (X : Type) where
  decode : List Nat → Nat → Option (Decoded X)
  encodeNop : Nat → Decoded X

structure Instr (X : Type) where
  ip : Nat
  size : Nat
  branchType : BranchType
  isBranch : Bool
  operands : X
  branchTaken : Bool
  branchTarget : Nat
  deriving DecidableEq

variable {X : Type}

def Decoded.branchType (d : Decoded X) : BranchType :=
  match d.category with
  | .condBr => .conditional
  | .uncondBr => if d.brdispWidth ≠ 0 then .directJump else .indirect
  | .call => if d.brdispWidth ≠ 0 then .directCall else .indirectCall
  | .ret => .ret
  | .other => .notBranch

/-- `none` is the failed assertion on the length. -/
def makeNop (xed : Xed X) (length : Nat) : Option (Decoded X) :=
  if 0 < length % 16 then some (xed.encodeNop (length % 16)) else none

/-- The instruction of a line, before it is known what comes next. -/
def archInstr (xed : Xed X) (p : PtInstr) : Option (Instr X) :=
  ((xed.decode p.instBytes p.size).or (makeNop xed p.size)).map
    (fun d => ⟨p.pc, p.size, d.branchType, d.branchType ≠ .notBranch, d.operands, false, 0⟩)

/-- The outcome of an instruction, read off the one that follows it. -/
def Instr.patch (last arch : Instr X) : Instr X :=
  let taken := decide ((last.ip + last.size) % 2 ^ 64 ≠ arch.ip)
  { last with
    branchTaken := taken
    branchTarget := if last.isBranch && taken then arch.ip else last.branchTarget }

/-- The lines not yet read, and the instruction held back once the first call has been made. -/
structure Reader (X : Type) where
  remaining : List (List Char)
  lastInstr : Option (Instr X)

def Reader.opened (file : List (List Char)) : Reader X := ⟨file, none⟩

def skips (line : List Char) : Bool := (ptInstr line).any (fun p => p.pc == 0)

/-- The next line with a counter, from a new start at the end of the file.
`none` is the loop that never finds one, or a write behind the end of the bytes. -/
def nextLine (file remaining : List (List Char)) : Option (PtInstr × List (List Char)) :=
  match remaining.dropWhile skips with
  | l :: ls => (ptInstr l).map (fun p => (p, ls))
  | [] =>
      match file.dropWhile skips with
      | l :: ls => (ptInstr l).map (fun p => (p, ls))
      | [] => none

def get (xed : Xed X) (file : List (List Char)) (r : Reader X) : Option (Instr X × Reader X) :=
  (nextLine file r.remaining).bind (fun next =>
    (archInstr xed next.1).map (fun arch =>
      ((r.lastInstr.getD arch).patch arch, ⟨next.2, some arch⟩)))

/-- What successive calls return. -/
def gets (xed : Xed X) (file : List (List Char)) : Nat → Reader X → Option (List (Instr X) × Reader X)
  | 0, r => some ([], r)
  | n + 1, r => (get xed file r).bind (fun a => (gets xed file n a.2).map (fun b => (a.1 :: b.1, b.2)))

/-- A well-formed line, what it says and its instruction. -/
structure Says (xed : Xed X) (line : List Char) (p : PtInstr) (i : Instr X) : Prop where
  instr : ptInstr line = some p
  pc_ne_zero : p.pc ≠ 0
  size_le : p.size ≤ 15
  arch : archInstr xed p = some i

/-- A well-formed line and its instruction. -/
def Reads (xed : Xed X) (line : List Char) (i : Instr X) : Prop := ∃ p, Says xed line p i

def stream (is : List (Instr X)) (k : Nat) : Option (Instr X) := is[k % is.length]?

/-- Call `k` returns instruction `k` with the outcome that instruction `k + 1` shows. -/
def Faithful (xed : Xed X) (file : List (List Char)) (is : List (Instr X)) : Prop :=
  ∀ n, ∃ rs r, gets xed file n (.opened file) = some (rs, r) ∧ rs.length = n ∧
    ∀ k < n, ∃ i j a, stream is k = some i ∧ stream is (k + 1) = some j ∧ rs[k]? = some a ∧
      a.ip = i.ip ∧ a.size = i.size ∧ a.branchType = i.branchType ∧ a.isBranch = i.isBranch ∧
      a.operands = i.operands ∧ (a.branchTaken = true ↔ (i.ip + i.size) % 2 ^ 64 ≠ j.ip) ∧
      a.branchTarget = if i.isBranch ∧ (i.ip + i.size) % 2 ^ 64 ≠ j.ip then j.ip else 0

variable {xed : Xed X} {file : List (List Char)} {is : List (Instr X)} {r : Reader X} {k n : Nat}

structure At (file : List (List Char)) (is : List (Instr X)) (k : Nat) (r : Reader X) : Prop where
  remaining : r.remaining = file.drop (if k = 0 then 0 else (k - 1) % file.length + 1)
  last : r.lastInstr = if k = 0 then none else stream is (k - 1)

/-- What call `k` returns: the instruction before, and the first one twice. -/
def returned (is : List (Instr X)) (k : Nat) : Option (Instr X) :=
  (stream is (k - 1)).bind (fun last => (stream is k).map (fun arch => last.patch arch))

theorem isSome_stream (hne : is ≠ []) (k : Nat) : ∃ i ∈ is, stream is k = some i := by
  have hlt : k % is.length < is.length := Nat.mod_lt _ (List.length_pos_iff.mpr hne)
  exact ⟨is[k % is.length], List.getElem_mem hlt, List.getElem?_eq_getElem hlt⟩

theorem not_skips {l : List Char} {i : Instr X} (h : Reads xed l i) : skips l = false := by
  obtain ⟨p, hp⟩ := h
  rw [skips, hp.instr, Option.any_some, beq_eq_false_iff_ne]
  exact hp.pc_ne_zero

theorem nextLine_drop {n : Nat} {l : List Char} {i : Instr X} {p : PtInstr} (hl : file[n]? = some l)
    (hline : Says xed l p i) : nextLine file (file.drop n) = some (p, file.drop (n + 1)) := by
  have hdrop : file.drop n = l :: file.drop (n + 1) := by
    obtain ⟨hn, rfl⟩ := List.getElem?_eq_some_iff.mp hl
    exact List.drop_eq_getElem_cons hn
  have hskips := not_skips ⟨p, hline⟩
  rw [nextLine, hdrop, List.dropWhile_cons_of_neg (by rw [hskips]; decide)]
  simp only [hline.instr, Option.map_some]

theorem nextLine_nil : nextLine file [] = nextLine file file := by
  rw [nextLine, nextLine, List.dropWhile_nil]
  cases file.dropWhile skips with
  | nil => rfl
  | cons l ls => rfl

theorem nextLine_at (hr : At file is k r) {l : List Char} {i : Instr X} {p : PtInstr}
    (hl : file[k % file.length]? = some l) (hline : Says xed l p i) :
    nextLine file r.remaining = some (p, file.drop (k % file.length + 1)) := by
  rw [hr.remaining]
  cases k with
  | zero =>
      rw [Nat.zero_mod] at hl ⊢
      exact nextLine_drop hl hline
  | succ k =>
      have hmod : (k + 1) % file.length = (k % file.length + 1) % file.length := (Nat.mod_add_mod k _ 1).symm
      have hpos : 0 < file.length := Nat.zero_lt_of_lt (List.getElem?_eq_some_iff.mp hl).1
      have hlt : k % file.length < file.length := Nat.mod_lt k hpos
      rw [if_neg (Nat.succ_ne_zero k), Nat.add_sub_cancel]
      rw [hmod] at hl ⊢
      by_cases hend : k % file.length + 1 = file.length
      · rw [hend, Nat.mod_self] at hl ⊢
        rw [List.drop_length, nextLine_nil]
        exact nextLine_drop hl hline
      · have hnext : (k % file.length + 1) % file.length = k % file.length + 1 := Nat.mod_eq_of_lt (by omega)
        rw [hnext] at hl ⊢
        exact nextLine_drop hl hline

theorem get_spec (hne : is ≠ []) (h : List.Forall₂ (Reads xed) file is) (hr : At file is k r) :
    ∃ a r', get xed file r = some (a, r') ∧ returned is k = some a ∧ At file is (k + 1) r' := by
  obtain ⟨hlen, hget⟩ := List.forall₂_iff_get.mp h
  have hlt : k % file.length < file.length := Nat.mod_lt _ (hlen ▸ List.length_pos_iff.mpr hne)
  obtain ⟨i, hi⟩ : ∃ i, stream is k = some i := (isSome_stream hne k).imp (fun _ h => h.2)
  have hread : Reads xed file[k % file.length] i := by
    have hk := hget _ hlt (hlen ▸ hlt)
    rw [stream, ← hlen] at hi
    rw [← (List.getElem?_eq_some_iff.mp hi).2]
    exact hk
  obtain ⟨p, hline⟩ := hread
  have hnext := nextLine_at hr (List.getElem?_eq_getElem hlt) hline
  obtain ⟨last, hlast, hgetD⟩ : ∃ last, stream is (k - 1) = some last ∧ r.lastInstr.getD i = last := by
    rw [hr.last]
    by_cases hk : k = 0
    · subst hk
      exact ⟨i, hi, rfl⟩
    · obtain ⟨last, -, hlast⟩ := isSome_stream hne (k - 1)
      exact ⟨last, hlast, by rw [if_neg hk, hlast, Option.getD_some]⟩
  refine ⟨last.patch i, ⟨file.drop (k % file.length + 1), some i⟩, ?_, ?_, ?_, ?_⟩
  · rw [get, hnext, Option.bind_some, hline.arch, Option.map_some, hgetD]
  · rw [returned, hlast, hi]
    rfl
  · rw [if_neg (Nat.succ_ne_zero k), Nat.add_sub_cancel]
  · rw [if_neg (Nat.succ_ne_zero k), Nat.add_sub_cancel, hi]

theorem gets_spec (hne : is ≠ []) (h : List.Forall₂ (Reads xed) file is) (hr : At file is k r) (n : Nat) :
    ∃ rs r', gets xed file n r = some (rs, r') ∧ rs.length = n ∧ ∀ m < n, rs[m]? = returned is (k + m) := by
  induction n generalizing k r with
  | zero => exact ⟨[], r, rfl, rfl, fun m hm => absurd hm (Nat.not_lt_zero m)⟩
  | succ n ih =>
      obtain ⟨a, r', hget, ha, hr'⟩ := get_spec hne h hr
      obtain ⟨rs, r'', hgets, hlen, hrs⟩ := ih hr'
      refine ⟨a :: rs, r'', by simp [gets, hget, hgets], by simp [hlen], fun m hm => ?_⟩
      cases m with
      | zero => exact ha.symm
      | succ m =>
          rw [List.getElem?_cons_succ, hrs m (Nat.lt_of_succ_lt_succ hm), Nat.add_assoc, Nat.add_comm 1 m]

theorem at_opened (file : List (List Char)) (is : List (Instr X)) : At file is 0 (.opened file) := ⟨rfl, rfl⟩

theorem archInstr_fresh {p : PtInstr} {i : Instr X} (h : archInstr xed p = some i) :
    i.branchTaken = false ∧ i.branchTarget = 0 := by
  obtain ⟨d, -, rfl⟩ := Option.map_eq_some_iff.mp h
  exact ⟨rfl, rfl⟩

theorem fresh_of_mem (h : List.Forall₂ (Reads xed) file is) {i : Instr X} (hi : i ∈ is) :
    i.branchTaken = false ∧ i.branchTarget = 0 := by
  obtain ⟨hlen, hget⟩ := List.forall₂_iff_get.mp h
  obtain ⟨n, hn, rfl⟩ := List.getElem_of_mem hi
  obtain ⟨p, hline⟩ := hget n (hlen ▸ hn) hn
  exact archInstr_fresh hline.arch

theorem stream_of_mem {i : Instr X} (hi : i ∈ is) : ∃ k, stream is k = some i := by
  obtain ⟨p, hp, rfl⟩ := List.getElem_of_mem hi
  refine ⟨p, ?_⟩
  rw [stream, Nat.mod_eq_of_lt hp]
  exact List.getElem?_eq_getElem hp

theorem patch_taken (i j : Instr X) : (i.patch j).branchTaken = true ↔ (i.ip + i.size) % 2 ^ 64 ≠ j.ip :=
  decide_eq_true_iff

theorem patch_target {i : Instr X} (hi : i.branchTarget = 0) (j : Instr X) :
    (i.patch j).branchTarget = if i.isBranch = true ∧ (i.ip + i.size) % 2 ^ 64 ≠ j.ip then j.ip else 0 := by
  simp only [Instr.patch, hi, Bool.and_eq_true, decide_eq_true_iff]

theorem same_of_faithful (hne : is ≠ []) (h : List.Forall₂ (Reads xed) file is) (hf : Faithful xed file is) :
    ∀ i ∈ is, ∀ j ∈ is, i = j := by
  have hstep : ∀ k, stream is (k + 1) = stream is k := by
    intro k
    obtain ⟨rs, r, hgets, -, hk⟩ := hf (k + 2)
    obtain ⟨rs', r', hgets', -, hrs⟩ := gets_spec hne h (at_opened file is) (k + 2)
    rw [hgets, Option.some.injEq, Prod.mk.injEq] at hgets'
    obtain ⟨i, j, a, hi, -, ha, hip, hsize, hty, hbr, hops, -, -⟩ := hk (k + 1) (Nat.lt_succ_self _)
    have hret := hrs (k + 1) (Nat.lt_succ_self _)
    obtain ⟨last, hmem, hlast⟩ := isSome_stream hne k
    rw [← hgets'.1, ha, Nat.zero_add, returned, Nat.add_sub_cancel, hlast, hi, Option.bind_some, Option.map_some,
      Option.some.injEq] at hret
    subst hret
    have hfi := fresh_of_mem h (List.mem_of_getElem? hi)
    have hfl := fresh_of_mem h hmem
    rw [hi, hlast, Option.some.injEq]
    cases i
    cases last
    simp_all [Instr.patch]
  have hconst : ∀ k, stream is k = stream is 0 := by
    intro k
    induction k with
    | zero => rfl
    | succ k ih => rw [hstep, ih]
  intro i hi j hj
  obtain ⟨k, hk⟩ := stream_of_mem hi
  obtain ⟨m, hm⟩ := stream_of_mem hj
  rw [hconst] at hk hm
  exact Option.some.inj (hk.symm.trans hm)

theorem faithful_of_same (hne : is ≠ []) (h : List.Forall₂ (Reads xed) file is) (hall : ∀ i ∈ is, ∀ j ∈ is, i = j) :
    Faithful xed file is := by
  intro n
  obtain ⟨rs, r, hgets, hlen, hrs⟩ := gets_spec hne h (at_opened file is) n
  refine ⟨rs, r, hgets, hlen, fun k hk => ?_⟩
  obtain ⟨last, hlast, hl⟩ := isSome_stream hne (k - 1)
  obtain ⟨i, hi, hik⟩ := isSome_stream hne k
  obtain ⟨j, hj, hjk⟩ := isSome_stream hne (k + 1)
  have hret := hrs k hk
  rw [Nat.zero_add, returned, hl, hik, hall last hlast i hi, hall i hi j hj] at hret
  have htarget := patch_target (fresh_of_mem h hj).2 j
  refine ⟨i, j, j.patch j, hik, hjk, hret, ?_⟩
  rw [hall i hi j hj]
  exact ⟨rfl, rfl, rfl, rfl, rfl, patch_taken j j, htarget⟩

/-- The look-ahead shows a trace as it is exactly if all its lines hold one and the same
instruction: the first call returns the first line, and so does the second. -/
theorem faithful_iff (hne : is ≠ []) (h : List.Forall₂ (Reads xed) file is) :
    Faithful xed file is ↔ ∀ i ∈ is, ∀ j ∈ is, i = j :=
  ⟨same_of_faithful hne h, faithful_of_same hne h⟩

/-- Enough of a decoder to tell a return from a one-byte no-operation. -/
def oneByteXed : Xed Unit where
  decode bytes _ := some ⟨if bytes.head? = some 0xc3 then .ret else .other, 0, ()⟩
  encodeNop _ := ⟨.other, 0, ()⟩

def returnLine : List Char := "401000 1 c3\n".toList

def nopLine : List Char := "402000 1 90\n".toList

def returnInstr : Instr Unit := ⟨0x401000, 1, .ret, true, (), false, 0⟩

def nopInstr : Instr Unit := ⟨0x402000, 1, .notBranch, false, (), false, 0⟩

theorem reads_returnLine : Reads oneByteXed returnLine returnInstr :=
  ⟨⟨0x401000, 1, 0xc3 :: List.replicate 15 0⟩, by decide +kernel, by decide, by decide, by decide⟩

theorem reads_nopLine : Reads oneByteXed nopLine nopInstr :=
  ⟨⟨0x402000, 1, 0x90 :: List.replicate 15 0⟩, by decide +kernel, by decide, by decide, by decide⟩

theorem faithful_iff_return_nop :
    Faithful oneByteXed [returnLine, nopLine] [returnInstr, nopInstr] ↔
      ∀ i ∈ [returnInstr, nopInstr], ∀ j ∈ [returnInstr, nopInstr], i = j :=
  faithful_iff (by decide) (.cons reads_returnLine (.cons reads_nopLine .nil))

/-- The return is shown twice, the first time as a jump to itself. -/
theorem return_shown_twice :
    List.Forall₂ (Reads oneByteXed) [returnLine, nopLine] [returnInstr, nopInstr] ∧
      (gets oneByteXed [returnLine, nopLine] 3 (.opened [returnLine, nopLine])).map Prod.fst =
        some [⟨0x401000, 1, .ret, true, (), true, 0x401000⟩, ⟨0x401000, 1, .ret, true, (), true, 0x402000⟩,
          ⟨0x402000, 1, .notBranch, false, (), true, 0⟩] ∧
      ¬Faithful oneByteXed [returnLine, nopLine] [returnInstr, nopInstr] := by
  have hreads := List.Forall₂.cons reads_returnLine (.cons reads_nopLine .nil)
  refine ⟨hreads, by decide +kernel, fun hf => ?_⟩
  have hsame := same_of_faithful (List.cons_ne_nil _ _) hreads hf returnInstr List.mem_cons_self nopInstr
    (List.mem_cons_of_mem _ List.mem_cons_self)
  exact absurd hsame (by decide)

end Thermometer.PtReader

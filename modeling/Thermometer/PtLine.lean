import Thermometer.PtReader

namespace Thermometer.PtLine

open Lib.Strtoul PtReader

def gzBufferSize : Nat := 80

/-- A line as `gzgets` leaves it, with room for the zero at its end. -/
structure Buffer where
  chars : List Char
  fits : chars.length < gzBufferSize

/-- The first `n` characters, or those up to the first line end. -/
def splitLine : Nat → List Char → List Char × List Char
  | 0, text => ([], text)
  | _, [] => ([], [])
  | n + 1, c :: text => if c = '\n' then ([c], text) else ((c :: (splitLine n text).1), (splitLine n text).2)

theorem length_splitLine (n : Nat) (text : List Char) : (splitLine n text).1.length ≤ n := by
  fun_induction splitLine n text with
  | case1 text => exact le_rfl
  | case2 n => exact Nat.zero_le _
  | case3 n text => exact Nat.succ_le_succ (Nat.zero_le n)
  | case4 n c text h ih => exact Nat.succ_le_succ ih

/-- `none` is the end of the file. -/
def gzgets (text : List Char) : Option (Buffer × List Char) :=
  if text = [] then none
  else some (⟨(splitLine (gzBufferSize - 1) text).1, Nat.lt_succ_of_le (length_splitLine _ text)⟩,
    (splitLine (gzBufferSize - 1) text).2)

/-- At the end of the file it is opened again. `none` is the loop that an empty file gives. -/
def readLine (file remaining : List Char) : Option (Buffer × List Char) := (gzgets remaining).or (gzgets file)

inductive Outcome
  | spins
  | overrun
  | read (p : PtInstr) (remaining : List Char)
  deriving DecidableEq

def nextInstr (file : List Char) : Nat → List Char → Outcome
  | 0, _ => .spins
  | turns + 1, remaining =>
      match readLine file remaining with
      | none => .spins
      | some (buffer, rest) =>
          match ptInstr buffer.chars with
          | none => .overrun
          | some p => if p.pc = 0 then nextInstr file turns rest else .read p rest

def Skipped (b : Buffer) : Prop :=
  ∀ file remaining rest turns, readLine file remaining = some (b, rest) →
    nextInstr file (turns + 1) remaining = nextInstr file turns rest

def Announces (t : List Nat) (pc size : Nat) (bytes : List Nat) : Prop :=
  t = pc :: size :: bytes ∧ bytes ≠ [] ∧ bytes.length = size

/-- A line that announces 16 bytes at most becomes what it says, any other is skipped. -/
structure Exact (b : Buffer) (p : PtInstr) : Prop where
  instr : ptInstr b.chars = some p
  accepted : ∀ pc size bytes, Announces (numbers b.chars) pc size bytes → size ≤ 16 →
    p.pc = pc ∧ p.size = size ∧ p.instBytes = bytes ++ List.replicate (16 - size) 0
  rejected : (∀ pc size bytes, Announces (numbers b.chars) pc size bytes → 16 < size) → p.pc = 0 ∧ Skipped b

def LineExact (b : Buffer) : Prop := ∃ p, Exact b p

/-- The bytes that a line announces are 16 at most, and each of them is one. -/
def InRange (t : List Nat) : Prop :=
  ∀ pc size bytes, Announces t pc size bytes → size ≤ 16 ∧ ∀ x ∈ bytes, x < 2 ^ 8

variable {cs : List Char} {t bytes : List Nat} {pc size fuel : Nat} {b : Buffer} {p : PtInstr}

section Numbers

theorem numbersFrom_congr {fuel fuel' : Nat} (h : cs.length ≤ fuel) (h' : cs.length ≤ fuel') :
    numbersFrom fuel cs = numbersFrom fuel' cs := by
  have hnil : strtoul [] = none := rfl
  induction fuel generalizing fuel' cs with
  | zero =>
      rw [List.length_eq_zero_iff.mp (Nat.le_zero.mp h)]
      cases fuel' with
      | zero => rfl
      | succ fuel' => simp only [numbersFrom, hnil]
  | succ fuel ih =>
      cases fuel' with
      | zero =>
          rw [List.length_eq_zero_iff.mp (Nat.le_zero.mp h')]
          simp only [numbersFrom, hnil]
      | succ fuel' =>
          simp only [numbersFrom]
          cases hs : strtoul cs with
          | none => rfl
          | some r =>
              have hshort := length_of_strtoul hs
              exact congrArg (List.cons r.1) (ih (by omega) (by omega))

/-- The turns suffice. -/
theorem numbers_eq (cs : List Char) : numbers cs = match strtoul cs with
    | none => []
    | some (n, rest) => n :: numbers rest := by
  have hmore : numbers cs = numbersFrom (cs.length + 1) cs := numbersFrom_congr le_rfl (Nat.le_succ _)
  rw [hmore, numbersFrom]
  cases hs : strtoul cs with
  | none => rfl
  | some r => exact congrArg (List.cons r.1) (numbersFrom_congr (length_of_strtoul hs).le le_rfl)

theorem length_numbersFrom (fuel : Nat) (cs : List Char) : (numbersFrom fuel cs).length ≤ fuel := by
  fun_induction numbersFrom fuel cs with
  | case1 cs => exact le_rfl
  | case2 fuel cs h => exact Nat.zero_le _
  | case3 fuel cs n rest h ih => exact Nat.succ_le_succ ih

theorem lt_of_mem_numbersFrom {n : Nat} (h : n ∈ numbersFrom fuel cs) : n < 2 ^ 64 := by
  fun_induction numbersFrom fuel cs with
  | case1 cs => exact absurd h List.not_mem_nil
  | case2 fuel cs hs => exact absurd h List.not_mem_nil
  | case3 fuel cs m rest hs ih =>
      rcases List.mem_cons.mp h with rfl | h
      · exact lt_of_strtoul hs
      · exact ih h

end Numbers

section Line

theorem writeByte_next {done : List Nat} {value n : Nat} :
    writeByte (done ++ List.replicate n 0) done.length value =
      if n = 0 then none else some (done ++ [value % 2 ^ 8] ++ List.replicate (n - 1) 0) := by
  rw [writeByte, List.length_append, List.length_replicate]
  cases n with
  | zero => rw [if_neg (by omega), if_pos rfl]
  | succ n =>
      rw [if_pos (by omega), if_neg (Nat.succ_ne_zero n), List.set_append_right _ _ le_rfl, Nat.sub_self,
        List.replicate_succ, List.set_cons_zero, List.append_assoc, Nat.add_sub_cancel]
      rfl

theorem copyBytes_eq (pc size : Nat) (bytes : List Nat) {k : Nat} (hk : k ≤ bytes.length) :
    (List.range' 2 k).foldlM (fun done i => writeByte done (i - 2) ((pc :: size :: bytes).getD i 0)) (List.replicate 16 0) =
      if k ≤ 16 then some ((bytes.take k).map (fun x => x % 2 ^ 8) ++ List.replicate (16 - k) 0) else none := by
  induction k with
  | zero => rfl
  | succ k ih =>
      have hlt : k < bytes.length := hk
      rw [List.range'_concat, List.foldlM_append, ih hlt.le]
      by_cases hroom : k ≤ 16
      · have hlen : ((bytes.take k).map (fun x => x % 2 ^ 8)).length = k := by
          rw [List.length_map, List.length_take, min_eq_left hlt.le]
        have hindex : 2 + 1 * k - 2 = ((bytes.take k).map (fun x => x % 2 ^ 8)).length := by omega
        have hvalue : (pc :: size :: bytes).getD (2 + 1 * k) 0 = bytes[k] := by
          rw [one_mul, Nat.add_comm, List.getD_cons_succ, List.getD_cons_succ, List.getD_eq_getElem?_getD,
            List.getElem?_eq_getElem hlt, Option.getD_some]
        rw [if_pos hroom]
        simp only [Option.bind_eq_bind, Option.bind_some, List.foldlM_cons, List.foldlM_nil]
        have hmore : (bytes.take k).map (fun x => x % 2 ^ 8) ++ [bytes[k] % 2 ^ 8] = (bytes.take (k + 1)).map (fun x => x % 2 ^ 8) := by
          rw [List.take_succ_eq_append_getElem hlt, List.map_append]
          rfl
        rw [hindex, hvalue, writeByte_next, hmore]
        by_cases hfull : 16 - k = 0
        · rw [if_pos hfull, if_neg (by omega)]
          rfl
        · rw [if_neg hfull, if_pos (by omega), Nat.sub_sub]
          rfl
      · rw [if_neg hroom, if_neg (by omega)]
        rfl

theorem ptInstr_announced (h : Announces (numbers cs) pc size bytes) (hfits : cs.length < gzBufferSize) :
    ptInstr cs = if size ≤ 16 then some ⟨pc, size, bytes.map (fun x => x % 2 ^ 8) ++ List.replicate (16 - size) 0⟩ else none := by
  obtain ⟨hnumbers, hne, rfl⟩ := h
  have hlen : bytes.length + 2 ≤ cs.length := by
    have hle := length_numbersFrom cs.length cs
    rw [← numbers, hnumbers] at hle
    exact hle
  have hpos := List.length_pos_iff.mpr hne
  rw [gzBufferSize] at hfits
  have hcond : ¬((pc :: bytes.length :: bytes).length < 3 ∨ (pc :: bytes.length :: bytes).length ≠
      ((pc :: bytes.length :: bytes).getD 1 0 + 2) % 2 ^ 64) := by
    simp only [List.length_cons, List.getD_cons_succ, List.getD_cons_zero]
    omega
  simp only [ptInstr, hnumbers]
  rw [if_neg hcond]
  show Option.map _ ((List.range' 2 bytes.length).foldlM _ _) = _
  rw [copyBytes_eq pc bytes.length bytes le_rfl, List.take_length]
  by_cases hroom : bytes.length ≤ 16
  · rw [if_pos hroom, if_pos hroom, Option.map_some]
    congr 2
    show bytes.length % 2 ^ 8 = bytes.length
    exact Nat.mod_eq_of_lt (by omega)
  · rw [if_neg hroom, if_neg hroom, Option.map_none]

theorem ptInstr_rejected (h : ∀ pc size bytes, ¬Announces (numbers cs) pc size bytes) :
    ptInstr cs = some ⟨0, 0, List.replicate 16 0⟩ := by
  rw [ptInstr]
  apply if_pos
  by_contra hcond
  rw [not_or, not_lt, not_not] at hcond
  obtain ⟨hlong, hcount⟩ := hcond
  match hnumbers : numbers cs with
  | [] =>
      rw [hnumbers] at hlong
      exact absurd hlong (by decide)
  | [pc] =>
      rw [hnumbers] at hlong
      exact absurd hlong (by simp)
  | pc :: size :: bytes =>
      rw [hnumbers] at hlong hcount
      have hmem : size ∈ numbers cs := by
        rw [hnumbers]
        exact List.mem_cons_of_mem _ List.mem_cons_self
      have hsize : size < 2 ^ 64 := lt_of_mem_numbersFrom hmem
      simp only [List.length_cons, List.getD_cons_succ, List.getD_cons_zero] at hlong hcount
      apply h pc size bytes
      refine ⟨hnumbers, List.length_pos_iff.mp (by omega), by omega⟩

theorem skipped_of_pc (h : ptInstr b.chars = some p) (hpc : p.pc = 0) : Skipped b := by
  intro file remaining rest turns hline
  rw [nextInstr, hline]
  simp only [h, hpc, if_true]

end Line

/-- The line is read exactly as long as no number in it is too large for its place: the loop that copies the bytes
trusts the length that the line announces. -/
theorem lineExact_iff (b : Buffer) : LineExact b ↔ InRange (numbers b.chars) := by
  constructor
  · rintro ⟨p, hp⟩ pc size bytes hann
    have hinstr := ptInstr_announced hann b.fits
    rw [hp.instr] at hinstr
    by_cases hroom : size ≤ 16
    · obtain ⟨-, -, hbytes⟩ := hp.accepted pc size bytes hann hroom
      rw [if_pos hroom, Option.some.injEq] at hinstr
      rw [hinstr] at hbytes
      have hsame : bytes.map (fun x => x % 2 ^ 8) = bytes := List.append_cancel_right hbytes
      refine ⟨hroom, fun x hx => ?_⟩
      have hfix : ∀ y ∈ bytes, y % 2 ^ 8 = y := by
        apply List.map_inj_left.mp
        rw [hsame, List.map_id']
      rw [← hfix x hx]
      exact Nat.mod_lt x (by decide)
    · rw [if_neg hroom] at hinstr
      cases hinstr
  · intro h
    by_cases hann : ∃ pc size bytes, Announces (numbers b.chars) pc size bytes
    · obtain ⟨pc, size, bytes, hann⟩ := hann
      obtain ⟨hroom, hbytes⟩ := h pc size bytes hann
      have hinstr := ptInstr_announced hann b.fits
      have hsame : bytes.map (fun x => x % 2 ^ 8) = bytes.map (fun x => x) :=
        List.map_congr_left (fun x hx => Nat.mod_eq_of_lt (hbytes x hx))
      rw [if_pos hroom, hsame, List.map_id'] at hinstr
      refine ⟨_, hinstr, fun pc' size' bytes' hann' _ => ?_, fun hnone => absurd hroom (not_le.mpr (hnone pc size bytes hann))⟩
      have heq := hann.1.symm.trans hann'.1
      rw [List.cons.injEq, List.cons.injEq] at heq
      obtain ⟨rfl, rfl, rfl⟩ := heq
      exact ⟨rfl, rfl, rfl⟩
    · have hnot : ∀ pc size bytes, ¬Announces (numbers b.chars) pc size bytes :=
        fun pc size bytes h => hann ⟨pc, size, bytes, h⟩
      have hinstr := ptInstr_rejected hnot
      exact ⟨_, hinstr, fun pc size bytes h => absurd h (hnot pc size bytes), fun _ => ⟨rfl, skipped_of_pc hinstr rfl⟩⟩

/-- It announces seventeen bytes, and has them. -/
def longLine : Buffer := ⟨"1 11 0 0 0 0 0 0 0 0 0 0 0 0 0 0 0 0 0\n".toList, by decide⟩

theorem longLine_overruns : numbers longLine.chars = 1 :: 17 :: List.replicate 17 0 ∧ ptInstr longLine.chars = none ∧
    ¬LineExact longLine := by
  have hnone : ptInstr longLine.chars = none := by decide +kernel
  refine ⟨by decide +kernel, hnone, ?_⟩
  rintro ⟨p, hp⟩
  have hinstr := hp.instr
  rw [hnone] at hinstr
  cases hinstr

end Thermometer.PtLine

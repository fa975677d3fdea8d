import Thermometer.Lib.HexText
import Thermometer.AccessRecord

namespace Thermometer.ProfileFile

open Trace Lib.Tables Lib.HexText AccessRecord

def recordHeader : List Char := "PC,Target,Type,Access Record".toList

def marksText (ms : List RecordType) : List Char := ms.flatMap (fun a => ',' :: hexText a.code)

def recordLine (ip : Nat) (e : RecordEntry) : List Char :=
  hexText ip ++ ',' :: (hexText e.target ++ ',' :: (hexText e.branchType.code ++ marksText e.record))

/-- The text of the record file, branches in ascending order. -/
def printFinalStats (r : Record) : List Char :=
  recordHeader ++ '\n' ::
    (iterate .ascending r.branchRecord).flatMap (fun a => recordLine a.1 a.2 ++ ['\n'])

inductive OptAccessRecordType
  | long
  | short
  deriving DecidableEq, Repr

def countMark (counts : Nat × Nat) (tmp : Nat) : Nat × Nat :=
  if tmp = RecordType.hit.code then (counts.1 + 1, counts.2)
  else if tmp = RecordType.missOnly.code ∨ tmp = RecordType.missInsert.code then (counts.1, counts.2 + 1)
  else counts

/-- The loop over the marks of a line. A turn eats a comma and a digit, so the
length of the text bounds the number of turns. -/
def readMarks : Nat → List Char → Nat × Nat → Option (Nat × Nat)
  | 0, _, counts => some counts
  | fuel + 1, cs, counts =>
      match readChar cs with
      | none => some counts
      | some (trash, cs) =>
          if trash = ',' then (readHex cs).bind (fun a => readMarks fuel a.2 (countMark counts a.1)) else none

def readComma (cs : List Char) : Option (List Char) :=
  (readChar cs).bind (fun a => if a.1 = ',' then some a.2 else none)

def compressCommas : List Char → List Char
  | ',' :: ',' :: cs => compressCommas (',' :: cs)
  | c :: cs => c :: compressCommas cs
  | [] => []

def trim (c : Char) (cs : List Char) : List Char :=
  ((cs.dropWhile (fun a => a = c)).reverse.dropWhile (fun a => a = c)).reverse

def hexStringToU64 (cs : List Char) : Nat :=
  hexValue ((if cs.take 2 = ['0', 'x'] then cs.drop 2 else cs).takeWhile isHexDigit)

variable {D : Type} [NatCast D] [Add D] [Div D]

def hitRatio (hit miss : Nat) : D := (hit : D) / ((hit : D) + (miss : D))

/-- `none` is a failed assertion, or a short line without its three columns. -/
def addToRecord (ty : OptAccessRecordType) (record : Table D) (line : List Char) : Option (Table D) :=
  match ty with
  | .long => do
      let (ip, cs) ← readHex line
      let cs ← readComma cs
      let (_, cs) ← readHex cs
      let cs ← readComma cs
      let (_, cs) ← readHex cs
      let (hit, miss) ← readMarks cs.length cs (0, 0)
      some (insertNew record ip (hitRatio hit miss))
  | .short =>
      match (compressCommas (trim ' ' (trim '\n' line))).splitOn ',' with
      | ip :: hit :: taken :: _ =>
          some (insertNew record (hexStringToU64 ip) ((hexStringToU64 hit : D) / (hexStringToU64 taken : D)))
      | _ => none

/-- The profile read from the text of a record file. -/
def initRecord (text : List Char) : Option (Table D) :=
  match lines text with
  | [] => some ∅
  | header :: ls =>
      ls.foldlM (addToRecord (if header = "PC,Hit,Taken".toList then .short else .long)) ∅

def hits (ms : List RecordType) : Nat := ms.count .hit

def misses (ms : List RecordType) : Nat := ms.count .missOnly + ms.count .missInsert

theorem head_marksText (ms : List RecordType) : ∀ c ∈ (marksText ms).head?, isHexDigit c = false := by
  cases ms with
  | nil =>
      intro c hc
      cases hc
  | cons a ms =>
      intro c hc
      have hcomma : ',' = c := by simpa [marksText] using hc
      rw [← hcomma]
      decide

theorem readMarks_marksText (ms : List RecordType) {fuel : Nat} (hf : (marksText ms).length ≤ fuel)
    (counts : Nat × Nat) :
    readMarks fuel (marksText ms) counts = some (counts.1 + hits ms, counts.2 + misses ms) := by
  induction ms generalizing fuel counts with
  | nil => cases fuel <;> rfl
  | cons a ms ih =>
      have htext : marksText (a :: ms) = ',' :: (hexText a.code ++ marksText ms) := by simp [marksText]
      rw [htext] at hf ⊢
      cases fuel with
      | zero => simp at hf
      | succ fuel =>
          have hlen : (marksText ms).length ≤ fuel := by
            rw [List.length_cons, List.length_append] at hf
            omega
          rw [readMarks, readChar_of_not_space (by decide)]
          simp only [if_true, readHex_hexText a.code (head_marksText ms), Option.bind_some]
          rw [ih hlen]
          cases a <;> simp [countMark, RecordType.code, hits, misses] <;> omega

theorem readComma_cons (cs : List Char) : readComma (',' :: cs) = some cs := by
  rw [readComma, readChar_of_not_space (by decide)]
  rfl

theorem comma_head (cs : List Char) : ∀ c ∈ (',' :: cs).head?, isHexDigit c = false := by
  intro c hc
  have hcomma : ',' = c := by simpa using hc
  rw [← hcomma]
  decide

theorem addToRecord_recordLine (record : Table D) (ip : Nat) (e : RecordEntry) :
    addToRecord .long record (recordLine ip e) =
      some (insertNew record ip (hitRatio (hits e.record) (misses e.record))) := by
  have hmarks := readMarks_marksText e.record (Nat.le_refl _) (0, 0)
  rw [Nat.zero_add, Nat.zero_add] at hmarks
  simp only [addToRecord, recordLine]
  rw [readHex_hexText ip (comma_head _)]
  simp only [Option.bind_eq_bind, Option.bind_some, readComma_cons]
  rw [readHex_hexText e.target (comma_head _)]
  simp only [Option.bind_some, readComma_cons]
  rw [readHex_hexText e.branchType.code (head_marksText _)]
  simp only [Option.bind_some, hmarks]

theorem newline_notMem_recordLine (ip : Nat) (e : RecordEntry) : '\n' ∉ recordLine ip e := by
  have hmarks : '\n' ∉ marksText e.record := by
    intro h
    obtain ⟨a, -, ha⟩ := List.mem_flatMap.mp h
    rcases List.mem_cons.mp ha with ha | ha
    · exact absurd ha (by decide)
    · exact newline_notMem_hexText _ ha
  have hcomma : '\n' ≠ ',' := by decide
  simp only [recordLine, List.mem_append, List.mem_cons, not_or]
  exact ⟨newline_notMem_hexText _, hcomma, newline_notMem_hexText _, hcomma, newline_notMem_hexText _, hmarks⟩

theorem lines_printFinalStats (r : Record) :
    lines (printFinalStats r) =
      recordHeader :: (iterate .ascending r.branchRecord).map (fun a => recordLine a.1 a.2) := by
  rw [printFinalStats, lines_append (by decide)]
  congr 1
  generalize iterate IterOrder.ascending r.branchRecord = l
  induction l with
  | nil => rfl
  | cons a l ih =>
      rw [List.flatMap_cons, List.append_assoc, List.singleton_append,
        lines_append (newline_notMem_recordLine a.1 a.2), ih, List.map_cons]

theorem foldlM_recordLine (l : List (Nat × RecordEntry)) (record : Table D) :
    (l.map (fun a => recordLine a.1 a.2)).foldlM (addToRecord .long) record =
      some ((l.map (fun a => (a.1, (hitRatio (hits a.2.record) (misses a.2.record) : D)))).foldl
        (fun t a => insertNew t a.1 a.2) record) := by
  induction l generalizing record with
  | nil => rfl
  | cons a l ih =>
      rw [List.map_cons, List.foldlM_cons, addToRecord_recordLine, List.map_cons, List.foldl_cons]
      exact ih _

theorem initRecord_printFinalStats (r : Record) :
    ∃ profile : Table D, initRecord (printFinalStats r) = some profile ∧
      ∀ ip q, profile.lookup ip = some q ↔
        ∃ e, r.branchRecord.lookup ip = some e ∧ q = hitRatio (hits e.record) (misses e.record) := by
  rw [initRecord, lines_printFinalStats]
  have hheader : recordHeader ≠ "PC,Hit,Taken".toList := by decide
  simp only [if_neg hheader, foldlM_recordLine]
  refine ⟨_, rfl, fun ip q => ?_⟩
  rw [lookup_foldl_insertNew]
  · rw [List.mem_map]
    constructor
    · rintro (h | ⟨a, ha, heq⟩)
      · rw [AList.lookup_empty] at h
        cases h
      · rw [Prod.mk.injEq] at heq
        obtain ⟨rfl, rfl⟩ := heq
        exact ⟨a.2, (mem_iterate _ _ _ _).mp ha, rfl⟩
    · rintro ⟨e, he, rfl⟩
      exact .inr ⟨(ip, e), (mem_iterate _ _ _ _).mpr he, rfl⟩
  · rw [List.map_map]
    exact nodup_iterate_keys _ _
  · intro a _ ha
    cases ha

end Thermometer.ProfileFile

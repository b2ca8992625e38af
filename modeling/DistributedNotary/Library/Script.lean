import DistributedNotary.Library.Sha256
import DistributedNotary.Library.Words
import Mathlib.Data.List.Induction
import Mathlib.Data.Nat.Digits.Lemmas

/-! Bitcoin's scripts: how bytes are read as instructions, how instructions are
written out as text, and what they do to a stack. Only those instructions run
that a hash time lock is made of. The names of the instructions and the checks
that need a transaction are parameters. -/
namespace DistributedNotary.Library.Script

abbrev Bytes := List UInt8

section Numbers

/-- The last `k` bytes of a number, most significant byte first. -/
def bytesOf : ℕ → ℕ → Bytes
  | 0, _ => []
  | k + 1, n => bytesOf k (n / 256) ++ [UInt8.ofNat n]

/-- The number whose bytes are listed, most significant byte first. -/
def ofBytes (b : Bytes) : ℕ := b.foldl (fun acc x => acc * 256 + x.toNat) 0

@[simp] theorem length_bytesOf (k n : ℕ) : (bytesOf k n).length = k := by
  induction k generalizing n with
  | zero => rfl
  | succ k ih => simp [bytesOf, ih]

@[simp] theorem ofBytes_concat (b : Bytes) (x : UInt8) : ofBytes (b ++ [x]) = ofBytes b * 256 + x.toNat := by
  simp [ofBytes]

theorem ofBytes_bytesOf (k n : ℕ) : ofBytes (bytesOf k n) = n % 256 ^ k := by
  induction k generalizing n with
  | zero => simp [bytesOf, ofBytes, Nat.mod_one]
  | succ k ih =>
    have hmod : n % 256 ^ (k + 1) = n % 256 + 256 * (n / 256 % 256 ^ k) := by rw [pow_succ', Nat.mod_mul]
    rw [bytesOf, ofBytes_concat, ih, UInt8.toNat_ofNat', hmod]
    omega

theorem map_toNat_bytesOf (k n : ℕ) :
    (bytesOf k n).map UInt8.toNat = (List.range k).map fun i => n / 256 ^ (k - 1 - i) % 256 := by
  induction k generalizing n with
  | zero => rfl
  | succ k ih =>
    rw [bytesOf, List.map_append, ih, List.range_succ, List.map_append]
    congr 1
    · apply List.map_congr_left
      intro i hi
      have hi := List.mem_range.mp hi
      rw [Nat.div_div_eq_div_mul, ← pow_succ']
      congr 3
      omega
    · simp

end Numbers

section Hex

def hexDigit (n : ℕ) : Char := "0123456789abcdef".toList.getD n '0'

/-- The hexadecimal digits of the bytes. -/
def hex (b : Bytes) : List Char := b.flatMap fun x => [hexDigit (x.toNat / 16), hexDigit (x.toNat % 16)]

@[simp] theorem hex_append (b c : Bytes) : hex (b ++ c) = hex b ++ hex c := List.flatMap_append

@[simp] theorem length_hex (b : Bytes) : (hex b).length = 2 * b.length := by
  induction b with
  | nil => rfl
  | cons x b ih =>
    have h : hex (x :: b) = hexDigit (x.toNat / 16) :: hexDigit (x.toNat % 16) :: hex b := rfl
    simp only [h, List.length_cons, ih]
    omega

theorem hexDigit_ne_blank (n : ℕ) : hexDigit n ≠ ' ' := by
  by_cases h : n < 16
  · have hall : ∀ m < 16, hexDigit m ≠ ' ' := by decide
    exact hall n h
  · have hlen : "0123456789abcdef".toList.length ≤ n := by
      simp only [String.length_toList]
      exact Nat.le_of_not_lt h
    rw [hexDigit, List.getD_eq_getElem?_getD, List.getElem?_eq_none hlen]
    decide

theorem blank_notMem_hex (b : Bytes) : ' ' ∉ hex b := by
  simp only [hex, List.mem_flatMap, List.mem_cons, List.not_mem_nil, or_false, not_exists, not_and, not_or]
  exact fun x _ => ⟨(hexDigit_ne_blank _).symm, (hexDigit_ne_blank _).symm⟩

end Hex

section Instructions

def OP_0 : UInt8 := 0x00
def OP_DATA_75 : UInt8 := 0x4b
def OP_PUSHDATA1 : UInt8 := 0x4c
def OP_PUSHDATA2 : UInt8 := 0x4d
def OP_PUSHDATA4 : UInt8 := 0x4e
def OP_1NEGATE : UInt8 := 0x4f
def OP_1 : UInt8 := 0x51
def OP_16 : UInt8 := 0x60
def OP_IF : UInt8 := 0x63
def OP_ELSE : UInt8 := 0x67
def OP_ENDIF : UInt8 := 0x68
def OP_DROP : UInt8 := 0x75
def OP_DUP : UInt8 := 0x76
def OP_EQUALVERIFY : UInt8 := 0x88
def OP_SHA256 : UInt8 := 0xa8
def OP_HASH160 : UInt8 := 0xa9
def OP_CHECKSIG : UInt8 := 0xac
def OP_CHECKLOCKTIMEVERIFY : UInt8 := 0xb1

/-- An instruction with the data it pushes. -/
structure Instr where
  opcode : UInt8
  data : Bytes := []
  deriving DecidableEq

/-- How many bytes after the opcode give the length of the data. -/
def lengthBytes (opcode : UInt8) : ℕ :=
  if opcode = OP_PUSHDATA1 then 1 else if opcode = OP_PUSHDATA2 then 2 else if opcode = OP_PUSHDATA4 then 4 else 0

/-- How much data the instruction has. -/
def dataLength (opcode : UInt8) (rest : Bytes) : ℕ :=
  if opcode ≤ OP_DATA_75 then opcode.toNat else ofBytes (rest.take (lengthBytes opcode)).reverse

/-- The first instruction of a script and what follows it. -/
def next : Bytes → Option (Instr × Bytes)
  | [] => none
  | opcode :: rest =>
    let k := lengthBytes opcode
    let n := dataLength opcode rest
    if rest.length < k + n then none else some (⟨opcode, (rest.drop k).take n⟩, rest.drop (k + n))

/-- The instructions of a script, of at most `fuel` of them. -/
def parseUpTo : ℕ → Bytes → Option (List Instr)
  | _, [] => some []
  | 0, _ :: _ => none
  | fuel + 1, x :: b => do
    let p ← next (x :: b)
    let is ← parseUpTo fuel p.2
    return p.1 :: is

/-- The instructions of a script, unless one is cut off. -/
def parse (b : Bytes) : Option (List Instr) := parseUpTo b.length b

theorem length_of_next {b rest : Bytes} {i : Instr} (h : next b = some (i, rest)) : rest.length < b.length := by
  cases b with
  | nil => cases h
  | cons opcode b =>
    simp only [next] at h
    split at h
    · cases h
    · cases h
      simp only [List.length_drop, List.length_cons]
      omega

theorem parseUpTo_eq_parse {fuel : ℕ} {b : Bytes} (h : b.length ≤ fuel) : parseUpTo fuel b = parse b := by
  induction fuel using Nat.strong_induction_on generalizing b with
  | _ fuel ih =>
    cases b with
    | nil => cases fuel <;> rfl
    | cons x b =>
      cases fuel with
      | zero => simp at h
      | succ fuel =>
        rcases hnext : next (x :: b) with _ | ⟨i, rest⟩
        · simp [parse, parseUpTo, hnext]
        · have hlen := length_of_next hnext
          have hb : b.length ≤ fuel := Nat.le_of_succ_le_succ h
          have hrest : rest.length ≤ b.length := Nat.le_of_lt_succ hlen
          simp only [parse, List.length_cons, parseUpTo, hnext, Option.bind_eq_bind, Option.bind_some]
          rw [ih fuel (Nat.lt_succ_self _) (hrest.trans hb)]
          rcases Nat.lt_or_eq_of_le hb with hlt | heq
          · rw [ih b.length (Nat.lt_succ_of_lt hlt) hrest]
          · rw [heq, ih fuel (Nat.lt_succ_self _) (hrest.trans hb)]

theorem parse_of_next {b rest : Bytes} {i : Instr} (h : next b = some (i, rest)) :
    parse b = (parse rest).map (List.cons i) := by
  cases b with
  | nil => cases h
  | cons x b =>
    have hrest : rest.length ≤ b.length := Nat.le_of_lt_succ (length_of_next h)
    simp only [parse, List.length_cons, parseUpTo, h, Option.bind_eq_bind, Option.bind_some]
    rw [parseUpTo_eq_parse hrest, parse]
    cases parseUpTo rest.length rest <;> rfl

/-- An instruction without data. -/
theorem next_opcode {opcode : UInt8} (h : OP_PUSHDATA4 < opcode) (rest : Bytes) :
    next (opcode :: rest) = some (⟨opcode, []⟩, rest) := by
  have h75 : ¬ opcode ≤ OP_DATA_75 := by
    rw [UInt8.le_iff_toNat_le]
    rw [UInt8.lt_iff_toNat_lt] at h
    have h1 : OP_PUSHDATA4.toNat = 78 := rfl
    have h2 : OP_DATA_75.toNat = 75 := rfl
    omega
  have hk : lengthBytes opcode = 0 := by
    unfold lengthBytes
    rw [if_neg, if_neg, if_neg] <;> rintro rfl <;> exact absurd h (by decide)
  simp [next, dataLength, hk, h75, ofBytes]

/-- A push whose opcode is the length of the data. -/
theorem next_data {d : Bytes} (h : d.length ≤ 75) (rest : Bytes) :
    next (UInt8.ofNat d.length :: (d ++ rest)) = some (⟨UInt8.ofNat d.length, d⟩, rest) := by
  have hnat : (UInt8.ofNat d.length).toNat = d.length := by
    rw [UInt8.toNat_ofNat']
    omega
  have h75 : UInt8.ofNat d.length ≤ OP_DATA_75 := by
    rw [UInt8.le_iff_toNat_le, hnat]
    exact h
  have hk : lengthBytes (UInt8.ofNat d.length) = 0 := by
    unfold lengthBytes
    rw [if_neg, if_neg, if_neg] <;> intro heq <;> rw [heq] at h75 <;> exact absurd h75 (by decide)
  simp [next, dataLength, hk, h75, hnat]

/-- A push whose length is given in the byte after the opcode. -/
theorem next_pushdata1 {d : Bytes} (h : d.length ≤ 255) (rest : Bytes) :
    next (OP_PUSHDATA1 :: UInt8.ofNat d.length :: (d ++ rest)) = some (⟨OP_PUSHDATA1, d⟩, rest) := by
  have hnat : (UInt8.ofNat d.length).toNat = d.length := by
    rw [UInt8.toNat_ofNat']
    omega
  have h75 : ¬ OP_PUSHDATA1 ≤ OP_DATA_75 := by decide
  have hk : lengthBytes OP_PUSHDATA1 = 1 := rfl
  have hof : ofBytes [UInt8.ofNat d.length] = d.length := by simp [ofBytes, hnat]
  simp only [next, dataLength, hk, if_neg h75, List.take_succ_cons, List.take_zero, List.reverse_singleton, hof]
  rw [if_neg (by simp; omega), Nat.add_comm 1 d.length]
  simp

/-- The names of the instructions that are not written as what they push. -/
structure OpcodeNames where
  name : UInt8 → List Char
  starts : ∀ opcode, (name opcode).head? = some 'O'
  noBlank : ∀ opcode, ' ' ∉ name opcode

namespace Instr

variable (names : OpcodeNames)

/-- The instruction in a script that is written out on one line. -/
def text (i : Instr) : List Char :=
  if i.opcode = OP_0 then "0".toList
  else if i.opcode ≤ OP_PUSHDATA4 then hex i.data
  else if i.opcode = OP_1NEGATE then "-1".toList
  else if OP_1 ≤ i.opcode ∧ i.opcode ≤ OP_16 then Nat.toDigits 10 (i.opcode.toNat - 80)
  else names.name i.opcode

/-- What the instruction pushes, if it only pushes. -/
def pushed (i : Instr) : Option Bytes :=
  if i.opcode ≤ OP_PUSHDATA4 then some i.data
  else if i.opcode = OP_1NEGATE then some [0x81]
  else if OP_1 ≤ i.opcode ∧ i.opcode ≤ OP_16 then some [i.opcode - 80]
  else none

/-- The numbers that are written in decimal. -/
theorem toDigits_smallInt : ∀ n ≤ 16, ' ' ∉ Nat.toDigits 10 n ∧ (Nat.toDigits 10 n = "0".toList ↔ n = 0) ∧
    (Nat.toDigits 10 n = "1".toList ↔ n = 1) := by decide

theorem smallInt_bounds {opcode : UInt8} (h : OP_1 ≤ opcode ∧ opcode ≤ OP_16) :
    1 ≤ opcode.toNat - 80 ∧ opcode.toNat - 80 ≤ 16 := by
  have h1 : OP_1.toNat ≤ opcode.toNat := UInt8.le_iff_toNat_le.mp h.1
  have h16 : opcode.toNat ≤ OP_16.toNat := UInt8.le_iff_toNat_le.mp h.2
  have e1 : OP_1.toNat = 81 := rfl
  have e16 : OP_16.toNat = 96 := rfl
  omega

theorem blank_notMem_text (i : Instr) : ' ' ∉ i.text names := by
  unfold text
  split
  · decide
  · split
    · exact blank_notMem_hex i.data
    · split
      · decide
      · split
        · rename_i h
          exact (toDigits_smallInt _ (smallInt_bounds h).2).1
        · exact names.noBlank i.opcode

theorem hex_ne_singleton (b : Bytes) (x : Char) : hex b ≠ [x] := by
  intro h
  have hlen := congrArg List.length h
  rw [length_hex, List.length_singleton] at hlen
  omega

theorem name_ne_of_ne (opcode : UInt8) {x : Char} (h : x ≠ 'O') (r : List Char) : names.name opcode ≠ x :: r := by
  intro heq
  have hstart := names.starts opcode
  rw [heq, List.head?_cons, Option.some.injEq] at hstart
  exact h hstart

/-- Only the instruction that pushes nothing is written as zero. -/
theorem text_eq_zero_iff (i : Instr) : i.text names = "0".toList ↔ i.opcode = OP_0 := by
  constructor
  · intro h
    unfold text at h
    split at h
    · assumption
    · split at h
      · exact absurd h (hex_ne_singleton i.data '0')
      · split at h
        · exact absurd h (by decide)
        · split at h
          · rename_i hsmall
            have hbounds := smallInt_bounds hsmall
            have hzero := (toDigits_smallInt _ hbounds.2).2.1.mp h
            omega
          · exact absurd h (name_ne_of_ne names i.opcode (by decide) [])
  · intro h
    rw [text, if_pos h]

/-- Only the instruction that pushes one is written as one. -/
theorem text_eq_one_iff (i : Instr) : i.text names = "1".toList ↔ i.opcode = OP_1 := by
  constructor
  · intro h
    unfold text at h
    split at h
    · exact absurd h (by decide)
    · split at h
      · exact absurd h (hex_ne_singleton i.data '1')
      · split at h
        · exact absurd h (by decide)
        · split at h
          · rename_i hsmall
            have hone := (toDigits_smallInt _ (smallInt_bounds hsmall).2).2.2.mp h
            apply UInt8.toNat.inj
            have e1 : OP_1.toNat = 81 := rfl
            omega
          · exact absurd h (name_ne_of_ne names i.opcode (by decide) [])
  · intro h
    have h0 : ¬ OP_1 = OP_0 := by decide
    have h4 : ¬ OP_1 ≤ OP_PUSHDATA4 := by decide
    have hneg : ¬ OP_1 = OP_1NEGATE := by decide
    have hsmall : OP_1 ≤ OP_1 ∧ OP_1 ≤ OP_16 := by decide
    rw [text, h, if_neg h0, if_neg h4, if_neg hneg, if_pos hsmall]
    decide

end Instr

/-- The text of a script. -/
def disasm (names : OpcodeNames) (is : List Instr) : List Char := unwords ' ' (is.map (Instr.text names))

end Instructions

section Building

/-- The push of the data with the shortest instruction. -/
def addData : Bytes → Bytes
  | [] => [OP_0]
  | [x] => if x = 0 then [OP_0] else if x ≤ 16 then [OP_1 - 1 + x] else if x = 0x81 then [OP_1NEGATE] else [1, x]
  | d =>
    if d.length ≤ 75 then UInt8.ofNat d.length :: d
    else if d.length ≤ 255 then OP_PUSHDATA1 :: UInt8.ofNat d.length :: d
    else if d.length ≤ 65535 then OP_PUSHDATA2 :: (bytesOf 2 d.length).reverse ++ d
    else OP_PUSHDATA4 :: (bytesOf 4 d.length).reverse ++ d

/-- A number, least significant byte first, with the sign in the highest bit. -/
def scriptNum (n : ℤ) : Bytes :=
  let b := (Nat.digits 256 n.natAbs).map UInt8.ofNat
  match b.getLast? with
  | none => []
  | some x =>
    if 0x80 ≤ x then b ++ [if n < 0 then 0x80 else 0]
    else if n < 0 then b.dropLast ++ [x + 0x80]
    else b

def addInt64 (n : Int64) : Bytes :=
  if n = 0 then [OP_0]
  else if n = -1 then [OP_1NEGATE]
  else if 1 ≤ n ∧ n ≤ 16 then [OP_1 - 1 + UInt8.ofNat n.toInt.toNat]
  else addData (scriptNum n.toInt)

/-- The instruction neither opens nor closes nor changes a conditional. -/
def Instr.Plain (i : Instr) : Prop := i.opcode ≠ OP_IF ∧ i.opcode ≠ OP_ELSE ∧ i.opcode ≠ OP_ENDIF

/-- The instruction pushes data and changes no conditional. -/
structure Instr.Pushes (i : Instr) : Prop where
  plain : i.Plain
  pushed : ∃ d, i.pushed = some d

theorem pushes_of_le {i : Instr} (h : i.opcode ≤ OP_PUSHDATA4) : i.Pushes := by
  refine ⟨⟨?_, ?_, ?_⟩, i.data, by rw [Instr.pushed, if_pos h]⟩ <;> intro heq <;> rw [heq] at h <;>
    exact absurd h (by decide)

theorem pushes_1negate : Instr.Pushes ⟨OP_1NEGATE, []⟩ := ⟨⟨by decide, by decide, by decide⟩, [0x81], by decide⟩

/-- The instructions that push the numbers up to sixteen. -/
theorem pushes_smallInt {x : UInt8} (h0 : x ≠ 0) (h16 : x ≤ 16) :
    OP_PUSHDATA4 < OP_1 - 1 + x ∧ Instr.Pushes ⟨OP_1 - 1 + x, []⟩ := by
  have hall : ∀ n < 17, n ≠ 0 → OP_PUSHDATA4 < OP_1 - 1 + UInt8.ofNat n ∧
      (OP_1 - 1 + UInt8.ofNat n ≠ OP_IF ∧ OP_1 - 1 + UInt8.ofNat n ≠ OP_ELSE ∧ OP_1 - 1 + UInt8.ofNat n ≠ OP_ENDIF) ∧
      (Instr.pushed ⟨OP_1 - 1 + UInt8.ofNat n, []⟩).isSome = true := by decide
  have hlt : x.toNat < 17 := Nat.lt_succ_of_le (UInt8.le_iff_toNat_le.mp h16)
  have hne : x.toNat ≠ 0 := fun h => h0 (UInt8.toNat.inj h)
  obtain ⟨h, hplain, hsome⟩ := hall x.toNat hlt hne
  rw [UInt8.ofNat_toNat] at h hplain hsome
  exact ⟨h, hplain, Option.isSome_iff_exists.mp hsome⟩

theorem ofNat_le_of_le {n : ℕ} (h : n ≤ 75) : UInt8.ofNat n ≤ OP_DATA_75 := by
  rw [UInt8.le_iff_toNat_le, UInt8.toNat_ofNat', Nat.mod_eq_of_lt (by omega)]
  exact h

theorem addData_of_length {d : Bytes} (h : 2 ≤ d.length) (h75 : d.length ≤ 75) :
    addData d = UInt8.ofNat d.length :: d := by
  match d, h with
  | x :: y :: d, _ => simp only [addData, if_pos h75]

/-- Data of some length is pushed by the instruction that is its length. -/
theorem next_addData {d : Bytes} (h : 2 ≤ d.length) (h75 : d.length ≤ 75) (rest : Bytes) :
    next (addData d ++ rest) = some (⟨UInt8.ofNat d.length, d⟩, rest) := by
  rw [addData_of_length h h75, List.cons_append, next_data h75]

theorem next_addData_pushdata1 {d : Bytes} (h : 75 < d.length) (h255 : d.length ≤ 255) (rest : Bytes) :
    next (addData d ++ rest) = some (⟨OP_PUSHDATA1, d⟩, rest) := by
  have hadd : addData d = OP_PUSHDATA1 :: UInt8.ofNat d.length :: d := by
    match d, h with
    | x :: y :: d, h => simp only [addData, if_neg (Nat.not_le_of_lt h), if_pos h255]
  rw [hadd, List.cons_append, List.cons_append, next_pushdata1 h255]

/-- Short data is pushed by one instruction. -/
theorem exists_next_addData {d : Bytes} (h : d.length ≤ 75) :
    ∃ i : Instr, i.Pushes ∧ ∀ rest, next (addData d ++ rest) = some (i, rest) := by
  match d with
  | [] => exact ⟨⟨OP_0, []⟩, pushes_of_le (by decide), fun rest => next_data (d := []) (by simp) rest⟩
  | [x] =>
    by_cases h0 : x = 0
    · subst h0
      exact ⟨⟨OP_0, []⟩, pushes_of_le (by decide), fun rest => next_data (d := []) (by simp) rest⟩
    · by_cases h16 : x ≤ 16
      · obtain ⟨hlt, hpushes⟩ := pushes_smallInt h0 h16
        refine ⟨_, hpushes, fun rest => ?_⟩
        simp only [addData, if_neg h0, if_pos h16]
        exact next_opcode hlt rest
      · by_cases h81 : x = 0x81
        · subst h81
          exact ⟨⟨OP_1NEGATE, []⟩, pushes_1negate, fun rest => next_opcode (by decide) rest⟩
        · refine ⟨⟨1, [x]⟩, pushes_of_le (by show (1 : UInt8) ≤ OP_PUSHDATA4; decide), fun rest => ?_⟩
          simp only [addData, if_neg h0, if_neg h16, if_neg h81]
          exact next_data (d := [x]) (by simp) rest
  | x :: y :: d =>
    refine ⟨⟨UInt8.ofNat (x :: y :: d).length, x :: y :: d⟩, pushes_of_le ?_, next_addData (by simp) h⟩
    exact UInt8.le_trans (ofNat_le_of_le h) (by decide)

theorem length_scriptNum_le (n : Int64) : (scriptNum n.toInt).length ≤ 9 := by
  have habs : n.toInt.natAbs < 256 ^ 8 := by
    have hlo := n.le_toInt
    have hhi := n.toInt_lt
    omega
  have hlen : ((Nat.digits 256 n.toInt.natAbs).map UInt8.ofNat).length ≤ 8 := by
    rw [List.length_map]
    exact (Nat.digits_length_le_iff (by decide) _).mpr habs
  unfold scriptNum
  dsimp only
  split
  · simp
  · split
    · simp only [List.length_append, List.length_singleton]
      omega
    · split
      · simp only [List.length_append, List.length_dropLast, List.length_singleton]
        omega
      · omega

/-- A number is pushed by one instruction. -/
theorem exists_next_addInt64 (n : Int64) :
    ∃ i : Instr, i.Pushes ∧ ∀ rest, next (addInt64 n ++ rest) = some (i, rest) := by
  unfold addInt64
  split
  · exact ⟨⟨OP_0, []⟩, pushes_of_le (by decide), fun rest => next_data (d := []) (by simp) rest⟩
  · split
    · exact ⟨⟨OP_1NEGATE, []⟩, pushes_1negate, fun rest => next_opcode (by decide) rest⟩
    · split
      · rename_i h
        have hlo : (1 : ℤ) ≤ n.toInt := Int64.le_iff_toInt_le.mp h.1
        have hhi : n.toInt ≤ 16 := Int64.le_iff_toInt_le.mp h.2
        have hnat : (UInt8.ofNat n.toInt.toNat).toNat = n.toInt.toNat := by
          rw [UInt8.toNat_ofNat']
          omega
        have h0 : UInt8.ofNat n.toInt.toNat ≠ 0 := by
          intro heq
          have hz : n.toInt.toNat = 0 := by rw [← hnat, heq]; rfl
          omega
        have h16 : UInt8.ofNat n.toInt.toNat ≤ 16 := by
          rw [UInt8.le_iff_toNat_le, hnat]
          show n.toInt.toNat ≤ 16
          omega
        obtain ⟨hlt, hpushes⟩ := pushes_smallInt h0 h16
        exact ⟨_, hpushes, fun rest => next_opcode hlt rest⟩
      · exact exists_next_addData ((length_scriptNum_le n).trans (by decide))

theorem length_addData_le {d : Bytes} (h : d.length ≤ 75) : (addData d).length ≤ d.length + 1 := by
  match d with
  | [] => simp [addData]
  | [x] =>
    simp only [addData]
    split
    · simp
    · split
      · simp
      · split <;> simp
  | x :: y :: d => rw [addData_of_length (by simp) h, List.length_cons]

theorem length_addInt64_le (n : Int64) : (addInt64 n).length ≤ 10 := by
  unfold addInt64
  split
  · simp
  · split
    · simp
    · split
      · simp
      · have hlen := length_scriptNum_le n
        have hadd := length_addData_le (hlen.trans (by decide))
        omega

end Building

section Execution

/-- The checks that depend on the transaction that is run for, and a hash. -/
structure Checks where
  hash160 : Bytes → Bytes
  checkSig : (sig key : Bytes) → Bool
  checkLockTime : Bytes → Bool

/-- Whether a branch of a conditional is run, or stands in one that is not run. -/
inductive Cond where
  | on
  | off
  | skip
  deriving DecidableEq

def Cond.toggle : Cond → Cond
  | .on => .off
  | .off => .on
  | .skip => .skip

/-- The stack, top first, and the open conditionals, innermost first. -/
structure State where
  stack : List Bytes
  conds : List Cond := []
  deriving DecidableEq

/-- Any value but zero and negative zero is true. -/
def asBool (b : Bytes) : Bool :=
  match b.getLast? with
  | none => false
  | some x => b.dropLast.any (· ≠ 0) || (x ≠ 0 && x ≠ 0x80)

def fromBool (b : Bool) : Bytes := if b then [1] else []

@[simp] theorem asBool_fromBool (b : Bool) : asBool (fromBool b) = b := by cases b <;> rfl

def sha256 (b : Bytes) : Bytes := bytesOf 32 (Sha256.digest (b.map UInt8.toNat))

/-- All conditionals are closed and true is on top of the stack. -/
def State.succeeds : State → Bool
  | ⟨top :: _, []⟩ => asBool top
  | _ => false

def State.executing (s : State) : Bool := s.conds.all fun x => x = .on

namespace Checks

variable (c : Checks)

/-- What an instruction that is no push and no conditional does to the stack. -/
def op (opcode : UInt8) (stack : List Bytes) : Option (List Bytes) :=
  if opcode = OP_DUP then
    match stack with
    | x :: st => some (x :: x :: st)
    | _ => none
  else if opcode = OP_DROP then
    match stack with
    | _ :: st => some st
    | _ => none
  else if opcode = OP_EQUALVERIFY then
    match stack with
    | x :: y :: st => if x = y then some st else none
    | _ => none
  else if opcode = OP_SHA256 then
    match stack with
    | x :: st => some (sha256 x :: st)
    | _ => none
  else if opcode = OP_HASH160 then
    match stack with
    | x :: st => some (c.hash160 x :: st)
    | _ => none
  else if opcode = OP_CHECKSIG then
    match stack with
    | key :: sig :: st => some (fromBool (c.checkSig sig key) :: st)
    | _ => none
  else if opcode = OP_CHECKLOCKTIMEVERIFY then
    match stack with
    | x :: st => if c.checkLockTime x then some (x :: st) else none
    | _ => none
  else none

/-- What an instruction that is no conditional does to the stack. -/
def plain (i : Instr) (stack : List Bytes) : Option (List Bytes) :=
  match i.pushed with
  | some d => some (d :: stack)
  | none => c.op i.opcode stack

def exec (i : Instr) (s : State) : Option State :=
  if i.opcode = OP_IF then
    if s.executing then
      match s.stack with
      | top :: st => some ⟨st, (if asBool top then .on else .off) :: s.conds⟩
      | [] => none
    else some { s with conds := .skip :: s.conds }
  else if i.opcode = OP_ELSE then
    match s.conds with
    | x :: xs => some { s with conds := x.toggle :: xs }
    | [] => none
  else if i.opcode = OP_ENDIF then
    match s.conds with
    | _ :: xs => some { s with conds := xs }
    | [] => none
  else if s.executing then (c.plain i s.stack).map fun st => { s with stack := st }
  else some s

def run : List Instr → State → Option State
  | [], s => some s
  | i :: is, s => (c.exec i s).bind (run is)

def runPlain : List Instr → List Bytes → Option (List Bytes)
  | [], st => some st
  | i :: is, st => (c.plain i st).bind (runPlain is)

/-- The script runs to its end and succeeds. -/
def accepts (script : Bytes) (stack : List Bytes) : Bool :=
  match parse script with
  | none => false
  | some is => (c.run is ⟨stack, []⟩).any State.succeeds

end Checks

/-- What a script that only pushes leaves on the stack, top first. -/
def pushes (is : List Instr) : Option (List Bytes) := (is.mapM Instr.pushed).map List.reverse

section Conditionals

variable {c : Checks} {is : List Instr}

theorem run_append (is is' : List Instr) (s : State) : c.run (is ++ is') s = (c.run is s).bind (c.run is') := by
  induction is generalizing s with
  | nil => rfl
  | cons i is ih =>
    rw [List.cons_append, Checks.run, Checks.run, Option.bind_assoc]
    exact congrArg _ (funext ih)

/-- Outside of branches that are not run, the conditionals do not matter. -/
theorem run_of_plain (h : ∀ i ∈ is, i.Plain) {s : State} (hs : s.executing = true) :
    c.run is s = (c.runPlain is s.stack).map fun st => { s with stack := st } := by
  induction is generalizing s with
  | nil => rfl
  | cons i is ih =>
    obtain ⟨hif, helse, hendif⟩ := h i List.mem_cons_self
    rw [Checks.run, Checks.runPlain, Checks.exec, if_neg hif, if_neg helse, if_neg hendif, if_pos hs]
    rcases c.plain i s.stack with _ | st
    · rfl
    · exact ih (fun j hj => h j (List.mem_cons_of_mem _ hj)) hs

/-- A branch that is not run changes nothing. -/
theorem run_of_not_executing (h : ∀ i ∈ is, i.Plain) {s : State} (hs : s.executing = false) : c.run is s = some s := by
  induction is with
  | nil => rfl
  | cons i is ih =>
    obtain ⟨hif, helse, hendif⟩ := h i List.mem_cons_self
    rw [Checks.run, Checks.exec, if_neg hif, if_neg helse, if_neg hendif, if_neg (by simp [hs])]
    exact ih fun j hj => h j (List.mem_cons_of_mem _ hj)

/-- A script that is one conditional runs the branch that the value on top of the stack selects. -/
theorem run_ifElse {a b : List Instr} (ha : ∀ i ∈ a, i.Plain) (hb : ∀ i ∈ b, i.Plain) (top : Bytes) (st : List Bytes) :
    c.run (⟨OP_IF, []⟩ :: a ++ ⟨OP_ELSE, []⟩ :: b ++ [⟨OP_ENDIF, []⟩]) ⟨top :: st, []⟩ =
      (c.runPlain (if asBool top then a else b) st).map fun st => ⟨st, []⟩ := by
  have hif : c.exec ⟨OP_IF, []⟩ ⟨top :: st, []⟩ = some ⟨st, [if asBool top then .on else .off]⟩ := rfl
  have helse : ∀ st x, c.exec ⟨OP_ELSE, []⟩ ⟨st, [x]⟩ = some ⟨st, [x.toggle]⟩ := fun _ _ => rfl
  have hendif : ∀ st x, c.run [⟨OP_ENDIF, []⟩] ⟨st, [x]⟩ = some ⟨st, []⟩ := fun _ _ => rfl
  rw [run_append, List.cons_append, Checks.run, hif, Option.bind_some, run_append]
  cases asBool top with
  | true =>
    simp only [if_true]
    rw [run_of_plain ha (s := ⟨st, [.on]⟩) rfl]
    rcases c.runPlain a st with _ | st'
    · rfl
    · simp only [Option.map_some, Option.bind_some, Checks.run, helse, Cond.toggle]
      rw [run_of_not_executing hb (s := ⟨st', [.off]⟩) rfl, Option.bind_some]
      exact hendif st' .off
  | false =>
    simp only [if_neg Bool.false_ne_true]
    rw [run_of_not_executing ha (s := ⟨st, [.off]⟩) rfl]
    simp only [Option.bind_some, Checks.run, helse, Cond.toggle]
    rw [run_of_plain hb (s := ⟨st, [.on]⟩) rfl]
    rcases c.runPlain b st with _ | st'
    · rfl
    · exact hendif st' .on

end Conditionals

end Execution

end DistributedNotary.Library.Script

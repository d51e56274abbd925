import Mathlib.Algebra.Ring.Nat
import Mathlib.Data.List.Basic

/-!
# UTF-8

`encode` writes a text as bytes.  A decoder scans for one character at a time: `scan` gives it, or
nothing for bytes that no character has, and how many continuation bytes belong to it.  Then
`decodeStrict` refuses such bytes, and `decodeReplace` puts one replacement character for each longest
run of bytes that begin a character.

`scan_encodeChar` and `encodeChar_of_scan` say that the scan is the inverse of the encoding.  A text
that is cut is cut between two characters or inside one (`encode_split`), and inside one the two parts
decode to more characters than the whole (`length_lt_of_cut`).
-/

namespace Library.Utf8

abbrev Bytes := List UInt8

/-- A byte of a number below 256. -/
abbrev byte (n : Nat) : UInt8 := UInt8.ofNat n

def encodeChar (c : Char) : Bytes :=
  let n := c.toNat
  if n < 0x80 then [byte n]
  else if n < 0x800 then [byte (0xc0 + n / 64), byte (0x80 + n % 64)]
  else if n < 0x10000 then [byte (0xe0 + n / 4096), byte (0x80 + n / 64 % 64), byte (0x80 + n % 64)]
  else [byte (0xf0 + n / 262144), byte (0x80 + n / 4096 % 64), byte (0x80 + n / 64 % 64),
    byte (0x80 + n % 64)]

def encode (text : List Char) : Bytes := text.flatMap encodeChar

/-- How many continuation bytes a first byte wants, and the bounds of the first of them. -/
def sequence (n : Nat) : Option (Nat × Nat × Nat) :=
  if n < 0x80 then some (0, 0x80, 0xbf)
  else if 0xc2 ≤ n ∧ n ≤ 0xdf then some (1, 0x80, 0xbf)
  else if n = 0xe0 then some (2, 0xa0, 0xbf)
  else if n = 0xed then some (2, 0x80, 0x9f)
  else if 0xe1 ≤ n ∧ n ≤ 0xef then some (2, 0x80, 0xbf)
  else if n = 0xf0 then some (3, 0x90, 0xbf)
  else if n = 0xf4 then some (3, 0x80, 0x8f)
  else if 0xf1 ≤ n ∧ n ≤ 0xf3 then some (3, 0x80, 0xbf)
  else none

/-- The payloads of the continuation bytes that are there, of those wanted. -/
def tails : Nat → Nat → Nat → Bytes → List Nat
  | 0, _, _, _ => []
  | _ + 1, _, _, [] => []
  | k + 1, low, high, b :: rest =>
      if low ≤ b.toNat ∧ b.toNat ≤ high then b.toNat % 64 :: tails k 0x80 0xbf rest else []

/-- The payload of a first byte that wants so many continuation bytes. -/
def payload (n k : Nat) : Nat := if k = 0 then n else n % 2 ^ (6 - k)

/-- The character at the front and the number of its continuation bytes. -/
def scan (b : UInt8) (rest : Bytes) : Option Char × Nat :=
  match sequence b.toNat with
  | none => (none, 0)
  | some (k, low, high) =>
      let found := tails k low high rest
      if found.length = k then
        (some (Char.ofNat (found.foldl (fun n t => n * 64 + t) (payload b.toNat k))), k)
      else (none, found.length)

/-- `bytes.decode("utf-8", errors="replace")`, the first bytes being read already. -/
def decodeFrom : Nat → Bytes → List Char
  | _, [] => []
  | k + 1, _ :: rest => decodeFrom k rest
  | 0, b :: rest => (scan b rest).1.getD '\uFFFD' :: decodeFrom (scan b rest).2 rest

def decodeReplace (bytes : Bytes) : List Char := decodeFrom 0 bytes

/-- `bytes.decode("utf-8")`, the first bytes being read already. -/
def decodeStrictFrom : Nat → Bytes → Option (List Char)
  | _, [] => some []
  | k + 1, _ :: rest => decodeStrictFrom k rest
  | 0, b :: rest => do
      let c ← (scan b rest).1
      let text ← decodeStrictFrom (scan b rest).2 rest
      some (c :: text)

def decodeStrict (bytes : Bytes) : Option (List Char) := decodeStrictFrom 0 bytes

/-- A byte that begins no character. -/
def IsTail (b : UInt8) : Prop := 0x80 ≤ b.toNat ∧ b.toNat ≤ 0xbf

instance : DecidablePred IsTail := fun _ => inferInstanceAs (Decidable (_ ∧ _))

/-! ## One character -/

theorem toNat_byte {n : Nat} (small : n < 256) : (byte n).toNat = n := by
  rw [UInt8.toNat_ofNat']
  exact Nat.mod_eq_of_lt small

theorem toNat_lt (c : Char) : c.toNat < 0xd800 ∨ (0xdfff < c.toNat ∧ c.toNat < 0x110000) := by
  rcases c.valid with h | ⟨h, h'⟩
  · exact .inl h
  · exact .inr ⟨h, h'⟩

theorem sequence_two {n : Nat} (h : 0xc2 ≤ n ∧ n ≤ 0xdf) : sequence n = some (1, 0x80, 0xbf) := by
  rw [sequence, if_neg (by omega), if_pos h]

theorem sequence_three {n : Nat} (h : 0xe0 ≤ n ∧ n ≤ 0xef) : sequence n =
    some (2, if n = 0xe0 then 0xa0 else 0x80, if n = 0xed then 0x9f else 0xbf) := by
  unfold sequence
  split_ifs <;> first | rfl | omega

theorem sequence_four {n : Nat} (h : 0xf0 ≤ n ∧ n ≤ 0xf4) : sequence n =
    some (3, if n = 0xf0 then 0x90 else 0x80, if n = 0xf4 then 0x8f else 0xbf) := by
  unfold sequence
  split_ifs <;> first | rfl | omega

theorem tails_cons {k low high : Nat} {b : UInt8} (h : low ≤ b.toNat ∧ b.toNat ≤ high)
    (rest : Bytes) : tails (k + 1) low high (b :: rest) = b.toNat % 64 :: tails k 0x80 0xbf rest :=
  if_pos h

/-- The scan of a first byte whose continuation bytes are all there. -/
theorem scan_of_tails {b : UInt8} {k low high : Nat} {found : List Nat} {rest : Bytes}
    (first : sequence b.toNat = some (k, low, high)) (all : tails k low high rest = found)
    (enough : found.length = k) : scan b rest =
      (some (Char.ofNat (found.foldl (fun n t => n * 64 + t) (payload b.toNat k))), k) := by
  unfold scan
  rw [first]
  dsimp only
  rw [all, if_pos enough]

theorem scan_one {b : UInt8} (h : b.toNat < 0x80) (rest : Bytes) :
    scan b rest = (some (Char.ofNat b.toNat), 0) :=
  scan_of_tails (by rw [sequence, if_pos h]) rfl rfl

theorem scan_two {b b₁ : UInt8} (h : 0xc2 ≤ b.toNat ∧ b.toNat ≤ 0xdf) (h₁ : IsTail b₁)
    (rest : Bytes) : scan b (b₁ :: rest) =
      (some (Char.ofNat (b.toNat % 32 * 64 + b₁.toNat % 64)), 1) :=
  scan_of_tails (sequence_two h) (tails_cons h₁ rest) rfl

theorem scan_three {b b₁ b₂ : UInt8} (h : 0xe0 ≤ b.toNat ∧ b.toNat ≤ 0xef)
    (h₁ : (if b.toNat = 0xe0 then 0xa0 else 0x80) ≤ b₁.toNat ∧
      b₁.toNat ≤ if b.toNat = 0xed then 0x9f else 0xbf) (h₂ : IsTail b₂) (rest : Bytes) :
    scan b (b₁ :: b₂ :: rest) =
      (some (Char.ofNat ((b.toNat % 16 * 64 + b₁.toNat % 64) * 64 + b₂.toNat % 64)), 2) :=
  scan_of_tails (sequence_three h)
    ((tails_cons h₁ _).trans (congrArg _ (tails_cons h₂ rest))) rfl

theorem scan_four {b b₁ b₂ b₃ : UInt8} (h : 0xf0 ≤ b.toNat ∧ b.toNat ≤ 0xf4)
    (h₁ : (if b.toNat = 0xf0 then 0x90 else 0x80) ≤ b₁.toNat ∧
      b₁.toNat ≤ if b.toNat = 0xf4 then 0x8f else 0xbf) (h₂ : IsTail b₂) (h₃ : IsTail b₃)
    (rest : Bytes) : scan b (b₁ :: b₂ :: b₃ :: rest) = (some (Char.ofNat
      (((b.toNat % 8 * 64 + b₁.toNat % 64) * 64 + b₂.toNat % 64) * 64 + b₃.toNat % 64)), 3) :=
  scan_of_tails (sequence_four h) ((tails_cons h₁ _).trans (congrArg _
    ((tails_cons h₂ _).trans (congrArg _ (tails_cons h₃ rest))))) rfl

/-- The first byte of a character is no tail, and the scan gives the character back. -/
theorem scan_encodeChar (c : Char) : ∃ b tail, encodeChar c = b :: tail ∧
    ¬IsTail b ∧ (∀ t ∈ tail, IsTail t) ∧ ∀ rest, scan b (tail ++ rest) = (some c, tail.length) := by
  have valid := toNat_lt c
  have same : ∀ n, n = c.toNat → some (Char.ofNat n) = some c := fun n h => by
    rw [h, Char.ofNat_toNat]
  have mid : ∀ m, IsTail (byte (0x80 + m % 64)) := fun m => by
    have small : (byte (0x80 + m % 64)).toNat = 0x80 + m % 64 := toNat_byte (by omega)
    exact ⟨by omega, by omega⟩
  unfold encodeChar
  dsimp only
  split
  · rename_i h
    have b : (byte c.toNat).toNat = c.toNat := toNat_byte (by omega)
    refine ⟨_, [], rfl, fun t => ?_, fun t ht => (by cases ht), fun rest => ?_⟩
    · have above := t.1
      omega
    · rw [List.nil_append, scan_one (by omega)]
      exact Prod.ext (same _ b) rfl
  split
  · rename_i low high
    have b : (byte (0xc0 + c.toNat / 64)).toNat = 0xc0 + c.toNat / 64 := toNat_byte (by omega)
    have b₁ : (byte (0x80 + c.toNat % 64)).toNat = 0x80 + c.toNat % 64 := toNat_byte (by omega)
    refine ⟨_, [_], rfl, fun t => ?_, fun t ht => ?_, fun rest => ?_⟩
    · have below := t.2
      omega
    · rw [List.mem_singleton.mp ht]
      exact mid _
    · rw [List.singleton_append, scan_two (by omega) (mid _)]
      exact Prod.ext (same _ (by omega)) rfl
  split
  · rename_i low high
    have b : (byte (0xe0 + c.toNat / 4096)).toNat = 0xe0 + c.toNat / 4096 := toNat_byte (by omega)
    have b₁ : (byte (0x80 + c.toNat / 64 % 64)).toNat = 0x80 + c.toNat / 64 % 64 :=
      toNat_byte (by omega)
    have b₂ : (byte (0x80 + c.toNat % 64)).toNat = 0x80 + c.toNat % 64 := toNat_byte (by omega)
    refine ⟨_, [_, _], rfl, fun t => ?_, fun t ht => ?_, fun rest => ?_⟩
    · have below := t.2
      omega
    · rcases List.mem_cons.mp ht with rfl | ht
      · exact mid _
      · rw [List.mem_singleton.mp ht]
        exact mid _
    · show scan _ (_ :: _ :: rest) = _
      rw [scan_three (by omega) (by split_ifs <;> omega) (mid _)]
      exact Prod.ext (same _ (by omega)) rfl
  · rename_i low high
    have b : (byte (0xf0 + c.toNat / 262144)).toNat = 0xf0 + c.toNat / 262144 :=
      toNat_byte (by omega)
    have b₁ : (byte (0x80 + c.toNat / 4096 % 64)).toNat = 0x80 + c.toNat / 4096 % 64 :=
      toNat_byte (by omega)
    have b₂ : (byte (0x80 + c.toNat / 64 % 64)).toNat = 0x80 + c.toNat / 64 % 64 :=
      toNat_byte (by omega)
    have b₃ : (byte (0x80 + c.toNat % 64)).toNat = 0x80 + c.toNat % 64 := toNat_byte (by omega)
    refine ⟨_, [_, _, _], rfl, fun t => ?_, fun t ht => ?_, fun rest => ?_⟩
    · have below := t.2
      omega
    · rcases List.mem_cons.mp ht with rfl | ht
      · exact mid _
      rcases List.mem_cons.mp ht with rfl | ht
      · exact mid _
      · rw [List.mem_singleton.mp ht]
        exact mid _
    · show scan _ (_ :: _ :: _ :: rest) = _
      rw [scan_four (by omega) (by split_ifs <;> omega) (mid _) (mid _)]
      exact Prod.ext (same _ (by omega)) rfl

theorem sequence_cases {n k low high : Nat} (first : sequence n = some (k, low, high)) :
    (n < 0x80 ∧ k = 0) ∨ ((0xc2 ≤ n ∧ n ≤ 0xdf) ∧ k = 1 ∧ low = 0x80 ∧ high = 0xbf) ∨
    ((0xe0 ≤ n ∧ n ≤ 0xef) ∧ k = 2 ∧ low = (if n = 0xe0 then 0xa0 else 0x80) ∧
      high = if n = 0xed then 0x9f else 0xbf) ∨
    ((0xf0 ≤ n ∧ n ≤ 0xf4) ∧ k = 3 ∧ low = (if n = 0xf0 then 0x90 else 0x80) ∧
      high = if n = 0xf4 then 0x8f else 0xbf) := by
  by_cases one : n < 0x80
  · rw [sequence, if_pos one] at first
    cases first
    exact .inl ⟨one, rfl⟩
  by_cases two : 0xc2 ≤ n ∧ n ≤ 0xdf
  · cases (sequence_two two).symm.trans first
    exact .inr (.inl ⟨two, rfl, rfl, rfl⟩)
  by_cases three : 0xe0 ≤ n ∧ n ≤ 0xef
  · cases (sequence_three three).symm.trans first
    exact .inr (.inr (.inl ⟨three, rfl, rfl, rfl⟩))
  by_cases four : 0xf0 ≤ n ∧ n ≤ 0xf4
  · cases (sequence_four four).symm.trans first
    exact .inr (.inr (.inr ⟨four, rfl, rfl, rfl⟩))
  · exfalso
    unfold sequence at first
    split_ifs at first <;> omega

theorem tails_eq_length {k low high : Nat} {rest : Bytes}
    (all : (tails (k + 1) low high rest).length = k + 1) : ∃ b later, rest = b :: later ∧
      (low ≤ b.toNat ∧ b.toNat ≤ high) ∧ (tails k 0x80 0xbf later).length = k := by
  cases rest with
  | nil => cases all
  | cons b later =>
      by_cases h : low ≤ b.toNat ∧ b.toNat ≤ high
      · rw [tails_cons h] at all
        exact ⟨b, later, rfl, h, Nat.succ.inj all⟩
      · rw [tails, if_neg h] at all
        cases all

theorem byte_eq {b : UInt8} {n : Nat} (h : n = b.toNat) : byte n = b := by
  rw [h]
  exact UInt8.ofNat_toNat

/-- A character that the scan gives is what the bytes encode. -/
theorem encodeChar_of_scan {b : UInt8} {rest : Bytes} {c : Char} {k : Nat}
    (found : scan b rest = (some c, k)) :
    ∃ tail later, rest = tail ++ later ∧ tail.length = k ∧ encodeChar c = b :: tail := by
  cases first : sequence b.toNat with
  | none =>
      rw [scan, first] at found
      cases found
  | some s =>
      obtain ⟨n, low, high⟩ := s
      have all : (tails n low high rest).length = n := by
        by_contra missing
        unfold scan at found
        rw [first] at found
        dsimp only at found
        rw [if_neg missing] at found
        cases found
      have number : ∀ v, Char.ofNat v = c → (v < 0xd800 ∨ (0xdfff < v ∧ v < 0x110000)) →
          c.toNat = v := by
        rintro v rfl valid
        have here : v.isValidChar := valid
        rw [Char.ofNat, dif_pos here]
        rfl
      rcases sequence_cases first with ⟨h, rfl⟩ | ⟨h, rfl, rfl, rfl⟩ | ⟨h, rfl, rfl, rfl⟩ |
        ⟨h, rfl, rfl, rfl⟩
      · rw [scan_one h] at found
        cases found
        have v := number _ rfl (by omega)
        refine ⟨[], rest, rfl, rfl, ?_⟩
        rw [encodeChar, v, if_pos h, byte_eq rfl]
      · obtain ⟨b₁, later, rfl, h₁, -⟩ := tails_eq_length all
        rw [scan_two h h₁] at found
        obtain ⟨same, rfl⟩ := Prod.ext_iff.mp found
        have v := number _ (Option.some.inj same) (by omega)
        refine ⟨[b₁], later, rfl, rfl, ?_⟩
        have e : byte (0xc0 + c.toNat / 64) = b := byte_eq (by omega)
        have e₁ : byte (0x80 + c.toNat % 64) = b₁ := byte_eq (by omega)
        rw [encodeChar, if_neg (by omega), if_pos (by omega), e, e₁]
      · obtain ⟨b₁, mid, rfl, h₁, all⟩ := tails_eq_length all
        obtain ⟨b₂, later, rfl, h₂, -⟩ := tails_eq_length all
        rw [scan_three h h₁ h₂] at found
        obtain ⟨same, rfl⟩ := Prod.ext_iff.mp found
        have v := number _ (Option.some.inj same) (by split_ifs at h₁ <;> omega)
        refine ⟨[b₁, b₂], later, rfl, rfl, ?_⟩
        have e : byte (0xe0 + c.toNat / 4096) = b := byte_eq (by omega)
        have e₁ : byte (0x80 + c.toNat / 64 % 64) = b₁ := byte_eq (by split_ifs at h₁ <;> omega)
        have e₂ : byte (0x80 + c.toNat % 64) = b₂ := byte_eq (by omega)
        rw [encodeChar, if_neg (by split_ifs at h₁ <;> omega), if_neg (by split_ifs at h₁ <;> omega),
          if_pos (by omega), e, e₁, e₂]
      · obtain ⟨b₁, mid, rfl, h₁, all⟩ := tails_eq_length all
        obtain ⟨b₂, mid, rfl, h₂, all⟩ := tails_eq_length all
        obtain ⟨b₃, later, rfl, h₃, -⟩ := tails_eq_length all
        rw [scan_four h h₁ h₂ h₃] at found
        obtain ⟨same, rfl⟩ := Prod.ext_iff.mp found
        have v := number _ (Option.some.inj same) (by split_ifs at h₁ <;> omega)
        refine ⟨[b₁, b₂, b₃], later, rfl, rfl, ?_⟩
        have e : byte (0xf0 + c.toNat / 262144) = b := byte_eq (by omega)
        have e₁ : byte (0x80 + c.toNat / 4096 % 64) = b₁ := byte_eq (by split_ifs at h₁ <;> omega)
        have e₂ : byte (0x80 + c.toNat / 64 % 64) = b₂ := byte_eq (by omega)
        have e₃ : byte (0x80 + c.toNat % 64) = b₃ := byte_eq (by omega)
        rw [encodeChar, if_neg (by split_ifs at h₁ <;> omega), if_neg (by split_ifs at h₁ <;> omega),
          if_neg (by split_ifs at h₁ <;> omega), e, e₁, e₂, e₃]

/-! ## Texts -/

theorem encode_cons (c : Char) (text : List Char) : encode (c :: text) = encodeChar c ++ encode text :=
  List.flatMap_cons

theorem encode_append (a b : List Char) : encode (a ++ b) = encode a ++ encode b :=
  List.flatMap_append

theorem decodeFrom_skip : ∀ (read rest : Bytes), decodeFrom read.length (read ++ rest) = decodeReplace rest
  | [], _ => rfl
  | _ :: read, rest => decodeFrom_skip read rest

theorem decodeStrictFrom_skip : ∀ (read rest : Bytes),
    decodeStrictFrom read.length (read ++ rest) = decodeStrict rest
  | [], _ => rfl
  | _ :: read, rest => decodeStrictFrom_skip read rest

theorem decodeReplace_encodeChar (c : Char) (rest : Bytes) :
    decodeReplace (encodeChar c ++ rest) = c :: decodeReplace rest := by
  obtain ⟨b, tail, bytes, -, -, found⟩ := scan_encodeChar c
  rw [bytes, decodeReplace, List.cons_append, decodeFrom, found, decodeFrom_skip]
  rfl

theorem decodeReplace_encode_append (text : List Char) (rest : Bytes) :
    decodeReplace (encode text ++ rest) = text ++ decodeReplace rest := by
  induction text with
  | nil => rfl
  | cons c text ih =>
      rw [encode_cons, List.append_assoc, decodeReplace_encodeChar, ih]
      rfl

theorem decodeReplace_encode (text : List Char) : decodeReplace (encode text) = text := by
  have whole := decodeReplace_encode_append text []
  rwa [List.append_nil, show decodeReplace [] = [] from rfl, List.append_nil] at whole

/-- A tail on its own is replaced. -/
theorem decodeReplace_tail {t : UInt8} (tail : IsTail t) (rest : Bytes) :
    decodeReplace (t :: rest) = '\uFFFD' :: decodeReplace rest := by
  have none : sequence t.toNat = none := by
    obtain ⟨low, high⟩ := tail
    unfold sequence
    split_ifs <;> first | rfl | omega
  have found : scan t rest = (.none, 0) := by
    rw [scan, none]
  rw [decodeReplace, decodeFrom, found]
  rfl

theorem decodeReplace_tails {ts : Bytes} (tails : ∀ t ∈ ts, IsTail t) (rest : Bytes) :
    decodeReplace (ts ++ rest) = List.replicate ts.length '\uFFFD' ++ decodeReplace rest := by
  induction ts with
  | nil => rfl
  | cons t ts ih =>
      rw [List.cons_append, decodeReplace_tail (tails t (List.mem_cons_self ..)),
        ih fun u hu => tails u (List.mem_cons_of_mem _ hu)]
      rfl

theorem decodeReplace_ne_nil {bytes : Bytes} (some : bytes ≠ []) : decodeReplace bytes ≠ [] := by
  cases bytes with
  | nil => exact absurd rfl some
  | cons b rest => exact List.cons_ne_nil _ _

theorem decodeStrict_encode (text : List Char) : decodeStrict (encode text) = some text := by
  induction text with
  | nil => rfl
  | cons c text ih =>
      obtain ⟨b, tail, bytes, -, -, found⟩ := scan_encodeChar c
      rw [encode_cons, bytes, decodeStrict, List.cons_append, decodeStrictFrom, found,
        decodeStrictFrom_skip, ih]
      rfl

/-- Bytes that are decoded are the encoding of the text. -/
theorem encode_of_decodeStrict {bytes : Bytes} {text : List Char}
    (decoded : decodeStrict bytes = some text) : bytes = encode text := by
  induction length : bytes.length using Nat.strongRecOn generalizing bytes text with
  | ind n ih =>
      cases bytes with
      | nil =>
          cases decoded
          rfl
      | cons b rest =>
          rw [decodeStrict, decodeStrictFrom] at decoded
          generalize found : scan b rest = read at decoded
          obtain ⟨o, k⟩ := read
          obtain ⟨c, rfl, decoded⟩ := Option.bind_eq_some_iff.mp decoded
          obtain ⟨later, hlater, same⟩ := Option.bind_eq_some_iff.mp decoded
          cases same
          obtain ⟨tail, rest', rfl, rfl, bytes⟩ := encodeChar_of_scan found
          rw [decodeStrictFrom_skip] at hlater
          have shorter : rest'.length < n := by
            rw [← length, List.length_cons, List.length_append]
            omega
          rw [encode_cons, bytes, ← ih _ shorter hlater rfl]
          rfl

/-! ## Cuts -/

/-- A cut before such bytes is between two characters. -/
def Between (rest : Bytes) : Prop := ∀ b ∈ rest.head?, ¬IsTail b

instance : DecidablePred Between
  | [] => isTrue fun _ h => by cases h
  | b :: _ =>
      if tail : IsTail b then isFalse fun between => between b rfl tail
      else isTrue fun b' h => by cases h; exact tail

theorem between_encode (text : List Char) : Between (encode text) := by
  cases text with
  | nil => exact fun _ h => by cases h
  | cons c text =>
      obtain ⟨b, tail, bytes, first, -⟩ := scan_encodeChar c
      rw [encode_cons, bytes]
      intro b' h
      cases h
      exact first

/-- A text is cut between two characters or inside one. -/
theorem encode_split : ∀ {text : List Char} {p q : Bytes}, encode text = p ++ q →
    (∃ a b, text = a ++ b ∧ p = encode a ∧ q = encode b) ∨
    ∃ a c b u v, text = a ++ c :: b ∧ encodeChar c = u ++ v ∧ u ≠ [] ∧ v ≠ [] ∧
      p = encode a ++ u ∧ q = v ++ encode b
  | [], p, q, cut => by
      obtain ⟨rfl, rfl⟩ := List.append_eq_nil_iff.mp cut.symm
      exact .inl ⟨[], [], rfl, rfl, rfl⟩
  | c :: text, p, q, cut => by
      rw [encode_cons] at cut
      rcases List.append_eq_append_iff.mp cut with ⟨p', rfl, later⟩ | ⟨v, char, rfl⟩
      · rcases encode_split later with ⟨a, b, rfl, rfl, rfl⟩ | ⟨a, d, b, u, v, rfl, h⟩
        · exact .inl ⟨c :: a, b, rfl, (encode_cons c a).symm, rfl⟩
        · obtain ⟨char, hu, hv, rfl, rfl⟩ := h
          refine .inr ⟨c :: a, d, b, u, v, rfl, char, hu, hv, ?_, rfl⟩
          rw [encode_cons, List.append_assoc]
      · by_cases hv : v = []
        · subst hv
          rw [List.append_nil] at char
          exact .inl ⟨[c], text, rfl, by rw [encode_cons, char]; exact (List.append_nil p).symm, rfl⟩
        by_cases hp : p = []
        · subst hp
          rw [List.nil_append] at char
          exact .inl ⟨[], c :: text, rfl, rfl, by rw [encode_cons, char]⟩
        · exact .inr ⟨[], c, text, p, v, rfl, char, hp, hv, rfl, rfl⟩

/-- What follows the first bytes of a character are tails. -/
theorem tails_of_split {c : Char} {u v : Bytes} (char : encodeChar c = u ++ v) (some : u ≠ []) :
    ∀ t ∈ v, IsTail t := by
  obtain ⟨b, tail, bytes, -, tails, -⟩ := scan_encodeChar c
  cases u with
  | nil => exact absurd rfl some
  | cons b' u =>
      rw [bytes] at char
      cases char
      exact fun t ht => tails t (List.mem_append_right _ ht)

/-- A cut between two characters cuts the text. -/
theorem split_of_between {text : List Char} {p q : Bytes} (cut : encode text = p ++ q)
    (between : Between q) : ∃ a b, text = a ++ b ∧ p = encode a ∧ q = encode b := by
  rcases encode_split cut with whole | ⟨a, c, b, u, v, -, char, hu, hv, -, rfl⟩
  · exact whole
  · cases v with
    | nil => exact absurd rfl hv
    | cons t v => exact absurd (tails_of_split char hu t (List.mem_cons_self ..)) (between t rfl)

/-- Of a text, what is left behind some bytes. -/
def Rest (bytes : Bytes) : Prop := ∃ ts text, (∀ t ∈ ts, IsTail t) ∧ bytes = ts ++ encode text

theorem rest_encode (text : List Char) : Rest (encode text) :=
  ⟨[], text, fun _ h => (by cases h), rfl⟩

/-- The parts of what is left decode to at least as many characters, and what is left of it has the
same form. -/
theorem Rest.cut {p q : Bytes} (rest : Rest (p ++ q)) :
    Rest q ∧ (decodeReplace (p ++ q)).length ≤ (decodeReplace p).length + (decodeReplace q).length := by
  obtain ⟨ts, text, tails, bytes⟩ := rest
  rcases List.append_eq_append_iff.mp bytes with ⟨ts', rfl, rfl⟩ | ⟨p', rfl, later⟩
  · have mine : ∀ t ∈ p, IsTail t := fun t ht => tails t (List.mem_append_left _ ht)
    refine ⟨⟨ts', text, fun t ht => tails t (List.mem_append_right _ ht), rfl⟩, ?_⟩
    have alone := decodeReplace_tails mine []
    rw [List.append_nil] at alone
    rw [decodeReplace_tails mine, alone, List.length_append, List.length_append]
    omega
  · rcases encode_split later with ⟨a, b, rfl, rfl, rfl⟩ | ⟨a, c, b, u, v, rfl, char, hu, hv, rfl, rfl⟩
    · refine ⟨rest_encode b, ?_⟩
      rw [List.append_assoc, decodeReplace_tails tails, decodeReplace_tails tails,
        ← encode_append, decodeReplace_encode, decodeReplace_encode, decodeReplace_encode]
      simp only [List.length_append, List.length_replicate]
      omega
    · have inside := tails_of_split char hu
      have first := List.length_pos_of_ne_nil (decodeReplace_ne_nil hu)
      have second := List.length_pos_of_ne_nil hv
      refine ⟨⟨v, b, inside, rfl⟩, ?_⟩
      rw [bytes, decodeReplace_tails tails, decodeReplace_tails tails, decodeReplace_tails inside,
        decodeReplace_encode_append, decodeReplace_encode, decodeReplace_encode]
      simp only [List.length_append, List.length_replicate, List.length_cons]
      omega

/-- The parts of a text that is cut inside a character decode to more characters. -/
theorem length_lt_of_cut {text : List Char} {p q : Bytes} (cut : encode text = p ++ q)
    (inside : ¬Between q) : text.length < (decodeReplace p).length + (decodeReplace q).length := by
  rcases encode_split cut with ⟨a, b, rfl, rfl, rfl⟩ | ⟨a, c, b, u, v, rfl, char, hu, hv, rfl, rfl⟩
  · exact absurd (between_encode b) inside
  · have first := List.length_pos_of_ne_nil (decodeReplace_ne_nil hu)
    have second := List.length_pos_of_ne_nil hv
    rw [decodeReplace_encode_append, decodeReplace_tails (tails_of_split char hu),
      decodeReplace_encode]
    simp only [List.length_append, List.length_replicate, List.length_cons]
    omega

end Library.Utf8

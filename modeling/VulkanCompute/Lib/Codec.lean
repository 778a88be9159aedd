import Mathlib.Algebra.Group.Nat.Defs
import Mathlib.Data.List.Basic

/-!
# Self-delimiting byte codes

Words as lists of bytes, the least significant byte first, and streams of
items that are written one behind the other.

* `leBytes` and `ofLeBytes`, with the round trip `ofLeBytes_leBytes`, and the
  parser `takeWord` that reads a word off the front of a stream.
* `Reads parse encode`: the parser reads an encoded item off the front,
  whatever comes behind it, for instance a word (`reads_word`).  Then
  `parseAll` reads back a whole stream (`Reads.parseAll`).
* `literals` is a block of LZ4 that only has literals, and `readLiterals`
  reads it back.
-/

namespace VulkanCompute.Lib

/-! ## Words -/

/-- The `n` low bytes of `v`. -/
def leBytes : Nat → Nat → List UInt8
  | 0, _ => []
  | n + 1, v => UInt8.ofNat v :: leBytes n (v / 256)

def ofLeBytes : List UInt8 → Nat
  | [] => 0
  | b :: bytes => b.toNat + 256 * ofLeBytes bytes

@[simp] theorem length_leBytes (n v : Nat) : (leBytes n v).length = n := by
  induction n generalizing v with
  | zero => rfl
  | succ n ih => rw [leBytes, List.length_cons, ih]

theorem ofLeBytes_leBytes (n v : Nat) :
    ofLeBytes (leBytes n v) = v % 256 ^ n := by
  induction n generalizing v with
  | zero => rw [leBytes, ofLeBytes, Nat.pow_zero, Nat.mod_one]
  | succ n ih =>
    have hb : (UInt8.ofNat v).toNat = v % 256 := UInt8.toNat_ofNat'
    rw [leBytes, ofLeBytes, ih, hb, Nat.pow_succ', Nat.mod_mul]

/-! ## Parsers -/

/-- A parser takes what it reads off the front of the stream. -/
abbrev Parser (α : Type) := StateT (List UInt8) Option α

/-- Read a word of `n` bytes. -/
def takeWord (n : Nat) : Parser Nat := fun bytes =>
  if n ≤ bytes.length then some (ofLeBytes (bytes.take n), bytes.drop n)
  else none

theorem takeWord_leBytes_append (n v : Nat) (rest : List UInt8) :
    takeWord n (leBytes n v ++ rest) = some (v % 256 ^ n, rest) := by
  have hlength : (leBytes n v).length = n := length_leBytes n v
  unfold takeWord
  rw [if_pos (by simp), List.take_left' hlength, List.drop_left' hlength,
    ofLeBytes_leBytes]

variable {α : Type}

/-- What a parser does after one that has read. -/
theorem Parser.bind_eq {γ : Type} {p : Parser α} {f : α → Parser γ}
    {bytes rest : List UInt8} {a : α} (h : p bytes = some (a, rest)) :
    (p >>= f) bytes = f a rest := by
  show Option.bind (p bytes) _ = _
  rw [h]
  rfl

/-- The parser reads an encoded item off the front of every stream. -/
def Reads (parse : Parser α) (encode : α → List UInt8) : Prop :=
  ∀ a rest, parse (encode a ++ rest) = some (a, rest)

/-- Values that are words of `n` bytes are read back. -/
theorem reads_word {n : Nat} {toNat : α → Nat} {ofNat : Nat → α}
    (hlt : ∀ a, toNat a < 256 ^ n) (hinv : ∀ a, ofNat (toNat a) = a) :
    Reads (do return ofNat (← takeWord n)) fun a => leBytes n (toNat a) := by
  intro a rest
  rw [Parser.bind_eq (takeWord_leBytes_append ..), Nat.mod_eq_of_lt (hlt a),
    hinv]
  rfl

/-- Read items until the stream is used up. -/
def parseAll (parse : Parser α) : Nat → List UInt8 → Option (List α)
  | _, [] => some []
  | 0, _ :: _ => none
  | fuel + 1, b :: bytes => do
    let (a, rest) ← parse (b :: bytes)
    let as ← parseAll parse fuel rest
    return a :: as

variable {parse : Parser α} {encode : α → List UInt8}

theorem Reads.parseAll_of_le (h : Reads parse encode)
    (hpos : ∀ a, encode a ≠ []) (as : List α) {fuel : Nat}
    (hfuel : as.length ≤ fuel) :
    parseAll parse fuel (as.flatMap encode) = some as := by
  induction as generalizing fuel with
  | nil =>
    cases fuel <;> rfl
  | cons a as ih =>
    obtain ⟨fuel, rfl⟩ : ∃ n, fuel = n + 1 := ⟨fuel - 1, by
      rw [List.length_cons] at hfuel
      omega⟩
    rw [List.length_cons] at hfuel
    have hread := h a (as.flatMap encode)
    rw [List.flatMap_cons]
    cases hbytes : encode a ++ as.flatMap encode with
    | nil => exact absurd (List.append_eq_nil_iff.mp hbytes).1 (hpos a)
    | cons b bytes =>
      rw [parseAll, ← hbytes, hread]
      simp [ih (Nat.le_of_succ_le_succ hfuel)]

/-- A stream is read back item by item. -/
theorem Reads.parseAll (h : Reads parse encode) (hpos : ∀ a, encode a ≠ [])
    (as : List α) :
    Lib.parseAll parse (as.flatMap encode).length (as.flatMap encode) =
      some as := by
  refine h.parseAll_of_le hpos as ?_
  induction as with
  | nil => exact Nat.zero_le _
  | cons a as ih =>
    have hlength := List.length_pos_of_ne_nil (hpos a)
    rw [List.flatMap_cons, List.length_append, List.length_cons]
    omega

/-! ## Literals -/

/-- A length from 15 on, as the bytes behind the token. -/
def lengthBytes (n : Nat) : List UInt8 :=
  List.replicate (n / 255) 255 ++ [UInt8.ofNat (n % 255)]

def readLength : List UInt8 → Option (Nat × List UInt8)
  | [] => none
  | b :: bytes =>
    if b = 255 then
      (readLength bytes).map fun p => (p.1 + 255, p.2)
    else some (b.toNat, bytes)

/-- The length, with 15 in the token when it does not fit, and the data. -/
def literals (data : List UInt8) : List UInt8 :=
  if data.length < 15 then UInt8.ofNat (data.length * 16) :: data
  else 240 :: (lengthBytes (data.length - 15) ++ data)

def readLiterals : List UInt8 → Option (List UInt8)
  | [] => none
  | token :: bytes =>
    if token.toNat / 16 < 15 then
      if bytes.length = token.toNat / 16 then some bytes else none
    else
      match readLength bytes with
      | none => none
      | some (n, bytes) => if bytes.length = n + 15 then some bytes else none

theorem readLength_replicate (k : Nat) {r : Nat} (hr : r < 255)
    (rest : List UInt8) :
    readLength (List.replicate k 255 ++ UInt8.ofNat r :: rest) =
      some (k * 255 + r, rest) := by
  induction k with
  | zero =>
    have hr' : (UInt8.ofNat r).toNat = r :=
      UInt8.toNat_ofNat_of_lt' (by show r < 256; omega)
    have hne : UInt8.ofNat r ≠ 255 := by
      intro h
      rw [h] at hr'
      have : (255 : UInt8).toNat = 255 := rfl
      omega
    show readLength (UInt8.ofNat r :: rest) = _
    rw [readLength, if_neg hne, hr', Nat.zero_mul, Nat.zero_add]
  | succ k ih =>
    rw [List.replicate_succ, List.cons_append, readLength, if_pos rfl, ih]
    show some (k * 255 + r + 255, rest) = _
    rw [Nat.succ_mul, Nat.add_right_comm]

theorem readLiterals_literals (data : List UInt8) :
    readLiterals (literals data) = some data := by
  unfold literals
  split
  case isTrue h =>
    have htoken : (UInt8.ofNat (data.length * 16)).toNat / 16 =
        data.length := by
      rw [UInt8.toNat_ofNat_of_lt' (by show _ < 256; omega)]
      omega
    rw [readLiterals, htoken, if_pos h, if_pos rfl]
  case isFalse h =>
    have hlength := readLength_replicate ((data.length - 15) / 255)
      (Nat.mod_lt (data.length - 15) (y := 255) (by decide)) data
    have hsum : (data.length - 15) / 255 * 255 + (data.length - 15) % 255 =
        data.length - 15 := by omega
    rw [hsum] at hlength
    rw [readLiterals, if_neg (by decide), lengthBytes, List.append_assoc,
      List.singleton_append, hlength]
    exact if_pos (by omega)

end VulkanCompute.Lib

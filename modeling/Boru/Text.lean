import Mathlib.Data.List.Infix

/-!
# Text as bytes

A string is stored as the bytes of its characters, one after the other.  Its length is counted in
bytes, and cutting it off at a byte that lies within a character panics.  Byte strings are written
as text in hexadecimal digits.

## Main results

* `Text.isSome_upTo` : a text can be cut off at a byte if and only if some of its characters end
  there.
* `Hex.decode_encode` : decoding the digits of a byte string gives the byte string back.
-/

namespace Boru

namespace Text

def byteLen : List Char → ℕ
  | [] => 0
  | c :: cs => c.utf8Size + byteLen cs

/-- `&text[..n]`: the first `n` bytes, if they are whole characters. -/
def upTo : List Char → ℕ → Option (List Char)
  | _, 0 => some []
  | [], _ + 1 => none
  | c :: cs, n + 1 =>
    if c.utf8Size ≤ n + 1 then (upTo cs (n + 1 - c.utf8Size)).map (c :: ·) else none

def isControl (c : Char) : Bool := c.toNat < 32 || (127 ≤ c.toNat && c.toNat ≤ 159)

def contains (s part : String) : Bool := decide (part.toList <:+: s.toList)

def toAsciiLowercase (s : String) : String := String.ofList (s.toList.map Char.toLower)

/-- `rsplit_once`: what stands before and after the last occurrence of a character. -/
def rsplitOnce (c : Char) (cs : List Char) : Option (List Char × List Char) :=
  match cs.reverse.dropWhile (· != c) with
  | [] => none
  | _ :: before => some (before.reverse, (cs.reverse.takeWhile (· != c)).reverse)

theorem rsplitOnce_eq_some {c : Char} {cs pre after : List Char}
    (h : rsplitOnce c cs = some (pre, after)) : cs = pre ++ c :: after := by
  unfold rsplitOnce at h
  split at h
  · cases h
  · rename_i d rest hdr
    cases h
    have hd : d = c := by
      have hh := List.head?_dropWhile_not (· != c) cs.reverse
      rw [hdr] at hh
      simpa using hh
    have hs := List.takeWhile_append_dropWhile (p := (· != c)) (l := cs.reverse)
    rw [hdr, hd] at hs
    have hr := congrArg List.reverse hs
    simpa using hr.symm

@[simp] theorem byteLen_nil : byteLen [] = 0 := rfl

@[simp] theorem byteLen_cons (c : Char) (cs : List Char) :
    byteLen (c :: cs) = c.utf8Size + byteLen cs := rfl

theorem upTo_eq_some {cs part : List Char} {n : ℕ} (h : upTo cs n = some part) :
    part <+: cs ∧ byteLen part = n := by
  induction cs generalizing part n with
  | nil =>
    cases n with
    | zero =>
      cases h
      exact ⟨List.nil_prefix, rfl⟩
    | succ n => cases h
  | cons c cs ih =>
    cases n with
    | zero =>
      cases h
      exact ⟨List.nil_prefix, rfl⟩
    | succ n =>
      rw [upTo] at h
      split_ifs at h with hc
      obtain ⟨front, hf, rfl⟩ := Option.map_eq_some_iff.1 h
      obtain ⟨hp, hlen⟩ := ih hf
      refine ⟨List.cons_prefix_cons.2 ⟨rfl, hp⟩, ?_⟩
      rw [byteLen_cons]
      omega

theorem upTo_of_prefix {cs part : List Char} (h : part <+: cs) :
    upTo cs (byteLen part) = some part := by
  induction part generalizing cs with
  | nil => cases cs <;> rfl
  | cons c part ih =>
    obtain ⟨rest, rfl⟩ := h
    have hpos := c.utf8Size_pos
    rw [byteLen_cons, List.cons_append]
    obtain ⟨n, hn⟩ := Nat.exists_eq_succ_of_ne_zero (show c.utf8Size + byteLen part ≠ 0 by omega)
    rw [hn, upTo, if_pos (by omega)]
    have hr : n + 1 - c.utf8Size = byteLen part := by omega
    rw [hr, ih (List.prefix_append _ _)]
    rfl

/-- **Where a text can be cut off.** -/
theorem isSome_upTo {cs : List Char} {n : ℕ} :
    (upTo cs n).isSome ↔ ∃ part, part <+: cs ∧ byteLen part = n := by
  rw [Option.isSome_iff_exists]
  constructor
  · rintro ⟨part, h⟩
    exact ⟨part, upTo_eq_some h⟩
  · rintro ⟨part, hp, rfl⟩
    exact ⟨part, upTo_of_prefix hp⟩

end Text

namespace Hex

/-- The digit of a number below sixteen. -/
def digit (n : ℕ) : Char := (['0', '1', '2', '3', '4', '5', '6', '7', '8', '9', 'a', 'b', 'c', 'd',
  'e', 'f']).getD n '0'

/-- The value of a digit, which may be a capital letter. -/
def value (c : Char) : Option ℕ :=
  if '0' ≤ c ∧ c ≤ '9' then some (c.toNat - '0'.toNat)
  else if 'a' ≤ c ∧ c ≤ 'f' then some (c.toNat - 'a'.toNat + 10)
  else if 'A' ≤ c ∧ c ≤ 'F' then some (c.toNat - 'A'.toNat + 10)
  else none

def encode (bytes : List UInt8) : String :=
  String.ofList (bytes.flatMap fun b => [digit (b.toNat / 16), digit (b.toNat % 16)])

def decodeDigits : List Char → Option (List UInt8)
  | [] => some []
  | [_] => none
  | high :: low :: rest => do
    let h ← value high
    let l ← value low
    let bytes ← decodeDigits rest
    return UInt8.ofNat (16 * h + l) :: bytes

def decode (s : String) : Option (List UInt8) := decodeDigits s.toList

theorem value_digit : ∀ n < 16, value (digit n) = some n := by decide

/-- **Decoding undoes encoding.** -/
theorem decode_encode (bytes : List UInt8) : decode (encode bytes) = some bytes := by
  unfold decode encode
  rw [String.toList_ofList]
  induction bytes with
  | nil => rfl
  | cons b bytes ih =>
    have hlt : b.toNat < 256 := b.toNat_lt
    have hb : UInt8.ofNat (16 * (b.toNat / 16) + b.toNat % 16) = b := by
      rw [Nat.div_add_mod, UInt8.ofNat_toNat]
    rw [List.flatMap_cons, List.cons_append, List.cons_append, List.nil_append, decodeDigits,
      value_digit _ (by omega), value_digit _ (by omega), ih]
    exact congrArg (fun c => some (c :: bytes)) hb

end Hex

end Boru

import Mathlib

namespace AnixAgent.ReportSpool.FileNames

open List

abbrev FileName := List Char

def suffix : FileName := ['.', 'p', 'b']

def hexDigit (d : Nat) : Char := if d < 10 then Char.ofNat (48 + d) else Char.ofNat (87 + d)

def formatHex : Nat → Nat → FileName
  | 0, _ => []
  | width + 1, n => formatHex width (n / 16) ++ [hexDigit (n % 16)]

def fileName (seq : Nat) : FileName := formatHex 16 seq ++ suffix

def hexValue (c : Char) : Option Nat :=
  let n := c.toNat
  if 48 ≤ n ∧ n ≤ 57 then some (n - 48)
  else if 97 ≤ n ∧ n ≤ 102 then some (n - 87)
  else if 65 ≤ n ∧ n ≤ 70 then some (n - 55)
  else none

def pushDigit (value : Nat) (c : Char) : Option Nat :=
  (hexValue c).bind fun d ↦ if value * 16 + d < 2 ^ 64 then some (value * 16 + d) else none

def parseUint (name : FileName) : Option Nat :=
  if name = [] then none else name.foldlM pushDigit 0

def hasSuffix (name : FileName) : Bool := suffix.isSuffixOf name

def trimSuffix (name : FileName) : FileName :=
  if hasSuffix name then name.take (name.length - suffix.length) else name

def hidden (name : FileName) : Bool := name.head? == some '.'

def temporaryName (path random : FileName) : FileName :=
  ['.'] ++ path ++ ['.', 't', 'm', 'p', '-'] ++ random

theorem hexValue_hexDigit {d : Nat} (h : d < 16) : hexValue (hexDigit d) = some d := by
  interval_cases d <;> rfl

theorem hexDigit_ne_dot {d : Nat} (h : d < 16) : hexDigit d ≠ '.' := by
  interval_cases d <;> decide

theorem length_formatHex (width n : Nat) : (formatHex width n).length = width := by
  induction width generalizing n with
  | zero => rfl
  | succ width ih => simp [formatHex, ih]

theorem foldlM_formatHex {width n : Nat} (hw : width ≤ 16) (hn : n < 16 ^ width) :
    (formatHex width n).foldlM pushDigit 0 = some n := by
  induction width generalizing n with
  | zero =>
    obtain rfl : n = 0 := by omega
    rfl
  | succ width ih =>
    have hquot : n / 16 < 16 ^ width := by
      rw [pow_succ] at hn
      omega
    have hfit : n < 2 ^ 64 :=
      calc n < 16 ^ (width + 1) := hn
        _ ≤ 16 ^ 16 := Nat.pow_le_pow_right (by omega) hw
        _ = 2 ^ 64 := by norm_num
    have hdigit : n / 16 * 16 + n % 16 = n := by omega
    simp only [formatHex, foldlM_append, ih (by omega) hquot]
    simpa [pushDigit, hexValue_hexDigit (Nat.mod_lt n (by omega)), hdigit] using hfit

theorem formatHex_ne_nil (n : Nat) : formatHex 16 n ≠ [] := by
  intro h
  have hl := length_formatHex 16 n
  rw [h] at hl
  cases hl

theorem hasSuffix_fileName (seq : Nat) : hasSuffix (fileName seq) := by
  simp [hasSuffix, fileName, isSuffixOf_iff_suffix]

theorem trimSuffix_fileName (seq : Nat) : trimSuffix (fileName seq) = formatHex 16 seq := by
  rw [trimSuffix, if_pos (hasSuffix_fileName seq), fileName, length_append, Nat.add_sub_cancel]
  exact take_left' rfl

theorem parseUint_fileName {seq : Nat} (h : seq < 2 ^ 64) :
    parseUint (trimSuffix (fileName seq)) = some seq := by
  have hpow : (16 : Nat) ^ 16 = 2 ^ 64 := by norm_num
  rw [trimSuffix_fileName, parseUint, if_neg (formatHex_ne_nil seq),
    foldlM_formatHex le_rfl (hpow ▸ h)]

theorem fileName_injective {a b : Nat} (ha : a < 2 ^ 64) (hb : b < 2 ^ 64)
    (h : fileName a = fileName b) : a = b := by
  have hp := parseUint_fileName ha
  rw [h, parseUint_fileName hb] at hp
  exact (Option.some.inj hp).symm

theorem head_formatHex (width n : Nat) : ∀ c ∈ (formatHex width n).head?, c ≠ '.' := by
  induction width generalizing n with
  | zero => exact nofun
  | succ width ih =>
    intro c hc
    cases hf : formatHex width (n / 16) with
    | nil =>
      rw [formatHex, hf] at hc
      cases hc
      exact hexDigit_ne_dot (Nat.mod_lt n (by omega))
    | cons d rest =>
      rw [formatHex, hf] at hc
      exact ih (n / 16) c (by rw [hf]; exact hc)

theorem hidden_fileName (seq : Nat) : hidden (fileName seq) = false := by
  have hne := formatHex_ne_nil seq
  have hhead := head_formatHex 16 seq
  cases hf : formatHex 16 seq with
  | nil => exact absurd hf hne
  | cons c rest =>
    rw [hf] at hhead
    simpa [hidden, fileName, hf] using hhead c rfl

end AnixAgent.ReportSpool.FileNames

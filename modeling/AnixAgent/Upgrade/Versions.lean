import Mathlib

namespace AnixAgent.Upgrade.Versions

open Option

def isSpace (c : Char) : Bool :=
  c.toNat ∈ [0x09, 0x0a, 0x0b, 0x0c, 0x0d, 0x20, 0x85, 0xa0, 0x1680, 0x2028, 0x2029, 0x202f,
    0x205f, 0x3000] || (0x2000 ≤ c.toNat && c.toNat ≤ 0x200a)

def trimSpace (s : List Char) : List Char :=
  ((s.dropWhile isSpace).reverse.dropWhile isSpace).reverse

def fields (s : List Char) : List (List Char) :=
  (s.splitOnP isSpace).filter fun word ↦ word ≠ []

def after (literal s : List Char) : Option (List Char) :=
  if literal.isPrefixOf s then some (s.drop literal.length) else none

def maxInt : Nat := 2 ^ 63 - 1

def decimal (digits : List Char) : Nat :=
  digits.foldl (fun n c ↦ 10 * n + (c.toNat - '0'.toNat)) 0

def number (s : List Char) : Option (Nat × List Char) :=
  let digits := s.takeWhile Char.isDigit
  if digits = [] ∨ maxInt < decimal digits then none
  else some (decimal digits, s.dropWhile Char.isDigit)

def parseSuffix (s : List Char) : Option (Nat × Nat) :=
  if s = [] then some (0, 0)
  else match after ".dev.".toList s, after ".hf.".toList s with
    | some rest, _ => match number rest with
      | some (n, []) => some (1, n)
      | _ => none
    | none, some rest => match number rest with
      | some (n, []) => some (2, n)
      | _ => none
    | none, none => none

def parseNumbered (s : List Char) : Option (Nat × Nat × Nat) :=
  if s = [] then some (0, 0, 0)
  else match after ['.'] s with
    | none => none
    | some rest => match number rest with
      | none => none
      | some (n, rest) => (parseSuffix rest).map fun suffix ↦ (n, suffix)

/-- `(?:-(alpha|beta|rc)...)?$`: the rank of the pre-release, and what follows. -/
def parsePreRelease (s : List Char) : Option (Nat × Nat × Nat × Nat) :=
  if s = [] then some (3, 0, 0, 0)
  else match after "-alpha".toList s, after "-beta".toList s, after "-rc".toList s with
    | some rest, _, _ => (parseNumbered rest).map fun tail ↦ (0, tail)
    | none, some rest, _ => (parseNumbered rest).map fun tail ↦ (1, tail)
    | none, none, some rest => (parseNumbered rest).map fun tail ↦ (2, tail)
    | none, none, none => none

/-- Major, minor and patch, the rank of the pre-release and its number, the rank of the suffix
and its number. -/
def parseVersion (version : String) : Option (List Nat) := do
  let text := trimSpace version.toList
  let text := (after ['v'] text).getD text
  let (major, rest) ← number text
  let rest ← after ['.'] rest
  let (minor, rest) ← number rest
  let rest ← after ['.'] rest
  let (patch, rest) ← number rest
  let (rank, n, suffix, m) ← parsePreRelease rest
  pure [major, minor, patch, rank, n, suffix, m]

def compareParts : List Nat → List Nat → Int
  | x :: xs, y :: ys => if x < y then -1 else if y < x then 1 else compareParts xs ys
  | _, _ => 0

def compareVersions (a b : String) : Option Int := do
  let pa ← parseVersion a
  let pb ← parseVersion b
  pure (compareParts pa pb)

def validVersion (version : String) : Bool :=
  (parseVersion version).isSome && "v".toList.isPrefixOf version.toList

theorem compareParts_neg_iff {xs ys : List Nat} (h : xs.length = ys.length) :
    compareParts xs ys < 0 ↔ xs < ys := by
  induction xs generalizing ys with
  | nil =>
    obtain rfl : ys = [] := List.length_eq_zero_iff.mp h.symm
    simp [compareParts]
  | cons x xs ih =>
    cases ys with
    | nil => cases h
    | cons y ys =>
      have hlength : xs.length = ys.length := Nat.succ.inj h
      rw [compareParts, List.cons_lt_cons_iff]
      split
      · next hlt => simp [hlt]
      next hge =>
      split
      · next hgt =>
        have hne : x ≠ y := by omega
        simp [hge, hne]
      next hle =>
      have heq : x = y := by omega
      rw [ih hlength]
      simp [heq]

theorem length_parseVersion {version : String} {parts : List Nat}
    (h : parseVersion version = some parts) : parts.length = 7 := by
  simp only [parseVersion, bind_eq_bind, bind_eq_some_iff] at h
  obtain ⟨_, _, _, _, _, _, _, _, _, _, _, _, heq⟩ := h
  rw [← Option.some.inj heq]
  rfl

def NotBelow (a b : String) : Prop :=
  ∃ pa pb, parseVersion a = some pa ∧ parseVersion b = some pb ∧ pb ≤ pa

theorem notBelow_of_compareVersions {a b : String} {order : Int}
    (h : compareVersions a b = some order) (horder : 0 ≤ order) : NotBelow a b := by
  simp only [compareVersions, bind_eq_bind, bind_eq_some_iff] at h
  obtain ⟨pa, hpa, pb, hpb, heq⟩ := h
  refine ⟨pa, pb, hpa, hpb, ?_⟩
  have hlength : pa.length = pb.length :=
    (length_parseVersion hpa).trans (length_parseVersion hpb).symm
  have hnot : ¬ pa < pb := fun hlt ↦ by
    have hneg := (compareParts_neg_iff hlength).mpr hlt
    rw [Option.some.inj heq] at hneg
    omega
  exact not_lt.mp hnot

example : compareVersions "v5.0.0-rc.15.dev.2" "v5.0.0-rc.15.hf.1" = some (-1) := by decide

example : compareVersions "v5.0.0" "5.0.0-rc.16" = some 1 := by decide

end AnixAgent.Upgrade.Versions

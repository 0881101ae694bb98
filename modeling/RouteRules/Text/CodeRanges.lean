/-!
# Ranges of code points

A class of characters as the closed ranges of code points that it fills. The ranges ascend, so the
first one that does not end below a character decides whether the character is in the class.

## Main definitions

- `CodeRanges`: ranges that ascend.
- `CodeRanges.covers`: whether a character is in the class.

## Main statements

- `CodeRanges.covers_iff`: a character is in the class if it is in any of the ranges.
-/

namespace RouteRules

/-- Whether closed ranges ascend, none of them empty, and no two of them touch. -/
def isAscending : List (Nat × Nat) → Bool
  | [] => true
  | [r] => r.1 ≤ r.2
  | r :: s :: rest => r.1 ≤ r.2 && r.2 + 1 < s.1 && isAscending (s :: rest)

/-- Closed ranges of code points, each with its first and its last. -/
structure CodeRanges where
  ranges : List (Nat × Nat)
  ascending : isAscending ranges = true

theorem lt_of_isAscending {r : Nat × Nat} {rest : List (Nat × Nat)}
    (h : isAscending (r :: rest) = true) : isAscending rest = true ∧ ∀ s ∈ rest, r.2 < s.1 := by
  induction rest generalizing r with
  | nil => exact ⟨rfl, nofun⟩
  | cons s rest ih =>
    simp only [isAscending, Bool.and_eq_true, decide_eq_true_eq] at h
    obtain ⟨⟨_, hgap⟩, hrest⟩ := h
    refine ⟨hrest, fun t ht => ?_⟩
    rcases List.mem_cons.mp ht with rfl | ht
    · omega
    -- Further up the ranges begin behind the end of the next one, which is not empty.
    · have hnext : s.1 ≤ s.2 := by
        cases rest with
        | nil => simpa [isAscending] using hrest
        | cons u others =>
          simp only [isAscending, Bool.and_eq_true, decide_eq_true_eq] at hrest
          exact hrest.1.1
      have hlater := (ih hrest).2 t ht
      omega

namespace CodeRanges

/-- Whether the character lies in one of the ranges. -/
def covers (table : CodeRanges) (c : Char) : Bool :=
  match table.ranges.find? fun r => c.toNat ≤ r.2 with
  | some r => r.1 ≤ c.toNat
  | none => false

/-- A character is covered exactly if some range has it between its ends. -/
theorem covers_iff {table : CodeRanges} {c : Char} :
    table.covers c = true ↔ ∃ r ∈ table.ranges, r.1 ≤ c.toNat ∧ c.toNat ≤ r.2 := by
  obtain ⟨ranges, ascending⟩ := table
  unfold covers
  induction ranges with
  | nil => simp
  | cons r rest ih =>
    obtain ⟨hrest, hlater⟩ := lt_of_isAscending ascending
    by_cases hend : c.toNat ≤ r.2
    -- All other ranges begin behind this one, and so behind the character.
    · have hnone : ¬ ∃ s ∈ rest, s.1 ≤ c.toNat ∧ c.toNat ≤ s.2 := by
        rintro ⟨s, hs, hlow, _⟩
        have hbehind := hlater s hs
        omega
      simp [hend, hnone]
    · simp [hend, ih hrest]

end CodeRanges

end RouteRules

import RouteRules.Expr.Basic
import RouteRules.Proofs.Text.Nesting

/-!
# Cutting texts at separators

A text is cut at the separators that fields end in. A separator counts only outside of all brackets,
so the fields of an object further in stay together.

## Main definitions

- `Cutting.cut`: the parts of a text between the separators that stand outside of brackets.

## Main statements

- `Cutting.cut_join`: joined texts are cut back into what they were joined from, if they are
  sealed.
-/

namespace RouteRules

namespace Cutting

open Nesting

/-- The number of brackets that are open after a character. -/
def depthAfter (depth : Nat) (c : Char) : Nat :=
  if (closer? c).isSome then depth + 1 else if isCloser c then depth - 1 else depth

/-- Cuts a text at every separator that is met outside of all brackets, where `depth` brackets are
open at its beginning. -/
def cut (depth : Nat) : List Char → List (List Char)
  | [] => [[]]
  | c :: rest =>
    if depth = 0 ∧ fieldSeparator.toList <+: c :: rest then
      [] :: cut 0 (rest.drop (fieldSeparator.toList.length - 1))
    else (cut (depthAfter depth c) rest).modifyHead (c :: ·)
termination_by cs => cs.length
decreasing_by
  · simp only [List.length_drop, List.length_cons]
    omega
  · simp

theorem toList_fieldSeparator : fieldSeparator.toList = [',', '\n', ' ', ' ', ' ', ' '] := by
  decide +kernel

theorem length_of_step {stack after : List Char} {c : Char} (h : step stack c = some after) :
    depthAfter stack.length c = after.length := by
  unfold step at h
  unfold depthAfter
  -- A bracket that opens is put on the stack.
  cases hclose : closer? c with
  | some close =>
    rw [hclose] at h
    cases h
    rfl
  | none =>
    rw [hclose] at h
    -- A bracket that closes takes off the one that is awaited, and there has to be one.
    cases hcloser : isCloser c with
    | false =>
      rw [hcloser] at h
      cases h
      rfl
    | true =>
      rw [hcloser] at h
      cases stack with
      | nil => cases h
      | cons top below =>
        simp only [if_true] at h
        split at h
        · cases h
          rfl
        · cases h

/-- No separator begins within a sealed text, unless what comes after it begins with a new line. -/
theorem not_separator {c : Char} {cs rest after : List Char}
    (h : (c :: cs).foldlM sealedStep [] = some after) (hrest : rest.head? ≠ some '\n') :
    ¬ fieldSeparator.toList <+: c :: (cs ++ rest) := by
  rw [toList_fieldSeparator]
  intro hprefix
  obtain ⟨rfl, htail⟩ := List.cons_prefix_cons.mp hprefix
  cases cs with
  | nil =>
    obtain ⟨tail, htail⟩ := htail
    rw [List.nil_append] at htail
    subst htail
    exact hrest rfl
  | cons d ds =>
    -- The new line of the separator would end a line of the text.
    obtain ⟨rfl, -⟩ := List.cons_prefix_cons.mp htail
    cases h

/-- A sealed text is kept together. -/
theorem cut_append {stack after cs rest : List Char}
    (h : cs.foldlM sealedStep stack = some after) (hrest : rest.head? ≠ some '\n') :
    cut stack.length (cs ++ rest) = (cut after.length rest).modifyHead (cs ++ ·) := by
  -- On the text. The number of open brackets is the height of the stack that reads it.
  induction cs generalizing stack with
  | nil =>
    cases h
    exact (congrFun List.modifyHead_id _).symm
  | cons c cs ih =>
    have hnone : ¬(stack.length = 0 ∧ fieldSeparator.toList <+: c :: (cs ++ rest)) := by
      rintro ⟨hdepth, hprefix⟩
      rw [List.length_eq_zero_iff.mp hdepth] at h
      exact not_separator h hrest hprefix
    rw [List.foldlM_cons] at h
    obtain ⟨next, hnext, h⟩ := Option.bind_eq_some_iff.mp h
    rw [List.cons_append, cut, if_neg hnone, length_of_step (sealedStep_eq_some.mp hnext).1, ih h,
      List.modifyHead_modifyHead]
    rfl

theorem cut_sealed {s : String} (h : Sealed s) (rest : List Char)
    (hrest : rest.head? ≠ some '\n') :
    cut 0 (s.toList ++ rest) = (cut 0 rest).modifyHead (s.toList ++ ·) :=
  cut_append h hrest

theorem cut_separator (rest : List Char) :
    cut 0 (fieldSeparator.toList ++ rest) = [] :: cut 0 rest := by
  have hprefix := List.prefix_append fieldSeparator.toList rest
  rw [toList_fieldSeparator] at hprefix ⊢
  rw [List.cons_append, cut, toList_fieldSeparator, if_pos ⟨rfl, hprefix⟩]
  rfl

/-- Sealed texts that are joined by separators can be cut apart again. -/
theorem cut_join {pieces : List String} (hne : pieces ≠ []) (h : ∀ p ∈ pieces, Sealed p) :
    cut 0 (fieldSeparator.intercalate pieces).toList = pieces.map String.toList := by
  induction pieces with
  | nil => exact absurd rfl hne
  | cons first rest ih =>
    have hfirst := h first (List.mem_cons_self ..)
    -- A piece is kept together, and the separator behind it is met outside of all brackets.
    cases rest with
    | nil =>
      have hcut := cut_sealed hfirst [] (by simp)
      rw [List.append_nil] at hcut
      rw [String.intercalate_singleton, hcut, cut]
      simp
    | cons second others =>
      have hrest := ih (List.cons_ne_nil _ _) fun p hp => h p (List.mem_cons_of_mem _ hp)
      rw [String.intercalate_cons_cons, String.toList_append, String.toList_append,
        List.append_assoc, cut_sealed hfirst _ (by rw [toList_fieldSeparator]; simp), cut_separator,
        hrest]
      simp

end Cutting

end RouteRules

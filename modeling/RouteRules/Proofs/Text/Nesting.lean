/-!
# Nested brackets

Texts whose brackets `()`, `[]` and braces are well nested. Brackets are all that counts: quotes
have no meaning here, so a bracket between quotes is a bracket.

## Main definitions

- `Nesting.step`: one character, read with a stack of the brackets that are still to be closed.
- `WellNested`: every bracket is closed by its own kind, in the right order.
- `Sealed`: the text is well nested, and no line ends outside of its brackets.
- `Closed`: the text is well nested, and no line ends in it.
- `Nesting.Reads`: what reading a part of a sealed text does to the stack.

## Main statements

- `Sealed.reads`, `WellNested.reads`: a text can stand within other brackets.
-/

namespace RouteRules

namespace Nesting

/-- The bracket that closes an opening one. -/
def closer? (c : Char) : Option Char :=
  if c = '(' then some ')'
  else if c = '[' then some ']'
  -- The braces.
  else if c = '\x7b' then some '\x7d'
  else none

def isCloser (c : Char) : Bool := c == ')' || c == ']' || c == '\x7d'

/-- Reads a character. The stack holds the closing brackets that are awaited, the innermost
first. -/
def step (stack : List Char) (c : Char) : Option (List Char) :=
  match closer? c with
  | some close => some (close :: stack)
  | none =>
    if isCloser c then
      match stack with
      | [] => none
      | top :: below => if top = c then some below else none
    else some stack

/-- Reads a character of a text in which no line ends outside of the brackets. -/
def sealedStep (stack : List Char) (c : Char) : Option (List Char) :=
  if c = '\n' ∧ stack = [] then none else step stack c

/-- Reading `s` leads from one stack to the other, and no line ends while the stack is empty. -/
def Reads (stack : List Char) (s : String) (after : List Char) : Prop :=
  s.toList.foldlM sealedStep stack = some after

instance (stack : List Char) (s : String) (after : List Char) : Decidable (Reads stack s after) :=
  inferInstanceAs (Decidable (_ = _))

end Nesting

/-- Every bracket of the text is closed, by its own kind and in the right order. -/
def WellNested (s : String) : Prop := s.toList.foldlM Nesting.step [] = some []

/-- The text is well nested, and no line ends outside of its brackets. -/
def Sealed (s : String) : Prop := Nesting.Reads [] s []

/-- The text is well nested, and no line ends in it. -/
def Closed (s : String) : Prop := WellNested s ∧ '\n' ∉ s.toList

instance (s : String) : Decidable (WellNested s) := inferInstanceAs (Decidable (_ = _))

instance (s : String) : Decidable (Sealed s) := inferInstanceAs (Decidable (_ = _))

instance (s : String) : Decidable (Closed s) := inferInstanceAs (Decidable (_ ∧ _))

/-! ## Single characters -/

namespace Nesting

theorem sealedStep_eq_some {stack after : List Char} {c : Char} :
    sealedStep stack c = some after ↔ step stack c = some after ∧ ¬(c = '\n' ∧ stack = []) := by
  unfold sealedStep
  split
  · rename_i h
    simp [h]
  · rename_i h
    simp [h]

/-- Brackets further out do not matter. -/
theorem step_append {stack after : List Char} {c : Char} (h : step stack c = some after)
    (outer : List Char) : step (stack ++ outer) c = some (after ++ outer) := by
  unfold step at h ⊢
  -- Only the top of the stack is looked at, and there is one whenever it is needed.
  cases hclose : closer? c with
  | some close =>
    rw [hclose] at h
    cases h
    rfl
  | none =>
    rw [hclose] at h
    cases hcloser : isCloser c with
    | false =>
      rw [hcloser] at h
      cases h
      rfl
    | true =>
      rw [hcloser] at h
      cases stack with
      | nil => cases h
      | cons top below =>
        simp only [if_true, List.cons_append] at h ⊢
        split at h
        · rename_i htop
          cases h
          rw [if_pos htop]
        · cases h

/-! ## Parts of texts -/

/-- Where no line ends with an empty stack, both ways of reading are the same. -/
theorem foldlM_sealedStep {stack after cs : List Char} (h : cs.foldlM step stack = some after)
    (outer : List Char) (hline : '\n' ∉ cs ∨ outer ≠ []) :
    cs.foldlM sealedStep (stack ++ outer) = some (after ++ outer) := by
  induction cs generalizing stack with
  | nil =>
    cases h
    rfl
  | cons c cs ih =>
    rw [List.foldlM_cons] at h ⊢
    obtain ⟨next, hnext, h⟩ := Option.bind_eq_some_iff.mp h
    have hstep : sealedStep (stack ++ outer) c = some (next ++ outer) := by
      refine sealedStep_eq_some.mpr ⟨step_append hnext outer, ?_⟩
      rintro ⟨rfl, hempty⟩
      -- The stack is empty only without outer brackets, and then no line ends in the text.
      rcases hline with hline | houter
      · exact hline (List.mem_cons_self ..)
      · exact houter (List.append_eq_nil_iff.mp hempty).2
    rw [hstep]
    exact ih h (hline.imp_left fun hline hmem => hline (List.mem_cons_of_mem _ hmem))

theorem foldlM_step_of_sealedStep {stack after : List Char} {cs : List Char}
    (h : cs.foldlM sealedStep stack = some after) : cs.foldlM step stack = some after := by
  induction cs generalizing stack with
  | nil => exact h
  | cons c cs ih =>
    rw [List.foldlM_cons] at h ⊢
    obtain ⟨next, hnext, h⟩ := Option.bind_eq_some_iff.mp h
    rw [(sealedStep_eq_some.mp hnext).1]
    exact ih h

theorem Reads.append {stack next after : List Char} {s t : String} (hs : Reads stack s next)
    (ht : Reads next t after) : Reads stack (s ++ t) after := by
  unfold Reads at *
  rw [String.toList_append, List.foldlM_append, hs]
  exact ht

end Nesting

open Nesting

/-! ## Whole texts -/

theorem Sealed.wellNested {s : String} (h : Sealed s) : WellNested s := foldlM_step_of_sealedStep h

/-- A sealed text can stand anywhere. -/
theorem Sealed.reads {s : String} (h : Sealed s) (stack : List Char) : Reads stack s stack := by
  cases stack with
  | nil => exact h
  | cons top below =>
    exact foldlM_sealedStep h.wellNested (top :: below) (.inr (List.cons_ne_nil _ _))

/-- A well-nested text can stand within other brackets. -/
theorem WellNested.reads {s : String} (h : WellNested s) (top : Char) (below : List Char) :
    Reads (top :: below) s (top :: below) :=
  foldlM_sealedStep h (top :: below) (.inr (List.cons_ne_nil _ _))

theorem Closed.sealed {s : String} (h : Closed s) : Sealed s :=
  foldlM_sealedStep h.1 [] (.inl h.2)

theorem Sealed.append {s t : String} (hs : Sealed s) (ht : Sealed t) : Sealed (s ++ t) :=
  Reads.append hs ht

theorem WellNested.append {s t : String} (hs : WellNested s) (ht : WellNested t) :
    WellNested (s ++ t) := by
  unfold WellNested at *
  rw [String.toList_append, List.foldlM_append, hs]
  exact ht

theorem Closed.append {s t : String} (hs : Closed s) (ht : Closed t) : Closed (s ++ t) := by
  refine ⟨hs.1.append ht.1, ?_⟩
  rw [String.toList_append, List.mem_append, not_or]
  exact ⟨hs.2, ht.2⟩

end RouteRules

import Mathlib.Data.List.Forall2
import RouteRules.Fault

/-!
# Outcomes

The rules by which results of `Except Fault` are taken apart, the outcomes that blame no schema, and
the outcomes that settle.

An outcome settles unless it is the fault of an endless walk. Every step of a compilation that
follows no reference settles, so this fault can only come from references. Most of these steps blame
no schema at all: what can fail there is a single value.
-/

namespace RouteRules

variable {α β γ δ : Type}

/-! ## Taking results apart -/

@[simp] theorem ok_bind (a : α) (f : α → Except Fault β) : (Except.ok a >>= f) = f a := rfl

@[simp] theorem error_bind (fault : Fault) (f : α → Except Fault β) :
    ((Except.error fault : Except Fault α) >>= f) = .error fault := rfl

@[simp] theorem map_ok (f : α → β) (a : α) : (f <$> (Except.ok a : Except Fault α)) = .ok (f a) :=
  rfl

@[simp] theorem map_error (f : α → β) (fault : Fault) :
    (f <$> (Except.error fault : Except Fault α)) = .error fault := rfl

@[simp] theorem pure_eq_ok (a : α) : (pure a : Except Fault α) = .ok a := rfl

@[simp] theorem throw_eq_error (fault : Fault) :
    (throw fault : Except Fault α) = .error fault := rfl

theorem bind_ok_eq_map (x : Except Fault α) (f : α → β) : (x >>= fun a => .ok (f a)) = f <$> x := by
  cases x <;> rfl

theorem bind_eq_ok {x : Except Fault α} {f : α → Except Fault β} {b : β} :
    (x >>= f) = .ok b ↔ ∃ a, x = .ok a ∧ f a = .ok b := by
  cases x with
  | ok a => simp
  | error fault => simp

theorem bind_eq_error {x : Except Fault α} {f : α → Except Fault β} {fault : Fault} :
    (x >>= f) = .error fault ↔ x = .error fault ∨ ∃ a, x = .ok a ∧ f a = .error fault := by
  cases x with
  | ok a => simp
  | error other => simp

theorem map_eq_ok {x : Except Fault α} {f : α → β} {b : β} :
    (f <$> x) = .ok b ↔ ∃ a, x = .ok a ∧ f a = b := by
  cases x with
  | ok a => simp
  | error fault => simp

theorem map_eq_error {x : Except Fault α} {f : α → β} {fault : Fault} :
    (f <$> x) = .error fault ↔ x = .error fault := by
  cases x with
  | ok a => simp
  | error other => simp

instance (x : Except Fault α) : Decidable (∃ a, x = .ok a) :=
  match x with
  | .ok a => .isTrue ⟨a, rfl⟩
  | .error _ => .isFalse nofun

instance (x : Except Fault α) (fault : Fault) : Decidable (x = .error fault) :=
  match x with
  | .ok _ => .isFalse nofun
  | .error other => decidable_of_iff (other = fault) (by simp)

instance (x : Except Fault α) (p : α → Prop) [DecidablePred p] :
    Decidable (∃ a, x = .ok a ∧ p a) :=
  match x with
  | .ok a => decidable_of_iff (p a) (by simp)
  | .error _ => .isFalse nofun

instance (x : Except Fault α) (p : α → Prop) [DecidablePred p] :
    Decidable (∀ a, x = .ok a → p a) :=
  match x with
  | .ok a => decidable_of_iff (p a) (by simp)
  | .error _ => .isTrue nofun

/-- The results of a walk over a list are those of its elements. -/
theorem mapM_eq_ok {f : α → Except Fault β} {as : List α} {bs : List β} :
    as.mapM f = .ok bs ↔ List.Forall₂ (fun a b => f a = .ok b) as bs := by
  -- On the elements, each of which takes one result from the front of the list.
  induction as generalizing bs with
  | nil =>
    rw [List.forall₂_nil_left_iff]
    exact ⟨fun h => by cases h; rfl, fun h => by rw [h]; rfl⟩
  | cons a rest ih =>
    rw [List.mapM_cons, bind_eq_ok, List.forall₂_cons_left_iff]
    constructor
    · rintro ⟨b, hb, h⟩
      obtain ⟨others, hothers, h⟩ := bind_eq_ok.mp h
      cases h
      exact ⟨b, others, hb, ih.mp hothers, rfl⟩
    · rintro ⟨b, others, hb, hothers, rfl⟩
      exact ⟨b, hb, by rw [ih.mpr hothers]; rfl⟩

/-- Of two lists side by side, what stands in the second one has a partner in the first. -/
theorem exists_of_mem_right {R : α → β → Prop} {as : List α} {bs : List β} {b : β}
    (h : List.Forall₂ R as bs) (hb : b ∈ bs) : ∃ a ∈ as, R a b := by
  induction h with
  | nil => cases hb
  | @cons a first as rest hfirst _ ih =>
    rcases List.mem_cons.mp hb with rfl | hb
    · exact ⟨a, List.mem_cons_self .., hfirst⟩
    · obtain ⟨other, hother, hvalue⟩ := ih hb
      exact ⟨other, List.mem_cons_of_mem _ hother, hvalue⟩

/-- What holds side by side can be weakened, with regard to what stands in the lists. -/
theorem forall₂_imp_of_mem {R S : α → β → Prop} {as : List α} {bs : List β}
    (h : List.Forall₂ R as bs) (himp : ∀ a ∈ as, ∀ b ∈ bs, R a b → S a b) :
    List.Forall₂ S as bs := by
  induction h with
  | nil => exact .nil
  | @cons a b as bs hfirst _ ih =>
    apply List.Forall₂.cons
    · exact himp a (List.mem_cons_self ..) b (List.mem_cons_self ..) hfirst
    · apply ih
      intro a' ha' b' hb'
      exact himp a' (List.mem_cons_of_mem _ ha') b' (List.mem_cons_of_mem _ hb')

/-- What holds side by side holds of all of the one list if it holds of all of the other. -/
theorem forall_mem_iff_of_forall₂ {R : α → β → Prop} {p : α → Prop} {q : β → Prop} {as : List α}
    {bs : List β} (h : List.Forall₂ R as bs) (hiff : ∀ a b, R a b → (p a ↔ q b)) :
    (∀ a ∈ as, p a) ↔ ∀ b ∈ bs, q b := by
  induction h with
  | nil => simp
  | cons hfirst _ ih => rw [List.forall_mem_cons, List.forall_mem_cons, hiff _ _ hfirst, ih]

/-- What stands beside a list in parts is in parts itself. -/
theorem exists_of_forall₂_append_cons {R : α → β → Prop} {before after : List α} {a : α}
    {bs : List β} (h : List.Forall₂ R (before ++ a :: after) bs) :
    ∃ bs₁ b bs₂, bs = bs₁ ++ b :: bs₂ ∧ List.Forall₂ R before bs₁ ∧ R a b ∧
      List.Forall₂ R after bs₂ := by
  -- On what stands before the element, which is taken off both lists together.
  induction before generalizing bs with
  | nil =>
    obtain ⟨b, bs₂, hb, hafter, rfl⟩ := List.forall₂_cons_left_iff.mp h
    exact ⟨[], b, bs₂, rfl, .nil, hb, hafter⟩
  | cons first rest ih =>
    obtain ⟨b', others, hb', hothers, rfl⟩ := List.forall₂_cons_left_iff.mp h
    obtain ⟨bs₁, b, bs₂, rfl, hbefore, hb, hafter⟩ := ih hothers
    exact ⟨b' :: bs₁, b, bs₂, rfl, .cons hb' hbefore, hb, hafter⟩

/-- In a walk over a list that has a result, every element has one. -/
theorem exists_of_mapM_eq_ok {f : α → Except Fault β} {as : List α} {bs : List β} {a : α}
    (h : as.mapM f = .ok bs) (ha : a ∈ as) : ∃ b, f a = .ok b := by
  obtain ⟨b, _, hb⟩ := exists_of_mem_right (mapM_eq_ok.mp h).flip ha
  exact ⟨b, hb⟩

/-- A walk over a list has a result if every element has one. -/
theorem exists_mapM_eq_ok {f : α → Except Fault β} {as : List α} (h : ∀ a ∈ as, ∃ b, f a = .ok b) :
    ∃ bs, as.mapM f = .ok bs := by
  induction as with
  | nil => exact ⟨[], rfl⟩
  | cons a rest ih =>
    obtain ⟨b, hb⟩ := h a (List.mem_cons_self ..)
    obtain ⟨bs, hbs⟩ := ih fun other hother => h other (List.mem_cons_of_mem _ hother)
    refine ⟨b :: bs, ?_⟩
    rw [List.mapM_cons, hb, hbs]
    rfl

theorem mapM_of_forall_ok {f : α → Except Fault β} {g : α → β} {as : List α}
    (h : ∀ a ∈ as, f a = .ok (g a)) : as.mapM f = .ok (as.map g) :=
  mapM_eq_ok.mpr (List.forall₂_map_right_iff.mpr (List.forall₂_same.mpr h))

/-- The parts of a walk over a list that has a result. -/
theorem mapM_append_cons_eq_ok {f : α → Except Fault β} {before after : List α} {a : α}
    {bs : List β} : (before ++ a :: after).mapM f = .ok bs ↔ ∃ bs₁ b bs₂, bs = bs₁ ++ b :: bs₂ ∧
      before.mapM f = .ok bs₁ ∧ f a = .ok b ∧ after.mapM f = .ok bs₂ := by
  rw [List.mapM_append, List.mapM_cons]
  constructor
  -- A walk is a chain of binds, so its result comes apart into those of its steps.
  · intro h
    obtain ⟨bs₁, hbefore, h⟩ := bind_eq_ok.mp h
    obtain ⟨others, hothers, h⟩ := bind_eq_ok.mp h
    obtain ⟨b, hb, hothers⟩ := bind_eq_ok.mp hothers
    obtain ⟨bs₂, hafter, hothers⟩ := bind_eq_ok.mp hothers
    cases hothers
    cases h
    exact ⟨bs₁, b, bs₂, rfl, hbefore, hb, hafter⟩
  · rintro ⟨bs₁, b, bs₂, rfl, hbefore, hb, hafter⟩
    rw [hbefore, hb, hafter]
    rfl

/-- A walk over a list is at fault where its first element at fault is. -/
theorem mapM_eq_error {f : α → Except Fault β} {as : List α} {fault : Fault} :
    as.mapM f = .error fault ↔ ∃ before a after, as = before ++ a :: after ∧
      (∀ b ∈ before, ∃ r, f b = .ok r) ∧ f a = .error fault := by
  constructor
  · intro h
    induction as with
    | nil => cases h
    | cons first rest ih =>
      -- Either the first element is at fault, or the walk goes on and the rest of it is.
      cases hfirst : f first with
      | error other =>
        rw [List.mapM_cons, hfirst] at h
        cases h
        exact ⟨[], first, rest, rfl, List.forall_mem_nil _, hfirst⟩
      | ok r =>
        cases hrest : rest.mapM f with
        | ok rs =>
          rw [List.mapM_cons, hfirst, hrest] at h
          cases h
        | error other =>
          rw [List.mapM_cons, hfirst, hrest] at h
          cases h
          obtain ⟨before, a, after, rfl, hbefore, ha⟩ := ih hrest
          have hall := List.forall_mem_cons.mpr ⟨⟨r, hfirst⟩, hbefore⟩
          exact ⟨first :: before, a, after, rfl, hall, ha⟩
  · rintro ⟨before, a, after, rfl, hbefore, ha⟩
    -- What comes before is walked through, and then the fault ends the walk.
    obtain ⟨rs, hrs⟩ := exists_mapM_eq_ok hbefore
    rw [List.mapM_append, hrs, List.mapM_cons, ha]
    rfl

/-- The fault is that of the first element of the list that is at fault. -/
def FirstFails (f : α → Except Fault β) (as : List α) (fault : Fault) : Prop :=
  ∃ before a after, as = before ++ a :: after ∧ (∀ b ∈ before, ∃ r, f b = .ok r) ∧
    f a = .error fault

theorem firstFails_iff {f : α → Except Fault β} {as : List α} {fault : Fault} :
    FirstFails f as fault ↔ as.mapM f = .error fault :=
  mapM_eq_error.symm

/-- Two walks over a list are the same if they do the same up to the first fault. -/
theorem mapM_congr_of_before {f g : α → Except Fault β} {as : List α}
    (h : ∀ before a after, as = before ++ a :: after → (∀ b ∈ before, ∃ r, f b = .ok r) →
      f a = g a) : as.mapM f = as.mapM g := by
  induction as with
  | nil => rfl
  | cons first rest ih =>
    rw [List.mapM_cons, List.mapM_cons, ← h [] first rest rfl (List.forall_mem_nil _)]
    cases hfirst : f first with
    | error fault => rfl
    | ok r =>
      rw [ok_bind, ok_bind, ih]
      -- Behind a first element without a fault, the same is asked of the rest.
      rintro before a after rfl hbefore
      have hall := List.forall_mem_cons.mpr ⟨⟨r, hfirst⟩, hbefore⟩
      exact h (first :: before) a after rfl hall

/-- A walk that goes through a list for each element is one walk. -/
theorem flatten_mapM {f : α → Except Fault (List γ)} {parts : α → List β} {g : β → Except Fault γ}
    {as : List α} (h : ∀ a ∈ as, f a = (parts a).mapM g) :
    List.flatten <$> as.mapM f = (as.flatMap parts).mapM g := by
  induction as with
  | nil => rfl
  | cons a rest ih =>
    have hrest := ih fun other hother => h other (List.mem_cons_of_mem _ hother)
    rw [List.flatMap_cons, List.mapM_append, ← hrest, List.mapM_cons, h a (List.mem_cons_self ..)]
    cases (parts a).mapM g with
    | error fault => rfl
    | ok own => cases rest.mapM f <;> rfl

/-- Results that agree under a view `v` are followed by results that agree under a view `w`. -/
theorem map_bind_congr {x y : Except Fault α} {f g : α → Except Fault β} {v : α → γ} {w : β → δ}
    (hxy : v <$> x = v <$> y) (hfg : ∀ a b, v a = v b → w <$> f a = w <$> g b) :
    w <$> (x >>= f) = w <$> (y >>= g) := by
  -- A view keeps faults, so the two outcomes fail alike or have results that agree.
  cases x with
  | error fault =>
    cases y with
    | error other => simpa using hxy
    | ok b => simp at hxy
  | ok a =>
    cases y with
    | error other => simp at hxy
    | ok b => exact hfg a b (by simpa using hxy)

theorem map_map_congr {x y : Except Fault α} {f g : α → β} {v : α → γ} {w : β → δ}
    (hxy : v <$> x = v <$> y) (hfg : ∀ a b, v a = v b → w (f a) = w (g b)) :
    w <$> (f <$> x) = w <$> (g <$> y) := by
  rw [← bind_ok_eq_map, ← bind_ok_eq_map]
  apply map_bind_congr hxy
  intro a b hab
  rw [map_ok, map_ok, hfg a b hab]

/-! ## Outcomes that blame no schema -/

/-- A fault in what a schema is or refers to. All other faults lie in single values. -/
@[simp] def Fault.isOfSchema : Fault → Bool
  | noItems _ => true
  | noProperties _ => true
  | unknownComponent _ => true
  | unsupportedType _ _ => true
  | endlessReference => true
  | _ => false

/-- The outcome is no fault in what a schema is or refers to. -/
def Blameless (x : Except Fault α) : Prop := ∀ fault, x = .error fault → fault.isOfSchema = false

@[simp] theorem blameless_ok (a : α) : Blameless (.ok a : Except Fault α) := by
  intro fault h
  cases h

@[simp] theorem blameless_error {fault : Fault} :
    Blameless (.error fault : Except Fault α) ↔ fault.isOfSchema = false := by
  simp [Blameless]

theorem Blameless.bind {x : Except Fault α} {f : α → Except Fault β} (hx : Blameless x)
    (hf : ∀ a, Blameless (f a)) : Blameless (x >>= f) := by
  intro fault h
  rcases bind_eq_error.mp h with h | ⟨a, _, h⟩
  · exact hx fault h
  · exact hf a fault h

theorem Blameless.map {x : Except Fault α} (f : α → β) (hx : Blameless x) :
    Blameless (f <$> x) := by
  intro fault h
  exact hx fault (map_eq_error.mp h)

/-- A walk over a list blames no schema if it does so at no element. -/
theorem Blameless.mapM {f : α → Except Fault β} {as : List α} (hf : ∀ a ∈ as, Blameless (f a)) :
    Blameless (as.mapM f) := by
  intro fault h
  obtain ⟨before, a, after, rfl, _, ha⟩ := mapM_eq_error.mp h
  exact hf a (List.mem_append_right _ (List.mem_cons_self ..)) fault ha

/-! ## Outcomes that settle -/

/-- The outcome is not the fault of an endless walk. -/
def Settles (x : Except Fault α) : Prop := x ≠ .error .endlessReference

theorem not_settles_iff {x : Except Fault α} : ¬ Settles x ↔ x = .error .endlessReference :=
  Classical.not_not

@[simp] theorem settles_ok (a : α) : Settles (.ok a : Except Fault α) := by
  intro h
  cases h

@[simp] theorem settles_error {fault : Fault} :
    Settles (.error fault : Except Fault α) ↔ fault ≠ .endlessReference := by
  simp [Settles]

theorem Settles.bind {x : Except Fault α} {f : α → Except Fault β} (hx : Settles x)
    (hf : ∀ a, x = .ok a → Settles (f a)) : Settles (x >>= f) := by
  cases x with
  | ok a => exact hf a rfl
  | error fault => exact fun h => hx (by cases h; rfl)

theorem Settles.of_bind {x : Except Fault α} {f : α → Except Fault β} (h : Settles (x >>= f)) :
    Settles x := by
  intro hx
  subst hx
  exact h rfl

theorem Settles.map {x : Except Fault α} (f : α → β) (hx : Settles x) : Settles (f <$> x) := by
  cases x with
  | ok a => exact settles_ok _
  | error fault => exact fun h => hx (by cases h; rfl)

theorem Settles.of_map {x : Except Fault α} {f : α → β} (h : Settles (f <$> x)) : Settles x := by
  intro hx
  subst hx
  exact h rfl

/-- What blames no schema is not endless. -/
theorem Blameless.settles {x : Except Fault α} (h : Blameless x) : Settles x := by
  intro hx
  cases h _ hx

end RouteRules

import RouteRules.Proofs.Walk.Outcome
import RouteRules.Proofs.Components

/-!
# Coming back to an open component

A component that is open waits for the result of what is walked now. If that is the component
itself, it waits for itself: a limit under which it settled would leave a smaller one under which it
settled already. So it settles under no limit, and the walk never ends.

## Main definitions

- `Walk.Stack.Awaits`: the stack awaits a result that has the given outcome under each limit.

## Main statements

- `Walk.awaits_run`: the invariant holds at every time of a walk.
- `Walk.Reenters.neverEnds`: a walk that comes back to an open component never ends.
-/

namespace RouteRules

namespace Walk

variable {c : Context}

/-! ## What a stack awaits -/

/-- The stack awaits a result. Under each limit its outcome is `x limit`, and where an open
component settles, this outcome is what it settles by. -/
def Stack.Awaits (c : Context) : {k : Kind} → (Nat → Except Fault k.Result) → Stack k → Prop
  | _, _, .done => True
  | _, x, .key info below =>
    below.Awaits c (k := .fields) fun limit => x limit >>= fun e => info.fields (.ok e)
  | _, x, .array modifiers below =>
    below.Awaits c (k := .expr) fun limit => (Expr.array · modifiers) <$> x limit
  | _, x, .object modifiers below =>
    below.Awaits c (k := .expr) fun limit => (Expr.object · modifiers) <$> x limit
  | _, x, .rest schemas below =>
    below.Awaits c (k := .fields) fun limit => x limit >>= fun own =>
      (own ++ ·) <$> Schema.fieldsOfAll (c.expandWithin limit) schemas
  | _, x, .after own below =>
    below.Awaits c (k := .fields) fun limit => (own ++ ·) <$> x limit
  | _, x, .component r below =>
    (∃ content, c.content r = .ok content ∧
      ∀ limit, Settles (content.fields (c.expandWithin limit)) →
        x limit = content.fields (c.expandWithin limit)) ∧
    below.Awaits c (k := .fields) fun limit => c.expandWithin limit r

/-- The invariant of a walk: the stack awaits what the walk is about to come back with. -/
def State.Awaits (c : Context) : State → Prop
  | .call task stack => stack.Awaits c fun limit => task.outcome c limit
  | .give result stack => stack.Awaits c fun _ => .ok result
  | .ended _ => True

/-- A stack that awaits an outcome also awaits one that agrees with it wherever it settles. -/
theorem Stack.Awaits.mono {k : Kind} {stack : Stack k} {x y : Nat → Except Fault k.Result}
    (h : stack.Awaits c x) (hxy : ∀ limit, Settles (x limit) → y limit = x limit) :
    stack.Awaits c y := by
  -- What settles as a whole has settled in the part that is awaited: there `y` stands for `x`.
  induction stack with
  | done => trivial
  | key info below ih =>
    apply ih h
    intro limit hsettles
    rw [hxy limit hsettles.of_bind]
  | array modifiers below ih =>
    apply ih h
    intro limit hsettles
    rw [hxy limit hsettles.of_map]
  | object modifiers below ih =>
    apply ih h
    intro limit hsettles
    rw [hxy limit hsettles.of_map]
  | rest schemas below ih =>
    apply ih h
    intro limit hsettles
    rw [hxy limit hsettles.of_bind]
  | after own below ih =>
    apply ih h
    intro limit hsettles
    rw [hxy limit hsettles.of_map]
  -- Of an open component only its content has to settle, so the agreement is asked for only there.
  | component r below ih =>
    obtain ⟨⟨content, hcontent, hagree⟩, hbelow⟩ := h
    refine ⟨⟨content, hcontent, fun limit hsettles => ?_⟩, hbelow⟩
    have hx := hagree limit hsettles
    rw [hxy limit (hx ▸ hsettles), hx]

theorem awaits_back {k : Kind} {stack : Stack k} {outcome : Except Fault k.Result}
    (h : stack.Awaits c fun _ => outcome) : (State.back outcome stack).Awaits c := by
  cases outcome with
  | ok result => exact h
  | error fault => trivial

/-- Every move keeps the invariant. -/
theorem awaits_move {s t : State} (h : Move c s t) (hs : s.Awaits c) : t.Awaits c := by
  cases h with
  | fieldsReference => exact hs
  | fieldsOther href =>
    simpa only [State.Awaits, Stack.Awaits, outcome_fields c _ href] using hs
  | exprReference =>
    simpa only [State.Awaits, Stack.Awaits, Task.outcome, Schema.expr_reference] using hs
  | exprArray hnull =>
    simpa only [State.Awaits, Stack.Awaits, Task.outcome, Schema.expr, Info.expr_of_null hnull,
      Functor.map_map] using hs
  | exprObject hnull =>
    simpa only [State.Awaits, Stack.Awaits, Task.outcome, Schema.expr, Info.expr_of_null hnull,
      Functor.map_map] using hs
  | exprWritten hwritten =>
    apply awaits_back
    simpa only [State.Awaits, Task.outcome, hwritten] using hs
  -- The first schema of a list is awaited by the rest, under the same limit.
  | eachNil => exact hs
  | eachCons =>
    simp only [State.Awaits, outcome_each_cons] at hs
    exact hs
  | componentFault _ => trivial
  -- An open component settles by what its content comes to.
  | componentAlias hcontent => exact ⟨⟨_, hcontent, fun limit _ => rfl⟩, hs⟩
  | componentProperties hcontent => exact ⟨⟨_, hcontent, fun limit _ => rfl⟩, hs⟩
  -- On the way back, the stack awaits the result that it is given, under every limit.
  | giveKey => exact awaits_back (k := .fields) hs
  | giveArray => exact hs
  | giveObject => exact hs
  | giveRest => exact hs
  | giveAfter => exact hs
  | giveComponent =>
    obtain ⟨⟨content, hcontent, hagree⟩, hbelow⟩ := hs
    apply hbelow.mono
    intro limit hsettles
    -- A component that is found settles under no limit but a positive one.
    cases limit with
    | zero =>
      simp only [Context.expandWithin, hcontent] at hsettles
      exact absurd rfl hsettles
    | succ limit =>
      simp only [Context.expandWithin, hcontent, ok_bind] at hsettles ⊢
      exact hagree limit hsettles
  | giveDone => trivial
  | ended => trivial

theorem awaits_run {s : State} (hs : s.Awaits c) (n : Nat) : (run c n s).Awaits c := by
  induction n with
  | zero => exact hs
  | succ n ih =>
    rw [run_succ]
    exact awaits_move (move_step c _) ih

/-! ## An open component awaits under a smaller limit -/

theorem settles_pred {r : Reference} {content : Content} {limit : Nat}
    (hcontent : c.content r = .ok content) (h : Settles (c.expandWithin limit r)) :
    ∃ smaller, smaller < limit ∧ Settles (content.fields (c.expandWithin smaller)) := by
  cases limit with
  | zero =>
    simp only [Context.expandWithin, hcontent] at h
    exact absurd rfl h
  | succ limit =>
    simp only [Context.expandWithin, hcontent, ok_bind] at h
    exact ⟨limit, Nat.lt_succ_self limit, h⟩

/-- Where an open component settles, what it awaits settles under a smaller limit. -/
theorem Stack.Awaits.settles {k : Kind} {stack : Stack k} {x : Nat → Except Fault k.Result}
    (h : stack.Awaits c x) {r : Reference} {name : String}
    (hname : c.settings.componentName r.path = .ok name) (hopen : name ∈ stack.names c)
    {limit : Nat} (hsettles : Settles (c.expandWithin limit r)) :
    ∃ smaller, smaller < limit ∧ Settles (x smaller) := by
  -- Down the stack to the open component: every frame on the way waits for the part above it.
  induction stack generalizing limit with
  | done => cases hopen
  | key info below ih =>
    obtain ⟨smaller, hlt, hx⟩ := ih h hopen hsettles
    exact ⟨smaller, hlt, hx.of_bind⟩
  | array modifiers below ih =>
    obtain ⟨smaller, hlt, hx⟩ := ih h hopen hsettles
    exact ⟨smaller, hlt, hx.of_map⟩
  | object modifiers below ih =>
    obtain ⟨smaller, hlt, hx⟩ := ih h hopen hsettles
    exact ⟨smaller, hlt, hx.of_map⟩
  | rest schemas below ih =>
    obtain ⟨smaller, hlt, hx⟩ := ih h hopen hsettles
    exact ⟨smaller, hlt, hx.of_bind⟩
  | after own below ih =>
    obtain ⟨smaller, hlt, hx⟩ := ih h hopen hsettles
    exact ⟨smaller, hlt, hx.of_map⟩
  | component other below ih =>
    obtain ⟨⟨content, hcontent, hagree⟩, hbelow⟩ := h
    -- It is enough that the innermost open component settles under a limit that is not larger.
    have hother : ∃ most, most ≤ limit ∧ Settles (c.expandWithin most other) := by
      rcases List.mem_append.mp hopen with hhere | hdeeper
      · have hsame : c.settings.componentName other.path = .ok name := by
          cases hn : c.settings.componentName other.path with
          | error fault => simp [hn, Except.toOption] at hhere
          | ok n =>
            simp only [hn, Except.toOption, Option.toList, List.mem_singleton] at hhere
            rw [hhere]
        rw [Context.expandWithin_congr (hname.trans hsame.symm)] at hsettles
        exact ⟨limit, Nat.le_refl _, hsettles⟩
      · obtain ⟨smaller, hlt, hx⟩ := ih hbelow hdeeper hsettles
        exact ⟨smaller, Nat.le_of_lt hlt, hx⟩
    obtain ⟨most, hle, hmost⟩ := hother
    obtain ⟨smaller, hlt, hx⟩ := settles_pred hcontent hmost
    -- There the stack awaits what the content comes to.
    exact ⟨smaller, Nat.lt_of_lt_of_le hlt hle, (hagree smaller hx) ▸ hx⟩

/-- A component that awaits itself settles under no limit. -/
theorem not_settles_of_open {stack : Stack .fields} {r : Reference} {name : String}
    (h : stack.Awaits c (k := .fields) fun limit => c.expandWithin limit r)
    (hname : c.settings.componentName r.path = .ok name) (hopen : name ∈ stack.names c)
    (limit : Nat) : ¬ Settles (c.expandWithin limit r) := by
  -- By descent: the least limit under which it settles would not be the least.
  induction limit using Nat.strongRecOn with
  | ind limit ih =>
    intro hsettles
    obtain ⟨smaller, hlt, hx⟩ := h.settles hname hopen hsettles
    exact ih smaller hlt hx

/-! ## Walks that come back -/

/-- A walk whose task settles under no limit opens more and more components. -/
theorem neverEnds_of_not_settles {k : Kind} {task : Task k} {stack : Stack k} {s : State}
    (hreach : Reaches c s (.call task stack)) (h : ∀ limit, ¬ Settles (task.outcome c limit)) :
    NeverEnds c s := by
  intro n result hended
  obtain ⟨m, hm⟩ := hreach
  -- Under this limit, the walk would open more components than it has made steps.
  obtain ⟨r, content, inner, -, hdepth, l, hl⟩ :=
    (tracks_outcome c ((s.names c).length + n) task stack).endless (h _)
  have hrun : run c (l + m) s = .call (.component r) inner := by rw [run_add, hm, hl]
  -- A walk that has ended comes to nothing any more.
  have hlt : l + m < n := by
    by_contra hge
    rw [run_eq_ended_of_le hended (Nat.le_of_not_lt hge)] at hrun
    cases hrun
  have hinner : ((State.call (.component r) inner).names c).length = _ := hdepth
  have hnames := length_names_run_le c (l + m) s
  rw [hrun, hinner] at hnames
  omega

/-- A walk that comes back to an open component never ends. -/
theorem Reenters.neverEnds {s : State} (hs : s.Awaits c) (h : Reenters c s) : NeverEnds c s := by
  obtain ⟨t, ⟨n, rfl⟩, hreentry⟩ := h
  have hawaits := awaits_run hs n
  generalize ht : run c n s = t at hawaits hreentry
  -- Only a call of a component is a reentry.
  cases t with
  | give result stack => cases hreentry
  | ended result => cases hreentry
  | call task stack =>
    cases task with
    | fields schema => cases hreentry
    | expr schema => cases hreentry
    | each schemas => cases hreentry
    | component r =>
      obtain ⟨name, hname, hopen⟩ := hreentry
      exact neverEnds_of_not_settles ⟨n, ht⟩ (not_settles_of_open hawaits hname hopen)

end Walk

end RouteRules

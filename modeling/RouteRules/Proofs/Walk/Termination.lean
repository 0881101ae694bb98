import RouteRules.Proofs.Table
import RouteRules.Proofs.Walk.Reentry

/-!
# Walks that end

As long as a walk comes back to no open component, the open components are different entries of the
catalogue, so there are at most as many as the catalogue has entries. A limit of that size is
therefore as good as none.

## Main statements

- `Walk.reenters_of_not_settles`: a limit of the size of the catalogue is met by a reentry only.
- `Walk.outcome_eq_of_endsWith`: a walk that ends has the outcome of the limited compilation.
- `Context.expand_eq`: a reference stands for the fields of its component, without any limit.
-/

namespace RouteRules

namespace Walk

variable {c : Context}

/-! ## Different open components -/

/-- The open components are different, and the catalogue has all of them. -/
def State.Distinct (c : Context) (s : State) : Prop :=
  (s.names c).Nodup ∧ ∀ name ∈ s.names c, ∃ v, c.catalogue.find? (.text name) = some v

theorem distinct_back {k : Kind} {stack : Stack k} {outcome : Except Fault k.Result} {s : State}
    (hs : s.Distinct c) (hnames : s.names c = stack.names c) :
    (State.back outcome stack).Distinct c := by
  cases outcome with
  | ok result =>
    rw [State.Distinct, hnames] at hs
    exact hs
  | error fault => exact ⟨List.nodup_nil, fun name hname => by cases hname⟩

theorem distinct_component {r : Reference} {content : Content} {stack : Stack .fields}
    (hcontent : c.content r = .ok content) (hs : (State.call (.component r) stack).Distinct c)
    (hnew : ¬ (State.call (.component r) stack).IsReentry c) (task : Task .fields) :
    (State.call task (.component r stack)).Distinct c := by
  obtain ⟨hnodup, hfound⟩ := hs
  -- What is opened has a name, which the catalogue has and which is not open yet.
  obtain ⟨name, hname, v, hv⟩ := Context.name_of_content hcontent
  have hopen : name ∉ stack.names c := fun h => hnew ⟨name, hname, h⟩
  have hnames : (State.call task (.component r stack)).names c = name :: stack.names c := by
    simp only [State.names, Stack.names, hname]
    rfl
  rw [State.Distinct, hnames]
  refine ⟨List.nodup_cons.mpr ⟨hopen, hnodup⟩, fun other hother => ?_⟩
  rcases List.mem_cons.mp hother with rfl | hother
  · exact ⟨v, hv⟩
  · exact hfound other hother

/-- A move that is no reentry leaves the open components different. -/
theorem distinct_move {s t : State} (h : Move c s t) (hs : s.Distinct c) (hnew : ¬ s.IsReentry c) :
    t.Distinct c := by
  cases h with
  | exprWritten _ => exact distinct_back hs rfl
  | giveKey => exact distinct_back hs rfl
  | componentFault _ => exact ⟨List.nodup_nil, fun name hname => by cases hname⟩
  | componentAlias hcontent => exact distinct_component hcontent hs hnew _
  | componentProperties hcontent => exact distinct_component hcontent hs hnew _
  | giveComponent =>
    obtain ⟨hnodup, hfound⟩ := hs
    exact ⟨hnodup.of_append_right, fun name hname => hfound name (List.mem_append_right _ hname)⟩
  | giveDone => exact ⟨List.nodup_nil, fun name hname => by cases hname⟩
  -- No other move opens or closes a component.
  | _ => exact hs

theorem distinct_run {s : State} (hs : s.Distinct c) (hno : ¬ Reenters c s) (n : Nat) :
    (run c n s).Distinct c := by
  induction n with
  | zero => exact hs
  | succ n ih =>
    rw [run_succ]
    exact distinct_move (move_step c _) ih fun hreentry => hno ⟨_, ⟨n, rfl⟩, hreentry⟩

/-! ## A limit of the size of the catalogue -/

/-- A limit of the size of the catalogue is met only by a walk that comes back to an open
component. -/
theorem reenters_of_not_settles {task : Task .fields} {limit : Nat}
    (hlimit : c.catalogue.size ≤ limit) (h : ¬ Settles (task.outcome c limit)) :
    Reenters c (.call task .done) := by
  by_contra hno
  obtain ⟨r, content, inner, hcontent, hdepth, n, hn⟩ :=
    (tracks_outcome c limit task .done).endless h
  have hdistinct : (State.call task .done).Distinct c :=
    ⟨List.nodup_nil, fun name hname => by cases hname⟩
  obtain ⟨hnodup, hfound⟩ := distinct_run hdistinct hno n
  rw [hn] at hnodup hfound
  -- The component that comes next would be one more than the catalogue has.
  obtain ⟨name, hname, v, hv⟩ := Context.name_of_content hcontent
  have hopen : name ∉ inner.names c := fun hmem => hno ⟨_, ⟨n, hn⟩, name, hname, hmem⟩
  have hle := Table.length_le_size (List.nodup_cons.mpr ⟨hopen, hnodup⟩) fun other hother => by
    rcases List.mem_cons.mp hother with rfl | hother
    · exact ⟨v, hv⟩
    · exact hfound other hother
  simp only [List.length_cons, Stack.names, List.length_nil] at hle hdepth
  omega

/-- A task that settles under some limit ends with that outcome. -/
theorem endsWith_outcome (task : Task .fields) {limit : Nat} (h : Settles (task.outcome c limit)) :
    EndsWith c (.call task .done) (task.outcome c limit) := by
  apply ((tracks_outcome c limit task .done).settled h).trans
  cases task.outcome c limit with
  | ok fields => exact ⟨1, rfl⟩
  | error fault => exact .refl c _

theorem awaits_call_done (task : Task .fields) : (State.call task .done).Awaits c := trivial

/-- A walk never ends exactly if it comes back to an open component. -/
theorem neverEnds_iff_reenters (task : Task .fields) :
    NeverEnds c (.call task .done) ↔ Reenters c (.call task .done) := by
  constructor
  · intro h
    -- A task that settled would end.
    apply reenters_of_not_settles (Nat.le_refl _)
    intro hsettles
    obtain ⟨n, hn⟩ := endsWith_outcome task hsettles
    exact h n _ hn
  · exact Reenters.neverEnds (awaits_call_done task)

/-- A walk that ends has the outcome of the compilation under every limit that is not smaller than
the catalogue. -/
theorem outcome_eq_of_endsWith (task : Task .fields) {limit : Nat}
    {result : Except Fault (List Field)} (hlimit : c.catalogue.size ≤ limit)
    (h : EndsWith c (.call task .done) result) : task.outcome c limit = result := by
  by_cases hsettles : Settles (task.outcome c limit)
  · obtain ⟨m, hm⟩ := endsWith_outcome task hsettles
    obtain ⟨n, hn⟩ := h
    exact ended_unique hm hn
  -- The limit was met, so the walk came back to an open component, and never ends.
  · obtain ⟨n, hn⟩ := h
    have hnever := (neverEnds_iff_reenters task).mpr (reenters_of_not_settles hlimit hsettles)
    exact absurd hn (hnever n result)

/-- Under a limit of the size of the catalogue, the fault of an endless walk means what it says. -/
theorem neverEnds_iff_not_settles (task : Task .fields) {limit : Nat}
    (hlimit : c.catalogue.size ≤ limit) :
    NeverEnds c (.call task .done) ↔ ¬ Settles (task.outcome c limit) := by
  constructor
  · intro h hsettles
    obtain ⟨n, hn⟩ := endsWith_outcome task hsettles
    exact h n _ hn
  · intro h
    exact (neverEnds_iff_reenters task).mpr (reenters_of_not_settles hlimit h)

end Walk

/-! ## Expansion without a limit -/

namespace Context

open Walk

variable (c : Context)

/-- An outcome that settles under some limit is the outcome. -/
theorem expand_eq_of_settles {limit : Nat} {r : Reference} (h : Settles (c.expandWithin limit r)) :
    c.expand r = c.expandWithin limit r :=
  outcome_eq_of_endsWith (.component r) (Nat.le_refl _) (endsWith_outcome (.component r) h)

theorem expandWithin_eq_expand {limit : Nat} (hlimit : c.catalogue.size ≤ limit) (r : Reference) :
    c.expandWithin limit r = c.expand r := by
  by_cases hsettles : Settles (c.expandWithin limit r)
  · exact (c.expand_eq_of_settles hsettles).symm
  -- Both limits are met by the same endless walk, so both give its fault.
  · have hnever := (neverEnds_iff_not_settles (.component r) hlimit).mpr hsettles
    have hexpand := (neverEnds_iff_not_settles (.component r) (Nat.le_refl _)).mp hnever
    exact (not_settles_iff.mp hsettles).trans (not_settles_iff.mp hexpand).symm

/-- A reference stands for the fields of its component. -/
theorem expand_eq (r : Reference) :
    c.expand r = c.content r >>= fun content => content.fields c.expand := by
  have h : c.expandWithin c.catalogue.size = c.expand := rfl
  rw [← c.expandWithin_eq_expand (Nat.le_succ _) r, expandWithin, h]

end Context

end RouteRules

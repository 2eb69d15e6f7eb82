import Mathlib

/-!
# Work in a row

Readers, the machine and the resolver of components carry a state along and may
fail.  What two of them do one after the other is what the second does with the
outcome of the first, unless the first fails.
-/

namespace OutlineFont

variable {Failure State α β : Type}

theorem bind_of_ok {work : EStateM Failure State α} {next : α → EStateM Failure State β}
    {state between : State} {value : α} (outcome : work state = .ok value between) :
    (work >>= next) state = next value between := by
  change EStateM.bind work next state = _
  unfold EStateM.bind
  rw [outcome]

theorem bind_of_error {work : EStateM Failure State α} {next : α → EStateM Failure State β}
    {state between : State} {failure : Failure} (outcome : work state = .error failure between) :
    (work >>= next) state = .error failure between := by
  change EStateM.bind work next state = _
  unfold EStateM.bind
  rw [outcome]

theorem bind_eq_ok_iff {work : EStateM Failure State α} {next : α → EStateM Failure State β}
    {state after : State} {result : β} :
    (work >>= next) state = .ok result after ↔
      ∃ value between, work state = .ok value between ∧
        next value between = .ok result after := by
  cases outcome : work state with
  | ok value between =>
      rw [bind_of_ok outcome]
      constructor
      · exact fun finish => ⟨value, between, rfl, finish⟩
      · rintro ⟨_, _, same, finish⟩
        cases same
        exact finish
  | error failure between =>
      rw [bind_of_error outcome]
      constructor
      · intro impossible
        cases impossible
      · rintro ⟨_, _, impossible, _⟩
        cases impossible

theorem bind_eq_error_iff {work : EStateM Failure State α} {next : α → EStateM Failure State β}
    {state after : State} {failure : Failure} :
    (work >>= next) state = .error failure after ↔
      work state = .error failure after ∨
        ∃ value between, work state = .ok value between ∧
          next value between = .error failure after := by
  cases outcome : work state with
  | ok value between =>
      rw [bind_of_ok outcome]
      constructor
      · exact fun finish => .inr ⟨value, between, rfl, finish⟩
      · rintro (impossible | ⟨_, _, same, finish⟩)
        · cases impossible
        · cases same
          exact finish
  | error first between =>
      rw [bind_of_error outcome]
      constructor
      · intro same
        cases same
        exact .inl rfl
      · rintro (same | ⟨_, _, impossible, _⟩)
        · cases same
          rfl
        · cases impossible

/-- Work whose result is put into another form fails only as the work does. -/
theorem error_of_bind_pure {work : EStateM Failure State α} {change : α → β}
    {state after : State} {failure : Failure}
    (failed : (work >>= fun value => pure (change value)) state = .error failure after) :
    work state = .error failure after := by
  rcases bind_eq_error_iff.mp failed with failed | ⟨_, _, _, impossible⟩
  · exact failed
  · cases impossible

theorem pure_eq_ok_iff {state after : State} {value result : α} :
    (pure value : EStateM Failure State α) state = .ok result after ↔
      result = value ∧ after = state := by
  constructor
  · intro same
    cases same
    exact ⟨rfl, rfl⟩
  · rintro ⟨rfl, rfl⟩
    rfl

theorem get_eq_ok_iff {state after result : State} :
    (get : EStateM Failure State State) state = .ok result after ↔
      result = state ∧ after = state := by
  constructor
  · intro same
    cases same
    exact ⟨rfl, rfl⟩
  · rintro ⟨rfl, rfl⟩
    rfl

theorem map_eq_ok_iff {work : EStateM Failure State α} {change : α → β} {state after : State}
    {result : β} :
    (change <$> work) state = .ok result after ↔
      ∃ value, work state = .ok value after ∧ change value = result := by
  rw [map_eq_pure_bind, bind_eq_ok_iff]
  constructor
  · rintro ⟨value, between, outcome, finish⟩
    cases finish
    exact ⟨value, outcome, rfl⟩
  · rintro ⟨value, outcome, rfl⟩
    exact ⟨value, after, outcome, rfl⟩

theorem map_of_error {work : EStateM Failure State α} (change : α → β) {state after : State}
    {failure : Failure} (outcome : work state = .error failure after) :
    (change <$> work) state = .error failure after := by
  rw [map_eq_pure_bind, bind_of_error outcome]

/-- Work behind a check succeeds when it succeeds and the check finds nothing. -/
theorem guard_eq_ok_iff {fault : Prop} [Decidable fault] {failure : Failure}
    {never : α → EStateM Failure State β} {work : EStateM Failure State β} {state after : State}
    {result : β} :
    (if fault then throw failure >>= never else work) state = .ok result after ↔
      ¬fault ∧ work state = .ok result after := by
  by_cases found : fault
  · rw [if_pos found]
    exact iff_of_false nofun (fun both => both.1 found)
  · rw [if_neg found]
    exact (and_iff_right found).symm

/-- Work with a state, all of whose failures are of a kind. -/
def FailsWith (kind : Failure → Prop) (work : EStateM Failure State α) : Prop :=
  ∀ state failure after, work state = .error failure after → kind failure

namespace FailsWith

variable {kind : Failure → Prop}

theorem pure (value : α) : FailsWith kind (pure value : EStateM Failure State α) :=
  fun _ _ _ impossible => nomatch impossible

theorem get : FailsWith kind (get : EStateM Failure State State) :=
  fun _ _ _ impossible => nomatch impossible

theorem modify (change : State → State) :
    FailsWith kind (modify change : EStateM Failure State PUnit) :=
  fun _ _ _ impossible => nomatch impossible

theorem bind {work : EStateM Failure State α} {next : α → EStateM Failure State β}
    (first : FailsWith kind work) (second : ∀ value, FailsWith kind (next value)) :
    FailsWith kind (work >>= next) := by
  intro state failure after failed
  rcases bind_eq_error_iff.mp failed with early | ⟨value, between, _, late⟩
  · exact first state failure after early
  · exact second value between failure after late

theorem guard {fault : Prop} [Decidable fault] {failure : Failure}
    {never : α → EStateM Failure State β} {work : EStateM Failure State β}
    (expected : kind failure) (fails : FailsWith kind work) :
    FailsWith kind (if fault then MonadExcept.throw failure >>= never else work) := by
  by_cases found : fault
  · rw [if_pos found]
    intro _ _ _ thrown
    cases thrown
    exact expected
  · rw [if_neg found]
    exact fails

theorem map {work : EStateM Failure State α} (fails : FailsWith kind work) (change : α → β) :
    FailsWith kind (change <$> work) := by
  rw [map_eq_pure_bind]
  exact fails.bind fun value => pure (change value)

theorem mapM {each : α → EStateM Failure State β} (fails : ∀ element, FailsWith kind (each element))
    (elements : List α) : FailsWith kind (elements.mapM each) := by
  induction elements with
  | nil => exact pure []
  | cons element rest ih =>
      rw [List.mapM_cons]
      exact (fails element).bind fun first => ih.bind fun others => pure (first :: others)

end FailsWith

theorem exceptBind_eq_ok_iff {work : Except Failure α} {next : α → Except Failure β}
    {result : β} :
    (work >>= next) = .ok result ↔ ∃ value, work = .ok value ∧ next value = .ok result := by
  cases work with
  | ok value =>
      constructor
      · exact fun finish => ⟨value, rfl, finish⟩
      · rintro ⟨_, same, finish⟩
        cases same
        exact finish
  | error failure => exact ⟨nofun, nofun⟩

theorem exceptBind_eq_error_iff {work : Except Failure α} {next : α → Except Failure β}
    {failure : Failure} :
    (work >>= next) = .error failure ↔
      work = .error failure ∨ ∃ value, work = .ok value ∧ next value = .error failure := by
  cases work with
  | ok value =>
      constructor
      · exact fun finish => .inr ⟨value, rfl, finish⟩
      · rintro (impossible | ⟨_, same, finish⟩)
        · cases impossible
        · cases same
          exact finish
  | error first =>
      constructor
      · exact fun same => .inl (by cases same; rfl)
      · rintro (same | ⟨_, impossible, _⟩)
        · cases same
          rfl
        · cases impossible

theorem exceptMap_eq_ok_iff {work : Except Failure α} {change : α → β} {result : β} :
    work.map change = .ok result ↔ ∃ value, work = .ok value ∧ change value = result := by
  cases work with
  | ok value => simp [Except.map]
  | error failure => exact ⟨nofun, nofun⟩

theorem exceptMap_eq_error_iff {work : Except Failure α} {change : α → β} {failure : Failure} :
    work.map change = .error failure ↔ work = .error failure := by
  cases work with
  | ok value => exact ⟨nofun, nofun⟩
  | error first =>
      rw [Except.map, Except.error.injEq, Except.error.injEq]

/-- Work that looks alike, followed by work that looks alike after it, looks alike. -/
theorem exceptMap_bind_congr {View Sight : Type} {work other : Except Failure α}
    {next again : α → Except Failure β} {view : α → View} {sight : β → Sight}
    (same : work.map view = other.map view)
    (further : ∀ value result, view value = view result →
      (next value).map sight = (again result).map sight) :
    (work >>= next).map sight = (other >>= again).map sight := by
  cases work with
  | ok value =>
      cases other with
      | ok result => exact further value result (Except.ok.inj same)
      | error => cases same
  | error failure =>
      cases other with
      | ok => cases same
      | error =>
          cases same
          rfl

theorem exceptMapM_of_forall_mem {work : α → Except Failure β} {result : α → β}
    {elements : List α} (each : ∀ element ∈ elements, work element = .ok (result element)) :
    elements.mapM work = .ok (elements.map result) := by
  induction elements with
  | nil => rfl
  | cons element rest ih =>
      obtain ⟨first, others⟩ := List.forall_mem_cons.mp each
      rw [List.mapM_cons, first, ih others]
      rfl

theorem exists_of_exceptMapM_eq_error {work : α → Except Failure β} {elements : List α}
    {failure : Failure} (failed : elements.mapM work = .error failure) :
    ∃ element ∈ elements, work element = .error failure := by
  induction elements with
  | nil => cases failed
  | cons element rest ih =>
      rw [List.mapM_cons] at failed
      rcases exceptBind_eq_error_iff.mp failed with first | ⟨_, _, failed⟩
      · exact ⟨element, List.mem_cons_self, first⟩
      · rcases exceptBind_eq_error_iff.mp failed with others | ⟨_, _, impossible⟩
        · obtain ⟨other, among, failed⟩ := ih others
          exact ⟨other, List.mem_cons_of_mem _ among, failed⟩
        · cases impossible

end OutlineFont

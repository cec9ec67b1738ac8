import FcTpms.Program.Rules

/-!
# Runs that return

Two judgements about the value, the final state and the observations of a run that returns, in
the form of conditions on its start. `Attains` says that the run returns and the goal holds;
`Ensures` says that the goal holds if the run returns. Programs are deterministic, so the first
implies the second. Both are computed backwards through a program by their `bind` rules, which
are equivalences.
-/

namespace FcTpms.Program

namespace Prog

variable {σ ε α β : Type}

/-- The run from `start` returns, and the goal holds of what it returned and observed. -/
def Attains (program : Prog σ ε α) (start : σ) (goal : α → σ → List ε → Prop) : Prop :=
  ∃ value stop trace, program.Evaluates start value stop trace ∧ goal value stop trace

/-- The goal holds of what the run from `start` returned and observed, if it returned. -/
def Ensures (program : Prog σ ε α) (start : σ) (goal : α → σ → List ε → Prop) : Prop :=
  ∀ value stop trace, program.Evaluates start value stop trace → goal value stop trace

variable {program : Prog σ ε α} {start : σ} {goal goal' : α → σ → List ε → Prop}

/-- A program that attains a goal ensures it: it has no other run. -/
theorem Attains.ensures (attains : program.Attains start goal) : program.Ensures start goal := by
  intro value stop trace evaluates
  obtain ⟨value', stop', trace', evaluates', holds⟩ := attains
  obtain ⟨rfl, rfl, rfl⟩ := evaluates'.unique evaluates
  exact holds

/-- A goal may be weakened. -/
theorem Attains.mono (attains : program.Attains start goal)
    (weaker : ∀ value stop trace, goal value stop trace → goal' value stop trace) :
    program.Attains start goal' := by
  obtain ⟨value, stop, trace, evaluates, holds⟩ := attains
  exact ⟨value, stop, trace, evaluates, weaker value stop trace holds⟩

/-- A goal may be weakened. -/
theorem Ensures.mono (ensures : program.Ensures start goal)
    (weaker : ∀ value stop trace, goal value stop trace → goal' value stop trace) :
    program.Ensures start goal' :=
  fun value stop trace evaluates => weaker value stop trace (ensures value stop trace evaluates)

/-- Two goals that are ensured are ensured together. -/
theorem Ensures.and (ensures : program.Ensures start goal)
    (ensures' : program.Ensures start goal') :
    program.Ensures start fun value stop trace =>
      goal value stop trace ∧ goal' value stop trace :=
  fun value stop trace evaluates =>
    ⟨ensures value stop trace evaluates, ensures' value stop trace evaluates⟩

/-- A run that attains one goal attains every goal it ensures. -/
theorem Attains.and_ensures (attains : program.Attains start goal)
    (ensures : program.Ensures start goal') :
    program.Attains start fun value stop trace =>
      goal value stop trace ∧ goal' value stop trace := by
  obtain ⟨value, stop, trace, evaluates, holds⟩ := attains
  exact ⟨value, stop, trace, evaluates, holds, ensures value stop trace evaluates⟩

theorem Evaluates.attains {value : α} {stop : σ} {trace : List ε}
    (evaluates : program.Evaluates start value stop trace) (holds : goal value stop trace) :
    program.Attains start goal := ⟨value, stop, trace, evaluates, holds⟩

/-! ## Computing backwards -/

@[simp] theorem attains_pure (value : α) :
    (pure value : Prog σ ε α).Attains start goal ↔ goal value start [] := by
  constructor
  · rintro ⟨_, _, _, evaluates, holds⟩
    obtain ⟨rfl, rfl, rfl⟩ := (Evaluates.pure start value).unique evaluates
    exact holds
  · exact fun holds => (Evaluates.pure start value).attains holds

@[simp] theorem attains_get {goal : σ → σ → List ε → Prop} :
    (get : Prog σ ε σ).Attains start goal ↔ goal start start [] := by
  constructor
  · rintro ⟨_, _, _, evaluates, holds⟩
    obtain ⟨rfl, rfl, rfl⟩ := (Evaluates.get start).unique evaluates
    exact holds
  · exact fun holds => (Evaluates.get start).attains holds

@[simp] theorem attains_update {goal : Unit → σ → List ε → Prop} (note : σ → ε)
    (change : σ → σ) :
    (update note change).Attains start goal ↔ goal () (change start) [note (change start)] := by
  constructor
  · rintro ⟨_, _, _, evaluates, holds⟩
    obtain ⟨rfl, rfl, rfl⟩ := (Evaluates.update note change start).unique evaluates
    exact holds
  · exact fun holds => (Evaluates.update note change start).attains holds

@[simp] theorem attains_emit {goal : Unit → σ → List ε → Prop} (observation : ε) :
    (emit observation).Attains start goal ↔ goal () start [observation] := by
  constructor
  · rintro ⟨_, _, _, evaluates, holds⟩
    obtain ⟨rfl, rfl, rfl⟩ := (Evaluates.emit observation start).unique evaluates
    exact holds
  · exact fun holds => (Evaluates.emit observation start).attains holds

/-- A composition attains a goal when its first part attains that its second part does. -/
@[simp] theorem attains_bind {first : Prog σ ε α} {second : α → Prog σ ε β}
    {goal : β → σ → List ε → Prop} :
    (first >>= second).Attains start goal ↔ first.Attains start fun value middle early =>
      (second value).Attains middle fun result stop late => goal result stop (early ++ late) := by
  constructor
  · rintro ⟨result, stop, trace, whole, holds⟩
    obtain ⟨value, middle, early, late, former, latter, rfl⟩ := whole.of_bind
    exact former.attains (latter.attains holds)
  · rintro ⟨value, middle, early, former, result, stop, late, latter, holds⟩
    exact (former.bind latter).attains holds

/-- A loop attains a goal when its first round attains that the rest does. -/
theorem Attains.loop {body : β → Prog σ ε (β ⊕ α)} {counter : β}
    (round : (body counter).Attains start fun answer middle early =>
      match answer with
      | .inl next => (loop body next).Attains middle fun result stop late =>
          goal result stop (early ++ late)
      | .inr result => goal result middle early) :
    (loop body counter).Attains start goal := by
  obtain ⟨answer, middle, early, evaluates, holds⟩ := round
  cases answer with
  | inr result => exact (Evaluates.loop_done evaluates).attains holds
  | inl next =>
    obtain ⟨result, stop, late, rest, holds⟩ := holds
    exact (Evaluates.loop_next evaluates rest).attains holds

/-- A composition observes what its second part observes after the first. -/
theorem Attains.observes_bind {first : Prog σ ε α} {second : α → Prog σ ε β} {observation : ε}
    (attains : first.Attains start fun value middle _ =>
      (second value).Observes middle observation) :
    (first >>= second).Observes start observation := by
  obtain ⟨value, middle, early, former, seen⟩ := attains
  exact Observes.bind_right former seen

/-- What comes after reading the state is observed from there. -/
theorem Observes.get_bind {second : σ → Prog σ ε β} {observation : ε}
    (seen : (second start).Observes start observation) :
    ((get : Prog σ ε σ) >>= second).Observes start observation :=
  Observes.bind_right (Evaluates.get start) seen

@[simp] theorem ensures_pure (value : α) :
    (pure value : Prog σ ε α).Ensures start goal ↔ goal value start [] :=
  ⟨fun ensures => ensures _ _ _ (Evaluates.pure start value), fun holds =>
    ((attains_pure value).mpr holds).ensures⟩

@[simp] theorem ensures_get {goal : σ → σ → List ε → Prop} :
    (get : Prog σ ε σ).Ensures start goal ↔ goal start start [] :=
  ⟨fun ensures => ensures _ _ _ (Evaluates.get start), fun holds =>
    (attains_get.mpr holds).ensures⟩

@[simp] theorem ensures_update {goal : Unit → σ → List ε → Prop} (note : σ → ε)
    (change : σ → σ) :
    (update note change).Ensures start goal ↔ goal () (change start) [note (change start)] :=
  ⟨fun ensures => ensures _ _ _ (Evaluates.update note change start), fun holds =>
    ((attains_update note change).mpr holds).ensures⟩

@[simp] theorem ensures_emit {goal : Unit → σ → List ε → Prop} (observation : ε) :
    (emit observation).Ensures start goal ↔ goal () start [observation] :=
  ⟨fun ensures => ensures _ _ _ (Evaluates.emit observation start), fun holds =>
    ((attains_emit observation).mpr holds).ensures⟩

@[simp] theorem ensures_crash : (crash : Prog σ ε α).Ensures start goal := by
  rintro value stop trace ⟨fuel, ran⟩
  simp at ran

/-- A composition ensures a goal when its first part ensures that its second part does. -/
@[simp] theorem ensures_bind {first : Prog σ ε α} {second : α → Prog σ ε β}
    {goal : β → σ → List ε → Prop} :
    (first >>= second).Ensures start goal ↔ first.Ensures start fun value middle early =>
      (second value).Ensures middle fun result stop late => goal result stop (early ++ late) := by
  constructor
  · intro ensures value middle early former result stop late latter
    exact ensures result stop _ (former.bind latter)
  · intro ensures result stop trace whole
    obtain ⟨value, middle, early, late, former, latter, rfl⟩ := whole.of_bind
    exact ensures value middle early former result stop late latter

/-- A loop ensures what its rounds carry from one to the next. The invariant sees what was
observed in the rounds before. -/
theorem Ensures.loop (invariant : β → σ → List ε → Prop) {body : β → Prog σ ε (β ⊕ α)}
    (round : ∀ counter state before, invariant counter state before →
      (body counter).Ensures state fun answer later trace =>
        match answer with
        | .inl next => invariant next later (before ++ trace)
        | .inr result => goal result later (before ++ trace))
    {counter : β} (initial : invariant counter start []) :
    (loop body counter).Ensures start goal := by
  intro result stop trace evaluates
  suffices carried : ∀ before, invariant counter start before →
      goal result stop (before ++ trace) from carried [] initial
  refine Evaluates.loop_induct (motive := fun counter start result stop trace =>
    ∀ before, invariant counter start before → goal result stop (before ++ trace)) ?_ ?_ evaluates
  · intro counter start result stop trace last before holds
    exact round counter start before holds _ _ _ last
  · intro counter following start middle result stop early late first _ ih before holds
    have carried := ih _ (round counter start before holds _ _ _ first)
    rwa [List.append_assoc] at carried

/-! ## Between the judgements -/

/-- What a triple without assumptions says of runs that return. -/
theorem Triple.ensures {guarantee : ε → Prop} {pre : σ → Prop} {post : α → σ → Prop}
    (triple : Triple (fun _ => True) guarantee pre program post) (holds : pre start) :
    program.Ensures start fun value stop trace =>
      (∀ observation ∈ trace, guarantee observation) ∧ post value stop :=
  fun _ _ _ evaluates => triple.of_evaluates holds evaluates

/-- A run that returns gives a triple about its start state: a run with less fuel observes the
beginning of what it observes. -/
theorem Attains.triple {assume guarantee : ε → Prop} {post : α → σ → Prop}
    (attains : program.Attains start fun value stop trace =>
      (∀ observation ∈ trace, guarantee observation) ∧ post value stop) :
    Triple assume guarantee (fun state => state = start) program post := by
  obtain ⟨value, stop, trace, ⟨enough, ran⟩, safe, holds⟩ := attains
  intro fuel state same _
  rw [same]
  have whole := run_later ran (Nat.le_max_left enough fuel)
  have extended := program.extend (Nat.le_max_right enough fuel) start
  rw [whole] at extended
  refine ⟨fun observation member => safe _ (extended.before.subset member), ?_⟩
  intro value' returned
  have finished := extended.stable (by simp [returned])
  rw [← finished] at returned ⊢
  cases returned
  exact holds

/-- A run that returns halts. -/
theorem Attains.halts (attains : program.Attains start goal) : program.Halts start := by
  obtain ⟨_, _, _, evaluates, _⟩ := attains
  exact evaluates.halts

end Prog

end FcTpms.Program

import FcTpms.Program.Run

/-!
# Rules for programs

Four judgements about a program and their rules for each way of building one. `Evaluates` says
that a run returns, with its final state and its observations. `Observes` says that a run makes
an observation, whether or not it ever returns. `Halts` says that a run stops by itself.
`Triple` is the partial judgement: as long as every observation made satisfies what is assumed
of the environment, every observation satisfies the guarantee and a returned value the
postcondition. No rule mentions fuel.
-/

namespace FcTpms.Program

namespace Prog

variable {σ ε α β γ : Type}

/-- The run from `start` returns `value` in the state `stop` after the observations `trace`. -/
def Evaluates (program : Prog σ ε α) (start : σ) (value : α) (stop : σ) (trace : List ε) : Prop :=
  ∃ fuel, program.run fuel start = ⟨trace, stop, .returned value⟩

/-- Some run from `start` makes the observation. -/
def Observes (program : Prog σ ε α) (start : σ) (observation : ε) : Prop :=
  ∃ fuel, observation ∈ (program.run fuel start).trace

/-- The run from `start` stops by itself: it returns or the process dies. -/
def Halts (program : Prog σ ε α) (start : σ) : Prop :=
  ∃ fuel, (program.run fuel start).outcome ≠ .exhausted

/-- From every state satisfying `pre`: while all observations satisfy `assume`, they satisfy
`guarantee`, and a returned value satisfies `post` in the final state. -/
def Triple (assume guarantee : ε → Prop) (pre : σ → Prop) (program : Prog σ ε α)
    (post : α → σ → Prop) : Prop :=
  ∀ fuel start, pre start → (∀ observation ∈ (program.run fuel start).trace, assume observation) →
    (∀ observation ∈ (program.run fuel start).trace, guarantee observation) ∧
      ∀ value, (program.run fuel start).outcome = .returned value →
        post value (program.run fuel start).state

/-! ## Runs that return -/

/-- A run that stopped is the run with any larger amount of fuel. -/
theorem run_more {program : Prog σ ε α} {start : σ} {fuel more : ℕ} (enough : fuel ≤ more)
    (finished : (program.run fuel start).outcome ≠ .exhausted) :
    program.run more start = program.run fuel start :=
  (program.extend enough start).stable finished

/-- A run that returned is the run with any larger amount of fuel. -/
theorem run_later {program : Prog σ ε α} {start stop : σ} {value : α} {trace : List ε} {fuel : ℕ}
    (ran : program.run fuel start = ⟨trace, stop, .returned value⟩) {more : ℕ}
    (enough : fuel ≤ more) : program.run more start = ⟨trace, stop, .returned value⟩ := by
  rw [run_more enough (by simp [ran]), ran]

/-- A run with the outcome `returned` evaluates to what it returned. -/
theorem Evaluates.of_run {program : Prog σ ε α} {start : σ} {fuel : ℕ} {value : α}
    (returned : (program.run fuel start).outcome = .returned value) :
    program.Evaluates start value (program.run fuel start).state (program.run fuel start).trace :=
  ⟨fuel, by rw [← returned]⟩

/-- A program returns at most one value, in one state, after one list of observations. -/
theorem Evaluates.unique {program : Prog σ ε α} {start stop stop' : σ} {value value' : α}
    {trace trace' : List ε} (first : program.Evaluates start value stop trace)
    (second : program.Evaluates start value' stop' trace') :
    value' = value ∧ stop' = stop ∧ trace' = trace := by
  obtain ⟨fuel, ran⟩ := first
  obtain ⟨more, ran'⟩ := second
  have same : program.run fuel start = program.run more start := by
    rcases Nat.le_total fuel more with enough | enough
    · exact (run_more enough (by simp [ran])).symm
    · exact run_more enough (by simp [ran'])
  rw [ran, ran'] at same
  simp only [Run.mk.injEq, Outcome.returned.injEq] at same
  exact ⟨same.2.2.symm, same.2.1.symm, same.1.symm⟩

theorem Evaluates.pure (state : σ) (value : α) :
    (pure value : Prog σ ε α).Evaluates state value state [] := ⟨0, rfl⟩

theorem Evaluates.get (state : σ) : (get : Prog σ ε σ).Evaluates state state state [] := ⟨0, rfl⟩

theorem Evaluates.update (note : σ → ε) (change : σ → σ) (state : σ) :
    (update note change).Evaluates state () (change state) [note (change state)] := ⟨0, rfl⟩

theorem Evaluates.emit (observation : ε) (state : σ) :
    (emit observation : Prog σ ε Unit).Evaluates state () state [observation] := ⟨0, rfl⟩

/-- A composition returns when both parts do. -/
theorem Evaluates.bind {first : Prog σ ε α} {second : α → Prog σ ε β} {start middle stop : σ}
    {value : α} {result : β} {early late : List ε}
    (former : first.Evaluates start value middle early)
    (latter : (second value).Evaluates middle result stop late) :
    (first >>= second).Evaluates start result stop (early ++ late) := by
  obtain ⟨fuel, ran⟩ := former
  obtain ⟨more, ran'⟩ := latter
  refine ⟨max fuel more, ?_⟩
  have longer := run_later ran (Nat.le_max_left fuel more)
  have longer' := run_later ran' (Nat.le_max_right fuel more)
  simp only [run_bind, longer, Run.andThen, longer']

/-- A composition that returns consists of two parts that return. -/
theorem Evaluates.of_bind {first : Prog σ ε α} {second : α → Prog σ ε β} {start stop : σ}
    {result : β} {trace : List ε} (whole : (first >>= second).Evaluates start result stop trace) :
    ∃ value middle early late, first.Evaluates start value middle early ∧
      (second value).Evaluates middle result stop late ∧ trace = early ++ late := by
  obtain ⟨fuel, ran⟩ := whole
  rw [run_bind] at ran
  cases stopped : (first.run fuel start).outcome with
  | returned value =>
    simp only [Run.andThen, stopped, Run.mk.injEq] at ran
    obtain ⟨traces, states, outcomes⟩ := ran
    have latter := Evaluates.of_run outcomes
    rw [states] at latter
    exact ⟨value, _, _, _, Evaluates.of_run stopped, latter, traces.symm⟩
  | crashed => simp [Run.andThen, stopped] at ran
  | exhausted => simp [Run.andThen, stopped] at ran

/-- The run of a loop. -/
theorem loop_eq_rounds (body : β → Prog σ ε (β ⊕ α)) (counter : β) (fuel : ℕ) (state : σ) :
    (loop body counter).run fuel state = rounds body fuel fuel counter state := rfl

/-- A loop whose body answers with a result returns that result. -/
theorem Evaluates.loop_done {body : β → Prog σ ε (β ⊕ α)} {counter : β} {start stop : σ}
    {result : α} {trace : List ε}
    (last : (body counter).Evaluates start (.inr result) stop trace) :
    (loop body counter).Evaluates start result stop trace := by
  obtain ⟨fuel, ran⟩ := last
  refine ⟨fuel + 1, ?_⟩
  have longer := run_later ran (Nat.le_succ fuel)
  simp only [loop_eq_rounds, rounds, longer, Run.andThen, List.append_nil]

/-- A loop whose body answers with a next round returns what the loop from there returns. -/
theorem Evaluates.loop_next {body : β → Prog σ ε (β ⊕ α)} {counter next : β}
    {start middle stop : σ} {result : α} {early late : List ε}
    (round : (body counter).Evaluates start (.inl next) middle early)
    (rest : (loop body next).Evaluates middle result stop late) :
    (loop body counter).Evaluates start result stop (early ++ late) := by
  obtain ⟨fuel, ran⟩ := round
  obtain ⟨more, ran'⟩ := rest
  rw [loop_eq_rounds] at ran'
  refine ⟨max fuel more + 1, ?_⟩
  have longer := run_later ran (show fuel ≤ max fuel more + 1 by omega)
  have longer' : rounds body (max fuel more + 1) (max fuel more) next middle =
      ⟨late, stop, .returned result⟩ := by
    rw [(rounds_extend body (show more ≤ max fuel more + 1 by omega)
      (Nat.le_max_right fuel more) next middle).stable (by simp [ran']), ran']
  simp only [loop_eq_rounds, rounds, longer, Run.andThen, longer']

/-- Induction over the rounds of a loop that returned. -/
theorem Evaluates.loop_induct {body : β → Prog σ ε (β ⊕ α)}
    {motive : β → σ → α → σ → List ε → Prop}
    (done : ∀ counter start result stop trace,
      (body counter).Evaluates start (.inr result) stop trace →
      motive counter start result stop trace)
    (next : ∀ counter following start middle result stop early late,
      (body counter).Evaluates start (.inl following) middle early →
      (loop body following).Evaluates middle result stop late →
      motive following middle result stop late →
      motive counter start result stop (early ++ late))
    {counter : β} {start stop : σ} {result : α} {trace : List ε}
    (evaluates : (loop body counter).Evaluates start result stop trace) :
    motive counter start result stop trace := by
  obtain ⟨fuel, ran⟩ := evaluates
  rw [loop_eq_rounds] at ran
  suffices all : ∀ count, count ≤ fuel → ∀ counter start trace,
      rounds body fuel count counter start = ⟨trace, stop, .returned result⟩ →
      motive counter start result stop trace from all fuel le_rfl counter start trace ran
  intro count
  induction count with
  | zero => intro _ counter start trace ran; simp [rounds] at ran
  | succ count ih =>
    intro enough counter start trace ran
    rw [rounds] at ran
    cases stopped : ((body counter).run fuel start).outcome with
    | crashed => simp [Run.andThen, stopped] at ran
    | exhausted => simp [Run.andThen, stopped] at ran
    | returned answer =>
      have round := Evaluates.of_run stopped
      cases answer with
      | inr value =>
        simp only [Run.andThen, stopped, List.append_nil, Run.mk.injEq,
          Outcome.returned.injEq] at ran
        obtain ⟨traces, states, rfl⟩ := ran
        rw [traces, states] at round
        exact done counter start value stop trace round
      | inl following =>
        simp only [Run.andThen, stopped, Run.mk.injEq] at ran
        obtain ⟨traces, states, outcomes⟩ := ran
        set later := rounds body fuel count following ((body counter).run fuel start).state
          with laterRun
        have rest : later = ⟨later.trace, stop, .returned result⟩ := by rw [← states, ← outcomes]
        have more := (rounds_extend body le_rfl (show count ≤ fuel by omega) following
          ((body counter).run fuel start).state).stable (by rw [← laterRun, rest]; simp)
        have whole : (loop body following).Evaluates ((body counter).run fuel start).state result
            stop later.trace := ⟨fuel, by rw [loop_eq_rounds, more, ← laterRun, ← rest]⟩
        rw [← traces]
        exact next counter following start _ result stop _ _ round whole
          (ih (by omega) following _ _ (by rw [← laterRun, ← rest]))

/-! ## Observations -/

/-- What the first part of a composition observes, the composition observes. -/
theorem Observes.bind_left {first : Prog σ ε α} {second : α → Prog σ ε β} {start : σ}
    {observation : ε} (seen : first.Observes start observation) :
    (first >>= second).Observes start observation := by
  obtain ⟨fuel, member⟩ := seen
  exact ⟨fuel, (Run.andThen_before _ _).subset member⟩

/-- What the second part of a composition observes after the first returned, the composition
observes. -/
theorem Observes.bind_right {first : Prog σ ε α} {second : α → Prog σ ε β} {start middle : σ}
    {value : α} {early : List ε} {observation : ε}
    (former : first.Evaluates start value middle early)
    (seen : (second value).Observes middle observation) :
    (first >>= second).Observes start observation := by
  obtain ⟨fuel, ran⟩ := former
  obtain ⟨more, member⟩ := seen
  refine ⟨max fuel more, ?_⟩
  have longer := run_later ran (Nat.le_max_left fuel more)
  have kept := ((second value).extend (Nat.le_max_right fuel more) middle).before.subset member
  simp only [run_bind, longer, Run.andThen, List.mem_append]
  exact .inr kept

/-- A program that observes something and then dies has observed it. -/
theorem Observes.emit (observation : ε) (state : σ) :
    (Prog.emit observation : Prog σ ε Unit).Observes state observation :=
  ⟨0, List.mem_singleton_self observation⟩

/-- What the first round of a loop observes, the loop observes. -/
theorem Observes.loop_here {body : β → Prog σ ε (β ⊕ α)} {counter : β} {start : σ}
    {observation : ε} (seen : (body counter).Observes start observation) :
    (loop body counter).Observes start observation := by
  obtain ⟨fuel, member⟩ := seen
  refine ⟨fuel + 1, ?_⟩
  have kept := ((body counter).extend (Nat.le_succ fuel) start).before.subset member
  exact (Run.andThen_before _ _).subset kept

/-! ## Halting -/

/-- A program that returns halts. -/
theorem Evaluates.halts {program : Prog σ ε α} {start stop : σ} {value : α} {trace : List ε}
    (evaluates : program.Evaluates start value stop trace) : program.Halts start := by
  obtain ⟨fuel, ran⟩ := evaluates
  exact ⟨fuel, by simp [ran]⟩

/-- A composition halts when its first part does and, if that returns, its second part. -/
theorem Halts.bind {first : Prog σ ε α} {second : α → Prog σ ε β} {start : σ}
    (former : first.Halts start)
    (latter : ∀ value middle trace, first.Evaluates start value middle trace →
      (second value).Halts middle) :
    (first >>= second).Halts start := by
  obtain ⟨fuel, finished⟩ := former
  cases stopped : (first.run fuel start).outcome with
  | exhausted => exact absurd stopped finished
  | crashed => exact ⟨fuel, by simp [Run.andThen, stopped]⟩
  | returned value =>
    obtain ⟨more, finished'⟩ := latter value _ _ (Evaluates.of_run stopped)
    refine ⟨max fuel more, ?_⟩
    rw [run_bind, run_more (Nat.le_max_left fuel more) (by simp [stopped])]
    simp only [Run.andThen, stopped]
    rw [run_more (Nat.le_max_right fuel more) finished']
    exact finished'

/-- A loop halts when each round halts and a measure of loop variable and state decreases along a
well-founded order from one round to the next. -/
theorem Halts.loop {δ : Type} {order : δ → δ → Prop} (founded : WellFounded order)
    (measure : β → σ → δ) (invariant : β → σ → Prop) {body : β → Prog σ ε (β ⊕ α)}
    (round : ∀ counter state, invariant counter state → (body counter).Halts state)
    (progress : ∀ counter state next later trace, invariant counter state →
      (body counter).Evaluates state (.inl next) later trace →
      invariant next later ∧ order (measure next later) (measure counter state))
    {counter : β} {start : σ} (initial : invariant counter start) :
    (loop body counter).Halts start := by
  generalize size : measure counter start = bound
  induction bound using founded.induction generalizing counter start with
  | _ bound ih =>
    obtain ⟨fuel, finished⟩ := round counter start initial
    cases stopped : ((body counter).run fuel start).outcome with
    | exhausted => exact absurd stopped finished
    | crashed =>
      refine ⟨fuel + 1, ?_⟩
      rw [loop_eq_rounds, rounds, run_more (Nat.le_succ fuel) finished]
      simp [Run.andThen, stopped]
    | returned answer =>
      cases answer with
      | inr result =>
        exact (Evaluates.loop_done (Evaluates.of_run stopped)).halts
      | inl next =>
        obtain ⟨kept, smaller⟩ := progress _ _ _ _ _ initial (Evaluates.of_run stopped)
        obtain ⟨more, finished'⟩ := ih _ (size ▸ smaller) kept rfl
        rw [loop_eq_rounds] at finished'
        refine ⟨max fuel more + 1, ?_⟩
        rw [loop_eq_rounds, rounds,
          run_more (show fuel ≤ max fuel more + 1 by omega) finished]
        simp only [Run.andThen, stopped]
        rw [(rounds_extend body (show more ≤ max fuel more + 1 by omega)
          (Nat.le_max_right fuel more) next _).stable finished']
        exact finished'

/-- A program that halts from every state. -/
def AlwaysHalts (program : Prog σ ε α) : Prop := ∀ start, program.Halts start

/-- A program without loops halts. -/
theorem AlwaysHalts.ofRun {step : σ → Run σ ε α}
    (ends : ∀ state, (step state).outcome ≠ .exhausted) :
    AlwaysHalts (ofRun step) := fun start => ⟨0, ends start⟩

theorem AlwaysHalts.pure (value : α) : AlwaysHalts (pure value : Prog σ ε α) :=
  AlwaysHalts.ofRun fun _ => by simp

theorem AlwaysHalts.get : AlwaysHalts (get : Prog σ ε σ) := AlwaysHalts.ofRun fun _ => by simp

theorem AlwaysHalts.update (note : σ → ε) (change : σ → σ) : AlwaysHalts (update note change) :=
  AlwaysHalts.ofRun fun _ => by simp

theorem AlwaysHalts.emit (observation : ε) :
    AlwaysHalts (emit observation : Prog σ ε Unit) := AlwaysHalts.ofRun fun _ => by simp

theorem AlwaysHalts.crash : AlwaysHalts (crash : Prog σ ε α) := AlwaysHalts.ofRun fun _ => by simp

/-- A composition of programs that halt halts. -/
theorem AlwaysHalts.bind {first : Prog σ ε α} {second : α → Prog σ ε β}
    (former : first.AlwaysHalts) (latter : ∀ value, (second value).AlwaysHalts) :
    (first >>= second).AlwaysHalts :=
  fun start => (former start).bind fun value middle _ _ => latter value middle

/-! ## Partial correctness -/

/-- An invariant: a triple whose postcondition is its precondition. -/
abbrev Keeps (assume guarantee : ε → Prop) (invariant : σ → Prop) (program : Prog σ ε α) : Prop :=
  Triple assume guarantee invariant program fun _ => invariant

namespace Triple

variable {assume guarantee : ε → Prop} {pre pre' : σ → Prop} {post post' : α → σ → Prop}
  {program : Prog σ ε α}

/-- A stronger precondition and a weaker postcondition. -/
theorem weaken (triple : Triple assume guarantee pre program post)
    (before : ∀ state, pre' state → pre state)
    (after : ∀ value state, post value state → post' value state) :
    Triple assume guarantee pre' program post' := by
  intro fuel start holds assumed
  obtain ⟨safe, returns⟩ := triple fuel start (before start holds) assumed
  exact ⟨safe, fun value returned => after value _ (returns value returned)⟩

/-- The precondition may be used while the triple is proved. -/
theorem intro (triple : ∀ start, pre start →
    Triple assume guarantee (fun state => state = start) program post) :
    Triple assume guarantee pre program post :=
  fun fuel start holds assumed => triple start holds fuel start rfl assumed

theorem pure {value : α} (holds : ∀ state, pre state → post value state) :
    Triple assume guarantee pre (pure value : Prog σ ε α) post := by
  intro fuel start before _
  refine ⟨fun _ member => absurd member List.not_mem_nil, fun result returned => ?_⟩
  cases returned
  exact holds start before

theorem update {post : Unit → σ → Prop} {note : σ → ε} {change : σ → σ} :
    Triple assume guarantee
      (fun state => assume (note (change state)) →
        guarantee (note (change state)) ∧ post () (change state))
      (update note change) post := by
  intro fuel start holds assumed
  simp only [run_update, List.mem_singleton, forall_eq] at assumed ⊢
  exact ⟨(holds assumed).1, fun _ _ => (holds assumed).2⟩

theorem emit {post : Unit → σ → Prop} {observation : ε} :
    Triple assume guarantee
      (fun state => assume observation → guarantee observation ∧ post () state)
      (emit observation) post := by
  intro fuel start holds assumed
  simp only [run_emit, List.mem_singleton, forall_eq] at assumed ⊢
  exact ⟨(holds assumed).1, fun _ _ => (holds assumed).2⟩

theorem crash : Triple assume guarantee pre (crash : Prog σ ε α) post := by
  intro fuel start _ _
  refine ⟨fun _ member => absurd member List.not_mem_nil, fun result returned => ?_⟩
  simp at returned

/-- Sequential composition through an intermediate condition. -/
theorem bind {middle : α → σ → Prop} {first : Prog σ ε α} {second : α → Prog σ ε β}
    {after : β → σ → Prop} (former : Triple assume guarantee pre first middle)
    (latter : ∀ value, Triple assume guarantee (middle value) (second value) after) :
    Triple assume guarantee pre (first >>= second) after := by
  intro fuel start holds assumed
  rw [run_bind] at assumed ⊢
  have assumedFirst : ∀ observation ∈ (first.run fuel start).trace, assume observation :=
    fun observation member => assumed _ ((Run.andThen_before _ _).subset member)
  obtain ⟨safe, returns⟩ := former fuel start holds assumedFirst
  cases stopped : (first.run fuel start).outcome with
  | crashed => simpa [Run.andThen, stopped] using safe
  | exhausted => simpa [Run.andThen, stopped] using safe
  | returned value =>
    simp only [Run.andThen, stopped, List.mem_append] at assumed ⊢
    obtain ⟨safe', returns'⟩ := latter value fuel _ (returns value stopped)
      (fun observation member => assumed _ (.inr member))
    exact ⟨fun observation member => member.elim (safe _) (safe' _), returns'⟩

/-- Sequential composition through a stated intermediate condition. -/
theorem through (middle : α → σ → Prop) {first : Prog σ ε α} {second : α → Prog σ ε β}
    {after : β → σ → Prop} (former : Triple assume guarantee pre first middle)
    (latter : ∀ value, Triple assume guarantee (middle value) (second value) after) :
    Triple assume guarantee pre (first >>= second) after := former.bind latter

/-- A loop keeps what each of its rounds keeps. -/
theorem loop (invariant : β → σ → Prop) {body : β → Prog σ ε (β ⊕ α)}
    (round : ∀ counter, Triple assume guarantee (invariant counter) (body counter)
      fun answer state => answer.elim (invariant · state) (post · state)) (counter : β) :
    Triple assume guarantee (invariant counter) (loop body counter) post := by
  intro fuel
  simp only [loop_eq_rounds]
  suffices all : ∀ count counter start, invariant counter start →
      (∀ observation ∈ (rounds body fuel count counter start).trace, assume observation) →
      (∀ observation ∈ (rounds body fuel count counter start).trace, guarantee observation) ∧
        ∀ value, (rounds body fuel count counter start).outcome = .returned value →
          post value (rounds body fuel count counter start).state from
    fun start => all fuel counter start
  intro count
  induction count with
  | zero =>
    intro counter start _ _
    refine ⟨fun _ member => absurd member List.not_mem_nil, fun value returned => ?_⟩
    simp [rounds] at returned
  | succ count ih =>
    intro counter start holds assumed
    rw [rounds] at assumed ⊢
    have assumedFirst : ∀ observation ∈ ((body counter).run fuel start).trace,
        assume observation :=
      fun observation member => assumed _ ((Run.andThen_before _ _).subset member)
    obtain ⟨safe, returns⟩ := round counter fuel start holds assumedFirst
    cases stopped : ((body counter).run fuel start).outcome with
    | crashed => simpa [Run.andThen, stopped] using safe
    | exhausted => simpa [Run.andThen, stopped] using safe
    | returned answer =>
      have kept := returns answer stopped
      cases answer with
      | inr result =>
        simp only [Run.andThen, stopped, List.append_nil] at assumed ⊢
        refine ⟨safe, fun value returned => ?_⟩
        cases returned
        exact kept
      | inl next =>
        simp only [Run.andThen, stopped, List.mem_append] at assumed ⊢
        obtain ⟨safe', returns'⟩ := ih next _ kept
          (fun observation member => assumed _ (.inr member))
        exact ⟨fun observation member => member.elim (safe _) (safe' _), returns'⟩

/-- Reading the state and going on with it. -/
theorem get_bind {second : σ → Prog σ ε α}
    (next : ∀ state, pre state →
      Triple assume guarantee (fun later => later = state) (second state) post) :
    Triple assume guarantee pre (Prog.get >>= second) post := by
  intro fuel start holds assumed
  simp only [run_bind, run_get, Run.andThen, List.nil_append] at assumed ⊢
  exact next start holds fuel start rfl assumed

/-- Reading the state and going on under the same precondition. -/
theorem get_keep {second : σ → Prog σ ε α}
    (next : ∀ state, pre state → Triple assume guarantee pre (second state) post) :
    Triple assume guarantee pre (Prog.get >>= second) post :=
  get_bind fun state holds =>
    (next state holds).weaken (fun _ same => same ▸ holds) fun _ _ kept => kept

/-- What a triple says of a run that returned and met the assumption. -/
theorem of_assumed {assume : ε → Prop} (triple : Triple assume guarantee pre program post)
    {start stop : σ} {value : α} {trace : List ε} (holds : pre start)
    (evaluates : program.Evaluates start value stop trace)
    (assumed : ∀ observation ∈ trace, assume observation) :
    (∀ observation ∈ trace, guarantee observation) ∧ post value stop := by
  obtain ⟨fuel, ran⟩ := evaluates
  have both := triple fuel start holds
  rw [ran] at both
  obtain ⟨safe, returns⟩ := both assumed
  exact ⟨safe, returns value rfl⟩

/-- What a triple says of a run that returned. -/
theorem of_evaluates (triple : Triple (fun _ => True) guarantee pre program post) {start stop : σ}
    {value : α} {trace : List ε} (holds : pre start)
    (evaluates : program.Evaluates start value stop trace) :
    (∀ observation ∈ trace, guarantee observation) ∧ post value stop :=
  triple.of_assumed holds evaluates fun _ _ => True.intro

end Triple

end Prog

end FcTpms.Program

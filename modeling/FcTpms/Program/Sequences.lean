import FcTpms.Program.Returns

/-!
# Programs that handle one input after the other

An invariant sees the inputs that are still to come. If each input finds it and leaves it for the
inputs behind it, every result has what a single result has.
-/

namespace FcTpms.Program.Prog

variable {σ ε α β γ : Type}

/-- Handle inputs one after the other. -/
def each (body : α → Prog σ ε β) : List α → Prog σ ε (List β)
  | [] => pure []
  | input :: rest => do
    let result ← body input
    return result :: (← each body rest)

variable {body : α → Prog σ ε β}

/-- An input that was handled, and what came of it. -/
structure Handled (σ ε α β : Type) where
  /-- The state before. -/
  start : σ
  /-- The input. -/
  input : α
  /-- Its result. -/
  result : β
  /-- The state behind. -/
  stop : σ
  /-- What was observed meanwhile. -/
  trace : List ε

/-- Inputs were handled one after the other, each from the state that the one before it left. -/
inductive Handles (body : α → Prog σ ε β) : σ → List (Handled σ ε α β) → Prop
  /-- Nothing was handled. -/
  | nil (state : σ) : Handles body state []
  /-- An input and then others. -/
  | cons {first : Handled σ ε α β} {rest : List (Handled σ ε α β)}
    (evaluates : (body first.input).Evaluates first.start first.result first.stop first.trace)
    (others : Handles body first.stop rest) : Handles body first.start (first :: rest)

/-- Each of them was handled. -/
theorem Handles.evaluates {start : σ} {all : List (Handled σ ε α β)}
    (handles : Handles body start all) {one : Handled σ ε α β} (member : one ∈ all) :
    (body one.input).Evaluates one.start one.result one.stop one.trace := by
  induction handles with
  | nil state => cases member
  | cons first _ ih =>
    rcases List.mem_cons.mp member with rfl | later
    · exact first
    · exact ih later

/-- Handling them in one program is the same. -/
theorem Handles.each {start : σ} {all : List (Handled σ ε α β)}
    (handles : Handles body start all) : ∃ stop, (each body (all.map Handled.input)).Evaluates start
      (all.map Handled.result) stop (all.flatMap Handled.trace) := by
  induction handles with
  | nil state => exact ⟨state, Evaluates.pure state []⟩
  | cons first _ ih =>
    obtain ⟨stop, others⟩ := ih
    apply Exists.intro stop
    simp only [List.map_cons, List.flatMap_cons, Prog.each]
    apply first.bind
    rw [← List.append_nil (List.flatMap _ _)]
    exact others.bind (Evaluates.pure stop _)

/-- Inputs are handled, if each of them is and leaves the invariant for those behind it. -/
theorem Handles.of_attains (invariant : List α → σ → Prop) (goal : σ → β → σ → List ε → Prop)
    {inputs : List α} (one : ∀ input ∈ inputs, ∀ rest state, invariant (input :: rest) state →
      (body input).Attains state fun result later trace =>
        goal state result later trace ∧ invariant rest later)
    {start : σ} (holds : invariant inputs start) :
    ∃ all : List (Handled σ ε α β), Handles body start all ∧ all.map Handled.input = inputs ∧
      ∀ each ∈ all, goal each.start each.result each.stop each.trace := by
  induction inputs generalizing start with
  | nil => exact ⟨[], Handles.nil start, rfl, fun each member => absurd member List.not_mem_nil⟩
  | cons input rest ih =>
    obtain ⟨result, later, trace, evaluates, reached, left⟩ :=
      one input List.mem_cons_self rest start holds
    obtain ⟨all, handles, inputs, each⟩ :=
      ih (fun other member => one other (List.mem_cons_of_mem _ member)) left
    refine ⟨⟨start, input, result, later, trace⟩ :: all, ?_, ?_, ?_⟩
    · exact @Handles.cons σ ε α β body ⟨start, input, result, later, trace⟩ all evaluates handles
    · rw [List.map_cons, inputs]
    · intro other member
      rcases List.mem_cons.mp member with rfl | behind
      · exact reached
      · exact each other behind

/-- All inputs are handled, if each of them is. The inputs may be described by other values. -/
theorem Attains.each (invariant : List α → σ → Prop) (goal : β → γ → Prop)
    {described : α → γ → Prop}
    (one : ∀ input rest state description, described input description →
      invariant (input :: rest) state → (body input).Attains state fun result later _ =>
        goal result description ∧ invariant rest later)
    {inputs : List α} {descriptions : List γ} (all : List.Forall₂ described inputs descriptions)
    {start : σ} (holds : invariant inputs start) :
    (each body inputs).Attains start fun results later _ =>
      List.Forall₂ goal results descriptions ∧ invariant [] later := by
  induction all generalizing start with
  | nil =>
    rw [Prog.each, attains_pure]
    exact ⟨List.Forall₂.nil, holds⟩
  | cons first _ ih =>
    simp only [Prog.each, attains_bind]
    apply (one _ _ start _ first holds).mono
    intro result middle early handled
    apply (ih handled.2).mono
    intro results later late rest
    rw [attains_pure]
    exact ⟨List.Forall₂.cons handled.1 rest.1, rest.2⟩

end FcTpms.Program.Prog

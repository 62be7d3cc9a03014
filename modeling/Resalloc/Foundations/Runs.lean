import Mathlib.Data.List.Induction

/-!
# Runs of a partial deterministic step function

A system is a function {lit}`step` that, for a state and an action, either
returns the next state or is not enabled.  This file gives finite executions of
such a system, runs whose steps all meet a side condition, and the induction
rules used to reason about them.

Main results:

- Theorem {lit}`Path.invariant`: a predicate kept by every admitted step holds
  at the end of every run.
- Theorem {lit}`Path.split`: a run over a concatenated action list passes
  through an intermediate state.
- Theorem {lit}`Path.project`: a run of a system is a run of its components.
- Theorem {lit}`Path.of_execWithin`: an evaluated execution is a run.
- Theorem {lit}`trace_simulates`: two machines that stay related give the same answers.
-/

namespace Foundations

variable {State Action : Type}

/-- Runs from {lit}`s` in which every executed action satisfies {lit}`ok` in the
state it is executed in. -/
inductive Path (step : State → Action → Option State) (ok : State → Action → Prop)
    (s : State) : List Action → State → Prop
  | refl : Path step ok s [] s
  | snoc {as : List Action} {t u : State} {a : Action} :
      Path step ok s as t → ok t a → step t a = some u → Path step ok s (as ++ [a]) u

/-- The side condition of a run without restrictions. -/
def anyStep (_ : State) (_ : Action) : Prop := True

instance (s : State) (a : Action) : Decidable (anyStep s a) :=
  inferInstanceAs (Decidable True)

variable {step : State → Action → Option State} {ok ok' : State → Action → Prop}
variable {s t u : State} {as bs : List Action} {a : Action}

/-! ## Induction rules -/

/-- A predicate kept by every admitted step holds at the end of every run. -/
theorem Path.invariant {P : State → Prop} (hrun : Path step ok s as t) (hstart : P s)
    (hstep : ∀ u a v, P u → ok u a → step u a = some v → P v) : P t := by
  induction hrun with
  | refl => exact hstart
  | snoc _ hok hnext ih => exact hstep _ _ _ ih hok hnext

/-- If every counted action makes a quantity smaller, and no other one makes it larger, a run
has no more counted actions than the quantity allows. -/
theorem Path.budget {P : State → Prop} {size : State → ℕ} {counted : Action → Bool}
    (hrun : Path step ok s as t) (hstart : P s)
    (hstep : ∀ u a v, P u → ok u a → step u a = some v →
      P v ∧ size v + (if counted a then 1 else 0) ≤ size u) :
    P t ∧ size t + as.countP counted ≤ size s := by
  induction hrun with
  | refl => exact ⟨hstart, Nat.le_refl _⟩
  | @snoc as u v a _ hok hnext ih =>
      obtain ⟨hu, hbudget⟩ := ih
      obtain ⟨hv, hcost⟩ := hstep u a v hu hok hnext
      refine ⟨hv, ?_⟩
      rw [List.countP_append, List.countP_singleton]
      omega

/-- A run under one side condition is a run under every weaker one. -/
theorem Path.weaken (hrun : Path step ok s as t) (h : ∀ u a, ok u a → ok' u a) :
    Path step ok' s as t := by
  induction hrun with
  | refl => exact .refl
  | snoc _ hok hnext ih => exact .snoc ih (h _ _ hok) hnext

/-- Every run is a run without restrictions. -/
theorem Path.anyStep (hrun : Path step ok s as t) : Path step anyStep s as t :=
  hrun.weaken fun _ _ _ => trivial

/-- One admitted step is a run. -/
theorem Path.single (hok : ok s a) (hnext : step s a = some t) : Path step ok s [a] t :=
  .snoc .refl hok hnext

/-! ## Composing and splitting runs -/

/-- Runs compose. -/
theorem Path.append (hfirst : Path step ok s as t) (hsecond : Path step ok t bs u) :
    Path step ok s (as ++ bs) u := by
  induction hsecond with
  | refl => simpa using hfirst
  | snoc _ hok hnext ih =>
      rw [← List.append_assoc]
      exact .snoc ih hok hnext

/-- A run without actions stays where it starts. -/
theorem Path.nil_inv (hrun : Path step ok s [] t) : t = s := by
  generalize hnil : ([] : List Action) = as at hrun
  cases hrun with
  | refl => rfl
  | snoc _ _ _ => simp at hnil

/-- The last action of a run is an admitted step from the state before it. -/
theorem Path.snoc_inv (hrun : Path step ok s (as ++ [a]) u) :
    ∃ t, Path step ok s as t ∧ ok t a ∧ step t a = some u := by
  generalize hall : as ++ [a] = all at hrun
  cases hrun with
  | refl => simp at hall
  | snoc hprev hok hnext =>
      obtain ⟨rfl, ha⟩ := List.append_inj' hall rfl
      obtain rfl := List.singleton_inj.mp ha
      exact ⟨_, hprev, hok, hnext⟩

/-- A run over a concatenation passes through the state after the first part. -/
theorem Path.split (hrun : Path step ok s (as ++ bs) u) :
    ∃ t, Path step ok s as t ∧ Path step ok t bs u := by
  induction bs using List.reverseRecOn generalizing u with
  | nil => exact ⟨u, by simpa using hrun, .refl⟩
  | append_singleton bs b ih =>
      rw [← List.append_assoc] at hrun
      obtain ⟨v, hprev, hok, hnext⟩ := hrun.snoc_inv
      obtain ⟨t, hfirst, hsecond⟩ := ih hprev
      exact ⟨t, hfirst, .snoc hsecond hok hnext⟩

/-- A run over a nonempty action list starts with an admitted step. -/
theorem Path.cons_inv (hrun : Path step ok s (a :: as) u) :
    ∃ t, ok s a ∧ step s a = some t ∧ Path step ok t as u := by
  have happend : Path step ok s ([a] ++ as) u := hrun
  obtain ⟨t, hfirst, hrest⟩ := happend.split
  have hsnoc : Path step ok s ([] ++ [a]) t := hfirst
  obtain ⟨v, hprev, hok, hnext⟩ := hsnoc.snoc_inv
  obtain rfl := hprev.nil_inv
  exact ⟨t, hok, hnext, hrest⟩

/-! ## Observations -/

section Observations

variable {β : Type} (f : State → Action → Option β)

/-- What a run shows: the outputs of its steps, in their order. -/
def observe (step : State → Action → Option State) (s : State) : List Action → List β
  | [] => []
  | a :: as =>
      (f s a).toList ++
        match step s a with
        | none => []
        | some next => observe step next as

/-- The observations of a run continue those of its first part. -/
theorem Path.observe_append (hrun : Path step ok s as t) (bs : List Action) :
    observe f step s (as ++ bs) = observe f step s as ++ observe f step t bs := by
  induction hrun generalizing bs with
  | refl => rfl
  | @snoc as t u a _ _ hnext ih =>
      calc observe f step s (as ++ [a] ++ bs)
          = observe f step s as ++ observe f step t (a :: bs) := by
            rw [List.append_assoc, ih]
            rfl
        _ = observe f step s as ++ ((f t a).toList ++ observe f step u bs) := by
            rw [observe, hnext]
        _ = observe f step s (as ++ [a]) ++ observe f step u bs := by
            rw [ih [a], observe, hnext]
            simp [observe]

/-- The observations of a run after one more step. -/
theorem Path.observe_snoc (hrun : Path step ok s as t) (hnext : step t a = some u) :
    observe f step s (as ++ [a]) = observe f step s as ++ (f t a).toList := by
  rw [hrun.observe_append, observe, hnext]
  simp [observe]

/-- What a run shows was shown by one of its steps. -/
theorem Path.exists_of_mem_observe (hrun : Path step ok s as t) {b : β}
    (hmem : b ∈ observe f step s as) :
    ∃ pre a post u v, as = pre ++ a :: post ∧ Path step ok s pre u ∧ ok u a ∧
      f u a = some b ∧ step u a = some v ∧ Path step ok v post t := by
  induction hrun with
  | refl => simp [observe] at hmem
  | @snoc as t u a hprev hok hnext ih =>
      rw [hprev.observe_snoc f hnext, List.mem_append] at hmem
      rcases hmem with hmem | hmem
      · obtain ⟨pre, c, post, x, y, rfl, hpre, hc, hshow, hxy, hpost⟩ := ih hmem
        exact ⟨pre, c, post ++ [a], x, y, by simp, hpre, hc, hshow, hxy, .snoc hpost hok hnext⟩
      · exact ⟨as, a, [], t, u, rfl, hprev, hok, by simpa using hmem, hnext, .refl⟩

/-- A coarser look at a run. -/
theorem observe_map {γ : Type} (g : β → γ) (s : State) (as : List Action) :
    observe (fun s a => (f s a).map g) step s as = (observe f step s as).map g := by
  induction as generalizing s with
  | nil => rfl
  | cons a as ih =>
      have hfirst : ((f s a).map g).toList = (f s a).toList.map g := by
        cases f s a <;> rfl
      rw [observe, observe, List.map_append, hfirst]
      cases step s a with
      | none => rfl
      | some next => simp only [ih]

/-- If the phase of the states never falls, and each output belongs to a phase between those of
the states around it, the outputs of a run come in the order of their phases. -/
theorem Path.observe_phases {P : State → Prop} (phase : State → ℕ) (rank : β → ℕ)
    (hrun : Path step ok s as t) (hstart : P s)
    (hstep : ∀ u a v, P u → ok u a → step u a = some v →
      P v ∧ phase u ≤ phase v ∧ ∀ b ∈ f u a, phase u ≤ rank b ∧ rank b ≤ phase v) :
    P t ∧ (observe f step s as).Pairwise (fun b c => rank b ≤ rank c) ∧
      ∀ b ∈ observe f step s as, rank b ≤ phase t := by
  induction hrun with
  | refl => exact ⟨hstart, .nil, by simp [observe]⟩
  | @snoc as u v a hprev hok hnext ih =>
      obtain ⟨hu, hsorted, hbound⟩ := ih
      obtain ⟨hv, hphase, hshow⟩ := hstep u a v hu hok hnext
      rw [hprev.observe_snoc f hnext]
      refine ⟨hv, ?_, ?_⟩
      · rw [List.pairwise_append]
        refine ⟨hsorted, ?_, fun b hb c hc => ?_⟩
        · cases f u a <;> simp
        · exact Nat.le_trans (hbound b hb) (hshow c (by simpa using hc)).1
      · intro b hb
        rcases List.mem_append.mp hb with hold | hnew
        · exact Nat.le_trans (hbound b hold) hphase
        · exact (hshow b (by simpa using hnew)).2

end Observations

/-! ## Components -/

/-- The effect of an action, if there is one. -/
def stepOrStay (step : State → Action → Option State) (s : State) : Option Action → Option State
  | none => some s
  | some a => step s a

section Components

variable {Part Move β : Type} {step' : Part → Move → Option Part}
variable (proj : State → Part) (act : State → Action → Option Move)

/-- If every step of a system is a step of a component, or leaves it as it is, then a run of the
system is a run of the component. -/
theorem Path.project
    (hstep : ∀ u a v, step u a = some v → stepOrStay step' (proj u) (act u a) = some (proj v))
    (hrun : Path step ok s as t) :
    Path step' Foundations.anyStep (proj s) (observe act step s as) (proj t) := by
  induction hrun with
  | refl => exact .refl
  | @snoc as u v a hprev _ hnext ih =>
      have hmove := hstep u a v hnext
      rw [hprev.observe_snoc act hnext]
      cases hact : act u a with
      | none =>
          rw [hact, stepOrStay, Option.some.injEq] at hmove
          rw [← hmove, Option.toList_none, List.append_nil]
          exact ih
      | some b =>
          rw [hact] at hmove
          exact ih.snoc trivial hmove

/-- What the component shows in its run is what is seen of it in the run of the system. -/
theorem Path.observe_project
    (hstep : ∀ u a v, step u a = some v → stepOrStay step' (proj u) (act u a) = some (proj v))
    (f : Part → Move → Option β) (hrun : Path step ok s as t) :
    observe (fun u a => (act u a).bind (f (proj u))) step s as =
      observe f step' (proj s) (observe act step s as) := by
  induction hrun with
  | refl => rfl
  | @snoc as u v a hprev _ hnext ih =>
      have hmove := hstep u a v hnext
      rw [hprev.observe_snoc _ hnext, hprev.observe_snoc act hnext, ih]
      cases hact : act u a with
      | none => simp
      | some b =>
          rw [hact] at hmove
          rw [Option.toList_some, (hprev.project proj act hstep).observe_snoc f hmove]
          simp

end Components

/-! ## Evaluated executions -/

/-- Execute a list of actions, also failing where the side condition does. -/
def execWithin (step : State → Action → Option State) (ok : State → Action → Prop)
    [∀ s a, Decidable (ok s a)] (s : State) : List Action → Option State
  | [] => some s
  | a :: as =>
      if ok s a then (step s a).bind fun next => execWithin step ok next as else none

/-- A successful evaluation is a run whose steps meet the side condition. -/
theorem Path.of_execWithin [∀ s a, Decidable (ok s a)]
    (h : execWithin step ok s as = some t) : Path step ok s as t := by
  induction as generalizing s with
  | nil =>
      obtain rfl : s = t := by simpa [execWithin] using h
      exact .refl
  | cons a as ih =>
      simp only [execWithin] at h
      split at h
      next hok =>
        obtain ⟨next, hnext, hrest⟩ := Option.bind_eq_some_iff.mp h
        exact (Path.single hok hnext).append (ih hrest)
      next => contradiction

/-! ## Machines with answers -/

section Machines

variable {Op Answer : Type} {Other : Type}

/-- The answers of a machine to a sequence of operations, and its state after them. -/
def trace (run : State → Op → Answer × State) (s : State) : List Op → List Answer × State
  | [] => ([], s)
  | op :: ops =>
      let (answer, next) := run s op
      let (answers, last) := trace run next ops
      (answer :: answers, last)

/-- Machines whose steps give the same answers and keep a relation give the same answers to
every sequence of operations, and stay related. -/
theorem trace_simulates {run : State → Op → Answer × State} {run' : Other → Op → Answer × Other}
    {R : State → Other → Prop}
    (hstep : ∀ s t op, R s t → (run s op).1 = (run' t op).1 ∧ R (run s op).2 (run' t op).2)
    {s : State} {t : Other} (hstart : R s t) (ops : List Op) :
    (trace run s ops).1 = (trace run' t ops).1 ∧ R (trace run s ops).2 (trace run' t ops).2 := by
  induction ops generalizing s t with
  | nil => exact ⟨rfl, hstart⟩
  | cons op ops ih =>
      obtain ⟨hanswer, hnext⟩ := hstep s t op hstart
      obtain ⟨hanswers, hlast⟩ := ih hnext
      exact ⟨by simp [trace, hanswer, hanswers], hlast⟩

end Machines

end Foundations

import Mathlib.Data.List.Basic

/-!
# Runs of a partial step function under a step condition

A system is a partial step function on states and actions. A run keeps the
list of its actions, and every step of it meets a condition on the state
before the step and the action. The trivial condition gives all runs. A
prefix of a run is a run, so a property of the last state of every run is a
property of every state that a run reaches.
-/

namespace TelemetryPlatform.GuardedRuns

variable {σ α : Type*}

/-- Runs from a start state, all of whose steps meet the step condition. -/
inductive Run (step : σ → α → Option σ) (ok : σ → α → Prop) (start : σ) : List α → σ → Prop
  /-- Nothing has happened. -/
  | nil : Run step ok start [] start
  /-- One more step. -/
  | snoc {actions : List α} {s t : σ} {a : α} :
      Run step ok start actions s → ok s a → step s a = some t →
        Run step ok start (actions ++ [a]) t

/-- The condition that every step meets. -/
def anyStep (_ : σ) (_ : α) : Prop := True

variable {step : σ → α → Option σ} {ok : σ → α → Prop} {start s t : σ} {actions : List α}

/-- A property of the start state that every allowed step preserves holds
in every state that a run reaches. -/
theorem Run.invariant {Inv : σ → Prop} (hstart : Inv start)
    (hstep : ∀ s a t, ok s a → step s a = some t → Inv s → Inv t)
    (hrun : Run step ok start actions s) : Inv s := by
  induction hrun with
  | nil => exact hstart
  | snoc _ hok hs ih => exact hstep _ _ _ hok hs ih

/-- Runs compose. -/
theorem Run.append {later : List α} (hrun : Run step ok start actions s)
    (hlater : Run step ok s later t) : Run step ok start (actions ++ later) t := by
  induction hlater with
  | nil => simpa using hrun
  | snoc _ hok hs ih =>
    rw [← List.append_assoc]
    exact .snoc ih hok hs

/-- A run over a concatenation stops in between. -/
theorem Run.split {later : List α} (hrun : Run step ok start (actions ++ later) t) :
    ∃ s, Run step ok start actions s ∧ Run step ok s later t := by
  generalize hall : actions ++ later = all at hrun
  induction hrun generalizing later with
  | nil =>
    obtain ⟨rfl, rfl⟩ := List.append_eq_nil_iff.mp hall
    exact ⟨start, .nil, .nil⟩
  | @snoc earlier s t a hearlier hok hs ih =>
    rcases List.eq_nil_or_concat later with rfl | ⟨front, last, rfl⟩
    · rw [List.append_nil] at hall
      exact ⟨t, hall ▸ .snoc hearlier hok hs, .nil⟩
    · rw [List.concat_eq_append, ← List.append_assoc] at hall
      obtain ⟨hfront, hlast⟩ := List.append_inj' hall rfl
      obtain ⟨u, hleft, hright⟩ := ih hfront
      cases hlast
      exact ⟨u, hleft, by rw [List.concat_eq_append]; exact .snoc hright hok hs⟩

/-- A run does its actions one after the other. -/
theorem Run.foldlM_eq (hrun : Run step ok start actions s) : actions.foldlM step start = some s := by
  induction hrun with
  | nil => rfl
  | snoc _ _ hs ih =>
    rw [List.foldlM_append, ih]
    simpa using hs

/-- The actions of a run determine where it ends. -/
theorem Run.unique {ok' : σ → α → Prop} (hrun : Run step ok start actions s)
    (hrun' : Run step ok' start actions t) : s = t :=
  Option.some.inj (hrun.foldlM_eq.symm.trans hrun'.foldlM_eq)

/-- The steps that a list of actions takes, each with the state before it. -/
def trace (step : σ → α → Option σ) : σ → List α → List (σ × α)
  | _, [] => []
  | s, a :: rest => (s, a) :: (step s a).elim [] fun t => trace step t rest

/-- What follows a run is traced from its last state. -/
theorem Run.trace_append (hrun : Run step ok start actions s) (later : List α) :
    trace step start (actions ++ later) = trace step start actions ++ trace step s later := by
  have hfold := hrun.foldlM_eq
  clear hrun
  induction actions generalizing start with
  | nil =>
    cases hfold
    rfl
  | cons a rest ih =>
    rw [List.foldlM_cons] at hfold
    obtain ⟨t, ht, hrest⟩ := Option.bind_eq_some_iff.mp hfold
    simp only [List.cons_append, trace, ht, Option.elim_some, ih hrest]

/-- One more step after a run. -/
theorem Run.trace_snoc (hrun : Run step ok start actions s) (a : α) :
    trace step start (actions ++ [a]) = trace step start actions ++ [(s, a)] := by
  rw [hrun.trace_append]
  congr 1
  rw [trace]
  cases step s a <;> rfl

/-- Every traced step of a run is enabled. -/
theorem Run.step_of_mem_trace (hrun : Run step ok start actions s) :
    ∀ p ∈ trace step start actions, ∃ t, step p.1 p.2 = some t := by
  induction hrun with
  | nil => exact fun p hp => absurd hp List.not_mem_nil
  | @snoc actions s t a hrun hok hs ih =>
    rw [hrun.trace_snoc]
    intro p hp
    rcases List.mem_append.mp hp with hold | hnew
    · exact ih p hold
    · rw [List.mem_singleton.mp hnew]
      exact ⟨t, hs⟩

/-- Every traced step meets the condition, in a state that a run reaches. -/
theorem Run.reached_of_mem_trace (hrun : Run step ok start actions s) :
    ∀ p ∈ trace step start actions,
      (∃ earlier, earlier <+: actions ∧ Run step ok start earlier p.1) ∧ ok p.1 p.2 := by
  induction hrun with
  | nil => exact fun p hp => absurd hp List.not_mem_nil
  | @snoc actions s t a hrun hok hs ih =>
    rw [hrun.trace_snoc]
    intro p hp
    rcases List.mem_append.mp hp with hold | hnew
    · obtain ⟨⟨earlier, hfirst, hearlier⟩, hmet⟩ := ih p hold
      exact ⟨⟨earlier, hfirst.trans (List.prefix_append _ _), hearlier⟩, hmet⟩
    · rw [List.mem_singleton.mp hnew]
      exact ⟨⟨actions, List.prefix_append _ _, hrun⟩, hok⟩

/-- A condition that all actions meet may be added to the step condition. -/
theorem Run.strengthen {P : α → Prop} (hrun : Run step ok start actions s)
    (hall : ∀ a ∈ actions, P a) : Run step (fun s a => ok s a ∧ P a) start actions s := by
  induction hrun with
  | nil => exact .nil
  | @snoc actions s t a _ hok hs ih =>
    obtain ⟨hearlier, hlast⟩ := List.forall_mem_append.mp hall
    exact .snoc (ih hearlier) ⟨hok, hlast a List.mem_cons_self⟩ hs

/-- A transitive relation that every step respects leads from the states of a
run to its last one, and from the earlier ones to the later ones. -/
theorem Run.trace_related {R : σ → σ → Prop}
    (htrans : ∀ s t u, R s t → R t u → R s u) (hstep : ∀ s a t, step s a = some t → R s t)
    (hrun : Run step ok start actions s) :
    (∀ p ∈ trace step start actions, R p.1 s) ∧
      (trace step start actions).Pairwise fun p q => R p.1 q.1 := by
  induction hrun with
  | nil => exact ⟨nofun, .nil⟩
  | @snoc actions s t a hrun hok hs ih =>
    have hlast := hstep s a t hs
    rw [hrun.trace_snoc]
    constructor
    · intro p hp
      rcases List.mem_append.mp hp with hold | hnew
      · exact htrans p.1 s t (ih.1 p hold) hlast
      · rw [List.mem_singleton.mp hnew]
        exact hlast
    · refine List.pairwise_append.mpr ⟨ih.2, List.pairwise_singleton _ _, fun p hp q hq => ?_⟩
      rw [List.mem_singleton.mp hq]
      exact ih.1 p hp

/-- Where every step leaves less work, but for the free ones, which leave no more,
the work at the start bounds the number of steps that are not free. -/
theorem Run.work_bound {Inv : σ → Prop} {work : σ → ℕ} {free : α → Bool} (hstart : Inv start)
    (hstep : ∀ s a t, Inv s → step s a = some t → Inv t ∧ (free a = true → work t ≤ work s) ∧
      (free a = false → work t < work s))
    (hrun : Run step ok start actions s) :
    Inv s ∧ (actions.filter fun a => !free a).length + work s ≤ work start := by
  induction hrun with
  | nil => exact ⟨hstart, by simp⟩
  | @snoc actions s t a _ hok hs ih =>
    obtain ⟨hinv, hbound⟩ := ih
    obtain ⟨hinv', hfree, hless⟩ := hstep s a t hinv hs
    refine ⟨hinv', ?_⟩
    rw [List.filter_append, List.length_append]
    cases ha : free a with
    | true =>
      have hle := hfree ha
      simp only [List.filter_cons, List.filter_nil, ha, Bool.not_true, Bool.false_eq_true, if_false,
        List.length_nil]
      omega
    | false =>
      have hlt := hless ha
      simp only [List.filter_cons, List.filter_nil, ha, Bool.not_false, if_true, List.length_singleton]
      omega

/-- Execute a list of actions, stopping where a step is not enabled or does
not meet the condition. -/
def exec (step : σ → α → Option σ) (ok : σ → α → Prop) [∀ s a, Decidable (ok s a)] :
    σ → List α → Option σ
  | s, [] => some s
  | s, a :: rest => if ok s a then (step s a).bind fun t => exec step ok t rest else none

/-- A successful execution is a run. -/
theorem run_of_exec [∀ s a, Decidable (ok s a)] (hexec : exec step ok start actions = some s) :
    Run step ok start actions s := by
  induction actions generalizing start with
  | nil =>
    cases hexec
    exact .nil
  | cons a rest ih =>
    rw [exec] at hexec
    split_ifs at hexec with hok
    obtain ⟨t, ht, hrest⟩ := Option.bind_eq_some_iff.mp hexec
    exact Run.append (.snoc .nil hok ht) (ih hrest)

instance (s : σ) (a : α) : Decidable (anyStep s a) := .isTrue trivial

end TelemetryPlatform.GuardedRuns

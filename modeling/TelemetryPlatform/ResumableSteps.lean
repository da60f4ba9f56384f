import Mathlib.Data.Int.Notation
import Mathlib.Data.List.Induction

/-!
# Steps that can be carried out again

A process executes statements one at a time. Each of them is atomic; it may
fail, and the process may stop before any of them. What a process performs is a
list of steps, and wherever it ends it has carried out the first of them. Where
every step has nothing left to do once it is done, and later steps leave it so,
carrying out all steps again completes what was interrupted.
-/

namespace TelemetryPlatform.ResumableSteps

variable {σ : Type*}

/-- Carry out one step after the other, as long as none is refused. -/
def carryOut (steps : List (σ → Option σ)) (s : σ) : Option σ := steps.foldlM (fun s step => step s) s

/-- Steps that can be carried out again. -/
structure Resumable (steps : List (σ → Option σ)) : Prop where
  /-- A step that is done has nothing left to do. -/
  settles : ∀ step ∈ steps, ∀ s t, step s = some t → step t = some t
  /-- Later steps leave it so. -/
  kept : steps.Pairwise fun step later =>
    ∀ s t, step s = some s → later s = some t → step t = some t

/-- No steps change nothing. -/
theorem carryOut_nil (s : σ) : carryOut [] s = some s := rfl

/-- The first step comes first. -/
theorem carryOut_cons (step : σ → Option σ) (steps : List (σ → Option σ)) (s : σ) :
    carryOut (step :: steps) s = (step s).bind (carryOut steps) := rfl

/-- One step. -/
theorem carryOut_singleton (step : σ → Option σ) (s : σ) : carryOut [step] s = step s := by
  rw [carryOut_cons]
  cases step s with
  | none => rfl
  | some t => rfl

/-- More steps come after those in front of them. -/
theorem carryOut_append (steps later : List (σ → Option σ)) (s : σ) :
    carryOut (steps ++ later) s = (carryOut steps s).bind (carryOut later) := by
  rw [carryOut, List.foldlM_append]
  rfl

/-- Steps with nothing left to do change nothing. -/
theorem carryOut_of_settled {steps : List (σ → Option σ)} {s : σ}
    (h : ∀ step ∈ steps, step s = some s) : carryOut steps s = some s := by
  induction steps with
  | nil => rfl
  | cons step steps ih =>
    obtain ⟨hstep, hsteps⟩ := List.forall_mem_cons.mp h
    rw [carryOut_cons, hstep, Option.bind_some, ih hsteps]

/-- Where the first step changes nothing, either nothing is done or it is left to
the steps behind it. -/
theorem carryOut_of_idle_step {step : σ → Option σ} {steps done : List (σ → Option σ)} {s t : σ}
    (hidle : ∀ s', step s = some s' → s' = s) (hfirst : done <+: step :: steps)
    (hdone : carryOut done s = some t) :
    t = s ∨ step s = some s ∧ ∃ done', done' <+: steps ∧ carryOut done' s = some t := by
  rcases List.prefix_cons_iff.mp hfirst with rfl | ⟨done', rfl, hrest⟩
  · rw [carryOut_nil] at hdone
    cases hdone
    exact .inl rfl
  · rw [carryOut_cons] at hdone
    obtain ⟨s', hstep, hbehind⟩ := Option.bind_eq_some_iff.mp hdone
    obtain rfl := hidle s' hstep
    exact .inr ⟨hstep, done', hrest, hbehind⟩

/-- Steps that can be carried out again still can without the last ones. -/
theorem Resumable.first {steps done : List (σ → Option σ)} (h : Resumable steps)
    (hdone : done <+: steps) : Resumable done :=
  ⟨fun step hstep => h.settles step (hdone.subset hstep), h.kept.sublist hdone.sublist⟩

/-- Steps that were carried out have nothing left to do. -/
theorem Resumable.settled {steps : List (σ → Option σ)} (h : Resumable steps) {s t : σ}
    (hdone : carryOut steps s = some t) : ∀ step ∈ steps, step t = some t := by
  induction steps using List.reverseRecOn generalizing t with
  | nil => exact fun step hstep => absurd hstep List.not_mem_nil
  | append_singleton steps last ih =>
    rw [carryOut_append] at hdone
    obtain ⟨r, hearlier, hlast⟩ := Option.bind_eq_some_iff.mp hdone
    rw [carryOut_cons] at hlast
    obtain ⟨t', ht', hnil⟩ := Option.bind_eq_some_iff.mp hlast
    cases hnil
    have hbefore := ih (h.first (List.prefix_append _ _)) hearlier
    intro step hstep
    rcases List.mem_append.mp hstep with hold | hnew
    · exact (List.pairwise_append.mp h.kept).2.2 step hold last List.mem_cons_self r t
        (hbefore step hold) ht'
    · rw [List.mem_singleton.mp hnew]
      exact h.settles last (List.mem_append_right _ List.mem_cons_self) r t ht'

/-- Carrying out all steps completes what was interrupted after the first of
them. -/
theorem Resumable.resume {steps done : List (σ → Option σ)} (h : Resumable steps)
    (hfirst : done <+: steps) {s t : σ} (hdone : carryOut done s = some t) :
    carryOut steps t = carryOut steps s := by
  obtain ⟨later, rfl⟩ := hfirst
  have hsettled := (h.first (List.prefix_append _ _)).settled hdone
  rw [carryOut_append, carryOut_append, carryOut_of_settled hsettled, hdone]

/-- Outcome of a statement. -/
inductive Outcome where
  /-- It is executed. -/
  | done
  /-- It fails and changes nothing. -/
  | failed
  /-- The process stops before it. -/
  | stopped
  deriving DecidableEq

/-- Outcomes of the coming statements; past its end they are executed. -/
abbrev Script := List Outcome

/-- Outcome of the next statement, and the script behind it. -/
def nextOutcome : Script → Outcome × Script
  | [] => (.done, [])
  | outcome :: script => (outcome, script)

/-- How a process ends. -/
inductive Flow where
  /-- It returns a code. -/
  | returned (rc : ℤ)
  /-- It has stopped. -/
  | stopped
  deriving DecidableEq

/-- A process: how it ends, the state that it leaves and the rest of the script. -/
abbrev Process (σ : Type*) := σ → Script → Flow × σ × Script

/-- Return a code. -/
def finish (rc : ℤ) : Process σ := fun s script => (.returned rc, s, script)

/-- Execute a statement; it fails where its effect is refused. -/
def execute (effect : σ → Option σ) : Process σ := fun s script =>
  match nextOutcome script with
  | (.stopped, script) => (.stopped, s, script)
  | (.failed, script) => (.returned (-1), s, script)
  | (.done, script) =>
    match effect s with
    | some t => (.returned 0, t, script)
    | none => (.returned (-1), s, script)

/-- Go on only where the first process returns 0. -/
def checked (first rest : Process σ) : Process σ := fun s script =>
  match first s script with
  | (.returned rc, s, script) => if rc = 0 then rest s script else (.returned (-1), s, script)
  | (.stopped, s, script) => (.stopped, s, script)

/-- A process carries out the first of the steps, wherever it ends, and all of
them where it returns 0. Without a failure it returns 0 where no step is refused,
and it can be stopped behind any of the steps. -/
structure Performs (p : Process σ) (steps : List (σ → Option σ)) : Prop where
  /-- The first steps are carried out. -/
  reached : ∀ s script, ∃ done, done <+: steps ∧ carryOut done s = some (p s script).2.1
  /-- All steps are carried out. -/
  complete : ∀ s script, (p s script).1 = .returned 0 → carryOut steps s = some (p s script).2.1
  /-- Nothing fails. -/
  unfailing : ∀ s t, carryOut steps s = some t → p s [] = (.returned 0, t, [])
  /-- Nothing fails, and some outcomes are left. -/
  passes : ∀ s t, carryOut steps s = some t → ∀ left, ∃ script, p s script = (.returned 0, t, left)
  /-- The process stops before it has taken all steps. -/
  stops : ∀ s t done, done <+: steps → carryOut done s = some t →
    done = steps ∨ ∃ script, (p s script).1 = .stopped ∧ (p s script).2.1 = t

/-- Returning 0 takes no step. -/
theorem performs_finish : Performs (finish 0 : Process σ) [] where
  reached s _ := ⟨[], List.prefix_refl _, carryOut_nil s⟩
  complete s _ _ := carryOut_nil s
  unfailing s t h := by
    rw [carryOut_nil] at h
    cases h
    rfl
  passes s t h left := by
    rw [carryOut_nil] at h
    cases h
    exact ⟨left, rfl⟩
  stops _ _ _ hfirst _ := .inl (List.prefix_nil.mp hfirst)

/-- A process that has stopped does not return 0. -/
theorem stopped_ne_zero : Flow.stopped ≠ .returned 0 := by decide

/-- The error code is not 0. -/
theorem failed_ne_zero : Flow.returned (-1) ≠ .returned 0 := by decide

/-- A statement returns 0 and has its effect, or does neither. -/
theorem execute_cases (effect : σ → Option σ) (s : σ) (script : Script) :
    ((execute effect s script).1 = .returned 0 ∧
        effect s = some (execute effect s script).2.1) ∨
      ((execute effect s script).1 ≠ .returned 0 ∧ (execute effect s script).2.1 = s) := by
  unfold execute
  obtain ⟨outcome, script⟩ := nextOutcome script
  cases outcome with
  | stopped => exact .inr ⟨stopped_ne_zero, rfl⟩
  | failed => exact .inr ⟨failed_ne_zero, rfl⟩
  | done =>
    dsimp only
    cases effect s with
    | none => exact .inr ⟨failed_ne_zero, rfl⟩
    | some t => exact .inl ⟨rfl, rfl⟩

/-- A statement whose effect is not refused is executed. -/
theorem execute_done {effect : σ → Option σ} {s t : σ} (h : effect s = some t) :
    execute effect s [] = (.returned 0, t, []) ∧
      ∀ left, execute effect s (.done :: left) = (.returned 0, t, left) := by
  unfold execute nextOutcome
  dsimp only
  rw [h]
  exact ⟨rfl, fun _ => rfl⟩

/-- A process that has one effect or none takes one step, if it can have the effect
without a failure and can be stopped before it. -/
theorem performs_of_cases {p : Process σ} {effect : σ → Option σ}
    (hcases : ∀ s script, ((p s script).1 = .returned 0 ∧ effect s = some (p s script).2.1) ∨
      ((p s script).1 ≠ .returned 0 ∧ (p s script).2.1 = s))
    (hdone : ∀ s t, effect s = some t →
      p s [] = (.returned 0, t, []) ∧ ∀ left, ∃ script, p s script = (.returned 0, t, left))
    (hstop : ∀ s, p s [.stopped] = (.stopped, s, [])) : Performs p [effect] where
  reached s script := by
    obtain ⟨-, heffect⟩ | ⟨-, hsame⟩ := hcases s script
    · exact ⟨[effect], List.prefix_refl _, by rw [carryOut_singleton, heffect]⟩
    · exact ⟨[], List.nil_prefix, by rw [hsame, carryOut_nil]⟩
  complete s script hzero := by
    obtain ⟨-, heffect⟩ | ⟨hne, -⟩ := hcases s script
    · rw [carryOut_singleton, heffect]
    · exact absurd hzero hne
  unfailing s t h := by
    rw [carryOut_singleton] at h
    exact (hdone s t h).1
  passes s t h := by
    rw [carryOut_singleton] at h
    exact (hdone s t h).2
  stops s t done hfirst ht := by
    rcases List.prefix_cons_iff.mp hfirst with rfl | ⟨done', rfl, hnil⟩
    · rw [carryOut_nil] at ht
      cases ht
      exact .inr ⟨[.stopped], by rw [hstop], by rw [hstop]⟩
    · rw [List.prefix_nil.mp hnil]
      exact .inl rfl

/-- A statement is a step. -/
theorem performs_execute (effect : σ → Option σ) : Performs (execute effect) [effect] :=
  performs_of_cases (execute_cases effect)
    (fun _ _ h => ⟨(execute_done h).1, fun left => ⟨.done :: left, (execute_done h).2 left⟩⟩)
    fun _ => rfl

/-- A statement that changes nothing is no step. -/
theorem performs_execute_some : Performs (execute (some : σ → Option σ)) [] where
  reached s script := by
    obtain ⟨-, heffect⟩ | ⟨-, hsame⟩ := execute_cases some s script
    · exact ⟨[], List.prefix_refl _, heffect⟩
    · exact ⟨[], List.prefix_refl _, by rw [hsame, carryOut_nil]⟩
  complete s script hzero := by
    obtain ⟨-, heffect⟩ | ⟨hne, -⟩ := execute_cases some s script
    · exact heffect
    · exact absurd hzero hne
  unfailing s t h := by
    rw [carryOut_nil] at h
    cases h
    rfl
  passes s t h left := by
    rw [carryOut_nil] at h
    cases h
    exact ⟨.done :: left, rfl⟩
  stops _ _ _ hfirst _ := .inl (List.prefix_nil.mp hfirst)

/-- A checked process goes on where the first one returns 0, and ends with it
otherwise. -/
theorem checked_cases (first rest : Process σ) (s : σ) (script : Script) :
    ((first s script).1 = .returned 0 ∧
        checked first rest s script = rest (first s script).2.1 (first s script).2.2) ∨
      ((first s script).1 ≠ .returned 0 ∧ (checked first rest s script).1 ≠ .returned 0 ∧
        (checked first rest s script).2.1 = (first s script).2.1) := by
  unfold checked
  obtain ⟨flow, t, left⟩ := first s script
  cases flow with
  | stopped => exact .inr ⟨stopped_ne_zero, stopped_ne_zero, rfl⟩
  | returned rc =>
    dsimp only
    split_ifs with hrc
    · exact .inl ⟨by rw [hrc], rfl⟩
    · exact .inr ⟨fun h => hrc (Flow.returned.inj h), failed_ne_zero, rfl⟩

/-- A checked process goes on with the outcomes that are left. -/
theorem checked_of_zero {first rest : Process σ} {s t : σ} {script left : Script}
    (h : first s script = (.returned 0, t, left)) : checked first rest s script = rest t left := by
  unfold checked
  rw [h]
  exact if_pos rfl

/-- A checked process stops where the first one does. -/
theorem checked_of_stopped {first rest : Process σ} {s : σ} {script : Script}
    (h : (first s script).1 = .stopped) :
    checked first rest s script = (.stopped, (first s script).2) := by
  unfold checked
  generalize first s script = ended at h ⊢
  obtain ⟨flow, t, left⟩ := ended
  cases h
  rfl

/-- A checked process takes the steps of one process after those of the other. -/
theorem Performs.checked {first rest : Process σ} {steps later : List (σ → Option σ)}
    (h : Performs first steps) (h' : Performs rest later) :
    Performs (checked first rest) (steps ++ later) where
  reached s script := by
    obtain ⟨hzero, hrest⟩ | ⟨-, -, hsame⟩ := checked_cases first rest s script
    · obtain ⟨done, hfirst, hdone⟩ := h'.reached (first s script).2.1 (first s script).2.2
      refine ⟨steps ++ done, (List.prefix_append_right_inj steps).mpr hfirst, ?_⟩
      rw [carryOut_append, h.complete s script hzero, Option.bind_some, hrest, hdone]
    · obtain ⟨done, hfirst, hdone⟩ := h.reached s script
      exact ⟨done, hfirst.trans (List.prefix_append _ _), by rw [hsame, hdone]⟩
  complete s script hzero := by
    obtain ⟨hfirst, hrest⟩ | ⟨-, hne, -⟩ := checked_cases first rest s script
    · rw [hrest] at hzero ⊢
      rw [carryOut_append, h.complete s script hfirst, Option.bind_some]
      exact h'.complete _ _ hzero
    · exact absurd hzero hne
  unfailing s t hall := by
    rw [carryOut_append] at hall
    obtain ⟨r, hsteps, hlater⟩ := Option.bind_eq_some_iff.mp hall
    unfold ResumableSteps.checked
    rw [h.unfailing s r hsteps]
    exact h'.unfailing r t hlater
  passes s t hall left := by
    rw [carryOut_append] at hall
    obtain ⟨r, hsteps, hlater⟩ := Option.bind_eq_some_iff.mp hall
    obtain ⟨script', hscript'⟩ := h'.passes r t hlater left
    obtain ⟨script, hscript⟩ := h.passes s r hsteps script'
    exact ⟨script, by rw [checked_of_zero hscript, hscript']⟩
  stops s t done hfirst hdone := by
    -- the second process stops, also where it has not taken a step yet
    have hbehind (done' : List (σ → Option σ)) (hfirst' : done' <+: later)
        (hdone' : carryOut (steps ++ done') s = some t) : steps ++ done' = steps ++ later ∨
          ∃ script, (ResumableSteps.checked first rest s script).1 = .stopped ∧
            (ResumableSteps.checked first rest s script).2.1 = t := by
      rw [carryOut_append] at hdone'
      obtain ⟨r, hsteps, hlater⟩ := Option.bind_eq_some_iff.mp hdone'
      obtain rfl | ⟨script', hscript'⟩ := h'.stops r t done' hfirst' hlater
      · exact .inl rfl
      · obtain ⟨script, hscript⟩ := h.passes s r hsteps script'
        exact .inr ⟨script, by rwa [checked_of_zero hscript]⟩
    rcases List.prefix_or_prefix_of_prefix hfirst (List.prefix_append steps later) with
      hbefore | ⟨done', rfl⟩
    · obtain rfl | ⟨script, hstopped, ht⟩ := h.stops s t done hbefore hdone
      · have hnone := hbehind [] List.nil_prefix
        rw [List.append_nil] at hnone
        exact hnone hdone
      · refine .inr ⟨script, ?_⟩
        rw [checked_of_stopped hstopped]
        exact ⟨rfl, ht⟩
    · exact hbehind done' ((List.prefix_append_right_inj steps).mp hfirst) hdone

/-- Where a process can end: behind each of its steps. -/
theorem Performs.ends_iff {p : Process σ} {steps : List (σ → Option σ)} (h : Performs p steps)
    {s t : σ} : (∃ script, (p s script).2.1 = t) ↔
      ∃ done, done <+: steps ∧ carryOut done s = some t := by
  constructor
  · rintro ⟨script, rfl⟩
    exact h.reached s script
  · rintro ⟨done, hfirst, hdone⟩
    obtain rfl | ⟨script, -, ht⟩ := h.stops s t done hfirst hdone
    · obtain ⟨script, hscript⟩ := h.passes s t hdone []
      exact ⟨script, by rw [hscript]⟩
    · exact ⟨script, ht⟩

end TelemetryPlatform.ResumableSteps

import Mathlib.Data.List.Basic

/-!
# Memory behind one lock

A thread that holds the lock does the operations of its section one by one, on
the memory behind the lock and on registers of its own; the others wait. A
section counts from its release on. Whatever the threads do in between, the
memory is then what the sections leave when they are done one after the other,
each as a whole, and the registers are what the section reads in this order.
-/

namespace TelemetryPlatform.CriticalSections

variable {τ ω μ ρ : Type*}

/-- What a thread does while it holds the lock. -/
structure Section (τ ω ρ : Type*) where
  /-- The thread. -/
  thread : τ
  /-- Its registers at the beginning. -/
  regs : ρ
  /-- Its operations. -/
  ops : List ω

/-- The memory and the section whose thread holds the lock, with its registers
and the operations that are left. -/
structure Locked (τ ω μ ρ : Type*) where
  /-- The memory behind the lock. -/
  memory : μ
  /-- What the holder of the lock still has to do. -/
  holder : Option (Section τ ω ρ)

/-- Take the lock for a section, where it is free. -/
def Locked.acquire (o : Locked τ ω μ ρ) (sec : Section τ ω ρ) : Option (Locked τ ω μ ρ) :=
  if o.holder.isSome = true then none else some { o with holder := some sec }

/-- Do the next operation of a section. -/
def Locked.operate [DecidableEq τ] (act : ω → μ × ρ → μ × ρ) (o : Locked τ ω μ ρ) (thread : τ) :
    Option (Locked τ ω μ ρ) :=
  match o.holder with
  | some ⟨t, regs, op :: todo⟩ =>
    if t = thread then
      let (memory, regs) := act op (o.memory, regs)
      some ⟨memory, some ⟨t, regs, todo⟩⟩
    else none
  | _ => none

/-- Give the lock back after the last operation; the registers remain. -/
def Locked.release [DecidableEq τ] (o : Locked τ ω μ ρ) (thread : τ) :
    Option (ρ × Locked τ ω μ ρ) :=
  match o.holder with
  | some ⟨t, regs, []⟩ => if t = thread then some (regs, { o with holder := none }) else none
  | _ => none

/-- How many operations the holder of the lock still has to do. -/
def Locked.left (o : Locked τ ω μ ρ) : ℕ := (o.holder.map fun sec => sec.ops.length).getD 0

variable (act : ω → μ × ρ → μ × ρ)

/-- All operations, one after the other. -/
def doAll (ops : List ω) (x : μ × ρ) : μ × ρ := ops.foldl (fun x op => act op x) x

/-- Operations are done one part after the other. -/
theorem doAll_append (ops later : List ω) (x : μ × ρ) :
    doAll act (ops ++ later) x = doAll act later (doAll act ops x) :=
  List.foldl_append

/-- The released sections have left this memory, and the given section, if any,
holds the lock and has done its first operations on it. -/
def Serial (o : Locked τ ω μ ρ) (before : μ) : Option (Section τ ω ρ) → Prop
  | none => o.holder = none ∧ o.memory = before
  | some sec => ∃ regs done todo, o.holder = some ⟨sec.thread, regs, todo⟩ ∧
      sec.ops = done ++ todo ∧ (o.memory, regs) = doAll act done (before, sec.regs)

variable {act} {o o' : Locked τ ω μ ρ} {before : μ} {sec : Section τ ω ρ}

/-- The memory before any section. -/
theorem serial_init (m : μ) : Serial act (⟨m, none⟩ : Locked τ ω μ ρ) m none := ⟨rfl, rfl⟩

/-- Only one section is under way. -/
theorem Serial.acquire {current : Option (Section τ ω ρ)} (h : Serial act o before current)
    (hstep : o.acquire sec = some o') : current = none ∧ Serial act o' before (some sec) := by
  rw [Locked.acquire] at hstep
  split_ifs at hstep with hfree
  cases hstep
  cases current with
  | none => exact ⟨rfl, sec.regs, [], sec.ops, rfl, rfl, by rw [h.2]; rfl⟩
  | some other =>
    obtain ⟨regs, done, todo, hholder, -⟩ := h
    rw [hholder] at hfree
    exact absurd rfl hfree

/-- An operation belongs to the section that is under way. -/
theorem Serial.operate [DecidableEq τ] {current : Option (Section τ ω ρ)} {thread : τ}
    (h : Serial act o before current) (hstep : o.operate act thread = some o') :
    ∃ sec, current = some sec ∧ sec.thread = thread ∧ Serial act o' before (some sec) := by
  cases current with
  | none =>
    rw [Locked.operate, h.1] at hstep
    cases hstep
  | some sec =>
    obtain ⟨regs, done, todo, hholder, hops, hdone⟩ := h
    rw [Locked.operate, hholder] at hstep
    cases todo with
    | nil => cases hstep
    | cons op todo =>
      simp only at hstep
      split_ifs at hstep with hthread
      cases hstep
      refine ⟨sec, rfl, hthread, _, done ++ [op], todo, rfl, by rw [hops, List.append_assoc]; rfl, ?_⟩
      rw [doAll_append, ← hdone]
      rfl

/-- The section that gives the lock back counts as a whole. -/
theorem Serial.release [DecidableEq τ] {current : Option (Section τ ω ρ)} {thread : τ} {regs : ρ}
    (h : Serial act o before current) (hstep : o.release thread = some (regs, o')) :
    ∃ sec, current = some sec ∧ sec.thread = thread ∧
      (o'.memory, regs) = doAll act sec.ops (before, sec.regs) ∧ Serial act o' o'.memory none := by
  cases current with
  | none =>
    rw [Locked.release, h.1] at hstep
    cases hstep
  | some sec =>
    obtain ⟨left, done, todo, hholder, hops, hdone⟩ := h
    rw [Locked.release, hholder] at hstep
    cases todo with
    | cons op todo => cases hstep
    | nil =>
      simp only at hstep
      split_ifs at hstep with hthread
      cases hstep
      rw [List.append_nil] at hops
      exact ⟨sec, rfl, hthread, by rw [hops]; exact hdone, rfl, rfl⟩

/-- The section under way always goes on: it has an operation left or gives the
lock back. -/
theorem Serial.goes_on [DecidableEq τ] (h : Serial act o before (some sec)) :
    (o.operate act sec.thread).isSome = true ∨ (o.release sec.thread).isSome = true := by
  obtain ⟨regs, done, todo, hholder, -⟩ := h
  cases todo with
  | nil =>
    right
    rw [Locked.release, hholder]
    simp only [if_true, Option.isSome_some]
  | cons op todo =>
    left
    rw [Locked.operate, hholder]
    simp only [if_true, Option.isSome_some]

/-- Taking the lock brings the operations of the section. -/
theorem left_acquire (hstep : o.acquire sec = some o') : o.left = 0 ∧ o'.left = sec.ops.length := by
  rw [Locked.acquire] at hstep
  split_ifs at hstep with hfree
  cases hstep
  rw [Option.not_isSome_iff_eq_none] at hfree
  exact ⟨by rw [Locked.left, hfree]; rfl, rfl⟩

/-- Each operation leaves one less. -/
theorem left_operate [DecidableEq τ] {thread : τ} (hstep : o.operate act thread = some o') :
    o.left = o'.left + 1 := by
  rw [Locked.operate] at hstep
  split at hstep
  · next t regs op todo hholder =>
    split_ifs at hstep
    cases hstep
    rw [Locked.left, hholder]
    rfl
  · cases hstep

/-- The lock is given back when none is left. -/
theorem left_release [DecidableEq τ] {thread : τ} {regs : ρ}
    (hstep : o.release thread = some (regs, o')) : o.left = 0 ∧ o'.left = 0 := by
  rw [Locked.release] at hstep
  split at hstep
  · next t regs hholder =>
    split_ifs at hstep
    cases hstep
    exact ⟨by rw [Locked.left, hholder]; rfl, rfl⟩
  · cases hstep

/-- Without a section the lock is free. -/
theorem Serial.free (h : Serial act o before none) (sec : Section τ ω ρ) :
    (o.acquire sec).isSome = true := by
  rw [Locked.acquire, h.1]
  rfl

end TelemetryPlatform.CriticalSections

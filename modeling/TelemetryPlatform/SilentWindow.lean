import TelemetryPlatform.OutageInjection

/-!
# Whether the outage silences the live path

A broadcast looks at the cut window once, when it is called. It then sleeps
for its delay without the mutex, takes the mutex again and sends to one client
after the other, without another look. Its frames stay out of the window where
neither the sleep nor the walk over the list leads into it while a client is
still to be sent to.
-/

namespace TelemetryPlatform.SilentWindow

open CStrings CallStreams GuardedRuns WsFrames WsServer WsSteps WsRecords RecordRelease HandshakeOrder
open BroadcastReach OutageInjection

variable {cfg : WsConfig} {s t : Server} {a : Action}

/-- The time since the anchor lies in the cut window. -/
def InCut (cfg : WsConfig) (s : Server) : Prop :=
  ∃ start, s.anchor = some start ∧ (cfg.cutStartS : ℤ) * 1000000000 ≤ s.clock - start ∧
    s.clock - start < ((cfg.cutStartS : ℤ) + cfg.cutDurationS) * 1000000000

/-- Where the time lies in the window, the window is active. -/
theorem InCut.active (h : InCut cfg s) : impairmentCutActive cfg s = true := by
  obtain ⟨start, hstart, hlow, hhigh⟩ := h
  have hmax : max (s.clock - start) 0 = s.clock - start := by omega
  refine impairmentCutActive_iff.mpr ⟨start, hstart, ?_, ?_⟩
  · rw [hmax]
    exact hlow
  · rw [hmax]
    omega

/-- Whether the broadcast that is being made still has a client to send to. -/
def toSend (s : Server) : Bool :=
  match s.caster with
  | .idle => false
  | .sleeping _ _ => s.clients.any fun j => (s.client j).alive
  | .passing _ _ rest => rest.any fun j => (s.client j).alive
  | .sending _ _ _ _ _ => true

/-- The window is not active when a delayed broadcast that has a client to send
to resumes, and does not become active while a broadcast that has a client to
send to walks the list. -/
def staysOut (cfg : WsConfig) (s : Server) : Action → Bool
  | .caster .proceed =>
    match s.caster with
    | .sleeping _ _ => !(toSend s && impairmentCutActive cfg s)
    | _ => true
  | .clock now => s.muFree || !(toSend s && impairmentCutActive cfg { s with clock := now })
  | _ => true

/-- That condition as a step condition. -/
def StaysOut (cfg : WsConfig) (s : Server) (a : Action) : Prop := staysOut cfg s a = true

instance (cfg : WsConfig) (s : Server) (a : Action) : Decidable (StaysOut cfg s a) :=
  inferInstanceAs (Decidable (_ = true))

/-- While a broadcast walks the list with a client still to be sent to, the
window is not active. -/
def Quiet (cfg : WsConfig) (s : Server) : Prop :=
  s.muFree = false → toSend s = true → impairmentCutActive cfg s = false

/-- The window depends on the clock and the anchor only. -/
theorem cutActive_congr (hclock : t.clock = s.clock) (hanchor : t.anchor = s.anchor) :
    impairmentCutActive cfg t = impairmentCutActive cfg s := by
  simp only [impairmentCutActive, hclock, hanchor]

/-- While a broadcast walks the list, no step of another party brings a client
to send to. -/
theorem toSend_of_step (hknown : Known s) (hmu : s.muFree = false) (hcaster : t.caster = s.caster)
    (hstep : serverStep cfg s a = some t) (hsend : toSend t = true) : toSend s = true := by
  unfold toSend at hsend ⊢
  rw [hcaster] at hsend
  have hwalked := hknown.walked
  cases hpc : s.caster with
  | idle => simp [Server.muFree, hpc] at hmu
  | sleeping msg wakeAt => simp [Server.muFree, hpc] at hmu
  | sending msg visited c rest op => rfl
  | passing msg visited rest =>
    rw [hpc] at hsend hwalked
    obtain ⟨j, hj, halive⟩ := List.any_eq_true.mp hsend
    refine List.any_eq_true.mpr ⟨j, hj, ?_⟩
    have hlt : j < s.accepted := hwalked j (List.mem_append_right _ hj)
    by_contra hne
    have hdead := (dead_of_step hknown hstep hlt (Bool.eq_false_of_not_eq_true hne)).2
    rw [halive] at hdead
    cases hdead

/-- A step of another party leaves a broadcast that walks the list out of the window. -/
theorem Quiet.other (h : Quiet cfg s) (hknown : Known s) (hclock : ∀ now, a ≠ .clock now)
    (hbroadcast : broadcasts a = false) (hown : ∀ input, a ≠ .caster input)
    (hstep : serverStep cfg s a = some t) : Quiet cfg t := by
  have hcaster : t.caster = s.caster := by
    refine caster_of_step hown (fun msg dropRoll jitterRoll ha => ?_) hstep
    rw [ha] at hbroadcast
    cases hbroadcast
  intro hmu hsend
  have hmu' : s.muFree = false := by rwa [Server.muFree, hcaster] at hmu
  have hanchors : anchors (s, a) = false := Bool.eq_false_of_not_eq_true fun hset => by
    rw [(anchorStep_eq hset hstep).1] at hmu'
    cases hmu'
  obtain ⟨hsame, hanchor, -⟩ := cutKept_of_step hclock hbroadcast hanchors hstep
  rw [cutActive_congr hsame hanchor]
  exact h hmu' (toSend_of_step hknown hmu' hcaster hstep hsend)

/-- A broadcast that is let in walks the list outside of the window. -/
theorem quiet_broadcast {msg : Bytes} {dropRoll : ℕ} (hidle : s.caster = .idle)
    (hstep : BroadcastStep cfg s msg dropRoll t) : Quiet cfg t := by
  intro hmu hsend
  cases hstep with
  | closes =>
    rw [(wsCloseAllClients_frame s.clients { s with cutMsgs := s.cutMsgs + 1 }).1] at hmu
    simp [Server.muFree, hidle] at hmu
  | suppressed => simp [Server.muFree, hidle] at hmu
  | dropped => simp [Server.muFree, hidle] at hmu
  | sleeps => simp [Server.muFree] at hmu
  | walks hcut => exact Bool.eq_false_of_not_eq_true hcut

/-- A broadcast that resumes outside of the window walks the list there. -/
theorem Quiet.caster {input : CasterInput} (h : Quiet cfg s) (hok : StaysOut cfg s (.caster input))
    (hstep : CasterStep s input t) : Quiet cfg t := by
  intro hmu hsend
  cases hstep with
  | wakes msg wakeAt hcaster hclock =>
    simp only [StaysOut, staysOut, hcaster, Bool.not_eq_true'] at hok
    have hbefore : toSend s = true := by simpa only [toSend, hcaster] using hsend
    rw [hbefore, Bool.true_and] at hok
    exact hok
  | ends => simp [Server.muFree] at hmu
  | starts msg visited c rest hcaster halive =>
    refine h (by rw [Server.muFree, hcaster]) ?_
    simp only [toSend, hcaster, List.any_cons, halive, Bool.true_or]
  | releases msg visited c rest hcaster hdead =>
    have hbefore := h (by rw [Server.muFree, hcaster])
    rw [release_eq] at hsend ⊢
    simp only [toSend, hcaster, List.any_cons] at hbefore
    refine hbefore ?_
    obtain ⟨j, hj, halive⟩ := List.any_eq_true.mp hsend
    refine Bool.or_eq_true_iff.mpr (.inr (List.any_eq_true.mpr ⟨j, hj, ?_⟩))
    rw [release_client] at halive
    by_cases hjc : j = c
    · rwa [hjc, Function.update_self, ← hjc] at halive
    · rwa [Function.update_of_ne hjc] at halive
  | completes msg visited c rest op n k buffer later hcaster =>
    exact h (by rw [Server.muFree, hcaster]) (by rw [toSend, hcaster])
  | sends msg visited c rest op n k buffer later hcaster =>
    exact h (by rw [Server.muFree, hcaster]) (by rw [toSend, hcaster])
  | fails msg visited c rest op hcaster =>
    have hbefore := h (by rw [Server.muFree, hcaster]) (by rw [toSend, hcaster])
    rw [release_eq]
    exact hbefore

/-- Every step that meets the condition leaves the broadcast out of the window. -/
theorem Quiet.step (h : Quiet cfg s) (hknown : Known s) (hok : StaysOut cfg s a)
    (hstep : serverStep cfg s a = some t) : Quiet cfg t := by
  cases serverStep_cases hstep with
  | clock now hle =>
    intro hmu hsend
    have hmu' : s.muFree = false := hmu
    have hsend' : toSend s = true := hsend
    simp only [StaysOut, staysOut, hmu', hsend', Bool.false_or, Bool.true_and,
      Bool.not_eq_true'] at hok
    exact hok
  | acceptor input _ hacceptor => exact h.other hknown (by nofun) rfl (by nofun) hstep
  | client i input _ hclient => exact h.other hknown (by nofun) rfl (by nofun) hstep
  | broadcast msg dropRoll jitterRoll _ hidle hbroadcast => exact quiet_broadcast hidle hbroadcast
  | caster input _ hcaster => exact h.caster hok hcaster
  | stop _ hstop => exact h.other hknown (by nofun) rfl (by nofun) hstep

/-- In every run that meets the condition no broadcast that walks the list with
a client to send to is in the window. -/
theorem quiet_of_run {actions : List Action}
    (hrun : Run (serverStep cfg) (StaysOut cfg) Server.init actions s) : Quiet cfg s := by
  induction hrun with
  | nil => exact nofun
  | snoc hrun hok hstep ih => exact ih.step (known_of_run hrun) hok hstep

/-- In every run in which no broadcast with a client to send to is carried into
the window by its sleep or by its walk, no part of a live frame is written to
any client in the window. -/
theorem cut_silences_live {actions : List Action}
    (hrun : Run (serverStep cfg) (StaysOut cfg) Server.init actions s) {n : ℕ}
    (hwrite : serverStep cfg s (.caster (.wrote n)) = some t) : ¬ InCut cfg s := by
  intro hcut
  have hsending : s.muFree = false ∧ toSend s = true := by
    cases serverStep_cases hwrite with
    | caster _ _ hcaster =>
      cases hcaster with
      | completes msg visited c rest op n k buffer later hpc =>
        exact ⟨by rw [Server.muFree, hpc], by rw [toSend, hpc]⟩
      | sends msg visited c rest op n k buffer later hpc =>
        exact ⟨by rw [Server.muFree, hpc], by rw [toSend, hpc]⟩
  have hactive := hcut.active
  rw [quiet_of_run hrun hsending.1 hsending.2] at hactive
  cases hactive

/-- A cut window from the first to the third second, and a delay of half a second. -/
def delayedConfig : WsConfig :=
  { plainConfig with delayMs := 500, cutStartS := 1, cutDurationS := 2 }

/-- A broadcast that is called after 400 milliseconds resumes 500 later. -/
def castEarly : List Action :=
  [.clock 400000000, .broadcast (lit "x") 0 0, .clock 900000000, .caster .proceed, .caster .proceed]

/-- A delayed broadcast that ends before the window. -/
theorem cut_silences_live_castEarly :
    ∃ s t, Run (serverStep delayedConfig) (StaysOut delayedConfig) Server.init
        (acceptOne ++ shakeHands ++ castEarly) s ∧
      serverStep delayedConfig s (.caster (.wrote 2)) = some t ∧ ¬ InCut delayedConfig s := by
  have hexec : ((exec (serverStep delayedConfig) (StaysOut delayedConfig) Server.init
      (acceptOne ++ shakeHands ++ castEarly)).bind
        fun s => serverStep delayedConfig s (.caster (.wrote 2))).isSome = true := by
    decide +kernel
  obtain ⟨t, ht⟩ := Option.isSome_iff_exists.mp hexec
  obtain ⟨s, hs, hwrite⟩ := Option.bind_eq_some_iff.mp ht
  have hrun := run_of_exec hs
  exact ⟨s, t, hrun, hwrite, cut_silences_live hrun hwrite⟩

/-- A broadcast that is called before the window resumes in the window. -/
def castLate : List Action :=
  [.clock 900000000, .broadcast (lit "x") 0 0, .clock 1400000000, .caster .proceed, .caster .proceed]

/-- It writes its frame in the window. -/
theorem live_frame_in_cut :
    ∃ s t, Run (serverStep delayedConfig) anyStep Server.init
        (acceptOne ++ shakeHands ++ castLate) s ∧
      serverStep delayedConfig s (.caster (.wrote 2)) = some t ∧
      contents (t.stream 0) = contents (s.stream 0) ++ [0x81, 1] ∧ InCut delayedConfig s := by
  have hexec : ((exec (serverStep delayedConfig) anyStep Server.init
      (acceptOne ++ shakeHands ++ castLate)).bind fun s =>
        (serverStep delayedConfig s (.caster (.wrote 2))).map fun t =>
          (decide (contents (t.stream 0) = contents (s.stream 0) ++ [0x81, 1]), s.anchor, s.clock)) =
      some (true, some 0, 1400000000) := by
    decide +kernel
  obtain ⟨s, hs, hnext⟩ := Option.bind_eq_some_iff.mp hexec
  obtain ⟨t, ht, hfields⟩ := Option.map_eq_some_iff.mp hnext
  obtain ⟨hstream, hanchor, hclock⟩ := Prod.mk.inj hfields |>.imp_right Prod.mk.inj
  refine ⟨s, t, run_of_exec hs, ht, of_decide_eq_true hstream, 0, hanchor, ?_, ?_⟩ <;>
    rw [hclock] <;> decide

end TelemetryPlatform.SilentWindow

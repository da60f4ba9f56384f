import TelemetryPlatform.BatchedWindow
import TelemetryPlatform.UiChanges

/-!
# The buffer of the latest samples

Live samples and the samples of history replies are pushed to one buffer in the
order of their arrival, and the last one pushed is shown as the latest. Until the
buffer is reset the display is in the order of time exactly if every message
follows those before it.
-/

namespace TelemetryPlatform.LatestSamples

open GuardedRuns UiChanges UiSession KeyedWindow BatchedWindow

variable {u u' : Ui} {a : UiAction}

/-- The time of a sample; one without a time counts as the first. -/
def time (s : Sample) : ℤ := s.tNs.getD 0

/-- The samples of a message. -/
def batch : Message → List Sample
  | .telemetry s => [s]
  | .history (some items) => items.filterMap id
  | _ => []

/-- The samples that an action brings, where it is a message. -/
def batchOf : UiAction → Option (List Sample)
  | .socketMessage _ m => some (batch m)
  | _ => none

/-- The samples of the messages, message by message. -/
def batchesOf (actions : List UiAction) : List (List Sample) := actions.filterMap batchOf

/-- An action that neither resets the buffer nor pauses the display. -/
def undisturbed : UiAction → Bool
  | .clickConnect _ => false
  | .clickClear => false
  | .clickPause => false
  | _ => true

/-- The step condition of a run without a reset or a pause. -/
def Undisturbed (_ : Ui) (a : UiAction) : Prop := undisturbed a = true

instance (u : Ui) (a : UiAction) : Decidable (Undisturbed u a) := inferInstanceAs (Decidable (_ = _))

/-- The display is in the order of time, for the samples received so far. -/
structure Chronological (received : List Sample) (u : Ui) : Prop where
  /-- The buffer is not exceeded. -/
  bounded : u.samples.length ≤ maxSamples
  /-- Times never decrease. -/
  ordered : Ordered time u.samples
  /-- No sample is shown twice. -/
  nodup : u.samples.Nodup
  /-- No later sample was received than the one that is shown as the latest. -/
  latest : received ≠ [] →
    ∃ s, u.latest = some s ∧ s ∈ received ∧ ∀ r ∈ received, time r ≤ time s

/-- What the display shows of the samples received so far. -/
structure Displays (received : List Sample) (u : Ui) : Prop where
  /-- The display runs. -/
  running : u.paused = false
  /-- The buffer holds the last samples. -/
  samples : u.samples = lastEntries maxSamples received
  /-- The last of them is shown as the latest. -/
  latest : received ≠ [] → u.latest = received.getLast?

/-- The kinds of changes that do not touch what the display shows. -/
def Kind.keepsDisplay : Kind → Bool
  | .live => false
  | .replay => false
  | .reset => false
  | .latest => false
  | .pause => false
  | _ => true

/-- Changes of these kinds leave the display as it is. -/
theorem Displays.changes {received : List Sample} {kinds : List Kind} (h : Displays received u)
    (hchanges : Changes kinds u u') (hkinds : kinds.all Kind.keepsDisplay = true) :
    Displays received u' := by
  refine hchanges.keeps h fun k hk s t hc hs => ?_
  have hkept := List.all_eq_true.mp hkinds k hk
  cases hc with
  | live s => exact absurd hkept Bool.false_ne_true
  | replay s => exact absurd hkept Bool.false_ne_true
  | reset latest reconnectCount pendingRecovery => exact absurd hkept Bool.false_ne_true
  | latest latest => exact absurd hkept Bool.false_ne_true
  | pause => exact absurd hkept Bool.false_ne_true
  | _ => exact ⟨hs.running, hs.samples, hs.latest⟩

/-- A sample that is pushed to the buffer. -/
theorem pushed (received : List Sample) (h : u.samples = lastEntries maxSamples received)
    (s : Sample) : (pushSample u s).samples = lastEntries maxSamples (received ++ [s]) := by
  unfold pushSample
  dsimp only
  rw [← lastEntries, h, lastEntries_lastEntries_append]

/-- Pushing a sample does not pause the display. -/
theorem paused_pushSample (u : Ui) (s : Sample) : (pushSample u s).paused = u.paused := by
  unfold pushSample
  rfl

/-- The samples of a history reply, one after the other. -/
theorem loaded {received : List Sample} (items : List Sample)
    (h : u.samples = lastEntries maxSamples received) :
    (items.foldl handleHistoryItem u).samples = lastEntries maxSamples (received ++ items) ∧
      (items.foldl handleHistoryItem u).paused = u.paused := by
  induction items generalizing u received with
  | nil => exact ⟨by rw [List.append_nil]; exact h, rfl⟩
  | cons s items ih =>
    have hpushed : (handleHistoryItem u s).samples = lastEntries maxSamples (received ++ [s]) := by
      unfold handleHistoryItem
      exact pushed (u := logUiEvent u _) received h s
    have hsame : (handleHistoryItem u s).paused = u.paused := by
      unfold handleHistoryItem
      exact paused_pushSample _ s
    obtain ⟨hsamples, hpaused⟩ := ih hpushed
    rw [List.foldl_cons, ← List.singleton_append (x := s), ← List.append_assoc]
    exact ⟨hsamples, hpaused.trans hsame⟩

/-- A live sample is shown. -/
theorem Displays.telemetry {received : List Sample} (h : Displays received u) (s : Sample) :
    Displays (received ++ [s]) (handleTelemetry u s) := by
  unfold handleTelemetry
  rw [if_neg (by rw [h.running]; exact Bool.false_ne_true)]
  dsimp only
  refine ⟨?_, ?_, fun _ => ?_⟩
  · rw [paused_pushSample]
    exact h.running
  · rw [pushed received]
    exact h.samples
  · rw [List.getLast?_append, List.getLast?_singleton, Option.some_or]

/-- The samples of a history reply are shown, and the last one pushed as the latest. -/
theorem Displays.history {received : List Sample} (h : Displays received u)
    (items : List (Option Sample)) :
    Displays (received ++ items.filterMap id) (handleHistory u (some items)) := by
  obtain ⟨hsamples, hpaused⟩ := loaded (items.filterMap id) h.samples
  have hrunning := hpaused.trans h.running
  unfold handleHistory
  dsimp only
  split_ifs with hshown
  · refine ⟨hrunning, hsamples, fun _ => ?_⟩
    change ((items.filterMap id).foldl handleHistoryItem u).samples.getLast? = _
    rw [hsamples, getLast?_lastEntries (by decide)]
  · have hempty : lastEntries maxSamples (received ++ items.filterMap id) = [] := by
      by_contra hne
      exact hshown ⟨hrunning, fun hnil => hne (hsamples.symm.trans hnil)⟩
    refine ⟨hrunning, hsamples, fun hne => absurd ?_ hne⟩
    have hlast := getLast?_lastEntries (k := maxSamples) (by decide) (received ++ items.filterMap id)
    rw [hempty, List.getLast?_nil] at hlast
    exact List.getLast?_eq_none_iff.mp hlast.symm

/-- A message shows its samples. -/
theorem Displays.message {received : List Sample} (h : Displays received u) (m : Message) :
    Displays (received ++ batch m) (onMessage u m) := by
  have hnone : received ++ [] = received := List.append_nil received
  cases m with
  | status => exact hnone.symm ▸ h
  | other => exact hnone.symm ▸ h
  | error => exact hnone.symm ▸ ⟨h.running, h.samples, h.latest⟩
  | telemetry s => exact h.telemetry s
  | history items =>
    cases items with
    | none => exact hnone.symm ▸ ⟨h.running, h.samples, h.latest⟩
    | some items =>
      have hshown := h.history items
      exact ⟨hshown.running, hshown.samples, hshown.latest⟩

/-- A step shows the samples that it brings. -/
theorem Displays.step {received : List Sample} (h : Displays received u) (hok : Undisturbed u a)
    (hstep : uiStep u a = some u') : Displays (received ++ (batchOf a).getD []) u' := by
  have hnone : received ++ [] = received := List.append_nil received
  cases a with
  | clickConnect creates => exact absurd hok Bool.false_ne_true
  | clickPause => exact absurd hok Bool.false_ne_true
  | clickClear => exact absurd hok Bool.false_ne_true
  | clickDisconnect => exact hnone.symm ▸ h.changes (changes_of_step hstep) rfl
  | clickHistory => exact hnone.symm ▸ h.changes (changes_of_step hstep) rfl
  | input lastN => exact hnone.symm ▸ h.changes (changes_of_step hstep) rfl
  | timer id creates => exact hnone.symm ▸ h.changes (changes_of_step hstep) rfl
  | socketOpen i => exact hnone.symm ▸ h.changes (changes_of_step hstep) rfl
  | socketClose i => exact hnone.symm ▸ h.changes (changes_of_step hstep) rfl
  | socketError i => exact hnone.symm ▸ h.changes (changes_of_step hstep) rfl
  | socketMessage i m =>
    rw [uiStep, Option.ite_none_right_eq_some] at hstep
    cases hstep.2
    exact h.message m

/-- Throughout a run the display shows the samples received so far. -/
theorem displays_of_run {actions : List UiAction} (hsamples : u.samples = [])
    (hpaused : u.paused = false) (hrun : Run uiStep Undisturbed u actions u') :
    Displays (batchesOf actions).flatten u' := by
  induction hrun with
  | nil => exact ⟨hpaused, hsamples, fun hne => absurd rfl hne⟩
  | @snoc actions s t a _ hok hstep ih =>
    have hnext := ih.step hok hstep
    have hflatten : (batchesOf (actions ++ [a])).flatten =
        (batchesOf actions).flatten ++ (batchOf a).getD [] := by
      rw [batchesOf, List.filterMap_append, List.flatten_append]
      congr 1
      cases hbatch : batchOf a <;> simp [List.filterMap, hbatch]
    rw [hflatten]
    exact hnext

/-- Such a display is in the order of time where its window is up to date. -/
theorem Displays.chronological_iff {received : List Sample} (h : Displays received u) :
    Chronological received u ↔ UpToDate time maxSamples received := by
  constructor
  · intro hview
    refine ⟨h.samples ▸ hview.ordered, h.samples ▸ hview.nodup, fun b hb a ha => ?_⟩
    have hne := List.ne_nil_of_mem ha
    obtain ⟨s, hs, -, hgreatest⟩ := hview.latest hne
    rw [h.latest hne, hb] at hs
    cases hs
    exact hgreatest a ha
  · intro hwindow
    refine ⟨?_, h.samples ▸ hwindow.ordered, h.samples ▸ hwindow.nodup, fun hne => ?_⟩
    · rw [h.samples, length_lastEntries]
      exact Nat.min_le_left _ _
    · obtain ⟨s, hs⟩ := Option.ne_none_iff_exists'.mp (mt List.getLast?_eq_none_iff.mp hne)
      exact ⟨s, (h.latest hne).trans hs, List.mem_of_getLast? hs, hwindow.greatest s hs⟩

/-- Until the buffer is reset, and while the display runs, the display is in the
order of time after every step, exactly if every message follows those before
it: it starts at the latest time or, with a whole buffer of samples, ends there,
and it brings no sample twice and none that is still in the buffer. -/
theorem latest_samples_chronological_iff {u v : Ui} {actions : List UiAction}
    (hsamples : u.samples = []) (hpaused : u.paused = false)
    (hrun : Run uiStep Undisturbed u actions v)
    (hordered : ∀ b ∈ batchesOf actions, Ordered time b) :
    (∀ earlier s, earlier <+: actions → Run uiStep Undisturbed u earlier s →
        Chronological (batchesOf earlier).flatten s) ↔
      ∀ earlier b, earlier ++ [b] <+: batchesOf actions →
        Follows time maxSamples earlier.flatten b := by
  rw [← upToDate_batches_iff hordered]
  constructor
  · intro hall batches hfirst
    obtain ⟨earlier, hearlier, rfl⟩ := List.prefix_filterMap_iff.mp hfirst
    obtain ⟨later, rfl⟩ := hearlier
    obtain ⟨s, hleft, -⟩ := hrun.split
    exact (displays_of_run hsamples hpaused hleft).chronological_iff.mp
      (hall earlier s (List.prefix_append _ _) hleft)
  · intro hall earlier s hfirst hleft
    exact (displays_of_run hsamples hpaused hleft).chronological_iff.mpr
      (hall (batchesOf earlier) (hfirst.filterMap batchOf))

/-- A connection that opens. -/
def opening : List UiAction := [.clickConnect true, .socketOpen 0]

/-- A live sample. -/
def liveSample : List UiAction := [.socketMessage 0 (.telemetry ⟨some 10, some 10⟩)]

/-- A live sample and a history reply with two later ones behind it. -/
def liveThenReply : List UiAction :=
  liveSample ++
    [.socketMessage 0 (.history (some [some ⟨some 11, some 11⟩, some ⟨some 12, some 12⟩]))]

/-- The reply follows the live sample, and the display is in the order of time. -/
theorem latest_samples_chronological_iff_reply :
    ∃ u v, Run uiStep anyStep Ui.init opening u ∧ Run uiStep Undisturbed u liveThenReply v ∧
      v.samples = [⟨some 10, some 10⟩, ⟨some 11, some 11⟩, ⟨some 12, some 12⟩] ∧
      Chronological (batchesOf liveThenReply).flatten v := by
  have hexec : ((exec uiStep anyStep Ui.init opening).bind fun u =>
      (exec uiStep Undisturbed u liveThenReply).map fun v => (u.samples, u.paused, v.samples)) =
      some ([], false, [⟨some 10, some 10⟩, ⟨some 11, some 11⟩, ⟨some 12, some 12⟩]) := by
    decide +kernel
  obtain ⟨u, hu, hnext⟩ := Option.bind_eq_some_iff.mp hexec
  obtain ⟨v, hv, hfields⟩ := Option.map_eq_some_iff.mp hnext
  simp only [Prod.mk.injEq] at hfields
  obtain ⟨hempty, hpaused, hsamples⟩ := hfields
  have hbatches : batchesOf liveThenReply =
      [[⟨some 10, some 10⟩], [⟨some 11, some 11⟩, ⟨some 12, some 12⟩]] := rfl
  have hordered : ∀ b ∈ batchesOf liveThenReply, Ordered time b := by
    rw [hbatches]
    intro b hb
    rcases List.mem_pair.mp hb with rfl | rfl
    · exact List.pairwise_singleton _ _
    · exact List.pairwise_pair.mpr (by decide)
  have hfollows : ∀ earlier b, earlier ++ [b] <+: batchesOf liveThenReply →
      Follows time maxSamples earlier.flatten b := by
    rintro earlier b ⟨rest, hrest⟩
    rw [hbatches] at hrest
    unfold Follows
    rcases earlier with _ | ⟨first, _ | ⟨second, earlier⟩⟩
    · cases hrest
      rw [if_pos (by decide)]
      exact ⟨fun x _ y hy => absurd hy List.not_mem_nil, List.nodup_singleton _,
        fun x _ hx => absurd hx List.not_mem_nil⟩
    · cases hrest
      rw [if_pos (by decide)]
      refine ⟨fun x hx y hy => ?_, by decide, fun x hx hold => ?_⟩
      · cases hx
        rw [List.mem_singleton.mp hy]
        decide
      · rw [List.mem_singleton.mp hold] at hx
        exact absurd hx (by decide)
    · have hlen := congrArg List.length hrest
      simp only [List.cons_append, List.length_cons, List.length_append, List.length_nil] at hlen
      omega
  exact ⟨u, v, run_of_exec hu, run_of_exec hv, hsamples,
    (latest_samples_chronological_iff hempty hpaused (run_of_exec hv) hordered).mpr hfollows
      liveThenReply v (List.prefix_refl _) (run_of_exec hv)⟩

/-- A live sample and a history reply with two older ones behind it. -/
def lateReply : List UiAction :=
  liveSample ++
    [.socketMessage 0 (.history (some [some ⟨some 8, some 8⟩, some ⟨some 9, some 9⟩]))]

/-- The buffer is out of order, and an old sample is shown as the latest. -/
theorem late_reply_shown_as_latest :
    ∃ u v, Run uiStep anyStep Ui.init opening u ∧ u.samples = [] ∧ u.paused = false ∧
      Run uiStep Undisturbed u lateReply v ∧
      v.samples = [⟨some 10, some 10⟩, ⟨some 8, some 8⟩, ⟨some 9, some 9⟩] ∧
      v.latest = some ⟨some 9, some 9⟩ ∧ ¬ Chronological (batchesOf lateReply).flatten v := by
  have hexec : ((exec uiStep anyStep Ui.init opening).bind fun u =>
      (exec uiStep Undisturbed u lateReply).map fun v =>
        (u.samples, u.paused, v.samples, v.latest)) =
      some ([], false, [⟨some 10, some 10⟩, ⟨some 8, some 8⟩, ⟨some 9, some 9⟩],
        some ⟨some 9, some 9⟩) := by
    decide +kernel
  obtain ⟨u, hu, hnext⟩ := Option.bind_eq_some_iff.mp hexec
  obtain ⟨v, hv, hfields⟩ := Option.map_eq_some_iff.mp hnext
  simp only [Prod.mk.injEq] at hfields
  obtain ⟨hempty, hpaused, hsamples, hlatest⟩ := hfields
  refine ⟨u, v, run_of_exec hu, hempty, hpaused, run_of_exec hv, hsamples, hlatest, fun h => ?_⟩
  have hordered := h.ordered
  rw [hsamples] at hordered
  have htimes := List.rel_of_pairwise_cons hordered List.mem_cons_self
  exact absurd htimes (by decide)

end TelemetryPlatform.LatestSamples

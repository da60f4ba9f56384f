import Mathlib.Data.List.Basic
import Mathlib.Data.List.Nodup

/-!
# Streams of partial writes

Several calls write to one stream, each its own text and in parts of any size.
Every write carries the number of its call. A stream is untorn when it is a
sequence of whole texts with at most one unfinished text behind them. It stays
untorn as long as no call writes while the text of another one is unfinished.
-/

namespace TelemetryPlatform.CallStreams

variable {β : Type*}

/-- One write to a stream. -/
structure Write (β : Type*) where
  /-- Number of the call that writes. -/
  call : ℕ
  /-- What is written. -/
  data : List β

/-- The writes to a stream in their order. -/
abbrev Stream (β : Type*) := List (Write β)

/-- Everything written. -/
def contents (s : Stream β) : List β := s.flatMap Write.data

/-- What one call wrote. -/
def writtenBy (c : ℕ) (s : Stream β) : List β := contents (s.filter fun w => decide (w.call = c))

/-- Everything written after one more write. -/
theorem contents_snoc (s : Stream β) (w : Write β) : contents (s ++ [w]) = contents s ++ w.data := by
  simp [contents]

/-- What a call wrote after a further write of its own. -/
theorem writtenBy_snoc_self (s : Stream β) (c : ℕ) (data : List β) :
    writtenBy c (s ++ [⟨c, data⟩]) = writtenBy c s ++ data := by
  simp [writtenBy, contents]

/-- What a call wrote after a write of another call. -/
theorem writtenBy_snoc_other (s : Stream β) {c d : ℕ} (data : List β) (hne : d ≠ c) :
    writtenBy c (s ++ [⟨d, data⟩]) = writtenBy c s := by
  simp [writtenBy, contents, hne]

/-- A call without a write wrote nothing. -/
theorem writtenBy_eq_nil {s : Stream β} {c : ℕ} (h : ∀ w ∈ s, w.call ≠ c) : writtenBy c s = [] := by
  have hnone : s.filter (fun w => decide (w.call = c)) = [] := by
    rw [List.filter_eq_nil_iff]
    exact fun w hw => by simpa using h w hw
  rw [writtenBy, hnone]
  rfl

/-- A call that wrote all there is. -/
theorem writtenBy_eq_contents {s : Stream β} {c : ℕ} (h : ∀ w ∈ s, w.call = c) :
    writtenBy c s = contents s := by
  have hall : s.filter (fun w => decide (w.call = c)) = s := by
    rw [List.filter_eq_self]
    exact fun w hw => by simpa using h w hw
  rw [writtenBy, hall]

/-- What a call wrote to two streams, one behind the other. -/
theorem writtenBy_append (c : ℕ) (s t : Stream β) :
    writtenBy c (s ++ t) = writtenBy c s ++ writtenBy c t := by
  simp [writtenBy, contents]

/-- A call with a write that is not empty wrote something. -/
theorem writtenBy_ne_nil {s : Stream β} {w : Write β} (hw : w ∈ s) (hdata : w.data ≠ []) :
    writtenBy w.call s ≠ [] := by
  intro hnil
  have hmem : w ∈ s.filter fun w' => decide (w'.call = w.call) := by simp [hw]
  exact hdata (List.flatMap_eq_nil_iff.mp hnil w hmem)

/-- Calls whose texts stand in the stream as a whole, and the unfinished rest. -/
structure Parts (text : ℕ → List β) (s : Stream β) (done : List ℕ) (rest : List β) : Prop where
  /-- No call is finished twice. -/
  nodup : done.Nodup
  /-- The finished calls wrote something. -/
  wrote : ∀ c ∈ done, ∃ w ∈ s, w.call = c
  /-- The finished calls wrote their texts. -/
  finished : ∀ c ∈ done, writtenBy c s = text c
  /-- The stream is the finished texts and the rest. -/
  contents_eq : contents s = done.flatMap text ++ rest
  /-- The rest is empty, or a proper part of the text of one more call. -/
  rest_cases : (rest = [] ∧ ∀ w ∈ s, w.call ∈ done) ∨
    ∃ c, c ∉ done ∧ rest = writtenBy c s ∧ rest ≠ [] ∧ rest <+: text c ∧ rest ≠ text c ∧
      ∀ w ∈ s, w.call ∈ done ∨ w.call = c

/-- Whole texts with at most one unfinished text behind them. -/
def Untorn (text : ℕ → List β) (s : Stream β) : Prop := ∃ done rest, Parts text s done rest

/-- An empty stream is untorn. -/
theorem untorn_nil (text : ℕ → List β) : Untorn text [] :=
  ⟨[], [], .nil, fun _ hc => absurd hc List.not_mem_nil, fun _ hc => absurd hc List.not_mem_nil,
    rfl, .inl ⟨rfl, fun _ hw => absurd hw List.not_mem_nil⟩⟩

/-- Untorn streams depend on the texts of their own calls only. -/
theorem Untorn.congr {text text' : ℕ → List β} {s : Stream β} (h : Untorn text s)
    (hsame : ∀ w ∈ s, text' w.call = text w.call) : Untorn text' s := by
  obtain ⟨done, rest, hparts⟩ := h
  have hdone : ∀ c ∈ done, text' c = text c := by
    intro c hc
    obtain ⟨w, hw, rfl⟩ := hparts.wrote c hc
    exact hsame w hw
  refine ⟨done, rest, hparts.nodup, hparts.wrote, ?_, ?_, ?_⟩
  · intro c hc
    rw [hparts.finished c hc, hdone c hc]
  · rw [hparts.contents_eq, List.flatMap_congr hdone]
  · rcases hparts.rest_cases with hempty | ⟨c, hnot, hrest, hne, hpre, hproper, hcalls⟩
    · exact .inl hempty
    · obtain ⟨w, hw, rfl⟩ : ∃ w ∈ s, w.call = c := by
        by_contra hnone
        rw [writtenBy_eq_nil fun w hw heq => hnone ⟨w, hw, heq⟩] at hrest
        exact hne hrest
      rw [← hsame w hw] at hpre hproper
      exact .inr ⟨w.call, hnot, hrest, hne, hpre, hproper, hcalls⟩

/-- A call whose text is finished, or the one that is not yet, after a write
that continues the rest. -/
theorem Parts.extend {text : ℕ → List β} {s : Stream β} {done : List ℕ} {rest : List β} {c : ℕ}
    {data : List β} (h : Parts text s done rest) (hnot : c ∉ done) (hrest : rest = writtenBy c s)
    (hcalls : ∀ w ∈ s, w.call ∈ done ∨ w.call = c) (hne : data ≠ [])
    (hpre : writtenBy c s ++ data <+: text c) : Untorn text (s ++ [⟨c, data⟩]) := by
  have hgrown := writtenBy_snoc_self s c data
  have hold : ∀ d ∈ done, writtenBy d (s ++ [⟨c, data⟩]) = text d := by
    intro d hd
    have hother : c ≠ d := fun heq => hnot (heq ▸ hd)
    rw [writtenBy_snoc_other s data hother]
    exact h.finished d hd
  have hmem : ∀ w ∈ s ++ [⟨c, data⟩], w.call ∈ done ∨ w.call = c := by
    intro w hw
    rcases List.mem_append.mp hw with hw | hw
    · exact hcalls w hw
    · rw [List.mem_singleton.mp hw]
      exact .inr rfl
  have hwrote : ∀ d ∈ done, ∃ w ∈ s ++ [⟨c, data⟩], w.call = d := by
    intro d hd
    obtain ⟨w, hw, heq⟩ := h.wrote d hd
    exact ⟨w, List.mem_append_left _ hw, heq⟩
  have hcontents : contents (s ++ [⟨c, data⟩]) = done.flatMap text ++ (writtenBy c s ++ data) := by
    rw [contents_snoc, h.contents_eq, hrest, List.append_assoc]
  by_cases hfull : writtenBy c s ++ data = text c
  · refine ⟨done ++ [c], [], ?_, ?_, ?_, ?_, .inl ⟨rfl, fun w hw => ?_⟩⟩
    · rw [List.nodup_append]
      refine ⟨h.nodup, List.nodup_singleton c, fun a ha b hb heq => hnot ?_⟩
      rw [← List.mem_singleton.mp hb, ← heq]
      exact ha
    · intro d hd
      rcases List.mem_append.mp hd with hd | hd
      · exact hwrote d hd
      · exact ⟨⟨c, data⟩, by simp, (List.mem_singleton.mp hd).symm⟩
    · intro d hd
      rcases List.mem_append.mp hd with hd | hd
      · exact hold d hd
      · rw [List.mem_singleton.mp hd, hgrown, hfull]
    · rw [hcontents, hfull, List.flatMap_append, List.flatMap_singleton, List.append_nil]
    · rw [List.mem_append, List.mem_singleton]
      exact hmem w hw
  · refine ⟨done, _, h.nodup, hwrote, hold, hcontents, .inr ⟨c, hnot, hgrown.symm, ?_, hpre, hfull,
      hmem⟩⟩
    exact fun hnil => hne (List.append_eq_nil_iff.mp hnil).2

/-- A write of a further part of a text, while all other texts in the stream
are finished, leaves the stream untorn. -/
theorem Untorn.write {text : ℕ → List β} {s : Stream β} {c : ℕ} {data : List β}
    (h : Untorn text s) (hne : data ≠ []) (hpre : writtenBy c s ++ data <+: text c)
    (hothers : ∀ w ∈ s, w.call ≠ c → writtenBy w.call s = text w.call) :
    Untorn text (s ++ [⟨c, data⟩]) := by
  obtain ⟨done, rest, hparts⟩ := h
  have hnot : c ∉ done := by
    intro hc
    rw [hparts.finished c hc] at hpre
    have hlen := hpre.length_le
    rw [List.length_append] at hlen
    exact hne (List.length_eq_zero_iff.mp (by omega))
  rcases hparts.rest_cases with ⟨hempty, hcalls⟩ | ⟨d, hd, hrest, hrestNe, -, hproper, hcalls⟩
  · have hnone : writtenBy c s = [] := writtenBy_eq_nil fun w hw heq => hnot (heq ▸ hcalls w hw)
    exact hparts.extend hnot (hempty.trans hnone.symm) (fun w hw => .inl (hcalls w hw)) hne hpre
  · -- the unfinished call has a write in the stream, so it is the writing one
    have heq : d = c := by
      by_contra hother
      obtain ⟨w, hw, rfl⟩ : ∃ w ∈ s, w.call = d := by
        by_contra hnone
        rw [writtenBy_eq_nil fun w hw heq => hnone ⟨w, hw, heq⟩] at hrest
        exact hrestNe hrest
      rw [hothers w hw hother] at hrest
      exact hproper hrest
    rw [heq] at hrest hcalls
    exact hparts.extend hnot hrest hcalls hne hpre

/-- In an untorn stream a call with an unfinished text is the only one. -/
theorem Untorn.others_finished {text : ℕ → List β} {s : Stream β} (h : Untorn text s) {c : ℕ}
    (hc : writtenBy c s ≠ []) (hproper : writtenBy c s ≠ text c) :
    ∀ w ∈ s, w.call ≠ c → writtenBy w.call s = text w.call := by
  obtain ⟨done, rest, hparts⟩ := h
  have hnot : c ∉ done := fun hin => hproper (hparts.finished c hin)
  obtain ⟨w₀, hw₀, hcall⟩ : ∃ w ∈ s, w.call = c := by
    by_contra hnone
    exact hc (writtenBy_eq_nil fun w hw heq => hnone ⟨w, hw, heq⟩)
  intro w hw hne
  rcases hparts.rest_cases with ⟨-, hcalls⟩ | ⟨d, -, -, -, -, -, hcalls⟩
  · exact hparts.finished w.call (hcalls w hw)
  · have hd : c = d := by
      have := hcalls w₀ hw₀
      rw [hcall] at this
      exact this.resolve_left hnot
    rcases hcalls w hw with hin | heq
    · exact hparts.finished w.call hin
    · exact absurd (heq.trans hd.symm) hne

/-- In an untorn stream the unfinished text of a call stands at the end. -/
theorem Untorn.unfinished_suffix {text : ℕ → List β} {s : Stream β} (h : Untorn text s) {c : ℕ}
    (hproper : writtenBy c s ≠ text c) : writtenBy c s <:+ contents s := by
  obtain ⟨done, rest, hparts⟩ := h
  have hnot : c ∉ done := fun hin => hproper (hparts.finished c hin)
  by_cases hc : writtenBy c s = []
  · rw [hc]
    exact List.nil_suffix
  · obtain ⟨w, hw, hcall⟩ : ∃ w ∈ s, w.call = c := by
      by_contra hnone
      exact hc (writtenBy_eq_nil fun w hw heq => hnone ⟨w, hw, heq⟩)
    have hrest : rest = writtenBy c s := by
      rcases hparts.rest_cases with ⟨-, hcalls⟩ | ⟨d, -, hrest, -, -, -, hcalls⟩
      · exact absurd (hcall ▸ hcalls w hw) hnot
      · have hd : c = d := (hcall ▸ hcalls w hw).resolve_left hnot
        rw [hd]
        exact hrest
    rw [hparts.contents_eq, hrest]
    exact List.suffix_append _ _

end TelemetryPlatform.CallStreams

import Mathlib.Data.List.DropRight
import TelemetryPlatform.HttpHandshake

/-!
# The lines of a request header

A header is a sequence of lines that an empty line ends. The loop over the
header finds the value of the first line with the given name that has anything
behind its colon.
-/

namespace TelemetryPlatform.HeaderLines

open CStrings HttpHandshake WsFrames

/-- The lines of a text; the last one is what follows the last line end. -/
def splitCrlf : Bytes → List Bytes
  | [] => [[]]
  | [b] => [[b]]
  | b :: c :: s =>
    if b = 13 ∧ c = 10 then [] :: splitCrlf s else (splitCrlf (c :: s)).modifyHead (b :: ·)

/-- A line starts with the first two bytes of a line end, or it does not. -/
theorem crlf_prefix_iff (b c : UInt8) (s : Bytes) : crlf <+: b :: c :: s ↔ b = 13 ∧ c = 10 := by
  rw [crlf, List.cons_prefix_cons, List.cons_prefix_cons]
  exact ⟨fun h => ⟨h.1.symm, h.2.1.symm⟩, fun h => ⟨h.1.symm, h.2.symm, List.nil_prefix⟩⟩

/-- A text has a line. -/
theorem splitCrlf_ne_nil (s : Bytes) : splitCrlf s ≠ [] := by
  fun_induction splitCrlf s with
  | case1 => exact List.cons_ne_nil _ _
  | case2 b => exact List.cons_ne_nil _ _
  | case3 b c s hend ih => exact List.cons_ne_nil _ _
  | case4 b c s hend ih =>
    rw [Ne, List.modifyHead_eq_nil_iff]
    exact ih

/-- The search for a line end, byte by byte. -/
theorem strstr_crlf_cons (b c : UInt8) (s : Bytes) :
    strstr crlf (b :: c :: s) =
      if b = 13 ∧ c = 10 then some (b :: c :: s) else strstr crlf (c :: s) := by
  rw [strstr]
  refine if_congr ?_ rfl rfl
  rw [List.isPrefixOf_iff_prefix, crlf_prefix_iff]

/-- Where a line end is found, the text in front of it is the first line. -/
theorem splitCrlf_of_strstr {p lineEnd : Bytes} (h : strstr crlf p = some lineEnd) :
    splitCrlf p = p.take (p.length - lineEnd.length) :: splitCrlf (lineEnd.drop 2) := by
  fun_induction splitCrlf p with
  | case1 => cases h
  | case2 b =>
    have hlen := (strstr_eq_some h).1.length_le.trans (strstr_eq_some h).2.length_le
    exact absurd hlen (by simp [crlf])
  | case3 b c s hend ih =>
    rw [strstr_crlf_cons, if_pos hend] at h
    cases h
    rw [Nat.sub_self, List.take_zero]
    rfl
  | case4 b c s hend ih =>
    rw [strstr_crlf_cons, if_neg hend] at h
    have hle := (strstr_eq_some h).2.length_le
    have hlen : (b :: c :: s).length - lineEnd.length = (c :: s).length - lineEnd.length + 1 := by
      rw [List.length_cons]
      omega
    rw [ih h, hlen, List.take_succ_cons]
    rfl

/-- Where none is found, the text is the only line. -/
theorem splitCrlf_of_none {p : Bytes} (h : strstr crlf p = none) : splitCrlf p = [p] := by
  fun_induction splitCrlf p with
  | case1 => rfl
  | case2 b => rfl
  | case3 b c s hend ih =>
    rw [strstr_crlf_cons, if_pos hend] at h
    cases h
  | case4 b c s hend ih =>
    rw [strstr_crlf_cons, if_neg hend] at h
    rw [ih h]
    rfl

/-- More text leaves the lines as they are that have ended. -/
theorem dropLast_splitCrlf_append (s t : Bytes) :
    (splitCrlf s).dropLast <+: splitCrlf (s ++ t) := by
  fun_induction splitCrlf s with
  | case1 => exact List.nil_prefix
  | case2 b => exact List.nil_prefix
  | case3 b c s hend ih =>
    rw [List.dropLast_cons_of_ne_nil (splitCrlf_ne_nil s)]
    change _ <+: splitCrlf (b :: c :: (s ++ t))
    rw [splitCrlf, if_pos hend]
    exact List.cons_prefix_cons.mpr ⟨rfl, ih⟩
  | case4 b c s hend ih =>
    change _ <+: splitCrlf (b :: c :: (s ++ t))
    rw [splitCrlf, if_neg hend]
    change (splitCrlf (c :: s)).dropLast <+: splitCrlf (c :: (s ++ t)) at ih
    obtain ⟨line, lines, hlines⟩ := List.exists_cons_of_ne_nil (splitCrlf_ne_nil (c :: s))
    rw [hlines] at ih ⊢
    cases lines with
    | nil => exact List.nil_prefix
    | cons next lines =>
      obtain ⟨more, hmore⟩ := ih
      rw [← hmore]
      exact ⟨more, rfl⟩

/-- The end of a header is an empty line behind the first one. -/
theorem nil_mem_splitCrlf {s : Bytes} (h : crlfCrlf <:+: s) :
    [] ∈ (splitCrlf s).tail.dropLast := by
  fun_induction splitCrlf s with
  | case1 => exact absurd h.length_le (by decide)
  | case2 b => exact absurd h.length_le (by simp [crlfCrlf])
  | case3 b c s hend ih =>
    obtain ⟨rfl, rfl⟩ := hend
    rw [List.tail_cons]
    rcases List.infix_cons_iff.mp h with hhere | hlater
    · obtain ⟨rest, hrest⟩ := hhere
      have hs : s = 13 :: 10 :: rest := (List.cons.inj (List.cons.inj hrest).2).2.symm
      rw [hs, splitCrlf, if_pos ⟨rfl, rfl⟩, List.dropLast_cons_of_ne_nil (splitCrlf_ne_nil rest)]
      exact List.mem_cons_self
    · rcases List.infix_cons_iff.mp hlater with hhere | hlater
      · exact absurd (List.cons_prefix_cons.mp hhere).1 (by decide)
      · obtain ⟨line, lines, hlines⟩ := List.exists_cons_of_ne_nil (splitCrlf_ne_nil s)
        have hmem := ih hlater
        rw [hlines, List.tail_cons] at hmem
        rw [hlines, List.dropLast_cons_of_ne_nil (List.ne_nil_of_mem (List.mem_of_mem_dropLast hmem))]
        exact List.mem_cons_of_mem _ hmem
  | case4 b c s hend ih =>
    rcases List.infix_cons_iff.mp h with hhere | hlater
    · have hstarts : crlf <+: b :: c :: s := (List.prefix_append crlf crlf).trans hhere
      exact absurd ((crlf_prefix_iff b c s).mp hstarts) hend
    · rw [List.tail_modifyHead]
      exact ih hlater

/-- The lines are made of the bytes of the text. -/
theorem mem_of_mem_splitCrlf {s line : Bytes} (hline : line ∈ splitCrlf s) : line ⊆ s := by
  fun_induction splitCrlf s generalizing line with
  | case1 => rw [List.mem_singleton.mp hline]; exact List.Subset.refl _
  | case2 b => rw [List.mem_singleton.mp hline]; exact List.Subset.refl _
  | case3 b c s hend ih =>
    rcases List.mem_cons.mp hline with rfl | hlater
    · exact List.nil_subset _
    · exact List.subset_cons_of_subset _ (List.subset_cons_of_subset _ (ih hlater))
  | case4 b c s hend ih =>
    obtain ⟨first, lines, hlines⟩ := List.exists_cons_of_ne_nil (splitCrlf_ne_nil (c :: s))
    rw [hlines] at hline ih
    rcases List.mem_cons.mp hline with rfl | hlater
    · exact List.cons_subset_cons b (ih List.mem_cons_self)
    · exact List.subset_cons_of_subset b (ih (List.mem_cons_of_mem first hlater))

/-- Whether a line is not the empty one. -/
def isLine (line : Bytes) : Bool := !line.isEmpty

/-- The lines up to an empty line do not depend on what follows it. -/
theorem takeWhile_isLine_of_prefix {front lines : List Bytes} (hfront : front <+: lines)
    (hnil : [] ∈ front) : lines.takeWhile isLine = front.takeWhile isLine := by
  obtain ⟨more, rfl⟩ := hfront
  induction front with
  | nil => exact absurd hnil List.not_mem_nil
  | cons line front ih =>
    rw [List.cons_append]
    cases line with
    | nil => rfl
    | cons b line =>
      have hmem : [] ∈ front := by
        rcases List.mem_cons.mp hnil with hhead | htail
        · exact absurd hhead (List.cons_ne_nil b line).symm
        · exact htail
      rw [List.takeWhile_cons_of_pos rfl, List.takeWhile_cons_of_pos rfl, ih hmem]

/-- What the loop finds on a line. -/
def lineValue (name line : Bytes) : Option Bytes :=
  if name.length + 1 < line.length ∧ icaseStartsWith line name = true ∧
      line.getD name.length 0 = 58 then
    some ((line.drop (name.length + 1)).dropWhile isBlank)
  else none

/-- The comparison of a name reads no further than the name. -/
theorem icaseStartsWith_iff (s pre : Bytes) :
    icaseStartsWith s pre = true ↔ (s.take pre.length).map toLower = pre.map toLower := by
  induction pre generalizing s with
  | nil => cases s <;> exact iff_of_true rfl rfl
  | cons p pre ih =>
    cases s with
    | nil => exact iff_of_false Bool.false_ne_true (by simp)
    | cons c s =>
      rw [icaseStartsWith, List.length_cons, List.take_succ_cons, List.map_cons, List.map_cons,
        List.cons.injEq]
      split_ifs with hne
      · exact iff_of_false id fun h => hne h.1
      · rw [ih]
        exact ⟨fun h => ⟨not_not.mp hne, h⟩, fun h => h.2⟩

/-- The value of a line is read from the line alone. -/
theorem lineValue_append (name line : Bytes) {lineEnd : Bytes} (hend : crlf <+: lineEnd) :
    (if name.length + 1 < line.length ∧ icaseStartsWith (line ++ lineEnd) name = true ∧
        (line ++ lineEnd).getD name.length 0 = 58 then
      some ((((line ++ lineEnd).drop (name.length + 1)).dropWhile isBlank).take
        ((((line ++ lineEnd).drop (name.length + 1)).dropWhile isBlank).length - lineEnd.length))
    else none) = lineValue name line := by
  by_cases hlen : name.length + 1 < line.length
  · obtain ⟨rest, rfl⟩ := hend
    have hname : icaseStartsWith (line ++ (crlf ++ rest)) name = icaseStartsWith line name := by
      rw [Bool.eq_iff_iff, icaseStartsWith_iff, icaseStartsWith_iff,
        List.take_append_of_le_length (by omega)]
    have hcolon : (line ++ (crlf ++ rest)).getD name.length 0 = line.getD name.length 0 :=
      List.getD_append _ _ _ _ (by omega)
    have hvalue : ((line ++ (crlf ++ rest)).drop (name.length + 1)).dropWhile isBlank =
        (line.drop (name.length + 1)).dropWhile isBlank ++ (crlf ++ rest) := by
      rw [List.drop_append_of_le_length (by omega), List.dropWhile_append]
      split_ifs with hblank
      · rw [List.isEmpty_iff.mp hblank]
        rfl
      · rfl
    rw [hname, hcolon, hvalue, List.length_append, Nat.add_sub_cancel, List.take_left, lineValue]
  · rw [lineValue, if_neg (fun h => hlen h.1), if_neg (fun h => hlen h.1)]

/-- The loop finds the value of the first line that has one, up to the empty
line. -/
theorem findHeaderLoop_eq (name : Bytes) {fuel : ℕ} {p : Bytes} (hfuel : p.length < fuel) :
    findHeaderLoop name fuel p =
      ((splitCrlf p).dropLast.takeWhile isLine).findSome? (lineValue name) := by
  induction fuel generalizing p with
  | zero => exact absurd hfuel (Nat.not_lt_zero _)
  | succ fuel ih =>
    rw [findHeaderLoop]
    split_ifs with hnil
    · rw [hnil]
      rfl
    · cases hfind : strstr crlf p with
      | none =>
        rw [splitCrlf_of_none hfind]
        rfl
      | some lineEnd =>
        obtain ⟨hstarts, line, rfl⟩ := strstr_eq_some hfind
        have hline : (line ++ lineEnd).length - lineEnd.length = line.length := by
          rw [List.length_append, Nat.add_sub_cancel]
        rw [splitCrlf_of_strstr hfind, List.dropLast_cons_of_ne_nil (splitCrlf_ne_nil _), hline,
          List.take_left]
        dsimp only
        have hlines := lineValue_append name line hstarts
        split_ifs with hempty hvalue
        · rw [List.length_append] at hempty
          have hline_nil : line = [] := List.eq_nil_of_length_eq_zero (by omega)
          rw [hline_nil]
          rfl
        · rw [hline] at hvalue
          rw [if_pos hvalue] at hlines
          have hline_ne : line ≠ [] := List.ne_nil_of_length_pos (by omega)
          rw [List.takeWhile_cons_of_pos (by simpa [isLine] using hline_ne), List.findSome?_cons,
            ← hlines]
        · rw [hline] at hvalue
          rw [if_neg hvalue] at hlines
          have hline_ne : line ≠ [] := by
            rintro rfl
            exact hempty rfl
          have hlater : (lineEnd.drop 2).length < fuel := by
            have htwo := hstarts.length_le
            rw [List.length_append] at hfuel
            rw [List.length_drop]
            omega
          rw [List.takeWhile_cons_of_pos (by simpa [isLine] using hline_ne), List.findSome?_cons,
            ← hlines, ih hlater]

/-- The name of a header line. -/
def fieldName (line : Bytes) : Bytes := line.takeWhile (· ≠ 58)

/-- What stands behind the colon of a header line. -/
def fieldText (line : Bytes) : Bytes := (line.dropWhile (· ≠ 58)).tail

/-- A character of a name, regardless of case. -/
def foldCase (b : UInt8) : Char := (Char.ofNat b.toNat).toLower

/-- Whether a line has a given name, regardless of case. -/
def isField (name line : Bytes) : Bool :=
  decide (58 ∈ line) && decide ((fieldName line).map foldCase = name.map foldCase)

/-- The blanks that may stand around a value: space and tab. -/
def isOptionalBlank (b : UInt8) : Bool := (lit " \t").contains b

/-- The value of a header line, with the blanks around it taken off. -/
def fieldValue (line : Bytes) : Bytes :=
  ((fieldText line).dropWhile isOptionalBlank).rdropWhile isOptionalBlank

/-- What holds of every number that a byte can have holds of every byte. -/
theorem forall_byte {p : UInt8 → Prop} (h : ∀ n < 256, p (UInt8.ofNat n)) (b : UInt8) : p b := by
  have hb := h b.toNat b.toNat_lt
  rwa [UInt8.ofNat_toNat] at hb

/-- The blanks of the code are those of a header. -/
theorem isBlank_eq : isBlank = isOptionalBlank :=
  funext (forall_byte (by decide +kernel))

/-- The characters of two bytes are told apart. -/
theorem ofNat_toNat_injective : Function.Injective fun b : UInt8 => Char.ofNat b.toNat := by
  have hback (b : UInt8) : (Char.ofNat b.toNat).toNat = b.toNat :=
    forall_byte (p := fun b => (Char.ofNat b.toNat).toNat = b.toNat) (by decide +kernel) b
  intro b c h
  refine UInt8.toNat_inj.mp ?_
  rw [← hback b, ← hback c]
  exact congrArg Char.toNat h

/-- Folding the case is making the letters small. -/
theorem foldCase_eq : foldCase = (fun b : UInt8 => Char.ofNat b.toNat) ∘ toLower :=
  funext (forall_byte (by decide +kernel))

/-- Names that are the same regardless of case are told by their small letters. -/
theorem map_foldCase_iff (s t : Bytes) :
    s.map foldCase = t.map foldCase ↔ s.map toLower = t.map toLower := by
  rw [foldCase_eq, ← List.map_map, ← List.map_map]
  exact (List.map_injective_iff.mpr ofNat_toNat_injective).eq_iff

/-- No other character is made a colon. -/
theorem toLower_eq_colon {c : UInt8} (h : toLower c = 58) : c = 58 :=
  forall_byte (p := fun c => toLower c = 58 → c = 58) (by decide +kernel) c h

/-- A name that is compared with one without a colon has none. -/
theorem colon_notMem_of_map {s name : Bytes} (hname : 58 ∉ name)
    (h : s.map toLower = name.map toLower) : 58 ∉ s := by
  intro hs
  have hmem : toLower 58 ∈ name.map toLower := h ▸ List.mem_map_of_mem hs
  obtain ⟨c, hc, hlower⟩ := List.mem_map.mp hmem
  exact hname (toLower_eq_colon hlower ▸ hc)

/-- The first colon ends the name. -/
theorem field_append {pre : Bytes} (hpre : 58 ∉ pre) (text : Bytes) :
    fieldName (pre ++ 58 :: text) = pre ∧ fieldText (pre ++ 58 :: text) = text := by
  have hall : ∀ b ∈ pre, decide (b ≠ 58) = true :=
    fun b hb => decide_eq_true fun h => hpre (h ▸ hb)
  constructor
  · rw [fieldName, List.takeWhile_append_of_pos hall, List.takeWhile_cons_of_neg (by decide),
      List.append_nil]
  · rw [fieldText, List.dropWhile_append_of_pos hall, List.dropWhile_cons_of_neg (by decide),
      List.tail_cons]

/-- A line with a colon is its name, the colon and what stands behind it. -/
theorem eq_field_append {line : Bytes} (h : 58 ∈ line) :
    line = fieldName line ++ 58 :: fieldText line ∧ 58 ∉ fieldName line := by
  obtain ⟨pre, text, rfl, hpre⟩ := List.eq_append_cons_of_mem h
  obtain ⟨hname, htext⟩ := field_append hpre text
  rw [hname, htext]
  exact ⟨rfl, hpre⟩

/-- The loop takes the lines of the given name that have anything behind the
colon. -/
theorem lineValue_eq {name : Bytes} (hname : 58 ∉ name) (line : Bytes) :
    lineValue name line =
      if isField name line = true ∧ fieldText line ≠ [] then
        some ((fieldText line).dropWhile isOptionalBlank)
      else none := by
  rw [← isBlank_eq]
  by_cases hcode : name.length + 1 < line.length ∧ icaseStartsWith line name = true ∧
      line.getD name.length 0 = 58
  · obtain ⟨hlen, hstart, hcolon⟩ := hcode
    have hlower := (icaseStartsWith_iff line name).mp hstart
    have hpre := colon_notMem_of_map hname hlower
    have hsplit : line = line.take name.length ++ 58 :: line.drop (name.length + 1) := by
      rw [List.getD_eq_getElem _ _ (by omega)] at hcolon
      rw [← hcolon, List.getElem_cons_drop, List.take_append_drop]
    obtain ⟨hfield, htext⟩ := field_append hpre (line.drop (name.length + 1))
    rw [← hsplit] at hfield htext
    have hmem : 58 ∈ line := by
      rw [hsplit]
      exact List.mem_append_right _ List.mem_cons_self
    have hrest : fieldText line ≠ [] := by
      rw [htext]
      exact List.ne_nil_of_length_pos (by rw [List.length_drop]; omega)
    have his : isField name line = true := by
      rw [isField, hfield, decide_eq_true hmem,
        decide_eq_true ((map_foldCase_iff _ _).mpr hlower)]
      rfl
    rw [lineValue, if_pos ⟨hlen, hstart, hcolon⟩, if_pos ⟨his, hrest⟩, htext]
  · rw [lineValue, if_neg hcode, if_neg]
    rintro ⟨his, hrest⟩
    rw [isField, Bool.and_eq_true, decide_eq_true_iff, decide_eq_true_iff] at his
    obtain ⟨hsplit, -⟩ := eq_field_append his.1
    have hlower := (map_foldCase_iff _ _).mp his.2
    have hlen : (fieldName line).length = name.length := by
      have hmaps := congrArg List.length hlower
      rwa [List.length_map, List.length_map] at hmaps
    refine hcode ⟨?_, ?_, ?_⟩
    · have htext := List.length_pos_of_ne_nil hrest
      rw [hsplit, List.length_append, List.length_cons, hlen]
      omega
    · rw [icaseStartsWith_iff, hsplit, ← hlen, List.take_left]
      exact hlower
    · rw [hsplit, ← hlen, List.getD_append_right _ _ _ _ (Nat.le_refl _), Nat.sub_self]
      rfl

end TelemetryPlatform.HeaderLines

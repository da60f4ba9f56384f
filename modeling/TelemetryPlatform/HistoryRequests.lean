import TelemetryPlatform.HistoryReply
import TelemetryPlatform.JsonStrings
import TelemetryPlatform.WsFrames

/-!
# How history requests are recognised

The server looks for words in the text of a request and does not parse it. A
request is taken for what its JSON object says, unless the words stand elsewhere
in the text too, or are written with escapes. The number is read digit by digit
until it is large enough for the limit of the rows to cut it.
-/

namespace TelemetryPlatform.HistoryRequests

open CStrings WsFrames HistoryReply

/-- A JSON object with its string members. -/
structure IsObject (payload : Bytes) (ms : List JsonText.Member) : Prop where
  /-- It is a JSON value. -/
  json : JsonText.IsJson payload ms
  /-- It starts with a brace. -/
  opens : (payload.dropWhile JsonText.isSpace).head? = some 123

/-- The member `type` of the object itself is the string `history`. -/
def TypeIsHistory (ms : List JsonText.Member) : Prop := ([lit "type"], lit "history") ∈ ms

/-- Behind this text comes the value of a member of the object itself. -/
def ValueExpected (key front : Bytes) : Prop :=
  ∃ ms, JsonText.run .start front = some (⟨[.object key], .value⟩, ms)

/-- Behind this text comes a key of the object itself. -/
def KeyExpected (front : Bytes) : Prop :=
  ∃ key mode ms, (mode = .key ∨ mode = .keyOrClose) ∧
    JsonText.run .start front = some (⟨[.object key], mode⟩, ms)

/-- The value of some digits behind those that were read. -/
def decimalFrom (v : ℕ) (digits : Bytes) : ℕ := digits.foldl (fun v b => v * 10 + (b.toNat - 48)) v

/-- An integer literal and its value. -/
inductive IntLiteral : Bytes → ℤ → Prop
  /-- Digits. -/
  | nonneg {digits : Bytes} : digits ≠ [] → (∀ b ∈ digits, isDigit b = true) →
      IntLiteral digits (decimalFrom 0 digits)
  /-- Digits behind a minus sign. -/
  | neg {digits : Bytes} : digits ≠ [] → (∀ b ∈ digits, isDigit b = true) →
      IntLiteral (45 :: digits) (-decimalFrom 0 digits)

/-- The object has a member with this key. -/
def HasMember (key payload : Bytes) : Prop :=
  ∃ front back, payload = front ++ back ∧ ValueExpected key front

/-- The object has a member with this key that is an integer literal; no fraction
and no exponent follows. -/
def HasInteger (key : Bytes) (n : ℤ) (payload : Bytes) : Prop :=
  ∃ front literal back, payload = front ++ literal ++ back ∧ ValueExpected key front ∧
    IntLiteral literal n ∧
      ∀ b, back.head? = some b → isDigit b = false ∧ b ≠ 46 ∧ b ≠ 69 ∧ b ≠ 101

/-- The limit that a request asks for. -/
def limitOf (n : ℤ) : ℕ := if n ≤ 0 then 300 else if 5000 < n then 5000 else n.toNat

/-- The limit that the query is executed with. -/
def rowLimit (payload : Bytes) : ℕ :=
  clampLimit (jsonFindInt (payloadText payload) (lit "\"last\"") 300)

/-- History requests are recognised and read exactly. -/
structure ReadExactly (payload : Bytes) (ms : List JsonText.Member) : Prop where
  /-- A request is one whose type says so. -/
  recognised : isHistoryRequest (payloadText payload) = true ↔ TypeIsHistory ms
  /-- Its limit is the integer that it names. -/
  limited : isHistoryRequest (payloadText payload) = true →
    ∀ n, HasInteger (lit "last") n payload → rowLimit payload = limitOf n
  /-- Without one the limit is 300. -/
  unlimited : isHistoryRequest (payloadText payload) = true →
    ¬ HasMember (lit "last") payload → rowLimit payload = 300
  /-- Whatever digits are read, the value fits an int. -/
  bounded : ∀ digits, scanDigits 0 digits ≤ 2147483647

/-- A string of the object, key or value at any depth, is this word, or ends with an
escaped quote and the word; the control and the text are those behind it. -/
def Marked (word payload : Bytes) (c : JsonText.Control) (rest : Bytes) : Prop :=
  ∃ body, JsonText.StringIn .start payload body c rest ∧
    (body = word ∨ 92 :: 34 :: word <:+ body)

/-- It is the first such string. -/
def FirstMarked (word payload : Bytes) (c : JsonText.Control) (rest : Bytes) : Prop :=
  Marked word payload c rest ∧
    ∀ c' rest', Marked word payload c' rest' → rest'.length ≤ rest.length

/-- A string in the rest of the object has the word `history` in it. -/
def HistoryIn (c : JsonText.Control) (rest : Bytes) : Prop :=
  ∃ body c' rest', JsonText.StringIn c rest body c' rest' ∧ lit "history" <:+: body

/-- The strings of the object name the word `history` behind `type`. -/
inductive NamesHistory (payload : Bytes) : Prop
  /-- It stands in a string behind one that is `type`. -/
  | marked {c : JsonText.Control} {rest : Bytes} :
      Marked (lit "type") payload c rest → HistoryIn c rest → NamesHistory payload
  /-- No string is `type`, and it stands behind this word within a string, in the
  same one or in a later one. -/
  | word {c : JsonText.Control} {before behind rest : Bytes} :
      (∀ c rest, ¬ Marked (lit "type") payload c rest) →
      JsonText.StringIn .start payload (before ++ behind) c rest → lit "type" <+: behind →
      lit "history" <:+: behind ∨ HistoryIn c rest → NamesHistory payload

/-- The integer behind the first colon of a text. -/
def NumberBehind (text : Bytes) (n : ℤ) : Prop :=
  ∃ between spaces literal back, text = between ++ 58 :: (spaces ++ (literal ++ back)) ∧
    58 ∉ between ∧ (∀ b ∈ spaces, isSpace b = true) ∧ IntLiteral literal n ∧
      ∀ b, back.head? = some b → isDigit b = false

/-- The integer behind the first colon behind the first string that is `last`. -/
def NamesNumber (payload : Bytes) (n : ℤ) : Prop :=
  ∃ c rest, FirstMarked (lit "last") payload c rest ∧ NumberBehind rest n

/-- The limit of this integer, and 300 where there is none. -/
def NamesLimit (payload : Bytes) (limit : ℕ) : Prop :=
  (∃ n, NamesNumber payload n ∧ limitOf n = limit) ∨
    (∀ n, ¬ NamesNumber payload n) ∧ limit = 300

/-- The type of the object is written as `"type":"history"`, with white space at
most around the colon. -/
def PlainType (payload : Bytes) : Prop :=
  ∃ front spaces spaces' back,
    payload = front ++ (lit "\"type\"" ++
      (spaces ++ 58 :: (spaces' ++ (lit "\"history\"" ++ back)))) ∧
      KeyExpected front ∧ (∀ b ∈ spaces ++ spaces', JsonText.isSpace b = true)

/-- The first string that is `last` is a key of the object itself, and an integer
literal is its value. -/
def PlainLast (payload : Bytes) (n : ℤ) : Prop :=
  ∃ front spaces spaces' literal back,
    payload = front ++ (lit "\"last\"" ++ (spaces ++ 58 :: (spaces' ++ (literal ++ back)))) ∧
      KeyExpected front ∧
      (∀ c rest, Marked (lit "last") payload c rest →
        rest.length ≤ (spaces ++ 58 :: (spaces' ++ (literal ++ back))).length) ∧
      (∀ b ∈ spaces ++ spaces', JsonText.isSpace b = true) ∧
      IntLiteral literal n ∧ ∀ b, back.head? = some b → isDigit b = false

/-- Nothing in the text misleads the search. -/
structure Unmistakable (payload : Bytes) (ms : List JsonText.Member) : Prop where
  /-- A history request is written without escapes, or its strings name the words anyway. -/
  request : TypeIsHistory ms → PlainType payload ∨ NamesHistory payload
  /-- In any other object they do not. -/
  other : ¬ TypeIsHistory ms → ¬ NamesHistory payload
  /-- The first string that is `last` is the key of the limit, or what follows it
  comes to the same limit. -/
  last : NamesHistory payload → ∀ n, HasInteger (lit "last") n payload →
    PlainLast payload n ∨ NamesLimit payload (limitOf n)
  /-- Where no limit is named, none is found, or one that comes to 300. -/
  absent : NamesHistory payload → ¬ HasMember (lit "last") payload → NamesLimit payload 300

/-- The limit is cut in the same way by the query. -/
theorem clampLimit_eq (n : ℤ) : clampLimit n = limitOf n := by
  unfold clampLimit limitOf
  dsimp only
  split_ifs <;> first | rfl | omega

/-- Digits are read up to a value above a million, which is not exceeded by ten
times as much. -/
theorem scanDigits_le (bytes : Bytes) {v : ℕ} (hv : v ≤ 1000000) :
    scanDigits v bytes ≤ 10000009 := by
  induction bytes generalizing v with
  | nil =>
    rw [scanDigits]
    omega
  | cons b bytes ih =>
    rw [scanDigits]
    dsimp only
    split_ifs with hdigit hlarge
    · have hb : b.toNat ≤ 57 := by
        unfold isDigit at hdigit
        rw [Bool.and_eq_true, decide_eq_true_eq, decide_eq_true_eq] at hdigit
        exact hdigit.2
      omega
    · exact ih (Nat.le_of_not_lt hlarge)
    · omega

/-- More digits do not make a value smaller. -/
theorem le_decimalFrom (v : ℕ) (digits : Bytes) : v ≤ decimalFrom v digits := by
  induction digits generalizing v with
  | nil => exact Nat.le_refl v
  | cons b digits ih =>
    have hmore := ih (v * 10 + (b.toNat - 48))
    change v ≤ decimalFrom (v * 10 + (b.toNat - 48)) digits
    omega

/-- The digit loop reads the value, or stops above a million where the value is
no smaller. -/
theorem scanDigits_cases {digits back : Bytes} (hdigits : ∀ b ∈ digits, isDigit b = true)
    (hback : ∀ b, back.head? = some b → isDigit b = false) (v : ℕ) :
    scanDigits v (digits ++ back) = decimalFrom v digits ∨
      (1000000 < scanDigits v (digits ++ back) ∧ 1000000 < decimalFrom v digits) := by
  induction digits generalizing v with
  | nil =>
    cases back with
    | nil => exact .inl rfl
    | cons b back =>
      rw [List.nil_append, scanDigits, if_neg (by rw [hback b rfl]; exact Bool.false_ne_true)]
      exact .inl rfl
  | cons b digits ih =>
    obtain ⟨hb, hrest⟩ := List.forall_mem_cons.mp hdigits
    rw [List.cons_append, scanDigits, if_pos hb]
    dsimp only
    split_ifs with hlarge
    · exact .inr ⟨hlarge, Nat.lt_of_lt_of_le hlarge (le_decimalFrom _ digits)⟩
    · exact ih hrest (v * 10 + (b.toNat - 48))

/-- So the limit is that of the value. -/
theorem limitOf_scanDigits {digits back : Bytes} (hdigits : ∀ b ∈ digits, isDigit b = true)
    (hback : ∀ b, back.head? = some b → isDigit b = false) :
    limitOf (scanDigits 0 (digits ++ back)) = limitOf (decimalFrom 0 digits) ∧
      limitOf (-scanDigits 0 (digits ++ back)) = limitOf (-decimalFrom 0 digits) := by
  rcases scanDigits_cases hdigits hback 0 with hequal | ⟨hscan, hvalue⟩
  · rw [hequal]
    exact ⟨rfl, rfl⟩
  · unfold limitOf
    constructor <;> split_ifs <;> first | rfl | omega

/-- A first digit begins all digits up to another byte. -/
theorem exists_digits {d : UInt8} {rest : Bytes} (hd : isDigit d = true) :
    ∃ digits back, d :: rest = digits ++ back ∧ digits ≠ [] ∧
      (∀ b ∈ digits, isDigit b = true) ∧ ∀ b, back.head? = some b → isDigit b = false := by
  refine ⟨d :: rest.takeWhile isDigit, rest.dropWhile isDigit, ?_, List.cons_ne_nil _ _,
    List.forall_mem_cons.mpr ⟨hd, fun b hb => List.mem_takeWhile_imp hb⟩, fun b hb => ?_⟩
  · rw [List.cons_append, List.takeWhile_append_dropWhile]
  · have hstops := List.head?_dropWhile_not isDigit rest
    rw [hb] at hstops
    exact hstops

/-- The value of the loop behind an optional sign. -/
def signedScan (defv : ℤ) (sign : ℤ) : Bytes → ℤ
  | [] => defv
  | b :: rest => if isDigit b = true then sign * scanDigits 0 (b :: rest) else defv

/-- What is read behind the white space, with and without a minus sign. -/
theorem jsonFindInt_of_colon {json : CString} {key between spaces p : Bytes} (defv : ℤ)
    (hfound : strstr key json.bytes = some (between ++ 58 :: (spaces ++ p)))
    (hbetween : 58 ∉ between) (hspaces : ∀ b ∈ spaces, isSpace b = true)
    (hp : ∀ b, p.head? = some b → isSpace b = false) :
    (∀ rest, p = 45 :: rest → jsonFindInt json key defv = signedScan defv (-1) rest) ∧
      ((∀ rest, p ≠ 45 :: rest) → jsonFindInt json key defv = signedScan defv 1 p) := by
  have hcolon : (between ++ 58 :: (spaces ++ p)).dropWhile (fun b => decide (b ≠ 58)) =
      58 :: (spaces ++ p) := by
    refine (List.dropWhile_append_of_pos fun b hb => decide_eq_true ?_).trans rfl
    rintro rfl
    exact hbetween hb
  have hblank : (spaces ++ p).dropWhile (fun b => isSpace b) = p := by
    rw [List.dropWhile_append_of_pos hspaces]
    cases p with
    | nil => rfl
    | cons b p => exact List.dropWhile_cons_of_neg (by rw [hp b rfl]; exact Bool.false_ne_true)
  unfold jsonFindInt
  rw [hfound]
  dsimp only
  rw [hcolon]
  dsimp only
  rw [hblank]
  constructor
  · rintro rest rfl
    cases rest <;> rfl
  · intro hother
    cases p with
    | nil => rfl
    | cons b rest => simp only [signedScan]

/-- A value that is not the default begins with a digit. -/
theorem signedScan_eq (defv sign : ℤ) {p : Bytes} (hne : signedScan defv sign p ≠ defv) :
    ∃ digits back, p = digits ++ back ∧ digits ≠ [] ∧ (∀ b ∈ digits, isDigit b = true) ∧
      ∀ b, back.head? = some b → isDigit b = false := by
  cases p with
  | nil => exact absurd rfl hne
  | cons d rest =>
    rw [signedScan] at hne
    split_ifs at hne with hd
    · exact exists_digits hd
    · exact absurd rfl hne

/-- Digits are read with their sign. -/
theorem signedScan_digits (defv sign : ℤ) {digits : Bytes} (hne : digits ≠ [])
    (hdigits : ∀ b ∈ digits, isDigit b = true) (back : Bytes) :
    signedScan defv sign (digits ++ back) = sign * scanDigits 0 (digits ++ back) := by
  cases digits with
  | nil => exact absurd rfl hne
  | cons d digits => exact if_pos (hdigits d List.mem_cons_self)

/-- A digit is neither white space nor a sign. -/
theorem isDigit_ne {b : UInt8} (hb : isDigit b = true) : isSpace b = false ∧ b ≠ 45 := by
  unfold isDigit at hb
  rw [Bool.and_eq_true, decide_eq_true_eq, decide_eq_true_eq] at hb
  have hlow : 48 ≤ b.toNat := hb.1
  refine ⟨(Bool.not_eq_true _).mp fun hspace => ?_, fun hminus => ?_⟩
  · unfold isSpace at hspace
    rw [Bool.or_eq_true, Bool.and_eq_true, decide_eq_true_eq, decide_eq_true_eq,
      decide_eq_true_eq] at hspace
    rcases hspace with rfl | ⟨-, hhigh⟩
    · exact absurd hlow (by decide)
    · have hhigh' : b.toNat ≤ 13 := hhigh
      omega
  · rw [hminus] at hlow
    exact absurd hlow (by decide)

/-- The integer behind the first colon is read up to its limit. -/
theorem limitOf_jsonFindInt {json : CString} {rest : Bytes} {n : ℤ}
    (hfound : strstr (lit "\"last\"") json.bytes = some (lit "\"last\"" ++ rest))
    (h : NumberBehind rest n) :
    limitOf (jsonFindInt json (lit "\"last\"") 300) = limitOf n := by
  obtain ⟨between, spaces, literal, back, rfl, hbetween, hspaces, hliteral, hback⟩ := h
  rw [← List.append_assoc] at hfound
  have hcolon : 58 ∉ lit "\"last\"" ++ between := by
    rw [List.mem_append]
    exact fun hmem => hmem.elim (absurd · (by decide)) hbetween
  cases hliteral with
  | @nonneg digits hne hdigits =>
    have hhead : ∀ b, (literal ++ back).head? = some b → isDigit b = true := by
      intro b hb
      rw [List.head?_append_of_ne_nil _ hne] at hb
      exact hdigits b (List.mem_of_mem_head? hb)
    have hread := (jsonFindInt_of_colon 300 hfound hcolon hspaces fun b hb =>
      (isDigit_ne (hhead b hb)).1).2 fun rest hrest =>
        (isDigit_ne (hhead 45 (by rw [hrest]; rfl))).2 rfl
    rw [hread, signedScan_digits _ _ hne hdigits, one_mul]
    exact (limitOf_scanDigits hdigits hback).1
  | @neg digits hne hdigits =>
    have hread := (jsonFindInt_of_colon 300 hfound hcolon hspaces fun b hb => by
      cases hb
      decide).1 (digits ++ back) rfl
    rw [hread, signedScan_digits _ _ hne hdigits, neg_one_mul]
    exact (limitOf_scanDigits hdigits hback).2

/-- Without such an integer the default is kept. -/
theorem jsonFindInt_of_not {json : CString}
    (h : ∀ rest, strstr (lit "\"last\"") json.bytes = some (lit "\"last\"" ++ rest) →
      ∀ n, ¬ NumberBehind rest n) :
    jsonFindInt json (lit "\"last\"") 300 = 300 := by
  by_contra hne
  cases hfound : strstr (lit "\"last\"") json.bytes with
  | none =>
    unfold jsonFindInt at hne
    rw [hfound] at hne
    exact hne rfl
  | some q =>
    obtain ⟨⟨rest, rfl⟩, -⟩ := strstr_eq_some hfound
    by_cases hcolon : 58 ∈ rest
    · obtain ⟨between, behind, rfl, hbetween⟩ := List.eq_append_cons_of_mem hcolon
      have hspaces : ∀ b ∈ behind.takeWhile isSpace, isSpace b = true :=
        fun b hb => List.mem_takeWhile_imp hb
      have hsplit : behind = behind.takeWhile isSpace ++ behind.dropWhile isSpace :=
        List.takeWhile_append_dropWhile.symm
      have hclear : 58 ∉ lit "\"last\"" ++ between := by
        rw [List.mem_append]
        exact fun hmem => hmem.elim (absurd · (by decide)) hbetween
      have hnone (sign : Bytes) (digits back : Bytes) (n : ℤ)
          (hrest : behind.dropWhile isSpace = sign ++ digits ++ back)
          (hliteral : IntLiteral (sign ++ digits) n)
          (hback : ∀ b, back.head? = some b → isDigit b = false) : False :=
        h _ hfound n ⟨between, _, sign ++ digits, back, by rw [← hrest, ← hsplit], hbetween,
          hspaces, hliteral, hback⟩
      rw [hsplit, ← List.append_assoc] at hfound
      have hread := jsonFindInt_of_colon 300 hfound hclear hspaces fun b hb => by
        have hstops := List.head?_dropWhile_not isSpace behind
        rw [hb] at hstops
        exact hstops
      by_cases hminus : ∃ rest, behind.dropWhile isSpace = 45 :: rest
      · obtain ⟨rest, hrest⟩ := hminus
        rw [hread.1 rest hrest] at hne
        obtain ⟨digits, back, rfl, hnil, hdigits, hback⟩ := signedScan_eq _ _ hne
        exact hnone [45] digits back _ hrest (.neg hnil hdigits) hback
      · rw [hread.2 fun rest hrest => hminus ⟨rest, hrest⟩] at hne
        obtain ⟨digits, back, hrest, hnil, hdigits, hback⟩ := signedScan_eq _ _ hne
        exact hnone [] digits back _ hrest (.nonneg hnil hdigits) hback
    · unfold jsonFindInt at hne
      rw [hfound] at hne
      dsimp only at hne
      have hnone : (lit "\"last\"" ++ rest).dropWhile (fun b => decide (b ≠ 58)) = [] := by
        refine List.dropWhile_eq_nil_iff.mpr fun b hb => decide_eq_true ?_
        rintro rfl
        exact hcolon ((List.mem_append.mp hb).resolve_left (by decide))
      rw [hnone] at hne
      exact hne rfl

/-- The word `history` stands behind the first quoted `type`, or where there is
none behind the first `type`. -/
def WordBehind (payload : Bytes) : Prop :=
  ∃ p, (strstr (lit "\"type\"") payload).or (strstr (lit "type") payload) = some p ∧
    lit "history" <:+: p

/-- A text is taken for a request exactly if the words occur. -/
theorem isHistoryRequest_iff (json : CString) :
    isHistoryRequest json = true ↔ WordBehind json.bytes := by
  unfold isHistoryRequest WordBehind
  cases (strstr (lit "\"type\"") json.bytes).or (strstr (lit "type") json.bytes) with
  | none => exact iff_of_false Bool.false_ne_true fun ⟨_, hp, _⟩ => Option.some_ne_none _ hp.symm
  | some p =>
    dsimp only
    rw [strstr_isSome_iff]
    constructor
    · exact fun hword => ⟨p, rfl, hword⟩
    · rintro ⟨_, hp, hword⟩
      cases hp
      exact hword

/-- Where a string has the word in it, the text has. -/
theorem HistoryIn.occurs {c : JsonText.Control} {rest : Bytes} (h : HistoryIn c rest) :
    lit "history" <:+: rest := by
  obtain ⟨body, c', rest', hstring, hword⟩ := h
  exact (hword.trans (List.prefix_append body _).isInfix).trans hstring.suffix.isInfix

/-- The word stands in the text only where a string has it in it. -/
theorem historyIn_of_occurs {c c' : JsonText.Control} {rest : Bytes} {ms : List JsonText.Member}
    (hout : c.Outside) (hrun : JsonText.run c rest = some (c', ms))
    (hend : c'.mode.inString = none) (h : lit "history" <:+: rest) : HistoryIn c rest := by
  obtain ⟨a, b, rfl⟩ := h
  rw [List.append_assoc] at hrun ⊢
  change JsonText.run c (a ++ (104 :: lit "istory" ++ b)) = some (c', ms) at hrun
  obtain ⟨front, body, more, behind, d, ms', -, -, hstring, -⟩ :=
    JsonText.word_in_string hout (JsonText.onlyInStrings_of_mem (by decide)) (by decide) hrun hend
  refine ⟨_, d, behind, hstring, ?_⟩
  exact (List.prefix_append (lit "history") more).isInfix.trans (List.suffix_append body _).isInfix

/-- Such a string has the word in quotes in front of what stands behind it. -/
theorem Marked.suffix {word payload rest : Bytes} {c : JsonText.Control}
    (h : Marked word payload c rest) : 34 :: (word ++ 34 :: rest) <:+ payload := by
  obtain ⟨body, hstring, rfl | ⟨front, rfl⟩⟩ := h
  · obtain ⟨front, -, -, -, -, -, rfl, -⟩ := hstring
    exact List.suffix_append front _
  · refine List.IsSuffix.trans ?_ hstring.suffix
    rw [List.append_assoc]
    exact (List.suffix_cons 92 _).trans (List.suffix_append front _)

/-- A word in quotes and what stands behind it. -/
theorem quoted_append (word rest : Bytes) :
    34 :: (word ++ [34]) ++ rest = 34 :: (word ++ 34 :: rest) := by
  rw [List.cons_append, List.append_assoc, List.singleton_append]

/-- The word in quotes is found there or in front of it. -/
theorem Marked.found {word payload rest : Bytes} {c : JsonText.Control}
    (h : Marked word payload c rest) :
    ∃ earlier, strstr (34 :: (word ++ [34])) payload =
      some (earlier ++ (34 :: (word ++ [34]) ++ rest)) := by
  obtain ⟨front, hfront⟩ := h.suffix
  rw [← quoted_append] at hfront
  rw [← hfront]
  exact strstr_of_prefix (List.prefix_append _ rest) front

/-- One of the words in quotes is such a string. -/
theorem marked_of_quoted {word payload a b : Bytes} {c : JsonText.Control}
    {ms : List JsonText.Member} (hword : word = lit "type" ∨ word = lit "last")
    (hrun : JsonText.run .start payload = some (c, ms))
    (hsplit : a ++ 34 :: (word ++ 34 :: b) = payload) :
    ∃ d ms', Marked word payload d b ∧ d.Outside ∧ JsonText.run d b = some (c, ms') := by
  have hquoted {w : UInt8} {letters : Bytes} (hafter : ∀ stack, JsonText.afterStep stack w = none)
      (hw : JsonText.isSpace w = false ∧ w ≠ 58 ∧ JsonText.Unescaped (w :: letters))
      (hcons : word = w :: letters) :
      ∃ d ms', Marked word payload d b ∧ d.Outside ∧ JsonText.run d b = some (c, ms') := by
    rw [← hsplit, hcons] at hrun ⊢
    obtain ⟨body, d, ms', hstring, hbody, hout, hrest⟩ :=
      JsonText.quoted_in_string JsonText.outside_start hafter hw.1 hw.2.1 hw.2.2 hrun
    exact ⟨d, ms', ⟨body, hstring, hbody⟩, hout, hrest⟩
  rcases hword with hword | hword
  · exact hquoted (by rintro (_ | ⟨_ | _, _⟩) <;> rfl) (by decide) hword
  · exact hquoted (by rintro (_ | ⟨_ | _, _⟩) <;> rfl) (by decide) hword

/-- What stands behind the first of these strings is what is found behind the word in
quotes. -/
theorem firstMarked_iff {word payload rest : Bytes} {c : JsonText.Control}
    {ms : List JsonText.Member} (hword : word = lit "type" ∨ word = lit "last")
    (hrun : JsonText.run .start payload = some (c, ms)) :
    (∃ d, FirstMarked word payload d rest) ↔
      strstr (34 :: (word ++ [34])) payload = some (34 :: (word ++ [34]) ++ rest) := by
  have hlengths {earlier rest rest' : Bytes}
      (heq : earlier ++ (34 :: (word ++ [34]) ++ rest') = 34 :: (word ++ [34]) ++ rest) :
      earlier.length + rest'.length = rest.length := by
    have hlength := congrArg List.length heq
    simp only [List.length_append] at hlength
    omega
  constructor
  · rintro ⟨d, hmarked, hfirst⟩
    obtain ⟨earlier, hearlier⟩ := hmarked.found
    obtain ⟨⟨rest', hrest'⟩, a, hsplit⟩ := strstr_eq_some hearlier
    rw [← hrest', quoted_append] at hsplit
    obtain ⟨d', -, hmarked', -⟩ := marked_of_quoted hword hrun hsplit
    have hlength := hlengths hrest'.symm
    have hle := hfirst d' rest' hmarked'
    rw [hearlier, List.eq_nil_of_length_eq_zero (by omega : earlier.length = 0), List.nil_append]
  · intro hhere
    obtain ⟨-, a, hsplit⟩ := strstr_eq_some hhere
    rw [quoted_append] at hsplit
    obtain ⟨d, -, hmarked, -⟩ := marked_of_quoted hword hrun hsplit
    refine ⟨d, hmarked, fun d' rest' hmarked' => ?_⟩
    obtain ⟨earlier, hearlier⟩ := hmarked'.found
    rw [hhere] at hearlier
    have hlength := hlengths (Option.some.inj hearlier).symm
    omega

/-- The words occur in the text of an object exactly if its strings name them. -/
theorem wordBehind_iff {payload : Bytes} {ms : List JsonText.Member}
    (h : JsonText.IsJson payload ms) : WordBehind payload ↔ NamesHistory payload := by
  obtain ⟨c, hrun, hend⟩ := h.exists_run
  unfold WordBehind
  cases hquoted : strstr (lit "\"type\"") payload with
  | some p =>
    rw [Option.some_or]
    constructor
    · rintro ⟨q, hq, hword⟩
      cases hq
      obtain ⟨⟨b, rfl⟩, a, hsplit⟩ := strstr_eq_some hquoted
      obtain ⟨d, ms', hmarked, hout, hrest⟩ := marked_of_quoted (.inl rfl) hrun hsplit
      refine .marked hmarked (historyIn_of_occurs hout hrest hend ?_)
      have hbehind := (JsonText.infix_or_infix [] (by decide) hword).resolve_left (by decide)
      exact (JsonText.infix_or_infix (lit "type") (by decide) hbehind).resolve_left (by decide)
    · rintro (⟨hmarked, hword⟩ | ⟨hnone, -, -, -⟩)
      · obtain ⟨earlier, hfound⟩ := hmarked.found
        refine ⟨p, rfl, hword.occurs.trans ?_⟩
        rw [Option.some.inj (hquoted.symm.trans hfound)]
        exact ((List.suffix_append (lit "\"type\"") _).trans (List.suffix_append earlier _)).isInfix
      · obtain ⟨⟨b, rfl⟩, a, hsplit⟩ := strstr_eq_some hquoted
        obtain ⟨d, -, hmarked, -⟩ := marked_of_quoted (.inl rfl) hrun hsplit
        exact absurd hmarked (hnone d b)
  | none =>
    rw [Option.none_or]
    have hnone (d : JsonText.Control) (rest : Bytes) : ¬ Marked (lit "type") payload d rest := by
      intro hmarked
      have hsome := (strstr_isSome_iff (lit "\"type\"") payload).mpr
        ((List.prefix_append (lit "\"type\"") rest).isInfix.trans hmarked.suffix.isInfix)
      rw [hquoted] at hsome
      cases hsome
    constructor
    · rintro ⟨p, hp, hword⟩
      obtain ⟨⟨b, rfl⟩, a, rfl⟩ := strstr_eq_some hp
      -- the first letter may stand in `true` too, so the second one leads into the string
      have hletters : a ++ (lit "type" ++ b) = a ++ [116] ++ (121 :: lit "pe" ++ b) := by
        rw [List.append_assoc]
        rfl
      rw [hletters] at hrun
      obtain ⟨front, body, more, rest, d, ms', hbody, rfl, hstring, hout, hrest⟩ :=
        JsonText.word_in_string JsonText.outside_start (JsonText.onlyInStrings_of_mem (by decide))
          (by decide) hrun hend
      obtain ⟨before, rfl⟩ := JsonText.exists_snoc hbody.symm (by decide)
      rw [← hletters, List.append_assoc before] at hstring
      refine .word hnone hstring (List.prefix_append (lit "type") more) ?_
      rw [← List.append_assoc] at hword
      exact (JsonText.infix_or_infix (lit "type" ++ more) (by decide) hword).imp_right
        (historyIn_of_occurs hout hrest hend)
    · rintro (⟨hmarked, -⟩ | @⟨d, before, behind, rest, -, hstring, htype, hword⟩)
      · exact absurd hmarked (hnone _ _)
      · obtain ⟨front, rfl⟩ := hstring.suffix
        rw [List.append_assoc, ← List.append_assoc front]
        have hbegins := htype.trans (List.prefix_append behind (34 :: rest))
        obtain ⟨earlier, hfound⟩ := strstr_of_prefix hbegins _
        refine ⟨_, hfound, List.IsInfix.trans ?_ (List.suffix_append earlier _).isInfix⟩
        rcases hword with hsame | hlater
        · exact hsame.trans (List.prefix_append _ _).isInfix
        · exact hlater.occurs.trans
            ((List.suffix_cons 34 _).trans (List.suffix_append _ _)).isInfix

/-- White space of JSON is white space. -/
theorem isSpace_of_json {b : UInt8} (h : JsonText.isSpace b = true) : isSpace b = true ∧ b ≠ 58 := by
  unfold JsonText.isSpace at h
  simp only [Bool.or_eq_true, decide_eq_true_eq] at h
  rcases h with ((rfl | rfl) | rfl) | rfl <;> decide

/-- A type that is written without escapes is found. -/
theorem wordBehind_of_plainType {payload : Bytes} (h : PlainType payload) : WordBehind payload := by
  obtain ⟨front, spaces, spaces', back, rfl, -, -⟩ := h
  obtain ⟨earlier, hfound⟩ := strstr_of_prefix (List.prefix_append (lit "\"type\"")
    (spaces ++ 58 :: (spaces' ++ (lit "\"history\"" ++ back)))) front
  refine ⟨_, by rw [hfound, Option.some_or], ?_⟩
  have hword : lit "history" <:+: lit "\"history\"" := by decide
  exact hword.trans ((List.prefix_append _ back).isInfix.trans
    ((List.suffix_append spaces' _).isInfix.trans
      ((List.suffix_cons 58 _).isInfix.trans ((List.suffix_append spaces _).isInfix.trans
        ((List.suffix_append (lit "\"type\"") _).isInfix.trans
          (List.suffix_append earlier _).isInfix)))))

/-- A limit that is written without escapes, and first, is found. -/
theorem namesNumber_of_plainLast {payload : Bytes} {n : ℤ} (h : PlainLast payload n) :
    NamesNumber payload n := by
  obtain ⟨front, spaces, spaces', literal, back, rfl, ⟨key, mode, ms, hmode, hfront⟩, hfirst,
    hspaces, hliteral, hback⟩ := h
  obtain ⟨hbefore, hbehind⟩ := List.forall_mem_append.mp hspaces
  have hbegins : mode.beginsString = some true := by
    rcases hmode with rfl | rfl <;> rfl
  refine ⟨_, _, ⟨⟨lit "last", ⟨front, _, true, _, ms, _, rfl, hfront, hbegins,
    fun stack => JsonText.run_string stack (by decide) true [], rfl⟩, .inl rfl⟩, hfirst⟩,
    spaces, spaces', literal, back, rfl, ?_, fun b hb => (isSpace_of_json (hbehind b hb)).1,
    hliteral, hback⟩
  exact fun hcolon => (isSpace_of_json (hbefore 58 hcolon)).2 rfl

/-- The text of a JSON object is all of its payload. -/
theorem payloadText_bytes {payload : Bytes} {ms : List JsonText.Member} (h : IsObject payload ms) :
    (payloadText payload).bytes = payload := by
  have hread := CString.ofMemory_terminated ⟨payload, h.json.zero_notMem⟩ []
  exact congrArg CString.bytes hread

/-- The limit that is used is the one that the strings of the object name. -/
theorem namesLimit_iff {payload : Bytes} {ms : List JsonText.Member} (h : IsObject payload ms)
    (limit : ℕ) : NamesLimit payload limit ↔ rowLimit payload = limit := by
  obtain ⟨c, hrun, -⟩ := h.json.exists_run
  unfold rowLimit
  rw [clampLimit_eq]
  have hbytes := payloadText_bytes h
  have hread {n : ℤ} (hn : NamesNumber payload n) :
      limitOf (jsonFindInt (payloadText payload) (lit "\"last\"") 300) = limitOf n := by
    obtain ⟨d, rest, hfirst, hnumber⟩ := hn
    refine limitOf_jsonFindInt ?_ hnumber
    rw [hbytes]
    exact (firstMarked_iff (.inr rfl) hrun).mp ⟨d, hfirst⟩
  by_cases hnumber : ∃ n, NamesNumber payload n
  · constructor
    · rintro (⟨n, hn, rfl⟩ | ⟨hnone, -⟩)
      · exact hread hn
      · obtain ⟨n, hn⟩ := hnumber
        exact absurd hn (hnone n)
    · intro hlimit
      obtain ⟨n, hn⟩ := hnumber
      exact .inl ⟨n, hn, by rw [← hread hn, hlimit]⟩
  · have hnone := not_exists.mp hnumber
    rw [jsonFindInt_of_not fun rest hfound n hn => by
      rw [hbytes] at hfound
      obtain ⟨d, hfirst⟩ := (firstMarked_iff (.inr rfl) hrun).mpr hfound
      exact hnone n ⟨d, rest, hfirst, hn⟩]
    constructor
    · rintro (⟨n, hn, -⟩ | ⟨-, rfl⟩)
      · exact absurd hn (hnone n)
      · rfl
    · rintro rfl
      exact .inr ⟨hnone, rfl⟩

/-- A JSON object is recognised and read exactly if and only if nothing in its text
misleads the search. -/
theorem readExactly_iff {payload : Bytes} {ms : List JsonText.Member} (h : IsObject payload ms) :
    ReadExactly payload ms ↔ Unmistakable payload ms := by
  have hrecognised := isHistoryRequest_iff (payloadText payload)
  have hlimit := namesLimit_iff h
  rw [payloadText_bytes h, wordBehind_iff h.json] at hrecognised
  constructor
  · intro hread
    refine ⟨fun htype => .inr ?_, fun htype hword => ?_, fun hword n hn => .inr ?_,
      fun hword hnone => ?_⟩
    · exact hrecognised.mp (hread.recognised.mpr htype)
    · exact htype (hread.recognised.mp (hrecognised.mpr hword))
    · exact (hlimit _).mpr (hread.limited (hrecognised.mpr hword) n hn)
    · exact (hlimit _).mpr (hread.unlimited (hrecognised.mpr hword) hnone)
  · intro hclear
    refine ⟨?_, fun haccepted n hn => ?_, fun haccepted hnone => ?_, fun digits => ?_⟩
    · rw [hrecognised]
      refine ⟨fun hword => ?_, fun htype => ?_⟩
      · by_contra htype
        exact hclear.other htype hword
      · exact (hclear.request htype).elim
          (fun hplain => (wordBehind_iff h.json).mp (wordBehind_of_plainType hplain)) id
    · refine (hlimit _).mp ?_
      rcases hclear.last (hrecognised.mp haccepted) n hn with hplain | hfound
      · exact .inl ⟨n, namesNumber_of_plainLast hplain, rfl⟩
      · exact hfound
    · exact (hlimit _).mp (hclear.absent (hrecognised.mp haccepted) hnone)
    · exact (scanDigits_le digits (Nat.zero_le _)).trans (by decide)

/-- A request for the history that names no limit. -/
def plainRequest : Bytes := lit "\x7b\"type\": \"history\"\x7d"

/-- It is recognised and read exactly. -/
theorem readExactly_iff_plain : ReadExactly plainRequest [([lit "type"], lit "history")] := by
  have hobject : IsObject plainRequest [([lit "type"], lit "history")] :=
    ⟨by decide +kernel, by decide⟩
  have hword : NamesHistory plainRequest :=
    (wordBehind_iff hobject.json).mp ⟨plainRequest.drop 1, by decide, by decide⟩
  have hunquoted : strstr (lit "\"last\"") plainRequest = none := by decide
  have hnone (n : ℤ) : ¬ NamesNumber plainRequest n := by
    rintro ⟨c, rest, ⟨hmarked, -⟩, -⟩
    have hsome := (strstr_isSome_iff (lit "\"last\"") plainRequest).mpr
      ((List.prefix_append (lit "\"last\"") rest).isInfix.trans hmarked.suffix.isInfix)
    rw [hunquoted] at hsome
    cases hsome
  have hfronts : ∀ front ∈ plainRequest.inits,
      (JsonText.run .start front).map Prod.fst ≠ some ⟨[.object (lit "last")], .value⟩ := by
    decide +kernel
  have hmember : ¬ HasMember (lit "last") plainRequest := by
    rintro ⟨front, back, hsplit, ms, hrun⟩
    refine hfronts front ((List.mem_inits front plainRequest).mpr ⟨back, hsplit.symm⟩) ?_
    rw [hrun, Option.map_some]
  refine (readExactly_iff hobject).mpr ⟨fun _ => .inr hword, fun htype => ?_, fun _ n hn => ?_,
    fun _ _ => .inr ⟨hnone, rfl⟩⟩
  · exact absurd List.mem_cons_self htype
  · obtain ⟨front, literal, back, hsplit, hvalue, -⟩ := hn
    exact absurd ⟨front, literal ++ back, by rw [hsplit, List.append_assoc], hvalue⟩ hmember

/-- A status message with a note. -/
def notedStatus : Bytes := lit "\x7b\"type\":\"status\",\"note\":\"history\"\x7d"

/-- It is taken for a history request, though its type is another one. -/
theorem noted_status_accepted :
    IsObject notedStatus [([lit "type"], lit "status"), ([lit "note"], lit "history")] ∧
      isHistoryRequest (payloadText notedStatus) = true ∧
      ¬ TypeIsHistory [([lit "type"], lit "status"), ([lit "note"], lit "history")] ∧
      ¬ ReadExactly notedStatus [([lit "type"], lit "status"), ([lit "note"], lit "history")] := by
  have haccepted : isHistoryRequest (payloadText notedStatus) = true := by decide +kernel
  have htype : ¬ TypeIsHistory [([lit "type"], lit "status"), ([lit "note"], lit "history")] := by
    unfold TypeIsHistory
    decide
  exact ⟨⟨by decide +kernel, by decide⟩, haccepted, htype,
    fun hread => htype (hread.recognised.mp haccepted)⟩

end TelemetryPlatform.HistoryRequests

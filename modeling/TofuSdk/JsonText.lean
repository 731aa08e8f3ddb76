import Mathlib.Data.List.TakeWhile
import Mathlib.Data.String.Basic
import Mathlib.Tactic.Cases

namespace TofuSdk

namespace JsonText

/-- A JSON text: a number is kept as it is spelled, and the members of an
object in their order. -/
inductive Tree
  | null
  | bool (b : Bool)
  | number (lexeme : List Char)
  | string (s : List Char)
  | array (items : List Tree)
  | object (members : List (List Char × Tree))

namespace Tree

@[elab_as_elim] theorem induct {P : Tree → Prop} (null : P .null) (bool : ∀ b, P (.bool b))
    (number : ∀ lexeme, P (.number lexeme)) (string : ∀ s, P (.string s))
    (array : ∀ items, (∀ t ∈ items, P t) → P (.array items))
    (object : ∀ members, (∀ m ∈ members, P m.2) → P (.object members)) (t : Tree) : P t :=
  Tree.rec (motive_1 := P) (motive_2 := fun items => ∀ t ∈ items, P t)
    (motive_3 := fun members => ∀ m ∈ members, P m.2) (motive_4 := fun m => P m.2)
    null bool number string array object
    (by simp) (fun t ts ht hts => List.forall_mem_cons.mpr ⟨ht, hts⟩)
    (by simp) (fun m ms hm hms => List.forall_mem_cons.mpr ⟨hm, hms⟩) (fun _ _ h => h) t

end Tree

def isSpace (c : Char) : Bool := c = ' ' || c = '\n' || c = '\r' || c = '\t'

def skipSpace (cs : List Char) : List Char := cs.dropWhile isSpace

def isNumberChar (c : Char) : Bool := c.isDigit || c = '-' || c = '+' || c = '.' || c = 'e' || c = 'E'

def isWhole : List Char → Bool
  | [] => false
  | ['0'] => true
  | c :: cs => c.isDigit && c != '0' && cs.all Char.isDigit

def isExponent : List Char → Bool
  | [] => true
  | c :: cs =>
      let digits := match cs with
        | '+' :: digits | '-' :: digits => digits
        | digits => digits
      (c = 'e' || c = 'E') && !digits.isEmpty && digits.all Char.isDigit

/-- The number grammar: a whole part without leading zeros, then a fraction and
an exponent, if any. -/
def isNumber (cs : List Char) : Bool :=
  let unsigned := match cs with
    | '-' :: cs => cs
    | cs => cs
  let whole := unsigned.takeWhile Char.isDigit
  let rest := unsigned.dropWhile Char.isDigit
  cs.all isNumberChar && isWhole whole && match rest with
    | '.' :: rest => !(rest.takeWhile Char.isDigit).isEmpty && isExponent (rest.dropWhile Char.isDigit)
    | rest => isExponent rest

def hexDigit (n : Nat) : Char := if n < 10 then Char.ofNat (48 + n) else Char.ofNat (87 + n)

def hexValue (c : Char) : Option Nat :=
  if '0' ≤ c ∧ c ≤ '9' then some (c.toNat - 48)
  else if 'a' ≤ c ∧ c ≤ 'f' then some (c.toNat - 87)
  else if 'A' ≤ c ∧ c ≤ 'F' then some (c.toNat - 55)
  else none

def escapeChar (c : Char) : List Char :=
  if c = '"' then ['\\', '"']
  else if c = '\\' then ['\\', '\\']
  else if c.toNat < 32 then ['\\', 'u', '0', '0', hexDigit (c.toNat / 16), hexDigit (c.toNat % 16)]
  else [c]

def escape (s : List Char) : List Char := s.flatMap escapeChar

def printString (s : List Char) : List Char := '"' :: (escape s ++ ['"'])

def join : List (List Char) → List Char
  | [] => []
  | [text] => text
  | text :: texts => text ++ ',' :: join texts

mutual

def print (t : Tree) : List Char :=
  match t with
  | .null => ['n', 'u', 'l', 'l']
  | .bool true => ['t', 'r', 'u', 'e']
  | .bool false => ['f', 'a', 'l', 's', 'e']
  | .number lexeme => lexeme
  | .string s => printString s
  | .array items => '[' :: (join (printItems items) ++ [']'])
  | .object members => '{' :: (join (printMembers members) ++ ['}'])
termination_by structural t

def printItems (items : List Tree) : List (List Char) :=
  match items with
  | [] => []
  | t :: ts => print t :: printItems ts
termination_by structural items

def printMembers (members : List (List Char × Tree)) : List (List Char) :=
  match members with
  | [] => []
  | (key, t) :: ms => (printString key ++ ':' :: print t) :: printMembers ms
termination_by structural members

end

abbrev Parser (α : Type) := List Char → Option (α × List Char)

def hex4 : Parser Nat
  | a :: b :: c :: d :: cs => do
      let a ← hexValue a
      let b ← hexValue b
      let c ← hexValue c
      let d ← hexValue d
      some (((a * 16 + b) * 16 + c) * 16 + d, cs)
  | _ => none

def unicode : Parser Char := fun cs => do
  let (high, cs) ← hex4 cs
  if 0xD800 ≤ high ∧ high < 0xDC00 then
    match cs with
    | '\\' :: 'u' :: cs => do
        let (low, cs) ← hex4 cs
        if 0xDC00 ≤ low ∧ low < 0xE000 then
          some (Char.ofNat (0x10000 + (high - 0xD800) * 0x400 + (low - 0xDC00)), cs)
        else none
    | _ => none
  else if 0xDC00 ≤ high ∧ high < 0xE000 then none
  else some (Char.ofNat high, cs)

def unescape : Parser Char
  | '"' :: cs => some ('"', cs)
  | '\\' :: cs => some ('\\', cs)
  | '/' :: cs => some ('/', cs)
  | 'b' :: cs => some (Char.ofNat 8, cs)
  | 'f' :: cs => some (Char.ofNat 12, cs)
  | 'n' :: cs => some ('\n', cs)
  | 'r' :: cs => some ('\r', cs)
  | 't' :: cs => some ('\t', cs)
  | 'u' :: cs => unicode cs
  | _ => none

def stringBody : Nat → Parser (List Char)
  | 0, _ => none
  | _ + 1, [] => none
  | fuel + 1, c :: cs =>
      if c = '"' then some ([], cs)
      else if c = '\\' then do
        let (c, cs) ← unescape cs
        let (s, cs) ← stringBody fuel cs
        some (c :: s, cs)
      else if c.toNat < 32 then none
      else do
        let (s, cs) ← stringBody fuel cs
        some (c :: s, cs)

def expect (c : Char) (cs : List Char) : Option (List Char) :=
  match skipSpace cs with
  | d :: cs => if d = c then some cs else none
  | [] => none

def parseString : Parser (List Char) := fun cs => do
  let cs ← expect '"' cs
  stringBody cs.length cs

section

variable {α : Type}

def elements (parse : Parser α) (close : Char) : Nat → Parser (List α)
  | 0, _ => none
  | fuel + 1, cs => do
      let (a, cs) ← parse cs
      match skipSpace cs with
      | c :: cs =>
          if c = ',' then do
            let (as, cs) ← elements parse close fuel cs
            some (a :: as, cs)
          else if c = close then some ([a], cs)
          else none
      | [] => none

def sequence (parse : Parser α) (close : Char) : Parser (List α) := fun cs =>
  match expect close cs with
  | some cs => some ([], cs)
  | none => elements parse close cs.length cs

def member (parse : Parser α) : Parser (List Char × α) := fun cs => do
  let (key, cs) ← parseString cs
  let cs ← expect ':' cs
  let (a, cs) ← parse cs
  some ((key, a), cs)

def word (w : List Char) (a : α) : Parser α := fun cs =>
  if w.isPrefixOf cs then some (a, cs.drop w.length) else none

end

def number : Parser Tree := fun cs =>
  let lexeme := cs.takeWhile isNumberChar
  if isNumber lexeme then some (.number lexeme, cs.dropWhile isNumberChar) else none

def value : Nat → Parser Tree
  | 0, _ => none
  | fuel + 1, cs =>
      match skipSpace cs with
      | [] => none
      | c :: cs =>
          if c = '"' then do
            let (s, cs) ← stringBody cs.length cs
            some (.string s, cs)
          else if c = '[' then do
            let (items, cs) ← sequence (value fuel) ']' cs
            some (.array items, cs)
          else if c = '{' then do
            let (members, cs) ← sequence (member (value fuel)) '}' cs
            some (.object members, cs)
          else if c = 'n' then word ['u', 'l', 'l'] .null cs
          else if c = 't' then word ['r', 'u', 'e'] (.bool true) cs
          else if c = 'f' then word ['a', 'l', 's', 'e'] (.bool false) cs
          else number (c :: cs)

def parse (cs : List Char) : Option Tree := do
  let (t, rest) ← value cs.length cs
  if (skipSpace rest).isEmpty then some t else none

mutual

def wellSpelled (t : Tree) : Bool :=
  match t with
  | .number lexeme => isNumber lexeme
  | .array items => wellSpelledItems items
  | .object members => wellSpelledMembers members
  | _ => true
termination_by structural t

def wellSpelledItems (items : List Tree) : Bool :=
  match items with
  | [] => true
  | t :: ts => wellSpelled t && wellSpelledItems ts
termination_by structural items

def wellSpelledMembers (members : List (List Char × Tree)) : Bool :=
  match members with
  | [] => true
  | (_, t) :: ms => wellSpelled t && wellSpelledMembers ms
termination_by structural members

end

theorem wellSpelledItems_iff {items : List Tree} :
    wellSpelledItems items = true ↔ ∀ t ∈ items, wellSpelled t = true := by
  induction items with
  | nil => simp [wellSpelledItems]
  | cons t ts ih => simp [wellSpelledItems, ih]

theorem wellSpelledMembers_iff {members : List (List Char × Tree)} :
    wellSpelledMembers members = true ↔ ∀ m ∈ members, wellSpelled m.2 = true := by
  induction members with
  | nil => simp [wellSpelledMembers]
  | cons m ms ih => simp [wellSpelledMembers, ih]

def printMember (m : List Char × Tree) : List Char := printString m.1 ++ ':' :: print m.2

theorem printItems_eq (items : List Tree) : printItems items = items.map print := by
  induction items with
  | nil => rfl
  | cons t ts ih => rw [printItems, ih, List.map_cons]

theorem printMembers_eq (members : List (List Char × Tree)) : printMembers members = members.map printMember := by
  induction members with
  | nil => rfl
  | cons m ms ih => rw [printMembers, ih, List.map_cons, printMember]

theorem skipSpace_cons {c : Char} (h : isSpace c = false) (cs : List Char) : skipSpace (c :: cs) = c :: cs := by
  rw [skipSpace, List.dropWhile_cons, h]
  rfl

theorem expect_self {c : Char} (h : isSpace c = false) (cs : List Char) : expect c (c :: cs) = some cs := by
  rw [expect, skipSpace_cons h]
  exact if_pos rfl

theorem expect_of_ne {c d : Char} (h : isSpace d = false) (hne : d ≠ c) (cs : List Char) :
    expect c (d :: cs) = none := by
  rw [expect, skipSpace_cons h]
  exact if_neg hne

theorem hexValue_hexDigit : ∀ n < 16, hexValue (hexDigit n) = some n := by decide

theorem unescape_control {c : Char} (h : c.toNat < 32) (cs : List Char) :
    unescape ('u' :: '0' :: '0' :: hexDigit (c.toNat / 16) :: hexDigit (c.toNat % 16) :: cs) = some (c, cs) := by
  have hhigh := hexValue_hexDigit (c.toNat / 16) (by omega)
  have hlow := hexValue_hexDigit (c.toNat % 16) (by omega)
  have hzero : hexValue '0' = some 0 := rfl
  have hcode : ((0 * 16 + 0) * 16 + c.toNat / 16) * 16 + c.toNat % 16 = c.toNat := by omega
  have hhex : hex4 ('0' :: '0' :: hexDigit (c.toNat / 16) :: hexDigit (c.toNat % 16) :: cs) = some (c.toNat, cs) := by
    simp only [hex4, hhigh, hlow, hzero, Option.bind_eq_bind, Option.bind_some, hcode]
  rw [unescape, unicode, hhex]
  simp only [Option.bind_eq_bind, Option.bind_some]
  rw [if_neg (by omega), if_neg (by omega), Char.ofNat_toNat]

def Escapes (esc : Char → List Char) : Prop :=
  ∀ fuel c cs, stringBody (fuel + 1) (esc c ++ cs) = (stringBody fuel cs).map fun r => (c :: r.1, r.2)

theorem stringBody_unescape {fuel : Nat} {c : Char} {cs cs' : List Char} (h : unescape cs' = some (c, cs)) :
    stringBody (fuel + 1) ('\\' :: cs') = (stringBody fuel cs).map fun r => (c :: r.1, r.2) := by
  rw [stringBody, if_neg (by decide), if_pos rfl, h]
  cases hs : stringBody fuel cs <;> simp [hs]

theorem stringBody_verbatim {fuel : Nat} {c : Char} {cs : List Char} (hquote : c ≠ '"') (hslash : c ≠ '\\')
    (hcontrol : ¬c.toNat < 32) :
    stringBody (fuel + 1) (c :: cs) = (stringBody fuel cs).map fun r => (c :: r.1, r.2) := by
  rw [stringBody, if_neg hquote, if_neg hslash, if_neg hcontrol]
  cases stringBody fuel cs <;> rfl

theorem escapes_escapeChar : Escapes escapeChar := by
  intro fuel c cs
  rw [escapeChar]
  split_ifs with hquote hslash hcontrol
  · exact stringBody_unescape (by rw [hquote]; rfl)
  · exact stringBody_unescape (by rw [hslash]; rfl)
  · exact stringBody_unescape (unescape_control hcontrol cs)
  · exact stringBody_verbatim hquote hslash hcontrol

namespace Escapes

variable {esc : Char → List Char} (h : Escapes esc)

include h

theorem ne_nil (c : Char) : esc c ≠ [] := by
  intro hnil
  have hread := h 0 c ['"']
  rw [hnil] at hread
  cases hread

theorem stringBody_flatMap (s rest : List Char) {fuel : Nat} (hfuel : s.length < fuel) :
    stringBody fuel (s.flatMap esc ++ '"' :: rest) = some (s, rest) := by
  induction s generalizing fuel with
  | nil =>
      obtain ⟨fuel, rfl⟩ := Nat.exists_eq_succ_of_ne_zero (Nat.ne_of_gt hfuel)
      rfl
  | cons c s ih =>
      obtain ⟨fuel, rfl⟩ := Nat.exists_eq_succ_of_ne_zero (Nat.ne_of_gt (Nat.zero_lt_of_lt hfuel))
      rw [List.flatMap_cons, List.append_assoc, Nat.succ_eq_add_one, h, ih (Nat.lt_of_succ_lt_succ hfuel)]
      rfl

theorem length_le (s : List Char) : s.length ≤ (s.flatMap esc).length := by
  induction s with
  | nil => exact Nat.le_refl 0
  | cons c s ih =>
      have hpos : 0 < (esc c).length := List.length_pos_iff.mpr (h.ne_nil c)
      rw [List.flatMap_cons, List.length_append, List.length_cons]
      omega

theorem stringBody_quoted (s rest : List Char) : stringBody (s.flatMap esc ++ '"' :: rest).length
    (s.flatMap esc ++ '"' :: rest) = some (s, rest) := by
  apply h.stringBody_flatMap
  have := h.length_le s
  simp only [List.length_append, List.length_cons]
  omega

theorem parseString_quoted (s rest : List Char) :
    parseString ('"' :: (s.flatMap esc ++ '"' :: rest)) = some (s, rest) := by
  rw [parseString, expect_self (by decide)]
  exact h.stringBody_quoted s rest

theorem value_quoted (s rest : List Char) (fuel : Nat) :
    value (fuel + 1) ('"' :: (s.flatMap esc ++ '"' :: rest)) = some (.string s, rest) := by
  rw [value, skipSpace_cons (by decide)]
  simp only [if_true, h.stringBody_quoted]
  rfl

end Escapes

theorem printString_append (s rest : List Char) :
    printString s ++ rest = '"' :: (s.flatMap escapeChar ++ '"' :: rest) := by
  simp [printString, escape]

def Delimited (cs : List Char) : Prop := ∀ c rest, cs = c :: rest → isNumberChar c = false

theorem delimited_cons {c : Char} (h : isNumberChar c = false) (cs : List Char) : Delimited (c :: cs) := by
  rintro d rest heq
  obtain ⟨rfl, -⟩ := List.cons.inj heq
  exact h

theorem delimited_nil : Delimited [] := fun _ _ h => by cases h

theorem isNumber_chars {lexeme : List Char} (h : isNumber lexeme = true) :
    (∀ c ∈ lexeme, isNumberChar c = true) ∧ lexeme ≠ [] := by
  simp only [isNumber, Bool.and_eq_true, List.all_eq_true] at h
  refine ⟨h.1.1, ?_⟩
  rintro rfl
  simp [isWhole] at h

theorem isDigit_toDigits (n : Nat) : ∀ c ∈ Nat.toDigits 10 n, c.isDigit = true :=
  fun _ => Nat.isDigit_of_mem_toDigits (by decide) (by decide)

theorem isWhole_toDigits (n : Nat) : isWhole (Nat.toDigits 10 n) = true := by
  have hhead : 0 < n → ∃ c cs, Nat.toDigits 10 n = c :: cs ∧ c ≠ '0' := by
    intro hn
    induction n using Nat.strong_induction_on with
    | h n ih =>
        by_cases hlt : n < 10
        · exact ⟨n.digitChar, [], Nat.toDigits_of_lt_base hlt, by simp; omega⟩
        · obtain ⟨c, cs, hcs, hc⟩ := ih (n / 10) (by omega) (by omega)
          refine ⟨c, cs ++ [(n % 10).digitChar], ?_, hc⟩
          rw [Nat.toDigits_of_base_le (by decide) (by omega), hcs, List.cons_append]
  rcases Nat.eq_zero_or_pos n with rfl | hn
  · rfl
  · obtain ⟨c, cs, hcs, hc⟩ := hhead hn
    have hdigits : ∀ d ∈ c :: cs, d.isDigit = true := hcs ▸ isDigit_toDigits n
    have hrest : cs.all Char.isDigit = true := by
      rw [List.all_eq_true]
      exact fun d hd => hdigits d (List.mem_cons_of_mem c hd)
    rw [hcs, isWhole]
    · simp [hdigits c List.mem_cons_self, hc, hrest]
    · rintro rfl
      exact fun _ => hc rfl

theorem isNumber_decimal {whole rest : List Char} (hwhole : isWhole whole = true)
    (hdigits : ∀ c ∈ whole, c.isDigit = true)
    (hrest : rest = [] ∨ ∃ frac, frac ≠ [] ∧ (∀ c ∈ frac, c.isDigit = true) ∧ rest = '.' :: frac) :
    isNumber (whole ++ rest) = true ∧ isNumber ('-' :: (whole ++ rest)) = true := by
  have htake : (whole ++ rest).takeWhile Char.isDigit = whole := by
    rw [List.takeWhile_append_of_pos hdigits]
    rcases hrest with rfl | ⟨frac, -, -, rfl⟩ <;> simp
  have hdrop : (whole ++ rest).dropWhile Char.isDigit = rest := by
    rw [List.dropWhile_append_of_pos hdigits]
    rcases hrest with rfl | ⟨frac, -, -, rfl⟩ <;> simp
  have hchars : (whole ++ rest).all isNumberChar = true := by
    rw [List.all_eq_true]
    intro c hc
    rcases hrest with rfl | ⟨frac, -, hfrac, rfl⟩
    · simp [isNumberChar, hdigits c (by simpa using hc)]
    · simp only [List.mem_append, List.mem_cons] at hc
      rcases hc with hc | rfl | hc
      · simp [isNumberChar, hdigits c hc]
      · decide
      · simp [isNumberChar, hfrac c hc]
  have hfraction : ∀ frac : List Char, frac ≠ [] → (∀ c ∈ frac, c.isDigit = true) →
      (!(frac.takeWhile Char.isDigit).isEmpty && isExponent (frac.dropWhile Char.isDigit)) = true := by
    intro frac hne hfrac
    rw [List.takeWhile_eq_self_iff.mpr hfrac, List.dropWhile_eq_nil_iff.mpr hfrac]
    simp [hne, isExponent]
  constructor
  · rw [isNumber]
    · rw [htake, hdrop, hchars, hwhole]
      rcases hrest with rfl | ⟨frac, hne, hfrac, rfl⟩
      · rfl
      · exact hfraction frac hne hfrac
    · intro cs' h
      cases whole with
      | nil => cases hwhole
      | cons c cs =>
          obtain ⟨rfl, -⟩ := List.cons.inj h
          exact absurd (hdigits '-' List.mem_cons_self) (by decide)
  · have hsign : ('-' :: (whole ++ rest)).all isNumberChar = true := by
      rw [List.all_cons, hchars]
      rfl
    rw [isNumber, htake, hdrop, hsign, hwhole]
    rcases hrest with rfl | ⟨frac, hne, hfrac, rfl⟩
    · rfl
    · exact hfraction frac hne hfrac

theorem isNumber_toString (i : Int) : isNumber (toString i).toList = true := by
  have hnat := fun n => isNumber_decimal (isWhole_toDigits n) (isDigit_toDigits n) (.inl rfl)
  simp only [List.append_nil] at hnat
  rw [Int.toString_eq_repr, Int.repr_eq_if]
  split_ifs
  · rw [Nat.toList_repr]
    exact (hnat _).1
  · rw [String.toList_append, Nat.toList_repr]
    exact (hnat _).2

theorem number_print {lexeme : List Char} (h : isNumber lexeme = true) {rest : List Char} (hrest : Delimited rest) :
    number (lexeme ++ rest) = some (.number lexeme, rest) := by
  have hchars := (isNumber_chars h).1
  have htake : (lexeme ++ rest).takeWhile isNumberChar = lexeme := by
    rw [List.takeWhile_append_of_pos hchars]
    cases rest with
    | nil => simp
    | cons c rest => simp [hrest c rest rfl]
  have hdrop : (lexeme ++ rest).dropWhile isNumberChar = rest := by
    rw [List.dropWhile_append_of_pos hchars]
    cases rest with
    | nil => rfl
    | cons c rest => simp [hrest c rest rfl]
  rw [number, htake, hdrop, if_pos h]

section

variable {α : Type} {parse : Parser α} {print : α → List Char} {close : Char}

theorem elements_comma {a : α} {cs cs' : List Char} (h : parse cs = some (a, ',' :: cs')) (fuel : Nat) :
    elements parse close (fuel + 1) cs = (elements parse close fuel cs').map fun r => (a :: r.1, r.2) := by
  rw [elements, h]
  simp only [Option.bind_eq_bind, Option.bind_some, skipSpace_cons (show isSpace ',' = false by decide), if_true]
  cases elements parse close fuel cs' <;> rfl

theorem elements_close (hspace : isSpace close = false) (hcomma : close ≠ ',') {a : α} {cs cs' : List Char}
    (h : parse cs = some (a, close :: cs')) (fuel : Nat) : elements parse close (fuel + 1) cs = some ([a], cs') := by
  rw [elements, h]
  simp only [Option.bind_eq_bind, Option.bind_some, skipSpace_cons hspace, if_neg hcomma, if_true]

theorem join_cons_cons (text text' : List Char) (texts : List (List Char)) :
    join (text :: text' :: texts) = text ++ ',' :: join (text' :: texts) := by
  rw [join]
  intro h
  cases h

theorem join_cons (text : List Char) (texts : List (List Char)) :
    join (text :: texts) = text ++ texts.flatMap (',' :: ·) := by
  induction texts generalizing text with
  | nil => exact (List.append_nil text).symm
  | cons text' texts ih => rw [join_cons_cons, ih, List.flatMap_cons, List.cons_append]

theorem mem_join {c : Char} {texts : List (List Char)} (h : c ∈ join texts) : c = ',' ∨ ∃ text ∈ texts, c ∈ text := by
  cases texts with
  | nil => cases h
  | cons text texts =>
      rw [join_cons, List.mem_append, List.mem_flatMap] at h
      rcases h with h | ⟨text', htext, h⟩
      · exact .inr ⟨text, List.mem_cons_self, h⟩
      · rcases List.mem_cons.mp h with rfl | h
        · exact .inl rfl
        · exact .inr ⟨text', List.mem_cons_of_mem text htext, h⟩

/-- What is printed between commas and up to a closing character is read back
element by element. -/
theorem elements_join (hspace : isSpace close = false) (hcomma : close ≠ ',') {as : List α} (hne : as ≠ [])
    {rest : List Char} (h : ∀ a ∈ as, ∀ c ∈ [',', close], ∀ rest, parse (print a ++ c :: rest) = some (a, c :: rest))
    {fuel : Nat} (hfuel : as.length ≤ fuel) :
    elements parse close fuel (join (as.map print) ++ close :: rest) = some (as, rest) := by
  induction as generalizing fuel with
  | nil => exact absurd rfl hne
  | cons a as ih =>
      obtain ⟨fuel, rfl⟩ := Nat.exists_eq_succ_of_ne_zero (Nat.ne_of_gt (Nat.lt_of_lt_of_le (Nat.succ_pos _) hfuel))
      cases as with
      | nil => exact elements_close hspace hcomma (h a (by simp) close (by simp) rest) fuel
      | cons b as =>
          have hrest := ih (by simp) (fun a ha => h a (List.mem_cons_of_mem _ ha)) (Nat.le_of_succ_le_succ hfuel)
          rw [List.map_cons] at hrest
          rw [List.map_cons, List.map_cons, join_cons_cons, List.append_assoc, List.cons_append,
            elements_comma (h a (by simp) ',' (by simp) _), hrest]
          rfl

theorem length_le_join {texts : List (List Char)} (h : ∀ text ∈ texts, text ≠ []) :
    texts.length ≤ (join texts).length := by
  induction texts with
  | nil => exact Nat.le_refl 0
  | cons text texts ih =>
      have hpos : 0 < text.length := List.length_pos_iff.mpr (h text List.mem_cons_self)
      have htexts := ih fun t ht => h t (List.mem_cons_of_mem _ ht)
      cases texts with
      | nil => exact hpos
      | cons t ts =>
          simp only [join_cons_cons, List.length_append, List.length_cons] at htexts ⊢
          omega

theorem sequence_join (hspace : isSpace close = false) (hcomma : close ≠ ',') {as : List α} {rest : List Char}
    (hhead : ∀ a ∈ as, ∃ c cs, print a = c :: cs ∧ isSpace c = false ∧ c ≠ close)
    (h : ∀ a ∈ as, ∀ c ∈ [',', close], ∀ rest, parse (print a ++ c :: rest) = some (a, c :: rest)) :
    sequence parse close (join (as.map print) ++ close :: rest) = some (as, rest) := by
  cases as with
  | nil =>
      rw [List.map_nil, join, List.nil_append, sequence, expect_self hspace]
  | cons a as =>
      have hfuel : (a :: as).length ≤ (join ((a :: as).map print) ++ close :: rest).length := by
        have hne : ∀ text ∈ (a :: as).map print, text ≠ [] := by
          intro text htext
          obtain ⟨b, hb, rfl⟩ := List.mem_map.mp htext
          obtain ⟨c, cs, hprint, -⟩ := hhead b hb
          rw [hprint]
          exact List.cons_ne_nil c cs
        have hlen := length_le_join hne
        rw [List.length_map] at hlen
        rw [List.length_append]
        omega
      have hnone : expect close (join ((a :: as).map print) ++ close :: rest) = none := by
        obtain ⟨c, cs, hprint, hc, hne⟩ := hhead a List.mem_cons_self
        have hjoin : ∃ cs', join ((a :: as).map print) ++ close :: rest = c :: cs' := by
          cases as with
          | nil => exact ⟨cs ++ close :: rest, by rw [List.map_singleton, join, hprint, List.cons_append]⟩
          | cons b as =>
              refine ⟨cs ++ ',' :: join ((b :: as).map print) ++ close :: rest, ?_⟩
              rw [List.map_cons, List.map_cons, join_cons_cons, hprint]
              simp
        obtain ⟨cs', hcs'⟩ := hjoin
        rw [hcs']
        exact expect_of_ne hc hne cs'
      rw [sequence, hnone]
      exact elements_join hspace hcomma (List.cons_ne_nil a as) h hfuel

end

theorem ne_of_isNumberChar {c : Char} (h : isNumberChar c = true) :
    ∀ d ∈ [' ', '\n', '\r', '\t', '"', '[', ']', '{', '}', 'n', 't', 'f'], c ≠ d := by
  rintro d hd rfl
  have hfalse : ∀ d ∈ [' ', '\n', '\r', '\t', '"', '[', ']', '{', '}', 'n', 't', 'f'], isNumberChar d = false := by
    simp only [List.mem_cons, List.not_mem_nil, or_false, forall_eq_or_imp, forall_eq]
    decide
  rw [hfalse c hd] at h
  cases h

theorem isSpace_of_isNumberChar {c : Char} (h : isNumberChar c = true) : isSpace c = false := by
  have hne := ne_of_isNumberChar h
  simp only [List.mem_cons, List.not_mem_nil, or_false, forall_eq_or_imp] at hne
  obtain ⟨h₁, h₂, h₃, h₄, -⟩ := hne
  simp [isSpace, h₁, h₂, h₃, h₄]

theorem printable_of_isNumberChar {c : Char} (h : isNumberChar c = true) : 0x20 ≤ c.toNat := by
  simp only [isNumberChar, Bool.or_eq_true, decide_eq_true_eq] at h
  rcases h with ((((h | rfl) | rfl) | rfl) | rfl) | rfl
  · have hdigit : 0x30 ≤ c.toNat := by
      simp only [Char.isDigit, Bool.and_eq_true, decide_eq_true_eq] at h
      exact h.1
    omega
  · decide
  · decide
  · decide
  · decide
  · decide

theorem print_head {t : Tree} (h : wellSpelled t = true) :
    ∃ c cs, print t = c :: cs ∧ isSpace c = false ∧ c ≠ ']' ∧ c ≠ '}' := by
  cases t with
  | bool b => cases b <;> exact ⟨_, _, rfl, by decide⟩
  | number lexeme =>
      obtain ⟨hchars, hne⟩ := isNumber_chars h
      obtain ⟨c, cs, rfl⟩ := List.exists_cons_of_ne_nil hne
      have hc : isNumberChar c = true := hchars c List.mem_cons_self
      exact ⟨c, cs, rfl, isSpace_of_isNumberChar hc, ne_of_isNumberChar hc _ (by simp),
        ne_of_isNumberChar hc _ (by simp)⟩
  | _ => exact ⟨_, _, rfl, by decide⟩

theorem length_le_of_mem_join {text : List Char} {texts : List (List Char)} (h : text ∈ texts) :
    text.length ≤ (join texts).length := by
  induction texts with
  | nil => cases h
  | cons t ts ih =>
      cases ts with
      | nil =>
          rw [List.mem_singleton] at h
          rw [h, join]
      | cons t' ts =>
          rw [join_cons_cons, List.length_append, List.length_cons]
          rcases List.mem_cons.mp h with rfl | h
          · omega
          · have := ih h
            omega

theorem Escapes.member {esc : Char → List Char} (hesc : Escapes esc) {parse : Parser Tree} {key text rest : List Char}
    {t : Tree} (h : parse (text ++ rest) = some (t, rest)) :
    member parse ('"' :: (key.flatMap esc ++ '"' :: ':' :: text) ++ rest) = some ((key, t), rest) := by
  have hkey : '"' :: (key.flatMap esc ++ '"' :: ':' :: text) ++ rest =
      '"' :: (key.flatMap esc ++ '"' :: (':' :: (text ++ rest))) := by simp
  rw [hkey, JsonText.member, hesc.parseString_quoted]
  simp only [Option.bind_eq_bind, Option.bind_some, expect_self (show isSpace ':' = false by decide), h]

theorem member_print {parse : Parser Tree} {m : List Char × Tree} {rest : List Char}
    (h : parse (print m.2 ++ rest) = some (m.2, rest)) : member parse (printMember m ++ rest) = some (m, rest) := by
  have hprint : printMember m = '"' :: (m.1.flatMap escapeChar ++ '"' :: ':' :: print m.2) := by
    rw [printMember, printString_append]
  rw [hprint]
  exact escapes_escapeChar.member h

theorem value_number {lexeme : List Char} (h : isNumber lexeme = true) {rest : List Char} (hrest : Delimited rest)
    (fuel : Nat) : value (fuel + 1) (lexeme ++ rest) = some (.number lexeme, rest) := by
  obtain ⟨hchars, hne⟩ := isNumber_chars h
  obtain ⟨c, cs, rfl⟩ := List.exists_cons_of_ne_nil hne
  have hc : isNumberChar c = true := hchars c List.mem_cons_self
  have hne := ne_of_isNumberChar hc
  rw [List.cons_append, value, skipSpace_cons (isSpace_of_isNumberChar hc)]
  simp only [hne '"' (by simp), hne '[' (by simp), hne '{' (by simp), hne 'n' (by simp), hne 't' (by simp),
    hne 'f' (by simp), if_false]
  exact number_print h hrest

theorem word_append {α : Type} (w : List Char) (a : α) (rest : List Char) :
    word w a (w ++ rest) = some (a, rest) := by
  rw [word, if_pos (List.isPrefixOf_iff_prefix.mpr (List.prefix_append w rest)), List.drop_left]

theorem print_ne_nil {t : Tree} (h : wellSpelled t = true) : 0 < (print t).length := by
  obtain ⟨c, cs, hprint, -⟩ := print_head h
  rw [hprint]
  exact Nat.succ_pos _

theorem delimited_of_mem {c close : Char} (hclose : isNumberChar close = false) (hc : c ∈ [',', close])
    (rest : List Char) : Delimited (c :: rest) := by
  rcases List.mem_cons.mp hc with rfl | hc
  · exact delimited_cons (by decide) rest
  · exact delimited_cons (List.mem_singleton.mp hc ▸ hclose) rest

theorem value_object {render : List Char × Tree → List Char} {fuel : Nat} {members : List (List Char × Tree)}
    {rest : List Char} (hhead : ∀ m ∈ members, ∃ cs, render m = '"' :: cs)
    (h : ∀ m ∈ members, ∀ c ∈ [',', '}'], ∀ rest, member (value fuel) (render m ++ c :: rest) = some (m, c :: rest)) :
    value (fuel + 1) ('{' :: (join (members.map render) ++ '}' :: rest)) = some (.object members, rest) := by
  have hread : sequence (member (value fuel)) '}' (join (members.map render) ++ '}' :: rest) =
      some (members, rest) := by
    refine sequence_join (by decide) (by decide) ?_ h
    intro m hm
    obtain ⟨cs, hcs⟩ := hhead m hm
    exact ⟨'"', cs, hcs, by decide⟩
  rw [value, skipSpace_cons (by decide)]
  simp only [hread]
  rfl

theorem value_print {t : Tree} (h : wellSpelled t = true) {fuel : Nat} (hfuel : (print t).length ≤ fuel + 1)
    {rest : List Char} (hrest : Delimited rest) : value (fuel + 1) (print t ++ rest) = some (t, rest) := by
  induction t using Tree.induct generalizing fuel rest with
  | null => exact word_append ['u', 'l', 'l'] Tree.null rest
  | bool b =>
      cases b with
      | true => exact word_append ['r', 'u', 'e'] (Tree.bool true) rest
      | false => exact word_append ['a', 'l', 's', 'e'] (Tree.bool false) rest
  | number lexeme => exact value_number h hrest fuel
  | string s =>
      rw [print, printString_append]
      exact escapes_escapeChar.value_quoted s rest fuel
  | array items ih =>
      have hitems := wellSpelledItems_iff.mp h
      have hprint : print (.array items) ++ rest = '[' :: (join (items.map print) ++ ']' :: rest) := by
        simp [print, printItems_eq]
      have hread : sequence (value fuel) ']' (join (items.map print) ++ ']' :: rest) = some (items, rest) := by
        refine sequence_join (by decide) (by decide) ?_ ?_
        · intro t ht
          obtain ⟨c, cs, hc, hspace, hne, -⟩ := print_head (hitems t ht)
          exact ⟨c, cs, hc, hspace, hne⟩
        · intro t ht c hc rest
          have hle := length_le_of_mem_join (List.mem_map_of_mem (f := print) ht)
          have hlen : (print t).length ≤ fuel := by
            simp only [print, printItems_eq, List.length_cons, List.length_append] at hfuel
            omega
          obtain ⟨fuel, rfl⟩ := Nat.exists_eq_succ_of_ne_zero
            (Nat.ne_of_gt (Nat.lt_of_lt_of_le (print_ne_nil (hitems t ht)) hlen))
          exact ih t ht (hitems t ht) hlen (delimited_of_mem (by decide) hc rest)
      rw [hprint, value, skipSpace_cons (by decide)]
      simp only [hread]
      rfl
  | object members ih =>
      have hmembers := wellSpelledMembers_iff.mp h
      have hprint : print (.object members) ++ rest = '{' :: (join (members.map printMember) ++ '}' :: rest) := by
        simp [print, printMembers_eq]
      rw [hprint]
      apply value_object
      · exact fun m _ => ⟨_, rfl⟩
      · intro m hm c hc rest
        have hle := length_le_of_mem_join (List.mem_map_of_mem (f := printMember) hm)
        have hlen : (print m.2).length ≤ fuel := by
          simp only [print, printMembers_eq, printMember, List.length_cons, List.length_append] at hfuel hle
          omega
        obtain ⟨fuel, rfl⟩ := Nat.exists_eq_succ_of_ne_zero
          (Nat.ne_of_gt (Nat.lt_of_lt_of_le (print_ne_nil (hmembers m hm)) hlen))
        exact member_print (ih m hm (hmembers m hm) hlen (delimited_of_mem (by decide) hc rest))

theorem parse_print {t : Tree} (h : wellSpelled t = true) : parse (print t) = some t := by
  obtain ⟨fuel, hfuel⟩ := Nat.exists_eq_succ_of_ne_zero (Nat.ne_of_gt (print_ne_nil h))
  have hread := value_print h (Nat.le_of_eq hfuel) delimited_nil
  rw [List.append_nil] at hread
  rw [parse, hfuel, Nat.succ_eq_add_one, hread]
  rfl

end JsonText

end TofuSdk

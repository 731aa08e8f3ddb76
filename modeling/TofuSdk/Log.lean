import TofuSdk.RealCrates

namespace TofuSdk

namespace Log

inductive Level
  | error | warn | info | debug | trace
deriving DecidableEq

def levelStr : Level → String
  | .error => "error"
  | .warn => "warn"
  | .info => "info"
  | .debug => "debug"
  | .trace => "trace"

/-- What an event records of a field; a value that is shown by its `Debug` is
given by what that prints. -/
inductive FieldValue
  | debug (rendered : String)
  | str (value : String)
  | i64 (value : Int64)
  | u64 (value : UInt64)
  | bool (value : Bool)
  | f64 (value : F64)

def hex04 (n : Nat) : List Char :=
  [n / 0x1000 % 16, n / 0x100 % 16, n / 0x10 % 16, n % 16].map JsonText.hexDigit

def jsonChar (c : Char) : List Char :=
  match c with
  | '"' => ['\\', '"']
  | '\\' => ['\\', '\\']
  | '\n' => ['\\', 'n']
  | '\r' => ['\\', 'r']
  | '\t' => ['\\', 't']
  | c => if c.toNat < 0x20 then '\\' :: 'u' :: hex04 c.toNat else [c]

def jsonString (raw : String) : String := String.ofList ('"' :: (raw.toList.flatMap jsonChar ++ ['"']))

/-- The message of an event, and each other field with the JSON token of its
value. -/
structure JsonVisitor where
  message : String := ""
  fields : List (String × String) := []

namespace JsonVisitor

def push (visitor : JsonVisitor) (field jsonValue : String) : JsonVisitor :=
  { visitor with fields := visitor.fields ++ [(field, jsonValue)] }

def recordText (visitor : JsonVisitor) (field text : String) : JsonVisitor :=
  if field = "message" then { visitor with message := text } else visitor.push field (jsonString text)

def recordDebug (visitor : JsonVisitor) (field rendered : String) : JsonVisitor := visitor.recordText field rendered

def recordStr (visitor : JsonVisitor) (field value : String) : JsonVisitor := visitor.recordText field value

def recordI64 (visitor : JsonVisitor) (field : String) (value : Int64) : JsonVisitor :=
  visitor.push field (toString value.toInt)

def recordU64 (visitor : JsonVisitor) (field : String) (value : UInt64) : JsonVisitor :=
  visitor.push field (toString value.toNat)

def recordBool (visitor : JsonVisitor) (field : String) (value : Bool) : JsonVisitor :=
  visitor.push field (if value then "true" else "false")

section

variable (display : F64 → String)

def recordF64 (visitor : JsonVisitor) (field : String) (value : F64) : JsonVisitor :=
  if value.isFinite then visitor.push field (display value) else visitor.push field (jsonString (display value))

def record (visitor : JsonVisitor) (field : String × FieldValue) : JsonVisitor :=
  match field with
  | (name, .debug rendered) => visitor.recordDebug name rendered
  | (name, .str value) => visitor.recordStr name value
  | (name, .i64 value) => visitor.recordI64 name value
  | (name, .u64 value) => visitor.recordU64 name value
  | (name, .bool value) => visitor.recordBool name value
  | (name, .f64 value) => visitor.recordF64 display name value

def collect (fields : List (String × FieldValue)) : JsonVisitor := fields.foldl (record display) {}

end

end JsonVisitor

def buildLine (level module timestamp message : String) (fields : List (String × String)) : String :=
  let s := "".push '{' ++ "\"@level\":" ++ jsonString level ++ ",\"@message\":" ++ jsonString message ++
    ",\"@module\":" ++ jsonString module ++ ",\"@timestamp\":" ++ jsonString timestamp
  (fields.foldl (fun s field => s.push ',' ++ jsonString field.1 ++ "".push ':' ++ field.2) s).push '}'

def event (display : F64 → String) (level : Level) (target timestamp : String) (fields : List (String × FieldValue)) :
    String :=
  let visitor := JsonVisitor.collect display fields
  buildLine (levelStr level) target timestamp visitor.message visitor.fields

namespace FieldValue

def text : FieldValue → Option String
  | .debug s | .str s => some s
  | _ => none

def tree (display : F64 → String) : FieldValue → JsonText.Tree
  | .debug s | .str s => .string s.toList
  | .i64 i => .number (toString i.toInt).toList
  | .u64 u => .number (toString u.toNat).toList
  | .bool b => .bool b
  | .f64 f => if f.isFinite then .number (display f).toList else .string (display f).toList

end FieldValue

def isMessage (field : String × FieldValue) : Bool := field.1 = "message" && field.2.text.isSome

/-- The last text recorded as the message. -/
def messageOf (fields : List (String × FieldValue)) : String :=
  ((fields.filter isMessage).getLast?.bind fun field => field.2.text).getD ""

def quoted (name value : String) : String × JsonText.Tree := (name, .string value.toList)

def core (level message module timestamp : String) : List (String × JsonText.Tree) :=
  [quoted "@level" level, quoted "@message" message, quoted "@module" module, quoted "@timestamp" timestamp]

/-- The members of the fields that are no message. -/
def members (display : F64 → String) (fields : List (String × FieldValue)) : List (String × JsonText.Tree) :=
  (fields.filter fun field => !isMessage field).map fun field => (field.1, field.2.tree display)

/-- A text without control characters, which is one object with these members. -/
structure IsLine (members : List (String × JsonText.Tree)) (line : String) : Prop where
  printable : ∀ c ∈ line.toList, 0x20 ≤ c.toNat
  parsed : JsonText.parse line.toList = some (.object (members.map fun m => (m.1.toList, m.2)))

theorem jsonChar_control {c : Char} (h : c.toNat < 0x20) :
    '\\' :: 'u' :: hex04 c.toNat =
      ['\\', 'u', '0', '0', JsonText.hexDigit (c.toNat / 16), JsonText.hexDigit (c.toNat % 16)] := by
  have hzero : c.toNat / 0x1000 % 16 = 0 ∧ c.toNat / 0x100 % 16 = 0 ∧ c.toNat / 0x10 % 16 = c.toNat / 16 := by omega
  rw [hex04, hzero.1, hzero.2.1, hzero.2.2]
  rfl

theorem jsonChar_cases (c : Char) :
    (∃ e, jsonChar c = ['\\', e] ∧ 0x20 ≤ e.toNat ∧ ∀ cs, JsonText.unescape (e :: cs) = some (c, cs)) ∨
    (c.toNat < 0x20 ∧ jsonChar c =
      ['\\', 'u', '0', '0', JsonText.hexDigit (c.toNat / 16), JsonText.hexDigit (c.toNat % 16)]) ∨
    (jsonChar c = [c] ∧ c ≠ '"' ∧ c ≠ '\\' ∧ ¬c.toNat < 0x20) := by
  by_cases hquote : c = '"'
  · exact .inl ⟨'"', by rw [hquote]; rfl, by decide, fun cs => by rw [hquote]; rfl⟩
  by_cases hslash : c = '\\'
  · exact .inl ⟨'\\', by rw [hslash]; rfl, by decide, fun cs => by rw [hslash]; rfl⟩
  by_cases hline : c = '\n'
  · exact .inl ⟨'n', by rw [hline]; rfl, by decide, fun cs => by rw [hline]; rfl⟩
  by_cases hreturn : c = '\r'
  · exact .inl ⟨'r', by rw [hreturn]; rfl, by decide, fun cs => by rw [hreturn]; rfl⟩
  by_cases htab : c = '\t'
  · exact .inl ⟨'t', by rw [htab]; rfl, by decide, fun cs => by rw [htab]; rfl⟩
  have hjson : jsonChar c = if c.toNat < 0x20 then '\\' :: 'u' :: hex04 c.toNat else [c] := by
    unfold jsonChar
    split <;> simp_all
  by_cases hcontrol : c.toNat < 0x20
  · rw [if_pos hcontrol, jsonChar_control hcontrol] at hjson
    exact .inr (.inl ⟨hcontrol, hjson⟩)
  · rw [if_neg hcontrol] at hjson
    exact .inr (.inr ⟨hjson, hquote, hslash, hcontrol⟩)

theorem escapes_jsonChar : JsonText.Escapes jsonChar := by
  intro fuel c cs
  obtain ⟨e, hjson, -, hread⟩ | ⟨hcontrol, hjson⟩ | ⟨hjson, hquote, hslash, hcontrol⟩ := jsonChar_cases c
  · rw [hjson]
    exact JsonText.stringBody_unescape (hread cs)
  · rw [hjson]
    exact JsonText.stringBody_unescape (JsonText.unescape_control hcontrol cs)
  · rw [hjson]
    exact JsonText.stringBody_verbatim hquote hslash hcontrol

theorem le_hexDigit {n : Nat} (h : n < 16) : 0x20 ≤ (JsonText.hexDigit n).toNat := by
  interval_cases n <;> decide

theorem printable_jsonChar {c d : Char} (h : d ∈ jsonChar c) : 0x20 ≤ d.toNat := by
  obtain ⟨e, hjson, he, -⟩ | ⟨hcontrol, hjson⟩ | ⟨hjson, -, -, hcontrol⟩ := jsonChar_cases c
  · rw [hjson, List.mem_pair] at h
    rcases h with rfl | rfl
    · decide
    · exact he
  · have hhigh := le_hexDigit (n := c.toNat / 16) (by omega)
    have hlow := le_hexDigit (n := c.toNat % 16) (by omega)
    rw [hjson] at h
    simp only [List.mem_cons, List.not_mem_nil, or_false] at h
    rcases h with rfl | rfl | rfl | rfl | rfl | rfl
    · decide
    · decide
    · decide
    · decide
    · exact hhigh
    · exact hlow
  · rw [hjson, List.mem_singleton] at h
    rw [h]
    exact Nat.le_of_not_lt hcontrol

def token : JsonText.Tree → List Char
  | .string s => '"' :: (s.flatMap jsonChar ++ ['"'])
  | tree => JsonText.print tree

def render (member : List Char × JsonText.Tree) : List Char :=
  '"' :: (member.1.flatMap jsonChar ++ '"' :: ':' :: token member.2)

def rendered (members : List (String × JsonText.Tree)) : List (String × String) :=
  members.map fun m => (m.1, String.ofList (token m.2))

theorem toList_jsonString (raw : String) : (jsonString raw).toList = token (.string raw.toList) := String.toList_ofList

section

variable (display : F64 → String)

theorem record_of_text (visitor : JsonVisitor) (name : String) {value : FieldValue} {s : String}
    (h : value.text = some s) : visitor.record display (name, value) = visitor.recordText name s := by
  cases value with
  | debug rendered | str value =>
      cases h
      rfl
  | _ => cases h

theorem record_of_token (visitor : JsonVisitor) (name : String) {value : FieldValue} (h : value.text = none) :
    visitor.record display (name, value) = visitor.push name (String.ofList (token (value.tree display))) := by
  cases value with
  | debug | str => cases h
  | i64 i =>
      rw [FieldValue.tree, token, JsonText.print, String.ofList_toList]
      · rfl
      · simp
  | u64 u =>
      rw [FieldValue.tree, token, JsonText.print, String.ofList_toList]
      · rfl
      · simp
  | bool b => cases b <;> rfl
  | f64 f =>
      rw [JsonVisitor.record, JsonVisitor.recordF64, FieldValue.tree]
      split_ifs with hf
      · rw [token, JsonText.print, String.ofList_toList]
        simp
      · rfl

theorem record_eq (visitor : JsonVisitor) (field : String × FieldValue) :
    visitor.record display field =
      if isMessage field then { visitor with message := field.2.text.getD "" }
      else { visitor with fields := visitor.fields ++ rendered [(field.1, field.2.tree display)] } := by
  obtain ⟨name, value⟩ := field
  cases htext : value.text with
  | none =>
      rw [record_of_token display visitor name htext, if_neg (by simp [isMessage, htext])]
      rfl
  | some s =>
      rw [record_of_text display visitor name htext, JsonVisitor.recordText]
      by_cases hname : name = "message"
      · rw [if_pos hname, if_pos (by simp [isMessage, hname, htext]), Option.getD_some]
      · have htree : value.tree display = .string s.toList := by
          cases value with
          | debug | str =>
              cases htext
              rfl
          | _ => cases htext
        rw [if_neg hname, if_neg (by simp [isMessage, hname]), htree]
        rfl

theorem collect_eq (fields : List (String × FieldValue)) :
    JsonVisitor.collect display fields = ⟨messageOf fields, rendered (members display fields)⟩ := by
  induction fields using List.reverseRecOn with
  | nil => rfl
  | append_singleton fields field ih =>
      have hcollect : JsonVisitor.collect display (fields ++ [field]) =
          (JsonVisitor.collect display fields).record display field := List.foldl_append
      rw [hcollect, ih, record_eq, messageOf, messageOf, members, members, List.filter_append, List.filter_append]
      by_cases hmessage : isMessage field = true
      · simp [hmessage]
      · simp [hmessage, rendered]

end

theorem toList_foldl (s : String) (members : List (String × JsonText.Tree)) :
    ((rendered members).foldl (fun s field => s.push ',' ++ jsonString field.1 ++ "".push ':' ++ field.2) s).toList =
      s.toList ++ (members.map fun m => render (m.1.toList, m.2)).flatMap (',' :: ·) := by
  induction members generalizing s with
  | nil => simp [rendered]
  | cons m members ih =>
      rw [rendered] at ih ⊢
      rw [List.map_cons, List.foldl_cons, ih, List.map_cons, List.flatMap_cons]
      simp [render, toList_jsonString, token]

theorem toList_buildLine (level module timestamp message : String) (members : List (String × JsonText.Tree)) :
    (buildLine level module timestamp message (rendered members)).toList =
      '{' :: (JsonText.join ((core level message module timestamp ++ members).map fun m => render (m.1.toList, m.2)) ++
        ['}']) := by
  have hlevel : "\"@level\":".toList = '"' :: ("@level".toList.flatMap jsonChar ++ ['"', ':']) := rfl
  have hmessage : ",\"@message\":".toList = ',' :: '"' :: ("@message".toList.flatMap jsonChar ++ ['"', ':']) := rfl
  have hmodule : ",\"@module\":".toList = ',' :: '"' :: ("@module".toList.flatMap jsonChar ++ ['"', ':']) := rfl
  have htimestamp : ",\"@timestamp\":".toList = ',' :: '"' :: ("@timestamp".toList.flatMap jsonChar ++ ['"', ':']) :=
    rfl
  have hopen : ("".push '{').toList = ['{'] := rfl
  rw [buildLine, String.toList_push, toList_foldl]
  simp only [String.toList_append, hopen, hlevel, hmessage, hmodule, htimestamp, toList_jsonString, core, quoted,
    render, token, List.cons_append, List.nil_append, List.map_cons, JsonText.join_cons, List.flatMap_cons,
    List.append_assoc]

def IsToken : JsonText.Tree → Prop
  | .string _ | .bool _ => True
  | .number lexeme => JsonText.isNumber lexeme = true
  | _ => False

section

variable {tree : JsonText.Tree} (h : IsToken tree)

include h

theorem value_token {rest : List Char} (hrest : JsonText.Delimited rest) (fuel : Nat) :
    JsonText.value (fuel + 1) (token tree ++ rest) = some (tree, rest) := by
  cases tree with
  | string s =>
      rw [token, List.cons_append, List.append_assoc]
      exact escapes_jsonChar.value_quoted s rest fuel
  | bool b =>
      cases b with
      | true => exact JsonText.word_append ['r', 'u', 'e'] (JsonText.Tree.bool true) rest
      | false => exact JsonText.word_append ['a', 'l', 's', 'e'] (JsonText.Tree.bool false) rest
  | number lexeme => exact JsonText.value_number h hrest fuel
  | _ => cases h

theorem printable_token {c : Char} (hc : c ∈ token tree) : 0x20 ≤ c.toNat := by
  cases tree with
  | string s =>
      rw [token, List.mem_cons, List.mem_append, List.mem_flatMap, List.mem_singleton] at hc
      rcases hc with rfl | ⟨d, -, hc⟩ | rfl
      · decide
      · exact printable_jsonChar hc
      · decide
  | bool b =>
      have hall : (token (.bool b)).all (fun c => decide (0x20 ≤ c.toNat)) = true := by
        cases b <;> rfl
      exact of_decide_eq_true (List.all_eq_true.mp hall c hc)
  | number lexeme => exact JsonText.printable_of_isNumberChar ((JsonText.isNumber_chars h).1 c hc)
  | _ => cases h

end

theorem printable_render {m : List Char × JsonText.Tree} (h : IsToken m.2) {c : Char} (hc : c ∈ render m) :
    0x20 ≤ c.toNat := by
  rw [render, List.mem_cons, List.mem_append, List.mem_flatMap, List.mem_cons, List.mem_cons] at hc
  rcases hc with rfl | ⟨d, -, hc⟩ | rfl | rfl | hc
  · decide
  · exact printable_jsonChar hc
  · decide
  · decide
  · exact printable_token h hc

theorem parse_render {members : List (List Char × JsonText.Tree)} (h : ∀ m ∈ members, IsToken m.2) :
    JsonText.parse ('{' :: (JsonText.join (members.map render) ++ ['}'])) = some (.object members) := by
  have hread := @JsonText.value_object render (JsonText.join (members.map render)).length.succ members []
    (fun m _ => ⟨_, rfl⟩) fun m hm c hc rest => escapes_jsonChar.member
      (value_token (h m hm) (JsonText.delimited_of_mem (by decide) hc rest) _)
  have hlength : ('{' :: (JsonText.join (members.map render) ++ ['}'])).length =
      (JsonText.join (members.map render)).length.succ + 1 := by simp
  rw [JsonText.parse, hlength, hread]
  rfl

theorem isLine_buildLine (level module timestamp message : String) {members : List (String × JsonText.Tree)}
    (h : ∀ m ∈ members, IsToken m.2) :
    IsLine (core level message module timestamp ++ members)
      (buildLine level module timestamp message (rendered members)) := by
  have htokens : ∀ m ∈ (core level message module timestamp ++ members).map fun m => (m.1.toList, m.2),
      IsToken m.2 := by
    intro m hm
    obtain ⟨m', hm', rfl⟩ := List.mem_map.mp hm
    rcases List.mem_append.mp hm' with hcore | hm'
    · simp only [core, quoted, List.mem_cons, List.not_mem_nil, or_false] at hcore
      rcases hcore with rfl | rfl | rfl | rfl <;> trivial
    · exact h m' hm'
  have hline : (buildLine level module timestamp message (rendered members)).toList = '{' :: (JsonText.join
      (((core level message module timestamp ++ members).map fun m => (m.1.toList, m.2)).map render) ++ ['}']) := by
    rw [toList_buildLine, List.map_map]
    rfl
  constructor
  · intro c hc
    rw [hline, List.mem_cons, List.mem_append, List.mem_singleton] at hc
    rcases hc with rfl | hc | rfl
    · decide
    · rcases JsonText.mem_join hc with rfl | ⟨text, htext, hc⟩
      · decide
      · obtain ⟨m, hm, rfl⟩ := List.mem_map.mp htext
        exact printable_render (htokens m hm) hc
    · decide
  · rw [hline]
    exact parse_render htokens

section

variable {display : F64 → String}
  (hdisplay : ∀ f : F64, f.isFinite = true → JsonText.isNumber (display f).toList = true)

include hdisplay

theorem isToken_tree (value : FieldValue) : IsToken (value.tree display) := by
  cases value with
  | debug | str | bool => trivial
  | i64 i => exact JsonText.isNumber_toString i.toInt
  | u64 u => exact JsonText.isNumber_toString (u.toNat : Int)
  | f64 f =>
      rw [FieldValue.tree]
      split_ifs with hf
      · exact hdisplay f hf
      · trivial

theorem isLine_collect (level module timestamp : String) (fields : List (String × FieldValue)) :
    IsLine (core level (messageOf fields) module timestamp ++ members display fields)
      (buildLine level module timestamp (JsonVisitor.collect display fields).message
        (JsonVisitor.collect display fields).fields) := by
  rw [collect_eq]
  apply isLine_buildLine
  intro m hm
  obtain ⟨field, -, rfl⟩ := List.mem_map.mp hm
  exact isToken_tree hdisplay field.2

end

/-- Whatever an event records, its line is one object of hclog's members and of
those that were recorded, in order and unchanged. -/
theorem isLine_event (display : F64 → String)
    (hdisplay : ∀ f : F64, f.isFinite = true → JsonText.isNumber (display f).toList = true)
    (level : Level) (target timestamp : String) (fields : List (String × FieldValue)) :
    IsLine (core (levelStr level) (messageOf fields) target timestamp ++ members display fields)
      (event display level target timestamp fields) :=
  isLine_collect hdisplay (levelStr level) target timestamp fields

def plainDecimal (f : F64) : String := String.ofList (Json.spellFloat f.value)

def diskFull : List (String × FieldValue) :=
  [("error", .debug "Os \"no space\"\n"), ("message", .str "disk \"full\""), ("used", .f64 (BinaryFloat.ofRat (3 / 2))),
    ("left", .i64 (-3)), ("@level", .str "\",\"injected\":\""), ("fatal", .bool true)]

theorem isLine_diskFull :
    IsLine (core "error" (messageOf diskFull) "provider" "2026-06-06T00:00:00Z" ++ members plainDecimal diskFull)
      (event plainDecimal .error "provider" "2026-06-06T00:00:00Z" diskFull) := by
  apply isLine_event plainDecimal _ .error
  intro f hf
  rw [plainDecimal, String.toList_ofList]
  exact Json.isNumber_spellFloat f.value

end Log

end TofuSdk

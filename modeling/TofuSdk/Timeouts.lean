import TofuSdk.Value

namespace TofuSdk

/-- A duration in nanoseconds, its whole seconds within a `u64`. -/
structure Duration where
  nanos : Nat
  bound : nanos < 2 ^ 64 * 10 ^ 9

namespace Duration

def zero : Duration := ⟨0, by norm_num⟩

def fromSecsF64 (seconds : F64) : Except String Duration :=
  let nanos := (BinaryFloat.roundEven (seconds.value * 10 ^ 9)).toNat
  if h : nanos < 2 ^ 64 * 10 ^ 9 then .ok ⟨nanos, h⟩
  else .error "cannot convert float seconds to Duration: value is either too big or NaN"

def add (d e : Duration) : Except String Duration :=
  if h : d.nanos + e.nanos < 2 ^ 64 * 10 ^ 9 then .ok ⟨d.nanos + e.nanos, h⟩
  else .error "overflow when adding durations"

def asSecsF64 (d : Duration) : F64 :=
  let whole : F64 := BinaryFloat.ofInt ((d.nanos / 10 ^ 9 : Nat) : Int)
  let rest : F64 := BinaryFloat.ofRat (((d.nanos % 10 ^ 9 : Nat) : Rat) / 10 ^ 9)
  BinaryFloat.ofRat (whole.value + rest.value)

end Duration

namespace Timeouts

def blockName : String := "timeouts"

def isNumeric (c : Char) : Bool := c.isDigit || c == '.'

def isWhiteSpace (c : Char) : Bool :=
  let n := c.toNat
  decide (0x9 ≤ n ∧ n ≤ 0xD) || decide (0x2000 ≤ n ∧ n ≤ 0x200A) ||
    [0x20, 0x85, 0xA0, 0x1680, 0x2028, 0x2029, 0x202F, 0x205F, 0x3000].contains n

def trim (cs : List Char) : List Char :=
  ((cs.dropWhile isWhiteSpace).reverse.dropWhile isWhiteSpace).reverse

def inSeconds (value : F64) (unit : String) : Option F64 :=
  match unit with
  | "ns" => some (value.mul (.ofRat (1 / 10 ^ 9)))
  | "us" | "µs" | "μs" => some (value.mul (.ofRat (1 / 10 ^ 6)))
  | "ms" => some (value.mul (.ofRat (1 / 10 ^ 3)))
  | "s" => some value
  | "m" => some (value.mul (.ofRat 60))
  | "h" => some (value.mul (.ofRat 3600))
  | _ => none

def parseTerms (runs : List (List Char)) (total : Duration) : Except String (Option Duration) :=
  match runs with
  | [] => .ok (some total)
  | [_] => .ok none
  | number :: unit :: rest =>
      let value := if number.all isNumeric then Number.parseF64 number else none
      match value.bind (inSeconds · (String.ofList unit)) with
      | some seconds =>
          if !seconds.isFinite || decide (seconds.value < 0) then .ok none
          else do
            let term ← Duration.fromSecsF64 seconds
            let total ← total.add term
            parseTerms rest total
      | none => .ok none

/-- A duration as Go spells it. Malformed input is no duration, an overflow
panics. -/
def parseGoDuration (input : String) : Except String (Option Duration) :=
  let s := trim input.toList
  if s.isEmpty then .ok none
  else if s = ['0'] then .ok (some .zero)
  else parseTerms (s.splitBy fun a b => isNumeric a == isNumeric b) .zero

/-- A single nested block, or the first element of a repeated one. -/
def blockEntries : Value → Option Fields
  | .object fields | .map fields => some fields
  | .list (.object fields :: _) | .set (.object fields :: _) => some fields
  | _ => none

def forOperation (value : Value) (operation : String) : Except String (Option Duration) :=
  match value with
  | .object fields =>
      match ((fields.get? blockName).bind blockEntries).bind (·.get? operation) with
      | some (.string s) => parseGoDuration s
      | _ => .ok none
  | _ => .ok none

def decimals (f : F64) : Nat → Nat → Nat
  | 0, d => d
  | fuel + 1, d =>
      if (BinaryFloat.ofRat (BinaryFloat.roundEven (f.value * 10 ^ d) / 10 ^ d) : F64) = f then d
      else decimals f fuel (d + 1)

def display (f : F64) : String :=
  let d := decimals f 17 1
  let scaled := (BinaryFloat.roundEven (f.value * 10 ^ d)).toNat
  let fraction := toString (scaled % 10 ^ d)
  toString (scaled / 10 ^ d) ++ "." ++ String.ofList (List.replicate (d - fraction.length) '0') ++ fraction

def humanize (d : Duration) : String :=
  let secs := d.asSecsF64
  if 1 ≤ secs.value ∧ secs.isIntegral = true then toString (secs.toIntSat 0 (2 ^ 64 - 1)) ++ "s"
  else if 1 ≤ secs.value then display secs ++ "s"
  else toString (d.nanos / 10 ^ 6) ++ "ms"

end Timeouts

end TofuSdk

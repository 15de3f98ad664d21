import Mathlib.Data.List.DropRight
import Mathlib.Tactic

set_option autoImplicit false

namespace Text

section Utf8

def isContinuation (byte : UInt8) : Bool := 0x80 ≤ byte && byte < 0xC0

-- Three-byte sequences that are neither overlong nor a surrogate.
def validSecondOfThree (first second : UInt8) : Bool :=
  if first == 0xE0 then 0xA0 ≤ second && second < 0xC0
  else if first == 0xED then 0x80 ≤ second && second < 0xA0
  else isContinuation second

-- Four-byte sequences that are neither overlong nor above U+10FFFF.
def validSecondOfFour (first second : UInt8) : Bool :=
  if first == 0xF0 then 0x90 ≤ second && second < 0xC0
  else if first == 0xF4 then 0x80 ≤ second && second < 0x90
  else isContinuation second

def payload (byte : UInt8) : Nat := byte.toNat % 64

def nextChar (first : UInt8) (rest : List UInt8) : Option (Char × List UInt8) :=
  if first < 0x80 then some (Char.ofNat first.toNat, rest)
  else match rest with
    | [] => none
    | second :: rest =>
        if 0xC2 ≤ first && first < 0xE0 && isContinuation second then
          some (Char.ofNat (first.toNat % 32 * 64 + payload second), rest)
        else match rest with
          | [] => none
          | third :: rest =>
              if 0xE0 ≤ first && first < 0xF0 && validSecondOfThree first second &&
                  isContinuation third then
                some (Char.ofNat ((first.toNat % 16 * 64 + payload second) * 64 + payload third), rest)
              else match rest with
                | [] => none
                | fourth :: rest =>
                    if 0xF0 ≤ first && first < 0xF5 && validSecondOfFour first second &&
                        isContinuation third && isContinuation fourth then
                      some (Char.ofNat
                        (((first.toNat % 8 * 64 + payload second) * 64 + payload third) * 64 +
                          payload fourth), rest)
                    else none

theorem nextChar_append {first : UInt8} {rest more : List UInt8} {c : Char}
    (next : nextChar first rest = some (c, more)) (tail : List UInt8) :
    nextChar first (rest ++ tail) = some (c, more ++ tail) := by
  rcases rest with _ | ⟨second, _ | ⟨third, _ | ⟨fourth, rest⟩⟩⟩ <;>
    simp only [nextChar, List.nil_append, List.cons_append] at next ⊢ <;> grind

theorem nextChar_length {first : UInt8} {rest more : List UInt8} {c : Char}
    (next : nextChar first rest = some (c, more)) : more.length ≤ rest.length := by
  rcases rest with _ | ⟨second, _ | ⟨third, _ | ⟨fourth, rest⟩⟩⟩ <;>
    simp only [nextChar] at next <;> grind

-- The fuel is the number of bytes that are left: a character takes one at least.
def decodeChars : Nat → List UInt8 → Option (List Char)
  | _, [] => some []
  | 0, _ :: _ => none
  | fuel + 1, first :: rest =>
      (nextChar first rest).bind fun (c, more) => (decodeChars fuel more).map (c :: ·)

def decodeUtf8 (bytes : List UInt8) : Option (List Char) := decodeChars bytes.length bytes

@[simp]
theorem decodeUtf8_nil : decodeUtf8 [] = some [] := rfl

theorem decodeChars_fuel {bytes : List UInt8} {fuel more : Nat} (enough : bytes.length ≤ fuel)
    (ample : bytes.length ≤ more) : decodeChars fuel bytes = decodeChars more bytes := by
  induction fuel generalizing bytes more with
  | zero =>
      obtain rfl := List.length_eq_zero_iff.mp (Nat.le_zero.mp enough)
      cases more <;> rfl
  | succ fuel ih =>
      rcases bytes with _ | ⟨first, rest⟩
      · cases more <;> rfl
      · obtain ⟨more, rfl⟩ := Nat.exists_eq_add_one_of_ne_zero (Nat.ne_zero_of_lt ample)
        refine Option.bind_congr fun (c, left) next => ?_
        have shorter := nextChar_length next
        exact congrArg (Option.map (c :: ·)) (ih (shorter.trans (Nat.le_of_succ_le_succ enough))
          (shorter.trans (Nat.le_of_succ_le_succ ample)))

theorem decodeUtf8_cons (first : UInt8) (rest : List UInt8) :
    decodeUtf8 (first :: rest) =
      (nextChar first rest).bind fun (c, more) => (decodeUtf8 more).map (c :: ·) :=
  Option.bind_congr fun (c, _) next =>
    congrArg (Option.map (c :: ·)) (decodeChars_fuel (nextChar_length next) le_rfl)

theorem nextChar_newline {first : UInt8} {rest tail more : List UInt8} {c : Char}
    (next : nextChar first (rest ++ 10 :: tail) = some (c, more)) :
    ∃ before, nextChar first rest = some (c, before) ∧ more = before ++ 10 :: tail := by
  have newline : isContinuation 10 = false := rfl
  have second : validSecondOfThree first 10 = false ∧ validSecondOfFour first 10 = false := by
    unfold validSecondOfThree validSecondOfFour
    constructor <;> split_ifs <;> rfl
  rcases rest with _ | ⟨second, _ | ⟨third, _ | ⟨fourth, rest⟩⟩⟩ <;>
    simp only [nextChar, List.nil_append, List.cons_append] at next ⊢ <;> grind

theorem decodeUtf8_append {head : List UInt8} {text : List Char} (valid : decodeUtf8 head = some text)
    (tail : List UInt8) : decodeUtf8 (head ++ tail) = (decodeUtf8 tail).map (text ++ ·) := by
  induction size : head.length using Nat.strong_induction_on generalizing head text with
  | _ size ih =>
      subst size
      cases head with
      | nil =>
          cases valid
          simp
      | cons first rest =>
          rw [decodeUtf8_cons] at valid
          obtain ⟨⟨c, more⟩, next, decoded⟩ := Option.bind_eq_some_iff.mp valid
          obtain ⟨front, before, rfl⟩ := Option.map_eq_some_iff.mp decoded
          have shorter : more.length < (first :: rest).length :=
            Nat.lt_succ_of_le (nextChar_length next)
          rw [List.cons_append, decodeUtf8_cons, nextChar_append next tail]
          simp [ih _ shorter before rfl, Function.comp_def]

theorem decodeUtf8_newline {head tail : List UInt8} {text : List Char}
    (valid : decodeUtf8 (head ++ 10 :: tail) = some text) :
    ∃ front back, decodeUtf8 head = some front ∧ decodeUtf8 tail = some back ∧ text = front ++ '\n' :: back := by
  induction size : head.length using Nat.strong_induction_on generalizing head text with
  | _ size ih =>
      subst size
      cases head with
      | nil =>
          rw [List.nil_append, decodeUtf8_cons] at valid
          obtain ⟨back, decoded, rfl⟩ := Option.map_eq_some_iff.mp valid
          exact ⟨[], back, rfl, decoded, rfl⟩
      | cons first rest =>
          rw [List.cons_append, decodeUtf8_cons] at valid
          obtain ⟨⟨c, more⟩, next, decoded⟩ := Option.bind_eq_some_iff.mp valid
          obtain ⟨front, before, rfl⟩ := Option.map_eq_some_iff.mp decoded
          obtain ⟨middle, shorterNext, rfl⟩ := nextChar_newline next
          have shorter : middle.length < (first :: rest).length :=
            Nat.lt_succ_of_le (nextChar_length shorterNext)
          obtain ⟨start, back, decodedStart, decodedBack, rfl⟩ := ih _ shorter before rfl
          refine ⟨c :: start, back, ?_, decodedBack, rfl⟩
          rw [decodeUtf8_cons, shorterNext]
          simp [decodedStart]

end Utf8

section Lines

/-- `BufRead::lines` on the bytes of a file: no line keeps its `\n` or `\r\n`. -/
def bufLines : List UInt8 → List (List UInt8)
  | [] => []
  | 13 :: 10 :: rest => [] :: bufLines rest
  | 10 :: rest => [] :: bufLines rest
  | byte :: rest =>
      match bufLines rest with
      | [] => [[byte]]
      | line :: lines => (byte :: line) :: lines

/-- `str::split_terminator`: a last piece that is empty is left out. -/
def splitTerminator (separator : Char) : List Char → List (List Char)
  | [] => []
  | c :: rest =>
      if c = separator then [] :: splitTerminator separator rest
      else match splitTerminator separator rest with
        | [] => [[c]]
        | line :: lines => (c :: line) :: lines

theorem splitTerminator_terminated (separator : Char) (text : List Char) :
    splitTerminator separator (text ++ [separator]) ≠ [] := by
  cases text with
  | nil => simp [splitTerminator]
  | cons c rest =>
      by_cases same : c = separator
      · simp [splitTerminator, same]
      · simp only [List.cons_append, splitTerminator, same, if_false]
        split <;> simp

theorem splitTerminator_append (separator : Char) (text rest : List Char) :
    splitTerminator separator ((text ++ [separator]) ++ rest) =
      splitTerminator separator (text ++ [separator]) ++ splitTerminator separator rest := by
  induction text with
  | nil => simp [splitTerminator]
  | cons c tail ih =>
      simp only [List.cons_append, splitTerminator, ih]
      by_cases same : c = separator
      · simp [same]
      · have more := splitTerminator_terminated separator tail
        cases pieces : splitTerminator separator (tail ++ [separator]) with
        | nil => exact absurd pieces more
        | cons line lines => simp [same]

def isWhitespace (c : Char) : Bool :=
  let code := c.toNat
  (0x09 ≤ code && code ≤ 0x0D) || code == 0x20 || code == 0x85 || code == 0xA0 || code == 0x1680 ||
    (0x2000 ≤ code && code ≤ 0x200A) || code == 0x2028 || code == 0x2029 || code == 0x202F ||
    code == 0x205F || code == 0x3000

def trim (text : List Char) : List Char := (text.dropWhile isWhitespace).rdropWhile isWhitespace

def splitOnce (separator : Char) (text : List Char) : Option (List Char × List Char) :=
  if separator ∈ text then
    some (text.takeWhile (· ≠ separator), (text.dropWhile (· ≠ separator)).tail)
  else none

-- `char::to_lowercase` as far as its result is ASCII: the Kelvin sign is the one other source of a
-- letter, and characters with another image are left alone.
def toLowercase (text : List Char) : List Char :=
  text.map fun c => if c = Char.ofNat 0x212A then 'k' else c.toLower

end Lines

section Cursor

/-- Reads a value from the front of a text and leaves the rest. -/
abbrev Reader (α : Type) := List Char → Option (α × List Char)

def readGivenChar (expected : Char) : Reader Unit
  | c :: rest => if c = expected then some ((), rest) else none
  | [] => none

def toDigit (radix : Nat) (c : Char) : Option Nat :=
  let digit :=
    if '0' ≤ c ∧ c ≤ '9' then c.toNat - '0'.toNat
    else if 'a' ≤ c ∧ c ≤ 'z' then c.toNat - 'a'.toNat + 10
    else if 'A' ≤ c ∧ c ≤ 'Z' then c.toNat - 'A'.toNat + 10
    else radix
  if digit < radix then some digit else none

def spanDigits (radix : Nat) : List Char → List Nat × List Char
  | [] => ([], [])
  | c :: rest =>
      match toDigit radix c with
      | some digit => (digit :: (spanDigits radix rest).1, (spanDigits radix rest).2)
      | none => ([], c :: rest)

def ofDigits (radix : Nat) (digits : List Nat) : Nat :=
  digits.foldl (fun number digit => number * radix + digit) 0

/-- A number below `limit` of at most `maxDigits` digits. -/
def readNumber (radix maxDigits limit : Nat) (allowZeroPrefix : Bool) : Reader Nat := fun text =>
  let (digits, rest) := spanDigits radix text
  if digits.length = 0 ∨ maxDigits < digits.length then none
  else if !allowZeroPrefix && digits.head? == some 0 && decide (1 < digits.length) then none
  else if ofDigits radix digits < limit then some (ofDigits radix digits, rest) else none

def readToEnd {α : Type} (reader : Reader α) (text : List Char) : Option α :=
  match reader text with
  | some (value, []) => some value
  | _ => none

def Consumed (allowed : Char → Prop) (text rest : List Char) : Prop :=
  ∃ taken, text = taken ++ rest ∧ ∀ c ∈ taken, allowed c

theorem Consumed.refl (allowed : Char → Prop) (text : List Char) : Consumed allowed text text :=
  ⟨[], rfl, by simp⟩

theorem Consumed.trans {allowed : Char → Prop} {text middle rest : List Char}
    (first : Consumed allowed text middle) (second : Consumed allowed middle rest) :
    Consumed allowed text rest := by
  obtain ⟨taken, split, inside⟩ := first
  obtain ⟨more, splitMore, insideMore⟩ := second
  exact ⟨taken ++ more, by simp [split, splitMore], by grind⟩

theorem Consumed.mono {allowed wider : Char → Prop} {text rest : List Char}
    (consumed : Consumed allowed text rest) (weaker : ∀ c, allowed c → wider c) :
    Consumed wider text rest := by
  obtain ⟨taken, split, inside⟩ := consumed
  exact ⟨taken, split, fun c member => weaker c (inside c member)⟩

theorem Consumed.suffix {allowed : Char → Prop} {text rest : List Char}
    (consumed : Consumed allowed text rest) : rest <:+ text := by
  obtain ⟨taken, split, _⟩ := consumed
  exact ⟨taken, split.symm⟩

theorem Consumed.not_mem {allowed : Char → Prop} {text : List Char}
    (consumed : Consumed allowed text []) {c : Char} (forbidden : ¬ allowed c) : c ∉ text := by
  obtain ⟨taken, split, inside⟩ := consumed
  rw [split, List.append_nil]
  exact fun member => forbidden (inside c member)

theorem readGivenChar_eq_some (expected : Char) (text rest : List Char) (done : Unit) :
    readGivenChar expected text = some (done, rest) ↔ text = expected :: rest := by
  cases text with
  | nil => simp [readGivenChar]
  | cons c tail => by_cases same : c = expected <;> simp [readGivenChar, same]

theorem spanDigits_consumed (radix : Nat) (text : List Char) :
    Consumed (fun c => (toDigit radix c).isSome) text (spanDigits radix text).2 := by
  induction text with
  | nil => exact ⟨[], by simp [spanDigits]⟩
  | cons c rest ih =>
      cases digit : toDigit radix c with
      | none => exact ⟨[], by simp [spanDigits, digit]⟩
      | some number =>
          obtain ⟨taken, split, inside⟩ := ih
          refine ⟨c :: taken, ?_, by simpa [digit] using inside⟩
          simpa [spanDigits, digit] using split

theorem readNumber_eq_some {radix maxDigits limit number : Nat} {allowZeroPrefix : Bool}
    {text rest : List Char}
    (read : readNumber radix maxDigits limit allowZeroPrefix text = some (number, rest)) :
    number = ofDigits radix (spanDigits radix text).1 ∧ rest = (spanDigits radix text).2 ∧
      number < limit := by
  simp only [readNumber] at read
  split_ifs at read
  simp only [Option.some.injEq, Prod.mk.injEq] at read
  grind

theorem readNumber_consumed {radix maxDigits limit number : Nat} {allowZeroPrefix : Bool}
    {text rest : List Char}
    (read : readNumber radix maxDigits limit allowZeroPrefix text = some (number, rest)) :
    Consumed (fun c => (toDigit radix c).isSome) text rest :=
  (readNumber_eq_some read).2.1 ▸ spanDigits_consumed radix text

theorem readToEnd_eq_some {α : Type} (reader : Reader α) (text : List Char) (value : α) :
    readToEnd reader text = some value ↔ reader text = some (value, []) := by
  unfold readToEnd
  split <;> simp_all

end Cursor

end Text

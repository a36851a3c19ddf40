import Predictive.Json.Scan

/-!
# Skipping JSON values

A value that nobody asks for is read only as far as needed to find its end. Its strings may hold any bytes and any
escapes of the right form, and its numbers may have any size.
-/

namespace Predictive.Json

/-- Skips a string after its opening quote. -/
def skipString : StringState → Bytes → Except JsonError Bytes
  | _, [] => .error .truncated
  | .plain, b :: rest =>
    if b = byte '"' then .ok rest
    else if b = byte '\\' then skipString .escape rest
    else if b < 0x20 then .error .malformed
    else skipString .plain rest
  | .escape, b :: rest =>
    if b = byte 'u' then skipString (.digits none []) rest
    else if (simpleEscape? b).isSome then skipString .plain rest
    else .error .malformed
  | .digits _ [d₃, d₂, d₁], b :: rest =>
    if (hexNumber? [d₁, d₂, d₃, b]).isSome then skipString .plain rest else .error .malformed
  | .digits high ds, b :: rest => skipString (.digits high (b :: ds)) rest
  | .backslash _, _ :: _ => .error .malformed
  | .marker _, _ :: _ => .error .malformed

/-- Skips at least one digit. -/
def skipDigits (bytes : Bytes) : Except JsonError Bytes :=
  match splitDigits bytes with
  | ([], _) => .error .malformed
  | (_ :: _, rest) => .ok rest

/-- Skips an exponent, if there is one. -/
def skipExponent : Bytes → Except JsonError Bytes
  | [] => .ok []
  | b :: rest =>
    if b = byte 'e' ∨ b = byte 'E' then
      match rest with
      | c :: after => skipDigits (if c = byte '+' ∨ c = byte '-' then after else rest)
      | [] => .error .malformed
    else .ok (b :: rest)

/-- Skips a number after its sign. -/
def skipNumber (bytes : Bytes) : Except JsonError Bytes :=
  match splitDigits bytes with
  | ([], _) => .error .malformed
  | (0 :: _ :: _, _) => .error .malformed
  | (_, b :: rest) =>
    if b = byte '.' then skipDigits rest >>= skipExponent else skipExponent (b :: rest)
  | (_, []) => .ok []

/-- A list or an object that is open. -/
inductive Frame where
  | list
  | object

/-- The byte that closes a list or an object. -/
def Frame.close : Frame → UInt8
  | list => byte ']'
  | object => byte '\x7d'

/-- What is to be skipped next: a value, the inside of a list or object that was just opened, or what comes after
a value. -/
inductive SkipStep where
  | value
  | opened
  | after

/-- Skips what stands before a value in a list or an object: nothing, or a key and a colon. -/
def skipKey (frame : Frame) (bytes : Bytes) : Except JsonError Bytes :=
  match frame with
  | .list => .ok bytes
  | .object =>
    match skipBlank bytes with
    | [] => .error .truncated
    | b :: rest => if b = byte '"' then skipString .plain rest >>= colon else .error .malformed

/-- Skips on until the outermost value ends; `frames` are the open lists and objects, the innermost first. Every
step but one in two reads a byte, which bounds `fuel`. -/
def skipFrom : (fuel : Nat) → SkipStep → List Frame → Bytes → Except JsonError Bytes
  | 0, _, _, _ => .error .truncated
  | _ + 1, .after, [], bytes => .ok bytes
  | fuel + 1, .value, frames, bytes =>
    match skipBlank bytes with
    | [] => .error .truncated
    | b :: rest =>
      if b = byte '[' then skipFrom fuel .opened (.list :: frames) rest
      else if b = byte '\x7b' then skipFrom fuel .opened (.object :: frames) rest
      else do
        let rest ←
          if b = byte 'n' then word "ull".toList rest
          else if b = byte 't' then word "rue".toList rest
          else if b = byte 'f' then word "alse".toList rest
          else if b = byte '-' then skipNumber rest
          else if isDigit b then skipNumber (b :: rest)
          else if b = byte '"' then skipString .plain rest
          else .error .malformed
        skipFrom fuel .after frames rest
  | _ + 1, .opened, [], bytes => .ok bytes
  | fuel + 1, .opened, frame :: frames, bytes =>
    match skipBlank bytes with
    | [] => .error .truncated
    | b :: rest =>
      if b = frame.close then skipFrom fuel .after frames rest
      else do skipFrom fuel .value (frame :: frames) (← skipKey frame (b :: rest))
  | fuel + 1, .after, frame :: frames, bytes =>
    match skipBlank bytes with
    | [] => .error .truncated
    | b :: rest =>
      if b = frame.close then skipFrom fuel .after frames rest
      else if b = byte ',' then do skipFrom fuel .value (frame :: frames) (← skipKey frame rest)
      else .error .malformed

/-- Skips a value. -/
def skipValue (bytes : Bytes) : Except JsonError Bytes := skipFrom (2 * bytes.length + 2) .value [] bytes

end Predictive.Json

import Predictive.Json.Skip
import Predictive.Layout.Basic

/-!
# Reading layouts

A layout is read from the bytes of a JSON text. It is an object with the members `ts`, `nts`, `mod`, `shift`,
`nt-main` and perhaps `fingerprint`, in any order and with other members between them, or a list of these five or
six values. A member may stand only once. What was read must then be a valid layout.
-/

namespace Predictive

namespace Json

/-- Reads a string. -/
def stringValue (bytes : Bytes) : Except JsonError (String × Bytes) :=
  match skipBlank bytes with
  | [] => .error .truncated
  | b :: rest => if b = byte '"' then string rest else .error (mismatch (b :: rest))

/-- Reads a natural number below `2 ^ 32`. -/
def wordValue (bytes : Bytes) : Except JsonError (UInt32 × Bytes) :=
  match skipBlank bytes with
  | [] => .error .truncated
  | b :: rest => do
    let (n, rest) ←
      if b = byte '-' then number true rest
      else if isDigit b then number false (b :: rest)
      else .error (mismatch (b :: rest))
    match n with
    | .natural n => if n < UInt32.size then .ok (UInt32.ofNat n, rest) else .error .unsuitable
    | .other => .error .unsuitable

/-- Reads a truth value. -/
def boolValue (bytes : Bytes) : Except JsonError (Bool × Bytes) :=
  match skipBlank bytes with
  | [] => .error .truncated
  | b :: rest =>
    if b = byte 't' then (word "rue".toList rest).map (true, ·)
    else if b = byte 'f' then (word "alse".toList rest).map (false, ·)
    else .error (mismatch (b :: rest))

/-- Finds the next element of a list, where `first` says that none was read yet: the bytes of the element, or
`none` before the closing bracket. -/
def nextElement (first : Bool) (bytes : Bytes) : Except JsonError (Option Bytes) :=
  match skipBlank bytes with
  | [] => .error .truncated
  | b :: rest =>
    if b = byte ']' then .ok none
    else if first then .ok (some (b :: rest))
    else if b = byte ',' then
      match skipBlank rest with
      | [] => .error .truncated
      | c :: after => if c = byte ']' then .error .malformed else .ok (some (c :: after))
    else .error .malformed

/-- Reads the closing bracket of a list. -/
def endList (bytes : Bytes) : Except JsonError Bytes :=
  match skipBlank bytes with
  | [] => .error .truncated
  | b :: rest => if b = byte ']' then .ok rest else .error .malformed

/-- Reads the strings of a list and its closing bracket. Every string reads a byte, which bounds `fuel`. -/
def stringsFrom : (fuel : Nat) → (first : Bool) → Bytes → Except JsonError (List String × Bytes)
  | 0, _, _ => .error .truncated
  | fuel + 1, first, bytes => do
    match ← nextElement first bytes with
    | none => return ([], ← endList bytes)
    | some bytes =>
      let (s, rest) ← stringValue bytes
      let (more, rest) ← stringsFrom fuel false rest
      return (s :: more, rest)

/-- Reads a list of strings. -/
def stringList (bytes : Bytes) : Except JsonError (List String × Bytes) :=
  match skipBlank bytes with
  | [] => .error .truncated
  | b :: rest =>
    if b = byte '[' then stringsFrom (bytes.length + 1) true rest else .error (mismatch (b :: rest))

/-- Finds the next key of an object, where `first` says that none was read yet: the bytes after its opening
quote, or `none` before the closing brace. -/
def nextKey (first : Bool) (bytes : Bytes) : Except JsonError (Option Bytes) :=
  match skipBlank bytes with
  | [] => .error .truncated
  | b :: rest =>
    if b = byte '\x7d' then .ok none
    else if first then if b = byte '"' then .ok (some rest) else .error .malformed
    else if b = byte ',' then
      match skipBlank rest with
      | [] => .error .truncated
      | c :: after => if c = byte '"' then .ok (some after) else .error .malformed
    else .error .malformed

/-- Reads the closing brace of an object. -/
def endObject (bytes : Bytes) : Except JsonError Bytes :=
  match skipBlank bytes with
  | [] => .error .truncated
  | b :: rest => if b = byte '\x7d' then .ok rest else .error .malformed

end Json

namespace Layout

open Json

/-- Reads a fingerprint or `null`. -/
def fingerprintValue (bytes : Bytes) : Except JsonError (Option Fingerprint × Bytes) :=
  let text : Except JsonError (Option Fingerprint × Bytes) := do
    let (s, rest) ← stringValue bytes
    match Fingerprint.read s with
    | .ok f => .ok (some f, rest)
    | .error _ => .error .unsuitable
  match skipBlank bytes with
  | b :: rest => if b = byte 'n' then (word "ull".toList rest).map (none, ·) else text
  | [] => text

/-- The members of a layout that were read so far. -/
structure Members where
  terminals : Option (List String) := none
  nonterminals : Option (List String) := none
  modulus : Option UInt32 := none
  shift : Option UInt32 := none
  ntMain : Option Bool := none
  fingerprint : Option (Option Fingerprint) := none

/-- The layout of members that are all there; only the fingerprint may be missing. -/
def Members.layout? (m : Members) : Option Layout := do
  return {
    terminals := ← m.terminals
    nonterminals := ← m.nonterminals
    modulus := ← m.modulus
    shift := ← m.shift
    major := if ← m.ntMain then .nonterminal else .terminal
    fingerprint := m.fingerprint.getD none }

/-- Reads a member that was not read before. -/
def once {α : Type} (known : Option α) (value : Bytes → Except JsonError (α × Bytes)) (bytes : Bytes) :
    Except JsonError (Option α × Bytes) :=
  if known.isSome then .error .unsuitable
  else do
    let (a, rest) ← value (← colon bytes)
    return (some a, rest)

/-- Reads the value of a member after its key. The value of an unknown key is skipped. -/
def member (m : Members) (key : String) (bytes : Bytes) : Except JsonError (Members × Bytes) :=
  match key with
  | "ts" => (once m.terminals stringList bytes).map fun (v, rest) => ({ m with terminals := v }, rest)
  | "nts" => (once m.nonterminals stringList bytes).map fun (v, rest) => ({ m with nonterminals := v }, rest)
  | "mod" => (once m.modulus wordValue bytes).map fun (v, rest) => ({ m with modulus := v }, rest)
  | "shift" => (once m.shift wordValue bytes).map fun (v, rest) => ({ m with shift := v }, rest)
  | "nt-main" => (once m.ntMain boolValue bytes).map fun (v, rest) => ({ m with ntMain := v }, rest)
  | "fingerprint" =>
    (once m.fingerprint fingerprintValue bytes).map fun (v, rest) => ({ m with fingerprint := v }, rest)
  | _ => do return (m, ← skipValue (← colon bytes))

/-- Reads the members of an object up to its closing brace. Every member reads a byte, which bounds `fuel`. -/
def membersFrom : (fuel : Nat) → (first : Bool) → Members → Bytes → Except JsonError (Members × Bytes)
  | 0, _, _, _ => .error .truncated
  | fuel + 1, first, m, bytes => do
    match ← nextKey first bytes with
    | none => return (m, bytes)
    | some bytes =>
      let (key, rest) ← string bytes
      let (m, rest) ← member m key rest
      membersFrom fuel false m rest

/-- Reads a layout from an object after its opening brace. -/
def ofObject (bytes : Bytes) : Except JsonError (Layout × Bytes) := do
  let (m, rest) ← membersFrom (bytes.length + 1) true {} bytes
  match m.layout? with
  | none => .error .unsuitable
  | some l => return (l, ← endObject rest)

/-- Reads an element of a list that must be there. -/
def element {α : Type} (first : Bool) (value : Bytes → Except JsonError (α × Bytes)) (bytes : Bytes) :
    Except JsonError (α × Bytes) := do
  match ← nextElement first bytes with
  | none => .error .unsuitable
  | some bytes => value bytes

/-- Reads a layout from a list after its opening bracket. -/
def ofList (bytes : Bytes) : Except JsonError (Layout × Bytes) := do
  let (terminals, rest) ← element true stringList bytes
  let (nonterminals, rest) ← element false stringList rest
  let (modulus, rest) ← element false wordValue rest
  let (shift, rest) ← element false wordValue rest
  let (ntMain, rest) ← element false boolValue rest
  let (fingerprint, rest) ← match ← nextElement false rest with
    | none => pure (none, rest)
    | some bytes => fingerprintValue bytes
  let l : Layout := {
    terminals, nonterminals, modulus, shift, fingerprint
    major := if ntMain then .nonterminal else .terminal }
  return (l, ← endList rest)

/-- Reads a layout and nothing after it. -/
def parse (bytes : Bytes) : Except JsonError Layout := do
  let (l, rest) ← match skipBlank bytes with
    | [] => .error .truncated
    | b :: rest =>
      if b = byte '\x7b' then ofObject rest
      else if b = byte '[' then ofList rest
      else .error (mismatch (b :: rest))
  match skipBlank rest with
  | [] => .ok l
  | _ :: _ => .error .malformed

/-- The layout of a JSON text. -/
def ofJson (bytes : List UInt8) : Except Error Layout :=
  match parse bytes with
  | .ok l => l.validate
  | .error e => .error (.json e)

end Layout

end Predictive

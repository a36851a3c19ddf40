import Predictive.Grammar.Digest
import Predictive.Layout.Numbering
import Predictive.Note
import Predictive.Table.Basic

/-!
# Placing keys

The keys of a table are placed one by one, each at its hash. `place` finds the first key whose place is taken and
the key that has it. So raw hashes are compared before a search (`rawHashes`), and buckets when a layout is checked
against a table (`verify`).
-/

namespace Predictive

/-- Places keys in order, where `owners` holds the places that are taken and by whom. Yields the places, or the key
that has a place and the first one that wants it too. -/
def placeFrom (place : Key → Nat) (owners : List (Nat × Key)) : List Key → Except (Key × Key) (List Nat)
  | [] => .ok []
  | key :: rest =>
    match owners.lookup (place key) with
    | some owner => .error (owner, key)
    | none => (placeFrom place ((place key, key) :: owners) rest).map (place key :: ·)

/-- The places of keys, or the first clash. -/
def place (place : Key → Nat) (keys : List Key) : Except (Key × Key) (List Nat) := placeFrom place [] keys

/-- The raw hash of a key of a table. -/
def keyHash (num : Numbering) (major : Major) (shift : Nat) (key : Key) : Nat :=
  rawHash major shift (num.nonterminalAt key.1) (num.terminalAt key.2)

/-- The raw hashes of all keys of a table, or the first collision. -/
def rawHashes (g : Grammar) (table : Table) (num : Numbering) (major : Major) (shift : Nat) :
    Except Error (List Nat) :=
  if table.keys ≠ [] ∧ 64 ≤ shift then .error .arithmetic
  else
    match place (keyHash num major shift) table.keys with
    | .ok raws => .ok raws
    | .error (first, second) =>
      .error (.rawCollision (g.keyName first.1 first.2) (g.keyName second.1 second.2) shift)

namespace Layout

/-- The buckets of all keys of a table, or the first collision. -/
def buckets (l : Layout) (g : Grammar) (table : Table) (num : Numbering) : Except Error (List Nat) :=
  if table.keys ≠ [] ∧ (64 ≤ l.shift.toNat ∨ l.modulus = 0) then .error .arithmetic
  else
    let bucketOf := fun key : Key => l.bucket (num.nonterminalAt key.1) (num.terminalAt key.2)
    match place bucketOf table.keys with
    | .ok places => .ok places
    | .error (first, second) =>
      .error (.bucketCollision (bucketOf second) (g.keyName first.1 first.2) (g.keyName second.1 second.2))

/-- Accepts a layout that orders the symbols of the grammar and gives every key of the table a bucket of its
own. -/
def verify (l : Layout) (g : Grammar) (table : Table) : Except Error Unit :=
  if l.modulus = 0 then .error (.invalidLayout .zeroModulus)
  else do
    let num ← Numbering.resolve g l
    let _ ← l.buckets g table num

/-- Refuses a layout that was made for another grammar; one that does not say is accepted. -/
def checkFingerprint (l : Layout) (g : Grammar) : Except Error Unit :=
  match l.fingerprint with
  | some found => if found = g.fingerprint then .ok () else .error (.staleLayout g.fingerprint found)
  | none => .ok ()

/-- The warning on a layout that does not say which grammar it was made for. -/
def fingerprintNotes (l : Layout) : List Note :=
  match l.fingerprint with
  | some _ => []
  | none =>
    [.warn "hash config has no grammar fingerprint; staleness is only caught by collisions"]

end Layout

end Predictive

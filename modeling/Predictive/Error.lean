import Predictive.Fingerprint
import Predictive.Issue
import Predictive.Text.Quoted

/-!
# Errors

Why an operation fails, as a cause, and the text of each cause.
-/

namespace Predictive

/-- Why a file operation fails. -/
inductive FileError where
  | notFound
  | alreadyExists
  | notADirectory
  | isADirectory
  /-- The name stands for a directory that cannot be replaced. -/
  | busy
  | nameTooLong
  | tooManyLinks
  | permissionDenied
  | storageFull
  | nulInPath
  | notText
deriving DecidableEq, Inhabited

def FileError.message : FileError → String
  | notFound => "No such file or directory (os error 2)"
  | alreadyExists => "File exists (os error 17)"
  | notADirectory => "Not a directory (os error 20)"
  | isADirectory => "Is a directory (os error 21)"
  | busy => "Device or resource busy (os error 16)"
  | nameTooLong => "File name too long (os error 36)"
  | tooManyLinks => "Too many levels of symbolic links (os error 40)"
  | permissionDenied => "Permission denied (os error 13)"
  | storageFull => "No space left on device (os error 28)"
  | nulInPath => "file name contained an unexpected NUL byte"
  | notText => "stream did not contain valid UTF-8"

/-- Why a JSON text holds no layout: it is no JSON, it has values of the wrong kind, or it ends too early. -/
inductive JsonError where
  | malformed
  | unsuitable
  | truncated
deriving DecidableEq, Inhabited

def JsonError.message : JsonError → String
  | malformed => "malformed JSON"
  | unsuitable => "unsuitable JSON value"
  | truncated => "JSON ends inside a value"

/-- Why a layout cannot be used with any grammar. -/
inductive InvalidLayout where
  | zeroModulus
  | wideShift (shift : Nat)
  | refused (reason : String)
deriving DecidableEq, Inhabited

def InvalidLayout.message : InvalidLayout → String
  | zeroModulus => "modulus must be positive"
  | wideShift shift => "shift " ++ toString shift ++ " does not fit a 64-bit raw hash"
  | refused reason => reason

/-- The two kinds of symbols that a layout orders. -/
inductive SymbolKind where
  | terminals
  | nonterminals
deriving DecidableEq, Inhabited

def SymbolKind.name : SymbolKind → String
  | terminals => "terminals"
  | nonterminals => "nonterminals"

/-- Why an operation fails. -/
inductive Error where
  /-- The grammar has issues. -/
  | grammar (issues : List Issue)
  /-- The text is no BNF. -/
  | bnf
  /-- Two table keys have one raw hash. -/
  | rawCollision (first second : String) (shift : Nat)
  /-- Two table keys have one bucket. -/
  | bucketCollision (bucket : Nat) (first second : String)
  /-- The layout was made for another grammar. -/
  | staleLayout (expected found : Fingerprint)
  /-- The layout orders other symbols than the grammar has. -/
  | symbolMismatch (kind : SymbolKind) (missing extra : List String)
  /-- There is no layout file. -/
  | missingLayout (path : String)
  | invalidLayout (cause : InvalidLayout)
  /-- A symbol has no name that can be emitted. -/
  | invalidName (display name : String)
  /-- Two symbols have one name. -/
  | duplicateName (name first second : String)
  | file (cause : FileError)
  | json (cause : JsonError)
  /-- A bucket is asked for with no buckets, or a shift is wider than a raw hash. -/
  | arithmetic
deriving DecidableEq, Inhabited

def Error.message : Error → String
  | grammar issues => Issue.report issues
  | bnf => "failed to parse BNF grammar: malformed rules"
  | rawCollision first second shift =>
    "raw hash collision between [" ++ first ++ "] and [" ++ second ++ "] at shift " ++ toString shift ++
      "; widen the shift"
  | bucketCollision bucket first second =>
    "bucket " ++ toString bucket ++ " already holds [" ++ first ++ "] when placing [" ++ second ++
      "]; hash config is stale"
  | staleLayout expected found =>
    "hash config was searched for grammar " ++ found.text ++ ", current grammar is " ++ expected.text
  | symbolMismatch kind missing extra =>
    "hash config " ++ kind.name ++ " do not match the grammar (missing: " ++ Text.quotedList missing ++
      ", extra: " ++ Text.quotedList extra ++ ")"
  | missingLayout path => "no hash config at " ++ path ++ "; run `search_hash` first"
  | invalidLayout cause => "invalid hash config: " ++ cause.message
  | invalidName display name =>
    "symbol `" ++ display ++ "` maps to `" ++ name ++ "`, which is not a valid identifier"
  | duplicateName name first second =>
    "symbols `" ++ first ++ "` and `" ++ second ++ "` both map to `" ++ name ++ "`"
  | file cause => cause.message
  | json cause => cause.message
  | arithmetic => "arithmetic overflow"

end Predictive

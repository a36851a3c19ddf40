import Predictive.Proofs.Packed.CToken

/-!
# C units that hold a table

A unit is read as a sequence of declarations: directives, declarations up to a semicolon, and definitions of functions
up to the end of their body, where brackets are closed in the order in which they were opened (`declarations?`). What
makes up a table is looked for among the declarations by name, in any order (`Emitted.read?`), and has the meaning
that it has in C:

* the constants of an enumeration are numbered from zero in the order in which they are listed,
* an array holds zeros where no initialiser sets an element, and a later initialiser replaces an earlier one,
* arithmetic is done modulo `2 ^ 64` where an operand is a `size_t`, which has 64 bits, and is not read elsewhere,
* a shift by the width or more, or a division by zero, has no result.
-/

namespace Predictive.CText

/-! ### Declarations -/

/-- A directive, a declaration or the definition of a function. -/
abbrev Declaration := List Token

/-- What was read of a declaration, in reverse, with the marks that close the open brackets, innermost first, and
whether the outermost bracket began the body of a function. -/
structure Cut where
  opened : List String := []
  isBody : Bool := false
  read : List Token := []
deriving DecidableEq, Inhabited

/-- The mark that closes a bracket. -/
def closer? (m : String) : Option String :=
  [("(", ")"), ("[", "]"), ("\x7b", "\x7d")].lookup m

/-- Reads a token. Yields the declaration that it ends. -/
def Cut.step (s : Cut) (t : Token) : Option (List Declaration × Cut) :=
  let more : Cut := { s with read := t :: s.read }
  match t with
  | .directive _ => if s = {} then some ([[t]], {}) else none
  | .mark m =>
    match closer? m with
    | some closer =>
      -- the body of a function stands after its parameters
      let isBody := if s.opened = [] then decide (m = "\x7b" ∧ s.read.head? = some (.mark ")")) else s.isBody
      some ([], { more with opened := closer :: s.opened, isBody })
    | none =>
      if m ∈ [")", "]", "\x7d"] then
        match s.opened with
        | [] => none
        | expected :: opened =>
          if m ≠ expected then none
          else if opened = [] ∧ s.isBody then some ([more.read.reverse], {})
          else some ([], { more with opened })
      else if m = ";" ∧ s.opened = [] then some ([more.read.reverse], {})
      else some ([], more)
  | _ => some ([], more)

/-- Cuts tokens into declarations. -/
def cut (s : Cut) : List Token → Option (List Declaration × Cut)
  | [] => some ([], s)
  | t :: ts => do
    let (ds, s) ← s.step t
    let (ds', s) ← cut s ts
    return (ds ++ ds', s)

/-- The declarations of a text. -/
def declarations? (text : String) : Option (List Declaration) := do
  let (ds, s) ← cut {} (← tokens? text.toList)
  if s = {} then some ds else none

/-! ### Expressions -/

inductive Operator where
  | shiftLeft
  | add
  | remainder
deriving DecidableEq, Inhabited

/-- An operator and how strongly it binds. -/
def operator? : Token → Option (Operator × Nat)
  | .mark "<<" => some (.shiftLeft, 1)
  | .mark "+" => some (.add, 2)
  | .mark "%" => some (.remainder, 3)
  | _ => none

inductive Expression where
  | name (name : String)
  | number (value : Nat)
  | toSize (e : Expression)
  | binary (op : Operator) (left right : Expression)
deriving DecidableEq, Inhabited

/-- Reads an expression with operators that bind at least as strongly as `level`, after its left operand if that was
read already. Operators of one kind are read from the left. -/
def expression? : (fuel level : Nat) → Option Expression → List Token → Option (Expression × List Token)
  | fuel + 1, level, none, .mark "(" :: .word "size_t" :: .mark ")" :: ts => do
    -- a conversion binds more strongly than all operators
    let (e, ts) ← expression? fuel 4 none ts
    expression? fuel level (some (.toSize e)) ts
  | fuel + 1, level, none, .mark "(" :: ts => do
    match ← expression? fuel 1 none ts with
    | (e, .mark ")" :: ts) => expression? fuel level (some e) ts
    | _ => none
  | fuel + 1, level, none, .word name :: ts => expression? fuel level (some (.name name)) ts
  | fuel + 1, level, none, .number n :: ts => expression? fuel level (some (.number n)) ts
  | fuel + 1, level, some left, t :: ts =>
    match operator? t with
    | none => some (left, t :: ts)
    | some (op, strength) =>
      if strength < level then some (left, t :: ts)
      else do
        let (right, ts) ← expression? fuel (strength + 1) none ts
        expression? fuel level (some (.binary op left right)) ts
  | _ + 1, _, some left, [] => some (left, [])
  | _, _, _, _ => none

/-- A natural number of a type narrower than `size_t`, or a `size_t`. -/
inductive Operand where
  | narrow (n : Nat)
  | size (n : UInt64)
deriving DecidableEq, Inhabited

namespace Operand

def toSize : Operand → UInt64
  | narrow n => UInt64.ofNat n
  | size n => n

def toNat : Operand → Nat
  | narrow n => n
  | size n => n.toNat

end Operand

/-- A shift has the type of its left operand; the other operators convert both operands to `size_t` if one is. -/
def Operator.apply : Operator → Operand → Operand → Option Operand
  | .shiftLeft, .size a, b => if b.toNat < 64 then some (.size (a <<< UInt64.ofNat b.toNat)) else none
  | .shiftLeft, .narrow _, _ => none
  | _, .narrow _, .narrow _ => none
  | .add, a, b => some (.size (a.toSize + b.toSize))
  | .remainder, a, b => if b.toSize = 0 then none else some (.size (a.toSize % b.toSize))

namespace Operator

theorem apply_shiftLeft (a : UInt64) {n : Nat} (h : n < 64) :
    shiftLeft.apply (.size a) (.narrow n) = some (.size (a <<< UInt64.ofNat n)) := if_pos h

theorem apply_add (a b : UInt64) : add.apply (.size a) (.size b) = some (.size (a + b)) := rfl

theorem apply_remainder (a : UInt64) {n : Nat} (h : UInt64.ofNat n ≠ 0) :
    remainder.apply (.size a) (.narrow n) = some (.size (a % UInt64.ofNat n)) := if_neg h

end Operator

/-- The value of an expression, where `values` gives those of names. -/
def Expression.eval (values : String → Option Operand) : Expression → Option Operand
  | name s => values s
  | number n => some (.narrow n)
  | toSize e => do return .size (← e.eval values).toSize
  | binary op left right => do op.apply (← left.eval values) (← right.eval values)

/-! ### Tables -/

/-- The constants up to the end of an enumeration, and the name of its type. -/
def constants? : List Token → Option (List String × String)
  | [.mark "\x7d", .word type, .mark ";"] => some ([], type)
  | .word constant :: .mark "," :: ts => do
    let (constants, type) ← constants? ts
    return (constant :: constants, type)
  | _ => none

/-- The constants of the enumeration with a name. -/
def enumeration? (type : String) : Declaration → Option (List String)
  | .word "typedef" :: .word "enum" :: .mark "\x7b" :: ts => do
    let (constants, found) ← constants? ts
    if found = type then some constants else none
  | _ => none

/-- The definition of the name of a structure, with the fields. -/
def structure? : Declaration → Option Declaration
  | .word "typedef" :: .word "struct" :: ts => some (.word "typedef" :: .word "struct" :: ts)
  | _ => none

/-- The structures of a table. A symbol tells of which kind it is, a payload tells how many symbols there are and where,
and whether it is valid, and the payloads stand behind their number. -/
def structureTexts : List String := [
  "typedef struct \x7b bool is_nterm; union \x7b nterm_type_t nterm; term_type_t term; \x7d; \x7d nut_type_t;",
  "typedef struct \x7b size_t size; nut_type_t *data; bool valid; \x7d exp_list_t;",
  "typedef struct \x7b size_t bucket_count; exp_list_t data[]; \x7d parser_table_t;"]

/-- The number that a macro stands for. -/
def macro? (name : String) : Declaration → Option Nat
  | [.directive line] =>
    match scan .plain (line.toList ++ ['\n']) with
    | some ([.word "define", .word found, .number n], .lineStart) => if found = name then some n else none
    | _ => none
  | _ => none

/-- A symbol of the pool by the constant of its enumeration. -/
inductive NamedSlot where
  | nonterminal (constant : String)
  | terminal (constant : String)
deriving DecidableEq, Inhabited

/-- The elements up to the end of the pool. -/
def poolElements? : List Token → Option (List NamedSlot)
  | [.mark "\x7d", .mark ";"] => some []
  | .mark "\x7b" :: .mark "." :: .word "is_nterm" :: .mark "=" :: .word kind :: .mark "," :: .mark "." ::
      .word member :: .mark "=" :: .word constant :: .mark "\x7d" :: .mark "," :: ts => do
    let slots ← poolElements? ts
    -- the kind says which member of the union counts
    if kind = "true" ∧ member = "nterm" then some (.nonterminal constant :: slots)
    else if kind = "false" ∧ member = "term" then some (.terminal constant :: slots)
    else none
  | _ => none

/-- The pool, and the macro for its length. -/
def pool? : Declaration → Option (String × List NamedSlot)
  | .word "static" :: .word "const" :: .word "nut_type_t" :: .word "pool_init" :: .mark "[" :: .word length ::
      .mark "]" :: .mark "=" :: .mark "\x7b" :: ts => do return (length, ← poolElements? ts)
  | _ => none

/-- The elements up to the end of the buckets, with their indices. -/
def bucketElements? : List Token → Option (List (Nat × Bucket))
  | [.mark "\x7d", .mark ";"] => some []
  | .mark "[" :: .number index :: .mark "]" :: .mark "=" :: .mark "\x7b" :: .word valid :: .mark "," ::
      .number offset :: .mark "," :: .number size :: .mark "\x7d" :: .mark "," :: ts => do
    let elements ← bucketElements? ts
    if valid = "true" then some ((index, ⟨true, offset, size⟩) :: elements)
    else if valid = "false" then some ((index, ⟨false, offset, size⟩) :: elements)
    else none
  | _ => none

/-- The buckets, and the macro for their number. -/
def buckets? : Declaration → Option (String × List (Nat × Bucket))
  | .word "static" :: .word "const" :: .word "struct" :: .mark "\x7b" :: .word "bool" :: .word "valid" :: .mark ";" ::
      .word "size_t" :: .word "offset" :: .mark ";" :: .word "size_t" :: .word "size" :: .mark ";" :: .mark "\x7d" ::
      .word "bucket_init" :: .mark "[" :: .word length :: .mark "]" :: .mark "=" :: .mark "\x7b" :: ts => do
    return (length, ← bucketElements? ts)
  | _ => none

/-- The expression that the index function returns. -/
def index? : Declaration → Option Expression
  | .word "size_t" :: .word "parser_get_table_index" :: .mark "(" :: .word "nterm_type_t" :: .word "nterm" ::
      .mark "," :: .word "term_type_t" :: .word "term" :: .mark ")" :: .mark "\x7b" :: .word "return" :: ts =>
    match expression? (2 * ts.length) 1 none ts with
    | some (e, [.mark ";", .mark "\x7d"]) => some e
    | _ => none
  | _ => none

/-- The body of the function that sets the table up. -/
def setUp? : Declaration → Option (List Token)
  | .word "int" :: .word "parser_init" :: .mark "(" :: .word "void" :: .mark ")" :: .mark "\x7b" :: body => some body
  | _ => none

/-- The body that copies the pool, if there is one, and fills every bucket that is valid: its payload starts in the copy
where the offset says. The other buckets stay zero. -/
def setUpBody (pooled : Bool) : List String :=
  (if pooled then [
    "pool = calloc(PARSER_POOL_SLOTS, sizeof(nut_type_t)); if (pool == NULL) \x7b return 1; \x7d",
    "memcpy(pool, pool_init, sizeof(pool_init));"]
  else ["pool = NULL;"]) ++ [
  "table = calloc(1, sizeof(parser_table_t) + PARSER_TABLE_BUCKETS * sizeof(exp_list_t));",
  "if (table == NULL) \x7b free(pool); pool = NULL; return 1; \x7d",
  "table->bucket_count = PARSER_TABLE_BUCKETS;",
  "for (size_t i = 0; i < PARSER_TABLE_BUCKETS; i++) \x7b",
  "  if (!bucket_init[i].valid) \x7b continue; \x7d",
  "  table->data[i].valid = true;",
  "  table->data[i].size = bucket_init[i].size;",
  "  table->data[i].data = bucket_init[i].size ? pool + bucket_init[i].offset : NULL;",
  "\x7d",
  "return 0; \x7d"]

/-- All that declarations say about a table, each part as often as it is declared. -/
structure Found where
  nonterminals : List (List String) := []
  terminals : List (List String) := []
  structures : List Declaration := []
  bucketCounts : List Nat := []
  slotCounts : List Nat := []
  pools : List (String × List NamedSlot) := []
  buckets : List (String × List (Nat × Bucket)) := []
  indices : List Expression := []
  setUps : List (List Token) := []
deriving DecidableEq, Inhabited

/-- Finds the parts of a table. -/
def found (ds : List Declaration) : Found where
  nonterminals := ds.filterMap (enumeration? "nterm_type_t")
  terminals := ds.filterMap (enumeration? "term_type_t")
  structures := ds.filterMap structure?
  bucketCounts := ds.filterMap (macro? "PARSER_TABLE_BUCKETS")
  slotCounts := ds.filterMap (macro? "PARSER_POOL_SLOTS")
  pools := ds.filterMap pool?
  buckets := ds.filterMap buckets?
  indices := ds.filterMap index?
  setUps := ds.filterMap setUp?

/-- A table as it stands in C: the constants of the symbols, the elements that are set, and the index of a bucket in
terms of `nterm` and `term`. -/
structure Emitted where
  nonterminals : List String
  terminals : List String
  bucketCount : Nat
  pool : List NamedSlot
  elements : List (Nat × Bucket)
  index : Expression
deriving DecidableEq, Inhabited

namespace Emitted

/-- The table that was found, if every part of it is declared once; only the pool may be missing. Its structures stand in
the order in which they are used. -/
def ofFound? : Found → Option Emitted
  | ⟨[nonterminals], [terminals], structures, [bucketCount], [slotCount], pools, [(length, elements)], [index],
      [setUp]⟩ => do
    let pool ← match pools with
      | [] => some []
      | [(length, pool)] => if length = "PARSER_POOL_SLOTS" then some pool else none
      | _ => none
    if pool.length = slotCount ∧ length = "PARSER_TABLE_BUCKETS" ∧ (∀ e ∈ elements, e.1 < bucketCount) ∧
        some structures = declarations? (ofLines structureTexts) ∧
        some setUp = tokens? (ofLines (setUpBody (!pools.isEmpty))).toList then
      some { nonterminals, terminals, bucketCount, pool, elements, index }
    else none
  | _ => none

/-- Reads the table of a unit, with the header in front of the source that includes it. -/
def read? (a : Artifacts) : Option Emitted := do
  ofFound? (found ((← declarations? a.header) ++ (← declarations? a.source)))

variable (e : Emitted)

/-- A symbol of the pool by its number. -/
def slot? : NamedSlot → Option Slot
  | .nonterminal constant => (e.nonterminals.idxOf? constant).map .nonterminal
  | .terminal constant => (e.terminals.idxOf? constant).map .terminal

/-- The pool by the numbers of the constants. -/
def slots? : Option (List Slot) := e.pool.mapM e.slot?

/-- All buckets; those that no element sets are zero. -/
def buckets : Array Bucket :=
  e.elements.foldl (fun buckets (i, b) => buckets.setIfInBounds i b) (Array.replicate e.bucketCount {})

/-- The values of names where the index function is called with a nonterminal and a terminal by number. -/
def values (nt term : UInt32) : String → Option Operand
  | "nterm" => some (.narrow nt.toNat)
  | "term" => some (.narrow term.toNat)
  | "PARSER_TABLE_BUCKETS" => some (.narrow e.bucketCount)
  | _ => none

/-- The index of the bucket for the numbers of a nonterminal and a terminal. -/
def index? (nt term : UInt32) : Option Nat := (e.index.eval (e.values nt term)).map Operand.toNat

/-- Looks up a payload, or finds that the input is in error. There is no result where the index or the payload is out
of bounds. -/
def lookup? (nt term : UInt32) : Option (Option (List Slot)) := do
  let bucket ← e.buckets[← e.index? nt term]?
  if bucket.valid then
    let slots ← e.slots?
    if bucket.offset + bucket.length ≤ slots.length then some (some ((slots.drop bucket.offset).take bucket.length))
    else none
  else some none

end Emitted

end Predictive.CText

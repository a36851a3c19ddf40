import Predictive.Packed.Basic
import Predictive.Text.Utf8

/-!
# C text of packed tables

A packed table is emitted as a C header and a C source. The header lists the symbols as enumerations in the order of
the layout and declares the types. The source holds the pool, the valid buckets, the index function, the display
names of the symbols, and the functions that set the table up and release it.

The text depends on the packed table only, and on the two names that it is given.
-/

namespace Predictive.CText

/-! ### String literals -/

/-- The last `width` digits of `n` in base eight. -/
def octal : (width n : Nat) → List Char
  | 0, _ => []
  | width + 1, n => octal width (n / 8) ++ [Nat.digitChar (n % 8)]

/-- A byte as it stands in a string literal. -/
def escapeByte (b : UInt8) : List Char :=
  if b = 0x22 then ['\\', '"']
  else if b = 0x5C then ['\\', '\\']
  else if b = 0x0A then ['\\', 'n']
  else if b = 0x09 then ['\\', 't']
  else if 0x20 ≤ b ∧ b ≤ 0x7E then [Char.ofNat b.toNat]
  else '\\' :: octal 3 b.toNat

/-- The C string literal whose bytes are the text in UTF-8. -/
def literal (s : String) : String := "\"" ++ String.ofList ((Text.utf8 s).flatMap escapeByte) ++ "\""

/-! ### Lines -/

/-- A text of lines, each with its end. -/
def ofLines (lines : List String) : String := String.join (lines.map (· ++ "\n"))

/-- The comment at the head of a file. -/
def banner (generator : String) : List String :=
  ["/*", " * This file was generated by " ++ generator ++ ", DO NOT MODIFY!", " */"]

def nonterminalConstant (name : String) : String := "NT_" ++ name

def terminalConstant (name : String) : String := "T_" ++ name

/-- An enumeration. -/
def enumeration (constants : List String) (type : String) : List String :=
  ["typedef enum", "\x7b"] ++ constants.map (fun c => "    " ++ c ++ ",") ++ ["\x7d " ++ type ++ ";", ""]

/-! ### Header -/

/-- The types of symbols, payloads and the table. -/
def typeDeclarations : List String := [
  "// nonterminal or terminal",
  "typedef struct \x7b",
  "    bool is_nterm;",
  "    union \x7b",
  "        nterm_type_t nterm;",
  "        term_type_t term;",
  "    \x7d;",
  "\x7d nut_type_t;",
  "",
  "// valid with size 0 = epsilon, !valid = syntax error",
  "typedef struct \x7b",
  "    size_t size;",
  "    nut_type_t *data;",
  "    bool valid;",
  "\x7d exp_list_t;",
  "",
  "// collision-free hash table, index with parser_get_table_index",
  "typedef struct \x7b",
  "    size_t bucket_count;",
  "    exp_list_t data[];",
  "\x7d parser_table_t;",
  ""]

/-- The functions that the source defines. -/
def prototypes : List String := [
  "size_t parser_get_table_index(nterm_type_t nterm, term_type_t term);",
  "const char *nterm_to_readable(nterm_type_t nterm);",
  "const char *term_to_readable(term_type_t term);",
  "int parser_init(void);",
  "void parser_free(void);",
  "",
  "extern parser_table_t *table;"]

/-- The lines of the header. -/
def headerLines (t : PackedTable) (generator : String) : List String :=
  banner generator ++
  ["#pragma once", "", "#include <stddef.h>", "#include <stdint.h>", "#include <stdbool.h>", "",
   "// enumerator order is the hash order; do not reorder"] ++
  enumeration (t.symbols.nonterminalNames.map nonterminalConstant) "nterm_type_t" ++
  enumeration (t.symbols.terminalNames.map terminalConstant) "term_type_t" ++
  typeDeclarations ++
  ["#define PARSER_TABLE_BUCKETS " ++ toString t.modulus.toNat, ""] ++
  prototypes

/-! ### Source -/

/-- The initialiser of a pool slot. -/
def slotLine (names : SymbolNames) : Slot → String
  | .nonterminal i =>
    "    \x7b .is_nterm = true, .nterm = " ++ nonterminalConstant (names.nonterminalNames.getD i "") ++ " \x7d,"
  | .terminal i =>
    "    \x7b .is_nterm = false, .term = " ++ terminalConstant (names.terminalNames.getD i "") ++ " \x7d,"

/-- The pool. -/
def poolLines (t : PackedTable) : List String :=
  ["#define PARSER_POOL_SLOTS " ++ toString t.pool.length, "", "static nut_type_t *pool;", ""] ++
  if t.pool.isEmpty then []
  else ["static const nut_type_t pool_init[PARSER_POOL_SLOTS] = \x7b"] ++ t.pool.map (slotLine t.symbols) ++
    ["\x7d;", ""]

/-- The initialiser of a valid bucket. -/
def bucketLine (b : Bucket) (index : Nat) : String :=
  "    [" ++ toString index ++ "] = \x7b true, " ++ toString b.offset ++ ", " ++ toString b.length ++ " \x7d,"

/-- The valid buckets. -/
def bucketLines (t : PackedTable) : List String :=
  ["static const struct \x7b", "    bool valid;", "    size_t offset;", "    size_t size;",
   "\x7d bucket_init[PARSER_TABLE_BUCKETS] = \x7b"] ++
  (t.buckets.toList.zipIdx.filterMap fun (b, i) => if b.valid then some (bucketLine b i) else none) ++
  ["\x7d;", ""]

/-- The expression that computes the index of a bucket. -/
def indexExpression (t : PackedTable) : String :=
  let (major, minor) := match t.major with
    | .nonterminal => ("nterm", "term")
    | .terminal => ("term", "nterm")
  "(((size_t) " ++ major ++ " << " ++ toString t.shift.toNat ++ ") + (size_t) " ++ minor ++
    ") % PARSER_TABLE_BUCKETS"

/-- The index function. -/
def indexLines (t : PackedTable) : List String :=
  ["size_t parser_get_table_index(nterm_type_t nterm, term_type_t term)", "\x7b",
   "    return " ++ indexExpression t ++ ";", "\x7d", ""]

/-- A function from symbols of one kind to their display names. -/
def readableLines (kind : String) (constants displays : List String) : List String :=
  ["const char *" ++ kind ++ "_to_readable(" ++ kind ++ "_type_t " ++ kind ++ ")", "\x7b",
   "    switch(" ++ kind ++ ") \x7b"] ++
  (displays.zip constants).flatMap (fun (display, constant) =>
    ["    case " ++ constant ++ ":", "        return " ++ literal display ++ ";"]) ++
  ["    \x7d", "    return \"<unknown-" ++ kind ++ ">\";", "\x7d", ""]

/-- The function that sets the table up. -/
def initLines (t : PackedTable) : List String :=
  ["int parser_init(void)", "\x7b"] ++
  (if t.pool.isEmpty then ["    pool = NULL;", ""]
   else [
    "    pool = calloc(PARSER_POOL_SLOTS, sizeof(nut_type_t));",
    "    if(pool == NULL) \x7b",
    "        return 1;",
    "    \x7d",
    "    memcpy(pool, pool_init, sizeof(pool_init));",
    ""]) ++ [
  "    table = calloc(1, sizeof(parser_table_t) + PARSER_TABLE_BUCKETS * sizeof(exp_list_t));",
  "    if(table == NULL) \x7b",
  "        free(pool);",
  "        pool = NULL;",
  "        return 1;",
  "    \x7d",
  "    table->bucket_count = PARSER_TABLE_BUCKETS;",
  "",
  "    for(size_t i = 0; i < PARSER_TABLE_BUCKETS; i++) \x7b",
  "        if(!bucket_init[i].valid) \x7b",
  "            continue;",
  "        \x7d",
  "        table->data[i].valid = true;",
  "        table->data[i].size = bucket_init[i].size;",
  "        table->data[i].data = bucket_init[i].size ? pool + bucket_init[i].offset : NULL;",
  "    \x7d",
  "    return 0;",
  "\x7d",
  ""]

/-- The function that releases the table. -/
def freeLines : List String := [
  "void parser_free(void)",
  "\x7b",
  "    free(table);",
  "    table = NULL;",
  "    free(pool);",
  "    pool = NULL;",
  "\x7d"]

/-- The lines of the source. -/
def sourceLines (t : PackedTable) (generator header : String) : List String :=
  banner generator ++
  ["#include <stdlib.h>", "#include <string.h>", "", "#include " ++ literal header, "",
   "parser_table_t *table;", ""] ++
  poolLines t ++ bucketLines t ++ indexLines t ++
  readableLines "nterm" (t.symbols.nonterminalNames.map nonterminalConstant) t.symbols.nonterminals ++
  readableLines "term" (t.symbols.terminalNames.map terminalConstant) t.symbols.terminals ++
  initLines t ++ freeLines

/-- The two files of a packed table. -/
structure Artifacts where
  source : String
  header : String
deriving DecidableEq, Inhabited

/-- Renders a packed table. `header` is the name by which the source includes the header. -/
def render (t : PackedTable) (generator header : String) : Artifacts where
  source := ofLines (sourceLines t generator header)
  header := ofLines (headerLines t generator)

end Predictive.CText

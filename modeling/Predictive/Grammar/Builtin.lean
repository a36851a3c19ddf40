/-!
# The built-in grammar

The grammar of the small typed scripting language that the tables are made for, in BNF.
-/

namespace Predictive

/-- The BNF text of the grammar that is used when no other is named. -/
def builtinGrammarText : String := "<program> ::= 'require' <string> <global-statement-list>
<global-statement-list> ::= <global-statement> <global-statement-list> | \"\"
<global-statement> ::= <func-decl> | <func-def> | <func-call>

<func-decl> ::= 'global' <identifier> ':' 'function' '(' <type-list> ')' <func-type-list>
<type-list> ::= <type> <type-list2> | \"\"
<type-list2> ::= ',' <type> <type-list2> | \"\"
<func-def> ::= 'function' <identifier> '(' <identifier-list-with-types> ')' <func-type-list> <statement-list> 'end'
<identifier-list-with-types> ::= <identifier-with-type> <identifier-list-with-types2> | \"\"
<identifier-list-with-types2> ::= ',' <identifier-with-type> <identifier-list-with-types2> | \"\"
<func-type-list> ::= ':' <type> <func-type-list2> | \"\"
<func-type-list2> ::= ',' <type> <func-type-list2> | \"\"

<statement-list> ::= <statement> <statement-list2> | \"\"
<statement-list2> ::= <statement> <statement-list2> | \"\"
<statement> ::= <cond-statement> | <while-loop> | <for-loop> | <repeat-until> | <declaration> | <identifier> <paren-exp-list-or-id-list2> | <return-statement> | 'break'
<paren-exp-list-or-id-list2> ::= '(' <optional-fun-expression-list> ')' | <identifier-list2> '=' <expression-list>

<cond-statement> ::= 'if' <expression> 'then' <statement-list> <cond-opt-elseif>
<cond-opt-elseif> ::= 'elseif' <expression> 'then' <statement-list> <cond-opt-elseif> | 'else' <statement-list> 'end' | 'end'
<while-loop> ::= 'while' <expression> 'do' <statement-list> 'end'
<for-loop> ::= 'for' <identifier> '=' <expression> ',' <expression> <optional-for-step> 'do' <statement-list> 'end'
<optional-for-step> ::= ',' <expression> | \"\"
<repeat-until> ::= 'repeat' <statement-list> 'until' <expression>

<declaration> ::= 'local' <identifier-with-type> <decl-optional-assignment>
<decl-optional-assignment> ::= '=' <expression> | \"\"
<identifier-with-type> ::= <identifier> ':' <type>

<assignment> ::= <identifier-list> '=' <expression-list>
<identifier-list> ::= <identifier> <identifier-list2>
<identifier-list2> ::= ',' <identifier> <identifier-list2> | \"\"
<expression-list> ::= <expression> <expression-list2>
<expression-list2> ::= ',' <expression> <expression-list2> | \"\"

<return-statement> ::= 'return' <ret-expression-list>
<ret-expression-list> ::= <expression> <ret-expression-list2>
<ret-expression-list2> ::= ',' <expression> <ret-expression-list2> | \"\"

<func-call> ::= <identifier> '(' <optional-fun-expression-list> ')'
<optional-fun-expression-list> ::= <expression> <fun-expression-list2> | \"\"
<fun-expression-list2> ::= ',' <expression> <fun-expression-list2> | \"\"

<expression> ::= <term> <opt-binop> | <unop> <term> <opt-binop>
<opt-binop> ::= <binop> <expression> | \"\"
<binop> ::= '+' | '-' | '*' | '/' | '%' | '^' | '//' | '..' | ':' | '<' | '>' | '<=' | '>=' | '==' | '~=' | 'and' | 'or'
<unop> ::= '-' | '#' | 'not'
<term> ::= '(' <expression> ')' | <identifier> | <number> | <integer> | <string> | <bool> | 'nil'
"

end Predictive

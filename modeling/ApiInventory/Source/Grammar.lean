import ApiInventory.Syntax.Grammar

/-!
# The grammar of Python source files

The grammar is deliberately wide: besides the current language it reads the
statements and literals that only its second major version had, and it leaves a
number of checks to later passes. Ranks order the operators from loose to tight.
Names that begin with an underscore leave no node of their own.

Rules keep both readings where one text has two: a tuple or the target of an
assignment, a call or a print statement. The weights say which reading wins if both
reach the end of the statement.
-/

namespace ApiInventory.Source

open Syntax (Rule Grammar)
open Syntax.Rule

namespace Grammar

private def r (name : String) : Rule := .named name

private def t (text : String) : Rule := .literal text

/-- One or more, with commas between. -/
private def list (item : Rule) : Rule := separated (.literal ",") item

/-- Lines of simple statements: each ends at a line break, several are parted by semicolons. -/
def simpleStatements : List (String × Rule) := [
  ("module", zeroOrMore (r "_statement")),
  ("_statement", any [r "_simple_statements", r "_compound_statement"]),
  ("_simple_statements", all [separated (t ";") (r "_simple_statement"), optional (t ";"),
    r "_newline"]),
  ("_simple_statement", any [r "future_import_statement", r "import_statement",
    r "import_from_statement", r "print_statement", r "assert_statement",
    r "expression_statement", r "return_statement", r "delete_statement", r "raise_statement",
    r "pass_statement", r "break_statement", r "continue_statement", r "global_statement",
    r "nonlocal_statement", r "exec_statement", r "type_alias_statement"]),
  ("print_statement", any [rank 1 (all [t "print", r "chevron", zeroOrMore (all [t ",",
    .labelled "argument" (r "expression")]), optional (t ",")]),
    rank (-3) (.weighted (-1) (all [t "print", list (.labelled "argument" (r "expression")),
    optional (t ",")]))]),
  ("chevron", all [t ">>", r "expression"]),
  ("assert_statement", all [t "assert", list (r "expression")]),
  ("expression_statement", any [r "expression", all [list (r "expression"), optional (t ",")],
    r "assignment", r "augmented_assignment", r "yield"]),
  ("return_statement", all [t "return", optional (r "_expressions")]),
  ("delete_statement", all [t "del", r "_expressions"]),
  ("_expressions", any [r "expression", r "expression_list"]),
  ("raise_statement", all [t "raise", optional (r "_expressions"), optional (all [t "from",
    .labelled "cause" (r "expression")])]),
  ("pass_statement", left 0 (t "pass")),
  ("break_statement", left 0 (t "break")),
  ("continue_statement", left 0 (t "continue")),
  ("global_statement", all [t "global", list (r "identifier")]),
  ("nonlocal_statement", all [t "nonlocal", list (r "identifier")]),
  ("exec_statement", all [t "exec", .labelled "code" (any [r "string", r "identifier"]),
    optional (all [t "in", list (r "expression")])]),
  ("type_alias_statement", .weighted 1 (all [t "type", .labelled "left" (r "type"), t "=",
    .labelled "right" (r "type")]))]

/-- Imports in their four forms. -/
def imports : List (String × Rule) := [
  ("import_statement", all [t "import", r "_import_list"]),
  ("import_prefix", .many (t ".")),
  ("relative_import", all [r "import_prefix", optional (r "dotted_name")]),
  ("future_import_statement", all [t "from", t "__future__", t "import", any [r "_import_list",
    all [t "(", r "_import_list", t ")"]]]),
  ("import_from_statement", all [t "from", .labelled "module_name" (any [r "relative_import",
    r "dotted_name"]), t "import", any [r "wildcard_import", r "_import_list", all [t "(",
    r "_import_list", t ")"]]]),
  ("_import_list", all [list (.labelled "name" (any [r "dotted_name", r "aliased_import"])),
    optional (t ",")]),
  ("aliased_import", all [.labelled "name" (r "dotted_name"), t "as",
    .labelled "alias" (r "identifier")]),
  ("wildcard_import", t "*"),
  ("dotted_name", rank 1 (separated (t ".") (r "identifier")))]

/-- Statements that own a suite. A suite is the rest of the line, an indented block or nothing at
all. -/
def compoundStatements : List (String × Rule) := [
  ("_compound_statement", any [r "if_statement", r "for_statement", r "while_statement",
    r "try_statement", r "with_statement", r "function_definition", r "class_definition",
    r "decorated_definition", r "match_statement"]),
  ("if_statement", all [t "if", .labelled "condition" (r "expression"), t ":",
    .labelled "consequence" (r "_suite"), zeroOrMore (.labelled "alternative" (r "elif_clause")),
    optional (.labelled "alternative" (r "else_clause"))]),
  ("elif_clause", all [t "elif", .labelled "condition" (r "expression"), t ":",
    .labelled "consequence" (r "_suite")]),
  ("else_clause", all [t "else", t ":", .labelled "body" (r "_suite")]),
  ("for_statement", all [optional (t "async"), t "for", .labelled "left" (r "_left_hand_side"),
    t "in", .labelled "right" (r "_expressions"), t ":", .labelled "body" (r "_suite"),
    .labelled "alternative" (optional (r "else_clause"))]),
  ("while_statement", all [t "while", .labelled "condition" (r "expression"), t ":",
    .labelled "body" (r "_suite"), optional (.labelled "alternative" (r "else_clause"))]),
  ("try_statement", all [t "try", t ":", .labelled "body" (r "_suite"),
    zeroOrMore (r "except_clause"), optional (r "else_clause"), optional (r "finally_clause")]),
  ("except_clause", all [t "except", optional (t "*"),
    optional (all [.labelled "value" (r "expression"), optional (all [any [t "as", t ","],
    .labelled "alias" (r "expression")])]), t ":", r "_suite"]),
  ("finally_clause", all [t "finally", t ":", r "_suite"]),
  ("with_statement", all [optional (t "async"), t "with", r "with_clause", t ":",
    .labelled "body" (r "_suite")]),
  ("with_clause", any [all [list (r "with_item"), optional (t ",")], all [t "(",
    list (r "with_item"), optional (t ","), t ")"]]),
  ("with_item", .weighted 1 (all [.labelled "value" (r "expression")])),
  ("_suite", any [.shownAs "block" true (r "_simple_statements"), all [r "_indent", r "block"],
    .shownAs "block" true (r "_newline")]),
  ("block", all [zeroOrMore (r "_statement"), r "_dedent"])]

/-- Functions and classes, with decorators in front. -/
def definitions : List (String × Rule) := [
  ("function_definition", all [optional (t "async"), t "def", .labelled "name" (r "identifier"),
    .labelled "type_parameters" (optional (r "type_parameter")),
    .labelled "parameters" (r "parameters"), optional (all [t "->",
    .labelled "return_type" (r "type")]), t ":", .labelled "body" (r "_suite")]),
  ("parameters", all [t "(", optional (r "_parameters"), t ")"]),
  ("lambda_parameters", r "_parameters"),
  ("class_definition", all [t "class", .labelled "name" (r "identifier"),
    .labelled "type_parameters" (optional (r "type_parameter")),
    .labelled "superclasses" (optional (r "argument_list")), t ":",
    .labelled "body" (r "_suite")]),
  ("type_parameter", all [t "[", list (r "type"), optional (t ","), t "]"]),
  ("parenthesized_list_splat", rank 1 (all [t "(",
    any [.shownAs "parenthesized_expression" true (r "parenthesized_list_splat"), r "list_splat"],
    t ")"])),
  ("argument_list", all [t "(", optional (list (any [r "expression", r "list_splat",
    r "dictionary_splat", .shownAs "parenthesized_expression" true (r "parenthesized_list_splat"),
    r "keyword_argument"])), optional (t ","), t ")"]),
  ("list_splat", all [t "*", r "expression"]),
  ("dictionary_splat", all [t "**", r "expression"]),
  ("decorated_definition", all [.many (r "decorator"),
    .labelled "definition" (any [r "class_definition", r "function_definition"])]),
  ("decorator", all [t "@", r "expression", r "_newline"])]

/-- The match statement and its patterns. -/
def matching : List (String × Rule) := [
  ("match_statement", all [t "match", list (.labelled "subject" (r "expression")),
    optional (t ","), t ":", .labelled "body" (.shownAs "block" true (r "_match_block"))]),
  ("_match_block", any [all [r "_indent",
    zeroOrMore (.labelled "alternative" (r "case_clause")), r "_dedent"], r "_newline"]),
  ("case_clause", all [t "case", list (r "case_pattern"), optional (t ","),
    optional (.labelled "guard" (r "if_clause")), t ":", .labelled "consequence" (r "_suite")]),
  ("case_pattern", rank 1 (any [.shownAs "as_pattern" true (r "_as_pattern"),
    r "keyword_pattern", r "_simple_pattern"])),
  ("_simple_pattern", rank 1 (any [r "class_pattern", r "splat_pattern", r "union_pattern",
    .shownAs "list_pattern" true (r "_list_pattern"),
    .shownAs "tuple_pattern" true (r "_tuple_pattern"), r "dict_pattern", r "string",
    r "concatenated_string", r "true", r "false", r "none", all [optional (t "-"),
    any [r "integer", r "float"]], r "complex_pattern", r "dotted_name", t "_"])),
  ("_as_pattern", all [r "case_pattern", t "as", r "identifier"]),
  ("union_pattern", right 0 (all [r "_simple_pattern", .many (left 0 (all [t "|",
    r "_simple_pattern"]))])),
  ("_list_pattern", all [t "[", optional (all [list (r "case_pattern"), optional (t ",")]),
    t "]"]),
  ("_tuple_pattern", all [t "(", optional (all [list (r "case_pattern"), optional (t ",")]),
    t ")"]),
  ("dict_pattern", all [t "\x7b", optional (all [list (any [r "_key_value_pattern",
    r "splat_pattern"]), optional (t ",")]), t "\x7d"]),
  ("_key_value_pattern", all [.labelled "key" (r "_simple_pattern"), t ":",
    .labelled "value" (r "case_pattern")]),
  ("keyword_pattern", all [r "identifier", t "=", r "_simple_pattern"]),
  ("splat_pattern", rank 1 (all [any [t "*", t "**"], any [r "identifier", t "_"]])),
  ("class_pattern", all [r "dotted_name", t "(", optional (all [list (r "case_pattern"),
    optional (t ",")]), t ")"]),
  ("complex_pattern", rank 1 (all [optional (t "-"), any [r "integer", r "float"], any [t "+",
    t "-"], any [r "integer", r "float"]]))]

/-- Parameters and the targets of assignments. -/
def parameterLists : List (String × Rule) := [
  ("_parameters", all [list (r "parameter"), optional (t ",")]),
  ("_patterns", all [list (r "pattern"), optional (t ",")]),
  ("parameter", any [r "identifier", r "typed_parameter", r "default_parameter",
    r "typed_default_parameter", r "list_splat_pattern", r "tuple_pattern", r "keyword_separator",
    r "positional_separator", r "dictionary_splat_pattern"]),
  ("pattern", any [r "identifier", r "keyword_identifier", r "subscript", r "attribute",
    r "list_splat_pattern", r "tuple_pattern", r "list_pattern"]),
  ("tuple_pattern", all [t "(", optional (r "_patterns"), t ")"]),
  ("list_pattern", all [t "[", optional (r "_patterns"), t "]"]),
  ("default_parameter", all [.labelled "name" (any [r "identifier", r "tuple_pattern"]), t "=",
    .labelled "value" (r "expression")]),
  ("typed_default_parameter", rank (-1) (all [.labelled "name" (r "identifier"), t ":",
    .labelled "type" (r "type"), t "=", .labelled "value" (r "expression")])),
  ("list_splat_pattern", all [t "*", any [r "identifier", r "keyword_identifier", r "subscript",
    r "attribute"]]),
  ("dictionary_splat_pattern", all [t "**", any [r "identifier", r "keyword_identifier",
    r "subscript", r "attribute"]]),
  ("typed_parameter", rank (-1) (all [any [r "identifier", r "list_splat_pattern",
    r "dictionary_splat_pattern"], t ":", .labelled "type" (r "type")])),
  ("positional_separator", t "/"),
  ("keyword_separator", t "*"),
  ("as_pattern", left 0 (all [r "expression", t "as",
    .labelled "alias" (.shownAs "as_pattern_target" true (r "expression"))]))]

/-- Expressions that are built with operators. -/
def operators : List (String × Rule) := [
  ("_expression_within_for_in_clause", any [r "expression",
    .shownAs "lambda" true (r "lambda_within_for_in_clause")]),
  ("expression", any [r "comparison_operator", r "not_operator", r "boolean_operator",
    r "lambda", r "primary_expression", r "conditional_expression", r "named_expression",
    r "as_pattern"]),
  ("primary_expression", any [r "await", r "binary_operator", r "identifier",
    r "keyword_identifier", r "string", r "concatenated_string", r "integer", r "float", r "true",
    r "false", r "none", r "unary_operator", r "attribute", r "subscript", r "call", r "list",
    r "list_comprehension", r "dictionary", r "dictionary_comprehension", r "set",
    r "set_comprehension", r "tuple", r "parenthesized_expression", r "generator_expression",
    r "ellipsis", .shownAs "list_splat" true (r "list_splat_pattern")]),
  ("not_operator", rank 12 (all [t "not", .labelled "argument" (r "expression")])),
  ("boolean_operator", any [left 11 (all [.labelled "left" (r "expression"),
    .labelled "operator" (t "and"), .labelled "right" (r "expression")]),
    left 10 (all [.labelled "left" (r "expression"), .labelled "operator" (t "or"),
    .labelled "right" (r "expression")])]),
  ("binary_operator", any [left 18 (all [.labelled "left" (r "primary_expression"),
    .labelled "operator" (t "+"), .labelled "right" (r "primary_expression")]),
    left 18 (all [.labelled "left" (r "primary_expression"), .labelled "operator" (t "-"),
    .labelled "right" (r "primary_expression")]),
    left 19 (all [.labelled "left" (r "primary_expression"), .labelled "operator" (t "*"),
    .labelled "right" (r "primary_expression")]),
    left 19 (all [.labelled "left" (r "primary_expression"), .labelled "operator" (t "@"),
    .labelled "right" (r "primary_expression")]),
    left 19 (all [.labelled "left" (r "primary_expression"), .labelled "operator" (t "/"),
    .labelled "right" (r "primary_expression")]),
    left 19 (all [.labelled "left" (r "primary_expression"), .labelled "operator" (t "%"),
    .labelled "right" (r "primary_expression")]),
    left 19 (all [.labelled "left" (r "primary_expression"), .labelled "operator" (t "//"),
    .labelled "right" (r "primary_expression")]),
    right 21 (all [.labelled "left" (r "primary_expression"), .labelled "operator" (t "**"),
    .labelled "right" (r "primary_expression")]),
    left 14 (all [.labelled "left" (r "primary_expression"), .labelled "operator" (t "|"),
    .labelled "right" (r "primary_expression")]),
    left 15 (all [.labelled "left" (r "primary_expression"), .labelled "operator" (t "&"),
    .labelled "right" (r "primary_expression")]),
    left 16 (all [.labelled "left" (r "primary_expression"), .labelled "operator" (t "^"),
    .labelled "right" (r "primary_expression")]),
    left 17 (all [.labelled "left" (r "primary_expression"), .labelled "operator" (t "<<"),
    .labelled "right" (r "primary_expression")]),
    left 17 (all [.labelled "left" (r "primary_expression"), .labelled "operator" (t ">>"),
    .labelled "right" (r "primary_expression")])]),
  ("unary_operator", rank 20 (all [.labelled "operator" (any [t "+", t "-", t "~"]),
    .labelled "argument" (r "primary_expression")])),
  ("_not_in", all [t "not", t "in"]),
  ("_is_not", all [t "is", t "not"]),
  ("comparison_operator", left 13 (all [r "primary_expression",
    .many (all [.labelled "operators" (any [t "<", t "<=", t "==", t "!=", t ">=", t ">", t "<>",
    t "in", .shownAs "not in" false (r "_not_in"), t "is",
    .shownAs "is not" false (r "_is_not")]), r "primary_expression"])])),
  ("lambda", rank (-2) (all [t "lambda",
    .labelled "parameters" (optional (r "lambda_parameters")), t ":",
    .labelled "body" (r "expression")])),
  ("lambda_within_for_in_clause", all [t "lambda",
    .labelled "parameters" (optional (r "lambda_parameters")), t ":",
    .labelled "body" (r "_expression_within_for_in_clause")]),
  ("conditional_expression", right (-1) (all [r "expression", t "if", r "expression", t "else",
    r "expression"])),
  ("named_expression", all [.labelled "name" (r "_named_expression_lhs"), t ":=",
    .labelled "value" (r "expression")]),
  ("_named_expression_lhs", any [r "identifier", r "keyword_identifier"]),
  ("await", rank 20 (all [t "await", r "primary_expression"]))]

/-- Assignments. The right side may be an assignment again. -/
def assignments : List (String × Rule) := [
  ("assignment", all [.labelled "left" (r "_left_hand_side"), any [all [t "=",
    .labelled "right" (r "_right_hand_side")], all [t ":", .labelled "type" (r "type")],
    all [t ":", .labelled "type" (r "type"), t "=", .labelled "right" (r "_right_hand_side")]]]),
  ("augmented_assignment", all [.labelled "left" (r "_left_hand_side"),
    .labelled "operator" (any [t "+=", t "-=", t "*=", t "/=", t "@=", t "//=", t "%=", t "**=",
    t ">>=", t "<<=", t "&=", t "^=", t "|="]), .labelled "right" (r "_right_hand_side")]),
  ("_left_hand_side", any [r "pattern", r "pattern_list"]),
  ("pattern_list", all [r "pattern", any [t ",", all [.many (all [t ",", r "pattern"]),
    optional (t ",")]]]),
  ("_right_hand_side", any [r "expression", r "expression_list", r "assignment",
    r "augmented_assignment", r "pattern_list", r "yield"]),
  ("yield", right 0 (all [t "yield", any [all [t "from", r "expression"],
    optional (r "_expressions")]])),
  ("expression_list", right 0 (all [r "expression", any [t ",", all [.many (all [t ",",
    r "expression"]), optional (t ",")]]]))]

/-- What follows a primary expression, and types. -/
def trailers : List (String × Rule) := [
  ("attribute", rank 22 (all [.labelled "object" (r "primary_expression"), t ".",
    .labelled "attribute" (r "identifier")])),
  ("subscript", rank 22 (all [.labelled "value" (r "primary_expression"), t "[",
    list (.labelled "subscript" (any [r "expression", r "slice"])), optional (t ","), t "]"])),
  ("slice", all [optional (r "expression"), t ":", optional (r "expression"),
    optional (all [t ":", optional (r "expression")])]),
  ("ellipsis", t "..."),
  ("call", rank 22 (all [.labelled "function" (r "primary_expression"),
    .labelled "arguments" (any [r "generator_expression", r "argument_list"])])),
  ("keyword_argument", all [.labelled "name" (any [r "identifier", r "keyword_identifier"]),
    t "=", .labelled "value" (r "expression")]),
  ("type", any [rank 1 (r "expression"), r "splat_type", r "generic_type", r "union_type",
    r "constrained_type", r "member_type"]),
  ("splat_type", rank 1 (all [any [t "*", t "**"], r "identifier"])),
  ("generic_type", rank 1 (all [any [r "identifier", .shownAs "identifier" true (t "type")],
    r "type_parameter"])),
  ("union_type", left 0 (all [r "type", t "|", r "type"])),
  ("constrained_type", right 0 (all [r "type", t ":", r "type"])),
  ("member_type", all [r "type", t ".", r "identifier"])]

/-- Lists, sets, tuples, dictionaries and comprehensions. -/
def displays : List (String × Rule) := [
  ("list", all [t "[", optional (r "_collection_elements"), t "]"]),
  ("set", all [t "\x7b", r "_collection_elements", t "\x7d"]),
  ("tuple", all [t "(", optional (r "_collection_elements"), t ")"]),
  ("dictionary", all [t "\x7b", optional (list (any [r "pair", r "dictionary_splat"])),
    optional (t ","), t "\x7d"]),
  ("pair", all [.labelled "key" (r "expression"), t ":", .labelled "value" (r "expression")]),
  ("list_comprehension", all [t "[", .labelled "body" (r "expression"),
    r "_comprehension_clauses", t "]"]),
  ("dictionary_comprehension", all [t "\x7b", .labelled "body" (r "pair"),
    r "_comprehension_clauses", t "\x7d"]),
  ("set_comprehension", all [t "\x7b", .labelled "body" (r "expression"),
    r "_comprehension_clauses", t "\x7d"]),
  ("generator_expression", all [t "(", .labelled "body" (r "expression"),
    r "_comprehension_clauses", t ")"]),
  ("_comprehension_clauses", all [r "for_in_clause", zeroOrMore (any [r "for_in_clause",
    r "if_clause"])]),
  ("parenthesized_expression", rank 1 (all [t "(", any [r "expression", r "yield"], t ")"])),
  ("_collection_elements", all [list (any [r "expression", r "yield", r "list_splat",
    r "parenthesized_list_splat"]), optional (t ",")]),
  ("for_in_clause", left 0 (all [optional (t "async"), t "for",
    .labelled "left" (r "_left_hand_side"), t "in",
    .labelled "right" (list (r "_expression_within_for_in_clause")), optional (t ",")])),
  ("if_clause", all [t "if", r "expression"])]

/-- Strings with interpolation, and words that are names in most places. -/
def atoms : List (String × Rule) := [
  ("concatenated_string", all [r "string", .many (r "string")]),
  ("string", all [r "string_start", zeroOrMore (any [r "interpolation", r "string_content"]),
    r "string_end"]),
  ("string_content", right 0 (.many (any [r "escape_interpolation", r "escape_sequence",
    r "_not_escape_sequence", r "_string_content"]))),
  ("interpolation", all [t "\x7b", .labelled "expression" (r "_f_expression"), optional (t "="),
    optional (.labelled "type_conversion" (r "type_conversion")),
    optional (.labelled "format_specifier" (r "format_specifier")), t "\x7d"]),
  ("_f_expression", any [r "expression", r "expression_list", r "pattern_list", r "yield"]),
  ("format_specifier", all [t ":", zeroOrMore (any [r "_format_text",
    .shownAs "format_expression" true (r "interpolation")])]),
  ("keyword_identifier", any [rank (-3) (.shownAs "identifier" true (any [t "print", t "exec",
    t "async", t "await"])), .shownAs "identifier" true (any [t "type", t "match"])]),
  ("true", t "True"),
  ("false", t "False"),
  ("none", t "None")]

end Grammar

open Grammar in
/-- The grammar of a source file. -/
def grammar : Grammar where
  rules :=
    simpleStatements ++ imports ++ compoundStatements ++ definitions ++ matching ++
      parameterLists ++ operators ++ assignments ++ trailers ++ displays ++ atoms
  start := "module"
  tokens := ["_newline", "_indent", "_dedent", "string_start", "_string_content",
    "escape_interpolation", "string_end", "identifier", "integer", "float",
    "escape_sequence", "_not_escape_sequence", "_format_text", "type_conversion"]
  spliced := ["_simple_statement", "_compound_statement", "_suite", "_expressions",
    "_left_hand_side", "keyword_identifier"]
  hidden := ["expression", "primary_expression", "pattern", "parameter"]

end ApiInventory.Source

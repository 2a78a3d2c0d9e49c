/-!
# Kinds and fields of syntax nodes

The kind of a node says which construct of Go it is. Tokens such as `(` or `:=` are nodes as well,
with their own text as kind; all other nodes are *named*. A field says which part of its parent a
node is.
-/

namespace Handoff.Syntax

inductive Kind where
  | sourceFile | packageClause | importDeclaration | importSpec | importSpecList | dot
  | blankIdentifier | constDeclaration | constSpec | varDeclaration | varSpec
  | functionDeclaration | methodDeclaration | typeDeclaration | typeSpec | typeAlias
  | typeParameterList | parameterList | parameterDeclaration | variadicParameterDeclaration
  | fieldDeclarationList | fieldDeclaration | methodSpec | structElem | structTerm
  | constraintElem
  | parenthesizedType | genericType | typeArguments | pointerType | arrayType
  | implicitLengthArrayType | sliceType | structType | interfaceType | mapType | channelType
  | functionType | unionType | negatedType | qualifiedType
  | block | emptyStatement | expressionStatement | sendStatement | receiveStatement
  | incStatement | decStatement | assignmentStatement | shortVarDeclaration | labeledStatement
  | fallthroughStatement | breakStatement | continueStatement | gotoStatement | returnStatement
  | goStatement | deferStatement | ifStatement | forStatement | forClause | rangeClause
  | expressionSwitchStatement | expressionCase | defaultCase | typeSwitchStatement | typeCase
  | selectStatement | communicationCase
  | expressionList | parenthesizedExpression | callExpression | argumentList | variadicArgument
  | selectorExpression | indexExpression | sliceExpression | typeAssertionExpression
  | typeConversionExpression | compositeLiteral | literalValue | literalElement | keyedElement
  | funcLiteral | unaryExpression | binaryExpression
  | identifier | typeIdentifier | fieldIdentifier | packageIdentifier | labelName
  | rawStringLiteral | interpretedStringLiteral | escapeSequence | intLiteral | floatLiteral
  | imaginaryLiteral | runeLiteral | nilLiteral | trueLiteral | falseLiteral | iota
  | comment
  /-- A stretch of text that is no Go. -/
  | error
  /-- A token without a meaning of its own. -/
  | token (text : String)
deriving DecidableEq, Repr

namespace Kind

def name : Kind → String
  | .sourceFile => "source_file"
  | .packageClause => "package_clause"
  | .importDeclaration => "import_declaration"
  | .importSpec => "import_spec"
  | .importSpecList => "import_spec_list"
  | .dot => "dot"
  | .blankIdentifier => "blank_identifier"
  | .constDeclaration => "const_declaration"
  | .constSpec => "const_spec"
  | .varDeclaration => "var_declaration"
  | .varSpec => "var_spec"
  | .functionDeclaration => "function_declaration"
  | .methodDeclaration => "method_declaration"
  | .typeDeclaration => "type_declaration"
  | .typeSpec => "type_spec"
  | .typeAlias => "type_alias"
  | .typeParameterList => "type_parameter_list"
  | .parameterList => "parameter_list"
  | .parameterDeclaration => "parameter_declaration"
  | .variadicParameterDeclaration => "variadic_parameter_declaration"
  | .fieldDeclarationList => "field_declaration_list"
  | .fieldDeclaration => "field_declaration"
  | .methodSpec => "method_spec"
  | .structElem => "struct_elem"
  | .structTerm => "struct_term"
  | .constraintElem => "constraint_elem"
  | .parenthesizedType => "parenthesized_type"
  | .genericType => "generic_type"
  | .typeArguments => "type_arguments"
  | .pointerType => "pointer_type"
  | .arrayType => "array_type"
  | .implicitLengthArrayType => "implicit_length_array_type"
  | .sliceType => "slice_type"
  | .structType => "struct_type"
  | .interfaceType => "interface_type"
  | .mapType => "map_type"
  | .channelType => "channel_type"
  | .functionType => "function_type"
  | .unionType => "union_type"
  | .negatedType => "negated_type"
  | .qualifiedType => "qualified_type"
  | .block => "block"
  | .emptyStatement => "empty_statement"
  | .expressionStatement => "expression_statement"
  | .sendStatement => "send_statement"
  | .receiveStatement => "receive_statement"
  | .incStatement => "inc_statement"
  | .decStatement => "dec_statement"
  | .assignmentStatement => "assignment_statement"
  | .shortVarDeclaration => "short_var_declaration"
  | .labeledStatement => "labeled_statement"
  | .fallthroughStatement => "fallthrough_statement"
  | .breakStatement => "break_statement"
  | .continueStatement => "continue_statement"
  | .gotoStatement => "goto_statement"
  | .returnStatement => "return_statement"
  | .goStatement => "go_statement"
  | .deferStatement => "defer_statement"
  | .ifStatement => "if_statement"
  | .forStatement => "for_statement"
  | .forClause => "for_clause"
  | .rangeClause => "range_clause"
  | .expressionSwitchStatement => "expression_switch_statement"
  | .expressionCase => "expression_case"
  | .defaultCase => "default_case"
  | .typeSwitchStatement => "type_switch_statement"
  | .typeCase => "type_case"
  | .selectStatement => "select_statement"
  | .communicationCase => "communication_case"
  | .expressionList => "expression_list"
  | .parenthesizedExpression => "parenthesized_expression"
  | .callExpression => "call_expression"
  | .argumentList => "argument_list"
  | .variadicArgument => "variadic_argument"
  | .selectorExpression => "selector_expression"
  | .indexExpression => "index_expression"
  | .sliceExpression => "slice_expression"
  | .typeAssertionExpression => "type_assertion_expression"
  | .typeConversionExpression => "type_conversion_expression"
  | .compositeLiteral => "composite_literal"
  | .literalValue => "literal_value"
  | .literalElement => "literal_element"
  | .keyedElement => "keyed_element"
  | .funcLiteral => "func_literal"
  | .unaryExpression => "unary_expression"
  | .binaryExpression => "binary_expression"
  | .identifier => "identifier"
  | .typeIdentifier => "type_identifier"
  | .fieldIdentifier => "field_identifier"
  | .packageIdentifier => "package_identifier"
  | .labelName => "label_name"
  | .rawStringLiteral => "raw_string_literal"
  | .interpretedStringLiteral => "interpreted_string_literal"
  | .escapeSequence => "escape_sequence"
  | .intLiteral => "int_literal"
  | .floatLiteral => "float_literal"
  | .imaginaryLiteral => "imaginary_literal"
  | .runeLiteral => "rune_literal"
  | .nilLiteral => "nil"
  | .trueLiteral => "true"
  | .falseLiteral => "false"
  | .iota => "iota"
  | .comment => "comment"
  | .error => "ERROR"
  | .token text => text

def isNamed : Kind → Bool
  | .token _ => false
  | _ => true

/-- Function and method declarations and function literals. -/
def isFunction : Kind → Bool
  | .functionDeclaration | .methodDeclaration | .funcLiteral => true
  | _ => false

/-- Statements and clauses that guard what stands in them. -/
def isControlFlow : Kind → Bool
  | .ifStatement | .forStatement | .expressionSwitchStatement | .typeSwitchStatement
  | .selectStatement | .expressionCase | .typeCase | .defaultCase | .communicationCase => true
  | _ => false

end Kind

inductive Field where
  | name | path | type | value | typeParameters | parameters | result | body | receiver
  | typeArguments | length | element | key | tag | channel | left | right | operator | label
  | initializer | condition | consequence | alternative | update | guardAlias | communication
  | function | arguments | operand | member | index | start | stop | capacity | package
deriving DecidableEq, Repr

/-- The name that a tree dump shows. -/
def Field.text : Field → String
  | .name => "name"
  | .path => "path"
  | .type => "type"
  | .value => "value"
  | .typeParameters => "type_parameters"
  | .parameters => "parameters"
  | .result => "result"
  | .body => "body"
  | .receiver => "receiver"
  | .typeArguments => "type_arguments"
  | .length => "length"
  | .element => "element"
  | .key => "key"
  | .tag => "tag"
  | .channel => "channel"
  | .left => "left"
  | .right => "right"
  | .operator => "operator"
  | .label => "label"
  | .initializer => "initializer"
  | .condition => "condition"
  | .consequence => "consequence"
  | .alternative => "alternative"
  | .update => "update"
  | .guardAlias => "alias"
  | .communication => "communication"
  | .function => "function"
  | .arguments => "arguments"
  | .operand => "operand"
  | .member => "field"
  | .index => "index"
  | .start => "start"
  | .stop => "end"
  | .capacity => "capacity"
  | .package => "package"

end Handoff.Syntax

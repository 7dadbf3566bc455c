/-!
# Quoted specifiers

A module specifier is written between single quotes, with a backslash before each quote and each
backslash (`quote`). Reading a literal back takes off its quotes and resolves its escapes
(`unquote`); of the letters that may follow a backslash only `n` and `t` stand for something else.
-/

namespace Preload.Quoted

/-- Puts a backslash before each backslash and each single quote. -/
def escape : List Char → List Char
  | [] => []
  | c :: cs => if c = '\\' ∨ c = '\'' then '\\' :: c :: escape cs else c :: escape cs

/-- Resolves escapes: `\n` is a line feed, `\t` a tab, and any other escaped character is itself. A
backslash at the very end stands for itself. -/
def unescape : List Char → List Char
  | [] => []
  | ['\\'] => ['\\']
  | '\\' :: 'n' :: cs => '\n' :: unescape cs
  | '\\' :: 't' :: cs => '\t' :: unescape cs
  | '\\' :: c :: cs => c :: unescape cs
  | c :: cs => c :: unescape cs

/-- The characters between the first and the last one of a literal. A text whose first or last
character takes more than one byte has no quotes to take off and counts as empty. -/
def inner : List Char → List Char
  | [] => []
  | c :: cs =>
    if c.utf8Size = 1 ∧ cs.getLast?.map Char.utf8Size = some 1 then cs.dropLast else []

end Preload.Quoted

namespace Preload

/-- The single-quoted literal for `specifier`. -/
def quote (specifier : String) : String :=
  String.ofList ('\'' :: Quoted.escape specifier.toList ++ ['\''])

/-- The text that the quoted literal `literal` stands for. -/
def unquote (literal : String) : String :=
  String.ofList (Quoted.unescape (Quoted.inner literal.toList))

end Preload

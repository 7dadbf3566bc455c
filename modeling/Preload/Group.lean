import Preload.Token
/-!
# Statement groups

The tokens of a script are cut into groups, one for each top-level statement. Outside of brackets

* a semicolon ends a group, and the comments right after it still belong to the group;
* a line break ends a group unless its last token, comments and line breaks aside, is an operator;
* line breaks belong to no group unless more of the group follows them.

`Group.split` does this in one pass and builds the groups front to back.
-/

namespace Preload

/-- The tokens of one statement. -/
structure Group where
  first : Token
  rest : List Token
  deriving DecidableEq, Repr, Inhabited

namespace Group

/-- All tokens of the group. -/
def tokens (g : Group) : List Token :=
  g.first :: g.rest

/-- The position of the group's first byte. -/
def start (g : Group) : Nat :=
  g.first.start

/-- The position just past the group. -/
def stop (g : Group) : Nat :=
  (g.rest.getLast?.getD g.first).stop

/-- The source text of the group, from its first token to its last. -/
def text (g : Group) : List Char :=
  g.first.text ++ g.rest.flatMap fun t => t.gap ++ t.text

/-- The tokens of the group that are no comments. -/
def code (g : Group) : List Token :=
  g.tokens.filter fun t => !t.isComment

end Group

/-- The number of open brackets after a token, given the number before it. -/
def Token.Kind.depthAfter (depth : Nat) : Token.Kind → Nat
  | .opening _ => depth + 1
  | .closing _ => depth - 1
  | _ => depth

namespace Group

/-- Where a pass over the tokens stands. -/
inductive Cursor where
  /-- In no group. -/
  | between
  /-- In a group; `carriesOn` says whether its last token, trivia aside, is an operator. -/
  | inside (carriesOn : Bool)
  /-- Right after the semicolon of a group, or the comments that follow it. -/
  | closed
  deriving DecidableEq, Repr, Inhabited

/-- Where the pass stands once the group goes on with a token of kind `kind`. -/
def Cursor.advance (cursor : Cursor) (kind : Token.Kind) : Cursor :=
  if kind.isTrivia then
    match cursor with
    | .inside carriesOn => .inside carriesOn
    | _ => .inside false
  else .inside kind.carriesOn

/-- What a pass makes of the tokens ahead. -/
structure Cut where
  /-- The tokens that still belong to the group the pass stands in. -/
  tail : List Token
  /-- The groups after it. -/
  later : List Group
  deriving DecidableEq, Repr, Inhabited

/-- Puts a token in front: into the current group, or as the first of a new one. -/
def Cut.cons (cursor : Cursor) (t : Token) (cut : Cut) : Cut :=
  match cursor with
  | .inside _ => ⟨t :: cut.tail, cut.later⟩
  | _ => ⟨[], ⟨t, cut.tail⟩ :: cut.later⟩

/-- Cuts the tokens ahead, with `depth` brackets open. -/
def cut (cursor : Cursor) (depth : Nat) : List Token → Cut
  | [] => ⟨[], []⟩
  | t :: ts =>
    let depth := t.kind.depthAfter depth
    if depth ≠ 0 then (cut (cursor.advance t.kind) depth ts).cons cursor t
    else
      match t.kind, cursor with
      | .newline, .inside true =>
        if ts.all (·.kind = .newline) then ⟨[], []⟩
        else (cut cursor depth ts).cons cursor t
      | .newline, _ => ⟨[], (cut .between depth ts).later⟩
      | .semicolon, _ => (cut .closed depth ts).cons cursor t
      | .lineComment, .closed | .blockComment, .closed =>
        let cut := cut .closed depth ts
        ⟨t :: cut.tail, cut.later⟩
      | kind, _ => (cut (cursor.advance kind) depth ts).cons cursor t

/-- The groups of a list of tokens. -/
def split (ts : List Token) : List Group :=
  (cut .between 0 ts).later

end Group

end Preload

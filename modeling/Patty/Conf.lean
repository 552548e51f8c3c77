import Patty.Lib.Bytes

/-! # Configuration files (`conf.c`)

`patty_conf_read` takes the text of a file apart into words where it lies: the characters of a word are moved to
the front, each word with a zero octet behind it, and the handler is given the words of a line. What the handler
answers, and whether there is memory for the words and the lines, is left open. -/

namespace Patty

namespace Conf

inductive State
  | string
  | singleQuote
  | doubleQuote
  | delim
  | comment
  deriving DecidableEq

/-- `patty_conf_token`. The text is where it starts in the file, or none for NULL. -/
structure Token where
  text : Option Nat
  lineno : Nat
  column : Nat
  len : Nat

/-- A token after `memset`. -/
def Token.zero : Token := ⟨none, 0, 0, 0⟩

/-- The characters of a token, in the file as it is now. -/
def Token.word (token : Token) (buf : Mem) : Bytes := buf.read (token.text.getD 0) token.len

/-- What the code around the scanner does: whether the handler accepts its `n`th line, whether there is memory for
the `n`th token, and for another line after the `n`th. -/
structure Env where
  accepts : Nat → Bool
  saves : Nat → Bool
  news : Nat → Bool

/-- The variables of `patty_conf_read`. `tokens`, `calls` and `stores` record what it has done: the tokens it has
saved, the lines it has given to the handler, and the indices it has stored at, each with the index it has read
up to. -/
structure Scan where
  buf : Mem
  state : State
  escape : Bool
  last : UInt8
  o : Nat
  lineno : Nat
  column : Nat
  token : Token
  line : List Token
  tokens : List Token
  calls : List (List Bytes)
  stores : List (Nat × Nat)

def startOfString (old state : State) : Bool :=
  match state with
  | .string | .singleQuote | .doubleQuote => old == .delim
  | _ => false

def endOfString (old state : State) : Bool :=
  match old with
  | .string | .singleQuote | .doubleQuote => state == .delim || state == .comment
  | _ => false

def withinString (old state : State) : Bool :=
  match state with
  | .string => old != .singleQuote && old != .doubleQuote
  | .singleQuote | .doubleQuote => old == state
  | _ => false

def charDelim (c : UInt8) : Bool := c == 0x20 || c == 0x0d || c == 0x0a || c == 0x09

/-- The `switch` over the state: the state and the escape after the character `c`. -/
def advance (state : State) (escape : Bool) (c : UInt8) : State × Bool :=
  match state with
  | .string =>
    if c == 0x5c && !escape then (state, true)
    else if charDelim c then (.delim, escape)
    else if c == 0x27 then (.singleQuote, escape)
    else if c == 0x22 then (.doubleQuote, escape)
    else if c == 0x23 then (.comment, escape)
    else (state, escape)
  | .singleQuote => if c == 0x27 then (.string, escape) else (state, escape)
  | .doubleQuote =>
    if c == 0x5c && !escape then (state, true)
    else if c == 0x22 && !escape then (.string, escape)
    else (state, escape)
  | .delim =>
    if c == 0x5c && !escape then (state, true)
    else if c == 0x27 then (.singleQuote, escape)
    else if c == 0x22 then (.doubleQuote, escape)
    else if c == 0x23 then (.comment, escape)
    else if !charDelim c then (.string, escape)
    else (state, escape)
  | .comment => if c == 0x0a then (.delim, escape) else (state, escape)

namespace Scan

/-- Before the first character. -/
def start (buf : Mem) : Scan where
  buf := buf
  state := .string
  escape := false
  last := 0
  o := 0
  lineno := 1
  column := 0
  token := ⟨some 0, 1, 0, 0⟩
  line := []
  tokens := []
  calls := []
  stores := []

/-- `file.buf[o++] = b`, while the character at `i` is read. -/
def put (s : Scan) (i : Nat) (b : UInt8) : Scan :=
  { s with buf := s.buf.store s.o [b], o := s.o + 1, stores := s.stores ++ [(s.o, i)] }

/-- `token_save` -/
def tokenSave (env : Env) (s : Scan) : Except Scan Scan :=
  if env.saves s.tokens.length then
    .ok { s with tokens := s.tokens ++ [s.token], line := s.line ++ [s.token], token := .zero }
  else .error s

/-- The call of the handler, where the line has a token. -/
def handle (env : Env) (s : Scan) : Except Scan Scan :=
  if s.line.length = 0 then .ok s
  else
    let n := s.calls.length
    let s := { s with calls := s.calls ++ [s.line.map (·.word s.buf)] }
    if env.accepts n then .ok s else .error s

/-- `line_destroy`, and another `patty_list_new`, where the handler was called. -/
def newLine (env : Env) (s : Scan) : Except Scan Scan :=
  if s.line.length = 0 then .ok s
  else if env.news (s.calls.length - 1) then .ok { s with line := [] }
  else .error { s with line := [] }

/-- The token that starts at this character, if one does. -/
def startToken (s : Scan) (old : State) : Scan :=
  if startOfString old s.state then { s with token := ⟨some s.o, s.lineno, s.column, 0⟩ } else s

/-- What is kept of the character `c` at `i`. -/
def keep (env : Env) (s : Scan) (old : State) (i : Nat) (c : UInt8) : Except Scan Scan :=
  if withinString old s.state then
    .ok (if s.escape then s else { s.put i c with token := { s.token with len := s.token.len + 1 } })
  else if endOfString old s.state then (s.put i 0).tokenSave env
  else .ok s

/-- The end of the line, if `c` is one. -/
def endLine (env : Env) (s : Scan) (c : UInt8) : Except Scan Scan :=
  if c == 0x0a && !s.escape then do
    let s ← s.handle env
    s.newLine env
  else .ok s

/-- The position after the character `c`. -/
def move (s : Scan) (c : UInt8) : Scan :=
  if c == 0x0a then { s with lineno := s.lineno + 1, column := 1 } else { s with column := s.column + 1 }

/-- The end of the round for the character `c`. -/
def finish (s : Scan) (c : UInt8) : Scan :=
  { s with escape := s.escape && s.last != 0x5c, last := c }

/-- The body of the loop. -/
def step (env : Env) (i : Nat) (s : Scan) : Except Scan Scan := do
  let old := s.state
  let c := s.buf i
  let next := advance s.state s.escape c
  let s := { s.move c with state := next.1, escape := next.2 }
  let s ← (s.startToken old).keep env old i c
  let s ← s.endLine env c
  .ok (s.finish c)

/-- The loop over the `n` characters from `i` on. -/
def loop (env : Env) : Nat → Nat → Scan → Except Scan Scan
  | 0, _, s => .ok s
  | n + 1, i, s => do
    let s ← s.step env i
    loop env n (i + 1) s

/-- What follows the loop over `size` characters. -/
def close (env : Env) (size : Nat) (s : Scan) : Except Scan Scan := do
  let s ← if s.token.len ≠ 0 then (s.put size 0).tokenSave env else .ok s
  s.handle env

end Scan

/-- `patty_conf_read` of a file with these characters, in memory that continues with `rest`. An error is the -1 of an
early return. -/
def read (env : Env) (content : Bytes) (rest : Mem) : Except Scan Scan := do
  let s ← (Scan.start (.ofBytes content rest)).loop env content.length 0
  s.close env content.length

/-- The variables as they were left, early or not. -/
def left : Except Scan Scan → Scan
  | .ok s => s
  | .error s => s

end Conf

end Patty

/-!
# Words of a settings document

A settings document is written in TOML. Its characters are read into tokens: bare words, quoted texts, punctuation
and line ends. Blanks and comments separate tokens and leave none behind.

A setting is given by a name, so numbers, dates, truth values and lists with items never stand in a settings
document. They are not among the tokens, and a document that holds one is refused.
-/

namespace BorrowChecker.Config

inductive Token where
  /-- A word without quotes, which can only be a key. -/
  | word (s : String)
  /-- A quoted text on one line: a key or a value. -/
  | text (s : String)
  /-- A quoted text in triple quotes, which can only be a value. -/
  | block (s : String)
  | equals
  | dot
  | openBracket
  | closeBracket
  | openBrace
  | closeBrace
  /-- A list or a table with nothing in it. -/
  | empty
  | newline
deriving DecidableEq, Repr

namespace Token

/-! ## Characters -/

def isBlank (c : Char) : Bool := c = ' ' ∨ c = '\t'

/-- The characters of bare words. -/
def isWord (c : Char) : Bool := c.isAlphanum || c = '_' || c = '-'

/-- The characters that stand for themselves in texts and comments: all but the control characters, of which a tab
is allowed. -/
def isPlain (c : Char) : Bool := c = '\t' || (' ' ≤ c && c ≠ '\x7f')

def hexDigit? (c : Char) : Option Nat :=
  if '0' ≤ c ∧ c ≤ '9' then some (c.toNat - '0'.toNat)
  else if 'a' ≤ c ∧ c ≤ 'f' then some (c.toNat - 'a'.toNat + 10)
  else if 'A' ≤ c ∧ c ≤ 'F' then some (c.toNat - 'A'.toNat + 10)
  else none

/-- The character whose code the first `n` characters spell in hexadecimal. -/
def codePoint? (n : Nat) (cs : List Char) : Option Char :=
  if cs.length < n then none
  else
    match (cs.take n).foldlM (fun code c => (hexDigit? c).map (16 * code + ·)) 0 with
    | some code => if code.isValidChar then some (Char.ofNat code) else none
    | none => none

/-- The character that an escape stands for, and the number of characters after the backslash that spell it. -/
def escape? : List Char → Option (Char × Nat)
  | 'b' :: _ => some ('\x08', 1)
  | 't' :: _ => some ('\t', 1)
  | 'n' :: _ => some ('\n', 1)
  | 'f' :: _ => some ('\x0c', 1)
  | 'r' :: _ => some ('\r', 1)
  | '\x22' :: _ => some ('\x22', 1)
  | '\\' :: _ => some ('\\', 1)
  | 'u' :: cs => (codePoint? 4 cs).map (·, 5)
  | 'U' :: cs => (codePoint? 8 cs).map (·, 9)
  | _ => none

/-! ## Texts

A reader of a text starts after the opening quotes and gives the text with the number of characters read, closing
quotes included. -/

/-- What comes after a piece of a text of which `n` characters have been read. -/
def extend (piece : List Char) (n : Nat) : List Char × Nat → List Char × Nat
  | (s, m) => (piece ++ s, n + m)

/-- A text in double quotes on one line. -/
def basic? (cs : List Char) : Option (List Char × Nat) :=
  match cs with
  | [] => none
  | '\x22' :: _ => some ([], 1)
  | '\\' :: cs =>
    match escape? cs with
    | some (c, n) => (basic? (cs.drop n)).map (extend [c] (n + 1))
    | none => none
  | c :: cs => if isPlain c then (basic? cs).map (extend [c] 1) else none
termination_by cs.length
decreasing_by all_goals simp only [List.length_drop, List.length_cons]; omega

/-- A text in single quotes on one line, in which a backslash is a character like others. -/
def literal? : List Char → Option (List Char × Nat)
  | [] => none
  | '\x27' :: _ => some ([], 1)
  | c :: cs => if isPlain c then (literal? cs).map (extend [c] 1) else none

/-- The number of characters in blanks and line ends at the start. -/
def blankRun : List Char → Nat
  | ' ' :: cs => blankRun cs + 1
  | '\t' :: cs => blankRun cs + 1
  | '\n' :: cs => blankRun cs + 1
  | '\r' :: '\n' :: cs => blankRun cs + 2
  | _ => 0

/-- The number of characters of the line end at the start, zero if there is none. -/
def lineEnd : List Char → Nat
  | '\n' :: _ => 1
  | '\r' :: '\n' :: _ => 2
  | _ => 0

/-- A text in triple double quotes. A backslash at the end of a line joins the lines, and one or two quotes may stand
before the closing three. -/
def basicBlock? (cs : List Char) : Option (List Char × Nat) :=
  match cs with
  | [] => none
  | '\x22' :: '\x22' :: '\x22' :: '\x22' :: '\x22' :: _ => some (['\x22', '\x22'], 5)
  | '\x22' :: '\x22' :: '\x22' :: '\x22' :: _ => some (['\x22'], 4)
  | '\x22' :: '\x22' :: '\x22' :: _ => some ([], 3)
  | '\\' :: cs =>
    if lineEnd (cs.dropWhile isBlank) ≠ 0 then
      (basicBlock? (cs.drop (blankRun cs))).map (extend [] (blankRun cs + 1))
    else
      match escape? cs with
      | some (c, n) => (basicBlock? (cs.drop n)).map (extend [c] (n + 1))
      | none => none
  | '\n' :: cs => (basicBlock? cs).map (extend ['\n'] 1)
  | '\r' :: '\n' :: cs => (basicBlock? cs).map (extend ['\n'] 2)
  | c :: cs => if isPlain c then (basicBlock? cs).map (extend [c] 1) else none
termination_by cs.length
decreasing_by all_goals simp only [List.length_drop, List.length_cons]; omega

/-- A text in triple single quotes. -/
def literalBlock? : List Char → Option (List Char × Nat)
  | [] => none
  | '\x27' :: '\x27' :: '\x27' :: '\x27' :: '\x27' :: _ => some (['\x27', '\x27'], 5)
  | '\x27' :: '\x27' :: '\x27' :: '\x27' :: _ => some (['\x27'], 4)
  | '\x27' :: '\x27' :: '\x27' :: _ => some ([], 3)
  | '\n' :: cs => (literalBlock? cs).map (extend ['\n'] 1)
  | '\r' :: '\n' :: cs => (literalBlock? cs).map (extend ['\n'] 2)
  | c :: cs => if isPlain c then (literalBlock? cs).map (extend [c] 1) else none

/-- The quoted text that starts with the quote `q`, whose first character has been read. A line end right after the
opening of a block is not part of it. -/
def quoted? (q : Char) (cs : List Char) : Option (Token × Nat) :=
  let basic := q = '\x22'
  match cs with
  | a :: b :: rest =>
    if a = q ∧ b = q then
      let n := lineEnd rest
      (if basic then basicBlock? (rest.drop n) else literalBlock? (rest.drop n)).map
        fun (s, m) => (.block (.ofList s), n + m + 2)
    else (if basic then basic? cs else literal? cs).map fun (s, m) => (.text (.ofList s), m)
  | _ => (if basic then basic? cs else literal? cs).map fun (s, m) => (.text (.ofList s), m)

/-! ## Tokens -/

/-- The token that a character is by itself. -/
def punctuation? : Char → Option Token
  | '=' => some .equals
  | '.' => some .dot
  | '[' => some .openBracket
  | ']' => some .closeBracket
  | '\x7b' => some .openBrace
  | '\x7d' => some .closeBrace
  | '\n' => some .newline
  | _ => none

/-- The tokens of a document. -/
def scan? (cs : List Char) : Option (List Token) :=
  match cs with
  | [] => some []
  | '\r' :: '\n' :: cs => (scan? cs).map (.newline :: ·)
  | c :: cs =>
    if isBlank c then scan? cs
    else if c = '#' then scan? (cs.drop (cs.takeWhile isPlain).length)
    else if c = '\x22' ∨ c = '\x27' then
      match quoted? c cs with
      | some (token, n) => (scan? (cs.drop n)).map (token :: ·)
      | none => none
    else if isWord c then
      let rest := cs.takeWhile isWord
      (scan? (cs.drop rest.length)).map (.word (.ofList (c :: rest)) :: ·)
    else
      match punctuation? c with
      | some token => (scan? cs).map (token :: ·)
      | none => none
termination_by cs.length
decreasing_by all_goals simp only [List.length_drop, List.length_cons]; omega

/-- Joins the brackets of an empty list, between which lines may end, and the braces of an empty table. -/
def joinEmpty (ts : List Token) : List Token :=
  match ts with
  | [] => []
  | .openBrace :: .closeBrace :: ts => .empty :: joinEmpty ts
  | .openBracket :: ts =>
    let n := (ts.takeWhile (· = .newline)).length
    match ts.drop n with
    | .closeBracket :: _ => .empty :: joinEmpty (ts.drop (n + 1))
    | _ => .openBracket :: joinEmpty ts
  | t :: ts => t :: joinEmpty ts
termination_by ts.length
decreasing_by all_goals simp only [List.length_drop, List.length_cons]; omega

/-- The lines of a document. -/
def lines : List Token → List (List Token)
  | [] => [[]]
  | .newline :: ts => [] :: lines ts
  | t :: ts =>
    match lines ts with
    | [] => [[t]]
    | line :: rest => (t :: line) :: rest

end Token

end BorrowChecker.Config

import RailRoute.Text.Blank

/-!
# Cutting text

The route languages are read by cutting text at separators, dropping blanks at the ends and
comparing words without regard to the case of the ASCII letters. All of it is done on lists of
characters.
-/

namespace RailRoute.Text

/-! ## Blanks and case -/

/-- The text without the blanks before it. -/
def trimStart (cs : List Char) : List Char := cs.dropWhile isBlank

/-- The text without the blanks behind it. -/
def trimEnd (cs : List Char) : List Char := (trimStart cs.reverse).reverse

/-- The text without the blanks around it. -/
def trim (cs : List Char) : List Char := trimEnd (trimStart cs)

/-- The text with its ASCII letters in lower case. -/
def lower (cs : List Char) : List Char := cs.map Char.toLower

/-- Whether two words are the same up to the case of ASCII letters. -/
def sameWord (a b : List Char) : Bool := lower a == lower b

/-! ## Known beginnings and ends -/

/-- What follows the word `w` at the beginning of the text, if it begins with it. -/
def afterHead? (w cs : List Char) : Option (List Char) :=
  if w.isPrefixOf cs then some (cs.drop w.length) else none

/-- What precedes the word `w` at the end of the text, if it ends with it. -/
def beforeTail? (w cs : List Char) : Option (List Char) :=
  if w.isSuffixOf cs then some (cs.take (cs.length - w.length)) else none

/-- The text inside an opening and a closing character, if these are its two ends. -/
def between? (opening closing : Char) : List Char → Option (List Char)
  | [] => none
  | c :: r => if c = opening ∧ r.getLast? = some closing then some r.dropLast else none

/-! ## Separators -/

/-- The parts of the text between separators. There is always one part more than there are
separators. -/
def parts (separates : Char → Bool) (cs : List Char) : List (List Char) :=
  cs.foldr (fun c rest =>
    if separates c then [] :: rest
    else match rest with
      | [] => [[c]]
      | p :: ps => (c :: p) :: ps) [[]]

/-- The text before the first character that satisfies `p` and the text from it on. -/
def cutAt? (p : Char → Bool) (cs : List Char) : Option (List Char × List Char) :=
  match cs.dropWhile (!p ·) with
  | [] => none
  | rest => some (cs.takeWhile (!p ·), rest)

/-- The text without the occurrences of the word `w`, found from left to right and not
overlapping; `skip` counts the characters still to be dropped of an occurrence already found. -/
def eraseFrom (w : List Char) : Nat → List Char → List Char
  | _, [] => []
  | skip + 1, _ :: r => eraseFrom w skip r
  | 0, c :: r =>
    if w.isPrefixOf (c :: r) then eraseFrom w (w.length - 1) r else c :: eraseFrom w 0 r

/-- The text without the occurrences of the non-empty word `w`. -/
def erase (w cs : List Char) : List Char := eraseFrom w 0 cs

/-! ## Parentheses -/

/-- Cuts the text before its first character outside parentheses that satisfies `p`; `depth`
counts the parentheses open so far, and one that closes nothing is ignored. -/
def cutOutside? (p : Char → Bool) : Nat → List Char → Option (List Char × List Char)
  | _, [] => none
  | depth, c :: r =>
    if c = '(' then (cutOutside? p (depth + 1) r).map fun x => (c :: x.1, x.2)
    else if c = ')' then (cutOutside? p (depth - 1) r).map fun x => (c :: x.1, x.2)
    else if depth = 0 ∧ p c then some ([], c :: r)
    else (cutOutside? p depth r).map fun x => (c :: x.1, x.2)

/-- Reads on to the parenthesis that closes the innermost of `depth + 1` open ones and returns
what stands before it and after it. -/
def closeGroup? : Nat → List Char → Option (List Char × List Char)
  | _, [] => none
  | depth, c :: r =>
    if c = '(' then (closeGroup? (depth + 1) r).map fun x => (c :: x.1, x.2)
    else if c = ')' then
      match depth with
      | 0 => some ([], r)
      | d + 1 => (closeGroup? d r).map fun x => (c :: x.1, x.2)
    else (closeGroup? depth r).map fun x => (c :: x.1, x.2)

/-- Reads a reversed text back to the parenthesis that opens the outermost of `depth + 1` closed
ones and returns what stands behind it and before it, both reversed. -/
def openGroup? : Nat → List Char → Option (List Char × List Char)
  | _, [] => none
  | depth, c :: r =>
    if c = ')' then (openGroup? (depth + 1) r).map fun x => (c :: x.1, x.2)
    else if c = '(' then
      match depth with
      | 0 => some ([], r)
      | d + 1 => (openGroup? d r).map fun x => (c :: x.1, x.2)
    else (openGroup? depth r).map fun x => (c :: x.1, x.2)

/-- Splits a text that ends in a parenthesized group into what stands before the group and what
stands inside it. -/
def trailingGroup? (cs : List Char) : Option (List Char × List Char) :=
  match cs.reverse with
  | ')' :: r => (openGroup? 0 r).map fun x => (x.2.reverse, x.1.reverse)
  | _ => none

end RailRoute.Text

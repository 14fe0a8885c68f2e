import Mathlib
import RailRoute.Text.Basic
import RailRoute.Text.Quoted

/-!
# Reading JSON

The grammar of RFC 8259 as a reader. `Json.parse` reads a whole text: it gives the value that the
text stands for, or nothing if the text is no JSON. What a reader makes of the front of a text, and
when it gives nothing, is said by `Reads`; arrays and objects are read if, and only if, all their
parts are. Main statements: `ReadsAll.array` and `ReadsAll.object`.
-/

namespace RailRoute

open Text

/-- A value of JSON. Numbers are kept as they are written. -/
inductive Json where
  | null
  | bool (b : Bool)
  | number (written : List Char)
  | string (content : List Char)
  | array (items : List Json)
  | object (members : List (List Char × Json))

namespace Json

/-- What reads the front of a text. It gives a value and the text behind it, or nothing. -/
abbrev Reader (α : Type) := List Char → Option (α × List Char)

/-! ## The grammar -/

/-- Whether a character is insignificant between values. -/
def isSpace (c : Char) : Bool := c ∈ [' ', '\t', '\n', '\r']

/-- The text behind insignificant characters. -/
def skip (cs : List Char) : List Char := cs.dropWhile isSpace

/-- The text behind a character that has to be there. -/
def expect (c : Char) : List Char → Option (List Char)
  | d :: cs => if d = c then some cs else none
  | [] => none

/-- At least one digit. -/
def readDigits : Reader (List Char) := fun cs =>
  if (cs.takeWhile Char.isDigit).isEmpty then none
  else some (cs.takeWhile Char.isDigit, cs.dropWhile Char.isDigit)

/-- The digits in front of the point. A zero has no other digit behind it. -/
def readWhole : Reader (List Char)
  | '0' :: cs => some (['0'], cs)
  | cs => readDigits cs

/-- A point and the digits behind it, if there is one. -/
def readFraction : Reader (List Char)
  | '.' :: cs => (readDigits cs).map fun (ds, cs) => ('.' :: ds, cs)
  | cs => some ([], cs)

/-- An exponent, if there is one. -/
def readExponent : Reader (List Char)
  | [] => some ([], [])
  | c :: cs =>
    if c = 'e' ∨ c = 'E' then
      match cs with
      | [] => none
      | s :: ds =>
        if s = '+' ∨ s = '-' then (readDigits ds).map fun (ds, cs) => (c :: s :: ds, cs)
        else (readDigits cs).map fun (ds, cs) => (c :: ds, cs)
    else some ([], c :: cs)

/-- A number without a sign. -/
def readMagnitude : Reader (List Char) := fun cs => do
  let (whole, cs) ← readWhole cs
  let (fraction, cs) ← readFraction cs
  let (exponent, cs) ← readExponent cs
  some (whole ++ fraction ++ exponent, cs)

/-- A number. -/
def readNumber : Reader (List Char)
  | '-' :: cs => (readMagnitude cs).map fun (ds, cs) => ('-' :: ds, cs)
  | cs => readMagnitude cs

/-- The value of a hexadecimal digit. -/
def hexValue? (c : Char) : Option Nat :=
  if '0' ≤ c ∧ c ≤ '9' then some (c.toNat - 48)
  else if 'a' ≤ c ∧ c ≤ 'f' then some (c.toNat - 87)
  else if 'A' ≤ c ∧ c ≤ 'F' then some (c.toNat - 55)
  else none

/-- A code unit of four hexadecimal digits. -/
def readUnit : Reader Nat
  | a :: b :: c :: d :: cs => do
    let a ← hexValue? a
    let b ← hexValue? b
    let c ← hexValue? c
    let d ← hexValue? d
    some (((a * 16 + b) * 16 + c) * 16 + d, cs)
  | _ => none

/-- The character of a high surrogate with the low one that is escaped behind it. -/
def readPair (high : Nat) : Reader Char := fun cs => do
  let cs ← expect '\\' cs
  let cs ← expect 'u' cs
  let (low, cs) ← readUnit cs
  if 0xD800 ≤ high ∧ high < 0xDC00 ∧ 0xDC00 ≤ low ∧ low < 0xE000 then
    some (Char.ofNat (0x10000 + (high - 0xD800) * 0x400 + (low - 0xDC00)), cs)
  else none

/-- The character of a code unit and, if that is a surrogate, of its partner. A surrogate without
one stands for the replacement character. -/
def readCode : Reader Char := fun cs => do
  let (unit, cs) ← readUnit cs
  if unit < 0xD800 ∨ 0xE000 ≤ unit then some (Char.ofNat unit, cs)
  else some ((readPair unit cs).getD (Char.ofNat 0xFFFD, cs))

/-- The character that is escaped behind a backslash. -/
def readEscape : Reader Char
  | 'u' :: cs => readCode cs
  | c :: cs =>
    ([('"', '"'), ('\\', '\\'), ('/', '/'), ('b', '\x08'), ('f', '\x0c'), ('n', '\n'), ('r', '\r'),
      ('t', '\t')].lookup c).map (·, cs)
  | [] => none

/-- At most so many characters of a string, and the quote behind them. -/
def readContent : Nat → Reader (List Char)
  | 0, _ => none
  | _ + 1, [] => none
  | count + 1, c :: cs =>
    if c = '"' then some ([], cs)
    else if c = '\\' then do
      let (d, cs) ← readEscape cs
      let (ds, cs) ← readContent count cs
      some (d :: ds, cs)
    else if c.toNat < 0x20 then none
    else do
      let (ds, cs) ← readContent count cs
      some (c :: ds, cs)

/-- A string behind its first quote. -/
def readString : Reader (List Char) := fun cs => readContent cs.length cs

/-- At most so many items, and what closes them. -/
def readItems {α : Type} (item : Reader α) (close : Char) : Nat → Reader (List α)
  | 0, _ => none
  | count + 1, cs => do
    let (a, cs) ← item (skip cs)
    match skip cs with
    | [] => none
    | c :: cs =>
      if c = ',' then do
        let (as, cs) ← readItems item close count cs
        some (a :: as, cs)
      else if c = close then some ([a], cs)
      else none

/-- Items behind what opens them. -/
def readList {α : Type} (item : Reader α) (close : Char) : Reader (List α) := fun cs =>
  match expect close (skip cs) with
  | some cs => some ([], cs)
  | none => readItems item close cs.length cs

/-- A member of an object. -/
def readMember (value : Reader Json) : Reader (List Char × Json) := fun cs => do
  let cs ← expect '"' cs
  let (name, cs) ← readString cs
  let cs ← expect ':' (skip cs)
  let (v, cs) ← value (skip cs)
  some ((name, v), cs)

/-- The values that are written as words. -/
def words : List (String × Json) := [("null", null), ("true", bool true), ("false", bool false)]

/-- One of the words. -/
def readWord : Reader Json := fun cs =>
  words.findSome? fun (word, v) => (afterHead? word.toList cs).map (v, ·)

/-- A value with so many levels of arrays and objects at most. -/
def readValue : Nat → Reader Json
  | 0, _ => none
  | _ + 1, [] => none
  | depth + 1, c :: cs =>
    if c = '"' then (readString cs).map fun (content, cs) => (string content, cs)
    else if c = '[' then
      (readList (readValue depth) ']' cs).map fun (items, cs) => (array items, cs)
    else if c = '\x7b' then
      (readList (readMember (readValue depth)) '\x7d' cs).map fun (members, cs) =>
        (object members, cs)
    else
      (readWord (c :: cs)).or ((readNumber (c :: cs)).map fun (ds, cs) => (number ds, cs))

/-- The value that a text stands for, if it is JSON. No text has more levels than characters. -/
def parse (text : String) : Option Json :=
  match readValue text.toList.length (skip text.toList) with
  | some (v, cs) => if (skip cs).isEmpty then some v else none
  | none => none

example : parse " [1.5e3, \"\\ud834\\udd1e\\n\"] " =
    some (array [number "1.5e3".toList, string ['𝄞', '\n']]) := rfl

example : parse "[01]" = none := rfl

/-- The member of an object with a name; nothing is null. -/
def get (name : String) : Json → Json
  | object members => (members.lookup name.toList).getD null
  | _ => null

/-- The items of an array; anything else has none. -/
def items : Json → List Json
  | array items => items
  | _ => []

/-! ## What is read -/

/-- Whether a text may stand behind a value: it is empty, or begins with a space or with what
separates or closes. -/
def IsBoundary (cs : List Char) : Prop := ∀ c ∈ cs.head?, isSpace c ∨ c ∈ [',', ']', '\x7d']

/-- Whether a text is read as a value in front of whatever may stand behind one, if it is sound, and
not at all if it is not. -/
structure Reads {α : Type} (r : Reader α) (text : List Char) (sound : Bool) (value : α) :
    Prop where
  opens : ∃ c cs, text = c :: cs ∧ ¬ isSpace c ∧ c ∉ [']', '\x7d']
  reads : ∀ rest, IsBoundary rest → r (text ++ rest) = if sound then some (value, rest) else none

/-- Whether texts are read as values, one by one. They are sound if all of them are. -/
inductive ReadsAll {α : Type} (r : Reader α) : List (List Char) → Bool → List α → Prop where
  | nil : ReadsAll r [] true []
  | cons {text : List Char} {texts : List (List Char)} {sound sounds : Bool} {value : α}
      {values : List α} : Reads r text sound value → ReadsAll r texts sounds values →
      ReadsAll r (text :: texts) (sound && sounds) (value :: values)

section Spaces

theorem skip_append {gap : List Char} (spaces : ∀ c ∈ gap, isSpace c) (cs : List Char) :
    skip (gap ++ cs) = skip cs := by
  rw [skip, List.dropWhile_append_of_pos spaces]
  rfl

theorem skip_cons {c : Char} (h : ¬ isSpace c) (cs : List Char) : skip (c :: cs) = c :: cs :=
  List.dropWhile_cons_of_neg h

theorem isBoundary_cons {c : Char} (h : c ∈ [',', ']', '\x7d']) (cs : List Char) :
    IsBoundary (c :: cs) := fun _ hd => .inr (Option.some.inj hd ▸ h)

theorem isBoundary_append_cons {gap : List Char} (spaces : ∀ c ∈ gap, isSpace c) {c : Char}
    (h : c ∈ [',', ']', '\x7d']) (cs : List Char) : IsBoundary (gap ++ c :: cs) := by
  cases gap with
  | nil => exact isBoundary_cons h cs
  | cons d gap => exact fun e he => .inl (Option.some.inj he ▸ spaces d (List.mem_cons_self ..))

end Spaces

section Lists

variable {α : Type} {item : Reader α} {texts : List (List Char)} {sound : Bool} {values : List α}

theorem Reads.skip_append {text : List Char} {value : α} (h : Reads item text sound value)
    {lead : List Char} (spaces : ∀ c ∈ lead, isSpace c) (rest : List Char) :
    skip (lead ++ (text ++ rest)) = text ++ rest := by
  obtain ⟨c, cs, rfl, solid, -⟩ := h.opens
  rw [Json.skip_append spaces, List.cons_append, skip_cons solid]

theorem ReadsAll.map {β : Type} {text : β → List Char} {isSound : β → Bool} {value : β → α}
    {bs : List β} (h : ∀ b ∈ bs, Reads item (text b) (isSound b) (value b)) :
    ReadsAll item (bs.map text) (bs.all isSound) (bs.map value) := by
  induction bs with
  | nil => exact .nil
  | cons b bs ih =>
    obtain ⟨here, behind⟩ := List.forall_mem_cons.1 h
    exact .cons here (ih behind)

/-- What the items of a list are followed by. -/
structure IsFrame (close : Char) (lead gap trail : List Char) : Prop where
  close : close = ']' ∨ close = '\x7d'
  lead : ∀ c ∈ lead, isSpace c
  gap : ∀ c ∈ gap, isSpace c
  trail : ∀ c ∈ trail, isSpace c

variable {close : Char} {lead gap trail : List Char}

theorem readItems_of_readsAll (h : ReadsAll item texts sound values) (ne : texts ≠ [])
    (frame : IsFrame close lead gap trail) {count : Nat} (enough : texts.length ≤ count)
    (rest : List Char) : readItems item close count
      (lead ++ ((',' :: gap).intercalate texts ++ (trail ++ close :: rest))) =
        if sound then some (values, rest) else none := by
  have solid : ¬ isSpace close := by rcases frame.close with rfl | rfl <;> decide
  have other : close ≠ ',' := by rcases frame.close with rfl | rfl <;> decide
  have closes : close ∈ [',', ']', '\x7d'] := by
    rcases frame.close with rfl | rfl <;> decide
  induction h generalizing count lead with
  | nil => exact absurd rfl ne
  | @cons text texts sound sounds value values here behind ih =>
    obtain ⟨count, rfl⟩ : ∃ k, count = k + 1 := ⟨count - 1, by simp at enough; omega⟩
    unfold readItems
    cases texts with
    | nil =>
      cases behind
      rw [List.intercalate_singleton, here.skip_append frame.lead,
        here.reads _ (isBoundary_append_cons frame.trail closes rest)]
      cases sound with
      | false => rfl
      | true => simp [skip_append frame.trail, skip_cons solid, other]
    | cons text' texts =>
      have whole : (',' :: gap).intercalate (text :: text' :: texts) ++ (trail ++ close :: rest) =
          text ++ ',' :: (gap ++ ((',' :: gap).intercalate (text' :: texts) ++
            (trail ++ close :: rest))) := by
        rw [List.intercalate_cons_cons]
        simp
      have comma : ¬ isSpace ',' := by decide
      have next := ih (by simp) ⟨frame.close, frame.gap, frame.gap, frame.trail⟩
        (Nat.le_of_succ_le_succ enough)
      rw [whole, here.skip_append frame.lead, here.reads _ (isBoundary_cons (by simp) _)]
      cases sound with
      | false => rfl
      | true =>
        simp only [if_true, Option.bind_eq_bind, Option.bind_some, skip_cons comma, next]
        cases sounds <;> rfl

variable (gap) in
theorem length_le_intercalate (texts : List (List Char)) :
    texts.length ≤ ((',' :: gap).intercalate texts).length + 1 := by
  induction texts with
  | nil => exact Nat.zero_le _
  | cons text texts ih =>
    cases texts with
    | nil => simp
    | cons text' texts =>
      rw [List.intercalate_cons_cons]
      simp only [List.length_cons, List.length_append] at ih ⊢
      omega

theorem readList_of_readsAll (h : ReadsAll item texts sound values)
    (frame : IsFrame close lead gap trail) (rest : List Char) : readList item close
      (lead ++ ((',' :: gap).intercalate texts ++ (trail ++ close :: rest))) =
        if sound then some (values, rest) else none := by
  have solid : ¬ isSpace close := by rcases frame.close with rfl | rfl <;> decide
  unfold readList
  cases h with
  | nil =>
    have behind : skip (lead ++ (trail ++ close :: rest)) = close :: rest := by
      rw [skip_append frame.lead, skip_append frame.trail, skip_cons solid]
    simp [behind, expect]
  | @cons text texts sound sounds value values here behind =>
    have all := ReadsAll.cons here behind
    obtain ⟨c, cs, htext, nonspace, other⟩ := here.opens
    have ne : c ≠ close := by
      rintro rfl
      rcases frame.close with rfl | rfl <;> simp at other
    have first : ∃ r, skip (lead ++ ((',' :: gap).intercalate (text :: texts) ++
        (trail ++ close :: rest))) = c :: r := by
      rw [skip_append frame.lead]
      cases texts with
      | nil =>
        rw [List.intercalate_singleton, htext, List.cons_append, skip_cons nonspace]
        exact ⟨_, rfl⟩
      | cons text' texts =>
        rw [List.intercalate_cons_cons, htext, List.cons_append, List.cons_append,
          List.cons_append, skip_cons nonspace]
        exact ⟨_, rfl⟩
    obtain ⟨r, first⟩ := first
    simp only [first, expect, if_neg ne]
    refine readItems_of_readsAll all (by simp) frame ?_ rest
    have := length_le_intercalate gap (text :: texts)
    simp only [List.length_append, List.length_cons] at this ⊢
    omega

end Lists

section Values

variable {depth : Nat} {texts : List (List Char)} {sound : Bool}
  {lead gap trail : List Char}

theorem readValue_string (cs : List Char) : readValue (depth + 1) ('"' :: cs) =
    (readString cs).map fun (content, cs) => (string content, cs) := rfl

theorem readValue_array (cs : List Char) : readValue (depth + 1) ('[' :: cs) =
    (readList (readValue depth) ']' cs).map fun (items, cs) => (array items, cs) := rfl

theorem readValue_object (cs : List Char) : readValue (depth + 1) ('\x7b' :: cs) =
    (readList (readMember (readValue depth)) '\x7d' cs).map fun (members, cs) =>
      (object members, cs) := rfl

/-- An array is read if all its items are. -/
theorem ReadsAll.array {items : List Json} (h : ReadsAll (readValue depth) texts sound items)
    (frame : IsFrame ']' lead gap trail) : Reads (readValue (depth + 1))
      ('[' :: (lead ++ ((',' :: gap).intercalate texts ++ (trail ++ [']'])))) sound
      (.array items) where
  opens := ⟨'[', _, rfl, by decide, by decide⟩
  reads rest _ := by
    have inside := readList_of_readsAll h frame rest
    simp only [List.cons_append, List.append_assoc, List.nil_append, readValue_array, inside]
    cases sound <;> rfl

/-- An object is read if all its members are. -/
theorem ReadsAll.object {members : List (List Char × Json)}
    (h : ReadsAll (readMember (readValue depth)) texts sound members)
    (frame : IsFrame '\x7d' lead gap trail) : Reads (readValue (depth + 1))
      ('\x7b' :: (lead ++ ((',' :: gap).intercalate texts ++ (trail ++ ['\x7d'])))) sound
      (.object members) where
  opens := ⟨'\x7b', _, rfl, by decide, by decide⟩
  reads rest _ := by
    have inside := readList_of_readsAll h frame rest
    simp only [List.cons_append, List.append_assoc, List.nil_append, readValue_object, inside]
    cases sound <;> rfl

/-! ## Strings -/

theorem hexValue?_hexDigit {d : Nat} (h : d < 16) : hexValue? (hexDigit d) = some d := by
  revert d
  decide

theorem hexDigits_four (n : Nat) : hexDigits 4 n =
    [hexDigit (n / 16 / 16 / 16 % 16), hexDigit (n / 16 / 16 % 16), hexDigit (n / 16 % 16),
      hexDigit (n % 16)] := rfl

theorem readUnit_hexDigits {n : Nat} (h : n < 0x10000) (rest : List Char) :
    readUnit (hexDigits 4 n ++ rest) = some (n, rest) := by
  have digit (n : Nat) := hexValue?_hexDigit (Nat.mod_lt n (show 0 < 16 by decide))
  simp only [hexDigits_four, List.cons_append, List.nil_append, readUnit, digit]
  simp only [Option.bind_eq_bind, Option.bind_some, Option.some.injEq, Prod.mk.injEq, and_true]
  omega

/-- A character is read as it is escaped. -/
theorem readContent_escapeChar (count : Nat) (c : Char) (cs : List Char) :
    readContent (count + 1) (escapeChar c ++ cs) =
      (readContent count cs).map fun (ds, cs) => (c :: ds, cs) := by
  have escaped (front : List Char) (h : readEscape (front ++ cs) = some (c, cs)) :
      readContent (count + 1) ('\\' :: (front ++ cs)) =
        (readContent count cs).map fun (ds, cs) => (c :: ds, cs) := by
    rw [readContent, if_neg (by decide), if_pos rfl, h]
    simp only [Option.bind_eq_bind, Option.bind_some]
    cases readContent count cs <;> rfl
  unfold escapeChar
  split_ifs with quote backslash feed carriage tab control
  · subst quote
    exact escaped ['"'] rfl
  · subst backslash
    exact escaped ['\\'] rfl
  · subst feed
    exact escaped ['n'] rfl
  · subst carriage
    exact escaped ['r'] rfl
  · subst tab
    exact escaped ['t'] rfl
  · refine escaped ('u' :: hexDigits 4 c.toNat) ?_
    have small : c.toNat < 0x10000 := by omega
    have scalar : c.toNat < 0xD800 := by omega
    simp [readEscape, readCode, readUnit_hexDigits small, scalar]
  · rw [List.singleton_append, readContent, if_neg quote, if_neg backslash, if_neg control]
    cases readContent count cs <;> rfl

/-- A text is read as it is escaped. -/
theorem readContent_escape {content : List Char} {count : Nat} (enough : content.length < count)
    (rest : List Char) : readContent count (content.flatMap escapeChar ++ '"' :: rest) =
      some (content, rest) := by
  induction content generalizing count with
  | nil =>
    obtain ⟨count, rfl⟩ : ∃ k, count = k + 1 := ⟨count - 1, by simp at enough; omega⟩
    rfl
  | cons c content ih =>
    obtain ⟨count, rfl⟩ : ∃ k, count = k + 1 := ⟨count - 1, by simp at enough; omega⟩
    rw [List.flatMap_cons, List.append_assoc, readContent_escapeChar,
      ih (Nat.lt_of_succ_lt_succ enough)]
    rfl

theorem length_le_flatMap_escapeChar (content : List Char) :
    content.length ≤ (content.flatMap escapeChar).length := by
  induction content with
  | nil => exact Nat.zero_le _
  | cons c content ih =>
    have here : 1 ≤ (escapeChar c).length := by
      unfold escapeChar
      split_ifs <;> simp
    rw [List.flatMap_cons, List.length_append, List.length_cons]
    omega

theorem readString_escape (content rest : List Char) :
    readString (content.flatMap escapeChar ++ '"' :: rest) = some (content, rest) := by
  refine readContent_escape ?_ rest
  have := length_le_flatMap_escapeChar content
  simp only [List.length_append, List.length_cons]
  omega

theorem reads_string (content : List Char) : Reads (readValue (depth + 1))
    ('"' :: (content.flatMap escapeChar ++ ['"'])) true (.string content) where
  opens := ⟨'"', _, rfl, by decide, by decide⟩
  reads rest _ := by
    simp only [List.cons_append, List.append_assoc, List.nil_append, readValue_string,
      readString_escape]
    rfl

/-- A member of an object is read if its value is. -/
theorem Reads.member {text : List Char} {value : Json}
    (h : Reads (readValue depth) text sound value) {name : List Char}
    (plain : name.flatMap escapeChar = name) : Reads (readMember (readValue depth))
      ('"' :: (name ++ '"' :: ':' :: ' ' :: text)) sound (name, value) where
  opens := ⟨'"', _, rfl, by decide, by decide⟩
  reads rest boundary := by
    have spelled := readString_escape name (':' :: ' ' :: (text ++ rest))
    rw [plain] at spelled
    have colon : ¬ isSpace ':' := by decide
    have space : ∀ c ∈ [' '], isSpace c := by simp [isSpace]
    have gap := h.skip_append space rest
    simp only [List.cons_append, List.append_assoc, readMember, expect, if_true,
      Option.bind_eq_bind, Option.bind_some, spelled, skip_cons colon]
    rw [show ' ' :: (text ++ rest) = [' '] ++ (text ++ rest) from rfl, gap, h.reads rest boundary]
    cases sound <;> rfl

/-! ## Words -/

theorem reads_word {word : String} {value : Json} (h : (word, value) ∈ words) :
    Reads (readValue (depth + 1)) word.toList true value := by
  simp only [words, List.mem_cons, Prod.mk.injEq, List.not_mem_nil, or_false] at h
  rcases h with ⟨rfl, rfl⟩ | ⟨rfl, rfl⟩ | ⟨rfl, rfl⟩
  · exact ⟨⟨'n', _, rfl, by decide, by decide⟩, fun rest _ => rfl⟩
  · exact ⟨⟨'t', _, rfl, by decide, by decide⟩, fun rest _ => rfl⟩
  · exact ⟨⟨'f', _, rfl, by decide, by decide⟩, fun rest _ => rfl⟩

theorem reads_null : Reads (readValue (depth + 1)) "null".toList true .null :=
  reads_word (by simp [words])

theorem reads_true : Reads (readValue (depth + 1)) "true".toList true (.bool true) :=
  reads_word (by simp [words])

theorem reads_false : Reads (readValue (depth + 1)) "false".toList true (.bool false) :=
  reads_word (by simp [words])

end Values

/-- A text that is one value and spaces behind it is parsed as that value. -/
theorem parse_of_reads (levels : Nat) {text : String} {front tail : List Char} {sound : Bool}
    {value : Json} (whole : text.toList = front ++ tail) (spaces : ∀ c ∈ tail, isSpace c)
    (enough : levels ≤ front.length)
    (h : ∀ depth, Reads (readValue (depth + levels)) front sound value) :
    parse text = if sound then some value else none := by
  have boundary : IsBoundary tail := fun c hc => .inl (spaces c (List.mem_of_mem_head? hc))
  have behind : skip tail = [] := by simpa [skip] using spaces
  have reads := h (text.toList.length - levels)
  rw [Nat.sub_add_cancel (by rw [whole, List.length_append]; omega)] at reads
  have start : skip text.toList = front ++ tail := by
    rw [whole]
    exact reads.skip_append (List.forall_mem_nil _) tail
  rw [parse, start, reads.reads tail boundary]
  cases sound <;> simp [behind]

end Json

end RailRoute

/-
JSON texts, as Go's `encoding/json` writes and reads them.

A string literal is kept as it stands between its quotes, a list of pieces, and a number as its
digits. `quote` is the literal of a string: besides what must be escaped it escapes `<`, `>`,
`&` and the two line separators. `unquote` is the string of a literal, and gives the string back
(`unquote_quote`). Every value is read as it was written (`takeValue_text`, `decode_text`).

There is no limit on how deep values are nested.

Both directions work on lists of characters. A reader takes the front of its input and
returns what is behind it, so a text inside another is read with the rest of the outer one
behind it, and the lemmas are stated with any such rest. A number is the one case in which
the rest matters: it ends where no character of a number follows (`EndsNumber`). The readers
count down a fuel that the length of the input bounds, for a value may contain others.

What a character becomes in a literal is a `Piece`: itself, a letter behind a backslash, or
four hexadecimal digits, two of these for a character outside of the basic plane. The text
of a piece determines the piece, and the piece the character (`Piece.ofChar_spec`), so the
literal of a string has that string again. A surrogate without its other half, which no
string gives rise to, is read as the replacement character, as Go does.

Objects keep their members in the order of the text, with repetitions. Which of them a
decoder heeds is a matter of the type that is decoded, and not settled here.
-/
import Mathlib.Data.List.TakeWhile
import Mathlib.Data.Nat.Notation
import Mathlib.Tactic.ByContra
import Mathlib.Tactic.SplitIfs
import Mathlib.Tactic.Tauto

set_option autoImplicit false

namespace Web.Json

/-! ## The pieces of a literal -/

/-- The letters that may follow a backslash, apart from `u`, behind which four digits come.
Each stands for one character, and the eight characters are different. -/
inductive Escape where
  | quote
  | backslash
  | slash
  | b
  | f
  | n
  | r
  | t
  deriving DecidableEq, Repr

namespace Escape

def letter : Escape → Char
  | quote => '"'
  | backslash => '\\'
  | slash => '/'
  | b => 'b'
  | f => 'f'
  | n => 'n'
  | r => 'r'
  | t => 't'

/-- The character that is meant. -/
def char : Escape → Char
  | quote => '"'
  | backslash => '\\'
  | slash => '/'
  | b => '\x08'
  | f => '\x0c'
  | n => '\n'
  | r => '\r'
  | t => '\t'

def ofLetter (c : Char) : Option Escape :=
  [quote, backslash, slash, b, f, n, r, t].find? fun e => e.letter = c

theorem ofLetter_letter (e : Escape) : ofLetter e.letter = some e := by
  cases e <;> decide

theorem letter_ne_u (e : Escape) : e.letter ≠ 'u' := by
  cases e <;> decide

end Escape

/-- One piece of a literal: a character that stands for itself, a letter behind a backslash,
or a code in four hexadecimal digits. A control character, a quote and a backslash cannot
stand for themselves, and the type says so. -/
inductive Piece where
  | plain (c : Char) (h : c ≠ '"' ∧ c ≠ '\\' ∧ 32 ≤ c.toNat)
  | escape (e : Escape)
  | unicode (code : Fin 65536)
  deriving DecidableEq

/-- What stands between two quotes, piece by piece. Two literals may have the same string,
so a text is kept as its literal and its string is computed from it. -/
abbrev Literal : Type := List Piece

def hexDigit (n : ℕ) : Char := n.digitChar

/-- The value of a hexadecimal digit, in either case; none for any other character. -/
def hexValue (c : Char) : Option (Fin 16) :=
  (List.finRange 16).find? fun n => hexDigit n = c ∨ (hexDigit n).toUpper = c

theorem hexValue_hexDigit (n : Fin 16) : hexValue (hexDigit n) = some n := by
  revert n
  decide

/-- Four hexadecimal digits at the front of a text, and the rest. The bound on the code
comes from the bounds on the digits. -/
def takeHex : List Char → Option (Fin 65536 × List Char)
  | c₁ :: c₂ :: c₃ :: c₄ :: s => do
    let d₁ ← hexValue c₁
    let d₂ ← hexValue c₂
    let d₃ ← hexValue c₃
    let d₄ ← hexValue c₄
    some (⟨d₁ * 4096 + d₂ * 256 + d₃ * 16 + d₄, by omega⟩, s)
  | _ => none

/-- A code in four digits, with zeros in front where it is short, the letters being small
ones. -/
def hexText (code : Fin 65536) : List Char :=
  [hexDigit (code / 4096), hexDigit (code / 256 % 16), hexDigit (code / 16 % 16),
    hexDigit (code % 16)]

theorem hexValue_of_lt {n : ℕ} (h : n < 16) : hexValue (hexDigit n) = some ⟨n, h⟩ :=
  hexValue_hexDigit ⟨n, h⟩

theorem takeHex_text (code : Fin 65536) (rest : List Char) :
    takeHex (hexText code ++ rest) = some (code, rest) := by
  have hcode := code.isLt
  have h₁ : (code : ℕ) / 4096 < 16 := by omega
  have h₂ : (code : ℕ) / 256 % 16 < 16 := by omega
  have h₃ : (code : ℕ) / 16 % 16 < 16 := by omega
  have h₄ : (code : ℕ) % 16 < 16 := by omega
  simp only [hexText, List.cons_append, List.nil_append, takeHex, hexValue_of_lt h₁,
    hexValue_of_lt h₂, hexValue_of_lt h₃, hexValue_of_lt h₄, Option.bind_eq_bind, Option.bind_some,
    Option.some.injEq, Prod.mk.injEq, and_true, Fin.ext_iff]
  omega

namespace Piece

def text : Piece → List Char
  | plain c _ => [c]
  | escape e => ['\\', e.letter]
  | unicode code => '\\' :: 'u' :: hexText code

/-- Behind a backslash. -/
def takeEscaped : List Char → Option (Piece × List Char)
  | [] => none
  | c :: s =>
    if c = 'u' then (takeHex s).map fun (code, s) => (unicode code, s)
    else (Escape.ofLetter c).map fun e => (escape e, s)

def take : List Char → Option (Piece × List Char)
  | [] => none
  | c :: s =>
    if c = '\\' then takeEscaped s
    else if h : c ≠ '"' ∧ c ≠ '\\' ∧ 32 ≤ c.toNat then some (plain c h, s)
    else none

theorem take_text (p : Piece) (rest : List Char) : take (p.text ++ rest) = some (p, rest) := by
  cases p with
  | plain c h =>
      rw [text, List.cons_append, List.nil_append, take, if_neg h.2.1, dif_pos h]
  | escape e =>
      simp only [text, List.cons_append, List.nil_append, take, if_true, takeEscaped]
      rw [if_neg e.letter_ne_u, e.ofLetter_letter, Option.map_some]
  | unicode code =>
      simp only [text, List.cons_append, take, if_true, takeEscaped, takeHex_text, Option.map_some]

theorem text_ne_nil (p : Piece) : p.text ≠ [] := by
  cases p <;> simp [text]

theorem head_text (p : Piece) : p.text.head? ≠ some '"' := by
  cases p with
  | plain c h => simpa [text] using h.1
  | escape e => simp [text]
  | unicode code => simp [text]

end Piece

/-- The pieces up to the closing quote, which is at most `n` characters away; none if there
is no such quote. Every piece takes at least one character, so the length of the text is
enough for `n`. -/
def takePieces : ℕ → List Char → Option (Literal × List Char)
  | 0, _ => none
  | n + 1, s =>
    if s.head? = some '"' then some ([], s.tail)
    else do
      let (p, s) ← Piece.take s
      let (ps, s) ← takePieces n s
      some (p :: ps, s)

/-- What stands behind an opening quote, and the text behind the closing one. -/
def takeLiteral (s : List Char) : Option (Literal × List Char) := takePieces s.length s

def Literal.text (lit : Literal) : List Char := lit.flatMap Piece.text

/-- The pieces of a literal are read as they were written, up to the quote behind them. The
induction is on the literal: no piece starts with a quote, and each leaves the text of the
next. -/
theorem takePieces_text (lit : Literal) (rest : List Char) {n : ℕ}
    (h : (Literal.text lit).length < n) :
    takePieces n (Literal.text lit ++ '"' :: rest) = some (lit, rest) := by
  induction lit generalizing n with
  | nil =>
      obtain ⟨n, rfl⟩ : ∃ k, n = k + 1 := ⟨n - 1, by omega⟩
      rfl
  | cons p lit ih =>
      have hpos := List.length_pos_iff.mpr p.text_ne_nil
      rw [Literal.text, List.flatMap_cons, List.length_append] at h
      obtain ⟨n, rfl⟩ : ∃ k, n = k + 1 := ⟨n - 1, by omega⟩
      have hlength : (Literal.text lit).length < n := by
        unfold Literal.text
        omega
      have hhead : (p.text ++ (Literal.text lit ++ '"' :: rest)).head? ≠ some '"' := by
        have hquote := p.head_text
        obtain ⟨c, cs, hcs⟩ := List.exists_cons_of_ne_nil p.text_ne_nil
        rw [hcs] at hquote ⊢
        exact hquote
      rw [Literal.text, List.flatMap_cons, List.append_assoc, ← Literal.text, takePieces,
        if_neg hhead, Piece.take_text]
      simp only [Option.bind_eq_bind, Option.bind_some, ih hlength]

theorem takeLiteral_text (lit : Literal) (rest : List Char) :
    takeLiteral (Literal.text lit ++ '"' :: rest) = some (lit, rest) := by
  apply takePieces_text
  rw [List.length_append, List.length_cons]
  omega

/-! ## The string of a literal -/

/-- `utf16.IsSurrogate`. -/
def IsSurrogate (code : ℕ) : Prop := 0xD800 ≤ code ∧ code < 0xE000

instance (code : ℕ) : Decidable (IsSurrogate code) := inferInstanceAs (Decidable (_ ∧ _))

/-- The character of a code on its own. Half of a surrogate pair is none, and gives the
replacement character. -/
def codeChar (code : ℕ) : Char := if IsSurrogate code then '\uFFFD' else Char.ofNat code

def Piece.char : Piece → Char
  | plain c _ => c
  | escape e => e.char
  | unicode code => codeChar code

def unquote : Literal → List Char
  | [] => []
  | .unicode high :: .unicode low :: lit =>
    if (0xD800 ≤ (high : ℕ) ∧ (high : ℕ) < 0xDC00) ∧ 0xDC00 ≤ (low : ℕ) ∧ (low : ℕ) < 0xE000 then
      Char.ofNat (0x10000 + (high - 0xD800) * 0x400 + (low - 0xDC00)) :: unquote lit
    else codeChar high :: unquote (.unicode low :: lit)
  | p :: lit => p.char :: unquote lit

/-- A piece of a character that needs no partner. -/
def Piece.Single : Piece → Prop
  | unicode code => ¬ IsSurrogate code
  | _ => True

theorem unquote_cons {p : Piece} (h : p.Single) (lit : Literal) :
    unquote (p :: lit) = p.char :: unquote lit := by
  cases p with
  | plain c hc => rw [unquote]; rintro _ _ _ ⟨⟩
  | escape e => rw [unquote]; rintro _ _ _ ⟨⟩
  | unicode code =>
      cases lit with
      | nil => rfl
      | cons q lit =>
          cases q with
          | plain c hc => rfl
          | escape e => rfl
          | unicode low =>
              have hno : ¬ ((0xD800 ≤ (code : ℕ) ∧ (code : ℕ) < 0xDC00) ∧ 0xDC00 ≤ (low : ℕ) ∧
                  (low : ℕ) < 0xE000) := by
                intro hpair
                apply h
                exact ⟨hpair.1.1, by omega⟩
              rw [unquote, if_neg hno]
              rfl

/-- The piece that a character is written as. -/
def Piece.ofChar (c : Char) : Piece :=
  if h : c ≠ '"' ∧ c ≠ '\\' ∧ 32 ≤ c.toNat then
    if c ∈ ['<', '>', '&', '\u2028', '\u2029'] then .unicode (Fin.ofNat 65536 c.toNat)
    else .plain c h
  else if c = '"' then .escape .quote
  else if c = '\\' then .escape .backslash
  else if c = '\x08' then .escape .b
  else if c = '\x0c' then .escape .f
  else if c = '\n' then .escape .n
  else if c = '\r' then .escape .r
  else if c = '\t' then .escape .t
  else .unicode (Fin.ofNat 65536 c.toNat)

def quote (s : List Char) : Literal := s.map Piece.ofChar

/-- No character is half of a pair. -/
theorem not_isSurrogate_toNat (c : Char) : ¬ IsSurrogate c.toNat := by
  have hvalid : c.toNat < 0xD800 ∨ (0xDFFF < c.toNat ∧ c.toNat < 0x110000) := c.valid
  unfold IsSurrogate
  omega

theorem Piece.unicode_spec {c : Char} (h : c.toNat < 65536) :
    (unicode (Fin.ofNat 65536 c.toNat)).Single ∧ (unicode (Fin.ofNat 65536 c.toNat)).char = c := by
  have hcode : (Fin.ofNat 65536 c.toNat : ℕ) = c.toNat := Nat.mod_eq_of_lt h
  unfold Single char codeChar
  dsimp only
  rw [hcode, if_neg (not_isSurrogate_toNat c), Char.ofNat_toNat]
  exact ⟨not_isSurrogate_toNat c, rfl⟩

theorem Piece.ofChar_spec (c : Char) : (ofChar c).Single ∧ (ofChar c).char = c := by
  unfold ofChar
  split_ifs with hplain hspecial hquote hbackslash hb hf hn hr ht
  · apply unicode_spec
    simp only [List.mem_cons, List.not_mem_nil, or_false] at hspecial
    rcases hspecial with rfl | rfl | rfl | rfl | rfl <;> decide
  · exact ⟨trivial, rfl⟩
  · exact ⟨trivial, hquote.symm⟩
  · exact ⟨trivial, hbackslash.symm⟩
  · exact ⟨trivial, hb.symm⟩
  · exact ⟨trivial, hf.symm⟩
  · exact ⟨trivial, hn.symm⟩
  · exact ⟨trivial, hr.symm⟩
  · exact ⟨trivial, ht.symm⟩
  · apply unicode_spec
    -- a control character
    by_contra hlarge
    exact hplain ⟨hquote, hbackslash, by omega⟩

/-- **A string is read as it was written.** -/
theorem unquote_quote (s : List Char) : unquote (quote s) = s := by
  induction s with
  | nil => rfl
  | cons c s ih =>
      rw [quote, List.map_cons, unquote_cons (Piece.ofChar_spec c).1, (Piece.ofChar_spec c).2,
        ← quote, ih]

/-- The characters that are written as they are. -/
def IsSafe (c : Char) : Prop :=
  (c ≠ '"' ∧ c ≠ '\\' ∧ 32 ≤ c.toNat) ∧ c ∉ ['<', '>', '&', '\u2028', '\u2029']

instance (c : Char) : Decidable (IsSafe c) := inferInstanceAs (Decidable (_ ∧ _))

theorem Literal.text_quote {s : List Char} (h : ∀ c ∈ s, IsSafe c) :
    Literal.text (quote s) = s := by
  induction s with
  | nil => rfl
  | cons c s ih =>
      obtain ⟨hplain, hspecial⟩ := h c List.mem_cons_self
      have hpiece : Piece.ofChar c = .plain c hplain := by
        unfold Piece.ofChar
        rw [dif_pos hplain, if_neg hspecial]
      rw [quote, List.map_cons, Literal.text, List.flatMap_cons, hpiece, ← quote, ← Literal.text,
        ih fun d hd => h d (List.mem_cons_of_mem c hd)]
      rfl

/-! ## Numbers -/

def IsNumberChar (c : Char) : Bool := c.isDigit || c ∈ ['-', '+', '.', 'e', 'E']

/-- At least one digit, and then `next`. -/
def digitsThen (next : List Char → Bool) (s : List Char) : Bool :=
  s.head?.any Char.isDigit && next (s.dropWhile Char.isDigit)

def isExponent : List Char → Bool
  | [] => true
  | c :: s =>
    (c = 'e' || c = 'E') &&
      digitsThen List.isEmpty (if s.head? = some '+' ∨ s.head? = some '-' then s.tail else s)

def isFraction (s : List Char) : Bool :=
  if s.head? = some '.' then digitsThen isExponent s.tail else isExponent s

/-- No zero before another digit. -/
def isUnsigned (s : List Char) : Bool :=
  if s.head? = some '0' then isFraction s.tail else digitsThen isFraction s

def isNumber (s : List Char) : Bool := isUnsigned (if s.head? = some '-' then s.tail else s)

/-- The text of a number. -/
structure Number where
  text : List Char
  number : isNumber text
  chars : ∀ c ∈ text, IsNumberChar c
  deriving DecidableEq

/-- What no number goes on with. -/
def EndsNumber (s : List Char) : Prop := ∀ c ∈ s.head?, ¬ IsNumberChar c

namespace Number

/-- The number at the front, as far as it goes. -/
def take (s : List Char) : Option (Number × List Char) :=
  if h : isNumber (s.takeWhile IsNumberChar) then
    some (⟨s.takeWhile IsNumberChar, h, fun _ hc => List.mem_takeWhile_imp hc⟩,
      s.dropWhile IsNumberChar)
  else none

theorem take_text (n : Number) {rest : List Char} (h : EndsNumber rest) :
    take (n.text ++ rest) = some (n, rest) := by
  have htake : rest.takeWhile IsNumberChar = [] := by
    cases rest with
    | nil => rfl
    | cons c rest => exact List.takeWhile_cons_of_neg (h c rfl)
  have hdrop : rest.dropWhile IsNumberChar = rest := by
    cases rest with
    | nil => rfl
    | cons c rest => exact List.dropWhile_cons_of_neg (h c rfl)
  have hfront : (n.text ++ rest).takeWhile IsNumberChar = n.text := by
    rw [List.takeWhile_append_of_pos n.chars, htake, List.append_nil]
  have hback : (n.text ++ rest).dropWhile IsNumberChar = rest := by
    rw [List.dropWhile_append_of_pos n.chars, hdrop]
  have hnumber : isNumber ((n.text ++ rest).takeWhile IsNumberChar) := by
    rw [hfront]
    exact n.number
  unfold take
  rw [dif_pos hnumber]
  simp only [hfront, hback]

/-- A number is not empty, and does not start as other values do. -/
theorem head_text (n : Number) :
    ∃ c s, n.text = c :: s ∧
      c ∉ [' ', '\t', '\r', '\n', '"', '[', ']', '\x7b', 'n', 't', 'f'] := by
  obtain ⟨text, hnumber, hchars⟩ := n
  cases text with
  | nil => exact absurd hnumber (by decide)
  | cons c s =>
      refine ⟨c, s, rfl, ?_⟩
      have hc := hchars c List.mem_cons_self
      intro hmem
      simp only [List.mem_cons, List.not_mem_nil, or_false] at hmem
      rcases hmem with rfl | rfl | rfl | rfl | rfl | rfl | rfl | rfl | rfl | rfl | rfl <;>
        exact absurd hc (by decide)

end Number

/-! ## Values -/

inductive Value where
  | null
  | bool (b : Bool)
  | number (n : Number)
  | string (lit : Literal)
  | array (items : List Value)
  | object (members : List (Literal × Value))

/-- A literal in its quotes. -/
def Literal.quoted (lit : Literal) : List Char := '"' :: (Literal.text lit ++ ['"'])

mutual

/-- The text of a value, without any blanks. -/
def Value.text : Value → List Char
  | .null => ['n', 'u', 'l', 'l']
  | .bool true => ['t', 'r', 'u', 'e']
  | .bool false => ['f', 'a', 'l', 's', 'e']
  | .number n => n.text
  | .string lit => Literal.quoted lit
  | .array items => '[' :: (itemsText items ++ [']'])
  | .object members => '\x7b' :: (membersText members ++ ['\x7d'])
termination_by structural v => v

def itemsText : List Value → List Char
  | [] => []
  | v :: vs => v.text ++ if vs.isEmpty then [] else ',' :: itemsText vs
termination_by structural vs => vs

def membersText : List (Literal × Value) → List Char
  | [] => []
  | m :: ms => memberText m ++ if ms.isEmpty then [] else ',' :: membersText ms
termination_by structural ms => ms

def memberText : Literal × Value → List Char
  | (key, v) => Literal.quoted key ++ ':' :: v.text
termination_by structural m => m

end

def IsSpace (c : Char) : Bool := c ∈ [' ', '\t', '\r', '\n']

def skipSpace (s : List Char) : List Char := s.dropWhile IsSpace

/-- The rest after a word. -/
def takeWord (word s : List Char) : Option (List Char) :=
  if s.take word.length = word then some (s.drop word.length) else none

mutual

/-- The value at the front, `n` being more than the number of its characters. -/
def takeValue : ℕ → List Char → Option (Value × List Char)
  | 0, _ => none
  | n + 1, s =>
    match skipSpace s with
    | [] => none
    | c :: s =>
      if c = '"' then (takeLiteral s).map fun (lit, s) => (.string lit, s)
      else if c = '[' then
        if (skipSpace s).head? = some ']' then some (.array [], (skipSpace s).tail)
        else (takeItems n s).map fun (vs, s) => (.array vs, s)
      else if c = '\x7b' then
        if (skipSpace s).head? = some '\x7d' then some (.object [], (skipSpace s).tail)
        else (takeMembers n s).map fun (ms, s) => (.object ms, s)
      else if c = 'n' then (takeWord ['u', 'l', 'l'] s).map fun s => (.null, s)
      else if c = 't' then (takeWord ['r', 'u', 'e'] s).map fun s => (.bool true, s)
      else if c = 'f' then (takeWord ['a', 'l', 's', 'e'] s).map fun s => (.bool false, s)
      else (Number.take (c :: s)).map fun (number, s) => (.number number, s)

/-- The items up to the closing bracket. -/
def takeItems : ℕ → List Char → Option (List Value × List Char)
  | 0, _ => none
  | n + 1, s => do
    let (v, s) ← takeValue n s
    match skipSpace s with
    | [] => none
    | c :: s =>
      if c = ',' then (takeItems n s).map fun (vs, s) => (v :: vs, s)
      else if c = ']' then some ([v], s)
      else none

/-- A key, a colon and a value. -/
def takeMember : ℕ → List Char → Option ((Literal × Value) × List Char)
  | 0, _ => none
  | n + 1, s => do
    let s ← takeWord ['"'] (skipSpace s)
    let (key, s) ← takeLiteral s
    let s ← takeWord [':'] (skipSpace s)
    let (v, s) ← takeValue n s
    some ((key, v), s)

/-- The members up to the closing brace. -/
def takeMembers : ℕ → List Char → Option (List (Literal × Value) × List Char)
  | 0, _ => none
  | n + 1, s => do
    let (m, s) ← takeMember n s
    match skipSpace s with
    | [] => none
    | c :: s =>
      if c = ',' then (takeMembers n s).map fun (ms, s) => (m :: ms, s)
      else if c = '\x7d' then some ([m], s)
      else none

end

/-- The value of a whole text. -/
def decode (s : List Char) : Option Value := do
  let (v, s) ← takeValue (s.length + 1) s
  if skipSpace s = [] then some v else none

theorem skipSpace_cons {c : Char} (h : ¬ IsSpace c) (s : List Char) :
    skipSpace (c :: s) = c :: s := List.dropWhile_cons_of_neg h

theorem takeWord_append (word s : List Char) : takeWord word (word ++ s) = some s := by
  unfold takeWord
  rw [List.take_left, if_pos rfl, List.drop_left]

theorem takeWord_single (c : Char) (s : List Char) : takeWord [c] (c :: s) = some s :=
  takeWord_append [c] s

/-- Every value is read as it was written, by a reader that may go on for `n` calls. -/
structure Reads (n : ℕ) : Prop where
  value : ∀ v rest, v.text.length < n → EndsNumber rest →
    takeValue n (v.text ++ rest) = some (v, rest)
  items : ∀ vs rest, vs ≠ [] → (itemsText vs).length + 1 < n →
    takeItems n (itemsText vs ++ ']' :: rest) = some (vs, rest)
  member : ∀ m rest, (memberText m).length < n → EndsNumber rest →
    takeMember n (memberText m ++ rest) = some (m, rest)
  members : ∀ ms rest, ms ≠ [] → (membersText ms).length + 1 < n →
    takeMembers n (membersText ms ++ '\x7d' :: rest) = some (ms, rest)

theorem endsNumber_cons {c : Char} (h : ¬ IsNumberChar c) (s : List Char) :
    EndsNumber (c :: s) := by
  intro d hd
  rw [List.head?_cons, Option.mem_some] at hd
  rwa [← hd]

/-- A value starts neither with a blank nor as a list ends. -/
theorem Value.head_text (v : Value) : ∃ c s, v.text = c :: s ∧ ¬ IsSpace c ∧ c ≠ ']' := by
  cases v with
  | null => exact ⟨_, _, rfl, by decide, by decide⟩
  | bool b => cases b <;> exact ⟨_, _, rfl, by decide, by decide⟩
  | number n =>
      obtain ⟨c, s, htext, hc⟩ := n.head_text
      refine ⟨c, s, htext, ?_, ?_⟩
      · intro hspace
        apply hc
        simp only [IsSpace, List.mem_cons, List.not_mem_nil, or_false, decide_eq_true_eq] at hspace
        simp only [List.mem_cons]
        tauto
      · rintro rfl
        exact hc (by decide)
  | string lit => exact ⟨_, _, rfl, by decide, by decide⟩
  | array items => exact ⟨_, _, rfl, by decide, by decide⟩
  | object members => exact ⟨_, _, rfl, by decide, by decide⟩

theorem skipSpace_text (v : Value) (rest : List Char) :
    skipSpace (v.text ++ rest) = v.text ++ rest := by
  obtain ⟨c, s, htext, hspace, -⟩ := v.head_text
  rw [htext]
  exact skipSpace_cons hspace _

theorem skipSpace_member (m : Literal × Value) (rest : List Char) :
    skipSpace (memberText m ++ rest) = memberText m ++ rest := by
  obtain ⟨key, v⟩ := m
  rw [memberText, Literal.quoted]
  exact skipSpace_cons (by decide) _

theorem quoted_append (lit : Literal) (rest : List Char) :
    Literal.quoted lit ++ rest = '"' :: (Literal.text lit ++ '"' :: rest) := by
  simp [Literal.quoted]

theorem Reads.value_succ {n : ℕ} (h : Reads n) (v : Value) (rest : List Char)
    (hn : v.text.length < n + 1) (hrest : EndsNumber rest) :
    takeValue (n + 1) (v.text ++ rest) = some (v, rest) := by
  rw [takeValue, skipSpace_text]
  cases v with
  | null => rfl
  | bool b => cases b <;> rfl
  | number number =>
      have htake := number.take_text hrest
      -- a number starts as nothing else does
      obtain ⟨c, s, htext, hc⟩ := number.head_text
      simp only [List.mem_cons, not_or] at hc
      obtain ⟨-, -, -, -, hquote, hbracket, -, hbrace, hnull, htrue, hfalse, -⟩ := hc
      rw [htext] at htake
      rw [Value.text, htext]
      dsimp only [List.cons_append] at htake ⊢
      rw [if_neg hquote, if_neg hbracket, if_neg hbrace, if_neg hnull, if_neg htrue,
        if_neg hfalse, htake, Option.map_some]
  | string lit =>
      rw [Value.text, quoted_append]
      dsimp only
      rw [if_pos rfl, takeLiteral_text, Option.map_some]
  | array items =>
      rw [Value.text, List.cons_append, List.append_assoc, List.singleton_append]
      dsimp only
      rw [if_neg (by decide), if_pos rfl]
      cases items with
      | nil => rfl
      | cons v vs =>
          have hlength : (itemsText (v :: vs)).length + 1 < n := by
            rw [Value.text, List.length_cons, List.length_append, List.length_singleton] at hn
            omega
          -- an item does not look like the end of the array
          have hhead : (skipSpace (itemsText (v :: vs) ++ ']' :: rest)).head? ≠ some ']' := by
            obtain ⟨c, s, htext, -, hc⟩ := v.head_text
            rw [itemsText, List.append_assoc, skipSpace_text, htext]
            simpa using hc
          rw [if_neg hhead, h.items _ _ (by simp) hlength, Option.map_some]
  | object members =>
      rw [Value.text, List.cons_append, List.append_assoc, List.singleton_append]
      dsimp only
      rw [if_neg (by decide), if_neg (by decide), if_pos rfl]
      cases members with
      | nil => rfl
      | cons m ms =>
          have hlength : (membersText (m :: ms)).length + 1 < n := by
            rw [Value.text, List.length_cons, List.length_append, List.length_singleton] at hn
            omega
          -- nor does a member look like that of the object
          have hhead : (skipSpace (membersText (m :: ms) ++ '\x7d' :: rest)).head? ≠
              some '\x7d' := by
            rw [membersText, List.append_assoc, skipSpace_member, memberText, Literal.quoted]
            simp
          rw [if_neg hhead, h.members _ _ (by simp) hlength, Option.map_some]

theorem Reads.items_succ {n : ℕ} (h : Reads n) (vs : List Value) (rest : List Char)
    (hne : vs ≠ []) (hn : (itemsText vs).length + 1 < n + 1) :
    takeItems (n + 1) (itemsText vs ++ ']' :: rest) = some (vs, rest) := by
  obtain ⟨v, vs, rfl⟩ := List.exists_cons_of_ne_nil hne
  cases vs with
  | nil =>
      have hv := h.value v (']' :: rest) (by simpa [itemsText] using hn)
        (endsNumber_cons (by decide) _)
      rw [itemsText, List.isEmpty_nil, if_pos rfl, List.append_nil, takeItems, hv]
      rfl
  | cons v' vs =>
      rw [itemsText, List.isEmpty_cons, if_neg (by decide), List.length_append,
        List.length_cons] at hn
      have hv := h.value v (',' :: (itemsText (v' :: vs) ++ ']' :: rest)) (by omega)
        (endsNumber_cons (by decide) _)
      have hvs := h.items (v' :: vs) rest (by simp) (by omega)
      rw [itemsText, List.isEmpty_cons, if_neg (by decide), List.append_assoc, List.cons_append,
        takeItems, hv]
      simp only [Option.bind_eq_bind, Option.bind_some, skipSpace_cons (by decide : ¬ IsSpace ','),
        if_true, hvs, Option.map_some]

theorem Reads.member_succ {n : ℕ} (h : Reads n) (m : Literal × Value) (rest : List Char)
    (hn : (memberText m).length < n + 1) (hrest : EndsNumber rest) :
    takeMember (n + 1) (memberText m ++ rest) = some (m, rest) := by
  obtain ⟨key, v⟩ := m
  have hv : v.text.length < n := by
    rw [memberText, List.length_append, List.length_cons] at hn
    omega
  rw [takeMember, skipSpace_member, memberText, List.append_assoc, quoted_append,
    takeWord_single]
  simp only [Option.bind_eq_bind, Option.bind_some, takeLiteral_text, List.cons_append,
    skipSpace_cons (by decide : ¬ IsSpace ':'), takeWord_single, h.value v rest hv hrest]

theorem Reads.members_succ {n : ℕ} (h : Reads n) (ms : List (Literal × Value)) (rest : List Char)
    (hne : ms ≠ []) (hn : (membersText ms).length + 1 < n + 1) :
    takeMembers (n + 1) (membersText ms ++ '\x7d' :: rest) = some (ms, rest) := by
  obtain ⟨m, ms, rfl⟩ := List.exists_cons_of_ne_nil hne
  cases ms with
  | nil =>
      have hm := h.member m ('\x7d' :: rest) (by simpa [membersText] using hn)
        (endsNumber_cons (by decide) _)
      rw [membersText, List.isEmpty_nil, if_pos rfl, List.append_nil, takeMembers, hm]
      rfl
  | cons m' ms =>
      rw [membersText, List.isEmpty_cons, if_neg (by decide), List.length_append,
        List.length_cons] at hn
      have hm := h.member m (',' :: (membersText (m' :: ms) ++ '\x7d' :: rest)) (by omega)
        (endsNumber_cons (by decide) _)
      have hms := h.members (m' :: ms) rest (by simp) (by omega)
      rw [membersText, List.isEmpty_cons, if_neg (by decide), List.append_assoc, List.cons_append,
        takeMembers, hm]
      simp only [Option.bind_eq_bind, Option.bind_some, skipSpace_cons (by decide : ¬ IsSpace ','),
        if_true, hms, Option.map_some]

theorem reads (n : ℕ) : Reads n := by
  induction n with
  | zero =>
      constructor
      · intro v rest h
        omega
      · intro vs rest _ h
        omega
      · intro m rest h
        omega
      · intro ms rest _ h
        omega
  | succ n ih => exact ⟨ih.value_succ, ih.items_succ, ih.member_succ, ih.members_succ⟩

theorem endsNumber_nil : EndsNumber [] := by
  intro c hc
  cases hc

/-- **A value is read as it was written.** -/
theorem decode_text (v : Value) : decode v.text = some v := by
  have htake := (reads (v.text.length + 1)).value v [] (by omega) endsNumber_nil
  rw [List.append_nil] at htake
  unfold decode
  rw [htake]
  rfl

end Web.Json

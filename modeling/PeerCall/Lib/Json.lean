import Mathlib

/-!
# Lib.Json — JSON values, their texts, and reading them back

A reader and a printer of JSON texts, over characters.  What differs between implementations are
parameters: `Dialect` says what a reader makes of a lone surrogate escape, which numbers it can hold and
what ends a text, and a printer is given by how it spells one character inside a string (`Escapes`).

`Reads d cs j` says that the text `cs` is read as the value `j` wherever it stands.  The rules for it are
one per kind of value, so that texts put together by different printers can be read back piece by piece;
`reads_print` is the round trip for a single printer.
-/

namespace PeerCall.Lib

/-- A JSON value.  The members of an object are in the order of the text; a number is an integer, or
`mantissa * 10 ^ exponent` when it is written with a fraction or an exponent. -/
inductive Json
  | null
  | bool (b : Bool)
  | int (n : ℤ)
  | float (mantissa exponent : ℤ)
  | str (s : String)
  | arr (xs : List Json)
  | obj (ms : List (String × Json))
  deriving Repr

namespace Json

structure Dialect where
  /-- What an unpaired surrogate escape is read as; `none`: the text is refused. -/
  lone : Option Char
  /-- Whether `mantissa * 10 ^ exponent` can be held. -/
  holds : ℤ → ℤ → Bool
  /-- Whether a NUL character ends the text. -/
  nulEnds : Bool

/-! ### The reader -/

def isWs (c : Char) : Bool := c = ' ' || c = '\t' || c = '\n' || c = '\r'

def skipWs (cs : List Char) : List Char := cs.dropWhile isWs

def hexVal (c : Char) : Option ℕ :=
  if '0' ≤ c ∧ c ≤ '9' then some (c.toNat - '0'.toNat)
  else if 'a' ≤ c ∧ c ≤ 'f' then some (c.toNat - 'a'.toNat + 10)
  else if 'A' ≤ c ∧ c ≤ 'F' then some (c.toNat - 'A'.toNat + 10)
  else none

/-- The code unit spelled by four hexadecimal digits. -/
def hex4 (a b c e : Char) : Option ℕ := do
  let a ← hexVal a
  let b ← hexVal b
  let c ← hexVal c
  let e ← hexVal e
  return ((a * 16 + b) * 16 + c) * 16 + e

/-- The character named by a two-character escape. -/
def unescape : Char → Option Char
  | '"' => some '"'
  | '\\' => some '\\'
  | '/' => some '/'
  | 'b' => some '\x08'
  | 'f' => some '\x0c'
  | 'n' => some '\n'
  | 'r' => some '\r'
  | 't' => some '\t'
  | _ => none

/-- The character spelled by the code unit `u` and what follows it. -/
def unicode (d : Dialect) (u : ℕ) (rest : List Char) : Option (Char × List Char) :=
  if 0xD800 ≤ u ∧ u < 0xDC00 then
    match rest with
    | '\\' :: 'u' :: a :: b :: c :: e :: rest' =>
      match hex4 a b c e with
      | none => none
      | some v =>
        if 0xDC00 ≤ v ∧ v < 0xE000 then
          some (Char.ofNat (0x10000 + (u - 0xD800) * 0x400 + (v - 0xDC00)), rest')
        else d.lone.map (·, rest)
    | _ => d.lone.map (·, rest)
  else if 0xDC00 ≤ u ∧ u < 0xE000 then d.lone.map (·, rest)
  else some (Char.ofNat u, rest)

/-- One character inside a string. -/
def stringChar (d : Dialect) : List Char → Option (Char × List Char)
  | '\\' :: 'u' :: a :: b :: c :: e :: rest => (hex4 a b c e).bind fun u => unicode d u rest
  | '\\' :: e :: rest => (unescape e).map (·, rest)
  | c :: rest => if c.toNat < 0x20 ∨ c = '"' ∨ c = '\\' then none else some (c, rest)
  | [] => none

/-- The rest of a string, up to its closing quote. -/
def stringBody (d : Dialect) : ℕ → List Char → Option (List Char × List Char)
  | 0, _ => none
  | n + 1, cs =>
    match cs with
    | '"' :: rest => some ([], rest)
    | cs => (stringChar d cs).bind fun r => (stringBody d n r.2).map fun r' => (r.1 :: r'.1, r'.2)

def string (d : Dialect) (cs : List Char) : Option (String × List Char) :=
  (stringBody d cs.length cs).map fun r => (String.ofList r.1, r.2)

def digits (cs : List Char) : List Char × List Char := (cs.takeWhile Char.isDigit, cs.dropWhile Char.isDigit)

/-- The integer part of a number: no superfluous zero in front. -/
def natPart : List Char → Option (ℕ × List Char)
  | '0' :: rest => some (0, rest)
  | cs =>
    match digits cs with
    | ([], _) => none
    | (ds, rest) => some (Nat.ofDigitChars 10 ds 0, rest)

/-- The digits after the point; none when there is no point. -/
def fraction : List Char → Option (List Char × List Char)
  | '.' :: cs =>
    match digits cs with
    | ([], _) => none
    | (ds, rest) => some (ds, rest)
  | cs => some ([], cs)

def signed : List Char → Option (ℤ × List Char)
  | '-' :: cs => exponentDigits (-1) cs
  | '+' :: cs => exponentDigits 1 cs
  | cs => exponentDigits 1 cs
where
  exponentDigits (sign : ℤ) (cs : List Char) : Option (ℤ × List Char) :=
    match digits cs with
    | ([], _) => none
    | (ds, rest) => some (sign * Nat.ofDigitChars 10 ds 0, rest)

def exponent : List Char → Option (Option ℤ × List Char)
  | 'e' :: cs => (signed cs).map fun r => (some r.1, r.2)
  | 'E' :: cs => (signed cs).map fun r => (some r.1, r.2)
  | cs => some (none, cs)

/-- The value of a number with its sign, integer part, fraction digits and exponent. -/
def numberValue (sign : ℤ) (n : ℕ) (ds : List Char) (e : Option ℤ) : Json :=
  match ds, e with
  | [], none => .int (sign * n)
  | ds, e => .float (sign * Nat.ofDigitChars 10 ds n) (e.getD 0 - ds.length)

def held (d : Dialect) : Json → Bool
  | .int n => d.holds n 0
  | .float m e => d.holds m e
  | _ => true

def unsigned (d : Dialect) (sign : ℤ) (cs : List Char) : Option (Json × List Char) := do
  let (n, cs) ← natPart cs
  let (ds, cs) ← fraction cs
  let (e, cs) ← exponent cs
  let v := numberValue sign n ds e
  if held d v then some (v, cs) else none

def number (d : Dialect) : List Char → Option (Json × List Char)
  | '-' :: cs => unsigned d (-1) cs
  | cs => unsigned d 1 cs

/-- A member of an object as it is read: besides the value, the text of the value. -/
structure Member where
  key : String
  raw : List Char
  value : Json

mutual

/-- One value, at the depth that the fuel allows. -/
def value (d : Dialect) : ℕ → List Char → Option (Json × List Char)
  | 0, _ => none
  | n + 1, cs =>
    match skipWs cs with
    | '"' :: cs => (string d cs).map fun r => (.str r.1, r.2)
    | '[' :: cs =>
      match skipWs cs with
      | ']' :: rest => some (.arr [], rest)
      | cs => (elements d n cs).map fun r => (.arr r.1, r.2)
    | '{' :: cs =>
      match skipWs cs with
      | '}' :: rest => some (.obj [], rest)
      | cs => (members d n cs).map fun r => (.obj (r.1.map fun m => (m.key, m.value)), r.2)
    | 'n' :: 'u' :: 'l' :: 'l' :: rest => some (.null, rest)
    | 't' :: 'r' :: 'u' :: 'e' :: rest => some (.bool true, rest)
    | 'f' :: 'a' :: 'l' :: 's' :: 'e' :: rest => some (.bool false, rest)
    | cs => number d cs

/-- The elements of an array that has some, up to its closing bracket. -/
def elements (d : Dialect) : ℕ → List Char → Option (List Json × List Char)
  | 0, _ => none
  | n + 1, cs =>
    (value d n cs).bind fun r =>
      match skipWs r.2 with
      | ',' :: rest => (elements d n rest).map fun r' => (r.1 :: r'.1, r'.2)
      | ']' :: rest => some ([r.1], rest)
      | _ => none

/-- The members of an object that has some, up to its closing brace. -/
def members (d : Dialect) : ℕ → List Char → Option (List Member × List Char)
  | 0, _ => none
  | n + 1, cs =>
    match skipWs cs with
    | '"' :: cs =>
      (string d cs).bind fun k =>
        match skipWs k.2 with
        | ':' :: cs =>
          (value d n (skipWs cs)).bind fun r =>
            let m : Member := ⟨k.1, (skipWs cs).take ((skipWs cs).length - r.2.length), r.1⟩
            match skipWs r.2 with
            | ',' :: rest => (members d n rest).map fun r' => (m :: r'.1, r'.2)
            | '}' :: rest => some ([m], rest)
            | _ => none
        | _ => none
    | _ => none

end

/-- Nothing of the text is left. -/
def atEnd (d : Dialect) (rest : List Char) : Bool :=
  match skipWs rest with
  | [] => true
  | c :: _ => d.nulEnds && c = '\x00'

/-- The value of a whole text. -/
def parse (d : Dialect) (cs : List Char) : Option Json :=
  (value d (cs.length + 1) cs).bind fun r => if atEnd d r.2 then some r.1 else none

/-- A whole text that is an object, with the texts of its members. -/
def parseMembers (d : Dialect) (cs : List Char) : Option (List Member) :=
  match skipWs cs with
  | '{' :: cs =>
    match skipWs cs with
    | '}' :: rest => if atEnd d rest then some [] else none
    | cs => (members d (cs.length + 1) cs).bind fun r => if atEnd d r.2 then some r.1 else none
  | _ => none

/-! ### Texts that are read back -/

section Rules

variable {d : Dialect}

theorem skipWs_cons {c : Char} (h : isWs c = false) (cs : List Char) : skipWs (c :: cs) = c :: cs := by
  simp [skipWs, h]

/-- `esc` spells every character so that it is read back. -/
def Escapes (d : Dialect) (esc : Char → List Char) : Prop :=
  ∀ c rest, stringChar d (esc c ++ rest) = some (c, rest)

/-- A string literal without its opening quote. -/
def closing (esc : Char → List Char) (s : List Char) : List Char := s.flatMap esc ++ ['"']

def quote (esc : Char → List Char) (s : String) : List Char := '"' :: closing esc s.toList

theorem stringBody_closing {esc : Char → List Char} (h : Escapes d esc) (s rest : List Char) (n : ℕ)
    (hn : s.length < n) : stringBody d n (closing esc s ++ rest) = some (s, rest) := by
  induction s generalizing n with
  | nil =>
    obtain ⟨n, rfl⟩ : ∃ m, n = m + 1 := ⟨n - 1, by simp at hn; omega⟩
    rfl
  | cons c s ih =>
    obtain ⟨n, rfl⟩ : ∃ m, n = m + 1 := ⟨n - 1, by simp at hn; omega⟩
    have hc := h c (closing esc s ++ rest)
    have happ : closing esc (c :: s) ++ rest = esc c ++ (closing esc s ++ rest) := by simp [closing]
    -- no spelling starts with a quote
    have hquote : ∀ rest', esc c ++ (closing esc s ++ rest) = '"' :: rest' → False := by
      intro rest' heq
      rw [heq] at hc
      simp [stringChar] at hc
    rw [happ, stringBody, hc, Option.bind_some, ih n (by simpa using hn)]
    · rfl
    · exact hquote

theorem length_closing_le {esc : Char → List Char} (h : Escapes d esc) (s : List Char) :
    s.length < (closing esc s).length := by
  induction s with
  | nil => simp [closing]
  | cons c s ih =>
    have hne : esc c ≠ [] := by
      intro he
      have := h c []
      simp [he, stringChar] at this
    have := List.length_pos_iff.mpr hne
    simp only [closing, List.flatMap_cons, List.length_append, List.length_cons, List.append_assoc] at ih ⊢
    omega

theorem string_closing {esc : Char → List Char} (h : Escapes d esc) (s : String) (rest : List Char) :
    string d (closing esc s.toList ++ rest) = some (s, rest) := by
  have hlen := length_closing_le h s.toList
  rw [string, stringBody_closing h _ _ _ (by simp only [List.length_append]; omega)]
  simp

/-! ### Spelling characters -/

def hexDigit (n : ℕ) : Char := Nat.digitChar (n % 16)

/-- `\uXXXX`. -/
def unicodeEscape (n : ℕ) : List Char :=
  ['\\', 'u', hexDigit (n / 4096), hexDigit (n / 256), hexDigit (n / 16), hexDigit n]

theorem hexVal_hexDigit (n : ℕ) : hexVal (hexDigit n) = some (n % 16) := by
  have h : ∀ k : Fin 16, hexVal (Nat.digitChar k) = some k.val := by decide
  exact h ⟨n % 16, Nat.mod_lt _ (by decide)⟩

theorem hex4_unicodeEscape {n : ℕ} (h : n < 0x10000) :
    hex4 (hexDigit (n / 4096)) (hexDigit (n / 256)) (hexDigit (n / 16)) (hexDigit n) = some n := by
  simp only [hex4, hexVal_hexDigit, Option.bind_eq_bind, Option.bind_some, Option.pure_def, Option.some.injEq]
  omega

/-- A character of the basic plane may always be spelled by its code. -/
theorem stringChar_unicodeEscape (c : Char) (h : c.toNat < 0x10000) (rest : List Char) :
    stringChar d (unicodeEscape c.toNat ++ rest) = some (c, rest) := by
  have hvalid : c.toNat < 0xD800 ∨ 0xDFFF < c.toNat := by
    rcases c.valid with h | h
    · exact Or.inl h
    · exact Or.inr h.1
  have hchar : Char.ofNat c.toNat = c := Char.ofNat_toNat c
  simp only [unicodeEscape, List.cons_append, List.nil_append, stringChar, hex4_unicodeEscape h, Option.bind_some,
    unicode]
  rw [if_neg (by omega), if_neg (by omega), hchar]

/-- A character that needs no escape. -/
theorem stringChar_raw {c : Char} (h : 0x20 ≤ c.toNat) (hq : c ≠ '"') (hb : c ≠ '\\') (rest : List Char) :
    stringChar d (c :: rest) = some (c, rest) := by
  unfold stringChar
  split
  · rename_i heq
    exact absurd (List.cons.inj heq).1 hb
  · rename_i heq
    exact absurd (List.cons.inj heq).1 hb
  · rename_i heq
    obtain ⟨rfl, rfl⟩ := List.cons.inj heq
    rw [if_neg]
    rintro (h' | h' | h')
    · omega
    · exact hq h'
    · exact hb h'
  · rename_i heq
    simp at heq

/-- Only what has to be escaped is, by its short form where there is one. -/
def shortEscape (c : Char) : List Char :=
  if c = '"' then ['\\', '"']
  else if c = '\\' then ['\\', '\\']
  else if c = '\x08' then ['\\', 'b']
  else if c = '\x0c' then ['\\', 'f']
  else if c = '\n' then ['\\', 'n']
  else if c = '\r' then ['\\', 'r']
  else if c = '\t' then ['\\', 't']
  else if c.toNat < 0x20 then unicodeEscape c.toNat
  else [c]

theorem escapes_shortEscape : Escapes d shortEscape := by
  intro c rest
  unfold shortEscape
  split_ifs with h1 h2 h3 h4 h5 h6 h7 h8
  · subst h1; rfl
  · subst h2; rfl
  · subst h3; rfl
  · subst h4; rfl
  · subst h5; rfl
  · subst h6; rfl
  · subst h7; rfl
  · exact stringChar_unicodeEscape c (by omega) rest
  · exact stringChar_raw (by omega) h1 h2 rest

/-- What may follow a value: nothing that could be more of a number. -/
def Ends (rest : List Char) : Prop := ∀ c ∈ rest.head?, c.isDigit = false ∧ c ≠ '.' ∧ c ≠ 'e' ∧ c ≠ 'E'

/-- `cs` is a text of the value `j`, wherever it stands. -/
structure Reads (d : Dialect) (cs : List Char) (j : Json) : Prop where
  start : ∃ c cs', cs = c :: cs' ∧ isWs c = false ∧ c ≠ ']'
  value_eq : ∀ n rest, cs.length ≤ n → Ends rest → value d n (cs ++ rest) = some (j, rest)

theorem Reads.skipWs {cs : List Char} {j : Json} (h : Reads d cs j) (rest : List Char) :
    skipWs (cs ++ rest) = cs ++ rest := by
  obtain ⟨c, cs', rfl, hc, -⟩ := h.start
  exact skipWs_cons hc _

theorem Reads.parse_eq {cs : List Char} {j : Json} (h : Reads d cs j) : parse d cs = some j := by
  have := h.value_eq (cs.length + 1) [] (by omega) (by simp [Ends])
  rw [List.append_nil] at this
  simp [parse, this, atEnd, Json.skipWs]

/-! ### Numbers -/

/-- No digit follows. -/
def Stops (rest : List Char) : Prop := ∀ c ∈ rest.head?, c.isDigit = false

theorem Ends.stops {rest : List Char} (h : Ends rest) : Stops rest := fun c hc => (h c hc).1

theorem digits_append {ds rest : List Char} (h : ∀ c ∈ ds, c.isDigit = true) (hr : Stops rest) :
    digits (ds ++ rest) = (ds, rest) := by
  have hstop : rest.takeWhile Char.isDigit = [] ∧ rest.dropWhile Char.isDigit = rest := by
    cases rest with
    | nil => simp
    | cons c rest => simp [hr c rfl]
  rw [digits, List.takeWhile_append_of_pos h, List.dropWhile_append_of_pos h, hstop.1, hstop.2, List.append_nil]

theorem ne_of_isDigit {c c' : Char} (h : c.isDigit = true) (h' : c'.isDigit = false) : c ≠ c' := by
  rintro rfl
  rw [h] at h'
  exact absurd h' (by decide)

theorem isDigit_of_mem {n : ℕ} {c : Char} (h : c ∈ Nat.toDigits 10 n) : c.isDigit = true :=
  Nat.isDigit_of_mem_toDigits (by decide) (by decide) h

/-- A positive number has no zero in front. -/
theorem toDigits_ne_zero_cons {n : ℕ} (h : n ≠ 0) (ds : List Char) : Nat.toDigits 10 n ≠ '0' :: ds := by
  induction n using Nat.strongRecOn generalizing ds with
  | ind n ih =>
    rw [Nat.toDigits_eq_if (by decide)]
    split_ifs with hn
    · intro he
      have hd : ∀ k : Fin 10, Nat.digitChar k = '0' → k = 0 := by decide
      have := hd ⟨n, hn⟩ (List.cons.inj he).1
      simp at this
      exact h this
    · intro he
      cases hq : Nat.toDigits 10 (n / 10) with
      | nil => exact absurd hq Nat.toDigits_ne_nil
      | cons c cs =>
        rw [hq] at he
        exact ih (n / 10) (by omega) (by omega) cs (by rw [hq, (List.cons.inj he).1])

theorem natPart_toDigits (n : ℕ) {rest : List Char} (hr : Stops rest) :
    natPart (Nat.toDigits 10 n ++ rest) = some (n, rest) := by
  by_cases hn : n = 0
  · subst hn
    rfl
  · unfold natPart
    split
    · rename_i rest' heq
      cases hds : Nat.toDigits 10 n with
      | nil => exact absurd hds Nat.toDigits_ne_nil
      | cons c cs =>
        rw [hds] at heq
        exact absurd (hds.trans (by rw [(List.cons.inj heq).1])) (toDigits_ne_zero_cons hn cs)
    · rw [digits_append (fun c hc => isDigit_of_mem hc) hr]
      split
      · rename_i heq
        exact absurd (congrArg Prod.fst heq) Nat.toDigits_ne_nil
      · rename_i ds rest' _ heq
        obtain ⟨rfl, rfl⟩ := Prod.mk.inj heq
        rw [Nat.ofDigitChars_ten_toDigits]

theorem fraction_ends {rest : List Char} (hr : Ends rest) : fraction rest = some ([], rest) := by
  unfold fraction
  split
  · exact absurd rfl (hr '.' rfl).2.1
  · rfl

theorem exponent_ends {rest : List Char} (hr : Ends rest) : exponent rest = some (none, rest) := by
  unfold exponent
  split
  · exact absurd rfl (hr 'e' rfl).2.2.1
  · exact absurd rfl (hr 'E' rfl).2.2.2
  · rfl

/-- The decimal text of an integer. -/
def intText (n : ℤ) : List Char :=
  if n < 0 then '-' :: Nat.toDigits 10 n.natAbs else Nat.toDigits 10 n.natAbs

theorem isDigit_head_toDigits {n : ℕ} {c : Char} {rest cs : List Char} (h : Nat.toDigits 10 n ++ rest = c :: cs) :
    c.isDigit = true := by
  cases hds : Nat.toDigits 10 n with
  | nil => exact absurd hds Nat.toDigits_ne_nil
  | cons c' cs' =>
    rw [hds] at h
    rw [← (List.cons.inj h).1]
    exact isDigit_of_mem (hds ▸ List.mem_cons_self)

/-- Reading a number whose sign has been read off its text. -/
theorem number_signed {n : ℤ} {rest : List Char} {r : Option (Json × List Char)}
    (h : ∀ (sign : ℤ) (k : ℕ), sign * k = n → unsigned d sign (Nat.toDigits 10 k ++ rest) = r) :
    number d (intText n ++ rest) = r := by
  unfold intText
  split_ifs with hn
  · exact h (-1) _ (by omega)
  · unfold number
    split
    · rename_i cs heq
      exact absurd (isDigit_head_toDigits heq) (by decide)
    · exact h 1 _ (by omega)

theorem number_intText {n : ℤ} (h : d.holds n 0 = true) {rest : List Char} (hr : Ends rest) :
    number d (intText n ++ rest) = some (.int n, rest) := by
  refine number_signed fun sign k hsign => ?_
  simp [unsigned, natPart_toDigits _ hr.stops, fraction_ends hr, exponent_ends hr, numberValue, held, hsign, h]

theorem signed_intText (n : ℤ) {rest : List Char} (hr : Ends rest) :
    signed (intText n ++ rest) = some (n, rest) := by
  have hdigits : ∀ sign : ℤ, sign * n.natAbs = n →
      signed.exponentDigits sign (Nat.toDigits 10 n.natAbs ++ rest) = some (n, rest) := by
    intro sign hsign
    unfold signed.exponentDigits
    rw [digits_append (fun c hc => isDigit_of_mem hc) hr.stops]
    split
    · rename_i heq
      exact absurd (congrArg Prod.fst heq) Nat.toDigits_ne_nil
    · rename_i ds rest' _ heq
      obtain ⟨rfl, rfl⟩ := Prod.mk.inj heq
      rw [Nat.ofDigitChars_ten_toDigits, hsign]
  unfold intText
  split_ifs with hn
  · exact hdigits (-1) (by omega)
  · unfold signed
    split
    · rename_i heq
      exact absurd (isDigit_head_toDigits heq) (by decide)
    · rename_i heq
      exact absurd (isDigit_head_toDigits heq) (by decide)
    · exact hdigits 1 (by omega)

/-- The text of `mantissa * 10 ^ exponent`. -/
def floatText (m e : ℤ) : List Char := intText m ++ 'e' :: intText e

theorem number_floatText {m e : ℤ} (h : d.holds m e = true) {rest : List Char} (hr : Ends rest) :
    number d (floatText m e ++ rest) = some (.float m e, rest) := by
  have hstop : Stops ('e' :: (intText e ++ rest)) := by
    intro c hc
    obtain rfl : 'e' = c := by simpa using hc
    decide
  rw [floatText, List.append_assoc, List.cons_append]
  refine number_signed fun sign k hsign => ?_
  simp [unsigned, natPart_toDigits _ hstop, fraction, exponent, signed_intText e hr, numberValue, held, hsign, h]

/-! ### One rule for each kind of value -/

theorem ne_of_number {c : Char} (h : c.isDigit = true ∨ c = '-') {c' : Char} (hd : c'.isDigit = false)
    (hm : c' ≠ '-') : c ≠ c' := by
  rintro rfl
  rcases h with h | h
  · rw [h] at hd
    exact absurd hd (by decide)
  · exact hm h

theorem isWs_of_number {c : Char} (h : c.isDigit = true ∨ c = '-') : isWs c = false := by
  simp only [isWs, Bool.or_eq_false_iff, decide_eq_false_iff_not]
  refine ⟨⟨⟨?_, ?_⟩, ?_⟩, ?_⟩ <;> exact ne_of_number h (by decide) (by decide)

theorem value_number {c : Char} (h : c.isDigit = true ∨ c = '-') (n : ℕ) (cs : List Char) :
    value d (n + 1) (c :: cs) = number d (c :: cs) := by
  rw [value, skipWs_cons (isWs_of_number h)]
  split
  any_goals
    rename_i heq
    exact absurd (List.cons.inj heq).1 (ne_of_number h (by decide) (by decide))
  rfl

theorem intText_cons (n : ℤ) : ∃ c cs, intText n = c :: cs ∧ (c.isDigit = true ∨ c = '-') := by
  unfold intText
  split_ifs with hn
  · exact ⟨'-', _, rfl, Or.inr rfl⟩
  · cases hds : Nat.toDigits 10 n.natAbs with
    | nil => exact absurd hds Nat.toDigits_ne_nil
    | cons c cs => exact ⟨c, cs, rfl, Or.inl (isDigit_of_mem (hds ▸ List.mem_cons_self))⟩

/-- A number is read by what its text starts with. -/
theorem reads_number {cs : List Char} {j : Json} (hstart : ∃ c cs', cs = c :: cs' ∧ (c.isDigit = true ∨ c = '-'))
    (h : ∀ rest, Ends rest → number d (cs ++ rest) = some (j, rest)) : Reads d cs j := by
  obtain ⟨c, cs, rfl, hc⟩ := hstart
  refine ⟨⟨c, cs, rfl, isWs_of_number hc, ne_of_number hc (by decide) (by decide)⟩, fun n rest hn hr => ?_⟩
  obtain ⟨n, rfl⟩ : ∃ m, n = m + 1 := ⟨n - 1, by simp at hn; omega⟩
  rw [List.cons_append, value_number hc]
  exact h rest hr

theorem reads_int {n : ℤ} (h : d.holds n 0 = true) : Reads d (intText n) (.int n) :=
  reads_number (intText_cons n) fun _ hr => number_intText h hr

theorem reads_float {m e : ℤ} (h : d.holds m e = true) : Reads d (floatText m e) (.float m e) := by
  refine reads_number ?_ fun _ hr => number_floatText h hr
  obtain ⟨c, cs, hm, hc⟩ := intText_cons m
  exact ⟨c, _, by rw [floatText, hm, List.cons_append], hc⟩

/-- A value that is known by its first character. -/
theorem reads_of {c : Char} {cs : List Char} {j : Json} (hc : isWs c = false ∧ c ≠ ']')
    (h : ∀ n rest, cs.length ≤ n → value d (n + 1) (c :: (cs ++ rest)) = some (j, rest)) : Reads d (c :: cs) j := by
  refine ⟨⟨c, cs, rfl, hc⟩, fun n rest hn _ => ?_⟩
  obtain ⟨n, rfl⟩ : ∃ m, n = m + 1 := ⟨n - 1, by simp at hn; omega⟩
  exact h n rest (by simpa using hn)

theorem reads_null : Reads d ['n', 'u', 'l', 'l'] .null :=
  reads_of (by decide) fun _ _ _ => by rw [value, skipWs_cons (by decide)]; rfl

theorem reads_true : Reads d ['t', 'r', 'u', 'e'] (.bool true) :=
  reads_of (by decide) fun _ _ _ => by rw [value, skipWs_cons (by decide)]; rfl

theorem reads_false : Reads d ['f', 'a', 'l', 's', 'e'] (.bool false) :=
  reads_of (by decide) fun _ _ _ => by rw [value, skipWs_cons (by decide)]; rfl

theorem reads_str {esc : Char → List Char} (h : Escapes d esc) (s : String) : Reads d (quote esc s) (.str s) :=
  reads_of (by decide) fun _ rest _ => by
    rw [value, skipWs_cons (by decide)]
    simp only [string_closing h s rest, Option.map_some]

/-- `cs` holds the elements of an array that has some, and the closing bracket. -/
structure ReadsElements (d : Dialect) (cs : List Char) (xs : List Json) : Prop where
  start : ∃ c cs', cs = c :: cs' ∧ isWs c = false ∧ c ≠ ']'
  elements_eq : ∀ n rest, cs.length ≤ n → elements d n (cs ++ rest) = some (xs, rest)

/-- `cs` holds the members of an object that has some, and the closing brace. -/
structure ReadsMembers (d : Dialect) (cs : List Char) (ms : List Member) : Prop where
  start : ∃ cs', cs = '"' :: cs'
  members_eq : ∀ n rest, cs.length ≤ n → members d n (cs ++ rest) = some (ms, rest)

theorem ends_cons {c : Char} (h : c = ',' ∨ c = ']' ∨ c = '}') (rest : List Char) : Ends (c :: rest) := by
  intro c' hc'
  obtain rfl : c = c' := by simpa using hc'
  rcases h with rfl | rfl | rfl <;> decide

theorem start_append {cs : List Char} (h : ∃ c cs', cs = c :: cs' ∧ isWs c = false ∧ c ≠ ']') (cs' : List Char) :
    ∃ c cs'', cs ++ cs' = c :: cs'' ∧ isWs c = false ∧ c ≠ ']' := by
  obtain ⟨c, cs, rfl, hc⟩ := h
  exact ⟨c, _, List.cons_append .., hc⟩

theorem readsElements_one {cs : List Char} {x : Json} (h : Reads d cs x) : ReadsElements d (cs ++ [']']) [x] := by
  refine ⟨start_append h.start _, fun n rest hn => ?_⟩
  obtain ⟨n, rfl⟩ : ∃ m, n = m + 1 := ⟨n - 1, by simp at hn; omega⟩
  rw [elements, List.append_assoc, List.singleton_append,
    h.value_eq n _ (by simp at hn; omega) (ends_cons (by simp) _), Option.bind_some, skipWs_cons (by decide)]
  rfl

theorem readsElements_cons {cs cs' : List Char} {x : Json} {xs : List Json} (h : Reads d cs x)
    (h' : ReadsElements d cs' xs) : ReadsElements d (cs ++ ',' :: cs') (x :: xs) := by
  refine ⟨start_append h.start _, fun n rest hn => ?_⟩
  obtain ⟨n, rfl⟩ : ∃ m, n = m + 1 := ⟨n - 1, by simp at hn; omega⟩
  rw [elements, List.append_assoc, List.cons_append,
    h.value_eq n _ (by simp at hn; omega) (ends_cons (by simp) _), Option.bind_some, skipWs_cons (by decide)]
  simp only [h'.elements_eq n rest (by simp at hn; omega), Option.map_some]

theorem reads_arr_nil : Reads d ['[', ']'] (.arr []) :=
  reads_of (by decide) fun _ _ _ => by
    rw [value, skipWs_cons (by decide)]
    rfl

theorem reads_arr {cs : List Char} {xs : List Json} (h : ReadsElements d cs xs) : Reads d ('[' :: cs) (.arr xs) :=
  reads_of (by decide) fun n rest hn => by
    obtain ⟨c, cs, rfl, hws, hc⟩ := h.start
    rw [value, skipWs_cons (by decide)]
    simp only [List.cons_append, skipWs_cons hws]
    split
    · rename_i heq
      exact absurd (List.cons.inj heq).1 hc
    · rw [← List.cons_append, h.elements_eq n rest hn, Option.map_some]

/-- One member: a key, a colon and the text of a value. -/
def memberText (esc : Char → List Char) (key : String) (cs : List Char) : List Char := quote esc key ++ ':' :: cs

/-- Reading up to the end of a member's value. -/
theorem members_member {esc : Char → List Char} (hesc : Escapes d esc) {key : String} {cs : List Char} {j : Json}
    (h : Reads d cs j) {n : ℕ} (hn : cs.length ≤ n) {rest : List Char} (hr : Ends rest) :
    members d (n + 1) (memberText esc key cs ++ rest) =
      match Json.skipWs rest with
      | ',' :: rest => (members d n rest).map fun r => (⟨key, cs, j⟩ :: r.1, r.2)
      | '}' :: rest => some ([⟨key, cs, j⟩], rest)
      | _ => none := by
  have htext : memberText esc key cs ++ rest = '"' :: (closing esc key.toList ++ (':' :: (cs ++ rest))) := by
    simp [memberText, quote]
  rw [htext, members, skipWs_cons (by decide)]
  simp only [string_closing hesc, Option.bind_some]
  rw [skipWs_cons (by decide)]
  simp only [h.skipWs, h.value_eq n rest hn hr, Option.bind_some, List.length_append, Nat.add_sub_cancel,
    List.take_left]

theorem readsMembers_one {esc : Char → List Char} (hesc : Escapes d esc) {key : String} {cs : List Char} {j : Json}
    (h : Reads d cs j) : ReadsMembers d (memberText esc key cs ++ ['}']) [⟨key, cs, j⟩] := by
  refine ⟨⟨_, rfl⟩, fun n rest hn => ?_⟩
  obtain ⟨n, rfl⟩ : ∃ m, n = m + 1 := ⟨n - 1, by simp at hn; omega⟩
  have hlen : cs.length ≤ n := by simp [memberText, quote] at hn; omega
  rw [List.append_assoc, List.singleton_append, members_member hesc h hlen (ends_cons (by simp) _),
    skipWs_cons (by decide)]
  rfl

theorem readsMembers_cons {esc : Char → List Char} (hesc : Escapes d esc) {key : String} {cs cs' : List Char}
    {j : Json} {ms : List Member} (h : Reads d cs j) (h' : ReadsMembers d cs' ms) :
    ReadsMembers d (memberText esc key cs ++ ',' :: cs') (⟨key, cs, j⟩ :: ms) := by
  refine ⟨⟨_, rfl⟩, fun n rest hn => ?_⟩
  obtain ⟨n, rfl⟩ : ∃ m, n = m + 1 := ⟨n - 1, by simp at hn; omega⟩
  have hlen : cs.length ≤ n ∧ cs'.length ≤ n := by simp [memberText, quote] at hn; omega
  rw [List.append_assoc, List.cons_append, members_member hesc h hlen.1 (ends_cons (by simp) _),
    skipWs_cons (by decide)]
  simp only [h'.members_eq n rest hlen.2, Option.map_some]

theorem reads_obj_nil : Reads d ['{', '}'] (.obj []) :=
  reads_of (by decide) fun _ _ _ => by
    rw [value, skipWs_cons (by decide)]
    rfl

theorem reads_obj {cs : List Char} {ms : List Member} (h : ReadsMembers d cs ms) :
    Reads d ('{' :: cs) (.obj (ms.map fun m => (m.key, m.value))) :=
  reads_of (by decide) fun n rest hn => by
    have heq := h.members_eq n rest hn
    obtain ⟨cs, rfl⟩ := h.start
    rw [value, skipWs_cons (by decide)]
    rw [List.cons_append] at heq ⊢
    simp only [skipWs_cons (show isWs '"' = false by decide)]
    split
    · rename_i hbrace
      exact absurd (List.cons.inj hbrace).1 (by decide)
    · rw [heq, Option.map_some]

/-- The members of a whole text, with their own texts. -/
theorem ReadsMembers.parseMembers_eq {cs : List Char} {ms : List Member} (h : ReadsMembers d cs ms) :
    parseMembers d ('{' :: cs) = some ms := by
  have heq := h.members_eq (cs.length + 1) [] (by omega)
  obtain ⟨cs, rfl⟩ := h.start
  rw [List.append_nil] at heq
  rw [parseMembers, skipWs_cons (by decide)]
  simp only [skipWs_cons (show isWs '"' = false by decide)]
  split
  · rename_i hbrace
    exact absurd (List.cons.inj hbrace).1 (by decide)
  · rw [heq, Option.bind_some]
    rfl

end Rules

/-! ### The printer -/

section Printer

variable (esc : Char → List Char)

mutual

/-- The text of a value, without blanks. -/
def print : Json → List Char
  | .null => ['n', 'u', 'l', 'l']
  | .bool true => ['t', 'r', 'u', 'e']
  | .bool false => ['f', 'a', 'l', 's', 'e']
  | .int n => intText n
  | .float m e => floatText m e
  | .str s => quote esc s
  | .arr [] => ['[', ']']
  | .arr (x :: xs) => '[' :: (print x ++ printElements xs)
  | .obj [] => ['{', '}']
  | .obj ((k, v) :: ms) => '{' :: (memberText esc k (print v) ++ printMembers ms)

/-- The elements after the first, and the closing bracket. -/
def printElements : List Json → List Char
  | [] => [']']
  | x :: xs => ',' :: (print x ++ printElements xs)

/-- The members after the first, and the closing brace. -/
def printMembers : List (String × Json) → List Char
  | [] => ['}']
  | (k, v) :: ms => ',' :: (memberText esc k (print v) ++ printMembers ms)

end

end Printer

mutual

/-- Every number in the value can be held. -/
def Holdable (d : Dialect) : Json → Prop
  | .int n => d.holds n 0 = true
  | .float m e => d.holds m e = true
  | .arr xs => HoldableAll d xs
  | .obj ms => HoldableMembers d ms
  | _ => True

def HoldableAll (d : Dialect) : List Json → Prop
  | [] => True
  | x :: xs => Holdable d x ∧ HoldableAll d xs

def HoldableMembers (d : Dialect) : List (String × Json) → Prop
  | [] => True
  | (_, v) :: ms => Holdable d v ∧ HoldableMembers d ms

end

mutual

/-- A reader that can hold every number can hold every value. -/
theorem holdable_of_holds {d : Dialect} (h : ∀ m e, d.holds m e = true) : ∀ j : Json, Holdable d j
  | .null => trivial
  | .bool _ => trivial
  | .int n => h n 0
  | .float m e => h m e
  | .str _ => trivial
  | .arr xs => holdableAll_of_holds h xs
  | .obj ms => holdableMembers_of_holds h ms

theorem holdableAll_of_holds {d : Dialect} (h : ∀ m e, d.holds m e = true) : ∀ xs : List Json, HoldableAll d xs
  | [] => trivial
  | x :: xs => ⟨holdable_of_holds h x, holdableAll_of_holds h xs⟩

theorem holdableMembers_of_holds {d : Dialect} (h : ∀ m e, d.holds m e = true) :
    ∀ ms : List (String × Json), HoldableMembers d ms
  | [] => trivial
  | (_, v) :: ms => ⟨holdable_of_holds h v, holdableMembers_of_holds h ms⟩

end

section RoundTrip

variable {d : Dialect} {esc : Char → List Char}

/-- A printed member, as it is read. -/
def printed (esc : Char → List Char) (m : String × Json) : Member := ⟨m.1, print esc m.2, m.2⟩

mutual

/-- **Round trip**: a printed value is read back. -/
theorem reads_print (hesc : Escapes d esc) : ∀ j : Json, Holdable d j → Reads d (print esc j) j
  | .null, _ => reads_null
  | .bool true, _ => reads_true
  | .bool false, _ => reads_false
  | .int _, h => reads_int h
  | .float _ _, h => reads_float h
  | .str s, _ => reads_str hesc s
  | .arr [], _ => reads_arr_nil
  | .arr (x :: xs), h => reads_arr (readsElements_print hesc xs h.2 (reads_print hesc x h.1))
  | .obj [], _ => reads_obj_nil
  | .obj ((k, v) :: ms), h => by
    have hread := reads_obj (readsMembers_print hesc ms h.2 k (reads_print hesc v h.1))
    simpa [print, Function.comp_def, printed] using hread

theorem readsElements_print (hesc : Escapes d esc) : ∀ xs : List Json, HoldableAll d xs →
    ∀ {cs : List Char} {x : Json}, Reads d cs x → ReadsElements d (cs ++ printElements esc xs) (x :: xs)
  | [], _, _, _, h => readsElements_one h
  | y :: ys, hys, _, _, h => readsElements_cons h (readsElements_print hesc ys hys.2 (reads_print hesc y hys.1))

theorem readsMembers_print (hesc : Escapes d esc) : ∀ ms : List (String × Json), HoldableMembers d ms →
    ∀ (key : String) {cs : List Char} {j : Json}, Reads d cs j →
      ReadsMembers d (memberText esc key cs ++ printMembers esc ms) (⟨key, cs, j⟩ :: ms.map (printed esc))
  | [], _, _, _, _, h => readsMembers_one hesc h
  | (k, v) :: ms, hms, _, _, _, h =>
    readsMembers_cons hesc h (readsMembers_print hesc ms hms.2 k (reads_print hesc v hms.1))

end

/-- A printed object is read member by member, each with its own text. -/
theorem parseMembers_print (hesc : Escapes d esc) {m : String × Json} {ms : List (String × Json)}
    (h : Holdable d (.obj (m :: ms))) :
    parseMembers d (print esc (.obj (m :: ms))) = some ((m :: ms).map (printed esc)) :=
  (readsMembers_print hesc ms h.2 m.1 (reads_print hesc m.2 h.1)).parseMembers_eq

end RoundTrip

end Json

end PeerCall.Lib

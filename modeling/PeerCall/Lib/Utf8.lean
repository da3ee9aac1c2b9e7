import Mathlib

/-!
# Lib.Utf8 — bytes read as characters, also where they are none

Any sequence of bytes is divided from the left: where the bytes of a character start there is a character,
elsewhere a stray byte, which a lenient reader takes for U+FFFD.

* `Divided rs`: a sequence of characters and stray bytes is how its own bytes are divided (`runes_joined`).
* `GoesOn rs' rs`: what `rs'` starts with cannot complete a character any better than what `rs` starts with, so
  that a stray byte before `rs` is stray before `rs'` as well.
-/

namespace PeerCall.Lib.Utf8

/-- A character, or a byte at which none starts. -/
inductive Rune
  | char (c : Char)
  | stray (b : UInt8)
  deriving DecidableEq, Repr

namespace Rune

def bytes : Rune → List UInt8
  | char c => String.utf8EncodeChar c
  | stray b => [b]

/-- What a lenient reader takes it for. -/
def read : Rune → Char
  | char c => c
  | stray _ => '\ufffd'

end Rune

/-- The character whose bytes come first. -/
def first (bs : List UInt8) : Option Char := bs.toByteArray.utf8DecodeChar? 0

/-- The division of what comes after the first `k` bytes. -/
def divide : ℕ → List UInt8 → List Rune
  | _, [] => []
  | k + 1, _ :: bs => divide k bs
  | 0, b :: bs =>
    match first (b :: bs) with
    | some c => .char c :: divide (c.utf8Size - 1) bs
    | none => .stray b :: divide 0 bs

def runes (bs : List UInt8) : List Rune := divide 0 bs

/-- The bytes of a sequence of runes. -/
def joined (rs : List Rune) : List UInt8 := rs.flatMap Rune.bytes

/-- The bytes of a text. -/
def encode (cs : List Char) : List UInt8 := cs.flatMap String.utf8EncodeChar

/-- What a lenient reader makes of the bytes. -/
def read (bs : List UInt8) : List Char := (runes bs).map Rune.read

/-- The bytes are those of a text. -/
def Valid (bs : List UInt8) : Prop := encode (read bs) = bs

instance (bs : List UInt8) : Decidable (Valid bs) := inferInstanceAs (Decidable (_ = _))

/-! ### Dividing bytes -/

theorem toByteArray_append (as bs : List UInt8) : (as ++ bs).toByteArray = as.toByteArray ++ bs.toByteArray := by
  ext1
  simp

theorem first_char (c : Char) (bs : List UInt8) : first (String.utf8EncodeChar c ++ bs) = some c := by
  rw [first, toByteArray_append]
  exact ByteArray.utf8DecodeChar?_utf8EncodeChar_append

theorem eq_append_of_first {bs : List UInt8} {c : Char} (h : first bs = some c) :
    ∃ rest, bs = String.utf8EncodeChar c ++ rest := by
  obtain ⟨rest, hrest⟩ := ByteArray.exists_of_utf8DecodeChar?_eq_some h
  refine ⟨rest.data.toList, ?_⟩
  have hdata := congrArg (fun b : ByteArray => b.data.toList) hrest
  simpa using hdata

theorem divide_drop (k : ℕ) (bs : List UInt8) : divide k bs = divide 0 (bs.drop k) := by
  induction k generalizing bs with
  | zero => rfl
  | succ k ih =>
    cases bs with
    | nil => rfl
    | cons b bs =>
      rw [divide, ih]
      rfl

theorem runes_char (c : Char) (bs : List UInt8) :
    runes (String.utf8EncodeChar c ++ bs) = .char c :: runes bs := by
  have hfirst := first_char c bs
  have hlen := String.length_utf8EncodeChar c
  have hpos := c.utf8Size_pos
  cases henc : String.utf8EncodeChar c with
  | nil =>
    rw [henc] at hlen
    simp at hlen
    omega
  | cons b t =>
    rw [henc] at hfirst hlen
    have hdrop : (t ++ bs).drop (c.utf8Size - 1) = bs := by
      have ht : t.length = c.utf8Size - 1 := by simp at hlen; omega
      rw [← ht, List.drop_left]
    rw [List.cons_append] at hfirst ⊢
    rw [runes, divide, hfirst]
    show Rune.char c :: divide (c.utf8Size - 1) (t ++ bs) = _
    rw [divide_drop, hdrop]
    rfl

theorem runes_stray {b : UInt8} {bs : List UInt8} (h : first (b :: bs) = none) :
    runes (b :: bs) = .stray b :: runes bs := by
  rw [runes, divide, h]
  rfl

/-- What can stand at the front. -/
theorem front_cases (bs : List UInt8) :
    bs = [] ∨ (∃ c rest, bs = String.utf8EncodeChar c ++ rest) ∨
      ∃ b rest, bs = b :: rest ∧ first (b :: rest) = none := by
  cases bs with
  | nil => exact .inl rfl
  | cons b bs =>
    cases hfirst : first (b :: bs) with
    | none => exact .inr (.inr ⟨b, bs, rfl, hfirst⟩)
    | some c =>
      obtain ⟨rest, hrest⟩ := eq_append_of_first hfirst
      exact .inr (.inl ⟨c, rest, hrest⟩)

theorem joined_cons (r : Rune) (rs : List Rune) : joined (r :: rs) = r.bytes ++ joined rs := rfl

/-- Nothing is lost. -/
theorem joined_runes (bs : List UInt8) : joined (runes bs) = bs := by
  induction hn : bs.length using Nat.strongRecOn generalizing bs with
  | ind n ih =>
    rcases front_cases bs with rfl | ⟨c, rest, rfl⟩ | ⟨b, rest, rfl, hfirst⟩
    · rfl
    · have hpos := c.utf8Size_pos
      have hlen : rest.length < n := by
        rw [List.length_append, String.length_utf8EncodeChar] at hn
        omega
      rw [runes_char, joined_cons, ih _ hlen rest rfl]
      rfl
    · have hlen : rest.length < n := by simp at hn; omega
      rw [runes_stray hfirst, joined_cons, ih _ hlen rest rfl]
      rfl

theorem encode_cons (c : Char) (cs : List Char) : encode (c :: cs) = String.utf8EncodeChar c ++ encode cs := rfl

theorem runes_encode (cs : List Char) : runes (encode cs) = cs.map .char := by
  induction cs with
  | nil => rfl
  | cons c cs ih => rw [encode_cons, runes_char, ih, List.map_cons]

theorem read_encode (cs : List Char) : read (encode cs) = cs := by
  rw [read, runes_encode, List.map_map]
  exact List.map_id cs

theorem valid_encode (cs : List Char) : Valid (encode cs) := congrArg encode (read_encode cs)

/-! ### Divisions -/

/-- Every stray byte is one, before the bytes that follow it. -/
def Divided : List Rune → Prop
  | [] => True
  | .char _ :: rs => Divided rs
  | .stray b :: rs => first (b :: joined rs) = none ∧ Divided rs

theorem divided_nil : Divided [] := trivial

theorem divided_char {c : Char} {rs : List Rune} : Divided (.char c :: rs) ↔ Divided rs := Iff.rfl

theorem divided_runes (bs : List UInt8) : Divided (runes bs) := by
  induction hn : bs.length using Nat.strongRecOn generalizing bs with
  | ind n ih =>
    rcases front_cases bs with rfl | ⟨c, rest, rfl⟩ | ⟨b, rest, rfl, hfirst⟩
    · trivial
    · have hpos := c.utf8Size_pos
      have hlen : rest.length < n := by
        rw [List.length_append, String.length_utf8EncodeChar] at hn
        omega
      rw [runes_char]
      exact ih _ hlen rest rfl
    · have hlen : rest.length < n := by simp at hn; omega
      rw [runes_stray hfirst]
      exact ⟨by rw [joined_runes]; exact hfirst, ih _ hlen rest rfl⟩

/-- **A division is that of its own bytes.** -/
theorem runes_joined {rs : List Rune} (h : Divided rs) : runes (joined rs) = rs := by
  induction rs with
  | nil => rfl
  | cons r rs ih =>
    cases r with
    | char c => exact (runes_char c _).trans (congrArg _ (ih h))
    | stray b => exact (runes_stray h.1).trans (congrArg _ (ih h.2))

theorem Divided.of_append {rs rs' : List Rune} (h : Divided (rs ++ rs')) : Divided rs' := by
  induction rs with
  | nil => exact h
  | cons r rs ih =>
    cases r with
    | char c => exact ih h
    | stray b => exact ih h.2

theorem divided_map_char (cs : List Char) {rs : List Rune} (h : Divided rs) : Divided (cs.map .char ++ rs) := by
  induction cs with
  | nil => exact h
  | cons c cs ih => exact ih

/-- Bytes that only continue a character. -/
def Continues (t : List UInt8) : Prop := ∀ b ∈ t, ¬ b.IsUTF8FirstByte

/-- `rs'` continues a character no further than `rs` does. -/
def GoesOn (rs' rs : List Rune) : Prop := ∀ t, Continues t → t <+: joined rs' → t <+: joined rs

/-- No character is continued by another one. -/
theorem goesOn_char (c : Char) (rs' rs : List Rune) : GoesOn (.char c :: rs') rs := by
  intro t ht hp
  cases t with
  | nil => exact List.nil_prefix
  | cons b t =>
    have hhead : (String.utf8EncodeChar c)[0]? = some b := by
      obtain ⟨s, hs⟩ := hp
      have hlen : 0 < (String.utf8EncodeChar c).length := by
        rw [String.length_utf8EncodeChar]
        exact c.utf8Size_pos
      have h0 := congrArg (·[0]?) hs
      simp only [joined_cons, Rune.bytes, List.cons_append, List.getElem?_cons_zero,
        List.getElem?_append_left hlen] at h0
      exact h0.symm
    obtain ⟨hlt, heq⟩ := List.getElem?_eq_some_iff.mp hhead
    exact absurd (heq ▸ UInt8.isUTF8FirstByte_getElem_utf8EncodeChar.mpr rfl) (ht b List.mem_cons_self)

theorem goesOn_stray (b : UInt8) {rs' rs : List Rune} (h : GoesOn rs' rs) :
    GoesOn (.stray b :: rs') (.stray b :: rs) := by
  intro t ht hp
  cases t with
  | nil => exact List.nil_prefix
  | cons b' t =>
    obtain ⟨rfl, htail⟩ := List.cons_prefix_cons.mp hp
    exact List.cons_prefix_cons.mpr ⟨rfl, h t (fun x hx => ht x (List.mem_cons_of_mem _ hx)) htail⟩

/-- A stray byte stays one before runes that go on no further. -/
theorem first_of_goesOn {b : UInt8} {rs' rs : List Rune} (h : GoesOn rs' rs) (hb : first (b :: joined rs) = none) :
    first (b :: joined rs') = none := by
  by_contra hne
  obtain ⟨c, hc⟩ := Option.ne_none_iff_exists'.mp hne
  obtain ⟨rest, hrest⟩ := eq_append_of_first hc
  cases henc : String.utf8EncodeChar c with
  | nil => exact absurd henc String.utf8EncodeChar_ne_nil
  | cons b' t =>
    rw [henc, List.cons_append] at hrest
    obtain ⟨rfl, htail⟩ := List.cons.inj hrest
    have ht : Continues t := by
      intro x hx
      obtain ⟨i, hi, rfl⟩ := List.getElem_of_mem hx
      have hlt : i + 1 < (String.utf8EncodeChar c).length := by
        rw [henc]
        simpa using hi
      have hget : (String.utf8EncodeChar c)[i + 1] = t[i] := by simp only [henc, List.getElem_cons_succ]
      rw [← hget, UInt8.isUTF8FirstByte_getElem_utf8EncodeChar]
      omega
    obtain ⟨s, hs⟩ := h t ht ⟨rest, htail.symm⟩
    have hfirst : first (b :: joined rs) = some c := by
      rw [← hs, ← List.cons_append, ← henc]
      exact first_char c s
    rw [hfirst] at hb
    exact absurd hb (by simp)

end PeerCall.Lib.Utf8

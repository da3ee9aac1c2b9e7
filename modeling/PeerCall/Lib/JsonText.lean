import PeerCall.Lib.Json

/-!
# Lib.JsonText — the grammar of JSON texts

`Text d cs j`: `cs` is a text of the value `j`, with blanks between the tokens but none around it.

* `value_text`: **what the reader accepts is a text** of the value that it returns.
* `Text.reads`: **a text is read** as its value, wherever it stands.

So what holds of every text that is accepted can be shown by induction over the grammar.
-/

namespace PeerCall.Lib.Json

/-! ### The grammar -/

/-- Nothing but blanks. -/
def Blank (ws : List Char) : Prop := ∀ c ∈ ws, isWs c = true

/-- The first unit of a surrogate pair. -/
abbrev High (u : ℕ) : Prop := 0xD800 ≤ u ∧ u < 0xDC00

/-- The second unit of a surrogate pair. -/
abbrev Low (u : ℕ) : Prop := 0xDC00 ≤ u ∧ u < 0xE000

/-- What comes first does not spell the second unit of a pair. -/
def NoLow (cs : List Char) : Prop :=
  ∀ a b c e rest v, cs = '\\' :: 'u' :: a :: b :: c :: e :: rest → hex4 a b c e = some v → ¬ Low v

/-- The text of a string after its opening quote, and the characters that it spells. -/
inductive StringText (d : Dialect) : List Char → List Char → Prop
  | close : StringText d ['"'] []
  | plain {c : Char} {cs s : List Char} : 0x20 ≤ c.toNat → c ≠ '"' → c ≠ '\\' → StringText d cs s →
    StringText d (c :: cs) (c :: s)
  | short {e c : Char} {cs s : List Char} : unescape e = some c → StringText d cs s →
    StringText d ('\\' :: e :: cs) (c :: s)
  | code {a b c e : Char} {u : ℕ} {cs s : List Char} : hex4 a b c e = some u → ¬ High u → ¬ Low u →
    StringText d cs s → StringText d ('\\' :: 'u' :: a :: b :: c :: e :: cs) (Char.ofNat u :: s)
  | pair {a b c e a' b' c' e' : Char} {u v : ℕ} {cs s : List Char} : hex4 a b c e = some u → High u →
    hex4 a' b' c' e' = some v → Low v → StringText d cs s →
    StringText d ('\\' :: 'u' :: a :: b :: c :: e :: '\\' :: 'u' :: a' :: b' :: c' :: e' :: cs)
      (Char.ofNat (0x10000 + (u - 0xD800) * 0x400 + (v - 0xDC00)) :: s)
  | lone {a b c e r : Char} {u : ℕ} {cs s : List Char} : hex4 a b c e = some u → High u ∨ Low u →
    (High u → NoLow cs) → d.lone = some r → StringText d cs s →
    StringText d ('\\' :: 'u' :: a :: b :: c :: e :: cs) (r :: s)

/-- The characters of numbers. -/
def NumberChar (c : Char) : Prop := c.isDigit = true ∨ c = '-' ∨ c = '+' ∨ c = '.' ∨ c = 'e' ∨ c = 'E'

structure NumberText (d : Dialect) (cs : List Char) (j : Json) : Prop where
  start : ∃ c cs', cs = c :: cs' ∧ (c.isDigit = true ∨ c = '-')
  chars : ∀ c ∈ cs, NumberChar c
  number_eq : ∀ rest, Ends rest → number d (cs ++ rest) = some (j, rest)

mutual

inductive Text (d : Dialect) : List Char → Json → Prop
  | null : Text d ['n', 'u', 'l', 'l'] .null
  | isTrue : Text d ['t', 'r', 'u', 'e'] (.bool true)
  | isFalse : Text d ['f', 'a', 'l', 's', 'e'] (.bool false)
  | number {cs : List Char} {j : Json} : NumberText d cs j → Text d cs j
  | string {cs s : List Char} : StringText d cs s → Text d ('"' :: cs) (.str (String.ofList s))
  | noElements {ws : List Char} : Blank ws → Text d ('[' :: (ws ++ [']'])) (.arr [])
  | elements {ws cs : List Char} {xs : List Json} : Blank ws → Elements d cs xs → Text d ('[' :: (ws ++ cs)) (.arr xs)
  | noMembers {ws : List Char} : Blank ws → Text d ('{' :: (ws ++ ['}'])) (.obj [])
  | members {ws cs : List Char} {ms : List Member} : Blank ws → Members d cs ms →
    Text d ('{' :: (ws ++ cs)) (.obj (ms.map fun m => (m.key, m.value)))

/-- The elements of an array that has some, and the closing bracket. -/
inductive Elements (d : Dialect) : List Char → List Json → Prop
  | last {cs ws : List Char} {x : Json} : Text d cs x → Blank ws → Elements d (cs ++ (ws ++ [']'])) [x]
  | next {cs ws ws' cs' : List Char} {x : Json} {xs : List Json} : Text d cs x → Blank ws → Blank ws' →
    Elements d cs' xs → Elements d (cs ++ (ws ++ ',' :: (ws' ++ cs'))) (x :: xs)

/-- The members of an object that has some, and the closing brace. -/
inductive Members (d : Dialect) : List Char → List Member → Prop
  | last {k key ws ws' cs ws'' : List Char} {j : Json} : StringText d k key → Blank ws → Blank ws' → Text d cs j →
    Blank ws'' →
    Members d ('"' :: (k ++ (ws ++ ':' :: (ws' ++ (cs ++ (ws'' ++ ['}'])))))) [⟨String.ofList key, cs, j⟩]
  | next {k key ws ws' cs ws'' ws₃ cs' : List Char} {j : Json} {ms : List Member} : StringText d k key → Blank ws →
    Blank ws' → Text d cs j → Blank ws'' → Blank ws₃ → Members d cs' ms →
    Members d ('"' :: (k ++ (ws ++ ':' :: (ws' ++ (cs ++ (ws'' ++ ',' :: (ws₃ ++ cs')))))))
      (⟨String.ofList key, cs, j⟩ :: ms)

end

section Grammar

variable {d : Dialect}

/-! ### Strings -/

/-- A character is put before a text. -/
theorem stringText_of_stringChar {cs r s rest : List Char} {c : Char} (h : stringChar d cs = some (c, r ++ rest))
    (hr : StringText d r s) : ∃ cs', cs = cs' ++ rest ∧ StringText d cs' (c :: s) := by
  unfold stringChar at h
  split at h
  · rename_i a b c' e cs
    obtain ⟨u, hu, h⟩ := Option.bind_eq_some_iff.mp h
    unfold unicode at h
    split_ifs at h with hhigh hlow
    · have hlone : ∀ x : Option (Char × List Char), x = d.lone.map (·, cs) → x = some (c, r ++ rest) → NoLow r →
          ∃ cs', '\\' :: 'u' :: a :: b :: c' :: e :: cs = cs' ++ rest ∧ StringText d cs' (c :: s) := by
        rintro x rfl hx hno
        obtain ⟨c₀, hc, heq⟩ := Option.map_eq_some_iff.mp hx
        obtain ⟨rfl, rfl⟩ := Prod.mk.inj heq
        exact ⟨'\\' :: 'u' :: a :: b :: c' :: e :: r, rfl, .lone hu (.inl hhigh) (fun _ => hno) hc hr⟩
      split at h
      · rename_i a' b' c'' e' rest'
        split at h
        · simp at h
        · rename_i v hv
          split_ifs at h with hlow
          · obtain ⟨rfl, rfl⟩ := Prod.mk.inj (Option.some.inj h)
            exact ⟨_, rfl, .pair hu hhigh hv hlow hr⟩
          · refine hlone _ rfl h ?_
            intro a₁ b₁ c₁ e₁ rest₁ v₁ hr₁ hv₁ hlow₁
            obtain ⟨c₀, -, heq⟩ := Option.map_eq_some_iff.mp h
            have htext := (Prod.mk.inj heq).2
            rw [hr₁] at htext
            simp only [List.cons_append, List.cons.injEq] at htext
            obtain ⟨-, -, rfl, rfl, rfl, rfl, -⟩ := htext
            rw [hv] at hv₁
            exact hlow (Option.some.inj hv₁ ▸ hlow₁)
      · rename_i hno
        refine hlone _ rfl h ?_
        intro a₁ b₁ c₁ e₁ rest₁ v₁ hr₁ hv₁ hlow₁
        obtain ⟨c₀, -, heq⟩ := Option.map_eq_some_iff.mp h
        have htext := (Prod.mk.inj heq).2
        rw [hr₁] at htext
        exact hno a₁ b₁ c₁ e₁ _ htext
    · obtain ⟨c₀, hc, heq⟩ := Option.map_eq_some_iff.mp h
      obtain ⟨rfl, rfl⟩ := Prod.mk.inj heq
      exact ⟨'\\' :: 'u' :: a :: b :: c' :: e :: r, rfl, .lone hu (.inr hlow) (fun hh => absurd hh hhigh) hc hr⟩
    · obtain ⟨rfl, rfl⟩ := Prod.mk.inj (Option.some.inj h)
      exact ⟨'\\' :: 'u' :: a :: b :: c' :: e :: r, rfl, .code hu hhigh hlow hr⟩
  · rename_i e cs _
    obtain ⟨c₀, hc, heq⟩ := Option.map_eq_some_iff.mp h
    obtain ⟨rfl, rfl⟩ := Prod.mk.inj heq
    exact ⟨'\\' :: e :: r, rfl, .short hc hr⟩
  · rename_i c₀ cs _ _
    split_ifs at h with hbad
    obtain ⟨rfl, rfl⟩ := Prod.mk.inj (Option.some.inj h)
    rw [not_or, not_or] at hbad
    exact ⟨c₀ :: r, rfl, .plain (by omega) hbad.2.1 hbad.2.2 hr⟩
  · simp at h

theorem stringBody_text {n : ℕ} {cs s rest : List Char} (h : stringBody d n cs = some (s, rest)) :
    ∃ cs', cs = cs' ++ rest ∧ StringText d cs' s := by
  induction n generalizing cs s with
  | zero => simp [stringBody] at h
  | succ n ih =>
    unfold stringBody at h
    split at h
    · obtain ⟨rfl, rfl⟩ := Prod.mk.inj (Option.some.inj h)
      exact ⟨['"'], rfl, .close⟩
    · obtain ⟨⟨c, r⟩, hc, h⟩ := Option.bind_eq_some_iff.mp h
      obtain ⟨⟨s', rest'⟩, hs, heq⟩ := Option.map_eq_some_iff.mp h
      obtain ⟨rfl, rfl⟩ := Prod.mk.inj heq
      obtain ⟨r', rfl, hr⟩ := ih hs
      exact stringText_of_stringChar hc hr

theorem string_text {cs rest : List Char} {s : String} (h : string d cs = some (s, rest)) :
    ∃ cs' s', cs = cs' ++ rest ∧ StringText d cs' s' ∧ s = String.ofList s' := by
  obtain ⟨⟨s', rest'⟩, hbody, heq⟩ := Option.map_eq_some_iff.mp h
  obtain ⟨rfl, rfl⟩ := Prod.mk.inj heq
  obtain ⟨cs', hcs, htext⟩ := stringBody_text hbody
  exact ⟨cs', s', hcs, htext, rfl⟩

/-- Before the rest of a string that does not complete it, the first unit of a pair is alone. -/
theorem StringText.unicode_high {cs s : List Char} (h : StringText d cs s) (hno : NoLow cs) {u : ℕ} (hu : High u)
    (rest : List Char) : unicode d u (cs ++ rest) = d.lone.map (·, cs ++ rest) := by
  have hhex : ∀ (a b c e : Char) (v : ℕ) (cs : List Char), hex4 a b c e = some v → ¬ Low v →
      unicode d u ('\\' :: 'u' :: a :: b :: c :: e :: cs) = d.lone.map (·, '\\' :: 'u' :: a :: b :: c :: e :: cs) := by
    intro a b c e v cs hv hlow
    unfold unicode
    rw [if_pos hu]
    simp only [hv]
    rw [if_neg hlow]
  cases h with
  | close =>
    unfold unicode
    rw [if_pos hu]
    rfl
  | @plain c cs s h20 hq hb hcs =>
    unfold unicode
    rw [if_pos hu]
    split
    · rename_i heq
      exact absurd (List.cons.inj heq).1 hb
    · rfl
  | @short e c cs s he hcs =>
    unfold unicode
    rw [if_pos hu]
    split
    · rename_i heq
      obtain rfl := (List.cons.inj (List.cons.inj heq).2).1
      exact absurd he (by simp [unescape])
    · rfl
  | code hv hhigh hlow hcs => exact hhex _ _ _ _ _ _ hv (hno _ _ _ _ _ _ rfl hv)
  | pair hv hhigh hv' hlow hcs => exact hhex _ _ _ _ _ _ hv (hno _ _ _ _ _ _ rfl hv)
  | lone hv hs hno' hr hcs => exact hhex _ _ _ _ _ _ hv (hno _ _ _ _ _ _ rfl hv)

theorem StringText.length_lt {cs s : List Char} (h : StringText d cs s) : s.length < cs.length := by
  induction h <;> simp only [List.length_cons, List.length_nil] at * <;> omega

/-- One character of a string's text is read. -/
theorem stringBody_cons {n : ℕ} {cs r s rest : List Char} {c : Char} (hc : stringChar d cs = some (c, r))
    (hr : stringBody d n r = some (s, rest)) : stringBody d (n + 1) cs = some (c :: s, rest) := by
  have hquote : ∀ rest', cs ≠ '"' :: rest' := by
    rintro rest' rfl
    simp [stringChar] at hc
  rw [stringBody, hc, Option.bind_some, hr]
  · rfl
  · exact hquote

theorem StringText.stringBody_eq {cs s : List Char} (h : StringText d cs s) (rest : List Char) (n : ℕ)
    (hn : s.length < n) : stringBody d n (cs ++ rest) = some (s, rest) := by
  induction h generalizing n with
  | close =>
    obtain ⟨n, rfl⟩ : ∃ m, n = m + 1 := ⟨n - 1, by omega⟩
    rfl
  | @plain c cs s h20 hq hb _ ih =>
    obtain ⟨n, rfl⟩ : ∃ m, n = m + 1 := ⟨n - 1, by omega⟩
    exact stringBody_cons (stringChar_raw h20 hq hb _) (ih n (by simpa using hn))
  | @short e c cs s he _ ih =>
    obtain ⟨n, rfl⟩ : ∃ m, n = m + 1 := ⟨n - 1, by omega⟩
    refine stringBody_cons (r := cs ++ rest) ?_ (ih n (by simpa using hn))
    unfold stringChar
    split
    · rename_i heq
      obtain rfl := (List.cons.inj (List.cons.inj heq).2).1
      exact absurd he (by simp [unescape])
    · rename_i heq
      simp only [List.cons_append, List.cons.injEq, true_and] at heq
      obtain ⟨rfl, rfl⟩ := heq
      rw [he]
      rfl
    · rename_i hne heq
      simp only [List.cons_append, List.cons.injEq] at heq
      obtain ⟨rfl, rfl⟩ := heq
      exact absurd rfl (hne _ _ rfl)
    · rename_i heq
      simp at heq
  | @code a b c e u cs s hu hhigh hlow _ ih =>
    obtain ⟨n, rfl⟩ : ∃ m, n = m + 1 := ⟨n - 1, by omega⟩
    refine stringBody_cons (r := cs ++ rest) ?_ (ih n (by simpa using hn))
    simp only [List.cons_append, stringChar, hu, Option.bind_some, unicode]
    rw [if_neg hhigh, if_neg hlow]
  | @pair a b c e a' b' c' e' u v cs s hu hhigh hv hlow _ ih =>
    obtain ⟨n, rfl⟩ : ∃ m, n = m + 1 := ⟨n - 1, by omega⟩
    refine stringBody_cons (r := cs ++ rest) ?_ (ih n (by simpa using hn))
    simp only [List.cons_append, stringChar, hu, hv, Option.bind_some, unicode]
    rw [if_pos hhigh, if_pos hlow]
  | @lone a b c e r u cs s hu hs hno hr htext ih =>
    obtain ⟨n, rfl⟩ : ∃ m, n = m + 1 := ⟨n - 1, by omega⟩
    refine stringBody_cons (r := cs ++ rest) ?_ (ih n (by simpa using hn))
    simp only [List.cons_append, stringChar, hu, Option.bind_some]
    rcases hs with hhigh | hlow
    · rw [htext.unicode_high (hno hhigh) hhigh, hr]
      rfl
    · unfold unicode
      rw [if_neg (by omega), if_pos hlow, hr]
      rfl

theorem StringText.string_eq {cs s : List Char} (h : StringText d cs s) (rest : List Char) :
    string d (cs ++ rest) = some (String.ofList s, rest) := by
  have hlt := h.length_lt
  rw [string, h.stringBody_eq rest _ (by rw [List.length_append]; omega)]
  rfl

/-! ### Numbers -/

theorem digits_text {cs ds rest : List Char} (h : digits cs = (ds, rest)) :
    cs = ds ++ rest ∧ ∀ c ∈ ds, c.isDigit = true := by
  obtain ⟨rfl, rfl⟩ := Prod.mk.inj h
  exact ⟨List.takeWhile_append_dropWhile.symm, fun c hc => List.mem_takeWhile_imp hc⟩

theorem stops_append {p q : List Char} (hp : Stops p) (hq : Stops q) : Stops (p ++ q) := by
  cases p with
  | nil => exact hq
  | cons c p => exact hp

/-- What `f` reads off the front of `cs` does not depend on what follows, as long as that is fine with it. -/
structure Piece {α : Type} (f : List Char → Option (α × List Char)) (Fine : List Char → Prop) (cs : List Char) (x : α)
    (rest : List Char) (p : List Char) : Prop where
  eq : cs = p ++ rest
  chars : ∀ c ∈ p, NumberChar c
  reads : ∀ rest', Fine rest' → f (p ++ rest') = some (x, rest')

theorem natPart_piece {cs rest : List Char} {n : ℕ} (h : natPart cs = some (n, rest)) :
    ∃ p, Piece natPart Stops cs n rest p ∧ ∃ c p', p = c :: p' ∧ c.isDigit = true := by
  unfold natPart at h
  split at h
  · obtain ⟨rfl, rfl⟩ := Prod.mk.inj (Option.some.inj h)
    exact ⟨['0'], ⟨rfl, by simp [NumberChar], fun rest' _ => rfl⟩, '0', [], rfl, rfl⟩
  · rename_i hzero
    split at h
    · simp at h
    · rename_i ds rest' hne hdigits
      obtain ⟨rfl, rfl⟩ := Prod.mk.inj (Option.some.inj h)
      obtain ⟨heq, hds⟩ := digits_text hdigits
      cases ds with
      | nil => exact absurd rfl hne
      | cons c ds =>
        refine ⟨c :: ds, ⟨heq, fun c' hc' => .inl (hds c' hc'), fun rest'' hstop => ?_⟩, c, ds, rfl,
          hds c List.mem_cons_self⟩
        unfold natPart
        split
        · rename_i r hr
          obtain rfl := (List.cons.inj hr).1
          exact absurd heq (hzero _)
        · rw [digits_append hds hstop]

theorem fraction_piece {cs rest ds : List Char} (h : fraction cs = some (ds, rest)) :
    ∃ p, Piece fraction (fun r => Stops r ∧ ∀ c ∈ r.head?, c ≠ '.') cs ds rest p ∧ Stops p := by
  unfold fraction at h
  split at h
  · split at h
    · simp at h
    · rename_i cs ds' rest' hne hdigits
      obtain ⟨rfl, rfl⟩ := Prod.mk.inj (Option.some.inj h)
      obtain ⟨rfl, hds⟩ := digits_text hdigits
      refine ⟨'.' :: ds', ⟨rfl, fun c hc => ?_, fun rest'' hr => ?_⟩, fun c hc => ?_⟩
      · rcases List.mem_cons.mp hc with rfl | hc
        · simp [NumberChar]
        · exact .inl (hds c hc)
      · rw [List.cons_append, fraction, digits_append hds hr.1]
        cases ds' with
        | nil => exact absurd rfl hne
        | cons c ds' => rfl
      · obtain rfl : '.' = c := by simpa using hc
        rfl
  · obtain ⟨rfl, rfl⟩ := Prod.mk.inj (Option.some.inj h)
    refine ⟨[], ⟨rfl, by simp, fun rest'' hr => ?_⟩, by simp [Stops]⟩
    unfold fraction
    split
    · rename_i heq
      rw [List.nil_append] at heq
      exact absurd rfl (hr.2 '.' (by rw [heq]; rfl))
    · rfl

theorem signed_piece {cs rest : List Char} {n : ℤ} (h : signed cs = some (n, rest)) :
    ∃ p, Piece signed Stops cs n rest p := by
  have hdigits : ∀ (sign : ℤ) (cs : List Char), signed.exponentDigits sign cs = some (n, rest) →
      ∃ p, Piece (signed.exponentDigits sign) Stops cs n rest p ∧ ∃ c p', p = c :: p' ∧ c.isDigit = true := by
    intro sign cs h
    unfold signed.exponentDigits at h
    split at h
    · simp at h
    · rename_i ds rest' hne hd
      obtain ⟨rfl, rfl⟩ := Prod.mk.inj (Option.some.inj h)
      obtain ⟨rfl, hds⟩ := digits_text hd
      cases ds with
      | nil => exact absurd rfl hne
      | cons c ds =>
        refine ⟨c :: ds, ⟨rfl, fun c hc => .inl (hds c hc), fun rest'' hr => ?_⟩, c, ds, rfl, hds c List.mem_cons_self⟩
        unfold signed.exponentDigits
        rw [digits_append hds hr]
  have hsigned : ∀ (c : Char) (cs : List Char) (sign : ℤ), NumberChar c →
      (∀ r, signed (c :: r) = signed.exponentDigits sign r) → signed.exponentDigits sign cs = some (n, rest) →
      ∃ p, Piece signed Stops (c :: cs) n rest p := by
    intro c cs sign hc hread h
    obtain ⟨p, ⟨rfl, hchars, hreads⟩, -⟩ := hdigits sign cs h
    refine ⟨c :: p, rfl, fun c' hc' => ?_, fun rest' hr => ?_⟩
    · rcases List.mem_cons.mp hc' with rfl | hc'
      · exact hc
      · exact hchars c' hc'
    · rw [List.cons_append, hread, hreads rest' hr]
  unfold signed at h
  split at h
  · exact hsigned '-' _ _ (by simp [NumberChar]) (fun _ => rfl) h
  · exact hsigned '+' _ _ (by simp [NumberChar]) (fun _ => rfl) h
  · obtain ⟨p, hp, c, p', rfl, hc⟩ := hdigits 1 cs h
    refine ⟨c :: p', hp.eq, hp.chars, fun rest' hr => ?_⟩
    rw [← hp.reads rest' hr, List.cons_append]
    unfold signed
    split
    · rename_i heq
      exact absurd (List.cons.inj heq).1 (ne_of_isDigit hc (by decide))
    · rename_i heq
      exact absurd (List.cons.inj heq).1 (ne_of_isDigit hc (by decide))
    · rfl

theorem exponent_piece {cs rest : List Char} {e : Option ℤ} (h : exponent cs = some (e, rest)) :
    ∃ p, Piece exponent Ends cs e rest p ∧ Stops p ∧ ∀ c ∈ p.head?, c ≠ '.' := by
  have hsigned : ∀ (c : Char) (cs : List Char), c = 'e' ∨ c = 'E' →
      (∀ r, exponent (c :: r) = (signed r).map fun x => (some x.1, x.2)) →
      ((signed cs).map fun x => (some x.1, x.2)) = some (e, rest) →
      ∃ p, Piece exponent Ends (c :: cs) e rest p ∧ Stops p ∧ ∀ c ∈ p.head?, c ≠ '.' := by
    intro c cs hc hread h
    obtain ⟨⟨n, rest'⟩, hn, heq⟩ := Option.map_eq_some_iff.mp h
    obtain ⟨rfl, rfl⟩ := Prod.mk.inj heq
    obtain ⟨p, rfl, hchars, hreads⟩ := signed_piece hn
    refine ⟨c :: p, ⟨rfl, fun c' hc' => ?_, fun rest'' hr => ?_⟩, fun c' hc' => ?_, fun c' hc' => ?_⟩
    · rcases List.mem_cons.mp hc' with rfl | hc'
      · rcases hc with rfl | rfl <;> simp [NumberChar]
      · exact hchars c' hc'
    · rw [List.cons_append, hread, hreads rest'' hr.stops]
      rfl
    · obtain rfl : c = c' := by simpa using hc'
      rcases hc with rfl | rfl <;> rfl
    · obtain rfl : c = c' := by simpa using hc'
      rcases hc with rfl | rfl <;> decide
  unfold exponent at h
  split at h
  · exact hsigned 'e' _ (.inl rfl) (fun _ => rfl) h
  · exact hsigned 'E' _ (.inr rfl) (fun _ => rfl) h
  · obtain ⟨rfl, rfl⟩ := Prod.mk.inj (Option.some.inj h)
    refine ⟨[], ⟨rfl, by simp, fun rest' hr => exponent_ends hr⟩, by simp [Stops], by simp⟩

theorem unsigned_piece {cs rest : List Char} {sign : ℤ} {j : Json} (h : unsigned d sign cs = some (j, rest)) :
    ∃ p, Piece (unsigned d sign) Ends cs j rest p ∧ ∃ c p', p = c :: p' ∧ c.isDigit = true := by
  simp only [unsigned, Option.bind_eq_bind, Option.bind_eq_some_iff, Prod.exists] at h
  obtain ⟨n, cs₁, hn, ds, cs₂, hds, e, cs₃, he, h⟩ := h
  split_ifs at h with hheld
  obtain ⟨rfl, rfl⟩ := Prod.mk.inj (Option.some.inj h)
  obtain ⟨p₁, ⟨rfl, hc₁, h₁⟩, c, p, rfl, hc⟩ := natPart_piece hn
  obtain ⟨p₂, ⟨rfl, hc₂, h₂⟩, hs₂⟩ := fraction_piece hds
  obtain ⟨p₃, ⟨rfl, hc₃, h₃⟩, hs₃, hpoint⟩ := exponent_piece he
  refine ⟨(c :: p) ++ (p₂ ++ p₃), ⟨by simp, fun c' hc' => ?_, fun rest' hr => ?_⟩, c, p ++ (p₂ ++ p₃), rfl, hc⟩
  · rcases List.mem_append.mp hc' with hc' | hc'
    · exact hc₁ c' hc'
    · exact (List.mem_append.mp hc').elim (hc₂ c') (hc₃ c')
  · have hstop : Stops (p₃ ++ rest') := stops_append hs₃ hr.stops
    have hnopoint : ∀ c ∈ (p₃ ++ rest').head?, c ≠ '.' := by
      cases p₃ with
      | nil => exact fun c hc => (hr c hc).2.1
      | cons c₃ p₃ => exact hpoint
    simp only [unsigned, List.append_assoc, h₁ (p₂ ++ (p₃ ++ rest')) (stops_append hs₂ hstop),
      h₂ (p₃ ++ rest') ⟨hstop, hnopoint⟩, h₃ rest' hr, Option.bind_eq_bind, Option.bind_some]
    rw [if_pos hheld]

theorem number_text {cs rest : List Char} {j : Json} (h : number d cs = some (j, rest)) :
    ∃ cs', cs = cs' ++ rest ∧ NumberText d cs' j := by
  unfold number at h
  split at h
  · obtain ⟨p, ⟨rfl, hchars, hreads⟩, -⟩ := unsigned_piece h
    refine ⟨'-' :: p, rfl, ⟨'-', p, rfl, .inr rfl⟩, fun c hc => ?_, fun rest' hr => hreads rest' hr⟩
    rcases List.mem_cons.mp hc with rfl | hc
    · simp [NumberChar]
    · exact hchars c hc
  · obtain ⟨p, ⟨rfl, hchars, hreads⟩, c, p', rfl, hc⟩ := unsigned_piece h
    refine ⟨c :: p', rfl, ⟨c, p', rfl, .inl hc⟩, hchars, fun rest' hr => ?_⟩
    rw [← hreads rest' hr, List.cons_append]
    unfold number
    split
    · rename_i heq
      exact absurd (List.cons.inj heq).1 (ne_of_isDigit hc (by decide))
    · rfl

/-! ### What the reader accepts -/

theorem skipWs_blank {ws : List Char} (h : Blank ws) (cs : List Char) : skipWs (ws ++ cs) = skipWs cs :=
  List.dropWhile_append_of_pos h

theorem skipWs_text (cs : List Char) : ∃ ws, Blank ws ∧ cs = ws ++ skipWs cs :=
  ⟨cs.takeWhile isWs, fun _ hc => List.mem_takeWhile_imp hc, List.takeWhile_append_dropWhile.symm⟩

/-- Blanks have been skipped. -/
theorem blank_eq_nil {ws cs cs' : List Char} (h : Blank ws) (heq : skipWs cs = ws ++ cs') : ws = [] := by
  cases ws with
  | nil => rfl
  | cons c ws =>
    have hhead : skipWs cs = c :: (ws ++ cs') := heq
    have hne : skipWs cs ≠ [] := by simp [hhead]
    have hnot : isWs ((skipWs cs).head hne) = false := List.head_dropWhile_not isWs hne
    simp only [hhead, List.head_cons, h c List.mem_cons_self] at hnot
    exact absurd hnot (by decide)

/-- A text after blanks. -/
def Follows (P : List Char → Prop) (cs rest : List Char) : Prop :=
  ∃ ws cs', Blank ws ∧ cs = ws ++ (cs' ++ rest) ∧ P cs'

theorem Follows.of_skipWs {P : List Char → Prop} {cs rest : List Char} (cs' : List Char)
    (h : skipWs cs = cs' ++ rest) (hP : P cs') : Follows P cs rest := by
  obtain ⟨ws, hws, hcs⟩ := skipWs_text cs
  rw [h] at hcs
  exact ⟨ws, cs', hws, hcs, hP⟩

/-- Blanks that have been skipped are blanks of the text. -/
theorem Follows.skipped {P : List Char → Prop} {cs rest : List Char} (h : Follows P (skipWs cs) rest) :
    Follows P cs rest := by
  obtain ⟨ws, cs', hws, hcs, hP⟩ := h
  obtain rfl := blank_eq_nil hws hcs
  exact .of_skipWs cs' hcs hP

/-- What is accepted with this fuel is a text of what is read. -/
structure Accepted (d : Dialect) (n : ℕ) : Prop where
  value : ∀ cs j rest, value d n cs = some (j, rest) → Follows (Text d · j) cs rest
  elements : ∀ cs xs rest, elements d n cs = some (xs, rest) → Follows (Elements d · xs) cs rest
  members : ∀ cs ms rest, members d n cs = some (ms, rest) → Follows (Members d · ms) cs rest

theorem Accepted.value_succ {n : ℕ} (ih : Accepted d n) {cs rest : List Char} {j : Json}
    (h : Json.value d (n + 1) cs = some (j, rest)) : Follows (Text d · j) cs rest := by
  unfold Json.value at h
  split at h
  · rename_i cs₁ hcs
    obtain ⟨⟨s, rest'⟩, hs, heq⟩ := Option.map_eq_some_iff.mp h
    obtain ⟨rfl, rfl⟩ := Prod.mk.inj heq
    obtain ⟨cs', s', rfl, htext, rfl⟩ := string_text hs
    exact .of_skipWs ('"' :: cs') hcs (.string htext)
  · rename_i cs₁ hcs
    split at h
    · rename_i rest' hclose
      obtain ⟨rfl, rfl⟩ := Prod.mk.inj (Option.some.inj h)
      obtain ⟨ws, hws, hcs₁⟩ := skipWs_text cs₁
      rw [hclose] at hcs₁
      exact .of_skipWs ('[' :: (ws ++ [']'])) (by rw [hcs, hcs₁]; simp) (.noElements hws)
    · obtain ⟨⟨xs, rest'⟩, hxs, heq⟩ := Option.map_eq_some_iff.mp h
      obtain ⟨rfl, rfl⟩ := Prod.mk.inj heq
      obtain ⟨ws, cs', hws, hcs₁, htext⟩ := (ih.elements _ _ _ hxs).skipped
      exact .of_skipWs ('[' :: (ws ++ cs')) (by rw [hcs, hcs₁]; simp) (.elements hws htext)
  · rename_i cs₁ hcs
    split at h
    · rename_i rest' hclose
      obtain ⟨rfl, rfl⟩ := Prod.mk.inj (Option.some.inj h)
      obtain ⟨ws, hws, hcs₁⟩ := skipWs_text cs₁
      rw [hclose] at hcs₁
      exact .of_skipWs ('{' :: (ws ++ ['}'])) (by rw [hcs, hcs₁]; simp) (.noMembers hws)
    · obtain ⟨⟨ms, rest'⟩, hms, heq⟩ := Option.map_eq_some_iff.mp h
      obtain ⟨rfl, rfl⟩ := Prod.mk.inj heq
      obtain ⟨ws, cs', hws, hcs₁, htext⟩ := (ih.members _ _ _ hms).skipped
      exact .of_skipWs ('{' :: (ws ++ cs')) (by rw [hcs, hcs₁]; simp) (.members hws htext)
  · rename_i rest' hcs
    obtain ⟨rfl, rfl⟩ := Prod.mk.inj (Option.some.inj h)
    exact .of_skipWs ['n', 'u', 'l', 'l'] hcs .null
  · rename_i rest' hcs
    obtain ⟨rfl, rfl⟩ := Prod.mk.inj (Option.some.inj h)
    exact .of_skipWs ['t', 'r', 'u', 'e'] hcs .isTrue
  · rename_i rest' hcs
    obtain ⟨rfl, rfl⟩ := Prod.mk.inj (Option.some.inj h)
    exact .of_skipWs ['f', 'a', 'l', 's', 'e'] hcs .isFalse
  · obtain ⟨cs', hcs, htext⟩ := number_text h
    exact .of_skipWs cs' hcs (.number htext)

theorem Accepted.elements_succ {n : ℕ} (ih : Accepted d n) {cs rest : List Char} {xs : List Json}
    (h : Json.elements d (n + 1) cs = some (xs, rest)) : Follows (Elements d · xs) cs rest := by
  unfold Json.elements at h
  obtain ⟨⟨x, cs₁⟩, hx, hmatch⟩ := Option.bind_eq_some_iff.mp h
  obtain ⟨ws, cs', hws, rfl, htext⟩ := ih.value _ _ _ hx
  obtain ⟨ws', hws', hcs₁⟩ := skipWs_text cs₁
  dsimp only at hmatch
  split at hmatch
  · rename_i rest₁ hcomma
    obtain ⟨⟨xs', rest'⟩, hxs, heq⟩ := Option.map_eq_some_iff.mp hmatch
    obtain ⟨rfl, rfl⟩ := Prod.mk.inj heq
    obtain ⟨ws'', cs'', hws'', rfl, htexts⟩ := ih.elements _ _ _ hxs
    exact ⟨ws, cs' ++ (ws' ++ ',' :: (ws'' ++ cs'')), hws, by rw [hcs₁, hcomma]; simp,
      .next htext hws' hws'' htexts⟩
  · rename_i rest₁ hclose
    obtain ⟨rfl, rfl⟩ := Prod.mk.inj (Option.some.inj hmatch)
    exact ⟨ws, cs' ++ (ws' ++ [']']), hws, by rw [hcs₁, hclose]; simp, .last htext hws'⟩
  · simp at hmatch

theorem Accepted.members_succ {n : ℕ} (ih : Accepted d n) {cs rest : List Char} {ms : List Member}
    (h : Json.members d (n + 1) cs = some (ms, rest)) : Follows (Members d · ms) cs rest := by
  unfold Json.members at h
  split at h
  · rename_i cs₁ hcs
    obtain ⟨⟨key, cs₂⟩, hkey, h⟩ := Option.bind_eq_some_iff.mp h
    obtain ⟨k, key, rfl, hk, rfl⟩ := string_text hkey
    obtain ⟨ws, hws, hcs₂⟩ := skipWs_text cs₂
    dsimp only at h
    split at h
    · rename_i cs₃ hcolon
      rw [hcolon] at hcs₂
      obtain ⟨⟨j, cs₄⟩, hj, h⟩ := Option.bind_eq_some_iff.mp h
      obtain ⟨ws', cs', hws', heq, htext⟩ := ih.value _ _ _ hj
      obtain rfl := blank_eq_nil hws' heq
      rw [List.nil_append] at heq
      obtain ⟨ws', hws', hcs₃⟩ := skipWs_text cs₃
      rw [heq] at hcs₃
      obtain ⟨ws'', hws'', hcs₄⟩ := skipWs_text cs₄
      have hraw : (skipWs cs₃).take ((skipWs cs₃).length - cs₄.length) = cs' := by
        rw [heq, List.length_append, Nat.add_sub_cancel, List.take_left]
      dsimp only at h
      rw [hraw] at h
      split at h
      · rename_i rest₁ hcomma
        obtain ⟨⟨ms', rest'⟩, hms, heq'⟩ := Option.map_eq_some_iff.mp h
        obtain ⟨rfl, rfl⟩ := Prod.mk.inj heq'
        obtain ⟨ws₃, cs'', hws₃, rfl, htexts⟩ := ih.members _ _ _ hms
        refine .of_skipWs ('"' :: (k ++ (ws ++ ':' :: (ws' ++ (cs' ++ (ws'' ++ ',' :: (ws₃ ++ cs'')))))))
          ?_ (.next hk hws hws' htext hws'' hws₃ htexts)
        rw [hcs, hcs₂, hcs₃, hcs₄, hcomma]
        simp
      · rename_i rest₁ hclose
        obtain ⟨rfl, rfl⟩ := Prod.mk.inj (Option.some.inj h)
        refine .of_skipWs ('"' :: (k ++ (ws ++ ':' :: (ws' ++ (cs' ++ (ws'' ++ ['}']))))))
          ?_ (.last hk hws hws' htext hws'')
        rw [hcs, hcs₂, hcs₃, hcs₄, hclose]
        simp
      · simp at h
    · simp at h
  · simp at h

theorem accepted (n : ℕ) : Accepted d n := by
  induction n with
  | zero => exact ⟨fun _ _ _ h => by simp [value] at h, fun _ _ _ h => by simp [elements] at h,
      fun _ _ _ h => by simp [members] at h⟩
  | succ n ih => exact ⟨fun _ _ _ => ih.value_succ, fun _ _ _ => ih.elements_succ, fun _ _ _ => ih.members_succ⟩

/-- **What the reader accepts is a text** of the value, after blanks. -/
theorem value_text {n : ℕ} {cs rest : List Char} {j : Json} (h : value d n cs = some (j, rest)) :
    Follows (Text d · j) cs rest := (accepted n).value cs j rest h

theorem members_text {n : ℕ} {cs rest : List Char} {ms : List Member} (h : members d n cs = some (ms, rest)) :
    Follows (Members d · ms) cs rest := (accepted n).members cs ms rest h

/-! ### Every text is read -/

/-- Blanks may stand before what ends a value. -/
theorem ends_blank {ws : List Char} (h : Blank ws) {c : Char} (hc : c = ',' ∨ c = ']' ∨ c = '}') (rest : List Char) :
    Ends (ws ++ c :: rest) := by
  cases ws with
  | nil => exact ends_cons hc rest
  | cons c' ws =>
    intro x hx
    obtain rfl : c' = x := by simpa using hx
    have hws := h c' List.mem_cons_self
    simp only [isWs, Bool.or_eq_true, decide_eq_true_eq] at hws
    rcases hws with ((rfl | rfl) | rfl) | rfl <;> decide

theorem skipWs_tokens {ws : List Char} (h : Blank ws) {c : Char} (hc : isWs c = false) (rest : List Char) :
    skipWs (ws ++ c :: rest) = c :: rest := by
  rw [skipWs_blank h, skipWs_cons hc]

theorem value_blank {ws : List Char} (h : Blank ws) (n : ℕ) (cs : List Char) : value d n (ws ++ cs) = value d n cs := by
  cases n with
  | zero => rw [value, value]
  | succ n => rw [value, value, skipWs_blank h]

theorem elements_blank {ws : List Char} (h : Blank ws) (n : ℕ) (cs : List Char) :
    elements d n (ws ++ cs) = elements d n cs := by
  cases n with
  | zero => rw [elements, elements]
  | succ n => rw [elements, elements, value_blank h]

theorem members_blank {ws : List Char} (h : Blank ws) (n : ℕ) (cs : List Char) :
    members d n (ws ++ cs) = members d n cs := by
  cases n with
  | zero => rw [members, members]
  | succ n => rw [members, members, skipWs_blank h]

/-- How an object goes on after the member `m`. -/
def afterMember (d : Dialect) (n : ℕ) (m : Member) : List Char → Option (List Member × List Char)
  | ',' :: rest => (members d n rest).map fun r => (m :: r.1, r.2)
  | '}' :: rest => some ([m], rest)
  | _ => none

section Member

variable {n : ℕ} {k key ws ws' cs ws'' : List Char} {j : Json} (hk : StringText d k key) (hws : Blank ws)
  (hws' : Blank ws') (h : Reads d cs j) (hn : cs.length ≤ n) (hws'' : Blank ws'')
include hk hws hws' h hn hws''

/-- A member is read up to the token after it. -/
theorem members_next {c : Char} (hc : c = ',' ∨ c = ']' ∨ c = '}') (rest : List Char) :
    members d (n + 1) ('"' :: (k ++ (ws ++ ':' :: (ws' ++ (cs ++ (ws'' ++ c :: rest)))))) =
      afterMember d n ⟨String.ofList key, cs, j⟩ (c :: rest) := by
  have hends : Ends (ws'' ++ c :: rest) := ends_blank hws'' hc rest
  have hnot : isWs c = false := by rcases hc with rfl | rfl | rfl <;> decide
  rw [members, skipWs_cons (by decide)]
  simp only [hk.string_eq, Option.bind_some]
  rw [skipWs_tokens hws (by decide)]
  simp only [skipWs_blank hws', h.skipWs, h.value_eq n _ hn hends, Option.bind_some, List.length_append,
    Nat.add_sub_cancel, List.take_left]
  rw [skipWs_tokens hws'' hnot]
  rfl

/-- A member before a comma, and the members after it. -/
theorem members_comma (rest : List Char) :
    members d (n + 1) ('"' :: (k ++ (ws ++ ':' :: (ws' ++ (cs ++ (ws'' ++ ',' :: rest)))))) =
      (members d n rest).map fun r => (⟨String.ofList key, cs, j⟩ :: r.1, r.2) :=
  members_next hk hws hws' h hn hws'' (.inl rfl) rest

/-- The last member, before the closing brace. -/
theorem members_brace (rest : List Char) :
    members d (n + 1) ('"' :: (k ++ (ws ++ ':' :: (ws' ++ (cs ++ (ws'' ++ '}' :: rest)))))) =
      some ([⟨String.ofList key, cs, j⟩], rest) :=
  members_next hk hws hws' h hn hws'' (.inr (.inr rfl)) rest

end Member

mutual

/-- **A text is read** as its value. -/
theorem Text.reads : ∀ {cs : List Char} {j : Json}, Text d cs j → Reads d cs j
  | _, _, .null => reads_null
  | _, _, .isTrue => reads_true
  | _, _, .isFalse => reads_false
  | _, _, .number h => reads_number h.start h.number_eq
  | _, _, .string h => reads_of (by decide) fun _ rest _ => by
    rw [value, skipWs_cons (by decide)]
    simp only [h.string_eq rest, Option.map_some]
  | _, _, .noElements hws => reads_of (by decide) fun _ rest _ => by
    rw [value, skipWs_cons (by decide), List.append_assoc]
    simp only [List.singleton_append, skipWs_tokens hws (show isWs ']' = false by decide)]
  | _, _, .elements hws h => reads_of (by decide) fun n rest hn => by
    have hread := h.reads
    obtain ⟨c, cs', rfl, hc, hclose⟩ := hread.start
    rw [value, skipWs_cons (by decide), List.append_assoc, List.cons_append]
    simp only [skipWs_tokens hws hc]
    split
    · rename_i heq
      exact absurd (List.cons.inj heq).1 hclose
    · rw [← List.cons_append, hread.elements_eq n rest (by simp at hn ⊢; omega), Option.map_some]
  | _, _, .noMembers hws => reads_of (by decide) fun _ rest _ => by
    rw [value, skipWs_cons (by decide), List.append_assoc]
    simp only [List.singleton_append, skipWs_tokens hws (show isWs '}' = false by decide)]
  | _, _, .members hws h => reads_of (by decide) fun n rest hn => by
    have hread := h.reads
    obtain ⟨cs', rfl⟩ := hread.start
    rw [value, skipWs_cons (by decide), List.append_assoc, List.cons_append]
    simp only [skipWs_tokens hws (show isWs '"' = false by decide)]
    split
    · rename_i heq
      exact absurd (List.cons.inj heq).1 (by decide)
    · rw [← List.cons_append, hread.members_eq n rest (by simp at hn ⊢; omega), Option.map_some]

theorem Elements.reads : ∀ {cs : List Char} {xs : List Json}, Elements d cs xs → ReadsElements d cs xs
  | _, _, .last h hws => by
    have hread := h.reads
    refine ⟨start_append hread.start _, fun n rest hn => ?_⟩
    obtain ⟨n, rfl⟩ : ∃ m, n = m + 1 := ⟨n - 1, by simp at hn; omega⟩
    rw [elements, List.append_assoc, List.append_assoc, List.singleton_append,
      hread.value_eq n _ (by simp at hn; omega) (ends_blank hws (by simp) _), Option.bind_some]
    simp only [skipWs_tokens hws (show isWs ']' = false by decide)]
  | _, _, .next h hws hws' h' => by
    have hread := h.reads
    have hreads := h'.reads
    refine ⟨start_append hread.start _, fun n rest hn => ?_⟩
    obtain ⟨n, rfl⟩ : ∃ m, n = m + 1 := ⟨n - 1, by simp at hn; omega⟩
    rw [elements, List.append_assoc, List.append_assoc, List.cons_append,
      hread.value_eq n _ (by simp at hn; omega) (ends_blank hws (by simp) _), Option.bind_some]
    simp only [skipWs_tokens hws (show isWs ',' = false by decide), List.append_assoc, elements_blank hws',
      hreads.elements_eq n rest (by simp at hn; omega), Option.map_some]

theorem Members.reads : ∀ {cs : List Char} {ms : List Member}, Members d cs ms → ReadsMembers d cs ms
  | _, _, .last hk hws hws' h hws'' => by
    have hread := h.reads
    refine ⟨⟨_, rfl⟩, fun n rest hn => ?_⟩
    obtain ⟨n, rfl⟩ : ∃ m, n = m + 1 := ⟨n - 1, by simp at hn; omega⟩
    simp only [List.cons_append, List.append_assoc, List.nil_append]
    exact members_brace hk hws hws' hread (by simp at hn; omega) hws'' rest
  | _, _, .next hk hws hws' h hws'' hws₃ h' => by
    have hread := h.reads
    have hreads := h'.reads
    refine ⟨⟨_, rfl⟩, fun n rest hn => ?_⟩
    obtain ⟨n, rfl⟩ : ∃ m, n = m + 1 := ⟨n - 1, by simp at hn; omega⟩
    simp only [List.cons_append, List.append_assoc]
    rw [members_comma hk hws hws' hread (by simp at hn; omega) hws'', members_blank hws₃,
      hreads.members_eq n rest (by simp at hn; omega), Option.map_some]

end

/-- The members of an object are texts of their own. -/
theorem Members.text {cs : List Char} {ms : List Member} (h : Members d cs ms) : ∀ m ∈ ms, Text d m.raw m.value := by
  intro m hm
  match h with
  | .last _ _ _ htext _ =>
    rw [List.mem_singleton.mp hm]
    exact htext
  | .next _ _ _ htext _ _ h' =>
    rcases List.mem_cons.mp hm with rfl | hm
    · exact htext
    · exact h'.text m hm

/-! ### Whole texts -/

/-- A whole text that is an object has the members that are read of it, each with a text of its own. -/
theorem parseMembers_text {cs : List Char} {ms : List Member} (h : parseMembers d cs = some ms) :
    parse d cs = some (.obj (ms.map fun m => (m.key, m.value))) ∧ ∀ m ∈ ms, Text d m.raw m.value := by
  unfold parseMembers at h
  split at h
  · rename_i cs₁ hcs
    split at h
    · rename_i rest hclose
      split_ifs at h with hend
      obtain rfl := Option.some.inj h
      refine ⟨?_, by simp⟩
      rw [parse, value, hcs]
      simp only [hclose, Option.bind_some, hend]
      rfl
    · rename_i cs₂ hopen
      obtain ⟨⟨ms', rest⟩, hms, hend⟩ := Option.bind_eq_some_iff.mp h
      dsimp only at hend
      split_ifs at hend with hatEnd
      obtain rfl := Option.some.inj hend
      obtain ⟨ws, cs', hws, heq, htext⟩ := members_text hms
      obtain rfl := blank_eq_nil hws heq
      rw [List.nil_append] at heq
      have hlen : cs'.length ≤ cs.length := by
        obtain ⟨ws₀, -, hcs₀⟩ := skipWs_text cs
        obtain ⟨ws₁, -, hcs₁⟩ := skipWs_text cs₁
        rw [hcs₀, hcs, hcs₁, heq]
        simp only [List.length_append, List.length_cons]
        omega
      refine ⟨?_, htext.text⟩
      rw [parse, value, hcs]
      simp only [heq] at hopen ⊢
      split
      · rename_i rest' hclose
        exact absurd hclose (hopen rest')
      · rw [htext.reads.members_eq _ rest hlen, Option.map_some, Option.bind_some, if_pos hatEnd]
  · simp at h

end Grammar

end PeerCall.Lib.Json

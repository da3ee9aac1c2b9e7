import PeerCall.Server.Relay
import PeerCall.Lib.JsonText
import PeerCall.Lib.Utf8

/-!
# Server.Lenient — `encoding/json` on bytes that need not be UTF-8

Go reads a text byte by byte.  What is not UTF-8 may stand inside of strings only; in a string that is decoded
it becomes U+FFFD, in a `json.RawMessage` it is kept.  So a text is handled here as the runes that its bytes
are divided into.

* `text_compact`: **compaction keeps the value** of any text, not only of printed ones.
* `divided_compact`: **compaction keeps the division** into runes, so that what is written is read as it was meant.
* `members_read`: runes are read as the characters that they stand for.
-/

namespace PeerCall.Lenient

open PeerCall.Lib Utf8 Relay

/-! ### Compaction -/

/-- Where a scanner stands. -/
inductive Scan
  | outside
  | inside
  | escaped
  deriving DecidableEq, Repr

namespace Scan

def next : Scan → Char → Scan
  | outside, c => if c = '"' then inside else outside
  | inside, c => if c = '"' then outside else if c = '\\' then escaped else inside
  | escaped, _ => inside

/-- Where it stands after a text. -/
def after (s : Scan) (cs : List Char) : Scan := cs.foldl next s

/-- What it writes for a character. -/
def writes (s : Scan) (c : Char) : List Char := if s = outside ∧ Json.isWs c = true then [] else compactChar c

/-- What it writes for a text. -/
def compact : Scan → List Char → List Char
  | _, [] => []
  | s, c :: cs => s.writes c ++ compact (s.next c) cs

/-- Outside of strings there is no U+FFFD. -/
def Contains : Scan → List Char → Prop
  | _, [] => True
  | s, c :: cs => (s = outside → c ≠ '\ufffd') ∧ Contains (s.next c) cs

theorem after_append (s : Scan) (as bs : List Char) : s.after (as ++ bs) = (s.after as).after bs := by
  simp [after]

theorem compact_append (s : Scan) (as bs : List Char) :
    s.compact (as ++ bs) = s.compact as ++ (s.after as).compact bs := by
  induction as generalizing s with
  | nil => rfl
  | cons c as ih =>
    rw [List.cons_append, compact, ih, compact, List.append_assoc]
    rfl

theorem contains_append {s : Scan} {as bs : List Char} :
    s.Contains (as ++ bs) ↔ s.Contains as ∧ (s.after as).Contains bs := by
  induction as generalizing s with
  | nil => exact ⟨fun h => ⟨trivial, h⟩, fun h => h.2⟩
  | cons c as ih =>
    show _ ∧ (s.next c).Contains (as ++ bs) ↔ _
    rw [ih, ← and_assoc]
    rfl

end Scan

/-- The compaction of `Relay`, which looks ahead after a backslash, is the scanner's. -/
theorem relay_compact (cs : List Char) :
    Relay.compact false cs = Scan.outside.compact cs ∧ Relay.compact true cs = Scan.inside.compact cs := by
  induction hn : cs.length using Nat.strongRecOn generalizing cs with
  | ind n ih =>
    cases cs with
    | nil => exact ⟨rfl, rfl⟩
    | cons c cs =>
      obtain ⟨ihout, ihin⟩ := ih cs.length (by simp at hn; omega) cs rfl
      constructor
      · by_cases hq : c = '"'
        · subst hq
          rw [Relay.compact, ihin]
          rfl
        · rw [Relay.compact, ihout]
          · have hnext : Scan.outside.next c = .outside := if_neg hq
            show _ = Scan.outside.writes c ++ (Scan.outside.next c).compact cs
            rw [hnext, Scan.writes]
            by_cases hws : Json.isWs c = true <;> simp [hws]
          · exact hq
      · by_cases hb : c = '\\'
        · subst hb
          cases cs with
          | nil => rfl
          | cons c cs =>
            obtain ⟨-, ihin'⟩ := ih cs.length (by simp at hn; omega) cs rfl
            rw [Relay.compact, ihin']
            rfl
        · by_cases hq : c = '"'
          · subst hq
            rw [Relay.compact, ihout]
            rfl
          · have hnext : Scan.inside.next c = .inside := (if_neg hq).trans (if_neg hb)
            rw [compact_inside hq hb, ihin]
            show _ = Scan.inside.writes c ++ (Scan.inside.next c).compact cs
            rw [hnext, Scan.writes, if_neg (by simp)]

/-! ### Compaction keeps the value -/

/-- What stands for itself outside of strings. -/
theorem compact_token {c : Char} (h : Plain c) (hc : c ≠ '\ufffd') (cs : List Char) :
    Scan.outside.compact (c :: cs) = c :: Scan.outside.compact cs ∧
      Scan.outside.after (c :: cs) = Scan.outside.after cs ∧
      (Scan.outside.Contains (c :: cs) ↔ Scan.outside.Contains cs) := by
  obtain ⟨hq, hws, hh⟩ := h
  have hnext : Scan.outside.next c = .outside := if_neg hq
  refine ⟨?_, ?_, ?_⟩
  · show Scan.outside.writes c ++ (Scan.outside.next c).compact cs = _
    rw [hnext, Scan.writes, if_neg (by simp [hws]), compactChar, if_neg (by simp [hh])]
    rfl
  · show (Scan.outside.next c).after cs = _
    rw [hnext]
  · show (_ → _) ∧ (Scan.outside.next c).Contains cs ↔ _
    rw [hnext]
    exact ⟨fun h => h.2, fun h => ⟨fun _ => hc, h⟩⟩

/-- A text is passed over outside of strings, as `cs'`. -/
structure Passes (cs cs' : List Char) : Prop where
  compact : Scan.outside.compact cs = cs'
  after : Scan.outside.after cs = .outside
  contains : Scan.outside.Contains cs

theorem Passes.append {as as' bs bs' : List Char} (ha : Passes as as') (hb : Passes bs bs') :
    Passes (as ++ bs) (as' ++ bs') := by
  refine ⟨?_, ?_, ?_⟩
  · rw [Scan.compact_append, ha.compact, ha.after, hb.compact]
  · rw [Scan.after_append, ha.after, hb.after]
  · rw [Scan.contains_append, ha.after]
    exact ⟨ha.contains, hb.contains⟩

theorem Passes.cons {c : Char} (h : Plain c) (hc : c ≠ '\ufffd') {cs cs' : List Char} (hcs : Passes cs cs') :
    Passes (c :: cs) (c :: cs') := by
  obtain ⟨hcompact, hafter, hcontains⟩ := compact_token h hc cs
  exact ⟨by rw [hcompact, hcs.compact], by rw [hafter, hcs.after], hcontains.mpr hcs.contains⟩

theorem passes_nil : Passes [] [] := ⟨rfl, rfl, trivial⟩

theorem passes_blank {ws : List Char} (h : Json.Blank ws) : Passes ws [] := by
  induction ws with
  | nil => exact passes_nil
  | cons c ws ih =>
    have hws := h c List.mem_cons_self
    obtain ⟨hcompact, hafter, hcontains⟩ := ih fun x hx => h x (List.mem_cons_of_mem _ hx)
    have hne : c ≠ '"' ∧ c ≠ '\ufffd' := by
      simp only [Json.isWs, Bool.or_eq_true, decide_eq_true_eq] at hws
      rcases hws with ((rfl | rfl) | rfl) | rfl <;> decide
    have hnext : Scan.outside.next c = .outside := if_neg hne.1
    refine ⟨?_, ?_, ?_⟩
    · show Scan.outside.writes c ++ (Scan.outside.next c).compact ws = []
      rw [hnext, Scan.writes, if_pos ⟨rfl, hws⟩, hcompact]
      rfl
    · show (Scan.outside.next c).after ws = _
      rw [hnext, hafter]
    · show _ ∧ (Scan.outside.next c).Contains ws
      rw [hnext]
      exact ⟨fun _ => hne.2, hcontains⟩

theorem passes_plain {cs : List Char} (h : (cs.all fun c => Plain c ∧ c ≠ '\ufffd') = true) : Passes cs cs := by
  induction cs with
  | nil => exact passes_nil
  | cons c cs ih =>
    rw [List.all_cons, Bool.and_eq_true, decide_eq_true_iff] at h
    exact .cons h.1.1 h.1.2 (ih h.2)

theorem plain_of_numberChar {c : Char} (h : Json.NumberChar c) : Plain c ∧ c ≠ '\ufffd' := by
  rcases h with h | rfl | rfl | rfl | rfl | rfl
  · exact ⟨plain_of_isDigit h, Json.ne_of_isDigit h (by decide)⟩
  all_goals decide

/-- The rest of a string is passed over, as `cs'`. -/
structure Closes (cs cs' : List Char) : Prop where
  compact : Scan.inside.compact cs = cs'
  after : Scan.inside.after cs = .outside
  contains : Scan.inside.Contains cs

theorem Closes.plain {c : Char} (hq : c ≠ '"') (hb : c ≠ '\\') {cs cs' : List Char} (h : Closes cs cs') :
    Closes (c :: cs) (compactChar c ++ cs') := by
  have hnext : Scan.inside.next c = .inside := (if_neg hq).trans (if_neg hb)
  refine ⟨?_, ?_, ?_⟩
  · show Scan.inside.writes c ++ (Scan.inside.next c).compact cs = _
    rw [hnext, Scan.writes, if_neg (by simp), h.compact]
  · show (Scan.inside.next c).after cs = _
    rw [hnext, h.after]
  · show _ ∧ (Scan.inside.next c).Contains cs
    rw [hnext]
    exact ⟨fun h => absurd h (by decide), h.contains⟩

theorem Closes.escape {e : Char} (hh : isHtml e = false) {cs cs' : List Char} (h : Closes cs cs') :
    Closes ('\\' :: e :: cs) ('\\' :: e :: cs') := by
  refine ⟨?_, h.after, fun h => absurd h (by decide), fun h => absurd h (by decide), h.contains⟩
  show '\\' :: (Scan.escaped.writes e ++ Scan.inside.compact cs) = _
  rw [Scan.writes, if_neg (by simp), compactChar, if_neg (by simp [hh]), h.compact]
  rfl

/-- A hexadecimal digit is written as it is. -/
theorem compactChar_hex {c : Char} {v : ℕ} (h : Json.hexVal c = some v) :
    c ≠ '"' ∧ c ≠ '\\' ∧ compactChar c = [c] := by
  have hne : ∀ c' : Char, Json.hexVal c' = none → c ≠ c' := by
    rintro c' hc' rfl
    rw [h] at hc'
    exact absurd hc' (by simp)
  refine ⟨hne _ (by decide), hne _ (by decide), if_neg ?_⟩
  simp only [isHtml, Bool.or_eq_true, decide_eq_true_eq, not_or]
  exact ⟨⟨⟨⟨hne _ (by decide), hne _ (by decide)⟩, hne _ (by decide)⟩, hne _ (by decide)⟩, hne _ (by decide)⟩

theorem Closes.hex {a b c e : Char} {u : ℕ} (hu : Json.hex4 a b c e = some u) {cs cs' : List Char} (h : Closes cs cs') :
    Closes ('\\' :: 'u' :: a :: b :: c :: e :: cs) ('\\' :: 'u' :: a :: b :: c :: e :: cs') := by
  simp only [Json.hex4, Option.bind_eq_bind, Option.bind_eq_some_iff] at hu
  obtain ⟨va, ha, vb, hb, vc, hc, ve, he, -⟩ := hu
  have hdigit : ∀ {x : Char} {v : ℕ} {cs cs' : List Char}, Json.hexVal x = some v → Closes cs cs' →
      Closes (x :: cs) (x :: cs') := by
    intro x v cs cs' hx hcs
    obtain ⟨hq, hb, hw⟩ := compactChar_hex hx
    have hplain := hcs.plain hq hb
    rw [hw] at hplain
    exact hplain
  exact .escape (by decide) (hdigit ha (hdigit hb (hdigit hc (hdigit he h))))

theorem noLow_of_ne {c : Char} (hb : c ≠ '\\') (cs : List Char) : Json.NoLow (c :: cs) := by
  intro a b c' e rest v heq _
  exact absurd (List.cons.inj heq).1 hb

theorem noLow_short {e : Char} (he : e ≠ 'u') (cs : List Char) : Json.NoLow ('\\' :: e :: cs) := by
  intro a b c' e' rest v heq _
  exact absurd (List.cons.inj (List.cons.inj heq).2).1 he

theorem noLow_hex {a b c e : Char} {u : ℕ} (hu : Json.hex4 a b c e = some u) (hlow : ¬ Json.Low u) (cs : List Char) :
    Json.NoLow ('\\' :: 'u' :: a :: b :: c :: e :: cs) := by
  intro a' b' c' e' rest v heq hv
  simp only [List.cons.injEq, true_and] at heq
  obtain ⟨rfl, rfl, rfl, rfl, -⟩ := heq
  rw [hu] at hv
  exact Option.some.inj hv ▸ hlow

/-- Compaction keeps what a string spells; it does not complete a surrogate pair either. -/
theorem string_compact {cs s : List Char} (h : Json.StringText goDialect cs s) :
    ∃ cs', Closes cs cs' ∧ Json.StringText goDialect cs' s ∧ (Json.NoLow cs → Json.NoLow cs') := by
  induction h with
  | close => exact ⟨['"'], ⟨rfl, rfl, fun h => absurd h (by decide), trivial⟩, .close, id⟩
  | @plain c cs s h20 hq hb _ ih =>
    obtain ⟨cs', hcloses, htext, -⟩ := ih
    refine ⟨_, hcloses.plain hq hb, ?_⟩
    unfold compactChar
    split_ifs with hh
    · have hsmall : c.toNat < 0x10000 ∧ c.toNat < 0xD800 := by
        simp only [isHtml, Bool.or_eq_true, decide_eq_true_eq] at hh
        rcases hh with (((rfl | rfl) | rfl) | rfl) | rfl <;> decide
      have hhex := Json.hex4_unicodeEscape hsmall.1
      have hcode := Json.StringText.code hhex (by omega) (by omega) htext
      rw [Char.ofNat_toNat] at hcode
      exact ⟨hcode, fun _ => noLow_hex hhex (by omega) _⟩
    · exact ⟨.plain h20 hq hb htext, fun _ => noLow_of_ne hb _⟩
  | @short e c cs s he _ ih =>
    obtain ⟨cs', hcloses, htext, -⟩ := ih
    have hne : ∀ e' : Char, Json.unescape e' = none → e ≠ e' := by
      rintro e' he' rfl
      rw [he] at he'
      exact absurd he' (by simp)
    have hhtml : isHtml e = false := by
      simp only [isHtml, Bool.or_eq_false_iff, decide_eq_false_iff_not]
      exact ⟨⟨⟨⟨hne _ (by simp [Json.unescape]), hne _ (by simp [Json.unescape])⟩, hne _ (by simp [Json.unescape])⟩,
        hne _ (by simp [Json.unescape])⟩, hne _ (by simp [Json.unescape])⟩
    exact ⟨_, hcloses.escape hhtml, .short he htext, fun _ => noLow_short (hne _ (by simp [Json.unescape])) _⟩
  | code hu hhigh hlow _ ih =>
    obtain ⟨cs', hcloses, htext, -⟩ := ih
    exact ⟨_, hcloses.hex hu, .code hu hhigh hlow htext, fun _ => noLow_hex hu hlow _⟩
  | pair hu hhigh hv hlow _ ih =>
    obtain ⟨cs', hcloses, htext, -⟩ := ih
    exact ⟨_, (hcloses.hex hv).hex hu, .pair hu hhigh hv hlow htext, fun _ => noLow_hex hu (by omega) _⟩
  | lone hu hs hno hr _ ih =>
    obtain ⟨cs', hcloses, htext, hkeep⟩ := ih
    exact ⟨_, hcloses.hex hu, .lone hu hs (fun hh => hkeep (hno hh)) hr htext,
      fun h => noLow_hex hu (h _ _ _ _ _ _ rfl hu) _⟩

theorem Closes.passes {cs cs' : List Char} (h : Closes cs cs') : Passes ('"' :: cs) ('"' :: cs') := by
  refine ⟨?_, h.after, fun _ => by decide, h.contains⟩
  show '"' :: Scan.inside.compact cs = _
  rw [h.compact]

/-- A key and a value with what stands between and after them, up to `cs`. -/
theorem passes_member {k k' ws ws' v v' ws'' cs cs' : List Char} (hk : Closes k k') (hws : Json.Blank ws)
    (hws' : Json.Blank ws') (hv : Passes v v') (hws'' : Json.Blank ws'') (hcs : Passes cs cs') :
    Passes ('"' :: (k ++ (ws ++ ':' :: (ws' ++ (v ++ (ws'' ++ cs))))))
      ('"' :: (k' ++ ([] ++ ':' :: ([] ++ (v' ++ ([] ++ cs')))))) := by
  have hvalue := (passes_blank hws').append (hv.append ((passes_blank hws'').append hcs))
  exact hk.passes.append ((passes_blank hws).append (hvalue.cons (by decide) (by decide)))

theorem blank_nil : Json.Blank [] := by simp [Json.Blank]

mutual

/-- **Compaction keeps the value** of a text. -/
theorem text_compact : ∀ {cs : List Char} {j : Json}, Json.Text goDialect cs j →
    ∃ cs', Passes cs cs' ∧ Json.Text goDialect cs' j
  | _, _, .null => ⟨_, passes_plain (by decide), .null⟩
  | _, _, .isTrue => ⟨_, passes_plain (by decide), .isTrue⟩
  | _, _, .isFalse => ⟨_, passes_plain (by decide), .isFalse⟩
  | _, _, .number h =>
    have hplain := List.all_eq_true.mpr fun c hc => decide_eq_true (plain_of_numberChar (h.chars c hc))
    ⟨_, passes_plain hplain, .number h⟩
  | _, _, .string h =>
    have ⟨_, hcloses, htext, _⟩ := string_compact h
    ⟨_, hcloses.passes, .string htext⟩
  | _, _, .noElements hws =>
    ⟨_, ((passes_blank hws).append (passes_nil.cons (by decide) (by decide))).cons (by decide) (by decide),
      .noElements blank_nil⟩
  | _, _, .elements hws h =>
    have ⟨_, hpasses, htext⟩ := elements_compact h
    ⟨_, ((passes_blank hws).append hpasses).cons (by decide) (by decide), .elements blank_nil htext⟩
  | _, _, .noMembers hws =>
    ⟨_, ((passes_blank hws).append (passes_nil.cons (by decide) (by decide))).cons (by decide) (by decide),
      .noMembers blank_nil⟩
  | _, _, .members hws h => by
    obtain ⟨cs', ms', hpasses, htext, hms⟩ := members_compact h
    rw [← hms]
    exact ⟨_, ((passes_blank hws).append hpasses).cons (by decide) (by decide), .members blank_nil htext⟩

theorem elements_compact : ∀ {cs : List Char} {xs : List Json}, Json.Elements goDialect cs xs →
    ∃ cs', Passes cs cs' ∧ Json.Elements goDialect cs' xs
  | _, _, .last h hws =>
    have ⟨_, hpasses, htext⟩ := text_compact h
    ⟨_, hpasses.append ((passes_blank hws).append (passes_nil.cons (by decide) (by decide))), .last htext blank_nil⟩
  | _, _, .next h hws hws' h' =>
    have ⟨_, hpasses, htext⟩ := text_compact h
    have ⟨_, hpasses', htext'⟩ := elements_compact h'
    ⟨_, hpasses.append ((passes_blank hws).append
      (((passes_blank hws').append hpasses').cons (by decide) (by decide))), .next htext blank_nil blank_nil htext'⟩

theorem members_compact : ∀ {cs : List Char} {ms : List Json.Member}, Json.Members goDialect cs ms →
    ∃ cs' ms', Passes cs cs' ∧ Json.Members goDialect cs' ms' ∧
      ms'.map (fun m => (m.key, m.value)) = ms.map fun m => (m.key, m.value)
  | _, _, .last hk hws hws' h hws'' =>
    have ⟨_, hcloses, hkey, _⟩ := string_compact hk
    have ⟨_, hpasses, htext⟩ := text_compact h
    ⟨_, _, passes_member hcloses hws hws' hpasses hws'' (passes_nil.cons (by decide) (by decide)),
      .last hkey blank_nil blank_nil htext blank_nil, rfl⟩
  | _, _, .next hk hws hws' h hws'' hws₃ h' => by
    obtain ⟨k', hcloses, hkey, -⟩ := string_compact hk
    obtain ⟨v', hpasses, htext⟩ := text_compact h
    obtain ⟨cs', ms', hpasses', htext', hms⟩ := members_compact h'
    refine ⟨_, _, passes_member hcloses hws hws' hpasses hws''
      (((passes_blank hws₃).append hpasses').cons (by decide) (by decide)),
      .next hkey blank_nil blank_nil htext blank_nil blank_nil htext', ?_⟩
    rw [List.map_cons, List.map_cons, hms]

end

/-! ### Compaction of runes -/

/-- A text, as runes. -/
def text (cs : List Char) : List Rune := cs.map .char

/-- What is written for a rune: a stray byte passes. -/
def writes (s : Scan) : Rune → List Rune
  | .char c => text (s.writes c)
  | .stray b => [.stray b]

/-- `compact`, with the bytes that are no UTF-8. -/
def compactRunes : Scan → List Rune → List Rune
  | _, [] => []
  | s, r :: rs => writes s r ++ compactRunes (s.next r.read) rs

theorem read_text (cs : List Char) : (text cs).map Rune.read = cs := by
  rw [text, List.map_map]
  exact List.map_id cs

/-- What is written is read as the compaction of what is read. -/
theorem compactRunes_read (s : Scan) (rs : List Rune) :
    (compactRunes s rs).map Rune.read = s.compact (rs.map Rune.read) := by
  induction rs generalizing s with
  | nil => rfl
  | cons r rs ih =>
    have hr : (writes s r).map Rune.read = s.writes r.read := by
      cases r with
      | char c => exact read_text _
      | stray b =>
        have hstray : s.writes '\ufffd' = ['\ufffd'] := by cases s <;> decide
        exact hstray.symm
    rw [compactRunes, List.map_append, hr, ih]
    rfl

/-- Only blanks outside of strings are dropped. -/
theorem writes_ne_nil {s : Scan} (hs : s ≠ .outside) (c : Char) : ∃ c' cs, s.writes c = c' :: cs := by
  rw [Scan.writes, if_neg (fun h => hs h.1)]
  unfold compactChar
  split_ifs
  · exact ⟨_, _, rfl⟩
  · exact ⟨_, _, rfl⟩

/-- **Compaction keeps the division**: where stray bytes are inside of strings only, what is written is divided
as it is written, before anything that starts with a character. -/
theorem divided_compact {c : Char} {tail tail' : List Rune} (htail : Divided (.char c :: tail)) {s : Scan}
    {rs : List Rune} (hs : s.Contains (rs.map Rune.read)) (h : Divided (rs ++ tail')) :
    Divided (compactRunes s rs ++ .char c :: tail) ∧
      (s ≠ .outside → GoesOn (compactRunes s rs ++ .char c :: tail) (rs ++ tail')) := by
  induction rs generalizing s with
  | nil => exact ⟨htail, fun _ => goesOn_char c tail _⟩
  | cons r rs ih =>
    rw [compactRunes, List.append_assoc]
    cases r with
    | char c' =>
      obtain ⟨hdivided, -⟩ := ih hs.2 h
      refine ⟨divided_map_char _ hdivided, fun hne => ?_⟩
      obtain ⟨c₁, cs₁, hw⟩ := writes_ne_nil hne c'
      rw [writes, hw]
      exact goesOn_char c₁ _ _
    | stray b =>
      have hne : s ≠ .outside := fun hs' => hs.1 hs' rfl
      have hnext : s.next '\ufffd' ≠ .outside := by
        cases s with
        | outside => exact absurd rfl hne
        | inside => decide
        | escaped => decide
      obtain ⟨hdivided, hgoes⟩ := ih hs.2 h.2
      exact ⟨⟨first_of_goesOn (hgoes hnext) h.1, hdivided⟩, fun _ => goesOn_stray b (hgoes hnext)⟩

/-! ### Reading runes -/

/-- A reader of characters, on runes. -/
def lift {α : Type} (f : List Char → Option (α × List Char)) (rs : List Rune) : Option (α × List Rune) :=
  (f (rs.map Rune.read)).map fun r => (r.1, rs.drop (rs.length - r.2.length))

def skipWs (rs : List Rune) : List Rune := rs.dropWhile fun r => Json.isWs r.read

/-- A member of an object, with the text of its value as it came. -/
structure Member where
  key : String
  raw : List Rune
  value : Json

/-- The members of an object that has some, up to its closing brace. -/
def members : ℕ → List Rune → Option (List Member × List Rune)
  | 0, _ => none
  | n + 1, rs =>
    match skipWs rs with
    | .char '"' :: rs =>
      (lift (Json.string goDialect) rs).bind fun k =>
        match skipWs k.2 with
        | .char ':' :: rs =>
          (lift (Json.value goDialect n) (skipWs rs)).bind fun r =>
            let m : Member := ⟨k.1, (skipWs rs).take ((skipWs rs).length - r.2.length), r.1⟩
            match skipWs r.2 with
            | .char ',' :: rest => (members n rest).map fun r' => (m :: r'.1, r'.2)
            | .char '}' :: rest => some ([m], rest)
            | _ => none
        | _ => none
    | _ => none

/-- A whole text that is an object, with the texts of its members. -/
def parseMembers (rs : List Rune) : Option (List Member) :=
  match skipWs rs with
  | .char '{' :: rs =>
    match skipWs rs with
    | .char '}' :: rest => if Json.atEnd goDialect (rest.map Rune.read) then some [] else none
    | rs => (members (rs.length + 1) rs).bind fun r =>
      if Json.atEnd goDialect (r.2.map Rune.read) then some r.1 else none
  | _ => none

def Member.view (m : Member) : Json.Member := ⟨m.key, m.raw.map Rune.read, m.value⟩

theorem skipWs_read (rs : List Rune) : (skipWs rs).map Rune.read = Json.skipWs (rs.map Rune.read) := by
  rw [skipWs, Json.skipWs, List.dropWhile_map]
  rfl

/-- Only a character is read as one other than U+FFFD. -/
theorem eq_char_of_read {r : Rune} {c : Char} (h : r.read = c) (hc : c ≠ '\ufffd') : r = .char c := by
  cases r with
  | char c' => exact congrArg Rune.char h
  | stray b => exact absurd h.symm hc

/-- The character comes first, or it does for neither reader. -/
theorem front {c : Char} (hc : c ≠ '\ufffd') (rs : List Rune) :
    (∃ rs', rs = .char c :: rs') ∨ (∀ rs', rs ≠ .char c :: rs') ∧ ∀ cs, rs.map Rune.read ≠ c :: cs := by
  cases rs with
  | nil => exact .inr ⟨by simp, by simp⟩
  | cons r rs =>
    by_cases hr : r.read = c
    · exact .inl ⟨rs, by rw [eq_char_of_read hr hc]⟩
    · refine .inr ⟨fun rs' heq => hr ?_, fun cs heq => hr (List.cons.inj heq).1⟩
      rw [(List.cons.inj heq).1]
      rfl

/-- `f` reads something off the front. -/
def ReadsOff {α : Type} (f : List Char → Option (α × List Char)) : Prop :=
  ∀ cs x rest, f cs = some (x, rest) → ∃ p, cs = p ++ rest

theorem readsOff_string : ReadsOff (Json.string goDialect) := by
  intro cs s rest h
  obtain ⟨cs', -, heq, -⟩ := Json.string_text h
  exact ⟨cs', heq⟩

theorem readsOff_value (n : ℕ) : ReadsOff (Json.value goDialect n) := by
  intro cs j rest h
  obtain ⟨ws, cs', -, heq, -⟩ := Json.value_text h
  exact ⟨ws ++ cs', by rw [heq, List.append_assoc]⟩

/-- A reader on runes reads the same, and leaves the runes of what it leaves. -/
theorem lift_read {α : Type} {f : List Char → Option (α × List Char)} (hf : ReadsOff f) (rs : List Rune) :
    (lift f rs).map (fun r => (r.1, r.2.map Rune.read)) = f (rs.map Rune.read) := by
  unfold lift
  cases h : f (rs.map Rune.read) with
  | none => rfl
  | some r =>
    obtain ⟨x, rest⟩ := r
    obtain ⟨p, hp⟩ := hf _ _ _ h
    have hlen : rs.length - rest.length = p.length := by
      have := congrArg List.length hp
      rw [List.length_map, List.length_append] at this
      omega
    have hdrop : (rs.drop (rs.length - rest.length)).map Rune.read = rest := by
      rw [List.map_drop, hp, hlen, List.drop_left]
    simp only [Option.map_some, hdrop]

/-- What is read of runes, as it is read of characters. -/
def seen (r : List Member × List Rune) : List Json.Member × List Char := (r.1.map Member.view, r.2.map Rune.read)

theorem members_read (n : ℕ) (rs : List Rune) :
    (members n rs).map seen = Json.members goDialect n (rs.map Rune.read) := by
  induction n generalizing rs with
  | zero => rw [members, Json.members]; rfl
  | succ n ih =>
    rw [members, Json.members, ← skipWs_read]
    rcases front (c := '"') (by decide) (skipWs rs) with ⟨rs₁, hrs₁⟩ | ⟨hno, hno'⟩
    · rw [hrs₁, List.map_cons]
      simp only [Rune.read]
      rw [← lift_read readsOff_string]
      cases lift (Json.string goDialect) rs₁ with
      | none => rfl
      | some k =>
        simp only [Option.bind_some, Option.map_some]
        rw [← skipWs_read]
        rcases front (c := ':') (by decide) (skipWs k.2) with ⟨rs₂, hrs₂⟩ | ⟨hno, hno'⟩
        · rw [hrs₂, List.map_cons]
          simp only [Rune.read]
          rw [← skipWs_read, ← lift_read (readsOff_value n)]
          cases hv : lift (Json.value goDialect n) (skipWs rs₂) with
          | none => rfl
          | some r =>
            simp only [Option.bind_some, Option.map_some]
            have hm : Member.view ⟨k.1, (skipWs rs₂).take ((skipWs rs₂).length - r.2.length), r.1⟩ =
                ⟨k.1, ((skipWs rs₂).map Rune.read).take (((skipWs rs₂).map Rune.read).length -
                  (r.2.map Rune.read).length), r.1⟩ := by
              rw [Member.view, List.map_take, List.length_map, List.length_map]
            rw [← skipWs_read]
            rcases front (c := ',') (by decide) (skipWs r.2) with ⟨rest, hrest⟩ | ⟨hcomma, hcomma'⟩
            · rw [hrest, List.map_cons]
              simp only [Rune.read]
              rw [← ih rest]
              cases members n rest with
              | none => rfl
              | some r' => simp only [Option.map_some, seen, List.map_cons, hm]
            · rcases front (c := '}') (by decide) (skipWs r.2) with ⟨rest, hrest⟩ | ⟨hbrace, hbrace'⟩
              · rw [hrest, List.map_cons]
                simp only [Rune.read, Option.map_some, seen, List.map_cons, List.map_nil, hm]
              · -- neither reader finds a comma or a brace: both give up
                simp only [Option.map_none]
        · simp only [Option.map_none]
    · simp only [Option.map_none]

/-- The members of a whole text, as they are read of its characters. -/
theorem parseMembers_read (rs : List Rune) :
    (parseMembers rs).map (List.map Member.view) = Json.parseMembers goDialect (rs.map Rune.read) := by
  rw [parseMembers, Json.parseMembers, ← skipWs_read]
  rcases front (c := '{') (by decide) (skipWs rs) with ⟨rs₁, hrs₁⟩ | ⟨hno, hno'⟩
  · rw [hrs₁, List.map_cons]
    simp only [Rune.read]
    rw [← skipWs_read]
    rcases front (c := '}') (by decide) (skipWs rs₁) with ⟨rest, hrest⟩ | ⟨hbrace, hbrace'⟩
    · rw [hrest, List.map_cons]
      simp only [Rune.read]
      split_ifs <;> rfl
    · split
      · rename_i heq
        exact absurd heq (hbrace _)
      · split
        · rename_i heq
          exact absurd heq (hbrace' _)
        · rw [List.length_map, ← members_read]
          cases members ((skipWs rs₁).length + 1) (skipWs rs₁) with
          | none => rfl
          | some r =>
            simp only [Option.bind_some, Option.map_some, seen]
            split_ifs <;> rfl
  · simp only [Option.map_none]

theorem skipWs_suffix (rs : List Rune) : skipWs rs <:+ rs := List.dropWhile_suffix _

theorem suffix_of_skipWs {r : Rune} {rs rs' : List Rune} (h : skipWs rs = r :: rs') : rs' <:+ rs :=
  (h ▸ List.suffix_cons r rs' : rs' <:+ skipWs rs).trans (skipWs_suffix rs)

theorem lift_suffix {α : Type} {f : List Char → Option (α × List Char)} {rs rest : List Rune} {x : α}
    (h : lift f rs = some (x, rest)) : rest <:+ rs := by
  obtain ⟨r, -, heq⟩ := Option.map_eq_some_iff.mp h
  rw [← (Prod.mk.inj heq).2]
  exact List.drop_suffix _ _

/-- The text of a member's value is a piece of the whole text. -/
theorem members_piece {n : ℕ} {rs rest : List Rune} {ms : List Member} (h : members n rs = some (ms, rest)) :
    ∀ m ∈ ms, m.raw <:+: rs := by
  induction n generalizing rs ms with
  | zero => simp [members] at h
  | succ n ih =>
    unfold members at h
    split at h
    · rename_i rs₁ hrs₁
      obtain ⟨⟨key, rs₂⟩, hkey, h⟩ := Option.bind_eq_some_iff.mp h
      dsimp only at h
      split at h
      · rename_i rs₃ hrs₃
        obtain ⟨⟨j, rs₄⟩, hj, h⟩ := Option.bind_eq_some_iff.mp h
        have hin : skipWs rs₃ <:+ rs := by
          have htail : rs₃ <:+ rs₁ := (suffix_of_skipWs hrs₃).trans (lift_suffix hkey)
          exact (skipWs_suffix rs₃).trans (htail.trans (suffix_of_skipWs hrs₁))
        have hraw : (skipWs rs₃).take ((skipWs rs₃).length - rs₄.length) <:+: rs :=
          (List.take_prefix _ _).isInfix.trans hin.isInfix
        dsimp only at h
        split at h
        · rename_i rs₅ hrs₅
          obtain ⟨⟨ms', rest'⟩, hms, heq⟩ := Option.map_eq_some_iff.mp h
          obtain ⟨rfl, rfl⟩ := Prod.mk.inj heq
          have hrest : rs₅ <:+ rs := (suffix_of_skipWs hrs₅).trans ((lift_suffix hj).trans hin)
          intro m hm
          rcases List.mem_cons.mp hm with rfl | hm
          · exact hraw
          · exact (ih hms m hm).trans hrest.isInfix
        · obtain ⟨rfl, rfl⟩ := Prod.mk.inj (Option.some.inj h)
          intro m hm
          rw [List.mem_singleton.mp hm]
          exact hraw
        · simp at h
      · simp at h
    · simp at h

theorem parseMembers_piece {rs : List Rune} {ms : List Member} (h : parseMembers rs = some ms) :
    ∀ m ∈ ms, m.raw <:+: rs := by
  unfold parseMembers at h
  split at h
  · rename_i rs₁ hrs₁
    split at h
    · split_ifs at h
      obtain rfl := Option.some.inj h
      simp
    · obtain ⟨⟨ms', rest⟩, hms, h⟩ := Option.bind_eq_some_iff.mp h
      dsimp only at h
      split_ifs at h
      obtain rfl := Option.some.inj h
      have hin : skipWs rs₁ <:+ rs := (skipWs_suffix rs₁).trans (suffix_of_skipWs hrs₁)
      exact fun m hm => (members_piece hms m hm).trans hin.isInfix
  · simp at h

/-- **A member of an object, written again**: its text is compacted to a text of the same value, and stray bytes
stay stray in it. -/
theorem written_member {bs : List UInt8} {ms : List Member} (h : parseMembers (runes bs) = some ms) {m : Member}
    (hm : m ∈ ms) {c : Char} {tail : List Rune} (htail : Divided (.char c :: tail)) :
    Json.Reads goDialect ((compactRunes .outside m.raw).map Rune.read) m.value ∧ m.raw ≠ [] ∧
      Divided (compactRunes .outside m.raw ++ .char c :: tail) := by
  have hparse : Json.parseMembers goDialect ((runes bs).map Rune.read) = some (ms.map Member.view) := by
    rw [← parseMembers_read, h]
    rfl
  have htext : Json.Text goDialect (m.raw.map Rune.read) m.value :=
    (Json.parseMembers_text hparse).2 m.view (List.mem_map_of_mem hm)
  obtain ⟨cs', hpasses, htext'⟩ := text_compact htext
  obtain ⟨pre, tail', hsplit⟩ := parseMembers_piece h m hm
  have hdivided : Divided (m.raw ++ tail') := by
    have hruns := divided_runes bs
    rw [← hsplit, List.append_assoc] at hruns
    exact hruns.of_append
  refine ⟨?_, ?_, (divided_compact htail hpasses.contains hdivided).1⟩
  · rw [compactRunes_read, hpasses.compact]
    exact htext'.reads
  · intro hnil
    rw [hnil] at htext
    obtain ⟨c, cs, heq, -⟩ := htext.reads.start
    exact absurd heq (by simp)

end PeerCall.Lenient

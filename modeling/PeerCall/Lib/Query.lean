import Mathlib

/-!
# Lib.Query — the query component of a URL, as `application/x-www-form-urlencoded` settings

A query is split at `&` into settings; a setting is a key and a value around its first `=`, both
unescaped.  A setting with a semicolon or with a bad escape is dropped, and so is an empty one.  Strings are
strings of bytes here: each character stands for the byte with its number.
-/

namespace PeerCall.Lib.Query

/-- The value of a hexadecimal digit. -/
def hexValue (c : Char) : Option ℕ :=
  if '0' ≤ c ∧ c ≤ '9' then some (c.toNat - '0'.toNat)
  else if 'a' ≤ c ∧ c ≤ 'f' then some (c.toNat - 'a'.toNat + 10)
  else if 'A' ≤ c ∧ c ≤ 'F' then some (c.toNat - 'A'.toNat + 10)
  else none

/-- Percent- and plus-decoding; `none` for a percent sign without two hexadecimal digits after it. -/
def unescape : List Char → Option (List Char)
  | [] => some []
  | c :: cs =>
    if c = '%' then
      match cs with
      | a :: b :: cs =>
        match hexValue a, hexValue b with
        | some x, some y => (unescape cs).map (Char.ofNat (16 * x + y) :: ·)
        | _, _ => none
      | _ => none
    else (unescape cs).map ((if c = '+' then ' ' else c) :: ·)

/-- What stands before the first `sep`, and what stands after it. -/
def cut (sep : Char) (s : List Char) : List Char × List Char :=
  (s.takeWhile (· ≠ sep), (s.dropWhile (· ≠ sep)).tail)

/-- The key and the value of a setting. -/
def setting (s : List Char) : Option (List Char × List Char) :=
  if ';' ∈ s ∨ s = [] then none
  else
    (unescape (cut '=' s).1).bind fun key => (unescape (cut '=' s).2).map fun value => (key, value)

/-- The settings of a query that are not dropped, in order. -/
def settings (query : List Char) : List (List Char × List Char) := (query.splitOn '&').filterMap setting

/-- The first value of a key. -/
def first (query key : List Char) : Option (List Char) := (settings query).lookup key

/-- The first value of a key, empty if there is none. -/
def get (query key : List Char) : List Char := (first query key).getD []

/-! ### Cutting at a separator -/

section Cut

variable {c : Char} {l rest : List Char}

theorem takeWhile_ne (hl : c ∉ l) (hr : rest = [] ∨ rest.head? = some c) :
    (l ++ rest).takeWhile (· ≠ c) = l := by
  rw [List.takeWhile_append_of_pos fun a ha => by simpa using fun h : a = c => hl (h ▸ ha)]
  rcases hr with rfl | hr
  · simp
  · obtain ⟨rest', rfl⟩ := List.head?_eq_some_iff.mp hr
    simp

theorem dropWhile_ne (hl : c ∉ l) (hr : rest = [] ∨ rest.head? = some c) :
    (l ++ rest).dropWhile (· ≠ c) = rest := by
  rw [List.dropWhile_append_of_pos fun a ha => by simpa using fun h : a = c => hl (h ▸ ha)]
  rcases hr with rfl | hr
  · simp
  · obtain ⟨rest', rfl⟩ := List.head?_eq_some_iff.mp hr
    simp

theorem notMem_takeWhile (c : Char) (l : List Char) : c ∉ l.takeWhile (· ≠ c) := fun h => by
  simpa using List.mem_takeWhile_imp h

/-- What is left begins with the separator. -/
theorem head_dropWhile (c : Char) (l : List Char) :
    l.dropWhile (· ≠ c) = [] ∨ (l.dropWhile (· ≠ c)).head? = some c := by
  cases hd : l.dropWhile (· ≠ c) with
  | nil => exact .inl rfl
  | cons a rest =>
    refine .inr ?_
    have hne : l.dropWhile (· ≠ c) ≠ [] := by
      rw [hd]
      exact List.cons_ne_nil a rest
    have hstop := List.head_dropWhile_not (· ≠ c) hne
    simp only [hd, List.head_cons] at hstop
    simpa using hstop

/-- Cut at the last separator. -/
theorem eq_append_of_mem (h : c ∈ l) :
    l = (l.reverse.dropWhile (· ≠ c)).tail.reverse ++ c :: (l.reverse.takeWhile (· ≠ c)).reverse := by
  have hsplit := List.takeWhile_append_dropWhile (p := (· ≠ c)) (l := l.reverse)
  rcases head_dropWhile c l.reverse with hnil | hhead
  · rw [hnil, List.append_nil] at hsplit
    have hmem : c ∈ l.reverse := List.mem_reverse.mpr h
    rw [← hsplit] at hmem
    exact absurd hmem (notMem_takeWhile c l.reverse)
  · obtain ⟨rest, hrest⟩ := List.head?_eq_some_iff.mp hhead
    rw [hrest] at hsplit ⊢
    have hl : l = (l.reverse.takeWhile (· ≠ c) ++ c :: rest).reverse := by rw [hsplit, List.reverse_reverse]
    simpa using hl

end Cut

/-! ### Unescaping -/

section Unescape

variable {s t : List Char}

theorem unescape_cons {c : Char} (hc : c ≠ '%') (cs : List Char) :
    unescape (c :: cs) = (unescape cs).map ((if c = '+' then ' ' else c) :: ·) := by
  rw [unescape.eq_def]
  exact if_neg hc

/-- An escape is two digits, and is one character. -/
theorem unescape_percent {cs : List Char} (h : unescape ('%' :: cs) = some t) :
    ∃ (a b : Char) (cs' t' : List Char) (c : Char), cs = a :: b :: cs' ∧ unescape cs' = some t' ∧ t = c :: t' := by
  rw [unescape.eq_def] at h
  simp only [if_true] at h
  rcases cs with _ | ⟨a, _ | ⟨b, cs'⟩⟩
  · cases h
  · cases h
  · rcases ha : hexValue a with _ | x
    · simp [ha] at h
    rcases hb : hexValue b with _ | y
    · simp [ha, hb] at h
    simp only [ha, hb, Option.map_eq_some_iff] at h
    obtain ⟨t', ht', rfl⟩ := h
    exact ⟨a, b, cs', t', _, rfl, ht', rfl⟩

/-- Unescaping does not make a string longer. -/
theorem unescape_length (h : unescape s = some t) : t.length ≤ s.length := by
  induction hn : s.length using Nat.strong_induction_on generalizing s t with
  | _ n ih =>
    rcases s with _ | ⟨c, cs⟩
    · obtain rfl := Option.some.inj h
      exact hn.le
    rw [List.length_cons] at hn
    by_cases hc : c = '%'
    · subst hc
      obtain ⟨a, b, cs', t', d, rfl, ht', rfl⟩ := unescape_percent h
      simp only [List.length_cons] at hn ⊢
      have := ih cs'.length (by omega) ht' rfl
      omega
    · rw [unescape_cons hc, Option.map_eq_some_iff] at h
      obtain ⟨t', ht', rfl⟩ := h
      have := ih cs.length (by omega) ht' rfl
      rw [List.length_cons]
      omega

/-- **A string is its own unescaping** exactly when it has neither an escape nor a plus sign. -/
theorem unescape_eq_self_iff : ∀ s : List Char, unescape s = some s ↔ '%' ∉ s ∧ '+' ∉ s := by
  intro s
  induction s with
  | nil => simp [unescape]
  | cons c cs ih =>
    by_cases hc : c = '%'
    · subst hc
      refine ⟨fun h => ?_, fun h => absurd List.mem_cons_self h.1⟩
      -- an escape makes the string shorter
      obtain ⟨a, b, cs', t', d, rfl, ht', ht⟩ := unescape_percent h
      have := unescape_length ht'
      have := congrArg List.length ht
      simp only [List.length_cons] at this
      omega
    · rw [unescape_cons hc, Option.map_eq_some_iff]
      by_cases hp : c = '+'
      · subst hp
        simp
      · simp only [hp, if_false, List.cons.injEq, true_and, exists_eq_right, ih, List.mem_cons, not_or]
        exact ⟨fun h => ⟨⟨Ne.symm hc, h.1⟩, Ne.symm hp, h.2⟩, fun h => ⟨h.1.2, h.2.2⟩⟩

end Unescape

/-! ### Settings -/

section Settings

variable {s q r key v : List Char}

theorem settings_append (q r : List Char) : settings (q ++ '&' :: r) = settings q ++ settings r := by
  unfold settings
  rw [List.splitOn_append_cons_self, List.filterMap_append]

@[simp] theorem settings_nil : settings [] = [] := by simp [settings, setting]

/-- **The first value of a key** is looked for in what stands before an ampersand first. -/
theorem first_append (q r key : List Char) : first (q ++ '&' :: r) key = (first q key).or (first r key) := by
  unfold first
  rw [settings_append, List.lookup_append]

@[simp] theorem first_nil (key : List Char) : first [] key = none := by simp [first]

/-- One setting. -/
theorem first_setting (h : '&' ∉ s) : first s key = ((setting s).toList).lookup key := by
  unfold first settings
  rw [List.splitOn_eq_singleton h]
  cases hs : setting s <;> simp [hs]

theorem cut_append (sep : Char) (hk : sep ∉ q) (r : List Char) : cut sep (q ++ sep :: r) = (q, r) := by
  have hr : sep :: r = [] ∨ (sep :: r).head? = some sep := .inr rfl
  unfold cut
  rw [takeWhile_ne hk hr, dropWhile_ne hk hr]
  rfl

/-- A value is no longer than the query. -/
theorem setting_length (h : setting s = some (key, v)) : v.length ≤ s.length := by
  unfold setting at h
  split_ifs at h
  simp only [Option.bind_eq_some_iff, Option.map_eq_some_iff, Prod.mk.injEq] at h
  obtain ⟨k, -, w, hw, -, rfl⟩ := h
  refine (unescape_length hw).trans ?_
  unfold cut
  rw [List.length_tail]
  have := (List.dropWhile_suffix (fun c => decide (c ≠ '=')) (l := s)).length_le
  omega

/-- A value is no longer than the query. -/
theorem first_length (h : first q key = some v) : v.length ≤ q.length := by
  induction hn : q.length using Nat.strong_induction_on generalizing q with
  | _ n ih =>
    by_cases hq : '&' ∈ q
    · obtain ⟨a, r, rfl, -⟩ := List.eq_append_cons_of_mem hq
      rw [List.length_append, List.length_cons] at hn
      rw [first_append, Option.or_eq_some_iff] at h
      rcases h with h | ⟨-, h⟩
      · have := ih a.length (by omega) h rfl
        omega
      · have := ih r.length (by omega) h rfl
        omega
    · rw [first_setting hq] at h
      rcases hs : setting q with _ | ⟨k, w⟩
      · simp [hs] at h
      · rw [hs, Option.toList_some, List.lookup_cons] at h
        split at h
        · obtain rfl := Option.some.inj h
          rw [← hn]
          exact setting_length hs
        · cases h

/-- A key that stands for itself in a query. -/
def Plain (key : List Char) : Prop :=
  '&' ∉ key ∧ ';' ∉ key ∧ '=' ∉ key ∧ '%' ∉ key ∧ '+' ∉ key

instance (key : List Char) : Decidable (Plain key) := by unfold Plain; infer_instance

/-- The setting of a plain key to a value. -/
theorem first_keyed_single (hk : Plain key) (hv : '&' ∉ v) :
    first (key ++ '=' :: v) key = if ';' ∈ v then none else unescape v := by
  obtain ⟨h1, h2, h3, h4, h5⟩ := hk
  have hkey : unescape key = some key := (unescape_eq_self_iff key).mpr ⟨h4, h5⟩
  rw [first_setting (by simp [h1, hv])]
  unfold setting
  rw [cut_append '=' h3]
  by_cases hs : ';' ∈ v
  · simp [hs]
  · rw [if_neg hs, if_neg (by simp [h2, hs]), hkey]
    cases unescape v <;> simp

/-- **What a query tells of a key that has been set last, without encoding**: the value itself, exactly when
it has no ampersand, no semicolon, no percent sign and no plus sign. -/
theorem first_keyed_iff (hk : Plain key) :
    first (key ++ '=' :: v) key = some v ↔ '&' ∉ v ∧ ';' ∉ v ∧ '%' ∉ v ∧ '+' ∉ v := by
  by_cases hv : '&' ∈ v
  · refine ⟨fun h => ?_, fun h => absurd hv h.1⟩
    -- every value of the key is shorter than `v`
    obtain ⟨a, r, rfl, ha⟩ := List.eq_append_cons_of_mem hv
    have hsplit : key ++ '=' :: (a ++ '&' :: r) = (key ++ '=' :: a) ++ '&' :: r := by simp
    rw [hsplit, first_append, Option.or_eq_some_iff, first_keyed_single hk ha] at h
    rcases h with h | ⟨-, h⟩
    · split_ifs at h
      have := unescape_length h
      simp only [List.length_append, List.length_cons] at this
      omega
    · have := first_length h
      simp only [List.length_append, List.length_cons] at this
      omega
  · rw [first_keyed_single hk hv]
    by_cases hs : ';' ∈ v
    · simp [hs]
    · rw [if_neg hs, unescape_eq_self_iff]
      exact ⟨fun h => ⟨hv, hs, h⟩, fun h => h.2.2⟩

end Settings

end PeerCall.Lib.Query

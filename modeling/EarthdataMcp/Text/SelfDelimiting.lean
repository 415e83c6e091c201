import Mathlib.Tactic

/-!
# Codes that delimit themselves

A code delimits itself if what follows a code word never changes where the word ends. Such codes
can be put one after the other, and between brackets; the strings of JSON are one.

* `SelfDelimiting`, and its rules `of_decode`, `append`, `flatMap_stop` and `listCode`;
* `quoted`, a text as `json.dumps` writes it, in ASCII;
* `selfDelimiting_quoted`.
-/

namespace Text

/-! ### The rules -/

section rules

variable {α α' β : Type} {code : α → List β} {code' : α' → List β}

/-- The end of a code word is where it is, whatever follows. -/
def SelfDelimiting (code : α → List β) : Prop :=
  ∀ a b x y, code a ++ x = code b ++ y → a = b ∧ x = y

theorem SelfDelimiting.injective (h : SelfDelimiting code) : Function.Injective code := by
  intro a b heq
  exact (h a b [] [] (by rw [heq])).1

/-- What can be read off the front of a text delimits itself. -/
theorem SelfDelimiting.of_decode (decode : List β → Option (α × List β))
    (h : ∀ a x, decode (code a ++ x) = some (a, x)) : SelfDelimiting code := by
  intro a b x y heq
  have hdecode : some (a, x) = some (b, y) := by rw [← h a x, heq, h b y]
  exact Prod.mk.inj (Option.some.inj hdecode)

theorem SelfDelimiting.append (h : SelfDelimiting code) (h' : SelfDelimiting code') :
    SelfDelimiting fun p : α × α' => code p.1 ++ code' p.2 := by
  rintro ⟨a, a'⟩ ⟨b, b'⟩ x y heq
  simp only [List.append_assoc] at heq
  obtain ⟨hfirst, hrest⟩ := h a b _ _ heq
  obtain ⟨hsecond, hrest⟩ := h' a' b' _ _ hrest
  exact ⟨Prod.ext hfirst hsecond, hrest⟩

theorem SelfDelimiting.cons (h : SelfDelimiting code) (c : β) :
    SelfDelimiting fun a => c :: code a := by
  intro a b x y heq
  exact h a b x y (List.cons.inj heq).2

/-- No code word starts with this. -/
def NeverStarts (c : β) (code : α → List β) : Prop := ∀ a, ∃ d rest, code a = d :: rest ∧ d ≠ c

/-- A sequence of code words ends at a stop that none of them starts with. -/
theorem SelfDelimiting.flatMap_stop (h : SelfDelimiting code) {stop : β}
    (hstop : NeverStarts stop code) : SelfDelimiting fun as : List α => as.flatMap code ++ [stop] := by
  intro as
  induction as with
  | nil =>
    intro bs x y heq
    cases bs with
    | nil => exact ⟨rfl, (List.cons.inj heq).2⟩
    | cons b bs =>
      obtain ⟨d, rest, hcode, hne⟩ := hstop b
      simp only [List.flatMap_nil, List.flatMap_cons, hcode, List.nil_append, List.cons_append] at heq
      exact absurd (List.cons.inj heq).1.symm hne
  | cons a as ih =>
    intro bs x y heq
    cases bs with
    | nil =>
      obtain ⟨d, rest, hcode, hne⟩ := hstop a
      simp only [List.flatMap_nil, List.flatMap_cons, hcode, List.nil_append, List.cons_append] at heq
      exact absurd (List.cons.inj heq).1 hne
    | cons b bs =>
      simp only [List.flatMap_cons, List.append_assoc] at heq
      obtain ⟨rfl, htail⟩ := h a b _ _ heq
      simp only [← List.append_assoc] at htail
      obtain ⟨rfl, hrest⟩ := ih bs x y htail
      exact ⟨rfl, hrest⟩

/-- Code words between brackets, with a separator between them. -/
def listCode (opening separator closing : β) (code : α → List β) : List α → List β
  | [] => [opening, closing]
  | a :: as => opening :: (code a ++ (as.flatMap (fun b => separator :: code b) ++ [closing]))

theorem SelfDelimiting.listCode (h : SelfDelimiting code) {opening separator closing : β}
    (hclosing : NeverStarts closing code) (hne : separator ≠ closing) :
    SelfDelimiting (listCode opening separator closing code) := by
  have hrest : SelfDelimiting fun as : List α =>
      as.flatMap (fun b => separator :: code b) ++ [closing] :=
    (h.cons separator).flatMap_stop fun a => ⟨separator, code a, rfl, hne⟩
  intro as bs x y heq
  cases as with
  | nil =>
    cases bs with
    | nil => exact ⟨rfl, (List.cons.inj (List.cons.inj heq).2).2⟩
    | cons b bs =>
      obtain ⟨d, rest, hcode, hd⟩ := hclosing b
      have hhead := (List.cons.inj heq).2
      rw [hcode] at hhead
      exact absurd (List.cons.inj hhead).1.symm hd
  | cons a as =>
    cases bs with
    | nil =>
      obtain ⟨d, rest, hcode, hd⟩ := hclosing a
      have hhead := (List.cons.inj heq).2
      rw [hcode] at hhead
      exact absurd (List.cons.inj hhead).1 hd
    | cons b bs =>
      simp only [Text.listCode, List.cons_append, List.append_assoc] at heq
      have hwords := (List.cons.inj heq).2
      obtain ⟨rfl, htail⟩ := h a b _ _ hwords
      obtain ⟨rfl, hend⟩ := hrest as bs x y (by simpa using htail)
      exact ⟨rfl, hend⟩

end rules

/-! ### The strings of JSON -/

/-- Four digits in hexadecimal. -/
def hexDigits (n : ℕ) : List Char :=
  [Nat.digitChar (n / 4096 % 16), Nat.digitChar (n / 256 % 16), Nat.digitChar (n / 16 % 16),
    Nat.digitChar (n % 16)]

/-- `\uXXXX`. -/
def unicodeEscape (n : ℕ) : List Char := '\\' :: 'u' :: hexDigits n

/-- A character in a string: as it is if it is printable ASCII, else by an escape; one that is not
in the basic plane by those of its two surrogates. -/
def escapeChar (c : Char) : List Char :=
  if c = '"' then ['\\', '"']
  else if c = '\\' then ['\\', '\\']
  else if c = '\n' then ['\\', 'n']
  else if c = '\r' then ['\\', 'r']
  else if c = '\t' then ['\\', 't']
  else if c = '\x0c' then ['\\', 'f']
  else if c = '\x08' then ['\\', 'b']
  else if 32 ≤ c.toNat ∧ c.toNat ≤ 126 then [c]
  else if c.toNat < 65536 then unicodeEscape c.toNat
  else unicodeEscape (55296 + (c.toNat - 65536) / 1024) ++
    unicodeEscape (56320 + (c.toNat - 65536) % 1024)

/-- A text as `json.dumps` writes it. -/
def quoted (s : String) : List Char := '"' :: (s.toList.flatMap escapeChar ++ ['"'])

/-- The value of a digit in hexadecimal. -/
def hexValue (c : Char) : ℕ := if c.toNat < 58 then c.toNat - 48 else c.toNat - 87

/-- The number that four digits stand for. -/
def hexNumber (a b c d : Char) : ℕ :=
  hexValue a * 4096 + hexValue b * 256 + hexValue c * 16 + hexValue d

/-- Read one character of a string. -/
def readChar : List Char → Option (Char × List Char)
  | [] => none
  | '\\' :: 'u' :: a :: b :: c :: d :: rest =>
      let n := hexNumber a b c d
      if 55296 ≤ n ∧ n < 56320 then
        match rest with
        | _ :: _ :: a :: b :: c :: d :: rest =>
            some (Char.ofNat (65536 + (n - 55296) * 1024 + (hexNumber a b c d - 56320)), rest)
        | _ => none
      else some (Char.ofNat n, rest)
  | '\\' :: 'n' :: rest => some ('\n', rest)
  | '\\' :: 'r' :: rest => some ('\r', rest)
  | '\\' :: 't' :: rest => some ('\t', rest)
  | '\\' :: 'f' :: rest => some ('\x0c', rest)
  | '\\' :: 'b' :: rest => some ('\x08', rest)
  | '\\' :: c :: rest => some (c, rest)
  | c :: rest => some (c, rest)

theorem hexValue_digitChar {n : ℕ} (h : n < 16) : hexValue (Nat.digitChar n) = n := by
  have hall : ∀ m : Fin 16, hexValue (Nat.digitChar m) = m := by decide
  exact hall ⟨n, h⟩

theorem hexNumber_hexDigits {n : ℕ} (h : n < 65536) :
    hexNumber (Nat.digitChar (n / 4096 % 16)) (Nat.digitChar (n / 256 % 16))
      (Nat.digitChar (n / 16 % 16)) (Nat.digitChar (n % 16)) = n := by
  unfold hexNumber
  rw [hexValue_digitChar (Nat.mod_lt _ (by decide)), hexValue_digitChar (Nat.mod_lt _ (by decide)),
    hexValue_digitChar (Nat.mod_lt _ (by decide)), hexValue_digitChar (Nat.mod_lt _ (by decide))]
  omega

theorem not_surrogate (c : Char) : ¬(55296 ≤ c.toNat ∧ c.toNat < 56320) := by
  have hvalid : c.toNat.isValidChar := c.valid
  unfold Nat.isValidChar at hvalid
  omega

theorem toNat_lt (c : Char) : c.toNat < 1114112 := by
  have hvalid : c.toNat.isValidChar := c.valid
  unfold Nat.isValidChar at hvalid
  omega

/-- An escape of the basic plane stands for one character. -/
theorem readChar_unicodeEscape {n : ℕ} (h : n < 65536) (hbasic : ¬(55296 ≤ n ∧ n < 56320))
    (rest : List Char) : readChar (unicodeEscape n ++ rest) = some (Char.ofNat n, rest) := by
  simp only [unicodeEscape, hexDigits, List.cons_append, List.nil_append, readChar,
    hexNumber_hexDigits h, if_neg hbasic]

/-- The escapes of two surrogates stand for one character. -/
theorem readChar_surrogates {n : ℕ} (h : n < 1048576) (rest : List Char) :
    readChar (unicodeEscape (55296 + n / 1024) ++ unicodeEscape (56320 + n % 1024) ++ rest) =
      some (Char.ofNat (65536 + n), rest) := by
  have hhigh : 55296 + n / 1024 < 65536 := by omega
  have hlow : 56320 + n % 1024 < 65536 := by omega
  have hpair : 55296 ≤ 55296 + n / 1024 ∧ 55296 + n / 1024 < 56320 := by omega
  simp only [unicodeEscape, hexDigits, List.cons_append, List.nil_append, readChar,
    hexNumber_hexDigits hhigh, hexNumber_hexDigits hlow, if_pos hpair]
  have hnumber : 65536 + (55296 + n / 1024 - 55296) * 1024 + (56320 + n % 1024 - 56320) =
      65536 + n := by omega
  rw [hnumber]

theorem readChar_escapeChar (c : Char) (rest : List Char) :
    readChar (escapeChar c ++ rest) = some (c, rest) := by
  unfold escapeChar
  split_ifs with hquote hbackslash hnewline hreturn htab hfeed hback hprintable hbasic
  · rw [hquote]; rfl
  · rw [hbackslash]; rfl
  · rw [hnewline]; rfl
  · rw [hreturn]; rfl
  · rw [htab]; rfl
  · rw [hfeed]; rfl
  · rw [hback]; rfl
  · have hread : readChar (c :: rest) = some (c, rest) := by
      unfold readChar
      split <;> simp_all
    exact hread
  · rw [readChar_unicodeEscape hbasic (not_surrogate c), Char.ofNat_toNat]
  · have hlt := toNat_lt c
    rw [readChar_surrogates (by omega)]
    have hnumber : 65536 + (c.toNat - 65536) = c.toNat := by omega
    rw [hnumber, Char.ofNat_toNat]

theorem selfDelimiting_escapeChar : SelfDelimiting escapeChar :=
  SelfDelimiting.of_decode readChar readChar_escapeChar

/-- Where a character is escaped, a backslash stands first, and else the character. -/
theorem neverStarts_escapeChar : NeverStarts '"' escapeChar := by
  intro c
  unfold escapeChar
  split_ifs with hquote
  all_goals first
    | exact ⟨c, [], rfl, hquote⟩
    | exact ⟨'\\', _, rfl, by decide⟩

/-- **A quoted text delimits itself.** -/
theorem selfDelimiting_quoted : SelfDelimiting quoted := by
  intro s t x y heq
  have hend := (selfDelimiting_escapeChar.flatMap_stop neverStarts_escapeChar).cons '"'
  obtain ⟨hchars, hrest⟩ := hend s.toList t.toList x y heq
  exact ⟨String.toList_inj.1 hchars, hrest⟩

theorem neverStarts_quoted {c : Char} (h : c ≠ '"') : NeverStarts c quoted := by
  intro s
  exact ⟨'"', _, rfl, fun heq => h heq.symm⟩

end Text
